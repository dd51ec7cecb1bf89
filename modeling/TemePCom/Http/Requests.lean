/-
TemePCom/Http/Requests.lean

The requests and how they are sent (requests.h, requests.cpp).

The host, URL and flag come from the client itself, which uses only the flags
POST, GET and DELETE.  `send_request` tells its caller that there is no connection
by `EXIT_FAILURE`, which is 1, and tests a `size_t` for being negative.
-/
import TemePCom.Http.ServerOps
import TemePCom.Http.Forms

namespace TemePCom.Http

open Decimal

/-- `EXIT_SUCCESS` and `EXIT_FAILURE`. -/
def exitSuccess : ℤ := 0
def exitFailure : ℤ := 1

/-- `HOST`. -/
def host : Bytes := ascii "34.241.4.235"

/-- The `flag` of `requester`. -/
inductive Flag
  | post
  | get
  | delete
  deriving DecidableEq

/-- What the request line begins with. -/
def Flag.text : Flag → Bytes
  | .post => ascii "POST "
  | .get => ascii "GET "
  | .delete => ascii "DELETE "

/-! ### The texts -/

/-- `compute_string`: a line with its end. -/
def computeString (line : Bytes) : Bytes := line ++ ascii "\r\n"

/-- The request line and the `Host` line, the same in all requests. -/
def requestHead (flag : Flag) (host url : Bytes) : Bytes :=
  computeString (flag.text ++ url ++ ascii " HTTP/1.1") ++ computeString (ascii "Host: " ++ host)

/-- The `Authorization` line, if there is anything to say. -/
def authLine (auth : Bytes) : Bytes :=
  if auth ≠ [] then computeString (ascii "Authorization: " ++ auth) else []

/-- The `Cookie` lines of a POST request. -/
def plainCookies (cookies : List Bytes) : Bytes :=
  cookies.flatMap fun cookie => computeString (ascii "Cookie: " ++ cookie)

/-- The `Cookie` lines of the other requests: a cookie equal to the last one has
`"; "` behind it. -/
def markedCookies (cookies : List Bytes) : Bytes :=
  cookies.flatMap fun cookie =>
    computeString (ascii "Cookie: " ++ cookie ++
      if some cookie = cookies.getLast? then ascii "; " else [])

/-- `compute_post_request`; `json` is what `dump` returns. -/
def computePostRequest (host url contentType : Bytes) (cookies : List Bytes)
    (json auth : Bytes) : Bytes :=
  requestHead .post host url ++
    computeString (ascii "Content-Type: " ++ contentType) ++
    computeString (ascii "Content-Length: " ++ numeral json.length) ++
    plainCookies cookies ++ authLine auth ++ ascii "\r\n" ++ json

/-- `compute_get_request`. -/
def computeGetRequest (host url : Bytes) (cookies : List Bytes) (auth : Bytes) : Bytes :=
  requestHead .get host url ++ markedCookies cookies ++ authLine auth ++ ascii "\r\n"

/-- `compute_delete_request`, which does not use its content type. -/
def computeDeleteRequest (host url _contentType : Bytes) (cookies : List Bytes)
    (auth : Bytes) : Bytes :=
  requestHead .delete host url ++ markedCookies cookies ++ authLine auth ++ ascii "\r\n"

/-! ### `send_request` -/

/-- `send_request`. -/
def sendRequest (w : World) (request : Bytes) : List Call × ℤ :=
  let requestC := cString request
  let opened := openConnection w
  let sockfd := opened.2
  if sockfd < 0 then (opened.1, exitFailure)
  else
    let sent := sendToServer w sockfd requestC
    if sent.2 < 0 then (opened.1 ++ sent.1, exitFailure)
    else (opened.1 ++ sent.1, sockfd)

/-- The text `requester` sends; `none` when `dump` throws. -/
def requestText (J : Json) (url : Bytes) (cookies : List Bytes) (flag : Flag) (auth : Bytes)
    (json : Form) : Option Bytes :=
  match flag with
  | .post =>
    (J.dump json).map fun json =>
      computePostRequest host (cString url) (ascii "application/json") cookies json auth
  | .get => some (computeGetRequest host (cString url) cookies auth)
  | .delete =>
    some (computeDeleteRequest host (cString url) (ascii "application/json") cookies auth)

/-- `requester`. -/
def requester (J : Json) (w : World) (url : Bytes) (cookies : List Bytes) (flag : Flag)
    (auth : Bytes) (json : Form) : List Call × Except Stop ℤ :=
  match requestText J url cookies flag auth json with
  | none => ([], .error .uncaught)
  | some request =>
    let sent := sendRequest w request
    (sent.1, .ok sent.2)

end TemePCom.Http
