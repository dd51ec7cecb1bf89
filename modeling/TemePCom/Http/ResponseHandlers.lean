/-
TemePCom/Http/ResponseHandlers.lean

What the client makes of a response (response_handlers.h, response_handlers.cpp).

A response is the C string at the pointer.  The handlers change the session by the
references they are given; an exception other than the `parse_error` they catch
ends the program.
-/
import TemePCom.Http.Requests

namespace TemePCom.Http

/-- The session variables of `main`. -/
structure Session where
  loginCookie : Bytes
  jwtToken : Bytes
  isConnected : Bool
  deriving DecidableEq

/-- `auth_type`: `LOGIN` is `true`, `REGISTER` is `false`. -/
def login : Bool := true
def register : Bool := false

/-- What a function returns, if it returns, and the session then. -/
abbrev Answer : Type := Except Stop (ℤ × Session)

/-- `login_cookie_handler`. -/
def loginCookieHandler (response : Bytes) (s : Session) : ℤ × Session :=
  match strstr response (ascii "Set-Cookie: ") with
  | none => (exitFailure, s)
  | some cookieStart =>
    match Search.first? (ascii ";") cookieStart with
    | none => (exitFailure, s)
    | some cookieEnd =>
      (exitSuccess, { s with
        loginCookie := (cookieStart.take cookieEnd).drop 12
        isConnected := true })

/-- `extract_json_response`: from the blank line on. -/
def extractJsonResponse (response : Bytes) : Option Bytes := strstr response (ascii "\r\n\r\n")

/-- `auth_response_handler`. -/
def authResponseHandler (J : Json) (response : Bytes) (s : Session) (authType : Bool) : Answer :=
  match extractJsonResponse response with
  | none => .ok (exitFailure, s)
  | some data =>
    match J.parse data with
    | .error .parseError =>
      if authType = login then .ok (loginCookieHandler response s)
      else .ok (exitSuccess, s)
    | .error .other => .error .uncaught
    | .ok json =>
      if J.contains json (ascii "error") ∧ authType = register then .ok (exitFailure, s)
      else if J.contains json (ascii "error") ∧ authType = login then .ok (exitFailure, s)
      else .ok (exitSuccess, s)

/-- `parse_json`: the value, or none with `EXIT_FAILURE`. -/
def parseJson (J : Json) (data : Bytes) : Except Stop (Option J.Value) :=
  match J.parse data with
  | .ok json => .ok (some json)
  | .error .parseError => .ok none
  | .error .other => .error .uncaught

/-- `entrance_response_handler`. -/
def entranceResponseHandler (J : Json) (response : Bytes) (s : Session) : Answer :=
  match extractJsonResponse response with
  | none => .ok (exitFailure, s)
  | some data =>
    match parseJson J data with
    | .error stop => .error stop
    | .ok none => .ok (exitFailure, s)
    | .ok (some json) =>
      if !J.contains json (ascii "token") then .ok (exitFailure, s)
      else
        match J.string json (ascii "token") with
        | none => .error .uncaught
        | some token => .ok (exitSuccess, { s with jwtToken := token })

/-- `summary_handler`. -/
def summaryHandler (J : Json) (response : Bytes) : Except Stop ℤ :=
  match extractJsonResponse response with
  | none => .ok exitFailure
  | some data =>
    match parseJson J data with
    | .error stop => .error stop
    | .ok none => .ok exitFailure
    | .ok (some json) => if !J.isArray json then .ok exitFailure else .ok exitSuccess

/-- `details_handler`. -/
def detailsHandler (J : Json) (response : Bytes) : Except Stop ℤ :=
  match extractJsonResponse response with
  | none => .ok exitFailure
  | some data =>
    match parseJson J data with
    | .error stop => .error stop
    | .ok none => .ok exitFailure
    | .ok (some json) =>
      if J.contains json (ascii "error") then .ok exitFailure else .ok exitSuccess

/-- `basic_json_handler`: a body that is no JSON text is a success. -/
def basicJsonHandler (J : Json) (response : Bytes) : Except Stop ℤ :=
  match extractJsonResponse response with
  | none => .ok exitFailure
  | some data =>
    match J.parse data with
    | .error .parseError => .ok exitSuccess
    | .error .other => .error .uncaught
    | .ok json => if J.contains json (ascii "error") then .ok exitFailure else .ok exitSuccess

end TemePCom.Http
