/-
TemePCom/Http/Asking.lean

What a command asks the server for.

`Command.asks` is the request of a command as its user means it: a method, a target, the
cookie of the session with the semicolon the client writes behind it, the token, and the
form.  The bytes that the command sends are read as exactly that
(`Command.request_asks`), if what the session stores can stand in a line
(`Session.Tidy`); what is typed need not be looked at, since `>>` stops at white space and
the URL at a NUL.  And however much each `write` accepts, all of them are sent
(`written_sendLoop`).
-/
import TemePCom.Http.Cookie
import TemePCom.Http.FormInput

namespace TemePCom.Http

open Decimal

/-! ### What is written -/

/-- The bytes that the `write`s to a descriptor have accepted. -/
def written (fd : ℤ) (calls : List Call) : Bytes :=
  calls.flatMap fun call =>
    match call with
    | .write sockfd offered (some n) => if sockfd = fd then offered.take n else []
    | _ => []

@[simp] theorem written_append (fd : ℤ) (calls later : List Call) :
    written fd (calls ++ later) = written fd calls ++ written fd later := List.flatMap_append

@[simp] theorem written_nil (fd : ℤ) : written fd [] = [] := rfl

theorem written_write (fd : ℤ) (offered : Bytes) (n : ℕ) (calls : List Call) :
    written fd (.write fd offered (some n) :: calls) = offered.take n ++ written fd calls := by
  show (if fd = fd then offered.take n else []) ++ _ = _
  rw [if_pos rfl]
  rfl

/-- Reads write nothing. -/
theorem written_reads (fd sockfd : ℤ) (reads : List ReadResult) :
    written fd (reads.map (Call.read sockfd)) = [] := by
  induction reads with
  | nil => rfl
  | cons r reads ih => exact ih

/-- **The whole message is sent**, however much each `write` accepts of it. -/
theorem written_sendLoop (fd : ℤ) (plan : List ℕ) (bytesSent : ℕ) (rest : Bytes) :
    written fd (sendLoop fd bytesSent rest (plan.map some)).1 = rest := by
  induction plan generalizing bytesSent rest with
  | nil =>
    rw [List.map_nil, sendLoop]
    split_ifs with hrest
    · rw [written_write, List.take_length, written_nil, List.append_nil]
    · exact (List.length_eq_zero_iff.mp (Nat.eq_zero_of_not_pos hrest)).symm
  | cons planned plan ih =>
    rw [List.map_cons, sendLoop]
    split_ifs with hrest
    · show written fd (.write fd rest _ :: _) = rest
      rw [written_write, ih, List.take_append_drop]
    · exact (List.length_eq_zero_iff.mp (Nat.eq_zero_of_not_pos hrest)).symm

theorem cString_of_notMem {text : Bytes} (h : 0 ∉ text) : cString text = text := by
  refine List.takeWhile_eq_self_iff.mpr fun c hc => ?_
  have hne : c ≠ 0 := fun hzero => h (hzero ▸ hc)
  simpa using hne

theorem cString_notMem (memory : Bytes) : 0 ∉ cString memory := fun h => by
  simpa using List.mem_takeWhile_imp h

/-! ### The bytes of a request -/

section Build

variable {p : Parts} {flag : Flag}

theorem zero_notMem_block {lines : List Bytes} (h : ∀ line ∈ lines, 0 ∉ line) :
    0 ∉ block lines := by
  intro hmem
  obtain ⟨line, hline, hc⟩ := List.mem_flatMap.mp hmem
  rcases List.mem_append.mp hc with hc | hc
  exacts [h line hline hc, absurd hc (by decide)]

theorem zero_notMem_numeral (n : ℕ) : 0 ∉ numeral n := fun h =>
  absurd (isDigit_of_mem_numeral h) (by decide)

theorem zero_notMem_cookieValues (h : ∀ cookie ∈ p.cookies, 0 ∉ cookie) {value : Bytes}
    (hvalue : value ∈ p.cookieValues flag) : 0 ∉ value := by
  have hmarked : value ∈ p.cookies.map (fun cookie =>
      cookie ++ if some cookie = p.cookies.getLast? then ascii "; " else []) → 0 ∉ value := by
    intro hmem
    obtain ⟨cookie, hcookie, rfl⟩ := List.mem_map.mp hmem
    rw [List.mem_append, not_or]
    refine ⟨h cookie hcookie, ?_⟩
    split <;> decide
  cases flag with
  | post => exact h value hvalue
  | get | delete => exact hmarked hvalue

/-- The lines of the fields are free of NUL if what is built into them is. -/
theorem zero_notMem_fieldLine (hhost : 0 ∉ p.host) (htype : 0 ∉ p.contentType)
    (hcookies : ∀ cookie ∈ p.cookies, 0 ∉ cookie) (hauth : 0 ∉ p.auth) {field : Bytes × Bytes}
    (hfield : field ∈ p.fields flag) : 0 ∉ fieldLine field := by
  have hline {name value : Bytes} (hname : 0 ∉ name) (hvalue : 0 ∉ value) :
      0 ∉ fieldLine (name, value) := by
    show 0 ∉ name ++ ([58, 32] ++ value)
    simp [hname, hvalue]
  rw [Parts.fields, List.mem_cons, List.mem_append, List.mem_append] at hfield
  rcases hfield with rfl | hbody | hcookie | hmem
  · exact hline (by decide) hhost
  · cases flag with
    | post =>
      rcases List.mem_pair.mp hbody with rfl | rfl
      exacts [hline (by decide) htype, hline (by decide) (zero_notMem_numeral _)]
    | get | delete => exact absurd hbody List.not_mem_nil
  · obtain ⟨value, hvalue, rfl⟩ := List.mem_map.mp hcookie
    exact hline (by decide) (zero_notMem_cookieValues hcookies hvalue)
  · unfold Parts.authFields at hmem
    split at hmem
    · obtain rfl := List.mem_singleton.mp hmem
      exact hline (by decide) hauth
    · exact absurd hmem List.not_mem_nil

/-- **A request is a C string** if its parts are. -/
theorem zero_notMem_build (hhost : 0 ∉ p.host) (hurl : 0 ∉ p.url) (htype : 0 ∉ p.contentType)
    (hcookies : ∀ cookie ∈ p.cookies, 0 ∉ cookie) (hauth : 0 ∉ p.auth) (hjson : 0 ∉ p.json) :
    0 ∉ p.build flag := by
  have hmethod : 0 ∉ flag.method := by cases flag <;> decide
  have hversion : 0 ∉ http11 := by decide
  have hbody : 0 ∉ p.body flag := by
    cases flag with
    | post => exact hjson
    | get | delete => exact List.not_mem_nil
  rw [build_eq_encode, encode, List.mem_append, List.mem_append, not_or, not_or]
  refine ⟨zero_notMem_block fun line hline => ?_, by decide, hbody⟩
  rcases List.mem_cons.mp hline with rfl | hline
  · simp [hmethod, hurl, hversion]
  · obtain ⟨field, hfield, rfl⟩ := List.mem_map.mp hline
    exact zero_notMem_fieldLine hhost htype hcookies hauth hfield

end Build

/-! ### What is asked for -/

/-- `dump` writes no NUL: it escapes the control characters of a string. -/
def Json.DumpsText (J : Json) : Prop := ∀ form text, J.dump form = some text → 0 ∉ text

/-- What the session stores can stand in a line of a request. -/
structure Session.Tidy (s : Session) : Prop where
  cookie : Clean s.loginCookie
  mark : 59 ∉ s.loginCookie
  token : Clean s.jwtToken

/-- A request to the server's host. -/
def asked (flag : Flag) (target : Bytes) (cookies : List Bytes) (authorization : Option Bytes)
    (body : Bytes) : Decoded where
  method := flag.method
  target := target
  host := some host
  cookies := cookies
  authorization := authorization
  body := body
  rest := []

/-- The cookie of the session, as it is written. -/
def Session.cookies (s : Session) : List Bytes := [s.loginCookie ++ [59]]

/-- The token of the session, as it is read. -/
def Session.authorization (s : Session) : Option Bytes := some (trimEnd (bearer s))

/-- What a command asks for, unless `dump` throws, and the stream behind the form. -/
def Command.asks (J : Json) (cin : Cin) (s : Session) : Command → Option Decoded × Cin
  | .register =>
    ((J.dump (readUser cin).1).map (asked .post (authUrl Http.register) [] none),
      (readUser cin).2)
  | .login =>
    ((J.dump (readUser cin).1).map (asked .post (authUrl Http.login) [] none), (readUser cin).2)
  | .enterLibrary => (some (asked .get accessUrl s.cookies none []), cin)
  | .getBooks => (some (asked .get booksUrl [] s.authorization []), cin)
  | .getBook =>
    (some (asked .get (cString (bookUrl cin.word.1)) [] s.authorization []), cin.word.2)
  | .addBook =>
    ((J.dump (readBook cin).1).map (asked .post booksUrl [] s.authorization), (readBook cin).2)
  | .deleteBook =>
    (some (asked .delete (cString (bookUrl cin.word.1)) [] s.authorization []), cin.word.2)
  | .logout => (some (asked .get logoutUrl s.cookies none []), cin)

/-- The text is a C string, and what it is read as. -/
def ReadAs (text : Bytes) (d : Decoded) : Prop := 0 ∉ text ∧ decode text = some d

section Asks

variable {J : Json} {s : Session}

theorem Clean.oneLine {text : Bytes} (h : Clean text) : OneLine text :=
  fun c hc => ⟨(h c hc).1, (h c hc).2.1⟩

theorem Clean.zero_notMem {text : Bytes} (h : Clean text) : 0 ∉ text :=
  fun hc => (h 0 hc).2.2 rfl

theorem host_clean : Clean host := by simp [Clean, host, ascii]

theorem contentType_clean : Clean (ascii "application/json") := by simp [Clean, ascii]

theorem host_oneLine : OneLine host := host_clean.oneLine

theorem contentType_oneLine : OneLine (ascii "application/json") := contentType_clean.oneLine

theorem bearer_clean (h : s.Tidy) : Clean (bearer s) :=
  Clean.append (by simp [Clean, ascii]) h.token

/-- A URL that can stand in a start line. -/
def UrlOk (url : Bytes) : Prop := (OneLine url ∧ 32 ∉ url) ∧ 0 ∉ url

theorem UrlOk.oneLine {url : Bytes} (h : UrlOk url) : OneLine url := h.1.1

theorem UrlOk.space_notMem {url : Bytes} (h : UrlOk url) : 32 ∉ url := h.1.2

/-- A URL of the client's own has visible characters only. -/
theorem urlOk_of_visible {url : Bytes} (h : url.all (32 < ·) = true) : UrlOk url := by
  have hvisible {c : UInt8} (hc : c ∈ url) : 32 < c := by simpa using List.all_eq_true.mp h c hc
  refine ⟨⟨fun c hc => ⟨?_, ?_⟩, fun hc => ?_⟩, fun hc => ?_⟩
  · rintro rfl
    exact absurd (hvisible hc) (by decide)
  · rintro rfl
    exact absurd (hvisible hc) (by decide)
  · exact absurd (hvisible hc) (by decide)
  · exact absurd (hvisible hc) (by decide)

theorem UrlOk.cString_eq {url : Bytes} (h : UrlOk url) : cString url = url := cString_of_notMem h.2

/-- A cookie that can stand in a field of its own. -/
def CookieOk (cookie : Option Bytes) : Prop := ∀ c ∈ cookie, Clean c ∧ 59 ∉ c

theorem cookieOk_none : CookieOk none := nofun

theorem CookieOk.clean {cookie : Option Bytes} (h : CookieOk cookie) :
    ∀ c ∈ cookie.toList, Clean c :=
  fun c hc => (h c (Option.mem_toList.mp hc)).1

theorem CookieOk.oneLine {cookie : Option Bytes} (h : CookieOk cookie) :
    ∀ c ∈ cookie.toList, OneLine c :=
  fun c hc => (h.clean c hc).oneLine

theorem CookieOk.mark_notMem {cookie : Option Bytes} (h : CookieOk cookie) :
    ∀ c ∈ cookie.toList, 59 ∉ c :=
  fun c hc => (h c (Option.mem_toList.mp hc)).2

/-- A request of the client: at most one cookie, and the host and type it always uses. -/
def clientParts (url : Bytes) (cookie : Option Bytes) (auth json : Bytes) (hurl : UrlOk url)
    (hcookie : CookieOk cookie) (hauth : Clean auth) : Parts where
  host := host
  url := url
  contentType := ascii "application/json"
  cookies := cookie.toList
  auth := auth
  json := json
  host_line := host_oneLine
  url_line := hurl.oneLine
  url_space := hurl.space_notMem
  type_line := contentType_oneLine
  cookies_line := hcookie.oneLine
  cookies_mark := hcookie.mark_notMem
  auth_line := hauth.oneLine

/-- The authorization as it is read. -/
def authorized (auth : Bytes) : Option Bytes := if auth ≠ [] then some (trimEnd auth) else none

theorem authorized_nil : authorized [] = none := if_neg fun h => h rfl

/-- What a request of the client is read as. -/
theorem readAs_build (flag : Flag) (cookie : Option Bytes) (json : Bytes) {url auth : Bytes}
    (hurl : UrlOk url) (hcookie : CookieOk cookie) (hauth : Clean auth) (hjson : 0 ∉ json) :
    ReadAs ((clientParts url cookie auth json hurl hcookie hauth).build flag)
      (asked flag url
        (((clientParts url cookie auth json hurl hcookie hauth).cookieValues flag).map trimEnd)
        (authorized auth) ((clientParts url cookie auth json hurl hcookie hauth).body flag)) := by
  refine ⟨?_, ?_⟩
  · exact zero_notMem_build host_clean.zero_notMem hurl.2 contentType_clean.zero_notMem
      (fun c hc => (hcookie.clean c hc).zero_notMem) hauth.zero_notMem hjson
  · have hhost : trimEnd host = host := by decide +kernel
    rw [decode_build]
    show some (Decoded.mk _ _ (some (trimEnd host)) _ _ _ _) = _
    rw [hhost]
    rfl

theorem readAs_post {url auth json : Bytes} (hurl : UrlOk url) (hauth : Clean auth)
    (hjson : 0 ∉ json) :
    ReadAs (computePostRequest host (cString url) (ascii "application/json") [] json auth)
      (asked .post url [] (authorized auth) json) := by
  rw [hurl.cString_eq]
  exact readAs_build .post none json hurl cookieOk_none hauth hjson

/-- The one cookie has its semicolon behind it. -/
theorem map_trimEnd_cookie (cookie : Option Bytes) :
    (cookie.toList.map fun c =>
      c ++ if some c = cookie.toList.getLast? then ascii "; " else []).map trimEnd =
        cookie.toList.map (· ++ [59]) := by
  cases cookie with
  | none => rfl
  | some cookie =>
    show [trimEnd (cookie ++ if some cookie = some cookie then ascii "; " else [])] = _
    rw [if_pos rfl, trimEnd_mark]
    rfl

theorem readAs_get (cookie : Option Bytes) {url auth : Bytes} (hurl : UrlOk url)
    (hcookie : CookieOk cookie) (hauth : Clean auth) :
    ReadAs (computeGetRequest host (cString url) cookie.toList auth)
      (asked .get url (cookie.toList.map (· ++ [59])) (authorized auth) []) := by
  have h := readAs_build .get cookie [] hurl hcookie hauth List.not_mem_nil
  rw [hurl.cString_eq, ← map_trimEnd_cookie]
  exact h

/-- A request with the cookie of the session. -/
theorem readAs_session {url : Bytes} (hurl : UrlOk url) (hs : s.Tidy) :
    ReadAs (computeGetRequest host (cString url) [s.loginCookie] [])
      (asked .get url s.cookies none []) := by
  have hcookie : CookieOk (some s.loginCookie) := by
    intro c hc
    rw [← Option.some.inj hc]
    exact ⟨hs.cookie, hs.mark⟩
  have hnone : Clean [] := nofun
  have h := readAs_get (some s.loginCookie) hurl hcookie hnone
  rw [authorized_nil] at h
  exact h

theorem readAs_delete {url auth : Bytes} (hurl : UrlOk url) (hauth : Clean auth) :
    ReadAs (computeDeleteRequest host (cString url) (ascii "application/json") [] auth)
      (asked .delete url [] (authorized auth) []) := by
  rw [hurl.cString_eq]
  exact readAs_build .delete none [] hurl cookieOk_none hauth List.not_mem_nil

theorem authUrl_ok (authType : Bool) : UrlOk (authUrl authType) := by
  apply urlOk_of_visible
  cases authType <;> simp [authUrl, Http.register, ascii]

theorem accessUrl_ok : UrlOk accessUrl := urlOk_of_visible (by simp [accessUrl, ascii])

theorem logoutUrl_ok : UrlOk logoutUrl := urlOk_of_visible (by simp [logoutUrl, ascii])

theorem booksUrl_ok : UrlOk booksUrl := urlOk_of_visible (by simp [booksUrl, ascii])

/-- A URL with an id: `>>` has stopped at the first white space, `c_str` at a NUL. -/
theorem bookUrl_ok (cin : Cin) : UrlOk (cString (bookUrl cin.word.1)) := by
  have hbegin : ∀ c ∈ ascii "/api/v1/tema/library/books/", isSpace c = false := by
    simp [ascii, isSpace]
  have hurl : ∀ c ∈ cString (bookUrl cin.word.1), isSpace c = false := by
    intro c hc
    rcases List.mem_append.mp ((List.takeWhile_prefix _).subset hc) with h | h
    exacts [hbegin c h, word_spaceless cin c h]
  have hne {c : UInt8} (hc : c ∈ cString (bookUrl cin.word.1)) (x : UInt8)
      (hx : isSpace x = true) : c ≠ x := by
    rintro rfl
    rw [hurl c hc] at hx
    cases hx
  exact ⟨⟨fun c hc => ⟨hne hc 13 rfl, hne hc 10 rfl⟩, fun hc => hne hc 32 rfl rfl⟩,
    cString_notMem _⟩

theorem cString_cString (memory : Bytes) : cString (cString memory) = cString memory :=
  cString_of_notMem (cString_notMem memory)

/-- A POST request, unless `dump` throws. -/
theorem rel_post (hJ : J.DumpsText) {url auth : Bytes} (hurl : UrlOk url) (hauth : Clean auth)
    (form : Form) :
    Option.Rel ReadAs (requestText J url [] .post auth form)
      ((J.dump form).map (asked .post url [] (authorized auth))) := by
  show Option.Rel _ ((J.dump form).map _) _
  cases hdump : J.dump form with
  | none => exact .none
  | some json => exact .some (readAs_post hurl hauth (hJ form json hdump))

theorem authorized_bearer (s : Session) : authorized (bearer s) = s.authorization :=
  if_pos (List.cons_ne_nil _ _)

/-- **What a command sends is read as what it asks for**, and the form takes as much of
the stream. -/
theorem Command.request_asks (hJ : J.DumpsText) (hs : s.Tidy) (cin : Cin) (c : Command) :
    (c.request J cin s).2 = (c.asks J cin s).2 ∧
      Option.Rel ReadAs (c.request J cin s).1 (c.asks J cin s).1 := by
  have hauth := bearer_clean hs
  have hnone : Clean [] := nofun
  cases c with
  | register => exact ⟨rfl, rel_post hJ (authUrl_ok _) hnone _⟩
  | login => exact ⟨rfl, rel_post hJ (authUrl_ok _) hnone _⟩
  | enterLibrary => exact ⟨rfl, .some (readAs_session accessUrl_ok hs)⟩
  | logout => exact ⟨rfl, .some (readAs_session logoutUrl_ok hs)⟩
  | getBooks =>
    have h := readAs_get none booksUrl_ok cookieOk_none hauth
    rw [authorized_bearer] at h
    exact ⟨rfl, .some h⟩
  | addBook =>
    have h := rel_post hJ booksUrl_ok hauth (readBook cin).1
    rw [authorized_bearer] at h
    exact ⟨rfl, h⟩
  | getBook =>
    have h := readAs_get none (bookUrl_ok cin) cookieOk_none hauth
    rw [authorized_bearer, cString_cString] at h
    exact ⟨rfl, .some h⟩
  | deleteBook =>
    have h := readAs_delete (bookUrl_ok cin) hauth
    rw [authorized_bearer, cString_cString] at h
    exact ⟨rfl, .some h⟩

end Asks

end TemePCom.Http
