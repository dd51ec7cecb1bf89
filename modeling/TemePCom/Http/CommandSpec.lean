/-
TemePCom/Http/CommandSpec.lean

What a command does, said once.

A command that its guard lets through sends its request, reads from the descriptor
that `send_request` returns and reacts to what it has read (`Command.run_sends`).
`Effect` lists everything the reaction can be; `react_eq_ok_iff` ties it to the
handlers, and everything else about the commands is a case analysis over it.
-/
import TemePCom.Http.Commands

namespace TemePCom.Http

/-! ### The connection -/

/-- The descriptor `open_connection` returns, if it returns one. -/
def World.opened (w : World) : Option ℕ := if w.connects then w.socket else none

/-- The descriptor the commands go on with: `EXIT_FAILURE` if there is no connection. -/
def World.descriptor (w : World) : ℤ :=
  match w.opened with
  | some sockfd => sockfd
  | none => exitFailure

/-- The response as the commands read it. -/
def World.received (w : World) : Except Stop Bytes := (recvFromServer w w.descriptor).2.map cString

theorem openConnection_snd (w : World) :
    (openConnection w).2 = match w.opened with
      | some sockfd => (sockfd : ℤ)
      | none => -1 := by
  unfold openConnection World.opened
  cases w.socket <;> cases w.connects <;> rfl

/-- **`send_request` never tells of a failure**: a lost connection is the
descriptor 1, and a lost `write` is not noticed. -/
theorem sendRequest_snd (w : World) (request : Bytes) :
    (sendRequest w request).2 = w.descriptor := by
  have hopen := openConnection_snd w
  unfold sendRequest World.descriptor
  cases hw : w.opened with
  | none =>
    rw [hw] at hopen
    have hneg : (openConnection w).2 < 0 := by rw [hopen]; decide
    simp only [if_pos hneg]
  | some sockfd =>
    rw [hw] at hopen
    have hnn : ¬ (openConnection w).2 < 0 := by
      rw [hopen]
      exact Int.not_lt.mpr (Int.natCast_nonneg _)
    simp only [if_neg hnn, Nat.not_lt_zero, if_false]
    exact hopen

theorem World.descriptor_nonneg (w : World) : ¬ w.descriptor < 0 := by
  unfold World.descriptor
  cases w.opened with
  | none => decide
  | some sockfd => exact Int.not_lt.mpr (Int.natCast_nonneg _)

/-! ### The request -/

/-- The guard of a command. -/
def Command.Allowed (s : Session) : Command → Prop
  | .register => True
  | .login => ¬ s.isConnected
  | .enterLibrary => s.isConnected
  | .getBooks => s.jwtToken ≠ []
  | .getBook => s.jwtToken ≠ []
  | .addBook => s.jwtToken ≠ []
  | .deleteBook => s.jwtToken ≠ []
  | .logout => s.isConnected

/-- The request a command sends, unless `dump` throws, and the stream behind the form. -/
def Command.request (J : Json) (cin : Cin) (s : Session) : Command → Option Bytes × Cin
  | .register =>
    (requestText J (authUrl Http.register) [] .post [] (readUser cin).1, (readUser cin).2)
  | .login => (requestText J (authUrl Http.login) [] .post [] (readUser cin).1, (readUser cin).2)
  | .enterLibrary => (requestText J accessUrl [s.loginCookie] .get [] [], cin)
  | .getBooks => (requestText J booksUrl [] .get (bearer s) [], cin)
  | .getBook => (requestText J (bookUrl cin.word.1) [] .get (bearer s) [], cin.word.2)
  | .addBook => (requestText J booksUrl [] .post (bearer s) (readBook cin).1, (readBook cin).2)
  | .deleteBook => (requestText J (bookUrl cin.word.1) [] .delete (bearer s) [], cin.word.2)
  | .logout => (requestText J logoutUrl [s.loginCookie] .get [] [], cin)

/-- What a command makes of the response. -/
def Command.react (J : Json) (s : Session) (response : Bytes) : Command → Answer
  | .register =>
    if response.length = 0 then .ok (exitFailure, s)
    else authResponseHandler J response s Http.register
  | .login =>
    if response.length = 0 then .ok (exitFailure, s)
    else authResponseHandler J response s Http.login
  | .enterLibrary =>
    if response.length = 0 then .ok (exitFailure, s) else entranceResponseHandler J response s
  | .getBooks =>
    if response.length = 0 then .ok (exitFailure, s) else unchanged s (summaryHandler J response)
  | .getBook => unchanged s (detailsHandler J response)
  | .addBook => unchanged s (basicJsonHandler J response)
  | .deleteBook => unchanged s (basicJsonHandler J response)
  | .logout =>
    if response.length = 0 then .ok (exitFailure, s)
    else endSession s (basicJsonHandler J response)

/-- The `close` at the end, which `logout` does not reach without a response. -/
def Command.closing (w : World) (c : Command) : List Call :=
  match w.received with
  | .error _ => []
  | .ok response => if c = .logout ∧ response.length = 0 then [] else [.close w.descriptor]

/-- All the calls of a command that sends a request. -/
def Command.traffic (w : World) (text : Bytes) (c : Command) : List Call :=
  (sendRequest w text).1 ++ (recvFromServer w w.descriptor).1 ++ c.closing w

theorem Command.run_refused {J : Json} {w : World} {cin : Cin} {s : Session} {c : Command}
    (h : ¬ c.Allowed s) : c.run J w cin s = .refused cin s := by
  cases c with
  | register => exact absurd trivial h
  | login => exact if_pos ⟨rfl, not_not.mp h⟩
  | enterLibrary | logout =>
    have hs : (!s.isConnected) = true := by simpa [Command.Allowed] using h
    exact if_pos hs
  | getBooks | getBook | addBook | deleteBook =>
    have hs : s.jwtToken.isEmpty = true := by simpa [Command.Allowed] using h
    exact if_pos hs

/-- `converse` sends the request, reads, closes and reacts. -/
theorem converse_eq {c : Command} (hc : c ≠ .logout) (J : Json) (w : World) (cin : Cin)
    (s : Session) (url : Bytes) (cookies : List Bytes) (flag : Flag) (auth : Bytes) (json : Form)
    (react : Bytes → Answer) :
    converse J w cin s url cookies flag auth json react =
      match requestText J url cookies flag auth json with
      | none => ⟨[], cin, .error .uncaught⟩
      | some text => ⟨c.traffic w text, cin, w.received.bind react⟩ := by
  cases htext : requestText J url cookies flag auth json with
  | none => simp only [converse, requester, htext]
  | some text =>
    simp only [converse, requester, htext, sendRequest_snd, if_neg w.descriptor_nonneg,
      Command.traffic, Command.closing, hc, false_and, if_false, World.received]
    cases (recvFromServer w w.descriptor).2 with
    | error stop => simp [Except.map, Except.bind]
    | ok memory => rfl

/-- The commands but `logout` are `converse`, with their request and their reaction. -/
theorem Command.run_eq_converse {s : Session} {c : Command} (h : c.Allowed s) (hc : c ≠ .logout)
    (J : Json) (w : World) (cin : Cin) :
    ∃ url cookies flag auth json cin', c.request J cin s =
        (requestText J url cookies flag auth json, cin') ∧
      c.run J w cin s = converse J w cin' s url cookies flag auth json fun response =>
        c.react J s response := by
  cases c with
  | register =>
    have hguard : ¬ (Http.register = Http.login ∧ s.isConnected = true) := fun hg => nomatch hg.1
    refine ⟨_, _, _, _, _, _, rfl, ?_⟩
    rw [Command.run, authPost, if_neg hguard]
    rfl
  | login =>
    have hguard : ¬ (Http.login = Http.login ∧ s.isConnected = true) := fun hg => h hg.2
    refine ⟨_, _, _, _, _, _, rfl, ?_⟩
    rw [Command.run, authPost, if_neg hguard]
    rfl
  | enterLibrary =>
    have hguard : ¬ (!s.isConnected) = true := by simpa [Command.Allowed] using h
    refine ⟨_, _, _, _, _, _, rfl, ?_⟩
    rw [Command.run, Http.enterLibrary, if_neg hguard]
    rfl
  | getBooks =>
    have hguard : ¬ s.jwtToken.isEmpty = true := by simpa [Command.Allowed] using h
    refine ⟨_, _, _, _, _, _, rfl, ?_⟩
    rw [Command.run, getSummaryInfo, if_neg hguard]
    rfl
  | getBook =>
    have hguard : ¬ s.jwtToken.isEmpty = true := by simpa [Command.Allowed] using h
    refine ⟨_, _, _, _, _, _, rfl, ?_⟩
    rw [Command.run, getDetails, if_neg hguard]
    rfl
  | addBook =>
    have hguard : ¬ s.jwtToken.isEmpty = true := by simpa [Command.Allowed] using h
    refine ⟨_, _, _, _, _, _, rfl, ?_⟩
    rw [Command.run, Http.addBook, if_neg hguard]
    rfl
  | deleteBook =>
    have hguard : ¬ s.jwtToken.isEmpty = true := by simpa [Command.Allowed] using h
    refine ⟨_, _, _, _, _, _, rfl, ?_⟩
    rw [Command.run, Http.deleteBook, if_neg hguard]
    rfl
  | logout => exact absurd rfl hc

/-- `logout` sends its request and reacts; only its `close` comes later. -/
theorem run_logout {s : Session} (h : Command.logout.Allowed s) (J : Json) (w : World)
    (cin : Cin) :
    ∃ text, Command.logout.request J cin s = (some text, cin) ∧
      Command.logout.run J w cin s = ⟨Command.logout.traffic w text, cin,
        w.received.bind fun response => Command.logout.react J s response⟩ := by
  have hguard : ¬ (!s.isConnected) = true := by simpa [Command.Allowed] using h
  refine ⟨_, rfl, ?_⟩
  rw [Command.run, Http.logout, if_neg hguard]
  simp only [requester, requestText, sendRequest_snd, if_neg w.descriptor_nonneg,
    Command.traffic, Command.closing, World.received, Command.react, true_and]
  cases (recvFromServer w w.descriptor).2 with
  | error stop => simp [Except.map, Except.bind]
  | ok memory =>
    by_cases hempty : (cString memory).length = 0
    · simp [Except.map, Except.bind, hempty]
    · simp only [Except.map, Except.bind, if_neg hempty]

/-- **A command that its guard lets through** sends its request and reacts to what is
read. -/
theorem Command.run_sends {J : Json} {cin cin' : Cin} {s : Session} {c : Command} {text : Bytes}
    (h : c.Allowed s) (hrequest : c.request J cin s = (some text, cin')) (w : World) :
    c.run J w cin s = ⟨c.traffic w text, cin', w.received.bind fun response =>
      c.react J s response⟩ := by
  rcases eq_or_ne c .logout with rfl | hc
  · obtain ⟨text', htext', hrun⟩ := run_logout h J w cin
    obtain ⟨htext, rfl⟩ := Prod.mk.inj (htext'.symm.trans hrequest)
    rw [hrun, Option.some.inj htext]
  · obtain ⟨url, cookies, flag, auth, json, cin₁, hreq, hrun⟩ := run_eq_converse h hc J w cin
    obtain ⟨htext, rfl⟩ := Prod.mk.inj (hreq.symm.trans hrequest)
    rw [hrun, converse_eq hc, htext]

/-- If `dump` throws, nothing is sent. -/
theorem Command.run_throws {J : Json} {cin cin' : Cin} {s : Session} {c : Command}
    (h : c.Allowed s) (hrequest : c.request J cin s = (none, cin')) (w : World) :
    c.run J w cin s = ⟨[], cin', .error .uncaught⟩ := by
  rcases eq_or_ne c .logout with rfl | hc
  · obtain ⟨text', htext', -⟩ := run_logout h J w cin
    exact nomatch (Prod.mk.inj (htext'.symm.trans hrequest)).1
  · obtain ⟨url, cookies, flag, auth, json, cin₁, hreq, hrun⟩ := run_eq_converse h hc J w cin
    obtain ⟨htext, rfl⟩ := Prod.mk.inj (hreq.symm.trans hrequest)
    rw [hrun, converse_eq hc, htext]

/-- The stream behind the form, whatever comes of the request. -/
theorem Command.run_cin {J : Json} {w : World} {cin : Cin} {s : Session} {c : Command}
    (h : c.Allowed s) : (c.run J w cin s).cin = (c.request J cin s).2 := by
  rcases hrequest : c.request J cin s with ⟨- | text, cin'⟩
  · rw [run_throws h hrequest]
  · rw [run_sends h hrequest]

/-! ### Reactions -/

/-- The response has no blank line. -/
def NoBody (response : Bytes) : Prop := extractJsonResponse response = none

/-- What is behind the header is no JSON text. -/
def Json.NotJson (J : Json) (response : Bytes) : Prop :=
  ∃ data, extractJsonResponse response = some data ∧ ¬ J.Text data

/-- What is behind the header is a JSON value with `P`. -/
def Json.Holds (J : Json) (response : Bytes) (P : J.Value → Prop) : Prop :=
  ∃ data json, extractJsonResponse response = some data ∧ J.parse data = .ok json ∧ P json

/-- The text between the first `Set-Cookie: ` of the response and the next semicolon. -/
def CookieIn (response cookie : Bytes) : Prop :=
  ∃ start k, strstr response (ascii "Set-Cookie: ") = some start ∧
    Search.first? (ascii ";") start = some k ∧ cookie = (start.take k).drop 12

/-- The responses that a command takes for a success. -/
def Command.Accepts (J : Json) (response : Bytes) : Command → Prop
  | .register => J.NotJson response ∨ J.Holds response fun json => ¬ J.contains json (ascii "error")
  | .login => (J.NotJson response ∧ ∃ cookie, CookieIn response cookie) ∨
      J.Holds response fun json => ¬ J.contains json (ascii "error")
  | .enterLibrary => J.Holds response fun json =>
      J.contains json (ascii "token") ∧ ∃ token, J.string json (ascii "token") = some token
  | .getBooks => J.Holds response fun json => J.isArray json
  | .getBook => J.Holds response fun json => ¬ J.contains json (ascii "error")
  | .addBook => J.NotJson response ∨ J.Holds response fun json => ¬ J.contains json (ascii "error")
  | .deleteBook =>
    J.NotJson response ∨ J.Holds response fun json => ¬ J.contains json (ascii "error")
  | .logout => J.NotJson response ∨ J.Holds response fun json => ¬ J.contains json (ascii "error")

/-- The responses that a command takes for a failure. -/
def Command.Refuses (J : Json) (response : Bytes) : Command → Prop
  | .register => NoBody response ∨ J.Holds response fun json => J.contains json (ascii "error")
  | .login => NoBody response ∨ (J.NotJson response ∧ ¬ ∃ cookie, CookieIn response cookie) ∨
      J.Holds response fun json => J.contains json (ascii "error")
  | .enterLibrary => NoBody response ∨ J.NotJson response ∨
      J.Holds response fun json => ¬ J.contains json (ascii "token")
  | .getBooks => NoBody response ∨ J.NotJson response ∨
      J.Holds response fun json => ¬ J.isArray json
  | .getBook => NoBody response ∨ J.NotJson response ∨
      J.Holds response fun json => J.contains json (ascii "error")
  | .addBook => NoBody response ∨ J.Holds response fun json => J.contains json (ascii "error")
  | .deleteBook => NoBody response ∨ J.Holds response fun json => J.contains json (ascii "error")
  | .logout => NoBody response ∨ J.Holds response fun json => J.contains json (ascii "error")

/-- Everything a command that returns can do: its exit code and the session it leaves. -/
inductive Effect (J : Json) (response : Bytes) (s : Session) : Command → ℤ → Session → Prop
  | refused {c : Command} (h : c.Refuses J response) : Effect J response s c exitFailure s
  | done {c : Command} (hc : c ≠ .login ∧ c ≠ .enterLibrary ∧ c ≠ .logout)
      (h : c.Accepts J response) : Effect J response s c exitSuccess s
  /-- `login`, without a connection. -/
  | admitted (h : J.Holds response fun json => ¬ J.contains json (ascii "error")) :
      Effect J response s .login exitSuccess s
  | connected {cookie : Bytes} (h : J.NotJson response) (hcookie : CookieIn response cookie) :
      Effect J response s .login exitSuccess
        { s with
          loginCookie := cookie
          isConnected := true }
  | entered {token : Bytes} (h : J.Holds response fun json =>
        J.contains json (ascii "token") ∧ J.string json (ascii "token") = some token) :
      Effect J response s .enterLibrary exitSuccess { s with jwtToken := token }
  | left (h : Command.logout.Accepts J response) :
      Effect J response s .logout exitSuccess { s with isConnected := false }

section React

variable {J : Json} {response data : Bytes}

theorem extractJsonResponse_nil : extractJsonResponse [] = none := by decide

theorem CookieIn.unique {cookie cookie' : Bytes} (h : CookieIn response cookie)
    (h' : CookieIn response cookie') : cookie = cookie' := by
  obtain ⟨start, k, hstart, hk, rfl⟩ := h
  obtain ⟨start', k', hstart', hk', rfl⟩ := h'
  obtain rfl := Option.some.inj (hstart.symm.trans hstart')
  obtain rfl := Option.some.inj (hk.symm.trans hk')
  rfl

theorem loginCookieHandler_eq (response : Bytes) (s : Session) :
    (∃ cookie, CookieIn response cookie ∧ loginCookieHandler response s =
      (exitSuccess, { s with
        loginCookie := cookie
        isConnected := true })) ∨
    ((¬ ∃ cookie, CookieIn response cookie) ∧
      loginCookieHandler response s = (exitFailure, s)) := by
  unfold loginCookieHandler CookieIn
  cases hstart : strstr response (ascii "Set-Cookie: ") with
  | none => exact Or.inr ⟨by simp, rfl⟩
  | some start =>
    cases hend : Search.first? (ascii ";") start with
    | none => exact Or.inr ⟨by simp [hend], by simp [hend]⟩
    | some k => exact Or.inl ⟨_, ⟨start, k, rfl, hend, rfl⟩, by simp [hend]⟩

/-- How a response can be read: no body, no JSON text, an exception, or a value. -/
theorem body_cases (J : Json) (response : Bytes) :
    NoBody response ∨ ∃ data, extractJsonResponse response = some data ∧
      (J.parse data = .error .parseError ∨ J.parse data = .error .other ∨
        ∃ json, J.parse data = .ok json) := by
  unfold NoBody
  cases extractJsonResponse response with
  | none => exact Or.inl rfl
  | some data =>
    refine Or.inr ⟨data, rfl, ?_⟩
    cases J.parse data with
    | error e => cases e <;> simp
    | ok json => exact Or.inr (Or.inr ⟨json, rfl⟩)

theorem not_noBody (hx : extractJsonResponse response = some data) : ¬ NoBody response := by
  simp [NoBody, hx]

theorem not_notJson_of_noBody (h : NoBody response) : ¬ J.NotJson response := by
  rintro ⟨data, hdata, -⟩
  exact not_noBody hdata h

theorem not_holds_of_noBody (h : NoBody response) {P : J.Value → Prop} : ¬ J.Holds response P := by
  rintro ⟨data, json, hdata, -⟩
  exact not_noBody hdata h

theorem notJson_iff (hx : extractJsonResponse response = some data) :
    J.NotJson response ↔ J.parse data = .error .parseError := by
  simp [Json.NotJson, hx, J.parse_error_iff]

theorem holds_iff (hx : extractJsonResponse response = some data) {P : J.Value → Prop} :
    J.Holds response P ↔ ∃ json, J.parse data = .ok json ∧ P json := by
  simp [Json.Holds, hx]

/-! ### The handlers -/

@[simp] theorem exitSuccess_ne_exitFailure : exitSuccess ≠ exitFailure := by decide

@[simp] theorem exitFailure_ne_exitSuccess : exitFailure ≠ exitSuccess := by decide

theorem basicJsonHandler_eq_ok_iff {code : ℤ} :
    basicJsonHandler J response = .ok code ↔
      (exitFailure = code ∧
        (NoBody response ∨ J.Holds response fun json => J.contains json (ascii "error"))) ∨
      (exitSuccess = code ∧
        (J.NotJson response ∨ J.Holds response fun json => ¬ J.contains json (ascii "error"))) := by
  rcases body_cases J response with hno | ⟨data, hx, hparse | hparse | ⟨json, hparse⟩⟩
  · have hx : extractJsonResponse response = none := hno
    simp [basicJsonHandler, hx, hno, not_notJson_of_noBody hno, not_holds_of_noBody hno]
  · simp [basicJsonHandler, hx, hparse, not_noBody hx, notJson_iff hx, holds_iff hx]
  · simp [basicJsonHandler, hx, hparse, not_noBody hx, notJson_iff hx, holds_iff hx]
  · cases herr : J.contains json (ascii "error") <;>
      simp [basicJsonHandler, hx, hparse, not_noBody hx, notJson_iff hx, holds_iff hx, herr]

theorem detailsHandler_eq_ok_iff {code : ℤ} :
    detailsHandler J response = .ok code ↔
      (exitFailure = code ∧ (NoBody response ∨ J.NotJson response ∨
        J.Holds response fun json => J.contains json (ascii "error"))) ∨
      (exitSuccess = code ∧ J.Holds response fun json => ¬ J.contains json (ascii "error")) := by
  rcases body_cases J response with hno | ⟨data, hx, hparse | hparse | ⟨json, hparse⟩⟩
  · have hx : extractJsonResponse response = none := hno
    simp [detailsHandler, hx, hno, not_notJson_of_noBody hno, not_holds_of_noBody hno]
  · simp [detailsHandler, parseJson, hx, hparse, not_noBody hx, notJson_iff hx, holds_iff hx]
  · simp [detailsHandler, parseJson, hx, hparse, not_noBody hx, notJson_iff hx, holds_iff hx]
  · cases herr : J.contains json (ascii "error") <;>
      simp [detailsHandler, parseJson, hx, hparse, not_noBody hx, notJson_iff hx, holds_iff hx,
        herr]

theorem summaryHandler_eq_ok_iff {code : ℤ} :
    summaryHandler J response = .ok code ↔
      (exitFailure = code ∧ (NoBody response ∨ J.NotJson response ∨
        J.Holds response fun json => ¬ J.isArray json)) ∨
      (exitSuccess = code ∧ J.Holds response fun json => J.isArray json) := by
  rcases body_cases J response with hno | ⟨data, hx, hparse | hparse | ⟨json, hparse⟩⟩
  · have hx : extractJsonResponse response = none := hno
    simp [summaryHandler, hx, hno, not_notJson_of_noBody hno, not_holds_of_noBody hno]
  · simp [summaryHandler, parseJson, hx, hparse, not_noBody hx, notJson_iff hx, holds_iff hx]
  · simp [summaryHandler, parseJson, hx, hparse, not_noBody hx, notJson_iff hx, holds_iff hx]
  · cases harr : J.isArray json <;>
      simp [summaryHandler, parseJson, hx, hparse, not_noBody hx, notJson_iff hx, holds_iff hx,
        harr]

theorem entranceResponseHandler_eq_ok_iff {s s' : Session} {code : ℤ} :
    entranceResponseHandler J response s = .ok (code, s') ↔
      (exitFailure = code ∧ s = s' ∧ (NoBody response ∨ J.NotJson response ∨
        J.Holds response fun json => ¬ J.contains json (ascii "token"))) ∨
      (exitSuccess = code ∧ ∃ token, { s with jwtToken := token } = s' ∧
        J.Holds response fun json =>
          J.contains json (ascii "token") ∧ J.string json (ascii "token") = some token) := by
  rcases body_cases J response with hno | ⟨data, hx, hparse | hparse | ⟨json, hparse⟩⟩
  · have hx : extractJsonResponse response = none := hno
    simp [entranceResponseHandler, hx, hno, not_notJson_of_noBody hno, not_holds_of_noBody hno]
  · simp [entranceResponseHandler, parseJson, hx, hparse, not_noBody hx, notJson_iff hx,
      holds_iff hx]
  · simp [entranceResponseHandler, parseJson, hx, hparse, not_noBody hx, notJson_iff hx,
      holds_iff hx]
  · cases hkey : J.contains json (ascii "token") <;>
      cases htoken : J.string json (ascii "token") <;>
        simp [entranceResponseHandler, parseJson, hx, hparse, not_noBody hx, notJson_iff hx,
          holds_iff hx, hkey, htoken]

theorem authResponseHandler_register_eq_ok_iff {s s' : Session} {code : ℤ} :
    authResponseHandler J response s register = .ok (code, s') ↔ s = s' ∧
      ((exitFailure = code ∧
        (NoBody response ∨ J.Holds response fun json => J.contains json (ascii "error"))) ∨
      (exitSuccess = code ∧ (J.NotJson response ∨
        J.Holds response fun json => ¬ J.contains json (ascii "error")))) := by
  rcases body_cases J response with hno | ⟨data, hx, hparse | hparse | ⟨json, hparse⟩⟩
  · have hx : extractJsonResponse response = none := hno
    simp [authResponseHandler, hx, hno, not_notJson_of_noBody hno, not_holds_of_noBody hno,
      and_comm]
  · simp [authResponseHandler, register, login, hx, hparse, not_noBody hx, notJson_iff hx,
      holds_iff hx, and_comm]
  · simp [authResponseHandler, hx, hparse, not_noBody hx, notJson_iff hx, holds_iff hx]
  · cases herr : J.contains json (ascii "error") <;>
      simp [authResponseHandler, register, login, hx, hparse, not_noBody hx, notJson_iff hx,
        holds_iff hx, herr, and_comm]

theorem authResponseHandler_login_eq_ok_iff {s s' : Session} {code : ℤ} :
    authResponseHandler J response s login = .ok (code, s') ↔
      (exitFailure = code ∧ s = s' ∧ (NoBody response ∨
        (J.NotJson response ∧ ¬ ∃ cookie, CookieIn response cookie) ∨
        J.Holds response fun json => J.contains json (ascii "error"))) ∨
      (exitSuccess = code ∧ s = s' ∧
        J.Holds response fun json => ¬ J.contains json (ascii "error")) ∨
      (exitSuccess = code ∧ J.NotJson response ∧ ∃ cookie, CookieIn response cookie ∧
        { s with
          loginCookie := cookie
          isConnected := true } = s') := by
  rcases body_cases J response with hno | ⟨data, hx, hparse | hparse | ⟨json, hparse⟩⟩
  · have hx : extractJsonResponse response = none := hno
    simp [authResponseHandler, hx, hno, not_notJson_of_noBody hno, not_holds_of_noBody hno]
  · have hrun : authResponseHandler J response s login = .ok (loginCookieHandler response s) := by
      simp [authResponseHandler, hx, hparse]
    have hnotJson := (notJson_iff hx).mpr hparse
    rcases loginCookieHandler_eq response s with
      ⟨cookie, hcookie, hset⟩ | ⟨hnone, hset⟩
    · rw [hrun, hset]
      constructor
      · intro h
        cases h
        exact Or.inr (Or.inr ⟨rfl, hnotJson, cookie, hcookie, rfl⟩)
      · rintro (⟨rfl, rfl, h | ⟨-, h⟩ | h⟩ | ⟨rfl, rfl, h⟩ | ⟨rfl, -, cookie', hcookie', rfl⟩)
        · exact absurd h (not_noBody hx)
        · exact absurd ⟨cookie, hcookie⟩ h
        · simp [holds_iff hx, hparse] at h
        · simp [holds_iff hx, hparse] at h
        · rw [hcookie.unique hcookie']
    · rw [hrun, hset]
      constructor
      · intro h
        cases h
        exact Or.inl ⟨rfl, rfl, Or.inr (Or.inl ⟨hnotJson, hnone⟩)⟩
      · rintro (⟨rfl, rfl, -⟩ | ⟨-, -, h⟩ | ⟨-, -, cookie, hcookie, -⟩)
        · rfl
        · simp [holds_iff hx, hparse] at h
        · exact absurd ⟨cookie, hcookie⟩ hnone
  · simp [authResponseHandler, hx, hparse, not_noBody hx, notJson_iff hx, holds_iff hx]
  · cases herr : J.contains json (ascii "error") <;>
      simp [authResponseHandler, register, login, hx, hparse, not_noBody hx, notJson_iff hx,
        holds_iff hx, herr]

/-! ### The reactions -/

theorem length_eq_zero_noBody (h : response.length = 0) : NoBody response := by
  rw [List.length_eq_zero_iff.mp h]
  exact extractJsonResponse_nil

/-- The test for an empty response in front of a handler changes nothing. -/
theorem react_of_length {s : Session} {answer : Answer}
    (h : NoBody response → answer = .ok (exitFailure, s)) :
    (if response.length = 0 then .ok (exitFailure, s) else answer) = answer := by
  split_ifs with hlen
  · exact (h (length_eq_zero_noBody hlen)).symm
  · rfl

theorem unchanged_eq_ok_iff {s s' : Session} {answer : Except Stop ℤ} {code : ℤ} :
    unchanged s answer = .ok (code, s') ↔ s = s' ∧ answer = .ok code := by
  cases answer with
  | error stop => simp [unchanged, Except.map]
  | ok code' => simp [unchanged, Except.map, and_comm]

/-- The effects of the commands that leave the session alone. -/
theorem effect_iff {s s' : Session} {c : Command} {code : ℤ}
    (hc : c ≠ .login ∧ c ≠ .enterLibrary ∧ c ≠ .logout) :
    Effect J response s c code s' ↔ s = s' ∧
      ((exitFailure = code ∧ c.Refuses J response) ∨
        (exitSuccess = code ∧ c.Accepts J response)) := by
  constructor
  · intro h
    cases h with
    | refused h => exact ⟨rfl, Or.inl ⟨rfl, h⟩⟩
    | done _ h => exact ⟨rfl, Or.inr ⟨rfl, h⟩⟩
    | admitted | connected => exact absurd rfl hc.1
    | entered => exact absurd rfl hc.2.1
    | left => exact absurd rfl hc.2.2
  · rintro ⟨rfl, ⟨rfl, h⟩ | ⟨rfl, h⟩⟩
    exacts [.refused h, .done hc h]

theorem react_login_iff {s s' : Session} {code : ℤ} :
    Command.login.react J s response = .ok (code, s') ↔
      Effect J response s .login code s' := by
  rw [Command.react, react_of_length fun hno =>
    authResponseHandler_login_eq_ok_iff.mpr (Or.inl ⟨rfl, rfl, Or.inl hno⟩),
    authResponseHandler_login_eq_ok_iff]
  constructor
  · rintro (⟨rfl, rfl, h⟩ | ⟨rfl, rfl, h⟩ | ⟨rfl, h, cookie, hcookie, rfl⟩)
    exacts [.refused h, .admitted h, .connected h hcookie]
  · intro h
    cases h with
    | refused h => exact Or.inl ⟨rfl, rfl, h⟩
    | done hc h => exact absurd rfl hc.1
    | admitted h => exact Or.inr (Or.inl ⟨rfl, rfl, h⟩)
    | connected h hcookie => exact Or.inr (Or.inr ⟨rfl, h, _, hcookie, rfl⟩)

theorem react_enterLibrary_iff {s s' : Session} {code : ℤ} :
    Command.enterLibrary.react J s response = .ok (code, s') ↔
      Effect J response s .enterLibrary code s' := by
  rw [Command.react, react_of_length fun hno =>
    entranceResponseHandler_eq_ok_iff.mpr (Or.inl ⟨rfl, rfl, Or.inl hno⟩),
    entranceResponseHandler_eq_ok_iff]
  constructor
  · rintro (⟨rfl, rfl, h⟩ | ⟨rfl, token, rfl, h⟩)
    exacts [.refused h, .entered h]
  · intro h
    cases h with
    | refused h => exact Or.inl ⟨rfl, rfl, h⟩
    | done hc h => exact absurd rfl hc.2.1
    | entered h => exact Or.inr ⟨rfl, _, rfl, h⟩

theorem endSession_failure (s : Session) :
    endSession s (.ok exitFailure) = .ok (exitFailure, s) := rfl

theorem endSession_success (s : Session) :
    endSession s (.ok exitSuccess) = .ok (exitSuccess, { s with isConnected := false }) := rfl

theorem react_logout_iff {s s' : Session} {code : ℤ} :
    Command.logout.react J s response = .ok (code, s') ↔
      Effect J response s .logout code s' := by
  have hrefused (h : Command.logout.Refuses J response) :
      basicJsonHandler J response = .ok exitFailure :=
    basicJsonHandler_eq_ok_iff.mpr (Or.inl ⟨rfl, h⟩)
  have haccepted (h : Command.logout.Accepts J response) :
      basicJsonHandler J response = .ok exitSuccess :=
    basicJsonHandler_eq_ok_iff.mpr (Or.inr ⟨rfl, h⟩)
  rw [Command.react, react_of_length fun hno => by
    rw [hrefused (Or.inl hno), endSession_failure]]
  constructor
  · intro h
    cases hrun : basicJsonHandler J response with
    | error stop =>
      rw [hrun] at h
      cases h
    | ok status =>
      rw [hrun] at h
      rcases basicJsonHandler_eq_ok_iff.mp hrun with ⟨rfl, hr⟩ | ⟨rfl, ha⟩
      · rw [endSession_failure] at h
        cases h
        exact .refused hr
      · rw [endSession_success] at h
        cases h
        exact .left ha
  · intro h
    cases h with
    | refused h => rw [hrefused h, endSession_failure]
    | done hc h => exact absurd rfl hc.2.2
    | left h => rw [haccepted h, endSession_success]

/-- **The reactions** of the commands are their effects. -/
theorem react_eq_ok_iff {s s' : Session} {c : Command} {code : ℤ} :
    c.react J s response = .ok (code, s') ↔ Effect J response s c code s' := by
  cases c with
  | register =>
    rw [effect_iff (by decide), Command.react, react_of_length fun hno =>
      authResponseHandler_register_eq_ok_iff.mpr ⟨rfl, Or.inl ⟨rfl, Or.inl hno⟩⟩]
    exact authResponseHandler_register_eq_ok_iff
  | getBooks =>
    rw [effect_iff (by decide), Command.react, react_of_length fun hno =>
      unchanged_eq_ok_iff.mpr ⟨rfl, summaryHandler_eq_ok_iff.mpr (Or.inl ⟨rfl, Or.inl hno⟩)⟩]
    exact unchanged_eq_ok_iff.trans (and_congr_right' summaryHandler_eq_ok_iff)
  | getBook =>
    rw [effect_iff (by decide)]
    exact unchanged_eq_ok_iff.trans (and_congr_right' detailsHandler_eq_ok_iff)
  | addBook | deleteBook =>
    rw [effect_iff (by decide)]
    exact unchanged_eq_ok_iff.trans (and_congr_right' basicJsonHandler_eq_ok_iff)
  | login => exact react_login_iff
  | enterLibrary => exact react_enterLibrary_iff
  | logout => exact react_logout_iff

/-- An accepted response is a success. -/
theorem Command.Accepts.exists_effect {c : Command} (h : c.Accepts J response) (s : Session) :
    ∃ s', Effect J response s c exitSuccess s' := by
  cases c with
  | register | getBooks | getBook | addBook | deleteBook => exact ⟨s, .done (by decide) h⟩
  | login =>
    rcases h with ⟨hnot, cookie, hcookie⟩ | h
    exacts [⟨_, .connected hnot hcookie⟩, ⟨_, .admitted h⟩]
  | enterLibrary =>
    obtain ⟨data, json, hx, hjson, hkey, token, htoken⟩ := h
    exact ⟨_, .entered ⟨data, json, hx, hjson, hkey, htoken⟩⟩
  | logout => exact ⟨_, .left h⟩

/-- **A success** is an accepted response. -/
theorem Effect.accepts {s s' : Session} {c : Command} (h : Effect J response s c exitSuccess s') :
    c.Accepts J response := by
  generalize hcode : exitSuccess = code at h
  cases h with
  | refused => exact absurd hcode exitSuccess_ne_exitFailure
  | done _ h => exact h
  | admitted h => exact Or.inr h
  | connected h hcookie => exact Or.inl ⟨h, _, hcookie⟩
  | entered h =>
    obtain ⟨data, json, hx, hjson, hkey, htoken⟩ := h
    exact ⟨data, json, hx, hjson, hkey, _, htoken⟩
  | left h => exact h

/-- **A failure** is a refused response, and leaves the session alone. -/
theorem Effect.refuses {s s' : Session} {c : Command} (h : Effect J response s c exitFailure s') :
    c.Refuses J response ∧ s' = s := by
  generalize hcode : exitFailure = code at h
  cases h with
  | refused h => exact ⟨h, rfl⟩
  | done | admitted | connected | entered | left =>
    exact absurd hcode exitFailure_ne_exitSuccess

end React

end TemePCom.Http
