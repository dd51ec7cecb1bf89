/-
TemePCom/Http/Survival.lean

What a command can do to the client and to its session, whatever the response.

A handler catches the `parse_error` of `parse` and nothing else, and each of them gives
up before it has changed anything.  So a failure is atomic (`Effect.refuses`), and the
only way out besides `return` is an exception of another kind: the conversion of a
token that is no string (`survives_iff`).

`login` reports success on two ways, and only the one through the cookie makes the
session connected (`reportedLogin_iff`).
-/
import TemePCom.Http.JsonValue
import TemePCom.Http.Cookie

namespace TemePCom.Http

variable {J : Json} {w : World} {cin : Cin} {s : Session} {c : Command} {response : Bytes}

/-- The request goes out, and the response is what is read. -/
structure Hears (J : Json) (w : World) (cin : Cin) (s : Session) (c : Command)
    (response : Bytes) : Prop where
  sent : (c.request J cin s).1.isSome = true
  received : w.received = .ok response

theorem Hears.result_eq (h : Hears J w cin s c response) (hallowed : c.Allowed s) :
    (c.run J w cin s).result = c.react J s response := by
  obtain ⟨text, htext⟩ := Option.isSome_iff_exists.mp h.sent
  have hrequest : c.request J cin s = (some text, (c.request J cin s).2) := Prod.ext htext rfl
  rw [Command.run_sends hallowed hrequest]
  show w.received.bind _ = _
  rw [h.received]
  rfl

/-- **What a command comes back with**: its request can be written, the response is read,
and the result is an effect of the response. -/
theorem Command.result_eq_ok_iff (hallowed : c.Allowed s) {code : ℤ} {s' : Session} :
    (c.run J w cin s).result = .ok (code, s') ↔ (c.request J cin s).1.isSome = true ∧
      ∃ response, w.received = .ok response ∧ Effect J response s c code s' := by
  rcases hrequest : c.request J cin s with ⟨- | text, cin'⟩
  · rw [run_throws hallowed hrequest]
    exact iff_of_false (fun h => nomatch h) (fun h => nomatch h.1)
  · rw [run_sends hallowed hrequest]
    show w.received.bind _ = _ ↔ _
    cases hreceived : w.received with
    | error stop =>
      refine iff_of_false (fun h => nomatch h) ?_
      rintro ⟨-, response, hok, -⟩
      exact nomatch hok
    | ok response =>
      show c.react J s response = _ ↔ _
      rw [react_eq_ok_iff]
      simp

/-! ### Every command, every response -/

/-- A command comes back, with `EXIT_SUCCESS` or with `EXIT_FAILURE` and the session as
it was. -/
def Survives (J : Json) (w : World) (cin : Cin) (s : Session) (c : Command) : Prop :=
  ∃ code s', (c.run J w cin s).result = .ok (code, s') ∧
    (code = exitSuccess ∨ code = exitFailure) ∧ (code = exitFailure → s' = s)

/-- Two exit codes are all there are, and a failure changes nothing. -/
theorem Effect.code {s' : Session} {code : ℤ} (h : Effect J response s c code s') :
    (code = exitSuccess ∨ code = exitFailure) ∧ (code = exitFailure → s' = s) := by
  cases h with
  | refused => exact ⟨Or.inr rfl, fun _ => rfl⟩
  | done | admitted | connected | entered | left =>
    exact ⟨Or.inl rfl, fun h => absurd h exitSuccess_ne_exitFailure⟩

/-- **The responses that a command can judge.**  All, but those on which `parse` throws
something it does not catch and the tokens that `enter_library` cannot convert. -/
theorem accepts_or_refuses_iff : c.Accepts J response ∨ c.Refuses J response ↔
    ¬ (J.ThrowsOther response ∨ c = .enterLibrary ∧ J.BadToken response) := by
  rcases body_cases J response with hno | ⟨data, hx, hparse | hparse | ⟨json, hparse⟩⟩
  · -- no blank line: every command refuses
    have hx : extractJsonResponse response = none := hno
    have hrefuses : c.Refuses J response := by cases c <;> exact Or.inl hno
    have hgood : ¬ (J.ThrowsOther response ∨ c = .enterLibrary ∧ J.BadToken response) := by
      simp [Json.ThrowsOther, Json.BadToken, Json.Holds, hx]
    exact iff_of_true (Or.inr hrefuses) hgood
  · -- no JSON text
    have hgood : ¬ (J.ThrowsOther response ∨ c = .enterLibrary ∧ J.BadToken response) := by
      simp [Json.ThrowsOther, Json.BadToken, holds_iff hx, hx, hparse]
    have hnot := (notJson_iff hx).mpr hparse
    refine iff_of_true ?_ hgood
    cases c with
    | register | addBook | deleteBook | logout => exact Or.inl (Or.inl hnot)
    | enterLibrary | getBooks | getBook => exact Or.inr (Or.inr (Or.inl hnot))
    | login =>
      by_cases hcookie : ∃ cookie, CookieIn response cookie
      · exact Or.inl (Or.inl ⟨hnot, hcookie⟩)
      · exact Or.inr (Or.inr (Or.inl ⟨hnot, hcookie⟩))
  · -- an exception that is not caught
    have hbad : J.ThrowsOther response := ⟨data, hx, hparse⟩
    refine iff_of_false ?_ (not_not.mpr (Or.inl hbad))
    cases c <;> simp [Command.Accepts, Command.Refuses, notJson_iff hx, holds_iff hx, not_noBody hx,
      hparse]
  · -- a value: only `enter_library` asks more than whether there is a member
    have hother : ¬ J.ThrowsOther response := by simp [Json.ThrowsOther, hx, hparse]
    cases c with
    | enterLibrary =>
      cases hkey : J.contains json (ascii "token") <;>
        cases htoken : J.string json (ascii "token") <;>
          simp [Command.Accepts, Command.Refuses, hother, Json.BadToken, holds_iff hx,
            not_noBody hx, notJson_iff hx, hparse, hkey, htoken]
    | getBooks =>
      cases harr : J.isArray json <;>
        simp [Command.Accepts, Command.Refuses, hother, holds_iff hx, hparse, harr]
    | register | login | getBook | addBook | deleteBook | logout =>
      cases herr : J.contains json (ascii "error") <;>
        simp [Command.Accepts, Command.Refuses, hother, holds_iff hx, hparse, herr]

/-- A command comes back iff its reaction to the response does. -/
theorem exists_react_iff : (∃ code s', c.react J s response = .ok (code, s')) ↔
    c.Accepts J response ∨ c.Refuses J response := by
  constructor
  · rintro ⟨code, s', hreact⟩
    have heffect := react_eq_ok_iff.mp hreact
    rcases heffect.code.1 with rfl | rfl
    · exact Or.inl heffect.accepts
    · exact Or.inr heffect.refuses.1
  · rintro (haccepts | hrefuses)
    · obtain ⟨s', heffect⟩ := haccepts.exists_effect s
      exact ⟨exitSuccess, s', react_eq_ok_iff.mpr heffect⟩
    · exact ⟨exitFailure, s, react_eq_ok_iff.mpr (.refused hrefuses)⟩

/-- Nor is any of them the one that ends the client. -/
theorem Effect.ne_killClient {s' : Session} {code : ℤ} (h : Effect J response s c code s') :
    code ≠ killClient := by
  rcases h.code.1 with rfl | rfl <;> decide

/-- A response has an effect iff the command can judge it. -/
theorem exists_effect_iff : (∃ code s', Effect J response s c code s') ↔
    ¬ (J.ThrowsOther response ∨ c = .enterLibrary ∧ J.BadToken response) := by
  rw [← accepts_or_refuses_iff, ← exists_react_iff (s := s)]
  simp only [react_eq_ok_iff]

/-- A form that `dump` throws on is not survived either: nothing is sent, and there is no
response to judge. -/
theorem not_survives_of_dump (hallowed : c.Allowed s) (hdump : (c.request J cin s).1 = none) :
    ¬ Survives J w cin s c := by
  rintro ⟨code, s', hresult, -⟩
  have hsome := ((Command.result_eq_ok_iff hallowed).mp hresult).1
  rw [hdump] at hsome
  cases hsome

/-- **When a command survives a response**: unless its guard lets it through, `parse`
throws what it does not catch, or it is `enter_library` and the token is no string.  Where
`dump` throws there is no request, so no response either, and the command does not survive
(`not_survives_of_dump`). -/
theorem survives_iff (h : c.Allowed s → Hears J w cin s c response) : Survives J w cin s c ↔
    ¬ (c.Allowed s ∧ (J.ThrowsOther response ∨ c = .enterLibrary ∧ J.BadToken response)) := by
  by_cases hallowed : c.Allowed s
  · have heffect : Survives J w cin s c ↔ ∃ code s', Effect J response s c code s' := by
      unfold Survives
      rw [(h hallowed).result_eq hallowed]
      constructor
      · rintro ⟨code, s', hrun, -⟩
        exact ⟨code, s', react_eq_ok_iff.mp hrun⟩
      · rintro ⟨code, s', heffect⟩
        exact ⟨code, s', react_eq_ok_iff.mpr heffect, heffect.code⟩
    rw [heffect, exists_effect_iff]
    simp [hallowed]
  · refine iff_of_true ⟨exitFailure, s, ?_, Or.inr rfl, fun _ => rfl⟩ fun hbad => hallowed hbad.1
    rw [Command.run_refused hallowed]
    rfl

/-- A `200 OK` with a number for a token. -/
def numberToken : Bytes := ascii "HTTP/1.1 200 OK\r\n\r\n\x7b\"token\":5\x7d"

/-- A library that knows its body. -/
def numberTokenJson : Json :=
  .ofValues [(ascii "\r\n\r\n\x7b\"token\":5\x7d", .object [(ascii "token", .number (ascii "5"))])]

/-- A user who has logged in. -/
def loggedIn : Session := ⟨ascii "id=1", [], true⟩

theorem numberToken_hears (c : Command) (hc : c = .enterLibrary ∨ c = .logout) :
    Hears numberTokenJson (.answering ⟨numberToken, by decide +kernel⟩) ⟨[], false⟩ loggedIn c
      numberToken where
  sent := by rcases hc with rfl | rfl <;> rfl
  received := by decide +kernel

theorem numberToken_bad : numberTokenJson.BadToken numberToken :=
  ⟨_, _, rfl, rfl, by decide +kernel, by decide +kernel⟩

theorem survives_iff_numberToken :
    Survives numberTokenJson (.answering ⟨numberToken, by decide +kernel⟩) ⟨[], false⟩ loggedIn
        .logout ↔
      ¬ (Command.logout.Allowed loggedIn ∧ (numberTokenJson.ThrowsOther numberToken ∨
        Command.logout = .enterLibrary ∧ numberTokenJson.BadToken numberToken)) :=
  survives_iff fun _ => numberToken_hears .logout (Or.inr rfl)

/-- `enter_library` does not survive it. -/
theorem not_survives_numberToken :
    (∀ text, numberTokenJson.parse text ≠ .error .other) ∧
      Hears numberTokenJson (.answering ⟨numberToken, by decide +kernel⟩) ⟨[], false⟩ loggedIn
        .enterLibrary numberToken ∧
      ¬ Survives numberTokenJson (.answering ⟨numberToken, by decide +kernel⟩) ⟨[], false⟩ loggedIn
        .enterLibrary := by
  have hhears := numberToken_hears .enterLibrary (Or.inl rfl)
  refine ⟨fun text => Json.ofValues_parse_ne_other, hhears, ?_⟩
  rintro ⟨code, s', hrun, -⟩
  rw [hhears.result_eq rfl] at hrun
  exact accepts_or_refuses_iff.mp (exists_react_iff.mp ⟨code, s', hrun⟩)
    (Or.inr ⟨rfl, numberToken_bad⟩)

/-! ### A reported login -/

/-- `login` reports success iff it leaves the session connected with a cookie of the
response; `register` leaves both alone. -/
structure ReportedLogin (J : Json) (w : World) (cin : Cin) (s : Session) (response : Bytes) :
    Prop where
  login : ∀ code s', (authPost J w cin s login).result = .ok (code, s') →
    (code = exitSuccess ↔ s'.isConnected = true ∧ TakenFrom response s'.loginCookie)
  register : ∀ (w : World) (cin : Cin) (s : Session) code s',
    (authPost J w cin s register).result = .ok (code, s') →
      s'.isConnected = s.isConnected ∧ s'.loginCookie = s.loginCookie

/-- `register` changes nothing, whatever it reads. -/
theorem register_session {s' : Session} {code : ℤ}
    (h : (authPost J w cin s register).result = .ok (code, s')) : s' = s := by
  have hallowed : Command.register.Allowed s := trivial
  have hrun : (Command.register.run J w cin s).result = .ok (code, s') := h
  obtain ⟨-, response, -, heffect⟩ := (Command.result_eq_ok_iff hallowed).mp hrun
  exact ((effect_iff (by decide)).mp heffect).1.symm

/-- **When a reported login is one**: unless the body is a JSON value without an error,
on which `login` reports success and does not look for a cookie. -/
theorem reportedLogin_iff (hs : s.isConnected = false) (h : Hears J w cin s .login response) :
    ReportedLogin J w cin s response ↔
      ¬ J.Holds response fun json => ¬ J.contains json (ascii "error") := by
  have hallowed : Command.login.Allowed s := by
    show ¬ s.isConnected = true
    rw [hs]
    decide
  have hresult : (authPost J w cin s Http.login).result = Command.login.react J s response :=
    h.result_eq hallowed
  constructor
  · rintro ⟨hlogin, -⟩ hadmitted
    have hrun := hresult.trans (react_eq_ok_iff.mpr (.admitted hadmitted))
    have hconnected := ((hlogin _ _ hrun).mp rfl).1
    rw [hs] at hconnected
    cases hconnected
  · intro hno
    refine ⟨fun code s' hrun => ?_, fun w cin s code s' hrun => ?_⟩
    · cases react_login_iff.mp (hresult.symm.trans hrun) with
      | refused =>
        refine iff_of_false exitFailure_ne_exitSuccess fun hconnected => ?_
        rw [hs] at hconnected
        cases hconnected.1
      | done hc => exact absurd rfl hc.1
      | admitted hadmitted => exact absurd hadmitted hno
      | connected _ hcookie => exact iff_of_true rfl ⟨rfl, hcookie.takenFrom⟩
    · rw [register_session hrun]
      exact ⟨rfl, rfl⟩

/-- A `200 OK` with an empty object. -/
def emptyObject : Bytes := ascii "HTTP/1.1 200 OK\r\n\r\n\x7b\x7d"

/-- A library that knows its body. -/
def emptyObjectJson : Json := .ofValues [(ascii "\r\n\r\n\x7b\x7d", .object [])]

/-- The input of `login`. -/
def userInput : Cin := ⟨ascii "user password", false⟩

theorem emptyObject_hears : Hears emptyObjectJson (.answering ⟨emptyObject, by decide +kernel⟩)
    userInput ⟨[], [], false⟩ .login emptyObject where
  sent := by decide +kernel
  received := by decide +kernel

theorem reportedLogin_iff_emptyObject :
    ReportedLogin emptyObjectJson (.answering ⟨emptyObject, by decide +kernel⟩) userInput
        ⟨[], [], false⟩ emptyObject ↔
      ¬ emptyObjectJson.Holds emptyObject fun json =>
        ¬ emptyObjectJson.contains json (ascii "error") :=
  reportedLogin_iff rfl emptyObject_hears

/-- `login` takes it for a success, and the session is not connected. -/
theorem not_reportedLogin_emptyObject :
    ¬ ReportedLogin emptyObjectJson (.answering ⟨emptyObject, by decide +kernel⟩) userInput
      ⟨[], [], false⟩ emptyObject := by
  rintro ⟨hlogin, -⟩
  have hadmitted : emptyObjectJson.Holds emptyObject fun json =>
      ¬ emptyObjectJson.contains json (ascii "error") = true :=
    ⟨_, _, rfl, rfl, by decide⟩
  have hrun := (emptyObject_hears.result_eq (fun hc => nomatch hc)).trans
    (react_eq_ok_iff.mpr (.admitted hadmitted))
  exact nomatch ((hlogin _ _ hrun).mp rfl).1

end TemePCom.Http
