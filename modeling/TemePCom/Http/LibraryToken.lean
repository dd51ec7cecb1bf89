/-
TemePCom/Http/LibraryToken.lean

The token of the library and the session it belongs to.

`Standing` is what the user has been granted: a login, and within it the library.
It is computed from the commands that succeed, so it watches the client without
taking part in it.  The token should belong to the current login
(`TokenIsCurrent`), and then the commands of the library are only sent by a user
in the library (`RequestsAreEntitled`).  `logout` leaves the token where it is, so
both hold in a run exactly as long as no `logout` succeeds while there is a token
(`tokenIsCurrent_iff`).
-/
import TemePCom.Http.CommandSpec
import TemePCom.Lib.Run

namespace TemePCom.Http

open Runs

/-- What the user has been granted since the last login or logout. -/
inductive Standing
  | out
  | loggedIn
  | entered
  deriving DecidableEq

/-- The exit code of a command that returns. -/
def exitCode : Answer → Option ℤ
  | .ok (code, _) => some code
  | .error _ => none

/-- The standing after a command. -/
def Standing.after (st : Standing) (c : Option Command) (code : Option ℤ) : Standing :=
  if code = some exitSuccess then
    match c with
    | some .login => .loggedIn
    | some .enterLibrary => if st = .out then .out else .entered
    | some .logout => .out
    | _ => st
  else st

theorem Standing.after_of_ne {code : Option ℤ} (h : code ≠ some exitSuccess) (st : Standing)
    (c : Option Command) : st.after c code = st := if_neg h

/-- Only `login`, `enter_library` and `logout` change the standing. -/
theorem Standing.after_of_done {c : Command}
    (hc : c ≠ .login ∧ c ≠ .enterLibrary ∧ c ≠ .logout) (st : Standing) (code : Option ℤ) :
    st.after (some c) code = st := by
  unfold Standing.after
  split
  · cases c with
    | register | getBooks | getBook | addBook | deleteBook => rfl
    | login => exact absurd rfl hc.1
    | enterLibrary => exact absurd rfl hc.2.1
    | logout => exact absurd rfl hc.2.2
  · rfl

/-- The command that is read next, if it is one that sends a request. -/
def Client.command (c : Client) : Option Command := Command.entries.lookup c.cin.word.1

/-- The client, and what its user has been granted. -/
structure Tracked where
  client : Client
  standing : Standing
  deriving DecidableEq

def Tracked.start (input : Bytes) : Tracked := ⟨Client.start input, .out⟩

/-- A turn of the client. -/
def Tracked.next (J : Json) (t : Tracked) (w : World) : Option Tracked :=
  (t.client.next J w).map fun client =>
    ⟨client, t.standing.after t.client.command (exitCode (t.client.turn J w).2.result)⟩

def Tracked.Next (J : Json) (t : Tracked) (w : World) (t' : Tracked) : Prop :=
  t.next J w = some t'

/-- A token was obtained in the current login. -/
def TokenIsCurrent (t : Tracked) : Prop :=
  t.client.session.jwtToken ≠ [] → t.client.session.isConnected ∧ t.standing = .entered

/-- The commands of the library. -/
def Command.OfLibrary (c : Command) : Prop :=
  c = .getBooks ∨ c = .getBook ∨ c = .addBook ∨ c = .deleteBook

/-- A request to the library is only sent by a user who is in it. -/
def RequestsAreEntitled (J : Json) (t : Tracked) : Prop :=
  ∀ w c, t.client.command = some c → c.OfLibrary → (t.client.turn J w).2.calls ≠ [] →
    t.standing = .entered

/-- No `logout` succeeds while there is a token. -/
def KeepsNoToken (J : Json) (t : Tracked) (w : World) : Prop :=
  t.client.command = some .logout → t.client.session.isConnected →
    t.client.session.jwtToken ≠ [] →
      ∀ response, w.received = .ok response → ¬ Command.logout.Accepts J response

/-! ### The turns of the client -/

section Turns

variable {J : Json} {w : World}

theorem Client.turn_snd (c : Client) :
    (c.turn J w).2 = commandCaller J w c.cin.word.2 c.session c.cin.word.1 := rfl

theorem lookup_exit : Command.entries.lookup (ascii "exit") = none := by decide +kernel

theorem Client.turn_of_command {c : Client} {cmd : Command} (h : c.command = some cmd) :
    (c.turn J w).2 = cmd.run J w c.cin.word.2 c.session := by
  have hlookup : Command.entries.lookup c.cin.word.1 = some cmd := h
  have hexit : c.cin.word.1 ≠ ascii "exit" := by
    intro hword
    rw [hword, lookup_exit] at hlookup
    cases hlookup
  rw [Client.turn_snd, commandCaller, if_neg hexit, hlookup]

/-- Without a command, the turn does nothing. -/
theorem Client.turn_of_none {c : Client} (h : c.command = none) :
    (c.turn J w).2.calls = [] ∧ ∃ code, code ≠ exitSuccess ∧
      (c.turn J w).2.result = .ok (code, c.session) := by
  have hlookup : Command.entries.lookup c.cin.word.1 = none := h
  rw [Client.turn_snd, commandCaller]
  by_cases hexit : c.cin.word.1 = ascii "exit"
  · rw [if_pos hexit]
    exact ⟨rfl, killClient, by decide, rfl⟩
  · rw [if_neg hexit, hlookup]
    exact ⟨rfl, exitFailure, by decide, rfl⟩

theorem Client.next_eq_some {c c' : Client} (h : c.next J w = some c') :
    ∃ code, (c.turn J w).2.result = .ok (code, c'.session) := by
  unfold Client.next at h
  cases hresult : (c.turn J w).2.result with
  | error stop => simp [hresult] at h
  | ok answer =>
    obtain ⟨code, session⟩ := answer
    simp only [hresult] at h
    split at h
    · cases h
    · cases h
      exact ⟨code, rfl⟩

theorem Client.next_of_result {c : Client} {code : ℤ} {session : Session}
    (h : (c.turn J w).2.result = .ok (code, session)) (hcode : code ≠ killClient) :
    c.next J w = some ⟨(c.turn J w).2.cin, session⟩ := by
  simp only [Client.next, h, if_neg hcode]

/-- **A turn** leaves the session and the standing alone, or is an effect of a
command on the response that is read. -/
theorem Tracked.Next.cases {t t' : Tracked} (h : Tracked.Next J t w t') :
    (t'.client.session = t.client.session ∧ t'.standing = t.standing) ∨
    ∃ cmd response code, t.client.command = some cmd ∧ cmd.Allowed t.client.session ∧
      w.received = .ok response ∧
      Effect J response t.client.session cmd code t'.client.session ∧
      t'.standing = t.standing.after (some cmd) (some code) := by
  obtain ⟨client, hclient, rfl⟩ := Option.map_eq_some_iff.mp h
  obtain ⟨code, hresult⟩ := Client.next_eq_some hclient
  rw [hresult]
  cases hcommand : t.client.command with
  | none =>
    obtain ⟨-, code', hcode', hresult'⟩ := Client.turn_of_none (J := J) (w := w) hcommand
    obtain ⟨rfl, hsession⟩ := Prod.mk.inj (Except.ok.inj (hresult.symm.trans hresult'))
    have hfailed : (some code : Option ℤ) ≠ some exitSuccess := fun h => hcode' (Option.some.inj h)
    refine Or.inl ⟨hsession, ?_⟩
    show t.standing.after none (some code) = t.standing
    exact Standing.after_of_ne hfailed _ _
  | some cmd =>
    rw [Client.turn_of_command hcommand] at hresult
    by_cases hallowed : cmd.Allowed t.client.session
    swap
    · rw [Command.run_refused hallowed] at hresult
      obtain ⟨rfl, hsession⟩ := Prod.mk.inj (Except.ok.inj hresult)
      refine Or.inl ⟨hsession.symm, ?_⟩
      show t.standing.after (some cmd) (some exitFailure) = t.standing
      exact Standing.after_of_ne (by decide) _ _
    rcases hrequest : cmd.request J t.client.cin.word.2 t.client.session with ⟨_ | text, cin⟩
    · rw [Command.run_throws hallowed hrequest] at hresult
      cases hresult
    · rw [Command.run_sends hallowed hrequest] at hresult
      cases hreceived : w.received with
      | error stop => simp [hreceived, Except.bind] at hresult
      | ok response =>
        have hreact : cmd.react J t.client.session response = .ok (code, client.session) := by
          simpa [hreceived, Except.bind] using hresult
        exact Or.inr ⟨cmd, response, code, rfl, hallowed, rfl, react_eq_ok_iff.mp hreact, rfl⟩

end Turns

/-! ### The exact condition -/

/-- The invariant of the runs in which no `logout` leaves a token behind. -/
structure TokenInv (t : Tracked) : Prop where
  current : TokenIsCurrent t
  granted : t.client.session.isConnected → t.standing ≠ .out

theorem TokenInv.start (input : Bytes) : TokenInv (Tracked.start input) :=
  ⟨fun h => absurd rfl h, nofun⟩

theorem TokenInv.next {J : Json} {t t' : Tracked} {w : World} (h : TokenInv t)
    (hnext : Tracked.Next J t w t') (hkeeps : KeepsNoToken J t w) : TokenInv t' := by
  rcases hnext.cases with ⟨hsession, hstanding⟩ |
    ⟨cmd, response, code, hcommand, hallowed, hreceived, heffect, hstanding⟩
  · constructor
    · unfold TokenIsCurrent
      rw [hsession, hstanding]
      exact h.current
    · rw [hsession, hstanding]
      exact h.granted
  · have hcurrent := h.current
    unfold TokenIsCurrent at hcurrent
    -- the session after the effect
    constructor
    · unfold TokenIsCurrent
      rw [hstanding]
      generalize t'.client.session = session at heffect ⊢
      cases heffect with
      | refused => exact hcurrent
      | done hc =>
        rw [Standing.after_of_done hc]
        exact hcurrent
      | admitted => exact fun htoken => absurd (hcurrent htoken).1 hallowed
      | connected hnot hcookie => exact fun htoken => absurd (hcurrent htoken).1 hallowed
      | entered hjson => exact fun _ => ⟨hallowed, if_neg (h.granted hallowed)⟩
      | left haccepts =>
        exact fun htoken => absurd haccepts (hkeeps hcommand hallowed htoken _ hreceived)
    · rw [hstanding]
      generalize t'.client.session = session at heffect ⊢
      cases heffect with
      | refused => exact h.granted
      | done hc =>
        rw [Standing.after_of_done hc]
        exact h.granted
      | admitted => exact fun hconnected => absurd hconnected hallowed
      | connected hnot hcookie => exact fun _ => nofun
      | entered hjson =>
        intro _
        show (if t.standing = .out then Standing.out else .entered) ≠ .out
        rw [if_neg (h.granted hallowed)]
        nofun
      | left haccepts => exact nofun

/-- The guard of the library's commands asks for the token only, and that is enough. -/
theorem TokenIsCurrent.entitled {J : Json} {t : Tracked} (h : TokenIsCurrent t) :
    RequestsAreEntitled J t := by
  intro w c hcommand hlibrary hcalls
  rw [Client.turn_of_command hcommand] at hcalls
  by_cases hallowed : c.Allowed t.client.session
  · have htoken : t.client.session.jwtToken ≠ [] := by
      rcases hlibrary with rfl | rfl | rfl | rfl <;> exact hallowed
    exact (h htoken).2
  · rw [Command.run_refused hallowed] at hcalls
    exact absurd rfl hcalls

/-- A `logout` that succeeds while there is a token leaves it without a session. -/
theorem not_tokenIsCurrent_of_logout {J : Json} {t t' : Tracked} {w : World}
    (hnext : Tracked.Next J t w t') (h : ¬ KeepsNoToken J t w) : ¬ TokenIsCurrent t' := by
  unfold KeepsNoToken at h
  push Not at h
  obtain ⟨hcommand, hconnected, htoken, response, hreceived, haccepts⟩ := h
  obtain ⟨text, hrequest, hrun⟩ := run_logout (s := t.client.session) hconnected J w
    t.client.cin.word.2
  have hreact : Command.logout.react J t.client.session response =
      .ok (exitSuccess, { t.client.session with isConnected := false }) :=
    react_eq_ok_iff.mpr (.left haccepts)
  have hresult : (t.client.turn J w).2.result =
      .ok (exitSuccess, { t.client.session with isConnected := false }) := by
    rw [Client.turn_of_command hcommand, hrun]
    show w.received.bind _ = _
    rw [hreceived]
    exact hreact
  have hclient := Client.next_of_result hresult (by decide)
  obtain ⟨client, hclient', rfl⟩ := Option.map_eq_some_iff.mp hnext
  obtain rfl := Option.some.inj (hclient.symm.trans hclient')
  exact fun hcurrent => nomatch (hcurrent htoken).1

/-- **The token belongs to the current session** in every state of a run, and the
library's requests are only sent then, iff no `logout` of the run succeeds while there
is a token. -/
theorem tokenIsCurrent_iff (J : Json) (input : Bytes) (worlds : List World) :
    Along (Tracked.Next J) (fun t => TokenIsCurrent t ∧ RequestsAreEntitled J t)
        (Tracked.start input) worlds ↔
      Each (Tracked.Next J) (KeepsNoToken J) (Tracked.start input) worlds := by
  have hgood : ∀ t w t', TokenInv t → Tracked.Next J t w t' → KeepsNoToken J t w → TokenInv t' :=
    fun _ _ _ hinv hnext hkeeps => hinv.next hnext hkeeps
  have hholds : ∀ t, TokenInv t → TokenIsCurrent t ∧ RequestsAreEntitled J t :=
    fun _ hinv => ⟨hinv.current, hinv.current.entitled⟩
  have hbad : ∀ t w t', TokenInv t → Tracked.Next J t w t' → ¬ KeepsNoToken J t w →
      ¬ (TokenIsCurrent t' ∧ RequestsAreEntitled J t') :=
    fun _ _ _ _ hnext hkeeps h => not_tokenIsCurrent_of_logout hnext hkeeps h.1
  exact along_iff_each TokenInv hgood hholds hbad (TokenInv.start input)

/-! ### A logout that leaves the token -/

/-- The server's answer to `enter_library` as the only JSON text. -/
def tokenJson : Json :=
  .ofTable [(ascii "\r\n\r\n\x7b\"token\":\"t\"\x7d", [(ascii "token", ascii "t")])]

/-- The answers to a login, to `enter_library` and to `logout`. -/
def loginChunk : Chunk :=
  ⟨ascii "HTTP/1.1 200 OK\r\nSet-Cookie: id=1; Path=/\r\nContent-Length: 2\r\n\r\nhi",
    by decide +kernel⟩

def enterChunk : Chunk :=
  ⟨ascii "HTTP/1.1 200 OK\r\nContent-Length: 13\r\n\r\n\x7b\"token\":\"t\"\x7d", by decide +kernel⟩

def logoutChunk : Chunk :=
  ⟨ascii "HTTP/1.1 200 OK\r\nContent-Length: 3\r\n\r\nbye", by decide +kernel⟩

def leavingInput : Bytes := ascii "login user password enter_library logout get_books"

def leavingWorlds : List World :=
  [.answering loginChunk, .answering enterChunk, .answering logoutChunk]

/-- After the logout, the client still has the token. -/
def leavingEnd : Tracked where
  client := ⟨⟨ascii " get_books", false⟩, ⟨ascii "id=1", ascii "t", false⟩⟩
  standing := .out

theorem run_leaving :
    Run (Tracked.Next tokenJson) (Tracked.start leavingInput) leavingWorlds leavingEnd := by
  have hexec : exec (Tracked.next tokenJson) (Tracked.start leavingInput) leavingWorlds =
      some leavingEnd := by decide +kernel
  exact run_of_exec (fun _ _ _ h => h) hexec

/-- The token outlives its session. -/
theorem not_tokenIsCurrent_leaving : ¬ ∀ (J : Json) (input : Bytes) (worlds : List World),
    Along (Tracked.Next J) (fun t => TokenIsCurrent t ∧ RequestsAreEntitled J t)
      (Tracked.start input) worlds := by
  intro h
  have hend := (h tokenJson leavingInput leavingWorlds).of_run run_leaving
  exact nomatch (hend.1 (List.cons_ne_nil _ _)).1

end TemePCom.Http
