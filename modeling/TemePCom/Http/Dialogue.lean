/-
TemePCom/Http/Dialogue.lean

The client and a server, over connections that deliver in pieces.

There are two machines on the same states, a `Client` and the state of a server.  In the
one (`Joint.Next`) a turn of the client runs over a connection: what the server reads is
what the `write`s have accepted, and what the `read`s return are the pieces of its answer.
In the other (`Joint.Speaks`) there are no bytes: a command that its guard lets through is
one request, as `Command.asks` says, and one answer, from which the session learns what
`Command.learns` says.

They have the same runs (`dialogue_iff`), for every server that frames its answers by a
plain `Content-Length` and keeps its cookies on their lines (`SizedResponse.Polite`) and
whatever is typed, as long as the first piece of an answer holds its header.  The connections
are established, and no call on them fails (`Link.world`).
-/
import TemePCom.Lib.Run
import TemePCom.Http.Chunking
import TemePCom.Http.Asking
import TemePCom.Http.LibraryToken
import TemePCom.Http.Survival

namespace TemePCom.Http

open Runs Lines

/-! ### What is learnt from an answer -/

/-- The cookie of the first line that has the marker. -/
def Response.cookie (r : Response) : Option Bytes :=
  (markedLine r.lines).map fun start => cookieOf (start.drop 12)

/-- The body as JSON, with the blank line in front of it. -/
def Response.json (r : Response) (J : Json) : Except JsonError J.Value :=
  J.parse (headerTerminator ++ r.body)

/-- The session after an answer, unless the JSON library throws. -/
def Command.learns (J : Json) (r : Response) (s : Session) (c : Command) : Option Session :=
  match r.json J with
  | .error .other => none
  | .error .parseError =>
    match c with
    | .login =>
      match r.cookie with
      | some cookie =>
        some { s with
          loginCookie := cookie
          isConnected := true }
      | none => some s
    | .logout => some { s with isConnected := false }
    | _ => some s
  | .ok json =>
    match c with
    | .enterLibrary =>
      if J.contains json (ascii "token") then
        (J.string json (ascii "token")).map fun token => { s with jwtToken := token }
      else some s
    | .logout =>
      if J.contains json (ascii "error") then some s else some { s with isConnected := false }
    | _ => some s

/-- An answer as the client expects it: a plain length, a semicolon behind the cookie and no
cookie in the body, and a token that can stand in a line. -/
structure SizedResponse.Polite (J : Json) (r : SizedResponse) : Prop where
  plain : r.Plain
  marked : ∀ start, markedLine r.lines = some start → 59 ∈ start.drop 12
  unmarked : strstr r.body cookieMarker = none
  token : ∀ json token, r.json J = .ok json → J.string json (ascii "token") = some token →
    Clean token

section Learns

variable {J : Json} {r : SizedResponse} {s s' : Session} {c : Command}

theorem SizedResponse.cString_body (r : SizedResponse) : cString r.body = r.body :=
  cString_of_notMem r.body_clean

theorem Response.cookie_clean {r : Response} {cookie : Bytes} (h : r.cookie = some cookie) :
    Clean cookie ∧ 59 ∉ cookie := by
  obtain ⟨start, hstart, rfl⟩ := Option.map_eq_some_iff.mp h
  refine ⟨fun c hc => ?_, cookieOf_notMem _⟩
  obtain ⟨line, hline, hfound⟩ := List.exists_of_findSome?_eq_some hstart
  obtain ⟨i, -, rfl⟩ := Option.map_eq_some_iff.mp hfound
  have hmem := List.mem_of_mem_drop ((List.takeWhile_prefix _).subset hc)
  exact r.lines_clean line hline c (List.mem_of_mem_drop hmem)

/-- A text with a semicolon has one behind its cookie. -/
theorem cookieOf_append_start {value : Bytes} (h : 59 ∈ value) :
    cookieOf value ++ [59] <+: value := by
  have hne : value.dropWhile (· ≠ 59) ≠ [] := by
    intro hnil
    have hall := List.dropWhile_eq_nil_iff.mp hnil 59 h
    simp at hall
  obtain ⟨c, rest, hrest⟩ := List.exists_cons_of_ne_nil hne
  obtain rfl : c = 59 := by
    have hhead := List.head_dropWhile_not (fun x : UInt8 => decide (x ≠ 59)) hne
    simp only [hrest, List.head_cons] at hhead
    simpa using hhead
  refine ⟨rest, ?_⟩
  rw [cookieOf, List.append_assoc]
  show _ ++ 59 :: rest = value
  rw [← hrest]
  exact List.takeWhile_append_dropWhile

/-- **The cookie that is found** is the one of the line. -/
theorem SizedResponse.Polite.cookieIn_iff (h : r.Polite J) {cookie : Bytes} :
    CookieIn (cString r.text) cookie ↔ r.cookie = some cookie := by
  cases hstart : markedLine r.lines with
  | none =>
    have htext : cString r.text = block r.lines ++ ([] ++ crlf ++ r.body) := by
      rw [r.cString_text, r.cString_body, Response.header, List.append_assoc]
      rfl
    have hrest : strstr ([] ++ crlf ++ r.body) cookieMarker = none := by
      have hnil : strstr [] cookieMarker = none := by decide
      rw [strstr_line, hnil]
      exact h.unmarked
    have hfind : strstr (cString r.text) cookieMarker = none := by
      rw [htext]
      rcases strstr_block r.lines ([] ++ crlf ++ r.body) with ⟨-, heq⟩ | ⟨start, -, hs, -⟩
      · rw [heq, hrest]
      · rw [hstart] at hs
        cases hs
    refine iff_of_false ?_ (by simp [Response.cookie, hstart])
    intro hcookie
    obtain ⟨start, hfound, -⟩ := Http.cookieIn_iff.mp hcookie
    rw [hfind] at hfound
    cases hfound
  | some start =>
    have hcookie : r.cookie = some (cookieOf (start.drop 12)) := by
      rw [Response.cookie, hstart]
      rfl
    have hclean := (Response.cookie_clean hcookie).1
    have hfound : CookieIn (cString r.text) (cookieOf (start.drop 12)) :=
      (cookieIn_text_iff r.toResponse (cookieOf_notMem _) hclean.oneLine.notMem hstart).mpr
        (cookieOf_append_start (h.marked start hstart))
    rw [hcookie]
    constructor
    · intro h'
      rw [hfound.unique h']
    · intro h'
      rw [← Option.some.inj h']
      exact hfound

/-- What the handlers look at is the body as JSON. -/
theorem SizedResponse.extract_eq (r : SizedResponse) :
    extractJsonResponse (cString r.text) = some (headerTerminator ++ r.body) := by
  rw [Response.extract_eq, r.cString_body]

theorem SizedResponse.length_ne_zero (r : SizedResponse) : ¬ (cString r.text).length = 0 := by
  intro h
  exact not_noBody r.extract_eq (length_eq_zero_noBody h)

/-- `login` on a body that is no JSON text. -/
theorem loginCookieHandler_learns (h : r.Polite J) (s : Session) :
    ∃ code, loginCookieHandler (cString r.text) s = (code, match r.cookie with
      | some cookie =>
        { s with
          loginCookie := cookie
          isConnected := true }
      | none => s) := by
  rcases loginCookieHandler_eq (cString r.text) s with ⟨cookie, hcookie, hset⟩ | ⟨hnone, hset⟩
  · rw [h.cookieIn_iff.mp hcookie]
    exact ⟨_, hset⟩
  · cases hc : r.cookie with
    | none => exact ⟨_, hset⟩
    | some cookie => exact absurd ⟨cookie, h.cookieIn_iff.mpr hc⟩ hnone

/-- **The reaction to an answer** is what is learnt from it. -/
theorem SizedResponse.Polite.react_iff (h : r.Polite J) :
    (∃ code, c.react J s (cString r.text) = .ok (code, s')) ↔
      c.learns J r.toResponse s = some s' := by
  have hx := r.extract_eq
  have hlen := r.length_ne_zero
  cases hjson : J.parse (headerTerminator ++ r.body) with
  | error e =>
    cases e with
    | other =>
      cases c <;> simp [Command.react, Command.learns, Response.json, hlen, authResponseHandler,
        entranceResponseHandler, summaryHandler, detailsHandler, basicJsonHandler, parseJson, hx,
        hjson, unchanged, endSession, Except.map]
    | parseError =>
      cases c with
      | login =>
        obtain ⟨code, hcode⟩ := loginCookieHandler_learns h s
        simp only [Command.react, if_neg hlen, authResponseHandler, hx, hjson, if_true, hcode,
          Command.learns, Response.json]
        cases r.cookie <;> simp
      | register | enterLibrary | getBooks | getBook | addBook | deleteBook | logout =>
        simp [Command.react, Command.learns, Response.json, hlen, authResponseHandler, login,
          register, entranceResponseHandler, summaryHandler, detailsHandler, basicJsonHandler,
          parseJson, hx, hjson, unchanged, endSession, Except.map]
  | ok json =>
    cases c with
    | enterLibrary =>
      cases hkey : J.contains json (ascii "token") <;>
        cases htoken : J.string json (ascii "token") <;>
          simp [Command.react, Command.learns, Response.json, hlen, entranceResponseHandler,
            parseJson, hx, hjson, hkey, htoken]
    | getBooks =>
      cases harr : J.isArray json <;>
        simp [Command.react, Command.learns, Response.json, hlen, summaryHandler, parseJson, hx,
          hjson, harr, unchanged, Except.map]
    | register | login | getBook | addBook | deleteBook | logout =>
      cases herr : J.contains json (ascii "error") <;>
        simp [Command.react, Command.learns, Response.json, hlen, authResponseHandler, login,
          register, detailsHandler, basicJsonHandler, parseJson, hx, hjson, herr, unchanged,
          endSession, Except.map]

/-- Everything that can be learnt: nothing, a cookie, a token, or that the session has
ended. -/
inductive Learnt (J : Json) (r : Response) (s : Session) : Command → Session → Prop
  | same {c : Command}
      (hcookie : c = .login → r.json J = .error .parseError → r.cookie = none)
      (htoken : c = .enterLibrary →
        ∀ json, r.json J = .ok json → J.contains json (ascii "token") = false) :
      Learnt J r s c s
  | connected {cookie : Bytes} (hjson : r.json J = .error .parseError)
      (hcookie : r.cookie = some cookie) :
      Learnt J r s .login
        { s with
          loginCookie := cookie
          isConnected := true }
  | entered {json : J.Value} {token : Bytes} (hjson : r.json J = .ok json)
      (hkey : J.contains json (ascii "token") = true)
      (htoken : J.string json (ascii "token") = some token) :
      Learnt J r s .enterLibrary { s with jwtToken := token }
  | left : Learnt J r s .logout { s with isConnected := false }

theorem Command.learns_cases {r : Response} (h : c.learns J r s = some s') :
    Learnt J r s c s' := by
  unfold Command.learns at h
  cases hjson : r.json J with
  | error e =>
    cases e with
    | other => simp [hjson] at h
    | parseError =>
      cases c with
      | login =>
        cases hcookie : r.cookie with
        | none =>
          obtain rfl : s = s' := by simpa [hjson, hcookie] using h
          exact .same (fun _ _ => hcookie) (fun hc => nomatch hc)
        | some cookie =>
          simp only [hjson, hcookie, Option.some.injEq] at h
          rw [← h]
          exact .connected hjson hcookie
      | logout =>
        simp only [hjson, Option.some.injEq] at h
        rw [← h]
        exact .left
      | register | enterLibrary | getBooks | getBook | addBook | deleteBook =>
        obtain rfl : s = s' := by simpa [hjson] using h
        refine .same (fun hc => nomatch hc) fun _ json hok => ?_
        rw [hjson] at hok
        cases hok
  | ok json =>
    cases c with
    | enterLibrary =>
      cases hkey : J.contains json (ascii "token") with
      | false =>
        obtain rfl : s = s' := by simpa [hjson, hkey] using h
        refine .same (fun hc => nomatch hc) fun _ json' hok => ?_
        obtain rfl := Except.ok.inj (hjson.symm.trans hok)
        exact hkey
      | true =>
        simp only [hjson, hkey, if_true] at h
        obtain ⟨token, htoken, rfl⟩ := Option.map_eq_some_iff.mp h
        exact .entered hjson hkey htoken
    | logout =>
      cases herr : J.contains json (ascii "error") with
      | true =>
        obtain rfl : s = s' := by simpa [hjson, herr] using h
        exact .same (fun hc => nomatch hc) (fun hc => nomatch hc)
      | false =>
        simp only [hjson, herr, Bool.false_eq_true, if_false, Option.some.injEq] at h
        rw [← h]
        exact .left
    | register | login | getBooks | getBook | addBook | deleteBook =>
      obtain rfl : s = s' := by simpa [hjson] using h
      refine .same (fun _ herror => ?_) (fun hc => nomatch hc)
      rw [hjson] at herror
      cases herror

/-- **What is learnt can stand in a line.** -/
theorem SizedResponse.Polite.tidy (h : r.Polite J) (hs : s.Tidy)
    (hlearns : c.learns J r.toResponse s = some s') : s'.Tidy := by
  cases Command.learns_cases hlearns with
  | same => exact hs
  | connected _ hcookie =>
    obtain ⟨hclean, hmark⟩ := Response.cookie_clean hcookie
    exact ⟨hclean, hmark, hs.token⟩
  | entered hjson _ htoken => exact ⟨hs.cookie, hs.mark, h.token _ _ hjson htoken⟩
  | left => exact ⟨hs.cookie, hs.mark, hs.token⟩

end Learns

/-! ### The two machines -/

/-- A server: what it answers to a request, by its state. -/
structure Remote (J : Json) where
  State : Type
  start : State
  answer : State → Decoded → SizedResponse × State
  polite : ∀ t d, (answer t d).1.Polite J

/-- A request and its answer. -/
structure Exchange where
  request : Decoded
  response : SizedResponse

/-- A connection: its descriptor, how much each `write` accepts at most, the pieces of the
answer that the `read`s return, what comes behind them, and the memory behind the buffer. -/
structure Link where
  fd : ℕ
  plan : List ℕ
  pieces : List Chunk
  later : List ReadResult
  beyond : Bytes

/-- What the system calls return over the connection: it is established, and no call fails until
the answer has been read. -/
def Link.world (l : Link) : World where
  socket := some l.fd
  connects := true
  writes := l.plan.map some
  reads _ := l.pieces.map .got ++ l.later
  beyond := l.beyond

/-- The pieces are those of the answer, and the first of them holds its header. -/
structure Link.Carries (l : Link) (r : Response) : Prop where
  pieces_ne : ∀ chunk ∈ l.pieces, chunk.bytes ≠ []
  complete : l.pieces.flatMap Chunk.bytes = r.text
  header : r.header.length ≤ ((l.pieces.head?.map Chunk.bytes).getD []).length

/-- The client and the server. -/
structure Joint {J : Json} (R : Remote J) where
  client : Client
  remote : R.State

def Joint.start {J : Json} (R : Remote J) (input : Bytes) : Joint R := ⟨Client.start input, R.start⟩

/-- A turn of the client over a connection.  If it writes, the server reads what has been
written, and the connection carries the answer. -/
def Joint.Next {J : Json} (R : Remote J) (y : Joint R) (e : Link × Option Exchange)
    (y' : Joint R) : Prop :=
  y.client.next J e.1.world = some y'.client ∧
    match e.2 with
    | none => (y.client.turn J e.1.world).2.calls = [] ∧ y'.remote = y.remote
    | some ex =>
      decode (written e.1.fd (y.client.turn J e.1.world).2.calls) = some ex.request ∧
        R.answer y.remote ex.request = (ex.response, y'.remote) ∧
        e.1.Carries ex.response.toResponse

/-- A turn without the bytes. -/
inductive Joint.Speaks {J : Json} (R : Remote J) : Joint R → Option Exchange → Joint R → Prop
  | idle {c : Client} {t : R.State} (h : c.command = none) (hexit : c.cin.word.1 ≠ ascii "exit") :
      Joint.Speaks R ⟨c, t⟩ none ⟨⟨c.cin.word.2, c.session⟩, t⟩
  | refused {c : Client} {t : R.State} {cmd : Command} (h : c.command = some cmd)
      (hguard : ¬ cmd.Allowed c.session) :
      Joint.Speaks R ⟨c, t⟩ none ⟨⟨c.cin.word.2, c.session⟩, t⟩
  | exchange {c : Client} {t t' : R.State} {cmd : Command} {d : Decoded} {cin : Cin}
      {r : SizedResponse} {s : Session} (h : c.command = some cmd) (hguard : cmd.Allowed c.session)
      (hasks : cmd.asks J c.cin.word.2 c.session = (some d, cin))
      (hanswer : R.answer t d = (r, t'))
      (hlearns : cmd.learns J r.toResponse c.session = some s) :
      Joint.Speaks R ⟨c, t⟩ (some ⟨d, r⟩) ⟨⟨cin, s⟩, t'⟩

/-- The connection carries the answer, if there is one. -/
def Carried (e : Link × Option Exchange) : Prop :=
  ∀ ex, e.2 = some ex → e.1.Carries ex.response.toResponse

section Steps

variable {J : Json} {c : Client} {l : Link} {cmd : Command}

theorem Link.opened (l : Link) : l.world.opened = some l.fd := rfl

theorem Link.descriptor (l : Link) : l.world.descriptor = l.fd := rfl

/-- A connection that carries an answer delivers it. -/
theorem Link.Carries.received {r : SizedResponse} (h : l.Carries r.toResponse) (hr : r.Plain) :
    l.world.received = .ok (cString r.text) := by
  let d : Delivery r.text := ⟨l.pieces, h.pieces_ne, h.complete⟩
  have hreads := hr.readsExactly_of_header l.beyond d h.header l.world l.fd l.later rfl rfl
  rw [World.received, l.descriptor, hreads]
  show Except.ok (cString (r.text ++ [0])) = _
  rw [cString_append_zero]

/-- **All that a command writes** is its request. -/
theorem written_traffic {text : Bytes} (htext : 0 ∉ text) :
    written l.fd (cmd.traffic l.world text) = text := by
  have hnn : ¬ (l.fd : ℤ) < 0 := Int.not_lt.mpr (Int.natCast_nonneg _)
  have hsent : written l.fd (sendRequest l.world text).1 = text := by
    have hopen : openConnection l.world =
        ([.socket (some l.fd), .connect l.fd true], (l.fd : ℤ)) := rfl
    simp only [sendRequest, hopen, if_neg hnn, Nat.not_lt_zero, if_false]
    show written l.fd (sendLoop l.fd 0 (cString (cString text)) (l.plan.map some)).1 = text
    rw [written_sendLoop, cString_cString, cString_of_notMem htext]
  have hclosing : written l.fd (cmd.closing l.world) = [] := by
    unfold Command.closing
    split
    · rfl
    · split_ifs <;> rfl
  rw [Command.traffic, written_append, written_append, hsent, hclosing, List.append_nil]
  show text ++ written l.fd (List.map _ _) = text
  rw [written_reads, List.append_nil]

/-- Nothing is no request. -/
theorem decode_nil : decode [] = none := by
  have hlines : readLines crlf (List.cons_ne_nil _ _) [] = none :=
    readLines_of_cut_eq_none (by decide)
  rw [decode, readMessage, hlines]
  rfl

/-- An unknown word does nothing. -/
theorem Client.turn_of_unknown (h : c.command = none) (hexit : c.cin.word.1 ≠ ascii "exit")
    (w : World) : (c.turn J w).2 = .refused c.cin.word.2 c.session := by
  have hlookup : Command.entries.lookup c.cin.word.1 = none := h
  rw [Client.turn_snd, commandCaller, if_neg hexit, hlookup]
  rfl

/-- `exit` ends the client. -/
theorem Client.next_of_exit (h : c.cin.word.1 = ascii "exit") (w : World) :
    c.next J w = none := by
  have hturn : (c.turn J w).2 = ⟨[], c.cin.word.2, .ok (killClient, c.session)⟩ := by
    rw [Client.turn_snd, commandCaller, if_pos h]
  simp only [Client.next, hturn, if_true]

theorem Client.next_of_refused {w : World}
    (h : (c.turn J w).2 = .refused c.cin.word.2 c.session) :
    c.next J w = some ⟨c.cin.word.2, c.session⟩ := by
  have hresult : (c.turn J w).2.result = .ok (exitFailure, c.session) := by
    rw [h]
    rfl
  rw [Client.next_of_result hresult (by decide), h]
  rfl

/-- A command that cannot be sent ends the client. -/
theorem Client.next_of_throws {w : World} {cin : Cin} (h : c.command = some cmd)
    (hguard : cmd.Allowed c.session)
    (hrequest : cmd.request J c.cin.word.2 c.session = (none, cin)) : c.next J w = none := by
  have hturn := Client.turn_of_command (J := J) (w := w) h
  rw [Command.run_throws hguard hrequest] at hturn
  simp only [Client.next, hturn]

/-- A command that is sent goes on with what is learnt. -/
theorem Client.next_of_sends {text : Bytes} {cin : Cin} {r : SizedResponse} {c' : Client}
    (h : c.command = some cmd) (hguard : cmd.Allowed c.session)
    (hrequest : cmd.request J c.cin.word.2 c.session = (some text, cin)) (hr : r.Polite J)
    (hcarries : l.Carries r.toResponse) :
    c.next J l.world = some c' ↔
      ∃ s, cmd.learns J r.toResponse c.session = some s ∧ c' = ⟨cin, s⟩ := by
  have hturn := Client.turn_of_command (J := J) (w := l.world) h
  rw [Command.run_sends hguard hrequest, hcarries.received hr.plain] at hturn
  have hresult : (c.turn J l.world).2.result = cmd.react J c.session (cString r.text) := by
    rw [hturn]
    rfl
  have hcin : (c.turn J l.world).2.cin = cin := by rw [hturn]
  constructor
  · intro hnext
    obtain ⟨code, hcode⟩ := Client.next_eq_some hnext
    have hreact := hcode
    rw [hresult] at hreact
    have hne := (react_eq_ok_iff.mp hreact).ne_killClient
    rw [Client.next_of_result hcode hne, hcin] at hnext
    exact ⟨c'.session, hr.react_iff.mp ⟨code, hreact⟩, (Option.some.inj hnext).symm⟩
  · rintro ⟨s, hlearns, rfl⟩
    obtain ⟨code, hreact⟩ := hr.react_iff.mpr hlearns
    have hne := (react_eq_ok_iff.mp hreact).ne_killClient
    rw [Client.next_of_result (hresult.trans hreact) hne, hcin]

end Steps

/-! ### One step -/

section Refinement

variable {J : Json} {R : Remote J} {y y' : Joint R} {e : Link × Option Exchange}

theorem Remote.polite_of_answer {t t' : R.State} {d : Decoded} {r : SizedResponse}
    (h : R.answer t d = (r, t')) : r.Polite J := by
  have hpolite := R.polite t d
  rw [h] at hpolite
  exact hpolite

/-- Without calls, a step of the first machine is silent. -/
theorem Joint.next_quiet (h : (y.client.turn J e.1.world).2.calls = []) :
    Joint.Next R y e y' ↔
      y.client.next J e.1.world = some y'.client ∧ e.2 = none ∧ y'.remote = y.remote := by
  obtain ⟨l, ex⟩ := e
  refine and_congr_right fun _ => ?_
  cases ex with
  | none =>
    show _ ∧ _ ↔ _ ∧ _
    rw [h]
    exact ⟨fun h' => ⟨rfl, h'.2⟩, fun h' => ⟨rfl, h'.2⟩⟩
  | some ex =>
    refine iff_of_false (fun h' => ?_) fun h' => nomatch h'.1
    have hdecode := h'.1
    rw [h, written_nil, decode_nil] at hdecode
    cases hdecode

/-- A silent step that only takes a word. -/
theorem Joint.next_of_refused
    (h : (y.client.turn J e.1.world).2 = .refused y.client.cin.word.2 y.client.session) :
    Joint.Next R y e y' ↔
      y' = ⟨⟨y.client.cin.word.2, y.client.session⟩, y.remote⟩ ∧ e.2 = none := by
  have hcalls : (y.client.turn J e.1.world).2.calls = [] := by
    rw [h]
    rfl
  rw [Joint.next_quiet hcalls, Client.next_of_refused h]
  obtain ⟨c', t'⟩ := y'
  simp only [Option.some.injEq, Joint.mk.injEq]
  constructor
  · rintro ⟨hc, he, ht⟩
    exact ⟨⟨hc.symm, ht⟩, he⟩
  · rintro ⟨⟨hc, ht⟩, he⟩
    exact ⟨hc.symm, he, ht⟩

/-- A turn of a command that its guard lets through: what is written is what the command asks
for, and what is read is the answer. -/
theorem Joint.next_iff_of_allowed (hJ : J.DumpsText) {c : Client} {t : R.State} {cmd : Command}
    (hs : c.session.Tidy) (hcommand : c.command = some cmd) (hguard : cmd.Allowed c.session) :
    Joint.Next R ⟨c, t⟩ e y' ↔ ∃ d cin s ex, e.2 = some ex ∧ ex.request = d ∧
      cmd.asks J c.cin.word.2 c.session = (some d, cin) ∧
      R.answer t d = (ex.response, y'.remote) ∧ e.1.Carries ex.response.toResponse ∧
      cmd.learns J ex.response.toResponse c.session = some s ∧ y'.client = ⟨cin, s⟩ := by
  obtain ⟨l, ex⟩ := e
  obtain ⟨hcin, hrel⟩ := Command.request_asks hJ hs c.cin.word.2 cmd
  rcases hasks : cmd.asks J c.cin.word.2 c.session with ⟨d, cin⟩
  rcases hrequest : cmd.request J c.cin.word.2 c.session with ⟨text, cin'⟩
  rw [hasks, hrequest] at hrel hcin
  obtain rfl : cin' = cin := hcin
  cases hrel with
  | none =>
    refine iff_of_false (fun h => ?_) ?_
    · have hnext := h.1
      rw [Client.next_of_throws hcommand hguard hrequest] at hnext
      cases hnext
    · rintro ⟨d, cin, s, ex, -, -, hd, -⟩
      cases hd
  | @some text d hread =>
    -- what is written is the request, whatever is read afterwards
    have hwritten : decode (written l.fd (c.turn J l.world).2.calls) = some d := by
      rw [Client.turn_of_command hcommand, Command.run_sends hguard hrequest]
      show decode (written l.fd (cmd.traffic l.world text)) = _
      rw [written_traffic hread.1, hread.2]
    cases ex with
    | none =>
      refine iff_of_false (fun h => ?_) fun ⟨_, _, _, _, hex, _⟩ => nomatch hex
      have hcalls : (c.turn J l.world).2.calls = [] := h.2.1
      rw [hcalls, written_nil, decode_nil] at hwritten
      cases hwritten
    | some ex =>
      constructor
      · rintro ⟨hnext, hdecode, hanswer, hcarries⟩
        obtain rfl : ex.request = d := Option.some.inj (hdecode.symm.trans hwritten)
        have hpolite := Remote.polite_of_answer hanswer
        obtain ⟨s, hlearns, hc⟩ :=
          (Client.next_of_sends hcommand hguard hrequest hpolite hcarries).mp hnext
        exact ⟨_, _, s, ex, rfl, rfl, rfl, hanswer, hcarries, hlearns, hc⟩
      · rintro ⟨d', cin, s, ex', hex, rfl, hd, hanswer, hcarries, hlearns, hc⟩
        obtain rfl := Option.some.inj hex
        obtain ⟨hrequested, rfl⟩ := Prod.mk.inj hd
        have hpolite := Remote.polite_of_answer hanswer
        refine ⟨?_, ?_, hanswer, hcarries⟩
        · exact (Client.next_of_sends hcommand hguard hrequest hpolite hcarries).mpr
            ⟨s, hlearns, hc⟩
        · rw [hwritten, hrequested]

/-- **One turn** over a connection is one turn without the bytes, over a connection that
carries the answer. -/
theorem Joint.next_iff (hJ : J.DumpsText) (hy : y.client.session.Tidy) :
    Joint.Next R y e y' ↔ Joint.Speaks R y e.2 y' ∧ Carried e := by
  obtain ⟨c, t⟩ := y
  obtain ⟨l, ex⟩ := e
  have hsilent : Carried (l, none) := fun ex hex => nomatch hex
  cases hcommand : c.command with
  | none =>
    by_cases hexit : c.cin.word.1 = ascii "exit"
    · refine iff_of_false (fun h => ?_) fun h => ?_
      · have hnext := h.1
        rw [Client.next_of_exit hexit] at hnext
        cases hnext
      · cases h.1 with
        | idle _ hne => exact hne hexit
        | refused h' | exchange h' =>
          rw [hcommand] at h'
          cases h'
    · rw [Joint.next_of_refused (Client.turn_of_unknown hcommand hexit l.world)]
      constructor
      · rintro ⟨rfl, rfl⟩
        exact ⟨.idle hcommand hexit, hsilent⟩
      · rintro ⟨h, -⟩
        cases h with
        | idle => exact ⟨rfl, rfl⟩
        | refused h' | exchange h' =>
          rw [hcommand] at h'
          cases h'
  | some cmd =>
    have hsame {cmd' : Command} (h' : c.command = some cmd') : cmd' = cmd :=
      Option.some.inj (h'.symm.trans hcommand)
    by_cases hguard : cmd.Allowed c.session
    swap
    · have hturn := Client.turn_of_command (J := J) (w := l.world) hcommand
      rw [Command.run_refused hguard] at hturn
      rw [Joint.next_of_refused hturn]
      constructor
      · rintro ⟨rfl, rfl⟩
        exact ⟨.refused hcommand hguard, hsilent⟩
      · rintro ⟨h, -⟩
        cases h with
        | idle h' =>
          rw [hcommand] at h'
          cases h'
        | refused => exact ⟨rfl, rfl⟩
        | exchange h' hguard' =>
          rw [hsame h'] at hguard'
          exact absurd hguard' hguard
    rw [Joint.next_iff_of_allowed hJ hy hcommand hguard]
    constructor
    · rintro ⟨d, cin, s, ⟨d', r⟩, rfl, rfl, hasks, hanswer, hcarries, hlearns, hc⟩
      obtain ⟨c', t'⟩ := y'
      obtain rfl : c' = ⟨cin, s⟩ := hc
      refine ⟨.exchange hcommand hguard hasks hanswer hlearns, ?_⟩
      rintro ex hex
      rw [← Option.some.inj hex]
      exact hcarries
    · rintro ⟨h, hcarried⟩
      generalize hlabel : (l, ex).2 = label at h
      cases h with
      | idle h' =>
        rw [hcommand] at h'
        cases h'
      | refused h' hguard' =>
        rw [hsame h'] at hguard'
        exact absurd hguard hguard'
      | exchange h' _ hasks hanswer hlearns =>
        obtain rfl := hsame h'
        exact ⟨_, _, _, _, rfl, rfl, hasks, hanswer, hcarried _ hlabel, hlearns, rfl⟩

/-- What the session stores can stand in a line after every turn. -/
theorem Joint.Speaks.tidy {ex : Option Exchange} (hs : y.client.session.Tidy)
    (h : Joint.Speaks R y ex y') : y'.client.session.Tidy := by
  cases h with
  | idle => exact hs
  | refused => exact hs
  | exchange _ _ _ hanswer hlearns => exact (Remote.polite_of_answer hanswer).tidy hs hlearns

theorem Joint.tidy_start (R : Remote J) (input : Bytes) :
    (Joint.start R input).client.session.Tidy := ⟨nofun, List.not_mem_nil, nofun⟩

/-- **The client and the server converse.**  Whatever is typed, in whatever portions the
requests go out and the answers come in, the runs over connections on which nothing fails are
the runs without the bytes whose answers the connections carry. -/
theorem dialogue_iff (hJ : J.DumpsText) (R : Remote J) (input : Bytes)
    (es : List (Link × Option Exchange)) (y : Joint R) :
    Run (Joint.Next R) (Joint.start R input) es y ↔
      Run (Joint.Speaks R) (Joint.start R input) (es.map Prod.snd) y ∧ ∀ e ∈ es, Carried e := by
  have hstep (y : Joint R) (e : Link × Option Exchange) (y' : Joint R)
      (hy : y.client.session.Tidy) :
      Joint.Next R y e y' ↔ Joint.Speaks R y e.2 y' ∧ Carried e := Joint.next_iff hJ hy
  have hinv (y : Joint R) (ex : Option Exchange) (y' : Joint R) (hy : y.client.session.Tidy)
      (h : Joint.Speaks R y ex y') : y'.client.session.Tidy := h.tidy hy
  exact Run.map_iff (fun y => y.client.session.Tidy) hinv hstep (Joint.tidy_start R input)

end Refinement

/-! ### A login -/

/-- A NUL as `dump` writes it. -/
def escapeNul (text : Bytes) : Bytes :=
  text.flatMap fun c => if c = 0 then ascii "\\u0000" else [c]

/-- The library, with `dump` escaping the NUL. -/
def Json.escaping (J : Json) : Json := { J with dump := fun form => (J.dump form).map escapeNul }

theorem Json.escaping_dumpsText (J : Json) : J.escaping.DumpsText := by
  intro form text hdump hmem
  obtain ⟨text', -, rfl⟩ := Option.map_eq_some_iff.mp hdump
  obtain ⟨c, -, hc⟩ := List.mem_flatMap.mp hmem
  split_ifs at hc with hzero
  · exact absurd hc (by decide)
  · exact hzero (List.mem_singleton.mp hc).symm

theorem loginFields_eq : [lengthTwo, pathCookie] = [] ++ lengthTwo :: [pathCookie] := rfl

theorem loginFields_only : ∀ f ∈ [] ++ [pathCookie], ¬ f.IsContentLength := by
  show ∀ f ∈ [pathCookie], ¬ f.name.map toLower = ascii "content-length"
  decide +kernel

/-- `HTTP/1.1 200 OK`, with a cookie and a body of two bytes. -/
def loginResponse : SizedResponse where
  version := http11
  status := okResponse.status
  reason := ascii "OK"
  fields := [lengthTwo, pathCookie]
  body := ascii "hi"
  version_clean := http11_clean
  reason_clean := ok_clean
  before := []
  lengthField := lengthTwo
  after := [pathCookie]
  fields_eq := loginFields_eq
  named := okResponse.named
  only := loginFields_only
  announces := okResponse.announces
  body_clean := okResponse.body_clean

theorem loginResponse_plain : loginResponse.Plain where
  spelled := ⟨[50], rfl⟩
  first := (Search.first?_eq_some_iff (by decide)).mp (by decide +kernel)
  fits := by decide +kernel

/-- The server that answers everything with this. -/
def loginServer : Remote (Json.ofTable []).escaping where
  State := Unit
  start := ()
  answer _ _ := (loginResponse, ())
  polite _ _ :=
    { plain := loginResponse_plain
      marked := by
        have hline : markedLine loginResponse.lines = some (ascii "Set-Cookie: sid=1; Path=/") := by
          decide +kernel
        intro start hstart
        rw [hline] at hstart
        rw [← Option.some.inj hstart]
        decide +kernel
      unmarked := by decide +kernel
      token := fun json token hjson => nomatch hjson }

/-- Small writes, and the answer in two pieces. -/
def loginLink : Link where
  fd := 3
  plan := [1, 5]
  pieces := [⟨loginResponse.header ++ ascii "h", by decide +kernel⟩, ⟨ascii "i", by decide⟩]
  later := []
  beyond := []

theorem loginLink_carries : loginLink.Carries loginResponse.toResponse where
  pieces_ne := by decide +kernel
  complete := by decide +kernel
  header := by decide +kernel

/-- What is typed, what the server is asked first, and the state then. -/
def loginInput : Bytes := ascii "login user word enter_library"

def loginRequest : Decoded :=
  asked .post (authUrl login) [] none
    (ascii "\x7b\"username\":\"user\",\"password\":\"word\"\x7d")

def afterLogin : Joint loginServer :=
  ⟨⟨⟨ascii " enter_library", false⟩, ⟨ascii "sid=1", [], true⟩⟩, ()⟩

theorem loginServer_speaks : Joint.Speaks loginServer (Joint.start loginServer loginInput)
    (some ⟨loginRequest, loginResponse⟩) afterLogin := by
  have hcommand : (Client.start loginInput).command = some .login := by decide +kernel
  have hasks : Command.login.asks (Json.ofTable []).escaping (Client.start loginInput).cin.word.2
      (Client.start loginInput).session = (some loginRequest, afterLogin.client.cin) := by
    decide +kernel
  exact .exchange hcommand nofun hasks rfl (by decide +kernel)

theorem loginLink_carried (d : Decoded) : Carried (loginLink, some ⟨d, loginResponse⟩) := by
  intro ex hex
  rw [← Option.some.inj hex]
  exact loginLink_carries

theorem dialogue_iff_login :
    Run (Joint.Next loginServer) (Joint.start loginServer loginInput)
      [(loginLink, some ⟨loginRequest, loginResponse⟩)] afterLogin :=
  (dialogue_iff (Json.ofTable []).escaping_dumpsText loginServer loginInput _ _).mpr
    ⟨.cons loginServer_speaks (.nil _), List.forall_mem_singleton.mpr (loginLink_carried _)⟩

end TemePCom.Http
