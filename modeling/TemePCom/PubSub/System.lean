/-
TemePCom/PubSub/System.lean

The server and its subscribers (server.cpp, subscriber.cpp), each in its own loop, and
the connections between them.

A connection keeps what is on its way in both directions, in order: towards the server
the frames that the subscriber has handed to `proto_send`, its id first; towards the
subscriber what the server has handed to `proto_send` for the descriptor.  A pass of the
subscriber's loop looks at its standard input and then at its socket; each of the two is a
move of its own, and the moves of all the parties interleave in any order.

A run goes on as long as no call on a connection fails.  One may on that of a subscriber that
has left: a `send` of the server (`System.left`), which ends it, or a `recv` once the
connection has been reset.  What has been transmitted before such a `send` is `untilFailure`,
and `System.Safe` says that none of a move's can fail.

A subscriber keeps count of what it has asked and of what it has been told; the count only
watches.
-/
import TemePCom.PubSub.Registry
import TemePCom.PubSub.CommandLines

namespace TemePCom.PubSub

open Runs

/-! ### Subscribers -/

/-- The code `get_srv_opcode` finds for an answer. -/
def Opcode.code : Opcode → ℤ
  | .exit => exitCode
  | .noTopic => PubSub.noTopic
  | .subscribed => subscribedCode
  | .unsubscribed => unsubscribedCode
  | .alreadySub => PubSub.alreadySub

/-- The bytes that are handed to `proto_send`. -/
def Content.frame (padding : Padding) : Content → Bytes
  | .opcode code => ascii code.text.toList
  | .msg m => m.memory padding

/-- The code of an answer; none for a message. -/
def Content.code : Content → Option ℤ
  | .opcode code => some code.code
  | .msg _ => none

/-- What the subscriber's loop takes a frame for: `-1` if it is no answer. -/
def answerCode (frame beyond : Bytes) : ℤ :=
  if frame.length < sizeofCliMsg then
    getSrvOpcode (cString (frame ++ List.replicate (buffLen - frame.length) 0 ++ beyond))
  else -1

/-- A subscriber and its connection: what is on its way to and from the server, what the
subscriber has asked for, and the answers it has been given. -/
structure Peer where
  running : Bool
  accepted : Bool
  up : List Bytes
  down : List Content
  asked : List FromTcp
  told : List ℤ
  deriving DecidableEq

/-- The subscriber after `connect`, and `proto_send` of its id. -/
def Peer.launched (id : Bytes) : Peer := ⟨true, false, [id], [], [], []⟩

/-- `recv_from_stdin` in the subscriber's loop. -/
def Peer.types (p : Peer) (input beyond : Bytes) : Option Peer :=
  if p.running then
    match recvFromStdin input beyond with
    | .error _ => none
    | .ok (true, _) => some { p with running := false }
    | .ok (false, sent) => some { p with
        up := p.up ++ sent.map FromTcp.bytes
        asked := p.asked ++ sent }
  else none

/-- The branch of the subscriber's loop for its socket. -/
def Peer.hears (p : Peer) (padding : Padding) (beyond : Bytes) : Option Peer :=
  match p.running, p.down with
  | true, c :: rest =>
    let code := answerCode (c.frame padding) beyond
    let p := { p with down := rest }
    -- a message is printed
    if code = -1 then some p
    else if opcodeReceived code = .exit then some { p with running := false }
    else some { p with told := p.told ++ [code] }
  | _, _ => none

/-- The answers on their way to the subscriber. -/
def Peer.codes (p : Peer) : List ℤ := p.down.filterMap Content.code

/-! ### The system -/

/-- The server, the subscribers by number, and who is at the other end of a descriptor. -/
structure System where
  srv : Server
  peer : ℕ → Option Peer
  line : ℕ → Option ℕ

def System.start (k : Sockets) : System := ⟨Server.start k, fun _ => none, fun _ => none⟩

/-- A move of one of the parties. -/
inductive Move
  | launch (n : ℕ) (id : Bytes)
  | types (n : ℕ) (input beyond : Bytes)
  | hears (n : ℕ) (padding : Padding) (beyond : Bytes)
  | select (ready : Finset ℕ)
  | skip
  | datagram (msg : FromUdp) (ip : UInt32) (port : UInt16) (beyond : Bytes)
  | accept (n newFd : ℕ) (beyond : Bytes)
  | serve (beyond : Bytes)

/-- What is transmitted to one subscriber. -/
def contentsFor (line : ℕ → Option ℕ) (n : ℕ) (sent : List Transmission) : List Content :=
  sent.filterMap fun t => if line t.fd = some n then some t.content else none

/-- The subscriber is accepted, and its id is read. -/
def Peer.accept (p : Peer) (rest : List Bytes) : Peer := { p with
  accepted := true
  up := rest }

def Peer.receives (p : Peer) (contents : List Content) : Peer :=
  { p with down := p.down ++ contents }

/-- The subscriber `n` has become `p`. -/
def System.put (y : System) (n : ℕ) (p : Peer) : System :=
  { y with peer := Function.update y.peer n (some p) }

/-- The descriptor is the subscriber's connection. -/
def System.connect (y : System) (n newFd : ℕ) : System :=
  { y with line := Function.update y.line newFd (some n) }

/-- What the server transmits is on its way. -/
def System.after (y : System) (srv : Server) (sent : List Transmission) : System := { y with
  srv := srv
  peer := fun n => (y.peer n).map (·.receives (contentsFor y.line n sent)) }

/-- A visit of the server. -/
def System.visit (k : Sockets) (y : System) (e : Event) : Option System :=
  (y.srv.visit k e).map fun r => y.after r.1 r.2

/-- One move, in which no call fails. -/
def System.move (k : Sockets) (y : System) : Move → Option System
  | .launch n id =>
    match y.peer n with
    | none => some (y.put n (Peer.launched id))
    | some _ => none
  | .types n input beyond => do
    let p ← y.peer n
    let p' ← p.types input beyond
    return y.put n p'
  | .hears n padding beyond => do
    let p ← y.peer n
    let p' ← p.hears padding beyond
    return y.put n p'
  | .select ready => y.visit k (.select ready)
  | .skip => y.visit k .skip
  | .datagram msg ip port beyond => y.visit k (.datagram msg ip port beyond)
  -- a subscriber that waits to be accepted, and its id
  | .accept n newFd beyond => do
    let p ← y.peer n
    match p.accepted, p.up with
    | false, frame :: rest =>
      ((y.put n (p.accept rest)).connect n newFd).visit k (.accept newFd frame beyond)
    | _, _ => none
  -- the next request of the subscriber at the descriptor, or the end of its connection
  | .serve beyond => do
    let n ← y.line y.srv.i
    let p ← y.peer n
    match p.up with
    | frame :: rest => (y.put n { p with up := rest }).visit k (.request frame beyond)
    | [] => if p.running then none else y.visit k (.request [] beyond)

def System.Next (k : Sockets) (y : System) (mv : Move) (y' : System) : Prop :=
  y.move k mv = some y'

/-- Run the system on a list of moves. -/
def System.exec (k : Sockets) : System → List Move → Option System := Runs.exec (·.move k)

theorem System.run_of_exec {k : Sockets} {y y' : System} {mvs : List Move}
    (h : y.exec k mvs = some y') : Run (System.Next k) y mvs y' :=
  Runs.run_of_exec (fun _ _ _ hmove => hmove) h

/-! ### Sends that fail -/

/-- The event that a move is for the server, if it is one. -/
def System.event (y : System) : Move → Option Event
  | .launch _ _ => none
  | .types _ _ _ => none
  | .hears _ _ _ => none
  | .select ready => some (.select ready)
  | .skip => some .skip
  | .datagram msg ip port beyond => some (.datagram msg ip port beyond)
  | .accept n newFd beyond => (y.peer n).map fun p => .accept newFd (p.up.headD []) beyond
  | .serve beyond =>
    ((y.line y.srv.i).bind y.peer).map fun p => .request (p.up.headD []) beyond

/-- What the server transmits in a move, one `proto_send` after the other. -/
def System.sends (k : Sockets) (y : System) (mv : Move) : List Transmission :=
  (((y.event mv).bind (y.srv.visit k)).map Prod.snd).getD []

/-- The subscriber on the descriptor has left its loop and closed its end. -/
def System.left (y : System) (fd : ℕ) : Prop :=
  ∃ n p, y.line fd = some n ∧ y.peer n = some p ∧ p.running = false

/-- No `send` of the move can fail. -/
def System.Safe (k : Sockets) (y : System) (mv : Move) : Prop :=
  ∀ t ∈ y.sends k mv, ¬ y.left t.fd

/-- What is transmitted before the first `send` that fails. -/
def untilFailure (fails : ℕ → Bool) (sent : List Transmission) : List Transmission :=
  sent.takeWhile fun t => !fails t.fd

theorem System.sends_eq {k : Sockets} {y : System} {mv : Move} {e : Event} {s' : Server}
    {sent : List Transmission} (he : y.event mv = some e)
    (hv : y.srv.visit k e = some (s', sent)) : y.sends k mv = sent := by
  rw [System.sends, he, Option.bind_some, hv]
  rfl

/-! ### What a subscriber may conclude -/

/-- The topic of a request, as the subscriber has put it there. -/
def FromTcp.key (m : FromTcp) : Bytes := cString m.topic.toList

/-- Whether an answer says that one is subscribed. -/
def saysSubscribed (code : ℤ) : Bool := code = subscribedCode ∨ code = alreadySub

/-- What the last answer about a topic says. -/
def verdict (log : List (FromTcp × ℤ)) (T : Bytes) : Option Bool :=
  (log.reverse.find? fun q => q.1.key = T).map fun q => saysSubscribed q.2

/-- Requests and answers, paired in order. -/
def Peer.log (p : Peer) : List (FromTcp × ℤ) := p.asked.zip (p.told ++ p.codes)

theorem verdict_append {log : List (FromTcp × ℤ)} {m : FromTcp} {code : ℤ} {T : Bytes} :
    verdict (log ++ [(m, code)]) T =
      if m.key = T then some (saysSubscribed code) else verdict log T := by
  rw [verdict, List.reverse_append, List.reverse_singleton, List.singleton_append,
    List.find?_cons]
  split_ifs with h
  · simp [h]
  · simp [h, verdict]

/-! ### Answers on their way -/

theorem length_text (code : Opcode) : (ascii code.text.toList).length < sizeofCliMsg := by
  cases code <;> decide

theorem nul_notMem_text (code : Opcode) : 0 ∉ ascii code.text.toList := by
  cases code <;> decide

theorem getSrvOpcode_text (code : Opcode) : getSrvOpcode (ascii code.text.toList) = code.code := by
  cases code <;> decide

/-- A text in a cleared buffer is read back. -/
theorem cString_buffer {text : Bytes} (h : 0 ∉ text) (hlt : text.length < buffLen)
    (beyond : Bytes) :
    cString (text ++ List.replicate (buffLen - text.length) 0 ++ beyond) = text := by
  obtain ⟨d, hd⟩ := Nat.exists_eq_add_of_lt hlt
  have hzeros : buffLen - text.length = d + 1 := by omega
  rw [hzeros, List.replicate_succ, List.append_assoc, cString_append h]
  exact List.append_nil text

/-- An answer is recognised, whatever lies behind the buffer. -/
theorem answerCode_opcode (code : Opcode) (padding : Padding) (beyond : Bytes) :
    answerCode ((Content.opcode code).frame padding) beyond = code.code := by
  have hlen := length_text code
  have hbuff : sizeofCliMsg < buffLen := by decide
  rw [answerCode, Content.frame, if_pos hlen,
    cString_buffer (nul_notMem_text code) (hlen.trans hbuff), getSrvOpcode_text]

theorem answerCode_msg (m : CliMsg) (padding : Padding) (beyond : Bytes) :
    answerCode ((Content.msg m).frame padding) beyond = -1 := by
  rw [answerCode, Content.frame, CliMsg.length_memory]
  exact if_neg (lt_irrefl _)

theorem exists_of_hears {p p' : Peer} {padding : Padding} {beyond : Bytes}
    (h : p.hears padding beyond = some p') :
    p.running = true ∧ ∃ c rest, p.down = c :: rest := by
  unfold Peer.hears at h
  split at h
  · rename_i c rest hrun hdown
    exact ⟨hrun, c, rest, hdown⟩
  · cases h

/-- A message is printed, and nothing else changes. -/
theorem hears_msg {p : Peer} {m : CliMsg} {rest : List Content} (hrun : p.running = true)
    (hdown : p.down = .msg m :: rest) (padding : Padding) (beyond : Bytes) :
    p.hears padding beyond = some { p with down := rest } := by
  simp only [Peer.hears, hrun, hdown, answerCode_msg, if_true]

/-- An `EXIT` ends the loop, the other answers are taken note of. -/
theorem hears_opcode {p : Peer} {code : Opcode} {rest : List Content} (hrun : p.running = true)
    (hdown : p.down = .opcode code :: rest) (padding : Padding) (beyond : Bytes) :
    p.hears padding beyond = some (if code = .exit then
      { p with
        running := false
        down := rest }
      else { p with
        down := rest
        told := p.told ++ [code.code] }) := by
  have hcode : code.code ≠ -1 ∧ (opcodeReceived code.code = .exit ↔ code = .exit) := by
    cases code <;> decide
  simp only [Peer.hears, hrun, hdown, answerCode_opcode, if_neg hcode.1, hcode.2]
  split_ifs <;> rfl

theorem receives_nil (p : Peer) : p.receives [] = p := by
  rw [Peer.receives, List.append_nil]

theorem codes_receives (p : Peer) (contents : List Content) :
    (p.receives contents).codes = p.codes ++ contents.filterMap Content.code :=
  List.filterMap_append

theorem contentsFor_eq (line : ℕ → Option ℕ) (n : ℕ) (sent : List Transmission) :
    contentsFor line n sent =
      (sent.filter fun t => line t.fd = some n).map Transmission.content := by
  induction sent with
  | nil => rfl
  | cons t sent ih =>
    by_cases hline : line t.fd = some n
    · simp [contentsFor, hline, ← ih]
    · simp [contentsFor, hline, ← ih]

/-- Of the transmissions, those for a subscriber that is on the descriptor of one. -/
theorem contentsFor_eq_singleton {line : ℕ → Option ℕ} {n : ℕ} {t : Transmission}
    (hnodup : sent.Nodup) (ht : t ∈ sent) (hline : line t.fd = some n)
    (huniq : ∀ t' ∈ sent, line t'.fd = some n → t' = t) :
    contentsFor line n sent = [t.content] := by
  have hfilter : sent.filter (fun t' => line t'.fd = some n) = [t] := by
    have hcongr : sent.filter (fun t' => line t'.fd = some n) = sent.filter (· = t) :=
      List.filter_congr fun t' ht' => decide_eq_decide.mpr
        ⟨huniq t' ht', fun heq => heq ▸ hline⟩
    rw [hcongr, List.filter_eq, List.count_eq_one_of_mem hnodup ht]
    rfl
  rw [contentsFor_eq, hfilter]
  rfl

/-- Nothing is transmitted to a subscriber on none of the descriptors. -/
theorem contentsFor_eq_nil {line : ℕ → Option ℕ} {n : ℕ} {sent : List Transmission}
    (h : ∀ t ∈ sent, line t.fd ≠ some n) : contentsFor line n sent = [] :=
  List.filterMap_eq_nil_iff.mpr fun t ht => if_neg (h t ht)

/-- The answers for a subscriber are those on its descriptors. -/
theorem codes_contentsFor (line : ℕ → Option ℕ) (n : ℕ) (sent : List Transmission) :
    (contentsFor line n sent).filterMap Content.code =
      ((answersOf sent).filter fun a => line a.1 = some n).map fun a => a.2.code := by
  induction sent with
  | nil => rfl
  | cons t sent ih =>
    obtain ⟨fd, content⟩ := t
    have hcons : answersOf (⟨fd, content⟩ :: sent) = answersOf [⟨fd, content⟩] ++ answersOf sent :=
      List.filterMap_append (l := [_])
    have hcons' : contentsFor line n (⟨fd, content⟩ :: sent) =
        contentsFor line n [⟨fd, content⟩] ++ contentsFor line n sent :=
      List.filterMap_append (l := [_])
    rw [hcons, hcons', List.filterMap_append, List.filter_append, List.map_append, ih]
    congr 1
    by_cases hline : line fd = some n
    · cases content <;> simp [contentsFor, answersOf, hline, Content.code]
    · cases content <;> simp [contentsFor, answersOf, hline]

end TemePCom.PubSub
