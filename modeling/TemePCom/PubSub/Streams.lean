/-
TemePCom/PubSub/Streams.lean

The server and its subscribers over byte streams.

In `System` a message is handed over in one move.  Here the connections are pipes of bytes,
every `send` and every `recv` is a move of its own, of as many bytes as it happens to move,
and all of them interleave with the moves of all parties.  A party looks at a message when
its `proto_recv` has returned it.  Calls may come in any order; in the program a party waits
for its own calls, so its runs are some of these.

`streams_refine`: what the parties do is what they do in a run of `System`, with the server
and the subscribers in the same states, and the oldest message on a pipe can always be read
to its end, if the buffer of the server can hold it.
-/
import TemePCom.PubSub.Agreement
import TemePCom.PubSub.Pipe

namespace TemePCom.PubSub

open Runs

/-! ### Parties over pipes -/

/-- A subscriber and its connection. -/
structure StreamPeer where
  running : Bool
  accepted : Bool
  up : Pipe
  down : Pipe
  asked : List FromTcp
  told : List ℤ
  deriving DecidableEq

/-- The subscriber after `connect`, with `proto_send` of its id begun. -/
def StreamPeer.launched (id : Bytes) : StreamPeer :=
  ⟨true, false, Pipe.empty.put [id], Pipe.empty, [], []⟩

/-- `recv_from_stdin` in the subscriber's loop. -/
def StreamPeer.types (p : StreamPeer) (input beyond : Bytes) : Option StreamPeer :=
  if p.running then
    match recvFromStdin input beyond with
    | .error _ => none
    | .ok (true, _) => some { p with running := false }
    | .ok (false, sent) => some { p with
        up := p.up.put (sent.map FromTcp.bytes)
        asked := p.asked ++ sent }
  else none

/-- The branch of the subscriber's loop for its socket, behind `proto_recv`. -/
def StreamPeer.hears (p : StreamPeer) (beyond : Bytes) : Option StreamPeer :=
  match p.running, p.down.take with
  | true, some (frame, rest) =>
    let code := answerCode frame beyond
    let p := { p with down := rest }
    -- a message is printed
    if code = -1 then some p
    else if opcodeReceived code = .exit then some { p with running := false }
    else some { p with told := p.told ++ [code] }
  | _, _ => none

/-- The server, the subscribers by number, and who is at the other end of a descriptor. -/
structure StreamSystem where
  srv : Server
  peer : ℕ → Option StreamPeer
  line : ℕ → Option ℕ

def StreamSystem.start (k : Sockets) : StreamSystem :=
  ⟨Server.start k, fun _ => none, fun _ => none⟩

/-- A call on one of the two pipes of a connection, or a move of a party.  A visit of the server
comes with the padding of the messages that it sends. -/
inductive StreamMove
  | up (n : ℕ) (c : Call)
  | down (n : ℕ) (c : Call)
  | move (mv : Move) (paddings : ℕ → Padding)

/-- What is handed to `proto_send`, one content after the other. -/
def frames (paddings : ℕ → Padding) (contents : List Content) : List Bytes :=
  contents.mapIdx fun i c => c.frame (paddings i)

/-- The subscriber is accepted, and its id is read. -/
def StreamPeer.accept (p : StreamPeer) (rest : Pipe) : StreamPeer := { p with
  accepted := true
  up := rest }

def StreamPeer.receives (p : StreamPeer) (messages : List Bytes) : StreamPeer :=
  { p with down := p.down.put messages }

/-- The subscriber `n` has become `p`. -/
def StreamSystem.put (w : StreamSystem) (n : ℕ) (p : StreamPeer) : StreamSystem :=
  { w with peer := Function.update w.peer n (some p) }

/-- The descriptor is the subscriber's connection. -/
def StreamSystem.connect (w : StreamSystem) (n newFd : ℕ) : StreamSystem :=
  { w with line := Function.update w.line newFd (some n) }

/-- The server begins to send. -/
def StreamSystem.after (w : StreamSystem) (srv : Server) (sent : List Transmission)
    (paddings : ℕ → Padding) : StreamSystem := { w with
  srv := srv
  peer := fun n =>
    (w.peer n).map (·.receives (frames paddings (contentsFor w.line n sent))) }

/-- A visit of the server. -/
def StreamSystem.visit (k : Sockets) (w : StreamSystem) (e : Event) (paddings : ℕ → Padding) :
    Option StreamSystem :=
  (w.srv.visit k e).map fun r => w.after r.1 r.2 paddings

/-- A move of a party. -/
def StreamSystem.act (k : Sockets) (w : StreamSystem) (paddings : ℕ → Padding) :
    Move → Option StreamSystem
  | .launch n id =>
    match w.peer n with
    | none => if id.length < 256 ^ 8 then some (w.put n (StreamPeer.launched id)) else none
    | some _ => none
  | .types n input beyond => do
    let p ← w.peer n
    let p' ← p.types input beyond
    return w.put n p'
  | .hears n _ beyond => do
    let p ← w.peer n
    let p' ← p.hears beyond
    return w.put n p'
  | .select ready => w.visit k (.select ready) paddings
  | .skip => w.visit k .skip paddings
  | .datagram msg ip port beyond => w.visit k (.datagram msg ip port beyond) paddings
  -- a subscriber that waits to be accepted, and its id
  | .accept n newFd beyond => do
    let p ← w.peer n
    match p.accepted, p.up.take with
    | false, some (frame, rest) =>
      ((w.put n (p.accept rest)).connect n newFd).visit k (.accept newFd frame beyond) paddings
    | _, _ => none
  -- the next request of the subscriber at the descriptor, or the end of its connection
  | .serve beyond => do
    let n ← w.line w.srv.i
    let p ← w.peer n
    match p.up.take with
    | some (frame, rest) =>
      (w.put n { p with up := rest }).visit k (.request frame beyond) paddings
    | none =>
      if p.running ∨ p.up.bytes ≠ [] then none else w.visit k (.request [] beyond) paddings

/-- One move. -/
def StreamSystem.move (k : Sockets) (w : StreamSystem) : StreamMove → Option StreamSystem
  | .up n c => do
    let p ← w.peer n
    let up ← p.up.call c
    return w.put n { p with up := up }
  | .down n c => do
    let p ← w.peer n
    let down ← p.down.call c
    return w.put n { p with down := down }
  | .move mv paddings => w.act k paddings mv

def StreamSystem.Next (k : Sockets) (w : StreamSystem) (mv : StreamMove) (w' : StreamSystem) :
    Prop :=
  w.move k mv = some w'

/-- A move, but for the padding of a message that is heard: over streams it comes with the
message. -/
def Move.unpadded : Move → Move
  | .hears n _ beyond => .hears n ⟨0, 0, 0⟩ beyond
  | mv => mv

/-- Calls do not show. -/
def StreamMove.shown : StreamMove → Option Move
  | .up _ _ | .down _ _ => none
  | .move mv _ => some mv.unpadded

/-! ### What the pipes carry -/

/-- The frame is one of the content. -/
def Written (frame : Bytes) (c : Content) : Prop := ∃ padding, frame = c.frame padding

/-- A subscriber over pipes, and the same with messages. -/
structure StreamPeer.Carries (p : StreamPeer) (q : Peer) : Prop where
  running : p.running = q.running
  accepted : p.accepted = q.accepted
  asked : p.asked = q.asked
  told : p.told = q.told
  up : p.up.Carries q.up
  down : ∃ messages, p.down.Carries messages ∧ List.Forall₂ Written messages q.down

/-- The system over byte streams, and the same with messages. -/
structure StreamSystem.Refines (w : StreamSystem) (y : System) : Prop where
  srv : w.srv = y.srv
  line : w.line = y.line
  peer : ∀ n, Option.Rel StreamPeer.Carries (w.peer n) (y.peer n)

theorem written_frames (paddings : ℕ → Padding) (contents : List Content) :
    List.Forall₂ Written (frames paddings contents) contents := by
  rw [List.forall₂_iff_get]
  refine ⟨by simp [frames], fun i hi hi' => ?_⟩
  refine ⟨paddings i, ?_⟩
  simp [frames]

/-- A frame fits into the buffer it is read into. -/
theorem Written.length_le {frame : Bytes} {c : Content} (h : Written frame c) :
    frame.length ≤ buffLen := by
  obtain ⟨padding, rfl⟩ := h
  cases c with
  | opcode code => exact (length_text code).le.trans (by decide)
  | msg m =>
    rw [Content.frame, CliMsg.length_memory]
    decide

section Peers

variable {p p' : StreamPeer} {q : Peer}

theorem StreamPeer.carries_launched {id : Bytes} (h : id.length < 256 ^ 8) :
    (StreamPeer.launched id).Carries (Peer.launched id) where
  running := rfl
  accepted := rfl
  asked := rfl
  told := rfl
  up := Pipe.carries_empty.put (by simpa using h)
  down := ⟨[], Pipe.carries_empty, .nil⟩

theorem StreamPeer.Carries.types {input beyond : Bytes} (h : p.Carries q)
    (ht : p.types input beyond = some p') :
    ∃ q', q.types input beyond = some q' ∧ p'.Carries q' := by
  unfold StreamPeer.types at ht
  split_ifs at ht with hrun
  have hrun' : q.running = true := h.running ▸ hrun
  unfold Peer.types
  rw [if_pos hrun']
  rcases hrecv : recvFromStdin input beyond with fault | ⟨_ | _, sent⟩
  · rw [hrecv] at ht
    cases ht
  · rw [hrecv] at ht
    obtain rfl := Option.some.inj ht
    have hsizes : ∀ m ∈ sent.map FromTcp.bytes, m.length < 256 ^ 8 := by
      intro m hm
      obtain ⟨msg, -, rfl⟩ := List.mem_map.mp hm
      rw [length_bytes]
      decide
    exact ⟨_, rfl, h.running, h.accepted, congrArg (· ++ sent) h.asked, h.told,
      h.up.put hsizes, h.down⟩
  · rw [hrecv] at ht
    obtain rfl := Option.some.inj ht
    exact ⟨_, rfl, rfl, h.accepted, h.asked, h.told, h.up, h.down⟩

/-- What is read is what comes first. -/
theorem StreamPeer.Carries.hears {beyond : Bytes} (h : p.Carries q)
    (ht : p.hears beyond = some p') :
    ∃ padding q', q.hears padding beyond = some q' ∧ p'.Carries q' := by
  unfold StreamPeer.hears at ht
  split at ht
  swap
  · cases ht
  rename_i frame down hrun htake
  obtain ⟨messages, hcarries, hwritten⟩ := h.down
  obtain ⟨rest, rfl, hrest⟩ := hcarries.take htake
  obtain ⟨c, contents, ⟨padding, rfl⟩, hwritten', hdown⟩ := List.forall₂_cons_left_iff.mp hwritten
  have hrun' : q.running = true := h.running ▸ hrun
  refine ⟨padding, ?_⟩
  simp only [Peer.hears, hrun', hdown]
  dsimp only at ht
  split_ifs at ht ⊢ with hcode hexit
  · obtain rfl := Option.some.inj ht
    exact ⟨_, rfl, hrun, h.accepted, h.asked, h.told, h.up, _, hrest, hwritten'⟩
  · obtain rfl := Option.some.inj ht
    exact ⟨_, rfl, rfl, h.accepted, h.asked, h.told, h.up, _, hrest, hwritten'⟩
  · obtain rfl := Option.some.inj ht
    exact ⟨_, rfl, hrun, h.accepted, h.asked, congrArg (· ++ [_]) h.told, h.up, _, hrest,
      hwritten'⟩

theorem StreamPeer.Carries.receives (h : p.Carries q) (paddings : ℕ → Padding)
    (contents : List Content) :
    (p.receives (frames paddings contents)).Carries (q.receives contents) := by
  obtain ⟨messages, hcarries, hwritten⟩ := h.down
  have hnew := written_frames paddings contents
  refine ⟨h.running, h.accepted, h.asked, h.told, h.up, _, hcarries.put fun m hm => ?_,
    List.rel_append hwritten hnew⟩
  obtain ⟨i, hi, rfl⟩ := List.mem_mapIdx.mp hm
  have hframe : Written (contents[i].frame (paddings i)) contents[i] := ⟨paddings i, rfl⟩
  exact hframe.length_le.trans_lt (by decide)

end Peers

/-! ### One move -/

section Moves

variable {k : Sockets} {w w' : StreamSystem} {y : System} {n : ℕ} {p : StreamPeer} {q : Peer}

theorem StreamSystem.Refines.put (h : w.Refines y) (n : ℕ) (hp : p.Carries q) :
    (w.put n p).Refines (y.put n q) where
  srv := h.srv
  line := h.line
  peer n' := by
    show Option.Rel _ (Function.update w.peer n (some p) n') (Function.update y.peer n (some q) n')
    by_cases heq : n' = n
    · subst heq
      rw [Function.update_self, Function.update_self]
      exact .some hp
    · rw [Function.update_of_ne heq, Function.update_of_ne heq]
      exact h.peer n'

/-- A subscriber over pipes is one with messages. -/
theorem StreamSystem.Refines.exists_peer (h : w.Refines y) (hp : w.peer n = some p) :
    ∃ q, y.peer n = some q ∧ p.Carries q := by
  have hrel := h.peer n
  rw [hp] at hrel
  cases hy : y.peer n with
  | none =>
    rw [hy] at hrel
    cases hrel
  | some q =>
    rw [hy] at hrel
    cases hrel with
    | some hcarries => exact ⟨q, rfl, hcarries⟩

theorem StreamSystem.Refines.visit {e : Event} {paddings : ℕ → Padding} (h : w.Refines y)
    (hv : w.visit k e paddings = some w') : ∃ y', y.visit k e = some y' ∧ w'.Refines y' := by
  obtain ⟨⟨srv, sent⟩, hvisit, rfl⟩ := Option.map_eq_some_iff.mp hv
  rw [h.srv] at hvisit
  refine ⟨y.after srv sent, ?_, rfl, h.line, fun n => ?_⟩
  · rw [System.visit, hvisit, Option.map_some]
  · have hrel := h.peer n
    show Option.Rel _ ((w.peer n).map _) ((y.peer n).map _)
    rw [← h.line]
    generalize w.peer n = p at hrel
    generalize y.peer n = q at hrel
    cases hrel with
    | none => exact .none
    | some hcarries => exact .some (hcarries.receives paddings _)

/-- The subscriber's pipes can change as long as they carry the same. -/
theorem StreamSystem.Refines.put_same (h : w.Refines y) (hq : y.peer n = some q)
    (hp : p.Carries q) : (w.put n p).Refines y := by
  have hput := h.put n hp
  have hsame : y.put n q = y := by
    rw [System.put, Function.update_eq_self_iff.mpr hq.symm]
  rwa [hsame] at hput

/-- **A call** does not change what is carried. -/
theorem StreamSystem.Refines.call {c : Call} (h : w.Refines y)
    (hw : w.Next k (.up n c) w' ∨ w.Next k (.down n c) w') : w'.Refines y := by
  rcases hw with hw | hw
  · obtain ⟨p, hp, hw⟩ := Option.bind_eq_some_iff.mp hw
    obtain ⟨up, hup, hw⟩ := Option.bind_eq_some_iff.mp hw
    obtain rfl := Option.some.inj hw
    obtain ⟨q, hq, hcarries⟩ := h.exists_peer hp
    exact h.put_same hq { hcarries with up := hcarries.up.call hup }
  · obtain ⟨p, hp, hw⟩ := Option.bind_eq_some_iff.mp hw
    obtain ⟨down, hdown, hw⟩ := Option.bind_eq_some_iff.mp hw
    obtain rfl := Option.some.inj hw
    obtain ⟨q, hq, hcarries⟩ := h.exists_peer hp
    obtain ⟨messages, hmessages, hwritten⟩ := hcarries.down
    exact h.put_same hq { hcarries with down := ⟨messages, hmessages.call hdown, hwritten⟩ }

/-- **A move of a party** is one of it in the system with messages. -/
theorem StreamSystem.Refines.act {mv : Move} {paddings : ℕ → Padding} (h : w.Refines y)
    (hw : w.act k paddings mv = some w') :
    ∃ mv' y', mv.unpadded = mv'.unpadded ∧ y.move k mv' = some y' ∧ w'.Refines y' := by
  cases mv with
  | launch n id =>
    cases hp : w.peer n with
    | some p =>
      simp only [StreamSystem.act, hp] at hw
      cases hw
    | none =>
      simp only [StreamSystem.act, hp] at hw
      split_ifs at hw with hid
      obtain rfl := Option.some.inj hw
      have hq : y.peer n = none := by
        have hrel := h.peer n
        rw [hp] at hrel
        generalize y.peer n = q at hrel
        cases hrel
        rfl
      refine ⟨.launch n id, y.put n (Peer.launched id), rfl, ?_,
        h.put n (StreamPeer.carries_launched hid)⟩
      simp only [System.move, hq]
  | types n input beyond =>
    obtain ⟨p, hp, hw⟩ := Option.bind_eq_some_iff.mp hw
    obtain ⟨p', hp', hw⟩ := Option.bind_eq_some_iff.mp hw
    obtain rfl := Option.some.inj hw
    obtain ⟨q, hq, hcarries⟩ := h.exists_peer hp
    obtain ⟨q', hq', hcarries'⟩ := hcarries.types hp'
    refine ⟨.types n input beyond, y.put n q', rfl, ?_, h.put n hcarries'⟩
    simp [System.move, hq, hq']
  | hears n _ beyond =>
    obtain ⟨p, hp, hw⟩ := Option.bind_eq_some_iff.mp hw
    obtain ⟨p', hp', hw⟩ := Option.bind_eq_some_iff.mp hw
    obtain rfl := Option.some.inj hw
    obtain ⟨q, hq, hcarries⟩ := h.exists_peer hp
    obtain ⟨padding, q', hq', hcarries'⟩ := hcarries.hears hp'
    refine ⟨.hears n padding beyond, y.put n q', rfl, ?_, h.put n hcarries'⟩
    simp [System.move, hq, hq']
  | select ready =>
    obtain ⟨y', hy', hrefines⟩ := h.visit hw
    exact ⟨.select ready, y', rfl, hy', hrefines⟩
  | skip =>
    obtain ⟨y', hy', hrefines⟩ := h.visit hw
    exact ⟨.skip, y', rfl, hy', hrefines⟩
  | datagram msg ip port beyond =>
    obtain ⟨y', hy', hrefines⟩ := h.visit hw
    exact ⟨.datagram msg ip port beyond, y', rfl, hy', hrefines⟩
  | accept n newFd beyond =>
    obtain ⟨p, hp, hw⟩ := Option.bind_eq_some_iff.mp hw
    obtain ⟨q, hq, hcarries⟩ := h.exists_peer hp
    split at hw
    swap
    · cases hw
    rename_i frame up hacc htake
    obtain ⟨rest, hrest, hup⟩ := hcarries.up.take htake
    have haccept : (p.accept up).Carries (q.accept rest) :=
      { hcarries with
        accepted := rfl
        up := hup }
    have hconnected : ((w.put n (p.accept up)).connect n newFd).Refines
        ((y.put n (q.accept rest)).connect n newFd) := by
      have hput := h.put n haccept
      refine ⟨hput.srv, ?_, hput.peer⟩
      show Function.update _ _ _ = Function.update _ _ _
      rw [hput.line]
    obtain ⟨y', hy', hrefines⟩ := hconnected.visit hw
    refine ⟨.accept n newFd beyond, y', rfl, ?_, hrefines⟩
    have hacc' : q.accepted = false := hcarries.accepted ▸ hacc
    simp [System.move, hq, hacc', hrest, hy']
  | serve beyond =>
    obtain ⟨n, hn, hw⟩ := Option.bind_eq_some_iff.mp hw
    obtain ⟨p, hp, hw⟩ := Option.bind_eq_some_iff.mp hw
    obtain ⟨q, hq, hcarries⟩ := h.exists_peer hp
    rw [h.line, h.srv] at hn
    split at hw
    · rename_i frame up htake
      obtain ⟨rest, hrest, hup⟩ := hcarries.up.take htake
      have hserved : ({ p with up := up } : StreamPeer).Carries { q with up := rest } :=
        { hcarries with up := hup }
      obtain ⟨y', hy', hrefines⟩ := (h.put n hserved).visit hw
      refine ⟨.serve beyond, y', rfl, ?_, hrefines⟩
      simp [System.move, hn, hq, hrest, hy']
    · split_ifs at hw with hend
      rw [not_or, not_not] at hend
      obtain ⟨y', hy', hrefines⟩ := h.visit hw
      refine ⟨.serve beyond, y', rfl, ?_, hrefines⟩
      have hnil : q.up = [] := hcarries.up.nil_iff.mpr hend.2
      have hrun : q.running = false := by
        rw [← hcarries.running]
        simpa using hend.1
      simp [System.move, hn, hq, hnil, hrun, hy']

/-- One move, shown or not. -/
theorem StreamSystem.Refines.next {mv : StreamMove} (h : w.Refines y) (hw : w.Next k mv w') :
    (mv.shown = none ∧ w'.Refines y) ∨
      ∃ mv' y', mv.shown = some mv'.unpadded ∧ y.Next k mv' y' ∧ w'.Refines y' := by
  cases mv with
  | up n c => exact .inl ⟨rfl, h.call (.inl hw)⟩
  | down n c => exact .inl ⟨rfl, h.call (.inr hw)⟩
  | move mv paddings =>
    obtain ⟨mv', y', heq, hy', hrefines⟩ := h.act hw
    exact .inr ⟨mv', y', congrArg some heq, hy', hrefines⟩

end Moves

/-! ### Runs -/

section Runs

variable {k : Sockets} {w : StreamSystem} {n : ℕ} {p : StreamPeer} {q : Peer}

theorem StreamSystem.put_self (h : w.peer n = some p) : w.put n p = w := by
  rw [StreamSystem.put, Function.update_eq_self_iff.mpr h.symm]

/-- The calls on one of the pipes of a subscriber are moves of the system: `move` makes a call
one of its moves, `put` sets the pipe. -/
theorem StreamSystem.run_pipe {calls : List Call} {a b : Pipe} (move : Call → StreamMove)
    (put : Pipe → StreamPeer)
    (hmove : ∀ a c b, a.call c = some b → (w.put n (put a)).Next k (move c) (w.put n (put b)))
    (hp : w.peer n = some (put a)) (h : Run Pipe.Next a calls b) :
    Run (StreamSystem.Next k) w (calls.map move) (w.put n (put b)) := by
  have hstep (a : Pipe) (c : Call) (b : Pipe) (_ : True) (hc : a.Next c b) :
      True ∧ (w.put n (put a)).Next k (move c) (w.put n (put b)) := ⟨trivial, hmove a c b hc⟩
  have hrun := h.map (fun _ => True) hstep trivial
  rwa [StreamSystem.put_self hp] at hrun

theorem StreamSystem.run_up {calls : List Call} {up : Pipe} (hp : w.peer n = some p)
    (h : Run Pipe.Next p.up calls up) :
    Run (StreamSystem.Next k) w (calls.map (.up n)) (w.put n { p with up := up }) := by
  refine StreamSystem.run_pipe (.up n) (fun up => { p with up := up }) (fun a c b hc => ?_) hp h
  simp [StreamSystem.Next, StreamSystem.move, StreamSystem.put, hc]

theorem StreamSystem.run_down {calls : List Call} {down : Pipe} (hp : w.peer n = some p)
    (h : Run Pipe.Next p.down calls down) :
    Run (StreamSystem.Next k) w (calls.map (.down n)) (w.put n { p with down := down }) := by
  refine StreamSystem.run_pipe (.down n) (fun down => { p with down := down })
    (fun a c b hc => ?_) hp h
  simp [StreamSystem.Next, StreamSystem.move, StreamSystem.put, hc]

theorem StreamSystem.refines_start (k : Sockets) :
    (StreamSystem.start k).Refines (System.start k) := ⟨rfl, rfl, fun _ => .none⟩

/-- With some calls on its pipe, the oldest message to the server is there to be taken. -/
def StreamSystem.Reads (k : Sockets) (w : StreamSystem) (n : ℕ) (p : StreamPeer) (m : Bytes) :
    Prop :=
  ∃ (calls : List Call) (up up' : Pipe),
    Run (StreamSystem.Next k) w (calls.map (.up n)) (w.put n { p with up := up }) ∧
      up.take = some (m, up')

/-- The same towards the subscriber. -/
def StreamSystem.Hears (k : Sockets) (w : StreamSystem) (n : ℕ) (p : StreamPeer) (c : Content) :
    Prop :=
  ∃ (calls : List Call) (down down' : Pipe) (frame : Bytes),
    Run (StreamSystem.Next k) w (calls.map (.down n)) (w.put n { p with down := down }) ∧
      down.take = some (frame, down') ∧ Written frame c

theorem StreamPeer.Carries.reads {m : Bytes} (h : p.Carries q) (hp : w.peer n = some p)
    (hm : m ∈ q.up.head?) (hfits : m.length ≤ buffLen) : w.Reads k n p m := by
  obtain ⟨rest, hrest⟩ := List.head?_eq_some_iff.mp hm
  have hup := h.up
  rw [hrest] at hup
  obtain ⟨calls, up, up', hrun, htake⟩ := hup.exists_calls hfits
  exact ⟨calls, up, up', StreamSystem.run_up hp hrun, htake⟩

theorem StreamPeer.Carries.listens {c : Content} (h : p.Carries q) (hp : w.peer n = some p)
    (hc : c ∈ q.down.head?) : w.Hears k n p c := by
  obtain ⟨rest, hrest⟩ := List.head?_eq_some_iff.mp hc
  obtain ⟨messages, hcarries, hwritten⟩ := h.down
  rw [hrest] at hwritten
  obtain ⟨frame, messages', hframe, -, rfl⟩ := List.forall₂_cons_right_iff.mp hwritten
  obtain ⟨calls, down, down', hrun, htake⟩ := hcarries.exists_calls hframe.length_le
  exact ⟨calls, down, down', frame, StreamSystem.run_down hp hrun, htake, hframe⟩

/-- **Over byte streams** the server and the subscribers do what they do with messages: every
run, however much each `send` and each `recv` moves and whatever happens between two of
them, shows the moves of a run with messages, and leaves everybody in the same state.  The
message that has been on its way there for longest, either way, can be read here after some
calls on its connection; the one to the server if the buffer can hold it. -/
theorem streams_refine (k : Sockets) {log : List StreamMove} {w : StreamSystem}
    (h : Run (StreamSystem.Next k) (StreamSystem.start k) log w) :
    ∃ moves y, Run (System.Next k) (System.start k) moves y ∧
      moves.map Move.unpadded = log.filterMap StreamMove.shown ∧ w.Refines y ∧
      ∀ n p q, w.peer n = some p → y.peer n = some q →
        (∀ m ∈ q.up.head?, m.length ≤ buffLen → w.Reads k n p m) ∧
          ∀ c ∈ q.down.head?, w.Hears k n p c := by
  have hstep (w : StreamSystem) (y : System) (mv : StreamMove) (w' : StreamSystem)
      (h : w.Refines y) (hw : w.Next k mv w') : (mv.shown = none ∧ w'.Refines y) ∨
        ∃ mv' y', mv.shown = some mv'.unpadded ∧ y.Next k mv' y' ∧ w'.Refines y' := h.next hw
  obtain ⟨moves, y, hrun, hshown, hrefines⟩ := h.simulate hstep (StreamSystem.refines_start k)
  refine ⟨moves, y, hrun, hshown, hrefines, fun n p q hp hq => ?_⟩
  obtain ⟨q', hq', hcarries⟩ := hrefines.exists_peer hp
  obtain rfl := Option.some.inj (hq.symm.trans hq')
  exact ⟨fun m hm hfits => hcarries.reads hp hm hfits, fun c hc => hcarries.listens hp hc⟩

end Runs

/-- A subscriber `a` is let in on descriptor 6 after its id has come in pieces. -/
def oneStream : List StreamMove :=
  [.move (.launch 0 [0x61]) fun _ => ⟨0, 0, 0⟩, .up 0 (.send 8), .up 0 (.recv 8),
    .move (.select {5}) fun _ => ⟨0, 0, 0⟩, .up 0 (.send 1)] ++
  List.replicate 4 (.move .skip fun _ => ⟨0, 0, 0⟩) ++
  [.up 0 (.recv 1), .move (.accept 0 6 []) fun _ => ⟨0, 0, 0⟩]

theorem streams_refine_oneStream : ∃ (w : StreamSystem) (moves : List Move) (y : System),
    w.line 6 = some 0 ∧ Run (System.Next someSockets) (System.start someSockets) moves y ∧
      moves.map Move.unpadded = oneStream.filterMap StreamMove.shown ∧ w.Refines y := by
  have hrun : ((exec (StreamSystem.move someSockets) (.start someSockets) oneStream).map
      fun w => w.line 6) = some (some 0) := by decide +kernel
  obtain ⟨w, hw, hline⟩ := Option.map_eq_some_iff.mp hrun
  have hnext (w : StreamSystem) (mv : StreamMove) (w' : StreamSystem)
      (h : w.move someSockets mv = some w') : w.Next someSockets mv w' := h
  obtain ⟨moves, y, hmoves, hshown, hrefines, -⟩ :=
    streams_refine someSockets (run_of_exec hnext hw)
  exact ⟨w, moves, y, hline, hmoves, hshown, hrefines⟩

end TemePCom.PubSub
