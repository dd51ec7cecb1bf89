/-
TemePCom/PubSub/Pipe.lean

One direction of a connection, call by call (proto.cpp).

`proto_send` makes one `send` for the length and a loop of them for the message;
`proto_recv` makes one `recv` for the length and a loop of them.  Here each of these calls is
a step of its own, so that the two ends, and everybody else, can go on in between.  `put`
starts a `proto_send`, `take` ends a `proto_recv`.

A length is moved whole, by one call on either side: neither function has a loop for it, and
where a call moves less the two ends lose each other.

Whatever calls are made, in whatever order, what is written, on its way and read are the
messages one after the other (`Carries`): so what `take` returns is the oldest message that
was `put` and not taken.  And calls can be made until it returns (`exists_calls`).
-/
import TemePCom.PubSub.Framing
import TemePCom.Lib.Run

namespace TemePCom.PubSub

open LittleEndian Runs

/-- The length that a running `proto_recv` has read, and the bytes of the message so far. -/
structure Reading where
  size : ℕ
  received : Bytes
  deriving DecidableEq

/-- The messages whose `proto_send` has not begun, what the running one has still to send, the
bytes on their way, and the running `proto_recv`. -/
structure Pipe where
  queued : List Bytes
  unsent : Bytes
  transit : Bytes
  reading : Option Reading
  deriving DecidableEq

def Pipe.empty : Pipe := ⟨[], [], [], none⟩

/-- A call, and how many bytes it would move. -/
inductive Call
  | send (planned : ℕ)
  | recv (planned : ℕ)
  deriving DecidableEq

/-- The next `send`: of a length, or in the loop. -/
def Pipe.send (p : Pipe) (planned : ℕ) : Option Pipe :=
  if p.unsent = [] then
    match p.queued with
    | [] => none
    | message :: rest => some { p with
        queued := rest
        unsent := message
        transit := p.transit ++ encode 8 message.length }
  else
    let status := moved planned p.unsent.length
    some { p with
      unsent := p.unsent.drop status
      transit := p.transit ++ p.unsent.take status }

/-- The next `recv`: of a length, or in the loop.  It waits until there is something. -/
def Pipe.recv (p : Pipe) (planned : ℕ) : Option Pipe :=
  match p.reading with
  | none =>
    if 8 ≤ p.transit.length then some { p with
      transit := p.transit.drop 8
      reading := some ⟨value (p.transit.take 8), []⟩ }
    else none
  | some r =>
    if r.received.length < r.size ∧ p.transit ≠ [] then
      match recvRound (fun _ => planned) ⟨r.size, r.received, p.transit, 0⟩ with
      | .error _ => none
      | .ok s => some { p with
          transit := s.stream
          reading := some ⟨s.size, s.received⟩ }
    else none

def Pipe.call (p : Pipe) : Call → Option Pipe
  | .send planned => p.send planned
  | .recv planned => p.recv planned

/-- `proto_send` is called with one message after the other. -/
def Pipe.put (p : Pipe) (messages : List Bytes) : Pipe :=
  { p with queued := p.queued ++ messages }

/-- `proto_recv` returns. -/
def Pipe.take (p : Pipe) : Option (Bytes × Pipe) :=
  match p.reading with
  | none => none
  | some r =>
    if r.received.length < r.size then none
    else some (r.received, { p with reading := none })

/-! ### What a pipe carries -/

/-- A message as it is sent. -/
def framed (message : Bytes) : Bytes := encode 8 message.length ++ message

/-- What `protoSend` writes without interruption, the length by one call. -/
theorem protoSend_eq_framed {plan : SendPlan} (h : 8 ≤ plan.size) (message : Bytes) :
    protoSend plan message = framed message := by
  have hsize : moved plan.size 8 = 8 := by
    unfold moved
    omega
  rw [protoSend_eq, hsize, framed]

/-- What a `proto_recv` has read. -/
def Reading.bytes (r : Reading) : Bytes := encode 8 r.size ++ r.received

/-- Everything from the reader to the writer. -/
def Pipe.bytes (p : Pipe) : Bytes :=
  (p.reading.elim [] Reading.bytes) ++ (p.transit ++ (p.unsent ++ p.queued.flatMap framed))

/-- The pipe holds these messages; their lengths are `size_t`s. -/
structure Pipe.Carries (p : Pipe) (messages : List Bytes) : Prop where
  bytes : p.bytes = messages.flatMap framed
  sizes : ∀ m ∈ messages, m.length < 256 ^ 8
  reading : ∀ r ∈ p.reading, r.size < 256 ^ 8 ∧ r.received.length ≤ r.size

section Carries

variable {p p' : Pipe} {messages : List Bytes}

theorem Pipe.carries_empty : Pipe.empty.Carries [] := ⟨rfl, nofun, nofun⟩

/-- A message is found again at the front, whatever follows. -/
theorem framed_append_inj {m received rest rest' : Bytes} {size : ℕ} (hm : m.length < 256 ^ 8)
    (hsize : size < 256 ^ 8) (hlen : received.length = size)
    (h : encode 8 size ++ received ++ rest = framed m ++ rest') : received = m ∧ rest = rest' := by
  rw [framed, List.append_assoc, List.append_assoc] at h
  obtain ⟨hhead, htail⟩ := List.append_inj h (by rw [length_encode, length_encode])
  have hvalue := congrArg value hhead
  rw [value_encode, value_encode, Nat.mod_eq_of_lt hsize, Nat.mod_eq_of_lt hm] at hvalue
  exact List.append_inj htail (hlen.trans hvalue)

/-- Only an empty pipe carries nothing. -/
theorem Pipe.Carries.nil_iff (h : p.Carries messages) : messages = [] ↔ p.bytes = [] := by
  rw [h.bytes]
  constructor
  · rintro rfl
    rfl
  · intro hnil
    cases messages with
    | nil => rfl
    | cons m rest =>
      have hlen := congrArg List.length hnil
      simp [framed] at hlen

theorem Pipe.Carries.put (h : p.Carries messages) {new : List Bytes}
    (hnew : ∀ m ∈ new, m.length < 256 ^ 8) : (p.put new).Carries (messages ++ new) where
  bytes := by
    rw [List.flatMap_append, ← h.bytes]
    simp [Pipe.bytes, Pipe.put]
  sizes := List.forall_mem_append.mpr ⟨h.sizes, hnew⟩
  reading := h.reading

/-- **What is taken** is the oldest message. -/
theorem Pipe.Carries.take {m : Bytes} (h : p.Carries messages) (ht : p.take = some (m, p')) :
    ∃ rest, messages = m :: rest ∧ p'.Carries rest := by
  unfold Pipe.take at ht
  cases hr : p.reading with
  | none =>
    rw [hr] at ht
    cases ht
  | some r =>
    rw [hr] at ht
    dsimp only at ht
    split_ifs at ht with hlt
    obtain ⟨rfl, rfl⟩ := Prod.mk.inj (Option.some.inj ht)
    obtain ⟨hsize, hle⟩ := h.reading r hr
    have hbytes := h.bytes
    rw [Pipe.bytes, hr, Option.elim_some, Reading.bytes] at hbytes
    cases messages with
    | nil =>
      have hlen := congrArg List.length hbytes
      simp at hlen
    | cons m rest =>
      rw [List.flatMap_cons] at hbytes
      obtain ⟨rfl, hrest⟩ := framed_append_inj (h.sizes m List.mem_cons_self) hsize
        (le_antisymm hle (not_lt.mp hlt)) hbytes
      exact ⟨rest, rfl, hrest, fun m hm => h.sizes m (List.mem_cons_of_mem _ hm), nofun⟩

/-- A `send` moves bytes on. -/
theorem Pipe.Carries.send {planned : ℕ} (h : p.Carries messages)
    (hs : p.send planned = some p') : p'.Carries messages := by
  unfold Pipe.send at hs
  split_ifs at hs with hunsent
  · split at hs
    · cases hs
    · rename_i m rest hqueued
      obtain rfl := Option.some.inj hs
      refine ⟨?_, h.sizes, h.reading⟩
      rw [← h.bytes]
      simp [Pipe.bytes, hunsent, hqueued, framed]
  · obtain rfl := Option.some.inj hs
    refine ⟨?_, h.sizes, h.reading⟩
    rw [← h.bytes]
    simp only [Pipe.bytes, List.append_assoc]
    rw [← List.append_assoc (List.take _ _), List.take_append_drop]

/-- A `recv` moves bytes on. -/
theorem Pipe.Carries.recv {planned : ℕ} (h : p.Carries messages)
    (hs : p.recv planned = some p') : p'.Carries messages := by
  unfold Pipe.recv at hs
  split at hs
  · rename_i hr
    split_ifs at hs with hlen
    obtain rfl := Option.some.inj hs
    have htake : (p.transit.take 8).length = 8 := List.length_take_of_le hlen
    refine ⟨?_, h.sizes, ?_⟩
    · have hcode := encode_value (p.transit.take 8)
      rw [htake] at hcode
      rw [← h.bytes, Pipe.bytes, Pipe.bytes, hr, Option.elim_some, Option.elim_none,
        Reading.bytes, hcode, List.append_nil, ← List.append_assoc, List.take_append_drop,
        List.nil_append]
    · intro r hmem
      obtain rfl := Option.some.inj hmem
      have hlt := value_lt (p.transit.take 8)
      rw [htake] at hlt
      exact ⟨hlt, Nat.zero_le _⟩
  · rename_i r hr
    split_ifs at hs with hlt
    rw [recvRound_eq] at hs
    split at hs
    · cases hs
    · rename_i s hround
      split_ifs at hround with hover
      obtain rfl := Except.ok.inj hround
      obtain rfl := Option.some.inj hs
      obtain ⟨hsize, hle⟩ := h.reading r hr
      refine ⟨?_, h.sizes, ?_⟩
      · rw [← h.bytes]
        simp only [Pipe.bytes, hr, Option.elim_some, Reading.bytes, RecvState.after,
          List.append_assoc]
        rw [← List.append_assoc (List.take _ _), List.take_append_drop]
      · intro r' hmem
        obtain rfl := Option.some.inj hmem
        refine ⟨hsize, ?_⟩
        have hmoved := moved_le planned (r.size - r.received.length)
        have hstatus : (RecvState.status (fun _ => planned)
            ⟨r.size, r.received, p.transit, 0⟩) ≤ moved planned (r.size - r.received.length) :=
          Nat.min_le_left _ _
        rw [RecvState.length_received_after]
        show r.received.length + _ ≤ r.size
        omega

/-- **Whatever is called**, the pipe carries what it carried. -/
theorem Pipe.Carries.call {c : Call} (h : p.Carries messages) (hc : p.call c = some p') :
    p'.Carries messages := by
  cases c with
  | send planned => exact h.send hc
  | recv planned => exact h.recv hc

/-! ### Nothing is stuck -/

/-- The pipe after a call. -/
def Pipe.Next (p : Pipe) (c : Call) (p' : Pipe) : Prop := p.call c = some p'

theorem Pipe.Carries.run {calls : List Call} (h : p.Carries messages)
    (hrun : Run Pipe.Next p calls p') : p'.Carries messages := by
  have hstep (p : Pipe) (c : Call) (p' : Pipe) (h : p.Carries messages) (hc : p.Next c p') :
      p'.Carries messages := h.call hc
  exact hrun.invariant hstep h

/-- One call can move everything it is asked for. -/
theorem moved_self {n : ℕ} (h : 0 < n) : moved n n = n := by
  unfold moved
  omega

/-- The running `proto_send` can end. -/
theorem Pipe.exists_send (p : Pipe) : ∃ calls p', Run Pipe.Next p calls p' ∧
    p'.unsent = [] ∧ p'.queued = p.queued := by
  by_cases hunsent : p.unsent = []
  · exact ⟨[], p, .nil p, hunsent, rfl⟩
  · refine ⟨[.send p.unsent.length], { p with
      unsent := []
      transit := p.transit ++ p.unsent }, .cons ?_ (.nil _), rfl, rfl⟩
    show p.send _ = _
    simp only [Pipe.send, if_neg hunsent, moved_self (List.length_pos_iff.mpr hunsent),
      List.take_length, List.drop_length]

/-- Everything that was put can be sent. -/
theorem Pipe.exists_sends (p : Pipe) : ∃ calls p', Run Pipe.Next p calls p' ∧
    p'.unsent = [] ∧ p'.queued = [] := by
  generalize hqueued : p.queued = queued
  induction queued generalizing p with
  | nil =>
    obtain ⟨calls, p', hrun, hunsent, hq⟩ := p.exists_send
    exact ⟨calls, p', hrun, hunsent, hq.trans hqueued⟩
  | cons m rest ih =>
    obtain ⟨calls, p₁, hrun, hunsent, hq⟩ := p.exists_send
    have hsize : p₁.Next (.send 8) { p₁ with
        queued := rest
        unsent := m
        transit := p₁.transit ++ encode 8 m.length } := by
      show p₁.send 8 = _
      simp only [Pipe.send, if_pos hunsent, hq, hqueued]
    obtain ⟨calls', p', hrun', hsent⟩ := ih { p₁ with
      queued := rest
      unsent := m
      transit := p₁.transit ++ encode 8 m.length } rfl
    exact ⟨calls ++ .send 8 :: calls', p', hrun.append (.cons hsize hrun'), hsent⟩

/-- With everything sent, the running `proto_recv` can end. -/
theorem Pipe.Carries.exists_recv {m : Bytes} {r : Reading} (h : p.Carries (m :: messages))
    (hfits : m.length ≤ buffLen) (hunsent : p.unsent = []) (hqueued : p.queued = [])
    (hr : p.reading = some r) : ∃ calls p', Run Pipe.Next p calls p' ∧ p'.take.isSome := by
  by_cases hlt : r.received.length < r.size
  swap
  · refine ⟨[], p, .nil p, ?_⟩
    simp only [Pipe.take, hr, if_neg hlt, Option.isSome_some]
  obtain ⟨hsize, hle⟩ := h.reading r hr
  have hbytes := h.bytes
  rw [Pipe.bytes, hr, hunsent, hqueued, Option.elim_some, Reading.bytes, List.flatMap_nil,
    List.append_nil, List.append_nil, List.flatMap_cons, framed, List.append_assoc,
    List.append_assoc] at hbytes
  obtain ⟨hhead, htail⟩ := List.append_inj hbytes (by rw [length_encode, length_encode])
  have hvalue := congrArg value hhead
  rw [value_encode, value_encode, Nat.mod_eq_of_lt hsize,
    Nat.mod_eq_of_lt (h.sizes m List.mem_cons_self)] at hvalue
  -- the rest of the message is on its way
  have hthere : r.size - r.received.length ≤ p.transit.length := by
    have hlen := congrArg List.length htail
    rw [List.length_append, List.length_append] at hlen
    omega
  have hstatus : RecvState.status (fun _ => r.size - r.received.length)
      ⟨r.size, r.received, p.transit, 0⟩ = r.size - r.received.length := by
    show min (moved _ _) _ = _
    rw [moved_self (Nat.sub_pos_of_lt hlt)]
    exact min_eq_left hthere
  have hne : p.transit ≠ [] := by
    rintro hnil
    rw [hnil, List.length_nil] at hthere
    omega
  have hnext : p.Next (.recv (r.size - r.received.length)) { p with
      transit := p.transit.drop (r.size - r.received.length)
      reading := some ⟨r.size, r.received ++ p.transit.take (r.size - r.received.length)⟩ } := by
    show p.recv _ = _
    have hover : ¬ buffLen < r.received.length + (r.size - r.received.length) := by omega
    simp only [Pipe.recv, hr, if_pos (And.intro hlt hne), recvRound_eq, hstatus, if_neg hover,
      RecvState.after]
  refine ⟨_, _, .cons hnext (.nil _), ?_⟩
  have hdone : ¬ (r.received ++ p.transit.take (r.size - r.received.length)).length < r.size := by
    rw [List.length_append, List.length_take_of_le hthere]
    omega
  simp only [Pipe.take, if_neg hdone, Option.isSome_some]

/-- Calls can be made until `proto_recv` returns. -/
theorem Pipe.Carries.exists_take {m : Bytes} (h : p.Carries (m :: messages))
    (hfits : m.length ≤ buffLen) : ∃ calls p', Run Pipe.Next p calls p' ∧ p'.take.isSome := by
  obtain ⟨calls, p₁, hrun, hunsent, hqueued⟩ := p.exists_sends
  have h₁ := h.run hrun
  cases hr : p₁.reading with
  | some r =>
    obtain ⟨calls', p', hrun', htake⟩ := h₁.exists_recv hfits hunsent hqueued hr
    exact ⟨_, p', hrun.append hrun', htake⟩
  | none =>
    have hlen : 8 ≤ p₁.transit.length := by
      have hlen := congrArg List.length h₁.bytes
      rw [Pipe.bytes, hr, hunsent, hqueued, List.flatMap_cons, framed] at hlen
      simp at hlen
      omega
    have hsize : p₁.Next (.recv 8) { p₁ with
        transit := p₁.transit.drop 8
        reading := some ⟨value (p₁.transit.take 8), []⟩ } := by
      show p₁.recv 8 = _
      simp only [Pipe.recv, hr, if_pos hlen]
    obtain ⟨calls', p', hrun', htake⟩ := (h₁.call hsize).exists_recv hfits hunsent hqueued rfl
    exact ⟨_, p', hrun.append (.cons hsize hrun'), htake⟩

/-- **What is carried can be taken**, whatever has been called so far. -/
theorem Pipe.Carries.exists_calls {m : Bytes} (h : p.Carries (m :: messages))
    (hfits : m.length ≤ buffLen) :
    ∃ calls p' p'', Run Pipe.Next p calls p' ∧ p'.take = some (m, p'') := by
  obtain ⟨calls, p', hrun, htake⟩ := h.exists_take hfits
  obtain ⟨⟨m', p''⟩, htake⟩ := Option.isSome_iff_exists.mp htake
  obtain ⟨rest, heq, -⟩ := (h.run hrun).take htake
  obtain ⟨rfl, -⟩ := List.cons.inj heq
  exact ⟨calls, p', p'', hrun, htake⟩

end Carries

end TemePCom.PubSub
