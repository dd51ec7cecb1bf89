/-
TemePCom/PubSub/Receiving.lean

What a peer can do to `proto_recv`.

The peer chooses the length it announces and how many bytes it sends before it closes
the connection.  Three numbers decide what happens: the announced length, the bytes
that are delivered behind it, and the `BUFF_LEN` of the buffer.

* The loop waits for the announced bytes, and `recv` on a closed connection delivers
  none: it makes finitely many calls iff everything announced is delivered
  (`protoRecv_returns_iff`).  Whether a call returns 0 is not looked at.
* It writes as far as both numbers reach, whatever the buffer holds
  (`writesInside_iff`).
* The callers trust the length once more: the server ends the id of a client where the
  buffer holds a zero, and copies a request into the 52 bytes of a `from_tcp`
  (`safe_iff`).
-/
import TemePCom.PubSub.Framing
import TemePCom.PubSub.Server

namespace TemePCom.PubSub

open StateTransition LittleEndian

variable {plan : RecvPlan} {stream m rest : Bytes}

/-! ### What the peer decides -/

/-- How many bytes of the length field are read. -/
def fieldRead (plan : RecvPlan) (stream : Bytes) : ℕ := min (moved plan.size 8) stream.length

/-- The length the peer announces. -/
def announced (plan : RecvPlan) (stream : Bytes) : ℕ := value (stream.take (fieldRead plan stream))

/-- The bytes behind the length field. -/
def body (plan : RecvPlan) (stream : Bytes) : Bytes := stream.drop (fieldRead plan stream)

/-! ### The loop by its counters -/

/-- `bytes_recv`, what the peer has still to deliver, and the calls made so far. -/
structure Counters where
  received : ℕ
  coming : ℕ
  call : ℕ

def RecvState.counters (s : RecvState) : Counters := ⟨s.received.length, s.stream.length, s.call⟩

/-- One round of `while (bytes_recv < size)`, as far as the counters go. -/
def countRound (calls : ℕ → ℕ) (size : ℕ) (c : Counters) : Counters :=
  let status := min (moved (calls c.call) (size - c.received)) c.coming
  ⟨c.received + status, c.coming - status, c.call + 1⟩

def countStep (calls : ℕ → ℕ) (size : ℕ) (c : Counters) : Option Counters :=
  if c.received < size then some (countRound calls size c) else none

/-- The loop makes finitely many calls of `recv`. -/
def FiniteCalls (plan : RecvPlan) (stream : Bytes) : Prop :=
  (eval (countStep plan.body (announced plan stream)) ⟨0, (body plan stream).length, 0⟩).Dom

/-- `proto_recv` returns. -/
def Returns (plan : RecvPlan) (stream : Bytes) : Prop :=
  ∃ m rest, .ok (m, rest) ∈ protoRecv plan stream

/-- A round of the loop is a round of its counters. -/
theorem countStep_counters {calls : ℕ → ℕ} {s : RecvState} (hlt : s.received.length < s.size) :
    countStep calls s.size s.counters = some (s.after (s.status calls)).counters := by
  unfold countStep RecvState.counters
  rw [if_pos hlt, RecvState.length_received_after]
  simp only [RecvState.after, countRound, List.length_drop]
  rfl

/-- As long as it has not left its buffer, the loop has made the calls its counters
count. -/
theorem reaches_counters {calls : ℕ → ℕ} {s t : RecvState}
    (h : Reaches (recvStep calls) (.ok s) (.ok t)) :
    Reaches (countStep calls s.size) s.counters t.counters := by
  let P : RecvState → Prop := fun u =>
    u.size = s.size ∧ Reaches (countStep calls s.size) s.counters u.counters
  have hround : ∀ u, P u → u.received.length < u.size →
      u.received.length + u.status calls ≤ buffLen → P (u.after (u.status calls)) := by
    rintro u ⟨hsize, hreach⟩ hlt -
    refine ⟨hsize, hreach.tail (Option.mem_def.mpr ?_)⟩
    rw [← hsize]
    exact countStep_counters hlt
  exact (recvLoop_invariant P hround ⟨rfl, .refl⟩ h).2

/-- **Finitely many calls** iff everything announced is delivered. -/
theorem finiteCalls_iff (plan : RecvPlan) (stream : Bytes) :
    FiniteCalls plan stream ↔ announced plan stream ≤ (body plan stream).length := by
  set size := announced plan stream
  constructor
  · intro h
    by_contra hlt
    obtain ⟨r, hr⟩ := Part.dom_iff_mem.mp h
    -- the bytes that are still missing will never come
    let Inv : Counters → Prop := fun c => c.received + c.coming < size
    have hstep : ∀ c, Inv c → ∃ c', countStep plan.body size c = some c' ∧ Inv c' := by
      intro c hc
      refine ⟨countRound plan.body size c, if_pos (by simp only [Inv] at hc; omega), ?_⟩
      simp only [Inv, countRound] at hc ⊢
      omega
    have hstart : Inv ⟨0, (body plan stream).length, 0⟩ := by
      simp only [Inv]
      omega
    exact Loop.not_mem_eval hstep hstart r hr
  · intro h
    -- every call delivers at least one of them
    let Inv : Counters → Prop := fun c => size ≤ c.received + c.coming
    have hstep : ∀ c c', Inv c → countStep plan.body size c = some c' →
        Inv c' ∧ size - c'.received < size - c.received := by
      intro c c' hc hcc'
      unfold countStep at hcc'
      split_ifs at hcc' with hlt
      obtain rfl := Option.some.inj hcc'
      have hpos := moved_pos (plan.body c.call) (n := size - c.received) (by omega)
      have hle := moved_le (plan.body c.call) (size - c.received)
      simp only [Inv, countRound] at hc ⊢
      omega
    have hstart : Inv ⟨0, (body plan stream).length, 0⟩ := by
      simp only [Inv]
      omega
    obtain ⟨r, hr, -⟩ := Loop.exists_mem_eval Inv (fun c => size - c.received) hstep hstart
    exact Part.dom_iff_mem.mpr ⟨r, hr⟩

/-! ### What is returned -/

/-- What is returned is the announced part of the body, and fits the buffer. -/
theorem mem_protoRecv_iff : .ok (m, rest) ∈ protoRecv plan stream ↔
    m ++ rest = body plan stream ∧ m.length = announced plan stream ∧ m.length ≤ buffLen := by
  constructor
  · intro h
    obtain ⟨happend, hlen⟩ := append_of_mem_protoRecv h
    refine ⟨happend, hlen, ?_⟩
    unfold protoRecv at h
    obtain ⟨fault | s, hs, heq⟩ := (Part.mem_map_iff _).mp h
    · cases heq
    obtain ⟨rfl, rfl⟩ := Prod.mk.inj (Except.ok.inj heq)
    -- no round goes beyond the buffer
    refine recvLoop_invariant (fun t => t.received.length ≤ buffLen) (fun t _ _ hle => ?_)
      (Nat.zero_le _) (mem_eval.mp hs).1
    rwa [RecvState.length_received_after]
  · rintro ⟨happend, hlen, hbuff⟩
    exact mem_protoRecv rfl hbuff happend hlen.symm

/-- What is announced, delivered and fits the buffer is returned. -/
theorem mem_protoRecv_take (hle : announced plan stream ≤ (body plan stream).length)
    (hbuff : announced plan stream ≤ buffLen) :
    .ok ((body plan stream).take (announced plan stream),
      (body plan stream).drop (announced plan stream)) ∈ protoRecv plan stream := by
  have hlen : ((body plan stream).take (announced plan stream)).length =
      announced plan stream := List.length_take_of_le hle
  exact mem_protoRecv_iff.mpr ⟨List.take_append_drop _ _, hlen, hlen.trans_le hbuff⟩

theorem returns_iff (plan : RecvPlan) (stream : Bytes) : Returns plan stream ↔
    announced plan stream ≤ (body plan stream).length ∧ announced plan stream ≤ buffLen := by
  constructor
  · rintro ⟨m, rest, h⟩
    obtain ⟨happend, hlen, hbuff⟩ := mem_protoRecv_iff.mp h
    rw [← happend, List.length_append]
    omega
  · rintro ⟨hle, hbuff⟩
    exact ⟨_, _, mem_protoRecv_take hle hbuff⟩

/-- **When `proto_recv` comes to an end**: its loop makes finitely many calls iff the
peer delivers what it announces, and then it returns, unless more is announced than the
buffer holds. -/
theorem protoRecv_returns_iff (plan : RecvPlan) (stream : Bytes) :
    (FiniteCalls plan stream ↔ announced plan stream ≤ (body plan stream).length) ∧
      (Returns plan stream ↔ announced plan stream ≤ (body plan stream).length ∧
        announced plan stream ≤ buffLen) :=
  ⟨finiteCalls_iff plan stream, returns_iff plan stream⟩

/-- Five bytes announced, one delivered. -/
theorem not_finiteCalls_cutShort :
    ¬ FiniteCalls ⟨8, fun _ => 1⟩ [5, 0, 0, 0, 0, 0, 0, 0, 7] ∧
      ¬ Returns ⟨8, fun _ => 1⟩ [5, 0, 0, 0, 0, 0, 0, 0, 7] := by
  rw [finiteCalls_iff, returns_iff]
  decide

/-! ### What is written -/

/-- No `recv` writes a byte beyond the caller's buffer; the room it is given is not asked about. -/
def WritesInside (plan : RecvPlan) (stream : Bytes) : Prop :=
  .error .overflow ∉ eval (recvStep plan.body)
    (.ok ⟨announced plan stream, [], body plan stream, 0⟩)

/-- The loop of `proto_recv` on its way: inside the buffer, or out of it. -/
def Filling (size : ℕ) (bytes : Bytes) : Except Fault RecvState → Prop
  | .error fault => fault = .overflow
  | .ok s => Received size bytes s ∧ s.received.length ≤ buffLen

theorem filling_start (size : ℕ) (bytes : Bytes) : Filling size bytes (.ok ⟨size, [], bytes, 0⟩) :=
  ⟨⟨rfl, rfl, Nat.zero_le _⟩, Nat.zero_le _⟩

theorem filling_step {size : ℕ} {bytes : Bytes} {calls : ℕ → ℕ} {r r' : Except Fault RecvState}
    (hr : Filling size bytes r) (h : recvStep calls r = some r') : Filling size bytes r' := by
  rcases r with fault | s
  · cases h
  obtain ⟨-, ⟨-, rfl⟩ | ⟨hle, rfl⟩⟩ := recvStep_cases h
  · rfl
  · refine ⟨received_after calls hr.1, ?_⟩
    rwa [RecvState.length_received_after]

/-- The room that is left. -/
def room : Except Fault RecvState → ℕ
  | .error _ => 0
  | .ok s => buffLen + 1 - s.received.length

/-- While more is announced and delivered than the buffer holds, every step takes room. -/
theorem room_step {size : ℕ} {bytes : Bytes} {calls : ℕ → ℕ} {r r' : Except Fault RecvState}
    (hmore : buffLen < min size bytes.length) (hr : Filling size bytes r)
    (h : recvStep calls r = some r') : room r' < room r := by
  rcases r with fault | s
  · cases h
  obtain ⟨hrec, hle⟩ := hr
  obtain ⟨hlt, ⟨-, rfl⟩ | ⟨-, rfl⟩⟩ := recvStep_cases h
  · show 0 < buffLen + 1 - s.received.length
    omega
  · have hlen : s.received.length + s.stream.length = bytes.length := by
      rw [← List.length_append, hrec.append]
    have hstream : s.stream ≠ [] := by
      intro hnil
      rw [hnil, List.length_nil] at hlen
      omega
    have hstatus : 0 < s.status calls := RecvState.status_pos hlt hstream
    simp only [room, RecvState.length_received_after]
    omega

/-- **What `proto_recv` writes**: as much as is announced and delivered, whatever the
buffer holds. -/
theorem writesInside_iff (plan : RecvPlan) (stream : Bytes) : WritesInside plan stream ↔
    min (announced plan stream) (body plan stream).length ≤ buffLen := by
  set size := announced plan stream with hsize
  set bytes := body plan stream with hbytes
  have hstart := filling_start size bytes
  unfold WritesInside
  rw [← hsize, ← hbytes]
  constructor
  · intro h
    by_contra hmore
    -- the buffer is full before anything runs out
    have hstep : ∀ r r', Filling size bytes r → recvStep plan.body r = some r' →
        Filling size bytes r' ∧ room r' < room r := fun r r' hr hrr' =>
      ⟨filling_step hr hrr', room_step (not_le.mp hmore) hr hrr'⟩
    obtain ⟨fault | s, hr, hinv⟩ := Loop.exists_mem_eval _ room hstep hstart
    · obtain rfl : fault = .overflow := hinv
      exact h hr
    · obtain ⟨hrec, hle⟩ := hinv
      have hgo : s.received.length < s.size := by
        rw [hrec.size_eq]
        omega
      have hhalt := (mem_eval.mp hr).2
      simp [recvStep, hgo] at hhalt
  · intro hle hmem
    -- no call is given more than is announced and delivered
    let Inv : Except Fault RecvState → Prop := fun r => ∃ s, r = .ok s ∧ Received size bytes s
    have hstep : ∀ r r', Inv r → recvStep plan.body r = some r' → Inv r' := by
      rintro _ r' ⟨s, rfl, hrec⟩ hrr'
      have hnext := received_after plan.body hrec
      have hlen := hnext.le
      have htotal : (s.after (s.status plan.body)).received.length ≤ bytes.length := by
        rw [← hnext.append, List.length_append]
        exact Nat.le_add_right _ _
      rw [RecvState.length_received_after] at hlen htotal
      obtain ⟨-, ⟨hover, -⟩ | ⟨-, rfl⟩⟩ := recvStep_cases hrr'
      · omega
      · exact ⟨_, rfl, hnext⟩
    obtain ⟨s, hs, -⟩ := Loop.reaches_invariant Inv hstep ⟨_, rfl, hstart.1⟩ (mem_eval.mp hmem).1
    cases hs

/-! ### What the callers make of it -/

/-- The calls of `proto_recv`: the server's for the id of a new client and for a
request, and the subscriber's for a message. -/
inductive Use
  | accept
  | request
  | subscriber

/-- The C string at the start of a buffer that was cleared before the message was
received ends inside the buffer, whatever lies behind it. -/
def EndsInside (m : Bytes) : Prop :=
  ∀ beyond, (cString (m ++ List.replicate (buffLen - m.length) 0 ++ beyond)).length < buffLen

/-- What a caller does with the returned message stays inside its objects. -/
def Use.Fits : Use → Bytes → Prop
  -- `std::string id_stringed(buffer)`
  | .accept, m => m ≠ [] → EndsInside m
  -- `memcpy(&msg, buffer, size)`
  | .request, m => m.length ≤ sizeofFromTcp
  -- `std::string(buffer)` of what is shorter than a message; then a copy out of the buffer
  | .subscriber, m => (m.length < sizeofCliMsg → EndsInside m) ∧ sizeofCliMsg ≤ buffLen

/-- Nothing the peer sends leads out of the objects of the caller. -/
def Use.Safe (u : Use) (plan : RecvPlan) (stream : Bytes) : Prop :=
  WritesInside plan stream ∧ ∀ m rest, .ok (m, rest) ∈ protoRecv plan stream → u.Fits m

/-- What is asked of a message that is announced and delivered. -/
def Use.Bound (u : Use) (plan : RecvPlan) (stream : Bytes) : Prop :=
  match u with
  | .accept => announced plan stream = buffLen → 0 ∈ (body plan stream).take buffLen
  | .request => announced plan stream ≤ sizeofFromTcp
  | .subscriber => True

/-- The string ends inside a part of memory iff that part holds a terminator. -/
theorem length_cString_append_lt_iff (a b : Bytes) :
    (cString (a ++ b)).length < a.length ↔ 0 ∈ a := by
  unfold cString
  rw [List.takeWhile_append]
  have hle : (a.takeWhile (· ≠ 0)).length ≤ a.length := (List.takeWhile_prefix _).length_le
  have hall : (a.takeWhile (· ≠ 0)).length = a.length ↔ 0 ∉ a := by
    have hprefix : a.takeWhile (· ≠ 0) <+: a := List.takeWhile_prefix _
    constructor
    · intro hlen hmem
      have hself := hprefix.eq_of_length hlen
      exact of_decide_eq_true (List.takeWhile_eq_self_iff.mp hself 0 hmem) rfl
    · intro hmem
      have hself : a.takeWhile (· ≠ 0) = a := List.takeWhile_eq_self_iff.mpr fun b hb =>
        decide_eq_true fun h => hmem (h ▸ hb)
      rw [hself]
  split_ifs with hfull
  · rw [List.length_append]
    exact iff_of_false (by omega) (hall.mp hfull)
  · have hmem : 0 ∈ a := by
      by_contra hnot
      exact hfull (hall.mpr hnot)
    exact iff_of_true (by omega) hmem

theorem endsInside_iff (h : m.length ≤ buffLen) :
    EndsInside m ↔ (m.length = buffLen → 0 ∈ m) := by
  have hlen : (m ++ List.replicate (buffLen - m.length) 0).length = buffLen := by
    rw [List.length_append, List.length_replicate]
    omega
  have hmem : 0 ∈ m ++ List.replicate (buffLen - m.length) 0 ↔ (m.length = buffLen → 0 ∈ m) := by
    rw [List.mem_append, List.mem_replicate]
    constructor
    · rintro (hm | ⟨hpos, -⟩) heq
      · exact hm
      · omega
    · intro himp
      by_cases heq : m.length = buffLen
      · exact Or.inl (himp heq)
      · exact Or.inr ⟨by omega, rfl⟩
  rw [← hmem]
  unfold EndsInside
  constructor
  · intro hends
    exact (length_cString_append_lt_iff _ []).mp (by rw [hlen]; exact hends [])
  · intro hzero beyond
    exact ((length_cString_append_lt_iff _ beyond).mpr hzero).trans_eq hlen

/-- What a caller makes of a returned message is what is asked of the message. -/
theorem fits_iff (u : Use) (hle : announced plan stream ≤ (body plan stream).length)
    (hbuff : announced plan stream ≤ buffLen) :
    u.Fits ((body plan stream).take (announced plan stream)) ↔ u.Bound plan stream := by
  have hlen : ((body plan stream).take (announced plan stream)).length = announced plan stream :=
    List.length_take_of_le hle
  have hends := endsInside_iff (hlen.trans_le hbuff)
  rw [hlen] at hends
  cases u with
  | accept =>
    show (_ → EndsInside _) ↔ (announced plan stream = buffLen → _)
    rw [hends]
    constructor
    · intro h heq
      rw [← heq]
      refine h (fun hnil => ?_) heq
      rw [hnil, heq] at hlen
      cases hlen
    · intro h _ heq
      rw [heq]
      exact h heq
  | request =>
    show _ ≤ sizeofFromTcp ↔ announced plan stream ≤ sizeofFromTcp
    rw [hlen]
  | subscriber =>
    refine iff_of_true ⟨fun hshort => hends.mpr fun heq => ?_, by decide⟩ trivial
    rw [hlen, heq] at hshort
    exact absurd hshort (by decide)

/-- **When a peer cannot lead the program out of its buffers.**  Of what it announces, it
delivers no more than the buffer holds; and what is delivered whole is, for the id of a
client, not a buffer full of non-zero bytes, and for a request, no longer than one. -/
theorem safe_iff (u : Use) (plan : RecvPlan) (stream : Bytes) : u.Safe plan stream ↔
    min (announced plan stream) (body plan stream).length ≤ buffLen ∧
      (announced plan stream ≤ (body plan stream).length → u.Bound plan stream) := by
  unfold Use.Safe
  rw [writesInside_iff]
  refine and_congr_right fun hmin => ?_
  constructor
  · intro h hle
    have hbuff : announced plan stream ≤ buffLen := by omega
    exact (fits_iff u hle hbuff).mp (h _ _ (mem_protoRecv_take hle hbuff))
  · intro h m rest hmem
    obtain ⟨happend, hlen, hbuff⟩ := mem_protoRecv_iff.mp hmem
    have hle : announced plan stream ≤ (body plan stream).length := by
      rw [← happend, List.length_append]
      omega
    have hm : m = (body plan stream).take (announced plan stream) := by
      rw [← happend, ← hlen, List.take_left']
      rfl
    rw [hm]
    exact (fits_iff u hle (hlen ▸ hbuff)).mpr (h hle)

/-- A request of 53 bytes is copied beyond its struct. -/
theorem not_safe_longRequest :
    ¬ Use.Safe .request ⟨8, fun _ => 64⟩ (encode 8 53 ++ List.replicate 53 1) := by
  rw [safe_iff]
  show ¬ (_ ∧ (_ → announced _ _ ≤ sizeofFromTcp))
  decide

end TemePCom.PubSub
