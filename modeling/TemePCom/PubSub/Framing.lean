/-
TemePCom/PubSub/Framing.lean

Messages over a stream: what a sequence of `proto_send`s writes and a sequence
of `proto_recv`s reads back.

The loops transfer a message whole whatever the single calls move.  The length
in front of it is moved by one call on either side, so the two ends agree only
where the `send` and the `recv` of a length happen to move the same number of
bytes, enough of them for the length.
-/
import TemePCom.PubSub.Proto

namespace TemePCom.PubSub

open StateTransition LittleEndian

/-! ### Successive calls -/

/-- One message: its length, and how it is sent and received. -/
structure Exchange where
  size : ℕ
  send : SendPlan
  recv : RecvPlan
  size_pos : 0 < size
  size_le : size ≤ buffLen

/-- How many bytes of the length are written, and how many are read. -/
def Exchange.written (x : Exchange) : ℕ := moved x.send.size 8
def Exchange.read (x : Exchange) : ℕ := moved x.recv.size 8

/-- Successive `proto_send`s. -/
def sendAll : List Exchange → List Bytes → Bytes
  | x :: xs, m :: ms => protoSend x.send m ++ sendAll xs ms
  | _, _ => []

/-- Successive `proto_recv`s. -/
def recvAll : List Exchange → Bytes → Part (Except Fault (List Bytes × Bytes))
  | [], stream => Part.some (.ok ([], stream))
  | x :: xs, stream => (protoRecv x.recv stream).bind fun
    | .error fault => Part.some (.error fault)
    | .ok (m, rest) => (recvAll xs rest).map fun r => r.map fun q => (m :: q.1, q.2)

/-- The messages arrive as they were sent. -/
def RoundTrip (xs : List Exchange) (msgs : List Bytes) : Prop :=
  ∃ rest, .ok (msgs, rest) ∈ recvAll xs (sendAll xs msgs)

theorem moved_pos (planned : ℕ) {n : ℕ} (h : 0 < n) : 0 < moved planned n := by
  unfold moved
  omega

theorem moved_le (planned n : ℕ) : moved planned n ≤ n := Nat.min_le_right _ _

theorem mem_recvAll_cons {x : Exchange} {xs : List Exchange} {stream rest : Bytes}
    {m : Bytes} {ms : List Bytes} :
    .ok (m :: ms, rest) ∈ recvAll (x :: xs) stream ↔
      ∃ mid, .ok (m, mid) ∈ protoRecv x.recv stream ∧ .ok (ms, rest) ∈ recvAll xs mid := by
  rw [recvAll, Part.mem_bind_iff]
  constructor
  · rintro ⟨fault | ⟨m', mid⟩, hm, hms⟩
    · cases Part.mem_some_iff.mp hms
    · obtain ⟨fault | ⟨ms', rest'⟩, hq, heq⟩ := (Part.mem_map_iff _).mp hms
      · cases heq
      · simp only [Except.map, Except.ok.injEq, Prod.mk.injEq, List.cons.injEq] at heq
        obtain ⟨⟨rfl, rfl⟩, rfl⟩ := heq
        exact ⟨mid, hm, hq⟩
  · rintro ⟨mid, hm, hms⟩
    exact ⟨.ok (m, mid), hm, (Part.mem_map_iff _).mpr ⟨.ok (ms, rest), hms, rfl⟩⟩

/-! ### The loops -/

/-- The loop of `proto_send` writes everything. -/
theorem sendLoop_eq (plan : ℕ → ℕ) (call : ℕ) (rest : Bytes) :
    sendLoop plan call rest = rest := by
  fun_induction sendLoop plan call rest with
  | case1 => rfl
  | case2 call rest h status ih => rw [ih, List.take_append_drop]

theorem protoSend_eq (plan : SendPlan) (buffer : Bytes) :
    protoSend plan buffer = encode (moved plan.size 8) buffer.length ++ buffer := by
  rw [protoSend, sendLoop_eq, take_encode (moved_le _ _)]

/-! ### One round -/

/-- What the next `recv` delivers. -/
def RecvState.status (calls : ℕ → ℕ) (s : RecvState) : ℕ :=
  min (moved (calls s.call) (s.size - s.received.length)) s.stream.length

/-- The variables after `n` bytes have been received. -/
def RecvState.after (n : ℕ) (s : RecvState) : RecvState where
  size := s.size
  received := s.received ++ s.stream.take n
  stream := s.stream.drop n
  call := s.call + 1

theorem recvRound_eq (calls : ℕ → ℕ) (s : RecvState) : recvRound calls s =
    if buffLen < s.received.length + s.status calls then .error .overflow
    else .ok (s.after (s.status calls)) := rfl

theorem RecvState.length_received_after (calls : ℕ → ℕ) (s : RecvState) :
    (s.after (s.status calls)).received.length = s.received.length + s.status calls := by
  have hle : s.status calls ≤ s.stream.length := Nat.min_le_right _ _
  rw [after, List.length_append, List.length_take, Nat.min_eq_left hle]

/-- What a step of the loop can do: go on inside the buffer, or leave it. -/
theorem recvStep_cases {calls : ℕ → ℕ} {s : RecvState} {r : Except Fault RecvState}
    (h : recvStep calls (.ok s) = some r) : s.received.length < s.size ∧
      (buffLen < s.received.length + s.status calls ∧ r = .error .overflow ∨
        s.received.length + s.status calls ≤ buffLen ∧ r = .ok (s.after (s.status calls))) := by
  simp only [recvStep] at h
  split_ifs at h with hlt
  have hround := Option.some.inj h
  rw [recvRound_eq] at hround
  refine ⟨hlt, ?_⟩
  split_ifs at hround with hover
  · exact Or.inl ⟨hover, hround.symm⟩
  · exact Or.inr ⟨not_lt.mp hover, hround.symm⟩

/-- What every round inside the buffer keeps holds as long as the loop stays inside. -/
theorem recvLoop_invariant {calls : ℕ → ℕ} (P : RecvState → Prop)
    (hround : ∀ s, P s → s.received.length < s.size →
      s.received.length + s.status calls ≤ buffLen → P (s.after (s.status calls)))
    {s t : RecvState} (hs : P s) (h : Reaches (recvStep calls) (.ok s) (.ok t)) : P t := by
  let Inv : Except Fault RecvState → Prop := fun r => ∀ t, r = .ok t → P t
  have hinv : Inv (.ok t) := by
    refine Loop.reaches_invariant Inv ?_ ?_ h
    · rintro (fault | u) r hu hstep t rfl
      · cases hstep
      obtain ⟨hlt, ⟨-, heq⟩ | ⟨hle, heq⟩⟩ := recvStep_cases hstep
      · cases heq
      · obtain rfl := Except.ok.inj heq
        exact hround u (hu u rfl) hlt hle
    · intro t ht
      obtain rfl := Except.ok.inj ht
      exact hs
  exact hinv t rfl

section Recv

variable {plan : RecvPlan} {stream m rest : Bytes}

/-- What the loop of `proto_recv` keeps: the received bytes are the start of the
stream, and not more than asked for. -/
structure Received (size : ℕ) (stream : Bytes) (s : RecvState) : Prop where
  size_eq : s.size = size
  append : s.received ++ s.stream = stream
  le : s.received.length ≤ size

theorem received_after {size : ℕ} {bytes : Bytes} (calls : ℕ → ℕ) {s : RecvState}
    (h : Received size bytes s) : Received size bytes (s.after (s.status calls)) where
  size_eq := h.size_eq
  append := by
    rw [RecvState.after, List.append_assoc, List.take_append_drop, h.append]
  le := by
    have hsize := h.size_eq
    have hle := h.le
    have hmoved := moved_le (calls s.call) (s.size - s.received.length)
    rw [RecvState.length_received_after, RecvState.status]
    omega

/-- A call delivers something as long as there is something left. -/
theorem RecvState.status_pos {calls : ℕ → ℕ} {s : RecvState} (hlt : s.received.length < s.size)
    (hstream : s.stream ≠ []) : 0 < s.status calls := by
  have hmoved := moved_pos (calls s.call) (Nat.sub_pos_of_lt hlt)
  have hpos := List.length_pos_iff.mpr hstream
  exact lt_min hmoved hpos

/-- Where the loop has stopped, nothing is missing. -/
theorem Received.full {size : ℕ} {bytes : Bytes} {calls : ℕ → ℕ} {s : RecvState}
    (h : Received size bytes s) (hhalt : recvStep calls (.ok s) = none) :
    s.received.length = size := by
  have hsize := h.size_eq
  refine le_antisymm h.le ?_
  by_contra hlt
  have hgo : s.received.length < s.size := by omega
  simp [recvStep, hgo] at hhalt

/-- **What `proto_recv` returns**: as many bytes as the part of the length it
has read says, from right behind that part. -/
theorem append_of_mem_protoRecv (h : .ok (m, rest) ∈ protoRecv plan stream) :
    m ++ rest = stream.drop (min (moved plan.size 8) stream.length) ∧
      m.length = value (stream.take (min (moved plan.size 8) stream.length)) := by
  unfold protoRecv at h
  obtain ⟨fault | s, hs, heq⟩ := (Part.mem_map_iff _).mp h
  · cases heq
  simp only [Except.map, Except.ok.injEq, Prod.mk.injEq] at heq
  obtain ⟨rfl, rfl⟩ := heq
  obtain ⟨hreach, hhalt⟩ := mem_eval.mp hs
  have hrec : Received (value (stream.take (min (moved plan.size 8) stream.length)))
      (stream.drop (min (moved plan.size 8) stream.length)) s :=
    recvLoop_invariant _ (fun _ ht _ _ => received_after plan.body ht)
      ⟨rfl, rfl, Nat.zero_le _⟩ hreach
  exact ⟨hrec.append, hrec.full hhalt⟩

/-- The loop ends once the announced bytes are there. -/
theorem recvLoop_ends (calls : ℕ → ℕ) (m rest : Bytes) (hbuff : m.length ≤ buffLen) :
    ∃ call, .ok ⟨m.length, m, rest, call⟩ ∈
      eval (recvStep calls) (.ok ⟨m.length, [], m ++ rest, 0⟩) := by
  let Inv : Except Fault RecvState → Prop := fun r =>
    ∃ s, r = .ok s ∧ Received m.length (m ++ rest) s
  -- what is still missing
  let μ : Except Fault RecvState → ℕ := fun r =>
    (r.toOption.map fun s => s.size - s.received.length).getD 0
  have hstep : ∀ r r', Inv r → recvStep calls r = some r' → Inv r' ∧ μ r' < μ r := by
    rintro _ r' ⟨s, rfl, hs⟩ hrr'
    have hnext := received_after calls hs
    have hlen := hnext.le
    rw [RecvState.length_received_after] at hlen
    obtain ⟨hlt, ⟨hover, -⟩ | ⟨-, rfl⟩⟩ := recvStep_cases hrr'
    · omega
    · have htotal := congrArg List.length hs.append
      rw [List.length_append, List.length_append] at htotal
      have hsize := hs.size_eq
      have hstream : s.stream ≠ [] := by
        intro hnil
        rw [hnil, List.length_nil] at htotal
        omega
      have hpos : 0 < s.status calls := RecvState.status_pos hlt hstream
      refine ⟨⟨_, rfl, hnext⟩, ?_⟩
      show s.size - (s.after _).received.length < s.size - s.received.length
      rw [RecvState.length_received_after]
      omega
  have hstart : Inv (.ok ⟨m.length, [], m ++ rest, 0⟩) := ⟨_, rfl, rfl, rfl, Nat.zero_le _⟩
  obtain ⟨_, hr, s, rfl, hs⟩ := Loop.exists_mem_eval Inv μ hstep hstart
  refine ⟨s.call, ?_⟩
  have hfull : s.received.length = m.length := hs.full (mem_eval.mp hr).2
  obtain ⟨hm, hrest⟩ := List.append_inj hs.append hfull
  have hstate : s = ⟨m.length, m, rest, s.call⟩ := by
    rw [← hs.size_eq, ← hm, ← hrest]
  rwa [← hstate]

/-- `proto_recv` returns a message whose length it has read, if it is there and
fits the buffer. -/
theorem mem_protoRecv {status : ℕ} (hstatus : min (moved plan.size 8) stream.length = status)
    (hbuff : m.length ≤ buffLen) (happend : m ++ rest = stream.drop status)
    (hsize : value (stream.take status) = m.length) :
    .ok (m, rest) ∈ protoRecv plan stream := by
  unfold protoRecv
  simp only [hstatus, hsize, ← happend]
  obtain ⟨call, hends⟩ := recvLoop_ends plan.body m rest hbuff
  exact (Part.mem_map_iff _).mpr ⟨_, hends, rfl⟩

end Recv

/-! ### One exchange -/

/-- The `recv` of the length takes what the `send` of it has written, and that
is enough for the length. -/
def Exchange.Aligned (x : Exchange) : Prop := x.written = x.read ∧ x.size < 256 ^ x.written

section Exchange

variable {x : Exchange} {m mid rest : Bytes}

theorem Exchange.written_pos (x : Exchange) : 0 < x.written := moved_pos _ (by decide)

theorem protoRecv_of_aligned (h : x.Aligned) (hm : m.length = x.size) :
    .ok (m, rest) ∈ protoRecv x.recv (protoSend x.send m ++ rest) := by
  obtain ⟨heq, hlt⟩ := h
  have hstream : protoSend x.send m ++ rest = encode x.written x.size ++ (m ++ rest) := by
    rw [protoSend_eq, hm, List.append_assoc]
    rfl
  have hstatus : min (moved x.recv.size 8) (protoSend x.send m ++ rest).length = x.written := by
    rw [hstream, List.length_append, length_encode, heq]
    exact Nat.min_eq_left (Nat.le_add_right _ _)
  refine mem_protoRecv hstatus (hm ▸ x.size_le) ?_ ?_
  · rw [hstream, List.drop_left' (length_encode _ _)]
  · rw [hstream, List.take_left' (length_encode _ _), value_encode, hm]
    exact Nat.mod_eq_of_lt hlt

/-- The message of the exchange's length that has all bits set. -/
def Exchange.ones (x : Exchange) : Bytes := List.replicate x.size 0xff

theorem Exchange.ones_eq (x : Exchange) :
    x.ones = 0xff :: List.replicate (x.size - 1) 0xff := by
  have hpos := x.size_pos
  rw [Exchange.ones, ← List.replicate_succ]
  congr
  omega

/-- With fewer bytes of the length, the message would start with one of them, which is
zero. -/
theorem Exchange.written_le {status : ℕ}
    (happend : x.ones ++ mid = (encode x.written x.size ++ (x.ones ++ rest)).drop status)
    (hlen : x.size = value ((encode x.written x.size ++ (x.ones ++ rest)).take status)) :
    x.written ≤ status := by
  by_contra hnot
  have hlt := not_le.mp hnot
  have htake : (encode x.written x.size ++ (x.ones ++ rest)).take status =
      encode status x.size := by
    rw [List.take_append_of_le_length (by rw [length_encode]; omega), take_encode hlt.le]
  rw [htake, value_encode] at hlen
  have hbound : x.size < 256 ^ status := hlen ▸ Nat.mod_lt _ (Nat.pow_pos (by decide))
  obtain ⟨d, hd⟩ := Nat.exists_eq_add_of_lt hlt
  have hdrop : (encode x.written x.size ++ (x.ones ++ rest)).drop status =
      encode (d + 1) (x.size / 256 ^ status) ++ (x.ones ++ rest) := by
    rw [List.drop_append_of_le_length (by rw [length_encode]; omega), drop_encode hlt.le]
    congr
    omega
  rw [hdrop, Nat.div_eq_of_lt hbound, x.ones_eq, encode] at happend
  simp at happend

/-- With more bytes, one of the message would count into its length. -/
theorem Exchange.le_written {status : ℕ}
    (hlen : x.size = value ((encode x.written x.size ++ (x.ones ++ rest)).take status)) :
    status ≤ x.written := by
  by_contra hnot
  have hsize : x.size ≤ 1600 := x.size_le
  obtain ⟨d, hd⟩ := Nat.exists_eq_add_of_lt (not_le.mp hnot)
  have htake : (encode x.written x.size ++ (x.ones ++ rest)).take status =
      encode x.written x.size ++
        0xff :: (List.replicate (x.size - 1) 0xff ++ rest).take d := by
    rw [hd, List.take_append, length_encode, List.take_of_length_le (by
      rw [length_encode]; omega), x.ones_eq]
    congr
    rw [show x.written + d + 1 - x.written = d + 1 by omega]
    rfl
  rw [htake] at hlen
  have hbig := pow_mul_le_value (encode x.written x.size)
    ((List.replicate (x.size - 1) 0xff ++ rest).take d) 0xff
  rw [← hlen, length_encode] at hbig
  have hpow : 256 ^ 1 ≤ 256 ^ x.written := Nat.pow_le_pow_right (by decide) x.written_pos
  have hff : (0xff : UInt8).toNat = 255 := rfl
  rw [hff] at hbig
  omega

/-- If a message of ones arrives, then its length was read where it ends. -/
theorem aligned_of_ones
    (h : .ok (x.ones, mid) ∈ protoRecv x.recv (protoSend x.send x.ones ++ rest)) :
    x.Aligned ∧ mid = rest := by
  have hstream : protoSend x.send x.ones ++ rest =
      encode x.written x.size ++ (x.ones ++ rest) := by
    rw [protoSend_eq, Exchange.ones, List.length_replicate, List.append_assoc]
    rfl
  obtain ⟨happend, hlen⟩ := append_of_mem_protoRecv h
  rw [hstream] at happend hlen
  have havail : (encode x.written x.size ++ (x.ones ++ rest)).length =
      x.written + (x.size + rest.length) := by
    simp [Exchange.ones]
  rw [havail] at happend hlen
  set status := min (moved x.recv.size 8) (x.written + (x.size + rest.length)) with hstatus
  have hlen' : x.size = value ((encode x.written x.size ++ (x.ones ++ rest)).take status) := by
    rw [← hlen, Exchange.ones, List.length_replicate]
  have heq : status = x.written := le_antisymm (x.le_written hlen') (x.written_le happend hlen')
  rw [heq, List.drop_left' (length_encode _ _)] at happend
  rw [heq, List.take_left' (length_encode _ _), value_encode] at hlen'
  have hpos := x.size_pos
  refine ⟨⟨?_, ?_⟩, (List.append_cancel_left happend)⟩
  · show x.written = moved x.recv.size 8
    omega
  · rw [hlen']
    exact Nat.mod_lt _ (Nat.pow_pos (by decide))

end Exchange

/-! ### The round trip -/

/-- Aligned exchanges transfer everything and leave nothing behind. -/
theorem recvAll_of_aligned {xs : List Exchange} {msgs : List Bytes}
    (h : ∀ x ∈ xs, x.Aligned) (hmsgs : msgs.map List.length = xs.map Exchange.size) :
    .ok (msgs, []) ∈ recvAll xs (sendAll xs msgs) := by
  induction xs generalizing msgs with
  | nil =>
    obtain rfl : msgs = [] := by simpa using hmsgs
    exact Part.mem_some _
  | cons x xs ih =>
    rcases msgs with - | ⟨m, msgs⟩
    · cases hmsgs
    · rw [List.map_cons, List.map_cons, List.cons.injEq] at hmsgs
      rw [sendAll]
      exact mem_recvAll_cons.mpr ⟨_, protoRecv_of_aligned (h x List.mem_cons_self) hmsgs.1,
        ih (fun y hy => h y (List.mem_cons_of_mem _ hy)) hmsgs.2⟩

/-- If messages of ones arrive, then the exchanges are aligned. -/
theorem aligned_of_roundTrip {xs : List Exchange} {rest : Bytes}
    (h : .ok (xs.map Exchange.ones, rest) ∈ recvAll xs (sendAll xs (xs.map Exchange.ones))) :
    ∀ x ∈ xs, x.Aligned := by
  induction xs with
  | nil => exact fun _ hx => nomatch hx
  | cons x xs ih =>
    rw [List.map_cons, sendAll] at h
    obtain ⟨mid, hm, hms⟩ := mem_recvAll_cons.mp h
    obtain ⟨hx, rfl⟩ := aligned_of_ones hm
    exact List.forall_mem_cons.mpr ⟨hx, ih hms⟩

/-- **When framing is a round trip**: all messages of the given lengths arrive
as they were sent iff every length is read by as many bytes as were written of
it, and fits these bytes. -/
theorem roundTrip_iff (xs : List Exchange) :
    (∀ msgs : List Bytes, msgs.map List.length = xs.map Exchange.size → RoundTrip xs msgs) ↔
      ∀ x ∈ xs, x.written = x.read ∧ x.size < 256 ^ x.written := by
  constructor
  · intro h
    obtain ⟨rest, hrest⟩ := h (xs.map Exchange.ones) (by
      simp [Function.comp_def, Exchange.ones])
    exact aligned_of_roundTrip hrest
  · exact fun h msgs hmsgs => ⟨[], recvAll_of_aligned h hmsgs⟩

/-- One byte, whose length is written at once and read in two parts. -/
def splitLength : Exchange where
  size := 1
  send := ⟨8, fun _ => 1⟩
  recv := ⟨2, fun _ => 1⟩
  size_pos := by decide
  size_le := by decide

/-- The rest of the length is taken for the message. -/
theorem not_roundTrip_splitLength : ¬ RoundTrip [splitLength] [[7]] := by
  rintro ⟨rest, h⟩
  rw [sendAll] at h
  obtain ⟨mid, hm, -⟩ := mem_recvAll_cons.mp h
  have happend := (append_of_mem_protoRecv hm).1
  rw [protoSend_eq] at happend
  have hbytes : (encode (moved splitLength.send.size 8) [(7 : UInt8)].length ++ [7] ++
      sendAll [] []).drop (min (moved splitLength.recv.size 8)
        (encode (moved splitLength.send.size 8) [(7 : UInt8)].length ++ [7] ++
          sendAll [] []).length) = [0, 0, 0, 0, 0, 0, 7] := by decide
  rw [hbytes] at happend
  simp at happend

end TemePCom.PubSub
