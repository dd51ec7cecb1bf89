/-
TemePCom/Router/ShortFrames.lean

Frames that are shorter than what the router reads of them.

If the extent of a packet is covered by the received bytes, the rest of the buffer
does not matter.  If it is not, two histories show it: before the frame the router
receives a frame of no protocol it knows, which does nothing but leave its 42 bytes
in the buffer, and one of the bytes the frame does not bring is chosen differently.
-/
import TemePCom.Router.Isolation

namespace TemePCom.Router

open StateTransition Runs

variable {env : Env} {ifs : Interfaces} {s s' s₁ s₂ : State} {f : Frame} {p q : Packet}

/-! ### Covered frames -/

/-- What the extent says of a packet. -/
theorem extent_cases (ifs : Interfaces) (p : Packet) :
    extent ifs p = 0 ∨
    (extent ifs p = 34 ∧ htons p.payload.ethHdr.etherType = ethertypeIp ∧
      isEchoForUs ifs p = false ∧ verifies p.payload.ipHdr = true) ∨
    (extent ifs p = 42 ∧ htons p.payload.ethHdr.etherType = ethertypeIp ∧
      isEchoForUs ifs p = true) ∨
    (extent ifs p = 42 ∧ htons p.payload.ethHdr.etherType ≠ ethertypeIp ∧
      htons p.payload.ethHdr.etherType = ethertypeArp ∧
      (ntohs p.payload.arpHdr.op = arpopRequest ∨ isReplyForUs ifs p = true)) := by
  unfold extent
  split_ifs with hip hecho hver harp hreact
  · exact Or.inr (Or.inr (Or.inl ⟨rfl, hip, hecho⟩))
  · exact Or.inr (Or.inl ⟨rfl, hip, by simpa using hecho, hver⟩)
  · exact Or.inl rfl
  · exact Or.inr (Or.inr (Or.inr ⟨rfl, hip, harp, hreact⟩))
  · exact Or.inl rfl
  · exact Or.inl rfl

/-- Of packets that agree on the received bytes, one that reacts to its IP header
carries the other with it. -/
theorem extent_eq_34 {n : ℕ} (h : Agree n p q) (hn : 34 ≤ n) (hq : extent ifs q < 42)
    (hp : extent ifs p = 34) : extent ifs q = 34 := by
  rcases extent_cases ifs p with h0 | ⟨-, hip, -, hver⟩ | ⟨h42, -⟩ | ⟨h42, -⟩
  · omega
  · rw [h.ethHdr (by omega)] at hip
    rw [h.ipHdr hn] at hver
    unfold extent at hq ⊢
    rw [if_pos hip] at hq ⊢
    split_ifs at hq ⊢ with hecho
    · omega
    · rfl
  · omega
  · omega

theorem extent_eq {n : ℕ} (h : Agree n p q) (hp : extent ifs p ≤ n) (hq : extent ifs q ≤ n) :
    extent ifs p = extent ifs q := by
  by_cases h42 : 42 ≤ n
  · exact h.extent h42
  rcases extent_cases ifs p with hp0 | ⟨hp34, -⟩ | ⟨hp42, -⟩ | ⟨hp42, -⟩
  · rcases extent_cases ifs q with hq0 | ⟨hq34, -⟩ | ⟨hq42, -⟩ | ⟨hq42, -⟩
    · rw [hp0, hq0]
    · rw [hq34]
      exact extent_eq_34 h.symm (by omega) (by omega) hq34
    · omega
    · omega
  · rw [hp34]
    exact (extent_eq_34 h (by omega) (by omega) hp34).symm
  · omega
  · omega

/-- Every parked packet is in the cell of `saved`. -/
theorem queue_savedAddr (h : Reached env s) : ∀ a ∈ s.noMacDestQueue, a = savedAddr := by
  obtain ⟨m, mem, hreach⟩ := h
  have hstep : ∀ s frame s', (∀ a ∈ s.noMacDestQueue, a = savedAddr) → Next env s frame s' →
      ∀ a ∈ s'.noMacDestQueue, a = savedAddr := ?_
  · exact hreach.invariant hstep fun a ha => absurd ha List.not_mem_nil
  intro s frame s' hs hnext
  rcases next_cases hnext with ⟨-, r, -, -, rfl⟩ | ⟨-, q, hq, rfl⟩ | ⟨-, -, rfl⟩
  · obtain ⟨m, sent, - | p⟩ := r
    · exact hs
    · intro a ha
      rcases List.mem_append.mp ha with hold | hnew
      · exact hs a hold
      · exact List.mem_singleton.mp hnew
  · -- `search_queue` has emptied the queue
    intro a ha
    replace ha : a ∈ q.noMacDestQueue := ha
    rw [searchQueue_empties hq] at ha
    cases ha
  · exact hs

theorem queue_eq_of_waiting (h₁ : ∀ a ∈ s₁.noMacDestQueue, a = savedAddr)
    (h₂ : ∀ a ∈ s₂.noMacDestQueue, a = savedAddr) (h : s₁.waiting = s₂.waiting) :
    s₁.noMacDestQueue = s₂.noMacDestQueue ∧
      ∀ a ∈ s₁.noMacDestQueue, (s₁.mem a).view = (s₂.mem a).view := by
  have hlen : s₁.noMacDestQueue.length = s₂.noMacDestQueue.length := by
    simpa [State.waiting] using congrArg List.length h
  have hqueue : s₁.noMacDestQueue = s₂.noMacDestQueue := by
    rw [List.eq_replicate_iff.mpr ⟨rfl, h₁⟩, List.eq_replicate_iff.mpr ⟨rfl, h₂⟩, hlen]
  refine ⟨hqueue, ?_⟩
  unfold State.waiting at h
  rw [← hqueue] at h
  exact List.map_inj_left.mp h

theorem dependsOnFrame_of_covered (h : Covered env.ifs f) : DependsOnFrame env f := by
  intro s₁ s₂ hr₁ hr₂ htable hwaiting
  have h₁ := queue_savedAddr hr₁
  have h₂ := queue_savedAddr hr₂
  have hagree := Agree.getPacket s₁.m s₂.m f
  have hn₁ := h s₁.m
  have hn₂ : extent env.ifs (getPacket s₂.m f) ≤ (getPacket s₁.m f).len := h s₂.m
  have hext := extent_eq hagree hn₁ hn₂
  rcases extent_cases env.ifs (getPacket s₁.m f) with hp | ⟨hp, hip, hecho, hver⟩ |
    ⟨hp, hip, hecho⟩ | ⟨hp, hip, harp, hreact⟩
  · -- discarded
    rw [treatment_of_extent_zero h₁ hp, treatment_of_extent_zero h₂ (hext ▸ hp), htable,
      hwaiting]
  · -- treated by the IP header
    have hip₂ : IsIp s₂ f := by rw [IsIp, ← hagree.ethHdr (by omega)]; exact hip
    have hecho₂ : isEchoForUs env.ifs (getPacket s₂.m f) = false := by
      rcases extent_cases env.ifs (getPacket s₂.m f) with hq | ⟨-, -, hq, -⟩ | ⟨hq, -⟩ | ⟨hq, -⟩
      · omega
      · exact hq
      · omega
      · omega
    rw [treatment_of_isIp h₁ hip, treatment_of_isIp h₂ hip₂, htable, hwaiting,
      effect_congr hagree (by omega) le_rfl _ hecho hecho₂ hver]
  · -- an echo request
    have hip₂ : IsIp s₂ f := by rw [IsIp, ← hagree.ethHdr (by omega)]; exact hip
    have hecho₂ : isEchoForUs env.ifs (getPacket s₂.m f) = true := by
      rw [← hagree.isEchoForUs (by omega)]
      exact hecho
    rw [treatment_of_isIp h₁ hip, treatment_of_isIp h₂ hip₂, htable, hwaiting,
      ipBranch_of_echo env _ hecho, ipBranch_of_echo env _ hecho₂]
    simp only [Except.map, IpResult.effect, sendIcmp_congr hagree (by omega)]
  · have harp₂ : IsArp s₂ f := by
      rw [IsArp, ← hagree.ethHdr (by omega)]
      exact ⟨hip, harp⟩
    have hhdr := hagree.arpHdr (by omega)
    by_cases hreq : ntohs (getPacket s₁.m f).payload.arpHdr.op = arpopRequest
    · rw [treatment_of_request ⟨hip, harp⟩ hreq, treatment_of_request harp₂ (hhdr ▸ hreq),
        htable, hwaiting, arpReplier_congr hagree (by omega)]
    · have hrep := hreact.resolve_left hreq
      have hrep₂ : isReplyForUs env.ifs (getPacket s₂.m f) = true := by
        rw [← hagree.isReplyForUs (by omega)]
        exact hrep
      obtain ⟨hqueue, hviews⟩ := queue_eq_of_waiting h₁ h₂ hwaiting
      have hlearned : learned s₂.arpTable (getPacket s₂.m f) =
          learned s₁.arpTable (getPacket s₁.m f) := by
        rw [learned, learned, hhdr, htable]
      rw [treatment_of_reply ⟨hip, harp⟩ hreq hrep, treatment_of_reply harp₂ (hhdr ▸ hreq) hrep₂,
        hlearned, ← hqueue]
      exact searchQueue_congr _ hviews

/-! ### Leaving bytes behind -/

/-- A frame of an unknown protocol, with the bytes of a buffer behind its Ethernet
header. -/
def filler (b : Buffer) : Frame where
  interface := 0
  bytes := List.replicate 12 0 ++ [0xff, 0xff] ++ b.slice 14 28

theorem length_filler (b : Buffer) : (filler b).bytes.length = 42 := by
  simp [filler]

theorem payload_filler (m : Packet) (b : Buffer) {i : ℕ} (hi : 14 ≤ i) (h42 : i < 42) :
    (getPacket m (filler b)).payload i = b i := by
  rw [getPacket_of_le (show (filler b).bytes.length ≤ maxLen by
    rw [length_filler]
    decide)]
  show Buffer.store m.payload 0 (filler b).bytes i = b i
  rw [Buffer.store_zero_apply (by rw [length_filler]; exact h42)]
  simp only [filler]
  rw [List.getElem_append_right (by simpa using hi)]
  simp only [Buffer.slice, List.getElem_map, List.getElem_range]
  congr 1
  simp
  omega

theorem etherType_filler (m : Packet) (b : Buffer) :
    htons (getPacket m (filler b)).payload.ethHdr.etherType = 0xffff := by
  show ntohs (load16 0xff 0xff) = 0xffff
  decide

/-- The router only reads it. -/
theorem next_filler (env : Env) (s : State) (b : Buffer) :
    Next env s (filler b) { s with m := getPacket s.m (filler b) } := by
  have hip : ¬ htons (getPacket s.m (filler b)).payload.ethHdr.etherType = ethertypeIp := by
    rw [etherType_filler]
    decide
  have harp : ¬ htons (getPacket s.m (filler b)).payload.ethHdr.etherType = ethertypeArp := by
    rw [etherType_filler]
    decide
  refine ⟨[], ?_⟩
  simp only [iteration, if_neg hip, if_neg harp, Part.mem_some_iff]

/-- The router after one frame that it only reads. -/
def afterFrame (m : Packet) (frame : Frame) : State :=
  { State.start m fun _ => m with m := getPacket m frame }

theorem reached_filler (env : Env) (m : Packet) (b : Buffer) :
    Reached env (afterFrame m (filler b)) :=
  ⟨m, fun _ => m, _, .cons (next_filler env (State.start m fun _ => m) b) (.nil _)⟩

/-- Behind the bytes of the next frame are those of the filler. -/
theorem agree_filler {m : Packet} {b : Buffer} (h14 : 14 ≤ (getPacket m f).len)
    (hb : ∀ i < (getPacket m f).len, b i = (getPacket m f).payload i) :
    Agree 42 (getPacket (afterFrame m (filler b)).m f) ⟨(getPacket m f).len, b, f.interface⟩ where
  len := rfl
  interface := rfl
  payload i hi := by
    by_cases hlt : i < (getPacket m f).len
    · rw [(Agree.getPacket m (afterFrame m (filler b)).m f).symm.payload i hlt]
      exact (hb i hlt).symm
    · show Buffer.store _ 0 (f.bytes.take maxLen) i = b i
      have hlen : (getPacket m f).len = (f.bytes.take maxLen).length := rfl
      rw [Buffer.store, if_neg (by omega)]
      exact payload_filler m b (by omega) hi

theorem arpTable_afterFrame (m : Packet) (frame : Frame) :
    (afterFrame m frame).arpTable = [] := rfl

theorem waiting_afterFrame (m : Packet) (frame : Frame) : (afterFrame m frame).waiting = [] := rfl

/-- Two histories of one frame each. -/
theorem DependsOnFrame.afterFrame (h : DependsOnFrame env f) {m : Packet} {g g' : Frame}
    (hg : Reached env (afterFrame m g)) (hg' : Reached env (afterFrame m g')) :
    treatment env (afterFrame m g) f = treatment env (afterFrame m g') f := by
  refine h _ _ hg hg' ?_ ?_
  · rw [arpTable_afterFrame, arpTable_afterFrame]
  · rw [waiting_afterFrame, waiting_afterFrame]

theorem queue_afterFrame (m : Packet) (frame : Frame) :
    ∀ a ∈ (afterFrame m frame).noMacDestQueue, a = savedAddr :=
  fun _ ha => absurd ha List.not_mem_nil

/-! ### Bytes that make a difference -/

theorem load16_right_injective (a : UInt8) : Function.Injective (load16 a) := by
  intro x y h
  have hnat := congrArg UInt16.toNat h
  rw [load16_toNat, load16_toNat] at hnat
  exact UInt8.toNat_inj.mp (by omega)

theorem load32_right_injective (a b c : UInt8) : Function.Injective (load32 a b c) := by
  intro x y h
  have hnat := congrArg UInt32.toNat h
  rw [load32_toNat, load32_toNat] at hnat
  exact UInt8.toNat_inj.mp (by omega)

theorem add_one_ne (x : UInt8) : x + 1 ≠ x := by
  intro h
  have hnat := congrArg UInt8.toNat h
  have hlt := x.toNat_lt
  rw [UInt8.toNat_add, UInt8.toNat_one] at hnat
  omega

theorem payload_of_sendPacket_eq (h : sendPacket p = sendPacket q) (hlen : p.len = q.len) :
    ∀ i < p.len, p.payload i = q.payload i := by
  intro i hi
  have hget := congrArg (fun frame => frame.bytes[i]?) h
  simp only [sendPacket, Buffer.slice, List.getElem?_map, Nat.zero_add] at hget
  rw [List.getElem?_range hi, List.getElem?_range (hlen ▸ hi)] at hget
  exact Option.some.inj hget

/-- An echo reply carries the sequence number of the request. -/
theorem sequence_of_sendIcmp_eq (h : sendIcmp ifs p icmpEchoreply = sendIcmp ifs q icmpEchoreply) :
    p.payload.icmpHdr.sequence = q.payload.icmpHdr.sequence := by
  have hseq : ∀ r : Packet, (icmpReply ifs r icmpEchoreply).payload.icmpHdr.sequence =
      r.payload.icmpHdr.sequence := by
    intro r
    simp only [icmpReply, icmpHdrSetter, icmpHdr_setIcmpHdr]
    rfl
  rw [← hseq p, ← hseq q, icmpHdr_congr (payload_of_sendPacket_eq h rfl)]

/-- An ARP reply carries the address that was asked for. -/
theorem tpa_of_arpReplier_eq (h : arpReplier ifs p = arpReplier ifs q) :
    p.payload.arpHdr.tpa = q.payload.arpHdr.tpa := by
  unfold arpReplier at h
  have hhdr := arpHdr_congr (payload_of_sendPacket_eq h rfl)
  rw [arpHdr_setArpHdr, arpHdr_setArpHdr] at hhdr
  exact congrArg ArpHeader.spa hhdr

/-- At most one value of the last byte makes a header verify. -/
theorem last_byte_of_verifies {b c : Buffer} (h : ∀ i < 33, b i = c i)
    (hb : verifies b.ipHdr = true) (hc : verifies c.ipHdr = true) : b 33 = c 33 := by
  have hsum : ∀ d : Buffer, OnesComplement.wordSum d.ipHdr.bytes =
      OnesComplement.wordSum (d.slice 14 18) + (256 * (d 32).toNat + (d 33).toNat) := by
    intro d
    rw [bytes_ipHdr]
    show OnesComplement.wordSum (d.slice 14 18 ++ [d 32, d 33]) = _
    rw [OnesComplement.wordSum_append _ (by simp)]
    rfl
  have hslice : b.slice 14 18 = c.slice 14 18 := by
    unfold Buffer.slice
    refine List.map_congr_left fun i hi => h _ ?_
    have := List.mem_range.mp hi
    omega
  rw [verifies_iff, hsum] at hb hc
  rw [hslice, h 32 (by omega)] at hb
  have hb33 := (b 33).toNat_lt
  have hc33 := (c 33).toNat_lt
  exact UInt8.toNat_inj.mp (by omega)

/-! ### Frames that are not covered -/

section Uncovered

variable {m : Packet} (h : DependsOnFrame env f) (h14 : 14 ≤ (getPacket m f).len)
include h h14

/-- The bytes that are not received, chosen in two ways. -/
theorem exists_two_fillers (b : Buffer)
    (hb : ∀ i < (getPacket m f).len, b i = (getPacket m f).payload i) :
    ∃ s s', treatment env s f = treatment env s' f ∧ s.arpTable = [] ∧ s'.arpTable = [] ∧
      s.noMacDestQueue = [] ∧ s'.noMacDestQueue = [] ∧
      Agree 42 (getPacket s.m f) (getPacket m f) ∧
      Agree 42 (getPacket s'.m f) ⟨(getPacket m f).len, b, f.interface⟩ :=
  ⟨afterFrame m (filler (getPacket m f).payload), afterFrame m (filler b),
    h.afterFrame (reached_filler env m _) (reached_filler env m _), rfl, rfl, rfl, rfl,
    agree_filler h14 fun _ _ => rfl, agree_filler h14 hb⟩

/-- The byte at offset 41 is not received. -/
theorem exists_last_byte (h42 : (getPacket m f).len < 42) :
    ∃ s s', treatment env s f = treatment env s' f ∧ s.arpTable = [] ∧ s'.arpTable = [] ∧
      s.noMacDestQueue = [] ∧ s'.noMacDestQueue = [] ∧
      Agree 42 (getPacket s.m f) (getPacket m f) ∧
      Agree 41 (getPacket s'.m f) (getPacket m f) ∧
      (getPacket s'.m f).payload 41 ≠ (getPacket m f).payload 41 := by
  have hchanged : ∀ i < 41, Function.update (getPacket m f).payload 41
      ((getPacket m f).payload 41 + 1) i = (getPacket m f).payload i := fun i hi =>
    Function.update_of_ne (by omega) _ _
  obtain ⟨s, s', htreat, hs, hs', hq, hq', hx, hy⟩ :=
    exists_two_fillers h h14 _ fun i hi => hchanged i (by omega)
  refine ⟨s, s', htreat, hs, hs', hq, hq', hx, ⟨rfl, rfl, fun i hi => ?_⟩, ?_⟩
  · exact (hy.payload i (by omega)).trans (hchanged i hi)
  · have hself : Function.update (getPacket m f).payload 41 ((getPacket m f).payload 41 + 1) 41 =
        (getPacket m f).payload 41 + 1 := Function.update_self ..
    rw [hy.payload 41 (by omega)]
    exact fun heq => add_one_ne _ (hself.symm.trans heq)

theorem covered_of_echo (hip : htons (getPacket m f).payload.ethHdr.etherType = ethertypeIp)
    (hecho : isEchoForUs env.ifs (getPacket m f) = true) : 42 ≤ (getPacket m f).len := by
  by_contra hn
  obtain ⟨s, s', htreat, hs, hs', hq, hq', hx, hy, hne⟩ := exists_last_byte h h14 (by omega)
  have hipx : IsIp s f := by rw [IsIp, hx.ethHdr (by omega)]; exact hip
  have hipy : IsIp s' f := by rw [IsIp, hy.ethHdr (by omega)]; exact hip
  have hechox : isEchoForUs env.ifs (getPacket s.m f) = true := by
    rw [hx.isEchoForUs (by omega)]
    exact hecho
  have hechoy : isEchoForUs env.ifs (getPacket s'.m f) = true := by
    rw [hy.isEchoForUs (by omega)]
    exact hecho
  -- the sequence number comes back
  rw [treatment_of_isIp (by rw [hq]; simp) hipx, treatment_of_isIp (by rw [hq']; simp) hipy,
    ipBranch_of_echo env _ hechox, ipBranch_of_echo env _ hechoy] at htreat
  have hsent := Except.ok.inj (Part.some_inj.mp htreat)
  simp only [IpResult.effect, Prod.mk.injEq, List.cons.injEq, and_true] at hsent
  have hseq : load16 _ _ = load16 _ _ := sequence_of_sendIcmp_eq hsent.2.2
  rw [hx.payload 40 (by omega), hy.payload 40 (by omega)] at hseq
  exact hne ((load16_right_injective _ hseq).symm.trans (hx.payload 41 (by omega)))

theorem covered_of_arp (hip : htons (getPacket m f).payload.ethHdr.etherType ≠ ethertypeIp)
    (harp : htons (getPacket m f).payload.ethHdr.etherType = ethertypeArp)
    (hreact : ntohs (getPacket m f).payload.arpHdr.op = arpopRequest ∨
      isReplyForUs env.ifs (getPacket m f) = true) : 42 ≤ (getPacket m f).len := by
  by_contra hn
  obtain ⟨s, s', htreat, hs, hs', hq, hq', hx, hy, hne⟩ := exists_last_byte h h14 (by omega)
  have harpx : IsArp s f := by rw [IsArp, hx.ethHdr (by omega)]; exact ⟨hip, harp⟩
  have harpy : IsArp s' f := by rw [IsArp, hy.ethHdr (by omega)]; exact ⟨hip, harp⟩
  have hopx : (getPacket s.m f).payload.arpHdr.op = (getPacket m f).payload.arpHdr.op := by
    rw [hx.arpHdr le_rfl]
  have hopy : (getPacket s'.m f).payload.arpHdr.op = (getPacket m f).payload.arpHdr.op := by
    show load16 _ _ = load16 _ _
    rw [hy.payload 20 (by omega), hy.payload 21 (by omega)]
  have htpa : (getPacket s'.m f).payload.arpHdr.tpa ≠ (getPacket m f).payload.arpHdr.tpa := by
    intro heq
    replace heq : load32 _ _ _ _ = load32 _ _ _ _ := heq
    rw [hy.payload 38 (by omega), hy.payload 39 (by omega), hy.payload 40 (by omega)] at heq
    exact hne (load32_right_injective _ _ _ heq)
  by_cases hreq : ntohs (getPacket m f).payload.arpHdr.op = arpopRequest
  · -- the address that was asked for comes back
    rw [treatment_of_request harpx (hopx ▸ hreq), treatment_of_request harpy (hopy ▸ hreq)]
      at htreat
    have hsent := Except.ok.inj (Part.some_inj.mp htreat)
    simp only [Prod.mk.injEq, List.cons.injEq, and_true] at hsent
    refine htpa ((tpa_of_arpReplier_eq hsent.2.2).symm.trans ?_)
    rw [hx.arpHdr le_rfl]
  · -- a reply that may be for this router or not
    have hrep := hreact.resolve_left hreq
    have hrepx : isReplyForUs env.ifs (getPacket s.m f) = true := by
      rw [hx.isReplyForUs le_rfl]
      exact hrep
    have hforus : (getPacket m f).payload.arpHdr.tpa = env.ifs.ip (getPacket m f).interface := by
      simp only [isReplyForUs, decide_eq_true_eq] at hrep
      exact hrep.2.2
    have hexty : extent env.ifs (getPacket s'.m f) = 0 := by
      unfold extent
      rw [if_neg harpy.1, if_pos harpy.2, if_neg]
      rintro (hreqy | hrepy)
      · exact hreq (hopy ▸ hreqy)
      · simp only [isReplyForUs, decide_eq_true_eq] at hrepy
        exact htpa (hrepy.2.2.trans hforus.symm)
    rw [treatment_of_reply harpx (hopx ▸ hreq) hrepx, hq, searchQueue_nil,
      treatment_of_extent_zero (by rw [hq']; simp) hexty, Part.map_some] at htreat
    have htable := congrArg Prod.fst (Except.ok.inj (Part.some_inj.mp htreat))
    rw [hs'] at htable
    exact absurd htable (by simp [SearchState.observe, learned, addArpEntry])

theorem covered_of_header (hip : htons (getPacket m f).payload.ethHdr.etherType = ethertypeIp)
    (hecho : isEchoForUs env.ifs (getPacket m f) = false)
    (hver : verifies (getPacket m f).payload.ipHdr = true) : 34 ≤ (getPacket m f).len := by
  by_contra hn
  -- the last byte of the header is another one, and the packet no echo request
  set b := Function.update (Function.update (getPacket m f).payload 33
    ((getPacket m f).payload 33 + 1)) 34 0 with hb
  have hbefore : ∀ i < 33, b i = (getPacket m f).payload i := fun i hi => by
    rw [hb, Function.update_of_ne (by omega), Function.update_of_ne (by omega)]
  have hlast : b 33 = (getPacket m f).payload 33 + 1 := by
    rw [hb, Function.update_of_ne (by omega), Function.update_self]
  obtain ⟨s, s', htreat, hs, hs', hq, hq', hx, hy⟩ :=
    exists_two_fillers h h14 b fun i hi => hbefore i (by omega)
  have hipx : IsIp s f := by rw [IsIp, hx.ethHdr (by omega)]; exact hip
  have hechox : isEchoForUs env.ifs (getPacket s.m f) = false := by
    rw [hx.isEchoForUs (by omega)]
    exact hecho
  have hverx : verifies (getPacket s.m f).payload.ipHdr = true := by
    rw [hx.ipHdr (by omega)]
    exact hver
  have hexty : extent env.ifs (getPacket s'.m f) = 0 := by
    have hipy : htons (getPacket s'.m f).payload.ethHdr.etherType = ethertypeIp := by
      rw [hy.ethHdr (by omega), ethHdr_congr fun i hi => hbefore i (by omega)]
      exact hip
    have hechoy : ¬ isEchoForUs env.ifs (getPacket s'.m f) = true := by
      have hzero : b 34 = 0 := Function.update_self ..
      have htype : (getPacket s'.m f).payload.icmpHdr.type = 0 :=
        (hy.payload 34 (by omega)).trans hzero
      simp [isEchoForUs, htype, icmpEcho]
    have hvery : ¬ verifies (getPacket s'.m f).payload.ipHdr = true := by
      rw [hy.ipHdr (by omega)]
      intro hvery
      exact add_one_ne _ (hlast.symm.trans (last_byte_of_verifies hbefore hvery hver))
    rw [extent, if_pos hipy, if_neg hechoy, if_neg hvery]
  -- one packet is discarded, the other has an effect
  rw [treatment_of_isIp (by rw [hq]; simp) hipx,
    treatment_of_extent_zero (by rw [hq']; simp) hexty] at htreat
  replace htreat := Part.some_inj.mp htreat
  rcases hr : ipBranch env s.arpTable (getPacket s.m f) with fault | r
  · rw [hr] at htreat
    cases htreat
  · rw [hr] at htreat
    have hsent : r.sent = [] := congrArg (fun e => e.2.2) (Except.ok.inj htreat)
    rcases ipBranch_cases hr with ⟨he, -⟩ | ⟨-, hv, -⟩ | ⟨-, -, -, rfl⟩ | ⟨-, -, rfl⟩ |
      ⟨-, _, -, -, rfl⟩ | ⟨-, _, _, -, -, rfl⟩
    · cases hechox.symm.trans he
    · cases hverx.symm.trans hv
    all_goals cases hsent

end Uncovered

/-! ### Frames without an Ethernet type -/

/-- A broken ARP request. -/
def requestFrame : Frame where
  interface := 0
  bytes := List.replicate 12 0 ++ [8, 6, 0, 0, 0, 0, 0, 0, 0, 1] ++ List.replicate 20 0

theorem payload_requestFrame (m : Packet) {i : ℕ} (hi : i < 42) :
    (getPacket m requestFrame).payload i = requestFrame.bytes.getD i 0 := by
  show Buffer.store m.payload 0 requestFrame.bytes i = _
  rw [Buffer.store_zero_apply (show i < requestFrame.bytes.length from hi),
    List.getD_eq_getElem _ _ (show i < requestFrame.bytes.length from hi)]

/-- The router only answers it. -/
theorem next_requestFrame (env : Env) (s : State) :
    Next env s requestFrame { s with m := getPacket s.m requestFrame } := by
  have htype : htons (getPacket s.m requestFrame).payload.ethHdr.etherType = ethertypeArp := by
    show ntohs (load16 8 6) = ethertypeArp
    decide
  have hip : ¬ htons (getPacket s.m requestFrame).payload.ethHdr.etherType = ethertypeIp := by
    rw [htype]
    decide
  have hreq : ntohs (getPacket s.m requestFrame).payload.arpHdr.op = arpopRequest := by
    show ntohs (load16 0 1) = arpopRequest
    decide
  refine ⟨[arpReplier env.ifs (getPacket s.m requestFrame)], ?_⟩
  simp only [iteration, if_neg hip, if_pos htype, arpHandler, if_pos hreq, Part.mem_some_iff]

theorem reached_requestFrame (env : Env) (m : Packet) :
    Reached env (afterFrame m requestFrame) :=
  ⟨m, fun _ => m, _, .cons (next_requestFrame env (State.start m fun _ => m)) (.nil _)⟩

/-- Behind the received bytes nothing has changed. -/
theorem payload_getPacket_of_le (m m' : Packet) {i : ℕ} (h : (getPacket m' f).len ≤ i) :
    (getPacket m f).payload i = m.payload i := by
  show Buffer.store m.payload 0 (f.bytes.take maxLen) i = _
  have hlen : (getPacket m' f).len = (f.bytes.take maxLen).length := rfl
  rw [Buffer.store, if_neg (by omega)]

theorem ntohs_load16_toNat (a b : UInt8) :
    (ntohs (load16 a b)).toNat = 256 * a.toNat + b.toNat := by
  have ha := a.toNat_lt
  have hb := b.toNat_lt
  rw [ntohs_toNat, load16_toNat]
  omega

/-- The type of a packet the router reacts to begins with an 8. -/
theorem type_of_extent {ifs : Interfaces} {p : Packet} (h : extent ifs p ≠ 0) :
    p.payload 12 = 8 := by
  have hhost : htons p.payload.ethHdr.etherType = ethertypeIp ∨
      htons p.payload.ethHdr.etherType = ethertypeArp := by
    rcases extent_cases ifs p with h0 | ⟨-, hip, -⟩ | ⟨-, hip, -⟩ | ⟨-, -, harp, -⟩
    · exact absurd h0 h
    · exact Or.inl hip
    · exact Or.inl hip
    · exact Or.inr harp
  have hval : (ntohs (load16 (p.payload 12) (p.payload 13))).toNat = 2048 ∨
      (ntohs (load16 (p.payload 12) (p.payload 13))).toNat = 2054 :=
    hhost.imp (congrArg UInt16.toNat) (congrArg UInt16.toNat)
  rw [ntohs_load16_toNat] at hval
  have h13 := (p.payload 13).toNat_lt
  apply UInt8.toNat_inj.mp
  show (p.payload 12).toNat = 8
  omega

/-- A type that ends in 255 is neither of the two. -/
theorem extent_of_type {ifs : Interfaces} {p : Packet} (h : p.payload 13 = 255) :
    extent ifs p = 0 := by
  have hval : (ntohs (load16 (p.payload 12) (p.payload 13))).toNat =
      256 * (p.payload 12).toNat + 255 := by
    rw [ntohs_load16_toNat, h]
    rfl
  have hip : ¬ htons p.payload.ethHdr.etherType = ethertypeIp := fun heq => by
    replace heq : (ntohs (load16 (p.payload 12) (p.payload 13))).toNat = 2048 :=
      congrArg UInt16.toNat heq
    omega
  have harp : ¬ htons p.payload.ethHdr.etherType = ethertypeArp := fun heq => by
    replace heq : (ntohs (load16 (p.payload 12) (p.payload 13))).toNat = 2054 :=
      congrArg UInt16.toNat heq
    omega
  rw [extent, if_neg hip, if_neg harp]

/-- A packet that agrees with the ARP request from its type on is one. -/
theorem request_of_payload {p : Packet}
    (h : ∀ i < 42, 12 ≤ i → p.payload i = requestFrame.bytes.getD i 0) :
    htons p.payload.ethHdr.etherType = ethertypeArp ∧
      ntohs p.payload.arpHdr.op = arpopRequest := by
  constructor
  · show ntohs (load16 (p.payload 12) (p.payload 13)) = _
    rw [h 12 (by decide) le_rfl, h 13 (by decide) (by decide)]
    decide
  · show ntohs (load16 (p.payload 20) (p.payload 21)) = _
    rw [h 20 (by decide) (by decide), h 21 (by decide) (by decide)]
    decide

theorem extent_zero_of_short {m : Packet} (h : DependsOnFrame env f)
    (h14 : (getPacket m f).len < 14) : extent env.ifs (getPacket m f) = 0 := by
  by_contra hext
  set b := (getPacket m f).payload with hb
  -- the first byte of the type is received only if it is that of IP and ARP
  have hrequest : ∀ i < 42, 12 ≤ i → (getPacket (afterFrame m requestFrame).m f).payload i =
      requestFrame.bytes.getD i 0 := by
    intro i hi h12
    by_cases hn : (getPacket m f).len ≤ i
    · exact (payload_getPacket_of_le _ m hn).trans (payload_requestFrame m hi)
    · obtain rfl : i = 12 := by omega
      exact ((Agree.getPacket (afterFrame m requestFrame).m m f).payload 12
        (show 12 < (getPacket m f).len by omega)).trans (type_of_extent hext)
  obtain ⟨htype, hop⟩ := request_of_payload hrequest
  have harp : IsArp (afterFrame m requestFrame) f := ⟨by rw [htype]; decide, htype⟩
  -- behind the filler the second byte of the type is none of the two
  have hfiller : extent env.ifs (getPacket (afterFrame m (filler b)).m f) = 0 :=
    extent_of_type
      ((payload_getPacket_of_le _ m (show (getPacket m f).len ≤ 13 by omega)).trans rfl)
  have htreat := h.afterFrame (reached_requestFrame env m) (reached_filler env m b)
  rw [treatment_of_request harp hop,
    treatment_of_extent_zero (queue_afterFrame m _) hfiller] at htreat
  have hsent := congrArg (fun e => e.2.2) (Except.ok.inj (Part.some_inj.mp htreat))
  cases hsent

/-! ### The condition -/

/-- **When the treatment of a frame depends on that frame only**: iff, whatever
completes the frame in the buffer, the bytes the router reacts to are among the
received ones. -/
theorem dependsOnFrame_iff (env : Env) (f : Frame) :
    DependsOnFrame env f ↔ Covered env.ifs f := by
  refine ⟨fun h m => ?_, dependsOnFrame_of_covered⟩
  by_cases h14 : (getPacket m f).len < 14
  · rw [extent_zero_of_short h h14]
    exact Nat.zero_le _
  · rw [Nat.not_lt] at h14
    rcases extent_cases env.ifs (getPacket m f) with h0 | ⟨h34, hip, hecho, hver⟩ |
      ⟨h42, hip, hecho⟩ | ⟨h42, hip, harp, hreact⟩
    · rw [h0]
      exact Nat.zero_le _
    · rw [h34]
      exact covered_of_header h h14 hip hecho hver
    · rw [h42]
      exact covered_of_echo h h14 hip hecho
    · rw [h42]
      exact covered_of_arp h h14 hip harp hreact

/-- An ARP request that is cut behind its operation. -/
def cutRequest : Frame where
  interface := 0
  bytes := requestFrame.bytes.take 22

/-- The answer to it is made of the bytes that are in the buffer. -/
theorem not_dependsOnFrame_cutRequest : cutRequest.bytes.length ≤ maxLen ∧
    ¬ DependsOnFrame twoRoutes cutRequest := by
  have hlen : (getPacket blankPacket cutRequest).len = 22 := by decide
  refine ⟨by decide, fun h => ?_⟩
  have hcovered : 42 ≤ (getPacket blankPacket cutRequest).len :=
    covered_of_arp h (by omega) (by decide) (by decide) (Or.inl (by decide))
  omega

end TemePCom.Router
