/-
TemePCom/Router/ArpReplies.lean

Which addresses the router claims as its own.

`arp_replier` answers a request by swapping its two halves: the requester becomes
the target, and the address that was asked for becomes the sender's, bound to the
hardware address of the ingress interface.  `arp_handler` calls it for *every*
request, without comparing that address with the one of the interface.  So the
router claims whatever address it is asked for, and its replies are truthful exactly
for the requests that are meant for it (`truthful_iff`).

No other ARP reply leaves the router on an ARP frame: what `search_queue` transmits
are parked packets, and these are IP packets in every state that is reached.
-/
import TemePCom.Router.Deferred
import TemePCom.Router.Isolation
import TemePCom.Router.Originated

namespace TemePCom.Router

open StateTransition Runs

variable {env : Env} {s : State} {frame f : Frame} {p : Packet}

/-! ### What is transmitted -/

/-- A frame that asserts a binding: an ARP packet with the operation of a reply. -/
def IsArpReply (f : Frame) : Prop :=
  htons f.payload.ethHdr.etherType = ethertypeArp ∧ ntohs f.payload.arpHdr.op = arpopReply

/-- A frame that is transmitted in the iteration on a received frame, whether the
iteration ends or `search_queue` goes on for ever. -/
def SentOn (env : Env) (s : State) (frame f : Frame) : Prop :=
  (∃ s' sent, .ok (s', sent) ∈ iteration env s frame ∧ f ∈ sent) ∨
    searches env s frame = true ∧
      ∃ q, Reaches (searchStep env (learned s.arpTable (getPacket s.m frame)))
        (.ok ⟨s.mem, s.noMacDestQueue, [], []⟩) (.ok q) ∧ f ∈ q.sent

/-- The received packet is a request. -/
def IsRequest (p : Packet) : Prop := ntohs p.payload.arpHdr.op = arpopRequest

/-- The received packet asks for the address of the interface it came in on. -/
def AsksForUs (ifs : Interfaces) (p : Packet) : Prop :=
  p.payload.arpHdr.tpa = ifs.ip p.interface

/-- The reply goes back to the requester and binds the interface's own address. -/
structure TruthfulReply (ifs : Interfaces) (req : Packet) (f : Frame) : Prop where
  interface : f.interface = req.interface
  etherDhost : f.payload.ethHdr.etherDhost = req.payload.arpHdr.sha
  tha : f.payload.arpHdr.tha = req.payload.arpHdr.sha
  tpa : f.payload.arpHdr.tpa = req.payload.arpHdr.spa
  sha : f.payload.arpHdr.sha = ifs.mac req.interface
  spa : f.payload.arpHdr.spa = ifs.ip req.interface

/-- A reply is sent iff the frame is a request for the interface's own address, and
every reply that is sent is truthful. -/
def Truthful (env : Env) (s : State) (frame : Frame) : Prop :=
  ((∃ f, SentOn env s frame f ∧ IsArpReply f) ↔
    IsRequest (getPacket s.m frame) ∧ AsksForUs env.ifs (getPacket s.m frame)) ∧
  ∀ f, SentOn env s frame f → IsArpReply f → TruthfulReply env.ifs (getPacket s.m frame) f

/-! ### Requests -/

/-- The Ethernet and the ARP header of the reply. -/
theorem headers_arpReplier (ifs : Interfaces) (base : Packet) :
    (arpReplier ifs base).payload.ethHdr =
        ethHdrSetter base.payload.arpHdr.sha (ifs.mac base.interface) ethertypeArp ∧
      (arpReplier ifs base).payload.arpHdr =
        arpHdrSetter arpopReply base.payload.arpHdr.sha base.payload.arpHdr.spa
          (ifs.mac base.interface) base.payload.arpHdr.tpa := by
  unfold arpReplier
  extract_lets baseArp empty sourceMac eth arp
  have hread : ∀ i < 42, (sendPacket ⟨14 + 28, arp, base.interface⟩).payload i = arp i :=
    fun i hi => payload_sendPacket ⟨14 + 28, arp, base.interface⟩ hi
  constructor
  · rw [ethHdr_congr fun i hi => hread i (by omega), ethHdr_setArpHdr, ethHdr_setEthHdr]
  · rw [arpHdr_congr hread, arpHdr_setArpHdr]

theorem isArpReply_arpReplier (ifs : Interfaces) (base : Packet) :
    IsArpReply (arpReplier ifs base) := by
  obtain ⟨heth, harp⟩ := headers_arpReplier ifs base
  unfold IsArpReply
  rw [heth, harp]
  exact ⟨ntohs_ntohs ethertypeArp, ntohs_ntohs arpopReply⟩

/-- The reply binds whatever address was asked for. -/
theorem truthfulReply_arpReplier_iff (ifs : Interfaces) (base : Packet) :
    TruthfulReply ifs base (arpReplier ifs base) ↔ AsksForUs ifs base := by
  obtain ⟨heth, harp⟩ := headers_arpReplier ifs base
  constructor
  · intro h
    have hspa := h.spa
    rwa [harp] at hspa
  · intro h
    exact ⟨rfl, by rw [heth]; rfl, by rw [harp]; rfl, by rw [harp]; rfl, by rw [harp]; rfl,
      by rw [harp]; exact h⟩

/-- On a request, the reply is what is sent. -/
theorem sentOn_of_request (harp : IsArp s frame) (hreq : IsRequest (getPacket s.m frame)) :
    SentOn env s frame f ↔ f = arpReplier env.ifs (getPacket s.m frame) := by
  have hiter : iteration env s frame = Part.some (.ok ({ s with m := getPacket s.m frame },
      [arpReplier env.ifs (getPacket s.m frame)])) := by
    unfold iteration arpHandler
    unfold IsRequest at hreq
    simp only [if_neg harp.1, if_pos harp.2, if_pos hreq]
  have hsearch : searches env s frame = false := by
    unfold IsRequest at hreq
    simp [searches, isReplyForUs, hreq]
  unfold SentOn
  rw [hiter, hsearch]
  constructor
  · rintro (⟨s', sent, hmem, hf⟩ | ⟨hfalse, -⟩)
    · obtain ⟨-, rfl⟩ := Prod.mk.inj (Except.ok.inj (Part.mem_some_iff.mp hmem))
      exact List.mem_singleton.mp hf
    · cases hfalse
  · rintro rfl
    exact Or.inl ⟨_, _, Part.mem_some _, List.mem_singleton.mpr rfl⟩

/-! ### Parked packets -/

/-- The packet is of the type `main` takes for IP. -/
def CarriesIp (p : Packet) : Prop := htons p.payload.ethHdr.etherType = ethertypeIp

/-- The low byte of the type of an IP packet is zero, that of an ARP packet is not;
this holds of a short frame too, whose type is cut off. -/
theorem not_isArpReply_sendPacket (h : CarriesIp p) : ¬ IsArpReply (sendPacket p) := by
  rintro ⟨htype, -⟩
  have hlow : p.payload 13 = 0 := by
    have hval := congrArg UInt16.toNat h
    simp only [ntohs_toNat, Buffer.ethHdr, Buffer.u16, Nat.reduceAdd, load16_toNat] at hval
    have h12 := (p.payload 12).toNat_lt
    have h13 := (p.payload 13).toNat_lt
    have hip : ethertypeIp.toNat = 2048 := rfl
    apply UInt8.toNat_inj.mp
    show (p.payload 13).toNat = 0
    omega
  have hsent : (sendPacket p).payload 13 = 0 := by
    by_cases hlen : 13 < p.len
    · rw [payload_sendPacket p hlen, hlow]
    · show (p.payload.slice 0 p.len).getD 13 0 = 0
      exact List.getD_eq_default _ _ (by simpa using hlen)
  have hval := congrArg UInt16.toNat htype
  have h12 := ((sendPacket p).payload 12).toNat_lt
  have harp : ethertypeArp.toNat = 2054 := rfl
  have hzero : (0 : UInt8).toNat = 0 := rfl
  simp only [ntohs_toNat, Buffer.ethHdr, Buffer.u16, Nat.reduceAdd, load16_toNat, hsent] at hval
  omega

/-- All waiting packets are IP packets. -/
def WaitingIp (mem : Memory) (queue : List Addr) : Prop := ∀ a ∈ queue, CarriesIp (mem a)

theorem waitingIp_step {s' : State} (h : WaitingIp s.mem s.noMacDestQueue)
    (hnext : Next env s frame s') : WaitingIp s'.mem s'.noMacDestQueue := by
  rcases next_cases hnext with ⟨-, r, -, hpark, rfl⟩ | ⟨-, q, hq, rfl⟩ | ⟨-, -, rfl⟩
  · rcases hsaved : r.saved with - | p
    · simpa only [State.afterIp, hsaved] using h
    · -- the saved packet overwrites its cell, and is an IP packet
      obtain ⟨hip, -, route, -, rfl⟩ := parked_cases (hpark.trans hsaved)
      simp only [State.afterIp, hsaved]
      intro a ha
      by_cases hcell : a = savedAddr
      · rw [hcell, Function.update_self]
        exact hip
      · rw [Function.update_of_ne hcell]
        rcases List.mem_append.mp ha with hold | hnew
        · exact h a hold
        · exact absurd (List.mem_singleton.mp hnew) hcell
  · intro a ha
    rw [searchQueue_empties hq] at ha
    cases ha
  · exact h

theorem waitingIp_of_reached (h : Reached env s) : WaitingIp s.mem s.noMacDestQueue := by
  obtain ⟨m, mem, hreach⟩ := h
  let Inv : State → Prop := fun s => WaitingIp s.mem s.noMacDestQueue
  have hstep : ∀ s frame s', Inv s → Next env s frame s' → Inv s' :=
    fun _ _ _ hs hnext => waitingIp_step hs hnext
  have hstart : Inv (State.start m mem) := fun _ ha => absurd ha List.not_mem_nil
  exact hreach.invariant hstep hstart

/-- What `search_queue` transmits, round by round. -/
theorem sent_of_reaches {arpTable : List ArpEntry} {mem : Memory} {queue : List Addr}
    {q : SearchState} (h : WaitingIp mem queue)
    (hreach : Reaches (searchStep env arpTable) (.ok ⟨mem, queue, [], []⟩) (.ok q)) :
    ∀ f ∈ q.sent, ¬ IsArpReply f := by
  let Inv : Except Fault SearchState → Prop := fun r => ∀ t, r = .ok t →
    WaitingIp t.mem t.noMacDestQueue ∧ ∀ f ∈ t.sent, ¬ IsArpReply f
  have hinv : Inv (.ok q) := by
    refine Loop.reaches_invariant Inv ?_ ?_ hreach
    · rintro (fault | t) r ht hstep t' rfl
      · cases hstep
      obtain ⟨hwait, hsent⟩ := ht t rfl
      unfold searchStep at hstep
      rcases hq : t.noMacDestQueue with - | ⟨crt, rest⟩
      · simp [hq] at hstep
      simp only [hq, Option.some.injEq] at hstep
      rw [hq] at hwait
      rcases searchRound_cases hstep with ⟨p, route, existing, hp, rfl⟩ | rfl
      · -- completing the addresses keeps the type
        have hip : CarriesIp p := by
          have hcrt := hwait crt List.mem_cons_self
          unfold CarriesIp at hcrt ⊢
          rw [hp, addressed, ethHdr_setEthHdr]
          exact hcrt
        constructor
        · intro a ha
          show CarriesIp (Function.update t.mem crt p a)
          by_cases hcell : a = crt
          · rw [hcell, Function.update_self]
            exact hip
          · rw [Function.update_of_ne hcell]
            exact hwait a (List.mem_cons_of_mem _ ha)
        · intro f hf
          rcases List.mem_append.mp hf with hold | hnew
          · exact hsent f hold
          · rw [List.mem_singleton.mp hnew]
            exact not_isArpReply_sendPacket hip
      · exact ⟨fun a ha => hwait a ((List.perm_append_singleton crt rest).mem_iff.mp ha), hsent⟩
    · intro t ht
      obtain rfl := Except.ok.inj ht
      exact ⟨h, fun _ hf => absurd hf List.not_mem_nil⟩
  exact (hinv q rfl).2

/-- On any other ARP frame, no ARP reply is sent. -/
theorem not_isArpReply_of_sentOn (hs : Reached env s) (harp : IsArp s frame)
    (hreq : ¬ IsRequest (getPacket s.m frame)) (hf : SentOn env s frame f) :
    ¬ IsArpReply f := by
  have hwait := waitingIp_of_reached hs
  rcases hf with ⟨s', sent, hmem, hf⟩ | ⟨-, q, hreach, hf⟩
  swap
  · exact sent_of_reaches hwait hreach f hf
  unfold IsRequest at hreq
  unfold iteration at hmem
  simp only [if_neg harp.1, if_pos harp.2] at hmem
  unfold arpHandler at hmem
  by_cases hrep : isReplyForUs env.ifs (getPacket s.m frame) = true
  · simp only [if_neg hreq, if_pos hrep] at hmem
    obtain ⟨r, hr, heq⟩ := (Part.mem_map_iff _).mp hmem
    rcases r with fault | q
    · cases heq
    obtain ⟨-, rfl⟩ := Prod.mk.inj (Except.ok.inj heq)
    -- the loop has ended; draining the auxiliary queue sends nothing
    obtain ⟨r', hr', heq'⟩ := (Part.mem_map_iff _).mp hr
    rcases r' with fault | t
    · cases heq'
    obtain rfl := Except.ok.inj heq'
    exact sent_of_reaches hwait (mem_eval.mp hr').1 f hf
  · simp only [if_neg hreq, if_neg hrep, Part.mem_some_iff] at hmem
    obtain ⟨-, rfl⟩ := Prod.mk.inj (Except.ok.inj hmem)
    cases hf

/-! ### The exact condition -/

/-- **When the ARP replies are truthful**: on every frame but a request for another
address. -/
theorem truthful_iff (env : Env) (s : State) (frame : Frame) (hs : Reached env s)
    (harp : IsArp s frame) : Truthful env s frame ↔
      (IsRequest (getPacket s.m frame) → AsksForUs env.ifs (getPacket s.m frame)) := by
  by_cases hreq : IsRequest (getPacket s.m frame)
  · have hsent : SentOn env s frame (arpReplier env.ifs (getPacket s.m frame)) :=
      (sentOn_of_request harp hreq).mpr rfl
    have hreply := isArpReply_arpReplier env.ifs (getPacket s.m frame)
    rw [forall_prop_of_true hreq]
    constructor
    · rintro ⟨hiff, -⟩
      exact (hiff.mp ⟨_, hsent, hreply⟩).2
    · intro hours
      refine ⟨iff_of_true ⟨_, hsent, hreply⟩ ⟨hreq, hours⟩, fun f hf _ => ?_⟩
      rw [(sentOn_of_request harp hreq).mp hf]
      exact (truthfulReply_arpReplier_iff _ _).mpr hours
  · refine iff_of_true ⟨iff_of_false ?_ fun h => hreq h.1, fun f hf hrep => ?_⟩
      fun h => absurd h hreq
    · rintro ⟨f, hf, hrep⟩
      exact not_isArpReply_of_sentOn hs harp hreq hf hrep
    · exact absurd hrep (not_isArpReply_of_sentOn hs harp hreq hf)

/-- A request of `10.0.0.2` for the address `0.0.0.x`. -/
def arpRequestFor (x : UInt8) : Frame where
  interface := 0
  bytes := [0xff, 0xff, 0xff, 0xff, 0xff, 0xff, 1, 1, 1, 1, 1, 1, 8, 6] ++
    [0, 1, 8, 0, 6, 4, 0, 1] ++ [1, 1, 1, 1, 1, 1, 10, 0, 0, 2] ++ [0, 0, 0, 0, 0, 0, 0, 0, 0, x]

theorem reached_blankState (env : Env) : Reached env blankState :=
  ⟨blankPacket, fun _ => blankPacket, [], .nil _⟩

theorem isArp_arpRequestFor (x : UInt8) : IsArp blankState (arpRequestFor x) := by
  constructor
  · show ntohs (load16 8 6) ≠ ethertypeIp
    decide
  · show ntohs (load16 8 6) = ethertypeArp
    decide

/-- A request for the address of the interface. -/
theorem truthful_iff_arpRequestFor : Truthful twoRoutes blankState (arpRequestFor 0) ↔
    (IsRequest (getPacket blankState.m (arpRequestFor 0)) →
      AsksForUs twoRoutes.ifs (getPacket blankState.m (arpRequestFor 0))) :=
  truthful_iff twoRoutes blankState (arpRequestFor 0) (reached_blankState _)
    (isArp_arpRequestFor 0)

/-- A request for another address is answered too. -/
theorem not_truthful_arpRequestFor : Reached twoRoutes blankState ∧
    IsArp blankState (arpRequestFor 9) ∧ ¬ Truthful twoRoutes blankState (arpRequestFor 9) := by
  refine ⟨reached_blankState _, isArp_arpRequestFor 9, fun h => ?_⟩
  have hreq : IsRequest (getPacket blankState.m (arpRequestFor 9)) := by
    show ntohs (load16 0 1) = arpopRequest
    decide
  have hours := (h.1.mp ⟨_, (sentOn_of_request (isArp_arpRequestFor 9) hreq).mpr rfl,
    isArpReply_arpReplier _ _⟩).2
  have htpa : load32 0 0 0 9 = (0 : UInt32) := hours
  revert htpa
  decide

end TemePCom.Router
