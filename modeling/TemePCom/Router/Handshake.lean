/-
TemePCom/Router/Handshake.lean

Address resolution between two routers, frame by frame.

A router that does not know the hardware address of a next hop sends a request and parks
the packet; the neighbour on the link answers, whatever its own address is; the reply makes
the first router learn the address and empty its queue.  None of the three iterations can
fail, whatever the neighbour's state and whatever the buffers hold, as long as the answer does
not make `realloc` move the ARP table (`handshake`).  The frame that finally leaves is the one
the direct branch would have sent, and it leaves once for every packet that was waiting (all
in one cell, `TemePCom.Router.Flushing`).

The neighbour finds its own address in that frame, and the packet aged by one hop
(`Arrives`).
-/
import TemePCom.Router.ArpReplies
import TemePCom.Router.Flushing
import TemePCom.Router.Network

namespace TemePCom.Router

open StateTransition Runs

variable {env : Env} {frame : Frame} {p : Packet} {route : RtableEntry}

/-! ### ARP packets on the wire -/

/-- The headers of a frame as the neighbour reads them. -/
theorem headers_getPacket {f : Frame} (hlen : f.bytes.length = 42) (m : Packet) (port : ℕ) :
    (getPacket m ⟨port, f.bytes⟩).payload.ethHdr = f.payload.ethHdr ∧
      (getPacket m ⟨port, f.bytes⟩).payload.arpHdr = f.payload.arpHdr := by
  have hread : ∀ i < 42, (getPacket m ⟨port, f.bytes⟩).payload i = f.payload i := by
    intro i hi
    have hle : (⟨port, f.bytes⟩ : Frame).bytes.length ≤ maxLen :=
      hlen.trans_le (show 42 ≤ 1600 by decide)
    rw [getPacket_of_le hle]
    show Buffer.store m.payload 0 f.bytes i = f.bytes.getD i 0
    rw [Buffer.store_zero_apply (by omega), List.getD_eq_getElem _ _ (by omega)]
  exact ⟨ethHdr_congr fun i hi => hread i (by omega), arpHdr_congr hread⟩

/-- The Ethernet and the ARP header of the request. -/
theorem headers_arpRequester (ifs : Interfaces) (route : RtableEntry) :
    (arpRequester ifs route).payload.ethHdr =
        ethHdrSetter (fun _ => 0xff) (ifs.mac route.interface) ethertypeArp ∧
      (arpRequester ifs route).payload.arpHdr =
        arpHdrSetter arpopRequest (fun _ => 0) route.nextHop (ifs.mac route.interface)
          (ifs.ip route.interface) := by
  unfold arpRequester
  extract_lets empty sourceMac eth arp
  have hread : ∀ i < 42, (sendPacket ⟨14 + 28, arp, route.interface⟩).payload i = arp i :=
    fun i hi => payload_sendPacket ⟨14 + 28, arp, route.interface⟩ hi
  constructor
  · rw [ethHdr_congr fun i hi => hread i (by omega), ethHdr_setArpHdr, ethHdr_setEthHdr]
  · rw [arpHdr_congr hread, arpHdr_setArpHdr]

/-! ### The three iterations -/

/-- A request is answered by any router, which stays as it is. -/
theorem iterationAt_request (t : ArrayState) (choice : Realloc)
    (harp : htons (getPacket t.m frame).payload.ethHdr.etherType = ethertypeArp)
    (hreq : IsRequest (getPacket t.m frame)) :
    iterationAt env t frame choice = Part.some (.ok ({ t with m := getPacket t.m frame },
      [arpReplier env.ifs (getPacket t.m frame)])) := by
  have hip : htons (getPacket t.m frame).payload.ethHdr.etherType ≠ ethertypeIp := by
    rw [harp]
    decide
  unfold IsRequest at hreq
  simp only [iterationAt, arpHandlerAt, if_neg hip, if_pos harp, if_pos hreq]

/-- An IP packet does not touch the table. -/
theorem iterationAt_ip (env : Env) {g : Growth}
    (hip : htons (getPacket g.st.m frame).payload.ethHdr.etherType = ethertypeIp) :
    searches env (g.st.toState g.added) frame = false ∧
      ∀ choice, iterationAt env g.st frame choice = iterationAt env g.st frame .kept := by
  refine ⟨by simp [searches, ArrayState.toState, hip], fun choice => ?_⟩
  simp only [iterationAt, if_pos hip]

/-- A packet that is parked, where the table is the array: `realloc` has no part in it. -/
theorem iterationAt_parks {g : Growth} (hintact : Intact g.st.table g.added)
    (hp : parkedBy env (g.st.toState g.added) frame = some p) :
    ∃ route s', p = savedAs (getPacket g.st.m frame) route ∧
      getBestRoute env.rtable (getPacket g.st.m frame).payload.ipHdr.daddr = .ok (some route) ∧
      searchArp g.added route.nextHop = none ∧
      (∀ c, iterationAt env g.st frame c = Part.some (.ok (s', [arpRequester env.ifs route]))) ∧
      s'.table = g.st.table ∧ s'.noMacDestQueue = g.st.noMacDestQueue ++ [savedAddr] ∧
      s'.mem savedAddr = p := by
  obtain ⟨hip, -, -⟩ := parked_cases hp
  obtain ⟨hsearch, hany⟩ := iterationAt_ip env hip
  obtain ⟨route, u, hsaved, hroute, harp, hiter, -, hqueue, hmem⟩ := iteration_parks hp
  have hkeep : KeepsBlock env g (frame, .kept) := fun _ _ => rfl
  obtain ⟨s', hiter', rfl, -⟩ := iterationAt_of_iteration hintact hkeep hiter
  have htable := table_of_iterationAt g.added (e := (frame, .kept)) (hiter' ▸ Part.mem_some _)
  rw [hsearch, if_neg Bool.false_ne_true] at htable
  exact ⟨route, s', hsaved, hroute, harp, fun c => (hany c).trans hiter', htable, hqueue, hmem⟩

/-- What is saved is delivered, once the next hop is known, as the direct branch would have. -/
theorem delivery_savedAs {m : Packet} {T : List ArpEntry} (mac : Mac)
    (hip : htons m.payload.ethHdr.etherType = ethertypeIp)
    (hroute : getBestRoute env.rtable m.payload.ipHdr.daddr = .ok (some route))
    (harp : searchArp T route.nextHop = none) :
    delivery env (addArpEntry T route.nextHop mac) (savedAs m route) =
      some (sendPacket (forwarded env.ifs m route ⟨route.nextHop, mac⟩)) := by
  unfold delivery
  rw [daddr_savedAs, hroute]
  simp only [searchArp_addArpEntry mac harp, Option.map_some,
    forwarded_eq_addressed env.ifs route _ hip]

/-- What the neighbour on `port` answers to the request for `route`. -/
def answer (A B : Env) (route : RtableEntry) (port : ℕ) (m : Packet) : Frame :=
  arpReplier B.ifs (getPacket m ⟨port, (arpRequester A.ifs route).bytes⟩)

/-- The reply is one for the router that asked, and binds the next hop to the interface of
the neighbour. -/
theorem answer_is_reply (A B : Env) (route : RtableEntry) (port : ℕ) (m m' : Packet) :
    let reply := getPacket m' ⟨route.interface, (answer A B route port m).bytes⟩
    htons reply.payload.ethHdr.etherType = ethertypeArp ∧ isReplyForUs A.ifs reply = true ∧
      reply.payload.arpHdr.spa = route.nextHop ∧ reply.payload.arpHdr.sha = B.ifs.mac port := by
  intro reply
  have hreq := headers_getPacket (f := arpRequester A.ifs route) rfl m port
  have hasked := (headers_arpRequester A.ifs route).2
  obtain ⟨heth, harp⟩ := headers_getPacket (f := answer A B route port m) rfl m' route.interface
  obtain ⟨heth', harp'⟩ := headers_arpReplier B.ifs
    (getPacket m ⟨port, (arpRequester A.ifs route).bytes⟩)
  rw [hreq.2, hasked] at heth' harp'
  have hhdr : reply.payload.arpHdr = arpHdrSetter arpopReply (A.ifs.mac route.interface)
      (A.ifs.ip route.interface) (B.ifs.mac port) route.nextHop := harp.trans harp'
  refine ⟨?_, ?_, ?_, ?_⟩
  · rw [heth]
    show htons (arpReplier _ _).payload.ethHdr.etherType = _
    rw [heth']
    exact ntohs_ntohs ethertypeArp
  · unfold isReplyForUs
    rw [hhdr]
    exact decide_eq_true ⟨show ntohs (htons arpopReply) ≠ _ by decide,
      show htons (htons arpopReply) = _ by decide, rfl⟩
  · rw [hhdr]
    rfl
  · rw [hhdr]
    rfl

/-- The neighbour answers, whatever its state. -/
theorem iterationAt_answer (A B : Env) (route : RtableEntry) (port : ℕ) (t : ArrayState)
    (choice : Realloc) :
    iterationAt B t ⟨port, (arpRequester A.ifs route).bytes⟩ choice =
      Part.some (.ok ({ t with m := getPacket t.m ⟨port, (arpRequester A.ifs route).bytes⟩ },
        [answer A B route port t.m])) := by
  have hheaders := headers_getPacket (f := arpRequester A.ifs route) rfl t.m port
  have hasked := headers_arpRequester A.ifs route
  apply iterationAt_request
  · rw [hheaders.1, hasked.1]
    exact ntohs_ntohs ethertypeArp
  · unfold IsRequest
    rw [hheaders.2, hasked.2]
    exact ntohs_ntohs arpopRequest

/-- From the answer the next hop is learned. -/
theorem learned_answer (A B : Env) (route : RtableEntry) (port : ℕ) (m m' : Packet)
    (T : List ArpEntry) :
    learned T (getPacket m' ⟨route.interface, (answer A B route port m).bytes⟩) =
      addArpEntry T route.nextHop (B.ifs.mac port) := by
  obtain ⟨-, -, hspa, hsha⟩ := answer_is_reply A B route port m m'
  rw [learned, hspa, hsha]

theorem searches_answer (A B : Env) (s : State) (m : Packet) (route : RtableEntry) (port : ℕ) :
    searches A s ⟨route.interface, (answer A B route port m).bytes⟩ = true := by
  obtain ⟨heth, hrep, -, -⟩ := answer_is_reply A B route port m s.m
  unfold searches
  rw [decide_eq_true_eq, heth]
  exact ⟨by decide, rfl, hrep⟩

/-! ### The exchange -/

/-- The exchange that begins with `frame` at router `A` in state `g`, whose neighbour `B`
hears it on `port` in state `t`; `choice` is that of `realloc` at the answer. -/
structure Exchange (A B : Env) (g : Growth) (frame : Frame) (t : ArrayState) (port : ℕ)
    (choice : Realloc) (route : RtableEntry) (s₁ s₂ : ArrayState) (f : Frame) : Prop where
  request : ∀ c, iterationAt A g.st frame c = Part.some (.ok (s₁, [arpRequester A.ifs route]))
  reply : ∀ c, iterationAt B t ⟨port, (arpRequester A.ifs route).bytes⟩ c =
    Part.some (.ok ({ t with m := getPacket t.m ⟨port, (arpRequester A.ifs route).bytes⟩ },
      [answer A B route port t.m]))
  onLink : (answer A B route port t.m).interface = port
  flush : iterationAt A s₁ ⟨route.interface, (answer A B route port t.m).bytes⟩ choice =
    Part.some (.ok (s₂, List.replicate (g.st.noMacDestQueue.length + 1) f))
  direct : f = sendPacket (forwarded A.ifs (getPacket g.st.m frame) route
    ⟨route.nextHop, B.ifs.mac port⟩)
  known : s₂.table.searchArp route.nextHop = .ok (some ⟨route.nextHop, B.ifs.mac port⟩)
  queue : s₂.noMacDestQueue = []

/-- The frame is for the interface that reads it, and carries the packet one hop older. -/
def Arrives (B : Env) (port : ℕ) (f : Frame) (p : Packet) : Prop :=
  ∀ m, (getPacket m ⟨port, f.bytes⟩).payload.ethHdr.etherDhost = B.ifs.mac port ∧
    (getPacket m ⟨port, f.bytes⟩).payload.ipHdr = incrementalChecksum p.payload.ipHdr ∧
    (getPacket m ⟨port, f.bytes⟩).len = p.len

theorem arrives_forwarded {A B : Env} {port : ℕ} (hip : IsIpPacket p) :
    Arrives B port (sendPacket (forwarded A.ifs p route ⟨route.nextHop, B.ifs.mac port⟩)) p := by
  have hwhole := hip.whole
  intro m
  set q := forwarded A.ifs p route ⟨route.nextHop, B.ifs.mac port⟩ with hq
  have hread : ∀ i < p.len, (getPacket m ⟨port, (sendPacket q).bytes⟩).payload i = q.payload i :=
    fun i hi => payload_getPacket_sendPacket (p := q) hip.fits hi
  refine ⟨?_, ?_, ?_⟩
  · rw [ethHdr_congr fun i hi => hread i (by omega), hq, forwarded, ethHdr_setEthHdr]
    rfl
  · rw [ipHdr_congr fun i hi => hread i (by omega), hq, forwarded, ipHdr_setEthHdr, aged,
      ipHdr_setIpHdr]
  · rw [getPacket_sendPacket (p := q) hip.fits]
    rfl

/-- **Address resolution completes.**  In every state of a run in which `realloc` keeps the
block, and for every packet that has to be parked, the neighbour's answer, whatever the
neighbour's state, makes the router learn the next hop, send the packet as the direct branch
would have, once for every packet that waits, and leaves nothing waiting; if the array is full,
`realloc` has to keep the block for the answer, too. -/
theorem handshake (A B : Env) (m : Packet) (mem : Memory) {g : Growth} (t : ArrayState)
    (frame : Frame) (port : ℕ) (choice : Realloc)
    (hg : Reachable (KeepingNext A) (Growth.start m mem) g)
    (hpark : (parkedBy A (g.st.toState g.added) frame).isSome)
    (hkeep : g.st.table.arpLen = g.st.table.arpMaxLen → choice = .kept) :
    ∃ route s₁ s₂ f, Exchange A B g frame t port choice route s₁ s₂ f ∧
      (34 ≤ frame.bytes.length → Arrives B port f (getPacket g.st.m frame)) := by
  obtain ⟨p, hp⟩ := Option.isSome_iff_exists.mp hpark
  have hip : htons (getPacket g.st.m frame).payload.ethHdr.etherType = ethertypeIp :=
    (parked_cases hp).1
  obtain ⟨hintact, hreached⟩ := intact_of_keeping hg
  obtain ⟨route, s₁, rfl, hroute, harp, hrequest, htable, hqueue, hmem⟩ :=
    iterationAt_parks hintact hp
  -- the state in which the answer arrives
  set g₁ : Growth := ⟨s₁, g.added⟩
  have hparks : KeepingNext A g (frame, .kept) g₁ := by
    have hsearch := (iterationAt_ip A hip).1
    refine ⟨⟨⟨trivial, _, hrequest .kept ▸ Part.mem_some _⟩, ?_⟩, fun _ _ => rfl⟩
    rw [if_neg (by rw [hsearch]; exact Bool.false_ne_true)]
  have hintact₁ := intact_step hintact hparks.1 hparks.2
  have hcell := oneCell_step (oneCell_of_reached hreached)
    (next_of_growthNext hintact hparks.2 hparks.1)
  have hlen : g₁.st.noMacDestQueue.length = g.st.noMacDestQueue.length + 1 := by
    show s₁.noMacDestQueue.length = _
    rw [hqueue, List.length_append, List.length_singleton]
  -- the table after the answer
  set reply : Frame := ⟨route.interface, (answer A B route port t.m).bytes⟩
  have hlearned : learned g₁.added (getPacket g₁.st.m reply) =
      addArpEntry g.added route.nextHop (B.ifs.mac port) := learned_answer A B route port _ _ _
  have hdelivery : delivery A (learned g₁.added (getPacket g₁.st.m reply))
      (g₁.st.mem savedAddr) = some (sendPacket (forwarded A.ifs (getPacket g.st.m frame) route
        ⟨route.nextHop, B.ifs.mac port⟩)) := by
    rw [hlearned, hmem]
    exact delivery_savedAs _ hip hroute harp
  have hkeep₂ : KeepsBlock A g₁ (reply, choice) := fun _ hfull => hkeep (htable ▸ hfull)
  rcases hcell.replyAt (e := (reply, choice)) hintact₁
    (searches_answer A B _ t.m route port) hkeep₂ with
    hflushes | hhangs
  · obtain ⟨s₂, sent, hflush, hempty, hintact₂, hsent⟩ := hflushes
    have hframes : sent = List.replicate (g.st.noMacDestQueue.length + 1) (sendPacket
        (forwarded A.ifs (getPacket g.st.m frame) route ⟨route.nextHop, B.ifs.mac port⟩)) := by
      rcases hsent with ⟨hnil, -⟩ | ⟨f, hf, hsent⟩
      · rw [hnil] at hlen
        cases hlen
      · rw [hsent, hlen, Option.some.inj (hf.symm.trans hdelivery)]
    rw [hframes] at hflush
    refine ⟨route, s₁, s₂, _, ⟨hrequest, iterationAt_answer A B route port t, rfl, hflush, rfl,
      ?_, hempty⟩, ?_⟩
    · rw [searchArp_of_holds hintact₂.holds, hlearned, searchArp_addArpEntry (B.ifs.mac port) harp]
    · intro hwhole
      apply arrives_forwarded
      exact ⟨hip, by simp [getPacket, maxLen, hwhole], by simp [getPacket]⟩
  · refine absurd ?_ hhangs.2.1
    unfold Resolved
    rw [hdelivery]
    rfl

/-- Two routers with the same table; the one already has a packet waiting. -/
theorem handshake_shortFrame : ∃ (g : Growth) (route : RtableEntry) (s₁ s₂ : ArrayState)
    (f : Frame), g.st.noMacDestQueue = [savedAddr] ∧
      Exchange twoRoutes twoRoutes g (shortFrame 2) (ArrayState.start blankPacket fun _ =>
        blankPacket) 0 .kept route s₁ s₂ f ∧
      (34 ≤ (shortFrame 2).bytes.length →
        Arrives twoRoutes 0 f (getPacket g.st.m (shortFrame 2))) := by
  obtain ⟨g, hnext, hadded, hqueue, -⟩ :=
    keepingNext_shortFrame (g := Growth.start blankPacket fun _ => blankPacket) 1 rfl intact_start
  obtain ⟨route, s₁, s₂, f, h⟩ := handshake twoRoutes twoRoutes blankPacket (fun _ => blankPacket)
    (ArrayState.start blankPacket fun _ => blankPacket) (shortFrame 2) 0 .kept
    ⟨_, .cons hnext (.nil _)⟩ (isSome_parkedBy_shortFrame 2 hadded) fun _ => rfl
  exact ⟨g, route, s₁, s₂, f, hqueue, h⟩

end TemePCom.Router
