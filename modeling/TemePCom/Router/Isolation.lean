/-
TemePCom/Router/Isolation.lean

Whether what the router does with a frame depends on that frame only.

`m` is one buffer for all iterations, and `get_packet` leaves the old bytes behind
the ones it receives.  The headers are read at fixed offsets and `m.len` is never
compared with anything, so a short frame is completed by earlier ones.  How much
of the buffer the treatment of a packet depends on is its `extent`: the 42 bytes up
to the end of the ICMP or ARP header for what is answered, the 34 bytes up to the
end of the IP header for the other packets that verify, and nothing for what is
discarded.

Two runs are compared that have the same ARP table and the same packets waiting,
but anything in `m`.  They treat a frame in the same way iff whatever completes the
frame, its extent is covered by the received bytes (`dependsOnFrame_iff`).
-/
import TemePCom.Router.Discarding
import TemePCom.Router.Parking

namespace TemePCom.Router

open StateTransition Runs

variable {env : Env} {ifs : Interfaces} {s s₁ s₂ : State} {f : Frame} {p q : Packet}

/-! ### What is compared -/

/-- What `search_queue` can see of a packet: its headers and what is sent of it. -/
structure View where
  len : ℕ
  interface : ℕ
  bytes : List UInt8

def Packet.view (p : Packet) : View := ⟨p.len, p.interface, p.payload.slice 0 (max p.len 34)⟩

/-- The waiting packets. -/
def State.waiting (s : State) : List View := s.noMacDestQueue.map fun a => (s.mem a).view

/-- What comes of a frame: the ARP table, the waiting packets, and what is sent. -/
def treatment (env : Env) (s : State) (f : Frame) :
    Part (Except Fault (List ArpEntry × List View × List Frame)) :=
  (iteration env s f).map (Except.map fun r => (r.1.arpTable, r.1.waiting, r.2))

/-- A state some history of received frames leads to. -/
def Reached (env : Env) (s : State) : Prop :=
  ∃ m mem, Reachable (Next env) (State.start m mem) s

/-- After any two histories that leave the same ARP table and the same packets
waiting, the frame is treated in the same way. -/
def DependsOnFrame (env : Env) (f : Frame) : Prop :=
  ∀ s₁ s₂, Reached env s₁ → Reached env s₂ → s₁.arpTable = s₂.arpTable →
    s₁.waiting = s₂.waiting → treatment env s₁ f = treatment env s₂ f

/-- How many bytes of the buffer the treatment of a packet depends on. -/
def extent (ifs : Interfaces) (p : Packet) : ℕ :=
  if htons p.payload.ethHdr.etherType = ethertypeIp then
    if isEchoForUs ifs p then 42 else if verifies p.payload.ipHdr then 34 else 0
  else if htons p.payload.ethHdr.etherType = ethertypeArp then
    if ntohs p.payload.arpHdr.op = arpopRequest ∨ isReplyForUs ifs p then 42 else 0
  else 0

/-- Whatever the buffer held before, the extent is within the received bytes. -/
def Covered (ifs : Interfaces) (f : Frame) : Prop :=
  ∀ m : Packet, extent ifs (getPacket m f) ≤ (getPacket m f).len

/-- The packets agree on their first `n` bytes. -/
structure Agree (n : ℕ) (p q : Packet) : Prop where
  len : p.len = q.len
  interface : p.interface = q.interface
  payload : ∀ i < n, p.payload i = q.payload i

/-! ### Reading the same headers -/

section Headers

variable {b c : Buffer}

/-- Storing the same bytes. -/
theorem store_congr {n o : ℕ} (l : List UInt8) (h : ∀ i < n, b i = c i) :
    ∀ i < n, b.store o l i = c.store o l i := by
  intro i hi
  simp only [Buffer.store, h i hi]

theorem slice_congr {n : ℕ} (h : ∀ i < n, b i = c i) : b.slice 0 n = c.slice 0 n := by
  unfold Buffer.slice
  refine List.map_congr_left fun i hi => ?_
  rw [Nat.zero_add, h i (List.mem_range.mp hi)]

end Headers

namespace Agree

variable {n : ℕ}

theorem symm (h : Agree n p q) : Agree n q p :=
  ⟨h.len.symm, h.interface.symm, fun i hi => (h.payload i hi).symm⟩

theorem mono {k : ℕ} (h : Agree n p q) (hk : k ≤ n) : Agree k p q :=
  ⟨h.len, h.interface, fun i hi => h.payload i (by omega)⟩

theorem ethHdr (h : Agree n p q) (hn : 14 ≤ n) : p.payload.ethHdr = q.payload.ethHdr :=
  ethHdr_congr fun i hi => h.payload i (by omega)

theorem ipHdr (h : Agree n p q) (hn : 34 ≤ n) : p.payload.ipHdr = q.payload.ipHdr :=
  ipHdr_congr fun i hi => h.payload i (by omega)

theorem icmpHdr (h : Agree n p q) (hn : 42 ≤ n) : p.payload.icmpHdr = q.payload.icmpHdr :=
  icmpHdr_congr fun i hi => h.payload i (by omega)

theorem arpHdr (h : Agree n p q) (hn : 42 ≤ n) : p.payload.arpHdr = q.payload.arpHdr :=
  arpHdr_congr fun i hi => h.payload i (by omega)

theorem isEchoForUs (h : Agree n p q) (hn : 35 ≤ n) :
    isEchoForUs ifs p = isEchoForUs ifs q := by
  have htype : p.payload.icmpHdr.type = q.payload.icmpHdr.type := h.payload 34 (by omega)
  simp only [Router.isEchoForUs, h.ipHdr (by omega), htype, h.interface]

theorem isReplyForUs (h : Agree n p q) (hn : 42 ≤ n) :
    isReplyForUs ifs p = isReplyForUs ifs q := by
  simp only [Router.isReplyForUs, h.arpHdr hn, h.interface]

theorem extent (h : Agree n p q) (hn : 42 ≤ n) : extent ifs p = extent ifs q := by
  simp only [Router.extent, h.ethHdr (by omega), h.ipHdr (by omega), h.arpHdr hn,
    h.isEchoForUs (by omega), h.isReplyForUs hn]

/-- A frame that is sent. -/
theorem sendPacket (h : Agree n p q) (hn : p.len ≤ n) : sendPacket p = sendPacket q := by
  rw [Router.sendPacket, Router.sendPacket, h.interface, ← h.len,
    slice_congr fun i hi => h.payload i (by omega)]

theorem view (h : Agree n p q) (hn : max p.len 34 ≤ n) : p.view = q.view := by
  rw [Packet.view, Packet.view, h.interface, ← h.len,
    slice_congr fun i hi => h.payload i (by omega)]

/-- The bytes of a frame, whatever was in the buffer. -/
theorem getPacket (m m' : Packet) (f : Frame) :
    Agree (getPacket m f).len (getPacket m f) (getPacket m' f) where
  len := rfl
  interface := rfl
  payload _ hi := (Buffer.store_zero_apply hi).trans (Buffer.store_zero_apply hi).symm

end Agree

theorem agree_of_view (h : p.view = q.view) : Agree (max p.len 34) p q := by
  simp only [Packet.view, View.mk.injEq] at h
  obtain ⟨hlen, hif, hbytes⟩ := h
  refine ⟨hlen, hif, fun i hi => ?_⟩
  have hget := congrArg (fun l => l[i]?) hbytes
  simp only [Buffer.slice, List.getElem?_map, Nat.zero_add] at hget
  rw [List.getElem?_range hi, List.getElem?_range (hlen ▸ hi)] at hget
  exact Option.some.inj hget

/-! ### Sending the same frames -/

section Replies

variable {n : ℕ} (h : Agree n p q)
include h

theorem sendIcmp_congr (hn : 42 ≤ n) (icmpType : UInt8) :
    sendIcmp ifs p icmpType = sendIcmp ifs q icmpType := by
  simp only [sendIcmp, icmpReply, h.ethHdr (by omega), h.ipHdr (by omega), h.icmpHdr hn,
    h.interface]

/-- The ICMP header is only read for an echo reply. -/
theorem sendIcmp_error_congr (hn : 34 ≤ n) {icmpType : UInt8}
    (htype : icmpType = icmpTimeExceeded ∨ icmpType = icmpUnreach) :
    sendIcmp ifs p icmpType = sendIcmp ifs q icmpType := by
  simp only [sendIcmp, icmpReply, h.ethHdr (by omega), h.ipHdr hn, h.interface]
  rcases htype with rfl | rfl <;> rfl

theorem arpReplier_congr (hn : 42 ≤ n) : arpReplier ifs p = arpReplier ifs q := by
  simp only [arpReplier, h.arpHdr hn, h.interface]

theorem aged_congr (hn : 34 ≤ n) : Agree n (aged p) (aged q) where
  len := h.len
  interface := h.interface
  payload := by
    rw [aged, aged, h.ipHdr hn]
    exact store_congr _ h.payload

theorem forwarded_congr (ifs : Interfaces) (hn : 34 ≤ n) (route : RtableEntry)
    (arpEntry : ArpEntry) :
    Agree n (forwarded ifs p route arpEntry) (forwarded ifs q route arpEntry) where
  len := h.len
  interface := rfl
  payload := store_congr _ (aged_congr h hn).payload

theorem addressed_congr (ifs : Interfaces) (hn : 14 ≤ n) (route : RtableEntry)
    (existing : ArpEntry) :
    Agree n (addressed ifs p route existing) (addressed ifs q route existing) where
  len := h.len
  interface := h.interface
  payload := by
    rw [addressed, addressed, h.ethHdr hn]
    exact store_congr _ h.payload

end Replies

/-! ### The IP branch -/

/-- What the IP branch sends, and what it parks. -/
def IpResult.effect (r : IpResult) : List Frame × Option View := (r.sent, r.saved.map Packet.view)

/-- The waiting packets after parking: all of them are in the same cell. -/
def afterParking (waiting : List View) : Option View → List View
  | none => waiting
  | some v => List.replicate waiting.length v ++ [v]

theorem waiting_afterIp (hqueue : ∀ a ∈ s.noMacDestQueue, a = savedAddr) (r : IpResult) :
    (s.afterIp r).waiting = afterParking s.waiting (r.saved.map Packet.view) := by
  obtain ⟨m, sent, - | p⟩ := r
  · rfl
  · show ((s.noMacDestQueue ++ [savedAddr]).map fun a =>
        (Function.update s.mem savedAddr p a).view) = _
    rw [List.map_append, List.map_singleton, Function.update_self]
    refine congrArg (· ++ [p.view]) (List.eq_replicate_iff.mpr ⟨?_, fun v hv => ?_⟩)
    · rw [List.length_map, State.waiting, List.length_map]
    · obtain ⟨a, ha, rfl⟩ := List.mem_map.mp hv
      rw [hqueue a ha, Function.update_self]

theorem treatment_of_isIp (hqueue : ∀ a ∈ s.noMacDestQueue, a = savedAddr) (hip : IsIp s f) :
    treatment env s f = Part.some (((ipBranch env s.arpTable (getPacket s.m f)).map
      IpResult.effect).map fun e => (s.arpTable, afterParking s.waiting e.2, e.1)) := by
  unfold IsIp at hip
  unfold treatment iteration
  simp only [hip, if_true, Part.map_some]
  rcases ipBranch env s.arpTable (getPacket s.m f) with fault | r
  · rfl
  · have htable : (State.afterIp { s with m := getPacket s.m f } r).arpTable = s.arpTable := by
      obtain ⟨m, sent, - | p⟩ := r <;> rfl
    simp only [Except.map, htable,
      waiting_afterIp (s := { s with m := getPacket s.m f }) hqueue, IpResult.effect]
    rfl

/-- A packet that verifies is treated by its IP header and its own bytes. -/
theorem effect_congr {n : ℕ} (h : Agree n p q) (hn : 34 ≤ n) (hlen : p.len ≤ n)
    (arpTable : List ArpEntry) (hp : isEchoForUs env.ifs p = false)
    (hq : isEchoForUs env.ifs q = false) (hver : verifies p.payload.ipHdr = true) :
    (ipBranch env arpTable p).map IpResult.effect =
      (ipBranch env arpTable q).map IpResult.effect := by
  have hverq : verifies q.payload.ipHdr = true := h.ipHdr hn ▸ hver
  unfold ipBranch icmpHandler isGarbage
  simp only [hp, hq, hver, hverq, Bool.false_eq_true, if_false, not_true_eq_false]
  rw [← h.ipHdr hn]
  by_cases httl : p.payload.ipHdr.ttl < 2
  · simp only [httl, if_true, Except.map, IpResult.effect,
      sendIcmp_error_congr h hn (Or.inl rfl)]
  simp only [httl, if_false, Bool.false_eq_true]
  rcases getBestRoute env.rtable p.payload.ipHdr.daddr with fault | (- | route)
  · rfl
  · simp only [Except.map, IpResult.effect, sendIcmp_error_congr h hn (Or.inr rfl)]
  · rcases hfound : searchArp arpTable route.nextHop with - | arpEntry
    · -- parked: the aged packets agree
      have hview : Packet.view { aged p with interface := route.interface } =
          Packet.view { aged q with interface := route.interface } :=
        Agree.view ⟨h.len, rfl, (aged_congr h hn).payload⟩ (by
          show max p.len 34 ≤ n
          omega)
      have haged : aged q = { q with
          payload := q.payload.setIpHdr (incrementalChecksum p.payload.ipHdr) } := by
        rw [aged, h.ipHdr hn]
      simp only [hfound, Except.map, IpResult.effect, Option.map_some]
      rw [haged] at hview
      exact congrArg (fun v => Except.ok ([arpRequester env.ifs route], some v)) hview
    · have hsend := (forwarded_congr h env.ifs hn route arpEntry).sendPacket hlen
      have hfwd : forwarded env.ifs q route arpEntry = { q with
          payload := (q.payload.setIpHdr (incrementalChecksum p.payload.ipHdr)).setEthHdr
            (ethHdrSetter arpEntry.mac (env.ifs.mac route.interface) ethertypeIp)
          interface := route.interface } := by
        rw [forwarded, aged, h.ipHdr hn]
      simp only [hfound, Except.map, IpResult.effect, Option.map_none]
      rw [hfwd] at hsend
      exact congrArg (fun frame => Except.ok ([frame], none)) hsend

/-! ### `search_queue` -/

/-- The loops are at the same point and see the same packets. -/
inductive SameSearch : Except Fault SearchState → Except Fault SearchState → Prop
  | error (fault : Fault) : SameSearch (.error fault) (.error fault)
  | ok {a b : SearchState} (queue : a.noMacDestQueue = b.noMacDestQueue) (aux : a.aux = b.aux)
      (sent : a.sent = b.sent)
      (views : ∀ x ∈ a.noMacDestQueue ++ a.aux, (a.mem x).view = (b.mem x).view) :
      SameSearch (.ok a) (.ok b)

/-- A round. -/
theorem sameSearch_round {arpTable : List ArpEntry} {a b : SearchState} {crt : Addr}
    {rest : List Addr} (haux : a.aux = b.aux) (hsent : a.sent = b.sent)
    (hviews : ∀ x ∈ crt :: rest ++ a.aux, (a.mem x).view = (b.mem x).view) :
    SameSearch (searchRound env arpTable a crt rest) (searchRound env arpTable b crt rest) := by
  have hcrt := agree_of_view (hviews crt (List.mem_append_left _ List.mem_cons_self))
  have h34 : 34 ≤ max (a.mem crt).len 34 := by omega
  unfold searchRound
  rw [← hcrt.ipHdr h34]
  rcases getBestRoute env.rtable (a.mem crt).payload.ipHdr.daddr with fault | (- | route)
  · exact .error fault
  · exact .error _
  · rcases hfound : searchArp arpTable route.nextHop with - | existing
    · simp only [hfound]
      show SameSearch (.ok { a with noMacDestQueue := rest ++ [crt] })
        (.ok { b with noMacDestQueue := rest ++ [crt] })
      refine .ok rfl haux hsent fun x hx => hviews x ?_
      simp only [List.mem_append, List.mem_cons, List.not_mem_nil, or_false] at hx ⊢
      tauto
    · -- the completed packets agree as well
      have hadd := addressed_congr hcrt env.ifs (by omega) route existing
      have hsend := hadd.sendPacket (show (a.mem crt).len ≤ max (a.mem crt).len 34 by omega)
      simp only [hfound]
      show SameSearch (.ok { a with
          mem := Function.update a.mem crt (addressed env.ifs (a.mem crt) route existing)
          noMacDestQueue := rest
          sent := a.sent ++ [sendPacket (addressed env.ifs (a.mem crt) route existing)] })
        (.ok { b with
          mem := Function.update b.mem crt (addressed env.ifs (b.mem crt) route existing)
          noMacDestQueue := rest
          sent := b.sent ++ [sendPacket (addressed env.ifs (b.mem crt) route existing)] })
      refine .ok rfl haux (by simp only [hsent, hsend]) fun x hx => ?_
      by_cases hx' : x = crt
      · subst hx'
        simp only [Function.update_self]
        exact hadd.view le_rfl
      · simp only [Function.update_of_ne hx']
        refine hviews x ?_
        simp only [List.mem_append, List.mem_cons] at hx ⊢
        tauto

theorem sameSearch_step (arpTable : List ArpEntry) (r r' : Except Fault SearchState)
    (h : SameSearch r r') :
    Option.Rel SameSearch (searchStep env arpTable r) (searchStep env arpTable r') := by
  cases h with
  | error fault => exact .none
  | @ok a b queue aux sent views =>
    unfold searchStep
    rcases hq : a.noMacDestQueue with - | ⟨crt, rest⟩
    · simp only [← queue, hq]
      exact .none
    · simp only [← queue, hq]
      rw [hq] at views
      exact .some (sameSearch_round aux sent views)

/-- What is observed when `search_queue` returns. -/
def SearchState.observe (arpTable : List ArpEntry) (q : SearchState) :
    List ArpEntry × List View × List Frame :=
  (arpTable, q.noMacDestQueue.map fun a => (q.mem a).view, q.sent)

theorem searchQueue_congr (arpTable : List ArpEntry) {mem mem' : Memory} {queue : List Addr}
    (h : ∀ a ∈ queue, (mem a).view = (mem' a).view) :
    (searchQueue env arpTable mem queue).map (Except.map (SearchState.observe arpTable)) =
      (searchQueue env arpTable mem' queue).map
        (Except.map (SearchState.observe arpTable)) := by
  rw [searchQueue, searchQueue, Part.map_map, Part.map_map]
  refine Loop.map_eval_eq (sameSearch_step arpTable) ?_ ?_
  · intro r r' hrr'
    cases hrr' with
    | error fault => rfl
    | @ok a b queue aux sent views =>
      show Except.ok _ = Except.ok _
      refine congrArg Except.ok ?_
      show (arpTable, (a.noMacDestQueue ++ a.aux).map (fun x => (a.mem x).view), a.sent) =
        (arpTable, (b.noMacDestQueue ++ b.aux).map (fun x => (b.mem x).view), b.sent)
      rw [← queue, ← aux, sent, List.map_congr_left views]
  · exact .ok rfl rfl rfl fun a ha => h a (by simpa using ha)

/-! ### The other branches -/

/-- An ARP packet. -/
def IsArp (s : State) (f : Frame) : Prop :=
  htons (getPacket s.m f).payload.ethHdr.etherType ≠ ethertypeIp ∧
    htons (getPacket s.m f).payload.ethHdr.etherType = ethertypeArp

theorem treatment_of_request (harp : IsArp s f)
    (hreq : ntohs (getPacket s.m f).payload.arpHdr.op = arpopRequest) :
    treatment env s f =
      Part.some (.ok (s.arpTable, s.waiting, [arpReplier env.ifs (getPacket s.m f)])) := by
  unfold treatment iteration arpHandler
  simp only [if_neg harp.1, if_pos harp.2, if_pos hreq, Part.map_some]
  rfl

theorem treatment_of_reply (harp : IsArp s f)
    (hreq : ntohs (getPacket s.m f).payload.arpHdr.op ≠ arpopRequest)
    (hrep : isReplyForUs env.ifs (getPacket s.m f) = true) :
    treatment env s f = (searchQueue env (learned s.arpTable (getPacket s.m f)) s.mem
      s.noMacDestQueue).map
        (Except.map (SearchState.observe (learned s.arpTable (getPacket s.m f)))) := by
  unfold treatment iteration arpHandler
  simp only [if_neg harp.1, if_pos harp.2, if_neg hreq, hrep, if_true, Part.map_map]
  congr 1
  funext r
  rcases r with fault | q <;> rfl

/-- A packet without extent is discarded. -/
theorem treatment_of_extent_zero (hqueue : ∀ a ∈ s.noMacDestQueue, a = savedAddr)
    (h : extent env.ifs (getPacket s.m f) = 0) :
    treatment env s f = Part.some (.ok (s.arpTable, s.waiting, [])) := by
  unfold extent at h
  split_ifs at h with hip hecho hver harp hreact
  · rw [treatment_of_isIp hqueue hip, ipBranch_of_corrupted env _ (by simpa using hecho)
      (by simpa using hver)]
    rfl
  · push Not at hreact
    unfold treatment iteration arpHandler
    simp only [if_neg hip, if_pos harp, if_neg hreact.1, if_neg hreact.2, Part.map_some]
    rfl
  · unfold treatment iteration
    simp only [if_neg hip, if_neg harp, Part.map_some]
    rfl

end TemePCom.Router
