/-
TemePCom/Router/Discarding.lean

What `is_garbage` keeps from happening, and what it does not.

A packet whose header does not verify is discarded by `is_garbage`, but
`icmp_handler` has looked at it before: a corrupted echo request for the ingress
interface is answered.  It is the only corrupted packet with an effect
(`noEffect_iff`).

A packet whose TTL is used up is answered with Time Exceeded.  The answer has the
TTL of the packet it answers, so the next router discards it for the same reason,
whatever its tables are (`timeExceeded_not_survives`).
-/
import TemePCom.Router.Network

namespace TemePCom.Router

variable {env : Env} {s : State} {frame : Frame} {m p q : Packet}

/-- The frame that has been received is taken for an IP packet. -/
def IsIp (s : State) (frame : Frame) : Prop :=
  htons (getPacket s.m frame).payload.ethHdr.etherType = ethertypeIp

/-- The iteration that receives an IP packet is that of the IP branch. -/
theorem iteration_of_isIp (h : IsIp s frame) {r : IpResult}
    (hr : ipBranch env s.arpTable (getPacket s.m frame) = .ok r) :
    iteration env s frame =
      Part.some (.ok (State.afterIp { s with m := getPacket s.m frame } r, r.sent)) := by
  unfold IsIp at h
  simp only [iteration, h, if_true, hr, Except.map]

/-! ### Corrupted packets -/

/-- Nothing is sent, and the ARP table and the waiting packets stay. -/
def NoEffect (env : Env) (s : State) (frame : Frame) : Prop :=
  ∃ s', .ok (s', []) ∈ iteration env s frame ∧ s'.arpTable = s.arpTable ∧
    s'.noMacDestQueue = s.noMacDestQueue ∧ s'.mem = s.mem

/-- An echo request is answered without a look at its checksum. -/
theorem ipBranch_of_echo (env : Env) (arpTable : List ArpEntry)
    (h : isEchoForUs env.ifs m = true) :
    ipBranch env arpTable m = .ok ⟨m, [sendIcmp env.ifs m icmpEchoreply], none⟩ := by
  simp [ipBranch, icmpHandler, h]

theorem ipBranch_of_corrupted (env : Env) (arpTable : List ArpEntry)
    (hecho : isEchoForUs env.ifs m = false) (hbad : verifies m.payload.ipHdr = false) :
    ipBranch env arpTable m = .ok ⟨m, [], none⟩ := by
  simp [ipBranch, icmpHandler, isGarbage, hecho, hbad]

/-- **When a corrupted packet has no effect**: iff it is not an echo request for
the ingress interface. -/
theorem noEffect_iff (env : Env) (s : State) (frame : Frame) (hip : IsIp s frame)
    (hbad : verifies (getPacket s.m frame).payload.ipHdr = false) :
    NoEffect env s frame ↔ isEchoForUs env.ifs (getPacket s.m frame) = false := by
  constructor
  · rintro ⟨s', hs', -⟩
    by_contra hecho
    have hecho : isEchoForUs env.ifs (getPacket s.m frame) = true := by simpa using hecho
    rw [iteration_of_isIp hip (ipBranch_of_echo env _ hecho), Part.mem_some_iff] at hs'
    cases hs'
  · intro hecho
    rw [NoEffect, iteration_of_isIp hip (ipBranch_of_corrupted env _ hecho hbad)]
    exact ⟨_, Part.mem_some _, rfl, rfl, rfl⟩

/-- An ICMP packet for `0.0.0.0` whose checksum is wrong. -/
def corrupted (icmpType : UInt8) : Frame where
  interface := 0
  bytes := [0, 0, 0, 0, 0, 0, 0, 0, 0, 0, 0, 0, 8, 0] ++
    [0, 0, 0, 0, 0, 0, 0, 0, 2, 1, 0, 0, 0, 0, 0, 0, 0, 0, 0, 0] ++
    [icmpType, 0, 0, 0, 0, 0, 0, 0]

theorem isIp_corrupted (s : State) (icmpType : UInt8) : IsIp s (corrupted icmpType) := by
  show ntohs (load16 8 0) = ethertypeIp
  decide

theorem verifies_corrupted (m : Packet) (icmpType : UInt8) :
    verifies (getPacket m (corrupted icmpType)).payload.ipHdr = false := by
  have hnot : ¬ 65535 ∣ OnesComplement.wordSum
      [0, 0, 0, 0, 0, 0, 0, 0, 2, 1, 0, 0, 0, 0, 0, 0, 0, 0, 0, 0] := by decide
  rw [← Bool.not_eq_true, verifies_iff, bytes_ipHdr,
    getPacket_of_le (show (corrupted icmpType).bytes.length ≤ maxLen from
      show 42 ≤ 1600 by decide),
    Buffer.slice_store_zero _ (show 14 + 20 ≤ 42 by decide)]
  exact hnot

/-- A router that has received nothing yet. -/
def blankState : State := State.start blankPacket fun _ => blankPacket

/-- A corrupted echo reply. -/
theorem noEffect_iff_echoreply : NoEffect twoRoutes blankState (corrupted icmpEchoreply) ↔
    isEchoForUs twoRoutes.ifs (getPacket blankState.m (corrupted icmpEchoreply)) = false :=
  noEffect_iff twoRoutes blankState _ (isIp_corrupted _ _) (verifies_corrupted _ _)

/-- A corrupted echo request is answered. -/
theorem not_noEffect_echo : ∃ env s frame, IsIp s frame ∧
    verifies (getPacket s.m frame).payload.ipHdr = false ∧ ¬ NoEffect env s frame := by
  refine ⟨twoRoutes, blankState, corrupted icmpEcho, isIp_corrupted _ _,
    verifies_corrupted _ _, ?_⟩
  rintro ⟨s', hs', -⟩
  have hecho : isEchoForUs twoRoutes.ifs (getPacket blankState.m (corrupted icmpEcho)) = true := by
    decide
  rw [iteration_of_isIp (isIp_corrupted _ _) (ipBranch_of_echo _ _ hecho),
    Part.mem_some_iff] at hs'
  cases hs'

/-! ### Expired packets -/

/-- The router answers the packet with Time Exceeded. -/
structure Expires (ifs : Interfaces) (p : Packet) : Prop where
  unhandled : (icmpHandler ifs p).1 = false
  answered : sendIcmp ifs p icmpTimeExceeded ∈ (isGarbage ifs p).2

/-- The router has a route for the packet and knows its next hop, and the packet is
not for the interface it comes in on. -/
structure WayBack (env : Env) (s : State) (frame : Frame) (route : RtableEntry)
    (arpEntry : ArpEntry) : Prop where
  hasRoute : getBestRoute env.rtable (getPacket s.m frame).payload.ipHdr.daddr = .ok (some route)
  resolved : searchArp s.arpTable route.nextHop = some arpEntry
  notForUs : (getPacket s.m frame).payload.ipHdr.daddr ≠ env.ifs.ip frame.interface

/-- The received packet is sent out of the route's interface. -/
def ForwardsTo (env : Env) (s : State) (frame : Frame) (route : RtableEntry)
    (arpEntry : ArpEntry) : Prop :=
  ∃ s' sent, .ok (s', sent) ∈ iteration env s frame ∧
    sendPacket (forwarded env.ifs (getPacket s.m frame) route arpEntry) ∈ sent

/-- Where there is a way back, the packet is forwarded on it. -/
def Survives (env : Env) (s : State) (frame : Frame) : Prop :=
  ∀ route arpEntry, WayBack env s frame route arpEntry → ForwardsTo env s frame route arpEntry

theorem Expires.ttl {ifs : Interfaces} (h : Expires ifs p) : p.payload.ipHdr.ttl < 2 := by
  by_contra httl
  have hnone : (isGarbage ifs p).2 = [] := by
    unfold isGarbage
    split_ifs <;> rfl
  exact absurd (hnone ▸ h.answered) List.not_mem_nil

/-- Frames that are the same carry the same IP header. -/
theorem ipHdr_of_sendPacket_eq (hp : IsIpPacket p) (hq : IsIpPacket q)
    (h : sendPacket p = sendPacket q) : p.payload.ipHdr = q.payload.ipHdr := by
  have hread : (getPacket p ⟨0, (sendPacket p).bytes⟩).payload.ipHdr = p.payload.ipHdr :=
    ipHdr_getPacket_sendPacket hp.fits hp.whole
  rw [← hread, h, ipHdr_getPacket_sendPacket hq.fits hq.whole]

/-- What is received of a Time Exceeded message. -/
theorem getPacket_timeExceeded (ifs : Interfaces) (m p : Packet) (port : ℕ) :
    ∃ q, getPacket m ⟨port, (sendIcmp ifs p icmpTimeExceeded).bytes⟩ = q ∧ IsIpPacket q ∧
      q.payload.ipHdr = ipHdrSetter p.payload.ipHdr (ifs.ip p.interface) ∧
      ∀ ifs', isEchoForUs ifs' q = false := by
  have hip := isIpPacket_icmpReply ifs p icmpTimeExceeded
  set q := getPacket m ⟨port, (sendIcmp ifs p icmpTimeExceeded).bytes⟩ with hq
  have hhdr : q.payload.ipHdr = (icmpReply ifs p icmpTimeExceeded).payload.ipHdr :=
    ipHdr_getPacket_sendPacket hip.fits hip.whole
  have htype : q.payload.icmpHdr.type =
      (icmpReply ifs p icmpTimeExceeded).payload.icmpHdr.type :=
    type_getPacket_sendPacket hip.fits (show 35 ≤ 42 by decide)
  refine ⟨q, rfl, isIpPacket_getPacket_sendPacket hip, hhdr.trans (ipHdr_icmpReply ..),
    fun ifs' => ?_⟩
  rw [isEchoForUs, htype, type_icmpReply]
  simp [icmpTimeExceeded, icmpEcho]

/-- The next router answers a Time Exceeded message with another one, and does
nothing else. -/
theorem iteration_timeExceeded {ifs : Interfaces} {port : ℕ} (h : p.payload.ipHdr.ttl < 2)
    (hframe : frame = ⟨port, (sendIcmp ifs p icmpTimeExceeded).bytes⟩) :
    iteration env s frame = Part.some (.ok ({ s with m := getPacket s.m frame },
      [sendIcmp env.ifs (getPacket s.m frame) icmpTimeExceeded])) := by
  obtain ⟨q, hq, hip, hhdr, hecho⟩ := getPacket_timeExceeded ifs s.m p port
  subst hframe
  have hver : verifies q.payload.ipHdr = true := by
    rw [hhdr]
    exact verifies_of_check _ _ rfl
  -- the TTL has been copied
  have httl : q.payload.ipHdr.ttl < 2 := by
    rw [hhdr]
    exact h
  have hbranch : ipBranch env s.arpTable q =
      .ok ⟨q, [sendIcmp env.ifs q icmpTimeExceeded], none⟩ := by
    simp [ipBranch, icmpHandler, isGarbage, hecho, hver, httl]
  rw [← hq] at hbranch
  rw [iteration_of_isIp (by rw [IsIp, hq]; exact hip.isIp) hbranch]
  rfl

theorem not_forwardsTo_timeExceeded {ifs : Interfaces} {port : ℕ}
    (h : p.payload.ipHdr.ttl < 2) (route : RtableEntry) (arpEntry : ArpEntry) :
    ¬ ForwardsTo env s ⟨port, (sendIcmp ifs p icmpTimeExceeded).bytes⟩ route arpEntry := by
  rintro ⟨s', sent, hmem, hsent⟩
  rw [iteration_timeExceeded h rfl, Part.mem_some_iff] at hmem
  obtain ⟨q, hq, hip, -, -⟩ := getPacket_timeExceeded ifs s.m p port
  rw [hq] at hmem hsent
  rw [(Prod.mk.inj (Except.ok.inj hmem)).2, List.mem_singleton] at hsent
  -- a forwarded packet has lost one of its TTL, the answer has kept it
  have hfwd : IsIpPacket (forwarded env.ifs q route arpEntry) :=
    ⟨by rw [forwarded, ethHdr_setEthHdr, etherType_ethHdrSetter], hip.whole, hip.fits⟩
  have hhdr := ipHdr_of_sendPacket_eq hfwd (isIpPacket_icmpReply _ _ _) hsent
  rw [forwarded, ipHdr_setEthHdr, aged, ipHdr_setIpHdr, ipHdr_icmpReply] at hhdr
  have httl : q.payload.ipHdr.ttl - 1 = q.payload.ipHdr.ttl := congrArg Iphdr.ttl hhdr
  have hval := congrArg UInt8.toNat httl
  have hlt := q.payload.ipHdr.ttl.toNat_lt
  rw [UInt8.toNat_sub] at hval
  simp only [UInt8.toNat_one] at hval
  omega

/-- **Time Exceeded never survives the way back**: whatever the expired packet, and
whatever the next router, its tables and its buffer. -/
theorem timeExceeded_not_survives (ifs : Interfaces) (p : Packet) (hexp : Expires ifs p)
    (env : Env) (s : State) (port : ℕ) (route : RtableEntry) (arpEntry : ArpEntry)
    (hway : WayBack env s ⟨port, (sendIcmp ifs p icmpTimeExceeded).bytes⟩ route arpEntry) :
    ¬ Survives env s ⟨port, (sendIcmp ifs p icmpTimeExceeded).bytes⟩ :=
  fun hsurvives =>
    not_forwardsTo_timeExceeded hexp.ttl route arpEntry (hsurvives route arpEntry hway)

/-- The routes of `twoRoutes` behind interfaces with other addresses. -/
def nextRouter : Env := { twoRoutes with ifs := ⟨fun _ => 9, fun _ _ => 0⟩ }

/-- It knows its next hop. -/
def nextState : State := { blankState with arpTable := [⟨2, fun _ => 7⟩] }

theorem expires_lastHop : Expires twoRoutes.ifs lastHop where
  unhandled := by decide
  answered := by
    have hver : verifies lastHop.payload.ipHdr = true := expiring_lastHop.verified
    have httl : lastHop.payload.ipHdr.ttl < 2 := by decide
    simp [isGarbage, hver, httl]

theorem wayBack_lastHop : WayBack nextRouter nextState
    ⟨0, (sendIcmp twoRoutes.ifs lastHop icmpTimeExceeded).bytes⟩ ⟨0, 2, 0, 1⟩
    ⟨2, fun _ => 7⟩ := by
  obtain ⟨q, hq, -, hhdr, -⟩ := getPacket_timeExceeded twoRoutes.ifs nextState.m lastHop 0
  -- addressed to the sender of the expired packet
  have hdaddr : q.payload.ipHdr.daddr = 0 := by
    rw [hhdr]
    show lastHop.payload.ipHdr.saddr = 0
    decide
  refine ⟨?_, by decide, ?_⟩
  · rw [hq, hdaddr]
    decide
  · rw [hq, hdaddr]
    decide

/-- The packet on its last hop. -/
theorem timeExceeded_not_survives_lastHop : ¬ Survives nextRouter nextState
    ⟨0, (sendIcmp twoRoutes.ifs lastHop icmpTimeExceeded).bytes⟩ :=
  timeExceeded_not_survives twoRoutes.ifs lastHop expires_lastHop nextRouter nextState 0 _ _
    wayBack_lastHop

theorem not_survives_lastHop : ∃ ifs p, Expires ifs p ∧ ∃ env s port,
    ¬ Survives env s ⟨port, (sendIcmp ifs p icmpTimeExceeded).bytes⟩ :=
  ⟨twoRoutes.ifs, lastHop, expires_lastHop, nextRouter, nextState, 0, fun hsurvives =>
    not_forwardsTo_timeExceeded expires_lastHop.ttl _ _ (hsurvives _ _ wayBack_lastHop)⟩

end TemePCom.Router
