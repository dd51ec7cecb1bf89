/-
TemePCom/Router/Network.lean

Chains of reactions in a network of routers.

Routers are joined by point-to-point links between their interfaces.  A *hop*
leads from a packet in one router's buffer to a packet in a neighbour's: the
first router sends a frame in the iteration that handles the packet, and the
neighbour reads that frame, behind which its buffer may hold anything.

`ip_hdr_setter` gives an ICMP message the TTL of the packet it answers.  So a
Time Exceeded message arrives with a TTL below 2 and is answered in turn, and
two linked routers without a route to their own addresses answer each other's
Destination Unreachable messages.  Everything else is bounded by a measure:
forwarding decreases the TTL, an echo is answered once, and unanswerable
messages bounce at most three times.
-/
import TemePCom.Lib.Chain
import TemePCom.Router.Main
import TemePCom.Router.WaitingQueue
import TemePCom.Router.Checksum

namespace TemePCom.Router

open Relation Chain

/-! ### Reactions and hops -/

/-- An IP packet, as it lies in the buffer of the router that has read it. -/
structure IsIpPacket (p : Packet) : Prop where
  isIp : htons p.payload.ethHdr.etherType = ethertypeIp
  whole : 34 ≤ p.len
  fits : p.len ≤ maxLen

/-- `f` is sent by the iteration that reads `p`. -/
def Reaction (env : Env) (arpTable : List ArpEntry) (p : Packet) (f : Frame) : Prop :=
  ∃ s frame s' sent, s.arpTable = arpTable ∧ getPacket s.m frame = p ∧
    .ok (s', sent) ∈ iteration env s frame ∧ f ∈ sent

/-- Routers `R`, the links between their interfaces, and ARP tables that know
the next hop of every route `get_best_route` may return. -/
structure Network (R : Type*) where
  env : R → Env
  arpTable : R → List ArpEntry
  peer : R × ℕ → Option (R × ℕ)
  peer_symm : ∀ {a b}, peer a = some b → peer b = some a
  resolved : ∀ x destIp route, getBestRoute (env x).rtable destIp = .ok (some route) →
    (searchArp (arpTable x) route.nextHop).isSome

variable {R : Type*} (N : Network R)

/-- The address of a router's interface. -/
def Network.ip (x : R) (i : ℕ) : UInt32 := (N.env x).ifs.ip i

/-- A packet at a router leads to a packet at a neighbour. -/
def Network.Hop (a b : R × Packet) : Prop :=
  ∃ f port m, Reaction (N.env a.1) (N.arpTable a.1) a.2 f ∧
    N.peer (a.1, f.interface) = some (b.1, port) ∧ b.2 = getPacket m ⟨port, f.bytes⟩

section Reading

variable {m p : Packet} {f : Frame} {port : ℕ}

/-- Reading what was sent. -/
theorem getPacket_sendPacket (h : p.len ≤ maxLen) :
    getPacket m ⟨port, (sendPacket p).bytes⟩ =
      ⟨p.len, m.payload.store 0 (p.payload.slice 0 p.len), port⟩ := by
  rw [getPacket_of_le (show (p.payload.slice 0 p.len).length ≤ maxLen by simpa using h)]
  simp [sendPacket]

theorem payload_getPacket_sendPacket (h : p.len ≤ maxLen) {i : ℕ} (hi : i < p.len) :
    (getPacket m ⟨port, (sendPacket p).bytes⟩).payload i = p.payload i := by
  rw [getPacket_sendPacket h]
  show Buffer.store m.payload 0 (p.payload.slice 0 p.len) i = _
  rw [Buffer.store_zero_apply (by simpa using hi)]
  simp [Buffer.slice]

theorem ethHdr_congr {b c : Buffer} (h : ∀ i < 14, b i = c i) : b.ethHdr = c.ethHdr := by
  simp only [Buffer.ethHdr, Buffer.mac, Buffer.u16, Nat.zero_add, h 0 (by omega),
    h 1 (by omega), h 2 (by omega), h 3 (by omega), h 4 (by omega), h 5 (by omega),
    h 6 (by omega), h 7 (by omega), h 8 (by omega), h 9 (by omega), h 10 (by omega),
    h 11 (by omega), h 12 (by omega), h 13 (by omega)]

theorem ipHdr_congr {b c : Buffer} (h : ∀ i < 34, b i = c i) : b.ipHdr = c.ipHdr := by
  simp only [Buffer.ipHdr, Buffer.u16, Buffer.u32, h 14 (by omega), h 15 (by omega),
    h 16 (by omega), h 17 (by omega), h 18 (by omega), h 19 (by omega), h 20 (by omega),
    h 21 (by omega), h 22 (by omega), h 23 (by omega), h 24 (by omega), h 25 (by omega),
    h 26 (by omega), h 27 (by omega), h 28 (by omega), h 29 (by omega), h 30 (by omega),
    h 31 (by omega), h 32 (by omega), h 33 (by omega)]

theorem icmpHdr_congr {b c : Buffer} (h : ∀ i < 42, b i = c i) : b.icmpHdr = c.icmpHdr := by
  simp only [Buffer.icmpHdr, Buffer.u16, h 34 (by omega), h 35 (by omega), h 36 (by omega),
    h 37 (by omega), h 38 (by omega), h 39 (by omega), h 40 (by omega), h 41 (by omega)]

theorem arpHdr_congr {b c : Buffer} (h : ∀ i < 42, b i = c i) : b.arpHdr = c.arpHdr := by
  simp only [Buffer.arpHdr, Buffer.mac, Buffer.u16, Buffer.u32, h 14 (by omega),
    h 15 (by omega), h 16 (by omega), h 17 (by omega), h 18 (by omega), h 19 (by omega),
    h 20 (by omega), h 21 (by omega), h 22 (by omega), h 23 (by omega), h 24 (by omega),
    h 25 (by omega), h 26 (by omega), h 27 (by omega), h 28 (by omega), h 29 (by omega),
    h 30 (by omega), h 31 (by omega), h 32 (by omega), h 33 (by omega), h 34 (by omega),
    h 35 (by omega), h 36 (by omega), h 37 (by omega), h 38 (by omega), h 39 (by omega),
    h 40 (by omega), h 41 (by omega)]

/-- A buffer that reads its own packet back stays as it is. -/
theorem getPacket_sendPacket_self (h : p.len ≤ maxLen) :
    getPacket p ⟨p.interface, (sendPacket p).bytes⟩ = p := by
  have hstore : p.payload.store 0 (p.payload.slice 0 p.len) = p.payload := by
    funext i
    by_cases hi : i < p.len
    · rw [Buffer.store_zero_apply (by simpa using hi)]
      simp [Buffer.slice]
    · simp [Buffer.store, hi]
  rw [getPacket_sendPacket h, hstore]

/-- A whole IP header arrives as it was sent. -/
theorem ipHdr_getPacket_sendPacket (h : p.len ≤ maxLen) (hwhole : 34 ≤ p.len) :
    (getPacket m ⟨port, (sendPacket p).bytes⟩).payload.ipHdr = p.payload.ipHdr :=
  ipHdr_congr fun _ hi => payload_getPacket_sendPacket h (by omega)

theorem type_getPacket_sendPacket (h : p.len ≤ maxLen) (htype : 35 ≤ p.len) :
    (getPacket m ⟨port, (sendPacket p).bytes⟩).payload.icmpHdr.type = p.payload.icmpHdr.type :=
  payload_getPacket_sendPacket h (i := 34) (by omega)

theorem isIpPacket_getPacket_sendPacket (h : IsIpPacket p) :
    IsIpPacket (getPacket m ⟨port, (sendPacket p).bytes⟩) where
  isIp := by
    have heth : (getPacket m ⟨port, (sendPacket p).bytes⟩).payload.ethHdr = p.payload.ethHdr :=
      ethHdr_congr fun i hi =>
        payload_getPacket_sendPacket h.fits (by have := h.whole; omega)
    rw [heth]
    exact h.isIp
  whole := by
    rw [getPacket_sendPacket h.fits]
    exact h.whole
  fits := by
    rw [getPacket_sendPacket h.fits]
    exact h.fits

/-- The reactions to an IP packet are what the IP branch sends. -/
theorem reaction_iff {env : Env} {arpTable : List ArpEntry} (h : IsIpPacket p) :
    Reaction env arpTable p f ↔ ∃ r, ipBranch env arpTable p = .ok r ∧ f ∈ r.sent := by
  constructor
  · rintro ⟨s, frame, s', sent, rfl, rfl, hmem, hf⟩
    simp only [iteration, h.isIp, if_true, Part.mem_some_iff] at hmem
    rcases hr : ipBranch env s.arpTable (getPacket s.m frame) with fault | r
    · simp [hr, Except.map] at hmem
    · simp only [hr, Except.map, Except.ok.injEq, Prod.mk.injEq] at hmem
      exact ⟨r, rfl, hmem.2 ▸ hf⟩
  · rintro ⟨r, hr, hf⟩
    have hread := getPacket_sendPacket_self h.fits
    let s : State := ⟨p, fun _ => p, [], arpTable⟩
    have hmem : .ok (s.afterIp r, r.sent) ∈
        iteration env s ⟨p.interface, (sendPacket p).bytes⟩ := by
      simp only [iteration, s, hread, h.isIp, if_true, hr, Except.map, Part.mem_some_iff]
    exact ⟨s, _, _, _, rfl, hread, hmem, hf⟩

end Reading

/-! ### What the neighbour gets -/

/-- `b` has read the ICMP message of the given type with which the router at `a`
answers its packet. -/
structure Originated (icmpType : UInt8) (a b : R × Packet) : Prop where
  peer : N.peer (a.1, a.2.interface) = some (b.1, b.2.interface)
  ipHdr : b.2.payload.ipHdr = ipHdrSetter a.2.payload.ipHdr (N.ip a.1 a.2.interface)
  type : b.2.payload.icmpHdr.type = icmpType
  len : b.2.len = 42

/-- `b` has read the packet that the router at `a` forwards. -/
structure Relayed (a b : R × Packet) : Prop where
  ipHdr : b.2.payload.ipHdr = incrementalChecksum a.2.payload.ipHdr
  type : 35 ≤ a.2.len → b.2.payload.icmpHdr.type = a.2.payload.icmpHdr.type
  len : b.2.len = a.2.len

section Originating

variable {N} {a b : R × Packet} {p : Packet} {icmpType : UInt8}

theorem etherType_ethHdrSetter (destMac sourceMac : Mac) (type : UInt16) :
    htons (ethHdrSetter destMac sourceMac type).etherType = type := ntohs_ntohs type

theorem ipHdr_icmpHdrSetter (b : Buffer) (reqIcmp : Icmphdr) (icmpType : UInt8) :
    (icmpHdrSetter b reqIcmp icmpType).ipHdr = b.ipHdr := by
  rw [icmpHdrSetter, ipHdr_setIcmpHdr, ipHdr_setIcmpHdr]

theorem ethHdr_icmpHdrSetter (b : Buffer) (reqIcmp : Icmphdr) (icmpType : UInt8) :
    (icmpHdrSetter b reqIcmp icmpType).ethHdr = b.ethHdr := by
  rw [icmpHdrSetter, ethHdr_setIcmpHdr, ethHdr_setIcmpHdr]

theorem ipHdr_icmpReply (ifs : Interfaces) (p : Packet) (icmpType : UInt8) :
    (icmpReply ifs p icmpType).payload.ipHdr =
      ipHdrSetter p.payload.ipHdr (ifs.ip p.interface) := by
  rw [icmpReply, ipHdr_icmpHdrSetter, ipHdr_setIpHdr]

theorem ethHdr_icmpReply (ifs : Interfaces) (p : Packet) (icmpType : UInt8) :
    (icmpReply ifs p icmpType).payload.ethHdr =
      ethHdrSetter p.payload.ethHdr.etherShost (ifs.mac p.interface) ethertypeIp := by
  rw [icmpReply, ethHdr_icmpHdrSetter, ethHdr_setIpHdr, ethHdr_setEthHdr]

theorem type_icmpReply (ifs : Interfaces) (p : Packet) (icmpType : UInt8) :
    (icmpReply ifs p icmpType).payload.icmpHdr.type = icmpType := by
  simp only [icmpReply, icmpHdrSetter, icmpHdr_setIcmpHdr]
  split_ifs <;> rfl

theorem isIpPacket_icmpReply (ifs : Interfaces) (p : Packet) (icmpType : UInt8) :
    IsIpPacket (icmpReply ifs p icmpType) where
  isIp := by rw [ethHdr_icmpReply, etherType_ethHdrSetter]
  whole := show 34 ≤ 42 by decide
  fits := show 42 ≤ 1600 by decide

/-- What is read of an ICMP message. -/
theorem originated_getPacket {m : Packet} {port : ℕ}
    (hpeer : N.peer (a.1, a.2.interface) = some (b.1, port))
    (hb : b.2 = getPacket m ⟨port, (sendIcmp (N.env a.1).ifs a.2 icmpType).bytes⟩) :
    Originated N icmpType a b ∧ IsIpPacket b.2 := by
  have hip := isIpPacket_icmpReply (N.env a.1).ifs a.2 icmpType
  rw [sendIcmp] at hb
  refine ⟨⟨?_, ?_, ?_, ?_⟩, hb ▸ isIpPacket_getPacket_sendPacket hip⟩
  · rw [hpeer, hb]
    rfl
  · rw [hb, ipHdr_getPacket_sendPacket hip.fits hip.whole, ipHdr_icmpReply]
    rfl
  · rw [hb]
    exact (type_getPacket_sendPacket hip.fits (show 35 ≤ 42 by decide)).trans
      (type_icmpReply _ _ _)
  · rw [hb, getPacket_sendPacket hip.fits]
    rfl

/-- What is read of a forwarded packet. -/
theorem relayed_getPacket {m : Packet} {port : ℕ} {ifs : Interfaces} {route : RtableEntry}
    {arpEntry : ArpEntry} (hip : IsIpPacket a.2)
    (hb : b.2 = getPacket m ⟨port, (sendPacket (forwarded ifs a.2 route arpEntry)).bytes⟩) :
    Relayed a b ∧ IsIpPacket b.2 := by
  have hfip : IsIpPacket (forwarded ifs a.2 route arpEntry) := by
    refine ⟨?_, hip.whole, hip.fits⟩
    rw [forwarded, ethHdr_setEthHdr, etherType_ethHdrSetter]
  have hfwd : (forwarded ifs a.2 route arpEntry).payload.ipHdr =
      incrementalChecksum a.2.payload.ipHdr := by
    rw [forwarded, ipHdr_setEthHdr, aged, ipHdr_setIpHdr]
  refine ⟨⟨?_, ?_, ?_⟩, hb ▸ isIpPacket_getPacket_sendPacket hfip⟩
  · rw [hb, ipHdr_getPacket_sendPacket hfip.fits hfip.whole, hfwd]
  · -- the ICMP type is behind the headers that forwarding rewrites
    intro hlen
    rw [hb]
    exact type_getPacket_sendPacket hfip.fits hlen
  · rw [hb, getPacket_sendPacket hfip.fits]
    rfl

/-- An ICMP message on a link is read by the neighbour. -/
theorem exists_hop_originated {y : R × ℕ} (hip : IsIpPacket a.2)
    (hpeer : N.peer (a.1, a.2.interface) = some y)
    (hr : ∃ r, ipBranch (N.env a.1) (N.arpTable a.1) a.2 = .ok r ∧
      sendIcmp (N.env a.1).ifs a.2 icmpType ∈ r.sent) :
    ∃ b, N.Hop a b ∧ b.1 = y.1 ∧ Originated N icmpType a b ∧ IsIpPacket b.2 := by
  let b : R × Packet :=
    (y.1, getPacket a.2 ⟨y.2, (sendIcmp (N.env a.1).ifs a.2 icmpType).bytes⟩)
  refine ⟨b, ⟨_, y.2, a.2, (reaction_iff hip).mpr hr, hpeer, rfl⟩, rfl, ?_⟩
  exact originated_getPacket (b := b) hpeer rfl

/-- **The hops**: an echo reply, time exceeded, destination unreachable, or the
packet itself, with their guards. -/
theorem hop_cases (hip : IsIpPacket a.2) (h : N.Hop a b) : IsIpPacket b.2 ∧
    ((isEchoForUs (N.env a.1).ifs a.2 = true ∧ Originated N icmpEchoreply a b) ∨
    (isEchoForUs (N.env a.1).ifs a.2 = false ∧ verifies a.2.payload.ipHdr = true ∧
      a.2.payload.ipHdr.ttl < 2 ∧ Originated N icmpTimeExceeded a b) ∨
    (Accepted (N.env a.1).ifs a.2 ∧
      getBestRoute (N.env a.1).rtable a.2.payload.ipHdr.daddr = .ok none ∧
      Originated N icmpUnreach a b) ∨
    (Accepted (N.env a.1).ifs a.2 ∧ Relayed a b)) := by
  obtain ⟨f, port, m, hreact, hpeer, hb⟩ := h
  obtain ⟨r, hr, hf⟩ := (reaction_iff hip).mp hreact
  have hor : ∀ {icmpType : UInt8}, f ∈ [sendIcmp (N.env a.1).ifs a.2 icmpType] →
      Originated N icmpType a b ∧ IsIpPacket b.2 := by
    intro icmpType hsent
    rw [List.mem_singleton] at hsent
    subst hsent
    exact originated_getPacket hpeer hb
  rcases ipBranch_cases hr with ⟨hecho, rfl⟩ | ⟨-, -, rfl⟩ | ⟨hecho, hver, httl, rfl⟩ |
    ⟨hacc, hroute, rfl⟩ | ⟨-, route, hroute, harp, -⟩ | ⟨hacc, route, arpEntry, -, -, rfl⟩
  · exact ⟨(hor hf).2, Or.inl ⟨hecho, (hor hf).1⟩⟩
  · cases hf
  · exact ⟨(hor hf).2, Or.inr (Or.inl ⟨hecho, hver, httl, (hor hf).1⟩)⟩
  · exact ⟨(hor hf).2, Or.inr (Or.inr (Or.inl ⟨hacc, hroute, (hor hf).1⟩))⟩
  · -- every next hop is in the ARP table
    have hres := N.resolved a.1 _ route hroute
    rw [harp] at hres
    cases hres
  · rw [List.mem_singleton] at hf
    subst hf
    have hrel := relayed_getPacket hip hb
    exact ⟨hrel.2, Or.inr (Or.inr (Or.inr ⟨hacc, hrel.1⟩))⟩

end Originating

/-! ### The two ways to react forever -/

/-- The packet is answered with Time Exceeded on a link. -/
structure Expiring (a : R × Packet) : Prop where
  notEcho : isEchoForUs (N.env a.1).ifs a.2 = false
  verified : verifies a.2.payload.ipHdr = true
  expired : a.2.payload.ipHdr.ttl < 2
  linked : (N.peer (a.1, a.2.interface)).isSome

/-- The router has no route to its own address on the interface. -/
def NoOwnRoute (x : R) (i : ℕ) : Prop := getBestRoute (N.env x).rtable (N.ip x i) = .ok none

/-- The packet goes from the address of one end of a link to the address of the
other, and neither end has a route to its own address. -/
structure Unanswerable (a : R × Packet) : Prop where
  accepted : Accepted (N.env a.1).ifs a.2
  toUs : a.2.payload.ipHdr.daddr = N.ip a.1 a.2.interface
  noRoute : NoOwnRoute N a.1 a.2.interface
  fromPeer : ∃ z j, N.peer (a.1, a.2.interface) = some (z, j) ∧
    a.2.payload.ipHdr.saddr = N.ip z j ∧ NoOwnRoute N z j

variable {N} {a b : R × Packet}

/-- An ICMP message verifies and has the TTL of what it answers. -/
theorem Originated.verifies {icmpType : UInt8} (h : Originated N icmpType a b) :
    verifies b.2.payload.ipHdr = true := by
  rw [h.ipHdr]
  exact verifies_of_check _ _ rfl

theorem Originated.ttl {icmpType : UInt8} (h : Originated N icmpType a b) :
    b.2.payload.ipHdr.ttl = a.2.payload.ipHdr.ttl := by
  rw [h.ipHdr]
  rfl

/-- An ICMP message other than an echo request is not answered with an echo reply. -/
theorem Originated.notEcho {icmpType : UInt8} (h : Originated N icmpType a b)
    (htype : icmpType ≠ icmpEcho) (ifs : Interfaces) : isEchoForUs ifs b.2 = false := by
  simp [isEchoForUs, h.type, htype]

theorem expiring_step (hip : IsIpPacket a.2) (h : Expiring N a) :
    ∃ b, N.Hop a b ∧ Expiring N b := by
  obtain ⟨y, hy⟩ := Option.isSome_iff_exists.mp h.linked
  have hr : ipBranch (N.env a.1) (N.arpTable a.1) a.2 =
      .ok ⟨a.2, [sendIcmp (N.env a.1).ifs a.2 icmpTimeExceeded], none⟩ := by
    simp [ipBranch, icmpHandler, isGarbage, h.notEcho, h.verified, h.expired]
  obtain ⟨b, hhop, -, hor, -⟩ := exists_hop_originated hip hy ⟨_, hr, List.mem_singleton_self _⟩
  refine ⟨b, hhop, hor.notEcho (by decide) _, hor.verifies, hor.ttl ▸ h.expired, ?_⟩
  rw [N.peer_symm hor.peer]
  rfl

theorem unanswerable_step (hip : IsIpPacket a.2) (h : Unanswerable N a) :
    ∃ b, N.Hop a b ∧ Unanswerable N b := by
  obtain ⟨z, j, hz, hsaddr, hzroute⟩ := h.fromPeer
  obtain ⟨hecho, hver, httl⟩ := h.accepted
  have hnone : getBestRoute (N.env a.1).rtable a.2.payload.ipHdr.daddr = .ok none := by
    rw [h.toUs]
    exact h.noRoute
  have hr : ipBranch (N.env a.1) (N.arpTable a.1) a.2 =
      .ok ⟨a.2, [sendIcmp (N.env a.1).ifs a.2 icmpUnreach], none⟩ := by
    simp [ipBranch, icmpHandler, isGarbage, hecho, hver, httl, hnone]
  obtain ⟨b, hhop, -, hor, -⟩ := exists_hop_originated hip hz ⟨_, hr, List.mem_singleton_self _⟩
  obtain ⟨rfl, rfl⟩ : z = b.1 ∧ j = b.2.interface := by
    have hpeer := hor.peer
    rw [hz] at hpeer
    simpa using hpeer
  refine ⟨b, hhop, ⟨hor.notEcho (by decide) _, hor.verifies, hor.ttl ▸ httl⟩, ?_, hzroute,
    a.1, a.2.interface, N.peer_symm hor.peer, ?_, h.noRoute⟩
  · rw [hor.ipHdr]
    exact hsaddr
  · rw [hor.ipHdr]
    rfl

/-! ### The measure -/

/-- The packet cannot be taken for an echo request, here or later. -/
def Quiet (a : R × Packet) : Prop := 35 ≤ a.2.len ∧ a.2.payload.icmpHdr.type ≠ icmpEcho

/-- The packet claims to come from the other end of the link it came over. -/
def FromPeer (N : Network R) (a : R × Packet) : Prop :=
  ∃ z j, N.peer (a.1, a.2.interface) = some (z, j) ∧ a.2.payload.ipHdr.saddr = N.ip z j

open scoped Classical in
/-- How often Destination Unreachable can still bounce. -/
noncomputable def bounces (N : Network R) (a : R × Packet) : ℕ :=
  if ¬ FromPeer N a then 3
  else if a.2.payload.ipHdr.daddr ≠ N.ip a.1 a.2.interface then 2
  else if NoOwnRoute N a.1 a.2.interface then 1
  else 0

open scoped Classical in
/-- Hops left: TTL first, then the one echo reply, then the bounces. -/
noncomputable def hopsLeft (N : Network R) (a : R × Packet) : ℕ :=
  8 * a.2.payload.ipHdr.ttl.toNat + (if Quiet a then 0 else 4) + bounces N a

theorem bounces_le (N : Network R) (a : R × Packet) : bounces N a ≤ 3 := by
  unfold bounces
  split_ifs <;> omega

theorem Originated.quiet {icmpType : UInt8} (h : Originated N icmpType a b)
    (htype : icmpType ≠ icmpEcho) : Quiet b :=
  ⟨by rw [h.len]; omega, by rw [h.type]; exact htype⟩

theorem Relayed.quiet (h : Relayed a b) (ha : Quiet a) : Quiet b :=
  ⟨by rw [h.len]; exact ha.1, by rw [h.type ha.1]; exact ha.2⟩

open scoped Classical in
/-- A Destination Unreachable message comes from the other end of its link, and
goes to its receiver if the message it answers did the same. -/
theorem bounces_originated {icmpType : UInt8} (h : Originated N icmpType a b)
    (hacc : Accepted (N.env a.1).ifs a.2)
    (hnone : getBestRoute (N.env a.1).rtable a.2.payload.ipHdr.daddr = .ok none)
    (hun : ¬ Unanswerable N a) : bounces N b < bounces N a := by
  have hfrom : FromPeer N b :=
    ⟨a.1, a.2.interface, N.peer_symm h.peer, by rw [h.ipHdr]; rfl⟩
  by_cases ha : FromPeer N a
  swap
  · -- the first message on the link
    have hb : bounces N b ≤ 2 := by
      unfold bounces
      rw [if_neg (not_not.mpr hfrom)]
      split_ifs <;> omega
    have : bounces N a = 3 := if_pos ha
    omega
  obtain ⟨z, j, hz, hsaddr⟩ := ha
  obtain ⟨rfl, rfl⟩ : z = b.1 ∧ j = b.2.interface := by
    have hpeer := h.peer
    rw [hz] at hpeer
    simpa using hpeer
  have hto : b.2.payload.ipHdr.daddr = N.ip b.1 b.2.interface := by
    rw [h.ipHdr]
    exact hsaddr
  have hb : bounces N b = if NoOwnRoute N b.1 b.2.interface then 1 else 0 := by
    unfold bounces
    rw [if_neg (not_not.mpr hfrom), if_neg (not_not.mpr hto)]
  have hble : bounces N b ≤ 1 := by rw [hb]; split_ifs <;> omega
  by_cases hdaddr : a.2.payload.ipHdr.daddr = N.ip a.1 a.2.interface
  swap
  · -- from here on both addresses are those of the link
    have : bounces N a = 2 := by
      unfold bounces
      rw [if_neg (not_not.mpr ⟨_, _, hz, hsaddr⟩), if_pos hdaddr]
    omega
  -- both addresses are those of the link: one of its ends has a route
  have hown : NoOwnRoute N a.1 a.2.interface := by
    rw [hdaddr] at hnone
    exact hnone
  have hother : ¬ NoOwnRoute N b.1 b.2.interface :=
    fun hother => hun ⟨hacc, hdaddr, hown, _, _, hz, hsaddr, hother⟩
  have ha : bounces N a = 1 := by
    unfold bounces
    rw [if_neg (not_not.mpr ⟨_, _, hz, hsaddr⟩), if_neg (not_not.mpr hdaddr), if_pos hown]
  rw [hb, if_neg hother, ha]
  exact Nat.zero_lt_one

/-- **Every hop decreases the measure**, unless it answers an expiring or an
unanswerable packet. -/
theorem hopsLeft_hop (hip : IsIpPacket a.2) (hexp : ¬ Expiring N a)
    (hun : ¬ Unanswerable N a) (h : N.Hop a b) : hopsLeft N b < hopsLeft N a := by
  have hbb := bounces_le N b
  obtain ⟨-, ⟨hecho, hor⟩ | ⟨hecho, hver, httl, hor⟩ | ⟨hacc, hnone, hor⟩ | ⟨hacc, hrel⟩⟩ :=
    hop_cases hip h
  · -- an echo request is answered by a quiet packet
    have hloud : ¬ Quiet a := by
      intro hq
      simp only [isEchoForUs, decide_eq_true_eq] at hecho
      exact hq.2 hecho.2.1
    unfold hopsLeft
    rw [if_neg hloud, if_pos (hor.quiet (by decide)), hor.ttl]
    omega
  · -- Time Exceeded on a link
    exact absurd ⟨hecho, hver, httl, by rw [hor.peer]; rfl⟩ hexp
  · -- Destination Unreachable keeps the TTL and is quiet: the bounces pay
    have hlt := bounces_originated hor hacc hnone hun
    unfold hopsLeft
    rw [if_pos (hor.quiet (by decide)), hor.ttl]
    omega
  · -- forwarding: the TTL pays for everything else
    have httl : 2 ≤ a.2.payload.ipHdr.ttl.toNat := by
      have hge := hacc.2.2
      rw [UInt8.lt_iff_toNat_lt] at hge
      exact Nat.le_of_not_lt hge
    have hdec := incrementalChecksum_ttl a.2.payload.ipHdr (by omega)
    unfold hopsLeft
    rw [hrel.ipHdr, hdec]
    by_cases hq : Quiet a
    · rw [if_pos hq, if_pos (hrel.quiet hq)]
      omega
    · rw [if_neg hq]
      split_ifs <;> omega

/-- **When reactions come to an end.**  No chain of reactions to an IP packet is
endless iff the chains never reach a packet that is answered with Time Exceeded
on a link, nor one between the two ends of a link that have no route to their
own addresses. -/
theorem no_endless_reaction_iff (N : Network R) (x : R) (p : Packet) (hip : IsIpPacket p) :
    (¬ ∃ chain : ℕ → R × Packet, chain 0 = (x, p) ∧ ∀ n, N.Hop (chain n) (chain (n + 1))) ↔
      ∀ b, ReflTransGen N.Hop (x, p) b → ¬ Expiring N b ∧ ¬ Unanswerable N b := by
  have hiff := not_endless_iff (r := N.Hop) (a := (x, p)) (fun a => IsIpPacket a.2)
    (fun a => Expiring N a ∨ Unanswerable N a) (hopsLeft N)
    (fun a b ha h => (hop_cases ha h).1)
    (fun a b ha hgood h => hopsLeft_hop ha (fun he => hgood (Or.inl he))
      (fun hu => hgood (Or.inr hu)) h)
    (fun a ha hbad => by
      rcases hbad with he | hu
      · obtain ⟨b, hhop, hb⟩ := expiring_step ha he
        exact ⟨b, hhop, Or.inl hb⟩
      · obtain ⟨b, hhop, hb⟩ := unanswerable_step ha hu
        exact ⟨b, hhop, Or.inr hb⟩) hip
  simpa only [Endless, not_or] using hiff

/-! ### Two routers -/

/-- Two routers with the table `twoRoutes`, linked at their interface 0. -/
def twoRouters : Network Bool where
  env _ := twoRoutes
  arpTable _ := [⟨1, fun _ => 7⟩, ⟨2, fun _ => 7⟩]
  peer a := if a.2 = 0 then some (!a.1, 0) else none
  peer_symm {a b} h := by
    split_ifs at h
    obtain rfl := Option.some.inj h
    simp_all [Prod.ext_iff]
  resolved _ destIp route h := by
    have hmem := mem_of_getBestRoute h
    simp only [twoRoutes, List.mem_cons, List.not_mem_nil, or_false] at hmem
    rcases hmem with rfl | rfl <;> rfl

/-- An IP packet whose TTL is 1. -/
def lastHop : Packet where
  len := 34
  payload := Buffer.store (fun _ => 0) 12
    [8, 0, 0, 0, 0, 0, 0, 0, 0, 0, 1, 0, 0xfe, 0xff, 0, 0, 0, 0, 0, 0, 0, 0]
  interface := 0

theorem isIpPacket_lastHop : IsIpPacket lastHop where
  isIp := by decide
  whole := le_refl 34
  fits := by decide

theorem expiring_lastHop : Expiring twoRouters (false, lastHop) where
  notEcho := by decide
  verified := by
    rw [verifies_iff]
    decide
  expired := by decide
  linked := rfl

/-- The two routers and the packet on its last hop. -/
theorem no_endless_reaction_iff_lastHop :
    (¬ ∃ chain : ℕ → Bool × Packet, chain 0 = (false, lastHop) ∧
      ∀ n, twoRouters.Hop (chain n) (chain (n + 1))) ↔
      ∀ b, ReflTransGen twoRouters.Hop (false, lastHop) b →
        ¬ Expiring twoRouters b ∧ ¬ Unanswerable twoRouters b :=
  no_endless_reaction_iff twoRouters false lastHop isIpPacket_lastHop

/-- Time Exceeded, forever. -/
theorem endless_reaction_lastHop :
    ∃ chain : ℕ → Bool × Packet, chain 0 = (false, lastHop) ∧
      ∀ n, twoRouters.Hop (chain n) (chain (n + 1)) := by
  refine Endless.of_progress (P := fun a => IsIpPacket a.2 ∧ Expiring twoRouters a) ?_
    ⟨isIpPacket_lastHop, expiring_lastHop⟩
  rintro a ⟨ha, hexp⟩
  obtain ⟨b, hhop, hb⟩ := expiring_step ha hexp
  exact ⟨b, hhop, (hop_cases ha hhop).1, hb⟩

end TemePCom.Router
