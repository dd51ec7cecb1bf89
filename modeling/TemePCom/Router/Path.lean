/-
TemePCom/Router/Path.lean

A packet on its way through a network.

The routers' tables decide for each destination address which interface a packet leaves
on, the links decide where it arrives, and nothing else matters: while the TTL lasts, a
valid packet takes the hop its routes prescribe, and no other, and arrives `k` routers later
with its TTL lowered by `k`, a header that verifies and all other bytes as they were
(`forwarding`).  Where the TTL is used up, the router answers Time Exceeded and the packet
goes no further.
-/
import TemePCom.Router.Network

namespace TemePCom.Router

variable {R : Type*} {N : Network R} {p q : Packet} {k : ℕ}

/-- `b` is reached from `a` in `k` hops. -/
inductive Hops (N : Network R) : ℕ → R × Packet → R × Packet → Prop
  | zero (a : R × Packet) : Hops N 0 a a
  | succ {k : ℕ} {a b c : R × Packet} : Hops N k a b → N.Hop b c → Hops N (k + 1) a c

/-- The packet `q` is the packet `p`, `k` routers later. -/
structure After (k : ℕ) (p q : Packet) : Prop where
  isIp : IsIpPacket q
  ttl : q.payload.ipHdr.ttl.toNat = p.payload.ipHdr.ttl.toNat - k
  header : q.payload.ipHdr =
    { p.payload.ipHdr with ttl := q.payload.ipHdr.ttl, check := q.payload.ipHdr.check }
  verified : verifies q.payload.ipHdr = true
  len : q.len = p.len
  behind : ∀ i, 34 ≤ i → i < p.len → q.payload i = p.payload i

theorem after_zero (hip : IsIpPacket p) (hver : verifies p.payload.ipHdr = true) :
    After 0 p p where
  isIp := hip
  ttl := rfl
  header := rfl
  verified := hver
  len := rfl
  behind := fun _ _ _ => rfl

/-- The routers and the interfaces the packet comes in on: the route of each to the address
`destIp` leads over a link to the next. -/
def Leads (N : Network R) (destIp : UInt32) (x : ℕ → R × ℕ) (n : ℕ) : Prop :=
  ∀ i < n, ∃ route, getBestRoute (N.env (x i).1).rtable destIp = .ok (some route) ∧
    N.peer ((x i).1, route.interface) = some (x (i + 1))

/-! ### One router -/

theorem payload_forwarded_behind (ifs : Interfaces) (p : Packet) (route : RtableEntry)
    (arpEntry : ArpEntry) {i : ℕ} (hi : 34 ≤ i) :
    (forwarded ifs p route arpEntry).payload i = p.payload i := by
  show Buffer.store (Buffer.store p.payload 14 _) 0 _ i = p.payload i
  unfold Buffer.store
  rw [if_neg, if_neg]
  · rw [Iphdr.length_bytes]
    omega
  · rw [EtherHeader.length_bytes]
    omega

/-- What the next router reads of a forwarded packet. -/
theorem After.hop {m : Packet} {ifs : Interfaces} {route : RtableEntry}
    {arpEntry : ArpEntry} {port : ℕ} (h : After k p q) (httl : k + 1 < p.payload.ipHdr.ttl.toNat) :
    After (k + 1) p (getPacket m ⟨port, (sendPacket (forwarded ifs q route arpEntry)).bytes⟩) := by
  set f := forwarded ifs q route arpEntry with hf
  have hread : ∀ i < q.len, (getPacket m ⟨port, (sendPacket f).bytes⟩).payload i = f.payload i :=
    fun i hi => payload_getPacket_sendPacket (p := f) h.isIp.fits hi
  have hpos : 0 < q.payload.ipHdr.ttl.toNat := by
    rw [h.ttl]
    omega
  obtain ⟨hrel, hip⟩ : Relayed ((), q) ((), getPacket m ⟨port, (sendPacket f).bytes⟩) ∧
      IsIpPacket (getPacket m ⟨port, (sendPacket f).bytes⟩) :=
    relayed_getPacket (a := ((), q)) h.isIp (by rw [hf])
  have hhdr : (getPacket m ⟨port, (sendPacket f).bytes⟩).payload.ipHdr =
      incrementalChecksum q.payload.ipHdr := hrel.ipHdr
  refine ⟨hip, ?_, ?_, ?_, ?_, ?_⟩
  · rw [hhdr, incrementalChecksum_ttl _ hpos, h.ttl]
    omega
  · rw [hhdr, incrementalChecksum_frame, h.header]
  · rw [hhdr]
    exact (incrementalChecksum_verifies_iff _ hpos).mpr h.verified
  · exact hrel.len.trans h.len
  · intro i hi hlen
    rw [hread i (h.len ▸ hlen), hf, payload_forwarded_behind _ _ _ _ hi]
    exact h.behind i hi hlen

theorem After.daddr (h : After k p q) : q.payload.ipHdr.daddr = p.payload.ipHdr.daddr := by
  rw [h.header]

/-- The packet is not taken for an echo request at a router whose address it does not bear. -/
theorem After.notEcho {ifs : Interfaces} (h : After k p q)
    (hne : p.payload.ipHdr.daddr ≠ ifs.ip q.interface) : isEchoForUs ifs q = false := by
  unfold isEchoForUs
  rw [h.daddr]
  simp [hne]

/-- **One router.**  It forwards the packet, over the link of the route. -/
theorem After.ipBranch {x : R} {route : RtableEntry} (h : After k p q)
    (httl : k + 1 < p.payload.ipHdr.ttl.toNat)
    (hne : p.payload.ipHdr.daddr ≠ (N.env x).ifs.ip q.interface)
    (hroute : getBestRoute (N.env x).rtable p.payload.ipHdr.daddr = .ok (some route)) :
    ∃ arpEntry, Router.ipBranch (N.env x) (N.arpTable x) q =
      .ok ⟨forwarded (N.env x).ifs q route arpEntry,
        [sendPacket (forwarded (N.env x).ifs q route arpEntry)], none⟩ := by
  have hacc : Accepted (N.env x).ifs q := by
    refine ⟨h.notEcho hne, h.verified, ?_⟩
    rw [UInt8.lt_iff_toNat_lt, h.ttl]
    show ¬ _ < 2
    omega
  obtain ⟨arpEntry, harp⟩ := Option.isSome_iff_exists.mp (N.resolved x _ route hroute)
  exact ⟨arpEntry, ipBranch_forward hacc (by rw [h.daddr, hroute]) harp⟩

/-- Where the TTL is used up. -/
theorem After.expires {x : R} (h : After k p q) (httl : p.payload.ipHdr.ttl.toNat ≤ k + 1)
    (hne : p.payload.ipHdr.daddr ≠ (N.env x).ifs.ip q.interface) :
    Router.ipBranch (N.env x) (N.arpTable x) q =
      .ok ⟨q, [sendIcmp (N.env x).ifs q icmpTimeExceeded], none⟩ := by
  have hlt : q.payload.ipHdr.ttl < 2 := by
    rw [UInt8.lt_iff_toNat_lt, h.ttl]
    show _ < 2
    omega
  simp [Router.ipBranch, icmpHandler, isGarbage, h.notEcho hne, h.verified, hlt]

/-! ### The path -/

section Forwarding

variable {x : ℕ → R × ℕ} {n : ℕ}

/-- What is known of a packet after `k` hops. -/
def OnPath (x : ℕ → R × ℕ) (k : ℕ) (p : Packet) (b : R × Packet) : Prop :=
  b.1 = (x k).1 ∧ b.2.interface = (x k).2 ∧ After k p b.2

theorem onPath_step {b : R × Packet} (hlead : Leads N p.payload.ipHdr.daddr x n)
    (hne : ∀ i < n, p.payload.ipHdr.daddr ≠ N.ip (x i).1 (x i).2) (hk : k < n)
    (httl : k + 1 < p.payload.ipHdr.ttl.toNat) (h : OnPath x k p b) :
    (∃ c, N.Hop b c) ∧ ∀ c, N.Hop b c → OnPath x (k + 1) p c := by
  obtain ⟨y, q⟩ := b
  obtain ⟨rfl, hin, hafter⟩ := h
  obtain ⟨route, hroute, hpeer⟩ := hlead k hk
  have hours : p.payload.ipHdr.daddr ≠ (N.env (x k).1).ifs.ip q.interface := by
    rw [hin]
    exact hne k hk
  obtain ⟨arpEntry, hbranch⟩ := hafter.ipBranch httl hours hroute
  constructor
  · exact ⟨((x (k + 1)).1, _), _, (x (k + 1)).2, q, (reaction_iff hafter.isIp).mpr
      ⟨_, hbranch, List.mem_singleton_self _⟩, hpeer, rfl⟩
  · rintro ⟨z, q'⟩ ⟨f, port, m, hreact, hpeer', rfl⟩
    obtain ⟨r, hr, hf⟩ := (reaction_iff hafter.isIp).mp hreact
    obtain rfl := Except.ok.inj (hbranch.symm.trans hr)
    obtain rfl := List.mem_singleton.mp hf
    -- the frame leaves on the interface of the route
    obtain ⟨rfl, rfl⟩ := Prod.mk.inj (Option.some.inj (hpeer.symm.trans hpeer'))
    exact ⟨rfl, rfl, hafter.hop httl⟩

/-- **A packet on its way**, with a header that verifies, to an address that no interface it
arrives on has.  While the TTL lasts, there is a next hop, and every chain of hops is the one
of the routes; after `k` of them the packet has lost `k` from its TTL and is otherwise as it was.  With a TTL of at most the number of routers, the last one it reaches
answers Time Exceeded, and nothing else. -/
theorem forwarding (N : Network R) (x : ℕ → R × ℕ) (n : ℕ) (p : Packet) (hip : IsIpPacket p)
    (hver : verifies p.payload.ipHdr = true) (hin : p.interface = (x 0).2)
    (hlead : Leads N p.payload.ipHdr.daddr x n)
    (hne : ∀ i < n, p.payload.ipHdr.daddr ≠ N.ip (x i).1 (x i).2) :
    (∀ k ≤ n, k < p.payload.ipHdr.ttl.toNat → (∃ b, Hops N k ((x 0).1, p) b) ∧
      ∀ b, Hops N k ((x 0).1, p) b → OnPath x k p b) ∧
    (0 < p.payload.ipHdr.ttl.toNat → p.payload.ipHdr.ttl.toNat ≤ n →
      ∀ b, Hops N (p.payload.ipHdr.ttl.toNat - 1) ((x 0).1, p) b →
        ipBranch (N.env b.1) (N.arpTable b.1) b.2 =
          .ok ⟨b.2, [sendIcmp (N.env b.1).ifs b.2 icmpTimeExceeded], none⟩) := by
  have hpath : ∀ k ≤ n, k < p.payload.ipHdr.ttl.toNat → (∃ b, Hops N k ((x 0).1, p) b) ∧
      ∀ b, Hops N k ((x 0).1, p) b → OnPath x k p b := by
    intro k
    induction k with
    | zero =>
      intro _ _
      refine ⟨⟨_, .zero _⟩, fun b hb => ?_⟩
      cases hb
      exact ⟨rfl, hin, after_zero hip hver⟩
    | succ k ih =>
      intro hk httl
      obtain ⟨⟨b, hb⟩, hall⟩ := ih (by omega) (by omega)
      constructor
      · obtain ⟨⟨c, hc⟩, -⟩ := onPath_step hlead hne hk httl (hall b hb)
        exact ⟨c, hb.succ hc⟩
      · rintro c (- | ⟨hb', hc⟩)
        exact (onPath_step hlead hne hk httl (hall _ hb')).2 c hc
  refine ⟨hpath, fun hpos hle b hb => ?_⟩
  obtain ⟨hx, hin', hafter⟩ := (hpath (p.payload.ipHdr.ttl.toNat - 1) (by omega) (by omega)).2 b hb
  apply hafter.expires (by omega)
  rw [hin', hx]
  exact hne _ (by omega)

end Forwarding

/-- Two routers with the table `twoRoutes`, linked at their interface 1. -/
def twoLinked : Network Bool where
  env _ := twoRoutes
  arpTable _ := twoRouters.arpTable false
  peer a := if a.2 = 1 then some (!a.1, 1) else none
  peer_symm {a b} h := by
    split_ifs at h
    obtain rfl := Option.some.inj h
    simp_all [Prod.ext_iff]
  resolved _ := twoRouters.resolved false

/-- An IP packet for `255.255.0.0` whose TTL is 2. -/
def twoHops : Packet where
  len := 34
  payload := Buffer.store (fun _ => 0) 12
    [8, 0, 0, 0, 0, 0, 0, 0, 0, 0, 2, 0, 0xfd, 0xff, 0, 0, 0, 0, 0xff, 0xff, 0, 0]
  interface := 1

theorem verifies_twoHops : verifies twoHops.payload.ipHdr = true := by
  rw [verifies_iff]
  decide

/-- To and fro between the two routers. -/
def toAndFro (i : ℕ) : Bool × ℕ := (i % 2 = 1, 1)

theorem leads_toAndFro : Leads twoLinked twoHops.payload.ipHdr.daddr toAndFro 2 := by
  intro i hi
  refine ⟨⟨0, 2, 0, 1⟩, ?_, ?_⟩
  · show getBestRoute twoRoutes.rtable 0xffff = _
    decide
  · interval_cases i <;> rfl

/-- One hop, and the answer Time Exceeded. -/
theorem forwarding_twoHops :
    (∀ k ≤ 2, k < twoHops.payload.ipHdr.ttl.toNat →
      (∃ b, Hops twoLinked k (false, twoHops) b) ∧
        ∀ b, Hops twoLinked k (false, twoHops) b → OnPath toAndFro k twoHops b) ∧
    (0 < twoHops.payload.ipHdr.ttl.toNat → twoHops.payload.ipHdr.ttl.toNat ≤ 2 →
      ∀ b, Hops twoLinked (twoHops.payload.ipHdr.ttl.toNat - 1) (false, twoHops) b →
        ipBranch (twoLinked.env b.1) (twoLinked.arpTable b.1) b.2 =
          .ok ⟨b.2, [sendIcmp (twoLinked.env b.1).ifs b.2 icmpTimeExceeded], none⟩) :=
  forwarding twoLinked toAndFro 2 twoHops ⟨by decide, le_refl 34, by decide⟩ verifies_twoHops rfl
    leads_toAndFro fun _ _ => show twoHops.payload.ipHdr.daddr ≠ 0 by decide

end TemePCom.Router
