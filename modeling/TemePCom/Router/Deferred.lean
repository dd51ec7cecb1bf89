/-
TemePCom/Router/Deferred.lean

The detour through the waiting queue.

A packet whose next hop is unknown is saved after its TTL and checksum have been
updated, with the interface of its route; `search_queue` looks its route up again
and fills in the two hardware addresses.  The direct branch does the same things in
another order and builds the Ethernet header anew.  What leaves the router is the
same: the lookup reads the destination address only, which the update does not touch
(`forwarded_eq_addressed`), and the type of the header is still the one the packet
came with.

The waiting packets are taken as values: their cells are pairwise distinct.
-/
import TemePCom.Router.Parking

namespace TemePCom.Router

open StateTransition

variable {env : Env} {arpTable : List ArpEntry} {m p : Packet}

/-- An iteration transmits one frame. -/
def Transmits (env : Env) (s : State) (frame f : Frame) : Prop :=
  ∃ s', iteration env s frame = Part.some (.ok (s', [f]))

/-! ### One packet -/

/-- The packet as `main` saves it. -/
def savedAs (m : Packet) (route : RtableEntry) : Packet :=
  { aged m with interface := route.interface }

theorem daddr_savedAs (m : Packet) (route : RtableEntry) :
    (savedAs m route).payload.ipHdr.daddr = m.payload.ipHdr.daddr := by
  show (aged m).payload.ipHdr.daddr = _
  rw [aged, ipHdr_setIpHdr]
  rfl

/-- **Both paths build the same packet.** -/
theorem forwarded_eq_addressed (ifs : Interfaces) (route : RtableEntry) (arpEntry : ArpEntry)
    (hip : htons m.payload.ethHdr.etherType = ethertypeIp) :
    forwarded ifs m route arpEntry = addressed ifs (savedAs m route) route arpEntry := by
  have htype : ntohs ethertypeIp = m.payload.ethHdr.etherType := by rw [← hip, ntohs_ntohs]
  have heth : ethHdrSetter arpEntry.mac (ifs.mac route.interface) ethertypeIp =
      { (savedAs m route).payload.ethHdr with
        etherDhost := arpEntry.mac
        etherShost := ifs.mac route.interface } := by
    show (⟨_, _, ntohs ethertypeIp⟩ : EtherHeader) = ⟨_, _, (aged m).payload.ethHdr.etherType⟩
    rw [htype, aged, ethHdr_setIpHdr]
  unfold forwarded
  rw [heth]
  rfl

/-- What a parked packet was, and where it was going. -/
theorem parked_cases {s : State} {frame : Frame} (h : parkedBy env s frame = some p) :
    htons (getPacket s.m frame).payload.ethHdr.etherType = ethertypeIp ∧
      Accepted env.ifs (getPacket s.m frame) ∧ ∃ route,
        getBestRoute env.rtable (getPacket s.m frame).payload.ipHdr.daddr = .ok (some route) ∧
        p = savedAs (getPacket s.m frame) route := by
  unfold parkedBy at h
  by_cases hip : htons (getPacket s.m frame).payload.ethHdr.etherType = ethertypeIp
  swap
  · simp [hip] at h
  refine ⟨hip, ?_⟩
  rcases hr : ipBranch env s.arpTable (getPacket s.m frame) with fault | r
  · simp [hip, hr] at h
  have hsaved : r.saved = some p := by simpa [hip, hr] using h
  rcases ipBranch_cases hr with ⟨-, rfl⟩ | ⟨-, -, rfl⟩ | ⟨-, -, -, rfl⟩ | ⟨-, -, rfl⟩ |
    ⟨hacc, route, hroute, -, rfl⟩ | ⟨-, route, existing, -, -, rfl⟩
  case inr.inr.inr.inr.inl =>
    exact ⟨hacc, route, hroute, (Option.some.inj hsaved).symm⟩
  all_goals cases hsaved

/-- **One packet.**  Once its next hop is known, the queue delivers what the direct
branch transmits. -/
theorem transmits_of_delivery {s : State} {frame f : Frame}
    (hpark : parkedBy env s frame = some p) (hf : delivery env arpTable p = some f) :
    Transmits env { s with arpTable := arpTable } frame f := by
  obtain ⟨hip, hacc, route, hroute, rfl⟩ := parked_cases hpark
  unfold delivery at hf
  rw [daddr_savedAs, hroute] at hf
  obtain ⟨existing, harp, rfl⟩ := Option.map_eq_some_iff.mp hf
  rw [← forwarded_eq_addressed env.ifs route existing hip]
  have hbranch := ipBranch_forward hacc hroute harp
  refine ⟨{ s with
    m := forwarded env.ifs (getPacket s.m frame) route existing
    arpTable := arpTable }, ?_⟩
  simp only [iteration, hip, if_true, hbranch, Except.map]
  rfl

/-! ### The queue -/

/-- What the queue delivers for packets that were parked, packet by packet. -/
theorem forall₂_delivery {arrivals : List (State × Frame)} {saved : List Packet}
    (hpark : List.Forall₂ (fun x p => parkedBy env x.1 x.2 = some p) arrivals saved)
    (hres : ∀ p ∈ saved, Resolved env arpTable p) :
    List.Forall₂ (fun x f => Transmits env { x.1 with arpTable := arpTable } x.2 f) arrivals
      (saved.filterMap (delivery env arpTable)) := by
  induction hpark with
  | nil => exact .nil
  | @cons x p xs ps hx _ ih =>
    obtain ⟨f, hf⟩ := Option.isSome_iff_exists.mp (hres p List.mem_cons_self)
    rw [List.filterMap_cons_some hf]
    exact .cons (transmits_of_delivery hx hf)
      (ih fun p' hp' => hres p' (List.mem_cons_of_mem _ hp'))

/-- **The deferred path sends what the direct path would have sent.**  Packets are
parked, each in a state of its own; later all their next hops are known.  Then
`search_queue` ends, leaves nothing waiting, and transmits in order the very frames
the main loop would have transmitted on arrival with the later ARP table. -/
theorem searchQueue_eq_direct (env : Env) (arrivals : List (State × Frame))
    (saved : List Packet) (mem : Memory) (queue : List Addr) (arpTable : List ArpEntry)
    (hpark : List.Forall₂ (fun x p => parkedBy env x.1 x.2 = some p) arrivals saved)
    (hnodup : queue.Nodup) (hqueue : queue.map mem = saved)
    (hres : ∀ p ∈ saved, Resolved env arpTable p) :
    ∃ q, .ok q ∈ searchQueue env arpTable mem queue ∧ q.noMacDestQueue = [] ∧
      List.Forall₂ (fun x f => Transmits env { x.1 with arpTable := arpTable } x.2 f)
        arrivals q.sent := by
  subst hqueue
  have hcells : ∀ a ∈ queue, Resolved env arpTable (mem a) := fun a ha =>
    hres _ (List.mem_map_of_mem ha)
  obtain ⟨mem', hreach⟩ := searchQueue_reaches hnodup mem [] hcells
  refine ⟨⟨mem', [], [], queue.filterMap fun a => delivery env arpTable (mem a)⟩, ?_, rfl, ?_⟩
  · exact (Part.mem_map_iff _).mpr ⟨_, mem_eval.mpr ⟨hreach, rfl⟩, rfl⟩
  · have hframes := forall₂_delivery hpark hres
    rwa [List.filterMap_map] at hframes

/-- What a router that knows no address yet saves of a short frame. -/
def savedShort (x : ℕ) : Packet :=
  savedAs (getPacket blankPacket (shortFrame (UInt8.ofNat x))) ⟨0, 2, 0, 1⟩

theorem parkedBy_shortFrame (mem : Memory) (x : ℕ) :
    parkedBy twoRoutes (State.start blankPacket mem) (shortFrame (UInt8.ofNat x)) =
      some (savedShort x) := by
  set s := State.start blankPacket mem
  obtain ⟨r, p, hr, hp⟩ := shortFrame_parks (s := s) (UInt8.ofNat x) rfl
  have hpark : parkedBy twoRoutes s (shortFrame (UInt8.ofNat x)) = some p :=
    (parkedBy_eq_saved (isIp_shortFrame s.m _) hr).trans hp
  obtain ⟨-, -, route, hroute, rfl⟩ := parked_cases hpark
  have hdefault : getBestRoute twoRoutes.rtable
      (getPacket blankPacket (shortFrame (UInt8.ofNat x))).payload.ipHdr.daddr =
      .ok (some ⟨0, 2, 0, 1⟩) := by
    show getBestRoute twoRoutes.rtable 0 = _
    decide
  obtain rfl := Option.some.inj (Except.ok.inj (hroute.symm.trans hdefault))
  exact hpark

theorem resolved_savedShort (x : ℕ) :
    Resolved twoRoutes [⟨2, fun _ => 7⟩] (savedShort x) := by
  have hdefault : getBestRoute twoRoutes.rtable (savedShort x).payload.ipHdr.daddr =
      .ok (some ⟨0, 2, 0, 1⟩) := by
    rw [savedShort, daddr_savedAs]
    show getBestRoute twoRoutes.rtable 0 = _
    decide
  unfold Resolved delivery
  rw [hdefault]
  rfl

/-- Two packets for `0.0.0.0`, and an ARP table that knows their next hop. -/
theorem searchQueue_eq_direct_savedShort :
    ∃ q, .ok q ∈ searchQueue twoRoutes [⟨2, fun _ => 7⟩] savedShort [0, 1] ∧
      q.noMacDestQueue = [] ∧
      List.Forall₂
        (fun x f => Transmits twoRoutes { x.1 with arpTable := [⟨2, fun _ => 7⟩] } x.2 f)
        [(State.start blankPacket savedShort, shortFrame (UInt8.ofNat 0)),
          (State.start blankPacket savedShort, shortFrame (UInt8.ofNat 1))] q.sent :=
  searchQueue_eq_direct twoRoutes
    [(State.start blankPacket savedShort, shortFrame (UInt8.ofNat 0)),
      (State.start blankPacket savedShort, shortFrame (UInt8.ofNat 1))]
    [savedShort 0, savedShort 1] savedShort [0, 1] [⟨2, fun _ => 7⟩]
    (.cons (parkedBy_shortFrame savedShort 0) (.cons (parkedBy_shortFrame savedShort 1) .nil))
    (by decide) rfl
    (by simp only [List.forall_mem_cons]
        exact ⟨resolved_savedShort 0, resolved_savedShort 1, by simp⟩)

end TemePCom.Router
