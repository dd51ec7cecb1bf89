/-
TemePCom/Router/WaitingQueue.lean

When `search_queue` splits the waiting queue.

The doc of the function promises that the packets whose next hop has become
known are sent and the others keep waiting.  The loop puts an unresolved packet
back at the end of the queue it is emptying, so with one such packet in the
queue it goes round for ever (`searchQueue_diverges`).  With none it sends
everything in order and stops (`searchQueue_reaches`).  Hence
`splitsExactly_iff`: the queue is split exactly iff there is nothing to split.

The waiting packets are taken as values: their cells are pairwise distinct.
-/
import TemePCom.Lib.Loop
import TemePCom.Router.Arp

namespace TemePCom.Router

open StateTransition

variable {env : Env} {arpTable : List ArpEntry}

/-! ### What should happen to a waiting packet -/

/-- The packet has a route. -/
def HasRoute (env : Env) (p : Packet) : Prop :=
  ∃ route, getBestRoute env.rtable p.payload.ipHdr.daddr = .ok (some route)

/-- The frame to send for a packet whose next hop is in the table. -/
def delivery (env : Env) (arpTable : List ArpEntry) (p : Packet) : Option Frame :=
  match getBestRoute env.rtable p.payload.ipHdr.daddr with
  | .ok (some route) => (searchArp arpTable route.nextHop).map fun existing =>
      sendPacket (addressed env.ifs p route existing)
  | _ => none

/-- The next hop of the packet is in the ARP table. -/
def Resolved (env : Env) (arpTable : List ArpEntry) (p : Packet) : Prop :=
  (delivery env arpTable p).isSome

instance (env : Env) (arpTable : List ArpEntry) (p : Packet) :
    Decidable (Resolved env arpTable p) := by
  unfold Resolved; infer_instance

/-- `search_queue` ends, has sent the resolved packets in order, each once, and
leaves the unresolved ones waiting in their order, unchanged. -/
def SplitsExactly (env : Env) (arpTable : List ArpEntry) (mem : Memory) (queue : List Addr) :
    Prop :=
  ∃ s, .ok s ∈ searchQueue env arpTable mem queue ∧
    s.sent = queue.filterMap (fun a => delivery env arpTable (mem a)) ∧
    s.noMacDestQueue = queue.filter (fun a => ¬ Resolved env arpTable (mem a)) ∧
    ∀ a ∈ s.noMacDestQueue, s.mem a = mem a

/-! ### One round -/

/-- A resolved packet is rewritten, sent and gone. -/
theorem searchRound_resolved {s : SearchState} {crt : Addr} {f : Frame}
    (rest : List Addr) (h : delivery env arpTable (s.mem crt) = some f) :
    ∃ p, searchRound env arpTable s crt rest = .ok { s with
      mem := Function.update s.mem crt p, noMacDestQueue := rest, sent := s.sent ++ [f] } := by
  unfold delivery at h
  unfold searchRound
  rcases hr : getBestRoute env.rtable (s.mem crt).payload.ipHdr.daddr with fault | (- | route)
  · simp [hr] at h
  · simp [hr] at h
  · simp only [hr, Option.map_eq_some_iff] at h
    obtain ⟨existing, he, rfl⟩ := h
    simp only [he]
    exact ⟨_, rfl⟩

/-- An unresolved packet goes to the end of the same queue. -/
theorem searchRound_unresolved {s : SearchState} {crt : Addr} {rest : List Addr}
    (hroute : HasRoute env (s.mem crt)) (h : ¬ Resolved env arpTable (s.mem crt)) :
    searchRound env arpTable s crt rest =
      .ok { s with noMacDestQueue := rest ++ [crt] } := by
  obtain ⟨route, hr⟩ := hroute
  unfold Resolved delivery at h
  simp only [hr, Option.isSome_map, Option.not_isSome_iff_eq_none] at h
  unfold searchRound
  simp only [hr, h]

/-! ### Everything resolved: the loop drains the queue -/

/-- With nothing waiting, `search_queue` does nothing. -/
theorem searchQueue_nil (env : Env) (arpTable : List ArpEntry) (mem : Memory) :
    searchQueue env arpTable mem [] = Part.some (.ok ⟨mem, [], [], []⟩) := by
  have hhalt : .ok ⟨mem, [], [], []⟩ ∈ eval (searchStep env arpTable) (.ok ⟨mem, [], [], []⟩) :=
    mem_eval.mpr ⟨.refl, rfl⟩
  rw [searchQueue, Part.eq_some_iff.mpr hhalt, Part.map_some]
  rfl

theorem searchQueue_reaches {queue : List Addr} (hnodup : queue.Nodup) (mem : Memory)
    (sent : List Frame) (hres : ∀ a ∈ queue, Resolved env arpTable (mem a)) :
    ∃ mem', Reaches (searchStep env arpTable) (.ok ⟨mem, queue, [], sent⟩)
      (.ok ⟨mem', [], [], sent ++ queue.filterMap fun a => delivery env arpTable (mem a)⟩) := by
  -- the cells that are rewritten on the way belong to packets already sent
  induction queue generalizing mem sent with
  | nil => exact ⟨mem, by rw [List.filterMap_nil, List.append_nil]; exact .refl⟩
  | cons crt rest ih =>
    obtain ⟨hcrt, hrest⟩ := List.nodup_cons.mp hnodup
    obtain ⟨f, hf⟩ := Option.isSome_iff_exists.mp (hres crt List.mem_cons_self)
    obtain ⟨p, hp⟩ := searchRound_resolved (s := ⟨mem, crt :: rest, [], sent⟩) rest hf
    -- the cells of the other packets are not the one that was rewritten
    have hframe : ∀ a ∈ rest, Function.update mem crt p a = mem a := fun a ha =>
      Function.update_of_ne (ne_of_mem_of_not_mem ha hcrt) _ _
    obtain ⟨mem', hmem'⟩ := ih hrest (Function.update mem crt p) (sent ++ [f]) fun a ha => by
      rw [hframe a ha]
      exact hres a (List.mem_cons_of_mem _ ha)
    have hsent : rest.filterMap (fun a => delivery env arpTable (Function.update mem crt p a)) =
        rest.filterMap fun a => delivery env arpTable (mem a) :=
      List.filterMap_congr fun a ha => by rw [hframe a ha]
    rw [hsent, List.append_assoc] at hmem'
    rw [List.filterMap_cons_some (f := fun a => delivery env arpTable (mem a)) hf]
    exact ⟨mem', Relation.ReflTransGen.head (Option.mem_def.mpr (congrArg some hp)) hmem'⟩

/-! ### Something unresolved: the loop never ends -/

/-- What keeps the loop going: distinct cells, all with routes, one unresolved. -/
def Stuck (env : Env) (arpTable : List ArpEntry) (r : Except Fault SearchState) : Prop :=
  ∃ s, r = .ok s ∧ s.noMacDestQueue.Nodup ∧ (∀ a ∈ s.noMacDestQueue, HasRoute env (s.mem a)) ∧
    ∃ a ∈ s.noMacDestQueue, ¬ Resolved env arpTable (s.mem a)

theorem stuck_step {r : Except Fault SearchState} (h : Stuck env arpTable r) :
    ∃ r', searchStep env arpTable r = some r' ∧ Stuck env arpTable r' := by
  obtain ⟨s, rfl, hnodup, hroute, a, ha, hun⟩ := h
  rcases hq : s.noMacDestQueue with - | ⟨crt, rest⟩
  · rw [hq] at ha
    cases ha
  rw [hq] at hnodup hroute ha
  obtain ⟨hcrt, hrest⟩ := List.nodup_cons.mp hnodup
  refine ⟨searchRound env arpTable s crt rest, by simp [searchStep, hq], ?_⟩
  by_cases hc : Resolved env arpTable (s.mem crt)
  · -- the unresolved packet is further back, in a cell of its own
    obtain ⟨f, hf⟩ := Option.isSome_iff_exists.mp hc
    obtain ⟨p, hp⟩ := searchRound_resolved rest hf
    have harest : a ∈ rest := by
      rcases List.mem_cons.mp ha with rfl | h
      · exact absurd hc hun
      · exact h
    have hframe : ∀ b ∈ rest, Function.update s.mem crt p b = s.mem b := fun b hb =>
      Function.update_of_ne (ne_of_mem_of_not_mem hb hcrt) _ _
    refine ⟨_, hp, hrest, fun b hb => ?_, a, harest, ?_⟩
    · show HasRoute env (Function.update s.mem crt p b)
      rw [hframe b hb]
      exact hroute b (List.mem_cons_of_mem _ hb)
    · show ¬ Resolved env arpTable (Function.update s.mem crt p a)
      rw [hframe a harest]
      exact hun
  · -- the round only turns the queue
    have hperm : (rest ++ [crt]).Perm (crt :: rest) := List.perm_append_singleton crt rest
    refine ⟨_, searchRound_unresolved (hroute crt List.mem_cons_self) hc, ?_, ?_, a, ?_, hun⟩
    · exact hperm.nodup_iff.mpr hnodup
    · exact fun b hb => hroute b (hperm.mem_iff.mp hb)
    · exact hperm.mem_iff.mpr ha

/-- With an unresolved packet waiting, `search_queue` does not return. -/
theorem searchQueue_diverges {mem : Memory} {queue : List Addr}
    (h : Stuck env arpTable (.ok ⟨mem, queue, [], []⟩)) (r : Except Fault SearchState) :
    r ∉ searchQueue env arpTable mem queue := by
  intro hr
  obtain ⟨r₀, hr₀, -⟩ := (Part.mem_map_iff _).mp hr
  exact Loop.not_mem_eval (fun _ => stuck_step) h r₀ hr₀

/-! ### The split -/

/-- **When the queue is split exactly**: iff no waiting packet is unresolved. -/
theorem splitsExactly_iff (env : Env) (arpTable : List ArpEntry) (mem : Memory)
    (queue : List Addr) (hnodup : queue.Nodup) (hroute : ∀ a ∈ queue, HasRoute env (mem a)) :
    SplitsExactly env arpTable mem queue ↔
      ∀ a ∈ queue, Resolved env arpTable (mem a) := by
  constructor
  · rintro ⟨s, hs, -⟩
    by_contra hun
    push Not at hun
    exact searchQueue_diverges ⟨_, rfl, hnodup, hroute, hun⟩ _ hs
  · intro hres
    obtain ⟨mem', hreach⟩ := searchQueue_reaches hnodup mem [] hres
    have hnone : queue.filter (fun a => ¬ Resolved env arpTable (mem a)) = [] := by
      rw [List.filter_eq_nil_iff]
      intro a ha
      simpa using hres a ha
    refine ⟨⟨mem', [], [], queue.filterMap fun a => delivery env arpTable (mem a)⟩, ?_, rfl,
      hnone.symm, by simp⟩
    exact (Part.mem_map_iff _).mpr ⟨_, mem_eval.mpr ⟨hreach, rfl⟩, rfl⟩

/-- A default route behind a host route, and interfaces with zero addresses. -/
def twoRoutes : Env where
  rtable := [⟨0xffffffff, 1, 0xffffffff, 0⟩, ⟨0, 2, 0, 1⟩]
  ifs := ⟨fun _ => 0, fun _ _ => 0⟩

/-- The packet whose bytes are all zero. -/
def blankPacket : Packet := ⟨60, fun _ => 0, 0⟩

theorem hasRoute_blankPacket : HasRoute twoRoutes blankPacket := ⟨⟨0, 2, 0, 1⟩, by decide⟩

/-- The routes of `twoRoutes` with another host route between them. -/
def threeRoutes : Env := { twoRoutes with
  rtable := [⟨0xffffffff, 1, 0xffffffff, 0⟩, ⟨0x01010101, 3, 0xffffffff, 0⟩, ⟨0, 2, 0, 1⟩] }

/-- The packet in cell 1 has that route, and all others have the default one. -/
def threePackets : Memory := fun a =>
  if a = 1 then { blankPacket with payload := fun _ => 1 } else { blankPacket with len := 60 + a }

/-- Three packets with two next hops, and an ARP table that knows both. -/
theorem splitsExactly_iff_threePackets :
    SplitsExactly threeRoutes [⟨2, fun _ => 7⟩, ⟨3, fun _ => 8⟩] threePackets [2, 1, 0] := by
  have hbest : ∀ a ∈ [2, 1, 0], ∃ route,
      getBestRoute threeRoutes.rtable (threePackets a).payload.ipHdr.daddr = .ok (some route) ∧
        (2 = route.nextHop ∨ 3 = route.nextHop) := by
    simp only [List.forall_mem_cons, List.not_mem_nil, false_implies, implies_true, and_true]
    exact ⟨⟨⟨0, 2, 0, 1⟩, by decide⟩, ⟨⟨0x01010101, 3, 0xffffffff, 0⟩, by decide⟩,
      ⟨⟨0, 2, 0, 1⟩, by decide⟩⟩
  have hroute : ∀ a ∈ [2, 1, 0], HasRoute threeRoutes (threePackets a) := fun a ha =>
    (hbest a ha).imp fun _ h => h.1
  have hres : ∀ a ∈ [2, 1, 0],
      Resolved threeRoutes [⟨2, fun _ => 7⟩, ⟨3, fun _ => 8⟩] (threePackets a) := by
    intro a ha
    obtain ⟨route, hroute, hhop⟩ := hbest a ha
    simpa [Resolved, delivery, hroute, searchArp] using hhop
  exact (splitsExactly_iff threeRoutes _ threePackets [2, 1, 0] (by decide) hroute).mpr hres

/-- One packet whose next hop is not in the table: `search_queue` hangs. -/
theorem not_splitsExactly_blankPacket :
    ¬ SplitsExactly twoRoutes [] (fun _ => blankPacket) [0] := by
  rintro ⟨s, hs, -⟩
  have hun : ¬ Resolved twoRoutes [] blankPacket := by
    obtain ⟨route, hroute⟩ := hasRoute_blankPacket
    simp [Resolved, delivery, hroute, searchArp]
  exact searchQueue_diverges ⟨_, rfl, by decide, fun _ _ => hasRoute_blankPacket, 0, by decide,
    hun⟩ _ hs

end TemePCom.Router
