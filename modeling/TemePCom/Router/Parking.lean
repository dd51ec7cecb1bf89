/-
TemePCom/Router/Parking.lean

Whether a parked packet keeps its contents.

The queue holds addresses, so what a packet was when it was enqueued is not part
of the router's state.  It is kept next to it here: a `Ghost` pairs the state
with the packets behind the queued addresses *as they were enqueued*, and the
loop of `search_queue` is followed with the same list (`ghostStep`).  Erasing the
list gives the router back (`GhostNext` is `Next` on the state,
`searchStep_of_ghostStep` on the loop).

Every parked packet is in the same cell, that of the block-local `saved`.  With
one packet waiting nothing can go wrong; parking a second one overwrites the
first, and the reply that resolves it then finds the wrong packet, or one with
the Ethernet header of the packet just sent.  So all packets keep their contents
along a run iff each is parked while no other is waiting (`intact_iff`).
-/
import TemePCom.Lib.Run
import TemePCom.Router.Main
import TemePCom.Router.WaitingQueue
import TemePCom.Router.Checksum

namespace TemePCom.Router

open StateTransition Runs

variable {env : Env} {arpTable : List ArpEntry}

/-! ### The state and what was enqueued -/

/-- The router's state, with the enqueued packets as they were. -/
structure Ghost where
  st : State
  was : List Packet

def Ghost.start (m : Packet) (mem : Memory) : Ghost := ⟨State.start m mem, []⟩

/-- The packet the router parks on a frame. -/
def parkedBy (env : Env) (s : State) (frame : Frame) : Option Packet :=
  let m := getPacket s.m frame
  if htons m.payload.ethHdr.etherType = ethertypeIp then
    match ipBranch env s.arpTable m with
    | .ok r => r.saved
    | .error _ => none
  else none

/-- The router runs `search_queue` on a frame. -/
def searches (env : Env) (s : State) (frame : Frame) : Bool :=
  let m := getPacket s.m frame
  htons m.payload.ethHdr.etherType ≠ ethertypeIp ∧
    htons m.payload.ethHdr.etherType = ethertypeArp ∧ isReplyForUs env.ifs m

/-- A step of the router.  `search_queue` only returns with an empty queue. -/
def GhostNext (env : Env) (g : Ghost) (frame : Frame) (g' : Ghost) : Prop :=
  Next env g.st frame g'.st ∧
    g'.was = if searches env g.st frame then [] else g.was ++ (parkedBy env g.st frame).toList

/-- One round of `search_queue`; a packet that goes back is enqueued anew. -/
def ghostStep (env : Env) (arpTable : List ArpEntry) :
    SearchState × List Packet → Option (SearchState × List Packet)
  | (s, was) =>
    match s.noMacDestQueue, was with
    | crt :: rest, _ :: ws =>
      match searchRound env arpTable s crt rest with
      | .error _ => none
      | .ok s' => some (s', if s'.noMacDestQueue = rest then ws else ws ++ [s.mem crt])
    | _, _ => none

/-- Whatever reply comes now, every packet `search_queue` dequeues has the
payload, the length and the interface it was enqueued with. -/
def DequeuesIntact (env : Env) (g : Ghost) : Prop :=
  ∀ (reply : ArpEntry) (q : SearchState) (was : List Packet),
    Reaches (ghostStep env (addArpEntry g.st.arpTable reply.ip reply.mac))
      (⟨g.st.mem, g.st.noMacDestQueue, [], []⟩, g.was) (q, was) →
    ∀ crt rest p ps, q.noMacDestQueue = crt :: rest → was = p :: ps → q.mem crt = p

/-! ### The loop -/

/-- What a round can do: complete the packet, send it and rewrite its cell, or put it
back. -/
theorem searchRound_cases {s s' : SearchState} {crt : Addr} {rest : List Addr}
    (h : searchRound env arpTable s crt rest = .ok s') :
    (∃ p route existing, p = addressed env.ifs (s.mem crt) route existing ∧ s' = { s with
      mem := Function.update s.mem crt p
      noMacDestQueue := rest
      sent := s.sent ++ [sendPacket p] }) ∨
    s' = { s with noMacDestQueue := rest ++ [crt] } := by
  unfold searchRound at h
  rcases hr : getBestRoute env.rtable (s.mem crt).payload.ipHdr.daddr with fault | (- | route)
  · simp [hr] at h
  · simp [hr] at h
  · simp only [hr] at h
    rcases he : searchArp arpTable route.nextHop with - | existing
    · simp only [he] at h
      exact Or.inr (Except.ok.inj h).symm
    · simp only [he] at h
      exact Or.inl ⟨_, route, existing, rfl, (Except.ok.inj h).symm⟩

/-- Erasing what was enqueued gives a round of the router's loop. -/
theorem searchStep_of_ghostStep {s s' : SearchState} {was was' : List Packet}
    (h : ghostStep env arpTable (s, was) = some (s', was')) :
    searchStep env arpTable (.ok s) = some (.ok s') := by
  unfold ghostStep at h
  unfold searchStep
  rcases hq : s.noMacDestQueue with - | ⟨crt, rest⟩
  · simp [hq] at h
  · rcases was with - | ⟨w, ws⟩
    · simp [hq] at h
    · simp only [hq] at h ⊢
      rcases hr : searchRound env arpTable s crt rest with fault | t
      · simp [hr] at h
      · simp only [hr, Option.some.injEq, Prod.mk.injEq] at h
        rw [h.1]

/-- `search_queue` returns with an empty queue only. -/
theorem searchQueue_empties {mem : Memory} {queue : List Addr} {q : SearchState}
    (h : .ok q ∈ searchQueue env arpTable mem queue) : q.noMacDestQueue = [] := by
  obtain ⟨r, hr, hq⟩ := (Part.mem_map_iff _).mp h
  obtain ⟨hreach, hhalt⟩ := mem_eval.mp hr
  rcases r with fault | s
  · cases hq
  -- no round puts anything into the auxiliary queue
  obtain rfl : s.drainAux = q := Except.ok.inj hq
  have haux : ∀ t, (.ok s : Except Fault SearchState) = .ok t → t.aux = [] := by
    refine Loop.reaches_invariant (fun r => ∀ t, r = .ok t → t.aux = [])
      (fun a b ha hab t hb => ?_) (fun t ht => by rw [← Except.ok.inj ht]) hreach
    rcases a with fault | u
    · cases hab
    · have hu := ha u rfl
      subst hb
      unfold searchStep at hab
      rcases hq : u.noMacDestQueue with - | ⟨crt, rest⟩
      · simp [hq] at hab
      · simp only [hq, Option.some.injEq] at hab
        rcases searchRound_cases hab with ⟨p, -, -, -, rfl⟩ | rfl
        · exact hu
        · exact hu
  have hqueue : s.noMacDestQueue = [] := by
    unfold searchStep at hhalt
    rcases hq : s.noMacDestQueue with - | ⟨crt, rest⟩
    · rfl
    · simp [hq] at hhalt
  simp [SearchState.drainAux, hqueue, haux s rfl]

/-! ### One step of the router -/

theorem parkedBy_eq_saved {s : State} {frame : Frame} {r : IpResult}
    (hip : htons (getPacket s.m frame).payload.ethHdr.etherType = ethertypeIp)
    (hr : ipBranch env s.arpTable (getPacket s.m frame) = .ok r) :
    parkedBy env s frame = r.saved := by
  simp [parkedBy, hip, hr]

/-- The shapes of a step: the IP branch, an accepted reply, anything else. -/
theorem next_cases {s s' : State} {frame : Frame} (h : Next env s frame s') :
    (searches env s frame = false ∧ ∃ r,
      ipBranch env s.arpTable (getPacket s.m frame) = .ok r ∧ parkedBy env s frame = r.saved ∧
      s' = State.afterIp { s with m := getPacket s.m frame } r) ∨
    (searches env s frame = true ∧ ∃ q,
      .ok q ∈ searchQueue env (learned s.arpTable (getPacket s.m frame)) s.mem
        s.noMacDestQueue ∧
      s' = { s with
        m := getPacket s.m frame
        mem := q.mem
        noMacDestQueue := q.noMacDestQueue
        arpTable := learned s.arpTable (getPacket s.m frame) }) ∨
    (searches env s frame = false ∧ parkedBy env s frame = none ∧
      s' = { s with m := getPacket s.m frame }) := by
  obtain ⟨sent, h⟩ := h
  unfold iteration at h
  by_cases hip : htons (getPacket s.m frame).payload.ethHdr.etherType = ethertypeIp
  · have hsearch : searches env s frame = false := by simp [searches, hip]
    simp only [hip, if_true, Part.mem_some_iff] at h
    rcases hr : ipBranch env s.arpTable (getPacket s.m frame) with fault | r
    · rw [hr] at h
      cases h
    · rw [hr] at h
      exact Or.inl ⟨hsearch, r, rfl, parkedBy_eq_saved hip hr,
        (Prod.mk.inj (Except.ok.inj h)).1⟩
  have hpark : parkedBy env s frame = none := by simp [parkedBy, hip]
  by_cases harp : htons (getPacket s.m frame).payload.ethHdr.etherType = ethertypeArp
  · simp only [if_neg hip, if_pos harp] at h
    unfold arpHandler at h
    by_cases hreq : ntohs (getPacket s.m frame).payload.arpHdr.op = arpopRequest
    · have hsearch : searches env s frame = false := by simp [searches, isReplyForUs, hreq]
      simp only [if_pos hreq, Part.mem_some_iff] at h
      exact Or.inr (Or.inr ⟨hsearch, hpark, (Prod.mk.inj (Except.ok.inj h)).1⟩)
    by_cases hrep : isReplyForUs env.ifs (getPacket s.m frame) = true
    · have hsearch : searches env s frame = true := by
        simp only [searches, hrep, decide_eq_true_eq]
        exact ⟨hip, harp, trivial⟩
      simp only [if_neg hreq, if_pos hrep] at h
      obtain ⟨r, hr, heq⟩ := (Part.mem_map_iff _).mp h
      rcases r with fault | q
      · cases heq
      · exact Or.inr (Or.inl ⟨hsearch, q, hr, (Prod.mk.inj (Except.ok.inj heq)).1.symm⟩)
    · have hsearch : searches env s frame = false := by simp [searches, hrep]
      simp only [if_neg hreq, if_neg hrep, Part.mem_some_iff] at h
      exact Or.inr (Or.inr ⟨hsearch, hpark, (Prod.mk.inj (Except.ok.inj h)).1⟩)
  · have hsearch : searches env s frame = false := by simp [searches, harp]
    simp only [if_neg hip, if_neg harp, Part.mem_some_iff] at h
    exact Or.inr (Or.inr ⟨hsearch, hpark, (Prod.mk.inj (Except.ok.inj h)).1⟩)

/-- The packet has a route whose next hop is not in the table. -/
def Waits (env : Env) (arpTable : List ArpEntry) (p : Packet) : Prop :=
  ∃ route, getBestRoute env.rtable p.payload.ipHdr.daddr = .ok (some route) ∧
    searchArp arpTable route.nextHop = none

/-- A parked packet waits for its next hop. -/
theorem waits_of_saved {m : Packet} {r : IpResult} {p : Packet}
    (h : ipBranch env arpTable m = .ok r) (hp : r.saved = some p) : Waits env arpTable p := by
  rcases ipBranch_cases h with ⟨-, rfl⟩ | ⟨-, -, rfl⟩ | ⟨-, -, -, rfl⟩ | ⟨-, -, rfl⟩ |
    ⟨-, route, hroute, harp, rfl⟩ | ⟨-, route, existing, -, -, rfl⟩
  case inr.inr.inr.inr.inl =>
    -- parked; the TTL and the checksum do not matter for the lookup
    obtain rfl := Option.some.inj hp
    refine ⟨route, ?_, harp⟩
    show getBestRoute env.rtable (aged m).payload.ipHdr.daddr = _
    rw [aged, ipHdr_setIpHdr]
    exact hroute
  all_goals cases hp

/-! ### At most one packet waiting -/

/-- At most one packet waits, in the cell of `saved`, as it was enqueued. -/
def AtMostOne (g : Ghost) : Prop :=
  (g.st.noMacDestQueue = [] ∧ g.was = []) ∨
    (g.st.noMacDestQueue = [savedAddr] ∧ g.was = [g.st.mem savedAddr])

/-- With at most one packet waiting, every dequeue is intact: the loop sends it,
or keeps putting it back. -/
theorem dequeuesIntact_of_atMostOne {g : Ghost} (h : AtMostOne g) :
    DequeuesIntact env g := by
  intro reply q was hreach crt rest p ps hq hwas
  have hinv := Loop.reaches_invariant
    (fun x : SearchState × List Packet =>
      (x.1.noMacDestQueue = [] ∧ x.2 = []) ∨
        ∃ a, x.1.noMacDestQueue = [a] ∧ x.2 = [x.1.mem a]) ?_ ?_ hreach
  · rcases hinv with ⟨hnil, -⟩ | ⟨a, ha, hw⟩
    · exact absurd (hnil.symm.trans hq) (by simp)
    · obtain ⟨rfl, -⟩ := List.cons.inj (ha.symm.trans hq)
      exact (List.cons.inj (hw.symm.trans hwas)).1
  · rintro ⟨s, w⟩ ⟨s', w'⟩ hs hstep
    rcases hs with ⟨hnil, -⟩ | ⟨a, ha, hw⟩
    · dsimp only at hnil
      simp [ghostStep, hnil] at hstep
    · dsimp only at ha hw
      simp only [ghostStep, ha, hw] at hstep
      rcases hr : searchRound env (addArpEntry g.st.arpTable reply.ip reply.mac) s a [] with
        fault | t
      · simp [hr] at hstep
      · simp only [hr, Option.some.injEq, Prod.mk.injEq] at hstep
        obtain ⟨rfl, rfl⟩ := hstep
        rcases searchRound_cases hr with ⟨p, -, -, -, rfl⟩ | rfl
        · exact Or.inl ⟨rfl, by simp⟩
        · exact Or.inr ⟨a, rfl, by simp⟩
  · rcases h with ⟨hnil, hw⟩ | ⟨hone, hw⟩
    · exact Or.inl ⟨hnil, hw⟩
    · exact Or.inr ⟨savedAddr, hone, hw⟩

/-- Parking into an empty queue, and everything else, keeps it that way. -/
theorem atMostOne_step {g g' : Ghost} {frame : Frame} (h : AtMostOne g)
    (hnext : GhostNext env g frame g')
    (hC : (parkedBy env g.st frame).isSome → g.st.noMacDestQueue = []) : AtMostOne g' := by
  obtain ⟨hst, hwas⟩ := hnext
  rcases next_cases hst with ⟨hsearch, r, hr, hpark, heq⟩ | ⟨hsearch, q, hq, heq⟩ |
    ⟨hsearch, hpark, heq⟩
  · rw [hsearch, hpark] at hwas
    rw [hpark] at hC
    rcases hsaved : r.saved with - | p
    · -- nothing parked
      simp only [State.afterIp, hsaved] at heq
      simp only [hsaved, Option.toList_none, List.append_nil] at hwas
      unfold AtMostOne
      rw [heq, hwas]
      exact h
    · -- parked into the empty queue
      simp only [State.afterIp, hsaved] at heq
      have hempty := hC (by simp [hsaved])
      have hnone : g.was = [] := by
        rcases h with ⟨-, hw⟩ | ⟨hone, -⟩
        · exact hw
        · rw [hempty] at hone
          cases hone
      refine Or.inr ⟨by simp [heq, hempty], ?_⟩
      rw [hwas, heq, hnone, hsaved]
      simp
  · -- `search_queue` has returned
    rw [hsearch] at hwas
    exact Or.inl ⟨by rw [heq]; exact searchQueue_empties hq, hwas⟩
  · rw [hsearch, hpark] at hwas
    simp only [Bool.false_eq_true, if_false, Option.toList_none, List.append_nil] at hwas
    unfold AtMostOne
    rw [heq, hwas]
    exact h

/-- **A second packet spoils the first.**  After parking into a non-empty queue,
the reply for the new packet's next hop sends the new packet in place of the
first, and finds the rewritten cell at the second dequeue. -/
theorem not_dequeuesIntact_of_second {g g' : Ghost} {frame : Frame} (h : AtMostOne g)
    (hnext : GhostNext env g frame g') (hpark : (parkedBy env g.st frame).isSome)
    (hbusy : g.st.noMacDestQueue ≠ []) : ¬ DequeuesIntact env g' := by
  intro hintact
  obtain ⟨hst, hwas⟩ := hnext
  obtain ⟨hone, -⟩ := h.resolve_left fun hn => hbusy hn.1
  rcases next_cases hst with ⟨hsearch, r, hr, hsaved, heq⟩ | ⟨hsearch, q, hq, heq⟩ |
    ⟨-, hnone, -⟩
  · rw [hsaved] at hpark hwas
    obtain ⟨p, hp⟩ := Option.isSome_iff_exists.mp hpark
    obtain ⟨route, hroute, harp⟩ := waits_of_saved hr hp
    obtain ⟨w, hw⟩ : ∃ w, g.was = [w] := by
      rcases h with ⟨hn, -⟩ | ⟨-, hw⟩
      · exact absurd hn hbusy
      · exact ⟨_, hw⟩
    rw [hsearch, hp, hw] at hwas
    simp only [State.afterIp, hp] at heq
    -- a reply for the next hop, with a hardware address the packet does not carry
    let reply : ArpEntry := ⟨route.nextHop, fun i => p.payload.ethHdr.etherDhost i + 1⟩
    have hmem : g'.st.mem savedAddr = p := by rw [heq]; simp
    have hround : searchRound env (addArpEntry g'.st.arpTable reply.ip reply.mac)
        ⟨g'.st.mem, [savedAddr, savedAddr], [], []⟩ savedAddr [savedAddr] =
        .ok ⟨Function.update g'.st.mem savedAddr (addressed env.ifs p route reply), [savedAddr],
          [], [sendPacket (addressed env.ifs p route reply)]⟩ := by
      have hfind' : searchArp (addArpEntry g'.st.arpTable reply.ip reply.mac) route.nextHop =
          some reply := by
        rw [heq]
        exact searchArp_addArpEntry reply.mac harp
      simp only [searchRound, hmem, hroute, hfind', List.nil_append]
    -- the same address twice; the first round rewrites the cell of the second
    have hqueue : g'.st.noMacDestQueue = [savedAddr, savedAddr] := by rw [heq]; simp [hone]
    have hreach : Reaches (ghostStep env (addArpEntry g'.st.arpTable reply.ip reply.mac))
        (⟨g'.st.mem, g'.st.noMacDestQueue, [], []⟩, g'.was)
        (⟨Function.update g'.st.mem savedAddr (addressed env.ifs p route reply), [savedAddr],
          [], [sendPacket (addressed env.ifs p route reply)]⟩, [p]) := by
      refine Relation.ReflTransGen.single (Option.mem_def.mpr ?_)
      rw [hqueue, hwas]
      simp [ghostStep, hround]
    have hcell := hintact reply _ _ hreach savedAddr [] p [] rfl rfl
    simp only [Function.update_self] at hcell
    have hdhost := congrArg (fun x => x.payload.ethHdr.etherDhost 0) hcell
    simp [addressed, reply] at hdhost
  · -- a frame that parks is not a reply
    rw [searches] at hsearch
    simp only [decide_eq_true_eq] at hsearch
    rw [parkedBy, if_neg hsearch.1] at hpark
    cases hpark
  · rw [hnone] at hpark
    cases hpark

/-- **When parked packets keep their contents.**  Along a run every dequeue is
intact iff every packet is parked while no other packet is waiting. -/
theorem intact_iff (env : Env) (m : Packet) (mem : Memory) (frames : List Frame) :
    Along (GhostNext env) (DequeuesIntact env) (Ghost.start m mem) frames ↔
      Each (GhostNext env)
        (fun g frame => (parkedBy env g.st frame).isSome → g.st.noMacDestQueue = [])
        (Ghost.start m mem) frames := by
  refine along_iff_each AtMostOne ?_ ?_ ?_ (Or.inl ⟨rfl, rfl⟩)
  · exact fun g frame g' hg hnext hC => atMostOne_step hg hnext hC
  · exact fun g hg => dequeuesIntact_of_atMostOne hg
  · intro g frame g' hg hnext hC
    push Not at hC
    exact not_dequeuesIntact_of_second hg hnext hC.1 hC.2

/-! ### Two packets waiting -/

/-- An IP packet for `0.0.0.0` with a TTL of 2 and one payload byte. -/
def shortFrame (x : UInt8) : Frame where
  interface := 0
  bytes := [0, 0, 0, 0, 0, 0, 0, 0, 0, 0, 0, 0, 8, 0] ++
    [0, 0, 0, 0, 0, 0, 0, 0, 2, 0, 0xfd, 0xff, 0, 0, 0, 0, 0, 0, 0, 0] ++ [x]

theorem getPacket_shortFrame (m : Packet) (x : UInt8) : getPacket m (shortFrame x) =
    ⟨35, m.payload.store 0 (shortFrame x).bytes, 0⟩ :=
  getPacket_of_le (show 35 ≤ 1600 by decide)

theorem isIp_shortFrame (m : Packet) (x : UInt8) :
    htons (getPacket m (shortFrame x)).payload.ethHdr.etherType = ethertypeIp := by
  rw [getPacket_shortFrame]
  show ntohs (load16 8 0) = ethertypeIp
  decide

/-- With an empty ARP table such a packet is parked, whatever came before. -/
theorem shortFrame_parks {s : State} (x : UInt8) (h : s.arpTable = []) :
    ∃ r p, ipBranch twoRoutes s.arpTable (getPacket s.m (shortFrame x)) = .ok r ∧
      r.saved = some p := by
  have hver : verifies (getPacket s.m (shortFrame x)).payload.ipHdr = true := by
    rw [verifies_iff, bytes_ipHdr, getPacket_shortFrame,
      Buffer.slice_store_zero _ (show 14 + 20 ≤ 35 by decide)]
    show 65535 ∣ OnesComplement.wordSum
      [0, 0, 0, 0, 0, 0, 0, 0, 2, 0, 0xfd, 0xff, 0, 0, 0, 0, 0, 0, 0, 0]
    decide
  have hacc : Accepted twoRoutes.ifs (getPacket s.m (shortFrame x)) :=
    ⟨rfl, hver, by show ¬ (2 : UInt8) < 2; decide⟩
  have hroute : getBestRoute twoRoutes.rtable
      (getPacket s.m (shortFrame x)).payload.ipHdr.daddr = .ok (some ⟨0, 2, 0, 1⟩) := by
    show getBestRoute twoRoutes.rtable 0 = _
    decide
  rw [h]
  exact ⟨_, _, ipBranch_park hacc hroute rfl, rfl⟩

/-- The run that parks two packets. -/
theorem not_intact_twoRoutes :
    ¬ Along (GhostNext twoRoutes) (DequeuesIntact twoRoutes)
      (Ghost.start ⟨0, fun _ => 0, 0⟩ fun _ => ⟨0, fun _ => 0, 0⟩)
      [shortFrame 1, shortFrame 2] := by
  rintro ⟨-, hrest⟩
  set g := Ghost.start ⟨0, fun _ => 0, 0⟩ fun _ => ⟨0, fun _ => 0, 0⟩ with hg
  obtain ⟨r₁, p₁, hr₁, hp₁⟩ := shortFrame_parks (s := g.st) 1 rfl
  have hnext₁ := next_of_ipBranch (isIp_shortFrame g.st.m 1) hr₁
  have hg₁ := hrest ⟨_, _⟩ ⟨hnext₁, rfl⟩
  set s₁ := State.afterIp { g.st with m := getPacket g.st.m (shortFrame 1) } r₁ with hs₁
  have hqueue₁ : s₁.noMacDestQueue = [savedAddr] := by
    rw [hs₁, State.afterIp, hp₁]
    rfl
  have harp₁ : s₁.arpTable = [] := by
    rw [hs₁, State.afterIp, hp₁]
    rfl
  obtain ⟨r₂, p₂, hr₂, hp₂⟩ := shortFrame_parks (s := s₁) 2 harp₁
  have hnext₂ := next_of_ipBranch (isIp_shortFrame s₁.m 2) hr₂
  have hpark₁ : (parkedBy twoRoutes g.st (shortFrame 1)).isSome → g.st.noMacDestQueue = [] :=
    fun _ => rfl
  have hone : AtMostOne ⟨s₁, _⟩ :=
    atMostOne_step (g := g) (Or.inl ⟨rfl, rfl⟩) ⟨hnext₁, rfl⟩ hpark₁
  refine not_dequeuesIntact_of_second hone ⟨hnext₂, rfl⟩ ?_ (by rw [hqueue₁]; simp)
    (hg₁.2 ⟨_, _⟩ ⟨hnext₂, rfl⟩)
  rw [parkedBy_eq_saved (isIp_shortFrame s₁.m 2) hr₂, hp₂]
  rfl

end TemePCom.Router
