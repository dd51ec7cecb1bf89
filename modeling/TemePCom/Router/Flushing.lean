/-
TemePCom/Router/Flushing.lean

What becomes of the packets that wait for an address, over whole runs.

All waiting packets share one cell, so in every reachable state the queue is the address of
`saved` repeated, and the cell holds the packet parked last (`OneCell`).  A reply then has
one of two outcomes (`reply_cases`): `search_queue` sends the *last* packet once for every
packet that waits, or its next hop is still unknown and the router never leaves the loop.
Where `realloc` has moved the ARP table, `search_queue` reads a block that is gone, and there is
nothing to be said; so `reply_cases` is about the array, and runs in which it is never moved.

Over a run, what was parked falls into groups, one for each reply that found packets
waiting; of a group only the last packet is sent, as often as the group is long
(`deferred_groups`).  So the *number* of frames is conserved, their contents are not.
-/
import TemePCom.Router.ArpGrowth
import TemePCom.Router.Deferred
import TemePCom.Router.Isolation

namespace TemePCom.Router

open StateTransition Runs

variable {env : Env} {arpTable : List ArpEntry} {s s' : State} {frame : Frame} {p : Packet}

/-! ### One cell -/

/-- Only the cell of `saved` is enqueued, and while something waits it holds a packet that
`main` has saved. -/
structure OneCell (env : Env) (s : State) : Prop where
  queue : s.noMacDestQueue = List.replicate s.noMacDestQueue.length savedAddr
  saved : s.noMacDestQueue ≠ [] → ∃ m route,
    htons m.payload.ethHdr.etherType = ethertypeIp ∧ Accepted env.ifs m ∧
    getBestRoute env.rtable m.payload.ipHdr.daddr = .ok (some route) ∧
    s.mem savedAddr = savedAs m route

theorem oneCell_of_empty (h : s.noMacDestQueue = []) : OneCell env s where
  queue := by rw [h]; rfl
  saved := fun hne => absurd h hne

/-- A step that parks nothing keeps the queue and the cell, or empties the queue. -/
theorem oneCell_step (h : OneCell env s) (hnext : Next env s frame s') : OneCell env s' := by
  rcases next_cases hnext with ⟨-, r, -, hpark, rfl⟩ | ⟨-, q, hq, rfl⟩ | ⟨-, -, rfl⟩
  · rcases hsaved : r.saved with - | p
    · exact ⟨by simpa only [State.afterIp, hsaved] using h.queue,
        by simpa only [State.afterIp, hsaved] using h.saved⟩
    · obtain ⟨hip, hacc, route, hroute, rfl⟩ := parked_cases (hpark.trans hsaved)
      refine ⟨?_, fun _ => ⟨_, route, hip, hacc, hroute, ?_⟩⟩
      · simp only [State.afterIp, hsaved, List.length_append, List.length_singleton]
        rw [List.replicate_succ', ← h.queue]
      · simp only [State.afterIp, hsaved, Function.update_self]
  · exact oneCell_of_empty (searchQueue_empties hq)
  · exact ⟨h.queue, h.saved⟩

theorem oneCell_of_reached (h : Reached env s) : OneCell env s := by
  obtain ⟨m, mem, hreach⟩ := h
  have hstart : OneCell env (State.start m mem) := oneCell_of_empty rfl
  exact hreach.invariant (fun _ _ _ hs hnext => oneCell_step hs hnext) hstart

/-! ### The loop on one cell -/

theorem setEthHdr_setEthHdr (b : Buffer) (h h' : EtherHeader) :
    (b.setEthHdr h).setEthHdr h' = b.setEthHdr h' := by
  funext i
  unfold Buffer.setEthHdr Buffer.store
  by_cases hi : 0 ≤ i ∧ i < 0 + h'.bytes.length
  · rw [if_pos hi, if_pos hi]
  · rw [if_neg hi, if_neg hi, if_neg (by simpa using hi)]

/-- Completing the addresses a second time changes nothing. -/
theorem addressed_addressed (ifs : Interfaces) (p : Packet) (route : RtableEntry)
    (existing : ArpEntry) :
    addressed ifs (addressed ifs p route existing) route existing =
      addressed ifs p route existing := by
  simp only [addressed, ethHdr_setEthHdr, setEthHdr_setEthHdr]

theorem daddr_addressed (ifs : Interfaces) (p : Packet) (route : RtableEntry)
    (existing : ArpEntry) :
    (addressed ifs p route existing).payload.ipHdr.daddr = p.payload.ipHdr.daddr := by
  rw [addressed, ipHdr_setEthHdr]

/-- A delivered packet would be delivered again, as the same frame. -/
theorem delivery_again {f : Frame} (h : delivery env arpTable p = some f) :
    ∃ p', (∀ s crt rest, s.mem crt = p → searchRound env arpTable s crt rest = .ok { s with
        mem := Function.update s.mem crt p'
        noMacDestQueue := rest
        sent := s.sent ++ [f] }) ∧
      delivery env arpTable p' = some f := by
  unfold delivery at h
  rcases hr : getBestRoute env.rtable p.payload.ipHdr.daddr with fault | (- | route)
  · simp [hr] at h
  · simp [hr] at h
  simp only [hr, Option.map_eq_some_iff] at h
  obtain ⟨existing, he, rfl⟩ := h
  refine ⟨addressed env.ifs p route existing, ?_, ?_⟩
  · rintro s crt rest rfl
    unfold searchRound
    simp only [hr, he]
  · unfold delivery
    simp only [daddr_addressed, hr, he, Option.map_some, addressed_addressed]

/-- With its next hop known, the one packet is sent as often as it is enqueued. -/
theorem searchQueue_flushes {mem : Memory} {f : Frame} (n : ℕ)
    (h : delivery env arpTable (mem savedAddr) = some f) :
    ∃ mem', searchQueue env arpTable mem (List.replicate n savedAddr) =
      Part.some (.ok ⟨mem', [], [], List.replicate n f⟩) := by
  have hreach : ∀ (n : ℕ) (mem : Memory) (sent : List Frame),
      delivery env arpTable (mem savedAddr) = some f →
      ∃ mem', Reaches (searchStep env arpTable)
        (.ok ⟨mem, List.replicate n savedAddr, [], sent⟩)
        (.ok ⟨mem', [], [], sent ++ List.replicate n f⟩) := by
    intro n
    induction n with
    | zero =>
      intro mem sent _
      refine ⟨mem, ?_⟩
      rw [List.replicate_zero, List.replicate_zero, List.append_nil]
      exact .refl
    | succ n ih =>
      intro mem sent hmem
      obtain ⟨p', hround, hagain⟩ := delivery_again hmem
      obtain ⟨mem', hmem'⟩ := ih (Function.update mem savedAddr p') (sent ++ [f])
        (by rw [Function.update_self]; exact hagain)
      refine ⟨mem', Relation.ReflTransGen.head (Option.mem_def.mpr (congrArg some (hround
        ⟨mem, savedAddr :: List.replicate n savedAddr, [], sent⟩ savedAddr _ rfl))) ?_⟩
      rw [List.append_assoc] at hmem'
      exact hmem'
  obtain ⟨mem', hmem'⟩ := hreach n mem [] h
  refine ⟨mem', Part.eq_some_iff.mpr ((Part.mem_map_iff _).mpr ⟨_, mem_eval.mpr ⟨hmem', rfl⟩, ?_⟩)⟩
  rfl

/-- With its next hop unknown, the queue only turns. -/
theorem searchQueue_hangs {mem : Memory} {n : ℕ} (hn : n ≠ 0)
    (hroute : HasRoute env (mem savedAddr)) (h : ¬ Resolved env arpTable (mem savedAddr)) :
    searchQueue env arpTable mem (List.replicate n savedAddr) = Part.none := by
  obtain ⟨n, rfl⟩ := Nat.exists_eq_succ_of_ne_zero hn
  have hround : searchRound env arpTable ⟨mem, List.replicate (n + 1) savedAddr, [], []⟩ savedAddr
      (List.replicate n savedAddr) =
        .ok ⟨mem, List.replicate n savedAddr ++ [savedAddr], [], []⟩ :=
    searchRound_unresolved hroute h
  rw [← List.replicate_succ'] at hround
  have hturn : ∀ t : Except Fault SearchState,
      t = .ok ⟨mem, List.replicate (n + 1) savedAddr, [], []⟩ →
      ∃ t', searchStep env arpTable t = some t' ∧
        t' = .ok ⟨mem, List.replicate (n + 1) savedAddr, [], []⟩ := by
    rintro t rfl
    exact ⟨_, congrArg some hround, rfl⟩
  rw [searchQueue, Part.eq_none_iff]
  intro t ht
  obtain ⟨t₀, ht₀, -⟩ := (Part.mem_map_iff _).mp ht
  exact Loop.not_mem_eval hturn rfl t₀ ht₀

/-! ### A packet that is parked -/

/-- A packet that is parked: the request is sent, and the packet is in the cell. -/
theorem iteration_parks (hpark : parkedBy env s frame = some p) :
    ∃ route s', p = savedAs (getPacket s.m frame) route ∧
      getBestRoute env.rtable (getPacket s.m frame).payload.ipHdr.daddr = .ok (some route) ∧
      searchArp s.arpTable route.nextHop = none ∧
      iteration env s frame = Part.some (.ok (s', [arpRequester env.ifs route])) ∧
      s'.arpTable = s.arpTable ∧ s'.noMacDestQueue = s.noMacDestQueue ++ [savedAddr] ∧
      s'.mem savedAddr = p := by
  obtain ⟨hip, -, -⟩ := parked_cases hpark
  rcases hr : ipBranch env s.arpTable (getPacket s.m frame) with fault | r
  · simp [parkedBy, hip, hr] at hpark
  have hsaved : r.saved = some p := (parkedBy_eq_saved hip hr).symm.trans hpark
  have hiter : iteration env s frame =
      Part.some (.ok (State.afterIp { s with m := getPacket s.m frame } r, r.sent)) := by
    simp only [iteration, hip, if_true, hr, Except.map]
  rcases ipBranch_cases hr with ⟨-, rfl⟩ | ⟨-, -, rfl⟩ | ⟨-, -, -, rfl⟩ | ⟨-, -, rfl⟩ |
    ⟨-, route, hroute, harp, rfl⟩ | ⟨-, route, existing, -, -, rfl⟩
  case inr.inr.inr.inr.inl =>
    obtain rfl := Option.some.inj hsaved
    refine ⟨route, _, rfl, hroute, harp, hiter, rfl, rfl, ?_⟩
    show Function.update s.mem savedAddr _ savedAddr = _
    exact Function.update_self ..
  all_goals cases hsaved

/-! ### A reply -/

/-- The state after a reply whose queue has been searched. -/
def State.afterReply (s : State) (frame : Frame) (q : SearchState) : State where
  m := getPacket s.m frame
  mem := q.mem
  noMacDestQueue := q.noMacDestQueue
  arpTable := learned s.arpTable (getPacket s.m frame)

theorem iteration_reply (h : searches env s frame = true) : iteration env s frame =
    (searchQueue env (learned s.arpTable (getPacket s.m frame)) s.mem s.noMacDestQueue).map
      fun r => r.map fun q => (s.afterReply frame q, q.sent) := by
  simp only [searches, decide_eq_true_eq] at h
  obtain ⟨hip, harp, hrep⟩ := h
  have hreq : ntohs (getPacket s.m frame).payload.arpHdr.op ≠ arpopRequest := by
    simp only [isReplyForUs, decide_eq_true_eq] at hrep
    exact hrep.1
  simp only [iteration, if_neg hip, if_pos harp, arpHandler, if_neg hreq, hrep, if_true]
  rfl

/-- The iteration ends with nothing waiting: nothing was waiting before and nothing is sent,
or the packet in the cell is sent once for every packet that waits. -/
def State.Flushes (s : State) (env : Env) (frame : Frame) : Prop :=
  ∃ s' sent, iteration env s frame = Part.some (.ok (s', sent)) ∧
    s'.noMacDestQueue = [] ∧ s'.arpTable = learned s.arpTable (getPacket s.m frame) ∧
    ((s.noMacDestQueue = [] ∧ sent = []) ∨
      ∃ f, delivery env s'.arpTable (s.mem savedAddr) = some f ∧
        sent = List.replicate s.noMacDestQueue.length f)

/-- The next hop of the packet in the cell is still unknown, and the iteration never ends. -/
def State.Hangs (s : State) (env : Env) (frame : Frame) : Prop :=
  s.noMacDestQueue ≠ [] ∧
    ¬ Resolved env (learned s.arpTable (getPacket s.m frame)) (s.mem savedAddr) ∧
    iteration env s frame = Part.none

theorem OneCell.reply (hcell : OneCell env s) (h : searches env s frame = true) :
    s.Flushes env frame ∨ s.Hangs env frame := by
  set T := learned s.arpTable (getPacket s.m frame) with hT
  rcases eq_or_ne s.noMacDestQueue [] with hnil | hne
  · refine Or.inl ⟨s.afterReply frame ⟨s.mem, [], [], []⟩, [], ?_, rfl, rfl, Or.inl ⟨hnil, rfl⟩⟩
    rw [iteration_reply h, hnil, searchQueue_nil]
    rfl
  rcases hd : delivery env T (s.mem savedAddr) with - | f
  · obtain ⟨m, route, -, -, hroute, hsaved⟩ := hcell.saved hne
    have hhas : HasRoute env (s.mem savedAddr) := by
      rw [hsaved]
      exact ⟨route, by rw [daddr_savedAs, hroute]⟩
    have hun : ¬ Resolved env T (s.mem savedAddr) := by
      unfold Resolved
      rw [hd]
      exact Bool.false_ne_true
    refine Or.inr ⟨hne, hun, ?_⟩
    rw [iteration_reply h, hcell.queue,
      searchQueue_hangs (List.length_pos_iff.mpr hne).ne' hhas hun, Part.map_none]
  · obtain ⟨mem', hmem'⟩ := searchQueue_flushes s.noMacDestQueue.length hd
    refine Or.inl ⟨s.afterReply frame ⟨mem', [], [], List.replicate s.noMacDestQueue.length f⟩,
      List.replicate s.noMacDestQueue.length f, ?_, rfl, rfl, Or.inr ⟨f, hd, rfl⟩⟩
    rw [iteration_reply h]
    conv_lhs => rw [hcell.queue]
    rw [hmem', Part.map_some]
    rfl

/-! ### Two packets and a reply -/

/-- An ARP reply for `0.0.0.0` from the next hop of the default route. -/
def hopReply : Frame where
  interface := 1
  bytes := [0, 0, 0, 0, 0, 0, 0, 0, 0, 0, 0, 0, 8, 6] ++
    [0, 0, 0, 0, 0, 0, 0, 2] ++ [7, 0, 0, 0, 0, 0] ++ [2, 0, 0, 0] ++
    [0, 0, 0, 0, 0, 0] ++ [0, 0, 0, 0]

theorem searches_hopReply (s : State) : searches twoRoutes s hopReply = true := by
  have htype : htons (getPacket s.m hopReply).payload.ethHdr.etherType = ethertypeArp := by
    show ntohs (load16 8 6) = ethertypeArp
    decide
  have hrep : isReplyForUs twoRoutes.ifs (getPacket s.m hopReply) = true := by
    show decide (ntohs (load16 0 2) ≠ arpopRequest ∧ htons (load16 0 2) = arpopReply ∧
      load32 0 0 0 0 = 0) = true
    decide
  simp only [searches, htype, hrep]
  decide

theorem isSome_parkedBy_shortFrame {s : State} (x : UInt8) (h : s.arpTable = []) :
    (parkedBy twoRoutes s (shortFrame x)).isSome := by
  obtain ⟨r, p, hr, hp⟩ := shortFrame_parks x h
  rw [parkedBy_eq_saved (isIp_shortFrame s.m x) hr, hp]
  rfl

/-- A short frame is parked while no address is known, and can be delivered once it has been
answered. -/
theorem iteration_shortFrame (x : UInt8) (h : s.arpTable = []) :
    ∃ s' sent p, iteration twoRoutes s (shortFrame x) = Part.some (.ok (s', sent)) ∧
      parkedBy twoRoutes s (shortFrame x) = some p ∧ s'.arpTable = [] ∧
      s'.noMacDestQueue = s.noMacDestQueue ++ [savedAddr] ∧
      Resolved twoRoutes (learned s'.arpTable (getPacket s'.m hopReply)) (s'.mem savedAddr) := by
  obtain ⟨p, hp⟩ := Option.isSome_iff_exists.mp (isSome_parkedBy_shortFrame x h)
  obtain ⟨route, s', rfl, hroute, -, hiter, htable, hqueue, hmem⟩ := iteration_parks hp
  have hdefault : getBestRoute twoRoutes.rtable
      (getPacket s.m (shortFrame x)).payload.ipHdr.daddr = .ok (some ⟨0, 2, 0, 1⟩) := by
    rw [getPacket_shortFrame]
    show getBestRoute twoRoutes.rtable 0 = _
    decide
  obtain rfl := Option.some.inj (Except.ok.inj (hroute.symm.trans hdefault))
  have hhop : (getPacket s'.m hopReply).payload.arpHdr.spa = 2 := by
    show load32 2 0 0 0 = 2
    decide
  refine ⟨s', _, _, hiter, hp, htable.trans h, hqueue, ?_⟩
  unfold Resolved delivery
  rw [hmem, daddr_savedAs, hroute, htable, h, learned, hhop]
  rfl

/-- Two packets are parked, and a reply flushes them. -/
theorem iterations_hopReply : ∃ (p₁ p₂ : Packet) (s₁ s₂ s₃ : State)
    (sent₁ sent₂ sent₃ : List Frame),
    iteration twoRoutes (State.start blankPacket fun _ => blankPacket) (shortFrame 1) =
        Part.some (.ok (s₁, sent₁)) ∧
      parkedBy twoRoutes (State.start blankPacket fun _ => blankPacket) (shortFrame 1) =
        some p₁ ∧
      iteration twoRoutes s₁ (shortFrame 2) = Part.some (.ok (s₂, sent₂)) ∧
      parkedBy twoRoutes s₁ (shortFrame 2) = some p₂ ∧
      iteration twoRoutes s₂ hopReply = Part.some (.ok (s₃, sent₃)) ∧
      s₂.noMacDestQueue = [savedAddr, savedAddr] ∧ sent₃.length = 2 ∧
      s₃.noMacDestQueue = [] := by
  set s := State.start blankPacket fun _ => blankPacket
  obtain ⟨s₁, sent₁, p₁, hiter₁, hpark₁, htable₁, hqueue₁, -⟩ := iteration_shortFrame (s := s) 1 rfl
  obtain ⟨s₂, sent₂, p₂, hiter₂, hpark₂, -, hqueue₂, hres⟩ := iteration_shortFrame 2 htable₁
  have hcell : OneCell twoRoutes s₂ :=
    oneCell_step (oneCell_step (oneCell_of_empty rfl) ⟨sent₁, hiter₁ ▸ Part.mem_some _⟩)
      ⟨sent₂, hiter₂ ▸ Part.mem_some _⟩
  rw [hqueue₁] at hqueue₂
  have hwait : s₂.noMacDestQueue = [savedAddr, savedAddr] := hqueue₂
  obtain ⟨s₃, sent₃, hiter₃, hqueue₃, -, hsent⟩ :=
    (hcell.reply (searches_hopReply s₂)).resolve_right fun hhangs => hhangs.2.1 hres
  have hlen : sent₃.length = 2 := by
    rcases hsent with ⟨hnil, -⟩ | ⟨f, -, rfl⟩
    · rw [hwait] at hnil
      cases hnil
    · rw [List.length_replicate, hwait]
      rfl
  exact ⟨p₁, p₂, s₁, s₂, s₃, sent₁, sent₂, sent₃, hiter₁, hpark₁, hiter₂, hpark₂, hiter₃, hwait,
    hlen, hqueue₃⟩

/-! ### A reply, and the array -/

section Array

variable {g : Growth} {e : Frame × Realloc} {m : Packet}

/-- `State.Flushes`, where the table is the array; it has the new entry and is intact. -/
def Growth.Flushes (g : Growth) (env : Env) (e : Frame × Realloc) : Prop :=
  ∃ s' sent, iterationAt env g.st e.1 e.2 = Part.some (.ok (s', sent)) ∧
    s'.noMacDestQueue = [] ∧
    Intact s'.table (learned g.added (getPacket g.st.m e.1)) ∧
    ((g.st.noMacDestQueue = [] ∧ sent = []) ∨
      ∃ f, delivery env (learned g.added (getPacket g.st.m e.1)) (g.st.mem savedAddr) = some f ∧
        sent = List.replicate g.st.noMacDestQueue.length f)

/-- `State.Hangs`, where the table is the array. -/
def Growth.Hangs (g : Growth) (env : Env) (e : Frame × Realloc) : Prop :=
  g.st.noMacDestQueue ≠ [] ∧
    ¬ Resolved env (learned g.added (getPacket g.st.m e.1)) (g.st.mem savedAddr) ∧
    iterationAt env g.st e.1 e.2 = Part.none

theorem OneCell.replyAt (hcell : OneCell env (g.st.toState g.added))
    (hintact : Intact g.st.table g.added)
    (h : searches env (g.st.toState g.added) e.1 = true) (hkeep : KeepsBlock env g e) :
    g.Flushes env e ∨ g.Hangs env e := by
  have hgrown : g.grown env e.1 = learned g.added (getPacket g.st.m e.1) := if_pos h
  rcases hcell.reply h with ⟨u, sent, hiter, hqueue, htable, hsent⟩ | ⟨hne, hun, hiter⟩
  · obtain ⟨s', hiter', rfl, hintact'⟩ := iterationAt_of_iteration hintact hkeep hiter
    rw [htable] at hsent
    exact Or.inl ⟨s', sent, hiter', hqueue, hgrown ▸ hintact', hsent⟩
  · exact Or.inr ⟨hne, hun, iterationAt_eq_none hintact hkeep hiter⟩

/-- In the runs that keep the block, the array is intact, and its contents are those of a run
over a list. -/
theorem intact_of_keeping {mem : Memory}
    (h : Reachable (KeepingNext env) (Growth.start m mem) g) :
    Intact g.st.table g.added ∧ Reached env (g.st.toState g.added) := by
  have hstep (g : Growth) (e : Frame × Realloc) (g' : Growth)
      (hg : Intact g.st.table g.added ∧ Reached env (g.st.toState g.added))
      (hnext : KeepingNext env g e g') :
      Intact g'.st.table g'.added ∧ Reached env (g'.st.toState g'.added) := by
    obtain ⟨m, mem, frames, hrun⟩ := hg.2
    exact ⟨intact_step hg.1 hnext.1 hnext.2, m, mem, _,
      hrun.append (.cons (next_of_growthNext hg.1 hnext.2 hnext.1) (.nil _))⟩
  exact h.invariant hstep ⟨intact_start, m, mem, [], .nil _⟩

/-- **What an accepted reply does**, in every state of a run in which `realloc` keeps the block.
Nothing waits and nothing is sent; or the next hop of the packet parked last is known now,
and that packet is sent once for every packet that waits; or it is not, and the iteration
never ends. -/
theorem reply_cases (m : Packet) (mem : Memory)
    (hg : Reachable (KeepingNext env) (Growth.start m mem) g)
    (h : searches env (g.st.toState g.added) e.1 = true) (hkeep : KeepsBlock env g e) :
    g.Flushes env e ∨ g.Hangs env e := by
  obtain ⟨hintact, hreached⟩ := intact_of_keeping hg
  exact (oneCell_of_reached hreached).replyAt hintact h hkeep

/-! ### Two packets wait -/

theorem keepingNext_shortFrame (x : UInt8) (hadded : g.added = [])
    (hintact : Intact g.st.table g.added) : ∃ g', KeepingNext twoRoutes g (shortFrame x, .kept) g' ∧
      g'.added = [] ∧ g'.st.noMacDestQueue = g.st.noMacDestQueue ++ [savedAddr] ∧
      Resolved twoRoutes (learned g'.added (getPacket g'.st.m hopReply)) (g'.st.mem savedAddr) := by
  obtain ⟨u, sent, p, hiter, -, htable, hqueue, hres⟩ :=
    iteration_shortFrame (s := g.st.toState g.added) x hadded
  have hip := isIp_shortFrame g.st.m x
  have hsearch : ¬ searches twoRoutes (g.st.toState g.added) (shortFrame x) = true := by
    simp [searches, ArrayState.toState, hip]
  have hgrown : g.grown twoRoutes (shortFrame x) = g.added := if_neg hsearch
  have hkeep : KeepsBlock twoRoutes g (shortFrame x, .kept) := fun _ _ => rfl
  obtain ⟨s', hiter', rfl, -⟩ := iterationAt_of_iteration hintact hkeep hiter
  rw [hgrown] at hres
  exact ⟨⟨s', g.added⟩, ⟨⟨⟨trivial, sent, hiter' ▸ Part.mem_some _⟩, (if_neg hsearch).symm⟩, hkeep⟩,
    hadded, hqueue, hres⟩

/-- The reply comes when two packets wait, and flushes them. -/
theorem reply_cases_hopReply : ∃ g : Growth,
    g.st.noMacDestQueue = [savedAddr, savedAddr] ∧ g.Flushes twoRoutes (hopReply, .kept) := by
  obtain ⟨g₁, hnext₁, hadded₁, hqueue₁, -⟩ :=
    keepingNext_shortFrame (g := Growth.start blankPacket fun _ => blankPacket) 1 rfl intact_start
  have hrun₁ : Run (KeepingNext twoRoutes) (Growth.start blankPacket fun _ => blankPacket)
      [(shortFrame 1, .kept)] g₁ := .cons hnext₁ (.nil _)
  obtain ⟨g₂, hnext₂, -, hqueue₂, hres⟩ :=
    keepingNext_shortFrame 2 hadded₁ (intact_of_keeping ⟨_, hrun₁⟩).1
  rw [hqueue₁] at hqueue₂
  have hcases := reply_cases (e := (hopReply, .kept)) blankPacket (fun _ => blankPacket)
    ⟨_, hrun₁.append (.cons hnext₂ (.nil _))⟩ (searches_hopReply _) fun _ _ => rfl
  exact ⟨g₂, hqueue₂, hcases.resolve_right fun hhangs => hhangs.2.1 hres⟩

end Array

/-! ### Runs -/

/-- The router, with everything it has parked, everything `search_queue` has sent, and the ARP
table after each reply that found packets waiting. -/
structure Ledger where
  st : State
  parked : List Packet
  deferred : List Frame
  answered : List (List ArpEntry)

def Ledger.start (m : Packet) (mem : Memory) : Ledger := ⟨State.start m mem, [], [], []⟩

/-- A step of the router, entered into the ledger. -/
def LedgerNext (env : Env) (l : Ledger) (frame : Frame) (l' : Ledger) : Prop :=
  ∃ sent, .ok (l'.st, sent) ∈ iteration env l.st frame ∧
    l'.parked = l.parked ++ (parkedBy env l.st frame).toList ∧
    l'.deferred = l.deferred ++ (if searches env l.st frame then sent else []) ∧
    l'.answered = l.answered ++
      if searches env l.st frame ∧ l.st.noMacDestQueue ≠ [] then [l'.st.arpTable] else []

/-- Packets parked one after the other, the ARP table they are answered with, and the frame
that is sent in place of each: that of the last one for this table. -/
structure Group (env : Env) where
  packets : List Packet
  arpTable : List ArpEntry
  frame : Frame
  delivers : ∃ p ∈ packets.getLast?, delivery env arpTable p = some frame

/-- The parked packets in groups, all but the current one answered, each by a reply. -/
structure Grouped (env : Env) (l : Ledger) (groups : List (Group env)) (current : List Packet) :
    Prop where
  parked : l.parked = groups.flatMap Group.packets ++ current
  answered : l.answered = groups.map Group.arpTable
  deferred : l.deferred = groups.flatMap fun g => List.replicate g.packets.length g.frame
  queue : l.st.noMacDestQueue = List.replicate current.length savedAddr
  cell : ∀ p ∈ current.getLast?, l.st.mem savedAddr = p

theorem parkedBy_of_searches (h : searches env s frame = true) : parkedBy env s frame = none := by
  simp only [searches, decide_eq_true_eq] at h
  simp [parkedBy, h.1]

/-- A reply answers the current group. -/
theorem Grouped.reply {l l' : Ledger} {groups : List (Group env)} {current : List Packet}
    (h : Grouped env l groups current) (hcell : OneCell env l.st)
    (hsearch : searches env l.st frame = true) (hnext : LedgerNext env l frame l') :
    ∃ groups', Grouped env l' groups' [] := by
  obtain ⟨sent, hmem, hparked, hdeferred, hanswered⟩ := hnext
  rw [parkedBy_of_searches hsearch, Option.toList_none, List.append_nil] at hparked
  rw [if_pos hsearch] at hdeferred
  rcases hcell.reply hsearch with ⟨s', sent', hiter, hqueue, -, hsent⟩ | ⟨-, -, hnone⟩
  swap
  · rw [hnone] at hmem
    cases Part.notMem_none _ hmem
  rw [hiter, Part.mem_some_iff] at hmem
  obtain ⟨rfl, rfl⟩ := Prod.mk.inj (Except.ok.inj hmem)
  have hlen : l.st.noMacDestQueue.length = current.length := by
    rw [h.queue, List.length_replicate]
  rcases eq_or_ne current [] with rfl | hne
  · -- nothing was waiting
    have hnil : sent = [] := by
      rcases hsent with ⟨-, hnil⟩ | ⟨f, -, hsent⟩
      · exact hnil
      · rw [hsent, hlen]
        rfl
    have hempty : l.st.noMacDestQueue = [] := List.length_eq_zero_iff.mp hlen
    refine ⟨groups, ⟨?_, ?_, ?_, hqueue, fun _ hp => nomatch hp⟩⟩
    · rw [hparked, h.parked]
    · rw [hanswered, if_neg fun hboth => hboth.2 hempty, List.append_nil, h.answered]
    · rw [hdeferred, h.deferred, hnil, List.append_nil]
  · rcases hsent with ⟨hnil, -⟩ | ⟨f, hf, hsent⟩
    · rw [hnil] at hlen
      exact absurd (List.length_eq_zero_iff.mp hlen.symm) hne
    · have hlast := List.getLast?_eq_getLast_of_ne_nil hne
      rw [h.cell _ hlast] at hf
      refine ⟨groups ++ [⟨current, l'.st.arpTable, f, _, hlast, hf⟩],
        ⟨?_, ?_, ?_, hqueue, fun _ hp => nomatch hp⟩⟩
      · rw [hparked, h.parked, List.flatMap_append, List.flatMap_singleton, List.append_nil]
      · have hwaits : l.st.noMacDestQueue ≠ [] := by
          intro hnil
          rw [hnil] at hlen
          exact hne (List.length_eq_zero_iff.mp hlen.symm)
        rw [hanswered, if_pos ⟨hsearch, hwaits⟩, h.answered, List.map_append]
        rfl
      · rw [hdeferred, h.deferred, hsent, hlen, List.flatMap_append, List.flatMap_singleton]

/-- A packet that is parked joins the current group. -/
theorem Grouped.other {l l' : Ledger} {groups : List (Group env)} {current : List Packet}
    (h : Grouped env l groups current) (hsearch : searches env l.st frame = false)
    (hnext : LedgerNext env l frame l') : ∃ current', Grouped env l' groups current' := by
  obtain ⟨sent, hmem, hparked, hdeferred, hanswered⟩ := hnext
  rw [if_neg (by simp [hsearch]), List.append_nil] at hdeferred hanswered
  refine ⟨current ++ (parkedBy env l.st frame).toList,
    ⟨?_, hanswered.trans h.answered, hdeferred.trans h.deferred, ?_, ?_⟩⟩
  · rw [hparked, h.parked, List.append_assoc]
  all_goals
    rcases next_cases ⟨sent, hmem⟩ with ⟨-, r, -, hpark, heq⟩ | ⟨htrue, -⟩ | ⟨-, hpark, heq⟩
  · rcases hsaved : r.saved with - | p
    · simp [heq, State.afterIp, hpark, hsaved, h.queue]
    · simp [heq, State.afterIp, hpark, hsaved, h.queue, List.replicate_succ']
  · rw [hsearch] at htrue
    cases htrue
  · simp [heq, hpark, h.queue]
  · rcases hsaved : r.saved with - | p
    · simpa [heq, State.afterIp, hpark, hsaved] using h.cell
    · simp [heq, State.afterIp, hpark, hsaved]
  · rw [hsearch] at htrue
    cases htrue
  · simpa [heq, hpark] using h.cell

/-- **What is parked and what is sent for it, over every run.**  The parked packets fall
into groups: for each answered one, the frame of its last packet was sent as often as it
has packets, and nothing else was sent; the packets of the current one still wait. -/
theorem deferred_groups (m : Packet) (mem : Memory) (frames : List Frame) (l : Ledger)
    (h : Run (LedgerNext env) (Ledger.start m mem) frames l) :
    ∃ groups current, Grouped env l groups current := by
  let Inv : Ledger → Prop := fun l =>
    OneCell env l.st ∧ ∃ groups current, Grouped env l groups current
  have hstep : ∀ l frame l', Inv l → LedgerNext env l frame l' → Inv l' := by
    rintro l frame l' ⟨hcell, groups, current, hgrouped⟩ hnext
    have hcell' : OneCell env l'.st := by
      obtain ⟨sent, hmem, -⟩ := hnext
      exact oneCell_step hcell ⟨sent, hmem⟩
    refine ⟨hcell', ?_⟩
    rcases hsearch : searches env l.st frame with - | -
    · obtain ⟨current', h'⟩ := hgrouped.other hsearch hnext
      exact ⟨groups, current', h'⟩
    · obtain ⟨groups', h'⟩ := hgrouped.reply hcell hsearch hnext
      exact ⟨groups', [], h'⟩
  have hstart : Inv (Ledger.start m mem) :=
    ⟨oneCell_of_empty rfl, [], [], ⟨rfl, rfl, rfl, rfl, fun _ hp => nomatch hp⟩⟩
  exact (h.invariant hstep hstart).2

/-- Two packets are parked, and a reply answers them. -/
theorem deferred_groups_hopReply : ∃ l groups current,
    Run (LedgerNext twoRoutes) (Ledger.start blankPacket fun _ => blankPacket)
        [shortFrame 1, shortFrame 2, hopReply] l ∧
      l.parked.length = 2 ∧ l.deferred.length = 2 ∧ l.st.noMacDestQueue = [] ∧
      Grouped twoRoutes l groups current := by
  obtain ⟨p₁, p₂, s₁, s₂, s₃, sent₁, sent₂, sent₃, hiter₁, hpark₁, hiter₂, hpark₂, hiter₃, hwait,
    hlen, hempty⟩ := iterations_hopReply
  set s := State.start blankPacket fun _ => blankPacket
  have hsearch (t : State) (x : UInt8) : searches twoRoutes t (shortFrame x) = false := by
    simp [searches, isIp_shortFrame]
  have hnext₁ : LedgerNext twoRoutes ⟨s, [], [], []⟩ (shortFrame 1) ⟨s₁, [p₁], [], []⟩ :=
    ⟨sent₁, hiter₁ ▸ Part.mem_some _, by simp [hpark₁], by simp [hsearch], by simp [hsearch]⟩
  have hnext₂ : LedgerNext twoRoutes ⟨s₁, [p₁], [], []⟩ (shortFrame 2) ⟨s₂, [p₁, p₂], [], []⟩ :=
    ⟨sent₂, hiter₂ ▸ Part.mem_some _, by simp [hpark₂], by simp [hsearch], by simp [hsearch]⟩
  have hnext₃ : LedgerNext twoRoutes ⟨s₂, [p₁, p₂], [], []⟩ hopReply
      ⟨s₃, [p₁, p₂], sent₃, [s₃.arpTable]⟩ := by
    refine ⟨sent₃, hiter₃ ▸ Part.mem_some _, ?_, ?_, ?_⟩
    · simp [parkedBy_of_searches (searches_hopReply s₂)]
    · simp [searches_hopReply]
    · simp [searches_hopReply, hwait]
  have hrun : Run (LedgerNext twoRoutes) (Ledger.start blankPacket fun _ => blankPacket)
      [shortFrame 1, shortFrame 2, hopReply] ⟨s₃, [p₁, p₂], sent₃, [s₃.arpTable]⟩ :=
    .cons hnext₁ (.cons hnext₂ (.cons hnext₃ (.nil _)))
  obtain ⟨groups, current, h⟩ := deferred_groups _ _ _ _ hrun
  exact ⟨_, groups, current, hrun, rfl, hlen, hempty, h⟩

end TemePCom.Router
