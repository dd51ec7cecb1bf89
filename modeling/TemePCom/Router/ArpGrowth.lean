/-
TemePCom/Router/ArpGrowth.lean

Whether `main` sees its ARP table grow.

The array has room for `arp_max_len` entries, and every entry beyond the first
`ARP_MAX_SIZE` is preceded by a `realloc`.  If it keeps the block, the entry is
behind the others; if it moves the block, `arp_table` of `main` denotes a block
that is gone.
-/
import TemePCom.Router.ArpArray

namespace TemePCom.Router

open StateTransition Runs

variable {env : Env} {t t' : Table} {added : List ArpEntry} {s s' : ArrayState}
  {frame : Frame} {choice : Realloc}

/-! ### What the owner should see -/

/-- The block is live, has `arp_len` slots, and these are the entries in order. -/
def Table.Holds (t : Table) (added : List ArpEntry) : Prop :=
  ∃ block, t.heap t.arpTable = some block ∧ t.arpLen ≤ block.length ∧
    block.take t.arpLen = added.map some

/-- The router's state, and the entries added so far. -/
structure Growth where
  st : ArrayState
  added : List ArpEntry

def Growth.start (m : Packet) (mem : Memory) : Growth := ⟨ArrayState.start m mem, []⟩

/-- A step of the router; an accepted reply adds an entry. -/
def GrowthNext (env : Env) (g : Growth) (e : Frame × Realloc) (g' : Growth) : Prop :=
  ArrayNext env g.st e g'.st ∧
    g'.added = if searches env (g.st.toState g.added) e.1 then
      learned g.added (getPacket g.st.m e.1) else g.added

/-- `arp_table` of `main` holds the entries, and whatever is searched through it is
found among them. -/
structure OwnerSees (g : Growth) : Prop where
  holds : g.st.table.Holds g.added
  reads : ∀ ip, g.st.table.searchArp ip = .ok (searchArp g.added ip)

/-- If the reply finds the array full, `realloc` keeps the block. -/
def KeepsBlock (env : Env) (g : Growth) (e : Frame × Realloc) : Prop :=
  searches env (g.st.toState g.added) e.1 = true →
    g.st.table.arpLen = g.st.table.arpMaxLen → e.2 = .kept

/-- The block holds the entries and has the size that `arp_max_len` says. -/
def Intact (t : Table) (added : List ArpEntry) : Prop :=
  ∃ block, t.heap t.arpTable = some block ∧ block.length = t.arpMaxLen ∧
    t.arpLen ≤ t.arpMaxLen ∧ block.take t.arpLen = added.map some

/-! ### Searching the array -/

theorem Table.Holds.length (h : t.Holds added) : added.length = t.arpLen := by
  obtain ⟨block, -, hlen, htake⟩ := h
  have hlength := congrArg List.length htake
  rw [List.length_take, List.length_map] at hlength
  omega

theorem Table.Holds.readSlot (h : t.Holds added) {i : ℕ} (hi : i < added.length) :
    readSlot t.heap t.arpTable i = .ok added[i] := by
  have hlength := h.length
  obtain ⟨block, hblock, hlen, htake⟩ := h
  have hslot : block[i]? = some (some added[i]) := by
    rw [← List.getElem?_take_of_lt (hlength ▸ hi), htake, List.getElem?_map,
      List.getElem?_eq_getElem hi, Option.map_some]
  simp only [Router.readSlot, hblock, hslot]

theorem searchArpFrom_eq (h : t.Holds added) (ip : UInt32) (i k : ℕ)
    (hk : i + k = added.length) :
    searchArpFrom t.heap t.arpTable ip i k = .ok (searchArp (added.drop i) ip) := by
  induction k generalizing i with
  | zero =>
    rw [List.drop_of_length_le (by omega)]
    rfl
  | succ k ih =>
    have hi : i < added.length := by omega
    rw [searchArpFrom, h.readSlot hi, searchArp, List.drop_eq_getElem_cons hi]
    by_cases hip : added[i].ip = ip
    · rw [List.find?_cons_of_pos (by simpa using hip)]
      exact if_pos hip
    · rw [List.find?_cons_of_neg (by simpa using hip)]
      exact (if_neg hip).trans (ih (i + 1) (by omega))

/-- Searching the array is searching its contents. -/
theorem searchArp_of_holds (h : t.Holds added) (ip : UInt32) :
    t.searchArp ip = .ok (searchArp added ip) := by
  rw [Table.searchArp, searchArpFrom_eq h ip 0 _ (by rw [h.length, Nat.zero_add]), List.drop_zero]

/-! ### Adding an entry -/

/-- Writing behind the entries. -/
theorem take_set_append {block : Block} {n : ℕ} {e : ArpEntry} (hn : n < block.length)
    (h : block.take n = added.map some) :
    (block.set n (some e)).take (n + 1) = (added ++ [e]).map some := by
  rw [List.take_add_one, List.take_set_of_le le_rfl, h, List.getElem?_set_self hn,
    List.map_append]
  rfl

theorem resize_succ {block : Block} {n : ℕ} (h : block.length = n) :
    block.resize (n + 1) = block ++ [none] := by
  rw [Block.resize, List.take_of_length_le (by omega), h, Nat.add_sub_cancel_left]
  rfl

section Adding

variable {block : Block} (hblock : t.heap t.arpTable = some block)
include hblock

theorem addArpEntry_of_room (choice : Realloc) (ip : UInt32) (mac : Mac)
    (hroom : t.arpLen ≠ t.arpMaxLen) (hlt : t.arpLen < block.length) :
    t.addArpEntry choice ip mac = .ok { t with
      heap := Function.update t.heap t.arpTable (some (block.set t.arpLen (some ⟨ip, mac⟩)))
      arpLen := t.arpLen + 1 } := by
  simp only [Table.addArpEntry, hroom, if_false, writeSlot, hblock, hlt, if_true]

/-- Grown in place, by one slot. -/
theorem addArpEntry_of_full (ip : UInt32) (mac : Mac) (hfull : t.arpLen = t.arpMaxLen)
    (hsize : block.length = t.arpMaxLen) : t.addArpEntry .kept ip mac = .ok { t with
      heap := Function.update (Function.update t.heap t.arpTable (some (block ++ [none])))
        t.arpTable (some ((block ++ [none]).set t.arpLen (some ⟨ip, mac⟩)))
      arpLen := t.arpLen + 1
      arpMaxLen := t.arpMaxLen + 1 } := by
  have hlength : (block ++ [none]).length = t.arpMaxLen + 1 := by
    rw [List.length_append, hsize, List.length_singleton]
  simp only [Table.addArpEntry, hfull, if_true, realloc, hblock, Except.map, writeSlot,
    Function.update_self, resize_succ hsize, hlength, Nat.lt_succ_self]

/-- Grown somewhere else, by one slot. -/
theorem addArpEntry_of_moved (fresh : ℕ) (ip : UInt32) (mac : Mac) (hfull : t.arpLen = t.arpMaxLen)
    (hsize : block.length = t.arpMaxLen) : t.addArpEntry (.moved fresh) ip mac = .ok { t with
      heap := Function.update (Function.update (Function.update t.heap t.arpTable none) fresh
        (some (block ++ [none]))) fresh (some ((block ++ [none]).set t.arpLen (some ⟨ip, mac⟩)))
      arpLen := t.arpLen + 1
      arpMaxLen := t.arpMaxLen + 1 } := by
  have hlength : (block ++ [none]).length = t.arpMaxLen + 1 := by
    rw [List.length_append, hsize, List.length_singleton]
  simp only [Table.addArpEntry, hfull, if_true, realloc, hblock, Except.map, writeSlot,
    Function.update_self, resize_succ hsize, hlength, Nat.lt_succ_self]

/-- After a move the owner's pointer dangles. -/
theorem dangling_of_moved {fresh : ℕ} {ip : UInt32} {mac : Mac} (hfull : t.arpLen = t.arpMaxLen)
    (hsize : block.length = t.arpMaxLen) (hfresh : t.heap fresh = none)
    (h : t.addArpEntry (.moved fresh) ip mac = .ok t') : t'.heap t'.arpTable = none := by
  have hne : t.arpTable ≠ fresh := by
    rintro heq
    rw [heq, hfresh] at hblock
    cases hblock
  obtain rfl := Except.ok.inj ((addArpEntry_of_moved hblock fresh ip mac hfull hsize).symm.trans h)
  show Function.update (Function.update (Function.update t.heap t.arpTable none) fresh _) fresh
    _ t.arpTable = none
  rw [Function.update_of_ne hne, Function.update_of_ne hne, Function.update_self]

end Adding

theorem Intact.addArpEntry (h : Intact t added) (choice : Realloc) (ip : UInt32) (mac : Mac)
    (hkeep : t.arpLen = t.arpMaxLen → choice = .kept) :
    ∃ t', t.addArpEntry choice ip mac = .ok t' ∧ Intact t' (addArpEntry added ip mac) := by
  obtain ⟨block, hblock, hsize, hlen, htake⟩ := h
  by_cases hfull : t.arpLen = t.arpMaxLen
  · obtain rfl := hkeep hfull
    have hlength : (block ++ [none]).length = t.arpMaxLen + 1 := by
      rw [List.length_append, hsize, List.length_singleton]
    have htake' : (block ++ [none]).take t.arpLen = added.map some := by
      rw [List.take_append_of_le_length (by omega), htake]
    refine ⟨_, addArpEntry_of_full hblock ip mac hfull hsize, _, Function.update_self .., ?_,
      Nat.succ_le_succ hlen, take_set_append (by omega) htake'⟩
    rw [List.length_set, hlength]
  · have hlt : t.arpLen < block.length := by omega
    refine ⟨_, addArpEntry_of_room hblock choice ip mac hfull hlt, _, Function.update_self ..,
      ?_, ?_,
      take_set_append hlt htake⟩
    · rw [List.length_set, hsize]
    · show t.arpLen + 1 ≤ t.arpMaxLen
      omega

/-! ### Steps -/

/-- The table changes when a reply is accepted, by its entry, and only then. -/
theorem table_of_iterationAt (added : List ArpEntry) {e : Frame × Realloc} {sent : List Frame}
    (h : .ok (s', sent) ∈ iterationAt env s e.1 e.2) :
    if searches env (s.toState added) e.1 then
      s.table.addArpEntry e.2 (getPacket s.m e.1).payload.arpHdr.spa
        (getPacket s.m e.1).payload.arpHdr.sha = .ok s'.table
    else s'.table = s.table := by
  have hm : (s.toState added).m = s.m := rfl
  unfold iterationAt at h
  by_cases hip : htons (getPacket s.m e.1).payload.ethHdr.etherType = ethertypeIp
  · simp only [hip, if_true, Part.mem_some_iff] at h
    rw [if_neg (by simp [searches, hm, hip])]
    rcases hr : ipBranchAt env s.table (getPacket s.m e.1) with fault | r
    · rw [hr] at h
      cases h
    · rw [hr] at h
      rw [(Prod.mk.inj (Except.ok.inj h)).1, ArrayState.afterIp]
      rcases r.saved with - | p <;> rfl
  by_cases harp : htons (getPacket s.m e.1).payload.ethHdr.etherType = ethertypeArp
  · simp only [if_neg hip, if_pos harp] at h
    unfold arpHandlerAt at h
    by_cases hreq : ntohs (getPacket s.m e.1).payload.arpHdr.op = arpopRequest
    · simp only [if_pos hreq, Part.mem_some_iff] at h
      rw [if_neg (by simp [searches, hm, isReplyForUs, hreq]),
        (Prod.mk.inj (Except.ok.inj h)).1]
    by_cases hrep : isReplyForUs env.ifs (getPacket s.m e.1) = true
    · rw [if_pos (by
        simp only [searches, hm, hrep, decide_eq_true_eq]
        exact ⟨hip, harp, trivial⟩)]
      simp only [if_neg hreq, if_pos hrep] at h
      rcases hadd : s.table.addArpEntry e.2 (getPacket s.m e.1).payload.arpHdr.spa
        (getPacket s.m e.1).payload.arpHdr.sha with fault | table
      · simp [hadd] at h
      · simp only [hadd] at h
        obtain ⟨r, -, heq⟩ := (Part.mem_map_iff _).mp h
        rcases r with fault | q
        · cases heq
        · rw [← (Prod.mk.inj (Except.ok.inj heq)).1]
    · simp only [if_neg hreq, if_neg hrep, Part.mem_some_iff] at h
      rw [if_neg (by simp [searches, hm, hrep]), (Prod.mk.inj (Except.ok.inj h)).1]
  · simp only [if_neg hip, if_neg harp, Part.mem_some_iff] at h
    rw [if_neg (by simp [searches, hm, harp]), (Prod.mk.inj (Except.ok.inj h)).1]

variable {g g' : Growth} {e : Frame × Realloc} {sent : List Frame}

/-- The entries after a frame. -/
def Growth.grown (env : Env) (g : Growth) (frame : Frame) : List ArpEntry :=
  if searches env (g.st.toState g.added) frame then learned g.added (getPacket g.st.m frame)
  else g.added

/-- A table that is kept stays intact. -/
theorem intact_of_iterationAt (h : Intact g.st.table g.added) (hkeep : KeepsBlock env g e)
    (hiter : .ok (s', sent) ∈ iterationAt env g.st e.1 e.2) :
    Intact s'.table (g.grown env e.1) := by
  have htable := table_of_iterationAt g.added hiter
  unfold Growth.grown
  by_cases hsearch : searches env (g.st.toState g.added) e.1 = true
  · rw [if_pos hsearch] at htable ⊢
    obtain ⟨t', ht', hintact⟩ := h.addArpEntry e.2
      (getPacket g.st.m e.1).payload.arpHdr.spa (getPacket g.st.m e.1).payload.arpHdr.sha
      (hkeep hsearch)
    obtain rfl := Except.ok.inj (ht'.symm.trans htable)
    exact hintact
  · rw [if_neg hsearch] at htable ⊢
    rw [htable]
    exact h

theorem intact_step (h : Intact g.st.table g.added) (hnext : GrowthNext env g e g')
    (hkeep : KeepsBlock env g e) : Intact g'.st.table g'.added := by
  obtain ⟨⟨-, sent, hiter⟩, hadded⟩ := hnext
  rw [hadded]
  exact intact_of_iterationAt h hkeep hiter

theorem not_ownerSees_of_moved (h : Intact g.st.table g.added) (hnext : GrowthNext env g e g')
    (hmiss : ¬ KeepsBlock env g e) : ¬ OwnerSees g' := by
  rintro ⟨⟨block', hlive, -⟩, -⟩
  unfold KeepsBlock at hmiss
  push Not at hmiss
  obtain ⟨hsearch, hfull, hmoved⟩ := hmiss
  obtain ⟨⟨hadm, sent, hiter⟩, -⟩ := hnext
  have htable := table_of_iterationAt g.added hiter
  rw [if_pos hsearch] at htable
  obtain ⟨block, hblock, hsize, -⟩ := h
  rcases hchoice : e.2 with - | fresh
  · exact hmoved hchoice
  · rw [hchoice] at htable hadm
    cases hlive.symm.trans (dangling_of_moved hblock hfull hsize hadm htable)

theorem Intact.holds (h : Intact t added) : t.Holds added := by
  obtain ⟨block, hblock, hsize, hlen, htake⟩ := h
  exact ⟨block, hblock, by omega, htake⟩

theorem intact_start : Intact Table.start [] :=
  ⟨List.replicate arpMaxSize none, rfl, rfl, Nat.zero_le _, rfl⟩

/-! ### The array and its contents -/

section Refinement

variable (h : ∀ ip, t.searchArp ip = .ok (searchArp added ip))
include h

theorem ipBranchAt_eq (m : Packet) :
    ipBranchAt env t m = (ipBranch env added m).mapError Sum.inl := by
  unfold ipBranchAt ipBranch
  by_cases hecho : (icmpHandler env.ifs m).1 = true
  · simp only [hecho, if_true, Except.mapError]
  by_cases hgarbage : (isGarbage env.ifs m).1 = true
  · simp only [hecho, hgarbage, if_true, Bool.false_eq_true, if_false, Except.mapError]
  simp only [hecho, hgarbage, Bool.false_eq_true, if_false]
  rcases getBestRoute env.rtable m.payload.ipHdr.daddr with fault | (- | route)
  · rfl
  · rfl
  · simp only [h]
    rcases searchArp added route.nextHop with - | arpEntry <;> rfl

theorem searchRoundAt_eq (s : SearchState) (crt : Addr) (rest : List Addr) :
    searchRoundAt env t s crt rest = (searchRound env added s crt rest).mapError Sum.inl := by
  unfold searchRoundAt searchRound
  rcases getBestRoute env.rtable (s.mem crt).payload.ipHdr.daddr with fault | (- | route)
  · rfl
  · rfl
  · simp only [h]
    rcases searchArp added route.nextHop with - | existing <;> rfl

theorem searchStepAt_eq (r : Except Fault SearchState) :
    searchStepAt env t (r.mapError Sum.inl) =
      (searchStep env added r).map (Except.mapError Sum.inl) := by
  rcases r with fault | s
  · rfl
  · show searchStepAt env t (.ok s) = _
    unfold searchStepAt searchStep
    rcases hq : s.noMacDestQueue with - | ⟨crt, rest⟩
    · simp only [hq, Option.map_none]
    · simp only [hq, searchRoundAt_eq h, Option.map_some]

/-- The loop of `search_queue` goes through the same states. -/
theorem searchQueueAt_eq (mem : Memory) (queue : List Addr) :
    searchQueueAt env t mem queue =
      (searchQueue env added mem queue).map (Except.mapError Sum.inl) := by
  have hrespects : Respects (searchStep env added) (searchStepAt env t)
      fun a b => Except.mapError Sum.inl a = b := by
    rw [fun_respects]
    intro r
    have hstep : searchStepAt env t _ = _ := searchStepAt_eq h r
    rcases hr : searchStep env added r with - | r'
    · rw [hr] at hstep
      exact hstep
    · rw [hr] at hstep
      exact Relation.TransGen.single (Option.mem_def.mpr hstep)
  have heval : eval (searchStepAt env t) (.ok ⟨mem, queue, [], []⟩) =
      (eval (searchStep env added) (.ok ⟨mem, queue, [], []⟩)).map (Except.mapError Sum.inl) :=
    tr_eval' _ _ _ hrespects (.ok ⟨mem, queue, [], []⟩)
  rw [searchQueueAt, searchQueue, heval, Part.map_map, Part.map_map]
  congr 1
  funext r
  rcases r with fault | s <;> rfl

end Refinement

theorem toState_afterIp (s : ArrayState) (r : IpResult) (added : List ArpEntry) :
    (s.afterIp r).toState added = (s.toState added).afterIp r := by
  obtain ⟨m, sent, - | p⟩ := r <;> rfl

/-- **The array implements the table**: as long as it is intact and stays so, an
iteration on the array is one on its contents. -/
theorem iterationAt_eq (h : Intact s.table added)
    (hkeep : searches env (s.toState added) frame = true →
      s.table.arpLen = s.table.arpMaxLen → choice = .kept) :
    (iterationAt env s frame choice).map (Except.map fun q =>
      (q.1.toState (if searches env (s.toState added) frame then
        learned added (getPacket s.m frame) else added), q.2)) =
    (iteration env (s.toState added) frame).map (Except.mapError Sum.inl) := by
  have hreads := searchArp_of_holds h.holds
  have hm : (s.toState added).m = s.m := rfl
  unfold iterationAt iteration
  by_cases hip : htons (getPacket s.m frame).payload.ethHdr.etherType = ethertypeIp
  · have hsearch : ¬ searches env (s.toState added) frame = true := by simp [searches, hm, hip]
    simp only [hm, hip, if_true, if_neg hsearch, Part.map_some, ipBranchAt_eq hreads]
    congr 1
    show _ = Except.mapError Sum.inl (Except.map _ (ipBranch env added (getPacket s.m frame)))
    rcases ipBranch env added (getPacket s.m frame) with fault | r
    · rfl
    · exact congrArg (fun s' => Except.ok (s', r.sent)) (toState_afterIp ..)
  by_cases harp : htons (getPacket s.m frame).payload.ethHdr.etherType = ethertypeArp
  · simp only [hm, if_neg hip, if_pos harp]
    unfold arpHandlerAt arpHandler
    by_cases hreq : ntohs (getPacket s.m frame).payload.arpHdr.op = arpopRequest
    · have hsearch : ¬ searches env (s.toState added) frame = true := by
        simp [searches, hm, isReplyForUs, hreq]
      simp only [if_pos hreq, if_neg hsearch, Part.map_some]
      rfl
    by_cases hrep : isReplyForUs env.ifs (getPacket s.m frame) = true
    · have hsearch : searches env (s.toState added) frame = true := by
        simp only [searches, hm, hrep, decide_eq_true_eq]
        exact ⟨hip, harp, trivial⟩
      obtain ⟨t', ht', hintact⟩ := h.addArpEntry choice (getPacket s.m frame).payload.arpHdr.spa
        (getPacket s.m frame).payload.arpHdr.sha (hkeep hsearch)
      simp only [if_neg hreq, if_pos hrep, if_pos hsearch, ht',
        searchQueueAt_eq (searchArp_of_holds hintact.holds), Part.map_map]
      congr 1
      funext r
      rcases r with fault | q <;> rfl
    · have hsearch : ¬ searches env (s.toState added) frame = true := by
        simp [searches, hm, hrep]
      simp only [if_neg hreq, if_neg hrep, if_neg hsearch, Part.map_some]
      rfl
  · have hsearch : ¬ searches env (s.toState added) frame = true := by simp [searches, hm, harp]
    simp only [hm, if_neg hip, if_neg harp, if_neg hsearch, Part.map_some]
    rfl

/-- What an iteration on the contents comes to, the one on the array comes to. -/
theorem iterationAt_of_iteration {u : State} (h : Intact g.st.table g.added)
    (hkeep : KeepsBlock env g e)
    (hiter : iteration env (g.st.toState g.added) e.1 = Part.some (.ok (u, sent))) :
    ∃ s', iterationAt env g.st e.1 e.2 = Part.some (.ok (s', sent)) ∧
      s'.toState (g.grown env e.1) = u ∧ Intact s'.table (g.grown env e.1) := by
  have heq := iterationAt_eq h hkeep
  rw [hiter, Part.map_some] at heq
  obtain ⟨r, hr, hmap⟩ := (Part.mem_map_iff _).mp (heq ▸ Part.mem_some _)
  rcases r with fault | ⟨s', sent'⟩
  · cases hmap
  · obtain ⟨hstate, rfl⟩ := Prod.mk.inj (Except.ok.inj hmap)
    exact ⟨s', Part.eq_some_iff.mpr hr, hstate, intact_of_iterationAt h hkeep hr⟩

/-- If it never ends, neither does the one on the array. -/
theorem iterationAt_eq_none (h : Intact g.st.table g.added) (hkeep : KeepsBlock env g e)
    (hiter : iteration env (g.st.toState g.added) e.1 = Part.none) :
    iterationAt env g.st e.1 e.2 = Part.none := by
  have heq := iterationAt_eq h hkeep
  rw [hiter, Part.map_none] at heq
  rw [Part.eq_none_iff]
  intro r hr
  exact Part.notMem_none _ (heq ▸ Part.mem_map _ hr)

/-- Conversely, a step on an intact array is one on its contents. -/
theorem next_of_growthNext (h : Intact g.st.table g.added) (hkeep : KeepsBlock env g e)
    (hnext : GrowthNext env g e g') :
    Next env (g.st.toState g.added) e.1 (g'.st.toState g'.added) := by
  obtain ⟨⟨-, sent, hiter⟩, hadded⟩ := hnext
  have hmem := Part.mem_map (Except.map fun q => (q.1.toState (g.grown env e.1), q.2)) hiter
  have heq : Part.map (Except.map fun q => (q.1.toState (g.grown env e.1), q.2))
      (iterationAt env g.st e.1 e.2) = _ := iterationAt_eq h hkeep
  rw [heq] at hmem
  obtain ⟨r, hr, hmap⟩ := (Part.mem_map_iff _).mp hmem
  rcases r with fault | q
  · cases hmap
  · refine ⟨sent, ?_⟩
    rw [hadded]
    have hq : q = (g'.st.toState (g.grown env e.1), sent) := Except.ok.inj hmap
    exact hq ▸ hr

/-! ### Runs -/

/-- A step in which `realloc`, if it is called, keeps the block. -/
def KeepingNext (env : Env) (g : Growth) (e : Frame × Realloc) (g' : Growth) : Prop :=
  GrowthNext env g e g' ∧ KeepsBlock env g e

/-- **When the owner sees its table grow.**  Along a run `arp_table` of `main` holds
the entries added so far iff `realloc` keeps the block whenever it is called. -/
theorem ownerSees_iff (env : Env) (m : Packet) (mem : Memory) (es : List (Frame × Realloc)) :
    Along (GrowthNext env) OwnerSees (Growth.start m mem) es ↔
      Each (GrowthNext env) (KeepsBlock env) (Growth.start m mem) es := by
  refine along_iff_each (fun g => Intact g.st.table g.added) ?_ ?_ ?_ intact_start
  · exact fun g e g' h hnext hkeep => intact_step h hnext hkeep
  · exact fun g h => ⟨h.holds, searchArp_of_holds h.holds⟩
  · exact fun g e g' h hnext hmiss => not_ownerSees_of_moved h hnext hmiss

/-! ### One reply too many -/

/-- A reply that is accepted while nothing is waiting. -/
theorem arrayNext_of_searches {table : Table}
    (hsearch : searches env (s.toState added) frame = true)
    (hqueue : s.noMacDestQueue = []) (hadm : choice.Admissible s.table.heap)
    (hadd : s.table.addArpEntry choice (getPacket s.m frame).payload.arpHdr.spa
      (getPacket s.m frame).payload.arpHdr.sha = .ok table) :
    ArrayNext env s (frame, choice) { s with
      m := getPacket s.m frame
      table := table } := by
  have hm : (s.toState added).m = s.m := rfl
  simp only [searches, hm, decide_eq_true_eq] at hsearch
  obtain ⟨hip, harp, hrep⟩ := hsearch
  have hreq : ntohs (getPacket s.m frame).payload.arpHdr.op ≠ arpopRequest := by
    simp only [isReplyForUs, decide_eq_true_eq] at hrep
    exact hrep.1
  have hsearchQueue : .ok ⟨s.mem, [], [], []⟩ ∈ searchQueueAt env table s.mem [] :=
    (Part.mem_map_iff _).mpr ⟨_, mem_eval.mpr ⟨.refl, rfl⟩, rfl⟩
  refine ⟨hadm, [], ?_⟩
  simp only [iterationAt, if_neg hip, if_pos harp, arpHandlerAt, if_neg hreq, hrep, if_true,
    hadd, hqueue]
  exact (Part.mem_map_iff _).mpr ⟨_, hsearchQueue, by rw [← hqueue]; rfl⟩

/-- After `n` replies, with nothing waiting. -/
structure AfterReplies (n : ℕ) (g : Growth) : Prop where
  queue : g.st.noMacDestQueue = []
  intact : Intact g.st.table g.added
  len : g.st.table.arpLen = n
  maxLen : g.st.table.arpMaxLen = arpMaxSize
  first : g.st.table.arpTable = 0
  free : g.st.table.heap 1 = none

theorem afterReplies_succ {n : ℕ} (h : AfterReplies n g) (hn : n < arpMaxSize) :
    ∃ g', GrowthNext twoRoutes g (arpReplyFrame 1 7, .kept) g' ∧ AfterReplies (n + 1) g' := by
  have hsearch := searches_arpReplyFrame (g.st.toState g.added) 1 7
  obtain ⟨block, hblock, hsize, -, -⟩ := h.intact
  have hroom : g.st.table.arpLen ≠ g.st.table.arpMaxLen := by
    have := h.len
    have := h.maxLen
    omega
  have hlt : g.st.table.arpLen < block.length := by
    have := h.len
    have := h.maxLen
    omega
  have hadd := addArpEntry_of_room hblock .kept
    (getPacket g.st.m (arpReplyFrame 1 7)).payload.arpHdr.spa
    (getPacket g.st.m (arpReplyFrame 1 7)).payload.arpHdr.sha hroom hlt
  have hnext : GrowthNext twoRoutes g (arpReplyFrame 1 7, .kept) ⟨_, _⟩ :=
    ⟨arrayNext_of_searches hsearch h.queue trivial hadd, (if_pos hsearch).symm⟩
  refine ⟨_, hnext, h.queue, intact_step h.intact hnext fun _ _ => rfl,
    congrArg Nat.succ h.len, h.maxLen, h.first, ?_⟩
  show Function.update g.st.table.heap g.st.table.arpTable _ 1 = none
  rw [h.first, Function.update_of_ne (by decide)]
  exact h.free

theorem not_along_of_afterReplies (k : ℕ) {n : ℕ} (h : AfterReplies n g)
    (hk : n + k = arpMaxSize) : ¬ Along (GrowthNext twoRoutes) OwnerSees g
      (List.replicate k (arpReplyFrame 1 7, .kept) ++ [(arpReplyFrame 1 7, .moved 1)]) := by
  induction k generalizing n g with
  | zero =>
    rintro ⟨-, hrest⟩
    have hsearch := searches_arpReplyFrame (g.st.toState g.added) 1 7
    obtain ⟨block, hblock, hsize, -, -⟩ := h.intact
    have hfull : g.st.table.arpLen = g.st.table.arpMaxLen := by
      rw [h.len, h.maxLen]
      exact hk
    have hadd := addArpEntry_of_moved hblock 1
      (getPacket g.st.m (arpReplyFrame 1 7)).payload.arpHdr.spa
      (getPacket g.st.m (arpReplyFrame 1 7)).payload.arpHdr.sha hfull hsize
    have hnext : GrowthNext twoRoutes g (arpReplyFrame 1 7, .moved 1) ⟨_, _⟩ :=
      ⟨arrayNext_of_searches hsearch h.queue h.free hadd, (if_pos hsearch).symm⟩
    refine not_ownerSees_of_moved h.intact hnext (fun hkeep => ?_) (hrest _ hnext)
    cases hkeep hsearch hfull
  | succ k ih =>
    rintro ⟨-, hrest⟩
    obtain ⟨g', hnext, hg'⟩ := afterReplies_succ h (by omega)
    exact ih hg' (by omega) (hrest g' hnext)

/-- The twenty-first reply, and a `realloc` that moves the block. -/
theorem not_ownerSees_moved : ¬ Along (GrowthNext twoRoutes) OwnerSees
    (Growth.start blankPacket fun _ => blankPacket)
    (List.replicate arpMaxSize (arpReplyFrame 1 7, .kept) ++
      [(arpReplyFrame 1 7, .moved 1)]) :=
  not_along_of_afterReplies arpMaxSize (n := 0)
    ⟨rfl, intact_start, rfl, rfl, rfl, rfl⟩ (Nat.zero_add _)

end TemePCom.Router
