/-
TemePCom/Router/ArpTable.lean

The ARP table as a map.

What the table is for is a map from addresses to MACs that every accepted reply
updates; it is kept next to the router's state here (`Learning`).
`add_arp_entry` appends and `search_arp` takes the first match, so the table is
that map as long as no reply comes in for an address it has already
(`latestWins_iff`); after such a reply the old MAC is found.
-/
import TemePCom.Router.Parking

namespace TemePCom.Router

open StateTransition Runs

variable {env : Env} {s s' : State} {frame : Frame} {arpTable : List ArpEntry}

/-! ### Searching a table that grows -/

theorem searchArp_addArpEntry_of_ne {ip ip' : UInt32} (mac : Mac) (h : ip ≠ ip') :
    searchArp (addArpEntry arpTable ip mac) ip' = searchArp arpTable ip' := by
  unfold searchArp addArpEntry
  rw [List.find?_append, List.find?_singleton, if_neg (by simpa using h), Option.or_none]

/-- The first entry wins. -/
theorem searchArp_addArpEntry_of_some {ip ip' : UInt32} {e : ArpEntry} (mac : Mac)
    (h : searchArp arpTable ip' = some e) :
    searchArp (addArpEntry arpTable ip mac) ip' = some e := by
  unfold searchArp addArpEntry at *
  rw [List.find?_append, h, Option.some_or]

theorem searchArp_eq_none {ip : UInt32} :
    searchArp arpTable ip = none ↔ ip ∉ arpTable.map ArpEntry.ip := by
  unfold searchArp
  rw [List.find?_eq_none]
  simp only [List.mem_map, decide_eq_true_eq]
  push Not
  exact forall₂_congr fun e _ => Iff.rfl

/-! ### The map the table stands for -/

/-- The router's state, and what the accepted replies say. -/
structure Learning where
  st : State
  known : UInt32 → Option Mac

def Learning.start (m : Packet) (mem : Memory) : Learning := ⟨State.start m mem, fun _ => none⟩

/-- A step of the router; an accepted reply updates the map. -/
def LearningNext (env : Env) (l : Learning) (frame : Frame) (l' : Learning) : Prop :=
  Next env l.st frame l'.st ∧
    l'.known = if searches env l.st frame then
      Function.update l.known (getPacket l.st.m frame).payload.arpHdr.spa
        (some (getPacket l.st.m frame).payload.arpHdr.sha)
    else l.known

/-- The table is the map: one entry for an address, the search finds the latest
MAC, and a reply for one address leaves the search for the others alone. -/
structure LatestWins (l : Learning) : Prop where
  one : (l.st.arpTable.map ArpEntry.ip).Nodup
  latest : ∀ ip, (searchArp l.st.arpTable ip).map ArpEntry.mac = l.known ip
  others : ∀ ip mac ip', ip ≠ ip' →
    searchArp (addArpEntry l.st.arpTable ip mac) ip' = searchArp l.st.arpTable ip'

/-- No reply is accepted for an address that is in the table. -/
def NewAddress (env : Env) (l : Learning) (frame : Frame) : Prop :=
  searches env l.st frame = true →
    searchArp l.st.arpTable (getPacket l.st.m frame).payload.arpHdr.spa = none

/-- The table grows by an entry when a reply is accepted, and only then. -/
theorem arpTable_next (h : Next env s frame s') : s'.arpTable =
    if searches env s frame then learned s.arpTable (getPacket s.m frame) else s.arpTable := by
  rcases next_cases h with ⟨hsearch, r, -, -, rfl⟩ | ⟨hsearch, q, -, rfl⟩ | ⟨hsearch, -, rfl⟩
  · rw [hsearch, State.afterIp]
    rcases r.saved with - | p <;> rfl
  · rw [hsearch]
    rfl
  · rw [hsearch]
    rfl

/-! ### Steps -/

variable {l l' : Learning}

theorem latestWins_step (h : LatestWins l) (hnext : LearningNext env l frame l')
    (hnew : NewAddress env l frame) : LatestWins l' := by
  obtain ⟨hstep, hknown⟩ := hnext
  have htable := arpTable_next hstep
  by_cases hsearch : searches env l.st frame = true
  · rw [if_pos hsearch] at htable hknown
    have hnone := hnew hsearch
    set spa := (getPacket l.st.m frame).payload.arpHdr.spa
    set sha := (getPacket l.st.m frame).payload.arpHdr.sha
    refine ⟨?_, fun ip => ?_, fun ip mac ip' => searchArp_addArpEntry_of_ne mac⟩
    · rw [htable]
      show ((l.st.arpTable ++ [(⟨spa, sha⟩ : ArpEntry)]).map ArpEntry.ip).Nodup
      rw [List.map_append, List.nodup_append]
      refine ⟨h.one, List.nodup_singleton _, fun ip hip ip' hip' heq => ?_⟩
      rw [List.map_singleton, List.mem_singleton] at hip'
      have hspa : ip = spa := heq.trans hip'
      exact searchArp_eq_none.mp hnone (hspa ▸ hip)
    · rw [htable, hknown]
      show (searchArp (addArpEntry l.st.arpTable spa sha) ip).map ArpEntry.mac = _
      by_cases hip : spa = ip
      · rw [← hip, searchArp_addArpEntry sha hnone, Function.update_self]
        rfl
      · rw [searchArp_addArpEntry_of_ne sha hip, Function.update_of_ne (Ne.symm hip)]
        exact h.latest ip
  · rw [if_neg hsearch] at htable hknown
    refine ⟨htable ▸ h.one, fun ip => ?_, fun ip mac ip' => searchArp_addArpEntry_of_ne mac⟩
    rw [htable, hknown]
    exact h.latest ip

/-- A second entry for an address. -/
theorem not_latestWins_of_repeated (hnext : LearningNext env l frame l')
    (hmiss : ¬ NewAddress env l frame) : ¬ LatestWins l' := by
  intro hlatest
  unfold NewAddress at hmiss
  push Not at hmiss
  obtain ⟨hsearch, hsome⟩ := hmiss
  have htable := arpTable_next hnext.1
  rw [if_pos hsearch, learned, addArpEntry] at htable
  have hone := hlatest.one
  rw [htable, List.map_append, List.nodup_append] at hone
  refine hsome (searchArp_eq_none.mpr fun hmem => ?_)
  exact hone.2.2 _ hmem _ (List.mem_singleton_self _) rfl

/-! ### Runs -/

/-- **When the latest reply wins.**  Along a run the table is the map that the
accepted replies describe iff none is for an address that is in the table. -/
theorem latestWins_iff (env : Env) (m : Packet) (mem : Memory) (frames : List Frame) :
    Along (LearningNext env) LatestWins (Learning.start m mem) frames ↔
      Each (LearningNext env) (NewAddress env) (Learning.start m mem) frames := by
  refine along_iff_each LatestWins ?_ (fun _ h => h) ?_ ?_
  · exact fun l frame l' h hnext hnew => latestWins_step h hnext hnew
  · exact fun l frame l' _ hnext hmiss => not_latestWins_of_repeated hnext hmiss
  · exact ⟨List.nodup_nil, fun ip => rfl, fun ip mac ip' => searchArp_addArpEntry_of_ne mac⟩

/-! ### A host with a new MAC -/

/-- A reply that is accepted while nothing is waiting. -/
theorem next_of_searches (hsearch : searches env s frame = true)
    (hqueue : s.noMacDestQueue = []) :
    Next env s frame { s with
      m := getPacket s.m frame
      arpTable := learned s.arpTable (getPacket s.m frame) } := by
  simp only [searches, decide_eq_true_eq] at hsearch
  obtain ⟨hip, harp, hrep⟩ := hsearch
  have hreq : ntohs (getPacket s.m frame).payload.arpHdr.op ≠ arpopRequest := by
    simp only [isReplyForUs, decide_eq_true_eq] at hrep
    exact hrep.1
  refine ⟨[], ?_⟩
  simp only [iteration, if_neg hip, if_pos harp, arpHandler, if_neg hreq, hrep, if_true,
    hqueue, searchQueue_nil, Part.map_some, Except.map, Part.mem_some_iff]

/-- An ARP reply for `0.0.0.0`, in which a host with the address `0.0.0.ip` says
that its MAC is `mac:0:0:0:0:0`. -/
def arpReplyFrame (ip mac : UInt8) : Frame where
  interface := 0
  bytes := [0, 0, 0, 0, 0, 0, 0, 0, 0, 0, 0, 0, 8, 6] ++
    [0, 0, 0, 0, 0, 0, 0, 2] ++ [mac, 0, 0, 0, 0, 0] ++ [0, 0, 0, ip] ++
    [0, 0, 0, 0, 0, 0] ++ [0, 0, 0, 0]

theorem searches_arpReplyFrame (s : State) (ip mac : UInt8) :
    searches twoRoutes s (arpReplyFrame ip mac) = true := by
  have htype : htons (getPacket s.m (arpReplyFrame ip mac)).payload.ethHdr.etherType =
      ethertypeArp := by
    show ntohs (load16 8 6) = ethertypeArp
    decide
  have hrep : isReplyForUs twoRoutes.ifs (getPacket s.m (arpReplyFrame ip mac)) = true := by
    show decide (ntohs (load16 0 2) ≠ arpopRequest ∧ htons (load16 0 2) = arpopReply ∧
      load32 0 0 0 0 = 0) = true
    decide
  simp only [searches, htype, hrep]
  decide

theorem spa_arpReplyFrame (m : Packet) (ip mac : UInt8) :
    (getPacket m (arpReplyFrame ip mac)).payload.arpHdr.spa = load32 0 0 0 ip := rfl

theorem sha_arpReplyFrame (m : Packet) (ip mac : UInt8) :
    (getPacket m (arpReplyFrame ip mac)).payload.arpHdr.sha = ![mac, 0, 0, 0, 0, 0] := by
  funext i
  fin_cases i <;> rfl

/-- The router has learned what the reply says. -/
def Learning.after (l : Learning) (frame : Frame) : Learning where
  st := { l.st with
    m := getPacket l.st.m frame
    arpTable := learned l.st.arpTable (getPacket l.st.m frame) }
  known := Function.update l.known (getPacket l.st.m frame).payload.arpHdr.spa
    (some (getPacket l.st.m frame).payload.arpHdr.sha)

theorem learningNext_after {l : Learning} (hsearch : searches env l.st frame = true)
    (hqueue : l.st.noMacDestQueue = []) : LearningNext env l frame (l.after frame) :=
  ⟨next_of_searches hsearch hqueue, (if_pos hsearch).symm⟩

/-- The second MAC a host announces is not the one that is found. -/
theorem not_latestWins_arpReplyFrame :
    ¬ Along (LearningNext twoRoutes) LatestWins (Learning.start blankPacket fun _ => blankPacket)
      [arpReplyFrame 1 7, arpReplyFrame 1 8] := by
  rintro ⟨-, hrest⟩
  set l := Learning.start blankPacket fun _ => blankPacket with hl
  obtain ⟨-, hrest⟩ := hrest _ (learningNext_after (searches_arpReplyFrame l.st 1 7) rfl)
  set l₁ := l.after (arpReplyFrame 1 7) with hl₁
  obtain ⟨-, hlatest, -⟩ := hrest _ (learningNext_after (searches_arpReplyFrame l₁.st 1 8) rfl)
  -- the table says 7, the latest reply says 8
  have hmac := hlatest (load32 0 0 0 1)
  have hknown : (l₁.after (arpReplyFrame 1 8)).known (load32 0 0 0 1) =
      some ![8, 0, 0, 0, 0, 0] := by
    simp only [Learning.after, spa_arpReplyFrame, sha_arpReplyFrame, Function.update_self]
  have hfirst : searchArp l₁.st.arpTable (load32 0 0 0 1) =
      some ⟨load32 0 0 0 1, ![7, 0, 0, 0, 0, 0]⟩ := by
    rw [hl₁, Learning.after, learned, spa_arpReplyFrame, sha_arpReplyFrame]
    exact searchArp_addArpEntry _ rfl
  have hfound : searchArp (l₁.after (arpReplyFrame 1 8)).st.arpTable (load32 0 0 0 1) =
      some ⟨load32 0 0 0 1, ![7, 0, 0, 0, 0, 0]⟩ := searchArp_addArpEntry_of_some _ hfirst
  rw [hknown, hfound, Option.map_some, Option.some.injEq] at hmac
  exact absurd (congrFun hmac 0) (by decide)

end TemePCom.Router
