/-
TemePCom/Router/LongestPrefix.lean

When `get_best_route` finds the longest prefix match.

The table is in descending order of (prefix, mask), compared as the unsigned
numbers the host loads.  The search tests the destination against the *probed*
entry only, and that test says little about the entries beyond it: an entry with
a shorter mask may lie on either side, and in network byte order so may one with
a longer mask.  What the order does give is `isLongest_of_hit`: an entry that
matches and stands in front of a longest match is a longest match itself.  So a
search that ever probes a longest match ends in one, and the question is only
whether it gets there.

`getBestRoute_longest_iff` answers it.  Some probe on the left spine of the
bisection must point right, or the search steps off index 0 and the unsigned
bound wraps around; and when some entry matches, every probe on the way to some
longest match must point towards it.
-/
import TemePCom.Lib.Bisection
import TemePCom.Router.RouterFuns

namespace TemePCom.Router

open Bisection

/-! ### Well-formed tables -/

/-- The mask of prefix length `l`, as the host loads its network-order bytes. -/
def netmask (l : ℕ) : UInt32 := ntohl (UInt32.ofNat (4294967296 - 2 ^ (32 - l)))

/-- The length of a mask: how many of its bits are set. -/
def maskLen (m : UInt32) : ℕ := (List.range 32).countP fun i => m.toNat.testBit i

/-- The table order: descending in (prefix, mask). -/
def Descending (e1 e2 : RtableEntry) : Prop :=
  e2.pref < e1.pref ∨ e1.pref = e2.pref ∧ e2.mask ≤ e1.mask

instance (e1 e2 : RtableEntry) : Decidable (Descending e1 e2) := by
  unfold Descending; infer_instance

/-- A routing table as `main` hands it to the search: contiguous masks, no host
bits in a prefix, sorted, and counted in the `int` of `read_rtable`. -/
structure SortedTable where
  entries : List RtableEntry
  contiguous : ∀ e ∈ entries, ∃ l < 33, e.mask = netmask l
  normal : ∀ e ∈ entries, e.pref &&& e.mask = e.pref
  sorted : entries.Pairwise Descending
  length_lt : entries.length < 2147483648

/-- The entry's prefix contains the address. -/
def Matches (destIp : UInt32) (e : RtableEntry) : Prop := destIp &&& e.mask = e.pref

instance (destIp : UInt32) (e : RtableEntry) : Decidable (Matches destIp e) := by
  unfold Matches; infer_instance

/-- What a linear scan for the longest match answers. -/
def LongestMatch (rtable : List RtableEntry) (destIp : UInt32) : Option RtableEntry → Prop
  | none => ∀ e ∈ rtable, ¬ Matches destIp e
  | some r => r ∈ rtable ∧ Matches destIp r ∧
      ∀ e ∈ rtable, Matches destIp e → maskLen e.mask ≤ maskLen r.mask

/-- The entry at index `i` is a longest match. -/
def IsLongest (rtable : List RtableEntry) (destIp : UInt32) (i : ℕ) : Prop :=
  ∃ r, rtable[i]? = some r ∧ LongestMatch rtable destIp (some r)

/-- The three-way test of a probe: hit, go left, go right. -/
def verdict (rtable : List RtableEntry) (destIp : UInt32) (i : ℕ) : Ordering :=
  match rtable[i]? with
  | none => .lt
  | some e =>
    if destIp &&& e.mask = e.pref then .eq
    else if destIp &&& e.mask > e.pref then .gt
    else .lt

/-! ### Masks -/

theorem netmask_and {l l' : ℕ} (h : l ≤ l') (h' : l' < 33) :
    netmask l &&& netmask l' = netmask l := by
  have hall : ∀ l' < 33, ∀ l < l' + 1, netmask l &&& netmask l' = netmask l := by
    decide +kernel
  exact hall l' h' l (by omega)

theorem maskLen_netmask {l : ℕ} (h : l < 33) : maskLen (netmask l) = l := by
  have hall : ∀ l < 33, maskLen (netmask l) = l := by decide +kernel
  exact hall l h

theorem and_le_right (x y : UInt32) : x &&& y ≤ y := by
  rw [UInt32.le_iff_toNat_le, UInt32.toNat_and]
  exact Nat.and_le_right

theorem and_le_left (x y : UInt32) : x &&& y ≤ x := by
  rw [UInt32.le_iff_toNat_le, UInt32.toNat_and]
  exact Nat.and_le_left

/-! ### The order around a longest match -/

section Order

variable {t : SortedTable} {destIp : UInt32}

theorem verdict_eq_iff {rtable : List RtableEntry} {i : ℕ} :
    verdict rtable destIp i = .eq ↔ ∃ e, rtable[i]? = some e ∧ Matches destIp e := by
  unfold verdict
  rcases h : rtable[i]? with - | e
  · simp
  · by_cases hm : destIp &&& e.mask = e.pref
    · simp [hm, Matches]
    · dsimp only
      rw [if_neg hm]
      constructor
      · intro hv
        split at hv <;> cases hv
      · rintro ⟨e', he', hmatch⟩
        cases he'
        exact absurd hmatch hm

/-- **A match in front of a longest match is a longest match.** -/
theorem isLongest_of_hit {b i : ℕ} (hb : IsLongest t.entries destIp b) (hib : i < b)
    (hi : verdict t.entries destIp i = .eq) : IsLongest t.entries destIp i := by
  obtain ⟨r, hr, hrmem, hrmatch, hrmax⟩ := hb
  obtain ⟨e, he, hematch⟩ := verdict_eq_iff.mp hi
  have hemem : e ∈ t.entries := List.mem_of_getElem? he
  obtain ⟨lr, hlr, hmr⟩ := t.contiguous r hrmem
  obtain ⟨le, hle, hme⟩ := t.contiguous e hemem
  have hlen : le ≤ lr := by
    have := hrmax e hemem hematch
    rwa [hme, hmr, maskLen_netmask hle, maskLen_netmask hlr] at this
  have hand : e.mask &&& r.mask = e.mask := by
    rw [hme, hmr]
    exact netmask_and hlen hlr
  -- the shorter prefix is the longer one cut down
  have hpref : e.pref = r.pref &&& e.mask := by
    rw [← hematch, ← hrmatch, UInt32.and_assoc, UInt32.and_comm r.mask, hand]
  have hple : e.pref ≤ r.pref := by
    rw [hpref]
    exact and_le_left _ _
  have hmle : e.mask ≤ r.mask := by
    rw [← hand]
    exact and_le_right _ _
  have hdesc : Descending e r := by
    obtain ⟨hi', hei⟩ := List.getElem?_eq_some_iff.mp he
    obtain ⟨hb', hrb⟩ := List.getElem?_eq_some_iff.mp hr
    rw [← hei, ← hrb]
    exact List.pairwise_iff_getElem.mp t.sorted i b hi' hb' hib
  have hmask : e.mask = r.mask := by
    rcases hdesc with hlt | ⟨-, hge⟩
    · exact absurd hple (UInt32.not_le.mpr hlt)
    · exact UInt32.le_antisymm hmle hge
  refine ⟨e, he, hemem, hematch, ?_⟩
  rw [hmask]
  exact hrmax

end Order

/-! ### The unsigned loop is a bisection -/

section Loop

variable {rtable : List RtableEntry} {destIp : UInt32}

/-- The search steps off the left end: every test on the spine points left. -/
def RunsOff (rtable : List RtableEntry) (destIp : UInt32) (hi : ℕ) : Prop :=
  ∀ i ∈ spine hi, verdict rtable destIp i ≠ .lt

theorem runsOff_zero : RunsOff rtable destIp 0 := by
  intro i hi
  rw [spine_zero] at hi
  exact absurd hi List.not_mem_nil

theorem runsOff_iff {hi : ℕ} (hlt : 0 < hi) : RunsOff rtable destIp hi ↔
    verdict rtable destIp (mid 0 hi) ≠ .lt ∧ RunsOff rtable destIp (mid 0 hi) := by
  unfold RunsOff
  rw [spine_of_pos hlt, List.forall_mem_cons]

/-- Some test on the spine points right. -/
theorem exists_lt_iff_not_runsOff {hi : ℕ} :
    (∃ i ∈ spine hi, verdict rtable destIp i = .lt) ↔ ¬ RunsOff rtable destIp hi := by
  unfold RunsOff
  push Not
  rfl

/-- Once the bound has wrapped around, the next probe is outside the table. -/
theorem getBestRouteLoop_wrapped (hlen : rtable.length < 2147483648) {right : UInt32}
    (hright : right.toNat = 4294967295) (fuel : ℕ) (best : Option RtableEntry) :
    getBestRouteLoop rtable destIp (fuel + 1) 0 right best = .error .outOfBounds := by
  have hr : right = 4294967295 := UInt32.toNat_inj.mp hright
  subst hr
  have hout : rtable[((0 : UInt32) + (4294967295 - 0) / 2).toNat]? = none := by
    rw [List.getElem?_eq_none_iff]
    show rtable.length ≤ 2147483647
    omega
  rw [getBestRouteLoop, if_pos (by decide)]
  simp only [hout]

/-- What the loop makes of `[lo, hi)` and the best index so far: the entry a
bisection ends at, unless the search runs off the left end. -/
def LoopSpec (rtable : List RtableEntry) (destIp : UInt32) (lo hi : ℕ) (best : Option ℕ)
    (res : Except Fault (Option RtableEntry)) : Prop :=
  (lo = 0 ∧ RunsOff rtable destIp hi ∧ res = .error .outOfBounds) ∨
    (¬ (lo = 0 ∧ RunsOff rtable destIp hi) ∧
      res = .ok ((bisect (verdict rtable destIp) lo hi best).bind (rtable[·]?)))

section Probe

variable {lo hi : ℕ} {left right : UInt32} {best best' : Option ℕ}
  {res : Except Fault (Option RtableEntry)}

/-- The midpoint of the unsigned bounds. -/
theorem toNat_mid (hleft : left.toNat = lo) (hright : right.toNat + 1 = hi) (hlt : lo < hi) :
    (left + (right - left) / 2).toNat = mid lo hi := by
  have hle : left ≤ right := by
    rw [UInt32.le_iff_toNat_le]
    omega
  have hright' := right.toNat_lt
  rw [UInt32.toNat_add, UInt32.toNat_div, UInt32.toNat_sub_of_le _ _ hle]
  show (left.toNat + (right.toNat - left.toNat) / 2) % 2 ^ 32 = lo + (hi - 1 - lo) / 2
  rw [hleft, show hi - 1 - lo = right.toNat - lo by omega]
  exact Nat.mod_eq_of_lt (by omega)

theorem toNat_pred {m : UInt32} {n : ℕ} (hm : m.toNat = n) (hn : n ≠ 0) :
    (m - 1).toNat + 1 = n := by
  rw [UInt32.toNat_sub_of_le _ _ (by
    rw [UInt32.le_iff_toNat_le, hm]
    show 1 ≤ n
    omega), hm]
  show n - 1 + 1 = n
  omega

theorem toNat_succ {m : UInt32} {n : ℕ} (hm : m.toNat = n) (hn : n < 4294967295) :
    (m + 1).toNat = n + 1 := by
  rw [UInt32.toNat_add, hm]
  show (n + 1) % 2 ^ 32 = n + 1
  exact Nat.mod_eq_of_lt (by omega)

/-- A probe that keeps to the left, with its new best index. -/
theorem LoopSpec.of_left (hlt : lo < hi) (hv : verdict rtable destIp (mid lo hi) ≠ .lt)
    (hbest : bisect (verdict rtable destIp) lo hi best =
      bisect (verdict rtable destIp) lo (mid lo hi) best')
    (h : LoopSpec rtable destIp lo (mid lo hi) best' res) :
    LoopSpec rtable destIp lo hi best res := by
  rcases h with ⟨rfl, hoff, hres⟩ | ⟨hnot, hres⟩
  · exact Or.inl ⟨rfl, (runsOff_iff hlt).mpr ⟨hv, hoff⟩, hres⟩
  · refine Or.inr ⟨?_, by rw [hbest, hres]⟩
    rintro ⟨rfl, hoff⟩
    exact hnot ⟨rfl, ((runsOff_iff hlt).mp hoff).2⟩

/-- A probe that goes to the right. -/
theorem LoopSpec.of_right (hlt : lo < hi) (hv : verdict rtable destIp (mid lo hi) = .lt)
    (hbest : bisect (verdict rtable destIp) lo hi best =
      bisect (verdict rtable destIp) (mid lo hi + 1) hi best)
    (h : LoopSpec rtable destIp (mid lo hi + 1) hi best res) :
    LoopSpec rtable destIp lo hi best res := by
  rcases h with ⟨h0, -⟩ | ⟨-, hres⟩
  · omega
  · refine Or.inr ⟨?_, by rw [hbest, hres]⟩
    rintro ⟨rfl, hoff⟩
    exact ((runsOff_iff hlt).mp hoff).1 hv

/-- A probe of index 0 that keeps to the left: the bound wraps around. -/
theorem LoopSpec.of_wrapped (hlen : rtable.length < 2147483648) {m : UInt32} (hm : m.toNat = 0)
    {fuel : ℕ} (hfuel : 0 < fuel) (hleft : left.toNat = 0) (best : Option ℕ) :
    LoopSpec rtable destIp 0 0 best
      (getBestRouteLoop rtable destIp fuel left (m - 1) (best.bind (rtable[·]?))) := by
  obtain rfl : left = 0 := UInt32.toNat_inj.mp hleft
  obtain rfl : m = 0 := UInt32.toNat_inj.mp hm
  obtain ⟨fuel, rfl⟩ := Nat.exists_eq_add_of_le' hfuel
  exact Or.inl ⟨rfl, runsOff_zero, getBestRouteLoop_wrapped hlen rfl _ _⟩

end Probe

/-- The loop from `[lo, hi)`, with `right = hi - 1`. -/
theorem getBestRouteLoop_eq (destIp : UInt32) (hlen : rtable.length < 2147483648) (fuel lo hi : ℕ)
    (left right : UInt32) (best : Option ℕ) (hleft : left.toNat = lo)
    (hright : right.toNat + 1 = hi) (hlohi : lo ≤ hi) (hhi : hi ≤ rtable.length)
    (hfuel : hi - lo + 2 ≤ fuel) : LoopSpec rtable destIp lo hi best
      (getBestRouteLoop rtable destIp fuel left right (best.bind (rtable[·]?))) := by
  induction fuel generalizing lo hi left right best with
  | zero => omega
  | succ fuel ih =>
    rw [getBestRouteLoop]
    by_cases hlt : lo < hi
    · have hle : left ≤ right := by
        rw [UInt32.le_iff_toNat_le]
        omega
      have hmidlt := mid_lt hlt
      have hmidle := le_mid lo hi
      have hmnat := toNat_mid hleft hright hlt
      set m := left + (right - left) / 2
      obtain ⟨e, he⟩ : ∃ e, rtable[mid lo hi]? = some e :=
        ⟨_, List.getElem?_eq_getElem (by omega)⟩
      -- the interval left of the probe; at index 0 the bound wraps around
      have hgoLeft : ∀ best', verdict rtable destIp (mid lo hi) ≠ .lt →
          LoopSpec rtable destIp lo (mid lo hi) best'
            (getBestRouteLoop rtable destIp fuel left (m - 1) (best'.bind (rtable[·]?))) := by
        intro best' hv
        by_cases hzero : mid lo hi = 0
        · obtain rfl : lo = 0 := by omega
          rw [hzero] at hmnat ⊢
          exact LoopSpec.of_wrapped hlen hmnat (by omega) hleft best'
        · exact ih lo (mid lo hi) left (m - 1) best' hleft (toNat_pred hmnat hzero) (by omega)
            (by omega) (by omega)
      rw [if_pos hle]
      simp only [hmnat, he]
      by_cases hhit : destIp &&& e.mask = e.pref
      · have hv : verdict rtable destIp (mid lo hi) = .eq := by
          simp only [verdict, he, if_pos hhit]
        have hrest := hgoLeft (some (mid lo hi)) (by simp [hv])
        rw [if_pos hhit]
        refine LoopSpec.of_left hlt (by simp [hv]) (by rw [bisect, dif_pos hlt, hv]) ?_
        simpa only [Option.bind_some, he] using hrest
      · rw [if_neg hhit]
        by_cases hgt : destIp &&& e.mask > e.pref
        · have hv : verdict rtable destIp (mid lo hi) = .gt := by
            simp only [verdict, he, if_neg hhit, if_pos hgt]
          rw [if_pos hgt]
          exact LoopSpec.of_left hlt (by simp [hv]) (by rw [bisect, dif_pos hlt, hv])
            (hgoLeft best (by simp [hv]))
        · have hv : verdict rtable destIp (mid lo hi) = .lt := by
            simp only [verdict, he, if_neg hhit, if_neg hgt]
          rw [if_neg hgt]
          exact LoopSpec.of_right hlt hv (by rw [bisect, dif_pos hlt, hv])
            (ih (mid lo hi + 1) hi (m + 1) right best (toNat_succ hmnat (by omega)) hright
              (by omega) hhi (by omega))
    · have hgt : ¬ left ≤ right := by
        rw [UInt32.le_iff_toNat_le]
        omega
      rw [if_neg hgt]
      exact Or.inr ⟨fun h => by omega, by rw [bisect, dif_neg hlt]⟩

/-- **What `get_best_route` computes.**  Out of bounds exactly when the search
runs off the left end; otherwise the entry a bisection ends at. -/
theorem getBestRoute_eq (destIp : UInt32) (hlen : rtable.length < 2147483648) :
    (RunsOff rtable destIp rtable.length ∧
      getBestRoute rtable destIp = .error .outOfBounds) ∨
    (¬ RunsOff rtable destIp rtable.length ∧
      getBestRoute rtable destIp =
        .ok ((bisect (verdict rtable destIp) 0 rtable.length none).bind (rtable[·]?))) := by
  unfold getBestRoute
  by_cases hnil : rtable.length = 0
  · refine Or.inl ⟨?_, ?_⟩
    · rw [hnil]
      exact runsOff_zero
    · exact getBestRouteLoop_wrapped hlen (by rw [hnil]; rfl) _ _
  · have hnat : (UInt32.ofNat rtable.length).toNat = rtable.length := by
      rw [UInt32.toNat_ofNat']
      exact Nat.mod_eq_of_lt (by omega)
    rcases getBestRouteLoop_eq destIp hlen (rtable.length + 2) 0 rtable.length 0
      (UInt32.ofNat rtable.length - 1) none rfl (toNat_pred hnat hnil) (by omega) le_rfl
      (by omega) with ⟨-, hoff, hres⟩ | ⟨hnot, hres⟩
    · exact Or.inl ⟨hoff, hres⟩
    · exact Or.inr ⟨fun h => hnot ⟨rfl, h⟩, hres⟩

end Loop

/-! ### Longest prefix match -/

/-- **When the search is a longest prefix match.**  It returns what a linear
scan returns iff some probe of the left spine points right and, when anything
matches, all probes on the way to some longest match point towards it. -/
theorem getBestRoute_longest_iff (t : SortedTable) (destIp : UInt32) :
    (∃ res, getBestRoute t.entries destIp = .ok res ∧ LongestMatch t.entries destIp res) ↔
      (∃ i ∈ spine t.entries.length, verdict t.entries destIp i = .lt) ∧
      ((∃ e ∈ t.entries, Matches destIp e) →
        ∃ b, IsLongest t.entries destIp b ∧
          ∀ i ∈ path 0 t.entries.length b, Towards (verdict t.entries destIp) b i) := by
  rw [exists_lt_iff_not_runsOff]
  rcases getBestRoute_eq destIp t.length_lt with ⟨hoff, hres⟩ | ⟨hoff, hres⟩
  · -- out of bounds
    refine iff_of_false ?_ (fun h => h.1 hoff)
    rintro ⟨res, hok, -⟩
    rw [hres] at hok
    cases hok
  · have hfound : (∃ j, bisect (verdict t.entries destIp) 0 t.entries.length none = some j ∧
          IsLongest t.entries destIp j) ↔
        (∃ j, none = some j ∧ IsLongest t.entries destIp j) ∨
          ∃ b, IsLongest t.entries destIp b ∧
            Found (verdict t.entries destIp) 0 t.entries.length b := bisect_good_iff
      (fun i ⟨r, hr, _, hm, _⟩ => verdict_eq_iff.mpr ⟨r, hr, hm⟩)
      (fun b i hb hib hi => isLongest_of_hit hb hib hi) (by simp)
    have hpath : (∃ b, IsLongest t.entries destIp b ∧
          ∀ i ∈ path 0 t.entries.length b, Towards (verdict t.entries destIp) b i) ↔
        ∃ b, IsLongest t.entries destIp b ∧
          Found (verdict t.entries destIp) 0 t.entries.length b := by
      refine exists_congr fun b => and_congr_right fun ⟨r, hr, _⟩ => ?_
      obtain ⟨hlt, -⟩ := List.getElem?_eq_some_iff.mp hr
      exact ⟨fun h => ⟨b.zero_le, hlt, h⟩, fun h => h.2.2⟩
    rw [hres, hpath]
    simp only [Except.ok.injEq, exists_eq_left', hoff, not_false_eq_true, true_and]
    rcases hb : bisect (verdict t.entries destIp) 0 t.entries.length none with - | j
    · -- nothing was hit
      rw [hb] at hfound
      simp only [reduceCtorEq, false_and, exists_false, false_or, false_iff] at hfound
      simp only [Option.bind_none, LongestMatch, hfound, imp_false, not_exists, not_and]
    · -- the last hit is the answer
      have hhit : verdict t.entries destIp j = .eq := by
        rcases bisect_hit hb with ⟨-, -, h⟩ | h
        · exact h
        · cases h
      obtain ⟨e, he, hmatch⟩ := verdict_eq_iff.mp hhit
      have hsome : ∃ e ∈ t.entries, Matches destIp e := ⟨e, List.mem_of_getElem? he, hmatch⟩
      rw [hb] at hfound
      simp only [Option.some.injEq, exists_eq_left', reduceCtorEq, false_and, exists_false,
        false_or] at hfound
      rw [← hfound, forall_prop_of_true hsome, Option.bind_some, he]
      simp only [IsLongest, he, Option.some.injEq, exists_eq_left']

/-! ### A table on which the search goes astray -/

/-- `192.168.1.0/24`, `10.0.0.0/8` and a default route, in the program's order. -/
def mixedTable : SortedTable where
  entries := [⟨0x0001a8c0, 1, 0x00ffffff, 0⟩, ⟨0x0000000a, 2, 0x000000ff, 1⟩, ⟨0, 3, 0, 2⟩]
  contiguous := by
    simp only [List.forall_mem_cons]
    exact ⟨⟨24, by decide, by decide⟩, ⟨8, by decide, by decide⟩, ⟨0, by decide, by decide⟩,
      by simp⟩
  normal := by decide
  sorted := by decide
  length_lt := by decide

/-- For `11.0.0.1` the search answers `NULL`: the probe of `10.0.0.0/8` sends it
to the left, away from the default route. -/
theorem getBestRoute_mixedTable_not_longest :
    getBestRoute mixedTable.entries 0x0100000b = .ok none ∧
      ¬ ∃ res, getBestRoute mixedTable.entries 0x0100000b = .ok res ∧
        LongestMatch mixedTable.entries 0x0100000b res := by
  have hnull : getBestRoute mixedTable.entries 0x0100000b = .ok none := by decide
  refine ⟨hnull, ?_⟩
  rintro ⟨res, hres, hlong⟩
  obtain rfl : none = res := Except.ok.inj (hnull.symm.trans hres)
  exact hlong ⟨0, 3, 0, 2⟩ (by simp [mixedTable]) (by decide)

end TemePCom.Router
