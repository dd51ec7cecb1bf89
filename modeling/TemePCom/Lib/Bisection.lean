/-
TemePCom/Lib/Bisection.lean

Bisection of an index interval by a three-way test.  `bisect cmp lo hi best`
probes the midpoint of `[lo, hi)`: on `.eq` it records the midpoint and keeps
to the left, on `.gt` it keeps to the left, on `.lt` it goes right.  Nothing is
assumed about `cmp`, so the search may well go astray; the point of this file
is to say exactly when it does not.

* `path lo hi t` lists the midpoints a bisection of `[lo, hi)` passes on its
  way to `t`.  It is index arithmetic, no test is involved.
* `bisect_good_iff`: when every hit to the left of a good hit is good, the
  search ends in a good hit iff the tests along the path to some good index all
  point towards it.
* `spine hi` lists the midpoints passed when every test points left; the search
  leaves `[0, hi)` by its left end iff no test on the spine points right.
-/
import Mathlib

namespace Bisection

/-- The midpoint of `[lo, hi)`, the lower one when there are two. -/
def mid (lo hi : ℕ) : ℕ := lo + (hi - 1 - lo) / 2

theorem le_mid (lo hi : ℕ) : lo ≤ mid lo hi := Nat.le_add_right _ _

theorem mid_lt {lo hi : ℕ} (h : lo < hi) : mid lo hi < hi := by
  unfold mid
  omega

/-- Bisect `[lo, hi)`; `best` is the last hit so far. -/
def bisect (cmp : ℕ → Ordering) (lo hi : ℕ) (best : Option ℕ) : Option ℕ :=
  if _h : lo < hi then
    match cmp (mid lo hi) with
    | .eq => bisect cmp lo (mid lo hi) (some (mid lo hi))
    | .gt => bisect cmp lo (mid lo hi) best
    | .lt => bisect cmp (mid lo hi + 1) hi best
  else best
termination_by hi - lo
decreasing_by
  all_goals
    have := mid_lt _h
    have := le_mid lo hi
    omega

/-- The midpoints passed on the way from `[lo, hi)` to `t`. -/
def path (lo hi t : ℕ) : List ℕ :=
  if _h : lo < hi then
    if t < mid lo hi then mid lo hi :: path lo (mid lo hi) t
    else if mid lo hi < t then mid lo hi :: path (mid lo hi + 1) hi t
    else []
  else []
termination_by hi - lo
decreasing_by
  all_goals
    have := mid_lt _h
    have := le_mid lo hi
    omega

/-- The midpoints passed when every test points left. -/
def spine (hi : ℕ) : List ℕ :=
  if _h : 0 < hi then mid 0 hi :: spine (mid 0 hi) else []
termination_by hi
decreasing_by exact mid_lt _h

theorem spine_zero : spine 0 = [] := by
  rw [spine, dif_neg (lt_irrefl 0)]

theorem spine_of_pos {hi : ℕ} (h : 0 < hi) : spine hi = mid 0 hi :: spine (mid 0 hi) := by
  rw [spine, dif_pos h]

/-- The test at `i` points towards `t`. -/
def Towards (cmp : ℕ → Ordering) (t i : ℕ) : Prop :=
  (i < t → cmp i = .lt) ∧ (t < i → cmp i ≠ .lt)

instance (cmp : ℕ → Ordering) (t i : ℕ) : Decidable (Towards cmp t i) := by
  unfold Towards; infer_instance

/-- `t` is found: it lies in the interval and every test on its path points
towards it. -/
def Found (cmp : ℕ → Ordering) (lo hi t : ℕ) : Prop :=
  lo ≤ t ∧ t < hi ∧ ∀ i ∈ path lo hi t, Towards cmp t i

variable {cmp : ℕ → Ordering} {lo hi : ℕ}

/-! ### How `Found` follows one probe -/

theorem found_mid (h : lo < hi) : Found cmp lo hi (mid lo hi) := by
  refine ⟨le_mid lo hi, mid_lt h, ?_⟩
  rw [path, dif_pos h, if_neg (lt_irrefl _), if_neg (lt_irrefl _)]
  simp

theorem found_left_iff (h : lo < hi) {t : ℕ} (ht : t < mid lo hi) :
    Found cmp lo hi t ↔ cmp (mid lo hi) ≠ .lt ∧ Found cmp lo (mid lo hi) t := by
  have hm := mid_lt h
  unfold Found
  rw [path, dif_pos h, if_pos ht]
  simp only [List.forall_mem_cons, Towards]
  constructor
  · rintro ⟨h1, -, ⟨-, h3⟩, h4⟩
    exact ⟨h3 ht, h1, ht, h4⟩
  · rintro ⟨h3, h1, -, h4⟩
    exact ⟨h1, by omega, ⟨fun e => by omega, fun _ => h3⟩, h4⟩

theorem found_right_iff (h : lo < hi) {t : ℕ} (ht : mid lo hi < t) :
    Found cmp lo hi t ↔ cmp (mid lo hi) = .lt ∧ Found cmp (mid lo hi + 1) hi t := by
  have hm := le_mid lo hi
  unfold Found
  rw [path, dif_pos h, if_neg (by omega), if_pos ht]
  simp only [List.forall_mem_cons, Towards]
  constructor
  · rintro ⟨-, h2, ⟨h3, -⟩, h4⟩
    exact ⟨h3 ht, ht, h2, h4⟩
  · rintro ⟨h3, h1, h2, h4⟩
    exact ⟨by omega, h2, ⟨fun _ => h3, fun e => by omega⟩, h4⟩

/-- A probe that points left: nothing right of it is found. -/
theorem found_iff_of_gt (h : lo < hi) (hcmp : cmp (mid lo hi) = .gt) {t : ℕ} (ht : cmp t = .eq) :
    Found cmp lo hi t ↔ Found cmp lo (mid lo hi) t := by
  rcases lt_trichotomy t (mid lo hi) with hlt | heq | hgt
  · rw [found_left_iff h hlt]
    simp [hcmp]
  · rw [heq, hcmp] at ht
    cases ht
  · rw [found_right_iff h hgt, hcmp]
    refine iff_of_false (fun hf => nomatch hf.1) fun hf => ?_
    exact absurd hf.2.1 (Nat.not_lt.mpr hgt.le)

/-- A probe that points right: nothing left of it is found. -/
theorem found_iff_of_lt (h : lo < hi) (hcmp : cmp (mid lo hi) = .lt) {t : ℕ} (ht : cmp t = .eq) :
    Found cmp lo hi t ↔ Found cmp (mid lo hi + 1) hi t := by
  rcases lt_trichotomy t (mid lo hi) with hlt | heq | hgt
  · rw [found_left_iff h hlt, hcmp]
    refine iff_of_false (fun hf => hf.1 rfl) fun hf => ?_
    exact absurd hf.1 (Nat.not_le.mpr (Nat.lt_succ_of_lt hlt))
  · rw [heq, hcmp] at ht
    cases ht
  · rw [found_right_iff h hgt]
    simp [hcmp]

/-! ### What the search returns -/

/-- Whatever the search returns was a hit, or was handed in. -/
theorem bisect_hit {best : Option ℕ} {j : ℕ} (h : bisect cmp lo hi best = some j) :
    (lo ≤ j ∧ j < hi ∧ cmp j = .eq) ∨ best = some j := by
  induction lo, hi, best using bisect.induct cmp with
  | case1 lo hi best hlt hcmp ih =>
    have hm := mid_lt hlt
    rw [bisect, dif_pos hlt, hcmp] at h
    -- the last hit of the rest, or this one
    rcases ih h with ⟨h1, h2, h3⟩ | heq
    · exact Or.inl ⟨h1, by omega, h3⟩
    · obtain rfl := Option.some.inj heq
      exact Or.inl ⟨le_mid lo hi, hm, hcmp⟩
  | case2 lo hi best hlt hcmp ih =>
    have hm := mid_lt hlt
    rw [bisect, dif_pos hlt, hcmp] at h
    rcases ih h with ⟨h1, h2, h3⟩ | heq
    · exact Or.inl ⟨h1, by omega, h3⟩
    · exact Or.inr heq
  | case3 lo hi best hlt hcmp ih =>
    have hm := le_mid lo hi
    rw [bisect, dif_pos hlt, hcmp] at h
    rcases ih h with ⟨h1, h2, h3⟩ | heq
    · exact Or.inl ⟨by omega, h2, h3⟩
    · exact Or.inr heq
  | case4 lo hi best hlt =>
    rw [bisect, dif_neg hlt] at h
    exact Or.inr h

/-- **When the search ends in a good hit.**  `G` marks good hits, and a hit to
the left of a good one is good.  Then the search ends in a good hit iff it was
handed one or finds one. -/
theorem bisect_good_iff {G : ℕ → Prop} (hG : ∀ i, G i → cmp i = .eq)
    (hdown : ∀ t i, G t → i < t → cmp i = .eq → G i)
    {best : Option ℕ} (hbest : ∀ j, best = some j → hi ≤ j) :
    (∃ j, bisect cmp lo hi best = some j ∧ G j) ↔
      (∃ j, best = some j ∧ G j) ∨ ∃ t, G t ∧ Found cmp lo hi t := by
  induction lo, hi, best using bisect.induct cmp with
  | case1 lo hi best hlt hcmp ih =>
    rw [bisect, dif_pos hlt, hcmp]
    rw [ih (fun j hj => (Option.some.inj hj).le)]
    by_cases hmid : G (mid lo hi)
    · exact iff_of_true (Or.inl ⟨_, rfl, hmid⟩) (Or.inr ⟨_, hmid, found_mid hlt⟩)
    · -- a good hit to the right of this bad one would make it good
      have hleft : ∀ t, G t → t < mid lo hi := by
        intro t ht
        by_contra hge
        rcases (not_lt.mp hge).lt_or_eq with hlt' | heq
        · exact hmid (hdown t _ ht hlt' hcmp)
        · exact hmid (heq ▸ ht)
      constructor
      · rintro (⟨j, hj, hgj⟩ | ⟨t, ht, hf⟩)
        · exact absurd (Option.some.inj hj ▸ hgj) hmid
        · exact Or.inr ⟨t, ht, (found_left_iff hlt (hleft t ht)).mpr ⟨by simp [hcmp], hf⟩⟩
      · rintro (⟨j, hj, hgj⟩ | ⟨t, ht, hf⟩)
        · have h1 := hbest j hj
          have h2 := hleft j hgj
          have h3 := mid_lt hlt
          omega
        · exact Or.inr ⟨t, ht, ((found_left_iff hlt (hleft t ht)).mp hf).2⟩
  | case2 lo hi best hlt hcmp ih =>
    have hm := mid_lt hlt
    rw [bisect, dif_pos hlt, hcmp]
    rw [ih (fun j hj => by have := hbest j hj; omega)]
    exact or_congr Iff.rfl (exists_congr fun t => and_congr_right fun ht =>
      (found_iff_of_gt hlt hcmp (hG t ht)).symm)
  | case3 lo hi best hlt hcmp ih =>
    rw [bisect, dif_pos hlt, hcmp]
    rw [ih hbest]
    exact or_congr Iff.rfl (exists_congr fun t => and_congr_right fun ht =>
      (found_iff_of_lt hlt hcmp (hG t ht)).symm)
  | case4 lo hi best hlt =>
    rw [bisect, dif_neg hlt]
    constructor
    · exact Or.inl
    · rintro (h | ⟨t, -, hf⟩)
      · exact h
      · have := hf.1
        have := hf.2.1
        omega

end Bisection
