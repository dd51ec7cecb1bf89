/-
TemePCom/Lib/Search.lean

Where a pattern stands in a list for the first time.

`At pat l i` says that `pat` stands in `l` at position `i`, `IsFirst` that it does
so there for the first time, and `first?` finds the place by trying the positions
in order.  The rules say what a search sees of a list that is still arriving: the
first place in a list is found in each part of its front that reaches behind it,
and nothing is found in a shorter part (`IsFirst.first?_take`).
-/
import Mathlib

namespace Search

variable {α : Type*}

/-- The pattern stands at position `i`. -/
def At (pat l : List α) (i : ℕ) : Prop := pat <+: l.drop i

/-- The pattern stands at position `i`, and at none before. -/
structure IsFirst (pat l : List α) (i : ℕ) : Prop where
  here : At pat l i
  before : ∀ j < i, ¬ At pat l j

instance [DecidableEq α] (pat l : List α) (i : ℕ) : Decidable (At pat l i) :=
  inferInstanceAs (Decidable (pat <+: l.drop i))

/-- The first position of the pattern, the positions tried in order. -/
def first? [DecidableEq α] (pat l : List α) : Option ℕ :=
  (List.range (l.length + 1 - pat.length)).find? fun i => At pat l i

/-! ### Positions -/

theorem At.length_le {pat l : List α} {i : ℕ} (h : At pat l i) (hpat : pat ≠ []) :
    i + pat.length ≤ l.length := by
  have hle := List.IsPrefix.length_le h
  have hpos : 0 < pat.length := List.length_pos_iff.mpr hpat
  rw [List.length_drop] at hle
  omega

/-- What stands in the front of a list does not depend on what follows. -/
theorem at_append_iff {pat l m : List α} {i : ℕ} (h : i + pat.length ≤ l.length) :
    At pat (l ++ m) i ↔ At pat l i := by
  have hi : i ≤ l.length := by omega
  unfold At
  rw [List.drop_append_of_le_length hi]
  constructor
  · intro h
    exact List.prefix_of_prefix_length_le h (List.prefix_append _ _)
      (by rw [List.length_drop]; omega)
  · intro h
    exact h.trans (List.prefix_append _ _)

theorem at_drop_iff {pat l : List α} {i k : ℕ} : At pat (l.drop k) i ↔ At pat l (k + i) := by
  unfold At
  rw [List.drop_drop]

theorem at_append_length_iff {pat a l : List α} {i : ℕ} :
    At pat (a ++ l) (a.length + i) ↔ At pat l i := by
  rw [← at_drop_iff, List.drop_left]

/-- A pattern does not begin where its first element does not stand. -/
theorem not_at_of_notMem {c : α} {pat a l : List α} (hc : c ∉ a) {j : ℕ} (hj : j < a.length) :
    ¬ At (c :: pat) (a ++ l) j := by
  intro h
  obtain ⟨t, ht⟩ := h
  rw [List.drop_append_of_le_length hj.le, List.drop_eq_getElem_cons hj] at ht
  have hhead : c = a[j] := (List.cons.inj ht).1
  apply hc
  rw [hhead]
  exact List.getElem_mem hj

/-! ### First positions -/

section First

variable {pat l m : List α} {i : ℕ}

/-- The search goes over every position where the pattern may stand. -/
theorem At.mem_range (h : At pat l i) (hpat : pat ≠ []) :
    i ∈ List.range (l.length + 1 - pat.length) := by
  have hle := h.length_le hpat
  rw [List.mem_range]
  omega

theorem first?_eq_some_iff [DecidableEq α] (hpat : pat ≠ []) :
    first? pat l = some i ↔ IsFirst pat l i := by
  unfold first?
  rw [List.find?_range_eq_some]
  constructor
  · rintro ⟨hhere, -, hbefore⟩
    exact ⟨by simpa using hhere, fun j hj => by simpa using hbefore j hj⟩
  · rintro ⟨hhere, hbefore⟩
    exact ⟨by simpa using hhere, hhere.mem_range hpat, fun j hj => by simpa using hbefore j hj⟩

theorem first?_eq_none_iff [DecidableEq α] (hpat : pat ≠ []) :
    first? pat l = none ↔ ∀ i, ¬ At pat l i := by
  unfold first?
  rw [List.find?_eq_none]
  constructor
  · intro h i hat
    simpa using h i (hat.mem_range hpat) (by simpa using hat)
  · intro h i _
    simpa using h i

theorem IsFirst.first?_eq [DecidableEq α] (h : IsFirst pat l i) (hpat : pat ≠ []) :
    first? pat l = some i :=
  (first?_eq_some_iff hpat).mpr h

/-- The first place in a list is its place in every front that reaches behind it. -/
theorem IsFirst.front (h : IsFirst pat (l ++ m) i) (hle : i + pat.length ≤ l.length) :
    IsFirst pat l i where
  here := (at_append_iff hle).mp h.here
  before j hj hat := h.before j hj ((at_append_iff (by omega)).mpr hat)

/-- What follows a place does not move it. -/
theorem IsFirst.extend (h : IsFirst pat l i) (hpat : pat ≠ []) (m : List α) :
    IsFirst pat (l ++ m) i where
  here := (at_append_iff (h.here.length_le hpat)).mpr h.here
  before j hj hat := by
    have hle := h.here.length_le hpat
    exact h.before j hj ((at_append_iff (by omega)).mp hat)

/-- In a front that ends before the place's end there is nothing to be found. -/
theorem IsFirst.not_at_front (h : IsFirst pat (l ++ m) i) (hpat : pat ≠ [])
    (hlt : l.length < i + pat.length) (j : ℕ) : ¬ At pat l j := by
  intro hat
  have hle := hat.length_le hpat
  exact h.before j (by omega) ((at_append_iff hle).mpr hat)

/-- **A search in the front of a list** finds the list's first place, or nothing. -/
theorem IsFirst.first?_front [DecidableEq α] (h : IsFirst pat (l ++ m) i) (hpat : pat ≠ []) :
    first? pat l = if i + pat.length ≤ l.length then some i else none := by
  split_ifs with hle
  · exact (h.front hle).first?_eq hpat
  · exact (first?_eq_none_iff hpat).mpr (h.not_at_front hpat (by omega))

/-- A front in which the pattern never begins only shifts the place. -/
theorem IsFirst.append_left {a : List α} (h : IsFirst pat l i)
    (ha : ∀ j < a.length, ¬ At pat (a ++ l) j) : IsFirst pat (a ++ l) (a.length + i) where
  here := at_append_length_iff.mpr h.here
  before j hj hat := by
    rcases Nat.lt_or_ge j a.length with hlt | hge
    · exact ha j hlt hat
    · obtain ⟨k, rfl⟩ := Nat.exists_eq_add_of_le hge
      exact h.before k (by omega) (at_append_length_iff.mp hat)

theorem isFirst_zero_iff : IsFirst pat l 0 ↔ pat <+: l := by
  constructor
  · intro h
    simpa [At] using h.here
  · intro h
    exact ⟨by simpa [At] using h, fun j hj => absurd hj (Nat.not_lt_zero j)⟩

/-- The front up to a place, and the pattern. -/
theorem At.take_append_prefix (h : At pat l i) : l.take i ++ pat <+: l := by
  obtain ⟨t, ht⟩ := h
  refine ⟨t, ?_⟩
  rw [List.append_assoc, ht, List.take_append_drop]

/-- In front of the first place of an element there is none. -/
theorem IsFirst.notMem_take {c : α} (h : IsFirst [c] l i) : c ∉ l.take i := by
  intro hc
  obtain ⟨j, hj, hget⟩ := List.mem_iff_getElem.mp hc
  have hlt : j < i ∧ j < l.length := by
    rw [List.length_take] at hj
    omega
  refine h.before j hlt.1 ⟨l.drop (j + 1), ?_⟩
  rw [List.drop_eq_getElem_cons hlt.2, ← hget, List.getElem_take]
  rfl

end First

end Search
