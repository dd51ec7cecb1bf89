/-
TemePCom/Lib/Sorting.lean

Sorting by a comparator that answers with the sign of a number.

A comparator may be any function to the integers.  What a sorting routine promises
(`Sorts`) depends on it being `Consistent` on the elements at hand: antisymmetric and
transitive.  The usual way to be consistent is to compare a key; `Agrees` says that the
comparator has, on a pair, the sign of the comparison of keys in descending order.  Where
it agrees on all pairs, it is consistent and the routine sorts by the key
(`Sorts.pairwise_key`).
-/
import Mathlib

namespace Sorting

variable {α κ : Type*}

/-- Antisymmetric and transitive on the elements of a list. -/
structure Consistent (cmp : α → α → ℤ) (l : List α) : Prop where
  antisymm : ∀ a ∈ l, ∀ b ∈ l, (cmp a b < 0 ↔ 0 < cmp b a)
  trans : ∀ a ∈ l, ∀ b ∈ l, ∀ c ∈ l, cmp a b ≤ 0 → cmp b c ≤ 0 → cmp a c ≤ 0

/-- A sorting routine: it sorts what its comparator is consistent on. -/
structure Sorts (sort : (α → α → ℤ) → List α → List α) : Prop where
  perm : ∀ cmp l, Consistent cmp l → (sort cmp l).Perm l
  sorted : ∀ cmp l, Consistent cmp l → (sort cmp l).Pairwise fun a b => cmp a b ≤ 0

/-- On this pair the comparator has the sign of the descending comparison of keys. -/
def Agrees [LT κ] (cmp : α → α → ℤ) (key : α → κ) (a b : α) : Prop :=
  (cmp a b < 0 ↔ key b < key a) ∧ (0 < cmp a b ↔ key a < key b)

section Key

variable [LinearOrder κ] {cmp : α → α → ℤ} {key : α → κ} {l : List α}

theorem Agrees.nonpos_iff {a b : α} (h : Agrees cmp key a b) : cmp a b ≤ 0 ↔ key b ≤ key a := by
  rw [← not_lt, ← not_lt, h.2]

/-- A comparator that agrees with a key is consistent. -/
theorem consistent_of_agrees (h : ∀ a ∈ l, ∀ b ∈ l, Agrees cmp key a b) :
    Consistent cmp l where
  antisymm a ha b hb := (h a ha b hb).1.trans (h b hb a ha).2.symm
  trans a ha b hb c hc hab hbc := by
    rw [(h a ha b hb).nonpos_iff] at hab
    rw [(h b hb c hc).nonpos_iff] at hbc
    exact (h a ha c hc).nonpos_iff.mpr (hbc.trans hab)

/-- **Sorting by a key.** -/
theorem Sorts.pairwise_key {sort : (α → α → ℤ) → List α → List α} (hsort : Sorts sort)
    (h : ∀ a ∈ l, ∀ b ∈ l, Agrees cmp key a b) :
    (sort cmp l).Pairwise fun a b => key b ≤ key a := by
  have hcons := consistent_of_agrees h
  have hmem : ∀ {a}, a ∈ sort cmp l → a ∈ l := (hsort.perm cmp l hcons).mem_iff.mp
  refine (hsort.sorted cmp l hcons).imp_of_mem fun ha hb hab => ?_
  exact (h _ (hmem ha) _ (hmem hb)).nonpos_iff.mp hab

end Key

/-- The merge sort of the core library, driven by a comparator. -/
def mergeSort (cmp : α → α → ℤ) (l : List α) : List α := l.mergeSort fun a b => cmp a b ≤ 0

/-- Merge sort is a sorting routine: it only compares elements of its list. -/
theorem sorts_mergeSort : Sorts (mergeSort (α := α)) where
  perm _ l _ := l.mergeSort_perm _
  sorted cmp l h := by
    -- sort the list as a list of its own elements
    let le : {a // a ∈ l} → {a // a ∈ l} → Bool := fun a b => cmp a.1 b.1 ≤ 0
    have htrans : ∀ a b c, le a b = true → le b c = true → le a c = true := by
      intro a b c hab hbc
      simp only [le, decide_eq_true_eq] at hab hbc ⊢
      exact h.trans a.1 a.2 b.1 b.2 c.1 c.2 hab hbc
    have htotal : ∀ a b, (le a b || le b a) = true := by
      intro a b
      have hanti := h.antisymm b.1 b.2 a.1 a.2
      simp only [le, Bool.or_eq_true, decide_eq_true_eq]
      omega
    have hsub := List.pairwise_mergeSort htrans htotal l.attach
    have hval : (l.attach.mergeSort le).map Subtype.val = mergeSort cmp l := by
      rw [mergeSort, List.map_mergeSort (s := fun a b => cmp a b ≤ 0) (fun a _ b _ => rfl),
        List.attach_map_subtype_val]
    rw [← hval, List.pairwise_map]
    exact hsub.imp fun hab => by simpa [le] using hab

end Sorting
