/-
TemePCom/Router/TableOrder.lean

Whether `lpm_comparator` is an order.

It subtracts unsigned numbers and returns the difference as an `int`.  The difference
of two 32-bit numbers takes 33 bits; squeezed into 32 it keeps its sign only between
`-2 ^ 31` and `2 ^ 31 - 1` (`diff_sign_iff`).  Beyond, the comparator answers the wrong
way round, and three prefixes a third of the range apart are each in front of the next.

So `qsort` is given an order on the tables whose prefixes, and whose masks under one
prefix, lie less than `2 ^ 31` apart, and on no other (`ordersTable_iff`).  On these the
result is in the descending order the search relies on.
-/
import TemePCom.Lib.Sorting
import TemePCom.Router.LongestPrefix

namespace TemePCom.Router

open Sorting

variable {e1 e2 : RtableEntry}

/-! ### The order that is meant -/

/-- What the table is to be sorted by: the prefix, then the mask. -/
def sortKey (e : RtableEntry) : ℕ ×ₗ ℕ := toLex (e.pref.toNat, e.mask.toNat)

theorem sortKey_lt_iff : sortKey e1 < sortKey e2 ↔
    e1.pref < e2.pref ∨ e1.pref = e2.pref ∧ e1.mask < e2.mask := by
  rw [sortKey, sortKey, Prod.Lex.lt_iff]
  simp only [ofLex_toLex, UInt32.lt_iff_toNat_lt, UInt32.toNat_inj]

theorem descending_iff : Descending e1 e2 ↔ sortKey e2 ≤ sortKey e1 := by
  rw [sortKey, sortKey, Prod.Lex.le_iff]
  simp only [ofLex_toLex, Descending, UInt32.lt_iff_toNat_lt, UInt32.le_iff_toNat_le,
    UInt32.toNat_inj]
  exact or_congr_right (and_congr_left' eq_comm)

/-! ### The difference as an `int` -/

/-- The unsigned difference, converted. -/
def diff (x y : UInt32) : ℤ := (y - x).toBitVec.toInt

/-- The number the difference stands for, folded into 32 bits. -/
theorem diff_eq (x y : UInt32) : diff x y =
    if -2147483648 ≤ (y.toNat : ℤ) - x.toNat ∧ (y.toNat : ℤ) - x.toNat < 2147483648 then
      (y.toNat : ℤ) - x.toNat
    else if x.toNat < y.toNat then (y.toNat : ℤ) - x.toNat - 4294967296
    else (y.toNat : ℤ) - x.toNat + 4294967296 := by
  have hx := x.toNat_lt
  have hy := y.toNat_lt
  have hsub : (y - x).toBitVec.toNat = (2 ^ 32 - x.toNat + y.toNat) % 2 ^ 32 :=
    UInt32.toNat_sub y x
  rw [diff, BitVec.toInt_eq_toNat_cond, hsub]
  norm_num only at hx hy ⊢
  split_ifs <;> omega

/-- **When the difference has the right sign.** -/
theorem diff_sign_iff (x y : UInt32) : ((diff x y < 0 ↔ y < x) ∧ (0 < diff x y ↔ x < y)) ↔
    -2147483648 ≤ (y.toNat : ℤ) - x.toNat ∧ (y.toNat : ℤ) - x.toNat < 2147483648 := by
  have hx := x.toNat_lt
  have hy := y.toNat_lt
  rw [diff_eq]
  simp only [UInt32.lt_iff_toNat_lt]
  split_ifs <;> omega

theorem lpmComparator_eq (e1 e2 : RtableEntry) : lpmComparator e1 e2 =
    if e1.pref = e2.pref then diff e1.mask e2.mask else diff e1.pref e2.pref := rfl

/-- **One pair**: the comparator has the sign of the order that is meant iff the
difference it returns fits an `int`. -/
theorem agrees_iff (e1 e2 : RtableEntry) : Agrees lpmComparator sortKey e1 e2 ↔
    if e1.pref = e2.pref then
      -2147483648 ≤ (e2.mask.toNat : ℤ) - e1.mask.toNat ∧
        (e2.mask.toNat : ℤ) - e1.mask.toNat < 2147483648
    else -2147483648 ≤ (e2.pref.toNat : ℤ) - e1.pref.toNat ∧
      (e2.pref.toNat : ℤ) - e1.pref.toNat < 2147483648 := by
  unfold Agrees
  rw [sortKey_lt_iff, sortKey_lt_iff, lpmComparator_eq]
  by_cases heq : e1.pref = e2.pref
  · rw [if_pos heq, if_pos heq, ← diff_sign_iff]
    simp [heq]
  · rw [if_neg heq, if_neg heq, ← diff_sign_iff]
    simp [heq, Ne.symm heq]

/-! ### Tables -/

/-- The prefixes, or the masks under one prefix, are less than `2 ^ 31` apart. -/
def Near (e1 e2 : RtableEntry) : Prop :=
  |(e1.pref.toNat : ℤ) - e2.pref.toNat| < 2147483648 ∧
    (e1.pref = e2.pref → |(e1.mask.toNat : ℤ) - e2.mask.toNat| < 2147483648)

/-- The comparator is right on both orders of a pair iff its entries are near. -/
theorem agrees_both_iff (e1 e2 : RtableEntry) :
    Agrees lpmComparator sortKey e1 e2 ∧ Agrees lpmComparator sortKey e2 e1 ↔ Near e1 e2 := by
  rw [agrees_iff, agrees_iff]
  unfold Near
  by_cases heq : e1.pref = e2.pref
  · rw [if_pos heq, if_pos heq.symm, heq]
    simp only [forall_const, abs_lt, sub_self]
    omega
  · rw [if_neg heq, if_neg (Ne.symm heq)]
    simp only [heq, false_imp_iff, and_true, abs_lt]
    omega

/-- `lpm_comparator` is the descending order on the entries of the table, and so what
`qsort` makes of the table is in that order. -/
structure OrdersTable (qsort : (RtableEntry → RtableEntry → ℤ) → List RtableEntry →
    List RtableEntry) (rtable : List RtableEntry) : Prop where
  sign : ∀ e1 ∈ rtable, ∀ e2 ∈ rtable, Agrees lpmComparator sortKey e1 e2
  consistent : Consistent lpmComparator rtable
  perm : (qsort lpmComparator rtable).Perm rtable
  sorted : (qsort lpmComparator rtable).Pairwise Descending

/-- **When the table gets sorted**: iff any two entries are near. -/
theorem ordersTable_iff (qsort : (RtableEntry → RtableEntry → ℤ) → List RtableEntry →
    List RtableEntry) (hqsort : Sorts qsort) (rtable : List RtableEntry) :
    OrdersTable qsort rtable ↔ ∀ e1 ∈ rtable, ∀ e2 ∈ rtable, Near e1 e2 := by
  constructor
  · intro h e1 he1 e2 he2
    exact (agrees_both_iff e1 e2).mp ⟨h.sign e1 he1 e2 he2, h.sign e2 he2 e1 he1⟩
  · intro h
    have hsign : ∀ e1 ∈ rtable, ∀ e2 ∈ rtable, Agrees lpmComparator sortKey e1 e2 :=
      fun e1 he1 e2 he2 => ((agrees_both_iff e1 e2).mpr (h e1 he1 e2 he2)).1
    have hcons := consistent_of_agrees hsign
    refine ⟨hsign, hcons, hqsort.perm _ _ hcons, ?_⟩
    exact (hqsort.pairwise_key hsign).imp fun hab => descending_iff.mpr hab

/-- `192.168.1.0/24`, `10.0.0.0/8` and a default route, sorted by merging. -/
theorem ordersTable_iff_mixedTable : OrdersTable mergeSort mixedTable.entries ↔
    ∀ e1 ∈ mixedTable.entries, ∀ e2 ∈ mixedTable.entries, Near e1 e2 :=
  ordersTable_iff mergeSort sorts_mergeSort mixedTable.entries

/-- `10.0.0.0/32` and `10.0.0.0/24`: the longer mask is told to stand behind.  And with
`0.0.0.0`, `0.0.0.96` and `0.0.0.192` the comparator is not transitive. -/
theorem not_agrees_hostRoute :
    ¬ Agrees lpmComparator sortKey ⟨0x0000000a, 1, 0xffffffff, 0⟩
        ⟨0x0000000a, 2, 0x00ffffff, 1⟩ ∧
      ¬ Consistent lpmComparator [⟨0, 1, 0xffffffff, 0⟩, ⟨0x60000000, 1, 0xffffffff, 0⟩,
        ⟨0xc0000000, 1, 0xffffffff, 0⟩] := by
  constructor
  · rw [agrees_iff]
    decide
  · intro h
    have htrans := h.trans ⟨0xc0000000, 1, 0xffffffff, 0⟩ (by simp)
      ⟨0x60000000, 1, 0xffffffff, 0⟩ (by simp) ⟨0, 1, 0xffffffff, 0⟩ (by simp)
    revert htrans
    decide

end TemePCom.Router
