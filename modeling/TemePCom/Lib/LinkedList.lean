/-
TemePCom/Lib/LinkedList.lean

Singly linked lists in a heap of cells.

A heap is a partial map from addresses to cells; an address it does not map is free,
and following it is an error.  `Seg h p l q` says that the cells from `p` on, up to
but not including `q`, are the ones of `l`: a list of addresses with the elements
stored there.  Four rules are what a proof about pointers needs:

* `seg_append`: a segment is cut where the list is cut;
* `Seg.congr`: a segment depends on its own cells only;
* `Seg.link`: a new cell is linked behind the last one;
* `Seg.unique`: the heap determines the list that ends at `null`.

The library names no program: addresses, `null` and elements are parameters.
-/
import Mathlib

namespace LinkedList

variable {A α : Type*}

/-- A cell: an element and the address of the next cell. -/
structure Cell (A α : Type*) where
  element : α
  next : A

/-- The cells in use, by address. -/
abbrev Heap (A α : Type*) := A → Option (Cell A α)

/-- The cells from `p` to `q`. -/
def Seg (h : Heap A α) : A → List (A × α) → A → Prop
  | p, [], q => p = q
  | p, (a, x) :: l, q => p = a ∧ ∃ next, h a = some ⟨x, next⟩ ∧ Seg h next l q

variable {h h' : Heap A α} {p q r a : A} {x : α} {l l' : List (A × α)}

@[simp] theorem seg_nil : Seg h p [] q ↔ p = q := Iff.rfl

@[simp] theorem seg_cons : Seg h p ((a, x) :: l) q ↔
    p = a ∧ ∃ next, h a = some ⟨x, next⟩ ∧ Seg h next l q := Iff.rfl

/-- A segment is cut where its list is cut. -/
theorem seg_append : Seg h p (l ++ l') q ↔ ∃ r, Seg h p l r ∧ Seg h r l' q := by
  induction l generalizing p with
  | nil => exact ⟨fun hs => ⟨p, rfl, hs⟩, fun ⟨_, hp, hs⟩ => hp ▸ hs⟩
  | cons c l ih =>
    obtain ⟨a, x⟩ := c
    constructor
    · rintro ⟨rfl, next, hcell, hs⟩
      obtain ⟨r, hl, hl'⟩ := ih.mp hs
      exact ⟨r, ⟨rfl, next, hcell, hl⟩, hl'⟩
    · rintro ⟨r, ⟨rfl, next, hcell, hl⟩, hl'⟩
      exact ⟨rfl, next, hcell, ih.mpr ⟨r, hl, hl'⟩⟩

/-- **Frame.**  Heaps that agree on the cells of a segment have it in common. -/
theorem Seg.congr (hs : Seg h p l q) (heq : ∀ a ∈ l.map Prod.fst, h' a = h a) :
    Seg h' p l q := by
  induction l generalizing p with
  | nil => exact hs
  | cons c l ih =>
    obtain ⟨a, x⟩ := c
    obtain ⟨rfl, next, hcell, hrest⟩ := hs
    have ha : h' p = h p := heq p (by simp)
    exact ⟨rfl, next, ha.trans hcell, ih hrest fun b hb => heq b (List.mem_cons_of_mem _ hb)⟩

/-- **A new cell behind the last.**  Two cells are written, the new one and the last. -/
theorem Seg.link [DecidableEq A] {t r : A} {y : α} (hs : Seg h p (l ++ [(t, y)]) q)
    (hnodup : ((l ++ [(t, y)]).map Prod.fst).Nodup) (hr : r ∉ (l ++ [(t, y)]).map Prod.fst) :
    Seg (Function.update (Function.update h r (some ⟨x, q⟩)) t (some ⟨y, r⟩)) p
      (l ++ [(t, y)] ++ [(r, x)]) q := by
  rw [List.map_append, List.nodup_append] at hnodup
  obtain ⟨-, -, hdisj⟩ := hnodup
  rw [List.map_append, List.mem_append, not_or] at hr
  obtain ⟨hrl, hrt⟩ := hr
  have hne : r ≠ t := fun he => hrt (he ▸ List.mem_singleton_self t)
  obtain ⟨t', hfront, rfl, -⟩ := seg_append.mp hs
  refine seg_append.mpr ⟨r, seg_append.mpr ⟨t', hfront.congr fun b hb => ?_, rfl, r,
    Function.update_self .., rfl⟩, rfl, q, ?_, rfl⟩
  · -- the cells in front of the last are not touched
    have hbt : b ≠ t' := hdisj b hb t' (List.mem_singleton_self t')
    have hbr : b ≠ r := fun he => hrl (he ▸ hb)
    rw [Function.update_of_ne hbt, Function.update_of_ne hbr]
  · rw [Function.update_of_ne hne, Function.update_self]

/-- Every cell of a segment is in use. -/
theorem Seg.isSome (hs : Seg h p l q) (ha : a ∈ l.map Prod.fst) : (h a).isSome = true := by
  induction l generalizing p with
  | nil => cases ha
  | cons c l ih =>
    obtain ⟨b, y⟩ := c
    obtain ⟨rfl, next, hcell, hrest⟩ := hs
    rcases List.mem_cons.mp ha with rfl | htail
    · rw [hcell]
      rfl
    · exact ih hrest htail

/-- From a pointer that is not in use only the empty segment starts. -/
theorem Seg.eq_nil (hs : Seg h p l q) (hp : h p = none) : l = [] := by
  rcases l with - | ⟨⟨a, x⟩, l⟩
  · rfl
  · obtain ⟨rfl, next, hcell, -⟩ := hs
    rw [hp] at hcell
    cases hcell

/-- **Determinism.**  Two segments that end at an address not in use are equal. -/
theorem Seg.unique (hs : Seg h p l q) (hs' : Seg h p l' q) (hq : h q = none) : l = l' := by
  induction l generalizing p l' with
  | nil =>
    obtain rfl : p = q := hs
    exact (hs'.eq_nil hq).symm
  | cons c l ih =>
    obtain ⟨a, x⟩ := c
    obtain ⟨rfl, next, hcell, hrest⟩ := hs
    rcases l' with - | ⟨⟨b, y⟩, l'⟩
    · obtain rfl : p = q := hs'
      rw [hq] at hcell
      cases hcell
    · obtain ⟨rfl, next', hcell', hrest'⟩ := hs'
      obtain ⟨rfl, rfl⟩ := Cell.mk.injEq .. ▸ Option.some.inj (hcell.symm.trans hcell')
      rw [ih hrest hrest']

end LinkedList
