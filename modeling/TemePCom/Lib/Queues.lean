/-
TemePCom/Lib/Queues.lean

Queues that are served by number.

`q : Fin n → List α` holds what waits in each of `n` queues.  `pop q` serves the first queue
in which something waits.  What comes out of a queue is what has gone into it, in that
order (`through_push`, `through_pop`), and with nothing coming in the queues are emptied one
after the other (`inOrder_pop`).
-/
import Mathlib

namespace Queues

variable {n : ℕ} {α : Type*} {q q' : Fin n → List α} {i : Fin n} {a : α}

/-- `a` comes last in queue `i`. -/
def push (q : Fin n → List α) (i : Fin n) (a : α) : Fin n → List α :=
  Function.update q i (q i ++ [a])

/-- The first queue in which something waits. -/
def first (q : Fin n → List α) : Option (Fin n) := (List.finRange n).find? fun i => !(q i).isEmpty

/-- What comes out next, and what is left. -/
def pop (q : Fin n → List α) : Option ((Fin n × α) × (Fin n → List α)) :=
  (first q).bind fun i =>
    match q i with
    | [] => none
    | a :: rest => some ((i, a), Function.update q i rest)

/-- What waits, the queues one after the other. -/
def inOrder (q : Fin n → List α) : List (Fin n × α) :=
  (List.finRange n).flatMap fun i => (q i).map (Prod.mk i)

/-- What has gone through queue `i`. -/
def through (i : Fin n) (l : List (Fin n × α)) : List α :=
  (l.filter fun x => x.1 = i).map Prod.snd

/-! ### What has gone through a queue -/

@[simp] theorem through_nil (i : Fin n) : through i ([] : List (Fin n × α)) = [] := rfl

@[simp] theorem through_append (i : Fin n) (l l' : List (Fin n × α)) :
    through i (l ++ l') = through i l ++ through i l' := by
  rw [through, List.filter_append, List.map_append]
  rfl

theorem through_singleton (i j : Fin n) (a : α) :
    through i [(j, a)] = if j = i then [a] else [] := by
  by_cases h : j = i <;> simp [through, h]

/-- A queue grows by what goes into it. -/
theorem push_apply (q : Fin n → List α) (j : Fin n) (a : α) (i : Fin n) :
    push q j a i = q i ++ through i [(j, a)] := by
  rw [through_singleton, push]
  by_cases h : j = i
  · subst h
    rw [Function.update_self, if_pos rfl]
  · rw [Function.update_of_ne (Ne.symm h), if_neg h, List.append_nil]

/-! ### What comes out -/

theorem first_eq_some_iff : first q = some i ↔ q i ≠ [] ∧ ∀ j < i, q j = [] := by
  rw [first, List.find?_eq_some_iff_getElem]
  constructor
  · rintro ⟨hne, k, hk, hki, hbefore⟩
    obtain rfl : ⟨k, by simpa using hk⟩ = i := by simpa using hki
    refine ⟨by simpa using hne, fun j hj => ?_⟩
    simpa using hbefore j.val hj
  · rintro ⟨hne, hbefore⟩
    refine ⟨by simpa using hne, i.val, by simp, by simp, fun j hj => ?_⟩
    simpa using hbefore ⟨j, hj.trans i.isLt⟩ hj

/-- **What comes out** is the first of the first queue in which something waits. -/
theorem pop_eq_some_iff : pop q = some ((i, a), q') ↔
    (∀ j < i, q j = []) ∧ ∃ rest, q i = a :: rest ∧ q' = Function.update q i rest := by
  rw [pop, Option.bind_eq_some_iff]
  constructor
  · rintro ⟨j, hfirst, hmatch⟩
    obtain ⟨-, hbefore⟩ := first_eq_some_iff.mp hfirst
    cases hq : q j with
    | nil =>
      rw [hq] at hmatch
      cases hmatch
    | cons b rest =>
      rw [hq] at hmatch
      obtain ⟨⟨rfl, rfl⟩, rfl⟩ : (j = i ∧ b = a) ∧ Function.update q j rest = q' := by
        simpa using hmatch
      exact ⟨hbefore, rest, hq, rfl⟩
  · rintro ⟨hbefore, rest, hq, rfl⟩
    refine ⟨i, first_eq_some_iff.mpr ⟨hq ▸ List.cons_ne_nil a rest, hbefore⟩, ?_⟩
    rw [hq]

/-- Nothing comes out only if nothing waits. -/
theorem pop_eq_none_iff : pop q = none ↔ ∀ i, q i = [] := by
  constructor
  · intro h i
    by_contra hne
    have hsome : (first q).isSome :=
      List.find?_isSome.mpr ⟨i, List.mem_finRange i, by simpa using hne⟩
    obtain ⟨j, hj⟩ := Option.isSome_iff_exists.mp hsome
    obtain ⟨a, rest, hq⟩ := List.exists_cons_of_ne_nil (first_eq_some_iff.mp hj).1
    rw [pop_eq_some_iff.mpr ⟨(first_eq_some_iff.mp hj).2, rest, hq, rfl⟩] at h
    cases h
  · intro h
    rw [pop, Option.bind_eq_none_iff]
    intro i hi
    exact absurd (h i) (first_eq_some_iff.mp hi).1

/-- A queue shrinks by what comes out of it. -/
theorem through_pop (h : pop q = some ((i, a), q')) (j : Fin n) :
    q j = through j [(i, a)] ++ q' j := by
  obtain ⟨-, rest, hq, rfl⟩ := pop_eq_some_iff.mp h
  rw [through_singleton]
  by_cases heq : i = j
  · subst heq
    rw [Function.update_self, if_pos rfl, hq]
    rfl
  · rw [Function.update_of_ne (Ne.symm heq), if_neg heq, List.nil_append]

/-- **With nothing coming in**, what waits comes out queue after queue. -/
theorem inOrder_pop (h : pop q = some ((i, a), q')) : inOrder q = (i, a) :: inOrder q' := by
  obtain ⟨hbefore, rest, hq, rfl⟩ := pop_eq_some_iff.mp h
  -- the queues before `i` are empty, and those after it stay as they are
  obtain ⟨before, after, hsplit⟩ := List.append_of_mem (List.mem_finRange i)
  have hsorted : (before ++ i :: after).Pairwise (· < ·) := hsplit ▸ List.pairwise_lt_finRange n
  obtain ⟨-, hafter, hlt⟩ := List.pairwise_append.mp hsorted
  have hempty {q : Fin n → List α} (hq : ∀ j < i, q j = []) :
      before.flatMap (fun i => (q i).map (Prod.mk i)) = [] := by
    refine List.flatMap_eq_nil_iff.mpr fun j hj => ?_
    rw [hq j (hlt j hj i List.mem_cons_self), List.map_nil]
  have hrest : after.flatMap (fun j => (Function.update q i rest j).map (Prod.mk j)) =
      after.flatMap fun j => (q j).map (Prod.mk j) := by
    refine List.flatMap_congr fun j hj => ?_
    rw [Function.update_of_ne (List.rel_of_pairwise_cons hafter hj).ne']
  have hbefore' : ∀ j < i, Function.update q i rest j = [] := fun j hj => by
    rw [Function.update_of_ne hj.ne, hbefore j hj]
  rw [inOrder, inOrder, hsplit, List.flatMap_append, List.flatMap_append, hempty hbefore,
    hempty hbefore', List.flatMap_cons, List.flatMap_cons, hrest, hq, Function.update_self]
  rfl

end Queues
