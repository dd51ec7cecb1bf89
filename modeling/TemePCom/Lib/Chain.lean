/-
TemePCom/Lib/Chain.lean

Endless chains of a relation, on top of Mathlib's accessibility.

`Endless r a` says that some infinite sequence starts in `a` and follows `r`.
`not_endless_iff` characterises its absence for a relation with a measure that
every step decreases except the steps out of *bad* elements, where each bad
element has a bad successor: there is no endless chain from `a` iff no bad
element can be reached from `a`.
-/
import Mathlib

namespace Chain

variable {α : Type*} {r : α → α → Prop} {a b : α}

/-- Some infinite sequence starts in `a` and follows `r`. -/
def Endless (r : α → α → Prop) (a : α) : Prop :=
  ∃ f : ℕ → α, f 0 = a ∧ ∀ n, r (f n) (f (n + 1))

theorem endless_iff_not_acc : Endless r a ↔ ¬ Acc (fun y x => r x y) a := by
  rw [not_acc_iff_exists_descending_chain]
  rfl

/-- A chain can be prolonged to the front. -/
theorem Endless.of_reaches (h : Relation.ReflTransGen r a b) (hb : Endless r b) :
    Endless r a := by
  rw [endless_iff_not_acc] at hb ⊢
  intro ha
  induction h with
  | refl => exact hb ha
  | tail _ hstep ih => exact ih fun hacc => hb (hacc.inv hstep)

/-- What can always go on within `P` goes on forever. -/
theorem Endless.of_progress {P : α → Prop} (hstep : ∀ a, P a → ∃ b, r a b ∧ P b) (ha : P a) :
    Endless r a := by
  rw [endless_iff_not_acc]
  intro hacc
  induction hacc with
  | intro a _ ih =>
    obtain ⟨b, hab, hb⟩ := hstep a ha
    exact ih b hab hb

/-- A measure that decreases along every step from an element of `P`, `P` being
closed under `r`, excludes endless chains from `P`. -/
theorem not_endless_of_measure {P : α → Prop} (μ : α → ℕ)
    (hstep : ∀ a b, P a → r a b → P b ∧ μ b < μ a) (ha : P a) : ¬ Endless r a := by
  rintro ⟨f, rfl, hf⟩
  have hP : ∀ n, P (f n) := by
    intro n
    induction n with
    | zero => exact ha
    | succ n ih => exact (hstep _ _ ih (hf n)).1
  exact not_strictAnti_of_wellFoundedLT (fun n => μ (f n))
    (strictAnti_nat_of_succ_lt fun n => (hstep _ _ (hP n) (hf n)).2)

/-- **When there is no endless chain**: iff nothing bad can be reached. -/
theorem not_endless_iff (Inv Bad : α → Prop) (μ : α → ℕ)
    (hinv : ∀ a b, Inv a → r a b → Inv b)
    (hdec : ∀ a b, Inv a → ¬ Bad a → r a b → μ b < μ a)
    (hbad : ∀ a, Inv a → Bad a → ∃ b, r a b ∧ Bad b) (ha : Inv a) :
    ¬ Endless r a ↔ ∀ b, Relation.ReflTransGen r a b → ¬ Bad b := by
  have hreach : ∀ b, Relation.ReflTransGen r a b → Inv b := by
    intro b hab
    induction hab with
    | refl => exact ha
    | tail _ hstep ih => exact hinv _ _ ih hstep
  constructor
  · intro hnot b hab hb
    refine hnot (Endless.of_reaches hab ?_)
    refine Endless.of_progress (P := fun c => Inv c ∧ Bad c) ?_ ⟨hreach b hab, hb⟩
    rintro c ⟨hc, hc'⟩
    obtain ⟨d, hcd, hd⟩ := hbad c hc hc'
    exact ⟨d, hcd, hinv c d hc hcd, hd⟩
  · intro hgood
    refine not_endless_of_measure (P := fun b => Relation.ReflTransGen r a b) μ ?_ .refl
    intro b c hab hbc
    exact ⟨hab.tail hbc, hdec b c (hreach b hab) (hgood b hab) hbc⟩

end Chain
