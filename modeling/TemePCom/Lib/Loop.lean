/-
TemePCom/Lib/Loop.lean

`while` loops as transition functions.  A loop over a state type `σ` is its body
`f : σ → Option σ`, `none` where the guard fails; running it is
`StateTransition.eval f`.  Four rules are needed beyond the ones of Mathlib: what
the body preserves holds in every state the loop passes, a loop whose body always
finds a next state inside an invariant does not end, one whose body brings a measure
down does, and two loops that go in step end alike.
-/
import Mathlib

namespace Loop

open StateTransition

variable {σ : Type*} {f : σ → Option σ}

/-- What the body preserves holds in every state the loop passes. -/
theorem reaches_invariant (Inv : σ → Prop) (h : ∀ s s', Inv s → f s = some s' → Inv s')
    {s t : σ} (hs : Inv s) (hr : Reaches f s t) : Inv t := by
  induction hr with
  | refl => exact hs
  | tail _ hstep ih => exact h _ _ ih (Option.mem_def.mp hstep)

/-- **Divergence.**  If the body takes every state of `Inv` to a state of
`Inv`, the loop does not end from such a state. -/
theorem not_mem_eval {Inv : σ → Prop} (h : ∀ s, Inv s → ∃ s', f s = some s' ∧ Inv s')
    {s : σ} (hs : Inv s) (r : σ) : r ∉ eval f s := by
  intro hr
  obtain ⟨hreach, hhalt⟩ := mem_eval.mp hr
  have hinv : Inv r := by
    refine reaches_invariant Inv (fun a b ha hab => ?_) hs hreach
    obtain ⟨b', hb', hinv'⟩ := h a ha
    obtain rfl : b' = b := Option.some.inj (hb'.symm.trans hab)
    exact hinv'
  obtain ⟨r', hr', -⟩ := h r hinv
  rw [hhalt] at hr'
  cases hr'

/-- **Termination.**  If the body keeps `Inv` and brings the measure down, the loop
ends, in a state of `Inv`. -/
theorem exists_mem_eval (Inv : σ → Prop) (μ : σ → ℕ)
    (h : ∀ s s', Inv s → f s = some s' → Inv s' ∧ μ s' < μ s) {s : σ} (hs : Inv s) :
    ∃ r ∈ eval f s, Inv r := by
  induction hn : μ s using Nat.strong_induction_on generalizing s with
  | _ n ih =>
    rcases hstep : f s with - | s'
    · exact ⟨s, mem_eval.mpr ⟨.refl, hstep⟩, hs⟩
    · obtain ⟨hs', hlt⟩ := h s s' hs hstep
      obtain ⟨r, hr, hinv⟩ := ih (μ s') (hn ▸ hlt) hs' rfl
      obtain ⟨hreach, hhalt⟩ := mem_eval.mp hr
      exact ⟨r, mem_eval.mpr ⟨.head (Option.mem_def.mpr hstep) hreach, hhalt⟩, hinv⟩

section Lockstep

variable {τ γ : Type*} {g : τ → Option τ} {tr : σ → τ → Prop}

theorem respects_of_lockstep (h : ∀ a b, tr a b → Option.Rel tr (f a) (g b)) :
    Respects f g tr := by
  intro a b hab
  have hrel := h a b hab
  rcases hf : f a with - | a'
  · rw [hf] at hrel
    rcases hg : g b with - | b'
    · rfl
    · rw [hg] at hrel
      cases hrel
  · rw [hf] at hrel
    rcases hg : g b with - | b'
    · rw [hg] at hrel
      cases hrel
    · rw [hg, Option.rel_some_some] at hrel
      exact ⟨b', hrel, Relation.TransGen.single (Option.mem_def.mpr hg)⟩

/-- **Two loops in step**: if one body keeps up with the other and what is observed
is the same in related states, it is the same at the end. -/
theorem map_eval_eq (h : ∀ a b, tr a b → Option.Rel tr (f a) (g b)) {φ : σ → γ} {ψ : τ → γ}
    (hobs : ∀ a b, tr a b → φ a = ψ b) {a : σ} {b : τ} (hab : tr a b) :
    (eval f a).map φ = (eval g b).map ψ := by
  have hrespects := respects_of_lockstep h
  ext c
  rw [Part.mem_map_iff, Part.mem_map_iff]
  constructor
  · rintro ⟨r, hr, rfl⟩
    obtain ⟨r', hrr', hr'⟩ := tr_eval hrespects hab hr
    exact ⟨r', hr', (hobs r r' hrr').symm⟩
  · rintro ⟨r', hr', rfl⟩
    obtain ⟨r, hrr', hr⟩ := tr_eval_rev hrespects hab hr'
    exact ⟨r, hr, hobs r r' hrr'⟩

end Lockstep

/-! ### Computations that end alike -/

section Alike

variable {α β γ δ : Type*} {r : α → β → Prop}

/-- Each result of one computation corresponds to one of the other; so the one ends iff the
other does. -/
def Alike (r : α → β → Prop) (a : Part α) (b : Part β) : Prop :=
  (∀ x ∈ a, ∃ y ∈ b, r x y) ∧ ∀ y ∈ b, ∃ x ∈ a, r x y

theorem alike_some {x : α} {y : β} (h : r x y) : Alike r (Part.some x) (Part.some y) := by
  constructor
  · intro x' hx'
    obtain rfl := Part.mem_some_iff.mp hx'
    exact ⟨y, Part.mem_some y, h⟩
  · intro y' hy'
    obtain rfl := Part.mem_some_iff.mp hy'
    exact ⟨x, Part.mem_some x, h⟩

/-- What is made of the results corresponds where the results do. -/
theorem Alike.map {q : γ → δ → Prop} {a : Part α} {b : Part β} {φ : α → γ} {ψ : β → δ}
    (h : Alike r a b) (hmap : ∀ x y, r x y → q (φ x) (ψ y)) :
    Alike q (a.map φ) (b.map ψ) := by
  constructor
  · intro z hz
    obtain ⟨x, hx, rfl⟩ := (Part.mem_map_iff _).mp hz
    obtain ⟨y, hy, hxy⟩ := h.1 x hx
    exact ⟨ψ y, Part.mem_map ψ hy, hmap x y hxy⟩
  · intro z hz
    obtain ⟨y, hy, rfl⟩ := (Part.mem_map_iff _).mp hz
    obtain ⟨x, hx, hxy⟩ := h.2 y hy
    exact ⟨φ x, Part.mem_map φ hx, hmap x y hxy⟩

end Alike

end Loop
