/-
TemePCom/Lib/Run.lean

Runs of a labelled transition relation `next : σ → ε → σ → Prop`.

`Run next s es t` is a run from `s` to `t` under the labels `es`.  Two readings
of a run are needed: a property of every state it reaches (`Along`), and a
condition on every step it takes (`Each`).  The rules are

* `Run.invariant`: what every step preserves holds at the end of every run;
* `Run.history`: the same with the labels so far;
* `Run.lift`, `Run.simulate`, `Run.map`, `Run.map_iff`: simulation, the same with steps that
  do not show, refinement by a function, and two machines with the same runs;
* `along_of_each`: what is preserved by the steps that meet a condition holds
  along every run whose steps all meet it;
* `along_iff_each`: if moreover a step that misses the condition spoils the
  property at once, the two are equivalent;
* `steps_iff_each`: a property of the steps themselves (`Steps`), which in every
  state that can be reached is equivalent to a condition.
-/
import Mathlib

namespace Runs

variable {σ ε : Type*} {next : σ → ε → σ → Prop}

/-- A run from one state to another. -/
inductive Run (next : σ → ε → σ → Prop) : σ → List ε → σ → Prop
  | nil (s : σ) : Run next s [] s
  | cons {s s' t : σ} {e : ε} {es : List ε} :
      next s e s' → Run next s' es t → Run next s (e :: es) t

/-- The states some run from `s` ends in. -/
def Reachable (next : σ → ε → σ → Prop) (s t : σ) : Prop := ∃ es, Run next s es t

/-- `P` holds in every state reached along `es`. -/
def Along (next : σ → ε → σ → Prop) (P : σ → Prop) : σ → List ε → Prop
  | s, [] => P s
  | s, e :: es => P s ∧ ∀ s', next s e s' → Along next P s' es

/-- Every step taken along `es` meets `C`. -/
def Each (next : σ → ε → σ → Prop) (C : σ → ε → Prop) : σ → List ε → Prop
  | _, [] => True
  | s, e :: es => ∀ s', next s e s' → C s e ∧ Each next C s' es

/-- Every step taken along `es` is related by `R`, the state it leads to included. -/
def Steps (next : σ → ε → σ → Prop) (R : σ → ε → σ → Prop) : σ → List ε → Prop
  | _, [] => True
  | s, e :: es => ∀ s', next s e s' → R s e s' ∧ Steps next R s' es

/-- One run after another. -/
theorem Run.append {s t u : σ} {es es' : List ε} (h : Run next s es t) (h' : Run next t es' u) :
    Run next s (es ++ es') u := by
  induction h with
  | nil => exact h'
  | cons hnext _ ih => exact .cons hnext (ih h')

/-- What every step preserves holds at the end of every run. -/
theorem Run.invariant {Inv : σ → Prop} (hstep : ∀ s e s', Inv s → next s e s' → Inv s')
    {s t : σ} {es : List ε} (h : Run next s es t) (hs : Inv s) : Inv t := by
  induction h with
  | nil => exact hs
  | cons hnext _ ih => exact ih (hstep _ _ _ hs hnext)

theorem Reachable.invariant {Inv : σ → Prop} (hstep : ∀ s e s', Inv s → next s e s' → Inv s')
    {s t : σ} (h : Reachable next s t) (hs : Inv s) : Inv t := by
  obtain ⟨es, hrun⟩ := h
  exact hrun.invariant hstep hs

/-- **Simulation.**  Where every step of the one machine is a step of the other with the same
label, so is every run. -/
theorem Run.lift {τ : Type*} {next' : τ → ε → τ → Prop} {r : σ → τ → Prop}
    (hstep : ∀ s t e s', r s t → next s e s' → ∃ t', next' t e t' ∧ r s' t')
    {s s' : σ} {t : τ} {es : List ε} (h : Run next s es s') (hst : r s t) :
    ∃ t', Run next' t es t' ∧ r s' t' := by
  induction h generalizing t with
  | nil => exact ⟨t, .nil t, hst⟩
  | cons hnext _ ih =>
    obtain ⟨t₁, ht₁, hrel⟩ := hstep _ _ _ _ hst hnext
    obtain ⟨t', ht', hrel'⟩ := ih hrel
    exact ⟨t', .cons ht₁ ht', hrel'⟩

/-- **Stuttering simulation.**  Where every step of the one machine either does not show or
shows what a step of the other does, every run has a run of the other that shows the same. -/
theorem Run.simulate {τ ε' γ : Type*} {next' : τ → ε' → τ → Prop} {r : σ → τ → Prop}
    {shows : ε → Option γ} {shows' : ε' → γ}
    (hstep : ∀ s t e s', r s t → next s e s' → (shows e = none ∧ r s' t) ∨
      ∃ e' t', shows e = some (shows' e') ∧ next' t e' t' ∧ r s' t')
    {s s' : σ} {t : τ} {es : List ε} (h : Run next s es s') (hst : r s t) :
    ∃ es' t', Run next' t es' t' ∧ es'.map shows' = es.filterMap shows ∧ r s' t' := by
  induction h generalizing t with
  | nil => exact ⟨[], t, .nil t, rfl, hst⟩
  | cons hnext _ ih =>
    obtain ⟨hnone, hrel⟩ | ⟨e', t₁, hsome, ht₁, hrel⟩ := hstep _ _ _ _ hst hnext
    · obtain ⟨es', t', hrun, hshows, hrel'⟩ := ih hrel
      exact ⟨es', t', hrun, by rw [List.filterMap_cons_none hnone, hshows], hrel'⟩
    · obtain ⟨es', t', hrun, hshows, hrel'⟩ := ih hrel
      refine ⟨e' :: es', t', .cons ht₁ hrun, ?_, hrel'⟩
      rw [List.filterMap_cons_some hsome, List.map_cons, hshows]

/-- **Refinement by a function.**  Where the steps of one machine are those of another in its
view, in the states an invariant describes, so are the runs. -/
theorem Run.map {τ ε' : Type*} {next' : τ → ε' → τ → Prop} {view : σ → τ} {label : ε → ε'}
    (P : σ → Prop)
    (hstep : ∀ s e s', P s → next s e s' → P s' ∧ next' (view s) (label e) (view s'))
    {s t : σ} {es : List ε} (h : Run next s es t) (hs : P s) :
    Run next' (view s) (es.map label) (view t) := by
  induction h with
  | nil => exact .nil _
  | cons hnext _ ih =>
    obtain ⟨hs', hnext'⟩ := hstep _ _ _ hs hnext
    exact .cons hnext' (ih hs')

/-- **Equivalence of two machines.**  Where an invariant makes the steps of the one those of
the other whose labels meet `C`, the runs are the same in this way too. -/
theorem Run.map_iff {ε' : Type*} {next' : σ → ε' → σ → Prop} {label : ε → ε'} {C : ε → Prop}
    (Inv : σ → Prop) (hinv : ∀ s e s', Inv s → next' s e s' → Inv s')
    (hstep : ∀ s e s', Inv s → (next s e s' ↔ next' s (label e) s' ∧ C e))
    {s t : σ} {es : List ε} (hs : Inv s) :
    Run next s es t ↔ Run next' s (es.map label) t ∧ ∀ e ∈ es, C e := by
  constructor
  · intro h
    induction h with
    | nil => exact ⟨.nil _, nofun⟩
    | cons hnext _ ih =>
      obtain ⟨hnext', hC⟩ := (hstep _ _ _ hs).mp hnext
      obtain ⟨hrun, hall⟩ := ih (hinv _ _ _ hs hnext')
      exact ⟨.cons hnext' hrun, List.forall_mem_cons.mpr ⟨hC, hall⟩⟩
  · rintro ⟨hrun, hall⟩
    induction es generalizing s with
    | nil =>
      cases hrun
      exact .nil _
    | cons e es ih =>
      cases hrun with
      | cons hnext' hrest =>
        obtain ⟨hC, hall'⟩ := List.forall_mem_cons.mp hall
        exact .cons ((hstep _ _ _ hs).mpr ⟨hnext', hC⟩) (ih (hinv _ _ _ hs hnext') hrest hall')

/-- What the steps that meet `C` preserve holds along every run of such steps. -/
theorem along_of_each {P : σ → Prop} {C : σ → ε → Prop}
    (hstep : ∀ s e s', P s → next s e s' → C s e → P s') {s : σ} {es : List ε}
    (hs : P s) (h : Each next C s es) : Along next P s es := by
  induction es generalizing s with
  | nil => exact hs
  | cons e es ih =>
    exact ⟨hs, fun s' hnext => ih (hstep s e s' hs hnext (h s' hnext).1) (h s' hnext).2⟩

/-- `Along` is monotone in the property. -/
theorem Along.mono {P Q : σ → Prop} (hPQ : ∀ s, P s → Q s) {s : σ} {es : List ε}
    (h : Along next P s es) : Along next Q s es := by
  induction es generalizing s with
  | nil => exact hPQ s h
  | cons e es ih => exact ⟨hPQ s h.1, fun s' hnext => ih (h.2 s' hnext)⟩

/-- The end of a run is one of the states it reaches. -/
theorem Along.of_run {P : σ → Prop} {s t : σ} {es : List ε} (h : Along next P s es)
    (hrun : Run next s es t) : P t := by
  induction hrun with
  | nil => exact h
  | cons hnext _ ih => exact ih (h.2 _ hnext)

/-- **Exact conditions.**  `Good` is preserved by the steps that meet `C` and
implies `P`; a step from a good state that misses `C` leads to a state without
`P`.  Then `P` holds along a run iff every step of the run meets `C`. -/
theorem along_iff_each {P : σ → Prop} {C : σ → ε → Prop} (Good : σ → Prop)
    (hgood : ∀ s e s', Good s → next s e s' → C s e → Good s')
    (hP : ∀ s, Good s → P s)
    (hbad : ∀ s e s', Good s → next s e s' → ¬ C s e → ¬ P s')
    {s : σ} {es : List ε} (hs : Good s) : Along next P s es ↔ Each next C s es := by
  constructor
  · intro h
    induction es generalizing s with
    | nil => trivial
    | cons e es ih =>
      intro s' hnext
      have hrest := h.2 s' hnext
      have hP' : P s' := by
        cases es with
        | nil => exact hrest
        | cons => exact hrest.1
      -- the first step that misses the condition already spoils the property
      have hC : C s e := by
        by_contra hC
        exact hbad s e s' hs hnext hC hP'
      exact ⟨hC, ih (hgood s e s' hs hnext hC) hrest⟩
  · intro h
    exact (along_of_each hgood hs h).mono hP

/-- **Exact conditions on steps.**  Where an invariant makes `R` equivalent to `C`
for every step, all the steps of a run are related by `R` iff all meet `C`. -/
theorem steps_iff_each {R : σ → ε → σ → Prop} {C : σ → ε → Prop} (Inv : σ → Prop)
    (hinv : ∀ s e s', Inv s → next s e s' → Inv s')
    (hR : ∀ s e s', Inv s → next s e s' → (R s e s' ↔ C s e))
    {s : σ} {es : List ε} (hs : Inv s) : Steps next R s es ↔ Each next C s es := by
  induction es generalizing s with
  | nil => exact Iff.rfl
  | cons e es ih =>
    exact forall₂_congr fun s' hnext =>
      and_congr (hR s e s' hs hnext) (ih (hinv s e s' hs hnext))

/-- One step of a run that is not related by `R` is enough. -/
theorem not_steps {R : σ → ε → σ → Prop} {s t t' : σ} {es : List ε} {e : ε}
    (hrun : Run next s es t) (hnext : next t e t') (hR : ¬ R t e t') :
    ¬ Steps next R s (es ++ [e]) := by
  induction hrun with
  | nil s => exact fun h => hR (h t' hnext).1
  | cons hfirst _ ih => exact fun h => ih hnext hR (h _ hfirst).2

/-! ### Executable runs -/

/-- Run a partial step function on a list of labels. -/
def exec (step : σ → ε → Option σ) : σ → List ε → Option σ
  | s, [] => some s
  | s, e :: es => (step s e).bind fun s' => exec step s' es

/-- What is executed is a run, if the steps are. -/
theorem run_of_exec {step : σ → ε → Option σ}
    (hstep : ∀ s e s', step s e = some s' → next s e s') {s t : σ} {es : List ε}
    (h : exec step s es = some t) : Run next s es t := by
  induction es generalizing s with
  | nil =>
    obtain rfl := Option.some.inj h
    exact .nil s
  | cons e es ih =>
    obtain ⟨s', hs', ht⟩ := Option.bind_eq_some_iff.mp h
    exact .cons (hstep s e s' hs') (ih ht)

end Runs
