/-
TemePCom/Lib/Lines.lean

Lists read in lines.

`cut sep l` takes `l` apart at the first place of the separator, and `readLines` takes
lines off the front until one of them is empty, as the header of a text message is
read.  What is written with the separator is read back (`cut_append`,
`readLines_lines`), as long as no line contains the separator's first element; nothing
is asked of what follows.

A pattern without this element does not lie across the end of a line either
(`first?_append_cons`), so a search in lines is a search line by line.
-/
import TemePCom.Lib.Search

namespace Lines

open Search

variable {α : Type*} {a b l pat : List α} {sep : List α} {c : α}

/-! ### Cutting at a separator -/

/-- The parts in front of and behind the first place of the separator. -/
def cut [DecidableEq α] (sep l : List α) : Option (List α × List α) :=
  (first? sep l).map fun i => (l.take i, l.drop (i + sep.length))

theorem isFirst_append (h : c ∉ a) (b : List α) :
    IsFirst (c :: sep) (a ++ ((c :: sep) ++ b)) a.length :=
  (isFirst_zero_iff.mpr (List.prefix_append _ _)).append_left fun _ hj => not_at_of_notMem h hj

section Reading

variable [DecidableEq α]

theorem cut_append (h : c ∉ a) (b : List α) :
    cut (c :: sep) (a ++ ((c :: sep) ++ b)) = some (a, b) := by
  have hdrop : (a ++ ((c :: sep) ++ b)).drop (a.length + (c :: sep).length) = b := by
    rw [← List.append_assoc, ← List.length_append, List.drop_left]
  rw [cut, (isFirst_append h b).first?_eq (List.cons_ne_nil _ _), Option.map_some, List.take_left,
    hdrop]

theorem cut_eq_some (h : cut sep l = some (a, b)) (hsep : sep ≠ []) : b.length < l.length := by
  obtain ⟨i, hi, heq⟩ := Option.map_eq_some_iff.mp h
  obtain ⟨rfl, rfl⟩ := Prod.mk.inj heq
  have hle := ((first?_eq_some_iff hsep).mp hi).here.length_le hsep
  have hpos : 0 < sep.length := List.length_pos_iff.mpr hsep
  rw [List.length_drop]
  omega

/-! ### Lines up to an empty one -/

/-- The lines in front of the first empty line, and what follows that line. -/
def readLines (sep : List α) (hsep : sep ≠ []) (l : List α) : Option (List (List α) × List α) :=
  match _h : cut sep l with
  | none => none
  | some (line, rest) =>
    if line = [] then some ([], rest)
    else (readLines sep hsep rest).map fun r => (line :: r.1, r.2)
termination_by l.length
decreasing_by exact cut_eq_some ‹_› hsep

variable {hsep : sep ≠ []}

theorem readLines_of_cut {line rest : List α} (h : cut sep l = some (line, rest)) :
    readLines sep hsep l = if line = [] then some ([], rest)
      else (readLines sep hsep rest).map fun r => (line :: r.1, r.2) := by
  rw [readLines]
  split
  · next hnone =>
    rw [h] at hnone
    cases hnone
  · next line' rest' hsome =>
    obtain ⟨rfl, rfl⟩ := Prod.mk.inj (Option.some.inj (h.symm.trans hsome))
    rfl

theorem readLines_of_cut_eq_none (h : cut sep l = none) : readLines sep hsep l = none := by
  rw [readLines]
  split
  · rfl
  · next hsome =>
    rw [h] at hsome
    cases hsome

/-- **Lines are read back**, up to the empty line and whatever follows it. -/
theorem readLines_lines {lines : List (List α)} (h : ∀ line ∈ lines, line ≠ [] ∧ c ∉ line)
    (rest : List α) :
    readLines (c :: sep) (List.cons_ne_nil c sep)
      (lines.flatMap (· ++ c :: sep) ++ ((c :: sep) ++ rest)) = some (lines, rest) := by
  induction lines with
  | nil =>
    show readLines (c :: sep) _ ([] ++ ((c :: sep) ++ rest)) = some ([], rest)
    rw [readLines_of_cut (cut_append List.not_mem_nil rest), if_pos rfl]
  | cons line lines ih =>
    obtain ⟨hne, hline⟩ := h line List.mem_cons_self
    rw [List.flatMap_cons, List.append_assoc, List.append_assoc,
      readLines_of_cut (cut_append hline _), if_neg hne,
      ih fun line hl => h line (List.mem_cons_of_mem _ hl)]
    rfl

end Reading

/-! ### Searching in lines -/

theorem prefix_append_cons_iff (hc : c ∉ pat) : pat <+: a ++ c :: b ↔ pat <+: a := by
  constructor
  · intro h
    rcases Nat.lt_or_ge a.length pat.length with hlt | hle
    · -- the pattern would contain `c`
      have hfront : a ++ [c] <+: pat := by
        refine List.prefix_of_prefix_length_le ?_ h (by simpa using hlt)
        exact ⟨b, by rw [List.append_assoc]; rfl⟩
      exact absurd (hfront.subset (by simp)) hc
    · exact List.prefix_of_prefix_length_le h (List.prefix_append _ _) hle
  · intro h
    exact h.trans (List.prefix_append _ _)

/-- A pattern stands on either side of an element that it does not contain. -/
theorem at_append_cons_iff (hc : c ∉ pat) (hpat : pat ≠ []) {i : ℕ} :
    At pat (a ++ c :: b) i ↔ At pat a i ∨ ∃ j, i = a.length + 1 + j ∧ At pat b j := by
  rcases Nat.lt_or_ge a.length i with hgt | hle
  · -- behind the element
    obtain ⟨j, rfl⟩ := Nat.exists_eq_add_of_le hgt
    have hfront : ¬ At pat a (a.length + 1 + j) := by
      intro hat
      have hlen := hat.length_le hpat
      omega
    have hback : At pat (a ++ c :: b) (a.length + 1 + j) ↔ At pat b j := by
      rw [List.append_cons, ← at_append_length_iff (a := a ++ [c]) (l := b), List.length_append,
        List.length_singleton]
    rw [hback]
    constructor
    · exact fun hat => Or.inr ⟨j, rfl, hat⟩
    · rintro (hat | ⟨k, hk, hat⟩)
      · exact absurd hat hfront
      · rwa [Nat.add_left_cancel hk]
  · have hdrop : (a ++ c :: b).drop i = a.drop i ++ c :: b := List.drop_append_of_le_length hle
    have hat : At pat (a ++ c :: b) i ↔ At pat a i := by
      rw [At, hdrop, prefix_append_cons_iff hc]
      rfl
    rw [hat]
    constructor
    · exact Or.inl
    · rintro (hat | ⟨j, rfl, -⟩)
      · exact hat
      · omega

/-- **A search stops at the end of a line** only if the line has the pattern. -/
theorem first?_append_cons [DecidableEq α] (hc : c ∉ pat) (hpat : pat ≠ []) :
    first? pat (a ++ c :: b) =
      (first? pat a).or ((first? pat b).map fun j => a.length + 1 + j) := by
  cases ha : first? pat a with
  | some i => exact (((first?_eq_some_iff hpat).mp ha).extend hpat (c :: b)).first?_eq hpat
  | none =>
    have hnot := (first?_eq_none_iff hpat).mp ha
    rw [Option.none_or]
    cases hb : first? pat b with
    | none =>
      rw [first?_eq_none_iff hpat] at hb
      refine (first?_eq_none_iff hpat).mpr fun i hat => ?_
      rcases (at_append_cons_iff hc hpat).mp hat with hat | ⟨j, -, hat⟩
      · exact hnot i hat
      · exact hb j hat
    | some j =>
      rw [first?_eq_some_iff hpat] at hb
      refine IsFirst.first?_eq
        ⟨(at_append_cons_iff hc hpat).mpr (Or.inr ⟨j, rfl, hb.here⟩), ?_⟩ hpat
      intro i (hi : i < a.length + 1 + j) hat
      rcases (at_append_cons_iff hc hpat).mp hat with hat | ⟨k, rfl, hk⟩
      · exact hnot i hat
      · exact hb.before k (by omega) hk

end Lines
