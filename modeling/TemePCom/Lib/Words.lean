/-
TemePCom/Lib/Words.lean

The words of a list: its maximal non-empty parts without a separator.

A separator is an element (`words`) or any element with a property (`wordsBy`).

Where two lists meet, the last word of the one and the first word of the other may
become one word; everything else stays (`Seam`).  So the words of a list are never more
than the words of a longer one, and where they are as many, the longer one has the same
words, but for one at its end that has grown.
-/
import Mathlib

namespace Words

/-! ### Separators by a property -/

section By

variable {α : Type*} {p : α → Bool} {l u : List α} {c : α}

/-- The words of a list whose separators are the elements with `p`. -/
def wordsBy (p : α → Bool) (l : List α) : List (List α) :=
  (l.splitOnP p).filter fun w => !w.isEmpty

/-- Words on either side of a separator. -/
theorem wordsBy_append_cons (hc : p c = true) (x y : List α) :
    wordsBy p (x ++ c :: y) = wordsBy p x ++ wordsBy p y := by
  rw [wordsBy, List.splitOnP_append_cons x y hc, List.filter_append, ← wordsBy, ← wordsBy]

theorem wordsBy_of_forall (h : ∀ c ∈ u, p c = false) :
    wordsBy p u = if u = [] then [] else [u] := by
  rw [wordsBy, List.splitOnP_eq_singleton h]
  by_cases hu : u = [] <;> simp [hu]

@[simp] theorem wordsBy_nil : wordsBy p [] = [] :=
  wordsBy_of_forall fun _ h => absurd h List.not_mem_nil

theorem wordsBy_word (h : ∀ c ∈ u, p c = false) (hne : u ≠ []) : wordsBy p u = [u] := by
  rw [wordsBy_of_forall h, if_neg hne]

theorem wordsBy_cons (hc : p c = true) (l : List α) : wordsBy p (c :: l) = wordsBy p l := by
  have h := wordsBy_append_cons hc [] l
  rwa [wordsBy_nil] at h

/-- Leading separators do not count. -/
theorem wordsBy_dropWhile (l : List α) : wordsBy p (l.dropWhile p) = wordsBy p l := by
  induction l with
  | nil => rfl
  | cons c l ih =>
    by_cases hc : p c = true
    · rw [List.dropWhile_cons_of_pos hc, ih, wordsBy_cons hc]
    · rw [List.dropWhile_cons_of_neg hc]

/-- Reading stops where two lists meet. -/
theorem span_append_of_head {x y : List α} (h : ∀ c ∈ y.head?, p c = false) :
    (x ++ y).takeWhile p = x.takeWhile p ∧ (x ++ y).dropWhile p = x.dropWhile p ++ y := by
  induction x with
  | nil =>
    cases y with
    | nil => exact ⟨rfl, rfl⟩
    | cons c y =>
      have hc : ¬ p c = true := by simpa using h c rfl
      exact ⟨List.takeWhile_cons_of_neg hc, List.dropWhile_cons_of_neg hc⟩
  | cons c x ih =>
    by_cases hc : p c = true
    · rw [List.cons_append, List.takeWhile_cons_of_pos hc, List.takeWhile_cons_of_pos hc,
        List.dropWhile_cons_of_pos hc, List.dropWhile_cons_of_pos hc, ih.1, ih.2]
      exact ⟨rfl, rfl⟩
    · rw [List.cons_append, List.takeWhile_cons_of_neg hc, List.takeWhile_cons_of_neg hc,
        List.dropWhile_cons_of_neg hc, List.dropWhile_cons_of_neg hc]
      exact ⟨rfl, rfl⟩

/-- **The first word**: behind separators, up to the next one. -/
theorem exists_firstWord (l : List α) :
    (wordsBy p l = [] ∧ ∀ c ∈ l, p c = true) ∨
    ∃ blank w tail, l = blank ++ (w ++ tail) ∧ (∀ c ∈ blank, p c = true) ∧ w ≠ [] ∧
      (∀ c ∈ w, p c = false) ∧ (∀ c ∈ tail.head?, p c = true) ∧
      wordsBy p l = w :: wordsBy p tail := by
  have hsplit : l.takeWhile p ++ l.dropWhile p = l := List.takeWhile_append_dropWhile
  have hblank : ∀ c ∈ l.takeWhile p, p c = true := fun c hc => List.mem_takeWhile_imp hc
  rcases hd : l.dropWhile p with - | ⟨a, d⟩
  · rw [hd, List.append_nil] at hsplit
    refine Or.inl ⟨?_, fun c hc => hblank c (hsplit.symm ▸ hc)⟩
    rw [← wordsBy_dropWhile, hd, wordsBy_nil]
  · -- the first element that is no separator
    have ha : p a = false := by
      have hhead := List.head?_dropWhile_not p l
      rw [hd] at hhead
      simpa using hhead
    have hne : (a :: d).takeWhile (fun c => !p c) ≠ [] := by
      rw [List.takeWhile_cons_of_pos (by simp [ha])]
      exact List.cons_ne_nil _ _
    have hw : ∀ c ∈ (a :: d).takeWhile (fun c => !p c), p c = false := fun c hc => by
      simpa using List.mem_takeWhile_imp hc
    have htail : ∀ c ∈ ((a :: d).dropWhile fun c => !p c).head?, p c = true := by
      intro c hc
      have hhead := List.head?_dropWhile_not (fun c => !p c) (a :: d)
      rw [Option.mem_def.mp hc] at hhead
      simpa using hhead
    have hparts : (a :: d).takeWhile (fun c => !p c) ++ (a :: d).dropWhile (fun c => !p c) =
        a :: d := List.takeWhile_append_dropWhile
    refine Or.inr ⟨l.takeWhile p, _, _, ?_, hblank, hne, hw, htail, ?_⟩
    · rw [hparts, ← hd, hsplit]
    · rw [← wordsBy_dropWhile, hd]
      conv_lhs => rw [← hparts]
      rcases htl : (a :: d).dropWhile (fun c => !p c) with - | ⟨b, tail⟩
      · rw [List.append_nil, wordsBy_word hw hne, wordsBy_nil]
      · rw [htl] at htail
        have hb : p b = true := htail b rfl
        rw [wordsBy_append_cons hb, wordsBy_word hw hne, wordsBy_cons hb]
        rfl

/-- The first word of a list that begins with one, and the words behind it. -/
theorem wordsBy_eq_cons {s : List α} (hc : s.head? = some c) (hp : p c = false) :
    wordsBy p s = s.takeWhile (!p ·) :: wordsBy p ((s.dropWhile (!p ·)).drop 1) := by
  set w := s.takeWhile (!p ·) with hw
  have hsplit : w ++ s.dropWhile (!p ·) = s := List.takeWhile_append_dropWhile
  have hword : ∀ d ∈ w, p d = false := fun d hd => by simpa using List.mem_takeWhile_imp hd
  have hne : w ≠ [] := by
    cases s with
    | nil => cases hc
    | cons b s =>
      obtain rfl := Option.some.inj hc
      rw [hw, List.takeWhile_cons_of_pos (by simpa using hp)]
      exact List.cons_ne_nil _ _
  rcases hdrop : s.dropWhile (!p ·) with - | ⟨b, rest⟩
  · rw [hdrop, List.append_nil] at hsplit
    rw [← hsplit, wordsBy_word hword hne, List.drop_nil, wordsBy_nil]
  · -- the first separator
    have hb : p b = true := by
      have hhead := List.head?_dropWhile_not (!p ·) s
      rw [hdrop] at hhead
      simpa using hhead
    rw [hdrop] at hsplit
    rw [← hsplit, wordsBy_append_cons hb, wordsBy_word hword hne]
    rfl

end By

/-! ### One separator -/

variable {α : Type*} [DecidableEq α] {sep : α} {x y u : List α}

/-- The words of a list. -/
def words (sep : α) (l : List α) : List (List α) := (l.splitOn sep).filter (· ≠ [])

theorem words_eq_wordsBy (l : List α) : words sep l = wordsBy (· == sep) l := by
  rw [words, wordsBy, List.splitOn_eq_splitOnP]
  congr 1
  funext w
  cases w <;> simp

/-! ### Single words -/

theorem words_of_notMem (h : sep ∉ u) : words sep u = if u = [] then [] else [u] := by
  rw [words_eq_wordsBy]
  exact wordsBy_of_forall fun c hc => beq_eq_false_iff_ne.mpr fun heq => h (heq ▸ hc)

@[simp] theorem words_nil : words sep [] = [] := words_of_notMem List.not_mem_nil

theorem words_word (h : sep ∉ u) (hne : u ≠ []) : words sep u = [u] := by
  rw [words_of_notMem h, if_neg hne]

/-- Words on either side of a separator. -/
theorem words_append_cons (x y : List α) :
    words sep (x ++ sep :: y) = words sep x ++ words sep y := by
  rw [words_eq_wordsBy, words_eq_wordsBy, words_eq_wordsBy]
  exact wordsBy_append_cons (p := fun c => c == sep) (beq_self_eq_true sep) x y

/-- Leading separators do not count. -/
theorem words_dropWhile (l : List α) : words sep (l.dropWhile (· = sep)) = words sep l := by
  rw [words_eq_wordsBy, words_eq_wordsBy]
  exact wordsBy_dropWhile (p := fun c => c == sep) l

/-- The first word, and the words behind it. -/
theorem words_eq_cons {s : List α} {c : α} (hc : s.head? = some c) (hsep : c ≠ sep) :
    words sep s = s.takeWhile (· ≠ sep) :: words sep ((s.dropWhile (· ≠ sep)).drop 1) := by
  have hp : (fun d => !(d == sep)) = fun d => decide (d ≠ sep) := by
    funext d
    by_cases hd : d = sep <;> simp [hd]
  have h := wordsBy_eq_cons (p := (· == sep)) hc (by simpa using hsep)
  rw [hp] at h
  rw [words_eq_wordsBy, words_eq_wordsBy, h]

/-! ### Where two lists meet -/

/-- The words of `x ++ y`: those of `x` and of `y`, but for the part `left` at the end of
`x` and the part `right` at the start of `y`, which come together. -/
structure Seam (sep : α) (x y : List α) where
  front : List (List α)
  left : List α
  right : List α
  back : List (List α)
  left_notMem : sep ∉ left
  right_notMem : sep ∉ right
  words_left : words sep x = front ++ words sep left
  words_right : words sep y = words sep right ++ back
  words_append : words sep (x ++ y) = front ++ words sep (left ++ right) ++ back
  left_ne_nil : ∀ c ∈ x.getLast?, c ≠ sep → left ≠ []
  right_head : ∀ c ∈ y.head?, c ≠ sep → right.head? = some c

/-- The part behind the last separator. -/
theorem exists_lastPart (sep : α) (x : List α) : ∃ front left, sep ∉ left ∧
    (∀ y, words sep (x ++ y) = front ++ words sep (left ++ y)) ∧
      ∀ c ∈ x.getLast?, c ≠ sep → left ≠ [] := by
  by_cases h : sep ∈ x
  · obtain ⟨left, rest, hrev, hleft⟩ := List.eq_append_cons_of_mem (List.mem_reverse.mpr h)
    have hx : x = rest.reverse ++ sep :: left.reverse := by
      rw [← List.reverse_reverse x, hrev]
      simp
    refine ⟨words sep rest.reverse, left.reverse, fun hm => hleft (List.mem_reverse.mp hm),
      fun y => ?_, fun c hc hsep hnil => ?_⟩
    · rw [hx, List.append_assoc, List.cons_append, words_append_cons]
    · rw [hx, hnil, List.getLast?_append_of_ne_nil _ (List.cons_ne_nil _ _)] at hc
      exact hsep (Option.some.inj hc).symm
  · refine ⟨[], x, h, fun y => rfl, fun c hc _ hnil => ?_⟩
    rw [hnil] at hc
    cases hc

/-- The part in front of the first separator. -/
theorem exists_firstPart (sep : α) (y : List α) : ∃ right back, sep ∉ right ∧
    (∀ x, words sep (x ++ y) = words sep (x ++ right) ++ back) ∧
      ∀ c ∈ y.head?, c ≠ sep → right.head? = some c := by
  by_cases h : sep ∈ y
  · obtain ⟨right, rest, rfl, hright⟩ := List.eq_append_cons_of_mem h
    refine ⟨right, words sep rest, hright, fun x => ?_, fun c hc hsep => ?_⟩
    · rw [← List.append_assoc, words_append_cons]
    · cases right with
      | nil => exact absurd (Option.some.inj hc).symm hsep
      | cons b right => exact hc
  · refine ⟨y, [], h, fun x => (List.append_nil _).symm, fun c hc _ => hc⟩

theorem exists_seam (sep : α) (x y : List α) : Nonempty (Seam sep x y) := by
  obtain ⟨front, left, hleft, hfront, hleft_ne⟩ := exists_lastPart sep x
  obtain ⟨right, back, hright, hback, hright_head⟩ := exists_firstPart sep y
  refine ⟨⟨front, left, right, back, hleft, hright, ?_, ?_, ?_, hleft_ne, hright_head⟩⟩
  · simpa using hfront []
  · simpa using hback []
  · rw [hfront, hback, List.append_assoc]

/-- What comes together is one word, or none where both are empty. -/
theorem Seam.words_middle (m : Seam sep x y) :
    words sep (m.left ++ m.right) = if m.left ++ m.right = [] then [] else [m.left ++ m.right] :=
  words_of_notMem fun h => (List.mem_append.mp h).elim m.left_notMem m.right_notMem

theorem Seam.length_words (m : Seam sep x y) :
    (words sep x).length = m.front.length + (if m.left = [] then 0 else 1) ∧
      (words sep y).length = (if m.right = [] then 0 else 1) + m.back.length ∧
        (words sep (x ++ y)).length =
          m.front.length + (if m.left = [] ∧ m.right = [] then 0 else 1) + m.back.length := by
  have hpart : ∀ u : List α, sep ∉ u → (words sep u).length = if u = [] then 0 else 1 := by
    intro u hu
    rw [words_of_notMem hu]
    split_ifs <;> rfl
  have hmiddle : (words sep (m.left ++ m.right)).length =
      if m.left = [] ∧ m.right = [] then 0 else 1 := by
    rw [m.words_middle]
    simp only [List.append_eq_nil_iff]
    split_ifs <;> rfl
  rw [m.words_left, m.words_right, m.words_append]
  simp only [List.length_append, hpart m.left m.left_notMem, hpart m.right m.right_notMem, hmiddle]
  exact ⟨trivial, trivial, trivial⟩

theorem length_words_le_append_left (x y : List α) :
    (words sep x).length ≤ (words sep (x ++ y)).length := by
  obtain ⟨m⟩ := exists_seam sep x y
  obtain ⟨hx, -, hxy⟩ := m.length_words
  rw [hx, hxy]
  by_cases hleft : m.left = []
  · rw [if_pos hleft]
    omega
  · rw [if_neg hleft, if_neg fun h => hleft h.1]
    omega

theorem length_words_le_append_right (x y : List α) :
    (words sep y).length ≤ (words sep (x ++ y)).length := by
  obtain ⟨m⟩ := exists_seam sep x y
  obtain ⟨-, hy, hxy⟩ := m.length_words
  rw [hy, hxy]
  by_cases hright : m.right = []
  · rw [if_pos hright]
    omega
  · rw [if_neg hright, if_neg fun h => hright h.2]
    omega

/-- A list put in front without a new word makes the first word longer. -/
theorem tail_words_append {c : α} (hc : x.getLast? = some c) (hsep : c ≠ sep)
    (h : (words sep (x ++ y)).length = (words sep y).length) :
    (words sep (x ++ y)).tail = (words sep y).tail := by
  obtain ⟨m⟩ := exists_seam sep x y
  have hleft := m.left_ne_nil c hc hsep
  obtain ⟨-, hy, hxy⟩ := m.length_words
  rw [hy, hxy, if_neg fun hnil => hleft hnil.1] at h
  have hright : m.right ≠ [] := by
    intro hnil
    rw [if_pos hnil] at h
    omega
  rw [if_neg hright] at h
  have hfront : m.front = [] := List.length_eq_zero_iff.mp (by omega)
  rw [m.words_append, m.words_right, m.words_middle, hfront, if_neg (by simp [hleft]),
    words_word m.right_notMem hright]
  rfl

/-- A list put behind without a new word makes the last word longer. -/
theorem words_append_of_length_eq {c : α} (hc : y.head? = some c) (hsep : c ≠ sep)
    (h : (words sep (x ++ y)).length = (words sep x).length) :
    ∃ ws w v, v.head? = some c ∧ words sep y = [v] ∧ words sep x = ws ++ [w] ∧
      words sep (x ++ y) = ws ++ [w ++ v] := by
  obtain ⟨m⟩ := exists_seam sep x y
  have hhead := m.right_head c hc hsep
  have hright : m.right ≠ [] := by
    intro hnil
    rw [hnil] at hhead
    cases hhead
  obtain ⟨hx, -, hxy⟩ := m.length_words
  rw [hx, hxy, if_neg fun hnil => hright hnil.2] at h
  have hleft : m.left ≠ [] := by
    intro hnil
    rw [if_pos hnil] at h
    omega
  rw [if_neg hleft] at h
  have hback : m.back = [] := List.length_eq_zero_iff.mp (by omega)
  refine ⟨m.front, m.left, m.right, hhead, ?_, ?_, ?_⟩
  · rw [m.words_right, hback, words_word m.right_notMem hright]
    rfl
  · rw [m.words_left, words_word m.left_notMem hleft]
  · rw [m.words_append, m.words_middle, hback, if_neg (by simp [hleft]), List.append_nil]

end Words
