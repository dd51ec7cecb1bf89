/-
TemePCom/Http/FormInput.lean

The forms and the lines that are typed at their prompts.

A prompt is answered with a line, but `>>` takes a word: a line of two words answers two
prompts, and an empty one none.  So `read_book` and the lines agree by count alone, and
what is left over, or missing, is taken from the lines of the commands.  A number that
is none is worse: it sets the fail bit, which nothing clears, and every command that
`main` reads from then on is empty.

What the reads do to the lines is a matter of their words (`Reads`): a word is one less,
a number is one less or leaves the part of its word behind the digits, and `none` is the
stream that has gone beyond the lines or has failed.
-/
import TemePCom.Lib.Words
import TemePCom.Http.LibraryToken
import TemePCom.Http.Survival

namespace TemePCom.Http

open Decimal Words

variable {J : Json} {w : World} {cin : Cin} {rest blank u tail text : Bytes}

/-! ### One extraction -/

theorem word_of_failed (h : cin.failed = true) : cin.word = ([], cin) := if_pos h

theorem unsigned_of_failed (h : cin.failed = true) : cin.unsigned = (0, cin) := if_pos h

theorem word_of_blank (h : rest.dropWhile isSpace = []) :
    Cin.word ⟨rest, false⟩ = ([], ⟨[], true⟩) := by
  simp only [Cin.word, h, Bool.false_eq_true, if_false]

theorem unsigned_of_blank (h : rest.dropWhile isSpace = []) :
    Cin.unsigned ⟨rest, false⟩ = (0, ⟨[], true⟩) := by
  simp only [Cin.unsigned, h, Bool.false_eq_true, if_false]

theorem word_of_text (h : rest.dropWhile isSpace = text) (hne : text ≠ []) :
    Cin.word ⟨rest, false⟩ = (text.takeWhile fun c => !isSpace c,
      ⟨text.dropWhile fun c => !isSpace c, false⟩) := by
  cases text with
  | nil => exact absurd rfl hne
  | cons c text => simp only [Cin.word, h, Bool.false_eq_true, if_false]

/-- A text without the sign at its start. -/
def withoutSign (text : Bytes) : Bytes :=
  match text with
  | [] => []
  | c :: rest => if c = 45 ∨ c = 43 then rest else c :: rest

theorem withoutSign_append (hne : u ≠ []) : withoutSign (u ++ tail) = withoutSign u ++ tail := by
  cases u with
  | nil => exact absurd rfl hne
  | cons c u =>
    show (if c = 45 ∨ c = 43 then u ++ tail else c :: (u ++ tail)) =
      (if c = 45 ∨ c = 43 then u else c :: u) ++ tail
    split_ifs <;> rfl

theorem unsigned_of_text (h : rest.dropWhile isSpace = text) (hne : text ≠ []) :
    Cin.unsigned ⟨rest, false⟩ =
      let digits := (withoutSign text).takeWhile isDigit
      let rest := (withoutSign text).dropWhile isDigit
      if digits = [] then (0, ⟨rest, true⟩)
      else
        let number := toUnsigned (text.head? = some 45) digits
        (number.1, ⟨rest, number.2⟩) := by
  cases text with
  | nil => exact absurd rfl hne
  | cons c text =>
    simp only [Cin.unsigned, h, Bool.false_eq_true, if_false, withoutSign, List.head?_cons,
      Option.some.injEq]

/-! ### The first word -/

theorem dropWhile_blank (hblank : ∀ c ∈ blank, isSpace c = true)
    (hu : ∀ c ∈ u, isSpace c = false) (hne : u ≠ []) :
    (blank ++ (u ++ tail)).dropWhile isSpace = u ++ tail := by
  cases u with
  | nil => exact absurd rfl hne
  | cons c u =>
    rw [List.dropWhile_append_of_pos hblank, List.cons_append]
    exact List.dropWhile_cons_of_neg (by simp [hu c List.mem_cons_self])

/-- `>>` into a string takes the first word. -/
theorem word_eq (hblank : ∀ c ∈ blank, isSpace c = true) (hu : ∀ c ∈ u, isSpace c = false)
    (hne : u ≠ []) (htail : ∀ c ∈ tail.head?, isSpace c = true) :
    Cin.word ⟨blank ++ (u ++ tail), false⟩ = (u, ⟨tail, false⟩) := by
  have hspan := span_append_of_head (p := fun c => !isSpace c) (x := u) (y := tail)
    fun c hc => by simp [htail c hc]
  have hall : ∀ c ∈ u, (!isSpace c) = true := fun c hc => by simp [hu c hc]
  rw [word_of_text (dropWhile_blank hblank hu hne) (by simp [hne]), hspan.1, hspan.2,
    List.takeWhile_eq_self_iff.mpr hall, List.dropWhile_eq_nil_iff.mpr hall]
  rfl

/-- The part of a word behind the number at its start, if that is an `unsigned int`. -/
def behindNumber (u : Bytes) : Option Bytes :=
  let digits := (withoutSign u).takeWhile isDigit
  if digits ≠ [] ∧ digitsValue digits < 2 ^ 32 then some ((withoutSign u).dropWhile isDigit)
  else none

/-- `>>` into a number takes the number at the start of the first word, or fails. -/
theorem unsigned_eq (hblank : ∀ c ∈ blank, isSpace c = true) (hu : ∀ c ∈ u, isSpace c = false)
    (hne : u ≠ []) (htail : ∀ c ∈ tail.head?, isSpace c = true) :
    match behindNumber u with
    | some v => Cin.unsigned ⟨blank ++ (u ++ tail), false⟩ =
      ((toUnsigned (u.head? = some 45) ((withoutSign u).takeWhile isDigit)).1, ⟨v ++ tail, false⟩)
    | none => (Cin.unsigned ⟨blank ++ (u ++ tail), false⟩).2.failed = true := by
  have hspan := span_append_of_head (p := isDigit) (x := withoutSign u) (y := tail) fun c hc => by
    by_contra hdigit
    have hspace := isSpace_of_isDigit (Bool.eq_true_of_not_eq_false hdigit)
    exact absurd ((htail c hc).symm.trans hspace) (by decide)
  have hhead : (u ++ tail).head? = u.head? := List.head?_append_of_ne_nil u hne
  rw [unsigned_of_text (dropWhile_blank hblank hu hne) (by simp [hne]), withoutSign_append hne,
    hspan.1, hspan.2, hhead]
  unfold behindNumber
  by_cases hdigits : (withoutSign u).takeWhile isDigit = []
  · simp only [hdigits, ne_eq, not_true_eq_false, false_and, if_true, if_false]
  · by_cases hvalue : digitsValue ((withoutSign u).takeWhile isDigit) < 2 ^ 32
    · simp only [hdigits, hvalue, toUnsigned, ne_eq, not_false_eq_true, and_self, if_true, if_false]
    · simp only [hdigits, hvalue, toUnsigned, and_false, if_false]

/-- What an extraction leaves: it fails, or takes more than the white space. -/
def Consumes (cin cin' : Cin) : Prop :=
  cin'.failed = true ∨
    cin.failed = false ∧ cin'.rest.length < (cin.rest.dropWhile isSpace).length

theorem consumes_word (cin : Cin) : Consumes cin cin.word.2 := by
  obtain ⟨rest, failed⟩ := cin
  cases failed with
  | true => exact Or.inl rfl
  | false =>
    rcases htext : rest.dropWhile isSpace with - | ⟨c, text⟩
    · rw [word_of_blank htext]
      exact Or.inl rfl
    · -- the first byte is taken
      have hc : (!isSpace c) = true := by
        have hhead := List.head?_dropWhile_not isSpace rest
        rw [htext] at hhead
        simpa using hhead
      have hlen := (List.dropWhile_suffix (l := text) fun c => !isSpace c).length_le
      rw [word_of_text htext (List.cons_ne_nil _ _),
        List.dropWhile_cons_of_pos (p := fun c => !isSpace c) hc]
      exact Or.inr ⟨rfl, by rw [htext, List.length_cons]; exact Nat.lt_succ_of_le hlen⟩

theorem length_withoutSign_le (text : Bytes) : (withoutSign text).length ≤ text.length := by
  cases text with
  | nil => exact le_rfl
  | cons c text =>
    show (if c = 45 ∨ c = 43 then text else c :: text).length ≤ (c :: text).length
    split_ifs
    · exact Nat.le_succ _
    · exact le_rfl

theorem consumes_unsigned (cin : Cin) : Consumes cin cin.unsigned.2 := by
  obtain ⟨rest, failed⟩ := cin
  cases failed with
  | true => exact Or.inl rfl
  | false =>
    by_cases htext : rest.dropWhile isSpace = []
    · rw [unsigned_of_blank htext]
      exact Or.inl rfl
    · rw [unsigned_of_text rfl htext]
      by_cases hdigits : (withoutSign (rest.dropWhile isSpace)).takeWhile isDigit = []
      · exact Or.inl (by simp only [hdigits, if_true])
      · have hsplit := congrArg List.length (List.takeWhile_append_dropWhile (p := isDigit)
          (l := withoutSign (rest.dropWhile isSpace)))
        have hpos := List.length_pos_of_ne_nil hdigits
        have hsign := length_withoutSign_le (rest.dropWhile isSpace)
        rw [List.length_append] at hsplit
        refine Or.inr ⟨rfl, ?_⟩
        simp only [hdigits, if_false]
        omega

/-! ### The reads and the words of the lines -/

/-- Where the stream is between the typed lines and the text behind them: in front of
some of the words of the lines, or beyond all of them or failed. -/
inductive Reads (rest : Bytes) : Option (List Bytes) → Cin → Prop
  | before {text : Bytes} {ws : List Bytes} :
      (∀ c ∈ text.getLast?, isSpace c = true) → wordsBy isSpace text = ws →
        Reads rest (some ws) ⟨text ++ rest, false⟩
  | beyond {cin : Cin} : cin.rest.length < (rest.dropWhile isSpace).length → Reads rest none cin
  | failed {cin : Cin} : cin.failed = true → Reads rest none cin

variable {left : Option (List Bytes)} {ws : List Bytes}

/-- The next word of the lines; any part of it may be put back. -/
theorem Reads.exists_word (h : Reads rest (some (u :: ws)) cin) :
    ∃ blank tail, cin = ⟨blank ++ (u ++ (tail ++ rest)), false⟩ ∧
      (∀ c ∈ blank, isSpace c = true) ∧ (∀ c ∈ u, isSpace c = false) ∧ u ≠ [] ∧
      (∀ c ∈ (tail ++ rest).head?, isSpace c = true) ∧
      ∀ v, (∀ c ∈ v, isSpace c = false) →
        Reads rest (some (wordsBy isSpace v ++ ws)) ⟨v ++ (tail ++ rest), false⟩ := by
  cases h with
  | @before text ws' hend hws =>
  rcases exists_firstWord (p := isSpace) text with ⟨hnil, -⟩ |
    ⟨blank, w, tail, rfl, hblank, hne, hw, htail, hwords⟩
  · rw [hnil] at hws
    cases hws
  obtain ⟨rfl, rfl⟩ := List.cons.inj (hws.symm.trans hwords)
  cases tail with
  | nil =>
    -- the lines would end in the word
    rw [List.append_nil, List.getLast?_append_of_ne_nil _ hne,
      List.getLast?_eq_getLast_of_ne_nil hne] at hend
    exact absurd ((hend _ rfl).symm.trans (hw _ (List.getLast_mem hne))) (by decide)
  | cons c tail =>
    have hc : isSpace c = true := htail c rfl
    refine ⟨blank, c :: tail, by simp, hblank, hw, hne, htail, fun v _ => ?_⟩
    rw [← List.append_assoc]
    refine .before ?_ (by rw [wordsBy_append_cons hc, wordsBy_cons hc])
    rw [List.getLast?_append_of_ne_nil _ (List.cons_ne_nil _ _)]
    rwa [← List.append_assoc, List.getLast?_append_of_ne_nil _ (List.cons_ne_nil _ _)] at hend

/-- No word is left: only white space stands before the text behind the lines. -/
theorem Reads.exists_blank (h : Reads rest (some []) cin) :
    ∃ blank, cin = ⟨blank ++ rest, false⟩ ∧ ∀ c ∈ blank, isSpace c = true := by
  cases h with
  | @before text ws' hend hws =>
  rcases exists_firstWord (p := isSpace) text with ⟨-, hblank⟩ | ⟨_, _, _, -, -, -, -, -, hwords⟩
  · exact ⟨text, rfl, hblank⟩
  · rw [hwords] at hws
    cases hws

/-- Without a word of the lines in front of it, an extraction goes beyond them. -/
theorem Reads.consumes {cin' : Cin} (h : Reads rest left cin) (hleft : left = none ∨ left = some [])
    (hfailed : cin.failed = true → cin'.failed = true) (hcin : Consumes cin cin') :
    Reads rest none cin' := by
  rcases hcin with hfail | ⟨-, hlen⟩
  · exact .failed hfail
  rcases hleft with rfl | rfl
  · cases h with
    | beyond hbeyond =>
      have hle := (List.dropWhile_suffix (l := cin.rest) isSpace).length_le
      exact .beyond (by omega)
    | failed h => exact .failed (hfailed h)
  · obtain ⟨blank, rfl, hblank⟩ := h.exists_blank
    refine .beyond (lt_of_lt_of_eq hlen ?_)
    rw [List.dropWhile_append_of_pos hblank]

theorem Reads.word_fst (h : Reads rest (some (u :: ws)) cin) : cin.word.1 = u := by
  obtain ⟨blank, tail, rfl, hblank, hu, hne, htail, -⟩ := h.exists_word
  rw [word_eq hblank hu hne htail]

/-- **A word is one word less.** -/
theorem Reads.word (h : Reads rest left cin) :
    Reads rest (left.bind List.tail?) cin.word.2 := by
  have hfailed : cin.failed = true → cin.word.2.failed = true := fun hf => by
    rwa [word_of_failed hf]
  match left, h with
  | none, h => exact h.consumes (Or.inl rfl) hfailed (consumes_word cin)
  | some [], h => exact h.consumes (Or.inr rfl) hfailed (consumes_word cin)
  | some (u :: ws), h =>
    obtain ⟨blank, tail, rfl, hblank, hu, hne, htail, hback⟩ := h.exists_word
    rw [word_eq hblank hu hne htail]
    simpa using hback [] (fun _ h => absurd h List.not_mem_nil)

/-- The words behind a number. -/
def behindNumbers (ws : List Bytes) : Option (List Bytes) :=
  match ws with
  | [] => none
  | u :: ws => (behindNumber u).map fun v => wordsBy isSpace v ++ ws

theorem behindNumber_sublist {v : Bytes} (h : behindNumber u = some v) : ∀ c ∈ v, c ∈ u := by
  simp only [behindNumber] at h
  split_ifs at h
  obtain rfl := Option.some.inj h
  intro c hc
  have hmem := (List.dropWhile_suffix isDigit).subset hc
  cases u with
  | nil => exact hmem
  | cons b u =>
    have hsign : c ∈ if b = 45 ∨ b = 43 then u else b :: u := hmem
    split_ifs at hsign
    · exact List.mem_cons_of_mem b hsign
    · exact hsign

/-- **A number is the start of a word**, and the end of all reading if it is none. -/
theorem Reads.unsigned (h : Reads rest left cin) :
    Reads rest (left.bind behindNumbers) cin.unsigned.2 := by
  have hfailed : cin.failed = true → cin.unsigned.2.failed = true := fun hf => by
    rwa [unsigned_of_failed hf]
  match left, h with
  | none, h => exact h.consumes (Or.inl rfl) hfailed (consumes_unsigned cin)
  | some [], h => exact h.consumes (Or.inr rfl) hfailed (consumes_unsigned cin)
  | some (u :: ws), h =>
    obtain ⟨blank, tail, rfl, hblank, hu, hne, htail, hback⟩ := h.exists_word
    have hread := unsigned_eq hblank hu hne htail
    show Reads rest ((behindNumber u).map fun v => wordsBy isSpace v ++ ws) _
    cases hv : behindNumber u with
    | none =>
      rw [hv] at hread
      exact .failed hread
    | some v =>
      rw [hv] at hread
      rw [hread]
      exact hback v fun c hc => hu c (behindNumber_sublist hv c hc)

theorem Reads.word_of_nil (h : Reads rest (some []) cin) (hrest : rest.dropWhile isSpace ≠ []) :
    cin.word = Cin.word ⟨rest, false⟩ := by
  obtain ⟨blank, rfl, hblank⟩ := h.exists_blank
  have hsame : (blank ++ rest).dropWhile isSpace = rest.dropWhile isSpace :=
    List.dropWhile_append_of_pos hblank
  rw [word_of_text hsame hrest, word_of_text rfl hrest]

/-- In front of a word of the lines, more is left than the word behind them leaves. -/
theorem Reads.word_ne_of_cons (h : Reads rest (some (u :: ws)) cin) :
    cin.word ≠ Cin.word ⟨rest, false⟩ := by
  intro heq
  obtain ⟨blank, tail, rfl, hblank, hu, hne, htail, -⟩ := h.exists_word
  rw [word_eq hblank hu hne htail] at heq
  have hle := (List.dropWhile_suffix (l := rest) isSpace).length_le
  rcases consumes_word ⟨rest, false⟩ with hfail | ⟨-, hlen⟩
  · rw [← heq] at hfail
    cases hfail
  · rw [← heq] at hlen
    simp only [List.length_append] at hlen
    omega

/-- Beyond the lines, the word behind them cannot be read any more. -/
theorem Reads.word_ne_of_none (h : Reads rest none cin) (hrest : rest.dropWhile isSpace ≠ []) :
    cin.word ≠ Cin.word ⟨rest, false⟩ := by
  intro heq
  have hnext : cin.word.2.failed = false := by
    rw [heq, word_of_text rfl hrest]
  obtain ⟨rest', failed⟩ := cin
  have hfailed : failed = false := by
    by_contra hf
    have hword : Cin.word ⟨rest', failed⟩ = ([], ⟨rest', failed⟩) :=
      word_of_failed (Bool.eq_true_of_not_eq_false hf)
    rw [hword] at hnext
    exact hf hnext
  subst hfailed
  have htext : rest'.dropWhile isSpace ≠ [] := by
    intro hnil
    rw [word_of_blank hnil] at hnext
    cases hnext
  -- the word and what is behind it make up the text
  rw [word_of_text rfl htext, word_of_text rfl hrest] at heq
  have hparts := congrArg (fun read : Bytes × Cin => read.1 ++ read.2.rest) heq
  simp only [List.takeWhile_append_dropWhile] at hparts
  cases h with
  | failed hfail => cases hfail
  | beyond hbeyond =>
    have hle := (List.dropWhile_suffix (l := rest') isSpace).length_le
    rw [← hparts] at hbeyond
    exact absurd hbeyond (Nat.not_lt.mpr hle)

/-- **The next word is the one behind the lines** iff none of theirs is left. -/
theorem Reads.word_eq_iff (h : Reads rest left cin) (hrest : rest.dropWhile isSpace ≠ []) :
    cin.word = Cin.word ⟨rest, false⟩ ↔ left = some [] := by
  match left, h with
  | some [], h => exact iff_of_true (h.word_of_nil hrest) rfl
  | some (u :: ws), h => exact iff_of_false h.word_ne_of_cons (by simp)
  | none, h => exact iff_of_false (h.word_ne_of_none hrest) (by simp)

/-! ### The form of a book -/

/-- The lines typed at the prompts of `read_book`. -/
structure BookLines where
  title : Bytes
  author : Bytes
  genre : Bytes
  pageCount : Bytes
  publisher : Bytes
  oneLine : ∀ line ∈ [title, author, genre, pageCount, publisher], 10 ∉ line

namespace BookLines

variable (b : BookLines)

def lines : List Bytes := [b.title, b.author, b.genre, b.pageCount, b.publisher]

/-- The lines as they are typed. -/
def typed : Bytes := b.lines.flatMap fun line => line ++ [10]

/-- None is empty, and the page count is a decimal number for an `unsigned int`. -/
structure Regular : Prop where
  nonempty : ∀ line ∈ b.lines, line ≠ []
  digits : ∀ c ∈ b.pageCount, isDigit c = true
  inRange : digitsValue b.pageCount < 2 ^ 32

/-- The form with the lines as its members. -/
def form : Form :=
  [(ascii "title", .text b.title), (ascii "author", .text b.author),
    (ascii "genre", .text b.genre),
    (ascii "page_count", .number (UInt32.ofNat (digitsValue b.pageCount))),
    (ascii "publisher", .text b.publisher)]

/-- The four lines that are no number have no white space. -/
def Spaceless : Prop :=
  ∀ line ∈ [b.title, b.author, b.genre, b.publisher], ∀ c ∈ line, isSpace c = false

end BookLines

/-- The number at the start of a word. -/
def numberIn (u : Bytes) : UInt32 :=
  (toUnsigned (u.head? = some 45) ((withoutSign u).takeWhile isDigit)).1

/-- The words answer the prompts of `read_book` with the members of the form: three words,
a fourth that starts with a number, and then exactly one, be it the rest of the fourth. -/
def FitsForm (ws : List Bytes) (form : Form) : Prop :=
  ∃ title author genre pages more v publisher,
    ws = title :: author :: genre :: pages :: more ∧ behindNumber pages = some v ∧
      wordsBy isSpace v ++ more = [publisher] ∧
      form = [(ascii "title", .text title), (ascii "author", .text author),
        (ascii "genre", .text genre), (ascii "page_count", .number (numberIn pages)),
        (ascii "publisher", .text publisher)]

theorem wordsBy_lines (lines : List Bytes) :
    wordsBy isSpace (lines.flatMap fun line => line ++ [10]) = lines.flatMap (wordsBy isSpace) := by
  induction lines with
  | nil => exact wordsBy_nil
  | cons line lines ih =>
    rw [List.flatMap_cons, List.flatMap_cons, List.append_assoc, ← ih]
    exact wordsBy_append_cons (by decide) line _

/-- The number at the start of the next word, if there is one. -/
theorem Reads.unsigned_fst {v : Bytes} (h : Reads rest (some (u :: ws)) cin)
    (hv : behindNumber u = some v) : cin.unsigned.1 = numberIn u := by
  obtain ⟨blank, tail, rfl, hblank, hu, hne, htail, -⟩ := h.exists_word
  have hread := unsigned_eq hblank hu hne htail
  rw [hv] at hread
  rw [hread]
  rfl

/-- **`read_book` is back in front of the text behind the lines** iff their words fit the
form, which is then the one it returns. -/
theorem Reads.readBook (h : Reads rest (some ws) cin) :
    ∃ left, Reads rest left (readBook cin).2 ∧
      ∀ form, FitsForm ws form ↔ left = some [] ∧ (readBook cin).1 = form := by
  refine ⟨_, h.word.word.word.unsigned.word, fun form => ?_⟩
  match ws with
  | [] | [_] | [_, _] | [_, _, _] =>
    refine iff_of_false ?_ (fun hnone => nomatch hnone.1)
    rintro ⟨_, _, _, _, _, _, _, hws, -⟩
    simp at hws
  | title :: author :: genre :: pages :: more =>
    show _ ↔ ((behindNumber pages).map fun v => wordsBy isSpace v ++ more).bind List.tail? =
      some [] ∧ _
    have hpages := h.word.word.word
    -- the members as far as the number
    have hform {v : Bytes} {publisher : Bytes} (hv : behindNumber pages = some v)
        (hlast : wordsBy isSpace v ++ more = [publisher]) :
        (Http.readBook cin).1 = [(ascii "title", .text title), (ascii "author", .text author),
          (ascii "genre", .text genre), (ascii "page_count", .number (numberIn pages)),
          (ascii "publisher", .text publisher)] := by
      have hleft : ((some (pages :: more)).bind behindNumbers) = some [publisher] := by
        show (behindNumber pages).map _ = _
        rw [hv, Option.map_some, hlast]
      have hpublisher := (hleft ▸ hpages.unsigned).word_fst
      simp only [Http.readBook, List.cons.injEq, Prod.mk.injEq, FormValue.text.injEq,
        FormValue.number.injEq, true_and, and_true]
      exact ⟨h.word_fst, h.word.word_fst, h.word.word.word_fst, hpages.unsigned_fst hv, hpublisher⟩
    constructor
    · rintro ⟨_, _, _, _, _, v, publisher, hws, hv, hlast, rfl⟩
      simp only [List.cons.injEq] at hws
      obtain ⟨rfl, rfl, rfl, rfl, rfl⟩ := hws
      refine ⟨?_, hform hv hlast⟩
      rw [hv, Option.map_some, hlast]
      rfl
    · rintro ⟨hleft, rfl⟩
      obtain ⟨l, hmap, hlast⟩ := Option.bind_eq_some_iff.mp hleft
      obtain ⟨v, hv, rfl⟩ := Option.map_eq_some_iff.mp hmap
      obtain ⟨publisher, hpublisher⟩ : ∃ publisher, wordsBy isSpace v ++ more = [publisher] := by
        cases hwords : wordsBy isSpace v ++ more with
        | nil => simp [hwords] at hlast
        | cons publisher l =>
          rw [hwords] at hlast
          exact ⟨publisher, congrArg _ (Option.some.inj hlast)⟩
      exact ⟨title, author, genre, pages, more, v, publisher, rfl, hv, hpublisher,
        hform hv hpublisher⟩

theorem word_spaceless (cin : Cin) : ∀ c ∈ cin.word.1, isSpace c = false := by
  obtain ⟨rest, failed⟩ := cin
  cases failed with
  | true => exact fun c hc => absurd hc List.not_mem_nil
  | false =>
    by_cases htext : rest.dropWhile isSpace = []
    · rw [word_of_blank htext]
      exact fun c hc => absurd hc List.not_mem_nil
    · rw [word_of_text rfl htext]
      intro c hc
      simpa using List.mem_takeWhile_imp hc

theorem withoutSign_digits (hdigits : ∀ c ∈ u, isDigit c = true) :
    withoutSign u = u ∧ u.head? ≠ some 45 := by
  cases u with
  | nil => exact ⟨rfl, fun h => nomatch h⟩
  | cons c u =>
    have hc := hdigits c List.mem_cons_self
    have hminus : c ≠ 45 := by
      rintro rfl
      exact absurd hc (by decide)
    have hplus : c ≠ 43 := by
      rintro rfl
      exact absurd hc (by decide)
    exact ⟨if_neg fun h => h.elim hminus hplus, fun h => hminus (Option.some.inj h)⟩

theorem takeWhile_digits (hdigits : ∀ c ∈ u, isDigit c = true) :
    (withoutSign u).takeWhile isDigit = u := by
  rw [(withoutSign_digits hdigits).1, List.takeWhile_eq_self_iff.mpr hdigits]

theorem behindNumber_digits (hdigits : ∀ c ∈ u, isDigit c = true) (hne : u ≠ [])
    (hrange : digitsValue u < 2 ^ 32) : behindNumber u = some [] := by
  show (if _ ∧ _ then _ else _) = _
  rw [takeWhile_digits hdigits, if_pos ⟨hne, hrange⟩, (withoutSign_digits hdigits).1,
    List.dropWhile_eq_nil_iff.mpr hdigits]

theorem numberIn_digits (hdigits : ∀ c ∈ u, isDigit c = true) (hrange : digitsValue u < 2 ^ 32) :
    numberIn u = UInt32.ofNat (digitsValue u) := by
  rw [numberIn, takeWhile_digits hdigits, toUnsigned, if_pos hrange,
    decide_eq_false (withoutSign_digits hdigits).2]
  rfl

/-- **The form holds the lines** iff each is one word. -/
theorem readBook_eq_form_iff {b : BookLines} (hb : b.Regular)
    (h : Reads rest (some (wordsBy isSpace b.typed)) cin) :
    (readBook cin).1 = b.form ↔ b.Spaceless := by
  constructor
  · intro hform
    simp only [readBook, BookLines.form, List.cons.injEq, Prod.mk.injEq, FormValue.text.injEq,
      true_and, and_true] at hform
    obtain ⟨htitle, hauthor, hgenre, -, hpublisher⟩ := hform
    intro line hline
    simp only [List.mem_cons, List.not_mem_nil, or_false] at hline
    rcases hline with rfl | rfl | rfl | rfl
    · exact htitle ▸ word_spaceless _
    · exact hauthor ▸ word_spaceless _
    · exact hgenre ▸ word_spaceless _
    · exact hpublisher ▸ word_spaceless _
  · intro hspaceless
    have hword : ∀ line ∈ b.lines, wordsBy isSpace line = [line] := by
      intro line hline
      refine wordsBy_word (fun c hc => ?_) (hb.nonempty line hline)
      by_cases hpages : line = b.pageCount
      · exact isSpace_of_isDigit (hb.digits c (hpages ▸ hc))
      · refine hspaceless line ?_ c hc
        simpa [BookLines.lines, hpages] using hline
    have hwords : wordsBy isSpace b.typed = b.lines := by
      rw [BookLines.typed, wordsBy_lines, List.flatMap_congr hword, List.flatMap_singleton']
    rw [hwords] at h
    have hbehind := behindNumber_digits hb.digits (hb.nonempty _ (by simp [BookLines.lines]))
      hb.inRange
    have hlast : wordsBy isSpace [] ++ [b.publisher] = [b.publisher] := by rw [wordsBy_nil]; rfl
    obtain ⟨left, -, hfits⟩ := h.readBook
    rw [((hfits _).mp ⟨_, _, _, _, _, _, _, rfl, hbehind, hlast, rfl⟩).2,
      numberIn_digits hb.digits hb.inRange]
    rfl

/-! ### The command and the line behind the form -/

/-- The client in front of an `add_book`, its form, and a text behind that. -/
def addBookTyped (b : BookLines) (s : Session) (rest : Bytes) : Client :=
  ⟨⟨ascii "add_book\n" ++ (b.typed ++ rest), false⟩, s⟩

/-- The first word of a line, and what stands behind it. -/
def firstWord (line : Bytes) : Bytes := (line.dropWhile isSpace).takeWhile fun c => !isSpace c
def behindFirstWord (line : Bytes) : Bytes := (line.dropWhile isSpace).dropWhile fun c => !isSpace c

/-- The form holds the lines, and `main` comes to read a next command, which is the first
word of the next line. -/
structure Aligned (J : Json) (w : World) (s : Session) (b : BookLines) (line more : Bytes) :
    Prop where
  book : b.Regular →
    (readBook (addBookTyped b s (line ++ 10 :: more)).cin.word.2).1 = b.form
  command : ∃ c, (addBookTyped b s (line ++ 10 :: more)).next J w = some c ∧
    c.cin.word = (firstWord line, ⟨behindFirstWord line ++ 10 :: more, false⟩)

/-- No `read` of a response fails, and `parse` throws nothing on it that is not caught. -/
def World.Answers (J : Json) (w : World) : Prop :=
  ∃ response, w.received = .ok response ∧ ¬ J.ThrowsOther response

theorem word_line {line more : Bytes} (hline : firstWord line ≠ []) :
    Cin.word ⟨line ++ 10 :: more, false⟩ =
      (firstWord line, ⟨behindFirstWord line ++ 10 :: more, false⟩) := by
  have hne : line.dropWhile isSpace ≠ [] := by
    intro hnil
    rw [firstWord, hnil] at hline
    exact hline rfl
  have htext : (line ++ 10 :: more).dropWhile isSpace = line.dropWhile isSpace ++ 10 :: more := by
    rw [List.dropWhile_append, if_neg fun h => hne (List.isEmpty_iff.mp h)]
  have hspan := span_append_of_head (p := fun c => !isSpace c) (x := line.dropWhile isSpace)
    (y := 10 :: more) fun c hc => by rw [← Option.some.inj hc]; rfl
  rw [word_of_text htext (by simp), hspan.1, hspan.2]
  rfl

theorem word_addBookTyped (b : BookLines) (s : Session) (rest : Bytes) :
    (addBookTyped b s rest).cin.word = (ascii "add_book", ⟨10 :: (b.typed ++ rest), false⟩) := by
  have htyped : (addBookTyped b s rest).cin =
      ⟨[] ++ (ascii "add_book" ++ 10 :: (b.typed ++ rest)), false⟩ := by
    have hline : ascii "add_book\n" = ascii "add_book" ++ [10] := by decide
    rw [addBookTyped, hline, List.append_assoc]
    rfl
  rw [htyped]
  have hword : ∀ c ∈ ascii "add_book", isSpace c = false := by decide +kernel
  refine word_eq (fun c hc => absurd hc List.not_mem_nil) hword (by decide) fun c hc => ?_
  rw [← Option.some.inj hc]
  rfl

/-- **When `main` goes round again**: the form can be dumped, and nothing ends the client at
the response.  The stream is then where `read_book` leaves it. -/
theorem next_addBookTyped_iff (J : Json) (w : World) (b : BookLines) {s : Session} (rest : Bytes)
    (hs : s.jwtToken ≠ []) {c : Client} : (addBookTyped b s rest).next J w = some c ↔
      (J.dump (readBook ⟨10 :: (b.typed ++ rest), false⟩).1).isSome = true ∧ w.Answers J ∧
        c = ⟨(readBook ⟨10 :: (b.typed ++ rest), false⟩).2, s⟩ := by
  set cin : Cin := ⟨10 :: (b.typed ++ rest), false⟩
  have hallowed : Command.addBook.Allowed s := hs
  have hturn : ((addBookTyped b s rest).turn J w).2 = Command.addBook.run J w cin s := by
    rw [Client.turn, word_addBookTyped]
    rfl
  have hcin : ((addBookTyped b s rest).turn J w).2.cin = (readBook cin).2 := by
    rw [hturn, Command.run_cin hallowed]
    rfl
  have hdump : (Command.addBook.request J cin s).1.isSome = (J.dump (readBook cin).1).isSome :=
    Option.isSome_map
  constructor
  · intro hnext
    obtain ⟨code, hresult⟩ := Client.next_eq_some hnext
    have hresult' := hresult
    rw [hturn] at hresult'
    obtain ⟨hsome, response, hreceived, heffect⟩ :=
      (Command.result_eq_ok_iff hallowed).mp hresult'
    have hgood := exists_effect_iff.mp ⟨code, c.session, heffect⟩
    rw [Client.next_of_result hresult heffect.ne_killClient, hcin,
      ← ((effect_iff (by decide)).mp heffect).1] at hnext
    exact ⟨hdump ▸ hsome, ⟨response, hreceived, fun hother => hgood (Or.inl hother)⟩,
      (Option.some.inj hnext).symm⟩
  · rintro ⟨hsome, ⟨response, hreceived, hgood⟩, rfl⟩
    have hgood' : ¬ (J.ThrowsOther response ∨ Command.addBook = .enterLibrary ∧
        J.BadToken response) := by simpa using hgood
    obtain ⟨code, s', heffect⟩ := (exists_effect_iff (s := s)).mpr hgood'
    obtain rfl := ((effect_iff (by decide)).mp heffect).1
    have hresult : (Command.addBook.run J w cin s).result = .ok (code, s) :=
      (Command.result_eq_ok_iff hallowed).mpr
        ⟨hdump.trans hsome, response, hreceived, heffect⟩
    rw [← hturn] at hresult
    rw [Client.next_of_result hresult heffect.ne_killClient, hcin]

/-- Before the first prompt the stream is in front of all the words of the lines. -/
theorem Reads.typed (b : BookLines) (rest : Bytes) :
    Reads rest (some (wordsBy isSpace b.typed)) ⟨10 :: (b.typed ++ rest), false⟩ := by
  have hlast : b.typed = (b.title ++ 10 :: (b.author ++ 10 :: (b.genre ++ 10 ::
      (b.pageCount ++ 10 :: b.publisher)))) ++ [10] := by
    simp [BookLines.typed, BookLines.lines]
  show Reads rest _ ⟨(10 :: b.typed) ++ rest, false⟩
  refine .before (fun c hc => ?_) (wordsBy_cons (by decide) _)
  rw [hlast, ← List.cons_append, List.getLast?_concat] at hc
  rw [← Option.some.inj hc]
  rfl

/-- **When the form and its lines agree**: as far as the lines are what was asked for, each
is one word; the words of all of them answer the five prompts with a form that can be
dumped; and nothing ends the client at the response. -/
theorem aligned_iff (J : Json) (w : World) {s : Session} (b : BookLines) {line more : Bytes}
    (hs : s.jwtToken ≠ []) (hline : firstWord line ≠ []) :
    Aligned J w s b line more ↔
      (b.Regular → b.Spaceless) ∧
        (∃ form, FitsForm (wordsBy isSpace b.typed) form ∧ (J.dump form).isSome = true) ∧
        w.Answers J := by
  have hreads := Reads.typed b (line ++ 10 :: more)
  obtain ⟨left, hleft, hfits⟩ := hreads.readBook
  have hrest : (line ++ 10 :: more).dropWhile isSpace ≠ [] := by
    intro hnil
    have hword := (word_of_blank hnil).symm.trans (word_line hline)
    exact hline (Prod.mk.inj hword).1.symm
  have hbook : (addBookTyped b s (line ++ 10 :: more)).cin.word.2 =
      ⟨10 :: (b.typed ++ (line ++ 10 :: more)), false⟩ := by
    rw [word_addBookTyped]
  have hcommand := hleft.word_eq_iff hrest
  rw [word_line hline] at hcommand
  constructor
  · rintro ⟨hform, c, hnext, hword⟩
    rw [hbook] at hform
    obtain ⟨hdump, hanswers, rfl⟩ := (next_addBookTyped_iff J w b _ hs).mp hnext
    exact ⟨fun hb => (readBook_eq_form_iff hb hreads).mp (hform hb),
      ⟨_, (hfits _).mpr ⟨hcommand.mp hword, rfl⟩, hdump⟩, hanswers⟩
  · rintro ⟨hspaceless, ⟨form, hwords, hdump⟩, hanswers⟩
    obtain ⟨hnil, rfl⟩ := (hfits form).mp hwords
    refine ⟨fun hb => ?_, _, (next_addBookTyped_iff J w b _ hs).mpr ⟨hdump, hanswers, rfl⟩,
      hcommand.mpr hnil⟩
    rw [hbook]
    exact (readBook_eq_form_iff hb hreads).mpr (hspaceless hb)

/-- Five words on five lines. -/
def dune : BookLines :=
  ⟨ascii "Dune", ascii "Herbert", ascii "novel", ascii "412", ascii "Ace", by decide +kernel⟩

/-- A user who has entered the library. -/
def reader : Session := ⟨[], ascii "token", true⟩

/-- A server that answers nothing. -/
def silent : World := .answering ⟨[], by decide⟩

theorem aligned_iff_dune : Aligned (.ofTable []) silent reader dune (ascii "exit") [] := by
  have hwords : wordsBy isSpace dune.typed = dune.lines := by decide +kernel
  have hlast : wordsBy isSpace [] ++ [dune.publisher] = [dune.publisher] := by rw [wordsBy_nil]; rfl
  refine (aligned_iff (.ofTable []) silent dune (by decide) (by decide)).mpr ⟨fun _ => ?_,
    ⟨dune.form, ?_, by decide +kernel⟩, [], by decide +kernel, ?_⟩
  · unfold BookLines.Spaceless
    decide +kernel
  · exact ⟨dune.title, dune.author, dune.genre, dune.pageCount, [dune.publisher], [],
      dune.publisher, hwords, by decide +kernel, hlast, by decide +kernel⟩
  · rintro ⟨data, hdata, -⟩
    have hnone : extractJsonResponse [] = none := by decide +kernel
    rw [hnone] at hdata
    cases hdata

/-- A title of three words. -/
def warAndPeace : BookLines :=
  ⟨ascii "War and Peace", ascii "Tolstoy", ascii "novel", ascii "1225", ascii "Vintage",
    by decide +kernel⟩

/-- The form is wrong, and the author, taken for the page count, ends all reading. -/
theorem not_aligned_warAndPeace : warAndPeace.Regular ∧
    ¬ Aligned (.ofTable []) silent reader warAndPeace (ascii "exit") [] ∧
      ((addBookTyped warAndPeace reader (ascii "exit\n")).next (.ofTable []) silent).map
        (fun c => c.cin.failed) = some true := by
  have hregular : warAndPeace.Regular :=
    ⟨by decide +kernel, by decide +kernel, by decide +kernel⟩
  refine ⟨hregular, fun h => ?_, by decide +kernel⟩
  exact absurd (h.book hregular) (by decide +kernel)

/-- **Nothing clears the fail bit**: `main` goes round with empty commands, and `exit` is
never read. -/
theorem Client.next_of_failed {c : Client} (h : c.cin.failed = true) (J : Json) (w : World) :
    c.next J w = some c := by
  have hturn : c.turn J w = ([], ⟨[], c.cin, .ok (exitFailure, c.session)⟩) := by
    rw [Client.turn, word_of_failed h]
    rfl
  rw [Client.next, hturn]
  rfl

end TemePCom.Http
