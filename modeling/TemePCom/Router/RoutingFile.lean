/-
TemePCom/Router/RoutingFile.lean

The routing file (skel.c): `read_rtable` and the C functions under it.

`fgets` takes at most 63 bytes of the file, so a longer line arrives in pieces, and every
piece is a row of its own.  `strtok` cuts a piece at blanks and dots; the word with index
`i` is stored into the byte `i % 4` of the field that `i / 4` selects, the word 12 into
the interface, and words beyond are skipped.  A row whose line has fewer words keeps what
the memory held (`rtable` comes from `malloc`).

Whatever the file, row `k` is the old row with the words of the piece `k` over it, and the
only fault is a word for a row outside the table (`readRtable_eq`).  A table written out
as text is read back as it is (`readRtable_text`).
-/
import TemePCom.Lib.Decimal
import TemePCom.Router.RouterFuns

namespace TemePCom.Router

open Decimal Words

/-! ### The C library -/

/-- `atoi`: `strtol` in base 10 as an `int`. -/
def atoi (s : List UInt8) : Int32 := Int32.ofInt (strtol s)

/-- The bytes `fgets(line, n + 1, fp)` takes: at most `n`, and none behind a newline. -/
def linePiece : ℕ → List UInt8 → List UInt8
  | 0, _ => []
  | _ + 1, [] => []
  | n + 1, c :: rest => if c = 10 then [c] else c :: linePiece n rest

/-- `fgets(line, sizeof(line), fp)` with `char line[64]`: the piece, and the rest of the
file; `none` is its `NULL`. -/
def fgets (file : List UInt8) : Option (List UInt8 × List UInt8) :=
  if file = [] then none else some (linePiece 63 file, file.drop (linePiece 63 file).length)

/-- The C string in a piece of memory. -/
def cString (memory : List UInt8) : List UInt8 := memory.takeWhile (· ≠ 0)

/-- The delimiters of `strtok(…, " .")`. -/
def isDelim (c : UInt8) : Bool := c = 32 ∨ c = 46

/-- `strtok(…, " .")`: the next word, and what follows its delimiter. -/
def strtok (rest : List UInt8) : Option (List UInt8 × List UInt8) :=
  let s := rest.dropWhile isDelim
  if s = [] then none
  else some (s.takeWhile (!isDelim ·), (s.dropWhile (!isDelim ·)).drop 1)

theorem head_of_dropWhile {text s : List UInt8} {c : UInt8}
    (h : text.dropWhile isDelim = c :: s) : isDelim c = false := by
  have hhead := List.head?_dropWhile_not isDelim text
  rw [h] at hhead
  simpa using hhead

theorem length_linePiece_pos {n : ℕ} {file : List UInt8} (hn : 0 < n) (h : file ≠ []) :
    0 < (linePiece n file).length := by
  obtain ⟨c, rest, rfl⟩ := List.exists_cons_of_ne_nil h
  obtain ⟨n, rfl⟩ := Nat.exists_eq_succ_of_ne_zero hn.ne'
  rw [linePiece]
  split_ifs <;> simp

theorem length_lt_of_fgets {file line rest : List UInt8} (h : fgets file = some (line, rest)) :
    rest.length < file.length := by
  unfold fgets at h
  split_ifs at h with hnil
  obtain ⟨-, rfl⟩ := Prod.mk.inj (Option.some.inj h)
  have := length_linePiece_pos (n := 63) (by decide) hnil
  have := List.length_pos_iff.mpr hnil
  rw [List.length_drop]
  omega

theorem length_lt_of_strtok {text word rest : List UInt8} (h : strtok text = some (word, rest)) :
    rest.length < text.length := by
  unfold strtok at h
  simp only at h
  split_ifs at h with hnil
  obtain ⟨-, rfl⟩ := Prod.mk.inj (Option.some.inj h)
  obtain ⟨c, s, hs⟩ := List.exists_cons_of_ne_nil hnil
  have hc : isDelim c = false := head_of_dropWhile hs
  have hle := (List.dropWhile_suffix (l := text) isDelim).length_le
  have hle' := (List.dropWhile_suffix (l := s) (!isDelim ·)).length_le
  rw [hs] at hle ⊢
  rw [List.dropWhile_cons_of_pos (by simp [hc]), List.length_drop]
  rw [List.length_cons] at hle
  omega

/-! ### `read_rtable` -/

/-- `struct route_table_entry` in memory: the bytes of its addresses, in the order of the
file. -/
structure RtableRow where
  pref : Fin 4 → UInt8
  nextHop : Fin 4 → UInt8
  mask : Fin 4 → UInt8
  interface : Int32

/-- `(unsigned char) atoi(p)`. -/
def atoiByte (p : List UInt8) : UInt8 := UInt8.ofNat ((atoi p).toInt % 256).toNat

/-- `i % 4` as the index of a byte. -/
def byteIndex (i : ℕ) : Fin 4 := ⟨i % 4, Nat.mod_lt i (by decide)⟩

/-- What the loop does with the word `p` of index `i`. -/
def RtableRow.storeWord (r : RtableRow) (i : ℕ) (p : List UInt8) : RtableRow :=
  if i < 4 then { r with pref := Function.update r.pref (byteIndex i) (atoiByte p) }
  else if 4 ≤ i ∧ i < 8 then
    { r with nextHop := Function.update r.nextHop (byteIndex i) (atoiByte p) }
  else if 8 ≤ i ∧ i < 12 then { r with mask := Function.update r.mask (byteIndex i) (atoiByte p) }
  else if i = 12 then { r with interface := atoi p }
  else r

/-- `while (p != NULL)` over the words of a line, from index `i` on. -/
def readWords (r : RtableRow) (i : ℕ) (text : List UInt8) : RtableRow :=
  match _h : strtok text with
  | none => r
  | some (p, rest) => readWords (r.storeWord i p) (i + 1) rest
termination_by text.length
decreasing_by exact length_lt_of_strtok _h

/-- `while (fgets(…) != NULL)`, from row `j` on.  A row outside the table is not touched
where its line has no words.  The `int j` of the source would overflow at the 2^31st piece;
here it is a number. -/
def readLines (file : List UInt8) (j : ℕ) (rtable : List RtableRow) :
    Except Fault (ℕ × List RtableRow) :=
  match _h : fgets file with
  | none => .ok (j, rtable)
  | some (line, rest) =>
    match rtable[j]? with
    | some r => readLines rest (j + 1) (rtable.set j (readWords r 0 (cString line)))
    | none =>
      if (strtok (cString line)).isSome then .error .outOfBounds
      else readLines rest (j + 1) rtable
termination_by file.length
decreasing_by
  · exact length_lt_of_fgets _h
  · exact length_lt_of_fgets _h

/-- `read_rtable`: the file is `none` where `fopen` fails, whose result is not checked.
`rtable` is the caller's memory; the number of rows is returned. -/
def readRtable (file : Option (List UInt8)) (rtable : List RtableRow) :
    Except Fault (ℕ × List RtableRow) :=
  match file with
  | none => .error .nullDeref
  | some file => readLines file 0 rtable

/-! ### The words of a line -/

/-- `strtok` finds the first word, and leaves the others. -/
theorem wordsBy_strtok (text : List UInt8) : wordsBy isDelim text =
    match strtok text with
    | none => []
    | some (p, rest) => p :: wordsBy isDelim rest := by
  unfold strtok
  rw [← wordsBy_dropWhile]
  rcases hs : text.dropWhile isDelim with - | ⟨c, s⟩
  · rfl
  · exact wordsBy_eq_cons rfl (head_of_dropWhile hs)

/-! ### Every file -/

/-- The pieces of a file, as `fgets` takes them one after the other. -/
def pieces (file : List UInt8) : List (List UInt8) :=
  match _h : fgets file with
  | none => []
  | some (line, rest) => line :: pieces rest
termination_by file.length
decreasing_by exact length_lt_of_fgets _h

/-- The words of a piece. -/
def wordsOf (line : List UInt8) : List (List UInt8) := wordsBy isDelim (cString line)

/-- What the word with index `i` denotes, or what is in memory. -/
def wordOr {β : Type} (f : List UInt8 → β) (words : List (List UInt8)) (i : ℕ) (old : β) : β :=
  (words[i]?.map f).getD old

/-- A row with words over it: four for each address, one for the interface. -/
def RtableRow.patched (r : RtableRow) (words : List (List UInt8)) : RtableRow where
  pref := fun k => wordOr atoiByte words k.val (r.pref k)
  nextHop := fun k => wordOr atoiByte words (4 + k.val) (r.nextHop k)
  mask := fun k => wordOr atoiByte words (8 + k.val) (r.mask k)
  interface := wordOr atoi words 12 r.interface

/-- What the words from index `i` on make of a value that is the word `n`'s. -/
def wordFrom {β : Type} (f : List UInt8 → β) (i : ℕ) (words : List (List UInt8)) (n : ℕ)
    (old : β) : β :=
  if i ≤ n then wordOr f words (n - i) old else old

theorem wordFrom_cons {β : Type} (f : List UInt8 → β) {i n : ℕ} {p : List UInt8}
    {ws : List (List UInt8)} {old : β} :
    wordFrom f i (p :: ws) n old = wordFrom f (i + 1) ws n (if n = i then f p else old) := by
  unfold wordFrom
  rcases Nat.lt_trichotomy n i with hlt | rfl | hgt
  · rw [if_neg (by omega), if_neg (by omega), if_neg (by omega)]
  · rw [if_pos le_rfl, if_neg (by omega), if_pos rfl, Nat.sub_self]
    rfl
  · obtain ⟨d, rfl⟩ := Nat.exists_eq_add_of_lt hgt
    have hthis : i + d + 1 - i = d + 1 := by omega
    have hnext : i + d + 1 - (i + 1) = d := by omega
    rw [if_pos (by omega), if_pos (by omega), if_neg (by omega), hthis, hnext]
    rfl

section StoreWord

variable (r : RtableRow) (i : ℕ) (p : List UInt8)

theorem pref_storeWord (k : Fin 4) :
    (r.storeWord i p).pref k = if k.val = i then atoiByte p else r.pref k := by
  unfold RtableRow.storeWord
  split_ifs <;> simp_all [Function.update_apply, byteIndex, Fin.ext_iff] <;> omega

theorem nextHop_storeWord (k : Fin 4) :
    (r.storeWord i p).nextHop k = if 4 + k.val = i then atoiByte p else r.nextHop k := by
  unfold RtableRow.storeWord
  split_ifs <;> simp_all [Function.update_apply, byteIndex, Fin.ext_iff] <;> omega

theorem mask_storeWord (k : Fin 4) :
    (r.storeWord i p).mask k = if 8 + k.val = i then atoiByte p else r.mask k := by
  unfold RtableRow.storeWord
  split_ifs <;> simp_all [Function.update_apply, byteIndex, Fin.ext_iff] <;> omega

theorem interface_storeWord :
    (r.storeWord i p).interface = if 12 = i then atoi p else r.interface := by
  unfold RtableRow.storeWord
  rcases eq_or_ne 12 i with rfl | hne
  · rfl
  · rw [if_neg hne]
    split_ifs <;> first | rfl | omega

end StoreWord

/-- The words of a text over a row, from index `i` on. -/
theorem readWords_from (r : RtableRow) (i : ℕ) (text : List UInt8) :
    readWords r i text =
      ⟨fun k => wordFrom atoiByte i (wordsBy isDelim text) k.val (r.pref k),
        fun k => wordFrom atoiByte i (wordsBy isDelim text) (4 + k.val) (r.nextHop k),
        fun k => wordFrom atoiByte i (wordsBy isDelim text) (8 + k.val) (r.mask k),
        wordFrom atoi i (wordsBy isDelim text) 12 r.interface⟩ := by
  fun_induction readWords r i text with
  | case1 r i text h =>
    simp [wordsBy_strtok text, h, wordFrom, wordOr]
  | case2 r i text p rest h ih =>
    rw [ih]
    simp only [wordsBy_strtok text, h, wordFrom_cons, pref_storeWord, nextHop_storeWord,
      mask_storeWord, interface_storeWord]

/-- **The words of a line over its row.** -/
theorem readWords_eq (r : RtableRow) (line : List UInt8) :
    readWords r 0 (cString line) = r.patched (wordsOf line) := by
  rw [readWords_from]
  simp [wordFrom, RtableRow.patched, wordsOf]

theorem pieces_eq (file : List UInt8) : pieces file =
    match fgets file with
    | none => []
    | some (line, rest) => line :: pieces rest := by
  rw [pieces]
  split <;> simp_all

/-- The rows after the pieces `lines` have been read from row `j` on. -/
def rowsAfter (lines : List (List UInt8)) (j : ℕ) (rtable : List RtableRow) : List RtableRow :=
  rtable.mapIdx fun k r =>
    if k < j then r else r.patched (wordsOf (lines.getD (k - j) []))

theorem RtableRow.patched_nil (r : RtableRow) : r.patched [] = r := rfl

theorem rowsAfter_cons {line : List UInt8} {lines : List (List UInt8)} {j : ℕ}
    {rtable : List RtableRow} {r : RtableRow} (h : rtable[j]? = some r) :
    rowsAfter (line :: lines) j rtable =
      rowsAfter lines (j + 1) (rtable.set j (r.patched (wordsOf line))) := by
  apply List.ext_getElem?
  intro k
  simp only [rowsAfter, List.getElem?_mapIdx, List.getElem?_set]
  rcases Nat.lt_trichotomy k j with hlt | rfl | hgt
  · simp [hlt, hlt.ne', Nat.lt_succ_of_lt hlt]
  · obtain ⟨hk, rfl⟩ := List.getElem?_eq_some_iff.mp h
    simp [hk]
  · obtain ⟨d, rfl⟩ := Nat.exists_eq_add_of_lt hgt
    have hthis : j + d + 1 - j = d + 1 := by omega
    have hnext : j + d + 1 - (j + 1) = d := by omega
    have h1 : ¬ j + d + 1 < j := by omega
    have h2 : ¬ j + d + 1 < j + 1 := by omega
    simp [hthis, hnext, h1, h2, hgt.ne]

theorem rowsAfter_of_length_le {lines : List (List UInt8)} {j : ℕ} {rtable : List RtableRow}
    (h : rtable.length ≤ j) : rowsAfter lines j rtable = rtable := by
  apply List.ext_getElem
  · simp [rowsAfter]
  · intro k h1 h2
    simp [rowsAfter, show k < j by omega]

theorem rowsAfter_nil (j : ℕ) (rtable : List RtableRow) : rowsAfter [] j rtable = rtable := by
  apply List.ext_getElem
  · simp [rowsAfter]
  · intro k h1 h2
    simp [rowsAfter, wordsOf, cString, RtableRow.patched_nil]

theorem readLines_eq (file : List UInt8) (j : ℕ) (rtable : List RtableRow) :
    readLines file j rtable =
      if ∀ line ∈ (pieces file).drop (rtable.length - j), wordsOf line = [] then
        .ok (j + (pieces file).length, rowsAfter (pieces file) j rtable)
      else .error .outOfBounds := by
  fun_induction readLines file j rtable with
  | case1 file j rtable h =>
    have hp : pieces file = [] := by rw [pieces_eq, h]
    simp [hp, rowsAfter_nil]
  | case2 file j rtable line rest h r hr ih =>
    have hp : pieces file = line :: pieces rest := by rw [pieces_eq, h]
    have hj := (List.getElem?_eq_some_iff.mp hr).1
    have hlen : rtable.length - j = rtable.length - (j + 1) + 1 := by omega
    rw [readWords_eq] at ih
    rw [readWords_eq, ih, hp, rowsAfter_cons hr, List.length_set, hlen, List.drop_succ_cons,
      List.length_cons, Nat.add_assoc, Nat.add_comm 1]
  | case3 file j rtable line rest h hr hword =>
    have hp : pieces file = line :: pieces rest := by rw [pieces_eq, h]
    have hj := List.getElem?_eq_none_iff.mp hr
    have hlen : rtable.length - j = 0 := by omega
    have hne : wordsOf line ≠ [] := by
      obtain ⟨⟨p, rest⟩, hp⟩ := Option.isSome_iff_exists.mp hword
      rw [wordsOf, wordsBy_strtok, hp]
      exact List.cons_ne_nil _ _
    rw [if_neg]
    rw [hlen, List.drop_zero, hp]
    exact fun hall => hne (hall line List.mem_cons_self)
  | case4 file j rtable line rest h hr hword ih =>
    have hp : pieces file = line :: pieces rest := by rw [pieces_eq, h]
    have hj := List.getElem?_eq_none_iff.mp hr
    have hlen : rtable.length - j = 0 := by omega
    have hlen' : rtable.length - (j + 1) = 0 := by omega
    have hnil : wordsOf line = [] := by
      rw [wordsOf, wordsBy_strtok, Option.not_isSome_iff_eq_none.mp hword]
    rw [ih, hlen, hlen', hp, rowsAfter_of_length_le hj, rowsAfter_of_length_le (by omega)]
    simp only [List.drop_zero, List.mem_cons, forall_eq_or_imp, hnil, true_and, List.length_cons]
    rw [Nat.add_assoc, Nat.add_comm 1]

/-- **`read_rtable` on any file.**  Row `k` is the old row with the words of piece `k` over
it; as many rows as pieces are counted.  The one fault is a piece with words for a row
outside the table. -/
theorem readRtable_eq (file : List UInt8) (rtable : List RtableRow) :
    readRtable (some file) rtable =
      if ∀ line ∈ (pieces file).drop rtable.length, wordsOf line = [] then
        .ok ((pieces file).length,
          rtable.mapIdx fun k r => r.patched (wordsOf ((pieces file).getD k [])))
      else .error .outOfBounds := by
  show readLines file 0 rtable = _
  rw [readLines_eq, Nat.sub_zero, Nat.zero_add]
  simp only [rowsAfter, Nat.not_lt_zero, if_false, Nat.sub_zero]

/-! ### A table as text -/

/-- The text of an `int`. -/
def intText (x : Int32) : List UInt8 :=
  if x.toInt < 0 then 45 :: numeral x.toInt.natAbs else numeral x.toInt.natAbs

/-- The text of an address. -/
def dotted (b : Fin 4 → UInt8) : List UInt8 :=
  numeral (b 0).toNat ++ 46 :: (numeral (b 1).toNat ++ 46 :: (numeral (b 2).toNat ++
    46 :: numeral (b 3).toNat))

/-- A row as a line of the file, without its newline. -/
def RtableRow.line (r : RtableRow) : List UInt8 :=
  dotted r.pref ++ 32 :: (dotted r.nextHop ++ 32 :: (dotted r.mask ++ 32 :: intText r.interface))

/-- `atoi` of digits, whatever follows them. -/
theorem atoi_numeral (n : ℕ) {rest : List UInt8} (h : ∀ c ∈ rest.head?, isDigit c = false) :
    atoi (numeral n ++ rest) = Int32.ofInt (min longMax n) := by
  have hread : strtol ([] ++ (numeral n ++ rest)) = min longMax (digitsValue (numeral n)) :=
    strtol_digits_between List.all_nil (fun _ => isDigit_of_mem_numeral) (numeral_ne_nil n) h
  rw [List.nil_append, digitsValue_numeral] at hread
  rw [atoi, hread]

theorem atoi_neg (n : ℕ) {rest : List UInt8} (h : ∀ c ∈ rest.head?, isDigit c = false) :
    atoi (45 :: numeral n ++ rest) = Int32.ofInt (max (-longMax - 1) (-n)) := by
  rw [atoi, strtol_neg n h]

theorem atoi_intText (x : Int32) {rest : List UInt8} (h : ∀ c ∈ rest.head?, isDigit c = false) :
    atoi (intText x ++ rest) = x := by
  have hlo : -2147483648 ≤ x.toInt := x.minValue_le_toInt
  have hhi := x.toInt_lt
  unfold intText
  split_ifs with hneg
  · rw [atoi_neg _ h, max_eq_right (by unfold longMax; omega)]
    rw [show -(x.toInt.natAbs : ℤ) = x.toInt by omega]
    exact Int32.ofInt_toInt x
  · rw [atoi_numeral _ h, min_eq_right (by unfold longMax; omega)]
    rw [show (x.toInt.natAbs : ℤ) = x.toInt by omega]
    exact Int32.ofInt_toInt x

theorem atoiByte_numeral (b : UInt8) : atoiByte (numeral b.toNat) = b := by
  have hb := b.toNat_lt
  have hnil : ∀ c ∈ ([] : List UInt8).head?, isDigit c = false := fun _ hc => by cases hc
  have h := atoi_numeral b.toNat hnil
  rw [List.append_nil, min_eq_right (by unfold longMax; omega)] at h
  rw [atoiByte, h, Int32.toInt_ofInt_of_le (by omega) (by omega)]
  apply UInt8.toNat_inj.mp
  rw [UInt8.toNat_ofNat']
  omega

theorem isDelim_numeral {n : ℕ} {c : UInt8} (h : c ∈ numeral n) : isDelim c = false := by
  have hsp := ne_of_mem_numeral h (d := 32) rfl
  have hdot := ne_of_mem_numeral h (d := 46) rfl
  simp [isDelim, hsp, hdot]

theorem wordsBy_numeral (n : ℕ) {c : UInt8} (hc : isDelim c = true) (rest : List UInt8) :
    wordsBy isDelim (numeral n ++ c :: rest) = numeral n :: wordsBy isDelim rest := by
  rw [wordsBy_append_cons hc, wordsBy_word (fun _ h => isDelim_numeral h) (numeral_ne_nil n)]
  rfl

/-- The numerals of an address. -/
def octets (b : Fin 4 → UInt8) : List (List UInt8) :=
  [numeral (b 0).toNat, numeral (b 1).toNat, numeral (b 2).toNat, numeral (b 3).toNat]

theorem wordsBy_dotted (b : Fin 4 → UInt8) (rest : List UInt8) :
    wordsBy isDelim (dotted b ++ 32 :: rest) = octets b ++ wordsBy isDelim rest := by
  simp only [dotted, List.append_assoc, List.cons_append]
  rw [wordsBy_numeral _ (by rfl), wordsBy_numeral _ (by rfl), wordsBy_numeral _ (by rfl),
    wordsBy_numeral _ (by rfl)]
  rfl

theorem wordsBy_intText (x : Int32) :
    wordsBy isDelim (intText x ++ [10]) = [intText x ++ [10]] := by
  apply wordsBy_word
  · intro c hc
    rcases List.mem_append.mp hc with hc | hc
    · unfold intText at hc
      split_ifs at hc
      · rcases List.mem_cons.mp hc with rfl | hc
        · rfl
        · exact isDelim_numeral hc
      · exact isDelim_numeral hc
    · obtain rfl := List.mem_singleton.mp hc
      rfl
  · simp

theorem wordsBy_line (r : RtableRow) : wordsBy isDelim (r.line ++ [10]) =
    octets r.pref ++ (octets r.nextHop ++ (octets r.mask ++ [intText r.interface ++ [10]])) := by
  simp only [RtableRow.line, List.append_assoc, List.cons_append]
  rw [wordsBy_dotted, wordsBy_dotted, wordsBy_dotted, wordsBy_intText]

/-- The words of a row's line give the row, whatever was there before. -/
theorem patched_line (old r : RtableRow) :
    old.patched (wordsBy isDelim (r.line ++ [10])) = r := by
  have hpref : ∀ k : Fin 4, wordOr atoiByte (wordsBy isDelim (r.line ++ [10])) k.val
      (old.pref k) = r.pref k := by
    rw [wordsBy_line]
    intro k
    fin_cases k <;> exact atoiByte_numeral _
  have hhop : ∀ k : Fin 4, wordOr atoiByte (wordsBy isDelim (r.line ++ [10])) (4 + k.val)
      (old.nextHop k) = r.nextHop k := by
    rw [wordsBy_line]
    intro k
    fin_cases k <;> exact atoiByte_numeral _
  have hmask : ∀ k : Fin 4, wordOr atoiByte (wordsBy isDelim (r.line ++ [10])) (8 + k.val)
      (old.mask k) = r.mask k := by
    rw [wordsBy_line]
    intro k
    fin_cases k <;> exact atoiByte_numeral _
  have hif : wordOr atoi (wordsBy isDelim (r.line ++ [10])) 12 old.interface = r.interface := by
    rw [wordsBy_line]
    refine atoi_intText r.interface fun c hc => ?_
    obtain rfl := Option.some.inj hc
    rfl
  show RtableRow.mk _ _ _ _ = r
  rw [hif]
  congr 1
  · exact funext hpref
  · exact funext hhop
  · exact funext hmask

/-! ### Its lines are the pieces -/

/-- The characters of a line. -/
def isLineChar (c : UInt8) : Bool := isDigit c || isDelim c || c == 45

theorem isLineChar_dotted {b : Fin 4 → UInt8} {c : UInt8} (h : c ∈ dotted b) :
    isLineChar c = true := by
  simp only [dotted, List.mem_append, List.mem_cons] at h
  rcases h with h | rfl | h | rfl | h | rfl | h
  all_goals first | rfl | simp [isLineChar, isDigit_of_mem_numeral h]

theorem isLineChar_intText {x : Int32} {c : UInt8} (h : c ∈ intText x) :
    isLineChar c = true := by
  unfold intText at h
  split_ifs at h
  · rcases List.mem_cons.mp h with rfl | h
    · rfl
    · simp [isLineChar, isDigit_of_mem_numeral h]
  · simp [isLineChar, isDigit_of_mem_numeral h]

theorem isLineChar_line {r : RtableRow} {c : UInt8} (h : c ∈ r.line) : isLineChar c = true := by
  simp only [RtableRow.line, List.mem_append, List.mem_cons] at h
  rcases h with h | rfl | h | rfl | h | rfl | h
  · exact isLineChar_dotted h
  · rfl
  · exact isLineChar_dotted h
  · rfl
  · exact isLineChar_dotted h
  · rfl
  · exact isLineChar_intText h

theorem length_dotted_le (b : Fin 4 → UInt8) : (dotted b).length ≤ 15 := by
  have hoctet : ∀ k, (numeral (b k).toNat).length ≤ 3 := fun k => by
    apply length_numeral_le (by decide)
    have := (b k).toNat_lt
    omega
  have := hoctet 0
  have := hoctet 1
  have := hoctet 2
  have := hoctet 3
  simp only [dotted, List.length_append, List.length_cons]
  omega

theorem length_intText_le (x : Int32) : (intText x).length ≤ 11 := by
  have hlo : -2147483648 ≤ x.toInt := x.minValue_le_toInt
  have hhi := x.toInt_lt
  have := length_numeral_le (n := x.toInt.natAbs) (k := 10) (by decide) (by omega)
  unfold intText
  split_ifs
  · rw [List.length_cons]
    omega
  · omega

/-- Every row fits into one piece. -/
theorem length_line_lt (r : RtableRow) : r.line.length < 63 := by
  have := length_dotted_le r.pref
  have := length_dotted_le r.nextHop
  have := length_dotted_le r.mask
  have := length_intText_le r.interface
  simp only [RtableRow.line, List.length_append, List.length_cons]
  omega

theorem linePiece_append {line : List UInt8} (hline : 10 ∉ line) (rest : List UInt8) {n : ℕ}
    (h : line.length < n) : linePiece n (line ++ 10 :: rest) = line ++ [10] := by
  induction line generalizing n with
  | nil =>
    obtain ⟨n, rfl⟩ := Nat.exists_eq_add_of_lt h
    rfl
  | cons c line ih =>
    obtain ⟨hc, hline⟩ := not_or.mp fun h => hline (List.mem_cons.mpr h)
    obtain ⟨n, rfl⟩ := Nat.exists_eq_add_of_lt h
    show (if c = 10 then [c] else c :: linePiece _ _) = _
    rw [if_neg (Ne.symm hc)]
    apply congrArg (c :: ·)
    apply ih hline
    rw [List.length_cons]
    omega

theorem fgets_line (r : RtableRow) (rest : List UInt8) :
    fgets (r.line ++ 10 :: rest) = some (r.line ++ [10], rest) := by
  have hline : 10 ∉ r.line := fun h => by cases isLineChar_line h
  have hne : r.line ++ 10 :: rest ≠ [] := by simp
  rw [fgets, if_neg hne, linePiece_append hline rest (length_line_lt r)]
  have hsplit : r.line ++ 10 :: rest = (r.line ++ [10]) ++ rest := by simp
  rw [hsplit, List.drop_left]

theorem pieces_lines (rows : List RtableRow) :
    pieces (rows.flatMap fun r => r.line ++ [10]) = rows.map fun r => r.line ++ [10] := by
  induction rows with
  | nil => rw [List.flatMap_nil, pieces_eq]; rfl
  | cons r rows ih =>
    have hsplit : (r :: rows).flatMap (fun r => r.line ++ [10]) =
        r.line ++ 10 :: rows.flatMap fun r => r.line ++ [10] := by simp
    rw [hsplit, pieces_eq, fgets_line, List.map_cons, ← ih]

theorem cString_line (r : RtableRow) : cString (r.line ++ [10]) = r.line ++ [10] := by
  apply List.takeWhile_eq_self_iff.mpr
  intro c hc
  rcases List.mem_append.mp hc with hc | hc
  · have := isLineChar_line hc
    simp only [ne_eq, decide_eq_true_eq]
    rintro rfl
    cases this
  · obtain rfl := List.mem_singleton.mp hc
    rfl

/-- **A routing table written as text is read back as it is**, into whatever memory has
room for it. -/
theorem readRtable_lines (rows rtable : List RtableRow) (h : rows.length ≤ rtable.length) :
    readRtable (some (rows.flatMap fun r => r.line ++ [10])) rtable =
      .ok (rows.length, rows ++ rtable.drop rows.length) := by
  rw [readRtable_eq, pieces_lines, if_pos]
  · congr 2
    · exact List.length_map _
    · apply List.ext_getElem
      · simp; omega
      · intro k hk hk'
        rw [List.getElem_mapIdx]
        rcases Nat.lt_or_ge k rows.length with hlt | hge
        · rw [List.getElem_append_left hlt, List.getD_eq_getElem _ _ (by simpa using hlt),
            List.getElem_map, wordsOf, cString_line, patched_line]
        · rw [List.getElem_append_right hge, List.getD_eq_default _ _ (by simpa using hge)]
          simp [wordsOf, cString, RtableRow.patched_nil, hge]
  · intro line hline
    rw [List.drop_eq_nil_of_le (by simpa using h)] at hline
    cases hline

/-- `192.168.0.0 10.0.0.1 255.255.0.0 -1`. -/
def sampleRow : RtableRow := ⟨![192, 168, 0, 0], ![10, 0, 0, 1], ![255, 255, 0, 0], -1⟩

/-- Two rows into a table of three, whose third row is not touched. -/
theorem readRtable_lines_sampleRow : readRtable
    (some ([sampleRow, sampleRow].flatMap fun r => r.line ++ [10]))
    (List.replicate 3 ⟨fun _ => 7, fun _ => 7, fun _ => 7, 7⟩) =
      .ok (2, [sampleRow, sampleRow] ++ [⟨fun _ => 7, fun _ => 7, fun _ => 7, 7⟩]) :=
  readRtable_lines [sampleRow, sampleRow] _ (by decide)

end TemePCom.Router
