/-
TemePCom/Lib/Decimal.lean

Decimal numerals as byte texts.

`numeral n` is the usual text of a number, `digitsValue` the number that a text of digits
denotes.  A numeral is read back as its number, and a reader that takes as many digits as
there are takes exactly the numeral where no digit follows.  `strtol` is the reader of C: it
skips white space, and what follows the number does not count.
-/
import TemePCom.Lib.Words

namespace Decimal

open Words

def isDigit (c : UInt8) : Bool := 48 ≤ c ∧ c ≤ 57

/-- The number that a text of digits denotes. -/
def digitsValue (digits : List UInt8) : ℕ :=
  digits.foldl (fun n c => 10 * n + (c.toNat - 48)) 0

/-- The text of a number. -/
def numeral (n : ℕ) : List UInt8 := (Nat.toDigits 10 n).map fun c => c.toNat.toUInt8

/-- A digit character is one byte. -/
theorem toUInt8_of_mem_toDigits {n : ℕ} {c : Char} (h : c ∈ Nat.toDigits 10 n) :
    c.toNat.toUInt8.toNat = c.toNat ∧ isDigit c.toNat.toUInt8 = true := by
  have hdigit : 48 ≤ c.toNat ∧ c.toNat ≤ 57 := by
    have hc := Nat.isDigit_of_mem_toDigits (by decide) le_rfl h
    simpa [Char.isDigit, UInt32.le_iff_toNat_le] using hc
  have hval : c.toNat.toUInt8.toNat = c.toNat := by
    rw [Nat.toUInt8_eq, UInt8.toNat_ofNat']
    omega
  refine ⟨hval, ?_⟩
  rw [isDigit, decide_eq_true_eq, UInt8.le_iff_toNat_le, UInt8.le_iff_toNat_le, hval]
  exact hdigit

theorem isDigit_of_mem_numeral {n : ℕ} {c : UInt8} (h : c ∈ numeral n) : isDigit c = true := by
  obtain ⟨d, hd, rfl⟩ := List.mem_map.mp h
  exact (toUInt8_of_mem_toDigits hd).2

/-- **A numeral denotes its number.** -/
theorem digitsValue_numeral (n : ℕ) : digitsValue (numeral n) = n := by
  have hfold : ∀ (l : List Char) (m : ℕ), (∀ c ∈ l, c.toNat.toUInt8.toNat = c.toNat) →
      (l.map fun c => c.toNat.toUInt8).foldl (fun k c => 10 * k + (c.toNat - 48)) m =
        Nat.ofDigitChars 10 l m := by
    intro l
    induction l with
    | nil => exact fun _ _ => rfl
    | cons c l ih =>
      intro m hl
      rw [List.map_cons, List.foldl_cons, hl c List.mem_cons_self, Nat.ofDigitChars_cons]
      exact ih _ fun d hd => hl d (List.mem_cons_of_mem _ hd)
  rw [digitsValue, numeral, hfold _ _ fun c hc => (toUInt8_of_mem_toDigits hc).1,
    Nat.ofDigitChars_ten_toDigits]

theorem numeral_ne_nil (n : ℕ) : numeral n ≠ [] := by
  simp [numeral, Nat.toDigits_ne_nil]

theorem length_numeral_le {n k : ℕ} (hk : 0 < k) (h : n < 10 ^ k) : (numeral n).length ≤ k := by
  rw [numeral, List.length_map]
  exact (Nat.length_toDigits_le_iff (by norm_num) hk).mpr h

/-- The digits at the front of a text that begins with a numeral. -/
theorem takeWhile_numeral (n : ℕ) {rest : List UInt8} (h : ∀ c ∈ rest.head?, isDigit c = false) :
    (numeral n ++ rest).takeWhile isDigit = numeral n := by
  rw [(span_append_of_head h).1]
  exact List.takeWhile_eq_self_iff.mpr fun c hc => isDigit_of_mem_numeral hc

/-- No byte that is not a digit is in a numeral. -/
theorem ne_of_mem_numeral {n : ℕ} {c d : UInt8} (h : c ∈ numeral n) (hd : isDigit d = false) :
    c ≠ d := by
  rintro rfl
  rw [isDigit_of_mem_numeral h] at hd
  cases hd

theorem numeral_injective : Function.Injective numeral :=
  Function.LeftInverse.injective digitsValue_numeral

/-! ### `strtol` -/

/-- `isspace` of the C locale. -/
def isSpace (c : UInt8) : Bool := c = 32 ∨ 9 ≤ c ∧ c ≤ 13

/-- `LONG_MAX`; `LONG_MIN` is `-longMax - 1`. -/
def longMax : ℤ := 2 ^ 63 - 1

/-- `strtol` in base 10: space, a sign, digits; the nearest `long` if out of range. -/
def strtol (text : List UInt8) : ℤ :=
  match text.dropWhile isSpace with
  | 45 :: rest => max (-longMax - 1) (-(digitsValue (rest.takeWhile isDigit)))
  | 43 :: rest => min longMax (digitsValue (rest.takeWhile isDigit))
  | rest => min longMax (digitsValue (rest.takeWhile isDigit))

theorem isSpace_of_isDigit {c : UInt8} (h : isDigit c = true) : isSpace c = false := by
  simp [isSpace, isDigit, UInt8.le_iff_toNat_le, ← UInt8.toNat_inj] at h ⊢
  omega

/-- A digit is no sign. -/
theorem ne_sign_of_isDigit {c : UInt8} (h : isDigit c = true) : c ≠ 45 ∧ c ≠ 43 := by
  constructor <;> rintro rfl <;> exact absurd h (by decide)

section Strtol

variable {text rest u v digits : List UInt8} {c : UInt8}

/-- Behind the white space, a sign or the number itself. -/
theorem strtol_of_dropWhile (h : text.dropWhile isSpace = c :: rest) : strtol text =
    if c = 45 then max (-longMax - 1) (-(digitsValue (rest.takeWhile isDigit) : ℤ))
    else if c = 43 then min longMax (digitsValue (rest.takeWhile isDigit))
    else min longMax (digitsValue ((c :: rest).takeWhile isDigit)) := by
  unfold strtol
  rw [h]
  split
  · next heq =>
    obtain ⟨rfl, rfl⟩ := List.cons.inj heq
    rfl
  · next heq =>
    obtain ⟨rfl, rfl⟩ := List.cons.inj heq
    rfl
  · next hminus hplus =>
    have hc : c ≠ 45 := fun hc => hminus rest (congrArg (· :: rest) hc)
    have hc' : c ≠ 43 := fun hc => hplus rest (congrArg (· :: rest) hc)
    rw [if_neg hc, if_neg hc']

/-- White space in front does not count. -/
theorem strtol_append_of_isSpace (h : u.all isSpace) (v : List UInt8) :
    strtol (u ++ v) = strtol v := by
  unfold strtol
  rw [List.dropWhile_append_of_pos (List.all_eq_true.mp h)]

/-- Behind something else, what begins with no digit ends the number. -/
theorem strtol_append_of_not_isSpace (h : ¬ u.all isSpace)
    (hv : ∀ c ∈ v.head?, isDigit c = false) : strtol (u ++ v) = strtol u := by
  have hne : u.dropWhile isSpace ≠ [] := fun hnil =>
    h (List.all_eq_true.mpr (List.dropWhile_eq_nil_iff.mp hnil))
  obtain ⟨c, rest, hcons⟩ := List.exists_cons_of_ne_nil hne
  have hdrop : (u ++ v).dropWhile isSpace = c :: (rest ++ v) := by
    rw [List.dropWhile_append, hcons]
    rfl
  have hread (l : List UInt8) : (l ++ v).takeWhile isDigit = l.takeWhile isDigit :=
    (span_append_of_head hv).1
  rw [strtol_of_dropWhile hdrop, strtol_of_dropWhile hcons, ← List.cons_append, hread, hread]

/-- **`strtol` on a number** that is there to its end. -/
theorem strtol_digits (hdigits : ∀ c ∈ digits, isDigit c = true) (hne : digits ≠ []) :
    strtol digits = min longMax (digitsValue digits) := by
  obtain ⟨c, rest, rfl⟩ := List.exists_cons_of_ne_nil hne
  have hc : isDigit c = true := hdigits c List.mem_cons_self
  have hdrop : (c :: rest).dropWhile isSpace = c :: rest := by
    rw [List.dropWhile_cons_of_neg (by simp [isSpace_of_isDigit hc])]
  rw [strtol_of_dropWhile hdrop, if_neg (ne_sign_of_isDigit hc).1, if_neg (ne_sign_of_isDigit hc).2,
    List.takeWhile_eq_self_iff.mpr hdigits]

theorem not_all_isSpace (hdigits : ∀ c ∈ digits, isDigit c = true) (hne : digits ≠ []) :
    ¬ digits.all isSpace := by
  intro h
  obtain ⟨c, rest, rfl⟩ := List.exists_cons_of_ne_nil hne
  have hc : isSpace c = true := List.all_eq_true.mp h c List.mem_cons_self
  rw [isSpace_of_isDigit (hdigits c List.mem_cons_self)] at hc
  cases hc

/-- **`strtol` on a number** after any white space, in front of anything but a digit. -/
theorem strtol_digits_between (hu : u.all isSpace) (hdigits : ∀ c ∈ digits, isDigit c = true)
    (hne : digits ≠ []) (hv : ∀ c ∈ v.head?, isDigit c = false) :
    strtol (u ++ (digits ++ v)) = min longMax (digitsValue digits) := by
  rw [strtol_append_of_isSpace hu, strtol_append_of_not_isSpace (not_all_isSpace hdigits hne) hv,
    strtol_digits hdigits hne]

/-- `strtol` on a numeral behind a minus sign. -/
theorem strtol_neg (n : ℕ) (hv : ∀ c ∈ v.head?, isDigit c = false) :
    strtol (45 :: numeral n ++ v) = max (-longMax - 1) (-n) := by
  have hdrop : (45 :: numeral n ++ v).dropWhile isSpace = 45 :: (numeral n ++ v) := rfl
  rw [strtol_of_dropWhile hdrop, if_pos rfl, takeWhile_numeral n hv, digitsValue_numeral]

end Strtol

end Decimal
