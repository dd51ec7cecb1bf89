/-
TemePCom/Lib/OnesComplement.lean

One's complement sums by folding.  A checksum of `w`-digit words in base `b`
adds the words up as an ordinary natural number and then folds the overflow
back: `n ↦ n % b + n / b`, again and again, until one digit is left.

Each fold keeps the residue modulo `b - 1`, never turns a positive number
into `0`, and ends below `b`.  These three facts determine the result: it is
`rep (b - 1) n`, the representative of `n` in `1 .. b - 1`.  One's complement
has two zeros, and for a positive sum it is always the *upper* one, `b - 1`,
that folding produces.  Adding the digits one by one, with each carry folded back at
once, gives the same number (`foldl_endAround`).

The second half sums a byte list as big-endian 16-bit words (`wordSum`), with
the last odd byte padded by a zero, and relates the sum to its 32-bit blocks
and to the byte-swapped data.
-/
import Mathlib

namespace OnesComplement

/-! ### The representative in `1 .. m` -/

/-- The representative of a positive `n` modulo `m` among `1 .. m`. -/
def rep (m n : ℕ) : ℕ := if n % m = 0 then m else n % m

theorem rep_modEq (m n : ℕ) : rep m n ≡ n [MOD m] := by
  unfold rep
  split
  · next h => simp [Nat.ModEq, h]
  · exact Nat.mod_modEq n m

theorem rep_pos {m : ℕ} (hm : 0 < m) (n : ℕ) : 0 < rep m n := by
  unfold rep
  split <;> omega

theorem rep_le {m : ℕ} (hm : 0 < m) (n : ℕ) : rep m n ≤ m := by
  unfold rep
  split
  · exact le_rfl
  · exact (Nat.mod_lt n hm).le

/-- A number in `1 .. m` is determined by its residue. -/
theorem eq_rep {m n x : ℕ} (hx : 0 < x) (hxm : x ≤ m) (h : x ≡ n [MOD m]) :
    x = rep m n := by
  unfold rep
  unfold Nat.ModEq at h
  rcases hxm.lt_or_eq with hlt | rfl
  · rw [Nat.mod_eq_of_lt hlt] at h
    rw [if_neg (by omega)]
    exact h
  · rw [Nat.mod_self] at h
    rw [if_pos h.symm]

theorem rep_congr {m n k : ℕ} (h : n ≡ k [MOD m]) : rep m n = rep m k := by
  unfold rep
  rw [h]

theorem rep_eq_self_iff {m : ℕ} (hm : 0 < m) (n : ℕ) : rep m n = m ↔ m ∣ n := by
  unfold rep
  rw [Nat.dvd_iff_mod_eq_zero]
  split
  · next h => simp [h]
  · next h => exact ⟨fun e => absurd (e ▸ Nat.mod_lt n hm) (lt_irrefl _), fun e => absurd e h⟩

/-- The complement of the representative is the number below `m` that fills the sum
up to a multiple of `m`. -/
theorem sub_rep_eq {m n c : ℕ} (hc : c < m) (h : m ∣ n + c) : m - rep m n = c := by
  have hmod : m - c ≡ n [MOD m] := by
    apply Nat.ModEq.add_right_cancel' c
    rw [Nat.sub_add_cancel hc.le]
    exact ((Nat.modEq_zero_iff_dvd.mpr dvd_rfl).trans (Nat.modEq_zero_iff_dvd.mpr h).symm)
  have hrep : m - c = rep m n := eq_rep (by omega) (Nat.sub_le m c) hmod
  omega

/-! ### Folding -/

theorem fold_lt {b n : ℕ} (hb : 2 ≤ b) (h : b ≤ n) : n % b + n / b < n := by
  have hdiv : 1 ≤ n / b := Nat.div_pos h (by omega)
  have hsplit : b * (n / b) + n % b = n := Nat.div_add_mod n b
  have hgrow : 2 * (n / b) ≤ b * (n / b) := Nat.mul_le_mul_right _ hb
  omega

theorem fold_modEq {b : ℕ} (hb : 1 ≤ b) (n : ℕ) : n % b + n / b ≡ n [MOD b - 1] := by
  have hbase : b ≡ 1 [MOD b - 1] := by
    have h := Nat.add_modEq_right (n := b - 1) (a := 1)
    rwa [Nat.add_sub_cancel' hb] at h
  calc n % b + n / b = n % b + 1 * (n / b) := by rw [one_mul]
    _ ≡ n % b + b * (n / b) [MOD b - 1] := (hbase.symm.mul_right _).add_left _
    _ = n := Nat.mod_add_div n b

theorem fold_pos {b n : ℕ} (hn : 0 < n) : 0 < n % b + n / b := by
  have hsplit : b * (n / b) + n % b = n := Nat.div_add_mod n b
  rcases Nat.eq_zero_or_pos (n / b) with h | h
  · rw [h] at hsplit
    omega
  · omega

/-- Fold until a single base-`b` digit is left. -/
def foldAll (b : ℕ) (hb : 2 ≤ b) (n : ℕ) : ℕ :=
  if _h : b ≤ n then foldAll b hb (n % b + n / b) else n
termination_by n
decreasing_by exact fold_lt hb ‹_›

/-- **Folding computes the representative.**  The result of folding a positive
number is the one number of `1 .. b - 1` with its residue. -/
theorem foldAll_eq_rep {b : ℕ} (hb : 2 ≤ b) {n : ℕ} (hn : 0 < n) :
    foldAll b hb n = rep (b - 1) n := by
  induction n using foldAll.induct b hb with
  | case1 n h ih =>
    rw [foldAll, dif_pos h, ih (fold_pos hn)]
    exact rep_congr (fold_modEq (by omega) n)
  | case2 n h =>
    rw [foldAll, dif_neg h]
    exact eq_rep hn (by omega) rfl

/-! ### Addition with an end-around carry -/

/-- One's complement addition of two digits: the carry out is added at the low end. -/
def endAround (b x y : ℕ) : ℕ := (x + y) % b + (x + y) / b

theorem endAround_eq_rep {b x y : ℕ} (hb : 2 ≤ b) (hx : 0 < x) (hxb : x < b) (hy : y < b) :
    endAround b x y = rep (b - 1) (x + y) := by
  have hpos : 0 < endAround b x y := fold_pos (by omega)
  refine eq_rep hpos ?_ (fold_modEq (by omega) (x + y))
  -- two digits carry at most one
  show (x + y) % b + (x + y) / b ≤ b - 1
  rcases Nat.lt_or_ge (x + y) b with hlt | hge
  · rw [Nat.mod_eq_of_lt hlt, Nat.div_eq_of_lt hlt]
    omega
  · have hdiv : (x + y) / b = 1 := Nat.div_eq_of_lt_le (by omega) (by omega)
    have hsplit := Nat.div_add_mod (x + y) b
    rw [hdiv] at hsplit ⊢
    omega

/-- **Adding digit by digit.**  From a non-zero start, adding with the carry folded
back at once ends where adding first and folding at the end does. -/
theorem foldl_endAround {b : ℕ} (hb : 2 ≤ b) (ws : List ℕ) (hws : ∀ w ∈ ws, w < b) {a : ℕ}
    (ha : 0 < a) (hab : a < b) : ws.foldl (endAround b) a = rep (b - 1) (a + ws.sum) := by
  induction ws generalizing a with
  | nil =>
    show a = rep (b - 1) (a + 0)
    exact eq_rep ha (by omega) rfl
  | cons w ws ih =>
    have hw : w < b := hws w List.mem_cons_self
    have hstep : endAround b a w = rep (b - 1) (a + w) := endAround_eq_rep hb ha hab hw
    have hle := rep_le (m := b - 1) (by omega) (a + w)
    have hpos := rep_pos (m := b - 1) (by omega) (a + w)
    rw [List.foldl_cons, hstep, ih (fun v hv => hws v (List.mem_cons_of_mem w hv)) hpos (by omega),
      List.sum_cons, ← Nat.add_assoc]
    exact rep_congr ((rep_modEq (b - 1) (a + w)).add_right _)

/-! ### Big-endian word sums of byte lists -/

/-- The sum of the big-endian 16-bit words of a byte list; a last odd byte is
the high half of a word whose low half is `0`. -/
def wordSum : List UInt8 → ℕ
  | [] => 0
  | [a] => 256 * a.toNat
  | a :: b :: rest => 256 * a.toNat + b.toNat + wordSum rest

@[simp] theorem wordSum_nil : wordSum [] = 0 := rfl

@[simp] theorem wordSum_singleton (a : UInt8) : wordSum [a] = 256 * a.toNat := rfl

@[simp] theorem wordSum_cons_cons (a b : UInt8) (rest : List UInt8) :
    wordSum (a :: b :: rest) = 256 * a.toNat + b.toNat + wordSum rest := rfl

theorem wordSum_append {xs : List UInt8} (ys : List UInt8) (h : 2 ∣ xs.length) :
    wordSum (xs ++ ys) = wordSum xs + wordSum ys := by
  induction xs using wordSum.induct with
  | case1 => simp
  | case2 a => simp at h
  | case3 a b rest ih =>
    have hrest : 2 ∣ rest.length := by simp only [List.length_cons] at h; omega
    simp [ih hrest, Nat.add_assoc]

/-- The big-endian 16-bit words themselves. -/
def words : List UInt8 → List ℕ
  | [] => []
  | [a] => [256 * a.toNat]
  | a :: b :: rest => (256 * a.toNat + b.toNat) :: words rest

theorem sum_words (l : List UInt8) : (words l).sum = wordSum l := by
  induction l using wordSum.induct with
  | case1 => rfl
  | case2 a => simp [words]
  | case3 a b rest ih => rw [words, List.sum_cons, ih, wordSum_cons_cons]

theorem lt_of_mem_words {l : List UInt8} {w : ℕ} (h : w ∈ words l) : w < 65536 := by
  induction l using wordSum.induct with
  | case1 => cases h
  | case2 a =>
    have := a.toNat_lt
    rw [List.mem_singleton.mp h]
    omega
  | case3 a b rest ih =>
    have := a.toNat_lt
    have := b.toNat_lt
    rcases List.mem_cons.mp h with rfl | hrest
    · omega
    · exact ih hrest

/-- The big-endian value of a 4-byte block. -/
def block (a b c d : UInt8) : ℕ :=
  16777216 * a.toNat + 65536 * b.toNat + 256 * c.toNat + d.toNat

theorem block_lt (a b c d : UInt8) : block a b c d < 4294967296 := by
  have := a.toNat_lt
  have := b.toNat_lt
  have := c.toNat_lt
  have := d.toNat_lt
  unfold block
  omega

/-- A 32-bit block counts for its two 16-bit words. -/
theorem block_modEq (a b c d : UInt8) :
    block a b c d ≡ wordSum [a, b, c, d] [MOD 65535] := by
  unfold block Nat.ModEq
  simp only [wordSum_cons_cons, wordSum_nil]
  omega

/-- Prepending a byte moves every later byte to the other half of its word,
which is multiplication by `256`. -/
theorem wordSum_cons_modEq (x : UInt8) (xs : List UInt8) :
    wordSum (x :: xs) ≡ 256 * (x.toNat + wordSum xs) [MOD 65535] := by
  induction xs generalizing x with
  | nil => simp [Nat.ModEq]
  | cons a ys ih =>
    have hswap : 256 * wordSum (a :: ys) ≡ 256 * (256 * (a.toNat + wordSum ys)) [MOD 65535] :=
      (ih a).mul_left 256
    unfold Nat.ModEq at *
    rw [wordSum_cons_cons]
    omega

/-- Appending after `k` bytes multiplies the later sum by `256 ^ k`. -/
theorem wordSum_append_modEq (xs ys : List UInt8) :
    wordSum (xs ++ ys) ≡ wordSum xs + 256 ^ xs.length * wordSum ys [MOD 65535] := by
  induction xs with
  | nil => simp [Nat.ModEq]
  | cons x xs ih =>
    calc wordSum (x :: (xs ++ ys))
        ≡ 256 * (x.toNat + wordSum (xs ++ ys)) [MOD 65535] := wordSum_cons_modEq x _
      _ ≡ 256 * (x.toNat + (wordSum xs + 256 ^ xs.length * wordSum ys)) [MOD 65535] :=
          (ih.add_left _).mul_left _
      _ = 256 * (x.toNat + wordSum xs) + 256 ^ (xs.length + 1) * wordSum ys := by ring
      _ ≡ wordSum (x :: xs) + 256 ^ (xs.length + 1) * wordSum ys [MOD 65535] :=
          (wordSum_cons_modEq x xs).symm.add_right _

end OnesComplement
