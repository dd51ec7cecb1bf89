/-
TemePCom/Lib/LittleEndian.lean

Little-endian numbers: `encode w n` is the low `w` bytes of `n`, `value` reads a
number back.  A prefix of an encoding is the encoding in fewer bytes
(`take_encode`), reading it back reduces the number modulo a power of 256
(`value_encode`), and every byte list encodes what it stands for (`encode_value`).
-/
import Mathlib

namespace LittleEndian

/-- The low `w` bytes of `n`, least significant first. -/
def encode : ℕ → ℕ → List UInt8
  | 0, _ => []
  | w + 1, n => UInt8.ofNat (n % 256) :: encode w (n / 256)

/-- The number a byte list stands for. -/
def value : List UInt8 → ℕ
  | [] => 0
  | b :: l => b.toNat + 256 * value l

@[simp] theorem length_encode (w n : ℕ) : (encode w n).length = w := by
  induction w generalizing n with
  | zero => rfl
  | succ w ih => simp [encode, ih]

theorem take_encode {k w : ℕ} (h : k ≤ w) (n : ℕ) : (encode w n).take k = encode k n := by
  induction w generalizing k n with
  | zero =>
    obtain rfl : k = 0 := by omega
    rfl
  | succ w ih =>
    cases k with
    | zero => rfl
    | succ k => rw [encode, List.take_succ_cons, ih (by omega), encode]

theorem drop_encode {k w : ℕ} (h : k ≤ w) (n : ℕ) :
    (encode w n).drop k = encode (w - k) (n / 256 ^ k) := by
  induction w generalizing k n with
  | zero =>
    obtain rfl : k = 0 := by omega
    rfl
  | succ w ih =>
    cases k with
    | zero => simp
    | succ k =>
      rw [encode, List.drop_succ_cons, ih (by omega), Nat.div_div_eq_div_mul, pow_succ',
        Nat.add_sub_add_right]

theorem value_encode (w n : ℕ) : value (encode w n) = n % 256 ^ w := by
  induction w generalizing n with
  | zero => simp [encode, value, Nat.mod_one]
  | succ w ih =>
    have hbyte : (UInt8.ofNat (n % 256)).toNat = n % 256 := by
      rw [UInt8.toNat_ofNat']
      omega
    rw [encode, value, ih, hbyte, pow_succ', Nat.mod_mul]

theorem encode_value (l : List UInt8) : encode l.length (value l) = l := by
  induction l with
  | nil => rfl
  | cons b l ih =>
    have hb := b.toNat_lt
    have hlow : (b.toNat + 256 * value l) % 256 = b.toNat := by omega
    have hhigh : (b.toNat + 256 * value l) / 256 = value l := by omega
    rw [value, List.length_cons, encode, hlow, hhigh, ih, UInt8.ofNat_toNat]

theorem value_lt (l : List UInt8) : value l < 256 ^ l.length := by
  induction l with
  | nil => exact Nat.one_pos
  | cons b l ih =>
    have hb := b.toNat_lt
    rw [value, List.length_cons, pow_succ']
    omega

/-! ### The other byte order -/

theorem value_reverse_encode_lt (w n : ℕ) : value (encode w n).reverse < 256 ^ w := by
  have h := value_lt (encode w n).reverse
  rwa [List.length_reverse, length_encode] at h

theorem encode_value_reverse (w n : ℕ) :
    encode w (value (encode w n).reverse) = (encode w n).reverse := by
  have h := encode_value (encode w n).reverse
  rwa [List.length_reverse, length_encode] at h

/-- Changing the byte order twice changes nothing. -/
theorem value_reverse_reverse (w n : ℕ) :
    value (encode w (value (encode w n).reverse)).reverse = n % 256 ^ w := by
  rw [encode_value_reverse, List.reverse_reverse, value_encode]

/-! ### Concatenation -/

theorem value_append (l l' : List UInt8) :
    value (l ++ l') = value l + 256 ^ l.length * value l' := by
  induction l with
  | nil => simp [value]
  | cons b l ih =>
    rw [List.cons_append, value, value, ih, List.length_cons, pow_succ']
    ring

/-- The byte at position `k` counts `256 ^ k` times. -/
theorem pow_mul_le_value (l l' : List UInt8) (b : UInt8) :
    256 ^ l.length * b.toNat ≤ value (l ++ b :: l') := by
  rw [value_append, value]
  calc 256 ^ l.length * b.toNat
      ≤ 256 ^ l.length * (b.toNat + 256 * value l') :=
        Nat.mul_le_mul_left _ (Nat.le_add_right _ _)
    _ ≤ value l + 256 ^ l.length * (b.toNat + 256 * value l') := Nat.le_add_left _ _

end LittleEndian
