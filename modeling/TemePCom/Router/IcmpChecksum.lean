/-
TemePCom/Router/IcmpChecksum.lean

`icmp_checksum` (skel.c), the second checksum routine.

It adds the 16-bit words as the host loads them and folds twice, where `ip_checksum` adds
them in network order and folds until nothing is carried; and it starts from 0, and reads
one byte too many of data of an odd length.  Byte order does not matter to a one's
complement sum: swapping the bytes of every word multiplies it by `256`.  So the two
routines agree, up to 65536 words, except on data that are all zero and where the byte
behind the data is not (`icmpChecksum_eq_iff`).
-/
import TemePCom.Router.Checksum

namespace TemePCom.Router

open OnesComplement

/-- The two loops of `icmp_checksum`: the words as the host loads them, from `acc` on.
`beyond` is the byte behind the data. -/
def sumHostWords (beyond : UInt8) (acc : ℕ) : List UInt8 → ℕ
  | a :: b :: rest => sumHostWords beyond (add64 acc (load16 a b).toNat) rest
  | [a] => add64 acc (load16 a beyond).toNat
  | [] => acc

/-- `icmp_checksum(data, size)`. -/
def icmpChecksum (data : List UInt8) (beyond : UInt8) : UInt16 :=
  let cksum := sumHostWords beyond 0 data
  let cksum := add64 (cksum >>> 16) (cksum &&& 0xffff)
  let cksum := add64 cksum (cksum >>> 16)
  ~~~ UInt16.ofNat cksum

/-- The data as words are read of them. -/
def readBytes (data : List UInt8) (beyond : UInt8) : List UInt8 :=
  if data.length % 2 = 1 then data ++ [beyond] else data

/-- The sum of the words with their bytes swapped. -/
def hostSum : List UInt8 → ℕ
  | a :: b :: rest => a.toNat + 256 * b.toNat + hostSum rest
  | [a] => a.toNat
  | [] => 0

theorem hostSum_le (l : List UInt8) : hostSum l ≤ 65535 * ((l.length + 1) / 2) := by
  fun_induction hostSum l with
  | case1 a b rest ih =>
    have := a.toNat_lt
    have := b.toNat_lt
    simp only [List.length_cons]
    omega
  | case2 a =>
    have := a.toNat_lt
    simp
    omega
  | case3 => simp

/-- Swapping the bytes multiplies by `256`. -/
theorem hostSum_modEq (l : List UInt8) (h : l.length % 2 = 0) :
    hostSum l ≡ 256 * wordSum l [MOD 65535] := by
  fun_induction hostSum l with
  | case1 a b rest ih =>
    have hrest := ih (by simp only [List.length_cons] at h; omega)
    rw [wordSum_cons_cons]
    unfold Nat.ModEq at *
    omega
  | case2 a => simp at h
  | case3 => rfl

theorem hostSum_eq_zero_iff (l : List UInt8) : hostSum l = 0 ↔ ∀ b ∈ l, b = 0 := by
  have hzero : ∀ c : UInt8, c = 0 ↔ c.toNat = 0 := fun c => UInt8.toNat_inj.symm
  fun_induction hostSum l with
  | case1 a b rest ih =>
    have hrest : hostSum rest = 0 ↔ ∀ c ∈ rest, c = 0 := ih
    rw [List.forall_mem_cons, List.forall_mem_cons, ← hrest, hzero, hzero]
    omega
  | case2 a => simp [hzero]
  | case3 => simp

/-- The loops do not overflow. -/
theorem sumHostWords_eq (beyond : UInt8) (acc : ℕ) (data : List UInt8)
    (h : acc + 65535 * ((data.length + 1) / 2) < 18446744073709551616) :
    sumHostWords beyond acc data = acc + hostSum (readBytes data beyond) := by
  fun_induction sumHostWords beyond acc data with
  | case1 acc a b rest ih =>
    have := a.toNat_lt
    have := b.toNat_lt
    simp only [List.length_cons] at h
    have hacc : add64 acc (load16 a b).toNat = acc + (a.toNat + 256 * b.toNat) := by
      rw [load16_toNat]
      exact add64_eq (by omega)
    rw [ih (by rw [hacc]; omega), hacc]
    have hread : readBytes (a :: b :: rest) beyond = a :: b :: readBytes rest beyond := by
      unfold readBytes
      simp only [List.length_cons, List.cons_append]
      split_ifs <;> first | rfl | omega
    rw [hread, hostSum]
    omega
  | case2 acc a =>
    have := a.toNat_lt
    have := beyond.toNat_lt
    rw [load16_toNat, add64_eq (by simp at h; omega)]
    rfl
  | case3 acc => rfl

/-- The words the loops read. -/
theorem length_readBytes (data : List UInt8) (beyond : UInt8) :
    (readBytes data beyond).length = 2 * ((data.length + 1) / 2) := by
  unfold readBytes
  split_ifs with hodd
  · rw [List.length_append, List.length_singleton]
    omega
  · omega

/-- Two folds are enough for 65536 words. -/
theorem fold_twice {n : ℕ} (h : n ≤ 65535 * 65536) :
    (n / 65536 + n % 65536 + (n / 65536 + n % 65536) / 65536) % 65536 =
      if n = 0 then 0 else rep 65535 n := by
  split_ifs with hn
  · rw [hn]
  have hsplit := Nat.div_add_mod n 65536
  have hlt := Nat.mod_lt n (show 65536 > 0 by norm_num)
  generalize n / 65536 = q at *
  generalize n % 65536 = r at *
  subst hsplit
  -- the second fold carries at most one
  rcases Nat.lt_or_ge (q + r) 65536 with hno | hcarry
  · rw [Nat.div_eq_of_lt hno, Nat.add_zero, Nat.mod_eq_of_lt hno]
    apply eq_rep (by omega) (by omega)
    unfold Nat.ModEq
    omega
  · have hone : (q + r) / 65536 = 1 := by omega
    have hmod : (q + r + 1) % 65536 = q + r - 65535 := by omega
    rw [hone, hmod]
    apply eq_rep (by omega) (by omega)
    unfold Nat.ModEq
    omega

theorem icmpChecksum_toNat (data : List UInt8) (beyond : UInt8) (h : data.length ≤ 131072) :
    (icmpChecksum data beyond).toNat = 65535 -
      if hostSum (readBytes data beyond) = 0 then 0
      else rep 65535 (hostSum (readBytes data beyond)) := by
  have hle : hostSum (readBytes data beyond) ≤ 65535 * 65536 := by
    have := hostSum_le (readBytes data beyond)
    have := length_readBytes data beyond
    omega
  have hsum := sumHostWords_eq beyond 0 data (by omega)
  rw [Nat.zero_add] at hsum
  rw [← fold_twice hle]
  generalize hostSum (readBytes data beyond) = n at *
  have hfirst : add64 (n >>> 16) (n &&& 0xffff) = n / 65536 + n % 65536 := by
    rw [shiftRight_16_eq, and_ffff_eq]
    exact add64_eq (by omega)
  show (~~~ UInt16.ofNat (add64
    (add64 (sumHostWords beyond 0 data >>> 16) (sumHostWords beyond 0 data &&& 0xffff))
    (add64 (sumHostWords beyond 0 data >>> 16) (sumHostWords beyond 0 data &&& 0xffff) >>>
      16))).toNat = _
  rw [hsum, hfirst, shiftRight_16_eq, add64_eq (by omega), UInt16.toNat_not, UInt16.toNat_ofNat']
  rfl

/-- `ip_checksum` in the same form. -/
theorem ipChecksum_toNat (addr : ℕ) {data : List UInt8} (h : data.length < 4294967296) :
    (ipChecksum addr data).toNat = 65535 - rep 65535 (256 * wordSum data) := by
  have hle := rep_le (m := 65535) (by norm_num) (wordSum data)
  have hpos := rep_pos (m := 65535) (by norm_num) (wordSum data)
  have hmod := rep_modEq 65535 (wordSum data)
  have hswap : rep 65535 (256 * wordSum data) =
      256 * (rep 65535 (wordSum data) % 256) + rep 65535 (wordSum data) / 256 := by
    symm
    apply eq_rep
    · omega
    · omega
    · unfold Nat.ModEq at *
      omega
  rw [ipChecksum_eq addr h, hswap, ntohs_toNat, UInt16.toNat_ofNat']
  generalize rep 65535 (wordSum data) = r at *
  rw [Nat.mod_eq_of_lt (by omega : 65535 - r < 2 ^ 16)]
  omega

theorem wordSum_readBytes (data : List UInt8) (beyond : UInt8) : wordSum (readBytes data beyond) =
    wordSum data + if data.length % 2 = 1 then beyond.toNat else 0 := by
  unfold readBytes
  split_ifs with hodd
  · fun_induction wordSum data with
    | case1 => simp at hodd
    | case2 a => rfl
    | case3 a b rest ih =>
      rw [List.cons_append, List.cons_append, wordSum_cons_cons,
        ih (by simp only [List.length_cons] at hodd; omega)]
      omega
  · rfl

/-- **When the two routines agree**: on up to 65536 words that are not all zero, and for an
odd length only where the byte behind the data is zero. -/
theorem icmpChecksum_eq_iff (addr : ℕ) (data : List UInt8) (beyond : UInt8)
    (h : data.length ≤ 131072) :
    icmpChecksum data beyond = ipChecksum addr data ↔
      (∃ b ∈ data, b ≠ 0) ∧ (data.length % 2 = 1 → beyond = 0) := by
  have hicmp := icmpChecksum_toNat data beyond h
  have hip := ipChecksum_toNat addr (show data.length < 4294967296 by omega)
  have hzero := hostSum_eq_zero_iff (readBytes data beyond)
  have hmod : hostSum (readBytes data beyond) ≡ 256 * (wordSum data +
      if data.length % 2 = 1 then beyond.toNat else 0) [MOD 65535] := by
    rw [← wordSum_readBytes]
    exact hostSum_modEq _ (by rw [length_readBytes]; omega)
  have hpos := rep_pos (m := 65535) (by norm_num) (256 * wordSum data)
  have hle := rep_le (m := 65535) (by norm_num) (256 * wordSum data)
  rw [← UInt16.toNat_inj, hicmp, hip]
  by_cases hread : data.length % 2 = 1 → beyond = 0
  · -- the words are those of the data
    have hadd : (if data.length % 2 = 1 then beyond.toNat else 0) = 0 := by
      split_ifs with hodd
      · rw [hread hodd]
        rfl
      · rfl
    rw [hadd, Nat.add_zero] at hmod
    have hdata : (∃ b ∈ data, b ≠ 0) ↔ hostSum (readBytes data beyond) ≠ 0 := by
      rw [Ne, hzero, not_forall]
      unfold readBytes
      split_ifs with hodd
      · simp [hread hodd, or_and_right]
      · simp
    rw [hdata, ← rep_congr hmod]
    have := rep_pos (m := 65535) (by norm_num) (hostSum (readBytes data beyond))
    have := rep_le (m := 65535) (by norm_num) (hostSum (readBytes data beyond))
    split_ifs with hsum
    · exact iff_of_false (by omega) fun h => h.1 hsum
    · exact iff_of_true rfl ⟨hsum, hread⟩
  · -- the byte behind the data is added to the sum
    rw [Classical.not_imp] at hread
    obtain ⟨hodd, hne⟩ := hread
    have hbyte : beyond.toNat ≠ 0 := fun h0 => hne (UInt8.toNat_inj.mp h0)
    have hlt := beyond.toNat_lt
    constructor
    · intro heq
      exfalso
      split_ifs at heq with hsum
      · omega
      · have hrep : rep 65535 (hostSum (readBytes data beyond)) =
            rep 65535 (256 * wordSum data) := by
          have := rep_le (m := 65535) (by norm_num) (hostSum (readBytes data beyond))
          omega
        have h₁ := rep_modEq 65535 (hostSum (readBytes data beyond))
        have h₂ := rep_modEq 65535 (256 * wordSum data)
        rw [hrep] at h₁
        have hsame := (h₁.symm.trans h₂).symm.trans hmod
        rw [if_pos hodd] at hsame
        unfold Nat.ModEq at hsame
        omega
    · rintro ⟨-, hcontra⟩
      exact absurd (hcontra hodd) hne

/-- The words `1, 2, 3`. -/
theorem icmpChecksum_eq_iff_three :
    icmpChecksum [0, 1, 0, 2, 0, 3] 9 = ipChecksum 34 [0, 1, 0, 2, 0, 3] ↔
      (∃ b ∈ [(0 : UInt8), 1, 0, 2, 0, 3], b ≠ 0) ∧
        ([(0 : UInt8), 1, 0, 2, 0, 3].length % 2 = 1 → (9 : UInt8) = 0) :=
  icmpChecksum_eq_iff 34 [0, 1, 0, 2, 0, 3] 9 (by decide)

end TemePCom.Router
