/-
TemePCom/Router/Checksum.lean

What `ip_checksum` computes, and the incremental update.

`ip_checksum` reads its data as 32-bit blocks at aligned addresses, with a
partial block at either end, and swaps the bytes of the result when the data
start at an odd address.  Since `2 ^ 16 ≡ 1 (mod 65535)`, none of this is
visible in the result (`ipChecksum_eq`): at every address it is the complement
of the representative, in `1 .. 65535`, of the sum of the big-endian 16-bit
words.  Hence a header verifies iff `65535` divides its word sum
(`ipChecksum_eq_zero_iff`), and everything about verification is a statement
about residues modulo `65535`.

`incremental_checksum` takes `256` from the word that holds `ttl` and adds
`256`, with the end-around carry, to the checksum word: the residue of the word
sum stays what it was (`incrementalChecksum_wordSum`).
-/
import TemePCom.Router.IpIcmp

namespace TemePCom.Router

open OnesComplement

/-! ### The accumulator -/

theorem add64_eq {a b : ℕ} (h : a + b < 18446744073709551616) : add64 a b = a + b :=
  Nat.mod_eq_of_lt h

/-- The big-endian value of a zero-padded partial block. -/
theorem ntohl_loadWord_modEq (l : List UInt8) (h : l.length ≤ 4) :
    (ntohl (loadWord l)).toNat ≡ wordSum l [MOD 65535] := by
  rw [loadWord, ntohl_load32_toNat]
  refine (block_modEq _ _ _ _).trans ?_
  match l, h with
  | [], _ => rfl
  | [a], _ => rfl
  | [a, b], _ => rfl
  | [a, b, c], _ => rfl
  | [a, b, c, d], _ => rfl

theorem ntohl_loadWord_lt (l : List UInt8) : (ntohl (loadWord l)).toNat < 4294967296 :=
  (ntohl (loadWord l)).toNat_lt

/-- `sumBlocks` followed by the partial block at the end. -/
def sumTail (acc : ℕ) (l : List UInt8) : ℕ :=
  if (sumBlocks acc l).2 = [] then (sumBlocks acc l).1 else
    add64 (sumBlocks acc l).1 (ntohl (loadWord (sumBlocks acc l).2)).toNat

theorem sumTail_of_short {acc : ℕ} {l : List UInt8} (h : l.length < 4) :
    sumTail acc l = if l = [] then acc else add64 acc (ntohl (loadWord l)).toNat := by
  match l, h with
  | [], _ => rfl
  | [a], _ => rfl
  | [a, b], _ => rfl
  | [a, b, c], _ => rfl

theorem sumTail_cons {acc : ℕ} {a b c d : UInt8} {rest : List UInt8} :
    sumTail acc (a :: b :: c :: d :: rest) = sumTail (add64 acc (block a b c d)) rest := by
  unfold sumTail
  rw [sumBlocks, ntohl_load32_toNat]

/-- Where no complete block is left. -/
theorem length_lt_of_no_block {l : List UInt8}
    (h : ∀ a b c d rest, l = a :: b :: c :: d :: rest → False) : l.length < 4 := by
  rcases l with - | ⟨a, - | ⟨b, - | ⟨c, - | ⟨d, rest⟩⟩⟩⟩
  · simp
  · simp
  · simp
  · simp
  · exact (h a b c d rest rfl).elim

theorem sumBlocks_of_short {acc : ℕ} {l : List UInt8} (h : l.length < 4) :
    sumBlocks acc l = (acc, l) := by
  match l, h with
  | [], _ => rfl
  | [a], _ => rfl
  | [a, b], _ => rfl
  | [a, b, c], _ => rfl

/-- The sum never overflows its 64 bits and keeps the residue of the words. -/
theorem sumTail_spec (acc : ℕ) (l : List UInt8)
    (h : acc + 4294967296 * (l.length / 4 + 1) < 18446744073709551616) :
    acc ≤ sumTail acc l ∧ sumTail acc l ≡ acc + wordSum l [MOD 65535] := by
  induction acc, l using sumBlocks.induct with
  | case1 acc a b c d rest ih =>
    have hblock := block_lt a b c d
    have hlen : (a :: b :: c :: d :: rest).length / 4 = rest.length / 4 + 1 := by
      simp only [List.length_cons]
      omega
    rw [hlen] at h
    rw [ntohl_load32_toNat, add64_eq (by omega)] at ih
    obtain ⟨hle, hmod⟩ := ih (by linarith)
    rw [sumTail_cons, add64_eq (by omega)]
    refine ⟨by omega, hmod.trans ?_⟩
    rw [show a :: b :: c :: d :: rest = [a, b, c, d] ++ rest from rfl,
      wordSum_append rest (by simp), ← Nat.add_assoc]
    exact ((block_modEq a b c d).add_left acc).add_right _
  | case2 acc l hshort =>
    -- at most three bytes are left
    have hlen := length_lt_of_no_block hshort
    have hlt := ntohl_loadWord_lt l
    rw [sumTail_of_short hlen]
    split
    · next hnil => simp [hnil, Nat.ModEq]
    · rw [add64_eq (by omega)]
      exact ⟨by omega, (ntohl_loadWord_modEq l (by omega)).add_left acc⟩

/-! ### Folding -/

/-- The parts of an accumulator that the folding of its carries puts together. -/
theorem and_ffff_eq (acc : ℕ) : acc &&& 0xffff = acc % 65536 :=
  Nat.and_two_pow_sub_one_eq_mod acc 16

theorem shiftRight_16_eq (acc : ℕ) : acc >>> 16 = acc / 65536 := Nat.shiftRight_eq_div_pow acc 16

theorem and_ffffffff_eq (acc : ℕ) : acc &&& 0xffffffff = acc % 4294967296 :=
  Nat.and_two_pow_sub_one_eq_mod acc 32

theorem shiftRight_32_eq (acc : ℕ) : acc >>> 32 = acc / 4294967296 :=
  Nat.shiftRight_eq_div_pow acc 32

/-- The fold to 32 bits keeps the residue. -/
theorem fold32_spec {acc : ℕ} (h : 0 < acc) : 0 < (acc &&& 0xffffffff) + (acc >>> 32) ∧
    (acc &&& 0xffffffff) + (acc >>> 32) ≡ acc [MOD 65535] := by
  rw [and_ffffffff_eq, shiftRight_32_eq]
  refine ⟨by omega, ?_⟩
  unfold Nat.ModEq
  omega

/-- The deferred carries are folded in base `65536`. -/
theorem foldCarries_eq_foldAll (acc : ℕ) :
    foldCarries acc = foldAll 65536 (by norm_num) acc := by
  induction acc using foldCarries.induct with
  | case1 acc hzero =>
    have hlt : ¬ 65536 ≤ acc := by
      rw [shiftRight_16_eq] at hzero
      omega
    rw [foldCarries, dif_pos hzero, foldAll, dif_neg hlt]
  | case2 acc hzero ih =>
    have hle : 65536 ≤ acc := by
      rw [shiftRight_16_eq] at hzero
      omega
    rw [foldCarries, dif_neg hzero, foldAll, dif_pos hle, ih, and_ffff_eq, shiftRight_16_eq]

theorem foldCarries_eq {acc : ℕ} (h : 0 < acc) : foldCarries acc = rep 65535 acc :=
  (foldCarries_eq_foldAll acc).trans (foldAll_eq_rep _ h)

/-- The final byte swap of an odd start address multiplies by `256`. -/
theorem swap_eq {v : ℕ} (h : v < 65536) :
    ((v &&& 0xff00) >>> 8) ||| ((v &&& 0x00ff) <<< 8) = 256 * (v % 256) + v / 256 := by
  have hlow : v &&& 0x00ff = v % 256 := Nat.and_two_pow_sub_one_eq_mod v 8
  have hhigh : (v &&& 0xff00) >>> 8 = v / 256 := by
    rw [Nat.shiftRight_and_distrib]
    have := Nat.and_two_pow_sub_one_eq_mod (v >>> 8) 8
    rw [Nat.shiftRight_eq_div_pow] at this ⊢
    simp only [Nat.reducePow, Nat.reduceSub] at this
    rw [show 65280 >>> 8 = 255 from rfl, this]
    omega
  have hlt : v / 256 < 2 ^ 8 := by omega
  rw [hlow, hhigh, Nat.or_comm, ← Nat.shiftLeft_add_eq_or_of_lt hlt, Nat.shiftLeft_eq]
  omega

/-! ### The result -/

/-- The accumulator of `ip_checksum` before the deferred carries. -/
def rawSum (addr : ℕ) (data : List UInt8) : ℕ :=
  let offset := addr &&& 3
  let count := if offset = 0 then 0 else min (4 - offset) data.length
  let acc := if offset = 0 then 0xffff else
    add64 0xffff (ntohl (loadWord (List.replicate offset 0 ++ data.take count))).toNat
  sumTail acc (data.drop count)

/-- The offset of an address from the aligned one before it. -/
theorem and_three_eq (addr : ℕ) : addr &&& 3 = addr % 4 :=
  Nat.and_two_pow_sub_one_eq_mod addr 2

theorem wordSum_replicate_append (o : ℕ) (data : List UInt8) :
    wordSum (List.replicate o 0 ++ data) ≡ 256 ^ o * wordSum data [MOD 65535] := by
  have hzero : ∀ k, wordSum (List.replicate k 0) ≡ 0 [MOD 65535] := by
    intro k
    induction k with
    | zero => rfl
    | succ k ih =>
      have := wordSum_cons_modEq 0 (List.replicate k 0)
      unfold Nat.ModEq at *
      rw [List.replicate_succ, this]
      simp only [UInt8.toNat_zero]
      omega
  have h := wordSum_append_modEq (List.replicate o 0) data
  rw [List.length_replicate] at h
  simpa using h.trans ((hzero o).add_right _)

/-- Reading at an unaligned address shifts the words by the offset. -/
theorem rawSum_spec (addr : ℕ) {data : List UInt8} (h : data.length < 4294967296) :
    65535 ≤ rawSum addr data ∧
      rawSum addr data ≡ 256 ^ (addr % 4) * wordSum data [MOD 65535] := by
  have ho : addr % 4 < 4 := Nat.mod_lt _ (by norm_num)
  simp only [rawSum, and_three_eq]
  generalize addr % 4 = o at ho ⊢
  by_cases hzero : o = 0
  · subst hzero
    obtain ⟨hle, hmod⟩ := sumTail_spec 65535 data (by omega)
    simp only [if_true, List.drop_zero, pow_zero, one_mul]
    exact ⟨hle, hmod.trans (by simp [Nat.ModEq])⟩
  · simp only [if_neg hzero]
    set count := min (4 - o) data.length with hcount
    have hword := ntohl_loadWord_lt (List.replicate o 0 ++ data.take count)
    have hfirst := ntohl_loadWord_modEq (List.replicate o 0 ++ data.take count)
      (by simp; omega)
    rw [add64_eq (by omega)]
    obtain ⟨hle, hmod⟩ := sumTail_spec
      (65535 + (ntohl (loadWord (List.replicate o 0 ++ data.take count))).toNat)
      (data.drop count) (by simp only [List.length_drop]; omega)
    refine ⟨by omega, hmod.trans ?_⟩
    -- either the first block is full, or it holds all the data
    have hsplit : wordSum (List.replicate o 0 ++ data.take count) + wordSum (data.drop count) =
        wordSum (List.replicate o 0 ++ data) := by
      by_cases hfull : 4 - o ≤ data.length
      · conv_rhs => rw [← List.take_append_drop count data, ← List.append_assoc]
        refine (wordSum_append _ ?_).symm
        simp only [List.length_append, List.length_replicate, List.length_take]
        omega
      · rw [List.take_of_length_le (by omega), List.drop_of_length_le (by omega)]
        simp
    calc 65535 + (ntohl (loadWord (List.replicate o 0 ++ data.take count))).toNat
          + wordSum (data.drop count)
        ≡ 65535 + wordSum (List.replicate o 0 ++ data.take count)
          + wordSum (data.drop count) [MOD 65535] := (hfirst.add_left _).add_right _
      _ = 65535 + wordSum (List.replicate o 0 ++ data) := by rw [Nat.add_assoc, hsplit]
      _ ≡ wordSum (List.replicate o 0 ++ data) [MOD 65535] := by simp [Nat.ModEq]
      _ ≡ 256 ^ o * wordSum data [MOD 65535] := wordSum_replicate_append o data

/-- The final swap undoes the odd power of `256`; an even one is `1`. -/
theorem unswap_eq {o : ℕ} (ho : o < 4) (S : ℕ) :
    (if o % 2 = 0 then rep 65535 (256 ^ o * S) else
      ((rep 65535 (256 ^ o * S) &&& 0xff00) >>> 8) |||
        ((rep 65535 (256 ^ o * S) &&& 0x00ff) <<< 8)) = rep 65535 S := by
  have hrep := rep_le (m := 65535) (by norm_num) (256 ^ o * S)
  have hreppos := rep_pos (m := 65535) (by norm_num) (256 ^ o * S)
  have hrepmod := rep_modEq 65535 (256 ^ o * S)
  split
  · next heven =>
    refine rep_congr ?_
    have heven' : o = 0 ∨ o = 2 := by omega
    unfold Nat.ModEq
    rcases heven' with rfl | rfl
    · rw [pow_zero, one_mul]
    · omega
  · next hodd =>
    rw [swap_eq (by omega)]
    refine eq_rep (by omega) (by omega) ?_
    have hodd' : o = 1 ∨ o = 3 := by omega
    unfold Nat.ModEq at *
    rcases hodd' with rfl | rfl
    · omega
    · omega

theorem not_ofNat {v : ℕ} (h : v ≤ 65535) : ~~~ UInt16.ofNat v = UInt16.ofNat (65535 - v) := by
  apply UInt16.toNat_inj.mp
  rw [UInt16.toNat_not, UInt16.toNat_ofNat', UInt16.toNat_ofNat']
  simp only [UInt16.size]
  omega

/-- **The checksum at every address**: the complement, in network order, of the
representative of the word sum. -/
theorem ipChecksum_eq (addr : ℕ) {data : List UInt8} (h : data.length < 4294967296) :
    ipChecksum addr data = htons (UInt16.ofNat (65535 - rep 65535 (wordSum data))) := by
  obtain ⟨hpos, hmod⟩ := rawSum_spec addr h
  have hand : (addr &&& 3) &&& 1 = addr % 4 % 2 := by
    rw [and_three_eq]
    exact Nat.and_two_pow_sub_one_eq_mod _ 1
  have ho : addr % 4 < 4 := Nat.mod_lt _ (by norm_num)
  set acc := (rawSum addr data &&& 0xffffffff) + (rawSum addr data >>> 32)
  obtain ⟨haccpos, haccmod⟩ := fold32_spec (Nat.lt_of_lt_of_le (by norm_num) hpos)
  have hfold : foldCarries acc = rep 65535 (256 ^ (addr % 4) * wordSum data) :=
    (foldCarries_eq haccpos).trans (rep_congr (haccmod.trans hmod))
  calc ipChecksum addr data
      = htons (~~~ UInt16.ofNat (if (addr &&& 3) &&& 1 = 0 then foldCarries acc else
          ((foldCarries acc &&& 0xff00) >>> 8) ||| ((foldCarries acc &&& 0x00ff) <<< 8))) := rfl
    _ = htons (~~~ UInt16.ofNat (rep 65535 (wordSum data))) := by
        rw [hand, hfold, unswap_eq ho]
    _ = htons (UInt16.ofNat (65535 - rep 65535 (wordSum data))) := by
        rw [not_ofNat (rep_le (by norm_num) _)]

/-- A byte string verifies iff its word sum is a multiple of `65535`. -/
theorem ipChecksum_eq_zero_iff (addr : ℕ) {data : List UInt8} (h : data.length < 4294967296) :
    ipChecksum addr data = 0 ↔ 65535 ∣ wordSum data := by
  have hrep := rep_le (m := 65535) (by norm_num) (wordSum data)
  rw [ipChecksum_eq addr h, ← rep_eq_self_iff (by norm_num)]
  constructor
  · intro hz
    have hinj := ntohs_injective (hz.trans (show (0 : UInt16) = ntohs 0 from rfl))
    have := congrArg UInt16.toNat hinj
    rw [UInt16.toNat_ofNat'] at this
    simp only [UInt16.toNat_zero] at this
    omega
  · intro hz
    rw [hz]
    rfl

/-! ### Headers -/

theorem bytes16_wordSum (x : UInt16) : wordSum (bytes16 x) = (ntohs x).toNat := by
  have := x.toNat_lt
  rw [ntohs_toNat, bytes16, wordSum_cons_cons, wordSum_nil, UInt8.toNat_ofNat',
    UInt8.toNat_ofNat']
  omega

/-- The part of a header's word sum that `incremental_checksum` leaves alone. -/
def fixedSum (h : Iphdr) : ℕ :=
  wordSum ([UInt8.ofNat (16 * h.version.val + h.ihl.val), h.tos] ++ bytes16 h.totLen ++
    bytes16 h.id ++ bytes16 h.fragOff ++ bytes32 h.saddr ++ bytes32 h.daddr)

theorem wordSum_bytes (h : Iphdr) : wordSum h.bytes =
    fixedSum h + (256 * h.ttl.toNat + h.protocol.toNat) + (ntohs h.check).toNat := by
  rw [← bytes16_wordSum]
  simp only [Iphdr.bytes, fixedSum, bytes16, bytes32, List.cons_append, List.nil_append,
    wordSum_cons_cons, wordSum_nil]
  omega

/-- A header verifies iff its words add up to a multiple of `65535`. -/
theorem verifies_iff (h : Iphdr) : verifies h = true ↔ 65535 ∣ wordSum h.bytes := by
  rw [verifies, decide_eq_true_eq]
  exact ipChecksum_eq_zero_iff _ (by simp)

/-- **Self-verification**: the data and their checksum add up to a multiple of
`65535`. -/
theorem dvd_wordSum_add_ipChecksum (addr : ℕ) {data : List UInt8}
    (h : data.length < 4294967296) :
    65535 ∣ wordSum data + (ntohs (ipChecksum addr data)).toNat := by
  have hrep := rep_le (m := 65535) (by norm_num) (wordSum data)
  have hmod := rep_modEq 65535 (wordSum data)
  rw [ipChecksum_eq addr h, ntohs_ntohs, UInt16.toNat_ofNat']
  unfold Nat.ModEq at hmod
  omega

/-- Storing `ip_checksum` over a header whose check field is zero makes the
header verify. -/
theorem verifies_of_check (h : Iphdr) (addr : ℕ) (hzero : h.check = 0) :
    verifies { h with check := ipChecksum addr h.bytes } = true := by
  have hsum : fixedSum h + (256 * h.ttl.toNat + h.protocol.toNat) = wordSum h.bytes := by
    rw [wordSum_bytes, hzero]
    rfl
  rw [verifies_iff, wordSum_bytes]
  show 65535 ∣ fixedSum h + (256 * h.ttl.toNat + h.protocol.toNat) +
    (ntohs (ipChecksum addr h.bytes)).toNat
  rw [hsum]
  exact dvd_wordSum_add_ipChecksum addr (by simp)

/-! ### The incremental update -/

/-- The checksum word after `incremental_checksum`: one end-around carry. -/
theorem incrementalChecksum_check (h : Iphdr) :
    (ntohs (incrementalChecksum h).check).toNat =
      if (ntohs h.check).toNat + 256 < 65536 then (ntohs h.check).toNat + 256
      else (ntohs h.check).toNat + 256 - 65535 := by
  have hlt := (ntohs h.check).toNat_lt
  -- the addition itself does not overflow 32 bits
  have hsum : ((ntohs h.check).toUInt32 + ((1 : UInt16) <<< 8).toUInt32).toNat =
      (ntohs h.check).toNat + 256 := by
    rw [UInt32.toNat_add, UInt16.toNat_toUInt32, UInt16.toNat_toUInt32]
    show ((ntohs h.check).toNat + 256) % 2 ^ 32 = _
    omega
  rw [incrementalChecksum]
  simp only [ntohs_ntohs]
  rw [UInt32.toNat_toUInt16, UInt32.toNat_add, UInt32.toNat_shiftRight, hsum]
  show ((ntohs h.check).toNat + 256 + ((ntohs h.check).toNat + 256) >>> 16) % 2 ^ 32 % 2 ^ 16 = _
  rw [Nat.shiftRight_eq_div_pow]
  split <;> omega

theorem incrementalChecksum_ttl (h : Iphdr) (httl : 0 < h.ttl.toNat) :
    (incrementalChecksum h).ttl.toNat = h.ttl.toNat - 1 := by
  show (h.ttl - 1).toNat = _
  rw [UInt8.toNat_sub_of_le _ _ (by rw [UInt8.le_iff_toNat_le]; exact httl)]
  rfl

/-- The update keeps the residue of the word sum, as long as the TTL does not
wrap around. -/
theorem incrementalChecksum_wordSum (h : Iphdr) (httl : 0 < h.ttl.toNat) :
    wordSum (incrementalChecksum h).bytes ≡ wordSum h.bytes [MOD 65535] := by
  have hcheck := incrementalChecksum_check h
  have hdec := incrementalChecksum_ttl h httl
  have hfixed : fixedSum (incrementalChecksum h) = fixedSum h := rfl
  have hproto : (incrementalChecksum h).protocol = h.protocol := rfl
  -- `ttl` is the high byte of its word, so the word loses 256
  rw [wordSum_bytes, wordSum_bytes, hcheck, hdec, hfixed, hproto]
  unfold Nat.ModEq
  split <;> omega

/-- Only `ttl` and `check` change. -/
theorem incrementalChecksum_frame (h : Iphdr) : incrementalChecksum h =
    { h with ttl := (incrementalChecksum h).ttl, check := (incrementalChecksum h).check } := rfl

/-- One step of a path: the header that leaves verifies iff the one that came did. -/
theorem incrementalChecksum_verifies_iff (h : Iphdr) (httl : 0 < h.ttl.toNat) :
    verifies (incrementalChecksum h) = true ↔ verifies h = true := by
  rw [verifies_iff, verifies_iff]
  exact (incrementalChecksum_wordSum h httl).dvd_iff (dvd_refl _)

/-- **Checksum preservation along a path.**  After `k` routers, `k` below the
TTL, the header has lost `k` from its TTL, differs otherwise only in its
checksum, and verifies iff the original did, wherever the two are stored. -/
theorem incrementalChecksum_iterate (h : Iphdr) (k : ℕ) (hk : k < h.ttl.toNat) :
    ((incrementalChecksum^[k] h).ttl.toNat = h.ttl.toNat - k) ∧
      (incrementalChecksum^[k] h = { h with
        ttl := (incrementalChecksum^[k] h).ttl
        check := (incrementalChecksum^[k] h).check }) ∧
      ∀ addr addr', ipChecksum addr' (incrementalChecksum^[k] h).bytes = 0 ↔
        ipChecksum addr h.bytes = 0 := by
  have hpath : ((incrementalChecksum^[k] h).ttl.toNat = h.ttl.toNat - k) ∧
      (incrementalChecksum^[k] h = { h with
        ttl := (incrementalChecksum^[k] h).ttl
        check := (incrementalChecksum^[k] h).check }) ∧
      (verifies (incrementalChecksum^[k] h) = true ↔ verifies h = true) := by
    -- the TTL carries the induction: while it is positive the update is exact
    induction k with
    | zero => exact ⟨rfl, rfl, Iff.rfl⟩
    | succ k ih =>
      obtain ⟨httl, hframe, hver⟩ := ih (by omega)
      have hpos : 0 < (incrementalChecksum^[k] h).ttl.toNat := by omega
      rw [Function.iterate_succ_apply']
      refine ⟨?_, ?_, ?_⟩
      · rw [incrementalChecksum_ttl _ hpos, httl]
        omega
      · rw [incrementalChecksum_frame, hframe]
      · exact (incrementalChecksum_verifies_iff _ hpos).trans hver
  refine ⟨hpath.1, hpath.2.1, fun addr addr' => ?_⟩
  rw [ipChecksum_eq_zero_iff _ (by simp), ipChecksum_eq_zero_iff _ (by simp)]
  exact (verifies_iff _).symm.trans (hpath.2.2.trans (verifies_iff h))

/-- Three routers, and a header with a TTL of 64. -/
theorem incrementalChecksum_iterate_three :
    let h : Iphdr := ⟨4, 5, 0, 0x5400, 0, 0, 64, 1, 0x0a7a, 0x0200000a, 0x0101a8c0⟩
    ((incrementalChecksum^[3] h).ttl.toNat = 61) ∧
      (incrementalChecksum^[3] h = { h with
        ttl := (incrementalChecksum^[3] h).ttl
        check := (incrementalChecksum^[3] h).check }) ∧
      ∀ addr addr', ipChecksum addr' (incrementalChecksum^[3] h).bytes = 0 ↔
        ipChecksum addr h.bytes = 0 :=
  incrementalChecksum_iterate ⟨4, 5, 0, 0x5400, 0, 0, 64, 1, 0x0a7a, 0x0200000a, 0x0101a8c0⟩ 3
    (by decide)

/-! ### Against a recomputation -/

/-- The header with its TTL decremented, ready for its checksum. -/
def unchecked (h : Iphdr) : Iphdr :=
  { h with
    ttl := h.ttl - 1
    check := 0 }

/-- The header with its TTL decremented and its checksum computed anew. -/
def recomputed (h : Iphdr) : Iphdr :=
  { unchecked h with check := ipChecksum (payloadAddr 14) (unchecked h).bytes }

/-- The checksum word of the recomputed header. -/
theorem recomputed_check (h : Iphdr) : (ntohs (recomputed h).check).toNat =
    65535 - rep 65535 (fixedSum h + (256 * (h.ttl - 1).toNat + h.protocol.toNat)) := by
  have hfixed : fixedSum (unchecked h) = fixedSum h := rfl
  have hzero : (ntohs (unchecked h).check).toNat = 0 := ntohs_toNat 0
  have hsum : wordSum (unchecked h).bytes =
      fixedSum h + (256 * (h.ttl - 1).toNat + h.protocol.toNat) := by
    rw [wordSum_bytes, hfixed, hzero]
    rfl
  show (ntohs (ipChecksum (payloadAddr 14) (unchecked h).bytes)).toNat = _
  rw [ipChecksum_eq _ (by simp), ntohs_ntohs, hsum, UInt16.toNat_ofNat']
  exact Nat.mod_eq_of_lt (by omega)

/-- **When the update stores what a recomputation would.**  Both make the header
verify, so they agree up to the two zeros of one's complement.  A recomputation
never stores the upper one; the update does, for one incoming checksum. -/
theorem incrementalChecksum_check_eq_iff (h : Iphdr) (hver : verifies h = true)
    (httl : ¬ h.ttl < 2) :
    (incrementalChecksum h).check = (recomputed h).check ↔ ntohs h.check ≠ 0xfeff := by
  have hpos : 0 < h.ttl.toNat := by
    rw [UInt8.lt_iff_toNat_lt] at httl
    have htwo : (2 : UInt8).toNat = 2 := rfl
    omega
  have hnew := incrementalChecksum_check h
  have hsum : 65535 ∣ fixedSum h + (256 * (h.ttl - 1).toNat + h.protocol.toNat) +
      (ntohs (incrementalChecksum h).check).toNat := by
    have hdvd := (verifies_iff _).mp ((incrementalChecksum_verifies_iff h hpos).mpr hver)
    rwa [wordSum_bytes] at hdvd
  have hrep := rep_pos (m := 65535) (by norm_num)
    (fixedSum h + (256 * (h.ttl - 1).toNat + h.protocol.toNat))
  -- `0xfeff + 0x0100` is the upper zero
  have hcorner : ntohs h.check ≠ 0xfeff ↔
      (ntohs (incrementalChecksum h).check).toNat < 65535 := by
    have hlt := (ntohs h.check).toNat_lt
    have hval : (0xfeff : UInt16).toNat = 65279 := rfl
    rw [hnew, Ne, ← UInt16.toNat_inj, hval]
    split <;> omega
  rw [hcorner, ← ntohs_injective.eq_iff, ← UInt16.toNat_inj, recomputed_check]
  constructor
  · intro heq
    omega
  · intro hlt
    exact (sub_rep_eq hlt hsum).symm

/-- An echo request header with a given identification and checksum. -/
def echoHdr (id check : UInt16) : Iphdr where
  version := ⟨4, by decide⟩
  ihl := ⟨5, by decide⟩
  tos := 0
  totLen := htons 28
  id := htons id
  fragOff := 0
  ttl := 64
  protocol := ipprotoIcmp
  check := htons check
  saddr := 0
  daddr := 0

theorem verifies_echoHdr : verifies (echoHdr 0 0x7ae2) = true :=
  (verifies_iff _).mpr (by decide)

/-- An ordinary checksum. -/
theorem incrementalChecksum_check_eq_iff_echoHdr :
    (incrementalChecksum (echoHdr 0 0x7ae2)).check = (recomputed (echoHdr 0 0x7ae2)).check ↔
      ntohs (echoHdr 0 0x7ae2).check ≠ 0xfeff :=
  incrementalChecksum_check_eq_iff (echoHdr 0 0x7ae2) verifies_echoHdr (by decide)

/-- `0xfeff` becomes `0xffff`, where `ip_checksum` answers `0`. -/
theorem incrementalChecksum_check_ne :
    let h := echoHdr 0x7be2 0xfeff
    verifies h = true ∧ ¬ h.ttl < 2 ∧ (incrementalChecksum h).check ≠ (recomputed h).check := by
  intro h
  refine ⟨(verifies_iff _).mpr (by decide), by decide, fun heq => ?_⟩
  have hword := congrArg (fun c => (ntohs c).toNat) heq
  simp only [incrementalChecksum_check, recomputed_check] at hword
  revert hword
  decide

end TemePCom.Router
