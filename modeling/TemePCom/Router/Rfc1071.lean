/-
TemePCom/Router/Rfc1071.lean

`ip_checksum` against the checksum of RFC 1071.

The specification (`internetSum`) adds the big-endian 16-bit words one by one, each
carry folded back at once, and starts from `0xffff`.  The code adds 32-bit blocks from
the first aligned address on, into 64 bits that are folded at the end only.  The two
meet in the representative of the word sum modulo `65535`:

    ipChecksum addr data = htons (~~~ internetSum data)   for every `addr`.

That the 64 bits are enough is said of the code's own additions (`accAdditions`), and
that the folding ends of its loop (`foldStep`).
-/
import TemePCom.Lib.Loop
import TemePCom.Router.Checksum

namespace TemePCom.Router

open OnesComplement StateTransition

/-! ### The specification -/

/-- The one's complement sum of the 16-bit words, started from `0xffff`. -/
def internetSum (data : List UInt8) : ℕ := (words data).foldl (endAround 65536) 0xffff

example : internetSum [0x00, 0x01, 0xf2, 0x03, 0xf4, 0xf5, 0xf6, 0xf7] = 0xddf2 := rfl

theorem internetSum_eq (data : List UInt8) : internetSum data = rep 65535 (wordSum data) := by
  have hsum : 65535 + (words data).sum ≡ wordSum data [MOD 65535] := by
    rw [sum_words]
    simp [Nat.ModEq]
  have hfold := foldl_endAround (b := 65536) (by norm_num) (words data)
    (fun w hw => lt_of_mem_words hw) (a := 0xffff) (by norm_num) (by norm_num)
  exact hfold.trans (rep_congr hsum)

/-- Started from `0xffff`, the sum is never folded to `0`. -/
theorem internetSum_pos (data : List UInt8) : 0 < internetSum data := by
  rw [internetSum_eq]
  exact rep_pos (by norm_num) _

theorem internetSum_le (data : List UInt8) : internetSum data ≤ 65535 := by
  rw [internetSum_eq]
  exact rep_le (by norm_num) _

/-! ### The additions on the accumulator -/

/-- The additions of the loop over the complete blocks, each with the accumulator it
starts from. -/
def blockAdditions (acc : ℕ) : List UInt8 → List (ℕ × ℕ)
  | a :: b :: c :: d :: rest =>
    (acc, (ntohl (load32 a b c d)).toNat) ::
      blockAdditions (add64 acc (ntohl (load32 a b c d)).toNat) rest
  | _ => []

/-- The additions from the first aligned address on. -/
def tailAdditions (acc : ℕ) (data : List UInt8) : List (ℕ × ℕ) :=
  blockAdditions acc data ++
    if (sumBlocks acc data).2 = [] then [] else
      [((sumBlocks acc data).1, (ntohl (loadWord (sumBlocks acc data).2)).toNat)]

/-- Every `acc += ntohl(word)` of `ip_checksum`, and the addition of the deferred carries. -/
def accAdditions (addr : ℕ) (data : List UInt8) : List (ℕ × ℕ) :=
  let offset := addr &&& 3
  let count := if offset = 0 then 0 else min (4 - offset) data.length
  let first := (ntohl (loadWord (List.replicate offset 0 ++ data.take count))).toNat
  let acc := if offset = 0 then 0xffff else add64 0xffff first
  (if offset = 0 then [] else [(0xffff, first)]) ++ tailAdditions acc (data.drop count) ++
    [(rawSum addr data &&& 0xffffffff, rawSum addr data >>> 32)]

/-- An addition that `uint64_t` holds. -/
def Fits (p : ℕ × ℕ) : Prop := p.1 + p.2 < 18446744073709551616

theorem tailAdditions_cons (acc : ℕ) (a b c d : UInt8) (rest : List UInt8) :
    tailAdditions acc (a :: b :: c :: d :: rest) =
      (acc, block a b c d) :: tailAdditions (add64 acc (block a b c d)) rest := by
  unfold tailAdditions
  rw [blockAdditions, sumBlocks, ntohl_load32_toNat]
  rfl

theorem blockAdditions_of_short {acc : ℕ} {data : List UInt8} (h : data.length < 4) :
    blockAdditions acc data = [] := by
  match data, h with
  | [], _ => rfl
  | [a], _ => rfl
  | [a, b], _ => rfl
  | [a, b, c], _ => rfl

/-- Each block costs less than `2 ^ 32`, so as long as there is room for all of them no
addition overflows. -/
theorem tailAdditions_fits (acc : ℕ) (data : List UInt8)
    (h : acc + 4294967296 * (data.length / 4 + 1) < 18446744073709551616) :
    ∀ p ∈ tailAdditions acc data, Fits p := by
  induction acc, data using sumBlocks.induct with
  | case1 acc a b c d rest ih =>
    have hblock := block_lt a b c d
    have hlen : (a :: b :: c :: d :: rest).length / 4 = rest.length / 4 + 1 := by
      simp only [List.length_cons]
      omega
    rw [hlen] at h
    have hfits : Fits (acc, block a b c d) := by
      show acc + block a b c d < 18446744073709551616
      omega
    rw [ntohl_load32_toNat, add64_eq hfits] at ih
    rw [tailAdditions_cons, add64_eq hfits]
    intro p hp
    rcases List.mem_cons.mp hp with rfl | hrest
    · exact hfits
    · exact ih (by linarith) p hrest
  | case2 acc data hshort =>
    have hlen := length_lt_of_no_block hshort
    have hlt := ntohl_loadWord_lt data
    unfold tailAdditions
    rw [blockAdditions_of_short hlen, sumBlocks_of_short hlen, List.nil_append]
    intro p hp
    split at hp
    · cases hp
    · rw [List.mem_singleton.mp hp]
      show acc + (ntohl (loadWord data)).toNat < 18446744073709551616
      omega

theorem add64_lt (a b : ℕ) : add64 a b < 18446744073709551616 :=
  Nat.mod_lt _ (by norm_num)

theorem sumTail_lt {acc : ℕ} (data : List UInt8) (h : acc < 18446744073709551616) :
    sumTail acc data < 18446744073709551616 := by
  induction acc, data using sumBlocks.induct with
  | case1 acc a b c d rest ih =>
    rw [sumTail_cons, ← ntohl_load32_toNat]
    exact ih (add64_lt _ _)
  | case2 acc data hshort =>
    rw [sumTail_of_short (length_lt_of_no_block hshort)]
    split
    · exact h
    · exact add64_lt _ _

theorem rawSum_lt (addr : ℕ) (data : List UInt8) :
    rawSum addr data < 18446744073709551616 := by
  unfold rawSum
  apply sumTail_lt
  split
  · norm_num
  · exact add64_lt _ _

/-- The accumulator the folding loop starts from. -/
def deferredSum (addr : ℕ) (data : List UInt8) : ℕ :=
  (rawSum addr data &&& 0xffffffff) + (rawSum addr data >>> 32)

theorem deferredSum_lt (addr : ℕ) (data : List UInt8) :
    deferredSum addr data < 18446744073709551616 := by
  have hraw := rawSum_lt addr data
  rw [deferredSum, and_ffffffff_eq, shiftRight_32_eq]
  omega

/-- The accumulator the aligned part starts from. -/
theorem firstAcc_lt (addr : ℕ) {w : ℕ} (h : w < 4294967296) :
    (if addr &&& 3 = 0 then 0xffff else add64 0xffff w) < 4295032831 := by
  split
  · norm_num
  · rw [add64_eq (by omega)]
    omega

theorem accAdditions_fits (addr : ℕ) {data : List UInt8} (h : data.length < 4294967296) :
    ∀ p ∈ accAdditions addr data, Fits p := by
  have hdeferred : Fits (rawSum addr data &&& 0xffffffff, rawSum addr data >>> 32) :=
    deferredSum_lt addr data
  intro p hp
  unfold accAdditions at hp
  simp only [List.mem_append, List.mem_singleton] at hp
  rcases hp with (hfirst | htail) | rfl
  · -- the partial block in front
    split at hfirst
    · cases hfirst
    · rw [List.mem_singleton.mp hfirst]
      show 65535 + (ntohl (loadWord _)).toNat < 18446744073709551616
      exact (Nat.add_lt_add_left (ntohl_loadWord_lt _) 65535).trans (by norm_num)
  · refine tailAdditions_fits _ _ ?_ p htail
    have hlen : (data.drop (if addr &&& 3 = 0 then 0 else
        min (4 - (addr &&& 3)) data.length)).length / 4 ≤ 1073741824 := by
      rw [List.length_drop]
      omega
    have hacc := firstAcc_lt addr (ntohl_loadWord_lt (List.replicate (addr &&& 3) 0 ++
      data.take (if addr &&& 3 = 0 then 0 else min (4 - (addr &&& 3)) data.length)))
    linarith
  · exact hdeferred

/-! ### The folding loop -/

/-- The body of `while (acc >> 16)`. -/
def foldStep (acc : ℕ) : Option ℕ :=
  if acc >>> 16 = 0 then none else some ((acc &&& 0xffff) + (acc >>> 16))

theorem foldStep_lt {acc acc' : ℕ} (h : foldStep acc = some acc') : acc' < acc := by
  unfold foldStep at h
  split at h
  · cases h
  · next hne =>
    rw [shiftRight_16_eq] at hne
    rw [← Option.some.inj h, and_ffff_eq, shiftRight_16_eq]
    exact fold_lt (by norm_num) (by omega)

/-- **The loop ends**, from every accumulator, with what the model computes. -/
theorem foldCarries_mem_eval (acc : ℕ) : foldCarries acc ∈ eval foldStep acc := by
  induction acc using foldCarries.induct with
  | case1 acc hzero =>
    rw [foldCarries, dif_pos hzero]
    exact mem_eval.mpr ⟨.refl, if_pos hzero⟩
  | case2 acc hne ih =>
    rw [foldCarries, dif_neg hne]
    obtain ⟨hreach, hhalt⟩ := mem_eval.mp ih
    exact mem_eval.mpr ⟨.head (Option.mem_def.mpr (if_neg hne)) hreach, hhalt⟩

/-- No addition of the loop overflows either. -/
theorem foldStep_fits {acc acc' : ℕ} (h : acc < 18446744073709551616)
    (hr : Reaches foldStep acc acc') : Fits (acc' &&& 0xffff, acc' >>> 16) := by
  have hle : acc' < 18446744073709551616 :=
    Loop.reaches_invariant (fun x => x < 18446744073709551616)
      (fun x y hx hxy => (foldStep_lt hxy).trans hx) h hr
  rw [Fits, and_ffff_eq, shiftRight_16_eq]
  omega

/-! ### The result -/

/-- `ip_checksum` swaps and complements what the loop leaves. -/
theorem ipChecksum_eq_foldCarries (addr : ℕ) (data : List UInt8) : ipChecksum addr data =
    htons (~~~ UInt16.ofNat (if (addr &&& 3) &&& 1 = 0 then foldCarries (deferredSum addr data)
      else ((foldCarries (deferredSum addr data) &&& 0xff00) >>> 8) |||
        ((foldCarries (deferredSum addr data) &&& 0x00ff) <<< 8))) := rfl

theorem ipChecksum_eq_internetSum (addr : ℕ) {data : List UInt8} (h : data.length < 4294967296) :
    ipChecksum addr data = htons (~~~ UInt16.ofNat (internetSum data)) := by
  rw [ipChecksum_eq addr h, not_ofNat (internetSum_le data), internetSum_eq]

/-- **The checksum of RFC 1071 at every alignment.**  Whatever the start address, the
result is the complement of the specified sum, in network order; the sum is not `0`;
no addition on the accumulator overflows; and the folding loop ends. -/
theorem ipChecksum_rfc1071 (addr : ℕ) (data : List UInt8) (h : data.length < 4294967296) :
    ipChecksum addr data = htons (~~~ UInt16.ofNat (internetSum data)) ∧
      (0 < internetSum data ∧ internetSum data ≤ 65535) ∧
      (∀ addr', ipChecksum addr' data = ipChecksum addr data) ∧
      (∀ p ∈ accAdditions addr data, Fits p) ∧
      foldCarries (deferredSum addr data) ∈ eval foldStep (deferredSum addr data) ∧
      ∀ acc, Reaches foldStep (deferredSum addr data) acc → Fits (acc &&& 0xffff, acc >>> 16) := by
  refine ⟨ipChecksum_eq_internetSum addr h, ⟨internetSum_pos data, internetSum_le data⟩, ?_,
    accAdditions_fits addr h, foldCarries_mem_eval _, ?_⟩
  · intro addr'
    rw [ipChecksum_eq_internetSum addr h, ipChecksum_eq_internetSum addr' h]
  · intro acc hr
    exact foldStep_fits (deferredSum_lt addr data) hr

/-- Five bytes at an odd address. -/
theorem ipChecksum_rfc1071_five :
    let data : List UInt8 := [0x45, 0x00, 0x00, 0x54, 0xc0]
    ipChecksum 3 data = htons (~~~ UInt16.ofNat (internetSum data)) ∧
      (0 < internetSum data ∧ internetSum data ≤ 65535) ∧
      (∀ addr', ipChecksum addr' data = ipChecksum 3 data) ∧
      (∀ p ∈ accAdditions 3 data, Fits p) ∧
      foldCarries (deferredSum 3 data) ∈ eval foldStep (deferredSum 3 data) ∧
      ∀ acc, Reaches foldStep (deferredSum 3 data) acc → Fits (acc &&& 0xffff, acc >>> 16) :=
  ipChecksum_rfc1071 3 [0x45, 0x00, 0x00, 0x54, 0xc0] (by decide)

end TemePCom.Router
