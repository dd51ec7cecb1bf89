/-
TemePCom/Router/Options.lean

IP headers with options.

A sender takes the checksum of a header over the `4 * ihl` bytes it announces;
`is_garbage` takes it over `sizeof(struct iphdr)`, the 20 bytes in front of the options.
Of a header that verifies, these 20 bytes verify iff the words of the options add up to
a multiple of `65535` (`isGarbage_eq_false_iff`).  No options, or options that are all
zero, never show the difference; a single option that is not padding does.

`incremental_checksum` changes two fields of the first 20 bytes and keeps the residue of
their sum, so whatever is behind them the whole header verifies again.
-/
import TemePCom.Router.Checksum

namespace TemePCom.Router

open OnesComplement

/-! ### The bytes a header announces -/

/-- The header as long as its `ihl` says. -/
def headerBytes (b : Buffer) : List UInt8 := b.slice 14 (4 * b.ipHdr.ihl.val)

/-- What is left of it behind `struct iphdr`. -/
def optionBytes (b : Buffer) : List UInt8 := b.slice 34 (4 * b.ipHdr.ihl.val - 20)

variable {b : Buffer}

theorem headerBytes_eq (h : 5 ≤ b.ipHdr.ihl.val) :
    headerBytes b = b.ipHdr.bytes ++ optionBytes b := by
  rw [bytes_ipHdr, headerBytes, optionBytes,
    ← List.take_append_drop 20 (b.slice 14 (4 * b.ipHdr.ihl.val)),
    b.take_slice 14 _ (by omega), b.drop_slice]

theorem wordSum_headerBytes (h : 5 ≤ b.ipHdr.ihl.val) :
    wordSum (headerBytes b) = wordSum b.ipHdr.bytes + wordSum (optionBytes b) := by
  rw [headerBytes_eq h, wordSum_append _ (by rw [Iphdr.length_bytes]; norm_num)]

/-- The checksum over the announced bytes. -/
theorem ipChecksum_headerBytes_iff (h : 5 ≤ b.ipHdr.ihl.val) :
    ipChecksum (payloadAddr 14) (headerBytes b) = 0 ↔
      65535 ∣ wordSum b.ipHdr.bytes + wordSum (optionBytes b) := by
  have hlen : (headerBytes b).length < 4294967296 := by
    have := b.ipHdr.ihl.isLt
    rw [headerBytes, Buffer.length_slice]
    omega
  rw [ipChecksum_eq_zero_iff _ hlen, wordSum_headerBytes h]

/-! ### `is_garbage` -/

/-- **The test of the first 20 bytes.**  A header that verifies as a whole passes it iff
its options alone add up to a multiple of `65535`. -/
theorem isGarbage_eq_false_iff (ifs : Interfaces) {pkt : Packet}
    (hihl : 5 ≤ pkt.payload.ipHdr.ihl.val)
    (hver : ipChecksum (payloadAddr 14) (headerBytes pkt.payload) = 0)
    (httl : 2 ≤ pkt.payload.ipHdr.ttl.toNat) :
    (isGarbage ifs pkt).1 = false ↔ 65535 ∣ wordSum (optionBytes pkt.payload) := by
  have hsum := (ipChecksum_headerBytes_iff hihl).mp hver
  have hlive : ¬ pkt.payload.ipHdr.ttl < 2 := by
    rw [UInt8.lt_iff_toNat_lt]
    show ¬ pkt.payload.ipHdr.ttl.toNat < 2
    omega
  have hgarbage : (isGarbage ifs pkt).1 = false ↔ verifies pkt.payload.ipHdr = true := by
    unfold isGarbage
    rw [if_neg hlive]
    split
    · next hbad => simp [hbad]
    · next hok => exact iff_of_true rfl (not_not.mp hok)
  rw [hgarbage, verifies_iff]
  constructor
  · intro hdvd
    exact (Nat.dvd_add_right hdvd).mp hsum
  · intro hdvd
    exact (Nat.dvd_add_left hdvd).mp hsum

/-! ### `incremental_checksum` -/

/-- The buffer after `incremental_checksum(ip_hdr)`. -/
def forwardedBuffer (b : Buffer) : Buffer := b.setIpHdr (incrementalChecksum b.ipHdr)

theorem ihl_forwardedBuffer (b : Buffer) : (forwardedBuffer b).ipHdr.ihl = b.ipHdr.ihl := by
  rw [forwardedBuffer, ipHdr_setIpHdr]
  rfl

/-- The options are not touched. -/
theorem optionBytes_forwardedBuffer (b : Buffer) :
    optionBytes (forwardedBuffer b) = optionBytes b := by
  rw [optionBytes, optionBytes, ihl_forwardedBuffer]
  apply List.map_congr_left
  intro i _
  show (if 14 ≤ 34 + i ∧ 34 + i < 14 + 20 then _ else b (34 + i)) = b (34 + i)
  exact if_neg (by omega)

/-- Whatever the options, the whole header verifies again. -/
theorem ipChecksum_forwardedBuffer (hihl : 5 ≤ b.ipHdr.ihl.val)
    (hver : ipChecksum (payloadAddr 14) (headerBytes b) = 0) (httl : 2 ≤ b.ipHdr.ttl.toNat) :
    ipChecksum (payloadAddr 14) (headerBytes (forwardedBuffer b)) = 0 := by
  have hsum := (ipChecksum_headerBytes_iff hihl).mp hver
  have hihl' : 5 ≤ (forwardedBuffer b).ipHdr.ihl.val := by
    rw [ihl_forwardedBuffer]
    exact hihl
  have hmod := incrementalChecksum_wordSum b.ipHdr (by omega)
  rw [ipChecksum_headerBytes_iff hihl', optionBytes_forwardedBuffer, forwardedBuffer,
    ipHdr_setIpHdr]
  exact ((hmod.add_right _).dvd_iff dvd_rfl).mpr hsum

/-! ### Valid headers with options -/

/-- **Which valid headers are kept.**  A packet whose announced header bytes verify and
whose TTL is at least 2 is accepted, with a header that verifies again after the update,
iff its options add up to a multiple of `65535`. -/
theorem valid_header_kept_iff (ifs : Interfaces) (pkt : Packet)
    (hihl : 5 ≤ pkt.payload.ipHdr.ihl.val)
    (hver : ipChecksum (payloadAddr 14) (headerBytes pkt.payload) = 0)
    (httl : 2 ≤ pkt.payload.ipHdr.ttl.toNat) :
    ((isGarbage ifs pkt).1 = false ∧
      ipChecksum (payloadAddr 14) (headerBytes (forwardedBuffer pkt.payload)) = 0) ↔
      65535 ∣ wordSum (optionBytes pkt.payload) := by
  rw [isGarbage_eq_false_iff ifs hihl hver httl]
  exact and_iff_left (ipChecksum_forwardedBuffer hihl hver httl)

/-- A packet with one word of options, `opt`, and the checksum `check`. -/
def optionPacket (check : UInt16) (opt : List UInt8) : Packet :=
  getPacket ⟨0, fun _ => 0, 0⟩ ⟨0, List.replicate 12 2 ++ [8, 0] ++
    [0x46, 0, 0, 24, 0, 0, 0, 0, 64, 1] ++ bytes16 (htons check) ++
    [10, 0, 0, 2, 192, 168, 1, 1] ++ opt⟩

theorem ipChecksum_optionPacket {check : UInt16} {opt : List UInt8}
    (hihl : 5 ≤ (optionPacket check opt).payload.ipHdr.ihl.val)
    (hsum : 65535 ∣ wordSum (headerBytes (optionPacket check opt).payload)) :
    ipChecksum (payloadAddr 14) (headerBytes (optionPacket check opt).payload) = 0 := by
  rw [ipChecksum_headerBytes_iff hihl, ← wordSum_headerBytes hihl]
  exact hsum

/-- A word of zeros for options. -/
theorem valid_header_kept_iff_zeros :
    ((isGarbage ⟨fun _ => 0, fun _ _ => 0⟩ (optionPacket 0xae3a [0, 0, 0, 0])).1 = false ∧
      ipChecksum (payloadAddr 14)
        (headerBytes (forwardedBuffer (optionPacket 0xae3a [0, 0, 0, 0]).payload)) = 0) ↔
      65535 ∣ wordSum (optionBytes (optionPacket 0xae3a [0, 0, 0, 0]).payload) :=
  valid_header_kept_iff ⟨fun _ => 0, fun _ _ => 0⟩ (optionPacket 0xae3a [0, 0, 0, 0]) (by decide)
    (ipChecksum_optionPacket (by decide) (by decide +kernel)) (by decide)

/-- Three times the option *no operation* and the end of the options: dropped. -/
theorem valid_header_dropped :
    let pkt := optionPacket 0xac39 [1, 1, 1, 0]
    5 ≤ pkt.payload.ipHdr.ihl.val ∧
      ipChecksum (payloadAddr 14) (headerBytes pkt.payload) = 0 ∧
      2 ≤ pkt.payload.ipHdr.ttl.toNat ∧
      (isGarbage ⟨fun _ => 0, fun _ _ => 0⟩ pkt).1 ≠ false := by
  intro pkt
  have hihl : 5 ≤ pkt.payload.ipHdr.ihl.val := by decide
  have hver := ipChecksum_optionPacket hihl (by decide +kernel)
  have httl : 2 ≤ pkt.payload.ipHdr.ttl.toNat := by decide
  refine ⟨hihl, hver, httl, ?_⟩
  rw [Ne, isGarbage_eq_false_iff _ hihl hver httl]
  decide +kernel

end TemePCom.Router
