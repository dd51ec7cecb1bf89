/-
TemePCom/Router/Originated.lean

The ICMP packets the router originates.

`send_icmp` fills a zeroed payload and transmits its first 42 bytes.  The IP header
gets its checksum in the usual way.  The ICMP checksum is taken over the 28 bytes of
`struct icmp`, but only 8 of them are sent; the other 20 are zeros of the buffer,
which do not change a word sum.  So what arrives verifies, over exactly the bytes
its length field announces.
-/
import TemePCom.Router.Network

namespace TemePCom.Router

open OnesComplement

/-! ### Buffers -/

theorem Buffer.slice_store (b : Buffer) (o n : ℕ) (l : List UInt8) :
    (b.store o l).slice o (l.length + n) = l ++ b.slice (o + l.length) n := by
  apply List.ext_getElem
  · simp
  · intro i h₁ h₂
    simp only [slice, List.getElem_map, List.getElem_range, store]
    by_cases hi : i < l.length
    · rw [if_pos (by omega), List.getElem_append_left hi]
      simp [hi]
    · rw [if_neg (by omega), List.getElem_append_right (by omega), List.getElem_map,
        List.getElem_range]
      congr 1
      omega

/-- A buffer whose bytes are zero from `o` on. -/
theorem Buffer.slice_eq_replicate {b : Buffer} {o : ℕ} (h : ∀ i, o ≤ i → b i = 0) (n : ℕ) :
    b.slice o n = List.replicate n 0 := by
  rw [List.eq_replicate_iff]
  refine ⟨Buffer.length_slice b o n, fun x hx => ?_⟩
  obtain ⟨i, -, rfl⟩ := List.mem_map.mp hx
  exact h _ (Nat.le_add_right o i)

/-- The bytes of a frame, in an empty buffer. -/
def Frame.payload (f : Frame) : Buffer := fun i => f.bytes.getD i 0

theorem payload_sendPacket (p : Packet) {i : ℕ} (hi : i < p.len) :
    (sendPacket p).payload i = p.payload i := by
  show (p.payload.slice 0 p.len).getD i 0 = _
  simp [Buffer.slice, hi]

/-! ### The message -/

theorem wordSum_replicate_zero (n : ℕ) : wordSum (List.replicate n 0) = 0 := by
  induction n using Nat.twoStepInduction with
  | zero => rfl
  | one => rfl
  | more n ih _ =>
    rw [List.replicate_succ, List.replicate_succ, wordSum_cons_cons, ih]
    rfl

/-- The part of an ICMP header's word sum that does not depend on its checksum. -/
theorem wordSum_icmp_bytes (h : Icmphdr) : wordSum h.bytes =
    wordSum { h with checksum := 0 }.bytes + (ntohs h.checksum).toNat := by
  have hzero : wordSum (bytes16 0) = 0 := bytes16_wordSum 0
  rw [← bytes16_wordSum]
  simp only [Icmphdr.bytes, bytes16, List.cons_append, List.nil_append, wordSum_cons_cons,
    wordSum_nil] at hzero ⊢
  omega

/-- The header `icmp_hdr_setter` computes its checksum for. -/
def filledIcmp (b : Buffer) (reqIcmp : Icmphdr) (icmpType : UInt8) : Icmphdr :=
  let h := { b.icmpHdr with type := icmpType, code := icmpCode }
  if h.type = icmpUnreach ∨ h.type = icmpTimeExceeded then { h with id := 0, sequence := 0 }
  else if h.type = icmpEchoreply then { h with id := reqIcmp.id, sequence := reqIcmp.sequence }
  else h

theorem icmpHdrSetter_eq (b : Buffer) (reqIcmp : Icmphdr) (icmpType : UInt8) :
    icmpHdrSetter b reqIcmp icmpType =
      (b.setIcmpHdr { filledIcmp b reqIcmp icmpType with checksum := 0 }).setIcmpHdr
        { filledIcmp b reqIcmp icmpType with
          checksum := ipChecksum (payloadAddr 34)
            ((b.setIcmpHdr { filledIcmp b reqIcmp icmpType with checksum := 0 }).slice 34 28) } :=
  rfl

theorem icmpHdr_icmpHdrSetter (b : Buffer) (reqIcmp : Icmphdr) (icmpType : UInt8) :
    (icmpHdrSetter b reqIcmp icmpType).icmpHdr = { filledIcmp b reqIcmp icmpType with
      checksum := ipChecksum (payloadAddr 34)
        ((b.setIcmpHdr { filledIcmp b reqIcmp icmpType with checksum := 0 }).slice 34 28) } := by
  rw [icmpHdrSetter_eq, icmpHdr_setIcmpHdr]

/-- **The checksum of `icmp_hdr_setter`** is that of the header alone, as long as the
buffer behind it is empty: zeros add nothing to a word sum. -/
theorem dvd_wordSum_icmpHdrSetter {b : Buffer} (hzero : ∀ i, 42 ≤ i → b i = 0)
    (reqIcmp : Icmphdr) (icmpType : UInt8) :
    65535 ∣ wordSum (icmpHdrSetter b reqIcmp icmpType).icmpHdr.bytes := by
  set h := filledIcmp b reqIcmp icmpType with hh
  set reply := b.setIcmpHdr { h with checksum := 0 }
  have hslice : reply.slice 34 28 = { h with checksum := 0 }.bytes ++ List.replicate 20 0 := by
    rw [← Buffer.slice_eq_replicate hzero]
    exact Buffer.slice_store b 34 20 { h with checksum := 0 }.bytes
  have hsum : wordSum (reply.slice 34 28) = wordSum { h with checksum := 0 }.bytes := by
    rw [hslice, wordSum_append _ ⟨4, rfl⟩, wordSum_replicate_zero, Nat.add_zero]
  rw [icmpHdr_icmpHdrSetter, ← hh, wordSum_icmp_bytes]
  show 65535 ∣ wordSum { h with checksum := 0 }.bytes +
    (ntohs (ipChecksum (payloadAddr 34) (reply.slice 34 28))).toNat
  rw [← hsum]
  exact dvd_wordSum_add_ipChecksum _ (by simp)

/-! ### The packet -/

/-- What is behind the 42 bytes that `send_icmp` transmits is empty. -/
theorem payload_headers_beyond (eth : EtherHeader) (ip : Iphdr) {i : ℕ} (hi : 42 ≤ i) :
    (Buffer.setIpHdr (Buffer.setEthHdr (fun _ => 0) eth) ip) i = 0 := by
  unfold Buffer.setIpHdr Buffer.setEthHdr Buffer.store
  rw [if_neg (by simp; omega), if_neg (by simp; omega)]

/-- A transmitted ICMP packet is what its headers say: its length is the one in the IP
header, which verifies, and so does the message over the bytes that are sent. -/
structure VerifiesOnArrival (f : Frame) : Prop where
  totLen : (f.bytes.drop 14).length = (ntohs f.payload.ipHdr.totLen).toNat
  header : ∀ addr, ipChecksum addr ((f.bytes.drop 14).take 20) = 0
  message : ∀ addr, ipChecksum addr
    ((f.bytes.drop 34).take ((ntohs f.payload.ipHdr.totLen).toNat - 20)) = 0

section Sent

variable (ifs : Interfaces) (reqPkt : Packet) (icmpType : UInt8)

theorem ipHdr_sendIcmp : (sendIcmp ifs reqPkt icmpType).payload.ipHdr =
    ipHdrSetter reqPkt.payload.ipHdr (ifs.ip reqPkt.interface) := by
  have hread : (sendIcmp ifs reqPkt icmpType).payload.ipHdr =
      (icmpReply ifs reqPkt icmpType).payload.ipHdr :=
    ipHdr_congr fun i hi => payload_sendPacket (icmpReply ifs reqPkt icmpType)
      (show i < 42 by omega)
  rw [hread, ipHdr_icmpReply]

theorem icmpHdr_sendIcmp : (sendIcmp ifs reqPkt icmpType).payload.icmpHdr =
    (icmpReply ifs reqPkt icmpType).payload.icmpHdr :=
  icmpHdr_congr fun _ hi => payload_sendPacket (icmpReply ifs reqPkt icmpType) hi

/-- The bytes behind the Ethernet header, and behind the IP header. -/
theorem drop_bytes_sendIcmp (o : ℕ) : (sendIcmp ifs reqPkt icmpType).bytes.drop o =
    (icmpReply ifs reqPkt icmpType).payload.slice o (42 - o) := by
  show (Buffer.slice _ 0 42).drop o = _
  rw [Buffer.drop_slice, Nat.zero_add]

/-- The ICMP header of the reply adds up, its checksum included. -/
theorem dvd_wordSum_icmpReply :
    65535 ∣ wordSum (icmpReply ifs reqPkt icmpType).payload.icmpHdr.bytes :=
  dvd_wordSum_icmpHdrSetter (fun _ hi => payload_headers_beyond _ _ hi)
    reqPkt.payload.icmpHdr icmpType

theorem verifiesOnArrival_sendIcmp : VerifiesOnArrival (sendIcmp ifs reqPkt icmpType) := by
  have hlen : (ntohs (sendIcmp ifs reqPkt icmpType).payload.ipHdr.totLen).toNat = 28 := by
    rw [ipHdr_sendIcmp]
    show (ntohs (htons 28)).toNat = 28
    rw [ntohs_ntohs]
    rfl
  refine ⟨?_, fun addr => ?_, fun addr => ?_⟩
  · rw [drop_bytes_sendIcmp, Buffer.length_slice, hlen]
  · -- the header is read off the reply
    rw [drop_bytes_sendIcmp, Buffer.take_slice _ _ _ (by omega), ← bytes_ipHdr,
      ipChecksum_eq_zero_iff _ (by simp), ← verifies_iff, ipHdr_icmpReply]
    exact verifies_of_check _ _ rfl
  · rw [drop_bytes_sendIcmp, hlen, Buffer.take_slice _ _ _ (by omega)]
    show ipChecksum addr (Buffer.slice _ 34 8) = 0
    rw [← bytes_icmpHdr, ipChecksum_eq_zero_iff _ (by simp)]
    exact dvd_wordSum_icmpReply ifs reqPkt icmpType

end Sent

/-- **Originated packets verify**, whatever packet they answer and whatever their
type: the length field covers the bytes that are sent, the IP header verifies, and the
ICMP checksum verifies over exactly the message.  An echo reply carries the identifier
and the sequence number of its request. -/
theorem sendIcmp_verifies (ifs : Interfaces) (reqPkt : Packet) :
    (∀ icmpType, (sendIcmp ifs reqPkt icmpType).payload.icmpHdr.type = icmpType ∧
      VerifiesOnArrival (sendIcmp ifs reqPkt icmpType)) ∧
    (sendIcmp ifs reqPkt icmpEchoreply).payload.icmpHdr.id = reqPkt.payload.icmpHdr.id ∧
    (sendIcmp ifs reqPkt icmpEchoreply).payload.icmpHdr.sequence =
      reqPkt.payload.icmpHdr.sequence := by
  refine ⟨fun icmpType => ⟨?_, verifiesOnArrival_sendIcmp ifs reqPkt icmpType⟩, ?_, ?_⟩
  · rw [icmpHdr_sendIcmp, type_icmpReply]
  · rw [icmpHdr_sendIcmp]
    show (icmpHdrSetter _ reqPkt.payload.icmpHdr icmpEchoreply).icmpHdr.id = _
    rw [icmpHdr_icmpHdrSetter]
    rfl
  · rw [icmpHdr_sendIcmp]
    show (icmpHdrSetter _ reqPkt.payload.icmpHdr icmpEchoreply).icmpHdr.sequence = _
    rw [icmpHdr_icmpHdrSetter]
    rfl

end TemePCom.Router
