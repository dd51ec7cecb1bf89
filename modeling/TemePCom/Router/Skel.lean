/-
TemePCom/Router/Skel.lean

The data the router works on (skel.h, <net/ethernet.h>, <netinet/ip.h>,
<netinet/ip_icmp.h>) and the byte order of its host.

The program overlays header structs on one byte buffer, `packet.payload`, at
fixed offsets: Ethernet at 0, then IP or ARP at 14, ICMP at 34.  Here a payload
is a map from offsets to bytes, a header is a structure of the values the
fields hold *as the host loads them*, and the overlay is a pair of functions
per header: `ipHdr` reads the structure off the buffer, `setIpHdr` stores it
back.  The host is little-endian, so a 16-bit field whose bytes are in network
order holds the swapped number until `ntohs` is applied.
-/
import TemePCom.Lib.OnesComplement

namespace TemePCom.Router

/-! ### Byte order -/

/-- The bytes of a 16-bit field in memory. -/
def bytes16 (x : UInt16) : List UInt8 :=
  [UInt8.ofNat (x.toNat % 256), UInt8.ofNat (x.toNat / 256)]

/-- Load a 16-bit field. -/
def load16 (a b : UInt8) : UInt16 := UInt16.ofNat (a.toNat + 256 * b.toNat)

/-- The bytes of a 32-bit field in memory. -/
def bytes32 (x : UInt32) : List UInt8 :=
  [UInt8.ofNat (x.toNat % 256), UInt8.ofNat (x.toNat / 256 % 256),
    UInt8.ofNat (x.toNat / 65536 % 256), UInt8.ofNat (x.toNat / 16777216)]

/-- Load a 32-bit field. -/
def load32 (a b c d : UInt8) : UInt32 :=
  UInt32.ofNat (a.toNat + 256 * b.toNat + 65536 * c.toNat + 16777216 * d.toNat)

/-- `ntohs` of a little-endian host: swap the two bytes. -/
def ntohs (x : UInt16) : UInt16 := UInt16.ofNat (256 * (x.toNat % 256) + x.toNat / 256)

/-- `htons` is the same swap. -/
abbrev htons (x : UInt16) : UInt16 := ntohs x

/-- `ntohl` of a little-endian host: reverse the four bytes. -/
def ntohl (x : UInt32) : UInt32 :=
  UInt32.ofNat (16777216 * (x.toNat % 256) + 65536 * (x.toNat / 256 % 256)
    + 256 * (x.toNat / 65536 % 256) + x.toNat / 16777216)

theorem ntohs_toNat (x : UInt16) : (ntohs x).toNat = 256 * (x.toNat % 256) + x.toNat / 256 := by
  have := x.toNat_lt
  rw [ntohs, UInt16.toNat_ofNat']
  omega

@[simp] theorem ntohs_ntohs (x : UInt16) : ntohs (ntohs x) = x := by
  have := x.toNat_lt
  apply UInt16.toNat_inj.mp
  rw [ntohs_toNat, ntohs_toNat]
  omega

theorem ntohs_injective : Function.Injective ntohs :=
  Function.LeftInverse.injective ntohs_ntohs

theorem ntohl_toNat (x : UInt32) :
    (ntohl x).toNat = 16777216 * (x.toNat % 256) + 65536 * (x.toNat / 256 % 256)
      + 256 * (x.toNat / 65536 % 256) + x.toNat / 16777216 := by
  have := x.toNat_lt
  rw [ntohl, UInt32.toNat_ofNat']
  omega

theorem load16_toNat (a b : UInt8) : (load16 a b).toNat = a.toNat + 256 * b.toNat := by
  have := a.toNat_lt
  have := b.toNat_lt
  rw [load16, UInt16.toNat_ofNat']
  omega

theorem load32_toNat (a b c d : UInt8) : (load32 a b c d).toNat =
    a.toNat + 256 * b.toNat + 65536 * c.toNat + 16777216 * d.toNat := by
  have := a.toNat_lt
  have := b.toNat_lt
  have := c.toNat_lt
  have := d.toNat_lt
  rw [load32, UInt32.toNat_ofNat']
  omega

/-- Loading four bytes and swapping gives their big-endian value. -/
theorem ntohl_load32_toNat (a b c d : UInt8) :
    (ntohl (load32 a b c d)).toNat = OnesComplement.block a b c d := by
  have := a.toNat_lt
  have := b.toNat_lt
  have := c.toNat_lt
  have h0 : (load32 a b c d).toNat % 256 = a.toNat := by rw [load32_toNat]; omega
  have h1 : (load32 a b c d).toNat / 256 % 256 = b.toNat := by rw [load32_toNat]; omega
  have h2 : (load32 a b c d).toNat / 65536 % 256 = c.toNat := by
    have := d.toNat_lt
    rw [load32_toNat]
    omega
  have h3 : (load32 a b c d).toNat / 16777216 = d.toNat := by rw [load32_toNat]; omega
  rw [ntohl_toNat, h0, h1, h2, h3, OnesComplement.block]

@[simp] theorem load16_bytes16 (x : UInt16) :
    load16 (UInt8.ofNat (x.toNat % 256)) (UInt8.ofNat (x.toNat / 256)) = x := by
  have := x.toNat_lt
  apply UInt16.toNat_inj.mp
  rw [load16, UInt16.toNat_ofNat', UInt8.toNat_ofNat', UInt8.toNat_ofNat']
  omega

@[simp] theorem load32_bytes32 (x : UInt32) :
    load32 (UInt8.ofNat (x.toNat % 256)) (UInt8.ofNat (x.toNat / 256 % 256))
      (UInt8.ofNat (x.toNat / 65536 % 256)) (UInt8.ofNat (x.toNat / 16777216)) = x := by
  have := x.toNat_lt
  apply UInt32.toNat_inj.mp
  rw [load32, UInt32.toNat_ofNat', UInt8.toNat_ofNat', UInt8.toNat_ofNat',
    UInt8.toNat_ofNat', UInt8.toNat_ofNat']
  omega

/-! ### Headers -/

/-- A hardware address, `uint8_t mac[ETH_ALEN]`. -/
abbrev Mac : Type := Fin 6 → UInt8

def Mac.bytes (m : Mac) : List UInt8 := [m 0, m 1, m 2, m 3, m 4, m 5]

/-- `struct ether_header`. -/
structure EtherHeader where
  etherDhost : Mac
  etherShost : Mac
  etherType : UInt16
  deriving DecidableEq

def EtherHeader.bytes (h : EtherHeader) : List UInt8 :=
  h.etherDhost.bytes ++ h.etherShost.bytes ++ bytes16 h.etherType

/-- `struct iphdr`; `ihl` and `version` share the first byte. -/
structure Iphdr where
  version : Fin 16
  ihl : Fin 16
  tos : UInt8
  totLen : UInt16
  id : UInt16
  fragOff : UInt16
  ttl : UInt8
  protocol : UInt8
  check : UInt16
  saddr : UInt32
  daddr : UInt32
  deriving DecidableEq

def Iphdr.bytes (h : Iphdr) : List UInt8 :=
  [UInt8.ofNat (16 * h.version.val + h.ihl.val), h.tos] ++ bytes16 h.totLen ++ bytes16 h.id ++
    bytes16 h.fragOff ++ [h.ttl, h.protocol] ++ bytes16 h.check ++ bytes32 h.saddr ++
    bytes32 h.daddr

/-- `struct icmphdr`, with the echo view of its union. -/
structure Icmphdr where
  type : UInt8
  code : UInt8
  checksum : UInt16
  id : UInt16
  sequence : UInt16
  deriving DecidableEq

def Icmphdr.bytes (h : Icmphdr) : List UInt8 :=
  [h.type, h.code] ++ bytes16 h.checksum ++ bytes16 h.id ++ bytes16 h.sequence

/-- `struct arp_header` (packed). -/
structure ArpHeader where
  htype : UInt16
  ptype : UInt16
  hlen : UInt8
  plen : UInt8
  op : UInt16
  sha : Mac
  spa : UInt32
  tha : Mac
  tpa : UInt32
  deriving DecidableEq

def ArpHeader.bytes (h : ArpHeader) : List UInt8 :=
  bytes16 h.htype ++ bytes16 h.ptype ++ [h.hlen, h.plen] ++ bytes16 h.op ++ h.sha.bytes ++
    bytes32 h.spa ++ h.tha.bytes ++ bytes32 h.tpa

@[simp] theorem EtherHeader.length_bytes (h : EtherHeader) : h.bytes.length = 14 := rfl
@[simp] theorem Iphdr.length_bytes (h : Iphdr) : h.bytes.length = 20 := rfl
@[simp] theorem Icmphdr.length_bytes (h : Icmphdr) : h.bytes.length = 8 := rfl
@[simp] theorem ArpHeader.length_bytes (h : ArpHeader) : h.bytes.length = 28 := rfl

/-! ### Packets -/

/-- `MAX_LEN`, the size of a packet's payload buffer. -/
def maxLen : ℕ := 1600

/-- The bytes of a payload buffer, by offset. -/
abbrev Buffer : Type := ℕ → UInt8

/-- Store a byte list at offset `o`. -/
def Buffer.store (b : Buffer) (o : ℕ) (l : List UInt8) : Buffer := fun i =>
  if o ≤ i ∧ i < o + l.length then l.getD (i - o) 0 else b i

/-- The `n` bytes at offset `o`. -/
def Buffer.slice (b : Buffer) (o n : ℕ) : List UInt8 := (List.range n).map fun i => b (o + i)

/-- `packet`. -/
structure Packet where
  len : ℕ
  payload : Buffer
  interface : ℕ

/-- What one `read` or `write` moves: an interface and the bytes on the wire. -/
structure Frame where
  interface : ℕ
  bytes : List UInt8
  deriving DecidableEq

def Buffer.mac (b : Buffer) (o : ℕ) : Mac :=
  ![b o, b (o + 1), b (o + 2), b (o + 3), b (o + 4), b (o + 5)]

def Buffer.u16 (b : Buffer) (o : ℕ) : UInt16 := load16 (b o) (b (o + 1))

def Buffer.u32 (b : Buffer) (o : ℕ) : UInt32 :=
  load32 (b o) (b (o + 1)) (b (o + 2)) (b (o + 3))

/-- `(struct ether_header *) payload`. -/
def Buffer.ethHdr (b : Buffer) : EtherHeader where
  etherDhost := b.mac 0
  etherShost := b.mac 6
  etherType := b.u16 12

/-- `(struct iphdr *) (payload + sizeof(struct ether_header))`. -/
def Buffer.ipHdr (b : Buffer) : Iphdr where
  version := ⟨(b 14).toNat / 16, by have := (b 14).toNat_lt; omega⟩
  ihl := ⟨(b 14).toNat % 16, by omega⟩
  tos := b 15
  totLen := b.u16 16
  id := b.u16 18
  fragOff := b.u16 20
  ttl := b 22
  protocol := b 23
  check := b.u16 24
  saddr := b.u32 26
  daddr := b.u32 30

/-- The ICMP header, right behind an IP header without options. -/
def Buffer.icmpHdr (b : Buffer) : Icmphdr where
  type := b 34
  code := b 35
  checksum := b.u16 36
  id := b.u16 38
  sequence := b.u16 40

/-- `(struct arp_header *) (payload + sizeof(struct ether_header))`. -/
def Buffer.arpHdr (b : Buffer) : ArpHeader where
  htype := b.u16 14
  ptype := b.u16 16
  hlen := b 18
  plen := b 19
  op := b.u16 20
  sha := b.mac 22
  spa := b.u32 28
  tha := b.mac 32
  tpa := b.u32 38

def Buffer.setEthHdr (b : Buffer) (h : EtherHeader) : Buffer := b.store 0 h.bytes
def Buffer.setIpHdr (b : Buffer) (h : Iphdr) : Buffer := b.store 14 h.bytes
def Buffer.setIcmpHdr (b : Buffer) (h : Icmphdr) : Buffer := b.store 34 h.bytes
def Buffer.setArpHdr (b : Buffer) (h : ArpHeader) : Buffer := b.store 14 h.bytes

/-- `send_packet`: write the first `len` bytes of the payload. -/
def sendPacket (m : Packet) : Frame := ⟨m.interface, m.payload.slice 0 m.len⟩

/-- `get_packet`: read a frame into the buffer, which keeps its old bytes
behind the ones received. -/
def getPacket (m : Packet) (f : Frame) : Packet where
  len := (f.bytes.take maxLen).length
  payload := m.payload.store 0 (f.bytes.take maxLen)
  interface := f.interface

@[simp] theorem Buffer.length_slice (b : Buffer) (o n : ℕ) : (b.slice o n).length = n := by
  simp [Buffer.slice]

theorem Buffer.drop_slice (b : Buffer) (o n k : ℕ) :
    (b.slice o n).drop k = b.slice (o + k) (n - k) := by
  apply List.ext_getElem
  · simp
  · intro i h₁ h₂
    simp [slice, Nat.add_assoc]

theorem Buffer.take_slice (b : Buffer) (o n : ℕ) {k : ℕ} (h : k ≤ n) :
    (b.slice o n).take k = b.slice o k := by
  apply List.ext_getElem
  · simpa using h
  · intro i h₁ h₂
    simp [slice]

theorem Buffer.store_zero_apply {b : Buffer} {l : List UInt8} {i : ℕ} (h : i < l.length) :
    b.store 0 l i = l[i] := by
  simp [Buffer.store, h]

/-- Reading back a part of the bytes stored at the start of a buffer. -/
theorem Buffer.slice_store_zero (b : Buffer) {l : List UInt8} {o n : ℕ}
    (h : o + n ≤ l.length) : (b.store 0 l).slice o n = (l.drop o).take n := by
  apply List.ext_getElem
  · simp only [length_slice, List.length_take, List.length_drop]
    omega
  · intro i h₁ h₂
    rw [length_slice] at h₁
    simp only [slice, List.getElem_map, List.getElem_range, List.getElem_take, List.getElem_drop]
    exact store_zero_apply (by omega)

/-- A frame that fits the buffer is received whole. -/
theorem getPacket_of_le {m : Packet} {f : Frame} (h : f.bytes.length ≤ maxLen) :
    getPacket m f = ⟨f.bytes.length, m.payload.store 0 f.bytes, f.interface⟩ := by
  rw [getPacket, List.take_of_length_le h]

/-! ### Overlay laws -/

@[simp] theorem ethHdr_setEthHdr (b : Buffer) (h : EtherHeader) :
    (b.setEthHdr h).ethHdr = h := by
  obtain ⟨d, s, t⟩ := h
  have hd : (b.setEthHdr ⟨d, s, t⟩).mac 0 = d := by funext i; fin_cases i <;> rfl
  have hs : (b.setEthHdr ⟨d, s, t⟩).mac 6 = s := by funext i; fin_cases i <;> rfl
  have ht : (b.setEthHdr ⟨d, s, t⟩).u16 12 = t := load16_bytes16 t
  rw [Buffer.ethHdr, hd, hs, ht]

@[simp] theorem ipHdr_setIpHdr (b : Buffer) (h : Iphdr) : (b.setIpHdr h).ipHdr = h := by
  obtain ⟨⟨v, hv⟩, ⟨l, hl⟩, tos, tot, id, frag, ttl, proto, check, s, d⟩ := h
  have hfirst : (UInt8.ofNat (16 * v + l)).toNat = 16 * v + l := by
    rw [UInt8.toNat_ofNat']
    omega
  have hver : (UInt8.ofNat (16 * v + l)).toNat / 16 = v := by omega
  have hihl : (UInt8.ofNat (16 * v + l)).toNat % 16 = l := by omega
  exact Iphdr.mk.injEq .. |>.mpr ⟨Fin.ext hver, Fin.ext hihl, rfl, load16_bytes16 tot,
    load16_bytes16 id, load16_bytes16 frag, rfl, rfl, load16_bytes16 check,
    load32_bytes32 s, load32_bytes32 d⟩

@[simp] theorem icmpHdr_setIcmpHdr (b : Buffer) (h : Icmphdr) :
    (b.setIcmpHdr h).icmpHdr = h := by
  obtain ⟨t, c, k, i, s⟩ := h
  exact Icmphdr.mk.injEq .. |>.mpr ⟨rfl, rfl, load16_bytes16 k, load16_bytes16 i,
    load16_bytes16 s⟩

@[simp] theorem arpHdr_setArpHdr (b : Buffer) (h : ArpHeader) :
    (b.setArpHdr h).arpHdr = h := by
  obtain ⟨ht, pt, hl, pl, op, sha, spa, tha, tpa⟩ := h
  have hsha : (b.setArpHdr ⟨ht, pt, hl, pl, op, sha, spa, tha, tpa⟩).mac 22 = sha := by
    funext i; fin_cases i <;> rfl
  have htha : (b.setArpHdr ⟨ht, pt, hl, pl, op, sha, spa, tha, tpa⟩).mac 32 = tha := by
    funext i; fin_cases i <;> rfl
  exact ArpHeader.mk.injEq .. |>.mpr ⟨load16_bytes16 ht, load16_bytes16 pt, rfl, rfl,
    load16_bytes16 op, hsha, load32_bytes32 spa, htha, load32_bytes32 tpa⟩

@[simp] theorem ipHdr_setEthHdr (b : Buffer) (h : EtherHeader) :
    (b.setEthHdr h).ipHdr = b.ipHdr := rfl

@[simp] theorem icmpHdr_setEthHdr (b : Buffer) (h : EtherHeader) :
    (b.setEthHdr h).icmpHdr = b.icmpHdr := rfl

@[simp] theorem arpHdr_setEthHdr (b : Buffer) (h : EtherHeader) :
    (b.setEthHdr h).arpHdr = b.arpHdr := rfl

@[simp] theorem ethHdr_setIpHdr (b : Buffer) (h : Iphdr) :
    (b.setIpHdr h).ethHdr = b.ethHdr := rfl

@[simp] theorem icmpHdr_setIpHdr (b : Buffer) (h : Iphdr) :
    (b.setIpHdr h).icmpHdr = b.icmpHdr := rfl

@[simp] theorem ethHdr_setIcmpHdr (b : Buffer) (h : Icmphdr) :
    (b.setIcmpHdr h).ethHdr = b.ethHdr := rfl

@[simp] theorem ipHdr_setIcmpHdr (b : Buffer) (h : Icmphdr) :
    (b.setIcmpHdr h).ipHdr = b.ipHdr := rfl

@[simp] theorem ethHdr_setArpHdr (b : Buffer) (h : ArpHeader) :
    (b.setArpHdr h).ethHdr = b.ethHdr := rfl

theorem bytes16_u16 (b : Buffer) (o : ℕ) : bytes16 (b.u16 o) = [b o, b (o + 1)] := by
  have := (b o).toNat_lt
  have := (b (o + 1)).toNat_lt
  rw [bytes16, Buffer.u16, load16_toNat]
  simp only [List.cons.injEq, and_true]
  constructor <;>
    · apply UInt8.toNat_inj.mp
      rw [UInt8.toNat_ofNat']
      omega

theorem bytes32_u32 (b : Buffer) (o : ℕ) :
    bytes32 (b.u32 o) = [b o, b (o + 1), b (o + 2), b (o + 3)] := by
  have := (b o).toNat_lt
  have := (b (o + 1)).toNat_lt
  have := (b (o + 2)).toNat_lt
  have := (b (o + 3)).toNat_lt
  rw [bytes32, Buffer.u32, load32_toNat]
  simp only [List.cons.injEq, and_true]
  refine ⟨?_, ?_, ?_, ?_⟩ <;>
    · apply UInt8.toNat_inj.mp
      rw [UInt8.toNat_ofNat']
      omega

/-- A header read off a buffer is the bytes of the buffer. -/
theorem bytes_ipHdr (b : Buffer) : b.ipHdr.bytes = b.slice 14 20 := by
  have hfirst : UInt8.ofNat (16 * b.ipHdr.version.val + b.ipHdr.ihl.val) = b 14 := by
    have hlt := (b 14).toNat_lt
    have hv : b.ipHdr.version.val = (b 14).toNat / 16 := rfl
    have hl : b.ipHdr.ihl.val = (b 14).toNat % 16 := rfl
    apply UInt8.toNat_inj.mp
    rw [UInt8.toNat_ofNat', hv, hl]
    omega
  unfold Iphdr.bytes
  rw [hfirst]
  simp only [Buffer.ipHdr, bytes16_u16, bytes32_u32]
  rfl

theorem bytes_icmpHdr (b : Buffer) : b.icmpHdr.bytes = b.slice 34 8 := by
  simp only [Icmphdr.bytes, Buffer.icmpHdr, bytes16_u16]
  rfl

/-! ### `ip_checksum` -/

/-- Addition in a `uint64_t`. -/
def add64 (a b : ℕ) : ℕ := (a + b) % 18446744073709551616

/-- `memcpy(&word, data, count)` into a zeroed word, then load it. -/
def loadWord (l : List UInt8) : UInt32 :=
  load32 (l.getD 0 0) (l.getD 1 0) (l.getD 2 0) (l.getD 3 0)

/-- `while (data != data_end)`: add up the complete 32-bit blocks; the bytes
left over are returned with the accumulator. -/
def sumBlocks (acc : ℕ) : List UInt8 → ℕ × List UInt8
  | a :: b :: c :: d :: rest => sumBlocks (add64 acc (ntohl (load32 a b c d)).toNat) rest
  | rest => (acc, rest)

/-- `while (acc >> 16) acc = (acc & 0xffff) + (acc >> 16);` -/
def foldCarries (acc : ℕ) : ℕ :=
  if _h : acc >>> 16 = 0 then acc else foldCarries ((acc &&& 0xffff) + (acc >>> 16))
termination_by acc
decreasing_by
  rw [Nat.shiftRight_eq_div_pow] at *
  have hand : acc &&& 0xffff = acc % 2 ^ 16 := Nat.and_two_pow_sub_one_eq_mod acc 16
  have := OnesComplement.fold_lt (b := 2 ^ 16) (by norm_num) (n := acc) (by omega)
  omega

/-- `ip_checksum(data, size)` for data at address `addr`. -/
def ipChecksum (addr : ℕ) (data : List UInt8) : UInt16 :=
  let offset := addr &&& 3
  -- a partial block in front of the first aligned address
  let count := if offset = 0 then 0 else min (4 - offset) data.length
  let acc := if offset = 0 then 0xffff else
    add64 0xffff (ntohl (loadWord (List.replicate offset 0 ++ data.take count))).toNat
  let blocks := sumBlocks acc (data.drop count)
  -- a partial block at the end
  let acc := if blocks.2 = [] then blocks.1 else
    add64 blocks.1 (ntohl (loadWord blocks.2)).toNat
  -- deferred carries
  let acc := foldCarries ((acc &&& 0xffffffff) + (acc >>> 32))
  let acc := if offset &&& 1 = 0 then acc else
    ((acc &&& 0xff00) >>> 8) ||| ((acc &&& 0x00ff) <<< 8)
  htons (~~~ UInt16.ofNat acc)

end TemePCom.Router
