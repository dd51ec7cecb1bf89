/-
TemePCom/Router/IpIcmp.lean

IP and ICMP (ip_icmp.c): the header setters of the packets the router
originates, the handler of echo requests, the validity test of a received
packet and the incremental checksum.

A reply is built in a fresh, zeroed payload.  `icmp_hdr_setter` takes its
checksum over `sizeof(struct icmp)` = 28 bytes of that payload, 20 more than
the header it fills in.
-/
import TemePCom.Router.RouterFuns

namespace TemePCom.Router

/-! ### Constants of the system headers and of ip_icmp.h -/

def ethertypeIp : UInt16 := 0x0800
def ethertypeArp : UInt16 := 0x0806

def ipprotoIcmp : UInt8 := 1

def icmpEchoreply : UInt8 := 0
/-- Also `ICMP_DEST_UNREACH`. -/
def icmpUnreach : UInt8 := 3
def icmpEcho : UInt8 := 8
def icmpTimeExceeded : UInt8 := 11

def bestEffort : UInt8 := 0
def icmpCode : UInt8 := 0
def icmpId : UInt16 := 1337

/-- What `get_interface_ip` (through `inet_addr`) and `get_interface_mac` answer. -/
structure Interfaces where
  ip : ℕ → UInt32
  mac : ℕ → Mac

/-- The address of `payload[o]`: a `packet` is aligned to four bytes and its
payload follows an `int`. -/
def payloadAddr (o : ℕ) : ℕ := 4 + o

/-! ### Setters -/

/-- `ip_hdr_setter`, up to the checksum. -/
def ipHdrUnchecked (reqIphdr : Iphdr) (interfIp : UInt32) : Iphdr where
  ihl := 5
  version := 4
  tos := bestEffort
  totLen := htons 28
  id := htons icmpId
  fragOff := reqIphdr.fragOff
  ttl := reqIphdr.ttl
  protocol := ipprotoIcmp
  saddr := interfIp
  daddr := reqIphdr.saddr
  check := 0

/-- `ip_hdr_setter`. -/
def ipHdrSetter (reqIphdr : Iphdr) (interfIp : UInt32) : Iphdr :=
  let reply := ipHdrUnchecked reqIphdr interfIp
  { reply with check := ipChecksum (payloadAddr 14) reply.bytes }

/-- `icmp_hdr_setter` on the payload of the reply. -/
def icmpHdrSetter (reply : Buffer) (reqIcmp : Icmphdr) (icmpType : UInt8) : Buffer :=
  let h := { reply.icmpHdr with type := icmpType, code := icmpCode }
  let h :=
    if h.type = icmpUnreach ∨ h.type = icmpTimeExceeded then { h with id := 0, sequence := 0 }
    else if h.type = icmpEchoreply then
      { h with id := reqIcmp.id, sequence := reqIcmp.sequence }
    else h
  -- the checksum runs over `sizeof(struct icmp)` bytes
  let reply := reply.setIcmpHdr { h with checksum := 0 }
  reply.setIcmpHdr { h with checksum := ipChecksum (payloadAddr 34) (reply.slice 34 28) }

/-- The packet `send_icmp` puts together. -/
def icmpReply (ifs : Interfaces) (reqPkt : Packet) (icmpType : UInt8) : Packet :=
  let payload : Buffer := fun _ => 0
  let payload := payload.setEthHdr (ethHdrSetter reqPkt.payload.ethHdr.etherShost
    (ifs.mac reqPkt.interface) ethertypeIp)
  let payload := payload.setIpHdr (ipHdrSetter reqPkt.payload.ipHdr (ifs.ip reqPkt.interface))
  { len := 14 + 20 + 8
    payload := icmpHdrSetter payload reqPkt.payload.icmpHdr icmpType
    interface := reqPkt.interface }

/-- `send_icmp`. -/
def sendIcmp (ifs : Interfaces) (reqPkt : Packet) (icmpType : UInt8) : Frame :=
  sendPacket (icmpReply ifs reqPkt icmpType)

/-! ### Handlers -/

/-- The test of `icmp_handler`: an echo request for the ingress interface. -/
def isEchoForUs (ifs : Interfaces) (pkt : Packet) : Bool :=
  pkt.payload.ipHdr.protocol = ipprotoIcmp ∧ pkt.payload.icmpHdr.type = icmpEcho ∧
    pkt.payload.ipHdr.daddr = ifs.ip pkt.interface

/-- `icmp_handler`: whether a reply has been sent, and what was sent. -/
def icmpHandler (ifs : Interfaces) (pkt : Packet) : Bool × List Frame :=
  if isEchoForUs ifs pkt then (true, [sendIcmp ifs pkt icmpEchoreply]) else (false, [])

/-- Whether the IP header of a packet verifies. -/
def verifies (h : Iphdr) : Bool := ipChecksum (payloadAddr 14) h.bytes = 0

/-- `is_garbage`: whether the packet is thrown away, and what was sent. -/
def isGarbage (ifs : Interfaces) (pkt : Packet) : Bool × List Frame :=
  if ¬ verifies pkt.payload.ipHdr then (true, [])
  -- answered before it is thrown away
  else if pkt.payload.ipHdr.ttl < 2 then (true, [sendIcmp ifs pkt icmpTimeExceeded])
  else (false, [])

/-- `incremental_checksum`. -/
def incrementalChecksum (ipHdr : Iphdr) : Iphdr :=
  let mask := (1 : UInt16) <<< 8
  let auxSum : UInt32 := (ntohs ipHdr.check).toUInt32 + mask.toUInt32
  { ipHdr with
    ttl := ipHdr.ttl - 1
    check := htons (auxSum + (auxSum >>> 16)).toUInt16 }

end TemePCom.Router
