/-
TemePCom/Router/Arp.lean

ARP (arp.c): the table and its search, requests and replies, and the queue of
packets that wait for an address.

The queue holds *pointers*: `queue_enq` is handed the address of a packet, and
`search_queue` reads and rewrites the packet behind the address it dequeues.  A
`Memory` says which packet every address holds.  A packet whose next hop is
still unknown goes back to the end of the queue it came from; the auxiliary
queue is created, emptied and never filled.
-/
import TemePCom.Router.IpIcmp

namespace TemePCom.Router

/-- `struct arp_entry`. -/
structure ArpEntry where
  ip : UInt32
  mac : Mac
  deriving DecidableEq

def etherHtype : UInt16 := 1
def ethAlen : UInt8 := 6
def ipv4ProtoLen : UInt8 := 4
def arpopRequest : UInt16 := 1
def arpopReply : UInt16 := 2

/-- `arp_hdr_setter`. -/
def arpHdrSetter (arpOp : UInt16) (destMac : Mac) (destIp : UInt32) (sourceMac : Mac)
    (sourceIp : UInt32) : ArpHeader where
  htype := htons etherHtype
  ptype := htons ethertypeIp
  hlen := ethAlen
  plen := ipv4ProtoLen
  op := htons arpOp
  sha := sourceMac
  spa := sourceIp
  tha := destMac
  tpa := destIp

/-- `search_arp`: the first entry for the address. -/
def searchArp (arpTable : List ArpEntry) (ip : UInt32) : Option ArpEntry :=
  arpTable.find? fun e => e.ip = ip

/-- `add_arp_entry`, on the contents of the table. -/
def addArpEntry (arpTable : List ArpEntry) (ip : UInt32) (mac : Mac) : List ArpEntry :=
  arpTable ++ [⟨ip, mac⟩]

/-- The table knows an address it has just learned for the first time. -/
theorem searchArp_addArpEntry {arpTable : List ArpEntry} {ip : UInt32} (mac : Mac)
    (h : searchArp arpTable ip = none) :
    searchArp (addArpEntry arpTable ip mac) ip = some ⟨ip, mac⟩ := by
  unfold searchArp addArpEntry at *
  rw [List.find?_append, h]
  simp

/-- The part of the router's surroundings that stays fixed while it runs. -/
structure Env where
  rtable : List RtableEntry
  ifs : Interfaces

/-! ### Requests and replies -/

/-- `arp_requester`. -/
def arpRequester (ifs : Interfaces) (route : RtableEntry) : Frame :=
  let payload : Buffer := fun _ => 0
  let sourceMac := ifs.mac route.interface
  let payload := payload.setEthHdr (ethHdrSetter (fun _ => 0xff) sourceMac ethertypeArp)
  let payload := payload.setArpHdr (arpHdrSetter arpopRequest (fun _ => 0) route.nextHop
    sourceMac (ifs.ip route.interface))
  sendPacket { len := 14 + 28, payload := payload, interface := route.interface }

/-- `arp_replier`. -/
def arpReplier (ifs : Interfaces) (base : Packet) : Frame :=
  let baseArp := base.payload.arpHdr
  let payload : Buffer := fun _ => 0
  let sourceMac := ifs.mac base.interface
  let payload := payload.setEthHdr (ethHdrSetter baseArp.sha sourceMac ethertypeArp)
  let payload := payload.setArpHdr (arpHdrSetter arpopReply baseArp.sha baseArp.spa
    sourceMac baseArp.tpa)
  sendPacket { len := 14 + 28, payload := payload, interface := base.interface }

/-! ### The waiting queue -/

/-- The address of a `packet`. -/
abbrev Addr : Type := ℕ

/-- Which packet each address holds. -/
abbrev Memory : Type := Addr → Packet

/-- The variables of `search_queue`, and what it has sent so far. -/
structure SearchState where
  mem : Memory
  noMacDestQueue : List Addr
  aux : List Addr
  sent : List Frame

/-- The packet with its Ethernet addresses completed. -/
def addressed (ifs : Interfaces) (crt : Packet) (route : RtableEntry) (existing : ArpEntry) :
    Packet :=
  { crt with payload := crt.payload.setEthHdr { crt.payload.ethHdr with
      etherDhost := existing.mac
      etherShost := ifs.mac route.interface } }

/-- One round of the loop: what happens to the dequeued `crt`. -/
def searchRound (env : Env) (arpTable : List ArpEntry) (s : SearchState) (crt : Addr)
    (rest : List Addr) : Except Fault SearchState :=
  match getBestRoute env.rtable (s.mem crt).payload.ipHdr.daddr with
  | .error fault => .error fault
  -- `route->next_hop` with `route == NULL`
  | .ok none => .error .nullDeref
  | .ok (some route) =>
    match searchArp arpTable route.nextHop with
    | some existing =>
      let p := addressed env.ifs (s.mem crt) route existing
      .ok { s with
        mem := Function.update s.mem crt p
        noMacDestQueue := rest
        sent := s.sent ++ [sendPacket p] }
    -- back into the queue it came from, not into `aux`
    | none => .ok { s with noMacDestQueue := rest ++ [crt] }

/-- `while (!queue_empty(no_mac_dest_queue))`, as a transition function. -/
def searchStep (env : Env) (arpTable : List ArpEntry) :
    Except Fault SearchState → Option (Except Fault SearchState)
  | .error _ => none
  | .ok s =>
    match s.noMacDestQueue with
    | [] => none
    | crt :: rest => some (searchRound env arpTable s crt rest)

/-- `while (!queue_empty(aux))`: move the auxiliary queue back. -/
def SearchState.drainAux (s : SearchState) : SearchState :=
  { s with noMacDestQueue := s.noMacDestQueue ++ s.aux, aux := [] }

/-- `search_queue`: undefined where its loop does not end. -/
def searchQueue (env : Env) (arpTable : List ArpEntry) (mem : Memory) (queue : List Addr) :
    Part (Except Fault SearchState) :=
  (StateTransition.eval (searchStep env arpTable) (.ok ⟨mem, queue, [], []⟩)).map
    fun r => r.map SearchState.drainAux

end TemePCom.Router
