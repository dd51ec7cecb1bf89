/-
TemePCom/Router/Main.lean

The main loop (router.c), one iteration at a time.

`main` keeps one packet buffer `m`, the ARP table and the waiting queue across
iterations.  The packet it parks is copied into the block-local `saved`, and it
is the *address* of `saved` that is enqueued; every iteration has its `saved` at
the same place, `savedAddr`.

An iteration is undefined where it does not end (`search_queue` may not), and a
`Fault` where the C code leaves its memory.
-/
import TemePCom.Router.Arp

namespace TemePCom.Router

/-- Where the block-local variable `saved` lives. -/
def savedAddr : Addr := 0

/-- The variables of `main` that an iteration may change. -/
structure State where
  m : Packet
  mem : Memory
  noMacDestQueue : List Addr
  arpTable : List ArpEntry

/-- What the IP branch leaves in `m`, sends, and copies into `saved`. -/
structure IpResult where
  m : Packet
  sent : List Frame
  saved : Option Packet

/-- The branch for IP packets, up to the enqueuing. -/
def ipBranch (env : Env) (arpTable : List ArpEntry) (m : Packet) : Except Fault IpResult :=
  -- `icmp_handler` comes before `is_garbage`
  let handled := icmpHandler env.ifs m
  if handled.1 then .ok ⟨m, handled.2, none⟩ else
  let garbage := isGarbage env.ifs m
  if garbage.1 then .ok ⟨m, garbage.2, none⟩ else
  match getBestRoute env.rtable m.payload.ipHdr.daddr with
  | .error fault => .error fault
  | .ok none => .ok ⟨m, [sendIcmp env.ifs m icmpUnreach], none⟩
  | .ok (some route) =>
    let m := { m with payload := m.payload.setIpHdr (incrementalChecksum m.payload.ipHdr) }
    match searchArp arpTable route.nextHop with
    -- ask for the next hop and save the packet
    | none =>
      .ok ⟨m, [arpRequester env.ifs route], some { m with interface := route.interface }⟩
    | some arpEntry =>
      let m := { m with
        payload := m.payload.setEthHdr
          (ethHdrSetter arpEntry.mac (env.ifs.mac route.interface) ethertypeIp)
        interface := route.interface }
      .ok ⟨m, [sendPacket m], none⟩

/-- The state after the IP branch: a saved packet overwrites `saved`, whose
address is enqueued. -/
def State.afterIp (s : State) (r : IpResult) : State :=
  match r.saved with
  | none => { s with m := r.m }
  | some p => { s with
      m := r.m
      mem := Function.update s.mem savedAddr p
      noMacDestQueue := s.noMacDestQueue ++ [savedAddr] }

/-- An ARP packet that `arp_handler` takes for a reply to this router. -/
def isReplyForUs (ifs : Interfaces) (pkt : Packet) : Bool :=
  ntohs pkt.payload.arpHdr.op ≠ arpopRequest ∧ htons pkt.payload.arpHdr.op = arpopReply ∧
    pkt.payload.arpHdr.tpa = ifs.ip pkt.interface

/-- The table after an accepted reply. -/
def learned (arpTable : List ArpEntry) (pkt : Packet) : List ArpEntry :=
  addArpEntry arpTable pkt.payload.arpHdr.spa pkt.payload.arpHdr.sha

/-- `arp_handler`. -/
def arpHandler (env : Env) (s : State) (pkt : Packet) :
    Part (Except Fault (State × List Frame)) :=
  if ntohs pkt.payload.arpHdr.op = arpopRequest then
    Part.some (.ok (s, [arpReplier env.ifs pkt]))
  else if isReplyForUs env.ifs pkt then
    (searchQueue env (learned s.arpTable pkt) s.mem s.noMacDestQueue).map fun r =>
      r.map fun q => ({ s with
        mem := q.mem
        noMacDestQueue := q.noMacDestQueue
        arpTable := learned s.arpTable pkt }, q.sent)
  else Part.some (.ok (s, []))

/-- One iteration of `while (1)` on a received frame. -/
def iteration (env : Env) (s : State) (frame : Frame) :
    Part (Except Fault (State × List Frame)) :=
  let s := { s with m := getPacket s.m frame }
  if htons s.m.payload.ethHdr.etherType = ethertypeIp then
    Part.some ((ipBranch env s.arpTable s.m).map fun r => (s.afterIp r, r.sent))
  else if htons s.m.payload.ethHdr.etherType = ethertypeArp then
    arpHandler env s s.m
  else Part.some (.ok (s, []))

/-- The router goes from `s` to `s'` on a frame. -/
def Next (env : Env) (s : State) (frame : Frame) (s' : State) : Prop :=
  ∃ sent, .ok (s', sent) ∈ iteration env s frame

/-- The state `main` enters its loop with; `m` is not initialised. -/
def State.start (m : Packet) (mem : Memory) : State where
  m := m
  mem := mem
  noMacDestQueue := []
  arpTable := []

/-! ### What the IP branch can do -/

section Cases

variable {env : Env} {arpTable : List ArpEntry} {m : Packet} {r : IpResult}

/-- The packet passes `icmp_handler` and `is_garbage`. -/
def Accepted (ifs : Interfaces) (m : Packet) : Prop :=
  isEchoForUs ifs m = false ∧ verifies m.payload.ipHdr = true ∧ ¬ m.payload.ipHdr.ttl < 2

/-- The packet after its TTL and checksum have been updated. -/
def aged (m : Packet) : Packet :=
  { m with payload := m.payload.setIpHdr (incrementalChecksum m.payload.ipHdr) }

/-- The packet as it is forwarded. -/
def forwarded (ifs : Interfaces) (m : Packet) (route : RtableEntry) (arpEntry : ArpEntry) :
    Packet :=
  { aged m with
    payload := (aged m).payload.setEthHdr
      (ethHdrSetter arpEntry.mac (ifs.mac route.interface) ethertypeIp)
    interface := route.interface }

/-- **The outcomes of the IP branch**, with their guards: an echo reply, silent
discard, time exceeded, destination unreachable, parking, forwarding. -/
theorem ipBranch_cases (h : ipBranch env arpTable m = .ok r) :
    (isEchoForUs env.ifs m = true ∧ r = ⟨m, [sendIcmp env.ifs m icmpEchoreply], none⟩) ∨
    (isEchoForUs env.ifs m = false ∧ verifies m.payload.ipHdr = false ∧ r = ⟨m, [], none⟩) ∨
    (isEchoForUs env.ifs m = false ∧ verifies m.payload.ipHdr = true ∧
      m.payload.ipHdr.ttl < 2 ∧ r = ⟨m, [sendIcmp env.ifs m icmpTimeExceeded], none⟩) ∨
    (Accepted env.ifs m ∧ getBestRoute env.rtable m.payload.ipHdr.daddr = .ok none ∧
      r = ⟨m, [sendIcmp env.ifs m icmpUnreach], none⟩) ∨
    (Accepted env.ifs m ∧ ∃ route,
      getBestRoute env.rtable m.payload.ipHdr.daddr = .ok (some route) ∧
      searchArp arpTable route.nextHop = none ∧
      r = ⟨aged m, [arpRequester env.ifs route],
        some { aged m with interface := route.interface }⟩) ∨
    (Accepted env.ifs m ∧ ∃ route arpEntry,
      getBestRoute env.rtable m.payload.ipHdr.daddr = .ok (some route) ∧
      searchArp arpTable route.nextHop = some arpEntry ∧
      r = ⟨forwarded env.ifs m route arpEntry,
        [sendPacket (forwarded env.ifs m route arpEntry)], none⟩) := by
  unfold ipBranch icmpHandler isGarbage at h
  by_cases hecho : isEchoForUs env.ifs m = true
  · simp only [hecho, if_true] at h
    exact Or.inl ⟨hecho, (Except.ok.inj h).symm⟩
  have hecho' : isEchoForUs env.ifs m = false := by simpa using hecho
  -- `is_garbage`: first the checksum, then the TTL
  by_cases hver : verifies m.payload.ipHdr = true
  swap
  · have hver' : verifies m.payload.ipHdr = false := by simpa using hver
    simp only [hecho', hver', Bool.false_eq_true, if_false, not_false_eq_true, if_true] at h
    exact Or.inr (Or.inl ⟨hecho', hver', (Except.ok.inj h).symm⟩)
  by_cases httl : m.payload.ipHdr.ttl < 2
  · simp only [hecho', hver, httl, Bool.false_eq_true, if_false, not_true_eq_false, if_true] at h
    exact Or.inr (Or.inr (Or.inl ⟨hecho', hver, httl, (Except.ok.inj h).symm⟩))
  have hacc : Accepted env.ifs m := ⟨hecho', hver, httl⟩
  simp only [hecho', hver, httl, Bool.false_eq_true, if_false, not_true_eq_false] at h
  rcases hroute : getBestRoute env.rtable m.payload.ipHdr.daddr with fault | (- | route)
  · simp [hroute] at h
  · simp only [hroute] at h
    exact Or.inr (Or.inr (Or.inr (Or.inl ⟨hacc, rfl, (Except.ok.inj h).symm⟩)))
  · simp only [hroute] at h
    rcases harp : searchArp arpTable route.nextHop with - | arpEntry
    · simp only [harp] at h
      exact Or.inr (Or.inr (Or.inr (Or.inr (Or.inl
        ⟨hacc, route, rfl, harp, (Except.ok.inj h).symm⟩))))
    · simp only [harp] at h
      exact Or.inr (Or.inr (Or.inr (Or.inr (Or.inr
        ⟨hacc, route, arpEntry, rfl, harp, (Except.ok.inj h).symm⟩))))

/-- An accepted packet whose next hop is unknown is parked. -/
theorem ipBranch_park {route : RtableEntry} (hacc : Accepted env.ifs m)
    (hroute : getBestRoute env.rtable m.payload.ipHdr.daddr = .ok (some route))
    (harp : searchArp arpTable route.nextHop = none) :
    ipBranch env arpTable m = .ok ⟨aged m, [arpRequester env.ifs route],
      some { aged m with interface := route.interface }⟩ := by
  obtain ⟨hecho, hver, httl⟩ := hacc
  simp only [ipBranch, icmpHandler, isGarbage, hecho, hver, httl, hroute, harp,
    Bool.false_eq_true, if_false, not_true_eq_false, aged]

/-- An accepted packet whose next hop is known is forwarded. -/
theorem ipBranch_forward {route : RtableEntry} {arpEntry : ArpEntry}
    (hacc : Accepted env.ifs m)
    (hroute : getBestRoute env.rtable m.payload.ipHdr.daddr = .ok (some route))
    (harp : searchArp arpTable route.nextHop = some arpEntry) :
    ipBranch env arpTable m = .ok ⟨forwarded env.ifs m route arpEntry,
      [sendPacket (forwarded env.ifs m route arpEntry)], none⟩ := by
  obtain ⟨hecho, hver, httl⟩ := hacc
  simp only [ipBranch, icmpHandler, isGarbage, hecho, hver, httl, hroute, harp,
    Bool.false_eq_true, if_false, not_true_eq_false, aged, forwarded]

end Cases

/-- A received IP packet takes the IP branch. -/
theorem next_of_ipBranch {env : Env} {s : State} {frame : Frame} {r : IpResult}
    (hip : htons (getPacket s.m frame).payload.ethHdr.etherType = ethertypeIp)
    (hr : ipBranch env s.arpTable (getPacket s.m frame) = .ok r) :
    Next env s frame (State.afterIp { s with m := getPacket s.m frame } r) := by
  refine ⟨r.sent, ?_⟩
  simp only [iteration, hip, if_true, hr, Except.map, Part.mem_some_iff]

end TemePCom.Router
