/-
TemePCom/Router/LinkedMain.lean

The main loop over the linked queue.

`TemePCom.Router.Main` has the waiting queue as a list.  Here the loop of router.c is
written once more with the queue in its cells: `queue_create` before the loop,
`queue_enq` where a packet is parked, and `search_queue` over the cells
(`TemePCom.Router.LinkedSearch`).  The two loops have the same runs, with the same frames
received and sent, and cells that hold what the list holds (`linked_refines`).  In none of
them does the router follow a pointer to a freed cell, although the tail of an emptied
queue is one.
-/
import TemePCom.Router.LinkedSearch
import TemePCom.Router.Flushing

namespace TemePCom.Router

open LinkedList Loop Queue Runs

/-! ### The loop -/

/-- The variables of `main`, with the queue as it is in memory, and how often `malloc` has been
called for it. -/
structure LinkedState where
  m : Packet
  mem : Memory
  queue : Queue.State Addr
  calls : ℕ
  arpTable : List ArpEntry

section Loop

variable (malloc : ℕ → LinkedList.Heap Ptr Addr → Ptr) (env : Env)

/-- The state after the IP branch: a saved packet is enqueued in a new cell. -/
def LinkedState.afterIp (s : LinkedState) (r : IpResult) : Except LinkedFault LinkedState :=
  match r.saved with
  | none => .ok { s with m := r.m }
  | some p =>
    match queueEnq s.queue (malloc s.calls s.queue.heap) savedAddr with
    | none => .error .dangling
    | some queue => .ok { s with
        m := r.m
        mem := Function.update s.mem savedAddr p
        queue := queue
        calls := s.calls + 1 }

/-- `arp_handler`. -/
def linkedHandler (s : LinkedState) (pkt : Packet) :
    Part (Except LinkedFault (LinkedState × List Frame)) :=
  if ntohs pkt.payload.arpHdr.op = arpopRequest then
    Part.some (.ok (s, [arpReplier env.ifs pkt]))
  else if isReplyForUs env.ifs pkt then
    (linkedSearch malloc env (learned s.arpTable pkt) s.mem s.queue s.calls).map fun r =>
      r.map fun q => ({ s with
        mem := q.mem
        queue := q.queue
        calls := q.calls
        arpTable := learned s.arpTable pkt }, q.sent)
  else Part.some (.ok (s, []))

/-- One iteration of `while (1)` on a received frame. -/
def linkedIteration (s : LinkedState) (frame : Frame) :
    Part (Except LinkedFault (LinkedState × List Frame)) :=
  let s := { s with m := getPacket s.m frame }
  if htons s.m.payload.ethHdr.etherType = ethertypeIp then
    Part.some (match ipBranch env s.arpTable s.m with
      | .error fault => .error (.fault fault)
      | .ok r => (s.afterIp malloc r).map fun s' => (s', r.sent))
  else if htons s.m.payload.ethHdr.etherType = ethertypeArp then
    linkedHandler malloc env s s.m
  else Part.some (.ok (s, []))

/-- A step, labelled with the frame that is received and the frames that are sent. -/
def LinkedNext (s : LinkedState) (e : Frame × List Frame) (s' : LinkedState) : Prop :=
  .ok (s', e.2) ∈ linkedIteration malloc env s e.1

/-- A step of the loop with the list, labelled in the same way. -/
def ListNext (s : State) (e : Frame × List Frame) (s' : State) : Prop :=
  .ok (s', e.2) ∈ iteration env s e.1

end Loop

/-- The state `main` enters its loop with, on a heap that holds other things. -/
def LinkedState.start (heap₀ : LinkedList.Heap Ptr Addr) (m : Packet) (mem : Memory) :
    LinkedState where
  m := m
  mem := mem
  queue := ⟨heap₀, queueCreate⟩
  calls := 0
  arpTable := []

/-! ### In step with the list -/

/-- The cells hold the list, and the rest is alike. -/
structure Represents (heap₀ : LinkedList.Heap Ptr Addr) (s : LinkedState) (t : State) : Prop where
  m : s.m = t.m
  mem : s.mem = t.mem
  arpTable : s.arpTable = t.arpTable
  queue : ∃ cells, Holds heap₀ s.queue cells ∧ t.noMacDestQueue = cells.map Prod.snd

/-- The same fault, or states that correspond and the same frames. -/
inductive SameResult (heap₀ : LinkedList.Heap Ptr Addr) :
    Except LinkedFault (LinkedState × List Frame) → Except Fault (State × List Frame) → Prop
  | fault (fault : Fault) : SameResult heap₀ (.error (.fault fault)) (.error fault)
  | ok {s : LinkedState} {t : State} (sent : List Frame) :
      Represents heap₀ s t → SameResult heap₀ (.ok (s, sent)) (.ok (t, sent))

variable {heap₀ : LinkedList.Heap Ptr Addr} {malloc : ℕ → LinkedList.Heap Ptr Addr → Ptr}
  {env : Env} {s : LinkedState} {t : State} {frame : Frame}

/-- The IP branch. -/
theorem sameResult_ip (env : Env) (hmalloc : Allocates heap₀ malloc) (h : Represents heap₀ s t) :
    SameResult heap₀
      (match ipBranch env s.arpTable s.m with
        | .error fault => .error (.fault fault)
        | .ok r => (s.afterIp malloc r).map fun s' => (s', r.sent))
      ((ipBranch env t.arpTable t.m).map fun r => (t.afterIp r, r.sent)) := by
  obtain ⟨cells, hcells, hqueue⟩ := h.queue
  rw [h.arpTable, h.m]
  rcases ipBranch env t.arpTable t.m with fault | r
  · exact .fault fault
  show SameResult heap₀ ((s.afterIp malloc r).map fun s' => (s', r.sent))
    (.ok (t.afterIp r, r.sent))
  unfold LinkedState.afterIp State.afterIp
  rcases r.saved with - | p
  · exact .ok r.sent ⟨rfl, h.mem, h.arpTable, cells, hcells, hqueue⟩
  · obtain ⟨hnull, hfree⟩ := hmalloc s.calls s.queue cells hcells
    obtain ⟨queue, henq, hcells'⟩ := queueEnq_spec (x := savedAddr) hcells hnull hfree
    simp only [henq]
    refine .ok r.sent ⟨rfl, ?_, h.arpTable, _, hcells', ?_⟩
    · rw [h.mem]
    · rw [hqueue, List.map_append]
      rfl

/-- The search of the queue. -/
theorem alike_search (env : Env) (hmalloc : Allocates heap₀ malloc) (h : Represents heap₀ s t)
    (m : Packet) (arpTable : List ArpEntry) :
    Alike (SameResult heap₀)
      ((linkedSearch malloc env arpTable s.mem s.queue s.calls).map fun r =>
        r.map fun q => ({ s with
          m := m
          mem := q.mem
          queue := q.queue
          calls := q.calls
          arpTable := arpTable }, q.sent))
      ((searchQueue env arpTable t.mem t.noMacDestQueue).map fun r =>
        r.map fun q => ({ t with
          m := m
          mem := q.mem
          noMacDestQueue := q.noMacDestQueue
          arpTable := arpTable }, q.sent)) := by
  obtain ⟨cells, hcells, hqueue⟩ := h.queue
  rw [h.mem, hqueue]
  refine Alike.map (searchQueue_linked hmalloc hcells) ?_
  intro r r' hrr'
  cases hrr' with
  | fault fault => exact .fault fault
  | @ok mem queue cells' calls sent hcells' => exact .ok sent ⟨rfl, rfl, rfl, cells', hcells', rfl⟩

/-- **A step of the one loop is a step of the other.** -/
theorem alike_iteration (hmalloc : Allocates heap₀ malloc) (h : Represents heap₀ s t)
    (frame : Frame) :
    Alike (SameResult heap₀) (linkedIteration malloc env s frame) (iteration env t frame) := by
  have hread : Represents heap₀ { s with m := getPacket s.m frame }
      { t with m := getPacket t.m frame } :=
    ⟨congrArg (getPacket · frame) h.m, h.mem, h.arpTable, h.queue⟩
  have hm : getPacket s.m frame = getPacket t.m frame := hread.m
  unfold linkedIteration iteration
  simp only [hm]
  split_ifs with hip harp
  · have hsame := sameResult_ip env hmalloc hread
    simp only [hm] at hsame
    exact alike_some hsame
  · unfold linkedHandler arpHandler
    split_ifs with hreq hrep
    · exact alike_some (.ok _ ⟨rfl, h.mem, h.arpTable, h.queue⟩)
    · have hsearch := alike_search env hmalloc h (getPacket t.m frame)
        (learned t.arpTable (getPacket t.m frame))
      rw [h.arpTable]
      exact hsearch
    · exact alike_some (.ok _ ⟨rfl, h.mem, h.arpTable, h.queue⟩)
  · exact alike_some (.ok _ ⟨rfl, h.mem, h.arpTable, h.queue⟩)

/-! ### Runs -/

theorem represents_start (hnull : heap₀ null = none) (m : Packet) (mem : Memory) :
    Represents heap₀ (LinkedState.start heap₀ m mem) (State.start m mem) :=
  ⟨rfl, rfl, rfl, [], holds_queueCreate hnull, rfl⟩

theorem linkedNext_lift (hmalloc : Allocates heap₀ malloc) {s' : LinkedState}
    {e : Frame × List Frame} (h : Represents heap₀ s t) (hnext : LinkedNext malloc env s e s') :
    ∃ t', ListNext env t e t' ∧ Represents heap₀ s' t' := by
  obtain ⟨y, hy, hsame⟩ := (alike_iteration hmalloc h e.1).1 _ hnext
  cases hsame with
  | ok sent hrep => exact ⟨_, hy, hrep⟩

theorem listNext_lift (hmalloc : Allocates heap₀ malloc) {t' : State} {e : Frame × List Frame}
    (h : Represents heap₀ s t) (hnext : ListNext env t e t') :
    ∃ s', LinkedNext malloc env s e s' ∧ Represents heap₀ s' t' := by
  obtain ⟨x, hx, hsame⟩ := (alike_iteration hmalloc h e.1).2 _ hnext
  cases hsame with
  | ok sent hrep => exact ⟨_, hx, hrep⟩

theorem not_dangling (hmalloc : Allocates heap₀ malloc) (h : Represents heap₀ s t) :
    .error .dangling ∉ linkedIteration malloc env s frame := by
  intro hmem
  obtain ⟨y, -, hsame⟩ := (alike_iteration hmalloc h frame).1 _ hmem
  cases hsame

/-- **The router over its linked queue is the router over a list**, wherever `malloc` puts the
cells, call by call.  Both have the same runs of received and sent frames, with the same
packets, table and memory and cells that hold the list at their ends; and no iteration after
any run follows a pointer to a freed cell. -/
theorem linked_refines (env : Env) (hmalloc : Allocates heap₀ malloc) (hnull : heap₀ null = none)
    (m : Packet) (mem : Memory) (es : List (Frame × List Frame)) :
    (∀ s, Run (LinkedNext malloc env) (LinkedState.start heap₀ m mem) es s →
      ∃ t, Run (ListNext env) (State.start m mem) es t ∧ Represents heap₀ s t) ∧
    (∀ t, Run (ListNext env) (State.start m mem) es t →
      ∃ s, Run (LinkedNext malloc env) (LinkedState.start heap₀ m mem) es s ∧
        Represents heap₀ s t) ∧
    ∀ s, Run (LinkedNext malloc env) (LinkedState.start heap₀ m mem) es s →
      ∀ frame, .error .dangling ∉ linkedIteration malloc env s frame := by
  have hstart := represents_start hnull m mem
  have hstep : ∀ s t e s', Represents heap₀ s t → LinkedNext malloc env s e s' →
      ∃ t', ListNext env t e t' ∧ Represents heap₀ s' t' :=
    fun _ _ _ _ h hnext => linkedNext_lift hmalloc h hnext
  have hforth : ∀ s, Run (LinkedNext malloc env) (LinkedState.start heap₀ m mem) es s →
      ∃ t, Run (ListNext env) (State.start m mem) es t ∧ Represents heap₀ s t :=
    fun s hrun => Run.lift (r := Represents heap₀) hstep hrun hstart
  have hback : ∀ t s e t', Represents heap₀ s t → ListNext env t e t' →
      ∃ s', LinkedNext malloc env s e s' ∧ Represents heap₀ s' t' :=
    fun _ _ _ _ h hnext => listNext_lift hmalloc h hnext
  refine ⟨hforth, fun t hrun => ?_, fun s hrun frame => ?_⟩
  · exact Run.lift (r := fun t s => Represents heap₀ s t) hback hrun hstart
  · obtain ⟨t, -, hrep⟩ := hforth s hrun
    exact not_dangling hmalloc hrep

/-- Two packets are parked in cells of their own, and a reply flushes them. -/
theorem linked_refines_hopReply : ∃ (sent₁ sent₂ sent₃ : List Frame) (s : LinkedState),
    Run (LinkedNext nextFit twoRoutes)
        (LinkedState.start (fun _ => none) blankPacket fun _ => blankPacket)
        [(shortFrame 1, sent₁), (shortFrame 2, sent₂), (hopReply, sent₃)] s ∧
      sent₃.length = 2 ∧ queueEmpty s.queue.que = true := by
  obtain ⟨-, -, t₁, t₂, t₃, sent₁, sent₂, sent₃, hiter₁, -, hiter₂, -, hiter₃, -, hlen, hempty⟩ :=
    iterations_hopReply
  have hrun : Run (ListNext twoRoutes) (State.start blankPacket fun _ => blankPacket)
      [(shortFrame 1, sent₁), (shortFrame 2, sent₂), (hopReply, sent₃)] t₃ :=
    .cons (Part.eq_some_iff.mp hiter₁)
      (.cons (Part.eq_some_iff.mp hiter₂) (.cons (Part.eq_some_iff.mp hiter₃) (.nil _)))
  have hmalloc : Allocates (fun _ => none) nextFit := allocates_nextFit (by simp)
  obtain ⟨s, hs, hrep⟩ := (linked_refines twoRoutes hmalloc rfl blankPacket (fun _ => blankPacket)
    [(shortFrame 1, sent₁), (shortFrame 2, sent₂), (hopReply, sent₃)]).2.1 t₃ hrun
  obtain ⟨cells, hcells, hqueue⟩ := hrep.queue
  rw [hempty] at hqueue
  exact ⟨sent₁, sent₂, sent₃, s, hs, hlen,
    hcells.queueEmpty_iff.mpr (List.map_eq_nil_iff.mp hqueue.symm)⟩

end TemePCom.Router
