/-
TemePCom/Router/LinkedSearch.lean

`search_queue` over the cells of the linked queue.

`searchStep` has the waiting queue as a list.  Here the loop is the one of arp.c once
more, through the calls of queue.c and with `malloc` as a parameter: it answers each call
with some address that is not in use, one call otherwise than the next as it likes.  The two
loops go in step (`sameQueue_step`), so they end
alike, with the same frames sent and the same packets waiting (`searchQueue_linked`),
and the linked one never follows a pointer to a freed cell.
-/
import TemePCom.Router.Queue
import TemePCom.Router.Arp
import TemePCom.Lib.Loop

namespace TemePCom.Router.Queue

open LinkedList StateTransition

/-! ### The loop -/

/-- A fault of the model with a list, or a pointer to a freed cell that is followed. -/
inductive LinkedFault
  | fault (fault : Fault)
  | dangling

/-- The variables of `search_queue`.  `aux` is not among them: nothing is ever put into
it, and the second loop finds it as `queue_create` has left it.  `calls` counts the calls of
`malloc`. -/
structure Linked where
  mem : Memory
  queue : State Addr
  calls : ℕ
  sent : List Frame

section Loop

variable (malloc : ℕ → Heap Ptr Addr → Ptr) (env : Env) (arpTable : List ArpEntry)

/-- What happens to the dequeued `crt`. -/
def linkedRound (s : Linked) (crt : Addr) : Except LinkedFault Linked :=
  match getBestRoute env.rtable (s.mem crt).payload.ipHdr.daddr with
  | .error fault => .error (.fault fault)
  | .ok none => .error (.fault .nullDeref)
  | .ok (some route) =>
    match searchArp arpTable route.nextHop with
    | some existing =>
      let p := addressed env.ifs (s.mem crt) route existing
      .ok { s with
        mem := Function.update s.mem crt p
        sent := s.sent ++ [sendPacket p] }
    | none =>
      match queueEnq s.queue (malloc s.calls s.queue.heap) crt with
      | none => .error .dangling
      | some queue => .ok { s with
          queue := queue
          calls := s.calls + 1 }

/-- `while (!queue_empty(no_mac_dest_queue))`. -/
def linkedStep : Except LinkedFault Linked → Option (Except LinkedFault Linked)
  | .error _ => none
  | .ok s =>
    if queueEmpty s.queue.que then none
    else
      match queueDeq s.queue with
      | none => some (.error .dangling)
      | some (crt, queue) => some (linkedRound malloc env arpTable { s with queue := queue } crt)

/-- `search_queue`. -/
def linkedSearch (mem : Memory) (queue : State Addr) (calls : ℕ) :
    Part (Except LinkedFault Linked) :=
  eval (linkedStep malloc env arpTable) (.ok ⟨mem, queue, calls, []⟩)

end Loop

/-! ### In step with the list -/

/-- Cells that hold the list, and the rest alike. -/
inductive SameQueue (heap₀ : Heap Ptr Addr) :
    Except LinkedFault Linked → Except Fault SearchState → Prop
  | fault (fault : Fault) : SameQueue heap₀ (.error (.fault fault)) (.error fault)
  | ok {mem : Memory} {queue : State Addr} {cells : List (Ptr × Addr)} {calls : ℕ}
      {sent : List Frame} :
      Holds heap₀ queue cells →
        SameQueue heap₀ (.ok ⟨mem, queue, calls, sent⟩) (.ok ⟨mem, cells.map Prod.snd, [], sent⟩)

/-- `malloc` answers the `n`-th call with an address that is not in use, whatever the queue has
made of the heap.  Whatever addresses a run is answered with are those of such a function. -/
def Allocates (heap₀ : Heap Ptr Addr) (malloc : ℕ → Heap Ptr Addr → Ptr) : Prop :=
  ∀ (n : ℕ) (s : State Addr) (cells : List (Ptr × Addr)), Holds heap₀ s cells →
    malloc n s.heap ≠ null ∧ s.heap (malloc n s.heap) = none

variable {heap₀ : Heap Ptr Addr} {malloc : ℕ → Heap Ptr Addr → Ptr} {env : Env}
  {arpTable : List ArpEntry}

/-- An allocator that never looks back: the `n`-th call gets the first free address above `n`. -/
noncomputable def nextFit (n : ℕ) (heap : Heap Ptr Addr) : Ptr := sInf {a | n < a ∧ heap a = none}

/-- There is one while only finitely many addresses are in use. -/
theorem allocates_nextFit (h : {a | heap₀ a ≠ none}.Finite) : Allocates heap₀ nextFit := by
  intro n s cells hs
  have hfree : {a | n < a ∧ s.heap a = none}.Nonempty := by
    obtain ⟨a, ha⟩ := ((h.union (cells.map Prod.fst).finite_toSet).union
      (Set.finite_Iic n)).exists_notMem
    simp only [Set.mem_union, Set.mem_ofPred_eq, Set.mem_Iic, not_or, not_not, not_le] at ha
    exact ⟨a, ha.2, (hs.frame a ha.1.2).trans ha.1.1⟩
  obtain ⟨hlt, hnone⟩ := Nat.sInf_mem hfree
  exact ⟨(Nat.zero_lt_of_lt hlt).ne', hnone⟩

theorem sameQueue_round (hmalloc : Allocates heap₀ malloc) {mem : Memory} {queue : State Addr}
    {cells : List (Ptr × Addr)} {calls : ℕ} {sent : List Frame} {temp : Ptr} {crt : Addr}
    (h : Holds heap₀ queue cells) :
    SameQueue heap₀ (linkedRound malloc env arpTable ⟨mem, queue, calls, sent⟩ crt)
      (searchRound env arpTable ⟨mem, ((temp, crt) :: cells).map Prod.snd, [], sent⟩ crt
        (cells.map Prod.snd)) := by
  unfold linkedRound searchRound
  rcases getBestRoute env.rtable (mem crt).payload.ipHdr.daddr with fault | - | route
  · exact .fault fault
  · exact .fault .nullDeref
  · show SameQueue heap₀ (match searchArp arpTable route.nextHop with | some _ => _ | none => _)
      (match searchArp arpTable route.nextHop with | some _ => _ | none => _)
    rcases searchArp arpTable route.nextHop with - | existing
    · -- back to the end of the queue, in a cell of its own
      obtain ⟨hnull, hfree⟩ := hmalloc calls queue cells h
      obtain ⟨queue', henq, h'⟩ := queueEnq_spec (x := crt) h hnull hfree
      have hcells : cells.map Prod.snd ++ [crt] =
          (cells ++ [(malloc calls queue.heap, crt)]).map Prod.snd := by
        rw [List.map_append]
        rfl
      simp only [henq, hcells]
      exact .ok h'
    · exact .ok h

/-- **A round of the one is a round of the other.** -/
theorem sameQueue_step (hmalloc : Allocates heap₀ malloc) (r : Except LinkedFault Linked)
    (r' : Except Fault SearchState) (h : SameQueue heap₀ r r') :
    Option.Rel (SameQueue heap₀) (linkedStep malloc env arpTable r)
      (searchStep env arpTable r') := by
  cases h with
  | fault fault => exact .none
  | @ok mem queue cells calls sent h =>
    rcases cells with - | ⟨⟨temp, crt⟩, cells⟩
    · have hempty : queueEmpty queue.que = true := h.queueEmpty_iff.mpr rfl
      simp only [linkedStep, hempty, if_true]
      exact .none
    · have hne : ¬ queueEmpty queue.que = true := by
        rw [h.queueEmpty_iff]
        exact List.cons_ne_nil _ _
      obtain ⟨queue', hdeq, h'⟩ := queueDeq_spec h
      simp only [linkedStep, if_neg hne, hdeq]
      exact .some (sameQueue_round hmalloc h')

/-- **`search_queue` may be read with a list for its queue.**  Over cells that hold the
list it ends iff it does with the list, with the same fault, or the same packets in
memory and sent and cells that hold what the list holds. -/
theorem searchQueue_linked (hmalloc : Allocates heap₀ malloc) {mem : Memory}
    {queue : State Addr} {cells : List (Ptr × Addr)} {calls : ℕ} (h : Holds heap₀ queue cells) :
    (∀ r ∈ linkedSearch malloc env arpTable mem queue calls,
      ∃ r' ∈ searchQueue env arpTable mem (cells.map Prod.snd), SameQueue heap₀ r r') ∧
    ∀ r' ∈ searchQueue env arpTable mem (cells.map Prod.snd),
      ∃ r ∈ linkedSearch malloc env arpTable mem queue calls, SameQueue heap₀ r r' := by
  have hrespects : Respects (linkedStep malloc env arpTable) (searchStep env arpTable)
      (SameQueue heap₀) := Loop.respects_of_lockstep (sameQueue_step hmalloc)
  -- the auxiliary queue is empty
  have hdrain : ∀ r r', SameQueue heap₀ r r' →
      SameQueue heap₀ r (r'.map SearchState.drainAux) := by
    intro r r' hrr'
    cases hrr' with
    | fault fault => exact .fault fault
    | @ok mem queue cells calls sent h =>
      show SameQueue heap₀ _ (.ok ⟨mem, cells.map Prod.snd ++ [], [], sent⟩)
      rw [List.append_nil]
      exact .ok h
  constructor
  · intro r hr
    obtain ⟨r', hrr', hr'⟩ := tr_eval hrespects (.ok h) hr
    exact ⟨_, Part.mem_map _ hr', hdrain r r' hrr'⟩
  · intro r' hr'
    obtain ⟨r₀, hr₀, rfl⟩ := (Part.mem_map_iff _).mp hr'
    obtain ⟨r, hrr₀, hr⟩ := tr_eval_rev hrespects (.ok h) hr₀
    exact ⟨r, hr, hdrain r r₀ hrr₀⟩

end TemePCom.Router.Queue
