/-
TemePCom/Router/Queue.lean

The linked queue (queue.c, list.c) over an explicit heap of cells.

A queue is two pointers.  `queue_deq` frees the cell it takes the element from and
moves `head`, never `tail`: once the last element is gone `tail` holds the address of a
freed cell, which `malloc` may hand out again.  What saves `queue_enq` is that it asks
`head` first.  So the representation (`Holds`) says nothing of `tail` unless there is a
last cell:

    Holds s cells  :  head → cells → NULL,   tail = the last of them, if any.

Every call keeps it (`queueEnq_spec`, `queueDeq_spec`), and along every run
(`queue_refines_fifo`) no freed cell is followed, and what was dequeued and what is
still in the cells is what was enqueued, in order.  The rest of the router is modelled
with a list for its queue; `LinkedSearch` is the same loop on the cells.
-/
import TemePCom.Lib.LinkedList
import TemePCom.Lib.Run

namespace TemePCom.Router.Queue

open LinkedList Runs

/-! ### list.c -/

/-- `list`, a pointer to a cell. -/
abbrev Ptr : Type := ℕ

/-- `NULL`. -/
def null : Ptr := 0

variable {α : Type*}

/-- `cons`, when `malloc` answers `temp`. -/
def cons (heap : Heap Ptr α) (temp : Ptr) (element : α) (l : Ptr) : Heap Ptr α :=
  Function.update heap temp (some ⟨element, l⟩)

/-- `cdr_and_free`; no result if `l` is not the address of a cell in use. -/
def cdrAndFree (heap : Heap Ptr α) (l : Ptr) : Option (Heap Ptr α × Ptr) :=
  (heap l).map fun cell => (Function.update heap l none, cell.next)

/-! ### queue.c -/

/-- `struct que`. -/
structure Que where
  head : Ptr
  tail : Ptr
  deriving DecidableEq

/-- The cells in use, and a queue. -/
structure State (α : Type*) where
  heap : Heap Ptr α
  que : Que

/-- `queue_create`. -/
def queueCreate : Que := ⟨null, null⟩

/-- `queue_empty`. -/
def queueEmpty (q : Que) : Bool := q.head = null

/-- `queue_enq`, when `malloc` answers `temp`; no result if it follows a pointer to a
freed cell. -/
def queueEnq (s : State α) (temp : Ptr) (element : α) : Option (State α) :=
  if queueEmpty s.que then some ⟨cons s.heap temp element null, ⟨temp, temp⟩⟩
  else do
    -- looked up before `malloc`, which may hand out the address of a freed cell again
    let last ← s.heap s.que.tail
    let heap := Function.update (cons s.heap temp element null) s.que.tail
      (some { last with next := temp })
    -- `q->tail = q->tail->next`
    let last ← heap s.que.tail
    some ⟨heap, { s.que with tail := last.next }⟩

/-- `queue_deq`, behind its assertion. -/
def queueDeq (s : State α) : Option (α × State α) := do
  let temp ← s.heap s.que.head
  let (heap, next) ← cdrAndFree s.heap s.que.head
  some (temp.element, ⟨heap, { s.que with head := next }⟩)

/-! ### Runs -/

/-- A call that was made, with the element it was given or has returned. -/
inductive Event (α : Type*)
  | enq (element : α)
  | deq (element : α)

/-- The elements enqueued, in order. -/
def enqueued (es : List (Event α)) : List α :=
  es.filterMap fun | .enq x => some x | .deq _ => none

/-- The elements dequeued, in order. -/
def dequeued (es : List (Event α)) : List α :=
  es.filterMap fun | .enq _ => none | .deq x => some x

/-- One call.  `malloc` answers any address that is not in use; `queue_deq` is called
on a non-empty queue only; following a freed cell ends in `none`. -/
inductive Next : Option (State α) → Event α → Option (State α) → Prop
  | enq {s : State α} {temp : Ptr} {x : α} :
      temp ≠ null → s.heap temp = none → Next (some s) (.enq x) (queueEnq s temp x)
  | deq {s s' : State α} {x : α} :
      queueEmpty s.que = false → queueDeq s = some (x, s') → Next (some s) (.deq x) (some s')
  | fault {s : State α} {x : α} :
      queueEmpty s.que = false → queueDeq s = none → Next (some s) (.deq x) none

/-! ### The representation -/

/-- The elements in the cells, from `head` on. -/
def Contents (s : State α) (xs : List α) : Prop :=
  ∃ cells, Seg s.heap s.que.head cells null ∧ cells.map Prod.snd = xs

/-- The queue consists of `cells`; the other addresses are as in `heap₀`. -/
structure Holds (heap₀ : Heap Ptr α) (s : State α) (cells : List (Ptr × α)) : Prop where
  seg : Seg s.heap s.que.head cells null
  nodup : (cells.map Prod.fst).Nodup
  free : ∀ a ∈ cells.map Prod.fst, heap₀ a = none
  frame : ∀ a ∉ cells.map Prod.fst, s.heap a = heap₀ a
  null : s.heap null = none
  -- nothing is said of the tail of an empty queue
  tail : ∀ c ∈ cells.getLast?, s.que.tail = c.1

variable {heap₀ : Heap Ptr α} {s : State α} {cells : List (Ptr × α)} {a temp : Ptr} {x : α}

theorem holds_queueCreate (h : heap₀ null = none) : Holds heap₀ ⟨heap₀, queueCreate⟩ [] where
  seg := rfl
  nodup := List.nodup_nil
  free := fun _ ha => absurd ha List.not_mem_nil
  frame := fun _ _ => rfl
  null := h
  tail := fun _ hc => nomatch hc

theorem Holds.contents (h : Holds heap₀ s cells) : Contents s (cells.map Prod.snd) :=
  ⟨cells, h.seg, rfl⟩

/-- The contents are determined by the heap. -/
theorem Holds.eq_of_contents (h : Holds heap₀ s cells) {xs : List α} (hxs : Contents s xs) :
    xs = cells.map Prod.snd := by
  obtain ⟨cells', hseg, rfl⟩ := hxs
  rw [hseg.unique h.seg h.null]

/-- `queue_empty` answers whether there is a cell. -/
theorem Holds.queueEmpty_iff (h : Holds heap₀ s cells) :
    queueEmpty s.que = true ↔ cells = [] := by
  rw [queueEmpty, decide_eq_true_eq]
  constructor
  · intro hhead
    exact h.seg.eq_nil (hhead ▸ h.null)
  · rintro rfl
    exact h.seg

theorem Holds.not_mem_of_free (h : Holds heap₀ s cells) (ha : s.heap a = none) :
    a ∉ cells.map Prod.fst := by
  intro hmem
  have hsome := h.seg.isSome hmem
  rw [ha] at hsome
  cases hsome

/-- While there is a cell, `tail` is in use. -/
theorem Holds.tail_isSome (h : Holds heap₀ s cells) (hne : cells ≠ []) :
    (s.heap s.que.tail).isSome = true := by
  rw [h.tail _ (List.getLast?_eq_some_getLast hne)]
  exact h.seg.isSome (List.mem_map_of_mem (List.getLast_mem hne))

/-! ### One call -/

/-- `queue_enq` on an empty queue, whatever `tail` is. -/
theorem queueEnq_nil (h : Holds heap₀ s []) (htemp : temp ≠ null) (hfree : s.heap temp = none) :
    ∃ s', queueEnq s temp x = some s' ∧ Holds heap₀ s' [(temp, x)] := by
  have hempty : queueEmpty s.que = true := h.queueEmpty_iff.mpr rfl
  refine ⟨_, if_pos hempty, ?_, List.nodup_singleton _, ?_, ?_, ?_, ?_⟩
  · exact ⟨rfl, null, Function.update_self .., rfl⟩
  · intro a ha
    rw [List.mem_singleton.mp ha, ← h.frame temp List.not_mem_nil]
    exact hfree
  · intro a ha
    have hne : a ≠ temp := by simpa using ha
    exact (Function.update_of_ne hne ..).trans (h.frame a List.not_mem_nil)
  · exact (Function.update_of_ne htemp.symm ..).trans h.null
  · rintro c hc
    obtain rfl : (temp, x) = c := by simpa using hc
    rfl

/-- `queue_enq` behind a last cell. -/
theorem queueEnq_concat {t : Ptr} {y : α} (h : Holds heap₀ s (cells ++ [(t, y)]))
    (htemp : temp ≠ null) (hfree : s.heap temp = none) :
    ∃ s', queueEnq s temp x = some s' ∧ Holds heap₀ s' (cells ++ [(t, y)] ++ [(temp, x)]) := by
  have hnew : temp ∉ (cells ++ [(t, y)]).map Prod.fst := h.not_mem_of_free hfree
  have hne : ¬ queueEmpty s.que = true := by
    rw [h.queueEmpty_iff]
    simp
  have htail : s.que.tail = t := h.tail (t, y) (by simp)
  obtain ⟨r, hfront, rfl, next, hcell, rfl⟩ := seg_append.mp h.seg
  have hrnull : null ≠ r := by
    rintro rfl
    rw [h.null] at hcell
    cases hcell
  have hstep : queueEnq s temp x = some ⟨Function.update (cons s.heap temp x null) r
      (some ⟨y, temp⟩), { s.que with tail := temp }⟩ := by
    simp only [queueEnq, if_neg hne, htail, hcell, Function.update_self, Option.bind_eq_bind,
      Option.bind_some]
  -- only the new cell and the old last one are written
  have hold : ∀ b, b ≠ r → b ≠ temp →
      Function.update (cons s.heap temp x null) r (some ⟨y, temp⟩) b = s.heap b :=
    fun b hb hb' => (Function.update_of_ne hb ..).trans (Function.update_of_ne hb' ..)
  refine ⟨_, hstep, h.seg.link h.nodup hnew, ?_, ?_, ?_, ?_, ?_⟩
  · rw [List.map_append]
    refine List.nodup_append.mpr ⟨h.nodup, List.nodup_singleton _, ?_⟩
    rintro b hb c hc rfl
    obtain rfl : b = temp := List.mem_singleton.mp hc
    exact hnew hb
  · intro b hb
    rw [List.map_append, List.mem_append] at hb
    rcases hb with hb | hb
    · exact h.free b hb
    · rw [List.mem_singleton.mp hb, ← h.frame temp hnew]
      exact hfree
  · intro b hb
    rw [List.map_append, List.mem_append, not_or] at hb
    obtain ⟨hb, hbt⟩ := hb
    refine (hold b ?_ (by simpa using hbt)).trans (h.frame b hb)
    rintro rfl
    exact hb (by simp)
  · exact (hold null hrnull htemp.symm).trans h.null
  · intro c hc
    obtain rfl : (temp, x) = c := by simpa using hc
    rfl

/-- **`queue_enq` appends**, wherever `malloc` puts the new cell. -/
theorem queueEnq_spec (h : Holds heap₀ s cells) (htemp : temp ≠ null)
    (hfree : s.heap temp = none) :
    ∃ s', queueEnq s temp x = some s' ∧ Holds heap₀ s' (cells ++ [(temp, x)]) := by
  rcases List.eq_nil_or_concat' cells with rfl | ⟨front, ⟨t, y⟩, rfl⟩
  · exact queueEnq_nil h htemp hfree
  · exact queueEnq_concat h htemp hfree

/-- **`queue_deq` takes the first element** and gives its cell back. -/
theorem queueDeq_spec (h : Holds heap₀ s ((a, x) :: cells)) :
    ∃ s', queueDeq s = some (x, s') ∧ Holds heap₀ s' cells := by
  obtain ⟨hhead, next, hcell, hrest⟩ := h.seg
  obtain ⟨hnew, hnodup⟩ := List.nodup_cons.mp h.nodup
  have hstep : queueDeq s = some (x, ⟨Function.update s.heap a none,
      { s.que with head := next }⟩) := by
    simp only [queueDeq, cdrAndFree, hhead, hcell, Option.map_some, Option.bind_eq_bind,
      Option.bind_some]
  refine ⟨_, hstep, ?_, hnodup, ?_, ?_, ?_, ?_⟩
  · exact hrest.congr fun b hb => Function.update_of_ne (ne_of_mem_of_not_mem hb hnew) ..
  · exact fun b hb => h.free b (List.mem_cons_of_mem _ hb)
  · -- the freed cell was not there before it was allocated
    intro b hb
    by_cases hba : b = a
    · rw [hba, h.free a List.mem_cons_self]
      exact Function.update_self ..
    · rw [← h.frame b (fun hmem => (List.mem_cons.mp hmem).elim hba hb)]
      exact Function.update_of_ne hba ..
  · have hna : null ≠ a := by
      rintro rfl
      rw [h.null] at hcell
      cases hcell
    exact (Function.update_of_ne hna ..).trans h.null
  · intro c hc
    refine h.tail c ?_
    rw [Option.mem_def] at hc ⊢
    rw [List.getLast?_cons, hc]
    rfl

/-! ### Every run -/

variable {es : List (Event α)} {r : Option (State α)}

/-- What a run does to a queue that holds `cells`. -/
theorem run_spec (hrun : Run Next (some s) es r) (h : Holds heap₀ s cells) :
    ∃ s' cells', r = some s' ∧ Holds heap₀ s' cells' ∧
      dequeued es ++ cells'.map Prod.snd = cells.map Prod.snd ++ enqueued es := by
  induction es generalizing s cells with
  | nil =>
    cases hrun
    exact ⟨s, cells, rfl, h, by simp [dequeued, enqueued]⟩
  | cons e es ih =>
    rcases hrun with - | ⟨hnext, hrest⟩
    rcases hnext with ⟨htemp, hfree⟩ | ⟨hne, hdeq⟩ | ⟨hne, hdeq⟩
    · -- `queue_enq`
      rename_i temp x
      obtain ⟨s₁, hs₁, h₁⟩ := queueEnq_spec (x := x) h htemp hfree
      rw [hs₁] at hrest
      obtain ⟨s', cells', rfl, h', heq⟩ := ih hrest h₁
      refine ⟨s', cells', rfl, h', heq.trans ?_⟩
      simp [enqueued]
    · -- `queue_deq`
      rename_i s₁ x
      rcases cells with - | ⟨⟨a, y⟩, cells⟩
      · rw [h.queueEmpty_iff.mpr rfl] at hne
        cases hne
      obtain ⟨s₂, hs₂, h₂⟩ := queueDeq_spec h
      obtain ⟨rfl, rfl⟩ : y = x ∧ s₂ = s₁ := by simpa [hs₂] using hdeq
      obtain ⟨s', cells', rfl, h', heq⟩ := ih hrest h₂
      exact ⟨s', cells', rfl, h', congrArg (List.cons y) heq⟩
    · -- there is nothing to follow into a freed cell
      rcases cells with - | ⟨⟨a, y⟩, cells⟩
      · rw [h.queueEmpty_iff.mpr rfl] at hne
        cases hne
      obtain ⟨s₂, hs₂, -⟩ := queueDeq_spec h
      rw [hs₂] at hdeq
      cases hdeq

/-- **The linked queue is a FIFO list.**  However `queue_enq` and `queue_deq` are
interleaved and wherever `malloc` puts the cells, no call follows a freed cell, the
elements dequeued and then the contents are the elements enqueued, `queue_empty`
answers whether there are contents, and `tail` is in use while there are. -/
theorem queue_refines_fifo (hnull : heap₀ null = none)
    (hrun : Run Next (some ⟨heap₀, queueCreate⟩) es r) :
    ∃ s contents, r = some s ∧ (∀ xs, Contents s xs ↔ xs = contents) ∧
      dequeued es ++ contents = enqueued es ∧
      (queueEmpty s.que = true ↔ contents = []) ∧
      (queueEmpty s.que = false → (s.heap s.que.tail).isSome = true) := by
  obtain ⟨s, cells, rfl, h, heq⟩ := run_spec hrun (holds_queueCreate hnull)
  refine ⟨s, cells.map Prod.snd, rfl, fun xs => ⟨h.eq_of_contents, ?_⟩, heq, ?_, ?_⟩
  · rintro rfl
    exact h.contents
  · rw [h.queueEmpty_iff, List.map_eq_nil_iff]
  · intro hne
    refine h.tail_isSome fun hnil => ?_
    rw [h.queueEmpty_iff.mpr hnil] at hne
    cases hne

/-- The queue `[1]` is emptied, and the freed cell is used for the second element of
the next two. -/
def reused : Option (State ℕ) := do
  let s ← queueEnq ⟨fun _ => none, queueCreate⟩ 100 1
  let (_, s) ← queueDeq s
  let s ← queueEnq s 200 2
  queueEnq s 100 3

theorem run_reused : Run Next (some ⟨fun _ => none, queueCreate⟩)
    [.enq 1, .deq 1, .enq 2, .enq 3] reused := by
  refine .cons (@Next.enq ℕ _ 100 1 (by decide) rfl) ?_
  refine .cons (Next.deq rfl rfl) ?_
  refine .cons (@Next.enq ℕ _ 200 2 (by decide) rfl) ?_
  exact .cons (@Next.enq ℕ _ 100 3 (by decide) rfl) (.nil _)

theorem queue_refines_fifo_reused :
    ∃ s contents, reused = some s ∧ (∀ xs, Contents s xs ↔ xs = contents) ∧
      dequeued [.enq 1, .deq 1, .enq 2, .enq 3] ++ contents =
        enqueued [.enq 1, .deq 1, .enq 2, .enq 3] ∧
      (queueEmpty s.que = true ↔ contents = []) ∧
      (queueEmpty s.que = false → (s.heap s.que.tail).isSome = true) :=
  queue_refines_fifo rfl run_reused

end TemePCom.Router.Queue
