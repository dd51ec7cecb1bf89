/-
TemePCom/Router/Ports.lean

Where the frames come from (skel.c, `get_packet`).

The main loop is over frames in the order in which `get_packet` hands them over.  Behind it
are the sockets of the interfaces, each with what has arrived and has not been read.
`get_packet` waits in `select` until there is something on one of them, and reads from the
first that has.

`frames_received` relates the two views.  What the router does with its sockets is what it does
with the frames, one after the other, and every order of frames can come about; on each
interface the frames that are handled are those that have arrived, in that order; and as
long as nothing arrives, a lower interface goes before a higher one.
-/
import TemePCom.Lib.Queues
import TemePCom.Lib.Run
import TemePCom.Router.Main
import TemePCom.Router.WaitingQueue

namespace TemePCom.Router

open Runs Queues

/-- `ROUTER_NUM_INTERFACES`. -/
abbrev routerNumInterfaces : ℕ := 3

/-- The sockets of the interfaces.  `init` opens them one after the other, and each gets the
lowest free descriptor. -/
structure Ports where
  interfaces : Fin routerNumInterfaces → ℕ
  opened : StrictMono interfaces

/-- What has arrived on each interface and has not been read. -/
abbrev Waiting : Type := Fin routerNumInterfaces → List (List UInt8)

/-- A descriptor that `select` leaves in the set: it looks below its first argument. -/
def Ports.isSet (p : Ports) (waiting : Waiting) (i : Fin routerNumInterfaces) : Bool :=
  decide (p.interfaces i < p.interfaces (Fin.last _) + 1) && !(waiting i).isEmpty

/-- `get_packet`, undefined while `select` waits: the interface and the bytes that are read,
and what is left. -/
def Ports.getPacket (p : Ports) (waiting : Waiting) : Option (Frame × Waiting) :=
  ((List.finRange routerNumInterfaces).find? (p.isSet waiting)).bind fun i =>
    match waiting i with
    | [] => none
    | bytes :: rest => some (⟨i, bytes⟩, Function.update waiting i rest)

/-- The router and its sockets. -/
structure Station where
  waiting : Waiting
  router : State

/-- Something arrives, or `main` goes through its loop. -/
inductive Activity
  | arrives (i : Fin routerNumInterfaces) (bytes : List UInt8)
  | round (i : Fin routerNumInterfaces) (bytes : List UInt8)

/-- The frame that `get_packet` hands over. -/
def frameOf (x : Fin routerNumInterfaces × List UInt8) : Frame := ⟨x.1, x.2⟩

/-- The steps of the router with its sockets. -/
inductive Station.Next (p : Ports) (env : Env) : Station → Activity → Station → Prop
  | arrives (s : Station) (i : Fin routerNumInterfaces) (bytes : List UInt8) :
      Station.Next p env s (.arrives i bytes) ⟨push s.waiting i bytes, s.router⟩
  | round {s : Station} {i : Fin routerNumInterfaces} {bytes : List UInt8} {waiting : Waiting}
      {router : State} (hread : p.getPacket s.waiting = some (⟨i, bytes⟩, waiting))
      (hnext : Router.Next env s.router ⟨i, bytes⟩ router) :
      Station.Next p env s (.round i bytes) ⟨waiting, router⟩

/-- Before anything has arrived. -/
def Station.start (s : State) : Station := ⟨fun _ => [], s⟩

/-- What has arrived. -/
def arrived (log : List Activity) : List (Fin routerNumInterfaces × List UInt8) :=
  log.filterMap fun
    | .arrives i bytes => some (i, bytes)
    | .round _ _ => none

/-- What has been handled. -/
def handled (log : List Activity) : List (Fin routerNumInterfaces × List UInt8) :=
  log.filterMap fun
    | .arrives _ _ => none
    | .round i bytes => some (i, bytes)

@[simp] theorem arrived_append (log log' : List Activity) :
    arrived (log ++ log') = arrived log ++ arrived log' := List.filterMap_append

@[simp] theorem handled_append (log log' : List Activity) :
    handled (log ++ log') = handled log ++ handled log' := List.filterMap_append

/-! ### `get_packet` -/

section Reads

variable {p : Ports} {waiting : Waiting}

/-- All the descriptors are looked at: the last is the highest. -/
theorem Ports.isSet_eq (p : Ports) (waiting : Waiting) (i : Fin routerNumInterfaces) :
    p.isSet waiting i = !(waiting i).isEmpty := by
  have hle : p.interfaces i ≤ p.interfaces (Fin.last _) := p.opened.monotone (Fin.le_last i)
  rw [Ports.isSet, decide_eq_true (Nat.lt_succ_of_le hle), Bool.true_and]

/-- `get_packet` serves the interfaces by number. -/
theorem Ports.getPacket_eq (p : Ports) (waiting : Waiting) :
    p.getPacket waiting = (pop waiting).map fun x => (frameOf x.1, x.2) := by
  have hset : p.isSet waiting = fun i => !(waiting i).isEmpty := funext (p.isSet_eq waiting)
  rw [Ports.getPacket, hset, pop, Option.map_bind]
  congr 1
  funext i
  dsimp only [Function.comp_apply]
  cases waiting i <;> rfl

theorem Ports.pop_of_getPacket {i : Fin routerNumInterfaces} {bytes : List UInt8}
    {waiting' : Waiting} (h : p.getPacket waiting = some (⟨i, bytes⟩, waiting')) :
    pop waiting = some ((i, bytes), waiting') := by
  rw [p.getPacket_eq] at h
  obtain ⟨⟨⟨j, b⟩, w⟩, hpop, heq⟩ := Option.map_eq_some_iff.mp h
  obtain ⟨⟨hj, rfl⟩, rfl⟩ : (j.val = i.val ∧ b = bytes) ∧ w = waiting' := by
    simpa [frameOf] using heq
  obtain rfl := Fin.ext hj
  exact hpop

end Reads

/-! ### Runs -/

section Received

variable {p : Ports} {env : Env} {s t : Station} {log : List Activity}

/-- The router goes through the frames that are handled. -/
theorem router_of_run (h : Run (Station.Next p env) s log t) :
    Run (Next env) s.router ((handled log).map frameOf) t.router := by
  induction h with
  | nil => exact .nil _
  | cons hnext _ ih =>
    cases hnext with
    | arrives => exact ih
    | round hread hnext => exact .cons hnext ih

/-- Nothing is lost, doubled or overtaken on an interface. -/
theorem waiting_of_run (h : Run (Station.Next p env) s log t)
    (i : Fin routerNumInterfaces) :
    s.waiting i ++ through i (arrived log) = through i (handled log) ++ t.waiting i := by
  induction h with
  | nil => exact List.append_nil _
  | @cons s s' t e log hnext _ ih =>
    cases hnext with
    | arrives j bytes =>
      show _ ++ through i ([(j, bytes)] ++ arrived log) = through i (handled log) ++ _
      rw [← ih, through_append, ← List.append_assoc, ← push_apply]
    | @round j bytes _ _ hread _ =>
      show _ ++ through i (arrived log) = through i ([(j, bytes)] ++ handled log) ++ _
      rw [through_append, List.append_assoc, ← ih, ← List.append_assoc,
        ← through_pop (Ports.pop_of_getPacket hread) i]

/-- With nothing arriving, the interfaces are emptied one after the other. -/
theorem inOrder_of_run (h : Run (Station.Next p env) s log t) (hnone : arrived log = []) :
    inOrder s.waiting = handled log ++ inOrder t.waiting := by
  induction h with
  | nil => rfl
  | cons hnext _ ih =>
    cases hnext with
    | arrives => cases hnone
    | round hread _ =>
      rw [inOrder_pop (Ports.pop_of_getPacket hread), ih hnone]
      rfl

/-- What arrives when nothing waits is handed over at once. -/
theorem Ports.getPacket_push (p : Ports) (i : Fin routerNumInterfaces) (bytes : List UInt8) :
    p.getPacket (push (fun _ => []) i bytes) = some (⟨i, bytes⟩, fun _ => []) := by
  have hpop : pop (push (fun _ => []) i bytes) = some ((i, bytes), fun _ => []) := by
    refine pop_eq_some_iff.mpr ⟨fun j hj => ?_, [], ?_, ?_⟩
    · rw [push, Function.update_of_ne hj.ne]
    · rw [push, Function.update_self]
      rfl
    · rw [push, Function.update_idem, Function.update_eq_self]
  rw [p.getPacket_eq, hpop]
  rfl

/-- Frames that arrive one at a time are handled in that order. -/
theorem exists_run_of_router (p : Ports) {s t : State} {frames : List Frame}
    (h : Run (Next env) s frames t) (hif : ∀ f ∈ frames, f.interface < routerNumInterfaces) :
    ∃ log, Run (Station.Next p env) (.start s) log (.start t) ∧
      (handled log).map frameOf = frames := by
  induction h with
  | nil s => exact ⟨[], .nil _, rfl⟩
  | @cons s s' t f frames hnext _ ih =>
    obtain ⟨hf, hrest⟩ := List.forall_mem_cons.mp hif
    obtain ⟨log, hrun, hlog⟩ := ih hrest
    obtain ⟨j, bytes⟩ := f
    refine ⟨.arrives ⟨j, hf⟩ bytes :: .round ⟨j, hf⟩ bytes :: log, ?_, ?_⟩
    · exact .cons (.arrives _ _ _) (.cons (.round (p.getPacket_push _ _) hnext) hrun)
    · show ⟨j, bytes⟩ :: (handled log).map frameOf = _
      rw [hlog]

end Received

/-- **The router over its sockets** is the router over frames: its runs are the runs over
all orders of frames of the interfaces.  On each interface the frames handled are those
that have arrived, in that order, up to those that wait, and `get_packet` waits only if none
does; with nothing arriving, lower interfaces go first. -/
theorem frames_received (p : Ports) (env : Env) (s : State) :
    (∀ frames t, (∃ log waiting, Run (Station.Next p env) (.start s) log ⟨waiting, t⟩ ∧
        (handled log).map frameOf = frames) ↔
      Run (Next env) s frames t ∧ ∀ f ∈ frames, f.interface < routerNumInterfaces) ∧
    ∀ log t, Run (Station.Next p env) (.start s) log t →
      (∀ i, through i (arrived log) = through i (handled log) ++ t.waiting i) ∧
      (p.getPacket t.waiting = none ↔ ∀ i, t.waiting i = []) ∧
      ∀ log' t', Run (Station.Next p env) t log' t' → arrived log' = [] →
        inOrder t.waiting = handled log' ++ inOrder t'.waiting := by
  refine ⟨fun frames t => ⟨?_, ?_⟩, fun log t hrun => ⟨fun i => ?_, ?_, ?_⟩⟩
  · rintro ⟨log, waiting, hrun, rfl⟩
    refine ⟨router_of_run hrun, fun f hf => ?_⟩
    obtain ⟨x, -, rfl⟩ := List.mem_map.mp hf
    exact x.1.isLt
  · rintro ⟨hrun, hif⟩
    obtain ⟨log, hlog, hframes⟩ := exists_run_of_router p hrun hif
    exact ⟨log, _, hlog, hframes⟩
  · exact waiting_of_run hrun i
  · rw [p.getPacket_eq, Option.map_eq_none_iff, pop_eq_none_iff]
  · exact fun log' t' hrun' hnone => inOrder_of_run hrun' hnone

/-- The first descriptors behind the standard streams. -/
def firstPorts : Ports where
  interfaces i := 3 + i
  opened := fun _ _ h => Nat.add_lt_add_left h 3

/-- A frame of no type that the router knows. -/
def zeroBytes : List UInt8 := List.replicate 14 0

theorem next_zeroBytes (env : Env) (s : State) (i : ℕ) :
    Next env s ⟨i, zeroBytes⟩ { s with m := Router.getPacket s.m ⟨i, zeroBytes⟩ } := by
  refine ⟨[], ?_⟩
  have htype : (Router.getPacket s.m ⟨i, zeroBytes⟩).payload.ethHdr.etherType = 0 := rfl
  rw [iteration]
  dsimp only
  rw [htype, if_neg (by decide), if_neg (by decide)]
  exact Part.mem_some _

/-- A frame on the last interface and then one on the first. -/
def burst : Waiting := push (push (fun _ => []) 2 zeroBytes) 0 zeroBytes

/-- The first interface is served first. -/
theorem frames_received_firstPorts :
    inOrder burst = [(0, zeroBytes), (2, zeroBytes)] ++ inOrder fun _ => [] := by
  let s : State := .start blankPacket fun _ => blankPacket
  have harrive : Run (Station.Next firstPorts twoRoutes) (.start s)
      [.arrives 2 zeroBytes, .arrives 0 zeroBytes] ⟨burst, s⟩ :=
    .cons (.arrives _ _ _) (.cons (.arrives _ _ _) (.nil _))
  have hfirst : firstPorts.getPacket burst =
      some (⟨0, zeroBytes⟩, Function.update burst 0 []) := rfl
  have hsecond : firstPorts.getPacket (Function.update burst 0 []) =
      some (⟨2, zeroBytes⟩, fun _ => []) := by
    have hempty : Function.update (Function.update burst 0 []) 2 [] = fun _ => [] := by
      funext i
      fin_cases i <;> rfl
    rw [← hempty]
    rfl
  have hserve : Run (Station.Next firstPorts twoRoutes) ⟨burst, s⟩
      [.round 0 zeroBytes, .round 2 zeroBytes] ⟨fun _ => [], _⟩ :=
    .cons (.round hfirst (next_zeroBytes twoRoutes s 0))
      (.cons (.round hsecond (next_zeroBytes twoRoutes _ 2)) (.nil _))
  exact ((frames_received firstPorts twoRoutes s).2 _ _ harrive).2.2 _ _ hserve rfl

end TemePCom.Router
