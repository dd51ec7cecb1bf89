/-
TemePCom/Http/Descriptors.lean

The open descriptors of the client, over its runs.

Every command opens a connection and should close it.  `socket` returns a descriptor that
is not open, and beyond that the system calls may return anything.  A process starts with
the standard streams, and these are what is open after every turn, exactly as long as every
command that is sent has a connection, and `logout` a response (`descriptors_kept_iff`).

Without a connection it is the standard output that is closed, and the socket that could
not connect that stays open.  There is one way in which two slips cancel out: a `logout`
without a socket that reads an empty response from the standard output closes nothing.
-/
import TemePCom.Http.LibraryToken
import TemePCom.Http.Failures

namespace TemePCom.Http

open Runs

/-! ### The open descriptors -/

/-- What is open after a call. -/
def Call.after (openFds : Finset ℤ) : Call → Finset ℤ
  | .socket (some fd) => insert (fd : ℤ) openFds
  | .close fd => openFds.erase fd
  | _ => openFds

def openAfter (openFds : Finset ℤ) (calls : List Call) : Finset ℤ := calls.foldl Call.after openFds

/-- The client as a process. -/
structure Process where
  client : Client
  openFds : Finset ℤ
  deriving DecidableEq

/-- The standard streams. -/
def standardFds : Finset ℤ := {0, 1, 2}

def Process.start (input : Bytes) : Process := ⟨Client.start input, standardFds⟩

/-- A turn; `socket` returns a descriptor that is not open. -/
def Process.Next (J : Json) (p : Process) (w : World) (p' : Process) : Prop :=
  (∀ fd, w.socket = some fd → (fd : ℤ) ∉ p.openFds) ∧
    p.client.next J w = some p'.client ∧
    p'.openFds = openAfter p.openFds (p.client.turn J w).2.calls

/-- A command that is sent has a connection, and `logout` a response; or `logout` has
neither a socket nor a response. -/
def ClosesConnection (J : Json) (p : Process) (w : World) : Prop :=
  ∀ c, p.client.command = some c → c.Allowed p.client.session →
    (c.request J p.client.cin.word.2 p.client.session).1.isSome →
      if w.opened.isSome then ¬ (c = .logout ∧ w.received = .ok [])
      else w.socket = none ∧ c = .logout ∧ w.received = .ok []

/-! ### The calls of a turn -/

section Calls

variable {w : World} {openFds : Finset ℤ} {fd : ℕ}

@[simp] theorem openAfter_nil : openAfter openFds [] = openFds := rfl

theorem openAfter_append (calls later : List Call) :
    openAfter openFds (calls ++ later) = openAfter (openAfter openFds calls) later :=
  List.foldl_append

/-- Reads and writes open and close nothing. -/
theorem openAfter_eq_self {calls : List Call}
    (h : ∀ call ∈ calls, call.after openFds = openFds) : openAfter openFds calls = openFds := by
  induction calls with
  | nil => rfl
  | cons call calls ih =>
    show openAfter (call.after openFds) calls = openFds
    rw [h call List.mem_cons_self]
    exact ih fun c hc => h c (List.mem_cons_of_mem _ hc)

theorem openAfter_sendLoop (sockfd : ℤ) (plan : List (Option ℕ)) (sent : ℕ) (rest : Bytes) :
    openAfter openFds (sendLoop sockfd sent rest plan).1 = openFds :=
  openAfter_eq_self fun call hcall => by
    obtain ⟨offered, result, rfl⟩ := mem_sendLoop hcall
    rfl

theorem openAfter_recvFromServer :
    openAfter openFds (recvFromServer w w.descriptor).1 = openFds :=
  openAfter_eq_self fun call hcall => by
    obtain ⟨r, rfl⟩ := mem_recvFromServer hcall
    rfl

/-- `send_request` leaves the socket open, whether it is connected or not. -/
theorem openAfter_sendRequest (text : Bytes) :
    openAfter openFds (sendRequest w text).1 =
      match w.socket with
      | some fd => insert (fd : ℤ) openFds
      | none => openFds := by
  unfold sendRequest
  cases hsocket : w.socket with
  | none =>
    have hopen : openConnection w = ([.socket none], -1) := by simp [openConnection, hsocket]
    rw [hopen]
    rfl
  | some fd =>
    have hnn : ¬ (fd : ℤ) < 0 := Int.not_lt.mpr (Int.natCast_nonneg _)
    cases hconnects : w.connects with
    | true =>
      have hopen : openConnection w = ([.socket (some fd), .connect fd true], (fd : ℤ)) := by
        simp [openConnection, hsocket, hconnects]
      simp only [hopen, if_neg hnn, Nat.not_lt_zero, if_false]
      rw [openAfter_append, sendToServer, openAfter_sendLoop]
      rfl
    | false =>
      have hopen : openConnection w = ([.socket (some fd), .connect fd false], -1) := by
        simp [openConnection, hsocket, hconnects]
      rw [hopen]
      rfl

/-- What a command that is sent and comes back leaves open. -/
theorem openAfter_traffic {response : Bytes} (c : Command) (text : Bytes)
    (h : w.received = .ok response) :
    openAfter openFds (c.traffic w text) =
      let opened := match w.socket with
        | some fd => insert (fd : ℤ) openFds
        | none => openFds
      if c = .logout ∧ response = [] then opened else opened.erase w.descriptor := by
  rw [Command.traffic, openAfter_append, openAfter_append, openAfter_sendRequest,
    openAfter_recvFromServer, Command.closing, h]
  simp only [List.length_eq_zero_iff]
  split_ifs <;> rfl

/-- **One command** leaves the standard streams as they are iff it has closed what it has
opened and nothing else. -/
theorem openAfter_traffic_iff {response : Bytes} (c : Command) (text : Bytes)
    (h : w.received = .ok response) (hfresh : ∀ fd, w.socket = some fd → (fd : ℤ) ∉ standardFds) :
    openAfter standardFds (c.traffic w text) = standardFds ↔
      if w.opened.isSome then ¬ (c = .logout ∧ response = [])
      else w.socket = none ∧ c = .logout ∧ response = [] := by
  have hone : (1 : ℤ) ∈ standardFds := by decide
  have herase : standardFds.erase (1 : ℤ) ≠ standardFds := by decide
  rw [openAfter_traffic c text h]
  cases hsocket : w.socket with
  | none =>
    have hopened : w.opened = none := by simp [World.opened, hsocket]
    have hdescriptor : w.descriptor = 1 := by rw [World.descriptor, hopened]; rfl
    simp only [hopened, hdescriptor, Option.isSome_none, Bool.false_eq_true, if_false, true_and]
    split_ifs with hempty
    · exact iff_of_true rfl hempty
    · exact iff_of_false herase hempty
  | some fd =>
    have hnot := hfresh fd hsocket
    have hinsert : insert (fd : ℤ) standardFds ≠ standardFds :=
      fun heq => hnot (heq ▸ Finset.mem_insert_self _ _)
    cases hconnects : w.connects with
    | true =>
      have hopened : w.opened = some fd := by simp [World.opened, hsocket, hconnects]
      have hdescriptor : w.descriptor = fd := by rw [World.descriptor, hopened]
      simp only [hopened, hdescriptor, Option.isSome_some, if_true]
      split_ifs with hempty
      · exact iff_of_false hinsert fun hno => hno hempty
      · exact iff_of_true (Finset.erase_insert hnot) hempty
    | false =>
      have hopened : w.opened = none := by simp [World.opened, hconnects]
      have hdescriptor : w.descriptor = 1 := by rw [World.descriptor, hopened]; rfl
      have hne : (fd : ℤ) ≠ 1 := fun heq => hnot (heq ▸ hone)
      simp only [hopened, hdescriptor, Option.isSome_none, Bool.false_eq_true, if_false,
        reduceCtorEq, false_and, iff_false]
      split_ifs with hempty
      · exact hinsert
      · intro heq
        refine hnot (heq ▸ Finset.mem_erase.mpr ⟨hne, Finset.mem_insert_self _ _⟩)

end Calls

/-! ### Every run -/

/-- **One turn**, from the standard streams. -/
theorem Process.Next.kept_iff {J : Json} {p p' : Process} {w : World}
    (h : Process.Next J p w p') (hp : p.openFds = standardFds) :
    p'.openFds = standardFds ↔ ClosesConnection J p w := by
  obtain ⟨hfresh, hnext, hopen⟩ := h
  rw [hp] at hfresh hopen
  rw [hopen]
  cases hcommand : p.client.command with
  | none =>
    obtain ⟨hcalls, -⟩ := Client.turn_of_none (J := J) (w := w) hcommand
    rw [hcalls]
    refine iff_of_true rfl fun c hc => ?_
    rw [hcommand] at hc
    cases hc
  | some c =>
    have hsame {c' : Command} (hc : p.client.command = some c') : c' = c :=
      Option.some.inj (hc.symm.trans hcommand)
    have hturn := Client.turn_of_command (J := J) (w := w) hcommand
    by_cases hallowed : c.Allowed p.client.session
    swap
    · rw [hturn, Command.run_refused hallowed]
      refine iff_of_true rfl fun c' hc hguard => ?_
      rw [hsame hc] at hguard
      exact absurd hguard hallowed
    rcases hrequest : c.request J p.client.cin.word.2 p.client.session with ⟨text, cin⟩
    cases text with
    | none =>
      obtain ⟨code, hcode⟩ := Client.next_eq_some hnext
      rw [hturn, Command.run_throws hallowed hrequest] at hcode
      cases hcode
    | some text =>
      rw [Command.run_sends hallowed hrequest] at hturn
      -- the command has come back, so a response was read
      obtain ⟨response, hreceived⟩ : ∃ response, w.received = .ok response := by
        obtain ⟨code, hcode⟩ := Client.next_eq_some hnext
        rw [hturn] at hcode
        cases hw : w.received with
        | error stop =>
          rw [hw] at hcode
          cases hcode
        | ok response => exact ⟨response, rfl⟩
      rw [hturn]
      show openAfter standardFds (c.traffic w text) = standardFds ↔ _
      rw [openAfter_traffic_iff c text hreceived hfresh]
      have hempty : w.received = .ok [] ↔ response = [] := by
        rw [hreceived, Except.ok.injEq]
      constructor
      · intro hcloses c' hc _ _
        rw [hsame hc, hempty]
        exact hcloses
      · intro hcloses
        have hc := hcloses c hcommand hallowed (by rw [hrequest]; rfl)
        rw [hempty] at hc
        exact hc

/-- **When the client keeps its descriptors.**  Whatever the system calls return, the
standard streams are what is open after every turn iff in every turn the command that is
sent has a connection, and `logout` a response (or `logout` has neither a socket nor a
response). -/
theorem descriptors_kept_iff (J : Json) (input : Bytes) (worlds : List World) :
    Along (Process.Next J) (fun p => p.openFds = standardFds) (Process.start input) worlds ↔
      Each (Process.Next J) (ClosesConnection J) (Process.start input) worlds := by
  have hgood (p : Process) (w : World) (p' : Process) (hp : p.openFds = standardFds)
      (h : Process.Next J p w p') (hc : ClosesConnection J p w) : p'.openFds = standardFds :=
    (h.kept_iff hp).mpr hc
  have hbad (p : Process) (w : World) (p' : Process) (hp : p.openFds = standardFds)
      (h : Process.Next J p w p') (hc : ¬ ClosesConnection J p w) : ¬ p'.openFds = standardFds :=
    fun hkept => hc ((h.kept_iff hp).mp hkept)
  exact along_iff_each (fun p : Process => p.openFds = standardFds) hgood (fun _ hp => hp) hbad rfl

end TemePCom.Http
