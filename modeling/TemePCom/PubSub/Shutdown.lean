/-
TemePCom/PubSub/Shutdown.lean

How the server ends (server.cpp, server_funs.cpp): `exit` on its standard input, after
which `close_all` goes through the watched descriptors, tells the clients to exit and
closes them, and then the two sockets.

`close_all` closes what is watched.  A connection whose first message is empty is accepted
and never watched, so its descriptor is open to the end: `leaked` counts these.  What is
open in a reachable state is what was open in the beginning, the clients' descriptors, and
the leaked ones (`Accounted`), and after `close_all` exactly the clients' are gone.

Each client is sent its `EXIT` by `proto_send`, so `close_all` comes to its end only if none of
these fails, as one may to a client that has left.
-/
import TemePCom.PubSub.Agreement

namespace TemePCom.PubSub

open Runs

/-! ### `stdin_exit` and `close_all` -/

/-- `stdin_exit`, where `read` has delivered `input` into the cleared buffer. -/
def stdinExit (tmpFds : Finset ℕ) (input : Bytes) : Bool :=
  0 ∈ tmpFds ∧ exitWord <+: input

/-- The loop of `close_all`, where `send` fails as told: what it transmits, and what it leaves
open if it comes to its end. -/
def closeAllLoop (k : Sockets) (fails : ℕ → Bool) (readFds : Finset ℕ) :
    List ℕ → Finset ℕ → List Transmission × Option (Finset ℕ)
  | [], openFds => ([], some openFds)
  | i :: rest, openFds =>
    if i ∈ readFds then
      if i = k.tcp ∨ i = k.udp then closeAllLoop k fails readFds rest openFds
      -- `proto_send` does not come back
      else if fails i then ([], none)
      else
        let r := closeAllLoop k fails readFds rest (openFds.erase i)
        (⟨i, .opcode .exit⟩ :: r.1, r.2)
    else closeAllLoop k fails readFds rest openFds

/-- `close_all`. -/
def closeAll (k : Sockets) (fails : ℕ → Bool) (s : Server) :
    List Transmission × Option (Finset ℕ) :=
  let r := closeAllLoop k fails s.readFds (List.range' 1 s.fdmax) s.openFds
  (r.1, r.2.map fun openFds => (openFds.erase k.tcp).erase k.udp)

/-- The end of `main`: after a `select` that has found the standard input ready. -/
def Server.shutdown (k : Sockets) (fails : ℕ → Bool) (s : Server) (ready : Finset ℕ)
    (input : Bytes) : Option (List Transmission × Option (Finset ℕ)) :=
  if s.Enabled k (.select ready) ∧ stdinExit ready input then some (closeAll k fails s) else none

/-- The descriptors that have been accepted and forgotten. -/
def leaked : List Event → Finset ℕ
  | [] => ∅
  | .accept newFd [] _ :: es => insert newFd (leaked es)
  | _ :: es => leaked es

/-! ### The loop -/

section Loop

variable {k : Sockets} {fails : ℕ → Bool} {readFds : Finset ℕ}

/-- A descriptor `close_all` closes in its loop. -/
def ToClose (k : Sockets) (readFds : Finset ℕ) (i : ℕ) : Prop :=
  i ∈ readFds ∧ i ≠ k.tcp ∧ i ≠ k.udp

instance (i : ℕ) : Decidable (ToClose k readFds i) :=
  inferInstanceAs (Decidable (_ ∧ _ ∧ _))

/-- The `EXIT`s for descriptors. -/
def exits (fds : List ℕ) : List Transmission := fds.map fun fd => ⟨fd, .opcode .exit⟩

theorem closeAllLoop_of_not {i : ℕ} {fds : List ℕ} {openFds : Finset ℕ}
    (h : ¬ ToClose k readFds i) :
    closeAllLoop k fails readFds (i :: fds) openFds =
      closeAllLoop k fails readFds fds openFds := by
  rw [closeAllLoop]
  split_ifs with hread hlistener
  · rfl
  · exact absurd ⟨hread, not_or.mp hlistener⟩ h
  · exact absurd ⟨hread, not_or.mp hlistener⟩ h
  · rfl

/-- The loop tells the watched clients to exit, in the order of their descriptors and up to the
first `send` that fails. -/
theorem closeAllLoop_fst (fds : List ℕ) (openFds : Finset ℕ) :
    (closeAllLoop k fails readFds fds openFds).1 =
      untilFailure fails (exits (fds.filter (ToClose k readFds ·))) := by
  induction fds generalizing openFds with
  | nil => rfl
  | cons i fds ih =>
    by_cases hclose : ToClose k readFds i
    · rw [closeAllLoop, if_pos hclose.1, if_neg (not_or.mpr hclose.2),
        List.filter_cons_of_pos (by simpa), exits, List.map_cons, untilFailure]
      cases hfails : fails i with
      | true => simp [hfails]
      | false =>
        rw [List.takeWhile_cons_of_pos (by simp [hfails])]
        exact congrArg _ (ih _)
    · rw [closeAllLoop_of_not hclose, ih, List.filter_cons_of_neg (by simpa)]

/-- It closes all of these, if none fails. -/
theorem closeAllLoop_snd (fds : List ℕ) (openFds : Finset ℕ) :
    (closeAllLoop k fails readFds fds openFds).2 =
      if ∀ fd ∈ fds, ToClose k readFds fd → fails fd = false then
        some (openFds.filter fun fd => ¬ (fd ∈ fds ∧ ToClose k readFds fd))
      else none := by
  induction fds generalizing openFds with
  | nil => simp [closeAllLoop]
  | cons i fds ih =>
    by_cases hclose : ToClose k readFds i
    · rw [closeAllLoop, if_pos hclose.1, if_neg (not_or.mpr hclose.2)]
      cases hfails : fails i with
      | true => simp [hclose, hfails]
      | false =>
        simp only [Bool.false_eq_true, if_false, ih, List.forall_mem_cons, hfails, implies_true,
          true_and]
        congr 2
        ext fd
        simp only [Finset.mem_filter, Finset.mem_erase, List.mem_cons]
        by_cases heq : fd = i
        · simp [heq, hclose]
        · simp [heq]
    · rw [closeAllLoop_of_not hclose, ih]
      simp only [List.forall_mem_cons, hclose, false_implies, true_and]
      congr 2
      refine Finset.filter_congr fun fd _ => ?_
      rw [List.mem_cons]
      by_cases heq : fd = i
      · simp [heq, hclose]
      · simp [heq]

/-- In an increasing list, what is in front of the first to fail a test. -/
theorem mem_takeWhile_iff {l : List ℕ} (h : l.Pairwise (· < ·)) {test : ℕ → Bool} {i : ℕ} :
    i ∈ l.takeWhile test ↔ i ∈ l ∧ ∀ j ∈ l, j ≤ i → test j = true := by
  induction l with
  | nil => simp
  | cons j l ih =>
    obtain ⟨hj, hl⟩ := List.pairwise_cons.mp h
    cases htest : test j with
    | false =>
      rw [List.takeWhile_cons_of_neg (by simp [htest])]
      refine iff_of_false List.not_mem_nil ?_
      rintro ⟨hmem, hall⟩
      have hle : j ≤ i := (List.mem_cons.mp hmem).elim (fun heq => heq ▸ le_rfl)
        fun hin => (hj i hin).le
      rw [hall j List.mem_cons_self hle] at htest
      cases htest
    | true =>
      rw [List.takeWhile_cons_of_pos htest, List.mem_cons, List.mem_cons, ih hl,
        List.forall_mem_cons]
      constructor
      · rintro (rfl | ⟨hmem, hall⟩)
        · exact ⟨Or.inl rfl, fun _ => htest, fun j' hj' hle => absurd (hj j' hj') (by omega)⟩
        · exact ⟨Or.inr hmem, fun _ => htest, hall⟩
      · rintro ⟨rfl | hmem, -, hall⟩
        exacts [Or.inl rfl, Or.inr ⟨hmem, hall⟩]

end Loop

/-! ### What is open -/

variable {k : Sockets} {s s' : Server} {e : Event} {sent : List Transmission} {gone : Finset ℕ}
  {fails : ℕ → Bool}

/-- The open descriptors are the listeners, those there were, those that have been forgotten,
and the clients'. -/
structure Accounted (k : Sockets) (s : Server) (gone : Finset ℕ) : Prop where
  isOpen_iff : ∀ fd, fd ∈ s.openFds ↔
    k.Listener fd ∨ fd ∈ insert k.lost k.inherited ∨ fd ∈ gone ∨ fd ∈ s.readFds
  apart : ∀ fd, fd ∈ s.readFds → ¬ k.Listener fd → fd ∉ insert k.lost k.inherited ∧ fd ∉ gone

theorem accounted_start (k : Sockets) : Accounted k (Server.start k) ∅ where
  isOpen_iff := by
    intro fd
    simp only [Server.start, Finset.mem_union, Finset.mem_insert, Finset.mem_singleton,
      Sockets.Listener, Finset.notMem_empty, false_or]
    tauto
  apart := by
    intro fd hfd hnot
    simp only [Server.start, Finset.mem_insert, Finset.mem_singleton] at hfd
    exact absurd hfd hnot

/-- A visit that opens and closes nothing. -/
theorem Accounted.congr (h : Accounted k s gone) (hopen : s'.openFds = s.openFds)
    (hread : s'.readFds = s.readFds) : Accounted k s' gone where
  isOpen_iff := by
    rw [hopen, hread]
    exact h.isOpen_iff
  apart := by
    rw [hread]
    exact h.apart

/-- A descriptor that is not open is none of these. -/
theorem Accounted.fresh (h : Accounted k s gone) {fd : ℕ} (hfd : fd ∉ s.openFds) :
    ¬ k.Listener fd ∧ fd ∉ insert k.lost k.inherited ∧ fd ∉ gone ∧ fd ∉ s.readFds := by
  have hnot := (h.isOpen_iff fd).not.mp hfd
  simpa only [not_or] using hnot

/-- The descriptor of a connection without an id is forgotten. -/
theorem Accounted.leak {newFd : ℕ} (h : Accounted k s gone) (hfd : newFd ∉ s.openFds)
    (hopen : s'.openFds = insert newFd s.openFds) (hread : s'.readFds = s.readFds) :
    Accounted k s' (insert newFd gone) where
  isOpen_iff := by
    intro fd
    simp only [hopen, hread, Finset.mem_insert, h.isOpen_iff]
    tauto
  apart := by
    rw [hread]
    intro fd hmem hnot
    refine ⟨(h.apart fd hmem hnot).1, fun hgone => ?_⟩
    rcases Finset.mem_insert.mp hgone with rfl | hgone
    · exact (h.fresh hfd).2.2.2 hmem
    · exact (h.apart fd hmem hnot).2 hgone

theorem Accounted.welcome {newFd : ℕ} (h : Accounted k s gone) (hfd : newFd ∉ s.openFds)
    (hopen : s'.openFds = insert newFd s.openFds)
    (hread : s'.readFds = insert newFd s.readFds) : Accounted k s' gone where
  isOpen_iff := by
    intro fd
    simp only [hopen, hread, Finset.mem_insert, h.isOpen_iff]
    tauto
  apart := by
    rw [hread]
    intro fd hmem hnot
    rcases Finset.mem_insert.mp hmem with rfl | hmem
    · exact ⟨(h.fresh hfd).2.1, (h.fresh hfd).2.2.1⟩
    · exact h.apart fd hmem hnot

/-- A client's descriptor is closed. -/
theorem Accounted.close {i : ℕ} (h : Accounted k s gone) (hi : i ∈ s.readFds)
    (hnot : ¬ k.Listener i) (hopen : s'.openFds = s.openFds.erase i)
    (hread : s'.readFds = s.readFds.erase i) : Accounted k s' gone where
  isOpen_iff := by
    intro fd
    rw [hopen, hread, Finset.mem_erase, Finset.mem_erase, h.isOpen_iff]
    by_cases heq : fd = i
    · subst heq
      have hapart := h.apart fd hi hnot
      simp [hnot, hapart.1, hapart.2]
    · simp [heq]
  apart := by
    rw [hread]
    exact fun fd hmem => h.apart fd (Finset.mem_of_mem_erase hmem)

/-- What an event adds to the forgotten descriptors. -/
theorem leaked_cons (e : Event) (es : List Event) : leaked (e :: es) = leaked es ∪ leaked [e] := by
  cases e with
  | accept newFd frame beyond =>
    cases frame with
    | nil => simp [leaked, Finset.union_comm]
    | cons b frame => simp [leaked]
  | _ => simp [leaked]

theorem leaked_accept {newFd : ℕ} {frame beyond : Bytes} (h : frame ≠ []) :
    leaked [.accept newFd frame beyond] = ∅ := by
  cases frame with
  | nil => exact absurd rfl h
  | cons b frame => rfl

theorem accounted_step (hdesc : Descriptors k s) (h : Accounted k s gone)
    (hv : s.visit k e = some (s', sent)) : Accounted k s' (gone ∪ leaked [e]) := by
  obtain ⟨hen, -⟩ := Server.visit_eq_some.mp hv
  cases outcome_of_visit hv with
  | @leaked newFd beyond =>
    have hone : gone ∪ leaked [.accept newFd [] beyond] = insert newFd gone := by
      simp [leaked]
    rw [hone]
    exact h.leak hen.2.2.2 rfl rfl
  | duplicate _ =>
    rw [leaked_accept (ne_nil_of_refused hv), Finset.union_empty]
    exact h.congr rfl rfl
  | welcomed hframe hfd _ =>
    rw [leaked_accept hframe, Finset.union_empty]
    refine h.welcome hfd ?_ (readFds_welcome ..)
    rw [welcome_eq]
    rfl
  | disconnected hvisit hcon =>
    rw [show leaked [_] = ∅ from rfl, Finset.union_empty]
    obtain ⟨c, hc, hfd⟩ := requester_spec hdesc hvisit
    obtain ⟨hread, hnot⟩ := hdesc.watched _ s.i (hfd ▸ socketOf_eq hc)
    exact h.close hread hnot rfl rfl
  | select | skip | newTopic | published | unsubscribed | noTopic | alreadySub | subscribed
    | unknown =>
    rw [show leaked [_] = ∅ from rfl, Finset.union_empty]
    exact h.congr rfl rfl

theorem accounted_run {es : List Event} (h : Run (Server.Next k) s es s')
    (hdesc : Descriptors k s) (hacc : Accounted k s gone) :
    Descriptors k s' ∧ Accounted k s' (gone ∪ leaked es) := by
  induction h generalizing gone with
  | nil s => exact ⟨hdesc, by simpa [leaked] using hacc⟩
  | @cons s₁ s₂ _ e es hnext _ ih =>
    obtain ⟨sent, hv⟩ := hnext
    have hdesc' := descriptors_step hdesc (outcome_of_visit hv)
    rw [leaked_cons, Finset.union_comm (leaked es), ← Finset.union_assoc]
    exact ih hdesc' (accounted_step hdesc hacc hv)

/-! ### The end -/

/-- What the loop of `close_all` closes are the clients' descriptors. -/
theorem toClose_iff (h : Descriptors k s) {fd : ℕ} :
    fd ∈ List.range' 1 s.fdmax ∧ ToClose k s.readFds fd ↔ fd ∈ s.readFds ∧ ¬ k.Listener fd := by
  rw [List.mem_range'_1, ToClose, Sockets.Listener]
  constructor
  · rintro ⟨hrange, hread, htcp, hudp⟩
    refine ⟨hread, ?_⟩
    rintro (h0 | heq | heq)
    · omega
    · exact htcp heq
    · exact hudp heq
  · rintro ⟨hread, hnot⟩
    rw [not_or, not_or] at hnot
    have hle := h.le_fdmax fd hread
    exact ⟨by omega, hread, hnot.2⟩

/-- `close_all` tells the connected clients to exit, each on its descriptor, up to the first
`send` that fails. -/
theorem mem_closeAll (h : Descriptors k s) {t : Transmission} :
    t ∈ (closeAll k fails s).1 ↔ ∃ id fd, s.socketOf id = some fd ∧ t = ⟨fd, .opcode .exit⟩ ∧
      ∀ id' fd', s.socketOf id' = some fd' → fd' ≤ fd → fails fd' = false := by
  have hsorted : ((List.range' 1 s.fdmax).filter (ToClose k s.readFds ·)).Pairwise (· < ·) :=
    (List.pairwise_lt_range' (s := 1)).filter _
  have hmem {fd : ℕ} : fd ∈ (List.range' 1 s.fdmax).filter (ToClose k s.readFds ·) ↔
      ∃ id, s.socketOf id = some fd := by
    rw [List.mem_filter, decide_eq_true_eq, toClose_iff h]
    exact ⟨fun hfd => h.surj fd hfd.1 hfd.2, fun ⟨id, hid⟩ => h.watched id fd hid⟩
  rw [closeAll, closeAllLoop_fst, untilFailure, exits, List.takeWhile_map]
  simp only [List.mem_map, Function.comp_def, mem_takeWhile_iff hsorted, hmem]
  constructor
  · rintro ⟨fd, ⟨⟨id, hid⟩, hall⟩, rfl⟩
    exact ⟨id, fd, hid, rfl, fun id' fd' hid' hle => by simpa using hall fd' ⟨id', hid'⟩ hle⟩
  · rintro ⟨id, fd, hid, rfl, hall⟩
    exact ⟨fd, ⟨⟨id, hid⟩, fun fd' ⟨id', hid'⟩ hle => by simp [hall id' fd' hid' hle]⟩, rfl⟩

theorem nodup_closeAll : (closeAll k fails s).1.Nodup := by
  rw [closeAll, closeAllLoop_fst, untilFailure, exits, List.takeWhile_map]
  refine (List.Nodup.sublist (List.takeWhile_sublist _)
    (List.Nodup.filter _ List.nodup_range')).map fun fd fd' heq => ?_
  exact congrArg Transmission.fd heq

/-- `close_all` does not come to its end iff one of these fails. -/
theorem closeAll_eq_none_iff (h : Descriptors k s) :
    (closeAll k fails s).2 = none ↔ ∃ id fd, s.socketOf id = some fd ∧ fails fd = true := by
  rw [closeAll, closeAllLoop_snd, Option.map_eq_none_iff, ite_eq_right_iff]
  simp only [reduceCtorEq, imp_false, not_forall, Bool.not_eq_false]
  constructor
  · rintro ⟨fd, hrange, hclose, hfails⟩
    obtain ⟨hread, hnot⟩ := (toClose_iff h).mp ⟨hrange, hclose⟩
    obtain ⟨id, hid⟩ := h.surj fd hread hnot
    exact ⟨id, fd, hid, hfails⟩
  · rintro ⟨id, fd, hid, hfails⟩
    obtain ⟨hrange, hclose⟩ := (toClose_iff h).mpr (h.watched id fd hid)
    exact ⟨fd, hrange, hclose, hfails⟩

/-- What is left open after `close_all`. -/
theorem mem_openFds_closeAll (h : Descriptors k s) (hacc : Accounted k s gone)
    {openFds : Finset ℕ} (hopen : (closeAll k fails s).2 = some openFds) {fd : ℕ} :
    fd ∈ openFds ↔ fd = 0 ∨ fd = k.lost ∨
      (fd ∈ k.inherited ∨ fd ∈ gone) ∧ fd ≠ k.tcp ∧ fd ≠ k.udp := by
  rw [closeAll, closeAllLoop_snd] at hopen
  split_ifs at hopen
  · obtain rfl := Option.some.inj hopen
    simp only [Finset.mem_erase, Finset.mem_filter, toClose_iff h, hacc.isOpen_iff]
    by_cases hlistener : k.Listener fd
    · -- of the listeners the standard input is left
      have hzero : fd = 0 ↔ fd ≠ k.tcp ∧ fd ≠ k.udp := by
        constructor
        · rintro rfl
          exact ⟨k.tcp_ne_stdin.symm, k.udp_ne_stdin.symm⟩
        · exact fun hne => hlistener.resolve_right (not_or.mpr hne)
      have hlost : fd = k.lost → fd = 0 := by
        rintro rfl
        exact hzero.mpr ⟨k.lost_ne_tcp, k.lost_ne_udp⟩
      simp only [hlistener, true_or, not_true, and_false, not_false_iff, and_true]
      rw [and_comm, ← hzero]
      exact ⟨Or.inl, fun hor => hor.elim id fun hor => hor.elim hlost And.right⟩
    · -- the clients' descriptors are gone, and only these
      have hne : fd ≠ 0 ∧ fd ≠ k.tcp ∧ fd ≠ k.udp := by
        simpa only [Sockets.Listener, not_or] using hlistener
      have hapart := fun hread => hacc.apart fd hread hlistener
      simp only [hlistener, hne.1, hne.2.1, hne.2.2, false_or, ne_eq, not_false_iff, true_and,
        and_true, Finset.mem_insert] at hapart ⊢
      tauto
  · cases hopen

theorem eq_closeAll {ready : Finset ℕ} {input : Bytes} {left : Option (Finset ℕ)}
    (h : s.shutdown k fails ready input = some (sent, left)) :
    sent = (closeAll k fails s).1 ∧ left = (closeAll k fails s).2 := by
  unfold Server.shutdown at h
  split_ifs at h
  exact Prod.ext_iff.mp (Option.some.inj h).symm

/-- **The end of the server.**  Whatever has happened before, when `exit` is typed the connected
clients are told to exit, each once and on its own descriptor, up to the first to whom `send`
fails, and nobody else is told anything.  If it fails to none, `close_all` comes to its end, and
what stays open is the standard input, the lost socket, what the process was started with, and
the descriptors of the connections that never sent an id. -/
theorem shutdown_exits (k : Sockets) {es : List Event} {s : Server}
    (h : Run (Server.Next k) (Server.start k) es s) {fails : ℕ → Bool} {ready : Finset ℕ}
    {input : Bytes} {sent : List Transmission} {left : Option (Finset ℕ)}
    (hend : s.shutdown k fails ready input = some (sent, left)) :
    sent.Nodup ∧
      (∀ t, t ∈ sent ↔ ∃ id fd, s.socketOf id = some fd ∧ t = ⟨fd, .opcode .exit⟩ ∧
        ∀ id' fd', s.socketOf id' = some fd' → fd' ≤ fd → fails fd' = false) ∧
      (left = none ↔ ∃ id fd, s.socketOf id = some fd ∧ fails fd = true) ∧
      ∀ openFds, left = some openFds → ∀ fd, fd ∈ openFds ↔
        fd = 0 ∨ fd = k.lost ∨
          (fd ∈ k.inherited ∨ fd ∈ leaked es) ∧ fd ≠ k.tcp ∧ fd ≠ k.udp := by
  obtain ⟨hdesc, hacc⟩ := accounted_run h (descriptors_start k) (accounted_start k)
  rw [Finset.empty_union] at hacc
  obtain ⟨rfl, rfl⟩ := eq_closeAll hend
  exact ⟨nodup_closeAll, fun t => mem_closeAll hdesc, closeAll_eq_none_iff hdesc,
    fun openFds hopen fd => mem_openFds_closeAll hdesc hacc hopen⟩

/-- `exit` is typed after `a` has connected on 6, somebody without an id on 7, and `b`, who has
left, on 8. -/
theorem shutdown_exits_two_clients : ∃ (s : Server) (sent : List Transmission),
    s.shutdown someSockets (· = 8) {0} (ascii "exit".toList) = some (sent, none) ∧
      ⟨6, .opcode .exit⟩ ∈ sent ∧ ⟨8, .opcode .exit⟩ ∉ sent := by
  have hrun : ((Server.start someSockets).exec someSockets
      (pass 5 6 (.accept 6 [0x61] []) ++ pass 5 6 (.accept 7 [] []) ++
        pass 5 8 (.accept 8 [0x62] []))).map (fun s => (s.socketOf [0x61], s.socketOf [0x62],
          (s.shutdown someSockets (· = 8) {0} (ascii "exit".toList)).isSome)) =
      some (some 6, some 8, true) := by
    decide +kernel
  obtain ⟨s, hs, hview⟩ := Option.map_eq_some_iff.mp hrun
  simp only [Prod.mk.injEq] at hview
  obtain ⟨ha, hb, hend⟩ := hview
  obtain ⟨⟨sent, left⟩, hend⟩ := Option.isSome_iff_exists.mp hend
  obtain ⟨-, htold, hnone, -⟩ := shutdown_exits someSockets (Server.run_of_exec hs) hend
  obtain rfl := hnone.mpr ⟨_, _, hb, rfl⟩
  refine ⟨s, sent, hend, (htold _).mpr ⟨_, _, ha, rfl, fun id' fd' _ hle => ?_⟩, fun hin => ?_⟩
  · exact decide_eq_false (by omega)
  · obtain ⟨id, fd, -, heq, hall⟩ := (htold _).mp hin
    obtain rfl := congrArg Transmission.fd heq
    exact absurd (hall _ _ hb le_rfl) (by decide)

/-! ### The clients' ends -/

/-- A subscriber reads what is on its way, message by message. -/
def Peer.hearAll : List (Padding × Bytes) → Peer → Option Peer
  | [], p => some p
  | (padding, beyond) :: plan, p => (p.hears padding beyond).bind (Peer.hearAll plan)

/-- What a subscriber is told before an `EXIT` it still takes note of. -/
theorem hearAll_exit {down : List Content} {plan : List (Padding × Bytes)} {p : Peer}
    (hrun : p.running = true) (hdown : p.down = down ++ [.opcode .exit])
    (hexit : exitCode ∉ down.filterMap Content.code) (hplan : plan.length = down.length + 1) :
    Peer.hearAll plan p = some { p with
      running := false
      down := []
      told := p.told ++ down.filterMap Content.code } := by
  induction down generalizing p plan with
  | nil =>
    obtain ⟨⟨padding, beyond⟩, rfl⟩ := List.length_eq_one_iff.mp hplan
    rw [Peer.hearAll, hears_opcode hrun hdown, if_pos rfl]
    simp [Peer.hearAll]
  | cons c down ih =>
    obtain ⟨⟨padding, beyond⟩, plan, rfl⟩ := List.exists_cons_of_length_eq_add_one hplan
    have hrest : plan.length = down.length + 1 := by simpa using hplan
    cases c with
    | msg m =>
      rw [Peer.hearAll, hears_msg hrun hdown, Option.bind_some]
      exact ih (p := { p with down := down ++ [.opcode .exit] }) hrun rfl hexit hrest
    | opcode code =>
      have hmem : exitCode ∉ code.code :: down.filterMap Content.code := hexit
      have hne : code ≠ .exit := by
        rintro rfl
        exact hmem List.mem_cons_self
      rw [Peer.hearAll, hears_opcode hrun hdown, if_neg hne, Option.bind_some]
      refine (ih (p := { p with
        down := down ++ [.opcode .exit]
        told := p.told ++ [code.code] }) hrun rfl
        (fun hin => hmem (List.mem_cons_of_mem _ hin)) hrest).trans ?_
      simp [Content.code]

/-- A subscriber after the server has closed its end.  If the server has not read all that
was sent to it, the connection is reset, and what is on its way may be lost. -/
def Peer.Closed (p p' : Peer) : Prop :=
  ∃ down, down <+: p.down ∧ (p.up = [] → down = p.down) ∧ p' = { p with down := down }

/-- **The subscribers end with the server.**  If all the connected subscribers still run,
`close_all` comes to its end; and one with no request on its way that goes on reading gets
every answer and every message that was on its way, then the `EXIT`, and leaves its loop. -/
theorem shutdown_heard (k : Sockets) {y : System}
    (h : Reachable (System.Next k) (System.start k) y) {fails : ℕ → Bool}
    (hfails : ∀ fd, fails fd = true → y.left fd) {ready : Finset ℕ} {input : Bytes}
    {sent : List Transmission} {left : Option (Finset ℕ)}
    (hend : y.srv.shutdown k fails ready input = some (sent, left))
    (hall : ∀ id fd, y.srv.socketOf id = some fd → ¬ y.left fd) {fd n : ℕ} {p p' : Peer}
    {id : Bytes} (hline : y.line fd = some n) (hp : y.peer n = some p)
    (hid : y.srv.socketOf id = some fd) (hup : p.up = [])
    (hclosed : (p.receives (contentsFor y.line n sent)).Closed p')
    {plan : List (Padding × Bytes)} (hplan : plan.length = p.down.length + 1) :
    left ≠ none ∧ p'.hearAll plan = some { p with
      running := false
      down := []
      told := p.told ++ p.codes } := by
  obtain ⟨hw, hc⟩ := sound_reachable h
  have hcon := hc fd n p id hline hp ((ownerOf_eq_some_iff hw.books).mpr hid)
  have hnone : ∀ id' fd', y.srv.socketOf id' = some fd' → fails fd' = false := fun id' fd' hid' =>
    Bool.eq_false_of_not_eq_true fun htrue => hall id' fd' hid' (hfails fd' htrue)
  have hrun : p.running = true :=
    Bool.eq_true_of_not_eq_false fun hleft => hall id fd hid ⟨n, p, hline, hp, hleft⟩
  obtain ⟨rfl, rfl⟩ := eq_closeAll hend
  refine ⟨fun hdies => ?_, ?_⟩
  · obtain ⟨id', fd', hid', htrue⟩ := (closeAll_eq_none_iff hw.books).mp hdies
    rw [hnone id' fd' hid'] at htrue
    cases htrue
  -- the one transmission on the subscriber's descriptor
  have hone : contentsFor y.line n (closeAll k fails y.srv).1 = [.opcode .exit] := by
    refine contentsFor_eq_singleton nodup_closeAll ((mem_closeAll hw.books).mpr
      ⟨id, fd, hid, rfl, fun id' fd' hid' _ => hnone id' fd' hid'⟩) hline fun t ht hto => ?_
    obtain ⟨id', fd', hid', rfl, -⟩ := (mem_closeAll hw.books).mp ht
    rw [hw.one_line fd' fd n hto hline]
  obtain ⟨down, -, hkept, rfl⟩ := hclosed
  rw [hkept hup, hone]
  exact hearAll_exit hrun rfl hcon.exit_notMem hplan

/-- `a` has subscribed, and reads the answer and the `EXIT`. -/
theorem shutdown_heard_one_client : ∃ (y : System) (p : Peer) (sent : List Transmission)
    (left : Option (Finset ℕ)),
    y.srv.shutdown someSockets (fun _ => false) {0} (ascii "exit".toList) = some (sent, left) ∧
      y.peer 0 = some p ∧ p.codes = [subscribedCode] ∧
      Peer.hearAll [(⟨0, 0, 0⟩, []), (⟨0, 0, 0⟩, [])] (p.receives (contentsFor y.line 0 sent)) =
        some { p with
          running := false
          down := []
          told := [subscribedCode] } := by
  have hrun : ((System.start someSockets).exec someSockets (oneRequest ++ [.serve []])).map
      (fun y => (y.line 6, y.peer 0, y.srv.socketOf [0x61], y.srv.readFds,
        (y.srv.shutdown someSockets (fun _ => false) {0} (ascii "exit".toList)).isSome)) =
      some (some 0, some ⟨true, true, [], [.opcode .subscribed],
        [⟨1, topicField [0x74], 0⟩], []⟩, some 6, {0, 5, 4, 6}, true) := by
    decide +kernel
  obtain ⟨y, hy, hview⟩ := Option.map_eq_some_iff.mp hrun
  simp only [Prod.mk.injEq] at hview
  obtain ⟨hline, hp, hid, hread, hend⟩ := hview
  obtain ⟨⟨sent, left⟩, hend⟩ := Option.isSome_iff_exists.mp hend
  have hreach : Reachable (System.Next someSockets) (System.start someSockets) y :=
    ⟨_, System.run_of_exec hy⟩
  -- `a` is the only client
  have hall : ∀ id fd, y.srv.socketOf id = some fd → ¬ y.left fd := by
    rintro id fd hfd ⟨n, p, hline', hp', hleft⟩
    obtain ⟨hin, hnot⟩ := (sound_reachable hreach).1.books.watched id fd hfd
    rw [hread] at hin
    simp only [Sockets.Listener, someSockets, not_or] at hnot
    simp only [Finset.mem_insert, Finset.mem_singleton, hnot, false_or] at hin
    obtain rfl := Option.some.inj (hline.symm.trans (hin ▸ hline'))
    obtain rfl := Option.some.inj (hp.symm.trans hp')
    cases hleft
  refine ⟨y, _, sent, left, hend, hp, by decide, ?_⟩
  have hnone : ∀ fd, false = true → y.left fd := fun _ hf => absurd hf Bool.false_ne_true
  exact (shutdown_heard someSockets hreach hnone hend hall hline hp hid rfl
    ⟨_, List.prefix_rfl, fun _ => rfl, rfl⟩ rfl).2

end TemePCom.PubSub
