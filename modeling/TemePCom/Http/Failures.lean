/-
TemePCom/Http/Failures.lean

What a command does when one of its system calls fails.

The failures get lost on their way to the command.  `send_request` turns a missing
connection into the descriptor 1, which the command reads from and closes; a
failed `write` is compared as a `size_t` and goes unnoticed; a failed `read` is a
`size_t` that is neither negative nor zero, and `buffer_add` copies that many
bytes.  A failure is contained only where it is a `write` and the command refuses
what it reads nevertheless (`contained_iff`).
-/
import TemePCom.Http.CommandSpec
import TemePCom.Http.Chunking

namespace TemePCom.Http

/-- The call fails. -/
def Call.Fails : Call → Prop
  | .socket result => result = none
  | .connect _ result => result = false
  | .write _ _ result => result = none
  | .read _ result => result = .failed
  | .close _ => False

/-- The descriptor the call reads from, writes to or closes. -/
def Call.used : Call → Option ℤ
  | .socket _ => none
  | .connect _ _ => none
  | .write fd _ _ => some fd
  | .read fd _ => some fd
  | .close fd => some fd

def Call.IsWrite (call : Call) : Prop := ∃ fd offered result, call = .write fd offered result

/-- If a call fails, the command returns `EXIT_FAILURE`, leaves the session alone, and
uses only the descriptor that `open_connection` returned. -/
def Contained (J : Json) (w : World) (cin : Cin) (s : Session) (c : Command) : Prop :=
  (∃ call ∈ (c.run J w cin s).calls, call.Fails) →
    (c.run J w cin s).result = .ok (exitFailure, s) ∧
      ∀ call ∈ (c.run J w cin s).calls, ∀ fd, call.used = some fd →
        w.opened.map Nat.cast = some fd

/-! ### The calls of a command -/

section Calls

variable {w : World} {text : Bytes} {c : Command} {call : Call}

theorem mem_sendLoop {sockfd : ℤ} {plan : List (Option ℕ)} {bytesSent : ℕ} {rest : Bytes}
    (h : call ∈ (sendLoop sockfd bytesSent rest plan).1) :
    ∃ offered result, call = .write sockfd offered result := by
  induction plan generalizing bytesSent rest with
  | nil =>
    simp only [sendLoop] at h
    split at h
    · exact ⟨_, _, List.mem_singleton.mp h⟩
    · cases h
  | cons planned plan ih =>
    simp only [sendLoop] at h
    split at h
    · cases planned with
      | none => exact ⟨_, _, List.mem_singleton.mp h⟩
      | some planned =>
        rcases List.mem_cons.mp h with hfirst | hlater
        exacts [⟨_, _, hfirst⟩, ih hlater]
    · cases h

/-- With a connection, only writes to its descriptor can fail. -/
theorem mem_sendRequest_of_opened {sockfd : ℕ} (hopened : w.opened = some sockfd)
    (h : call ∈ (sendRequest w text).1) :
    (¬ call.Fails ∧ call.used = none) ∨
      ∃ offered result, call = .write sockfd offered result := by
  obtain ⟨hconnects, hsocket⟩ : w.connects = true ∧ w.socket = some sockfd := by
    simpa [World.opened] using hopened
  have hopen : openConnection w =
      ([.socket (some sockfd), .connect sockfd true], (sockfd : ℤ)) := by
    simp [openConnection, hconnects, hsocket]
  have hnn : ¬ (sockfd : ℤ) < 0 := Int.not_lt.mpr (Int.natCast_nonneg _)
  simp only [sendRequest, hopen, if_neg hnn, Nat.not_lt_zero, if_false, List.cons_append,
    List.nil_append, List.mem_cons] at h
  rcases h with rfl | rfl | hwrite
  · exact Or.inl ⟨nofun, rfl⟩
  · exact Or.inl ⟨nofun, rfl⟩
  · exact Or.inr (mem_sendLoop hwrite)

/-- Without one, `socket` or `connect` has failed. -/
theorem sendRequest_of_not_opened (hopened : w.opened = none) (text : Bytes) :
    ∃ call ∈ (sendRequest w text).1, call.Fails ∧ ¬ call.IsWrite := by
  have hcall : ∃ call ∈ (openConnection w).1, call.Fails ∧ ¬ call.IsWrite := by
    unfold openConnection
    cases hsocket : w.socket with
    | none => exact ⟨.socket none, List.mem_singleton_self _, rfl, nofun⟩
    | some sockfd =>
      have hconnects : w.connects = false := by simpa [World.opened, hsocket] using hopened
      rw [hconnects]
      exact ⟨.connect sockfd false, List.mem_cons_of_mem _ (List.mem_singleton_self _), rfl, nofun⟩
  have hneg : (openConnection w).2 < 0 := by
    rw [openConnection_snd, hopened]
    decide
  simp only [sendRequest, if_pos hneg]
  exact hcall

theorem mem_recvFromServer (h : call ∈ (recvFromServer w w.descriptor).1) :
    ∃ r, call = .read w.descriptor r := by
  obtain ⟨r, -, rfl⟩ := List.mem_map.mp h
  exact ⟨r, rfl⟩

/-- At least one `read` is made. -/
theorem exists_mem_recvFromServer (w : World) (fd : ℤ) :
    ∃ r, Call.read fd r ∈ (recvFromServer w fd).1 := by
  have hhead : ∃ r, r ∈ (readHead w.beyond [] 0 (w.reads fd)).made := by
    cases w.reads fd with
    | nil => exact ⟨.eof, List.mem_singleton_self _⟩
    | cons r rest =>
      cases r with
      | failed => exact ⟨.failed, List.mem_singleton_self _⟩
      | got chunk =>
        rcases eq_or_ne chunk.bytes [] with hempty | hne
        · rw [readHead_empty hempty]
          exact ⟨.got chunk, List.mem_singleton_self _⟩
        · rw [readHead_got w.beyond hne]
          exact ⟨.got chunk, List.mem_singleton_self _⟩
  obtain ⟨r, hr⟩ := hhead
  refine ⟨r, List.mem_map_of_mem ?_⟩
  cases hhead : (readHead w.beyond [] 0 (w.reads fd)).result with
  | error stop =>
    rw [receive_of_error hhead]
    exact hr
  | ok head =>
    rw [receive_of_ok hhead]
    exact List.mem_append_left _ hr

theorem failed_notMem_got (chunk : Chunk) : ReadResult.failed ∉ [ReadResult.got chunk] := by
  simp

theorem readHead_of_failed {beyond : Bytes} {reads : List ReadResult}
    (h : .failed ∈ (readHead beyond [] 0 reads).made) :
    (readHead beyond [] 0 reads).result = .error .outOfBounds := by
  cases reads with
  | nil => exact absurd h (failed_notMem_got _)
  | cons r rest =>
    cases r with
    | failed => rw [readHead_failed]
    | got chunk =>
      rcases eq_or_ne chunk.bytes [] with hempty | hne
      · rw [readHead_empty hempty] at h
        exact absurd h (failed_notMem_got _)
      · rw [readHead_got beyond hne] at h
        exact absurd h (failed_notMem_got _)

theorem readBody_of_failed {total : ℕ} {buffer : Bytes} {reads : List ReadResult}
    (h : .failed ∈ (readBody total buffer reads).made) :
    (readBody total buffer reads).result = .error .outOfBounds := by
  induction reads generalizing buffer with
  | nil =>
    rcases Nat.lt_or_ge buffer.length total with hlt | hge
    · rw [readBody_nil hlt] at h
      exact absurd h (failed_notMem_got _)
    · rw [readBody_of_le hge] at h
      cases h
  | cons r rest ih =>
    rcases Nat.lt_or_ge buffer.length total with hlt | hge
    · cases r with
      | failed => rw [readBody_failed hlt]
      | got chunk =>
        rcases eq_or_ne chunk.bytes [] with hempty | hne
        · rw [readBody_empty hlt hempty] at h
          exact absurd h (failed_notMem_got _)
        · rw [readBody_got hlt hne] at h ⊢
          have hother : ReadResult.failed ≠ .got chunk := by simp
          exact ih ((List.mem_cons.mp h).resolve_left hother)
    · rw [readBody_of_le hge] at h
      cases h

/-- **A failed `read`** ends the program. -/
theorem recvFromServer_of_failed {fd : ℤ} (h : Call.read fd .failed ∈ (recvFromServer w fd).1) :
    (recvFromServer w fd).2 = .error .outOfBounds := by
  obtain ⟨r, hr, hread⟩ := List.mem_map.mp h
  obtain rfl : r = .failed := (Call.read.inj hread).2
  change (receive w.beyond (w.reads fd)).result = _
  cases hhead : (readHead w.beyond [] 0 (w.reads fd)).result with
  | error stop =>
    rw [receive_of_error hhead] at hr ⊢
    rw [readHead_of_failed hr] at hhead
    cases hhead
    rfl
  | ok head =>
    rw [receive_of_ok hhead] at hr ⊢
    rcases List.mem_append.mp hr with hfirst | hsecond
    · rw [readHead_of_failed hfirst] at hhead
      cases hhead
    · show Except.map _ (readBody _ _ _).result = _
      rw [readBody_of_failed hsecond]
      rfl

end Calls

/-! ### The exact condition -/

theorem mem_closing {w : World} {c : Command} {call : Call} (h : call ∈ c.closing w) :
    call = .close w.descriptor := by
  unfold Command.closing at h
  split at h
  · cases h
  · split at h
    · cases h
    · exact List.mem_singleton.mp h

/-- Without a connection, the command reads from descriptor 1. -/
theorem exists_stray_read {w : World} (hopened : w.opened = none) (text : Bytes) (c : Command) :
    ∃ r, Call.read exitFailure r ∈ c.traffic w text := by
  have hdescriptor : w.descriptor = exitFailure := by rw [World.descriptor, hopened]
  obtain ⟨r, hr⟩ := exists_mem_recvFromServer w w.descriptor
  refine ⟨r, List.mem_append_left _ (List.mem_append_right _ ?_)⟩
  rwa [← hdescriptor]

/-- With a connection, only its descriptor is used. -/
theorem used_of_opened {w : World} {text : Bytes} {c : Command} {call : Call} {sockfd : ℕ}
    (hopened : w.opened = some sockfd) (h : call ∈ c.traffic w text) {fd : ℤ}
    (hfd : call.used = some fd) : w.opened.map Nat.cast = some fd := by
  have hdescriptor : w.descriptor = sockfd := by rw [World.descriptor, hopened]
  rw [hopened]
  rcases List.mem_append.mp h with h | hclose
  · rcases List.mem_append.mp h with hsend | hread
    · rcases mem_sendRequest_of_opened hopened hsend with ⟨-, hnone⟩ | ⟨offered, result, rfl⟩
      · exact nomatch hnone.symm.trans hfd
      · exact hfd
    · obtain ⟨r, rfl⟩ := mem_recvFromServer hread
      rw [hdescriptor] at hfd
      exact hfd
  · rw [mem_closing hclose, hdescriptor] at hfd
    exact hfd

/-- Where the response is read, only `socket`, `connect` and `write` can have failed. -/
theorem isWrite_of_fails {w : World} {text response : Bytes} {c : Command} {call : Call}
    {sockfd : ℕ} (hopened : w.opened = some sockfd) (hreceived : w.received = .ok response)
    (h : call ∈ c.traffic w text) (hfails : call.Fails) : call.IsWrite := by
  rcases List.mem_append.mp h with h | hclose
  · rcases List.mem_append.mp h with hsend | hread
    · rcases mem_sendRequest_of_opened hopened hsend with ⟨hok, -⟩ | ⟨offered, result, rfl⟩
      · exact absurd hfails hok
      · exact ⟨_, _, _, rfl⟩
    · obtain ⟨r, rfl⟩ := mem_recvFromServer hread
      obtain rfl : r = .failed := hfails
      rw [World.received, recvFromServer_of_failed hread] at hreceived
      cases hreceived
  · rw [mem_closing hclose] at hfails
    exact hfails.elim

/-- **A failure is contained** iff only writes fail and the command refuses the
response that it reads all the same.  A `write` fails if it returns -1; after one that raises
SIGPIPE nothing is read. -/
theorem contained_iff (J : Json) (w : World) (cin : Cin) (s : Session) (c : Command) :
    Contained J w cin s c ↔
      ∀ call ∈ (c.run J w cin s).calls, call.Fails →
        call.IsWrite ∧ ∃ response, w.received = .ok response ∧ c.Refuses J response := by
  by_cases hallowed : c.Allowed s
  swap
  · rw [Contained, Command.run_refused hallowed]
    simp [Outcome.refused]
  rcases hrequest : c.request J cin s with ⟨_ | text, cin'⟩
  · rw [Contained, Command.run_throws hallowed hrequest]
    simp
  rw [Contained, Command.run_sends hallowed hrequest]
  constructor
  · intro hcontained call hcall hfails
    obtain ⟨hresult, hused⟩ := hcontained ⟨call, hcall, hfails⟩
    obtain ⟨response, hreceived, hreact⟩ : ∃ response, w.received = .ok response ∧
        c.react J s response = .ok (exitFailure, s) := by
      cases hreceived : w.received with
      | error stop => simp [hreceived, Except.bind] at hresult
      | ok response => exact ⟨response, rfl, by simpa [hreceived, Except.bind] using hresult⟩
    cases hopened : w.opened with
    | none =>
      -- the read from descriptor 1 is not contained
      obtain ⟨r, hr⟩ := exists_stray_read hopened text c
      have hstray := hused _ hr _ rfl
      rw [hopened] at hstray
      cases hstray
    | some sockfd =>
      exact ⟨isWrite_of_fails hopened hreceived hcall hfails, response, hreceived,
        (react_eq_ok_iff.mp hreact).refuses.1⟩
  · rintro hwrites ⟨call, hcall, hfails⟩
    obtain ⟨-, response, hreceived, hrefuses⟩ := hwrites call hcall hfails
    constructor
    · show w.received.bind _ = _
      rw [hreceived]
      exact react_eq_ok_iff.mpr (.refused hrefuses)
    · intro call' hcall' fd hfd
      cases hopened : w.opened with
      | none =>
        obtain ⟨lost, hlost, hfailed, hnowrite⟩ := sendRequest_of_not_opened hopened text
        have hmem : lost ∈ c.traffic w text :=
          List.mem_append_left _ (List.mem_append_left _ hlost)
        exact absurd (hwrites lost hmem hfailed).1 hnowrite
      | some sockfd =>
        rw [← hopened]
        exact used_of_opened hopened hcall' hfd

/-! ### A connection that is refused -/

/-- `socket` succeeds, `connect` does not. -/
def World.refusing : World := ⟨some 3, false, [], fun _ => [], []⟩

/-- `get_books` without a connection reads from descriptor 1. -/
theorem not_contained_refusing : ¬ ∀ (J : Json) (w : World) (cin : Cin) (s : Session)
    (c : Command), Contained J w cin s c := by
  intro h
  let J := Json.ofTable []
  let s : Session := ⟨ascii "id=1", ascii "t", true⟩
  have hallowed : Command.getBooks.Allowed s := List.cons_ne_nil _ _
  let cin : Cin := ⟨[], false⟩
  let text := computeGetRequest host (cString booksUrl) [] (bearer s)
  have hrequest : Command.getBooks.request J cin s = (some text, cin) := rfl
  have hrun := Command.run_sends hallowed hrequest World.refusing
  have hcontained := h J .refusing cin s .getBooks
  rw [Contained, hrun] at hcontained
  obtain ⟨lost, hlost, hfails, -⟩ := sendRequest_of_not_opened (w := .refusing) rfl text
  obtain ⟨r, hr⟩ := exists_stray_read (w := .refusing) rfl text .getBooks
  have hmem := List.mem_append_left (Command.getBooks.closing .refusing)
    (List.mem_append_left (recvFromServer .refusing World.refusing.descriptor).1 hlost)
  exact nomatch (hcontained ⟨lost, hmem, hfails⟩).2 _ hr _ rfl

end TemePCom.Http
