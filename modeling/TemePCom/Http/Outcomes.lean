/-
TemePCom/Http/Outcomes.lean

What the exit code of a command says about the server's answer.

No handler looks at the status line.  A command reports success iff it accepts the
response, by its body and, for `login`, by its cookie; that agrees with the status
code exactly for the responses that `successMeansSuccess_iff` names.
-/
import TemePCom.Lib.Words
import TemePCom.Http.CommandSpec
import TemePCom.Http.Response

namespace TemePCom.Http

/-- The command's request goes out, and `r` is the text that is read: the whole response, or
what `recv_from_server` takes for one. -/
structure Answered (J : Json) (w : World) (cin : Cin) (s : Session) (c : Command)
    (r : Response) : Prop where
  allowed : c.Allowed s
  sent : (c.request J cin s).1.isSome
  received : (recvFromServer w w.descriptor).2 = .ok (r.text ++ [0])

/-- The status codes of success. -/
def Response.Successful (r : Response) : Prop := 200 ≤ r.status.val ∧ r.status.val ≤ 299

/-- If the command returns `EXIT_SUCCESS`, the status code is one of success. -/
def SuccessMeansSuccess (J : Json) (w : World) (cin : Cin) (s : Session) (c : Command)
    (r : Response) : Prop :=
  ∀ s', (c.run J w cin s).result = .ok (exitSuccess, s') → r.Successful

theorem cString_append_zero (text : Bytes) : cString (text ++ [0]) = cString text := by
  have hend : ∀ c ∈ [(0 : UInt8)].head?, decide (c ≠ 0) = false := fun c hc => by
    rw [← Option.some.inj hc]
    rfl
  exact (Words.span_append_of_head hend).1

theorem Response.header_ne_zero (r : Response) : ∀ c ∈ r.header, c ≠ 0 := by
  have hcrlf : ∀ c ∈ crlf, c ≠ 0 := by decide +kernel
  intro c hc
  rcases List.mem_append.mp hc with hblock | hend
  · obtain ⟨line, hline, hc⟩ := List.mem_flatMap.mp hblock
    rcases List.mem_append.mp hc with hc | hc
    exacts [(r.lines_clean line hline c hc).2.2, hcrlf c hc]
  · exact hcrlf c hend

/-- The C string of a response: only its body can have a NUL. -/
theorem Response.cString_text (r : Response) : cString r.text = r.header ++ cString r.body := by
  refine List.takeWhile_append_of_pos fun c hc => ?_
  simpa using r.header_ne_zero c hc

/-- **What the handlers take for the body** is the blank line and the body, up to its
first NUL. -/
theorem Response.extract_eq (r : Response) :
    extractJsonResponse (cString r.text) = some (headerTerminator ++ cString r.body) := by
  obtain ⟨k, hk, hfirst⟩ := Http.isFirst_terminator r.lines_clean r.lines_ne_nil
    (List.cons_ne_nil _ _) (cString r.body)
  obtain ⟨rest, hrest⟩ := hfirst.here
  have hdrop : rest = cString r.body := by
    have hbehind := congrArg (List.drop 4) hrest
    rw [List.drop_drop, hk] at hbehind
    simpa [headerTerminator, ascii] using hbehind
  rw [r.cString_text, extractJsonResponse, strstr]
  change (Search.first? headerTerminator (block r.lines ++ crlf ++ cString r.body)).map _ = _
  rw [hfirst.first?_eq (by decide)]
  show some ((block r.lines ++ crlf ++ cString r.body).drop k) = _
  rw [← hrest, hdrop]

/-- A command whose request goes out reacts to the response. -/
theorem Answered.result_eq {J : Json} {w : World} {cin : Cin} {s : Session} {c : Command}
    {r : Response} (h : Answered J w cin s c r) :
    (c.run J w cin s).result = c.react J s (cString r.text) := by
  obtain ⟨text, htext⟩ := Option.isSome_iff_exists.mp h.sent
  have hrequest : c.request J cin s = (some text, (c.request J cin s).2) := Prod.ext htext rfl
  rw [Command.run_sends h.allowed hrequest]
  show w.received.bind _ = _
  rw [World.received, h.received]
  show c.react J s (cString (r.text ++ [0])) = _
  rw [cString_append_zero]

/-- **A command reports success** iff it accepts the response. -/
theorem Answered.succeeds_iff {J : Json} {w : World} {cin : Cin} {s : Session} {c : Command}
    {r : Response} (h : Answered J w cin s c r) :
    (∃ s', (c.run J w cin s).result = .ok (exitSuccess, s')) ↔ c.Accepts J (cString r.text) := by
  rw [h.result_eq]
  constructor
  · rintro ⟨s', hs'⟩
    exact (react_eq_ok_iff.mp hs').accepts
  · intro haccepts
    obtain ⟨s', hs'⟩ := haccepts.exists_effect s
    exact ⟨s', react_eq_ok_iff.mpr hs'⟩

/-- **Success means success** exactly for the responses with a status code of success
and for those that the command does not accept. -/
theorem successMeansSuccess_iff {J : Json} {w : World} {cin : Cin} {s : Session} {c : Command}
    {r : Response} (h : Answered J w cin s c r) :
    SuccessMeansSuccess J w cin s c r ↔ r.Successful ∨ ¬ c.Accepts J (cString r.text) := by
  have hsucceeds := h.succeeds_iff
  unfold SuccessMeansSuccess
  rw [← hsucceeds]
  constructor
  · intro hall
    by_cases hs : ∃ s', (c.run J w cin s).result = .ok (exitSuccess, s')
    · obtain ⟨s', hs'⟩ := hs
      exact Or.inl (hall s' hs')
    · exact Or.inr hs
  · rintro (hr | hno) s' hs'
    · exact hr
    · exact absurd ⟨s', hs'⟩ hno

/-! ### An error that is taken for a success -/

/-- `500 Internal Server Error`, with a body that is no JSON text. -/
def serverError : Response where
  version := http11
  status := ⟨500, by decide⟩
  reason := ascii "Internal Server Error"
  fields := []
  body := ascii "oops"
  version_clean := http11_clean
  reason_clean := by decide +kernel

/-- The session of a user who has entered the library. -/
def entered : Session := ⟨ascii "id=1", ascii "t", true⟩

/-- The input of `add_book`. -/
def bookInput : Cin := ⟨ascii "title author genre 100 publisher", false⟩

theorem serverError_answers : Answered (Json.ofTable [])
    (.answering ⟨serverError.text, by decide +kernel⟩) bookInput entered .addBook serverError where
  allowed := List.cons_ne_nil _ _
  sent := by decide +kernel
  received := by rfl

theorem successMeansSuccess_iff_serverError :
    SuccessMeansSuccess (Json.ofTable []) (.answering ⟨serverError.text, by decide +kernel⟩)
      bookInput entered .addBook serverError ↔
      serverError.Successful ∨
        ¬ Command.addBook.Accepts (Json.ofTable []) (cString serverError.text) :=
  successMeansSuccess_iff serverError_answers

/-- `add_book` takes the error for a success. -/
theorem not_successMeansSuccess_serverError : ¬ ∀ (J : Json) (w : World) (cin : Cin) (s : Session)
    (c : Command) (r : Response), Answered J w cin s c r → SuccessMeansSuccess J w cin s c r := by
  intro h
  have haccepts : Command.addBook.Accepts (Json.ofTable []) (cString serverError.text) :=
    Or.inl ⟨_, serverError.extract_eq, fun htext => nomatch htext⟩
  obtain ⟨s', hs'⟩ := serverError_answers.succeeds_iff.mpr haccepts
  exact absurd (h _ _ _ _ _ _ serverError_answers s' hs').2 (by decide +kernel)

end TemePCom.Http
