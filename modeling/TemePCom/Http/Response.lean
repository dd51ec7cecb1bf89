/-
TemePCom/Http/Response.lean

HTTP responses: what the server says, before it is cut into reads.

A response is a status line, header fields and a body.  Lines are free of CR, LF
and NUL and a field's name has no colon, so the blank line that ends the header
is the first `CRLF CRLF` of the text (`Response.isFirst_terminator`).  Of a
`SizedResponse` exactly one field is a `Content-Length`, and it announces the
body's length.
-/
import TemePCom.Http.ServerOps

namespace TemePCom.Http

open Decimal

/-- `CRLF`. -/
def crlf : Bytes := ascii "\r\n"

/-- Free of line ends and NUL. -/
def Clean (text : Bytes) : Prop := ∀ c ∈ text, c ≠ 13 ∧ c ≠ 10 ∧ c ≠ 0

instance (text : Bytes) : Decidable (Clean text) :=
  inferInstanceAs (Decidable (∀ c ∈ text, c ≠ 13 ∧ c ≠ 10 ∧ c ≠ 0))

theorem Clean.append {a b : Bytes} (ha : Clean a) (hb : Clean b) : Clean (a ++ b) := by
  intro c hc
  rcases List.mem_append.mp hc with h | h
  exacts [ha c h, hb c h]

/-- `HTTP/1.1`. -/
def http11 : Bytes := ascii "HTTP/1.1"

theorem http11_clean : Clean http11 := by decide +kernel

theorem ok_clean : Clean (ascii "OK") := by decide +kernel

/-- A header field; `value` is everything behind the colon. -/
structure Field where
  name : Bytes
  value : Bytes
  name_ne : name ≠ []
  name_clean : Clean name
  name_colon : 58 ∉ name
  value_clean : Clean value

/-- The field's line, without its end. -/
def Field.line (f : Field) : Bytes := f.name ++ 58 :: f.value

theorem Field.line_clean (f : Field) : Clean f.line := by
  refine f.name_clean.append fun c hc => ?_
  rcases List.mem_cons.mp hc with rfl | h
  · decide
  · exact f.value_clean c h

/-- A response. -/
structure Response where
  version : Bytes
  /-- The three digits of the status code. -/
  status : Fin 1000
  reason : Bytes
  fields : List Field
  body : Bytes
  version_clean : Clean version
  reason_clean : Clean reason

/-- A digit. -/
def digit (n : ℕ) : UInt8 := 48 + (n % 10).toUInt8

theorem digit_clean (n : ℕ) : digit n ≠ 13 ∧ digit n ≠ 10 ∧ digit n ≠ 0 := by
  have hdigit : ∀ k < 10, 48 + k.toUInt8 ≠ 13 ∧ 48 + k.toUInt8 ≠ 10 ∧ 48 + k.toUInt8 ≠ 0 := by
    decide
  exact hdigit _ (Nat.mod_lt n (by decide))

/-- The status line. -/
def Response.statusLine (r : Response) : Bytes :=
  r.version ++
    32 :: digit (r.status.val / 100) :: digit (r.status.val / 10) :: digit r.status.val ::
      32 :: r.reason

/-- The lines of the header. -/
def Response.lines (r : Response) : List Bytes := r.statusLine :: r.fields.map Field.line

/-- Lines, each with its end. -/
def block (lines : List Bytes) : Bytes := lines.flatMap fun line => line ++ crlf

/-- The header, with the blank line that ends it. -/
def Response.header (r : Response) : Bytes := block r.lines ++ crlf

/-- The bytes of the response. -/
def Response.text (r : Response) : Bytes := r.header ++ r.body

/-! ### The end of the header -/

theorem Response.statusLine_clean (r : Response) : Clean r.statusLine := by
  refine r.version_clean.append fun c hc => ?_
  simp only [List.mem_cons] at hc
  rcases hc with rfl | rfl | rfl | rfl | rfl | h
  · decide
  · exact digit_clean _
  · exact digit_clean _
  · exact digit_clean _
  · decide
  · exact r.reason_clean c h

theorem Response.lines_clean (r : Response) : ∀ line ∈ r.lines, Clean line := by
  intro line hline
  rcases List.mem_cons.mp hline with rfl | h
  · exact r.statusLine_clean
  · obtain ⟨f, -, rfl⟩ := List.mem_map.mp h
    exact f.line_clean

theorem Response.lines_ne_nil (r : Response) : ∀ line ∈ r.lines, line ≠ [] := by
  intro line hline
  rcases List.mem_cons.mp hline with rfl | h
  · simp [Response.statusLine]
  · obtain ⟨f, -, rfl⟩ := List.mem_map.mp h
    simp [Field.line]

@[simp] theorem block_cons (line : Bytes) (lines : List Bytes) :
    block (line :: lines) = line ++ crlf ++ block lines := List.flatMap_cons

@[simp] theorem block_nil : block [] = [] := rfl

/-- The terminator begins neither in a line nor at its end, when a line follows. -/
theorem not_at_line {line rest : Bytes} {x : UInt8} (hline : 13 ∉ line) (hx : x ≠ 13) (j : ℕ)
    (hj : j < (line ++ crlf).length) :
    ¬ Search.At headerTerminator (line ++ crlf ++ x :: rest) j := by
  show ¬ Search.At [13, 10, 13, 10] (line ++ [13, 10] ++ x :: rest) j
  rcases Nat.lt_or_ge j line.length with hlt | hge
  · rw [List.append_assoc]
    exact Search.not_at_of_notMem hline hlt
  · obtain ⟨k, rfl⟩ := Nat.exists_eq_add_of_le hge
    have hk : k < 2 := by
      have htwo : crlf.length = 2 := rfl
      rw [List.length_append, htwo] at hj
      omega
    rw [List.append_assoc, Search.at_append_length_iff]
    interval_cases k <;> simp [Search.At, hx.symm]

/-- **The end of the header** is the first place of the terminator. -/
theorem isFirst_terminator {lines : List Bytes} (hclean : ∀ line ∈ lines, Clean line)
    (hne : ∀ line ∈ lines, line ≠ []) (hlines : lines ≠ []) (body : Bytes) :
    ∃ k, k + 4 = (block lines ++ crlf).length ∧
      Search.IsFirst headerTerminator (block lines ++ crlf ++ body) k := by
  induction lines with
  | nil => exact absurd rfl hlines
  | cons line lines ih =>
    have hline : 13 ∉ line := fun h => (hclean line List.mem_cons_self 13 h).1 rfl
    cases lines with
    | nil =>
      refine ⟨line.length, by simp [crlf, ascii], ?_⟩
      have hzero : Search.IsFirst headerTerminator (crlf ++ (crlf ++ body)) 0 :=
        Search.isFirst_zero_iff.mpr ⟨body, rfl⟩
      have hshift := hzero.append_left (a := line) fun j hj => Search.not_at_of_notMem hline hj
      simpa using hshift
    | cons next lines =>
      obtain ⟨k, hk, hfirst⟩ := ih (fun l hl => hclean l (List.mem_cons_of_mem _ hl))
        (fun l hl => hne l (List.mem_cons_of_mem _ hl)) (List.cons_ne_nil _ _)
      have hnext : next ∈ line :: next :: lines := List.mem_cons_of_mem _ List.mem_cons_self
      obtain ⟨x, xs, rfl⟩ := List.exists_cons_of_ne_nil (hne next hnext)
      have hx : x ≠ 13 := (hclean _ hnext x List.mem_cons_self).1
      refine ⟨(line ++ crlf).length + k, ?_, ?_⟩
      · have hlen : (block (line :: (x :: xs) :: lines) ++ crlf).length =
            (line ++ crlf).length + (block ((x :: xs) :: lines) ++ crlf).length := by
          rw [block_cons, List.append_assoc, List.length_append]
        rw [hlen, ← hk, Nat.add_assoc]
      · have hshift := hfirst.append_left (a := line ++ crlf) fun j hj => by
          simpa using not_at_line hline hx j hj
        simpa using hshift

theorem Response.isFirst_terminator (r : Response) :
    ∃ k, k + 4 = r.header.length ∧ Search.IsFirst headerTerminator r.text k :=
  Http.isFirst_terminator r.lines_clean r.lines_ne_nil (List.cons_ne_nil _ _) r.body

/-! ### The announced length -/

/-- The field's name is `Content-Length`, in any case. -/
def Field.IsContentLength (f : Field) : Prop := f.name.map toLower = ascii "content-length"

/-- Spaces and tabs. -/
def Blank (text : Bytes) : Prop := ∀ c ∈ text, c = 32 ∨ c = 9

instance (text : Bytes) : Decidable (Blank text) :=
  inferInstanceAs (Decidable (∀ c ∈ text, c = 32 ∨ c = 9))

/-- The field's value is the number, between blanks. -/
def Field.Announces (f : Field) (n : ℕ) : Prop :=
  ∃ lead digits trail, f.value = lead ++ digits ++ trail ∧ Blank lead ∧ Blank trail ∧
    digits ≠ [] ∧ (∀ c ∈ digits, isDigit c) ∧ digitsValue digits = n

/-- A response with one `Content-Length` field, equal to the length of its body,
which is free of NUL. -/
structure SizedResponse extends Response where
  before : List Field
  lengthField : Field
  after : List Field
  fields_eq : fields = before ++ lengthField :: after
  named : lengthField.IsContentLength
  only : ∀ f ∈ before ++ after, ¬ f.IsContentLength
  announces : lengthField.Announces body.length
  body_clean : 0 ∉ body

/-- The header around the line of the field. -/
theorem SizedResponse.header_eq (r : SizedResponse) :
    r.header = block (r.statusLine :: r.before.map Field.line) ++
      (r.lengthField.line ++ crlf ++ block (r.after.map Field.line)) ++ crlf := by
  have hlines : r.lines = (r.statusLine :: r.before.map Field.line) ++
      (r.lengthField.line :: r.after.map Field.line) := by
    rw [Response.lines, r.fields_eq, List.map_append, List.map_cons, List.cons_append]
  rw [Response.header, hlines, ← block_cons]
  simp only [block, List.flatMap_append]

/-! ### Deliveries -/

/-- A text cut into the non-empty pieces that the reads deliver. -/
structure Delivery (text : Bytes) where
  chunks : List Chunk
  chunks_ne : ∀ chunk ∈ chunks, chunk.bytes ≠ []
  complete : chunks.flatMap Chunk.bytes = text

/-- What the reads return. -/
def Delivery.results {text : Bytes} (d : Delivery text) : List ReadResult :=
  d.chunks.map ReadResult.got

/-- The bytes of the first piece. -/
def Delivery.first {text : Bytes} (d : Delivery text) : Bytes :=
  (d.chunks.head?.map Chunk.bytes).getD []

/-- The number of bytes in front of the last piece. -/
def Delivery.beforeLast {text : Bytes} (d : Delivery text) : ℕ :=
  (d.chunks.dropLast.flatMap Chunk.bytes).length

/-- The last piece is not empty. -/
theorem Delivery.beforeLast_lt {text : Bytes} (d : Delivery text) (htext : text ≠ []) :
    d.beforeLast < text.length := by
  have hne : d.chunks ≠ [] := by
    intro h
    have hcomplete := d.complete
    rw [h] at hcomplete
    exact htext hcomplete.symm
  have hlast := d.chunks_ne _ (List.getLast_mem hne)
  have hsplit : text = d.chunks.dropLast.flatMap Chunk.bytes ++ (d.chunks.getLast hne).bytes := by
    calc text = (d.chunks.dropLast ++ [d.chunks.getLast hne]).flatMap Chunk.bytes := by
          rw [List.dropLast_append_getLast, d.complete]
      _ = _ := by rw [List.flatMap_append, List.flatMap_singleton]
  have hlen := congrArg List.length hsplit
  rw [List.length_append] at hlen
  have hpos := List.length_pos_iff.mpr hlast
  show (d.chunks.dropLast.flatMap Chunk.bytes).length < text.length
  omega

/-- The first piece is the front of the text. -/
theorem Delivery.exists_first_append {text : Bytes} (d : Delivery text) :
    ∃ more, d.first ++ more = text := by
  have hcomplete := d.complete
  unfold Delivery.first
  cases hchunks : d.chunks with
  | nil => exact ⟨text, rfl⟩
  | cons chunk chunks =>
    rw [hchunks, List.flatMap_cons] at hcomplete
    exact ⟨_, hcomplete⟩

theorem Delivery.first_length_le {text : Bytes} (d : Delivery text) : d.first.length ≤ bufLen := by
  unfold Delivery.first
  cases d.chunks with
  | nil => exact Nat.zero_le _
  | cons chunk chunks => exact chunk.fits

end TemePCom.Http
