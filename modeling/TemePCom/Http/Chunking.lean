/-
TemePCom/Http/Chunking.lean

`recv_from_server` and the pieces in which a response arrives.

The first loop ends after the first piece, whatever it holds: `header_end` and
`content_length_start` are unsigned, so a failed search goes on as a number.  How
many bytes the second loop waits for is therefore decided by the first piece
alone.  `Response.promised` is that number: where the header ends, or 3 if
the piece does not reach the header's end, plus the number behind the first
`Content-Length: ` of the piece, or behind its first 15 bytes if there is none.

The response is read exactly iff that many bytes end in its last piece
(`readsExactly_iff`).  They do in every delivery whose first piece holds the whole
header, if the first `Content-Length: ` there is the field's
(`readsExactly_of_header`).
-/
import TemePCom.Http.Response

namespace TemePCom.Http

open Decimal

/-! ### The second loop -/

section Body

variable {total : ℕ} {chunks : List Chunk} {buffer : Bytes}

/-- Pieces are read up to the one that `total` ends in. -/
theorem readBody_chunks (hne : ∀ chunk ∈ chunks, chunk.bytes ≠ [])
    (hbefore : chunks ≠ [] → buffer.length + (chunks.dropLast.flatMap Chunk.bytes).length < total)
    (hall : total ≤ buffer.length + (chunks.flatMap Chunk.bytes).length)
    (rest : List ReadResult) :
    readBody total buffer (chunks.map ReadResult.got ++ rest) =
      ⟨chunks.map ReadResult.got, rest, .ok (buffer ++ chunks.flatMap Chunk.bytes)⟩ := by
  induction chunks generalizing buffer with
  | nil =>
    have hle : total ≤ buffer.length := by simpa using hall
    simpa using readBody_of_le hle rest
  | cons chunk chunks ih =>
    have hlt : buffer.length < total := by
      have := hbefore (List.cons_ne_nil _ _)
      omega
    have hrest : readBody total (buffer ++ chunk.bytes) (chunks.map ReadResult.got ++ rest) =
        ⟨chunks.map ReadResult.got, rest,
          .ok (buffer ++ chunk.bytes ++ chunks.flatMap Chunk.bytes)⟩ := by
      apply ih
      · exact fun c hc => hne c (List.mem_cons_of_mem _ hc)
      · intro hcons
        have := hbefore (List.cons_ne_nil _ _)
        rw [List.dropLast_cons_of_ne_nil hcons, List.flatMap_cons, List.length_append] at this
        rw [List.length_append]
        omega
      · rw [List.flatMap_cons, List.length_append] at hall
        rw [List.length_append]
        omega
    show readBody total buffer (.got chunk :: (chunks.map ReadResult.got ++ rest)) = _
    rw [readBody_got hlt (hne chunk List.mem_cons_self), hrest]
    simp [Reading.after]

/-- If exactly the pieces are read, also when more could be, `total` ends in the last. -/
theorem total_of_readBody (more : ReadResult) (hne : ∀ chunk ∈ chunks, chunk.bytes ≠ [])
    (hmade : (readBody total buffer (chunks.map ReadResult.got ++ [more])).made =
      chunks.map ReadResult.got) :
    (chunks ≠ [] → buffer.length + (chunks.dropLast.flatMap Chunk.bytes).length < total) ∧
      total ≤ buffer.length + (chunks.flatMap Chunk.bytes).length := by
  induction chunks generalizing buffer with
  | nil =>
    refine ⟨fun h => absurd rfl h, ?_⟩
    by_contra hlt
    have hlt : buffer.length < total := by simpa using hlt
    change (readBody total buffer [more]).made = [] at hmade
    cases more with
    | failed =>
      rw [readBody_failed hlt] at hmade
      cases hmade
    | got chunk =>
      rcases eq_or_ne chunk.bytes [] with hempty | hne
      · rw [readBody_empty hlt hempty] at hmade
        cases hmade
      · rw [readBody_got hlt hne] at hmade
        cases hmade
  | cons chunk chunks ih =>
    rcases Nat.lt_or_ge buffer.length total with hlt | hge
    · have hne' := fun c hc => hne c (List.mem_cons_of_mem chunk hc)
      change (readBody total buffer
        (.got chunk :: (chunks.map ReadResult.got ++ [more]))).made = _ at hmade
      rw [readBody_got hlt (hne chunk List.mem_cons_self)] at hmade
      obtain ⟨hbefore, hall⟩ := ih hne' (List.cons.inj hmade).2
      rw [List.length_append] at hbefore hall
      rw [List.flatMap_cons, List.length_append]
      refine ⟨fun _ => ?_, by omega⟩
      cases chunks with
      | nil => simpa using hlt
      | cons next chunks =>
        have := hbefore (List.cons_ne_nil _ _)
        rw [List.dropLast_cons_of_ne_nil (List.cons_ne_nil _ _), List.flatMap_cons,
          List.length_append]
        omega
    · rw [readBody_of_le hge] at hmade
      cases hmade

end Body

/-! ### The first loop -/

/-- Where the number of the `Content-Length` is looked for. -/
def lengthStart (first : Bytes) : ℕ :=
  ((Search.first? (contentLengthName.map toLower) (first.map toLower)).map
    (· + contentLengthName.length)).getD 15

/-- The number that stands there, with the memory behind the piece. -/
def numberShown (beyond first : Bytes) : ℤ := strtol ((first ++ beyond).drop (lengthStart first))

theorem Chunk.length_lt (chunk : Chunk) : chunk.bytes.length + 4 < sizeLimit :=
  calc chunk.bytes.length + 4 ≤ bufLen + 4 := Nat.add_le_add_right chunk.fits 4
    _ < sizeLimit := by decide

/-- The unsigned arithmetic on a found position, or on `(size_t) -1`. -/
theorem lengthStart_eq (chunk : Chunk) :
    (bufferFindInsensitive chunk.bytes contentLengthName + contentLengthName.length) % sizeLimit =
      lengthStart chunk.bytes := by
  have hpat : contentLengthName.map toLower ≠ [] := by decide
  rw [bufferFindInsensitive_eq, lengthStart]
  cases hfirst : Search.first? (contentLengthName.map toLower) (chunk.bytes.map toLower) with
  | none => decide
  | some i =>
    have hle := ((Search.first?_eq_some_iff hpat).mp hfirst).here.length_le hpat
    rw [List.length_map, List.length_map] at hle
    have hlt := chunk.length_lt
    show (i + contentLengthName.length) % sizeLimit = i + contentLengthName.length
    exact Nat.mod_eq_of_lt (by omega)

/-- **The first loop ends after the first piece.** -/
theorem readHead_got (beyond : Bytes) {chunk : Chunk} (hne : chunk.bytes ≠ [])
    (rest : List ReadResult) :
    readHead beyond [] 0 (.got chunk :: rest) =
      ⟨[.got chunk], rest, .ok ⟨chunk.bytes,
        (bufferFind chunk.bytes headerTerminator + headerTerminator.length) % sizeLimit,
        toSize (numberShown beyond chunk.bytes)⟩⟩ := by
  simp only [readHead, Nat.not_lt_zero, if_false, if_neg (bytesRecv_got_ne_zero hne),
    bufferAdd_got, List.nil_append, ge_iff_le, Nat.zero_le, if_true, lengthStart_eq, numberShown]

/-- What the first piece makes of the end of the header. -/
def Response.headerEnd (r : Response) (first : Bytes) : ℕ :=
  if r.header.length ≤ first.length then r.header.length else 3

theorem Response.headerEnd_eq (r : Response) {chunk : Chunk} {more : Bytes}
    (htext : chunk.bytes ++ more = r.text) :
    (bufferFind chunk.bytes headerTerminator + headerTerminator.length) % sizeLimit =
      r.headerEnd chunk.bytes := by
  obtain ⟨k, hk, hfirst⟩ := r.isFirst_terminator
  rw [← htext] at hfirst
  rw [bufferFind_eq, hfirst.first?_front (by decide)]
  have hfour : headerTerminator.length = 4 := rfl
  have hlt := chunk.length_lt
  unfold Response.headerEnd
  rw [hfour, hk]
  split_ifs with hle
  · show (k + 4) % sizeLimit = r.header.length
    rw [hk]
    exact Nat.mod_eq_of_lt (by omega)
  · decide

/-! ### The exact condition -/

/-- The number of bytes that `recv_from_server` waits for. -/
def Response.promised (r : Response) (beyond first : Bytes) : ℕ :=
  (toSize (numberShown beyond first) + r.headerEnd first) % sizeLimit

/-- The first `n` bytes end in the last piece. -/
def Delivery.EndsInLast {text : Bytes} (d : Delivery text) (n : ℕ) : Prop :=
  (d.chunks.length = 1 ∨ d.beforeLast < n) ∧ n ≤ text.length

instance {text : Bytes} (d : Delivery text) (n : ℕ) : Decidable (d.EndsInLast n) :=
  inferInstanceAs (Decidable ((d.chunks.length = 1 ∨ d.beforeLast < n) ∧ n ≤ text.length))

/-- The response is read, no byte more is waited for, and it is returned with a NUL
behind it. -/
def ReadsExactly (beyond : Bytes) {text : Bytes} (d : Delivery text) : Prop :=
  ∀ (w : World) (sockfd : ℤ) (rest : List ReadResult), w.beyond = beyond →
    w.reads sockfd = d.results ++ rest →
      recvFromServer w sockfd = (d.results.map (Call.read sockfd), .ok (text ++ [0]))

/-- The first piece, and the others. -/
theorem Delivery.exists_cons {text : Bytes} (d : Delivery text) (htext : text ≠ []) :
    ∃ chunk chunks, d.chunks = chunk :: chunks := by
  cases hchunks : d.chunks with
  | nil =>
    have hcomplete := d.complete
    rw [hchunks] at hcomplete
    exact absurd hcomplete.symm htext
  | cons chunk chunks => exact ⟨chunk, chunks, rfl⟩

theorem Response.text_ne_nil (r : Response) : r.text ≠ [] := by
  intro h
  have hlen := congrArg List.length h
  simp [Response.text, Response.header, crlf, ascii] at hlen

/-- What `recv_from_server` does with the pieces of a response: one read, and then
the second loop up to the promised number of bytes. -/
theorem receive_results (r : Response) (beyond : Bytes) (d : Delivery r.text) {chunk : Chunk}
    {chunks : List Chunk} (hchunks : d.chunks = chunk :: chunks) (rest : List ReadResult) :
    receive beyond (d.results ++ rest) =
      let second := readBody (r.promised beyond d.first) chunk.bytes
        (chunks.map ReadResult.got ++ rest)
      ⟨.got chunk :: second.made, second.left, second.result.map fun buffer => buffer ++ [0]⟩ := by
  have hne : chunk.bytes ≠ [] := d.chunks_ne chunk (by rw [hchunks]; exact List.mem_cons_self)
  have htext : chunk.bytes ++ chunks.flatMap Chunk.bytes = r.text := by
    rw [← d.complete, hchunks, List.flatMap_cons]
  have hfirst : d.first = chunk.bytes := by rw [Delivery.first, hchunks]; rfl
  have hresults : d.results ++ rest = .got chunk :: (chunks.map ReadResult.got ++ rest) := by
    rw [Delivery.results, hchunks]
    rfl
  have hhead := readHead_got beyond hne (chunks.map ReadResult.got ++ rest)
  rw [r.headerEnd_eq htext] at hhead
  rw [hresults, hfirst]
  unfold receive Response.promised
  rw [hhead]
  rfl

/-- The number of bytes in front of the last piece, counted from the first. -/
theorem Delivery.beforeLast_cons {text : Bytes} (d : Delivery text) {chunk : Chunk}
    {chunks : List Chunk} (hchunks : d.chunks = chunk :: chunks) (hne : chunks ≠ []) :
    d.beforeLast = chunk.bytes.length + (chunks.dropLast.flatMap Chunk.bytes).length := by
  rw [Delivery.beforeLast, hchunks, List.dropLast_cons_of_ne_nil hne, List.flatMap_cons,
    List.length_append]

/-- **A response is read exactly** iff the number of bytes that its first piece
promises ends in its last piece. -/
theorem Response.reads_iff_endsInLast (r : Response) (beyond : Bytes) (d : Delivery r.text) :
    ReadsExactly beyond d ↔ d.EndsInLast (r.promised beyond d.first) := by
  obtain ⟨chunk, chunks, hchunks⟩ := d.exists_cons r.text_ne_nil
  have hne : ∀ c ∈ chunks, c.bytes ≠ [] := fun c hc =>
    d.chunks_ne c (by rw [hchunks]; exact List.mem_cons_of_mem _ hc)
  have htext : r.text = chunk.bytes ++ chunks.flatMap Chunk.bytes := by
    rw [← d.complete, hchunks, List.flatMap_cons]
  have hlen : r.text.length = chunk.bytes.length + (chunks.flatMap Chunk.bytes).length := by
    rw [htext, List.length_append]
  have hresults : d.results = .got chunk :: chunks.map ReadResult.got := by
    rw [Delivery.results, hchunks]
    rfl
  constructor
  · intro h
    -- with one byte more on the stream, a read too many would be seen
    let more : ReadResult := .got ⟨[0], by decide⟩
    let w : World := ⟨none, false, [], fun _ => d.results ++ [more], beyond⟩
    have hreads := congrArg Prod.fst (h w 0 [more] rfl rfl)
    have hmade : (receive beyond (d.results ++ [more])).made = d.results :=
      List.map_injective_iff.mpr (fun a b hab => (Call.read.inj hab).2) hreads
    rw [receive_results r beyond d hchunks, hresults] at hmade
    obtain ⟨hbefore, hall⟩ := total_of_readBody more hne (List.cons.inj hmade).2
    refine ⟨?_, by omega⟩
    rcases eq_or_ne chunks [] with rfl | hcons
    · left
      rw [hchunks]
      rfl
    · right
      rw [d.beforeLast_cons hchunks hcons]
      exact hbefore hcons
  · rintro ⟨hbefore, hall⟩ w sockfd rest rfl hreads
    have hlast : chunks ≠ [] → chunk.bytes.length +
        (chunks.dropLast.flatMap Chunk.bytes).length < r.promised w.beyond d.first := by
      intro hcons
      rcases hbefore with hone | hlt
      · rw [hchunks] at hone
        exact absurd (List.length_eq_zero_iff.mp (Nat.succ.inj hone)) hcons
      · rwa [d.beforeLast_cons hchunks hcons] at hlt
    have hbody := readBody_chunks hne hlast (by omega) rest
    unfold recvFromServer
    rw [hreads, receive_results r _ d hchunks, hbody, hresults, htext]
    rfl

/-- **`recv_from_server` and the cut of a response with one `Content-Length`.**  When
the first piece reaches the end of the header, as many bytes behind the header as it
shows must end in the last piece; when it does not, three bytes take the place of the
header. -/
theorem readsExactly_iff (beyond : Bytes) (r : SizedResponse) (d : Delivery r.text) :
    ReadsExactly beyond d ↔
      (r.header.length ≤ d.first.length ∧
        d.EndsInLast ((toSize (numberShown beyond d.first) + r.header.length) % sizeLimit)) ∨
      (d.first.length < r.header.length ∧
        d.EndsInLast ((toSize (numberShown beyond d.first) + 3) % sizeLimit)) := by
  rw [r.reads_iff_endsInLast, Response.promised, Response.headerEnd]
  split_ifs with hle
  · simp [hle]
  · simp [Nat.not_le.mp hle]

/-- `Content-Length: 2`. -/
def lengthTwo : Field where
  name := ascii "Content-Length"
  value := ascii " 2"
  name_ne := by decide +kernel
  name_clean := by decide +kernel
  name_colon := by decide +kernel
  value_clean := by decide +kernel

/-- `HTTP/1.1 200 OK`, with a body of two bytes. -/
def okResponse : SizedResponse where
  version := http11
  status := ⟨200, by decide⟩
  reason := ascii "OK"
  fields := [lengthTwo]
  body := ascii "hi"
  version_clean := http11_clean
  reason_clean := ok_clean
  before := []
  lengthField := lengthTwo
  after := []
  fields_eq := rfl
  named := by
    show lengthTwo.name.map toLower = ascii "content-length"
    decide +kernel
  only := by simp
  announces :=
    ⟨[32], [50], [], by decide +kernel, by decide +kernel, by decide +kernel,
      List.cons_ne_nil _ _, by decide +kernel, rfl⟩
  body_clean := by decide +kernel

/-- The response, cut within the end of its header. -/
def okResponse.cut : Delivery okResponse.text where
  chunks := [⟨ascii "HTTP/1.1 200 OK\r\nContent-Length: 2\r\n\r", by decide +kernel⟩,
    ⟨ascii "\nhi", by decide +kernel⟩]
  chunks_ne := by decide +kernel
  complete := by decide +kernel

/-- Cut there, only the first piece is read. -/
theorem not_readsExactly_cut : ¬ ∀ (beyond : Bytes) (r : SizedResponse) (d : Delivery r.text),
    ReadsExactly beyond d := by
  intro h
  have hreads := h [] okResponse okResponse.cut
  have hcut := (okResponse.reads_iff_endsInLast [] okResponse.cut).mp hreads
  exact absurd hcut (by decide +kernel)

/-! ### First pieces that show the length -/

/-- Where the line of the field stands. -/
def SizedResponse.lengthAt (r : SizedResponse) : ℕ :=
  (block (r.statusLine :: r.before.map Field.line)).length

/-- The field is spelled as the client looks for it, for the first time in the
header, and its number is a `long`. -/
structure SizedResponse.Plain (r : SizedResponse) : Prop where
  spelled : [32] <+: r.lengthField.value
  first : Search.IsFirst (contentLengthName.map toLower) (r.header.map toLower) r.lengthAt
  fits : (r.body.length : ℤ) ≤ longMax

theorem toSize_natCast {n : ℕ} (h : (n : ℤ) ≤ longMax) : toSize n = n := by
  have hlt : (n : ℤ) < sizeLimit := h.trans_lt (by decide)
  rw [toSize, Int.emod_eq_of_lt (Int.natCast_nonneg n) hlt, Int.toNat_natCast]

theorem isSpace_of_blank {text : Bytes} (h : Blank text) : ∀ c ∈ text, isSpace c := by
  intro c hc
  rcases h c hc with rfl | rfl <;> rfl

/-- Blanks and a CR begin with something that is no digit. -/
theorem Blank.head?_append {trail : Bytes} (h : Blank trail) (rest : Bytes) :
    ∀ c ∈ (trail ++ 13 :: rest).head?, isDigit c = false := by
  intro c hc
  cases trail with
  | nil =>
    rw [← Option.some.inj hc]
    rfl
  | cons d trail =>
    rw [← Option.some.inj hc]
    rcases h d List.mem_cons_self with rfl | rfl <;> rfl

/-- The number is read from a value that begins with a space. -/
theorem strtol_value {f : Field} {n : ℕ} (hf : f.Announces n) (hspelled : [32] <+: f.value)
    (rest : Bytes) : strtol (f.value.drop 1 ++ 13 :: rest) = min longMax n := by
  obtain ⟨lead, digits, trail, hvalue, hlead, htrail, hne, hdigits, rfl⟩ := hf
  rw [hvalue] at hspelled ⊢
  cases lead with
  | nil =>
    -- the value would begin with a digit
    obtain ⟨d, ds, rfl⟩ := List.exists_cons_of_ne_nil hne
    have hd : 32 = d := (List.cons_prefix_cons.mp hspelled).1
    have := hdigits d List.mem_cons_self
    rw [← hd] at this
    exact absurd this (by decide)
  | cons c lead =>
    have hlead' : Blank lead := fun b hb => hlead b (List.mem_cons_of_mem _ hb)
    have hshape : (c :: lead ++ digits ++ trail).drop 1 ++ 13 :: rest =
        lead ++ (digits ++ (trail ++ 13 :: rest)) := by simp
    rw [hshape]
    exact strtol_digits_between (List.all_eq_true.mpr (isSpace_of_blank hlead')) hdigits hne
      (htrail.head?_append rest)

/-- The text around the line of the field. -/
theorem SizedResponse.text_split (r : SizedResponse) :
    ∃ rest, r.text = block (r.statusLine :: r.before.map Field.line) ++
      (r.lengthField.line ++ 13 :: rest) := by
  refine ⟨10 :: (block (r.after.map Field.line) ++ crlf ++ r.body), ?_⟩
  have hcrlf : crlf = [13, 10] := rfl
  rw [Response.text, r.header_eq, hcrlf]
  simp

/-- A first piece that reaches behind the line of the field. -/
theorem SizedResponse.first_split (r : SizedResponse) {first more : Bytes}
    (htext : first ++ more = r.text)
    (hshown : r.lengthAt + r.lengthField.line.length < first.length) :
    ∃ tail, first = block (r.statusLine :: r.before.map Field.line) ++
      (r.lengthField.line ++ 13 :: tail) := by
  obtain ⟨rest, hsplit⟩ := r.text_split
  -- both are fronts of the text, and the field's line with its CR is the shorter one
  have hcut : block (r.statusLine :: r.before.map Field.line) ++
      (r.lengthField.line ++ [13]) <+: r.text := ⟨rest, by rw [hsplit]; simp⟩
  have hfirst : first <+: r.text := ⟨more, htext⟩
  have hle : (block (r.statusLine :: r.before.map Field.line) ++
      (r.lengthField.line ++ [13])).length ≤ first.length := by
    rw [List.length_append, List.length_append, List.length_singleton]
    unfold SizedResponse.lengthAt at hshown
    omega
  obtain ⟨tail, rfl⟩ := List.prefix_of_prefix_length_le hcut hfirst hle
  exact ⟨tail, by simp⟩

theorem SizedResponse.name_length (r : SizedResponse) : r.lengthField.name.length = 14 := by
  have hlen := congrArg List.length r.named
  rwa [List.length_map] at hlen

/-- The search finds the field. -/
theorem SizedResponse.Plain.lengthStart_eq {r : SizedResponse} (h : r.Plain)
    {first more : Bytes} (htext : first ++ more = r.text)
    (hshown : r.lengthAt + r.lengthField.line.length < first.length) :
    lengthStart first = r.lengthAt + 16 := by
  have hpat : contentLengthName.map toLower ≠ [] := by decide
  have hsixteen : contentLengthName.length = 16 := rfl
  have hline : 16 ≤ r.lengthField.line.length := by
    have hvalue := h.spelled.length_le
    have hname := r.name_length
    rw [List.length_singleton] at hvalue
    rw [Field.line, List.length_append, List.length_cons]
    omega
  -- the first place in the header is the first in the text, and so in the piece
  have hwhole : Search.IsFirst (contentLengthName.map toLower) (r.text.map toLower)
      r.lengthAt := by
    rw [Response.text, List.map_append]
    exact h.first.extend hpat _
  rw [← htext, List.map_append] at hwhole
  have hfirst := hwhole.front (by
    rw [List.length_map, List.length_map]
    omega)
  rw [lengthStart, hfirst.first?_eq hpat]
  rfl

/-- **A first piece that reaches behind the line of the field shows the length.** -/
theorem SizedResponse.Plain.numberShown_eq {r : SizedResponse} (h : r.Plain) (beyond : Bytes)
    {first more : Bytes} (htext : first ++ more = r.text)
    (hshown : r.lengthAt + r.lengthField.line.length < first.length) :
    numberShown beyond first = r.body.length := by
  obtain ⟨tail, htail⟩ := r.first_split htext hshown
  obtain ⟨value, hvalue⟩ := h.spelled
  -- what stands in front of the value, with its first space
  have hlead : r.lengthAt + 16 = (block (r.statusLine :: r.before.map Field.line) ++
      (r.lengthField.name ++ [58, 32])).length := by
    have hname := r.name_length
    have htwo : [(58 : UInt8), 32].length = 2 := rfl
    rw [List.length_append, List.length_append, hname, htwo, SizedResponse.lengthAt]
  have hshape : first ++ beyond = block (r.statusLine :: r.before.map Field.line) ++
      (r.lengthField.name ++ [58, 32]) ++ (value ++ 13 :: (tail ++ beyond)) := by
    rw [htail, Field.line, ← hvalue]
    simp
  have hdrop : (first ++ beyond).drop (r.lengthAt + 16) =
      r.lengthField.value.drop 1 ++ 13 :: (tail ++ beyond) := by
    rw [hlead, hshape, List.drop_left, ← hvalue]
    rfl
  rw [numberShown, h.lengthStart_eq htext hshown, hdrop, strtol_value r.announces h.spelled,
    min_eq_right h.fits]

theorem SizedResponse.line_lt_header (r : SizedResponse) :
    r.lengthAt + r.lengthField.line.length + 4 ≤ r.header.length := by
  have htwo : crlf.length = 2 := rfl
  rw [r.header_eq, SizedResponse.lengthAt]
  simp only [List.length_append, htwo]
  omega

/-- **A first piece that holds the header is enough**: then a response with a plain
field is read exactly, whatever the other pieces are. -/
theorem SizedResponse.Plain.readsExactly_of_header {r : SizedResponse} (h : r.Plain)
    (beyond : Bytes) (d : Delivery r.text) (hheader : r.header.length ≤ d.first.length) :
    ReadsExactly beyond d := by
  obtain ⟨more, hmore⟩ := d.exists_first_append
  have hline := r.line_lt_header
  have hnumber := h.numberShown_eq beyond hmore (by omega)
  have hpromised : r.promised beyond d.first = r.text.length := by
    have hbody : (r.body.length : ℤ) ≤ longMax := h.fits
    have hfirst : d.first.length ≤ 4096 := d.first_length_le
    have hmax : longMax = 9223372036854775807 := rfl
    have hlimit : sizeLimit = 18446744073709551616 := rfl
    rw [Response.promised, hnumber, toSize_natCast h.fits, Response.headerEnd, if_pos hheader,
      Response.text, List.length_append, Nat.add_comm]
    exact Nat.mod_eq_of_lt (by omega)
  rw [r.reads_iff_endsInLast, hpromised]
  exact ⟨Or.inr (d.beforeLast_lt r.text_ne_nil), le_rfl⟩

/-- **A first piece that ends between the length and the end of the header** makes the
client wait for three bytes more than the body has. -/
theorem SizedResponse.Plain.readsExactly_cut_iff {r : SizedResponse} (h : r.Plain)
    (beyond : Bytes) (d : Delivery r.text)
    (hshown : r.lengthAt + r.lengthField.line.length < d.first.length)
    (hcut : d.first.length < r.header.length) :
    ReadsExactly beyond d ↔ d.beforeLast < r.body.length + 3 := by
  obtain ⟨more, hmore⟩ := d.exists_first_append
  have hnumber := h.numberShown_eq beyond hmore hshown
  have hheader : r.header.length ≤ r.text.length := by
    rw [Response.text, List.length_append]
    exact Nat.le_add_right _ _
  have hpromised : r.promised beyond d.first = r.body.length + 3 := by
    have hbody : (r.body.length : ℤ) ≤ longMax := h.fits
    have hmax : longMax = 9223372036854775807 := rfl
    have hlimit : sizeLimit = 18446744073709551616 := rfl
    rw [Response.promised, hnumber, toSize_natCast h.fits, Response.headerEnd,
      if_neg (Nat.not_le.mpr hcut)]
    exact Nat.mod_eq_of_lt (by omega)
  have hsingle : d.chunks.length ≠ 1 := by
    intro hone
    obtain ⟨chunk, hchunk⟩ := List.length_eq_one_iff.mp hone
    have hfirst : d.first = r.text := by
      have hcomplete := d.complete
      rw [hchunk, List.flatMap_singleton] at hcomplete
      rw [Delivery.first, hchunk]
      exact hcomplete
    rw [hfirst] at hcut
    omega
  have hline := r.line_lt_header
  rw [r.reads_iff_endsInLast, hpromised]
  constructor
  · rintro ⟨hone | hlt, -⟩
    exacts [absurd hone hsingle, hlt]
  · intro hlt
    refine ⟨Or.inr hlt, ?_⟩
    rw [Response.text, List.length_append]
    omega

end TemePCom.Http
