/-
TemePCom/Http/ServerOps.lean

The connection to the server (server_ops.h, server_ops.cpp).

Every command opens a connection of its own.  What its system calls return is a
`World`: the outcome of `socket` and `connect`, how much each `write` accepts, and
what the `read`s of each descriptor deliver, one after another; behind the last
one the stream is at its end.  A function returns the calls it makes along with
its result.

`read` returns `-1` on an error, which in a `size_t` is `sizeMax`: the tests
`bytes_recv < 0`, `header_end >= 0` and `content_length_start < 0` are translated
as they stand, on numbers that are never negative.  `strtol` may read on into the
memory behind the buffer.
-/
import TemePCom.Http.Buffer

namespace TemePCom.Http

open Decimal

/-- `BUFLEN`. -/
def bufLen : ℕ := 4096

/-- What one `read` stores into the response array. -/
structure Chunk where
  bytes : Bytes
  fits : bytes.length ≤ bufLen
  deriving DecidableEq

/-- What a `read` returns: `-1`, or the bytes it stores; none at the end. -/
inductive ReadResult
  | failed
  | got (chunk : Chunk)
  deriving DecidableEq

/-- `read` returns 0. -/
def ReadResult.eof : ReadResult := .got ⟨[], Nat.zero_le _⟩

/-- The bytes stored. -/
def ReadResult.bytes : ReadResult → Bytes
  | .failed => []
  | .got chunk => chunk.bytes

/-- `bytes_recv`, a `size_t`. -/
def ReadResult.bytesRecv : ReadResult → ℕ
  | .failed => sizeMax
  | .got chunk => chunk.bytes.length

/-- What the system calls of one command return. -/
structure World where
  socket : Option ℕ
  connects : Bool
  /-- What each `write` accepts at most; `none` is `-1`. -/
  writes : List (Option ℕ)
  reads : ℤ → List ReadResult
  /-- The memory behind the buffer. -/
  beyond : Bytes

/-- A connection on which one piece arrives. -/
def World.answering (chunk : Chunk) : World where
  socket := some 3
  connects := true
  writes := []
  reads _ := [.got chunk]
  beyond := []

/-- A system call, with what it returns. -/
inductive Call
  | socket (result : Option ℕ)
  | connect (fd : ℤ) (result : Bool)
  | write (fd : ℤ) (offered : Bytes) (result : Option ℕ)
  | read (fd : ℤ) (result : ReadResult)
  | close (fd : ℤ)
  deriving DecidableEq

/-! ### `open_connection` -/

/-- `open_connection`. -/
def openConnection (w : World) : List Call × ℤ :=
  match w.socket with
  | none => ([.socket none], -1)
  | some sockfd =>
    if w.connects then ([.socket (some sockfd), .connect sockfd true], sockfd)
    else ([.socket (some sockfd), .connect sockfd false], -1)

/-! ### `send_to_server` -/

/-- What `write` accepts of `n` bytes: what the plan says, but at least one byte
and at most all. -/
def accepted (planned n : ℕ) : ℕ := min (max 1 planned) n

/-- The loop of `send_to_server`.  When the plan is used up, `write` accepts
everything.  A `write` that fails returns -1; the SIGPIPE that a peer's reset may raise with it
ends the process, and is left out. -/
def sendLoop (sockfd : ℤ) (bytesSent : ℕ) (rest : Bytes) : List (Option ℕ) → List Call × ℕ
  | [] =>
    if rest.length > 0 then
      ([.write sockfd rest (some rest.length)], bytesSent + rest.length)
    else ([], bytesSent)
  | planned :: plan =>
    if rest.length > 0 then
      match planned with
      -- returns -1 as a size_t
      | none => ([.write sockfd rest none], sizeMax)
      | some planned =>
        let status := accepted planned rest.length
        let later := sendLoop sockfd (bytesSent + status) (rest.drop status) plan
        (.write sockfd rest (some status) :: later.1, later.2)
    else ([], bytesSent)

/-- `send_to_server`: the calls and the `size_t` it returns. -/
def sendToServer (w : World) (sockfd : ℤ) (message : Bytes) : List Call × ℕ :=
  sendLoop sockfd 0 (cString message) w.writes

/-! ### `recv_from_server` -/

/-- `HEADER_TERMINATOR`. -/
def headerTerminator : Bytes := ascii "\r\n\r\n"

/-- `CONTENT_LENGTH`. -/
def contentLengthName : Bytes := ascii "Content-Length: "

/-- A loop of `recv_from_server`: the reads it makes, the reads it leaves, and
what it ends with. -/
structure Reading (α : Type) where
  made : List ReadResult
  left : List ReadResult
  result : Except Stop α

/-- After one more `read` at the front. -/
def Reading.after {α : Type} (r : ReadResult) (later : Reading α) : Reading α :=
  { later with made := r :: later.made }

/-- The variables the first loop leaves. -/
structure Head where
  buffer : Bytes
  headerEnd : ℕ
  contentLength : ℕ

/-- The first loop: up to the end of the header. -/
def readHead (beyond buffer : Bytes) (headerEnd : ℕ) : List ReadResult → Reading Head
  | [] => ⟨[.eof], [], .ok ⟨buffer, headerEnd, 0⟩⟩
  | r :: rest =>
    if r.bytesRecv < 0 then ⟨[r], rest, .error .exited⟩
    else if r.bytesRecv = 0 then ⟨[r], rest, .ok ⟨buffer, headerEnd, 0⟩⟩
    else
      match bufferAdd buffer r.bytes r.bytesRecv with
      | .error stop => ⟨[r], rest, .error stop⟩
      | .ok buffer =>
        let headerEnd := bufferFind buffer headerTerminator
        if headerEnd ≥ 0 then
          let headerEnd := (headerEnd + headerTerminator.length) % sizeLimit
          let contentLengthStart := bufferFindInsensitive buffer contentLengthName
          if contentLengthStart < 0 then
            (readHead beyond buffer headerEnd rest).after r
          else
            let contentLengthStart :=
              (contentLengthStart + contentLengthName.length) % sizeLimit
            let contentLength := strtol ((buffer ++ beyond).drop contentLengthStart)
            ⟨[r], rest, .ok ⟨buffer, headerEnd, toSize contentLength⟩⟩
        else (readHead beyond buffer headerEnd rest).after r

/-- The second loop: up to `total` bytes. -/
def readBody (total : ℕ) (buffer : Bytes) : List ReadResult → Reading Bytes
  | [] => if buffer.length < total then ⟨[.eof], [], .ok buffer⟩ else ⟨[], [], .ok buffer⟩
  | r :: rest =>
    if buffer.length < total then
      if r.bytesRecv < 0 then ⟨[r], rest, .error .exited⟩
      else if r.bytesRecv = 0 then ⟨[r], rest, .ok buffer⟩
      else
        match bufferAdd buffer r.bytes r.bytesRecv with
        | .error stop => ⟨[r], rest, .error stop⟩
        | .ok buffer => (readBody total buffer rest).after r
    else ⟨[], r :: rest, .ok buffer⟩

/-! ### One read of each loop -/

section Reads

variable {beyond buffer : Bytes} {headerEnd total : ℕ} {chunk : Chunk} {rest : List ReadResult}

theorem bytesRecv_got_ne_zero (h : chunk.bytes ≠ []) : (ReadResult.got chunk).bytesRecv ≠ 0 :=
  fun h0 => h (List.length_eq_zero_iff.mp h0)

theorem bytesRecv_got_eq_zero (h : chunk.bytes = []) : (ReadResult.got chunk).bytesRecv = 0 :=
  List.length_eq_zero_iff.mpr h

theorem bufferAdd_got (buffer : Bytes) (chunk : Chunk) :
    bufferAdd buffer (ReadResult.got chunk).bytes (ReadResult.got chunk).bytesRecv =
      .ok (buffer ++ chunk.bytes) := bufferAdd_length buffer chunk.bytes

/-- A failed `read` is taken for `sizeMax` bytes. -/
theorem readHead_failed :
    readHead beyond buffer headerEnd (.failed :: rest) =
      ⟨[.failed], rest, .error .outOfBounds⟩ := rfl

theorem readHead_empty (h : chunk.bytes = []) :
    readHead beyond buffer headerEnd (.got chunk :: rest) =
      ⟨[.got chunk], rest, .ok ⟨buffer, headerEnd, 0⟩⟩ := by
  simp only [readHead, Nat.not_lt_zero, if_false, if_pos (bytesRecv_got_eq_zero h)]

theorem readBody_of_le (h : total ≤ buffer.length) (reads : List ReadResult) :
    readBody total buffer reads = ⟨[], reads, .ok buffer⟩ := by
  cases reads with
  | nil => simp only [readBody, if_neg (Nat.not_lt.mpr h)]
  | cons r rest => simp only [readBody, if_neg (Nat.not_lt.mpr h)]

theorem readBody_nil (h : buffer.length < total) :
    readBody total buffer [] = ⟨[.eof], [], .ok buffer⟩ := if_pos h

theorem readBody_failed (h : buffer.length < total) :
    readBody total buffer (.failed :: rest) = ⟨[.failed], rest, .error .outOfBounds⟩ := if_pos h

theorem readBody_empty (h : buffer.length < total) (hempty : chunk.bytes = []) :
    readBody total buffer (.got chunk :: rest) = ⟨[.got chunk], rest, .ok buffer⟩ := by
  simp only [readBody, if_pos h, Nat.not_lt_zero, if_false, if_pos (bytesRecv_got_eq_zero hempty)]

theorem readBody_got (h : buffer.length < total) (hne : chunk.bytes ≠ []) :
    readBody total buffer (.got chunk :: rest) =
      (readBody total (buffer ++ chunk.bytes) rest).after (.got chunk) := by
  simp only [readBody, if_pos h, Nat.not_lt_zero, if_false, if_neg (bytesRecv_got_ne_zero hne),
    bufferAdd_got]

end Reads

/-! ### The whole of it -/

/-- `recv_from_server` on what the reads deliver. -/
def receive (beyond : Bytes) (reads : List ReadResult) : Reading Bytes :=
  let first := readHead beyond [] 0 reads
  match first.result with
  | .error stop => ⟨first.made, first.left, .error stop⟩
  | .ok head =>
    let total := (head.contentLength + head.headerEnd) % sizeLimit
    let second := readBody total head.buffer first.left
    ⟨first.made ++ second.made, second.left, second.result.map fun buffer => buffer ++ [0]⟩

theorem receive_of_error {beyond : Bytes} {reads : List ReadResult} {stop : Stop}
    (h : (readHead beyond [] 0 reads).result = .error stop) :
    receive beyond reads =
      ⟨(readHead beyond [] 0 reads).made, (readHead beyond [] 0 reads).left, .error stop⟩ := by
  simp only [receive, h]

theorem receive_of_ok {beyond : Bytes} {reads : List ReadResult} {head : Head}
    (h : (readHead beyond [] 0 reads).result = .ok head) :
    receive beyond reads =
      let second := readBody ((head.contentLength + head.headerEnd) % sizeLimit) head.buffer
        (readHead beyond [] 0 reads).left
      ⟨(readHead beyond [] 0 reads).made ++ second.made, second.left,
        second.result.map fun buffer => buffer ++ [0]⟩ := by
  simp only [receive, h]

/-- `recv_from_server`: the calls, and the memory it returns. -/
def recvFromServer (w : World) (sockfd : ℤ) : List Call × Except Stop Bytes :=
  let reading := receive w.beyond (w.reads sockfd)
  (reading.made.map (Call.read sockfd), reading.result)

end TemePCom.Http
