/-
TemePCom/Http/Buffer.lean

The growing buffer (buffer.h, buffer.cpp) and the C string functions the client
uses; `strtol` and `isspace` are those of `TemePCom.Lib.Decimal`.

A `buffer` is the list of its bytes; `data == nullptr` is the empty list.  A
`size_t` is a natural number below `2 ^ 64`, so `-1` is `sizeMax`, and what is
added to it wraps around.
-/
import TemePCom.Lib.Search
import TemePCom.Lib.Decimal

namespace TemePCom.Http

/-- The contents of a buffer, a `std::string` or a piece of memory. -/
abbrev Bytes : Type := List UInt8

/-- The bytes of a text. -/
def ascii (text : String) : Bytes := text.toList.map fun c => c.toNat.toUInt8

/-- Ways in which a command does not return: `exit`, an access outside of an
object, and an exception of the JSON library that nothing catches. -/
inductive Stop
  | exited
  | outOfBounds
  | uncaught
  deriving DecidableEq

/-- One more than the largest `size_t`. -/
def sizeLimit : ℕ := 2 ^ 64

/-- `(size_t) -1`. -/
def sizeMax : ℕ := sizeLimit - 1

/-- A `long` as a `size_t`. -/
def toSize (n : ℤ) : ℕ := (n % (sizeLimit : ℤ)).toNat

/-! ### C strings -/

/-- The C string at the front of a piece of memory. -/
def cString (memory : Bytes) : Bytes := memory.takeWhile (· ≠ 0)

/-- `tolower`. -/
def toLower (c : UInt8) : UInt8 := if 65 ≤ c ∧ c ≤ 90 then c + 32 else c

/-- `strstr`: the text from the first place of the pattern on. -/
def strstr (text pat : Bytes) : Option Bytes := (Search.first? pat text).map text.drop

/-! ### `buffer_add` -/

/-- `buffer_add`: `data` is what is readable at the pointer. -/
def bufferAdd (buffer data : Bytes) (dataSize : ℕ) : Except Stop Bytes :=
  if dataSize ≤ data.length then .ok (buffer ++ data.take dataSize) else .error .outOfBounds

theorem bufferAdd_length (buffer data : Bytes) :
    bufferAdd buffer data data.length = .ok (buffer ++ data) := by
  rw [bufferAdd, if_pos le_rfl, List.take_length]

/-! ### `buffer_find` -/

/-- The search of `buffer_find` and `buffer_find_insensitive`, which compare the
bytes as `fold` shows them. -/
def bufferSearch (fold : UInt8 → UInt8) (buffer data : Bytes) : ℕ :=
  if data.length > buffer.length then sizeMax
  else
    let lastPos := buffer.length - data.length + 1
    let found := (List.range lastPos).find? fun i =>
      ((buffer.drop i).take data.length).map fold = data.map fold
    found.getD sizeMax

/-- `buffer_find`. -/
def bufferFind (buffer data : Bytes) : ℕ := bufferSearch id buffer data

/-- `buffer_find_insensitive`. -/
def bufferFindInsensitive (buffer data : Bytes) : ℕ := bufferSearch toLower buffer data

theorem take_map_eq_iff_at (fold : UInt8 → UInt8) (buffer data : Bytes) (i : ℕ) :
    ((buffer.drop i).take data.length).map fold = data.map fold ↔
      Search.At (data.map fold) (buffer.map fold) i := by
  unfold Search.At
  rw [← List.map_drop, List.prefix_iff_eq_take, List.length_map, List.map_take]
  exact eq_comm

/-- The loops of the two functions look for the first place. -/
theorem bufferSearch_eq (fold : UInt8 → UInt8) (buffer data : Bytes) :
    bufferSearch fold buffer data =
      (Search.first? (data.map fold) (buffer.map fold)).getD sizeMax := by
  simp only [bufferSearch, Search.first?, List.length_map, take_map_eq_iff_at]
  split_ifs with hlong
  · have hnone : buffer.length + 1 - data.length = 0 := by omega
    rw [hnone]
    rfl
  · have hlast : buffer.length - data.length + 1 = buffer.length + 1 - data.length := by omega
    rw [hlast]

theorem bufferFind_eq (buffer data : Bytes) :
    bufferFind buffer data = (Search.first? data buffer).getD sizeMax := by
  rw [bufferFind, bufferSearch_eq, List.map_id, List.map_id]

theorem bufferFindInsensitive_eq (buffer data : Bytes) :
    bufferFindInsensitive buffer data =
      (Search.first? (data.map toLower) (buffer.map toLower)).getD sizeMax :=
  bufferSearch_eq toLower buffer data

end TemePCom.Http
