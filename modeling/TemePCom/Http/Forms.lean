/-
TemePCom/Http/Forms.lean

The JSON library as far as the client uses it, `std::cin`, and the forms read from
it (forms.h, forms.cpp).

The library is a parameter.  What is known of it is that `parse` throws a
`parse_error` exactly on the texts that are not JSON; it may throw other
exceptions, as `dump` does on a string that is not UTF-8.  `Json.ofTable` is the
library on the texts of a table.

The stream is the bytes still to be read and its fail bit, with which every
further extraction does nothing.
-/
import TemePCom.Http.Buffer

namespace TemePCom.Http

open Decimal

/-! ### nlohmann::json -/

/-- What `parse` may throw. -/
inductive JsonError
  | parseError
  | other
  deriving DecidableEq

/-- A member of a form. -/
inductive FormValue
  | text (value : Bytes)
  | number (value : UInt32)
  deriving DecidableEq

/-- An `ordered_json` object made from a form. -/
abbrev Form : Type := List (Bytes × FormValue)

/-- `nlohmann::json`. -/
structure Json where
  Value : Type
  /-- The JSON texts. -/
  Text : Bytes → Prop
  parse : Bytes → Except JsonError Value
  parse_error_iff : ∀ text, parse text = .error .parseError ↔ ¬ Text text
  contains : Value → Bytes → Bool
  isArray : Value → Bool
  /-- A member converted to a `std::string`; `none` is a `type_error`. -/
  string : Value → Bytes → Option Bytes
  /-- `none` is a `type_error`. -/
  dump : Form → Option Bytes

/-- A string without characters to be escaped, in quotes. -/
def quoted (text : Bytes) : Bytes := 34 :: text ++ [34]

def FormValue.dump : FormValue → Bytes
  | .text value => quoted value
  | .number value => numeral value.toNat

/-- The library on the texts of a table, objects of strings, and on forms without
characters to be escaped. -/
def Json.ofTable (table : List (Bytes × List (Bytes × Bytes))) : Json where
  Value := List (Bytes × Bytes)
  Text text := (table.lookup text).isSome
  parse text := match table.lookup text with
    | none => .error .parseError
    | some object => .ok object
  parse_error_iff text := by cases table.lookup text <;> simp
  contains object key := (object.lookup key).isSome
  isArray _ := false
  string object key := object.lookup key
  dump form :=
    let members := form.map fun member => quoted member.1 ++ 58 :: member.2.dump
    some (123 :: (members.intersperse [44]).flatten ++ [125])

/-! ### std::cin -/

/-- `std::cin`: what is still to be read, and the fail bit. -/
structure Cin where
  rest : Bytes
  failed : Bool
  deriving DecidableEq

/-- `>>` into an empty string. -/
def Cin.word (cin : Cin) : Bytes × Cin :=
  if cin.failed then ([], cin)
  else
    match cin.rest.dropWhile isSpace with
    | [] => ([], ⟨[], true⟩)
    | text => (text.takeWhile fun c => !isSpace c, ⟨text.dropWhile fun c => !isSpace c, false⟩)

/-- The value of the digits as an `unsigned int`, and whether they are too large
for one; a minus sign is applied modulo `2 ^ 32`. -/
def toUnsigned (negative : Bool) (digits : Bytes) : UInt32 × Bool :=
  let value := digitsValue digits
  if value < 2 ^ 32 then
    (if negative then -(UInt32.ofNat value) else UInt32.ofNat value, false)
  else (UInt32.ofNat (2 ^ 32 - 1), true)

/-- `>>` into an `unsigned int` that is 0.  The sign and the digits are taken from
the stream also when they give no number. -/
def Cin.unsigned (cin : Cin) : UInt32 × Cin :=
  if cin.failed then (0, cin)
  else
    match cin.rest.dropWhile isSpace with
    | [] => (0, ⟨[], true⟩)
    | c :: text =>
      let signed := c = 45 ∨ c = 43
      let text := if signed then text else c :: text
      let digits := text.takeWhile isDigit
      let rest := text.dropWhile isDigit
      if digits = [] then (0, ⟨rest, true⟩)
      else
        let number := toUnsigned (c = 45) digits
        (number.1, ⟨rest, number.2⟩)

/-! ### The forms -/

/-- `read_user`. -/
def readUser (cin : Cin) : Form × Cin :=
  let (username, cin) := cin.word
  let (password, cin) := cin.word
  ([(ascii "username", .text username), (ascii "password", .text password)], cin)

/-- `read_book`. -/
def readBook (cin : Cin) : Form × Cin :=
  let (title, cin) := cin.word
  let (author, cin) := cin.word
  let (genre, cin) := cin.word
  let (pageCount, cin) := cin.unsigned
  let (publisher, cin) := cin.word
  ([(ascii "title", .text title), (ascii "author", .text author), (ascii "genre", .text genre),
    (ascii "page_count", .number pageCount), (ascii "publisher", .text publisher)], cin)

end TemePCom.Http
