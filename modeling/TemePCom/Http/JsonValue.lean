/-
TemePCom/Http/JsonValue.lean

JSON values by their shape, and the library on the texts of a table of them.

The handlers ask three things of a value: whether it contains a member, whether it is
an array, and what string a member converts to.  Only an object contains anything, and
only a string converts, so `contains` is a safe guard for `operator[]` but not for the
conversion behind it (`Json.ofValues_badToken_iff`).
-/
import TemePCom.Http.CommandSpec

namespace TemePCom.Http

/-- A JSON value; a number is kept as its text. -/
inductive JsonValue
  | null
  | bool (value : Bool)
  | number (text : Bytes)
  | string (text : Bytes)
  | array (elements : List JsonValue)
  | object (members : List (Bytes × JsonValue))

/-- `json[key]`, where there is such a member. -/
def JsonValue.member : JsonValue → Bytes → Option JsonValue
  | .object members, key => members.lookup key
  | _, _ => none

/-- `contains`. -/
def JsonValue.contains (json : JsonValue) (key : Bytes) : Bool := (json.member key).isSome

/-- `is_array`. -/
def JsonValue.isArray : JsonValue → Bool
  | .array _ => true
  | _ => false

/-- The conversion to a `std::string`; `none` is a `type_error`. -/
def JsonValue.toText : JsonValue → Option Bytes
  | .string text => some text
  | _ => none

theorem JsonValue.toText_eq_none_iff {json : JsonValue} :
    json.toText = none ↔ ∀ text, json ≠ .string text := by
  cases json <;> simp [JsonValue.toText]

/-- The library on the texts of a table. -/
def Json.ofValues (table : List (Bytes × JsonValue)) : Json where
  Value := JsonValue
  Text text := (table.lookup text).isSome
  parse text := match table.lookup text with
    | none => .error .parseError
    | some json => .ok json
  parse_error_iff text := by cases table.lookup text <;> simp
  contains := JsonValue.contains
  isArray := JsonValue.isArray
  string json key := (json.member key).bind JsonValue.toText
  dump := (Json.ofTable []).dump

/-- The body is a value whose member `token` does not convert to a string. -/
def Json.BadToken (J : Json) (response : Bytes) : Prop :=
  J.Holds response fun json =>
    J.contains json (ascii "token") = true ∧ J.string json (ascii "token") = none

/-- `parse` throws something else than a `parse_error` on the body. -/
def Json.ThrowsOther (J : Json) (response : Bytes) : Prop :=
  ∃ data, extractJsonResponse response = some data ∧ J.parse data = .error .other

variable {table : List (Bytes × JsonValue)} {response : Bytes}

theorem Json.ofValues_parse_eq_ok_iff {data : Bytes} {json : JsonValue} :
    (Json.ofValues table).parse data = .ok json ↔ table.lookup data = some json := by
  show (match table.lookup data with
    | none => Except.error JsonError.parseError
    | some json => .ok json) = .ok json ↔ _
  cases table.lookup data <;> simp

theorem Json.ofValues_parse_ne_other {data : Bytes} :
    (Json.ofValues table).parse data ≠ .error .other := by
  show (match table.lookup data with
    | none => Except.error JsonError.parseError
    | some json => .ok json) ≠ .error .other
  cases table.lookup data <;> simp

/-- **The tokens that do not convert**: `null`, truth values, numbers, arrays, objects. -/
theorem Json.ofValues_badToken_iff {data : Bytes} {json : JsonValue}
    (hx : extractJsonResponse response = some data) (hjson : table.lookup data = some json) :
    (Json.ofValues table).BadToken response ↔
      ∃ token, json.member (ascii "token") = some token ∧ ∀ text, token ≠ .string text := by
  have hparse := ofValues_parse_eq_ok_iff.mpr hjson
  constructor
  · rintro ⟨data', json', hx', hparse', hcontains, hstring⟩
    obtain rfl := Option.some.inj (hx.symm.trans hx')
    obtain rfl : json = json' := Except.ok.inj (hparse.symm.trans hparse')
    obtain ⟨token, htoken⟩ := Option.isSome_iff_exists.mp hcontains
    have hnone : (json.member (ascii "token")).bind JsonValue.toText = none := hstring
    rw [htoken] at hnone
    exact ⟨token, htoken, JsonValue.toText_eq_none_iff.mp hnone⟩
  · rintro ⟨token, htoken, hne⟩
    refine ⟨data, json, hx, hparse, Option.isSome_iff_exists.mpr ⟨token, htoken⟩, ?_⟩
    show (json.member (ascii "token")).bind JsonValue.toText = none
    rw [htoken]
    exact JsonValue.toText_eq_none_iff.mpr hne

end TemePCom.Http
