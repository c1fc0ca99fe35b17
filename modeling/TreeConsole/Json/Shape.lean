import TreeConsole.Json.Printer
import TreeConsole.Text.Quoted

/-!
# Values of a given shape

Reading a value of a known type out of a JSON value. A record may be written as an object, where
the order of the fields is free and unknown fields are passed over, or as an array of its fields in
their order. An enumeration is written as the name of its constant, or as an object with that name
as its only key and nothing in it.

What is wrong is said in one sentence that names what was found and what was expected. The fields of
an object are looked at in the order of their keys, and only when all of those are right is a
missing one reported, the first in the order of the record.
-/

namespace TreeConsole

/-- Why a JSON value does not have the shape that was asked for. -/
inductive ShapeError where
  /-- A value of another type. -/
  | invalidType (found expected : String)
  /-- A value of the right type that is out of bounds. -/
  | invalidValue (found expected : String)
  /-- A record without one of its fields. -/
  | missingField (name : String)
  /-- A name that is none of the constants. -/
  | unknownVariant (name : String) (options : List String)
  /-- A list with too few or too many items. -/
  | invalidLength (length : Nat) (expected : String)
  /-- A text that does not say what it should. -/
  | malformed (reason : String)
  deriving DecidableEq, Repr, Inhabited

namespace ShapeError

private def ticked (s : String) : String := "`" ++ s ++ "`"

/-- The constants that were possible, as a phrase. -/
def optionsPhrase : List String → String
  | [] => "there are no variants"
  | [a] => "expected " ++ ticked a
  | [a, b] => "expected " ++ ticked a ++ " or " ++ ticked b
  | options => "expected one of " ++ ", ".intercalate (options.map ticked)

/-- The sentence that describes what is wrong. -/
def message : ShapeError → String
  | invalidType found expected => "invalid type: " ++ found ++ ", expected " ++ expected
  | invalidValue found expected => "invalid value: " ++ found ++ ", expected " ++ expected
  | missingField name => "missing field " ++ ticked name
  | unknownVariant name options =>
    "unknown variant " ++ ticked name ++ ", " ++ optionsPhrase options
  | invalidLength length expected =>
    "invalid length " ++ toString length ++ ", expected " ++ expected
  | malformed reason => reason

end ShapeError

/-- The result of reading a value of some shape. -/
abbrev Shaped (α : Type) := Except ShapeError α

namespace Json

/-- A value as it is named in a sentence. -/
def described : Json → String
  | null => "null"
  | bool b => "boolean `" ++ String.ofList (literalChars b) ++ "`"
  | num (.int n) => "integer `" ++ String.ofList (intChars n) ++ "`"
  | num (.float x) => "floating point `" ++ String.ofList x.text ++ "`"
  | str s => "string " ++ Text.quoted s
  | arr _ => "sequence"
  | obj _ => "map"

/-- The complaint that a value is of another type. -/
def mistyped (v : Json) (expected : String) : ShapeError := .invalidType v.described expected

/-- A truth value. -/
def asBool : Json → Shaped Bool
  | bool b => .ok b
  | v => .error (v.mistyped "a boolean")

/-- A string. -/
def asString : Json → Shaped String
  | str s => .ok s
  | v => .error (v.mistyped "a string")

/-- The fields of an object. -/
def asMap : Json → Shaped (List (String × Json))
  | obj fields => .ok fields
  | v => .error (v.mistyped "a map")

/-- An integer between two bounds; the type of the bounds has a name. -/
def asInt (low high : Int) (typeName : String) : Json → Shaped Int
  | v@(num (.int n)) =>
    if low ≤ n ∧ n ≤ high then .ok n else .error (.invalidValue v.described typeName)
  | v => .error (v.mistyped typeName)

/-- A signed integer of 32 bits. -/
def asInt32 (v : Json) : Shaped Int32 :=
  (asInt (-0x80000000) 0x7fffffff "i32" v).map Int32.ofInt

/-- A signed integer of 64 bits. -/
def asInt64 (v : Json) : Shaped Int64 :=
  (asInt (-0x8000000000000000) 0x7fffffffffffffff "i64" v).map Int64.ofInt

/-- An unsigned integer of 64 bits, under the name its bounds go by. -/
def asUInt64 (typeName : String) (v : Json) : Shaped UInt64 :=
  (asInt 0 0xffffffffffffffff typeName v).map fun n => UInt64.ofNat n.toNat

/-- One of several named constants. -/
def asVariant {α : Type} (options : List (String × α)) : Json → Shaped α
  | str name => find name
  | obj [(name, v)] => do
    let a ← find name
    match v with
    | null => .ok a
    | v => .error (v.mistyped "unit")
  | obj fields => .error (.invalidValue (described (obj fields)) "map with a single key")
  | v => .error (v.mistyped "string or map")
where
  find (name : String) : Shaped α :=
    match options.lookup name with
    | some a => .ok a
    | none => .error (.unknownVariant name (options.map Prod.fst))

/-- Where the fields of a record are found. -/
inductive RecordSource where
  /-- By name. -/
  | byName (fields : List (String × Json))
  /-- By position; the record has so many fields. -/
  | byPosition (items : List Json) (recordName : String) (size : Nat)

namespace RecordSource

/-- The field of a record with a name and a position. A field with a default may be missing. -/
def field {α : Type} (source : RecordSource) (name : String) (position : Nat)
    (read : Json → Shaped α) (default : Option α) : Shaped α :=
  match source with
  | byName fields =>
    match fields.lookup name, default with
    | some v, _ => read v
    | none, some a => .ok a
    | none, none => .error (.missingField name)
  | byPosition items recordName size =>
    match items[position]?, default with
    | some v, _ => read v
    | none, some a => .ok a
    | none, none =>
      .error (.invalidLength position
        ("struct " ++ recordName ++ " with " ++ toString size ++ " elements"))

end RecordSource

/-- Looks at every field of an object that the record knows, in the order of the keys. -/
def checkFields (checks : List (String × (Json → Shaped Unit))) :
    List (String × Json) → Shaped Unit
  | [] => .ok ()
  | (key, v) :: fields =>
    match checks.lookup key with
    | none => checkFields checks fields
    | some check => check v >>= fun _ => checkFields checks fields

/-- Reads a record. The checks name its fields in their order, and `build` puts it together. -/
def asRecord {α : Type} (recordName : String) (checks : List (String × (Json → Shaped Unit)))
    (build : RecordSource → Shaped α) : Json → Shaped α
  | obj fields => do
    -- A field of the wrong shape is reported before one that is missing.
    checkFields checks fields
    build (.byName fields)
  | arr items => do
    let a ← build (.byPosition items recordName checks.length)
    if checks.length < items.length then
      .error (.invalidLength items.length "fewer elements in array")
    else .ok a
  | v => .error (v.mistyped ("struct " ++ recordName))

/-- A check from a reader. -/
def checking {α : Type} (read : Json → Shaped α) (v : Json) : Shaped Unit :=
  (read v).map fun _ => ()

end Json
end TreeConsole
