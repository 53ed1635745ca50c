import Ingress.Json.Value
import Ingress.Text.Quoted
import Ingress.Time.Rfc3339

/-!
# Reading typed data from JSON values

* `Found` : what stands in a place, as messages name it;
* `DecodeError` : why a value is not of a type, with `DecodeError.message`;
* `Decoder` : a reader of a type, with the readers of plain types;
* `Field`, `Record` : a type given by its fields. A record is read from an object, where fields are
  visited in key order and the first bad one is reported, a missing one only when none is bad, or
  from an array of its fields in order.
-/

namespace Ingress.Json

/-! ## Errors -/

/-- What stands in a place where something else is expected. -/
inductive Found where
  | null
  | bool (b : Bool)
  | integer (n : Int)
  | real (d : Double)
  | string (s : String)
  | sequence
  | map
deriving DecidableEq

namespace Found

def ofValue : Value → Found
  | .null => .null
  | .bool b => .bool b
  | .number (.whole n _) => .integer n
  | .number (.real d _) => .real d
  | .string s => .string s
  | .array _ => .sequence
  | .object _ => .map

/-- A double of a message: the plain form, a whole number with `.0`. -/
def realText (d : Double) : String :=
  let text := Layout.plain.text d
  if text.toList.contains '.' then text else text ++ ".0"

def text : Found → String
  | .null => "null"
  | .bool b => "boolean `" ++ (if b then "true" else "false") ++ "`"
  | .integer n => "integer `" ++ toString n ++ "`"
  | .real d => "floating point `" ++ realText d ++ "`"
  | .string s => "string " ++ Text.quoted s
  | .sequence => "sequence"
  | .map => "map"

end Found

inductive DecodeError where
  | invalidType (found : Found) (expected : String)
  | invalidValue (found : Found) (expected : String)
  | unknownVariant (name : String) (known : List String)
  | invalidLength (length : Nat) (expected : String)
  | missingField (name : String)
  | badTime (error : TimeError)
  | badId (reason : String)
deriving DecidableEq

namespace DecodeError

def ticked (name : String) : String := "`" ++ name ++ "`"

def alternatives : List String → String
  | [a] => ticked a
  | [a, b] => ticked a ++ " or " ++ ticked b
  | names => "one of " ++ ", ".intercalate (names.map ticked)

def message : DecodeError → String
  | .invalidType found expected => "invalid type: " ++ found.text ++ ", expected " ++ expected
  | .invalidValue found expected => "invalid value: " ++ found.text ++ ", expected " ++ expected
  | .unknownVariant name known =>
    if known.isEmpty then "unknown variant " ++ ticked name ++ ", there are no variants"
    else "unknown variant " ++ ticked name ++ ", expected " ++ alternatives known
  | .invalidLength length expected =>
    "invalid length " ++ toString length ++ ", expected " ++ expected
  | .missingField name => "missing field " ++ ticked name
  | .badTime error => error.message
  | .badId reason => "UUID parsing failed: " ++ reason

end DecodeError

/-! ## Plain types -/

/-- A reader of a type. -/
abbrev Decoder (α : Type) := Value → Except DecodeError α

def mismatch {α : Type} (expected : String) (v : Value) : Except DecodeError α :=
  .error (.invalidType (.ofValue v) expected)

namespace Decoder

def any : Decoder Value := .ok

def bool : Decoder Bool
  | .bool b => .ok b
  | v => mismatch "a boolean" v

def string : Decoder String
  | .string s => .ok s
  | v => mismatch "a string" v

/-- A double; whole numbers are rounded to it. -/
def double : Decoder Double
  | .number n => .ok n.toDouble
  | v => mismatch "f64" v

/-- A natural number below a bound; `expected` names its type. -/
def natBelow (bound : Nat) (expected : String) : Decoder Nat
  | .number (.whole n _) =>
    if 0 ≤ n ∧ n < bound then .ok n.toNat
    else .error (.invalidValue (.integer n) expected)
  | v => mismatch expected v

def u16 : Decoder Nat := natBelow (Nat.pow 2 16) "u16"

def u32 : Decoder Nat := natBelow (Nat.pow 2 32) "u32"

def u64 : Decoder Nat := natBelow (Nat.pow 2 64) "u64"

/-- A size, which is a 64-bit number. -/
def size : Decoder Nat := natBelow (Nat.pow 2 64) "usize"

def elements {α : Type} (element : Decoder α) : List Value → Except DecodeError (List α)
  | [] => .ok []
  | v :: rest => do
    let a ← element v
    let as ← elements element rest
    pure (a :: as)

def list {α : Type} (element : Decoder α) : Decoder (List α)
  | .array items => elements element items
  | v => mismatch "a sequence" v

def entries {α : Type} (element : Decoder α) : Fields → Except DecodeError (List (String × α))
  | [] => .ok []
  | (k, v) :: rest => do
    let a ← element v
    let as ← entries element rest
    pure ((k, a) :: as)

def map {α : Type} (element : Decoder α) : Decoder (List (String × α))
  | .object fields => entries element fields
  | v => mismatch "a map" v

def optional {α : Type} (element : Decoder α) : Decoder (Option α)
  | .null => .ok none
  | v => (element v).map some

/-- An instant as an RFC 3339 text. -/
def instant : Decoder Instant
  | .string s => (Instant.parse s).mapError .badTime
  | v => mismatch "an RFC 3339 formatted date and time string" v

/-- The variant of a plain name. -/
def variantNamed {α : Type} (names : List (String × α)) (name : String) : Except DecodeError α :=
  match names.find? fun entry => entry.1 == name with
  | some (_, a) => .ok a
  | none => .error (.unknownVariant name (names.map Prod.fst))

/-- A variant by its name, or by an object that maps its name to `null`. -/
def variant {α : Type} (names : List (String × α)) : Decoder α
  | .string s => variantNamed names s
  | .object [(name, content)] => do
    let a ← variantNamed names name
    match content with
    | .null => pure a
    | v => mismatch "unit" v
  | .object _ => .error (.invalidValue .map "map with a single key")
  | v => mismatch "string or map" v

end Decoder

/-! ## Records -/

/-- A field of a record: how its value is put into the record, and whether it has to be there. -/
structure Field (α : Type) where
  name : String
  put : Value → α → Except DecodeError α
  required : Bool

def Field.of {α β : Type} (name : String) (decoder : Decoder β) (set : β → α → α) : Field α :=
  { name, required := true, put := fun v a => (decoder v).map (set · a) }

def Field.withDefault {α : Type} (f : Field α) : Field α := { f with required := false }

/-- A record type: its name, its fields in order, and the record in which absent fields have their
defaults. -/
structure Record (α : Type) where
  name : String
  fields : List (Field α)
  blank : α

namespace Record

variable {α : Type}

def field? (r : Record α) (key : String) : Option (Field α) :=
  r.fields.find? fun f => f.name == key

/-- Puts the fields of an object into a record, in order; other keys are ignored. -/
def putFields (r : Record α) : Fields → α → Except DecodeError α
  | [], a => .ok a
  | (key, v) :: rest, a =>
    match r.field? key with
    | some f => do
      let a ← f.put v a
      r.putFields rest a
    | none => r.putFields rest a

/-- The first required field that an object lacks. -/
def missing? (r : Record α) (fields : Fields) : Option String :=
  (r.fields.find? fun f => f.required && (lookup f.name fields).isNone).map Field.name

def ofFields (r : Record α) (fields : Fields) : Except DecodeError α := do
  let a ← r.putFields fields r.blank
  match r.missing? fields with
  | some name => .error (.missingField name)
  | none => .ok a

/-- How messages name the record type with its size. -/
def sizeText (r : Record α) : String :=
  "struct " ++ r.name ++ " with " ++ toString r.fields.length
    ++ (if r.fields.length = 1 then " element" else " elements")

/-- Puts array elements into the fields of the same place; `place` counts the elements so far. -/
def putItems (r : Record α) (place : Nat) :
    List (Field α) → List Value → α → Except DecodeError (α × List Value)
  | [], items, a => .ok (a, items)
  | f :: fields, [], a =>
    if f.required then .error (.invalidLength place r.sizeText)
    else r.putItems (place + 1) fields [] a
  | f :: fields, v :: items, a => do
    let a ← f.put v a
    r.putItems (place + 1) fields items a

/-- The record of an array of its fields in order. -/
def ofItems (r : Record α) (items : List Value) : Except DecodeError α := do
  let (a, rest) ← r.putItems 0 r.fields items r.blank
  if rest.isEmpty then .ok a
  else .error (.invalidLength items.length "fewer elements in array")

def decode (r : Record α) : Decoder α
  | .object fields => r.ofFields fields
  | .array items => r.ofItems items
  | v => mismatch ("struct " ++ r.name) v

/-- The record of an object in which the fields of another record stand beside its own; its own are
read first. -/
def decodeWith {β : Type} (r : Record α) (inner : Record β) (join : α → β → α) : Decoder α
  | .object fields => do
    let a ← r.ofFields fields
    let b ← inner.ofFields (fields.filter fun f => (r.field? f.1).isNone)
    pure (join a b)
  | v => mismatch ("struct " ++ r.name) v

end Record

end Ingress.Json
