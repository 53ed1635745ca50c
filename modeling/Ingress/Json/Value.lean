import Ingress.Json.Number

/-!
# JSON values

* `Json.Value` : a JSON value; an object is the list of its fields;
* `Json.insertField` : a field put into a list of fields sorted by key, where the last one of a key
  counts;
* `Value.object` of a parsed text is sorted, and `Value.Sorted` says so at every depth;
* `Value.field?` : a field of an object;
* `Value.ofDouble`, `ofNat`, `ofStrings` : values of plain data.

Keys are compared as lists of code points, which is the order of their UTF-8 bytes.
-/

namespace Ingress.Json

inductive Value where
  | null
  | bool (b : Bool)
  | number (n : Number)
  | string (s : String)
  | array (items : List Value)
  | object (fields : List (String × Value))
deriving Inhabited

abbrev Fields := List (String × Value)

/-- Puts a field into sorted fields: before the first greater key, in place of an equal one. -/
def insertField (key : String) (value : Value) : Fields → Fields
  | [] => [(key, value)]
  | (k, v) :: rest =>
    if key = k then (key, value) :: rest
    else if key < k then (key, value) :: (k, v) :: rest
    else (k, v) :: insertField key value rest

/-- Fields sorted by key; the last field of a key counts. -/
def sortFields (fields : Fields) : Fields :=
  fields.foldl (fun acc f => insertField f.1 f.2 acc) []

def lookup (key : String) : Fields → Option Value
  | [] => none
  | (k, v) :: rest => if key = k then some v else lookup key rest

namespace Value

def field? (key : String) : Value → Option Value
  | .object fields => lookup key fields
  | _ => none

/-- A double; `null` when it is not finite. -/
def ofDouble (d : Double) : Value :=
  match Number.ofDouble? d with
  | some n => .number n
  | none => .null

def ofNat (n : Nat) : Value := .number (.ofInt n)

def ofInt (n : Int) : Value := .number (.ofInt n)

def ofStrings (texts : List String) : Value := .array (texts.map .string)

end Value

/-! ## Sorted objects -/

/-- Keys strictly ascending. -/
def KeysSorted (fields : Fields) : Prop := (fields.map Prod.fst).Pairwise (· < ·)

mutual

/-- Every object inside has strictly ascending keys. -/
def Value.Sorted : Value → Prop
  | .null => True
  | .bool _ => True
  | .number _ => True
  | .string _ => True
  | .array items => ItemsSorted items
  | .object fields => KeysSorted fields ∧ FieldsSorted fields

/-- Every object inside the elements has strictly ascending keys. -/
def ItemsSorted : List Value → Prop
  | [] => True
  | v :: rest => v.Sorted ∧ ItemsSorted rest

/-- Every object inside the values of the fields has strictly ascending keys. -/
def FieldsSorted : Fields → Prop
  | [] => True
  | (_, v) :: rest => v.Sorted ∧ FieldsSorted rest

end

/-! ## Equality -/

mutual

def Value.beq : Value → Value → Bool
  | .null, .null => true
  | .bool a, .bool b => a == b
  | .number a, .number b => a == b
  | .string a, .string b => a == b
  | .array as, .array bs => itemsBeq as bs
  | .object as, .object bs => fieldsBeq as bs
  | _, _ => false

def itemsBeq : List Value → List Value → Bool
  | [], [] => true
  | a :: as, b :: bs => a.beq b && itemsBeq as bs
  | _, _ => false

def fieldsBeq : Fields → Fields → Bool
  | [], [] => true
  | (j, a) :: as, (k, b) :: bs => j == k && a.beq b && fieldsBeq as bs
  | _, _ => false

end

instance : BEq Value := ⟨Value.beq⟩

end Ingress.Json
