import Ingress.Decimal.Layout
import Ingress.Decimal.Literal

/-!
# Loosely typed settings

A file or an environment variable gives settings whose types are not known yet; each is brought to
the type that its place has, where that is possible.

* `Loose` : a value of such a setting;
* `Loose.ofText` : a text that may be meant as a boolean or a number;
* `Loose.bool?`, `nat?`, `real?`, `text?` : the value as a plain type;
* `Loose.merge` : a value laid over another one: tables are merged, all else is replaced;
* `Loose.assign` : a value put at a path.
-/

namespace Ingress.Config

/-- A value of a setting whose type is not known yet. -/
inductive Loose where
  | bool (b : Bool)
  | int (n : Int)
  | real (d : Double)
  | text (s : String)
  | list (items : List Loose)
  | table (fields : List (String × Loose))
deriving Inhabited

/-- A text in lower case, ASCII only. -/
def lowered (s : String) : String := String.ofList (s.toList.map Text.lowerAscii)

/-- The words for yes and no. -/
def switch? (s : String) : Option Bool :=
  let word := lowered s
  if ["true", "on", "yes"].contains word then some true
  else if ["false", "off", "no"].contains word then some false
  else none

/-- A double rounded to a 64-bit word: a half goes away from zero, and what lies outside is brought
to the nearest word. -/
def roundToWord (d : Double) : Nat :=
  if d.isNaN || d.negative then 0
  else if !d.lt (.ofNat (Nat.pow 2 64)) then Nat.pow 2 64 - 1
  else ((d.mul (.ofNat 2)).wholeMagnitude + 1) / 2

namespace Loose

/-- A text that may be meant as a boolean or a number. -/
def ofText (s : String) : Loose :=
  if lowered s = "true" then .bool true
  else if lowered s = "false" then .bool false
  else
    match Literal.int64? s with
    | some n => .int n
    | none =>
      match Literal.real? s with
      | some d => .real d
      | none => .text s

/-! ## Plain types -/

def bool? : Loose → Option Bool
  | .bool b => some b
  | .int n => some (n != 0)
  | .real d => some (!d.same .zero)
  | .text s => if s = "1" then some true else if s = "0" then some false else switch? s
  | _ => none

def nat? : Loose → Option Nat
  | .bool b => some b.toNat
  | .int n => if 0 ≤ n then some n.toNat else none
  | .real d => some (roundToWord d)
  | .text s => ((switch? s).map Bool.toNat).or (Literal.nat64? s)
  | _ => none

def real? : Loose → Option Double
  | .bool b => some (.ofNat b.toNat)
  | .int n => some (.ofInt n)
  | .real d => some d
  | .text s => ((switch? s).map fun b => .ofNat b.toNat).or (Literal.real? s)
  | _ => none

def text? : Loose → Option String
  | .bool b => some (if b then "true" else "false")
  | .int n => some (toString n)
  | .real d => some (Layout.plain.text d)
  | .text s => some s
  | _ => none

/-- The name that a value stands for: a text, or the only key of a table. -/
def name? : Loose → Option String
  | .text s => some s
  | .table [(key, _)] => some key
  | _ => none

def items? : Loose → Option (List Loose)
  | .list items => some items
  | _ => none

/-! ## Tables -/

def fields : Loose → List (String × Loose)
  | .table fields => fields
  | _ => []

def find (key : String) : List (String × Loose) → Option Loose
  | [] => none
  | (k, v) :: rest => if key = k then some v else find key rest

def setField (key : String) (v : Loose) : List (String × Loose) → List (String × Loose)
  | [] => [(key, v)]
  | (k, old) :: rest => if key = k then (k, v) :: rest else (k, old) :: setField key v rest

mutual

/-- A value laid over another one. -/
def merge (under : Loose) : Loose → Loose
  | .table fields => .table (mergeFields under.fields fields)
  | v => v

/-- Fields laid over others; an empty table changes nothing. -/
def mergeFields (under : List (String × Loose)) : List (String × Loose) → List (String × Loose)
  | [] => under
  | (_, .table []) :: rest => mergeFields under rest
  | (key, v) :: rest =>
    mergeFields (setField key (merge ((find key under).getD (.table [])) v) under) rest

end

/-- A value put at a path; what stands in the way becomes a table. -/
def assign (v : Loose) : List String → Loose → Loose
  | [], under => merge under v
  | [key], under => .table (mergeFields under.fields [(key, v)])
  | key :: path, under =>
    .table (setField key (assign v path ((find key under.fields).getD (.table []))) under.fields)

end Loose

end Ingress.Config
