import Ingress.Config.Loose
import Ingress.Json.Decode

/-!
# Configuration sections

A section is a record in which every setting has a default, is written back in order, and may have a
rule.

* `Rule` : a range of numbers or of lengths;
* `Violation` : a broken rule, with the bounds of the rule;
* `Setting` : one setting: reading, writing, and the violations of its value;
* `Section` : the settings of a section, with `Section.decode`, `Section.encode`,
  `Section.violations`;
* `Section.load` : a section of loosely typed settings;
* `Setting.nat`, `real`, `bool`, `text`, `list`, `nested` : settings of plain types.
-/

namespace Ingress.Config

open Json

/-! ## Rules -/

inductive RuleKind where
  | range
  | length
deriving DecidableEq, Repr

def RuleKind.name : RuleKind → String
  | .range => "range"
  | .length => "length"

/-- A broken rule: the setting, the bounds, and the value for a range. -/
structure Violation where
  field : String
  kind : RuleKind
  min : Option Value
  max : Option Value
  value : Option Value

namespace Violation

def within (name : String) (v : Violation) : Violation :=
  { v with field := name ++ "." ++ v.field }

def toValue (v : Violation) : Value :=
  let param := fun name (p : Option Value) => (p.map fun p => (name, p)).toList
  .object [("field", .string v.field), ("rule", .string v.kind.name),
    ("params", .object (param "min" v.min ++ param "max" v.max ++ param "value" v.value))]

end Violation

/-- Bounds of a number or a length; an absent bound bounds nothing. -/
structure Range (α : Type) where
  min : Option α
  max : Option α

def Range.atLeast {α : Type} (min : α) : Range α := ⟨some min, none⟩

def Range.between {α : Type} (min max : α) : Range α := ⟨some min, some max⟩

def Range.free {α : Type} : Range α := ⟨none, none⟩

def Range.hasNat (r : Range Nat) (n : Nat) : Bool := r.min.all (· ≤ n) && r.max.all (n ≤ ·)

def Range.hasReal (r : Range Double) (d : Double) : Bool :=
  !r.min.any d.lt && !r.max.any (Double.lt · d)

/-! ## Settings -/

/-- One setting of a section: its name, how its value is read and written, the paths of the settings
that it stands for, and the rules its value breaks. -/
structure Setting (α : Type) where
  name : String
  put : Value → α → Except DecodeError α
  load : Loose → α → Option α
  paths : List (List String)
  view : α → Value
  violations : α → List Violation

/-- A section: its type name, its settings in order, and its defaults. -/
structure Section (α : Type) where
  typeName : String
  settings : List (Setting α)
  standard : α

namespace Section

variable {α : Type}

/-- A section as a record in which every field may be left out. -/
def record (s : Section α) : Record α :=
  { name := s.typeName
    blank := s.standard
    fields := s.settings.map fun t => { name := t.name, put := t.put, required := false } }

/-- The section of a JSON value, with defaults for what is left out. -/
def decode (s : Section α) : Decoder α := s.record.decode

/-- The paths of all settings, also of those inside sections. -/
def paths (s : Section α) : List (List String) := s.settings.flatMap Setting.paths

/-- Puts a loosely typed value into a setting of a section. -/
def loadField (fields : List (String × Loose)) (a : α) (t : Setting α) : Option α :=
  match Loose.find t.name fields with
  | some v => t.load v a
  | none => some a

/-- The section of a table of loosely typed settings, or of a list of them in order, with defaults
for what is left out. -/
def load (s : Section α) : Loose → Option α
  | .table fields => s.settings.foldlM (loadField fields) s.standard
  | .list items => (s.settings.zip items).foldlM (fun a e => e.1.load e.2 a) s.standard
  | _ => none

def encode (s : Section α) (a : α) : Value :=
  .object (s.settings.map fun t => (t.name, t.view a))

/-- The broken rules of a section, in the order of its settings. -/
def violations (s : Section α) (a : α) : List Violation :=
  s.settings.flatMap fun t => t.violations a

def sortedViolations (s : Section α) (a : α) : List Violation :=
  (s.violations a).mergeSort fun x y => decide (¬ y.field < x.field)

end Section

namespace Setting

variable {α : Type}

/-- A setting that has no rule. -/
def plain {β : Type} (name : String) (decoder : Decoder β) (loose : Loose → Option β)
    (encode : β → Value) (get : α → β) (set : β → α → α) : Setting α :=
  { name
    put := fun v a => (decoder v).map (set · a)
    load := fun v a => (loose v).map (set · a)
    paths := [[name]]
    view := fun a => encode (get a)
    violations := fun _ => [] }

/-- A loosely typed natural number that a decoder accepts. -/
def looseNat (decoder : Decoder Nat) (v : Loose) : Option Nat :=
  v.nat?.bind fun n => (decoder (.ofNat n)).toOption

def looseNames {β : Type} (decoder : Decoder β) (v : Loose) : Option (List β) :=
  v.items?.bind fun items =>
    items.mapM fun item => item.name?.bind fun name => (decoder (.string name)).toOption

def nat (name : String) (decoder : Decoder Nat) (range : Range Nat) (get : α → Nat)
    (set : Nat → α → α) : Setting α :=
  { plain name decoder (looseNat decoder) .ofNat get set with
    violations := fun a =>
      if range.hasNat (get a) then []
      else [⟨name, .range, range.min.map .ofNat, range.max.map .ofNat, some (.ofNat (get a))⟩] }

def real (name : String) (range : Range Double) (get : α → Double) (set : Double → α → α) :
    Setting α :=
  { plain name .double Loose.real? .ofDouble get set with
    violations := fun a =>
      if range.hasReal (get a) then []
      else
        [⟨name, .range, range.min.map .ofDouble, range.max.map .ofDouble,
          some (.ofDouble (get a))⟩] }

def bool (name : String) (get : α → Bool) (set : Bool → α → α) : Setting α :=
  plain name .bool Loose.bool? .bool get set

def text (name : String) (range : Range Nat) (get : α → String) (set : String → α → α) :
    Setting α :=
  { plain name .string Loose.text? .string get set with
    violations := fun a =>
      if range.hasNat (get a).length then []
      else [⟨name, .length, range.min.map .ofNat, range.max.map .ofNat, none⟩] }

def list {β : Type} (name : String) (decoder : Decoder β) (encode : β → Value)
    (range : Range Nat) (get : α → List β) (set : List β → α → α) : Setting α :=
  { plain name (.list decoder) (looseNames decoder) (fun bs => .array (bs.map encode)) get set with
    violations := fun a =>
      if range.hasNat (get a).length then []
      else [⟨name, .length, range.min.map .ofNat, range.max.map .ofNat, none⟩] }

def nested {β : Type} (name : String) (s : Section β) (get : α → β) (set : β → α → α) :
    Setting α :=
  { plain name s.decode s.load s.encode get set with
    paths := s.paths.map (name :: ·)
    violations := fun a => (s.violations (get a)).map (.within name) }

end Setting

end Ingress.Config
