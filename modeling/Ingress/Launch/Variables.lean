import Ingress.Config.Loose

/-!
# Environment variables

* `Variables` : names with values;
* `Variables.settingPath?` : the path of the setting that a variable is for, and back
  `Variables.nameOf`;
* `Variables.overlay` : the variables laid over loosely typed settings.

A variable is for a setting when its name starts with `GATEWAY_`, in any case; the rest of the name
in lower case is the path, its parts separated by two underscores.
-/

namespace Ingress.Launch

open Config

abbrev Variables := List (String × String)

namespace Variables

def find (name : String) (vs : Variables) : Option String :=
  (vs.find? fun v => v.1 == name).map Prod.snd

/-- The variables with others added whose names are not taken. -/
def fill (vs more : Variables) : Variables :=
  more.foldl (fun vs v => if (find v.1 vs).isSome then vs else vs ++ [v]) vs

/-- The start of the names, in lower case. -/
def mark : List Char := "gateway_".toList

def isPathChar (c : Char) : Bool := Text.isIdentifier c || c == ' '

/-- A name cut at every pair of underscores, from its start. -/
def cut : List Char → List (List Char)
  | [] => [[]]
  | '_' :: '_' :: rest => [] :: cut rest
  | c :: rest =>
    match cut rest with
    | part :: parts => (c :: part) :: parts
    | [] => [[c]]

/-- The path of the rest of a name; one with an empty part is a single key, which no setting has. -/
def pathOf (rest : List Char) : List String :=
  let parts := cut rest
  if parts.all fun part => !part.isEmpty && part.all isPathChar then parts.map String.ofList
  else [".".intercalate (parts.map String.ofList)]

def settingPath? (name : String) : Option (List String) :=
  let cs := name.toList.map Text.lowerAscii
  if mark.isPrefixOf cs then some (pathOf (cs.drop mark.length)) else none

def nameOf (path : List String) : String :=
  "GATEWAY_" ++ ("__".intercalate path).map Char.toUpper

def overlay (vs : Variables) (under : Loose) : Loose :=
  vs.foldl
    (fun under v =>
      match settingPath? v.1 with
      | some path => (Loose.ofText v.2).assign path under
      | none => under)
    under

end Variables

end Ingress.Launch
