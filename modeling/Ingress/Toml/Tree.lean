import Ingress.Config.Loose

/-!
# Tables of TOML under construction

A table may be written in several places of a document, but not defined twice.

* `Branch` : how a table came to be: by its own header, only as a part of a longer path, or by a
  dotted key;
* `Node` : a value, a table, or an array of tables;
* `Node.put` : a value at a dotted key below a table;
* `Node.openTable`, `Node.openRow` : what the two kinds of headers do;
* `Node.toLoose` : the finished value.
-/

namespace Ingress.Toml

open Config

/-- How a table came to be. -/
inductive Branch where
  | header
  | path
  | dotted
deriving DecidableEq, Repr

inductive Node where
  | leaf (v : Loose)
  | table (how : Branch) (fields : List (String × Node))
  | rows (done : List Node) (last : List (String × Node))
deriving Inhabited

namespace Node

def find (key : String) : List (String × Node) → Option Node
  | [] => none
  | (k, n) :: rest => if key = k then some n else find key rest

def setField (key : String) (n : Node) : List (String × Node) → List (String × Node)
  | [] => [(key, n)]
  | (k, old) :: rest => if key = k then (k, n) :: rest else (k, old) :: setField key n rest

/-- Puts a value at a dotted key: the key is new, and tables on the way are not closed by a
header. -/
def put (v : Loose) : List String → List (String × Node) → Option (List (String × Node))
  | [], _ => none
  | [key], fields => if (find key fields).isSome then none else some (setField key (.leaf v) fields)
  | key :: path, fields =>
    match find key fields with
    | none => (put v path []).map fun inner => setField key (.table .dotted inner) fields
    | some (.table how inner) =>
      if how = .header then none
      else (put v path inner).map fun inner => setField key (.table how inner) fields
    | some _ => none

/-- Changes the table at a path of headers; missing tables on the way are made, and of an array of
tables the last one counts. -/
def descend (change : List (String × Node) → Option (List (String × Node))) :
    List String → List (String × Node) → Option (List (String × Node))
  | [], fields => change fields
  | key :: path, fields =>
    match find key fields with
    | none => (descend change path []).map fun inner => setField key (.table .path inner) fields
    | some (.table how inner) =>
      (descend change path inner).map fun inner => setField key (.table how inner) fields
    | some (.rows done last) =>
      (descend change path last).map fun last => setField key (.rows done last) fields
    | some (.leaf _) => none

/-- The table of a header begins: it is new, or was only part of a path. -/
def openHere (key : String) (fields : List (String × Node)) : Option (List (String × Node)) :=
  match find key fields with
  | none => some (setField key (.table .header []) fields)
  | some (.table .path inner) => some (setField key (.table .header inner) fields)
  | some _ => none

/-- One more table of an array begins. -/
def openRowHere (key : String) (fields : List (String × Node)) : Option (List (String × Node)) :=
  match find key fields with
  | none => some (setField key (.rows [] []) fields)
  | some (.rows done last) => some (setField key (.rows (done ++ [.table .header last]) []) fields)
  | some _ => none

def openAt (here : String → List (String × Node) → Option (List (String × Node)))
    (path : List String) (fields : List (String × Node)) : Option (List (String × Node)) :=
  match path.getLast? with
  | some key => descend (here key) path.dropLast fields
  | none => none

def openTable (path : List String) (fields : List (String × Node)) :
    Option (List (String × Node)) := openAt openHere path fields

def openRow (path : List String) (fields : List (String × Node)) : Option (List (String × Node)) :=
  openAt openRowHere path fields

mutual

def toLoose : Node → Loose
  | .leaf v => v
  | .table _ fields => .table (fieldsToLoose fields)
  | .rows done last => .list (nodesToLoose done ++ [.table (fieldsToLoose last)])

def nodesToLoose : List Node → List Loose
  | [] => []
  | n :: rest => n.toLoose :: nodesToLoose rest

def fieldsToLoose : List (String × Node) → List (String × Loose)
  | [] => []
  | (key, n) :: rest => (key, n.toLoose) :: fieldsToLoose rest

end

end Node

end Ingress.Toml
