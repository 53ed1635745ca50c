import Ingress.Toml.Scalar
import Ingress.Toml.Tree

/-!
# TOML documents

* `Toml.readKey` : a dotted key;
* `Toml.readValue` : a value: a scalar, an array, or an inline table;
* `Toml.readLine` : a line of a document: a header, a key with its value, or nothing;
* `Toml.parse?` : a whole document as a loosely typed table.
-/

namespace Ingress.Toml

open Config

/-! ## Keys -/

def readSimpleKey (s : List Char) : Option (String × List Char) :=
  match s with
  | '"' :: rest => basicString rest
  | '\'' :: rest => literalString rest
  | s =>
    let word := s.takeWhile Text.isIdentifier
    if word.isEmpty then none else some (String.ofList word, s.dropWhile Text.isIdentifier)

def readKeyFrom : Nat → List Char → Option (List String × List Char)
  | 0, _ => none
  | fuel + 1, s =>
    match readSimpleKey (skipBlanks s) with
    | none => none
    | some (key, rest) =>
      match skipBlanks rest with
      | '.' :: rest => (readKeyFrom fuel rest).map fun (path, rest) => (key :: path, rest)
      | rest => some ([key], rest)

/-- A dotted key, with the blanks behind it. -/
def readKey (s : List Char) : Option (List String × List Char) := readKeyFrom (s.length + 1) s

/-! ## Blanks over several lines -/

/-- The rest of a line behind the mark of a comment; no control may stand in it. -/
def skipComment (s : List Char) : Option (List Char) :=
  let body := s.takeWhile fun c => c != '\n'
  let body := if body.getLast? = some '\r' then body.dropLast else body
  if body.any isControl then none else some (s.drop body.length)

def skipLines : Nat → List Char → Option (List Char)
  | 0, _ => none
  | fuel + 1, s =>
    match skipBlanks s with
    | '#' :: rest => (skipComment rest).bind (skipLines fuel)
    | s =>
      match newline? s with
      | some rest => skipLines fuel rest
      | none => some s

def skipSpace (s : List Char) : Option (List Char) := skipLines (s.length + 1) s

/-! ## Values -/

/-- The elements of an array behind its first bracket, given a reader of one; read ones in
reverse. -/
def readItems (read : List Char → Option (Loose × List Char)) :
    Nat → List Loose → List Char → Option (List Loose × List Char)
  | 0, _, _ => none
  | fuel + 1, done, s => do
    let s ← skipSpace s
    match s with
    | ']' :: rest => pure (done.reverse, rest)
    | s =>
      let (v, s) ← read s
      let s ← skipSpace s
      match s with
      | ',' :: rest => readItems read fuel (v :: done) rest
      | ']' :: rest => pure ((v :: done).reverse, rest)
      | _ => none

/-- A key with its value, given a reader of the value. -/
def readPair (read : List Char → Option (Loose × List Char)) (s : List Char) :
    Option (List String × Loose × List Char) := do
  let (key, s) ← readKey s
  match s with
  | '=' :: rest =>
    let (v, rest) ← read (skipBlanks rest)
    pure (key, v, rest)
  | _ => none

/-- The fields of an inline table behind its first brace, given a reader of one value. -/
def readFields (read : List Char → Option (Loose × List Char)) :
    Nat → List (String × Node) → List Char → Option (List (String × Node) × List Char)
  | 0, _, _ => none
  | fuel + 1, done, s => do
    let (key, v, s) ← readPair read s
    let done ← Node.put v key done
    match skipBlanks s with
    | ',' :: rest => readFields read fuel done rest
    | '\x7d' :: rest => pure (done, rest)
    | _ => none

/-- A value in which arrays and tables nest at most `depth` deep. -/
def readValue : Nat → List Char → Option (Loose × List Char)
  | 0, _ => none
  | depth + 1, s =>
    match s with
    | '[' :: rest =>
      (readItems (readValue depth) (rest.length + 1) [] rest).map fun (items, rest) =>
        (.list items, rest)
    | '\x7b' :: rest =>
      match skipBlanks rest with
      | '\x7d' :: rest => some (.table [], rest)
      | _ =>
        (readFields (readValue depth) (rest.length + 1) [] rest).map fun (fields, rest) =>
          (.table (Node.fieldsToLoose fields), rest)
    | s => readScalar s

/-- How deep arrays and inline tables may nest. -/
def maxNesting : Nat := 80

/-! ## Documents -/

/-- What is written so far, and the header above the next line. -/
structure Draft where
  fields : List (String × Node)
  header : List String

/-- The end of a line: blanks, and a comment if there is one. -/
def endLine (s : List Char) : Option (List Char) :=
  match skipBlanks s with
  | '#' :: rest => (skipComment rest).bind fun rest =>
    match rest with
    | [] => some []
    | rest => newline? rest
  | [] => some []
  | rest => newline? rest

/-- A header behind its first bracket. -/
def readHeader (d : Draft) (s : List Char) : Option (Draft × List Char) :=
  match s with
  | '[' :: rest => do
    let (path, rest) ← readKey rest
    match rest with
    | ']' :: ']' :: rest => pure (⟨← Node.openRow path d.fields, path⟩, rest)
    | _ => none
  | s => do
    let (path, rest) ← readKey s
    match rest with
    | ']' :: rest => pure (⟨← Node.openTable path d.fields, path⟩, rest)
    | _ => none

def readAssignment (d : Draft) (s : List Char) : Option (Draft × List Char) := do
  let (key, v, rest) ← readPair (readValue maxNesting) s
  let fields ← Node.descend (Node.put v key) d.header d.fields
  pure ({ d with fields }, rest)

def readLine (d : Draft) (s : List Char) : Option (Draft × List Char) :=
  match skipBlanks s with
  | [] => some (d, [])
  | '[' :: rest => readHeader d rest
  | '#' :: rest => some (d, '#' :: rest)
  | rest =>
    match newline? rest with
    | some _ => some (d, rest)
    | none => readAssignment d rest

/-- The lines of a document; every line shortens the text. -/
def readDocument : Nat → Draft → List Char → Option Draft
  | 0, _, _ => none
  | _ + 1, d, [] => some d
  | fuel + 1, d, s => do
    let (d, rest) ← readLine d s
    let rest ← endLine rest
    readDocument fuel d rest

def parse? (text : String) : Option Loose :=
  let s := text.toList
  let s := if s.head? = some (Char.ofNat 0xfeff) then s.drop 1 else s
  (readDocument (s.length + 1) ⟨[], []⟩ s).map fun d => .table (Node.fieldsToLoose d.fields)

end Ingress.Toml
