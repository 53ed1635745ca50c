import Ingress.Launch.Variables

/-!
# Files of variables

A file has one `NAME=value` in a line; comments start with a hash. Values may be quoted, and a
dollar stands for the value of a variable.

* `Dotenv.Scan` : the state in which a value is read, character by character;
* `Dotenv.readValue` : the value behind the equals sign;
* `Dotenv.readLine` : one line;
* `Dotenv.parse` : the variables of a file up to its first line that is malformed.
-/

namespace Ingress.Launch.Dotenv

/-- Inside which quotes the next character stands. -/
inductive Quoting where
  | bare
  | single
  | double
deriving DecidableEq, Repr

/-- What has to come next: anything, an escaped character, the name of a variable, the name of a
variable in braces, or the end. -/
inductive Expecting where
  | any
  | escaped
  | name (read : List Char)
  | braced (read : List Char)
  | ending
deriving DecidableEq, Repr

/-- The state in which a value is read; read characters in reverse. -/
structure Scan where
  quoting : Quoting
  expecting : Expecting
  read : List Char

/-- The characters that stand for themselves behind a backslash. -/
def escapable : List Char := ['\\', '\'', '"', '$', ' ']

/-- The value of a variable for a dollar; nothing for an unknown one. -/
def substitute (known : Variables) (name : List Char) : List Char :=
  ((known.find (String.ofList name)).getD "").toList

namespace Scan

def start : Scan := ⟨.bare, .any, []⟩

def push (s : Scan) (c : Char) : Scan := { s with read := c :: s.read }

def pushVariable (known : Variables) (s : Scan) (name : List Char) : Scan :=
  { s with expecting := .any, read := (substitute known name.reverse).reverse ++ s.read }

def stepSingle (s : Scan) (c : Char) : Scan :=
  if c = '\'' then { s with quoting := .bare } else s.push c

/-- A character outside single quotes that nothing special is expected of; `none` inside is the
start of a comment. -/
def stepAny (s : Scan) (c : Char) : Scan :=
  if c = '$' then { s with expecting := .name [] }
  else if c = '\\' then { s with expecting := .escaped }
  else if c = '"' then { s with quoting := if s.quoting = .double then .bare else .double }
  else if s.quoting = .double then s.push c
  else if c = '\'' then { s with quoting := .single }
  else if c = ' ' ∨ c = '\t' then { s with expecting := .ending }
  else s.push c

def stepName (known : Variables) (s : Scan) (name : List Char) (c : Char) : Scan :=
  if c.isAlphanum then { s with expecting := .name (c :: name) }
  else if c = '\x7b' ∧ name.isEmpty then { s with expecting := .braced [] }
  else
    let s := s.pushVariable known name
    if c = '$' then { s with expecting := .name [] } else s.push c

/-- The next character; `none` when it may not stand there. -/
def step (known : Variables) (s : Scan) (c : Char) : Option Scan :=
  match s.expecting with
  | .ending => if c = ' ' ∨ c = '\t' then some s else none
  | .escaped =>
    if escapable.contains c then some ({ s with expecting := .any }.push c)
    else if c = 'n' then some ({ s with expecting := .any }.push '\n')
    else none
  | .name name => some (if s.quoting = .single then s.stepSingle c else s.stepName known name c)
  | .braced name =>
    if c = '\x7d' then some (s.pushVariable known name)
    else some { s with expecting := .braced (c :: name) }
  | .any => some (if s.quoting = .single then s.stepSingle c else s.stepAny c)

/-- The value that has been read; `none` inside open quotes or braces. -/
def finish (known : Variables) (s : Scan) : Option String :=
  if s.quoting ≠ .bare then none
  else
    match s.expecting with
    | .braced _ => none
    | .name name => some (String.ofList (s.pushVariable known name).read.reverse)
    | _ => some (String.ofList s.read.reverse)

end Scan

/-- The value of a text; a hash behind a blank starts a comment. -/
def readValue (known : Variables) : Scan → List Char → Option String
  | s, [] => s.finish known
  | s, c :: rest =>
    if s.expecting = .ending ∧ c = '#' then s.finish known
    else (s.step known c).bind fun s => readValue known s rest

/-- The blanks at the start of a text go. -/
def skipBlanks (s : List Char) : List Char := s.dropWhile Text.isBlankSpace

def isNameStart (c : Char) : Bool := c.isAlpha || c == '_'

def isNameChar (c : Char) : Bool := c.isAlphanum || c == '_' || c == '.'

def readName (s : List Char) : Option (String × List Char) :=
  match s with
  | c :: _ =>
    if isNameStart c then
      some (String.ofList (s.takeWhile isNameChar), skipBlanks (s.dropWhile isNameChar))
    else none
  | [] => none

def equals? : List Char → Option (List Char)
  | '=' :: rest => some rest
  | _ => none

/-- A name and the text behind its equals sign; the word `export` may stand in front. -/
def readBinding (s : List Char) : Option (String × List Char) := do
  let (name, rest) ← readName s
  match equals? rest with
  | some rest => pure (name, skipBlanks rest)
  | none =>
    if name = "export" then
      let (name, rest) ← readName rest
      pure (name, skipBlanks (← equals? rest))
    else none

/-- One line: nothing, or a name with its value; `none` when it is malformed. -/
def readLine (known : Variables) (line : List Char) : Option (Option (String × String)) :=
  match skipBlanks line with
  | [] => some none
  | '#' :: _ => some none
  | s => do
    let (name, text) ← readBinding s
    match text with
    | [] => pure (some (name, ""))
    | '#' :: _ => pure (some (name, ""))
    | text => pure (some (name, ← readValue known .start text))

/-- The variables of lines, up to the first that is malformed; `env` are those of the environment,
which stay as they are. -/
def readLines (env read : Variables) : List (List Char) → Variables
  | [] => read
  | line :: rest =>
    match readLine (env ++ read) line with
    | none => read
    | some none => readLines env read rest
    | some (some binding) => readLines env (read ++ [binding]) rest

/-- The lines of a text; a carriage return at the end of a line is not part of it. -/
def lines (text : String) : List (List Char) :=
  (text.splitOn "\n").map fun line =>
    let cs := line.toList
    if cs.getLast? = some '\r' then cs.dropLast else cs

def parse (env : Variables) (text : String) : Variables := readLines env [] (lines text)

end Ingress.Launch.Dotenv
