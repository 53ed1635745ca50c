import Ingress.Text.Class

/-!
# Log filters

A filter is a list of directives, separated by commas. A directive is a level alone, or a target, a
span in brackets, or a target with a span, each with a level or without. A span may list fields in
braces.

* `Filter.isLevel` : a level, by its word or its number;
* `Filter.isDirective` : one directive;
* `Filter.isValid` : a whole filter.
-/

namespace Ingress.Launch.Filter

def levels : List String := ["trace", "debug", "info", "warn", "error", "off"]

def maxLevel : Nat := 5

def numberOf (digits : List Char) : Nat := digits.foldl (fun n c => 10 * n + (c.toNat - 48)) 0

/-- The number of a level; a plus sign may stand in front. -/
def isLevelNumber (cs : List Char) : Bool :=
  let digits := if cs.head? = some '+' then cs.drop 1 else cs
  !digits.isEmpty && digits.all Char.isDigit && numberOf digits ≤ maxLevel

/-- A level, by its word in any case or by its number. -/
def isLevel (cs : List Char) : Bool :=
  levels.contains (String.ofList (cs.map Text.lowerAscii)) || isLevelNumber cs

/-- The end of a directive behind its names: nothing, or an equals sign with a level or without. -/
def isEnding : List Char → Bool
  | [] => true
  | '=' :: level => level.isEmpty || isLevel level
  | _ => false

/-- The rest of a span from its fields on; there is at least one. -/
def isFields (cs : List Char) : Bool :=
  let field := cs.takeWhile fun c => c != '\x7d'
  match cs.drop field.length with
  | _ :: ']' :: rest => !field.isEmpty && isEnding rest
  | _ => false

/-- The rest of a directive from the name of a span on. -/
def isSpan (cs : List Char) : Bool :=
  match cs.dropWhile fun c => c != ']' && c != '\x7b' with
  | ']' :: rest => isEnding rest
  | _ :: rest => isFields rest
  | [] => false

/-- The first character of a level or a target; letters beyond ASCII count. -/
def isStart (c : Char) : Bool := c.isAlphanum || c == '_' || c == ':' || c == '-' || 127 < c.toNat

def isDirective : List Char → Bool
  | [] => false
  | '[' :: rest => isSpan rest
  | c :: rest =>
    isStart c &&
      match rest.dropWhile fun c => c != '=' && c != '[' with
      | '[' :: rest => isSpan rest
      | rest => isEnding rest

def isValid (filter : String) : Bool :=
  (filter.splitOn ",").all fun d => d.isEmpty || isDirective (Text.trim d.toList)

end Ingress.Launch.Filter
