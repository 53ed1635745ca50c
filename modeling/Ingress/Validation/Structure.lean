import Ingress.Validation.Finding

/-!
# The structure of the data of an event

* `Structure.findings` : walks a value at a path and a depth, and reports nesting, sizes and keys
  out of their limits, and strings that will be cut short.

What lies too deep is not walked, nor what stands under a key that is too long.
-/

namespace Ingress.Structure

open Json

def fieldPath (path key : String) : String := path ++ "." ++ key

def elementPath (path : String) (index : Nat) : String := path ++ "[" ++ toString index ++ "]"

/-- Client text of a message, cut to its bound. -/
def quote (text : String) : String := Text.firstChars Bounds.quotedChars text

mutual

def findings (l : Limits) (path : String) (depth : Nat) : Value → List Finding
  | .null => []
  | .bool _ => []
  | .number n => if n.toDouble.isFinite then [] else [⟨path, .notFinite⟩]
  | .string s =>
    if l.maxStringLength < s.length then [⟨path, .truncated l.maxStringLength⟩] else []
  | .array items =>
    if l.maxDepth < depth then [⟨path, .tooDeep l.maxDepth⟩]
    else
      (if l.maxElements < items.length then
        [⟨path, .tooManyElements items.length l.maxElements⟩] else [])
      ++ itemFindings l path depth 0 items
  | .object fields =>
    if l.maxDepth < depth then [⟨path, .tooDeep l.maxDepth⟩]
    else
      (if l.maxProperties < fields.length then
        [⟨path, .tooManyProperties fields.length l.maxProperties⟩] else [])
      ++ fieldFindings l path depth fields

/-- The findings of the elements of an array, from an index on. -/
def itemFindings (l : Limits) (path : String) (depth index : Nat) : List Value → List Finding
  | [] => []
  | v :: rest =>
    findings l (elementPath path index) (depth + 1) v
      ++ itemFindings l path depth (index + 1) rest

def fieldFindings (l : Limits) (path : String) (depth : Nat) : Fields → List Finding
  | [] => []
  | (key, v) :: rest =>
    (if l.maxKeyLength < key.length then
      [⟨fieldPath path (quote key), .keyTooLong l.maxKeyLength⟩]
    else findings l (fieldPath path key) (depth + 1) v)
      ++ fieldFindings l path depth rest

end

end Ingress.Structure
