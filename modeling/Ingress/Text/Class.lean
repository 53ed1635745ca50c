/-!
# Classes of characters

* `Text.isControlCode` : the control characters of Unicode (class Cc);
* `Text.isBlankSpace` : the characters with the property White_Space;
* `Text.trimStart`, `Text.trim` : a text without the blanks at its ends;
* `Text.lowerAscii` : ASCII letters in lower case, all else as it is;
* `Text.firstChars` : the first characters of a text;
* `Text.isIdentifier` : the characters of game ids.
-/

namespace Ingress.Text

/-- The control characters: those below the blank, and `7f` to `9f`. -/
def isControlCode (c : Char) : Bool := c.toNat < 32 || (127 ≤ c.toNat && c.toNat < 160)

/-- The characters with the Unicode property White_Space. -/
def isBlankSpace (c : Char) : Bool :=
  let n := c.toNat
  (9 ≤ n && n ≤ 13) || n == 0x20 || n == 0x85 || n == 0xa0 || n == 0x1680 ||
    (0x2000 ≤ n && n ≤ 0x200a) || n == 0x2028 || n == 0x2029 || n == 0x202f || n == 0x205f ||
    n == 0x3000

def trimStart (s : List Char) : List Char := s.dropWhile isBlankSpace

def trim (s : List Char) : List Char := (trimStart (trimStart s).reverse).reverse

/-- An ASCII capital in lower case, all else as it is. -/
def lowerAscii (c : Char) : Char := if 'A' ≤ c ∧ c ≤ 'Z' then Char.ofNat (c.toNat + 32) else c

def firstChars (n : Nat) (s : String) : String := String.ofList (s.toList.take n)

/-- Letters, digits, underscore and hyphen of ASCII, the alphabet of game ids. -/
def isIdentifier (c : Char) : Bool :=
  ('A' ≤ c && c ≤ 'Z') || ('a' ≤ c && c ≤ 'z') || ('0' ≤ c && c ≤ '9') || c == '_' || c == '-'

end Ingress.Text
