import Ingress.Text.Class

/-!
# Strings quoted in messages

* `Text.quoted` : a string between double quotes, where quotes, backslashes and characters that do
  not print are escaped, the latter by their code point in hexadecimal.
-/

namespace Ingress.Text

def hexText (n : Nat) : List Char := Nat.toDigits 16 n

/-- Characters that do not print: controls, separators other than the blank, format and private
characters. -/
def isUnprintable (c : Char) : Bool :=
  let n := c.toNat
  isControlCode c || (isBlankSpace c && n != 0x20) || n == 0xad || (0x600 ≤ n && n ≤ 0x605) ||
    n == 0x61c || n == 0x6dd || n == 0x70f || n == 0x180e || (0x200b ≤ n && n ≤ 0x200f) ||
    (0x202a ≤ n && n ≤ 0x202e) || (0x2060 ≤ n && n ≤ 0x206f) || (0xe000 ≤ n && n ≤ 0xf8ff) ||
    n == 0xfeff || (0xfff0 ≤ n && n ≤ 0xfffb) || n == 0xfffe || n == 0xffff || 0xe0000 ≤ n

/-- Combining marks, which would join the character before them. -/
def isCombining (c : Char) : Bool :=
  let n := c.toNat
  (0x300 ≤ n && n ≤ 0x36f) || (0x483 ≤ n && n ≤ 0x489) || (0x591 ≤ n && n ≤ 0x5bd) ||
    (0x610 ≤ n && n ≤ 0x61a) || (0x64b ≤ n && n ≤ 0x65f) || n == 0x200c ||
    (0x1ab0 ≤ n && n ≤ 0x1aff) || (0x1dc0 ≤ n && n ≤ 0x1dff) || (0x20d0 ≤ n && n ≤ 0x20f0) ||
    (0xfe00 ≤ n && n ≤ 0xfe0f) || (0xfe20 ≤ n && n ≤ 0xfe2f)

def quotedChar (c : Char) : List Char :=
  if c = '"' then ['\\', '"']
  else if c = '\\' then ['\\', '\\']
  else if c = '\n' then ['\\', 'n']
  else if c = '\r' then ['\\', 'r']
  else if c = '\t' then ['\\', 't']
  else if c.toNat = 0 then ['\\', '0']
  else if isUnprintable c || isCombining c then
    ['\\', 'u', Char.ofNat 123] ++ hexText c.toNat ++ [Char.ofNat 125]
  else [c]

def quoted (s : String) : String := "\"" ++ String.ofList (s.toList.flatMap quotedChar) ++ "\""

end Ingress.Text
