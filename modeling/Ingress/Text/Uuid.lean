/-!
# UUIDs

* `Uuid` : 32 hexadecimal digits;
* `Uuid.parse` : reads the plain, the hyphenated, the braced and the URN form;
* `UuidError` : why a text is none of them, with `UuidError.message`;
* `Uuid.text` : the hyphenated form in lower case.
-/

namespace Ingress

inductive UuidError where
  | character (c : Char) (index : Nat)
  | plainLength (length : Nat)
  | groupCount (count : Nat)
  | groupLength (group length : Nat)
deriving DecidableEq, Repr

/-- The lengths of the groups of a hyphenated UUID. -/
def uuidGroups : List Nat := [8, 4, 4, 4, 12]

def UuidError.message : UuidError → String
  | .character c index =>
    "invalid character: expected an optional prefix of `urn:uuid:` followed by [0-9a-fA-F-], found `"
      ++ String.singleton c ++ "` at " ++ toString index
  | .plainLength length =>
    "invalid length: expected length 32 for simple format, found " ++ toString length
  | .groupCount count => "invalid group count: expected 5, found " ++ toString count
  | .groupLength group length =>
    "invalid group length in group " ++ toString group ++ ": expected "
      ++ toString (uuidGroups.getD group 0) ++ ", found " ++ toString length

/-- A UUID: its hexadecimal digits in lower case. -/
structure Uuid where
  digits : List Char
deriving DecidableEq, Repr

namespace Uuid

def zero : Uuid := ⟨List.replicate 32 '0'⟩

def isHex (c : Char) : Bool :=
  ('0' ≤ c && c ≤ '9') || ('a' ≤ c && c ≤ 'f') || ('A' ≤ c && c ≤ 'F')

/-- The UUID of digits in either case. -/
def ofDigits (cs : List Char) : Uuid :=
  ⟨cs.map fun c => if 'A' ≤ c ∧ c ≤ 'F' then Char.ofNat (c.toNat + 32) else c⟩

def cut : List Nat → List Char → List (List Char)
  | [], _ => []
  | n :: ns, cs => cs.take n :: cut ns (cs.drop n)

def text (u : Uuid) : String :=
  "-".intercalate ((cut uuidGroups u.digits).map String.ofList)

def groups (cs : List Char) : List (List Char) :=
  cs.foldr
    (fun c acc =>
      match acc with
      | [] => [[c]]
      | g :: gs => if c = '-' then [] :: g :: gs else (c :: g) :: gs)
    [[]]

def ofGroups? (cs : List Char) : Option Uuid :=
  let gs := groups cs
  if gs.map List.length = uuidGroups ∧ gs.all (fun g => g.all isHex) then some (ofDigits gs.flatten)
  else none

def urn : List Char := "urn:uuid:".toList

def unbraced? : List Char → Option (List Char)
  | '\x7b' :: rest => if rest.getLast? = some '\x7d' then some rest.dropLast else none
  | _ => none

/-- The UUID of a text in one of the four forms. -/
def read? (cs : List Char) : Option Uuid :=
  if cs.length = 32 ∧ cs.all isHex then some (ofDigits cs)
  else
    match unbraced? cs with
    | some inner => ofGroups? inner
    | none => if urn.isPrefixOf cs then ofGroups? (cs.drop urn.length) else ofGroups? cs

/-- The first character that no UUID has, with its place in bytes, counted from one. -/
def badCharacter? (place : Nat) : List Char → Option UuidError
  | [] => none
  | c :: rest =>
    if c = '-' ∨ isHex c then badCharacter? (place + c.utf8Size) rest
    else some (.character c place)

/-- The first group of a wrong length, or the last one. -/
def badGroup (index : Nat) : List Nat → List (List Char) → UuidError
  | n :: m :: ns, g :: gs =>
    if g.length = n then badGroup (index + 1) (m :: ns) gs else .groupLength index g.length
  | _, gs => .groupLength index (gs.headD []).length

/-- Why a text that has only characters of a UUID is none; `outer` characters stand around it. -/
def shapeError (plain : Bool) (outer : Nat) (cs : List Char) : UuidError :=
  let gs := groups cs
  if plain && gs.length = 1 then .plainLength cs.length
  else if gs.length ≠ 5 then .groupCount gs.length
  else
    match badGroup 0 uuidGroups gs with
    | .groupLength 4 length => .groupLength 4 (length + outer)
    | e => e

def error (cs : List Char) : UuidError :=
  match unbraced? cs with
  | some inner => (badCharacter? 2 inner).getD (shapeError false 2 inner)
  | none =>
    if urn.isPrefixOf cs then
      let inner := cs.drop urn.length
      (badCharacter? 10 inner).getD (shapeError false 9 inner)
    else (badCharacter? 1 cs).getD (shapeError true 0 cs)

def parse (s : String) : Except UuidError Uuid :=
  match read? s.toList with
  | some u => .ok u
  | none => .error (error s.toList)

end Uuid

end Ingress
