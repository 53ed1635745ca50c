import Ingress.Json.Parser
import Ingress.Text.Class

/-!
# Hosts to listen on

* `Host.ipv4?` : the IPv4 address that a text stands for, with one to four parts of any base;
* `Host.address?` : the address that a host stands for, as it is written before a port.
-/

namespace Ingress.Launch.Host

def number? (base : Nat) (cs : List Char) : Option Nat :=
  if cs.isEmpty then none
  else
    cs.foldlM
      (fun n c => (Json.hexValue? c).bind fun d => if d < base then some (n * base + d) else none) 0

/-- A part of an address: decimal, octal behind a zero, or hexadecimal. -/
def part? (cs : List Char) : Option Nat :=
  match cs with
  | '0' :: 'x' :: rest => number? 16 rest
  | '0' :: 'X' :: rest => number? 16 rest
  | '0' :: c :: rest => number? 8 (c :: rest)
  | cs => number? 10 cs

/-- The number of an address: every part but the last is a byte, the last one fills what is left. -/
def join? (parts : List Nat) : Option Nat :=
  match parts.getLast? with
  | none => none
  | some last =>
    let front := parts.dropLast
    let left := 4 - front.length
    if 4 < parts.length ∨ front.any (256 ≤ ·) ∨ Nat.pow 256 left ≤ last then none
    else some (front.foldl (fun n b => n * 256 + b) 0 * Nat.pow 256 left + last)

def bytesText (n : Nat) : String :=
  ".".intercalate ([n / Nat.pow 256 3 % 256, n / Nat.pow 256 2 % 256, n / 256 % 256, n % 256].map toString)

def ipv4? (host : String) : Option String :=
  (((host.splitOn ".").mapM fun part => part? part.toList).bind join?).map bytesText

/-- The address that a host stands for: any IPv4 address, this machine, or every address. -/
def address? (host : String) : Option String :=
  if String.ofList (host.toList.map Text.lowerAscii) = "localhost" then some "127.0.0.1"
  else if host = "::" ∨ host = "[::]" then some "[::]"
  else ipv4? host

end Ingress.Launch.Host
