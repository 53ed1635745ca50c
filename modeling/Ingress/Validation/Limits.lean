import Ingress.Event.Kind

/-!
# Limits of an event

* `Limits` : what an event may hold;
* `Limits.standard` : the limits of a gateway without configuration;
* `Bounds` : the fixed bounds of the game's own numbers.
-/

namespace Ingress

/-- What an event may hold. -/
structure Limits where
  maxEventBytes : Nat
  timestampTolerance : Nat
  maxGameIdLength : Nat
  maxProperties : Nat
  maxElements : Nat
  maxDepth : Nat
  maxKeyLength : Nat
  maxStringLength : Nat
  maxMagnitude : Double
  maxHandSize : Nat
  allowedKinds : List Kind

/-- The double of a small natural number. -/
def real (n : Nat) : Double := .ofNat n

/-- The limits of a gateway without configuration. -/
def Limits.standard : Limits :=
  { maxEventBytes := 10240
    timestampTolerance := 3600
    maxGameIdLength := 100
    maxProperties := 50
    maxElements := 100
    maxDepth := 5
    maxKeyLength := 50
    maxStringLength := 1000
    maxMagnitude := real 1000000000
    maxHandSize := 8
    allowedKinds := Kind.all }

namespace Bounds

/-- Characters of client text that a finding may quote. -/
def quotedChars : Nat := 50

def maxChips : Double := real 1000000000

def maxMult : Double := real 1000000

def maxMoney : Double := real 1000000

def maxItemCost : Double := real 10000

def maxAnte : Int := 100

/-- The rounds of an ante. -/
def maxRound : Int := 10

def maxShopItems : Nat := 10

/-- Timestamps above it count milliseconds. -/
def millisecondsAbove : Double := real 100000000000

end Bounds

end Ingress
