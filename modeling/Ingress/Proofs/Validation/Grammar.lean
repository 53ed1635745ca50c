import Ingress.Proofs.Json.Everywhere
import Ingress.Proofs.Json.Number
import Ingress.Validation.Validator
import Mathlib

/-!
# The grammar of events

What an event is, without reference to how it is checked. Numbers are compared as they are written.

* `Has`, `MayHave` : a field that has to be there, and one that may be left out;
* `IsNumber`, `IsInteger`, `IsHand`, `IsCard`, ... : the values of fields;
* `Rule` : the rule of each kind;
* `Bounded` : the limits of arrays and objects at a depth;
* `IsEvent` : the whole event, near a server time.
-/

namespace Ingress.Grammar

open Json

/-! ## Fields -/

/-- A field that has to be there. -/
def Has (fields : Fields) (key : String) (P : Value → Prop) : Prop :=
  ∃ v, lookup key fields = some v ∧ P v

/-- A field that may be left out. -/
def MayHave (fields : Fields) (key : String) (P : Value → Prop) : Prop :=
  ∀ v, lookup key fields = some v → P v

theorem has_iff {fields : Fields} {key : String} {P : Value → Prop} :
    Has fields key P ↔ (∃ v, lookup key fields = some v) ∧ MayHave fields key P := by
  constructor
  · rintro ⟨v, hv, hP⟩
    refine ⟨⟨v, hv⟩, fun w hw => ?_⟩
    rw [hv] at hw
    cases hw
    exact hP
  · rintro ⟨⟨v, hv⟩, hP⟩
    exact ⟨v, hv, hP v hv⟩

/-! ## Values of fields -/

/-- A number from zero up to a bound. -/
def IsNumber (high : ℚ) (v : Value) : Prop := ∃ n, v = .number n ∧ 0 ≤ n.value ∧ n.value ≤ high

/-- A number that is not negative. -/
def IsScore (v : Value) : Prop := ∃ n, v = .number n ∧ 0 ≤ n.value

def IsInteger (low high : ℤ) (v : Value) : Prop :=
  ∃ n fits, v = .number (.whole n fits) ∧ low ≤ n ∧ n ≤ high

/-- The name of a hand, whatever the case of its letters and the blanks at its ends. -/
def IsHandName (name : String) : Prop := HandType.normalize name ∈ HandType.names.map Prod.fst

def IsHand (v : Value) : Prop := ∃ name, v = .string name ∧ IsHandName name

def initial : Suit → Char
  | .hearts => 'H'
  | .diamonds => 'D'
  | .clubs => 'C'
  | .spades => 'S'
  | .wild => 'W'

/-- A card: its rank and its suit, or the rank followed by the initial of the suit. -/
inductive IsCard : Value → Prop
  | parts {fields : Fields} {rank : String} (suit : Suit)
      (hrank : lookup "rank" fields = some (.string rank)) (known : rank ∈ rankNames)
      (hsuit : lookup "suit" fields = some (.string suit.name)) : IsCard (.object fields)
  | code {rank : String} (suit : Suit) (known : rank ∈ rankNames) :
      IsCard (.string (rank.push (initial suit)))

def IsCards (maxSize : Nat) (v : Value) : Prop :=
  ∃ items, v = .array items ∧ 1 ≤ items.length ∧ items.length ≤ maxSize ∧ ∀ c ∈ items, IsCard c

/-- What a shop offers: at most ten items, each with its cost. -/
def IsShop (v : Value) : Prop :=
  ∃ items, v = .array items ∧ items.length ≤ 10 ∧
    ∀ i ∈ items, ∃ fields, i = .object fields ∧ Has fields "cost" (IsNumber 10000)

/-! ## Data -/

def Rule (l : Limits) (data : Fields) : Kind → Prop
  | .handPlayed =>
    Has data "hand_type" IsHand ∧ Has data "cards_played" (IsCards l.maxHandSize) ∧
      MayHave data "chips" (IsNumber 1000000000) ∧ MayHave data "mult" (IsNumber 1000000)
  | .shopEntered =>
    Has data "ante" (IsInteger 1 100) ∧ Has data "round" (IsInteger 1 10) ∧
      Has data "money" (IsNumber 1000000) ∧ MayHave data "shop_items" IsShop
  | .cardPurchased => Has data "cost" (IsNumber 10000)
  | .jokerActivated =>
    MayHave data "chips" (IsNumber 1000000000) ∧ MayHave data "mult" (IsNumber 1000000)
  | .gameOver | .roundComplete | .anteComplete =>
    MayHave data "ante" (IsInteger 1 100) ∧ MayHave data "round" (IsInteger 1 10) ∧
      MayHave data "final_score" IsScore
  | .gameStart | .action | .stateUpdate | .heartbeat => True

/-- The limits of an array or an object at a depth. -/
def Bounded (l : Limits) : Value → Nat → Prop
  | .array items, d => d ≤ l.maxDepth ∧ items.length ≤ l.maxElements
  | .object fields, d =>
    d ≤ l.maxDepth ∧ fields.length ≤ l.maxProperties ∧ ∀ f ∈ fields, f.1.length ≤ l.maxKeyLength
  | _, _ => True

/-- The data of a kind: an object at depth 1. -/
def IsData (l : Limits) (k : Kind) (v : Value) : Prop :=
  ∃ data, v = .object data ∧ Everywhere (Bounded l) v 1 ∧ Rule l data k

/-! ## Events -/

/-- A timestamp in seconds: one above `10 ^ 11` counts milliseconds. -/
def seconds (n : Number) : Double :=
  if 100000000000 < n.value then n.toDouble.div (real 1000) else n.toDouble

/-- A time that is not negative, and as far from the server's time as is tolerated. -/
def IsTimestamp (l : Limits) (nowMs : Int) (v : Value) : Prop :=
  ∃ n, v = .number n ∧ 0 ≤ n.value ∧
    (real l.timestampTolerance).lt
      ((seconds n).sub ((Double.ofInt nowMs).div (real 1000))).abs = false

def IsGameId (maxLength : Nat) (v : Value) : Prop :=
  ∃ id, v = .string id ∧ 1 ≤ id.length ∧ id.length ≤ maxLength ∧
    ∀ c ∈ id.toList, Text.isIdentifier c = true

/-- The fields of an event of a kind, apart from what is in its data. Only a heartbeat may go without
data. -/
structure IsHeadOf (l : Limits) (nowMs : Int) (fields : Fields) (k : Kind) : Prop where
  keys : ∀ f ∈ fields, f.1 ∈ ["type", "timestamp", "game_id", "data"]
  kind : lookup "type" fields = some (.string k.name)
  enabled : k ∈ l.allowedKinds
  timestamp : Has fields "timestamp" (IsTimestamp l nowMs)
  gameId : Has fields "game_id" (IsGameId l.maxGameIdLength)
  complete : k ≠ .heartbeat → ∃ v, lookup "data" fields = some v

structure IsEventOf (l : Limits) (nowMs : Int) (fields : Fields) (k : Kind) : Prop
    extends IsHeadOf l nowMs fields k where
  size : (Value.object fields).render.utf8ByteSize ≤ l.maxEventBytes
  data : MayHave fields "data" (IsData l k)

/-- An event near a server time in milliseconds. -/
def IsEvent (l : Limits) (nowMs : Int) (v : Value) : Prop :=
  ∃ fields k, v = .object fields ∧ IsEventOf l nowMs fields k

end Ingress.Grammar
