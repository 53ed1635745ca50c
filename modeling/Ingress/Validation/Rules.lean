import Ingress.Event.Card
import Ingress.Validation.Structure

/-!
# The rules of each kind of event

* `Requirement` : what a rule asks of the data of an event;
* `Kind.requirements` : the rule of each kind;
* `Requirement.findings` : where data breaks a requirement.
-/

namespace Ingress

open Json

/-- What a rule asks of the data of an event. -/
inductive Requirement where
  | number (name : String) (low high : Double) (required : Bool)
  | integer (name : String) (low high : Int) (required : Bool)
  | handType
  | cards
  | shopItems
deriving DecidableEq

def Kind.requirements : Kind → List Requirement
  | .handPlayed =>
    [.handType, .cards, .number "chips" .zero Bounds.maxChips false,
      .number "mult" .zero Bounds.maxMult false]
  | .shopEntered =>
    [.integer "ante" 1 Bounds.maxAnte true, .integer "round" 1 Bounds.maxRound true,
      .number "money" .zero Bounds.maxMoney true, .shopItems]
  | .cardPurchased => [.number "cost" .zero Bounds.maxItemCost true]
  | .jokerActivated =>
    [.number "chips" .zero Bounds.maxChips false, .number "mult" .zero Bounds.maxMult false]
  | .gameOver | .roundComplete | .anteComplete =>
    [.integer "ante" 1 Bounds.maxAnte false, .integer "round" 1 Bounds.maxRound false,
      .number "final_score" .zero .largest false]
  | .gameStart | .action | .stateUpdate | .heartbeat => []

namespace Rules

def double? : Value → Option Double
  | .number n => some n.toDouble
  | _ => none

/-- The integer of a value, when it is written whole and fits a signed word. -/
def int64? : Value → Option Int
  | .number n => n.int64?
  | _ => none

def text? : Value → Option String
  | .string s => some s
  | _ => none

def number (fields : Fields) (path name : String) (low high : Double) (required : Bool) :
    List Finding :=
  match lookup name fields with
  | none => if required then [⟨path, .required⟩] else []
  | some v =>
    match double? v with
    | none => [⟨path, .notNumber⟩]
    | some d =>
      if low.le d && d.le high then []
      else if d.lt .zero && Double.zero.le low then [⟨path, .negative⟩]
      else [⟨path, .outsideReals low high⟩]

def integer (fields : Fields) (path name : String) (low high : Int) (required : Bool) :
    List Finding :=
  match lookup name fields with
  | none => if required then [⟨path, .required⟩] else []
  | some v =>
    match int64? v with
    | none => [⟨path, .notInteger⟩]
    | some n => if low ≤ n ∧ n ≤ high then [] else [⟨path, .outsideIntegers low high⟩]

def handType (fields : Fields) : List Finding :=
  match lookup "hand_type" fields with
  | none => [⟨"data.hand_type", .required⟩]
  | some (.string name) =>
    if (HandType.parse? name).isSome then [] else [⟨"data.hand_type", .unknownHand⟩]
  | some _ => [⟨"data.hand_type", .unknownHand⟩]

/-- A card: an object with a rank and a suit, or a card code. -/
def card (path : String) : Value → List Finding
  | .object fields =>
    (if ((lookup "rank" fields).bind text?).any isRank then []
      else [⟨path ++ ".rank", .badRank⟩])
    ++ (if (((lookup "suit" fields).bind text?).bind Suit.parse?).isSome then []
      else [⟨path ++ ".suit", .badSuit⟩])
  | .string code => if isCardCode code then [] else [⟨path, .badCardCode⟩]
  | _ => [⟨path, .notCard⟩]

def cardRow (index : Nat) : List Value → List Finding
  | [] => []
  | v :: rest =>
    card (Structure.elementPath "data.cards_played" index) v ++ cardRow (index + 1) rest

/-- One to `maxHandSize` cards; those beyond are not looked at. -/
def cards (l : Limits) (fields : Fields) : List Finding :=
  match lookup "cards_played" fields with
  | none => [⟨"data.cards_played", .required⟩]
  | some (.array items) =>
    (if items.isEmpty then [⟨"data.cards_played", .noCards⟩]
      else if l.maxHandSize < items.length then
        [⟨"data.cards_played", .tooManyCards items.length l.maxHandSize⟩]
      else [])
    ++ cardRow 0 (items.take l.maxHandSize)
  | some _ => [⟨"data.cards_played", .notArray⟩]

def shopItem (path : String) : Value → List Finding
  | .object fields =>
    number fields (Structure.fieldPath path "cost") "cost" .zero Bounds.maxItemCost true
  | _ => [⟨path, .itemNotObject⟩]

def itemRow (index : Nat) : List Value → List Finding
  | [] => []
  | v :: rest =>
    shopItem (Structure.elementPath "data.shop_items" index) v ++ itemRow (index + 1) rest

/-- At most ten shop items; those beyond are not looked at. -/
def shopItems (fields : Fields) : List Finding :=
  match lookup "shop_items" fields with
  | none => []
  | some (.array items) =>
    (if Bounds.maxShopItems < items.length then
      [⟨"data.shop_items", .tooManyItems items.length Bounds.maxShopItems⟩] else [])
    ++ itemRow 0 (items.take Bounds.maxShopItems)
  | some _ => [⟨"data.shop_items", .notArray⟩]

end Rules

def Requirement.findings (l : Limits) (fields : Fields) : Requirement → List Finding
  | .number name low high required =>
    Rules.number fields (Structure.fieldPath "data" name) name low high required
  | .integer name low high required =>
    Rules.integer fields (Structure.fieldPath "data" name) name low high required
  | .handType => Rules.handType fields
  | .cards => Rules.cards l fields
  | .shopItems => Rules.shopItems fields

def Kind.findings (l : Limits) (fields : Fields) (k : Kind) : List Finding :=
  k.requirements.flatMap (Requirement.findings l fields)

end Ingress
