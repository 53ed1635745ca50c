import Ingress.Json.Decode

/-!
# Kinds of events

* `Kind` : the eleven kinds of game events;
* `Kind.all` : every kind, in order;
* `Kind.name` : the name in event texts, `Kind.label` the name of the kind itself;
* `Kind.ofName?` : the kind of a name;
* `Kind.requiresData` : every kind but the heartbeat carries data.
-/

namespace Ingress

inductive Kind where
  | gameStart
  | handPlayed
  | shopEntered
  | cardPurchased
  | gameOver
  | action
  | stateUpdate
  | jokerActivated
  | roundComplete
  | anteComplete
  | heartbeat
deriving DecidableEq, Repr

namespace Kind

def all : List Kind :=
  [.gameStart, .handPlayed, .shopEntered, .cardPurchased, .gameOver, .action, .stateUpdate,
    .jokerActivated, .roundComplete, .anteComplete, .heartbeat]

theorem mem_all (k : Kind) : k ∈ all := by cases k <;> decide

def name : Kind → String
  | .gameStart => "game_start"
  | .handPlayed => "hand_played"
  | .shopEntered => "shop_entered"
  | .cardPurchased => "card_purchased"
  | .gameOver => "game_over"
  | .action => "action"
  | .stateUpdate => "state_update"
  | .jokerActivated => "joker_activated"
  | .roundComplete => "round_complete"
  | .anteComplete => "ante_complete"
  | .heartbeat => "heartbeat"

/-- The name of the kind itself. -/
def label : Kind → String
  | .gameStart => "GameStart"
  | .handPlayed => "HandPlayed"
  | .shopEntered => "ShopEntered"
  | .cardPurchased => "CardPurchased"
  | .gameOver => "GameOver"
  | .action => "Action"
  | .stateUpdate => "StateUpdate"
  | .jokerActivated => "JokerActivated"
  | .roundComplete => "RoundComplete"
  | .anteComplete => "AnteComplete"
  | .heartbeat => "Heartbeat"

def ofName? (name : String) : Option Kind := all.find? fun k => k.name == name

theorem ofName?_name (k : Kind) : ofName? k.name = some k := by cases k <;> decide

/-- Every kind but the heartbeat carries data. -/
def requiresData (k : Kind) : Bool := k != .heartbeat

def decoder : Json.Decoder Kind := .variant (all.map fun k => (k.name, k))

end Kind

structure UnknownKind where
  name : String
deriving DecidableEq, Repr

def UnknownKind.message (e : UnknownKind) : String := "invalid event type: " ++ e.name

/-- The kind of a name, or the name as an error. -/
def Kind.parse (name : String) : Except UnknownKind Kind :=
  match ofName? name with
  | some k => .ok k
  | none => .error ⟨name⟩

end Ingress
