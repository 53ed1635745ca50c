import Ingress.Text.Class

/-!
# Hands and cards

* `HandType.parse?` : a hand by its name, whatever the case of its letters and with underscores
  for blanks;
* `Suit.parse?`, `Suit.ofInitial?` : a suit by its name or its initial;
* `isRank` : the fourteen names of ranks, `10` and `T` being the same rank;
* `isCardCode` : a rank followed by the initial of a suit.
-/

namespace Ingress

inductive HandType where
  | highCard
  | pair
  | twoPair
  | threeOfAKind
  | straight
  | flush
  | fullHouse
  | fourOfAKind
  | straightFlush
  | flushHouse
  | flushFive
  | fiveOfAKind
deriving DecidableEq, Repr

namespace HandType

def names : List (String × HandType) :=
  [("high card", .highCard), ("pair", .pair), ("two pair", .twoPair),
    ("three of a kind", .threeOfAKind), ("straight", .straight), ("flush", .flush),
    ("full house", .fullHouse), ("four of a kind", .fourOfAKind),
    ("straight flush", .straightFlush), ("flush house", .flushHouse),
    ("flush five", .flushFive), ("five of a kind", .fiveOfAKind)]

def label : HandType → String
  | .highCard => "HighCard"
  | .pair => "Pair"
  | .twoPair => "TwoPair"
  | .threeOfAKind => "ThreeOfAKind"
  | .straight => "Straight"
  | .flush => "Flush"
  | .fullHouse => "FullHouse"
  | .fourOfAKind => "FourOfAKind"
  | .straightFlush => "StraightFlush"
  | .flushHouse => "FlushHouse"
  | .flushFive => "FlushFive"
  | .fiveOfAKind => "FiveOfAKind"

/-- A hand name without blanks at its ends, in lower case, with blanks for underscores. -/
def normalize (name : String) : String :=
  String.ofList ((Text.trim name.toList).map fun c =>
    if c = '_' then ' ' else Text.lowerAscii c)

def parse? (name : String) : Option HandType :=
  (names.find? fun entry => entry.1 == normalize name).map Prod.snd

end HandType

/-- A suit, or the wild enhancement. -/
inductive Suit where
  | hearts
  | diamonds
  | clubs
  | spades
  | wild
deriving DecidableEq, Repr

namespace Suit

def name : Suit → String
  | .hearts => "Hearts"
  | .diamonds => "Diamonds"
  | .clubs => "Clubs"
  | .spades => "Spades"
  | .wild => "Wild"

def parse? (name : String) : Option Suit :=
  [hearts, diamonds, clubs, spades, wild].find? fun s => s.name == name

def ofInitial? (c : Char) : Option Suit :=
  if c = 'H' then some .hearts
  else if c = 'D' then some .diamonds
  else if c = 'C' then some .clubs
  else if c = 'S' then some .spades
  else if c = 'W' then some .wild
  else none

end Suit

def rankNames : List String :=
  ["A", "2", "3", "4", "5", "6", "7", "8", "9", "10", "T", "J", "Q", "K"]

def isRank (rank : String) : Bool := rankNames.contains rank

/-- A rank followed by the initial of a suit, such as `AH` or `10S`. -/
def isCardCode (code : String) : Bool :=
  match code.toList.reverse with
  | [] => false
  | c :: rank => (Suit.ofInitial? c).isSome && isRank (String.ofList rank.reverse)

end Ingress
