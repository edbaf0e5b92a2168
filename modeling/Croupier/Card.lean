/-
Playing cards of the four-suited French deck: ranks, suits, cards and their
two-character names.

Ranks and suits are ordered by their index, deuce low and ace high, clubs low
and spades high. Cards are ordered by rank and then by suit.
-/

namespace Croupier

/-- Ranks from the deuce up to the ace. -/
inductive Rank where
  | two | three | four | five | six | seven | eight | nine | ten
  | jack | queen | king | ace
  deriving DecidableEq, Repr, Inhabited

/-- Suits from clubs up to spades. -/
inductive Suit where
  | clubs | diamonds | hearts | spades
  deriving DecidableEq, Repr, Inhabited

namespace Rank

def all : List Rank :=
  [two, three, four, five, six, seven, eight, nine, ten, jack, queen, king, ace]

/-- The place of a rank in the ascending order, counted from zero. -/
def index : Rank → Nat
  | two => 0
  | three => 1
  | four => 2
  | five => 3
  | six => 4
  | seven => 5
  | eight => 6
  | nine => 7
  | ten => 8
  | jack => 9
  | queen => 10
  | king => 11
  | ace => 12

/-- The rank at a place of the ascending order. -/
def ofIndex? (index : Nat) : Option Rank :=
  all[index]?

def count : Nat := 13

theorem index_lt_count (rank : Rank) : rank.index < count := by
  cases rank <;> decide

theorem ofIndex?_index (rank : Rank) : ofIndex? rank.index = some rank := by
  cases rank <;> rfl

theorem index_injective {left right : Rank}
    (same : left.index = right.index) : left = right := by
  have found := congrArg ofIndex? same
  rw [ofIndex?_index, ofIndex?_index] at found
  exact Option.some.inj found

theorem mem_all (rank : Rank) : rank ∈ all := by
  cases rank <;> decide

/-- Whether the first rank is the lower one. -/
def below (left right : Rank) : Bool :=
  left.index < right.index

/-- The higher of two ranks. -/
def higher (left right : Rank) : Rank :=
  if left.below right then right else left

def name : Rank → Char
  | two => '2'
  | three => '3'
  | four => '4'
  | five => '5'
  | six => '6'
  | seven => '7'
  | eight => '8'
  | nine => '9'
  | ten => 'T'
  | jack => 'J'
  | queen => 'Q'
  | king => 'K'
  | ace => 'A'

def ofName? (name : Char) : Option Rank :=
  all.find? (fun rank => rank.name == name)

theorem ofName?_name (rank : Rank) : ofName? rank.name = some rank := by
  cases rank <;> decide

end Rank

namespace Suit

def all : List Suit :=
  [clubs, diamonds, hearts, spades]

def index : Suit → Nat
  | clubs => 0
  | diamonds => 1
  | hearts => 2
  | spades => 3

def ofIndex? (index : Nat) : Option Suit :=
  all[index]?

def count : Nat := 4

theorem index_lt_count (suit : Suit) : suit.index < count := by
  cases suit <;> decide

theorem ofIndex?_index (suit : Suit) : ofIndex? suit.index = some suit := by
  cases suit <;> rfl

theorem index_injective {left right : Suit}
    (same : left.index = right.index) : left = right := by
  have found := congrArg ofIndex? same
  rw [ofIndex?_index, ofIndex?_index] at found
  exact Option.some.inj found

/-- Diamonds and hearts are red. -/
def isRed : Suit → Bool
  | diamonds | hearts => true
  | clubs | spades => false

def name : Suit → Char
  | clubs => 'c'
  | diamonds => 'd'
  | hearts => 'h'
  | spades => 's'

def ofName? (name : Char) : Option Suit :=
  all.find? (fun suit => suit.name == name)

theorem ofName?_name (suit : Suit) : ofName? suit.name = some suit := by
  cases suit <;> decide

end Suit

/-- One card. Two decks hold every card twice, so equal cards may coexist. -/
structure Card where
  rank : Rank := .two
  suit : Suit := .clubs
  deriving DecidableEq, Repr, Inhabited

/-- Why a text names no card. -/
inductive CardNameError where
  | wrongLength
  | unknownRank
  | unknownSuit
  deriving DecidableEq, Repr

namespace Card

/-- The number of a card in the order by rank and then by suit. -/
def index (card : Card) : Nat :=
  card.rank.index * Suit.count + card.suit.index

/-- Whether the first card stands no later than the second one in the order by
rank and then by suit. -/
def atMost (left right : Card) : Bool :=
  left.index ≤ right.index

theorem index_injective {left right : Card}
    (same : left.index = right.index) : left = right := by
  have leftSuit := left.suit.index_lt_count
  have rightSuit := right.suit.index_lt_count
  simp only [index, Suit.count] at same leftSuit rightSuit
  cases left with
  | mk leftRank leftSuit' =>
    cases right with
    | mk rightRank rightSuit' =>
      have ranks : leftRank.index = rightRank.index := by
        simp only at same leftSuit rightSuit
        omega
      have suits : leftSuit'.index = rightSuit'.index := by
        simp only at same leftSuit rightSuit
        omega
      rw [Rank.index_injective ranks, Suit.index_injective suits]

/-- The two-character name of a card: rank, then suit. -/
def name (card : Card) : String :=
  String.ofList [card.rank.name, card.suit.name]

/-- Reads a card's name. The length of a text is that of its UTF-8 encoding, so
a single wide character can have the length of a name. -/
def ofName (text : String) : Except CardNameError Card := do
  if text.utf8ByteSize ≠ 2 then
    throw .wrongLength
  let letters := text.toList
  let some rank := letters[0]?.bind Rank.ofName? | throw .unknownRank
  let some suit := letters[1]?.bind Suit.ofName? | throw .unknownSuit
  return ⟨rank, suit⟩

def names (cards : List Card) : String :=
  String.ofList (cards.flatMap fun card => card.name.toList)

/-- The cards whose names stand one behind the other in a text. -/
def listOfNames? : List Char → Option (List Card)
  | [] => some []
  | [_] => none
  | rank :: suit :: rest => do
      let card : Card := ⟨← Rank.ofName? rank, ← Suit.ofName? suit⟩
      return card :: (← listOfNames? rest)

/-- The cards that a text names, unless it holds anything but names. -/
def ofNames? (text : String) : Option (List Card) :=
  listOfNames? text.toList

theorem ofNames?_names (cards : List Card) :
    ofNames? (names cards) = some cards := by
  simp only [ofNames?, names, name, String.toList_ofList]
  induction cards with
  | nil => rfl
  | cons card rest restRead =>
      simp [listOfNames?, Rank.ofName?_name, Suit.ofName?_name, restRead]

/-- Every card of one full deck, in ascending order. -/
def all : List Card :=
  Rank.all.flatMap fun rank => Suit.all.map fun suit => ⟨rank, suit⟩

end Card

namespace CardNameError

def message (text : String) : CardNameError → String
  | wrongLength => "Error: Card name \"" ++ text ++ "\" must be two characters."
  | unknownRank => "Error: Unknown rank in card \"" ++ text ++ "\"."
  | unknownSuit => "Error: Unknown suit in card \"" ++ text ++ "\"."

end CardNameError

end Croupier
