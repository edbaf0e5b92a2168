/-
Rule programs: the turn structure, the ways to win and the scoring of one card
game.

A program is plain data. Numbers are whole numbers without a range, so that a
program can be written down before anyone asks whether it fits the compiled
format. Effects are kept by rank, at most one each, in ascending order.
-/

import Croupier.Card
import Croupier.Program.Vocabulary

namespace Croupier

/-! ### Conditions -/

/-- One comparison of something on the table with a number, or one test of a
candidate card. -/
structure Condition where
  kind : ConditionKind := .handSize
  comparison : Comparison := .equal
  value : Int := 0
  /-- The byte that names a reference card or a location, by kind. -/
  reference : UInt8 := 0
  deriving DecidableEq, Repr

/-- How the conditions of a block combine. -/
inductive Quantifier where
  | all
  | any
  deriving DecidableEq, Repr

/-- Conditions that must hold together, or of which one must hold. An empty
block holds. -/
structure ConditionBlock where
  quantifier : Quantifier := .all
  conditions : List Condition := []
  deriving DecidableEq, Repr

/-! ### Phases of a turn -/

/-- Take cards from a pile. -/
structure DrawPhase where
  source : Location := .deck
  count : Int := 1
  mandatory : Bool := true
  condition : Option Condition := none
  deriving DecidableEq, Repr

/-- Play cards that satisfy a block of conditions. -/
structure PlayPhase where
  target : Location := .discard
  minCards : Int := 1
  maxCards : Int := 1
  mandatory : Bool := true
  passIfUnable : Bool := false
  conditions : ConditionBlock := {}
  deriving DecidableEq, Repr

/-- Lay cards aside. -/
structure DiscardPhase where
  target : Location := .discard
  count : Int := 1
  mandatory : Bool := true
  deriving DecidableEq, Repr

/-- Contribute a card to a trick. -/
structure TrickPhase where
  followSuit : Bool := true
  trump : Option SuitWord := none
  highCardWins : Bool := true
  /-- A suit that may not be led until it was played. -/
  breaking : Option SuitWord := none
  deriving DecidableEq, Repr

/-- Wager chips. -/
structure BettingPhase where
  minBet : Int := 1
  maxRaises : Int := 3
  deriving DecidableEq, Repr

/-- Lay a card face down and claim its rank. -/
structure ClaimPhase where
  allowChallenge : Bool := true
  deriving DecidableEq, Repr

/-- Announce how many tricks one will take. -/
structure BiddingPhase where
  minBid : Int := 1
  maxBid : Int := 13
  allowNil : Bool := true
  deriving DecidableEq, Repr

/-- One step of the turn structure. -/
inductive Phase where
  | draw (phase : DrawPhase)
  | play (phase : PlayPhase)
  | discard (phase : DiscardPhase)
  | trick (phase : TrickPhase)
  | betting (phase : BettingPhase)
  | claim (phase : ClaimPhase)
  | bidding (phase : BiddingPhase)
  deriving DecidableEq, Repr

inductive PhaseKind where
  | draw | play | discard | trick | betting | claim | bidding
  deriving DecidableEq, Repr

namespace PhaseKind

def all : List PhaseKind :=
  [draw, play, discard, trick, betting, claim, bidding]

def name : PhaseKind → String
  | draw => "Draw"
  | play => "Play"
  | discard => "Discard"
  | trick => "Trick"
  | betting => "Betting"
  | claim => "Claim"
  | bidding => "Bidding"

def code : PhaseKind → UInt8
  | draw => 1
  | play => 2
  | discard => 3
  | trick => 4
  | betting => 5
  | claim => 6
  | bidding => 7

end PhaseKind

def Phase.kind : Phase → PhaseKind
  | draw _ => .draw
  | play _ => .play
  | discard _ => .discard
  | trick _ => .trick
  | betting _ => .betting
  | claim _ => .claim
  | bidding _ => .bidding

/-! ### Effects, ways to win and scoring -/

/-- What a card of some rank does when it is played. -/
structure Effect where
  kind : EffectKind := .skipNext
  target : EffectTarget := .next
  value : Int := 1
  deriving DecidableEq, Repr

/-- At most one effect for each rank, in ascending order of the ranks. -/
structure EffectTable where
  entries : List (RankWord × Effect)
  ascending :
    entries.Pairwise (fun left right => left.1.index < right.1.index)
  deriving DecidableEq, Repr

namespace EffectTable

def empty : EffectTable := ⟨[], .nil⟩

/-- Puts an entry into its place among ascending entries; an entry of the same
rank gives way. -/
def insertEntry (rank : RankWord) (effect : Effect) :
    List (RankWord × Effect) → List (RankWord × Effect)
  | [] => [(rank, effect)]
  | entry :: rest =>
      if rank.index < entry.1.index then
        (rank, effect) :: entry :: rest
      else if rank.index = entry.1.index then
        (rank, effect) :: rest
      else
        entry :: insertEntry rank effect rest

theorem mem_insertEntry {rank : RankWord} {effect : Effect}
    {entries : List (RankWord × Effect)} {entry : RankWord × Effect}
    (member : entry ∈ insertEntry rank effect entries) :
    entry = (rank, effect) ∨ entry ∈ entries := by
  induction entries with
  | nil => simpa [insertEntry] using member
  | cons first rest inRest =>
      unfold insertEntry at member
      split at member
      · simpa using member
      · split at member
        · rcases List.mem_cons.mp member with here | there
          · exact Or.inl here
          · exact Or.inr (List.mem_cons_of_mem _ there)
        · rcases List.mem_cons.mp member with here | there
          · exact Or.inr (here ▸ List.mem_cons_self)
          · rcases inRest there with new | old
            · exact Or.inl new
            · exact Or.inr (List.mem_cons_of_mem _ old)

theorem insertEntry_ascending (rank : RankWord) (effect : Effect)
    {entries : List (RankWord × Effect)}
    (ascending :
      entries.Pairwise (fun left right => left.1.index < right.1.index)) :
    (insertEntry rank effect entries).Pairwise
      (fun left right => left.1.index < right.1.index) := by
  induction entries with
  | nil => simp [insertEntry]
  | cons first rest restAscending =>
      obtain ⟨firstBelow, restOrdered⟩ := List.pairwise_cons.mp ascending
      unfold insertEntry
      split
      · rename_i below
        refine List.pairwise_cons.mpr ⟨?_, ascending⟩
        intro entry member
        rcases List.mem_cons.mp member with here | there
        · exact here ▸ below
        · exact Nat.lt_trans below (firstBelow entry there)
      · split
        · rename_i same
          refine List.pairwise_cons.mpr ⟨?_, restOrdered⟩
          intro entry member
          exact same ▸ firstBelow entry member
        · rename_i notBelow notSame
          refine List.pairwise_cons.mpr ⟨?_, restAscending restOrdered⟩
          intro entry member
          rcases mem_insertEntry member with new | old
          · subst new
            simp only at notBelow notSame ⊢
            omega
          · exact firstBelow entry old

/-- The table with the effect of one rank set. -/
def insert (table : EffectTable) (rank : RankWord) (effect : Effect) :
    EffectTable where
  entries := insertEntry rank effect table.entries
  ascending := insertEntry_ascending rank effect table.ascending

/-- The table of the given entries; of two entries for a rank the later one
counts. -/
def ofList (entries : List (RankWord × Effect)) : EffectTable :=
  entries.foldl (fun table entry => table.insert entry.1 entry.2) .empty

def find? (table : EffectTable) (rank : RankWord) : Option Effect :=
  (table.entries.find? (fun entry => entry.1 = rank)).map (·.2)

end EffectTable

/-- One way for a game to end. -/
structure WinCondition where
  kind : WinKind := .emptyHand
  threshold : Int := 0
  side : ThresholdSide := .atLeast
  trigger : WinTrigger := .immediate
  deriving DecidableEq, Repr

/-- One number of the scoring, either points for cards or a contract value. -/
structure ScoringRule where
  kind : ScoringKind := .rankPoints
  /-- The index of the rank or the suit that a card rule rewards. -/
  selector : UInt8 := 0
  points : Int := 0
  deriving DecidableEq, Repr

/-- One entry of the table that values hands. -/
structure HandPattern where
  kind : PatternKind := .setOf
  size : Int := 0
  weight : Int := 0
  deriving DecidableEq, Repr

/-! ### Programs -/

def formatVersion : Int := 1

/-- The seat, the team or the side of nobody. So is any other negative number,
but this is the one that play itself comes up with. -/
def nobody : Int := -1

def minParticipants : Nat := 2

def maxParticipants : Nat := 8

/-- The most copies of the deck that a game may use. -/
def maxDeckCopies : Nat := 2

def standardDeckSize : Nat := Rank.count * Suit.count

def maxDeckSize : Nat := standardDeckSize * maxDeckCopies

/-- The frame of a program: the deck, the participants and the modes of play. -/
structure Header where
  version : Int := formatVersion
  teamMode : Bool := false
  tableauMode : TableauMode := .none
  sequenceOrder : SequenceOrder := .ascending
  /-- One bit for each rank of the deck; no bit at all means every rank. -/
  rankMask : UInt16 := 0
  deckCopies : Int := 1
  tieBreak : TieBreak := .alternate
  participants : Int := 2
  maxTurns : Int := 1000
  fingerprint : UInt64 := 0
  deriving DecidableEq, Repr

/-- How a hand begins. -/
structure Setup where
  /-- Zero deals the whole deck evenly. -/
  cardsPerParticipant : Int := 0
  initialDiscards : Int := 0
  startingChips : Int := 0
  deriving DecidableEq, Repr

/-- The rules of one card game. -/
structure Program where
  header : Header := {}
  setup : Setup := {}
  phases : List Phase := []
  winConditions : List WinCondition := []
  effects : EffectTable := .empty
  scoring : List ScoringRule := []
  patterns : List HandPattern := []
  teams : List (List Int) := []
  deriving DecidableEq, Repr

instance : Inhabited Program := ⟨{}⟩

end Croupier
