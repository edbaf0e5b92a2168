/-
What a rule program says about itself: names, the deck, the teams and the
contract values.
-/

import Croupier.Program.Basic

namespace Croupier

/-! ### Names -/

/-- How a word outside the vocabulary is named. -/
def unknownName (code : UInt8) : String :=
  "Unknown (" ++ toString code.toNat ++ ")"

def WinKind.name : WinKind → String
  | emptyHand => "Empty hand"
  | highScore => "High score"
  | firstToScore => "First to score"
  | captureAll => "Capture all"
  | lowScore => "Low score"
  | allHandsEmpty => "All hands empty"
  | mostTricks => "Most tricks"
  | fewestTricks => "Fewest tricks"
  | mostChips => "Most chips"
  | bestHand => "Best hand"
  | mostCaptured => "Most captured"
  | unknown code _ => unknownName code

def EffectKind.name : EffectKind → String
  | skipNext => "Skip next"
  | reverse => "Reverse"
  | drawCards => "Draw cards"
  | extraTurn => "Extra turn"
  | forceDiscard => "Force discard"
  | wild => "Wild"
  | blockNext => "Block next"
  | swapHands => "Swap hands"
  | stealCard => "Steal card"
  | peek => "Peek"
  | unknown code _ => unknownName code

def Phase.name (phase : Phase) : String :=
  phase.kind.name

namespace Program

/-! ### Phases -/

/-- The phase at a place of the turn structure. -/
def phase? (program : Program) (index : Int) : Option Phase :=
  if index < 0 then none else program.phases[index.toNat]?

def hasPhase (program : Program) (kind : PhaseKind) : Bool :=
  program.phases.any (fun phase => phase.kind = kind)

def hasWin (program : Program) (kind : WinKind) : Bool :=
  program.winConditions.any (fun condition => condition.kind = kind)

/-- Whether a phase puts cards on the tableau of its own accord. The cards of a
trick in progress lie there. -/
def phaseUsesTableau : Phase → Bool
  | .play phase => phase.target = .tableau
  | .discard phase => phase.target = .tableau
  | .trick _ => true
  | .draw _ | .betting _ | .claim _ | .bidding _ => false

/-- Whether a fresh table needs a tableau pile. -/
def usesTableau (program : Program) : Bool :=
  program.header.tableauMode ≠ .none || program.phases.any phaseUsesTableau

/-! ### The deck -/

def includesRank (program : Program) (rank : Rank) : Bool :=
  program.header.rankMask = 0
    || program.header.rankMask.toNat.testBit rank.index

/-- One copy of the deck, in ascending order. -/
def deckCopy (program : Program) : List Card :=
  (Rank.all.filter program.includesRank).flatMap fun rank =>
    Suit.all.map fun suit => ⟨rank, suit⟩

/-- The whole deck before it is shuffled, copy after copy. -/
def deck (program : Program) : List Card :=
  (List.replicate program.header.deckCopies.toNat program.deckCopy).flatten

def deckSize (program : Program) : Int :=
  (Rank.all.countP program.includesRank * Suit.count : Nat)
    * program.header.deckCopies

/-! ### Teams -/

/-- How many teams play; none outside team mode. -/
def teamCount (program : Program) : Nat :=
  if program.header.teamMode then program.teams.length else 0

/-- Enters a team for its members into the teams by seat. -/
def enterTeam (seats : List Int) (team : List Int × Nat) : List Int :=
  team.1.foldl
    (fun seats member =>
      if member < 0 then seats else seats.set member.toNat team.2)
    seats

/-- The team of each seat; outside team mode, and for a seat that no team
names, that of nobody. -/
def seatTeams (program : Program) : List Int :=
  let unassigned := List.replicate program.header.participants.toNat nobody
  if program.header.teamMode then
    program.teams.zipIdx.foldl enterTeam unassigned
  else
    unassigned

/-! ### Effects -/

/-- The effect of a card, which is that of its rank. -/
def effectOf? (program : Program) (card : Card) : Option Effect :=
  program.effects.find? (.rank card.rank)

/-- Whether a card may be played whatever the conditions of a play phase say. -/
def isWild (program : Program) (card : Card) : Bool :=
  (program.effectOf? card).any (fun effect => effect.kind = .wild)

end Program

/-! ### Contract values -/

/-- What bids are worth. -/
structure ContractValues where
  nilBonus : Int := 100
  nilPenalty : Int := 100
  pointsPerTrickBid : Int := 10
  overtrickPoints : Int := 1
  bagLimit : Int := 10
  bagPenalty : Int := 100
  failedContractPenalty : Int := 10
  deriving DecidableEq, Repr

namespace ContractValues

/-- Sets the value that a scoring rule names. Rules for card points and rules
of an unknown kind name none. -/
def apply (values : ContractValues) (rule : ScoringRule) : ContractValues :=
  match rule.kind with
  | .nilBonus => { values with nilBonus := rule.points }
  | .nilPenalty => { values with nilPenalty := rule.points }
  | .pointsPerTrickBid => { values with pointsPerTrickBid := rule.points }
  | .overtrickPoints => { values with overtrickPoints := rule.points }
  | .bagLimit => { values with bagLimit := rule.points }
  | .bagPenalty => { values with bagPenalty := rule.points }
  | .failedContractPenalty =>
      { values with failedContractPenalty := rule.points }
  | .rankPoints | .suitPoints | .unknown _ _ => values

end ContractValues

/-- The contract values of a program: the usual ones, replaced by its scoring
rules in order. -/
def Program.contractValues (program : Program) : ContractValues :=
  program.scoring.foldl ContractValues.apply {}

end Croupier
