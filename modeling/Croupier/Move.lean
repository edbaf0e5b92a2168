/-
Moves: what a participant can choose to do in a phase.
-/

import Croupier.Program.Query

namespace Croupier

/-- What is done. Cards are named by their place in the hand. -/
inductive Choice where
  | draw (source : Location)
  | play (card : Int) (target : Location)
  | discard (card : Int) (target : Location)
  | trick (card : Int)
  | bet (action : BettingAction)
  | claim (card : Int)
  | challenge
  | accept
  | bid (value : Int)
  | pass
  | unknown (code : UInt8) (beyond : code ≥ 10)
  deriving DecidableEq, Repr

/-- A choice, and the phase that it is made for. -/
structure Move where
  phase : Int
  choice : Choice
  deriving DecidableEq, Repr

/-- The most moves that are ever offered at once: one for each card of the
largest deck, and room for those that play no card. -/
def maxMoves : Nat := maxDeckSize + 16

def BettingAction.name : BettingAction → String
  | .none => "None"
  | .check => "Check"
  | .bet => "Bet"
  | .call => "Call"
  | .raise => "Raise"
  | .allIn => "All-in"
  | .fold => "Fold"
  | .unknown _ _ => "Unknown"

namespace Choice

def name : Choice → String
  | draw _ => "Draw"
  | play card _ => "Play card " ++ toString card
  | discard card _ => "Discard card " ++ toString card
  | trick card => "Trick card " ++ toString card
  | bet action => action.name
  | claim card => "Claim with card " ++ toString card
  | challenge => "Challenge"
  | accept => "Accept claim"
  | bid value => "Bid " ++ toString value
  | pass => "Pass"
  | unknown _ _ => "Unknown"

/-- The number of the kind of a choice. -/
def code : Choice → UInt8
  | draw _ => 0
  | play _ _ => 1
  | discard _ _ => 2
  | trick _ => 3
  | bet _ => 4
  | claim _ => 5
  | challenge => 6
  | accept => 7
  | bid _ => 8
  | pass => 9
  | unknown code _ => code

/-- The place of the card that a choice names, minus one if it names none. -/
def card : Choice → Int
  | play card _ | discard card _ | trick card | claim card => card
  | _ => -1

/-- The location that a choice names; the hand if it names none. A claim lays
its card on the discard pile. -/
def location : Choice → Location
  | draw location | play _ location | discard _ location => location
  | claim _ => .discard
  | _ => .hand

def action : Choice → BettingAction
  | bet action => action
  | _ => .none

/-- The bid of a choice, zero if it makes none. -/
def bidValue : Choice → Int
  | bid value => value
  | _ => 0

/-- The choice of a kind, given everything that choices of some kind name. What
its own kind does not name is left out. -/
def ofParts (code : UInt8) (card : Int) (location : Location)
    (action : BettingAction) (bidValue : Int) : Choice :=
  match code with
  | 0 => draw location
  | 1 => play card location
  | 2 => discard card location
  | 3 => trick card
  | 4 => bet action
  | 5 => claim card
  | 6 => challenge
  | 7 => accept
  | 8 => bid bidValue
  | code => if beyond : code ≥ 10 then unknown code beyond else pass

theorem ofParts_parts (choice : Choice) :
    ofParts choice.code choice.card choice.location choice.action
      choice.bidValue = choice := by
  cases choice with
  | unknown code beyond =>
      have large : 10 ≤ code.toNat := by
        simpa [UInt8.le_iff_toNat_le] using beyond
      simp only [ofParts, Choice.code]
      split <;> simp_all
  | _ => rfl

end Choice

def Move.name (move : Move) : String :=
  move.choice.name

end Croupier
