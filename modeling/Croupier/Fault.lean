/-
Why a program cannot be played, or a move cannot be made.
-/

import Croupier.Move

namespace Croupier

/-- The reasons for which play is refused. -/
inductive Fault where
  | noPhases
  | unsupportedSeats (count : Int)
  | wrongPhase (given current : Int)
  | noSuchPhase (index : Int)
  | foreignMove (choice : Choice) (phase : PhaseKind)
  | noSuchCard (place : Int) (handSize : Nat)
  | noPendingClaim
  | noBettingAction
  | unknownMove (code : UInt8)
  | passOutsideTurn
  deriving DecidableEq, Repr

/-- Whether the program is at fault rather than the move. -/
def Fault.isProgram : Fault → Bool
  | noPhases | unsupportedSeats _ => true
  | _ => false

def Fault.message : Fault → String
  | noPhases => "Program has no phases."
  | unsupportedSeats count =>
      "Program seats " ++ toString count ++ " participants."
  | wrongPhase given current =>
      "Move for phase " ++ toString given ++ " played during phase "
        ++ toString current ++ "."
  | noSuchPhase index =>
      "Move refers to phase " ++ toString index ++ ", which does not exist."
  | foreignMove choice phase =>
      choice.name ++ " does not belong in a " ++ phase.name ++ " phase."
  | noSuchCard place handSize =>
      "Card index " ++ toString place ++ " is outside a hand of "
        ++ toString handSize ++ " cards."
  | noPendingClaim => "Challenge without a pending claim."
  | noBettingAction => "Betting move without a betting action."
  | unknownMove code =>
      "Unknown move type " ++ toString code.toNat ++ "."
  | passOutsideTurn => "Pass outside of the turn structure."

end Croupier
