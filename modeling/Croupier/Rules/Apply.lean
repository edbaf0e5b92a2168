/-
Carrying out moves and passes.

Everything that can be wrong with a move is found out before the table is
touched; what follows cannot fail. The turn order is none of its business: a
move only reports who won a trick by it and so leads the next one.
-/

import Croupier.Fault
import Croupier.Rules.Battle
import Croupier.Rules.Betting
import Croupier.Rules.Contract
import Croupier.Rules.Effect

namespace Croupier

/-- Play at a table, which a fault can break off. -/
abbrev Play := EStateM Fault Table

namespace Table

/-! ### Cards that are played -/

/-- Takes the card at a place out of a hand. -/
def without (table : Table) (seat : Int) (place : Nat) : Table :=
  table.modifyHand seat (·.eraseIdx place)

/-- Whether a card on top of a pile is captured by a card of its rank. -/
def captures (program : Program) (target : Location) (pile : List Card)
    (card : Card) : Option Card :=
  if program.header.tableauMode = .matchRank
      ∧ (target = .discard ∨ target = .tableau) then
    pile.getLast?.filter (fun top => top.rank = card.rank)
  else
    none

/-- Settles the battle if it is complete. -/
def settleBattle (table : Table) (program : Program) : Table :=
  if table.battleComplete then (table.takeBattle program).2 else table

/-- Puts a played card where it belongs: on the pile it was played to, back
into the hand together with the card it captures, or into a battle. -/
def playCard (table : Table) (program : Program) (seat : Int) (card : Card)
    (target : Location) : Table :=
  let table := table.openPile target
  match captures program target (table.pileAt seat target) card with
  | some top =>
      (table.modifyPile seat target List.dropLast).modifyPlayer seat
        fun player =>
          { player with
            hand := player.hand ++ [top, card]
            score := player.score + program.cardPoints [top, card] }
  | none =>
      let placed := table.place seat target card
      if program.header.tableauMode = .war ∧ target = .tableau then
        (placed.enterBattle seat card).settleBattle program
      else
        placed

/-! ### Tricks -/

/-- Settles the trick if it is complete, and the hand if it was the last trick.
Returns the winner of the trick, nobody if there is none. -/
def settleTrick (table : Table) (program : Program) (phase : TrickPhase) :
    Int × Table :=
  if table.trickComplete then
    let (winner, table) := table.takeTrick program phase
    if table.handsEmpty then
      let scored :=
        if program.hasPhase .bidding then
          table.scoreContracts program
        else
          table
      (winner, { scored with handOver := true })
    else
      (winner, table)
  else
    (nobody, table)

def contribute (table : Table) (seat : Int) (card : Card)
    (phase : TrickPhase) : Table :=
  let placed := table.place seat .tableau card
  { placed with
    trick := placed.trick ++ [seat]
    suitBroken := placed.suitBroken || phase.breaking = some (.suit card.suit) }

/-! ### Claims -/

/-- Lays a card face down and claims the next rank in turn. -/
def layClaim (table : Table) (seat : Int) (card : Card) (phase : ClaimPhase) :
    Table :=
  { table with
    discard := table.discard ++ [card]
    claim :=
      { pending := phase.allowChallenge
        claimant := seat
        rank := RankWord.afterTurns table.claims
        card }
    claims := table.claims + 1 }

def closeClaim (table : Table) : Table :=
  { table with claim := { table.claim with pending := false } }

/-- Turns up the claimed card: whoever was wrong takes the discard pile. -/
def challengeClaim (table : Table) (challenger : Int) : Table :=
  let bluff := table.claim.rank ≠ .rank table.claim.card.rank
  let taker := if bluff then table.claim.claimant else challenger
  { table.modifyHand taker (· ++ table.discard) with
    discard := [] }.closeClaim

/-! ### Betting and bidding -/

/-- Settles the hand if the betting is complete. -/
def settleBetting (table : Table) (program : Program) : Table :=
  if table.bettingComplete then table.showdown program else table

/-- Announces a bid; a bid of zero is a nil bid. -/
def announce (table : Table) (seat value : Int) : Table :=
  table.modifyPlayer seat fun player =>
    { player with bid := value, nilBid := value = 0 }

/-! ### Passes -/

/-- What a pass settles in a phase. Returns the winner of a trick, if any. -/
def passIn (table : Table) (program : Program) (phase : Phase) :
    Int × Table :=
  let table :=
    if program.header.tableauMode = .war then
      table.settleBattle program
    else
      table
  match phase with
  | .trick phase => table.settleTrick program phase
  | .betting _ => (nobody, table.settleBetting program)
  | _ => (nobody, table)

/-- What a pass settles in the phase at a place of the turn structure, nothing
outside of it. -/
def pass (table : Table) (program : Program) (index : Int) : Int × Table :=
  match program.phase? index with
  | none => (nobody, table)
  | some phase => table.passIn program phase

end Table

namespace Play

/-! ### Checks -/

def phaseOf (program : Program) (move : Move) : Play Phase :=
  match program.phase? move.phase with
  | some phase => pure phase
  | none => throw (.noSuchPhase move.phase)

/-- Refuses a choice that does not belong in a phase. -/
def refuse {α : Type} (move : Move) (phase : Phase) : Play α :=
  throw (.foreignMove move.choice phase.kind)

def cardAt (seat place : Int) : Play Card := do
  let hand := (← get).hand seat
  match (if place < 0 then none else hand[place.toNat]?) with
  | some card => pure card
  | none => throw (.noSuchCard place hand.length)

/-- Changes the table by a step that also has a result. -/
def step {α : Type} (change : Table → α × Table) : Play α := do
  let (result, table) := change (← get)
  set table
  return result

/-! ### Moves -/

/-- Carries out a move for a participant. Returns the winner of a trick that the
move completes, nobody if it completes none. -/
def apply (program : Program) (seat : Int) (move : Move) : Play Int := do
  match move.choice with
  | .draw _ =>
      match ← phaseOf program move with
      | .draw phase =>
          modify (·.draw seat phase.source phase.count)
          return nobody
      | phase => refuse move phase
  | .play place target =>
      match ← phaseOf program move with
      | .play _ =>
          let card ← cardAt seat place
          modify fun table =>
            ((table.without seat place.toNat).playCard program seat card
              target).triggerEffect program seat card
          return nobody
      | phase => refuse move phase
  | .discard place target =>
      match ← phaseOf program move with
      | .discard _ =>
          let card ← cardAt seat place
          modify fun table =>
            (table.without seat place.toNat).place seat target card
          return nobody
      | phase => refuse move phase
  | .trick place =>
      match ← phaseOf program move with
      | .trick phase =>
          let card ← cardAt seat place
          step fun table =>
            (((table.without seat place.toNat).contribute seat card
              phase).triggerEffect program seat card).settleTrick program phase
      | phase => refuse move phase
  | .bet action =>
      match ← phaseOf program move with
      | .betting phase =>
          match (← get).wager? seat phase action with
          | some table =>
              set (table.settleBetting program)
              return nobody
          | none => throw .noBettingAction
      | phase => refuse move phase
  | .claim place =>
      match ← phaseOf program move with
      | .claim phase =>
          let card ← cardAt seat place
          modify fun table =>
            (table.without seat place.toNat).layClaim seat card phase
          return nobody
      | phase => refuse move phase
  | .challenge =>
      match ← phaseOf program move with
      | .claim _ =>
          if !(← get).claim.pending then
            throw .noPendingClaim
          modify (·.challengeClaim seat)
          return nobody
      | phase => refuse move phase
  | .accept =>
      match ← phaseOf program move with
      | .claim _ =>
          modify (·.closeClaim)
          return nobody
      | phase => refuse move phase
  | .bid value =>
      match ← phaseOf program move with
      | .bidding _ =>
          modify (·.announce seat value)
          return nobody
      | phase => refuse move phase
  | .pass => step (·.pass program move.phase)
  | .unknown code _ => throw (.unknownMove code)

end Play

end Croupier
