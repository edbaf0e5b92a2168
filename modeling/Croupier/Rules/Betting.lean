/-
Betting: what participants wager, when a round is complete, and who is paid at
the showdown.
-/

import Croupier.Hand.Value
import Croupier.Table.Basic

namespace Croupier

/-- Whether a participant can still take part in the betting. -/
def Player.canBet (player : Player) : Bool :=
  !player.folded && !player.allIn && player.chips > 0

/-- A participant after an action of theirs. -/
def Player.afterActing (player : Player) : Player :=
  { player with acted := true }

namespace Table

/-! ### Wagers -/

/-- Moves chips from a participant into the pot. -/
def pay (table : Table) (seat : Int) (amount : Int) : Table :=
  { table.modifyPlayer seat fun player =>
      { player with
        chips := player.chips - amount
        bet := player.bet + amount } with
    pot := table.pot + amount }

/-- Asks everyone but one participant to act again. -/
def reopen (table : Table) (aggressor : Int) : Table :=
  { table with
    players := table.players.zipIdx.map fun (player, seat) =>
      if seat = aggressor then player else { player with acted := false } }

/-- Makes the bet of a participant the bet at the table, for everyone else to
answer. -/
def setBet (table : Table) (seat : Int) : Table :=
  { table with bet := (table.player seat).bet }.reopen seat

/-- The table after a betting action, if it is one. -/
def wager? (table : Table) (seat : Int) (phase : BettingPhase) :
    BettingAction → Option Table
  | .check => some (table.modifyPlayer seat Player.afterActing)
  | .bet =>
      some (((table.pay seat phase.minBet).setBet seat).modifyPlayer seat
        Player.afterActing)
  | .call =>
      some ((table.pay seat (table.owed seat)).modifyPlayer seat
        Player.afterActing)
  | .raise =>
      let raised := table.pay seat (table.owed seat + phase.minBet)
      some (({ raised with raises := raised.raises + 1 }.setBet
        seat).modifyPlayer seat Player.afterActing)
  | .allIn =>
      let paid := (table.pay seat (table.player seat).chips).modifyPlayer seat
        fun player => { player with allIn := true }
      let answered :=
        if (paid.player seat).bet > paid.bet then paid.setBet seat else paid
      some (answered.modifyPlayer seat Player.afterActing)
  | .fold =>
      some (table.modifyPlayer seat fun player =>
        { player with folded := true, acted := true })
  | .none | .unknown _ _ => none

/-! ### The end of a round -/

/-- Who has not folded, in seat order. -/
def unfolded (table : Table) : List Int :=
  table.allSeats.filter (fun seat => !(table.player seat).folded)

/-- Whether nobody is left to bet: at most one participant is in the hand, or
everyone who can bet has acted and matched the bet. -/
def bettingComplete (table : Table) : Bool :=
  table.players.countP (fun player => !player.folded) ≤ 1
    || !table.players.any fun player =>
      player.canBet && (!player.acted || player.bet < table.bet)

/-! ### The showdown -/

/-- The seats among the candidates that share the best hand, in their order. -/
def bestHands (table : Table) (program : Program) (candidates : List Int) :
    List Int :=
  let valued := candidates.map fun seat =>
    (seat, program.handValue (table.hand seat))
  match (valued.map (·.2)).max? with
  | none => []
  | some best => (valued.filter (fun entry => entry.2 = best)).map (·.1)

def award (amount : Int) (table : Table) (seat : Int) : Table :=
  table.modifyPlayer seat fun player =>
    { player with chips := player.chips + amount }

/-- Who wins the pot: the last participant in the hand, or the best hands of
those in it. -/
def showdownWinners (table : Table) (program : Program) : List Int :=
  let candidates := table.unfolded
  if candidates.length ≤ 1 then
    candidates
  else
    table.bestHands program candidates

/-- Splits the pot among the winners; what cannot be split goes to the first of
them. -/
def payWinners (table : Table) : List Int → Table
  | [] => table
  | first :: rest =>
      let count : Int := (rest.length + 1 : Nat)
      let shared := (first :: rest).foldl (award (table.pot.tdiv count)) table
      { award (table.pot.tmod count) shared first with
        lastShowdown := first }

/-- Settles the hand: the pot is paid out and the bets are cleared. -/
def showdown (table : Table) (program : Program) : Table :=
  let paid := table.payWinners (table.showdownWinners program)
  { paid with
    players := paid.players.map fun player =>
      { player with bet := 0, acted := false }
    showdowns := paid.showdowns + 1
    pot := 0
    bet := 0
    raises := 0
    showdownResolved := true
    handOver := true }

end Table

end Croupier
