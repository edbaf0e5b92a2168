/-
Offers: the moves that a participant can choose from in a phase, and whether
the phase can be passed when there are none.

Cards are offered in the order of the hand. A pass among the offers is a choice
like any other; passing without an offer is for phases in which nothing can or
need be done.
-/

import Croupier.Move
import Croupier.Rules.Condition
import Croupier.Table.Pile

namespace Croupier.Table

/-! ### Cards on offer -/

/-- A choice for each card of a hand that is allowed, which names the card by
its place. -/
def offerCards (hand : List Card) (allowed : Card → Bool)
    (choice : Int → Choice) : List Choice :=
  hand.zipIdx.filterMap fun (card, place) =>
    if allowed card then some (choice place) else none

/-- How many cards a participant has already played or discarded in a phase. -/
def stepIn (table : Table) (seat phase : Int) : Int :=
  if seat = table.active ∧ phase = table.phase then table.step else 0

/-! ### Offers by phase -/

/-- A draw is on offer if its condition holds and there is something to draw; a
mandatory draw even from an empty pile. -/
def offerDraw (table : Table) (program : Program) (seat : Int)
    (phase : DrawPhase) : List Choice :=
  if phase.condition.all
      (fun condition => table.holds program seat condition none) then
    let available :=
      phase.source ≠ .hand
        && (table.pile? seat phase.source).any (fun pile => !pile.isEmpty)
    (if available || phase.mandatory then [.draw phase.source] else [])
      ++ (if phase.mandatory then [] else [.pass])
  else
    []

/-- Playable cards are on offer as long as the phase takes more, provided that
the hand can still reach its minimum. -/
def offerPlay (table : Table) (program : Program) (seat : Int) (step : Int)
    (phase : PlayPhase) : List Choice :=
  let hand := table.hand seat
  let missing := max (phase.minCards - step) 0
  (if step < phase.maxCards ∧ (hand.length : Int) ≥ max missing 1 then
      offerCards hand (table.mayPlay program seat phase)
        (.play · phase.target)
    else
      [])
    ++ (if step ≥ phase.minCards ∨ !phase.mandatory then [.pass] else [])

/-- Any card can be discarded as long as the phase takes more. -/
def offerDiscard (table : Table) (seat : Int) (step : Int)
    (phase : DiscardPhase) : List Choice :=
  (if step < phase.count then
      offerCards (table.hand seat) (fun _ => true) (.discard · phase.target)
    else
      [])
    ++ (if phase.mandatory then [] else [.pass])

/-- Which cards of a hand may be led: none of the breaking suit before it is
broken, unless there is no other. -/
def mayLead (table : Table) (phase : TrickPhase) (hand : List Card)
    (card : Card) : Bool :=
  match phase.breaking with
  | some breaking =>
      table.suitBroken || .suit card.suit ≠ breaking
        || hand.all (fun other => .suit other.suit = breaking)
  | none => true

/-- Which cards of a hand may follow the card that was led: those of its suit
where the phase asks for that and there are any. -/
def mayFollow (phase : TrickPhase) (lead : Card) (hand : List Card)
    (card : Card) : Bool :=
  !phase.followSuit || card.suit = lead.suit
    || hand.all (fun other => other.suit ≠ lead.suit)

/-- Whoever has not contributed to the trick leads or follows. -/
def offerTrick (table : Table) (seat : Int) (phase : TrickPhase) :
    List Choice :=
  let hand := table.hand seat
  if table.trick.contains seat then
    []
  else
    let allowed :=
      if table.trick.isEmpty then
        table.mayLead phase hand
      else
        match (table.tableau.head?.getD []).head? with
        | some lead => mayFollow phase lead hand
        | none => fun _ => true
    offerCards hand allowed .trick

/-- Whoever is in the hand with chips can check or bet, or answer a bet. -/
def offerBetting (table : Table) (seat : Int) (phase : BettingPhase) :
    List Choice :=
  let player := table.player seat
  if player.folded || player.allIn || player.chips ≤ 0 then
    []
  else
    let owed := table.bet - player.bet
    if owed ≤ 0 then
      [.bet .check,
        .bet (if player.chips ≥ phase.minBet then .bet else .allIn)]
    else
      [.bet (if player.chips ≥ owed then .call else .allIn)]
        ++ (if player.chips ≥ owed + phase.minBet
              ∧ table.raises < phase.maxRaises then
            [.bet .raise]
          else
            [])
        ++ [.bet .fold]

/-- A pending claim of someone else must be answered before a card is laid. -/
def offerClaim (table : Table) (seat : Int) : List Choice :=
  if table.claim.pending && table.claim.claimant ≠ seat then
    [.challenge, .accept]
  else
    offerCards (table.hand seat) (fun _ => true) .claim

def hasBid (table : Table) (seat : Int) : Bool :=
  (table.player seat).bid ≥ 0

/-- Every bid of the range is on offer, as far as there is room, and then a nil
bid, which is a bid of zero that the range does not hold. -/
def offerBids (table : Table) (seat : Int) (phase : BiddingPhase) :
    List Choice :=
  if table.hasBid seat then
    []
  else
    let count := min (phase.maxBid - phase.minBid + 1).toNat maxMoves
    let bids := (List.range count).map fun (place : Nat) =>
      Choice.bid (phase.minBid + place)
    bids ++
      (if phase.allowNil ∧ phase.minBid > 0 ∧ count < maxMoves then
        [.bid 0]
      else
        [])

/-! ### All offers -/

/-- What a participant can choose from in a phase of the turn structure. -/
def offers (table : Table) (program : Program) (seat : Int) (index : Int)
    (phase : Phase) : List Choice :=
  match phase with
  | .draw phase => table.offerDraw program seat phase
  | .play phase => table.offerPlay program seat (table.stepIn seat index) phase
  | .discard phase => table.offerDiscard seat (table.stepIn seat index) phase
  | .trick phase => table.offerTrick seat phase
  | .betting phase => table.offerBetting seat phase
  | .claim _ => table.offerClaim seat
  | .bidding phase => table.offerBids seat phase

/-- The moves that a participant can make in the phase at a place of the turn
structure. -/
def movesFor (table : Table) (program : Program) (seat : Int) (index : Int) :
    List Move :=
  match program.phase? index with
  | none => []
  | some phase => (table.offers program seat index phase).map (⟨index, ·⟩)

/-- The moves that the active participant can make now. -/
def moves (table : Table) (program : Program) : List Move :=
  table.movesFor program table.active table.phase

/-! ### Passing without an offer -/

/-- Whether a participant can leave a phase without a move. -/
def mayPass (table : Table) (seat : Int) : Phase → Bool
  | .draw _ => true
  | .play phase => phase.passIfUnable || (table.hand seat).isEmpty
  | .discard _ | .claim _ => (table.hand seat).isEmpty
  | .trick _ => (table.hand seat).isEmpty || table.trick.contains seat
  | .betting _ =>
      let player := table.player seat
      player.folded || player.allIn || player.chips ≤ 0
  | .bidding _ => table.hasBid seat

/-- Whether a participant can pass the phase at a place of the turn
structure. -/
def canPassAt (table : Table) (program : Program) (seat : Int)
    (index : Int) : Bool :=
  (program.phase? index).any (table.mayPass seat)

/-- Whether the active participant can pass now. -/
def canPass (table : Table) (program : Program) : Bool :=
  table.canPassAt program table.active table.phase

end Croupier.Table
