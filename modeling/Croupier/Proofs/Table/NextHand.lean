/-
What a new hand takes from the one before.

All cards are gathered and sorted before they are shuffled, so the new deal depends on which cards
there are and on the random source, and no more on where the cards lay. Everything that belongs to
a single hand begins afresh; scores, chips, teams and the counters of the game stay.
-/

import Croupier.Proofs.Hand.Order
import Croupier.Proofs.Play.Deal

namespace Croupier

namespace Table

variable {left right : Table} {program : Program}

/-! ### Participants -/

/-- What all participants together show, each of them shows. -/
theorem view_player_eq {α : Type} {view : Player → α}
    (same : left.players.map view = right.players.map view) (seat : Int) :
    view (left.player seat) = view (right.player seat) := by
  unfold player
  by_cases negative : seat < 0
  · rw [if_pos negative, if_pos negative]
  · have there := congrArg (fun views : List α => views[seat.toNat]?.getD (view {})) same
    rw [List.getElem?_map, List.getElem?_map] at there
    rw [if_neg negative, if_neg negative, List.getD_eq_getElem?_getD, List.getD_eq_getElem?_getD]
    cases own : left.players[seat.toNat]? <;> cases other : right.players[seat.toNat]? <;>
      rw [own, other] at there <;> exact there

/-! ### The deal -/

/-- What a deal changes: the deck, the discard pile and the hands, in seat order. -/
def piles (table : Table) : List Card × List Card × List (List Card) :=
  (table.deck, table.discard, table.players.map Player.hand)

theorem hands_deal (table : Table) (program : Program) :
    (table.deal program).players.map Player.hand =
      (table.players.map Player.hand).zipIdx.map fun (hand, seat) =>
        hand ++ everyNth table.seats seat
          (table.deck.reverse.take (share program table * table.seats)) := by
  unfold deal
  dsimp only
  rw [List.zipIdx_map, List.map_map, List.map_map]
  rfl

/-- A deal goes by the piles alone. -/
theorem piles_deal (same : left.piles = right.piles) :
    (left.deal program).piles = (right.deal program).piles := by
  obtain ⟨deck, rest⟩ := Prod.mk.inj same
  obtain ⟨discard, hands⟩ := Prod.mk.inj rest
  have seats : left.seats = right.seats := by
    have lengths := congrArg List.length hands
    rwa [List.length_map, List.length_map] at lengths
  have share : share program left = share program right := by
    unfold Table.share
    rw [deck, seats]
  unfold piles
  rw [hands_deal, hands_deal]
  unfold deal
  dsimp only
  rw [deck, discard, hands, seats, share]

/-! ### The next hand -/

/-- All cards as a deck, with no card anywhere else but in the tableau piles that are yet to be
cleared. -/
theorem piles_gathered (table : Table) :
    table.gathered.piles =
      (table.cards.mergeSort Card.atMost, [], List.replicate table.seats []) := by
  unfold gathered piles
  dsimp only
  rw [List.map_map]
  exact congrArg (fun hands => (_, _, hands)) List.map_const'

theorem shuffled_eq (seats : left.seats = right.seats)
    (generator : left.generator = right.generator) (cards : left.cards.Perm right.cards) :
    left.gathered.shuffleDeck.piles = right.gathered.shuffleDeck.piles ∧
      left.gathered.shuffleDeck.generator = right.gathered.shuffleDeck.generator := by
  have gathered : left.gathered.piles = right.gathered.piles := by
    rw [piles_gathered, piles_gathered, Card.mergeSort_eq_of_perm cards, seats]
  have deck : left.gathered.deck = right.gathered.deck := congrArg Prod.fst gathered
  have source : left.gathered.generator = right.gathered.generator := generator
  constructor
  · unfold shuffleDeck
    rw [deck, source]
    exact congrArg
      (fun piles => ((right.gathered.generator.shuffle right.gathered.deck).1, piles.2)) gathered
  · unfold shuffleDeck
    rw [deck, source]

theorem seats_nextHand (table : Table) (program : Program) :
    (table.nextHand program).seats = table.seats := by
  change ((table.players.map Player.betweenHands).zipIdx.map _).length = table.players.length
  rw [List.length_map, List.length_zipIdx, List.length_map]

theorem exists_getElem?_nextHand (table : Table) (program : Program) (place : Nat) :
    ∃ hand, (table.nextHand program).players[place]? =
      table.players[place]?.map fun player => { Player.betweenHands player with hand := hand } := by
  have dealt : (table.nextHand program).players =
      (table.players.map Player.betweenHands).zipIdx.map fun entry =>
        { entry.1 with
          hand := entry.1.hand ++ everyNth table.gathered.shuffleDeck.seats entry.2
            (table.gathered.shuffleDeck.deck.reverse.take
              (share program table.gathered.shuffleDeck * table.gathered.shuffleDeck.seats)) } :=
    rfl
  rw [dealt, List.getElem?_map, List.getElem?_zipIdx, List.getElem?_map]
  cases table.players[place]? with
  | none => exact ⟨[], rfl⟩
  | some player => exact ⟨_, rfl⟩

/-- A participant keeps score, chips, bags and team. -/
theorem player_nextHand (table : Table) (program : Program) (seat : Int) :
    (table.nextHand program).player seat =
      { table.player seat with
        hand := (table.nextHand program).hand seat
        bet := 0, folded := false, allIn := false, acted := false
        tricks := 0, bid := -1, nilBid := false } := by
  unfold hand player
  by_cases negative : seat < 0
  · simp only [if_pos negative]
  · obtain ⟨hand, found⟩ := table.exists_getElem?_nextHand program seat.toNat
    simp only [if_neg negative, List.getD_eq_getElem?_getD, found]
    cases table.players[seat.toNat]? <;> rfl

/-- Of two tables with as many players, the same random source and the same cards, wherever these
lie, the next hand is dealt alike. At any table it clears the tableau and all that belongs to a
single hand, passes the first turn on by a seat with each hand, and leaves the rest alone. -/
theorem nextHand_of_cards (program : Program) {left right : Table}
    (seats : left.seats = right.seats) (generator : left.generator = right.generator)
    (handNumber : left.handNumber = right.handNumber) (cards : left.cards.Perm right.cards) :
    ((left.nextHand program).deck = (right.nextHand program).deck ∧
        (left.nextHand program).discard = (right.nextHand program).discard ∧
        (∀ seat, (left.nextHand program).hand seat = (right.nextHand program).hand seat) ∧
        (left.nextHand program).generator = (right.nextHand program).generator ∧
        (left.nextHand program).active = (right.nextHand program).active) ∧
      ∀ table : Table, let next := table.nextHand program
        next = { table with
          players := next.players
          deck := next.deck
          discard := next.discard
          generator := next.generator
          tableau := List.replicate table.tableau.length []
          active := (table.handNumber + 1).tmod table.seats
          handNumber := table.handNumber + 1
          direction := 1, skips := 0, phase := 0, step := 0
          pot := 0, bet := 0, raises := 0, showdownResolved := false
          battleSeats := [], battleCards := [], trick := [], suitBroken := false
          claim := {}, handOver := false } ∧
        next.seats = table.seats ∧
        ∀ seat, next.player seat =
          { table.player seat with
            hand := next.hand seat
            bet := 0, folded := false, allIn := false, acted := false
            tricks := 0, bid := -1, nilBid := false } := by
  obtain ⟨gathered, source⟩ := shuffled_eq seats generator cards
  have dealt : (left.gathered.shuffleDeck.deal program).piles =
      (right.gathered.shuffleDeck.deal program).piles := piles_deal gathered
  obtain ⟨deck, rest⟩ := Prod.mk.inj dealt
  obtain ⟨discard, hands⟩ := Prod.mk.inj rest
  have active : (left.nextHand program).active = (right.nextHand program).active := by
    change (left.handNumber + 1).tmod (left.nextHand program).seats =
      (right.handNumber + 1).tmod (right.nextHand program).seats
    rw [seats_nextHand, seats_nextHand, handNumber, seats]
  refine ⟨⟨deck, discard, view_player_eq hands, source, active⟩, fun table => ⟨?_,
    seats_nextHand table program, player_nextHand table program⟩⟩
  have cleared : table.tableau.map (fun _ => ([] : List Card)) =
      List.replicate table.tableau.length [] := List.map_const'
  rw [← cleared, ← seats_nextHand table program]
  rfl

/-- Where the cards lie before makes no difference. -/
theorem nextHand_of_cards_gatheredTrick :
    let left : Table :=
      { players := [{ hand := [⟨.two, .clubs⟩], bid := 1 }, { tricks := 1 }]
        deck := [⟨.nine, .hearts⟩], tableau := [[⟨.ace, .spades⟩]], trick := [1] }
    let right : Table :=
      { players := [{ hand := [⟨.ace, .spades⟩], score := 3 }, { hand := [⟨.nine, .hearts⟩] }]
        discard := [⟨.two, .clubs⟩], direction := -1 }
    left.cards.Perm right.cards ∧
      (left.nextHand (shortGame [.bidding {}, .trick {}])).hand 0 =
        (right.nextHand (shortGame [.bidding {}, .trick {}])).hand 0 := by
  intro left right
  have cards : left.cards.Perm right.cards := by decide
  obtain ⟨⟨_, _, hands, _⟩, _⟩ :=
    @nextHand_of_cards (shortGame [.bidding {}, .trick {}]) left right rfl rfl rfl cards
  exact ⟨cards, hands 0⟩

end Table

end Croupier
