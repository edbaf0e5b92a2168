/-
What a participant can see of a table, and that offers show nothing else.

Cards in the deck and in the hands of others are seen from behind, so only their number shows. A
claim shows who laid a card and whether it can be challenged, but neither the card nor the rank
that it stands for. What a participant may choose from is the same at a table and at what can be
seen of it, hence at any two tables that look alike.
-/

import Croupier.Proofs.Play.Playable

namespace Croupier

/-! ### How high piles are -/

theorem length_getD_eq (pile : Option (List Card)) :
    (pile.getD []).length = (pile.map List.length).getD 0 := by
  cases pile <;> rfl

theorem any_nonempty_eq (pile : Option (List Card)) :
    pile.any (fun cards => !cards.isEmpty) = (pile.map List.length).any (0 < ·) := by
  cases pile with
  | none => rfl
  | some cards => cases cards <;> rfl

/-! ### Cards from behind -/

/-- Cards seen from behind. -/
def faceDown (cards : List Card) : List Card :=
  cards.map fun _ => {}

@[simp]
theorem length_faceDown (cards : List Card) : (faceDown cards).length = cards.length :=
  List.length_map _

/-- A participant from behind. -/
def Player.cover (player : Player) : Player :=
  { player with hand := faceDown player.hand }

/-- A claim without what only its claimant knows. -/
def Claim.cover (claim : Claim) : Claim :=
  { claim with rank := .rank .two, card := {} }

namespace Table

variable {table : Table} {program : Program} {seat : Int}

/-! ### Views -/

/-- The table with the deck and the hands of all participants but one face down. -/
def coverHidden (table : Table) (seat : Int) : Table :=
  { table with
    deck := faceDown table.deck
    players := table.players.zipIdx.map fun (player, place) =>
      if place = seat then player else player.cover }

/-- What a participant sees of the table. -/
def seenBy (table : Table) (seat : Int) : Table :=
  { table.coverHidden seat with
    claim := table.claim.cover
    generator := default }

theorem seats_coverHidden (table : Table) (seat : Int) :
    (table.coverHidden seat).seats = table.seats := by
  unfold seats coverHidden
  rw [List.length_map, List.length_zipIdx]

theorem seats_seenBy (table : Table) (seat : Int) : (table.seenBy seat).seats = table.seats :=
  seats_coverHidden table seat

theorem player_seenBy (table : Table) (seat other : Int) :
    (table.seenBy seat).player other =
      if other = seat then table.player other else (table.player other).cover := by
  unfold player
  by_cases negative : other < 0
  · simp only [if_pos negative]
    split <;> rfl
  · simp only [if_neg negative]
    have place : ((other.toNat : Nat) : Int) = other := by omega
    change (table.players.zipIdx.map _).getD other.toNat _ = _
    simp only [List.getD_eq_getElem?_getD, List.getElem?_map, List.getElem?_zipIdx, zero_add]
    cases table.players[other.toNat]? with
    | none => split <;> rfl
    | some player =>
        change (if ((other.toNat : Nat) : Int) = seat then player else player.cover) = _
        rw [place]
        rfl

/-- Everyone sees their own cards. -/
theorem player_seenBy_self (table : Table) (seat : Int) :
    (table.seenBy seat).player seat = table.player seat := by
  rw [player_seenBy, if_pos rfl]

theorem hand_seenBy_self (table : Table) (seat : Int) :
    (table.seenBy seat).hand seat = table.hand seat :=
  congrArg Player.hand (player_seenBy_self table seat)

/-- Everyone sees how many cards the others hold. -/
theorem length_hand_seenBy (table : Table) (seat other : Int) :
    ((table.seenBy seat).hand other).length = (table.hand other).length := by
  unfold hand
  rw [player_seenBy]
  split
  · rfl
  · exact length_faceDown _

theorem nextSeat_seenBy (table : Table) (seat other : Int) :
    (table.seenBy seat).nextSeat other = table.nextSeat other := by
  unfold nextSeat seatAfter
  rw [seats_seenBy]
  rfl

/-- Everyone sees how high the piles are. -/
theorem length_pile?_seenBy (table : Table) (seat : Int) (location : Location) :
    ((table.seenBy seat).pile? seat location).map List.length =
      (table.pile? seat location).map List.length := by
  cases location with
  | deck => exact congrArg some (length_faceDown table.deck)
  | hand => exact congrArg some (length_hand_seenBy table seat seat)
  | opponentHand =>
      have there := length_hand_seenBy table seat (table.nextSeat seat)
      rw [← nextSeat_seenBy table seat seat] at there
      refine congrArg some (there.trans ?_)
      rw [nextSeat_seenBy]
  | discard | tableau | unknown => rfl

theorem length_pileAt_seenBy (table : Table) (seat : Int) (location : Location) :
    (((table.seenBy seat).pile? seat location).getD []).length =
      ((table.pile? seat location).getD []).length := by
  rw [length_getD_eq, length_getD_eq, length_pile?_seenBy]

/-- Everyone sees whether there is anything to draw. -/
theorem any_pile?_seenBy (table : Table) (seat : Int) (location : Location) :
    ((table.seenBy seat).pile? seat location).any (fun pile => !pile.isEmpty) =
      (table.pile? seat location).any fun pile => !pile.isEmpty := by
  rw [any_nonempty_eq, any_nonempty_eq, length_pile?_seenBy]

/-! ### Conditions -/

theorem holdsApart_seenBy (table : Table) (program : Program) (seat : Int)
    (condition : Condition) (candidate : Option Card) :
    (table.seenBy seat).holdsApart program seat condition candidate =
      table.holdsApart program seat condition candidate := by
  have player := player_seenBy_self table seat
  have owed : (table.seenBy seat).owed seat = table.owed seat := by
    unfold Table.owed
    rw [player]
    rfl
  unfold holdsApart
  rw [player, owed]
  cases condition.kind with
  | locationSize =>
      dsimp only
      split
      · rfl
      · rw [length_pileAt_seenBy]
  | _ => rfl

theorem holds_seenBy (table : Table) (program : Program) (seat : Int) (condition : Condition)
    (candidate : Option Card) :
    (table.seenBy seat).holds program seat condition candidate =
      table.holds program seat condition candidate :=
  holds_congr (holdsApart_seenBy table program seat) (.of_eq (hand_seenBy_self table seat))
    condition candidate

theorem mayPlay_seenBy (table : Table) (program : Program) (seat : Int) (phase : PlayPhase) :
    (table.seenBy seat).mayPlay program seat phase = table.mayPlay program seat phase :=
  mayPlay_congr (holdsApart_seenBy table program seat) (.of_eq (hand_seenBy_self table seat)) phase

/-! ### Offers -/

theorem offers_seenBy (table : Table) (program : Program) (seat index : Int) (phase : Phase) :
    (table.seenBy seat).offers program seat index phase =
      table.offers program seat index phase := by
  have player := player_seenBy_self table seat
  have hand := hand_seenBy_self table seat
  cases phase with
  | draw phase =>
      change offerDraw _ program seat phase = offerDraw _ program seat phase
      unfold offerDraw
      simp only [holds_seenBy, any_pile?_seenBy]
  | play phase =>
      change offerPlay _ program seat (table.stepIn seat index) phase =
        offerPlay _ program seat _ phase
      unfold offerPlay
      rw [hand, mayPlay_seenBy]
  | discard phase =>
      change offerDiscard _ seat (table.stepIn seat index) phase = offerDiscard _ seat _ phase
      unfold offerDiscard
      rw [hand]
  | trick phase =>
      change offerTrick _ seat phase = offerTrick _ seat phase
      unfold offerTrick
      rw [hand]
      rfl
  | betting phase =>
      change offerBetting _ seat phase = offerBetting _ seat phase
      unfold offerBetting
      rw [player]
      rfl
  | claim phase =>
      change offerClaim _ seat = offerClaim _ seat
      unfold offerClaim
      rw [hand]
      rfl
  | bidding phase =>
      change offerBids _ seat phase = offerBids _ seat phase
      unfold offerBids hasBid
      rw [player]

theorem movesFor_seenBy (table : Table) (program : Program) (seat index : Int) :
    (table.seenBy seat).movesFor program seat index = table.movesFor program seat index := by
  unfold movesFor
  simp only [offers_seenBy]

theorem mayPass_seenBy (table : Table) (seat : Int) :
    (table.seenBy seat).mayPass seat = table.mayPass seat := by
  funext phase
  unfold mayPass hasBid
  rw [player_seenBy_self, hand_seenBy_self]
  rfl

theorem canPassAt_seenBy (table : Table) (program : Program) (seat index : Int) :
    (table.seenBy seat).canPassAt program seat index = table.canPassAt program seat index := by
  unfold canPassAt
  rw [mayPass_seenBy]

/-- Two tables that look alike to a participant offer the same moves in the same order, in every
phase, and can be passed alike. -/
theorem options_of_sameView {left right : Table} (program : Program) {seat : Int}
    (alike : left.seenBy seat = right.seenBy seat) (index : Int) :
    left.movesFor program seat index = right.movesFor program seat index ∧
      left.canPassAt program seat index = right.canPassAt program seat index := by
  constructor
  · rw [← movesFor_seenBy left, alike, movesFor_seenBy]
  · rw [← canPassAt_seenBy left, alike, canPassAt_seenBy]

end Table

/-- A game in which a card that fits the discard pile is played as long as the next participant
holds two cards, and a card is then claimed with. -/
def matchThenClaim : Program where
  phases :=
    [.play { conditions := { conditions :=
      [{ kind := .matchesRank, reference := 1 },
        { kind := .locationSize, reference := 4, value := 2 }] } },
      .claim {}]

/-- Two cards in each hand, one in the deck and a claimed one on the discard pile, where the first
participant sees none but the own two. -/
def Table.claimedAgainst (held : List Card) (drawn claimed : Card) (rank : RankWord) : Table where
  players := [{ hand := [⟨.five, .clubs⟩, ⟨.nine, .clubs⟩] }, { hand := held }]
  deck := [drawn]
  discard := [⟨.nine, .spades⟩]
  claim := { pending := true, claimant := 1, rank := rank, card := claimed }

theorem Table.options_of_sameView_matchThenClaim :
    let left := claimedAgainst [⟨.two, .hearts⟩, ⟨.ace, .hearts⟩] ⟨.ten, .spades⟩
      ⟨.nine, .spades⟩ (.rank .four)
    let right := claimedAgainst [⟨.nine, .hearts⟩, ⟨.ten, .spades⟩] ⟨.six, .hearts⟩
      ⟨.seven, .spades⟩ (.rank .nine)
    left ≠ right ∧ left.seenBy 0 = right.seenBy 0 ∧
      left.movesFor matchThenClaim 0 0 = [⟨0, .play 1 .discard⟩] ∧
      right.movesFor matchThenClaim 0 0 = [⟨0, .play 1 .discard⟩] ∧
      left.movesFor matchThenClaim 0 1 = right.movesFor matchThenClaim 0 1 ∧
      left.canPassAt matchThenClaim 0 1 = right.canPassAt matchThenClaim 0 1 := by
  intro left right
  have alike : left.seenBy 0 = right.seenBy 0 := rfl
  obtain ⟨played, _⟩ := options_of_sameView matchThenClaim alike 0
  obtain ⟨claimed, passed⟩ := options_of_sameView matchThenClaim alike 1
  have offered : left.movesFor matchThenClaim 0 0 = [⟨0, .play 1 .discard⟩] := by decide
  exact ⟨by decide, alike, offered, played ▸ offered, claimed, passed⟩

end Croupier
