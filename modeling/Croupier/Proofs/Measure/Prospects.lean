/-
Prospects do not go by the order of a hand.

A prospect names a card itself and not its place, and prospects are listed in one order. What a
participant may choose from depends on the hand as a collection of cards: on how many there are, on
sets, runs and pairs, and on whether some card or every card is of a kind. So two tables at which
everyone holds the same cards, in whatever order, give everyone the same prospects.
-/

import Croupier.Measure.Interaction
import Croupier.Proofs.Hand.Order
import Croupier.Proofs.Play.Offers
import Croupier.Proofs.Play.View

namespace Croupier

/-! ### The order of prospects -/

namespace Prospect

theorem keyAtMost_cons {left right : Int} {lefts rights : List Int} :
    keyAtMost (left :: lefts) (right :: rights) = true ↔
      left < right ∨ left = right ∧ keyAtMost lefts rights = true := by
  simp [keyAtMost]

theorem keyAtMost_trans {first second third : List Int} (lower : keyAtMost first second = true)
    (upper : keyAtMost second third = true) : keyAtMost first third = true := by
  induction first generalizing second third with
  | nil => rfl
  | cons left lefts ih =>
      match second, third with
      | [], _ => cases lower
      | _ :: _, [] => cases upper
      | middle :: middles, right :: rights =>
          rw [keyAtMost_cons] at lower upper ⊢
          rcases lower with below | ⟨rfl, lower⟩
          · exact .inl (by omega)
          · exact upper.imp_right fun upper => ⟨upper.1, ih lower upper.2⟩

theorem keyAtMost_total (left right : List Int) :
    keyAtMost left right = true ∨ keyAtMost right left = true := by
  induction left generalizing right with
  | nil => exact .inl rfl
  | cons first firsts ih =>
      cases right with
      | nil => exact .inr rfl
      | cons second seconds =>
          rw [keyAtMost_cons, keyAtMost_cons]
          have rest := ih seconds
          rcases Int.lt_trichotomy first second with below | same | above
          · exact .inl (.inl below)
          · exact rest.imp (fun rest => .inr ⟨same, rest⟩) fun rest => .inr ⟨same.symm, rest⟩
          · exact .inr (.inl above)

theorem keyAtMost_antisymm {left right : List Int} (lower : keyAtMost left right = true)
    (upper : keyAtMost right left = true) : left = right := by
  induction left generalizing right with
  | nil =>
      cases right with
      | nil => rfl
      | cons => cases upper
  | cons first firsts ih =>
      cases right with
      | nil => cases lower
      | cons second seconds =>
          rw [keyAtMost_cons] at lower upper
          have same : first = second := by omega
          subst same
          have rest := ih (lower.resolve_left (Int.lt_irrefl _)).2
            (upper.resolve_left (Int.lt_irrefl _)).2
          rw [rest]

theorem key_injective {left right : Prospect} (same : left.key = right.key) : left = right := by
  obtain ⟨kind, action, location, bid, card⟩ := left
  obtain ⟨otherKind, otherAction, otherLocation, otherBid, otherCard⟩ := right
  simpa [key] using same

/-- There is one way to list prospects in order. -/
theorem mergeSort_eq_of_perm {left right : List Prospect} (same : left.Perm right) :
    left.mergeSort atMost = right.mergeSort atMost := by
  refine mergeSort_eq_of_antisymm ?_ ?_ ?_ same
  · intro first second third lower upper
    exact keyAtMost_trans lower upper
  · intro first second
    exact Bool.or_eq_true_iff.mpr (keyAtMost_total first.key second.key)
  · intro first second lower upper
    exact key_injective (keyAtMost_antisymm lower upper)

/-! ### Prospects of choices -/

/-- The prospect of a choice with a card of a given number. -/
def withCard (choice : Choice) (card : Int) : Prospect where
  kind := choice.code.toNat
  action := (Coded.code choice.action).toNat
  location := (Coded.code choice.location).toNat
  bid := choice.bidValue
  card := card

theorem ofChoice_of_card {hand : List Card} {choice : Choice} {place : Nat} {card : Card}
    (named : choice.card = place) (there : hand[place]? = some card) :
    ofChoice hand choice = withCard choice card.index := by
  unfold ofChoice withCard
  rw [named, Int.toNat_natCast, there, if_neg (by omega)]

/-- A choice that names no card is the same prospect with any hand. -/
theorem ofChoice_of_cardless {choice : Choice} (cardless : choice.card < 0) (hand : List Card) :
    ofChoice hand choice = withCard choice (-1) := by
  unfold ofChoice withCard
  rw [if_pos cardless]

/-- A way to choose a card by its place, in which nothing else depends on the place. -/
structure NamesCard (named : Int → Choice) : Prop where
  card : ∀ place, (named place).card = place
  rest : ∀ place card, withCard (named place) card = withCard (named 0) card

/-- What the offer of cards amounts to, card by card. -/
theorem map_offerCards {named : Int → Choice} (names : NamesCard named) (hand : List Card)
    (allowed : Card → Bool) :
    (Table.offerCards hand allowed named).map (ofChoice hand) =
      hand.filterMap fun card =>
        if allowed card then some (withCard (named 0) card.index) else none := by
  -- Both sides go through the cards with their places, of which only the left one makes use.
  have cards := List.zipIdx_map_fst 0 hand
  conv_rhs => rw [← cards, List.filterMap_map]
  unfold Table.offerCards
  rw [List.map_filterMap]
  apply List.filterMap_congr
  rintro ⟨card, place⟩ member
  have there := List.mem_zipIdx_iff_getElem?.mp member
  dsimp only [Function.comp_apply]
  split
  · rw [Option.map_some, ofChoice_of_card (names.card place) there, names.rest]
  · rfl

/-- Choices with two hands that come to the same prospects, in whatever order. -/
def Alike (hand other : List Card) (choices others : List Choice) : Prop :=
  (choices.map (ofChoice hand)).Perm (others.map (ofChoice other))

variable {hand other : List Card} {choices others : List Choice}

theorem Alike.append {further alsoFurther : List Choice}
    (first : Alike hand other choices others) (second : Alike hand other further alsoFurther) :
    Alike hand other (choices ++ further) (others ++ alsoFurther) := by
  unfold Alike
  rw [List.map_append, List.map_append]
  exact List.Perm.append first second

theorem alike_of_cardless (cardless : ∀ choice ∈ choices, choice.card < 0) :
    Alike hand other choices choices := by
  unfold Alike
  have same : choices.map (ofChoice hand) = choices.map (ofChoice other) := by
    refine List.map_congr_left fun choice member => ?_
    have none := cardless choice member
    rw [ofChoice_of_cardless none, ofChoice_of_cardless none]
  rw [same]

theorem alike_offerCards {named : Int → Choice} (names : NamesCard named)
    (order : hand.Perm other) (allowed : Card → Bool) :
    Alike hand other (Table.offerCards hand allowed named)
      (Table.offerCards other allowed named) := by
  unfold Alike
  rw [map_offerCards names, map_offerCards names]
  exact order.filterMap _

end Prospect

/-! ### Tables with the same hands -/

namespace Table

theorem Offered.card_neg {table : Table} {seat : Int} {phase : Phase} {choice : Choice}
    (offered : table.Offered seat phase choice)
    (apart : phase.kind = .draw ∨ phase.kind = .betting ∨ phase.kind = .bidding) :
    choice.card < 0 := by
  cases offered with
  | play | discard | trick | claim => simp [Phase.kind] at apart
  | draw | bet | challenge | accept | bid | pass => exact Int.negSucc_lt_zero 0

/-- Everyone holds the same cards at two tables, in whatever order, and nothing else differs. -/
def SameHands (left right : Table) : Prop :=
  ∃ players, right = { left with players } ∧
    List.Forall₂ (fun player other => ∃ hand, other = { player with hand } ∧
      hand.Perm player.hand) left.players players

variable {table left right : Table} {program : Program} {seat index : Int}

namespace SameHands

theorem seats (same : SameHands left right) : right.seats = left.seats := by
  obtain ⟨players, rfl, held⟩ := same
  exact held.length_eq.symm

theorem player (same : SameHands left right) (seat : Int) :
    ∃ hand, right.player seat = { left.player seat with hand } ∧ hand.Perm (left.hand seat) := by
  obtain ⟨players, rfl, held⟩ := same
  unfold Table.hand Table.player
  split
  · exact ⟨[], rfl, .refl _⟩
  · rw [List.getD_eq_getElem?_getD, List.getD_eq_getElem?_getD]
    by_cases inside : seat.toNat < left.players.length
    · have there : seat.toNat < players.length := held.length_eq ▸ inside
      obtain ⟨hand, own, order⟩ := List.forall₂_iff_get.mp held |>.2 seat.toNat inside there
      rw [List.getElem?_eq_getElem inside, List.getElem?_eq_getElem there]
      exact ⟨hand, own, order⟩
    · have beyond : players.length ≤ seat.toNat := held.length_eq ▸ Nat.le_of_not_lt inside
      rw [List.getElem?_eq_none (Nat.le_of_not_lt inside), List.getElem?_eq_none beyond]
      exact ⟨[], rfl, .refl _⟩

theorem hand_perm (same : SameHands left right) (seat : Int) :
    (right.hand seat).Perm (left.hand seat) := by
  obtain ⟨hand, own, order⟩ := same.player seat
  unfold Table.hand
  rw [own]
  exact order

theorem owed (same : SameHands left right) (seat : Int) : right.owed seat = left.owed seat := by
  obtain ⟨hand, own, _⟩ := same.player seat
  unfold Table.owed
  rw [own]
  obtain ⟨players, rfl, _⟩ := same
  rfl

theorem length_pile? (same : SameHands left right) (seat : Int) (location : Location) :
    (right.pile? seat location).map List.length = (left.pile? seat location).map List.length := by
  have next : right.nextSeat seat = left.nextSeat seat := by
    have taken := same.seats
    unfold nextSeat seatAfter
    rw [taken]
    obtain ⟨players, rfl, _⟩ := same
    rfl
  cases location with
  | hand => exact congrArg some (same.hand_perm seat).length_eq
  | opponentHand =>
      unfold pile?
      rw [next]
      exact congrArg some (same.hand_perm _).length_eq
  | deck | discard | tableau | unknown =>
      obtain ⟨players, rfl, _⟩ := same
      rfl

/-! ### Conditions -/

theorem holdsApart (same : SameHands left right) (condition : Condition)
    (candidate : Option Card) :
    right.holdsApart program seat condition candidate =
      left.holdsApart program seat condition candidate := by
  obtain ⟨hand, own, order⟩ := same.player seat
  have owed := same.owed seat
  have high (location : Location) : ((right.pile? seat location).getD []).length =
      ((left.pile? seat location).getD []).length := by
    rw [length_getD_eq, length_getD_eq, same.length_pile?]
  unfold Table.holdsApart
  rw [own, owed]
  cases condition.kind with
  | handSize =>
      dsimp only
      rw [order.length_eq]
      rfl
  | locationSize =>
      dsimp only
      split
      · rfl
      · rw [high]
  | setSize =>
      dsimp only
      rw [Hand.largestSet_of_perm order]
      rfl
  | runLength =>
      dsimp only
      rw [Hand.longestRun_of_perm order]
      rfl
  | matchingPair => exact Hand.hasMatchingPair_of_perm order
  | _ =>
      obtain ⟨players, rfl, _⟩ := same
      rfl

theorem holds (same : SameHands left right) (condition : Condition) (candidate : Option Card) :
    right.holds program seat condition candidate = left.holds program seat condition candidate :=
  holds_congr same.holdsApart (same.hand_perm seat) condition candidate

theorem mayPlay (same : SameHands left right) (phase : PlayPhase) :
    right.mayPlay program seat phase = left.mayPlay program seat phase :=
  mayPlay_congr same.holdsApart (same.hand_perm seat) phase

theorem mayLead (same : SameHands left right) (phase : TrickPhase) :
    right.mayLead phase (right.hand seat) = left.mayLead phase (left.hand seat) := by
  have order := same.hand_perm seat
  obtain ⟨players, rfl, _⟩ := same
  funext card
  unfold Table.mayLead
  simp only [order.all_eq]

theorem mayFollow (same : SameHands left right) (phase : TrickPhase) (lead : Card) :
    Table.mayFollow phase lead (right.hand seat) = Table.mayFollow phase lead (left.hand seat) := by
  funext card
  unfold Table.mayFollow
  rw [(same.hand_perm seat).all_eq]

/-! ### Offers -/

theorem stepIn (same : SameHands left right) :
    right.stepIn seat index = left.stepIn seat index := by
  obtain ⟨players, rfl, _⟩ := same
  rfl

theorem offerPlay (same : SameHands left right) (step : Int) (phase : PlayPhase) :
    Prospect.Alike (right.hand seat) (left.hand seat) (right.offerPlay program seat step phase)
      (left.offerPlay program seat step phase) := by
  have order := same.hand_perm seat
  unfold Table.offerPlay
  dsimp only
  rw [same.mayPlay, order.length_eq]
  apply Prospect.Alike.append
  · split
    · exact Prospect.alike_offerCards ⟨fun _ => rfl, fun _ _ => rfl⟩ order _
    · exact .refl _
  · split
    · exact .refl _
    · exact .refl _

theorem offerDiscard (same : SameHands left right) (step : Int) (phase : DiscardPhase) :
    Prospect.Alike (right.hand seat) (left.hand seat) (right.offerDiscard seat step phase)
      (left.offerDiscard seat step phase) := by
  unfold Table.offerDiscard
  apply Prospect.Alike.append
  · split
    · exact Prospect.alike_offerCards ⟨fun _ => rfl, fun _ _ => rfl⟩ (same.hand_perm seat) _
    · exact .refl _
  · split
    · exact .refl _
    · exact .refl _

theorem offerTrick (same : SameHands left right) (phase : TrickPhase) :
    Prospect.Alike (right.hand seat) (left.hand seat) (right.offerTrick seat phase)
      (left.offerTrick seat phase) := by
  have order := same.hand_perm seat
  have trick : right.trick = left.trick := by
    obtain ⟨players, rfl, _⟩ := same
    rfl
  have tableau : right.tableau = left.tableau := by
    obtain ⟨players, rfl, _⟩ := same
    rfl
  unfold Table.offerTrick
  dsimp only
  rw [trick, tableau, same.mayLead]
  simp only [same.mayFollow]
  split
  · exact .refl _
  · exact Prospect.alike_offerCards ⟨fun _ => rfl, fun _ _ => rfl⟩ order _

theorem offerClaim (same : SameHands left right) :
    Prospect.Alike (right.hand seat) (left.hand seat) (right.offerClaim seat)
      (left.offerClaim seat) := by
  have claim : right.claim = left.claim := by
    obtain ⟨players, rfl, _⟩ := same
    rfl
  unfold Table.offerClaim
  rw [claim]
  split
  · exact .refl _
  · exact Prospect.alike_offerCards ⟨fun _ => rfl, fun _ _ => rfl⟩ (same.hand_perm seat) _

theorem offerDraw (same : SameHands left right) (phase : DrawPhase) :
    right.offerDraw program seat phase = left.offerDraw program seat phase := by
  unfold Table.offerDraw
  simp only [same.holds, any_nonempty_eq, same.length_pile?]

theorem offerBetting (same : SameHands left right) (phase : BettingPhase) :
    right.offerBetting seat phase = left.offerBetting seat phase := by
  obtain ⟨hand, own, _⟩ := same.player seat
  unfold Table.offerBetting
  rw [own]
  obtain ⟨players, rfl, _⟩ := same
  rfl

theorem offerBids (same : SameHands left right) (phase : BiddingPhase) :
    right.offerBids seat phase = left.offerBids seat phase := by
  obtain ⟨hand, own, _⟩ := same.player seat
  unfold Table.offerBids hasBid
  rw [own]

/-- What is on offer in a phase comes to the same prospects. -/
theorem offers (same : SameHands left right) (phase : Phase) :
    Prospect.Alike (right.hand seat) (left.hand seat) (right.offers program seat index phase)
      (left.offers program seat index phase) := by
  -- Where no card is named, the offers themselves are the same.
  have cardless (apart : phase.kind = .draw ∨ phase.kind = .betting ∨ phase.kind = .bidding)
      (equal : right.offers program seat index phase = left.offers program seat index phase) :
      Prospect.Alike (right.hand seat) (left.hand seat) (right.offers program seat index phase)
        (left.offers program seat index phase) := by
    rw [equal]
    exact Prospect.alike_of_cardless fun choice member =>
      (offered_of_mem_offers member).card_neg apart
  cases phase with
  | draw phase => exact cardless (.inl rfl) (same.offerDraw phase)
  | play phase =>
      change Prospect.Alike _ _ (right.offerPlay program seat (right.stepIn seat index) phase) _
      rw [same.stepIn]
      exact same.offerPlay _ phase
  | discard phase =>
      change Prospect.Alike _ _ (right.offerDiscard seat (right.stepIn seat index) phase) _
      rw [same.stepIn]
      exact same.offerDiscard _ phase
  | trick phase => exact same.offerTrick phase
  | betting phase => exact cardless (.inr (.inl rfl)) (same.offerBetting phase)
  | claim phase => exact same.offerClaim
  | bidding phase => exact cardless (.inr (.inr rfl)) (same.offerBids phase)

theorem prospects (same : SameHands left right) :
    right.prospects program seat = left.prospects program seat := by
  unfold Table.prospects
  apply Prospect.mergeSort_eq_of_perm
  rw [List.map_flatMap, List.map_flatMap]
  exact List.Perm.flatMap_left _ fun entry _ => same.offers entry.1

end SameHands

/-- A table with one hand in another order. -/
theorem sameHands_modifyHand {hand : List Card} (order : hand.Perm (table.hand seat)) :
    SameHands table (table.modifyHand seat fun _ => hand) := by
  unfold modifyHand modifyPlayer
  split
  · refine ⟨table.players, rfl, ?_⟩
    exact List.forall₂_same.mpr fun player _ => ⟨player.hand, rfl, .refl _⟩
  · rename_i upright
    refine ⟨_, rfl, List.forall₂_iff_get.mpr ⟨(List.length_modify _ _ _).symm, ?_⟩⟩
    intro place inside _
    rw [List.get_eq_getElem, List.get_eq_getElem, List.getElem_modify]
    split
    · rename_i here
      subst here
      refine ⟨hand, rfl, order.trans ?_⟩
      unfold Table.hand player
      rw [if_neg upright, List.getD_eq_getElem _ _ inside]
    · exact ⟨table.players[place].hand, rfl, .refl _⟩

/-- Nobody's prospects go by the order of the cards in a hand, be it their own or that of somebody
else. -/
theorem prospects_reordered {hand : List Card} (order : hand.Perm (table.hand seat))
    (program : Program) (other : Int) :
    (table.modifyHand seat fun _ => hand).prospects program other = table.prospects program other :=
  (sameHands_modifyHand order).prospects

/-- The nine of clubs and the three of hearts can be played from either place. -/
theorem prospects_reordered_threeCards :
    let program : Program :=
      { phases :=
          [.play
            { conditions :=
                { quantifier := .any
                  conditions :=
                    [{ kind := .matchesRank, reference := 1 },
                      { kind := .matchesSuit, reference := 1 }] } }] }
    let table : Table :=
      { players := [{}, { hand := [⟨.nine, .clubs⟩, ⟨.three, .hearts⟩, ⟨.king, .diamonds⟩] }]
        discard := [⟨.nine, .hearts⟩] }
    let hand : List Card := [⟨.king, .diamonds⟩, ⟨.three, .hearts⟩, ⟨.nine, .clubs⟩]
    let other := table.modifyHand 1 fun _ => hand
    hand.Perm (table.hand 1) ∧
      table.movesFor program 1 0 = [⟨0, .play 0 .discard⟩, ⟨0, .play 1 .discard⟩] ∧
      other.movesFor program 1 0 = [⟨0, .play 1 .discard⟩, ⟨0, .play 2 .discard⟩] ∧
      other.prospects program 1 = table.prospects program 1 := by
  intro program table hand other
  have order : hand.Perm (table.hand 1) := List.reverse_perm (table.hand 1)
  exact ⟨order, by decide, by decide, prospects_reordered order program 1⟩

end Table

end Croupier
