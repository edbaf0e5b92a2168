/-
What a picture of the table keeps.

The hidden cards are collected pile by pile, shuffled, and dealt back pile by pile in the same
order, as many to each pile as were taken from it. So a picture differs from the table in which of
the hidden cards lie where, and in nothing else but its random source.
-/

import Croupier.Proofs.Play.Deal
import Croupier.Strategy.Imagine

namespace Croupier.Table

variable {table : Table} {seat : Int} {cards : List Card}

/-! ### The hands of the others -/

/-- The hands of all players but one, whose seats are counted from a given one. -/
def handsBut (keeper : Int) (players : List Player) (first : Nat) : List (List Card) :=
  ((players.zipIdx first).filter fun entry => (entry.2 : Int) ≠ keeper).map fun entry =>
    entry.1.hand

theorem handsBut_cons_self {keeper : Int} {first : Nat} (own : (first : Int) = keeper)
    (player : Player) (rest : List Player) :
    handsBut keeper (player :: rest) first = handsBut keeper rest (first + 1) := by
  unfold handsBut
  rw [List.zipIdx_cons, List.filter_cons_of_neg (by simpa using own)]

theorem handsBut_cons_of_ne {keeper : Int} {first : Nat} (other : (first : Int) ≠ keeper)
    (player : Player) (rest : List Player) :
    handsBut keeper (player :: rest) first =
      player.hand :: handsBut keeper rest (first + 1) := by
  unfold handsBut
  rw [List.zipIdx_cons, List.filter_cons_of_pos (by simpa using other), List.map_cons]

theorem otherHands_eq (table : Table) (seat : Int) :
    table.otherHands seat = handsBut seat table.players 0 := by
  have places : table.players.zipIdx.map Prod.snd = List.range table.players.length := by
    rw [List.zipIdx_map_snd, List.range_eq_range']
  unfold otherHands allSeats handsBut seats
  rw [← places, List.map_map, List.filter_map, List.map_map]
  refine List.map_congr_left fun entry member => ?_
  obtain ⟨player, place⟩ := entry
  obtain ⟨_, below, there⟩ := List.mem_zipIdx (List.mem_of_mem_filter member)
  change (table.player (place : Int)).hand = player.hand
  rw [player_natCast (by omega), there]
  rfl

theorem length_hiddenFrom (table : Table) (seat : Int) :
    (table.hiddenFrom seat).length =
      table.deck.length + (handsBut seat table.players 0).flatten.length := by
  unfold hiddenFrom
  rw [List.length_append, otherHands_eq]

/-! ### Refilling -/

@[simp]
theorem length_refillHands (keeper : Int) (players : List Player) (first : Int)
    (cards : List Card) : (refillHands keeper players first cards).length = players.length := by
  induction players generalizing first cards with
  | nil => rfl
  | cons player rest ih =>
      unfold refillHands
      split
      · exact congrArg (· + 1) (ih _ cards)
      · exact congrArg (· + 1) (ih _ _)

/-- All cards that are given out arrive in the hands, in their order. -/
theorem flatten_handsBut_refillHands (keeper : Int) (players : List Player) (first : Nat)
    (cards : List Card) (whole : cards.length = (handsBut keeper players first).flatten.length) :
    (handsBut keeper (refillHands keeper players first cards) first).flatten = cards := by
  induction players generalizing first cards with
  | nil => exact (List.eq_nil_of_length_eq_zero whole).symm
  | cons player rest ih =>
      unfold refillHands
      by_cases own : (first : Int) = keeper
      · rw [handsBut_cons_self own] at whole
        rw [if_pos own, handsBut_cons_self own]
        exact ih (first + 1) cards whole
      · rw [handsBut_cons_of_ne own, List.flatten_cons, List.length_append] at whole
        rw [if_neg own, handsBut_cons_of_ne own, List.flatten_cons]
        have behind := ih (first + 1) (cards.drop player.hand.length)
          (by rw [List.length_drop]; omega)
        push_cast at behind
        rw [behind]
        exact List.take_append_drop _ cards

/-- A player at a seat before and after refilling: the hand keeps its size, and the keeper the hand
itself. -/
structure Refilled (keeper seat : Int) (before after : Player) : Prop where
  kept : seat = keeper → after = before
  same : after = { before with hand := after.hand }
  size : after.hand.length = before.hand.length

theorem Refilled.refl (keeper seat : Int) (player : Player) :
    Refilled keeper seat player player :=
  ⟨fun _ => rfl, rfl, rfl⟩

theorem refilled_refillHands (keeper : Int) (players : List Player) (first : Nat)
    (cards : List Card) (enough : (handsBut keeper players first).flatten.length ≤ cards.length)
    {place : Nat} {before : Player} (there : players[place]? = some before) :
    ∃ after, (refillHands keeper players first cards)[place]? = some after ∧
      Refilled keeper (first + place) before after := by
  induction players generalizing first cards place with
  | nil => cases there
  | cons player rest ih =>
      unfold refillHands
      by_cases own : (first : Int) = keeper
      · rw [handsBut_cons_self own] at enough
        rw [if_pos own]
        cases place with
        | zero =>
            obtain rfl : player = before := Option.some.inj there
            exact ⟨player, rfl, .refl keeper _ player⟩
        | succ place =>
            have behind := ih (first + 1) cards enough there
            push_cast at behind ⊢
            rwa [Int.add_right_comm, Int.add_assoc] at behind
      · rw [handsBut_cons_of_ne own, List.flatten_cons, List.length_append] at enough
        rw [if_neg own]
        cases place with
        | zero =>
            obtain rfl : player = before := Option.some.inj there
            have size := List.length_take_of_le (i := player.hand.length) (l := cards) (by omega)
            exact ⟨_, rfl, fun here => absurd (by simpa using here) own, rfl, size⟩
        | succ place =>
            have behind := ih (first + 1) (cards.drop player.hand.length)
              (by rw [List.length_drop]; omega) there
            push_cast at behind ⊢
            rwa [Int.add_right_comm, Int.add_assoc] at behind

/-! ### Pictures -/

theorem length_deck_redistribute (table : Table) (seat : Int)
    (enough : cards.length = (table.hiddenFrom seat).length) :
    (table.redistribute seat cards).deck.length = table.deck.length := by
  rw [length_hiddenFrom] at enough
  exact List.length_take_of_le (by omega)

theorem player_redistribute (table : Table) (seat other : Int)
    (enough : cards.length = (table.hiddenFrom seat).length) :
    Refilled seat other (table.player other) ((table.redistribute seat cards).player other) := by
  unfold player
  by_cases negative : other < 0
  · rw [if_pos negative, if_pos negative]
    exact .refl seat other {}
  · rw [if_neg negative, if_neg negative, List.getD_eq_getElem?_getD,
      List.getD_eq_getElem?_getD]
    unfold redistribute
    dsimp only
    cases there : table.players[other.toNat]? with
    | none =>
        have outside := List.getElem?_eq_none_iff.mp there
        rw [List.getElem?_eq_none (by rwa [length_refillHands])]
        exact .refl seat other {}
    | some before =>
        rw [length_hiddenFrom] at enough
        have remaining : (handsBut seat table.players 0).flatten.length ≤
            (cards.drop table.deck.length).length := by
          rw [List.length_drop]
          omega
        obtain ⟨after, found, refilled⟩ :=
          refilled_refillHands seat table.players 0 _ remaining there
        have place : ((0 : Nat) : Int) + (other.toNat : Int) = other := by omega
        rw [place] at refilled
        have arrived : (refillHands seat table.players 0
            (cards.drop table.deck.length))[other.toNat]? = some after := found
        rw [arrived]
        exact refilled

theorem hiddenFrom_redistribute (table : Table) (seat : Int)
    (enough : cards.length = (table.hiddenFrom seat).length) :
    (table.redistribute seat cards).hiddenFrom seat = cards := by
  rw [length_hiddenFrom] at enough
  have hands := flatten_handsBut_refillHands seat table.players 0
    (cards.drop table.deck.length) (by rw [List.length_drop]; omega)
  unfold hiddenFrom
  rw [otherHands_eq]
  change cards.take table.deck.length ++ (handsBut seat (refillHands seat table.players
    ((0 : Nat) : Int) (cards.drop table.deck.length)) 0).flatten = cards
  rw [hands]
  exact List.take_append_drop _ cards

/-- Whatever the table, the participant and the generator, a picture is the table in everything but
its generator, its deck and the hands of the others. The deck and every hand keep their size, and
deck and other hands together hold the same cards. -/
theorem imagine_keeps (table : Table) (seat : Int) (generator : Generator) :
    let picture := (table.imagine seat generator).1
    picture = { table with
        deck := picture.deck
        players := picture.players
        generator := picture.generator } ∧
      picture.seats = table.seats ∧ picture.player seat = table.player seat ∧
      (∀ other, picture.player other =
        { table.player other with hand := picture.hand other }) ∧
      picture.deck.length = table.deck.length ∧
      (∀ other, (picture.hand other).length = (table.hand other).length) ∧
      (picture.deck ++ (picture.otherHands seat).flatten).Perm
        (table.deck ++ (table.otherHands seat).flatten) := by
  have shuffled := generator.next.2.shuffle_perm (table.hiddenFrom seat)
  have enough := shuffled.length_eq
  have refilled (other : Int) := table.player_redistribute seat other enough
  intro picture
  have deck := table.length_deck_redistribute seat enough
  refine ⟨rfl, length_refillHands seat table.players 0 _, (refilled seat).kept rfl,
    fun other => (refilled other).same, deck, fun other => (refilled other).size, ?_⟩
  have collected : picture.hiddenFrom seat = _ := table.hiddenFrom_redistribute seat enough
  change (picture.hiddenFrom seat).Perm (table.hiddenFrom seat)
  rw [collected]
  exact shuffled

end Croupier.Table
