/-
Which card of the shuffled deck goes where in the first deal.

Cards are dealt from the top, one to each seat in turn. So a seat gets every card whose place from
the top leaves its number when divided by the seats, as long as there are rounds and cards left; the
first discards follow, and the deck keeps what is below them.
-/

import Croupier.Proofs.Play.Run
import Croupier.Proofs.Table.NextHand

namespace Croupier.Table

variable {program : Program} {table : Table}

/-! ### Every so-manieth card -/

/-- A place that is less than a round ahead is the only one up to there with its remainder. -/
theorem mod_ne_of_wait {stride first wait : Nat} (short : wait + 1 < stride) :
    first % stride ≠ (first + (wait + 1)) % stride := by
  intro same
  have multiple := Nat.sub_mod_eq_zero_of_mod_eq same.symm
  rw [Nat.add_sub_cancel_left, Nat.mod_eq_of_lt short] at multiple
  omega

theorem getElem?_everyNth {stride start : Nat} (less : start < stride) (cards : List Card)
    (place : Nat) : (everyNth stride start cards)[place]? = cards[place * stride + start]? := by
  -- The cards are numbered from any place on, and the next one of the seat comes after a wait.
  have after (cards : List Card) : ∀ first wait place, wait < stride →
      (first + wait) % stride = start →
        ((cards.zipIdx first).filterMap fun entry =>
          if entry.2 % stride = start then some entry.1 else none)[place]? =
            cards[place * stride + wait]? := by
    induction cards with
    | nil => exact fun _ _ _ _ _ => rfl
    | cons card rest ih =>
        intro first wait place short due
        rw [List.zipIdx_cons, List.filterMap_cons]
        cases wait with
        | zero =>
            rw [Nat.add_zero] at due
            simp only [due, if_true]
            cases place with
            | zero => simp
            | succ place =>
                have again : (first + 1 + (stride - 1)) % stride = start := by
                  rw [show first + 1 + (stride - 1) = first + stride by omega,
                    Nat.add_mod_right, due]
                rw [List.getElem?_cons_succ, ih (first + 1) (stride - 1) place (by omega) again,
                  show (place + 1) * stride + 0 = place * stride + (stride - 1) + 1 by
                    rw [Nat.succ_mul]; omega,
                  List.getElem?_cons_succ]
        | succ wait =>
            have notYet : first % stride ≠ start := due ▸ mod_ne_of_wait short
            have later : (first + 1 + wait) % stride = start := by
              rw [← due]
              congr 1
              omega
            simp only [notYet, if_false]
            rw [ih (first + 1) wait place (by omega) later, ← Nat.add_assoc,
              List.getElem?_cons_succ]
  exact after cards 0 start place less (by rw [Nat.zero_add, Nat.mod_eq_of_lt less])

/-! ### Hands -/

/-- The place-th round comes to a seat before the cards of all rounds are gone if it is one of
them. -/
theorem mul_add_lt_mul_iff {seat seats place rounds : Nat} (seated : seat < seats) :
    place * seats + seat < rounds * seats ↔ place < rounds := by
  constructor
  · intro inside
    by_contra late
    have all := Nat.mul_le_mul_right seats (Nat.le_of_not_lt late)
    omega
  · intro early
    have next := Nat.mul_le_mul_right seats (Nat.succ_le_of_lt early)
    rw [Nat.succ_mul] at next
    omega

/-- A card by its place from the top. -/
theorem getElem?_reverse_eq (cards : List Card) (place : Nat) :
    cards.reverse[place]? =
      if place < cards.length then cards[cards.length - 1 - place]? else none := by
  split
  · rename_i inside
    exact List.getElem?_reverse inside
  · rename_i outside
    exact List.getElem?_eq_none (by rw [List.length_reverse]; omega)

theorem hand_deal (program : Program) {seat : Nat} (seated : seat < table.seats) :
    (table.deal program).hand seat =
      table.hand seat ++ everyNth table.seats seat
        (table.deck.reverse.take (share program table * table.seats)) := by
  have dealt := congrArg (fun hands : List (List Card) => hands[seat]?) (hands_deal table program)
  have there : table.players[seat]? = some table.players[seat] := List.getElem?_eq_getElem seated
  dsimp only at dealt
  rw [List.getElem?_map, List.getElem?_map, List.getElem?_zipIdx, List.getElem?_map, there] at dealt
  simp only [Option.map_some, Nat.zero_add] at dealt
  obtain ⟨player, found, hand⟩ := Option.map_eq_some_iff.mp dealt
  have after : (table.deal program).hand seat = player.hand := by
    unfold Table.hand Table.player
    rw [if_neg (by omega), Int.toNat_natCast, List.getD_eq_getElem?_getD, found]
    rfl
  have before : table.hand seat = table.players[seat].hand := by
    unfold Table.hand
    rw [player_natCast seated]
  rw [after, hand, before]

/-! ### The first deal -/

/-- A deal to empty hands, card by card. -/
theorem getElem?_hand_deal (program : Program) {seat : Nat} (seated : seat < table.seats)
    (empty : table.hand seat = []) (place : Nat) :
    ((table.deal program).hand seat)[place]? =
      if place < share program table ∧ place * table.seats + seat < table.deck.length then
        table.deck[table.deck.length - 1 - (place * table.seats + seat)]?
      else
        none := by
  rw [hand_deal program seated, empty, List.nil_append, getElem?_everyNth seated,
    List.getElem?_take, getElem?_reverse_eq]
  simp only [mul_add_lt_mul_iff seated, ite_and]

/-- Who holds a card of a round was dealt one in every round before, and so was everyone else. -/
theorem length_hand_deal_le (program : Program) {seat other : Nat} (seated : seat < table.seats)
    (otherSeated : other < table.seats) (empty : table.hand seat = [])
    (otherEmpty : table.hand other = []) :
    ((table.deal program).hand seat).length ≤ ((table.deal program).hand other).length + 1 := by
  by_contra longer
  have last := getElem?_hand_deal program seated empty
    (((table.deal program).hand other).length + 1)
  have missing := getElem?_hand_deal program otherSeated otherEmpty
    ((table.deal program).hand other).length
  rw [List.getElem?_eq_getElem (by omega)] at last
  rw [List.getElem?_eq_none (Nat.le_refl _)] at missing
  have dealt : ((table.deal program).hand other).length + 1 < share program table ∧
      (((table.deal program).hand other).length + 1) * table.seats + seat < table.deck.length := by
    by_contra never
    rw [if_neg never] at last
    cases last
  obtain ⟨round, inside⟩ := dealt
  rw [Nat.succ_mul] at inside
  have earlier : ((table.deal program).hand other).length * table.seats + other <
      table.deck.length := by
    omega
  rw [if_pos ⟨by omega, earlier⟩, List.getElem?_eq_getElem (by omega)] at missing
  cases missing

theorem hand_shuffled (program : Program) (seed : UInt64) (seat : Nat) :
    ((seated program seed).shuffleDeck).hand seat = [] := by
  change ((seated program seed).player seat).hand = []
  unfold player
  rw [if_neg (by omega), Int.toNat_natCast, List.getD_eq_getElem?_getD]
  change (((program.seatTeams.map (seatedPlayer program))[seat]?).getD {}).hand = []
  rw [List.getElem?_map]
  cases program.seatTeams[seat]? <;> rfl

/-- A game for three in which everyone is to be dealt twenty cards. -/
def lopsidedGame : Program :=
  { header := { participants := 3 }
    setup := { cardsPerParticipant := 20, initialDiscards := 2 }
    phases := [.claim {}] }

end Croupier.Table
