/-
Where the cards are, and how many there are of each.

A change of a pile is accounted for by an equation: the table gains what the pile gains and
loses what the pile loses. Everything that moves cards from pile to pile comes down to such
equations, provided that the seats it names are taken, since a hand that is nobody's takes no
card. The frame of a table is what it says about the seats and the order of play; moving cards
leaves the frame alone.
-/

import Croupier.Rules.Turn
import Mathlib

namespace Croupier.Table

variable {table next last : Table} {seat : Int} {card : Card}

/-! ### Seats -/

/-- Whether somebody sits there. -/
def HasSeat (table : Table) (seat : Int) : Prop :=
  0 ≤ seat ∧ seat < table.seats

instance (table : Table) (seat : Int) : Decidable (table.HasSeat seat) :=
  inferInstanceAs (Decidable (_ ∧ _))

theorem player_natCast {seat : Nat} (taken : seat < table.players.length) :
    table.player seat = table.players[seat] := by
  unfold player
  rw [if_neg (by omega), Int.toNat_natCast, List.getD_eq_getElem _ _ taken]

theorem mem_allSeats_iff : seat ∈ table.allSeats ↔ table.HasSeat seat := by
  unfold allSeats HasSeat
  rw [List.mem_map]
  constructor
  · rintro ⟨place, member, rfl⟩
    have below := List.mem_range.mp member
    exact ⟨Int.natCast_nonneg place, Int.ofNat_lt.mpr below⟩
  · rintro ⟨nonneg, below⟩
    exact ⟨seat.toNat, List.mem_range.mpr (by omega), Int.toNat_of_nonneg nonneg⟩

/-! ### The frame -/

/-- What a table says about the seats and the order of play, apart from the cards. -/
structure Frame where
  seats : Nat
  active : Int
  direction : Int
  trick : List Int
  battleSeats : List Int
  claim : Claim
  handNumber : Int
  totalCards : Int

def frame (table : Table) : Frame where
  seats := table.seats
  active := table.active
  direction := table.direction
  trick := table.trick
  battleSeats := table.battleSeats
  claim := table.claim
  handNumber := table.handNumber
  totalCards := table.totalCards

theorem HasSeat.of_frame (seated : table.HasSeat seat) (same : next.frame = table.frame) :
    next.HasSeat seat := by
  have seats : next.seats = table.seats := congrArg Frame.seats same
  unfold HasSeat
  rw [seats]
  exact seated

theorem nextSeat_of_frame (same : next.frame = table.frame) :
    next.nextSeat seat = table.nextSeat seat := by
  have seats : next.seats = table.seats := congrArg Frame.seats same
  have direction : next.direction = table.direction := congrArg Frame.direction same
  rw [nextSeat, seatAfter, seats, direction]
  rfl

/-! ### Counting cards -/

/-- How often a card lies in the hands of players. -/
def inHands (players : List Player) (card : Card) : Nat :=
  (players.flatMap (·.hand)).count card

/-- How often a card lies on the table. -/
def tally (table : Table) (card : Card) : Nat :=
  table.deck.count card + table.discard.count card + inHands table.players card
    + table.tableau.flatten.count card

theorem tally_eq_count (table : Table) (card : Card) :
    table.tally card = table.cards.count card := by
  simp only [tally, inHands, cards, List.count_append]

theorem cards_perm_iff {cards : List Card} :
    table.cards.Perm cards ↔ ∀ card, table.tally card = cards.count card := by
  rw [List.perm_iff_count]
  exact forall_congr' fun card => by rw [tally_eq_count]

/-- The same cards lie on the table, if not in the same places, and nothing else about the
order of play is different. -/
structure Rearranges (table next : Table) : Prop where
  frame : next.frame = table.frame
  tally : ∀ card, next.tally card = table.tally card

theorem Rearranges.refl (table : Table) : Rearranges table table :=
  ⟨rfl, fun _ => rfl⟩

theorem Rearranges.trans (first : Rearranges table next) (second : Rearranges next last) :
    Rearranges table last :=
  ⟨second.frame.trans first.frame, fun card => (second.tally card).trans (first.tally card)⟩

/-- A step that rearranges the cards does so however often it is taken. -/
theorem Rearranges.repeat {step : Table → Table}
    (each : ∀ next, next.frame = table.frame → Rearranges next (step next)) (count : Nat) :
    Rearranges table (count.repeat step table) := by
  induction count with
  | zero => exact .refl table
  | succ count ih => exact ih.trans (each _ ih.frame)

theorem Rearranges.foldl {α : Type} {step : Table → α → Table} {items : List α}
    (each : ∀ next, next.frame = table.frame → ∀ item ∈ items, Rearranges next (step next item)) :
    Rearranges table (items.foldl step table) := by
  induction items generalizing table with
  | nil => exact .refl table
  | cons item rest ih =>
      have here := each table rfl item List.mem_cons_self
      refine here.trans (ih fun next same other member => ?_)
      exact each next (same.trans here.frame) other (List.mem_cons_of_mem item member)

/-! ### Players -/

theorem inHands_modify {players : List Player} {place : Nat} (taken : place < players.length)
    (change : Player → Player) (card : Card) :
    inHands (players.modify place change) card + (players.getD place {}).hand.count card =
      inHands players card + (change (players.getD place {})).hand.count card := by
  induction players generalizing place with
  | nil => simp at taken
  | cons player rest ih =>
      cases place with
      | zero =>
          simp only [inHands, List.modify_zero_cons, List.flatMap_cons, List.count_append,
            List.getD_cons_zero]
          omega
      | succ place =>
          have others := ih (show place < rest.length by simpa using taken)
          simp only [inHands, List.modify_succ_cons, List.flatMap_cons, List.count_append,
            List.getD_cons_succ] at others ⊢
          omega

@[simp]
theorem frame_modifyPlayer (table : Table) (seat : Int) (change : Player → Player) :
    (table.modifyPlayer seat change).frame = table.frame := by
  unfold modifyPlayer
  split
  · rfl
  · simp [frame, seats]

@[simp]
theorem frame_modifyHand (table : Table) (seat : Int) (change : List Card → List Card) :
    (table.modifyHand seat change).frame = table.frame :=
  frame_modifyPlayer table seat _

theorem tally_modifyPlayer (seated : table.HasSeat seat) (change : Player → Player)
    (card : Card) :
    (table.modifyPlayer seat change).tally card + (table.hand seat).count card =
      table.tally card + (change (table.player seat)).hand.count card := by
  obtain ⟨nonneg, below⟩ := seated
  have taken : seat.toNat < table.players.length := by
    unfold seats at below
    omega
  have changed := inHands_modify taken change card
  unfold modifyPlayer hand player
  simp only [if_neg (Int.not_lt.mpr nonneg), tally]
  omega

theorem tally_modifyHand (seated : table.HasSeat seat) (change : List Card → List Card)
    (card : Card) :
    (table.modifyHand seat change).tally card + (table.hand seat).count card =
      table.tally card + (change (table.hand seat)).count card :=
  tally_modifyPlayer seated _ card

/-- A change of a player that leaves the hand alone moves no card. -/
theorem rearranges_modifyPlayer {change : Player → Player}
    (same : ∀ player, (change player).hand = player.hand) :
    Rearranges table (table.modifyPlayer seat change) := by
  refine ⟨frame_modifyPlayer table seat change, fun card => ?_⟩
  have hands : ∀ (players : List Player) (place : Nat),
      (players.modify place change).flatMap (·.hand) = players.flatMap (·.hand) := by
    intro players
    induction players with
    | nil => simp
    | cons player rest ih =>
        intro place
        cases place with
        | zero => simp [same]
        | succ place => simp [ih]
  unfold modifyPlayer
  split
  · rfl
  · simp only [tally, inHands, hands]

/-- So does a change of all players that leaves the hands alone. -/
theorem inHands_map {players : List Player} {change : Player → Player}
    (same : ∀ player, (change player).hand = player.hand) :
    inHands (players.map change) card = inHands players card := by
  simp [inHands, List.flatMap_map, same]

/-! ### Piles -/

@[simp]
theorem frame_openTableau : table.openTableau.frame = table.frame := by
  unfold openTableau
  split <;> rfl

theorem tally_openTableau : table.openTableau.tally card = table.tally card := by
  unfold openTableau
  split
  · rename_i empty
    rw [List.isEmpty_iff] at empty
    simp [tally, empty]
  · rfl

theorem tally_modifyTableau (piles : table.tableau ≠ []) (change : List Card → List Card)
    (card : Card) :
    (table.modifyTableau change).tally card + table.centre.count card =
      table.tally card + (change table.centre).count card := by
  cases listed : table.tableau with
  | nil => exact absurd listed piles
  | cons pile rest =>
      simp only [modifyTableau, tally, centre, listed, List.modify_zero_cons, List.flatten_cons,
        List.count_append, List.head?_cons, Option.getD_some]
      omega

/-- Without a tableau pile there is nothing to take away. -/
theorem tally_clearTableau (table : Table) (card : Card) :
    (table.modifyTableau fun _ => []).tally card + table.centre.count card =
      table.tally card := by
  by_cases piles : table.tableau = []
  · simp [modifyTableau, tally, centre, piles]
  · have changed := tally_modifyTableau piles (fun _ => []) card
    rw [List.count_nil] at changed
    exact changed

@[simp]
theorem frame_modifyPile (table : Table) (seat : Int) (location : Location)
    (change : List Card → List Card) :
    (table.modifyPile seat location change).frame = table.frame := by
  cases location with
  | hand => exact frame_modifyHand table seat change
  | opponentHand => exact frame_modifyHand table _ change
  | tableau => exact frame_openTableau
  | deck | discard | unknown => rfl

@[simp]
theorem frame_openPile (table : Table) (location : Location) :
    (table.openPile location).frame = table.frame := by
  cases location with
  | tableau => exact frame_openTableau
  | _ => rfl

theorem rearranges_openPile (table : Table) (location : Location) :
    Rearranges table (table.openPile location) := by
  refine ⟨frame_openPile table location, fun card => ?_⟩
  cases location with
  | tableau => exact tally_openTableau
  | _ => rfl

theorem openTableau_ne_nil (table : Table) : table.openTableau.tableau ≠ [] := by
  unfold openTableau
  split
  · simp
  · rename_i some
    simpa using some

theorem centre_openTableau : table.openTableau.centre = table.centre := by
  unfold openTableau
  split
  · rename_i empty
    rw [List.isEmpty_iff] at empty
    simp [centre, empty]
  · rfl

/-- A seat from which every location can be reached: somebody sits there and next to it. -/
structure Reaching (table : Table) (seat : Int) : Prop where
  own : table.HasSeat seat
  opponent : table.HasSeat (table.nextSeat seat)

theorem Reaching.of_frame (reaching : table.Reaching seat) (same : next.frame = table.frame) :
    next.Reaching seat := by
  refine ⟨reaching.own.of_frame same, ?_⟩
  rw [nextSeat_of_frame same]
  exact reaching.opponent.of_frame same

/-- The table gains what a pile gains and loses what it loses. -/
theorem tally_modifyPile (reaching : table.Reaching seat) (location : Location)
    (change : List Card → List Card) (card : Card) :
    (table.modifyPile seat location change).tally card
        + (table.pileAt seat location).count card =
      table.tally card + (change (table.pileAt seat location)).count card := by
  cases location with
  | hand => exact tally_modifyHand reaching.own change card
  | opponentHand => exact tally_modifyHand reaching.opponent change card
  | tableau =>
      have changed := tally_modifyTableau (openTableau_ne_nil table) change card
      rw [tally_openTableau, centre_openTableau] at changed
      exact changed
  | deck =>
      simp only [modifyPile, pileAt, pile?, tally, Option.getD_some]
      omega
  | discard | unknown =>
      simp only [modifyPile, modifyDiscard, pileAt, pile?, tally, Option.getD_some]
      omega

theorem tally_place (reaching : table.Reaching seat) (location : Location)
    (placed card : Card) :
    (table.place seat location placed).tally card = table.tally card + [placed].count card := by
  have changed := tally_modifyPile reaching location (· ++ [placed]) card
  rw [List.count_append] at changed
  unfold place
  omega

@[simp]
theorem frame_place (table : Table) (seat : Int) (location : Location) (placed : Card) :
    (table.place seat location placed).frame = table.frame :=
  frame_modifyPile table seat location _

theorem count_eraseIdx {cards : List Card} {place : Nat} {taken : Card}
    (there : cards[place]? = some taken) (card : Card) :
    (cards.eraseIdx place).count card + [taken].count card = cards.count card := by
  obtain ⟨below, rfl⟩ := List.getElem?_eq_some_iff.mp there
  have whole := (List.getElem_cons_eraseIdx_perm below).count_eq card
  rw [List.count_cons] at whole
  rw [List.count_singleton]
  exact whole

theorem tally_without (seated : table.HasSeat seat) {place : Nat} {taken : Card}
    (there : (table.hand seat)[place]? = some taken) (card : Card) :
    (table.without seat place).tally card + [taken].count card = table.tally card := by
  have changed := tally_modifyHand seated (·.eraseIdx place) card
  have erased := count_eraseIdx there card
  unfold without
  omega

@[simp]
theorem frame_without (table : Table) (seat : Int) (place : Nat) :
    (table.without seat place).frame = table.frame :=
  frame_modifyHand table seat _

/-! ### Cards on their way -/

theorem count_dropLast_add {cards : List Card} {top : Card} (there : cards.getLast? = some top)
    (card : Card) :
    cards.dropLast.count card + [top].count card = cards.count card := by
  rw [← List.count_append, List.dropLast_append_getLast? top there]

/-- The top card of a pile comes into a hand. -/
theorem rearranges_drawOne (reaching : table.Reaching seat) (source : Location) :
    Rearranges table (drawOne seat source table) := by
  unfold drawOne
  cases top : (table.pileAt seat source).getLast? with
  | none => exact .refl table
  | some drawn =>
      refine ⟨by simp, fun card => ?_⟩
      have seated := reaching.own.of_frame
        (frame_modifyPile table seat source List.dropLast)
      have taken := tally_modifyPile reaching source List.dropLast card
      have split := count_dropLast_add top card
      have given := tally_modifyHand seated (· ++ [drawn]) card
      rw [List.count_append] at given
      dsimp only
      omega

theorem rearranges_draw (reaching : table.Reaching seat) (source : Location) (count : Int) :
    Rearranges table (table.draw seat source count) := by
  have opened := rearranges_openPile table source
  have drawn : Rearranges (table.openPile source)
      ((table.drawCount seat source count).toNat.repeat (drawOne seat source)
        (table.openPile source)) :=
    .repeat (fun next same =>
      rearranges_drawOne (reaching.of_frame (same.trans opened.frame)) source) _
  cases source with
  | hand => exact .refl table
  | _ => exact opened.trans drawn

/-- The last card of a hand is laid off. -/
theorem rearranges_discardOne (seated : table.HasSeat seat) :
    Rearranges table (discardOne seat table) := by
  unfold discardOne
  cases top : (table.hand seat).getLast? with
  | none => exact .refl table
  | some laid =>
      refine ⟨frame_modifyHand table seat _, fun card => ?_⟩
      have taken := tally_modifyHand seated List.dropLast card
      have split := count_dropLast_add top card
      simp only [modifyDiscard, tally, List.count_append] at taken ⊢
      omega

theorem rearranges_forceDiscard (seated : table.HasSeat seat) (count : Int) :
    Rearranges table (table.forceDiscard seat count) :=
  .repeat (fun _ same => rearranges_discardOne (seated.of_frame same)) _

/-- The last card of one hand comes into another. -/
theorem rearranges_stealOne {thief victim : Int} (thiefSeated : table.HasSeat thief)
    (victimSeated : table.HasSeat victim) :
    Rearranges table (stealOne thief victim table) := by
  unfold stealOne
  cases top : (table.hand victim).getLast? with
  | none => exact .refl table
  | some stolen =>
      refine ⟨by simp, fun card => ?_⟩
      have seated := thiefSeated.of_frame
        (frame_modifyHand table victim List.dropLast)
      have taken := tally_modifyHand victimSeated List.dropLast card
      have split := count_dropLast_add top card
      have given := tally_modifyHand seated (· ++ [stolen]) card
      rw [List.count_append] at given
      dsimp only
      omega

theorem rearranges_steal {thief victim : Int} (thiefSeated : table.HasSeat thief)
    (victimSeated : table.HasSeat victim) (count : Int) :
    Rearranges table (table.steal thief victim count) :=
  .repeat (fun _ same =>
    rearranges_stealOne (thiefSeated.of_frame same) (victimSeated.of_frame same)) _

end Croupier.Table
