/-
What a win is worth to a lookahead.

A lookahead takes a won game to be worth a fixed number of points, more than a position that is lost
or drawn. A position that is still open is worth what the participant has, and that can be more: the
compiled format lets everyone start with more chips than a win is worth. How much anybody can have
follows from the chips and the cards of the game, and from how many actions and hands it has taken.
-/

import Croupier.Strategy.Choose
import Croupier.Proofs.Play.Amounts
import Croupier.Proofs.Play.Means

namespace Croupier

/-! ### What a participant has -/

namespace Reached

variable {program : Program} {seed : UInt64} {outcome : Outcome} {table : Table}

theorem chips_le (inRange : program.InRange) (reached : Reached program seed outcome table)
    (seat : Int) : (table.player seat).chips ≤
      program.header.participants * program.setup.startingChips := by
  by_cases seated : table.HasSeat seat
  · have listed := List.mem_of_getElem? (Table.getElem?_purses seated)
    exact ((reached.sound inRange).balanced.bounds listed).1.2
  · have several := inRange.header.participants.1
    have chips := inRange.setup.startingChips.1
    rw [Table.player_of_not_hasSeat seated]
    exact Int.mul_nonneg (by omega) chips

theorem length_hand_le_deckSize (inRange : program.InRange)
    (reached : Reached program seed outcome table) (seat : Int) :
    ((table.hand seat).length : Int) ≤ program.deckSize := by
  have held := table.length_hand_le seat
  have copies := inRange.header.deckCopies.1
  rw [(reached.absorbs inRange).perm_deck.length_eq] at held
  rw [← program.length_deck (by omega)]
  exact Int.ofNat_le.mpr held

end Reached

/-! ### What it is worth -/

/-- What a lookahead takes an open game to be worth at most, after so many actions and hands. -/
def Program.mostWorth (program : Program) (actions hands : Int) : Int :=
  program.header.participants * program.setup.startingChips + 3 * program.deckSize
    + (10 * program.mostPerAction + 5) * actions + 10 * program.mostContract * hands

theorem Strategist.positionValue_open_le (table : Table) (program : Program) (seat : Int) :
    positionValue table program .open seat ≤
      (table.player seat).chips + 3 * (table.hand seat).length
        + 10 * (table.player seat).score.natAbs + 5 * (table.player seat).tricks.natAbs := by
  unfold positionValue Table.hand
  dsimp only
  split_ifs <;> omega

namespace Reached

variable {program : Program} {seed : UInt64} {outcome : Outcome} {table : Table}

theorem positionValue_le_mostWorth (inRange : program.InRange)
    (reached : Reached program seed .open table) (seat : Int) :
    Strategist.positionValue table program .open seat ≤
      program.mostWorth table.actions table.handNumber := by
  have worth := Strategist.positionValue_open_le table program seat
  have chips := reached.chips_le inRange seat
  have held := reached.length_hand_le_deckSize inRange seat
  have score := reached.natAbs_score_le inRange seat
  have taken := (reached.withinMeans inRange).taken seat
  unfold Program.mostWorth
  rw [Int.add_mul, Int.mul_assoc, Int.mul_assoc]
  omega

/-- A lookahead prefers a won game to one that is lost or drawn, and to one that is open as long as
that is worth less than a win; and an open game is worth no more than its chips, its cards, its
actions and its hands allow. -/
theorem win_outranks {bytes : List UInt8} (accepted : Program.decode bytes = .ok program)
    {won : Table} {side seat : Int} (wins : won.wonBy program seat (.winner side) = true)
    (reached : Reached program seed outcome table)
    (unwon : table.wonBy program seat outcome = false) :
    (Strategist.positionValue table program outcome seat <
        Strategist.positionValue won program (.winner side) seat ↔
      (outcome = .open →
        Strategist.positionValue table program .open seat < Strategist.winValue)) ∧
      (outcome = .open → Strategist.positionValue table program .open seat ≤
        program.mostWorth table.actions table.handNumber) := by
  have inRange := Program.inRange_of_decode accepted
  have full : Strategist.positionValue won program (.winner side) seat = Strategist.winValue :=
    if_pos wins
  rw [full]
  cases outcome with
  | «open» =>
      exact ⟨⟨fun less _ => less, fun less => less rfl⟩,
        fun _ => reached.positionValue_le_mostWorth inRange seat⟩
  | draw =>
      have less : (0 : Int) < Strategist.winValue := by decide
      exact ⟨iff_of_true less nofun, nofun⟩
  | winner other =>
      have lost : Strategist.positionValue table program (.winner other) seat =
          -Strategist.winValue := if_neg (ne_true_of_eq_false unwon)
      rw [lost]
      exact ⟨iff_of_true (by decide) nofun, nofun⟩

end Reached

/-! ### A game of one card each -/

/-- A game for two with so many chips, won by whoever plays the only card. -/
def oneCardGame (chips : Int) : Program where
  setup := { cardsPerParticipant := 1, startingChips := chips }
  phases := [.play { mandatory := false }]
  winConditions := [{}]

/-- Its table before the first action. -/
def oneCardTable (chips : Int) (hand other deck : List Card) (generator : Generator) : Table :=
  { Table.seated (oneCardGame chips) 7 with
    players := [{ hand, chips }, { hand := other, chips }]
    deck, generator }

theorem exists_opening_oneCardGame (chips : Int) :
    ∃ first second deck generator, Table.opening (oneCardGame chips) 7 =
      oneCardTable chips [first] [second] deck generator := by
  obtain ⟨deck, generator, permuted, dealt⟩ := Table.exists_opening_eq (oneCardGame chips) 7
  have size : deck.reverse.length = 52 := by
    rw [List.length_reverse, permuted.length_eq]
    rfl
  match listed : deck.reverse, size with
  | first :: second :: rest, _ =>
      have players : { Table.seated (oneCardGame chips) 7 with
          deck := deck, generator := generator }.players = [{ chips }, { chips }] := rfl
      have seats : { Table.seated (oneCardGame chips) 7 with
          deck := deck, generator := generator }.seats = 2 := rfl
      have share : Table.share (oneCardGame chips) { Table.seated (oneCardGame chips) 7 with
          deck := deck, generator := generator } = 1 := rfl
      refine ⟨first, second, rest.reverse, generator, ?_⟩
      rw [dealt]
      unfold Table.deal
      rw [listed, share, seats, players]
      rfl

/-- The first participant can win at once or pass. -/
theorem exists_won_and_passed {chips : Int}
    (accepted : Program.decode (oneCardGame chips).encode = .ok (oneCardGame chips)) :
    ∃ won passed first, Reached (oneCardGame chips) 7 (.winner 0) won ∧
      Reached (oneCardGame chips) 7 .open passed ∧
      passed.player 0 = { hand := [first], chips } ∧ passed.actions = 1 ∧
      passed.handNumber = 0 := by
  have start := Table.start_of_decode accepted 7 {}
  obtain ⟨first, second, deck, generator, dealt⟩ := exists_opening_oneCardGame chips
  rw [dealt] at start
  have plays : ∃ won, Reached (oneCardGame chips) 7 (.winner 0) won :=
    ⟨_, @Reached.step _ _ _ _ (.winner 0) (.move ⟨0, .play 0 .discard⟩) (.start start)
      (List.mem_of_getElem? (i := 0) rfl) rfl⟩
  have passes : ∃ passed, Reached (oneCardGame chips) 7 .open passed ∧
      passed.player 0 = { hand := [first], chips } ∧ passed.actions = 1 ∧
      passed.handNumber = 0 :=
    ⟨_, @Reached.step _ _ _ _ .open (.move ⟨0, .pass⟩) (.start start)
      (List.mem_of_getElem? (i := 1) rfl) rfl, rfl, rfl, rfl⟩
  obtain ⟨won, won_reached⟩ := plays
  obtain ⟨passed, reached, held⟩ := passes
  exact ⟨won, passed, first, won_reached, reached, held⟩

theorem Reached.win_outranks_oneCardGame :
    Program.decode (oneCardGame 0).encode = .ok (oneCardGame 0) ∧
      ∃ won passed, Reached (oneCardGame 0) 7 (.winner 0) won ∧
        won.wonBy (oneCardGame 0) 0 (.winner 0) = true ∧
        Reached (oneCardGame 0) 7 .open passed ∧
        passed.wonBy (oneCardGame 0) 0 .open = false ∧
        Strategist.positionValue passed (oneCardGame 0) .open 0 <
          Strategist.positionValue won (oneCardGame 0) (.winner 0) 0 := by
  have accepted : Program.decode (oneCardGame 0).encode = .ok (oneCardGame 0) := by
    decide +kernel
  obtain ⟨won, passed, first, wins, reached, _, actions, handNumber⟩ :=
    exists_won_and_passed accepted
  have won_by : won.wonBy (oneCardGame 0) 0 (.winner 0) = true := rfl
  have unwon : passed.wonBy (oneCardGame 0) 0 .open = false := rfl
  obtain ⟨less_iff, bound⟩ := Reached.win_outranks accepted won_by reached unwon
  have worth := bound rfl
  rw [actions, handNumber] at worth
  have small : (oneCardGame 0).mostWorth 1 0 < Strategist.winValue := by decide +kernel
  exact ⟨accepted, won, passed, wins, won_by, reached, unwon,
    less_iff.mpr fun _ => worth.trans_lt small⟩

/-- With two million chips each, passing is worth more than winning. -/
theorem Reached.win_outranked :
    Program.decode (oneCardGame 2000000).encode = .ok (oneCardGame 2000000) ∧
      ∃ won passed, Reached (oneCardGame 2000000) 7 (.winner 0) won ∧
        won.wonBy (oneCardGame 2000000) 0 (.winner 0) = true ∧
        Reached (oneCardGame 2000000) 7 .open passed ∧
        passed.wonBy (oneCardGame 2000000) 0 .open = false ∧
        Strategist.positionValue won (oneCardGame 2000000) (.winner 0) 0 = 1000000 ∧
        Strategist.positionValue passed (oneCardGame 2000000) .open 0 = 1999997 := by
  have accepted : Program.decode (oneCardGame 2000000).encode = .ok (oneCardGame 2000000) := by
    decide +kernel
  obtain ⟨won, passed, first, wins, reached, held, _, _⟩ := exists_won_and_passed accepted
  have value : Strategist.positionValue passed (oneCardGame 2000000) .open 0 = 1999997 := by
    unfold Strategist.positionValue
    rw [held]
    rfl
  exact ⟨accepted, won, passed, wins, rfl, reached, rfl, rfl, value⟩

end Croupier
