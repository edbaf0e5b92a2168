/-
Chips change hands; they are neither made nor lost.

Wagers and showdowns keep the stakes balanced, and so does the next deal if the pot is empty by
then. A showdown empties it. A hand can also end with its last trick, but where a turn comes to a
trick it never comes to a betting, so that there is no pot to begin with.
-/

import Croupier.Proofs.Play.Stakes
import Croupier.Proofs.Play.Turns

namespace Croupier

/-! ### The books of a run -/

/-- The stakes are balanced, and the pot is paid out when a hand ends. -/
structure Book.Sound (program : Program) (book : Book) : Prop where
  balanced : book.stakes.Balanced
    (program.header.participants * program.setup.startingChips)
  settled : book.handOver = true → book.stakes.pot = 0
  untouched : program.endsIn .betting = false → book.stakes.pot = 0

namespace Book

variable {program : Program} {book : Book}

/-- Where no bets are taken a hand can end at any time. -/
theorem Sound.of_unstaked (sound : book.Sound program) (none : program.endsIn .betting = false)
    {next : Book} (stakes : next.stakes = book.stakes) : next.Sound program := by
  constructor
  · rw [stakes]
    exact sound.balanced
  · rw [stakes]
    exact fun _ => sound.untouched none
  · rw [stakes]
    exact sound.untouched

end Book

namespace Table

variable {table next : Table} {program : Program} {phase : Phase} {leader : Int}

theorem sound_settleBetting (sound : table.book.Sound program) :
    (table.settleBetting program).book.Sound program := by
  unfold settleBetting
  split
  · exact ⟨balanced_showdown sound.balanced program, fun _ => rfl, fun _ => rfl⟩
  · exact sound

theorem sound_passIn (inTurn : table.InTurn program)
    (found : program.phase? table.phase = some phase) (sound : table.book.Sound program) :
    (table.passIn program phase).2.book.Sound program := by
  have passed := book_passIn table program phase
  cases phase with
  | trick phase =>
      obtain ⟨_, _, passed⟩ := passed
      rw [passed]
      exact sound.of_unstaked (inTurn.endsIn found rfl .betting) rfl
  | betting phase =>
      apply sound_settleBetting
      split
      · rw [book_settleBattle]
        exact sound
      · exact sound
  | draw | play | discard | claim | bidding =>
      rw [passed]
      exact sound

theorem sound_of_carries {choice : Choice} (inRange : program.InRange) (orderly : table.Orderly)
    (going : table.handOver = false) (inTurn : table.InTurn program)
    (found : program.phase? table.phase = some phase)
    (offered : choice ∈ table.offers program table.active table.phase phase)
    (acts : choice ≠ .pass)
    (carries : Play.Carries program table.active table ⟨table.phase, choice⟩ leader next)
    (sound : table.book.Sound program) : next.book.Sound program := by
  have entered := book_of_carries carries
  cases choice with
  | trick =>
      cases carries with
      | trick followed =>
          obtain ⟨_, _, entered⟩ := entered
          rw [entered]
          exact sound.of_unstaked (inTurn.endsIn followed rfl .betting) rfl
  | bet =>
      cases carries with
      | bet betting known =>
          cases found.symm.trans betting
          have wagers := wagers_of_offered orderly.active (inRange.phase? found) offered known
          have still : _ = table.handOver := congrArg Book.handOver (restakes_wager known)
          have taken := inTurn.endsIn found rfl .betting
          apply sound_settleBetting
          constructor
          · exact sound.balanced.wagers wagers
          · intro ended
            rw [going] at still
            exact absurd (still.symm.trans ended) Bool.false_ne_true
          · intro none
            rw [taken] at none
            cases none
  | draw | play | discard | claim | challenge | accept | bid =>
      rw [entered]
      exact sound
  | pass => exact absurd rfl acts
  | unknown => cases carries

end Table

namespace Reached

variable {program : Program} {seed : UInt64} {outcome : Outcome} {table : Table}

theorem sound (inRange : program.InRange) (reached : Reached program seed outcome table) :
    table.book.Sound program := by
  apply reached.book_induction inRange
  · exact ⟨Table.balanced_opening inRange seed, fun _ => rfl, fun _ => rfl⟩
  · intro book turn phase step sound
    exact ⟨sound.balanced, sound.settled, sound.untouched⟩
  · intro table phase inTurn found sound
    exact Table.sound_passIn inTurn found sound
  · intro table moved phase choice leader
    exact Table.sound_of_carries inRange
  · intro table ended sound
    have balanced := Table.balanced_nextHand sound.balanced (sound.settled ended) program
    exact ⟨balanced, fun _ => rfl, fun _ => rfl⟩

end Reached

/-- A game in which a turn is to bet. -/
def bettingGame : Program where
  setup := { startingChips := 10 }
  phases := [.betting {}]

end Croupier
