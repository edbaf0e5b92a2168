/-
When a game is reported stuck.

The course of a game is a legal run: strategies choose among the moves on offer and change nothing
else. Somebody always has a move or may pass, provided that every play phase accepts that there is
no card to play, and every turn ends in time, provided that the limit leaves room for the actions
of its phases.
-/

import Croupier.Proofs.Match.Round
import Croupier.Proofs.Play.Pace

namespace Croupier

namespace Play

variable {program : Program} {settings : Settings} {seed : UInt64} {table next last : Table}
  {watch after : Watch} {ending : Ending} {fuel : Nat}

/-! ### The course of a game -/

/-- The actions of a turn and those that are left of it stay within the room of a turn. -/
theorem paced_afterAction {action : Action} (inRange : program.InRange)
    (reached : Reached program seed .open table) (legal : action.Legal program table)
    (acted : action.act program table = .ok .open next)
    (paced : watch.turnActions + table.actionsLeft program ≤ program.mostActions)
    (choice : Choice) :
    (watch.afterAction program choice table next).turnActions + next.actionsLeft program ≤
      program.mostActions := by
  have here := reached.inTurn inRange
  have there := (Reached.step reached legal acted).inTurn inRange
  obtain ⟨phase, found, advances⟩ := Action.advances_act reached.handOver_of_open legal acted
  unfold Watch.afterAction
  dsimp only
  split
  · rename_i same
    have used := here.actionsLeft_lt there found advances same
    dsimp only
    omega
  · have fresh := there.actionsLeft_le inRange
    dsimp only
    omega

theorem course_stuck {message : String} (inRange : program.InRange) (passable : program.Passable)
    (reached : Reached program seed .open table)
    (paced : watch.turnActions + table.actionsLeft program ≤ program.mostActions)
    (done : course program settings fuel watch table = .ok (ending, after) last)
    (stuck : ending.trouble? = some (.stuck message)) :
    settings.maxActionsPerTurn < program.mostActions := by
  induction fuel generalizing watch table with
  | zero =>
      cases done
      cases stuck
  | succ fuel ih =>
      have here := reached.inTurn inRange
      rw [course_succ] at done
      split at done
      · cases done
        cases stuck
      split at done
      · have left := here.one_le_actionsLeft inRange
        omega
      obtain ⟨left, next, rounded, rest⟩ := bind_eq_ok_iff.mp done
      cases rounds_of_round rounded with
      | stuck none refused =>
          rcases here.moves_ne_nil_or_canPass inRange passable with some | allowed
          · exact absurd none some
          · rw [refused] at allowed
            cases allowed
      | unseated absent =>
          cases rest
          cases stuck
      | @acted _ choice _ _ _ legal acted thought =>
          obtain ⟨strategists, rfl, _⟩ := thought
          rw [resume_roundAfter] at rest
          split at rest
          · cases rest
            cases stuck
          · rename_i undecided
            cases not_not.mp undecided
            refine ih (.step reached legal acted) ?_ rest
            refine paced_afterAction inRange reached legal acted ?_ choice
            exact paced

end Play

/-- A game that is reported stuck had a limit below the room of a turn. -/
theorem playGame_stuck {program : Program} {seed : UInt64} {settings : Settings} {pool : Pool}
    {message : String} (inRange : program.InRange) (passable : program.Passable)
    (stuck : (playGame program seed settings pool).1.trouble = some (.stuck message)) :
    settings.maxActionsPerTurn < program.mostActions := by
  rcases playGame_cases program seed settings pool with ⟨fault, broken⟩ | ⟨table, last, done⟩
  · rw [broken] at stuck
    cases stuck
  · obtain ⟨playable, ending, watch, played, same⟩ := Play.wholeGame_eq_ok_iff.mp done
    rw [← same] at stuck
    have reached := Reached.opening playable seed
    have room := (reached.inTurn inRange).actionsLeft_le inRange
    refine Play.course_stuck inRange passable reached ?_ played stuck
    change 0 + _ ≤ _
    omega

/-- A game in which a turn is to play two cards. -/
def pairGame : Program :=
  shortGame [.play { maxCards := 2, passIfUnable := true }]

end Croupier
