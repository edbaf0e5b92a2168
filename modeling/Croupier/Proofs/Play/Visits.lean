/-
How many cards a turn plays in a phase.

A turn that comes to a play phase stays there for one play after the other, and each of them is
counted as a step. The offers look at the count before a card is played, the turn order after it,
and a pass is on offer only once there were enough. So a turn leaves a phase that insists on its
cards with too few of them only if the hand has run out, whatever captures and effects have put
into it or taken from it in the meantime.
-/

import Croupier.Proofs.Play.Order
import Croupier.Proofs.Play.Playable

namespace Croupier

def Action.isPlay : Action → Bool
  | move offered => offered.choice.isPlay
  | pass => false

namespace Table

variable {table next moved : Table} {program : Program} {phase : PlayPhase} {leader seat : Int}
  {card : Card} {outcome : Outcome}

/-! ### Who is active -/

theorem battleBlind_active : BattleBlind Table.active where
  hand table seat _ := StakeBlind.modifyPlayer (fun _ _ _ _ _ _ _ _ _ => rfl) table seat _
  deck _ _ := rfl
  discard _ _ := rfl
  generator _ _ := rfl
  tableau _ _ := rfl
  taken table seat _ _ := StakeBlind.modifyPlayer (fun _ _ _ _ _ _ _ _ _ => rfl) table seat _
  battle _ _ _ _ := rfl

theorem active_played (table : Table) (program : Program) (seat : Int) (place : Nat) (card : Card)
    (target : Location) :
    (((table.without seat place).playCard program seat card target).triggerEffect program seat
      card).active = table.active := by
  have lifted := battleBlind_active.hand table seat (·.eraseIdx place)
  have played := battleBlind_active.playCard (table.without seat place) program seat card target
  exact (battleBlind_active.triggerEffect (fun _ _ _ => rfl) _ program seat card).trans
    (played.trans lifted)

/-! ### Leaving a phase -/

/-- The turn is where it was. -/
def AtSamePhase (table next : Table) : Prop :=
  next.turn = table.turn ∧ next.phase = table.phase

theorem orderBlind_hand (seat : Int) : OrderBlind fun table => table.hand seat :=
  fun _ _ _ _ _ _ => rfl

/-- A phase that is completed is left behind, and with that the action is over. -/
theorem leaves_of_completePhase (turn : moved.turn = table.turn) (place : moved.phase = table.phase)
    (going : moved.handOver = false)
    (finished : (moved.completePhase program leader).finishAction program = (outcome, next)) :
    ¬table.AtSamePhase next ∧ ∀ seat, next.hand seat = moved.hand seat := by
  have still : (moved.completePhase program leader).handOver = false := by
    obtain ⟨_, _, _, same⟩ := book_completePhase moved program leader
    exact (congrArg Book.handOver same).trans going
  rw [finishAction_of_going still finished]
  refine ⟨?_, fun seat => (orderBlind_hand seat).completePhase moved program leader⟩
  rintro ⟨sameTurn, samePhase⟩
  change (moved.completePhase program leader).turn = table.turn at sameTurn
  change (moved.completePhase program leader).phase = table.phase at samePhase
  unfold completePhase at sameTurn samePhase
  dsimp only at sameTurn samePhase
  split at sameTurn
  · have ended := congrArg Book.turn
      (book_endTurn { moved with phase := moved.phase + 1, step := 0 } leader)
    change _ = moved.turn + 1 at ended
    have later := ended.symm.trans sameTurn
    omega
  · rename_i inside
    rw [if_neg inside] at samePhase
    change moved.phase + 1 = table.phase at samePhase
    omega

theorem cardPhaseDone_iff (found : program.phase? table.phase = some (.play phase)) :
    table.cardPhaseDone program = true ↔
      table.hand table.active = [] ∨ phase.maxCards ≤ table.step := by
  unfold cardPhaseDone
  rw [found, Bool.or_eq_true, List.isEmpty_iff, decide_eq_true_eq]

theorem leaves_of_pass (found : program.phase? table.phase = some (.play phase))
    (going : table.handOver = false) (passed : Play.pass program table = .ok outcome next) :
    ¬table.AtSamePhase next := by
  obtain ⟨_, there, finished⟩ := Play.pass_eq_ok_iff.mp passed
  cases found.symm.trans there
  have same : (table.passIn program (.play phase)).2.book = table.book :=
    book_passIn table program (.play phase)
  exact (leaves_of_completePhase (congrArg Book.turn same) (congrArg Book.phase same)
    ((congrArg Book.handOver same).trans going) finished).1

end Table

/-! ### Steps -/

namespace Action

/-- What an action in a play phase comes to: one more card, or the last one, or a pass. -/
inductive PlayStep (phase : PlayPhase) (table : Table) : Action → Table → Prop where
  | another {index place : Int} {target : Location} {next : Table}
      (same : table.AtSamePhase next) (one : next.step = table.step + 1)
      (stays : next.active = table.active) :
      PlayStep phase table (.move ⟨index, .play place target⟩) next
  | last {index place : Int} {target : Location} {next : Table} (leaves : ¬table.AtSamePhase next)
      (done : next.hand table.active = [] ∨ phase.maxCards ≤ table.step + 1) :
      PlayStep phase table (.move ⟨index, .play place target⟩) next
  | declined {index : Int} {next : Table} (leaves : ¬table.AtSamePhase next)
      (enough : phase.minCards ≤ table.step ∨ phase.mandatory = false) :
      PlayStep phase table (.move ⟨index, .pass⟩) next
  | unable {next : Table} (leaves : ¬table.AtSamePhase next)
      (empty : phase.passIfUnable = true ∨ table.hand table.active = []) :
      PlayStep phase table .pass next

variable {program : Program} {table next : Table} {phase : PlayPhase} {outcome : Outcome}
  {action : Action}

theorem playStep_of_card {place : Int} {target : Location}
    (found : program.phase? table.phase = some (.play phase)) (going : table.handOver = false)
    (acted : Play.perform program ⟨table.phase, .play place target⟩ table = .ok outcome next) :
    PlayStep phase table (.move ⟨table.phase, .play place target⟩) next := by
  have acts : Choice.play place target ≠ .pass := nofun
  obtain ⟨_, leader, moved, carries, finished⟩ := (Play.perform_eq_ok_iff acts).mp acted
  have same : moved.book = table.book := Table.book_of_carries carries
  have stays : moved.active = table.active := by
    cases carries with
    | play there held => exact Table.active_played table program table.active _ _ target
  have turn : moved.turn = table.turn := congrArg Book.turn same
  have here : moved.phase = table.phase := congrArg Book.phase same
  have step : moved.step = table.step := congrArg Book.step same
  have still : moved.handOver = false := (congrArg Book.handOver same).trans going
  have current : program.phase? { moved with step := moved.step + 1 }.phase =
      some (.play phase) := by
    rw [← found]
    exact congrArg _ here
  unfold Table.afterMove at finished
  dsimp only at finished
  split at finished
  · rename_i done
    obtain ⟨leaves, hands⟩ :=
      @Table.leaves_of_completePhase table _ _ _ _ _ turn here still finished
    refine .last leaves ?_
    rw [hands, ← stays, ← step]
    exact (Table.cardPhaseDone_iff current).mp done
  · have stepped : ({ moved with step := moved.step + 1 } : Table).handOver = false := still
    rw [Table.finishAction_of_going stepped finished]
    exact .another ⟨turn, here⟩ (congrArg (· + 1) step) stays

theorem playStep_of_act (found : program.phase? table.phase = some (.play phase))
    (going : table.handOver = false) (legal : action.Legal program table)
    (acted : action.act program table = .ok outcome next) : PlayStep phase table action next := by
  cases action with
  | pass =>
      refine .unable (Table.leaves_of_pass found going acted) ?_
      have allowed := legal.2
      unfold Table.canPass Table.canPassAt at allowed
      rw [found] at allowed
      change (phase.passIfUnable || (table.hand table.active).isEmpty) = true at allowed
      rwa [Bool.or_eq_true, List.isEmpty_iff] at allowed
  | move offered =>
      obtain ⟨_, choice, there, rfl, listed⟩ := Table.mem_moves_iff.mp legal
      cases found.symm.trans there
      have here : table.stepIn table.active table.phase = table.step := if_pos ⟨rfl, rfl⟩
      change choice ∈ table.offerPlay program table.active _ phase at listed
      unfold Table.offerPlay at listed
      rw [here] at listed
      rcases List.mem_append.mp listed with card | pass
      · split at card
        · obtain ⟨place, held, rfl, _⟩ := Table.mem_offerCards card
          exact playStep_of_card found going acted
        · cases card
      · split at pass
        · rename_i enough
          cases List.mem_singleton.mp pass
          obtain ⟨_, passed⟩ := Play.perform_pass_eq_ok_iff.mp acted
          refine .declined (Table.leaves_of_pass found going passed) ?_
          exact enough.imp_right fun optional => by simpa using optional
        · cases pass

end Action

/-! ### Visits -/

/-- A visit to the phase at which a turn stands: who is active when the turn comes to it, with the
deal or with an action that leaves another phase, and the actions since then. -/
inductive Visit (program : Program) (seed : UInt64) : Int → List Action → Table → Prop where
  | deal {before table : Table} (dealt : Table.start program seed before = .ok () table) :
      Visit program seed table.active [] table
  | arrive {table next : Table} {action : Action} (earlier : Reached program seed .open table)
      (legal : action.Legal program table) (acted : action.act program table = .ok .open next)
      (leaves : ¬table.AtSamePhase next) : Visit program seed next.active [] next
  | stay {seat : Int} {actions : List Action} {table next : Table} {action : Action}
      (earlier : Visit program seed seat actions table) (legal : action.Legal program table)
      (acted : action.act program table = .ok .open next) (same : table.AtSamePhase next) :
      Visit program seed seat (actions ++ [action]) next

variable {program : Program} {seed : UInt64} {seat : Int} {actions : List Action}
  {table next : Table} {phase : PlayPhase} {last : Action} {outcome : Outcome}

theorem Visit.reached (visit : Visit program seed seat actions table) :
    Reached program seed .open table := by
  induction visit with
  | deal dealt => exact .start dealt
  | arrive earlier legal acted leaves => exact .step earlier legal acted
  | stay earlier legal acted same ih => exact .step ih legal acted

/-- Every state of a run before its end belongs to a visit. -/
theorem Reached.exists_visit (reached : Reached program seed outcome table)
    (going : outcome = .open) : ∃ seat actions, Visit program seed seat actions table := by
  induction reached with
  | start dealt => exact ⟨_, [], .deal dealt⟩
  | @step table next _ action earlier legal acted ih =>
      subst going
      obtain ⟨seat, actions, visit⟩ := ih rfl
      by_cases same : table.AtSamePhase next
      · exact ⟨seat, actions ++ [action], .stay visit legal acted same⟩
      · exact ⟨next.active, [], .arrive earlier legal acted same⟩

namespace Visit

theorem step_of_arrival {action : Action} (earlier : Reached program seed .open table)
    (legal : action.Legal program table) (acted : action.act program table = .ok outcome next)
    (leaves : ¬table.AtSamePhase next) : next.step = 0 := by
  obtain ⟨_, _, advances⟩ := Action.advances_act earlier.handOver_of_open legal acted
  cases advances with
  | ended turn begins fresh => exact fresh
  | onward turn going through place inside fresh => exact fresh
  | stepped turn going through place => exact absurd ⟨turn, place⟩ leaves
  | answered turn going claim place => exact absurd ⟨turn, place⟩ leaves

/-- As long as a visit to a play phase lasts, one participant plays, and every step is a card. -/
theorem plays (visit : Visit program seed seat actions table)
    (found : program.phase? table.phase = some (.play phase)) :
    table.active = seat ∧ table.step = actions.length ∧
      ∀ action ∈ actions, action.isPlay = true := by
  induction visit with
  | deal dealt =>
      obtain ⟨_, rfl⟩ := Table.start_eq_ok_iff.mp dealt
      exact ⟨rfl, rfl, nofun⟩
  | arrive earlier legal acted leaves =>
      exact ⟨rfl, step_of_arrival earlier legal acted leaves, nofun⟩
  | @stay _ actions table next action earlier legal acted same ih =>
      rw [same.2] at found
      obtain ⟨active, step, cards⟩ := ih found
      cases Action.playStep_of_act found earlier.reached.handOver_of_open legal acted with
      | another _ one stays =>
          refine ⟨stays.trans active, ?_, ?_⟩
          · rw [one, step, List.length_append]
            rfl
          · intro action among
            rcases List.mem_append.mp among with before | now
            · exact cards action before
            · rw [List.mem_singleton.mp now]
              rfl
      | last leaves | declined leaves | unable leaves => exact absurd same leaves

/-- A game in which a turn is to play two cards. -/
def twoCardsGame : Program :=
  shortGame [.play { minCards := 2, maxCards := 2 }]

/-- Its table in the first turn. -/
def twoCardsTable (hand other deck discard : List Card) (generator : Generator) : Table :=
  { Table.seated twoCardsGame 7 with
    players := [{ hand := hand }, { hand := other }]
    deck, discard, generator
    actions := discard.length
    step := discard.length }

end Visit

end Croupier
