/-
Who can win.

Every win condition looks at a list with one entry for each side, so that whoever wins is one of
them. There is a side for each participant or for each team, from the first deal on: only the
score of contracts touches the scores of the teams, and that adds none.
-/

import Croupier.Proofs.Play.Turns
import Croupier.Proofs.Teams.Changes

namespace Croupier

/-! ### Sides -/

/-- How many sides a game has. -/
def Program.sideCount (program : Program) : Nat :=
  if program.header.teamMode then program.teams.length else program.header.participants.toNat

/-- If somebody has won, it is one of so many sides. -/
def Outcome.Among (count : Nat) (outcome : Outcome) : Prop :=
  ∀ side, outcome = .winner side → 0 ≤ side ∧ side < count

theorem Outcome.among_open (count : Nat) : Outcome.open.Among count := by
  rintro side ⟨⟩

theorem Outcome.among_draw (count : Nat) : Outcome.draw.Among count := by
  rintro side ⟨⟩

theorem Outcome.among_winner {side count : Nat} (inside : side < count) :
    (Outcome.winner side).Among count := by
  rintro _ ⟨⟩
  exact ⟨Int.natCast_nonneg side, Int.ofNat_lt.mpr inside⟩

theorem Outcome.Among.mono {outcome : Outcome} {count more : Nat} (among : outcome.Among count)
    (larger : count ≤ more) : outcome.Among more := by
  intro side won
  have inside := among side won
  omega

/-! ### Win conditions -/

theorem among_firstSide {α : Type} (sides : List α) (holds : α → Bool) :
    (firstSide sides holds).Among sides.length := by
  unfold firstSide
  cases first : sides.findIdx? holds with
  | none => exact Outcome.among_open _
  | some place =>
      obtain ⟨inside, _⟩ := List.findIdx?_eq_some_iff_getElem.mp first
      exact Outcome.among_winner inside

theorem among_uniqueBestFrom {preferHigh : Bool} {count : Nat} (rest : List (Option Int × Nat))
    (sides : ∀ entry ∈ rest, entry.2 < count) :
    ∀ (bestSide : Nat) (best : Option Int) (tied : Bool), bestSide < count →
      (uniqueBestFrom preferHigh bestSide best tied rest).Among count := by
  induction rest with
  | nil =>
      intro bestSide best tied inside
      unfold uniqueBestFrom
      split
      · exact Outcome.among_draw count
      · exact Outcome.among_winner inside
  | cons entry rest ih =>
      intro bestSide best tied inside
      have later := ih fun entry among => sides entry (List.mem_cons_of_mem _ among)
      unfold uniqueBestFrom
      split
      · exact later _ _ _ inside
      split
      · exact later _ _ _ (sides entry List.mem_cons_self)
      · exact later _ _ _ inside

theorem among_uniqueBest (preferHigh : Bool) (values : List (Option Int)) :
    (uniqueBest preferHigh values).Among values.length := by
  cases values with
  | nil => exact Outcome.among_open _
  | cons first rest =>
      apply among_uniqueBestFrom
      · intro entry among
        have within := List.snd_lt_of_mem_zipIdx among
        rw [List.length_cons]
        omega
      · exact Nat.succ_pos _

namespace Table

variable {table next : Table} {program : Program}

theorem length_sideScores_le (table : Table) (program : Program) :
    (table.sideScores program).length ≤ (table.sides program).length := by
  unfold sideScores
  dsimp only
  split
  · rw [List.length_map, List.length_zip, List.length_map]
    exact Nat.min_le_right _ _
  · rw [List.length_map]

theorem length_tracked_le (table : Table) (program : Program) (kind : WinKind) :
    (table.tracked program kind).length ≤ (table.sides program).length := by
  have scores := table.length_sideScores_le program
  unfold tracked
  cases kind with
  | emptyHand | captureAll | mostTricks | fewestTricks | mostChips =>
      simp [sideSums]
  | bestHand => simp [sideBestHands]
  | highScore | firstToScore | lowScore | allHandsEmpty | mostCaptured | unknown =>
      rw [List.length_map]
      exact scores

theorem among_outcomeOf (table : Table) (program : Program) (condition : WinCondition) :
    (table.outcomeOf program condition).Among (table.sides program).length := by
  have best (preferHigh : Bool) (kind : WinKind) :
      (uniqueBest preferHigh (table.tracked program kind)).Among (table.sides program).length :=
    (among_uniqueBest preferHigh _).mono (table.length_tracked_le program kind)
  have none := Outcome.among_open (table.sides program).length
  unfold outcomeOf
  dsimp only
  cases condition.kind with
  | emptyHand =>
      dsimp only
      split
      · exact none
      · exact among_firstSide _ _
  | firstToScore =>
      exact (among_firstSide _ _).mono (table.length_sideScores_le program)
  | captureAll =>
      refine (among_firstSide _ _).mono ?_
      rw [sideSums, List.length_map]
  | highScore | lowScore | allHandsEmpty =>
      dsimp only
      split
      · exact best _ _
      · exact none
  | mostTricks | mostChips | bestHand | mostCaptured | fewestTricks => exact best _ _
  | unknown => exact none

theorem among_outcome (table : Table) (program : Program) :
    (table.outcome program).Among (table.sides program).length := by
  unfold outcome
  -- What ends a game is never that it is open, so the condition that ended it tells the outcome.
  cases decided : program.winConditions.findSome? (table.ending? program) with
  | none => exact Outcome.among_open _
  | some ended =>
      obtain ⟨condition, _, ends⟩ := List.exists_of_findSome?_eq_some decided
      have among := table.among_outcomeOf program condition
      unfold ending? at ends
      split at ends
      · split at ends
        · cases ends
        · cases ends
          exact among
      · cases ends

/-! ### The scores of the teams -/

theorem teamScores_of_change {change : Table → Table}
    (each : ∀ guise, change (table.guised guise) = (change table).guised guise) :
    (change table).teamScores = table.teamScores :=
  (congrArg Table.teamScores (guised_of_change each)).symm

/-- How many teams have a score, which no rule raises. -/
def scoredTeams (table : Table) : Nat :=
  table.teamScores.length

theorem scoredTeams_of_change {change : Table → Table}
    (each : ∀ guise, change (table.guised guise) = (change table).guised guise) :
    (change table).scoredTeams ≤ table.scoredTeams :=
  Nat.le_of_eq (congrArg List.length (teamScores_of_change each))

theorem scoredTeams_scoreContracts (table : Table) (program : Program) :
    (table.scoreContracts program).scoredTeams ≤ table.scoredTeams := by
  unfold scoreContracts scoredTeams
  split
  · dsimp only
    rw [List.length_map, List.length_zip]
    exact Nat.min_le_left _ _
  · exact Nat.le_refl _

theorem scoredTeams_settleTrick (table : Table) (program : Program) (phase : TrickPhase) :
    (table.settleTrick program phase).2.scoredTeams ≤ table.scoredTeams := by
  have taken : (table.takeTrick program phase).2.scoredTeams ≤ table.scoredTeams :=
    @scoredTeams_of_change table (fun table => (table.takeTrick program phase).2)
      fun _ => congrArg Prod.snd takeTrick_guised
  have scored := scoredTeams_scoreContracts (table.takeTrick program phase).2 program
  unfold settleTrick
  dsimp only
  split
  · split
    · change scoredTeams (if program.hasPhase .bidding then _ else _) ≤ _
      split
      · exact Nat.le_trans scored taken
      · exact taken
    · exact taken
  · exact Nat.le_refl _

theorem scoredTeams_passIn (table : Table) (program : Program) (phase : Phase) :
    (table.passIn program phase).2.scoredTeams ≤ table.scoredTeams := by
  have fought : (if program.header.tableauMode = .war then table.settleBattle program
      else table).scoredTeams ≤ table.scoredTeams := by
    split
    · exact @scoredTeams_of_change table (·.settleBattle program) fun _ => settleBattle_guised
    · exact Nat.le_refl _
  unfold passIn
  dsimp only
  cases phase with
  | trick phase => exact Nat.le_trans (scoredTeams_settleTrick _ program phase) fought
  | betting phase =>
      exact Nat.le_trans
        (@scoredTeams_of_change _ (·.settleBetting program) fun _ => settleBetting_guised) fought
  | draw | play | discard | claim | bidding => exact fought

theorem scoredTeams_of_carries {seat leader : Int} {move : Move}
    (carries : Play.Carries program seat table move leader next) :
    next.scoredTeams ≤ table.scoredTeams := by
  cases carries with
  | draw => exact @scoredTeams_of_change table (·.draw seat _ _) fun _ => draw_guised
  | @play _ place target _ card =>
      exact @scoredTeams_of_change table (fun table =>
        ((table.without seat place.toNat).playCard program seat card target).triggerEffect program
          seat card) fun _ => played_guised
  | @discard _ place target _ card =>
      exact @scoredTeams_of_change table (fun table =>
        (table.without seat place.toNat).place seat target card) fun _ => discarded_guised
  | @trick _ place phase card _ _ _ contributed =>
      subst contributed
      refine Nat.le_trans (scoredTeams_settleTrick _ program phase) ?_
      exact @scoredTeams_of_change table (fun table =>
        ((table.without seat place.toNat).contribute seat card phase).triggerEffect program seat
          card) fun _ => contributed_guised
  | @bet _ action phase wagered _ known =>
      have same : (table.wager? seat phase action).getD table = wagered := by
        rw [known]
        rfl
      refine Nat.le_trans
        (@scoredTeams_of_change _ (·.settleBetting program) fun _ => settleBetting_guised) ?_
      rw [← same]
      exact @scoredTeams_of_change table (fun table =>
        (table.wager? seat phase action).getD table) fun _ => wagered_guised
  | @claim _ place phase card =>
      exact @scoredTeams_of_change table (fun table =>
        (table.without seat place.toNat).layClaim seat card phase) fun _ => claimed_guised
  | challenge =>
      exact @scoredTeams_of_change table (·.challengeClaim seat) fun _ => challengeClaim_guised
  | accept => exact Nat.le_refl _
  | bid => exact @scoredTeams_of_change table (·.announce seat _) fun _ => announce_guised
  | @pass index =>
      unfold pass
      split
      · exact Nat.le_refl _
      · exact scoredTeams_passIn table program _

theorem scoredTeams_finishAction (table : Table) (program : Program) :
    (table.finishAction program).2.scoredTeams ≤ table.scoredTeams := by
  rcases table.finishAction_cases program with ⟨_, _, dealt⟩ | ⟨_, counted⟩
  · rw [dealt]
    exact @scoredTeams_of_change { table with actions := table.actions + 1 }
      (·.nextHand program) fun _ => nextHand_guised
  · rw [counted]
    exact Nat.le_refl _

theorem outcome_of_finishAction {outcome : Outcome}
    (finished : table.finishAction program = (outcome, next)) (decided : outcome ≠ .open) :
    next.outcome program = outcome := by
  unfold finishAction at finished
  dsimp only at finished
  split at finished
  · rename_i undecided
    cases finished
    exact absurd undecided.1 decided
  · cases finished
    rfl

end Table

/-! ### Runs -/

namespace Action

variable {program : Program} {table next : Table} {outcome : Outcome} {action : Action}

theorem scoredTeams_act (legal : action.Legal program table)
    (acted : action.act program table = .ok outcome next) :
    next.scoredTeams ≤ table.scoredTeams := by
  obtain ⟨phase, sequenced, proceeds, finished⟩ := proceeds_of_act legal acted
  have proceeded : sequenced.scoredTeams ≤ table.scoredTeams := by
    cases proceeds with
    | pass =>
        refine Nat.le_trans ?_ (table.scoredTeams_passIn program phase)
        exact @Table.scoredTeams_of_change _ (·.afterPass program phase _)
          fun _ => Table.afterPass_guised
    | @move choice leader moved _ _ _ carries =>
        refine Nat.le_trans ?_ (Table.scoredTeams_of_carries carries)
        exact @Table.scoredTeams_of_change moved (·.afterMove program choice leader)
          fun _ => Table.afterMove_guised
  have done := sequenced.scoredTeams_finishAction program
  rw [finished] at done
  exact Nat.le_trans done proceeded

end Action

namespace Reached

variable {program : Program} {seed : UInt64} {outcome : Outcome} {table : Table}

theorem scoredTeams_le (reached : Reached program seed outcome table) :
    table.scoredTeams ≤ program.teamCount := by
  induction reached with
  | start dealt =>
      obtain ⟨_, rfl⟩ := Table.start_eq_ok_iff.mp dealt
      exact Nat.le_of_eq List.length_replicate
  | step earlier legal acted ih => exact Nat.le_trans (Action.scoredTeams_act legal acted) ih

/-- Whoever has won at the end of a run is a side of the game. -/
theorem among (inRange : program.InRange) (reached : Reached program seed outcome table) :
    outcome.Among program.sideCount := by
  have teams := reached.scoredTeams_le
  have seats := (reached.absorbs inRange).seats
  have sides : (table.sides program).length ≤ program.sideCount := by
    unfold Program.teamCount at teams
    unfold Program.sideCount Table.sides
    split
    · rename_i mode
      rw [if_pos mode] at teams
      rw [List.length_map, List.length_range]
      exact teams
    · rw [List.length_map]
      exact Nat.le_of_eq (seats.trans (Table.seats_seated program seed))
  by_cases undecided : outcome = .open
  · rw [undecided]
    exact Outcome.among_open _
  · cases reached with
    | start => exact absurd rfl undecided
    | step earlier legal acted =>
        obtain ⟨_, sequenced, _, finished⟩ := Action.proceeds_of_act legal acted
        rw [← Table.outcome_of_finishAction finished undecided]
        exact (table.among_outcome program).mono sides

end Reached

end Croupier
