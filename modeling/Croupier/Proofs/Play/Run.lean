/-
Legal runs, and what stays the same all along them.

A run begins with the first deal and goes on, as long as nobody has won, with a move on offer
or, where nothing is on offer, with a pass. Each action absorbs its own cards and leaves an
orderly table, whether the hand goes on or the next one is dealt, so the cards on the table are
those of the deck in every state of a run.
-/

import Croupier.Proofs.Codec.Acceptance
import Croupier.Proofs.Play.Deal
import Croupier.Proofs.Play.Offers

namespace Croupier

/-! ### Actions -/

namespace Table

variable {table next last : Table} {seat leader : Int} {card : Card} {program : Program}

theorem absorbs_of_carries {move : Move} (orderly : table.Orderly) (seated : table.HasSeat seat)
    (carries : Play.Carries program seat table move leader next) :
    Absorbs table [] next ∧ next.HasLeader leader := by
  cases carries with
  | draw found =>
      exact ⟨(rearranges_draw (orderly.reaching seated) _ _).absorbs orderly, hasLeader_nobody⟩
  | @play _ place target _ card _ held =>
      have lifted : (table.without seat place.toNat).Orderly := orderly.without
      have played := absorbs_playCard program lifted seated.without card target
      have triggered := absorbs_triggerEffect program played.orderly
        (seated.without.of_seats played.seats) card
      exact ⟨(played.trans triggered).returned seated held.2, hasLeader_nobody⟩
  | @discard _ place target _ card _ held =>
      have lifted : (table.without seat place.toNat).Orderly := orderly.without
      have placed := absorbs_place lifted seated.without target card
      exact ⟨placed.returned seated held.2, hasLeader_nobody⟩
  | @trick _ place phase card _ _ held contributed =>
      subst contributed
      have lifted : (table.without seat place.toNat).Orderly := orderly.without
      have laid := absorbs_contribute lifted seated.without card phase
      have triggered := absorbs_triggerEffect program laid.orderly
        (seated.without.of_seats laid.seats) card
      obtain ⟨settled, leads⟩ := absorbs_settleTrick program triggered.orderly phase
      exact ⟨(laid.trans (triggered.trans settled)).returned seated held.2, leads⟩
  | bet found known =>
      have wagered := rearranges_wager known
      exact ⟨(wagered.trans (rearranges_settleBetting _ _)).absorbs orderly, hasLeader_nobody⟩
  | @claim _ place phase card _ held =>
      have lifted : (table.without seat place.toNat).Orderly := orderly.without
      have laid := absorbs_layClaim lifted seated.without card phase
      exact ⟨laid.returned seated held.2, hasLeader_nobody⟩
  | challenge found pending =>
      exact ⟨absorbs_challengeClaim orderly seated pending, hasLeader_nobody⟩
  | accept found => exact ⟨absorbs_closeClaim orderly, hasLeader_nobody⟩
  | bid found => exact ⟨(rearranges_announce _ _ _).absorbs orderly, hasLeader_nobody⟩
  | pass =>
      unfold pass
      split
      · exact ⟨.refl orderly, hasLeader_nobody⟩
      · exact absorbs_passIn program orderly _

/-! ### The turn order -/

theorem absorbs_advance (orderly : table.Orderly) : Absorbs table [] table.advance := by
  have advanced : ∀ count : Nat, Absorbs table [] (count.repeat advanceOne table) := by
    intro count
    induction count with
    | zero => exact .refl orderly
    | succ count ih =>
        have before := ih.orderly
        exact ih.trans ⟨fun _ => rfl, rfl, rfl,
          { before with active := before.active.seatAfter before.direction }⟩
  have moved := advanced (1 + table.skips).toNat
  exact ⟨moved.tally, moved.seats, moved.total, moved.orderly.of_frame rfl⟩

theorem absorbs_endTurn (orderly : table.Orderly) (leads : table.HasLeader leader) :
    Absorbs table [] (table.endTurn leader) := by
  have ended : Absorbs table [] { table with phase := 0, step := 0, turn := table.turn + 1 } :=
    ⟨fun _ => rfl, rfl, rfl, orderly.of_frame rfl⟩
  unfold endTurn
  dsimp only
  split
  · exact ended.trans (absorbs_advance ended.orderly)
  · exact ⟨fun _ => rfl, rfl, rfl, { orderly with active := leads (by omega) }⟩

theorem absorbs_completePhase (program : Program) (orderly : table.Orderly)
    (leads : table.HasLeader leader) :
    Absorbs table [] (table.completePhase program leader) := by
  have moved : Absorbs table [] { table with phase := table.phase + 1, step := 0 } :=
    ⟨fun _ => rfl, rfl, rfl, orderly.of_frame rfl⟩
  unfold completePhase
  dsimp only
  split
  · exact moved.trans (absorbs_endTurn moved.orderly leads)
  · exact moved

theorem absorbs_afterMove (program : Program) (orderly : table.Orderly)
    (leads : table.HasLeader leader) (choice : Choice) :
    Absorbs table [] (table.afterMove program choice leader) := by
  have stepped : Absorbs table [] { table with step := table.step + 1 } :=
    ⟨fun _ => rfl, rfl, rfl, orderly.of_frame rfl⟩
  unfold afterMove
  cases choice with
  | draw => exact absorbs_completePhase program orderly leads
  | play | discard =>
      dsimp only
      split
      · exact stepped.trans (absorbs_completePhase program stepped.orderly leads)
      · exact stepped
  | trick | bet | claim | bid => exact absorbs_endTurn orderly leads
  | challenge | accept | pass | unknown => exact .refl orderly

theorem absorbs_afterPass (program : Program) (orderly : table.Orderly)
    (leads : table.HasLeader leader) (phase : Phase) :
    Absorbs table [] (table.afterPass program phase leader) := by
  unfold afterPass
  cases phase with
  | trick | betting | claim => exact absorbs_endTurn orderly leads
  | draw | play | discard | bidding => exact absorbs_completePhase program orderly leads

theorem absorbs_finishAction (program : Program) (orderly : table.Orderly) :
    Absorbs table [] (table.finishAction program).2 := by
  have counted : Absorbs table [] { table with actions := table.actions + 1 } :=
    ⟨fun _ => rfl, rfl, rfl, orderly.of_frame rfl⟩
  unfold finishAction
  dsimp only
  split
  · exact counted.trans (absorbs_nextHand program counted.orderly)
  · exact counted

end Table

/-! ### Runs -/

/-- What the active participant can do. -/
inductive Action where
  | move (move : Move)
  | pass

namespace Action

/-- A move is legal if it is on offer, a pass if it is allowed and nothing is on offer. -/
def Legal (program : Program) (table : Table) : Action → Prop
  | move offered => offered ∈ table.moves program
  | pass => table.moves program = [] ∧ table.canPass program = true

def act (program : Program) : Action → Play Outcome
  | move offered => Play.perform program offered
  | pass => Play.pass program

variable {program : Program} {table next : Table} {outcome : Outcome} {action : Action}

theorem absorbs_act (orderly : table.Orderly)
    (acted : action.act program table = .ok outcome next) : table.Absorbs [] next := by
  have passes (passed : Play.pass program table = .ok outcome next) : table.Absorbs [] next := by
    obtain ⟨phase, _, finished⟩ := Play.pass_eq_ok_iff.mp passed
    obtain ⟨settled, leads⟩ := Table.absorbs_passIn program orderly phase
    have sequenced := settled.trans (Table.absorbs_afterPass program settled.orderly leads phase)
    have done := sequenced.trans (Table.absorbs_finishAction program sequenced.orderly)
    rwa [finished] at done
  cases action with
  | pass => exact passes acted
  | move offered =>
      obtain ⟨index, choice⟩ := offered
      by_cases passing : choice = .pass
      · subst passing
        exact passes (Play.perform_pass_eq_ok_iff.mp acted).2
      · obtain ⟨_, leader, moved, carries, finished⟩ := (Play.perform_eq_ok_iff passing).mp acted
        obtain ⟨settled, leads⟩ := Table.absorbs_of_carries orderly orderly.active carries
        have sequenced :=
          settled.trans (Table.absorbs_afterMove program settled.orderly leads choice)
        have done := sequenced.trans (Table.absorbs_finishAction program sequenced.orderly)
        rwa [finished] at done

end Action

/-- The states of legal runs, each with how the game stands in it. -/
inductive Reached (program : Program) (seed : UInt64) : Outcome → Table → Prop where
  | start {before table : Table} (dealt : Table.start program seed before = .ok () table) :
      Reached program seed .open table
  | step {table next : Table} {outcome : Outcome} {action : Action}
      (earlier : Reached program seed .open table) (legal : action.Legal program table)
      (acted : action.act program table = .ok outcome next) : Reached program seed outcome next

/-- A game starts with the first deal unless the program is refused. -/
theorem Table.start_eq_ok_iff {program : Program} {seed : UInt64} {before table : Table} :
    Table.start program seed before = .ok () table ↔
      refusal? program = none ∧ table = opening program seed := by
  unfold Table.start
  cases refusal? program with
  | none =>
      constructor
      · intro dealt
        cases dealt
        exact ⟨rfl, rfl⟩
      · rintro ⟨_, rfl⟩
        rfl
  | some fault =>
      constructor
      · intro refused
        cases refused
      · rintro ⟨accepted, _⟩
        cases accepted

theorem Reached.opening {program : Program} (accepted : Table.refusal? program = none)
    (seed : UInt64) : Reached program seed .open (Table.opening program seed) :=
  @Reached.start program seed {} _ (Table.start_eq_ok_iff.mpr ⟨accepted, rfl⟩)

/-- The first turn begins with the first phase. -/
theorem Table.phase?_opening (program : Program) (seed : UInt64) :
    program.phase? (opening program seed).phase = program.phases.head? := by
  change program.phases[0]? = _
  exact List.head?_eq_getElem?.symm

theorem Program.refusal?_of_inRange {program : Program} (inRange : program.InRange) :
    Table.refusal? program = none := by
  obtain ⟨atLeast, atMost⟩ := inRange.header.participants
  have seatable : ¬(program.header.participants < minParticipants
      || program.header.participants > maxParticipants) = true := by
    simp only [Bool.or_eq_true, decide_eq_true_eq]
    omega
  unfold Table.refusal?
  rw [if_neg (by simpa using inRange.someTurn), if_neg seatable]

/-- A game of a program that was read can always be started. -/
theorem Table.start_of_decode {program : Program} {bytes : List UInt8}
    (accepted : Program.decode bytes = .ok program) (seed : UInt64) (before : Table) :
    Table.start program seed before = .ok () (opening program seed) :=
  start_eq_ok_iff.mpr
    ⟨Program.refusal?_of_inRange (Program.inRange_of_decode accepted), rfl⟩

namespace Reached

variable {program : Program} {seed : UInt64} {outcome : Outcome} {table : Table}

/-- Every state of a run absorbs nothing but the deck that was dealt first. -/
theorem absorbs (inRange : program.InRange) (reached : Reached program seed outcome table) :
    (Table.seated program seed).Absorbs [] table := by
  induction reached with
  | start dealt =>
      obtain ⟨_, rfl⟩ := Table.start_eq_ok_iff.mp dealt
      exact Table.absorbs_opening inRange.header.participants.1 seed
  | step earlier legal acted ih => exact ih.trans (Action.absorbs_act ih.orderly acted)

theorem orderly (inRange : program.InRange) (reached : Reached program seed outcome table) :
    table.Orderly :=
  (reached.absorbs inRange).orderly

end Reached

/-- A game in which a turn is to draw a card. -/
def drawGame : Program where
  phases := [.draw {}]

end Croupier
