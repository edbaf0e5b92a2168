/-
Whether a trick and its contributors stay in step.

The cards of a trick lie on the first tableau pile, and nothing tells them from other cards there.
So a turn that draws from the tableau, or plays or discards to it, before it comes to the trick
takes cards out of the trick or adds some that nobody has contributed. A program whose turns do
nothing of the kind has a contributor for each card of a trick, a card that was led, and a winner
among the contributors, whatever its phases would do that no turn ever comes to.
-/

import Croupier.Proofs.Play.Turns

namespace Croupier

/-- Turns that come to a trick leave the tableau alone on their way there. -/
def Program.TricksUndisturbed (program : Program) : Prop :=
  program.endsIn .trick = true →
    ∀ phase ∈ program.phases.takeWhile fun phase => !phase.endsTurn, phase.touchesTableau = false

instance (program : Program) : Decidable program.TricksUndisturbed :=
  inferInstanceAs (Decidable (_ → _))

theorem Phase.touchesTableau_of_endsTurn {phase : Phase} (ends : phase.endsTurn = true) :
    phase.touchesTableau = false := by
  cases phase with
  | trick | betting | claim => rfl
  | draw | play | discard | bidding => cases ends

namespace Table

variable {table next : Table} {program : Program} {phase : Phase} {leader : Int}

/-- In such a program no turn comes to a phase on the tableau. -/
theorem InTurn.touchesTableau (inTurn : table.InTurn program)
    (undisturbed : program.TricksUndisturbed) (tricks : program.endsIn .trick = true)
    (found : program.phase? table.phase = some phase) : phase.touchesTableau = false := by
  cases ends : phase.endsTurn with
  | true => exact Phase.touchesTableau_of_endsTurn ends
  | false => exact undisturbed tricks phase (inTurn.mem_takeWhile found ends)

/-! ### Turns without tricks -/

theorem trick_passIn (inTurn : table.InTurn program) (none : program.endsIn .trick = false)
    (found : program.phase? table.phase = some phase) :
    (table.passIn program phase).2.trick = table.trick := by
  have passed := book_passIn table program phase
  cases phase with
  | trick phase =>
      rw [inTurn.endsIn found rfl .trick] at none
      cases none
  | betting phase =>
      obtain ⟨_, _, passed⟩ := passed
      exact congrArg Book.trick passed
  | draw | play | discard | claim | bidding => exact congrArg Book.trick passed

theorem trick_of_carries {choice : Choice} (inTurn : table.InTurn program)
    (none : program.endsIn .trick = false) (acts : choice ≠ .pass)
    (carries : Play.Carries program table.active table ⟨table.phase, choice⟩ leader next) :
    next.trick = table.trick := by
  have entered := book_of_carries carries
  cases choice with
  | trick =>
      cases carries with
      | trick followed =>
          rw [inTurn.endsIn followed rfl .trick] at none
          cases none
  | bet =>
      obtain ⟨_, _, entered⟩ := entered
      exact congrArg Book.trick entered
  | draw | play | discard | claim | challenge | accept | bid => exact congrArg Book.trick entered
  | pass => exact absurd rfl acts
  | unknown => cases carries

/-! ### Settling a trick -/

/-- The table at which a contribution is settled. -/
def afterContribution (table : Table) (program : Program) (phase : TrickPhase) (place : Int)
    (card : Card) : Table :=
  ((table.without table.active place.toNat).contribute table.active card phase).triggerEffect
    program table.active card

theorem trick_afterContribution (table : Table) (program : Program) (phase : TrickPhase)
    (place : Int) (card : Card) :
    (table.afterContribution program phase place card).trick = table.trick ++ [table.active] := by
  have lifted : (table.without table.active place.toNat).book = table.book :=
    book_modifyHand table table.active _
  have entered := book_contribute (table.without table.active place.toNat) table.active card phase
  have triggered := book_triggerEffect
    ((table.without table.active place.toNat).contribute table.active card phase) program
    table.active card
  have trick : (table.without table.active place.toNat).trick = table.trick :=
    congrArg Book.trick lifted
  have same := congrArg Book.trick (triggered.trans entered)
  rw [trick] at same
  exact same

theorem Matched.afterContribution (matched : table.Matched) (program : Program)
    (phase : TrickPhase) (place : Int) (card : Card) :
    (table.afterContribution program phase place card).Matched :=
  matched.contribution program table.active place.toNat card phase

/-- A trick of which each card was contributed by somebody: one was led, and whichever wins, its
contributor takes the trick. -/
structure TrickInStep (table : Table) : Prop where
  led : ∃ lead followed rest, table.tableau = (lead :: followed) :: rest
  counted : table.centre.length = table.trick.length
  won : ∀ phase : TrickPhase, phase.winningPlace table.centre < table.trick.length
  taken : ∀ (program : Program) (phase : TrickPhase),
    (table.takeTrick program phase).1 ∈ table.trick

theorem Matched.trickInStep (matched : table.Matched) (begun : table.trick ≠ []) :
    table.TrickInStep := by
  have counted := matched.contributors
  have some : table.centre ≠ [] := by
    rw [← List.length_pos_iff, ← counted]
    exact List.length_pos_iff.mpr begun
  constructor
  · unfold centre at some
    match listed : table.tableau with
    | [] =>
        rw [listed] at some
        exact absurd rfl some
    | [] :: rest =>
        rw [listed] at some
        exact absurd rfl some
    | (lead :: followed) :: rest => exact ⟨lead, followed, rest, rfl⟩
  · exact counted.symm
  · intro phase
    rw [counted]
    exact phase.winningPlace_lt_length some
  · intro program phase
    exact matched.takeTrick_mem begun program phase

end Table

/-! ### Runs -/

namespace Reached

variable {program : Program} {seed : UInt64} {outcome : Outcome} {table : Table}

theorem trick_eq_nil (inRange : program.InRange) (none : program.endsIn .trick = false)
    (reached : Reached program seed outcome table) : table.trick = [] := by
  have empty : table.book.trick = [] := by
    refine reached.book_induction (motive := fun book => book.trick = []) inRange rfl ?_ ?_ ?_ ?_
    · intro book turn phase step before
      exact before
    · intro table phase inTurn found before
      exact (Table.trick_passIn inTurn none found).trans before
    · intro table moved phase choice leader _ _ inTurn _ _ acts carries before
      exact (Table.trick_of_carries inTurn none acts carries).trans before
    · intro table _ _
      rfl
  exact empty

theorem matched_of_undisturbed (inRange : program.InRange)
    (undisturbed : program.TricksUndisturbed) (tricks : program.endsIn .trick = true)
    (reached : Reached program seed outcome table) : table.Matched := by
  induction reached with
  | start dealt =>
      obtain ⟨_, rfl⟩ := Table.start_eq_ok_iff.mp dealt
      exact .opening program seed
  | step earlier legal acted ih =>
      refine Action.matched_act ih ?_ legal acted
      intro phase found
      exact (earlier.inTurn inRange).touchesTableau undisturbed tricks found

/-- In every state of a legal run of a program that was read and whose turns leave the tableau to
the tricks, a trick that has begun is in step with its contributors. It still is when a pass
settles it, after a battle, and when a contribution does. -/
theorem trick_in_step {bytes : List UInt8} (accepted : Program.decode bytes = .ok program)
    (undisturbed : program.TricksUndisturbed) (reached : Reached program seed outcome table) :
    (table.trick ≠ [] → table.TrickInStep ∧ (table.settleBattle program).TrickInStep) ∧
      ∀ (phase : TrickPhase) (place : Int) (card : Card),
        program.phase? table.phase = some (.trick phase) →
          (table.afterContribution program phase place card).TrickInStep := by
  have inRange := Program.inRange_of_decode accepted
  constructor
  · intro begun
    cases tricks : program.endsIn .trick with
    | true =>
        have matched := reached.matched_of_undisturbed inRange undisturbed tricks
        rw [matched.settleBattle, and_self]
        exact matched.trickInStep begun
    | false => exact absurd (reached.trick_eq_nil inRange tricks) begun
  · intro phase place card found
    have tricks := (reached.inTurn inRange).endsIn found rfl .trick
    have matched := reached.matched_of_undisturbed inRange undisturbed tricks
    apply (matched.afterContribution program phase place card).trickInStep
    rw [Table.trick_afterContribution]
    exact List.append_ne_nil_of_right_ne_nil _ (List.cons_ne_nil _ [])

end Reached

/-- A turn comes to the trick before it could draw from the tableau. -/
def trickThenDraw : Program :=
  shortGame [.trick {}, .draw { source := .tableau }]

theorem Reached.trick_in_step_trickThenDraw :
    Program.decode trickThenDraw.encode = .ok trickThenDraw ∧ trickThenDraw.TricksUndisturbed ∧
      ∃ table, Reached trickThenDraw 7 .open table ∧ table.trick = [0] ∧
        (table.TrickInStep ∧ (table.settleBattle trickThenDraw).TrickInStep) ∧
        ∀ place card, (table.afterContribution trickThenDraw {} place card).TrickInStep := by
  have accepted : Program.decode trickThenDraw.encode = .ok trickThenDraw := by decide +kernel
  have undisturbed : trickThenDraw.TricksUndisturbed := by decide
  have start := Table.start_of_decode accepted 7 {}
  obtain ⟨first, second, third, fourth, deck, generator, dealt⟩ :=
    Table.exists_opening_shortGame [.trick {}, .draw { source := .tableau }] 7
  have led : ∃ table, Reached trickThenDraw 7 .open table ∧ table.trick = [0] ∧
      trickThenDraw.phase? table.phase = some (.trick {}) := by
    unfold trickThenDraw at start ⊢
    rw [dealt] at start
    have contributed := @Reached.step _ _ _ _ .open (.move ⟨0, .trick 0⟩) (.start start)
      (List.mem_of_getElem? (i := 0) rfl) rfl
    exact ⟨_, contributed, rfl, rfl⟩
  obtain ⟨table, run, begun, current⟩ := led
  have some : table.trick ≠ [] := by
    rw [begun]
    exact List.cons_ne_nil 0 []
  obtain ⟨inStep, settled⟩ := trick_in_step accepted undisturbed run
  exact ⟨accepted, undisturbed, table, run, begun, inStep some,
    fun place card => settled {} place card current⟩

/-- A turn may draw from the tableau before it comes to the trick. -/
def drawThenTrick : Program :=
  shortGame [.draw { source := .tableau, mandatory := false }, .trick {}]

/-- The second participant takes the card that the first one has led: there is a contributor,
but no card. -/
theorem Reached.trick_out_of_step :
    Program.decode drawThenTrick.encode = .ok drawThenTrick ∧
      ∃ table, Reached drawThenTrick 7 .open table ∧ table.trick = [0] ∧
        table.tableau = [[]] := by
  have accepted : Program.decode drawThenTrick.encode = .ok drawThenTrick := by decide +kernel
  have start := Table.start_of_decode accepted 7 {}
  obtain ⟨first, second, third, fourth, deck, generator, dealt⟩ :=
    Table.exists_opening_shortGame [.draw { source := .tableau, mandatory := false }, .trick {}] 7
  refine ⟨accepted, ?_⟩
  unfold drawThenTrick at start ⊢
  rw [dealt] at start
  have passed := @Reached.step _ _ _ _ .open (.move ⟨0, .pass⟩) (.start start)
    (List.mem_of_getElem? (i := 0) rfl) rfl
  have led := @Reached.step _ _ _ _ .open (.move ⟨1, .trick 0⟩) passed
    (List.mem_of_getElem? (i := 0) rfl) rfl
  have drawn := @Reached.step _ _ _ _ .open (.move ⟨0, .draw .tableau⟩) led
    (List.mem_of_getElem? (i := 0) rfl) rfl
  exact ⟨_, drawn, rfl, rfl⟩

end Croupier
