/-
What is refused has no effect.

Play at a table is put together from looks, which find something out or object, and from changes,
which cannot fail. As long as every look comes before the first change, whoever is refused has
changed nothing.
-/

import Croupier.Proofs.Play.Step

namespace Croupier.Play

variable {α β : Type} {program : Program} {seat : Int} {move : Move}

/-! ### Looks and changes -/

/-- Whatever comes of it, the table stays as it is. -/
structure Looks (play : Play α) : Prop where
  found : ∀ ⦃table value after⦄, play table = .ok value after → after = table
  refused : ∀ ⦃table fault after⦄, play table = .error fault after → after = table

def Succeeds (play : Play α) : Prop :=
  ∀ table fault after, play table ≠ .error fault after

/-- If it is refused, then without effect. -/
def Atomic (play : Play α) : Prop :=
  ∀ ⦃table fault after⦄, play table = .error fault after → after = table

theorem Succeeds.atomic {play : Play α} (succeeds : Succeeds play) : Atomic play := by
  intro table fault after refused
  exact absurd refused (succeeds table fault after)

/-- A chain is refused in its first part or in what follows it. -/
theorem bind_eq_error {first : Play α} {rest : α → Play β} {table after : Table} {fault : Fault}
    (refused : (first >>= rest) table = .error fault after) :
    first table = .error fault after ∨
      ∃ value middle, first table = .ok value middle ∧ rest value middle = .error fault after := by
  change EStateM.bind first rest table = _ at refused
  unfold EStateM.bind at refused
  cases done : first table with
  | ok value middle =>
      rw [done] at refused
      exact .inr ⟨value, middle, rfl, refused⟩
  | error objection middle =>
      rw [done] at refused
      cases refused
      exact .inl rfl

theorem Looks.bind {first : Play α} {rest : α → Play β} (looks : Looks first)
    (atomic : ∀ value, Atomic (rest value)) : Atomic (first >>= rest) := by
  intro table fault after refused
  rcases bind_eq_error refused with objected | ⟨value, middle, done, later⟩
  · exact looks.refused objected
  · rw [atomic value later]
    exact looks.found done

theorem Looks.andThen {first : Play α} {rest : α → Play β} (looks : Looks first)
    (later : ∀ value, Looks (rest value)) : Looks (first >>= rest) := by
  constructor
  · intro table found after done
    obtain ⟨value, middle, earlier, rest⟩ := bind_eq_ok_iff.mp done
    rw [(later value).found rest]
    exact looks.found earlier
  · exact looks.bind fun value => (later value).refused

theorem Atomic.bind {first : Play α} {rest : α → Play β} (atomic : Atomic first)
    (succeeds : ∀ value, Succeeds (rest value)) : Atomic (first >>= rest) := by
  intro table fault after refused
  rcases bind_eq_error refused with objected | ⟨value, middle, done, later⟩
  · exact atomic objected
  · exact absurd later (succeeds value middle fault after)

theorem Succeeds.bind {first : Play α} {rest : α → Play β} (succeeds : Succeeds first)
    (later : ∀ value, Succeeds (rest value)) : Succeeds (first >>= rest) := by
  intro table fault after refused
  rcases bind_eq_error refused with objected | ⟨value, middle, _, objected⟩
  · exact succeeds table fault after objected
  · exact later value middle fault after objected

theorem looks_get : Looks (get : Play Table) := by
  constructor
  · rintro table value after ⟨⟩
    rfl
  · rintro table fault after ⟨⟩

theorem looks_pure (value : α) : Looks (pure value : Play α) := by
  constructor
  · rintro table value after ⟨⟩
    rfl
  · rintro table fault after ⟨⟩

theorem looks_throw (fault : Fault) : Looks (throw fault : Play α) := by
  constructor
  · rintro table value after ⟨⟩
  · rintro table fault after ⟨⟩
    rfl

theorem atomic_throw (fault : Fault) : Atomic (throw fault : Play α) :=
  (looks_throw fault).refused

/-- A check comes before anything else. -/
theorem atomic_unless {objection : Prop} [Decidable objection] {fault : Fault}
    {never : PUnit → Play α} {rest : Play α} (atomic : Atomic rest) :
    Atomic (if objection then throw fault >>= never else rest) := by
  by_cases objects : objection
  · rw [if_pos objects]
    rintro table other after ⟨⟩
    rfl
  · rw [if_neg objects]
    exact atomic

theorem succeeds_pure (value : α) : Succeeds (pure value : Play α) := by
  rintro table fault after ⟨⟩

theorem succeeds_set (table : Table) : Succeeds (set table : Play PUnit) := by
  rintro before fault after ⟨⟩

theorem succeeds_modify (change : Table → Table) : Succeeds (modify change : Play PUnit) := by
  rintro table fault after ⟨⟩

theorem succeeds_step (change : Table → α × Table) : Succeeds (step change) := by
  rintro table fault after ⟨⟩

/-! ### Moves -/

theorem looks_phaseOf (program : Program) (move : Move) : Looks (phaseOf program move) := by
  unfold phaseOf
  cases program.phase? move.phase with
  | none => exact looks_throw _
  | some phase => exact looks_pure phase

theorem looks_cardAt (seat place : Int) : Looks (cardAt seat place) := by
  unfold cardAt
  apply looks_get.andThen
  intro table
  dsimp only
  cases (if place < 0 then none else (table.hand seat)[place.toNat]?) with
  | none => exact looks_throw _
  | some card => exact looks_pure card

/-- A change that is followed by the report that nobody leads. -/
theorem atomic_modify (change : Table → Table) :
    Atomic (modify change >>= fun _ => pure nobody : Play Int) :=
  ((succeeds_modify change).bind fun _ => succeeds_pure nobody).atomic

theorem atomic_apply (program : Program) (seat : Int) (move : Move) :
    Atomic (apply program seat move) := by
  obtain ⟨index, choice⟩ := move
  unfold apply
  cases choice with
  | draw | accept | bid =>
      apply (looks_phaseOf program _).bind
      intro phase
      cases phase <;> first | exact atomic_throw _ | exact atomic_modify _
  | play place | discard place | claim place =>
      apply (looks_phaseOf program _).bind
      intro phase
      cases phase <;> first
        | exact atomic_throw _
        | exact (looks_cardAt seat place).bind fun card => atomic_modify _
  | trick place =>
      apply (looks_phaseOf program _).bind
      intro phase
      cases phase <;> first
        | exact atomic_throw _
        | exact (looks_cardAt seat place).bind fun card => (succeeds_step _).atomic
  | bet action =>
      apply (looks_phaseOf program _).bind
      intro phase
      cases phase with
      | betting phase =>
          apply looks_get.bind
          intro table
          cases table.wager? seat phase action with
          | none => exact atomic_throw _
          | some wagered => exact ((succeeds_set _).bind fun _ => succeeds_pure nobody).atomic
      | draw | play | discard | trick | claim | bidding => exact atomic_throw _
  | challenge =>
      apply (looks_phaseOf program _).bind
      intro phase
      cases phase with
      | claim phase =>
          apply looks_get.bind
          intro table
          exact atomic_unless (atomic_modify _)
      | draw | play | discard | trick | betting | bidding => exact atomic_throw _
  | pass => exact (succeeds_step _).atomic
  | unknown => exact atomic_throw _

/-! ### Actions -/

theorem atomic_pass (program : Program) : Atomic (pass program) := by
  unfold pass
  apply looks_get.bind
  intro table
  cases program.phase? table.phase with
  | none => exact atomic_throw _
  | some phase => exact (succeeds_step _).atomic

theorem atomic_perform (program : Program) (move : Move) : Atomic (perform program move) := by
  obtain ⟨index, choice⟩ := move
  unfold perform
  apply looks_get.bind
  intro table
  cases choice with
  | pass => exact atomic_unless (atomic_pass program)
  | _ =>
      apply atomic_unless
      apply (atomic_apply program table.active _).bind
      intro leader
      exact succeeds_step _

theorem atomic_start (program : Program) (seed : UInt64) : Atomic (Table.start program seed) := by
  unfold Table.start
  cases Table.refusal? program with
  | none => exact (succeeds_modify _).atomic
  | some fault =>
      rintro table other after ⟨⟩
      rfl

/-- Whatever is refused - a move, legal or not, a pass, or a game of a program that cannot be
played - leaves the table exactly as it was. -/
theorem refused_without_effect (program : Program) {table after : Table} {fault : Fault} :
    (∀ seat move, apply program seat move table = .error fault after → after = table) ∧
      (∀ move, perform program move table = .error fault after → after = table) ∧
      (pass program table = .error fault after → after = table) ∧
      ∀ seed, Table.start program seed table = .error fault after → after = table := by
  refine ⟨?_, ?_, ?_, ?_⟩
  · intro seat move refused
    exact atomic_apply program seat move refused
  · intro move refused
    exact atomic_perform program move refused
  · intro refused
    exact atomic_pass program refused
  · intro seed refused
    exact atomic_start program seed refused

/-- In a turn that is to play a card, nobody can play one that they do not hold, draw, or pass a
phase that does not exist; and no game is played without phases. -/
theorem refused_without_effect_playPhase :
    (∃ after, apply { phases := [.play {}] } 1 ⟨0, .play 4 .discard⟩
        { players := [{}, { hand := [{}] }], pot := 3 } = .error (.noSuchCard 4 1) after ∧
      after = { players := [{}, { hand := [{}] }], pot := 3 }) ∧
      (∃ after, perform { phases := [.play {}] } ⟨0, .draw .deck⟩
          { players := [{}, { hand := [{}] }], pot := 3 } =
            .error (.foreignMove (.draw .deck) .play) after ∧
        after = { players := [{}, { hand := [{}] }], pot := 3 }) ∧
      (∃ after, pass { phases := [.play {}] }
          { players := [{}, { hand := [{}] }], phase := 1 } = .error .passOutsideTurn after ∧
        after = { players := [{}, { hand := [{}] }], phase := 1 }) ∧
      ∃ after, Table.start {} 7 { players := [{}, { hand := [{}] }], pot := 3 } =
          .error .noPhases after ∧
        after = { players := [{}, { hand := [{}] }], pot := 3 } := by
  refine ⟨⟨_, rfl, ?_⟩, ⟨_, rfl, ?_⟩, ⟨_, rfl, ?_⟩, ⟨_, rfl, ?_⟩⟩
  · exact (refused_without_effect { phases := [.play {}] }).1 1 ⟨0, .play 4 .discard⟩ rfl
  · exact (refused_without_effect { phases := [.play {}] }).2.1 ⟨0, .draw .deck⟩ rfl
  · exact (refused_without_effect { phases := [.play {}] }).2.2.1 rfl
  · exact (refused_without_effect {}).2.2.2 7 rfl

end Croupier.Play
