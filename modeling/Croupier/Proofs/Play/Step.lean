/-
What an action does, taken apart.

An action that is not refused went through a chain of checks, and each check that it passed is
a fact about the table. What remains is one of a few changes of the table, one for each kind of
choice, followed by what the turn order makes of it.
-/

import Croupier.Rules.Offer
import Croupier.Rules.Turn
import Mathlib

namespace Croupier

namespace Table

/-- Whether a card lies at a place of a hand. -/
def HasCard (table : Table) (seat place : Int) (card : Card) : Prop :=
  0 ≤ place ∧ (table.hand seat)[place.toNat]? = some card

end Table

namespace Play

variable {α : Type} {program : Program} {table next : Table} {seat leader : Int} {move : Move}
  {outcome : Outcome}

/-! ### Checks -/

theorem bind_eq_ok_iff {β : Type} {first : Play α} {rest : α → Play β} {result : β} :
    (first >>= rest) table = .ok result next ↔
      ∃ value middle, first table = .ok value middle ∧ rest value middle = .ok result next := by
  change EStateM.bind first rest table = _ ↔ _
  unfold EStateM.bind
  cases first table with
  | ok value middle =>
      constructor
      · exact fun accepted => ⟨value, middle, rfl, accepted⟩
      · rintro ⟨_, _, ⟨⟩, accepted⟩
        exact accepted
  | error problem middle => simp

theorem get_bind {rest : Table → Play α} : (get >>= rest) table = rest table table :=
  rfl

/-- A chain that goes on with what a lookup finds. -/
theorem elim_eq_ok_iff {β : Type} {found : Option β} {fault : Fault} {rest : β → Play α}
    {result : α} :
    found.elim (throw fault) rest table = .ok result next ↔
      ∃ value, found = some value ∧ rest value table = .ok result next := by
  cases found with
  | none =>
      constructor
      · intro refused
        cases refused
      · rintro ⟨_, ⟨⟩, _⟩
  | some there =>
      constructor
      · exact fun accepted => ⟨there, rfl, accepted⟩
      · rintro ⟨_, ⟨⟩, accepted⟩
        exact accepted

theorem elim_bind_eq_ok_iff {β : Type} {found : Option β} {fault : Fault} {rest : β → Play α}
    {result : α} :
    (found.elim (throw fault) pure >>= rest) table = .ok result next ↔
      ∃ value, found = some value ∧ rest value table = .ok result next := by
  have same : (found.elim (throw fault) pure >>= rest) table =
      found.elim (throw fault) rest table := by
    cases found <;> rfl
  rw [same, elim_eq_ok_iff]

/-- A chain that begins by looking up the phase of a move. -/
theorem phaseOf_bind_eq_ok_iff {rest : Phase → Play α} {result : α} :
    (phaseOf program move >>= rest) table = .ok result next ↔
      ∃ phase, program.phase? move.phase = some phase ∧ rest phase table = .ok result next := by
  have looked : phaseOf program move =
      (program.phase? move.phase).elim (throw (.noSuchPhase move.phase)) pure := by
    unfold phaseOf
    cases program.phase? move.phase <;> rfl
  rw [looked, elim_bind_eq_ok_iff]

/-- A chain that begins by looking up a card of a hand. -/
theorem cardAt_bind_eq_ok_iff {place : Int} {rest : Card → Play α} {result : α} :
    (cardAt seat place >>= rest) table = .ok result next ↔
      ∃ card, table.HasCard seat place card ∧ rest card table = .ok result next := by
  have looked : cardAt seat place table =
      ((if place < 0 then none else (table.hand seat)[place.toNat]?).elim
        (throw (Fault.noSuchCard place (table.hand seat).length)) pure : Play Card) table := by
    unfold cardAt
    rw [get_bind]
    cases (if place < 0 then none else (table.hand seat)[place.toNat]?) <;> rfl
  rw [bind_eq_ok_iff, looked, ← bind_eq_ok_iff, elim_bind_eq_ok_iff]
  unfold Table.HasCard
  refine exists_congr fun card => and_congr_left fun _ => ?_
  by_cases negative : place < 0
  · rw [if_pos negative]
    constructor
    · intro absent
      cases absent
    · rintro ⟨nonneg, _⟩
      omega
  · rw [if_neg negative, and_iff_right (Int.not_lt.mp negative)]

/-- A chain that begins with a check. -/
theorem unless_bind_eq_ok_iff {objection : Prop} [Decidable objection] {fault : Fault}
    {never : PUnit → Play α} {rest : Play α} {result : α} :
    (if objection then throw fault >>= never else rest) table = .ok result next ↔
      ¬objection ∧ rest table = .ok result next := by
  by_cases objects : objection
  · rw [if_pos objects]
    constructor
    · intro refused
      cases refused
    · rintro ⟨accepted, _⟩
      exact absurd objects accepted
  · rw [if_neg objects]
    exact ⟨fun accepted => ⟨objects, accepted⟩, And.right⟩

theorem step_eq_ok_iff {change : Table → α × Table} {result : α} :
    step change table = .ok result next ↔ change table = (result, next) := by
  change EStateM.Result.ok (change table).1 (change table).2 = _ ↔ _
  rw [EStateM.Result.ok.injEq, Prod.ext_iff]

/-! ### Moves -/

/-- What a move for a participant does to the table, and who leads by it. -/
inductive Carries (program : Program) (seat : Int) (table : Table) :
    Move → Int → Table → Prop where
  | draw {index : Int} {source : Location} {phase : DrawPhase}
      (found : program.phase? index = some (.draw phase)) :
      Carries program seat table ⟨index, .draw source⟩ nobody
        (table.draw seat phase.source phase.count)
  | play {index place : Int} {target : Location} {phase : PlayPhase} {card : Card}
      (found : program.phase? index = some (.play phase))
      (held : table.HasCard seat place card) :
      Carries program seat table ⟨index, .play place target⟩ nobody
        (((table.without seat place.toNat).playCard program seat card target).triggerEffect
          program seat card)
  | discard {index place : Int} {target : Location} {phase : DiscardPhase} {card : Card}
      (found : program.phase? index = some (.discard phase))
      (held : table.HasCard seat place card) :
      Carries program seat table ⟨index, .discard place target⟩ nobody
        ((table.without seat place.toNat).place seat target card)
  | trick {index place : Int} {phase : TrickPhase} {card : Card} {played : Table}
      (found : program.phase? index = some (.trick phase))
      (held : table.HasCard seat place card)
      (contributed : played = ((table.without seat place.toNat).contribute seat card
        phase).triggerEffect program seat card) :
      Carries program seat table ⟨index, .trick place⟩ (played.settleTrick program phase).1
        (played.settleTrick program phase).2
  | bet {index : Int} {action : BettingAction} {phase : BettingPhase} {wagered : Table}
      (found : program.phase? index = some (.betting phase))
      (known : table.wager? seat phase action = some wagered) :
      Carries program seat table ⟨index, .bet action⟩ nobody (wagered.settleBetting program)
  | claim {index place : Int} {phase : ClaimPhase} {card : Card}
      (found : program.phase? index = some (.claim phase))
      (held : table.HasCard seat place card) :
      Carries program seat table ⟨index, .claim place⟩ nobody
        ((table.without seat place.toNat).layClaim seat card phase)
  | challenge {index : Int} {phase : ClaimPhase}
      (found : program.phase? index = some (.claim phase))
      (pending : table.claim.pending = true) :
      Carries program seat table ⟨index, .challenge⟩ nobody (table.challengeClaim seat)
  | accept {index : Int} {phase : ClaimPhase}
      (found : program.phase? index = some (.claim phase)) :
      Carries program seat table ⟨index, .accept⟩ nobody table.closeClaim
  | bid {index value : Int} {phase : BiddingPhase}
      (found : program.phase? index = some (.bidding phase)) :
      Carries program seat table ⟨index, .bid value⟩ nobody (table.announce seat value)
  | pass {index : Int} :
      Carries program seat table ⟨index, .pass⟩ (table.pass program index).1
        (table.pass program index).2

/-- A move that is not refused was carried out. -/
theorem carries_of_apply (applied : apply program seat move table = .ok leader next) :
    Carries program seat table move leader next := by
  obtain ⟨index, choice⟩ := move
  unfold apply at applied
  cases choice with
  | pass =>
      cases applied
      exact .pass
  | unknown code beyond => cases applied
  | draw source =>
      obtain ⟨phase, found, rest⟩ := phaseOf_bind_eq_ok_iff.mp applied
      cases phase with
      | draw phase =>
          cases rest
          exact .draw found
      | _ => cases rest
  | play place target =>
      obtain ⟨phase, found, rest⟩ := phaseOf_bind_eq_ok_iff.mp applied
      cases phase with
      | play phase =>
          obtain ⟨card, held, rest⟩ := cardAt_bind_eq_ok_iff.mp rest
          cases rest
          exact .play found held
      | _ => cases rest
  | discard place target =>
      obtain ⟨phase, found, rest⟩ := phaseOf_bind_eq_ok_iff.mp applied
      cases phase with
      | discard phase =>
          obtain ⟨card, held, rest⟩ := cardAt_bind_eq_ok_iff.mp rest
          cases rest
          exact .discard found held
      | _ => cases rest
  | trick place =>
      obtain ⟨phase, found, rest⟩ := phaseOf_bind_eq_ok_iff.mp applied
      cases phase with
      | trick phase =>
          obtain ⟨card, held, rest⟩ := cardAt_bind_eq_ok_iff.mp rest
          cases rest
          exact .trick found held rfl
      | _ => cases rest
  | bet action =>
      obtain ⟨phase, found, rest⟩ := phaseOf_bind_eq_ok_iff.mp applied
      cases phase with
      | betting phase =>
          have looked : _ = EStateM.Result.ok leader next := get_bind.symm.trans rest
          beta_reduce at looked
          cases known : table.wager? seat phase action with
          | none =>
              rw [known] at looked
              cases looked
          | some wagered =>
              rw [known] at looked
              cases looked
              exact .bet found known
      | _ => cases rest
  | claim place =>
      obtain ⟨phase, found, rest⟩ := phaseOf_bind_eq_ok_iff.mp applied
      cases phase with
      | claim phase =>
          obtain ⟨card, held, rest⟩ := cardAt_bind_eq_ok_iff.mp rest
          cases rest
          exact .claim found held
      | _ => cases rest
  | challenge =>
      obtain ⟨phase, found, rest⟩ := phaseOf_bind_eq_ok_iff.mp applied
      cases phase with
      | claim phase =>
          change (if (!table.claim.pending) = true then
              throw Fault.noPendingClaim >>= fun _ => _
            else
              modify (·.challengeClaim seat) >>= fun _ => pure nobody : Play Int) table = _ at rest
          obtain ⟨pending, rest⟩ := unless_bind_eq_ok_iff.mp rest
          cases rest
          exact .challenge found (by simpa using pending)
      | _ => cases rest
  | accept =>
      obtain ⟨phase, found, rest⟩ := phaseOf_bind_eq_ok_iff.mp applied
      cases phase with
      | claim phase =>
          cases rest
          exact .accept found
      | _ => cases rest
  | bid value =>
      obtain ⟨phase, found, rest⟩ := phaseOf_bind_eq_ok_iff.mp applied
      cases phase with
      | bidding phase =>
          cases rest
          exact .bid found
      | _ => cases rest

/-- A move that can be carried out is not refused. -/
theorem apply_of_carries (carries : Carries program seat table move leader next) :
    apply program seat move table = .ok leader next := by
  cases carries with
  | pass => rfl
  | draw found | accept found | bid found =>
      exact phaseOf_bind_eq_ok_iff.mpr ⟨_, found, rfl⟩
  | play found held | discard found held | claim found held =>
      exact phaseOf_bind_eq_ok_iff.mpr ⟨_, found, cardAt_bind_eq_ok_iff.mpr ⟨_, held, rfl⟩⟩
  | trick found held contributed =>
      subst contributed
      exact phaseOf_bind_eq_ok_iff.mpr ⟨_, found, cardAt_bind_eq_ok_iff.mpr ⟨_, held, rfl⟩⟩
  | challenge found pending =>
      refine phaseOf_bind_eq_ok_iff.mpr ⟨_, found, ?_⟩
      exact unless_bind_eq_ok_iff.mpr ⟨by simpa using pending, rfl⟩
  | bet found known =>
      refine phaseOf_bind_eq_ok_iff.mpr ⟨_, found, ?_⟩
      refine get_bind.trans ?_
      rw [known]
      rfl

theorem apply_eq_ok_iff :
    apply program seat move table = .ok leader next ↔
      Carries program seat table move leader next :=
  ⟨carries_of_apply, apply_of_carries⟩

/-! ### Actions -/

theorem pass_eq_ok_iff :
    pass program table = .ok outcome next ↔
      ∃ phase, program.phase? table.phase = some phase ∧
        ((table.passIn program phase).2.afterPass program phase
          (table.passIn program phase).1).finishAction program = (outcome, next) := by
  have looked : pass program table =
      (program.phase? table.phase).elim (throw Fault.passOutsideTurn)
        (fun phase => step fun table => ((table.passIn program phase).2.afterPass program phase
          (table.passIn program phase).1).finishAction program) table := by
    unfold pass
    rw [get_bind]
    cases program.phase? table.phase <;> rfl
  rw [looked]
  simp only [elim_eq_ok_iff, step_eq_ok_iff]

theorem perform_pass_eq_ok_iff {index : Int} :
    perform program ⟨index, .pass⟩ table = .ok outcome next ↔
      index = table.phase ∧ pass program table = .ok outcome next := by
  change (if index ≠ table.phase then
      throw (Fault.wrongPhase index table.phase) >>= fun _ => _
    else
      pass program) table = _ ↔ _
  rw [unless_bind_eq_ok_iff, not_not]

theorem perform_eq_ok_iff {index : Int} {choice : Choice} (acts : choice ≠ .pass) :
    perform program ⟨index, choice⟩ table = .ok outcome next ↔
      index = table.phase ∧ ∃ leader moved,
        Carries program table.active table ⟨index, choice⟩ leader moved ∧
          (moved.afterMove program choice leader).finishAction program = (outcome, next) := by
  have unfolded : perform program ⟨index, choice⟩ table =
      (if index ≠ table.phase then
        throw (Fault.wrongPhase index table.phase) >>= fun _ : PUnit => pass program
      else
        apply program table.active ⟨index, choice⟩ >>= fun leader => step fun table =>
          (table.afterMove program choice leader).finishAction program) table := by
    unfold perform
    cases choice with
    | pass => exact absurd rfl acts
    | _ => rfl
  rw [unfolded, unless_bind_eq_ok_iff, not_not]
  refine and_congr_right fun _ => ?_
  simp only [bind_eq_ok_iff, step_eq_ok_iff, apply_eq_ok_iff]

theorem exists_pass {phase : Phase} (found : program.phase? table.phase = some phase) :
    ∃ outcome next, pass program table = .ok outcome next :=
  ⟨_, _, pass_eq_ok_iff.mpr ⟨phase, found, rfl⟩⟩

theorem exists_perform {choice : Choice} {moved : Table} (acts : choice ≠ .pass)
    (carries : Carries program table.active table ⟨table.phase, choice⟩ leader moved) :
    ∃ outcome next, perform program ⟨table.phase, choice⟩ table = .ok outcome next :=
  ⟨_, _, (perform_eq_ok_iff acts).mpr ⟨rfl, leader, moved, carries, rfl⟩⟩

end Play

end Croupier
