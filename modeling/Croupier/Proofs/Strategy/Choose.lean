/-
What a strategy can choose.

Every strategy names the place of one of the moves that it is given: a draw stays below its bound,
the best values of a lookahead belong to moves, and a search counts its visits by the places of the
moves. A choice changes nothing about the strategist but the generator.
-/

import Croupier.Strategy.Choose
import Croupier.Proofs.Success

namespace Croupier

/-! ### Draws -/

namespace Draw

variable {σ : Type} {next : σ → UInt64 × σ} {source : σ} {bound : Nat}

/-- A draw below a bound of more than 64 bits stays below what is left of the bound. -/
theorem below_lt (positive : 0 < bound) : (below next bound source).1 < bound := by
  have cut : bound.toUInt64.toNat ≤ bound := by
    rw [Nat.toUInt64_eq, UInt64.toNat_ofNat']
    exact Nat.mod_le _ _
  unfold below
  dsimp only
  split
  · exact positive
  · rename_i nonzero
    have room : 0 < bound.toUInt64.toNat := by
      rw [Nat.pos_iff_ne_zero]
      intro zero
      exact nonzero (UInt64.toNat_inj.mp zero)
    rw [UInt64.toNat_mod]
    exact (Nat.mod_lt _ room).trans_le cut

end Draw

theorem Generator.below_lt {generator : Generator} {bound : Nat} (positive : 0 < bound) :
    (generator.below bound).1 < bound :=
  Draw.below_lt positive

namespace Strategist

variable {table : Table} {program : Program} {moves : List Move} {seat : Int}
  {generator drawn : Generator}

/-! ### Lookahead -/

theorem length_lookAhead {values : List Int}
    (looked : lookAhead table program seat moves generator = .ok (values, drawn)) :
    values.length = moves.length := by
  induction moves generalizing values generator with
  | nil =>
      cases looked
      rfl
  | cons move rest ih =>
      obtain ⟨⟨outcome, after, tried⟩, _, looked⟩ := bind_eq_ok_iff.mp looked
      obtain ⟨⟨later, left⟩, behind, looked⟩ := bind_eq_ok_iff.mp looked
      cases looked
      rw [List.length_cons, List.length_cons, ih behind]

theorem lt_length_of_mem_greatest {values : List Int} {place : Nat}
    (best : place ∈ greatest values) : place < values.length := by
  unfold greatest at best
  split at best
  · cases best
  · obtain ⟨⟨value, _⟩, entry, rfl⟩ := List.mem_map.mp best
    exact List.snd_lt_of_mem_zipIdx (List.mem_of_mem_filter entry)

theorem chooseGreedily_lt {place : Nat} (some : moves ≠ [])
    (chosen : chooseGreedily table program moves seat generator = .ok (place, drawn)) :
    place < moves.length := by
  obtain ⟨⟨values, looked⟩, thought, chosen⟩ := bind_eq_ok_iff.mp chosen
  have named : (greatest values).getD (looked.below (greatest values).length).1 0 = place :=
    (Prod.mk.inj (Except.ok.inj chosen)).1
  have values_length := length_lookAhead thought
  rw [← named, List.getD_eq_getElem?_getD]
  cases best : (greatest values)[(looked.below (greatest values).length).1]? with
  | none => exact List.length_pos_iff.mpr some
  | some place =>
      rw [← values_length]
      exact lt_length_of_mem_greatest (List.mem_of_getElem? best)

/-! ### Tree search -/

theorem length_runSimulations {search : SearchSettings} {count simulation : Nat}
    {trials after : List Trial}
    (ran : runSimulations table program seat search moves count simulation trials generator =
      .ok (after, drawn)) : after.length = trials.length := by
  induction count generalizing simulation trials generator with
  | zero =>
      cases ran
      rfl
  | succ count ih =>
      unfold runSimulations at ran
      dsimp only at ran
      split at ran
      · cases ran
        rfl
      · obtain ⟨⟨halfPoints, simulated⟩, _, ran⟩ := bind_eq_ok_iff.mp ran
        rw [ih ran, List.length_modify]

theorem mostVisited_eq_or_mem {trials : List (Trial × Nat)} {place visits : Nat} :
    mostVisited trials place visits = place ∨
      ∃ trial, (trial, mostVisited trials place visits) ∈ trials := by
  induction trials generalizing place visits with
  | nil => exact .inl rfl
  | cons first rest ih =>
      obtain ⟨trial, there⟩ := first
      unfold mostVisited
      split
      · rcases @ih there trial.visits with same | ⟨other, member⟩
        · rw [same]
          exact .inr ⟨trial, List.mem_cons_self⟩
        · exact .inr ⟨other, List.mem_cons_of_mem _ member⟩
      · rcases @ih place visits with same | ⟨other, member⟩
        · exact .inl same
        · exact .inr ⟨other, List.mem_cons_of_mem _ member⟩

theorem chooseBySearch_lt {search : SearchSettings} {place : Nat} (some : moves ≠ [])
    (chosen : chooseBySearch table program moves seat search generator = .ok (place, drawn)) :
    place < moves.length := by
  obtain ⟨⟨trials, searched⟩, ran, chosen⟩ := bind_eq_ok_iff.mp chosen
  cases chosen
  have trials_length := length_runSimulations ran
  rw [List.length_map] at trials_length
  rcases @mostVisited_eq_or_mem trials.zipIdx 0 0 with first | ⟨trial, member⟩
  · rw [first]
    exact List.length_pos_iff.mpr some
  · rw [← trials_length]
    exact List.snd_lt_of_mem_zipIdx member

/-! ### All strategies -/

/-- A choice names the place of a move, and leaves the strategist of the same kind. -/
theorem choose_eq_ok {strategist after : Strategist} {place : Nat}
    (chosen : strategist.choose table program moves seat = .ok (place, after)) :
    after.kind = strategist.kind ∧ (moves ≠ [] → place < moves.length) := by
  have keeps {thought : Except Fault (Nat × Generator)}
      (inside : ∀ place drawn, moves ≠ [] → thought = .ok (place, drawn) → place < moves.length)
      (chosen : (do
        let drawn ← thought
        return (drawn.1, { strategist with generator := drawn.2 })) = .ok (place, after)) :
      after.kind = strategist.kind ∧ (moves ≠ [] → place < moves.length) := by
    obtain ⟨⟨there, drawn⟩, thought, chosen⟩ := bind_eq_ok_iff.mp chosen
    cases chosen
    exact ⟨rfl, fun some => inside _ _ some thought⟩
  have only (place : Nat) (drawn : Generator) (some : moves ≠ [])
      (taken : (pure (0, strategist.generator) : Except Fault _) = .ok (place, drawn)) :
      place < moves.length := by
    cases taken
    exact List.length_pos_iff.mpr some
  unfold choose at chosen
  split at chosen
  · refine keeps ?_ chosen
    intro place drawn some thought
    have drew : strategist.generator.below moves.length = (place, drawn) := Except.ok.inj thought
    have below : (strategist.generator.below moves.length).1 < moves.length :=
      Generator.below_lt (List.length_pos_iff.mpr some)
    rwa [drew] at below
  · split at chosen
    · exact keeps only chosen
    · exact keeps (fun _ _ some thought => chooseGreedily_lt some thought) chosen
  · split at chosen
    · exact keeps only chosen
    · exact keeps (fun _ _ some thought => chooseBySearch_lt some thought) chosen

end Strategist

end Croupier
