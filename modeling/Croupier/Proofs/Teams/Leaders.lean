/-
Who has the best number.

The sides are gone through once, with the best one so far and whether its number is shared. What
comes out of it is told by the places of the best number, in order: with one of them there is a
winner, with several it is a draw. A number that is not the best leaves them as they are, one that
is as good as the best adds its place, and a better one leaves no place but its own.
-/

import Croupier.Rules.Winning
import Mathlib

namespace Croupier

variable {preferHigh : Bool} {left right best : Option Int} {values : List (Option Int)}
  {place : Nat}

/-! ### Better numbers -/

theorem betterValue_irrefl (preferHigh : Bool) (value : Option Int) :
    betterValue preferHigh value value = false := by
  cases preferHigh <;> cases value <;> simp [betterValue]

theorem betterValue_trans {middle : Option Int} (first : betterValue preferHigh left middle = true)
    (second : betterValue preferHigh middle right = true) :
    betterValue preferHigh left right = true := by
  cases preferHigh <;> cases left <;> cases middle <;> cases right <;>
    simp [betterValue] at first second ⊢ <;> omega

/-- No number among them is better. -/
def Unbettered (preferHigh : Bool) (values : List (Option Int)) (best : Option Int) : Prop :=
  ∀ other ∈ values, betterValue preferHigh other best = false

/-- One more number that is no better than the best one. -/
theorem Unbettered.append {value : Option Int} (unbettered : Unbettered preferHigh values best)
    (behind : betterValue preferHigh value best = false) :
    Unbettered preferHigh (values ++ [value]) best := by
  intro other member
  rcases List.mem_append.mp member with old | new
  · exact unbettered other old
  · rw [List.mem_singleton.mp new]
    exact behind

/-- A number that is better than the best one is better than all others. -/
theorem Unbettered.of_better {value : Option Int} (unbettered : Unbettered preferHigh values best)
    (better : betterValue preferHigh value best = true) :
    Unbettered preferHigh values value := by
  intro other member
  by_contra ahead
  have passes := betterValue_trans (Bool.eq_true_of_not_eq_false ahead) better
  rw [unbettered other member] at passes
  cases passes

/-! ### Places -/

/-- The places at which a number stands, in order. -/
def placesOf (values : List (Option Int)) (best : Option Int) : List Nat :=
  (List.range values.length).filter fun place => values[place]? = some best

theorem placesOf_append_singleton (values : List (Option Int)) (value best : Option Int) :
    placesOf (values ++ [value]) best =
      placesOf values best ++ if value = best then [values.length] else [] := by
  have earlier : (List.range values.length).filter
      (fun place => (values ++ [value])[place]? = some best) = placesOf values best := by
    apply List.filter_congr
    intro place inside
    rw [List.getElem?_append_left (List.mem_range.mp inside)]
  unfold placesOf at earlier ⊢
  rw [List.length_append, List.length_singleton, List.range_succ, List.filter_append, earlier,
    List.filter_singleton, List.getElem?_concat_length]
  simp only [Option.some.injEq, Bool.cond_decide]

theorem placesOf_eq_nil (absent : best ∉ values) : placesOf values best = [] := by
  apply List.filter_eq_nil_iff.mpr
  intro place _ found
  exact absent (List.mem_of_getElem? (of_decide_eq_true found))

/-- What those who have the best number make of a game: one of them wins it, several draw. -/
def Outcome.ofLeaders : List Nat → Outcome
  | [] => .open
  | [side] => .winner side
  | _ :: _ :: _ => .draw

theorem Outcome.ofLeaders_eq_winner_iff {places : List Nat} {side : Int} :
    ofLeaders places = .winner side ↔ places.map Int.ofNat = [side] := by
  match places with
  | [] => exact iff_of_false nofun nofun
  | [place] =>
      change Outcome.winner (place : Int) = .winner side ↔ [(place : Int)] = [side]
      rw [Outcome.winner.injEq, List.singleton_inj]
  | _ :: _ :: _ =>
      refine iff_of_false nofun ?_
      rw [List.map_cons, List.map_cons]
      exact nofun

theorem Outcome.ofLeaders_eq_draw_iff {places : List Nat} :
    ofLeaders places = .draw ↔ 2 ≤ places.length := by
  match places with
  | [] | [_] => exact iff_of_false nofun (by simp)
  | _ :: _ :: rest => exact iff_of_true rfl (Nat.le_add_left 2 rest.length)

/-! ### The scan -/

/-- The best side so far is the first of those that share the best number, and the tie is known. -/
theorem exists_uniqueBestFrom (rest : List (Option Int)) {bestSide : Nat} {others : List Nat}
    (listed : best ∈ values) (unbettered : Unbettered preferHigh values best)
    (places : placesOf values best = bestSide :: others) :
    ∃ last ∈ values ++ rest, Unbettered preferHigh (values ++ rest) last ∧
      uniqueBestFrom preferHigh bestSide best (!others.isEmpty) (rest.zipIdx values.length) =
        .ofLeaders (placesOf (values ++ rest) last) := by
  induction rest generalizing values best bestSide others with
  | nil =>
      rw [List.append_nil]
      refine ⟨best, listed, unbettered, ?_⟩
      rw [places]
      cases others <;> rfl
  | cons value rest ih =>
      have whole : values ++ value :: rest = (values ++ [value]) ++ rest := by
        rw [List.append_assoc, List.singleton_append]
      have count : (values ++ [value]).length = values.length + 1 := List.length_append
      have added := placesOf_append_singleton values value
      rw [whole, List.zipIdx_cons, ← count]
      unfold uniqueBestFrom
      split
      · rename_i same
        have shared := added best
        rw [places, if_pos same, List.cons_append] at shared
        have some : (!(others ++ [values.length]).isEmpty) = true := by
          rw [Bool.not_eq_true', List.isEmpty_eq_false_iff]
          exact List.append_ne_nil_of_right_ne_nil _ (List.cons_ne_nil _ _)
        rw [← some]
        apply ih (List.mem_append_left _ listed) (unbettered.append _) shared
        rw [same]
        exact betterValue_irrefl preferHigh best
      · rename_i different
        split
        · rename_i better
          have ahead := unbettered.of_better better
          have absent : value ∉ values := by
            intro old
            rw [unbettered value old] at better
            cases better
          have alone := added value
          rw [placesOf_eq_nil absent, if_pos rfl, List.nil_append] at alone
          have last : value ∈ values ++ [value] :=
            List.mem_append_right _ (List.mem_singleton_self value)
          have plain := betterValue_irrefl preferHigh value
          exact ih last (ahead.append plain) alone
        · rename_i behind
          have kept := added best
          rw [places, if_neg different, List.append_nil] at kept
          exact ih (List.mem_append_left _ listed)
            (unbettered.append (Bool.eq_false_of_not_eq_true behind)) kept

/-- Whoever shares the best number wins or draws. -/
theorem exists_uniqueBest (preferHigh : Bool) (some : values ≠ []) :
    ∃ best ∈ values, Unbettered preferHigh values best ∧
      uniqueBest preferHigh values = .ofLeaders (placesOf values best) := by
  cases values with
  | nil => exact absurd rfl some
  | cons first rest =>
      have alone : Unbettered preferHigh [first] first := by
        intro other member
        rw [List.mem_singleton.mp member]
        exact betterValue_irrefl preferHigh first
      have places : placesOf [first] first = [0] := by
        simp [placesOf]
      exact exists_uniqueBestFrom rest (List.mem_singleton_self first) alone places

end Croupier
