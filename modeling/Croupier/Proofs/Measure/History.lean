/-
The lead in the course of a game.

A shared first place is nobody's. It counts for nothing when the lead changes hands, but whoever
shares it has not kept the lead. So how often the lead changed hands is told by those who led, one
after the other, and the turn from which on the winner led by the whole history.
-/

import Croupier.Measure.Tension
import Mathlib

namespace Croupier

/-- How many entries differ from the one right before. -/
def changesIn (leaders : List Int) : Nat :=
  (leaders.zip leaders.tail).countP fun pair => pair.1 ≠ pair.2

theorem changesIn_append_singleton (leaders : List Int) (new : Int) :
    changesIn (leaders ++ [new]) =
      changesIn leaders + if leaders.getLast?.all (· = new) then 0 else 1 := by
  induction leaders with
  | nil => rfl
  | cons first rest ih =>
      cases rest with
      | nil =>
          by_cases same : first = new <;> simp [changesIn, same]
      | cons second rest =>
          have step (others : List Int) : changesIn (first :: second :: others) =
              changesIn (second :: others) + if first = second then 0 else 1 := by
            by_cases same : first = second <;> simp [changesIn, same]
          rw [List.cons_append, List.cons_append, step, ← List.cons_append, ih, step,
            List.getLast?_cons_cons]
          omega

/-- The first turn from which on all entries are as asked is found from the end. -/
theorem isLeast_settled {α : Type} (asked : α → Bool) (entries : List α) :
    IsLeast {turn | ∀ entry ∈ entries.drop turn, asked entry = true}
      (entries.length - (entries.reverse.takeWhile asked).length) := by
  induction entries using List.reverseRecOn with
  | nil => exact ⟨nofun, fun _ _ => Nat.zero_le _⟩
  | append_singleton entries last ih =>
      obtain ⟨settled, least⟩ := ih
      rw [List.reverse_append, List.reverse_singleton, List.singleton_append,
        List.length_append, List.length_singleton]
      -- A last entry that is not as asked settles nothing before it; one that is leaves the first
      -- turn where it was.
      cases good : asked last with
      | false =>
          rw [List.takeWhile_cons_of_neg (by simp [good]), List.length_nil]
          refine ⟨fun entry member => ?_, fun turn settled => ?_⟩
          · rw [List.drop_of_length_le (by simp)] at member
            cases member
          · by_contra early
            have before : turn ≤ entries.length := by omega
            have there : last ∈ (entries ++ [last]).drop turn := by
              rw [List.drop_append_of_le_length before]
              exact List.mem_append_right _ (List.mem_singleton_self last)
            rw [settled last there] at good
            cases good
      | true =>
          rw [List.takeWhile_cons_of_pos good, List.length_cons, Nat.add_sub_add_right]
          refine ⟨fun entry member => ?_, fun turn settled => ?_⟩
          · rw [List.drop_append_of_le_length (Nat.sub_le _ _)] at member
            rcases List.mem_append.mp member with old | new
            · exact settled entry old
            · rw [List.mem_singleton.mp new]
              exact good
          · by_cases before : turn ≤ entries.length
            · refine least fun entry member => settled entry ?_
              rw [List.drop_append_of_le_length before]
              exact List.mem_append_left _ member
            · omega

namespace Tension

variable {tension : Tension} {tables : List Table} {table : Table}

/-! ### Turn by turn -/

/-- The tension after turns that led to the given tables. -/
def afterAll (tension : Tension) (tables : List Table) : Tension :=
  tables.foldl update tension

/-- Who led at each of the tables. -/
def leaders (tension : Tension) (tables : List Table) : List (Option Int) :=
  tables.map tension.leader?

theorem afterAll_append_singleton (tension : Tension) (tables : List Table) (table : Table) :
    tension.afterAll (tables ++ [table]) = (tension.afterAll tables).update table :=
  List.foldl_concat ..

theorem leaders_append_singleton (tension : Tension) (tables : List Table) (table : Table) :
    tension.leaders (tables ++ [table]) = tension.leaders tables ++ [tension.leader? table] :=
  List.map_append

/-- What was seen so far has no say in who leads. -/
theorem leader?_afterAll (tension : Tension) (tables : List Table) :
    (tension.afterAll tables).leader? = tension.leader? := by
  induction tables using List.reverseRecOn with
  | nil => rfl
  | append_singleton tables table ih =>
      rw [afterAll_append_singleton]
      exact ih

/-- One more turn enters whoever leads at its table. -/
theorem update_afterAll (tension : Tension) (tables : List Table) (table : Table) :
    ∃ closest, (tension.afterAll tables).update table =
      { (tension.afterAll tables).enter (tension.leader? table) with closest } := by
  rw [← leader?_afterAll tension tables]
  exact ⟨_, rfl⟩

theorem history_afterAll (fresh : tension.history = []) (tables : List Table) :
    (tension.afterAll tables).history = (tension.leaders tables).reverse := by
  induction tables using List.reverseRecOn with
  | nil => exact fresh
  | append_singleton tables table ih =>
      obtain ⟨_, entered⟩ := update_afterAll tension tables table
      rw [afterAll_append_singleton, leaders_append_singleton, List.reverse_append, entered,
        ← ih]
      rfl

theorem current_afterAll (fresh : tension.current = none) (tables : List Table) :
    (tension.afterAll tables).current = (tension.leaders tables).reduceOption.getLast? := by
  induction tables using List.reverseRecOn with
  | nil => exact fresh
  | append_singleton tables table ih =>
      obtain ⟨_, entered⟩ := update_afterAll tension tables table
      rw [afterAll_append_singleton, leaders_append_singleton, List.reduceOption_append, entered]
      change (tension.leader? table).or (tension.afterAll tables).current = _
      rw [ih]
      cases tension.leader? table <;> simp

theorem changes_afterAll (noOne : tension.current = none) (none : tension.changes = 0)
    (tables : List Table) :
    (tension.afterAll tables).changes = changesIn (tension.leaders tables).reduceOption := by
  induction tables using List.reverseRecOn with
  | nil => exact none
  | append_singleton tables table ih =>
      obtain ⟨_, entered⟩ := update_afterAll tension tables table
      have current := current_afterAll noOne tables
      rw [afterAll_append_singleton, leaders_append_singleton, List.reduceOption_append, entered]
      unfold enter
      dsimp only
      rw [current, ih]
      cases tension.leader? table with
      | none => simp
      | some new =>
          rw [List.reduceOption_singleton, Option.toList_some, changesIn_append_singleton]
          cases (tension.leaders tables).reduceOption.getLast? with
          | none => rfl
          | some old =>
              by_cases same : new = old
              · simp [same]
              · simp [same, Ne.symm same]

/-! ### Who leads -/

theorem leader?_nonneg {leader : Int} (leads : tension.leader? table = some leader) :
    0 ≤ leader := by
  obtain ⟨seat, first, led⟩ := Option.bind_eq_some_iff.mp leads
  split at led
  · cases led
    obtain ⟨two, _, found⟩ := Option.bind_eq_some_iff.mp first
    dsimp only at found
    split at found
    · cases found
    · obtain ⟨place, _, rfl⟩ := List.mem_map.mp (List.mem_of_find?_eq_some found)
      exact Int.natCast_nonneg place
  · exact of_decide_eq_true (Option.filter_eq_some_iff.mp led).2

theorem nonneg_of_mem_leaders {leader : Int} (led : some leader ∈ tension.leaders tables) :
    0 ≤ leader := by
  obtain ⟨_, _, leads⟩ := List.mem_map.mp led
  exact leader?_nonneg leads

/-! ### The turn of the decision -/

/-- The first turn from which on the winner led without a break; the number of all turns if
somebody else or nobody led at the end. -/
theorem isLeast_decisiveTurn (fresh : tension.history = []) (tables : List Table) (winner : Int) :
    IsLeast {turn | ∀ entry ∈ (tension.leaders tables).drop turn, entry = some winner}
      ((tension.afterAll tables).decisiveTurn winner) := by
  have settled := isLeast_settled (fun leader => leader = some winner) (tension.leaders tables)
  simp only [decide_eq_true_eq] at settled
  unfold decisiveTurn
  rwa [history_afterAll fresh, List.length_reverse]

theorem decisiveTurn_eq_length (fresh : tension.history = []) {winner : Int}
    (lost : (tension.leaders tables).getLast? ≠ some (some winner)) :
    (tension.afterAll tables).decisiveTurn winner = tables.length := by
  rw [← List.head?_reverse] at lost
  have none : (tension.leaders tables).reverse.takeWhile (· = some winner) = [] := by
    cases reversed : (tension.leaders tables).reverse with
    | nil => rfl
    | cons last rest =>
        rw [reversed, List.head?_cons, ne_eq, Option.some.injEq] at lost
        exact List.takeWhile_cons_of_neg (by simpa using lost)
  unfold decisiveTurn
  rw [history_afterAll fresh, none, List.length_reverse]
  exact List.length_map _

/-- A game that is watched from the start, over any number of turns: the lead changed hands as often
as those who led differ from those who led before them, shared first places left out; in front is
the last one who led; and the part of the game after which the winner never lost the lead is that
up to the first turn from which on the winner led at all times, which is the whole game if nobody
won it or somebody else or nobody led at the end. -/
theorem report_of_leaders (standing : Standing) (teams : List Int) (tables : List Table) :
    let start : Tension := { standing, teams }
    let leaders := start.leaders tables
    let seen := start.afterAll tables
    (∀ leader, some leader ∈ leaders → 0 ≤ leader) ∧
      seen.changes = changesIn leaders.reduceOption ∧
      seen.current = leaders.reduceOption.getLast? ∧
      ∀ winner, (seen.report winner).leadChanges = seen.changes ∧
        (seen.report winner).turns = tables.length ∧
        (winner < 0 ∨ tables = [] → (seen.report winner).decisivePart = .ofFloat 1.0) ∧
        (0 ≤ winner → tables ≠ [] →
          ∃ turn, IsLeast {turn | ∀ entry ∈ leaders.drop turn, entry = some winner} turn ∧
            (leaders.getLast? ≠ some (some winner) → turn = tables.length) ∧
            (seen.report winner).decisivePart =
              .ofFloat (turn.toFloat / tables.length.toFloat)) := by
  intro start leaders seen
  have history : seen.history = leaders.reverse := history_afterAll rfl tables
  have turns : seen.history.length = tables.length := by
    rw [history, List.length_reverse]
    exact List.length_map _
  have noTurns : seen.history.isEmpty = true ↔ tables = [] := by
    rw [List.isEmpty_iff_length_eq_zero, turns, List.length_eq_zero_iff]
  refine ⟨fun leader => nonneg_of_mem_leaders, changes_afterAll rfl rfl tables,
    current_afterAll rfl tables,
    fun winner => ⟨rfl, turns, fun noWinner => ?_, fun won played => ?_⟩⟩
  · refine congrArg Binary64.ofFloat (if_pos ?_)
    rw [Bool.or_eq_true, decide_eq_true_eq, noTurns]
    exact noWinner
  · refine ⟨_, isLeast_decisiveTurn rfl tables winner, decisiveTurn_eq_length rfl, ?_⟩
    refine congrArg Binary64.ofFloat ((if_neg ?_).trans ?_)
    · rw [Bool.or_eq_true, decide_eq_true_eq, noTurns, not_or]
      exact ⟨Int.not_lt.mpr won, played⟩
    · rw [turns]

/-- Seat 0 leads, shares the first place, leads again and falls behind seat 1 for good. -/
theorem report_of_leaders_lateTurn :
    let start : Tension := { standing := .score }
    let tables : List Table := [(5, 0), (5, 5), (6, 5), (6, 8)].map fun scores =>
      { players := [{ score := scores.1 }, { score := scores.2 }] }
    let seen := start.afterAll tables
    (0 : Int) ≤ 1 ∧ tables ≠ [] ∧ start.leaders tables = [some 0, none, some 0, some 1] ∧
      seen.changes = 1 ∧ seen.current = some 1 ∧
      (seen.report 1).decisivePart = .ofFloat ((3 : Nat).toFloat / (4 : Nat).toFloat) ∧
      (seen.report (-1)).decisivePart = .ofFloat 1.0 := by
  intro start tables seen
  have played : tables ≠ [] := by decide
  have leaders : start.leaders tables = [some 0, none, some 0, some 1] := by decide
  obtain ⟨_, changes, current, report⟩ := report_of_leaders .score [] tables
  obtain ⟨turn, least, _, part⟩ := (report 1).2.2.2 (by decide) played
  have third :
      IsLeast {turn | ∀ entry ∈ (start.leaders tables).drop turn, entry = some 1} 3 := by
    rw [leaders]
    refine ⟨by simp, fun turn settled => ?_⟩
    by_contra early
    have held := settled (some 0) (by interval_cases turn <;> decide)
    cases held
  rw [least.unique third] at part
  change _ = changesIn (start.leaders tables).reduceOption at changes
  change _ = (start.leaders tables).reduceOption.getLast? at current
  rw [leaders] at changes current
  exact ⟨by decide, played, leaders, changes, current, part,
    (report (-1)).2.2.1 (.inl (by decide))⟩

end Tension

end Croupier
