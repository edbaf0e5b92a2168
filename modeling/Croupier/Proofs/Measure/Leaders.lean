/-
Who is ahead, and who would win.

A standing compares the best merit with the best one that is left without it. A win condition goes
through the sides once and remembers whether the best number is shared. Both come to the seats of
the best merit: with one of them there is a leader, who would win, with several there is none and
the game would be a draw.
-/

import Croupier.Measure.Standing
import Croupier.Proofs.Play.Piles
import Croupier.Proofs.Teams.Leaders
import Croupier.Proofs.Teams.Solo

namespace Croupier

/-- What is best without one entry of the best is the best again exactly if there is another. -/
theorem best_eq_second_iff {merits : List Int} {best second : Int}
    (top : merits.max? = some best) (next : (merits.erase best).max? = some second) :
    best = second ↔ 2 ≤ merits.count best := by
  obtain ⟨_, greatest⟩ := List.max?_eq_some_iff.mp top
  obtain ⟨left, atLeast⟩ := List.max?_eq_some_iff.mp next
  have again : best ∈ merits.erase best ↔ 2 ≤ merits.count best := by
    rw [← List.count_pos_iff, List.count_erase_self]
    omega
  rw [← again]
  constructor
  · rintro rfl
    exact left
  · intro other
    exact Int.le_antisymm (atLeast best other) (greatest second (List.mem_of_mem_erase left))

namespace Table

theorem map_player_allSeats (table : Table) : table.allSeats.map table.player = table.players := by
  unfold allSeats seats
  rw [List.map_map]
  apply List.ext_getElem
  · rw [List.length_map, List.length_range]
  · intro place _ inside
    rw [List.getElem_map, List.getElem_range]
    exact player_natCast inside

end Table

namespace Standing

variable {standing : Standing} {table : Table} {program : Program} {best seat : Int}

/-! ### The leader -/

/-- The seats of a merit, in order. -/
def seatsOf (standing : Standing) (table : Table) (merit : Int) : List Int :=
  table.allSeats.filter fun seat => standing.merit (table.player seat) = merit

theorem length_seatsOf (standing : Standing) (table : Table) (merit : Int) :
    (standing.seatsOf table merit).length = (table.players.map standing.merit).count merit := by
  unfold seatsOf
  rw [← table.map_player_allSeats, List.map_map, List.count_eq_countP, List.countP_map,
    ← List.countP_eq_length_filter]
  rfl

theorem exists_second (two : 2 ≤ table.seats)
    (top : (table.players.map standing.merit).max? = some best) :
    ∃ second, ((table.players.map standing.merit).erase best).max? = some second := by
  have held := (List.max?_eq_some_iff.mp top).1
  apply Option.isSome_iff_exists.mp
  rw [List.isSome_max?_iff, ← List.length_pos_iff, List.length_erase_of_mem held, List.length_map]
  exact Nat.sub_pos_of_lt two

theorem bestTwo?_eq {second : Int} (top : (table.players.map standing.merit).max? = some best)
    (next : ((table.players.map standing.merit).erase best).max? = some second) :
    standing.bestTwo? table = some (best, second) := by
  simp [bestTwo?, top, next]

/-- Whoever has the best merit alone leads, and nobody leads if several share it. -/
theorem leader?_eq (two : 2 ≤ table.seats)
    (top : (table.players.map standing.merit).max? = some best) :
    standing.leader? table = if 2 ≤ (standing.seatsOf table best).length then none
      else (standing.seatsOf table best).head? := by
  obtain ⟨second, next⟩ := exists_second two top
  have shared := best_eq_second_iff top next
  rw [← length_seatsOf] at shared
  unfold leader?
  rw [bestTwo?_eq top next]
  change (if best = second then none else table.allSeats.find? _) = _
  by_cases same : best = second
  · rw [if_pos same, if_pos (shared.mp same)]
  · rw [if_neg same, if_neg (mt shared.mpr same)]
    exact List.head?_filter.symm

theorem leader?_eq_some_iff (two : 2 ≤ table.seats)
    (top : (table.players.map standing.merit).max? = some best) :
    standing.leader? table = some seat ↔ standing.seatsOf table best = [seat] := by
  rw [leader?_eq two top]
  match standing.seatsOf table best with
  | [] => simp
  | [_] => simp
  | _ :: _ :: _ => simp

theorem leader?_eq_none_iff (two : 2 ≤ table.seats)
    (top : (table.players.map standing.merit).max? = some best) :
    standing.leader? table = none ↔ 2 ≤ (standing.seatsOf table best).length := by
  have anyone : 0 < (standing.seatsOf table best).length := by
    rw [length_seatsOf, List.count_pos_iff]
    exact (List.max?_eq_some_iff.mp top).1
  rw [leader?_eq two top]
  split
  · rename_i shared
    exact iff_of_true rfl shared
  · rename_i alone
    refine iff_of_false ?_ alone
    rw [List.head?_eq_none_iff]
    exact List.ne_nil_of_length_pos anyone

/-! ### The win conditions that standings go by -/

/-- The win condition for which a standing tells who would win. -/
inductive Decides : Standing → WinKind → Prop where
  | score : Decides score .mostCaptured
  | tricks : Decides tricks .mostTricks
  | trickAvoidance : Decides trickAvoidance .fewestTricks
  | chips : Decides chips .mostChips

/-- Whether a high number is a merit. -/
def prefersHigh : Standing → Bool
  | score | tricks | chips => true
  | handSize | trickAvoidance => false

/-- The number that a merit is made of. -/
def number (standing : Standing) (player : Player) : Int :=
  if standing.prefersHigh then standing.merit player else -standing.merit player

/-- The better number is the greater merit. -/
theorem betterValue_number (standing : Standing) (left right : Player) :
    betterValue standing.prefersHigh (some (standing.number left)) (some (standing.number right)) =
      decide (standing.merit right < standing.merit left) := by
  unfold number betterValue
  cases standing.prefersHigh
  · exact decide_eq_decide.mpr Int.neg_lt_neg_iff
  · rfl

theorem number_eq_iff {left right : Player} :
    standing.number left = standing.number right ↔
      standing.merit left = standing.merit right := by
  unfold number
  split
  · exact Iff.rfl
  · exact neg_inj

theorem Decides.outcomeOf {kind : WinKind} (decides : Decides standing kind)
    (single : program.header.teamMode = false) {condition : WinCondition}
    (watched : condition.kind = kind) :
    table.outcomeOf program condition =
      uniqueBest standing.prefersHigh (table.players.map fun player =>
        some (standing.number player)) := by
  have own (number : Player → Int) :
      (table.sides program).map (fun members => total (members.map number)) =
        table.players.map number := by
    rw [Table.sides_of_single single, List.map_map]
    exact List.map_congr_left fun player _ => Int.add_zero (number player)
  have tracked : table.tracked program kind =
      table.players.map fun player => some (standing.number player) := by
    unfold Table.tracked Table.sideSums Table.sideScores
    cases decides with
    | score =>
        dsimp only
        rw [single, own, if_neg Bool.false_ne_true, List.map_map]
        rfl
    | trickAvoidance =>
        dsimp only
        rw [own, List.map_map]
        refine List.map_congr_left fun player _ => congrArg some ?_
        exact (Int.neg_neg player.tricks).symm
    | tricks | chips =>
        dsimp only
        rw [own, List.map_map]
        rfl
  rw [← tracked]
  unfold Table.outcomeOf
  rw [watched]
  cases decides <;> rfl

/-- The places of the best number are the seats of the best merit. -/
theorem seatsOf_eq_places (standing : Standing) (table : Table) (holder : Player) :
    standing.seatsOf table (standing.merit holder) =
      (placesOf (table.players.map fun player => some (standing.number player))
        (some (standing.number holder))).map Int.ofNat := by
  unfold seatsOf placesOf Table.allSeats
  rw [List.filter_map, List.length_map]
  congr 1
  apply List.filter_congr
  intro place member
  have inside : place < table.players.length := List.mem_range.mp member
  rw [List.getElem?_map, List.getElem?_eq_getElem inside, ← Table.player_natCast inside,
    Option.map_some]
  simp only [Option.some.injEq, number_eq_iff]
  rfl

/-- Outside team mode, at a table of two or more: by score, by tricks, by the fewest tricks and by
chips, whoever leads is at the table and would win by the corresponding condition, and nobody leads
exactly if that would be a draw. -/
theorem leader_would_win (single : program.header.teamMode = false) (two : 2 ≤ table.seats)
    {kind : WinKind} (decides : Decides standing kind) {condition : WinCondition}
    (watched : condition.kind = kind) :
    (∀ seat, standing.leader? table = some seat ↔
        table.outcomeOf program condition = .winner seat) ∧
      (standing.leader? table = none ↔ table.outcomeOf program condition = .draw) ∧
      ∀ seat, standing.leader? table = some seat → table.HasSeat seat := by
  have anyone : (table.players.map fun player => some (standing.number player)) ≠ [] := by
    rw [← List.length_pos_iff, List.length_map]
    exact Nat.lt_of_lt_of_le Nat.zero_lt_two two
  obtain ⟨_, listed, unbettered, decided⟩ := exists_uniqueBest standing.prefersHigh anyone
  obtain ⟨holder, present, rfl⟩ := List.mem_map.mp listed
  -- The scan and the standing see the same participant in front, the one by number, the other by
  -- merit.
  have top : (table.players.map standing.merit).max? = some (standing.merit holder) := by
    refine List.max?_eq_some_iff.mpr ⟨List.mem_map_of_mem present, fun merit member => ?_⟩
    obtain ⟨other, known, rfl⟩ := List.mem_map.mp member
    have behind := unbettered _ (List.mem_map_of_mem known)
    rw [betterValue_number, decide_eq_false_iff_not] at behind
    exact Int.not_lt.mp behind
  have places := seatsOf_eq_places standing table holder
  rw [decides.outcomeOf single watched, decided]
  refine ⟨fun seat => ?_, ?_, fun seat leads => ?_⟩
  · rw [leader?_eq_some_iff two top, Outcome.ofLeaders_eq_winner_iff, places]
  · rw [leader?_eq_none_iff two top, Outcome.ofLeaders_eq_draw_iff, places, List.length_map]
  · have alone := (leader?_eq_some_iff two top).mp leads
    have among : seat ∈ standing.seatsOf table (standing.merit holder) := by
      rw [alone]
      exact List.mem_singleton_self seat
    exact Table.mem_allSeats_iff.mp (List.mem_of_mem_filter among)

/-- Two of three share the most tricks, and the third one leads by the fewest. -/
theorem leader_would_win_threeSeats :
    let program : Program := {}
    let table : Table := { players := [{ tricks := 4 }, { tricks := 1 }, { tricks := 4 }] }
    program.header.teamMode = false ∧ 2 ≤ table.seats ∧
      Decides tricks .mostTricks ∧ Decides trickAvoidance .fewestTricks ∧
      tricks.leader? table = none ∧ table.outcomeOf program { kind := .mostTricks } = .draw ∧
      trickAvoidance.leader? table = some 1 ∧
      table.outcomeOf program { kind := .fewestTricks } = .winner 1 := by
  intro program table
  have two : 2 ≤ table.seats := by decide
  have shared : tricks.leader? table = none := by decide
  have alone : trickAvoidance.leader? table = some 1 := by decide
  have most := @leader_would_win tricks table program rfl two _ .tricks { kind := .mostTricks } rfl
  have fewest := @leader_would_win trickAvoidance table program rfl two _ .trickAvoidance
    { kind := .fewestTricks } rfl
  exact ⟨rfl, two, .tricks, .trickAvoidance, shared, most.2.1.mp shared, alone,
    (fewest.1 1).mp alone⟩

end Standing

end Croupier
