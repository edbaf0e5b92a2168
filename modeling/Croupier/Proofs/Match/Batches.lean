/-
What the totals of a batch come to.

Every game adds to one of the totals: a seat won it, or a team, or nobody, or it is in trouble of
one kind or the other. So the totals add up to the number of games, in whatever order the games
come. Only the messages of games in trouble keep the order, and only the first of them are kept.
-/

import Croupier.Match.Summary
import Croupier.Program.Library
import Croupier.Proofs.Match.Accounts
import Croupier.Proofs.Match.Reuse

namespace Croupier

/-! ### Counting by place -/

section Places

variable {α : Type} (place : α → Int)

theorem sum_range_eq_ite (spot : Int) (count : Nat) :
    ((List.range count).map fun (index : Nat) => if spot = (index : Int) then 1 else 0).sum =
      if 0 ≤ spot ∧ spot < (count : Int) then 1 else 0 := by
  induction count with
  | zero => rw [if_neg (by omega)]; rfl
  | succ count ih =>
      rw [List.range_succ, List.map_append, List.sum_append, ih]
      change _ + ((if spot = (count : Int) then 1 else 0) + 0) = _
      split <;> split <;> split <;> omega

/-- Items that are counted by place are counted once each, if they have a place at all. -/
theorem sum_countP_range (items : List α) (count : Nat) :
    ((List.range count).map fun (index : Nat) =>
        items.countP fun item => place item = (index : Int)).sum =
      items.countP fun item => 0 ≤ place item ∧ place item < (count : Int) := by
  induction items with
  | nil => simp
  | cons item items ih =>
      simp only [List.countP_cons, decide_eq_true_eq, List.sum_map_add, ih]
      rw [sum_range_eq_ite]

end Places

/-! ### One game -/

namespace GameResult

/-- Each of the winners is nobody, or a seat or a team that the program has. -/
structure Placed (program : Program) (result : GameResult) : Prop where
  winner : result.winner = nobody ∨
    0 ≤ result.winner ∧ result.winner < program.header.participants
  winningTeam : result.winningTeam = nobody ∨
    0 ≤ result.winningTeam ∧ result.winningTeam < (program.teamCount : Int)

/-- The team that won, where no seat did. -/
def teamAlone (result : GameResult) : Int :=
  if result.winner < 0 then result.winningTeam else nobody

/-- What went wrong with the game, if anything did. -/
def message? (result : GameResult) : Option String :=
  result.trouble.map Trouble.message

variable {program : Program} {result : GameResult}

theorem wonByTeam_eq (result : GameResult) (team : Nat) :
    result.wonByTeam team = decide (result.teamAlone = (team : Int)) := by
  unfold wonByTeam teamAlone nobody
  by_cases unseated : result.winner < 0
  · simp [unseated]
  · simp only [unseated, decide_false, Bool.false_and, if_false]
    exact (decide_eq_false (by omega)).symm

theorem isDraw_eq (result : GameResult) :
    result.isDraw = decide (result.winner < 0 ∧ result.teamAlone < 0) := by
  unfold isDraw teamAlone
  by_cases unseated : result.winner < 0
  · simp [unseated]
  · simp [unseated]

/-- Of a game that came to an end, a seat is the winner, or a team, or nobody. -/
theorem Placed.once (placed : result.Placed program) :
    (if 0 ≤ result.winner ∧ result.winner < (program.header.participants.toNat : Int)
        then 1 else 0) +
      (if 0 ≤ result.teamAlone ∧ result.teamAlone < (program.teamCount : Int) then 1 else 0) +
      (if result.winner < 0 ∧ result.teamAlone < 0 then 1 else 0) = 1 := by
  have seat := placed.winner
  have team := placed.winningTeam
  unfold teamAlone nobody at *
  by_cases unseated : result.winner < 0
  · rw [if_neg (by omega), if_pos unseated]
    rcases team with nowhere | ⟨nonneg, below⟩
    · rw [if_neg (by omega), if_pos (by omega)]
    · rw [if_pos ⟨nonneg, below⟩, if_neg (by omega)]
  · rw [if_pos (by omega), if_neg unseated, if_neg (by omega), if_neg (by omega)]

end GameResult

/-! ### Totals -/

namespace Summary

variable {program : Program} {result : GameResult} {results others : List GameResult}

/-- How many games the totals account for. -/
def total (summary : Summary) : Nat :=
  summary.winsBySeat.sum + summary.winsByTeam.sum + summary.draws + summary.stuck +
    summary.faulted

theorem winsBySeat_sum (program : Program) (results : List GameResult) :
    (ofResults program results).winsBySeat.sum = results.countP fun result =>
      decide (0 ≤ result.winner ∧ result.winner < (program.header.participants.toNat : Int)) &&
        result.isRegular := by
  rw [← List.countP_filter]
  exact sum_countP_range GameResult.winner _ _

theorem winsByTeam_sum (program : Program) (results : List GameResult) :
    (ofResults program results).winsByTeam.sum = results.countP fun result =>
      decide (0 ≤ result.teamAlone ∧ result.teamAlone < (program.teamCount : Int)) &&
        result.isRegular := by
  rw [← List.countP_filter]
  unfold ofResults
  dsimp only
  simp only [GameResult.wonByTeam_eq]
  exact sum_countP_range GameResult.teamAlone _ _

theorem total_ofResults (program : Program) (results : List GameResult) :
    (ofResults program results).total =
      (results.countP fun result =>
        decide (0 ≤ result.winner ∧ result.winner < (program.header.participants.toNat : Int)) &&
          result.isRegular) +
      (results.countP fun result =>
        decide (0 ≤ result.teamAlone ∧ result.teamAlone < (program.teamCount : Int)) &&
          result.isRegular) +
      (results.countP fun result => result.isDraw && result.isRegular) +
      (results.countP fun result => result.isStuck && !result.isRegular) +
      (results.countP fun result => !result.isStuck && !result.isRegular) := by
  unfold total
  rw [winsBySeat_sum, winsByTeam_sum]
  unfold ofResults
  simp only [List.countP_filter]

/-- One more game adds one to one of the totals. -/
theorem total_cons (placed : result.Placed program) (results : List GameResult) :
    (ofResults program (result :: results)).total = (ofResults program results).total + 1 := by
  rw [total_ofResults, total_ofResults]
  simp only [List.countP_cons]
  cases regular : result.isRegular with
  | true =>
      have once := placed.once
      simp only [GameResult.isDraw_eq, Bool.and_true, Bool.not_true, Bool.and_false,
        decide_eq_true_eq, Bool.false_eq_true, if_false]
      omega
  | false =>
      simp only [Bool.and_false, Bool.not_false, Bool.and_true, Bool.false_eq_true, if_false]
      cases result.isStuck with
      | true => rw [if_pos rfl, if_neg (by decide)]; omega
      | false => rw [if_neg (by decide), if_pos (by decide)]; omega

theorem total_of_placed (placed : ∀ result ∈ results, result.Placed program) :
    (ofResults program results).total = results.length := by
  induction results with
  | nil => simp [total, ofResults]
  | cons result results ih =>
      have head := placed result List.mem_cons_self
      rw [total_cons head, ih fun later among => placed later (List.mem_cons_of_mem _ among),
        List.length_cons]

theorem truncated_eq (program : Program) (results : List GameResult) :
    (ofResults program results).truncated =
      results.countP fun result => result.trouble.isNone && result.truncated := by
  unfold ofResults
  simp only [List.countP_filter]
  simp only [GameResult.isRegular, Bool.and_comm]

/-- Where nobody wins a game that is cut off, such games are among the draws. -/
theorem truncated_le_draws
    (unwon : ∀ result ∈ results, result.trouble = none → result.truncated = true →
      result.winner = nobody ∧ result.winningTeam = nobody) :
    (ofResults program results).truncated ≤ (ofResults program results).draws := by
  refine List.countP_mono_left ?_
  intro result among truncated
  obtain ⟨listed, regular⟩ := List.mem_filter.mp among
  obtain ⟨seat, team⟩ := unwon result listed (Option.isNone_iff_eq_none.mp regular) truncated
  unfold GameResult.isDraw
  rw [seat, team]
  rfl

/-! ### Order -/

/-- All counts of two summaries are the same. -/
structure SameCounts (summary other : Summary) : Prop where
  games : summary.games = other.games
  winsBySeat : summary.winsBySeat = other.winsBySeat
  winsByTeam : summary.winsByTeam = other.winsByTeam
  draws : summary.draws = other.draws
  truncated : summary.truncated = other.truncated
  stuck : summary.stuck = other.stuck
  faulted : summary.faulted = other.faulted

theorem sameCounts_of_perm (program : Program) (reordered : results.Perm others) :
    SameCounts (ofResults program results) (ofResults program others) := by
  have regular := reordered.filter (·.isRegular)
  have troubled := reordered.filter (fun result => !result.isRegular)
  refine ⟨reordered.length_eq, ?_, ?_, regular.countP_eq _, regular.countP_eq _,
    troubled.countP_eq _, troubled.countP_eq _⟩
  · exact List.map_congr_left fun _ _ => regular.countP_eq _
  · exact List.map_congr_left fun _ _ => regular.countP_eq _

theorem messages_eq (program : Program) (results : List GameResult) :
    (ofResults program results).messages =
      (results.filterMap GameResult.message?).take maxMessages := by
  unfold ofResults
  dsimp only
  rw [List.map_take, List.map_filterMap, List.filterMap_filter]
  congr 2
  funext result
  unfold GameResult.message? GameResult.isRegular
  cases result.trouble <;> rfl

end Summary

/-! ### Played games -/

variable {program : Program} {seed : UInt64} {settings : Settings} {pool : Pool}

/-- Nobody wins a game that is cut off. -/
theorem playGame_unwon (truncated : (playGame program seed settings pool).1.truncated = true) :
    (playGame program seed settings pool).1.winner = nobody ∧
      (playGame program seed settings pool).1.winningTeam = nobody := by
  rcases playGame_cases program seed settings pool with ⟨fault, broken⟩ | ⟨table, last, done⟩
  · rw [broken] at truncated
    cases truncated
  · obtain ⟨_, ending, watch, _, same⟩ := Play.wholeGame_eq_ok_iff.mp done
    rw [← same] at truncated ⊢
    cases (of_decide_eq_true truncated : ending = .turnLimit)
    exact ⟨ite_self _, ite_self _⟩

theorem Play.placed_result {ending : Ending} {watch : Watch} {last : Table}
    (won : ending.winner = nobody ∨ 0 ≤ ending.winner ∧ ending.winner < program.sideCount) :
    (Play.result program ending watch last).Placed program := by
  unfold Program.sideCount at won
  unfold Play.result
  cases mode : program.header.teamMode with
  | true =>
      rw [if_pos mode] at won
      have count : program.teamCount = program.teams.length := if_pos mode
      refine ⟨.inl rfl, ?_⟩
      rw [count]
      exact won
  | false =>
      rw [if_neg (by rw [mode]; decide)] at won
      refine ⟨?_, .inl rfl⟩
      change ending.winner = nobody ∨
        0 ≤ ending.winner ∧ ending.winner < program.header.participants
      omega

theorem playGame_placed (inRange : program.InRange) (seed : UInt64) (settings : Settings)
    (pool : Pool) : (playGame program seed settings pool).1.Placed program := by
  rcases playGame_cases program seed settings pool with ⟨fault, broken⟩ | ⟨table, last, done⟩
  · rw [broken]
    exact ⟨.inl rfl, .inl rfl⟩
  · obtain ⟨_, ending, watch, played, same⟩ := Play.wholeGame_eq_ok_iff.mp done
    have reached := Reached.opening (Program.refusal?_of_inRange inRange) seed
    have tallies := Watch.tallies_begin inRange settings seed
    have enough := Play.room_begin_lt inRange settings seed
    obtain ⟨_, finished, _⟩ := Play.tallies_of_course inRange reached tallies enough played
    rw [← same]
    exact Play.placed_result (Ending.winner_cases inRange finished)

/-- The totals of a batch of a program that was read account for all games that were asked for, and
no more games are cut off than end without a winner. -/
theorem runBatch_totals {bytes : List UInt8} (accepted : Program.decode bytes = .ok program)
    (settings : Settings) :
    (runBatch program settings).total = settings.games.toNat ∧
      (runBatch program settings).truncated ≤ (runBatch program settings).draws := by
  have inRange := Program.inRange_of_decode accepted
  have played : ∀ result ∈ (playGames program settings settings.seeds {}).1,
      ∃ seed, result = (playGame program seed settings {}).1 := by
    intro result among
    rw [playGames_results] at among
    obtain ⟨seed, _, rfl⟩ := List.mem_map.mp among
    exact ⟨seed, rfl⟩
  constructor
  · have placed : ∀ result ∈ (playGames program settings settings.seeds {}).1,
        result.Placed program := by
      intro result among
      obtain ⟨seed, rfl⟩ := played result among
      exact playGame_placed inRange seed settings {}
    refine (Summary.total_of_placed placed).trans ?_
    rw [playGames_results, List.length_map]
    unfold Settings.seeds
    rw [List.length_map, List.length_range]
  · refine Summary.truncated_le_draws fun result among _ truncated => ?_
    obtain ⟨seed, rfl⟩ := played result among
    exact playGame_unwon truncated

/-! ### Batches -/

/-- The totals of results partition the games, games that are cut off are counted as such and are
no more than the draws unless somebody has won one, no count depends on the order of the results,
and the messages are those of the first ten games in trouble. -/
theorem Summary.ofResults_partition {results : List GameResult}
    (placed : ∀ result ∈ results, result.Placed program) :
    (ofResults program results).games = results.length ∧
      (ofResults program results).games =
        (ofResults program results).winsBySeat.sum + (ofResults program results).winsByTeam.sum +
          (ofResults program results).draws + (ofResults program results).stuck +
          (ofResults program results).faulted ∧
      (ofResults program results).truncated =
        (results.countP fun result => result.trouble.isNone && result.truncated) ∧
      ((∀ result ∈ results, result.trouble = none → result.truncated = true →
          result.winner = nobody ∧ result.winningTeam = nobody) →
        (ofResults program results).truncated ≤ (ofResults program results).draws) ∧
      (∀ seed settings pool, (playGame program seed settings pool).1.truncated = true →
        (playGame program seed settings pool).1.winner = nobody ∧
          (playGame program seed settings pool).1.winningTeam = nobody) ∧
      (∀ others, results.Perm others →
        SameCounts (ofResults program results) (ofResults program others)) ∧
      (ofResults program results).messages =
        (results.filterMap GameResult.message?).take 10 :=
  ⟨rfl, (total_of_placed placed).symm, truncated_eq program results, truncated_le_draws,
    fun _ _ _ truncated => playGame_unwon truncated,
    fun _ reordered => sameCounts_of_perm program reordered, messages_eq program results⟩

/-- Two games that were won, one that was cut off, and more games in trouble than messages are
kept. -/
def mixedResults : List GameResult :=
  [{ winner := 3 }, { trouble := some (.fault "No cards.") }, { truncated := true },
      { winningTeam := 1 }] ++
    List.replicate 11 { trouble := some (.stuck "No move.") }

theorem Summary.ofResults_partition_mixedResults :
    (∀ result ∈ mixedResults, result.Placed Library.spades) ∧
      (ofResults Library.spades mixedResults).games = 15 ∧
      (ofResults Library.spades mixedResults).games =
        (ofResults Library.spades mixedResults).winsBySeat.sum +
          (ofResults Library.spades mixedResults).winsByTeam.sum +
          (ofResults Library.spades mixedResults).draws +
          (ofResults Library.spades mixedResults).stuck +
          (ofResults Library.spades mixedResults).faulted ∧
      (ofResults Library.spades mixedResults).truncated = 1 ∧
      (ofResults Library.spades mixedResults).truncated ≤
        (ofResults Library.spades mixedResults).draws ∧
      SameCounts (ofResults Library.spades mixedResults)
        (ofResults Library.spades mixedResults.reverse) ∧
      (ofResults Library.spades mixedResults).messages =
        "No cards." :: List.replicate 9 "No move." := by
  have known : ∀ result ∈ mixedResults, result.Placed Library.spades ∧
      (result.truncated = true → result.winner = nobody ∧ result.winningTeam = nobody) := by
    intro result among
    simp only [mixedResults, List.mem_append, List.mem_cons, List.not_mem_nil, or_false,
      List.mem_replicate] at among
    rcases among with (rfl | rfl | rfl | rfl) | ⟨_, rfl⟩
    · exact ⟨⟨.inr (by decide), .inl rfl⟩, fun truncated => nomatch truncated⟩
    · exact ⟨⟨.inl rfl, .inl rfl⟩, fun _ => ⟨rfl, rfl⟩⟩
    · exact ⟨⟨.inl rfl, .inl rfl⟩, fun _ => ⟨rfl, rfl⟩⟩
    · exact ⟨⟨.inl rfl, .inr (by decide)⟩, fun truncated => nomatch truncated⟩
    · exact ⟨⟨.inl rfl, .inl rfl⟩, fun _ => ⟨rfl, rfl⟩⟩
  have placed : ∀ result ∈ mixedResults, result.Placed Library.spades :=
    fun result among => (known result among).1
  obtain ⟨games, parts, truncated, bounded, _, reordered, messages⟩ := ofResults_partition placed
  exact ⟨placed, games, parts, truncated, bounded fun result among _ => (known result among).2,
    reordered _ (List.reverse_perm _).symm, messages⟩

end Croupier
