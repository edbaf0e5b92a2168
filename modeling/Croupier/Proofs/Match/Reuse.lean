/-
Games on used tables.

A game begins by clearing its table, so that nothing of an earlier game is left
in it, however that one ended. Games that are played one after the other need a
single table, and each of them ends as it does alone.
-/

import Croupier.Proofs.Match.Round

namespace Croupier

/-- The result of a game that may have broken off. -/
def Play.verdict : EStateM.Result Fault Table GameResult → GameResult
  | .ok result _ => result
  | .error fault _ => .ofFault fault

variable (program : Program) (settings : Settings) (seed : UInt64)

/-! ### What a game takes over from its table -/

theorem Table.start_of_refused {fault : Fault} (refused : refusal? program = some fault)
    (before : Table) : start program seed before = .error fault before := by
  unfold start
  rw [refused]
  rfl

namespace Play

theorem wholeGame_of_refused {fault : Fault} (refused : Table.refusal? program = some fault)
    (before : Table) : wholeGame program seed settings before = .error fault before := by
  unfold wholeGame
  change EStateM.bind _ _ _ = _
  unfold EStateM.bind
  rw [Table.start_of_refused program seed refused]

theorem wholeGame_of_playable (accepted : Table.refusal? program = none) (before other : Table) :
    wholeGame program seed settings before = wholeGame program seed settings other := by
  have opened (table : Table) :
      Table.start program seed table = .ok () (Table.opening program seed) :=
    Table.start_eq_ok_iff.mpr ⟨accepted, rfl⟩
  unfold wholeGame
  change EStateM.bind _ _ _ = EStateM.bind _ _ _
  unfold EStateM.bind
  rw [opened before, opened other]

/-- Whatever lies on the table before a game, it ends in the same way. -/
theorem verdict_wholeGame (before other : Table) :
    verdict (wholeGame program seed settings before) =
      verdict (wholeGame program seed settings other) := by
  cases refused : Table.refusal? program with
  | none => rw [wholeGame_of_playable program settings seed refused before other]
  | some fault =>
      rw [wholeGame_of_refused program settings seed refused before,
        wholeGame_of_refused program settings seed refused other]
      rfl

end Play

/-! ### What a game leaves behind -/

theorem Pool.release_acquire (pool : Pool) (table : Table) :
    (pool.acquire.2.release ⟨pool.acquire.1.number, table⟩).idle.length =
        max 1 pool.idle.length ∧
      (pool.acquire.2.release ⟨pool.acquire.1.number, table⟩).created + pool.idle.length =
        pool.created + max 1 pool.idle.length := by
  rcases pool with ⟨_ | ⟨handle, rest⟩, created⟩
  · exact ⟨rfl, rfl⟩
  · have several : max 1 (rest.length + 1) = rest.length + 1 := by omega
    simp only [acquire, release, List.length_cons, several, and_self]

/-- A game gives back the table that it was handed out, even if it broke off. -/
theorem exists_playGame_eq (pool : Pool) :
    ∃ last, playGame program seed settings pool =
      (Play.verdict (Play.wholeGame program seed settings pool.acquire.1.table),
        pool.acquire.2.release ⟨pool.acquire.1.number, last⟩) := by
  unfold playGame
  dsimp only
  cases Play.wholeGame program seed settings pool.acquire.1.table with
  | ok result last => exact ⟨last, rfl⟩
  | error fault last => exact ⟨last, rfl⟩

theorem playGame_of_pools (pool other : Pool) :
    (playGame program seed settings pool).1 = (playGame program seed settings other).1 := by
  obtain ⟨_, played⟩ := exists_playGame_eq program settings seed pool
  obtain ⟨_, replayed⟩ := exists_playGame_eq program settings seed other
  rw [played, replayed]
  exact Play.verdict_wholeGame program settings seed _ _

/-! ### Games one after the other -/

theorem playGames_results (seeds : List UInt64) (pool : Pool) :
    (playGames program settings seeds pool).1 =
      seeds.map fun seed => (playGame program seed settings {}).1 := by
  induction seeds generalizing pool with
  | nil => rfl
  | cons seed rest ih =>
      unfold playGames
      rw [List.map_cons, ← ih, ← playGame_of_pools program settings seed pool]

/-- The tables that are handed out during the games are none of those that were
handed out before, and all of them are idle at the end. -/
theorem playGames_pool (seeds : List UInt64) (pool : Pool) :
    (playGames program settings seeds pool).2.idle.length =
        max (min 1 seeds.length) pool.idle.length ∧
      (playGames program settings seeds pool).2.created + pool.idle.length =
        pool.created + (playGames program settings seeds pool).2.idle.length := by
  induction seeds generalizing pool with
  | nil => exact ⟨(Nat.zero_max _).symm, rfl⟩
  | cons seed rest ih =>
      obtain ⟨last, played⟩ := exists_playGame_eq program settings seed pool
      obtain ⟨idle, created⟩ := pool.release_acquire last
      have later := ih (playGame program seed settings pool).2
      unfold playGames
      rw [played] at later ⊢
      rw [idle] at later
      simp only [List.length_cons] at later ⊢
      omega

/-- Games that are played one after the other over one pool have the results that
they have alone, whatever was played over that pool before and however any of the
games ends. A new pool makes one table for all of them, which is idle afterwards. -/
theorem playGames_apart (seeds : List UInt64) :
    (∀ pool, (playGames program settings seeds pool).1 =
        seeds.map fun seed => (playGame program seed settings {}).1) ∧
      (playGames program settings seeds {}).2.created = min 1 seeds.length ∧
      (playGames program settings seeds {}).2.idle.length = min 1 seeds.length := by
  obtain ⟨idle, created⟩ := playGames_pool program settings seeds {}
  rw [idle] at created
  refine ⟨playGames_results program settings seeds, ?_, ?_⟩
  · simpa using created
  · simpa using idle

end Croupier
