/-
A game round by round.

The course of a game looks at its two limits and then plays a round: the strategy of the active
participant acts, if it can. A round knows nothing of the limits, so that what it does to the table
and to the watch is said once and serves every statement about the course.
-/

import Croupier.Match.Game
import Croupier.Proofs.Play.Run
import Croupier.Proofs.Strategy.Choose

namespace Croupier

/-- What a round leaves: the end of the game, or the watch over the rounds to come. -/
inductive Round where
  | ended (ending : Ending) (watch : Watch)
  | continued (watch : Watch)

namespace Watch

/-- The watch while an action is under way. -/
def acting (watch : Watch) (program : Program) (table : Table) : Watch :=
  { watch with interaction := watch.interaction.beforeAction table program table.active }

/-- What an action leaves, given the table before and after it. -/
def roundAfter (watch : Watch) (program : Program) (choice : Choice) (before after : Table)
    (outcome : Outcome) : Round :=
  if outcome = .open then .continued (watch.afterAction program choice before after)
  else .ended (.finished outcome) (watch.afterAction program choice before after)

/-- Thought changes the generators of strategists and nothing else. -/
def Rethought (watch after : Watch) : Prop :=
  ∃ strategists, after = { watch with strategists } ∧
    strategists.map Strategist.kind = watch.strategists.map Strategist.kind

theorem Rethought.refl (watch : Watch) : Rethought watch watch :=
  ⟨watch.strategists, rfl, rfl⟩

theorem rethought_set {watch : Watch} {place : Nat} {strategist after : Strategist}
    (seated : watch.strategists[place]? = some strategist) (same : after.kind = strategist.kind) :
    watch.Rethought { watch with strategists := watch.strategists.set place after } := by
  refine ⟨_, rfl, ?_⟩
  obtain ⟨inside, there⟩ := List.getElem?_eq_some_iff.mp seated
  have listed : place < (watch.strategists.map Strategist.kind).length := by
    rwa [List.length_map]
  have kept : (watch.strategists.map Strategist.kind)[place] = after.kind := by
    rw [List.getElem_map, there, same]
  rw [List.map_set, ← kept, List.set_getElem_self]

end Watch

namespace Play

variable {program : Program} {settings : Settings} {table next last : Table}
  {watch after : Watch} {ending : Ending} {fuel : Nat} {left : Round}

/-! ### Choices -/

/-- A strategy chooses among the moves that it is given, and leaves the table alone. -/
theorem chooseMove_eq_ok {moves : List Move} {chosen : Option Move}
    (done : chooseMove program moves watch table = .ok (chosen, after) last) :
    last = table ∧ watch.Rethought after ∧ (∀ move ∈ chosen, move ∈ moves) ∧
      (moves ≠ [] → chosen = none → watch.strategists.length ≤ table.active.toNat) := by
  unfold chooseMove at done
  rw [get_bind] at done
  cases seat : watch.strategists[table.active.toNat]? with
  | none =>
      rw [seat] at done
      cases done
      refine ⟨rfl, .refl watch, ?_, ?_⟩
      · rintro move ⟨⟩
      · intro _ _
        exact List.getElem?_eq_none_iff.mp seat
  | some strategist =>
      rw [seat] at done
      dsimp only at done
      cases choice : strategist.choose table program moves table.active with
      | error fault =>
          rw [choice] at done
          cases done
      | ok thought =>
          obtain ⟨place, strategist⟩ := thought
          obtain ⟨kind, inside⟩ := Strategist.choose_eq_ok choice
          rw [choice] at done
          cases done
          refine ⟨rfl, Watch.rethought_set seat kind, ?_, ?_⟩
          · intro move named
            exact List.mem_of_getElem? named
          · intro some none
            exact absurd (inside some) (Nat.not_lt.mpr (List.getElem?_eq_none_iff.mp none))

/-- A strategist who plays at random always comes to a choice. -/
theorem exists_chooseMove {moves : List Move} {strategist : Strategist} (offered : moves ≠ [])
    (seated : watch.strategists[table.active.toNat]? = some strategist)
    (random : strategist.kind = .random) :
    ∃ move ∈ moves, ∃ watched, watch.Rethought watched ∧
      chooseMove program moves watch table = .ok (some move, watched) table := by
  obtain ⟨place, drawn, chosen⟩ : ∃ place drawn,
      strategist.choose table program moves table.active = .ok (place, drawn) := by
    unfold Strategist.choose
    rw [random]
    exact ⟨_, _, rfl⟩
  obtain ⟨kind, inside⟩ := Strategist.choose_eq_ok chosen
  have listed := inside offered
  refine ⟨moves[place], List.getElem_mem _, _, Watch.rethought_set seated kind, ?_⟩
  have named := List.getElem?_eq_getElem listed
  unfold chooseMove
  rw [get_bind, seated, ← named]
  dsimp only
  rw [chosen]
  rfl

/-! ### Rounds -/

/-- A round, within the limits. -/
def round (program : Program) (watch : Watch) : Play Round := do
  let table ← get
  if (table.moves program).isEmpty then
    if table.canPass program then
      let outcome ← pass program
      return (watch.acting program table).roundAfter program .pass table (← get) outcome
    else
      let kind := ((program.phase? table.phase).map Phase.name).getD ""
      return .ended (.noMove table.active table.phase kind table.turn) (watch.acting program table)
  else
    let (chosen, watch) ← chooseMove program (table.moves program) (watch.acting program table)
    match chosen with
    | none => return .ended .turnLimit watch
    | some move =>
        let outcome ← perform program move
        return watch.roundAfter program move.choice table (← get) outcome

/-- What a round does to the table, and what it leaves. -/
inductive Rounds (program : Program) (watch : Watch) (table : Table) : Round → Table → Prop where
  | acted {action : Action} {choice : Choice} {outcome : Outcome} {next : Table} {watched : Watch}
      (legal : action.Legal program table) (acted : action.act program table = .ok outcome next)
      (thought : (watch.acting program table).Rethought watched) :
      Rounds program watch table (watched.roundAfter program choice table next outcome) next
  | stuck {kind : String} (none : table.moves program = [])
      (refused : table.canPass program = false) :
      Rounds program watch table
        (.ended (.noMove table.active table.phase kind table.turn) (watch.acting program table))
        table
  | unseated {watched : Watch} (absent : watch.strategists.length ≤ table.active.toNat) :
      Rounds program watch table (.ended .turnLimit watched) table

theorem rounds_of_round (done : round program watch table = .ok left last) :
    Rounds program watch table left last := by
  unfold round at done
  rw [get_bind] at done
  split at done
  · rename_i none
    rw [List.isEmpty_iff] at none
    split at done
    · rename_i allowed
      obtain ⟨outcome, next, passed, rest⟩ := bind_eq_ok_iff.mp done
      rw [get_bind] at rest
      cases rest
      have legal : Action.Legal program table .pass := ⟨none, allowed⟩
      exact .acted legal passed (.refl _)
    · rename_i refused
      cases done
      exact .stuck none (Bool.eq_false_of_not_eq_true refused)
  · rename_i some
    rw [List.isEmpty_iff] at some
    obtain ⟨⟨chosen, thought⟩, middle, choice, rest⟩ := bind_eq_ok_iff.mp done
    obtain ⟨rfl, rethought, named, absent⟩ := chooseMove_eq_ok choice
    cases chosen with
    | none =>
        cases rest
        exact .unseated (absent some rfl)
    | some move =>
        obtain ⟨outcome, next, performed, rest⟩ := bind_eq_ok_iff.mp rest
        rw [get_bind] at rest
        cases rest
        have legal : Action.Legal program _ (.move move) := named move rfl
        exact .acted legal performed rethought

/-- A participant who plays at random carries out one of the moves on offer. -/
theorem exists_round (offered : table.moves program ≠ [])
    (random : (watch.strategists.map Strategist.kind)[table.active.toNat]? = some .random) :
    ∃ move ∈ table.moves program, ∃ watched,
      (watch.acting program table).Rethought watched ∧
        ∀ outcome next, perform program move table = .ok outcome next →
          round program watch table =
            .ok (watched.roundAfter program move.choice table next outcome) next := by
  rw [List.getElem?_map, Option.map_eq_some_iff] at random
  obtain ⟨strategist, seated, random⟩ := random
  obtain ⟨move, member, watched, thought, chosen⟩ :=
    @exists_chooseMove program table (watch.acting program table) _ strategist offered seated random
  refine ⟨move, member, watched, thought, fun outcome next performed => ?_⟩
  unfold Play.round
  rw [get_bind, if_neg (by simpa using offered)]
  refine bind_eq_ok_iff.mpr ⟨_, _, chosen, ?_⟩
  exact bind_eq_ok_iff.mpr ⟨_, _, performed, rfl⟩

/-! ### The course of a game -/

/-- The course goes on as a round leaves it. -/
def resume (program : Program) (settings : Settings) (fuel : Nat) : Round → Play (Ending × Watch)
  | .ended ending watch => return (ending, watch)
  | .continued watch => course program settings fuel watch

theorem resume_roundAfter {choice : Choice} {outcome : Outcome} :
    resume program settings fuel (watch.roundAfter program choice table next outcome) =
      if outcome ≠ .open then
        return (.finished outcome, watch.afterAction program choice table next)
      else course program settings fuel (watch.afterAction program choice table next) := by
  unfold Watch.roundAfter
  by_cases undecided : outcome = .open
  · rw [if_pos undecided, if_neg (not_not.mpr undecided)]
    rfl
  · rw [if_neg undecided, if_pos undecided]
    rfl

/-- The course of a game looks at the limits, plays a round, and goes on as that leaves it. -/
theorem course_succ :
    course program settings (fuel + 1) watch table =
      if table.turn ≥ program.header.maxTurns then .ok (.turnLimit, watch) table
      else if watch.turnActions ≥ settings.maxActionsPerTurn then
        .ok (.endlessTurn table.turn watch.turnActions, watch) table
      else (round program watch >>= resume program settings fuel) table := by
  unfold course round
  rw [get_bind]
  split
  · rfl
  split
  · rfl
  rw [bind_assoc, get_bind]
  dsimp only
  by_cases idle : (table.moves program).isEmpty = true
  · rw [if_pos idle, if_pos idle]
    by_cases allowed : table.canPass program = true
    · rw [if_pos allowed, if_pos allowed, bind_assoc]
      refine congrFun (bind_congr fun outcome => ?_) table
      exact funext fun after => (congrFun resume_roundAfter after).symm
    · rw [if_neg allowed, if_neg allowed]
      rfl
  · rw [if_neg idle, if_neg idle, bind_assoc]
    refine congrFun (bind_congr fun (chosen, watch) => ?_) table
    cases chosen with
    | none => rfl
    | some move =>
        dsimp only
        rw [bind_assoc]
        refine bind_congr fun outcome => ?_
        exact funext fun after => (congrFun resume_roundAfter after).symm

theorem course_of_round {left : Round} (inTurns : table.turn < program.header.maxTurns)
    (inActions : watch.turnActions < settings.maxActionsPerTurn)
    (rounded : round program watch table = .ok left next) :
    course program settings (fuel + 1) watch table = resume program settings fuel left next := by
  rw [course_succ, if_neg (Int.not_le.mpr inTurns), if_neg (Int.not_le.mpr inActions)]
  change EStateM.bind _ _ _ = _
  unfold EStateM.bind
  rw [rounded]

/-! ### Whole games -/

/-- A whole game is the course from the first deal. -/
theorem wholeGame_eq_ok_iff {seed : UInt64} {result : GameResult} :
    wholeGame program seed settings table = .ok result last ↔
      Table.refusal? program = none ∧ ∃ ending watch,
        course program settings (actionLimit program settings)
            (Watch.begin program settings seed (Table.opening program seed).seats)
            (Table.opening program seed) = .ok (ending, watch) last ∧
          Play.result program ending watch last = result := by
  unfold wholeGame
  constructor
  · intro done
    obtain ⟨_, opened, started, rest⟩ := bind_eq_ok_iff.mp done
    obtain ⟨accepted, rfl⟩ := Table.start_eq_ok_iff.mp started
    rw [get_bind] at rest
    obtain ⟨⟨ending, watch⟩, last, played, rest⟩ := bind_eq_ok_iff.mp rest
    cases rest
    exact ⟨accepted, ending, watch, played, rfl⟩
  · rintro ⟨accepted, ending, watch, played, rfl⟩
    refine bind_eq_ok_iff.mpr ⟨_, _, Table.start_eq_ok_iff.mpr ⟨accepted, rfl⟩, ?_⟩
    rw [get_bind]
    exact bind_eq_ok_iff.mpr ⟨_, _, played, rfl⟩

end Play

variable {program : Program} {seed : UInt64} {settings : Settings} {pool : Pool}

theorem playGame_of_wholeGame {result : GameResult} {last : Table}
    (done : Play.wholeGame program seed settings pool.acquire.1.table = .ok result last) :
    (playGame program seed settings pool).1 = result := by
  unfold playGame
  dsimp only
  rw [done]

/-- The result of a game is that of the whole course, unless a fault broke it off. -/
theorem playGame_cases (program : Program) (seed : UInt64) (settings : Settings) (pool : Pool) :
    (∃ fault, (playGame program seed settings pool).1 = .ofFault fault) ∨
      ∃ table last,
        Play.wholeGame program seed settings table =
          .ok (playGame program seed settings pool).1 last := by
  cases done : Play.wholeGame program seed settings pool.acquire.1.table with
  | ok result last =>
      rw [playGame_of_wholeGame done]
      exact .inr ⟨_, last, done⟩
  | error fault last =>
      refine .inl ⟨fault, ?_⟩
      unfold playGame
      dsimp only
      rw [done]

end Croupier
