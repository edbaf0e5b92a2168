/-
What the counts of a game come to.

A round that goes on enters one action, and at most one turn, and whoever watches the game counts
along. So the counts agree with each other all along the course of a game. The limits leave room
for so many actions: each takes up one, and a turn that ends takes up what it has left. So the
course of a game comes to its end within the limits.
-/

import Croupier.Proofs.Match.Limits
import Croupier.Proofs.Teams.Winners

namespace Croupier

/-! ### Watching -/

namespace Tension

/-- The lead has been entered before, wherever it changed hands. -/
structure Seen (tension : Tension) : Prop where
  changes : tension.changes ≤ tension.history.length - 1
  unled : tension.history = [] → tension.current = none

variable {tension : Tension}

theorem changes_enter_le (tension : Tension) (leader : Option Int) :
    (tension.enter leader).changes ≤ tension.changes + 1 := by
  unfold enter
  dsimp only
  split
  · split
    · exact Nat.le_succ _
    · exact Nat.le_refl _
  · exact Nat.le_succ _

theorem changes_enter_of_unled (unled : tension.current = none) (leader : Option Int) :
    (tension.enter leader).changes = tension.changes := by
  unfold enter
  rw [unled]
  cases leader <;> rfl

theorem Seen.update (seen : tension.Seen) (table : Table) : (tension.update table).Seen := by
  have changes := seen.changes
  refine ⟨?_, fun empty => absurd empty (List.cons_ne_nil _ _)⟩
  change (tension.enter (tension.leader? table)).changes ≤ tension.history.length
  by_cases empty : tension.history = []
  · rw [changes_enter_of_unled (seen.unled empty)]
    omega
  · have entered := tension.changes_enter_le (tension.leader? table)
    have some := List.length_pos_iff.mpr empty
    omega

end Tension

theorem Table.Advances.turn_cases {program : Program} {phase : Phase} {table next : Table}
    (advances : Table.Advances program phase table next) :
    next.turn = table.turn ∨ next.turn = table.turn + 1 := by
  cases advances with
  | ended turn => exact .inr turn
  | onward turn | stepped turn | answered turn => exact .inl turn

/-- During an action of the active participant, somebody else is watched. -/
theorem Interaction.counts_action (interaction : Interaction) {table : Table}
    (orderly : table.Orderly) (next : Table) (program : Program) (choice : Choice) :
    ((interaction.beforeAction table program table.active).afterAction next program
        choice).actions = interaction.actions + 1 ∧
      ((interaction.beforeAction table program table.active).afterAction next program
        choice).opponentTurns = interaction.opponentTurns + 1 := by
  unfold beforeAction
  dsimp only
  rw [if_neg orderly.nextSeat_ne]
  exact ⟨rfl, rfl⟩

/-! ### Counting -/

/-- The counts of a watch and of its table, which agree with each other and keep to the limits. -/
structure Watch.Tallies (program : Program) (settings : Settings) (watch : Watch) (table : Table) :
    Prop where
  seats : watch.strategists.length = table.seats
  turns : (watch.tension.history.length : Int) = table.turn
  seen : watch.tension.Seen
  actions : watch.interaction.actions = watch.actions
  opposed : watch.interaction.opponentTurns = watch.actions
  atLeast : table.turn ≤ watch.actions
  atMost : (watch.actions : Int) ≤
    table.turn * max settings.maxActionsPerTurn 0 + watch.turnActions
  inTurn : 0 ≤ watch.turnActions ∧ watch.turnActions ≤ max settings.maxActionsPerTurn 0
  inGame : table.turn ≤ program.header.maxTurns
  last : table.turn = program.header.maxTurns → watch.turnActions = 0

/-- How many actions the limits leave room for. -/
def Watch.room (program : Program) (settings : Settings) (watch : Watch) (table : Table) : Int :=
  (program.header.maxTurns - table.turn) * max settings.maxActionsPerTurn 0 - watch.turnActions

namespace Watch

variable {program : Program} {settings : Settings} {table next : Table} {watch watched : Watch}
  {seed : UInt64}

theorem tallies_begin (inRange : program.InRange) (settings : Settings) (seed : UInt64) :
    (begin program settings seed (Table.opening program seed).seats).Tallies program settings
      (Table.opening program seed) := by
  have turns := inRange.header.maxTurns.1
  refine ⟨by simp [begin], rfl, ⟨Nat.zero_le _, fun _ => rfl⟩, rfl, rfl, Int.le_refl 0, ?_, ?_, ?_,
    fun _ => rfl⟩
  · change (0 : Int) ≤ 0 * _ + 0
    omega
  · exact ⟨Int.le_refl 0, Int.le_max_right _ _⟩
  · change (0 : Int) ≤ _
    omega

theorem Tallies.room_nonneg (tallies : watch.Tallies program settings table) :
    0 ≤ watch.room program settings table := by
  obtain ⟨nonneg, inTurn⟩ := tallies.inTurn
  unfold room
  by_cases last : table.turn = program.header.maxTurns
  · rw [last, tallies.last last]
    omega
  · have inGame := tallies.inGame
    have whole : 1 * max settings.maxActionsPerTurn 0 ≤
        (program.header.maxTurns - table.turn) * max settings.maxActionsPerTurn 0 :=
      Int.mul_le_mul_of_nonneg_right (by omega) (by omega)
    omega

theorem Tallies.afterAction (tallies : watch.Tallies program settings table)
    (orderly : table.Orderly) (inTurns : table.turn < program.header.maxTurns)
    (inActions : watch.turnActions < settings.maxActionsPerTurn)
    (thought : (watch.acting program table).Rethought watched) (seats : next.seats = table.seats)
    (turn : next.turn = table.turn ∨ next.turn = table.turn + 1) (choice : Choice) :
    (watched.afterAction program choice table next).Tallies program settings next := by
  obtain ⟨strategists, rfl, kinds⟩ := thought
  obtain ⟨taken, turns, seen, actions, opposed, atLeast, atMost, ⟨nonneg, _⟩, inGame, _⟩ := tallies
  obtain ⟨entered, answered⟩ := watch.interaction.counts_action orderly next program choice
  rw [actions] at entered
  rw [opposed] at answered
  have seated : strategists.length = next.seats := by
    have same := congrArg List.length kinds
    rw [List.length_map, List.length_map] at same
    rw [same, seats]
    exact taken
  have counted : ((watch.actions + 1 : Nat) : Int) = watch.actions + 1 := Int.natCast_succ _
  have limit : settings.maxActionsPerTurn ≤ max settings.maxActionsPerTurn 0 := Int.le_max_left _ _
  unfold Watch.afterAction
  dsimp only
  rcases turn with same | passes
  · rw [if_pos same]
    refine ⟨seated, turns.trans same.symm, seen, entered, answered, ?_, ?_, ?_, same ▸ inGame, ?_⟩
    · change next.turn ≤ ((watch.actions + 1 : Nat) : Int)
      omega
    · change ((watch.actions + 1 : Nat) : Int) ≤ next.turn * _ + (watch.turnActions + 1)
      rw [same]
      omega
    · change 0 ≤ watch.turnActions + 1 ∧ watch.turnActions + 1 ≤ _
      omega
    · intro last
      omega
  · rw [if_neg (by omega)]
    have observed : ((watch.tension.history.length + 1 : Nat) : Int) = next.turn := by
      rw [Int.natCast_succ, turns, passes]
    refine ⟨seated, observed, seen.update next, entered, answered, ?_, ?_, ?_, ?_, fun _ => rfl⟩
    · change next.turn ≤ ((watch.actions + 1 : Nat) : Int)
      omega
    · change ((watch.actions + 1 : Nat) : Int) ≤ next.turn * _ + 0
      rw [passes, Int.add_mul]
      omega
    · change (0 : Int) ≤ 0 ∧ 0 ≤ _
      omega
    · omega

theorem Tallies.acting (tallies : watch.Tallies program settings table) :
    (watch.acting program table).Tallies program settings table := by
  have counts : (watch.interaction.beforeAction table program table.active).actions =
      watch.interaction.actions ∧
        (watch.interaction.beforeAction table program table.active).opponentTurns =
          watch.interaction.opponentTurns := by
    unfold Interaction.beforeAction
    dsimp only
    split <;> exact ⟨rfl, rfl⟩
  exact { tallies with
    actions := counts.1.trans tallies.actions
    opposed := counts.2.trans tallies.opposed }

/-- An action takes up room, and the end of a turn takes up all that the turn had left. -/
theorem Tallies.room_afterAction_lt (inActions : watch.turnActions < settings.maxActionsPerTurn)
    (thought : (watch.acting program table).Rethought watched)
    (turn : next.turn = table.turn ∨ next.turn = table.turn + 1) (choice : Choice) :
    (watched.afterAction program choice table next).room program settings next <
      watch.room program settings table := by
  obtain ⟨strategists, rfl, kinds⟩ := thought
  have limit : settings.maxActionsPerTurn ≤ max settings.maxActionsPerTurn 0 := Int.le_max_left _ _
  unfold Watch.afterAction room
  dsimp only
  rcases turn with same | passes
  · rw [if_pos same, same]
    change _ - (watch.turnActions + 1) < _
    omega
  · rw [if_neg (by omega), passes, Int.sub_mul, Int.sub_mul, Int.add_mul]
    change _ - 0 < _
    omega

end Watch

/-! ### The course of a game -/

namespace Play

variable {program : Program} {settings : Settings} {seed : UInt64} {table next last : Table}
  {watch after : Watch} {ending : Ending} {outcome : Outcome} {fuel more : Nat}

theorem tallies_of_acted {action : Action} {watched : Watch} (inRange : program.InRange)
    (reached : Reached program seed .open table) (legal : action.Legal program table)
    (acted : action.act program table = .ok outcome next)
    (tallies : watch.Tallies program settings table)
    (inTurns : table.turn < program.header.maxTurns)
    (inActions : watch.turnActions < settings.maxActionsPerTurn)
    (thought : (watch.acting program table).Rethought watched) (choice : Choice) :
    (watched.afterAction program choice table next).Tallies program settings next ∧
      (watched.afterAction program choice table next).room program settings next <
        watch.room program settings table := by
  have orderly := reached.orderly inRange
  have seats := (Action.absorbs_act orderly acted).seats
  obtain ⟨phase, _, advances⟩ := Action.advances_act reached.handOver_of_open legal acted
  exact ⟨tallies.afterAction orderly inTurns inActions thought seats advances.turn_cases choice,
    Watch.Tallies.room_afterAction_lt inActions thought advances.turn_cases choice⟩

/-- Once there is no room for more actions, a game does not come to them. -/
theorem course_of_larger_fuel (inRange : program.InRange)
    (reached : Reached program seed .open table)
    (tallies : watch.Tallies program settings table)
    (enough : watch.room program settings table < fuel) (larger : fuel ≤ more) :
    course program settings more watch table = course program settings fuel watch table := by
  -- As long as there is room for actions, there is fuel for them.
  induction fuel generalizing more watch table with
  | zero =>
      have nonneg := tallies.room_nonneg
      omega
  | succ fuel ih =>
      obtain ⟨more, rfl⟩ := Nat.exists_eq_add_of_le' (Nat.le_trans (Nat.succ_pos fuel) larger)
      rw [course_succ, course_succ]
      split
      · rfl
      split
      · rfl
      rename_i inTurns inActions
      change EStateM.bind _ _ _ = EStateM.bind _ _ _
      unfold EStateM.bind
      cases rounded : Play.round program watch table with
      | error fault next => rfl
      | ok left next =>
          dsimp only
          cases rounds_of_round rounded with
          | stuck | unseated => rfl
          | @acted action choice outcome _ watched legal acted thought =>
              rw [resume_roundAfter, resume_roundAfter]
              by_cases undecided : outcome = .open
              · subst undecided
                obtain ⟨kept, used⟩ := tallies_of_acted inRange reached legal acted tallies
                  (Int.not_le.mp inTurns) (Int.not_le.mp inActions) thought choice
                rw [if_neg (not_not.mpr rfl), if_neg (not_not.mpr rfl)]
                exact ih (.step reached legal acted) kept (by omega) (by omega)
              · rw [if_pos undecided, if_pos undecided]

/-- With room for its actions, a game ends with counts that agree: at the limit of turns only if
it has got there, and otherwise as a run makes it end. -/
theorem tallies_of_course (inRange : program.InRange)
    (reached : Reached program seed .open table)
    (tallies : watch.Tallies program settings table)
    (enough : watch.room program settings table < fuel)
    (done : course program settings fuel watch table = .ok (ending, after) last) :
    after.Tallies program settings last ∧
      (∀ outcome, ending = .finished outcome → Reached program seed outcome last) ∧
      (ending = .turnLimit → last.turn = program.header.maxTurns) := by
  induction fuel generalizing watch table with
  | zero =>
      have nonneg := tallies.room_nonneg
      omega
  | succ fuel ih =>
      rw [course_succ] at done
      split at done
      · rename_i inTurns
        cases done
        refine ⟨tallies, ?_, fun _ => Int.le_antisymm tallies.inGame inTurns⟩
        rintro outcome ⟨⟩
      split at done
      · cases done
        refine ⟨tallies, ?_, ?_⟩
        · rintro outcome ⟨⟩
        · rintro ⟨⟩
      rename_i inTurns inActions
      obtain ⟨left, next, rounded, rest⟩ := bind_eq_ok_iff.mp done
      cases rounds_of_round rounded with
      | stuck =>
          cases rest
          refine ⟨tallies.acting, ?_, ?_⟩
          · rintro outcome ⟨⟩
          · rintro ⟨⟩
      | unseated absent =>
          -- Whoever is to act sits at the table, and everybody there has a strategist.
          have seats := tallies.seats
          obtain ⟨nonneg, below⟩ := (reached.orderly inRange).active
          omega
      | @acted action choice outcome _ watched legal acted thought =>
          obtain ⟨kept, used⟩ := tallies_of_acted inRange reached legal acted tallies
            (Int.not_le.mp inTurns) (Int.not_le.mp inActions) thought choice
          have going : Reached program seed outcome next := .step reached legal acted
          rw [resume_roundAfter] at rest
          split at rest
          · cases rest
            refine ⟨kept, ?_, ?_⟩
            · rintro outcome ⟨⟩
              exact going
            · rintro ⟨⟩
          · rename_i undecided
            cases not_not.mp undecided
            exact ih going kept (by omega) rest

theorem room_begin_lt (inRange : program.InRange) (settings : Settings) (seed : UInt64) :
    (Watch.begin program settings seed (Table.opening program seed).seats).room program settings
      (Table.opening program seed) < actionLimit program settings := by
  have turns := inRange.header.maxTurns.1
  have room : ((actionLimit program settings : Nat) : Int) =
      program.header.maxTurns * max settings.maxActionsPerTurn 0 + 1 := by
    unfold actionLimit
    rw [Int.natCast_succ, Int.natCast_mul, Int.toNat_of_nonneg (by omega), Int.toNat_eq_max]
  rw [room]
  change (program.header.maxTurns - 0) * _ - 0 < _
  rw [Int.sub_zero, Int.sub_zero]
  omega

end Play

/-! ### Results -/

/-- The accounts of a game. -/
structure GameResult.Accounted (program : Program) (settings : Settings) (result : GameResult) :
    Prop where
  oneWinner : result.winner = nobody ∨ result.winningTeam = nobody
  winner : result.winner ≠ nobody → program.header.teamMode = false ∧
    0 ≤ result.winner ∧ result.winner < program.header.participants
  winningTeam : result.winningTeam ≠ nobody → program.header.teamMode = true ∧
    0 ≤ result.winningTeam ∧ result.winningTeam < program.teams.length
  truncated : result.truncated = true → result.trouble = none ∧ result.winner = nobody ∧
    result.winningTeam = nobody ∧ result.turns = program.header.maxTurns
  observed : (result.tension.turns : Int) = result.turns
  leadChanges : result.tension.leadChanges ≤ max (result.turns - 1) 0
  watched : result.interaction.actions = result.actions ∧
    result.interaction.opponentTurns = result.actions
  atLeast : result.turns ≤ result.actions
  atMost : (result.actions : Int) ≤ (result.turns + 1) * max settings.maxActionsPerTurn 0
  limited : (result.actions : Int) ≤
    program.header.maxTurns * max settings.maxActionsPerTurn 0

variable {program : Program} {settings : Settings} {seed : UInt64} {watch : Watch}
  {ending : Ending} {last : Table}

theorem Ending.winner_cases (inRange : program.InRange)
    (finished : ∀ outcome, ending = .finished outcome → Reached program seed outcome last) :
    ending.winner = nobody ∨ 0 ≤ ending.winner ∧ ending.winner < program.sideCount := by
  cases ending with
  | finished outcome =>
      cases outcome with
      | winner side => exact .inr ((finished _ rfl).among inRange side rfl)
      | «open» | draw => exact .inl rfl
  | turnLimit | endlessTurn | noMove => exact .inl rfl

theorem Play.accounted_result (inRange : program.InRange)
    (tallies : watch.Tallies program settings last)
    (finished : ∀ outcome, ending = .finished outcome → Reached program seed outcome last)
    (limit : ending = .turnLimit → last.turn = program.header.maxTurns) :
    (Play.result program ending watch last).Accounted program settings := by
  have won := Ending.winner_cases inRange finished
  have room := tallies.room_nonneg
  obtain ⟨_, turns, ⟨changes, _⟩, actions, opposed, atLeast, atMost, ⟨_, inTurn⟩, _, _⟩ := tallies
  unfold Program.sideCount at won
  unfold Play.result
  constructor
  case oneWinner =>
    dsimp only
    split
    · exact .inl rfl
    · exact .inr rfl
  case winner =>
    dsimp only
    split
    · exact fun someone => absurd rfl someone
    · rename_i single
      intro someone
      rw [if_neg single] at won
      have inside := won.resolve_left someone
      exact ⟨Bool.eq_false_of_not_eq_true single, inside.1, by omega⟩
  case winningTeam =>
    dsimp only
    split
    · rename_i teams
      intro someone
      rw [if_pos teams] at won
      exact ⟨teams, won.resolve_left someone⟩
    · exact fun someone => absurd rfl someone
  case truncated =>
    intro truncated
    have cut : ending = .turnLimit := of_decide_eq_true truncated
    subst cut
    exact ⟨rfl, ite_self _, ite_self _, limit rfl⟩
  case observed => exact turns
  case leadChanges =>
    change (watch.tension.changes : Int) ≤ max (last.turn - 1) 0
    omega
  case watched => exact ⟨actions, opposed⟩
  case atLeast => exact atLeast
  case atMost =>
    change (watch.actions : Int) ≤ (last.turn + 1) * _
    rw [Int.add_mul]
    omega
  case limited =>
    unfold Watch.room at room
    rw [Int.sub_mul] at room
    change (watch.actions : Int) ≤ _
    omega

end Croupier
