/-
What the limits of a game decide.

Neither the rules nor the measures read the limit of turns, and the only strategy that does is the
tree search. So a game without tree search that came to an end within its limits takes the same
course under larger ones: every round is the same, and the checks before it object to even less.
-/

import Croupier.Proofs.Match.Course

namespace Croupier

/-- The program with another limit of turns. -/
def Program.lasting (program : Program) (turns : Int) : Program :=
  { program with header := { program.header with maxTurns := turns } }

/-- The settings with another limit of actions in a turn. -/
def Settings.allowing (settings : Settings) (actions : Int) : Settings :=
  { settings with maxActionsPerTurn := actions }

/-- No strategy of the game searches a tree. -/
def Watch.Searchless (watch : Watch) : Prop :=
  StrategyKind.treeSearch ∉ watch.strategists.map Strategist.kind

variable {program : Program} {settings : Settings} {seed : UInt64} {turns actions : Int}
  {table next last : Table} {watch after : Watch} {left : Round} {outcome : Outcome}

/-! ### Actions -/

namespace Play

-- The phases of a pass are compared one by one, since the kernel would unfold them all together.
theorem pass_lasting : pass (program.lasting turns) = pass program := by
  have phases : (program.lasting turns).phase? = program.phase? := rfl
  have passes (table : Table) (phase : Phase) :
      table.passIn (program.lasting turns) phase = table.passIn program phase := rfl
  have follows (table : Table) (phase : Phase) (leader : Int) :
      table.afterPass (program.lasting turns) phase leader =
        table.afterPass program phase leader := rfl
  have finishes (table : Table) :
      table.finishAction (program.lasting turns) = table.finishAction program := rfl
  unfold pass
  simp only [phases, passes, follows, finishes]

theorem perform_lasting (move : Move) :
    perform (program.lasting turns) move = perform program move := by
  have applies (seat : Int) :
      apply (program.lasting turns) seat move = apply program seat move := rfl
  have follows (table : Table) (choice : Choice) (leader : Int) :
      table.afterMove (program.lasting turns) choice leader =
        table.afterMove program choice leader := rfl
  have finishes (table : Table) :
      table.finishAction (program.lasting turns) = table.finishAction program := rfl
  unfold perform
  simp only [applies, follows, finishes, pass_lasting]

end Play

/-! ### Choices -/

namespace Strategist

variable {moves : List Move} {seat : Int} {generator : Generator} {strategist : Strategist}

theorem lookAhead_lasting :
    lookAhead table (program.lasting turns) seat moves generator =
      lookAhead table program seat moves generator := by
  have values (after : Table) (outcome : Outcome) :
      positionValue after (program.lasting turns) outcome seat =
        positionValue after program outcome seat := rfl
  induction moves generalizing generator with
  | nil => rfl
  | cons move rest ih =>
      unfold lookAhead tryMove
      simp only [Play.perform_lasting, values, ih]

theorem choose_lasting (searchless : strategist.kind ≠ .treeSearch) :
    strategist.choose table (program.lasting turns) moves seat =
      strategist.choose table program moves seat := by
  unfold choose chooseGreedily
  rw [lookAhead_lasting]
  cases kind : strategist.kind with
  | random | greedy => rfl
  | treeSearch => exact absurd kind searchless

end Strategist

namespace Play

theorem chooseMove_lasting {moves : List Move} (searchless : watch.Searchless) :
    chooseMove (program.lasting turns) moves watch = chooseMove program moves watch := by
  funext table
  unfold chooseMove
  rw [get_bind, get_bind]
  cases seat : watch.strategists[table.active.toNat]? with
  | none => rfl
  | some strategist =>
      have other : strategist.kind ≠ .treeSearch := by
        intro searches
        exact searchless (List.mem_map.mpr ⟨strategist, List.mem_of_getElem? seat, searches⟩)
      dsimp only
      rw [Strategist.choose_lasting other]

/-! ### Rounds -/

theorem round_lasting (searchless : watch.Searchless) :
    round (program.lasting turns) watch = round program watch := by
  have moves (table : Table) : table.moves (program.lasting turns) = table.moves program := rfl
  have canPass (table : Table) :
      table.canPass (program.lasting turns) = table.canPass program := rfl
  have phases : (program.lasting turns).phase? = program.phase? := rfl
  have acting (table : Table) :
      watch.acting (program.lasting turns) table = watch.acting program table := rfl
  have leaves (watch : Watch) (choice : Choice) (before after : Table) (outcome : Outcome) :
      watch.roundAfter (program.lasting turns) choice before after outcome =
        watch.roundAfter program choice before after outcome := rfl
  have chooses (table : Table) (moves : List Move) :
      chooseMove (program.lasting turns) moves (watch.acting program table) =
        chooseMove program moves (watch.acting program table) :=
    chooseMove_lasting searchless
  unfold round
  simp only [moves, canPass, phases, acting, leaves, chooses, pass_lasting, perform_lasting]

/-- The strategists of a game remain of their kinds. -/
theorem Rounds.searchless (rounds : Rounds program watch table left last)
    (searchless : watch.Searchless) (going : left = .continued after) : after.Searchless := by
  cases rounds with
  | stuck | unseated => cases going
  | acted legal acted thought =>
      obtain ⟨strategists, rfl, kinds⟩ := thought
      unfold Watch.roundAfter Watch.afterAction at going
      unfold Watch.Searchless
      split at going
      · cases going
        split
        · exact kinds ▸ searchless
        · exact kinds ▸ searchless
      · cases going

/-! ### The course of a game -/

/-- A game that came to an end takes the same course under larger limits. -/
theorem course_raised {fuel more : Nat} (longer : program.header.maxTurns ≤ turns)
    (larger : settings.maxActionsPerTurn ≤ actions) (enough : fuel ≤ more)
    (searchless : watch.Searchless)
    (done : course program settings fuel watch table = .ok (.finished outcome, after) last) :
    course (program.lasting turns) (settings.allowing actions) more watch table =
      .ok (.finished outcome, after) last := by
  induction fuel generalizing more watch table with
  | zero => cases done
  | succ fuel ih =>
      obtain ⟨more, rfl⟩ := Nat.exists_eq_add_of_lt (Nat.lt_of_lt_of_le fuel.lt_succ_self enough)
      rw [course_succ] at done
      split at done
      · cases done
      split at done
      · cases done
      rename_i inTurns inActions
      obtain ⟨left, next, rounded, rest⟩ := bind_eq_ok_iff.mp done
      have within : ¬table.turn ≥ (program.lasting turns).header.maxTurns := by
        change ¬turns ≤ _
        omega
      have allowed : ¬watch.turnActions ≥ (settings.allowing actions).maxActionsPerTurn := by
        change ¬actions ≤ _
        omega
      rw [course_succ, if_neg within, if_neg allowed, round_lasting searchless]
      refine bind_eq_ok_iff.mpr ⟨left, next, rounded, ?_⟩
      cases left with
      | ended ending watch => exact rest
      | continued watch =>
          have still := (rounds_of_round rounded).searchless searchless rfl
          exact ih (Nat.le_add_right fuel more) still rest

/-! ### Whole games -/

theorem actionLimit_le (longer : program.header.maxTurns ≤ turns)
    (larger : settings.maxActionsPerTurn ≤ actions) :
    actionLimit program settings ≤
      actionLimit (program.lasting turns) (settings.allowing actions) := by
  have rounds : program.header.maxTurns.toNat ≤ turns.toNat := Int.toNat_le_toNat longer
  have room : settings.maxActionsPerTurn.toNat ≤ actions.toNat := Int.toNat_le_toNat larger
  exact Nat.succ_le_succ (Nat.mul_le_mul rounds room)

theorem wholeGame_raised {result : GameResult} (longer : program.header.maxTurns ≤ turns)
    (larger : settings.maxActionsPerTurn ≤ actions)
    (searchless : ∀ seat : Nat, (seat : Int) < program.header.participants →
      settings.strategyOf seat ≠ .treeSearch)
    (done : wholeGame program seed settings table = .ok result last)
    (untroubled : result.trouble = none) (whole : result.truncated = false) :
    wholeGame (program.lasting turns) seed (settings.allowing actions) table =
      .ok result last := by
  obtain ⟨playable, ending, watch, played, rfl⟩ := wholeGame_eq_ok_iff.mp done
  have begins : (Watch.begin program settings seed
      (Table.opening program seed).seats).Searchless := by
    intro searches
    obtain ⟨_, strategist, kind⟩ := List.mem_map.mp searches
    obtain ⟨seat, taken, rfl⟩ := List.mem_map.mp strategist
    rw [List.mem_range, Table.seats_opening] at taken
    exact searchless seat (by omega) kind
  cases ending with
  | finished outcome =>
      have raised := course_raised longer larger (actionLimit_le longer larger) begins played
      exact wholeGame_eq_ok_iff.mpr ⟨playable, .finished outcome, watch, raised, rfl⟩
  | turnLimit => cases whole
  | endlessTurn | noMove => cases untroubled

end Play

/-- Larger limits change nothing about a game without tree search that came to an end of its
own. -/
theorem playGame_of_larger_limits {pool : Pool}
    (searchless : ∀ seat : Nat, (seat : Int) < program.header.participants →
      settings.strategyOf seat ≠ .treeSearch)
    (untroubled : (playGame program seed settings pool).1.trouble = none)
    (whole : (playGame program seed settings pool).1.truncated = false)
    (longer : program.header.maxTurns ≤ turns)
    (larger : settings.maxActionsPerTurn ≤ actions) :
    playGame (program.lasting turns) seed (settings.allowing actions) pool =
      playGame program seed settings pool := by
  unfold playGame at untroubled whole ⊢
  dsimp only at untroubled whole ⊢
  cases done : Play.wholeGame program seed settings pool.acquire.1.table with
  | ok result last =>
      rw [done] at untroubled whole
      rw [Play.wholeGame_raised longer larger searchless done untroubled whole]
  | error fault last =>
      rw [done] at untroubled
      cases untroubled

/-! ### A race to an empty hand -/

/-- A game for two of two cards a turn, which an empty hand wins. -/
def raceGame : Program :=
  { shortGame [.play { minCards := 2, maxCards := 2, passIfUnable := true }] with
    winConditions := [{}] }

/-- Its table in the first turn. -/
def raceTable (seed : UInt64) (hand other deck discard : List Card) (generator : Generator) :
    Table :=
  { Table.seated raceGame seed with
    players := [{ hand := hand }, { hand := other }]
    deck, discard, generator
    actions := discard.length
    step := discard.length }

theorem exists_opening_raceGame (seed : UInt64) :
    ∃ first second third fourth deck generator,
      Table.opening raceGame seed =
        raceTable seed [first, third] [second, fourth] deck [] generator :=
  Table.exists_opening_shortGame [.play { minCards := 2, maxCards := 2, passIfUnable := true }]
    seed

namespace Play

variable {first second third fourth played : Card} {other deck : List Card}
  {generator : Generator} {fuel : Nat}

theorem exists_course_of_second (inActions : watch.turnActions < 512)
    (random : (watch.strategists.map Strategist.kind)[0]? = some .random) :
    ∃ after last, course raceGame {} (fuel + 1) watch
      (raceTable seed [third] other deck [played] generator) =
        .ok (.finished (.winner 0), after) last := by
  obtain ⟨move, member, watched, thought, rounds⟩ := @exists_round raceGame
    (raceTable seed [third] other deck [played] generator) watch (List.cons_ne_nil _ _) random
  have only : move ∈ [⟨0, .play 0 .discard⟩] := member
  rw [List.mem_singleton] at only
  subst only
  have inTurns : (raceTable seed [third] other deck [played] generator).turn <
      raceGame.header.maxTurns := by
    change (0 : Int) < 1000
    decide
  rw [course_of_round inTurns inActions (rounds (.winner 0) _ rfl)]
  exact ⟨_, _, rfl⟩

theorem exists_course_of_first (inActions : watch.turnActions + 1 < 512)
    (random : (watch.strategists.map Strategist.kind)[0]? = some .random) :
    ∃ after last, course raceGame {} (fuel + 1 + 1) watch
      (raceTable seed [first, third] [second, fourth] deck [] generator) =
        .ok (.finished (.winner 0), after) last := by
  obtain ⟨move, member, watched, thought, rounds⟩ := @exists_round raceGame
    (raceTable seed [first, third] [second, fourth] deck [] generator) watch
    (List.cons_ne_nil _ _) random
  obtain ⟨strategists, rfl, kinds⟩ := thought
  have inTurns : (raceTable seed [first, third] [second, fourth] deck [] generator).turn <
      raceGame.header.maxTurns := by
    change (0 : Int) < 1000
    decide
  have before : watch.turnActions < ({} : Settings).maxActionsPerTurn := by
    change _ < (512 : Int)
    omega
  have either : move ∈ [⟨0, .play 0 .discard⟩, ⟨0, .play 1 .discard⟩] := member
  rw [List.mem_cons, List.mem_singleton] at either
  rcases either with rfl | rfl
  · have rounded := rounds .open
      (raceTable seed [third] [second, fourth] deck [first] generator) rfl
    rw [course_of_round inTurns before rounded]
    exact exists_course_of_second inActions (kinds ▸ random)
  · have rounded := rounds .open
      (raceTable seed [first] [second, fourth] deck [third] generator) rfl
    rw [course_of_round inTurns before rounded]
    exact exists_course_of_second inActions (kinds ▸ random)

end Play

/-- Whoever begins the race wins it, whatever is drawn. -/
theorem exists_playGame_raceGame (seed : UInt64) (pool : Pool) :
    ∃ watch last, (playGame raceGame seed {} pool).1 =
      Play.result raceGame (.finished (.winner 0)) watch last := by
  have seats : (Table.opening raceGame seed).seats = 2 := Table.seats_opening raceGame seed
  have random : ((Watch.begin raceGame {} seed (Table.opening raceGame seed).seats).strategists.map
      Strategist.kind)[0]? = some .random := by
    rw [seats]
    rfl
  have early : (Watch.begin raceGame {} seed (Table.opening raceGame seed).seats).turnActions + 1 <
      512 := by
    change (1 : Int) < 512
    decide
  have limit : Play.actionLimit raceGame {} = 511999 + 1 + 1 := rfl
  obtain ⟨first, second, third, fourth, deck, generator, opened⟩ := exists_opening_raceGame seed
  obtain ⟨watch, last, played⟩ := @Play.exists_course_of_first seed _ first second third fourth deck
    generator 511999 early random
  rw [← limit, ← opened] at played
  have done := (@Play.wholeGame_eq_ok_iff _ _ pool.acquire.1.table _ _ _).mpr
    ⟨rfl, _, _, played, rfl⟩
  exact ⟨watch, last, playGame_of_wholeGame done⟩

theorem playGame_of_larger_limits_raceGame :
    (∀ seat : Nat, (seat : Int) < raceGame.header.participants →
        ({} : Settings).strategyOf seat ≠ .treeSearch) ∧
      (playGame raceGame 7 {} {}).1.trouble = none ∧
      (playGame raceGame 7 {} {}).1.truncated = false ∧
      playGame (raceGame.lasting 2000) 7 (({} : Settings).allowing 600) {} =
        playGame raceGame 7 {} {} := by
  have searchless : ∀ seat : Nat, (seat : Int) < raceGame.header.participants →
      ({} : Settings).strategyOf seat ≠ .treeSearch := by
    intro seat taken
    have either : seat < 2 := Int.ofNat_lt.mp taken
    interval_cases seat
    · decide
    · decide
  obtain ⟨watch, last, same⟩ := exists_playGame_raceGame 7 {}
  have untroubled : (playGame raceGame 7 {} {}).1.trouble = none := by
    rw [same]
    rfl
  have whole : (playGame raceGame 7 {} {}).1.truncated = false := by
    rw [same]
    rfl
  have longer : raceGame.header.maxTurns ≤ 2000 := by decide
  have larger : ({} : Settings).maxActionsPerTurn ≤ 600 := by decide
  exact ⟨searchless, untroubled, whole,
    playGame_of_larger_limits searchless untroubled whole longer larger⟩

end Croupier
