/-
Contracts are scored once a hand.

Where a turn is to bid and to contribute to a trick, a trick scores nothing by itself. Neither do
bids, passes and card effects. The contribution that completes a trick and leaves nobody with a card
ends the hand, and with it every side scores its contract, counting the trick just won. As no trick
is left complete, no later pass can score the hand again.
-/

import Croupier.Proofs.Play.Bidding
import Croupier.Proofs.Teams.Runs

namespace Croupier

/-- What a participant has besides cards. -/
def Player.withoutCards (player : Player) : Player :=
  { player with hand := [] }

/-- Whoever wins a trick has one more. -/
def Player.winTrick (player : Player) : Player :=
  { player with tricks := player.tricks + 1 }

/-- What is written down of a game: the score and the bags of each participant and of each team,
and how many hands are over. -/
structure Board where
  participants : List (Int × Int)
  teamScores : List Int
  teamBags : List Int
  handNumber : Int
  handOver : Bool

namespace Table

variable {table counted next last : Table} {seat winner : Int} {program : Program}
  {tricks : TrickPhase} {change : Player → Player}

/-! ### What is written down -/

def board (table : Table) : Board where
  participants := table.players.map fun player => (player.score, player.bags)
  teamScores := table.teamScores
  teamBags := table.teamBags
  handNumber := table.handNumber
  handOver := table.handOver

theorem board_modifyPlayer
    (same : ∀ player, ((change player).score, (change player).bags) = (player.score, player.bags))
    (table : Table) (seat : Int) : (table.modifyPlayer seat change).board = table.board := by
  have apart : (table.modifyPlayer seat change).board =
      { table.board with
        participants := (table.modifyPlayer seat change).players.map fun player =>
          (player.score, player.bags) } := by
    unfold modifyPlayer
    split <;> rfl
  rw [apart, map_players_of_same same]
  rfl

theorem cardBlind_board : CardBlind board where
  hand table seat _ := by
    apply board_modifyPlayer
    exact fun _ => rfl
  deck _ _ := rfl
  discard _ _ := rfl
  generator _ _ := rfl
  tableau _ _ := rfl

theorem orderBlind_board : OrderBlind board :=
  fun _ _ _ _ _ _ => rfl

/-- A contribution and its effect move nothing but cards. -/
theorem kept_of_contribution {played : Table} {place : Nat} {card : Card}
    (matched : table.Matched)
    (laid : played = ((table.without seat place).contribute seat card tricks).triggerEffect program
      seat card) : played.board = table.board ∧ played.Matched := by
  have lifted := cardBlind_board.hand table seat (·.eraseIdx place)
  have entered :=
    cardBlind_board.modifyPile (table.without seat place) seat .tableau (· ++ [card])
  subst laid
  refine ⟨?_, matched.contribution program seat place card tricks⟩
  exact (cardBlind_board.triggerEffect (fun _ _ _ => rfl) _ program seat card).trans
    (entered.trans lifted)

theorem seats_eq_of_board (same : table.board = next.board) : table.seats = next.seats := by
  have listed := congrArg (fun board : Board => board.participants.length) same
  change (table.players.map _).length = (next.players.map _).length at listed
  rwa [List.length_map, List.length_map] at listed

/-- No score and no bags change. -/
structure KeepsScores (table next : Table) : Prop where
  participants : ∀ seat, (next.player seat).score = (table.player seat).score ∧
    (next.player seat).bags = (table.player seat).bags
  teams : next.teamScores = table.teamScores ∧ next.teamBags = table.teamBags

theorem KeepsScores.of_board (same : next.board = table.board) : KeepsScores table next where
  participants seat :=
    have shown := @view_player_eq _ _ _ (fun player => (player.score, player.bags))
      (congrArg Board.participants same) seat
    Prod.mk.inj shown
  teams := ⟨congrArg Board.teamScores same, congrArg Board.teamBags same⟩

theorem KeepsScores.trans (first : KeepsScores table next) (second : KeepsScores next last) :
    KeepsScores table last where
  participants seat :=
    ⟨(second.participants seat).1.trans (first.participants seat).1,
      (second.participants seat).2.trans (first.participants seat).2⟩
  teams := ⟨second.teams.1.trans first.teams.1, second.teams.2.trans first.teams.2⟩

/-- Scores and bags go on from hand to hand. -/
theorem keepsScores_nextHand (table : Table) (program : Program) :
    KeepsScores table (table.nextHand program) where
  participants seat := by
    rw [player_nextHand]
    exact ⟨rfl, rfl⟩
  teams := ⟨rfl, rfl⟩

theorem keepsScores_finishAction (table : Table) (program : Program) :
    KeepsScores table (table.finishAction program).2 := by
  rcases table.finishAction_cases program with ⟨_, _, dealt⟩ | ⟨_, same⟩
  · rw [dealt]
    have counted : KeepsScores table { table with actions := table.actions + 1 } := .of_board rfl
    exact counted.trans (keepsScores_nextHand _ program)
  · rw [same]
    exact .of_board rfl

/-! ### Contracts -/

/-- Each side scores its contract, by the tricks of one table on top of the scores of another, and
nobody scores anything else. -/
structure ScoresContracts (program : Program) (counted table next : Table) : Prop where
  single : program.header.teamMode = false →
    (∀ seat, table.HasSeat seat → let result := (counted.player seat).ownContract program
      (next.player seat).score = (table.player seat).score + result.points ∧
        (next.player seat).bags = result.bags) ∧
      next.teamScores = table.teamScores ∧ next.teamBags = table.teamBags
  teams : program.header.teamMode = true →
    (∀ seat, (next.player seat).score = (table.player seat).score ∧
      (next.player seat).bags = (table.player seat).bags) ∧
      ∀ (team : Nat) (members : List Int), program.teams[team]? = some members → ∃ score bags,
        table.teamScores[team]? = some score ∧ table.teamBags[team]? = some bags ∧
          let result := counted.contractOf program.contractValues members bags
          next.teamScores[team]? = some (score + result.points) ∧
            next.teamBags[team]? = some result.bags

/-- There is a score and there are bags for each team. -/
structure TeamsListed (table : Table) (program : Program) : Prop where
  scores : table.teamScores.length = program.teamCount
  bags : table.teamBags.length = program.teamCount

theorem scoresContracts_scoreContracts (listed : table.TeamsListed program) :
    ScoresContracts program table table (table.scoreContracts program) where
  single mode := by
    rw [scoreContracts_of_single mode]
    refine ⟨fun seat seated => ?_, rfl, rfl⟩
    obtain ⟨nonneg, below⟩ := seated
    have taken : seat.toNat < table.players.length := by
      unfold seats at below
      omega
    have upright : ¬seat < 0 := Int.not_lt.mpr nonneg
    have scored : ({ table with players := table.players.map (Player.afterContract program) } :
        Table).player seat = (table.player seat).afterContract program := by
      simp [player, upright, taken]
    rw [scored]
    exact ⟨rfl, rfl⟩
  teams mode := by
    have count : program.teamCount = program.teams.length := if_pos mode
    have scored : table.scoreContracts program =
        { table with
          teamScores := (table.teamScores.zip (table.teamContracts program)).map
            fun entry => entry.1 + entry.2.points
          teamBags := (table.teamContracts program).map (·.bags) } := if_pos mode
    rw [scored]
    refine ⟨fun _ => ⟨rfl, rfl⟩, fun team members found => ?_⟩
    obtain ⟨inside, there⟩ := List.getElem?_eq_some_iff.mp found
    have inScores : team < table.teamScores.length := by
      rw [listed.scores, count]
      exact inside
    have inBags : team < table.teamBags.length := by
      rw [listed.bags, count]
      exact inside
    have score := List.getElem?_eq_getElem inScores
    have bags := List.getElem?_eq_getElem inBags
    have result : (table.teamContracts program)[team]? = some
        (table.contractOf program.contractValues members table.teamBags[team]) := by
      have side : (program.teams.zip table.teamBags)[team]? =
          some (members, table.teamBags[team]) :=
        List.getElem?_zip_eq_some.mpr ⟨found, bags⟩
      unfold teamContracts
      rw [List.getElem?_map, side]
      rfl
    have both : (table.teamScores.zip (table.teamContracts program))[team]? =
        some (table.teamScores[team], _) :=
      List.getElem?_zip_eq_some.mpr ⟨score, result⟩
    refine ⟨_, _, score, bags, ?_, ?_⟩
    · dsimp only
      rw [List.getElem?_map, both]
      rfl
    · dsimp only
      rw [List.getElem?_map, result]
      rfl

theorem TeamsListed.of_board (listed : table.TeamsListed program)
    (same : next.board = table.board) : next.TeamsListed program where
  scores := (congrArg (·.teamScores.length) same).trans listed.scores
  bags := (congrArg (·.teamBags.length) same).trans listed.bags

theorem TeamsListed.scoreContracts (listed : table.TeamsListed program) :
    (table.scoreContracts program).TeamsListed program := by
  obtain ⟨scores, bags⟩ := listed
  unfold Table.scoreContracts
  split
  · rename_i mode
    have count : program.teamCount = program.teams.length := if_pos mode
    have results : (table.teamContracts program).length = program.teamCount := by
      unfold teamContracts
      rw [List.length_map, List.length_zip, bags, count, Nat.min_self]
    constructor
    · dsimp only
      rw [List.length_map, List.length_zip, scores, results, Nat.min_self]
    · dsimp only
      rw [List.length_map, results]
  · exact ⟨scores, bags⟩

theorem TeamsListed.opening (program : Program) (seed : UInt64) :
    (Table.opening program seed).TeamsListed program :=
  ⟨List.length_replicate, List.length_replicate⟩

/-! ### Tricks -/

def creditTrick (table : Table) (winner : Int) : Table :=
  table.modifyPlayer winner Player.winTrick

theorem trick_ne_nil_of_complete (complete : table.trickComplete = true) : table.trick ≠ [] := by
  intro none
  rw [trickComplete_of_none none] at complete
  cases complete

/-- Where tricks are bid on, the winner of one scores nothing for it yet. -/
theorem takeTrick_of_bidding (matched : table.Matched) (begun : table.trick ≠ [])
    (bidding : program.hasPhase .bidding = true) (tricks : TrickPhase) :
    (table.takeTrick program tricks).2.players =
        (table.creditTrick (table.takeTrick program tricks).1).players ∧
      (table.takeTrick program tricks).2.board = table.board := by
  obtain ⟨winner, _, wins⟩ := matched.exists_winner begun tricks
  have nothing : (fun player : Player =>
        { player with tricks := player.tricks + 1, score := player.score + 0 }) =
      Player.winTrick := by
    funext player
    rw [Int.add_zero]
    rfl
  have kept : (table.creditTrick winner).board = table.board :=
    @board_modifyPlayer Player.winTrick (fun _ => rfl) table winner
  unfold takeTrick
  dsimp only
  rw [wins, bidding, if_pos rfl]
  dsimp only
  rw [nothing]
  exact ⟨rfl, kept⟩

theorem map_players_creditTrick {left right : Table}
    (same : left.players.map Player.withoutCards = right.players.map Player.withoutCards)
    (winner : Int) :
    (left.creditTrick winner).players.map Player.withoutCards =
      (right.creditTrick winner).players.map Player.withoutCards := by
  unfold creditTrick
  by_cases negative : winner < 0
  · unfold modifyPlayer
    rw [if_pos negative, if_pos negative, same]
  · have credited (before : Table) : (before.modifyPlayer winner Player.winTrick).players.map
        Player.withoutCards = _ :=
      map_players_modifyPlayer Player.winTrick (fun _ => rfl) (Int.not_lt.mp negative)
    rw [credited, credited, same]

theorem score_withoutCards (values : ContractValues) (members : List Player) (bags : Int) :
    values.score (members.map Player.withoutCards) bags = values.score members bags := by
  unfold ContractValues.score
  rw [List.map_map, List.map_map, List.map_map]
  rfl

theorem ownContract_withoutCards (program : Program) (player : Player) :
    player.withoutCards.ownContract program = player.ownContract program :=
  rfl

/-- Contracts take no notice of cards. -/
theorem ScoresContracts.of_same {other before : Table}
    (scored : ScoresContracts program counted table next)
    (shown : counted.players.map Player.withoutCards = other.players.map Player.withoutCards)
    (keeps : KeepsScores before table) (seats : before.seats = table.seats) :
    ScoresContracts program other before next where
  single mode := by
    obtain ⟨own, teams⟩ := scored.single mode
    rw [keeps.teams.1, keeps.teams.2] at teams
    refine ⟨fun seat seated => ?_, teams⟩
    have result : (counted.player seat).ownContract program =
        (other.player seat).ownContract program := by
      rw [← ownContract_withoutCards, view_player_eq shown seat, ownContract_withoutCards]
    rw [← result, ← (keeps.participants seat).1]
    exact own seat (seated.of_seats seats.symm)
  teams mode := by
    obtain ⟨own, teams⟩ := scored.teams mode
    refine ⟨fun seat => ?_, ?_⟩
    · rw [(own seat).1, (own seat).2]
      exact keeps.participants seat
    · intro team members found
      have result (bags : Int) : counted.contractOf program.contractValues members bags =
          other.contractOf program.contractValues members bags := by
        unfold contractOf
        rw [← score_withoutCards, ← score_withoutCards _ (members.map other.player), List.map_map,
          List.map_map]
        congr 1
        exact List.map_congr_left fun seat _ => view_player_eq shown seat
      obtain ⟨score, bags, listed, also, scored⟩ := teams team members found
      rw [keeps.teams.1] at listed
      rw [keeps.teams.2] at also
      rw [result] at scored
      exact ⟨score, bags, listed, also, scored⟩

theorem ScoresContracts.trans (scored : ScoresContracts program counted table next)
    (keeps : KeepsScores next last) : ScoresContracts program counted table last where
  single mode := by
    obtain ⟨own, teams⟩ := scored.single mode
    rw [keeps.teams.1, keeps.teams.2]
    refine ⟨fun seat seated => ?_, teams⟩
    rw [(keeps.participants seat).1, (keeps.participants seat).2]
    exact own seat seated
  teams mode := by
    obtain ⟨own, teams⟩ := scored.teams mode
    rw [keeps.teams.1, keeps.teams.2]
    refine ⟨fun seat => ?_, teams⟩
    rw [(keeps.participants seat).1, (keeps.participants seat).2]
    exact own seat

/-- A trick that is not the last one scores nothing. -/
theorem board_settleTrick (matched : table.Matched) (bidding : program.hasPhase .bidding = true)
    (tricks : TrickPhase) (more : table.trickComplete = false ∨ table.handsEmpty = false) :
    (table.settleTrick program tricks).2.board = table.board := by
  unfold settleTrick
  split
  · rename_i complete
    have holding : table.handsEmpty = false := by
      rcases more with waits | holding
      · rw [complete] at waits
        cases waits
      · exact holding
    dsimp only
    rw [handsEmpty_takeTrick, holding]
    exact (takeTrick_of_bidding matched (trick_ne_nil_of_complete complete) bidding tricks).2
  · rfl

theorem settleTrick_of_last (bidding : program.hasPhase .bidding = true) (tricks : TrickPhase)
    (complete : table.trickComplete = true) (empty : table.handsEmpty = true) :
    table.settleTrick program tricks =
      ((table.takeTrick program tricks).1,
        { (table.takeTrick program tricks).2.scoreContracts program with handOver := true }) := by
  unfold settleTrick
  rw [if_pos complete]
  dsimp only
  rw [handsEmpty_takeTrick, if_pos empty, if_pos bidding]

/-- The last trick of a hand ends it, and every side scores its contract. -/
theorem scoresContracts_settleTrick (matched : table.Matched)
    (bidding : program.hasPhase .bidding = true) (listed : table.TeamsListed program)
    (tricks : TrickPhase) (complete : table.trickComplete = true)
    (empty : table.handsEmpty = true) :
    ScoresContracts program (table.creditTrick (table.takeTrick program tricks).1) table
        (table.settleTrick program tricks).2 ∧
      (table.settleTrick program tricks).2.handOver = true ∧
      (table.settleTrick program tricks).2.handNumber = table.handNumber := by
  obtain ⟨credited, board⟩ :=
    takeTrick_of_bidding matched (trick_ne_nil_of_complete complete) bidding tricks
  have taken := listed.of_board board
  have seats := seats_eq_of_board board.symm
  rw [settleTrick_of_last bidding tricks complete empty]
  have scored : ScoresContracts program _ _
      { (table.takeTrick program tricks).2.scoreContracts program with handOver := true } :=
    (scoresContracts_scoreContracts taken).trans ⟨fun _ => ⟨rfl, rfl⟩, rfl, rfl⟩
  have number (before : Table) :
      (before.scoreContracts program).handNumber = before.handNumber := by
    unfold Table.scoreContracts
    split <;> rfl
  exact ⟨scored.of_same (congrArg _ credited) (.of_board board) seats, rfl,
    (number _).trans (congrArg Board.handNumber board)⟩

theorem TeamsListed.settleTrick (listed : table.TeamsListed program) (matched : table.Matched)
    (bidding : program.hasPhase .bidding = true) (tricks : TrickPhase) :
    (table.settleTrick program tricks).2.TeamsListed program := by
  by_cases last : table.trickComplete = true ∧ table.handsEmpty = true
  · obtain ⟨complete, empty⟩ := last
    have taken := takeTrick_of_bidding matched (trick_ne_nil_of_complete complete) bidding tricks
    have scored := (listed.of_board taken.2).scoreContracts
    rw [settleTrick_of_last bidding tricks complete empty]
    exact ⟨scored.scores, scored.bags⟩
  · rw [not_and_or, Bool.not_eq_true, Bool.not_eq_true] at last
    exact listed.of_board (board_settleTrick matched bidding tricks last)

theorem orderly_contribution {place : Nat} (orderly : table.Orderly) (program : Program)
    (card : Card) (tricks : TrickPhase) :
    (((table.without table.active place).contribute table.active card tricks).triggerEffect
      program table.active card).Orderly := by
  have lifted : (table.without table.active place).Orderly := orderly.without
  have seated : (table.without table.active place).HasSeat table.active := orderly.active.without
  have laid := absorbs_contribute lifted seated card tricks
  exact (absorbs_triggerEffect program laid.orderly (seated.of_seats laid.seats) card).orderly

/-- The tricks that count are those of the participants so far, with the last one credited to its
winner. -/
theorem scoresContracts_contribution {played : Table} {place : Nat} {card : Card}
    (orderly : table.Orderly) (matched : table.Matched)
    (bidding : program.hasPhase .bidding = true) (listed : table.TeamsListed program)
    (laid : played = ((table.without table.active place).contribute table.active card
      tricks).triggerEffect program table.active card)
    (complete : played.trickComplete = true) (empty : played.handsEmpty = true) :
    table.HasSeat (played.takeTrick program tricks).1 ∧
      ScoresContracts program (table.creditTrick (played.takeTrick program tricks).1) table
        (played.settleTrick program tricks).2 ∧
      (played.settleTrick program tricks).2.handOver = true ∧
      (played.settleTrick program tricks).2.handNumber = table.handNumber := by
  obtain ⟨board, entered⟩ := kept_of_contribution matched laid
  have shown : played.players.map Player.withoutCards = table.players.map Player.withoutCards := by
    rw [laid]
    exact map_players_contribution (fun _ _ => rfl) table program table.active place card tricks
  have seats := seats_eq_of_board board.symm
  have wins : played.HasSeat (played.takeTrick program tricks).1 := by
    have begun := trick_ne_nil_of_complete complete
    apply Orderly.trick _ _ (entered.takeTrick_mem begun program tricks)
    rw [laid]
    exact orderly_contribution orderly program card tricks
  obtain ⟨scored, ended, number⟩ := scoresContracts_settleTrick entered bidding
    (listed.of_board board) tricks complete empty
  exact ⟨wins.of_seats seats,
    scored.of_same (map_players_creditTrick shown _) (.of_board board) seats, ended,
    number.trans (congrArg Board.handNumber board)⟩

theorem handsEmpty_of_hasCard {place : Int} {card : Card} (seated : table.HasSeat seat)
    (held : table.HasCard seat place card) : table.handsEmpty = false := by
  obtain ⟨nonneg, below⟩ := seated
  lift seat to Nat using nonneg
  have inside : seat < table.players.length := Int.ofNat_lt.mp below
  have there := held.2
  unfold hand at there
  rw [player_natCast inside] at there
  refine List.all_eq_false.mpr ⟨_, List.getElem_mem inside, ?_⟩
  rw [List.isEmpty_iff]
  intro none
  rw [none] at there
  cases there

/-! ### The end of an action -/

/-- A hand that is over gives way to the next one, unless the game is over too. -/
theorem finishAction_of_handOver {outcome : Outcome} (ended : table.handOver = true)
    (finished : table.finishAction program = (outcome, next)) :
    (outcome = .open → next.handNumber = table.handNumber + 1 ∧ next.handOver = false) ∧
      (outcome ≠ .open → next.handNumber = table.handNumber ∧ next.handOver = true) := by
  have result : (table.finishAction program).1 = outcome := congrArg Prod.fst finished
  have after : (table.finishAction program).2 = next := congrArg Prod.snd finished
  rcases table.finishAction_cases program with ⟨undecided, _, dealt⟩ | ⟨goes, counted⟩
  · rw [← after, dealt]
    exact ⟨fun _ => ⟨rfl, rfl⟩, fun decided => absurd (result.symm.trans undecided) decided⟩
  · rw [← after, counted]
    refine ⟨fun undecided => ?_, fun _ => ⟨rfl, ended⟩⟩
    rw [goes (result.trans undecided)] at ended
    cases ended

theorem TeamsListed.finishAction (listed : table.TeamsListed program) :
    (table.finishAction program).2.TeamsListed program := by
  rcases table.finishAction_cases program with ⟨_, _, dealt⟩ | ⟨_, same⟩
  · rw [dealt]
    exact ⟨listed.scores, listed.bags⟩
  · rw [same]
    exact ⟨listed.scores, listed.bags⟩

end Table

/-! ### Steps -/

namespace Action

variable {program : Program} {bids : BiddingPhase} {tricks : TrickPhase} {table next played : Table}
  {seed : UInt64} {outcome : Outcome} {action : Action}

/-- The action contributes a card that completes the trick, and with it and its effect the last
hand runs out of cards. -/
structure EndsHand (program : Program) (tricks : TrickPhase) (table : Table) (action : Action)
    (played : Table) : Prop where
  contributes : ∃ index place card, action = .move ⟨index, .trick place⟩ ∧
    table.HasCard table.active place card ∧
      played = ((table.without table.active place.toNat).contribute table.active card
        tricks).triggerEffect program table.active card
  complete : played.trickComplete = true
  empty : played.handsEmpty = true

theorem BidsOrTricks.keepsScores (matched : table.Matched)
    (bidding : program.hasPhase .bidding = true) (going : table.handOver = false)
    (acts : action.BidsOrTricks program tricks table outcome next)
    (more : ∀ played, ¬action.EndsHand program tricks table played) :
    table.KeepsScores next ∧ next.handNumber = table.handNumber ∧ next.handOver = false := by
  have shown (same : next.board = table.board) :
      table.KeepsScores next ∧ next.handNumber = table.handNumber ∧ next.handOver = false :=
    ⟨.of_board same, congrArg Board.handNumber same, (congrArg Board.handOver same).trans going⟩
  cases acts with
  | onward | passed => exact shown rfl
  | @bid value =>
      apply shown
      change (table.announce table.active value).board = table.board
      apply Table.board_modifyPlayer
      exact fun _ => rfl
  | @contributed place card played _ _ second held laid finished =>
      obtain ⟨board, entered⟩ := Table.kept_of_contribution matched laid
      have goesOn : played.trickComplete = false ∨ played.handsEmpty = false := by
        by_contra ended
        rw [not_or, Bool.not_eq_false, Bool.not_eq_false] at ended
        exact more played ⟨⟨1, place, card, rfl, held, laid⟩, ended.1, ended.2⟩
      have settled := (Table.board_settleTrick entered bidding tricks goesOn).trans board
      have turned := (Table.orderBlind_board.endTurn _
        (played.settleTrick program tricks).1).trans settled
      have still := (congrArg Board.handOver turned).trans going
      have last := Table.finishAction_of_going still finished
      subst last
      exact shown turned

theorem BidsOrTricks.scoresContracts (orderly : table.Orderly) (matched : table.Matched)
    (bidding : program.hasPhase .bidding = true) (listed : table.TeamsListed program)
    (acts : action.BidsOrTricks program tricks table outcome next)
    (ends : action.EndsHand program tricks table played) :
    table.handsEmpty = false ∧ table.HasSeat (played.takeTrick program tricks).1 ∧
      Table.ScoresContracts program
        (table.creditTrick (played.takeTrick program tricks).1) table next ∧
      (outcome = .open → next.handNumber = table.handNumber + 1 ∧ next.handOver = false) ∧
      (outcome ≠ .open → next.handNumber = table.handNumber ∧ next.handOver = true) := by
  obtain ⟨⟨index, place, card, rfl, held, laid⟩, complete, empty⟩ := ends
  cases acts with
  | @contributed _ other again _ _ second held' laid' finished =>
      have same : other = card := Option.some.inj (held'.2.symm.trans held.2)
      rw [same, ← laid] at laid'
      subst laid'
      obtain ⟨wins, scored, ended, number⟩ := Table.scoresContracts_contribution orderly matched
        bidding listed laid complete empty
      -- Who leads the next trick and whether another hand is dealt make no difference to scores.
      have turned := Table.orderBlind_board.endTurn (again.settleTrick program tricks).2
        (again.settleTrick program tricks).1
      have counted := Table.keepsScores_finishAction ((again.settleTrick program tricks).2.endTurn
        (again.settleTrick program tricks).1) program
      rw [finished] at counted
      have kept : ((again.settleTrick program tricks).2.endTurn
          (again.settleTrick program tricks).1).handNumber = table.handNumber :=
        (congrArg Board.handNumber turned).trans number
      have outcomes := Table.finishAction_of_handOver
        ((congrArg Board.handOver turned).trans ended) finished
      rw [kept] at outcomes
      exact ⟨Table.handsEmpty_of_hasCard orderly.active held, wins,
        (scored.trans (.of_board turned)).trans counted, outcomes⟩

theorem BidsOrTricks.teamsListed (matched : table.Matched)
    (bidding : program.hasPhase .bidding = true) (listed : table.TeamsListed program)
    (acts : action.BidsOrTricks program tricks table outcome next) :
    next.TeamsListed program := by
  cases acts with
  | onward | passed => exact listed.of_board rfl
  | bid =>
      refine listed.of_board (?_ : (table.announce table.active _).board = table.board)
      apply Table.board_modifyPlayer
      exact fun _ => rfl
  | @contributed place card played _ _ second held laid finished =>
      obtain ⟨board, entered⟩ := Table.kept_of_contribution matched laid
      have settled := (listed.of_board board).settleTrick entered bidding tricks
      have turned := settled.of_board (Table.orderBlind_board.endTurn _
        (played.settleTrick program tricks).1)
      have last := turned.finishAction
      rwa [finished] at last

end Action

/-! ### Runs -/

namespace Reached

variable {program : Program} {bids : BiddingPhase} {tricks : TrickPhase} {table next : Table}
  {seed : UInt64} {outcome : Outcome} {action : Action}

theorem teamsListed (inRange : program.InRange)
    (phases : program.phases = [.bidding bids, .trick tricks])
    (reached : Reached program seed outcome table) : table.TeamsListed program := by
  induction reached with
  | start dealt =>
      obtain ⟨_, rfl⟩ := Table.start_eq_ok_iff.mp dealt
      exact .opening program seed
  | step earlier legal acted ih =>
      have matched := (earlier.waiting (Program.tricksAndBids_of_bidding phases)).matched
      have acts := Action.bidsOrTricks_of_act inRange phases earlier legal acted
      exact acts.teamsListed matched (Program.hasPhase_of_bidding phases).2 ih

end Reached

end Croupier
