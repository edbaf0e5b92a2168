/-
Scores within the means of a run.

An action puts a card or two in the middle, takes a trick, or does neither. So no score is further
from nothing than the actions of a run can have brought it, and the contracts of its hands, which
are scored once a hand by bids that are no higher than a deck has cards.
-/

import Croupier.Proofs.Play.Earnings

namespace Croupier

namespace Table

variable {table next : Table} {seat : Int} {program : Program}

/-! ### Wagers -/

section

variable {α : Type} {view : Player → α}

theorem map_players_setBet
    (same : ∀ (player : Player) acted, view { player with acted } = view player) (table : Table)
    (seat : Int) : (table.setBet seat).players.map view = table.players.map view := by
  have own : (table.setBet seat).players.map view =
      table.players.zipIdx.map (view ∘ Prod.fst) := by
    unfold setBet reopen
    dsimp only
    rw [List.map_map]
    refine List.map_congr_left fun entry _ => ?_
    dsimp only [Function.comp]
    split
    · rfl
    · exact same entry.1 _
  rw [own, ← List.map_map, List.zipIdx_map_fst]

variable (same : ∀ (player : Player) chips bet folded allIn acted,
  view { player with chips, bet, folded, allIn, acted } = view player)

include same

theorem map_players_wager {phase : BettingPhase} {action : BettingAction}
    (wagered : table.wager? seat phase action = some next) :
    next.players.map view = table.players.map view := by
  have acts (before : Table) :
      (before.modifyPlayer seat Player.afterActing).players.map view = before.players.map view :=
    map_players_of_same (fun player => same player _ _ _ _ _) before seat
  have pays (before : Table) (amount : Int) :
      (before.pay seat amount).players.map view = before.players.map view :=
    map_players_of_same (fun player => same player _ _ _ _ _) before seat
  have tops (before : Table) : (before.setBet seat).players.map view = before.players.map view :=
    map_players_setBet (fun player => same player _ _ _ _) before seat
  unfold wager? at wagered
  cases action with
  | none | unknown => cases wagered
  | check =>
      cases wagered
      exact acts table
  | fold =>
      cases wagered
      exact map_players_of_same (fun player => same player _ _ _ _ _) table seat
  | call =>
      cases wagered
      exact (acts _).trans (pays table _)
  | bet =>
      cases wagered
      exact (acts _).trans ((tops _).trans (pays table _))
  | raise =>
      cases wagered
      exact (acts _).trans ((tops _).trans (pays table _))
  | allIn =>
      cases wagered
      have commits (before : Table) : (before.modifyPlayer seat fun player =>
          { player with allIn := true }).players.map view = before.players.map view :=
        map_players_of_same (fun player => same player _ _ _ _ _) before seat
      have staked := (commits _).trans (pays table (table.player seat).chips)
      refine (acts _).trans ?_
      split
      · exact (tops _).trans staked
      · exact staked

theorem map_players_settleBetting (table : Table) (program : Program) :
    (table.settleBetting program).players.map view = table.players.map view := by
  have awards (amount : Int) (before : Table) (winner : Int) :
      (award amount before winner).players.map view = before.players.map view :=
    map_players_of_same (fun player => same player _ _ _ _ _) before winner
  have paid : (table.payWinners (table.showdownWinners program)).players.map view =
      table.players.map view := by
    cases table.showdownWinners program with
    | nil => rfl
    | cons first rest =>
        have shared (amount : Int) :
            ((first :: rest).foldl (award amount) table).players.map view =
              table.players.map view :=
          foldl_preserves (fun before : Table => before.players.map view) (awards amount) _
        exact (awards _ _ first).trans (shared _)
  unfold settleBetting
  split
  · unfold showdown
    dsimp only
    rw [List.map_map]
    exact (List.map_congr_left fun player _ => same player _ _ _ _ _).trans paid
  · rfl

end

theorem earns_wager {phase : BettingPhase} {action : BettingAction}
    (wagered : table.wager? seat phase action = some next) : Earns program 0 0 table next := by
  have handOver : next.handOver = table.handOver :=
    congrArg Book.handOver (restakes_wager wagered)
  exact .of_same (map_players_wager (fun _ _ _ _ _ _ => rfl) wagered)
    (congrArg Prod.fst (stakeBlind_contest.wager wagered)) (fun before => handOver.trans before)
    (stakeBlind_counters.wager wagered)

theorem earns_settleBetting (table : Table) (program : Program) :
    Earns program 0 0 table (table.settleBetting program) := by
  refine .of_same (map_players_settleBetting (fun _ _ _ _ _ _ => rfl) table program)
    (congrArg Prod.fst (stakeBlind_contest.settleBetting table program)) ?_
    (stakeBlind_counters.settleBetting table program)
  unfold settleBetting
  split
  · exact fun _ => rfl
  · exact id

/-! ### Actions -/

theorem earns_announce {value : Int} (fits : value ≤ standardDeckSize) (table : Table)
    (seat : Int) : Earns program 0 0 table (table.announce seat value) := by
  have gains (player : Player) : Player.Gains 0 0 player
      { player with bid := value, nilBid := value = 0 } :=
    ⟨(Int.add_zero _).ge, (Int.add_zero _).ge, fun _ => fits⟩
  exact .modifyPlayer gains (Int.le_refl 0) table seat

theorem earns_contribution (table : Table) (program : Program) (seat : Int) (place : Nat)
    (card : Card) (phase : TrickPhase) :
    Earns program program.mostCardPoints 0 table
      (((table.without seat place).contribute seat card phase).triggerEffect program seat
        card) := by
  have lifted : Earns program 0 0 table (table.without seat place) :=
    .of_reckoning (handBlind_reckoning.hand table seat _)
  have laid : Earns program program.mostCardPoints 0 (table.without seat place)
      ((table.without seat place).place seat .tableau card) :=
    earns_place _ seat .tableau card
  have entered : Earns program 0 0 ((table.without seat place).place seat .tableau card)
      ((table.without seat place).contribute seat card phase) :=
    .of_reckoning rfl
  have struck := handBlind_reckoning.triggerEffect (fun _ _ _ => rfl)
    ((table.without seat place).contribute seat card phase) program seat card
  have played := entered.trans (.of_reckoning struck)
  exact (lifted.trans (laid.trans played)).mono (by omega) (by omega)

theorem handOver_contribution (table : Table) (program : Program) (seat : Int) (place : Nat)
    (card : Card) (phase : TrickPhase) :
    (((table.without seat place).contribute seat card phase).triggerEffect program seat
      card).handOver = table.handOver := by
  have lifted := book_modifyHand table seat (·.eraseIdx place)
  have entered := book_contribute (table.without seat place) seat card phase
  have struck := book_triggerEffect ((table.without seat place).contribute seat card phase) program
    seat card
  exact (congrArg Book.handOver struck).trans
    ((congrArg Book.handOver entered).trans (congrArg Book.handOver lifted))

theorem earns_passIn (going : table.handOver = false) (fit : table.BidsFit) (program : Program)
    (phase : Phase) :
    Earns program program.overtrickWorth 1 table (table.passIn program phase).2 := by
  have fought : Earns program 0 0 table (if program.header.tableauMode = .war then
      table.settleBattle program else table) := by
    split
    · exact earns_settleBattle table program
    · exact .refl program table
  have still : (if program.header.tableauMode = .war then
      table.settleBattle program else table).handOver = false := by
    split
    · exact (congrArg Book.handOver (book_settleBattle table program)).trans going
    · exact going
  unfold passIn
  dsimp only
  generalize (if program.header.tableauMode = .war then table.settleBattle program
    else table) = after at fought still ⊢
  cases phase with
  | trick phase =>
      have settled := earns_settleTrick still (fought.bids fit) program phase
      exact (fought.trans settled).mono (by omega) (by omega)
  | betting phase =>
      exact (fought.trans (earns_settleBetting after program)).mono (by omega) (by omega)
  | draw | play | discard | claim | bidding => exact fought.mono (by omega) (by omega)

end Table

namespace Action

variable {program : Program} {table sequenced : Table} {phase : Phase}

/-- An action adds no more than a card or two, a trick and an overtrick. -/
theorem Proceeds.earns (proceeds : Proceeds program table phase sequenced)
    (inRange : program.InRange) (going : table.handOver = false) (fit : table.BidsFit) :
    Table.Earns program program.mostPerAction 1 table sequenced := by
  have most : (program.mostPerAction : Int) =
      2 * program.mostCardPoints + program.overtrickWorth := by
    unfold Program.mostPerAction
    omega
  have ordered {before after : Table} (same : after.reckoning = before.reckoning)
      (earns : Table.Earns program program.mostPerAction 1 table before) :
      Table.Earns program program.mostPerAction 1 table after :=
    (earns.trans (.of_reckoning same)).mono (by omega) (by omega)
  cases proceeds with
  | pass found =>
      refine ordered (Table.orderBlind_reckoning.afterPass _ program _ _) ?_
      exact (Table.earns_passIn going fit program _).mono (by omega) (Int.le_refl 1)
  | @move choice _ moved found offered acts carries =>
      refine ordered (Table.orderBlind_reckoning.afterMove _ program _ _) ?_
      have lifted (place : Nat) :
          Table.Earns program 0 0 table (table.without table.active place) :=
        .of_reckoning (Table.handBlind_reckoning.hand table _ _)
      cases carries with
      | draw drawn =>
          exact (Table.earns_draw table _ _ _).mono (by omega) (by omega)
      | @play _ place target _ card _ held =>
          have played := Table.earns_playCard (table.without table.active place.toNat) program
            table.active card target
          have struck := Table.handBlind_reckoning.triggerEffect (fun _ _ _ => rfl)
            ((table.without table.active place.toNat).playCard program table.active card target)
            program table.active card
          exact ((lifted _).trans (played.trans (.of_reckoning struck))).mono (by omega) (by omega)
      | discard discarded held =>
          exact ((lifted _).trans (Table.earns_place _ _ _ _)).mono (by omega) (by omega)
      | @trick _ place tricks card played followed held contributed =>
          have laid := Table.earns_contribution table program table.active place.toNat card tricks
          rw [← contributed] at laid
          have still : played.handOver = false := by
            rw [contributed]
            exact (Table.handOver_contribution table program _ _ card tricks).trans going
          exact (laid.trans (Table.earns_settleTrick still (laid.bids fit) program tricks)).mono
            (by omega) (by omega)
      | bet betting known =>
          exact ((Table.earns_wager known).trans (Table.earns_settleBetting _ program)).mono
            (by omega) (by omega)
      | claim claimed held =>
          have laid (card : Card) (place : Nat) (claims : ClaimPhase) :
              Table.Earns program 0 0 (table.without table.active place)
                ((table.without table.active place).layClaim table.active card claims) :=
            .of_same rfl rfl id rfl
          exact ((lifted _).trans (laid _ _ _)).mono (by omega) (by omega)
      | challenge claimed pending =>
          have turned : (table.challengeClaim table.active).reckoning = table.reckoning :=
            Table.handBlind_reckoning.hand table _ _
          exact (Table.Earns.of_reckoning turned).mono (by omega) (by omega)
      | accept claimed =>
          have closed : Table.Earns program 0 0 table table.closeClaim := .of_same rfl rfl id rfl
          exact closed.mono (by omega) (by omega)
      | @bid _ value bids bidding =>
          cases found.symm.trans bidding
          have range : bids.InRange := inRange.phase? bidding
          have fits : value ≤ standardDeckSize := by
            have most := range.bids.2.2
            rcases ((Table.bid_mem_offerBids_iff range).mp offered).2 with counts | nil
            · omega
            · omega
          exact (Table.earns_announce fits table table.active).mono (by omega) (by omega)
      | pass => exact absurd rfl acts

end Action

/-! ### Runs -/

namespace Table

variable {table : Table} {program : Program}

/-- Nobody has scored or lost more, or taken more tricks, than the actions and the hands so far can
have brought. -/
structure WithinMeans (program : Program) (table : Table) : Prop where
  potential : ∀ seat, table.potential program seat ≤
    program.mostPerAction * table.actions + program.mostContract * table.handNumber
  taken : ∀ seat, ((table.player seat).tricks.natAbs : Int) ≤ table.actions
  bids : table.BidsFit

theorem marks_opening (program : Program) (seed : UInt64) (seat : Int) :
    ((opening program seed).player seat).marks = (0, 0, -1) := by
  have marks : (opening program seed).players.map Player.marks =
      (seated program seed).players.map Player.marks :=
    map_players_deal (fun _ _ => rfl) (seated program seed).shuffleDeck program
  rw [view_player_eq marks]
  unfold player
  split
  · rfl
  · change ((program.seatTeams.map (seatedPlayer program)).getD seat.toNat {}).marks = _
    rw [List.getD_eq_getElem?_getD, List.getElem?_map]
    cases program.seatTeams[seat.toNat]? <;> rfl

theorem withinMeans_opening (program : Program) (seed : UInt64) :
    (opening program seed).WithinMeans program := by
  have score (seat : Int) : ((opening program seed).player seat).score = 0 :=
    congrArg Prod.fst (marks_opening program seed seat)
  have taken (seat : Int) : ((opening program seed).player seat).tricks = 0 :=
    congrArg (Prod.fst ∘ Prod.snd) (marks_opening program seed seat)
  have bid (seat : Int) : ((opening program seed).player seat).bid = -1 :=
    congrArg (Prod.snd ∘ Prod.snd) (marks_opening program seed seat)
  have centre : (opening program seed).centre.length = 0 :=
    (Matched.opening program seed).contributors.symm
  constructor
  · intro seat
    have going : (opening program seed).handOver = false := rfl
    have actions : (opening program seed).actions = 0 := rfl
    have handNumber : (opening program seed).handNumber = 0 := rfl
    unfold Table.potential
    rw [score, taken, centre, going, actions, handNumber, if_neg Bool.false_ne_true,
      Int.natAbs_zero]
    omega
  · intro seat
    rw [taken]
    exact Int.le_refl 0
  · intro seat
    rw [bid]
    decide

/-- With the hand before it everything but the scores is over. -/
theorem WithinMeans.nextHand (means : table.WithinMeans program) (ended : table.handOver = true) :
    (table.nextHand program).WithinMeans program := by
  have actions : (table.nextHand program).actions = table.actions := rfl
  have handNumber : (table.nextHand program).handNumber = table.handNumber + 1 := rfl
  have going : (table.nextHand program).handOver = false := rfl
  have cleared : (table.nextHand program).centre.length = 0 :=
    (Matched.nextHand table program).contributors.symm
  have counted := means.taken 0
  constructor
  · intro seat
    have before := means.potential seat
    have scored := table.score_le_potential program seat
    rw [ended, if_pos rfl] at scored
    unfold Table.potential
    rw [cleared, going, actions, handNumber, if_neg Bool.false_ne_true, player_nextHand,
      Int.mul_add, Int.mul_one]
    dsimp only
    rw [Int.natAbs_zero]
    omega
  · intro seat
    rw [player_nextHand, actions]
    dsimp only
    omega
  · intro seat
    rw [player_nextHand]
    change (-1 : Int) ≤ standardDeckSize
    decide

/-- An action and its count. -/
theorem WithinMeans.earns {next : Table} (means : table.WithinMeans program)
    (earns : Earns program program.mostPerAction 1 table next) :
    { next with actions := next.actions + 1 }.WithinMeans program := by
  have actions : next.actions = table.actions := congrArg Prod.fst earns.counters
  have handNumber : next.handNumber = table.handNumber := congrArg Prod.snd earns.counters
  constructor
  · intro seat
    have before := means.potential seat
    have after := earns.potential seat
    change next.potential program seat ≤
      program.mostPerAction * (next.actions + 1) + program.mostContract * next.handNumber
    rw [actions, handNumber, Int.mul_add, Int.mul_one]
    omega
  · intro seat
    have before := means.taken seat
    have after := earns.taken seat
    change ((next.player seat).tricks.natAbs : Int) ≤ next.actions + 1
    omega
  · exact earns.bids means.bids

end Table

namespace Reached

variable {program : Program} {seed : UInt64} {outcome : Outcome} {table : Table}

theorem withinMeans (inRange : program.InRange) (reached : Reached program seed outcome table) :
    table.WithinMeans program := by
  induction reached with
  | start dealt =>
      obtain ⟨_, rfl⟩ := Table.start_eq_ok_iff.mp dealt
      exact Table.withinMeans_opening program seed
  | step earlier legal acted ih =>
      obtain ⟨phase, sequenced, proceeds, finished⟩ := Action.proceeds_of_act legal acted
      have counted := ih.earns (proceeds.earns inRange earlier.handOver_of_open ih.bids)
      have done : (sequenced.finishAction program).2.WithinMeans program := by
        rcases sequenced.finishAction_cases program with ⟨_, ended, dealt⟩ | ⟨_, same⟩
        · rw [dealt]
          exact counted.nextHand ended
        · rw [same]
          exact counted
      rwa [finished] at done

/-- As long as a game is open, no score is further from nothing than its actions and its hands can
have brought it. -/
theorem natAbs_score_le (inRange : program.InRange) (reached : Reached program seed .open table)
    (seat : Int) : ((table.player seat).score.natAbs : Int) ≤
      program.mostPerAction * table.actions + program.mostContract * table.handNumber := by
  have scored := table.score_le_potential program seat
  rw [reached.handOver_of_open, if_neg Bool.false_ne_true, Int.add_zero] at scored
  exact scored.trans ((reached.withinMeans inRange).potential seat)

end Reached

end Croupier
