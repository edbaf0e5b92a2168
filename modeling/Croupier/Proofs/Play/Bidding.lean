/-
Bids that come before the tricks.

Where a turn is to bid and to contribute to a trick, a bid ends the turn. So at first the turn goes
round the table with a bid from everyone, and nobody gets as far as the trick. Once all bids are
announced nothing can be bid any more, and they stand until the next hand, which begins with none.
-/

import Croupier.Proofs.Play.Room
import Croupier.Proofs.Play.Rounds
import Croupier.Proofs.Table.NextHand

namespace Croupier

namespace Table

variable {α : Type} {view : Player → α} {change : Player → Player} {table other next : Table}
  {seat leader : Int} {program : Program} {bids : BiddingPhase} {tricks : TrickPhase}
  {missing : Int}

/-! ### What the participants show -/

theorem map_players_modifyPlayer (altered : α → α)
    (same : ∀ player, view (change player) = altered (view player)) (nonneg : 0 ≤ seat) :
    (table.modifyPlayer seat change).players.map view =
      (table.players.map view).modify seat.toNat altered := by
  unfold modifyPlayer
  rw [if_neg (Int.not_lt.mpr nonneg)]
  apply List.ext_getElem?
  intro place
  rw [List.getElem?_map, List.getElem?_modify, List.getElem?_modify, List.getElem?_map]
  by_cases here : seat.toNat = place
  · cases table.players[place]? with
    | none => rfl
    | some player => simp [here, same]
  · cases table.players[place]? with
    | none => rfl
    | some player => simp [here]

theorem map_players_of_same (same : ∀ player, view (change player) = view player) (table : Table)
    (seat : Int) : (table.modifyPlayer seat change).players.map view = table.players.map view := by
  by_cases negative : seat < 0
  · unfold modifyPlayer
    rw [if_pos negative]
  · rw [map_players_modifyPlayer id same (Int.not_lt.mp negative), List.modify_id]

/-- Whatever takes no notice of the hand. -/
theorem cardBlind_map_players
    (same : ∀ (player : Player) hand, view { player with hand } = view player) :
    CardBlind fun table => table.players.map view where
  hand table seat _ := map_players_of_same (fun player => same player _) table seat
  deck _ _ := rfl
  discard _ _ := rfl
  generator _ _ := rfl
  tableau _ _ := rfl

theorem map_players_contribution
    (same : ∀ (player : Player) hand, view { player with hand } = view player) (table : Table)
    (program : Program) (seat : Int) (place : Nat) (card : Card) (tricks : TrickPhase) :
    (((table.without seat place).contribute seat card tricks).triggerEffect program seat
      card).players.map view = table.players.map view := by
  have blind := cardBlind_map_players same
  have lifted := blind.hand table seat (·.eraseIdx place)
  have laid := blind.modifyPile (table.without seat place) seat .tableau (· ++ [card])
  exact (blind.triggerEffect (fun _ _ _ => rfl) _ program seat card).trans (laid.trans lifted)

theorem map_players_deal
    (same : ∀ (player : Player) hand, view { player with hand } = view player) (table : Table)
    (program : Program) :
    (table.deal program).players.map view = table.players.map view := by
  have own : (table.deal program).players.map view =
      table.players.zipIdx.map (view ∘ Prod.fst) := by
    unfold deal
    dsimp only
    rw [List.map_map]
    exact List.map_congr_left fun entry _ => same entry.1 _
  rw [own, ← List.map_map, List.zipIdx_map_fst]

theorem map_players_takeTrick
    (same : ∀ (player : Player) tricks score, view { player with tricks, score } = view player)
    (table : Table) (program : Program) (tricks : TrickPhase) :
    (table.takeTrick program tricks).2.players.map view = table.players.map view := by
  unfold takeTrick
  dsimp only
  split
  · rfl
  · exact map_players_of_same (fun player => same player _ _) table _

theorem map_players_scoreContracts
    (same : ∀ (player : Player) score bags, view { player with score, bags } = view player)
    (table : Table) (program : Program) :
    (table.scoreContracts program).players.map view = table.players.map view := by
  unfold scoreContracts
  split
  · rfl
  · dsimp only
    rw [List.map_map]
    exact List.map_congr_left fun player _ => same player _ _

theorem handsEmpty_takeTrick (table : Table) (program : Program) (tricks : TrickPhase) :
    (table.takeTrick program tricks).2.handsEmpty = table.handsEmpty := by
  have hands : (table.takeTrick program tricks).2.players.map Player.hand =
      table.players.map Player.hand :=
    map_players_takeTrick (fun _ _ _ => rfl) table program tricks
  unfold handsEmpty
  exact List.all_map.symm.trans ((congrArg (List.all · List.isEmpty) hands).trans List.all_map)

/-! ### Bids -/

theorem hasBid_eq_of_bids (same : table.players.map Player.bid = other.players.map Player.bid)
    (seat : Int) : table.hasBid seat = other.hasBid seat :=
  congrArg (fun bid : Int => decide (bid ≥ 0)) (view_player_eq same seat)

theorem bids_settleTrick (table : Table) (program : Program) (tricks : TrickPhase) :
    (table.settleTrick program tricks).2.players.map Player.bid =
      table.players.map Player.bid := by
  have taken : (table.takeTrick program tricks).2.players.map Player.bid = _ :=
    map_players_takeTrick (fun _ _ _ => rfl) table program tricks
  have scored (before : Table) : (before.scoreContracts program).players.map Player.bid = _ :=
    map_players_scoreContracts (fun _ _ _ => rfl) before program
  unfold settleTrick
  split
  · dsimp only
    split
    · split
      · exact (scored _).trans taken
      · exact taken
    · exact taken
  · rfl

/-! ### Bids in turn -/

/-- So many bids are missing, those of the participants whose turns come first. As long as any
is, a turn begins and ends with a bid. -/
structure BidsMissing (table : Table) (missing : Int) : Prop where
  most : missing ≤ table.seats
  first : 0 < missing → table.phase = 0
  silent : ∀ seat, table.HasSeat seat →
    (table.hasBid seat = false ↔ table.turnsUntil seat < missing)

theorem turnsUntil_active (table : Table) : table.turnsUntil table.active = 0 := by
  unfold turnsUntil
  rw [Int.sub_self, Int.zero_mul]
  rfl

/-- Whoever has the turn is the last one whose turn comes again. -/
theorem Orderly.turnsUntil_passedOn_active (orderly : table.Orderly) :
    table.passedOn.turnsUntil table.active = table.seats - 1 := by
  obtain ⟨nonneg, below⟩ := orderly.active
  have follows := orderly.nextSeat_eq
  have several := orderly.several
  change (if 0 ≤ (table.active - table.nextSeat table.active) * table.direction then
      (table.active - table.nextSeat table.active) * table.direction
    else (table.active - table.nextSeat table.active) * table.direction + table.seats) = _
  rcases orderly.direction with forward | back
  · rw [forward] at follows ⊢
    split_ifs at follows ⊢ <;> omega
  · rw [back] at follows ⊢
    split_ifs at follows ⊢ <;> omega

namespace BidsMissing

theorem hasBid (bidding : table.BidsMissing missing) (orderly : table.Orderly) (none : missing ≤ 0)
    (seated : table.HasSeat seat) : table.hasBid seat = true := by
  have turns := (orderly.turnsUntil_bounds seated).1
  by_contra silent
  have soon := (bidding.silent seat seated).mp (Bool.eq_false_of_not_eq_true silent)
  omega

theorem le_zero (bidding : table.BidsMissing missing) (orderly : table.Orderly)
    (bid : table.hasBid table.active = true) : missing ≤ 0 := by
  by_contra some
  have turn := table.turnsUntil_active
  have silent := (bidding.silent table.active orderly.active).mpr (by omega)
  rw [bid] at silent
  cases silent

theorem le_zero_of_second (bidding : table.BidsMissing missing) (second : table.phase = 1) :
    missing ≤ 0 := by
  by_contra some
  have first := bidding.first (Int.not_le.mp some)
  omega

/-- Nobody has bid, and the turn begins with the bid. -/
theorem of_none (orderly : table.Orderly) (first : table.phase = 0)
    (silent : ∀ seat, table.hasBid seat = false) : table.BidsMissing table.seats where
  most := Int.le_refl _
  first _ := first
  silent seat seated := iff_of_true (silent seat) (orderly.turnsUntil_bounds seated).2

/-- Everyone has bid. -/
theorem of_all (orderly : table.Orderly)
    (all : ∀ seat, table.HasSeat seat → table.hasBid seat = true) : table.BidsMissing 0 where
  most := Int.natCast_nonneg _
  first := fun some => absurd some (Int.lt_irrefl 0)
  silent seat seated := by
    have turns := (orderly.turnsUntil_bounds seated).1
    rw [all seat seated]
    exact iff_of_false nofun (Int.not_lt.mpr turns)

/-- A bid of the active participant is one bid less that is missing. -/
theorem announce {value : Int} (bidding : table.BidsMissing missing) (orderly : table.Orderly)
    (nonneg : 0 ≤ value) :
    (table.announce table.active value).passedOn.BidsMissing (missing - 1) := by
  have frame : (table.announce table.active value).frame = table.frame :=
    frame_modifyPlayer table table.active _
  have seats : (table.announce table.active value).seats = table.seats :=
    congrArg Frame.seats frame
  have active : (table.announce table.active value).active = table.active :=
    congrArg Frame.active frame
  have direction : (table.announce table.active value).direction = table.direction :=
    congrArg Frame.direction frame
  have announced := orderly.of_frame frame
  have most := bidding.most
  refine ⟨?_, fun _ => rfl, ?_⟩
  · change missing - 1 ≤ (table.announce table.active value).seats
    omega
  · intro seat seated
    have there : (table.announce table.active value).HasSeat seat := seated
    have here : table.HasSeat seat := there.of_seats seats.symm
    change (table.announce table.active value).hasBid seat = false ↔ _
    by_cases own : seat = table.active
    · subst own
      have spoken : (table.announce table.active value).hasBid table.active = true := by
        unfold Table.announce Table.hasBid
        rw [player_modifyPlayer here]
        exact decide_eq_true nonneg
      have round := announced.turnsUntil_passedOn_active
      rw [active, seats] at round
      rw [spoken, round]
      exact iff_of_false nofun (by omega)
    · have same : (table.announce table.active value).hasBid seat = table.hasBid seat := by
        unfold Table.announce Table.hasBid
        rw [player_modifyPlayer_of_ne here own]
      have later : (table.announce table.active value).active ≠ seat := by
        rw [active]
        exact fun turn => own turn.symm
      have nearer : (table.announce table.active value).passedOn.turnsUntil seat =
          (table.announce table.active value).turnsUntil seat - 1 :=
        announced.turnsUntil_nextSeat there later
      have before : (table.announce table.active value).turnsUntil seat =
          table.turnsUntil seat := by
        unfold turnsUntil
        rw [active, direction, seats]
      rw [same, nearer, before, bidding.silent seat here]
      omega

end BidsMissing

theorem exists_bid_of_mem_offerBids {choice : Choice}
    (offered : choice ∈ table.offerBids seat bids) : ∃ value, choice = .bid value := by
  unfold offerBids at offered
  grind

/-! ### Deals -/

theorem hasBid_opening (program : Program) (seed : UInt64) (seat : Int) :
    (opening program seed).hasBid seat = false := by
  have bids : (opening program seed).players.map Player.bid =
      (seated program seed).players.map Player.bid :=
    map_players_deal (fun _ _ => rfl) (seated program seed).shuffleDeck program
  rw [hasBid_eq_of_bids bids]
  unfold hasBid player
  split
  · rfl
  · change decide (((program.seatTeams.map (seatedPlayer program)).getD seat.toNat {}).bid ≥ 0) =
      false
    rw [List.getD_eq_getElem?_getD, List.getElem?_map]
    cases program.seatTeams[seat.toNat]? <;> rfl

theorem hasBid_nextHand (table : Table) (program : Program) (seat : Int) :
    (table.nextHand program).hasBid seat = false := by
  unfold hasBid
  rw [player_nextHand]
  rfl

end Table

/-! ### Steps -/

/-- What a legal action does where a turn is to bid and to contribute to a trick. -/
inductive Action.BidsOrTricks (program : Program) (tricks : TrickPhase) (table : Table) :
    Action → Outcome → Table → Prop where
  | onward {outcome : Outcome} (first : table.phase = 0)
      (bid : table.hasBid table.active = true) :
      BidsOrTricks program tricks table .pass outcome
        { table with phase := 1, step := 0, actions := table.actions + 1 }
  | passed {outcome : Outcome} (second : table.phase = 1) :
      BidsOrTricks program tricks table .pass outcome table.passedOn
  | bid {value : Int} {outcome : Outcome} (first : table.phase = 0) (nonneg : 0 ≤ value) :
      BidsOrTricks program tricks table (.move ⟨0, .bid value⟩) outcome
        (table.announce table.active value).passedOn
  | contributed {place : Int} {card : Card} {played next : Table} {outcome : Outcome}
      (second : table.phase = 1) (held : table.HasCard table.active place card)
      (laid : played = ((table.without table.active place.toNat).contribute table.active card
        tricks).triggerEffect program table.active card)
      (finished : ((played.settleTrick program tricks).2.endTurn
        (played.settleTrick program tricks).1).finishAction program = (outcome, next)) :
      BidsOrTricks program tricks table (.move ⟨1, .trick place⟩) outcome next

section

variable {program : Program} {bids : BiddingPhase} {tricks : TrickPhase} {table next : Table}
  {seed : UInt64} {outcome : Outcome} {action : Action} {index : Int} {phase : Phase}

theorem Program.phase_cases_of_bidding (phases : program.phases = [.bidding bids, .trick tricks])
    (found : program.phase? index = some phase) :
    (index = 0 ∧ phase = .bidding bids) ∨ (index = 1 ∧ phase = .trick tricks) := by
  obtain ⟨nonneg, listed⟩ := Program.phase?_eq_some_iff.mp found
  rw [phases] at listed
  match place : index.toNat, listed with
  | 0, listed =>
      cases listed
      exact .inl ⟨by omega, rfl⟩
  | 1, listed =>
      cases listed
      exact .inr ⟨by omega, rfl⟩

theorem Program.tricksAndBids_of_bidding
    (phases : program.phases = [.bidding bids, .trick tricks]) : program.TricksAndBids := by
  unfold TricksAndBids
  rw [phases]
  intro phase listed
  rcases List.mem_pair.mp listed with rfl | rfl
  · exact .inr rfl
  · exact .inl rfl

theorem Program.hasPhase_of_bidding (phases : program.phases = [.bidding bids, .trick tricks]) :
    program.hasPhase .trick = true ∧ program.hasPhase .bidding = true := by
  unfold hasPhase
  rw [phases]
  exact ⟨rfl, rfl⟩

namespace Action

theorem bidsOrTricks_of_pass (phases : program.phases = [.bidding bids, .trick tricks])
    (waiting : table.Waiting) (inTurn : table.InTurn program) (going : table.handOver = false)
    (legal : Action.pass.Legal program table)
    (passed : Play.pass program table = .ok outcome next) :
    BidsOrTricks program tricks table .pass outcome next := by
  have only := Program.tricksAndBids_of_bidding phases
  have trick := (Program.hasPhase_of_bidding phases).1
  rcases waiting.pass_cases only trick inTurn going passed with
    ⟨inside, rfl⟩ | ⟨⟨_, found⟩, rfl⟩
  · have first : table.phase = 0 := by
      have nonneg := inTurn.inside.1
      rw [phases] at inside
      change table.phase + 1 < 2 at inside
      omega
    have found : program.phase? table.phase = some (.bidding bids) := by
      rw [first, Program.phase?_eq_some_iff, phases]
      exact ⟨Int.le_refl 0, rfl⟩
    have bid : table.hasBid table.active = true := by
      have allowed := legal.2
      unfold Table.canPass Table.canPassAt at allowed
      rwa [found] at allowed
    rw [first]
    exact .onward first bid
  · rcases Program.phase_cases_of_bidding phases found with ⟨_, ⟨⟩⟩ | ⟨second, _⟩
    exact .passed second

theorem bidsOrTricks_of_move {move : Move} (inRange : program.InRange)
    (phases : program.phases = [.bidding bids, .trick tricks]) (unskipped : table.skips = 0)
    (going : table.handOver = false) (offered : move ∈ table.moves program)
    (acted : Play.perform program move table = .ok outcome next) :
    BidsOrTricks program tricks table (.move move) outcome next := by
  obtain ⟨phase, choice, found, rfl, listed⟩ := Table.mem_moves_iff.mp offered
  rcases Program.phase_cases_of_bidding phases found with ⟨first, rfl⟩ | ⟨second, rfl⟩
  · change choice ∈ table.offerBids table.active bids at listed
    obtain ⟨value, rfl⟩ := Table.exists_bid_of_mem_offerBids listed
    have nonneg : 0 ≤ value := by
      have inBids : bids.InRange := inRange.phase? found
      have least := inBids.bids.1
      rcases ((Table.bid_mem_offerBids_iff inBids).mp listed).2 with range | ⟨_, rfl⟩
      · omega
      · exact Int.le_refl 0
    have acts : Choice.bid value ≠ .pass := nofun
    obtain ⟨_, _, _, carries, finished⟩ := (Play.perform_eq_ok_iff acts).mp acted
    cases carries with
    | bid =>
        have kept : (table.announce table.active value).skips = 0 :=
          (Table.stakeBlind_skips.modifyPlayer table table.active _).trans unskipped
        have book : (table.announce table.active value).book = table.book :=
          Table.book_modifyPlayer fun _ => rfl
        have blind : Table.OrderBlind Table.handOver := fun _ _ _ _ _ _ => rfl
        have still : ((table.announce table.active value).endTurn nobody).handOver = false :=
          (blind.endTurn _ nobody).trans ((congrArg Book.handOver book).trans going)
        rw [Table.finishAction_of_going still finished, Table.endTurn_nobody kept, first]
        exact .bid first nonneg
  · change choice ∈ table.offerTrick table.active tricks at listed
    unfold Table.offerTrick at listed
    dsimp only at listed
    split at listed
    · cases listed
    · obtain ⟨place, _, rfl, _⟩ := Table.mem_offerCards listed
      have acts : Choice.trick place ≠ .pass := nofun
      obtain ⟨_, _, _, carries, finished⟩ := (Play.perform_eq_ok_iff acts).mp acted
      cases carries with
      | trick there held laid =>
          cases found.symm.trans there
          rw [second]
          exact .contributed second held laid finished

theorem bidsOrTricks_of_act (inRange : program.InRange)
    (phases : program.phases = [.bidding bids, .trick tricks])
    (reached : Reached program seed .open table) (legal : action.Legal program table)
    (acted : action.act program table = .ok outcome next) :
    BidsOrTricks program tricks table action outcome next := by
  have waiting := reached.waiting (Program.tricksAndBids_of_bidding phases)
  have going := reached.handOver_of_open
  cases action with
  | pass => exact bidsOrTricks_of_pass phases waiting (reached.inTurn inRange) going legal acted
  | move offered =>
      exact bidsOrTricks_of_move inRange phases waiting.unskipped going legal acted

end Action

/-! ### Runs -/

namespace Table

theorem BidsMissing.act {missing : Int} (bidding : table.BidsMissing missing)
    (orderly : table.Orderly) (after : next.Orderly)
    (acts : action.BidsOrTricks program tricks table outcome next) :
    ∃ left, next.BidsMissing left := by
  cases acts with
  | onward first bid =>
      have none := bidding.le_zero orderly bid
      exact ⟨0, .of_all after fun _ seated => bidding.hasBid orderly none seated⟩
  | passed second =>
      have none := bidding.le_zero_of_second second
      exact ⟨0, .of_all after fun _ seated => bidding.hasBid orderly none seated⟩
  | bid first nonneg => exact ⟨_, bidding.announce orderly nonneg⟩
  | @contributed place card played _ _ second held laid finished =>
      have none := bidding.le_zero_of_second second
      have moved : played.players.map Player.bid = table.players.map Player.bid := by
        rw [laid]
        exact map_players_contribution (fun _ _ => rfl) table program table.active place.toNat card
          tricks
      have blind : OrderBlind fun table => table.players.map Player.bid := fun _ _ _ _ _ _ => rfl
      have ended := (blind.endTurn _ (played.settleTrick program tricks).1).trans
        ((bids_settleTrick played program tricks).trans moved)
      have last := congrArg Prod.snd finished
      rcases ((played.settleTrick program tricks).2.endTurn
          (played.settleTrick program tricks).1).finishAction_cases program with
        ⟨_, _, dealt⟩ | ⟨_, counted⟩
      · rw [dealt] at last
        subst last
        exact ⟨_, .of_none after rfl (hasBid_nextHand _ program)⟩
      · rw [counted] at last
        subst last
        refine ⟨0, .of_all after fun seat seated => ?_⟩
        have here : table.HasSeat seat := by
          have seats := congrArg List.length ended
          rw [List.length_map, List.length_map] at seats
          exact seated.of_seats seats.symm
        exact (hasBid_eq_of_bids ended seat).trans (bidding.hasBid orderly none here)

end Table

/-- In every state of a run the missing bids are those of the participants whose turns come first,
as many as there are. -/
theorem Reached.exists_bidsMissing (inRange : program.InRange)
    (phases : program.phases = [.bidding bids, .trick tricks])
    (reached : Reached program seed outcome table) : ∃ missing, table.BidsMissing missing := by
  induction reached with
  | start dealt =>
      have orderly := (Reached.start dealt).orderly inRange
      obtain ⟨_, rfl⟩ := Table.start_eq_ok_iff.mp dealt
      exact ⟨_, .of_none orderly rfl (Table.hasBid_opening program seed)⟩
  | step earlier legal acted ih =>
      obtain ⟨missing, bidding⟩ := ih
      have acts := Action.bidsOrTricks_of_act inRange phases earlier legal acted
      exact bidding.act (earlier.orderly inRange)
        ((Reached.step earlier legal acted).orderly inRange) acts

/-- Nobody contributes to a trick before everyone has bid. -/
theorem Reached.hasBid_of_second (inRange : program.InRange)
    (phases : program.phases = [.bidding bids, .trick tricks])
    (reached : Reached program seed outcome table) (second : table.phase = 1) {seat : Int}
    (seated : table.HasSeat seat) : table.hasBid seat = true := by
  obtain ⟨missing, bidding⟩ := reached.exists_bidsMissing inRange phases
  exact bidding.hasBid (reached.orderly inRange) (bidding.le_zero_of_second second) seated

end

end Croupier
