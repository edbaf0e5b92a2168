/-
Betting that comes to its end.

Where turns consist of bets, a hand goes on only as long as somebody has yet to act. Whoever has
acted without paying has nothing left to do until somebody raises the bet, so as long as nobody
pays the turn goes round among fewer and fewer of them. A payment may ask everyone to act again, but
it costs a chip at least. So the chips that are left, counted a round each, and the turns that are
left of the round bound the rest of the hand.
-/

import Croupier.Proofs.Play.Chips
import Croupier.Proofs.Play.Completion

namespace Croupier

theorem Program.phase_of_only {program : Program} {only phase : Phase} {index : Int}
    (phases : program.phases = [only]) (found : program.phase? index = some phase) :
    phase = only := by
  have listed := mem_phases_of_phase? found
  rw [phases] at listed
  exact List.mem_singleton.mp listed

namespace Table

variable {table next wagered : Table} {seat other : Int} {program : Program} {outcome : Outcome}
  {bets : BettingPhase} {turns : Int}

/-! ### Chips -/

/-- The chips that the participants hold, without those in the pot. -/
def chipsHeld (table : Table) : Int :=
  total (table.players.map Player.chips)

theorem chipsHeld_eq (table : Table) :
    table.chipsHeld = total (table.stakes.purses.map Purse.chips) := by
  unfold chipsHeld stakes purses
  rw [List.map_map]
  rfl

theorem chipsHeld_of_purses (same : next.stakes.purses = table.stakes.purses) :
    next.chipsHeld = table.chipsHeld := by
  rw [chipsHeld_eq, chipsHeld_eq, same]

theorem chipsHeld_pay (seated : table.HasSeat seat) (amount : Int) :
    (table.pay seat amount).chipsHeld = table.chipsHeld - amount := by
  have altered : ∃ earlier later, table.purses = earlier ++ (table.player seat).purse :: later ∧
      (table.pay seat amount).purses =
        earlier ++ (table.player seat).purse.pay amount :: later :=
    exists_purses_modifyPlayer (fun purse => purse.pay amount) (fun _ => rfl) seated
  obtain ⟨earlier, later, listed, modified⟩ := altered
  rw [chipsHeld_eq, chipsHeld_eq]
  change total ((table.pay seat amount).purses.map _) = total (table.purses.map _) - amount
  rw [listed, modified, total_map_middle, total_map_middle]
  change (table.player seat).purse.chips - amount + _ = _
  omega

theorem chipsHeld_modifyPlayer (table : Table) (seat : Int) {change : Player → Player}
    (same : ∀ player, (change player).chips = player.chips) :
    (table.modifyPlayer seat change).chipsHeld = table.chipsHeld := by
  unfold modifyPlayer
  split
  · rfl
  · unfold chipsHeld
    congr 1
    apply List.ext_getElem?
    intro place
    rw [List.getElem?_map, List.getElem?_map, List.getElem?_modify]
    cases table.players[place]? with
    | none => rfl
    | some player =>
        change some (Player.chips (if seat.toNat = place then change player else player)) = _
        split
        · rw [same]
          rfl
        · rfl

theorem chipsHeld_setBet (table : Table) (seat : Int) :
    (table.setBet seat).chipsHeld = table.chipsHeld :=
  chipsHeld_of_purses (by rw [stakes_setBet])

/-! ### Who has yet to act -/

/-- Whether a participant can bet, and has yet to act or to match the bet. -/
def ToAct (table : Table) (seat : Int) : Prop :=
  table.HasSeat seat ∧ (table.player seat).canBet = true ∧
    ((table.player seat).acted = false ∨ (table.player seat).bet < table.bet)

theorem exists_toAct (going : table.bettingComplete = false) : ∃ seat, table.ToAct seat := by
  unfold bettingComplete at going
  rw [Bool.or_eq_false_iff, Bool.not_eq_false'] at going
  obtain ⟨player, listed, waits⟩ := List.any_eq_true.mp going.2
  rw [Bool.and_eq_true, Bool.or_eq_true, Bool.not_eq_true', decide_eq_true_eq] at waits
  obtain ⟨place, inside, rfl⟩ := List.mem_iff_getElem.mp listed
  refine ⟨place, ⟨Int.natCast_nonneg place, Int.ofNat_lt.mpr inside⟩, ?_⟩
  rw [player_natCast inside]
  exact waits

theorem player_modifyPlayer_of_ne (seated : table.HasSeat seat) (different : seat ≠ other)
    (change : Player → Player) :
    (table.modifyPlayer other change).player seat = table.player seat := by
  have nonneg := seated.1
  unfold modifyPlayer
  split
  · rfl
  · unfold player
    rw [if_neg (by omega), if_neg (by omega), List.getD_eq_getElem?_getD,
      List.getD_eq_getElem?_getD, List.getElem?_modify_ne _ _ (by omega)]

/-- Whoever has acted and owes nothing has nothing left to do, and nobody else has more. -/
theorem toAct_of_modifyPlayer {change : Player → Player}
    (done : (change (table.player other)).canBet = true →
      (change (table.player other)).acted = true ∧
        table.bet ≤ (change (table.player other)).bet)
    (waits : (table.modifyPlayer other change).ToAct seat) : table.ToAct seat ∧ seat ≠ other := by
  obtain ⟨seated, able, owes⟩ := waits
  have here : table.HasSeat seat :=
    seated.of_seats (congrArg Frame.seats (frame_modifyPlayer table other change)).symm
  have bet : (table.modifyPlayer other change).bet = table.bet :=
    congrArg Stakes.bet (stakes_modifyPlayer table other change)
  rw [bet] at owes
  by_cases same : seat = other
  · subst same
    rw [player_modifyPlayer here] at able owes
    obtain ⟨acted, matched⟩ := done able
    rcases owes with idle | behind
    · rw [acted] at idle
      cases idle
    · omega
  · rw [player_modifyPlayer_of_ne here same] at able owes
    exact ⟨⟨here, able, owes⟩, same⟩

/-! ### What is done in a turn -/

theorem showdowns_modifyPlayer (table : Table) (seat : Int) (change : Player → Player) :
    (table.modifyPlayer seat change).showdowns = table.showdowns := by
  unfold modifyPlayer
  split <;> rfl

theorem showdowns_pay (table : Table) (seat amount : Int) :
    (table.pay seat amount).showdowns = table.showdowns :=
  showdowns_modifyPlayer table seat _

theorem showdowns_wager {action : BettingAction}
    (wagered : table.wager? seat bets action = some next) :
    next.showdowns = table.showdowns := by
  unfold wager? at wagered
  cases action with
  | none | unknown => cases wagered
  | check | fold =>
      cases wagered
      exact showdowns_modifyPlayer table seat _
  | bet | call | raise =>
      cases wagered
      exact (showdowns_modifyPlayer _ seat _).trans (showdowns_pay table seat _)
  | allIn =>
      cases wagered
      have staked := (showdowns_modifyPlayer (table.pay seat (table.player seat).chips) seat
        fun player => { player with allIn := true }).trans (showdowns_pay table seat _)
      refine (showdowns_modifyPlayer _ seat _).trans ?_
      split <;> exact staked

theorem showdowns_showdown (table : Table) (program : Program) :
    (table.showdown program).showdowns = table.showdowns + 1 := by
  have paid : (table.payWinners (table.showdownWinners program)).showdowns = table.showdowns := by
    cases table.showdownWinners program with
    | nil => rfl
    | cons first rest =>
        have shared := @foldl_preserves _ table _ Table.showdowns _
          (fun before winner => showdowns_modifyPlayer before winner fun player =>
            { player with chips := player.chips + table.pot.tdiv ((rest.length + 1 : Nat) : Int) })
          (first :: rest)
        exact (showdowns_modifyPlayer _ first _).trans shared
  exact congrArg (· + 1) paid

/-- What a bet or a pass makes of a table, before anyone looks whether the betting is complete.
Either nobody pays, and then nobody has anything to do who had not before, the active participant
nothing at all; or somebody pays. -/
structure Answers (table wagered : Table) : Prop where
  frame : wagered.frame = table.frame
  skips : wagered.skips = table.skips
  handOver : wagered.handOver = table.handOver
  showdowns : wagered.showdowns = table.showdowns
  settles : (wagered.chipsHeld = table.chipsHeld ∧
      ∀ seat, wagered.ToAct seat → table.ToAct seat ∧ seat ≠ table.active) ∨
    wagered.chipsHeld < table.chipsHeld

/-- Whoever cannot bet may pass, and nobody else. -/
theorem canBet_eq (table : Table) (seat : Int) (bets : BettingPhase) :
    (table.player seat).canBet = !table.mayPass seat (.betting bets) := by
  change (!_ && !_ && decide (0 < (table.player seat).chips)) =
    !(_ || _ || decide ((table.player seat).chips ≤ 0))
  rw [Bool.not_or, Bool.not_or, ← decide_not, decide_eq_decide.mpr Int.not_le]

theorem answers_pass (unable : (table.player table.active).canBet = false) :
    table.Answers table := by
  refine ⟨rfl, rfl, rfl, rfl, .inl ⟨rfl, fun seat waits => ⟨waits, ?_⟩⟩⟩
  rintro rfl
  exact Bool.false_ne_true (unable.symm.trans waits.2.1)

theorem settles_wager {action : BettingAction} (seated : table.HasSeat table.active)
    (inRange : bets.InRange) (offered : .bet action ∈ table.offerBetting table.active bets)
    (known : table.wager? table.active bets action = some wagered) :
    (wagered.chipsHeld = table.chipsHeld ∧
      ∀ seat, wagered.ToAct seat → table.ToAct seat ∧ seat ≠ table.active) ∨
    wagered.chipsHeld < table.chipsHeld := by
  obtain ⟨_, funded, afforded⟩ := mem_offerBetting offered
  have minBet := inRange.minBet.1
  have acts (before : Table) :
      (before.modifyPlayer table.active Player.afterActing).chipsHeld = before.chipsHeld :=
    chipsHeld_modifyPlayer before table.active fun _ => rfl
  have paid (amount : Int) := chipsHeld_pay seated amount
  unfold wager? at known
  cases action with
  | none | unknown => cases known
  | check =>
      cases known
      exact .inl ⟨acts table, fun seat => toAct_of_modifyPlayer fun _ => ⟨rfl, afforded⟩⟩
  | fold =>
      cases known
      refine .inl ⟨chipsHeld_modifyPlayer table _ fun _ => rfl, fun seat => ?_⟩
      exact toAct_of_modifyPlayer fun able => absurd able Bool.false_ne_true
  | call =>
      cases known
      right
      rw [acts, paid]
      unfold owed
      omega
  | bet =>
      cases known
      right
      rw [acts, chipsHeld_setBet, paid]
      omega
  | raise =>
      cases known
      right
      rw [acts, chipsHeld_setBet]
      change (table.pay table.active _).chipsHeld < _
      rw [paid]
      unfold owed
      omega
  | allIn =>
      cases known
      right
      have staked : ((table.pay table.active (table.player table.active).chips).modifyPlayer
          table.active fun player => { player with allIn := true }).chipsHeld = _ :=
        chipsHeld_modifyPlayer _ _ fun _ => rfl
      rw [paid] at staked
      rw [acts]
      split
      · rw [chipsHeld_setBet, staked]
        omega
      · rw [staked]
        omega

theorem answers_wager {action : BettingAction} (seated : table.HasSeat table.active)
    (inRange : bets.InRange) (offered : .bet action ∈ table.offerBetting table.active bets)
    (known : table.wager? table.active bets action = some wagered) : table.Answers wagered where
  frame := (rearranges_wager known).frame
  skips := stakeBlind_skips.wager known
  handOver := congrArg Book.handOver (restakes_wager known)
  showdowns := showdowns_wager known
  settles := settles_wager seated inRange offered known

theorem exists_bet_of_mem_offerBetting {choice : Choice}
    (offered : choice ∈ table.offerBetting seat bets) : ∃ action, choice = .bet action := by
  unfold offerBetting at offered
  grind

/-! ### Rounds -/

/-- Whoever has yet to act comes to it before so many turns have ended. -/
def ActsWithin (table : Table) (turns : Int) : Prop :=
  ∀ seat, table.ToAct seat → table.turnsUntil seat < turns

/-- The table at which the next participant has the turn. -/
def passedOn (table : Table) : Table :=
  { table with
    phase := 0
    step := 0
    turn := table.turn + 1
    active := table.nextSeat table.active
    skips := 0
    actions := table.actions + 1 }

theorem Orderly.actsWithin_seats (orderly : table.Orderly) : table.ActsWithin table.seats :=
  fun _ waits => (orderly.turnsUntil_bounds waits.1).2

/-- If nobody pays, one turn less is left of the round. -/
theorem Answers.actsWithin_passedOn (answers : table.Answers wagered) (orderly : table.Orderly)
    (within : table.ActsWithin turns)
    (idle : ∀ seat, wagered.ToAct seat → table.ToAct seat ∧ seat ≠ table.active) :
    wagered.passedOn.ActsWithin (turns - 1) := by
  intro seat waits
  obtain ⟨waited, different⟩ := idle seat waits
  have active : wagered.active = table.active := congrArg Frame.active answers.frame
  have direction : wagered.direction = table.direction := congrArg Frame.direction answers.frame
  have seats : wagered.seats = table.seats := congrArg Frame.seats answers.frame
  have later : wagered.active ≠ seat := fun same => different (same.symm.trans active)
  have nearer : wagered.passedOn.turnsUntil seat = wagered.turnsUntil seat - 1 :=
    (orderly.of_frame answers.frame).turnsUntil_nextSeat waits.1 later
  have before : wagered.turnsUntil seat = table.turnsUntil seat := by
    unfold turnsUntil
    rw [active, direction, seats]
  have soon := within seat waited
  omega

end Table

/-! ### Steps -/

namespace Action

variable {program : Program} {table next wagered : Table} {bets : BettingPhase}
  {outcome : Outcome} {action : Action}

theorem answers_of_act (only : program.phases = [.betting bets]) (inRange : program.InRange)
    (orderly : table.Orderly) (matched : table.Matched) (legal : action.Legal program table)
    (acted : action.act program table = .ok outcome next) :
    ∃ wagered, table.Answers wagered ∧
      ((wagered.settleBetting program).endTurn nobody).finishAction program = (outcome, next) := by
  cases action with
  | pass =>
      obtain ⟨phase, found, finished⟩ := Play.pass_eq_ok_iff.mp acted
      cases Program.phase_of_only only found
      have settled : table.passIn program (.betting bets) =
          (nobody, table.settleBetting program) := by
        unfold Table.passIn
        rw [matched.settleBattle program, ite_self]
      rw [settled] at finished
      refine ⟨table, Table.answers_pass ?_, finished⟩
      have allowed : table.mayPass table.active (.betting bets) = true := by
        have passable := legal.2
        unfold Table.canPass Table.canPassAt at passable
        rw [found] at passable
        exact passable
      rw [Table.canBet_eq table table.active bets, allowed]
      rfl
  | move offered =>
      obtain ⟨phase, choice, found, rfl, listed⟩ := Table.mem_moves_iff.mp legal
      cases Program.phase_of_only only found
      obtain ⟨taken, rfl⟩ := Table.exists_bet_of_mem_offerBetting listed
      have acts : Choice.bet taken ≠ .pass := nofun
      obtain ⟨_, leader, moved, carries, finished⟩ := (Play.perform_eq_ok_iff acts).mp acted
      cases carries with
      | bet there known =>
          cases found.symm.trans there
          have answers :=
            Table.answers_wager orderly.active (inRange.phase? found) listed known
          exact ⟨_, answers, finished⟩

/-- An action leads to a showdown, or the turn goes on to the next participant and somebody has yet
to act. -/
theorem showdown_or_passedOn (answers : table.Answers wagered) (unskipped : table.skips = 0)
    (going : table.handOver = false)
    (finished : ((wagered.settleBetting program).endTurn nobody).finishAction program =
      (outcome, next)) :
    next.showdowns = table.showdowns + 1 ∨
      (∃ seat, wagered.ToAct seat) ∧ next = wagered.passedOn := by
  have after : (((wagered.settleBetting program).endTurn nobody).finishAction program).2 = next :=
    congrArg Prod.snd finished
  cases complete : wagered.bettingComplete with
  | true =>
      left
      have settled : wagered.settleBetting program = wagered.showdown program := if_pos complete
      have ended : ((wagered.showdown program).endTurn nobody).showdowns = table.showdowns + 1 := by
        have blind : Table.OrderBlind Table.showdowns := fun _ _ _ _ _ _ => rfl
        rw [blind.endTurn, Table.showdowns_showdown, answers.showdowns]
      rw [settled] at after
      rcases ((wagered.showdown program).endTurn nobody).finishAction_cases program with
        ⟨_, _, dealt⟩ | ⟨_, counted⟩
      · rw [← after, dealt]
        exact ended
      · rw [← after, counted]
        exact ended
  | false =>
      right
      refine ⟨Table.exists_toAct complete, ?_⟩
      have settled : wagered.settleBetting program = wagered := by
        unfold Table.settleBetting
        rw [complete]
        rfl
      have turned := Table.endTurn_nobody (answers.skips.trans unskipped)
      rcases (wagered.endTurn nobody).finishAction_cases program with ⟨_, ended, _⟩ | ⟨_, counted⟩
      · have still : wagered.handOver = false := answers.handOver.trans going
        rw [turned] at ended
        exact absurd (still.symm.trans ended) Bool.false_ne_true
      · rw [settled, counted, turned] at after
        exact after.symm

end Action

/-! ### Runs -/

/-- So many legal actions lead from the first table to the last one, as long as nobody has won. -/
inductive Ensues (program : Program) (first : Table) : Nat → Outcome → Table → Prop where
  | begin : Ensues program first 0 .open first
  | act {count : Nat} {table next : Table} {outcome : Outcome} {action : Action}
      (earlier : Ensues program first count .open table) (legal : action.Legal program table)
      (acted : action.act program table = .ok outcome next) :
      Ensues program first (count + 1) outcome next

theorem Ensues.reached {program : Program} {seed : UInt64} {first last : Table} {count : Nat}
    {outcome : Outcome} (reached : Reached program seed .open first)
    (ensues : Ensues program first count outcome last) : Reached program seed outcome last := by
  induction ensues with
  | begin => exact reached
  | act _ legal acted ih => exact .step ih legal acted

namespace Reached

variable {program : Program} {seed : UInt64} {outcome : Outcome} {table first last : Table}
  {bets : BettingPhase} {count : Nat}

theorem chipsHeld_nonneg (inRange : program.InRange)
    (reached : Reached program seed outcome table) : 0 ≤ table.chipsHeld := by
  have solvent := (reached.sound inRange).balanced.solvent
  rw [Table.chipsHeld_eq]
  apply total_nonneg
  intro chips member
  obtain ⟨purse, listed, rfl⟩ := List.mem_map.mp member
  exact solvent purse listed

/-- Where there are only bets nothing lies on the tableau. -/
theorem matched_of_only (only : program.phases = [.betting bets])
    (reached : Reached program seed outcome table) : table.Matched := by
  induction reached with
  | start dealt =>
      obtain ⟨_, rfl⟩ := Table.start_eq_ok_iff.mp dealt
      exact .opening program seed
  | step earlier legal acted ih =>
      refine Action.matched_act ih (fun phase found => ?_) legal acted
      rw [Program.phase_of_only only found]
      rfl

/-- Where every turn is a bet every turn begins afresh. -/
theorem skips_of_only (inRange : program.InRange) (only : program.phases = [.betting bets])
    (reached : Reached program seed outcome table) : table.skips = 0 := by
  have inTurn := reached.inTurn inRange
  obtain ⟨phase, found, nonneg, below⟩ := inTurn.current
  obtain ⟨begun, inside⟩ := inTurn.inside
  rw [Program.phase_of_only only found] at below
  rw [only] at inside
  change table.step < 1 at below
  change table.phase < 1 at inside
  exact (reached.skipsInTurn inRange).fresh (by omega) (by omega)

end Reached

section

variable {program : Program} {seed : UInt64} {first last : Table} {bets : BettingPhase}
  {count : Nat} {outcome : Outcome}

/-- Until there is a showdown, the actions so far, a round for each chip that is left, and the turns
until everyone who has yet to act has done so come to no more than a round for each chip that there
was at first, and one more. -/
theorem Ensues.showdown_or_room (inRange : program.InRange)
    (only : program.phases = [.betting bets]) (reached : Reached program seed .open first)
    (ensues : Ensues program first count outcome last) :
    first.showdowns < last.showdowns ∨
      last.showdowns = first.showdowns ∧ ∃ turns, 1 ≤ turns ∧ last.ActsWithin turns ∧
        count + program.header.participants * last.chipsHeld + turns ≤
          program.header.participants * (first.chipsHeld + 1) := by
  induction ensues with
  | begin =>
      right
      have orderly := reached.orderly inRange
      have several := orderly.several
      have seats := reached.seats_eq inRange
      refine ⟨rfl, first.seats, by omega, orderly.actsWithin_seats, ?_⟩
      rw [mul_add, seats]
      omega
  | @act count table next outcome action earlier legal acted ih =>
      have run := earlier.reached reached
      have orderly := run.orderly inRange
      obtain ⟨wagered, answers, finished⟩ :=
        Action.answers_of_act only inRange orderly (run.matched_of_only only) legal acted
      have entered := Reached.step run legal acted
      rcases Action.showdown_or_passedOn answers (run.skips_of_only inRange only)
        run.handOver_of_open finished with shown | ⟨⟨seat, waits⟩, rfl⟩
      · left
        rcases ih with before | ⟨same, _⟩
        · omega
        · omega
      · have same : wagered.passedOn.showdowns = table.showdowns := answers.showdowns
        rcases ih with before | ⟨earlier, turns, some, within, room⟩
        · left
          omega
        · right
          refine ⟨same.trans earlier, ?_⟩
          have chips : wagered.passedOn.chipsHeld = wagered.chipsHeld := rfl
          have next := entered.orderly inRange
          rcases answers.settles with ⟨held, idle⟩ | paid
          · have nearer := answers.actsWithin_passedOn orderly within idle
            have soon := nearer seat waits
            have nonneg := (next.turnsUntil_bounds waits.1).1
            refine ⟨turns - 1, by omega, nearer, ?_⟩
            rw [chips, held]
            push_cast
            omega
          · have several := next.several
            have seats := entered.seats_eq inRange
            refine ⟨wagered.passedOn.seats, by omega, next.actsWithin_seats, ?_⟩
            have fewer := Int.mul_le_mul_of_nonneg_left (Int.add_one_le_of_lt paid)
              (by omega : 0 ≤ program.header.participants)
            rw [mul_add] at fewer
            rw [chips, seats]
            push_cast
            omega

end

namespace Reached

variable {program : Program} {seed : UInt64} {first table : Table} {bets : BettingPhase}

/-- As long as nobody has won there is something to do, unless a play phase insists on a card. -/
theorem exists_act (inRange : program.InRange) (passable : program.Passable)
    (reached : Reached program seed .open table) :
    ∃ (action : Action) (outcome : Outcome) (next : Table),
      action.Legal program table ∧ action.act program table = .ok outcome next := by
  by_cases idle : table.moves program = []
  · have allowed := ((reached.inTurn inRange).moves_ne_nil_or_canPass inRange
      passable).resolve_left (not_not_intro idle)
    obtain ⟨outcome, next, passed⟩ := Table.exists_pass_of_canPass allowed
    exact ⟨.pass, outcome, next, ⟨idle, allowed⟩, passed⟩
  · obtain ⟨move, offered⟩ := List.exists_mem_of_ne_nil _ idle
    obtain ⟨outcome, next, performed⟩ := Table.exists_perform_of_mem_moves offered
    exact ⟨.move move, outcome, next, offered, performed⟩

end Reached

end Croupier
