/-
Tricks that come to their end.

Where turns consist of tricks and bids, cards leave a hand by a contribution or by its effect, and
whether the trick is complete is looked at after both. So whatever the effects do, somebody is
missing from every trick in progress. A contribution ends the turn, which uses up the skips that
its effect may have added. So the passes that follow lead from seat to seat, and whoever is missing
has to contribute as soon as the turn comes there.
-/

import Croupier.Proofs.Play.Hands
import Croupier.Proofs.Play.Order
import Croupier.Proofs.Play.Pace

namespace Croupier

/-! ### Programs -/

/-- Turns consist of tricks and bids. -/
def Program.TricksAndBids (program : Program) : Prop :=
  ∀ phase ∈ program.phases, phase.kind = .trick ∨ phase.kind = .bidding

instance (program : Program) : Decidable program.TricksAndBids :=
  inferInstanceAs (Decidable (∀ _ ∈ _, _))

theorem Program.TricksAndBids.phase_cases {program : Program} {index : Int} {phase : Phase}
    (only : program.TricksAndBids) (found : program.phase? index = some phase) :
    (∃ tricks, phase = .trick tricks) ∨ ∃ bids, phase = .bidding bids := by
  have kind := only phase (Program.mem_phases_of_phase? found)
  cases phase with
  | trick tricks => exact .inl ⟨tricks, rfl⟩
  | bidding bids => exact .inr ⟨bids, rfl⟩
  | draw | play | discard | betting | claim => rcases kind with ⟨⟨⟩⟩ | ⟨⟨⟩⟩

/-- No bid is asked for before the first trick. -/
def Program.TrickBeforeBids (program : Program) : Prop :=
  ∀ phase ∈ program.phases.takeWhile (fun phase => phase.kind ≠ .trick), phase.kind ≠ .bidding

instance (program : Program) : Decidable program.TrickBeforeBids :=
  inferInstanceAs (Decidable (∀ _ ∈ _, _))

theorem Phase.endsTurn_of_trick {phase : Phase} (trick : phase.kind = .trick) :
    phase.endsTurn = true := by
  cases phase with
  | trick => rfl
  | draw | play | discard | betting | claim | bidding => cases trick

namespace Table

variable {table next moved sequenced : Table} {seat leader : Int} {program : Program}
  {phase : Phase}

/-! ### Tricks in progress -/

/-- A trick in progress has a contributor for each of its cards and waits for another one, and
nobody is to be passed over. -/
structure Waiting (table : Table) : Prop where
  matched : table.Matched
  waits : table.trickComplete = false
  unskipped : table.skips = 0

theorem trickComplete_of_none (none : table.trick = []) : table.trickComplete = false := by
  unfold trickComplete
  rw [none]
  rfl

theorem orderBlind_trickComplete : OrderBlind trickComplete :=
  fun _ _ _ _ _ _ => rfl

theorem Matched.trickComplete_settleTrick (matched : table.Matched) (program : Program)
    (tricks : TrickPhase) : (table.settleTrick program tricks).2.trickComplete = false := by
  unfold Table.settleTrick
  by_cases complete : table.trickComplete = true
  · rw [if_pos complete]
    have begun : table.trick ≠ [] := by
      intro none
      rw [trickComplete_of_none none] at complete
      cases complete
    have taken := matched.trick_takeTrick begun program tricks
    have scored (before : Table) : (before.scoreContracts program).trick = before.trick :=
      congrArg (·.2.1) (contest_scoreContracts before program)
    apply trickComplete_of_none
    dsimp only
    split
    · split
      · exact (scored _).trans taken
      · exact taken
    · exact taken
  · rw [if_neg complete]
    exact Bool.eq_false_of_not_eq_true complete

/-! ### Steps -/

theorem waiting_endTurn (matched : table.Matched) (waits : table.trickComplete = false)
    (leader : Int) : (table.endTurn leader).Waiting where
  matched := matched.of_contest (orderBlind_contest.endTurn table leader)
  waits := (orderBlind_trickComplete.endTurn table leader).trans waits
  unskipped := skips_endTurn table leader

theorem Waiting.completePhase (waiting : table.Waiting) (program : Program) (leader : Int) :
    (table.completePhase program leader).Waiting := by
  unfold Table.completePhase
  dsimp only
  split
  · exact waiting_endTurn (waiting.matched.of_contest rfl) waiting.waits leader
  · exact ⟨waiting.matched.of_contest rfl, waiting.waits, waiting.unskipped⟩

theorem Waiting.passIn (waiting : table.Waiting) (only : program.TricksAndBids) {index : Int}
    (found : program.phase? index = some phase) :
    table.passIn program phase = (nobody, table) := by
  unfold Table.passIn
  rw [waiting.matched.settleBattle program, ite_self]
  rcases only.phase_cases found with ⟨tricks, rfl⟩ | ⟨bids, rfl⟩
  · dsimp only
    unfold settleTrick
    rw [waiting.waits]
    rfl
  · rfl

theorem Waiting.afterPass (waiting : table.Waiting) (program : Program) (phase : Phase)
    (leader : Int) : (table.afterPass program phase leader).Waiting := by
  unfold Table.afterPass
  cases phase with
  | trick | betting | claim => exact waiting_endTurn waiting.matched waiting.waits leader
  | draw | play | discard | bidding => exact waiting.completePhase program leader

theorem Waiting.trickComplete_announce (waiting : table.Waiting) (seat value : Int) :
    (table.announce seat value).trickComplete = false := by
  have keeps : KeepsHands table (table.announce seat value) :=
    keepsHands_of_same table seat fun _ => rfl
  have trick : (table.announce seat value).trick = table.trick :=
    congrArg (·.2.1) (stakeBlind_contest.modifyPlayer table seat _)
  rw [trickComplete_eq_false_iff, trick]
  exact keeps.awaits (trickComplete_eq_false_iff.mp waiting.waits)

theorem Waiting.proceeds (waiting : table.Waiting) (only : program.TricksAndBids)
    (proceeds : Action.Proceeds program table phase sequenced) : sequenced.Waiting := by
  cases proceeds with
  | pass found =>
      rw [waiting.passIn only found]
      exact waiting.afterPass program phase nobody
  | @move choice leader moved found offered acts carries =>
      have off : phase.touchesTableau = false := by
        rcases only.phase_cases found with ⟨tricks, rfl⟩ | ⟨bids, rfl⟩ <;> rfl
      have aimed := (offered_of_mem_offers offered).location_ne_tableau off
      have matched := waiting.matched.carries found off aimed carries
      cases carries with
      | @trick _ place tricks card played _ _ contributed =>
          -- The effect has had its way by now, and the trick is looked at only after it.
          have entered : played.Matched := by
            rw [contributed]
            exact waiting.matched.contribution program table.active place.toNat card tricks
          exact waiting_endTurn matched (entered.trickComplete_settleTrick program tricks) _
      | bid => exact waiting_endTurn matched (waiting.trickComplete_announce _ _) nobody
      | pass => exact absurd rfl acts
      | draw other | play other | discard other | bet other | claim other | challenge other
      | accept other =>
          rcases only.phase_cases other with ⟨tricks, ⟨⟩⟩ | ⟨bids, ⟨⟩⟩

end Table

theorem Reached.waiting {program : Program} {seed : UInt64} {outcome : Outcome} {table : Table}
    (only : program.TricksAndBids) (reached : Reached program seed outcome table) :
    table.Waiting := by
  apply reached.run_induction (motive := Table.Waiting)
  · exact ⟨.opening program seed, Table.trickComplete_of_none rfl, rfl⟩
  · intro table sequenced phase _ proceeds waiting
    exact waiting.proceeds only proceeds
  · exact fun waiting => ⟨waiting.matched.of_contest rfl, waiting.waits, waiting.unskipped⟩
  · exact fun _ _ => ⟨.nextHand _ program, Table.trickComplete_of_none rfl, rfl⟩

/-! ### The way to whoever is missing -/

namespace Table

variable {table next : Table} {seat : Int} {program : Program} {outcome : Outcome} {phase : Phase}

/-- Everyone has bid, or no bid is asked for before the first trick. -/
def BidsSettled (table : Table) (program : Program) : Prop :=
  (∀ seat, table.HasSeat seat → table.hasBid seat = true) ∨ program.TrickBeforeBids

/-- How many turns have to end before it is the turn of a seat, with nobody passed over. -/
def turnsUntil (table : Table) (seat : Int) : Int :=
  let ahead := (seat - table.active) * table.direction
  if 0 ≤ ahead then ahead else ahead + table.seats

/-- How many actions there is room for before the turn of a seat is over, if everyone passes. -/
def actionsUntil (table : Table) (program : Program) (seat : Int) : Int :=
  table.turnsUntil seat * program.phases.length + (program.phases.length - table.phase)

theorem Orderly.turnsUntil_bounds (orderly : table.Orderly) (seated : table.HasSeat seat) :
    0 ≤ table.turnsUntil seat ∧ table.turnsUntil seat < table.seats := by
  obtain ⟨nonneg, below⟩ := orderly.active
  obtain ⟨first, last⟩ := seated
  unfold turnsUntil
  rcases orderly.direction with forward | back
  · rw [forward]
    dsimp only
    split <;> omega
  · rw [back]
    dsimp only
    split <;> omega

/-- The turn comes nearer to whoever is not active. -/
theorem Orderly.turnsUntil_nextSeat (orderly : table.Orderly) (seated : table.HasSeat seat)
    (later : table.active ≠ seat) :
    { table with active := table.nextSeat table.active }.turnsUntil seat =
      table.turnsUntil seat - 1 := by
  obtain ⟨nonneg, below⟩ := orderly.active
  obtain ⟨first, last⟩ := seated
  have follows := orderly.nextSeat_eq
  change (if 0 ≤ (seat - table.nextSeat table.active) * table.direction then
      (seat - table.nextSeat table.active) * table.direction
    else (seat - table.nextSeat table.active) * table.direction + table.seats) = _
  unfold turnsUntil
  dsimp only
  rcases orderly.direction with forward | back
  · rw [forward] at follows ⊢
    split_ifs at follows ⊢ <;> omega
  · rw [back] at follows ⊢
    split_ifs at follows ⊢ <;> omega

/-! ### Passes -/

theorem InTurn.mem_takeWhile_trick (inTurn : table.InTurn program)
    (found : program.phase? table.phase = some phase) (through : phase.endsTurn = false) :
    phase ∈ program.phases.takeWhile fun phase => phase.kind ≠ .trick := by
  have earlier := inTurn.mem_takeWhile found through
  have narrower : (fun phase : Phase => !phase.endsTurn) = fun phase : Phase =>
      decide ((!phase.endsTurn) = true ∧ decide (phase.kind ≠ .trick) = true) := by
    funext phase
    cases phase <;> rfl
  rw [narrower, ← List.takeWhile_takeWhile] at earlier
  exact List.takeWhile_subset _ earlier

theorem BidsSettled.hasBid {bids : BiddingPhase} (settled : table.BidsSettled program)
    (orderly : table.Orderly) (inTurn : table.InTurn program)
    (found : program.phase? table.phase = some (.bidding bids)) :
    table.hasBid table.active = true := by
  rcases settled with bid | early
  · exact bid table.active orderly.active
  · exact absurd rfl (early _ (inTurn.mem_takeWhile_trick found rfl))

/-- What is done instead of a contribution is a pass, for want of anything on offer. -/
theorem passes_of_act {action : Action} (only : program.TricksAndBids)
    (orderly : table.Orderly) (inTurn : table.InTurn program) (settled : table.BidsSettled program)
    (other : ∀ index place, action ≠ .move ⟨index, .trick place⟩)
    (legal : action.Legal program table) (acted : action.act program table = .ok outcome next) :
    table.moves program = [] ∧ Play.pass program table = .ok outcome next := by
  cases action with
  | pass => exact ⟨legal.1, acted⟩
  | move offered =>
      exfalso
      obtain ⟨phase, choice, found, rfl, listed⟩ := mem_moves_iff.mp legal
      rcases only.phase_cases found with ⟨tricks, rfl⟩ | ⟨bids, rfl⟩
      · change choice ∈ table.offerTrick table.active tricks at listed
        unfold offerTrick at listed
        dsimp only at listed
        split at listed
        · cases listed
        · obtain ⟨place, _, rfl, _⟩ := mem_offerCards listed
          exact other _ place rfl
      · change choice ∈ table.offerBids table.active bids at listed
        unfold offerBids at listed
        rw [if_pos (settled.hasBid orderly inTurn found)] at listed
        cases listed

/-- A turn that stands at a bid has yet to come to a trick. -/
theorem InTurn.inside_of_bidding {bids : BiddingPhase} (inTurn : table.InTurn program)
    (tricks : program.hasPhase .trick = true)
    (found : program.phase? table.phase = some (.bidding bids)) :
    table.phase + 1 < program.phases.length := by
  obtain ⟨phase, listed, trick⟩ := List.any_eq_true.mp tricks
  rw [decide_eq_true_eq] at trick
  obtain ⟨place, inside, rfl⟩ := List.mem_iff_getElem.mp listed
  have there := Program.phase?_natCast inside
  have after : ¬(place : Int) < table.phase := by
    intro before
    have through := inTurn.through place _ before there
    rw [Phase.endsTurn_of_trick trick] at through
    cases through
  have apart : (place : Int) ≠ table.phase := by
    intro same
    rw [same, found] at there
    rw [← Option.some.inj there] at trick
    cases trick
  omega

/-- A pass leads to the next phase or, in a trick, to the next seat. -/
theorem Waiting.pass_cases (waiting : table.Waiting) (only : program.TricksAndBids)
    (tricks : program.hasPhase .trick = true) (inTurn : table.InTurn program)
    (going : table.handOver = false)
    (passed : Play.pass program table = .ok outcome next) :
    (table.phase + 1 < program.phases.length ∧
        next = { table with
          phase := table.phase + 1
          step := 0
          actions := table.actions + 1 }) ∨
      ((∃ tricks, program.phase? table.phase = some (.trick tricks)) ∧
        next = { table with
          phase := 0
          step := 0
          turn := table.turn + 1
          active := table.nextSeat table.active
          skips := 0
          actions := table.actions + 1 }) := by
  obtain ⟨phase, found, finished⟩ := Play.pass_eq_ok_iff.mp passed
  rw [waiting.passIn only found] at finished
  have last : next = ((table.afterPass program phase nobody).finishAction program).2 :=
    (congrArg Prod.snd finished).symm
  have blind : OrderBlind Table.handOver := fun _ _ _ _ _ _ => rfl
  have still := (blind.afterPass table program phase nobody).trans going
  rcases (table.afterPass program phase nobody).finishAction_cases program with
    ⟨_, ended, _⟩ | ⟨_, counted⟩
  · rw [still] at ended
    cases ended
  · rw [counted] at last
    rcases only.phase_cases found with ⟨trick, rfl⟩ | ⟨bids, rfl⟩
    · right
      have ended : table.afterPass program (.trick trick) nobody = _ :=
        endTurn_nobody waiting.unskipped
      rw [ended] at last
      exact ⟨⟨trick, found⟩, last⟩
    · left
      have inside := inTurn.inside_of_bidding tricks found
      have onward : table.afterPass program (.bidding bids) nobody =
          { table with phase := table.phase + 1, step := 0 } :=
        if_neg (Int.not_le.mpr inside)
      rw [onward] at last
      exact ⟨inside, last⟩

/-- A seat that has yet to contribute to the trick, with no bids in the way. -/
structure Owes (table : Table) (program : Program) (seat : Int) : Prop where
  missing : table.Missing table.trick seat
  bids : table.BidsSettled program

/-- As long as anybody holds cards, somebody has yet to contribute. -/
theorem Waiting.exists_missing (waiting : table.Waiting) (holding : table.handsEmpty = false) :
    ∃ seat, table.Missing table.trick seat := by
  by_cases begun : table.trick = []
  · obtain ⟨player, listed, holds⟩ := List.all_eq_false.mp holding
    obtain ⟨place, inside, rfl⟩ := List.mem_iff_getElem.mp listed
    refine ⟨place, ⟨Int.natCast_nonneg place, Int.ofNat_lt.mpr inside⟩, ?_, ?_⟩
    · rw [begun]
      exact List.not_mem_nil
    · unfold hand
      rw [player_natCast inside]
      exact fun empty => holds (List.isEmpty_iff.mpr empty)
  · exact trickComplete_eq_false_iff.mp waiting.waits begun

theorem Owes.moves_ne_nil {tricks : TrickPhase} (owes : table.Owes program table.active)
    (found : program.phase? table.phase = some (.trick tricks)) : table.moves program ≠ [] := by
  obtain ⟨_, absent, holds⟩ := owes.missing
  have fresh : table.trick.contains table.active = false := by
    rw [← Bool.not_eq_true, List.contains_iff_mem]
    exact absent
  unfold moves movesFor
  rw [found]
  intro none
  exact offerTrick_ne_nil holds fresh (List.map_eq_nil_iff.mp none)

theorem Orderly.actionsUntil_pos (orderly : table.Orderly) (inTurn : table.InTurn program)
    (seated : table.HasSeat seat) : 0 < table.actionsUntil program seat := by
  have turns := (orderly.turnsUntil_bounds seated).1
  have whole := Int.mul_nonneg turns (Int.natCast_nonneg program.phases.length)
  have inside := inTurn.inside.2
  unfold actionsUntil
  omega

theorem Orderly.actionsUntil_le (orderly : table.Orderly) (inTurn : table.InTurn program)
    (seated : table.HasSeat seat) :
    table.actionsUntil program seat ≤ table.seats * program.phases.length := by
  have turns := (orderly.turnsUntil_bounds seated).2
  have whole := Int.mul_le_mul_of_nonneg_right (Int.add_one_le_of_lt turns)
    (Int.natCast_nonneg program.phases.length)
  rw [Int.add_mul, Int.one_mul] at whole
  have begun := inTurn.inside.1
  unfold actionsUntil
  omega

/-- A pass brings the turn nearer to whoever owes a contribution, who still owes it. -/
theorem Owes.pass (owes : table.Owes program seat) (waiting : table.Waiting)
    (only : program.TricksAndBids) (tricks : program.hasPhase .trick = true)
    (orderly : table.Orderly) (inTurn : table.InTurn program) (going : table.handOver = false)
    (idle : table.moves program = []) (passed : Play.pass program table = .ok outcome next) :
    next.Owes program seat ∧
      next.actionsUntil program seat < table.actionsUntil program seat := by
  -- Either kind of pass leaves the hands, the trick and the bids alone.
  rcases waiting.pass_cases only tricks inTurn going passed with
    ⟨_, rfl⟩ | ⟨⟨tricks, found⟩, rfl⟩
  · refine ⟨⟨owes.missing, owes.bids⟩, ?_⟩
    change table.turnsUntil seat * program.phases.length +
      (program.phases.length - (table.phase + 1)) < _
    unfold actionsUntil
    omega
  · refine ⟨⟨owes.missing, owes.bids⟩, ?_⟩
    have later : table.active ≠ seat := by
      rintro rfl
      exact owes.moves_ne_nil found idle
    have nearer := orderly.turnsUntil_nextSeat owes.missing.1 later
    change { table with active := table.nextSeat table.active }.turnsUntil seat *
      (program.phases.length : Int) + (program.phases.length - 0) < _
    rw [nearer, Int.sub_mul, Int.one_mul]
    have inside := inTurn.inside.2
    unfold actionsUntil
    omega

end Table

/-! ### Continuations -/

/-- Legal actions that are carried out one after another, as long as nobody has won. -/
inductive Continues (program : Program) : Table → List Action → Prop where
  | nil {table : Table} : Continues program table []
  | cons {table next : Table} {outcome : Outcome} {action : Action} {later : List Action}
      (legal : action.Legal program table) (acted : action.act program table = .ok outcome next)
      (going : later ≠ [] → outcome = .open) (continues : Continues program next later) :
      Continues program table (action :: later)

namespace Reached

variable {program : Program} {seed : UInt64} {table : Table}

/-- As long as nobody contributes to the trick, the turn comes nearer to a seat that owes a
contribution with every action. -/
theorem length_lt_actionsUntil {seat : Int} {actions : List Action} (inRange : program.InRange)
    (only : program.TricksAndBids) (tricks : program.hasPhase .trick = true)
    (reached : Reached program seed .open table) (owes : table.Owes program seat)
    (continues : Continues program table actions)
    (none : ∀ index place, .move ⟨index, .trick place⟩ ∉ actions) :
    actions.length < table.actionsUntil program seat := by
  induction continues with
  | nil =>
      exact (reached.orderly inRange).actionsUntil_pos (reached.inTurn inRange) owes.missing.1
  | @cons table next outcome action later legal acted going continues ih =>
      have orderly := reached.orderly inRange
      have inTurn := reached.inTurn inRange
      have other : ∀ index place, action ≠ .move ⟨index, .trick place⟩ := by
        rintro index place rfl
        exact none index place List.mem_cons_self
      obtain ⟨idle, passed⟩ :=
        Table.passes_of_act only orderly inTurn owes.bids other legal acted
      obtain ⟨still, nearer⟩ := owes.pass (reached.waiting only) only tricks orderly inTurn
        reached.handOver_of_open idle passed
      have following := Reached.step reached legal acted
      rw [List.length_cons]
      -- The last action may decide the game, and then the hypothesis says nothing about it.
      by_cases last : later = []
      · have left := (following.orderly inRange).actionsUntil_pos (following.inTurn inRange)
          still.missing.1
        rw [last, List.length_nil]
        omega
      · cases going last
        have rest := ih following still fun index place listed =>
          none index place (List.mem_cons_of_mem action listed)
        omega

/-- In every state of a legal run of a program that was read and whose turns consist of tricks and
bids, no complete trick is left lying as long as nobody has won. If there is a trick in the turn,
if anybody holds cards, and if everyone has bid or no bid is asked for before the first trick, then
among as many legal actions as all participants together have phases somebody contributes to a
trick. -/
theorem tricks_complete {bytes : List UInt8} (accepted : Program.decode bytes = .ok program)
    (only : program.TricksAndBids) (reached : Reached program seed .open table) :
    table.trickComplete = false ∧
      (program.hasPhase .trick = true → table.handsEmpty = false → table.BidsSettled program →
        ∀ actions, Continues program table actions →
          program.header.participants * program.phases.length ≤ actions.length →
            ∃ index place, .move ⟨index, .trick place⟩ ∈ actions) := by
  have inRange := Program.inRange_of_decode accepted
  have waiting := reached.waiting only
  refine ⟨waiting.waits, ?_⟩
  intro tricks holding settled actions continues long
  obtain ⟨seat, missing⟩ := waiting.exists_missing holding
  by_contra none
  push Not at none
  have short := reached.length_lt_actionsUntil inRange only tricks ⟨missing, settled⟩ continues none
  have bound := (reached.orderly inRange).actionsUntil_le (reached.inTurn inRange) missing.1
  rw [reached.seats_eq inRange] at bound
  omega

end Reached

/-- A game for two in which a turn is to bid and to contribute a card to a trick. -/
def bidThenTrick : Program :=
  shortGame [.bidding {}, .trick { followSuit := false }]

/-- Its table after both have bid, with the cards that were contributed since. -/
def bidTable (deck : List Card) (generator : Generator) (own others laid : List Card) : Table :=
  { Table.seated bidThenTrick 7 with
    players := [{ hand := own, bid := 1 }, { hand := others, bid := 1 }]
    deck := deck
    generator := generator
    tableau := [laid]
    trick := laid.map fun _ => 0
    active := laid.length
    turn := 2 + laid.length
    actions := 2 + 2 * laid.length }

theorem Reached.tricks_complete_bidThenTrick :
    Program.decode bidThenTrick.encode = .ok bidThenTrick ∧ bidThenTrick.TricksAndBids ∧
      bidThenTrick.hasPhase .trick = true ∧ ∃ table actions, Reached bidThenTrick 7 .open table ∧
        table.handsEmpty = false ∧ table.BidsSettled bidThenTrick ∧
        Continues bidThenTrick table actions ∧
        bidThenTrick.header.participants * bidThenTrick.phases.length ≤ actions.length ∧
        table.trickComplete = false ∧ ∃ index place, .move ⟨index, .trick place⟩ ∈ actions := by
  have accepted : Program.decode bidThenTrick.encode = .ok bidThenTrick := by decide +kernel
  have only : bidThenTrick.TricksAndBids := by decide
  have start := Table.start_of_decode accepted 7 {}
  obtain ⟨first, second, third, fourth, deck, generator, dealt⟩ :=
    Table.exists_opening_shortGame [.bidding {}, .trick { followSuit := false }] 7
  unfold bidThenTrick at start
  rw [dealt] at start
  have bid := @Reached.step _ _ _ _ .open (.move ⟨0, .bid 1⟩) (.start start)
    (List.mem_of_getElem? (i := 0) rfl) rfl
  have both : Reached bidThenTrick 7 .open
      (bidTable deck generator [first, third] [second, fourth] []) :=
    @Reached.step _ _ _ _ .open (.move ⟨0, .bid 1⟩) bid
      (List.mem_of_getElem? (i := 0) (by with_unfolding_all rfl)) (by with_unfolding_all rfl)
  have settled : (bidTable deck generator [first, third] [second, fourth] []).BidsSettled
      bidThenTrick := by
    refine .inl fun seat ⟨nonneg, below⟩ => ?_
    change seat < 2 at below
    rcases (by omega : seat = 0 ∨ seat = 1) with rfl | rfl <;> rfl
  have continues : Continues bidThenTrick
      (bidTable deck generator [first, third] [second, fourth] [])
      [.pass, .move ⟨1, .trick 0⟩, .pass, .move ⟨1, .trick 0⟩] := by
    have led : Action.act bidThenTrick (.move ⟨1, .trick 0⟩)
        { bidTable deck generator [first, third] [second, fourth] [] with
          phase := 1, actions := 3 } =
          .ok .open (bidTable deck generator [third] [second, fourth] [first]) := by
      with_unfolding_all rfl
    have followed : (⟨1, .trick 0⟩ : Move) ∈
        { bidTable deck generator [third] [second, fourth] [first] with
          phase := 1, actions := 5 }.moves bidThenTrick :=
      List.mem_of_getElem? (i := 0) rfl
    obtain ⟨outcome, next, completed⟩ := Table.exists_perform_of_mem_moves followed
    refine .cons ⟨rfl, rfl⟩ (by with_unfolding_all rfl) (fun _ => rfl) ?_
    refine .cons (List.mem_of_getElem? (i := 0) rfl) led (fun _ => rfl) ?_
    refine .cons ⟨rfl, rfl⟩ (by with_unfolding_all rfl) (fun _ => rfl) ?_
    exact .cons followed completed nofun .nil
  obtain ⟨waits, contributed⟩ := tricks_complete accepted only both
  exact ⟨accepted, only, rfl, _, _, both, rfl, settled, continues, Int.le_refl 4, waits,
    contributed rfl rfl settled _ continues (Int.le_refl 4)⟩

end Croupier
