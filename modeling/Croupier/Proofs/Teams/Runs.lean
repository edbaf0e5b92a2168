/-
Games with teams of one, from the first deal on.

The first deal leaves two tables that are alike, and an action that can be carried out at one of
them can be carried out at the other, leaves them alike again, and makes the same of the game. So
any actions make the same of both games, and the same moves are on offer all along.
-/

import Croupier.Proofs.Play.Run
import Croupier.Proofs.Teams.Solo

namespace Croupier

namespace Table

variable {table other next : Table} {program : Program}

/-! ### Tricks and passes -/

theorem Alike.takeTrick (alike : Alike program table other) (orderly : table.Orderly)
    (phase : TrickPhase) :
    (other.takeTrick program.teamsOfOne phase).1 = (table.takeTrick program phase).1 ∧
      Alike program (table.takeTrick program phase).2
        (other.takeTrick program.teamsOfOne phase).2 := by
  have seats := (absorbs_takeTrick program orderly phase).1.seats
  have taken := alike.change (fun table => (table.takeTrick program phase).2)
    (fun _ _ => congrArg Prod.snd takeTrick_guised) seats
  refine ⟨?_, taken⟩
  obtain ⟨_, _, scores, rfl⟩ := alike
  exact (Prod.ext_iff.mp (@takeTrick_guised (table.soloGuise scores) table program phase)).1

theorem Alike.settleTrick (single : program.header.teamMode = false)
    (alike : Alike program table other) (orderly : table.Orderly) (phase : TrickPhase) :
    (other.settleTrick program.teamsOfOne phase).1 = (table.settleTrick program phase).1 ∧
      Alike program (table.settleTrick program phase).2
        (other.settleTrick program.teamsOfOne phase).2 := by
  have complete : other.trickComplete = table.trickComplete := by
    obtain ⟨_, _, scores, rfl⟩ := alike
    exact trickComplete_guised
  obtain ⟨leader, taken⟩ := alike.takeTrick orderly phase
  have emptied : (other.takeTrick program.teamsOfOne phase).2.handsEmpty =
      (table.takeTrick program phase).2.handsEmpty := by
    obtain ⟨_, _, scores, same⟩ := taken
    rw [same]
    exact handsEmpty_guised
  have declares {table other : Table} (alike : Alike program table other) :
      Alike program { table with handOver := true } { other with handOver := true } :=
    alike.change (fun table => { table with handOver := true }) (fun _ _ => rfl) rfl
  have bidding : program.teamsOfOne.hasPhase .bidding = program.hasPhase .bidding := rfl
  unfold Table.settleTrick
  rw [complete]
  split
  · dsimp only
    rw [emptied, bidding]
    split
    · refine ⟨leader, declares ?_⟩
      by_cases bids : program.hasPhase .bidding = true
      · rw [if_pos bids, if_pos bids]
        exact taken.scoreContracts single
      · rw [if_neg bids, if_neg bids]
        exact taken
    · exact ⟨leader, taken⟩
  · exact ⟨rfl, alike⟩

theorem Alike.settleBattle (alike : Alike program table other) (orderly : table.Orderly) :
    Alike program (table.settleBattle program) (other.settleBattle program) :=
  alike.change (Table.settleBattle · program) (fun _ _ => settleBattle_guised)
    (absorbs_settleBattle program orderly).seats

theorem Alike.settleBetting (alike : Alike program table other) :
    Alike program (table.settleBetting program) (other.settleBetting program) :=
  alike.change (Table.settleBetting · program) (fun _ _ => settleBetting_guised)
    (congrArg Frame.seats (rearranges_settleBetting table program).frame)

theorem Alike.passIn (single : program.header.teamMode = false)
    (alike : Alike program table other) (orderly : table.Orderly) (phase : Phase) :
    (other.passIn program.teamsOfOne phase).1 = (table.passIn program phase).1 ∧
      Alike program (table.passIn program phase).2
        (other.passIn program.teamsOfOne phase).2 := by
  -- In a war, a battle is settled before anything else.
  have tidy : (if program.header.tableauMode = .war then table.settleBattle program
      else table).Orderly := by
    split
    · exact (absorbs_settleBattle program orderly).orderly
    · exact orderly
  have fought : Alike program
      (if program.header.tableauMode = .war then table.settleBattle program else table)
      (if program.header.tableauMode = .war then other.settleBattle program else other) := by
    split
    · exact alike.settleBattle orderly
    · exact alike
  unfold Table.passIn
  cases phase with
  | trick phase => exact fought.settleTrick single tidy phase
  | betting phase => exact ⟨rfl, fought.settleBetting⟩
  | draw | play | discard | claim | bidding => exact ⟨rfl, fought⟩

/-! ### Actions -/

variable {seat leader index : Int} {choice : Choice}

/-- A move can be carried out at both tables or at none, and leaves them alike. -/
theorem Alike.carries (single : program.header.teamMode = false)
    (alike : Alike program table other) (orderly : table.Orderly) (seated : table.HasSeat seat)
    (acts : choice ≠ .pass)
    (carries : Play.Carries program seat table ⟨index, choice⟩ leader next) :
    ∃ after, Play.Carries program.teamsOfOne seat other ⟨index, choice⟩ leader after ∧
      Alike program next after := by
  have seats := (absorbs_of_carries orderly seated carries).1.seats
  have holds {place : Int} {card : Card} (held : table.HasCard seat place card) :
      other.HasCard seat place card := by
    obtain ⟨_, _, scores, rfl⟩ := alike
    unfold HasCard
    rw [hand_guised]
    exact held
  cases carries with
  | @draw _ _ phase found =>
      exact ⟨_, .draw found, alike.change (·.draw seat phase.source phase.count)
        (fun _ _ => draw_guised) seats⟩
  | @play _ place target _ card found held =>
      refine ⟨_, .play found (holds held), alike.change (fun table =>
        ((table.without seat place.toNat).playCard program seat card target).triggerEffect program
          seat card) (fun _ _ => played_guised) seats⟩
  | @discard _ place target _ card found held =>
      refine ⟨_, .discard found (holds held), alike.change (fun table =>
        (table.without seat place.toNat).place seat target card)
          (fun _ _ => discarded_guised) seats⟩
  | @trick _ place phase card _ found held contributed =>
      subst contributed
      have lifted : (table.without seat place.toNat).Orderly := orderly.without
      have laid := absorbs_contribute lifted seated.without card phase
      have triggered := absorbs_triggerEffect program laid.orderly
        (seated.without.of_seats laid.seats) card
      have whole := (laid.trans triggered).returned seated held.2
      have played := alike.change (fun table =>
        ((table.without seat place.toNat).contribute seat card phase).triggerEffect program seat
          card) (fun _ _ => contributed_guised) whole.seats
      obtain ⟨leads, settled⟩ := played.settleTrick single whole.orderly phase
      exact ⟨_, leads ▸ .trick found (holds held) rfl, settled⟩
  | @bet _ action phase wagered found known =>
      have same : (table.wager? seat phase action).getD table = wagered := by
        rw [known]
        rfl
      have also : ∃ after, other.wager? seat phase action = some after := by
        obtain ⟨_, _, scores, rfl⟩ := alike
        rw [wager?_guised, known]
        exact ⟨_, rfl⟩
      obtain ⟨after, also⟩ := also
      have wagered := alike.change (fun table => (table.wager? seat phase action).getD table)
        (fun _ _ => wagered_guised) (by
          rw [same]
          exact congrArg Frame.seats (rearranges_wager known).frame)
      rw [known, also] at wagered
      exact ⟨_, .bet found also, wagered.settleBetting⟩
  | @claim _ place phase card found held =>
      refine ⟨_, .claim found (holds held), alike.change (fun table =>
        (table.without seat place.toNat).layClaim seat card phase)
          (fun _ _ => claimed_guised) seats⟩
  | challenge found pending =>
      have asked : other.claim.pending = true := by
        obtain ⟨_, _, scores, rfl⟩ := alike
        exact pending
      exact ⟨_, .challenge found asked, alike.change (·.challengeClaim seat)
        (fun _ _ => challengeClaim_guised) seats⟩
  | accept found => exact ⟨_, .accept found, alike.change closeClaim (fun _ _ => rfl) seats⟩
  | @bid _ value _ found =>
      exact ⟨_, .bid found, alike.change (·.announce seat value) (fun _ _ => announce_guised) seats⟩
  | pass => exact absurd rfl acts

theorem Alike.moves (alike : Alike program table other) :
    other.moves program.teamsOfOne = table.moves program := by
  obtain ⟨_, _, scores, rfl⟩ := alike
  exact moves_guised

theorem Alike.canPass (alike : Alike program table other) :
    other.canPass program.teamsOfOne = table.canPass program := by
  obtain ⟨_, _, scores, rfl⟩ := alike
  exact canPass_guised

theorem Alike.afterMove (alike : Alike program table other) (orderly : table.Orderly)
    (leads : table.HasLeader leader) (choice : Choice) :
    Alike program (table.afterMove program choice leader)
      (other.afterMove program.teamsOfOne choice leader) :=
  alike.change (Table.afterMove · program choice leader) (fun _ _ => afterMove_guised)
    (absorbs_afterMove program orderly leads choice).seats

theorem Alike.afterPass (alike : Alike program table other) (orderly : table.Orderly)
    (leads : table.HasLeader leader) (phase : Phase) :
    Alike program (table.afterPass program phase leader)
      (other.afterPass program.teamsOfOne phase leader) :=
  alike.change (Table.afterPass · program phase leader) (fun _ _ => afterPass_guised)
    (absorbs_afterPass program orderly leads phase).seats

variable {outcome : Outcome}

theorem Alike.finishAction (single : program.header.teamMode = false)
    (alike : Alike program table other) (orderly : table.Orderly)
    (finished : table.finishAction program = (outcome, next)) :
    ∃ after, other.finishAction program.teamsOfOne = (outcome, after) ∧
      Alike program next after := by
  have counted := alike.change (fun table => { table with actions := table.actions + 1 })
    (fun _ _ => rfl) rfl
  have stands := counted.outcome single
  have ends : other.handOver = table.handOver := by
    obtain ⟨_, _, scores, rfl⟩ := alike
    rfl
  have tidy : { table with actions := table.actions + 1 }.Orderly := orderly.of_frame rfl
  have dealt := counted.change (Table.nextHand · program) (fun _ _ => nextHand_guised)
    (absorbs_nextHand program tidy).seats
  unfold Table.finishAction at finished ⊢
  dsimp only at finished ⊢
  by_cases deals : { table with actions := table.actions + 1 }.outcome program = .open ∧
      table.handOver = true
  · rw [if_pos deals] at finished
    obtain ⟨rfl, rfl⟩ := Prod.mk.inj finished
    rw [if_pos ⟨stands.trans deals.1, ends.trans deals.2⟩, stands]
    exact ⟨_, rfl, dealt⟩
  · rw [if_neg deals] at finished
    obtain ⟨rfl, rfl⟩ := Prod.mk.inj finished
    rw [if_neg fun also => deals ⟨stands.symm.trans also.1, ends.symm.trans also.2⟩, stands]
    exact ⟨_, rfl, counted⟩

theorem Alike.act {action : Action} (single : program.header.teamMode = false)
    (alike : Alike program table other) (orderly : table.Orderly)
    (acted : action.act program table = .ok outcome next) :
    ∃ after, action.act program.teamsOfOne other = .ok outcome after ∧
      Alike program next after := by
  have phase : other.phase = table.phase := by
    obtain ⟨_, _, scores, rfl⟩ := alike
    rfl
  have active : other.active = table.active := by
    obtain ⟨_, _, scores, rfl⟩ := alike
    rfl
  have passes (passed : Play.pass program table = .ok outcome next) :
      ∃ after, Play.pass program.teamsOfOne other = .ok outcome after ∧
        Alike program next after := by
    obtain ⟨current, found, finished⟩ := Play.pass_eq_ok_iff.mp passed
    obtain ⟨settled, leads⟩ := absorbs_passIn program orderly current
    obtain ⟨leader, passedIn⟩ := alike.passIn single orderly current
    have sequenced := passedIn.afterPass settled.orderly leads current
    rw [← leader] at sequenced
    obtain ⟨after, also, done⟩ := sequenced.finishAction single
      (leader ▸ absorbs_afterPass program settled.orderly leads current).orderly
      (leader ▸ finished)
    exact ⟨after, Play.pass_eq_ok_iff.mpr ⟨current, phase ▸ found, also⟩, done⟩
  cases action with
  | pass => exact passes acted
  | move offered =>
      obtain ⟨index, choice⟩ := offered
      by_cases passing : choice = .pass
      · subst passing
        obtain ⟨here, passed⟩ := Play.perform_pass_eq_ok_iff.mp acted
        obtain ⟨after, also, done⟩ := passes passed
        exact ⟨after, Play.perform_pass_eq_ok_iff.mpr ⟨phase ▸ here, also⟩, done⟩
      · obtain ⟨here, leader, moved, carries, finished⟩ := (Play.perform_eq_ok_iff passing).mp acted
        obtain ⟨settled, leads⟩ := absorbs_of_carries orderly orderly.active carries
        obtain ⟨after, also, carried⟩ :=
          alike.carries single orderly orderly.active passing carries
        have sequenced := carried.afterMove settled.orderly leads choice
        obtain ⟨last, ends, done⟩ := sequenced.finishAction single
          (absorbs_afterMove program settled.orderly leads choice).orderly finished
        refine ⟨last, (Play.perform_eq_ok_iff passing).mpr
          ⟨phase ▸ here, leader, after, ?_, ends⟩, done⟩
        rw [active]
        exact also

end Table

/-! ### The first deal -/

theorem Program.seatTeams_teamsOfOne (program : Program) :
    program.teamsOfOne.seatTeams =
      (List.range program.header.participants.toNat).map fun (seat : Nat) => (seat : Int) := by
  have numbered : program.teamsOfOne.teams.zipIdx =
      (List.range program.header.participants.toNat).map
        fun (seat : Nat) => ([(seat : Int)], seat) := by
    unfold Program.teamsOfOne
    apply List.ext_getElem <;> simp
  -- The teams that were entered come before the seats without one.
  have entered (count : Nat) : ∀ rest : Nat,
      ((List.range count).map fun (seat : Nat) => ([(seat : Int)], seat)).foldl enterTeam
          (List.replicate (count + rest) nobody) =
        ((List.range count).map fun (seat : Nat) => (seat : Int)) ++
          List.replicate rest nobody := by
    induction count with
    | zero =>
        intro rest
        rw [Nat.zero_add]
        rfl
    | succ count ih =>
        intro rest
        have single (seats : List Int) : enterTeam seats ([(count : Int)], count) =
            seats.set count count := rfl
        rw [List.range_succ, List.map_append, List.foldl_append, Nat.succ_add_eq_add_succ, ih,
          List.map_singleton, List.foldl_cons, List.foldl_nil, single,
          List.set_append_right _ _ (by simp), List.map_append]
        simp [List.replicate_succ]
  have whole := entered program.header.participants.toNat 0
  rw [← numbered, Nat.add_zero, List.replicate_zero, List.append_nil] at whole
  exact whole

namespace Table

variable {program : Program}

theorem alike_seated (single : program.header.teamMode = false) (seed : UInt64) :
    Alike program (seated program seed) (seated program.teamsOfOne seed) := by
  have teamless : program.seatTeams =
      List.replicate program.header.participants.toNat nobody := by
    unfold Program.seatTeams
    rw [single]
    rfl
  have seats := seats_seated program seed
  have players : (seated program.teamsOfOne seed).players =
      (seated program seed).players.mapIdx
        ((seated program seed).soloGuise fun _ => 0).player := by
    unfold seated setUp
    dsimp only
    rw [Program.seatTeams_teamsOfOne, teamless]
    apply List.ext_getElem
    · simp
    · intro place _ _
      simp [seatedPlayer, soloGuise, Guise.player, Program.teamsOfOne]
  have count : program.teamsOfOne.teamCount = program.header.participants.toNat := by
    simp [Program.teamCount, Program.teamsOfOne]
  have teamScores : (seated program.teamsOfOne seed).teamScores =
      ((seated program seed).soloGuise fun _ => 0).teamScores := by
    unfold seated setUp soloGuise
    rw [count, ← seats]
    simp [seated, setUp, Table.seats]
  have teamBags : (seated program.teamsOfOne seed).teamBags =
      ((seated program seed).soloGuise fun _ => 0).teamBags := by
    unfold seated setUp soloGuise
    rw [count, teamless]
    simp [seatedPlayer]
  refine ⟨seats, ?_, fun _ => 0, ?_⟩
  · rw [seats]
    unfold seated setUp
    dsimp only
    rw [teamless, List.map_replicate, List.map_replicate]
    rfl
  · unfold guised
    rw [← players, ← teamScores, ← teamBags]
    rfl

theorem alike_opening (single : program.header.teamMode = false) (seed : UInt64) :
    Alike program (opening program seed) (opening program.teamsOfOne seed) := by
  have dealt (table : Table) (guise : Guise) :
      ((table.guised guise).shuffleDeck).deal program =
        ((table.shuffleDeck).deal program).guised guise :=
    @deal_guised guise table.shuffleDeck program
  have seats : (opening program seed).seats = (seated program seed).seats :=
    (seats_opening program seed).trans (seats_seated program seed).symm
  exact (alike_seated single seed).change (fun table => table.shuffleDeck.deal program) dealt seats

end Table

/-! ### Runs -/

/-- One table of a game without teams, the other of the game in which every participant is a team.
They differ in the teams of the participants, and in who has the points of contracts and the
bags. -/
structure TeamedUp (table other : Table) : Prop where
  rest : other = { table with
    players := other.players
    teamScores := other.teamScores
    teamBags := other.teamBags }
  seats : other.players.length = table.players.length
  teams : other.teamScores.length = table.players.length ∧
    other.teamBags.length = table.players.length
  each : ∀ (seat : Nat) (player : Player), table.players[seat]? = some player →
    player.team = nobody ∧
      ∃ member points, other.players[seat]? = some member ∧
        other.teamScores[seat]? = some points ∧ other.teamBags[seat]? = some player.bags ∧
        player.score = member.score + points ∧
        member = { player with score := member.score, bags := 0, team := seat }

theorem Table.Alike.teamedUp {program : Program} {table other : Table}
    (alike : Table.Alike program table other) : TeamedUp table other := by
  obtain ⟨_, teamless, scores, rfl⟩ := alike
  refine ⟨rfl, List.length_mapIdx, ⟨?_, ?_⟩, ?_⟩
  · simp [Table.guised, Table.soloGuise, Table.seats]
  · simp [Table.guised, Table.soloGuise]
  · intro seat player there
    obtain ⟨taken, same⟩ := List.getElem?_eq_some_iff.mp there
    have team : (table.players.map Player.team)[seat]? = some player.team := by
      rw [List.getElem?_map, there]
      rfl
    have inSeats : seat < table.seats := taken
    rw [teamless, List.getElem?_replicate_of_lt inSeats] at team
    refine ⟨(Option.some.inj team).symm, (table.soloGuise scores).player seat player, scores seat,
      ?_, ?_, ?_, ?_, rfl⟩
    · unfold Table.guised
      dsimp only
      rw [List.getElem?_mapIdx, there]
      rfl
    · simp [Table.guised, Table.soloGuise, Table.seats, taken]
    · simp [Table.guised, Table.soloGuise, there]
    · simp [Table.soloGuise, Guise.player]

namespace Action

variable {program : Program} {table other last before previous : Table} {outcomes : List Outcome}
  {seed : UInt64} {action : Action}

/-- Takes the actions one by one and tells how the game stands after each. -/
def takeAll (program : Program) (actions : List Action) : Play (List Outcome) :=
  actions.mapM (act program)

/-- Starts a game and takes the actions. -/
def playOut (program : Program) (seed : UInt64) (actions : List Action) :
    Play (List Outcome) := do
  Table.start program seed
  takeAll program actions

theorem takeAll_cons_eq_ok_iff {actions : List Action} :
    takeAll program (action :: actions) table = .ok outcomes last ↔
      ∃ outcome next later, action.act program table = .ok outcome next ∧
        takeAll program actions next = .ok later last ∧ outcomes = outcome :: later := by
  unfold takeAll
  rw [List.mapM_cons]
  simp only [Play.bind_eq_ok_iff]
  constructor
  · rintro ⟨outcome, next, acted, later, after, taken, ⟨⟩⟩
    exact ⟨outcome, next, later, acted, taken, rfl⟩
  · rintro ⟨outcome, next, later, acted, taken, rfl⟩
    exact ⟨outcome, next, acted, later, last, taken, rfl⟩

theorem takeAll_cons {actions : List Action} {outcome : Outcome} {next : Table}
    (acted : action.act program table = .ok outcome next)
    (taken : takeAll program actions next = .ok outcomes last) :
    takeAll program (action :: actions) table = .ok (outcome :: outcomes) last :=
  takeAll_cons_eq_ok_iff.mpr ⟨outcome, next, outcomes, acted, taken, rfl⟩

theorem orderly_takeAll {actions : List Action} (orderly : table.Orderly)
    (taken : takeAll program actions table = .ok outcomes last) : last.Orderly := by
  induction actions generalizing table outcomes with
  | nil =>
      cases taken
      exact orderly
  | cons action actions ih =>
      obtain ⟨_, next, _, acted, rest, _⟩ := takeAll_cons_eq_ok_iff.mp taken
      exact ih (absorbs_act orderly acted).orderly rest

theorem takeAll_teamsOfOne {actions : List Action} (single : program.header.teamMode = false)
    (alike : Table.Alike program table other) (orderly : table.Orderly)
    (taken : takeAll program actions table = .ok outcomes last) :
    ∃ after, takeAll program.teamsOfOne actions other = .ok outcomes after ∧
      Table.Alike program last after := by
  induction actions generalizing table other outcomes with
  | nil =>
      cases taken
      exact ⟨other, rfl, alike⟩
  | cons action actions ih =>
      obtain ⟨outcome, next, later, acted, rest, rfl⟩ := takeAll_cons_eq_ok_iff.mp taken
      obtain ⟨after, also, kept⟩ := alike.act single orderly acted
      obtain ⟨final, remainder, done⟩ := ih kept (absorbs_act orderly acted).orderly rest
      exact ⟨final, takeAll_cons also remainder, done⟩

theorem exists_act (legal : Legal program table action) :
    ∃ outcome next, act program action table = .ok outcome next := by
  cases action with
  | move offered => exact Table.exists_perform_of_mem_moves legal
  | pass => exact Table.exists_pass_of_canPass legal.2

end Action

/-! ### A hand with contracts -/

/-- A game for two in which each bids on the one trick of a hand. -/
def contractGame : Program where
  setup := { cardsPerParticipant := 1 }
  phases := [.bidding {}, .trick {}]

/-- Its table in the first hand: what the first participant still holds, the bids, and the cards
led to the trick. -/
def contractTable (seed : UInt64) (deck : List Card) (generator : Generator) (second : Card)
    (hand : List Card) (bids : Int × Int) (led : List Card) (turn actions active phase : Int) :
    Table :=
  { Table.seated contractGame seed with
    players := [{ hand := hand, bid := bids.1 }, { hand := [second], bid := bids.2 }]
    deck, generator
    tableau := [led]
    trick := (List.range led.length).map Int.ofNat
    turn, actions, active, phase }

theorem exists_opening_contractGame (seed : UInt64) :
    ∃ first second deck generator, Table.opening contractGame seed =
      contractTable seed deck generator second [first] (-1, -1) [] 0 0 0 0 := by
  obtain ⟨deck, generator, permuted, dealt⟩ := Table.exists_opening_eq contractGame seed
  have size : deck.reverse.length = 52 := by
    rw [List.length_reverse, permuted.length_eq]
    rfl
  match listed : deck.reverse, size with
  | first :: second :: rest, _ =>
      have players : { Table.seated contractGame seed with
          deck := deck, generator := generator }.players = [{}, {}] := rfl
      have seats : { Table.seated contractGame seed with
          deck := deck, generator := generator }.seats = 2 := rfl
      have share : Table.share contractGame { Table.seated contractGame seed with
          deck := deck, generator := generator } = 1 := rfl
      refine ⟨first, second, rest.reverse, generator, ?_⟩
      rw [dealt]
      unfold Table.deal
      rw [listed, share, seats, players]
      rfl

namespace Action

/-- Two bids of one trick each, and the trick. -/
def contractHand : List Action :=
  [.move ⟨0, .bid 1⟩, .move ⟨0, .bid 1⟩, .pass, .move ⟨1, .trick 0⟩, .pass, .move ⟨1, .trick 0⟩]

theorem exists_takeAll_contractGame (seed : UInt64) :
    ∃ outcome table, takeAll contractGame contractHand (Table.opening contractGame seed) =
      .ok [.open, .open, .open, .open, .open, outcome] table := by
  obtain ⟨first, second, deck, generator, dealt⟩ := exists_opening_contractGame seed
  have bids : act contractGame (.move ⟨0, .bid 1⟩)
      (contractTable seed deck generator second [first] (-1, -1) [] 0 0 0 0) =
        .ok .open (contractTable seed deck generator second [first] (1, -1) [] 1 1 1 0) := by
    with_unfolding_all rfl
  have answers : act contractGame (.move ⟨0, .bid 1⟩)
      (contractTable seed deck generator second [first] (1, -1) [] 1 1 1 0) =
        .ok .open (contractTable seed deck generator second [first] (1, 1) [] 2 2 0 0) := by
    with_unfolding_all rfl
  have proceeds : act contractGame .pass
      (contractTable seed deck generator second [first] (1, 1) [] 2 2 0 0) =
        .ok .open (contractTable seed deck generator second [first] (1, 1) [] 2 3 0 1) := by
    with_unfolding_all rfl
  have leads : act contractGame (.move ⟨1, .trick 0⟩)
      (contractTable seed deck generator second [first] (1, 1) [] 2 3 0 1) =
        .ok .open (contractTable seed deck generator second [] (1, 1) [first] 3 4 1 0) := by
    with_unfolding_all rfl
  have waits : act contractGame .pass
      (contractTable seed deck generator second [] (1, 1) [first] 3 4 1 0) =
        .ok .open (contractTable seed deck generator second [] (1, 1) [first] 3 5 1 1) := by
    with_unfolding_all rfl
  -- Which of the cards takes the trick, and so who keeps the contract, remains open.
  have held : (contractTable seed deck generator second [] (1, 1) [first] 3 5 1 1).HasCard 1 0
      second := ⟨Int.le_refl 0, rfl⟩
  have acts : Choice.trick 0 ≠ .pass := nofun
  have carries : Play.Carries contractGame 1
      (contractTable seed deck generator second [] (1, 1) [first] 3 5 1 1) ⟨1, .trick 0⟩ _ _ :=
    .trick rfl held rfl
  obtain ⟨outcome, table, takes⟩ := @Play.exists_perform contractGame
    (contractTable seed deck generator second [] (1, 1) [first] 3 5 1 1) _ _ _ acts carries
  refine ⟨outcome, table, ?_⟩
  rw [dealt]
  exact takeAll_cons bids (takeAll_cons answers (takeAll_cons proceeds (takeAll_cons leads
    (takeAll_cons waits (takeAll_cons takes rfl)))))

end Action

end Croupier
