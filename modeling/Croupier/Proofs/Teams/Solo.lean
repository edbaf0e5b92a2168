/-
Teams of one.

A game in which every participant is a team of its own is the game without teams in a guise: the
points of contracts and the bags lie with the teams. A change that takes no notice of guises keeps
this so, and so does the score of contracts. As the scores of a team and of its member add up, the
same sides win.
-/

import Croupier.Proofs.Play.Piles
import Croupier.Proofs.Teams.Changes

namespace Croupier

/-- The program with every participant as a team. -/
def Program.teamsOfOne (program : Program) : Program :=
  { program with
    header := { program.header with teamMode := true }
    teams := (List.range program.header.participants.toNat).map fun (seat : Nat) => [(seat : Int)] }

/-- What a participant scores as a side of its own. -/
def Player.ownContract (program : Program) (player : Player) : ContractResult :=
  program.contractValues.score [player] player.bags

def Player.afterContract (program : Program) (player : Player) : Player :=
  { player with
    score := player.score + (player.ownContract program).points
    bags := (player.ownContract program).bags }

namespace Table

variable {table other next : Table} {program : Program}

/-! ### The guise of teams of one -/

/-- The guise of a table in which every participant is a team, given the scores of the teams. -/
def soloGuise (table : Table) (scores : Nat → Int) : Guise where
  headStart := fun seat => -scores seat
  bags := fun _ => 0
  team := fun seat => seat
  teamScores := (List.range table.seats).map scores
  teamBags := table.players.map Player.bags

theorem soloGuise_of_change {change : Table → Table} {scores : Nat → Int}
    (each : ∀ guise, change (table.guised guise) = (change table).guised guise)
    (seats : (change table).seats = table.seats) :
    (change table).soloGuise scores = table.soloGuise scores := by
  have bags := @map_players_of_change table _ Player.bags Guise.bags (fun _ _ _ => rfl) _ each seats
  unfold soloGuise
  rw [seats, bags]

/-- One table of a game without teams, the other of the game with every participant as a team. -/
structure Alike (program : Program) (table other : Table) : Prop where
  seats : table.seats = program.header.participants.toNat
  teamless : table.players.map Player.team = List.replicate table.seats nobody
  guised : ∃ scores, other = table.guised (table.soloGuise scores)

theorem Alike.change (alike : Alike program table other) (change : Table → Table)
    (each : ∀ (table : Table) (guise : Guise),
      change (table.guised guise) = (change table).guised guise)
    (seats : (change table).seats = table.seats) :
    Alike program (change table) (change other) := by
  obtain ⟨taken, teamless, scores, rfl⟩ := alike
  have teams := @map_players_of_change table _ Player.team Guise.team (fun _ _ _ => rfl) _
    (each table) seats
  refine ⟨seats.trans taken, ?_, scores, ?_⟩
  · rw [teams, teamless, seats]
  · rw [each, soloGuise_of_change (each table) seats]

/-! ### Contracts -/

/-- The scores of the teams with the points of their members' contracts. -/
def withContracts (table : Table) (program : Program) (scores : Nat → Int) (seat : Nat) : Int :=
  scores seat + ((table.players.getD seat {}).ownContract program).points

theorem withContracts_eq {scores : Nat → Int} {seat : Nat} (taken : seat < table.players.length) :
    table.withContracts program scores seat =
      scores seat + (table.players[seat].ownContract program).points := by
  unfold withContracts
  rw [List.getD_eq_getElem _ _ taken]

theorem contractOf_guised {guise : Guise} {values : ContractValues} {seat bags : Int} :
    (table.guised guise).contractOf values [seat] bags =
      values.score [table.player seat] bags :=
  @look_guised _ guise table (fun player => values.score [player] bags) (fun _ _ _ => rfl) seat

theorem teamContracts_teamsOfOne (scores : Nat → Int)
    (seats : table.seats = program.header.participants.toNat) :
    (table.guised (table.soloGuise scores)).teamContracts program.teamsOfOne =
      table.players.map (Player.ownContract program) := by
  unfold teamContracts Program.teamsOfOne
  dsimp only
  rw [← seats]
  apply List.ext_getElem
  · simp [guised, soloGuise, Table.seats]
  · intro place _ inSeats
    rw [List.length_map] at inSeats
    have there := player_natCast inSeats
    simp only [List.getElem_map, List.getElem_zip, List.getElem_range]
    rw [contractOf_guised, there]
    simp [guised, soloGuise]
    rfl

theorem scoreContracts_of_single (single : program.header.teamMode = false) :
    table.scoreContracts program =
      { table with players := table.players.map (Player.afterContract program) } := by
  unfold Table.scoreContracts
  rw [single]
  rfl

theorem scoreContracts_teamsOfOne (scores : Nat → Int)
    (seats : table.seats = program.header.participants.toNat) :
    (table.guised (table.soloGuise scores)).scoreContracts program.teamsOfOne =
      { table with
        players := table.players.mapIdx (table.soloGuise scores).player
        teamScores := (List.range table.seats).map (table.withContracts program scores)
        teamBags := (table.players.map (Player.afterContract program)).map Player.bags } := by
  have teams : program.teamsOfOne.header.teamMode = true := rfl
  have teamScores : (((List.range table.seats).map scores).zip
        (table.players.map (Player.ownContract program))).map
          (fun entry => entry.1 + entry.2.points) =
      (List.range table.seats).map (table.withContracts program scores) := by
    apply List.ext_getElem
    · simp [Table.seats]
    · intro place _ inside
      rw [List.length_map, List.length_range] at inside
      simp only [List.getElem_map, List.getElem_zip, List.getElem_range]
      exact (withContracts_eq inside).symm
  have teamBags : (table.players.map (Player.afterContract program)).map Player.bags =
      (table.players.map (Player.ownContract program)).map ContractResult.bags := by
    rw [List.map_map, List.map_map]
    rfl
  unfold Table.scoreContracts
  rw [if_pos teams, teamContracts_teamsOfOne scores seats, ← teamScores, teamBags]
  rfl

/-- What the team gets its member does not get: the guise takes it off again. -/
theorem players_afterContract (table : Table) (program : Program) (scores : Nat → Int) :
    (table.players.map (Player.afterContract program)).mapIdx
        (soloGuise { table with players := table.players.map (Player.afterContract program) }
          (table.withContracts program scores)).player =
      table.players.mapIdx (table.soloGuise scores).player := by
  apply List.ext_getElem
  · simp
  · intro place _ inside
    rw [List.length_mapIdx] at inside
    rw [List.getElem_mapIdx, List.getElem_mapIdx, List.getElem_map]
    have points := @withContracts_eq _ program scores _ inside
    unfold soloGuise Guise.player Player.afterContract
    dsimp only
    congr 1
    omega

/-- The points of contracts go to the teams instead of their members. -/
theorem Alike.scoreContracts (single : program.header.teamMode = false)
    (alike : Alike program table other) :
    Alike program (table.scoreContracts program) (other.scoreContracts program.teamsOfOne) := by
  obtain ⟨seats, teamless, scores, rfl⟩ := alike
  have kept : (table.players.map (Player.afterContract program)).length = table.seats :=
    List.length_map _
  rw [scoreContracts_of_single single, scoreContracts_teamsOfOne scores seats]
  refine ⟨kept.trans seats, ?_, table.withContracts program scores, ?_⟩
  · unfold Table.seats
    rw [List.map_map, List.length_map]
    exact teamless
  · unfold Table.guised
    rw [players_afterContract]
    unfold soloGuise Table.seats
    rw [List.length_map]

/-! ### Sides -/

/-- Where the participants are numbered by their teams, each team has one member. -/
theorem map_filter_team {players : List Player} {first : Nat}
    (numbered : players.map Player.team =
      (List.range' first players.length).map fun (team : Nat) => (team : Int)) :
    ((List.range' first players.length).map fun (team : Nat) =>
        players.filter fun player => player.team = (team : Int)) = players.map ([·]) := by
  induction players generalizing first with
  | nil => rfl
  | cons player rest ih =>
      rw [List.length_cons, List.range'_succ, List.map_cons, List.map_cons] at numbered
      obtain ⟨own, others⟩ := List.cons.inj numbered
      have later : ∀ member ∈ rest, ¬member.team = (first : Int) := by
        intro member among same
        have listed := List.mem_map_of_mem (f := Player.team) among
        rw [others, same, List.mem_map] at listed
        obtain ⟨team, within, equal⟩ := listed
        have beyond := (List.mem_range'_1.mp within).1
        omega
      have alone :
          (player :: rest).filter (fun member => member.team = (first : Int)) = [player] := by
        rw [List.filter_cons_of_pos (by simpa using own), List.filter_eq_nil_iff.mpr]
        simpa using later
      have apart : ∀ team ∈ List.range' (first + 1) rest.length,
          (player :: rest).filter (fun member => member.team = (team : Int)) =
            rest.filter fun member => member.team = (team : Int) := by
        intro team within
        have beyond := (List.mem_range'_1.mp within).1
        apply List.filter_cons_of_neg
        rw [decide_eq_true_eq, own]
        omega
      rw [List.length_cons, List.range'_succ, List.map_cons, List.map_cons, alone,
        List.map_congr_left apart, ih others]

theorem sides_teamsOfOne (scores : Nat → Int) :
    (table.guised (table.soloGuise scores)).sides program.teamsOfOne =
      (table.guised (table.soloGuise scores)).players.map ([·]) := by
  have teams : program.teamsOfOne.header.teamMode = true := rfl
  have count : (table.guised (table.soloGuise scores)).teamScores.length =
      (table.guised (table.soloGuise scores)).players.length := by
    simp [guised, soloGuise, Table.seats]
  unfold Table.sides
  rw [if_pos teams, count, List.range_eq_range']
  apply map_filter_team
  apply List.ext_getElem
  · simp
  · intro place _ _
    simp [guised, soloGuise, Guise.player]

theorem sides_of_single (single : program.header.teamMode = false) :
    table.sides program = table.players.map ([·]) := by
  unfold Table.sides
  rw [single]
  rfl

theorem Alike.map_sides {β : Type} {view : List Player → β}
    (single : program.header.teamMode = false) (alike : Alike program table other)
    (through : SeesThrough fun player => view [player]) :
    (other.sides program.teamsOfOne).map view = (table.sides program).map view := by
  obtain ⟨_, _, scores, rfl⟩ := alike
  rw [sides_teamsOfOne, sides_of_single single, List.map_map, List.map_map]
  exact map_players_guised through

/-- What a team has scored and what its member has add up to the score without teams. -/
theorem Alike.sideScores (single : program.header.teamMode = false)
    (alike : Alike program table other) :
    other.sideScores program.teamsOfOne = table.sideScores program := by
  obtain ⟨_, _, scores, rfl⟩ := alike
  have teams : program.teamsOfOne.header.teamMode = true := rfl
  unfold Table.sideScores
  dsimp only
  rw [if_pos teams, single, sides_teamsOfOne, sides_of_single single]
  change (((List.range table.players.length).map scores).zip
    (((table.players.mapIdx (table.soloGuise scores).player).map ([·])).map fun members =>
      total (members.map (·.score)))).map (fun entry => entry.1 + entry.2) = _
  apply List.ext_getElem
  · simp
  · intro place _ _
    simp [soloGuise, Guise.player]

/-! ### Win conditions -/

theorem firstSide_eq_map {α : Type} (sides : List α) (holds : α → Bool) :
    firstSide sides holds = firstSide (sides.map holds) id := by
  unfold firstSide
  rw [List.findIdx?_map, Function.id_comp]

theorem Alike.sideSums (single : program.header.teamMode = false)
    (alike : Alike program table other) {number : Player → Int} (through : SeesThrough number) :
    other.sideSums program.teamsOfOne number = table.sideSums program number := by
  refine alike.map_sides single ?_
  intro guise seat player
  exact congrArg (fun number => total [number]) (through guise seat player)

theorem Alike.sideBestHands (single : program.header.teamMode = false)
    (alike : Alike program table other) :
    other.sideBestHands program.teamsOfOne = table.sideBestHands program := by
  have anyoneIn : other.players.any (fun player => !player.folded) =
      table.players.any (fun player => !player.folded) := by
    obtain ⟨_, _, scores, rfl⟩ := alike
    exact any_players_guised fun _ _ _ => rfl
  unfold Table.sideBestHands
  dsimp only
  rw [anyoneIn]
  refine alike.map_sides single ?_
  intro guise seat player
  have folded : (guise.player seat player).folded = player.folded := rfl
  simp only [List.filter_cons, List.filter_nil, folded]
  split <;> rfl

theorem Alike.tracked (single : program.header.teamMode = false)
    (alike : Alike program table other) (kind : WinKind) :
    other.tracked program.teamsOfOne kind = table.tracked program kind := by
  unfold Table.tracked
  cases kind with
  | emptyHand | captureAll | mostTricks | fewestTricks | mostChips =>
      exact congrArg (List.map some) (alike.sideSums single fun _ _ _ => rfl)
  | bestHand => exact alike.sideBestHands single
  | highScore | firstToScore | lowScore | allHandsEmpty | mostCaptured | unknown =>
      exact congrArg (List.map some) (alike.sideScores single)

theorem Alike.outcomeOf (single : program.header.teamMode = false)
    (alike : Alike program table other) (condition : WinCondition) :
    other.outcomeOf program.teamsOfOne condition = table.outcomeOf program condition := by
  have reached : other.anyReached program.teamsOfOne condition =
      table.anyReached program condition := by
    unfold anyReached
    rw [alike.tracked single]
  have emptied : other.handsEmpty = table.handsEmpty := by
    obtain ⟨_, _, scores, rfl⟩ := alike
    exact handsEmpty_guised
  have counts : other.actions = table.actions ∧ other.totalCards = table.totalCards := by
    obtain ⟨_, _, scores, rfl⟩ := alike
    exact ⟨rfl, rfl⟩
  have empties : (other.sides program.teamsOfOne).map
        (fun members => members.any fun player => player.hand.isEmpty) =
      (table.sides program).map fun members => members.any fun player => player.hand.isEmpty :=
    alike.map_sides single fun _ _ _ => rfl
  unfold Table.outcomeOf
  dsimp only
  rw [alike.tracked single, alike.sideScores single, alike.sideSums single fun _ _ _ => rfl,
    reached, emptied, counts.1, counts.2]
  cases condition.kind with
  | emptyHand =>
      dsimp only
      rw [firstSide_eq_map, empties, ← firstSide_eq_map]
  | _ => rfl

theorem Alike.outcome (single : program.header.teamMode = false)
    (alike : Alike program table other) :
    other.outcome program.teamsOfOne = table.outcome program := by
  have triggered (condition : WinCondition) :
      other.triggered program.teamsOfOne condition = table.triggered program condition := by
    have reached : other.anyReached program.teamsOfOne condition =
        table.anyReached program condition := by
      unfold anyReached
      rw [alike.tracked single]
    unfold Table.triggered
    rw [reached]
    obtain ⟨_, _, scores, rfl⟩ := alike
    rw [handsEmpty_guised]
    rfl
  have endings : other.ending? program.teamsOfOne = table.ending? program := by
    funext condition
    unfold Table.ending?
    rw [triggered, alike.outcomeOf single]
  unfold Table.outcome
  rw [endings]
  rfl

end Table

end Croupier
