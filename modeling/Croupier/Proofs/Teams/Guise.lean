/-
What the rules of play take no notice of.

The team of a participant, the bags, and the score brought along are a guise: it makes no
difference to what anybody holds, owes or may do. Only scores of contracts and win conditions look
at sides. So everything that the table offers is the same in any guise.
-/

import Croupier.Proofs.Play.Playable

namespace Croupier

/-- A head start, bags and a team for each seat, and the scores and bags of the teams. -/
structure Guise where
  headStart : Nat → Int
  bags : Nat → Int
  team : Nat → Int
  teamScores : List Int
  teamBags : List Int

def Guise.player (guise : Guise) (seat : Nat) (player : Player) : Player :=
  { player with
    score := player.score + guise.headStart seat
    bags := guise.bags seat
    team := guise.team seat }

/-- A look at a participant that sees through any guise. -/
def SeesThrough {α : Type} (look : Player → α) : Prop :=
  ∀ (guise : Guise) (seat : Nat) (player : Player), look (guise.player seat player) = look player

namespace Table

def guised (table : Table) (guise : Guise) : Table :=
  { table with
    players := table.players.mapIdx guise.player
    teamScores := guise.teamScores
    teamBags := guise.teamBags }

variable {α : Type} {guise : Guise} {table : Table} {program : Program} {seat : Int}

/-! ### Participants -/

theorem map_players_guised {look : Player → α} (through : SeesThrough look) :
    (table.guised guise).players.map look = table.players.map look := by
  apply List.ext_getElem?
  intro place
  simp only [guised, List.getElem?_map, List.getElem?_mapIdx]
  cases table.players[place]? with
  | none => rfl
  | some player => exact congrArg some (through guise place player)

theorem all_players_guised {look : Player → Bool} (through : SeesThrough look) :
    (table.guised guise).players.all look = table.players.all look := by
  have mapped (players : List Player) : players.all look = (players.map look).all id := by
    rw [List.all_map, Function.id_comp]
  rw [mapped, mapped, map_players_guised through]

theorem any_players_guised {look : Player → Bool} (through : SeesThrough look) :
    (table.guised guise).players.any look = table.players.any look := by
  have mapped (players : List Player) : players.any look = (players.map look).any id := by
    rw [List.any_map, Function.id_comp]
  rw [mapped, mapped, map_players_guised through]

theorem countP_players_guised {look : Player → Bool} (through : SeesThrough look) :
    (table.guised guise).players.countP look = table.players.countP look := by
  have mapped (players : List Player) : players.countP look = (players.map look).countP id := by
    rw [List.countP_map, Function.id_comp]
  rw [mapped, mapped, map_players_guised through]

/-- Whoever sits there, or nobody, a look that sees through the guise sees the same. -/
theorem look_guised {look : Player → α} (through : SeesThrough look) (seat : Int) :
    look ((table.guised guise).player seat) = look (table.player seat) := by
  unfold player
  split
  · rfl
  · rw [List.getD_eq_getElem?_getD, List.getD_eq_getElem?_getD]
    unfold guised
    dsimp only
    rw [List.getElem?_mapIdx]
    cases table.players[seat.toNat]? with
    | none => rfl
    | some player => exact through guise seat.toNat player

@[simp]
theorem seats_guised : (table.guised guise).seats = table.seats :=
  List.length_mapIdx

@[simp]
theorem allSeats_guised : (table.guised guise).allSeats = table.allSeats := by
  unfold allSeats
  rw [seats_guised]

@[simp]
theorem hand_guised : (table.guised guise).hand seat = table.hand seat :=
  look_guised (fun _ _ _ => rfl) seat

@[simp]
theorem chips_guised : ((table.guised guise).player seat).chips = (table.player seat).chips :=
  look_guised (fun _ _ _ => rfl) seat

@[simp]
theorem bet_guised : ((table.guised guise).player seat).bet = (table.player seat).bet :=
  look_guised (fun _ _ _ => rfl) seat

@[simp]
theorem folded_guised : ((table.guised guise).player seat).folded = (table.player seat).folded :=
  look_guised (fun _ _ _ => rfl) seat

@[simp]
theorem allIn_guised : ((table.guised guise).player seat).allIn = (table.player seat).allIn :=
  look_guised (fun _ _ _ => rfl) seat

@[simp]
theorem hasBid_guised : (table.guised guise).hasBid seat = table.hasBid seat :=
  @look_guised _ guise table (fun player => decide (player.bid ≥ 0)) (fun _ _ _ => rfl) seat

@[simp]
theorem owed_guised : (table.guised guise).owed seat = table.owed seat := by
  unfold owed
  rw [bet_guised]
  rfl

@[simp]
theorem handsEmpty_guised : (table.guised guise).handsEmpty = table.handsEmpty :=
  all_players_guised fun _ _ _ => rfl

@[simp]
theorem seatAfter_guised {places : Int} :
    (table.guised guise).seatAfter seat places = table.seatAfter seat places := by
  unfold seatAfter
  rw [seats_guised]

@[simp]
theorem nextSeat_guised : (table.guised guise).nextSeat seat = table.nextSeat seat :=
  seatAfter_guised

/-! ### Piles -/

@[simp]
theorem pile?_guised {location : Location} :
    (table.guised guise).pile? seat location = table.pile? seat location := by
  cases location with
  | deck | discard | tableau | unknown => rfl
  | hand => exact congrArg some hand_guised
  | opponentHand =>
      unfold pile?
      dsimp only
      rw [nextSeat_guised, hand_guised]

@[simp]
theorem pileAt_guised {location : Location} :
    (table.guised guise).pileAt seat location = table.pileAt seat location := by
  cases location with
  | unknown => rfl
  | deck | discard | tableau | hand | opponentHand =>
      unfold pileAt
      dsimp only
      rw [pile?_guised]

/-! ### Conditions -/

theorem holdsApart_guised {condition : Condition} {candidate : Option Card} :
    (table.guised guise).holdsApart program seat condition candidate =
      table.holdsApart program seat condition candidate := by
  have held := @hand_guised guise table seat
  unfold hand at held
  unfold holdsApart
  dsimp only
  rw [chips_guised, held, owed_guised]
  cases condition.kind with
  | locationSize =>
      dsimp only
      cases (Coded.ofCode condition.reference : Location) with
      | unknown => rfl
      | deck | discard | tableau | hand | opponentHand =>
          dsimp only
          rw [pile?_guised]
  | _ => rfl

theorem holds_guised {condition : Condition} {candidate : Option Card} :
    (table.guised guise).holds program seat condition candidate =
      table.holds program seat condition candidate :=
  holds_congr (fun _ _ => holdsApart_guised) (.of_eq hand_guised) condition candidate

theorem mayPlay_guised {phase : PlayPhase} :
    (table.guised guise).mayPlay program seat phase = table.mayPlay program seat phase :=
  mayPlay_congr (fun _ _ => holdsApart_guised) (.of_eq hand_guised) phase

/-! ### Offers -/

theorem offers_guised {index : Int} {phase : Phase} :
    (table.guised guise).offers program seat index phase =
      table.offers program seat index phase := by
  unfold offers
  cases phase with
  | draw phase =>
      dsimp only
      unfold offerDraw
      simp only [holds_guised, pile?_guised]
  | play phase =>
      dsimp only
      unfold offerPlay
      rw [hand_guised, mayPlay_guised]
      rfl
  | discard phase =>
      dsimp only
      unfold offerDiscard
      rw [hand_guised]
      rfl
  | trick phase =>
      dsimp only
      unfold offerTrick
      rw [hand_guised]
      rfl
  | betting phase =>
      dsimp only
      unfold offerBetting
      dsimp only
      rw [folded_guised, allIn_guised, chips_guised, bet_guised]
      rfl
  | claim phase =>
      dsimp only
      unfold offerClaim
      rw [hand_guised]
      rfl
  | bidding phase =>
      dsimp only
      unfold offerBids
      rw [hasBid_guised]

/-- The same moves are on offer in any guise. -/
theorem moves_guised : (table.guised guise).moves program = table.moves program := by
  have active : (table.guised guise).active = table.active := rfl
  have phase : (table.guised guise).phase = table.phase := rfl
  unfold moves movesFor
  rw [active, phase]
  split
  · rfl
  · rw [offers_guised]

theorem canPass_guised : (table.guised guise).canPass program = table.canPass program := by
  have mayPass : (table.guised guise).mayPass table.active = table.mayPass table.active := by
    funext phase
    cases phase with
    | draw => rfl
    | play | discard | claim =>
        unfold Table.mayPass
        rw [hand_guised]
    | trick =>
        unfold Table.mayPass
        rw [hand_guised]
        rfl
    | betting =>
        unfold Table.mayPass
        dsimp only
        rw [folded_guised, allIn_guised, chips_guised]
    | bidding =>
        unfold Table.mayPass
        rw [hasBid_guised]
  unfold canPass canPassAt
  change (program.phase? table.phase).any ((table.guised guise).mayPass table.active) = _
  rw [mayPass]

/-! ### The guise of a table -/

/-- The guise that a table has on. -/
def ownGuise (table : Table) : Guise where
  headStart := fun _ => 0
  bags := fun seat => (table.players.getD seat {}).bags
  team := fun seat => (table.players.getD seat {}).team
  teamScores := table.teamScores
  teamBags := table.teamBags

theorem guised_ownGuise (table : Table) : table.guised table.ownGuise = table := by
  have players : table.players.mapIdx table.ownGuise.player = table.players := by
    apply List.ext_getElem?
    intro place
    rw [List.getElem?_mapIdx]
    cases there : table.players[place]? with
    | none => rfl
    | some player =>
        simp [Guise.player, ownGuise, List.getD_eq_getElem?_getD, there]
  unfold guised
  rw [players]
  rfl

/-- A change that does not look behind guises does not touch what makes them up. -/
theorem guised_of_change {change : Table → Table}
    (each : ∀ guise, change (table.guised guise) = (change table).guised guise) :
    (change table).guised table.ownGuise = change table := by
  have same := each table.ownGuise
  rw [guised_ownGuise] at same
  exact same.symm

/-- Whatever shows nothing but the guise can be read off it. -/
theorem map_players_of_guise {α : Type} {view : Player → α} {worn : Guise → Nat → α}
    (shown : ∀ guise seat player, view (Guise.player guise seat player) = worn guise seat)
    (table : Table) (guise : Guise) :
    (table.guised guise).players.map view = (List.range table.seats).map (worn guise) := by
  apply List.ext_getElem
  · rw [List.length_map, List.length_map, List.length_range]
    exact seats_guised
  · intro place _ _
    simp [guised, shown]

theorem map_players_of_change {α : Type} {view : Player → α} {worn : Guise → Nat → α}
    (shown : ∀ guise seat player, view (Guise.player guise seat player) = worn guise seat)
    {change : Table → Table}
    (each : ∀ guise, change (table.guised guise) = (change table).guised guise)
    (seats : (change table).seats = table.seats) :
    (change table).players.map view = table.players.map view := by
  have after := map_players_of_guise shown (change table) table.ownGuise
  have before := map_players_of_guise shown table table.ownGuise
  rw [guised_of_change each] at after
  rw [guised_ownGuise] at before
  rw [after, before, seats]

end Table

end Croupier
