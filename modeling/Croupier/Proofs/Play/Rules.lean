/-
What the rules do to the cards and to the order of play.

No rule makes or loses a card, and every rule names seats that are taken: the neighbours of a
seat, the contributors to a trick or a battle, the claimant of a pending claim. That a table is
orderly is what the rules rely on for this and what they leave behind.
-/

import Croupier.Proofs.Play.Piles

namespace Croupier.Table

variable {table next last : Table} {seat actor : Int} {card : Card} {program : Program}

/-! ### Orderly tables -/

/-- Every seat that the table speaks of is taken, and play goes one way round or the other. -/
structure Orderly (table : Table) : Prop where
  several : 2 ≤ table.seats
  active : table.HasSeat table.active
  direction : table.direction = 1 ∨ table.direction = -1
  trick : ∀ seat ∈ table.trick, table.HasSeat seat
  battle : ∀ seat ∈ table.battleSeats, table.HasSeat seat
  claimant : table.claim.pending = true → table.HasSeat table.claim.claimant
  handNumber : 0 ≤ table.handNumber

theorem HasSeat.of_seats (seated : table.HasSeat seat) (same : next.seats = table.seats) :
    next.HasSeat seat := by
  unfold HasSeat
  rw [same]
  exact seated

theorem Orderly.of_frame (orderly : table.Orderly) (same : next.frame = table.frame) :
    next.Orderly := by
  have seats : next.seats = table.seats := congrArg Frame.seats same
  have active : next.active = table.active := congrArg Frame.active same
  have direction : next.direction = table.direction := congrArg Frame.direction same
  have trick : next.trick = table.trick := congrArg Frame.trick same
  have battle : next.battleSeats = table.battleSeats := congrArg Frame.battleSeats same
  have claim : next.claim = table.claim := congrArg Frame.claim same
  have handNumber : next.handNumber = table.handNumber := congrArg Frame.handNumber same
  constructor
  · rw [seats]
    exact orderly.several
  · rw [active]
    exact orderly.active.of_seats seats
  · rw [direction]
    exact orderly.direction
  · rw [trick]
    exact fun seat member => (orderly.trick seat member).of_seats seats
  · rw [battle]
    exact fun seat member => (orderly.battle seat member).of_seats seats
  · rw [claim]
    exact fun pending => (orderly.claimant pending).of_seats seats
  · rw [handNumber]
    exact orderly.handNumber

/-- A step in either direction leads from a seat to a seat. -/
theorem HasSeat.seatAfter (seated : table.HasSeat seat) {places : Int}
    (step : places = 1 ∨ places = -1) : table.HasSeat (table.seatAfter seat places) :=
  seatAfter_bounds seated (by omega)

theorem Orderly.reaching (orderly : table.Orderly) (seated : table.HasSeat seat) :
    table.Reaching seat :=
  ⟨seated, seated.seatAfter orderly.direction⟩

/-- Behind the last seat comes the first one, and the other way round. -/
theorem Orderly.nextSeat_eq (orderly : table.Orderly) :
    table.nextSeat table.active =
      if table.active + table.direction = table.seats then (0 : Int)
      else if table.active + table.direction < 0 then table.seats - 1
      else table.active + table.direction := by
  have several := orderly.several
  obtain ⟨nonneg, below⟩ := orderly.active
  have near : -1 ≤ table.direction ∧ table.direction ≤ 1 := by
    rcases orderly.direction with forward | back <;> omega
  unfold nextSeat Table.seatAfter
  rw [Int.tmod_eq_emod_of_nonneg (by omega)]
  split
  · rename_i last
    rw [last, Int.add_emod_right, Int.emod_self]
  · split
    · rw [Int.emod_eq_of_lt (by omega) (by omega)]
      omega
    · rw [Int.add_emod_right, Int.emod_eq_of_lt (by omega) (by omega)]

theorem Orderly.nextSeat_ne (orderly : table.Orderly) :
    table.nextSeat table.active ≠ table.active := by
  have several := orderly.several
  have turns := orderly.direction
  rw [orderly.nextSeat_eq]
  split
  · omega
  · split <;> omega

/-- The next table is orderly and holds the given cards on top of those of the table. -/
structure Absorbs (table : Table) (cards : List Card) (next : Table) : Prop where
  tally : ∀ card, next.tally card = table.tally card + cards.count card
  seats : next.seats = table.seats
  total : next.totalCards = table.totalCards
  orderly : next.Orderly

theorem Absorbs.refl (orderly : table.Orderly) : Absorbs table [] table :=
  ⟨fun _ => rfl, rfl, rfl, orderly⟩

theorem Absorbs.trans {cards : List Card} (first : Absorbs table cards next)
    (second : Absorbs next [] last) : Absorbs table cards last :=
  ⟨fun card => (second.tally card).trans (first.tally card), second.seats.trans first.seats,
    second.total.trans first.total, second.orderly⟩

theorem Absorbs.after {cards : List Card} (first : Absorbs table [] next)
    (second : Absorbs next cards last) : Absorbs table cards last := by
  refine ⟨fun card => ?_, second.seats.trans first.seats, second.total.trans first.total,
    second.orderly⟩
  rw [second.tally, first.tally, List.count_nil, Nat.add_zero]

theorem Rearranges.absorbs (rearranges : Rearranges table next) (orderly : table.Orderly) :
    Absorbs table [] next :=
  ⟨rearranges.tally, congrArg Frame.seats rearranges.frame,
    congrArg Frame.totalCards rearranges.frame, orderly.of_frame rearranges.frame⟩

theorem HasSeat.without {other : Int} {place : Nat} (seated : table.HasSeat seat) :
    (table.without other place).HasSeat seat :=
  seated.of_frame (frame_without table other place)

theorem Orderly.without {place : Nat} (orderly : table.Orderly) :
    (table.without seat place).Orderly :=
  orderly.of_frame (frame_without table seat place)

/-- A card that is taken out of a hand and absorbed again is only moved. -/
theorem Absorbs.returned {place : Nat} (seated : table.HasSeat seat)
    (there : (table.hand seat)[place]? = some card)
    (absorbs : Absorbs (table.without seat place) [card] next) : Absorbs table [] next := by
  have frame := frame_without table seat place
  refine ⟨fun other => ?_, absorbs.seats.trans (congrArg Frame.seats frame),
    absorbs.total.trans (congrArg Frame.totalCards frame), absorbs.orderly⟩
  have taken := tally_without seated there other
  have given := absorbs.tally other
  rw [List.count_nil]
  omega

theorem absorbs_place (orderly : table.Orderly) (seated : table.HasSeat seat)
    (location : Location) (card : Card) :
    Absorbs table [card] (table.place seat location card) :=
  have frame := frame_place table seat location card
  ⟨tally_place (orderly.reaching seated) location card, congrArg Frame.seats frame,
    congrArg Frame.totalCards frame, orderly.of_frame frame⟩

/-! ### Effects -/

theorem hand_modifyHand_self (seated : table.HasSeat seat) (change : List Card → List Card) :
    (table.modifyHand seat change).hand seat = change (table.hand seat) := by
  obtain ⟨nonneg, below⟩ := seated
  have taken : seat.toNat < table.players.length := by
    unfold seats at below
    omega
  have upright : ¬seat < 0 := by omega
  simp [modifyHand, modifyPlayer, hand, player, upright, taken]

theorem hand_modifyHand_of_ne {other : Int} (different : other ≠ seat)
    (change : List Card → List Card) :
    (table.modifyHand seat change).hand other = table.hand other := by
  unfold modifyHand modifyPlayer hand player
  by_cases negative : seat < 0
  · rw [if_pos negative]
  · by_cases otherNegative : other < 0
    · simp only [if_pos otherNegative]
    · have apart : seat.toNat ≠ other.toNat := by omega
      simp [negative, otherNegative, List.getD_eq_getElem?_getD, apart]

theorem rearranges_swapHands {left right : Int} (leftSeated : table.HasSeat left)
    (rightSeated : table.HasSeat right) : Rearranges table (table.swapHands left right) := by
  refine ⟨by simp [swapHands], fun card => ?_⟩
  have stillSeated := rightSeated.of_frame
    (frame_modifyHand table left fun _ => table.hand right)
  have first := tally_modifyHand leftSeated (fun _ => table.hand right) card
  have second := tally_modifyHand stillSeated (fun _ => table.hand left) card
  have kept :
      (table.modifyHand left fun _ => table.hand right).hand right = table.hand right := by
    by_cases same : right = left
    · subst same
      exact hand_modifyHand_self rightSeated _
    · exact hand_modifyHand_of_ne same _
  rw [kept] at second
  unfold swapHands
  dsimp only
  omega

theorem rearranges_effectTargets (table : Table) (actor : Int) (target : EffectTarget) :
    Rearranges table (table.effectTargets actor target).2 := by
  cases target <;> exact ⟨rfl, fun _ => rfl⟩

/-- Effects strike participants. -/
theorem hasSeat_of_mem_effectTargets (oneWay : table.direction = 1 ∨ table.direction = -1)
    (seated : table.HasSeat actor) (target : EffectTarget) :
    ∀ struck ∈ (table.effectTargets actor target).1, table.HasSeat struck := by
  have opposite : -table.direction = 1 ∨ -table.direction = -1 := by omega
  cases target with
  | next => exact List.forall_mem_singleton.mpr (seated.seatAfter oneWay)
  | previous => exact List.forall_mem_singleton.mpr (seated.seatAfter opposite)
  | left => exact List.forall_mem_singleton.mpr (seated.seatAfter (Or.inl rfl))
  | right => exact List.forall_mem_singleton.mpr (seated.seatAfter (Or.inr rfl))
  | self => exact List.forall_mem_singleton.mpr seated
  | allOpponents =>
      intro struck member
      exact mem_allSeats_iff.mp (List.mem_of_mem_filter member)
  | randomOpponent =>
      refine List.forall_mem_singleton.mpr ?_
      obtain ⟨nonneg, below⟩ := seated
      have positive : (0 : Int) < table.seats := by omega
      exact ⟨Int.tmod_nonneg _ (by omega), Int.tmod_lt_of_pos _ positive⟩
  | unknown => exact fun _ member => absurd member List.not_mem_nil

theorem rearranges_againstFirst {targets : List Int} {change : Table → Int → Table}
    (each : ∀ target ∈ targets, Rearranges table (change table target)) :
    Rearranges table (table.againstFirst actor targets change) := by
  cases targets with
  | nil => exact .refl table
  | cons target rest =>
      unfold againstFirst
      dsimp only
      split
      · exact .refl table
      · exact each target List.mem_cons_self

theorem absorbs_applyEffect (orderly : table.Orderly) (seated : table.HasSeat actor)
    (effect : Effect) : Absorbs table [] (table.applyEffect actor effect) := by
  have aimed := rearranges_effectTargets table actor effect.target
  have struck : ∀ target ∈ (table.effectTargets actor effect.target).1,
      (table.effectTargets actor effect.target).2.HasSeat target := fun target member =>
    (hasSeat_of_mem_effectTargets orderly.direction seated effect.target target member).of_frame
      aimed.frame
  have aimedOrderly := orderly.of_frame aimed.frame
  have aimedActor := seated.of_frame aimed.frame
  unfold applyEffect
  cases effect.kind with
  | skipNext | blockNext | extraTurn => exact ⟨fun _ => rfl, rfl, rfl, orderly.of_frame rfl⟩
  | wild | peek | unknown => exact .refl orderly
  | reverse =>
      have direction := orderly.direction
      refine ⟨fun _ => rfl, rfl, rfl, { orderly with direction := ?_ }⟩
      change -table.direction = 1 ∨ -table.direction = -1
      omega
  | drawCards =>
      refine (aimed.trans (.foldl fun next same target member => ?_)).absorbs orderly
      exact rearranges_draw ((aimedOrderly.reaching (struck target member)).of_frame same) _ _
  | forceDiscard =>
      refine (aimed.trans (.foldl fun next same target member => ?_)).absorbs orderly
      exact rearranges_forceDiscard ((struck target member).of_frame same) _
  | swapHands =>
      refine (aimed.trans (rearranges_againstFirst fun target member => ?_)).absorbs orderly
      exact rearranges_swapHands aimedActor (struck target member)
  | stealCard =>
      refine (aimed.trans (rearranges_againstFirst fun target member => ?_)).absorbs orderly
      exact rearranges_steal aimedActor (struck target member) _

theorem absorbs_triggerEffect (program : Program) (orderly : table.Orderly)
    (seated : table.HasSeat actor) (played : Card) :
    Absorbs table [] (table.triggerEffect program actor played) := by
  unfold triggerEffect
  split
  · exact absorbs_applyEffect orderly seated _
  · exact .refl orderly

/-! ### Battles -/

theorem absorbs_enterBattle (orderly : table.Orderly) (seated : table.HasSeat seat)
    (played : Card) : Absorbs table [] (table.enterBattle seat played) := by
  unfold enterBattle
  split
  · exact ⟨fun _ => rfl, rfl, rfl, orderly.of_frame rfl⟩
  · refine ⟨fun _ => rfl, rfl, rfl, { orderly with battle := ?_ }⟩
    intro other member
    rcases List.mem_append.mp member with earlier | new
    · exact orderly.battle other earlier
    · rw [List.mem_singleton.mp new]
      exact seated

theorem mem_battleSeats_of_winner {winner : Int}
    (wins : table.battleWinner? program = some winner) :
    winner ∈ table.battleSeats := by
  have tied : winner ∈ table.battleBest := by
    unfold battleWinner? at wins
    dsimp only at wins
    split at wins
    · exact List.mem_of_getElem? wins
    · exact List.mem_of_mem_head? wins
    · exact List.mem_of_mem_head? wins
  obtain ⟨⟨contributor, best⟩, member, rfl⟩ := List.mem_map.mp tied
  exact (List.of_mem_zip (List.mem_of_mem_filter member)).1

theorem centre_modifyPlayer (change : Player → Player) :
    (table.modifyPlayer seat change).centre = table.centre := by
  unfold modifyPlayer
  split <;> rfl

/-- The cards of the battle move to the hand of its winner. -/
theorem absorbs_takeBattle (program : Program) (orderly : table.Orderly) :
    Absorbs table [] (table.takeBattle program).2 := by
  unfold takeBattle
  split
  · exact .refl orderly
  · rename_i winner wins
    have seated := orderly.battle winner (mem_battleSeats_of_winner wins)
    let credit : Player → Player := fun player =>
      { player with
        hand := table.centre ++ player.hand
        score := player.score + program.cardPoints table.centre }
    have frame : (table.modifyPlayer winner credit).frame = table.frame :=
      frame_modifyPlayer _ _ credit
    refine ⟨fun card => ?_, congrArg Frame.seats frame, congrArg Frame.totalCards frame,
      { orderly.of_frame frame with battle := fun _ member => absurd member List.not_mem_nil }⟩
    have credited := tally_modifyPlayer seated credit card
    have cleared := tally_clearTableau (table.modifyPlayer winner credit) card
    rw [centre_modifyPlayer] at cleared
    change _ = _ + (table.centre ++ table.hand winner).count card at credited
    rw [List.count_append] at credited
    change ((table.modifyPlayer winner credit).modifyTableau fun _ => []).tally card = _
    rw [List.count_nil]
    omega

theorem absorbs_settleBattle (program : Program) (orderly : table.Orderly) :
    Absorbs table [] (table.settleBattle program) := by
  unfold settleBattle
  split
  · exact absorbs_takeBattle program orderly
  · exact .refl orderly

/-! ### Cards that are played -/

theorem getLast?_of_captures {target : Location} {pile : List Card} {top : Card}
    (captured : captures program target pile card = some top) : pile.getLast? = some top := by
  unfold captures at captured
  split at captured
  · exact (Option.filter_eq_some_iff.mp captured).1
  · cases captured

/-- The top card of a pile and a card from elsewhere come into a hand. -/
theorem absorbs_capture (orderly : table.Orderly) (seated : table.HasSeat seat)
    {target : Location} {top : Card} (onTop : (table.pileAt seat target).getLast? = some top)
    (points : Int) :
    Absorbs table [card] ((table.modifyPile seat target List.dropLast).modifyPlayer seat
      fun player =>
        { player with hand := player.hand ++ [top, card], score := player.score + points }) := by
  have frame := frame_modifyPile table seat target List.dropLast
  have whole := (frame_modifyPlayer (table.modifyPile seat target List.dropLast) seat fun player =>
    { player with hand := player.hand ++ [top, card], score := player.score + points }).trans frame
  refine ⟨fun other => ?_, congrArg Frame.seats whole, congrArg Frame.totalCards whole,
    orderly.of_frame whole⟩
  have taken := tally_modifyPile (orderly.reaching seated) target List.dropLast other
  have split := count_dropLast_add onTop other
  have given := tally_modifyPlayer (seated.of_frame frame) (fun player =>
    { player with hand := player.hand ++ [top, card], score := player.score + points }) other
  change _ = _ + ((table.modifyPile seat target List.dropLast).hand seat
    ++ ([top] ++ [card])).count other at given
  rw [List.count_append, List.count_append] at given
  omega

theorem absorbs_playCard (program : Program) (orderly : table.Orderly)
    (seated : table.HasSeat seat) (card : Card) (target : Location) :
    Absorbs table [card] (table.playCard program seat card target) := by
  have opened := (rearranges_openPile table target).absorbs orderly
  have openedSeat := seated.of_seats opened.seats
  unfold playCard
  dsimp only
  split
  · rename_i top captured
    exact opened.after (absorbs_capture opened.orderly openedSeat (getLast?_of_captures captured) _)
  · have placed := absorbs_place opened.orderly openedSeat target card
    have placedSeat := openedSeat.of_seats placed.seats
    split
    · have entered := absorbs_enterBattle placed.orderly placedSeat card
      have settled := absorbs_settleBattle program entered.orderly
      exact opened.after (placed.trans (entered.trans settled))
    · exact opened.after placed

/-! ### Tricks -/

theorem absorbs_contribute (orderly : table.Orderly) (seated : table.HasSeat seat)
    (card : Card) (phase : TrickPhase) :
    Absorbs table [card] (table.contribute seat card phase) := by
  have placed := absorbs_place orderly seated .tableau card
  refine ⟨placed.tally, placed.seats, placed.total, { placed.orderly with trick := ?_ }⟩
  intro other member
  rcases List.mem_append.mp member with earlier | new
  · exact placed.orderly.trick other earlier
  · rw [List.mem_singleton.mp new]
    exact seated.of_seats placed.seats

/-- Whether a number is either the seat of a participant, or that of nobody. -/
def HasLeader (table : Table) (leader : Int) : Prop :=
  0 ≤ leader → table.HasSeat leader

theorem hasLeader_nobody : table.HasLeader nobody :=
  fun nonneg => absurd nonneg (by decide)

/-- The cards of the trick move to the discard pile. -/
theorem absorbs_takeTrick (program : Program) (orderly : table.Orderly) (phase : TrickPhase) :
    Absorbs table [] (table.takeTrick program phase).2 ∧
      (table.takeTrick program phase).2.HasLeader (table.takeTrick program phase).1 := by
  unfold takeTrick
  dsimp only
  split
  · exact ⟨.refl orderly, hasLeader_nobody⟩
  · rename_i winner wins
    have seated := orderly.trick winner (List.mem_of_getElem? wins)
    generalize (if program.hasPhase .bidding then 0 else program.cardPoints table.centre) = points
    let credit : Player → Player := fun player =>
      { player with tricks := player.tricks + 1, score := player.score + points }
    have credited : Rearranges table (table.modifyPlayer winner credit) :=
      rearranges_modifyPlayer fun _ => rfl
    have laid : Absorbs table [] { ((table.modifyPlayer winner credit).modifyDiscard
        (· ++ table.centre)).modifyTableau (fun _ => []) with trick := [] } := by
      refine ⟨fun card => ?_, congrArg Frame.seats credited.frame,
        congrArg Frame.totalCards credited.frame,
        { orderly.of_frame credited.frame with
          trick := fun _ member => absurd member List.not_mem_nil }⟩
      have given := credited.tally card
      have cleared := tally_clearTableau
        ((table.modifyPlayer winner credit).modifyDiscard (· ++ table.centre)) card
      change _ + (table.modifyPlayer winner credit).centre.count card = _ at cleared
      rw [centre_modifyPlayer] at cleared
      simp only [modifyDiscard, tally, List.count_append, List.count_nil] at given cleared ⊢
      omega
    exact ⟨laid, fun _ => seated.of_seats laid.seats⟩

theorem rearranges_scoreContracts (table : Table) (program : Program) :
    Rearranges table (table.scoreContracts program) := by
  unfold scoreContracts
  split
  · exact ⟨rfl, fun _ => rfl⟩
  · refine ⟨by simp [frame, seats], fun card => ?_⟩
    simp only [tally]
    rw [inHands_map]
    exact fun _ => rfl

theorem absorbs_settleTrick (program : Program) (orderly : table.Orderly) (phase : TrickPhase) :
    Absorbs table [] (table.settleTrick program phase).2 ∧
      (table.settleTrick program phase).2.HasLeader (table.settleTrick program phase).1 := by
  obtain ⟨taken, leader⟩ := absorbs_takeTrick program orderly phase
  have scored := (rearranges_scoreContracts _ program).absorbs taken.orderly
  unfold settleTrick
  split
  · dsimp only
    split
    · split
      · have whole := taken.trans scored
        exact ⟨⟨whole.tally, whole.seats, whole.total, whole.orderly.of_frame rfl⟩,
          fun nonneg => (leader nonneg).of_seats scored.seats⟩
      · exact ⟨⟨taken.tally, taken.seats, taken.total, taken.orderly.of_frame rfl⟩, leader⟩
    · exact ⟨taken, leader⟩
  · exact ⟨.refl orderly, hasLeader_nobody⟩

/-! ### Claims -/

theorem absorbs_layClaim (orderly : table.Orderly) (seated : table.HasSeat seat) (card : Card)
    (phase : ClaimPhase) : Absorbs table [card] (table.layClaim seat card phase) := by
  refine ⟨fun other => ?_, rfl, rfl, { orderly with claimant := fun _ => seated }⟩
  simp only [layClaim, tally, List.count_append]
  omega

theorem absorbs_closeClaim (orderly : table.Orderly) : Absorbs table [] table.closeClaim :=
  ⟨fun _ => rfl, rfl, rfl,
    { orderly with claimant := fun pending => absurd pending Bool.false_ne_true }⟩

/-- The discard pile moves to a hand. -/
theorem absorbs_takeDiscard (orderly : table.Orderly) (seated : table.HasSeat seat) :
    Absorbs table [] { table.modifyHand seat (· ++ table.discard) with discard := [] } := by
  have frame := frame_modifyHand table seat (· ++ table.discard)
  refine ⟨fun card => ?_, congrArg Frame.seats frame, congrArg Frame.totalCards frame,
    (orderly.of_frame frame).of_frame rfl⟩
  have given := tally_modifyHand seated (· ++ table.discard) card
  have kept : (table.modifyHand seat (· ++ table.discard)).discard = table.discard := by
    unfold modifyHand modifyPlayer
    split <;> rfl
  simp only [tally, List.count_append, List.count_nil, kept] at given ⊢
  omega

theorem absorbs_challengeClaim (orderly : table.Orderly) (seated : table.HasSeat seat)
    (pending : table.claim.pending = true) : Absorbs table [] (table.challengeClaim seat) := by
  have takerSeated : table.HasSeat (if table.claim.rank ≠ .rank table.claim.card.rank then
      table.claim.claimant else seat) := by
    split
    · exact orderly.claimant pending
    · exact seated
  have taken := absorbs_takeDiscard orderly takerSeated
  have closed := taken.trans (absorbs_closeClaim taken.orderly)
  unfold challengeClaim
  simpa using closed

/-! ### Betting and bidding -/

theorem rearranges_pay (table : Table) (seat amount : Int) :
    Rearranges table (table.pay seat amount) := by
  have paid : Rearranges table (table.modifyPlayer seat fun player =>
      { player with chips := player.chips - amount, bet := player.bet + amount }) :=
    rearranges_modifyPlayer fun _ => rfl
  exact ⟨paid.frame, paid.tally⟩

theorem rearranges_setBet (table : Table) (seat : Int) :
    Rearranges table (table.setBet seat) := by
  have hands : ∀ (players : List Player) (start : Nat),
      ((players.zipIdx start).map fun entry : Player × Nat =>
        if entry.2 = seat then entry.1 else { entry.1 with acted := false }).flatMap (·.hand) =
          players.flatMap (·.hand) := by
    intro players
    induction players with
    | nil => exact fun _ => rfl
    | cons player rest ih =>
        intro start
        rw [List.zipIdx_cons, List.map_cons, List.flatMap_cons, List.flatMap_cons, ih]
        split <;> rfl
  refine ⟨?_, fun card => ?_⟩
  · simp [setBet, reopen, frame, seats]
  · simp only [setBet, reopen, tally, inHands]
    rw [hands]

theorem rearranges_wager {phase : BettingPhase} {action : BettingAction}
    (wagered : table.wager? seat phase action = some next) : Rearranges table next := by
  have acts (before : Table) : Rearranges before (before.modifyPlayer seat Player.afterActing) :=
    rearranges_modifyPlayer fun _ => rfl
  unfold wager? at wagered
  cases action with
  | none | unknown => cases wagered
  | check =>
      cases wagered
      exact acts _
  | fold =>
      cases wagered
      exact rearranges_modifyPlayer fun _ => rfl
  | call =>
      cases wagered
      exact (rearranges_pay _ _ _).trans (acts _)
  | bet =>
      cases wagered
      exact (rearranges_pay _ _ _).trans ((rearranges_setBet _ _).trans (acts _))
  | raise =>
      cases wagered
      have paid := rearranges_pay table seat (table.owed seat + phase.minBet)
      have raised : Rearranges table { table.pay seat (table.owed seat + phase.minBet) with
          raises := (table.pay seat (table.owed seat + phase.minBet)).raises + 1 } :=
        ⟨paid.frame, paid.tally⟩
      exact raised.trans ((rearranges_setBet _ _).trans (acts _))
  | allIn =>
      cases wagered
      have paid := rearranges_pay table seat (table.player seat).chips
      have staked : Rearranges (table.pay seat (table.player seat).chips)
          ((table.pay seat (table.player seat).chips).modifyPlayer seat fun player =>
            { player with allIn := true }) :=
        rearranges_modifyPlayer fun _ => rfl
      refine paid.trans (staked.trans (.trans ?_ (acts _)))
      split
      · exact rearranges_setBet _ _
      · exact .refl _

theorem rearranges_award (table : Table) (seat amount : Int) :
    Rearranges table (award amount table seat) :=
  rearranges_modifyPlayer fun _ => rfl

theorem rearranges_payWinners (table : Table) (winners : List Int) :
    Rearranges table (table.payWinners winners) := by
  cases winners with
  | nil => exact .refl table
  | cons first rest =>
      have shared : Rearranges table ((first :: rest).foldl
          (award (table.pot.tdiv ((rest.length + 1 : Nat) : Int))) table) :=
        .foldl fun _ _ _ _ => rearranges_award _ _ _
      have paid := shared.trans (rearranges_award _ first
        (table.pot.tmod ((rest.length + 1 : Nat) : Int)))
      exact ⟨paid.frame, paid.tally⟩

theorem rearranges_showdown (table : Table) (program : Program) :
    Rearranges table (table.showdown program) := by
  have paid := rearranges_payWinners table (table.showdownWinners program)
  refine ⟨Eq.trans ?_ paid.frame, fun card => Eq.trans ?_ (paid.tally card)⟩
  · simp [showdown, frame, seats]
  · simp only [showdown, tally]
    rw [inHands_map]
    exact fun _ => rfl

theorem rearranges_settleBetting (table : Table) (program : Program) :
    Rearranges table (table.settleBetting program) := by
  unfold settleBetting
  split
  · exact rearranges_showdown table program
  · exact .refl table

theorem rearranges_announce (table : Table) (seat value : Int) :
    Rearranges table (table.announce seat value) :=
  rearranges_modifyPlayer fun _ => rfl

/-! ### Passes -/

theorem absorbs_passIn (program : Program) (orderly : table.Orderly) (phase : Phase) :
    Absorbs table [] (table.passIn program phase).2 ∧
      (table.passIn program phase).2.HasLeader (table.passIn program phase).1 := by
  have settled : Absorbs table []
      (if program.header.tableauMode = .war then table.settleBattle program else table) := by
    split
    · exact absorbs_settleBattle program orderly
    · exact .refl orderly
  unfold passIn
  dsimp only
  generalize (if program.header.tableauMode = .war then table.settleBattle program
    else table) = after at settled ⊢
  cases phase with
  | trick phase =>
      obtain ⟨taken, leader⟩ := absorbs_settleTrick program settled.orderly phase
      exact ⟨settled.trans taken, leader⟩
  | betting phase =>
      have betting := (rearranges_settleBetting _ program).absorbs settled.orderly
      exact ⟨settled.trans betting, hasLeader_nobody⟩
  | draw | play | discard | claim | bidding => exact ⟨settled, hasLeader_nobody⟩

end Croupier.Table
