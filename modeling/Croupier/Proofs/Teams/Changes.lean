/-
What the rules do to a table in a guise.

Nothing but the score of contracts looks behind a guise. Everything else that a move, a pass or a
deal does to the table in a guise leaves the table that it would have left without, in the same
guise.
-/

import Croupier.Proofs.Teams.Guise
import Croupier.Rules.Turn

namespace Croupier

/-- A change of a participant that leaves the guise as it is. -/
def KeepsGuise (change : Player → Player) : Prop :=
  ∀ (guise : Guise) (seat : Nat) (player : Player),
    change (guise.player seat player) = guise.player seat (change player)

/-- Points may be added before the head start or after it. -/
theorem keepsGuise_credit (hand : List Card → List Card) (tricks : Int → Int) (points : Int) :
    KeepsGuise fun player =>
      { player with
        hand := hand player.hand
        tricks := tricks player.tricks
        score := player.score + points } := by
  intro guise seat player
  unfold Guise.player
  dsimp only
  rw [Int.add_right_comm]

namespace Table

variable {guise : Guise} {table : Table} {program : Program} {seat actor : Int} {card : Card}

/-! ### Repetition -/

theorem repeat_guised {step : Table → Table}
    (each : ∀ table : Table, step (table.guised guise) = (step table).guised guise)
    (times : Nat) :
    times.repeat step (table.guised guise) = (times.repeat step table).guised guise := by
  induction times with
  | zero => rfl
  | succ times ih =>
      unfold Nat.repeat
      rw [ih, each]

theorem foldl_guised {α : Type} {step : Table → α → Table}
    (each : ∀ (table : Table) (item : α),
      step (table.guised guise) item = (step table item).guised guise) (items : List α) :
    items.foldl step (table.guised guise) = (items.foldl step table).guised guise := by
  induction items generalizing table with
  | nil => rfl
  | cons item rest ih => rw [List.foldl_cons, each, ih, List.foldl_cons]

/-! ### Participants -/

theorem modifyPlayer_guised {change : Player → Player} (keeps : KeepsGuise change) :
    (table.guised guise).modifyPlayer seat change =
      (table.modifyPlayer seat change).guised guise := by
  have players : (table.players.mapIdx guise.player).modify seat.toNat change =
      (table.players.modify seat.toNat change).mapIdx guise.player := by
    apply List.ext_getElem?
    intro place
    simp only [List.getElem?_modify, List.getElem?_mapIdx, Option.map_eq_map, Option.map_map]
    congr 1
    funext player
    simp only [Function.comp_apply]
    split
    · exact keeps guise place player
    · rfl
  unfold modifyPlayer
  split
  · rfl
  · unfold guised
    dsimp only
    rw [players]

theorem map_change_guised {change : Player → Player} (keeps : KeepsGuise change) :
    (table.guised guise).players.map change = (table.players.map change).mapIdx guise.player := by
  apply List.ext_getElem?
  intro place
  simp only [guised, List.getElem?_map, List.getElem?_mapIdx, Option.map_map]
  congr 1
  funext player
  exact keeps guise place player

/-- A change of all participants that depends on the seat. -/
theorem zipIdx_change_guised {change : Player × Nat → Player}
    (keeps : ∀ seat player, change (guise.player seat player, seat) =
      guise.player seat (change (player, seat))) :
    (table.guised guise).players.zipIdx.map change =
      (table.players.zipIdx.map change).mapIdx guise.player := by
  apply List.ext_getElem?
  intro place
  simp only [guised, List.getElem?_map, List.getElem?_mapIdx, List.getElem?_zipIdx,
    Option.map_map, Nat.zero_add]
  congr 1
  funext player
  exact keeps place player

theorem modifyHand_guised {change : List Card → List Card} :
    (table.guised guise).modifyHand seat change = (table.modifyHand seat change).guised guise :=
  modifyPlayer_guised fun _ _ _ => rfl

/-! ### Piles -/

theorem openTableau_guised :
    (table.guised guise).openTableau = table.openTableau.guised guise := by
  unfold openTableau guised
  dsimp only
  split <;> rfl

theorem openPile_guised {location : Location} :
    (table.guised guise).openPile location = (table.openPile location).guised guise := by
  cases location with
  | tableau => exact openTableau_guised
  | deck | hand | discard | opponentHand | unknown => rfl

theorem modifyPile_guised {location : Location} {change : List Card → List Card} :
    (table.guised guise).modifyPile seat location change =
      (table.modifyPile seat location change).guised guise := by
  unfold modifyPile
  cases location with
  | deck | discard | unknown => rfl
  | hand => exact modifyHand_guised
  | tableau =>
      dsimp only
      rw [openTableau_guised]
      rfl
  | opponentHand =>
      dsimp only
      rw [nextSeat_guised, modifyHand_guised]

theorem place_guised {location : Location} :
    (table.guised guise).place seat location card =
      (table.place seat location card).guised guise :=
  modifyPile_guised

theorem drawOne_guised {source : Location} :
    drawOne seat source (table.guised guise) = (drawOne seat source table).guised guise := by
  unfold drawOne
  rw [pileAt_guised]
  split
  · rfl
  · rw [modifyPile_guised, modifyHand_guised]

theorem draw_guised {source : Location} {count : Int} :
    (table.guised guise).draw seat source count = (table.draw seat source count).guised guise := by
  have counted : (table.guised guise).drawCount seat source count =
      table.drawCount seat source count := by
    cases source with
    | hand => rfl
    | deck | discard | tableau | opponentHand | unknown =>
        unfold drawCount
        dsimp only
        rw [pileAt_guised]
  unfold draw
  cases source with
  | hand => rfl
  | deck | discard | tableau | opponentHand | unknown =>
      dsimp only
      rw [counted, openPile_guised, repeat_guised fun _ => drawOne_guised]

/-! ### Effects -/

theorem forceDiscard_guised {count : Int} :
    (table.guised guise).forceDiscard seat count =
      (table.forceDiscard seat count).guised guise := by
  have each (table : Table) :
      discardOne seat (table.guised guise) = (discardOne seat table).guised guise := by
    unfold discardOne
    rw [hand_guised]
    split
    · rfl
    · rw [modifyHand_guised]
      rfl
  unfold forceDiscard
  rw [hand_guised, repeat_guised each]

theorem steal_guised {victim count : Int} :
    (table.guised guise).steal seat victim count =
      (table.steal seat victim count).guised guise := by
  have each (table : Table) :
      stealOne seat victim (table.guised guise) = (stealOne seat victim table).guised guise := by
    unfold stealOne
    rw [hand_guised]
    split
    · rfl
    · rw [modifyHand_guised, modifyHand_guised]
  unfold steal
  rw [hand_guised, repeat_guised each]

theorem swapHands_guised {other : Int} :
    (table.guised guise).swapHands seat other = (table.swapHands seat other).guised guise := by
  unfold swapHands
  dsimp only
  rw [hand_guised, hand_guised, modifyHand_guised, modifyHand_guised]

theorem againstFirst_guised {targets : List Int} {change : Table → Int → Table}
    (each : ∀ (table : Table) (target : Int),
      change (table.guised guise) target = (change table target).guised guise) :
    (table.guised guise).againstFirst actor targets change =
      (table.againstFirst actor targets change).guised guise := by
  unfold againstFirst
  split
  · rfl
  · split
    · rfl
    · exact each table _

theorem effectTargets_guised {target : EffectTarget} :
    (table.guised guise).effectTargets actor target =
      ((table.effectTargets actor target).1,
        (table.effectTargets actor target).2.guised guise) := by
  unfold effectTargets
  cases target with
  | next | previous =>
      dsimp only
      rw [seatAfter_guised]
      rfl
  | left | right =>
      dsimp only
      rw [seatAfter_guised]
  | allOpponents =>
      dsimp only
      rw [allSeats_guised]
  | randomOpponent =>
      dsimp only
      rw [seats_guised]
      rfl
  | self | unknown => rfl

theorem applyEffect_guised {effect : Effect} :
    (table.guised guise).applyEffect actor effect =
      (table.applyEffect actor effect).guised guise := by
  unfold applyEffect
  cases effect.kind with
  | wild | peek | unknown | reverse => rfl
  | skipNext | blockNext =>
      dsimp only
      unfold addSkips
      rw [seats_guised]
      rfl
  | extraTurn =>
      dsimp only
      rw [seats_guised]
      rfl
  | drawCards =>
      dsimp only
      rw [effectTargets_guised]
      exact foldl_guised (fun _ _ => draw_guised) _
  | forceDiscard =>
      dsimp only
      rw [effectTargets_guised]
      exact foldl_guised (fun _ _ => forceDiscard_guised) _
  | swapHands =>
      dsimp only
      rw [effectTargets_guised]
      exact againstFirst_guised fun _ _ => swapHands_guised
  | stealCard =>
      dsimp only
      rw [effectTargets_guised]
      exact againstFirst_guised fun _ _ => steal_guised

theorem triggerEffect_guised :
    (table.guised guise).triggerEffect program actor card =
      (table.triggerEffect program actor card).guised guise := by
  unfold triggerEffect
  split
  · exact applyEffect_guised
  · rfl

/-! ### Battles and tricks -/

theorem enterBattle_guised :
    (table.guised guise).enterBattle seat card = (table.enterBattle seat card).guised guise := by
  unfold enterBattle guised
  dsimp only
  split <;> rfl

theorem allContributed_guised {contributors : List Int} :
    (table.guised guise).allContributed contributors = table.allContributed contributors := by
  unfold allContributed
  simp only [allSeats_guised, hand_guised]

theorem takeBattle_guised :
    (table.guised guise).takeBattle program =
      ((table.takeBattle program).1, (table.takeBattle program).2.guised guise) := by
  have winner : (table.guised guise).battleWinner? program = table.battleWinner? program := rfl
  have centre : (table.guised guise).centre = table.centre := rfl
  have credited (seat : Int) (cards : List Card) :
      ((table.guised guise).modifyPlayer seat fun player =>
        { player with
          hand := cards ++ player.hand
          score := player.score + program.cardPoints cards }) =
        (table.modifyPlayer seat fun player =>
          { player with
            hand := cards ++ player.hand
            score := player.score + program.cardPoints cards }).guised guise :=
    modifyPlayer_guised (keepsGuise_credit (cards ++ ·) id _)
  unfold takeBattle
  rw [winner]
  split
  · rfl
  · dsimp only
    rw [centre, credited]
    rfl

theorem settleBattle_guised :
    (table.guised guise).settleBattle program = (table.settleBattle program).guised guise := by
  have complete : (table.guised guise).battleComplete = table.battleComplete := by
    unfold battleComplete
    rw [allContributed_guised]
    rfl
  unfold settleBattle
  rw [complete, takeBattle_guised]
  split <;> rfl

theorem playCard_guised {target : Location} :
    (table.guised guise).playCard program seat card target =
      (table.playCard program seat card target).guised guise := by
  have credited (table : Table) (cards : List Card) :
      ((table.guised guise).modifyPlayer seat fun player =>
        { player with
          hand := player.hand ++ cards
          score := player.score + program.cardPoints cards }) =
        (table.modifyPlayer seat fun player =>
          { player with
            hand := player.hand ++ cards
            score := player.score + program.cardPoints cards }).guised guise :=
    modifyPlayer_guised (keepsGuise_credit (· ++ cards) id _)
  unfold playCard
  dsimp only
  rw [openPile_guised, pileAt_guised]
  split
  · rw [modifyPile_guised, credited]
  · rw [place_guised]
    split
    · rw [enterBattle_guised, settleBattle_guised]
    · rfl

theorem contribute_guised {phase : TrickPhase} :
    (table.guised guise).contribute seat card phase =
      (table.contribute seat card phase).guised guise := by
  unfold contribute
  rw [place_guised]
  rfl

theorem trickComplete_guised : (table.guised guise).trickComplete = table.trickComplete := by
  unfold trickComplete
  rw [allContributed_guised]
  rfl

theorem takeTrick_guised {phase : TrickPhase} :
    (table.guised guise).takeTrick program phase =
      ((table.takeTrick program phase).1, (table.takeTrick program phase).2.guised guise) := by
  have trick : (table.guised guise).trick = table.trick := rfl
  have centre : (table.guised guise).centre = table.centre := rfl
  have credited (seat points : Int) :
      ((table.guised guise).modifyPlayer seat fun player =>
        { player with
          tricks := player.tricks + 1
          score := player.score + points }) =
        (table.modifyPlayer seat fun player =>
          { player with
            tricks := player.tricks + 1
            score := player.score + points }).guised guise :=
    modifyPlayer_guised (keepsGuise_credit id (· + 1) _)
  unfold takeTrick
  dsimp only
  rw [trick, centre]
  split
  · rfl
  · rw [credited]
    rfl

/-! ### Claims and bids -/

theorem challengeClaim_guised :
    (table.guised guise).challengeClaim seat = (table.challengeClaim seat).guised guise := by
  unfold challengeClaim
  dsimp only
  have taken (taker : Int) (cards : List Card) :
      (table.guised guise).modifyHand taker (· ++ cards) =
        (table.modifyHand taker (· ++ cards)).guised guise := modifyHand_guised
  have claim : (table.guised guise).claim = table.claim := rfl
  have discard : (table.guised guise).discard = table.discard := rfl
  rw [claim, discard, taken]
  rfl

theorem announce_guised {value : Int} :
    (table.guised guise).announce seat value = (table.announce seat value).guised guise :=
  modifyPlayer_guised fun _ _ _ => rfl

/-! ### Betting -/

theorem pay_guised {amount : Int} :
    (table.guised guise).pay seat amount = (table.pay seat amount).guised guise := by
  unfold pay
  rw [modifyPlayer_guised fun _ _ _ => rfl]
  rfl

theorem setBet_guised : (table.guised guise).setBet seat = (table.setBet seat).guised guise := by
  have reopened (table : Table) :
      (table.guised guise).reopen seat = (table.reopen seat).guised guise := by
    unfold reopen
    rw [zipIdx_change_guised]
    · rfl
    · intro place player
      dsimp only
      split <;> rfl
  unfold setBet
  rw [bet_guised]
  exact reopened { table with bet := (table.player seat).bet }

theorem wager?_guised {phase : BettingPhase} {action : BettingAction} :
    (table.guised guise).wager? seat phase action =
      (table.wager? seat phase action).map (·.guised guise) := by
  have acts (table : Table) : (table.guised guise).modifyPlayer seat Player.afterActing =
      (table.modifyPlayer seat Player.afterActing).guised guise :=
    modifyPlayer_guised fun _ _ _ => rfl
  unfold wager?
  cases action with
  | none | unknown => rfl
  | check =>
      dsimp only
      rw [acts]
      rfl
  | fold =>
      dsimp only
      rw [modifyPlayer_guised fun _ _ _ => rfl]
      rfl
  | call =>
      dsimp only
      rw [owed_guised, pay_guised, acts]
      rfl
  | bet =>
      dsimp only
      rw [pay_guised, setBet_guised, acts]
      rfl
  | raise =>
      have raised (table : Table) :
          { table.guised guise with raises := (table.guised guise).raises + 1 } =
            { table with raises := table.raises + 1 }.guised guise := rfl
      dsimp only
      rw [owed_guised, pay_guised, raised, setBet_guised, acts]
      rfl
  | allIn =>
      have gone (table : Table) :
          ((table.guised guise).modifyPlayer seat fun player => { player with allIn := true }) =
            (table.modifyPlayer seat fun player => { player with allIn := true }).guised guise :=
        modifyPlayer_guised fun _ _ _ => rfl
      have topped (table : Table) :
          (if ((table.guised guise).player seat).bet > (table.guised guise).bet then
              (table.guised guise).setBet seat
            else table.guised guise) =
            (if (table.player seat).bet > table.bet then table.setBet seat
              else table).guised guise := by
        rw [bet_guised, setBet_guised]
        exact (apply_ite (fun table : Table => table.guised guise) _ _ _).symm
      dsimp only
      rw [chips_guised, pay_guised, gone, topped, acts]
      rfl

theorem bettingComplete_guised :
    (table.guised guise).bettingComplete = table.bettingComplete := by
  unfold bettingComplete
  rw [countP_players_guised fun _ _ _ => rfl, any_players_guised fun _ _ _ => rfl]
  rfl

theorem showdownWinners_guised :
    (table.guised guise).showdownWinners program = table.showdownWinners program := by
  have unfolded : (table.guised guise).unfolded = table.unfolded := by
    unfold Table.unfolded
    simp only [allSeats_guised, folded_guised]
  have best (candidates : List Int) :
      (table.guised guise).bestHands program candidates = table.bestHands program candidates := by
    unfold bestHands
    simp only [hand_guised]
  unfold showdownWinners
  rw [unfolded]
  dsimp only
  rw [best]

theorem award_guised {amount : Int} :
    award amount (table.guised guise) seat = (award amount table seat).guised guise :=
  modifyPlayer_guised fun _ _ _ => rfl

theorem payWinners_guised {winners : List Int} :
    (table.guised guise).payWinners winners = (table.payWinners winners).guised guise := by
  unfold payWinners
  cases winners with
  | nil => rfl
  | cons first rest =>
      have pot : (table.guised guise).pot = table.pot := rfl
      dsimp only
      rw [pot, foldl_guised fun _ _ => award_guised, award_guised]
      rfl

theorem showdown_guised :
    (table.guised guise).showdown program = (table.showdown program).guised guise := by
  unfold showdown
  dsimp only
  rw [showdownWinners_guised, payWinners_guised, map_change_guised fun _ _ _ => rfl]
  rfl

theorem settleBetting_guised :
    (table.guised guise).settleBetting program = (table.settleBetting program).guised guise := by
  unfold settleBetting
  rw [bettingComplete_guised, showdown_guised]
  exact (apply_ite (fun table : Table => table.guised guise) _ _ _).symm

/-! ### Moves -/

theorem without_guised {place : Nat} :
    (table.guised guise).without seat place = (table.without seat place).guised guise :=
  modifyHand_guised

theorem played_guised {place : Nat} {target : Location} :
    (((table.guised guise).without seat place).playCard program seat card target).triggerEffect
        program seat card =
      (((table.without seat place).playCard program seat card target).triggerEffect program seat
        card).guised guise := by
  rw [without_guised, playCard_guised, triggerEffect_guised]

theorem discarded_guised {place : Nat} {target : Location} :
    ((table.guised guise).without seat place).place seat target card =
      ((table.without seat place).place seat target card).guised guise := by
  rw [without_guised, place_guised]

theorem contributed_guised {place : Nat} {phase : TrickPhase} :
    (((table.guised guise).without seat place).contribute seat card phase).triggerEffect program
        seat card =
      (((table.without seat place).contribute seat card phase).triggerEffect program seat
        card).guised guise := by
  rw [without_guised, contribute_guised, triggerEffect_guised]

theorem wagered_guised {phase : BettingPhase} {action : BettingAction} :
    ((table.guised guise).wager? seat phase action).getD (table.guised guise) =
      ((table.wager? seat phase action).getD table).guised guise := by
  rw [wager?_guised, Option.getD_map]

theorem claimed_guised {place : Nat} {phase : ClaimPhase} :
    ((table.guised guise).without seat place).layClaim seat card phase =
      ((table.without seat place).layClaim seat card phase).guised guise := by
  rw [without_guised]
  rfl

/-! ### The turn order -/

theorem endTurn_guised {leader : Int} :
    (table.guised guise).endTurn leader = (table.endTurn leader).guised guise := by
  have advanced (table : Table) : (table.guised guise).advance = table.advance.guised guise := by
    have each (table : Table) :
        advanceOne (table.guised guise) = (advanceOne table).guised guise := by
      unfold advanceOne
      rw [nextSeat_guised]
      rfl
    unfold advance
    rw [repeat_guised each]
    rfl
  unfold endTurn
  dsimp only
  split
  · exact advanced { table with phase := 0, step := 0, turn := table.turn + 1 }
  · rfl

theorem completePhase_guised {leader : Int} :
    (table.guised guise).completePhase program leader =
      (table.completePhase program leader).guised guise := by
  have ended := @endTurn_guised guise { table with phase := table.phase + 1, step := 0 } leader
  unfold completePhase
  dsimp only
  have phase : (table.guised guise).phase = table.phase := rfl
  rw [phase]
  split
  · exact ended
  · rfl

theorem afterMove_guised {choice : Choice} {leader : Int} :
    (table.guised guise).afterMove program choice leader =
      (table.afterMove program choice leader).guised guise := by
  have done (table : Table) :
      (table.guised guise).cardPhaseDone program = table.cardPhaseDone program := by
    unfold cardPhaseDone
    rw [hand_guised]
    rfl
  unfold afterMove
  cases choice with
  | draw => exact completePhase_guised
  | play | discard =>
      have stepped := done { table with step := table.step + 1 }
      have completed := @completePhase_guised guise { table with step := table.step + 1 } program
        leader
      change (if ({ table with step := table.step + 1 }.guised guise).cardPhaseDone program then
        _ else _) = _
      rw [stepped]
      dsimp only
      split
      · exact completed
      · rfl
  | challenge | accept | pass | unknown => rfl
  | trick | bet | claim | bid => exact endTurn_guised

theorem afterPass_guised {phase : Phase} {leader : Int} :
    (table.guised guise).afterPass program phase leader =
      (table.afterPass program phase leader).guised guise := by
  unfold afterPass
  cases phase with
  | trick | betting | claim => exact endTurn_guised
  | draw | play | discard | bidding => exact completePhase_guised

/-! ### The next hand -/

theorem gathered_guised : (table.guised guise).gathered = table.gathered.guised guise := by
  have cards : (table.guised guise).cards = table.cards := by
    unfold Table.cards
    rw [List.flatMap_def, List.flatMap_def, map_players_guised fun _ _ _ => rfl]
    rfl
  unfold gathered
  rw [cards, map_change_guised fun _ _ _ => rfl]
  rfl

theorem deal_guised : (table.guised guise).deal program = (table.deal program).guised guise := by
  have share : share program (table.guised guise) = share program table := by
    unfold Table.share
    rw [seats_guised]
    rfl
  unfold deal
  dsimp only
  rw [share, seats_guised, zipIdx_change_guised fun _ _ => rfl]
  rfl

theorem nextHand_guised :
    (table.guised guise).nextHand program = (table.nextHand program).guised guise := by
  have dealt : ((table.guised guise).gathered.shuffleDeck).deal program =
      ((table.gathered.shuffleDeck).deal program).guised guise := by
    rw [gathered_guised]
    exact @deal_guised guise table.gathered.shuffleDeck program
  unfold nextHand
  dsimp only
  rw [dealt, seats_guised]
  rfl

end Table

end Croupier
