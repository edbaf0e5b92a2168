/-
What a change adds to a score, now or later.

What a trick or a battle is worth lies in the middle of the table, where every card counts for those
who may take it. So a score moves no further than the cards in the middle, the overtricks so far and
the contract of the hand allow, and it is enough to know how many cards a change puts there. A trick
or a battle that is taken changes nothing about it, save for the overtrick.
-/

import Croupier.Proofs.Play.Bidding
import Croupier.Proofs.Teams.Solo
import Croupier.Proofs.Tricks.Worth

namespace Croupier

namespace Player

/-- Score, tricks and bid of a participant. -/
def marks (player : Player) : Int × Int × Int :=
  (player.score, player.tricks, player.bid)

/-- A score that is no further from nothing than before, save so many points, no more than so many
tricks, and no bid beyond the cards of a deck. -/
structure Gains (points tricks : Int) (before after : Player) : Prop where
  score : (after.score.natAbs : Int) ≤ before.score.natAbs + points
  taken : (after.tricks.natAbs : Int) ≤ before.tricks.natAbs + tricks
  bid : before.bid ≤ standardDeckSize → after.bid ≤ standardDeckSize

theorem gains_of_marks {before after : Player} (same : after.marks = before.marks) :
    Gains 0 0 before after := by
  have score : after.score = before.score := congrArg Prod.fst same
  have taken : after.tricks = before.tricks := congrArg (Prod.fst ∘ Prod.snd) same
  have bid : after.bid = before.bid := congrArg (Prod.snd ∘ Prod.snd) same
  constructor
  · rw [score, Int.add_zero]
  · rw [taken, Int.add_zero]
  · rw [bid]
    exact id

/-- Points for cards, and a trick or none. -/
theorem gains_of_credit {points gained won : Int} {before after : Player}
    (score : after.score = before.score + gained) (taken : after.tricks = before.tricks + won)
    (bid : after.bid = before.bid) (worth : (gained.natAbs : Int) ≤ points) (nonneg : 0 ≤ won) :
    Gains points won before after := by
  constructor
  · rw [score]
    omega
  · rw [taken]
    omega
  · rw [bid]
    exact id

theorem Gains.mono {points tricks more further : Int} {before after : Player}
    (gains : Gains points tricks before after) (most : points ≤ more) (few : tricks ≤ further) :
    Gains more further before after where
  score := Int.le_trans gains.score (by omega)
  taken := Int.le_trans gains.taken (by omega)
  bid := gains.bid

end Player

/-- What everyone has scored, taken and bid, the cards in the middle, and how far the game is. -/
structure Reckoning where
  marks : List (Int × Int × Int)
  centre : List Card
  handOver : Bool
  counters : Int × Int

namespace Table

variable {table next last : Table} {seat : Int} {program : Program} {change : Player → Player}
  {points tricks : Int}

/-! ### Participants -/

theorem player_of_not_hasSeat (empty : ¬table.HasSeat seat) : table.player seat = {} := by
  unfold HasSeat seats at empty
  unfold player
  split
  · rfl
  · rw [List.getD_eq_default _ _ (by omega)]

/-- A change of one participant is that change or none, as seen from any seat. -/
theorem player_modifyPlayer_cases (table : Table) (seat : Int) (change : Player → Player)
    (other : Int) :
    (table.modifyPlayer seat change).player other = change (table.player other) ∨
      (table.modifyPlayer seat change).player other = table.player other := by
  by_cases seated : table.HasSeat other
  · by_cases same : other = seat
    · subst same
      exact .inl (player_modifyPlayer seated change)
    · exact .inr (player_modifyPlayer_of_ne seated same change)
  · have still : ¬(table.modifyPlayer seat change).HasSeat other := fun there =>
      seated (there.of_seats (congrArg Frame.seats (frame_modifyPlayer table seat change)).symm)
    exact .inr ((player_of_not_hasSeat still).trans (player_of_not_hasSeat seated).symm)

theorem gains_modifyPlayer (gains : ∀ player, Player.Gains points tricks player (change player))
    (nonneg : 0 ≤ points ∧ 0 ≤ tricks)
    (changed : next.players = (table.modifyPlayer seat change).players) (other : Int) :
    Player.Gains points tricks (table.player other) (next.player other) := by
  have shown : next.player other = (table.modifyPlayer seat change).player other := by
    unfold player
    rw [changed]
  rw [shown]
  rcases table.player_modifyPlayer_cases seat change other with changed | same
  · rw [changed]
    exact gains _
  · rw [same]
    exact (Player.gains_of_marks rfl).mono nonneg.1 nonneg.2

theorem handOver_modifyPlayer (table : Table) (seat : Int) (change : Player → Player) :
    (table.modifyPlayer seat change).handOver = table.handOver := by
  unfold modifyPlayer
  split <;> rfl

/-- So is a change of all participants. -/
theorem player_map_cases (changed : next.players = table.players.map change) (seat : Int) :
    next.player seat = change (table.player seat) ∨ next.player seat = table.player seat := by
  unfold player
  split
  · exact .inr rfl
  · rw [changed, List.getD_eq_getElem?_getD, List.getD_eq_getElem?_getD, List.getElem?_map]
    cases table.players[seat.toNat]? with
    | none => exact .inr rfl
    | some player => exact .inl rfl

/-! ### What may still be scored -/

/-- How many actions were counted, and how many hands were dealt after the first one. -/
def counters (table : Table) : Int × Int :=
  (table.actions, table.handNumber)

theorem stakeBlind_counters : StakeBlind counters :=
  fun _ _ _ _ _ _ _ _ _ => rfl

/-- How far the score of a participant can be from nothing once the cards in the middle are taken
and the overtricks counted. A hand that is over is counted as one whose contract was scored. -/
def potential (table : Table) (program : Program) (seat : Int) : Int :=
  (table.player seat).score.natAbs + program.mostCardPoints * table.centre.length
    + if table.handOver then
        -(program.mostContract : Int)
      else
        program.overtrickWorth * (table.player seat).tricks.natAbs

theorem score_le_potential (table : Table) (program : Program) (seat : Int) :
    ((table.player seat).score.natAbs : Int) ≤ table.potential program seat +
      if table.handOver then (program.mostContract : Int) else 0 := by
  have laid : (0 : Int) ≤ program.mostCardPoints * table.centre.length :=
    Int.mul_nonneg (Int.natCast_nonneg _) (Int.natCast_nonneg _)
  have hopes : (0 : Int) ≤ program.overtrickWorth * (table.player seat).tricks.natAbs :=
    Int.mul_nonneg (Int.natCast_nonneg _) (Int.natCast_nonneg _)
  unfold potential
  split <;> omega

/-- Nobody has bid more tricks than a deck has cards. -/
def BidsFit (table : Table) : Prop :=
  ∀ seat, (table.player seat).bid ≤ standardDeckSize

/-- Nobody can score more points than before, nor lose more, save so many of them, and nobody has
taken more than so many tricks. -/
structure Earns (program : Program) (points tricks : Int) (table next : Table) : Prop where
  potential : ∀ seat, next.potential program seat ≤ table.potential program seat + points
  taken : ∀ seat, ((next.player seat).tricks.natAbs : Int) ≤
    (table.player seat).tricks.natAbs + tricks
  bids : table.BidsFit → next.BidsFit
  counters : next.counters = table.counters

namespace Earns

theorem trans {more further : Int} (first : Earns program points tricks table next)
    (second : Earns program more further next last) :
    Earns program (points + more) (tricks + further) table last where
  potential seat := by
    have earlier := first.potential seat
    have later := second.potential seat
    omega
  taken seat := by
    have earlier := first.taken seat
    have later := second.taken seat
    omega
  bids fit := second.bids (first.bids fit)
  counters := second.counters.trans first.counters

theorem mono {more further : Int} (earns : Earns program points tricks table next)
    (most : points ≤ more) (few : tricks ≤ further) : Earns program more further table next where
  potential seat := Int.le_trans (earns.potential seat) (by omega)
  taken seat := Int.le_trans (earns.taken seat) (by omega)
  bids := earns.bids
  counters := earns.counters

/-- What the participants gain, with an overtrick for each trick, and what the cards in the middle
gain. The end of a hand takes the hopes of overtricks away. -/
theorem of_players {cards : Int}
    (gains : ∀ seat, Player.Gains points tricks (table.player seat) (next.player seat))
    (nonneg : 0 ≤ tricks)
    (middle : (program.mostCardPoints : Int) * next.centre.length ≤
      program.mostCardPoints * table.centre.length + cards)
    (ended : table.handOver = true → next.handOver = true)
    (counters : next.counters = table.counters) :
    Earns program (points + program.overtrickWorth * tricks + cards) tricks table next := by
  constructor
  · intro seat
    have scored := (gains seat).score
    have further : (0 : Int) ≤ program.overtrickWorth * tricks := by positivity
    have hopes : (0 : Int) ≤ program.overtrickWorth * (table.player seat).tricks.natAbs := by
      positivity
    have taken : (program.overtrickWorth : Int) * (next.player seat).tricks.natAbs ≤
        program.overtrickWorth * (table.player seat).tricks.natAbs +
          program.overtrickWorth * tricks := by
      rw [← Int.mul_add]
      exact Int.mul_le_mul_of_nonneg_left (gains seat).taken (Int.natCast_nonneg _)
    unfold Table.potential
    cases before : table.handOver with
    | true =>
        rw [if_pos (ended before), if_pos rfl]
        omega
    | false =>
        rw [if_neg Bool.false_ne_true]
        split <;> omega
  · exact fun seat => (gains seat).taken
  · exact fun fit seat => (gains seat).bid (fit seat)
  · exact counters

/-- Where nobody scores, takes a trick or bids, only the cards in the middle count. -/
theorem of_marks {cards : Int}
    (same : next.players.map Player.marks = table.players.map Player.marks)
    (middle : (program.mostCardPoints : Int) * next.centre.length ≤
      program.mostCardPoints * table.centre.length + cards)
    (ended : table.handOver = true → next.handOver = true)
    (counters : next.counters = table.counters) : Earns program cards 0 table next := by
  have gains (seat : Int) : Player.Gains 0 0 (table.player seat) (next.player seat) :=
    Player.gains_of_marks (view_player_eq same seat)
  exact (of_players gains (Int.le_refl 0) middle ended counters).mono (by omega) (Int.le_refl 0)

theorem of_same (same : next.players.map Player.marks = table.players.map Player.marks)
    (centre : next.centre = table.centre) (ended : table.handOver = true → next.handOver = true)
    (counters : next.counters = table.counters) : Earns program 0 0 table next := by
  refine of_marks same ?_ ended counters
  rw [centre, Int.add_zero]

theorem refl (program : Program) (table : Table) : Earns program 0 0 table table :=
  of_same rfl rfl id rfl

theorem «repeat» {step : Table → Table} (each : ∀ table, Earns program 0 0 table (step table))
    (count : Nat) : Earns program 0 0 table (count.repeat step table) := by
  induction count with
  | zero => exact refl program table
  | succ count ih => exact ih.trans (each _)

/-- A change of one participant alone. -/
theorem modifyPlayer (gains : ∀ player, Player.Gains points 0 player (change player))
    (nonneg : 0 ≤ points) (table : Table) (seat : Int) :
    Earns program points 0 table (table.modifyPlayer seat change) := by
  have each (other : Int) : Player.Gains points 0 (table.player other)
      ((table.modifyPlayer seat change).player other) :=
    gains_modifyPlayer gains ⟨nonneg, Int.le_refl 0⟩ rfl other
  have middle : (program.mostCardPoints : Int) * (table.modifyPlayer seat change).centre.length ≤
      program.mostCardPoints * table.centre.length + 0 := by
    rw [centre_modifyPlayer, Int.add_zero]
  have ended : table.handOver = true → (table.modifyPlayer seat change).handOver = true := by
    rw [handOver_modifyPlayer]
    exact id
  exact (of_players each (Int.le_refl 0) middle ended
    (stakeBlind_counters.modifyPlayer table seat change)).mono (by omega) (Int.le_refl 0)

/-- Whoever takes the cards in the middle scores no more than they could be worth. -/
theorem of_taken {won : Int}
    (gains : ∀ player, Player.Gains (program.mostCardPoints * table.centre.length) won player
      (change player))
    (nonneg : 0 ≤ won) (changed : next.players = (table.modifyPlayer seat change).players)
    (cleared : next.centre = []) (handOver : next.handOver = table.handOver)
    (counters : next.counters = table.counters) :
    Earns program (program.overtrickWorth * won) won table next := by
  have worth : (0 : Int) ≤ program.mostCardPoints * table.centre.length := by positivity
  have middle : (program.mostCardPoints : Int) * next.centre.length ≤
      program.mostCardPoints * table.centre.length +
        -(program.mostCardPoints * table.centre.length) := by
    rw [cleared, Int.add_right_neg]
    exact (Int.mul_zero _).le
  exact (of_players (gains_modifyPlayer gains ⟨worth, nonneg⟩ changed) nonneg middle
    (fun before => handOver.trans before) counters).mono (by omega) (Int.le_refl won)

end Earns

/-! ### Cards on their way -/

/-- All that earnings depend on. -/
def reckoning (table : Table) : Reckoning where
  marks := table.players.map Player.marks
  centre := table.centre
  handOver := table.handOver
  counters := table.counters

theorem reckoning_modifyPlayer (same : ∀ player, (change player).marks = player.marks)
    (table : Table) (seat : Int) : (table.modifyPlayer seat change).reckoning = table.reckoning := by
  have apart : (table.modifyPlayer seat change).reckoning =
      { table.reckoning with
        marks := (table.modifyPlayer seat change).players.map Player.marks } := by
    unfold modifyPlayer
    split <;> rfl
  rw [apart, map_players_of_same same]
  rfl

theorem handBlind_reckoning : HandBlind reckoning where
  hand table seat _ := by
    apply reckoning_modifyPlayer
    exact fun _ => rfl
  deck _ _ := rfl
  discard _ _ := rfl
  generator _ _ := rfl

theorem orderBlind_reckoning : OrderBlind reckoning :=
  fun _ _ _ _ _ _ => rfl

theorem Earns.of_reckoning (same : next.reckoning = table.reckoning) :
    Earns program 0 0 table next := by
  have handOver : next.handOver = table.handOver := congrArg Reckoning.handOver same
  exact .of_same (congrArg Reckoning.marks same) (congrArg Reckoning.centre same)
    (fun before => handOver.trans before) (congrArg Reckoning.counters same)

theorem reckoning_openTableau (table : Table) : table.openTableau.reckoning = table.reckoning := by
  have apart : table.openTableau.reckoning =
      { table.reckoning with centre := table.openTableau.centre } := by
    unfold openTableau
    split <;> rfl
  rw [apart, centre_openTableau]
  rfl

theorem reckoning_openPile (table : Table) (location : Location) :
    (table.openPile location).reckoning = table.reckoning := by
  cases location with
  | tableau => exact reckoning_openTableau table
  | deck | hand | discard | opponentHand | unknown => rfl

theorem earns_modifyPile {change : List Card → List Card} {count : Int}
    (longer : ∀ cards, ((change cards).length : Int) ≤ cards.length + count) (nonneg : 0 ≤ count)
    (table : Table) (seat : Int) (location : Location) :
    Earns program (program.mostCardPoints * count) 0 table
      (table.modifyPile seat location change) := by
  by_cases there : location = .tableau
  · subst there
    have opened : Earns program 0 0 table table.openTableau := .of_reckoning (reckoning_openTableau _)
    have laid : (table.openTableau.modifyTableau change).centre = change table.openTableau.centre :=
      centre_modifyTableau (openTableau_ne_nil table) change
    have changed : Earns program (program.mostCardPoints * count) 0 table.openTableau
        (table.openTableau.modifyTableau change) := by
      refine .of_marks rfl ?_ id rfl
      rw [laid, ← Int.mul_add]
      exact Int.mul_le_mul_of_nonneg_left (longer _) (Int.natCast_nonneg _)
    exact (opened.trans changed).mono (Int.zero_add _).le (Int.le_refl 0)
  · have elsewhere := handBlind_reckoning.modifyPile table seat there change
    exact (Earns.of_reckoning elsewhere).mono (Int.mul_nonneg (Int.natCast_nonneg _) nonneg)
      (Int.le_refl 0)

theorem earns_place (table : Table) (seat : Int) (location : Location) (card : Card) :
    Earns program program.mostCardPoints 0 table (table.place seat location card) := by
  have placed := @earns_modifyPile program (· ++ [card]) 1
    (fun cards => by rw [List.length_append, List.length_singleton, Int.natCast_add]; rfl)
    Int.one_nonneg table seat location
  rwa [Int.mul_one] at placed

theorem earns_uncover (table : Table) (seat : Int) (location : Location) :
    Earns program 0 0 table (table.modifyPile seat location List.dropLast) := by
  have uncovered := @earns_modifyPile program List.dropLast 0
    (fun cards => by rw [List.length_dropLast]; omega) (Int.le_refl 0) table seat location
  rwa [Int.mul_zero] at uncovered

theorem earns_draw (table : Table) (seat : Int) (source : Location) (count : Int) :
    Earns program 0 0 table (table.draw seat source count) := by
  have each (before : Table) : Earns program 0 0 before (drawOne seat source before) := by
    unfold drawOne
    split
    · exact .refl program before
    · have drawn := handBlind_reckoning.hand (before.modifyPile seat source List.dropLast) seat
      exact (earns_uncover before seat source).trans (.of_reckoning (drawn _))
  have drawn (times : Nat) :
      Earns program 0 0 table (times.repeat (drawOne seat source) (table.openPile source)) :=
    (Earns.of_reckoning (reckoning_openPile table source)).trans (.repeat each times)
  cases source with
  | hand => exact .refl program table
  | deck | discard | tableau | opponentHand | unknown => exact drawn _

/-! ### Captures, battles and tricks -/

theorem earns_takeBattle (table : Table) (program : Program) :
    Earns program 0 0 table (table.takeBattle program).2 := by
  have taken : Earns program (program.overtrickWorth * 0) 0 table (table.takeBattle program).2 := by
    unfold takeBattle
    split
    · exact (Earns.refl program table).mono (by omega) (Int.le_refl 0)
    · rename_i winner _
      refine .of_taken (fun player => ?_) (Int.le_refl 0) rfl (centre_clearTableau _) ?_ ?_
      · exact Player.gains_of_credit rfl (Int.add_zero player.tricks).symm rfl
          (program.natAbs_cardPoints_le _) (Int.le_refl 0)
      · exact handOver_modifyPlayer table winner _
      · exact stakeBlind_counters.modifyPlayer table winner _
  exact taken.mono (by omega) (Int.le_refl 0)

theorem earns_settleBattle (table : Table) (program : Program) :
    Earns program 0 0 table (table.settleBattle program) := by
  unfold settleBattle
  split
  · exact earns_takeBattle table program
  · exact .refl program table

theorem earns_playCard (table : Table) (program : Program) (seat : Int) (card : Card)
    (target : Location) :
    Earns program (2 * program.mostCardPoints) 0 table
      (table.playCard program seat card target) := by
  have opened : Earns program 0 0 table (table.openPile target) :=
    .of_reckoning (reckoning_openPile table target)
  unfold playCard
  dsimp only
  split
  · rename_i top _
    have uncovered := opened.trans (earns_uncover _ seat target)
    have worth := program.natAbs_cardPoints_le [top, card]
    have two : (program.mostCardPoints : Int) * ([top, card].length : Nat) =
        2 * program.mostCardPoints := Int.mul_comm _ _
    have gains (player : Player) : Player.Gains (2 * program.mostCardPoints) 0 player
        { player with
          hand := player.hand ++ [top, card]
          score := player.score + program.cardPoints [top, card] } :=
      Player.gains_of_credit rfl (Int.add_zero player.tricks).symm rfl (two ▸ worth)
        (Int.le_refl 0)
    exact (uncovered.trans (.modifyPlayer gains (by omega) _ seat)).mono (by omega) (by omega)
  · have placed := opened.trans (earns_place _ seat target card)
    split
    · have entered (before : Table) : Earns program 0 0 before (before.enterBattle seat card) := by
        apply Earns.of_reckoning
        unfold enterBattle
        split <;> rfl
      exact (placed.trans ((entered _).trans (earns_settleBattle _ program))).mono (by omega)
        (by omega)
    · exact placed.mono (by omega) (by omega)

theorem handOver_takeTrick (table : Table) (program : Program) (phase : TrickPhase) :
    (table.takeTrick program phase).2.handOver = table.handOver := by
  unfold takeTrick
  dsimp only
  split
  · rfl
  · exact handOver_modifyPlayer table _ _

theorem earns_takeTrick (table : Table) (program : Program) (phase : TrickPhase) :
    Earns program program.overtrickWorth 1 table (table.takeTrick program phase).2 := by
  have worth : ((if program.hasPhase .bidding then 0 else
      program.cardPoints table.centre).natAbs : Int) ≤
        program.mostCardPoints * table.centre.length := by
    split
    · exact Int.natCast_nonneg _
    · exact program.natAbs_cardPoints_le _
  have taken : Earns program (program.overtrickWorth * 1) 1 table
      (table.takeTrick program phase).2 := by
    unfold takeTrick
    dsimp only
    split
    · exact (Earns.refl program table).mono (by omega) Int.one_nonneg
    · rename_i winner _
      refine .of_taken (fun player => ?_) Int.one_nonneg rfl (centre_clearTableau _) ?_ ?_
      · exact Player.gains_of_credit rfl rfl rfl worth Int.one_nonneg
      · exact handOver_modifyPlayer table winner _
      · exact stakeBlind_counters.modifyPlayer table winner _
  exact taken.mono (by omega) (Int.le_refl 1)

/-- Contracts are scored with the end of a hand, and are not to be scored again. -/
theorem Earns.of_contracts (alone : program.scoresAlone = true) (fit : table.BidsFit)
    (scored : next.players = table.players.map (Player.afterContract program))
    (centre : next.centre = table.centre) (going : table.handOver = false)
    (ended : next.handOver = true) (counters : next.counters = table.counters) :
    Earns program 0 0 table next := by
  have contract : program.mostContract = program.contractValues.mostPoints := if_pos alone
  have overtrick : program.overtrickWorth = program.contractValues.overtrickPoints.natAbs :=
    if_pos alone
  constructor
  · intro seat
    have hopes : (0 : Int) ≤ program.overtrickWorth * (table.player seat).tricks.natAbs := by
      positivity
    unfold Table.potential
    rw [centre, going, ended, if_pos rfl, if_neg Bool.false_ne_true]
    rcases player_map_cases scored seat with changed | same
    · have points := program.contractValues.natAbs_points_le (fit seat) (table.player seat).bags
      rw [← contract, ← overtrick] at points
      have gained : (((table.player seat).ownContract program).points.natAbs : Int) ≤
          program.mostContract + program.overtrickWorth * (table.player seat).tricks.natAbs := by
        exact_mod_cast points
      have score : (next.player seat).score =
          (table.player seat).score + ((table.player seat).ownContract program).points :=
        congrArg Player.score changed
      rw [score]
      omega
    · rw [same]
      omega
  · intro seat
    rcases player_map_cases scored seat with changed | same
    · rw [changed, Int.add_zero]
      rfl
    · rw [same, Int.add_zero]
  · intro fit seat
    rcases player_map_cases scored seat with changed | same
    · rw [changed]
      exact fit seat
    · rw [same]
      exact fit seat
  · exact counters

theorem earns_scoreContracts (bidding : program.hasPhase .bidding = true)
    (going : table.handOver = false) (fit : table.BidsFit) :
    Earns program 0 0 table { table.scoreContracts program with handOver := true } := by
  cases team : program.header.teamMode with
  | true =>
      unfold scoreContracts
      rw [if_pos team]
      exact .of_same rfl rfl (fun _ => rfl) rfl
  | false =>
      have alone : program.scoresAlone = true := by
        unfold Program.scoresAlone
        rw [bidding, team]
        rfl
      rw [scoreContracts_of_single team]
      exact .of_contracts alone fit rfl rfl going rfl rfl

theorem earns_settleTrick (going : table.handOver = false) (fit : table.BidsFit)
    (program : Program) (phase : TrickPhase) :
    Earns program program.overtrickWorth 1 table (table.settleTrick program phase).2 := by
  unfold settleTrick
  split
  · have taken := earns_takeTrick table program phase
    have still := (handOver_takeTrick table program phase).trans going
    dsimp only
    split
    · split
      · rename_i bidding
        exact (taken.trans (earns_scoreContracts bidding still (taken.bids fit))).mono (by omega)
          (Int.le_refl 1)
      · have ended : Earns program 0 0 (table.takeTrick program phase).2
            { (table.takeTrick program phase).2 with handOver := true } :=
          .of_same rfl rfl (fun _ => rfl) rfl
        exact (taken.trans ended).mono (by omega) (Int.le_refl 1)
    · exact taken
  · exact (Earns.refl program table).mono (Int.natCast_nonneg _) Int.one_nonneg

end Table

end Croupier
