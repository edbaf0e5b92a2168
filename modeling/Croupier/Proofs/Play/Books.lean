/-
What a table keeps books on: chips, the place in the turn, and who is in the trick.

Cards come and go without an entry in the books. Drawing, playing, discarding, card effects,
battles, claims and bids leave them alone; only a wager moves chips, only a contribution enters
a trick, and only the end of a trick or of the betting declares the hand over.
-/

import Croupier.Proofs.Play.Tricks

namespace Croupier

/-! ### Books -/

structure Purse where
  chips : Int
  bet : Int
  folded : Bool

def Player.purse (player : Player) : Purse where
  chips := player.chips
  bet := player.bet
  folded := player.folded

/-- The chips of the participants, those in the pot, and the bet that everyone has to match. -/
structure Stakes where
  purses : List Purse
  pot : Int
  bet : Int

structure Book where
  stakes : Stakes
  turn : Int
  phase : Int
  step : Int
  trick : List Int
  handOver : Bool

namespace Table

def purses (table : Table) : List Purse :=
  table.players.map Player.purse

def stakes (table : Table) : Stakes where
  purses := table.purses
  pot := table.pot
  bet := table.bet

def book (table : Table) : Book where
  stakes := table.stakes
  turn := table.turn
  phase := table.phase
  step := table.step
  trick := table.trick
  handOver := table.handOver

variable {table next : Table} {seat actor : Int} {card : Card} {program : Program}

/-! ### Participants -/

/-- A change of a participant is a change of the purse. -/
theorem purses_modifyPlayer {change : Player → Player} (altered : Purse → Purse)
    (same : ∀ player, (change player).purse = altered player.purse) (nonneg : 0 ≤ seat) :
    (table.modifyPlayer seat change).purses = table.purses.modify seat.toNat altered := by
  have mapped : ∀ (players : List Player) (place : Nat),
      (players.modify place change).map Player.purse =
        (players.map Player.purse).modify place altered := by
    intro players
    induction players with
    | nil =>
        intro place
        rw [List.modify_nil, List.map_nil, List.modify_nil]
    | cons player rest ih =>
        intro place
        cases place with
        | zero => rw [List.modify_zero_cons, List.map_cons, List.map_cons, same,
            List.modify_zero_cons]
        | succ place => rw [List.modify_succ_cons, List.map_cons, List.map_cons, ih,
            List.modify_succ_cons]
  unfold modifyPlayer purses
  rw [if_neg (Int.not_lt.mpr nonneg)]
  exact mapped _ _

theorem book_modifyPlayer {change : Player → Player}
    (same : ∀ player, (change player).purse = player.purse) :
    (table.modifyPlayer seat change).book = table.book := by
  by_cases negative : seat < 0
  · unfold modifyPlayer
    rw [if_pos negative]
  · have purses : (table.modifyPlayer seat change).purses = table.purses := by
      rw [purses_modifyPlayer id same (Int.not_lt.mp negative)]
      exact List.modify_id _ _
    unfold modifyPlayer at purses ⊢
    rw [if_neg negative] at purses ⊢
    unfold book stakes
    rw [purses]

@[simp]
theorem book_modifyHand (table : Table) (seat : Int) (change : List Card → List Card) :
    (table.modifyHand seat change).book = table.book :=
  book_modifyPlayer fun _ => rfl

/-! ### Cards -/

theorem cardBlind_book : CardBlind book where
  hand := book_modifyHand
  deck _ _ := rfl
  discard _ _ := rfl
  generator _ _ := rfl
  tableau _ _ := rfl

theorem book_triggerEffect (table : Table) (program : Program) (actor : Int) (card : Card) :
    (table.triggerEffect program actor card).book = table.book :=
  cardBlind_book.triggerEffect (fun _ _ _ => rfl) table program actor card

/-! ### Battles -/

theorem battleBlind_book : BattleBlind book where
  toCardBlind := cardBlind_book
  taken _ _ _ _ := book_modifyPlayer fun _ => rfl
  battle _ _ _ _ := rfl

theorem book_settleBattle (table : Table) (program : Program) :
    (table.settleBattle program).book = table.book :=
  battleBlind_book.settleBattle table program

theorem book_playCard (table : Table) (program : Program) (seat : Int) (card : Card)
    (target : Location) : (table.playCard program seat card target).book = table.book :=
  battleBlind_book.playCard table program seat card target

/-! ### Tricks -/

theorem book_contribute (table : Table) (seat : Int) (card : Card) (phase : TrickPhase) :
    (table.contribute seat card phase).book =
      { table.book with trick := table.trick ++ [seat] } := by
  have placed : (table.place seat .tableau card).book = table.book :=
    cardBlind_book.modifyPile table seat .tableau _
  have trick : (table.place seat .tableau card).trick = table.trick := congrArg Book.trick placed
  unfold contribute
  dsimp only
  rw [trick]
  exact congrArg (fun book : Book => { book with trick := table.trick ++ [seat] }) placed

/-- A trick that is settled clears the entry of its contributors, and may end the hand. -/
theorem book_settleTrick (table : Table) (program : Program) (phase : TrickPhase) :
    ∃ trick ended, (table.settleTrick program phase).2.book =
      { table.book with trick := trick, handOver := ended } := by
  have taken : ∃ trick, (table.takeTrick program phase).2.book =
      { table.book with trick := trick } := by
    unfold takeTrick
    dsimp only
    split
    · exact ⟨_, rfl⟩
    · rename_i winner _
      generalize (if program.hasPhase .bidding then 0 else program.cardPoints table.centre) =
        points
      have credited : (table.modifyPlayer winner fun player =>
          { player with
            tricks := player.tricks + 1
            score := player.score + points }).book = table.book :=
        book_modifyPlayer fun _ => rfl
      exact ⟨[], congrArg (fun book : Book => { book with trick := [] }) credited⟩
  obtain ⟨trick, taken⟩ := taken
  have scored : ((table.takeTrick program phase).2.scoreContracts program).book =
      { table.book with trick := trick } := by
    rw [← taken]
    unfold scoreContracts
    split
    · rfl
    · simp only [book, stakes, purses, List.map_map]
      rfl
  unfold settleTrick
  split
  · dsimp only
    split
    · refine ⟨trick, true, ?_⟩
      split
      · exact congrArg (fun book : Book => { book with handOver := true }) scored
      · exact congrArg (fun book : Book => { book with handOver := true }) taken
    · exact ⟨trick, table.handOver, taken⟩
  · exact ⟨table.trick, table.handOver, rfl⟩

/-! ### Wagers -/

/-- As far as the books go, the tables differ in nothing but chips. -/
def Restakes (table next : Table) : Prop :=
  next.book = { table.book with stakes := next.stakes }

theorem Restakes.trans {last : Table} (first : Restakes table next)
    (second : Restakes next last) : Restakes table last := by
  unfold Restakes at first second ⊢
  rw [second, first]

theorem restakes_modifyPlayer (table : Table) (seat : Int) (change : Player → Player) :
    Restakes table (table.modifyPlayer seat change) := by
  unfold modifyPlayer
  split <;> rfl

theorem restakes_pay (table : Table) (seat amount : Int) :
    Restakes table (table.pay seat amount) := by
  unfold pay modifyPlayer
  split <;> rfl

theorem restakes_wager {phase : BettingPhase} {action : BettingAction}
    (wagered : table.wager? seat phase action = some next) : Restakes table next := by
  have acts (before : Table) : Restakes before (before.modifyPlayer seat Player.afterActing) :=
    restakes_modifyPlayer before seat _
  have tops (before : Table) : Restakes before (before.setBet seat) := rfl
  unfold wager? at wagered
  cases action with
  | none | unknown => cases wagered
  | check | fold =>
      cases wagered
      exact restakes_modifyPlayer table seat _
  | call =>
      cases wagered
      exact (restakes_pay table seat _).trans (acts _)
  | bet =>
      cases wagered
      exact (restakes_pay table seat _).trans ((tops _).trans (acts _))
  | raise =>
      cases wagered
      have raised : Restakes table { table.pay seat (table.owed seat + phase.minBet) with
          raises := (table.pay seat (table.owed seat + phase.minBet)).raises + 1 } :=
        restakes_pay table seat _
      exact raised.trans ((tops _).trans (acts _))
  | allIn =>
      cases wagered
      have staked := (restakes_pay table seat (table.player seat).chips).trans
        (restakes_modifyPlayer _ seat fun player => { player with allIn := true })
      refine staked.trans (.trans ?_ (acts _))
      split
      · exact tops _
      · rfl

theorem restakes_payWinners (table : Table) (winners : List Int) :
    Restakes table (table.payWinners winners) := by
  have shared (amount : Int) (paid : List Int) :
      Restakes table (paid.foldl (award amount) table) := by
    induction paid using List.reverseRecOn with
    | nil => rfl
    | append_singleton earlier winner ih =>
        rw [List.foldl_append]
        exact ih.trans (restakes_modifyPlayer _ winner _)
  cases winners with
  | nil => rfl
  | cons first rest => exact (shared _ _).trans (restakes_modifyPlayer _ first _)

theorem book_settleBetting (table : Table) (program : Program) :
    ∃ stakes ended, (table.settleBetting program).book =
      { table.book with stakes := stakes, handOver := ended } := by
  unfold settleBetting
  split
  · refine ⟨(table.showdown program).stakes, true, ?_⟩
    have paid := restakes_payWinners table (table.showdownWinners program)
    exact congrArg (fun book : Book =>
      { book with stakes := (table.showdown program).stakes, handOver := true }) paid
  · exact ⟨table.stakes, table.handOver, rfl⟩

/-! ### What an action enters -/

/-- A contribution is entered before the trick is settled, a wager before the betting is; no
other move leaves an entry. -/
theorem book_of_carries {index : Int} {choice : Choice} {leader : Int}
    (carries : Play.Carries program seat table ⟨index, choice⟩ leader next) :
    match choice with
    | .trick _ => ∃ trick ended, next.book =
        { table.book with trick := trick, handOver := ended }
    | .bet _ => ∃ stakes ended, next.book =
        { table.book with stakes := stakes, handOver := ended }
    | .pass => True
    | _ => next.book = table.book := by
  cases carries with
  | draw found => exact cardBlind_book.draw table seat _ _
  | play found held =>
      dsimp only
      rw [book_triggerEffect, book_playCard]
      exact book_modifyHand table seat _
  | discard found held =>
      dsimp only
      unfold place
      rw [cardBlind_book.modifyPile]
      exact book_modifyHand table seat _
  | @trick _ place phase card _ found held contributed =>
      subst contributed
      have lifted : (table.without seat place.toNat).book = table.book :=
        book_modifyHand table seat _
      obtain ⟨trick, ended, settled⟩ := book_settleTrick
        (((table.without seat place.toNat).contribute seat card phase).triggerEffect program seat
          card) program phase
      refine ⟨trick, ended, settled.trans ?_⟩
      rw [book_triggerEffect, book_contribute, lifted]
  | @bet _ _ _ wagered found known =>
      obtain ⟨stakes, ended, settled⟩ := book_settleBetting wagered program
      refine ⟨stakes, ended, settled.trans ?_⟩
      rw [restakes_wager known]
  | claim found held => exact book_modifyHand table seat _
  | challenge found pending => exact book_modifyHand table _ _
  | accept found => rfl
  | bid found => exact book_modifyPlayer fun _ => rfl
  | pass => trivial

/-- A pass settles a trick or the betting, in a phase of that kind. -/
theorem book_passIn (table : Table) (program : Program) (phase : Phase) :
    match phase with
    | .trick _ => ∃ trick ended, (table.passIn program phase).2.book =
        { table.book with trick := trick, handOver := ended }
    | .betting _ => ∃ stakes ended, (table.passIn program phase).2.book =
        { table.book with stakes := stakes, handOver := ended }
    | _ => (table.passIn program phase).2.book = table.book := by
  have fought : (if program.header.tableauMode = .war then table.settleBattle program
      else table).book = table.book := by
    split
    · exact book_settleBattle table program
    · rfl
  unfold passIn
  dsimp only
  generalize (if program.header.tableauMode = .war then table.settleBattle program
    else table) = after at fought ⊢
  cases phase with
  | trick phase =>
      obtain ⟨trick, ended, settled⟩ := book_settleTrick after program phase
      refine ⟨trick, ended, settled.trans ?_⟩
      rw [fought]
  | betting phase =>
      obtain ⟨stakes, ended, settled⟩ := book_settleBetting after program
      refine ⟨stakes, ended, settled.trans ?_⟩
      rw [fought]
  | draw | play | discard | claim | bidding => exact fought

end Table

end Croupier
