/-
How many chips can come together in one place.

No amount at a table exceeds the chips of the whole game, and a raise asks for no more than those
and another bet. A program that gives out so few chips never needs a number beyond a signed word
of four bytes. The compiled format does not insist on it: it keeps the bets small, but lets everyone
start with as many chips as a word can count.
-/

import Croupier.Proofs.Play.Chips

namespace Croupier

/-! ### Programs -/

/-- The bet that a phase asks for at least. -/
def Phase.minBet : Phase → Int
  | .betting phase => phase.minBet
  | .draw _ | .play _ | .discard _ | .trick _ | .claim _ | .bidding _ => 0

theorem Phase.InRange.minBet_nonneg {phase : Phase} (inRange : phase.InRange) :
    0 ≤ phase.minBet := by
  cases phase with
  | betting phase => exact Int.le_trans Int.one_nonneg inRange.minBet.1
  | draw | play | discard | trick | claim | bidding => exact Int.le_refl 0

/-- Where turns come to a betting, a word has room for all chips of the game and another bet. -/
def Program.ModestStakes (program : Program) : Prop :=
  program.endsIn .betting = true → ∀ phase ∈ program.phases,
    FitsSigned 4
      (program.header.participants * program.setup.startingChips + phase.minBet)

instance (program : Program) : Decidable program.ModestStakes :=
  inferInstanceAs (Decidable (_ → ∀ _ ∈ _, _))

/-! ### Stakes -/

theorem fitsSigned_of_le {width : Nat} {small large : Int} (nonneg : 0 ≤ small)
    (below : small ≤ large) (fits : FitsSigned width large) : FitsSigned width small := by
  obtain ⟨_, above⟩ := fits
  constructor
  · omega
  · omega

theorem le_total_of_mem {numbers : List Int} (nonneg : ∀ number ∈ numbers, 0 ≤ number)
    {number : Int} (member : number ∈ numbers) : number ≤ total numbers := by
  induction numbers with
  | nil => cases member
  | cons first rest ih =>
      have others := fun other listed => nonneg other (List.mem_cons_of_mem first listed)
      have head := nonneg first List.mem_cons_self
      have tail := total_nonneg others
      rw [total_cons]
      rcases List.mem_cons.mp member with rfl | listed
      · omega
      · have below := ih others listed
        omega

namespace Stakes

variable {stakes : Stakes} {amount : Int}

theorem Balanced.chips_le_total (balanced : stakes.Balanced amount) {purse : Purse}
    (member : purse ∈ stakes.purses) :
    purse.chips ≤ total (stakes.purses.map Purse.chips) := by
  refine le_total_of_mem ?_ (List.mem_map_of_mem member)
  intro chips listed
  obtain ⟨other, present, rfl⟩ := List.mem_map.mp listed
  exact balanced.solvent other present

theorem Balanced.bet_le_pot (balanced : stakes.Balanced amount) : stakes.bet ≤ stakes.pot := by
  obtain ⟨leader, present, _, leads⟩ := balanced.leading
  rw [← leads, balanced.covered]
  refine le_total_of_mem ?_ (List.mem_map_of_mem present)
  intro bet listed
  obtain ⟨other, member, rfl⟩ := List.mem_map.mp listed
  exact balanced.wagered other member

/-- The amounts of one participant, the pot and the bet to match lie between nothing and all. -/
theorem Balanced.bounds (balanced : stakes.Balanced amount) {purse : Purse}
    (member : purse ∈ stakes.purses) :
    (0 ≤ purse.chips ∧ purse.chips ≤ amount) ∧ (0 ≤ purse.bet ∧ purse.bet ≤ stakes.bet) ∧
      stakes.bet ≤ stakes.pot ∧ stakes.pot ≤ amount := by
  have solvent := balanced.solvent purse member
  have wagered := balanced.wagered purse member
  have highest := balanced.highest purse member
  have chips := balanced.chips_le_total member
  have pot := balanced.bet_le_pot
  have whole := balanced.whole
  refine ⟨⟨solvent, ?_⟩, ⟨wagered, highest⟩, pot, ?_⟩
  · omega
  · omega

/-- Amounts that a word has room for. -/
structure Fits (stakes : Stakes) : Prop where
  pot : FitsSigned 4 stakes.pot
  bet : FitsSigned 4 stakes.bet
  purses : ∀ purse ∈ stakes.purses, FitsSigned 4 purse.chips ∧ FitsSigned 4 purse.bet

theorem Balanced.fits (balanced : stakes.Balanced amount) (modest : FitsSigned 4 amount) :
    stakes.Fits := by
  obtain ⟨leader, present, _⟩ := balanced.leading
  obtain ⟨_, ⟨wagered, highest⟩, covered, whole⟩ := balanced.bounds present
  constructor
  · exact fitsSigned_of_le (by omega) whole modest
  · exact fitsSigned_of_le (by omega) (by omega) modest
  · intro purse member
    obtain ⟨⟨solvent, held⟩, ⟨staked, matched⟩, _⟩ := balanced.bounds member
    constructor
    · exact fitsSigned_of_le solvent held modest
    · exact fitsSigned_of_le staked (by omega) modest

end Stakes

/-! ### Turns without a betting -/

namespace Table

variable {table next : Table} {program : Program} {phase : Phase} {leader : Int}

theorem stakes_passIn (inTurn : table.InTurn program) (none : program.endsIn .betting = false)
    (found : program.phase? table.phase = some phase) :
    (table.passIn program phase).2.stakes = table.stakes := by
  have passed := book_passIn table program phase
  cases phase with
  | trick phase =>
      obtain ⟨_, _, passed⟩ := passed
      exact congrArg Book.stakes passed
  | betting phase =>
      rw [inTurn.endsIn found rfl .betting] at none
      cases none
  | draw | play | discard | claim | bidding => exact congrArg Book.stakes passed

theorem stakes_of_carries {choice : Choice} (inTurn : table.InTurn program)
    (none : program.endsIn .betting = false) (acts : choice ≠ .pass)
    (carries : Play.Carries program table.active table ⟨table.phase, choice⟩ leader next) :
    next.stakes = table.stakes := by
  have entered := book_of_carries carries
  cases choice with
  | trick =>
      obtain ⟨_, _, entered⟩ := entered
      exact congrArg Book.stakes entered
  | bet =>
      cases carries with
      | bet betting =>
          rw [inTurn.endsIn betting rfl .betting] at none
          cases none
  | draw | play | discard | claim | challenge | accept | bid =>
      exact congrArg Book.stakes entered
  | pass => exact absurd rfl acts
  | unknown => cases carries

end Table

namespace Reached

variable {program : Program} {seed : UInt64} {outcome : Outcome} {table : Table}

/-- Where no turn comes to a betting everyone keeps the chips of the start. -/
theorem chips_eq_start (inRange : program.InRange) (none : program.endsIn .betting = false)
    (reached : Reached program seed outcome table) :
    ∀ purse ∈ table.purses, purse.chips = program.setup.startingChips := by
  have kept : ∀ purse ∈ table.book.stakes.purses,
      purse.chips = program.setup.startingChips := by
    apply reached.book_induction inRange
      (motive := fun book => ∀ purse ∈ book.stakes.purses,
        purse.chips = program.setup.startingChips)
    · intro purse member
      change purse ∈ (Table.opening program seed).purses at member
      rw [Table.purses_opening] at member
      rw [List.eq_of_mem_replicate member]
    · intro book turn phase step before
      exact before
    · intro table phase inTurn found before
      change ∀ purse ∈ (table.passIn program phase).2.stakes.purses, _
      rw [Table.stakes_passIn inTurn none found]
      exact before
    · intro table moved phase choice leader _ _ inTurn _ _ acts carries before
      change ∀ purse ∈ moved.stakes.purses, _
      rw [Table.stakes_of_carries inTurn none acts carries]
      exact before
    · intro table _ before
      change ∀ purse ∈ (table.nextHand program).stakes.purses, _
      rw [Table.stakes_nextHand]
      intro purse member
      obtain ⟨earlier, listed, rfl⟩ := List.mem_map.mp member
      exact before earlier listed
  exact kept

theorem stakes_fit (inRange : program.InRange) (modest : program.ModestStakes)
    (reached : Reached program seed outcome table) : table.stakes.Fits := by
  have sound := reached.sound inRange
  have balanced : table.stakes.Balanced _ := sound.balanced
  cases taken : program.endsIn .betting with
  | true =>
      obtain ⟨leader, present, _⟩ := balanced.leading
      have spare := balanced.bounds present
      apply balanced.fits
      have some : 0 < program.phases.length := List.length_pos_iff.mpr inRange.someTurn
      have fits := modest taken _ (List.getElem_mem some)
      have least := (inRange.phases _ (List.getElem_mem some)).minBet_nonneg
      exact fitsSigned_of_le (by omega) (by omega) fits
  | false =>
      have pot : table.stakes.pot = 0 := sound.untouched taken
      have started := inRange.setup.startingChips
      have zero : FitsSigned 4 0 := by decide
      constructor
      · rw [pot]
        exact zero
      · obtain ⟨leader, present, _⟩ := balanced.leading
        obtain ⟨_, ⟨wagered, highest⟩, covered, _⟩ := balanced.bounds present
        exact fitsSigned_of_le (by omega) (by omega) zero
      · intro purse member
        obtain ⟨_, ⟨wagered, highest⟩, covered, _⟩ := balanced.bounds member
        rw [reached.chips_eq_start inRange taken purse member]
        constructor
        · exact fitsSigned_of_le started.1 (Int.le_sub_one_of_lt started.2) (by decide)
        · exact fitsSigned_of_le wagered (by omega) zero

/-- In every state of a legal run of a program that was read and whose stakes are modest, the pot,
the bet to match, and the chips and the bet of everyone fit a signed word of four bytes. So does
what a raise would take in any phase of the program. -/
theorem amounts_fit {bytes : List UInt8} (accepted : Program.decode bytes = .ok program)
    (modest : program.ModestStakes) (reached : Reached program seed outcome table) :
    FitsSigned 4 table.pot ∧ FitsSigned 4 table.bet ∧
      (∀ player ∈ table.players, FitsSigned 4 player.chips ∧ FitsSigned 4 player.bet) ∧
      ∀ player ∈ table.players, ∀ bets, .betting bets ∈ program.phases →
        FitsSigned 4 (table.bet - player.bet + bets.minBet) := by
  have inRange := Program.inRange_of_decode accepted
  have fits := reached.stakes_fit inRange modest
  have sound := reached.sound inRange
  refine ⟨fits.pot, fits.bet, ?_, ?_⟩
  · intro player member
    exact fits.purses player.purse (List.mem_map_of_mem member)
  · intro player member bets listed
    have least := (inRange.phases _ listed).minBet_nonneg
    obtain ⟨_, ⟨wagered, matched⟩, covered, held⟩ :=
      sound.balanced.bounds (List.mem_map_of_mem member)
    change 0 ≤ player.bet at wagered
    change player.bet ≤ table.bet at matched
    change table.bet ≤ table.pot at covered
    change 0 ≤ bets.minBet at least
    cases taken : program.endsIn .betting with
    | true =>
        change table.pot ≤ _ at held
        have room : FitsSigned 4 (_ + bets.minBet) := modest taken _ listed
        exact fitsSigned_of_le (by omega) (by omega) room
    | false =>
        have pot : table.pot = 0 := sound.untouched taken
        have limit : bets.minBet ≤ Decoder.maxAmount := (inRange.phases _ listed).minBet.2
        have room : FitsSigned 4 Decoder.maxAmount := by decide
        exact fitsSigned_of_le (by omega) (by omega) room

end Reached

theorem Reached.amounts_fit_bettingGame :
    Program.decode bettingGame.encode = .ok bettingGame ∧ bettingGame.ModestStakes ∧
      ∃ outcome table, Reached bettingGame 7 outcome table ∧ table.pot = 1 ∧
        FitsSigned 4 table.pot ∧ FitsSigned 4 table.bet ∧
        (∀ player ∈ table.players, FitsSigned 4 player.chips ∧ FitsSigned 4 player.bet) ∧
        ∀ player ∈ table.players, FitsSigned 4 (table.bet - player.bet + 1) := by
  have accepted : Program.decode bettingGame.encode = .ok bettingGame := by decide +kernel
  have modest : bettingGame.ModestStakes := by decide
  obtain ⟨deck, generator, _, dealt⟩ := Table.exists_opening_eq bettingGame 7
  have start := Table.start_of_decode accepted 7 {}
  rw [dealt] at start
  have bet := @Reached.step _ _ _ _ .open (.move ⟨0, .bet .bet⟩) (.start start)
    (List.mem_of_getElem? (i := 1) rfl) rfl
  obtain ⟨pot, top, players, raises⟩ := amounts_fit accepted modest bet
  exact ⟨accepted, modest, _, _, bet, rfl, pot, top, players,
    fun player member => raises player member {} List.mem_cons_self⟩

/-! ### Lavish stakes -/

/-- A wager that leaves the betting going passes the turn on, where no way to win can end it. -/
theorem Reached.wager {program : Program} {seed : UInt64} {table wagered : Table}
    {bets : BettingPhase} {action : BettingAction} {next : Int}
    (reached : Reached program seed .open table)
    (found : program.phase? table.phase = some (.betting bets))
    (offered : .bet action ∈ table.offerBetting table.active bets)
    (known : table.wager? table.active bets action = some wagered)
    (unmatched : wagered.bettingComplete = false) (endless : program.winConditions = [])
    (unskipped : wagered.skips = 0) (follows : wagered.nextSeat wagered.active = next) :
    Reached program seed .open
      { wagered with
        phase := 0
        step := 0
        turn := wagered.turn + 1
        active := next
        skips := 0
        actions := wagered.actions + 1 } := by
  have legal : Action.Legal program table (.move ⟨table.phase, .bet action⟩) :=
    Table.mem_moves_iff.mpr ⟨_, _, found, rfl, offered⟩
  have going : wagered.handOver = false :=
    (congrArg Book.handOver (Table.restakes_wager known)).trans reached.handOver_of_open
  have settled : wagered.settleBetting program = wagered := by
    unfold Table.settleBetting
    rw [unmatched, if_neg Bool.false_ne_true]
  have ended : wagered.endTurn nobody =
      { wagered with
        phase := 0
        step := 0
        turn := wagered.turn + 1
        active := next
        skips := 0 } := by
    rw [← follows]
    exact Table.endTurn_nobody unskipped
  have acts : Choice.bet action ≠ .pass := nofun
  refine .step reached legal ((Play.perform_eq_ok_iff acts).mpr
    ⟨rfl, nobody, _, .bet found known, ?_⟩)
  rw [settled]
  change (wagered.endTurn nobody).finishAction program = _
  rw [ended]
  unfold Table.finishAction Table.outcome
  rw [endless]
  dsimp only [List.findSome?_nil, Option.getD_none]
  rw [going]
  rfl

/-- A game in which everyone starts with as many chips as a word can count. -/
def lavishGame : Program where
  setup := { startingChips := 2147483647 }
  phases := [.betting { minBet := 1000000000 }]

theorem Table.exists_opening_lavishGame (seed : UInt64) :
    ∃ left right deck discard generator, Table.opening lavishGame seed =
      { Table.seated lavishGame seed with
        players := [{ hand := left, chips := 2147483647 }, { hand := right, chips := 2147483647 }]
        deck := deck
        discard := discard
        generator := generator } := by
  obtain ⟨deck, generator, _, dealt⟩ := Table.exists_opening_eq lavishGame seed
  exact ⟨_, _, _, _, _, dealt⟩

/-- After a bet and a raise the pot is too large for a word. -/
theorem Reached.pot_exceeds_word :
    Program.decode lavishGame.encode = .ok lavishGame ∧
      ∃ table, Reached lavishGame 7 .open table ∧ table.pot = 3000000000 ∧
        ¬FitsSigned 4 table.pot := by
  have accepted : Program.decode lavishGame.encode = .ok lavishGame := by decide +kernel
  have start := Table.start_of_decode accepted 7 {}
  obtain ⟨left, right, deck, discard, generator, dealt⟩ := Table.exists_opening_lavishGame 7
  rw [dealt] at start
  have second : Int.tmod (0 + 1 + (2 : Nat)) (2 : Nat) = 1 := rfl
  have first : Int.tmod (1 + 1 + (2 : Nat)) (2 : Nat) = 0 := rfl
  have bet := (Reached.start start).wager rfl (List.mem_of_getElem? (i := 1) rfl) rfl rfl rfl rfl
    second
  have raised := bet.wager rfl (List.mem_of_getElem? (i := 1) rfl) rfl rfl rfl rfl first
  have large : ¬FitsSigned 4 3000000000 := by decide
  exact ⟨accepted, _, raised, rfl, large⟩

end Croupier
