/-
Where a turn stands, and where an action leaves it.

A turn goes through the phases in order. An action either ends it, or completes the phase, or
plays one more card in it, or answers a claim there. Nothing gets past a trick, a betting or a
claim, so of these only the first in the turn structure is ever reached, and the hand can only
be declared over at the end of a turn.
-/

import Croupier.Proofs.Play.Books

namespace Croupier

/-! ### Phases -/

/-- Whether a turn that reaches the phase ends there. -/
def Phase.endsTurn : Phase → Bool
  | .trick _ | .betting _ | .claim _ => true
  | .draw _ | .play _ | .discard _ | .bidding _ => false

/-- How many steps a phase has: one for each card that it takes one by one. -/
def Phase.steps : Phase → Int
  | .play phase => phase.maxCards
  | .discard phase => phase.count
  | .draw _ | .trick _ | .betting _ | .claim _ | .bidding _ => 1

theorem Phase.InRange.one_le_steps {phase : Phase} (inRange : phase.InRange) :
    1 ≤ phase.steps := by
  cases phase with
  | play phase => exact inRange.cards.2.2.1
  | discard phase => exact inRange.count.1
  | draw | trick | betting | claim | bidding => exact Int.le_refl 1

namespace Program

variable {program : Program} {index : Int} {phase : Phase}

/-- Whether every turn that comes to its end in a phase does so in one of a kind: of the phases
that end turns only the first is ever reached. -/
def endsIn (program : Program) (kind : PhaseKind) : Bool :=
  (program.phases.find? Phase.endsTurn).any fun phase => phase.kind = kind

theorem phase?_eq_some_iff :
    program.phase? index = some phase ↔
      0 ≤ index ∧ program.phases[index.toNat]? = some phase := by
  unfold phase?
  by_cases negative : index < 0
  · rw [if_pos negative]
    constructor
    · intro absent
      cases absent
    · rintro ⟨nonneg, _⟩
      omega
  · rw [if_neg negative, and_iff_right (Int.not_lt.mp negative)]

theorem exists_phase? (nonneg : 0 ≤ index) (inside : index < program.phases.length) :
    ∃ phase, program.phase? index = some phase := by
  have below : index.toNat < program.phases.length := by omega
  exact ⟨_, phase?_eq_some_iff.mpr ⟨nonneg, List.getElem?_eq_getElem below⟩⟩

theorem phase?_natCast {place : Nat} (inside : place < program.phases.length) :
    program.phase? place = some program.phases[place] :=
  phase?_eq_some_iff.mpr ⟨Int.natCast_nonneg place, List.getElem?_eq_getElem inside⟩

theorem InRange.phase? (inRange : program.InRange) (found : program.phase? index = some phase) :
    phase.InRange :=
  inRange.phases phase (mem_phases_of_phase? found)

end Program

namespace Table

variable {table next moved : Table} {program : Program} {phase : Phase} {leader : Int}

/-! ### The turn order -/

theorem book_advance (table : Table) : table.advance.book = table.book := by
  have each (before : Table) : (advanceOne before).book = before.book := rfl
  have walked : ((1 + table.skips).toNat.repeat advanceOne table).book = table.book :=
    repeat_preserves book each _
  exact walked

theorem book_endTurn (table : Table) (leader : Int) :
    (table.endTurn leader).book =
      { table.book with turn := table.turn + 1, phase := 0, step := 0 } := by
  unfold endTurn
  dsimp only
  split
  · exact book_advance _
  · rfl

/-- Where nobody leads and nobody is passed over, the next seat is active. -/
theorem endTurn_nobody (unskipped : table.skips = 0) :
    table.endTurn nobody =
      { table with
        phase := 0
        step := 0
        turn := table.turn + 1
        active := table.nextSeat table.active
        skips := 0 } := by
  change { (1 + table.skips).toNat.repeat advanceOne _ with skips := 0 } = _
  rw [unskipped]
  rfl

/-- The sequence of a turn enters nothing but the place in the turn. -/
theorem book_completePhase (table : Table) (program : Program) (leader : Int) :
    ∃ turn phase step, (table.completePhase program leader).book =
      { table.book with turn := turn, phase := phase, step := step } := by
  unfold completePhase
  dsimp only
  split
  · exact ⟨_, _, _, book_endTurn _ leader⟩
  · exact ⟨_, _, _, rfl⟩

theorem book_afterMove (table : Table) (program : Program) (choice : Choice) (leader : Int) :
    ∃ turn phase step, (table.afterMove program choice leader).book =
      { table.book with turn := turn, phase := phase, step := step } := by
  unfold afterMove
  cases choice with
  | draw => exact book_completePhase table program leader
  | play | discard =>
      dsimp only
      split
      · exact book_completePhase _ program leader
      · exact ⟨_, _, _, rfl⟩
  | trick | bet | claim | bid => exact ⟨_, _, _, book_endTurn table leader⟩
  | challenge | accept | pass | unknown => exact ⟨_, _, _, rfl⟩

theorem book_afterPass (table : Table) (program : Program) (phase : Phase) (leader : Int) :
    ∃ turn phase' step, (table.afterPass program phase leader).book =
      { table.book with turn := turn, phase := phase', step := step } := by
  unfold afterPass
  cases phase with
  | trick | betting | claim => exact ⟨_, _, _, book_endTurn table leader⟩
  | draw | play | discard | bidding => exact book_completePhase table program leader

/-- An action that leaves the hand going on does nothing more. -/
theorem finishAction_cases (table : Table) (program : Program) :
    ((table.finishAction program).1 = .open ∧ table.handOver = true ∧
        (table.finishAction program).2 =
          { table with actions := table.actions + 1 }.nextHand program) ∨
      (((table.finishAction program).1 = .open → table.handOver = false) ∧
        (table.finishAction program).2 = { table with actions := table.actions + 1 }) := by
  unfold finishAction
  dsimp only
  split
  · rename_i dealt
    exact .inl ⟨dealt.1, dealt.2, rfl⟩
  · rename_i goes
    refine .inr ⟨?_, rfl⟩
    intro undecided
    exact Bool.eq_false_of_not_eq_true fun ended => goes ⟨undecided, ended⟩

/-- A hand that goes on is not dealt anew. -/
theorem finishAction_of_going {outcome : Outcome} (going : table.handOver = false)
    (finished : table.finishAction program = (outcome, next)) :
    next = { table with actions := table.actions + 1 } := by
  have after : (table.finishAction program).2 = next := congrArg Prod.snd finished
  rcases table.finishAction_cases program with ⟨_, ended, _⟩ | ⟨_, counted⟩
  · rw [going] at ended
    cases ended
  · rw [← after, counted]

/-! ### Where an action leaves the turn -/

/-- How an action in a phase advances the turn. -/
inductive Advances (program : Program) (phase : Phase) (table next : Table) : Prop where
  | ended (turn : next.turn = table.turn + 1) (begins : next.phase = 0) (fresh : next.step = 0)
  | onward (turn : next.turn = table.turn) (going : next.handOver = table.handOver)
      (through : phase.endsTurn = false) (place : next.phase = table.phase + 1)
      (inside : next.phase < program.phases.length) (fresh : next.step = 0)
  | stepped (turn : next.turn = table.turn) (going : next.handOver = table.handOver)
      (through : phase.endsTurn = false) (place : next.phase = table.phase)
      (one : next.step = table.step + 1) (room : next.step < phase.steps)
  | answered (turn : next.turn = table.turn) (going : next.handOver = table.handOver)
      (claim : phase.kind = .claim) (place : next.phase = table.phase)
      (step : next.step = table.step)
      (asked : table.claim.pending = true ∧ table.claim.claimant ≠ table.active)
      (settled : next.claim.pending = false)

theorem advances_endTurn (turn : moved.turn = table.turn) :
    Advances program phase table (moved.endTurn leader) := by
  have ended := book_endTurn moved leader
  have turnOver : (moved.endTurn leader).turn = moved.turn + 1 := congrArg Book.turn ended
  refine .ended ?_ (congrArg Book.phase ended) (congrArg Book.step ended)
  rw [turnOver, turn]

theorem advances_completePhase (through : phase.endsTurn = false)
    (turn : moved.turn = table.turn) (place : moved.phase = table.phase)
    (going : moved.handOver = table.handOver) :
    Advances program phase table (moved.completePhase program leader) := by
  unfold completePhase
  dsimp only
  split
  · apply advances_endTurn
    exact turn
  · rename_i inside
    refine .onward turn going through ?_ (Int.not_le.mp inside) rfl
    change moved.phase + 1 = _
    rw [place]

/-- One more card in a phase that takes cards one by one. -/
theorem advances_step {index : Int} (found : program.phase? index = some phase)
    (through : phase.endsTurn = false)
    (cards : phase.kind = .play ∨ phase.kind = .discard) (place : index = table.phase)
    (same : moved.book = table.book) :
    Advances program phase table
      (if { moved with step := moved.step + 1 }.cardPhaseDone program then
        { moved with step := moved.step + 1 }.completePhase program leader
      else
        { moved with step := moved.step + 1 }) := by
  have turn : moved.turn = table.turn := congrArg Book.turn same
  have here : moved.phase = table.phase := congrArg Book.phase same
  have step : moved.step = table.step := congrArg Book.step same
  have going : moved.handOver = table.handOver := congrArg Book.handOver same
  split
  · apply advances_completePhase through
    · exact turn
    · exact here
    · exact going
  · rename_i unfinished
    have current : program.phase? { moved with step := moved.step + 1 }.phase = some phase := by
      rw [← found, place]
      exact congrArg _ here
    unfold cardPhaseDone at unfinished
    rw [current, Bool.or_eq_true, not_or] at unfinished
    refine .stepped turn going through here (congrArg (· + 1) step) ?_
    cases phase with
    | play phase => simpa [Phase.steps] using unfinished.2
    | discard phase => simpa [Phase.steps] using unfinished.2
    | draw | trick | betting | claim | bidding => simp [Phase.kind] at cards

end Table

/-! ### Legal actions -/

namespace Action

/-- What a legal action in a phase makes of the table before it is counted. -/
inductive Proceeds (program : Program) (table : Table) : Phase → Table → Prop where
  | pass {phase : Phase} (found : program.phase? table.phase = some phase) :
      Proceeds program table phase
        ((table.passIn program phase).2.afterPass program phase (table.passIn program phase).1)
  | move {phase : Phase} {choice : Choice} {leader : Int} {moved : Table}
      (found : program.phase? table.phase = some phase)
      (offered : choice ∈ table.offers program table.active table.phase phase)
      (acts : choice ≠ .pass)
      (carries : Play.Carries program table.active table ⟨table.phase, choice⟩ leader moved) :
      Proceeds program table phase (moved.afterMove program choice leader)

variable {program : Program} {table next sequenced : Table} {outcome : Outcome}
  {action : Action} {phase : Phase}

theorem Proceeds.found (proceeds : Proceeds program table phase sequenced) :
    program.phase? table.phase = some phase := by
  cases proceeds with
  | pass found => exact found
  | move found => exact found

/-- A legal action that was carried out proceeded in the current phase. -/
theorem proceeds_of_act (legal : action.Legal program table)
    (acted : action.act program table = .ok outcome next) :
    ∃ phase sequenced, Proceeds program table phase sequenced ∧
      sequenced.finishAction program = (outcome, next) := by
  have passes (passed : Play.pass program table = .ok outcome next) :
      ∃ phase sequenced, Proceeds program table phase sequenced ∧
        sequenced.finishAction program = (outcome, next) := by
    obtain ⟨phase, found, finished⟩ := Play.pass_eq_ok_iff.mp passed
    exact ⟨phase, _, .pass found, finished⟩
  cases action with
  | pass => exact passes acted
  | move offered =>
      obtain ⟨index, choice⟩ := offered
      by_cases passing : choice = .pass
      · subst passing
        exact passes (Play.perform_pass_eq_ok_iff.mp acted).2
      · obtain ⟨rfl, leader, moved, carries, finished⟩ :=
          (Play.perform_eq_ok_iff passing).mp acted
        obtain ⟨phase, _, found, ⟨⟩, offered⟩ := Table.mem_moves_iff.mp legal
        exact ⟨phase, _, .move found offered passing carries, finished⟩

/-- An answer is only on offer to a claim of someone else. -/
theorem asked_of_offered {claims : ClaimPhase} {choice : Choice}
    (offered : choice ∈ table.offers program table.active table.phase (.claim claims))
    (answers : choice = .challenge ∨ choice = .accept) :
    table.claim.pending = true ∧ table.claim.claimant ≠ table.active := by
  change choice ∈ table.offerClaim table.active at offered
  unfold Table.offerClaim at offered
  split at offered
  · rename_i asked
    rw [Bool.and_eq_true, decide_eq_true_eq] at asked
    exact asked
  · obtain ⟨place, card, named, _, _⟩ := Table.mem_offerCards offered
    rcases answers with challenges | accepts
    · rw [challenges] at named
      cases named
    · rw [accepts] at named
      cases named

theorem Proceeds.advances (proceeds : Proceeds program table phase sequenced) :
    Table.Advances program phase table sequenced := by
  cases proceeds with
  | pass found =>
      have settled := Table.book_passIn table program phase
      cases phase with
      | trick | betting =>
          obtain ⟨_, _, settled⟩ := settled
          unfold Table.afterPass
          exact Table.advances_endTurn (congrArg Book.turn settled)
      | claim =>
          unfold Table.afterPass
          exact Table.advances_endTurn (congrArg Book.turn settled)
      | draw | play | discard | bidding =>
          apply Table.advances_completePhase rfl
          · exact congrArg Book.turn settled
          · exact congrArg Book.phase settled
          · exact congrArg Book.handOver settled
  | @move choice leader moved found offered acts carries =>
      have entered := Table.book_of_carries carries
      cases choice with
      | trick | bet =>
          obtain ⟨_, _, entered⟩ := entered
          unfold Table.afterMove
          exact Table.advances_endTurn (congrArg Book.turn entered)
      | claim | bid =>
          unfold Table.afterMove
          exact Table.advances_endTurn (congrArg Book.turn entered)
      | draw =>
          cases carries with
          | draw drawn =>
              cases found.symm.trans drawn
              apply Table.advances_completePhase rfl
              · exact congrArg Book.turn entered
              · exact congrArg Book.phase entered
              · exact congrArg Book.handOver entered
      | play =>
          cases carries with
          | play played =>
              cases found.symm.trans played
              exact Table.advances_step found rfl (.inl rfl) rfl entered
      | discard =>
          cases carries with
          | discard laid =>
              cases found.symm.trans laid
              exact Table.advances_step found rfl (.inr rfl) rfl entered
      | challenge =>
          cases carries with
          | challenge claimed pending =>
              cases found.symm.trans claimed
              exact .answered (congrArg Book.turn entered) (congrArg Book.handOver entered) rfl
                (congrArg Book.phase entered) (congrArg Book.step entered)
                (asked_of_offered offered (.inl rfl)) rfl
      | accept =>
          cases carries with
          | accept claimed =>
              cases found.symm.trans claimed
              exact .answered rfl rfl rfl rfl rfl (asked_of_offered offered (.inr rfl)) rfl
      | pass => exact absurd rfl acts
      | unknown => cases carries

/-- Counting an action and dealing the next hand leave the turn where it was, given that the
hand was going on before. -/
theorem advances_finishAction (advances : Table.Advances program phase table sequenced)
    (going : table.handOver = false) :
    Table.Advances program phase table (sequenced.finishAction program).2 := by
  rcases sequenced.finishAction_cases program with ⟨_, ended, dealt⟩ | ⟨_, counted⟩
  · rw [dealt]
    cases advances with
    | ended turn => exact .ended turn rfl rfl
    | onward _ kept | stepped _ kept | answered _ kept =>
        rw [kept, going] at ended
        cases ended
  · rw [counted]
    cases advances with
    | ended turn begins fresh => exact .ended turn begins fresh
    | onward turn kept through place inside fresh =>
        exact .onward turn kept through place inside fresh
    | stepped turn kept through place one room =>
        exact .stepped turn kept through place one room
    | answered turn kept claim place step asked settled =>
        exact .answered turn kept claim place step asked settled

theorem advances_act (going : table.handOver = false) (legal : action.Legal program table)
    (acted : action.act program table = .ok outcome next) :
    ∃ phase, program.phase? table.phase = some phase ∧
      Table.Advances program phase table next := by
  obtain ⟨phase, sequenced, proceeds, finished⟩ := proceeds_of_act legal acted
  have advances := advances_finishAction proceeds.advances going
  rw [finished] at advances
  exact ⟨phase, proceeds.found, advances⟩

end Action

/-! ### Where a turn stands -/

namespace Table

/-- The turn stands at a phase of the turn structure with a step to go, and none of the phases
before it ends turns. -/
structure InTurn (program : Program) (table : Table) : Prop where
  current : ∃ phase, program.phase? table.phase = some phase ∧
    0 ≤ table.step ∧ table.step < phase.steps
  through : ∀ index phase, index < table.phase → program.phase? index = some phase →
    phase.endsTurn = false

variable {program : Program} {table next : Table} {phase : Phase}

theorem inTurn_start (inRange : program.InRange) (begins : table.phase = 0)
    (fresh : table.step = 0) : table.InTurn program := by
  have some : 0 < program.phases.length := List.length_pos_iff.mpr inRange.someTurn
  obtain ⟨phase, found⟩ := Program.exists_phase? (Int.le_refl 0) (Int.ofNat_lt.mpr some)
  have steps := (inRange.phase? found).one_le_steps
  constructor
  · refine ⟨phase, ?_, ?_, ?_⟩
    · rw [begins, found]
    · omega
    · omega
  · intro index other before there
    have nonneg := (Program.phase?_eq_some_iff.mp there).1
    omega

theorem InTurn.inside (inTurn : table.InTurn program) :
    0 ≤ table.phase ∧ table.phase < program.phases.length := by
  obtain ⟨phase, found, _⟩ := inTurn.current
  obtain ⟨nonneg, listed⟩ := Program.phase?_eq_some_iff.mp found
  obtain ⟨below, _⟩ := List.getElem?_eq_some_iff.mp listed
  exact ⟨nonneg, by omega⟩

theorem InTurn.advances (inTurn : table.InTurn program) (inRange : program.InRange)
    (found : program.phase? table.phase = some phase)
    (advances : Advances program phase table next) : next.InTurn program := by
  obtain ⟨current, here, nonneg, below⟩ := inTurn.current
  cases found.symm.trans here
  have inside := (Program.phase?_eq_some_iff.mp found).1
  cases advances with
  | ended turn begins fresh => exact inTurn_start inRange begins fresh
  | onward turn kept through place limit fresh =>
      obtain ⟨after, there⟩ := Program.exists_phase? (by omega) limit
      have steps := (inRange.phase? there).one_le_steps
      constructor
      · exact ⟨after, there, by omega, by omega⟩
      · intro index other before listed
        by_cases earlier : index < table.phase
        · exact inTurn.through index other earlier listed
        · have last : index = table.phase := by omega
          subst last
          cases found.symm.trans listed
          exact through
  | stepped turn kept through place one room =>
      constructor
      · exact ⟨phase, by rw [place, found], by omega, room⟩
      · intro index other before
        exact inTurn.through index other (by omega)
  | answered turn kept claim place step =>
      constructor
      · exact ⟨phase, by rw [place, found], by omega, by omega⟩
      · intro index other before
        exact inTurn.through index other (by omega)

/-- A turn that stands at a phase which ends turns stands at the first of them. -/
theorem InTurn.find?_endsTurn (inTurn : table.InTurn program)
    (found : program.phase? table.phase = some phase) (ends : phase.endsTurn = true) :
    program.phases.find? Phase.endsTurn = some phase := by
  obtain ⟨nonneg, listed⟩ := Program.phase?_eq_some_iff.mp found
  obtain ⟨inside, there⟩ := List.getElem?_eq_some_iff.mp listed
  refine List.find?_eq_some_iff_getElem.mpr ⟨ends, table.phase.toNat, inside, there, ?_⟩
  intro place before
  have earlier : place < program.phases.length := by omega
  rw [inTurn.through place _ (by omega) (Program.phase?_natCast earlier)]
  rfl

theorem InTurn.endsIn (inTurn : table.InTurn program)
    (found : program.phase? table.phase = some phase) (ends : phase.endsTurn = true)
    (kind : PhaseKind) : program.endsIn kind = decide (phase.kind = kind) := by
  unfold Program.endsIn
  rw [inTurn.find?_endsTurn found ends]
  rfl

/-- A turn that stands at a phase which ends none stands before the first that does. -/
theorem InTurn.mem_takeWhile (inTurn : table.InTurn program)
    (found : program.phase? table.phase = some phase) (through : phase.endsTurn = false) :
    phase ∈ program.phases.takeWhile fun phase => !phase.endsTurn := by
  obtain ⟨nonneg, listed⟩ := Program.phase?_eq_some_iff.mp found
  obtain ⟨inside, there⟩ := List.getElem?_eq_some_iff.mp listed
  have before : ∀ earlier ∈ program.phases.take (table.phase.toNat + 1),
      (!earlier.endsTurn) = true := by
    intro earlier member
    obtain ⟨place, below, rfl⟩ := List.mem_take_iff_getElem.mp member
    by_cases here : place = table.phase.toNat
    · subst here
      rw [there, through]
      rfl
    · rw [inTurn.through place _ (by omega) (Program.phase?_natCast (by omega))]
      rfl
  rw [← List.take_append_drop (table.phase.toNat + 1) program.phases,
    List.takeWhile_append_of_pos before]
  apply List.mem_append_left
  refine List.mem_take_iff_getElem.mpr ⟨table.phase.toNat, by omega, there⟩

end Table

/-! ### Runs -/

namespace Reached

variable {program : Program} {seed : UInt64} {outcome : Outcome} {table : Table}

/-- A hand that is over gives way to the next one unless the game is over too. -/
theorem handOver_of_open (reached : Reached program seed .open table) :
    table.handOver = false := by
  cases reached with
  | start dealt =>
      obtain ⟨_, rfl⟩ := Table.start_eq_ok_iff.mp dealt
      rfl
  | step earlier legal acted =>
      obtain ⟨phase, sequenced, _, finished⟩ := Action.proceeds_of_act legal acted
      have result : (sequenced.finishAction program).1 = .open := congrArg Prod.fst finished
      have after : (sequenced.finishAction program).2 = table := congrArg Prod.snd finished
      rcases sequenced.finishAction_cases program with ⟨_, _, dealt⟩ | ⟨undecided, counted⟩
      · rw [← after, dealt]
        rfl
      · rw [← after, counted]
        exact undecided result

theorem inTurn (inRange : program.InRange) (reached : Reached program seed outcome table) :
    table.InTurn program := by
  induction reached with
  | start dealt =>
      obtain ⟨_, rfl⟩ := Table.start_eq_ok_iff.mp dealt
      exact Table.inTurn_start inRange rfl rfl
  | step earlier legal acted ih =>
      obtain ⟨phase, found, advances⟩ :=
        Action.advances_act earlier.handOver_of_open legal acted
      exact ih.advances inRange found advances

/-- What holds after the first deal and after every action, counted or not, and after every later
deal holds all along a run. -/
theorem run_induction {motive : Table → Prop} (reached : Reached program seed outcome table)
    (opening : motive (Table.opening program seed))
    (proceeds : ∀ {table sequenced : Table} {phase : Phase}, Reached program seed .open table →
      Action.Proceeds program table phase sequenced → motive table → motive sequenced)
    (counted : ∀ {table : Table}, motive table → motive { table with actions := table.actions + 1 })
    (deals : ∀ {table : Table}, table.handOver = true → motive table →
      motive (table.nextHand program)) : motive table := by
  induction reached with
  | start dealt =>
      obtain ⟨_, rfl⟩ := Table.start_eq_ok_iff.mp dealt
      exact opening
  | step earlier legal acted ih =>
      obtain ⟨phase, sequenced, proceeding, finished⟩ := Action.proceeds_of_act legal acted
      have entered := counted (proceeds earlier proceeding ih)
      have done : motive (sequenced.finishAction program).2 := by
        rcases sequenced.finishAction_cases program with ⟨_, ended, dealt⟩ | ⟨_, same⟩
        · rw [dealt]
          exact deals ended entered
        · rw [same]
          exact entered
      rwa [finished] at done

/-- What the books say at first, after every entry of an action, wherever the turn stands then,
and after every deal, they say all along a run. -/
theorem book_induction {motive : Book → Prop} (inRange : program.InRange)
    (reached : Reached program seed outcome table)
    (opening : motive (Table.opening program seed).book)
    (placed : ∀ {book : Book} (turn phase step : Int),
      motive book → motive { book with turn := turn, phase := phase, step := step })
    (passes : ∀ {table : Table} {phase : Phase}, table.InTurn program →
      program.phase? table.phase = some phase → motive table.book →
        motive (table.passIn program phase).2.book)
    (moves : ∀ {table moved : Table} {phase : Phase} {choice : Choice} {leader : Int},
      table.Orderly → table.handOver = false → table.InTurn program →
        program.phase? table.phase = some phase →
          choice ∈ table.offers program table.active table.phase phase → choice ≠ .pass →
            Play.Carries program table.active table ⟨table.phase, choice⟩ leader moved →
              motive table.book → motive moved.book)
    (deals : ∀ {table : Table}, table.handOver = true → motive table.book →
      motive (table.nextHand program).book) : motive table.book := by
  apply reached.run_induction (motive := fun table => motive table.book) opening
  · intro table sequenced phase earlier proceeds entered
    have inTurn := earlier.inTurn inRange
    cases proceeds with
    | pass found =>
        obtain ⟨turn, place, step, same⟩ := Table.book_afterPass _ program phase _
        rw [same]
        exact placed turn place step (passes inTurn found entered)
    | move found offered acts carries =>
        obtain ⟨turn, place, step, same⟩ := Table.book_afterMove _ program _ _
        rw [same]
        exact placed turn place step (moves (earlier.orderly inRange)
          earlier.handOver_of_open inTurn found offered acts carries entered)
  · exact id
  · exact deals

end Reached

end Croupier
