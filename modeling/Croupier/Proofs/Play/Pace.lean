/-
A turn always goes on, and always ends.

Somebody whose turn it is has a move on offer or may pass, unless a play phase insists on a card
that cannot be played. Every action uses up one of the actions that the phases of a turn have room
for: one for each card of a phase that takes cards, two where a claim is answered before the next
one is laid, and one in any other phase.
-/

import Croupier.Proofs.Play.Turns

namespace Croupier

/-! ### Programs -/

/-- Whether a phase that asks for a card accepts that there is none to play. -/
def Phase.passable : Phase → Bool
  | .play phase => !phase.mandatory || phase.passIfUnable
  | .draw _ | .discard _ | .trick _ | .betting _ | .claim _ | .bidding _ => true

def Program.Passable (program : Program) : Prop :=
  ∀ phase ∈ program.phases, phase.passable = true

instance (program : Program) : Decidable program.Passable :=
  inferInstanceAs (Decidable (∀ _ ∈ _, _))

/-- The most actions that a turn can take in a phase. -/
def Phase.mostActions : Phase → Int
  | .play phase => phase.maxCards
  | .discard phase => phase.count
  | .claim _ => 2
  | .draw _ | .trick _ | .betting _ | .bidding _ => 1

def Program.mostActions (program : Program) : Int :=
  total (program.phases.map Phase.mostActions)

theorem Phase.steps_le_mostActions (phase : Phase) : phase.steps ≤ phase.mostActions := by
  cases phase with
  | claim => exact Int.le_of_lt (Int.lt_succ 1)
  | play | discard | draw | trick | betting | bidding => exact Int.le_refl _

namespace Table

variable {table next : Table} {seat : Int} {program : Program} {phase : Phase}

/-! ### Progress -/

theorem offerCards_ne_nil {hand : List Card} {allowed : Card → Bool}
    (fits : ∃ card ∈ hand, allowed card = true) (named : Int → Choice) :
    offerCards hand allowed named ≠ [] := by
  obtain ⟨card, held, fits⟩ := fits
  obtain ⟨place, inside, rfl⟩ := List.mem_iff_getElem.mp held
  have listed : (hand[place], place) ∈ hand.zipIdx := by
    rw [List.mem_zipIdx_iff_getElem?]
    exact List.getElem?_eq_getElem inside
  have offered : named place ∈ offerCards hand allowed named := by
    unfold offerCards
    exact List.mem_filterMap.mpr ⟨_, listed, if_pos fits⟩
  exact List.ne_nil_of_mem offered

/-- Some card of a hand can be led: one that is not of the breaking suit, or else any. -/
theorem exists_mayLead (table : Table) (phase : TrickPhase) {hand : List Card}
    (some : hand ≠ []) : ∃ card ∈ hand, table.mayLead phase hand card = true := by
  unfold mayLead
  cases phase.breaking with
  | none => exact ⟨hand.head some, List.head_mem some, rfl⟩
  | some breaking =>
      dsimp only
      cases only : hand.all fun other => decide (.suit other.suit = breaking) with
      | true =>
          refine ⟨hand.head some, List.head_mem some, ?_⟩
          rw [Bool.or_true]
      | false =>
          obtain ⟨card, held, other⟩ := List.all_eq_false.mp only
          refine ⟨card, held, ?_⟩
          simp only [decide_eq_true_eq] at other
          simp [other]

/-- Some card of a hand can follow: one of the suit that was led, or else any. -/
theorem exists_mayFollow (phase : TrickPhase) (lead : Card) {hand : List Card}
    (some : hand ≠ []) : ∃ card ∈ hand, mayFollow phase lead hand card = true := by
  unfold mayFollow
  cases none : hand.all fun other => decide (other.suit ≠ lead.suit) with
  | true =>
      refine ⟨hand.head some, List.head_mem some, ?_⟩
      rw [Bool.or_true]
  | false =>
      obtain ⟨card, held, same⟩ := List.all_eq_false.mp none
      refine ⟨card, held, ?_⟩
      simp only [decide_eq_true_eq, not_not] at same
      simp [same]

theorem offerTrick_ne_nil {tricks : TrickPhase} (some : table.hand seat ≠ [])
    (fresh : table.trick.contains seat = false) : table.offerTrick seat tricks ≠ [] := by
  unfold offerTrick
  dsimp only
  rw [fresh, if_neg Bool.false_ne_true]
  apply offerCards_ne_nil
  split
  · exact exists_mayLead table tricks some
  · cases (table.tableau.head?.getD []).head? with
    | none => exact ⟨_, List.head_mem some, rfl⟩
    | some lead => exact exists_mayFollow tricks lead some

theorem offerBetting_ne_nil {bets : BettingPhase}
    (able : table.mayPass seat (.betting bets) = false) : table.offerBetting seat bets ≠ [] := by
  unfold mayPass at able
  dsimp only at able
  unfold offerBetting
  dsimp only
  rw [if_neg (ne_true_of_eq_false able)]
  split
  · exact List.cons_ne_nil _ _
  · exact List.append_ne_nil_of_right_ne_nil _ (List.cons_ne_nil _ [])

theorem offerClaim_ne_nil (some : table.hand seat ≠ []) : table.offerClaim seat ≠ [] := by
  unfold offerClaim
  split
  · exact List.cons_ne_nil _ _
  · exact offerCards_ne_nil ⟨_, List.head_mem some, rfl⟩ _

theorem offerBids_ne_nil {bids : BiddingPhase} (inRange : bids.InRange)
    (silent : table.hasBid seat = false) : table.offerBids seat bids ≠ [] := by
  have range := inRange.bids.2.1
  have room : 0 < min (bids.maxBid - bids.minBid + 1).toNat maxMoves := by
    refine Nat.lt_min.mpr ⟨by omega, by decide⟩
  have lowest := List.mem_range.mpr room
  unfold offerBids
  dsimp only
  rw [silent, if_neg Bool.false_ne_true]
  apply List.append_ne_nil_of_left_ne_nil
  exact List.ne_nil_of_mem (List.mem_map_of_mem lowest)

/-- Whoever may not pass has a move. -/
theorem offers_ne_nil (inRange : phase.InRange) (passable : phase.passable = true)
    (room : table.step < phase.steps) (stays : table.mayPass table.active phase = false) :
    table.offers program table.active table.phase phase ≠ [] := by
  have here : table.stepIn table.active table.phase = table.step := if_pos ⟨rfl, rfl⟩
  cases phase with
  | draw => cases stays
  | play phase =>
      have optional : phase.mandatory = false := by
        unfold mayPass at stays
        rw [Bool.or_eq_false_iff] at stays
        change (!phase.mandatory || phase.passIfUnable) = true at passable
        rw [stays.1, Bool.or_false] at passable
        simpa using passable
      change table.offerPlay program table.active _ phase ≠ []
      unfold offerPlay
      apply List.append_ne_nil_of_right_ne_nil
      rw [if_pos (.inr (by rw [optional]; rfl))]
      exact List.cons_ne_nil _ []
  | discard phase =>
      have some : table.hand table.active ≠ [] := by
        intro empty
        unfold mayPass at stays
        rw [empty] at stays
        cases stays
      change table.step < phase.count at room
      change table.offerDiscard table.active _ phase ≠ []
      unfold offerDiscard
      apply List.append_ne_nil_of_left_ne_nil
      rw [here, if_pos room]
      exact offerCards_ne_nil ⟨_, List.head_mem some, rfl⟩ _
  | trick phase =>
      unfold mayPass at stays
      rw [Bool.or_eq_false_iff, List.isEmpty_eq_false_iff] at stays
      exact offerTrick_ne_nil stays.1 stays.2
  | betting phase => exact offerBetting_ne_nil stays
  | claim phase =>
      unfold mayPass at stays
      rw [List.isEmpty_eq_false_iff] at stays
      exact offerClaim_ne_nil stays
  | bidding phase => exact offerBids_ne_nil inRange stays

/-- A turn that stands at a phase has a move on offer or may pass. -/
theorem InTurn.moves_ne_nil_or_canPass (inTurn : table.InTurn program) (inRange : program.InRange)
    (passable : program.Passable) :
    table.moves program ≠ [] ∨ table.canPass program = true := by
  obtain ⟨phase, found, _, room⟩ := inTurn.current
  unfold moves movesFor canPass canPassAt
  rw [found]
  cases stays : table.mayPass table.active phase with
  | true => exact .inr stays
  | false =>
      have offered : table.offers program table.active table.phase phase ≠ [] :=
        offers_ne_nil (inRange.phase? found) (passable phase (Program.mem_phases_of_phase? found))
          room stays
      exact .inl fun none => offered (List.map_eq_nil_iff.mp none)

end Table

/-! ### Actions left in a turn -/

namespace Program

variable {program : Program} {index : Int} {phase : Phase}

/-- The most actions that a turn can take from a phase on. -/
def mostActionsFrom (program : Program) (index : Int) : Int :=
  total ((program.phases.drop index.toNat).map Phase.mostActions)

theorem mostActionsFrom_eq (found : program.phase? index = some phase) :
    program.mostActionsFrom index = phase.mostActions + program.mostActionsFrom (index + 1) := by
  obtain ⟨nonneg, listed⟩ := phase?_eq_some_iff.mp found
  obtain ⟨inside, rfl⟩ := List.getElem?_eq_some_iff.mp listed
  have onwards : (index + 1).toNat = index.toNat + 1 := by omega
  unfold mostActionsFrom
  rw [List.drop_eq_getElem_cons inside, List.map_cons, total_cons, onwards]

theorem InRange.mostActions_nonneg (inRange : program.InRange) {phases : List Phase}
    (some : phases ⊆ program.phases) : 0 ≤ total (phases.map Phase.mostActions) := by
  apply total_nonneg
  intro number member
  obtain ⟨phase, listed, rfl⟩ := List.mem_map.mp member
  have steps := (inRange.phases phase (some listed)).one_le_steps
  have most := phase.steps_le_mostActions
  omega

theorem InRange.mostActionsFrom_nonneg (inRange : program.InRange) (index : Int) :
    0 ≤ program.mostActionsFrom index :=
  inRange.mostActions_nonneg (List.drop_subset _ _)

theorem InRange.mostActionsFrom_le (inRange : program.InRange) (index : Int) :
    program.mostActionsFrom index ≤ program.mostActions := by
  have before := inRange.mostActions_nonneg (List.take_subset index.toNat program.phases)
  have whole : program.mostActions = total ((program.phases.take index.toNat).map
      Phase.mostActions) + program.mostActionsFrom index := by
    unfold mostActions mostActionsFrom
    rw [← total_append, ← List.map_append, List.take_append_drop]
  omega

end Program

namespace Table

variable {table next : Table} {program : Program} {phase : Phase}

/-- What was already done in the current phase: cards are counted, and so is the answer to a
claim, or that there is none to answer. -/
def actionsSpent (table : Table) : Phase → Int
  | .claim _ => if table.claim.pending = true ∧ table.claim.claimant ≠ table.active then 0 else 1
  | .draw _ | .play _ | .discard _ | .trick _ | .betting _ | .bidding _ => table.step

/-- How many actions the turn has room for from here on. -/
def actionsLeft (table : Table) (program : Program) : Int :=
  program.mostActionsFrom table.phase -
    ((program.phase? table.phase).map table.actionsSpent).getD 0

theorem actionsLeft_eq (found : program.phase? table.phase = some phase) :
    table.actionsLeft program =
      program.mostActionsFrom table.phase - table.actionsSpent phase := by
  unfold actionsLeft
  rw [found]
  rfl

theorem actionsSpent_of_through (through : phase.endsTurn = false) :
    table.actionsSpent phase = table.step := by
  cases phase with
  | trick | betting | claim => cases through
  | draw | play | discard | bidding => rfl

theorem actionsSpent_nonneg (nonneg : 0 ≤ table.step) (phase : Phase) :
    0 ≤ table.actionsSpent phase := by
  cases phase with
  | claim =>
      change (0 : Int) ≤ if _ then 0 else 1
      split <;> decide
  | draw | play | discard | trick | betting | bidding => exact nonneg

theorem actionsSpent_lt (room : table.step < phase.steps) :
    table.actionsSpent phase < phase.mostActions := by
  cases phase with
  | claim =>
      change (if _ then 0 else 1) < (2 : Int)
      split <;> decide
  | draw | play | discard | trick | betting | bidding => exact room

theorem InTurn.one_le_actionsLeft (inTurn : table.InTurn program) (inRange : program.InRange) :
    1 ≤ table.actionsLeft program := by
  obtain ⟨phase, found, _, room⟩ := inTurn.current
  have spent := actionsSpent_lt room
  have later := inRange.mostActionsFrom_nonneg (table.phase + 1)
  rw [actionsLeft_eq found, Program.mostActionsFrom_eq found]
  omega

theorem InTurn.actionsLeft_le (inTurn : table.InTurn program) (inRange : program.InRange) :
    table.actionsLeft program ≤ program.mostActions := by
  obtain ⟨phase, found, nonneg, _⟩ := inTurn.current
  have spent := actionsSpent_nonneg nonneg phase
  have planned := inRange.mostActionsFrom_le table.phase
  rw [actionsLeft_eq found]
  omega

/-- An action that does not end the turn uses up at least one of those that were left. -/
theorem InTurn.actionsLeft_lt (inTurn : table.InTurn program)
    (inTurn' : next.InTurn program) (found : program.phase? table.phase = some phase)
    (advances : Advances program phase table next) (same : next.turn = table.turn) :
    next.actionsLeft program < table.actionsLeft program := by
  obtain ⟨current, here, _, room⟩ := inTurn.current
  cases found.symm.trans here
  obtain ⟨after, there, nonneg, _⟩ := inTurn'.current
  rw [actionsLeft_eq found, actionsLeft_eq there]
  cases advances with
  | ended turn => omega
  | onward turn kept through place inside fresh =>
      have spent := actionsSpent_lt room
      have begun := actionsSpent_nonneg nonneg after
      rw [Program.mostActionsFrom_eq found, place]
      omega
  | stepped turn kept through place one more =>
      rw [place, found] at there
      cases there
      rw [place, actionsSpent_of_through through, actionsSpent_of_through through, one]
      omega
  | answered turn kept claim place step asked settled =>
      rw [place, found] at there
      cases there
      cases phase with
      | claim claims =>
          have before : table.actionsSpent (.claim claims) = 0 := if_pos asked
          have answered : next.actionsSpent (.claim claims) = 1 := by
            apply if_neg
            intro pending
            rw [settled] at pending
            cases pending.1
          rw [place, before, answered]
          omega
      | draw | play | discard | trick | betting | bidding => cases claim

end Table

/-! ### Turns -/

/-- So many legal actions that begin in the turn of the first table lead to the last one. -/
inductive WithinTurn (program : Program) (first : Table) : Nat → Outcome → Table → Prop where
  | begin : WithinTurn program first 0 .open first
  | act {count : Nat} {table next : Table} {outcome : Outcome} {action : Action}
      (earlier : WithinTurn program first count .open table) (same : table.turn = first.turn)
      (legal : action.Legal program table) (acted : action.act program table = .ok outcome next) :
      WithinTurn program first (count + 1) outcome next

section

variable {program : Program} {seed : UInt64} {first last : Table} {count : Nat}
  {outcome : Outcome}

theorem WithinTurn.reached (reached : Reached program seed .open first)
    (within : WithinTurn program first count outcome last) :
    Reached program seed outcome last := by
  induction within with
  | begin => exact reached
  | act earlier same legal acted ih => exact .step ih legal acted

/-- What a turn has taken and what is left of it add up to what was left at first. -/
theorem WithinTurn.count_add_le (inRange : program.InRange)
    (reached : Reached program seed .open first)
    (within : WithinTurn program first count outcome last) :
    count ≤ first.actionsLeft program ∧
      (last.turn = first.turn →
        count + last.actionsLeft program ≤ first.actionsLeft program) := by
  induction within with
  | begin =>
      have left := (reached.inTurn inRange).one_le_actionsLeft inRange
      constructor
      · omega
      · intro _
        omega
  | act earlier same legal acted ih =>
      have run := earlier.reached reached
      have here := run.inTurn inRange
      have there := (Reached.step run legal acted).inTurn inRange
      have left := here.one_le_actionsLeft inRange
      have before := ih.2 same
      constructor
      · omega
      · intro still
        obtain ⟨phase, found, advances⟩ := Action.advances_act run.handOver_of_open legal acted
        have used := here.actionsLeft_lt there found advances (still.trans same.symm)
        omega

end

end Croupier
