/-
Tricks that have the tableau to themselves.

The cards of a trick lie on the first tableau pile, and who contributed them is kept apart from
them. As long as nothing else puts cards on the tableau or takes any from there, the two go
together: there is a contributor for every card of the trick, so whichever card is the best,
somebody has won. A program whose turn structure mixes tricks with other phases on the tableau
has no such property.
-/

import Croupier.Proofs.Play.Blind
import Croupier.Proofs.Play.Run

namespace Croupier

/-! ### Programs -/

/-- Whether a phase other than a trick moves cards to or from the tableau. -/
def Phase.touchesTableau : Phase → Bool
  | .draw phase => phase.source = .tableau
  | .play phase => phase.target = .tableau
  | .discard phase => phase.target = .tableau
  | .trick _ | .betting _ | .claim _ | .bidding _ => false

/-- A program with tricks leaves the tableau to them. -/
def Program.TricksApart (program : Program) : Prop :=
  program.hasPhase .trick = true → ∀ phase ∈ program.phases, phase.touchesTableau = false

instance (program : Program) : Decidable program.TricksApart :=
  inferInstanceAs (Decidable (_ → _))

theorem Program.mem_phases_of_phase? {program : Program} {index : Int} {phase : Phase}
    (found : program.phase? index = some phase) : phase ∈ program.phases := by
  unfold phase? at found
  split at found
  · cases found
  · exact List.mem_of_getElem? found

/-! ### The best card -/

/-- The best card is the best one so far or one of those that follow it. -/
theorem TrickPhase.bestFrom_cases (phase : TrickPhase) (lead : Suit) (place : Nat) (best : Card)
    (later : List (Card × Nat)) :
    phase.bestFrom lead place best later = place ∨
      phase.bestFrom lead place best later ∈ later.map Prod.snd := by
  induction later generalizing place best with
  | nil => exact .inl rfl
  | cons entry rest ih =>
      obtain ⟨card, after⟩ := entry
      unfold bestFrom
      split
      · rcases ih after card with same | listed
        · rw [same]
          exact .inr (.head _)
        · exact .inr (.tail _ listed)
      · exact (ih place best).imp id (.tail _)

theorem TrickPhase.winningPlace_lt_length (phase : TrickPhase) {cards : List Card}
    (laid : cards ≠ []) : phase.winningPlace cards < cards.length := by
  cases cards with
  | nil => exact absurd rfl laid
  | cons lead rest =>
      change phase.bestFrom lead.suit 0 lead (rest.zipIdx 1) < _
      rcases phase.bestFrom_cases lead.suit 0 lead (rest.zipIdx 1) with same | listed
      · rw [same]
        exact Nat.zero_lt_succ _
      · obtain ⟨⟨card, place⟩, found, placed⟩ := List.mem_map.mp listed
        have below := (List.mem_zipIdx found).2.1
        rw [← placed, List.length_cons]
        omega

namespace Table

variable {table next : Table} {seat actor leader : Int} {card : Card} {program : Program}

/-! ### What the tableau is about -/

/-- The trick or the battle in progress: its cards and who contributed them. -/
def contest (table : Table) : List Card × List Int × List Int :=
  (table.centre, table.trick, table.battleSeats)

theorem stakeBlind_contest : StakeBlind contest :=
  fun _ _ _ _ _ _ _ _ _ => rfl

theorem handBlind_contest : HandBlind contest where
  hand table seat _ := stakeBlind_contest.modifyPlayer table seat _
  deck _ _ := rfl
  discard _ _ := rfl
  generator _ _ := rfl

/-- Effects draw from the deck and change hands; they leave the tableau alone. -/
theorem contest_triggerEffect (table : Table) (program : Program) (actor : Int) (card : Card) :
    (table.triggerEffect program actor card).contest = table.contest :=
  handBlind_contest.triggerEffect (fun _ _ _ => rfl) table program actor card

theorem contest_scoreContracts (table : Table) (program : Program) :
    (table.scoreContracts program).contest = table.contest := by
  unfold scoreContracts
  split <;> rfl

theorem orderBlind_contest : OrderBlind contest :=
  fun _ _ _ _ _ _ => rfl

/-! ### Contributors and cards -/

/-- There is a contributor for every card of the trick, and no battle is in progress. -/
structure Matched (table : Table) : Prop where
  contributors : table.trick.length = table.centre.length
  noBattle : table.battleSeats = []

theorem Matched.of_contest (matched : table.Matched) (same : next.contest = table.contest) :
    next.Matched := by
  obtain ⟨centre, trick, battle⟩ := Prod.mk.inj same |>.imp id Prod.mk.inj
  exact ⟨by rw [trick, centre, matched.contributors], battle.trans matched.noBattle⟩

theorem centre_modifyTableau (piles : table.tableau ≠ []) (change : List Card → List Card) :
    (table.modifyTableau change).centre = change table.centre := by
  unfold modifyTableau centre
  cases listed : table.tableau with
  | nil => exact absurd listed piles
  | cons pile rest => rfl

theorem centre_clearTableau (table : Table) : (table.modifyTableau fun _ => []).centre = [] := by
  unfold modifyTableau centre
  cases table.tableau <;> rfl

/-- A trick that somebody has contributed to is won by a contributor. -/
theorem Matched.exists_winner (matched : table.Matched) (begun : table.trick ≠ [])
    (phase : TrickPhase) :
    ∃ winner ∈ table.trick, table.trick[phase.winningPlace table.centre]? = some winner := by
  have laid : table.centre ≠ [] := by
    rw [← List.length_pos_iff, ← matched.contributors]
    exact List.length_pos_iff.mpr begun
  have known : phase.winningPlace table.centre < table.trick.length := by
    rw [matched.contributors]
    exact phase.winningPlace_lt_length laid
  exact ⟨_, List.getElem_mem known, List.getElem?_eq_getElem known⟩

theorem Matched.takeTrick_mem (matched : table.Matched) (begun : table.trick ≠ [])
    (program : Program) (phase : TrickPhase) :
    (table.takeTrick program phase).1 ∈ table.trick := by
  obtain ⟨winner, contributed, wins⟩ := matched.exists_winner begun phase
  unfold takeTrick
  dsimp only
  rw [wins]
  exact contributed

theorem Matched.trick_takeTrick (matched : table.Matched) (begun : table.trick ≠ [])
    (program : Program) (phase : TrickPhase) : (table.takeTrick program phase).2.trick = [] := by
  obtain ⟨winner, _, wins⟩ := matched.exists_winner begun phase
  unfold takeTrick
  dsimp only
  rw [wins]

theorem Matched.settleTrick (matched : table.Matched) (program : Program) (phase : TrickPhase) :
    (table.settleTrick program phase).2.Matched := by
  have taken : (table.takeTrick program phase).2.Matched := by
    unfold takeTrick
    dsimp only
    split
    · exact matched
    · refine ⟨(congrArg List.length (centre_clearTableau _)).symm, ?_⟩
      exact (congrArg Frame.battleSeats (frame_modifyPlayer table _ _)).trans matched.noBattle
  have scored := taken.of_contest (contest_scoreContracts _ program)
  unfold Table.settleTrick
  split
  · dsimp only
    split
    · split
      · exact scored.of_contest rfl
      · exact taken.of_contest rfl
    · exact taken
  · exact matched

theorem Matched.settleBattle (matched : table.Matched) (program : Program) :
    table.settleBattle program = table := by
  unfold Table.settleBattle battleComplete
  rw [matched.noBattle]
  rfl

theorem Matched.contribute (matched : table.Matched) (seat : Int) (card : Card)
    (phase : TrickPhase) : (table.contribute seat card phase).Matched := by
  have frame := frame_place table seat .tableau card
  have trick : (table.place seat .tableau card).trick = table.trick := congrArg Frame.trick frame
  have laid : (table.place seat .tableau card).centre = table.centre ++ [card] := by
    change (table.openTableau.modifyTableau (· ++ [card])).centre = _
    rw [centre_modifyTableau (openTableau_ne_nil table), centre_openTableau]
  refine ⟨?_, (congrArg Frame.battleSeats frame).trans matched.noBattle⟩
  change ((table.place seat .tableau card).trick ++ [seat]).length =
    (table.place seat .tableau card).centre.length
  rw [trick, laid, List.length_append, List.length_append, matched.contributors]
  rfl

theorem Matched.contribution (matched : table.Matched) (program : Program) (seat : Int)
    (place : Nat) (card : Card) (phase : TrickPhase) :
    (((table.without seat place).contribute seat card phase).triggerEffect program seat
      card).Matched := by
  have lifted : (table.without seat place).Matched :=
    matched.of_contest (handBlind_contest.hand table seat _)
  have laid := lifted.contribute seat card phase
  exact laid.of_contest (contest_triggerEffect _ program seat card)

theorem Matched.passIn (matched : table.Matched) (program : Program) (phase : Phase) :
    (table.passIn program phase).2.Matched := by
  unfold Table.passIn
  rw [matched.settleBattle program, ite_self]
  cases phase with
  | trick phase => exact matched.settleTrick program phase
  | betting phase => exact matched.of_contest (stakeBlind_contest.settleBetting table program)
  | draw | play | discard | claim | bidding => exact matched

/-! ### Steps -/

theorem contest_playCard (table : Table) (program : Program) (seat : Int) (card : Card)
    {target : Location} (elsewhere : target ≠ .tableau) :
    (table.playCard program seat card target).contest = table.contest := by
  unfold playCard
  rw [openPile_of_ne elsewhere]
  dsimp only
  split
  · have uncovered := handBlind_contest.modifyPile table seat elsewhere List.dropLast
    exact (stakeBlind_contest.modifyPlayer _ seat _).trans uncovered
  · rw [if_neg fun war => elsewhere war.2]
    exact handBlind_contest.modifyPile table seat elsewhere _

/-- A step that names no place on the tableau, in a phase that leaves it to the tricks. -/
theorem Matched.carries {phase : Phase} {move : Move} (matched : table.Matched)
    (current : program.phase? move.phase = some phase) (off : phase.touchesTableau = false)
    (aimed : move.choice.location ≠ .tableau)
    (carries : Play.Carries program seat table move leader next) : next.Matched := by
  cases carries with
  | draw found =>
      cases current.symm.trans found
      have drawn := handBlind_contest.draw table seat (of_decide_eq_false off)
      exact matched.of_contest (drawn _)
  | @play _ place target _ card _ _ =>
      have lifted := handBlind_contest.hand table seat (·.eraseIdx place.toNat)
      have played := contest_playCard (table.without seat place.toNat) program seat card aimed
      exact matched.of_contest
        ((contest_triggerEffect _ program seat card).trans (played.trans lifted))
  | @discard _ place target _ card _ _ =>
      have lifted := handBlind_contest.hand table seat (·.eraseIdx place.toNat)
      exact matched.of_contest ((handBlind_contest.modifyPile _ seat aimed _).trans lifted)
  | @trick _ place phase card _ _ _ contributed =>
      subst contributed
      exact (matched.contribution program seat place.toNat card phase).settleTrick program phase
  | bet found known =>
      have wagered := stakeBlind_contest.wager known
      exact matched.of_contest ((stakeBlind_contest.settleBetting _ program).trans wagered)
  | @claim _ place _ _ _ _ =>
      exact matched.of_contest (handBlind_contest.hand table seat (·.eraseIdx place.toNat))
  | challenge => exact matched.of_contest (handBlind_contest.hand table _ _)
  | accept => exact matched.of_contest rfl
  | bid => exact matched.of_contest (stakeBlind_contest.modifyPlayer table seat _)
  | pass =>
      unfold pass
      split
      · exact matched
      · exact matched.passIn program _

theorem Matched.nextHand (table : Table) (program : Program) :
    (table.nextHand program).Matched := by
  refine ⟨?_, rfl⟩
  change 0 = ((table.tableau.map fun _ => ([] : List Card)).head?.getD []).length
  cases table.tableau <;> rfl

theorem Matched.finishAction (matched : table.Matched) (program : Program) :
    (table.finishAction program).2.Matched := by
  unfold Table.finishAction
  dsimp only
  split
  · exact .nextHand _ program
  · exact matched.of_contest rfl

theorem Matched.opening (program : Program) (seed : UInt64) :
    (Table.opening program seed).Matched := by
  refine ⟨?_, rfl⟩
  change 0 = ((if program.usesTableau then [[]] else []).head?.getD ([] : List Card)).length
  cases program.usesTableau <;> rfl

/-- What is on offer in a phase that stays off the tableau is not aimed there. -/
theorem Offered.location_ne_tableau {phase : Phase} {choice : Choice}
    (offered : table.Offered seat phase choice) (off : phase.touchesTableau = false) :
    choice.location ≠ .tableau := by
  cases offered with
  | draw | play _ | discard _ => exact of_decide_eq_false off
  | trick | bet | claim | challenge | accept | bid | pass => nofun

end Table

/-! ### Runs -/

namespace Action

variable {program : Program} {table next : Table} {outcome : Outcome} {action : Action}

theorem matched_act (matched : table.Matched)
    (off : ∀ phase, program.phase? table.phase = some phase → phase.touchesTableau = false)
    (legal : action.Legal program table)
    (acted : action.act program table = .ok outcome next) : next.Matched := by
  have passes (passed : Play.pass program table = .ok outcome next) : next.Matched := by
    obtain ⟨phase, _, finished⟩ := Play.pass_eq_ok_iff.mp passed
    have sequenced := (matched.passIn program phase).of_contest
      (Table.orderBlind_contest.afterPass _ program phase (table.passIn program phase).1)
    have done := sequenced.finishAction program
    rwa [finished] at done
  cases action with
  | pass => exact passes acted
  | move offered =>
      obtain ⟨phase, choice, found, rfl, offered⟩ := Table.offered_of_mem_moves legal
      have away := off phase found
      by_cases passing : choice = .pass
      · subst passing
        exact passes (Play.perform_pass_eq_ok_iff.mp acted).2
      · obtain ⟨_, leader, moved, carries, finished⟩ := (Play.perform_eq_ok_iff passing).mp acted
        have settled := matched.carries found away (offered.location_ne_tableau away) carries
        have sequenced := settled.of_contest
          (Table.orderBlind_contest.afterMove moved program choice leader)
        have done := sequenced.finishAction program
        rwa [finished] at done

end Action

/-- A trick has a contributor for each of its cards in every state of a legal run of a program
that leaves the tableau to its tricks. -/
theorem Reached.matched {program : Program} {seed : UInt64} {outcome : Outcome} {table : Table}
    (apart : program.TricksApart) (tricks : program.hasPhase .trick = true)
    (reached : Reached program seed outcome table) : table.Matched := by
  induction reached with
  | start dealt =>
      obtain ⟨_, rfl⟩ := Table.start_eq_ok_iff.mp dealt
      exact .opening program seed
  | step earlier legal acted ih =>
      refine Action.matched_act ih ?_ legal acted
      intro phase found
      exact apart tricks phase (Program.mem_phases_of_phase? found)

end Croupier
