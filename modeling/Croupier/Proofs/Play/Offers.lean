/-
What is on offer can be done.

A move on offer fits the phase that it is offered in: a card that it names lies in the hand, a
claim that it answers is pending, and a betting action that it takes is one. These are the
facts that carrying out the move asks for.
-/

import Croupier.Proofs.Play.Step

namespace Croupier.Table

variable {table : Table} {seat : Int} {program : Program} {choice : Choice}

/-- What a choice on offer in a phase presupposes. -/
inductive Offered (table : Table) (seat : Int) : Phase → Choice → Prop where
  | draw {phase : DrawPhase} : Offered table seat (.draw phase) (.draw phase.source)
  | play {phase : PlayPhase} {place : Int} {card : Card} (held : table.HasCard seat place card) :
      Offered table seat (.play phase) (.play place phase.target)
  | discard {phase : DiscardPhase} {place : Int} {card : Card}
      (held : table.HasCard seat place card) :
      Offered table seat (.discard phase) (.discard place phase.target)
  | trick {phase : TrickPhase} {place : Int} {card : Card}
      (held : table.HasCard seat place card) :
      Offered table seat (.trick phase) (.trick place)
  | bet {phase : BettingPhase} {action : BettingAction}
      (known : ∀ before : Table, (before.wager? seat phase action).isSome) :
      Offered table seat (.betting phase) (.bet action)
  | claim {phase : ClaimPhase} {place : Int} {card : Card}
      (held : table.HasCard seat place card) :
      Offered table seat (.claim phase) (.claim place)
  | challenge {phase : ClaimPhase} (pending : table.claim.pending = true) :
      Offered table seat (.claim phase) .challenge
  | accept {phase : ClaimPhase} : Offered table seat (.claim phase) .accept
  | bid {phase : BiddingPhase} {value : Int} : Offered table seat (.bidding phase) (.bid value)
  | pass {phase : Phase} : Offered table seat phase .pass

/-! ### Offers by phase -/

theorem mem_offerCards {hand : List Card} {allowed : Card → Bool} {named : Int → Choice}
    (member : choice ∈ offerCards hand allowed named) :
    ∃ (place : Int) (card : Card), choice = named place ∧ 0 ≤ place ∧
      hand[place.toNat]? = some card := by
  obtain ⟨⟨card, place⟩, listed, offered⟩ := List.mem_filterMap.mp member
  dsimp only at offered
  split at offered
  · cases offered
    exact ⟨place, card, rfl, Int.natCast_nonneg place, List.mem_zipIdx_iff_getElem?.mp listed⟩
  · cases offered

theorem offered_of_mem_offerDraw {phase : DrawPhase}
    (member : choice ∈ table.offerDraw program seat phase) :
    table.Offered seat (.draw phase) choice := by
  unfold offerDraw at member
  split at member
  · rcases List.mem_append.mp member with draw | pass
    · split at draw
      · rw [List.mem_singleton.mp draw]
        exact .draw
      · cases draw
    · split at pass
      · cases pass
      · rw [List.mem_singleton.mp pass]
        exact .pass
  · cases member

theorem offered_of_mem_offerPlay {phase : PlayPhase} {step : Int}
    (member : choice ∈ table.offerPlay program seat step phase) :
    table.Offered seat (.play phase) choice := by
  unfold offerPlay at member
  rcases List.mem_append.mp member with card | pass
  · split at card
    · obtain ⟨place, held, rfl, nonneg, there⟩ := mem_offerCards card
      exact .play ⟨nonneg, there⟩
    · cases card
  · split at pass
    · rw [List.mem_singleton.mp pass]
      exact .pass
    · cases pass

theorem offered_of_mem_offerDiscard {phase : DiscardPhase} {step : Int}
    (member : choice ∈ table.offerDiscard seat step phase) :
    table.Offered seat (.discard phase) choice := by
  unfold offerDiscard at member
  rcases List.mem_append.mp member with card | pass
  · split at card
    · obtain ⟨place, held, rfl, nonneg, there⟩ := mem_offerCards card
      exact .discard ⟨nonneg, there⟩
    · cases card
  · split at pass
    · cases pass
    · rw [List.mem_singleton.mp pass]
      exact .pass

theorem offered_of_mem_offerTrick {phase : TrickPhase}
    (member : choice ∈ table.offerTrick seat phase) :
    table.Offered seat (.trick phase) choice := by
  unfold offerTrick at member
  dsimp only at member
  split at member
  · cases member
  · obtain ⟨place, held, rfl, nonneg, there⟩ := mem_offerCards member
    exact .trick ⟨nonneg, there⟩

theorem offered_of_mem_offerBetting {phase : BettingPhase}
    (member : choice ∈ table.offerBetting seat phase) :
    table.Offered seat (.betting phase) choice := by
  have wagers : choice ∈ [.bet .check, .bet .bet, .bet .allIn, .bet .call, .bet .raise,
      Choice.bet .fold] := by
    unfold offerBetting at member
    grind
  simp only [List.mem_cons, List.not_mem_nil, or_false] at wagers
  rcases wagers with rfl | rfl | rfl | rfl | rfl | rfl <;> exact .bet fun _ => rfl

theorem offered_of_mem_offerClaim {phase : ClaimPhase}
    (member : choice ∈ table.offerClaim seat) : table.Offered seat (.claim phase) choice := by
  unfold offerClaim at member
  split at member
  · rename_i answer
    rw [Bool.and_eq_true] at answer
    rcases List.mem_pair.mp member with rfl | rfl
    · exact .challenge answer.1
    · exact .accept
  · obtain ⟨place, held, rfl, nonneg, there⟩ := mem_offerCards member
    exact .claim ⟨nonneg, there⟩

theorem offered_of_mem_offerBids {phase : BiddingPhase}
    (member : choice ∈ table.offerBids seat phase) :
    table.Offered seat (.bidding phase) choice := by
  unfold offerBids at member
  split at member
  · cases member
  · rcases List.mem_append.mp member with listed | none
    · obtain ⟨place, _, rfl⟩ := List.mem_map.mp listed
      exact .bid
    · split at none
      · rw [List.mem_singleton.mp none]
        exact .bid
      · cases none

/-! ### All offers -/

theorem offered_of_mem_offers {index : Int} {phase : Phase}
    (member : choice ∈ table.offers program seat index phase) :
    table.Offered seat phase choice := by
  cases phase with
  | draw phase => exact offered_of_mem_offerDraw member
  | play phase => exact offered_of_mem_offerPlay member
  | discard phase => exact offered_of_mem_offerDiscard member
  | trick phase => exact offered_of_mem_offerTrick member
  | betting phase => exact offered_of_mem_offerBetting member
  | claim phase => exact offered_of_mem_offerClaim member
  | bidding phase => exact offered_of_mem_offerBids member

theorem mem_moves_iff {move : Move} :
    move ∈ table.moves program ↔
      ∃ phase choice, program.phase? table.phase = some phase ∧ move = ⟨table.phase, choice⟩ ∧
        choice ∈ table.offers program table.active table.phase phase := by
  unfold moves movesFor
  cases program.phase? table.phase with
  | none => simp
  | some phase =>
      constructor
      · intro member
        obtain ⟨choice, offered, rfl⟩ := List.mem_map.mp member
        exact ⟨phase, choice, rfl, rfl, offered⟩
      · rintro ⟨_, choice, ⟨⟩, rfl, offered⟩
        exact List.mem_map_of_mem offered

theorem offered_of_mem_moves {move : Move} (member : move ∈ table.moves program) :
    ∃ phase choice, program.phase? table.phase = some phase ∧ move = ⟨table.phase, choice⟩ ∧
      table.Offered table.active phase choice := by
  obtain ⟨phase, choice, found, same, offered⟩ := mem_moves_iff.mp member
  exact ⟨phase, choice, found, same, offered_of_mem_offers offered⟩

/-- A mandatory draw without a condition is on offer whatever there is to draw. -/
theorem draw_mem_moves {phase : DrawPhase}
    (found : program.phase? table.phase = some (.draw phase)) (mandatory : phase.mandatory = true)
    (always : phase.condition = none) :
    ⟨table.phase, .draw phase.source⟩ ∈ table.moves program := by
  have offered : Choice.draw phase.source ∈ table.offerDraw program table.active phase := by
    unfold offerDraw
    rw [always, mandatory]
    simp
  exact mem_moves_iff.mpr ⟨_, _, found, rfl, offered⟩

/-! ### Carrying out what is on offer -/

theorem Offered.exists_carries {phase : Phase} {index : Int}
    (offered : table.Offered seat phase choice) (found : program.phase? index = some phase) :
    ∃ leader next, Play.Carries program seat table ⟨index, choice⟩ leader next := by
  cases offered with
  | draw => exact ⟨_, _, .draw found⟩
  | play held => exact ⟨_, _, .play found held⟩
  | discard held => exact ⟨_, _, .discard found held⟩
  | trick held => exact ⟨_, _, .trick found held rfl⟩
  | bet known =>
      obtain ⟨wagered, known⟩ := Option.isSome_iff_exists.mp (known table)
      exact ⟨_, _, .bet found known⟩
  | claim held => exact ⟨_, _, .claim found held⟩
  | challenge pending => exact ⟨_, _, .challenge found pending⟩
  | accept => exact ⟨_, _, .accept found⟩
  | bid => exact ⟨_, _, .bid found⟩
  | pass => exact ⟨_, _, .pass⟩

/-- A choice on offer to the active participant is not refused. -/
theorem Offered.exists_perform {phase : Phase} (offered : table.Offered table.active phase choice)
    (found : program.phase? table.phase = some phase) :
    ∃ outcome next, Play.perform program ⟨table.phase, choice⟩ table = .ok outcome next := by
  by_cases passing : choice = .pass
  · obtain ⟨outcome, next, passed⟩ := Play.exists_pass found
    subst passing
    exact ⟨outcome, next, Play.perform_pass_eq_ok_iff.mpr ⟨rfl, passed⟩⟩
  · obtain ⟨leader, moved, carries⟩ := offered.exists_carries found
    exact Play.exists_perform passing carries

theorem exists_perform_of_mem_moves {move : Move} (member : move ∈ table.moves program) :
    ∃ outcome next, Play.perform program move table = .ok outcome next := by
  obtain ⟨phase, choice, found, rfl, offered⟩ := offered_of_mem_moves member
  exact offered.exists_perform found

/-- Neither is a pass that is allowed. -/
theorem exists_pass_of_canPass (allowed : table.canPass program = true) :
    ∃ outcome next, Play.pass program table = .ok outcome next := by
  obtain ⟨phase, found, _⟩ := (Option.any_eq_true _ _).mp allowed
  exact Play.exists_pass found

end Croupier.Table
