/-
Who comes next, and how far the turn has come.

How many participants the end of a turn passes over is up to card effects and to the turn order;
no other rule has a part in it. An effect passes over some but never over all of them, and the
end of the turn, like the next hand, begins afresh. So whoever is active sits at the table, and a
turn in which nothing has happened yet passes over nobody.
-/

import Croupier.Proofs.Play.Turns

namespace Croupier

namespace Table

variable {γ : Type} {value : Table → γ} {table next moved : Table} {seat actor leader : Int}
  {card : Card} {program : Program} {phase : Phase}

/-! ### Rules that leave the skips alone -/

theorem stakeBlind_skips : StakeBlind Table.skips :=
  fun _ _ _ _ _ _ _ _ _ => rfl

theorem cardBlind_skips : CardBlind Table.skips where
  hand table seat _ := stakeBlind_skips.modifyPlayer table seat _
  deck _ _ := rfl
  discard _ _ := rfl
  generator _ _ := rfl
  tableau _ _ := rfl

theorem battleBlind_skips : BattleBlind Table.skips where
  toCardBlind := cardBlind_skips
  taken table seat _ _ := stakeBlind_skips.modifyPlayer table seat _
  battle _ _ _ _ := rfl

theorem skips_contribute (table : Table) (seat : Int) (card : Card) (phase : TrickPhase) :
    (table.contribute seat card phase).skips = table.skips :=
  cardBlind_skips.modifyPile table seat .tableau (· ++ [card])

theorem skips_settleTrick (table : Table) (program : Program) (phase : TrickPhase) :
    (table.settleTrick program phase).2.skips = table.skips := by
  have taken : (table.takeTrick program phase).2.skips = table.skips := by
    unfold takeTrick
    dsimp only
    split
    · rfl
    · exact stakeBlind_skips.modifyPlayer table _ _
  have scored (before : Table) : (before.scoreContracts program).skips = before.skips := by
    unfold scoreContracts
    split <;> rfl
  unfold settleTrick
  split
  · dsimp only
    split
    · split
      · exact (scored _).trans taken
      · exact taken
    · exact taken
  · rfl

theorem skips_passIn (table : Table) (program : Program) (phase : Phase) :
    (table.passIn program phase).2.skips = table.skips := by
  have fought : (if program.header.tableauMode = .war then table.settleBattle program
      else table).skips = table.skips := by
    split
    · exact battleBlind_skips.settleBattle table program
    · rfl
  unfold passIn
  cases phase with
  | trick phase => exact (skips_settleTrick _ program phase).trans fought
  | betting phase => exact (stakeBlind_skips.settleBetting _ program).trans fought
  | draw | play | discard | claim | bidding => exact fought

/-! ### Effects -/

/-- What an effect makes of the skips: it adds some, or has them pass over everyone else, or
leaves them alone. -/
theorem skips_applyEffect (table : Table) (actor : Int) (effect : Effect) :
    (table.applyEffect actor effect).skips =
      match effect.kind with
      | .skipNext | .blockNext =>
          min (table.skips + max effect.value 1) ((table.seats : Int) - 1)
      | .extraTurn => (table.seats : Int) - 1
      | _ => table.skips := by
  cases kind : effect.kind with
  | skipNext | blockNext =>
      unfold applyEffect
      rw [kind]
      rfl
  | extraTurn | reverse | wild | peek | unknown =>
      unfold applyEffect
      rw [kind]
  | drawCards => exact cardBlind_skips.applyEffect_of_moves table actor (.inl kind)
  | forceDiscard => exact cardBlind_skips.applyEffect_of_moves table actor (.inr (.inl kind))
  | swapHands => exact cardBlind_skips.applyEffect_of_moves table actor (.inr (.inr (.inl kind)))
  | stealCard => exact cardBlind_skips.applyEffect_of_moves table actor (.inr (.inr (.inr kind)))

/-! ### Skips in range -/

/-- The end of the turn passes over some participants, but never over all of them. -/
def SkipsFew (table : Table) : Prop :=
  0 ≤ table.skips ∧ table.skips < table.seats

theorem SkipsFew.of_same (few : table.SkipsFew) (skips : next.skips = table.skips)
    (seats : next.seats = table.seats) : next.SkipsFew := by
  unfold SkipsFew
  rw [skips, seats]
  exact few

theorem SkipsFew.of_none (none : table.skips = 0) (several : 2 ≤ table.seats) :
    table.SkipsFew := by
  unfold SkipsFew
  omega

theorem SkipsFew.without (few : table.SkipsFew) (seat : Int) (place : Nat) :
    (table.without seat place).SkipsFew :=
  few.of_same (cardBlind_skips.hand table seat _)
    (congrArg Frame.seats (frame_without table seat place))

theorem SkipsFew.triggerEffect (few : table.SkipsFew) (program : Program)
    (orderly : table.Orderly) (seated : table.HasSeat actor) (card : Card) :
    (table.triggerEffect program actor card).SkipsFew := by
  have seats := (absorbs_triggerEffect program orderly seated card).seats
  obtain ⟨nonneg, below⟩ := few
  unfold SkipsFew
  rw [seats]
  unfold Table.triggerEffect
  split
  · rw [skips_applyEffect]
    split <;> omega
  · exact ⟨nonneg, below⟩

/-- Of all that a move does only the effect of a card that is played changes the skips. -/
theorem SkipsFew.carries {move : Move} (few : table.SkipsFew) (orderly : table.Orderly)
    (seated : table.HasSeat seat) (carries : Play.Carries program seat table move leader next) :
    next.SkipsFew := by
  have seats := (absorbs_of_carries orderly seated carries).1.seats
  cases carries with
  | draw found => exact few.of_same (cardBlind_skips.draw table seat _ _) seats
  | @play _ place target _ card _ held =>
      have lifted : (table.without seat place.toNat).Orderly := orderly.without
      have played := absorbs_playCard program lifted seated.without card target
      have before := (few.without seat place.toNat).of_same (battleBlind_skips.playCard _ program _ _ _)
        played.seats
      exact before.triggerEffect program played.orderly (seated.without.of_seats played.seats) card
  | @discard _ place target _ card _ held =>
      have lifted := cardBlind_skips.hand table seat (·.eraseIdx place.toNat)
      exact few.of_same ((cardBlind_skips.modifyPile _ seat target _).trans lifted) seats
  | @trick _ place phase card _ _ held contributed =>
      subst contributed
      have lifted : (table.without seat place.toNat).Orderly := orderly.without
      have laid := absorbs_contribute lifted seated.without card phase
      have laidSeat := seated.without.of_seats laid.seats
      have before := (few.without seat place.toNat).of_same (skips_contribute _ seat card phase)
        laid.seats
      have triggered := absorbs_triggerEffect program laid.orderly laidSeat card
      have settled := (absorbs_settleTrick program triggered.orderly phase).1
      exact (before.triggerEffect program laid.orderly laidSeat card).of_same
        (skips_settleTrick _ program phase) settled.seats
  | bet found known =>
      have wagered := stakeBlind_skips.wager known
      exact few.of_same ((stakeBlind_skips.settleBetting _ program).trans wagered) seats
  | @claim _ place =>
      exact few.of_same (cardBlind_skips.hand table seat (·.eraseIdx place.toNat)) seats
  | challenge => exact few.of_same (cardBlind_skips.hand table _ _) seats
  | accept => exact few.of_same rfl seats
  | bid => exact few.of_same (stakeBlind_skips.modifyPlayer table seat _) seats
  | pass =>
      refine few.of_same ?_ seats
      unfold Table.pass
      split
      · rfl
      · exact skips_passIn table program _

/-! ### Skips in the turn -/

/-- The skips are in range, and a turn in which nothing has happened passes over nobody. -/
structure SkipsInTurn (table : Table) : Prop where
  few : table.SkipsFew
  fresh : table.phase = 0 → table.step = 0 → table.skips = 0

theorem SkipsInTurn.of_none (none : table.skips = 0) (several : 2 ≤ table.seats) :
    table.SkipsInTurn :=
  ⟨.of_none none several, fun _ _ => none⟩

theorem seats_endTurn (table : Table) (leader : Int) :
    (table.endTurn leader).seats = table.seats := by
  have each (before : Table) : (advanceOne before).seats = before.seats := rfl
  unfold endTurn
  dsimp only
  split
  · exact repeat_preserves seats each _
  · rfl

/-- The end of a turn uses the skips up. -/
theorem skips_endTurn (table : Table) (leader : Int) : (table.endTurn leader).skips = 0 := by
  unfold endTurn
  dsimp only
  split <;> rfl

theorem skipsInTurn_endTurn (several : 2 ≤ table.seats) (leader : Int) :
    (table.endTurn leader).SkipsInTurn := by
  apply SkipsInTurn.of_none (skips_endTurn table leader)
  rw [seats_endTurn]
  exact several

theorem SkipsFew.completePhase (few : table.SkipsFew) (several : 2 ≤ table.seats)
    (begun : 0 ≤ table.phase) (program : Program) (leader : Int) :
    (table.completePhase program leader).SkipsInTurn := by
  unfold Table.completePhase
  dsimp only
  split
  · exact skipsInTurn_endTurn several leader
  · refine ⟨few, fun first => ?_⟩
    change table.phase + 1 = 0 at first
    omega

/-- A move leaves the turn where it was. -/
theorem place_of_carries {index : Int} {choice : Choice} (acts : choice ≠ .pass)
    (carries : Play.Carries program seat table ⟨index, choice⟩ leader next) :
    next.phase = table.phase ∧ next.step = table.step := by
  have entered := book_of_carries carries
  cases choice with
  | pass => exact absurd rfl acts
  | trick | bet =>
      obtain ⟨_, _, entered⟩ := entered
      exact ⟨congrArg Book.phase entered, congrArg Book.step entered⟩
  | draw | play | discard | claim | challenge | accept | bid | unknown =>
      exact ⟨congrArg Book.phase entered, congrArg Book.step entered⟩

theorem place_passIn (table : Table) (program : Program) (phase : Phase) :
    (table.passIn program phase).2.phase = table.phase := by
  have settled := book_passIn table program phase
  cases phase with
  | trick | betting =>
      obtain ⟨_, _, settled⟩ := settled
      exact congrArg Book.phase settled
  | draw | play | discard | claim | bidding => exact congrArg Book.phase settled

/-- A further card, a further phase or a new turn: whichever comes, the skips fit it. Only an
answer to a claim leaves the turn where it was, and the skips with it. -/
theorem SkipsInTurn.proceeds {sequenced : Table} (skips : table.SkipsInTurn)
    (orderly : table.Orderly) (inTurn : table.InTurn program)
    (proceeds : Action.Proceeds program table phase sequenced) : sequenced.SkipsInTurn := by
  obtain ⟨_, here, step, _⟩ := inTurn.current
  have begun := (Program.phase?_eq_some_iff.mp here).1
  cases proceeds with
  | pass found =>
      obtain ⟨settled, _⟩ := absorbs_passIn program orderly phase
      have several := settled.orderly.several
      have few := skips.few.of_same (skips_passIn table program phase) settled.seats
      have place := place_passIn table program phase
      unfold afterPass
      cases phase with
      | trick | betting | claim => exact skipsInTurn_endTurn several _
      | draw | play | discard | bidding =>
          exact few.completePhase several (by omega) program _
  | @move choice leader moved found offered acts carries =>
      have several := (absorbs_of_carries orderly orderly.active carries).1.orderly.several
      have few := skips.few.carries orderly orderly.active carries
      obtain ⟨samePhase, sameStep⟩ := place_of_carries acts carries
      unfold afterMove
      cases choice with
      | draw => exact few.completePhase several (by omega) program leader
      | play | discard =>
          dsimp only
          split
          · exact SkipsFew.completePhase few several (samePhase ▸ begun) program leader
          · refine ⟨few, fun _ first => ?_⟩
            change moved.step + 1 = 0 at first
            omega
      | trick | bet | claim | bid => exact skipsInTurn_endTurn several leader
      | challenge =>
          cases carries with
          | challenge =>
              refine ⟨few, fun first fresh => ?_⟩
              have kept := cardBlind_skips.hand table
              exact (kept _ _).trans (skips.fresh (samePhase ▸ first) (sameStep ▸ fresh))
      | accept =>
          cases carries with
          | accept => exact ⟨few, skips.fresh⟩
      | pass => exact absurd rfl acts
      | unknown => cases carries

end Table

/-! ### Runs -/

/-- What a legal action makes of the table before it is counted is orderly. -/
theorem Action.Proceeds.orderly {program : Program} {table sequenced : Table} {phase : Phase}
    (orderly : table.Orderly) (proceeds : Action.Proceeds program table phase sequenced) :
    sequenced.Orderly := by
  cases proceeds with
  | pass found =>
      obtain ⟨settled, leads⟩ := Table.absorbs_passIn program orderly phase
      exact (Table.absorbs_afterPass program settled.orderly leads phase).orderly
  | @move choice leader moved found offered acts carries =>
      obtain ⟨settled, leads⟩ := Table.absorbs_of_carries orderly orderly.active carries
      exact (Table.absorbs_afterMove program settled.orderly leads choice).orderly

namespace Reached

variable {program : Program} {seed : UInt64} {outcome : Outcome} {table : Table}

theorem skipsInTurn (inRange : program.InRange) (reached : Reached program seed outcome table) :
    table.SkipsInTurn := by
  have first := (Reached.opening (Program.refusal?_of_inRange inRange) seed).orderly inRange
  refine (reached.run_induction (motive := fun table => table.Orderly ∧ table.SkipsInTurn)
    ⟨first, .of_none rfl first.several⟩ ?_ ?_ ?_).2
  · intro table sequenced phase earlier proceeds ⟨orderly, skips⟩
    exact ⟨proceeds.orderly orderly, skips.proceeds orderly (earlier.inTurn inRange) proceeds⟩
  · intro table ⟨orderly, skips⟩
    exact ⟨orderly.of_frame rfl, skips.few, skips.fresh⟩
  · intro table _ ⟨orderly, _⟩
    have dealt := (Table.absorbs_nextHand program orderly).orderly
    exact ⟨dealt, .of_none rfl dealt.several⟩

theorem seats_eq (inRange : program.InRange) (reached : Reached program seed outcome table) :
    (table.seats : Int) = program.header.participants := by
  have atLeast := inRange.header.participants.1
  have seats := (reached.absorbs inRange).seats
  rw [Table.seats_seated] at seats
  unfold minParticipants at atLeast
  omega

/-- In every state of a legal run of a program that was read, a participant is active, play goes
one way round or the other, the end of the turn passes over less than all participants, and over
nobody before the turn has begun, and the turn stands at a phase with a step to go. -/
theorem in_order {bytes : List UInt8} (accepted : Program.decode bytes = .ok program)
    (reached : Reached program seed outcome table) :
    (0 ≤ table.active ∧ table.active < program.header.participants) ∧
      (table.direction = 1 ∨ table.direction = -1) ∧
      (0 ≤ table.skips ∧ table.skips ≤ program.header.participants - 1) ∧
      (table.phase = 0 → table.step = 0 → table.skips = 0) ∧
      (0 ≤ table.phase ∧ table.phase < program.phases.length) ∧
      ∃ phase, program.phases[table.phase.toNat]? = some phase ∧
        match phase with
        | .play phase => 0 ≤ table.step ∧ table.step < phase.maxCards
        | .discard phase => 0 ≤ table.step ∧ table.step < phase.count
        | _ => table.step = 0 := by
  have inRange := Program.inRange_of_decode accepted
  have seats := reached.seats_eq inRange
  have orderly := reached.orderly inRange
  obtain ⟨active, seated⟩ := orderly.active
  obtain ⟨⟨nonneg, few⟩, fresh⟩ := reached.skipsInTurn inRange
  obtain ⟨phase, found, step, room⟩ := (reached.inTurn inRange).current
  obtain ⟨begun, listed⟩ := Program.phase?_eq_some_iff.mp found
  obtain ⟨inside, _⟩ := List.getElem?_eq_some_iff.mp listed
  refine ⟨⟨active, by omega⟩, orderly.direction, ⟨nonneg, by omega⟩, fresh, ⟨begun, by omega⟩,
    phase, listed, ?_⟩
  cases phase with
  | play | discard => exact ⟨step, room⟩
  | draw | trick | betting | claim | bidding =>
      have single : table.step < 1 := room
      dsimp only
      omega

end Reached

/-- A game in which a turn is to play two cards, and every card passes over the next
participant. -/
def skippingGame : Program :=
  { shortGame [.play { maxCards := 2, passIfUnable := true }] with
    effects := .ofList (Rank.all.map fun rank => (.rank rank, { kind := .skipNext, value := 3 })) }

/-- The deal takes no notice of effects. -/
theorem Table.opening_withEffects (program : Program) (effects : EffectTable) (seed : UInt64) :
    opening { program with effects } seed = opening program seed :=
  rfl

theorem Reached.in_order_skippingGame :
    Program.decode skippingGame.encode = .ok skippingGame ∧
      ∃ table, Reached skippingGame 7 .open table ∧ table.step = 1 ∧ table.skips = 1 ∧
        (0 ≤ table.active ∧ table.active < 2) ∧ table.skips ≤ 2 - 1 ∧
        (0 ≤ table.phase ∧ table.phase < skippingGame.phases.length) := by
  have accepted : Program.decode skippingGame.encode = .ok skippingGame := by decide +kernel
  have start := Table.start_of_decode accepted 7 {}
  obtain ⟨⟨rank, suit⟩, second, third, fourth, deck, generator, dealt⟩ :=
    Table.exists_opening_shortGame [.play { maxCards := 2, passIfUnable := true }] 7
  unfold skippingGame at start
  rw [Table.opening_withEffects, dealt] at start
  have played : ∃ table, Reached skippingGame 7 .open table ∧ table.step = 1 ∧ table.skips = 1 := by
    cases rank <;>
      exact ⟨_, @Reached.step skippingGame 7 _ _ .open (.move ⟨0, .play 0 .discard⟩) (.start start)
        (List.mem_of_getElem? (i := 0) rfl) rfl, rfl, rfl⟩
  obtain ⟨table, reached, step, skips⟩ := played
  obtain ⟨active, _, skipped, _, place, _⟩ := in_order accepted reached
  exact ⟨accepted, table, reached, step, skips, active, skipped.2, place⟩

end Croupier
