/-
Claims that wait for an answer.

In a game of claims a turn is to lay a card face down, after the claim of somebody else, if one
waits, has been answered. An answer closes the claim, and a card that is laid ends the turn. So
whoever is asked did not lay the claim, and the card that it speaks of is still on top of the
discard pile: a challenge turns up that very card.
-/

import Croupier.Proofs.Play.Rounds

namespace Croupier

/-! ### Ranks in turn -/

theorem RankWord.exists_afterTurns {turns : Int} (nonneg : 0 ≤ turns) :
    ∃ rank : Rank, afterTurns turns = .rank rank ∧ (rank.index : Int) = turns % 13 := by
  have each : ∀ place : Fin 13, Coded.ofCode (lowByte (place : Int)) =
      RankWord.rank (Rank.all.getD place .two) ∧ (Rank.all.getD place .two).index = place := by
    decide
  have below : (turns % 13).toNat < 13 := by omega
  have place : turns.tmod 13 = ((turns % 13).toNat : Int) := by
    rw [Int.tmod_eq_emod_of_nonneg nonneg]
    omega
  obtain ⟨named, index⟩ := each ⟨_, below⟩
  refine ⟨Rank.all.getD (turns % 13).toNat .two, ?_, ?_⟩
  · unfold afterTurns
    rw [place]
    exact named
  · rw [index]
    dsimp only
    omega

namespace Table

variable {table next : Table} {program : Program} {seat leader : Int} {choice : Choice}
  {claims : ClaimPhase}

/-! ### Rules that leave the claim alone -/

/-- The claim, and how many there have been. -/
def claimed (table : Table) : Claim × Int :=
  (table.claim, table.claims)

theorem stakeBlind_claimed : StakeBlind claimed :=
  fun _ _ _ _ _ _ _ _ _ => rfl

theorem orderBlind_claimed : OrderBlind claimed :=
  fun _ _ _ _ _ _ => rfl

theorem battleBlind_claimed : BattleBlind claimed where
  hand table seat _ := stakeBlind_claimed.modifyPlayer table seat _
  deck _ _ := rfl
  discard _ _ := rfl
  generator _ _ := rfl
  tableau _ _ := rfl
  taken table seat _ _ := stakeBlind_claimed.modifyPlayer table seat _
  battle _ _ _ _ := rfl

/-! ### Offers -/

/-- Somebody else has laid a claim, which the active participant has to answer. -/
def Asked (table : Table) : Prop :=
  table.claim.pending = true ∧ table.claim.claimant ≠ table.active

theorem offerClaim_of_asked (asked : table.Asked) :
    table.offerClaim table.active = [.challenge, .accept] := by
  unfold offerClaim
  rw [asked.1, decide_eq_true asked.2]
  rfl

theorem exists_claim_of_mem_offerClaim (unasked : ¬table.Asked)
    (offered : choice ∈ table.offerClaim table.active) :
    ∃ place card, choice = .claim place ∧ table.HasCard table.active place card := by
  unfold offerClaim at offered
  rw [if_neg (by simpa [Asked] using unasked)] at offered
  obtain ⟨place, card, named, nonneg, there⟩ := mem_offerCards offered
  exact ⟨place, card, named, nonneg, there⟩

end Table

/-! ### Steps -/

namespace Action

/-- What the active participant of a game of claims makes of the table before the action is
counted. -/
inductive ClaimStep (program : Program) (claims : ClaimPhase) (table : Table) :
    Action → Table → Prop where
  | challenged (asked : table.Asked) :
      ClaimStep program claims table (.move ⟨table.phase, .challenge⟩)
        (table.challengeClaim table.active)
  | accepted (asked : table.Asked) :
      ClaimStep program claims table (.move ⟨table.phase, .accept⟩) table.closeClaim
  | laid {place : Int} {card : Card} (unasked : ¬table.Asked)
      (held : table.HasCard table.active place card) :
      ClaimStep program claims table (.move ⟨table.phase, .claim place⟩)
        (((table.without table.active place.toNat).layClaim table.active card claims).endTurn
          nobody)
  | passed (unasked : ¬table.Asked) :
      ClaimStep program claims table .pass
        ((if program.header.tableauMode = .war then table.settleBattle program
          else table).endTurn nobody)

variable {program : Program} {claims : ClaimPhase} {table next sequenced : Table}
  {outcome : Outcome} {action : Action}

theorem claimStep_of_act (only : program.phases = [.claim claims])
    (legal : action.Legal program table) (acted : action.act program table = .ok outcome next) :
    ∃ sequenced, ClaimStep program claims table action sequenced ∧
      sequenced.finishAction program = (outcome, next) := by
  cases action with
  | pass =>
      obtain ⟨phase, found, finished⟩ := Play.pass_eq_ok_iff.mp acted
      cases Program.phase_of_only only found
      refine ⟨_, .passed fun asked => ?_, finished⟩
      have answered : ⟨table.phase, .challenge⟩ ∈ table.moves program := by
        refine Table.mem_moves_iff.mpr ⟨_, _, found, rfl, ?_⟩
        change _ ∈ table.offerClaim table.active
        rw [Table.offerClaim_of_asked asked]
        exact List.mem_cons_self
      rw [legal.1] at answered
      cases answered
  | move offered =>
      obtain ⟨phase, choice, found, rfl, listed⟩ := Table.mem_moves_iff.mp legal
      cases Program.phase_of_only only found
      change choice ∈ table.offerClaim table.active at listed
      by_cases asked : table.Asked
      · rw [Table.offerClaim_of_asked asked] at listed
        rcases List.mem_pair.mp listed with rfl | rfl
        · have acts : Choice.challenge ≠ .pass := nofun
          obtain ⟨_, _, _, carries, finished⟩ := (Play.perform_eq_ok_iff acts).mp acted
          cases carries with
          | challenge => exact ⟨_, .challenged asked, finished⟩
        · have acts : Choice.accept ≠ .pass := nofun
          obtain ⟨_, _, _, carries, finished⟩ := (Play.perform_eq_ok_iff acts).mp acted
          cases carries with
          | accept => exact ⟨_, .accepted asked, finished⟩
      · obtain ⟨place, card, rfl, _⟩ := Table.exists_claim_of_mem_offerClaim asked listed
        have acts : Choice.claim place ≠ .pass := nofun
        obtain ⟨_, _, _, carries, finished⟩ := (Play.perform_eq_ok_iff acts).mp acted
        cases carries with
        | claim there held =>
            cases found.symm.trans there
            exact ⟨_, .laid asked held, finished⟩

end Action

/-! ### Pending claims -/

namespace Table

/-- A pending claim speaks of the card on top of the discard pile, waits for somebody else than
the claimant, and names the rank whose turn it was. -/
structure ClaimHeld (table : Table) : Prop where
  going : table.handOver = false
  counted : 0 ≤ table.claims
  top : table.claim.pending = true → table.discard.getLast? = some table.claim.card
  apart : table.claim.pending = true → table.claim.claimant ≠ table.active
  inTurn : table.claim.pending = true → 0 < table.claims ∧
    table.claim.rank = RankWord.afterTurns (table.claims - 1)

variable {table next sequenced : Table} {program : Program} {claims : ClaimPhase} {action : Action}

theorem ClaimHeld.of_closed (going : table.handOver = false) (counted : 0 ≤ table.claims)
    (closed : table.claim.pending = false) : table.ClaimHeld := by
  refine ⟨going, counted, ?_, ?_, ?_⟩
  all_goals
    intro pending
    rw [closed] at pending
    cases pending

theorem ClaimHeld.asked (held : table.ClaimHeld) (pending : table.claim.pending = true) :
    table.Asked :=
  ⟨pending, held.apart pending⟩

theorem claimHeld_endTurn (going : table.handOver = false) (counted : 0 ≤ table.claims)
    (closed : table.claim.pending = false) : (table.endTurn nobody).ClaimHeld := by
  have same := orderBlind_claimed.endTurn table nobody
  have book := book_endTurn table nobody
  refine .of_closed ((congrArg Book.handOver book).trans going) ?_ ?_
  · exact Int.le_trans counted (Int.le_of_eq (congrArg Prod.snd same).symm)
  · exact (congrArg (fun claimed : Claim × Int => claimed.1.pending) same).trans closed

/-- Whoever lays a claim hands the turn on with it. -/
theorem claimHeld_layClaim (orderly : table.Orderly) (unskipped : table.skips = 0)
    (going : table.handOver = false) (counted : 0 ≤ table.claims) (card : Card)
    (claims : ClaimPhase) :
    ((table.layClaim table.active card claims).endTurn nobody).ClaimHeld := by
  have laid := absorbs_layClaim orderly orderly.active card claims
  have follows := laid.orderly.nextSeat_ne
  have skips : (table.layClaim table.active card claims).skips = 0 := unskipped
  rw [endTurn_nobody skips]
  refine ⟨going, Int.le_add_one counted, fun _ => List.getLast?_concat, fun _ => ?_, fun _ => ?_⟩
  · exact fun back => follows back.symm
  · refine ⟨Int.lt_add_one_of_le counted, ?_⟩
    change RankWord.afterTurns table.claims = RankWord.afterTurns (table.claims + 1 - 1)
    rw [Int.add_sub_cancel]

theorem ClaimHeld.step (held : table.ClaimHeld) (orderly : table.Orderly)
    (unskipped : table.skips = 0) (steps : Action.ClaimStep program claims table action sequenced) :
    sequenced.ClaimHeld := by
  have going (seat : Int) (change : List Card → List Card) :
      (table.modifyHand seat change).handOver = false :=
    (congrArg Book.handOver (book_modifyHand table seat change)).trans held.going
  have counted (seat : Int) (change : List Card → List Card) :
      0 ≤ (table.modifyHand seat change).claims := by
    have same := congrArg Prod.snd (battleBlind_claimed.hand table seat change)
    exact Int.le_trans held.counted (Int.le_of_eq same.symm)
  cases steps with
  | challenged asked => exact .of_closed (going _ _) (counted _ _) rfl
  | accepted asked => exact .of_closed held.going held.counted rfl
  | @laid place card unasked there =>
      have lifted : (table.without table.active place.toNat).Orderly := orderly.without
      have skips := (cardBlind_skips.hand table table.active (·.eraseIdx place.toNat)).trans
        unskipped
      have active : (table.without table.active place.toNat).active = table.active :=
        congrArg Frame.active (frame_without table table.active place.toNat)
      have laid := claimHeld_layClaim lifted skips (going _ _) (counted _ _) card claims
      rwa [active] at laid
  | passed unasked =>
      have closed : table.claim.pending = false :=
        Bool.eq_false_of_not_eq_true fun pending => unasked (held.asked pending)
      split
      · have same := battleBlind_claimed.settleBattle table program
        have book := book_settleBattle table program
        apply claimHeld_endTurn ((congrArg Book.handOver book).trans held.going)
        · exact Int.le_trans held.counted (Int.le_of_eq (congrArg Prod.snd same).symm)
        · exact (congrArg (fun claimed : Claim × Int => claimed.1.pending) same).trans closed
      · exact claimHeld_endTurn held.going held.counted closed

/-! ### Answers -/

theorem moves_of_asked (found : program.phase? table.phase = some (.claim claims))
    (asked : table.Asked) :
    table.moves program = [⟨table.phase, .challenge⟩, ⟨table.phase, .accept⟩] := by
  unfold moves movesFor
  rw [found]
  change (table.offerClaim table.active).map _ = _
  rw [offerClaim_of_asked asked]
  rfl

/-- Whoever was wrong takes the discard pile, and nobody else takes anything. -/
theorem hand_challengeClaim (orderly : table.Orderly) (pending : table.claim.pending = true) :
    let taker :=
      if table.claim.rank = .rank table.claim.card.rank then table.active
      else table.claim.claimant
    (table.challengeClaim table.active).hand taker = table.hand taker ++ table.discard ∧
      ∀ seat, seat ≠ taker → (table.challengeClaim table.active).hand seat = table.hand seat := by
  intro taker
  have seated : table.HasSeat taker := by
    dsimp only [taker]
    split
    · exact orderly.active
    · exact orderly.claimant pending
  have taken : ∀ seat, (table.challengeClaim table.active).hand seat =
      (table.modifyHand taker (· ++ table.discard)).hand seat := by
    intro seat
    have same : (if table.claim.rank ≠ .rank table.claim.card.rank then table.claim.claimant
        else table.active) = taker := ite_not _ _ _
    rw [← same]
    rfl
  refine ⟨(taken taker).trans (hand_modifyHand_self seated _), fun seat different => ?_⟩
  exact (taken seat).trans (hand_modifyHand_of_ne different _)

end Table

namespace Action

variable {program : Program} {claims : ClaimPhase} {table : Table} {action : Action}

theorem legal_iff_of_asked (found : program.phase? table.phase = some (.claim claims))
    (asked : table.Asked) :
    action.Legal program table ↔
      action = .move ⟨table.phase, .challenge⟩ ∨ action = .move ⟨table.phase, .accept⟩ := by
  have moves := Table.moves_of_asked found asked
  cases action with
  | pass =>
      constructor
      · intro legal
        cases moves.symm.trans legal.1
      · rintro (⟨⟨⟩⟩ | ⟨⟨⟩⟩)
  | move offered =>
      change offered ∈ table.moves program ↔ _
      rw [moves, List.mem_pair, Action.move.injEq, Action.move.injEq]

end Action

/-! ### Runs -/

namespace Reached

variable {program : Program} {claims : ClaimPhase} {seed : UInt64} {outcome : Outcome}
  {table : Table}

/-- A turn of a game of claims does not get past its only phase. -/
theorem skips_of_claim (inRange : program.InRange) (only : program.phases = [.claim claims])
    (reached : Reached program seed outcome table) :
    program.phase? table.phase = some (.claim claims) ∧ table.skips = 0 := by
  have inTurn := reached.inTurn inRange
  obtain ⟨phase, found, nonneg, room⟩ := inTurn.current
  obtain ⟨begun, inside⟩ := inTurn.inside
  rw [only, List.length_singleton] at inside
  cases Program.phase_of_only only found
  change table.step < 1 at room
  exact ⟨found, (reached.skipsInTurn inRange).fresh (by omega) (by omega)⟩

theorem claimHeld (inRange : program.InRange) (only : program.phases = [.claim claims])
    (reached : Reached program seed outcome table) : table.ClaimHeld := by
  induction reached with
  | start dealt =>
      obtain ⟨_, rfl⟩ := Table.start_eq_ok_iff.mp dealt
      exact .of_closed rfl (Int.le_refl 0) rfl
  | step earlier legal acted ih =>
      obtain ⟨_, unskipped⟩ := earlier.skips_of_claim inRange only
      obtain ⟨sequenced, steps, finished⟩ := Action.claimStep_of_act only legal acted
      have held := ih.step (earlier.orderly inRange) unskipped steps
      rw [Table.finishAction_of_going held.going finished]
      exact ⟨held.going, held.counted, held.top, held.apart, held.inTurn⟩

/-- In a game of claims that was read, a pending claim speaks of the card on top of the discard
pile and names the rank whose turn it was. Only the answers to it are legal, for somebody else than
the claimant. With a challenge the whole discard pile goes to whoever was wrong. -/
theorem claim_answered {bytes : List UInt8} (accepted : Program.decode bytes = .ok program)
    (only : program.phases = [.claim claims]) (reached : Reached program seed outcome table)
    (pending : table.claim.pending = true) :
    table.discard.getLast? = some table.claim.card ∧
      table.claim.claimant ≠ table.active ∧
      (∃ rank : Rank, table.claim.rank = .rank rank ∧
        (rank.index : Int) = (table.claims - 1) % 13) ∧
      (∀ action : Action, action.Legal program table ↔
        action = .move ⟨table.phase, .challenge⟩ ∨ action = .move ⟨table.phase, .accept⟩) ∧
      ∃ outcome next, Play.perform program ⟨table.phase, .challenge⟩ table = .ok outcome next ∧
        next.discard = [] ∧ next.claim.pending = false ∧
        ∀ top, table.discard.getLast? = some top →
          let taker :=
            if table.claim.rank = .rank top.rank then table.active else table.claim.claimant
          next.hand taker = table.hand taker ++ table.discard ∧
            ∀ seat, seat ≠ taker → next.hand seat = table.hand seat := by
  have inRange := Program.inRange_of_decode accepted
  have orderly := reached.orderly inRange
  have held := reached.claimHeld inRange only
  have asked := held.asked pending
  obtain ⟨found, unskipped⟩ := reached.skips_of_claim inRange only
  obtain ⟨some, inTurn⟩ := held.inTurn pending
  refine ⟨held.top pending, held.apart pending, ?_, ?_, ?_⟩
  · rw [inTurn]
    exact RankWord.exists_afterTurns (by omega)
  · exact fun action => Action.legal_iff_of_asked found asked
  · have acts : Choice.challenge ≠ .pass := nofun
    obtain ⟨outcome, next, performed⟩ := Play.exists_perform acts (.challenge found pending)
    obtain ⟨_, leader, moved, carries, finished⟩ := (Play.perform_eq_ok_iff acts).mp performed
    cases carries with
    | challenge there _ =>
        have closed : (table.challengeClaim table.active).ClaimHeld :=
          held.step orderly unskipped (@Action.ClaimStep.challenged program claims table asked)
        have last := Table.finishAction_of_going closed.going finished
        refine ⟨outcome, next, performed, ?_, ?_, ?_⟩
        · rw [last]
          rfl
        · rw [last]
          rfl
        · intro top here
          cases here.symm.trans (held.top pending)
          rw [last]
          exact Table.hand_challengeClaim orderly pending

theorem claim_answered_claimGame :
    Program.decode (shortGame [.claim {}]).encode = .ok (shortGame [.claim {}]) ∧
      ∃ table, Reached (shortGame [.claim {}]) 7 .open table ∧ table.claim.pending = true ∧
        table.claim.claimant = 0 ∧ table.claims = 1 ∧
        table.discard.getLast? = some table.claim.card ∧
        (∃ rank : Rank, table.claim.rank = .rank rank ∧ (rank.index : Int) = 0) ∧
        Action.Legal (shortGame [.claim {}]) table (.move ⟨table.phase, .challenge⟩) ∧
        ∃ outcome next,
          Play.perform (shortGame [.claim {}]) ⟨table.phase, .challenge⟩ table =
              .ok outcome next ∧
            next.discard = [] ∧ next.claim.pending = false := by
  have accepted : Program.decode (shortGame [.claim {}]).encode = .ok (shortGame [.claim {}]) := by
    decide +kernel
  have start := Table.start_of_decode accepted 7 {}
  obtain ⟨first, second, third, fourth, deck, generator, dealt⟩ :=
    Table.exists_opening_shortGame [.claim {}] 7
  rw [dealt] at start
  have laid := @Reached.step _ _ _ _ .open (.move ⟨0, .claim 0⟩) (.start start)
    (List.mem_of_getElem? (i := 0) rfl) rfl
  obtain ⟨top, _, rank, legal, outcome, next, performed, empty, closed, _⟩ :=
    claim_answered accepted rfl laid rfl
  exact ⟨accepted, _, laid, rfl, rfl, rfl, top, rank, (legal _).mpr (.inl rfl), outcome, next,
    performed, empty, closed⟩

end Reached

end Croupier
