/-
Lists that have room for whatever is entered.

Moves, contributors, targets and survivors are entered in lists with room for so many and no more.
A hand holds no more cards than there are, so all that is on offer finds room. Nobody contributes
to a trick twice, because whoever has is offered no card, nor to a battle, because another card of
the same participant takes the place of the first. So there are no more contributors than seats.
-/

import Croupier.Capped
import Croupier.Proofs.Codec.Ranges
import Croupier.Proofs.Play.Battles
import Croupier.Proofs.Play.Contributions

namespace Croupier

/-! ### Entries -/

/-- As long as there is room, entering keeps everything in order. -/
theorem Capped.items_foldl_push {capacity : Nat} {α : Type} (list : Capped capacity α)
    (entries : List α) (room : list.items.length + entries.length ≤ capacity) :
    (entries.foldl Capped.push list).items = list.items ++ entries := by
  induction entries generalizing list with
  | nil => exact (List.append_nil _).symm
  | cons entry rest ih =>
      rw [List.length_cons] at room
      have fits : list.items.length < capacity := by omega
      have pushed : (list.push entry).items = list.items ++ [entry] := by
        unfold Capped.push
        rw [dif_pos fits]
      have remaining : (list.push entry).items.length + rest.length ≤ capacity := by
        rw [pushed, List.length_append, List.length_singleton]
        omega
      rw [List.foldl_cons, ih _ remaining, pushed, List.append_assoc, List.singleton_append]

namespace Table

variable {table next : Table} {seat leader : Int} {card : Card} {program : Program}
  {phase : Phase}

/-! ### Cards and moves -/

theorem length_hand_le (table : Table) (seat : Int) :
    (table.hand seat).length ≤ table.cards.length := by
  have there : (table.hand seat).Sublist (table.players.flatMap (·.hand)) := by
    unfold hand player
    split
    · exact List.nil_sublist _
    · rw [List.getD_eq_getElem?_getD, List.flatMap_def]
      cases found : table.players[seat.toNat]? with
      | none => exact List.nil_sublist _
      | some player =>
          exact List.sublist_flatten_of_mem (List.mem_map_of_mem (List.mem_of_getElem? found))
  have inHands := there.length_le
  rw [← countCards_eq]
  unfold countCards
  omega

theorem length_offerCards_le (hand : List Card) (allowed : Card → Bool) (choice : Int → Choice) :
    (offerCards hand allowed choice).length ≤ hand.length := by
  unfold offerCards
  refine (List.length_filterMap_le _ _).trans ?_
  rw [List.length_zipIdx]

/-- Offers find room if the cards do: each names a card or is one of a few. -/
theorem length_offers_le (few : (table.hand seat).length ≤ maxDeckSize) (program : Program)
    (index : Int) (phase : Phase) :
    (table.offers program seat index phase).length ≤ maxMoves := by
  have cards (allowed : Card → Bool) (choice : Int → Choice) :=
    length_offerCards_le (table.hand seat) allowed choice
  unfold maxMoves
  cases phase with
  | draw phase =>
      change (table.offerDraw program seat phase).length ≤ _
      unfold offerDraw
      dsimp only
      split_ifs <;> simp
  | play phase =>
      change (table.offerPlay program seat (table.stepIn seat index) phase).length ≤ _
      have listed := cards (table.mayPlay program seat phase) (.play · phase.target)
      unfold offerPlay
      dsimp only
      rw [List.length_append]
      split_ifs <;> simp only [List.length_nil, List.length_singleton] <;> omega
  | discard phase =>
      change (table.offerDiscard seat (table.stepIn seat index) phase).length ≤ _
      have listed := cards (fun _ => true) (.discard · phase.target)
      unfold offerDiscard
      rw [List.length_append]
      split_ifs <;> simp only [List.length_nil, List.length_singleton] <;> omega
  | trick phase =>
      change (table.offerTrick seat phase).length ≤ _
      unfold offerTrick
      dsimp only
      split
      · exact Nat.zero_le _
      · exact (cards _ _).trans (by omega)
  | betting phase =>
      change (table.offerBetting seat phase).length ≤ _
      unfold offerBetting
      dsimp only
      split_ifs <;> simp
  | claim phase =>
      change (table.offerClaim seat).length ≤ _
      unfold offerClaim
      split
      · decide
      · exact (cards _ _).trans (by omega)
  | bidding phase =>
      change (table.offerBids seat phase).length ≤ _
      unfold offerBids
      split
      · exact Nat.zero_le _
      · dsimp only
        rw [List.length_append, List.length_map, List.length_range]
        change _ ≤ maxMoves
        split_ifs <;> simp only [List.length_nil, List.length_singleton] <;> omega

/-- A range of bids is offered from end to end, and nothing beside it but a nil bid. -/
theorem bid_mem_offerBids_iff {bids : BiddingPhase} (inRange : bids.InRange) {value : Int} :
    .bid value ∈ table.offerBids seat bids ↔
      table.hasBid seat = false ∧
        ((bids.minBid ≤ value ∧ value ≤ bids.maxBid) ∨ (bids.allowNil = true ∧ value = 0)) := by
  obtain ⟨nonneg, ordered, atMost⟩ := inRange.bids
  unfold offerBids
  by_cases bid : table.hasBid seat = true
  · rw [if_pos bid, bid]
    simp
  · have unbid := Bool.eq_false_of_not_eq_true bid
    -- The range is that of the tricks of one deck at most, so it never reaches the limit.
    have small : (bids.maxBid - bids.minBid + 1).toNat < maxMoves := by
      have deck : standardDeckSize + 1 < maxMoves := by decide
      omega
    rw [if_neg bid, unbid, Nat.min_eq_left (Nat.le_of_lt small)]
    simp only [small, and_true, List.mem_append, List.mem_map, List.mem_range, true_and]
    constructor
    · rintro (⟨place, below, same⟩ | listed)
      · injection same with same
        omega
      · split_ifs at listed with allowed
        · injection List.mem_singleton.mp listed with same
          exact .inr ⟨allowed.1, same⟩
        · cases listed
    · rintro (⟨atLeast, most⟩ | ⟨allowed, rfl⟩)
      · refine .inl ⟨(value - bids.minBid).toNat, by omega, ?_⟩
        congr 1
        omega
      · by_cases above : bids.minBid > 0
        · right
          rw [if_pos ⟨allowed, above⟩]
          exact List.mem_singleton.mpr rfl
        · refine .inl ⟨0, by omega, ?_⟩
          congr 1
          omega

/-! ### Contributors -/

/-- Who has contributed to the trick, and who to the battle with which card. -/
def rosters (table : Table) : List Int × List Int × List Card :=
  (table.trick, table.muster)

theorem stakeBlind_rosters : StakeBlind rosters :=
  fun _ _ _ _ _ _ _ _ _ => rfl

theorem orderBlind_rosters : OrderBlind rosters :=
  fun _ _ _ _ _ _ => rfl

theorem cardBlind_rosters : CardBlind rosters where
  hand table seat _ := stakeBlind_rosters.modifyPlayer table seat _
  deck _ _ := rfl
  discard _ _ := rfl
  generator _ _ := rfl
  tableau _ _ := rfl

theorem rosters_triggerEffect (table : Table) (program : Program) (actor : Int) (card : Card) :
    (table.triggerEffect program actor card).rosters = table.rosters :=
  cardBlind_rosters.triggerEffect (fun _ _ _ => rfl) table program actor card

/-- Nobody has contributed to the trick twice, nor to the battle. -/
structure Unrepeated (table : Table) : Prop where
  trick : table.trick.Nodup
  battle : table.battleSeats.Nodup
  paired : table.Paired

theorem Unrepeated.of_rosters (unrepeated : table.Unrepeated)
    (same : next.rosters = table.rosters) : next.Unrepeated := by
  obtain ⟨trick, muster⟩ := Prod.mk.inj same
  have battle : next.battleSeats = table.battleSeats := congrArg Prod.fst muster
  exact ⟨trick ▸ unrepeated.trick, battle ▸ unrepeated.battle, unrepeated.paired.of_muster muster⟩

theorem Unrepeated.of_none (none : table.rosters = ([], [], [])) : table.Unrepeated := by
  obtain ⟨trick, muster⟩ := Prod.mk.inj none
  have battle : table.battleSeats = [] := congrArg Prod.fst muster
  exact ⟨trick ▸ List.nodup_nil, battle ▸ List.nodup_nil, .of_none muster⟩

/-- Settling a trick leaves its contributors or clears them. -/
theorem trick_settleTrick_sublist (table : Table) (program : Program) (phase : TrickPhase) :
    (table.settleTrick program phase).2.trick.Sublist table.trick := by
  have taken : (table.takeTrick program phase).2.trick.Sublist table.trick := by
    unfold takeTrick
    dsimp only
    split
    · exact .refl _
    · exact List.nil_sublist _
  have scored (before : Table) : (before.scoreContracts program).trick = before.trick :=
    congrArg (·.2.1) (contest_scoreContracts before program)
  unfold settleTrick
  split
  · dsimp only
    split
    · split
      · rw [scored]
        exact taken
      · exact taken
    · exact taken
  · exact .refl _

theorem battleSeats_settleBattle_sublist (table : Table) (program : Program) :
    (table.settleBattle program).battleSeats.Sublist table.battleSeats := by
  unfold settleBattle takeBattle
  split
  · split
    · exact .refl _
    · exact List.nil_sublist _
  · exact .refl _

theorem Unrepeated.settleTrick (unrepeated : table.Unrepeated) (program : Program)
    (phase : TrickPhase) : (table.settleTrick program phase).2.Unrepeated := by
  have muster := muster_settleTrick table program phase
  have battle : (table.settleTrick program phase).2.battleSeats = table.battleSeats :=
    congrArg Prod.fst muster
  exact ⟨(trick_settleTrick_sublist table program phase).nodup unrepeated.trick,
    battle ▸ unrepeated.battle, unrepeated.paired.of_muster muster⟩

theorem Unrepeated.settleBattle (unrepeated : table.Unrepeated) (program : Program) :
    (table.settleBattle program).Unrepeated := by
  have trick : (table.settleBattle program).trick = table.trick :=
    congrArg Book.trick (book_settleBattle table program)
  exact ⟨trick ▸ unrepeated.trick,
    (battleSeats_settleBattle_sublist table program).nodup unrepeated.battle,
    (unrepeated.paired.settleBattle program).paired⟩

/-- Another card of the same participant takes the place of the first. -/
theorem Unrepeated.enterBattle (unrepeated : table.Unrepeated) (seat : Int) (card : Card) :
    (table.enterBattle seat card).Unrepeated := by
  refine ⟨?_, ?_, unrepeated.paired.enterBattle seat card⟩
  · unfold Table.enterBattle
    split <;> exact unrepeated.trick
  · unfold Table.enterBattle
    split
    · exact unrepeated.battle
    · rename_i absent
      rw [List.findIdx?_eq_none_iff] at absent
      refine List.nodup_append.mpr ⟨unrepeated.battle, List.nodup_singleton seat, ?_⟩
      intro other member entered listed
      rw [List.mem_singleton.mp listed]
      exact of_decide_eq_false (absent other member)

theorem Unrepeated.playCard (unrepeated : table.Unrepeated) (program : Program) (seat : Int)
    (card : Card) (target : Location) :
    (table.playCard program seat card target).Unrepeated := by
  rcases playCard_cases table program seat card target with ⟨_, fought⟩ | same
  · have laid : ((table.openPile target).place seat target card).Unrepeated :=
      unrepeated.of_rosters ((cardBlind_rosters.modifyPile _ seat target _).trans
        (cardBlind_rosters.openPile table target))
    rw [fought]
    exact (laid.enterBattle seat card).settleBattle program
  · exact unrepeated.of_rosters
      (Prod.ext (congrArg Book.trick (book_playCard table program seat card target)) same)

/-- A card for the trick is on offer to those who have not contributed. -/
theorem nodup_trick_append {tricks : TrickPhase} {place : Int} (distinct : table.trick.Nodup)
    (offered : .trick place ∈ table.offerTrick seat tricks) : (table.trick ++ [seat]).Nodup := by
  have absent : seat ∉ table.trick := by
    intro member
    unfold offerTrick at offered
    dsimp only at offered
    rw [if_pos (List.contains_iff_mem.mpr member)] at offered
    cases offered
  refine List.nodup_append.mpr ⟨distinct, List.nodup_singleton seat, ?_⟩
  rintro other member listed entered rfl
  exact absent (List.mem_singleton.mp entered ▸ member)

theorem nodup_trick_of_mem_moves {place : Int} (distinct : table.trick.Nodup)
    (offered : ⟨table.phase, .trick place⟩ ∈ table.moves program) :
    (table.trick ++ [table.active]).Nodup := by
  obtain ⟨phase, _, found, ⟨⟩, listed⟩ := mem_moves_iff.mp offered
  cases phase with
  | trick tricks => exact nodup_trick_append distinct listed
  | draw | play | discard | betting | claim | bidding =>
      cases offered_of_mem_offers listed

theorem Unrepeated.afterContribution (unrepeated : table.Unrepeated)
    (distinct : (table.trick ++ [table.active]).Nodup) (program : Program) (tricks : TrickPhase)
    (place : Int) (card : Card) :
    (table.afterContribution program tricks place card).Unrepeated := by
  have lifted : (table.without table.active place.toNat).muster = table.muster :=
    cardBlind_muster.hand table table.active _
  have laid : ((table.without table.active place.toNat).contribute table.active card
      tricks).muster = table.muster :=
    (cardBlind_muster.modifyPile _ table.active .tableau (· ++ [card])).trans lifted
  have muster : (table.afterContribution program tricks place card).muster = table.muster :=
    (muster_triggerEffect _ program table.active card).trans laid
  have battle : (table.afterContribution program tricks place card).battleSeats =
      table.battleSeats := congrArg Prod.fst muster
  have trick := trick_afterContribution table program tricks place card
  exact ⟨trick ▸ distinct, battle ▸ unrepeated.battle, unrepeated.paired.of_muster muster⟩

/-! ### Steps -/

theorem Unrepeated.passIn (unrepeated : table.Unrepeated) (program : Program) (phase : Phase) :
    (table.passIn program phase).2.Unrepeated := by
  have fought : (if program.header.tableauMode = .war then table.settleBattle program
      else table).Unrepeated := by
    split
    · exact unrepeated.settleBattle program
    · exact unrepeated
  unfold Table.passIn
  dsimp only
  cases phase with
  | trick phase => exact fought.settleTrick program phase
  | betting phase => exact fought.of_rosters (stakeBlind_rosters.settleBetting _ program)
  | draw | play | discard | claim | bidding => exact fought

theorem Unrepeated.carries {choice : Choice} (unrepeated : table.Unrepeated)
    (found : program.phase? table.phase = some phase)
    (offered : choice ∈ table.offers program table.active table.phase phase)
    (acts : choice ≠ .pass)
    (carries : Play.Carries program table.active table ⟨table.phase, choice⟩ leader next) :
    next.Unrepeated := by
  have lifted (place : Int) : (table.without table.active place.toNat).rosters = table.rosters :=
    cardBlind_rosters.hand table table.active _
  cases carries with
  | draw => exact unrepeated.of_rosters (cardBlind_rosters.draw table table.active _ _)
  | @play _ place target _ card _ _ =>
      have played :=
        (unrepeated.of_rosters (lifted place)).playCard program table.active card target
      exact played.of_rosters (rosters_triggerEffect _ program table.active card)
  | @discard _ place target _ card _ _ =>
      exact unrepeated.of_rosters
        ((cardBlind_rosters.modifyPile _ table.active target _).trans (lifted place))
  | @trick _ place tricks card _ followed _ contributed =>
      cases found.symm.trans followed
      subst contributed
      have distinct := nodup_trick_append unrepeated.trick offered
      exact (unrepeated.afterContribution distinct program tricks place card).settleTrick program
        tricks
  | bet _ known =>
      exact unrepeated.of_rosters ((stakeBlind_rosters.settleBetting _ program).trans
        (stakeBlind_rosters.wager known))
  | @claim _ place => exact unrepeated.of_rosters (lifted place)
  | challenge => exact unrepeated.of_rosters (cardBlind_rosters.hand table _ _)
  | accept => exact unrepeated.of_rosters rfl
  | bid => exact unrepeated.of_rosters (stakeBlind_rosters.modifyPlayer table table.active _)
  | pass => exact absurd rfl acts

end Table

/-! ### Runs -/

namespace Reached

variable {program : Program} {seed : UInt64} {outcome : Outcome} {table : Table}

theorem unrepeated (reached : Reached program seed outcome table) : table.Unrepeated := by
  apply reached.run_induction (motive := Table.Unrepeated) (.of_none rfl)
  · intro table sequenced phase _ proceeds unrepeated
    cases proceeds with
    | pass =>
        exact (unrepeated.passIn program phase).of_rosters
          (Table.orderBlind_rosters.afterPass _ program phase _)
    | move found offered acts carries =>
        exact (unrepeated.carries found offered acts carries).of_rosters
          (Table.orderBlind_rosters.afterMove _ program _ _)
  · exact fun unrepeated => unrepeated.of_rosters rfl
  · exact fun _ _ => .of_none rfl

/-- There are no more cards than in the largest deck. -/
theorem length_cards_le (inRange : program.InRange) (reached : Reached program seed outcome table) :
    table.cards.length ≤ maxDeckSize := by
  have permuted := (reached.absorbs inRange).perm_deck
  have ranks : Rank.all.countP program.includesRank ≤ 13 := List.countP_le_length
  have copies := inRange.copies
  have size := program.length_deck (by omega)
  have largest : maxDeckSize = 104 := rfl
  rw [permuted.length_eq, largest]
  unfold Program.deckSize Suit.count at size
  rcases copies with one | two
  · rw [one] at size
    omega
  · rw [two] at size
    omega

theorem seats_le (inRange : program.InRange) (reached : Reached program seed outcome table) :
    table.seats ≤ maxParticipants := by
  have seats : table.seats = _ := (reached.absorbs inRange).seats
  have atMost := inRange.header.participants.2
  rw [seats, Table.seats_seated]
  omega

end Reached

namespace Table

variable {table : Table}

theorem length_allSeats (table : Table) : table.allSeats.length = table.seats := by
  unfold allSeats
  rw [List.length_map, List.length_range]

/-- Distinct participants are no more than there are. -/
theorem length_le_of_nodup {seats : List Int} (distinct : seats.Nodup)
    (seated : ∀ seat ∈ seats, table.HasSeat seat) : seats.length ≤ table.seats := by
  have listed : seats ⊆ table.allSeats :=
    fun seat member => mem_allSeats_iff.mpr (seated seat member)
  rw [← table.length_allSeats]
  exact (distinct.subperm listed).length_le

theorem length_effectTargets_le (several : 1 ≤ table.seats) (actor : Int) (target : EffectTarget) :
    (table.effectTargets actor target).1.length ≤ table.seats := by
  cases target with
  | next | previous | left | right | self | randomOpponent => exact several
  | allOpponents => exact (List.length_filter_le _ _).trans_eq table.length_allSeats
  | unknown => exact Nat.zero_le _

theorem length_unfolded_le (table : Table) : table.unfolded.length ≤ table.seats :=
  (List.length_filter_le _ _).trans_eq table.length_allSeats

/-- Contributors to a battle whom nobody doubles find room, and so do their cards. -/
theorem Unrepeated.battle_le (unrepeated : table.Unrepeated)
    (seated : ∀ seat ∈ table.battleSeats, table.HasSeat seat) :
    table.battleSeats.length ≤ table.seats ∧ table.battleCards.length ≤ table.seats := by
  have bound := length_le_of_nodup unrepeated.battle seated
  exact ⟨bound, unrepeated.paired ▸ bound⟩

end Table

namespace Reached

variable {program : Program} {seed : UInt64} {outcome : Outcome} {table : Table}

end Reached

end Croupier
