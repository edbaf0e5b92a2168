/-
Shuffling and dealing move every card of the deck to one place.

A shuffle only swaps cards. A deal takes the cards of the deck from the top: each of those that
are dealt goes to the one seat whose turn it is, the first discards follow, and the others stay
in the deck. The first hand is dealt from the deck of the program, every later one from
whatever lies on the table.
-/

import Croupier.Proofs.Play.Rules

namespace Croupier

/-! ### Shuffling -/

theorem Draw.arrange_perm {α : Type} (places : List Nat) :
    ∀ (last : Nat) (items : Array α), (arrange items last places).Perm items := by
  induction places with
  | nil =>
      intro last items
      cases last <;> exact .refl items
  | cons place rest ih =>
      intro last items
      cases last with
      | zero => exact .refl items
      | succ last =>
          have swapped : (items.swapIfInBounds (last + 1) place).Perm items := by
            rw [Array.swapIfInBounds_def]
            split
            · split
              · exact Array.swap_perm _ _
              · exact .refl items
            · exact .refl items
          exact (ih last _).trans swapped

theorem Generator.shuffle_perm {α : Type} (generator : Generator) (items : List α) :
    (generator.shuffle items).1.Perm items :=
  (Draw.arrange_perm _ _ items.toArray).toList

namespace Table

variable {table : Table} {card : Card} {program : Program}

theorem rearranges_shuffleDeck (table : Table) : Rearranges table table.shuffleDeck := by
  refine ⟨rfl, fun card => ?_⟩
  have shuffled := (table.generator.shuffle_perm table.deck).count_eq card
  simp only [shuffleDeck, tally, shuffled]

/-! ### Dealing -/

/-- Each of the cards goes to one seat. -/
theorem sum_count_everyNth {stride : Nat} (positive : 0 < stride) (cards : List Card) :
    ∑ start ∈ Finset.range stride, (everyNth stride start cards).count card =
      cards.count card := by
  have from' : ∀ first : Nat, ∑ start ∈ Finset.range stride,
      ((cards.zipIdx first).filterMap fun entry =>
        if entry.2 % stride = start then some entry.1 else none).count card =
          cards.count card := by
    induction cards with
    | nil => simp
    | cons dealt rest ih =>
        intro first
        have owner : first % stride ∈ Finset.range stride :=
          Finset.mem_range.mpr (Nat.mod_lt first positive)
        have each : ∀ start, (((dealt :: rest).zipIdx first).filterMap fun entry =>
            if entry.2 % stride = start then some entry.1 else none).count card =
              ((rest.zipIdx (first + 1)).filterMap fun entry =>
                if entry.2 % stride = start then some entry.1 else none).count card
              + if first % stride = start then [dealt].count card else 0 := by
          intro start
          rw [List.zipIdx_cons]
          by_cases own : first % stride = start
          · simp [own, List.count_cons]
          · simp [own]
        simp only [each]
        rw [Finset.sum_add_distrib, ih (first + 1), Finset.sum_ite_eq, if_pos owner,
          List.count_cons, List.count_nil, Nat.zero_add, List.count_cons]
  exact from' 0

theorem inHands_deal (stride : Nat) (cards : List Card) (card : Card) (players : List Player) :
    ∀ first : Nat,
      inHands ((players.zipIdx first).map fun (player, seat) =>
        { player with hand := player.hand ++ everyNth stride seat cards }) card =
          inHands players card
            + ∑ seat ∈ Finset.range players.length,
                (everyNth stride (first + seat) cards).count card := by
  induction players with
  | nil => exact fun _ => rfl
  | cons player rest ih =>
      intro first
      have others := ih (first + 1)
      simp only [inHands, List.zipIdx_cons, List.map_cons, List.flatMap_cons, List.count_append,
        List.length_cons] at others ⊢
      simp only [Nat.add_right_comm first 1] at others
      rw [others, Finset.sum_range_succ', Nat.add_zero]
      simp only [← Nat.add_assoc]
      omega

theorem rearranges_deal (program : Program) (seated : 0 < table.seats) :
    Rearranges table (table.deal program) := by
  refine ⟨by simp [deal, frame, seats], fun card => ?_⟩
  have hands := inHands_deal table.seats
    (table.deck.reverse.take (share program table * table.seats)) card table.players 0
  simp only [Nat.zero_add] at hands
  rw [show table.players.length = table.seats from rfl, sum_count_everyNth seated] at hands
  have dealt := congrArg (List.count card) (List.take_append_drop
    (share program table * table.seats) table.deck.reverse)
  have laid := congrArg (List.count card) (List.take_append_drop
    program.setup.initialDiscards.toNat
    (table.deck.reverse.drop (share program table * table.seats)))
  rw [List.count_append] at dealt laid
  rw [List.count_reverse] at dealt
  simp only [deal, tally, hands, List.count_append, List.count_reverse]
  omega

/-! ### The deck -/

end Table

namespace Program

theorem mem_deckCopy_iff (program : Program) (card : Card) :
    card ∈ program.deckCopy ↔ program.includesRank card.rank = true := by
  obtain ⟨rank, suit⟩ := card
  have someRank : rank ∈ Rank.all := Rank.mem_all rank
  have someSuit : suit ∈ Suit.all := by cases suit <;> decide
  simp [deckCopy, someRank, someSuit]

theorem nodup_deckCopy (program : Program) : program.deckCopy.Nodup := by
  have ranks : (Rank.all.filter program.includesRank).Nodup :=
    List.Nodup.filter _ (by decide)
  refine List.nodup_flatMap.mpr ⟨fun rank _ => ?_, ranks.imp fun different card left right => ?_⟩
  · exact List.Nodup.map (fun _ _ same => congrArg Card.suit same) (by decide)
  · obtain ⟨_, _, rfl⟩ := List.mem_map.mp left
    obtain ⟨_, _, same⟩ := List.mem_map.mp right
    exact different (congrArg Card.rank same).symm

/-- Every card of an included rank is in the deck once for each copy. -/
theorem count_deck (program : Program) (card : Card) :
    program.deck.count card =
      if program.includesRank card.rank then program.header.deckCopies.toNat else 0 := by
  have single :
      program.deckCopy.count card = if program.includesRank card.rank then 1 else 0 := by
    rw [program.nodup_deckCopy.count]
    simp only [mem_deckCopy_iff]
  unfold deck
  rw [List.count_flatten, List.map_replicate, List.sum_replicate, single]
  split <;> simp

theorem length_deckCopy (program : Program) :
    program.deckCopy.length = Rank.all.countP program.includesRank * Suit.count := by
  simp [deckCopy, List.length_flatMap, List.countP_eq_length_filter, Suit.all, Suit.count]

theorem length_deck (program : Program) (nonneg : 0 ≤ program.header.deckCopies) :
    (program.deck.length : Int) = program.deckSize := by
  have copies := Int.toNat_of_nonneg nonneg
  unfold deck deckSize
  rw [List.length_flatten, List.map_replicate, List.sum_replicate, length_deckCopy,
    smul_eq_mul, Nat.cast_mul, copies, Int.mul_comm]

theorem length_enterTeam (seats : List Int) (team : List Int × Nat) :
    (enterTeam seats team).length = seats.length := by
  have entered : ∀ (members : List Int) (seats : List Int),
      (members.foldl (fun (seats : List Int) member =>
        if member < 0 then seats else seats.set member.toNat team.2) seats).length =
          seats.length := by
    intro members
    induction members with
    | nil => exact fun _ => rfl
    | cons member rest ih =>
        intro seats
        rw [List.foldl_cons, ih]
        split
        · rfl
        · exact List.length_set
  exact entered team.1 seats

theorem length_seatTeams (program : Program) :
    program.seatTeams.length = program.header.participants.toNat := by
  have entered : ∀ (teams : List (List Int × Nat)) (seats : List Int),
      (teams.foldl enterTeam seats).length = seats.length := by
    intro teams
    induction teams with
    | nil => exact fun _ => rfl
    | cons team rest ih =>
        intro seats
        rw [List.foldl_cons, ih, length_enterTeam]
  unfold seatTeams
  dsimp only
  split
  · rw [entered, List.length_replicate]
  · exact List.length_replicate

end Program

/-! ### The first hand -/

namespace Table

variable {program : Program} {table : Table} {card : Card}

theorem seats_seated (program : Program) (seed : UInt64) :
    (seated program seed).seats = program.header.participants.toNat := by
  simp [seated, setUp, seats, Program.length_seatTeams]

theorem seats_opening (program : Program) (seed : UInt64) :
    (opening program seed).seats = program.header.participants.toNat := by
  simp [opening, deal, shuffleDeck, seated, setUp, seats, Program.length_seatTeams]

theorem orderly_seated (several : 2 ≤ program.header.participants) (seed : UInt64) :
    (seated program seed).Orderly := by
  have seats := seats_seated program seed
  refine ⟨by omega, ⟨Int.le_refl 0, ?_⟩, Or.inl rfl, ?_, ?_, ?_, Int.le_refl 0⟩
  · rw [seats]
    change (0 : Int) < _
    omega
  · exact fun _ member => absurd member List.not_mem_nil
  · exact fun _ member => absurd member List.not_mem_nil
  · exact fun pending => absurd pending Bool.false_ne_true

theorem tally_seated (program : Program) (seed : UInt64) (card : Card) :
    (seated program seed).tally card = program.deck.count card := by
  have empty : inHands (program.seatTeams.map (seatedPlayer program)) card = 0 := by
    rw [inHands, List.count_eq_zero]
    simp [seatedPlayer]
  have bare : (if program.usesTableau then [([] : List Card)] else []).flatten = [] := by
    split <;> rfl
  simp [seated, setUp, tally, empty, bare]

/-- Whatever absorbs no other cards from there on has those of the deck. -/
theorem Absorbs.perm_deck {program : Program} {seed : UInt64}
    (absorbs : Absorbs (seated program seed) [] table) : table.cards.Perm program.deck := by
  apply cards_perm_iff.mpr
  intro card
  rw [absorbs.tally, tally_seated, List.count_nil, Nat.add_zero]

/-- The first deal distributes the deck of the program. -/
theorem absorbs_opening (several : 2 ≤ program.header.participants) (seed : UInt64) :
    Absorbs (seated program seed) [] (opening program seed) := by
  have orderly := orderly_seated several seed
  have shuffled := rearranges_shuffleDeck (seated program seed)
  have someone : 0 < (seated program seed).shuffleDeck.seats := by
    have seats := (orderly.of_frame shuffled.frame).several
    omega
  exact (shuffled.trans (rearranges_deal program someone)).absorbs orderly

/-- The first deal deals some arrangement of the deck. -/
theorem exists_opening_eq (program : Program) (seed : UInt64) :
    ∃ deck generator, deck.Perm program.deck ∧
      opening program seed =
        { seated program seed with deck := deck, generator := generator }.deal program := by
  refine ⟨((Generator.seeded seed).shuffle program.deck).1,
    ((Generator.seeded seed).shuffle program.deck).2, ?_, rfl⟩
  exact Generator.shuffle_perm _ program.deck

/-! ### Later hands -/

theorem rearranges_gathered (table : Table) : Rearranges table table.gathered := by
  refine ⟨by simp [gathered, frame, seats], fun card => ?_⟩
  have empty : inHands (table.players.map Player.betweenHands) card = 0 := by
    rw [inHands, List.count_eq_zero]
    simp [Player.betweenHands]
  have bare : (table.tableau.map fun _ => ([] : List Card)).flatten = [] := by
    simp
  have sorted := (List.mergeSort_perm table.cards Card.atMost).count_eq card
  simp only [gathered, tally, empty, bare, sorted, List.count_nil, ← table.tally_eq_count card]
  rfl

/-- A later deal distributes whatever lies on the table. -/
theorem absorbs_nextHand (program : Program) (orderly : table.Orderly) :
    Absorbs table [] (table.nextHand program) := by
  have shuffled := (rearranges_gathered table).trans (rearranges_shuffleDeck _)
  have someone : 0 < table.gathered.shuffleDeck.seats := by
    have seats := (orderly.of_frame shuffled.frame).several
    omega
  have dealt := (shuffled.trans (rearranges_deal program someone)).absorbs orderly
  have seats : (0 : Int) < (table.gathered.shuffleDeck.deal program).seats := by
    have several := dealt.orderly.several
    omega
  have nonneg := orderly.handNumber
  refine ⟨dealt.tally, dealt.seats, dealt.total, ⟨dealt.orderly.several, ?_, Or.inl rfl, ?_, ?_,
    ?_, ?_⟩⟩
  · exact ⟨Int.tmod_nonneg _ (by omega), Int.tmod_lt_of_pos _ seats⟩
  · exact fun _ member => absurd member List.not_mem_nil
  · exact fun _ member => absurd member List.not_mem_nil
  · exact fun pending => absurd pending Bool.false_ne_true
  · change 0 ≤ table.handNumber + 1
    omega

end Table

/-! ### A short game -/

/-- A game for two in which everyone is dealt two cards. -/
def shortGame (phases : List Phase) : Program where
  setup := { cardsPerParticipant := 2 }
  phases := phases

/-- Its first deal gives out the four cards on top of the deck. -/
theorem Table.exists_opening_shortGame (phases : List Phase) (seed : UInt64) :
    ∃ first second third fourth deck generator,
      Table.opening (shortGame phases) seed =
        { Table.seated (shortGame phases) seed with
          players := [{ hand := [first, third] }, { hand := [second, fourth] }]
          deck := deck
          generator := generator } := by
  obtain ⟨deck, generator, permuted, dealt⟩ := Table.exists_opening_eq (shortGame phases) seed
  have size : deck.reverse.length = 52 := by
    rw [List.length_reverse, permuted.length_eq]
    rfl
  match listed : deck.reverse, size with
  | first :: second :: third :: fourth :: rest, _ =>
      have players : { Table.seated (shortGame phases) seed with
          deck := deck, generator := generator }.players = [{}, {}] := rfl
      have seats : { Table.seated (shortGame phases) seed with
          deck := deck, generator := generator }.seats = 2 := rfl
      have share : Table.share (shortGame phases) { Table.seated (shortGame phases) seed with
          deck := deck, generator := generator } = 2 := rfl
      refine ⟨first, second, third, fourth, rest.reverse, generator, ?_⟩
      rw [dealt]
      unfold Table.deal
      rw [listed, share, seats, players]
      rfl

end Croupier
