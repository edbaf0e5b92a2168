/-
What wagers, showdowns and deals do to the stakes.

A wager moves chips from a purse into the pot, never more than the purse holds, and a showdown
pays out the whole pot. Somebody is there to be paid: the highest bet is that of a participant
who is still in the hand, because only who is behind it is offered to fold.
-/

import Croupier.Proofs.Play.Books

namespace Croupier

/-! ### Totals -/

theorem total_map_const {α : Type} {value : α → Int} {number : Int} {items : List α}
    (same : ∀ item ∈ items, value item = number) :
    total (items.map value) = items.length * number := by
  induction items with
  | nil =>
      rw [List.map_nil, total_nil, List.length_nil, Nat.cast_zero, zero_mul]
  | cons item rest ih =>
      have others := ih fun other member => same other (List.mem_cons_of_mem _ member)
      rw [List.map_cons, total_cons, same item List.mem_cons_self, others, List.length_cons]
      push_cast
      ring

theorem total_map_middle {α : Type} (value : α → Int) (earlier later : List α) (item : α) :
    total ((earlier ++ item :: later).map value) =
      value item + total ((earlier ++ later).map value) := by
  rw [List.map_append, List.map_append, List.map_cons, total_append, total_append, total_cons]
  omega

/-! ### Stakes -/

/-- The purse after chips went from it into the pot. -/
def Purse.pay (purse : Purse) (amount : Int) : Purse :=
  { purse with chips := purse.chips - amount, bet := purse.bet + amount }

def Purse.receive (purse : Purse) (amount : Int) : Purse :=
  { purse with chips := purse.chips + amount }

def Purse.fold (purse : Purse) : Purse :=
  { purse with folded := true }

/-- The purse after a showdown. -/
def Purse.settle (purse : Purse) : Purse :=
  { purse with bet := 0 }

/-- The purse at the start of a hand. -/
def Purse.renew (purse : Purse) : Purse :=
  { purse with bet := 0, folded := false }

namespace Stakes

/-- So many chips are in play, nobody owes any, the pot is what was bet, and the bet to match
is that of somebody who is in the hand. -/
structure Balanced (amount : Int) (stakes : Stakes) : Prop where
  whole : total (stakes.purses.map Purse.chips) + stakes.pot = amount
  covered : stakes.pot = total (stakes.purses.map Purse.bet)
  solvent : ∀ purse ∈ stakes.purses, 0 ≤ purse.chips
  wagered : ∀ purse ∈ stakes.purses, 0 ≤ purse.bet
  highest : ∀ purse ∈ stakes.purses, purse.bet ≤ stakes.bet
  leading : ∃ purse ∈ stakes.purses, purse.folded = false ∧ purse.bet = stakes.bet

/-- Nothing is at stake when nobody has bet. -/
theorem balanced_of_clear {purses : List Purse} {amount : Int}
    (whole : total (purses.map Purse.chips) = amount)
    (solvent : ∀ purse ∈ purses, 0 ≤ purse.chips) (clear : ∀ purse ∈ purses, purse.bet = 0)
    (playing : ∃ purse ∈ purses, purse.folded = false) :
    Balanced amount { purses := purses, pot := 0, bet := 0 } := by
  obtain ⟨leader, present, stays⟩ := playing
  constructor
  · rw [Int.add_zero, whole]
  · rw [total_map_const clear, mul_zero]
  · exact solvent
  · intro purse member
    exact Int.le_of_eq (clear purse member).symm
  · intro purse member
    exact Int.le_of_eq (clear purse member)
  · exact ⟨leader, present, stays, clear leader present⟩

/-- The bets are cleared, and the chips stay where they are. -/
theorem balanced_of_clear_map {purses : List Purse} {clear : Purse → Purse} {amount : Int}
    (chips : ∀ purse, (clear purse).chips = purse.chips) (bet : ∀ purse, (clear purse).bet = 0)
    (whole : total (purses.map Purse.chips) = amount)
    (solvent : ∀ purse ∈ purses, 0 ≤ purse.chips)
    (playing : ∃ purse ∈ purses, (clear purse).folded = false) :
    Balanced amount { purses := purses.map clear, pot := 0, bet := 0 } := by
  apply balanced_of_clear
  · have same : Purse.chips ∘ clear = Purse.chips := funext chips
    rw [List.map_map, same, whole]
  · intro purse member
    obtain ⟨before, listed, rfl⟩ := List.mem_map.mp member
    rw [chips]
    exact solvent before listed
  · intro purse member
    obtain ⟨before, _, rfl⟩ := List.mem_map.mp member
    exact bet before
  · obtain ⟨leader, present, stays⟩ := playing
    exact ⟨clear leader, List.mem_map_of_mem present, stays⟩

/-- What a participant can do to the stakes in a turn. -/
inductive Wagers (stakes : Stakes) : Stakes → Prop where
  | check : Wagers stakes stakes
  | pay {earlier later : List Purse} {purse : Purse} {amount : Int}
      (listed : stakes.purses = earlier ++ purse :: later) (playing : purse.folded = false)
      (nonneg : 0 ≤ amount) (held : amount ≤ purse.chips) :
      Wagers stakes
        { purses := earlier ++ purse.pay amount :: later
          pot := stakes.pot + amount
          bet := max stakes.bet (purse.bet + amount) }
  | fold {earlier later : List Purse} {purse : Purse}
      (listed : stakes.purses = earlier ++ purse :: later) (behind : purse.bet < stakes.bet) :
      Wagers stakes { stakes with purses := earlier ++ purse.fold :: later }

variable {stakes next : Stakes} {amount : Int}

/-- One purse changes, and the pot by as much. -/
theorem Balanced.replace {earlier later : List Purse} {purse fresh : Purse} {paid : Int}
    (balanced : stakes.Balanced amount) (listed : stakes.purses = earlier ++ purse :: later)
    (chips : fresh.chips = purse.chips - paid) (bet : fresh.bet = purse.bet + paid)
    (nonneg : 0 ≤ paid) (held : paid ≤ purse.chips)
    (stays : fresh.folded = false ∨ fresh.bet < stakes.bet) :
    Balanced amount
      { purses := earlier ++ fresh :: later
        pot := stakes.pot + paid
        bet := max stakes.bet fresh.bet } := by
  have present {other : Purse} (member : other = purse ∨ other ∈ earlier ++ later) :
      other ∈ stakes.purses := by
    rw [listed, List.perm_middle.mem_iff]
    exact List.mem_cons.mpr member
  have cases_mem {other : Purse} (member : other ∈ earlier ++ fresh :: later) :
      other = fresh ∨ other ∈ earlier ++ later :=
    List.mem_cons.mp (List.perm_middle.mem_iff.mp member)
  have solvent := balanced.solvent purse (present (.inl rfl))
  have wagered := balanced.wagered purse (present (.inl rfl))
  constructor
  · have whole := balanced.whole
    rw [listed, total_map_middle] at whole
    dsimp only
    rw [total_map_middle]
    omega
  · have covered := balanced.covered
    rw [listed, total_map_middle] at covered
    dsimp only
    rw [total_map_middle]
    omega
  · intro other member
    rcases cases_mem member with rfl | kept
    · omega
    · exact balanced.solvent other (present (.inr kept))
  · intro other member
    rcases cases_mem member with rfl | kept
    · omega
    · exact balanced.wagered other (present (.inr kept))
  · intro other member
    rcases cases_mem member with rfl | kept
    · exact le_max_right _ _
    · exact le_max_of_le_left (balanced.highest other (present (.inr kept)))
  · have fits : fresh ∈ earlier ++ fresh :: later := List.mem_append_right _ List.mem_cons_self
    by_cases tops : stakes.bet ≤ fresh.bet
    · have playing := stays.resolve_right (Int.not_lt.mpr tops)
      exact ⟨fresh, fits, playing, (max_eq_right tops).symm⟩
    · -- whoever led before had a higher bet than the purse that changes
      obtain ⟨leader, member, playing, leads⟩ := balanced.leading
      have behind : fresh.bet ≤ stakes.bet := by omega
      rw [listed, List.perm_middle.mem_iff] at member
      rcases List.mem_cons.mp member with rfl | kept
      · omega
      · refine ⟨leader, ?_, playing, ?_⟩
        · exact List.perm_middle.mem_iff.mpr (List.mem_cons_of_mem _ kept)
        · rw [leads]
          exact (max_eq_left behind).symm

theorem Balanced.wagers (balanced : stakes.Balanced amount) (wagers : stakes.Wagers next) :
    next.Balanced amount := by
  cases wagers with
  | check => exact balanced
  | pay listed playing nonneg held =>
      exact balanced.replace listed rfl rfl nonneg held (.inl playing)
  | @fold earlier later purse listed behind =>
      have present : purse ∈ stakes.purses := by
        rw [listed]
        exact List.mem_append_right _ List.mem_cons_self
      have folded : Balanced amount
          { purses := earlier ++ purse.fold :: later
            pot := stakes.pot + 0
            bet := max stakes.bet purse.fold.bet } := by
        apply balanced.replace listed
        · exact (Int.sub_zero purse.chips).symm
        · exact (Int.add_zero purse.bet).symm
        · exact Int.le_refl 0
        · exact balanced.solvent purse present
        · exact .inr behind
      have top : max stakes.bet purse.fold.bet = stakes.bet := max_eq_left (Int.le_of_lt behind)
      rw [Int.add_zero, top] at folded
      exact folded

end Stakes

namespace Table

variable {table next : Table} {seat : Int} {program : Program} {amount : Int}

/-! ### Wagers -/

theorem getElem?_purses (seated : table.HasSeat seat) :
    table.purses[seat.toNat]? = some (table.player seat).purse := by
  obtain ⟨nonneg, below⟩ := seated
  have taken : seat.toNat < table.players.length := by
    unfold seats at below
    omega
  unfold purses player
  rw [List.getElem?_map, if_neg (Int.not_lt.mpr nonneg), List.getD_eq_getElem?_getD,
    List.getElem?_eq_getElem taken]
  rfl

/-- A change of a participant changes one purse among the others. -/
theorem exists_purses_modifyPlayer {change : Player → Player} (altered : Purse → Purse)
    (same : ∀ player, (change player).purse = altered player.purse)
    (seated : table.HasSeat seat) :
    ∃ earlier later, table.purses = earlier ++ (table.player seat).purse :: later ∧
      (table.modifyPlayer seat change).purses =
        earlier ++ altered (table.player seat).purse :: later := by
  have own := getElem?_purses seated
  obtain ⟨inside, there⟩ := List.getElem?_eq_some_iff.mp own
  obtain ⟨earlier, purse, later, listed, place, modified⟩ :=
    List.exists_of_modify altered inside
  have here : table.purses[seat.toNat]? = some purse := by
    rw [listed, List.getElem?_append_right (Nat.le_of_eq place), place, Nat.sub_self]
    rfl
  cases own.symm.trans here
  refine ⟨earlier, later, listed, ?_⟩
  rw [purses_modifyPlayer altered same seated.1, modified]

theorem player_modifyPlayer (seated : table.HasSeat seat) (change : Player → Player) :
    (table.modifyPlayer seat change).player seat = change (table.player seat) := by
  obtain ⟨nonneg, below⟩ := seated
  have taken : seat.toNat < table.players.length := by
    unfold seats at below
    omega
  have upright : ¬seat < 0 := Int.not_lt.mpr nonneg
  simp [modifyPlayer, player, upright, taken]

theorem stakes_of_purse {change : Player → Player}
    (same : ∀ player, (change player).purse = player.purse) :
    (table.modifyPlayer seat change).stakes = table.stakes :=
  congrArg Book.stakes (book_modifyPlayer same)

theorem stakes_modifyPlayer (table : Table) (seat : Int) (change : Player → Player) :
    (table.modifyPlayer seat change).stakes =
      { table.stakes with purses := (table.modifyPlayer seat change).purses } := by
  unfold modifyPlayer
  split <;> rfl

/-- A change that goes by the seat, but leaves the purses alone. -/
theorem purses_zipIdx (change : Player × Nat → Player)
    (same : ∀ entry, (change entry).purse = entry.1.purse) (players : List Player) :
    (players.zipIdx.map change).map Player.purse = players.map Player.purse := by
  have own : Player.purse ∘ change = Player.purse ∘ Prod.fst := funext same
  rw [List.map_map, own, ← List.map_map, List.zipIdx_map_fst]

theorem stakes_setBet (table : Table) (seat : Int) :
    (table.setBet seat).stakes = { table.stakes with bet := (table.player seat).bet } := by
  have kept := purses_zipIdx (fun entry : Player × Nat =>
    if entry.2 = seat then entry.1 else { entry.1 with acted := false }) (by
      intro entry
      dsimp only
      split <;> rfl) table.players
  unfold setBet reopen stakes purses
  exact congrArg (fun purses : List Purse => Stakes.mk purses table.pot (table.player seat).bet)
    kept

/-- What is on offer to someone who can bet. -/
theorem mem_offerBetting {phase : BettingPhase} {action : BettingAction}
    (offered : .bet action ∈ table.offerBetting seat phase) :
    (table.player seat).folded = false ∧ 0 < (table.player seat).chips ∧
      match action with
      | .check => table.bet ≤ (table.player seat).bet
      | .bet => table.bet ≤ (table.player seat).bet ∧ phase.minBet ≤ (table.player seat).chips
      | .call => (table.player seat).bet < table.bet ∧
          table.bet - (table.player seat).bet ≤ (table.player seat).chips
      | .raise => (table.player seat).bet ≤ table.bet ∧
          table.bet - (table.player seat).bet + phase.minBet ≤ (table.player seat).chips
      | .allIn => True
      | .fold => (table.player seat).bet < table.bet
      | .none | .unknown _ _ => False := by
  unfold offerBetting at offered
  dsimp only at offered
  split at offered
  · cases offered
  · rename_i able
    simp only [Bool.or_eq_true, decide_eq_true_eq, not_or, Bool.not_eq_true, not_le] at able
    refine ⟨able.1.1, able.2, ?_⟩
    split at offered
    · rcases List.mem_pair.mp offered with checks | bets
      · cases checks
        dsimp only
        omega
      · split at bets
        · rename_i matched held
          cases bets
          exact ⟨by omega, held⟩
        · cases bets
          trivial
    · rename_i behind
      rcases List.mem_append.mp offered with answers | folds
      · rcases List.mem_append.mp answers with calls | raises
        · have answered := List.mem_singleton.mp calls
          split at answered
          · rename_i held
            cases answered
            exact ⟨by omega, held⟩
          · cases answered
            trivial
        · split at raises
          · rename_i room
            cases List.mem_singleton.mp raises
            exact ⟨by omega, room.1⟩
          · cases raises
      · cases List.mem_singleton.mp folds
        dsimp only
        omega

/-- A payment, and whatever it makes of the bet to match. -/
theorem wagers_pay {paid bet : Int} (seated : table.HasSeat seat)
    (playing : (table.player seat).folded = false) (nonneg : 0 ≤ paid)
    (held : paid ≤ (table.player seat).chips)
    (top : bet = max table.bet ((table.player seat).bet + paid)) :
    table.stakes.Wagers { (table.pay seat paid).stakes with bet := bet } := by
  have altered : ∃ earlier later, table.purses = earlier ++ (table.player seat).purse :: later ∧
      (table.pay seat paid).purses =
        earlier ++ (table.player seat).purse.pay paid :: later :=
    exists_purses_modifyPlayer (fun purse => purse.pay paid) (fun _ => rfl) seated
  obtain ⟨earlier, later, listed, modified⟩ := altered
  have wagers : table.stakes.Wagers _ := .pay listed playing nonneg held
  unfold stakes at wagers ⊢
  rw [modified, top]
  exact wagers

theorem bet_pay (table : Table) (seat paid : Int) : (table.pay seat paid).bet = table.bet :=
  congrArg Stakes.bet (stakes_modifyPlayer table seat _)

theorem bet_player_pay (seated : table.HasSeat seat) (paid : Int) :
    ((table.pay seat paid).player seat).bet = (table.player seat).bet + paid :=
  congrArg Player.bet (player_modifyPlayer seated _)

/-- All chips of a participant are paid; if they top the bet, they are the bet to match. -/
theorem wagers_allIn {paid : Table} (seated : table.HasSeat seat)
    (playing : (table.player seat).folded = false) (funded : 0 < (table.player seat).chips)
    (drained : (table.pay seat (table.player seat).chips).modifyPlayer seat
      (fun player => { player with allIn := true }) = paid) :
    table.stakes.Wagers
      (if (paid.player seat).bet > paid.bet then paid.setBet seat else paid).stakes := by
  have same : paid.stakes = (table.pay seat (table.player seat).chips).stakes := by
    rw [← drained]
    exact stakes_of_purse fun _ => rfl
  have top : paid.bet = table.bet := (congrArg Stakes.bet same).trans (bet_pay table seat _)
  have own : (paid.player seat).bet = (table.player seat).bet + (table.player seat).chips := by
    have stays : (table.pay seat (table.player seat).chips).HasSeat seat :=
      seated.of_seats (congrArg Frame.seats (frame_modifyPlayer table seat _))
    rw [← drained, player_modifyPlayer stays]
    exact bet_player_pay seated _
  split
  · rename_i higher
    rw [stakes_setBet, same, own]
    apply wagers_pay seated playing
    · omega
    · exact Int.le_refl _
    · omega
  · rename_i matched
    rw [same]
    apply wagers_pay seated playing
    · omega
    · exact Int.le_refl _
    · refine (bet_pay table seat _).trans ?_
      omega

/-- Whatever is on offer in a betting phase is a wager within the means of the participant. -/
theorem wagers_of_offered {phase : BettingPhase} {action : BettingAction}
    (seated : table.HasSeat seat) (inRange : phase.InRange)
    (offered : .bet action ∈ table.offerBetting seat phase)
    (known : table.wager? seat phase action = some next) : table.stakes.Wagers next.stakes := by
  obtain ⟨playing, funded, afforded⟩ := mem_offerBetting offered
  have minBet := inRange.minBet.1
  have acts (before : Table) :
      (before.modifyPlayer seat Player.afterActing).stakes = before.stakes :=
    stakes_of_purse fun _ => rfl
  unfold wager? at known
  cases action with
  | none | unknown => cases known
  | check =>
      cases known
      rw [acts]
      exact .check
  | fold =>
      cases known
      have altered : ∃ earlier later,
          table.purses = earlier ++ (table.player seat).purse :: later ∧
            (table.modifyPlayer seat fun player =>
              { player with folded := true, acted := true }).purses =
                earlier ++ (table.player seat).purse.fold :: later :=
        exists_purses_modifyPlayer Purse.fold (fun _ => rfl) seated
      obtain ⟨earlier, later, listed, modified⟩ := altered
      rw [stakes_modifyPlayer, modified]
      exact .fold listed afforded
  | call =>
      cases known
      rw [acts]
      unfold owed
      apply wagers_pay seated playing
      · exact le_max_right _ _
      · dsimp only at afforded
        omega
      · refine (bet_pay table seat _).trans ?_
        omega
  | bet =>
      cases known
      rw [acts, stakes_setBet, bet_player_pay seated]
      apply wagers_pay seated playing
      · omega
      · exact afforded.2
      · dsimp only at afforded
        omega
  | raise =>
      cases known
      rw [acts, stakes_setBet]
      change table.stakes.Wagers { (table.pay seat _).stakes with
        bet := ((table.pay seat _).player seat).bet }
      rw [bet_player_pay seated]
      unfold owed
      dsimp only at afforded
      apply wagers_pay seated playing
      · omega
      · omega
      · omega
  | allIn =>
      cases known
      rw [acts]
      exact wagers_allIn seated playing funded rfl

/-! ### Showdowns -/

theorem mem_unfolded_iff :
    seat ∈ table.unfolded ↔ table.HasSeat seat ∧ (table.player seat).folded = false := by
  unfold unfolded
  rw [List.mem_filter, mem_allSeats_iff, Bool.not_eq_true']

/-- Whoever has not folded leaves a purse that shows it. -/
theorem unfolded_ne_nil {purse : Purse} (member : purse ∈ table.purses)
    (playing : purse.folded = false) : table.unfolded ≠ [] := by
  obtain ⟨place, inside, rfl⟩ := List.mem_iff_getElem.mp member
  have seated : table.HasSeat place := by
    unfold purses at inside
    rw [List.length_map] at inside
    exact ⟨Int.natCast_nonneg place, Int.ofNat_lt.mpr inside⟩
  have own := getElem?_purses seated
  rw [Int.toNat_natCast, List.getElem?_eq_getElem inside] at own
  rw [Option.some.inj own] at playing
  exact List.ne_nil_of_mem (mem_unfolded_iff.mpr ⟨seated, playing⟩)

/-- Some of the candidates have the best hand. -/
theorem bestHands_ne_nil {candidates : List Int} (some : candidates ≠ []) (program : Program) :
    table.bestHands program candidates ≠ [] := by
  unfold bestHands
  dsimp only
  split
  · rename_i nobody
    rw [List.max?_eq_none_iff, List.map_eq_nil_iff, List.map_eq_nil_iff] at nobody
    exact absurd nobody some
  · rename_i best found
    obtain ⟨entry, member, same⟩ := List.mem_map.mp (List.max?_mem found)
    apply List.ne_nil_of_mem
    apply List.mem_map_of_mem
    exact List.mem_filter.mpr ⟨member, decide_eq_true same⟩

theorem bestHands_subset (table : Table) (program : Program) (candidates : List Int) :
    table.bestHands program candidates ⊆ candidates := by
  intro winner member
  unfold bestHands at member
  dsimp only at member
  split at member
  · cases member
  · obtain ⟨entry, chosen, rfl⟩ := List.mem_map.mp member
    obtain ⟨candidate, listed, rfl⟩ := List.mem_map.mp (List.mem_of_mem_filter chosen)
    exact listed

theorem showdownWinners_ne_nil (some : table.unfolded ≠ []) (program : Program) :
    table.showdownWinners program ≠ [] := by
  unfold showdownWinners
  dsimp only
  split
  · exact some
  · exact bestHands_ne_nil some program

theorem hasSeat_of_mem_showdownWinners (member : seat ∈ table.showdownWinners program) :
    table.HasSeat seat := by
  have candidate : seat ∈ table.unfolded := by
    unfold showdownWinners at member
    dsimp only at member
    split at member
    · exact member
    · exact bestHands_subset table program _ member
  exact (mem_unfolded_iff.mp candidate).1

/-- The participants have so many more chips, and none has fewer. -/
structure Enriches (table : Table) (amount : Int) (next : Table) : Prop where
  total : total (next.purses.map Purse.chips) = total (table.purses.map Purse.chips) + amount
  folded : next.purses.map Purse.folded = table.purses.map Purse.folded
  solvent : (∀ purse ∈ table.purses, 0 ≤ purse.chips) → ∀ purse ∈ next.purses, 0 ≤ purse.chips

theorem Enriches.trans {last : Table} {more : Int} (first : Enriches table amount next)
    (second : Enriches next more last) : Enriches table (amount + more) last := by
  constructor
  · rw [second.total, first.total, Int.add_assoc]
  · rw [second.folded, first.folded]
  · exact fun solvent => second.solvent (first.solvent solvent)

theorem Enriches.hasSeat (enriches : Enriches table amount next) (seated : table.HasSeat seat) :
    next.HasSeat seat := by
  have lengths := congrArg List.length enriches.folded
  unfold purses at lengths
  simp only [List.length_map] at lengths
  exact seated.of_seats lengths

theorem enriches_award (seated : table.HasSeat seat) (nonneg : 0 ≤ amount) :
    Enriches table amount (award amount table seat) := by
  have altered : ∃ earlier later, table.purses = earlier ++ (table.player seat).purse :: later ∧
      (award amount table seat).purses =
        earlier ++ (table.player seat).purse.receive amount :: later :=
    exists_purses_modifyPlayer (fun purse => purse.receive amount) (fun _ => rfl) seated
  obtain ⟨earlier, later, listed, modified⟩ := altered
  constructor
  · rw [listed, modified, total_map_middle, total_map_middle]
    unfold Purse.receive
    dsimp only
    omega
  · rw [listed, modified, List.map_append, List.map_append, List.map_cons, List.map_cons]
    rfl
  · intro solvent purse member
    rw [listed] at solvent
    rw [modified, List.perm_middle.mem_iff] at member
    rcases List.mem_cons.mp member with rfl | kept
    · have funded := solvent _ (List.mem_append_right _ List.mem_cons_self)
      unfold Purse.receive
      dsimp only
      omega
    · exact solvent purse (List.perm_middle.mem_iff.mpr (List.mem_cons_of_mem _ kept))

theorem enriches_awards {winners : List Int} (seated : ∀ winner ∈ winners, table.HasSeat winner)
    (nonneg : 0 ≤ amount) :
    Enriches table (amount * winners.length) (winners.foldl (award amount) table) := by
  induction winners using List.reverseRecOn with
  | nil =>
      constructor
      · rw [List.length_nil, Nat.cast_zero, mul_zero, Int.add_zero]
        rfl
      · rfl
      · exact id
  | append_singleton earlier winner ih =>
      have before := ih fun other member => seated other (List.mem_append_left _ member)
      have last : table.HasSeat winner :=
        seated winner (List.mem_append_right _ (List.mem_singleton_self winner))
      have both := before.trans (enriches_award (before.hasSeat last) nonneg)
      rw [List.foldl_append, List.length_append, List.length_singleton]
      push_cast
      rw [mul_add, mul_one]
      exact both

/-- The winners of the pot receive all of it. -/
theorem enriches_payWinners {winners : List Int} (won : winners ≠ [])
    (seated : ∀ winner ∈ winners, table.HasSeat winner) (nonneg : 0 ≤ table.pot) :
    Enriches table table.pot (table.payWinners winners) := by
  cases winners with
  | nil => exact absurd rfl won
  | cons first rest =>
      have shared := enriches_awards seated (Int.tdiv_nonneg nonneg (Int.natCast_nonneg
        (rest.length + 1)))
      have leader := shared.hasSeat (seated first List.mem_cons_self)
      have remainder := enriches_award leader (Int.tmod_nonneg ((rest.length + 1 : Nat) : Int)
        nonneg)
      have whole := shared.trans remainder
      rw [List.length_cons, mul_comm, Int.mul_tdiv_add_tmod] at whole
      exact ⟨whole.total, whole.folded, whole.solvent⟩

/-- A showdown leaves the stakes balanced. -/
theorem balanced_showdown (balanced : table.stakes.Balanced amount) (program : Program) :
    (table.showdown program).stakes.Balanced amount := by
  obtain ⟨leader, present, playing, _⟩ := balanced.leading
  have won := showdownWinners_ne_nil (unfolded_ne_nil present playing) program
  have nonneg : 0 ≤ table.pot := by
    have covered : table.pot = _ := balanced.covered
    rw [covered]
    apply total_nonneg
    intro number member
    obtain ⟨purse, listed, rfl⟩ := List.mem_map.mp member
    exact balanced.wagered purse listed
  have paid := enriches_payWinners won (fun _ => hasSeat_of_mem_showdownWinners) nonneg
  have shown : (table.showdown program).stakes =
      { purses := (table.payWinners (table.showdownWinners program)).purses.map Purse.settle
        pot := 0
        bet := 0 } := by
    unfold showdown stakes Table.purses
    rw [List.map_map, List.map_map]
    rfl
  rw [shown]
  apply Stakes.balanced_of_clear_map
  · exact fun _ => rfl
  · exact fun _ => rfl
  · have whole : total (table.purses.map Purse.chips) + table.pot = amount := balanced.whole
    rw [paid.total, whole]
  · exact paid.solvent balanced.solvent
  · have stays : false ∈
        (table.payWinners (table.showdownWinners program)).purses.map Purse.folded := by
      rw [paid.folded, ← playing]
      exact List.mem_map_of_mem present
    exact List.mem_map.mp stays

/-! ### Deals -/

theorem purses_deal (table : Table) (program : Program) :
    (table.deal program).purses = table.purses := by
  unfold purses
  apply purses_zipIdx
  intro entry
  rfl

/-- The first deal of a game gives everyone the same chips. -/
theorem purses_opening (program : Program) (seed : UInt64) :
    (opening program seed).purses =
      List.replicate program.seatTeams.length ⟨program.setup.startingChips, 0, false⟩ := by
  unfold opening
  rw [purses_deal]
  change (program.seatTeams.map (seatedPlayer program)).map Player.purse = _
  rw [List.map_map, ← List.map_const']
  rfl

theorem balanced_opening (inRange : program.InRange) (seed : UInt64) :
    (opening program seed).stakes.Balanced
      (program.header.participants * program.setup.startingChips) := by
  have several : 2 ≤ program.header.participants := inRange.header.participants.1
  have funded := inRange.setup.startingChips.1
  have purses := purses_opening program seed
  have same : ∀ purse ∈ (opening program seed).purses,
      purse = ⟨program.setup.startingChips, 0, false⟩ := by
    rw [purses]
    intro purse
    exact List.eq_of_mem_replicate
  have count : ((opening program seed).purses.length : Int) = program.header.participants := by
    rw [purses, List.length_replicate, Program.length_seatTeams]
    omega
  apply Stakes.balanced_of_clear
  · rw [← count]
    apply total_map_const
    intro purse member
    rw [same purse member]
  · intro purse member
    rw [same purse member]
    exact funded
  · intro purse member
    rw [same purse member]
  · have some : 0 < (opening program seed).purses.length := by omega
    obtain ⟨purse, member⟩ := List.exists_mem_of_length_pos some
    refine ⟨purse, member, ?_⟩
    rw [same purse member]

/-- The next deal clears the stakes. -/
theorem stakes_nextHand (table : Table) (program : Program) :
    (table.nextHand program).stakes =
      { purses := table.purses.map Purse.renew, pot := 0, bet := 0 } := by
  have purses : ((table.gathered.shuffleDeck).deal program).purses =
      table.purses.map Purse.renew := by
    rw [purses_deal]
    change (table.players.map Player.betweenHands).map Player.purse = _
    unfold Table.purses
    rw [List.map_map, List.map_map]
    rfl
  rw [← purses]
  rfl

theorem balanced_nextHand (balanced : table.stakes.Balanced amount) (paid : table.pot = 0)
    (program : Program) : (table.nextHand program).stakes.Balanced amount := by
  obtain ⟨leader, present, _⟩ := balanced.leading
  rw [stakes_nextHand]
  apply Stakes.balanced_of_clear_map
  · exact fun _ => rfl
  · exact fun _ => rfl
  · have whole : total (table.purses.map Purse.chips) + table.pot = amount := balanced.whole
    rw [← whole, paid, Int.add_zero]
  · exact balanced.solvent
  · exact ⟨leader, present, rfl⟩

end Table

end Croupier
