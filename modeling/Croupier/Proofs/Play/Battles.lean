/-
Battles that are settled at once.

A battle is complete as soon as nobody who holds cards is missing from it. Whether it is complete
is looked at when somebody contributes, before the effect of the card, and at every pass, but
nowhere else. So whatever takes the last card of somebody who is missing, at another time, leaves
a finished battle lying: the effect of the very card, a card that is played elsewhere, discarded
or claimed with, a draw from the hand. Where nothing of the kind happens, no battle waits.
-/

import Croupier.Proofs.Play.Hands
import Croupier.Proofs.Play.Order

namespace Croupier

/-! ### Programs -/

/-- The phases that turns come to: nothing that lies behind the first which ends turns. -/
def Program.visited (program : Program) : List Phase :=
  program.phases.takeWhile (fun phase => !phase.endsTurn)
    ++ (program.phases.find? Phase.endsTurn).toList

/-- Whether cards are played to the tableau, where battles are fought. -/
def Phase.fights : Phase → Bool
  | .play phase => phase.target = .tableau
  | .draw _ | .discard _ | .trick _ | .betting _ | .claim _ | .bidding _ => false

/-- Whether a phase takes no card from a hand, apart from contributions to battles. -/
def Phase.sparesHands : Phase → Bool
  | .draw phase => phase.source ≠ .opponentHand
  | .play phase => phase.target = .tableau || phase.target = .hand
  | .discard phase => phase.target = .hand
  | .trick _ | .claim _ => false
  | .betting _ | .bidding _ => true

/-- Where turns come to battles, nothing but battles takes cards from hands. -/
def Program.BattlesUndisturbed (program : Program) : Prop :=
  (∃ phase ∈ program.visited, phase.fights = true) →
    (∀ phase ∈ program.visited, phase.sparesHands = true) ∧
      ∀ entry ∈ program.effects.entries, entry.2.kind.sparesHands = true

instance (program : Program) : Decidable program.BattlesUndisturbed :=
  inferInstanceAs (Decidable (_ → _))

theorem EffectTable.exists_of_find? {effects : EffectTable} {rank : RankWord} {effect : Effect}
    (found : effects.find? rank = some effect) : ∃ entry ∈ effects.entries, entry.2 = effect := by
  obtain ⟨entry, listed, same⟩ := Option.map_eq_some_iff.mp found
  exact ⟨entry, List.mem_of_find?_eq_some listed, same⟩

namespace Table

variable {table next moved : Table} {seat leader : Int} {card : Card} {program : Program}
  {phase : Phase}

theorem InTurn.mem_visited (inTurn : table.InTurn program)
    (found : program.phase? table.phase = some phase) : phase ∈ program.visited := by
  unfold Program.visited
  cases ends : phase.endsTurn with
  | true =>
      rw [inTurn.find?_endsTurn found ends]
      exact List.mem_append_right _ (List.mem_singleton.mpr rfl)
  | false => exact List.mem_append_left _ (inTurn.mem_takeWhile found ends)

/-! ### Contributors and their best cards -/

/-- Who is in the battle in progress, and with which cards. -/
def muster (table : Table) : List Int × List Card :=
  (table.battleSeats, table.battleCards)

theorem stakeBlind_muster : StakeBlind muster :=
  fun _ _ _ _ _ _ _ _ _ => rfl

theorem orderBlind_muster : OrderBlind muster :=
  fun _ _ _ _ _ _ => rfl

theorem cardBlind_muster : CardBlind muster where
  hand table seat _ := stakeBlind_muster.modifyPlayer table seat _
  deck _ _ := rfl
  discard _ _ := rfl
  generator _ _ := rfl
  tableau _ _ := rfl

theorem muster_triggerEffect (table : Table) (program : Program) (actor : Int) (card : Card) :
    (table.triggerEffect program actor card).muster = table.muster :=
  cardBlind_muster.triggerEffect (fun _ _ _ => rfl) table program actor card

theorem muster_settleTrick (table : Table) (program : Program) (phase : TrickPhase) :
    (table.settleTrick program phase).2.muster = table.muster := by
  have taken : (table.takeTrick program phase).2.muster = table.muster := by
    unfold takeTrick
    dsimp only
    split
    · rfl
    · exact stakeBlind_muster.modifyPlayer table _ _
  have scored (before : Table) : (before.scoreContracts program).muster = before.muster := by
    unfold scoreContracts
    split <;> rfl
  unfold settleTrick
  split
  · dsimp only
    split
    · split
      · exact (scored _).trans taken
      · exact taken
    · exact taken
  · rfl

/-- A card that is played is either captured, or laid into a battle, or laid down. -/
theorem playCard_cases (table : Table) (program : Program) (seat : Int) (card : Card)
    (target : Location) :
    (target = .tableau ∧ table.playCard program seat card target =
        (((table.openPile target).place seat target card).enterBattle seat card).settleBattle
          program) ∨
      (table.playCard program seat card target).muster = table.muster := by
  have opened := cardBlind_muster.openPile table target
  unfold playCard
  dsimp only
  split
  · right
    have uncovered := cardBlind_muster.modifyPile (table.openPile target) seat target List.dropLast
    exact (stakeBlind_muster.modifyPlayer _ seat _).trans (uncovered.trans opened)
  · split
    · rename_i fights
      exact .inl ⟨fights.2, rfl⟩
    · right
      exact (cardBlind_muster.modifyPile (table.openPile target) seat target _).trans opened

/-- Everyone in the battle is in it with one card. -/
def Paired (table : Table) : Prop :=
  table.battleCards.length = table.battleSeats.length

theorem Paired.of_muster (paired : table.Paired) (same : next.muster = table.muster) :
    next.Paired := by
  obtain ⟨seats, cards⟩ := Prod.mk.inj same
  unfold Paired
  rw [seats, cards]
  exact paired

theorem Paired.of_none (none : table.muster = ([], [])) : table.Paired := by
  obtain ⟨seats, cards⟩ := Prod.mk.inj none
  unfold Paired
  rw [seats, cards]
  rfl

theorem Paired.enterBattle (paired : table.Paired) (seat : Int) (card : Card) :
    (table.enterBattle seat card).Paired := by
  unfold Table.enterBattle
  split
  · unfold Paired
    rw [List.length_modify]
    exact paired
  · unfold Paired
    rw [List.length_append, List.length_append, paired]
    rfl

/-! ### Winning a battle -/

theorem highestRank_mem {cards : List Card} (some : cards ≠ []) :
    ∃ card ∈ cards, card.rank = highestRank cards := by
  have reaches : ∀ (rest : List Card) (best : Rank),
      rest.foldl (fun best card => best.higher card.rank) best = best ∨
        ∃ card ∈ rest, card.rank = rest.foldl (fun best card => best.higher card.rank) best := by
    intro rest
    induction rest with
    | nil => exact fun _ => .inl rfl
    | cons card rest ih =>
        intro best
        rw [List.foldl_cons]
        rcases ih (best.higher card.rank) with same | ⟨other, listed, same⟩
        · rw [same]
          unfold Rank.higher
          split
          · exact .inr ⟨card, List.mem_cons_self, rfl⟩
          · exact .inl rfl
        · exact .inr ⟨other, List.mem_cons_of_mem card listed, same⟩
  cases cards with
  | nil => exact absurd rfl some
  | cons first rest =>
      -- The search begins with the lowest rank, so the first card makes up for that.
      have lowest : Rank.higher .two first.rank = first.rank := by
        cases first.rank <;> rfl
      unfold highestRank
      rw [List.foldl_cons, lowest]
      rcases reaches rest first.rank with same | ⟨card, listed, same⟩
      · exact ⟨first, List.mem_cons_self, same.symm⟩
      · exact ⟨card, List.mem_cons_of_mem first listed, same⟩

theorem Paired.battleBest_ne_nil (paired : table.Paired) (begun : table.battleSeats ≠ []) :
    table.battleBest ≠ [] := by
  have some : table.battleCards ≠ [] := by
    rw [← List.length_pos_iff, paired]
    exact List.length_pos_iff.mpr begun
  obtain ⟨card, listed, highest⟩ := highestRank_mem some
  obtain ⟨place, inside, rfl⟩ := List.mem_iff_getElem.mp listed
  have within : place < table.battleSeats.length := paired ▸ inside
  have both : place < (table.battleSeats.zip table.battleCards).length := by
    rw [List.length_zip]
    exact lt_min within inside
  have entered : (table.battleSeats[place], table.battleCards[place]) ∈
      table.battleSeats.zip table.battleCards :=
    List.mem_iff_getElem.mpr ⟨place, both, List.getElem_zip⟩
  apply List.ne_nil_of_mem
  exact List.mem_map_of_mem (List.mem_filter.mpr ⟨entered, decide_eq_true highest⟩)

theorem Paired.exists_battleWinner (paired : table.Paired) (begun : table.battleSeats ≠ [])
    (program : Program) : ∃ winner, table.battleWinner? program = some winner := by
  have several := List.length_pos_iff.mpr (paired.battleBest_ne_nil begun)
  unfold battleWinner?
  dsimp only
  split
  · have below := Int.tmod_lt_of_pos table.battles (Int.ofNat_lt.mpr several)
    refine ⟨_, List.getElem?_eq_getElem ?_⟩
    omega
  · exact ⟨_, List.head?_eq_some_head (List.length_pos_iff.mp several)⟩
  · exact ⟨_, List.head?_eq_some_head (List.length_pos_iff.mp several)⟩

/-! ### Settling a battle -/

/-- Everyone in the battle is in it with one card, and somebody who could be is not. -/
structure Settled (table : Table) : Prop where
  paired : table.Paired
  waits : table.battleComplete = false

theorem Settled.of_none (none : table.muster = ([], [])) : table.Settled :=
  ⟨.of_none none, battleComplete_eq_false_iff.mpr fun begun =>
    absurd (congrArg Prod.fst none) begun⟩

theorem Settled.of_keeps (settled : table.Settled) (same : next.muster = table.muster)
    (keeps : KeepsHands table next) : next.Settled := by
  have seats : next.battleSeats = table.battleSeats := congrArg Prod.fst same
  refine ⟨settled.paired.of_muster same, battleComplete_eq_false_iff.mpr ?_⟩
  rw [seats]
  exact keeps.awaits (battleComplete_eq_false_iff.mp settled.waits)

theorem Paired.settleBattle (paired : table.Paired) (program : Program) :
    (table.settleBattle program).Settled := by
  unfold Table.settleBattle
  by_cases complete : table.battleComplete = true
  · rw [if_pos complete]
    have begun : table.battleSeats ≠ [] := by
      intro none
      rw [battleComplete, none] at complete
      cases complete
    obtain ⟨winner, wins⟩ := paired.exists_battleWinner begun program
    refine .of_none ?_
    unfold takeBattle
    rw [wins]
    rfl
  · rw [if_neg complete]
    exact ⟨paired, Bool.eq_false_of_not_eq_true complete⟩

/-- A battle that waits for somebody is left alone. -/
theorem settleBattle_of_waits (waits : table.battleComplete = false) :
    table.settleBattle program = table := by
  unfold settleBattle
  rw [waits]
  rfl

/-- A pass settles a battle if there is one to settle. -/
theorem Paired.passIn (paired : table.Paired) (war : program.header.tableauMode = .war)
    (phase : Phase) : (table.passIn program phase).2.Settled := by
  have settled := paired.settleBattle program
  unfold Table.passIn
  rw [if_pos war]
  cases phase with
  | trick phase =>
      exact settled.of_keeps (muster_settleTrick _ program phase)
        (keepsHands_settleTrick _ program phase)
  | betting phase =>
      exact settled.of_keeps (stakeBlind_muster.settleBetting _ program)
        (keepsHands_settleBetting _ program)
  | draw | play | discard | claim | bidding => exact settled

/-- A contribution settles the battle that it completes, and an effect that takes from no hand
completes none. -/
theorem Paired.contribution (paired : table.Paired) (war : program.header.tableauMode = .war)
    (spares : ∀ effect, program.effectOf? card = some effect → effect.kind.sparesHands = true)
    (seat : Int) (place : Nat) :
    (((table.without seat place).playCard program seat card .tableau).triggerEffect program seat
      card).Settled := by
  have lifted : (table.without seat place).Paired :=
    paired.of_muster (cardBlind_muster.hand table seat _)
  have laid : (((table.without seat place).openPile .tableau).place seat .tableau card).Paired :=
    lifted.of_muster ((cardBlind_muster.modifyPile _ seat .tableau _).trans
      (cardBlind_muster.openPile _ .tableau))
  have played : ((table.without seat place).playCard program seat card .tableau).Settled := by
    have uncaptured (pile : List Card) : captures program .tableau pile card = none := by
      unfold captures
      rw [war]
      rfl
    unfold playCard
    dsimp only
    rw [uncaptured]
    dsimp only
    rw [if_pos ⟨war, rfl⟩]
    exact (laid.enterBattle seat card).settleBattle program
  exact played.of_keeps (muster_triggerEffect _ program seat card)
    (keepsHands_triggerEffect _ seat spares)

/-! ### Steps -/

/-- Only a card that is played to the tableau enters a battle. -/
theorem muster_of_carries {choice : Choice} {index : Int} (acts : choice ≠ .pass)
    (elsewhere : ∀ place, choice ≠ .play place .tableau)
    (carries : Play.Carries program seat table ⟨index, choice⟩ leader next) :
    next.muster = table.muster := by
  cases carries with
  | draw found => exact cardBlind_muster.draw table seat _ _
  | @play _ place target _ card _ _ =>
      have lifted := cardBlind_muster.hand table seat (·.eraseIdx place.toNat)
      rcases playCard_cases (table.without seat place.toNat) program seat card target with
        ⟨there, _⟩ | played
      · exact absurd (congrArg (Choice.play place) there) (elsewhere place)
      · exact (muster_triggerEffect _ program seat card).trans (played.trans lifted)
  | @discard _ place target _ card _ _ =>
      have lifted := cardBlind_muster.hand table seat (·.eraseIdx place.toNat)
      exact (cardBlind_muster.modifyPile _ seat target _).trans lifted
  | @trick _ place phase card _ _ _ contributed =>
      subst contributed
      have lifted := cardBlind_muster.hand table seat (·.eraseIdx place.toNat)
      have laid : ((table.without seat place.toNat).contribute seat card phase).muster = _ :=
        cardBlind_muster.modifyPile (table.without seat place.toNat) seat .tableau (· ++ [card])
      exact (muster_settleTrick _ program phase).trans
        ((muster_triggerEffect _ program seat card).trans (laid.trans lifted))
  | bet found known =>
      exact (stakeBlind_muster.settleBetting _ program).trans (stakeBlind_muster.wager known)
  | @claim _ place _ _ _ _ => exact cardBlind_muster.hand table seat (·.eraseIdx place.toNat)
  | challenge => exact cardBlind_muster.hand table _ _
  | accept => rfl
  | bid => exact stakeBlind_muster.modifyPlayer table seat _
  | pass => exact absurd rfl acts

theorem Paired.carries {choice : Choice} {index : Int} (paired : table.Paired)
    (acts : choice ≠ .pass)
    (carries : Play.Carries program seat table ⟨index, choice⟩ leader next) : next.Paired := by
  by_cases elsewhere : ∀ place, choice ≠ .play place .tableau
  · exact paired.of_muster (muster_of_carries acts elsewhere carries)
  · simp only [not_forall, not_not] at elsewhere
    obtain ⟨place, rfl⟩ := elsewhere
    cases carries with
    | @play _ _ _ _ card _ _ =>
        have lifted : (table.without seat place.toNat).Paired :=
          paired.of_muster (cardBlind_muster.hand table seat _)
        refine Paired.of_muster ?_ (muster_triggerEffect _ program seat card)
        rcases playCard_cases (table.without seat place.toNat) program seat card .tableau with
          ⟨_, fought⟩ | same
        · have laid : (((table.without seat place.toNat).openPile .tableau).place seat .tableau
              card).Paired :=
            lifted.of_muster ((cardBlind_muster.modifyPile _ seat .tableau _).trans
              (cardBlind_muster.openPile _ .tableau))
          rw [fought]
          exact ((laid.enterBattle seat card).settleBattle program).paired
        · exact lifted.of_muster same

/-- A phase that takes from no hand keeps the battle waiting, as does an effect that takes from
none. -/
theorem Settled.carries {choice : Choice} (settled : table.Settled)
    (war : program.header.tableauMode = .war) (acts : choice ≠ .pass)
    (found : program.phase? table.phase = some phase) (spares : phase.sparesHands = true)
    (mild : ∀ entry ∈ program.effects.entries, entry.2.kind.sparesHands = true)
    (offered : table.Offered seat phase choice)
    (carries : Play.Carries program seat table ⟨table.phase, choice⟩ leader next) :
    next.Settled := by
  have gentle : ∀ card effect, program.effectOf? card = some effect →
      effect.kind.sparesHands = true := by
    intro card effect named
    obtain ⟨entry, listed, rfl⟩ := EffectTable.exists_of_find? named
    exact mild entry listed
  by_cases fights : ∃ place, choice = .play place .tableau
  · obtain ⟨place, rfl⟩ := fights
    cases carries with
    | play => exact settled.paired.contribution war (gentle _) seat place.toNat
  · have elsewhere : ∀ place, choice ≠ .play place .tableau := fun place same =>
      fights ⟨place, same⟩
    refine settled.of_keeps (muster_of_carries acts elsewhere carries) ?_
    cases carries with
    | draw drawn =>
        cases found.symm.trans drawn
        exact keepsHands_draw table seat (of_decide_eq_true spares) _
    | @play _ place target playing card played _ =>
        cases found.symm.trans played
        cases offered with
        | play =>
            have own : playing.target = .hand := by
              rcases Bool.or_eq_true_iff.mp spares with there | own
              · exact absurd (congrArg _ (of_decide_eq_true there)) (elsewhere place)
              · exact of_decide_eq_true own
            have laid : (table.without seat place.toNat).playCard program seat card .hand =
                (table.without seat place.toNat).place seat .hand card := by
              unfold playCard captures
              rw [war]
              rfl
            rw [own, laid]
            exact (keepsHands_return table seat place.toNat card).trans
              (keepsHands_triggerEffect _ seat (gentle card))
    | @discard _ place target _ card laid _ =>
        cases found.symm.trans laid
        cases offered with
        | discard =>
            rw [of_decide_eq_true spares]
            exact keepsHands_return table seat place.toNat card
    | bet _ known => exact (keepsHands_wager known).trans (keepsHands_settleBetting _ program)
    | bid =>
        apply keepsHands_of_same
        exact fun _ => rfl
    | pass => exact absurd rfl acts
    | trick entered | claim entered | challenge entered | accept entered =>
        cases found.symm.trans entered
        cases spares

/-! ### The rest of an action -/

theorem Settled.afterMove (settled : table.Settled) (program : Program) (choice : Choice)
    (leader : Int) : (table.afterMove program choice leader).Settled := by
  have players : OrderBlind players := fun _ _ _ _ _ _ => rfl
  exact settled.of_keeps (orderBlind_muster.afterMove table program choice leader)
    (.of_players (players.afterMove table program choice leader))

theorem Settled.afterPass (settled : table.Settled) (program : Program) (phase : Phase)
    (leader : Int) : (table.afterPass program phase leader).Settled := by
  have players : OrderBlind players := fun _ _ _ _ _ _ => rfl
  exact settled.of_keeps (orderBlind_muster.afterPass table program phase leader)
    (.of_players (players.afterPass table program phase leader))

theorem Settled.finishAction (settled : table.Settled) (program : Program) :
    (table.finishAction program).2.Settled := by
  rcases table.finishAction_cases program with ⟨_, _, dealt⟩ | ⟨_, counted⟩
  · rw [dealt]
    exact .of_none rfl
  · rw [counted]
    exact settled.of_keeps rfl (.of_players rfl)

theorem muster_passIn (waits : table.battleComplete = false) (program : Program) (phase : Phase) :
    (table.passIn program phase).2.muster = table.muster := by
  unfold passIn
  rw [settleBattle_of_waits waits, ite_self]
  cases phase with
  | trick phase => exact muster_settleTrick table program phase
  | betting phase => exact stakeBlind_muster.settleBetting table program
  | draw | play | discard | claim | bidding => rfl

theorem Offered.fights_of_play {place : Int}
    (offered : table.Offered seat phase (.play place .tableau)) : phase.fights = true := by
  have aimed : ∀ {target : Location}, table.Offered seat phase (.play place target) →
      target = .tableau → phase.fights = true := by
    intro target offered there
    cases offered with
    | play => exact decide_eq_true there
  exact aimed offered rfl

/-- A pass leaves no battle unsettled. -/
theorem Paired.pass {outcome : Outcome} (paired : table.Paired)
    (war : program.header.tableauMode = .war)
    (passed : Play.pass program table = .ok outcome next) : next.Settled := by
  obtain ⟨phase, _, finished⟩ := Play.pass_eq_ok_iff.mp passed
  have done := ((paired.passIn war phase).afterPass program phase
    (table.passIn program phase).1).finishAction program
  rwa [finished] at done

end Table

/-! ### Runs -/

namespace Reached

variable {program : Program} {seed : UInt64} {outcome : Outcome} {table : Table}

theorem paired (war : program.header.tableauMode = .war)
    (reached : Reached program seed outcome table) : table.Paired := by
  apply reached.run_induction (motive := Table.Paired) (.of_none rfl)
  · intro table sequenced phase _ proceeds paired
    cases proceeds with
    | pass =>
        exact Table.Paired.of_muster (paired.passIn war phase).paired
          (Table.orderBlind_muster.afterPass _ program phase _)
    | move _ _ acts carries =>
        exact Table.Paired.of_muster (paired.carries acts carries)
          (Table.orderBlind_muster.afterMove _ program _ _)
  · exact fun paired => paired.of_muster rfl
  · exact fun _ _ => .of_none rfl

/-- Where turns come to no battle there is none. -/
theorem muster_eq_nil (inRange : program.InRange)
    (peaceful : ¬∃ phase ∈ program.visited, phase.fights = true)
    (reached : Reached program seed outcome table) : table.muster = ([], []) := by
  apply reached.run_induction (motive := fun table => table.muster = ([], [])) rfl
  · intro table sequenced phase earlier proceeds none
    cases proceeds with
    | pass =>
        have waits := (Table.Settled.of_none none).waits
        exact (Table.orderBlind_muster.afterPass _ program phase _).trans
          ((Table.muster_passIn waits program phase).trans none)
    | move found offered acts carries =>
        have reachable := (earlier.inTurn inRange).mem_visited found
        refine (Table.orderBlind_muster.afterMove _ program _ _).trans
          ((Table.muster_of_carries acts ?_ carries).trans none)
        rintro place rfl
        have fights := (Table.offered_of_mem_offers offered).fights_of_play
        exact peaceful ⟨phase, reachable, fights⟩
  · exact id
  · exact fun _ _ => rfl

theorem settled (inRange : program.InRange) (war : program.header.tableauMode = .war)
    (undisturbed : program.BattlesUndisturbed) (reached : Reached program seed outcome table) :
    table.Settled := by
  by_cases fights : ∃ phase ∈ program.visited, phase.fights = true
  · obtain ⟨spares, mild⟩ := undisturbed fights
    apply reached.run_induction (motive := Table.Settled) (.of_none rfl)
    · intro table sequenced phase earlier proceeds settled
      cases proceeds with
      | pass => exact (settled.paired.passIn war phase).afterPass program phase _
      | move found offered acts carries =>
          have kind := spares phase ((earlier.inTurn inRange).mem_visited found)
          exact (settled.carries war acts found kind mild (Table.offered_of_mem_offers offered)
            carries).afterMove program _ _
    · exact fun settled => settled.of_keeps rfl (.of_players rfl)
    · exact fun _ _ => .of_none rfl
  · exact .of_none (reached.muster_eq_nil inRange fights)

/-- In every state of a legal run of a program that was read and whose battles are undisturbed, a
battle in progress waits for somebody who holds cards. In any program it does so after a pass,
and after a contribution with a card whose effect takes from no hand. -/
theorem battle_settled {bytes : List UInt8} (accepted : Program.decode bytes = .ok program)
    (war : program.header.tableauMode = .war) (reached : Reached program seed outcome table) :
    (program.BattlesUndisturbed → table.battleComplete = false) ∧
      (∀ after next, Play.pass program table = .ok after next → next.battleComplete = false) ∧
      ∀ place card after next, table.HasCard table.active place card →
        (∀ effect, program.effectOf? card = some effect → effect.kind.sparesHands = true) →
          Play.perform program ⟨table.phase, .play place .tableau⟩ table = .ok after next →
            next.battleComplete = false := by
  have inRange := Program.inRange_of_decode accepted
  have paired := reached.paired war
  refine ⟨fun undisturbed => (reached.settled inRange war undisturbed).waits,
    fun _ _ passed => (paired.pass war passed).waits, ?_⟩
  intro place card after next held spares performed
  have acts : Choice.play place .tableau ≠ .pass := nofun
  obtain ⟨_, leader, moved, carries, finished⟩ := (Play.perform_eq_ok_iff acts).mp performed
  cases carries with
  | play _ laid =>
      cases held.2.symm.trans laid.2
      have done := ((paired.contribution war spares table.active place.toNat).afterMove program
        (.play place .tableau) nobody).finishAction program
      rw [finished] at done
      exact done.waits

end Reached

/-- A war for two in which a turn is to turn up a card, with effects to choose. -/
def shortWar (effects : EffectTable) : Program :=
  { shortGame [.play { target := .tableau }] with
    header := { tableauMode := .war }
    effects := effects }

theorem Table.opening_shortWar (effects : EffectTable) (seed : UInt64) :
    opening (shortWar effects) seed = opening (shortGame [.play { target := .tableau }]) seed :=
  rfl

theorem Reached.battle_settled_shortWar :
    Program.decode (shortWar .empty).encode = .ok (shortWar .empty) ∧
      (shortWar .empty).header.tableauMode = .war ∧ (shortWar .empty).BattlesUndisturbed ∧
      ∃ table, Reached (shortWar .empty) 7 .open table ∧ table.battleSeats = [0] ∧
        table.battleComplete = false := by
  have accepted : Program.decode (shortWar .empty).encode = .ok (shortWar .empty) := by
    decide +kernel
  have undisturbed : (shortWar .empty).BattlesUndisturbed := by decide
  have start := Table.start_of_decode accepted 7 {}
  obtain ⟨first, second, third, fourth, deck, generator, dealt⟩ :=
    Table.exists_opening_shortGame [.play { target := .tableau }] 7
  rw [Table.opening_shortWar, dealt] at start
  have played := @Reached.step (shortWar .empty) 7 _ _ .open (.move ⟨0, .play 0 .tableau⟩)
    (.start start) (List.mem_of_getElem? (i := 0) rfl) rfl
  obtain ⟨waits, _⟩ := battle_settled accepted rfl played
  exact ⟨accepted, rfl, undisturbed, _, played, rfl, waits undisturbed⟩

/-- Every card has the next participant discard two. -/
def disarming : EffectTable :=
  .ofList (Rank.all.map fun rank => (.rank rank, { kind := .forceDiscard, value := 2 }))

theorem effectOf?_disarming (card : Card) :
    (shortWar disarming).effectOf? card = some { kind := .forceDiscard, value := 2 } := by
  obtain ⟨rank, suit⟩ := card
  cases rank <;> rfl

/-- The table of a short war in its first turn, with the cards that were turned up or discarded. -/
def warTable (deck : List Card) (generator : Generator) (own others turned discarded : List Card) :
    Table :=
  { Table.seated (shortGame [.play { target := .tableau }]) 7 with
    players := [{ hand := own }, { hand := others }]
    deck := deck
    generator := generator
    discard := discarded
    tableau := [turned]
    battleSeats := turned.map fun _ => 0
    battleCards := turned }

/-- The card that the first participant turns up takes the hand of the second one, who was
missing: the battle is complete, and lies there. -/
theorem Reached.battle_left_lying :
    Program.decode (shortWar disarming).encode = .ok (shortWar disarming) ∧
      (shortWar disarming).header.tableauMode = .war ∧
      ∃ table, Reached (shortWar disarming) 7 .open table ∧ table.battleSeats = [0] ∧
        table.battleComplete = true := by
  have accepted : Program.decode (shortWar disarming).encode = .ok (shortWar disarming) := by
    decide +kernel
  have start := Table.start_of_decode accepted 7 {}
  obtain ⟨first, second, third, fourth, deck, generator, dealt⟩ :=
    Table.exists_opening_shortGame [.play { target := .tableau }] 7
  rw [Table.opening_shortWar, dealt] at start
  have begun : Reached (shortWar disarming) 7 .open
      (warTable deck generator [first, third] [second, fourth] [] []) := .start start
  have turnedUp : ((warTable deck generator [first, third] [second, fourth] [] []).without 0
      0).playCard (shortWar disarming) 0 first .tableau =
        warTable deck generator [third] [second, fourth] [first] [] := by
    with_unfolding_all rfl
  have disarmed : (warTable deck generator [third] [second, fourth] [first] []).triggerEffect
      (shortWar disarming) 0 first =
        warTable deck generator [third] [] [first] [fourth, second] := by
    unfold Table.triggerEffect
    rw [effectOf?_disarming]
    with_unfolding_all rfl
  have carries : Play.Carries (shortWar disarming) 0
      (warTable deck generator [first, third] [second, fourth] [] []) ⟨0, .play 0 .tableau⟩ nobody
      (warTable deck generator [third] [] [first] [fourth, second]) := by
    rw [← disarmed, ← turnedUp]
    exact .play rfl ⟨Int.le_refl 0, rfl⟩
  have ended : ((warTable deck generator [third] [] [first] [fourth, second]).afterMove
      (shortWar disarming) (.play 0 .tableau) nobody).finishAction (shortWar disarming) =
        (.open, { warTable deck generator [third] [] [first] [fourth, second] with
          active := 1, turn := 1, actions := 1 }) := by
    with_unfolding_all rfl
  have acts : Choice.play 0 .tableau ≠ .pass := nofun
  have acted : Action.act (shortWar disarming) (.move ⟨0, .play 0 .tableau⟩)
      (warTable deck generator [first, third] [second, fourth] [] []) = _ :=
    (Play.perform_eq_ok_iff acts).mpr ⟨rfl, nobody, _, carries, ended⟩
  have legal : Action.Legal (shortWar disarming)
      (warTable deck generator [first, third] [second, fourth] [] [])
      (.move ⟨0, .play 0 .tableau⟩) := by
    obtain ⟨rank, suit⟩ := first
    cases rank <;> exact List.mem_of_getElem? (i := 0) rfl
  exact ⟨accepted, rfl, _, .step begun legal acted, rfl, rfl⟩

end Croupier
