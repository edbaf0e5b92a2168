/-
Who is paid at a showdown, and who has the best hand.

The pot goes to the best hands among those who have not folded, to each the same whole number of
chips and what is left to the first of them. The win condition for the best hand finds its winner
on another way: it keeps a running best over all sides, in which a folded hand counts for less than
any other, and remembers whether it is shared. Both come to the same seats.
-/

import Croupier.Proofs.Table.NextHand
import Croupier.Proofs.Play.Rounds
import Croupier.Proofs.Teams.Leaders
import Croupier.Proofs.Teams.Solo

namespace Croupier.Table

variable {table : Table} {program : Program} {seat amount : Int} {candidates winners : List Int}

/-! ### The best hands -/

/-- Those of the candidates than whose hands none has a greater value, in their order. -/
def greatestOf (table : Table) (program : Program) (candidates : List Int) : List Int :=
  candidates.filter fun seat => candidates.all fun other =>
    program.handValue (table.hand other) ≤ program.handValue (table.hand seat)

/-- Who has the best hand of those who have not folded, in seat order. -/
def bestUnfolded (table : Table) (program : Program) : List Int :=
  table.greatestOf program table.unfolded

theorem mem_greatestOf_iff :
    seat ∈ table.greatestOf program candidates ↔ seat ∈ candidates ∧ ∀ other ∈ candidates,
      program.handValue (table.hand other) ≤ program.handValue (table.hand seat) := by
  unfold greatestOf
  rw [List.mem_filter, List.all_eq_true]
  simp only [decide_eq_true_eq]

theorem bestHands_eq (table : Table) (program : Program) (candidates : List Int) :
    table.bestHands program candidates = table.greatestOf program candidates := by
  unfold bestHands greatestOf
  dsimp only
  rw [List.map_map]
  split
  · rename_i none
    rw [List.max?_eq_none_iff, List.map_eq_nil_iff] at none
    rw [none]
    rfl
  · rename_i best found
    obtain ⟨held, greatest⟩ := List.max?_eq_some_iff.mp found
    rw [List.filter_map, List.map_map]
    have same : (Prod.fst ∘ fun seat => (seat, program.handValue (table.hand seat))) =
        @id Int := rfl
    rw [same, List.map_id]
    apply List.filter_congr
    intro seat listed
    rw [Bool.eq_iff_iff, List.all_eq_true]
    simp only [Function.comp_apply, decide_eq_true_eq]
    constructor
    · rintro own other known
      rw [own]
      exact greatest _ (List.mem_map_of_mem known)
    · intro ahead
      obtain ⟨holder, known, value⟩ := List.mem_map.mp held
      apply Int.le_antisymm (greatest _ (List.mem_map_of_mem listed))
      rw [← value]
      exact ahead holder known

/-- Whoever is the last one in the hand has the best one left. -/
theorem showdownWinners_eq (table : Table) (program : Program) :
    table.showdownWinners program = table.bestUnfolded program := by
  unfold showdownWinners bestUnfolded
  dsimp only
  split
  · rename_i few
    match table.unfolded, few with
    | [], _ => rfl
    | [last], _ => simp [greatestOf]
  · exact table.bestHands_eq program table.unfolded

theorem bestUnfolded_ne_nil (playing : table.unfolded ≠ []) (program : Program) :
    table.bestUnfolded program ≠ [] := by
  rw [← showdownWinners_eq]
  exact showdownWinners_ne_nil playing program

theorem hasSeat_of_mem_bestUnfolded (member : seat ∈ table.bestUnfolded program) :
    table.HasSeat seat :=
  (mem_unfolded_iff.mp (mem_greatestOf_iff.mp member).1).1

theorem nodup_bestUnfolded (table : Table) (program : Program) :
    (table.bestUnfolded program).Nodup := by
  have seats : table.allSeats.Nodup :=
    List.Nodup.map Int.ofNat_injective List.nodup_range
  exact (seats.filter _).filter _

/-! ### The pot -/

theorem chips_award (seated : table.HasSeat seat) (amount : Int) (winner : Int) :
    ((award amount table winner).player seat).chips =
      (table.player seat).chips + if seat = winner then amount else 0 := by
  unfold award
  by_cases same : seat = winner
  · subst same
    rw [player_modifyPlayer seated, if_pos rfl]
  · rw [player_modifyPlayer_of_ne seated same, if_neg same, Int.add_zero]

/-- Each of the winners receives the amount once. -/
theorem chips_awards (seated : table.HasSeat seat) (distinct : winners.Nodup) (amount : Int) :
    ((winners.foldl (award amount) table).player seat).chips =
      (table.player seat).chips + if seat ∈ winners then amount else 0 := by
  induction winners generalizing table with
  | nil => simp
  | cons winner rest ih =>
      obtain ⟨fresh, distinct⟩ := List.nodup_cons.mp distinct
      have stays : (award amount table winner).HasSeat seat :=
        seated.of_seats (congrArg Frame.seats (frame_modifyPlayer table winner _))
      rw [List.foldl_cons, ih stays distinct, chips_award seated]
      by_cases same : seat = winner
      · subst same
        rw [if_pos rfl, if_neg fresh, if_pos List.mem_cons_self, Int.add_zero]
      · rw [if_neg same, Int.add_zero]
        simp only [List.mem_cons, same, false_or]

/-- The pot is split among the winners, and the first of them receives what is left. -/
theorem chips_payWinners (seated : table.HasSeat seat)
    (inside : ∀ winner ∈ winners, table.HasSeat winner) (distinct : winners.Nodup)
    (nonneg : 0 ≤ table.pot) :
    ((table.payWinners winners).player seat).chips = (table.player seat).chips
      + (if seat ∈ winners then table.pot / winners.length else 0)
      + if winners.head? = some seat then table.pot % winners.length else 0 := by
  cases winners with
  | nil => simp [payWinners]
  | cons first rest =>
      have each := Int.tdiv_eq_ediv_of_nonneg nonneg (b := ((rest.length + 1 : Nat) : Int))
      have left := Int.tmod_eq_emod_of_nonneg nonneg (b := ((rest.length + 1 : Nat) : Int))
      have share := Int.tdiv_nonneg nonneg (Int.natCast_nonneg (rest.length + 1))
      have stays : ((first :: rest).foldl
          (award (table.pot.tdiv ((rest.length + 1 : Nat) : Int))) table).HasSeat seat :=
        (enriches_awards inside share).hasSeat seated
      unfold payWinners
      dsimp only
      refine (chips_award stays _ first).trans ?_
      rw [chips_awards seated distinct, each, left, List.head?_cons, List.length_cons]
      simp only [Option.some.injEq, eq_comm]

theorem chips_players_showdown (table : Table) (program : Program) :
    (table.showdown program).players.map Player.chips =
      (table.payWinners (table.bestUnfolded program)).players.map Player.chips := by
  rw [← showdownWinners_eq]
  unfold showdown
  dsimp only
  rw [List.map_map]
  rfl

theorem chips_showdown (seated : table.HasSeat seat) (nonneg : 0 ≤ table.pot)
    (program : Program) :
    ((table.showdown program).player seat).chips = (table.player seat).chips
      + (if seat ∈ table.bestUnfolded program then
          table.pot / (table.bestUnfolded program).length else 0)
      + if (table.bestUnfolded program).head? = some seat then
          table.pot % (table.bestUnfolded program).length else 0 := by
  rw [view_player_eq (table.chips_players_showdown program)]
  exact chips_payWinners seated (fun _ => hasSeat_of_mem_bestUnfolded)
    (table.nodup_bestUnfolded program) nonneg

theorem chipsHeld_showdown (playing : table.unfolded ≠ []) (nonneg : 0 ≤ table.pot)
    (program : Program) :
    (table.showdown program).chipsHeld = table.chipsHeld + table.pot := by
  have paid := enriches_payWinners (table.bestUnfolded_ne_nil playing program)
    (fun _ => hasSeat_of_mem_bestUnfolded) nonneg
  have held := table.chips_players_showdown program
  have after := (table.payWinners (table.bestUnfolded program)).chipsHeld_eq
  rw [chipsHeld, held, ← chipsHeld, after, chipsHeld_eq]
  exact paid.total

/-! ### The win condition -/

/-- What the win condition for the best hand sees of a participant. -/
def shownValue (program : Program) (player : Player) : Option Int :=
  if player.folded then none else some (program.handValue player.hand)

/-- As long as anybody is in the hand, only those who are count. -/
theorem tracked_bestHand (single : program.header.teamMode = false)
    (playing : table.unfolded ≠ []) :
    table.tracked program .bestHand = table.players.map (shownValue program) := by
  have anyoneIn : table.players.any (fun player => !player.folded) = true := by
    obtain ⟨seat, member⟩ := List.exists_mem_of_ne_nil _ playing
    obtain ⟨⟨nonneg, below⟩, stays⟩ := mem_unfolded_iff.mp member
    lift seat to Nat using nonneg
    have inside : seat < table.players.length := Int.ofNat_lt.mp below
    rw [player_natCast inside] at stays
    exact List.any_eq_true.mpr ⟨_, List.getElem_mem inside, by rw [stays]; rfl⟩
  unfold tracked sideBestHands
  dsimp only
  rw [anyoneIn, sides_of_single single, List.map_map]
  apply List.map_congr_left
  intro player _
  unfold shownValue
  cases folded : player.folded <;> simp [folded]

theorem getElem?_tracked_bestHand (single : program.header.teamMode = false)
    (playing : table.unfolded ≠ []) {place : Nat} (inside : place < table.seats) :
    (table.tracked program .bestHand)[place]? = some (shownValue program (table.player place)) := by
  rw [tracked_bestHand single playing, List.getElem?_map, List.getElem?_eq_getElem inside,
    player_natCast inside]
  rfl

/-- The best hands stand at the places of the best number that the win condition sees. -/
theorem bestUnfolded_eq_places (single : program.header.teamMode = false)
    (playing : table.unfolded ≠ []) {best : Option Int}
    (listed : best ∈ table.tracked program .bestHand)
    (unbettered : Unbettered true (table.tracked program .bestHand) best) :
    table.bestUnfolded program =
      (placesOf (table.tracked program .bestHand) best).map Int.ofNat := by
  have count : (table.tracked program .bestHand).length = table.seats := by
    rw [tracked_bestHand single playing, List.length_map]
    rfl
  -- A hand that is shown is in the list, so it is no better than the best number.
  have known (other : Int) (member : other ∈ table.unfolded) :
      some (program.handValue (table.hand other)) ∈ table.tracked program .bestHand := by
    obtain ⟨⟨nonneg, below⟩, stays⟩ := mem_unfolded_iff.mp member
    lift other to Nat using nonneg
    have there := getElem?_tracked_bestHand single playing (Int.ofNat_lt.mp below)
    rw [shownValue, stays] at there
    exact List.mem_of_getElem? there
  obtain ⟨top, rfl⟩ : ∃ top, best = some top := by
    cases best with
    | some top => exact ⟨top, rfl⟩
    | none =>
        obtain ⟨seat, member⟩ := List.exists_mem_of_ne_nil _ playing
        cases unbettered _ (known seat member)
  have atMost (other : Int) (member : other ∈ table.unfolded) :
      program.handValue (table.hand other) ≤ top := by
    have behind := unbettered _ (known other member)
    exact Int.not_lt.mp (of_decide_eq_false behind)
  have held : ∃ holder ∈ table.unfolded, program.handValue (table.hand holder) = top := by
    obtain ⟨place, found⟩ := List.mem_iff_getElem?.mp listed
    have inside : place < table.seats := count ▸ (List.getElem?_eq_some_iff.mp found).1
    rw [getElem?_tracked_bestHand single playing inside, Option.some.injEq] at found
    unfold shownValue at found
    split at found
    · cases found
    · rename_i stays
      have seated : table.HasSeat place := ⟨Int.natCast_nonneg place, Int.ofNat_lt.mpr inside⟩
      exact ⟨place, mem_unfolded_iff.mpr ⟨seated, Bool.eq_false_of_not_eq_true stays⟩,
        Option.some.inj found⟩
  change ((((List.range table.seats).map Int.ofNat).filter fun seat =>
    !(table.player seat).folded).filter _) = _
  unfold placesOf
  rw [List.filter_filter, List.filter_map, count]
  congr 1
  apply List.filter_congr
  intro place member
  have inside := List.mem_range.mp member
  have seated : table.HasSeat place := ⟨Int.natCast_nonneg place, Int.ofNat_lt.mpr inside⟩
  rw [getElem?_tracked_bestHand single playing inside, Bool.eq_iff_iff, Function.comp_apply,
    Bool.and_eq_true, Bool.not_eq_true', List.all_eq_true, decide_eq_true_eq, Option.some.injEq]
  simp only [decide_eq_true_eq]
  unfold shownValue
  constructor
  · rintro ⟨ahead, stays⟩
    obtain ⟨holder, among, value⟩ := held
    have own := atMost place (mem_unfolded_iff.mpr ⟨seated, stays⟩)
    have reached := ahead holder among
    rw [value] at reached
    have shows : (table.player place).folded = false := stays
    rw [if_neg (Bool.eq_false_iff.mp shows), Option.some.injEq]
    exact Int.le_antisymm own reached
  · intro leads
    split at leads
    · cases leads
    · rename_i stays
      refine ⟨fun other among => ?_, Bool.eq_false_of_not_eq_true stays⟩
      rw [← Option.some.inj leads] at atMost
      exact atMost other among

end Croupier.Table
