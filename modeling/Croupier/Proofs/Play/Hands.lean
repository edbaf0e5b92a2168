/-
Whose hand may run out.

Contests end when nobody who holds cards is missing, so what matters of a hand is whether there
is a card in it. A draw that takes from no hand, a wager, a showdown and most effects leave a
card with everyone who held one. Only playing and discarding, a draw from a hand and the effects
that take from hands may leave somebody without.
-/

import Croupier.Proofs.Play.Tricks

namespace Croupier

/-! ### Who is missing -/

namespace Table

variable {table next last : Table} {seat actor : Int} {card : Card} {program : Program}

/-- Who is not among the contributors but could be. -/
def Missing (table : Table) (contributors : List Int) (seat : Int) : Prop :=
  table.HasSeat seat ∧ seat ∉ contributors ∧ table.hand seat ≠ []

theorem allContributed_eq_false_iff {contributors : List Int} :
    table.allContributed contributors = false ↔ ∃ seat, table.Missing contributors seat := by
  unfold allContributed
  rw [List.all_eq_false]
  constructor
  · rintro ⟨seat, listed, missing⟩
    rw [Bool.or_eq_true, not_or, List.contains_iff_mem, List.isEmpty_iff] at missing
    exact ⟨seat, mem_allSeats_iff.mp listed, missing.1, missing.2⟩
  · rintro ⟨seat, seated, absent, holds⟩
    refine ⟨seat, mem_allSeats_iff.mpr seated, ?_⟩
    rw [Bool.or_eq_true, not_or, List.contains_iff_mem, List.isEmpty_iff]
    exact ⟨absent, holds⟩

/-- A contest that has begun waits for somebody. -/
def Awaits (table : Table) (contributors : List Int) : Prop :=
  contributors ≠ [] → ∃ seat, table.Missing contributors seat

theorem awaits_iff {contributors : List Int} :
    table.Awaits contributors ↔
      (!contributors.isEmpty && table.allContributed contributors) = false := by
  rw [Bool.and_eq_false_iff, Bool.not_eq_false', List.isEmpty_iff, allContributed_eq_false_iff]
  exact or_iff_not_imp_left.symm

theorem battleComplete_eq_false_iff :
    table.battleComplete = false ↔ table.Awaits table.battleSeats :=
  awaits_iff.symm

theorem trickComplete_eq_false_iff : table.trickComplete = false ↔ table.Awaits table.trick :=
  awaits_iff.symm

/-! ### Hands that do not run out -/

/-- Everyone is still there, and whoever held cards still holds some. -/
def KeepsHands (table next : Table) : Prop :=
  List.Forall₂ (fun before after : Player => before.hand ≠ [] → after.hand ≠ []) table.players
    next.players

namespace KeepsHands

theorem of_players (same : next.players = table.players) : KeepsHands table next := by
  unfold KeepsHands
  rw [same]
  exact List.forall₂_same.mpr fun _ _ holds => holds

theorem trans (first : KeepsHands table next) (second : KeepsHands next last) :
    KeepsHands table last := by
  unfold KeepsHands at first second ⊢
  generalize table.players = before at first
  generalize next.players = middle at first second
  generalize last.players = after at second
  induction first generalizing after with
  | nil =>
      cases second
      exact .nil
  | cons here _ ih =>
      cases second with
      | cons there rest => exact .cons (fun holds => there (here holds)) (ih _ rest)

theorem map {change : Player → Player}
    (each : ∀ player, player.hand ≠ [] → (change player).hand ≠ [])
    (mapped : next.players = table.players.map change) : KeepsHands table next := by
  unfold KeepsHands
  rw [mapped, List.forall₂_map_right_iff]
  exact List.forall₂_same.mpr fun player _ => each player

theorem modifyPlayer {change : Player → Player}
    (each : ∀ player, player.hand ≠ [] → (change player).hand ≠ []) (table : Table) (seat : Int) :
    KeepsHands table (table.modifyPlayer seat change) := by
  have altered (players : List Player) (place : Nat) :
      List.Forall₂ (fun before after : Player => before.hand ≠ [] → after.hand ≠ []) players
        (players.modify place change) := by
    induction players generalizing place with
    | nil =>
        rw [List.modify_nil]
        exact .nil
    | cons player rest ih =>
        cases place with
        | zero =>
            rw [List.modify_zero_cons]
            exact .cons (each player) (List.forall₂_same.mpr fun _ _ holds => holds)
        | succ place =>
            rw [List.modify_succ_cons]
            exact .cons id (ih place)
  unfold Table.modifyPlayer
  split
  · exact of_players rfl
  · exact altered table.players seat.toNat

theorem «repeat» {step : Table → Table} (each : ∀ table, KeepsHands table (step table))
    (count : Nat) : KeepsHands table (count.repeat step table) := by
  induction count with
  | zero => exact of_players rfl
  | succ count ih => exact ih.trans (each _)

theorem foldl {α : Type} {step : Table → α → Table}
    (each : ∀ table item, KeepsHands table (step table item)) (items : List α) :
    KeepsHands table (items.foldl step table) := by
  induction items generalizing table with
  | nil => exact of_players rfl
  | cons item rest ih => exact (each table item).trans ih

theorem seats (keeps : KeepsHands table next) : next.seats = table.seats :=
  (List.Forall₂.length_eq keeps).symm

theorem hasSeat (keeps : KeepsHands table next) (seated : table.HasSeat seat) :
    next.HasSeat seat := by
  unfold HasSeat
  rw [keeps.seats]
  exact seated

theorem hand (keeps : KeepsHands table next) (seat : Int) (holds : table.hand seat ≠ []) :
    next.hand seat ≠ [] := by
  unfold Table.hand player at holds ⊢
  by_cases negative : seat < 0
  · rw [if_pos negative] at holds
    exact absurd rfl holds
  · rw [if_neg negative] at holds ⊢
    have length := List.Forall₂.length_eq keeps
    by_cases inside : seat.toNat < table.players.length
    · have there : seat.toNat < next.players.length := length ▸ inside
      rw [List.getD_eq_getElem _ _ inside] at holds
      rw [List.getD_eq_getElem _ _ there]
      exact List.Forall₂.get keeps inside there holds
    · rw [List.getD_eq_default _ _ (Nat.le_of_not_lt inside)] at holds
      exact absurd rfl holds

theorem awaits {contributors : List Int} (keeps : KeepsHands table next)
    (awaits : table.Awaits contributors) : next.Awaits contributors := by
  intro begun
  obtain ⟨seat, seated, absent, holds⟩ := awaits begun
  exact ⟨seat, keeps.hasSeat seated, absent, keeps.hand seat holds⟩

end KeepsHands

/-! ### Cards on their way -/

/-- A card that comes into a hand. -/
theorem keepsHands_add (table : Table) (seat : Int) (card : Card) :
    KeepsHands table (table.modifyHand seat (· ++ [card])) :=
  .modifyPlayer (fun _ _ => List.append_ne_nil_of_right_ne_nil _ (List.cons_ne_nil _ _)) table seat

/-- A card that is taken from a hand and comes back into it. -/
theorem keepsHands_return (table : Table) (seat : Int) (place : Nat) (card : Card) :
    KeepsHands table ((table.without seat place).place seat .hand card) := by
  have both : (table.without seat place).place seat .hand card =
      table.modifyHand seat fun cards => cards.eraseIdx place ++ [card] := by
    change (table.modifyHand seat (·.eraseIdx place)).modifyHand seat (· ++ [card]) = _
    unfold modifyHand modifyPlayer
    split
    · rfl
    · dsimp only
      rw [List.modify_modify_eq]
      rfl
  rw [both]
  exact .modifyPlayer (fun _ _ => List.append_ne_nil_of_right_ne_nil _ (List.cons_ne_nil _ _))
    table seat

theorem keepsHands_draw (table : Table) (seat : Int) {source : Location}
    (fair : source ≠ .opponentHand) (count : Int) :
    KeepsHands table (table.draw seat source count) := by
  have opened : KeepsHands table (table.openPile source) := by
    refine .of_players ?_
    unfold openPile
    split
    · unfold openTableau
      split <;> rfl
    · rfl
  have uncovered (own : source ≠ .hand) (before : Table) :
      KeepsHands before (before.modifyPile seat source List.dropLast) := by
    refine .of_players ?_
    cases source with
    | hand => exact absurd rfl own
    | opponentHand => exact absurd rfl fair
    | deck | discard | unknown => rfl
    | tableau =>
        change before.openTableau.players = before.players
        unfold openTableau
        split <;> rfl
  have each (own : source ≠ .hand) (before : Table) :
      KeepsHands before (drawOne seat source before) := by
    unfold drawOne
    split
    · exact .of_players rfl
    · exact (uncovered own before).trans (keepsHands_add _ seat _)
  cases source with
  | hand => exact .of_players rfl
  | opponentHand => exact absurd rfl fair
  | deck | discard | tableau | unknown =>
      exact opened.trans (.repeat (each nofun) _)

end Table

/-! ### Effects -/

/-- Whether an effect takes no card from a hand. -/
def EffectKind.sparesHands : EffectKind → Bool
  | .forceDiscard | .swapHands | .stealCard => false
  | .skipNext | .reverse | .drawCards | .extraTurn | .wild | .blockNext | .peek
  | .unknown _ _ => true

namespace Table

variable {table next : Table} {seat actor : Int} {card : Card} {program : Program}

theorem keepsHands_applyEffect (table : Table) (actor : Int) {effect : Effect}
    (spares : effect.kind.sparesHands = true) :
    KeepsHands table (table.applyEffect actor effect) := by
  unfold applyEffect
  cases kind : effect.kind with
  | skipNext | blockNext | reverse | extraTurn | wild | peek | unknown => exact .of_players rfl
  | drawCards =>
      have aimed : KeepsHands table (table.effectTargets actor effect.target).2 := by
        refine .of_players ?_
        cases effect.target <;> rfl
      have draws (before : Table) (target : Int) :
          KeepsHands before (before.draw target .deck effect.value) :=
        keepsHands_draw before target (by decide) _
      exact aimed.trans (.foldl draws _)
  | forceDiscard | swapHands | stealCard =>
      rw [kind] at spares
      cases spares

theorem keepsHands_triggerEffect (table : Table) (actor : Int)
    (spares : ∀ effect, program.effectOf? card = some effect → effect.kind.sparesHands = true) :
    KeepsHands table (table.triggerEffect program actor card) := by
  unfold triggerEffect
  split
  · rename_i effect found
    exact keepsHands_applyEffect table actor (spares effect found)
  · exact .of_players rfl

/-! ### Wagers -/

/-- A change of a participant that leaves the hand alone. -/
theorem keepsHands_of_same {change : Player → Player} (table : Table) (seat : Int)
    (same : ∀ player, (change player).hand = player.hand) :
    KeepsHands table (table.modifyPlayer seat change) := by
  refine .modifyPlayer (fun player holds => ?_) table seat
  rw [same]
  exact holds

theorem keepsHands_setBet (table : Table) (seat : Int) : KeepsHands table (table.setBet seat) := by
  unfold KeepsHands setBet reopen
  dsimp only
  have listed : table.players = table.players.zipIdx.map Prod.fst := by
    rw [List.zipIdx_map_fst]
  rw [List.forall₂_map_right_iff]
  conv => arg 2; rw [listed]
  rw [List.forall₂_map_left_iff]
  refine List.forall₂_same.mpr fun entry _ holds => ?_
  split <;> exact holds

theorem keepsHands_wager {phase : BettingPhase} {action : BettingAction}
    (wagered : table.wager? seat phase action = some next) : KeepsHands table next := by
  have acts (before : Table) : KeepsHands before (before.modifyPlayer seat Player.afterActing) :=
    keepsHands_of_same before seat fun _ => rfl
  have pays (before : Table) (amount : Int) : KeepsHands before (before.pay seat amount) := by
    apply keepsHands_of_same
    exact fun _ => rfl
  have tops (before : Table) : KeepsHands before (before.setBet seat) :=
    keepsHands_setBet before seat
  unfold wager? at wagered
  cases action with
  | none | unknown => cases wagered
  | check | fold =>
      cases wagered
      apply keepsHands_of_same
      exact fun _ => rfl
  | call =>
      cases wagered
      exact (pays table _).trans (acts _)
  | bet =>
      cases wagered
      exact (pays table _).trans ((tops _).trans (acts _))
  | raise =>
      cases wagered
      have raised : KeepsHands table { table.pay seat (table.owed seat + phase.minBet) with
          raises := (table.pay seat (table.owed seat + phase.minBet)).raises + 1 } :=
        pays table _
      exact raised.trans ((tops _).trans (acts _))
  | allIn =>
      cases wagered
      have staked : KeepsHands table ((table.pay seat (table.player seat).chips).modifyPlayer seat
          fun player => { player with allIn := true }) := by
        refine (pays table _).trans (keepsHands_of_same _ seat ?_)
        exact fun _ => rfl
      refine staked.trans (.trans ?_ (acts _))
      split
      · exact tops _
      · exact .of_players rfl

theorem keepsHands_settleBetting (table : Table) (program : Program) :
    KeepsHands table (table.settleBetting program) := by
  have awards (amount : Int) (before : Table) (winner : Int) :
      KeepsHands before (award amount before winner) := by
    apply keepsHands_of_same
    exact fun _ => rfl
  have paid : KeepsHands table (table.payWinners (table.showdownWinners program)) := by
    cases table.showdownWinners program with
    | nil => exact .of_players rfl
    | cons first rest => exact (KeepsHands.foldl (awards _) _).trans (awards _ _ first)
  unfold settleBetting
  split
  · refine paid.trans (.map ?_ rfl)
    exact fun _ holds => holds
  · exact .of_players rfl

/-! ### Tricks -/

theorem keepsHands_settleTrick (table : Table) (program : Program) (phase : TrickPhase) :
    KeepsHands table (table.settleTrick program phase).2 := by
  have taken : KeepsHands table (table.takeTrick program phase).2 := by
    unfold takeTrick
    dsimp only
    split
    · exact .of_players rfl
    · apply keepsHands_of_same table
      exact fun _ => rfl
  have scored (before : Table) : KeepsHands before (before.scoreContracts program) := by
    unfold scoreContracts
    split
    · exact .of_players rfl
    · refine .map ?_ rfl
      exact fun _ holds => holds
  unfold settleTrick
  split
  · dsimp only
    split
    · split
      · exact taken.trans (scored _)
      · exact taken
    · exact taken
  · exact .of_players rfl

end Table

end Croupier
