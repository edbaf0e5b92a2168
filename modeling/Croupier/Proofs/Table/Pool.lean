/-
Who owns the tables of a pool.

Whatever is done to handles, a table that was ever made lies at exactly one
place: at one handle, or once among the idle ones. A new table is made only when
none is idle, so that there are never more than were in use at once.
-/

import Croupier.Table.Pool
import Mathlib.Data.List.Induction
import Mathlib.Order.Bounds.Defs

namespace Croupier

/-- One thing that is done to handles, or to the table of one. -/
inductive HandleStep where
  | receive
  | handOn (source : Nat)
  | assign (source target : Nat)
  | release (place : Nat)
  | act (place : Nat) (change : Table → Table)

@[simp]
theorem Pool.acquire_table (pool : Pool) : pool.acquire.1.table = {} := by
  rcases pool with ⟨_ | ⟨handle, rest⟩, created⟩ <;> rfl

namespace PoolDesk

def take (desk : PoolDesk) : HandleStep → PoolDesk
  | .receive => desk.receive
  | .handOn source => desk.handOn source
  | .assign source target => desk.assign source target
  | .release place => desk.release place
  | .act place change => desk.act place change

/-- The desk after a history that began with an empty pool. -/
def after (steps : List HandleStep) : PoolDesk :=
  steps.foldl take {}

/-- Whether a place holds a table with such a number. -/
def holds (chosen : Nat → Bool) (held : Option Handle) : Bool :=
  held.any fun handle => chosen handle.number

/-- How many tables with such numbers are idle or held. -/
def tally (desk : PoolDesk) (chosen : Nat → Bool) : Nat :=
  desk.pool.idle.countP (fun handle => chosen handle.number) + desk.places.countP (holds chosen)

/-- How many tables are in use. -/
def inUse (desk : PoolDesk) : Nat :=
  desk.places.countP Option.isSome

/-! ### Places -/

section Places

theorem countP_cons_toNat {α : Type} (chosen : α → Bool) (item : α) (rest : List α) :
    (item :: rest).countP chosen = rest.countP chosen + (chosen item).toNat := by
  rw [List.countP_cons]
  cases chosen item <;> rfl

variable (chosen : Nat → Bool)

theorem countP_places_fill {places : List (Option Handle)} {place : Nat}
    (inside : place < places.length) (filling : Option Handle) :
    (places.set place filling).countP (holds chosen) +
        (holds chosen places[place]?.join).toNat =
      places.countP (holds chosen) + (holds chosen filling).toNat := by
  induction places generalizing place with
  | nil => cases inside
  | cons held rest ih =>
      cases place with
      | zero =>
          simp only [List.set_cons_zero, countP_cons_toNat, List.getElem?_cons_zero,
            Option.join_some]
          omega
      | succ place =>
          have filled := ih (Nat.lt_of_succ_lt_succ inside)
          simp only [List.set_cons_succ, countP_cons_toNat, List.getElem?_cons_succ]
          omega

theorem countP_places_empty (places : List (Option Handle)) (place : Nat) :
    (places.set place none).countP (holds chosen) +
        (holds chosen places[place]?.join).toNat =
      places.countP (holds chosen) := by
  by_cases inside : place < places.length
  · exact countP_places_fill chosen inside none
  · rw [List.set_eq_of_length_le (by omega), List.getElem?_eq_none (by omega)]
    rfl

theorem countP_places_modify {change : Option Handle → Option Handle}
    (same : ∀ held, holds chosen (change held) = holds chosen held)
    (places : List (Option Handle)) (place : Nat) :
    (places.modify place change).countP (holds chosen) = places.countP (holds chosen) := by
  induction places generalizing place with
  | nil => cases place <;> rfl
  | cons held rest ih =>
      cases place with
      | zero => simp [countP_cons_toNat, same]
      | succ place => simp [countP_cons_toNat, ih place]

end Places

/-! ### One step -/

section Step

variable (desk : PoolDesk) (chosen : Nat → Bool)

theorem tally_releaseAny (held : Option Handle) (places : List (Option Handle)) :
    tally { pool := desk.pool.releaseAny held, places := places } chosen =
      tally { desk with places := places } chosen + (holds chosen held).toNat := by
  cases held with
  | none => rfl
  | some handle =>
      simp only [tally, Pool.releaseAny, Pool.release, countP_cons_toNat, holds, Option.any_some]
      omega

theorem created_releaseAny (pool : Pool) (held : Option Handle) :
    (pool.releaseAny held).created = pool.created := by
  cases held <;> rfl

theorem tally_release (place : Nat) : (desk.release place).tally chosen = desk.tally chosen := by
  have emptied := countP_places_empty chosen desk.places place
  unfold release
  rw [tally_releaseAny]
  simp only [tally, held]
  omega

/-- What the target held is given back, and what the source held leaves it. -/
theorem tally_assign (source target : Nat) :
    (desk.assign source target).tally chosen = desk.tally chosen := by
  unfold assign
  by_cases stays : source = target ∨ desk.places.length ≤ target
  · rw [if_pos stays]
  · rw [if_neg stays]
    obtain ⟨apart, inside⟩ := not_or.mp stays
    have filled := countP_places_fill chosen (Nat.lt_of_not_le inside) (desk.held source)
    have emptied := countP_places_empty chosen
      (desk.places.set target (desk.held source)) source
    rw [List.getElem?_set_ne (Ne.symm apart)] at emptied
    rw [tally_releaseAny]
    simp only [tally, held] at filled emptied ⊢
    omega

theorem tally_handOn (source : Nat) : (desk.handOn source).tally chosen = desk.tally chosen := by
  unfold handOn
  rw [tally_assign]
  simp [tally, holds]

theorem tally_act (place : Nat) (change : Table → Table) :
    (desk.act place change).tally chosen = desk.tally chosen := by
  unfold act tally
  rw [countP_places_modify chosen]
  rintro (_ | handle) <;> rfl

theorem created_assign (source target : Nat) :
    (desk.assign source target).pool.created = desk.pool.created := by
  unfold assign
  split
  · rfl
  · exact created_releaseAny _ _

theorem receive_cases :
    (desk.receive.pool.created = desk.pool.created ∧
        desk.receive.tally chosen = desk.tally chosen) ∨
      desk.receive.pool.idle = [] ∧
        desk.receive.pool.created = desk.pool.created + 1 ∧
        desk.receive.tally chosen = desk.tally chosen + (chosen desk.pool.created).toNat := by
  rcases desk with ⟨⟨_ | ⟨handle, rest⟩, created⟩, places⟩
  · right
    refine ⟨rfl, rfl, ?_⟩
    simp [tally, receive, Pool.acquire, countP_cons_toNat, holds]
  · left
    refine ⟨rfl, ?_⟩
    simp only [tally, receive, Pool.acquire, List.countP_append, countP_cons_toNat,
      List.countP_nil, holds, Option.any_some]
    omega

/-- A step keeps every table where it can be found, and makes a new one only if
none is idle. -/
theorem take_cases (step : HandleStep) :
    ((desk.take step).pool.created = desk.pool.created ∧
        (desk.take step).tally chosen = desk.tally chosen) ∨
      (desk.take step).pool.idle = [] ∧
        (desk.take step).pool.created = desk.pool.created + 1 ∧
        (desk.take step).tally chosen =
          desk.tally chosen + (chosen desk.pool.created).toNat := by
  cases step with
  | receive => exact receive_cases desk chosen
  | handOn source => exact .inl ⟨created_assign _ _ _, tally_handOn desk chosen source⟩
  | assign source target =>
      exact .inl ⟨created_assign desk source target, tally_assign desk chosen source target⟩
  | release place => exact .inl ⟨created_releaseAny _ _, tally_release desk chosen place⟩
  | act place change => exact .inl ⟨rfl, tally_act desk chosen place change⟩

end Step

/-! ### Whole histories -/

@[simp]
theorem after_concat (steps : List HandleStep) (step : HandleStep) :
    after (steps ++ [step]) = (after steps).take step := by
  simp [after]

/-- Every number below that of the tables made is found once, and no other. -/
theorem tally_after (steps : List HandleStep) (chosen : Nat → Bool) :
    (after steps).tally chosen = (List.range (after steps).pool.created).countP chosen := by
  induction steps using List.reverseRecOn with
  | nil => rfl
  | append_singleton steps step ih =>
      rw [after_concat]
      rcases take_cases (after steps) chosen step with ⟨created, same⟩ | ⟨_, created, more⟩
      · rw [created, same, ih]
      · rw [created, more, ih, List.range_succ, List.countP_append, countP_cons_toNat]
        simp

theorem created_eq (steps : List HandleStep) :
    (after steps).pool.created = (after steps).pool.idle.length + (after steps).inUse := by
  have everything := tally_after steps fun _ => true
  have all : holds (fun _ => true) = Option.isSome := by
    funext held
    cases held <;> rfl
  rw [tally, all] at everything
  simpa [inUse] using everything.symm

theorem created_le_of_prefix {past steps : List HandleStep} (earlier : past <+: steps) :
    (after past).pool.created ≤ (after steps).pool.created := by
  obtain ⟨rest, rfl⟩ := earlier
  induction rest using List.reverseRecOn with
  | nil => exact Nat.le_of_eq (by rw [List.append_nil])
  | append_singleton rest step ih =>
      rw [← List.append_assoc, after_concat]
      rcases take_cases (after (past ++ rest)) (fun _ => true) step with
        ⟨created, _⟩ | ⟨_, created, _⟩ <;> omega

/-- All tables were in use when the last one was made. -/
theorem exists_inUse_eq_created (steps : List HandleStep) :
    ∃ past, past <+: steps ∧ (after past).inUse = (after steps).pool.created := by
  induction steps using List.reverseRecOn with
  | nil => exact ⟨[], List.prefix_rfl, rfl⟩
  | append_singleton steps step ih =>
      rcases take_cases (after steps) (fun _ => true) step with ⟨created, _⟩ | ⟨none, _⟩
      · obtain ⟨past, earlier, peak⟩ := ih
        refine ⟨past, earlier.trans (List.prefix_append _ _), ?_⟩
        rw [peak, after_concat, created]
      · refine ⟨_, List.prefix_rfl, ?_⟩
        rw [created_eq (steps ++ [step]), after_concat, none, List.length_nil, Nat.zero_add]

/-- After any history every table that was made has one owner: a single place
holds it, or it is idle once. There are as many tables as are idle and in use
together, and as many as were ever in use at once. What is handed out is as good
as new. -/
theorem owned_once (steps : List HandleStep) :
    (∀ number,
      (after steps).pool.idle.countP (fun handle => handle.number == number) +
          (after steps).places.countP (holds fun other => other == number) =
        if number < (after steps).pool.created then 1 else 0) ∧
      (after steps).pool.created =
        (after steps).pool.idle.length + (after steps).places.countP Option.isSome ∧
      IsGreatest
        {count | ∃ past, past <+: steps ∧ count = (after past).places.countP Option.isSome}
        (after steps).pool.created ∧
      ∃ number,
        (after (steps ++ [.receive])).places = (after steps).places ++ [some ⟨number, {}⟩] := by
  refine ⟨?_, created_eq steps, ⟨?_, ?_⟩, ?_⟩
  · intro number
    have found := tally_after steps fun other => other == number
    rw [tally] at found
    rw [found]
    exact List.count_range
  · obtain ⟨past, earlier, peak⟩ := exists_inUse_eq_created steps
    exact ⟨past, earlier, peak.symm⟩
  · rintro count ⟨past, earlier, rfl⟩
    have made := created_eq past
    have more := created_le_of_prefix earlier
    unfold inUse at made
    omega
  · refine ⟨(after steps).pool.acquire.1.number, ?_⟩
    rw [after_concat, ← Pool.acquire_table (after steps).pool]
    rfl

example :
    (after [.receive, .receive, .assign 0 0, .assign 1 0, .release 1]).pool =
      { idle := [⟨0, {}⟩], created := 2 } :=
  rfl

end PoolDesk

end Croupier
