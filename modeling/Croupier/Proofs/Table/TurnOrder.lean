/-
Who comes next after any number of effects on the turn order.

Skips add up until they pass over everyone else, an extra turn is the most that can be asked for,
and a reversal counts for all steps of the turn's end, those included that were asked for before it.
So the effects of one turn come down to two numbers: how many participants they have passed over,
and how often they have turned play round.
-/

import Croupier.Proofs.Play.Piles

namespace Croupier

/-! ### What is asked for -/

/-- Whether an effect of this kind is one on the turn order, and so strikes nobody in particular. -/
def EffectKind.ordersTurns : EffectKind → Bool
  | .skipNext | .blockNext | .extraTurn | .reverse => true
  | .drawCards | .forceDiscard | .wild | .swapHands | .stealCard | .peek | .unknown _ _ => false

/-- How many participants an effect asks to be passed over, at a table with so many seats. -/
def Effect.skipsAsked (seats : Nat) (effect : Effect) : Int :=
  match effect.kind with
  | .skipNext | .blockNext => max effect.value 1
  | .extraTurn => (seats : Int) - 1
  | _ => 0

/-- The direction of play after some effects, each reversal among which turns it round. -/
def directionAfter (direction : Int) (effects : List Effect) : Int :=
  direction * (-1) ^ effects.countP (fun effect => effect.kind = .reverse)

theorem directionAfter_cons (direction : Int) (effect : Effect) (rest : List Effect) :
    directionAfter direction (effect :: rest) =
      directionAfter (if effect.kind = .reverse then -direction else direction) rest := by
  unfold directionAfter
  rw [List.countP_cons]
  by_cases reverses : effect.kind = .reverse
  · simp only [reverses, decide_true, if_true]
    rw [pow_succ]
    ring
  · simp only [reverses, decide_false, if_false, Bool.false_eq_true, Nat.add_zero]

theorem directionAfter_cases {direction : Int} (oneWay : direction = 1 ∨ direction = -1)
    (effects : List Effect) :
    directionAfter direction effects = 1 ∨ directionAfter direction effects = -1 := by
  unfold directionAfter
  rcases neg_one_pow_eq_or Int (effects.countP fun effect => effect.kind = .reverse) with even | odd
  · rw [even, mul_one]
    exact oneWay
  · rw [odd]
    omega

theorem Effect.skipsAsked_nonneg {seats : Nat} (someone : 0 < seats) (effect : Effect) :
    0 ≤ effect.skipsAsked seats := by
  unfold skipsAsked
  split <;> omega

theorem total_skipsAsked_nonneg {seats : Nat} (someone : 0 < seats) (effects : List Effect) :
    0 ≤ total (effects.map (·.skipsAsked seats)) := by
  apply total_nonneg
  intro asked member
  obtain ⟨effect, _, rfl⟩ := List.mem_map.mp member
  exact effect.skipsAsked_nonneg someone

/-- One extra turn already asks for everyone else to be passed over. -/
theorem le_total_skipsAsked {seats : Nat} (someone : 0 < seats) {effects : List Effect}
    {effect : Effect} (member : effect ∈ effects) :
    effect.skipsAsked seats ≤ total (effects.map (·.skipsAsked seats)) := by
  induction effects with
  | nil => cases member
  | cons first rest ih =>
      rw [List.map_cons, total_cons]
      rcases List.mem_cons.mp member with rfl | behind
      · have others := total_skipsAsked_nonneg someone rest
        omega
      · have asked := first.skipsAsked_nonneg someone
        have others := ih behind
        omega

namespace Table

variable {table : Table}

/-! ### The effects of a turn -/

theorem applyEffect_of_ordersTurns {effect : Effect} (orders : effect.kind.ordersTurns = true)
    (skips : 0 ≤ table.skips ∧ table.skips < table.seats) (actor : Int) :
    table.applyEffect actor effect =
      { table with
        skips := min (table.skips + effect.skipsAsked table.seats) ((table.seats : Int) - 1)
        direction := if effect.kind = .reverse then -table.direction else table.direction } := by
  obtain ⟨nonneg, below⟩ := skips
  unfold applyEffect Effect.skipsAsked
  cases kind : effect.kind with
  | skipNext | blockNext => rfl
  | extraTurn =>
      have most : min (table.skips + ((table.seats : Int) - 1)) ((table.seats : Int) - 1) =
          (table.seats : Int) - 1 := by omega
      simp only [most]
      rfl
  | reverse =>
      have same : min (table.skips + 0) ((table.seats : Int) - 1) = table.skips := by omega
      simp only [same]
      rfl
  | drawCards | forceDiscard | wild | swapHands | stealCard | peek | unknown =>
      rw [kind] at orders
      cases orders

/-- Effects on the turn order, one after the other, change nothing but the skips and the
direction of play. -/
theorem foldl_applyEffect {effects : List Effect}
    (orders : ∀ effect ∈ effects, effect.kind.ordersTurns = true)
    (skips : 0 ≤ table.skips ∧ table.skips < table.seats) (actor : Int) :
    effects.foldl (fun table effect => table.applyEffect actor effect) table =
      { table with
        skips := min (table.skips + total (effects.map (·.skipsAsked table.seats)))
          ((table.seats : Int) - 1)
        direction := directionAfter table.direction effects } := by
  induction effects generalizing table with
  | nil =>
      have same : min (table.skips + 0) ((table.seats : Int) - 1) = table.skips := by omega
      simp only [List.foldl_nil, List.map_nil, total_nil, same, directionAfter, List.countP_nil,
        pow_zero, mul_one]
  | cons effect rest ih =>
      have someone : 0 < table.seats := by omega
      have asked := effect.skipsAsked_nonneg someone
      have others := total_skipsAsked_nonneg someone rest
      have first := applyEffect_of_ordersTurns (orders effect List.mem_cons_self) skips actor
      have behind := fun other member => orders other (List.mem_cons_of_mem effect member)
      have capped : min (min (table.skips + effect.skipsAsked table.seats) ((table.seats : Int) - 1)
            + total (rest.map (·.skipsAsked table.seats))) ((table.seats : Int) - 1) =
          min (table.skips + (effect.skipsAsked table.seats
            + total (rest.map (·.skipsAsked table.seats)))) ((table.seats : Int) - 1) := by
        omega
      rw [List.foldl_cons, first, ih behind]
      · rw [directionAfter_cons, List.map_cons, total_cons, ← capped]
        rfl
      · change 0 ≤ min _ _ ∧ min _ _ < (table.seats : Int)
        omega

/-! ### The end of the turn -/

/-- So many steps around the table, in either direction. -/
theorem repeat_advanceOne (oneWay : table.direction = 1 ∨ table.direction = -1)
    (seated : table.HasSeat table.active) (steps : Nat) :
    steps.repeat advanceOne table =
      { table with active := (table.active + table.direction * steps) % table.seats } := by
  obtain ⟨nonneg, below⟩ := seated
  induction steps with
  | zero =>
      have same : (table.active + table.direction * (0 : Nat)) % table.seats = table.active := by
        rw [Int.natCast_zero, mul_zero, add_zero]
        exact Int.emod_eq_of_lt nonneg below
      rw [same]
      rfl
  | succ steps ih =>
      have here := Int.emod_nonneg (table.active + table.direction * steps)
        (show (table.seats : Int) ≠ 0 by omega)
      -- The shift by a whole round keeps a step back from the first seat from going below zero.
      have onward : ((table.active + table.direction * steps) % table.seats + table.direction
            + table.seats).tmod table.seats =
          (table.active + table.direction * (steps + 1 : Nat)) % table.seats := by
        rw [Int.tmod_eq_emod_of_nonneg (by omega), Int.add_emod_right, Int.emod_add_emod]
        push_cast
        ring_nf
      change advanceOne (steps.repeat advanceOne table) = _
      rw [ih, ← onward]
      rfl

theorem endTurn_of_unled (oneWay : table.direction = 1 ∨ table.direction = -1)
    (seated : table.HasSeat table.active) (skips : 0 ≤ table.skips) {leader : Int}
    (unled : leader < 0) :
    table.endTurn leader =
      { table with
        active := (table.active + table.direction * (1 + table.skips)) % table.seats
        skips := 0, phase := 0, step := 0, turn := table.turn + 1 } := by
  have steps : ((1 + table.skips).toNat : Int) = 1 + table.skips :=
    Int.toNat_of_nonneg (by omega)
  have advanced := @repeat_advanceOne { table with phase := 0, step := 0, turn := table.turn + 1 }
    oneWay seated (1 + table.skips).toNat
  rw [steps] at advanced
  unfold endTurn
  rw [if_pos unled]
  exact congrArg (fun next : Table => { next with skips := 0 }) advanced

/-- However many effects on the turn order there were and in whatever order, the end of the turn
hands it on by one place and those that were asked to be passed over, of whom there are never more
than all others; the places are counted in the direction that is left after all reversals. An extra
turn therefore hands the turn back to where it was, whatever goes with it. -/
theorem endTurn_of_effects {table : Table}
    (oneWay : table.direction = 1 ∨ table.direction = -1) (unskipped : table.skips = 0)
    (seated : table.HasSeat table.active) {effects : List Effect}
    (orders : ∀ effect ∈ effects, effect.kind.ordersTurns = true) {leader : Int}
    (unled : leader < 0) :
    let next := (effects.foldl (fun before effect => before.applyEffect table.active effect)
      table).endTurn leader
    let direction := directionAfter table.direction effects
    let asked := total (effects.map (·.skipsAsked table.seats))
    next = { table with
        active := (table.active + direction * (1 + min ((table.seats : Int) - 1) asked))
          % table.seats
        direction
        skips := 0
        phase := 0
        step := 0
        turn := table.turn + 1 } ∧
      ((∃ effect ∈ effects, effect.kind = .extraTurn) → next.active = table.active) := by
  intro next direction asked
  have someone : 0 < table.seats := by
    obtain ⟨_, below⟩ := seated
    omega
  have nonneg : 0 ≤ asked := total_skipsAsked_nonneg someone effects
  have skipped : min (table.skips + asked) ((table.seats : Int) - 1) =
      min ((table.seats : Int) - 1) asked := by
    omega
  have ended : next = { table with
      active := (table.active + direction * (1 + min ((table.seats : Int) - 1) asked))
        % table.seats
      direction, skips := 0, phase := 0, step := 0, turn := table.turn + 1 } := by
    have few : 0 ≤ min ((table.seats : Int) - 1) asked := by omega
    unfold next
    rw [foldl_applyEffect orders (by omega), skipped]
    exact @endTurn_of_unled
      { table with skips := min ((table.seats : Int) - 1) asked, direction }
      (directionAfter_cases oneWay effects) seated few leader unled
  refine ⟨ended, fun ⟨effect, member, extra⟩ => ?_⟩
  have everyone : (table.seats : Int) - 1 ≤ asked := by
    have asks := le_total_skipsAsked someone member
    unfold Effect.skipsAsked at asks
    rw [extra] at asks
    exact asks
  have round : 1 + min ((table.seats : Int) - 1) asked = table.seats := by omega
  rw [ended]
  change (table.active + direction * (1 + min ((table.seats : Int) - 1) asked)) % table.seats =
    table.active
  rw [round, Int.add_mul_emod_self_right]
  exact Int.emod_eq_of_lt seated.1 seated.2

/-- A reversal also turns round the skip that was asked for before it: the turn goes back past the
first seat. -/
theorem endTurn_of_effects_reversed :
    let table : Table := { players := [{}, {}, {}, {}], active := 1, turn := 4, phase := 2 }
    let effects : List Effect :=
      [{ kind := .skipNext, value := 0 }, { kind := .reverse }, { kind := .blockNext, value := 1 }]
    table.HasSeat table.active ∧ (∀ effect ∈ effects, effect.kind.ordersTurns = true) ∧
      (effects.foldl (fun before effect => before.applyEffect table.active effect)
          table).endTurn nobody =
        { table with active := 2, direction := -1, phase := 0, turn := 5 } := by
  intro table effects
  have orders : ∀ effect ∈ effects, effect.kind.ordersTurns = true := by decide
  have ended := (@endTurn_of_effects table (.inl rfl) rfl (by decide) effects orders
    nobody (by decide)).1
  exact ⟨by decide, orders, ended⟩

end Table

end Croupier
