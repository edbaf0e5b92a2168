/-
What card effects move.

Every effect that moves cards takes them from the top of some pile, one after the other, and puts
them on top of another: so many, or all if there are fewer. What the whole loop leaves and what it
brings over is said once, for any such step; draws, forced discards and thefts are its cases. What
an effect does not move it leaves alone, which one frame says for all of them.
-/

import Croupier.Proofs.Play.Rules
import Croupier.Proofs.Strategy.Choose

namespace Croupier.Table

variable {table next last : Table} {seat actor : Int}

/-! ### Cards from the top -/

/-- The cards on top of a pile, the topmost first: so many, or all if there are fewer. Below them is
left what `List.rdrop` leaves. -/
def topCards (count : Nat) (pile : List Card) : List Card :=
  pile.reverse.take (min count pile.length)

theorem rdrop_min_length (count : Nat) (pile : List Card) :
    pile.rdrop (min count pile.length) = pile.rdrop count := by
  unfold List.rdrop
  congr 1
  omega

theorem rdrop_rdrop (first second : Nat) (pile : List Card) :
    (pile.rdrop first).rdrop second = pile.rdrop (first + second) := by
  rw [List.rdrop_eq_reverse_drop_reverse, List.rdrop_eq_reverse_drop_reverse,
    List.rdrop_eq_reverse_drop_reverse, List.reverse_reverse, List.drop_drop]

theorem getLast?_rdrop (count : Nat) (pile : List Card) :
    (pile.rdrop count).getLast? = pile.reverse[count]? := by
  rw [List.rdrop_eq_reverse_drop_reverse, List.getLast?_reverse, List.head?_drop]

theorem dropLast_rdrop (count : Nat) (pile : List Card) :
    (pile.rdrop count).dropLast = pile.rdrop (count + 1) := by
  rw [List.rdrop_eq_reverse_drop_reverse, List.dropLast_reverse, List.tail_drop,
    ← List.rdrop_eq_reverse_drop_reverse]

/-- A step that moves the top card of a pile, if there is one, moves the top cards of the pile when
it is repeated. The table is seen as a function of what is left and of what was moved. -/
theorem repeat_eq_of_moves {step : Table → Table} {shape : List Card → List Card → Table}
    (moves : ∀ left moved, step (shape left moved) =
      match left.getLast? with
      | none => shape left moved
      | some card => shape left.dropLast (moved ++ [card]))
    (pile : List Card) (count : Nat) :
    count.repeat step (shape pile []) = shape (pile.rdrop count) (pile.reverse.take count) := by
  induction count with
  | zero =>
      rw [List.rdrop_zero, List.take_zero]
      rfl
  | succ count ih =>
      change step (count.repeat step (shape pile [])) = _
      rw [ih, moves, getLast?_rdrop, List.take_add_one, ← dropLast_rdrop]
      cases there : pile.reverse[count]? with
      | none =>
          have none : pile.rdrop count = [] := by
            rw [← List.getLast?_eq_none_iff, getLast?_rdrop, there]
          rw [none, List.dropLast_nil, Option.toList_none, List.append_nil]
      | some card => rfl

/-! ### Changes of hands -/

theorem modifyHand_modifyHand (table : Table) (seat : Int)
    (first second : List Card → List Card) :
    (table.modifyHand seat first).modifyHand seat second =
      table.modifyHand seat (second ∘ first) := by
  unfold modifyHand modifyPlayer
  split
  · rfl
  · dsimp only
    rw [List.modify_modify_eq]
    rfl

theorem modifyHand_comm {other : Int} (different : seat ≠ other) (table : Table)
    (first second : List Card → List Card) :
    (table.modifyHand seat first).modifyHand other second =
      (table.modifyHand other second).modifyHand seat first := by
  unfold modifyHand modifyPlayer
  by_cases nobody : seat < 0
  · simp only [if_pos nobody]
  · by_cases nobodyElse : other < 0
    · simp only [if_pos nobodyElse]
    · simp only [if_neg nobody, if_neg nobodyElse]
      rw [List.modify_modify_ne _ _ _ (by omega)]

/-- A change of a hand goes by the cards that are in it. -/
theorem modifyHand_congr {first second : List Card → List Card}
    (same : first (table.hand seat) = second (table.hand seat)) :
    table.modifyHand seat first = table.modifyHand seat second := by
  unfold modifyHand modifyPlayer
  split
  · rfl
  · rename_i somebody
    have changed : table.players.modify seat.toNat
        (fun player => { player with hand := first player.hand }) =
      table.players.modify seat.toNat
        (fun player => { player with hand := second player.hand }) := by
      apply List.ext_getElem?
      intro place
      rw [List.getElem?_modify, List.getElem?_modify]
      split
      · rename_i here
        subst here
        cases there : table.players[seat.toNat]? with
        | none => rfl
        | some player =>
            have own : table.hand seat = player.hand := by
              unfold hand Table.player
              rw [if_neg somebody, List.getD_eq_getElem?_getD, there]
              rfl
            rw [own] at same
            exact congrArg (fun hand => some { player with hand }) same
      · rfl
    rw [changed]

theorem modifyHand_of_same {change : List Card → List Card}
    (same : change (table.hand seat) = table.hand seat) : table.modifyHand seat change = table := by
  refine (@modifyHand_congr _ _ _ id same).trans ?_
  unfold modifyHand modifyPlayer
  split
  · rfl
  · exact congrArg (fun players => { table with players }) (List.modify_id _ _)

theorem deck_modifyHand (table : Table) (seat : Int) (change : List Card → List Card) :
    (table.modifyHand seat change).deck = table.deck := by
  unfold modifyHand modifyPlayer
  split <;> rfl

theorem discard_modifyHand (table : Table) (seat : Int) (change : List Card → List Card) :
    (table.modifyHand seat change).discard = table.discard := by
  unfold modifyHand modifyPlayer
  split <;> rfl

theorem modifyHand_withDeck (table : Table) (seat : Int) (change : List Card → List Card)
    (deck : List Card) :
    { table.modifyHand seat change with deck } = { table with deck }.modifyHand seat change := by
  unfold modifyHand modifyPlayer
  split <;> rfl

theorem modifyHand_modifyDiscard (table : Table) (seat : Int)
    (change laid : List Card → List Card) :
    (table.modifyDiscard laid).modifyHand seat change =
      (table.modifyHand seat change).modifyDiscard laid := by
  unfold modifyHand modifyPlayer
  split <;> rfl

theorem modifyDiscard_modifyDiscard (table : Table) (first second : List Card → List Card) :
    (table.modifyDiscard first).modifyDiscard second = table.modifyDiscard (second ∘ first) :=
  rfl

/-! ### What single effects move -/

theorem toNat_min_length (count : Int) (pile : List Card) :
    (min count pile.length).toNat = min count.toNat pile.length := by
  omega

theorem append_comp_append (first second : List Card) :
    (· ++ second) ∘ (· ++ first) = fun cards : List Card => cards ++ (first ++ second) :=
  funext fun cards => List.append_assoc cards first second

theorem draw_deck (table : Table) (seat count : Int) :
    table.draw seat .deck count =
      { table with deck := table.deck.rdrop count.toNat }.modifyHand seat
        (· ++ topCards count.toNat table.deck) := by
  have moves (left moved : List Card) :
      drawOne seat .deck ({ table with deck := left }.modifyHand seat (· ++ moved)) =
        match left.getLast? with
        | none => { table with deck := left }.modifyHand seat (· ++ moved)
        | some card =>
            { table with deck := left.dropLast }.modifyHand seat (· ++ (moved ++ [card])) := by
    unfold drawOne
    change (match ({ table with deck := left }.modifyHand seat (· ++ moved)).deck.getLast? with
      | none => _
      | some card => _) = _
    rw [deck_modifyHand]
    cases left.getLast? with
    | none => rfl
    | some card =>
        simp only [modifyPile]
        rw [modifyHand_withDeck, deck_modifyHand, modifyHand_modifyHand, append_comp_append]
  have moved := repeat_eq_of_moves moves table.deck (min count.toNat table.deck.length)
  rw [modifyHand_of_same (List.append_nil _), rdrop_min_length] at moved
  have counted : (table.drawCount seat .deck count).toNat = min count.toNat table.deck.length :=
    toNat_min_length count table.deck
  unfold draw
  dsimp only
  rw [counted]
  exact moved

theorem forceDiscard_eq (seated : table.HasSeat seat) (count : Int) :
    table.forceDiscard seat count =
      (table.modifyHand seat (·.rdrop count.toNat)).modifyDiscard
        (· ++ topCards count.toNat (table.hand seat)) := by
  have moves (left moved : List Card) :
      discardOne seat ((table.modifyHand seat fun _ => left).modifyDiscard (· ++ moved)) =
        match left.getLast? with
        | none => (table.modifyHand seat fun _ => left).modifyDiscard (· ++ moved)
        | some card =>
            (table.modifyHand seat fun _ => left.dropLast).modifyDiscard
              (· ++ (moved ++ [card])) := by
    have held : ((table.modifyHand seat fun _ => left).modifyDiscard (· ++ moved)).hand seat =
        left := hand_modifyHand_self seated _
    unfold discardOne
    rw [held]
    cases left.getLast? with
    | none => rfl
    | some card =>
        dsimp only
        rw [modifyHand_modifyDiscard, modifyHand_modifyHand, modifyDiscard_modifyDiscard,
          append_comp_append]
        rfl
  have moved := repeat_eq_of_moves moves (table.hand seat)
    (min count.toNat (table.hand seat).length)
  have before :
      (table.modifyHand seat fun _ => table.hand seat).modifyDiscard (· ++ []) = table := by
    rw [modifyHand_of_same rfl]
    exact congrArg (fun discard => { table with discard }) (List.append_nil _)
  rw [before, rdrop_min_length] at moved
  unfold forceDiscard
  rw [toNat_min_length, moved]
  exact congrArg (modifyDiscard · _) (modifyHand_congr rfl)

/-- A thief and a victim are two. -/
theorem steal_eq {thief victim : Int} (different : victim ≠ thief) (seated : table.HasSeat victim)
    (count : Int) :
    table.steal thief victim count =
      (table.modifyHand victim (·.rdrop count.toNat)).modifyHand thief
        (· ++ topCards count.toNat (table.hand victim)) := by
  have moves (left moved : List Card) :
      stealOne thief victim
          ((table.modifyHand victim fun _ => left).modifyHand thief (· ++ moved)) =
        match left.getLast? with
        | none => (table.modifyHand victim fun _ => left).modifyHand thief (· ++ moved)
        | some card =>
            (table.modifyHand victim fun _ => left.dropLast).modifyHand thief
              (· ++ (moved ++ [card])) := by
    have held :
        ((table.modifyHand victim fun _ => left).modifyHand thief (· ++ moved)).hand victim =
          left := by
      rw [hand_modifyHand_of_ne different, hand_modifyHand_self seated]
    unfold stealOne
    rw [held]
    cases left.getLast? with
    | none => rfl
    | some card =>
        dsimp only
        rw [modifyHand_comm different.symm, modifyHand_modifyHand, modifyHand_modifyHand,
          append_comp_append]
        rfl
  have moved := repeat_eq_of_moves moves (table.hand victim)
    (min count.toNat (table.hand victim).length)
  have before : (table.modifyHand victim fun _ => table.hand victim).modifyHand thief (· ++ []) =
      table := by
    rw [modifyHand_of_same (List.append_nil _)]
    exact modifyHand_of_same rfl
  rw [before, rdrop_min_length] at moved
  unfold steal
  rw [toNat_min_length, moved]
  exact congrArg (modifyHand · thief _) (modifyHand_congr rfl)

/-! ### What is left alone -/

/-- A table without its players and the cards off the tableau. -/
def bare (table : Table) : Table :=
  { table with players := [], deck := [], discard := [] }

/-- Cards off the tableau are all that was moved. -/
structure OnlyCards (table next : Table) : Prop where
  bare : next.bare = table.bare
  seats : next.seats = table.seats
  player : ∀ seat, next.player seat = { table.player seat with hand := next.hand seat }

namespace OnlyCards

theorem refl (table : Table) : OnlyCards table table :=
  ⟨rfl, rfl, fun _ => rfl⟩

theorem trans (first : OnlyCards table next) (second : OnlyCards next last) :
    OnlyCards table last := by
  refine ⟨second.bare.trans first.bare, second.seats.trans first.seats, fun seat => ?_⟩
  rw [second.player, first.player]

theorem modifyHand (table : Table) (seat : Int) (change : List Card → List Card) :
    OnlyCards table (table.modifyHand seat change) := by
  refine ⟨?_, congrArg Frame.seats (frame_modifyHand table seat change), fun other => ?_⟩
  · unfold Table.modifyHand modifyPlayer
    split <;> rfl
  · unfold Table.modifyHand modifyPlayer hand Table.player
    by_cases negative : other < 0
    · simp only [if_pos negative]
    · by_cases nobody : seat < 0
      · simp only [if_pos nobody]
      · simp only [if_neg negative, if_neg nobody, List.getD_eq_getElem?_getD,
          List.getElem?_modify]
        cases table.players[other.toNat]? with
        | none => rfl
        | some player => split <;> rfl

theorem foldl {α : Type} {step : Table → α → Table}
    (each : ∀ table item, OnlyCards table (step table item)) (table : Table) (items : List α) :
    OnlyCards table (items.foldl step table) := by
  induction items generalizing table with
  | nil => exact .refl table
  | cons item rest ih => exact (each table item).trans (ih _)

end OnlyCards

/-! ### Draws for several -/

theorem onlyCards_draw (table : Table) (seat count : Int) :
    OnlyCards table (table.draw seat .deck count) := by
  rw [draw_deck]
  have taken : OnlyCards table { table with deck := table.deck.rdrop count.toNat } :=
    ⟨rfl, rfl, fun _ => rfl⟩
  exact taken.trans (.modifyHand _ seat _)

theorem deck_draw (table : Table) (seat count : Int) :
    (table.draw seat .deck count).deck = table.deck.rdrop count.toNat := by
  rw [draw_deck, deck_modifyHand]

theorem discard_draw (table : Table) (seat count : Int) :
    (table.draw seat .deck count).discard = table.discard := by
  rw [draw_deck, discard_modifyHand]

theorem hand_draw_self (seated : table.HasSeat seat) (count : Int) :
    (table.draw seat .deck count).hand seat =
      table.hand seat ++ topCards count.toNat table.deck := by
  rw [draw_deck]
  exact @hand_modifyHand_self { table with deck := table.deck.rdrop count.toNat } seat seated _

theorem hand_draw_of_ne {other : Int} (different : other ≠ seat) (count : Int) :
    (table.draw seat .deck count).hand other = table.hand other := by
  rw [draw_deck, hand_modifyHand_of_ne different]
  rfl

/-- Everyone who is struck draws from what those before have left, and nobody else does. -/
theorem drawForEach_spec {targets : List Int} (distinct : targets.Nodup)
    (seated : ∀ target ∈ targets, table.HasSeat target) (count : Int) :
    let drawn := table.drawForEach targets count
    drawn.deck = table.deck.rdrop (count.toNat * targets.length) ∧
      drawn.discard = table.discard ∧
      (∀ place target, targets[place]? = some target →
        drawn.hand target = table.hand target ++
          topCards count.toNat (table.deck.rdrop (count.toNat * place))) ∧
      ∀ seat ∉ targets, drawn.hand seat = table.hand seat := by
  induction targets generalizing table with
  | nil =>
      refine ⟨?_, rfl, fun place target there => ?_, fun _ _ => rfl⟩
      · rw [List.length_nil, Nat.mul_zero, List.rdrop_zero]
        rfl
      · cases there
  | cons first rest ih =>
      obtain ⟨apart, distinct⟩ := List.nodup_cons.mp distinct
      have seats := (onlyCards_draw table first count).seats
      obtain ⟨left, laid, drew, same⟩ := ih distinct fun target member =>
        (seated target (List.mem_cons_of_mem first member)).of_seats seats
      rw [deck_draw] at left drew
      refine ⟨?_, laid.trans (discard_draw table first count), fun place target there => ?_,
        fun seat member => ?_⟩
      · rw [List.length_cons, Nat.mul_succ, Nat.add_comm, ← rdrop_rdrop]
        exact left
      · cases place with
        | zero =>
            obtain rfl : first = target := Option.some.inj there
            rw [Nat.mul_zero, List.rdrop_zero, ← hand_draw_self (seated first List.mem_cons_self)]
            exact same first apart
        | succ place =>
            have behind : rest[place]? = some target := there
            have different : target ≠ first := fun equal =>
              apart (equal ▸ List.mem_of_getElem? behind)
            rw [Nat.mul_succ, Nat.add_comm, ← rdrop_rdrop,
              ← @hand_draw_of_ne table first target different count]
            exact drew place target behind
      · rw [List.mem_cons, not_or] at member
        exact (same seat member.2).trans (hand_draw_of_ne member.1 count)

/-! ### Discards by several -/

theorem onlyCards_forceDiscard (seated : table.HasSeat seat) (count : Int) :
    OnlyCards table (table.forceDiscard seat count) := by
  rw [forceDiscard_eq seated]
  exact (OnlyCards.modifyHand table seat _).trans ⟨rfl, rfl, fun _ => rfl⟩

theorem hand_forceDiscard (seated : table.HasSeat seat) (count : Int) (other : Int) :
    (table.forceDiscard seat count).hand other =
      if other = seat then (table.hand other).rdrop count.toNat else table.hand other := by
  rw [forceDiscard_eq seated]
  split
  · rename_i same
    subst same
    exact hand_modifyHand_self seated _
  · rename_i different
    exact hand_modifyHand_of_ne different _

/-- The cards arrive on the discard pile hand by hand. -/
theorem foldl_forceDiscard_spec {targets : List Int} (distinct : targets.Nodup)
    (seated : ∀ target ∈ targets, table.HasSeat target) (count : Int) :
    let laid := targets.foldl (fun table seat => table.forceDiscard seat count) table
    OnlyCards table laid ∧ laid.deck = table.deck ∧
      laid.discard = table.discard ++
        targets.flatMap (fun target => topCards count.toNat (table.hand target)) ∧
      ∀ seat, laid.hand seat =
        if seat ∈ targets then (table.hand seat).rdrop count.toNat else table.hand seat := by
  induction targets generalizing table with
  | nil => exact ⟨.refl table, rfl, (List.append_nil _).symm, fun seat => rfl⟩
  | cons first rest ih =>
      obtain ⟨apart, distinct⟩ := List.nodup_cons.mp distinct
      have own := seated first List.mem_cons_self
      have moved := onlyCards_forceDiscard own count
      have hands := hand_forceDiscard own count
      obtain ⟨only, deck, discard, same⟩ := ih distinct fun target member =>
        (seated target (List.mem_cons_of_mem first member)).of_seats moved.seats
      refine ⟨moved.trans only, deck.trans ?_, ?_, fun seat => ?_⟩
      · rw [forceDiscard_eq own]
        exact deck_modifyHand table first _
      · have behind : (rest.flatMap fun target =>
            topCards count.toNat ((table.forceDiscard first count).hand target)) =
            rest.flatMap fun target => topCards count.toNat (table.hand target) := by
          refine List.flatMap_congr fun target member => ?_
          have different : target ≠ first := fun equal => apart (equal ▸ member)
          rw [hands, if_neg different]
        have top : (table.forceDiscard first count).discard =
            table.discard ++ topCards count.toNat (table.hand first) := by
          rw [forceDiscard_eq own, ← modifyHand_modifyDiscard, discard_modifyHand]
          rfl
        rw [behind, top, List.append_assoc] at discard
        exact discard
      · rw [List.foldl_cons, same, hands]
        by_cases here : seat = first
        · subst here
          rw [if_neg apart, if_pos rfl, if_pos List.mem_cons_self]
        · simp only [List.mem_cons, here, false_or, if_false]

/-! ### Whom an effect strikes -/

/-- Whom an effect on a target strikes: a neighbour, in the direction of play or against it, or in
seat order or against that; the actor; all others in seat order; one of the others; nobody. -/
def Strikes (table : Table) (actor : Int) (target : EffectTarget) (struck : List Int) : Prop :=
  match target with
  | .next => struck = [(actor + table.direction) % table.seats]
  | .previous => struck = [(actor - table.direction) % table.seats]
  | .left => struck = [(actor + 1) % table.seats]
  | .right => struck = [(actor - 1) % table.seats]
  | .self => struck = [actor]
  | .allOpponents =>
      struck.Pairwise (· < ·) ∧ ∀ seat, seat ∈ struck ↔ table.HasSeat seat ∧ seat ≠ actor
  | .randomOpponent => ∃ opponent, struck = [opponent] ∧ opponent ≠ actor
  | .unknown _ _ => struck = []

theorem seatAfter_eq_emod (seated : table.HasSeat seat) {places : Int}
    (step : places = 1 ∨ places = -1) :
    table.seatAfter seat places = (seat + places) % table.seats := by
  obtain ⟨nonneg, below⟩ := seated
  unfold seatAfter
  rw [Int.tmod_eq_emod_of_nonneg (by omega), Int.add_emod_right]

theorem pairwise_allSeats (table : Table) : table.allSeats.Pairwise (· < ·) := by
  unfold allSeats
  rw [List.pairwise_map]
  exact List.pairwise_lt_range.imp fun less => Int.ofNat_lt.mpr less

/-- One place behind the actor and fewer places on than there are others is not the actor. -/
theorem emod_ne_of_offset {offset : Nat} (seated : table.HasSeat actor)
    (few : offset < table.seats - 1) : (actor + 1 + offset).tmod table.seats ≠ actor := by
  obtain ⟨nonneg, below⟩ := seated
  rw [Int.tmod_eq_emod_of_nonneg (by omega)]
  by_cases wraps : actor + 1 + offset < table.seats
  · rw [Int.emod_eq_of_lt (by omega) wraps]
    omega
  · rw [← Int.sub_emod_right, Int.emod_eq_of_lt (by omega) (by omega)]
    omega

theorem strikes_effectTargets (several : 2 ≤ table.seats)
    (oneWay : table.direction = 1 ∨ table.direction = -1) (seated : table.HasSeat actor)
    (target : EffectTarget) : table.Strikes actor target (table.effectTargets actor target).1 := by
  cases target with
  | next => exact congrArg ([·]) (seatAfter_eq_emod seated oneWay)
  | previous => exact congrArg ([·]) (seatAfter_eq_emod seated (by omega))
  | left => exact congrArg ([·]) (seatAfter_eq_emod seated (.inl rfl))
  | right => exact congrArg ([·]) (seatAfter_eq_emod seated (.inr rfl))
  | self | unknown => rfl
  | allOpponents =>
      refine ⟨table.pairwise_allSeats.filter _, fun seat => ?_⟩
      unfold effectTargets
      rw [List.mem_filter, mem_allSeats_iff, decide_eq_true_eq]
  | randomOpponent =>
      have drawn : (table.generator.below (table.seats - 1)).1 < table.seats - 1 :=
        Generator.below_lt (by omega)
      exact ⟨_, rfl, emod_ne_of_offset seated drawn⟩

theorem nodup_effectTargets (table : Table) (actor : Int) (target : EffectTarget) :
    (table.effectTargets actor target).1.Nodup := by
  cases target with
  | allOpponents =>
      exact (table.pairwise_allSeats.filter _).imp fun less => Int.ne_of_lt less
  | next | previous | left | right | self | randomOpponent => exact List.nodup_singleton _
  | unknown => exact List.nodup_nil

/-! ### Where the cards are afterwards -/

/-- Every card off the tableau lies where it lay. -/
def CardsKept (table next : Table) : Prop :=
  next.deck = table.deck ∧ next.discard = table.discard ∧
    ∀ seat, next.hand seat = table.hand seat

/-- Something was done with the hands of the actor and of the first who is struck, and with no other
card; if that is the actor or nobody, then nothing was done. -/
def BetweenHands (table : Table) (actor : Int) (struck : List Int) (next : Table)
    (done : Int → Prop) : Prop :=
  match struck with
  | [] => CardsKept table next
  | target :: _ =>
      if target = actor then
        CardsKept table next
      else
        next.deck = table.deck ∧ next.discard = table.discard ∧ done target ∧
          ∀ seat, seat ≠ actor → seat ≠ target → next.hand seat = table.hand seat

/-- Where the cards off the tableau lie after an effect on those that it strikes. -/
def CarriedOut (table : Table) (actor : Int) (effect : Effect) (struck : List Int)
    (next : Table) : Prop :=
  let count := effect.value.toNat
  match effect.kind with
  | .drawCards =>
      next.deck = table.deck.rdrop (count * struck.length) ∧
        next.discard = table.discard ∧
        (∀ place target, struck[place]? = some target →
          next.hand target =
            table.hand target ++ topCards count (table.deck.rdrop (count * place))) ∧
        ∀ seat ∉ struck, next.hand seat = table.hand seat
  | .forceDiscard =>
      next.deck = table.deck ∧
        next.discard =
          table.discard ++ struck.flatMap (fun target => topCards count (table.hand target)) ∧
        ∀ seat, next.hand seat =
          if seat ∈ struck then (table.hand seat).rdrop count else table.hand seat
  | .stealCard =>
      BetweenHands table actor struck next fun victim =>
        next.hand actor = table.hand actor ++ topCards count (table.hand victim) ∧
          next.hand victim = (table.hand victim).rdrop count
  | .swapHands =>
      BetweenHands table actor struck next fun other =>
        next.hand actor = table.hand other ∧ next.hand other = table.hand actor
  | .skipNext | .reverse | .extraTurn | .wild | .blockNext | .peek | .unknown _ _ =>
      CardsKept table next

theorem againstFirst_spec {struck : List Int} {change : Table → Int → Table}
    {done : Table → Int → Prop}
    (each : ∀ target ∈ struck, target ≠ actor → let next := change table target
      (next.deck = table.deck ∧ next.discard = table.discard ∧ done next target ∧
        ∀ seat, seat ≠ actor → seat ≠ target → next.hand seat = table.hand seat) ∧
      OnlyCards table next) :
    let next := table.againstFirst actor struck change
    BetweenHands table actor struck next (done next) ∧ OnlyCards table next := by
  unfold BetweenHands againstFirst
  cases struck with
  | nil => exact ⟨⟨rfl, rfl, fun _ => rfl⟩, .refl table⟩
  | cons target rest =>
      by_cases own : target = actor
      · simp only [if_pos own]
        exact ⟨⟨rfl, rfl, fun _ => rfl⟩, .refl table⟩
      · simp only [if_neg own]
        exact each target List.mem_cons_self own

theorem steal_spec {victim : Int} (different : victim ≠ actor) (seated : table.HasSeat actor)
    (struck : table.HasSeat victim) (count : Int) :
    let robbed := table.steal actor victim count
    (robbed.deck = table.deck ∧ robbed.discard = table.discard ∧
      (robbed.hand actor = table.hand actor ++ topCards count.toNat (table.hand victim) ∧
        robbed.hand victim = (table.hand victim).rdrop count.toNat) ∧
      ∀ seat, seat ≠ actor → seat ≠ victim → robbed.hand seat = table.hand seat) ∧
      OnlyCards table robbed := by
  intro robbed
  have taken := OnlyCards.modifyHand table victim (·.rdrop count.toNat)
  have eq : robbed = _ := steal_eq different struck count
  rw [eq]
  refine ⟨⟨?_, ?_, ⟨?_, ?_⟩, fun seat own victims => ?_⟩, taken.trans (.modifyHand _ actor _)⟩
  · rw [deck_modifyHand, deck_modifyHand]
  · rw [discard_modifyHand, discard_modifyHand]
  · rw [hand_modifyHand_self (seated.of_seats taken.seats), hand_modifyHand_of_ne different.symm]
  · rw [hand_modifyHand_of_ne different, hand_modifyHand_self struck]
  · rw [hand_modifyHand_of_ne own, hand_modifyHand_of_ne victims]

theorem swapHands_spec {other : Int} (different : other ≠ actor) (seated : table.HasSeat actor)
    (struck : table.HasSeat other) :
    let swapped := table.swapHands actor other
    (swapped.deck = table.deck ∧ swapped.discard = table.discard ∧
      (swapped.hand actor = table.hand other ∧ swapped.hand other = table.hand actor) ∧
      ∀ seat, seat ≠ actor → seat ≠ other → swapped.hand seat = table.hand seat) ∧
      OnlyCards table swapped := by
  have given := OnlyCards.modifyHand table actor fun _ => table.hand other
  unfold swapHands
  refine ⟨⟨?_, ?_, ⟨?_, ?_⟩, fun seat own others => ?_⟩, given.trans (.modifyHand _ other _)⟩
  · rw [deck_modifyHand, deck_modifyHand]
  · rw [discard_modifyHand, discard_modifyHand]
  · rw [hand_modifyHand_of_ne different.symm, hand_modifyHand_self seated]
  · rw [hand_modifyHand_self (struck.of_seats given.seats)]
  · rw [hand_modifyHand_of_ne others, hand_modifyHand_of_ne own]

/-! ### Effects as a whole -/

/-- The generator after the choice of a target: only a random opponent is drawn. -/
def aimedGenerator (table : Table) (target : EffectTarget) : Generator :=
  match target with
  | .randomOpponent => (table.generator.below (table.seats - 1)).2
  | _ => table.generator

theorem effectTargets_eq_mk (table : Table) (actor : Int) (target : EffectTarget) :
    table.effectTargets actor target =
      ((table.effectTargets actor target).1,
        { table with generator := table.aimedGenerator target }) := by
  cases target <;> rfl

/-- What an effect makes of the order of play and of the generator. -/
def reordered (table : Table) (effect : Effect) : Table :=
  { table with
    skips :=
      match effect.kind with
      | .skipNext | .blockNext =>
          min (table.skips + max effect.value 1) ((table.seats : Int) - 1)
      | .extraTurn => (table.seats : Int) - 1
      | _ => table.skips
    direction := if effect.kind = .reverse then -table.direction else table.direction
    generator :=
      match effect.kind with
      | .drawCards | .forceDiscard | .stealCard | .swapHands =>
          table.aimedGenerator effect.target
      | _ => table.generator }

/-- An effect on whomever it strikes does what it is for and changes nothing else. -/
theorem applyEffect_spec (seated : table.HasSeat actor) {effect : Effect} {struck : List Int}
    (aimed : (table.effectTargets actor effect.target).1 = struck) (distinct : struck.Nodup)
    (seats : ∀ target ∈ struck, table.HasSeat target) :
    CarriedOut table actor effect struck (table.applyEffect actor effect) ∧
      OnlyCards (table.reordered effect) (table.applyEffect actor effect) := by
  -- The kinds that aim do so first, which leaves all but the generator of the table alone.
  let chosen : Table := { table with generator := table.aimedGenerator effect.target }
  have found : table.effectTargets actor effect.target = (struck, chosen) := by
    rw [effectTargets_eq_mk, aimed]
  unfold CarriedOut reordered applyEffect
  cases kind : effect.kind with
  | skipNext | blockNext | extraTurn | reverse | wild | peek | unknown =>
      exact ⟨⟨rfl, rfl, fun _ => rfl⟩, rfl, rfl, fun _ => rfl⟩
  | drawCards =>
      have drawn : OnlyCards chosen (chosen.drawForEach struck effect.value) :=
        .foldl (fun before target => onlyCards_draw before target effect.value) chosen struck
      dsimp only
      rw [found]
      exact ⟨@drawForEach_spec chosen struck distinct seats effect.value, drawn⟩
  | forceDiscard =>
      obtain ⟨only, laid⟩ := @foldl_forceDiscard_spec chosen struck distinct seats effect.value
      dsimp only
      rw [found]
      exact ⟨laid, only⟩
  | stealCard =>
      dsimp only
      rw [found]
      exact @againstFirst_spec chosen actor struck
        (fun before victim => before.steal actor victim effect.value)
        (fun next victim =>
          next.hand actor =
              chosen.hand actor ++ topCards effect.value.toNat (chosen.hand victim) ∧
            next.hand victim = (chosen.hand victim).rdrop effect.value.toNat)
        fun victim member different =>
          @steal_spec chosen actor victim different seated (seats victim member) effect.value
  | swapHands =>
      dsimp only
      rw [found]
      exact @againstFirst_spec chosen actor struck
        (fun before other => before.swapHands actor other)
        (fun next other =>
          next.hand actor = chosen.hand other ∧ next.hand other = chosen.hand actor)
        fun other member different =>
          @swapHands_spec chosen actor other different seated (seats other member)

theorem CarriedOut.of_nobody {effect : Effect} (carried : CarriedOut table actor effect [] next) :
    CardsKept table next := by
  unfold CarriedOut at carried
  cases kind : effect.kind with
  | drawCards =>
      rw [kind] at carried
      obtain ⟨deck, discard, _, hands⟩ := carried
      rw [List.length_nil, Nat.mul_zero, List.rdrop_zero] at deck
      exact ⟨deck, discard, fun seat => hands seat List.not_mem_nil⟩
  | forceDiscard =>
      rw [kind] at carried
      obtain ⟨deck, discard, hands⟩ := carried
      rw [List.flatMap_nil, List.append_nil] at discard
      exact ⟨deck, discard, hands⟩
  | skipNext | reverse | extraTurn | wild | blockNext | swapHands | stealCard | peek | unknown =>
      rw [kind] at carried
      exact carried

theorem OnlyCards.eq_mk (only : OnlyCards table next) :
    next = { table with
      players := next.players, deck := next.deck, discard := next.discard } :=
  congrArg (fun rest : Table =>
    { rest with players := next.players, deck := next.deck, discard := next.discard }) only.bare

/-- At any table of two or more, whoever plays the card, an effect strikes participants only and
those that it names, moves as many cards as it says or as there are and puts every one where it
says, and moves no other card; if it strikes nobody, it moves none. Nothing else changes but what
effects on the turn order are about and, for a random opponent, the generator. -/
theorem applyEffect_exactly {table : Table} {actor : Int} (several : 2 ≤ table.seats)
    (oneWay : table.direction = 1 ∨ table.direction = -1) (seated : table.HasSeat actor)
    (effect : Effect) :
    let struck := (table.effectTargets actor effect.target).1
    let next := table.applyEffect actor effect
    (∀ target ∈ struck, table.HasSeat target) ∧
      table.Strikes actor effect.target struck ∧
      table.CarriedOut actor effect struck next ∧
      (struck = [] → table.CardsKept next) ∧
      next = { table.reordered effect with
        players := next.players, deck := next.deck, discard := next.discard } ∧
      next.seats = table.seats ∧
      ∀ seat, next.player seat = { table.player seat with hand := next.hand seat } := by
  intro struck next
  have seats := hasSeat_of_mem_effectTargets oneWay seated effect.target
  have distinct := table.nodup_effectTargets actor effect.target
  obtain ⟨carried, only⟩ := applyEffect_spec seated rfl distinct seats
  refine ⟨seats, strikes_effectTargets several oneWay seated effect.target, carried,
    fun nobody => ?_, only.eq_mk, only.seats, only.player⟩
  change CarriedOut table actor effect struck next at carried
  rw [nobody] at carried
  exact carried.of_nobody

/-- With three cards left in the deck and two cards to draw for everyone else, the last one to draw
gets a single card. -/
theorem applyEffect_exactly_shortDeck :
    let table : Table :=
      { players := [{}, {}, {}], active := 1, direction := -1
        deck := [⟨.two, .clubs⟩, ⟨.three, .clubs⟩, ⟨.four, .clubs⟩] }
    let effect : Effect := { kind := .drawCards, target := .allOpponents, value := 2 }
    let next := table.applyEffect 1 effect
    2 ≤ table.seats ∧ (table.direction = 1 ∨ table.direction = -1) ∧ table.HasSeat 1 ∧
      next.hand 0 = [⟨.four, .clubs⟩, ⟨.three, .clubs⟩] ∧ next.hand 2 = [⟨.two, .clubs⟩] ∧
      next.deck = [] := by
  intro table effect next
  have several : 2 ≤ table.seats := by decide
  have oneWay : table.direction = 1 ∨ table.direction = -1 := .inr rfl
  have seated : table.HasSeat 1 := by decide
  obtain ⟨_, _, ⟨deck, _, hands, _⟩, _⟩ := applyEffect_exactly several oneWay seated effect
  exact ⟨several, oneWay, seated, hands 0 0 rfl, hands 1 2 rfl, deck⟩

end Croupier.Table
