/-
Cards that count as playable, and cards that can be played.

The number of playable cards is itself something that a condition can ask for. Where such a
condition belongs to the first play phase, it is left out of the count, which would go round in a
circle otherwise, but not of the offer. So no more cards are on offer than count as playable, and
there are fewer where some card counts only because a condition was left out. Both go by the other
conditions, and agree on any two tables on which those do.
-/

import Croupier.Rules.Offer
import Mathlib

namespace Croupier

/-- Whether a choice plays a card. -/
def Choice.isPlay : Choice → Bool
  | play _ _ => true
  | _ => false

/-- The first play phase of a program, and its place. -/
structure Program.FirstPlay (program : Program) (index : Nat) (phase : PlayPhase) : Prop where
  here : program.phases[index]? = some (.play phase)
  first : ∀ other ∈ program.phases.take index, other.kind ≠ .play

/-- Whether a phase takes any card from a hand: it takes cards at all, and the hand has enough of
them for the least number. -/
def PlayPhase.Takes (phase : PlayPhase) (hand : List Card) : Prop :=
  0 < phase.maxCards ∧ phase.minCards ≤ hand.length

instance (phase : PlayPhase) (hand : List Card) : Decidable (phase.Takes hand) :=
  inferInstanceAs (Decidable (_ ∧ _))

/-- A stronger test that as many pass is passed by the same ones. -/
theorem countP_eq_iff_of_imp {α : Type} {strong weak : α → Bool} {items : List α}
    (implies : ∀ item ∈ items, strong item = true → weak item = true) :
    items.countP strong = items.countP weak ↔
      ∀ item ∈ items, weak item = true → strong item = true := by
  induction items with
  | nil => simp
  | cons item items ih =>
      have rest := ih fun other member => implies other (List.mem_cons_of_mem _ member)
      have fewer : items.countP strong ≤ items.countP weak :=
        List.countP_mono_left fun other member => implies other (List.mem_cons_of_mem _ member)
      have own := implies item List.mem_cons_self
      rw [List.forall_mem_cons, ← rest, List.countP_cons, List.countP_cons]
      cases passes : strong item <;> cases counts : weak item <;> simp [passes, counts] at own ⊢
      omega

namespace Table

variable {table : Table} {program : Program} {seat : Int} {index : Nat} {phase : PlayPhase}
  {card : Card}

/-! ### Tables on which conditions agree -/

section

variable {other : Table} (apart : ∀ condition candidate,
  other.holdsApart program seat condition candidate =
    table.holdsApart program seat condition candidate)

include apart

theorem playableCount_congr (order : (other.hand seat).Perm (table.hand seat)) :
    other.playableCount program seat = table.playableCount program seat := by
  have playable (phase : PlayPhase) :
      other.isPlayable program seat phase = table.isPlayable program seat phase := by
    funext card
    unfold isPlayable
    simp only [apart]
  unfold playableCount
  simp only [playable, order.countP_eq]

theorem holds_congr (order : (other.hand seat).Perm (table.hand seat)) (condition : Condition)
    (candidate : Option Card) :
    other.holds program seat condition candidate =
      table.holds program seat condition candidate := by
  unfold holds
  rw [playableCount_congr apart order, apart]

theorem mayPlay_congr (order : (other.hand seat).Perm (table.hand seat)) (phase : PlayPhase) :
    other.mayPlay program seat phase = table.mayPlay program seat phase := by
  funext card
  unfold mayPlay holdsBlock
  simp only [holds_congr apart order]

end

/-! ### Conditions left out -/

theorem blockHolds_mono {holds weaker : Condition → Bool} {block : ConditionBlock}
    (implies : ∀ condition ∈ block.conditions, holds condition = true → weaker condition = true)
    (all : blockHolds holds block = true) : blockHolds weaker block = true := by
  unfold blockHolds at all ⊢
  cases quantifier : block.quantifier with
  | all =>
      rw [quantifier] at all
      exact List.all_eq_true.mpr fun condition member =>
        implies condition member (List.all_eq_true.mp all condition member)
  | any =>
      rw [quantifier] at all
      refine Bool.or_eq_true_iff.mpr ((Bool.or_eq_true_iff.mp all).imp_right fun some => ?_)
      obtain ⟨condition, member, held⟩ := List.any_eq_true.mp some
      exact List.any_eq_true.mpr ⟨condition, member, implies condition member held⟩

theorem holdsApart_of_holds {condition : Condition} {candidate : Option Card}
    (held : table.holds program seat condition candidate = true) :
    table.holdsApart program seat condition candidate = true := by
  unfold holds at held
  split at held
  · rename_i asks
    unfold holdsApart
    rw [asks]
  · exact held

theorem isPlayable_of_mayPlay (allowed : table.mayPlay program seat phase card = true) :
    table.isPlayable program seat phase card = true := by
  unfold mayPlay at allowed
  unfold isPlayable
  rw [Bool.or_eq_true] at allowed ⊢
  exact allowed.imp_right (blockHolds_mono fun _ _ => holdsApart_of_holds)

/-- Whether the conditions of a phase that ask for the number of playable cards hold. -/
def CountsHold (table : Table) (program : Program) (seat : Int) (phase : PlayPhase) : Prop :=
  ∀ condition ∈ phase.conditions.conditions, condition.kind = .playableCount →
    condition.comparison.holds (table.playableCount program seat) condition.value = true

theorem mayPlay_of_isPlayable (counts : table.CountsHold program seat phase)
    (playable : table.isPlayable program seat phase card = true) :
    table.mayPlay program seat phase card = true := by
  unfold isPlayable at playable
  unfold mayPlay holdsBlock
  rw [Bool.or_eq_true] at playable ⊢
  refine playable.imp_right (blockHolds_mono fun condition member held => ?_)
  unfold holds
  split
  · rename_i asks
    exact counts condition member asks
  · exact held

/-! ### The count and the offer -/

theorem playableCount_eq (first : program.FirstPlay index phase) (table : Table) (seat : Int) :
    table.playableCount program seat =
      (table.hand seat).countP (table.isPlayable program seat phase) := by
  obtain ⟨inside, here⟩ := List.getElem?_eq_some_iff.mp first.here
  have split := List.take_append_drop index program.phases
  rw [List.drop_eq_getElem_cons inside, here] at split
  have earlier {look : Phase → Option PlayPhase}
      (apart : ∀ other, other.kind ≠ .play → look other = none) :
      (program.phases.take index).findSome? look = none :=
    List.findSome?_eq_none_iff.mpr fun other member => apart other (first.first other member)
  unfold playableCount
  rw [← split, List.findSome?_append, earlier]
  · rfl
  · intro other different
    cases other with
    | play => exact absurd rfl different
    | _ => rfl

theorem countP_offerCards (named : Int → Choice) {test : Choice → Bool}
    (passes : ∀ place, test (named place) = true) (hand : List Card) (allowed : Card → Bool) :
    (offerCards hand allowed named).countP test = hand.countP allowed := by
  conv_rhs => rw [← List.zipIdx_map_fst 0 hand, List.countP_map]
  unfold offerCards
  rw [List.countP_filterMap]
  apply List.countP_congr
  rintro ⟨card, place⟩ _
  dsimp only [Function.comp_apply]
  cases allowed card with
  | false => simp
  | true => simp [passes]

/-- A pass plays no card, so the cards on offer are those that may be played, provided that the
phase takes any. -/
theorem countP_offerPlay (step : Int) :
    (table.offerPlay program seat step phase).countP Choice.isPlay =
      if step < phase.maxCards ∧ phase.minCards - step ≤ (table.hand seat).length then
        (table.hand seat).countP (table.mayPlay program seat phase)
      else
        0 := by
  have pass (listed : Prop) [Decidable listed] :
      (if listed then [Choice.pass] else []).countP Choice.isPlay = 0 := by
    split <;> rfl
  unfold offerPlay
  dsimp only
  rw [List.countP_append, pass, Nat.add_zero]
  have plays (place : Int) : (Choice.play place phase.target).isPlay = true := rfl
  have offered := countP_offerCards (.play · phase.target) plays (table.hand seat)
    (table.mayPlay program seat phase)
  -- The offer asks for one card at least, which makes a difference to an empty hand only.
  rcases List.eq_nil_or_concat (table.hand seat) with empty | ⟨_, _, held⟩
  · rw [empty]
    simp
  · have some : 1 ≤ (table.hand seat).length := by
      rw [held, List.length_concat]
      exact Nat.le_add_left 1 _
    have enough : (step < phase.maxCards ∧
        ((table.hand seat).length : Int) ≥ max (max (phase.minCards - step) 0) 1) ↔
          step < phase.maxCards ∧ phase.minCards - step ≤ (table.hand seat).length := by
      omega
    by_cases takes : step < phase.maxCards ∧ phase.minCards - step ≤ (table.hand seat).length
    · rw [if_pos takes, if_pos (enough.mpr takes), offered]
    · rw [if_neg takes, if_neg (mt enough.mp takes), List.countP_nil]

theorem countP_movesFor (first : program.FirstPlay index phase)
    (fresh : table.stepIn seat index = 0) :
    (table.movesFor program seat index).countP (·.choice.isPlay) =
      if phase.Takes (table.hand seat) then
        (table.hand seat).countP (table.mayPlay program seat phase)
      else
        0 := by
  have found : program.phase? index = some (.play phase) := by
    unfold Program.phase?
    rw [if_neg (Int.not_lt.mpr (Int.natCast_nonneg index)), Int.toNat_natCast, first.here]
  unfold movesFor
  rw [found]
  dsimp only
  rw [List.countP_map]
  change (table.offerPlay program seat (table.stepIn seat index) phase).countP Choice.isPlay = _
  rw [fresh, countP_offerPlay]
  simp only [Int.sub_zero]
  rfl

/-- In the first play phase of a program, for a participant who has not begun it: no more cards are
on offer than count as playable. If the phase takes any card from the hand, there are as many
exactly if every card that counts could also be played, as is the case if all conditions of the
phase that ask for the count hold. -/
theorem offered_le_playableCount (first : program.FirstPlay index phase)
    (fresh : table.stepIn seat index = 0) :
    let offered := (table.movesFor program seat index).countP (·.choice.isPlay)
    let playable := table.playableCount program seat
    offered ≤ playable ∧
      (phase.Takes (table.hand seat) →
        (offered = playable ↔ ∀ card ∈ table.hand seat,
          table.isPlayable program seat phase card = true →
            table.mayPlay program seat phase card = true) ∧
        (table.CountsHold program seat phase → offered = playable)) := by
  intro offered playable
  have count : playable = _ := playableCount_eq first table seat
  have moves : offered = _ := countP_movesFor first fresh
  rw [count, moves]
  refine ⟨?_, fun takes => ?_⟩
  · split
    · exact List.countP_mono_left fun _ _ => isPlayable_of_mayPlay
    · exact Nat.zero_le _
  · rw [if_pos takes, countP_eq_iff_of_imp fun _ _ => isPlayable_of_mayPlay]
    exact ⟨Iff.rfl, fun counts _ _ => mayPlay_of_isPlayable counts⟩

/-- Two of three cards follow suit, so the condition that asks for two playable cards holds. -/
theorem offered_le_playableCount_twoCards :
    let phase : PlayPhase :=
      { maxCards := 2
        conditions :=
          { conditions :=
              [{ kind := .matchesSuit, reference := 1 },
                { kind := .playableCount, comparison := .greaterEqual, value := 2 }] } }
    let program : Program := { phases := [.draw {}, .play phase] }
    let table : Table :=
      { players := [{ hand := [⟨.three, .hearts⟩, ⟨.king, .diamonds⟩, ⟨.six, .hearts⟩] }, {}]
        discard := [⟨.nine, .hearts⟩] }
    program.FirstPlay 1 phase ∧ table.stepIn 0 1 = 0 ∧ phase.Takes (table.hand 0) ∧
      table.CountsHold program 0 phase ∧ table.playableCount program 0 = 2 ∧
      (table.movesFor program 0 1).countP (·.choice.isPlay) = 2 := by
  intro phase program table
  have first : program.FirstPlay 1 phase := ⟨rfl, by decide⟩
  have fresh : table.stepIn 0 1 = 0 := by decide
  have takes : phase.Takes (table.hand 0) := by decide
  have two : table.playableCount program 0 = 2 := by decide
  have counts : table.CountsHold program 0 phase := by
    intro condition member asks
    rw [two]
    rcases List.mem_pair.mp member with rfl | rfl
    · cases asks
    · decide
  have same := (offered_le_playableCount first fresh).2 takes |>.2 counts
  exact ⟨first, fresh, takes, counts, two, same.trans two⟩

/-- With one card in the hand: it counts, but cannot be played where two playable cards are asked
for, or where two cards have to be played. -/
theorem playableCount_beyond_offers :
    let table : Table := { players := [{ hand := [⟨.four, .clubs⟩] }, {}] }
    let asking : PlayPhase :=
      { conditions :=
          { conditions :=
              [{ kind := .playableCount, comparison := .greaterEqual, value := 2 }] } }
    let paired : PlayPhase := { minCards := 2, maxCards := 2 }
    let asked : Program := { phases := [.play asking] }
    let pairs : Program := { phases := [.play paired] }
    table.stepIn 0 0 = 0 ∧ asked.FirstPlay 0 asking ∧ pairs.FirstPlay 0 paired ∧
      asking.Takes (table.hand 0) ∧ table.playableCount asked 0 = 1 ∧
      (table.movesFor asked 0 0).countP (·.choice.isPlay) = 0 ∧
      table.playableCount pairs 0 = 1 ∧
      (table.movesFor pairs 0 0).countP (·.choice.isPlay) = 0 := by
  intro table asking paired asked pairs
  exact ⟨by decide, ⟨rfl, by decide⟩, ⟨rfl, by decide⟩, by decide, by decide, by decide, by decide,
    by decide⟩

end Table

end Croupier
