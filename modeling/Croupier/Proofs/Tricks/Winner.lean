/-
Which card of a trick wins.

A running best is kept, and a later card takes its place only if it is strictly better. What is
better goes by the strength of the suit and then by the rank, the sense of which may be turned
round, but an off-suit card is as good as any other. So one number can be given to each card, its
height under the suit that was led, and the running best is the first card of the greatest height.
The card that was led is never off suit, so neither is the winner, and among the cards that contend
with the winner the height says as much as the rank.
-/

import Croupier.Rules.Trick
import Mathlib

namespace Croupier.TrickPhase

variable {phase : TrickPhase} {lead : Suit} {card best winner : Card} {cards : List Card}
  {place : Nat}

/-! ### Contenders -/

def IsTrump (phase : TrickPhase) (card : Card) : Prop :=
  phase.trump = some (.suit card.suit)

instance (phase : TrickPhase) (card : Card) : Decidable (phase.IsTrump card) :=
  inferInstanceAs (Decidable (_ = _))

/-- A card can win a trick if it is trump or, where no trump was played, of the suit that was
led. -/
def Contends (phase : TrickPhase) (cards : List Card) (card : Card) : Prop :=
  phase.IsTrump card ∨
    (∀ other ∈ cards, ¬phase.IsTrump other) ∧ cards.head?.map Card.suit = some card.suit

instance (phase : TrickPhase) (cards : List Card) (card : Card) :
    Decidable (phase.Contends cards card) :=
  inferInstanceAs (Decidable (_ ∨ _))

/-- The card at a place wins: it is a contender of extreme rank, and none of that rank was played
before it. -/
structure Wins (phase : TrickPhase) (cards : List Card) (place : Nat) (winner : Card) : Prop where
  laid : cards[place]? = some winner
  contends : phase.Contends cards winner
  highest : phase.highCardWins = true →
    ∀ other ∈ cards, phase.Contends cards other → other.rank.index ≤ winner.rank.index
  lowest : phase.highCardWins = false →
    ∀ other ∈ cards, phase.Contends cards other → winner.rank.index ≤ other.rank.index
  first : ∀ earlier other, earlier < place → cards[earlier]? = some other →
    phase.Contends cards other → other.rank ≠ winner.rank

/-- Contenders of the rank of a winner were not played before it. -/
theorem Wins.le {other : Nat} {rival : Card} (wins : phase.Wins cards place winner)
    (also : phase.Wins cards other rival) : place ≤ other := by
  have known := List.mem_of_getElem? wins.laid
  have listed := List.mem_of_getElem? also.laid
  have same : rival.rank = winner.rank := by
    apply Rank.index_injective
    cases high : phase.highCardWins with
    | true =>
        exact Nat.le_antisymm (wins.highest high rival listed also.contends)
          (also.highest high winner known wins.contends)
    | false =>
        exact Nat.le_antisymm (also.lowest high winner known wins.contends)
          (wins.lowest high rival listed also.contends)
  by_contra before
  exact wins.first other rival (Nat.lt_of_not_le before) also.laid also.contends same

/-! ### Heights -/

/-- How good a rank is, from zero up. -/
def rankHeight (phase : TrickPhase) (rank : Rank) : Nat :=
  if phase.highCardWins then rank.index else 12 - rank.index

/-- How good a card is in a trick. All cards off suit are equally bad. -/
def height (phase : TrickPhase) (lead : Suit) (card : Card) : Nat :=
  if phase.suitStrength lead card = 0 then
    0
  else
    phase.suitStrength lead card * Rank.count + phase.rankHeight card.rank

theorem rankHeight_lt (phase : TrickPhase) (rank : Rank) :
    phase.rankHeight rank < Rank.count := by
  have bound := rank.index_lt_count
  unfold rankHeight
  unfold Rank.count at bound ⊢
  split <;> omega

theorem rankHeight_lt_iff {left right : Rank} :
    phase.rankHeight left < phase.rankHeight right ↔
      if phase.highCardWins then left.index < right.index else right.index < left.index := by
  have leftBound := left.index_lt_count
  have rightBound := right.index_lt_count
  unfold Rank.count at leftBound rightBound
  unfold rankHeight
  split <;> omega

/-- The suit decides before the rank does. -/
theorem height_lt_iff :
    phase.height lead best < phase.height lead card ↔
      phase.suitStrength lead best < phase.suitStrength lead card ∨
        phase.suitStrength lead best = phase.suitStrength lead card ∧
          0 < phase.suitStrength lead card ∧
            phase.rankHeight best.rank < phase.rankHeight card.rank := by
  have bestBound := phase.rankHeight_lt best.rank
  have cardBound := phase.rankHeight_lt card.rank
  unfold Rank.count at bestBound cardBound
  unfold height Rank.count
  split <;> split <;> omega

theorem beats_iff :
    phase.beats lead card best = true ↔ phase.height lead best < phase.height lead card := by
  rw [height_lt_iff, rankHeight_lt_iff]
  unfold beats
  dsimp only
  rw [Bool.or_eq_true, Bool.and_eq_true, Bool.and_eq_true]
  simp only [decide_eq_true_eq, and_assoc]
  refine or_congr Iff.rfl (and_congr eq_comm (and_congr Iff.rfl ?_))
  split
  · exact decide_eq_true_iff
  · exact decide_eq_true_iff

/-! ### The scan -/

/-- The running best is the first of the greatest height: the place is known by the cards that are
still to come, whatever the best card so far. -/
theorem exists_bestFrom (phase : TrickPhase) (lead : Suit) (best : Card) (place : Nat)
    (later : List (Card × Nat)) (ordered : ((best, place) :: later).Pairwise (·.2 < ·.2)) :
    ∃ winner, (winner, phase.bestFrom lead place best later) ∈ (best, place) :: later ∧
      ∀ entry ∈ (best, place) :: later, phase.height lead entry.1 ≤ phase.height lead winner ∧
        (phase.height lead entry.1 = phase.height lead winner →
          phase.bestFrom lead place best later ≤ entry.2) := by
  induction later generalizing best place with
  | nil =>
      refine ⟨best, List.mem_cons_self, ?_⟩
      intro entry member
      rw [List.mem_singleton.mp member]
      exact ⟨Nat.le_refl _, fun _ => Nat.le_refl _⟩
  | cons next rest ih =>
      obtain ⟨card, after⟩ := next
      obtain ⟨follows, ordered⟩ := List.pairwise_cons.mp ordered
      unfold bestFrom
      by_cases better : phase.beats lead card best = true
      · rw [if_pos better]
        have higher := beats_iff.mp better
        obtain ⟨winner, member, greatest⟩ := ih card after ordered
        refine ⟨winner, List.mem_cons_of_mem _ member, ?_⟩
        intro entry listed
        rcases List.mem_cons.mp listed with rfl | listed
        · have below := (greatest (card, after) List.mem_cons_self).1
          dsimp only at below ⊢
          omega
        · exact greatest entry listed
      · rw [if_neg better]
        have lower := Nat.le_of_not_lt (mt beats_iff.mpr better)
        have apart : ((best, place) :: rest).Pairwise (·.2 < ·.2) :=
          List.pairwise_cons.mpr
            ⟨fun entry member => follows entry (List.mem_cons_of_mem _ member), ordered.of_cons⟩
        obtain ⟨winner, member, greatest⟩ := ih best place apart
        have below := greatest (best, place) List.mem_cons_self
        refine ⟨winner, ?_, ?_⟩
        · rcases List.mem_cons.mp member with here | there
          · rw [here]
            exact List.mem_cons_self
          · exact List.mem_cons_of_mem _ (List.mem_cons_of_mem _ there)
        · intro entry listed
          rcases List.mem_cons.mp listed with rfl | listed
          · exact below
          · rcases List.mem_cons.mp listed with rfl | listed
            · have waits : place < after := follows _ List.mem_cons_self
              dsimp only at below ⊢
              omega
            · exact greatest entry (List.mem_cons_of_mem _ listed)

theorem exists_winningPlace (phase : TrickPhase) (lead : Card) (rest : List Card) :
    ∃ winner, (lead :: rest)[phase.winningPlace (lead :: rest)]? = some winner ∧
      ∀ (place : Nat) (other : Card), (lead :: rest)[place]? = some other →
        phase.height lead.suit other ≤ phase.height lead.suit winner ∧
          (phase.height lead.suit other = phase.height lead.suit winner →
            phase.winningPlace (lead :: rest) ≤ place) := by
  have ordered : ((lead :: rest).zipIdx).Pairwise (·.2 < ·.2) := by
    rw [← List.pairwise_map (f := Prod.snd) (R := (· < ·)), List.zipIdx_map_snd]
    exact List.pairwise_lt_range'
  obtain ⟨winner, member, greatest⟩ :=
    phase.exists_bestFrom lead.suit lead 0 (rest.zipIdx 1) ordered
  have numbered (place : Nat) (card : Card) :
      (card, place) ∈ (lead, 0) :: rest.zipIdx 1 ↔ (lead :: rest)[place]? = some card :=
    List.mem_zipIdx_iff_getElem? (x := (card, place)) (l := lead :: rest)
  refine ⟨winner, (numbered _ winner).mp member, ?_⟩
  intro place other laid
  exact greatest (other, place) ((numbered place other).mpr laid)

/-! ### Heights of contenders -/

theorem suitStrength_of_trump (trump : phase.IsTrump card) : phase.suitStrength lead card = 2 :=
  if_pos trump

theorem suitStrength_of_plain (plain : ¬phase.IsTrump card) :
    phase.suitStrength lead card = if card.suit = lead then 1 else 0 :=
  if_neg plain

theorem suitStrength_le_of_height_le
    (lower : phase.height lead card ≤ phase.height lead winner) :
    phase.suitStrength lead card ≤ phase.suitStrength lead winner := by
  by_contra weaker
  have higher := height_lt_iff.mpr (.inl (Nat.lt_of_not_le weaker))
  omega

/-- A card that is as good as all others contends. -/
theorem contends_of_greatest {first : Card} {rest : List Card}
    (greatest : ∀ other ∈ first :: rest,
      phase.height first.suit other ≤ phase.height first.suit winner) :
    phase.Contends (first :: rest) winner := by
  have strongest (other : Card) (listed : other ∈ first :: rest) :=
    suitStrength_le_of_height_le (greatest other listed)
  by_cases trump : phase.IsTrump winner
  · exact .inl trump
  · have strength : phase.suitStrength first.suit winner = _ := suitStrength_of_plain trump
    refine .inr ⟨?_, ?_⟩
    · intro other listed also
      have weaker := strongest other listed
      rw [suitStrength_of_trump also, strength] at weaker
      split at weaker <;> omega
    · have leads := strongest first List.mem_cons_self
      have positive : 0 < phase.suitStrength first.suit first := by
        unfold suitStrength
        split
        · exact Nat.zero_lt_two
        · rw [if_pos rfl]
          exact Nat.zero_lt_one
      by_contra different
      rw [strength, if_neg fun same => different (congrArg some same.symm)] at leads
      omega

/-- Either all contenders are trump, or none is and all are of the suit that was led. -/
theorem Contends.suitStrength_eq {first : Card} {rest : List Card} {other : Card}
    (contends : phase.Contends (first :: rest) card) (also : phase.Contends (first :: rest) other)
    (listed : card ∈ first :: rest) (known : other ∈ first :: rest) :
    phase.suitStrength first.suit card = phase.suitStrength first.suit other ∧
      0 < phase.suitStrength first.suit other := by
  rcases contends with trump | ⟨plain, follows⟩
  · rcases also with also | ⟨plain, _⟩
    · rw [suitStrength_of_trump trump, suitStrength_of_trump also]
      exact ⟨rfl, Nat.zero_lt_two⟩
    · exact absurd trump (plain card listed)
  · rcases also with also | ⟨_, like⟩
    · exact absurd also (plain other known)
    · rw [suitStrength_of_plain (plain card listed), suitStrength_of_plain (plain other known),
        if_pos (Option.some.inj follows).symm, if_pos (Option.some.inj like).symm]
      exact ⟨rfl, Nat.zero_lt_one⟩

theorem wins_winningPlace (phase : TrickPhase) (laid : cards ≠ []) :
    ∃ winner, phase.Wins cards (phase.winningPlace cards) winner := by
  cases cards with
  | nil => exact absurd rfl laid
  | cons first rest =>
      obtain ⟨winner, won, greatest⟩ := phase.exists_winningPlace first rest
      have known := List.mem_of_getElem? won
      have contends : phase.Contends (first :: rest) winner := by
        apply contends_of_greatest
        intro other listed
        obtain ⟨place, found⟩ := List.mem_iff_getElem?.mp listed
        exact (greatest place other found).1
      have ranked (other : Card) (listed : other ∈ first :: rest)
          (also : phase.Contends (first :: rest) other) :
          ¬phase.rankHeight winner.rank < phase.rankHeight other.rank := by
        obtain ⟨place, found⟩ := List.mem_iff_getElem?.mp listed
        obtain ⟨same, some⟩ := contends.suitStrength_eq also known listed
        intro better
        have higher := height_lt_iff.mpr (.inr ⟨same, some, better⟩)
        exact Nat.not_lt.mpr (greatest place other found).1 higher
      refine ⟨winner, won, contends, ?_, ?_, ?_⟩
      · intro high other listed also
        have below := ranked other listed also
        rw [rankHeight_lt_iff, if_pos high] at below
        exact Nat.le_of_not_lt below
      · intro low other listed also
        have below := ranked other listed also
        rw [rankHeight_lt_iff, if_neg (Bool.eq_false_iff.mp low)] at below
        exact Nat.le_of_not_lt below
      · intro earlier other before found also same
        obtain ⟨strength, _⟩ := contends.suitStrength_eq also known (List.mem_of_getElem? found)
        have equal : phase.height first.suit other = phase.height first.suit winner := by
          unfold height
          rw [strength, same]
        exact Nat.not_lt.mpr ((greatest earlier other found).2 equal) before

/-- Of any cards whatever, the winning place is that of the first card of extreme rank among the
trumps or, where no trump was played, among the cards of the suit that was led; no other place is.
So a card that is neither trump nor of that suit never wins. -/
theorem winningPlace_of_cards (phase : TrickPhase) (laid : cards ≠ []) :
    (∀ place, phase.winningPlace cards = place ↔ ∃ winner, phase.Wins cards place winner) ∧
      ∀ winner, cards[phase.winningPlace cards]? = some winner →
        phase.IsTrump winner ∨ cards.head?.map Card.suit = some winner.suit := by
  obtain ⟨winner, wins⟩ := phase.wins_winningPlace laid
  constructor
  · intro place
    constructor
    · rintro rfl
      exact ⟨winner, wins⟩
    · rintro ⟨rival, also⟩
      exact Nat.le_antisymm (wins.le also) (also.le wins)
  · intro other found
    cases Option.some.inj (wins.laid.symm.trans found)
    exact wins.contends.imp id And.right

/-- Hearts are trump, and the higher one was played from both decks. -/
theorem winningPlace_of_cards_hearts :
    let phase : TrickPhase := { trump := some (.suit .hearts) }
    let cards : List Card :=
      [⟨.five, .clubs⟩, ⟨.ace, .clubs⟩, ⟨.two, .hearts⟩, ⟨.nine, .hearts⟩, ⟨.nine, .hearts⟩]
    cards ≠ [] ∧ (∃ winner, phase.Wins cards 3 winner) ∧ ¬(∃ winner, phase.Wins cards 4 winner) ∧
      (phase.IsTrump ⟨.nine, .hearts⟩ ∨ cards.head?.map Card.suit = some Suit.hearts) := by
  intro phase cards
  have laid : cards ≠ [] := nofun
  obtain ⟨wins, suited⟩ := phase.winningPlace_of_cards laid
  have place : phase.winningPlace cards = 3 := by decide
  refine ⟨laid, (wins 3).mp place, ?_, suited ⟨.nine, .hearts⟩ ?_⟩
  · intro other
    have elsewhere := (wins 4).mpr other
    rw [place] at elsewhere
    cases elsewhere
  · rw [place]
    rfl

end Croupier.TrickPhase
