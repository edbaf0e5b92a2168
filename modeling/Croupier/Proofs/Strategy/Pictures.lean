/-
What a picture of the table gives away.

A participant pictures the table by shuffling the cards of the deck and of the other hands among
themselves. Everything else is taken over from the table as it is, the card of a pending claim
included. Tables that differ in cards which the participant cannot see are therefore pictured alike
exactly if the claimed card is the same at both.
-/

import Croupier.Proofs.Play.Run
import Croupier.Proofs.Play.View
import Croupier.Proofs.Random.Shuffles
import Croupier.Strategy.Imagine

namespace Croupier

namespace Table

variable {table left right : Table} {seat : Int} {cards : List Card}

/-! ### Pictures -/

/-- The table with the given cards where a participant sees none, and a fresh generator. -/
def pictured (table : Table) (seat : Int) (cards : List Card) (seed : UInt64) : Table :=
  { table.redistribute seat cards with generator := .seeded seed }

/-- All pictures of the table that a participant can get, over all shuffles and seeds. -/
def pictures (table : Table) (seat : Int) : Set Table :=
  { picture | ∃ seed places, Draw.Fits ((table.hiddenFrom seat).length - 1) places ∧
    picture = table.pictured seat
      (Draw.arrange (table.hiddenFrom seat).toArray
        ((table.hiddenFrom seat).length - 1) places).toList seed }

theorem imagine_mem_pictures (table : Table) (seat : Int) (generator : Generator) :
    (table.imagine seat generator).1 ∈ table.pictures seat := by
  have fits := Draw.fits_places Generator.next ((table.hiddenFrom seat).length - 1)
    generator.next.2
  exact ⟨generator.next.1, _, fits, rfl⟩

/-- Every order of the hidden cards belongs to a picture. -/
theorem mem_pictures_iff {picture : Table} :
    picture ∈ table.pictures seat ↔
      ∃ seed cards, cards.Perm (table.hiddenFrom seat) ∧
        picture = table.pictured seat cards seed := by
  constructor
  · rintro ⟨seed, places, fits, rfl⟩
    exact ⟨seed, _, Draw.exists_fits_arrange_iff.mp ⟨places, fits, rfl⟩, rfl⟩
  · rintro ⟨seed, cards, permuted, rfl⟩
    obtain ⟨places, fits, rfl⟩ := Draw.exists_fits_arrange_iff.mpr permuted
    exact ⟨seed, places, fits, rfl⟩

/-- The pictures are those that some raw words lead to. -/
theorem mem_pictures_iff_drawn {picture : Table}
    (few : (table.hiddenFrom seat).length < 2 ^ 64) :
    picture ∈ table.pictures seat ↔
      ∃ seed words, picture =
        table.pictured seat (Draw.shuffle Draw.fromWords (table.hiddenFrom seat) words).1 seed := by
  constructor
  · rintro ⟨seed, places, fits, rfl⟩
    have drawn := Draw.places_fromWords fits (by omega)
    refine ⟨seed, places.map Nat.toUInt64, ?_⟩
    unfold Draw.shuffle
    dsimp only
    rw [drawn]
  · rintro ⟨seed, words, rfl⟩
    exact ⟨seed, _, Draw.fits_places Draw.fromWords _ words, rfl⟩

theorem refillHands_cover (keeper : Int) (players : List Player) (first : Nat)
    (cards : List Card) :
    refillHands keeper ((players.zipIdx first).map fun (player, place) =>
      if place = keeper then player else player.cover) first cards =
        refillHands keeper players first cards := by
  induction players generalizing first cards with
  | nil => rfl
  | cons player rest ih =>
      have behind (cards : List Card) := ih (first + 1) cards
      push_cast at behind
      rw [List.zipIdx_cons, List.map_cons]
      dsimp only
      unfold refillHands
      by_cases own : (first : Int) = keeper
      · simp only [if_pos own, behind]
      · simp only [if_neg own, behind]
        unfold Player.cover
        rw [length_faceDown]

/-- The hidden cards of the table itself have no part in a picture. -/
theorem redistribute_coverHidden (table : Table) (seat : Int) (cards : List Card) :
    (table.coverHidden seat).redistribute seat cards = table.redistribute seat cards := by
  unfold redistribute
  have deck : (table.coverHidden seat).deck.length = table.deck.length := length_faceDown _
  have players : refillHands seat (table.coverHidden seat).players 0
      (cards.drop table.deck.length) =
        refillHands seat table.players 0 (cards.drop table.deck.length) :=
    refillHands_cover seat table.players 0 _
  rw [deck]
  dsimp only
  rw [players]
  rfl

/-! ### Unseen cards -/

/-- Whether the card of a claim that can be challenged lies face down before a participant. -/
def claimHides (table : Table) (seat : Int) : Bool :=
  table.claim.pending && table.claim.claimant ≠ seat

/-- The table with all cards face down that a participant cannot see. -/
def coverUnseen (table : Table) (seat : Int) : Table :=
  { table.coverHidden seat with
    discard :=
      if table.claimHides seat then
        table.discard.dropLast ++ faceDown table.discard.getLast?.toList
      else
        table.discard
    claim := if table.claimHides seat then { table.claim with card := {} } else table.claim
    generator := default }

/-- The cards that a participant cannot see, that of a pending claim among them. -/
def unseenFrom (table : Table) (seat : Int) : List Card :=
  table.hiddenFrom seat ++ if table.claimHides seat then [table.claim.card] else []

theorem pictured_eq_of_cover (cards : List Card) (seed : UInt64)
    (covered : { left.coverHidden seat with generator := default } =
      { right.coverHidden seat with generator := default }) :
    left.pictured seat cards seed = right.pictured seat cards seed := by
  have same := congrArg (fun table : Table => table.pictured seat cards seed) covered
  unfold pictured at same ⊢
  rw [← redistribute_coverHidden left, ← redistribute_coverHidden right]
  exact same

theorem claimHides_coverUnseen (table : Table) (seat : Int) :
    (table.coverUnseen seat).claimHides seat = table.claimHides seat := by
  unfold claimHides coverUnseen
  dsimp only
  split <;> rfl

/-- The claimed card and the discard pile are all that is covered besides the hidden cards. -/
theorem cover_eq_coverUnseen (table : Table) (seat : Int) :
    { table.coverHidden seat with generator := default } =
      { table.coverUnseen seat with
        discard := table.discard
        claim := { (table.coverUnseen seat).claim with card := table.claim.card } } := by
  have claim : { (table.coverUnseen seat).claim with card := table.claim.card } = table.claim := by
    unfold coverUnseen
    dsimp only
    split <;> rfl
  rw [claim]
  rfl

/-- Tables that look alike are pictured alike if nothing but the hidden cards differs. -/
theorem pictures_eq (covered : left.coverUnseen seat = right.coverUnseen seat)
    (same : (left.unseenFrom seat).Perm (right.unseenFrom seat))
    (claimed : left.claim.card = right.claim.card) (discard : left.discard = right.discard) :
    left.pictures seat = right.pictures seat := by
  have hides : left.claimHides seat = right.claimHides seat := by
    rw [← claimHides_coverUnseen left, covered, claimHides_coverUnseen]
  have hidden : (left.hiddenFrom seat).Perm (right.hiddenFrom seat) := by
    unfold unseenFrom at same
    rw [hides, claimed] at same
    exact (List.perm_append_right_iff _).mp same
  have alike : { left.coverHidden seat with generator := default } =
      { right.coverHidden seat with generator := default } := by
    rw [cover_eq_coverUnseen, cover_eq_coverUnseen, covered, claimed, discard]
  ext picture
  rw [mem_pictures_iff, mem_pictures_iff]
  constructor
  · rintro ⟨seed, cards, permuted, rfl⟩
    exact ⟨seed, cards, permuted.trans hidden, pictured_eq_of_cover cards seed alike⟩
  · rintro ⟨seed, cards, permuted, rfl⟩
    exact ⟨seed, cards, permuted.trans hidden.symm, (pictured_eq_of_cover cards seed alike).symm⟩

/-- Every picture shows the claimed card and the discard pile of the table. -/
theorem claim_discard_of_mem_pictures {picture : Table} (member : picture ∈ table.pictures seat) :
    picture.claim = table.claim ∧ picture.discard = table.discard := by
  obtain ⟨seed, places, _, rfl⟩ := member
  exact ⟨rfl, rfl⟩

theorem shown_of_pictures_eq (alike : left.pictures seat = right.pictures seat) :
    left.claim = right.claim ∧ left.discard = right.discard := by
  have member := imagine_mem_pictures left seat default
  obtain ⟨claim, discard⟩ := claim_discard_of_mem_pictures member
  rw [alike] at member
  obtain ⟨otherClaim, otherDiscard⟩ := claim_discard_of_mem_pictures member
  exact ⟨claim.symm.trans otherClaim, discard.symm.trans otherDiscard⟩

/-- Of two tables that look alike, with the same unseen cards, a participant gets the same pictures
unless the claim of another one is pending. Then both are pictured alike exactly if the claimed
card, face down on the discard pile, is the same. -/
theorem pictures_of_unseen (covered : left.coverUnseen seat = right.coverUnseen seat)
    (same : (left.unseenFrom seat).Perm (right.unseenFrom seat)) :
    (∀ generator, (left.imagine seat generator).1 ∈ left.pictures seat) ∧
      (left.claimHides seat = false → left.pictures seat = right.pictures seat) ∧
      (left.pictures seat = right.pictures seat ↔
        left.claim.card = right.claim.card ∧ left.discard = right.discard) := by
  refine ⟨imagine_mem_pictures left seat, ?_, ?_, ?_⟩
  · intro shown
    have hides : right.claimHides seat = false := by
      rw [← claimHides_coverUnseen, ← covered, claimHides_coverUnseen, shown]
    have claim := congrArg Table.claim covered
    have discard := congrArg Table.discard covered
    unfold coverUnseen at claim discard
    simp only [shown, hides, Bool.false_eq_true, if_false] at claim discard
    exact pictures_eq covered same (congrArg Claim.card claim) discard
  · intro alike
    obtain ⟨claim, discard⟩ := shown_of_pictures_eq alike
    exact ⟨congrArg Claim.card claim, discard⟩
  · rintro ⟨claimed, discard⟩
    exact pictures_eq covered same claimed discard

theorem pictures_of_unseen_ownClaim :
    let claim : Claim := { pending := true, claimant := 0, card := ⟨.ten, .spades⟩ }
    let left : Table :=
      { players := [{}, { hand := [⟨.two, .clubs⟩, ⟨.ace, .hearts⟩] }]
        deck := [⟨.nine, .hearts⟩], discard := [⟨.ten, .spades⟩], claim := claim }
    let right : Table :=
      { players := [{}, { hand := [⟨.nine, .hearts⟩, ⟨.two, .clubs⟩] }]
        deck := [⟨.ace, .hearts⟩], discard := [⟨.ten, .spades⟩], claim := claim }
    left ≠ right ∧ left.coverUnseen 0 = right.coverUnseen 0 ∧
      left.pictures 0 = right.pictures 0 := by
  intro claim left right
  have covered : left.coverUnseen 0 = right.coverUnseen 0 := rfl
  have same : (left.unseenFrom 0).Perm (right.unseenFrom 0) := by decide
  obtain ⟨_, shown, _⟩ := pictures_of_unseen covered same
  exact ⟨by decide, covered, shown rfl⟩

end Table

/-- A game of claims alone. -/
def claimGame : Program :=
  shortGame [.claim {}]

/-- The second participant cannot see which of two cards the first one claims with, but does not
get the same pictures. -/
theorem Reached.pictures_show_claim :
    Program.decode claimGame.encode = .ok claimGame ∧
      ∃ left right, Reached claimGame 7 .open left ∧ Reached claimGame 7 .open right ∧
        left.claimHides 1 = true ∧ left.generator = right.generator ∧
        left.coverUnseen 1 = right.coverUnseen 1 ∧
        (left.unseenFrom 1).Perm (right.unseenFrom 1) ∧
        left.pictures 1 ≠ right.pictures 1 := by
  have accepted : Program.decode claimGame.encode = .ok claimGame := by decide +kernel
  have start := Table.start_of_decode accepted 7 {}
  have distinct : (Table.opening claimGame 7).cards.Nodup := by
    have inRange := Program.inRange_of_decode accepted
    have dealt := Table.absorbs_opening inRange.header.participants.1 7
    have unrepeated : claimGame.deck.Nodup := by decide +kernel
    exact dealt.perm_deck.nodup_iff.mpr unrepeated
  obtain ⟨first, second, third, fourth, deck, generator, dealt⟩ :=
    Table.exists_opening_shortGame [.claim {}] 7
  refine ⟨accepted, ?_⟩
  unfold claimGame at start distinct ⊢
  rw [dealt] at start distinct
  have other : first ≠ third := by
    have hands : [first, third, second, fourth].Nodup :=
      (List.nodup_append.mp (List.nodup_append.mp distinct).1).2.1
    intro same
    exact (List.nodup_cons.mp hands).1 (same ▸ List.mem_cons_self)
  have left := @Reached.step _ _ _ _ .open (.move ⟨0, .claim 0⟩) (.start start)
    (List.mem_of_getElem? (i := 0) rfl) rfl
  have right := @Reached.step _ _ _ _ .open (.move ⟨0, .claim 1⟩) (.start start)
    (List.mem_of_getElem? (i := 1) rfl) rfl
  refine ⟨_, _, left, right, rfl, rfl, rfl, ?_, ?_⟩
  · change (deck ++ [third] ++ [first]).Perm (deck ++ [first] ++ [third])
    rw [List.append_assoc, List.append_assoc]
    exact (List.Perm.swap first third []).append_left deck
  · intro alike
    exact other (congrArg Claim.card (Table.shown_of_pictures_eq alike).1)

end Croupier
