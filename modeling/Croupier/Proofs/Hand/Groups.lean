/-
The ranks of a hand in groups.

Groups stand by their number of cards and then by rank. No two stand equally high, so a hand has one
list of groups. A further card enlarges the group of its rank, or makes a new one, and leaves all
others; so what groups add up to can be followed card by card.
-/

import Croupier.Proofs.Hand.Order

namespace Croupier.Hand

variable {hand : List Card} {group new : Nat × Rank} {found : List (Nat × Rank)}

/-! ### One list of groups -/

/-- How high a group stands: by the number of its cards and then by their rank. -/
def height (group : Nat × Rank) : Nat :=
  group.1 * Rank.count + group.2.index

def Descending (groups : List (Nat × Rank)) : Prop :=
  groups.Pairwise fun upper lower => height lower < height upper

theorem height_lt_iff {lower upper : Nat × Rank} :
    height lower < height upper ↔
      lower.1 < upper.1 ∨ lower.1 = upper.1 ∧ lower.2.index < upper.2.index := by
  have low := lower.2.index_lt_count
  have high := upper.2.index_lt_count
  simp only [height, Rank.count] at *
  omega

theorem Descending.nodup (sorted : Descending found) : found.Nodup := by
  refine List.Pairwise.imp ?_ sorted
  rintro group _ lower rfl
  exact Nat.lt_irrefl _ lower

theorem Descending.eq_of_perm {other : List (Nat × Rank)} (sorted : Descending found)
    (otherSorted : Descending other) (same : found.Perm other) : found = other :=
  same.eq_of_pairwise (fun _ _ _ _ lower upper => absurd lower (Nat.lt_asymm upper)) sorted
    otherSorted

theorem mem_insertGroup : group ∈ insertGroup new found ↔ group = new ∨ group ∈ found := by
  induction found with
  | nil => simp [insertGroup]
  | cons first rest ih =>
      rw [insertGroup]
      split
      · exact List.mem_cons
      · rw [List.mem_cons, ih, List.mem_cons, or_left_comm]

theorem Descending.insertGroup (sorted : Descending found)
    (below : ∀ group ∈ found, group.2.index < new.2.index) :
    Descending (insertGroup new found) := by
  induction found with
  | nil => exact List.pairwise_singleton _ new
  | cons first rest ih =>
      obtain ⟨top, others⟩ := List.pairwise_cons.mp sorted
      have beneath := below first List.mem_cons_self
      rw [Hand.insertGroup]
      split
      -- A group of a higher rank belongs before the first one that is no larger.
      case isTrue few =>
        have higher : height first < height new :=
          height_lt_iff.mpr ((Nat.lt_or_eq_of_le few).imp_right fun same => ⟨same, beneath⟩)
        refine List.pairwise_cons.mpr ⟨fun group member => ?_, sorted⟩
        rcases List.mem_cons.mp member with rfl | later
        · exact higher
        · exact Nat.lt_trans (top group later) higher
      case isFalse more =>
        refine List.pairwise_cons.mpr ⟨fun group member => ?_, ih others fun group later =>
          below group (List.mem_cons_of_mem first later)⟩
        rcases mem_insertGroup.mp member with rfl | later
        · exact height_lt_iff.mpr (.inl (Nat.lt_of_not_le more))
        · exact top group later

/-- The groups found so far and that of one more rank, if there are cards of it. -/
def addGroup (hand : List Card) (found : List (Nat × Rank)) (rank : Rank) : List (Nat × Rank) :=
  if rankCount hand rank = 0 then found else insertGroup (rankCount hand rank, rank) found

theorem groups_eq_foldl (hand : List Card) : groups hand = Rank.all.foldl (addGroup hand) [] :=
  rfl

theorem mem_addGroup {rank : Rank} :
    group ∈ addGroup hand found rank ↔
      group ∈ found ∨ group.2 = rank ∧ 0 < group.1 ∧ group.1 = rankCount hand group.2 := by
  rw [addGroup]
  by_cases none : rankCount hand rank = 0
  · rw [if_pos none]
    refine (or_iff_left ?_).symm
    rintro ⟨rfl, filled, counted⟩
    exact absurd (counted.trans none) (Nat.ne_of_gt filled)
  · rw [if_neg none, mem_insertGroup, or_comm]
    refine or_congr_right ⟨?_, ?_⟩
    · rintro ⟨rfl, rfl⟩
      exact ⟨rfl, Nat.pos_of_ne_zero none, rfl⟩
    · rintro ⟨rfl, -, counted⟩
      exact Prod.ext counted rfl

theorem Descending.addGroup {rank : Rank} (sorted : Descending found)
    (below : ∀ group ∈ found, group.2.index < rank.index) :
    Descending (addGroup hand found rank) := by
  rw [Hand.addGroup]
  split
  · exact sorted
  · exact sorted.insertGroup below

theorem mem_foldl_addGroup {ranks : List Rank} :
    group ∈ ranks.foldl (addGroup hand) found ↔
      group ∈ found ∨ group.2 ∈ ranks ∧ 0 < group.1 ∧ group.1 = rankCount hand group.2 := by
  induction ranks generalizing found with
  | nil => simp
  | cons rank rest ih =>
      rw [List.foldl_cons, ih, mem_addGroup, List.mem_cons, or_and_right, or_assoc]

/-- Ranks that come in ascending order leave the groups in descending order. -/
theorem Descending.foldl_addGroup {ranks : List Rank} (sorted : Descending found)
    (ascending : ranks.Pairwise fun lower upper => lower.index < upper.index)
    (below : ∀ group ∈ found, ∀ rank ∈ ranks, group.2.index < rank.index) :
    Descending (ranks.foldl (Hand.addGroup hand) found) := by
  induction ranks generalizing found with
  | nil => exact sorted
  | cons rank rest ih =>
      obtain ⟨lowest, ascending⟩ := List.pairwise_cons.mp ascending
      have beneath : ∀ group ∈ found, group.2.index < rank.index := fun group member =>
        below group member rank List.mem_cons_self
      refine ih (sorted.addGroup beneath) ascending fun group member other later => ?_
      rcases mem_addGroup.mp member with earlier | ⟨same, -⟩
      · exact below group earlier other (List.mem_cons_of_mem rank later)
      · exact same ▸ lowest other later

theorem descending_groups (hand : List Card) : Descending (groups hand) := by
  have nothing : Descending [] := List.Pairwise.nil
  exact nothing.foldl_addGroup (by decide) fun _ member => absurd member List.not_mem_nil

theorem mem_groups_iff : group ∈ groups hand ↔ 0 < group.1 ∧ group.1 = rankCount hand group.2 := by
  rw [groups_eq_foldl, mem_foldl_addGroup, or_iff_right List.not_mem_nil,
    and_iff_right group.2.mem_all]

/-! ### A further card -/

/-- The groups of a hand but that of a rank. -/
def otherGroups (rank : Rank) (hand : List Card) : List (Nat × Rank) :=
  (groups hand).filter fun group => group.2 ≠ rank

theorem mem_otherGroups_iff {rank : Rank} :
    group ∈ otherGroups rank hand ↔
      (0 < group.1 ∧ group.1 = rankCount hand group.2) ∧ group.2 ≠ rank := by
  rw [otherGroups, List.mem_filter, mem_groups_iff, decide_eq_true_eq]

theorem nodup_otherGroups (rank : Rank) (hand : List Card) : (otherGroups rank hand).Nodup :=
  (descending_groups hand).nodup.filter _

theorem otherGroups_eq_self {rank : Rank} (none : rankCount hand rank = 0) :
    otherGroups rank hand = groups hand := by
  refine List.filter_eq_self.mpr fun group member => ?_
  obtain ⟨filled, size⟩ := mem_groups_iff.mp member
  rw [decide_eq_true_eq]
  intro same
  rw [same, none] at size
  exact absurd size (Nat.ne_of_gt filled)

theorem groups_perm_cons {rank : Rank} (held : 0 < rankCount hand rank) :
    (groups hand).Perm ((rankCount hand rank, rank) :: otherGroups rank hand) := by
  have apart : (rankCount hand rank, rank) ∉ otherGroups rank hand := fun member =>
    (mem_otherGroups_iff.mp member).2 rfl
  refine (List.perm_ext_iff_of_nodup (descending_groups hand).nodup
    (List.nodup_cons.mpr ⟨apart, nodup_otherGroups rank hand⟩)).mpr fun ⟨size, other⟩ => ?_
  rw [mem_groups_iff, List.mem_cons, mem_otherGroups_iff, Prod.mk.injEq]
  by_cases same : other = rank
  · subst same
    simp only [and_true, ne_eq, not_true_eq_false, and_false, or_false]
    omega
  · simp only [same, and_false, false_or, ne_eq, not_false_eq_true, and_true]

theorem otherGroups_cons_perm (card : Card) (hand : List Card) :
    (otherGroups card.rank (card :: hand)).Perm (otherGroups card.rank hand) := by
  refine (List.perm_ext_iff_of_nodup (nodup_otherGroups _ _) (nodup_otherGroups _ _)).mpr
    fun group => ?_
  rw [mem_otherGroups_iff, mem_otherGroups_iff]
  refine and_congr_left fun other => ?_
  rw [rankCount_cons, if_neg (Ne.symm other), Nat.add_zero]

theorem otherGroups_of_fresh {card : Card} (fresh : rankCount hand card.rank = 0) :
    otherGroups card.rank (card :: hand) = groups hand := by
  have same := otherGroups_cons_perm card hand
  rw [otherGroups_eq_self fresh] at same
  have sorted : Descending (otherGroups card.rank (card :: hand)) :=
    List.Pairwise.filter _ (descending_groups (card :: hand))
  exact sorted.eq_of_perm (descending_groups hand) same

/-- The groups, each of which is worth something by its size, with that of one rank singled out. -/
theorem sum_groups_eq (worth : Nat → Nat) (nothing : worth 0 = 0) (rank : Rank)
    (hand : List Card) :
    ((groups hand).map fun group => worth group.1).sum =
      worth (rankCount hand rank)
        + ((otherGroups rank hand).map fun group => worth group.1).sum := by
  rcases Nat.eq_zero_or_pos (rankCount hand rank) with none | held
  · rw [otherGroups_eq_self none, none, nothing, Nat.zero_add]
  · rw [((groups_perm_cons held).map _).sum_eq, List.map_cons, List.sum_cons]

theorem sum_groups_cons (worth : Nat → Nat) (nothing : worth 0 = 0) (card : Card)
    (hand : List Card) :
    ((groups (card :: hand)).map fun group => worth group.1).sum
        + worth (rankCount hand card.rank) =
      ((groups hand).map fun group => worth group.1).sum
        + worth (rankCount hand card.rank + 1) := by
  rw [sum_groups_eq worth nothing card.rank (card :: hand),
    sum_groups_eq worth nothing card.rank hand, ((otherGroups_cons_perm card hand).map _).sum_eq,
    rankCount_cons, if_pos rfl]
  omega

theorem sum_groups_eq_length (hand : List Card) :
    ((groups hand).map fun group => group.1).sum = hand.length := by
  induction hand with
  | nil => decide
  | cons card rest ih =>
      have grown := sum_groups_cons id rfl card rest
      simp only [id_eq, ih] at grown
      rw [List.length_cons]
      omega

/-- How many pairs of cards of a hand are of one rank. -/
def pairCount : List Card → Nat
  | [] => 0
  | card :: rest => rankCount rest card.rank + pairCount rest

theorem sum_groups_eq_pairCount (hand : List Card) :
    ((groups hand).map fun group => group.1.choose 2).sum = pairCount hand := by
  induction hand with
  | nil => decide
  | cons card rest ih =>
      have grown := sum_groups_cons (Nat.choose · 2) rfl card rest
      have more : (rankCount rest card.rank + 1).choose 2 =
          rankCount rest card.rank + (rankCount rest card.rank).choose 2 := by
        rw [Nat.choose_succ_succ' _ 1, Nat.choose_one_right]
      rw [ih, more] at grown
      rw [pairCount]
      omega

end Croupier.Hand
