/-
Bounded draws are uniform, whatever the bound.

The limit is the bound times some number, so the words below it divide into that many blocks in
which each residue occurs once. A word at or above the limit leaves no trace in a draw: the answer
and the source after it are those of a draw that begins behind the word.
-/

import Croupier.Random.Draw
import Mathlib.Data.Int.CardIntervalMod
import Mathlib.Data.Set.Card

namespace Croupier.Draw

variable {σ : Type} {next : σ → UInt64 × σ} {source : σ} {bound place : Nat}

/-! ### The words of a source -/

/-- The source after so many raw words. -/
def after (next : σ → UInt64 × σ) (count : Nat) (source : σ) : σ :=
  (fun source => (next source).2)^[count] source

/-- The raw word that a source hands out at a place, the first one at place zero. -/
def wordAt (next : σ → UInt64 × σ) (place : Nat) (source : σ) : UInt64 :=
  (next (after next place source)).1

/-- A list as a source of raw words. -/
def fromWords : List UInt64 → UInt64 × List UInt64
  | [] => (0, [])
  | word :: rest => (word, rest)

/-- The word at a place is the first one below the limit. -/
def First (next : σ → UInt64 × σ) (limit : UInt64) (place : Nat) (source : σ) : Prop :=
  wordAt next place source < limit ∧ ∀ earlier < place, ¬ wordAt next earlier source < limit

theorem exists_first {limit : UInt64} (some : ∃ place, wordAt next place source < limit) :
    ∃ place, First next limit place source :=
  ⟨Nat.find some, Nat.find_spec some, fun _ earlier => Nat.find_min some earlier⟩

theorem first_zero_iff {limit : UInt64} :
    First next limit 0 source ↔ (next source).1 < limit :=
  ⟨And.left, fun accepted => ⟨accepted, fun _ before => absurd before (Nat.not_lt_zero _)⟩⟩

theorem first_succ_iff {limit : UInt64} :
    First next limit (place + 1) source ↔
      ¬ (next source).1 < limit ∧ First next limit place (next source).2 := by
  constructor
  · rintro ⟨accepted, passed⟩
    exact ⟨passed 0 (Nat.succ_pos place), accepted,
      fun earlier before => passed (earlier + 1) (Nat.succ_lt_succ before)⟩
  · rintro ⟨refused, accepted, passed⟩
    refine ⟨accepted, fun earlier before => ?_⟩
    cases earlier with
    | zero => exact refused
    | succ earlier => exact passed earlier (Nat.lt_of_succ_lt_succ before)

/-- A search ends at the first word, or is one that begins behind it. -/
theorem firstBelow_eq (next : σ → UInt64 × σ) (limit : UInt64) (source : σ) :
    firstBelow next limit source =
      if (next source).1 < limit then next source
      else firstBelow next limit (next source).2 := by
  have inhabited : Nonempty (UInt64 × σ) := ⟨next source⟩
  -- A loop stands for the library's `repeatM` on its variables, which unrolls in the identity monad.
  change repeatM (m := Id) _ (next source) = _
  rw [repeatM_eq_of_monadTail]
  unfold repeatM.body
  dsimp only
  by_cases accepted : (next source).1 < limit
  · rw [if_pos accepted, if_neg (UInt64.not_le.mpr accepted)]
    rfl
  · rw [if_neg accepted, if_pos (UInt64.not_lt.mp accepted)]
    rfl

/-- A search finds the first word below the limit, at whatever place it is. -/
theorem firstBelow_of_first {limit : UInt64} (first : First next limit place source) :
    firstBelow next limit source =
      (wordAt next place source, after next (place + 1) source) := by
  induction place generalizing source with
  | zero =>
      rw [firstBelow_eq]
      exact if_pos (first_zero_iff.mp first)
  | succ place ih =>
      obtain ⟨refused, first⟩ := first_succ_iff.mp first
      rw [firstBelow_eq, if_neg refused]
      exact ih first

/-! ### The limit -/

theorem toNat_limit (bound : UInt64) :
    (limit bound).toNat = bound.toNat * ((2 ^ 64 - 1) / bound.toNat) := by
  have rest : (0xFFFFFFFFFFFFFFFF % bound).toNat = (2 ^ 64 - 1) % bound.toNat :=
    UInt64.toNat_mod _ _
  have whole := Nat.div_add_mod (2 ^ 64 - 1) bound.toNat
  unfold limit
  rw [UInt64.toNat_sub_of_le, rest]
  · change 2 ^ 64 - 1 - (2 ^ 64 - 1) % bound.toNat = _
    omega
  · rw [UInt64.le_iff_toNat_le, rest]
    exact Nat.mod_le _ _

/-- The limit of a draw is no less than the bound. -/
theorem lt_limit {word bound : UInt64} (less : word < bound) : word < limit bound := by
  rw [UInt64.lt_iff_toNat_lt] at less ⊢
  have most : bound.toNat ≤ 2 ^ 64 - 1 := Nat.le_of_lt_succ bound.toNat_lt
  have once : 0 < (2 ^ 64 - 1) / bound.toNat := Nat.div_pos most (Nat.zero_lt_of_lt less)
  rw [toNat_limit]
  exact less.trans_le (Nat.le_mul_of_pos_right _ once)

theorem toUInt64_ne_zero (positive : 0 < bound) (small : bound < 2 ^ 64) :
    bound.toUInt64 ≠ 0 := by
  intro zero
  have cut : bound.toUInt64.toNat = bound := UInt64.toNat_ofNat_of_lt' small
  rw [zero] at cut
  exact positive.ne cut

/-! ### Answers -/

/-- A draw answers with the residue of the first word below the limit, and leaves the source right
after this word. -/
theorem below_of_first (positive : 0 < bound) (small : bound < 2 ^ 64)
    (first : First next (limit bound.toUInt64) place source) :
    below next bound source =
      ((wordAt next place source).toNat % bound, after next (place + 1) source) := by
  have cut : bound.toUInt64.toNat = bound := UInt64.toNat_ofNat_of_lt' small
  unfold below
  dsimp only
  rw [if_neg (toUInt64_ne_zero positive small), firstBelow_of_first first]
  dsimp only
  rw [UInt64.toNat_mod, cut]

/-- Whether a draw below the bound that comes upon the word ends there with the answer, from
whatever source. -/
def Answers (bound : Nat) (word : UInt64) (answer : Nat) : Prop :=
  ∀ {σ : Type} (next : σ → UInt64 × σ) (source rest : σ), next source = (word, rest) →
    below next bound source = (answer, rest)

/-- Whether a draw below the bound ends at the word. -/
def Accepts (bound : Nat) (word : UInt64) : Prop :=
  ∃ answer, Answers bound word answer

theorem answers_iff (positive : 0 < bound) (small : bound < 2 ^ 64) {word : UInt64}
    {answer : Nat} :
    Answers bound word answer ↔ word < limit bound.toUInt64 ∧ answer = word.toNat % bound := by
  constructor
  · intro answers
    -- Behind the word lies a zero, at which a draw ends that has passed over the word.
    have drawn : below fromWords bound [word, 0] = (answer, [0]) := answers fromWords _ _ rfl
    by_cases accepted : word < limit bound.toUInt64
    · have first : First fromWords (limit bound.toUInt64) 0 [word, 0] :=
        first_zero_iff.mpr accepted
      have same := drawn.symm.trans (below_of_first positive small first)
      exact ⟨accepted, (Prod.mk.inj same).1⟩
    · have zero : (0 : UInt64) < limit bound.toUInt64 :=
        lt_limit (UInt64.pos_iff_ne_zero.mpr (toUInt64_ne_zero positive small))
      have second : First fromWords (limit bound.toUInt64) 1 [word, 0] :=
        first_succ_iff.mpr ⟨accepted, first_zero_iff.mpr zero⟩
      have same := drawn.symm.trans (below_of_first positive small second)
      cases (Prod.mk.inj same).2
  · rintro ⟨accepted, rfl⟩ σ next source rest read
    have head : wordAt next 0 source = word := congrArg Prod.fst read
    have first : First next (limit bound.toUInt64) 0 source := by
      rw [first_zero_iff, read]
      exact accepted
    rw [below_of_first positive small first, head]
    exact congrArg (_, ·) (congrArg Prod.snd read)

theorem accepts_iff (positive : 0 < bound) (small : bound < 2 ^ 64) {word : UInt64} :
    Accepts bound word ↔ word < limit bound.toUInt64 := by
  constructor
  · rintro ⟨answer, answers⟩
    exact ((answers_iff positive small).mp answers).1
  · intro accepted
    exact ⟨_, (answers_iff positive small).mpr ⟨accepted, rfl⟩⟩

/-- The words with an answer are, as numbers, those of its residue class below the limit. -/
theorem image_answers (positive : 0 < bound) (small : bound < 2 ^ 64) {answer : Nat}
    (less : answer < bound) :
    UInt64.toNat '' { word | Answers bound word answer } =
      ((Finset.range (limit bound.toUInt64).toNat).filter (· ≡ answer [MOD bound]) :
        Finset Nat) := by
  ext number
  rw [Finset.mem_coe, Finset.mem_filter, Finset.mem_range]
  constructor
  · rintro ⟨word, answers, rfl⟩
    obtain ⟨accepted, rfl⟩ := (answers_iff positive small).mp answers
    exact ⟨UInt64.lt_iff_toNat_lt.mp accepted, (Nat.mod_modEq _ _).symm⟩
  · rintro ⟨inside, same⟩
    have fits : number < 2 ^ 64 := inside.trans (limit bound.toUInt64).toNat_lt
    have named : (UInt64.ofNat number).toNat = number := UInt64.toNat_ofNat_of_lt' fits
    refine ⟨UInt64.ofNat number, (answers_iff positive small).mpr ⟨?_, ?_⟩, named⟩
    · rw [UInt64.lt_iff_toNat_lt, named]
      exact inside
    · rw [named, same, Nat.mod_eq_of_lt less]

/-- In so many blocks of numbers each residue occurs once for every block. -/
theorem count_modEq_mul (positive : 0 < bound) (blocks answer : Nat) :
    (bound * blocks).count (· ≡ answer [MOD bound]) = blocks := by
  rw [Nat.count_modEq_card _ positive, Nat.mul_div_cancel_left _ positive, Nat.mul_mod_right,
    if_neg (Nat.not_lt_zero _), Nat.add_zero]

theorem ncard_answers (positive : 0 < bound) (small : bound < 2 ^ 64) {answer : Nat}
    (less : answer < bound) :
    { word | Answers bound word answer }.ncard = (2 ^ 64 - 1) / bound := by
  have cut : bound.toUInt64.toNat = bound := UInt64.toNat_ofNat_of_lt' small
  have injective : Function.Injective UInt64.toNat := fun _ _ => UInt64.toNat_inj.mp
  rw [← Set.ncard_image_of_injective _ injective, image_answers positive small less,
    Set.ncard_coe_finset, ← Nat.count_eq_card_filter_range, toNat_limit, cut]
  exact count_modEq_mul positive _ answer

/-- A draw accepts the words below a limit that is a multiple of the bound and no others, and each
number below the bound is the answer to equally many of them. From a source that hands out such a
word, at whatever place, the draw answers with the residue of the first one and leaves the source
right after it. -/
theorem below_uniform (positive : 0 < bound) (small : bound < 2 ^ 64) :
    (limit bound.toUInt64).toNat = bound * ((2 ^ 64 - 1) / bound) ∧
    (∀ word, Accepts bound word ↔ word < limit bound.toUInt64) ∧
    (∀ word answer, Answers bound word answer → answer < bound) ∧
    (∀ answer < bound, { word | Answers bound word answer }.ncard = (2 ^ 64 - 1) / bound) ∧
    ∀ {σ : Type} (next : σ → UInt64 × σ) (source : σ),
      (∃ place, Accepts bound (wordAt next place source)) →
        ∃ place, Accepts bound (wordAt next place source) ∧
          (∀ earlier < place, ¬ Accepts bound (wordAt next earlier source)) ∧
          below next bound source =
            ((wordAt next place source).toNat % bound, after next (place + 1) source) := by
  have cut : bound.toUInt64.toNat = bound := UInt64.toNat_ofNat_of_lt' small
  refine ⟨?_, fun _ => accepts_iff positive small, ?_, ?_, ?_⟩
  · rw [toNat_limit, cut]
  · intro word answer answers
    obtain ⟨_, rfl⟩ := (answers_iff positive small).mp answers
    exact Nat.mod_lt _ positive
  · intro answer less
    exact ncard_answers positive small less
  · intro σ next source some
    simp only [accepts_iff positive small] at some ⊢
    obtain ⟨place, first⟩ := exists_first some
    exact ⟨place, first.1, first.2, below_of_first positive small first⟩

theorem below_uniform_ten :
    (0 < 10 ∧ 10 < 2 ^ 64 ∧
      Accepts 10 (wordAt fromWords 2 [18446744073709551615, 18446744073709551610, 27, 5])) ∧
    ¬ Accepts 10 18446744073709551610 ∧
    { word | Answers 10 word 7 }.ncard = 1844674407370955161 ∧
    below fromWords 10 [18446744073709551615, 18446744073709551610, 27, 5] = (7, [5]) := by
  have positive : 0 < 10 := by decide
  have small : 10 < 2 ^ 64 := by decide
  obtain ⟨_, accepts, _, answers, draws⟩ := below_uniform positive small
  have accepted : Accepts 10
      (wordAt fromWords 2 [18446744073709551615, 18446744073709551610, 27, 5]) :=
    (accepts 27).mpr (by decide)
  have refused : ∀ place < 2, ¬ Accepts 10
      (wordAt fromWords place [18446744073709551615, 18446744073709551610, 27, 5]) := by
    intro place before
    rw [accepts]
    obtain rfl | rfl : place = 0 ∨ place = 1 := by omega
    · decide
    · decide
  refine ⟨⟨positive, small, accepted⟩, refused 1 (by decide), answers 7 (by decide), ?_⟩
  obtain ⟨place, ends, passed, drawn⟩ := draws fromWords _ ⟨2, accepted⟩
  -- The draw ends neither before the first accepted word nor behind it.
  have second : place = 2 := by
    rcases Nat.lt_trichotomy place 2 with before | there | behind
    · exact absurd ends (refused place before)
    · exact there
    · exact absurd accepted (passed 2 behind)
  subst second
  exact drawn

end Croupier.Draw
