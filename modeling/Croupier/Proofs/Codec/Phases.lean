/-
Phases are read as they were written.

For each piece of a phase that lies in range, the decoder of the piece reads the bytes that the
encoder writes for it. A block of conditions, and with it a phase, is read back in canonical
form; everything else is read back as it was.
-/

import Croupier.Proofs.Codec.Reading
import Croupier.Proofs.Codec.WellFormed

namespace Croupier.Decoder

/-! ### Words -/

theorem ofCode_toNat_code {α : Type} [Coded α] (word : α) :
    Coded.ofCode (Coded.code word).toNat.toUInt8 = word := by
  rw [show (Coded.code word).toNat.toUInt8 = Coded.code word from UInt8.ofNat_toNat,
    Coded.ofCode_code]

theorem knownLocation_code {location : Location} (known : location ∈ Location.known) :
    knownLocation (Coded.code location).toNat = true :=
  decide_eq_true ((mem_known_iff (by decide) location).mp known)

theorem reads_optionalSuit {suit : Option SuitWord}
    (known : ∀ word ∈ suit, word ∈ SuitWord.known) :
    Reads optionalSuit [Encoder.optionalSuit suit] suit := by
  cases suit with
  | none => exact (reads_small _).last (reads_pure none)
  | some word =>
      cases word with
      | unknown code beyond =>
          have member := known _ rfl
          simp [SuitWord.known] at member
      | suit named => cases named <;> exact (reads_small _).last (reads_pure _)

/-! ### Conditions -/

theorem reads_condition {written : Condition} (inRange : written.InRange) :
    Reads condition (Encoder.condition written) written := by
  have small : (Coded.code written.comparison).toNat < 6 :=
    (mem_known_iff (by decide) _).mp inRange.comparison
  have kind := reads_byte (Coded.code written.kind)
  have comparison :
      Reads Decoder.small [lowByte (comparisonBase + (Coded.code written.comparison).toNat)]
        (comparisonBase + (Coded.code written.comparison).toNat) :=
    reads_small_lowByte (by omega) (by unfold comparisonBase; omega)
  have value := reads_integer (by decide) inRange.value
  have reference := reads_byte written.reference
  have accepted :
      (comparisonBase ≤ comparisonBase + (Coded.code written.comparison).toNat
        && comparisonBase + (Coded.code written.comparison).toNat
          < comparisonBase + Comparison.known.length) = true := by
    simpa [Comparison.known] using small
  refine Reads.of_eq (kind.bind (comparison.bind (value.bind (reference.last ?_)))) ?_
  · refine (reads_require _ accepted).after (reads_pure_of_eq ?_)
    rw [Nat.add_sub_cancel_left, ofCode_toNat_code, Coded.ofCode_code]
  · simp only [Encoder.condition, List.cons_append, List.nil_append]

theorem length_condition (written : Condition) :
    (Encoder.condition written).length = conditionSize := by
  simp [Encoder.condition, conditionSize]

/-- The length of a block with a combinator. -/
theorem length_combined (code : UInt8) (written : List Condition) :
    (code :: written.flatMap Encoder.condition).length =
      1 + conditionSize * written.length := by
  induction written with
  | nil => rfl
  | cons first rest ih =>
      rw [List.length_cons] at ih ⊢
      rw [List.flatMap_cons, List.length_append, length_condition, List.length_cons]
      ring_nf at ih ⊢
      omega

theorem reads_single {only : Condition} (inRange : only.InRange) :
    Reads (conditionBlock conditionSize) (Encoder.condition only) { conditions := [only] } := by
  unfold conditionBlock
  rw [if_neg (by decide)]
  refine Reads.room (fun _ => .truncated) ?_ (length_condition only).ge
  rw [if_pos rfl]
  exact (reads_condition inRange).last (reads_pure _)

/-- The byte that stands for a quantifier. -/
def combinator : Quantifier → Nat
  | .all => allCode
  | .any => anyCode

theorem reads_combined (quantifier : Quantifier) (conditions : List Condition)
    (inRange : ∀ condition ∈ conditions, condition.InRange) :
    Reads (conditionBlock (1 + conditionSize * conditions.length))
      (lowByte (combinator quantifier) :: conditions.flatMap Encoder.condition)
      ⟨quantifier, conditions⟩ := by
  have nonzero : 1 + conditionSize * conditions.length ≠ 0 := by omega
  -- A lone condition never takes this many bytes, so the two written forms stay apart.
  have several : 1 + conditionSize * conditions.length ≠ conditionSize := by
    unfold conditionSize
    omega
  have whole :
      (1 + conditionSize * conditions.length - 1) / conditionSize = conditions.length := by
    unfold conditionSize
    omega
  have even : (1 + conditionSize * conditions.length - 1) % conditionSize = 0 := by
    unfold conditionSize
    omega
  have quantified : Reads small [lowByte (combinator quantifier)] (combinator quantifier) := by
    cases quantifier <;> exact reads_small_lowByte (by decide) (by decide)
  have known :
      (combinator quantifier = allCode || combinator quantifier = anyCode) = true := by
    cases quantifier <;> rfl
  have listed := reads_times fun condition member => reads_condition (inRange condition member)
  unfold conditionBlock
  rw [if_neg nonzero]
  refine Reads.room (fun _ => .truncated) ?_ (length_combined _ _).ge
  rw [if_neg several]
  refine (reads_require _ (decide_eq_true even)).after ?_
  refine quantified.bind ((reads_require _ known).after ?_)
  rw [whole]
  refine listed.last (reads_pure_of_eq ?_)
  cases quantifier <;> rfl

/-- A block is written behind the length of what is read back as the canonical block. -/
theorem reads_conditionBlock {block : ConditionBlock} (inRange : block.InRange) :
    ∃ body, Encoder.conditionBlock block = Encoder.bigEndian body.length 4 ++ body ∧
      Reads (conditionBlock body.length) body block.canonical := by
  obtain ⟨quantifier, conditions⟩ := block
  match quantifier, conditions, inRange with
  | _, [], _ => exact ⟨[], rfl, reads_pure _⟩
  | .all, [only], inRange =>
      refine ⟨Encoder.condition only, ?_, ?_⟩ <;> rw [length_condition]
      · rfl
      · exact reads_single (inRange only List.mem_cons_self)
  | .all, first :: second :: rest, inRange =>
      refine ⟨lowByte allCode :: (first :: second :: rest).flatMap Encoder.condition, ?_, ?_⟩
        <;> rw [length_combined]
      · rfl
      · exact reads_combined .all (first :: second :: rest) inRange
  | .any, first :: rest, inRange =>
      refine ⟨lowByte anyCode :: (first :: rest).flatMap Encoder.condition, ?_, ?_⟩
        <;> rw [length_combined]
      · cases rest <;> rfl
      · exact reads_combined .any (first :: rest) inRange

/-! ### Phases -/

theorem reads_drawPhase {written : DrawPhase} (inRange : written.InRange) :
    Reads drawPhase (Encoder.phaseData (.draw written)) written := by
  obtain ⟨known, ⟨nonneg, atMost⟩, conditionInRange⟩ := inRange
  have bound : written.count ≤ 104 := atMost
  have source := reads_small (Coded.code written.source)
  have count : Reads (natural 4) (Encoder.bigEndian written.count 4) written.count.toNat :=
    reads_natural nonneg (by simp only [Nat.pow_eq]; omega)
  have mandatory := reads_flag written.mandatory
  have conditional := reads_flag written.condition.isSome
  have fits : decide (written.count.toNat ≤ maxDeckSize) = true :=
    decide_eq_true (Int.toNat_le.mpr atMost)
  have conditioned (next : Option Condition → Decoder DrawPhase)
      (last : Reads (next written.condition) [] written) :
      Reads (if written.condition.isSome then some <$> condition >>= next else pure none >>= next)
        ((written.condition.map Encoder.condition).getD []) written := by
    cases present : written.condition with
    | none => exact (reads_pure none).last (present ▸ last)
    | some only =>
        have read := (reads_condition (conditionInRange only present)).map some
        exact read.last (present ▸ last)
  refine Reads.of_eq (source.bind (count.bind (mandatory.bind (conditional.bind
    ((reads_require _ (knownLocation_code known)).after
      ((reads_require _ fits).after (conditioned _ ?_))))))) ?_
  · refine reads_pure_of_eq ?_
    rw [ofCode_toNat_code, Int.toNat_of_nonneg nonneg]
  · simp only [Encoder.phaseData, List.cons_append, List.nil_append, List.append_assoc]

theorem reads_playPhase {written : PlayPhase} (inRange : written.InRange)
    (short : (Encoder.phaseData (.play written)).length < 0x80000000) :
    Reads playPhase (Encoder.phaseData (.play written))
      { written with conditions := written.conditions.canonical } := by
  obtain ⟨known, ⟨nonneg, ordered, positive, below⟩, conditionsInRange⟩ := inRange
  obtain ⟨body, layout, conditions⟩ := reads_conditionBlock conditionsInRange
  have room : body.length < 0x80000000 := by
    simp only [Encoder.phaseData, layout, List.length_append] at short
    omega
  have target := reads_small (Coded.code written.target)
  have minCards : Reads small [lowByte written.minCards] written.minCards.toNat :=
    reads_small_lowByte nonneg (by omega)
  have maxCards : Reads small [lowByte written.maxCards] written.maxCards.toNat :=
    reads_small_lowByte (by omega) below
  have mandatory := reads_flag written.mandatory
  have passIfUnable := reads_flag written.passIfUnable
  have length : Reads (natural 4) (Encoder.bigEndian body.length 4) body.length :=
    reads_natural (by omega) (by simp only [Nat.pow_eq]; omega)
  have cards :
      (written.maxCards.toNat ≠ 0 && written.minCards.toNat ≤ written.maxCards.toNat) = true := by
    rw [Bool.and_eq_true, decide_eq_true_eq, decide_eq_true_eq]
    omega
  refine Reads.of_eq (target.bind (minCards.bind (maxCards.bind (mandatory.bind
    (passIfUnable.bind (length.bind ((reads_require _ (knownLocation_code known)).after
      ((reads_require _ cards).after (conditions.last ?_))))))))) ?_
  · refine reads_pure_of_eq ?_
    rw [ofCode_toNat_code, Int.toNat_of_nonneg nonneg, Int.toNat_of_nonneg (by omega)]
  · simp only [Encoder.phaseData, layout, List.cons_append, List.nil_append]

theorem reads_discardPhase {written : DiscardPhase} (inRange : written.InRange) :
    Reads discardPhase (Encoder.phaseData (.discard written)) written := by
  obtain ⟨known, positive, atMost⟩ := inRange
  have bound : written.count ≤ 104 := atMost
  have target := reads_small (Coded.code written.target)
  have count : Reads (natural 4) (Encoder.bigEndian written.count 4) written.count.toNat :=
    reads_natural (by omega) (by simp only [Nat.pow_eq]; omega)
  have mandatory := reads_flag written.mandatory
  have fits :
      (written.count.toNat ≠ 0 && written.count.toNat ≤ maxDeckSize) = true := by
    rw [Bool.and_eq_true, decide_eq_true_eq, decide_eq_true_eq]
    exact ⟨by omega, Int.toNat_le.mpr atMost⟩
  refine Reads.of_eq (target.bind (count.bind (mandatory.last
    ((reads_require _ (knownLocation_code known)).after
      ((reads_require _ fits).after ?_))))) ?_
  · refine reads_pure_of_eq ?_
    rw [ofCode_toNat_code, Int.toNat_of_nonneg (by omega)]
  · simp only [Encoder.phaseData, List.cons_append, List.nil_append]

theorem reads_trickPhase {written : TrickPhase} (inRange : written.InRange) :
    Reads trickPhase (Encoder.phaseData (.trick written)) written := by
  have followSuit := reads_flag written.followSuit
  have trump := reads_optionalSuit inRange.trump
  have highCardWins := reads_flag written.highCardWins
  have breaking := reads_optionalSuit inRange.breaking
  exact followSuit.bind (trump.bind (highCardWins.bind (breaking.last (reads_pure _))))

theorem reads_bettingPhase {written : BettingPhase} (inRange : written.InRange) :
    Reads bettingPhase (Encoder.phaseData (.betting written)) written := by
  obtain ⟨⟨positive, bounded⟩, nonneg, limited⟩ := inRange
  unfold maxAmount at bounded limited
  have minBet : Reads (natural 4) (Encoder.bigEndian written.minBet 4) written.minBet.toNat :=
    reads_natural (by omega) (by simp only [Nat.pow_eq]; omega)
  have maxRaises :
      Reads (natural 4) (Encoder.bigEndian written.maxRaises 4) written.maxRaises.toNat :=
    reads_natural nonneg (by simp only [Nat.pow_eq]; omega)
  have bet : (written.minBet.toNat ≠ 0 && written.minBet.toNat ≤ maxAmount) = true := by
    unfold maxAmount
    rw [Bool.and_eq_true, decide_eq_true_eq, decide_eq_true_eq]
    omega
  have raises : decide (written.maxRaises.toNat ≤ maxAmount) = true := by
    unfold maxAmount
    rw [decide_eq_true_eq]
    omega
  refine minBet.bind (maxRaises.last ((reads_require _ bet).after
    ((reads_require _ raises).after (reads_pure_of_eq ?_))))
  rw [Int.toNat_of_nonneg (by omega), Int.toNat_of_nonneg nonneg]

theorem reads_claimPhase (written : ClaimPhase) :
    Reads claimPhase (Encoder.phaseData (.claim written)) written :=
  (reads_flag written.allowChallenge).last (reads_pure _)

theorem reads_biddingPhase {written : BiddingPhase} (inRange : written.InRange) :
    Reads biddingPhase (Encoder.phaseData (.bidding written)) written := by
  obtain ⟨nonneg, ordered, atMost⟩ := inRange
  have bound : written.maxBid ≤ 52 := atMost
  have minBid : Reads small [lowByte written.minBid] written.minBid.toNat :=
    reads_small_lowByte nonneg (by omega)
  have maxBid : Reads small [lowByte written.maxBid] written.maxBid.toNat :=
    reads_small_lowByte (by omega) (by omega)
  have allowNil := reads_flag written.allowNil
  have bids :
      (written.minBid.toNat ≤ written.maxBid.toNat
        && written.maxBid.toNat ≤ standardDeckSize) = true := by
    rw [Bool.and_eq_true, decide_eq_true_eq, decide_eq_true_eq]
    exact ⟨by omega, Int.toNat_le.mpr atMost⟩
  refine minBid.bind (maxBid.bind (allowNil.last ((reads_require _ bids).after
    (reads_pure_of_eq ?_))))
  rw [Int.toNat_of_nonneg nonneg, Int.toNat_of_nonneg (by omega)]

theorem reads_phase {written : Phase} (inRange : written.InRange)
    (short : (Encoder.phase written).length < 0x80000000) :
    Reads phase (Encoder.phase written) written.canonical := by
  have kind := reads_small written.kind.code
  have shorter : (Encoder.phaseData written).length < 0x80000000 := by
    rw [Encoder.phase, List.length_cons] at short
    omega
  cases written with
  | draw written => exact kind.bind ((reads_drawPhase inRange).map Phase.draw)
  | play written => exact kind.bind ((reads_playPhase inRange shorter).map Phase.play)
  | discard written => exact kind.bind ((reads_discardPhase inRange).map Phase.discard)
  | trick written => exact kind.bind ((reads_trickPhase inRange).map Phase.trick)
  | betting written => exact kind.bind ((reads_bettingPhase inRange).map Phase.betting)
  | claim written => exact kind.bind ((reads_claimPhase written).map Phase.claim)
  | bidding written => exact kind.bind ((reads_biddingPhase inRange).map Phase.bidding)

end Croupier.Decoder
