/-
Everything that is read lies in range.

What holds of every value that a decoder may give is found from its parts: a check holds
behind it, a number fits the bytes that it was read from, and a chain of decoders passes on
what its links establish. A program that decodes is in range in this way, whatever the bytes,
whether or not its sections overlap, and whether or not an encoder would lay them out so.
-/

import Croupier.Proofs.Codec.RoundTrip

namespace Croupier

namespace Decoder

variable {α β : Type}

/-- Every value that the decoder gives satisfies the property. -/
def Yields (decoder : Decoder α) (property : α → Prop) : Prop :=
  ∀ cursor value next, decoder cursor = .ok (value, next) → property value

/-! ### Composition -/

theorem yields_pure {property : α → Prop} {value : α} (holds : property value) :
    Yields (pure value) property := by
  intro cursor result next read
  cases read
  exact holds

theorem yields_fail {property : α → Prop} (cause : ParseCause) :
    Yields (fail cause) property := by
  intro cursor value next read
  cases read

theorem Yields.bind {decoder : Decoder α} {next : α → Decoder β} {established : α → Prop}
    {property : β → Prop} (first : Yields decoder established)
    (second : ∀ value, established value → Yields (next value) property) :
    Yields (decoder >>= next) property := by
  intro cursor result last read
  change (decoder cursor >>= fun step => next step.1 step.2) = _ at read
  obtain ⟨⟨value, middle⟩, here, there⟩ := bind_eq_ok_iff.mp read
  exact second value (first cursor value middle here) middle result last there

theorem Yields.map {decoder : Decoder α} {change : α → β} {property : β → Prop}
    (yields : Yields decoder fun value => property (change value)) :
    Yields (change <$> decoder) property := by
  rw [← bind_pure_comp]
  exact yields.bind fun _ holds => yields_pure holds

theorem Yields.mono {decoder : Decoder α} {strong weak : α → Prop}
    (yields : Yields decoder strong) (implies : ∀ value, strong value → weak value) :
    Yields decoder weak :=
  fun cursor value next read => implies value (yields cursor value next read)

theorem yields_any (decoder : Decoder α) : Yields decoder fun _ => True :=
  fun _ _ _ _ => trivial

theorem yields_times {decoder : Decoder α} {property : α → Prop}
    (each : Yields decoder property) (count : Nat) :
    Yields (times decoder count)
      fun values => values.length = count ∧ ∀ value ∈ values, property value := by
  induction count with
  | zero => exact yields_pure ⟨rfl, by simp⟩
  | succ count ih =>
      refine each.bind fun first holds => ih.bind fun rest others => yields_pure ?_
      refine ⟨by rw [List.length_cons, others.1], ?_⟩
      rw [List.forall_mem_cons]
      exact ⟨holds, others.2⟩

/-! ### Checks and numbers -/

theorem yields_require (condition : Bool) (cause : ParseCause) :
    Yields (require condition cause) fun _ => condition = true := by
  unfold require
  by_cases holds : condition = true
  · rw [if_pos holds]
    exact yields_pure holds
  · rw [if_neg holds]
    exact yields_fail cause

theorem yields_take (count : Nat) : Yields (take count) fun bytes => bytes.length = count := by
  intro cursor bytes next read
  unfold take at read
  dsimp only at read
  by_cases short : (cursor.rest.take count).length < count
  · rw [if_pos short] at read
    cases read
  · rw [if_neg short] at read
    cases read
    have atMost := List.length_take_le count cursor.rest
    omega

theorem yields_small : Yields small fun value => value < 256 :=
  (yields_any byte).bind fun digit _ => yields_pure digit.toNat_lt

theorem yields_natural (width : Nat) :
    Yields (natural width) fun value => value < Nat.pow 256 width := by
  refine (yields_take width).bind fun digits exactly => yields_pure ?_
  rw [← exactly]
  exact unsigned_lt digits

theorem yields_integer {width : Nat} (positive : 0 < width) :
    Yields (integer width) (FitsSigned width) := by
  refine (yields_take width).bind fun digits exactly => yields_pure ?_
  rw [← exactly] at positive ⊢
  exact fitsSigned_signed positive

/-! ### Words -/

/-- A code below the number of known words stands for a known word. -/
theorem ofCode_mem_known {α : Type} [Coded α] {known : List α}
    (listed : (List.range known.length).map (fun place => Coded.ofCode place.toUInt8) = known)
    {code : Nat} (below : code < known.length) : Coded.ofCode code.toUInt8 ∈ known := by
  rw [← listed]
  exact List.mem_map.mpr ⟨code, List.mem_range.mpr below, rfl⟩

theorem yields_optionalSuit :
    Yields optionalSuit fun suit => ∀ word ∈ suit, word ∈ SuitWord.known := by
  refine (yields_any small).bind fun code _ => ?_
  by_cases absent : code = noSuitCode
  · rw [if_pos absent]
    exact yields_pure (by simp)
  · rw [if_neg absent]
    cases Suit.ofIndex? code with
    | none => exact yields_fail _
    | some suit =>
        refine yields_pure ?_
        rintro word ⟨⟩
        cases suit <;> decide

/-! ### Conditions -/

theorem yields_condition : Yields condition Condition.InRange := by
  refine (yields_any byte).bind fun kind _ => (yields_any small).bind fun comparison _ =>
    (yields_integer (by decide)).bind fun value fits => (yields_any byte).bind fun reference _ =>
      (yields_require _ _).bind fun _ accepted => yields_pure ?_
  rw [Bool.and_eq_true, decide_eq_true_eq, decide_eq_true_eq] at accepted
  exact ⟨ofCode_mem_known (by decide) (by omega), fits⟩

theorem yields_conditionBlock (length : Nat) :
    Yields (conditionBlock length) ConditionBlock.InRange := by
  unfold conditionBlock
  by_cases empty : length = 0
  · rw [if_pos empty]
    exact yields_pure fun condition member => by simp at member
  · rw [if_neg empty]
    refine (yields_any remaining).bind fun left _ => (yields_any (require _ _)).bind fun _ _ => ?_
    by_cases single : length = conditionSize
    · rw [if_pos single]
      refine yields_condition.bind fun only inRange => yields_pure fun condition member => ?_
      rwa [List.mem_singleton.mp member]
    · rw [if_neg single]
      exact (yields_any (require _ _)).bind fun _ _ => (yields_any small).bind fun combinator _ =>
        (yields_any (require _ _)).bind fun _ _ =>
          (yields_times yields_condition _).bind fun conditions inRange => yields_pure inRange.2

/-! ### Phases -/

theorem yields_drawPhase : Yields drawPhase DrawPhase.InRange := by
  refine (yields_any small).bind fun source _ => (yields_natural 4).bind fun count _ =>
    (yields_any flag).bind fun mandatory _ => (yields_any flag).bind fun conditional _ =>
      (yields_require _ _).bind fun _ known => (yields_require _ _).bind fun _ atMost => ?_
  have finish (condition : Option Condition)
      (inRange : ∀ only ∈ condition, Condition.InRange only) :
      DrawPhase.InRange ⟨Coded.ofCode source.toUInt8, count, mandatory, condition⟩ :=
    ⟨ofCode_mem_known (by decide) (of_decide_eq_true known),
      ⟨Int.natCast_nonneg count, Int.ofNat_le.mpr (of_decide_eq_true atMost)⟩, inRange⟩
  by_cases present : conditional = true
  · have given : Yields (some <$> condition) fun condition =>
        ∀ only ∈ condition, Condition.InRange only := by
      refine Yields.map (yields_condition.mono fun first inRange only same => ?_)
      cases same
      exact inRange
    rw [if_pos present]
    exact given.bind fun condition inRange => yields_pure (finish condition inRange)
  · rw [if_neg present]
    exact yields_pure (finish none (by simp))

theorem yields_playPhase : Yields playPhase PlayPhase.InRange := by
  refine (yields_any small).bind fun target _ => yields_small.bind fun minCards _ =>
    yields_small.bind fun maxCards below => (yields_any flag).bind fun mandatory _ =>
      (yields_any flag).bind fun passIfUnable _ => (yields_any (natural 4)).bind fun length _ =>
        (yields_require _ _).bind fun _ known => (yields_require _ _).bind fun _ cards =>
          (yields_conditionBlock length).bind fun conditions inRange => yields_pure ?_
  rw [Bool.and_eq_true, decide_eq_true_eq, decide_eq_true_eq] at cards
  refine ⟨ofCode_mem_known (by decide) (of_decide_eq_true known), ?_, inRange⟩
  dsimp only
  omega

theorem yields_discardPhase : Yields discardPhase DiscardPhase.InRange := by
  refine (yields_any small).bind fun target _ => (yields_any (natural 4)).bind fun count _ =>
    (yields_any flag).bind fun mandatory _ => (yields_require _ _).bind fun _ known =>
      (yields_require _ _).bind fun _ fits => yields_pure ?_
  rw [Bool.and_eq_true, decide_eq_true_eq, decide_eq_true_eq] at fits
  refine ⟨ofCode_mem_known (by decide) (of_decide_eq_true known), ?_⟩
  dsimp only
  omega

theorem yields_trickPhase : Yields trickPhase TrickPhase.InRange :=
  (yields_any flag).bind fun _ _ => yields_optionalSuit.bind fun _ trump =>
    (yields_any flag).bind fun _ _ => yields_optionalSuit.bind fun _ breaking =>
      yields_pure ⟨trump, breaking⟩

theorem yields_bettingPhase : Yields bettingPhase BettingPhase.InRange := by
  refine (yields_any (natural 4)).bind fun minBet _ =>
    (yields_any (natural 4)).bind fun raises _ =>
    (yields_require _ _).bind fun _ bet => (yields_require _ _).bind fun _ limited =>
      yields_pure ?_
  rw [Bool.and_eq_true, decide_eq_true_eq, decide_eq_true_eq] at bet
  have bounded := of_decide_eq_true limited
  constructor <;> dsimp only <;> omega

theorem yields_biddingPhase : Yields biddingPhase BiddingPhase.InRange := by
  refine (yields_any small).bind fun minBid _ => (yields_any small).bind fun maxBid _ =>
    (yields_any flag).bind fun allowNil _ => (yields_require _ _).bind fun _ bids =>
      yields_pure ?_
  rw [Bool.and_eq_true, decide_eq_true_eq, decide_eq_true_eq] at bids
  constructor
  dsimp only
  omega

theorem yields_phase : Yields phase Phase.InRange := by
  refine (yields_any small).bind fun kind _ => ?_
  split
  · exact Yields.map yields_drawPhase
  · exact Yields.map yields_playPhase
  · exact Yields.map yields_discardPhase
  · exact Yields.map yields_trickPhase
  · exact Yields.map yields_bettingPhase
  · exact Yields.map ((yields_any claimPhase).mono fun _ holds => holds)
  · exact Yields.map yields_biddingPhase
  · exact yields_fail _

/-! ### Sections -/

theorem yields_setup : Yields setup Setup.InRange := by
  have below : FitsSigned 4 ≤ fun value => value < 0x80000000 := by
    rintro value ⟨_, small⟩
    unfold signedLimit at small
    simp only [Nat.pow_eq] at small
    omega
  refine (yields_integer (by decide)).bind fun cards cardsFit =>
    (yields_integer (by decide)).bind fun discards discardsFit =>
      (yields_integer (by decide)).bind fun chips chipsFit =>
        (yields_require _ _).bind fun _ nonneg => yields_pure ?_
  simp only [Bool.and_eq_true, decide_eq_true_eq] at nonneg
  exact ⟨⟨nonneg.1.1, below _ cardsFit⟩, ⟨nonneg.1.2, below _ discardsFit⟩,
    nonneg.2, below _ chipsFit⟩

theorem yields_phases :
    Yields phases fun listed => listed ≠ [] ∧ ∀ phase ∈ listed, phase.InRange := by
  refine (yields_any (natural 4)).bind fun count _ => (yields_require _ _).bind fun _ some =>
    (yields_any remaining).bind fun left _ => (yields_any (require _ _)).bind fun _ _ => ?_
  refine (yields_times yields_phase count).mono fun listed inRange => ⟨?_, inRange.2⟩
  rintro rfl
  exact of_decide_eq_true some inRange.1.symm

theorem yields_counted {decoder : Decoder α} {property : α → Prop} (size : Nat)
    (each : Yields decoder property) :
    Yields (counted size decoder) fun entries => ∀ entry ∈ entries, property entry :=
  (yields_any (natural 4)).bind fun count _ => (yields_any remaining).bind fun _ _ =>
    (yields_any (require _ _)).bind fun _ _ => (yields_times each count).mono fun _ => And.right

theorem yields_winCondition : Yields winCondition WinCondition.InRange := by
  refine (yields_any byte).bind fun kind _ => (yields_integer (by decide)).bind fun _ fits =>
    (yields_any small).bind fun side _ => (yields_any small).bind fun trigger _ =>
      (yields_require _ _).bind fun _ sideKnown => (yields_require _ _).bind fun _ triggerKnown =>
        yields_pure ⟨fits, ?_, ?_⟩
  · exact ofCode_mem_known (by decide) (of_decide_eq_true sideKnown)
  · exact ofCode_mem_known (by decide) (of_decide_eq_true triggerKnown)

theorem yields_scoringRule : Yields scoringRule ScoringRule.InRange :=
  (yields_any byte).bind fun _ _ => (yields_any byte).bind fun _ _ =>
    (yields_integer (by decide)).bind fun _ fits => yields_pure fits

theorem yields_handPattern : Yields handPattern HandPattern.InRange :=
  (yields_any small).bind fun _ _ => yields_small.bind fun size below =>
    (yields_integer (by decide)).bind fun _ fits => (yields_require _ _).bind fun _ known =>
      yields_pure ⟨ofCode_mem_known (by decide) (of_decide_eq_true known),
        ⟨Int.natCast_nonneg size, Int.ofNat_lt.mpr below⟩, fits⟩

/-! ### Effects -/

theorem yields_effectEntry : Yields effectEntry fun entry => entry.2.InRange entry.1 := by
  refine (yields_any small).bind fun rank _ => (yields_any byte).bind fun kind _ =>
    (yields_any byte).bind fun target _ => yields_small.bind fun value below => ?_
  cases Rank.ofIndex? rank with
  | none => exact yields_fail _
  | some rank =>
      have known : RankWord.rank rank ∈ RankWord.known := by cases rank <;> decide
      exact yields_pure ⟨known, Int.natCast_nonneg value, Int.ofNat_lt.mpr below⟩

/-- Entering entries into a table adds no others. -/
private theorem mem_foldl_insert {entries : List (RankWord × Effect)} :
    ∀ {table : EffectTable} {entry : RankWord × Effect},
      entry ∈ (entries.foldl (fun table entry => table.insert entry.1 entry.2) table).entries →
        entry ∈ entries ∨ entry ∈ table.entries := by
  induction entries with
  | nil => exact fun member => Or.inr member
  | cons first rest ih =>
      intro table entry member
      rcases ih member with later | earlier
      · exact Or.inl (List.mem_cons_of_mem first later)
      · rcases EffectTable.mem_insertEntry earlier with new | old
        · exact Or.inl (new ▸ List.mem_cons_self)
        · exact Or.inr old

theorem mem_of_mem_ofList {entries : List (RankWord × Effect)} {entry : RankWord × Effect}
    (member : entry ∈ (EffectTable.ofList entries).entries) : entry ∈ entries := by
  rcases mem_foldl_insert member with listed | initial
  · exact listed
  · cases initial

theorem yields_effects :
    Yields effects fun table => ∀ entry ∈ table.entries, entry.2.InRange entry.1 :=
  (yields_any small).bind fun _ _ => (yields_any (require _ _)).bind fun _ _ =>
    (yields_any small).bind fun count _ => (yields_any remaining).bind fun _ _ =>
      (yields_any (require _ _)).bind fun _ _ =>
        (yields_times yields_effectEntry count).bind fun _ inRange =>
          yields_pure fun entry member => inRange.2 entry (mem_of_mem_ofList member)

/-! ### Teams -/

theorem yields_members (participants : Int) (count : Nat) :
    ∀ assigned : List Int, assigned.Nodup →
      Yields (members participants count assigned) fun roster =>
        roster.length = count ∧ (∀ member ∈ roster, 0 ≤ member ∧ member < participants) ∧
          (roster ++ assigned).Nodup := by
  induction count with
  | zero => exact fun assigned apart => yields_pure ⟨rfl, by simp, apart⟩
  | succ count ih =>
      intro assigned apart
      refine (yields_any small).bind fun member _ => (yields_require _ _).bind fun _ below =>
        (yields_require _ _).bind fun _ free => ?_
      have fresh : (member : Int) ∉ assigned := by simpa using free
      refine (ih (member :: assigned) (List.nodup_cons.mpr ⟨fresh, apart⟩)).bind
        fun rest others => yields_pure ⟨by rw [List.length_cons, others.1], ?_, ?_⟩
      · rw [List.forall_mem_cons]
        exact ⟨⟨Int.natCast_nonneg member, of_decide_eq_true below⟩, others.2.1⟩
      · exact List.perm_middle.nodup_iff.mp others.2.2

theorem yields_rosters (participants : Int) (count : Nat) :
    ∀ (team : Nat) (assigned : List Int), assigned.Nodup →
      Yields (rosters participants count team assigned) fun teams =>
        teams.length = count ∧ (∀ team ∈ teams, team ≠ []) ∧
          (∀ member ∈ teams.flatten, 0 ≤ member ∧ member < participants) ∧
          (teams.flatten ++ assigned).Nodup := by
  induction count with
  | zero => exact fun team assigned apart => yields_pure ⟨rfl, by simp, by simp, apart⟩
  | succ count ih =>
      intro team assigned apart
      refine (yields_any small).bind fun size _ => (yields_require _ _).bind fun _ some =>
        (yields_members participants size assigned apart).bind fun roster own =>
          (ih (team + 1) (roster ++ assigned) own.2.2).bind fun rest others =>
            yields_pure ⟨by rw [List.length_cons, others.1], ?_, ?_, ?_⟩
      · rw [List.forall_mem_cons]
        refine ⟨?_, others.2.1⟩
        rintro rfl
        exact of_decide_eq_true some own.1.symm
      · rw [List.flatten_cons, List.forall_mem_append]
        exact ⟨own.2.1, others.2.2.1⟩
      · rw [List.flatten_cons]
        refine (List.Perm.nodup_iff ?_).mp others.2.2.2
        rw [← List.append_assoc]
        exact List.perm_append_comm.append_right assigned

theorem yields_teams (participants : Int) :
    Yields (teams participants) (Roster participants) := by
  refine (yields_any small).bind fun count _ => (yields_require _ _).bind fun _ several =>
    (yields_rosters participants count 0 [] List.nodup_nil).mono fun teams shared => ?_
  obtain ⟨exactly, staffed, seated, apart⟩ := shared
  rw [List.append_nil] at apart
  exact ⟨by rw [exactly]; exact of_decide_eq_true several, staffed, seated, apart⟩

/-! ### The header -/

theorem toHeader_inRange {raw : RawHeader} (accepted : raw.check = .ok ()) :
    raw.toHeader.InRange := by
  obtain ⟨version, tableauMode, sequenceOrder, rankMask, copies, tieBreak, participants, turns⟩ :=
    raw.check_eq_ok_iff.mp accepted
  have mask : raw.rankMask.toUInt16.toNat ≤ raw.rankMask := Nat.mod_le _ _
  refine ⟨version, ofCode_mem_known (by decide) tableauMode,
    ofCode_mem_known (by decide) sequenceOrder, Nat.lt_of_le_of_lt mask rankMask, ?_,
    ofCode_mem_known (by decide) tieBreak, ?_, ?_⟩
  · unfold RawHeader.toHeader
    dsimp only
    by_cases none : raw.deckCopies = 0
    · rw [if_pos none]
      decide
    · rw [if_neg none]
      exact ⟨by omega, Int.ofNat_le.mpr copies⟩
  · unfold RawHeader.toHeader
    dsimp only
    omega
  · unfold RawHeader.toHeader
    dsimp only
    omega

theorem header_inRange {bytes : List UInt8} {written : Header} {table : SectionTable}
    (read : header bytes = .ok (written, table)) : written.InRange ∧ table.phases ≠ 0 := by
  unfold header at read
  obtain ⟨_, read⟩ := check_eq_ok_iff.mp read
  obtain ⟨raw, _, read⟩ := bind_eq_ok_iff.mp read
  obtain ⟨_, accepted, read⟩ := bind_eq_ok_iff.mp read
  obtain ⟨_, _, read⟩ := bind_eq_ok_iff.mp read
  obtain ⟨someTurn, read⟩ := check_eq_ok_iff.mp read
  obtain ⟨rfl, rfl⟩ := Prod.mk.inj (pure_eq_ok_iff.mp read)
  exact ⟨toHeader_inRange accepted, someTurn⟩

/-! ### The whole program -/

theorem section?_yields {decoder : Decoder α} {property : α → Prop} {bytes : List UInt8}
    {place : Section} {offset : Int} {absent value : α} (yields : Yields decoder property)
    (default : offset = 0 → property absent)
    (read : section? bytes place offset absent decoder = .ok value) : property value := by
  unfold section? at read
  by_cases zero : offset = 0
  · rw [if_pos zero] at read
    cases read
    exact default zero
  · rw [if_neg zero] at read
    obtain ⟨⟨_, last⟩, here, rfl⟩ := map_eq_ok_iff.mp read
    exact yields _ _ last here

end Decoder

/-- Every program that bytes decode to is in range. -/
theorem Program.inRange_of_decode {bytes : List UInt8} {program : Program}
    (accepted : decode bytes = .ok program) : program.InRange := by
  obtain ⟨table, decodes⟩ := decode_eq_ok_iff.mp accepted
  obtain ⟨header, someTurn⟩ := Decoder.header_inRange decodes.header
  obtain ⟨nonempty, phases⟩ := Decoder.section?_yields Decoder.yields_phases
    (fun absent => absurd absent someTurn) decodes.phases
  refine ⟨header, ?_, nonempty, phases, ?_, ?_, ?_, ?_, ?_⟩
  · exact Decoder.section?_yields Decoder.yields_setup (fun _ => by decide) decodes.setup
  · exact Decoder.section?_yields (Decoder.yields_counted 7 Decoder.yields_winCondition)
      (by simp) decodes.winConditions
  · exact Decoder.section?_yields Decoder.yields_effects (by simp [EffectTable.empty])
      decodes.effects
  · exact Decoder.section?_yields (Decoder.yields_counted 4 Decoder.yields_scoringRule)
      (by simp) decodes.scoring
  · exact Decoder.section?_yields (Decoder.yields_counted 4 Decoder.yields_handPattern)
      (by simp) decodes.patterns
  · have read := decodes.teams
    by_cases mode : program.header.teamMode = true
    · rw [if_pos mode] at read ⊢
      have either : Decoder.Yields (Decoder.teams program.header.participants) fun teams =>
          teams = [] ∨ Roster program.header.participants teams :=
        (Decoder.yields_teams _).mono fun _ roster => Or.inr roster
      have shared := Decoder.section?_yields either (fun _ => Or.inl rfl) read
      have rostered := decodes.rostered
      rw [mode, Bool.true_and, List.isEmpty_iff] at rostered
      exact shared.resolve_left rostered
    · rw [if_neg mode] at read ⊢
      exact (pure_eq_ok_iff.mp read).symm

/-- What was read is read back in canonical form. It changes exactly if some play phase asks
for any of no conditions. -/
theorem Program.decode_encode_of_decode {bytes : List UInt8} {program : Program}
    (accepted : decode bytes = .ok program) (short : program.encode.length < 0x80000000) :
    decode program.encode = .ok program.canonical ∧
      (decode program.encode = .ok program ↔ program.Canonical) := by
  have read := decode_encode_canonical (inRange_of_decode accepted) short
  refine ⟨read, ?_⟩
  rw [read, Except.ok.injEq, program.canonical_eq_self_iff]

/-- A block of one byte asks for any of no conditions. It is written as an empty block, which
asks for all of them. -/
theorem Program.decode_encode_lone_combinator :
    ∃ program,
      decode
          -- The header, with a section of phases at byte 52 and no other section.
          [1, 0, 0, 0, 0, 0, 1, 0, 0, 0, 0, 2, 0, 0, 3, 232, 0, 0, 0, 0, 0, 0, 0, 0,
            0, 0, 0, 0, 0, 0, 0, 52, 0, 0, 0, 0, 0, 0, 0, 0, 0, 0, 0, 0, 0, 0, 0, 0, 0, 0, 0, 0,
            -- One play phase with a block of conditions of length one.
            0, 0, 0, 1, 2, 2, 1, 1, 1, 0, 0, 0, 0, 1, 41] = .ok program ∧
        program.encode.length < 0x80000000 ∧
        decode program.encode ≠ .ok program :=
  ⟨{ phases := [.play { conditions := { quantifier := .any } }] }, by decide +kernel⟩

/-- The program of the cheating game survives being stored. -/
theorem Program.decode_encode_of_decode_cheat :
    decode Library.cheat.encode = .ok Library.cheat ∧
      Library.cheat.encode.length < 0x80000000 ∧
      decode Library.cheat.encode = .ok Library.cheat.canonical ∧
      (decode Library.cheat.encode = .ok Library.cheat ↔ Library.cheat.Canonical) :=
  have accepted : decode Library.cheat.encode = .ok Library.cheat := by decide +kernel
  have short : Library.cheat.encode.length < 0x80000000 := by decide +kernel
  ⟨accepted, short, decode_encode_of_decode accepted short⟩

end Croupier
