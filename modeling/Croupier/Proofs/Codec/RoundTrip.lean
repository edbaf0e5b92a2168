/-
A program is read back from the bytes that it is written as.

The bytes begin with the numbers of the header and the offset of each section. A section that
has something to say stands at its offset, behind the header, so the decoder finds there what
the encoder of the section wrote; the offset of any other section is zero, and the decoder
takes the default, which is what the encoder left out.
-/

import Croupier.Proofs.Codec.Phases
import Croupier.Proofs.Codec.Sections
import Croupier.Program.Library
import Croupier.Proofs.Success

namespace Croupier

namespace Decoder

/-! ### Placing sections -/

/-- The body of a section stands at the offset, or there is no body and the offset is zero. -/
structure Located (bytes : List UInt8) (offset : Nat) (body : List UInt8) : Prop where
  absent : body = [] → offset = 0
  present : body ≠ [] → headerSize ≤ offset ∧ ∃ rest, bytes.drop offset = body ++ rest

/-- Sections that are laid out one behind the other stand where their offsets say. -/
theorem located_offsets (sections : List (List UInt8)) :
    ∀ front : List UInt8, headerSize ≤ front.length →
      List.Forall₂ (Located (front ++ sections.flatten))
        (Encoder.offsets front.length sections) sections := by
  induction sections with
  | nil => exact fun _ _ => List.Forall₂.nil
  | cons body rest ih =>
      intro front behind
      have others := ih (front ++ body) (by rw [List.length_append]; omega)
      rw [List.length_append, List.append_assoc] at others
      rw [Encoder.offsets, List.flatten_cons]
      refine List.Forall₂.cons ⟨?_, ?_⟩ others
      · intro empty
        rw [if_pos (by simpa using empty)]
      · intro nonempty
        rw [if_neg (by simpa using nonempty)]
        exact ⟨behind, rest.flatten, List.drop_left⟩

theorem Located.inside {bytes body : List UInt8} {offset : Nat}
    (located : Located bytes offset body) :
    (offset : Int) = 0 ∨ (headerSize : Int) ≤ offset ∧ (offset : Int) < bytes.length := by
  by_cases empty : body = []
  · have zero := located.absent empty
    omega
  · obtain ⟨behind, rest, stands⟩ := located.present empty
    have positive := List.length_pos_iff.mpr empty
    have size := congrArg List.length stands
    rw [List.length_drop, List.length_append] at size
    omega

theorem Located.length_le {bytes body : List UInt8} {offset : Nat}
    (located : Located bytes offset body) : body.length ≤ bytes.length := by
  by_cases empty : body = []
  · rw [empty]
    exact Nat.zero_le _
  · obtain ⟨_, rest, stands⟩ := located.present empty
    have size := congrArg List.length stands
    rw [List.length_drop, List.length_append] at size
    omega

theorem Reads.run' {α : Type} {decoder : Decoder α} {bytes : List UInt8} {value : α}
    (reads : Reads decoder bytes value) (place : Section) (offset : Nat) (rest : List UInt8) :
    StateT.run' decoder ⟨place, offset, bytes ++ rest⟩ = .ok value := by
  have run := reads place offset rest
  change Prod.fst <$> decoder _ = _
  rw [run]
  rfl

theorem Located.section? {α : Type} {bytes body : List UInt8} {offset : Nat}
    {decoder : Decoder α} {absent value : α} (located : Located bytes offset body)
    (place : Section) (default : body = [] → absent = value)
    (reads : body ≠ [] → Reads decoder body value) :
    Decoder.section? bytes place offset absent decoder = .ok value := by
  unfold Decoder.section?
  by_cases empty : body = []
  · rw [located.absent empty, default empty]
    rfl
  · obtain ⟨behind, rest, stands⟩ := located.present empty
    have beyond : (offset : Int) ≠ 0 := by
      unfold headerSize at behind
      omega
    rw [if_neg beyond, Int.toNat_natCast, stands]
    exact (reads empty).run' place offset rest

/-! ### The header -/

/-- The numbers that a header is written as. -/
def writtenHeader (written : Header) (sections : SectionTable) : RawHeader where
  version := written.version.toNat
  flags := (Encoder.flag written.teamMode).toNat
  tableauMode := (Coded.code written.tableauMode).toNat
  sequenceOrder := (Coded.code written.sequenceOrder).toNat
  rankMask := written.rankMask.toNat
  deckCopies := written.deckCopies.toNat
  tieBreak := (Coded.code written.tieBreak).toNat
  participants := written.participants.toNat
  maxTurns := written.maxTurns.toNat
  fingerprint := written.fingerprint.toNat
  sections

theorem reads_rawHeader {written : Header} (inRange : written.InRange) {sections : SectionTable}
    (fits : ∀ entry ∈ sections.toList, FitsSigned 4 entry.2) :
    Reads rawHeader
      (Encoder.fixedHeader written
        ++ sections.toList.flatMap fun entry => Encoder.bigEndian entry.2 4)
      (writtenHeader written sections) := by
  obtain ⟨isVersion, _, _, _, ⟨copiesPositive, copiesAtMost⟩, _,
    ⟨participantsAtLeast, participantsAtMost⟩, turnsPositive, turnsBelow⟩ := inRange
  unfold formatVersion at isVersion
  unfold maxDeckCopies at copiesAtMost
  unfold minParticipants at participantsAtLeast
  unfold maxParticipants at participantsAtMost
  have version : Reads small [lowByte written.version] written.version.toNat :=
    reads_small_lowByte (by omega) (by omega)
  have flags := reads_small (Encoder.flag written.teamMode)
  have tableauMode := reads_small (Coded.code written.tableauMode)
  have sequenceOrder := reads_small (Coded.code written.sequenceOrder)
  have rankMask :
      Reads (natural 2) (Encoder.bigEndian written.rankMask.toNat 2) written.rankMask.toNat :=
    reads_natural (by omega)
      (by have below := written.rankMask.toNat_lt; simp only [Nat.pow_eq]; omega)
  have deckCopies : Reads small [lowByte written.deckCopies] written.deckCopies.toNat :=
    reads_small_lowByte (by omega) (by omega)
  have tieBreak := reads_small (Coded.code written.tieBreak)
  have participants :
      Reads (natural 4) (Encoder.bigEndian written.participants 4) written.participants.toNat :=
    reads_natural (by omega) (by simp only [Nat.pow_eq]; omega)
  have maxTurns :
      Reads (natural 4) (Encoder.bigEndian written.maxTurns 4) written.maxTurns.toNat :=
    reads_natural (by omega) (by simp only [Nat.pow_eq]; omega)
  have fingerprint :
      Reads (natural 8) (Encoder.bigEndian written.fingerprint.toNat 8)
        written.fingerprint.toNat :=
    reads_natural (by omega)
      (by have below := written.fingerprint.toNat_lt; simp only [Nat.pow_eq]; omega)
  have offset (place : Section) (value : Int) (listed : (place, value) ∈ sections.toList) :
      Reads (integer 4) (Encoder.bigEndian value 4) value :=
    reads_integer (by decide) (fits _ listed)
  refine Reads.of_eq (version.bind (flags.bind (tableauMode.bind (sequenceOrder.bind
    (rankMask.bind (deckCopies.bind (tieBreak.bind (participants.bind (maxTurns.bind
      (fingerprint.bind ((offset .setup _ ?_).bind ((offset .phases _ ?_).bind
        ((offset .winConditions _ ?_).bind ((offset .effects _ ?_).bind
          ((offset .scoring _ ?_).bind ((offset .handPatterns _ ?_).bind
            ((offset .teams _ ?_).last (reads_pure (writtenHeader written sections)))
              )))))))))))))))) ?_
  all_goals
    simp [SectionTable.toList, Encoder.fixedHeader]

theorem requireAt_eq_ok_iff {offset : Nat} {condition : Bool} {cause : ParseCause} :
    requireAt offset condition cause = .ok () ↔ condition = true := by
  unfold requireAt
  cases condition <;> simp [throw, throwThe, MonadExceptOf.throw, pure, Except.pure]

theorem requireAt_bind_eq_ok_iff {α : Type} {offset : Nat} {condition : Bool} {cause : ParseCause}
    {next : Unit → Except ParseError α} {result : α} :
    (requireAt offset condition cause >>= next) = .ok result ↔
      condition = true ∧ next () = .ok result := by
  rw [bind_eq_ok_iff]
  constructor
  · rintro ⟨_, holds, rest⟩
    exact ⟨requireAt_eq_ok_iff.mp holds, rest⟩
  · rintro ⟨holds, rest⟩
    exact ⟨(), requireAt_eq_ok_iff.mpr holds, rest⟩

theorem RawHeader.check_eq_ok_iff (raw : RawHeader) :
    raw.check = .ok () ↔
      (raw.version : Int) = formatVersion ∧
        raw.tableauMode < TableauMode.known.length ∧
        raw.sequenceOrder < SequenceOrder.known.length ∧
        raw.rankMask < Nat.pow 2 Rank.count ∧
        raw.deckCopies ≤ maxDeckCopies ∧
        raw.tieBreak < TieBreak.known.length ∧
        (minParticipants ≤ raw.participants ∧ raw.participants ≤ maxParticipants) ∧
        raw.maxTurns ≠ 0 ∧ raw.maxTurns < 0x80000000 := by
  unfold check
  simp only [requireAt_bind_eq_ok_iff, requireAt_eq_ok_iff, decide_eq_true_eq, Bool.and_eq_true]

theorem check_writtenHeader {written : Header} (inRange : written.InRange)
    (sections : SectionTable) : (writtenHeader written sections).check = .ok () := by
  obtain ⟨isVersion, tableauMode, sequenceOrder, rankMask, ⟨copiesPositive, copiesAtMost⟩,
    tieBreak, ⟨participantsAtLeast, participantsAtMost⟩, turnsPositive, turnsBelow⟩ := inRange
  have copies : written.deckCopies.toNat ≤ maxDeckCopies := Int.toNat_le.mpr copiesAtMost
  have participants : written.participants.toNat ≤ maxParticipants :=
    Int.toNat_le.mpr participantsAtMost
  refine (writtenHeader written sections).check_eq_ok_iff.mpr
    ⟨?_, (mem_known_iff (by decide) _).mp tableauMode,
      (mem_known_iff (by decide) _).mp sequenceOrder, rankMask, copies,
      (mem_known_iff (by decide) _).mp tieBreak, ⟨?_, participants⟩, ?_⟩
  · change (written.version.toNat : Int) = formatVersion
    rw [isVersion]
    rfl
  · change minParticipants ≤ written.participants.toNat
    omega
  · change written.maxTurns.toNat ≠ 0 ∧ written.maxTurns.toNat < 0x80000000
    omega

theorem toHeader_writtenHeader {written : Header} (inRange : written.InRange)
    (sections : SectionTable) : (writtenHeader written sections).toHeader = written := by
  obtain ⟨isVersion, _, _, _, ⟨copiesPositive, _⟩, _, ⟨participantsAtLeast, _⟩,
    turnsPositive, _⟩ := inRange
  have version : (written.version.toNat : Int) = written.version := by
    rw [isVersion]
    rfl
  have teamMode : decide ((Encoder.flag written.teamMode).toNat % 2 = 1) = written.teamMode := by
    cases written.teamMode <;> rfl
  have copies : written.deckCopies.toNat ≠ 0 := by omega
  unfold RawHeader.toHeader writtenHeader
  dsimp only
  rw [version, teamMode, ofCode_toNat_code, ofCode_toNat_code, ofCode_toNat_code, if_neg copies,
    Int.toNat_of_nonneg (by omega), Int.toNat_of_nonneg (by omega),
    Int.toNat_of_nonneg (by omega)]
  rw [show written.rankMask.toNat.toUInt16 = written.rankMask from UInt16.ofNat_toNat,
    show written.fingerprint.toNat.toUInt64 = written.fingerprint from UInt64.ofNat_toNat]

theorem checkSections_of_inside {size : Nat} {listed : List (Section × Int)}
    (inside : ∀ entry ∈ listed, entry.2 = 0 ∨ (headerSize : Int) ≤ entry.2 ∧ entry.2 < size) :
    ∀ entry, checkSections size entry listed = .ok () := by
  induction listed with
  | nil => exact fun _ => rfl
  | cons first rest ih =>
      intro entry
      have here := inside first List.mem_cons_self
      have there := ih fun other member => inside other (List.mem_cons_of_mem first member)
      have accepted :
          ¬(first.2 ≠ 0 && (first.2 < headerSize || (size : Int) ≤ first.2)) = true := by
        simp only [Bool.and_eq_true, Bool.or_eq_true, decide_eq_true_eq]
        omega
      rw [checkSections, if_neg accepted]
      exact there (entry + 4)

/-- The header is read back if every section stands inside the program and behind the header. -/
theorem header_of_written {written : Header} (inRange : written.InRange)
    {sections : SectionTable} {bytes rest : List UInt8}
    (layout : bytes = Encoder.fixedHeader written
      ++ (sections.toList.flatMap fun entry => Encoder.bigEndian entry.2 4) ++ rest)
    (inside : ∀ entry ∈ sections.toList,
      entry.2 = 0 ∨ (headerSize : Int) ≤ entry.2 ∧ entry.2 < bytes.length)
    (short : bytes.length < 0x80000000) (someTurn : sections.phases ≠ 0) :
    header bytes = .ok (written, sections) := by
  have fits : ∀ entry ∈ sections.toList, FitsSigned 4 entry.2 := by
    intro entry member
    have bounds := inside entry member
    unfold headerSize at bounds
    unfold FitsSigned signedLimit
    simp only [Nat.pow_eq]
    omega
  have long : ¬bytes.length < headerSize := by
    rw [layout]
    simp only [Encoder.fixedHeader, SectionTable.toList, headerSize, List.flatMap_cons,
      List.flatMap_nil, List.length_append, List.length_cons, List.length_nil,
      Encoder.length_bigEndian]
    omega
  have raw := (reads_rawHeader inRange fits).run' .header 0 rest
  rw [← layout] at raw
  unfold header
  rw [if_neg long, raw]
  change (do
    (writtenHeader written sections).check
    checkSections bytes.length sectionTableStart sections.toList
    if sections.phases = 0 then
      throw (⟨.phases, phasesEntry, .noTurnStructure⟩ : ParseError)
    return ((writtenHeader written sections).toHeader, sections)) = _
  rw [check_writtenHeader inRange, checkSections_of_inside inside, if_neg someTurn,
    toHeader_writtenHeader inRange]
  rfl

end Decoder

/-! ### The whole program -/

namespace Encoder

theorem counted_eq_nil_iff {α : Type} {encode : α → List UInt8} {entries : List α} :
    counted encode entries = [] ↔ entries = [] := by
  unfold counted
  by_cases empty : entries = []
  · simp [empty]
  · have nonempty : entries.isEmpty ≠ true := by simpa using empty
    rw [if_neg nonempty]
    simp [bigEndian, empty]

theorem effects_eq_nil_iff {table : EffectTable} :
    effects table = [] ↔ table = .empty := by
  unfold effects
  obtain ⟨entries, ascending⟩ := table
  cases entries <;> simp [EffectTable.empty]

theorem teams_ne_nil {program : Program} (mode : program.header.teamMode = true)
    (roster : Roster program.header.participants program.teams) : teams program ≠ [] := by
  have several := roster.several
  have present : (program.header.teamMode && !program.teams.isEmpty) = true := by
    rw [mode, Bool.true_and, Bool.not_eq_true', List.isEmpty_eq_false_iff,
      ← List.length_pos_iff]
    omega
  rw [teams, if_pos present]
  exact List.cons_ne_nil _ _

end Encoder

/-- The bytes of a program are its header, the table of its sections and the sections; each of
them stands where the table says. -/
theorem Program.exists_layout (program : Program) :
    ∃ setup phases wins effects scoring patterns teams : Nat,
      Encoder.offsets headerSize (Encoder.sections program) =
          [setup, phases, wins, effects, scoring, patterns, teams] ∧
        program.encode = Encoder.fixedHeader program.header
          ++ ((Decoder.SectionTable.mk setup phases wins effects scoring patterns
            teams).toList.flatMap fun entry => Encoder.bigEndian entry.2 4)
          ++ (Encoder.sections program).flatten ∧
        List.Forall₂ (Decoder.Located program.encode)
          [setup, phases, wins, effects, scoring, patterns, teams]
          (Encoder.sections program) := by
  obtain ⟨setup, phases, wins, effects, scoring, patterns, teams, table⟩ :
      ∃ setup phases wins effects scoring patterns teams : Nat,
        Encoder.offsets headerSize (Encoder.sections program) =
          [setup, phases, wins, effects, scoring, patterns, teams] :=
    ⟨_, _, _, _, _, _, _, rfl⟩
  have layout : program.encode = Encoder.fixedHeader program.header
      ++ ((Decoder.SectionTable.mk setup phases wins effects scoring patterns
        teams).toList.flatMap fun entry => Encoder.bigEndian entry.2 4)
      ++ (Encoder.sections program).flatten := by
    unfold Program.encode
    simp only [table]
    rfl
  have frontLength : (Encoder.fixedHeader program.header
      ++ ((Decoder.SectionTable.mk setup phases wins effects scoring patterns
        teams).toList.flatMap fun entry => Encoder.bigEndian entry.2 4)).length =
        headerSize := by
    simp [Encoder.fixedHeader, Decoder.SectionTable.toList, headerSize]
  have placed := Decoder.located_offsets (Encoder.sections program) _ frontLength.ge
  rw [frontLength, table, ← layout] at placed
  exact ⟨_, _, _, _, _, _, _, table, layout, placed⟩

theorem Encoder.phases_ne_nil (written : List Phase) : Encoder.phases written ≠ [] := by
  simp [Encoder.phases, Encoder.bigEndian]

/-- The header of a program is read back together with the table that its layout gives. -/
theorem Program.header_encode {program : Program} (inRange : program.header.InRange)
    (short : program.encode.length < 0x80000000)
    {setup phases wins effects scoring patterns teams : Nat}
    (layout : program.encode = Encoder.fixedHeader program.header
      ++ ((Decoder.SectionTable.mk setup phases wins effects scoring patterns
        teams).toList.flatMap fun entry => Encoder.bigEndian entry.2 4)
      ++ (Encoder.sections program).flatten)
    (placed : List.Forall₂ (Decoder.Located program.encode)
      [setup, phases, wins, effects, scoring, patterns, teams] (Encoder.sections program)) :
    Decoder.header program.encode =
      .ok (program.header, ⟨setup, phases, wins, effects, scoring, patterns, teams⟩) := by
  simp only [Encoder.sections, List.forall₂_cons] at placed
  obtain ⟨atSetup, atPhases, atWins, atEffects, atScoring, atPatterns, atTeams, -⟩ := placed
  have someTurn : (phases : Int) ≠ 0 := by
    have behind := (atPhases.present (Encoder.phases_ne_nil program.phases)).1
    unfold headerSize at behind
    omega
  have inside : ∀ entry ∈ (Decoder.SectionTable.mk setup phases wins effects scoring patterns
      teams).toList, entry.2 = 0 ∨ (headerSize : Int) ≤ entry.2
        ∧ entry.2 < program.encode.length := by
    simp only [Decoder.SectionTable.toList, List.forall_mem_cons]
    exact ⟨atSetup.inside, atPhases.inside, atWins.inside, atEffects.inside, atScoring.inside,
      atPatterns.inside, atTeams.inside, by simp⟩
  exact Decoder.header_of_written inRange layout inside short someTurn

/-- A counted section that is present is read as it was written. -/
theorem Decoder.reads_counted_of_present {α : Type} {decoder : Decoder α}
    {encode : α → List UInt8} {size : Nat} {entries : List α}
    (each : ∀ entry ∈ entries, Reads decoder (encode entry) entry)
    (sized : ∀ entry ∈ entries, size = (encode entry).length) (positive : 0 < size)
    (short : (Encoder.counted encode entries).length < 0x80000000)
    (present : Encoder.counted encode entries ≠ []) :
    Reads (Decoder.counted size decoder) (Encoder.counted encode entries) entries :=
  reads_counted each sized positive (mt Encoder.counted_eq_nil_iff.mpr present) short

/-- A section of counted entries is read back, also if it is absent. -/
theorem Decoder.Located.counted {α : Type} {decoder : Decoder α} {encode : α → List UInt8}
    {size : Nat} {entries : List α} {bytes : List UInt8} {offset : Nat}
    (located : Located bytes offset (Encoder.counted encode entries))
    (short : bytes.length < 0x80000000) (place : Section) (positive : 0 < size)
    (each : ∀ entry ∈ entries, Reads decoder (encode entry) entry)
    (sized : ∀ entry ∈ entries, size = (encode entry).length) :
    Decoder.section? bytes place offset [] (Decoder.counted size decoder) = .ok entries := by
  have bounded := located.length_le
  refine located.section? place (fun empty => ?_) fun present => ?_
  · exact (Encoder.counted_eq_nil_iff.mp empty).symm
  · exact reads_counted_of_present each sized positive (by omega) present

/-- The roster of a program is read back in team mode, and there is none otherwise. -/
theorem Decoder.Located.teams {program : Program} {bytes : List UInt8} {offset : Nat}
    (located : Located bytes offset (Encoder.teams program)) (inRange : program.InRange) :
    (if program.header.teamMode then
        Decoder.section? bytes .teams offset [] (Decoder.teams program.header.participants)
      else
        pure []) = .ok program.teams := by
  have roster := inRange.teams
  by_cases mode : program.header.teamMode = true
  · rw [if_pos mode] at roster ⊢
    have present := Encoder.teams_ne_nil mode roster
    exact located.section? .teams (fun empty => absurd empty present)
      fun _ => reads_teams mode roster inRange.header.participants.2
  · rw [if_neg mode] at roster ⊢
    rw [roster]
    rfl

/-- What decoding comes down to: each part is read where the table of sections says. -/
structure Decoder.Decodes (bytes : List UInt8) (table : SectionTable) (program : Program) :
    Prop where
  header : Decoder.header bytes = .ok (program.header, table)
  setup : section? bytes .setup table.setup {} Decoder.setup = .ok program.setup
  phases : section? bytes .phases table.phases [] Decoder.phases = .ok program.phases
  winConditions : section? bytes .winConditions table.winConditions [] Decoder.winConditions =
    .ok program.winConditions
  effects : section? bytes .effects table.effects .empty Decoder.effects = .ok program.effects
  scoring : section? bytes .scoring table.scoring [] Decoder.scoring = .ok program.scoring
  patterns : section? bytes .handPatterns table.handPatterns [] handPatterns =
    .ok program.patterns
  teams : (if program.header.teamMode then
      Decoder.section? bytes .teams table.teams [] (Decoder.teams program.header.participants)
    else
      pure []) = .ok program.teams
  rostered : ¬(program.header.teamMode && program.teams.isEmpty) = true

theorem Program.decode_eq_ok_iff {bytes : List UInt8} {program : Program} :
    decode bytes = .ok program ↔ ∃ table, Decoder.Decodes bytes table program := by
  unfold decode
  simp only [bind_eq_ok_iff]
  constructor
  · rintro ⟨⟨header, table⟩, readHeader, setup, readSetup, phases, readPhases, winConditions,
      readWins, effects, readEffects, scoring, readScoring, patterns, readPatterns, rest⟩
    have ending : ∃ teams,
        (if header.teamMode then
            Decoder.section? bytes .teams table.teams [] (Decoder.teams header.participants)
          else
            pure []) = .ok teams ∧
          ¬(header.teamMode && teams.isEmpty) = true ∧
          Program.mk header setup phases winConditions effects scoring patterns teams =
            program := by
      by_cases mode : header.teamMode = true
      · rw [if_pos mode, bind_eq_ok_iff] at rest
        obtain ⟨teams, readTeams, done⟩ := rest
        obtain ⟨rostered, done⟩ := check_eq_ok_iff.mp done
        exact ⟨teams, by rwa [if_pos mode], rostered, pure_eq_ok_iff.mp done⟩
      · rw [if_neg mode, bind_eq_ok_iff] at rest
        obtain ⟨teams, readTeams, done⟩ := rest
        obtain ⟨rostered, done⟩ := check_eq_ok_iff.mp done
        exact ⟨teams, by rwa [if_neg mode], rostered, pure_eq_ok_iff.mp done⟩
    obtain ⟨teams, readTeams, rostered, rfl⟩ := ending
    exact ⟨table, readHeader, readSetup, readPhases, readWins, readEffects, readScoring,
      readPatterns, readTeams, rostered⟩
  · rintro ⟨table, decodes⟩
    refine ⟨_, decodes.header, _, decodes.setup, _, decodes.phases, _, decodes.winConditions, _,
      decodes.effects, _, decodes.scoring, _, decodes.patterns, ?_⟩
    have readTeams := decodes.teams
    by_cases mode : program.header.teamMode = true
    · rw [if_pos mode] at readTeams ⊢
      exact bind_eq_ok_iff.mpr ⟨_, readTeams, check_eq_ok_iff.mpr ⟨decodes.rostered, rfl⟩⟩
    · rw [if_neg mode] at readTeams ⊢
      exact bind_eq_ok_iff.mpr ⟨_, readTeams, check_eq_ok_iff.mpr ⟨decodes.rostered, rfl⟩⟩

/-- A program in range is read back in canonical form. -/
theorem Program.decode_encode_canonical {program : Program} (inRange : program.InRange)
    (short : program.encode.length < 0x80000000) :
    decode program.encode = .ok program.canonical := by
  obtain ⟨setup, phases, wins, effects, scoring, patterns, teams, -, layout, placed⟩ :=
    program.exists_layout
  have header := program.header_encode inRange.header short layout placed
  simp only [Encoder.sections, List.forall₂_cons] at placed
  obtain ⟨atSetup, atPhases, atWins, atEffects, atScoring, atPatterns, atTeams, -⟩ := placed
  refine decode_eq_ok_iff.mpr ⟨_, {
    header
    setup := ?_
    phases := ?_
    winConditions := ?_
    effects := ?_
    scoring := ?_
    patterns := ?_
    teams := atTeams.teams inRange
    rostered := ?_ }⟩
  · refine atSetup.section? .setup (fun empty => ?_) fun _ => Decoder.reads_setup inRange.setup
    simp [Encoder.setup, Encoder.bigEndian] at empty
  · refine atPhases.section? .phases
      (fun empty => absurd empty (Encoder.phases_ne_nil program.phases)) fun _ => ?_
    exact Decoder.reads_phases inRange.someTurn inRange.phases
      (Nat.lt_of_le_of_lt atPhases.length_le short)
  · exact atWins.counted short .winConditions (by decide)
      (fun condition member =>
        Decoder.reads_winCondition (inRange.winConditions condition member))
      fun condition _ => Decoder.length_winCondition condition
  · refine atEffects.section? .effects (fun empty => ?_) fun present => ?_
    · exact (Encoder.effects_eq_nil_iff.mp empty).symm
    · refine Decoder.reads_effects inRange.effects fun empty => present ?_
      simp [Encoder.effects, empty]
  · exact atScoring.counted short .scoring (by decide)
      (fun rule member => Decoder.reads_scoringRule (inRange.scoring rule member))
      fun rule _ => Decoder.length_scoringRule rule
  · exact atPatterns.counted short .handPatterns (by decide)
      (fun pattern member => Decoder.reads_handPattern (inRange.patterns pattern member))
      fun pattern _ => Decoder.length_handPattern pattern
  · have roster := inRange.teams
    by_cases mode : program.header.teamMode = true
    · rw [if_pos mode] at roster
      have several := roster.several
      cases teamsListed : program.teams with
      | nil => simp [teamsListed] at several
      | cons first rest => simp [canonical, teamsListed]
    · simp [canonical, mode]

/-- A well-formed program is read back as it was. -/
theorem Program.decode_encode {program : Program} (wellFormed : program.WellFormed)
    (short : program.encode.length < 0x80000000) :
    decode program.encode = .ok program := by
  have read := decode_encode_canonical wellFormed.toInRange short
  rwa [program.canonical_eq_self_iff.mpr wellFormed.canonical] at read

/-- Spades has two phases, scoring rules and teams, but neither effects nor hand patterns. -/
theorem Program.decode_encode_spades :
    Library.spades.WellFormed ∧ Library.spades.encode.length < 0x80000000 ∧
      decode Library.spades.encode = .ok Library.spades :=
  have wellFormed : Library.spades.WellFormed := by decide +kernel
  have short : Library.spades.encode.length < 0x80000000 := by decide +kernel
  ⟨wellFormed, short, decode_encode wellFormed short⟩

end Croupier
