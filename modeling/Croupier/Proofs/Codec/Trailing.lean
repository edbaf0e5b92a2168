/-
More bytes behind an accepted program change nothing.

A decoder is steady if, wherever it succeeds, it gives the same value with more bytes behind the
ones that are there, and leaves those bytes untouched. The number of bytes that are left is only
ever asked for in order to see whether there are enough, so every decoder is steady. With the
size of the program its checks of offsets get weaker, so that whatever was accepted still is.
-/

import Croupier.Proofs.Codec.RoundTrip

namespace Croupier

namespace Decoder

variable {α β : Type}

/-- The same cursor with more bytes behind the ones that are left. -/
def Cursor.before (cursor : Cursor) (extra : List UInt8) : Cursor :=
  { cursor with rest := cursor.rest ++ extra }

/-- What the decoder reads does not depend on what stands behind it. -/
def Steady (decoder : Decoder α) : Prop :=
  ∀ cursor value next extra, decoder cursor = .ok (value, next) →
    decoder (Cursor.before cursor extra) = .ok (value, Cursor.before next extra)

/-! ### Composition -/

theorem steady_pure (value : α) : Steady (pure value) := by
  intro cursor result next extra read
  cases read
  rfl

theorem steady_fail (cause : ParseCause) : Steady (fail cause : Decoder α) := by
  intro cursor value next extra read
  cases read

theorem Steady.bind {decoder : Decoder α} {next : α → Decoder β} (first : Steady decoder)
    (second : ∀ value, Steady (next value)) : Steady (decoder >>= next) := by
  intro cursor result last extra read
  change (decoder cursor >>= fun step => next step.1 step.2) = _ at read
  obtain ⟨⟨value, middle⟩, here, there⟩ := bind_eq_ok_iff.mp read
  change (decoder _ >>= fun step => next step.1 step.2) = _
  rw [first cursor value middle extra here]
  exact second value middle result last extra there

theorem Steady.map {decoder : Decoder α} (change : α → β) (steady : Steady decoder) :
    Steady (change <$> decoder) := by
  rw [← bind_pure_comp]
  exact steady.bind fun value => steady_pure (change value)

theorem steady_times {decoder : Decoder α} (steady : Steady decoder) (count : Nat) :
    Steady (times decoder count) := by
  induction count with
  | zero => exact steady_pure []
  | succ count ih => exact steady.bind fun first => ih.bind fun rest => steady_pure _

/-! ### Checks and numbers -/

theorem steady_require (condition : Bool) (cause : ParseCause) :
    Steady (require condition cause) := by
  unfold require
  cases condition with
  | false => exact steady_fail cause
  | true => exact steady_pure ()

/-- Asking how much is left is not steady, but asking whether that is enough is: there is only
more of it. -/
theorem Steady.room {next : Decoder α} (size : Nat) (cause : Nat → ParseCause)
    (steady : Steady next) :
    Steady (do let left ← remaining; require (size ≤ left) (cause left); next) := by
  intro cursor value last extra read
  change (require (decide (size ≤ cursor.rest.length)) _ >>= fun _ => next) cursor = _ at read
  change (require (decide (size ≤ (cursor.rest ++ extra).length)) _ >>= fun _ => next)
    (Cursor.before cursor extra) = _
  have grown : cursor.rest.length ≤ (cursor.rest ++ extra).length := by
    rw [List.length_append]
    exact Nat.le_add_right _ _
  by_cases enough : size ≤ cursor.rest.length
  · rw [require, if_pos (decide_eq_true enough)] at read
    rw [require, if_pos (decide_eq_true (Nat.le_trans enough grown))]
    exact steady cursor value last extra read
  · rw [require, decide_eq_false enough] at read
    cases read

theorem steady_take (count : Nat) : Steady (take count) := by
  intro cursor value next extra read
  unfold take at read ⊢
  dsimp only at read ⊢
  by_cases short : (cursor.rest.take count).length < count
  · rw [if_pos short] at read
    cases read
  · rw [if_neg short] at read
    cases read
    have enough : count ≤ cursor.rest.length := by
      rw [List.length_take] at short
      omega
    have taken : (Cursor.before cursor extra).rest.take count = cursor.rest.take count :=
      List.take_append_of_le_length enough
    have left : (Cursor.before cursor extra).rest.drop count = cursor.rest.drop count ++ extra :=
      List.drop_append_of_le_length enough
    rw [taken, left, if_neg short]
    rfl

theorem steady_byte : Steady byte :=
  (steady_take 1).bind fun _ => steady_pure _

theorem steady_small : Steady small :=
  steady_byte.bind fun _ => steady_pure _

theorem steady_flag : Steady flag :=
  steady_byte.bind fun _ => steady_pure _

theorem steady_natural (width : Nat) : Steady (natural width) :=
  (steady_take width).bind fun _ => steady_pure _

theorem steady_integer (width : Nat) : Steady (integer width) :=
  (steady_take width).bind fun _ => steady_pure _

/-! ### Words and conditions -/

theorem steady_optionalSuit : Steady optionalSuit := by
  refine steady_small.bind fun code => ?_
  by_cases absent : code = noSuitCode
  · rw [if_pos absent]
    exact steady_pure none
  · rw [if_neg absent]
    cases Suit.ofIndex? code with
    | none => exact steady_fail _
    | some suit => exact steady_pure _

theorem steady_condition : Steady condition :=
  steady_byte.bind fun _ => steady_small.bind fun _ => (steady_integer 4).bind fun _ =>
    steady_byte.bind fun _ => (steady_require _ _).bind fun _ => steady_pure _

theorem steady_conditionBlock (length : Nat) : Steady (conditionBlock length) := by
  unfold conditionBlock
  by_cases empty : length = 0
  · rw [if_pos empty]
    exact steady_pure _
  · rw [if_neg empty]
    refine Steady.room length (fun _ => .truncated) ?_
    by_cases single : length = conditionSize
    · rw [if_pos single]
      exact steady_condition.bind fun _ => steady_pure _
    · rw [if_neg single]
      exact (steady_require _ _).bind fun _ => steady_small.bind fun _ =>
        (steady_require _ _).bind fun _ =>
          (steady_times steady_condition _).bind fun _ => steady_pure _

/-! ### Phases -/

theorem steady_drawPhase : Steady drawPhase := by
  refine steady_small.bind fun source => (steady_natural 4).bind fun count =>
    steady_flag.bind fun mandatory => steady_flag.bind fun conditional =>
      (steady_require _ _).bind fun _ => (steady_require _ _).bind fun _ => ?_
  cases conditional with
  | false => exact (steady_pure none).bind fun _ => steady_pure _
  | true => exact (steady_condition.map some).bind fun _ => steady_pure _

theorem steady_playPhase : Steady playPhase :=
  steady_small.bind fun _ => steady_small.bind fun _ => steady_small.bind fun _ =>
    steady_flag.bind fun _ => steady_flag.bind fun _ => (steady_natural 4).bind fun length =>
      (steady_require _ _).bind fun _ => (steady_require _ _).bind fun _ =>
        (steady_conditionBlock length).bind fun _ => steady_pure _

theorem steady_discardPhase : Steady discardPhase :=
  steady_small.bind fun _ => (steady_natural 4).bind fun _ => steady_flag.bind fun _ =>
    (steady_require _ _).bind fun _ => (steady_require _ _).bind fun _ => steady_pure _

theorem steady_trickPhase : Steady trickPhase :=
  steady_flag.bind fun _ => steady_optionalSuit.bind fun _ => steady_flag.bind fun _ =>
    steady_optionalSuit.bind fun _ => steady_pure _

theorem steady_bettingPhase : Steady bettingPhase :=
  (steady_natural 4).bind fun _ => (steady_natural 4).bind fun _ =>
    (steady_require _ _).bind fun _ => (steady_require _ _).bind fun _ => steady_pure _

theorem steady_claimPhase : Steady claimPhase :=
  steady_flag.bind fun _ => steady_pure _

theorem steady_biddingPhase : Steady biddingPhase :=
  steady_small.bind fun _ => steady_small.bind fun _ => steady_flag.bind fun _ =>
    (steady_require _ _).bind fun _ => steady_pure _

theorem steady_phase : Steady phase := by
  refine steady_small.bind fun kind => ?_
  split
  · exact steady_drawPhase.map Phase.draw
  · exact steady_playPhase.map Phase.play
  · exact steady_discardPhase.map Phase.discard
  · exact steady_trickPhase.map Phase.trick
  · exact steady_bettingPhase.map Phase.betting
  · exact steady_claimPhase.map Phase.claim
  · exact steady_biddingPhase.map Phase.bidding
  · exact steady_fail _

/-! ### Sections -/

theorem steady_setup : Steady setup :=
  (steady_integer 4).bind fun _ => (steady_integer 4).bind fun _ =>
    (steady_integer 4).bind fun _ => (steady_require _ _).bind fun _ => steady_pure _

theorem steady_phases : Steady phases :=
  (steady_natural 4).bind fun count => (steady_require _ _).bind fun _ =>
    Steady.room count (fun _ => .truncated) (steady_times steady_phase count)

theorem steady_counted {entry : Decoder α} (size : Nat) (steady : Steady entry) :
    Steady (counted size entry) :=
  (steady_natural 4).bind fun count =>
    Steady.room (count * size) (fun _ => .truncated) (steady_times steady count)

theorem steady_winCondition : Steady winCondition :=
  steady_byte.bind fun _ => (steady_integer 4).bind fun _ => steady_small.bind fun _ =>
    steady_small.bind fun _ => (steady_require _ _).bind fun _ =>
      (steady_require _ _).bind fun _ => steady_pure _

theorem steady_scoringRule : Steady scoringRule :=
  steady_byte.bind fun _ => steady_byte.bind fun _ => (steady_integer 2).bind fun _ =>
    steady_pure _

theorem steady_handPattern : Steady handPattern :=
  steady_small.bind fun _ => steady_small.bind fun _ => (steady_integer 2).bind fun _ =>
    (steady_require _ _).bind fun _ => steady_pure _

theorem steady_effectEntry : Steady effectEntry := by
  refine steady_small.bind fun rank => steady_byte.bind fun kind => steady_byte.bind fun target =>
    steady_small.bind fun value => ?_
  cases Rank.ofIndex? rank with
  | none => exact steady_fail _
  | some rank => exact steady_pure _

theorem steady_effects : Steady effects :=
  steady_small.bind fun _ => (steady_require _ _).bind fun _ => steady_small.bind fun count =>
    Steady.room (count * 4) (fun left => .truncatedEffects count left)
      ((steady_times steady_effectEntry count).bind fun _ => steady_pure _)

theorem steady_members (participants : Int) (count : Nat) :
    ∀ assigned, Steady (members participants count assigned) := by
  induction count with
  | zero => exact fun _ => steady_pure []
  | succ count ih =>
      exact fun assigned => steady_small.bind fun member => (steady_require _ _).bind fun _ =>
        (steady_require _ _).bind fun _ => (ih (member :: assigned)).bind fun _ => steady_pure _

theorem steady_rosters (participants : Int) (count : Nat) :
    ∀ team assigned, Steady (rosters participants count team assigned) := by
  induction count with
  | zero => exact fun _ _ => steady_pure []
  | succ count ih =>
      exact fun team assigned => steady_small.bind fun size => (steady_require _ _).bind fun _ =>
        (steady_members participants size assigned).bind fun roster =>
          (ih (team + 1) (roster ++ assigned)).bind fun _ => steady_pure _

theorem steady_teams (participants : Int) : Steady (teams participants) :=
  steady_small.bind fun count => (steady_require _ _).bind fun _ =>
    steady_rosters participants count 0 []

/-! ### The header -/

theorem steady_rawHeader : Steady rawHeader :=
  steady_small.bind fun _ => steady_small.bind fun _ => steady_small.bind fun _ =>
    steady_small.bind fun _ => (steady_natural 2).bind fun _ => steady_small.bind fun _ =>
      steady_small.bind fun _ => (steady_natural 4).bind fun _ => (steady_natural 4).bind fun _ =>
        (steady_natural 8).bind fun _ => (steady_integer 4).bind fun _ =>
          (steady_integer 4).bind fun _ => (steady_integer 4).bind fun _ =>
            (steady_integer 4).bind fun _ => (steady_integer 4).bind fun _ =>
              (steady_integer 4).bind fun _ => (steady_integer 4).bind fun _ => steady_pure _

theorem Steady.run' {decoder : Decoder α} {cursor : Cursor} {value : α} (steady : Steady decoder)
    (extra : List UInt8) (read : StateT.run' decoder cursor = .ok value) :
    StateT.run' decoder (Cursor.before cursor extra) = .ok value := by
  obtain ⟨⟨_, next⟩, here, rfl⟩ := map_eq_ok_iff.mp read
  exact map_eq_ok_iff.mpr ⟨_, steady cursor _ next extra here, rfl⟩

/-- The check of the sections accepts exactly the tables whose present sections begin behind the
header and inside the program. -/
theorem checkSections_eq_ok_iff {size : Nat} {listed : List (Section × Int)} :
    ∀ {entry}, checkSections size entry listed = .ok () ↔
      ∀ entry ∈ listed, entry.2 = 0 ∨ (headerSize : Int) ≤ entry.2 ∧ entry.2 < size := by
  intro entry
  refine ⟨fun accepted => ?_, fun inside => checkSections_of_inside inside entry⟩
  induction listed generalizing entry with
  | nil => simp
  | cons first rest ih =>
      unfold checkSections at accepted
      obtain ⟨here, there⟩ := check_eq_ok_iff.mp accepted
      rw [List.forall_mem_cons]
      refine ⟨?_, ih there⟩
      simp only [Bool.and_eq_true, Bool.or_eq_true, decide_eq_true_eq] at here
      omega

/-- What an accepted header says about the bytes. -/
structure Headed (bytes : List UInt8) (raw : RawHeader) : Prop where
  long : headerSize ≤ bytes.length
  read : rawHeader.run' ⟨.header, 0, bytes⟩ = .ok raw
  accepted : raw.check = .ok ()
  inside : ∀ entry ∈ raw.sections.toList,
    entry.2 = 0 ∨ (headerSize : Int) ≤ entry.2 ∧ entry.2 < bytes.length
  someTurn : raw.sections.phases ≠ 0

theorem header_eq_ok_iff {bytes : List UInt8} {written : Header} {table : SectionTable} :
    header bytes = .ok (written, table) ↔
      ∃ raw, Headed bytes raw ∧ raw.toHeader = written ∧ raw.sections = table := by
  unfold header
  constructor
  · intro read
    obtain ⟨long, read⟩ := check_eq_ok_iff.mp read
    obtain ⟨raw, first, read⟩ := bind_eq_ok_iff.mp read
    obtain ⟨_, accepted, read⟩ := bind_eq_ok_iff.mp read
    obtain ⟨_, inside, read⟩ := bind_eq_ok_iff.mp read
    obtain ⟨someTurn, read⟩ := check_eq_ok_iff.mp read
    obtain ⟨same, sections⟩ := Prod.mk.inj (pure_eq_ok_iff.mp read)
    exact ⟨raw, ⟨Nat.le_of_not_lt long, first, accepted, checkSections_eq_ok_iff.mp inside,
      someTurn⟩, same, sections⟩
  · rintro ⟨raw, headed, rfl, rfl⟩
    refine check_eq_ok_iff.mpr ⟨Nat.not_lt.mpr headed.long, bind_eq_ok_iff.mpr ⟨raw, headed.read,
      bind_eq_ok_iff.mpr ⟨(), headed.accepted, bind_eq_ok_iff.mpr ⟨(), ?_, ?_⟩⟩⟩⟩
    · exact checkSections_eq_ok_iff.mpr headed.inside
    · exact check_eq_ok_iff.mpr ⟨headed.someTurn, rfl⟩

theorem Headed.append {bytes : List UInt8} {raw : RawHeader} (headed : Headed bytes raw)
    (extra : List UInt8) : Headed (bytes ++ extra) raw := by
  have grown : bytes.length ≤ (bytes ++ extra).length := by
    rw [List.length_append]
    exact Nat.le_add_right _ _
  refine ⟨Nat.le_trans headed.long grown, steady_rawHeader.run' extra headed.read,
    headed.accepted, fun entry listed => ?_, headed.someTurn⟩
  rcases headed.inside entry listed with absent | ⟨behind, inside⟩
  · exact Or.inl absent
  · exact Or.inr ⟨behind, by omega⟩

theorem header_append {bytes : List UInt8} {written : Header} {table : SectionTable}
    (read : header bytes = .ok (written, table)) (extra : List UInt8) :
    header (bytes ++ extra) = .ok (written, table) := by
  obtain ⟨raw, headed, same, sections⟩ := header_eq_ok_iff.mp read
  exact header_eq_ok_iff.mpr ⟨raw, headed.append extra, same, sections⟩

/-- The sections of an accepted program begin inside it, so they still begin there with more
bytes behind. -/
theorem header_drop_append {bytes : List UInt8} {written : Header} {table : SectionTable}
    (read : header bytes = .ok (written, table)) (extra : List UInt8) :
    ∀ entry ∈ table.toList,
      (bytes ++ extra).drop entry.2.toNat = bytes.drop entry.2.toNat ++ extra := by
  obtain ⟨raw, headed, _, rfl⟩ := header_eq_ok_iff.mp read
  intro entry listed
  have inside := headed.inside entry listed
  exact List.drop_append_of_le_length (by omega)

/-! ### The whole program -/

theorem Steady.section? {decoder : Decoder α} {bytes extra : List UInt8} {place : Section}
    {offset : Int} {absent value : α} (steady : Steady decoder)
    (stands : (bytes ++ extra).drop offset.toNat = bytes.drop offset.toNat ++ extra)
    (read : section? bytes place offset absent decoder = .ok value) :
    Decoder.section? (bytes ++ extra) place offset absent decoder = .ok value := by
  unfold Decoder.section? at read ⊢
  by_cases zero : offset = 0
  · rw [if_pos zero] at read ⊢
    exact read
  · rw [if_neg zero] at read ⊢
    rw [stands]
    exact steady.run' extra read

end Decoder

/-- Whatever stands behind an accepted program is ignored, however its sections lie. -/
theorem Program.decode_append {bytes : List UInt8} {program : Program}
    (accepted : decode bytes = .ok program) (extra : List UInt8) :
    decode (bytes ++ extra) = .ok program := by
  obtain ⟨table, decodes⟩ := decode_eq_ok_iff.mp accepted
  have stands := Decoder.header_drop_append decodes.header extra
  simp only [Decoder.SectionTable.toList, List.forall_mem_cons] at stands
  obtain ⟨setup, phases, wins, effects, scoring, patterns, teams, -⟩ := stands
  refine decode_eq_ok_iff.mpr ⟨table, {
    header := Decoder.header_append decodes.header extra
    setup := Decoder.steady_setup.section? setup decodes.setup
    phases := Decoder.steady_phases.section? phases decodes.phases
    winConditions := (Decoder.steady_counted 7 Decoder.steady_winCondition).section? wins
      decodes.winConditions
    effects := Decoder.steady_effects.section? effects decodes.effects
    scoring := (Decoder.steady_counted 4 Decoder.steady_scoringRule).section? scoring
      decodes.scoring
    patterns := (Decoder.steady_counted 4 Decoder.steady_handPattern).section? patterns
      decodes.patterns
    teams := ?_
    rostered := decodes.rostered }⟩
  have read := decodes.teams
  by_cases mode : program.header.teamMode = true
  · rw [if_pos mode] at read ⊢
    exact (Decoder.steady_teams _).section? teams read
  · rw [if_neg mode] at read ⊢
    exact read

/-- Sections that overlap are accepted, and what stands behind them is ignored all the same. -/
theorem Program.decode_append_overlap :
    -- A header whose setup begins at byte 53, inside the phases at byte 52.
    let front : List UInt8 :=
      [1, 0, 0, 0, 0, 0, 1, 0, 0, 0, 0, 2, 0, 0, 3, 232, 0, 0, 0, 0, 0, 0, 0, 0,
        0, 0, 0, 53, 0, 0, 0, 52, 0, 0, 0, 0, 0, 0, 0, 0, 0, 0, 0, 0, 0, 0, 0, 0, 0, 0, 0, 0,
        0, 0, 0, 1, 6, 0, 0, 0, 0, 0, 0, 0, 0]
    let program : Program :=
      { setup := { cardsPerParticipant := 262 }
        phases := [.claim { allowChallenge := false }] }
    decode front = .ok program ∧ decode (front ++ [60, 255, 7]) = .ok program := by
  intro front program
  have accepted : decode front = .ok program := by decide +kernel
  exact ⟨accepted, decode_append accepted [60, 255, 7]⟩

end Croupier
