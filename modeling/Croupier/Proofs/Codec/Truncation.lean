/-
Every truncation of a written program is refused.

Suppose that a program cut short were accepted. Then so would be the whole program, and each
section would read the same bytes of either: it has to end before the cut. But the sections fill
the program up to its end, so nothing was cut off.
-/

import Croupier.Proofs.Codec.Acceptance
import Croupier.Proofs.Codec.Trailing

namespace Croupier

namespace Decoder

variable {α : Type}

/-- A section of the whole that is also read from the front ends inside the front. -/
theorem Located.end_le {front extra body : List UInt8} {offset : Nat} {decoder : Decoder α}
    {place : Section} {written found absent : α} (steady : Steady decoder)
    (located : Located (front ++ extra) offset body)
    (reads : body ≠ [] → Reads decoder body written)
    (stands : (front ++ extra).drop offset = front.drop offset ++ extra)
    (read : Decoder.section? front place offset absent decoder = .ok found) :
    body ≠ [] → offset + body.length ≤ front.length := by
  intro present
  obtain ⟨behind, rest, bytes⟩ := located.present present
  have beyond : (offset : Int) ≠ 0 := by
    unfold headerSize at behind
    omega
  unfold Decoder.section? at read
  rw [if_neg beyond, Int.toNat_natCast] at read
  obtain ⟨⟨value, next⟩, here, -⟩ := map_eq_ok_iff.mp read
  -- The decoder stops in front of the extra bytes, and at the end of the body.
  have again : decoder ⟨place, offset, front.drop offset ++ extra⟩ = _ :=
    steady _ value next extra here
  rw [← stands, bytes, reads present] at again
  have left : rest = next.rest ++ extra :=
    congrArg Cursor.rest (Prod.mk.inj (Except.ok.inj again)).2
  have positive := List.length_pos_iff.mpr present
  have size := congrArg List.length bytes
  rw [left, List.length_drop] at size
  simp only [List.length_append] at size
  omega

/-- Sections that all end at or before a bound fill no more than the bytes up to there. -/
theorem length_flatten_le {bound : Nat} {sections : List (List UInt8)} :
    ∀ {start}, start ≤ bound →
      List.Forall₂ (fun offset body => body ≠ [] → offset + body.length ≤ bound)
        (Encoder.offsets start sections) sections →
      start + sections.flatten.length ≤ bound := by
  induction sections with
  | nil => exact fun fits _ => fits
  | cons body rest ih =>
      intro start fits ends
      rw [Encoder.offsets, List.forall₂_cons] at ends
      obtain ⟨here, there⟩ := ends
      have reached : start + body.length ≤ bound := by
        by_cases empty : body = []
        · rw [empty]
          exact fits
        · rw [if_neg (by simpa using empty)] at here
          exact here empty
      rw [List.flatten_cons, List.length_append, ← Nat.add_assoc]
      exact ih reached there

/-- Wherever a written program is cut, each section that is still read lies before the cut. -/
theorem Decodes.ends_le {program found : Program} (inRange : program.InRange)
    (short : program.encode.length < 0x80000000) {front extra : List UInt8}
    (whole : front ++ extra = program.encode)
    {setup phases wins effects scoring patterns teams : Nat}
    (placed : List.Forall₂ (Located program.encode)
      [setup, phases, wins, effects, scoring, patterns, teams] (Encoder.sections program))
    (decodes : Decodes front ⟨setup, phases, wins, effects, scoring, patterns, teams⟩ found)
    (same : found.header = program.header) :
    List.Forall₂ (fun offset body => body ≠ [] → offset + body.length ≤ front.length)
      [setup, phases, wins, effects, scoring, patterns, teams] (Encoder.sections program) := by
  have stands := header_drop_append decodes.header extra
  simp only [SectionTable.toList, List.forall_mem_cons, Int.toNat_natCast] at stands
  obtain ⟨setupStands, phasesStands, winsStands, effectsStands, scoringStands, patternsStands,
    teamsStands, -⟩ := stands
  rw [← whole] at placed short
  simp only [Encoder.sections, List.forall₂_cons] at placed ⊢
  obtain ⟨atSetup, atPhases, atWins, atEffects, atScoring, atPatterns, atTeams, -⟩ := placed
  have bounded {body : List UInt8} {offset : Nat} (located : Located (front ++ extra) offset body) :
      body.length < 0x80000000 :=
    Nat.lt_of_le_of_lt located.length_le short
  refine ⟨?_, ?_, ?_, ?_, ?_, ?_, ?_, .nil⟩
  · exact atSetup.end_le steady_setup (fun _ => reads_setup inRange.setup) setupStands
      decodes.setup
  · exact atPhases.end_le steady_phases
      (fun _ => reads_phases inRange.someTurn inRange.phases (bounded atPhases)) phasesStands
      decodes.phases
  · exact atWins.end_le (steady_counted 7 steady_winCondition)
      (reads_counted_of_present
        (fun condition member => reads_winCondition (inRange.winConditions condition member))
        (fun condition _ => length_winCondition condition) (by decide) (bounded atWins))
      winsStands decodes.winConditions
  · exact atEffects.end_le steady_effects
      (fun present => reads_effects inRange.effects
        fun empty => present (by simp [Encoder.effects, empty]))
      effectsStands decodes.effects
  · exact atScoring.end_le (steady_counted 4 steady_scoringRule)
      (reads_counted_of_present
        (fun rule member => reads_scoringRule (inRange.scoring rule member))
        (fun rule _ => length_scoringRule rule) (by decide) (bounded atScoring))
      scoringStands decodes.scoring
  · exact atPatterns.end_le (steady_counted 4 steady_handPattern)
      (reads_counted_of_present
        (fun pattern member => reads_handPattern (inRange.patterns pattern member))
        (fun pattern _ => length_handPattern pattern) (by decide) (bounded atPatterns))
      patternsStands decodes.patterns
  · have roster := inRange.teams
    have read := decodes.teams
    rw [same] at read
    by_cases mode : program.header.teamMode = true
    · rw [if_pos mode] at roster read
      exact atTeams.end_le (steady_teams _)
        (fun _ => reads_teams mode roster inRange.header.participants.2) teamsStands read
    · exact fun present => absurd (by simp [Encoder.teams, mode]) present

end Decoder

/-- Behind the header and the table of sections there are the sections and nothing else. -/
theorem Program.length_encode (program : Program) :
    program.encode.length = headerSize + (Encoder.sections program).flatten.length := by
  unfold encode
  simp only [Encoder.fixedHeader, Encoder.sections, Encoder.offsets, List.flatMap_cons,
    List.flatMap_nil, List.length_append, List.length_cons, List.length_nil,
    Encoder.length_bigEndian, headerSize]

/-- No program that is cut short is accepted, wherever the cut falls. -/
theorem Program.InRange.exists_error {program : Program} (inRange : program.InRange)
    (short : program.encode.length < 0x80000000) {front : List UInt8}
    (cut : front <+: program.encode) (proper : front ≠ program.encode) :
    ∃ problem, decode front = .error problem := by
  obtain ⟨extra, whole⟩ := cut
  cases result : decode front with
  | error problem => exact ⟨problem, rfl⟩
  | ok found =>
      exfalso
      obtain ⟨table, decodes⟩ := decode_eq_ok_iff.mp result
      obtain ⟨setup, phases, wins, effects, scoring, patterns, teams, offsets, layout, placed⟩ :=
        program.exists_layout
      -- The front has the header of the whole program, and with it the offsets of its sections.
      have header := Decoder.header_append decodes.header extra
      rw [whole, program.header_encode inRange.header short layout placed] at header
      obtain ⟨same, rfl⟩ := Prod.mk.inj (Except.ok.inj header)
      have ends := decodes.ends_le inRange short whole placed same.symm
      rw [← offsets] at ends
      obtain ⟨raw, headed, -⟩ := Decoder.header_eq_ok_iff.mp decodes.header
      have filled := Decoder.length_flatten_le headed.long ends
      have total := congrArg List.length whole
      rw [List.length_append, program.length_encode] at total
      have nothing : extra = [] := List.length_eq_zero_iff.mp (by omega)
      rw [nothing, List.append_nil] at whole
      exact proper whole

/-- Whatever was read and is written again, no proper prefix of what is written is accepted. -/
theorem Program.truncation_refused {bytes : List UInt8} {program : Program}
    (accepted : decode bytes = .ok program) (short : program.encode.length < 0x80000000)
    {front : List UInt8} (cut : front <+: program.encode) (proper : front ≠ program.encode) :
    ∃ problem, decode front = .error problem :=
  (inRange_of_decode accepted).exists_error short cut proper

/-- Scopa without its last byte, which is the trigger of its second win condition. -/
theorem Program.truncation_refused_scopa :
    decode Library.scopa.encode = .ok Library.scopa ∧
      Library.scopa.encode.length < 0x80000000 ∧
      Library.scopa.encode.dropLast <+: Library.scopa.encode ∧
      Library.scopa.encode.dropLast ≠ Library.scopa.encode ∧
      ∃ problem, decode Library.scopa.encode.dropLast = .error problem :=
  have accepted : decode Library.scopa.encode = .ok Library.scopa := by decide +kernel
  have short : Library.scopa.encode.length < 0x80000000 := by decide +kernel
  have cut : Library.scopa.encode.dropLast <+: Library.scopa.encode := List.dropLast_prefix _
  have proper : Library.scopa.encode.dropLast ≠ Library.scopa.encode := by decide +kernel
  ⟨accepted, short, cut, proper, truncation_refused accepted short cut proper⟩

end Croupier
