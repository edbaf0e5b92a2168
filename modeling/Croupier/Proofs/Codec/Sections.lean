/-
Sections are read as they were written.

A section of a count and entries is read entry by entry. Effects come back in the order of their
ranks, so that entering them one after the other rebuilds the table. A roster shares out at most
as many seats as there are participants, so its numbers fit into bytes.
-/

import Croupier.Proofs.Codec.Phases

namespace Croupier

/-! ### Tables of effects -/

namespace EffectTable

theorem insertEntry_of_above {rank : RankWord} {effect : Effect}
    {entries : List (RankWord × Effect)}
    (above : ∀ entry ∈ entries, entry.1.index < rank.index) :
    insertEntry rank effect entries = entries ++ [(rank, effect)] := by
  induction entries with
  | nil => rfl
  | cons first rest ih =>
      have firstBelow := above first List.mem_cons_self
      have restInserted := ih fun entry member => above entry (List.mem_cons_of_mem first member)
      unfold insertEntry
      rw [if_neg (by omega), if_neg (by omega), restInserted, List.cons_append]

private theorem entries_foldl_insert (entries : List (RankWord × Effect)) (table : EffectTable)
    (ascending : (table.entries ++ entries).Pairwise
      (fun left right => left.1.index < right.1.index)) :
    (entries.foldl (fun table entry => table.insert entry.1 entry.2) table).entries =
      table.entries ++ entries := by
  induction entries generalizing table with
  | nil => exact (List.append_nil _).symm
  | cons first rest ih =>
      have above : ∀ entry ∈ table.entries, entry.1.index < first.1.index := by
        intro entry member
        exact (List.pairwise_append.mp ascending).2.2 entry member first List.mem_cons_self
      have inserted : (table.insert first.1 first.2).entries = table.entries ++ [first] :=
        insertEntry_of_above above
      rw [List.foldl_cons, ih (table.insert first.1 first.2)]
      · rw [inserted, List.append_assoc, List.singleton_append]
      · rw [inserted, List.append_assoc, List.singleton_append]
        exact ascending

/-- Entering the effects of a table in their order rebuilds it. -/
theorem ofList_entries (table : EffectTable) : ofList table.entries = table := by
  have entries := entries_foldl_insert table.entries .empty table.ascending
  cases table with
  | mk listed ascending => exact EffectTable.mk.injEq _ _ _ _ |>.mpr entries

/-- A table holds at most one effect for each known rank. -/
theorem length_entries_le {table : EffectTable}
    (known : ∀ entry ∈ table.entries, entry.1 ∈ RankWord.known) :
    table.entries.length ≤ RankWord.known.length := by
  have distinct : (table.entries.map (·.1)).Nodup := by
    refine List.pairwise_map.mpr (table.ascending.imp ?_)
    intro left right below same
    rw [same] at below
    exact Nat.lt_irrefl _ below
  have listed : table.entries.map (·.1) ⊆ RankWord.known := by
    intro rank member
    obtain ⟨entry, entryMember, rfl⟩ := List.mem_map.mp member
    exact known entry entryMember
  have bounded := (List.subperm_of_subset distinct listed).length_le
  rwa [List.length_map] at bounded

end EffectTable

/-! ### Rosters -/

theorem Roster.length_flatten_le {participants : Int} {teams : List (List Int)}
    (roster : Roster participants teams) (atMost : participants ≤ maxParticipants) :
    teams.flatten.length ≤ maxParticipants := by
  have seats : teams.flatten ⊆ (List.range maxParticipants).map Int.ofNat := by
    intro member there
    obtain ⟨nonneg, below⟩ := roster.seated member there
    refine List.mem_map.mpr ⟨member.toNat, List.mem_range.mpr (by omega), ?_⟩
    exact Int.toNat_of_nonneg nonneg
  have bounded := (List.subperm_of_subset roster.apart seats).length_le
  rwa [List.length_map, List.length_range] at bounded

namespace Decoder

/-! ### Counted sections -/

theorem reads_setup {written : Setup} (inRange : written.InRange) :
    Reads setup (Encoder.setup written) written := by
  obtain ⟨⟨cardsNonneg, cardsBelow⟩, ⟨discardsNonneg, discardsBelow⟩,
    chipsNonneg, chipsBelow⟩ := inRange
  have fits {value : Int} (nonneg : 0 ≤ value) (below : value < 0x80000000) :
      Reads (integer 4) (Encoder.bigEndian value 4) value :=
    reads_integer (by decide) ⟨by omega, by unfold signedLimit; simp only [Nat.pow_eq]; omega⟩
  have accepted :
      (0 ≤ written.cardsPerParticipant && 0 ≤ written.initialDiscards
        && 0 ≤ written.startingChips) = true := by
    simp only [Bool.and_eq_true, decide_eq_true_eq]
    exact ⟨⟨cardsNonneg, discardsNonneg⟩, chipsNonneg⟩
  refine Reads.of_eq ((fits cardsNonneg cardsBelow).bind
    ((fits discardsNonneg discardsBelow).bind ((fits chipsNonneg chipsBelow).last
      ((reads_require _ accepted).after (reads_pure _))))) ?_
  rw [Encoder.setup, List.append_assoc]

theorem length_le_flatMap {α β : Type} {encode : α → List β} {entries : List α}
    {size : Nat} (each : ∀ entry ∈ entries, size ≤ (encode entry).length) :
    entries.length * size ≤ (entries.flatMap encode).length := by
  induction entries with
  | nil => simp
  | cons first rest ih =>
      have here := each first List.mem_cons_self
      have there := ih fun entry member => each entry (List.mem_cons_of_mem first member)
      rw [List.length_cons, List.flatMap_cons, List.length_append, Nat.add_one_mul]
      omega

theorem reads_phases {written : List Phase} (nonempty : written ≠ [])
    (inRange : ∀ phase ∈ written, phase.InRange)
    (short : (Encoder.phases written).length < 0x80000000) :
    Reads phases (Encoder.phases written) (written.map Phase.canonical) := by
  have positive := List.length_pos_iff.mpr nonempty
  have enough : written.length * 1 ≤ (written.flatMap Encoder.phase).length :=
    length_le_flatMap fun phase _ => by
      rw [Encoder.phase, List.length_cons]
      omega
  rw [Nat.mul_one] at enough
  rw [Encoder.phases, List.length_append, Encoder.length_bigEndian] at short
  have count : Reads (natural 4) (Encoder.bigEndian written.length 4) written.length :=
    reads_natural (by omega) (by simp only [Nat.pow_eq]; omega)
  have each : ∀ phase ∈ written, Reads Decoder.phase (Encoder.phase phase) phase.canonical := by
    intro phase member
    have part : (Encoder.phase phase).length ≤ (written.flatMap Encoder.phase).length := by
      rw [List.flatMap_def]
      exact (List.sublist_flatten_of_mem (List.mem_map_of_mem member)).length_le
    exact reads_phase (inRange phase member) (by omega)
  refine count.bind ((reads_require _ (decide_eq_true (by omega))).after ?_)
  exact Reads.room (fun _ => .truncated) (reads_times_map each) enough

theorem reads_counted {α : Type} {decoder : Decoder α} {encode : α → List UInt8} {size : Nat}
    {entries : List α} (each : ∀ entry ∈ entries, Reads decoder (encode entry) entry)
    (sized : ∀ entry ∈ entries, size = (encode entry).length) (positive : 0 < size)
    (nonempty : entries ≠ []) (short : (Encoder.counted encode entries).length < 0x80000000) :
    Reads (counted size decoder) (Encoder.counted encode entries) entries := by
  have enough : entries.length * size ≤ (entries.flatMap encode).length :=
    length_le_flatMap fun entry member => (sized entry member).le
  have bounded := Nat.le_mul_of_pos_right entries.length positive
  unfold Encoder.counted at short ⊢
  rw [if_neg (by simpa using nonempty)] at short ⊢
  rw [List.length_append, Encoder.length_bigEndian] at short
  have count : Reads (natural 4) (Encoder.bigEndian entries.length 4) entries.length :=
    reads_natural (by omega) (by simp only [Nat.pow_eq]; omega)
  exact count.bind (Reads.room (fun _ => .truncated) (reads_times each) enough)

/-! ### Win conditions, scoring rules and hand patterns -/

theorem reads_winCondition {written : WinCondition} (inRange : written.InRange) :
    Reads winCondition (Encoder.winCondition written) written := by
  have kind := reads_byte (Coded.code written.kind)
  have threshold := reads_integer (by decide) inRange.threshold
  have side := reads_small (Coded.code written.side)
  have trigger := reads_small (Coded.code written.trigger)
  have sideKnown := decide_eq_true ((mem_known_iff (by decide) _).mp inRange.side)
  have triggerKnown := decide_eq_true ((mem_known_iff (by decide) _).mp inRange.trigger)
  refine Reads.of_eq (kind.bind (threshold.bind (side.bind (trigger.last
    ((reads_require _ sideKnown).after ((reads_require _ triggerKnown).after
      (reads_pure_of_eq ?_))))))) ?_
  · rw [Coded.ofCode_code, ofCode_toNat_code, ofCode_toNat_code]
  · simp only [Encoder.winCondition, List.cons_append, List.nil_append]

theorem length_winCondition (written : WinCondition) :
    7 = (Encoder.winCondition written).length := by
  simp [Encoder.winCondition]

theorem reads_scoringRule {written : ScoringRule} (inRange : written.InRange) :
    Reads scoringRule (Encoder.scoringRule written) written := by
  have kind := reads_byte (Coded.code written.kind)
  have selector := reads_byte written.selector
  have points := reads_integer (by decide) inRange
  refine Reads.of_eq (kind.bind (selector.bind (points.last (reads_pure_of_eq ?_)))) ?_
  · rw [Coded.ofCode_code]
  · simp only [Encoder.scoringRule, List.cons_append, List.nil_append]

theorem length_scoringRule (written : ScoringRule) :
    4 = (Encoder.scoringRule written).length := by
  simp [Encoder.scoringRule]

theorem reads_handPattern {written : HandPattern} (inRange : written.InRange) :
    Reads handPattern (Encoder.handPattern written) written := by
  obtain ⟨known, ⟨nonneg, below⟩, weightFits⟩ := inRange
  have kind := reads_small (Coded.code written.kind)
  have size := reads_small_lowByte nonneg below
  have weight := reads_integer (by decide) weightFits
  have accepted := decide_eq_true ((mem_known_iff (by decide) _).mp known)
  refine Reads.of_eq (kind.bind (size.bind (weight.last ((reads_require _ accepted).after
    (reads_pure_of_eq ?_))))) ?_
  · rw [ofCode_toNat_code, Int.toNat_of_nonneg nonneg]
  · simp only [Encoder.handPattern, List.cons_append, List.nil_append]

theorem length_handPattern (written : HandPattern) :
    4 = (Encoder.handPattern written).length := by
  simp [Encoder.handPattern]

/-! ### Effects -/

theorem reads_effectEntry {entry : RankWord × Effect} (inRange : entry.2.InRange entry.1) :
    Reads effectEntry (Encoder.effectEntry entry) entry := by
  obtain ⟨rank, written⟩ := entry
  obtain ⟨known, nonneg, below⟩ := inRange
  cases rank with
  | unknown code beyond => simp [RankWord.known] at known
  | rank named =>
      have rank := reads_small named.index.toUInt8
      have kind := reads_byte (Coded.code written.kind)
      have target := reads_byte (Coded.code written.target)
      have value := reads_small_lowByte nonneg below
      have found : Rank.ofIndex? named.index.toUInt8.toNat = some named := by
        cases named <;> rfl
      refine rank.bind (kind.bind (target.bind (value.last ?_)))
      rw [found]
      refine reads_pure_of_eq ?_
      rw [Coded.ofCode_code, Coded.ofCode_code, Int.toNat_of_nonneg nonneg]

theorem reads_effects {table : EffectTable}
    (inRange : ∀ entry ∈ table.entries, entry.2.InRange entry.1)
    (nonempty : table.entries ≠ []) :
    Reads effects (Encoder.effects table) table := by
  have few : table.entries.length ≤ 13 :=
    EffectTable.length_entries_le fun entry member => (inRange entry member).rank
  have marker : Reads small [lowByte effectsMarker] effectsMarker :=
    reads_small_lowByte (by decide) (by decide)
  have count : Reads small [lowByte table.entries.length] table.entries.length :=
    reads_small_lowByte (by omega) (by omega)
  have entries := reads_times fun entry member => reads_effectEntry (inRange entry member)
  have enough : table.entries.length * 4 ≤ (table.entries.flatMap Encoder.effectEntry).length :=
    length_le_flatMap fun entry _ => by simp [Encoder.effectEntry]
  rw [Encoder.effects, if_neg (by simpa using nonempty)]
  refine marker.bind ((reads_require _ (decide_eq_true rfl)).after (count.bind ?_))
  refine Reads.room (fun left => .truncatedEffects table.entries.length left) ?_ enough
  exact entries.last (reads_pure_of_eq (EffectTable.ofList_entries table))

/-! ### Teams -/

theorem reads_members {participants : Int} (atMost : participants ≤ maxParticipants) :
    ∀ (roster assigned : List Int),
      (∀ member ∈ roster, 0 ≤ member ∧ member < participants) →
      (roster ++ assigned).Nodup →
      Reads (members participants roster.length assigned) (roster.map lowByte) roster := by
  have bound : participants ≤ 8 := atMost
  intro roster
  induction roster with
  | nil => exact fun _ _ _ => reads_pure []
  | cons member rest ih =>
      intro assigned seated apart
      obtain ⟨nonneg, below⟩ := seated member List.mem_cons_self
      have read : Reads small [lowByte member] member.toNat :=
        reads_small_lowByte nonneg (by omega)
      have whole := Int.toNat_of_nonneg nonneg
      have fresh : member ∉ rest ++ assigned := (List.nodup_cons.mp apart).1
      have free : (!assigned.contains (member.toNat : Int)) = true := by
        rw [whole]
        simpa using fun assignedMember => fresh (List.mem_append_right rest assignedMember)
      have others : (rest ++ member :: assigned).Nodup :=
        List.perm_middle.nodup_iff.mpr apart
      have remaining := ih (member :: assigned)
        (fun other there => seated other (List.mem_cons_of_mem member there)) others
      refine read.bind ((reads_require _ (decide_eq_true (by omega))).after
        ((reads_require _ free).after ?_))
      rw [whole]
      exact remaining.last (reads_pure _)

theorem reads_rosters {participants : Int} (atMost : participants ≤ maxParticipants) :
    ∀ (rosters : List (List Int)) (team : Nat) (assigned : List Int),
      (∀ roster ∈ rosters, roster ≠ [] ∧ roster.length < 256) →
      (∀ member ∈ rosters.flatten, 0 ≤ member ∧ member < participants) →
      (rosters.flatten ++ assigned).Nodup →
      Reads (Decoder.rosters participants rosters.length team assigned)
        (rosters.flatMap Encoder.roster) rosters := by
  intro rosters
  induction rosters with
  | nil => exact fun _ _ _ _ _ => reads_pure []
  | cons roster rest ih =>
      intro team assigned staffed seated apart
      obtain ⟨nonempty, few⟩ := staffed roster List.mem_cons_self
      have positive := List.length_pos_iff.mpr nonempty
      rw [List.flatten_cons] at seated apart
      have size : Reads small [lowByte roster.length] roster.length :=
        reads_small_lowByte (by omega) (by omega)
      have ownApart : (roster ++ assigned).Nodup := by
        refine apart.sublist ?_
        rw [List.append_assoc]
        exact (List.sublist_append_right _ _).append_left roster
      have own := reads_members atMost roster assigned
        (fun member there => seated member (List.mem_append_left _ there)) ownApart
      have restApart : (rest.flatten ++ (roster ++ assigned)).Nodup := by
        refine (List.Perm.nodup_iff ?_).mpr apart
        rw [← List.append_assoc]
        exact List.perm_append_comm.append_right assigned
      have others := ih (team + 1) (roster ++ assigned)
        (fun other there => staffed other (List.mem_cons_of_mem roster there))
        (fun member there => seated member (List.mem_append_right _ there)) restApart
      refine Reads.of_eq (size.bind ((reads_require _ (decide_eq_true (by omega))).after
        (own.bind (others.last (reads_pure _))))) ?_
      rw [List.flatMap_cons, Encoder.roster, List.cons_append, List.singleton_append]

theorem reads_teams {program : Program} (mode : program.header.teamMode = true)
    (roster : Roster program.header.participants program.teams)
    (atMost : program.header.participants ≤ maxParticipants) :
    Reads (teams program.header.participants) (Encoder.teams program) program.teams := by
  have few : program.teams.flatten.length ≤ 8 := roster.length_flatten_le atMost
  have several := roster.several
  have fewTeams : program.teams.length ≤ program.teams.flatten.length := by
    have nonempty : ∀ team ∈ program.teams, 1 ≤ (id team).length :=
      fun team member => List.length_pos_iff.mpr (roster.staffed team member)
    have counted := length_le_flatMap nonempty
    rwa [Nat.mul_one, List.flatMap_id] at counted
  have staffed : ∀ team ∈ program.teams, team ≠ [] ∧ team.length < 256 := by
    intro team member
    have part := (List.sublist_flatten_of_mem member).length_le
    exact ⟨roster.staffed team member, by omega⟩
  have apart : (program.teams.flatten ++ []).Nodup := by
    rw [List.append_nil]
    exact roster.apart
  have count : Reads small [lowByte program.teams.length] program.teams.length :=
    reads_small_lowByte (by omega) (by omega)
  have rosters := reads_rosters atMost program.teams 0 [] staffed roster.seated apart
  have present : (program.header.teamMode && !program.teams.isEmpty) = true := by
    rw [mode, Bool.true_and, Bool.not_eq_true', List.isEmpty_eq_false_iff,
      ← List.length_pos_iff]
    omega
  rw [Encoder.teams, if_pos present]
  exact count.bind ((reads_require _ (decide_eq_true several)).after rosters)

end Decoder

end Croupier
