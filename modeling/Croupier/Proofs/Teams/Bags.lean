/-
Bags below their limit.

Overtricks become bags, and bags that reach the limit cost a penalty and are reduced by it, once a
hand. That brings them below the limit again unless a hand carries them to twice the limit. A team
that bids low and takes every trick can do that. So in partnerships that bid on tricks the bags of
every team stay below the limit up to the first hand in which one of them gets that far, and never
fall below zero.
-/

import Croupier.Proofs.Teams.Contracts

namespace Croupier

/-- The tricks of a side beyond its contract. -/
def overtricks (members : List Player) : Int :=
  max (total (members.map Player.contractTricks) - total (members.map Player.contract)) 0

namespace ContractValues

variable {values : ContractValues} {members : List Player} {bags : Int}

theorem bags_score_nonneg (nonneg : 0 ≤ bags) : 0 ≤ (values.score members bags).bags := by
  unfold score
  dsimp only
  split
  · split
    · rename_i reached
      rw [Bool.and_eq_true, decide_eq_true_eq, decide_eq_true_eq] at reached
      change 0 ≤ bags + _ - values.bagLimit
      omega
    · change 0 ≤ bags + _
      omega
  · exact nonneg

/-- One reduction is enough exactly if the bags do not reach the limit twice. -/
theorem bags_score_lt_iff (limit : 0 < values.bagLimit) (below : bags < values.bagLimit) :
    (values.score members bags).bags < values.bagLimit ↔
      bags + overtricks members < 2 * values.bagLimit := by
  unfold score overtricks
  dsimp only
  split
  · split
    · rename_i reached
      rw [Bool.and_eq_true, decide_eq_true_eq, decide_eq_true_eq] at reached
      change bags + _ - values.bagLimit < _ ↔ _
      omega
    · rename_i short
      rw [Bool.and_eq_true, decide_eq_true_eq, decide_eq_true_eq] at short
      change bags + _ < _ ↔ _
      omega
  · change bags < _ ↔ _
    omega

end ContractValues

namespace Table

variable {table next : Table} {program : Program} {limit : Int}

/-- The tricks of the participants of some seats beyond the contract they have together. -/
def overtricksOf (table : Table) (seats : List Int) : Int :=
  overtricks (seats.map table.player)

/-- Each team carries bags, and fewer than the limit. -/
def BagsBelow (table : Table) (limit : Int) : Prop :=
  ∀ bags ∈ table.teamBags, 0 ≤ bags ∧ bags < limit

theorem bagsBelow_opening (program : Program) (seed : UInt64) (positive : 0 < limit) :
    (opening program seed).BagsBelow limit := by
  intro bags listed
  have none : bags = 0 := List.eq_of_mem_replicate listed
  omega

/-- What holds of the bags of each team by its place holds of all of them. -/
theorem TeamsListed.forall_bags {fits : Int → Prop} (listed : table.TeamsListed program)
    (mode : program.header.teamMode = true)
    (each : ∀ (team : Nat) (members : List Int), program.teams[team]? = some members →
      ∃ bags, table.teamBags[team]? = some bags ∧ fits bags) :
    ∀ bags ∈ table.teamBags, fits bags := by
  intro bags member
  obtain ⟨team, inside, rfl⟩ := List.mem_iff_getElem.mp member
  have count : program.teamCount = program.teams.length := if_pos mode
  have there : team < program.teams.length := by
    rw [← count, ← listed.bags]
    exact inside
  obtain ⟨bags, found, fit⟩ := each team _ (List.getElem?_eq_getElem there)
  rw [List.getElem?_eq_getElem inside] at found
  rwa [Option.some.inj found]

end Table

/-! ### Steps -/

namespace Action

variable {program : Program} {bids : BiddingPhase} {tricks : TrickPhase} {table next : Table}
  {seed : UInt64} {outcome : Outcome} {action : Action}

/-- The action ends a hand in which a team gets as far as twice the limit for bags. -/
def Overshoots (program : Program) (tricks : TrickPhase) (table : Table) (action : Action) : Prop :=
  ∃ played, action.EndsHand program tricks table played ∧
    ∃ (team : Nat) (members : List Int) (bags : Int), program.teams[team]? = some members ∧
      table.teamBags[team]? = some bags ∧ 2 * program.contractValues.bagLimit ≤
        bags + (table.creditTrick (played.takeTrick program tricks).1).overtricksOf members

/-- The bags of a team after an action are those before it, or what the contract makes of them. -/
theorem bags_of_act (inRange : program.InRange)
    (phases : program.phases = [.bidding bids, .trick tricks])
    (mode : program.header.teamMode = true) (reached : Reached program seed .open table)
    (legal : action.Legal program table) (acted : action.act program table = .ok outcome next) :
    ((∀ played, ¬action.EndsHand program tricks table played) ∧
        next.teamBags = table.teamBags) ∨
      ((∃ played, action.EndsHand program tricks table played) ∧
        ∀ played, action.EndsHand program tricks table played →
          ∀ (team : Nat) (members : List Int), program.teams[team]? = some members →
            ∃ bags, table.teamBags[team]? = some bags ∧ next.teamBags[team]? = some
              ((table.creditTrick (played.takeTrick program tricks).1).contractOf
                program.contractValues members bags).bags) := by
  have bidding := (Program.hasPhase_of_bidding phases).2
  have matched := (reached.waiting (Program.tricksAndBids_of_bidding phases)).matched
  have acts := bidsOrTricks_of_act inRange phases reached legal acted
  by_cases ends : ∃ played, action.EndsHand program tricks table played
  · refine .inr ⟨ends, fun played ended team members found => ?_⟩
    obtain ⟨_, _, scored, _⟩ := acts.scoresContracts (reached.orderly inRange) matched bidding
      (reached.teamsListed inRange phases) ended
    obtain ⟨_, bags, _, carried, _, result⟩ := (scored.teams mode).2 team members found
    exact ⟨bags, carried, result⟩
  · rw [not_exists] at ends
    exact .inl ⟨ends, (acts.keepsScores matched bidding reached.handOver_of_open ends).1.teams.2⟩

theorem bags_nonneg_act (inRange : program.InRange)
    (phases : program.phases = [.bidding bids, .trick tricks])
    (mode : program.header.teamMode = true) (reached : Reached program seed .open table)
    (legal : action.Legal program table) (acted : action.act program table = .ok outcome next)
    (nonneg : ∀ bags ∈ table.teamBags, 0 ≤ bags) : ∀ bags ∈ next.teamBags, 0 ≤ bags := by
  rcases bags_of_act inRange phases mode reached legal acted with
    ⟨_, same⟩ | ⟨⟨played, ends⟩, scored⟩
  · rwa [same]
  · have listed := (Reached.step reached legal acted).teamsListed inRange phases
    refine listed.forall_bags mode fun team members found => ?_
    obtain ⟨bags, carried, result⟩ := scored played ends team members found
    exact ⟨_, result, ContractValues.bags_score_nonneg (nonneg _ (List.mem_of_getElem? carried))⟩

/-- Bags below the limit stay there unless the hand overshoots. -/
theorem bagsBelow_act_iff (inRange : program.InRange)
    (phases : program.phases = [.bidding bids, .trick tricks])
    (mode : program.header.teamMode = true) (limit : 0 < program.contractValues.bagLimit)
    (reached : Reached program seed .open table) (legal : action.Legal program table)
    (acted : action.act program table = .ok outcome next)
    (below : table.BagsBelow program.contractValues.bagLimit) :
    next.BagsBelow program.contractValues.bagLimit ↔ ¬action.Overshoots program tricks table := by
  have listed := (Reached.step reached legal acted).teamsListed inRange phases
  rcases bags_of_act inRange phases mode reached legal acted with
    ⟨goesOn, same⟩ | ⟨⟨played, ends⟩, scored⟩
  · unfold Table.BagsBelow
    rw [same]
    exact iff_of_true below fun ⟨played, ends, _⟩ => goesOn played ends
  · constructor
    · rintro stays ⟨other, also, team, members, bags, found, carried, far⟩
      obtain ⟨held, there, result⟩ := scored other also team members found
      rw [carried] at there
      cases there
      have room := (stays _ (List.mem_of_getElem? result)).2
      have short := (ContractValues.bags_score_lt_iff limit
        (below _ (List.mem_of_getElem? carried)).2).mp room
      exact absurd short (Int.not_lt.mpr far)
    · intro moderate
      refine listed.forall_bags mode fun team members found => ?_
      obtain ⟨bags, carried, result⟩ := scored played ends team members found
      obtain ⟨nonneg, room⟩ := below _ (List.mem_of_getElem? carried)
      refine ⟨_, result, ContractValues.bags_score_nonneg nonneg,
        (ContractValues.bags_score_lt_iff limit room).mpr ?_⟩
      by_contra far
      exact moderate ⟨played, ends, team, members, bags, found, carried, Int.not_lt.mp far⟩

end Action

/-! ### Runs -/

/-- The states of legal runs all of whose actions are allowed. -/
inductive ReachedBy (allowed : Table → Action → Prop) (program : Program) (seed : UInt64) :
    Outcome → Table → Prop where
  | start {before table : Table} (dealt : Table.start program seed before = .ok () table) :
      ReachedBy allowed program seed .open table
  | step {table next : Table} {outcome : Outcome} {action : Action}
      (earlier : ReachedBy allowed program seed .open table) (legal : action.Legal program table)
      (fits : allowed table action) (acted : action.act program table = .ok outcome next) :
      ReachedBy allowed program seed outcome next

theorem ReachedBy.reached {allowed : Table → Action → Prop} {program : Program} {seed : UInt64}
    {outcome : Outcome} {table : Table} (run : ReachedBy allowed program seed outcome table) :
    Reached program seed outcome table := by
  induction run with
  | start dealt => exact .start dealt
  | step _ legal _ acted ih => exact .step ih legal acted

namespace Reached

variable {program : Program} {bids : BiddingPhase} {tricks : TrickPhase} {table : Table}
  {seed : UInt64} {outcome : Outcome}

theorem bags_nonneg (inRange : program.InRange)
    (phases : program.phases = [.bidding bids, .trick tricks])
    (mode : program.header.teamMode = true) (reached : Reached program seed outcome table) :
    ∀ bags ∈ table.teamBags, 0 ≤ bags := by
  induction reached with
  | start dealt =>
      obtain ⟨_, rfl⟩ := Table.start_eq_ok_iff.mp dealt
      exact fun bags listed => (Table.bagsBelow_opening program seed one_pos bags listed).1
  | step earlier legal acted ih =>
      exact Action.bags_nonneg_act inRange phases mode earlier legal acted ih

theorem bagsBelow_of_moderate (inRange : program.InRange)
    (phases : program.phases = [.bidding bids, .trick tricks])
    (mode : program.header.teamMode = true) (limit : 0 < program.contractValues.bagLimit)
    (run : ReachedBy (fun table action => ¬action.Overshoots program tricks table) program seed
      outcome table) : table.BagsBelow program.contractValues.bagLimit := by
  induction run with
  | start dealt =>
      obtain ⟨_, rfl⟩ := Table.start_eq_ok_iff.mp dealt
      exact Table.bagsBelow_opening program seed limit
  | step earlier legal fits acted ih =>
      exact (Action.bagsBelow_act_iff inRange phases mode limit earlier.reached legal acted ih).mpr
        fits

end Reached

/-! ### Spades -/

/-- The tricks of spades. -/
def spadesTricks : TrickPhase where
  trump := some (.suit .spades)
  breaking := some (.suit .spades)

theorem decode_spades : Program.decode Library.spades.encode = .ok Library.spades := by
  decide +kernel

/-- Whatever the values, the participants and their bids and tricks are: bags from zero up to a
positive limit stay there when a contract is scored unless the overtricks carry them to twice the
limit, and do not fall below zero in any case. In every legal run of spades the bags of the teams
are never negative. They stay below ten with every action but one that ends a hand in which a team
gets to twenty, and so all along a run without such an action. -/
theorem Reached.bags_below_limit (seed : UInt64) :
    (∀ (values : ContractValues) (table : Table) (seats : List Int) (bags : Int),
        0 < values.bagLimit → 0 ≤ bags → bags < values.bagLimit →
          0 ≤ (table.contractOf values seats bags).bags ∧
            ((table.contractOf values seats bags).bags < values.bagLimit ↔
              bags + table.overtricksOf seats < 2 * values.bagLimit)) ∧
      (∀ outcome table, Reached Library.spades seed outcome table →
        ∀ bags ∈ table.teamBags, 0 ≤ bags) ∧
      (∀ table action outcome next, Reached Library.spades seed .open table →
        table.BagsBelow 10 → Action.Legal Library.spades table action →
          action.act Library.spades table = .ok outcome next →
            (next.BagsBelow 10 ↔ ¬action.Overshoots Library.spades spadesTricks table)) ∧
      ∀ outcome table,
        ReachedBy (fun table action => ¬action.Overshoots Library.spades spadesTricks table)
          Library.spades seed outcome table → table.BagsBelow 10 := by
  have inRange := Program.inRange_of_decode decode_spades
  have phases : Library.spades.phases = [.bidding {}, .trick spadesTricks] := rfl
  have limit : Library.spades.contractValues.bagLimit = 10 := rfl
  have positive : 0 < Library.spades.contractValues.bagLimit := by
    rw [limit]
    decide
  refine ⟨fun values table seats bags limited nonneg below => ?_, ?_, ?_, ?_⟩
  · exact ⟨ContractValues.bags_score_nonneg nonneg,
      ContractValues.bags_score_lt_iff limited below⟩
  · exact fun outcome table reached => reached.bags_nonneg inRange phases rfl
  · intro table action outcome next reached below legal acted
    rw [← limit] at below ⊢
    exact Action.bagsBelow_act_iff inRange phases rfl positive reached legal acted below
  · intro outcome table moderate
    rw [← limit]
    exact bagsBelow_of_moderate inRange phases rfl positive moderate

/-- A team with nine bags that makes its contract of seven with one trick to spare. -/
def tenthBagTable : Table where
  players := [{ bid := 4, tricks := 5 }, { bid := 2 }, { bid := 3, tricks := 3 }, { bid := 3 }]

/-- The tenth bag is taken off with the others, and a bid carries no team to its limit. -/
theorem Reached.bags_below_limit_tenth :
    (0 < Library.spades.contractValues.bagLimit ∧ 9 < Library.spades.contractValues.bagLimit ∧
        (tenthBagTable.contractOf Library.spades.contractValues [0, 2] 9).bags <
          Library.spades.contractValues.bagLimit) ∧
      ∃ outcome next, Action.Legal Library.spades (Table.opening Library.spades 7)
          (.move ⟨0, .bid 1⟩) ∧
        ReachedBy (fun table action => ¬action.Overshoots Library.spades spadesTricks table)
          Library.spades 7 outcome next ∧
        next.BagsBelow 10 := by
  obtain ⟨scored, _, _, moderate⟩ := bags_below_limit 7
  refine ⟨⟨by decide, by decide, ?_⟩, ?_⟩
  · exact (scored Library.spades.contractValues tenthBagTable [0, 2] 9 (by decide) (by decide)
      (by decide)).2.mpr (by decide)
  · have legal : Action.Legal Library.spades (Table.opening Library.spades 7)
        (.move ⟨0, .bid 1⟩) := by
      have first (program : Program) (seed : UInt64) : (Table.opening program seed).phase = 0 := rfl
      refine Table.mem_moves_iff.mpr ⟨.bidding {}, .bid 1,
        Table.phase?_opening Library.spades 7, by rw [first], ?_⟩
      exact (Table.bid_mem_offerBids_iff ⟨by decide⟩).mpr
        ⟨Table.hasBid_opening Library.spades 7 _, .inl (by decide)⟩
    obtain ⟨outcome, next, acted⟩ := Table.exists_perform_of_mem_moves legal
    have fits : ¬Action.Overshoots Library.spades spadesTricks (Table.opening Library.spades 7)
        (.move ⟨0, .bid 1⟩) := by
      rintro ⟨_, ⟨⟨_, _, _, ⟨⟩, _⟩, _, _⟩, _⟩
    have run := @ReachedBy.step
      (fun table action => ¬action.Overshoots Library.spades spadesTricks table) _ _ _ _ _ _
      (.start (Table.start_of_decode decode_spades 7 {})) legal fits acted
    exact ⟨outcome, next, legal, run, moderate outcome next run⟩

/-- A team that bids two tricks and takes all thirteen. -/
def sweepTable : Table where
  players := [{ bid := 1, tricks := 13 }, { bid := 4 }, { bid := 1 }, { bid := 4 }]

/-- With nine bags it has twenty of them, and is left with ten. -/
theorem contractOf_sweepTable :
    sweepTable.contractOf Library.spades.contractValues [0, 2] 9 = ⟨-69, 10⟩ := by
  decide

theorem bags_reach_limit :
    ¬∀ (values : ContractValues) (table : Table) (seats : List Int) (bags : Int),
      0 < values.bagLimit → 0 ≤ bags ∧ bags < values.bagLimit →
        0 ≤ (table.contractOf values seats bags).bags ∧
          (table.contractOf values seats bags).bags < values.bagLimit := by
  intro stays
  have below := (stays Library.spades.contractValues sweepTable [0, 2] 9 (by decide) (by decide)).2
  rw [contractOf_sweepTable] at below
  exact absurd below (by decide)

end Croupier
