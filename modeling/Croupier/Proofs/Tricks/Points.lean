/-
Points for tricks.

Where a turn is to contribute to a trick and no card has an effect, a card reaches the discard
pile after the deal only in a trick that somebody takes, and whoever takes it scores what its cards
are worth. So within a hand the scores and the worth of the discard pile grow by the same amount,
action by action. Neither the deck nor anything else on the tableau is touched. When the hands have
run out, every card that was dealt to them is among the discards.
-/

import Croupier.Proofs.Play.Order
import Croupier.Proofs.Teams.Contracts

namespace Croupier

/-! ### What cards are worth -/

theorem total_map_add {α : Type} (left right : α → Int) (items : List α) :
    total (items.map fun item => left item + right item) =
      total (items.map left) + total (items.map right) := by
  induction items with
  | nil => rfl
  | cons item rest ih =>
      rw [List.map_cons, List.map_cons, List.map_cons, total_cons, total_cons, total_cons, ih]
      omega

theorem total_modify_add {numbers : List Int} {place : Nat} (inside : place < numbers.length)
    (amount : Int) : total (numbers.modify place (· + amount)) = total numbers + amount := by
  induction numbers generalizing place with
  | nil => exact absurd inside (Nat.not_lt_zero place)
  | cons number rest ih =>
      cases place with
      | zero =>
          rw [List.modify_zero_cons, total_cons, total_cons]
          omega
      | succ place =>
          rw [List.modify_succ_cons, total_cons, total_cons, ih (Nat.lt_of_succ_lt_succ inside)]
          omega

/-- A rule for cards counts cards of one kind; no other rule gives points for any. -/
theorem ScoringRule.cardPoints?_cases (rule : ScoringRule) :
    (∀ cards, rule.cardPoints? cards = none) ∨
      ∃ kind : Card → Bool, ∀ cards,
        rule.cardPoints? cards = some (rule.points * cards.countP kind) := by
  unfold cardPoints?
  cases rule.kind with
  | rankPoints => exact .inr ⟨_, fun _ => rfl⟩
  | suitPoints => exact .inr ⟨_, fun _ => rfl⟩
  | _ => exact .inl fun _ => rfl

theorem ScoringRule.exists_kinds (rules : List ScoringRule) :
    ∃ kinds : List (Int × (Card → Bool)), ∀ cards, rules.filterMap (·.cardPoints? cards) =
      kinds.map fun kind => kind.1 * (cards.countP kind.2 : Int) := by
  induction rules with
  | nil => exact ⟨[], fun _ => rfl⟩
  | cons rule rest ih =>
      obtain ⟨kinds, same⟩ := ih
      rcases rule.cardPoints?_cases with none | ⟨kind, some⟩
      · refine ⟨kinds, fun cards => ?_⟩
        rw [List.filterMap_cons, none, same]
      · refine ⟨(rule.points, kind) :: kinds, fun cards => ?_⟩
        rw [List.filterMap_cons, some, same]
        rfl

namespace Program

/-- Cards are worth one point each, or so much for each card of some kinds. -/
theorem cardPoints_cases (program : Program) :
    (∀ cards, program.cardPoints cards = cards.length) ∨
      ∃ kinds : List (Int × (Card → Bool)), ∀ cards, program.cardPoints cards =
        total (kinds.map fun kind => kind.1 * (cards.countP kind.2 : Int)) := by
  obtain ⟨kinds, same⟩ := ScoringRule.exists_kinds program.scoring
  unfold cardPoints
  cases kinds with
  | nil =>
      refine .inl fun cards => ?_
      rw [same]
      rfl
  | cons kind rest =>
      refine .inr ⟨kind :: rest, fun cards => ?_⟩
      rw [same]
      rfl

theorem cardPoints_append (program : Program) (left right : List Card) :
    program.cardPoints (left ++ right) = program.cardPoints left + program.cardPoints right := by
  rcases program.cardPoints_cases with each | ⟨kinds, each⟩
  · rw [each, each, each, List.length_append, Int.natCast_add]
  · rw [each, each, each, ← total_map_add]
    congr 1
    refine List.map_congr_left fun kind _ => ?_
    rw [List.countP_append, Int.natCast_add, Int.mul_add]

theorem cardPoints_of_perm (program : Program) {left right : List Card} (same : left.Perm right) :
    program.cardPoints left = program.cardPoints right := by
  rcases program.cardPoints_cases with each | ⟨kinds, each⟩
  · rw [each, each, same.length_eq]
  · rw [each, each]
    congr 1
    refine List.map_congr_left fun kind _ => ?_
    rw [same.countP_eq]

theorem hasPhase_bidding_of_trick {program : Program} {tricks : TrickPhase}
    (phases : program.phases = [.trick tricks]) : program.hasPhase .bidding = false := by
  unfold hasPhase
  rw [phases]
  rfl

theorem tricksAndBids_of_trick {program : Program} {tricks : TrickPhase}
    (phases : program.phases = [.trick tricks]) : program.TricksAndBids := by
  unfold TricksAndBids
  rw [phases]
  intro phase listed
  rw [List.mem_singleton.mp listed]
  exact .inl rfl

end Program

/-- The scores, and the cards that are neither in a hand nor in the trick in progress. -/
structure Ledger where
  scores : List Int
  teamScores : List Int
  deck : List Card
  discard : List Card
  spare : List (List Card)
  handNumber : Int

namespace Table

variable {table dealt next last sequenced played : Table} {seat : Int} {program : Program}
  {tricks : TrickPhase} {phase : Phase}

/-! ### The ledger -/

def ledger (table : Table) : Ledger where
  scores := table.players.map Player.score
  teamScores := table.teamScores
  deck := table.deck
  discard := table.discard
  spare := table.tableau.tail
  handNumber := table.handNumber

/-- What all participants have scored together. -/
def scoreSum (table : Table) : Int :=
  total (table.players.map Player.score)

/-- The cards in all hands. -/
def handCards (table : Table) : List Card :=
  table.players.flatMap (·.hand)

theorem orderBlind_ledger : OrderBlind ledger :=
  fun _ _ _ _ _ _ => rfl

theorem ledger_modifyPlayer (table : Table) (seat : Int) (change : Player → Player) :
    (table.modifyPlayer seat change).ledger =
      { table.ledger with
        scores := (table.modifyPlayer seat change).players.map Player.score } := by
  unfold modifyPlayer
  split <;> rfl

theorem ledger_modifyTableau (table : Table) (change : List Card → List Card) :
    (table.modifyTableau change).ledger = table.ledger := by
  unfold modifyTableau ledger
  cases table.tableau <;> rfl

/-- A card that is contributed is on its way from a hand to the trick. -/
theorem ledger_contribution (table : Table) (seat : Int) (place : Nat) (card : Card)
    (tricks : TrickPhase) :
    ((table.without seat place).contribute seat card tricks).ledger = table.ledger := by
  have scores : (table.without seat place).players.map Player.score =
      table.players.map Player.score := by
    apply map_players_of_same
    exact fun _ => rfl
  have lifted : (table.without seat place).ledger = table.ledger :=
    (ledger_modifyPlayer table seat _).trans
      (congrArg (fun scores => { table.ledger with scores }) scores)
  have opened : (table.without seat place).openTableau.ledger =
      (table.without seat place).ledger := by
    unfold openTableau
    split
    · rename_i none
      rw [List.isEmpty_iff] at none
      unfold ledger
      rw [none]
      rfl
    · rfl
  exact (ledger_modifyTableau (table.without seat place).openTableau (· ++ [card])).trans
    (opened.trans lifted)

/-- As many points were scored as what the discard pile gained is worth, and everything else in the
ledger is as it was. -/
structure Credits (program : Program) (dealt table : Table) : Prop where
  points : table.scoreSum + program.cardPoints dealt.discard =
    dealt.scoreSum + program.cardPoints table.discard
  rest : table.ledger =
    { dealt.ledger with scores := table.ledger.scores, discard := table.ledger.discard }

theorem Credits.trans (first : Credits program dealt table) (second : Credits program table next) :
    Credits program dealt next where
  points := by
    have before := first.points
    have after := second.points
    omega
  rest := by
    rw [second.rest, first.rest]

theorem Credits.of_ledger (same : next.ledger = table.ledger) : Credits program table next where
  points := by
    have scores : next.scoreSum = table.scoreSum :=
      congrArg (fun ledger : Ledger => total ledger.scores) same
    have discard : next.discard = table.discard := congrArg Ledger.discard same
    rw [scores, discard]
  rest := by
    rw [same]

/-- A hand does not end before its last card is played. -/
def PlayedOut (table : Table) : Prop :=
  table.handOver = true → table.handsEmpty = true

theorem playedOut_of_going (going : table.handOver = false) : table.PlayedOut := by
  intro ended
  rw [going] at ended
  cases ended

theorem PlayedOut.endTurn (out : table.PlayedOut) (leader : Int) :
    (table.endTurn leader).PlayedOut := by
  have blind : OrderBlind PlayedOut := fun _ _ _ _ _ _ => rfl
  rwa [blind.endTurn table leader]

/-! ### Tricks -/

/-- The cards of a trick are discarded, and its winner scores what they are worth. -/
theorem ledger_takeTrick {winner : Int} (nonneg : 0 ≤ winner)
    (wins : table.trick[tricks.winningPlace table.centre]? = some winner)
    (simple : program.hasPhase .bidding = false) :
    (table.takeTrick program tricks).2.ledger =
      { table.ledger with
        scores := table.ledger.scores.modify winner.toNat (· + program.cardPoints table.centre)
        discard := table.discard ++ table.centre } := by
  let credit (player : Player) : Player :=
    { player with
      tricks := player.tricks + 1
      score := player.score + program.cardPoints table.centre }
  have credited : (table.modifyPlayer winner credit).ledger =
      { table.ledger with
        scores := table.ledger.scores.modify winner.toNat
          (· + program.cardPoints table.centre) } :=
    (ledger_modifyPlayer table winner credit).trans
      (congrArg (fun scores => { table.ledger with scores })
        (map_players_modifyPlayer (· + program.cardPoints table.centre) (fun _ => rfl) nonneg))
  have discard : (table.modifyPlayer winner credit).discard = table.discard :=
    congrArg Ledger.discard credited
  have cleared := ledger_modifyTableau
    ((table.modifyPlayer winner credit).modifyDiscard (· ++ table.centre)) fun _ => []
  have taken : (table.takeTrick program tricks).2.ledger =
      { (table.modifyPlayer winner credit).ledger with
        discard := (table.modifyPlayer winner credit).discard ++ table.centre } := by
    unfold takeTrick
    dsimp only
    rw [wins, simple]
    exact cleared
  rw [taken, credited, discard]

theorem credits_takeTrick (orderly : table.Orderly) (matched : table.Matched)
    (begun : table.trick ≠ []) (simple : program.hasPhase .bidding = false) (tricks : TrickPhase) :
    Credits program table (table.takeTrick program tricks).2 := by
  obtain ⟨winner, contributed, wins⟩ := matched.exists_winner begun tricks
  obtain ⟨nonneg, below⟩ := orderly.trick winner contributed
  have taken := ledger_takeTrick nonneg wins simple
  have inside : winner.toNat < table.ledger.scores.length := by
    change winner.toNat < (table.players.map Player.score).length
    rw [List.length_map]
    unfold seats at below
    omega
  constructor
  · have scores : (table.takeTrick program tricks).2.scoreSum =
        total (table.ledger.scores.modify winner.toNat (· + program.cardPoints table.centre)) :=
      congrArg (fun ledger : Ledger => total ledger.scores) taken
    have discard : (table.takeTrick program tricks).2.discard = table.discard ++ table.centre :=
      congrArg Ledger.discard taken
    rw [scores, discard, total_modify_add inside, program.cardPoints_append]
    change table.scoreSum + _ + _ = _
    omega
  · rw [taken]

theorem hand_takeTrick (table : Table) (program : Program) (tricks : TrickPhase) :
    (table.takeTrick program tricks).2.handOver = table.handOver ∧
      (table.takeTrick program tricks).2.handNumber = table.handNumber := by
  unfold takeTrick
  dsimp only
  split
  · exact ⟨rfl, rfl⟩
  · unfold modifyPlayer
    split <;> exact ⟨rfl, rfl⟩

theorem credits_settleTrick (orderly : table.Orderly) (matched : table.Matched)
    (simple : program.hasPhase .bidding = false) (going : table.handOver = false)
    (tricks : TrickPhase) :
    Credits program table (table.settleTrick program tricks).2 ∧
      (table.settleTrick program tricks).2.PlayedOut := by
  unfold settleTrick
  split
  · rename_i complete
    have begun := trick_ne_nil_of_complete complete
    have taken := credits_takeTrick orderly matched begun simple tricks
    dsimp only
    split
    · rename_i empty
      rw [simple]
      exact ⟨taken.trans (.of_ledger rfl), fun _ => empty⟩
    · exact ⟨taken, playedOut_of_going ((hand_takeTrick table program tricks).1.trans going)⟩
  · exact ⟨.of_ledger rfl, playedOut_of_going going⟩

theorem hand_settleTrick (simple : program.hasPhase .bidding = false) (tricks : TrickPhase)
    (complete : table.trickComplete = true) (empty : table.handsEmpty = true) :
    (table.settleTrick program tricks).2.handOver = true ∧
      (table.settleTrick program tricks).2.handNumber = table.handNumber := by
  unfold settleTrick
  rw [if_pos complete]
  dsimp only
  rw [handsEmpty_takeTrick, if_pos empty, simple]
  exact ⟨rfl, (hand_takeTrick table program tricks).2⟩

/-! ### What an action does -/

theorem triggerEffect_of_empty (effects : program.effects = .empty) (table : Table) (seat : Int)
    (card : Card) : table.triggerEffect program seat card = table := by
  unfold triggerEffect Program.effectOf?
  rw [effects]
  rfl

/-- Whatever is done in a turn, the scores go with the discards. -/
theorem Waiting.credits (waiting : table.Waiting) (orderly : table.Orderly)
    (phases : program.phases = [.trick tricks]) (effects : program.effects = .empty)
    (going : table.handOver = false)
    (proceeds : Action.Proceeds program table phase sequenced) :
    Credits program table sequenced ∧ sequenced.PlayedOut := by
  have simple := Program.hasPhase_bidding_of_trick phases
  cases proceeds with
  | pass found =>
      rw [waiting.passIn (Program.tricksAndBids_of_trick phases) found,
        Program.phase_of_only phases found]
      exact ⟨.of_ledger (orderBlind_ledger.endTurn table nobody),
        (playedOut_of_going going).endTurn nobody⟩
  | @move choice leader moved found offered acts carries =>
      cases carries with
      | @trick _ place lead card played there held laid =>
          obtain ⟨board, matched⟩ := kept_of_contribution waiting.matched laid
          have entered : played.Orderly := by
            rw [laid]
            exact orderly_contribution orderly program card lead
          have same : played.ledger = table.ledger := by
            rw [laid, triggerEffect_of_empty effects]
            exact ledger_contribution table table.active place.toNat card lead
          have still : played.handOver = false := (congrArg Board.handOver board).trans going
          obtain ⟨settled, out⟩ := credits_settleTrick entered matched simple still lead
          exact ⟨((Credits.of_ledger same).trans settled).trans
            (.of_ledger (orderBlind_ledger.endTurn _ _)), out.endTurn _⟩
      | pass => exact absurd rfl acts
      | draw other | play other | discard other | bet other | claim other | challenge other
      | accept other | bid other => cases Program.phase_of_only phases other

/-! ### Deals -/

theorem scores_nextHand (table : Table) (program : Program) :
    (table.nextHand program).players.map Player.score = table.players.map Player.score := by
  have dealt : (table.nextHand program).players.map Player.score =
      (table.players.map Player.betweenHands).map Player.score :=
    map_players_deal (fun _ _ => rfl) table.gathered.shuffleDeck program
  rw [dealt, List.map_map]
  rfl

theorem flatten_tableau_nextHand (table : Table) (program : Program) :
    (table.nextHand program).tableau.flatten = [] := by
  change (table.tableau.map fun _ => ([] : List Card)).flatten = []
  rw [List.flatten_eq_nil_iff]
  intro pile listed
  obtain ⟨_, _, rfl⟩ := List.mem_map.mp listed
  rfl

theorem flatten_tableau_opening (program : Program) (seed : UInt64) :
    (opening program seed).tableau.flatten = [] := by
  change (if program.usesTableau then [[]] else ([] : List (List Card))).flatten = []
  cases program.usesTableau <;> rfl

/-- When nobody holds a card any more, no trick is in progress. -/
theorem Waiting.centre_of_handsEmpty (waiting : table.Waiting) (empty : table.handsEmpty = true) :
    table.centre = [] := by
  have none : table.trick = [] := by
    by_contra begun
    obtain ⟨seat, seated, _, holds⟩ := trickComplete_eq_false_iff.mp waiting.waits begun
    obtain ⟨card, _, held⟩ := List.exists_cons_of_ne_nil holds
    have first : table.HasCard seat 0 card := ⟨Int.le_refl 0, by rw [held]; rfl⟩
    rw [handsEmpty_of_hasCard seated first] at empty
    cases empty
  rw [← List.length_eq_zero_iff, ← waiting.matched.contributors, none]
  rfl

/-- A hand of which no card is left has earned what the cards that were dealt to it are worth. -/
theorem Credits.scoreSum_of_handsEmpty (credits : Credits program dealt table)
    (waiting : table.Waiting) (empty : table.handsEmpty = true)
    (cleared : dealt.tableau.flatten = [])
    (conserved : ∀ card, table.tally card = dealt.tally card) :
    table.scoreSum = dealt.scoreSum + program.cardPoints dealt.handCards := by
  have nothing : table.tableau.flatten = [] := by
    have spare : table.tableau.tail = dealt.tableau.tail := congrArg Ledger.spare credits.rest
    have taken := waiting.centre_of_handsEmpty empty
    unfold centre at taken
    cases piles : table.tableau with
    | nil => rfl
    | cons pile rest =>
        rw [piles] at taken spare
        have first : pile = [] := taken
        have others : rest.flatten = [] := by
          change rest = dealt.tableau.tail at spare
          rw [spare, List.flatten_eq_nil_iff]
          intro pile listed
          exact List.flatten_eq_nil_iff.mp cleared pile (List.mem_of_mem_tail listed)
        rw [List.flatten_cons, first, others]
        rfl
  have held : table.handCards = [] := by
    refine List.flatMap_eq_nil_iff.mpr fun player listed => ?_
    exact List.isEmpty_iff.mp (List.all_eq_true.mp empty player listed)
  have deck : table.deck = dealt.deck := congrArg Ledger.deck credits.rest
  have discarded : table.discard.Perm (dealt.discard ++ dealt.handCards) := by
    rw [List.perm_iff_count]
    intro card
    have same := conserved card
    change table.deck.count card + table.discard.count card + table.handCards.count card +
        table.tableau.flatten.count card =
      dealt.deck.count card + dealt.discard.count card + dealt.handCards.count card +
        dealt.tableau.flatten.count card at same
    rw [nothing, held, cleared, deck, List.count_nil] at same
    rw [List.count_append]
    omega
  have points := credits.points
  rw [program.cardPoints_of_perm discarded, program.cardPoints_append] at points
  omega

end Table

/-! ### Steps -/

/-- Where a turn is to contribute to a trick, an action credits the cards that it discards, and is
then counted. If it was the last one of a hand and the game goes on, another hand is dealt. -/
theorem Action.exists_credits_of_act {program : Program} {tricks : TrickPhase} {seed : UInt64}
    {table next : Table} {outcome : Outcome} {action : Action} (inRange : program.InRange)
    (phases : program.phases = [.trick tricks]) (effects : program.effects = .empty)
    (reached : Reached program seed .open table) (legal : action.Legal program table)
    (acted : action.act program table = .ok outcome next) :
    ∃ last, Table.Credits program table last ∧ last.PlayedOut ∧ last.Waiting ∧ last.Orderly ∧
      ((next.handNumber = table.handNumber ∧ next = last) ∨
        (next.handNumber = table.handNumber + 1 ∧ last.handOver = true ∧
          next = last.nextHand program)) := by
  have only := Program.tricksAndBids_of_trick phases
  have waiting := reached.waiting only
  have orderly := reached.orderly inRange
  obtain ⟨phase, sequenced, proceeds, finished⟩ := proceeds_of_act legal acted
  obtain ⟨credits, out⟩ :=
    waiting.credits orderly phases effects reached.handOver_of_open proceeds
  have after := waiting.proceeds only proceeds
  have number : sequenced.handNumber = table.handNumber := congrArg Ledger.handNumber credits.rest
  refine ⟨{ sequenced with actions := sequenced.actions + 1 }, credits.trans (.of_ledger rfl), out,
    ⟨after.matched.of_contest rfl, after.waits, after.unskipped⟩,
    (proceeds.orderly orderly).of_frame rfl, ?_⟩
  have result : (sequenced.finishAction program).2 = next := congrArg Prod.snd finished
  rcases sequenced.finishAction_cases program with ⟨_, ended, dealt⟩ | ⟨_, counted⟩
  · refine .inr ⟨?_, ended, result.symm.trans dealt⟩
    rw [← result, dealt, ← number]
    rfl
  · refine .inl ⟨?_, result.symm.trans counted⟩
    rw [← result, counted, ← number]

/-- With the last trick a hand is over, and if the game goes on the next one is dealt at once. -/
theorem Action.EndsHand.completes {program : Program} {tricks : TrickPhase}
    {table next played : Table} {outcome : Outcome} {action : Action} (matched : table.Matched)
    (phases : program.phases = [.trick tricks]) (ends : action.EndsHand program tricks table played)
    (acted : action.act program table = .ok outcome next) :
    next.handOver = true ∨ next.handNumber ≠ table.handNumber := by
  obtain ⟨⟨index, place, card, rfl, held, laid⟩, complete, empty⟩ := ends
  have acts : Choice.trick place ≠ .pass := nofun
  obtain ⟨_, _, _, carries, finished⟩ := (Play.perform_eq_ok_iff acts).mp acted
  cases carries with
  | @trick _ _ _ other again found there contributed =>
      cases Program.phase_of_only phases found
      have same : other = card := Option.some.inj (there.2.symm.trans held.2)
      rw [same, ← laid] at contributed
      subst contributed
      obtain ⟨ended, number⟩ := Table.hand_settleTrick (Program.hasPhase_bidding_of_trick phases) tricks
        complete empty
      have before := congrArg Board.handNumber (Table.kept_of_contribution matched laid).1
      have turned := Table.orderBlind_board.endTurn (again.settleTrick program tricks).2
        (again.settleTrick program tricks).1
      have still := (congrArg Board.handNumber turned).trans (number.trans before)
      obtain ⟨goesOn, stops⟩ := Table.finishAction_of_handOver
        ((congrArg Board.handOver turned).trans ended) finished
      by_cases undecided : outcome = .open
      · have more : next.handNumber = table.handNumber + 1 :=
          (goesOn undecided).1.trans (congrArg (· + 1) still)
        exact .inr (by omega)
      · exact .inl (stops undecided).2

/-! ### Runs -/

/-- The states of legal runs, each with the table that the hand in progress began with. -/
inductive ReachedSince (program : Program) (seed : UInt64) : Table → Outcome → Table → Prop where
  | first {before dealt : Table} (started : Table.start program seed before = .ok () dealt) :
      ReachedSince program seed dealt .open dealt
  | within {dealt table next : Table} {outcome : Outcome} {action : Action}
      (earlier : ReachedSince program seed dealt .open table) (legal : action.Legal program table)
      (acted : action.act program table = .ok outcome next)
      (same : next.handNumber = table.handNumber) : ReachedSince program seed dealt outcome next
  | redealt {dealt table next : Table} {outcome : Outcome} {action : Action}
      (earlier : ReachedSince program seed dealt .open table) (legal : action.Legal program table)
      (acted : action.act program table = .ok outcome next)
      (another : next.handNumber ≠ table.handNumber) : ReachedSince program seed next outcome next

namespace ReachedSince

variable {program : Program} {tricks : TrickPhase} {seed : UInt64} {dealt table next : Table}
  {outcome result : Outcome} {action : Action}

theorem reached (since : ReachedSince program seed dealt outcome table) :
    Reached program seed outcome table := by
  induction since with
  | first started => exact .start started
  | within _ legal acted _ ih | redealt _ legal acted _ ih => exact .step ih legal acted

theorem reached_dealt (since : ReachedSince program seed dealt outcome table) :
    ∃ outcome, Reached program seed outcome dealt := by
  induction since with
  | first started => exact ⟨_, .start started⟩
  | within _ _ _ _ ih => exact ih
  | redealt earlier legal acted _ _ => exact ⟨_, .step earlier.reached legal acted⟩

theorem exists_of_reached (reached : Reached program seed outcome table) :
    ∃ dealt, ReachedSince program seed dealt outcome table := by
  induction reached with
  | start started => exact ⟨_, .first started⟩
  | @step table next outcome action _ legal acted ih =>
      obtain ⟨dealt, since⟩ := ih
      by_cases same : next.handNumber = table.handNumber
      · exact ⟨dealt, since.within legal acted same⟩
      · exact ⟨next, since.redealt legal acted same⟩

theorem reached_iff :
    Reached program seed outcome table ↔ ∃ dealt, ReachedSince program seed dealt outcome table :=
  ⟨exists_of_reached, fun ⟨_, since⟩ => since.reached⟩

/-- The scores of a hand go with its discards, from a deal that leaves the tableau clear. -/
theorem credits (inRange : program.InRange) (phases : program.phases = [.trick tricks])
    (effects : program.effects = .empty)
    (since : ReachedSince program seed dealt outcome table) :
    Table.Credits program dealt table ∧ dealt.tableau.flatten = [] := by
  induction since with
  | first started =>
      obtain ⟨_, rfl⟩ := Table.start_eq_ok_iff.mp started
      exact ⟨.of_ledger rfl, Table.flatten_tableau_opening program seed⟩
  | within earlier legal acted same ih =>
      obtain ⟨credits, cleared⟩ := ih
      obtain ⟨last, step, _, _, _, ⟨_, rfl⟩ | ⟨more, _⟩⟩ :=
        Action.exists_credits_of_act inRange phases effects earlier.reached legal acted
      · exact ⟨credits.trans step, cleared⟩
      · omega
  | redealt earlier legal acted another _ =>
      obtain ⟨last, _, _, _, _, ⟨same, _⟩ | ⟨_, _, rfl⟩⟩ :=
        Action.exists_credits_of_act inRange phases effects earlier.reached legal acted
      · exact absurd same another
      · exact ⟨.of_ledger rfl, last.flatten_tableau_nextHand program⟩

/-- An action that completes a hand. -/
theorem scoreSum_of_completed (inRange : program.InRange)
    (phases : program.phases = [.trick tricks]) (effects : program.effects = .empty)
    (since : ReachedSince program seed dealt .open table) (legal : action.Legal program table)
    (acted : action.act program table = .ok result next)
    (completed : next.handOver = true ∨ next.handNumber ≠ table.handNumber) :
    next.scoreSum = dealt.scoreSum + program.cardPoints dealt.handCards := by
  obtain ⟨earned, cleared⟩ := since.credits inRange phases effects
  obtain ⟨last, credits, out, waiting, orderly, ends⟩ :=
    Action.exists_credits_of_act inRange phases effects since.reached legal acted
  obtain ⟨_, begun⟩ := since.reached_dealt
  have before (card : Card) : next.tally card = dealt.tally card := by
    rw [((Reached.step since.reached legal acted).absorbs inRange).tally,
      (begun.absorbs inRange).tally]
  rcases ends with ⟨same, rfl⟩ | ⟨_, ended, rfl⟩
  · have ended := completed.resolve_right (not_not_intro same)
    exact (earned.trans credits).scoreSum_of_handsEmpty waiting (out ended) cleared before
  · have conserved (card : Card) : last.tally card = dealt.tally card := by
      have gathered := (Table.absorbs_nextHand program orderly).tally card
      rw [List.count_nil, Nat.add_zero] at gathered
      rw [← gathered, before]
    have scores : (last.nextHand program).scoreSum = last.scoreSum :=
      congrArg total (last.scores_nextHand program)
    rw [scores]
    exact (earned.trans credits).scoreSum_of_handsEmpty waiting (out ended) cleared conserved

end ReachedSince

/-! ### A hand of one trick -/

/-- A game for two in which each is dealt a card and one more is discarded. -/
def trickGame : Program where
  setup := { cardsPerParticipant := 1, initialDiscards := 1 }
  phases := [.trick {}]

/-- Its table in the first hand: what the first participant still holds and the card led. -/
def trickTable (seed : UInt64) (deck : List Card) (generator : Generator) (second third : Card)
    (hand led : List Card) (turn actions active : Int) : Table :=
  { Table.seated trickGame seed with
    players := [{ hand := hand }, { hand := [second] }]
    deck, generator
    discard := [third]
    tableau := [led]
    trick := (List.range led.length).map Int.ofNat
    turn, actions, active }

theorem exists_opening_trickGame (seed : UInt64) :
    ∃ first second third deck generator, Table.opening trickGame seed =
      trickTable seed deck generator second third [first] [] 0 0 0 := by
  obtain ⟨deck, generator, permuted, dealt⟩ := Table.exists_opening_eq trickGame seed
  have size : deck.reverse.length = 52 := by
    rw [List.length_reverse, permuted.length_eq]
    rfl
  match listed : deck.reverse, size with
  | first :: second :: third :: rest, _ =>
      have players : { Table.seated trickGame seed with
          deck := deck, generator := generator }.players = [{}, {}] := rfl
      have seats : { Table.seated trickGame seed with
          deck := deck, generator := generator }.seats = 2 := rfl
      have share : Table.share trickGame { Table.seated trickGame seed with
          deck := deck, generator := generator } = 1 := rfl
      refine ⟨first, second, third, rest.reverse, generator, ?_⟩
      rw [dealt]
      unfold Table.deal
      rw [listed, share, seats, players]
      rfl

end Croupier
