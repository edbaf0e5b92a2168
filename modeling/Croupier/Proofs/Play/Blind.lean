/-
Values that a change has no part in.

The skips take no notice of cards, the trick in progress takes none of chips. Whatever value is
taken of a table, it is enough to know the few kinds of change that leave it alone: then every
draw, effect, battle, wager or showdown that is made of these leaves it alone as well.
-/

import Croupier.Rules.Turn

namespace Croupier.Table

variable {γ : Type} {value : Table → γ} {table next : Table} {seat actor : Int}

/-! ### Changes of changes -/

theorem repeat_preserves (value : Table → γ) {step : Table → Table}
    (each : ∀ table, value (step table) = value table) (count : Nat) :
    value (count.repeat step table) = value table := by
  induction count with
  | zero => rfl
  | succ count ih => exact (each _).trans ih

theorem foldl_preserves {α : Type} (value : Table → γ) {step : Table → α → Table}
    (each : ∀ table item, value (step table item) = value table) (items : List α) :
    value (items.foldl step table) = value table := by
  induction items generalizing table with
  | nil => rfl
  | cons item rest ih => exact ih.trans (each table item)

theorem againstFirst_preserves (value : Table → γ) {change : Table → Int → Table}
    (each : ∀ table target, value (change table target) = value table) (targets : List Int) :
    value (table.againstFirst actor targets change) = value table := by
  cases targets with
  | nil => rfl
  | cons target rest =>
      unfold againstFirst
      dsimp only
      split
      · rfl
      · exact each table target

/-! ### Cards off the tableau -/

/-- Neither the hands nor the deck nor the discard pile nor the generator has a part in the
value. -/
structure HandBlind (value : Table → γ) : Prop where
  hand : ∀ table seat change, value (table.modifyHand seat change) = value table
  deck : ∀ table deck, value { table with deck } = value table
  discard : ∀ table discard, value { table with discard } = value table
  generator : ∀ table generator, value { table with generator } = value table

theorem openPile_of_ne {location : Location} (elsewhere : location ≠ .tableau) :
    table.openPile location = table := by
  cases location with
  | tableau => exact absurd rfl elsewhere
  | _ => rfl

namespace HandBlind

theorem modifyPile (blind : HandBlind value) (table : Table) (seat : Int) {location : Location}
    (elsewhere : location ≠ .tableau) (change : List Card → List Card) :
    value (table.modifyPile seat location change) = value table := by
  cases location with
  | tableau => exact absurd rfl elsewhere
  | deck => exact blind.deck table _
  | hand | opponentHand => exact blind.hand table _ change
  | discard | unknown => exact blind.discard table _

/-- A draw is as invisible as the pile that is drawn from. -/
theorem draw_of_pile (blind : HandBlind value) {source : Location}
    (opened : ∀ table, value (table.openPile source) = value table)
    (changed : ∀ table change, value (table.modifyPile seat source change) = value table)
    (table : Table) (count : Int) : value (table.draw seat source count) = value table := by
  have each (before : Table) : value (drawOne seat source before) = value before := by
    unfold drawOne
    split
    · rfl
    · exact (blind.hand _ seat _).trans (changed before _)
  have drawn (times : Nat) :
      value (times.repeat (drawOne seat source) (table.openPile source)) = value table :=
    (repeat_preserves value each times).trans (opened table)
  cases source with
  | hand => rfl
  | deck | discard | tableau | opponentHand | unknown => exact drawn _

theorem draw (blind : HandBlind value) (table : Table) (seat : Int) {source : Location}
    (elsewhere : source ≠ .tableau) (count : Int) :
    value (table.draw seat source count) = value table :=
  blind.draw_of_pile (fun _ => congrArg value (openPile_of_ne elsewhere))
    (fun before => blind.modifyPile before seat elsewhere) table count

theorem forceDiscard (blind : HandBlind value) (table : Table) (seat count : Int) :
    value (table.forceDiscard seat count) = value table := by
  apply repeat_preserves value
  intro before
  unfold discardOne
  split
  · rfl
  · exact (blind.discard _ _).trans (blind.hand before seat _)

theorem steal (blind : HandBlind value) (table : Table) (thief victim count : Int) :
    value (table.steal thief victim count) = value table := by
  apply repeat_preserves value
  intro before
  unfold stealOne
  split
  · rfl
  · exact (blind.hand _ thief _).trans (blind.hand before victim _)

theorem swapHands (blind : HandBlind value) (table : Table) (left right : Int) :
    value (table.swapHands left right) = value table := by
  unfold Table.swapHands
  rw [blind.hand, blind.hand]

/-! ### Effects -/

theorem effectTargets (blind : HandBlind value) (table : Table) (actor : Int)
    (target : EffectTarget) : value (table.effectTargets actor target).2 = value table := by
  cases target with
  | randomOpponent => exact blind.generator table _
  | next | previous | left | right | self | allOpponents | unknown => rfl

theorem applyEffect_of_moves (blind : HandBlind value) (table : Table) (actor : Int)
    {effect : Effect}
    (moves : effect.kind = .drawCards ∨ effect.kind = .forceDiscard ∨
      effect.kind = .swapHands ∨ effect.kind = .stealCard) :
    value (table.applyEffect actor effect) = value table := by
  have aimed := blind.effectTargets table actor effect.target
  unfold applyEffect
  rcases moves with kind | kind | kind | kind
  · rw [kind]
    refine (foldl_preserves value ?_ _).trans aimed
    exact fun before target => blind.draw before target (by decide) effect.value
  · rw [kind]
    refine (foldl_preserves value ?_ _).trans aimed
    exact fun before target => blind.forceDiscard before target effect.value
  · rw [kind]
    refine (againstFirst_preserves value ?_ _).trans aimed
    exact fun before target => blind.swapHands before actor target
  · rw [kind]
    refine (againstFirst_preserves value ?_ _).trans aimed
    exact fun before target => blind.steal before actor target effect.value

/-- What is blind to the turn order besides sees nothing of any effect. -/
theorem triggerEffect (blind : HandBlind value)
    (order : ∀ table skips direction, value { table with skips, direction } = value table)
    (table : Table) (program : Program) (actor : Int) (card : Card) :
    value (table.triggerEffect program actor card) = value table := by
  unfold Table.triggerEffect
  split
  · rename_i effect _
    cases kind : effect.kind with
    | skipNext | blockNext | extraTurn | reverse =>
        unfold applyEffect
        rw [kind]
        exact order table _ _
    | wild | peek | unknown =>
        unfold applyEffect
        rw [kind]
    | drawCards => exact blind.applyEffect_of_moves table actor (.inl kind)
    | forceDiscard => exact blind.applyEffect_of_moves table actor (.inr (.inl kind))
    | swapHands => exact blind.applyEffect_of_moves table actor (.inr (.inr (.inl kind)))
    | stealCard => exact blind.applyEffect_of_moves table actor (.inr (.inr (.inr kind)))
  · rfl

end HandBlind

/-! ### Cards anywhere -/

/-- No card has a part in the value, wherever it lies. -/
structure CardBlind (value : Table → γ) : Prop extends HandBlind value where
  tableau : ∀ table tableau, value { table with tableau } = value table

namespace CardBlind

theorem openTableau (blind : CardBlind value) (table : Table) :
    value table.openTableau = value table := by
  unfold Table.openTableau
  split
  · exact blind.tableau table _
  · rfl

theorem openPile (blind : CardBlind value) (table : Table) (location : Location) :
    value (table.openPile location) = value table := by
  cases location with
  | tableau => exact blind.openTableau table
  | deck | hand | discard | opponentHand | unknown => rfl

theorem modifyPile (blind : CardBlind value) (table : Table) (seat : Int) (location : Location)
    (change : List Card → List Card) :
    value (table.modifyPile seat location change) = value table := by
  by_cases there : location = .tableau
  · subst there
    exact (blind.tableau _ _).trans (blind.openTableau table)
  · exact blind.toHandBlind.modifyPile table seat there change

theorem draw (blind : CardBlind value) (table : Table) (seat : Int) (source : Location)
    (count : Int) : value (table.draw seat source count) = value table :=
  blind.draw_of_pile (fun before => blind.openPile before source)
    (fun before => blind.modifyPile before seat source) table count

end CardBlind

/-! ### Battles -/

/-- Neither cards nor scores have a part in the value, nor has the battle in progress. -/
structure BattleBlind (value : Table → γ) : Prop extends CardBlind value where
  taken : ∀ (table : Table) (seat : Int) (hand : Player → List Card) (score : Player → Int),
    value (table.modifyPlayer seat fun player =>
      { player with hand := hand player, score := score player }) = value table
  battle : ∀ table battleSeats battleCards battles,
    value { table with battleSeats, battleCards, battles } = value table

namespace BattleBlind

theorem settleBattle (blind : BattleBlind value) (table : Table) (program : Program) :
    value (table.settleBattle program) = value table := by
  unfold Table.settleBattle takeBattle
  split
  · split
    · rfl
    · exact (blind.battle _ _ _ _).trans ((blind.tableau _ _).trans (blind.taken table _ _ _))
  · rfl

theorem playCard (blind : BattleBlind value) (table : Table) (program : Program) (seat : Int)
    (card : Card) (target : Location) :
    value (table.playCard program seat card target) = value table := by
  have opened := blind.openPile table target
  have entered (before : Table) : value (before.enterBattle seat card) = value before := by
    unfold enterBattle
    split <;> exact blind.battle before _ _ _
  unfold Table.playCard
  dsimp only
  split
  · have uncovered := blind.modifyPile (table.openPile target) seat target List.dropLast
    exact (blind.taken _ seat _ _).trans (uncovered.trans opened)
  · have placed := blind.modifyPile (table.openPile target) seat target (· ++ [card])
    split
    · exact (blind.settleBattle _ program).trans ((entered _).trans (placed.trans opened))
    · exact placed.trans opened

end BattleBlind

/-! ### Wagers -/

/-- Neither what the participants have nor what is at stake has a part in the value. -/
def StakeBlind (value : Table → γ) : Prop :=
  ∀ table players pot bet raises showdowns lastShowdown showdownResolved handOver,
    value { table with
      players, pot, bet, raises, showdowns, lastShowdown, showdownResolved, handOver } =
        value table

namespace StakeBlind

theorem modifyPlayer (blind : StakeBlind value) (table : Table) (seat : Int)
    (change : Player → Player) : value (table.modifyPlayer seat change) = value table := by
  unfold Table.modifyPlayer
  split
  · rfl
  · exact blind table _ _ _ _ _ _ _ _

theorem wager (blind : StakeBlind value) {phase : BettingPhase} {action : BettingAction}
    (wagered : table.wager? seat phase action = some next) : value next = value table := by
  have paid (before : Table) (amount : Int) : value (before.pay seat amount) = value before :=
    (blind _ _ _ _ _ _ _ _ _).trans (blind.modifyPlayer before seat _)
  have tops (before : Table) : value (before.setBet seat) = value before :=
    blind before _ _ _ _ _ _ _ _
  have acts (before : Table) :
      value (before.modifyPlayer seat Player.afterActing) = value before :=
    blind.modifyPlayer before seat _
  unfold wager? at wagered
  cases action with
  | none | unknown => cases wagered
  | check | fold =>
      cases wagered
      exact blind.modifyPlayer table seat _
  | call =>
      cases wagered
      exact (acts _).trans (paid table _)
  | bet =>
      cases wagered
      exact (acts _).trans ((tops _).trans (paid table _))
  | raise =>
      cases wagered
      have raised := blind (table.pay seat (table.owed seat + phase.minBet))
      exact (acts _).trans ((tops _).trans ((raised _ _ _ _ _ _ _ _).trans (paid table _)))
  | allIn =>
      cases wagered
      have staked := (blind.modifyPlayer (table.pay seat (table.player seat).chips) seat
        fun player => { player with allIn := true }).trans (paid table _)
      refine (acts _).trans ?_
      split
      · exact (tops _).trans staked
      · exact staked

theorem settleBetting (blind : StakeBlind value) (table : Table) (program : Program) :
    value (table.settleBetting program) = value table := by
  have paid : value (table.payWinners (table.showdownWinners program)) = value table := by
    cases table.showdownWinners program with
    | nil => rfl
    | cons first rest =>
        have shared : value ((first :: rest).foldl
            (award (table.pot.tdiv ((rest.length + 1 : Nat) : Int))) table) = value table :=
          foldl_preserves value (fun before winner => blind.modifyPlayer before winner _) _
        exact (blind _ _ _ _ _ _ _ _ _).trans ((blind.modifyPlayer _ first _).trans shared)
  unfold Table.settleBetting
  split
  · exact (blind _ _ _ _ _ _ _ _ _).trans paid
  · rfl

end StakeBlind

/-! ### The turn order -/

/-- Neither whose turn it is nor how far it has come has a part in the value. -/
def OrderBlind (value : Table → γ) : Prop :=
  ∀ table active turn phase step skips,
    value { table with active, turn, phase, step, skips } = value table

namespace OrderBlind

theorem endTurn (blind : OrderBlind value) (table : Table) (leader : Int) :
    value (table.endTurn leader) = value table := by
  have each (before : Table) : value (advanceOne before) = value before :=
    blind before _ _ _ _ _
  have advanced (before : Table) : value before.advance = value before :=
    (blind _ _ _ _ _ _).trans (repeat_preserves value each _)
  unfold Table.endTurn
  dsimp only
  split
  · exact (advanced _).trans (blind table _ _ _ _ _)
  · exact blind table _ _ _ _ _

theorem completePhase (blind : OrderBlind value) (table : Table) (program : Program)
    (leader : Int) : value (table.completePhase program leader) = value table := by
  unfold Table.completePhase
  dsimp only
  split
  · exact (blind.endTurn _ leader).trans (blind table _ _ _ _ _)
  · exact blind table _ _ _ _ _

theorem afterMove (blind : OrderBlind value) (table : Table) (program : Program)
    (choice : Choice) (leader : Int) :
    value (table.afterMove program choice leader) = value table := by
  unfold Table.afterMove
  cases choice with
  | draw => exact blind.completePhase table program leader
  | play | discard =>
      dsimp only
      split
      · exact (blind.completePhase _ program leader).trans (blind table _ _ _ _ _)
      · exact blind table _ _ _ _ _
  | trick | bet | claim | bid => exact blind.endTurn table leader
  | challenge | accept | pass | unknown => rfl

theorem afterPass (blind : OrderBlind value) (table : Table) (program : Program) (phase : Phase)
    (leader : Int) : value (table.afterPass program phase leader) = value table := by
  unfold Table.afterPass
  cases phase with
  | trick | betting | claim => exact blind.endTurn table leader
  | draw | play | discard | bidding => exact blind.completePhase table program leader

end OrderBlind

end Croupier.Table
