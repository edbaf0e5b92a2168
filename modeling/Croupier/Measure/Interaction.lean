/-
Interaction: how much the actions of one participant change what the next one
can do.

A prospect describes a move apart from the place of its card in the hand, so
that a mere change of order is no change.
-/

import Croupier.Binary64
import Croupier.Rules.Offer

namespace Croupier

/-! ### Prospects -/

/-- What a move amounts to. -/
structure Prospect where
  kind : Nat
  action : Nat
  location : Nat
  bid : Int
  /-- The number of the card, minus one without a card. -/
  card : Int
  deriving DecidableEq, Repr

namespace Prospect

/-- The numbers of a prospect, the most significant one first. -/
def key (prospect : Prospect) : List Int :=
  [prospect.kind, prospect.action, prospect.location, prospect.bid,
    prospect.card]

/-- Whether a list of numbers comes no later than another, the first difference
deciding. -/
def keyAtMost : List Int → List Int → Bool
  | [], _ => true
  | _ :: _, [] => false
  | left :: lefts, right :: rights =>
      left < right || (left = right && keyAtMost lefts rights)

def atMost (left right : Prospect) : Bool :=
  keyAtMost left.key right.key

/-- The prospect of a choice with the cards of a hand. -/
def ofChoice (hand : List Card) (choice : Choice) : Prospect where
  kind := choice.code.toNat
  action := (Coded.code choice.action).toNat
  location := (Coded.code choice.location).toNat
  bid := choice.bidValue
  card :=
    if choice.card < 0 then
      -1
    else
      match hand[choice.card.toNat]? with
      | some card => card.index
      | none => -1

end Prospect

namespace Table

/-- What a participant could do in any phase of a turn, in ascending order. -/
def prospects (table : Table) (program : Program) (seat : Int) :
    List Prospect :=
  let hand := table.hand seat
  let choices := program.phases.zipIdx.flatMap fun (phase, index) =>
    table.offers program seat index phase
  (choices.map (Prospect.ofChoice hand)).mergeSort Prospect.atMost

end Table

/-! ### Shared resources -/

/-- What participants compete for. -/
inductive Resource where
  | deck
  | discard
  | tableau
  | pot
  deriving DecidableEq, Repr

namespace Resource

/-- The shared pile of a location, by the code of the location. -/
def ofLocation? (code : Nat) : Option Resource :=
  match code with
  | 0 => some deck
  | 2 => some discard
  | 3 => some tableau
  | _ => none

/-- What a prospect uses. Checking and folding leave the pot alone. -/
def ofProspect? (prospect : Prospect) : Option Resource :=
  match prospect.kind with
  | 0 | 1 | 2 => ofLocation? prospect.location
  | 3 => some tableau
  | 4 => if prospect.action = 1 ∨ prospect.action = 6 then none else some pot
  | 5 => some discard
  | _ => none

end Resource

/-! ### Counting -/

/-- What was seen of the interaction so far. -/
structure Interaction where
  /-- The share of prospects beyond whose loss a response counts as forced. -/
  threshold : Float := 0.3
  /-- Who is watched during the current action, unless that is the actor. -/
  watched : Option Int := none
  /-- The prospects of the watched participant before the action. -/
  before : List Prospect := []
  actions : Nat := 0
  opponentTurns : Nat := 0
  disruptions : Nat := 0
  forcedResponses : Nat := 0
  contentions : Nat := 0

/-- What the interaction of a game is said to have been like. -/
structure InteractionReport where
  disruption : Binary64 := .ofFloat 0.0
  forcedResponse : Binary64 := .ofFloat 0.0
  contention : Binary64 := .ofFloat 0.0
  /-- The average of the three. -/
  score : Binary64 := .ofFloat 0.0
  opponentTurns : Nat := 0
  actions : Nat := 0

namespace Interaction

/-- Looks at the prospects of the next participant before an action. -/
def beforeAction (interaction : Interaction) (table : Table)
    (program : Program) (actor : Int) : Interaction :=
  let next := table.nextSeat actor
  if next = actor then
    { interaction with watched := none, before := [] }
  else
    { interaction with
      watched := some next
      before := table.prospects program next }

/-- Whether more prospects were lost than the threshold allows. -/
def isForced (threshold : Float) (before after : Nat) : Bool :=
  before ≠ 0
    && (before.toFloat - after.toFloat) / before.toFloat > threshold

/-- Whether the action used something that the watched participant could have
used. -/
def isContested (before : List Prospect) (choice : Choice) : Bool :=
  match Resource.ofProspect? (Prospect.ofChoice [] choice) with
  | none => false
  | some resource =>
      before.any fun prospect => Resource.ofProspect? prospect = some resource

/-- Looks at the prospects of the watched participant after an action. -/
def afterAction (interaction : Interaction) (table : Table)
    (program : Program) (choice : Choice) : Interaction :=
  let counted := { interaction with actions := interaction.actions + 1 }
  match interaction.watched with
  | none => counted
  | some watched =>
      let before := interaction.before
      let after := table.prospects program watched
      { counted with
        opponentTurns := counted.opponentTurns + 1
        disruptions :=
          counted.disruptions + if after = before then 0 else 1
        forcedResponses :=
          counted.forcedResponses
            + if isForced counted.threshold before.length after.length then 1
              else 0
        contentions :=
          counted.contentions + if isContested before choice then 1 else 0 }

/-- A count as a part of another, zero if that is zero. -/
def part (count total : Nat) : Float :=
  if total = 0 then 0.0 else count.toFloat / total.toFloat

/-- What the interaction was like. -/
def report (interaction : Interaction) : InteractionReport :=
  let disruption := part interaction.disruptions interaction.opponentTurns
  let forcedResponse :=
    part interaction.forcedResponses interaction.opponentTurns
  let contention := part interaction.contentions interaction.actions
  { disruption
    forcedResponse
    contention
    score := .ofFloat ((disruption + forcedResponse + contention) / 3.0)
    opponentTurns := interaction.opponentTurns
    actions := interaction.actions }

end Interaction

end Croupier
