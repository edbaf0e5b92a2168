/-
The games that come with the simulator.
-/

import Croupier.Program.Basic

namespace Croupier.Library

/-! ### Fingerprints and masks -/

/-- One step of the 64-bit FNV-1a hash. -/
def absorb (hash : UInt64) (byte : UInt8) : UInt64 :=
  (hash ^^^ byte.toUInt64) * 1099511628211

/-- The 64-bit FNV-1a hash of a name, which identifies the game it names. -/
def fingerprint (name : String) : UInt64 :=
  name.toUTF8.toList.foldl absorb 14695981039346656037

def rankBit (rank : Rank) : UInt16 :=
  1 <<< rank.index.toUInt16

/-- The mask of all thirteen ranks but the given ones. -/
def maskWithout (ranks : List Rank) : UInt16 :=
  ranks.foldl (fun mask rank => mask &&& ~~~rankBit rank) 0x1FFF

/-- The reference byte for the top of the discard pile. -/
def topDiscard : UInt8 := 1

/-! ### The games -/

/-- Both sides turn up cards, and the higher card takes the battle. -/
def war : Program where
  header :=
    { tableauMode := .war
      tieBreak := .alternate
      participants := 2
      maxTurns := 1000
      fingerprint := fingerprint "war" }
  phases := [.play { target := .tableau }]
  winConditions := [{ kind := .captureAll }]

/-- Match the top of the discard pile by rank or suit; eights are wild. Only
who can play nothing draws. -/
def crazyEights : Program where
  header :=
    { participants := 3
      maxTurns := 500
      fingerprint := fingerprint "crazy-eights" }
  setup := { cardsPerParticipant := 7, initialDiscards := 1 }
  phases :=
    [.draw { condition := some { kind := .playableCount } },
      .play
        { passIfUnable := true
          conditions :=
            { quantifier := .any
              conditions :=
                [{ kind := .matchesRank, reference := topDiscard },
                  { kind := .matchesSuit, reference := topDiscard }] } }]
  winConditions := [{ kind := .emptyHand }]
  effects :=
    EffectTable.ofList
      [(.rank .two, { kind := .drawCards, target := .next, value := 2 }),
        (.rank .eight, { kind := .wild, target := .self, value := 0 }),
        (.rank .queen, { kind := .skipNext, target := .next, value := 1 }),
        (.rank .ace, { kind := .reverse, target := .self, value := 0 })]

/-- Tricks without trump in which every heart costs a point. -/
def hearts : Program where
  header :=
    { participants := 4
      maxTurns := 2000
      fingerprint := fingerprint "hearts" }
  setup := { cardsPerParticipant := 13 }
  phases := [.trick { breaking := some (.suit .hearts) }]
  winConditions :=
    [{ kind := .lowScore, threshold := 50, trigger := .thresholdReached }]
  scoring :=
    [{ kind := .suitPoints
       selector := Suit.hearts.index.toUInt8
       points := 1 }]

/-- Exchange a card, then bet on the best five. -/
def drawPoker : Program where
  header :=
    { participants := 3
      maxTurns := 600
      fingerprint := fingerprint "draw-poker" }
  setup := { cardsPerParticipant := 5, startingChips := 100 }
  phases :=
    [.discard { mandatory := false },
      .draw
        { condition :=
            some { kind := .handSize, comparison := .less, value := 5 } },
      .betting { minBet := 10, maxRaises := 3 }]
  winConditions :=
    [{ kind := .mostChips, threshold := 250, trigger := .thresholdReached }]

/-- Capture table cards by matching their rank, with a deck of forty. -/
def scopa : Program where
  header :=
    { tableauMode := .matchRank
      rankMask := maskWithout [.eight, .nine, .ten]
      participants := 2
      maxTurns := 400
      fingerprint := fingerprint "scopa" }
  setup := { cardsPerParticipant := 3, initialDiscards := 4 }
  phases :=
    [.play {},
      .draw
        { count := 3
          condition := some { kind := .handSize, value := 0 } }]
  winConditions :=
    [{ kind := .mostCaptured, threshold := 16, trigger := .thresholdReached },
      { kind := .mostCaptured, trigger := .deckAndHandsEmpty }]

/-- Lay cards face down, claim ranks in turn, and dare to challenge. -/
def cheat : Program where
  header :=
    { participants := 3
      maxTurns := 1000
      fingerprint := fingerprint "cheat" }
  phases := [.claim {}]
  winConditions := [{ kind := .emptyHand }]

/-- Two partnerships bid for tricks; spades are trump. -/
def spades : Program where
  header :=
    { teamMode := true
      participants := 4
      maxTurns := 3000
      fingerprint := fingerprint "spades" }
  setup := { cardsPerParticipant := 13 }
  phases :=
    [.bidding {},
      .trick
        { trump := some (.suit .spades)
          breaking := some (.suit .spades) }]
  winConditions :=
    [{ kind := .highScore, threshold := 250, trigger := .thresholdReached }]
  scoring :=
    [{ kind := .pointsPerTrickBid, points := 10 },
      { kind := .overtrickPoints, points := 1 },
      { kind := .bagLimit, points := 10 },
      { kind := .bagPenalty, points := 100 },
      { kind := .nilBonus, points := 100 },
      { kind := .nilPenalty, points := 100 },
      { kind := .failedContractPenalty, points := 10 }]
  teams := [[0, 2], [1, 3]]

/-! ### The shelf -/

/-- Every game by name, in the order in which they are listed. -/
def games : List (String × Program) :=
  [("war", war), ("crazy-eights", crazyEights), ("hearts", hearts),
    ("draw-poker", drawPoker), ("scopa", scopa), ("cheat", cheat),
    ("spades", spades)]

def names : List String :=
  games.map (·.1)

def find? (name : String) : Option Program :=
  games.lookup name

def unknownGame (name : String) : String :=
  "Unknown built-in program \"" ++ name ++ "\"."

end Croupier.Library
