/-
Poker hands: the category of up to five cards, and the best five of a longer
hand.

A hand is ranked by one number. Its category comes first, then the ranks that
break ties, in the order of their multiplicity and then of their height; each
takes four bits. Straights need only their top card, a royal flush none.
-/

import Croupier.Hand.Shape

namespace Croupier.Hand

/-! ### Categories -/

/-- The categories of poker hands. Five of a kind takes a second deck. -/
inductive Category where
  | highCard | pair | twoPair | threeOfAKind | straight | flush | fullHouse
  | fourOfAKind | straightFlush | royalFlush | fiveOfAKind
  deriving DecidableEq, Repr

/-- Where a category stands among all categories, the weakest of which is
first. -/
def Category.strength : Category → Nat
  | highCard => 1
  | pair => 2
  | twoPair => 3
  | threeOfAKind => 4
  | straight => 5
  | flush => 6
  | fullHouse => 7
  | fourOfAKind => 8
  | straightFlush => 9
  | royalFlush => 10
  | fiveOfAKind => 11

/-! ### Up to five cards -/

/-- Puts a rank and its multiplicity before the first pair of no greater
multiplicity. -/
def insertGroup (group : Nat × Rank) : List (Nat × Rank) → List (Nat × Rank)
  | [] => [group]
  | first :: rest =>
      if first.1 ≤ group.1 then
        group :: first :: rest
      else
        first :: insertGroup group rest

/-- The ranks of a hand with their multiplicities, by multiplicity and then by
rank, both descending. -/
def groups (hand : List Card) : List (Nat × Rank) :=
  Rank.all.foldl
    (fun groups rank =>
      let count := rankCount hand rank
      if count = 0 then groups else insertGroup (count, rank) groups)
    []

def isFlush : List Card → Bool
  | [] => true
  | card :: rest => rest.all (fun other => other.suit = card.suit)

/-- The category of five cards of different ranks, which are given in descending
order, and the ranks that break ties. -/
def distinctCategory (hand : List Card) (ranks : List Rank) :
    Category × List Rank :=
  match ranks with
  | [top, second, _, _, last] =>
      let regular := top.index = last.index + 4
      let wheel := top = .ace && second = .five
      if regular && isFlush hand then
        if top = .ace then (.royalFlush, []) else (.straightFlush, [top])
      else if wheel && isFlush hand then
        (.straightFlush, [second])
      else if isFlush hand then
        (.flush, ranks)
      else if regular then
        (.straight, [top])
      else if wheel then
        (.straight, [second])
      else
        (.highCard, ranks)
  | _ => (.highCard, ranks)

/-- The category of up to five cards and the ranks that break ties. Straights
and flushes need five cards. -/
def category (hand : List Card) : Category × List Rank :=
  let groups := groups hand
  let ranks := groups.map (·.2)
  match groups.map (·.1) with
  | 5 :: _ => (.fiveOfAKind, ranks)
  | 4 :: _ => (.fourOfAKind, ranks)
  | 3 :: 2 :: _ => (.fullHouse, ranks)
  | 3 :: _ => (.threeOfAKind, ranks)
  | 2 :: 2 :: _ => (.twoPair, ranks)
  | 2 :: _ => (.pair, ranks)
  | _ => distinctCategory hand ranks

/-- The number that ranks deciding ties make up, four bits each, for so many
places. -/
def tieBreaker : (places : Nat) → List Rank → Nat
  | 0, _ => 0
  | _, [] => 0
  | places + 1, rank :: rest =>
      rank.index * Nat.pow 16 places + tieBreaker places rest

/-- What one step of strength is worth: more than any five places of a
tie-breaker make up. -/
def strengthStep : Nat := 1048576

/-- The number by which up to five cards are ranked; the larger one wins. -/
def rank (hand : List Card) : Nat :=
  let (category, ties) := category hand
  category.strength * strengthStep + tieBreaker 5 ties

/-! ### Longer hands -/

/-- Every way to choose so many items, in the order of the list. -/
def choose {α : Type} : (count : Nat) → List α → List (List α)
  | 0, _ => [[]]
  | _ + 1, [] => []
  | count + 1, item :: rest =>
      (choose count rest).map (item :: ·) ++ choose (count + 1) rest

/-- The longest hand of which every choice of five is looked at. -/
def maxExhaustive : Nat := 10

/-- The cards that a long hand is ranked by: the highest ones, by rank and then
by suit. -/
def strongest (hand : List Card) : List Card :=
  if hand.length ≤ maxExhaustive then
    hand
  else
    (hand.mergeSort (fun left right => right.atMost left)).take maxExhaustive

/-- The rank of the best five cards, or of all if there are no more than five.
An empty hand ranks lowest. -/
def bestRank (hand : List Card) : Nat :=
  if hand.isEmpty then
    0
  else if hand.length ≤ 5 then
    rank hand
  else
    (choose 5 (strongest hand)).foldl
      (fun best five => max best (rank five)) 0

end Croupier.Hand
