/-
Lists of bounded length.

A capped list takes items until it is full; what comes after that is dropped.
-/

namespace Croupier

/-- A list of at most so many items. -/
structure Capped (capacity : Nat) (α : Type) where
  items : List α := []
  length_le : items.length ≤ capacity := by simp
  deriving DecidableEq, Repr

namespace Capped

variable {capacity : Nat} {α : Type}

/-- The first items of a list, as many as there is room for. -/
def ofList (items : List α) : Capped capacity α where
  items := items.take capacity
  length_le := List.length_take_le capacity items

def size (list : Capped capacity α) : Nat :=
  list.items.length

def isEmpty (list : Capped capacity α) : Bool :=
  list.items.isEmpty

def isFull (list : Capped capacity α) : Bool :=
  list.size = capacity

theorem length_append_le {items : List α} (item : α)
    (room : items.length < capacity) :
    (items ++ [item]).length ≤ capacity := by
  simp
  omega

/-- The list with an item at its end, if there is room for it. -/
def push (list : Capped capacity α) (item : α) : Capped capacity α :=
  if room : list.items.length < capacity then
    { items := list.items ++ [item]
      length_le := length_append_le item room }
  else
    list

def pop (list : Capped capacity α) : Capped capacity α where
  items := list.items.dropLast
  length_le := by
    have bound := list.length_le
    simp
    omega

def clear (_list : Capped capacity α) : Capped capacity α := {}

/-- The list with another item at a place, if there is one at that place. -/
def set (list : Capped capacity α) (place : Nat) (item : α) :
    Capped capacity α where
  items := list.items.set place item
  length_le := by simpa using list.length_le

def contains [BEq α] (list : Capped capacity α) (item : α) : Bool :=
  list.items.contains item

/-- How two lists compare: by the first place at which they differ, and else by
length. -/
def order [Ord α] (left right : Capped capacity α) : Ordering :=
  compareLists left.items right.items
where
  compareLists : List α → List α → Ordering
    | [], [] => .eq
    | [], _ :: _ => .lt
    | _ :: _, [] => .gt
    | left :: lefts, right :: rights =>
        (compare left right).then (compareLists lefts rights)

end Capped

end Croupier
