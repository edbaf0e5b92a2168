/-
A pool of tables: tables that nobody uses wait for the next game.

Every table of a pool has a number. A handle is a table in use. Places hold
handles, and moving a handle from place to place never loses or doubles one.
-/

import Croupier.Table.Deal

namespace Croupier

/-- A table in use, with its number in the pool. -/
structure Handle where
  number : Nat
  table : Table
  deriving DecidableEq, Repr

/-- The idle tables, the one that became idle last first, and how many tables
were ever made. -/
structure Pool where
  idle : List Handle := []
  created : Nat := 0
  deriving DecidableEq, Repr

namespace Pool

/-- Hands out a table that is as good as new, an idle one if there is any. -/
def acquire (pool : Pool) : Handle × Pool :=
  match pool.idle with
  | handle :: rest =>
      ({ handle with table := handle.table.reset }, { pool with idle := rest })
  | [] => (⟨pool.created, {}⟩, { pool with created := pool.created + 1 })

/-- Takes a table back. -/
def release (pool : Pool) (handle : Handle) : Pool :=
  { pool with idle := handle :: pool.idle }

/-- Takes back what a place held. -/
def releaseAny (pool : Pool) (held : Option Handle) : Pool :=
  match held with
  | some handle => pool.release handle
  | none => pool

end Pool

/-- A pool and the places at which its handles are held. -/
structure PoolDesk where
  pool : Pool := {}
  places : List (Option Handle) := []
  deriving DecidableEq, Repr

namespace PoolDesk

/-- What a place holds. -/
def held (desk : PoolDesk) (place : Nat) : Option Handle :=
  (desk.places[place]?).join

/-- Hands out a table, at a place of its own. -/
def receive (desk : PoolDesk) : PoolDesk :=
  let (handle, pool) := desk.pool.acquire
  { pool, places := desk.places ++ [some handle] }

/-- Moves what a place holds to another one and gives back what that one held.
The place it comes from is empty afterwards. Nothing happens if a place is moved
onto itself or if there is no place to move to. -/
def assign (desk : PoolDesk) (source target : Nat) : PoolDesk :=
  if source = target ∨ desk.places.length ≤ target then
    desk
  else
    { pool := desk.pool.releaseAny (desk.held target)
      places := (desk.places.set target (desk.held source)).set source none }

/-- Moves what a place holds to a place of its own. -/
def handOn (desk : PoolDesk) (source : Nat) : PoolDesk :=
  { desk with places := desk.places ++ [none] }.assign source
    desk.places.length

/-- Gives back what a place holds. -/
def release (desk : PoolDesk) (place : Nat) : PoolDesk :=
  { pool := desk.pool.releaseAny (desk.held place)
    places := desk.places.set place none }

/-- Puts a new handle into a place. What the place held is given back once the
new handle is there. -/
def acquire (desk : PoolDesk) (place : Nat) : PoolDesk :=
  let received := desk.receive.assign desk.places.length place
  let settled := received.release desk.places.length
  { settled with places := settled.places.dropLast }

/-- Moves what a place holds to another place and empties the place it comes
from, so that a move onto itself gives the handle back. -/
def move (desk : PoolDesk) (source target : Nat) : PoolDesk :=
  (desk.assign source target).release source

/-- Plays on the table that a place holds. -/
def act (desk : PoolDesk) (place : Nat) (change : Table → Table) : PoolDesk :=
  { desk with
    places := desk.places.modify place fun held =>
      held.map fun handle => { handle with table := change handle.table } }

end PoolDesk

end Croupier
