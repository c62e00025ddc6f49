import Schemii.Foundations.Dictionary

/-!
# The capacity for connections

`_ConnectionCapacity` and `_LeasedConnection` of `common/postgres/gateway.py`: counters of permits, in
all and by identity, of which those of long-lived sessions have a quota of their own, and connections
that give their permit back when they are closed.

Everything that the counters go through happens under one lock. A call of `acquire` looks at them
again each time it is woken, and between two looks others do as they like, so a look is the unit of a
run (`Event.acquire`); a whole call with what happens while it waits is `acquire`.
-/

set_option autoImplicit false

namespace Schemii.Common

open Foundations

/-- Which limit has been reached: its name, the limit, and the count. -/
structure Reached where
  name : String
  limit : ℤ
  observed : ℤ
  deriving DecidableEq, Repr

/-- `_ConnectionCapacity`. -/
structure ConnectionCapacity where
  maximumTotal : ℕ
  maximumPerIdentity : ℕ
  total : ℤ
  connected : ℤ
  byIdentity : Dictionary String ℤ
  retainedTotal : ℤ
  retainedByIdentity : Dictionary String ℤ

/-- The count of an identity. -/
def countAt (counts : Dictionary String ℤ) (identity : String) : ℤ :=
  (counts.get? identity).getD 0

namespace ConnectionCapacity

/-- `_ConnectionCapacity.__init__`. -/
def new (maximumTotal maximumPerIdentity : ℕ) : ConnectionCapacity :=
  ⟨maximumTotal, maximumPerIdentity, 0, 0, .empty, 0, .empty⟩

variable (capacity : ConnectionCapacity)

/-- What long-lived sessions of one identity may have. -/
def retainedPerIdentity : ℤ :=
  max 1 ((capacity.maximumPerIdentity : ℤ) - 1)

/-- What all long-lived sessions may have. -/
def retainedLimit : ℤ :=
  max 1 ((capacity.maximumTotal : ℤ) - 1)

/-- The limit that stands in the way of one more permit. -/
def reached (identity : String) (retained : Bool) : Option Reached :=
  let identityCount := countAt capacity.byIdentity identity
  let retainedIdentity := countAt capacity.retainedByIdentity identity
  if identityCount ≥ capacity.maximumPerIdentity then
    some ⟨"postgres.connections.maximum_per_identity", capacity.maximumPerIdentity, identityCount⟩
  else if capacity.total ≥ capacity.maximumTotal then
    some ⟨"postgres.connections.maximum_total", capacity.maximumTotal, capacity.total⟩
  else if retained ∧ retainedIdentity ≥ capacity.retainedPerIdentity then
    some ⟨"postgres.connections.maximum_per_identity", capacity.retainedPerIdentity,
      retainedIdentity⟩
  else if retained ∧ capacity.retainedTotal ≥ capacity.retainedLimit then
    some ⟨"postgres.connections.maximum_total", capacity.retainedLimit, capacity.retainedTotal⟩
  else
    none

/-- One more permit. -/
def reserve (identity : String) (retained : Bool) : ConnectionCapacity :=
  let reserved := { capacity with
    total := capacity.total + 1
    byIdentity := capacity.byIdentity.insert identity (countAt capacity.byIdentity identity + 1) }
  if retained then
    { reserved with
      retainedTotal := capacity.retainedTotal + 1
      retainedByIdentity := capacity.retainedByIdentity.insert identity
        (countAt capacity.retainedByIdentity identity + 1) }
  else reserved

/-- What happens while a call waits, and whether it is woken before its deadline. -/
structure Wait where
  others : ConnectionCapacity → ConnectionCapacity
  notified : Bool

/-- `_ConnectionCapacity.acquire`. The deadline passes at the latest when there are no more waits. -/
def acquire (identity : String) (retained : Bool) :
    List Wait → ConnectionCapacity → Option Reached × ConnectionCapacity
  | waits, capacity =>
    match capacity.reached identity retained, waits with
    | none, _ => (none, capacity.reserve identity retained)
    | some reached, [] => (some reached, capacity)
    | some reached, wait :: rest =>
      if wait.notified then acquire identity retained rest (wait.others capacity)
      else (some reached, wait.others capacity)

/-- `_ConnectionCapacity.connected`. -/
def markConnected : ConnectionCapacity :=
  { capacity with connected := capacity.connected + 1 }

/-- `_ConnectionCapacity.release`. -/
def release (identity : String) (retained connected : Bool) : ConnectionCapacity :=
  let count := countAt capacity.byIdentity identity
  if count ≤ 0 then capacity
  else
    let retainedCount := countAt capacity.retainedByIdentity identity
    { capacity with
      total := capacity.total - 1
      connected := if connected then capacity.connected - 1 else capacity.connected
      byIdentity := if count = 1 then capacity.byIdentity.erase identity
        else capacity.byIdentity.insert identity (count - 1)
      retainedTotal := if retained then capacity.retainedTotal - 1 else capacity.retainedTotal
      retainedByIdentity :=
        if retained then
          if retainedCount ≤ 1 then capacity.retainedByIdentity.erase identity
          else capacity.retainedByIdentity.insert identity (retainedCount - 1)
        else capacity.retainedByIdentity }

end ConnectionCapacity

/-- Where a lease stands: its connection is being opened, is open, or is being closed. -/
inductive LeasePhase
  | opening
  | opened
  | closing
  deriving DecidableEq, Repr

/-- A permit that has been given and not given back, with what `_LeasedConnection` knows of it. -/
structure Lease where
  identity : String
  retained : Bool
  phase : LeasePhase
  deriving DecidableEq, Repr

/-- The native connection of a lease is established. -/
def Lease.isConnected (lease : Lease) : Bool :=
  lease.phase ≠ .opening

/-- The counters and the outstanding leases. -/
structure LeasePool where
  capacity : ConnectionCapacity
  leases : List Lease

/-- What happens to a pool: a look of a call of `acquire`, the end of opening a connection, a call of
`_LeasedConnection.close`, and the end of closing the connection. -/
inductive LeaseEvent
  | acquire (identity : String) (retained : Bool)
  | connected (lease : Lease)
  | openFailed (lease : Lease)
  | close (lease : Lease)
  | released (lease : Lease)

/-- A pool of which nothing has been leased. -/
def LeasePool.new (maximumTotal maximumPerIdentity : ℕ) : LeasePool :=
  ⟨.new maximumTotal maximumPerIdentity, []⟩

/-- What an event does, if it can happen. Closing a lease that is being closed does nothing, and a
lease that has been released is no longer there to be closed. -/
def LeasePool.step (pool : LeasePool) : LeaseEvent → Option LeasePool
  | .acquire identity retained =>
    match pool.capacity.acquire identity retained [] with
    | (none, capacity) => some ⟨capacity, ⟨identity, retained, .opening⟩ :: pool.leases⟩
    | (some _, capacity) => some { pool with capacity }
  | .connected lease =>
    if lease ∈ pool.leases ∧ lease.phase = .opening then
      some ⟨pool.capacity.markConnected, { lease with phase := .opened } :: pool.leases.erase lease⟩
    else none
  | .openFailed lease =>
    if lease ∈ pool.leases ∧ lease.phase = .opening then
      some ⟨pool.capacity.release lease.identity lease.retained false, pool.leases.erase lease⟩
    else none
  | .close lease =>
    if lease ∈ pool.leases ∧ lease.phase ≠ .opening then
      some { pool with leases := { lease with phase := .closing } :: pool.leases.erase lease }
    else none
  | .released lease =>
    if lease ∈ pool.leases ∧ lease.phase = .closing then
      some ⟨pool.capacity.release lease.identity lease.retained true, pool.leases.erase lease⟩
    else none

/-- A run. -/
def LeasePool.run (pool : LeasePool) (events : List LeaseEvent) : Option LeasePool :=
  events.foldlM LeasePool.step pool

end Schemii.Common
