import Mathlib.Algebra.Group.Nat.Defs
import OAuthRelay.Async.Interleaving
import OAuthRelay.Contract

/-!
# The in-process store

A call of the store reads the clock, and then takes the lock of the records. Under the lock
it removes what has expired by its clock reading, when a sweep is due, and does its
operation. Two calls may take the lock in another order than they read the clock.

What the store is for is a map without sweeps (`Ideal`), in which a record is live from its
write until its time to live has passed.
-/

set_option autoImplicit false

namespace OAuthRelay.Memory

open Interleaving
open Contract (Input)
open Kubernetes (Entry)

variable {Value : Type}

/-! ## Records -/

/-- `MEMORY_SWEEP_INTERVAL`, in nanoseconds. -/
def memorySweepInterval : ℕ := 30 * 10 ^ 9

/-- `MemoryRecord`. Instants are nanoseconds. -/
structure MemoryRecord (Value : Type) where
  value : Value
  expires : ℕ
  deriving DecidableEq

/-- `MemoryState`: what every key holds, live or expired, and when the next sweep is due. -/
structure MemoryState (Value : Type) where
  records : String → Option (MemoryRecord Value)
  nextSweep : ℕ

/-- `with_clock`: a store that is made when the clock shows `now`. -/
def MemoryState.withClock (now : ℕ) : MemoryState Value where
  records _ := none
  nextSweep := now + memorySweepInterval

/-- What a call returns. -/
inductive Outcome (Value : Type) where
  | invalid
  | put (stored : Bool)
  | got (entry : Option (Entry Value))
  | swapped (replaced : Bool)
  | deleted
  deriving DecidableEq

namespace MemoryState

/-- The state with one key set. -/
def set (state : MemoryState Value) (key : String) (record : Option (MemoryRecord Value)) :
    MemoryState Value :=
  { state with records := fun other => if other = key then record else state.records other }

/-- `lock`, after the lock is taken: expired records are removed when a sweep is due. -/
def lock (state : MemoryState Value) (now : ℕ) : MemoryState Value :=
  if now ≥ state.nextSweep then
    { records := fun key => (state.records key).filter fun record => decide (record.expires > now)
      nextSweep := now + memorySweepInterval }
  else state

/-- `put_if_absent`, under the lock. -/
def putIfAbsent (state : MemoryState Value) (now : ℕ) (key : String) (value : Value) (ttl : ℕ) :
    MemoryState Value × Bool :=
  if (state.records key).any fun record => decide (record.expires > now) then (state, false)
  else (state.set key (some ⟨value, now + ttl⟩), true)

/-- `get`, under the lock. -/
def get (state : MemoryState Value) (now : ℕ) (key : String) : Option (Entry Value) :=
  ((state.records key).filter fun record => decide (record.expires > now)).map fun record =>
    ⟨record.value, record.expires - now⟩

/-- `compare_and_swap`, under the lock. -/
def compareAndSwap [DecidableEq Value] (state : MemoryState Value) (now : ℕ) (key : String)
    (expected new : Value) (ttl : ℕ) : MemoryState Value × Bool :=
  match state.records key with
  | some record =>
      if record.expires > now ∧ record.value = expected then
        (state.set key (some ⟨new, now + ttl⟩), true)
      else (state, false)
  | none => (state, false)

/-- `delete`, under the lock. -/
def delete (state : MemoryState Value) (key : String) : MemoryState Value := state.set key none

/-- The operation of a call, under the lock. -/
def serve [DecidableEq Value] (state : MemoryState Value) (now : ℕ) :
    Input Value → MemoryState Value × Outcome Value
  | .putIfAbsent key value ttl =>
      let (state, stored) := state.putIfAbsent now key value ttl
      (state, .put stored)
  | .get key => (state, .got (state.get now key))
  | .compareAndSwap key expected new ttl =>
      let (state, replaced) := state.compareAndSwap now key expected new ttl
      (state, .swapped replaced)
  | .delete key => (state.delete key, .deleted)

/-- The record of a key that is live by a clock reading. -/
def live (state : MemoryState Value) (key : String) (now : ℕ) : Option (MemoryRecord Value) :=
  (state.records key).filter fun record => decide (record.expires > now)

end MemoryState

/-! ## Calls -/

/-- Where a call stands. -/
inductive Call (Value : Type) where
  /-- It is about to read the clock. -/
  | starting (input : Input Value)
  /-- It waits for the lock. -/
  | locking (input : Input Value) (now : ℕ)
  | done (outcome : Outcome Value)
  deriving DecidableEq

/-- Calls of the store. The choice of a step is what the clock shows. -/
def program (Value : Type) [DecidableEq Value] :
    Program (MemoryState Value) (Input Value) (Call Value) ℕ Empty where
  start input := if input.valid then .starting input else .done .invalid
  act reading state
    | .starting input => some (state, .locking input reading)
    | .locking input now =>
        let (state, outcome) := (state.lock now).serve now input
        some (state, .done outcome)
    | .done _ => none
  drift impossible := nomatch impossible

/-! ## The ideal map -/

/-- A record, the instant it was written at, and its time to live. -/
structure Written (Value : Type) where
  value : Value
  since : ℕ
  ttl : ℕ
  deriving DecidableEq

/-- The instant from which a record is not live any more. -/
def Written.expires (record : Written Value) : ℕ := record.since + record.ttl

/-- The last record that was written under a key and not deleted. -/
abbrev Ideal (Value : Type) := String → Option (Written Value)

namespace Ideal

def empty : Ideal Value := fun _ => none

def set (map : Ideal Value) (key : String) (record : Option (Written Value)) : Ideal Value :=
  fun other => if other = key then record else map other

@[simp] theorem set_same (map : Ideal Value) (key : String) (record : Option (Written Value)) :
    map.set key record key = record := by
  simp [set]

theorem set_other (map : Ideal Value) {key other : String} (ne : other ≠ key)
    (record : Option (Written Value)) : map.set key record other = map other := by
  simp [set, ne]

/-- The live record of a key at an instant. -/
def live (map : Ideal Value) (key : String) (now : ℕ) : Option (Written Value) :=
  (map key).filter fun record => decide (now < record.expires)

variable [DecidableEq Value]

/-- The record that an operation writes under its key, if it writes one. -/
def writes (map : Ideal Value) (now : ℕ) : Input Value → Option (Written Value)
  | .putIfAbsent key value ttl =>
      if map.live key now = none then some ⟨value, now, ttl⟩ else none
  | .compareAndSwap key expected new ttl =>
      if (map.live key now).map Written.value = some expected then some ⟨new, now, ttl⟩ else none
  | _ => none

/-- An operation at an instant: the map afterwards, and the result. -/
def serve (map : Ideal Value) (now : ℕ) (input : Input Value) : Ideal Value × Outcome Value :=
  let written := map.writes now input
  let changed := if written.isSome then map.set input.key written else map
  match input with
  | .putIfAbsent .. => (changed, .put written.isSome)
  | .get key =>
      (map, .got ((map.live key now).map fun record => ⟨record.value, record.expires - now⟩))
  | .compareAndSwap .. => (changed, .swapped written.isSome)
  | .delete key => (map.set key none, .deleted)

end Ideal

end OAuthRelay.Memory
