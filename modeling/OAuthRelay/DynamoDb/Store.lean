import Mathlib.Algebra.Group.Nat.Defs
import OAuthRelay.Async.Interleaving
import OAuthRelay.Contract

/-!
# The DynamoDB store

Every record is one item of a table. A write is one conditional put: the table judges the
condition against the item that it holds, and returns this item when the condition fails.
The SDK sends a request again whose answer was lost, so a put that was applied can come
back as a failed condition. The store then compares the item it was given with the value
it has just written.

The table deletes expired items some time or other (`Reclaim`), so an expired item may
still be there; reads and conditions compare its expiry with the clock of the caller.
-/

set_option autoImplicit false

namespace OAuthRelay.DynamoDb

open Interleaving
open Objects (Delivery RequestFailed deliver)
open Async (StoreError)
open Contract (Input)
open Kubernetes (Entry)

/-! ## Items -/

/-- Unix epoch seconds, in 64 bits. -/
abbrev Seconds := Fin (2 ^ 64)

/-- `saturating_add`. -/
def saturatingAdd (seconds : Seconds) (more : ℕ) : Seconds :=
  ⟨min (seconds + more) (2 ^ 64 - 1), by omega⟩

variable {Value : Type}

/-- `Item`: one stored record. -/
structure Item (Value : Type) where
  value : Value
  expiresAt : Seconds
  deriving DecidableEq

/-- `PutCondition`: when a put may overwrite the existing item. -/
inductive PutCondition (Value : Type) where
  /-- No live item exists. -/
  | absentOrExpired (now : Seconds)
  /-- A live item holds exactly this value. -/
  | liveWithValue (now : Seconds) (expected : Value)
  deriving DecidableEq

/-- `PutRequest`. -/
structure PutRequest (Value : Type) where
  key : String
  item : Item Value
  condition : PutCondition Value
  deriving DecidableEq

/-- `PutOutcome`: a failed condition comes with the item that the table held. -/
inductive PutOutcome (Value : Type) where
  | written
  | conditionFailed (existing : Option (Item Value))
  deriving DecidableEq

/-- What every key holds, live or expired. -/
abbrev Table (Value : Type) := String → Option (Item Value)

/-- The live item of a key, by a clock that shows `now`. -/
def Table.live (table : Table Value) (key : String) (now : Seconds) : Option (Item Value) :=
  (table key).filter fun item => decide (now < item.expiresAt)

/-- The table with one key set. -/
def Table.set (table : Table Value) (key : String) (item : Option (Item Value)) : Table Value :=
  fun other => if other = key then item else table other

@[simp] theorem Table.set_same (table : Table Value) (key : String)
    (item : Option (Item Value)) : table.set key item key = item := by
  simp [Table.set]

theorem Table.set_other (table : Table Value) {key other : String} (ne : other ≠ key)
    (item : Option (Item Value)) : table.set key item other = table other := by
  simp [Table.set, ne]

/-! ## Calls -/

/-- The two operations that write. -/
inductive Operation where
  | put
  | swap
  deriving DecidableEq

/-- What a call returns. -/
inductive Outcome (Value : Type) where
  | wrote (operation : Operation) (result : Except StoreError Bool)
  | got (result : Except StoreError (Option (Entry Value)))
  | deleted (result : Except StoreError Unit)
  deriving DecidableEq

/-- Where a call stands. -/
inductive Call (Value : Type) where
  | putStarting (key : String) (value : Value) (ttl : ℕ)
  | getStarting (key : String)
  | getting (key : String) (now : Seconds)
  | swapStarting (key : String) (expected new : Value) (ttl : ℕ)
  | writing (operation : Operation) (request : PutRequest Value) (now : Seconds)
  | deleting (key : String)
  | done (outcome : Outcome Value)
  deriving DecidableEq

/-- What becomes of a request, and what the clock of the replica shows. -/
structure Choice where
  delivery : Delivery
  reading : Seconds

/-- The table deletes the item of a key, when it has expired by the table's own clock. -/
structure Reclaim where
  key : String
  clock : Seconds

/-- `expiry`: the time to live rounded up, and a second for the clock's truncation. The sum of
the whole seconds wraps around. -/
def expiry (now : Seconds) (ttl : ℕ) : Seconds :=
  let whole := (ttl / 10 ^ 9 + if ttl % 10 ^ 9 > 0 then 1 else 0) % 2 ^ 64
  saturatingAdd (saturatingAdd now whole) 1

/-- The request of `put_if_absent`. -/
def putRequest (now : Seconds) (key : String) (value : Value) (ttl : ℕ) : PutRequest Value where
  key := key
  item := ⟨value, expiry now ttl⟩
  condition := .absentOrExpired now

/-- The request of `compare_and_swap`. -/
def swapRequest (now : Seconds) (key : String) (expected new : Value) (ttl : ℕ) :
    PutRequest Value where
  key := key
  item := ⟨new, expiry now ttl⟩
  condition := .liveWithValue now expected

/-- The state a call begins in: the checks of the trait's implementation. -/
def start (input : Input Value) : Call Value :=
  match input with
  | .putIfAbsent key value ttl =>
      if input.valid then .putStarting key value ttl else .done (.wrote .put (.error .invalid))
  | .get key => if input.valid then .getStarting key else .done (.got (.error .invalid))
  | .compareAndSwap key expected new ttl =>
      if input.valid then .swapStarting key expected new ttl
      else .done (.wrote .swap (.error .invalid))
  | .delete key => if input.valid then .deleting key else .done (.deleted (.error .invalid))

/-- `get`: an expired item counts as absent. What is left is in nanoseconds. -/
def got (now : Seconds) : Except RequestFailed (Option (Item Value)) → Call Value
  | .error _ => .done (.got (.error .backend))
  | .ok item =>
      .done (.got (.ok ((item.filter fun item => decide (item.expiresAt > now)).map
        fun item => ⟨item.value, (item.expiresAt - now : ℕ) * 10 ^ 9⟩)))

def deleted : Except RequestFailed Unit → Call Value
  | .error _ => .done (.deleted (.error .backend))
  | .ok _ => .done (.deleted (.ok ()))

/-- The environment reclaims what has expired. -/
def reclaim (table : Table Value) (reclaim : Reclaim) : Table Value :=
  if (table reclaim.key).any fun item => decide (item.expiresAt ≤ reclaim.clock) then
    table.set reclaim.key none
  else table

section Writing

variable [DecidableEq Value]

/-- Whether a condition holds of the item that the table has. -/
def PutCondition.holds (existing : Option (Item Value)) : PutCondition Value → Bool
  | .absentOrExpired now => existing.all fun item => decide (item.expiresAt ≤ now)
  | .liveWithValue now expected =>
      existing.any fun item => decide (item.expiresAt > now) && decide (item.value = expected)

/-- `put_item`: the table afterwards, and how the put ends. -/
def putItem (table : Table Value) (request : PutRequest Value) : Table Value × PutOutcome Value :=
  if request.condition.holds (table request.key) then
    (table.set request.key (some request.item), .written)
  else (table, .conditionFailed (table request.key))

/-- `applied`: whether a conditional write took effect. -/
def applied (outcome : PutOutcome Value) (written : Value) (now : Seconds) : Bool :=
  match outcome with
  | .written => true
  | .conditionFailed existing =>
      existing.any fun item => decide (item.value = written) && decide (item.expiresAt > now)

/-- After the conditional put. -/
def wrote (operation : Operation) (written : Value) (now : Seconds) :
    Except RequestFailed (PutOutcome Value) → Call Value
  | .error _ => .done (.wrote operation (.error .backend))
  | .ok outcome => .done (.wrote operation (.ok (applied outcome written now)))

/-- One step of a call: it reads its clock, or a request becomes of what the choice says. -/
def act (choice : Choice) (table : Table Value) : Call Value → Option (Table Value × Call Value)
  | .putStarting key value ttl =>
      some (table, .writing .put (putRequest choice.reading key value ttl) choice.reading)
  | .getStarting key => some (table, .getting key choice.reading)
  | .getting key now =>
      some (table, deliver choice.delivery (.getting key now) (got now) (table key))
  | .swapStarting key expected new ttl =>
      some (table,
        .writing .swap (swapRequest choice.reading key expected new ttl) choice.reading)
  | .writing operation request now =>
      let (changed, outcome) := putItem table request
      some (if choice.delivery.served then changed else table,
        deliver choice.delivery (.writing operation request now)
          (wrote operation request.item.value now) outcome)
  | .deleting key =>
      some (if choice.delivery.served then table.set key none else table,
        deliver choice.delivery (.deleting key) deleted ())
  | .done _ => none

/-- Any number of replicas over one table. -/
def program (Value : Type) [DecidableEq Value] :
    Program (Table Value) (Input Value) (Call Value) Choice Reclaim where
  start := start
  act := act
  drift change table := reclaim table change

end Writing

end OAuthRelay.DynamoDb
