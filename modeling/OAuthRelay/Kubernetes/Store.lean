import Mathlib.Algebra.Group.Nat.Defs
import OAuthRelay.Async.Machine
import OAuthRelay.Async.Objects

/-!
# The Kubernetes store

Every record is one object. Its name is computed from the store key, its value and its
expiry are fields of the object, and a label carries the hour of the expiry. The API
server keeps expired objects; the store's reads and writes compare the expiry with the
clock of the replica, and a sweeper deletes what expired long enough ago.

The four store operations and the two sweeps are one client program (`machine`): a call
stands at the request it waits for, and goes on as the source does after the answer. A
request that fails, or an operation that passes its deadline, ends the call with an
error, and the request may have been served all the same.
-/

set_option autoImplicit false

namespace OAuthRelay.Kubernetes

open Objects
open Async (StoreError)

/-! ## Constants -/

/-- `MAX_KEY_BYTES`. -/
def maxKeyBytes : ℕ := 1024

/-- `REPLACE_ROUNDS`: attempts that `put_if_absent` spends replacing an expired record before
it reports the key as taken. -/
def replaceRounds : ℕ := 3

/-- `SWEEP_GRACE`, in milliseconds. -/
def sweepGraceMs : ℕ := 30 * 1000

/-- `FULL_SWEEP_INTERVAL`, in milliseconds. -/
def fullSweepIntervalMs : ℕ := 24 * 3600 * 1000

/-- `HOURS_PER_LIST`. -/
def hoursPerList : ℕ := 20

/-- `EXPIRY_BUCKET_MS`. -/
def expiryBucketMs : ℕ := 3600000

/-- `max_expiry_millis`: the last whole second that a timestamp of the library can name. -/
def maxExpiryMillis : ℕ := 253402207200 * 1000

/-- `millis`: a duration, in nanoseconds, as milliseconds that fit 64 bits. -/
def millis (duration : ℕ) : ℕ := min (duration / 1000000) (2 ^ 64 - 1)

/-- `expiry_hour`: the expiry bucket of an instant. -/
def expiryHour (expiresAtMs : ℕ) : ℕ := expiresAtMs / expiryBucketMs

/-! ## Records -/

/-- `Stored`: a record as stored in the cluster. -/
structure Stored (Value : Type) where
  name : String
  resourceVersion : ℕ
  value : Value
  expiresAtMs : ℕ
  deriving DecidableEq

/-- `NewRecord`: a record to write. -/
structure NewRecord (Value : Type) where
  name : String
  key : String
  value : Value
  expiresAtMs : ℕ
  deriving DecidableEq

/-- What the store reads of an object: whether it carries the managed-by label, its
expiry label, and its value and expiry, if it decodes. -/
structure Contents (Value : Type) where
  managed : Bool
  expiresHour : Option ℕ
  record : Option (Value × ℕ)
  deriving DecidableEq

variable {Value : Type}

/-- `encode`: the object for a record. -/
def encode (record : NewRecord Value) : Contents Value where
  managed := true
  expiresHour := some (expiryHour record.expiresAtMs)
  record := some (record.value, record.expiresAtMs)

/-- `decode`; none when the object is not a record. -/
def decode (name : String) (object : Object (Contents Value)) : Option (Stored Value) :=
  object.body.record.map fun (value, expires) => ⟨name, object.version, value, expires⟩

theorem decode_eq_some {name : String} {object : Object (Contents Value)} {stored : Stored Value} :
    decode name object = some stored ↔
      object.body.record = some (stored.value, stored.expiresAtMs) ∧ stored.name = name ∧
        stored.resourceVersion = object.version := by
  obtain ⟨own, version, value, expires⟩ := stored
  simp only [decode, Option.map_eq_some_iff, Prod.exists, Stored.mk.injEq]
  constructor
  · rintro ⟨_, _, read, rfl, rfl, rfl, rfl⟩
    exact ⟨read, rfl, rfl⟩
  · rintro ⟨read, rfl, rfl⟩
    exact ⟨value, expires, read, rfl, rfl, rfl, rfl⟩

/-- The label selector of a list. -/
inductive Selector where
  /-- `MANAGED_SELECTOR`. -/
  | managed
  /-- `expiry_selector`. -/
  | expiry (hours : List ℕ)
  deriving DecidableEq

/-- Whether a selector lists an object. -/
def Selector.lists (body : Contents Value) : Selector → Bool
  | .managed => body.managed
  | .expiry hours => body.managed && body.expiresHour.any (· ∈ hours)

/-- `Page`: one page of a list. -/
structure Page (Value : Type) where
  items : List (Stored Value)
  undecodable : List String
  continueToken : Option String
  deriving DecidableEq

/-- A list request: the selector and the token of the page before. The page size does not
matter. -/
abbrev Query := Selector × Option String

/-- `SweepReport`. -/
structure SweepReport where
  listed : ℕ
  deleted : ℕ
  skipped : ℕ
  deriving DecidableEq

/-- `SweepState`: where the sweeper of a store stands. -/
structure SweepState where
  watermarkHour : ℕ
  lastFullMs : ℕ
  deriving DecidableEq

/-- `Entry`: a live record and the time it has left. -/
structure Entry (Value : Type) where
  value : Value
  expiresIn : ℕ
  deriving DecidableEq

/-! ## Calls -/

/-- What is asked of a store: the operations of the trait, a public `sweep`, or a tick of the
sweeper. Times to live are in nanoseconds. -/
inductive Input (Value : Type) where
  | putIfAbsent (key : String) (value : Value) (ttl : ℕ)
  | get (key : String)
  | compareAndSwap (key : String) (expected new : Value) (ttl : ℕ)
  | delete (key : String)
  | sweep
  | sweepTick
  deriving DecidableEq

/-- What a call returns. -/
inductive Outcome (Value : Type) where
  | put (result : Except StoreError Bool)
  | got (result : Except StoreError (Option (Entry Value)))
  | swapped (result : Except StoreError Bool)
  | deleted (result : Except StoreError Unit)
  | swept (result : Except RequestFailed SweepReport)
  deriving DecidableEq

/-- What `put_if_absent` knows before its loop. -/
structure Put (Value : Type) where
  record : NewRecord Value
  now : ℕ
  deriving DecidableEq

/-- What `compare_and_swap` knows before its first request. -/
structure Swap (Value : Type) where
  record : NewRecord Value
  expected : Value
  now : ℕ
  deriving DecidableEq

/-- What a sweep does when a selector is done. -/
inductive Pass where
  /-- `full_sweep`, with the instant it started. -/
  | full (started : ℕ)
  /-- `sweep_tick`, with the last hour of its window and the chunks still to list. -/
  | hours (last : ℕ) (chunks : List (List ℕ))
  deriving DecidableEq

/-- Where a call stands. -/
inductive Call (Value : Type) where
  | putStarting (key : String) (value : Value) (ttl : ℕ)
  | creating (put : Put Value) (round : ℕ)
  | reading (put : Put Value) (round : ℕ)
  | replacing (put : Put Value) (round : ℕ) (existing : Stored Value)
  | getStarting (key : String)
  | getting (key : String) (now : ℕ)
  | swapStarting (key : String) (expected new : Value) (ttl : ℕ)
  | swapReading (swap : Swap Value)
  | swapping (swap : Swap Value) (current : Stored Value)
  | swapChecking (swap : Swap Value)
  | deleting (key : String)
  | fullStarting
  | tickStarting
  | tickRecalling (now : ℕ)
  | listing (pass : Pass) (selector : Selector) (report : SweepReport) (token : Option String)
  | listed (pass : Pass) (selector : Selector) (report : SweepReport) (page : Page Value)
  | sweeping (pass : Pass) (selector : Selector) (report : SweepReport) (token : Option String)
      (object : Stored Value) (rest : List (Stored Value))
  | settling (pass : Pass) (report : SweepReport)
  | done (outcome : Outcome Value)
  deriving DecidableEq

/-- `validate_key` accepts the key. -/
def validKey (key : String) : Bool := !key.isEmpty && decide (key.utf8ByteSize ≤ maxKeyBytes)

/-- `validate_ttl` accepts the time to live. -/
def validTtl (ttl : ℕ) : Bool := decide (ttl ≠ 0)

/-- `expiry`: the expiry of a record written now. The largest expiry fits 64 bits, so a sum
that does not is too large as well. -/
def expiry (now ttl : ℕ) : Except StoreError ℕ :=
  if now + millis ttl ≤ maxExpiryMillis then .ok (now + millis ttl) else .error .invalid

section Operations

variable [DecidableEq Value]

/-- `is_ours`: the object is the live record that this call wrote. -/
def isOurs (object : Option (Stored Value)) (written : Value) (now : ℕ) : Bool :=
  object.any fun object => decide (object.expiresAtMs > now) && decide (object.value = written)

/-- `client.get`: an object that does not decode is an error. -/
def read (name : String) (next : Except RequestFailed (Option (Stored Value)) → Call Value) :
    Except RequestFailed (Option (Object (Contents Value))) → Call Value
  | .error failed => next (.error failed)
  | .ok none => next (.ok none)
  | .ok (some object) =>
      match decode name object with
      | some stored => next (.ok (some stored))
      | none => next (.error ⟨⟩)

/-! ### `put_if_absent` -/

/-- The head of the loop of `put_if_absent`. -/
def putLoop (put : Put Value) (round : ℕ) : Call Value :=
  if round < replaceRounds then .creating put round else .done (.put (.ok false))

/-- After the clock was read. -/
def putStarted (objectName : String → String) (key : String) (value : Value) (ttl now : ℕ) :
    Call Value :=
  match expiry now ttl with
  | .error error => .done (.put (.error error))
  | .ok expiresAtMs => putLoop ⟨⟨objectName key, key, value, expiresAtMs⟩, now⟩ 0

def created (put : Put Value) (round : ℕ) : Except RequestFailed CreateOutcome → Call Value
  | .error _ => .done (.put (.error .backend))
  | .ok .created => .done (.put (.ok true))
  | .ok .alreadyExists => .reading put round

def existing (put : Put Value) (round : ℕ) :
    Except RequestFailed (Option (Stored Value)) → Call Value
  | .error _ => .done (.put (.error .backend))
  | .ok existing =>
      if isOurs existing put.record.value put.now then .done (.put (.ok true))
      else
        match existing with
        -- deleted between the create and the read
        | none => putLoop put (round + 1)
        | some existing =>
            if existing.expiresAtMs > put.now then .done (.put (.ok false))
            else .replacing put round existing

def replaced (put : Put Value) (round : ℕ) : Except RequestFailed ReplaceOutcome → Call Value
  | .error _ => .done (.put (.error .backend))
  | .ok .replaced => .done (.put (.ok true))
  | .ok .conflict => putLoop put (round + 1)
  | .ok .notFound => putLoop put (round + 1)

/-! ### `get`, `compare_and_swap` and `delete` -/

/-- `get`: an expired record counts as absent. -/
def got (now : ℕ) : Except RequestFailed (Option (Stored Value)) → Call Value
  | .error _ => .done (.got (.error .backend))
  | .ok object =>
      .done (.got (.ok ((object.filter fun object => decide (object.expiresAtMs > now)).map
        fun object => ⟨object.value, object.expiresAtMs - now⟩)))

def swapStarted (objectName : String → String) (key : String) (expected new : Value)
    (ttl now : ℕ) : Call Value :=
  match expiry now ttl with
  | .error error => .done (.swapped (.error error))
  | .ok expiresAtMs => .swapReading ⟨⟨objectName key, key, new, expiresAtMs⟩, expected, now⟩

def swapRead (swap : Swap Value) : Except RequestFailed (Option (Stored Value)) → Call Value
  | .error _ => .done (.swapped (.error .backend))
  | .ok current =>
      match current.filter fun current =>
          decide (current.expiresAtMs > swap.now) && decide (current.value = swap.expected) with
      | none => .done (.swapped (.ok false))
      | some current => .swapping swap current

def swapped (swap : Swap Value) : Except RequestFailed ReplaceOutcome → Call Value
  | .error _ => .done (.swapped (.error .backend))
  | .ok .replaced => .done (.swapped (.ok true))
  | .ok .notFound => .done (.swapped (.ok false))
  | .ok .conflict => .swapChecking swap

def swapChecked (swap : Swap Value) : Except RequestFailed (Option (Stored Value)) → Call Value
  | .error _ => .done (.swapped (.error .backend))
  | .ok latest => .done (.swapped (.ok (isOurs latest swap.record.value swap.now)))

def deleted : Except RequestFailed DeleteOutcome → Call Value
  | .error _ => .done (.deleted (.error .backend))
  | .ok _ => .done (.deleted (.ok ()))

/-! ### Sweeps -/

/-- `settled_hour`: the latest hour whose records can be deleted at `now`. -/
def settledHour (now : ℕ) : ℕ := expiryHour (now - sweepGraceMs)

/-- The hours from one to another, both included. -/
def hourRange (first last : ℕ) : List ℕ := List.range' first (last + 1 - first)

/-- After a selector is done. The reports of the selectors of a tick are added up. -/
def passDone (pass : Pass) (report : SweepReport) : Call Value :=
  match pass with
  | .hours last (chunk :: chunks) => .listing (.hours last chunks) (.expiry chunk) report none
  | pass => .settling pass report

/-- `sweep_tick`, once it has read the clock and the state: a full pass when none has run yet
or the backstop is due, else the expiry hours from the watermark on. -/
def tickRecalled (now : ℕ) (state : Option SweepState) : Call Value :=
  match state.filter fun state => decide (now - state.lastFullMs < fullSweepIntervalMs) with
  | none => .fullStarting
  | some state =>
      let last := settledHour now
      passDone (.hours last ((hourRange state.watermarkHour last).toChunks hoursPerList)) ⟨0, 0, 0⟩

/-- The next page of a selector, or the next selector. -/
def pageDone (pass : Pass) (selector : Selector) (report : SweepReport) (token : Option String) :
    Call Value :=
  match token.filter fun token => !token.isEmpty with
  | some token => .listing pass selector report (some token)
  | none => passDone pass report

/-- The deletes of a page. -/
def deletes (pass : Pass) (selector : Selector) (report : SweepReport) (token : Option String) :
    List (Stored Value) → Call Value
  | [] => pageDone pass selector report token
  | object :: rest => .sweeping pass selector report token object rest

/-- After the clock was read: the objects of the page that expired more than the grace ago. -/
def pageListed (pass : Pass) (selector : Selector) (report : SweepReport) (page : Page Value)
    (now : ℕ) : Call Value :=
  deletes pass selector { report with listed := report.listed + page.items.length }
    page.continueToken
    (page.items.filter fun object => decide (object.expiresAtMs + sweepGraceMs ≤ now))

def objectSwept (pass : Pass) (selector : Selector) (report : SweepReport)
    (token : Option String) (rest : List (Stored Value)) :
    Except RequestFailed DeleteOutcome → Call Value
  | .error failed => .done (.swept (.error failed))
  | .ok .deleted =>
      deletes pass selector { report with deleted := report.deleted + 1 } token rest
  | .ok _ => deletes pass selector { report with skipped := report.skipped + 1 } token rest

/-- What a sweep that succeeded records. -/
def settle : Pass → Option SweepState → Option SweepState
  | .full started, _ => some ⟨settledHour started, started⟩
  | .hours last _, state =>
      state.map fun state => { state with watermarkHour := max state.watermarkHour last }

/-! ## The program -/

/-- The state a call begins in: the checks of the trait's implementation. -/
def start : Input Value → Call Value
  | .putIfAbsent key value ttl =>
      if validKey key && validTtl ttl then .putStarting key value ttl
      else .done (.put (.error .invalid))
  | .get key =>
      if validKey key then .getStarting key else .done (.got (.error .invalid))
  | .compareAndSwap key expected new ttl =>
      if validKey key && validTtl ttl then .swapStarting key expected new ttl
      else .done (.swapped (.error .invalid))
  | .delete key =>
      if validKey key then .deleting key else .done (.deleted (.error .invalid))
  | .sweep => .fullStarting
  | .sweepTick => .tickStarting

/-- What a call waits for, and how it goes on. -/
def await (objectName : String → String) : Call Value →
    Await String (Contents Value) Query (Page Value) (Option SweepState) (Call Value)
  | .putStarting key value ttl => .clock fun now => putStarted objectName key value ttl now
  | .creating put round => .create put.record.name (encode put.record) (created put round)
  | .reading put round => .get put.record.name (read put.record.name (existing put round))
  | .replacing put round existing =>
      .replace put.record.name (encode put.record) existing.resourceVersion (replaced put round)
  | .getStarting key => .clock fun now => .getting key now
  | .getting key now => .get (objectName key) (read (objectName key) (got now))
  | .swapStarting key expected new ttl =>
      .clock fun now => swapStarted objectName key expected new ttl now
  | .swapReading swap => .get swap.record.name (read swap.record.name (swapRead swap))
  | .swapping swap current =>
      .replace swap.record.name (encode swap.record) current.resourceVersion (swapped swap)
  | .swapChecking swap => .get swap.record.name (read swap.record.name (swapChecked swap))
  | .deleting key => .delete (objectName key) none deleted
  | .fullStarting => .clock fun now => .listing (.full now) .managed ⟨0, 0, 0⟩ none
  | .tickStarting => .clock fun now => .tickRecalling now
  | .tickRecalling now => .recall id (tickRecalled now)
  | .listing pass selector report token =>
      .list (selector, token) fun
        | .error failed => .done (.swept (.error failed))
        | .ok page => .listed pass selector report page
  | .listed pass selector report page => .clock (pageListed pass selector report page)
  | .sweeping pass selector report token object rest =>
      .delete object.name (some object.resourceVersion)
        (objectSwept pass selector report token rest)
  | .settling pass report => .recall (settle pass) fun _ => .done (.swept (.ok report))
  | .done _ => .finished

/-- Any number of replicas over one API server. `objectName` is the client's mapping of keys
to names. -/
def machine (Value : Type) [DecidableEq Value] (objectName : String → String) :
    Machine String (Contents Value) where
  Input := Input Value
  Call := Call Value
  Query := Query
  Page := Page Value
  Memory := Option SweepState
  memory := none
  start := start
  await := await objectName

end Operations

end OAuthRelay.Kubernetes
