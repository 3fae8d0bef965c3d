import OAuthRelay.Kubernetes.Store

/-!
# What a call of the store does

A call writes nothing but the value it was asked to write, under the name of its key, and
replaces only a version that it read (`Call.Fits`). `put_if_absent` keeps the record and
the clock reading it began with (`Call.Follows`), and writes only where no record is that
is live by this reading (`vacant_of_change`).

Where all written values are distinct, the value of a call is in a name only because this
call wrote it (`held_step`, `unwritten_at_start`).
-/

set_option autoImplicit false

namespace OAuthRelay.Kubernetes

open Objects Machine
open Async (StoreError)

variable {Value : Type} {objectName : String → String}

/-! ## What a name holds -/

/-- The value of the record that a name holds, live or not. -/
def held (σ : Server String (Contents Value)) (name : String) : Option Value :=
  (σ.objects name).bind fun object => object.body.record.map Prod.fst

/-- The value of the live record that a name holds, by a clock that shows `now`. -/
def live (σ : Server String (Contents Value)) (name : String) (now : ℕ) : Option Value :=
  ((σ.objects name).bind (decode name)).bind fun stored =>
    if stored.expiresAtMs > now then some stored.value else none

theorem held_eq_some {σ : Server String (Contents Value)} {name : String} {value : Value} :
    held σ name = some value ↔
      ∃ object expires, σ.objects name = some object ∧
        object.body.record = some (value, expires) := by
  simp [held, Option.bind_eq_some_iff]

theorem live_eq_none_of_expired {σ : Server String (Contents Value)} {name : String} {now : ℕ}
    {object : Object (Contents Value)} {stored : Stored Value}
    (found : σ.objects name = some object) (decoded : decode name object = some stored)
    (expired : stored.expiresAtMs ≤ now) : live σ name now = none := by
  simp [live, found, decoded, Nat.not_lt.mpr expired]

/-- What a name holds after a change was held before it, or is the value written. -/
theorem held_after {σ : Server String (Contents Value)}
    {change : Option (Change String (Contents Value))} {name : String} {value : Value}
    (holds : held (σ.apply change) name = some value) :
    held σ name = some value ∨
      ∃ body expires, change = some (name, some body) ∧ body.record = some (value, expires) := by
  obtain ⟨object, expires, found, record⟩ := held_eq_some.mp holds
  rcases Server.object_after found with before | ⟨written, _⟩
  · exact .inl (held_eq_some.mpr ⟨object, expires, before, record⟩)
  · exact .inr ⟨object.body, expires, written, record⟩

/-! ## What a call writes -/

/-- What a call does in its loop of `put_if_absent`. -/
def Call.put? : Call Value → Option (Put Value)
  | .creating put _ => some put
  | .reading put _ => some put
  | .replacing put _ _ => some put
  | _ => none

/-- The value that a call may write. -/
def Input.written : Input Value → Option Value
  | .putIfAbsent _ value _ => some value
  | .compareAndSwap _ _ new _ => some new
  | _ => none

/-- The object that a call may write. -/
def Input.target (objectName : String → String) : Input Value → Option String
  | .putIfAbsent key _ _ => some (objectName key)
  | .compareAndSwap key _ _ _ => some (objectName key)
  | _ => none

/-- A record is the one that `put_if_absent` was asked to write, at its clock reading. -/
def Put.For (objectName : String → String) (put : Put Value) (input : Input Value) : Prop :=
  ∃ key value ttl, input = .putIfAbsent key value ttl ∧
    put.record = ⟨objectName key, key, value, put.now + millis ttl⟩

/-- All written values are distinct, and no object held one of them at the beginning. -/
structure Distinct (server : Server String (Contents Value))
    (threads : List (Thread (Input Value) (Call Value))) : Prop where
  once : ∀ (i j : ℕ) (t u : Thread (Input Value) (Call Value)) value, threads[i]? = some t →
    threads[j]? = some u → t.input.written = some value → u.input.written = some value → i = j
  fresh : ∀ name value, held server name = some value →
    ∀ (i : ℕ) (t : Thread (Input Value) (Call Value)), threads[i]? = some t →
      t.input.written ≠ some value

/-! ## What a call knows -/

theorem putLoop_cases (put : Put Value) (round : ℕ) :
    (round < replaceRounds ∧ putLoop put round = .creating put round) ∨
      (replaceRounds ≤ round ∧ putLoop put round = .done (.put (.ok false))) := by
  unfold putLoop
  split
  · exact .inl ⟨‹_›, rfl⟩
  · exact .inr ⟨Nat.not_lt.mp ‹_›, rfl⟩

/-- A swap is the one that `compare_and_swap` was asked for, at its clock reading. -/
def Swap.For (objectName : String → String) (swap : Swap Value) (input : Input Value) : Prop :=
  ∃ key expected new ttl, input = .compareAndSwap key expected new ttl ∧
    swap.record = ⟨objectName key, key, new, swap.now + millis ttl⟩ ∧ swap.expected = expected

/-- A record that was read: the name holds it, or something later, or nothing. -/
def Read (σ : Server String (Contents Value)) (name : String) (stored : Stored Value) : Prop :=
  ∃ object, decode name object = some stored ∧ σ.Known name object

/-- A call writes what it was asked to write, and replaces only what it read. -/
def Call.Fits (objectName : String → String) (σ : Server String (Contents Value))
    (input : Input Value) : Call Value → Prop
  | .putStarting key value ttl => input = .putIfAbsent key value ttl
  | .creating put round => put.For objectName input ∧ round < replaceRounds
  | .reading put round => put.For objectName input ∧ round < replaceRounds
  | .replacing put round existing =>
      put.For objectName input ∧ round < replaceRounds ∧ existing.expiresAtMs ≤ put.now ∧
        Read σ put.record.name existing
  | .swapStarting key expected new ttl => input = .compareAndSwap key expected new ttl
  | .swapReading swap => swap.For objectName input
  | .swapping swap _ => swap.For objectName input
  | .swapChecking swap => swap.For objectName input
  | _ => True

/-- What a call is in the loop for. -/
theorem put_of_fits {σ : Server String (Contents Value)} {input : Input Value}
    {call : Call Value} {put : Put Value} (fits : call.Fits objectName σ input)
    (inside : call.put? = some put) : put.For objectName input := by
  cases call with
  | creating put' | reading put' | replacing put' =>
      obtain rfl := Option.some.inj inside
      exact fits.1
  | _ => cases inside

theorem put?_start (input : Input Value) : (start input).put? = none := by
  cases input with
  | sweep | sweepTick => rfl
  | _ =>
      simp only [start]
      split <;> rfl

namespace Call.Fits

variable {σ : Server String (Contents Value)} {input : Input Value}

theorem apply {call : Call Value} (fits : call.Fits objectName σ input)
    (change : Option (Change String (Contents Value))) :
    call.Fits objectName (σ.apply change) input := by
  cases call with
  | replacing put round existing =>
      obtain ⟨own, below, expired, object, decoded, known⟩ := fits
      exact ⟨own, below, expired, object, decoded, known.apply change⟩
  | _ => exact fits

theorem start : (Kubernetes.start input).Fits objectName σ input := by
  cases input with
  | sweep | sweepTick => trivial
  | _ =>
      simp only [Kubernetes.start]
      split
      · first | rfl | trivial
      · trivial

theorem putLoop {put : Put Value} (own : put.For objectName input) (round : ℕ) :
    (Kubernetes.putLoop put round).Fits objectName σ input := by
  rcases putLoop_cases put round with ⟨below, same⟩ | ⟨_, same⟩
  · rw [same]
    exact ⟨own, below⟩
  · rw [same]
    trivial

theorem passDone (pass : Pass) (report : SweepReport) :
    (Kubernetes.passDone pass report).Fits objectName σ input := by
  unfold Kubernetes.passDone
  split <;> trivial

theorem deletes (pass : Pass) (selector : Selector) (report : SweepReport) (token : Option String)
    (items : List (Stored Value)) :
    (Kubernetes.deletes pass selector report token items).Fits objectName σ input := by
  cases items with
  | nil =>
      simp only [Kubernetes.deletes, pageDone]
      split
      · trivial
      · exact passDone _ _
  | cons => trivial

end Call.Fits

/-! ## The loop of one call -/

/-- How `put_if_absent` goes on: `q` may come after `p`. -/
structure Call.Follows (objectName : String → String) (p q : Call Value) : Prop where
  begun : ∀ key value ttl, q ≠ .putStarting key value ttl
  put : ∀ put, q.put? = some put → p.put? = some put ∨
    ∃ key value ttl, p = .putStarting key value ttl ∧ put.record.name = objectName key ∧
      put.record.value = value
  told : ∀ stored, q = .done (.put (.ok stored)) → ∃ put, p.put? = some put

/-- A call with another business may come after any call. -/
theorem Call.Follows.outside {p q : Call Value}
    (begun : ∀ key value ttl, q ≠ .putStarting key value ttl) (out : q.put? = none)
    (untold : ∀ stored, q ≠ .done (.put (.ok stored))) : Call.Follows objectName p q :=
  ⟨begun, fun put inside => (by rw [out] at inside; cases inside),
    fun stored same => absurd same (untold stored)⟩

/-- What may come after a call in the loop. -/
theorem Call.Follows.inside {p q : Call Value} {put : Put Value} (own : p.put? = some put)
    (begun : ∀ key value ttl, q ≠ .putStarting key value ttl)
    (kept : ∀ put', q.put? = some put' → put' = put) : Call.Follows objectName p q :=
  ⟨begun, fun put' same => .inl (by rw [kept put' same]; exact own), fun _ _ => ⟨put, own⟩⟩

/-- A call in the loop may go on in another place of it. -/
theorem Call.Follows.again {p q : Call Value} {put : Put Value} (own : p.put? = some put)
    (begun : ∀ key value ttl, q ≠ .putStarting key value ttl)
    (kept : q.put? = some put) : Call.Follows objectName p q :=
  .inside own begun fun _ same => Option.some.inj (same.symm.trans kept)

theorem Call.Follows.putLoop {p : Call Value} {put : Put Value} (own : p.put? = some put)
    (round : ℕ) : Call.Follows objectName p (Kubernetes.putLoop put round) := by
  rcases putLoop_cases put round with ⟨_, same⟩ | ⟨_, same⟩
  · rw [same]
    exact .again own nofun rfl
  · rw [same]
    exact .inside own nofun nofun

/-! ## One request -/

/-- The same of a read, which fails as well when the object is not a record. -/
theorem of_read {P : Call Value → Prop} {name : String}
    {next : Except RequestFailed (Option (Stored Value)) → Call Value}
    {object : Option (Object (Contents Value))} (found : ∀ stored, P (next (.ok stored)))
    (failed : P (next (.error ⟨⟩))) : P (read name next (.ok object)) := by
  cases object with
  | none => exact found none
  | some object =>
      simp only [read]
      split
      · exact found _
      · exact failed

variable [DecidableEq Value]

/-- **What `put_if_absent` makes of the object it reads after a conflict.** -/
theorem existing_cases {σ : Server String (Contents Value)} {name : String} (put : Put Value)
    (round : ℕ) {call : Call Value}
    (h : read name (existing put round) (.ok (σ.objects name)) = call) :
    call = .done (.put (.error .backend)) ∨
    (call = .done (.put (.ok true)) ∧ held σ name = some put.record.value) ∨
    (call = putLoop put (round + 1) ∧ σ.objects name = none) ∨
    (call = .done (.put (.ok false)) ∧ held σ name ≠ some put.record.value) ∨
    ∃ object stored, call = .replacing put round stored ∧ σ.objects name = some object ∧
      decode name object = some stored ∧ stored.expiresAtMs ≤ put.now := by
  subst h
  cases found : σ.objects name with
  | none => exact .inr (.inr (.inl ⟨rfl, rfl⟩))
  | some object =>
      cases decoded : decode name object with
      | none => exact .inl (by simp [read, decoded, existing])
      | some stored =>
          simp only [read, decoded, existing]
          have holds : held σ name = some stored.value :=
            held_eq_some.mpr ⟨object, _, found, (decode_eq_some.mp decoded).1⟩
          by_cases own : isOurs (some stored) put.record.value put.now = true
          · rw [if_pos own]
            simp only [isOurs, Option.any_some, Bool.and_eq_true, decide_eq_true_eq] at own
            exact .inr (.inl ⟨rfl, by rw [holds, own.2]⟩)
          · rw [if_neg own]
            by_cases fresh : stored.expiresAtMs > put.now
            · rw [if_pos fresh]
              refine .inr (.inr (.inr (.inl ⟨rfl, fun same => own ?_⟩)))
              rw [holds, Option.some.injEq] at same
              simp [isOurs, fresh, same]
            · rw [if_neg fresh]
              exact .inr (.inr (.inr (.inr
                ⟨object, stored, rfl, rfl, decoded, Nat.not_lt.mp fresh⟩)))

/-- Where a call stands after a step out of its state. -/
theorem resume_eq (s : (machine Value objectName).State) (delivery : Delivery)
    (choice : Choice (Page Value)) (t : Thread (Input Value) (Call Value)) :
    (machine Value objectName).resume s delivery choice t =
      (await objectName t.call).next s.server (s.memories t.replica) delivery choice t.call := rfl

/-- **Every step of a call keeps what the call knows.** -/
theorem Call.Fits.next {s : (machine Value objectName).State} {delivery : Delivery}
    {choice : Choice (Page Value)} {t : Thread (Input Value) (Call Value)} {call : Call Value}
    (fits : t.call.Fits objectName s.server t.input)
    (resumed : (machine Value objectName).resume s delivery choice t = some call) :
    call.Fits objectName s.server t.input := by
  obtain ⟨replica, input, c⟩ := t
  rw [resume_eq] at resumed
  cases c with
  | putStarting key value ttl =>
      obtain rfl := Option.some.inj resumed
      simp only [putStarted, expiry]
      split
      · trivial
      · rename_i expires same
        split at same
        · cases same
          exact .putLoop ⟨key, value, ttl, fits, rfl⟩ 0
        · cases same
  | creating put round =>
      refine of_deliver (Option.some.inj resumed) fits ?_ trivial
      cases s.server.createOutcome put.record.name with
      | created => trivial
      | alreadyExists => exact fits
  | reading put round =>
      refine of_deliver (Option.some.inj resumed) fits ?_ trivial
      rcases existing_cases put round rfl with same | ⟨same, _⟩ | ⟨same, _⟩ | ⟨same, _⟩ |
        ⟨object, stored, same, found, decoded, expired⟩
      · rw [same]; trivial
      · rw [same]; trivial
      · rw [same]; exact .putLoop fits.1 _
      · rw [same]; trivial
      · rw [same]; exact ⟨fits.1, fits.2, expired, object, decoded, .of_held found⟩
  | replacing put round existing =>
      refine of_deliver (Option.some.inj resumed) fits ?_ trivial
      cases s.server.replaceOutcome put.record.name existing.resourceVersion with
      | replaced => trivial
      | conflict => exact .putLoop fits.1 _
      | notFound => exact .putLoop fits.1 _
  | getStarting key =>
      obtain rfl := Option.some.inj resumed
      trivial
  | getting key now =>
      refine of_deliver (Option.some.inj resumed) fits ?_ trivial
      exact of_read (fun _ => trivial) trivial
  | swapStarting key expected new ttl =>
      obtain rfl := Option.some.inj resumed
      simp only [swapStarted, expiry]
      split
      · trivial
      · rename_i expires same
        split at same
        · cases same
          exact ⟨key, expected, new, ttl, fits, rfl, rfl⟩
        · cases same
  | swapReading swap =>
      refine of_deliver (Option.some.inj resumed) fits (of_read (fun current => ?_) trivial) trivial
      simp only [swapRead]
      split
      · trivial
      · exact fits
  | swapping swap current =>
      refine of_deliver (Option.some.inj resumed) fits ?_ trivial
      cases s.server.replaceOutcome swap.record.name current.resourceVersion with
      | conflict => exact fits
      | replaced | notFound => trivial
  | swapChecking swap =>
      exact of_deliver (Option.some.inj resumed) fits (of_read (fun _ => trivial) trivial) trivial
  | deleting key =>
      exact of_deliver (Option.some.inj resumed) fits trivial trivial
  | fullStarting | tickStarting =>
      obtain rfl := Option.some.inj resumed
      trivial
  | tickRecalling now =>
      obtain rfl := Option.some.inj resumed
      simp only [tickRecalled]
      split
      · trivial
      · exact .passDone _ _
  | listing pass selector report token =>
      exact of_deliver (Option.some.inj resumed) fits trivial trivial
  | listed pass selector report page =>
      obtain rfl := Option.some.inj resumed
      exact .deletes _ _ _ _ _
  | sweeping pass selector report token object rest =>
      refine of_deliver (Option.some.inj resumed) fits ?_ trivial
      cases s.server.deleteOutcome object.name (some object.resourceVersion) with
      | deleted | conflict | notFound => exact .deletes _ _ _ _ _
  | settling pass report =>
      obtain rfl := Option.some.inj resumed
      trivial
  | done outcome => cases resumed

/-! ## What a call is about -/

/-- The operations of a store. -/
inductive Kind where
  | put
  | get
  | swap
  | delete
  | sweep
  deriving DecidableEq

def Input.kind : Input Value → Kind
  | .putIfAbsent .. => .put
  | .get _ => .get
  | .compareAndSwap .. => .swap
  | .delete _ => .delete
  | .sweep | .sweepTick => .sweep

def Outcome.kind : Outcome Value → Kind
  | .put _ => .put
  | .got _ => .get
  | .swapped _ => .swap
  | .deleted _ => .delete
  | .swept _ => .sweep

def Call.kind : Call Value → Kind
  | .putStarting .. | .creating .. | .reading .. | .replacing .. => .put
  | .getStarting _ | .getting .. => .get
  | .swapStarting .. | .swapReading _ | .swapping .. | .swapChecking _ => .swap
  | .deleting _ => .delete
  | .fullStarting | .tickStarting | .tickRecalling _ | .listing .. | .listed .. | .sweeping ..
  | .settling .. => .sweep
  | .done outcome => outcome.kind

omit [DecidableEq Value] in
theorem kind_start (input : Input Value) : (start input).kind = input.kind := by
  cases input with
  | sweep | sweepTick => rfl
  | _ =>
      simp only [start]
      split <;> rfl

omit [DecidableEq Value] in
theorem kind_putLoop (put : Put Value) (round : ℕ) : (putLoop put round).kind = .put := by
  unfold putLoop
  split <;> rfl

omit [DecidableEq Value] in
theorem kind_passDone (pass : Pass) (report : SweepReport) :
    (passDone pass report : Call Value).kind = .sweep := by
  unfold passDone
  split <;> rfl

omit [DecidableEq Value] in
theorem kind_deletes (pass : Pass) (selector : Selector) (report : SweepReport)
    (token : Option String) (items : List (Stored Value)) :
    (deletes pass selector report token items).kind = .sweep := by
  cases items with
  | nil =>
      simp only [deletes, pageDone]
      split
      · rfl
      · exact kind_passDone _ _
  | cons => rfl

/-- **A call goes on with the operation it began.** -/
theorem kind_of_resume {s : (machine Value objectName).State} {delivery : Delivery}
    {choice : Choice (Page Value)} {t : Thread (Input Value) (Call Value)} {call : Call Value}
    (resumed : (machine Value objectName).resume s delivery choice t = some call) :
    call.kind = t.call.kind := by
  obtain ⟨replica, input, c⟩ := t
  rw [resume_eq] at resumed
  cases c with
  | putStarting key value ttl =>
      obtain rfl := Option.some.inj resumed
      simp only [putStarted]
      split
      · rfl
      · exact kind_putLoop _ _
  | creating put round =>
      refine of_deliver (P := fun q => q.kind = .put) (Option.some.inj resumed) rfl ?_ rfl
      cases s.server.createOutcome put.record.name <;> rfl
  | reading put round =>
      refine of_deliver (P := fun q => q.kind = .put) (Option.some.inj resumed) rfl ?_ rfl
      rcases existing_cases put round rfl with same | ⟨same, _⟩ | ⟨same, _⟩ | ⟨same, _⟩ |
        ⟨_, _, same, _⟩
      · rw [same]; rfl
      · rw [same]; rfl
      · rw [same]; exact kind_putLoop _ _
      · rw [same]; rfl
      · rw [same]; rfl
  | replacing put round existing =>
      refine of_deliver (P := fun q => q.kind = .put) (Option.some.inj resumed) rfl ?_ rfl
      cases s.server.replaceOutcome put.record.name existing.resourceVersion with
      | replaced => rfl
      | conflict | notFound => exact kind_putLoop _ _
  | getStarting | fullStarting | tickStarting | settling =>
      obtain rfl := Option.some.inj resumed
      rfl
  | getting key now =>
      exact of_deliver (P := fun q => q.kind = .get) (Option.some.inj resumed) rfl
        (of_read (P := fun q => q.kind = .get) (fun _ => rfl) rfl) rfl
  | swapStarting key expected new ttl =>
      obtain rfl := Option.some.inj resumed
      simp only [swapStarted]
      split <;> rfl
  | swapReading swap =>
      refine of_deliver (P := fun q => q.kind = .swap) (Option.some.inj resumed) rfl
        (of_read (P := fun q => q.kind = .swap) (fun current => ?_) rfl) rfl
      simp only [swapRead]
      split <;> rfl
  | swapping swap current =>
      refine of_deliver (P := fun q => q.kind = .swap) (Option.some.inj resumed) rfl ?_ rfl
      cases s.server.replaceOutcome swap.record.name current.resourceVersion <;> rfl
  | swapChecking swap =>
      exact of_deliver (P := fun q => q.kind = .swap) (Option.some.inj resumed) rfl
        (of_read (P := fun q => q.kind = .swap) (fun _ => rfl) rfl) rfl
  | deleting key =>
      exact of_deliver (P := fun q => q.kind = .delete) (Option.some.inj resumed) rfl rfl rfl
  | listing pass selector report token =>
      exact of_deliver (P := fun q => q.kind = .sweep) (Option.some.inj resumed) rfl rfl rfl
  | tickRecalling now =>
      obtain rfl := Option.some.inj resumed
      simp only [tickRecalled]
      split
      · rfl
      · exact kind_passDone _ _
  | listed pass selector report page =>
      obtain rfl := Option.some.inj resumed
      exact kind_deletes _ _ _ _ _
  | sweeping pass selector report token object rest =>
      refine of_deliver (P := fun q => q.kind = .sweep) (Option.some.inj resumed) rfl ?_ rfl
      cases s.server.deleteOutcome object.name (some object.resourceVersion) with
      | deleted | conflict | notFound => exact kind_deletes _ _ _ _ _
  | done outcome => cases resumed

/-! ## What a call writes, and when -/

/-- **What is written is the value that the call was asked to write, in its place.** -/
theorem written_of_change {σ : Server String (Contents Value)} {input : Input Value}
    {call : Call Value} {delivery : Delivery} {name : String} {body : Contents Value}
    (fits : call.Fits objectName σ input)
    (made : (await objectName call).change σ delivery = some (name, some body)) :
    ∃ value expires, body.record = some (value, expires) ∧ input.written = some value ∧
      input.target objectName = some name := by
  cases call with
  | creating put round =>
      obtain ⟨⟨key, value, ttl, rfl, record⟩, _⟩ := fits
      simp only [await, Await.change] at made
      split at made
      · obtain ⟨_, same⟩ := Server.createChange_eq_some made
        cases same
        exact ⟨value, _, by rw [encode, record], rfl, by rw [record]; rfl⟩
      · cases made
  | replacing put round existing =>
      obtain ⟨⟨key, value, ttl, rfl, record⟩, _⟩ := fits
      simp only [await, Await.change] at made
      split at made
      · obtain ⟨_, same⟩ := Server.replaceChange_eq_some made
        cases same
        exact ⟨value, _, by rw [encode, record], rfl, by rw [record]; rfl⟩
      · cases made
  | swapping swap current =>
      obtain ⟨key, expected, new, ttl, rfl, record, _⟩ := fits
      simp only [await, Await.change] at made
      split at made
      · obtain ⟨_, same⟩ := Server.replaceChange_eq_some made
        cases same
        exact ⟨new, _, by rw [encode, record], rfl, by rw [record]; rfl⟩
      · cases made
  | deleting key =>
      simp only [await, Await.change] at made
      split at made
      · cases (Server.deleteChange_eq_some made).2
      · cases made
  | sweeping pass selector report token object rest =>
      simp only [await, Await.change] at made
      split at made
      · cases (Server.deleteChange_eq_some made).2
      · cases made
  | _ => cases made

/-- **`put_if_absent` writes its record, and only where no live record is.** -/
theorem vacant_of_change {σ : Server String (Contents Value)} {input : Input Value}
    {call : Call Value} {delivery : Delivery} {change : Change String (Contents Value)}
    {put : Put Value} (fits : call.Fits objectName σ input) (own : call.put? = some put)
    (made : (await objectName call).change σ delivery = some change) :
    change = (put.record.name, some (encode put.record)) ∧
      live σ put.record.name put.now = none := by
  cases call with
  | creating put' round =>
      obtain rfl := Option.some.inj own
      simp only [await, Await.change] at made
      split at made
      · obtain ⟨free, same⟩ := Server.createChange_eq_some made
        exact ⟨same, by rw [live, free]; rfl⟩
      · cases made
  | replacing put' round existing =>
      obtain rfl := Option.some.inj own
      obtain ⟨_, _, expired, object, decoded, known⟩ := fits
      simp only [await, Await.change] at made
      split at made
      · obtain ⟨⟨current, found, version⟩, same⟩ := Server.replaceChange_eq_some made
        obtain rfl := known.eq current found
          (version.trans (decode_eq_some.mp decoded).2.2)
        exact ⟨same, live_eq_none_of_expired found decoded expired⟩
      · cases made
  | reading => cases made
  | _ => cases own

omit [DecidableEq Value] in
/-- Whatever is not a `put_if_absent` may come after any call. -/
theorem Call.Follows.of_kind {p q : Call Value} (other : q.kind ≠ .put) :
    Call.Follows objectName p q := by
  refine .outside ?_ ?_ ?_
  · rintro key value ttl rfl
    exact other rfl
  · cases q with
    | creating | reading | replacing => exact absurd rfl other
    | _ => rfl
  · rintro stored rfl
    exact other rfl

/-- **The loop keeps the record and the clock reading it began with.** -/
theorem follows_of_resume {s : (machine Value objectName).State} {delivery : Delivery}
    {choice : Choice (Page Value)} {t : Thread (Input Value) (Call Value)} {call : Call Value}
    (resumed : (machine Value objectName).resume s delivery choice t = some call) :
    Call.Follows objectName t.call call := by
  have kind := kind_of_resume resumed
  obtain ⟨replica, input, c⟩ := t
  rw [resume_eq] at resumed
  cases c with
  | putStarting key value ttl =>
      obtain rfl := Option.some.inj resumed
      simp only [putStarted]
      split
      · exact .outside nofun rfl nofun
      · refine ⟨nofun, fun put same => ?_, nofun⟩
        cases same
        exact .inr ⟨key, value, ttl, rfl, rfl, rfl⟩
  | creating put round =>
      refine of_deliver (Option.some.inj resumed) (.again rfl nofun rfl) ?_
        (.inside rfl nofun nofun)
      cases s.server.createOutcome put.record.name with
      | created => exact .inside rfl nofun nofun
      | alreadyExists => exact .again rfl nofun rfl
  | reading put round =>
      refine of_deliver (Option.some.inj resumed) (.again rfl nofun rfl) ?_
        (.inside rfl nofun nofun)
      rcases existing_cases put round rfl with same | ⟨same, _⟩ | ⟨same, _⟩ | ⟨same, _⟩ |
        ⟨_, _, same, _⟩
      · rw [same]; exact .inside rfl nofun nofun
      · rw [same]; exact .inside rfl nofun nofun
      · rw [same]; exact .putLoop rfl _
      · rw [same]; exact .inside rfl nofun nofun
      · rw [same]; exact .again rfl nofun rfl
  | replacing put round existing =>
      refine of_deliver (Option.some.inj resumed) (.again rfl nofun rfl) ?_
        (.inside rfl nofun nofun)
      cases s.server.replaceOutcome put.record.name existing.resourceVersion with
      | replaced => exact .inside rfl nofun nofun
      | conflict | notFound => exact .putLoop rfl _
  | done outcome => cases resumed
  | _ => exact .of_kind fun same => Kind.noConfusion (kind.symm.trans same)

/-! ## Who wrote what -/

section Run

variable {ok : List (machine Value objectName).Event → (machine Value objectName).State →
    (machine Value objectName).Lbl → Prop}
  {server : Server String (Contents Value)} {events : List (machine Value objectName).Event}
  {s s' : (machine Value objectName).State} {label : (machine Value objectName).Lbl}

/-- Every call knows what it needs to, all the time. -/
theorem fits_of_run (run : (machine Value objectName).Runs ok server events s) {i : ℕ}
    {t : (machine Value objectName).Thr} (there : s.threads[i]? = some t) :
    t.call.Fits objectName s.server t.input := by
  refine run.thread_invariant
    (I := fun _ (s : (machine Value objectName).State) _ (t : (machine Value objectName).Thr) =>
      t.call.Fits objectName s.server t.input) ?_ ?_ ?_ there
  · intro _ s s' label _ t _ taken _ _ _ fits
    rw [step_server taken]
    exact fits.apply _
  · intro _ _ _ _ input _ _
    exact .start
  · intro _ s s' _ _ _ t call _ taken _ _ fits resumed
    rw [step_server taken]
    exact (fits.next resumed).apply _

/-- A call is about the operation it was begun with. -/
theorem kind_of_run (run : (machine Value objectName).Runs ok server events s) {i : ℕ}
    {t : (machine Value objectName).Thr} (there : s.threads[i]? = some t) :
    t.call.kind = t.input.kind := by
  refine run.thread_invariant
    (I := fun _ _ _ (t : (machine Value objectName).Thr) => t.call.kind = t.input.kind)
    ?_ ?_ ?_ there
  · intro _ _ _ _ _ _ _ _ _ _ _ same
    exact same
  · intro _ _ _ _ input _ _
    exact kind_start input
  · intro _ _ _ _ _ _ _ _ _ _ _ _ same resumed
    exact (kind_of_resume resumed).trans same

theorem Distinct.before (taken : (machine Value objectName).step s label = some s')
    (distinct : Distinct server s'.threads) : Distinct server s.threads where
  once i j t u value there there' own own' := by
    obtain ⟨t', after, same⟩ := thread_persists taken there
    obtain ⟨u', after', same'⟩ := thread_persists taken there'
    exact distinct.once i j t' u' value after after' (by rw [same]; exact own)
      (by rw [same']; exact own')
  fresh name value holds i t there := by
    obtain ⟨t', after, same⟩ := thread_persists taken there
    rw [← same]
    exact distinct.fresh name value holds i t' after

/-- An event that writes is a step of a call that was asked to write the value. -/
theorem asked_of_change {e : (machine Value objectName).Event} {name : String}
    {body : Contents Value} {i : ℕ} {t : (machine Value objectName).Thr}
    (fits : t.call.Fits objectName e.before.server t.input) (stepped : e.By i t)
    (made : e.change = some (name, some body)) :
    ∃ value expires, body.record = some (value, expires) ∧ t.input.written = some value ∧
      t.input.target objectName = some name := by
  obtain ⟨there, delivery, choice, label⟩ := stepped
  simp only [Event.change, label, there] at made
  exact written_of_change fits made

/-- **A value is in a name because its call wrote it there.** -/
theorem writer_of_held (run : (machine Value objectName).Runs ok server events s)
    (distinct : Distinct server s.threads) {i : ℕ} {t : (machine Value objectName).Thr}
    (there : s.threads[i]? = some t) {name : String} {value : Value}
    (own : t.input.written = some value) (holds : held s.server name = some value) :
    ∃ w ∈ events, ∃ u object, w.By i u ∧ s.server.objects name = some object ∧
      w.change = some (name, some object.body) := by
  obtain ⟨object, expires, found, record⟩ := held_eq_some.mp holds
  rcases run.writer found with first | ⟨w, member, j, u, stepped, change⟩
  · exact absurd own (distinct.fresh name value
      (held_eq_some.mpr ⟨object, expires, first, record⟩) i t there)
  · obtain ⟨_, before, _⟩ := run.of_mem member
    obtain ⟨value', _, record', asked, _⟩ :=
      asked_of_change (fits_of_run before stepped.1) stepped change
    rw [record, Option.some.injEq, Prod.mk.injEq] at record'
    obtain ⟨u', there', same⟩ := run.input_of_by member stepped
    obtain rfl := distinct.once j i u' t value there' there
      (by rw [same, asked, record'.1]) own
    exact ⟨w, member, u, object, stepped, found, change⟩

/-- The call that writes the value of a call is this call. -/
theorem by_of_change (run : (machine Value objectName).Runs ok server events s)
    (taken : (machine Value objectName).step s label = some s')
    (distinct : Distinct server s.threads) {i : ℕ} {t : (machine Value objectName).Thr}
    (there : s.threads[i]? = some t) {name : String} {body : Contents Value} {value : Value}
    {expires : ℕ} (own : t.input.written = some value)
    (change : Event.change (⟨s, label⟩ : (machine Value objectName).Event) =
      some (name, some body))
    (record : body.record = some (value, expires)) :
    ∃ delivery choice, label = .step i delivery choice := by
  rcases step_cases taken with ⟨_, rfl, _⟩ | ⟨_, _, rfl, _⟩ |
    ⟨j, delivery, choice, u, _, rfl, found, _, _⟩
  · cases change
  · cases change
  · obtain ⟨value', expires', record', asked, _⟩ :=
      asked_of_change (fits_of_run run found) ⟨found, delivery, choice, rfl⟩ change
    rw [record, Option.some.injEq, Prod.mk.injEq] at record'
    obtain rfl := distinct.once i j t u value there found own (by rw [asked, record'.1])
    exact ⟨delivery, choice, rfl⟩

/-- A step after which a name holds the value of a call is a step of this call, if the name
did not hold the value before. -/
theorem held_step (run : (machine Value objectName).Runs ok server events s)
    (taken : (machine Value objectName).step s label = some s')
    (distinct : Distinct server s.threads) {i : ℕ} {t : (machine Value objectName).Thr}
    (there : s.threads[i]? = some t) {name : String} {value : Value}
    (own : t.input.written = some value) (holds : held s'.server name = some value) :
    held s.server name = some value ∨
      ((∃ delivery choice, label = .step i delivery choice) ∧
        ∃ body, Event.change (⟨s, label⟩ : (machine Value objectName).Event) =
          some (name, some body)) := by
  rw [step_server taken] at holds
  rcases held_after holds with before | ⟨body, expires, change, record⟩
  · exact .inl before
  · exact .inr ⟨by_of_change run taken distinct there own change record, body, change⟩

/-- A call of `put_if_absent` begins before anybody wrote its value. -/
theorem unwritten_at_start (run : (machine Value objectName).Runs ok server events s)
    {replica : ℕ} {input : Input Value}
    (taken : (machine Value objectName).step s (.begin replica input) = some s')
    (distinct : Distinct server s'.threads) {name : String} {value : Value}
    (own : input.written = some value) : held s.server name ≠ some value := by
  intro holds
  have begun : s'.threads[s.threads.length]? =
      some ⟨replica, input, (machine Value objectName).start input⟩ := by
    rw [← Option.some.inj taken]
    simp
  obtain ⟨object, expires, found, record⟩ := held_eq_some.mp holds
  rcases run.writer found with first | ⟨e, older, j, u, stepped, change⟩
  · exact distinct.fresh name value (held_eq_some.mpr ⟨object, expires, first, record⟩) _ _ begun
      own
  · obtain ⟨earlier, before, _⟩ := run.of_mem older
    obtain ⟨value', _, record', asked, _⟩ :=
      asked_of_change (fits_of_run before stepped.1) stepped change
    rw [record, Option.some.injEq, Prod.mk.injEq] at record'
    obtain ⟨u', there, same⟩ := run.input_of_by older stepped
    obtain ⟨u'', after, same'⟩ := thread_persists taken there
    have inside : j < s.threads.length := (List.getElem?_eq_some_iff.mp there).1
    have equal := distinct.once j s.threads.length u'' _ value after begun
      (by rw [same', same, asked, record'.1]) own
    omega

theorem Distinct.earlier (run : (machine Value objectName).Runs ok server events s)
    (distinct : Distinct server s.threads) {e : (machine Value objectName).Event}
    (member : e ∈ events) : Distinct server e.before.threads := by
  induction run with
  | nil => cases member
  | cons _ _ taken ih =>
      rcases List.mem_cons.mp member with rfl | older
      · exact distinct.before taken
      · exact ih (distinct.before taken) older

end Run

end OAuthRelay.Kubernetes
