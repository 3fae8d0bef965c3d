import Mathlib.Data.List.Basic
import Mathlib.Data.Nat.Notation

/-!
# Clients of a versioned object server

A server holds objects by name. Every write gets a version that no earlier write got,
and a write or a removal can name the version it is meant for; the server refuses it
when the object has another version by then. That is all the concurrency control its
clients have.

A client asks the server one thing at a time. What becomes of a request is a
`Delivery`: it is answered; it is served, its answer is lost, and the transport sends
it once more; or the caller sees an error, whether the request was served or not.
Between requests a client may read a clock of its own, or read and update what its
replica remembers in memory.

A run is the list of its events, newest first, from a server that holds anything. An
object that a server holds was there at the beginning or written by one event
(`Runs.writer`), and a version read once names the same object forever (`Known`).
-/

set_option autoImplicit false

namespace OAuthRelay.Objects

/-! ## Servers -/

/-- An object, with the version that the server gave it. -/
structure Object (Body : Type) where
  version : ℕ
  body : Body
  deriving DecidableEq

/-- What every name holds, and the last version given. -/
structure Server (Name Body : Type) where
  objects : Name → Option (Object Body)
  revision : ℕ
  numbered : ∀ name object, objects name = some object → object.version ≤ revision

/-- One name and the body it holds afterwards; without a body the object is removed. -/
abbrev Change (Name Body : Type) := Name × Option Body

/-- `POST`: the name was free, or not. -/
inductive CreateOutcome where
  | created
  | alreadyExists
  deriving DecidableEq

/-- `PUT` under a version. -/
inductive ReplaceOutcome where
  | replaced
  /-- The object has another version. -/
  | conflict
  | notFound
  deriving DecidableEq

/-- `DELETE`, under a version when one is given. -/
inductive DeleteOutcome where
  | deleted
  /-- The object has another version. -/
  | conflict
  | notFound
  deriving DecidableEq

namespace Server

variable {Name Body : Type}

/-- The change a `POST` makes. -/
def createChange (σ : Server Name Body) (name : Name) (body : Body) :
    Option (Change Name Body) :=
  if (σ.objects name).isNone then some (name, some body) else none

def createOutcome (σ : Server Name Body) (name : Name) : CreateOutcome :=
  if (σ.objects name).isNone then .created else .alreadyExists

/-- How a `PUT` under a version ends. -/
def replaceOutcome (σ : Server Name Body) (name : Name) (version : ℕ) : ReplaceOutcome :=
  match σ.objects name with
  | none => .notFound
  | some object => if object.version = version then .replaced else .conflict

def replaceChange (σ : Server Name Body) (name : Name) (body : Body) (version : ℕ) :
    Option (Change Name Body) :=
  if σ.replaceOutcome name version = .replaced then some (name, some body) else none

/-- How a `DELETE` ends. -/
def deleteOutcome (σ : Server Name Body) (name : Name) (version : Option ℕ) : DeleteOutcome :=
  match σ.objects name with
  | none => .notFound
  | some object => if version.all (· = object.version) then .deleted else .conflict

def deleteChange (σ : Server Name Body) (name : Name) (version : Option ℕ) :
    Option (Change Name Body) :=
  if σ.deleteOutcome name version = .deleted then some (name, none) else none

theorem createOutcome_eq_created {σ : Server Name Body} {name : Name} :
    σ.createOutcome name = .created ↔ σ.objects name = none := by
  unfold createOutcome
  cases σ.objects name <;> simp

theorem createChange_eq_some {σ : Server Name Body} {name : Name} {body : Body}
    {change : Change Name Body} (made : σ.createChange name body = some change) :
    σ.objects name = none ∧ change = (name, some body) := by
  unfold createChange at made
  split at made
  · rename_i free
    exact ⟨Option.isNone_iff_eq_none.mp free, (Option.some.inj made).symm⟩
  · cases made

theorem replaceOutcome_eq_replaced {σ : Server Name Body} {name : Name} {version : ℕ} :
    σ.replaceOutcome name version = .replaced ↔
      ∃ object, σ.objects name = some object ∧ object.version = version := by
  unfold replaceOutcome
  cases σ.objects name with
  | none => simp
  | some object => simp

theorem replaceOutcome_eq_notFound {σ : Server Name Body} {name : Name} {version : ℕ} :
    σ.replaceOutcome name version = .notFound ↔ σ.objects name = none := by
  unfold replaceOutcome
  cases σ.objects name with
  | none => simp
  | some object =>
      simp only [reduceCtorEq, iff_false]
      split <;> nofun

theorem replaceChange_eq_some {σ : Server Name Body} {name : Name} {body : Body} {version : ℕ}
    {change : Change Name Body} (made : σ.replaceChange name body version = some change) :
    (∃ object, σ.objects name = some object ∧ object.version = version) ∧
      change = (name, some body) := by
  unfold replaceChange at made
  split at made
  · rename_i replaced
    exact ⟨replaceOutcome_eq_replaced.mp replaced, (Option.some.inj made).symm⟩
  · cases made

theorem deleteOutcome_eq_deleted {σ : Server Name Body} {name : Name} {version : Option ℕ} :
    σ.deleteOutcome name version = .deleted ↔
      ∃ object, σ.objects name = some object ∧ version.all (· = object.version) = true := by
  unfold deleteOutcome
  cases σ.objects name with
  | none => simp
  | some object => simp

theorem deleteChange_eq_some {σ : Server Name Body} {name : Name} {version : Option ℕ}
    {change : Change Name Body} (made : σ.deleteChange name version = some change) :
    (∃ object, σ.objects name = some object ∧ version.all (· = object.version) = true) ∧
      change = (name, none) := by
  unfold deleteChange at made
  split at made
  · rename_i deleted
    exact ⟨deleteOutcome_eq_deleted.mp deleted, (Option.some.inj made).symm⟩
  · cases made

/-- The name holds the object, or something of a later version, or nothing. -/
structure Known (σ : Server Name Body) (name : Name) (object : Object Body) : Prop where
  version_le : object.version ≤ σ.revision
  eq : ∀ other, σ.objects name = some other → other.version = object.version → other = object

theorem Known.of_held {σ : Server Name Body} {name : Name} {object : Object Body}
    (held : σ.objects name = some object) : σ.Known name object where
  version_le := σ.numbered name object held
  eq _ found _ := Option.some.inj (found.symm.trans held)

variable [DecidableEq Name]

/-- The server after a change, if there is one. What is written gets the next version. -/
def apply (σ : Server Name Body) : Option (Change Name Body) → Server Name Body
  | none => σ
  | some (name, body) =>
      { objects := fun other =>
          if other = name then body.map (⟨σ.revision + 1, ·⟩) else σ.objects other
        revision := σ.revision + 1
        numbered := by
          intro _ object held
          split at held
          · obtain ⟨_, _, rfl⟩ := Option.map_eq_some_iff.mp held
            exact Nat.le_refl _
          · exact Nat.le_succ_of_le (σ.numbered _ object held) }

/-- What an object holds after a change was there before it, or was just written. -/
theorem object_after {σ : Server Name Body} {change : Option (Change Name Body)} {name : Name}
    {object : Object Body} (held : (σ.apply change).objects name = some object) :
    σ.objects name = some object ∨
      (change = some (name, some object.body) ∧ object.version = σ.revision + 1) := by
  cases change with
  | none => exact .inl held
  | some c =>
      obtain ⟨other, body⟩ := c
      simp only [apply] at held
      split at held
      · rename_i same
        obtain ⟨written, rfl, rfl⟩ := Option.map_eq_some_iff.mp held
        exact .inr ⟨by rw [same], rfl⟩
      · exact .inl held

/-- **A version names one object: no change gives a name an old version again.** -/
theorem Known.apply {σ : Server Name Body} {name : Name} {object : Object Body}
    (known : σ.Known name object) (change : Option (Change Name Body)) :
    (σ.apply change).Known name object := by
  constructor
  · cases change with
    | none => exact known.version_le
    | some => exact Nat.le_succ_of_le known.version_le
  · intro other held same
    rcases object_after held with before | ⟨_, later⟩
    · exact known.eq other before same
    · have le := known.version_le
      omega

/-- The name holds no object of the version, and never will. -/
structure Gone (σ : Server Name Body) (name : Name) (version : ℕ) : Prop where
  version_le : version ≤ σ.revision
  absent : ∀ object, σ.objects name = some object → object.version ≠ version

theorem Gone.apply {σ : Server Name Body} {name : Name} {version : ℕ} (gone : σ.Gone name version)
    (change : Option (Change Name Body)) : (σ.apply change).Gone name version := by
  constructor
  · cases change with
    | none => exact gone.version_le
    | some => exact Nat.le_succ_of_le gone.version_le
  · intro object held
    rcases object_after held with before | ⟨_, later⟩
    · exact gone.absent object before
    · have le := gone.version_le
      omega

/-- **A change of a name leaves no old version behind.** -/
theorem gone_of_change {σ : Server Name Body} {name : Name} {body : Option Body} {version : ℕ}
    (le : version ≤ σ.revision) : (σ.apply (some (name, body))).Gone name version := by
  constructor
  · exact Nat.le_succ_of_le le
  · intro object held
    simp only [apply, if_true] at held
    obtain ⟨_, _, rfl⟩ := Option.map_eq_some_iff.mp held
    show σ.revision + 1 ≠ version
    omega

end Server

/-! ## Clients -/

/-- What becomes of one request. -/
inductive Delivery where
  | answered
  /-- The request was served; its answer is lost and the transport sends it again. -/
  | answerLost
  /-- The caller sees an error; the request may have been served. -/
  | failed (served : Bool)
  deriving DecidableEq

/-- Whether the server sees the request. -/
def Delivery.served : Delivery → Bool
  | .failed served => served
  | _ => true

/-- The caller sees an error. -/
structure RequestFailed where
  deriving DecidableEq

/-- What a client waits for, and how it goes on with every answer. A list is answered by
a page that the environment chooses. -/
inductive Await (Name Body Query Page Memory Call : Type) where
  | get (name : Name) (next : Except RequestFailed (Option (Object Body)) → Call)
  | create (name : Name) (body : Body) (next : Except RequestFailed CreateOutcome → Call)
  | replace (name : Name) (body : Body) (version : ℕ)
      (next : Except RequestFailed ReplaceOutcome → Call)
  | delete (name : Name) (version : Option ℕ) (next : Except RequestFailed DeleteOutcome → Call)
  | list (query : Query) (next : Except RequestFailed Page → Call)
  | clock (next : ℕ → Call)
  | recall (update : Memory → Memory) (next : Memory → Call)
  | finished

/-- What the environment is free in: the page of a list, and what a clock shows. -/
structure Choice (Page : Type) where
  page : Page
  reading : ℕ

/-- How a call goes on that waited for an answer. -/
def deliver {Answer Call : Type} (delivery : Delivery) (waiting : Call)
    (next : Except RequestFailed Answer → Call) (answer : Answer) : Call :=
  match delivery with
  | .answered => next (.ok answer)
  | .answerLost => waiting
  | .failed _ => next (.error ⟨⟩)

/-- A call that waits for an answer goes on waiting, gets the answer, or an error. -/
theorem deliver_cases {Answer C : Type} {delivery : Delivery} {waiting call : C}
    {next : Except RequestFailed Answer → C} {answer : Answer}
    (h : deliver delivery waiting next answer = call) :
    (delivery = .answerLost ∧ call = waiting) ∨
    (delivery = .answered ∧ call = next (.ok answer)) ∨
      ((∃ served, delivery = .failed served) ∧ call = next (.error ⟨⟩)) := by
  subst h
  cases delivery with
  | answered => exact .inr (.inl ⟨rfl, rfl⟩)
  | answerLost => exact .inl ⟨rfl, rfl⟩
  | failed served => exact .inr (.inr ⟨⟨served, rfl⟩, rfl⟩)

/-- What a call that waits for an answer keeps, when every answer and the error keep it. -/
theorem of_deliver {Answer C : Type} {P : C → Prop} {delivery : Delivery} {waiting call : C}
    {next : Except RequestFailed Answer → C} {answer : Answer}
    (h : deliver delivery waiting next answer = call) (waits : P waiting)
    (answered : P (next (.ok answer))) (failed : P (next (.error ⟨⟩))) : P call := by
  subst h
  cases delivery with
  | answered => exact answered
  | answerLost => exact waits
  | failed => exact failed

namespace Await

variable {Name Body Query Page Memory Call : Type}

/-- The change that a step out of this await makes on the server. -/
def change (σ : Server Name Body) (delivery : Delivery) :
    Await Name Body Query Page Memory Call → Option (Change Name Body)
  | .create name body _ => if delivery.served then σ.createChange name body else none
  | .replace name body version _ =>
      if delivery.served then σ.replaceChange name body version else none
  | .delete name version _ => if delivery.served then σ.deleteChange name version else none
  | _ => none

/-- How a call that is `waiting` here goes on. A finished call takes no step. -/
def next (σ : Server Name Body) (memory : Memory) (delivery : Delivery) (choice : Choice Page)
    (waiting : Call) : Await Name Body Query Page Memory Call → Option Call
  | .get name next => some (deliver delivery waiting next (σ.objects name))
  | .create name _ next => some (deliver delivery waiting next (σ.createOutcome name))
  | .replace name _ version next =>
      some (deliver delivery waiting next (σ.replaceOutcome name version))
  | .delete name version next =>
      some (deliver delivery waiting next (σ.deleteOutcome name version))
  | .list _ next => some (deliver delivery waiting next choice.page)
  | .clock next => some (next choice.reading)
  | .recall _ next => some (next memory)
  | .finished => none

/-- What the replica remembers after a step out of this await. -/
def remember (memory : Memory) : Await Name Body Query Page Memory Call → Memory
  | .recall update _ => update memory
  | _ => memory

end Await

/-- A call: the replica it runs on, what it was asked, and its state. -/
structure Thread (Input Call : Type) where
  replica : ℕ
  input : Input
  call : Call
  deriving DecidableEq

/-- A server, the time, what every replica remembers, and the calls begun so far. -/
structure System (Name Body Memory Input Call : Type) where
  server : Server Name Body
  now : ℕ
  memories : ℕ → Memory
  threads : List (Thread Input Call)

/-- One step of a system. -/
inductive Label (Input Page : Type) where
  | tick (duration : ℕ)
  | begin (replica : ℕ) (input : Input)
  | step (index : ℕ) (delivery : Delivery) (choice : Choice Page)

/-- A client program. -/
structure Machine (Name Body : Type) where
  Input : Type
  Call : Type
  Query : Type
  Page : Type
  Memory : Type
  memory : Memory
  start : Input → Call
  await : Call → Await Name Body Query Page Memory Call

namespace Machine

variable {Name Body : Type} (M : Machine Name Body)

abbrev State := System Name Body M.Memory M.Input M.Call
abbrev Lbl := Label M.Input M.Page
abbrev Thr := Thread M.Input M.Call

/-- A step of a run: the system it starts from and its label. -/
structure Event where
  before : M.State
  label : M.Lbl

/-- The system before the first step. -/
def initial (server : Server Name Body) : M.State := ⟨server, 0, fun _ => M.memory, []⟩

/-- Where a call stands after a step of its own. -/
def resume (s : M.State) (delivery : Delivery) (choice : Choice M.Page) (t : M.Thr) :
    Option M.Call :=
  (M.await t.call).next s.server (s.memories t.replica) delivery choice t.call

variable [DecidableEq Name]

/-- One step; `none` when the label names no call or a finished one. -/
def step (s : M.State) : M.Lbl → Option M.State
  | .tick duration => some { s with now := s.now + duration }
  | .begin replica input =>
      some { s with threads := s.threads ++ [⟨replica, input, M.start input⟩] }
  | .step index delivery choice =>
      match s.threads[index]? with
      | none => none
      | some t =>
          (M.resume s delivery choice t).map fun call =>
            { s with
              server := s.server.apply ((M.await t.call).change s.server delivery)
              memories := fun replica =>
                if replica = t.replica then (M.await t.call).remember (s.memories replica)
                else s.memories replica
              threads := s.threads.set index { t with call } }

/-- Runs from a server, whose steps are all `ok`. -/
inductive Runs (ok : List M.Event → M.State → M.Lbl → Prop) (server : Server Name Body) :
    List M.Event → M.State → Prop where
  | nil : Runs ok server [] (M.initial server)
  | cons {events : List M.Event} {s s' : M.State} {label : M.Lbl}
      (run : Runs ok server events s) (permitted : ok events s label)
      (step : M.step s label = some s') : Runs ok server (⟨s, label⟩ :: events) s'

/-- Every step is permitted. -/
abbrev anyStep : List M.Event → M.State → M.Lbl → Prop := fun _ _ _ => True

/-- Executes labels in order, as long as every step is possible. -/
def replay : List M.Lbl → List M.Event → M.State → Option (List M.Event × M.State)
  | [], events, s => some (events, s)
  | label :: labels, events, s =>
      match M.step s label with
      | some s' => replay labels (⟨s, label⟩ :: events) s'
      | none => none

variable {M}

/-- The step `e` is taken by the call `index`, which is in state `t` before it. -/
def Event.By (e : M.Event) (index : ℕ) (t : M.Thr) : Prop :=
  e.before.threads[index]? = some t ∧
    ∃ delivery choice, e.label = .step index delivery choice

omit [DecidableEq Name] in
/-- A step belongs to one call. -/
theorem Event.By.index_eq {e : M.Event} {i j : ℕ} {t t' : M.Thr} (by₁ : e.By i t)
    (by₂ : e.By j t') : i = j := by
  obtain ⟨_, _, _, label⟩ := by₁
  obtain ⟨_, _, _, label'⟩ := by₂
  rw [label] at label'
  injection label'

omit [DecidableEq Name] in
theorem Event.By.unique {e : M.Event} {i : ℕ} {t t' : M.Thr} (by₁ : e.By i t) (by₂ : e.By i t') :
    t = t' :=
  Option.some.inj (by₁.1.symm.trans by₂.1)

/-- The change an event makes on the server. -/
def Event.change (e : M.Event) : Option (Change Name Body) :=
  match e.label with
  | .step index delivery _ =>
      match e.before.threads[index]? with
      | some t => (M.await t.call).change e.before.server delivery
      | none => none
  | _ => none

omit [DecidableEq Name] in
theorem Event.change_eq {e : M.Event} {i : ℕ} {delivery : Delivery} {choice : Choice M.Page}
    {t : M.Thr} (label : e.label = .step i delivery choice)
    (there : e.before.threads[i]? = some t) :
    e.change = (M.await t.call).change e.before.server delivery := by
  simp only [Event.change, label, there]

/-- What the replicas remember after an event. -/
def Event.memories (e : M.Event) (replica : ℕ) : M.Memory :=
  match e.label with
  | .step index _ _ =>
      match e.before.threads[index]? with
      | some t =>
          if replica = t.replica then (M.await t.call).remember (e.before.memories replica)
          else e.before.memories replica
      | none => e.before.memories replica
  | _ => e.before.memories replica

/-- Where the call `i` stands after the event, when the event is its step. -/
def Event.resumed (e : M.Event) (i : ℕ) : Option M.Call :=
  match e.label with
  | .step index delivery choice =>
      if index = i then (e.before.threads[i]?).bind (M.resume e.before delivery choice) else none
  | _ => none

omit [DecidableEq Name] in
theorem Event.resumed_eq_some {e : M.Event} {i : ℕ} {call : M.Call} :
    e.resumed i = some call ↔ ∃ t delivery choice, e.before.threads[i]? = some t ∧
      e.label = .step i delivery choice ∧ M.resume e.before delivery choice t = some call := by
  unfold Event.resumed
  constructor
  · intro h
    split at h
    · rename_i index delivery choice label
      split at h
      · rename_i same
        obtain ⟨t, there, resumed⟩ := Option.bind_eq_some_iff.mp h
        exact ⟨t, delivery, choice, there, by rw [label, same], resumed⟩
      · cases h
    · cases h
  · rintro ⟨t, delivery, choice, there, label, resumed⟩
    simp [label, there, resumed]

/-! ## What one step does -/

/-- **Every step lets time pass, begins a call, or takes one call further.** -/
theorem step_cases {s s' : M.State} {label : M.Lbl} (h : M.step s label = some s') :
    (∃ duration, label = .tick duration ∧ s' = { s with now := s.now + duration }) ∨
    (∃ replica input, label = .begin replica input ∧
      s' = { s with threads := s.threads ++ [⟨replica, input, M.start input⟩] }) ∨
    (∃ index delivery choice t call, label = .step index delivery choice ∧
      s.threads[index]? = some t ∧ M.resume s delivery choice t = some call ∧
      s' = { s with
        server := s.server.apply ((M.await t.call).change s.server delivery)
        memories := fun replica =>
          if replica = t.replica then (M.await t.call).remember (s.memories replica)
          else s.memories replica
        threads := s.threads.set index { t with call } }) := by
  cases label with
  | tick duration => exact .inl ⟨duration, rfl, by simpa [step] using h.symm⟩
  | begin replica input => exact .inr (.inl ⟨replica, input, rfl, by simpa [step] using h.symm⟩)
  | step index delivery choice =>
      refine .inr (.inr ?_)
      simp only [step] at h
      split at h
      · cases h
      · rename_i t found
        obtain ⟨call, resumed, rfl⟩ := Option.map_eq_some_iff.mp h
        exact ⟨index, delivery, choice, t, call, rfl, found, resumed, rfl⟩

/-- The server changes by the change of the event. -/
theorem step_server {s s' : M.State} {label : M.Lbl} (h : M.step s label = some s') :
    s'.server = s.server.apply (Event.change (⟨s, label⟩ : M.Event)) := by
  rcases step_cases h with ⟨_, rfl, rfl⟩ | ⟨_, _, rfl, rfl⟩ | ⟨_, _, _, t, _, rfl, found, _, rfl⟩
  · rfl
  · rfl
  · simp [Event.change, found]

/-- What the replicas remember changes as the event says. -/
theorem step_memories {s s' : M.State} {label : M.Lbl} (h : M.step s label = some s') :
    s'.memories = Event.memories (⟨s, label⟩ : M.Event) := by
  rcases step_cases h with ⟨_, rfl, rfl⟩ | ⟨_, _, rfl, rfl⟩ | ⟨_, _, _, t, _, rfl, found, _, rfl⟩
  · rfl
  · rfl
  · funext replica
    simp [Event.memories, found]

theorem step_now {s s' : M.State} {label : M.Lbl} (h : M.step s label = some s') :
    s.now ≤ s'.now := by
  rcases step_cases h with ⟨_, rfl, rfl⟩ | ⟨_, _, rfl, rfl⟩ | ⟨_, _, _, _, _, rfl, _, _, rfl⟩
  · exact Nat.le_add_right _ _
  · exact Nat.le_refl _
  · exact Nat.le_refl _

/-- A call after a step was there before it, has just begun, or has just stepped. -/
theorem thread_after {s s' : M.State} {label : M.Lbl} (h : M.step s label = some s') {j : ℕ}
    {t' : M.Thr} (there : s'.threads[j]? = some t') :
    (s.threads[j]? = some t' ∧ ∀ delivery choice, label ≠ .step j delivery choice) ∨
    (∃ replica input, label = .begin replica input ∧ j = s.threads.length ∧
      t' = ⟨replica, input, M.start input⟩) ∨
    (∃ delivery choice t call, label = .step j delivery choice ∧ s.threads[j]? = some t ∧
      M.resume s delivery choice t = some call ∧ t' = { t with call }) := by
  rcases step_cases h with ⟨_, rfl, rfl⟩ | ⟨replica, input, rfl, rfl⟩ |
    ⟨index, delivery, choice, t, call, rfl, found, resumed, rfl⟩
  · exact .inl ⟨there, by simp⟩
  · simp only [List.getElem?_append] at there
    split at there
    · exact .inl ⟨there, by simp⟩
    · rename_i outside
      refine .inr (.inl ⟨replica, input, rfl, ?_⟩)
      rw [List.getElem?_singleton] at there
      split at there
      · exact ⟨by omega, (Option.some.inj there).symm⟩
      · cases there
  · simp only [List.getElem?_set] at there
    split at there
    · rename_i same
      subst same
      split at there
      · exact .inr (.inr ⟨delivery, choice, t, call, rfl, found, resumed,
          (Option.some.inj there).symm⟩)
      · cases there
    · rename_i other
      refine .inl ⟨there, fun _ _ same => ?_⟩
      cases same
      exact other rfl

/-- A call stays where it runs and keeps its input. -/
theorem thread_persists {s s' : M.State} {label : M.Lbl} (h : M.step s label = some s') {j : ℕ}
    {t : M.Thr} (there : s.threads[j]? = some t) :
    ∃ t', s'.threads[j]? = some t' ∧ t'.input = t.input := by
  have inside : j < s.threads.length := (List.getElem?_eq_some_iff.mp there).1
  rcases step_cases h with ⟨_, rfl, rfl⟩ | ⟨_, input, rfl, rfl⟩ |
    ⟨index, delivery, choice, t₀, call, rfl, found, resumed, rfl⟩
  · exact ⟨t, there, rfl⟩
  · exact ⟨t, by rw [List.getElem?_append_left inside]; exact there, rfl⟩
  · by_cases same : index = j
    · subst same
      obtain rfl : t₀ = t := by simpa [found] using there
      exact ⟨{ t₀ with call }, by simp [inside], rfl⟩
    · exact ⟨t, by rw [List.getElem?_set_ne same]; exact there, rfl⟩

/-! ## Runs -/

namespace Runs

variable {ok : List M.Event → M.State → M.Lbl → Prop} {server : Server Name Body}
  {events : List M.Event} {s : M.State}

/-- An event is a permitted step from where the run of the events before it ends. -/
theorem split {later earlier : List M.Event} {e : M.Event}
    (run : M.Runs ok server (later ++ e :: earlier) s) :
    M.Runs ok server earlier e.before ∧ ok earlier e.before e.label := by
  induction later generalizing s with
  | nil =>
      cases run with
      | cons run permitted _ => exact ⟨run, permitted⟩
  | cons _ later ih =>
      cases run with
      | cons run _ _ => exact ih run

/-- A run whose steps are permitted after any history is a run of such steps. -/
theorem of_forall {ok' : List M.Event → M.State → M.Lbl → Prop} (run : M.Runs ok server events s)
    (permitted : ∀ e ∈ events, ∀ earlier, ok' earlier e.before e.label) :
    M.Runs ok' server events s := by
  induction run with
  | nil => exact .nil
  | cons _ _ taken ih =>
      exact .cons (ih fun e older => permitted e (List.mem_cons_of_mem _ older))
        (permitted _ List.mem_cons_self _) taken

/-- An event starts where a run of some of the events ends. -/
theorem of_mem {e : M.Event} (run : M.Runs ok server events s) (member : e ∈ events) :
    ∃ earlier, M.Runs ok server earlier e.before ∧ earlier ⊆ events := by
  induction run with
  | nil => cases member
  | cons run _ _ ih =>
      rcases List.mem_cons.mp member with rfl | older
      · exact ⟨_, run, List.subset_cons_self _ _⟩
      · obtain ⟨earlier, before, included⟩ := ih older
        exact ⟨earlier, before, fun _ inside => List.mem_cons_of_mem _ (included inside)⟩

/-- A call is there ever after, with its input. -/
theorem there_of_mem {e : M.Event} {i : ℕ} {t : M.Thr} (run : M.Runs ok server events s)
    (member : e ∈ events) (there : e.before.threads[i]? = some t) :
    ∃ t', s.threads[i]? = some t' ∧ t'.input = t.input := by
  induction run with
  | nil => cases member
  | cons run _ taken ih =>
      rcases List.mem_cons.mp member with rfl | older
      · exact thread_persists taken there
      · obtain ⟨t', before, same⟩ := ih older
        obtain ⟨t'', after, same'⟩ := thread_persists taken before
        exact ⟨t'', after, same'.trans same⟩

/-- The call that takes a step is there at the end of the run, with its input. -/
theorem input_of_by {e : M.Event} {i : ℕ} {t : M.Thr} (run : M.Runs ok server events s)
    (member : e ∈ events) (stepped : e.By i t) :
    ∃ t', s.threads[i]? = some t' ∧ t'.input = t.input :=
  run.there_of_mem member stepped.1

/-- **What an object holds was there at the beginning or written by a step.** -/
theorem writer {name : Name} {object : Object Body} (run : M.Runs ok server events s)
    (held : s.server.objects name = some object) :
    server.objects name = some object ∨
      ∃ e ∈ events, ∃ i t, e.By i t ∧ e.change = some (name, some object.body) := by
  induction run with
  | nil => exact .inl held
  | cons run _ taken ih =>
      rename_i events s s' label
      rw [step_server taken] at held
      rcases Server.object_after held with before | ⟨written, _⟩
      · rcases ih before with first | ⟨e, older, i, t, stepped, change⟩
        · exact .inl first
        · exact .inr ⟨e, List.mem_cons_of_mem _ older, i, t, stepped, change⟩
      · refine .inr ⟨_, List.mem_cons_self, ?_⟩
        rcases step_cases taken with ⟨_, rfl, _⟩ | ⟨_, _, rfl, _⟩ |
          ⟨index, delivery, choice, t, _, rfl, found, _, _⟩
        · cases written
        · cases written
        · exact ⟨index, t, ⟨found, delivery, choice, rfl⟩, written⟩

/-- A call that steps is there ever after, and keeps what its own steps keep. -/
theorem kept {P : M.Call → Prop} {w : M.Event} {i : ℕ} {u t : M.Thr}
    (keeps : ∀ (s : M.State) delivery choice t call, P t.call →
      M.resume s delivery choice t = some call → P call)
    (run : M.Runs ok server events s) (member : w ∈ events)
    (there : w.before.threads[i]? = some u) (held : P u.call) (after : s.threads[i]? = some t) :
    P t.call := by
  induction run generalizing t with
  | nil => cases member
  | @cons events s s' label run _ taken ih =>
      -- the call as it is before the last step
      obtain ⟨t₀, before, held₀⟩ : ∃ t₀ : M.Thr, s.threads[i]? = some t₀ ∧ P t₀.call := by
        rcases List.mem_cons.mp member with rfl | older
        · exact ⟨u, there, held⟩
        · obtain ⟨t₀, before, _⟩ := run.there_of_mem older there
          exact ⟨t₀, before, ih older before⟩
      rcases thread_after taken after with ⟨same, _⟩ | ⟨_, _, _, outside, _⟩ |
        ⟨_, _, t₁, call, _, same, resumed, rfl⟩
      · obtain rfl := Option.some.inj (before.symm.trans same)
        exact held₀
      · have inside : i < s.threads.length := (List.getElem?_eq_some_iff.mp before).1
        omega
      · obtain rfl := Option.some.inj (before.symm.trans same)
        exact keeps _ _ _ _ _ held₀ resumed

/-- What an object was read from is known ever after. -/
theorem known_of_mem {e : M.Event} {name : Name} {object : Object Body}
    (run : M.Runs ok server events s) (member : e ∈ events)
    (held : e.before.server.objects name = some object) : s.server.Known name object := by
  induction run with
  | nil => cases member
  | cons _ _ taken ih =>
      rw [step_server taken]
      rcases List.mem_cons.mp member with rfl | older
      · exact (Server.Known.of_held held).apply _
      · exact (ih older).apply _

/-- Time does not go backwards. -/
theorem now_le {e : M.Event} (run : M.Runs ok server events s) (member : e ∈ events) :
    e.before.now ≤ s.now := by
  induction run with
  | nil => cases member
  | cons _ _ taken ih =>
      have later := step_now taken
      rcases List.mem_cons.mp member with rfl | older
      · exact later
      · exact Nat.le_trans (ih older) later

/-- What a change of a name leaves behind never comes back. -/
theorem gone {w : M.Event} {name : Name} {body : Option Body} {version : ℕ}
    (run : M.Runs ok server events s) (member : w ∈ events)
    (change : w.change = some (name, body)) (le : version ≤ w.before.server.revision) :
    s.server.Gone name version := by
  induction run with
  | nil => cases member
  | cons run _ taken ih =>
      rw [step_server taken]
      rcases List.mem_cons.mp member with rfl | older
      · rw [change]
        exact Server.gone_of_change le
      · exact (ih older).apply _

/-- **A version of an object is changed once.** -/
theorem change_once {w w' : M.Event} {name : Name} {body body' : Option Body}
    {object object' : Object Body} (run : M.Runs ok server events s) (member : w ∈ events)
    (member' : w' ∈ events) (change : w.change = some (name, body))
    (change' : w'.change = some (name, body'))
    (found : w.before.server.objects name = some object)
    (found' : w'.before.server.objects name = some object')
    (same : object.version = object'.version) : w = w' := by
  induction run with
  | nil => cases member
  | cons run _ _ ih =>
      rcases List.mem_cons.mp member with rfl | older
      · rcases List.mem_cons.mp member' with rfl | older'
        · rfl
        · have le := Server.numbered _ _ _ found'
          exact absurd same ((run.gone older' change' le).absent object found)
      · rcases List.mem_cons.mp member' with rfl | older'
        · have le := Server.numbered _ _ _ found
          exact absurd same.symm ((run.gone older change le).absent object' found')
        · exact ih older older'

/-- **A property of single calls is an invariant when calls begin with it, their own steps
keep it, and the steps of other calls keep it.** -/
theorem thread_invariant {I : List M.Event → M.State → ℕ → M.Thr → Prop}
    (other : ∀ es (s s' : M.State) label i t, M.Runs ok server es s →
      M.step s label = some s' → ok es s label → s.threads[i]? = some t →
      (∀ delivery choice, label ≠ .step i delivery choice) → I es s i t →
      I (⟨s, label⟩ :: es) s' i t)
    (start : ∀ es (s s' : M.State) replica input, M.Runs ok server es s →
      M.step s (.begin replica input) = some s' →
      I (⟨s, .begin replica input⟩ :: es) s' s.threads.length
        ⟨replica, input, M.start input⟩)
    (own : ∀ es (s s' : M.State) i delivery choice t call, M.Runs ok server es s →
      M.step s (.step i delivery choice) = some s' → ok es s (.step i delivery choice) →
      s.threads[i]? = some t → I es s i t → M.resume s delivery choice t = some call →
      I (⟨s, .step i delivery choice⟩ :: es) s' i { t with call })
    (run : M.Runs ok server events s) {i : ℕ} {t : M.Thr} (there : s.threads[i]? = some t) :
    I events s i t := by
  induction run generalizing i t with
  | nil => simp [initial] at there
  | cons run permitted taken ih =>
      rcases thread_after taken there with ⟨before, others⟩ | ⟨replica, input, rfl, rfl, rfl⟩ |
        ⟨delivery, choice, t₀, call, rfl, before, resumed, rfl⟩
      · exact other _ _ _ _ _ _ run taken permitted before others (ih before)
      · exact start _ _ _ _ _ run taken
      · exact own _ _ _ _ _ _ _ _ run taken permitted before (ih before) resumed

/-- Executed labels are a run. -/
theorem of_replay : ∀ {labels : List M.Lbl} {events events' : List M.Event} {s s' : M.State},
    M.Runs M.anyStep server events s → M.replay labels events s = some (events', s') →
    M.Runs M.anyStep server events' s'
  | [], _, _, _, _, run, executed => by
      simp only [replay, Option.some.injEq, Prod.mk.injEq] at executed
      obtain ⟨rfl, rfl⟩ := executed
      exact run
  | label :: labels, events, events', s, s', run, executed => by
      simp only [replay] at executed
      split at executed
      · rename_i next taken
        exact of_replay (.cons run trivial taken) executed
      · cases executed

/-- A run to a system of interest, from labels that lead there. -/
theorem exists_of_replay (labels : List M.Lbl) (P : List M.Event → M.State → Prop)
    [∀ es s, Decidable (P es s)]
    (reached : (M.replay labels [] (M.initial server)).any (fun last => P last.1 last.2) = true) :
    ∃ events s, M.Runs M.anyStep server events s ∧ P events s := by
  obtain ⟨⟨events, s⟩, executed, holds⟩ := (Option.any_eq_true _ _).mp reached
  exact ⟨events, s, of_replay .nil executed, of_decide_eq_true holds⟩

end Runs

end Machine

end OAuthRelay.Objects
