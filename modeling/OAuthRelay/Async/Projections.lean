import OAuthRelay.Async.Objects

/-!
# Client programs over other objects

A client program can be written over what its objects mean, or over what they look like on
the server. The two agree when each call of the one, at whatever it waits for, sends what
the other sends and goes on as the other does with what the answer means
(`Await.Reads`). Then every run over the objects as they are is a run over their meanings,
call by call and step by step (`Projection.runs`), and the server of the second run holds
the meanings of what the server of the first one holds.

Calls may have an invariant that the correspondence rests on; it has to hold where calls
begin, and each step has to keep it.
-/

set_option autoImplicit false

namespace OAuthRelay.Objects

variable {Name Body Body' : Type}

/-! ## Servers -/

def Object.map (f : Body → Body') (object : Object Body) : Object Body' :=
  ⟨object.version, f object.body⟩

def Change.map (f : Body → Body') (change : Change Name Body) : Change Name Body' :=
  (change.1, change.2.map f)

namespace Server

/-- The server with the meanings of its objects. -/
def map (f : Body → Body') (σ : Server Name Body) : Server Name Body' where
  objects name := (σ.objects name).map (Object.map f)
  revision := σ.revision
  numbered := by
    intro name _ held
    obtain ⟨object, there, rfl⟩ := Option.map_eq_some_iff.mp held
    exact σ.numbered name object there

variable (f : Body → Body') (σ : Server Name Body)

theorem map_createOutcome (name : Name) : (σ.map f).createOutcome name = σ.createOutcome name := by
  simp [createOutcome, map]

theorem map_createChange (name : Name) (body : Body) :
    (σ.map f).createChange name (f body) = (σ.createChange name body).map (Change.map f) := by
  simp only [createChange, map, Option.isNone_map]
  split <;> rfl

theorem map_replaceOutcome (name : Name) (version : ℕ) :
    (σ.map f).replaceOutcome name version = σ.replaceOutcome name version := by
  simp only [replaceOutcome, map]
  cases σ.objects name <;> rfl

theorem map_replaceChange (name : Name) (body : Body) (version : ℕ) :
    (σ.map f).replaceChange name (f body) version =
      (σ.replaceChange name body version).map (Change.map f) := by
  simp only [replaceChange, map_replaceOutcome]
  split <;> rfl

theorem map_deleteOutcome (name : Name) (version : Option ℕ) :
    (σ.map f).deleteOutcome name version = σ.deleteOutcome name version := by
  simp only [deleteOutcome, map]
  cases σ.objects name <;> rfl

theorem map_deleteChange (name : Name) (version : Option ℕ) :
    (σ.map f).deleteChange name version = (σ.deleteChange name version).map (Change.map f) := by
  simp only [deleteChange, map_deleteOutcome]
  split <;> rfl

variable [DecidableEq Name]

/-- **A change has the meaning of what it changes.** -/
theorem map_apply (change : Option (Change Name Body)) :
    (σ.apply change).map f = (σ.map f).apply (change.map (Change.map f)) := by
  cases change with
  | none => rfl
  | some change =>
      obtain ⟨name, body⟩ := change
      simp only [map, apply, Option.map_some, Change.map, mk.injEq, and_true]
      funext other
      split
      · cases body <;> rfl
      · rfl

end Server

/-! ## Calls -/

section Awaits

variable {Query Query' Page Page' Memory Memory' Call Call' : Type}

/-- The calls go on alike with an answer and with what it means, and when the request fails. -/
def Answers {Answer Answer' : Type} (meaning : Answer → Answer') (call : Call → Call')
    (next : Except RequestFailed Answer → Call) (next' : Except RequestFailed Answer' → Call') :
    Prop :=
  (∀ answer, next' (.ok (meaning answer)) = call (next (.ok answer))) ∧
    ∀ failed, next' (.error failed) = call (next (.error failed))

theorem Answers.deliver {Answer Answer' : Type} {meaning : Answer → Answer'} {call : Call → Call'}
    {next : Except RequestFailed Answer → Call} {next' : Except RequestFailed Answer' → Call'}
    (answers : Answers meaning call next next') (delivery : Delivery) (waiting : Call)
    (answer : Answer) : Objects.deliver delivery (call waiting) next' (meaning answer) =
      call (Objects.deliver delivery waiting next answer) := by
  cases delivery with
  | answered => exact answers.1 answer
  | answerLost => rfl
  | failed => exact answers.2 _

/-- The second await sends the meanings of what the first one sends, and goes on as it does
with the meanings of what is answered. -/
inductive Await.Reads (body : Body → Body') (query : Query → Query' → Prop) (page : Page → Page')
    (memory : Memory → Memory') (call : Call → Call') :
    Await Name Body Query Page Memory Call →
      Await Name Body' Query' Page' Memory' Call' → Prop where
  | get {name : Name} {next : Except RequestFailed (Option (Object Body)) → Call}
      {next' : Except RequestFailed (Option (Object Body')) → Call'}
      (answers : Answers (Option.map (Object.map body)) call next next') :
      Await.Reads body query page memory call (.get name next) (.get name next')
  | create {name : Name} {sent : Body} {sent' : Body'}
      {next : Except RequestFailed CreateOutcome → Call}
      {next' : Except RequestFailed CreateOutcome → Call'} (same : body sent = sent')
      (answers : Answers id call next next') :
      Await.Reads body query page memory call (.create name sent next) (.create name sent' next')
  | replace {name : Name} {sent : Body} {sent' : Body'} {version : ℕ}
      {next : Except RequestFailed ReplaceOutcome → Call}
      {next' : Except RequestFailed ReplaceOutcome → Call'} (same : body sent = sent')
      (answers : Answers id call next next') :
      Await.Reads body query page memory call (.replace name sent version next)
        (.replace name sent' version next')
  | delete {name : Name} {version : Option ℕ} {next : Except RequestFailed DeleteOutcome → Call}
      {next' : Except RequestFailed DeleteOutcome → Call'}
      (answers : Answers id call next next') :
      Await.Reads body query page memory call (.delete name version next)
        (.delete name version next')
  | list {asked : Query} {asked' : Query'} {next : Except RequestFailed Page → Call}
      {next' : Except RequestFailed Page' → Call'} (same : query asked asked')
      (answers : Answers page call next next') :
      Await.Reads body query page memory call (.list asked next) (.list asked' next')
  | clock {next : ℕ → Call} {next' : ℕ → Call'} (same : ∀ now, next' now = call (next now)) :
      Await.Reads body query page memory call (.clock next) (.clock next')
  | recalls {update : Memory → Memory} {update' : Memory' → Memory'} {next : Memory → Call}
      {next' : Memory' → Call'} (updates : ∀ m, update' (memory m) = memory (update m))
      (same : ∀ m, next' (memory m) = call (next m)) :
      Await.Reads body query page memory call (.recall update next) (.recall update' next')
  | finished : Await.Reads body query page memory call .finished .finished

namespace Await.Reads

variable {body : Body → Body'} {query : Query → Query' → Prop} {page : Page → Page'}
variable {memory : Memory → Memory'} {call : Call → Call'}
variable {a : Await Name Body Query Page Memory Call}
variable {a' : Await Name Body' Query' Page' Memory' Call'}

theorem next (reads : a.Reads body query page memory call a') (σ : Server Name Body) (m : Memory)
    (delivery : Delivery) (choice : Choice Page) (waiting : Call) :
    a'.next (σ.map body) (memory m) delivery ⟨page choice.page, choice.reading⟩ (call waiting) =
      (a.next σ m delivery choice waiting).map call := by
  cases reads with
  | get answers => exact congrArg some (answers.deliver delivery waiting _)
  | create same answers =>
      simp only [Await.next, Server.map_createOutcome, Option.map_some]
      exact congrArg some (answers.deliver delivery waiting _)
  | replace same answers =>
      simp only [Await.next, Server.map_replaceOutcome, Option.map_some]
      exact congrArg some (answers.deliver delivery waiting _)
  | delete answers =>
      simp only [Await.next, Server.map_deleteOutcome, Option.map_some]
      exact congrArg some (answers.deliver delivery waiting _)
  | list same answers => exact congrArg some (answers.deliver delivery waiting _)
  | clock same => exact congrArg some (same _)
  | recalls updates same => exact congrArg some (same _)
  | finished => rfl

theorem change (reads : a.Reads body query page memory call a') (σ : Server Name Body)
    (delivery : Delivery) :
    a'.change (σ.map body) delivery = (a.change σ delivery).map (Change.map body) := by
  cases reads with
  | create same answers =>
      subst same
      simp only [Await.change, Server.map_createChange]
      split <;> rfl
  | replace same answers =>
      subst same
      simp only [Await.change, Server.map_replaceChange]
      split <;> rfl
  | delete answers =>
      simp only [Await.change, Server.map_deleteChange]
      split <;> rfl
  | get | list | clock | recalls | finished => rfl

theorem remember (reads : a.Reads body query page memory call a') (m : Memory) :
    a'.remember (memory m) = memory (a.remember m) := by
  cases reads with
  | recalls updates same => exact updates m
  | get | create | replace | delete | list | clock | finished => rfl

end Await.Reads

end Awaits

/-! ## Runs -/

/-- How a program over objects as they are corresponds to a program over their meanings. -/
structure Projection (M : Machine Name Body) (M' : Machine Name Body') where
  body : Body → Body'
  input : M.Input → M'.Input
  call : M.Call → M'.Call
  query : M.Query → M'.Query → Prop
  page : M.Page → M'.Page
  memory : M.Memory → M'.Memory
  /-- What the correspondence rests on. -/
  fits : M'.Call → Prop
  memory_eq : memory M.memory = M'.memory
  start : ∀ asked, call (M.start asked) = M'.start (input asked)
  reads : ∀ c, fits (call c) → (M.await c).Reads body query page memory call (M'.await (call c))
  begins : ∀ asked, fits (M'.start asked)
  keeps : ∀ c, fits c → ∀ σ m delivery choice c',
    (M'.await c).next σ m delivery choice c = some c' → fits c'

namespace Projection

variable {M : Machine Name Body} {M' : Machine Name Body'} (P : Projection M M')

def thread (t : M.Thr) : M'.Thr := ⟨t.replica, P.input t.input, P.call t.call⟩

def state (s : M.State) : M'.State :=
  ⟨s.server.map P.body, s.now, fun replica => P.memory (s.memories replica),
    s.threads.map P.thread⟩

def label : M.Lbl → M'.Lbl
  | .tick duration => .tick duration
  | .begin replica input => .begin replica (P.input input)
  | .step index delivery choice => .step index delivery ⟨P.page choice.page, choice.reading⟩

def event (e : M.Event) : M'.Event := ⟨P.state e.before, P.label e.label⟩

/-- Every call fits. -/
def Fits (s : M.State) : Prop := ∀ t ∈ s.threads, P.fits (P.call t.call)

variable [DecidableEq Name]

/-- **A step over objects as they are is a step over their meanings.** -/
theorem step {s s' : M.State} {l : M.Lbl} (fits : P.Fits s) (h : M.step s l = some s') :
    P.Fits s' ∧ M'.step (P.state s) (P.label l) = some (P.state s') := by
  rcases Machine.step_cases h with
    ⟨duration, rfl, rfl⟩ | ⟨replica, asked, rfl, rfl⟩ |
      ⟨index, delivery, choice, t, c, rfl, there, resumed, rfl⟩
  · exact ⟨fits, rfl⟩
  · constructor
    · intro t inside
      rcases List.mem_append.mp inside with before | new
      · exact fits t before
      · rw [List.mem_singleton.mp new]
        show P.fits (P.call (M.start asked))
        rw [P.start]
        exact P.begins _
    · simp only [Machine.step, label, state, List.map_append, List.map_cons, List.map_nil, thread,
        P.start]
  · have fitting := fits t (List.mem_of_getElem? there)
    have reads := P.reads t.call fitting
    have goes : M'.resume (P.state s) delivery ⟨P.page choice.page, choice.reading⟩
        (P.thread t) = some (P.call c) := by
      have next := reads.next s.server (s.memories t.replica) delivery choice t.call
      rw [show (M.await t.call).next s.server (s.memories t.replica) delivery choice t.call =
        some c from resumed] at next
      exact next
    constructor
    · intro other inside
      rcases List.mem_or_eq_of_mem_set inside with before | rfl
      · exact fits other before
      · exact P.keeps (P.call t.call) fitting _ _ _ _ _ goes
    · have found : (P.state s).threads[index]? = some (P.thread t) := by
        simp only [state, List.getElem?_map, there, Option.map_some]
      simp only [Machine.step, label, found, goes, Option.map_some, Option.some.injEq]
      simp only [state, thread, List.map_set, Server.map_apply, reads.change, System.mk.injEq,
        true_and, and_true]
      funext replica
      by_cases mine : replica = t.replica
      · refine (if_pos mine).trans ?_
        rw [if_pos mine, reads.remember]
      · refine (if_neg mine).trans ?_
        rw [if_neg mine]

/-- **Every run over objects as they are is a run over their meanings.** -/
theorem runs {server : Server Name Body} {events : List M.Event} {s : M.State}
    (run : M.Runs M.anyStep server events s) :
    P.Fits s ∧ M'.Runs M'.anyStep (server.map P.body) (events.map P.event) (P.state s) := by
  induction run with
  | nil =>
      refine ⟨List.forall_mem_nil _, ?_⟩
      have same : P.state (M.initial server) = M'.initial (server.map P.body) := by
        simp only [state, Machine.initial, P.memory_eq, List.map_nil]
      rw [same]
      exact .nil
  | cons _ _ taken ih =>
      obtain ⟨fits, step⟩ := P.step ih.1 taken
      exact ⟨fits, .cons ih.2 trivial step⟩

end Projection

end OAuthRelay.Objects
