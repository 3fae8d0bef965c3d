import Mathlib.Data.List.Basic
import OAuthRelay.Async.Store

/-!
# Asynchronous calls over a shared expiring store

A call of an asynchronous program runs between awaits without interruption. At an
await it asks its environment one thing, a store operation or a question to
something else (a clock, a sealer, a remote server), and later resumes with the
answer. So a program is a map from the states of a call to what the call awaits
there, together with the state it resumes in for every answer (`Await`).

A system is a store, its clock and any number of calls. A step of the system lets
time pass, begins a call, or answers the await of one call (`Machine.step`). A call
that takes no further step has crashed or was cancelled. The answer of a store
operation can be lost, whether or not the operation was applied (`Delivery`).

A run is the list of its events, newest first. An event keeps the system before it
and the label of the step, so a statement about a run can refer to every
intermediate system. `ok` restricts the steps of a run.
-/

set_option autoImplicit false

namespace OAuthRelay.Async

/-- A random value, named by the call that drew it and the place of the draw among
the steps of that call. Different draws have different names. -/
structure Name where
  call : ℕ
  step : ℕ
  deriving DecidableEq

/-- Why a store operation gave no answer. -/
inductive StoreError where
  /-- The request violates the contract; nothing happened. -/
  | invalid
  /-- The backend failed; the outcome is unknown. -/
  | backend
  deriving DecidableEq

/-- What becomes of one store operation. -/
inductive Delivery where
  | answered
  /-- The operation took effect, the caller sees an error. -/
  | answerLost
  /-- The operation took no effect, the caller sees an error. -/
  | notApplied
  deriving DecidableEq

/-- What a call waits for, and the state it resumes in for every answer. -/
inductive Await (K V Question : Type) (Answer : Question → Type) (Call : Type) where
  | get (key : K) (next : Except StoreError (Option V) → Call)
  | putIfAbsent (key : K) (value : V) (ttl : ℕ) (next : Except StoreError Bool → Call)
  | compareAndSwap (key : K) (expected new : V) (ttl : ℕ) (next : Except StoreError Bool → Call)
  | delete (key : K) (next : Except StoreError Unit → Call)
  | consult (question : Question) (next : Answer question → Call)
  | finished

/-- A call: its state, how many steps it has taken, and when it entered its state. -/
structure Thread (Call : Type) where
  call : Call
  steps : ℕ
  since : ℕ
  deriving DecidableEq

/-- A store with its clock, and the calls begun so far. -/
structure System (K V Call : Type) where
  store : Store K V
  now : ℕ
  threads : List (Thread Call)

/-- One step of a system. -/
inductive Label (Input Choice : Type) where
  | tick (duration : ℕ)
  | begin (input : Input)
  | step (index : ℕ) (delivery : Delivery) (choice : Choice)

/-- The call whose step this is. -/
def Label.index? {Input Choice : Type} : Label Input Choice → Option ℕ
  | .step index _ _ => some index
  | _ => none

theorem Label.index?_eq_some_iff {Input Choice : Type} {label : Label Input Choice} {index : ℕ} :
    label.index? = some index ↔ ∃ delivery choice, label = .step index delivery choice := by
  cases label <;> simp [Label.index?]

/-- An asynchronous program and the environment that answers its questions. A choice
fixes what the environment is free in; a question that draws a random value gets the
name of the step, and a call that draws one when it begins the name of step 0. -/
structure Machine (K V : Type) where
  Input : Type
  Call : Type
  Question : Type
  Answer : Question → Type
  Choice : Type
  start : Name → Input → Call
  await : Call → Await K V Question Answer Call
  answer : Choice → Name → (question : Question) → Answer question

namespace Await

variable {K V Question Call Outer : Type} {Answer : Question → Type}

/-- The same await, resuming in a surrounding call. -/
def map (f : Call → Outer) :
    Await K V Question Answer Call → Await K V Question Answer Outer
  | .get key next => .get key fun a => f (next a)
  | .putIfAbsent key value ttl next => .putIfAbsent key value ttl fun a => f (next a)
  | .compareAndSwap key expected new ttl next =>
      .compareAndSwap key expected new ttl fun a => f (next a)
  | .delete key next => .delete key fun a => f (next a)
  | .consult question next => .consult question fun a => f (next a)
  | .finished => .finished

/-- The same await over a store that also holds other keys and values, `back` of a value
being what this await takes it for, and counts `unit` for each unit of time. -/
def embed {K' V' Question' : Type} {Answer' : Question' → Type} (key : K → K') (value : V → V')
    (back : V' → Option V) (unit : ℕ) (question : Question → Question')
    (answer : (q : Question) → Answer' (question q) → Answer q) :
    Await K V Question Answer Call → Await K' V' Question' Answer' Call
  | .get k next => .get (key k) fun a => next (a.map (·.bind back))
  | .putIfAbsent k v ttl next => .putIfAbsent (key k) (value v) (ttl * unit) next
  | .compareAndSwap k expected new ttl next =>
      .compareAndSwap (key k) (value expected) (value new) (ttl * unit) next
  | .delete k next => .delete (key k) next
  | .consult q next => .consult (question q) fun a => next (answer q a)
  | .finished => .finished

/-- The lifetime of what this await writes, if it writes. -/
def ttl? : Await K V Question Answer Call → Option ℕ
  | .putIfAbsent _ _ ttl _ => some ttl
  | .compareAndSwap _ _ _ ttl _ => some ttl
  | _ => none

/-- What this await asks, if it asks a question. -/
def question? : Await K V Question Answer Call → Option Question
  | .consult question _ => some question
  | _ => none

@[simp] theorem ttl?_map (f : Call → Outer) (await : Await K V Question Answer Call) :
    (await.map f).ttl? = await.ttl? := by
  cases await <;> rfl

@[simp] theorem question?_map (f : Call → Outer) (await : Await K V Question Answer Call) :
    (await.map f).question? = await.question? := by
  cases await <;> rfl

variable [DecidableEq V]

/-- The change a step out of this await makes to the store. A write with a zero
lifetime is rejected. -/
def change (σ : Store K V) (now : ℕ) (delivery : Delivery) :
    Await K V Question Answer Call → Option (Change K V)
  | .get .. => none
  | .putIfAbsent key value ttl _ =>
      if ttl = 0 ∨ delivery = .notApplied then none else σ.putChange now key value ttl
  | .compareAndSwap key expected new ttl _ =>
      if ttl = 0 ∨ delivery = .notApplied then none
      else σ.swapChange now key expected new ttl
  | .delete key _ => if delivery = .notApplied then none else some (key, none)
  | .consult .. => none
  | .finished => none

/-- The answer to a conditional write: whether it made its change. -/
def written (ttl : ℕ) (delivery : Delivery) (done : Option (Change K V)) :
    Except StoreError Bool :=
  if ttl = 0 then .error .invalid
  else if delivery = .answered then .ok done.isSome
  else .error .backend

/-- The state a call resumes in. A finished call takes no step. -/
def next (σ : Store K V) (now : ℕ) (delivery : Delivery)
    (answer : (question : Question) → Answer question) :
    Await K V Question Answer Call → Option Call
  | .get key next =>
      some (next (if delivery = .answered then .ok (σ.live now key) else .error .backend))
  | .putIfAbsent key value ttl next =>
      some (next (written ttl delivery (σ.putChange now key value ttl)))
  | .compareAndSwap key expected new ttl next =>
      some (next (written ttl delivery (σ.swapChange now key expected new ttl)))
  | .delete _ next =>
      some (next (if delivery = .answered then .ok () else .error .backend))
  | .consult question next => some (next (answer question))
  | .finished => none

@[simp] theorem change_map (f : Call → Outer) (σ : Store K V) (now : ℕ) (delivery : Delivery)
    (await : Await K V Question Answer Call) :
    (await.map f).change σ now delivery = await.change σ now delivery := by
  cases await <;> rfl

@[simp] theorem next_map (f : Call → Outer) (σ : Store K V) (now : ℕ) (delivery : Delivery)
    (answer : (question : Question) → Answer question)
    (await : Await K V Question Answer Call) :
    (await.map f).next σ now delivery answer = (await.next σ now delivery answer).map f := by
  cases await <;> rfl

/-! ### What a call learns and changes -/

section Next

variable {σ : Store K V} {now ttl : ℕ} {delivery : Delivery} {key : K} {value expected new : V}
  {answer : (question : Question) → Answer question} {call : Call}

theorem next_get {next : Except StoreError (Option V) → Call}
    (h : (Await.get key next : Await K V Question Answer Call).next σ now delivery answer =
      some call) :
    (delivery = .answered ∧ call = next (.ok (σ.live now key))) ∨
      (delivery ≠ .answered ∧ ∃ error, call = next (.error error)) := by
  simp only [Await.next, Option.some.injEq] at h
  subst h
  by_cases answered : delivery = .answered
  · exact .inl ⟨answered, by rw [if_pos answered]⟩
  · exact .inr ⟨answered, _, by rw [if_neg answered]⟩

theorem next_putIfAbsent {next : Except StoreError Bool → Call}
    (h : (Await.putIfAbsent key value ttl next : Await K V Question Answer Call).next σ now
      delivery answer = some call) :
    (0 < ttl ∧ delivery = .answered ∧ σ.live now key = none ∧ call = next (.ok true)) ∨
    (0 < ttl ∧ delivery = .answered ∧ σ.live now key ≠ none ∧ call = next (.ok false)) ∨
      ((ttl = 0 ∨ delivery ≠ .answered) ∧ ∃ error, call = next (.error error)) := by
  simp only [Await.next, Option.some.injEq, written] at h
  subst h
  by_cases zero : ttl = 0
  · exact .inr (.inr ⟨.inl zero, _, by rw [if_pos zero]⟩)
  · by_cases answered : delivery = .answered
    · rw [if_neg zero, if_pos answered]
      cases free : (σ.putChange now key value ttl).isSome with
      | true =>
          exact .inl ⟨Nat.pos_of_ne_zero zero, answered, Store.putChange_isSome.mp free, rfl⟩
      | false =>
          refine .inr (.inl ⟨Nat.pos_of_ne_zero zero, answered, fun absent => ?_, rfl⟩)
          rw [Store.putChange_isSome.mpr absent] at free
          cases free
    · exact .inr (.inr ⟨.inr answered, _, by rw [if_neg zero, if_neg answered]⟩)

theorem next_compareAndSwap {next : Except StoreError Bool → Call}
    (h : (Await.compareAndSwap key expected new ttl next : Await K V Question Answer Call).next σ
      now delivery answer = some call) :
    (0 < ttl ∧ delivery = .answered ∧ σ.live now key = some expected ∧
      call = next (.ok true)) ∨
    (0 < ttl ∧ delivery = .answered ∧ σ.live now key ≠ some expected ∧
      call = next (.ok false)) ∨
      ((ttl = 0 ∨ delivery ≠ .answered) ∧ ∃ error, call = next (.error error)) := by
  simp only [Await.next, Option.some.injEq, written] at h
  subst h
  by_cases zero : ttl = 0
  · exact .inr (.inr ⟨.inl zero, _, by rw [if_pos zero]⟩)
  · by_cases answered : delivery = .answered
    · rw [if_neg zero, if_pos answered]
      cases found : (σ.swapChange now key expected new ttl).isSome with
      | true =>
          exact .inl ⟨Nat.pos_of_ne_zero zero, answered, Store.swapChange_isSome.mp found, rfl⟩
      | false =>
          refine .inr (.inl ⟨Nat.pos_of_ne_zero zero, answered, fun live => ?_, rfl⟩)
          rw [Store.swapChange_isSome.mpr live] at found
          cases found
    · exact .inr (.inr ⟨.inr answered, _, by rw [if_neg zero, if_neg answered]⟩)

theorem next_delete {next : Except StoreError Unit → Call}
    (h : (Await.delete key next : Await K V Question Answer Call).next σ now delivery answer =
      some call) :
    (delivery = .answered ∧ call = next (.ok ())) ∨
      (delivery ≠ .answered ∧ ∃ error, call = next (.error error)) := by
  simp only [Await.next, Option.some.injEq] at h
  subst h
  by_cases answered : delivery = .answered
  · exact .inl ⟨answered, by rw [if_pos answered]⟩
  · exact .inr ⟨answered, _, by rw [if_neg answered]⟩

theorem next_consult {question : Question} {next : Answer question → Call}
    (h : (Await.consult question next : Await K V Question Answer Call).next σ now delivery
      answer = some call) : call = next (answer question) := by
  simpa [Await.next] using h.symm

theorem change_putIfAbsent {next : Except StoreError Bool → Call} {c : Change K V}
    (h : (Await.putIfAbsent key value ttl next : Await K V Question Answer Call).change σ now
      delivery = some c) : σ.live now key = none ∧ c = (key, some ⟨value, now + ttl⟩) := by
  simp only [change] at h
  split at h
  · cases h
  · exact Store.putChange_eq_some h

theorem change_compareAndSwap {next : Except StoreError Bool → Call} {c : Change K V}
    (h : (Await.compareAndSwap key expected new ttl next : Await K V Question Answer Call).change
      σ now delivery = some c) :
    σ.live now key = some expected ∧ c = (key, some ⟨new, now + ttl⟩) := by
  simp only [change] at h
  split at h
  · cases h
  · exact Store.swapChange_eq_some h

theorem compareAndSwap_changes {next : Except StoreError Bool → Call} (positive : 0 < ttl)
    (live : σ.live now key = some expected) :
    (Await.compareAndSwap key expected new ttl next : Await K V Question Answer Call).change σ now
      .answered = some (key, some ⟨new, now + ttl⟩) := by
  simp [change, Store.swapChange, live, Nat.ne_of_gt positive]

theorem putIfAbsent_changes {next : Except StoreError Bool → Call} (positive : 0 < ttl)
    (vacant : σ.live now key = none) :
    (Await.putIfAbsent key value ttl next : Await K V Question Answer Call).change σ now
      .answered = some (key, some ⟨value, now + ttl⟩) := by
  simp [change, Store.putChange, vacant, Nat.ne_of_gt positive]

omit [DecidableEq V] in
/-- An embedded await changes keys of its own only. -/
theorem change_embed {K' V' Question' : Type} {Answer' : Question' → Type} [DecidableEq V']
    {key : K → K'} {value : V → V'} {back : V' → Option V} {unit : ℕ}
    {question : Question → Question'} {answer : (q : Question) → Answer' (question q) → Answer q}
    {σ : Store K' V'} {now : ℕ} {delivery : Delivery} {await : Await K V Question Answer Call}
    {c : Change K' V'}
    (h : (await.embed key value back unit question answer).change σ now delivery = some c) :
    ∃ k, c.1 = key k := by
  cases await with
  | get | consult | finished => cases h
  | putIfAbsent k v ttl next =>
      simp only [embed, change] at h
      split at h
      · cases h
      · exact ⟨k, by rw [(Store.putChange_eq_some h).2]⟩
  | compareAndSwap k expected new ttl next =>
      simp only [embed, change] at h
      split at h
      · cases h
      · exact ⟨k, by rw [(Store.swapChange_eq_some h).2]⟩
  | delete k next =>
      simp only [embed, change] at h
      split at h
      · cases h
      · exact ⟨k, by rw [← Option.some.inj h]⟩

omit [DecidableEq V] in
theorem written_congr {K' V' : Type} {ttl' : ℕ} {done : Option (Change K V)}
    {done' : Option (Change K' V')} (zero : ttl = 0 ↔ ttl' = 0)
    (same : done.isSome = done'.isSome) :
    written ttl delivery done = written ttl' delivery done' := by
  simp only [written, zero, same]

/-- **An embedded await resumes as the await does in some store.** -/
theorem next_embed {K' V' Question' : Type} {Answer' : Question' → Type} [DecidableEq V']
    {key : K → K'} {value : V → V'} {back : V' → Option V} {unit : ℕ} (positive : unit ≠ 0)
    {question : Question → Question'} {answer : (q : Question) → Answer' (question q) → Answer q}
    {σ : Store K' V'} {now : ℕ} {delivery : Delivery}
    {reply : (q : Question') → Answer' q} {await : Await K V Question Answer Call} {call : Call}
    (h : (await.embed key value back unit question answer).next σ now delivery reply = some call) :
    ∃ σ' : Store K V, await.next σ' now delivery (fun q => answer q (reply (question q))) =
      some call := by
  have zero : ∀ ttl, ttl = 0 ↔ ttl * unit = 0 := by
    intro ttl
    rw [Nat.mul_eq_zero, or_iff_left positive]
  cases await with
  | get k next =>
      obtain ⟨σ', live⟩ := Store.exists_live (K := K) now k ((σ.live now (key k)).bind back)
      refine ⟨σ', ?_⟩
      rw [← h]
      by_cases answered : delivery = .answered
      · simp only [embed, Await.next, live, answered, if_true, Except.map]
      · simp only [embed, Await.next, answered, if_false, Except.map]
  | putIfAbsent k v ttl next =>
      obtain ⟨σ', live⟩ := Store.exists_live (K := K) now k ((σ.live now (key k)).map fun _ => v)
      refine ⟨σ', ?_⟩
      rw [← h]
      refine congrArg (fun told => some (next told)) (written_congr (zero ttl) ?_)
      rw [Bool.eq_iff_iff, Store.putChange_isSome, Store.putChange_isSome, live,
        Option.map_eq_none_iff]
  | compareAndSwap k expected new ttl next =>
      obtain ⟨σ', live⟩ := Store.exists_live (K := K) now k
        (if σ.live now (key k) = some (value expected) then some expected else none)
      refine ⟨σ', ?_⟩
      rw [← h]
      refine congrArg (fun told => some (next told)) (written_congr (zero ttl) ?_)
      rw [Bool.eq_iff_iff, Store.swapChange_isSome, Store.swapChange_isSome, live]
      simp
  | delete k next => exact ⟨Store.empty, h⟩
  | consult q next => exact ⟨Store.empty, h⟩
  | finished => cases h

theorem change_delete {next : Except StoreError Unit → Call} {c : Change K V}
    (h : (Await.delete key next : Await K V Question Answer Call).change σ now delivery =
      some c) : c = (key, none) := by
  simp only [change] at h
  split at h
  · cases h
  · exact (Option.some.inj h).symm

end Next

end Await

namespace Machine

variable {K V : Type} (M : Machine K V)

abbrev State := System K V M.Call
abbrev Lbl := Label M.Input M.Choice

/-- A step of a run: the system it starts from and its label. -/
structure Event where
  before : M.State
  label : M.Lbl

/-- The system before the first step. -/
def initial : M.State := ⟨Store.empty, 0, []⟩

variable [DecidableEq K] [DecidableEq V]

/-- One step; `none` when the label names no call or a finished one. -/
def step (s : M.State) : M.Lbl → Option M.State
  | .tick duration => some { s with now := s.now + duration }
  | .begin input => some { s with threads := s.threads ++ [⟨M.start ⟨s.threads.length, 0⟩ input, 1, s.now⟩] }
  | .step index delivery choice =>
      match s.threads[index]? with
      | none => none
      | some t =>
          ((M.await t.call).next s.store s.now delivery
            (M.answer choice ⟨index, t.steps⟩)).map fun call =>
              { s with
                store := s.store.applyChange ((M.await t.call).change s.store s.now delivery)
                threads := s.threads.set index ⟨call, t.steps + 1, s.now⟩ }

/-- Runs from the initial system whose steps are all `ok`. -/
inductive Runs (ok : List M.Event → M.State → M.Lbl → Prop) :
    List M.Event → M.State → Prop where
  | nil : Runs ok [] M.initial
  | cons {events : List M.Event} {s s' : M.State} {label : M.Lbl}
      (run : Runs ok events s) (permitted : ok events s label)
      (step : M.step s label = some s') : Runs ok (⟨s, label⟩ :: events) s'

/-- Every step is permitted. -/
abbrev anyStep : List M.Event → M.State → M.Lbl → Prop := fun _ _ _ => True

/-- Executes labels in order, as long as every step is possible and permitted. -/
def replay (permitted : List M.Event → M.State → M.Lbl → Bool) :
    List M.Lbl → List M.Event → M.State → Option (List M.Event × M.State)
  | [], events, s => some (events, s)
  | label :: labels, events, s =>
      if permitted events s label then
        match M.step s label with
        | some s' => replay permitted labels (⟨s, label⟩ :: events) s'
        | none => none
      else none

variable {M}

/-- The step `e` is taken by the call `index`, which is in state `t` before it. -/
def Event.By (e : M.Event) (index : ℕ) (t : Thread M.Call) : Prop :=
  e.before.threads[index]? = some t ∧
    ∃ delivery choice, e.label = .step index delivery choice

/-- The change an event makes to the store. -/
def Event.change (e : M.Event) : Option (Change K V) :=
  match e.label with
  | .step index delivery _ =>
      match e.before.threads[index]? with
      | some t => (M.await t.call).change e.before.store e.before.now delivery
      | none => none
  | _ => none

/-! ## What one step does -/

/-- **Every step lets time pass, begins a call, or answers one await.** -/
theorem step_cases {s s' : M.State} {label : M.Lbl} (h : M.step s label = some s') :
    (∃ duration, label = .tick duration ∧ s' = { s with now := s.now + duration }) ∨
    (∃ input, label = .begin input ∧
      s' = { s with threads := s.threads ++ [⟨M.start ⟨s.threads.length, 0⟩ input, 1, s.now⟩] }) ∨
    (∃ index delivery choice t call, label = .step index delivery choice ∧
      s.threads[index]? = some t ∧
      (M.await t.call).next s.store s.now delivery (M.answer choice ⟨index, t.steps⟩) =
        some call ∧
      s' = { s with
        store := s.store.applyChange ((M.await t.call).change s.store s.now delivery)
        threads := s.threads.set index ⟨call, t.steps + 1, s.now⟩ }) := by
  cases label with
  | tick duration => exact .inl ⟨duration, rfl, by simpa [step] using h.symm⟩
  | begin input => exact .inr (.inl ⟨input, rfl, by simpa [step] using h.symm⟩)
  | step index delivery choice =>
      refine .inr (.inr ?_)
      simp only [step] at h
      split at h
      · cases h
      · rename_i t found
        obtain ⟨call, resumed, rfl⟩ := Option.map_eq_some_iff.mp h
        exact ⟨index, delivery, choice, t, call, rfl, found, resumed, rfl⟩

/-- The store changes by the change of the event. -/
theorem step_store {s s' : M.State} {label : M.Lbl} (h : M.step s label = some s') :
    s'.store = s.store.applyChange (Event.change (⟨s, label⟩ : M.Event)) := by
  rcases step_cases h with ⟨_, rfl, rfl⟩ | ⟨_, rfl, rfl⟩ | ⟨_, _, _, t, _, rfl, found, _, rfl⟩
  · rfl
  · rfl
  · simp [Event.change, found]

theorem step_now_le {s s' : M.State} {label : M.Lbl} (h : M.step s label = some s') :
    s.now ≤ s'.now := by
  rcases step_cases h with ⟨_, rfl, rfl⟩ | ⟨_, rfl, rfl⟩ | ⟨_, _, _, _, _, rfl, _, _, rfl⟩
  · exact Nat.le_add_right _ _
  · exact Nat.le_refl _
  · exact Nat.le_refl _

/-- No call disappears. -/
theorem step_length_le {s s' : M.State} {label : M.Lbl} (h : M.step s label = some s') :
    s.threads.length ≤ s'.threads.length := by
  rcases step_cases h with ⟨_, rfl, rfl⟩ | ⟨_, rfl, rfl⟩ | ⟨_, _, _, _, _, rfl, _, _, rfl⟩
  · exact Nat.le_refl _
  · simp
  · simp

/-- A call after a step was there before it, has just begun, or has just stepped. -/
theorem thread_after {s s' : M.State} {label : M.Lbl} (h : M.step s label = some s') {j : ℕ}
    {t' : Thread M.Call} (there : s'.threads[j]? = some t') :
    (s.threads[j]? = some t' ∧ ∀ delivery choice, label ≠ .step j delivery choice) ∨
    (∃ input, label = .begin input ∧ j = s.threads.length ∧
      t' = ⟨M.start ⟨j, 0⟩ input, 1, s.now⟩) ∨
    (∃ delivery choice t call, label = .step j delivery choice ∧ s.threads[j]? = some t ∧
      (M.await t.call).next s.store s.now delivery (M.answer choice ⟨j, t.steps⟩) = some call ∧
      t' = ⟨call, t.steps + 1, s.now⟩) := by
  rcases step_cases h with ⟨_, rfl, rfl⟩ | ⟨input, rfl, rfl⟩ |
    ⟨index, delivery, choice, t, call, rfl, found, resumed, rfl⟩
  · exact .inl ⟨there, by simp⟩
  · simp only [List.getElem?_append] at there
    split at there
    · exact .inl ⟨there, by simp⟩
    · rename_i outside
      refine .inr (.inl ⟨input, rfl, ?_⟩)
      rw [List.getElem?_singleton] at there
      split at there
      · have last : j = s.threads.length := by omega
        subst last
        exact ⟨rfl, by simpa using there.symm⟩
      · cases there
  · simp only [List.getElem?_set] at there
    split at there
    · rename_i same
      subst same
      split at there
      · exact .inr (.inr ⟨delivery, choice, t, call, rfl, found, resumed, by simpa using there.symm⟩)
      · cases there
    · rename_i other
      refine .inl ⟨there, fun _ _ same => ?_⟩
      cases same
      exact other rfl

/-- A call stays, and stays as it is unless the step is its own. -/
theorem thread_persists {s s' : M.State} {label : M.Lbl} (h : M.step s label = some s') {j : ℕ}
    {t : Thread M.Call} (there : s.threads[j]? = some t) :
    s'.threads[j]? = some t ∨
    (∃ delivery choice call, label = .step j delivery choice ∧
      (M.await t.call).next s.store s.now delivery (M.answer choice ⟨j, t.steps⟩) = some call ∧
      s'.threads[j]? = some ⟨call, t.steps + 1, s.now⟩) := by
  have inside : j < s.threads.length := (List.getElem?_eq_some_iff.mp there).1
  rcases step_cases h with ⟨_, rfl, rfl⟩ | ⟨input, rfl, rfl⟩ |
    ⟨index, delivery, choice, t₀, call, rfl, found, resumed, rfl⟩
  · exact .inl there
  · exact .inl (by rw [List.getElem?_append_left inside]; exact there)
  · by_cases same : index = j
    · subst same
      obtain rfl : t₀ = t := by simpa [found] using there
      exact .inr ⟨delivery, choice, call, rfl, resumed, by simp [inside]⟩
    · exact .inl (by rw [List.getElem?_set_ne same]; exact there)

/-- A call that takes a step is afterwards where it resumed. -/
theorem thread_of_step {s s' : M.State} {i : ℕ} {delivery : Delivery} {choice : M.Choice}
    (h : M.step s (.step i delivery choice) = some s') {t : Thread M.Call}
    (there : s.threads[i]? = some t) :
    ∃ call, (M.await t.call).next s.store s.now delivery (M.answer choice ⟨i, t.steps⟩) =
      some call ∧ s'.threads[i]? = some ⟨call, t.steps + 1, s.now⟩ := by
  have inside : i < s.threads.length := (List.getElem?_eq_some_iff.mp there).1
  simp only [step, there] at h
  obtain ⟨call, resumed, rfl⟩ := Option.map_eq_some_iff.mp h
  exact ⟨call, resumed, List.getElem?_set_self inside⟩

/-- A call that can resume can take a step. -/
theorem exists_step {s : M.State} {i : ℕ} {delivery : Delivery} {choice : M.Choice}
    {t : Thread M.Call} {call : M.Call} (there : s.threads[i]? = some t)
    (resumed : (M.await t.call).next s.store s.now delivery (M.answer choice ⟨i, t.steps⟩) =
      some call) :
    ∃ s', M.step s (.step i delivery choice) = some s' ∧
      s'.threads[i]? = some ⟨call, t.steps + 1, s.now⟩ := by
  have inside : i < s.threads.length := (List.getElem?_eq_some_iff.mp there).1
  simp only [step, there, resumed, Option.map_some, Option.some.injEq, exists_eq_left']
  exact List.getElem?_set_self inside

/-! ## Random values -/

/-- The random value has been drawn, or its step has passed. -/
def Drawn (s : M.State) (name : Name) : Prop :=
  ∃ t, s.threads[name.call]? = some t ∧ name.step < t.steps

theorem Drawn.step {s s' : M.State} {label : M.Lbl} (h : M.step s label = some s') {name : Name}
    (drawn : Drawn s name) : Drawn s' name := by
  obtain ⟨t, there, below⟩ := drawn
  rcases thread_persists h there with same | ⟨_, _, call, _, _, after⟩
  · exact ⟨t, same, below⟩
  · exact ⟨_, after, Nat.lt_succ_of_lt below⟩

omit [DecidableEq K] [DecidableEq V] in
/-- The name of a step that is still to come has not been drawn. -/
theorem not_drawn_next {s : M.State} {index : ℕ} {t : Thread M.Call}
    (there : s.threads[index]? = some t) : ¬ Drawn s ⟨index, t.steps⟩ := by
  rintro ⟨t', found, below⟩
  obtain rfl : t' = t := by simpa [found] using there
  exact absurd below (Nat.lt_irrefl _)

/-! ## Runs -/

namespace Runs

variable {ok ok' : List M.Event → M.State → M.Lbl → Prop} {events : List M.Event} {s : M.State}

theorem mono (h : ∀ es s l, ok es s l → ok' es s l) (run : M.Runs ok events s) :
    M.Runs ok' events s := by
  induction run with
  | nil => exact .nil
  | cons _ permitted step ih => exact .cons ih (h _ _ _ permitted) step

theorem any (run : M.Runs ok events s) : M.Runs M.anyStep events s :=
  run.mono fun _ _ _ _ => trivial

/-- A run determines the system it ends in. -/
theorem unique {s' : M.State} (run : M.Runs ok events s) (run' : M.Runs ok' events s') :
    s = s' := by
  cases run with
  | nil => cases run'; rfl
  | cons _ _ step =>
      cases run' with
      | cons _ _ step' => exact Option.some.inj (step.symm.trans step')

/-- **Every event of a run starts where the run of the earlier events ends.** -/
theorem split {later earlier : List M.Event} {e : M.Event}
    (run : M.Runs ok (later ++ e :: earlier) s) :
    M.Runs ok earlier e.before ∧ ok earlier e.before e.label ∧
      ∃ s', M.step e.before e.label = some s' ∧ M.Runs ok (e :: earlier) s' := by
  induction later generalizing s with
  | nil =>
      cases run with
      | cons run permitted step => exact ⟨run, permitted, _, step, .cons run permitted step⟩
  | cons _ _ ih =>
      cases run with
      | cons run _ _ => exact ih run

/-- An event starts where a run of some of the events ends. -/
theorem of_mem {e : M.Event} (run : M.Runs ok events s) (member : e ∈ events) :
    ∃ earlier, M.Runs ok earlier e.before ∧ ok earlier e.before e.label ∧ earlier ⊆ events := by
  obtain ⟨later, earlier, rfl⟩ := List.mem_iff_append.mp member
  refine ⟨earlier, run.split.1, run.split.2.1, fun e' older => ?_⟩
  exact List.mem_append_right _ (List.mem_cons_of_mem _ older)

/-- What a step keeps, a run that goes on keeps. -/
theorem carry {I : List M.Event → M.State → Prop} {later earlier : List M.Event}
    {s₀ : M.State} (run₀ : M.Runs ok earlier s₀) (run : M.Runs ok (later ++ earlier) s)
    (init : I earlier s₀)
    (step : ∀ events (s s' : M.State) label, M.Runs ok events s → I events s →
      ok events s label → M.step s label = some s' → I (⟨s, label⟩ :: events) s') :
    I (later ++ earlier) s := by
  induction later generalizing s with
  | nil =>
      obtain rfl := run₀.unique run
      exact init
  | cons _ _ ih =>
      cases run with
      | cons run permitted taken => exact step _ _ _ _ run (ih run) permitted taken

/-- The clock does not go back. -/
theorem now_le {e : M.Event} (run : M.Runs ok events s) (member : e ∈ events) :
    e.before.now ≤ s.now := by
  induction run with
  | nil => cases member
  | cons _ _ step ih =>
      rcases List.mem_cons.mp member with rfl | older
      · exact step_now_le step
      · exact Nat.le_trans (ih older) (step_now_le step)

theorem length_le {e : M.Event} (run : M.Runs ok events s) (member : e ∈ events) :
    e.before.threads.length ≤ s.threads.length := by
  induction run with
  | nil => cases member
  | cons _ _ step ih =>
      rcases List.mem_cons.mp member with rfl | older
      · exact step_length_le step
      · exact Nat.le_trans (ih older) (step_length_le step)

/-- Executed labels are a run. -/
theorem of_replay {permitted : List M.Event → M.State → M.Lbl → Bool}
    (sound : ∀ es s l, permitted es s l = true → ok es s l) :
    ∀ {labels : List M.Lbl} {events events' : List M.Event} {s s' : M.State},
      M.Runs ok events s → M.replay permitted labels events s = some (events', s') →
      M.Runs ok events' s'
  | [], _, _, _, _, run, executed => by
      simp only [replay, Option.some.injEq, Prod.mk.injEq] at executed
      obtain ⟨rfl, rfl⟩ := executed
      exact run
  | label :: labels, events, events', s, s', run, executed => by
      simp only [replay] at executed
      split at executed
      · rename_i allowed
        split at executed
        · rename_i next taken
          exact of_replay sound (.cons run (sound _ _ _ allowed) taken) executed
        · cases executed
      · cases executed

/-- A run to a system of interest, from labels that lead there. -/
theorem exists_of_replay {permitted : List M.Event → M.State → M.Lbl → Bool}
    (sound : ∀ es s l, permitted es s l = true → ok es s l) (labels : List M.Lbl)
    (P : List M.Event → M.State → Prop) [∀ es s, Decidable (P es s)]
    (reached : (M.replay permitted labels [] M.initial).any (fun last => P last.1 last.2) = true) :
    ∃ events s, M.Runs ok events s ∧ P events s := by
  obtain ⟨⟨events, s⟩, executed, holds⟩ := (Option.any_eq_true _ _).mp reached
  exact ⟨events, s, .of_replay sound .nil executed, of_decide_eq_true holds⟩

end Runs

end Machine

end OAuthRelay.Async
