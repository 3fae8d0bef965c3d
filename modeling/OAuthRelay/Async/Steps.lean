import Mathlib.Logic.Basic

/-!
# Runs of a system

A system is its step function: what a state becomes under a label, if the label is possible
there. A run remembers its steps, the last one first, and each step may be subject to a
condition on what happened before it.

An invariant is what the first state has and every step keeps (`Runs.invariant`). What every
step preserves as a preorder relates each state of a run to all later ones (`Runs.related`).
-/

set_option autoImplicit false

namespace OAuthRelay.Async.Steps

/-- One step. -/
structure Event (σ ℓ : Type) where
  before : σ
  label : ℓ
  after : σ

variable {σ ℓ : Type}

/-- Runs from a state, whose steps are all `ok`. -/
inductive Runs (step : σ → ℓ → Option σ) (ok : List (Event σ ℓ) → σ → ℓ → Prop) (init : σ) :
    List (Event σ ℓ) → σ → Prop where
  | nil : Runs step ok init [] init
  | cons {events : List (Event σ ℓ)} {s s' : σ} {label : ℓ} (run : Runs step ok init events s)
      (permitted : ok events s label) (taken : step s label = some s') :
      Runs step ok init (⟨s, label, s'⟩ :: events) s'

namespace Runs

variable {step : σ → ℓ → Option σ} {ok ok' : List (Event σ ℓ) → σ → ℓ → Prop} {init s : σ}
  {events : List (Event σ ℓ)}

/-- **What the first state has and every step keeps, every state of a run has.** -/
theorem invariant {I : List (Event σ ℓ) → σ → Prop} (start : I [] init)
    (keeps : ∀ events s label s', Runs step ok init events s → ok events s label →
      step s label = some s' → I events s → I (⟨s, label, s'⟩ :: events) s')
    (run : Runs step ok init events s) : I events s := by
  induction run with
  | nil => exact start
  | cons run permitted taken ih => exact keeps _ _ _ _ run permitted taken ih

/-- Steps that are permitted by a condition are permitted by every weaker one. -/
theorem mono (weaker : ∀ events s label, ok events s label → ok' events s label)
    (run : Runs step ok init events s) : Runs step ok' init events s := by
  induction run with
  | nil => exact .nil
  | cons _ permitted taken ih => exact .cons ih (weaker _ _ _ permitted) taken

/-- **A state of a run is related to every later one**, when each step relates the state before
it to the state after it. -/
theorem related {r : σ → σ → Prop} (refl : ∀ s, r s s)
    (trans : ∀ s₁ s₂ s₃, r s₁ s₂ → r s₂ s₃ → r s₁ s₃)
    (keeps : ∀ events s label s', Runs step ok init events s → ok events s label →
      step s label = some s' → r s s')
    {later earlier : List (Event σ ℓ)} (run : Runs step ok init (later ++ earlier) s) :
    ∃ s₁, Runs step ok init earlier s₁ ∧ r s₁ s := by
  induction later generalizing s with
  | nil => exact ⟨s, run, refl s⟩
  | cons e later ih =>
      cases run with
      | cons run permitted taken =>
          obtain ⟨s₁, run₁, before⟩ := ih run
          exact ⟨s₁, run₁, trans _ _ _ before (keeps _ _ _ _ run permitted taken)⟩

/-- A state of a run is reached by the steps before it. -/
theorem earlier {later earlier : List (Event σ ℓ)}
    (run : Runs step ok init (later ++ earlier) s) : ∃ s₁, Runs step ok init earlier s₁ :=
  let ⟨s₁, run₁, _⟩ := related (r := fun _ _ => True) (fun _ => trivial)
    (fun _ _ _ _ _ => trivial) (fun _ _ _ _ _ _ _ => trivial) run
  ⟨s₁, run₁⟩

/-- The last step of a run. -/
theorem last {e : Event σ ℓ} (run : Runs step ok init (e :: events) s) :
    Runs step ok init events e.before ∧ ok events e.before e.label ∧
      step e.before e.label = some e.after ∧ e.after = s := by
  cases run with
  | cons run permitted taken => exact ⟨run, permitted, taken, rfl⟩

/-- The state before a step is related to every state after it. -/
theorem related_before {r : σ → σ → Prop} (refl : ∀ s, r s s)
    (trans : ∀ s₁ s₂ s₃, r s₁ s₂ → r s₂ s₃ → r s₁ s₃)
    (keeps : ∀ events s label s', Runs step ok init events s → ok events s label →
      step s label = some s' → r s s')
    (run : Runs step ok init events s) {e : Event σ ℓ} (member : e ∈ events) :
    r e.before s := by
  obtain ⟨later, earlier, rfl⟩ := List.append_of_mem member
  obtain ⟨s₁, run₁, after⟩ := related refl trans keeps run
  obtain ⟨before, permitted, taken, rfl⟩ := run₁.last
  exact trans _ _ _ (keeps _ _ _ _ before permitted taken) after

/-- The state after a step is related to the state before every later one. -/
theorem related_between {r : σ → σ → Prop} (refl : ∀ s, r s s)
    (trans : ∀ s₁ s₂ s₃, r s₁ s₂ → r s₂ s₃ → r s₁ s₃)
    (keeps : ∀ events s label s', Runs step ok init events s → ok events s label →
      step s label = some s' → r s s')
    {later earlier : List (Event σ ℓ)} {e : Event σ ℓ}
    (run : Runs step ok init (later ++ e :: earlier) s) {e' : Event σ ℓ} (member : e' ∈ later) :
    r e.after e'.before := by
  obtain ⟨newer, older, rfl⟩ := List.append_of_mem member
  rw [List.append_assoc, List.cons_append] at run
  obtain ⟨_, run'⟩ := run.earlier
  obtain ⟨s₁, run₁, after⟩ := related refl trans keeps run'.last.1
  obtain ⟨_, _, _, rfl⟩ := run₁.last
  exact after

end Runs

/-- Executes labels in order, as long as each is possible and passes a check. -/
def replay (step : σ → ℓ → Option σ) (check : List (Event σ ℓ) → σ → ℓ → Bool) :
    List ℓ → List (Event σ ℓ) → σ → Option (List (Event σ ℓ) × σ)
  | [], events, s => some (events, s)
  | label :: labels, events, s =>
      match step s label with
      | some s' =>
          if check events s label then replay step check labels (⟨s, label, s'⟩ :: events) s'
          else none
      | none => none

/-- **What is replayed is a run.** -/
theorem Runs.of_replay {step : σ → ℓ → Option σ} {ok : List (Event σ ℓ) → σ → ℓ → Prop}
    {init s s' : σ} {events events' : List (Event σ ℓ)}
    (check : List (Event σ ℓ) → σ → ℓ → Bool) (labels : List ℓ)
    (checked : ∀ events s label, check events s label = true → ok events s label)
    (run : Runs step ok init events s)
    (replayed : replay step check labels events s = some (events', s')) :
    Runs step ok init events' s' := by
  induction labels generalizing events s with
  | nil =>
      cases replayed
      exact run
  | cons label labels ih =>
      unfold replay at replayed
      split at replayed
      · rename_i taken
        split at replayed
        · rename_i permitted
          exact ih (.cons run (checked _ _ _ permitted) taken) replayed
        · cases replayed
      · cases replayed

end OAuthRelay.Async.Steps
