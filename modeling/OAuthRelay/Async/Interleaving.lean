import Mathlib.Data.List.Basic
import Mathlib.Data.Nat.Notation

/-!
# Calls over shared memory

Calls share a state. A call goes on in steps, each of which reads and changes the shared
state at once; between two steps of a call there may be any steps of other calls, and the
environment may change the state on its own. What a step sees of the environment, such as
a clock, is the choice of its label.

A run is the list of its events, newest first. What holds of the shared state at the end
held from the beginning on, or since one event (`Runs.since`); what the own steps of a
call keep, the call keeps (`Runs.kept`); and what every step keeps of a single call holds
of every call (`Runs.thread_invariant`).
-/

set_option autoImplicit false

namespace OAuthRelay.Interleaving

/-- How a call begins, what one step of it does, and what the environment does on its own.
A finished call takes no step. -/
structure Program (Shared Input Call Choice Drift : Type) where
  start : Input → Call
  act : Choice → Shared → Call → Option (Shared × Call)
  drift : Drift → Shared → Shared

/-- What a call was asked, and where it stands. -/
structure Thread (Input Call : Type) where
  input : Input
  call : Call
  deriving DecidableEq

/-- The shared state, and the calls begun so far. -/
structure System (Shared Input Call : Type) where
  shared : Shared
  threads : List (Thread Input Call)

/-- One step of a system. -/
inductive Label (Input Choice Drift : Type) where
  | begin (input : Input)
  | step (index : ℕ) (choice : Choice)
  | drift (drift : Drift)

/-- A step that was taken. -/
structure Event (Shared Input Call Choice Drift : Type) where
  before : System Shared Input Call
  label : Label Input Choice Drift
  after : System Shared Input Call

variable {Shared Input Call Choice Drift : Type}

/-- The event is a step of the call `index`, which was `t` before it. -/
def Event.By (e : Event Shared Input Call Choice Drift) (index : ℕ) (t : Thread Input Call)
    (choice : Choice) : Prop :=
  e.before.threads[index]? = some t ∧ e.label = .step index choice

/-- A step belongs to one call. -/
theorem Event.By.unique {e : Event Shared Input Call Choice Drift} {i j : ℕ}
    {t u : Thread Input Call} {choice choice' : Choice} (by₁ : e.By i t choice)
    (by₂ : e.By j u choice') : i = j ∧ t = u ∧ choice = choice' := by
  obtain ⟨there, label⟩ := by₁
  obtain ⟨there', label'⟩ := by₂
  rw [label] at label'
  injection label' with same same'
  subst same
  exact ⟨rfl, Option.some.inj (there.symm.trans there'), same'⟩

/-- Of two steps of a run, one comes first. -/
theorem two_of_mem {α : Type} {a b : α} {items : List α} (first : a ∈ items) (second : b ∈ items)
    (apart : a ≠ b) :
    (∃ before between after, items = before ++ a :: (between ++ b :: after)) ∨
      ∃ before between after, items = before ++ b :: (between ++ a :: after) := by
  obtain ⟨before, after, rfl⟩ := List.append_of_mem first
  rcases List.mem_append.mp second with newer | older
  · obtain ⟨before, between, rfl⟩ := List.append_of_mem newer
    exact .inr ⟨before, between, after, by simp⟩
  · obtain ⟨between, after, rfl⟩ :=
      List.append_of_mem ((List.mem_cons.mp older).resolve_left apart.symm)
    exact .inl ⟨before, between, after, rfl⟩

namespace Program

variable (P : Program Shared Input Call Choice Drift)

/-- One step; `none` when the label names no call or a finished one. -/
def step (s : System Shared Input Call) :
    Label Input Choice Drift → Option (System Shared Input Call)
  | .begin input => some { s with threads := s.threads ++ [⟨input, P.start input⟩] }
  | .step index choice =>
      s.threads[index]?.bind fun t =>
        (P.act choice s.shared t.call).map fun (shared, call) =>
          ⟨shared, s.threads.set index { t with call }⟩
  | .drift drift => some { s with shared := P.drift drift s.shared }

/-- Runs from a shared state, whose steps are all `ok`. -/
inductive Runs (ok : List (Event Shared Input Call Choice Drift) → System Shared Input Call →
    Label Input Choice Drift → Prop) (shared : Shared) :
    List (Event Shared Input Call Choice Drift) → System Shared Input Call → Prop where
  | nil : Runs ok shared [] ⟨shared, []⟩
  | cons {events : List (Event Shared Input Call Choice Drift)} {s s' : System Shared Input Call}
      {label : Label Input Choice Drift} (run : Runs ok shared events s)
      (permitted : ok events s label) (taken : P.step s label = some s') :
      Runs ok shared (⟨s, label, s'⟩ :: events) s'

/-- Every step is permitted. -/
abbrev anyStep : List (Event Shared Input Call Choice Drift) → System Shared Input Call →
    Label Input Choice Drift → Prop := fun _ _ _ => True

/-- Executes labels in order, as long as every step is possible and passes the check. -/
def replay (check : List (Event Shared Input Call Choice Drift) → System Shared Input Call →
      Label Input Choice Drift → Bool) :
    List (Label Input Choice Drift) → List (Event Shared Input Call Choice Drift) →
      System Shared Input Call →
        Option (List (Event Shared Input Call Choice Drift) × System Shared Input Call)
  | [], events, s => some (events, s)
  | label :: labels, events, s =>
      match check events s label, P.step s label with
      | true, some s' => replay check labels (⟨s, label, s'⟩ :: events) s'
      | _, _ => none

variable {P} {s s' : System Shared Input Call} {label : Label Input Choice Drift}

/-! ## What one step does -/

/-- **Every step begins a call, takes one call further, or is the environment's.** -/
theorem step_cases (taken : P.step s label = some s') :
    (∃ input, label = .begin input ∧
      s' = { s with threads := s.threads ++ [⟨input, P.start input⟩] }) ∨
    (∃ index choice t shared call, label = .step index choice ∧ s.threads[index]? = some t ∧
      P.act choice s.shared t.call = some (shared, call) ∧
      s' = ⟨shared, s.threads.set index { t with call }⟩) ∨
    ∃ drift, label = .drift drift ∧ s' = { s with shared := P.drift drift s.shared } := by
  cases label with
  | begin input => exact .inl ⟨input, rfl, (Option.some.inj taken).symm⟩
  | step index choice =>
      obtain ⟨t, there, moved⟩ := Option.bind_eq_some_iff.mp taken
      obtain ⟨⟨shared, call⟩, acted, rfl⟩ := Option.map_eq_some_iff.mp moved
      exact .inr (.inl ⟨index, choice, t, shared, call, rfl, there, acted, rfl⟩)
  | drift drift => exact .inr (.inr ⟨drift, rfl, (Option.some.inj taken).symm⟩)

/-- A call after a step was there before it, has just begun, or has just stepped. -/
theorem thread_after (taken : P.step s label = some s') {j : ℕ} {t' : Thread Input Call}
    (there : s'.threads[j]? = some t') :
    (s.threads[j]? = some t' ∧ ∀ choice, label ≠ .step j choice) ∨
    (∃ input, label = .begin input ∧ j = s.threads.length ∧ t' = ⟨input, P.start input⟩) ∨
    (∃ choice t call, label = .step j choice ∧ s.threads[j]? = some t ∧
      P.act choice s.shared t.call = some (s'.shared, call) ∧ t' = { t with call }) := by
  rcases step_cases taken with ⟨input, rfl, rfl⟩ |
    ⟨index, choice, t, shared, call, rfl, found, acted, rfl⟩ | ⟨drift, rfl, rfl⟩
  · simp only [List.getElem?_append] at there
    split at there
    · exact .inl ⟨there, nofun⟩
    · rename_i outside
      rw [List.getElem?_singleton] at there
      split at there
      · exact .inr (.inl ⟨input, rfl, by omega, (Option.some.inj there).symm⟩)
      · cases there
  · simp only [List.getElem?_set] at there
    split at there
    · rename_i same
      subst same
      split at there
      · exact .inr (.inr ⟨choice, t, call, rfl, found, acted, (Option.some.inj there).symm⟩)
      · cases there
    · rename_i other
      refine .inl ⟨there, fun _ same => ?_⟩
      cases same
      exact other rfl
  · exact .inl ⟨there, nofun⟩

/-- A call keeps its input. -/
theorem thread_persists (taken : P.step s label = some s') {j : ℕ} {t : Thread Input Call}
    (there : s.threads[j]? = some t) : ∃ t', s'.threads[j]? = some t' ∧ t'.input = t.input := by
  have inside : j < s.threads.length := (List.getElem?_eq_some_iff.mp there).1
  rcases step_cases taken with ⟨input, rfl, rfl⟩ |
    ⟨index, choice, u, shared, call, rfl, found, acted, rfl⟩ | ⟨drift, rfl, rfl⟩
  · exact ⟨t, by rw [List.getElem?_append_left inside]; exact there, rfl⟩
  · by_cases same : index = j
    · subst same
      obtain rfl : u = t := Option.some.inj (found.symm.trans there)
      exact ⟨{ u with call }, List.getElem?_set_self inside, rfl⟩
    · exact ⟨t, by rw [List.getElem?_set_ne same]; exact there, rfl⟩
  · exact ⟨t, there, rfl⟩

/-! ## Runs -/

namespace Runs

variable {ok : List (Event Shared Input Call Choice Drift) → System Shared Input Call →
    Label Input Choice Drift → Prop} {shared : Shared}
  {events : List (Event Shared Input Call Choice Drift)}

/-- A run up to an event, and the event. -/
theorem split {later earlier : List (Event Shared Input Call Choice Drift)}
    {e : Event Shared Input Call Choice Drift}
    (run : P.Runs ok shared (later ++ e :: earlier) s) :
    P.Runs ok shared earlier e.before ∧ ok earlier e.before e.label ∧
      P.step e.before e.label = some e.after ∧ P.Runs ok shared (e :: earlier) e.after := by
  induction later generalizing s with
  | nil =>
      cases run with
      | cons run permitted taken => exact ⟨run, permitted, taken, .cons run permitted taken⟩
  | cons _ later ih =>
      cases run with
      | cons run _ _ => exact ih run

/-- An event starts where a run of some of the events ends. -/
theorem of_mem {e : Event Shared Input Call Choice Drift} (run : P.Runs ok shared events s)
    (member : e ∈ events) :
    ∃ earlier, P.Runs ok shared earlier e.before ∧ earlier ⊆ events ∧
      P.step e.before e.label = some e.after := by
  obtain ⟨later, earlier, rfl⟩ := List.append_of_mem member
  obtain ⟨before, _, taken, _⟩ := run.split
  exact ⟨earlier, before, fun _ inside => by simp [inside], taken⟩

/-- A call is there ever after, with its input. -/
theorem there_of_mem {e : Event Shared Input Call Choice Drift} {i : ℕ} {t : Thread Input Call}
    (run : P.Runs ok shared events s) (member : e ∈ events)
    (there : e.before.threads[i]? = some t) :
    ∃ t', s.threads[i]? = some t' ∧ t'.input = t.input := by
  induction run with
  | nil => cases member
  | cons _ _ taken ih =>
      rcases List.mem_cons.mp member with rfl | older
      · exact thread_persists taken there
      · obtain ⟨t', before, same⟩ := ih older
        obtain ⟨t'', after, same'⟩ := thread_persists taken before
        exact ⟨t'', after, same'.trans same⟩

/-- **A property of single calls is an invariant when calls begin with it, their own steps
keep it, and other steps keep it.** -/
theorem thread_invariant {I : List (Event Shared Input Call Choice Drift) →
      System Shared Input Call → ℕ → Thread Input Call → Prop}
    (other : ∀ es s s' label i t, P.Runs ok shared es s → P.step s label = some s' →
      ok es s label → s.threads[i]? = some t → (∀ choice, label ≠ .step i choice) →
      I es s i t → I (⟨s, label, s'⟩ :: es) s' i t)
    (start : ∀ es s s' input, P.Runs ok shared es s → P.step s (.begin input) = some s' →
      I (⟨s, .begin input, s'⟩ :: es) s' s.threads.length ⟨input, P.start input⟩)
    (own : ∀ es s s' i choice t call, P.Runs ok shared es s →
      P.step s (.step i choice) = some s' → ok es s (.step i choice) →
      s.threads[i]? = some t → I es s i t →
      P.act choice s.shared t.call = some (s'.shared, call) →
      I (⟨s, .step i choice, s'⟩ :: es) s' i { t with call })
    (run : P.Runs ok shared events s) {i : ℕ} {t : Thread Input Call}
    (there : s.threads[i]? = some t) : I events s i t := by
  induction run generalizing i t with
  | nil => cases there
  | cons run permitted taken ih =>
      rcases thread_after taken there with ⟨before, others⟩ | ⟨input, rfl, rfl, rfl⟩ |
        ⟨choice, t₀, call, rfl, before, acted, rfl⟩
      · exact other _ _ _ _ _ _ run taken permitted before others (ih before)
      · exact start _ _ _ _ run taken
      · exact own _ _ _ _ _ _ _ run taken permitted before (ih before) acted

/-- What the own steps of a call keep, it keeps. -/
theorem kept {K : Call → Prop} {w : Event Shared Input Call Choice Drift} {i : ℕ}
    {u t : Thread Input Call}
    (keeps : ∀ choice shared shared' call call', K call →
      P.act choice shared call = some (shared', call') → K call')
    (run : P.Runs ok shared events s) (member : w ∈ events)
    (there : w.before.threads[i]? = some u) (held : K u.call) (after : s.threads[i]? = some t) :
    K t.call := by
  induction run generalizing t with
  | nil => cases member
  | @cons events s s' label run _ taken ih =>
      -- the call as it is before the last step
      obtain ⟨t₀, before, held₀⟩ : ∃ t₀, s.threads[i]? = some t₀ ∧ K t₀.call := by
        rcases List.mem_cons.mp member with rfl | older
        · exact ⟨u, there, held⟩
        · obtain ⟨t₀, before, _⟩ := run.there_of_mem older there
          exact ⟨t₀, before, ih older before⟩
      rcases thread_after taken after with ⟨same, _⟩ | ⟨_, _, outside, _⟩ |
        ⟨_, t₁, call, _, same, acted, rfl⟩
      · obtain rfl := Option.some.inj (before.symm.trans same)
        exact held₀
      · have inside : i < s.threads.length := (List.getElem?_eq_some_iff.mp before).1
        omega
      · obtain rfl := Option.some.inj (before.symm.trans same)
        exact keeps _ _ _ _ _ held₀ acted

/-- **What holds of the shared state has held from the beginning on, or since some event.** -/
theorem since {Q : Shared → Prop} (run : P.Runs ok shared events s) (holds : Q s.shared) :
    (Q shared ∧ ∀ e ∈ events, Q e.after.shared) ∨
      ∃ later e earlier, events = later ++ e :: earlier ∧ ¬ Q e.before.shared ∧
        Q e.after.shared ∧ ∀ e' ∈ later, Q e'.after.shared := by
  induction run with
  | nil => exact .inl ⟨holds, nofun⟩
  | @cons events s s' label run _ taken ih =>
      by_cases before : Q s.shared
      · rcases ih before with ⟨first, always⟩ | ⟨later, e, earlier, rfl, fresh, held, always⟩
        · exact .inl ⟨first, List.forall_mem_cons.mpr ⟨holds, always⟩⟩
        · exact .inr ⟨_ :: later, e, earlier, rfl, fresh, held,
            List.forall_mem_cons.mpr ⟨holds, always⟩⟩
      · exact .inr ⟨[], _, events, rfl, before, holds, nofun⟩

/-- Executed labels are a run, when what passes the check is permitted. -/
theorem of_replay {check : List (Event Shared Input Call Choice Drift) →
      System Shared Input Call → Label Input Choice Drift → Bool}
    (sound : ∀ events s label, check events s label = true → ok events s label) :
    ∀ {labels : List (Label Input Choice Drift)}
      {events events' : List (Event Shared Input Call Choice Drift)}
      {s s' : System Shared Input Call}, P.Runs ok shared events s →
      P.replay check labels events s = some (events', s') → P.Runs ok shared events' s'
  | [], _, _, _, _, run, executed => by
      simp only [replay, Option.some.injEq, Prod.mk.injEq] at executed
      obtain ⟨rfl, rfl⟩ := executed
      exact run
  | label :: labels, events, events', s, s', run, executed => by
      simp only [replay] at executed
      split at executed
      · rename_i next passes taken
        exact of_replay sound (.cons run (sound _ _ _ passes) taken) executed
      · cases executed

/-- A run to a system of interest, from labels that lead there. -/
theorem exists_of_replay (check : List (Event Shared Input Call Choice Drift) →
      System Shared Input Call → Label Input Choice Drift → Bool)
    (sound : ∀ events s label, check events s label = true → ok events s label)
    (labels : List (Label Input Choice Drift))
    (Q : List (Event Shared Input Call Choice Drift) → System Shared Input Call → Prop)
    [∀ es s, Decidable (Q es s)]
    (reached : (P.replay check labels [] ⟨shared, []⟩).any (fun last => Q last.1 last.2) = true) :
    ∃ events s, P.Runs ok shared events s ∧ Q events s := by
  obtain ⟨⟨events, s⟩, executed, holds⟩ := (Option.any_eq_true _ _).mp reached
  exact ⟨events, s, of_replay sound .nil executed, of_decide_eq_true holds⟩

end Runs

end Program

end OAuthRelay.Interleaving
