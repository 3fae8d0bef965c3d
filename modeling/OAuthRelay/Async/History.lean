import Mathlib.Logic.Relation
import OAuthRelay.Async.Machine

/-!
# What a run remembers

Three ways to argue from the state a system is in to the steps that led there. A property
of single calls is an invariant when it holds of a call that begins and every step of a
call keeps it (`Runs.thread_invariant`). A call that took a step once is now in a state
that follows the one it stepped from (`Runs.follows`). A value in the store was written by
some step (`Runs.writer`).

Where the written values carry the name of a draw, no value is written twice
(`Fresh.written_once`); so a value that a key holds at two instants was there all the time
between them (`Fresh.untouched`).
-/

set_option autoImplicit false

namespace OAuthRelay.Async

/-- Of two members of a list that differ, one stands before the other. -/
theorem mem_before {α : Type} {l : List α} {a b : α} (memA : a ∈ l) (memB : b ∈ l) :
    a = b ∨ (∃ later earlier, l = later ++ a :: earlier ∧ b ∈ earlier) ∨
      ∃ later earlier, l = later ++ b :: earlier ∧ a ∈ earlier := by
  induction l with
  | nil => cases memA
  | cons c l ih =>
      rcases List.mem_cons.mp memA with rfl | inA
      · rcases List.mem_cons.mp memB with rfl | inB
        · exact .inl rfl
        · exact .inr (.inl ⟨[], l, rfl, inB⟩)
      · rcases List.mem_cons.mp memB with rfl | inB
        · exact .inr (.inr ⟨[], l, rfl, inA⟩)
        · rcases ih inA inB with rfl | ⟨later, earlier, rfl, older⟩ | ⟨later, earlier, rfl, older⟩
          · exact .inl rfl
          · exact .inr (.inl ⟨c :: later, earlier, rfl, older⟩)
          · exact .inr (.inr ⟨c :: later, earlier, rfl, older⟩)

/-- A list around one of its members. -/
theorem parts_of_getElem? {α : Type} {l : List α} {k : ℕ} {a : α} (h : l[k]? = some a) :
    l = l.take k ++ a :: l.drop (k + 1) := by
  obtain ⟨inside, rfl⟩ := List.getElem?_eq_some_iff.mp h
  rw [List.getElem_cons_drop, List.take_append_drop]

namespace Machine

variable {K V : Type} {M : Machine K V}

theorem Event.By.unique {e : M.Event} {i : ℕ} {t t' : Thread M.Call} (by₁ : e.By i t)
    (by₂ : e.By i t') : t = t' :=
  Option.some.inj (by₁.1.symm.trans by₂.1)

/-- A step belongs to one call. -/
theorem Event.By.index_eq {e : M.Event} {i j : ℕ} {t t' : Thread M.Call} (by₁ : e.By i t)
    (by₂ : e.By j t') : i = j := by
  obtain ⟨_, _, _, label⟩ := by₁
  obtain ⟨_, _, _, label'⟩ := by₂
  rw [label] at label'
  injection label'

variable [DecidableEq K] [DecidableEq V]

/-- A call in state `p` can go on in state `q`. -/
def Resumes (p q : M.Call) : Prop :=
  ∃ (σ : Store K V) (now : ℕ) (delivery : Delivery) (choice : M.Choice) (name : Name),
    (M.await p).next σ now delivery (M.answer choice name) = some q

omit [DecidableEq K] in
/-- What every step of a call keeps, a call keeps all the way. -/
theorem keeps_of_follows {P : M.Call → Prop} (keeps : ∀ p q, P p → Resumes p q → P q)
    {p q : M.Call} (follows : Relation.TransGen Resumes p q) (init : P p) : P q := by
  induction follows with
  | single resumes => exact keeps _ _ init resumes
  | tail _ resumes ih => exact keeps _ _ ih resumes

omit [DecidableEq K] in
/-- A change to the store is made by a call. -/
theorem Event.by_of_change {e : M.Event} {c : Change K V} (h : e.change = some c) :
    ∃ i t delivery choice, e.label = .step i delivery choice ∧ e.before.threads[i]? = some t ∧
      (M.await t.call).change e.before.store e.before.now delivery = some c := by
  unfold Event.change at h
  split at h
  · rename_i i delivery choice label
    split at h
    · rename_i t there
      exact ⟨i, t, delivery, choice, label, there, h⟩
    · cases h
  · cases h

omit [DecidableEq K] in
theorem Event.change_eq {e : M.Event} {i : ℕ} {t : Thread M.Call} {delivery : Delivery}
    {choice : M.Choice} (label : e.label = .step i delivery choice)
    (there : e.before.threads[i]? = some t) :
    e.change = (M.await t.call).change e.before.store e.before.now delivery := by
  simp [Event.change, label, there]

namespace Runs

variable {ok : List M.Event → M.State → M.Lbl → Prop} {events : List M.Event} {s : M.State}

/-- A call that begins has taken no step. -/
theorem not_by_begin (run : M.Runs ok events s) {input : M.Input} :
    ∀ e ∈ (⟨s, .begin input⟩ :: events : List M.Event), ∀ t, ¬ e.By s.threads.length t := by
  intro e member t stepped
  rcases List.mem_cons.mp member with rfl | older
  · obtain ⟨_, _, _, label⟩ := stepped
    cases label
  · have inside := (List.getElem?_eq_some_iff.mp stepped.1).1
    exact absurd (run.length_le older) (Nat.not_le.mpr inside)

/-- **A property of single calls is an invariant when calls begin with it and keep it.** -/
theorem thread_invariant {I : List M.Event → ℕ → Thread M.Call → Prop}
    (older : ∀ e es i t, I es i t → (∀ t', ¬ e.By i t') → I (e :: es) i t)
    (start : ∀ es (s : M.State) input, M.Runs ok es s →
      I (⟨s, .begin input⟩ :: es) s.threads.length
        ⟨M.start ⟨s.threads.length, 0⟩ input, 1, s.now⟩)
    (step : ∀ es (s : M.State) i delivery choice t call, M.Runs ok es s →
      ok es s (.step i delivery choice) → s.threads[i]? = some t → I es i t →
      (M.await t.call).next s.store s.now delivery (M.answer choice ⟨i, t.steps⟩) = some call →
      I (⟨s, .step i delivery choice⟩ :: es) i ⟨call, t.steps + 1, s.now⟩)
    (run : M.Runs ok events s) {i : ℕ} {t : Thread M.Call} (there : s.threads[i]? = some t) :
    I events i t := by
  induction run generalizing i t with
  | nil => simp [initial] at there
  | cons run permitted taken ih =>
      rcases thread_after taken there with ⟨before, other⟩ | ⟨input, rfl, rfl, rfl⟩ |
        ⟨delivery, choice, t₀, call, rfl, before, resumed, rfl⟩
      · exact older _ _ _ _ (ih before) fun t' stepped =>
          let ⟨_, delivery, choice, label⟩ := stepped
          other delivery choice label
      · exact start _ _ _ run
      · exact step _ _ _ _ _ _ _ run permitted before (ih before) resumed

/-- What holds of a run when it holds of all the runs to its events, holds of every run. -/
theorem prefix_induction {P : List M.Event → M.State → Prop}
    (step : ∀ events s, M.Runs ok events s →
      (∀ e ∈ events, ∃ earlier, M.Runs ok earlier e.before ∧ earlier ⊆ events ∧ P earlier e.before) →
      P events s)
    (run : M.Runs ok events s) : P events s := by
  induction length : events.length using Nat.strongRecOn generalizing events s with
  | _ n ih =>
      refine step events s run fun e member => ?_
      obtain ⟨later, earlier, rfl⟩ := List.mem_iff_append.mp member
      refine ⟨earlier, run.split.1, by simp, ih earlier.length ?_ run.split.1 rfl⟩
      rw [← length, List.length_append, List.length_cons]
      omega

/-- **A call that took a step is now in a state that follows the one it stepped from.** -/
theorem follows (run : M.Runs ok events s) {i : ℕ} {t' : Thread M.Call}
    (there : s.threads[i]? = some t') :
    ∀ e ∈ events, ∀ t, e.By i t →
      Relation.TransGen Resumes t.call t'.call ∧ t.steps < t'.steps := by
  refine run.thread_invariant
    (I := fun es i t' => ∀ e ∈ es, ∀ t, e.By i t →
      Relation.TransGen Resumes t.call t'.call ∧ t.steps < t'.steps) ?_ ?_ ?_ there
  · intro e es i t' earlier other e₀ member t stepped
    rcases List.mem_cons.mp member with rfl | older
    · exact absurd stepped (other t)
    · exact earlier e₀ older t stepped
  · intro es s input run e₀ member t stepped
    exact absurd stepped (run.not_by_begin e₀ member t)
  · intro es s i delivery choice t' call run _ before earlier resumed e₀ member t stepped
    have last : Resumes t'.call call := ⟨_, _, _, _, _, resumed⟩
    rcases List.mem_cons.mp member with rfl | older
    · obtain rfl : t' = t := Option.some.inj (before.symm.trans stepped.1)
      exact ⟨.single last, Nat.lt_succ_self _⟩
    · obtain ⟨path, below⟩ := earlier e₀ older t stepped
      exact ⟨path.tail last, Nat.lt_succ_of_lt below⟩

/-- **What the later steps of one call keep, holds of it in the end.** -/
theorem carry_thread {P : M.Call → Prop} {later earlier : List M.Event} {s₀ : M.State}
    (run₀ : M.Runs ok earlier s₀) (run : M.Runs ok (later ++ earlier) s) {i : ℕ}
    {t₀ : Thread M.Call} (there₀ : s₀.threads[i]? = some t₀) (init : P t₀.call)
    (step : ∀ e ∈ later, ∀ t delivery choice call, e.label = .step i delivery choice →
      e.before.threads[i]? = some t → P t.call →
      (M.await t.call).next e.before.store e.before.now delivery (M.answer choice ⟨i, t.steps⟩) =
        some call → P call) :
    ∃ t, s.threads[i]? = some t ∧ P t.call := by
  induction later generalizing s with
  | nil =>
      obtain rfl := run₀.unique run
      exact ⟨t₀, there₀, init⟩
  | cons e later ih =>
      cases run with
      | cons run permitted taken =>
          obtain ⟨t, there, holds⟩ := ih run fun e' member => step e' (List.mem_cons_of_mem _ member)
          rcases thread_persists taken there with same | ⟨delivery, choice, call, label, resumed, after⟩
          · exact ⟨t, same, holds⟩
          · refine ⟨_, after, ?_⟩
            exact step _ (List.mem_cons_self ..) t delivery choice call label there holds resumed

/-- **A call that is over takes no further step.** -/
theorem no_step_of_finished {later earlier : List M.Event} {s₀ : M.State}
    (run₀ : M.Runs ok earlier s₀) (run : M.Runs ok (later ++ earlier) s) {i : ℕ}
    {t₀ : Thread M.Call} (there₀ : s₀.threads[i]? = some t₀)
    (finished : M.await t₀.call = .finished) :
    s.threads[i]? = some t₀ ∧ ∀ e ∈ later, ∀ t, ¬ e.By i t := by
  induction later generalizing s with
  | nil =>
      obtain rfl := run₀.unique run
      exact ⟨there₀, by simp⟩
  | cons e later ih =>
      cases run with
      | @cons _ s₁ _ label run _ taken =>
          obtain ⟨there, none⟩ := ih run
          have idle : ∀ delivery choice, label ≠ .step i delivery choice := by
            rintro delivery choice rfl
            obtain ⟨call, resumed, _⟩ := thread_of_step taken there
            rw [finished] at resumed
            cases resumed
          refine ⟨?_, fun e member t stepped => ?_⟩
          · rcases thread_persists taken there with same | ⟨delivery, choice, _, stepped, _⟩
            · exact same
            · exact absurd stepped (idle delivery choice)
          · rcases List.mem_cons.mp member with rfl | newer
            · obtain ⟨_, delivery, choice, stepped⟩ := stepped
              exact idle delivery choice stepped
            · exact none e newer t stepped

/-- A step of a call happens once. -/
theorem step_once {later earlier : List M.Event} {e : M.Event}
    (run : M.Runs ok (later ++ e :: earlier) s) {i : ℕ} {t : Thread M.Call} (by₁ : e.By i t) :
    e ∉ later := by
  intro again
  obtain ⟨after, between, rfl⟩ := List.mem_iff_append.mp again
  rw [List.append_assoc, List.cons_append] at run
  have below := (run.split.1.follows by₁.1 e (by simp) t by₁).2
  exact absurd below (Nat.lt_irrefl _)

/-- A step of a call has not been taken before. -/
theorem new_of_step {e : M.Event} (run : M.Runs ok (e :: events) s) {i : ℕ} {t : Thread M.Call}
    (by₁ : e.By i t) : e ∉ events := by
  intro again
  obtain ⟨later, earlier, rfl⟩ := List.mem_iff_append.mp again
  have whole : M.Runs ok ((e :: later) ++ e :: earlier) s := run
  exact whole.step_once by₁ (List.mem_cons_self ..)

/-- Of two steps of one call, one follows the other. -/
theorem ordered (run : M.Runs ok events s) {i : ℕ} {e e' : M.Event} {t t' : Thread M.Call}
    (member : e ∈ events) (member' : e' ∈ events) (by₁ : e.By i t) (by₂ : e'.By i t') :
    e = e' ∨ Relation.TransGen Resumes t.call t'.call ∨
      Relation.TransGen Resumes t'.call t.call := by
  induction run with
  | nil => cases member
  | cons run _ _ ih =>
      rcases List.mem_cons.mp member with rfl | older
      · rcases List.mem_cons.mp member' with rfl | older'
        · exact .inl rfl
        · exact .inr (.inr (run.follows by₁.1 e' older' t' by₂).1)
      · rcases List.mem_cons.mp member' with rfl | older'
        · exact .inr (.inl (run.follows by₂.1 e older t by₁).1)
        · exact ih older older'

/-- What a key holds was written by the last step that changed the key. -/
theorem writer (run : M.Runs ok events s) {key : K} {entry : Entry V}
    (there : s.store key = some entry) :
    ∃ later e earlier, events = later ++ e :: earlier ∧ e.change = some (key, some entry) ∧
      ∀ e' ∈ later, ∀ x, e'.change ≠ some (key, x) := by
  induction run with
  | nil => simp [initial, Store.empty] at there
  | @cons events s s' label run _ taken ih =>
      rw [step_store taken] at there
      by_cases same : s.store.applyChange (Event.change (⟨s, label⟩ : M.Event)) key = s.store key
      · by_cases written : Event.change (⟨s, label⟩ : M.Event) = some (key, some entry)
        · exact ⟨[], _, events, rfl, written, by simp⟩
        · rw [same] at there
          obtain ⟨later, e, earlier, rfl, change, untouched⟩ := ih there
          refine ⟨⟨s, label⟩ :: later, e, earlier, rfl, change, ?_⟩
          intro e' member x touched
          rcases List.mem_cons.mp member with rfl | older
          · rw [touched, Store.applyChange_same] at same
            rw [touched, same, there] at written
            exact written rfl
          · exact untouched e' older x touched
      · refine ⟨[], _, events, rfl, ?_, by simp⟩
        rw [Store.change_of_ne _ same, there]

/-- A key that no step changed holds what it held. -/
theorem store_of_untouched {later earlier : List M.Event} {s₀ : M.State} {key : K}
    (run₀ : M.Runs ok earlier s₀) (run : M.Runs ok (later ++ earlier) s)
    (untouched : ∀ e ∈ later, ∀ x, e.change ≠ some (key, x)) :
    s.store key = s₀.store key := by
  induction later generalizing s with
  | nil => rw [run₀.unique run]
  | cons e later ih =>
      cases run with
      | cons run _ taken =>
          rw [step_store taken,
            Store.applyChange_of_forall_ne _ (untouched _ (List.mem_cons_self ..))]
          exact ih run fun e' member => untouched e' (List.mem_cons_of_mem _ member)

/-- **A call has just begun, or a step of its own led to the state it is in.** -/
theorem entered (run : M.Runs ok events s) {i : ℕ} {t : Thread M.Call}
    (there : s.threads[i]? = some t) :
    (∃ input, t.call = M.start ⟨i, 0⟩ input) ∨ ∃ e ∈ events, ∃ delivery choice t₀,
      e.label = .step i delivery choice ∧ e.before.threads[i]? = some t₀ ∧
      (M.await t₀.call).next e.before.store e.before.now delivery
        (M.answer choice ⟨i, t₀.steps⟩) = some t.call := by
  refine run.thread_invariant
    (I := fun es i t => (∃ input, t.call = M.start ⟨i, 0⟩ input) ∨
      ∃ e ∈ es, ∃ delivery choice t₀, e.label = .step i delivery choice ∧
        e.before.threads[i]? = some t₀ ∧
        (M.await t₀.call).next e.before.store e.before.now delivery
          (M.answer choice ⟨i, t₀.steps⟩) = some t.call) ?_ ?_ ?_ there
  · intro e es i t earlier _
    rcases earlier with begun | ⟨e₀, older, stepped⟩
    · exact .inl begun
    · exact .inr ⟨e₀, List.mem_cons_of_mem _ older, stepped⟩
  · intro es s input _
    exact .inl ⟨input, rfl⟩
  · intro es s i delivery choice t call _ _ before _ resumed
    exact .inr ⟨_, List.mem_cons_self .., delivery, choice, t, rfl, before, resumed⟩

/-- A later event starts where a run ends that goes on from the earlier ones. -/
theorem split_later {later earlier : List M.Event} {e : M.Event}
    (run : M.Runs ok (later ++ earlier) s) (member : e ∈ later) :
    ∃ newer older, later = newer ++ e :: older ∧ M.Runs ok (older ++ earlier) e.before ∧
      ok (older ++ earlier) e.before e.label ∧ e.before.now ≤ s.now := by
  obtain ⟨newer, older, rfl⟩ := List.mem_iff_append.mp member
  rw [List.append_assoc, List.cons_append] at run
  obtain ⟨before, permitted, _⟩ := run.split
  exact ⟨newer, older, rfl, before, permitted,
    run.now_le (List.mem_append_right _ (List.mem_cons_self ..))⟩

/-- **What is gone was deleted while it was there.** -/
theorem removed_between {later earlier : List M.Event} {s₀ : M.State} {key : K}
    (run₀ : M.Runs ok earlier s₀) (run : M.Runs ok (later ++ earlier) s)
    (there : s₀.store key ≠ none) (gone : s.store key = none) :
    ∃ newer e older, later = newer ++ e :: older ∧ e.before.store key ≠ none ∧
      e.change = some (key, none) := by
  induction later generalizing s with
  | nil =>
      rw [run₀.unique run] at there
      exact absurd gone there
  | cons e later ih =>
      cases run with
      | @cons _ s₁ _ label run _ taken =>
          by_cases before : s₁.store key = none
          · obtain ⟨newer, e', older, rfl, present, change⟩ := ih run before
            exact ⟨_ :: newer, e', older, rfl, present, change⟩
          · refine ⟨[], _, later, rfl, before, ?_⟩
            rw [← gone, step_store taken]
            refine Store.change_of_ne _ fun same => before ?_
            rw [← same, ← step_store taken, gone]

/-- What is gone was deleted. -/
theorem deleted_between {later earlier : List M.Event} {s₀ : M.State} {key : K}
    (run₀ : M.Runs ok earlier s₀) (run : M.Runs ok (later ++ earlier) s)
    (there : s₀.store key ≠ none) (gone : s.store key = none) :
    ∃ e ∈ later, e.change = some (key, none) := by
  induction later generalizing s with
  | nil =>
      rw [run₀.unique run] at there
      exact absurd gone there
  | cons e later ih =>
      cases run with
      | @cons _ s₁ _ label run _ taken =>
          by_cases before : s₁.store key = none
          · obtain ⟨e', member, change⟩ := ih run before
            exact ⟨e', List.mem_cons_of_mem _ member, change⟩
          · refine ⟨_, List.mem_cons_self .., ?_⟩
            rw [← gone, step_store taken]
            refine Store.change_of_ne _ fun same => before ?_
            rw [← same, ← step_store taken, gone]

end Runs

/-! ## Entries that are only replaced when they have expired -/

/-- The key holds an entry that expires no earlier than an instant. -/
def HeldUntil (s : M.State) (key : K) (instant : ℕ) : Prop :=
  ∃ entry, s.store key = some entry ∧ instant ≤ entry.expires

/-- The step, if it changes the key, finds it free and writes a value with a lifetime. -/
def Event.Fills (e : M.Event) (key : K) : Prop :=
  ∀ x, e.change = some (key, x) → e.before.store.live e.before.now key = none ∧
    ∃ value ttl, x = some ⟨value, e.before.now + ttl⟩

/-- An entry stays, or another takes its place when it has expired. -/
theorem HeldUntil.step {s s' : M.State} {label : M.Lbl} {key : K} {instant : ℕ}
    (held : HeldUntil s key instant) (taken : M.step s label = some s')
    (fills : Event.Fills (⟨s, label⟩ : M.Event) key) : HeldUntil s' key instant := by
  obtain ⟨entry, there, late⟩ := held
  unfold HeldUntil
  rw [step_store taken]
  by_cases same : s.store.applyChange (Event.change (⟨s, label⟩ : M.Event)) key = s.store key
  · exact ⟨entry, by rw [same, there], late⟩
  · obtain ⟨vacant, value, ttl, written⟩ := fills _ (Store.change_of_ne _ same)
    refine ⟨_, written, ?_⟩
    have expired : entry.expires ≤ s.now := by
      by_contra live
      rw [Store.live_of_entry there (Nat.lt_of_not_le live)] at vacant
      cases vacant
    show instant ≤ s.now + ttl
    omega

/-- **A key that is only filled when it is free is held until its first entry expires.** -/
theorem Runs.heldUntil {ok : List M.Event → M.State → M.Lbl → Prop} {later earlier : List M.Event}
    {s : M.State} {e : M.Event} {key : K} {value : V} {expires : ℕ}
    (run : M.Runs ok (later ++ e :: earlier) s)
    (written : e.change = some (key, some ⟨value, expires⟩))
    (fills : ∀ e' ∈ later, e'.Fills key) : HeldUntil s key expires := by
  induction later generalizing s with
  | nil =>
      cases run with
      | cons run _ taken =>
          refine ⟨⟨value, expires⟩, ?_, Nat.le_refl _⟩
          rw [step_store taken, written, Store.applyChange_same]
  | cons e' later ih =>
      cases run with
      | cons run _ taken =>
          have held := ih run fun e'' member => fills e'' (List.mem_cons_of_mem _ member)
          exact held.step taken (fills _ (List.mem_cons_self ..))

/-! ## Calls that get somewhere -/

/-- From this state a call gets to a state in `goal` and leaves the store as it is, when the
store answers it and its questions get suitable answers. -/
inductive Leads (σ : Store K V) (now : ℕ) (goal : M.Call → Prop) : M.Call → Prop where
  | here {p : M.Call} (reached : goal p) : Leads σ now goal p
  | step {p : M.Call} (choice : M.Choice) (next : Name → M.Call)
      (resumes : ∀ name,
        (M.await p).next σ now .answered (M.answer choice name) = some (next name))
      (unchanged : (M.await p).change σ now .answered = none)
      (rest : ∀ name, Leads σ now goal (next name)) : Leads σ now goal p

/-- **A call that can get somewhere does in some continuation of the run.** -/
theorem Runs.exists_of_leads {σ : Store K V} {now : ℕ} {goal : M.Call → Prop} {p : M.Call}
    (leads : Leads σ now goal p) {events : List M.Event} {threads : List (Thread M.Call)}
    (run : M.Runs M.anyStep events ⟨σ, now, threads⟩) {i steps since : ℕ}
    (there : threads[i]? = some ⟨p, steps, since⟩) :
    ∃ later threads', M.Runs M.anyStep (later ++ events) ⟨σ, now, threads'⟩ ∧
      ∃ t, threads'[i]? = some t ∧ goal t.call := by
  induction leads generalizing events threads steps since with
  | here reached => exact ⟨[], threads, run, _, there, reached⟩
  | step choice next resumes unchanged _ ih =>
      have inside : i < threads.length := (List.getElem?_eq_some_iff.mp there).1
      have taken : M.step ⟨σ, now, threads⟩ (.step i .answered choice) =
          some ⟨σ, now, threads.set i ⟨next ⟨i, steps⟩, steps + 1, now⟩⟩ := by
        simp [Machine.step, there, resumes, unchanged]
      obtain ⟨later, threads', run', reached⟩ := ih ⟨i, steps⟩ (.cons run trivial taken)
        (List.getElem?_set_self inside)
      exact ⟨later ++ [⟨_, _⟩], threads', by simpa using run', reached⟩

/-- Answered steps that all get this choice take the call `i` and the store from one state to
another. The call has taken `n` steps before and `n'` after them. -/
inductive Drives (i now : ℕ) (choice : M.Choice) (through : M.Call → Prop) :
    Store K V → M.Call → ℕ → Store K V → M.Call → ℕ → Prop where
  | here (σ : Store K V) (p : M.Call) (n : ℕ) : Drives i now choice through σ p n σ p n
  | step {σ σ' : Store K V} {p q p' : M.Call} {n n' : ℕ} (passes : through p)
      (resumes : (M.await p).next σ now .answered (M.answer choice ⟨i, n⟩) = some q)
      (rest : Drives i now choice through
        (σ.applyChange ((M.await p).change σ now .answered)) q (n + 1) σ' p' n') :
      Drives i now choice through σ p n σ' p' n'

theorem Drives.trans {i now : ℕ} {choice : M.Choice} {through : M.Call → Prop}
    {σ σ' σ'' : Store K V} {p p' p'' : M.Call} {n n' n'' : ℕ}
    (first : Drives i now choice through σ p n σ' p' n')
    (second : Drives i now choice through σ' p' n' σ'' p'' n'') :
    Drives i now choice through σ p n σ'' p'' n'' := by
  induction first with
  | here => exact second
  | step passes resumes _ ih => exact .step passes resumes (ih second)

/-- **A call that is driven somewhere gets there in a continuation of the run**, in which no other
call steps. -/
theorem Runs.exists_of_drives {ok : List M.Event → M.State → M.Lbl → Prop} {i now : ℕ}
    {choice : M.Choice} {through : M.Call → Prop} {σ σ' : Store K V} {p p' : M.Call} {n n' : ℕ}
    (drives : Drives i now choice through σ p n σ' p' n')
    (permitted : ∀ es (s : M.State) t, s.now = now → s.threads[i]? = some t → through t.call →
      ok es s (.step i .answered choice))
    {events : List M.Event} {threads : List (Thread M.Call)}
    (run : M.Runs ok events ⟨σ, now, threads⟩) {since : ℕ} (there : threads[i]? = some ⟨p, n, since⟩) :
    ∃ later since', M.Runs ok (later ++ events) ⟨σ', now, threads.set i ⟨p', n', since'⟩⟩ ∧
      ∀ e ∈ later, e.label = .step i .answered choice := by
  induction drives generalizing events threads since with
  | here σ p n =>
      obtain ⟨inside, here⟩ := List.getElem?_eq_some_iff.mp there
      refine ⟨[], since, ?_, by simp⟩
      rw [← here, List.set_getElem_self]
      exact run
  | @step σ σ' p q p' n n' passes resumes _ ih =>
      have inside : i < threads.length := (List.getElem?_eq_some_iff.mp there).1
      have taken : M.step ⟨σ, now, threads⟩ (.step i .answered choice) =
          some ⟨σ.applyChange ((M.await p).change σ now .answered), now,
            threads.set i ⟨q, n + 1, now⟩⟩ := by
        simp [Machine.step, there, resumes]
      obtain ⟨later, since', run', labels⟩ := ih
        (.cons run (permitted events _ _ rfl there passes) taken) (List.getElem?_set_self inside)
      rw [List.set_set] at run'
      refine ⟨later ++ [⟨_, _⟩], since', by simpa using run', fun e member => ?_⟩
      rcases List.mem_append.mp member with newer | first
      · exact labels e newer
      · rw [List.mem_singleton.mp first]

/-! ## Values written once -/

/-- The step writes the value. -/
def Event.Writes (e : M.Event) (value : V) : Prop :=
  ∃ key expires, e.change = some (key, some ⟨value, expires⟩)

/-- Values that carry the name of the draw that made them: a call writes such a value
only while it is `pending`, a value becomes pending in the step it is named after, and
writing it ends that. -/
structure Fresh (M : Machine K V) (tag : V → Option Name) (pending : M.Call → Option V) :
    Prop where
  start : ∀ name input value, pending (M.start name input) = some value → tag value = none
  writes : ∀ {p : M.Call} {σ now delivery key value expires name},
    (M.await p).change σ now delivery = some (key, some ⟨value, expires⟩) →
    tag value = some name → pending p = some value
  next : ∀ {p q : M.Call} {σ now delivery choice step value name},
    (M.await p).next σ now delivery (M.answer choice step) = some q →
    pending q = some value → tag value = some name →
    (pending p = some value ∧ (M.await p).change σ now delivery = none) ∨ name = step

namespace Fresh

variable {tag : V → Option Name} {pending : M.Call → Option V} (fresh : Fresh M tag pending)
variable {ok : List M.Event → M.State → M.Lbl → Prop} {events : List M.Event} {s : M.State}

include fresh

/-- A pending value is named after a draw of its call and unwritten; a written value is
named after a draw. -/
theorem invariant (run : M.Runs ok events s) :
    (∀ i t value name, s.threads[i]? = some t → pending t.call = some value →
      tag value = some name → name.call = i ∧ name.step < t.steps ∧
        ∀ e ∈ events, ¬ e.Writes value) ∧
    (∀ e ∈ events, ∀ value name, e.Writes value → tag value = some name → Drawn s name) := by
  induction run with
  | nil => exact ⟨by simp [initial], by simp⟩
  | @cons events s s' label run _ taken ih =>
      obtain ⟨pendingOk, drawn⟩ := ih
      -- the value a step writes was pending in the call that takes the step
      have written : ∀ value name, Event.Writes (⟨s, label⟩ : M.Event) value →
          tag value = some name → ∃ i t delivery choice, label = .step i delivery choice ∧
            s.threads[i]? = some t ∧ name.call = i ∧ name.step < t.steps := by
        rintro value name ⟨key, expires, change⟩ tagged
        obtain ⟨i, t, delivery, choice, rfl, there, made⟩ := Event.by_of_change change
        have facts := pendingOk i t value name there (fresh.writes made tagged) tagged
        exact ⟨i, t, delivery, choice, rfl, there, facts.1, facts.2.1⟩
      refine ⟨fun i t' value name there waiting tagged => ?_,
        fun e member value name writes tagged => ?_⟩
      · rcases thread_after taken there with ⟨before, other⟩ | ⟨input, rfl, rfl, rfl⟩ |
          ⟨delivery, choice, t, call, rfl, before, resumed, rfl⟩
        · obtain ⟨mine, below, unwritten⟩ := pendingOk i t' value name before waiting tagged
          refine ⟨mine, below, fun e member writes => ?_⟩
          rcases List.mem_cons.mp member with rfl | older
          · obtain ⟨j, _, delivery, choice, rfl, _, theirs, _⟩ := written value name writes tagged
            obtain rfl : i = j := mine.symm.trans theirs
            exact other delivery choice rfl
          · exact unwritten e older writes
        · rw [fresh.start _ _ _ waiting] at tagged
          cases tagged
        · rcases fresh.next resumed waiting tagged with ⟨earlier, unchanged⟩ | rfl
          · obtain ⟨mine, below, unwritten⟩ := pendingOk i t value name before earlier tagged
            refine ⟨mine, Nat.lt_succ_of_lt below, fun e member writes => ?_⟩
            rcases List.mem_cons.mp member with rfl | older
            · obtain ⟨key, expires, change⟩ := writes
              rw [Event.change_eq rfl before, unchanged] at change
              cases change
            · exact unwritten e older writes
          · refine ⟨rfl, Nat.lt_succ_self _, fun e member writes => ?_⟩
            rcases List.mem_cons.mp member with rfl | older
            · obtain ⟨_, t₀, _, _, label, there₀, mine, below⟩ := written value _ writes tagged
              injection label with same
              subst same
              obtain rfl : t = t₀ := Option.some.inj (before.symm.trans there₀)
              exact absurd below (Nat.lt_irrefl _)
            · exact not_drawn_next before (drawn e older value _ writes tagged)
      · rcases List.mem_cons.mp member with rfl | older
        · obtain ⟨i, t, _, _, _, there, mine, below⟩ := written value name writes tagged
          exact Drawn.step taken ⟨t, mine ▸ there, below⟩
        · exact Drawn.step taken (drawn e older value name writes tagged)

/-- **No value is written twice.** -/
theorem written_once {later earlier : List M.Event} {e : M.Event} {value : V} {name : Name}
    (run : M.Runs ok (later ++ e :: earlier) s) (writes : e.Writes value)
    (tagged : tag value = some name) : ∀ e' ∈ earlier, ¬ e'.Writes value := by
  obtain ⟨key, expires, change⟩ := writes
  obtain ⟨i, t, delivery, choice, label, there, made⟩ := Event.by_of_change change
  exact ((fresh.invariant run.split.1).1 i t value name there (fresh.writes made tagged)
    tagged).2.2

/-- **A value that a key holds at two instants was there all the time between them.** -/
theorem untouched {later earlier : List M.Event} {s₀ : M.State} {key : K} {entry₀ entry : Entry V}
    {name : Name} (run₀ : M.Runs ok earlier s₀) (run : M.Runs ok (later ++ earlier) s)
    (there₀ : s₀.store key = some entry₀) (there : s.store key = some entry)
    (same : entry.value = entry₀.value) (tagged : tag entry.value = some name) :
    ∀ e ∈ later, ∀ x, e.change ≠ some (key, x) := by
  obtain ⟨after₀, e₀, before₀, rfl, change₀, _⟩ := run₀.writer there₀
  obtain ⟨after, e, before, parts, change, untouched⟩ := run.writer there
  have writes₀ : e₀.Writes entry.value := ⟨key, entry₀.expires, by rw [change₀, same]⟩
  have writes : e.Writes entry.value := ⟨key, entry.expires, change⟩
  rcases List.append_eq_append_iff.mp parts with ⟨rest, rfl, _⟩ | ⟨rest, rfl, older⟩
  · exact fun e' member => untouched e' (List.mem_append_left _ member)
  · cases rest with
    | nil => simpa using untouched
    | cons _ rest =>
        -- the value would have been written before `e` already
        injection older with _ older
        rw [parts] at run
        refine absurd writes₀ (fresh.written_once run writes tagged e₀ ?_)
        rw [older]
        simp

end Fresh

end Machine

end OAuthRelay.Async
