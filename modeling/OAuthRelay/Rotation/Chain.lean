import OAuthRelay.Async.Chain
import OAuthRelay.Rotation.Replay

/-!
# The chain of a family

The handles of a family are a chain: the one its founder wrote a record for, and behind each
rotated handle its successor. Every handle that was handed out leads to the last, which is
not rotated (`chain_of_family`), and the family's head and the keys that a revocation erases
from are on the chain.

Handles are random. A record can be found under a handle only by somebody who was given it, so
a run is `Unguessed` when no call finds a record before its handle was handed out. In such a run
a record that was handed out stays until its family is revoked (`stored_of_handedOut`) or expires
(`live_of_handedOut`): only a revocation erases it, and only a winner that found the marker takes
it back.
-/

set_option autoImplicit false

namespace OAuthRelay.Rotation

open OAuthRelay.Async OAuthRelay.Async.Machine

variable {R : Rotator} {ok : List R.machine.Event → R.machine.State → R.machine.Lbl → Prop}
  {events : List R.machine.Event} {s : R.machine.State}

/-! ## Handing out -/

/-- The handle that a step hands out, with its family: the first of a family, or the successor
of a rotation. -/
def handsOut? (e : R.machine.Event) : Option (Name × (Name × ℕ)) :=
  if e.change.isSome then
    match e.label.index?.bind fun i => e.before.threads[i]?.map Thread.call with
    | some (.founding (.putRecord family _)) =>
        some (family.creation.handle, family.record.family)
    | some (.rotating _ (.swapRotated attempt _)) =>
        some (attempt.successorHandle, attempt.claim.family)
    | _ => none
  else none

/-- The handle was handed out, as one of the family. -/
def HandedOut (events : List R.machine.Event) (k : Name) (family : Name × ℕ) : Prop :=
  ∃ e ∈ events, handsOut? e = some (k, family)

/-- A call finds a record only under a handle that was handed out. -/
def Unguessed (R : Rotator) (events : List R.machine.Event) (s : R.machine.State)
    (label : R.machine.Lbl) : Prop :=
  ∀ i h, At (⟨s, label⟩ : R.machine.Event) i h .load → s.store.live s.now (.handle h) ≠ none →
    ∃ family, HandedOut events h family

/-- Whether a step guesses no handle. -/
def unguessedly (events : List R.machine.Event) (s : R.machine.State) (label : R.machine.Lbl) :
    Bool :=
  match label.index?.bind fun i => s.threads[i]?.map Thread.call with
  | some (.rotating h .load) =>
      (s.store.live s.now (.handle h)).isNone ||
        events.any fun e => (handsOut? e).any fun given => given.1 = h
  | _ => true

theorem unguessed_of_unguessedly {label : R.machine.Lbl}
    (holds : unguessedly events s label = true) : Unguessed R events s label := by
  intro i h step live
  obtain ⟨index, there⟩ := at_iff.mp step
  simp only [unguessedly, show label.index? = some i from index, Option.bind_some, there,
    Bool.or_eq_true, Option.isNone_iff_eq_none, List.any_eq_true, Option.any_eq_true,
    decide_eq_true_eq] at holds
  obtain absent | ⟨e, member, ⟨k, family⟩, hands, rfl⟩ := holds
  · exact absurd absent live
  · exact ⟨family, e, member, hands⟩

theorem HandedOut.mono {events' : List R.machine.Event} (inside : events ⊆ events') {k : Name}
    {family : Name × ℕ} (handed : HandedOut events k family) : HandedOut events' k family := by
  obtain ⟨e, member, hands⟩ := handed
  exact ⟨e, inside member, hands⟩

theorem Rotates.handsOut {e : R.machine.Event} {i : ℕ} {h : Name} {attempt : Attempt}
    (rotates : Rotates e i h attempt) :
    handsOut? e = some (attempt.successorHandle, attempt.claim.family) := by
  obtain ⟨rotated, step, _, change⟩ := rotates
  obtain ⟨label, there⟩ := at_iff.mp step
  simp [handsOut?, change, label, there]

/-- The call that drew a family's id writes its first record. -/
theorem Founding.owner {e : R.machine.Event} (run : R.machine.Runs ok events e.before) {i : ℕ}
    {creating : Family} {bytes : Value} (step : Founding e i (.putRecord creating bytes)) :
    creating.familyId.call = i := by
  obtain ⟨⟨call, steps, since⟩, by₁, rfl⟩ := step
  exact (founding_formed run by₁.1).1.2

theorem Founding.drew {e : R.machine.Event} (run : R.machine.Runs ok events e.before) {i : ℕ}
    {creating : Family} {bytes : Value} (step : Founding e i (.putRecord creating bytes)) :
    creating.creation.handle.call = i := by
  obtain ⟨⟨call, steps, since⟩, by₁, rfl⟩ := step
  exact (founding_formed run by₁.1).1.1

/-- A step is one rotation. -/
theorem Rotates.same {e : R.machine.Event} {i j : ℕ} {h h' : Name} {attempt attempt' : Attempt}
    (rotates : Rotates e i h attempt) (rotates' : Rotates e j h' attempt') :
    h = h' ∧ attempt = attempt' := by
  obtain ⟨_, ⟨t, by₁, call⟩, _⟩ := rotates
  obtain ⟨_, ⟨t', by₂, call'⟩, _⟩ := rotates'
  obtain rfl := by₁.index_eq by₂
  rw [by₁.unique by₂, call'] at call
  cases call
  exact ⟨rfl, rfl⟩

/-- A step that hands out a handle writes a family's first record or rotates a handle. -/
theorem handsOut_cases {e : R.machine.Event} (run : R.machine.Runs ok events e.before) {k : Name}
    {family : Name × ℕ} (hands : handsOut? e = some (k, family)) :
    (∃ i creating bytes, Founding e i (.putRecord creating bytes) ∧
      creating.creation.handle = k ∧ creating.record.family = family ∧
      e.change = some (.handle k, some ⟨bytes, e.before.now + creating.ttl⟩)) ∨
    ∃ i h attempt, Rotates e i h attempt ∧ attempt.successorHandle = k ∧
      attempt.claim.family = family := by
  unfold handsOut? at hands
  split at hands
  · rename_i changed
    obtain ⟨c, change⟩ := Option.isSome_iff_exists.mp changed
    split at hands
    · rename_i creating bytes there
      cases hands
      obtain ⟨i, label, found⟩ := Option.bind_eq_some_iff.mp there
      obtain ⟨t, thread, call⟩ := Option.map_eq_some_iff.mp found
      have step : Founding e i (.putRecord creating bytes) :=
        ⟨t, ⟨thread, Label.index?_eq_some_iff.mp label⟩, call⟩
      refine .inl ⟨i, creating, bytes, step, rfl, rfl, ?_⟩
      cases changes run rfl change with
      | refresh j h p step' =>
          obtain ⟨t', by₂, call'⟩ := step'
          obtain rfl := Event.By.index_eq ⟨thread, Label.index?_eq_some_iff.mp label⟩ by₂
          rw [Option.some.inj (thread.symm.trans by₂.1), call'] at call
          cases call
      | creation j p step' formed alters =>
          obtain ⟨t', by₂, call'⟩ := step'
          obtain rfl := Event.By.index_eq ⟨thread, Label.index?_eq_some_iff.mp label⟩ by₂
          rw [Option.some.inj (thread.symm.trans by₂.1), call'] at call
          cases call
          cases alters with
          | record => exact change
    · rename_i h attempt rotated there
      cases hands
      obtain ⟨i, label, found⟩ := Option.bind_eq_some_iff.mp there
      have step : At e i h (.swapRotated attempt rotated) := at_iff.mpr ⟨label, found⟩
      refine .inr ⟨i, h, attempt, ⟨rotated, step, (step.formed run).2, ?_⟩, rfl, rfl⟩
      cases step.alters change with
      | rotate => exact change
    · cases hands
  · cases hands

/-- The step that wrote the first record of a handle that is handed out. -/
theorem birth_of_handsOut (run : R.machine.Runs ok events s) {e : R.machine.Event}
    (member : e ∈ events) {k : Name} {family : Name × ℕ} (hands : handsOut? e = some (k, family)) :
    ∃ e₀ ∈ events, BirthsInto e₀ k family ∧ ∃ entry, e₀.change = some (.handle k, some entry) := by
  obtain ⟨earlier, run₀, _, inside⟩ := run.of_mem member
  rcases handsOut_cases run₀ hands with ⟨i, creating, bytes, step, handle, same, change⟩ |
    ⟨i, h, attempt, rotates, rfl, rfl⟩
  · exact ⟨e, member, .inl ⟨i, creating, bytes, step, handle, same⟩, _, change⟩
  · obtain ⟨rotated, step, _⟩ := rotates
    obtain ⟨_, _, there⟩ := step.thread
    obtain ⟨e₀, older, successor, puts, change⟩ :=
      succeeded_of_prepared run₀ there (.inr ⟨rotated, rfl⟩)
    exact ⟨e₀, inside older, .inr ⟨i, h, attempt, successor, puts, rfl, rfl⟩, _, change⟩

theorem HandedOut.family_eq (run : R.machine.Runs ok events s) {k : Name}
    {family family' : Name × ℕ} (handed : HandedOut events k family)
    (belongs : InFamily events k family') : family = family' := by
  obtain ⟨e, member, hands⟩ := handed
  obtain ⟨e₀, member₀, births, _⟩ := birth_of_handsOut run member hands
  obtain ⟨e₁, member₁, entry, record, there, sealed, rfl⟩ := belongs
  obtain ⟨_, run₁, _, inside₁⟩ := run.of_mem member₁
  obtain ⟨e₂, older, births'⟩ := birthsInto_of_store run₁ there sealed
  exact births.unique run member₀ (inside₁ older) births'

/-- The stored record of a handle that was handed out is of its family. -/
theorem HandedOut.family_of_stored (run : R.machine.Runs ok events s) {k : Name}
    {family : Name × ℕ} (handed : HandedOut events k family) {entry : Entry Value} {record : Record}
    (there : s.store (.handle k) = some entry) (sealed : Sealed k record entry.value) :
    record.family = family := by
  obtain ⟨e, older, births⟩ := birthsInto_of_store run there sealed
  obtain ⟨e₁, member₁, hands⟩ := handed
  obtain ⟨e₂, member₂, births', _⟩ := birth_of_handsOut run member₁ hands
  exact births.unique run older member₂ births'

/-- **A handle is handed out in one step.** -/
theorem handsOut_unique (run : R.machine.Runs ok events s) {e e' : R.machine.Event}
    (member : e ∈ events) (member' : e' ∈ events) {k : Name} {family family' : Name × ℕ}
    (hands : handsOut? e = some (k, family)) (hands' : handsOut? e' = some (k, family')) :
    e = e' ∧ family = family' := by
  have event : e = e' := by
    obtain ⟨_, run₀, _, inside₀⟩ := run.of_mem member
    obtain ⟨_, run₁, _, inside₁⟩ := run.of_mem member'
    -- a family's first handle is no successor
    have mixed : ∀ {e₁ e₂ : R.machine.Event} {i j : ℕ} {h : Name} {creating : Family}
        {bytes : Value} {attempt : Attempt}, e₁ ∈ events → e₂ ∈ events →
        Founding e₁ i (.putRecord creating bytes) → creating.creation.handle = k →
        Rotates e₂ j h attempt → attempt.successorHandle ≠ k := by
      intro e₁ e₂ i j h creating bytes attempt member₁ member₂ founding first rotates handle
      obtain ⟨rotated, step, _⟩ := rotates
      obtain ⟨_, run₂, _⟩ := run.of_mem member₁
      obtain ⟨_, run₃, _⟩ := run.of_mem member₂
      have mine : k.call = i := first ▸ founding.drew run₂
      have mine' : k.call = j := handle ▸ (step.formed run₃).1.2
      obtain rfl : i = j := mine.symm.trans mine'
      exact not_at_of_founding run member₁ member₂ founding step
    rcases handsOut_cases run₀ hands with ⟨i, creating, bytes, step, handle, _⟩ |
      ⟨i, h, attempt, rotates, handle, _⟩
    · rcases handsOut_cases run₁ hands' with ⟨i', creating', bytes', step', handle', _⟩ |
        ⟨i', h', attempt', rotates', handle', _⟩
      · exact Births.unique run member member' (.inl ⟨i, creating, bytes, step, handle⟩)
          (.inl ⟨i', creating', bytes', step', handle'⟩)
      · exact absurd handle' (mixed member member' step handle rotates')
    · rcases handsOut_cases run₁ hands' with ⟨i', creating', bytes', step', handle', _⟩ |
        ⟨i', h', attempt', rotates', handle', _⟩
      · exact absurd handle (mixed member' member step' handle' rotates)
      · obtain ⟨rotated, step, _⟩ := rotates
        obtain ⟨rotated', step', _⟩ := rotates'
        have mine : k.call = i := handle ▸ (step.formed run₀).1.2
        have mine' : k.call = i' := handle' ▸ (step'.formed run₁).1.2
        obtain rfl : i = i' := mine.symm.trans mine'
        obtain ⟨t, by₁, call⟩ := step
        obtain ⟨t', by₂, call'⟩ := step'
        have rank : t.call.rank = 8 := by rw [call]; rfl
        have rank' : t'.call.rank = 8 := by rw [call']; rfl
        exact eq_of_rank run member member' by₁ by₂ (by omega) (by omega) (by omega)
  subst event
  rw [hands] at hands'
  cases hands'
  exact ⟨rfl, rfl⟩

theorem HandedOut.founded (run : R.machine.Runs ok events s) {k : Name} {family : Name × ℕ}
    (handed : HandedOut events k family) : Founded events family := by
  obtain ⟨e, member, hands⟩ := handed
  obtain ⟨earlier, run₀, _, inside⟩ := run.of_mem member
  rcases handsOut_cases run₀ hands with ⟨i, creating, bytes, step, _, same, _⟩ |
    ⟨i, h, attempt, rotates, _, rfl⟩
  · exact ⟨e, member, i, creating, bytes, step, same⟩
  · exact (rotates.inFamily run member).founded run

/-- A handle that a step hands out was not handed out before. -/
theorem not_handedOut_before {label : R.machine.Lbl} {s' : R.machine.State}
    (run : R.machine.Runs ok (⟨s, label⟩ :: events) s') {k : Name} {family : Name × ℕ}
    (hands : handsOut? (⟨s, label⟩ : R.machine.Event) = some (k, family)) (family' : Name × ℕ) :
    ¬ HandedOut events k family' := by
  rintro ⟨e, member, hands'⟩
  have older := List.mem_cons_of_mem (⟨s, label⟩ : R.machine.Event) member
  obtain ⟨rfl, _⟩ := handsOut_unique run older (List.mem_cons_self ..) hands' hands
  obtain ⟨_, run₀, _⟩ := run.of_mem older
  rcases handsOut_cases run₀ hands with ⟨i, creating, bytes, ⟨t, by₁, _⟩, _⟩ |
    ⟨i, h, attempt, ⟨_, ⟨t, by₁, _⟩, _⟩, _⟩
  · exact run.new_of_step by₁ member
  · exact run.new_of_step by₁ member

theorem handedOut_cons {e : R.machine.Event} {k : Name} {family : Name × ℕ}
    (hands : handsOut? e = some (k, family)) (a : Name) :
    HandedOut (e :: events) a family ↔ HandedOut events a family ∨ a = k := by
  constructor
  · rintro ⟨e', member, hands'⟩
    rcases List.mem_cons.mp member with rfl | older
    · rw [hands] at hands'
      cases hands'
      exact .inr rfl
    · exact .inl ⟨e', older, hands'⟩
  · rintro (older | rfl)
    · exact older.mono (List.subset_cons_self ..)
    · exact ⟨_, List.mem_cons_self .., hands⟩

/-- Nothing of a family was handed out before its first record was written. -/
theorem not_handedOut_of_founding (run : R.machine.Runs ok events s) {label : R.machine.Lbl}
    {s' : R.machine.State} (run' : R.machine.Runs ok (⟨s, label⟩ :: events) s') {i : ℕ}
    {creating : Family} {bytes : Value}
    (step : Founding (⟨s, label⟩ : R.machine.Event) i (.putRecord creating bytes)) (a : Name) :
    ¬ HandedOut events a creating.record.family := by
  intro older
  obtain ⟨e, member, j, creating', bytes', step', same⟩ := older.founded run
  obtain ⟨_, run₀, _⟩ := run.of_mem member
  have names : creating'.familyId = creating.familyId := congrArg Prod.fst same
  obtain rfl : i = j := by rw [← step.owner run, ← step'.owner run₀, names]
  obtain ⟨t, by₁, call⟩ := step
  obtain ⟨t', by₂, call'⟩ := step'
  have rank : t.call.rank = 6 := by rw [call]; rfl
  have rank' : t'.call.rank = 6 := by rw [call']; rfl
  obtain rfl := eq_of_rank run' (List.mem_cons_self ..) (List.mem_cons_of_mem _ member) by₁ by₂
    (by omega) (by omega) (by omega)
  exact run'.new_of_step by₁ member

/-! ## The chain -/

/-- The rotation of one handle of the family made the other its successor. -/
def Links (events : List R.machine.Event) (family : Name × ℕ) (a b : Name) : Prop :=
  ∃ e ∈ events, ∃ i attempt, Rotates e i a attempt ∧ attempt.claim.family = family ∧
    attempt.successorHandle = b

theorem Links.mono {events' : List R.machine.Event} (inside : events ⊆ events')
    {family : Name × ℕ} {a b : Name} (links : Links events family a b) :
    Links events' family a b := by
  obtain ⟨e, member, rotation⟩ := links
  exact ⟨e, inside member, rotation⟩

/-- A handle has at most one successor. -/
theorem Links.functional (run : R.machine.Runs ok events s) (family : Name × ℕ) :
    Relator.RightUnique (Links events family) := by
  rintro a b c ⟨e, member, i, attempt, rotates, _, rfl⟩
    ⟨e', member', i', attempt', rotates', _, rfl⟩
  rw [(rotation_unique run member member' rotates rotates').2.2]

theorem HandedOut.of_links {family : Name × ℕ} {a b : Name} (links : Links events family a b) :
    HandedOut events b family := by
  obtain ⟨e, member, i, attempt, rotates, rfl, rfl⟩ := links
  exact ⟨e, member, rotates.handsOut⟩

/-- What a rotation links. -/
theorem links_cons {e : R.machine.Event} {i : ℕ} {h : Name} {attempt : Attempt}
    (rotates : Rotates e i h attempt) (x y : Name) :
    Links (e :: events) attempt.claim.family x y ↔
      Links events attempt.claim.family x y ∨ (x = h ∧ y = attempt.successorHandle) := by
  constructor
  · rintro ⟨e', member, j, attempt', rotates', family', handle⟩
    rcases List.mem_cons.mp member with rfl | older
    · obtain ⟨rfl, rfl⟩ := rotates.same rotates'
      exact .inr ⟨rfl, handle.symm⟩
    · exact .inl ⟨e', older, j, attempt', rotates', family', handle⟩
  · rintro (older | ⟨rfl, rfl⟩)
    · exact older.mono (List.subset_cons_self ..)
    · exact ⟨e, List.mem_cons_self .., i, attempt, rotates, rfl, rfl⟩

/-- A step that hands out nothing of the family adds no handle to it. -/
theorem handedOut_cons_of_not {e : R.machine.Event} {family : Name × ℕ}
    (quiet : ∀ k, handsOut? e ≠ some (k, family)) (a : Name) :
    HandedOut (e :: events) a family ↔ HandedOut events a family := by
  refine ⟨?_, fun older => older.mono (List.subset_cons_self ..)⟩
  rintro ⟨e', member, hands⟩
  rcases List.mem_cons.mp member with rfl | older
  · exact absurd hands (quiet a)
  · exact ⟨e', older, hands⟩

/-- A step that hands out nothing of the family links nothing in it. -/
theorem links_cons_of_not {e : R.machine.Event} {family : Name × ℕ}
    (quiet : ∀ k, handsOut? e ≠ some (k, family)) (a b : Name) :
    Links (e :: events) family a b ↔ Links events family a b := by
  refine ⟨?_, fun links => links.mono (List.subset_cons_self ..)⟩
  rintro ⟨e', member, j, attempt, rotates, rfl, handle⟩
  rcases List.mem_cons.mp member with rfl | older
  · exact absurd rotates.handsOut (quiet _)
  · exact ⟨e', older, j, attempt, rotates, rfl, handle⟩

/-- A handle had no successor before its rotation. -/
theorem Rotates.unlinked {label : R.machine.Lbl} {s' : R.machine.State}
    (run : R.machine.Runs ok (⟨s, label⟩ :: events) s') {i : ℕ} {h : Name} {attempt : Attempt}
    (rotates : Rotates (⟨s, label⟩ : R.machine.Event) i h attempt) (family : Name × ℕ) (b : Name) :
    ¬ Links events family h b := by
  rintro ⟨e, member, j, attempt', rotates', _, _⟩
  obtain ⟨rfl, _⟩ := rotation_unique run (List.mem_cons_of_mem _ member) (List.mem_cons_self ..)
    rotates' rotates
  obtain ⟨_, ⟨t, by₁, _⟩, _⟩ := rotates
  exact run.new_of_step by₁ member

/-- The first handle of a family is its last, too. -/
theorem ends_of_founding {label : R.machine.Lbl} {s' : R.machine.State}
    (run : R.machine.Runs ok (⟨s, label⟩ :: events) s') {i : ℕ} {creating : Family} {bytes : Value}
    (step : Founding (⟨s, label⟩ : R.machine.Event) i (.putRecord creating bytes))
    {k : Name} {family : Name × ℕ}
    (hands : handsOut? (⟨s, label⟩ : R.machine.Event) = some (k, family))
    (alone : ∀ a, ¬ HandedOut events a family) :
    Ends (fun a => HandedOut (⟨s, label⟩ :: events) a family)
      (Links (⟨s, label⟩ :: events) family) k where
  mem := (handedOut_cons hands k).mpr (.inr rfl)
  last b links := by
    obtain ⟨e, member, j, attempt, rotates, family', handle⟩ := links
    rcases List.mem_cons.mp member with rfl | older
    · -- the founder's step is no rotation
      obtain ⟨_, step', _⟩ := rotates
      obtain ⟨_, by₁, _⟩ := id step
      obtain ⟨_, by₂, _⟩ := id step'
      obtain rfl := by₁.index_eq by₂
      exact absurd step' (not_at_of_founding run member member step)
    · exact alone b (.of_links ⟨e, older, j, attempt, rotates, family', handle⟩)
  reaches a mem := by
    rcases (handedOut_cons hands a).mp mem with older | rfl
    · exact absurd older (alone a)
    · exact .refl

section Unguessed

variable (unguessed : ∀ es s label, ok es s label → Unguessed R es s label)

include unguessed

/-- A refresh that has found a record works on a handle that was handed out. -/
theorem handedOut_of_pc (run : R.machine.Runs ok events s) {i steps since : ℕ} {h : Name} {p : Pc}
    (there : s.threads[i]? = some ⟨.rotating h p, steps, since⟩) {family : Name × ℕ}
    (holds : p.family? = some family) : HandedOut events h family := by
  obtain ⟨e, member, bytes, record, loads, _, _⟩ := loads_of_family run there holds
  obtain ⟨earlier, run₀, permitted, inside⟩ := run.of_mem member
  have found : e.before.store.live e.before.now (.handle h) ≠ none := by
    rw [loads.2]
    simp
  obtain ⟨family', handed⟩ := unguessed _ _ _ permitted i h loads.1 found
  have handed := handed.mono inside
  exact handed.family_eq run (inFamily_of_pc run there holds) ▸ handed

theorem Rotates.handedOut {e : R.machine.Event} (run : R.machine.Runs ok events e.before) {i : ℕ}
    {h : Name} {attempt : Attempt} (rotates : Rotates e i h attempt) :
    HandedOut events h attempt.claim.family := by
  obtain ⟨rotated, step, _⟩ := rotates
  obtain ⟨_, _, there⟩ := step.thread
  exact handedOut_of_pc unguessed run there rfl

theorem Links.handedOut (run : R.machine.Runs ok events s) {family : Name × ℕ} {a b : Name}
    (links : Links events family a b) : HandedOut events a family := by
  obtain ⟨e, member, i, attempt, rotates, rfl, _⟩ := links
  obtain ⟨_, run₀, _, inside⟩ := run.of_mem member
  exact (rotates.handedOut unguessed run₀).mono inside

/-- **The handles of a family lead to the last of them**, which is not rotated. -/
theorem chain_of_family (run : R.machine.Runs ok events s) {family : Name × ℕ}
    (handed : ∃ k, HandedOut events k family) :
    ∃ z, Ends (fun k => HandedOut events k family) (Links events family) z := by
  induction run with
  | nil =>
      obtain ⟨k, e, member, _⟩ := handed
      cases member
  | @cons events s s' label run permitted taken ih =>
      have run' : R.machine.Runs ok (⟨s, label⟩ :: events) s' := .cons run permitted taken
      by_cases grows : ∃ k, handsOut? (⟨s, label⟩ : R.machine.Event) = some (k, family)
      · obtain ⟨k, hands⟩ := grows
        have fresh := not_handedOut_before run' hands
        rcases handsOut_cases run hands with ⟨i, creating, bytes, step, _, rfl, _⟩ |
          ⟨i, h, attempt, rotates, handle, same⟩
        · exact ⟨k, ends_of_founding run' step hands (not_handedOut_of_founding run run' step)⟩
        · -- a rotation puts the successor behind its handle, which had none
          subst handle same
          have mine := rotates.handedOut unguessed run
          obtain ⟨z, ends⟩ := ih ⟨h, mine⟩
          obtain rfl := ends.eq_of_last mine (rotates.unlinked run' _)
          refine ⟨_, ends.extend (handedOut_cons hands) (links_cons rotates) ?_ ?_⟩
          · exact fun c links => fresh _ (links.handedOut unguessed run)
          · rintro rfl
            exact fresh _ mine
      · -- no other step makes the chain longer
        have quiet : ∀ k, handsOut? (⟨s, label⟩ : R.machine.Event) ≠ some (k, family) :=
          fun k hands => grows ⟨k, hands⟩
        obtain ⟨k, handed⟩ := handed
        obtain ⟨z, ends⟩ := ih ⟨k, (handedOut_cons_of_not quiet k).mp handed⟩
        exact ⟨z, ends.congr (handedOut_cons_of_not quiet) (links_cons_of_not quiet)⟩

/-! ## What a revocation erases from -/

omit unguessed in
/-- A founder that sets the head has handed out its handle. -/
theorem handedOut_of_putHead (run : R.machine.Runs ok events s) {i steps since : ℕ}
    {creating : Family}
    (there : s.threads[i]? = some ⟨.founding (.putHead creating), steps, since⟩) :
    HandedOut events creating.creation.handle creating.record.family := by
  refine founding_invariant (I := fun es _ p => p = .putHead creating →
    HandedOut es creating.creation.handle creating.record.family) ?_ ?_ ?_ run there rfl
  · exact fun e es i p earlier _ same => (earlier same).mono (List.subset_cons_self ..)
  · rintro es s input p _ start rfl
    cases input with
    | issue token => cases start
    | refresh presented => cases presented <;> cases start
  · rintro es s i delivery choice steps since p q _ _ there _ edge rfl
    cases edge with
    | @putRecord _ bytes positive answered vacant =>
        subst answered
        refine ⟨_, List.mem_cons_self .., ?_⟩
        have change : Event.change (⟨s, .step i .answered choice⟩ : R.machine.Event) =
            some (.handle creating.creation.handle, some ⟨bytes, s.now + creating.ttl⟩) := by
          rw [Event.change_eq rfl there]
          show (Call.await R (.founding (.putRecord creating bytes))).change _ _ _ = _
          rw [Call.await, Await.change_map]
          exact Await.putIfAbsent_changes positive vacant
        simp [handsOut?, change, there, Label.index?]

omit unguessed in
/-- **A family's head names a handle of the family.** -/
theorem handedOut_of_head (run : R.machine.Runs ok events s) {familyId : Name} {entry : Entry Value}
    (there : s.store (.head familyId) = some entry) : ∃ k family,
      entry.value = .headKey (.handle k) ∧ family.1 = familyId ∧ HandedOut events k family := by
  obtain ⟨later, e, earlier, rfl, change, _⟩ := run.writer there
  have inside : earlier ⊆ later ++ e :: earlier :=
    fun e' older => List.mem_append_right _ (List.mem_cons_of_mem _ older)
  cases changes run.split.1 rfl change with
  | refresh i h p step formed alters =>
      generalize key : Key.head familyId = key at alters
      cases alters with
      | @head attempt live =>
          cases key
          obtain ⟨_, _, thread⟩ := step.thread
          obtain ⟨e₀, older, rotates⟩ := rotates_of_swapped run.split.1 thread (.inl rfl)
          exact ⟨attempt.successorHandle, attempt.claim.family, rfl, rfl, e₀, inside older,
            rotates.handsOut⟩
      | claim => cases key
      | response => cases key
      | successor => cases key
      | rotate => cases key
      | release => cases key
      | marker => cases key
  | creation i p step formed alters =>
      generalize key : Key.head familyId = key at alters
      cases alters with
      | record => cases key
      | @head creating vacant =>
          cases key
          obtain ⟨⟨call, steps, since⟩, by₁, same⟩ := step
          cases same
          exact ⟨creating.creation.handle, creating.record.family, rfl, rfl,
            (handedOut_of_putHead run.split.1 by₁.1).mono inside⟩

/-- **A revocation erases from handles of its family.** -/
theorem handedOut_of_eraseKeys (run : R.machine.Runs ok events s) {i steps since : ℕ} {h : Name}
    {p : Pc} (there : s.threads[i]? = some ⟨.rotating h p, steps, since⟩) {revocation : Revocation}
    (revoking : p.revocation? = some revocation) {key : Key} (member : key ∈ p.eraseKeys) :
    ∃ k, key = .handle k ∧ HandedOut events k revocation.family := by
  refine refresh_invariant (I := fun es _ _ p => ∀ revocation, p.revocation? = some revocation →
    ∀ key ∈ p.eraseKeys, ∃ k, key = .handle k ∧ HandedOut es k revocation.family) ?_ ?_ ?_ run there
      revocation revoking key member
  · intro e es i h p earlier _ revocation revoking key member
    obtain ⟨k, same, handed⟩ := earlier revocation revoking key member
    exact ⟨k, same, handed.mono (List.subset_cons_self ..)⟩
  · intro es s h _ revocation revoking
    cases revoking
  · intro es s i delivery choice steps since h p q run _ there earlier edge revocation revoking key
      member
    suffices older : ∃ k, key = .handle k ∧ HandedOut es k revocation.family by
      obtain ⟨k, same, handed⟩ := older
      exact ⟨k, same, handed.mono (List.subset_cons_self ..)⟩
    cases edge with
    | @erase _ rv key₀ rest erasing next =>
        cases revoking
        have before : p.revocation? = some revocation := by
          cases p <;> cases erasing <;> rfl
        have family : p.family? = some revocation.family := by
          cases p <;> cases erasing <;> rfl
        -- the keys come from the head and the known key, or were there before
        generalize list : key₀ :: rest = keys at next
        have member : key ∈ keys := by rw [← list]; exact member
        cases next with
        | @starts rv head read =>
            simp only [eraseStarts, List.mem_append, Option.mem_toList] at member
            rcases member with named | known
            · cases head with
              | none => cases named
              | some value =>
                  obtain ⟨entry, stored, _, rfl⟩ := Store.live_eq_some_iff.mp read
                  obtain ⟨k, family', value', id, handed⟩ := handedOut_of_head run stored
                  cases before
                  have belongs := (inFamily_of_pc run there family).founded run
                  obtain rfl := (handed.founded run).unique run belongs id
                  simp [value', Value.asKey] at named
                  exact ⟨k, named.symm, handed⟩
            · split at known
              · cases known
              · cases before
                rw [List.mem_singleton.mp known, (erasesHandles run there).1 _ rfl]
                exact ⟨h, rfl, handedOut_of_pc unguessed run there family⟩
        | absent gone =>
            exact earlier _ before key (List.mem_cons_of_mem _ member)
        | tolerated down =>
            exact earlier _ before key (List.mem_cons_of_mem _ member)
        | limit last =>
            exact earlier _ before key (List.mem_cons_of_mem _ member)
        | deleted =>
            exact earlier _ before key (List.mem_cons_of_mem _ member)
    | follow state =>
        cases revoking
        rcases List.mem_cons.mp member with rfl | later
        · obtain ⟨k, rfl, handed⟩ := earlier _ rfl _ (List.mem_cons_self ..)
          obtain ⟨e, older, live⟩ := read_of_erased run there rfl
          obtain ⟨_, run₀, _, inside⟩ := run.of_mem older
          obtain ⟨entry, stored, _, value⟩ := Store.live_eq_some_iff.mp live
          obtain ⟨e', older', j, attempt, rotates, rfl⟩ :=
            rotates_of_store run₀ stored ⟨_, value⟩ state
          cases state
          have member' := inside older'
          have same := handed.family_eq run (rotates.inFamily run member')
          exact ⟨attempt.successorHandle, rfl, e', member', by rw [same]; exact rotates.handsOut⟩
        · exact earlier _ rfl key (List.mem_cons_of_mem _ later)
    | openErased => exact earlier _ revoking key member
    | deleteErased => exact earlier _ revoking key member
    | _ => cases member

/-! ## Why a record is deleted -/

omit unguessed in
/-- Whoever erases has found or written the marker. -/
theorem marked_of_erasing (run : R.machine.Runs ok events s) {i steps since : ℕ} {h : Name} {p : Pc}
    (there : s.threads[i]? = some ⟨.rotating h p, steps, since⟩) {revocation : Revocation}
    (erasing : p.erasing? = some revocation) : Marked events revocation.familyId := by
  have put : ∃ e ∈ events, ∃ ttl marker choice, 0 < ttl ∧
      At e i h (.putMarker revocation ttl marker) ∧ e.label = .step i .answered choice := by
    refine past (Q := fun p => p.erasing? = some revocation)
      (E := fun e i h => ∃ ttl marker choice, 0 < ttl ∧
        At e i h (.putMarker revocation ttl marker) ∧ e.label = .step i .answered choice)
      (by simp [Pc.erasing?]) ?_ run there erasing
    intro es e i steps h p q delivery choice _ at₁ label edge holds
    cases edge with
    | marked positive answered =>
        cases holds
        subst answered
        exact .inr ⟨_, _, choice, positive, at₁, label⟩
    | erase before =>
        cases holds
        exact .inl before
    | follow | openErased | deleteErased => exact .inl holds
    | _ => cases holds
  obtain ⟨e, member, ttl, marker, choice, positive, step, label⟩ := put
  obtain ⟨_, run₀, _, inside⟩ := run.of_mem member
  by_cases vacant : e.before.store.live e.before.now (.revoked revocation.familyId) = none
  · exact ⟨e, member, i, h, revocation, ttl,
      ⟨marker, step, change_of_put step label rfl positive vacant⟩, rfl⟩
  · exact (marked_of_live run₀ vacant).mono inside

/-- The step takes back the record of a handle, which is a successor that its winner withholds. -/
def TakesBack (e : R.machine.Event) (k : Name) : Prop :=
  ∃ i h rest, At e i h (.discard (.handle k) rest .revoked)

/-- The step erases the record of a handle of the family. -/
def ErasesRecord (e : R.machine.Event) (k : Name) (family : Name × ℕ) : Prop :=
  ∃ i h revocation rest, At e i h (.deleteErased revocation (.handle k) rest) ∧
    revocation.family = family

/-- **A record that was handed out is only deleted after its family was revoked**, by a winner that
takes it back or by a revocation. -/
theorem deletes_handedOut (run : R.machine.Runs ok events s) {e : R.machine.Event}
    (member : e ∈ events) {k : Name} (change : e.change = some (.handle k, none))
    {family : Name × ℕ} (handed : HandedOut events k family) :
    (∃ earlier, R.machine.Runs ok earlier e.before ∧ earlier ⊆ events ∧ Marked earlier family.1) ∧
      (TakesBack e k ∨ ErasesRecord e k family) := by
  obtain ⟨earlier, run₀, _, inside⟩ := run.of_mem member
  cases changes run₀ rfl change with
  | refresh i h p step formed alters =>
      generalize made : (Key.handle k, (none : Option (Entry Value))) = c at alters
      cases alters with
      | @discard key rest after =>
          cases made
          have mine : k.call = i := formed.1
          obtain ⟨e₁, member₁, hands⟩ := handed
          obtain ⟨_, run₁, _, inside₁⟩ := run.of_mem member₁
          rcases handsOut_cases run₁ hands with ⟨j, creating, bytes, founding, handle, _⟩ |
            ⟨j, h', attempt, rotates, handle, same⟩
          · -- a founder discards nothing
            have founder : k.call = j := handle ▸ founding.drew run₁
            rw [mine] at founder
            subst founder
            exact absurd step (not_at_of_founding run member₁ member founding)
          · have same' : j = i := by
              obtain ⟨rotated, step', _⟩ := rotates
              rw [← mine, ← handle]
              exact (step'.formed run₁).1.2.symm
            subst same'
            obtain ⟨rfl, earlier', run', inside', marked⟩ :=
              marked_of_discard run member₁ member rotates step
            exact ⟨⟨earlier', run', inside', by rw [← same]; exact marked⟩, .inl ⟨j, h, rest, step⟩⟩
      | @erase revocation key rest =>
          cases made
          obtain ⟨_, _, there⟩ := step.thread
          obtain ⟨k', same, handed'⟩ := handedOut_of_eraseKeys unguessed run₀ there rfl
            (List.mem_cons_self ..)
          cases same
          have family' : revocation.family = family := by
            obtain ⟨e₁, member₁, hands⟩ := handed
            obtain ⟨e₂, member₂, hands'⟩ := handed'
            exact (handsOut_unique run (inside member₂) member₁ hands' hands).2
          subst family'
          exact ⟨⟨earlier, run₀, inside, marked_of_erasing run₀ there rfl⟩,
            .inr ⟨i, h, revocation, rest, step, rfl⟩⟩
      | _ => cases made
  | creation i p step formed alters =>
      generalize made : (Key.handle k, (none : Option (Entry Value))) = c at alters
      cases alters <;> cases made

/-! ## What stays -/

/-- **A record that was handed out stays until its family is revoked.** -/
theorem stored_of_handedOut (run : R.machine.Runs ok events s) {k : Name} {family : Name × ℕ}
    (handed : HandedOut events k family) (unrevoked : ¬ Marked events family.1) :
    ∃ entry record, s.store (.handle k) = some entry ∧ Sealed k record entry.value ∧
      record.family = family := by
  have here : s.store (.handle k) ≠ none := by
    intro gone
    obtain ⟨e, member, hands⟩ := handed
    obtain ⟨e₀, member₀, births, entry, written⟩ := birth_of_handsOut run member hands
    obtain ⟨later, earlier, rfl⟩ := List.mem_iff_append.mp member₀
    obtain ⟨_, _, s₁, taken, next⟩ := run.split
    have there : s₁.store (.handle k) ≠ none := by
      rw [step_store taken, written, Store.applyChange_same]
      simp
    obtain ⟨e₁, newer, change⟩ := next.deleted_between run there gone
    obtain ⟨⟨before, _, inside, marked⟩, _⟩ := deletes_handedOut unguessed run
      (List.mem_append_left _ newer) change ⟨e, member, hands⟩
    exact unrevoked (marked.mono inside)
  obtain ⟨entry, there⟩ := Option.ne_none_iff_exists'.mp here
  obtain ⟨record, sealed⟩ := sealed_of_store run there
  exact ⟨entry, record, there, sealed, handed.family_of_stored run there sealed⟩

section OneClock

variable (clock : ∀ es s label, ok es s label → OneClock R es s label)

include clock

omit unguessed in
/-- What a refresh writes for its family lasts as long as the family. -/
theorem expiry_le_of_left (run : R.machine.Runs ok events s) {i steps since left : ℕ} {h : Name}
    {p : Pc}
    (there : s.threads[i]? = some ⟨.rotating h p, steps, since⟩) (holds : p.left? = some left)
    {family : Name × ℕ} (works : p.family? = some family) : family.2 ≤ s.now + left := by
  obtain ⟨e, member, reading, reads, remains⟩ := within_family run there holds works
  obtain ⟨_, run₀, permitted, _⟩ := run.of_mem member
  have stamped := run.now_le member
  rw [← reads.reading_eq (clock _ _ _ permitted)] at stamped
  obtain ⟨_, rfl⟩ := ttlUntil_eq_some_iff.mp remains
  omega

omit unguessed in
/-- What a founder writes lasts as long as its family. -/
theorem Founding.lasts {e : R.machine.Event} (run : R.machine.Runs ok events e.before) {i : ℕ}
    {p : CreatePc} {creating : Family} (step : Founding e i p)
    (holds : p.family? = some creating) :
    creating.record.familyExpiresMs ≤ e.before.now + creating.ttl := by
  obtain ⟨⟨call, steps, since⟩, by₁, rfl⟩ := step
  obtain ⟨e₀, member, _, _, delivery, choice, _, label, _, expires, remains⟩ :=
    created run by₁.1 holds
  obtain ⟨_, _, permitted, _⟩ := run.of_mem member
  have stamped := run.now_le member
  rw [← clock _ _ _ permitted _ delivery choice label] at stamped
  obtain ⟨_, left⟩ := ttlUntil_eq_some_iff.mp remains
  rw [left]
  simp only [Family.record]
  omega

omit unguessed in
/-- A record lasts as long as its family. -/
theorem RecordChange.lasts {e : R.machine.Event} (run : R.machine.Runs ok events e.before)
    {k : Name} {entry : Entry Value} {record : Record}
    (change : RecordChange e k (some entry)) (sealed : Sealed k record entry.value) :
    record.familyExpiresMs ≤ entry.expires := by
  cases change with
  | founded step handle formed _ =>
      subst handle
      rw [sealed.unique formed.2]
      exact step.lasts clock run rfl
  | succeeded step handle formed _ =>
      subst handle
      obtain ⟨_, _, there⟩ := step.thread
      rw [sealed.unique formed.2]
      exact expiry_le_of_left clock run there rfl rfl
  | claimed step formed _ =>
      obtain ⟨_, _, there⟩ := step.thread
      obtain ⟨_, sealed'⟩ := formed.2.2.2.2.sealed
      rw [sealed.unique sealed']
      exact expiry_le_of_left clock run there rfl rfl
  | released step formed _ =>
      obtain ⟨_, _, there⟩ := step.thread
      rw [sealed.unique formed.2]
      exact expiry_le_of_left clock run there rfl rfl
  | rotated step formed _ =>
      obtain ⟨_, _, there⟩ := step.thread
      rw [sealed.unique formed.2]
      exact expiry_le_of_left clock run there rfl rfl

omit unguessed in
/-- What is stored under a handle lasts as long as the family. -/
theorem expiry_le_of_stored (run : R.machine.Runs ok events s) {k : Name} {entry : Entry Value}
    {record : Record} (there : s.store (.handle k) = some entry)
    (sealed : Sealed k record entry.value) : record.familyExpiresMs ≤ entry.expires := by
  obtain ⟨later, e, earlier, rfl, change, _⟩ := run.writer there
  exact (record_change run.split.1 rfl change).lasts clock run.split.1 sealed

/-- **A record that was handed out stays until its family is revoked or expires.** -/
theorem live_of_handedOut (run : R.machine.Runs ok events s) {k : Name} {family : Name × ℕ}
    (handed : HandedOut events k family) (unexpired : s.now < family.2)
    (unrevoked : s.store.live s.now (.revoked family.1) = none) : ∃ bytes record,
      s.store.live s.now (.handle k) = some bytes ∧ Sealed k record bytes ∧
        record.family = family := by
  obtain ⟨entry, record, there, sealed, same⟩ := stored_of_handedOut unguessed run handed
    fun marked => Marked.lasts clock run (handed.founded run) marked unexpired unrevoked
  have lasts := expiry_le_of_stored clock run there sealed
  refine ⟨entry.value, record, Store.live_of_entry there ?_, sealed, same⟩
  have expiry : record.familyExpiresMs = family.2 := congrArg Prod.snd same
  omega

end OneClock

end Unguessed

/-! ## The chain in the store -/

/-- The record of a handle names another as its successor. -/
def Follows (s : R.machine.State) (a b : Name) : Prop :=
  ∃ bytes record rotatedMs claimId, s.store.live s.now (.handle a) = some bytes ∧
    Sealed a record bytes ∧ record.state = .rotated rotatedMs claimId (.handle b)

/-- The record of the handle holds an upstream token. -/
def HoldsToken (s : R.machine.State) (k : Name) : Prop :=
  ∃ bytes record token, s.store.live s.now (.handle k) = some bytes ∧ Sealed k record bytes ∧
    record.state.token? = some token

/-- A record names one successor. -/
theorem Follows.functional : Relator.RightUnique (Follows s) := by
  rintro a b c ⟨bytes, record, rotatedMs, claimId, live, sealed, state⟩
    ⟨bytes', record', rotatedMs', claimId', live', sealed', state'⟩
  rw [live] at live'
  cases live'
  rw [sealed.unique sealed', state'] at state
  cases state
  rfl

/-- A record that holds a token names no successor. -/
theorem HoldsToken.last {z : Name} (holds : HoldsToken s z) (b : Name) : ¬ Follows s z b := by
  rintro ⟨bytes, record, rotatedMs, claimId, live, sealed, state⟩
  obtain ⟨bytes', record', token, live', sealed', held⟩ := holds
  rw [live] at live'
  cases live'
  rw [← sealed.unique sealed', state] at held
  cases held

/-- A handle that was rotated has the rotated record, if it has one. -/
theorem Rotates.sealed_of_live (run : R.machine.Runs ok events s) {e : R.machine.Event}
    (member : e ∈ events) {i : ℕ} {h : Name} {attempt : Attempt} (rotates : Rotates e i h attempt)
    {bytes : Value} (live : s.store.live s.now (.handle h) = some bytes) :
    Sealed h attempt.rotated bytes := by
  obtain ⟨later, earlier, rfl⟩ := List.mem_iff_append.mp member
  obtain ⟨run₀, _, s₁, taken, next⟩ := run.split
  obtain ⟨e₀, older, births⟩ := rotates.born run₀ rfl
  obtain ⟨entry, there, _, rfl⟩ := Store.live_eq_some_iff.mp live
  rcases tokenless_stays next run ⟨e₀, List.mem_cons_of_mem _ older, births⟩
    (rotates.tokenless taken) with same | gone
  · obtain ⟨rotated, _, sealed, change⟩ := rotates
    rw [same, step_store taken, change, Store.applyChange_same] at there
    cases there
    exact sealed
  · rw [gone] at there
    cases there

/-- **A link of the chain is in the store**, as long as its record is. -/
theorem follows_of_links (run : R.machine.Runs ok events s) {family : Name × ℕ} {a b : Name}
    (links : Links events family a b) {bytes : Value}
    (live : s.store.live s.now (.handle a) = some bytes) : Follows s a b := by
  obtain ⟨e, member, i, attempt, rotates, rfl, rfl⟩ := links
  exact ⟨bytes, attempt.rotated, attempt.now, attempt.claim.claimId, live,
    rotates.sealed_of_live run member live, rfl⟩

/-- **The last of the chain holds the token**, as long as it has a record. -/
theorem holdsToken_of_last (run : R.machine.Runs ok events s) {family : Name × ℕ} {k : Name}
    (last : ∀ b, ¬ Links events family k b) {bytes : Value} {record : Record}
    (live : s.store.live s.now (.handle k) = some bytes) (sealed : Sealed k record bytes)
    (same : record.family = family) : HoldsToken s k := by
  subst same
  cases state : record.state with
  | active token => exact ⟨bytes, record, token, live, sealed, by rw [state]; rfl⟩
  | claimed token claimId claimedMs =>
      exact ⟨bytes, record, token, live, sealed, by rw [state]; rfl⟩
  | rotated rotatedMs claimId key =>
      obtain ⟨entry, there, _, rfl⟩ := Store.live_eq_some_iff.mp live
      obtain ⟨e, member, i, attempt, rotates, rfl⟩ := rotates_of_store run there sealed state
      exact absurd ⟨e, member, i, attempt, rotates, rfl, rfl⟩ (last attempt.successorHandle)

end OAuthRelay.Rotation
