import OAuthRelay.Rotation.Family

/-!
# The lifetime of a family

The creation of a family fixes its expiry, and every record of the family carries it. Each
write computes its lifetime from a clock reading of its own call, as the time left until that
expiry, so nothing that is written is meant to last longer (`within_family`). A handle
presented after the expiry is refused before anything is asked or written.
-/

set_option autoImplicit false

namespace OAuthRelay.Rotation

open OAuthRelay.Async OAuthRelay.Async.Machine

variable {R : Rotator} {ok : List R.machine.Event → R.machine.State → R.machine.Lbl → Prop}
  {events : List R.machine.Event} {s : R.machine.State}

/-! ## Lifetimes -/

/-- The step reads the clock. -/
def ReadsTime (e : R.machine.Event) (i reading : ℕ) : Prop :=
  ∃ t delivery choice, e.before.threads[i]? = some t ∧ e.label = .step i delivery choice ∧
    (t.call.await R).question? = some .clock ∧ choice.reading = reading

/-- The time left to the family when the call read the clock for what it writes. -/
def Pc.left? : Pc → Option ℕ
  | sealClaim _ _ _ _ ttl | swapClaim _ _ ttl | swapRelease _ _ ttl _ | putMarker _ ttl _ => some ttl
  | p => p.attempt?.map Attempt.familyTtl

theorem At.readsTime {e : R.machine.Event} {i : ℕ} {h : Name} {p : Pc} (step : At e i h p)
    {delivery : Delivery} {choice : Choice} (label : e.label = .step i delivery choice)
    (asks : (p.await R h).question? = some .clock) : ReadsTime e i choice.reading := by
  obtain ⟨⟨call, steps, since⟩, ⟨there, _⟩, rfl⟩ := step
  exact ⟨_, delivery, choice, there, label, by simpa [Call.await] using asks, rfl⟩

/-- **What a call means to write ends with its family, counted from a reading of its own.** -/
theorem within_family (run : R.machine.Runs ok events s) {i steps since ttl : ℕ} {h : Name} {p : Pc}
    (there : s.threads[i]? = some ⟨.rotating h p, steps, since⟩) {family : Name × ℕ}
    (left : p.left? = some ttl) (holds : p.family? = some family) :
    ∃ e ∈ events, ∃ reading, ReadsTime e i reading ∧
      ttlUntil family.2 reading = some ttl := by
  refine past (Q := fun p => p.left? = some ttl ∧ p.family? = some family)
    (E := fun e i _ => ∃ reading, ReadsTime e i reading ∧ ttlUntil family.2 reading = some ttl)
    (by simp [Pc.left?, Pc.attempt?]) ?_ run there ⟨left, holds⟩
  rintro es e i steps h p q delivery choice run at₁ label edge ⟨left, holds⟩
  cases edge with
  | claim remains | commit remains | release remains | revoke remains =>
      cases left
      cases holds
      exact .inr ⟨_, at₁.readsTime label rfl, remains⟩
  | sealClaim | sealResponse | putResponse | sealSuccessor | putSuccessor | sealRotated | rotated
  | advanced => exact .inl ⟨left, holds⟩
  | _ => cases left

/-- A write lasts no longer than the time left to the family, and some. -/
theorem ttl_le_left {h : Name} {p : Pc} {ttl : ℕ} (writes : (p.await R h).ttl? = some ttl) :
    ∃ left, p.left? = some left ∧ ttl ≤ left ∧ (0 < left → 0 < ttl) := by
  cases p with
  | putResponse attempt sealed =>
      cases writes
      refine ⟨_, rfl, Nat.min_le_right _ _, fun positive => ?_⟩
      simp only [Attempt.graceTtl, graceResponseMargin]
      omega
  | swapClaim | putSuccessor | swapRotated | swapHead | swapRelease | putMarker =>
      cases writes
      exact ⟨_, rfl, Nat.le_refl _, id⟩
  | _ => cases writes

/-! ## The creation of a family -/

/-- The step of `create_family` that draws the family's id and fixes its expiry. -/
def Creates (e : R.machine.Event) (i : ℕ) (family : Family) : Prop :=
  ∃ steps since delivery choice,
    e.before.threads[i]? = some ⟨.founding (.create family.creation), steps, since⟩ ∧
    e.label = .step i delivery choice ∧ family.familyId = ⟨i, steps⟩ ∧
    family.familyExpiresMs = saturatingAdd choice.reading R.maxLifetime ∧
    ttlUntil family.familyExpiresMs choice.reading = some family.ttl

/-- **A family is created once**, so it has one expiry. -/
theorem Creates.unique (run : R.machine.Runs ok events s) {e e' : R.machine.Event}
    (member : e ∈ events) (member' : e' ∈ events) {i i' : ℕ} {family family' : Family}
    (creates : Creates e i family) (creates' : Creates e' i' family')
    (same : family.familyId = family'.familyId) :
    family.familyExpiresMs = family'.familyExpiresMs := by
  obtain ⟨steps, since, delivery, choice, there, label, id, expires, _⟩ := creates
  obtain ⟨steps', since', delivery', choice', there', label', id', expires', _⟩ := creates'
  rw [id, id'] at same
  injection same with index steps_eq
  subst index steps_eq
  rcases mem_before member member' with rfl | ⟨later, earlier, rfl, older⟩ | ⟨later, earlier, rfl, older⟩
  · rw [label] at label'
    injection label' with _ _ choices
    rw [expires, expires', choices]
  · have below := (run.split.1.follows there e' older _ ⟨there', _, _, label'⟩).2
    exact absurd below (Nat.lt_irrefl _)
  · have below := (run.split.1.follows there' e older _ ⟨there, _, _, label⟩).2
    exact absurd below (Nat.lt_irrefl _)

/-- The family a call is creating. -/
def CreatePc.family? : CreatePc → Option Family
  | sealRecord family | putRecord family _ | putHead family => some family
  | _ => none

theorem created (run : R.machine.Runs ok events s) {i steps since : ℕ} {p : CreatePc}
    (there : s.threads[i]? = some ⟨.founding p, steps, since⟩) {family : Family}
    (holds : p.family? = some family) : ∃ e ∈ events, Creates e i family := by
  refine founding_invariant
    (I := fun es i p => p.family? = some family → ∃ e ∈ es, Creates e i family)
    ?_ ?_ ?_ run there holds
  · intro e es i p earlier _ holds
    obtain ⟨e₀, member, creates⟩ := earlier holds
    exact ⟨e₀, List.mem_cons_of_mem _ member, creates⟩
  · intro es s input p _ start holds
    cases input with
    | issue token =>
        cases start
        cases holds
    | refresh presented =>
        cases presented with
        | rotating handle => cases start
        | sealedHandle opened | other =>
            cases start
            cases holds
  · intro es s i delivery choice steps since p q run _ there earlier edge holds
    cases edge with
    | create left =>
        cases holds
        exact ⟨_, List.mem_cons_self .., steps, since, delivery, choice, there, rfl, rfl, rfl, left⟩
    | sealRecord | putRecord =>
        obtain ⟨e₀, member, creates⟩ := earlier holds
        exact ⟨e₀, List.mem_cons_of_mem _ member, creates⟩
    | _ => cases holds

/-- **Every family that was founded was created.** -/
theorem Founded.created (run : R.machine.Runs ok events s) {family : Name × ℕ}
    (founded : Founded events family) :
    ∃ e ∈ events, ∃ i creating, Creates e i creating ∧ creating.record.family = family := by
  obtain ⟨e, member, i, creating, bytes, ⟨⟨call, steps, since⟩, by₁, call'⟩, same⟩ := founded
  cases call'
  obtain ⟨earlier, run₀, _, inside⟩ := run.of_mem member
  obtain ⟨e₀, older, creates⟩ := Rotation.created run₀ by₁.1 rfl
  exact ⟨e₀, inside older, i, creating, creates, same⟩

/-! ## The family of a successor -/

/-- **A record has the family it was born into.** -/
theorem birthsInto_of_store (run : R.machine.Runs ok events s) {k : Name} {entry : Entry Value}
    {record : Record} (there : s.store (.handle k) = some entry)
    (sealed : Sealed k record entry.value) : ∃ e ∈ events, BirthsInto e k record.family := by
  induction run generalizing entry record with
  | nil => simp [initial, Store.empty] at there
  | @cons events s s' label run _ taken ih =>
      have older : ∀ {entry₀ : Entry Value} {record₀ : Record}, s.store (.handle k) = some entry₀ →
          Sealed k record₀ entry₀.value → record₀.family = record.family →
          ∃ e ∈ (⟨s, label⟩ :: events : List R.machine.Event), BirthsInto e k record.family := by
        intro entry₀ record₀ there₀ sealed₀ same
        obtain ⟨e, member, births⟩ := ih there₀ sealed₀
        exact ⟨e, List.mem_cons_of_mem _ member, same ▸ births⟩
      rw [step_store taken] at there
      by_cases same : s.store.applyChange (Event.change (⟨s, label⟩ : R.machine.Event)) (.handle k) =
          s.store (.handle k)
      · rw [same] at there
        exact older there sealed rfl
      · have change := Store.change_of_ne _ same
        rw [there] at change
        rcases (record_change run rfl change).family run change sealed with births |
          ⟨entry₀, record₀, there₀, sealed₀, same⟩
        · exact ⟨_, List.mem_cons_self .., births⟩
        · exact older there₀ sealed₀ same

/-- A handle is born in one step. -/
theorem Births.unique (run : R.machine.Runs ok events s) {e e' : R.machine.Event}
    (member : e ∈ events) (member' : e' ∈ events) {k : Name} (births : Births e k)
    (births' : Births e' k) : e = e' := by
  obtain ⟨_, run₀, _⟩ := run.of_mem member
  obtain ⟨_, run₁, _⟩ := run.of_mem member'
  obtain ⟨t₀, by₀, rank₀⟩ := births.by_call run₀
  obtain ⟨t₁, by₁, rank₁⟩ := births'.by_call run₁
  exact eq_of_rank run member member' by₀ by₁ (by omega) (by omega) (by omega)

/-- **A handle is born into one family.** -/
theorem BirthsInto.unique (run : R.machine.Runs ok events s) {e e' : R.machine.Event}
    (member : e ∈ events) (member' : e' ∈ events) {k : Name} {family family' : Name × ℕ}
    (births : BirthsInto e k family) (births' : BirthsInto e' k family') : family = family' := by
  obtain rfl := births.births.unique run member member' births'.births
  rcases births with ⟨i, creating, bytes, ⟨t, by₁, call⟩, _, rfl⟩ |
    ⟨i, h, attempt, successor, ⟨t, by₁, call⟩, _, rfl⟩
  · rcases births' with ⟨i', creating', bytes', ⟨t', by₂, call'⟩, _, rfl⟩ |
      ⟨i', h', attempt', successor', ⟨t', by₂, call'⟩, _, rfl⟩
    · obtain rfl := by₁.index_eq by₂
      obtain rfl := by₁.unique by₂
      rw [call] at call'
      cases call'
      rfl
    · obtain rfl := by₁.index_eq by₂
      obtain rfl := by₁.unique by₂
      rw [call] at call'
      cases call'
  · rcases births' with ⟨i', creating', bytes', ⟨t', by₂, call'⟩, _, rfl⟩ |
      ⟨i', h', attempt', successor', ⟨t', by₂, call'⟩, _, rfl⟩
    · obtain rfl := by₁.index_eq by₂
      obtain rfl := by₁.unique by₂
      rw [call] at call'
      cases call'
    · obtain rfl := by₁.index_eq by₂
      obtain rfl := by₁.unique by₂
      rw [call] at call'
      cases call'
      rfl

/-- **A successor's records are of its predecessor's family.** -/
theorem family_of_successor (run : R.machine.Runs ok events s) {e : R.machine.Event}
    (member : e ∈ events) {i : ℕ} {h : Name} {attempt : Attempt} {successor : Value}
    (step : At e i h (.putSuccessor attempt successor)) {family : Name × ℕ}
    (belongs : InFamily events attempt.successorHandle family) : attempt.claim.family = family := by
  obtain ⟨e', member', entry, record, there, sealed, rfl⟩ := belongs
  obtain ⟨earlier', run', _, inside'⟩ := run.of_mem member'
  obtain ⟨e₀, older, births⟩ := birthsInto_of_store run' there sealed
  exact BirthsInto.unique run member (inside' older)
    (.inr ⟨i, h, attempt, successor, step, rfl, rfl⟩) births

/-! ## Handles presented late -/

/-- Store and sealer serve the call, and its clock has reached the expiry of the handle's
family. -/
def PresentedLate (events : List R.machine.Event) (i : ℕ) (h : Name) : Prop :=
  ∀ e ∈ events, (∀ delivery choice, e.label = .step i delivery choice → ¬ Faulty delivery choice) ∧
    ∀ reading, ReadsTime e i reading → ∀ family, InFamily events h family → family.2 ≤ reading

theorem PresentedLate.older {e : R.machine.Event} {i : ℕ} {h : Name}
    (late : PresentedLate (e :: events) i h) : PresentedLate events i h := by
  intro e' member
  obtain ⟨served, past⟩ := late e' (List.mem_cons_of_mem _ member)
  refine ⟨served, fun reading reads family belongs => past reading reads family ?_⟩
  exact belongs.mono (List.subset_cons_self ..)

/-- Where a call is that presents a handle late, after this many steps. -/
def Pc.Looks : Pc → ℕ → Prop
  | load, steps => steps = 1
  | openRecord _, steps => steps = 2
  | readClock _, steps => steps = 3
  | done outcome, _ => outcome = .invalidGrant
  | _, _ => False

theorem Pc.Looks.bound {p : Pc} {steps : ℕ} (looks : p.Looks steps) :
    p = .done .invalidGrant ∨ steps < 4 := by
  cases p with
  | load | openRecord | readClock => exact .inr (by simp only [Pc.Looks] at looks; omega)
  | done => exact .inl (by rw [show _ = _ from looks])
  | _ => exact looks.elim

theorem Pc.Looks.edge {h name : Name} {σ : Store Key Value} {now steps : ℕ} {delivery : Delivery}
    {choice : Choice} {p q : Pc} (looks : p.Looks steps)
    (edge : Edge R h σ now delivery choice name p q) (served : ¬ Faulty delivery choice)
    (past : ∀ loaded, p = .readClock loaded → loaded.record.familyExpiresMs ≤ choice.reading) :
    q.Looks (steps + 1) := by
  cases edge with
  | refuse _ reason =>
      cases reason with
      | fault faulty => exact absurd faulty served
      | absent | unopenable | expired => rfl
      | invalid zero => cases p <;> first | exact looks.elim | cases zero
      | _ => exact looks.elim
  | loaded => simp only [Pc.Looks] at looks ⊢; omega
  | opened => simp only [Pc.Looks] at looks ⊢; omega
  | unexpired before => exact absurd (past _ rfl) (Nat.not_le.mpr before)
  | wait _ reason => cases reason <;> exact looks.elim
  | unprepared preparing => cases p <;> first | exact looks.elim | cases preparing
  | erase erasing => cases p <;> first | exact looks.elim | cases erasing
  | revoked revoking => cases p <;> first | exact looks.elim | cases revoking
  | _ => exact looks.elim

/-- **A handle presented late is refused before anything is asked or written.** -/
theorem refused_of_late (run : R.machine.Runs ok events s) {i steps since : ℕ} {h : Name} {p : Pc}
    (there : s.threads[i]? = some ⟨.rotating h p, steps, since⟩) (late : PresentedLate events i h) :
    p.Looks steps ∧ ∀ e ∈ events, ∀ t, e.By i t → e.change = none ∧
      ∀ token, (t.call.await R).question? ≠ some (.upstream token) := by
  refine run.thread_invariant
    (I := fun es i (t : Thread Call) => ∀ h p, t.call = .rotating h p → PresentedLate es i h →
      p.Looks t.steps ∧ ∀ e ∈ es, ∀ t, e.By i t → e.change = none ∧
        ∀ token, (t.call.await R).question? ≠ some (.upstream token)) ?_ ?_ ?_ there h p rfl late
  · intro e es i t earlier other h p same late
    obtain ⟨looks, idle⟩ := earlier h p same late.older
    refine ⟨looks, fun e' member t' stepped => ?_⟩
    rcases List.mem_cons.mp member with rfl | older
    · exact absurd stepped (other t')
    · exact idle e' older t' stepped
  · intro es s input run h p same _
    refine ⟨?_, fun e member t stepped => absurd stepped (run.not_by_begin e member t)⟩
    cases input with
    | issue token => cases same
    | refresh presented =>
        cases presented with
        | rotating handle =>
            cases same
            rfl
        | sealedHandle | other => cases same
  · intro es s i delivery choice t call run _ before earlier resumed h q same late
    subst same
    obtain ⟨call₀, steps, since⟩ := t
    cases call₀ with
    | founding p =>
        obtain ⟨_, same, _⟩ := founding_next resumed
        cases same
    | rotating h₀ p =>
        obtain ⟨_, same, edge⟩ := rotating_next resumed
        cases same
        obtain ⟨looks, idle⟩ := earlier _ p rfl late.older
        obtain ⟨served, past⟩ := late _ (List.mem_cons_self ..)
        refine ⟨looks.edge edge (served delivery choice rfl) ?_, fun e member t stepped => ?_⟩
        · rintro loaded rfl
          refine past choice.reading ⟨_, delivery, choice, before, rfl, rfl, rfl⟩ loaded.record.family ?_
          exact (inFamily_of_pc run before rfl).mono (List.subset_cons_self ..)
        · rcases List.mem_cons.mp member with rfl | older
          · obtain rfl := Option.some.inj (before.symm.trans stepped.1)
            rw [Event.change_eq rfl before]
            cases p with
            | load | openRecord | readClock => exact ⟨rfl, fun token asks => by cases asks⟩
            | done => cases resumed
            | _ => exact looks.elim
          · exact idle e older t stepped

/-! ## Runs -/

/-- The family a call works on, or creates. -/
def Call.family? : Call → Option (Name × ℕ)
  | .rotating _ p => p.family?
  | .founding p => p.family?.map fun family => family.record.family

/-- **A family's lifetime is fixed at its creation.** -/
structure FixedLifetime (events : List R.machine.Event) (s : R.machine.State) : Prop where
  /-- A record carries the expiry that the creation of its family fixed. -/
  recorded : ∀ k entry record, s.store (.handle k) = some entry → Sealed k record entry.value →
    ∃ e ∈ events, ∃ i family, Creates e i family ∧ family.record.family = record.family
  once : ∀ e ∈ events, ∀ e' ∈ events, ∀ i i' family family', Creates e i family →
    Creates e' i' family' → family.familyId = family'.familyId →
    family.familyExpiresMs = family'.familyExpiresMs
  /-- A write has a lifetime, which ends with the family, counted from an earlier reading of the
  same call. -/
  written : ∀ later e earlier, events = later ++ e :: earlier → ∀ i t ttl, e.By i t →
    (t.call.await R).ttl? = some ttl → 0 < ttl ∧ ∃ e₀ ∈ earlier, ∃ reading family,
      ReadsTime e₀ i reading ∧ t.call.family? = some family ∧ reading + ttl ≤ family.2 ∧
      ∃ e' ∈ events, ∃ i' creating, Creates e' i' creating ∧ creating.record.family = family
  /-- A handle presented late is refused in three steps, nothing asked and nothing written. -/
  refused : ∀ i h p steps since, s.threads[i]? = some ⟨.rotating h p, steps, since⟩ →
    PresentedLate events i h → (p = .done .invalidGrant ∨ steps < 4) ∧
    ∀ e ∈ events, ∀ t, e.By i t → e.change = none ∧
      ∀ token, (t.call.await R).question? ≠ some (.upstream token)
  /-- A successor is of its predecessor's family, and stays so. -/
  succeeded : ∀ e ∈ events, ∀ i h attempt successor, At e i h (.putSuccessor attempt successor) →
    Sealed attempt.successorHandle attempt.successor successor ∧
    InFamily events h attempt.successor.family ∧
    ∀ family, InFamily events attempt.successorHandle family → family = attempt.successor.family

/-- A family a call works on was created. -/
theorem created_of_call (run : R.machine.Runs ok events s) {i steps since : ℕ} {h : Name} {p : Pc}
    (there : s.threads[i]? = some ⟨.rotating h p, steps, since⟩) {family : Name × ℕ}
    (holds : p.family? = some family) :
    ∃ e ∈ events, ∃ i creating, Creates e i creating ∧ creating.record.family = family :=
  ((inFamily_of_pc run there holds).founded run).created run

/-- A refresh that writes works on a family. -/
theorem family_of_left {p : Pc} {left : ℕ} (holds : p.left? = some left) :
    ∃ family, p.family? = some family := by
  cases p <;> first | exact ⟨_, rfl⟩ | cases holds

theorem written_of_run (run : R.machine.Runs ok events s) {e : R.machine.Event} {i : ℕ}
    {t : Thread Call} {ttl : ℕ} (here : e.before = s) (stepped : e.By i t)
    (writes : (t.call.await R).ttl? = some ttl) : 0 < ttl ∧ ∃ e₀ ∈ events, ∃ reading family,
      ReadsTime e₀ i reading ∧ t.call.family? = some family ∧ reading + ttl ≤ family.2 ∧
      ∃ e' ∈ events, ∃ i' creating, Creates e' i' creating ∧ creating.record.family = family := by
  subst here
  obtain ⟨call, steps, since⟩ := t
  obtain ⟨there, delivery, choice, label⟩ := stepped
  cases call with
  | rotating h p =>
      simp only [Call.await, Await.ttl?_map] at writes
      obtain ⟨left, holds, below, positive⟩ := ttl_le_left writes
      obtain ⟨family, works⟩ := family_of_left holds
      obtain ⟨e₀, member, reading, reads, remains⟩ := within_family run there holds works
      obtain ⟨before, rfl⟩ := ttlUntil_eq_some_iff.mp remains
      exact ⟨positive (by omega), e₀, member, reading, family, reads, works, by omega,
        created_of_call run there works⟩
  | founding p =>
      simp only [Call.await, Await.ttl?_map] at writes
      obtain ⟨family, works, rfl⟩ : ∃ family, p.family? = some family ∧ family.ttl = ttl := by
        cases p with
        | putRecord | putHead =>
            cases writes
            exact ⟨_, rfl, rfl⟩
        | _ => cases writes
      obtain ⟨e₀, member, creates⟩ := created run there works
      have creates' := creates
      obtain ⟨_, _, _, choice₀, there₀, label₀, _, expires, remains⟩ := creates'
      obtain ⟨before, left⟩ := ttlUntil_eq_some_iff.mp remains
      refine ⟨by omega, e₀, member, choice₀.reading, family.record.family,
        ⟨_, _, choice₀, there₀, label₀, rfl, rfl⟩, by simp [Call.family?, works], ?_,
        e₀, member, i, family, creates, rfl⟩
      show choice₀.reading + family.ttl ≤ family.familyExpiresMs
      omega

/-- **A family's lifetime is fixed at its creation.** -/
theorem lifetime_fixed (run : R.machine.Runs ok events s) : FixedLifetime events s where
  recorded k entry record there sealed := (founded_of_store run there sealed).created run
  once e member e' member' i i' family family' creates creates' same :=
    creates.unique run member member' creates' same
  written later e earlier parts i t ttl stepped writes := by
    subst parts
    obtain ⟨positive, e₀, older, reading, family, reads, works, ends, e', member, creates⟩ :=
      written_of_run run.split.1 rfl stepped writes
    exact ⟨positive, e₀, older, reading, family, reads, works, ends, e', by simp [member], creates⟩
  refused i h p steps since there late := by
    obtain ⟨looks, idle⟩ := refused_of_late run there late
    exact ⟨looks.bound, idle⟩
  succeeded e member i h attempt successor step := by
    obtain ⟨earlier, run₀, _, inside⟩ := run.of_mem member
    obtain ⟨steps, since, there⟩ := step.thread
    exact ⟨(step.formed run₀).2, (inFamily_of_pc run₀ there rfl).mono inside,
      fun family belongs => (family_of_successor run member step belongs).symm⟩

/-- A handle is rotated at 100, and its successor is refused at the family's expiry 1000,
although the store still has its record. -/
theorem lifetime_fixed_of_expiry :
    ∃ events s, (sampleRotator 30000 1000 .default).machine.Runs
        (sampleRotator 30000 1000 .default).machine.anyStep events s ∧
      Answered s 1 ⟨0, 0⟩ (.response (handsOut ⟨1, 8⟩)) ∧ Answered s 2 ⟨1, 8⟩ .invalidGrant ∧
      (s.store.live s.now (.handle ⟨1, 8⟩)).isSome = true ∧
      FixedLifetime (R := sampleRotator 30000 1000 .default) events s := by
  obtain ⟨events, s, run, won, refused, live⟩ := exists_run (sampleRotator 30000 1000 .default)
    ([.begin (.issue "token")] ++ steps 0 4 (.good 0) ++
      [.begin (.refresh (.rotating ⟨0, 0⟩))] ++ steps 1 17 (.good 100) ++
      [.begin (.refresh (.rotating ⟨1, 8⟩))] ++ steps 2 3 (.good 1000))
    (fun _ s => Answered s 1 ⟨0, 0⟩ (.response (handsOut ⟨1, 8⟩)) ∧
      Answered s 2 ⟨1, 8⟩ .invalidGrant ∧ (s.store.live s.now (.handle ⟨1, 8⟩)).isSome = true)
    (by decide +kernel)
  exact ⟨events, s, run, won, refused, live, lifetime_fixed run⟩

end OAuthRelay.Rotation
