import OAuthRelay.Rotation.Calls

/-!
# The record of a handle

A handle's record is written in five places: by the call that creates its family or by the
rotation it is the successor of, and then by claims, releases and its own rotation. The
first of these happens once (`not_born_again`). So a record that holds no token, because it
is rotated or deleted, never holds one again (`tokenless_stays`).
-/

set_option autoImplicit false

namespace OAuthRelay.Rotation

open OAuthRelay.Async OAuthRelay.Async.Machine

variable {R : Rotator}

/-! ## Changes and who makes them -/

/-- A change to the store is made by a refresh or by the creation of a family. -/
inductive Changes (e : R.machine.Event) (c : Change Key Value) : Prop where
  | refresh (i : ℕ) (h : Name) (p : Pc) (step : At e i h p) (formed : p.Formed i h)
      (alters : Alters R h e.before.store e.before.now p c)
  | creation (i : ℕ) (p : CreatePc) (step : Founding e i p) (formed : p.Formed i)
      (alters : CreateAlters e.before.store e.before.now p c)

/-- What a step does to the record of the handle `k`. -/
inductive RecordChange (e : R.machine.Event) (k : Name) : Option (Entry Value) → Prop where
  | founded {i : ℕ} {family : Family} {bytes : Value}
      (step : Founding e i (.putRecord family bytes)) (handle : family.creation.handle = k)
      (formed : (CreatePc.putRecord family bytes).Formed i)
      (vacant : e.before.store.live e.before.now (.handle k) = none) :
      RecordChange e k (some ⟨bytes, e.before.now + family.ttl⟩)
  | succeeded {i : ℕ} {h : Name} {attempt : Attempt} {successor : Value}
      (step : At e i h (.putSuccessor attempt successor)) (handle : attempt.successorHandle = k)
      (formed : (Pc.putSuccessor attempt successor).Formed i h)
      (vacant : e.before.store.live e.before.now (.handle k) = none) :
      RecordChange e k (some ⟨successor, e.before.now + attempt.familyTtl⟩)
  | claimed {i : ℕ} {loaded : Loaded} {held : Claim} {ttl : ℕ}
      (step : At e i k (.swapClaim loaded held ttl))
      (formed : (Pc.swapClaim loaded held ttl).Formed i k)
      (live : e.before.store.live e.before.now (.handle k) = some loaded.bytes) :
      RecordChange e k (some ⟨held.bytes, e.before.now + ttl⟩)
  | released {i : ℕ} {held : Claim} {bytes : Value} {ttl : ℕ} {outcome : RefreshOutcome}
      (step : At e i k (.swapRelease held bytes ttl outcome))
      (formed : (Pc.swapRelease held bytes ttl outcome).Formed i k)
      (live : e.before.store.live e.before.now (.handle k) = some held.bytes) :
      RecordChange e k (some ⟨bytes, e.before.now + ttl⟩)
  | rotated {i : ℕ} {attempt : Attempt} {rotated : Value}
      (step : At e i k (.swapRotated attempt rotated))
      (formed : (Pc.swapRotated attempt rotated).Formed i k)
      (live : e.before.store.live e.before.now (.handle k) = some attempt.claim.bytes) :
      RecordChange e k (some ⟨rotated, e.before.now + attempt.familyTtl⟩)
  | deleted : RecordChange e k none

section Runs

variable {ok : List R.machine.Event → R.machine.State → R.machine.Lbl → Prop}
  {events : List R.machine.Event} {s : R.machine.State}

/-- The frames of a refresh that takes a step. -/
theorem At.formed {e : R.machine.Event} (run : R.machine.Runs ok events e.before) {i : ℕ}
    {h : Name} {p : Pc} (step : At e i h p) : p.Formed i h := by
  obtain ⟨⟨call, steps, since⟩, by₁, rfl⟩ := step
  exact Rotation.formed run by₁.1

/-- The change a refresh makes is the one of its state. -/
theorem At.alters {e : R.machine.Event} {i : ℕ} {h : Name} {p : Pc} {c : Change Key Value}
    (step : At e i h p) (change : e.change = some c) :
    Alters R h e.before.store e.before.now p c := by
  obtain ⟨⟨call, steps, since⟩, ⟨there, delivery, choice, label⟩, rfl⟩ := step
  rw [Event.change_eq label there] at change
  exact alters_of_change (by simpa [Call.await] using change)

theorem changes (run : R.machine.Runs ok events s) {e : R.machine.Event} (before : e.before = s)
    {c : Change Key Value} (change : e.change = some c) : Changes e c := by
  obtain ⟨i, ⟨call, steps, since⟩, delivery, choice, label, there, made⟩ :=
    Event.by_of_change change
  subst before
  cases call with
  | rotating h p =>
      have step : At e i h p := ⟨_, ⟨there, delivery, choice, label⟩, rfl⟩
      exact .refresh i h p step (step.formed run) (step.alters change)
  | founding p =>
      refine .creation i p ⟨_, ⟨there, delivery, choice, label⟩, rfl⟩ (founding_formed run there) ?_
      exact createAlters_of_change (by simpa [Call.await] using made)

/-- **The record of a handle changes in one of six ways.** -/
theorem record_change (run : R.machine.Runs ok events s) {e : R.machine.Event}
    (before : e.before = s) {k : Name} {x : Option (Entry Value)}
    (change : e.change = some (.handle k, x)) : RecordChange e k x := by
  cases changes run before change with
  | refresh i h p step formed alters =>
      generalize key : Key.handle k = key at alters
      cases alters with
      | claim live =>
          cases key
          exact .claimed step formed live
      | response => cases key
      | successor vacant =>
          cases key
          exact .succeeded step rfl formed vacant
      | rotate live =>
          cases key
          exact .rotated step formed live
      | head => cases key
      | discard => exact .deleted
      | release live =>
          cases key
          exact .released step formed live
      | marker => cases key
      | erase => exact .deleted
  | creation i p step formed alters =>
      generalize key : Key.handle k = key at alters
      cases alters with
      | record vacant =>
          cases key
          exact .founded step rfl formed vacant
      | head => cases key

/-- The bytes are the record, sealed for the handle. -/
def Sealed (k : Name) (record : Record) (bytes : Value) : Prop :=
  ∃ nonce, bytes = .sealed .record (.handle k) (.record record) nonce

theorem Sealed.unique {k : Name} {record record' : Record} {bytes : Value}
    (sealed : Sealed k record bytes) (sealed' : Sealed k record' bytes) : record = record' := by
  obtain ⟨nonce, rfl⟩ := sealed
  obtain ⟨nonce', same⟩ := sealed'
  injection same with _ _ plain _
  injection plain

theorem RecordChange.sealed {e : R.machine.Event} {k : Name} {entry : Entry Value}
    (change : RecordChange e k (some entry)) : ∃ record, Sealed k record entry.value := by
  cases change with
  | founded _ handle formed _ =>
      subst handle
      exact ⟨_, formed.2⟩
  | succeeded _ handle formed _ =>
      subst handle
      exact ⟨_, formed.2⟩
  | claimed _ formed _ =>
      obtain ⟨_, claimedMs, nonce, bytes⟩ := formed.2.2.2.2
      exact ⟨_, nonce, bytes⟩
  | released _ formed _ => exact ⟨_, formed.2⟩
  | rotated _ formed _ => exact ⟨_, formed.2⟩

/-- Under a handle the store holds records sealed for it. -/
theorem sealed_of_store (run : R.machine.Runs ok events s) {k : Name} {entry : Entry Value}
    (there : s.store (.handle k) = some entry) : ∃ record, Sealed k record entry.value := by
  obtain ⟨later, e, earlier, rfl, change, _⟩ := run.writer there
  exact (record_change run.split.1 rfl change).sealed

/-! ## A record is born once -/

/-- The step writes the first record of the handle: of a new family, or of a successor. -/
def Births (e : R.machine.Event) (k : Name) : Prop :=
  (∃ i family bytes, Founding e i (.putRecord family bytes) ∧ family.creation.handle = k) ∨
    ∃ i h attempt successor, At e i h (.putSuccessor attempt successor) ∧
      attempt.successorHandle = k

/-- The call that drew the handle writes its first record. -/
theorem Births.by_call {e : R.machine.Event} {k : Name} (run : R.machine.Runs ok events e.before)
    (births : Births e k) : ∃ t, e.By k.call t ∧ t.call.rank = 6 := by
  rcases births with ⟨i, family, bytes, ⟨⟨call, steps, since⟩, by₁, same⟩, rfl⟩ |
    ⟨i, h, attempt, successor, ⟨⟨call, steps, since⟩, by₁, same⟩, rfl⟩
  · cases same
    obtain ⟨⟨mine, _⟩, _⟩ := founding_formed run by₁.1
    subst mine
    exact ⟨_, by₁, rfl⟩
  · cases same
    obtain ⟨⟨_, mine⟩, _⟩ := formed run by₁.1
    subst mine
    exact ⟨_, by₁, rfl⟩

theorem not_born_again (run : R.machine.Runs ok events s) {e e₀ : R.machine.Event}
    (before : e.before = s) {k : Name} (older : e₀ ∈ events) (births₀ : Births e₀ k) :
    ¬ Births e k := by
  intro births
  subst before
  obtain ⟨earlier, run₀, _⟩ := run.of_mem older
  obtain ⟨t₀, by₀, rank₀⟩ := births₀.by_call run₀
  obtain ⟨t, by₁, rank₁⟩ := births.by_call run
  have order := rank_of_follows (run.follows by₁.1 e₀ older t₀ by₀).1
  omega

/-- **A handle with a record was born.** -/
theorem born_of_store (run : R.machine.Runs ok events s) {k : Name} {entry : Entry Value}
    (there : s.store (.handle k) = some entry) : ∃ e ∈ events, Births e k := by
  induction run generalizing entry with
  | nil => simp [initial, Store.empty] at there
  | @cons events s s' label run _ taken ih =>
      rw [step_store taken] at there
      by_cases same : s.store.applyChange (Event.change (⟨s, label⟩ : R.machine.Event)) (.handle k) =
          s.store (.handle k)
      · rw [same] at there
        obtain ⟨e, member, births⟩ := ih there
        exact ⟨e, List.mem_cons_of_mem _ member, births⟩
      · have change := Store.change_of_ne _ same
        rw [there] at change
        have older : ∀ {bytes : Value}, s.store.live s.now (.handle k) = some bytes →
            ∃ e ∈ (⟨s, label⟩ :: events : List R.machine.Event), Births e k := by
          intro bytes live
          obtain ⟨entry₀, there₀, _, _⟩ := Store.live_eq_some_iff.mp live
          obtain ⟨e, member, births⟩ := ih there₀
          exact ⟨e, List.mem_cons_of_mem _ member, births⟩
        cases record_change run rfl change with
        | founded step handle _ _ =>
            exact ⟨_, List.mem_cons_self .., .inl ⟨_, _, _, step, handle⟩⟩
        | succeeded step handle _ _ =>
            exact ⟨_, List.mem_cons_self .., .inr ⟨_, _, _, _, step, handle⟩⟩
        | claimed _ _ live => exact older live
        | released _ _ live => exact older live
        | rotated _ _ live => exact older live

/-! ## Records without a token -/

/-- The record of the handle, if there is one, holds no upstream token. -/
def Tokenless (s : R.machine.State) (k : Name) : Prop :=
  ∀ entry record, s.store (.handle k) = some entry → Sealed k record entry.value →
    record.state.token? = none

theorem Tokenless.not_live {s : R.machine.State} {k : Name} (tokenless : Tokenless s k)
    {record : Record} {bytes : Value} {token : String} (sealed : Sealed k record bytes)
    (holds : record.state.token? = some token) : s.store.live s.now (.handle k) ≠ some bytes := by
  intro live
  obtain ⟨entry, there, _, rfl⟩ := Store.live_eq_some_iff.mp live
  rw [tokenless entry record there sealed] at holds
  cases holds

theorem Loaded.Formed.sealed {h : Name} {loaded : Loaded} (formed : loaded.Formed h) :
    Sealed h loaded.record loaded.bytes := formed

theorem Claim.Formed.sealed {i : ℕ} {h : Name} {claim : Claim} (formed : claim.Formed i h) :
    ∃ claimedMs, Sealed h ⟨claim.familyId, claim.familyExpiresMs,
      .claimed claim.upstreamToken claim.claimId claimedMs⟩ claim.bytes := by
  obtain ⟨_, claimedMs, nonce, bytes⟩ := formed
  exact ⟨claimedMs, nonce, bytes⟩

/-- A claim, a release and a rotation find the record with a token. -/
theorem RecordChange.of_tokenless {e : R.machine.Event} {k : Name} {x : Option (Entry Value)}
    (change : RecordChange e k x) (tokenless : Tokenless e.before k) : Births e k ∨ x = none := by
  cases change with
  | founded step handle _ _ => exact .inl (.inl ⟨_, _, _, step, handle⟩)
  | succeeded step handle _ _ => exact .inl (.inr ⟨_, _, _, _, step, handle⟩)
  | claimed _ formed live => exact absurd live (tokenless.not_live formed.1.sealed formed.2.1)
  | released _ formed live =>
      obtain ⟨_, sealed⟩ := formed.1.sealed
      exact absurd live (tokenless.not_live sealed rfl)
  | rotated _ formed live =>
      obtain ⟨_, sealed⟩ := formed.1.1.sealed
      exact absurd live (tokenless.not_live sealed rfl)
  | deleted => exact .inr rfl

/-- **A born handle without a token keeps its record or loses it, and never gets a token.** -/
theorem tokenless_stays {later earlier : List R.machine.Event} {s₀ : R.machine.State} {k : Name}
    (run₀ : R.machine.Runs ok earlier s₀) (run : R.machine.Runs ok (later ++ earlier) s)
    (born : ∃ e ∈ earlier, Births e k) (tokenless : Tokenless s₀ k) :
    s.store (.handle k) = s₀.store (.handle k) ∨ s.store (.handle k) = none := by
  induction later generalizing s with
  | nil =>
      rw [run₀.unique run]
      exact .inl rfl
  | cons e later ih =>
      cases run with
      | @cons _ s s' label run _ taken =>
          have kept : Tokenless s k := by
            intro entry record there sealed
            rcases ih run with same | gone
            · exact tokenless entry record (same ▸ there) sealed
            · rw [gone] at there
              cases there
          rw [step_store taken]
          by_cases touched : ∃ x, Event.change (⟨s, label⟩ : R.machine.Event) = some (.handle k, x)
          · obtain ⟨x, change⟩ := touched
            obtain ⟨e₀, older, births₀⟩ := born
            rw [change, Store.applyChange_same]
            rcases (record_change run rfl change).of_tokenless kept with births | rfl
            · exact absurd births
                (not_born_again run rfl (List.mem_append_right _ older) births₀)
            · exact .inr rfl
          · rw [Store.applyChange_of_forall_ne _ fun x change => touched ⟨x, change⟩]
            exact ih run

theorem Tokenless.later {later earlier : List R.machine.Event} {s₀ : R.machine.State} {k : Name}
    (tokenless : Tokenless s₀ k) (run₀ : R.machine.Runs ok earlier s₀)
    (run : R.machine.Runs ok (later ++ earlier) s) (born : ∃ e ∈ earlier, Births e k) :
    Tokenless s k := by
  intro entry record there sealed
  rcases tokenless_stays run₀ run born tokenless with same | gone
  · exact tokenless entry record (same ▸ there) sealed
  · rw [gone] at there
    cases there

/-! ## The rotation of a handle -/

/-- The step rotates the handle. -/
def Rotates (e : R.machine.Event) (i : ℕ) (h : Name) (attempt : Attempt) : Prop :=
  ∃ rotated, At e i h (.swapRotated attempt rotated) ∧ Sealed h attempt.rotated rotated ∧
    e.change = some (.handle h, some ⟨rotated, e.before.now + attempt.familyTtl⟩)

/-- The value is a rotated record. -/
def Value.isRotated : Value → Bool
  | .sealed _ _ (.record ⟨_, _, .rotated ..⟩) _ => true
  | _ => false

theorem Sealed.rotated {k : Name} {record : Record} {bytes : Value} (sealed : Sealed k record bytes)
    (rotated : bytes.isRotated = true) :
    ∃ rotatedMs claimId key, record.state = .rotated rotatedMs claimId key := by
  obtain ⟨nonce, rfl⟩ := sealed
  obtain ⟨familyId, familyExpiresMs, state⟩ := record
  cases state with
  | active token => cases rotated
  | claimed token claimId claimedMs => cases rotated
  | rotated rotatedMs claimId key => exact ⟨_, _, _, rfl⟩

/-- A rotated record was written by the rotation it describes. -/
theorem rotates_of_entry (run : R.machine.Runs ok events s) {k claimId : Name} {rotatedMs : ℕ}
    {key : Key} {entry : Entry Value} {record : Record}
    (there : s.store (.handle k) = some entry) (sealed : Sealed k record entry.value)
    (state : record.state = .rotated rotatedMs claimId key) :
    ∃ e ∈ events, ∃ i attempt, Rotates e i k attempt ∧ record = attempt.rotated ∧
      entry.expires = e.before.now + attempt.familyTtl := by
  obtain ⟨later, e, earlier, rfl, change, _⟩ := run.writer there
  refine ⟨e, by simp, ?_⟩
  cases record_change run.split.1 rfl change with
  | founded step handle formed vacant =>
      subst handle
      rw [sealed.unique formed.2] at state
      cases state
  | succeeded step handle formed vacant =>
      subst handle
      rw [sealed.unique formed.2] at state
      cases state
  | claimed step formed live =>
      obtain ⟨_, sealed'⟩ := formed.2.2.2.2.sealed
      rw [sealed.unique sealed'] at state
      cases state
  | released step formed live =>
      rw [sealed.unique formed.2] at state
      cases state
  | rotated step formed live =>
      exact ⟨_, _, ⟨_, step, formed.2, change⟩, sealed.unique formed.2, rfl⟩

theorem rotates_of_store (run : R.machine.Runs ok events s) {k claimId : Name} {rotatedMs : ℕ}
    {key : Key} {entry : Entry Value} {record : Record}
    (there : s.store (.handle k) = some entry) (sealed : Sealed k record entry.value)
    (state : record.state = .rotated rotatedMs claimId key) :
    ∃ e ∈ events, ∃ i attempt, Rotates e i k attempt ∧ record = attempt.rotated := by
  obtain ⟨e, member, i, attempt, rotates, same, _⟩ := rotates_of_entry run there sealed state
  exact ⟨e, member, i, attempt, rotates, same⟩

/-- After its rotation a handle has the rotated record or none. -/
theorem Rotates.tokenless {e : R.machine.Event} {i : ℕ} {h : Name} {attempt : Attempt}
    {s' : R.machine.State} (taken : R.machine.step e.before e.label = some s')
    (rotates : Rotates e i h attempt) : Tokenless s' h := by
  obtain ⟨rotated, _, sealed, change⟩ := rotates
  intro entry record there sealed'
  rw [step_store taken, change, Store.applyChange_same] at there
  cases there
  rw [sealed'.unique sealed]
  rfl

/-- A handle that is rotated was born before. -/
theorem Rotates.born {e : R.machine.Event} {i : ℕ} {h : Name} {attempt : Attempt}
    (run : R.machine.Runs ok events s) (before : e.before = s) (rotates : Rotates e i h attempt) :
    ∃ e₀ ∈ events, Births e₀ h := by
  subst before
  obtain ⟨rotated, step, _, change⟩ := rotates
  cases step.alters change with
  | rotate live =>
      obtain ⟨entry, there, _, _⟩ := Store.live_eq_some_iff.mp live
      exact born_of_store run there

end Runs

end OAuthRelay.Rotation
