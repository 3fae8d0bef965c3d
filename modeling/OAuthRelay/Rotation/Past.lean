import OAuthRelay.Rotation.Records

/-!
# What a call has done

From the state a refresh is in, what it did to get there: what it read, which claim it
took, what the upstream answered, whether it rotated the handle. All of it follows one
rule: a fact about the past holds if the state that states it can only be entered by the
step the fact is about (`past`).
-/

set_option autoImplicit false

namespace OAuthRelay.Rotation

open OAuthRelay.Async OAuthRelay.Async.Machine

variable {R : Rotator} {ok : List R.machine.Event → R.machine.State → R.machine.Lbl → Prop}
  {events : List R.machine.Event} {s : R.machine.State}

/-- **A refresh in a state with `Q` took a step with `E`, if every edge into such a state
comes from such a state or is such a step.** -/
theorem past {Q : Pc → Prop} {E : R.machine.Event → ℕ → Name → Prop} (start : ¬ Q .load)
    (step : ∀ {es : List R.machine.Event} {e : R.machine.Event} {i steps : ℕ} {h : Name} {p q : Pc}
      {delivery : Delivery} {choice : Choice}, R.machine.Runs ok es e.before → At e i h p →
      e.label = .step i delivery choice →
      Edge R h e.before.store e.before.now delivery choice ⟨i, steps⟩ p q → Q q → Q p ∨ E e i h)
    (run : R.machine.Runs ok events s) {i steps since : ℕ} {h : Name} {p : Pc}
    (there : s.threads[i]? = some ⟨.rotating h p, steps, since⟩) (holds : Q p) :
    ∃ e ∈ events, E e i h := by
  refine refresh_invariant (I := fun es i h p => Q p → ∃ e ∈ es, E e i h) ?_ ?_ ?_ run there holds
  · intro e es i h p earlier _ holds
    obtain ⟨e₀, member, done⟩ := earlier holds
    exact ⟨e₀, List.mem_cons_of_mem _ member, done⟩
  · intro es s h _ holds
    exact absurd holds start
  · intro es s i delivery choice steps since h p q run _ there earlier edge holds
    have at₁ : At (⟨s, .step i delivery choice⟩ : R.machine.Event) i h p :=
      ⟨_, ⟨there, delivery, choice, rfl⟩, rfl⟩
    rcases step run at₁ rfl edge holds with before | done
    · obtain ⟨e₀, member, done⟩ := earlier before
      exact ⟨e₀, List.mem_cons_of_mem _ member, done⟩
    · exact ⟨_, List.mem_cons_self .., done⟩

/-- The thread of a refresh that takes a step. -/
theorem At.thread {e : R.machine.Event} {i : ℕ} {h : Name} {p : Pc} (step : At e i h p) :
    ∃ steps since, e.before.threads[i]? = some ⟨.rotating h p, steps, since⟩ := by
  obtain ⟨⟨call, steps, since⟩, by₁, rfl⟩ := step
  exact ⟨steps, since, by₁.1⟩

/-- The state of a call after its step. -/
theorem after_of_at {e : R.machine.Event} {s' : R.machine.State}
    (taken : R.machine.step e.before e.label = some s') {i : ℕ} {h : Name} {p : Pc}
    (step : At e i h p) : ∃ delivery choice steps since q, e.label = .step i delivery choice ∧
      (p.await R h).next e.before.store e.before.now delivery (answer choice ⟨i, steps⟩) = some q ∧
      s'.threads[i]? = some ⟨.rotating h q, steps + 1, since⟩ := by
  obtain ⟨⟨call, steps, since⟩, ⟨there, delivery, choice, label⟩, rfl⟩ := step
  rcases thread_persists taken there with same | ⟨delivery', choice', call', label', resumed, after⟩
  · obtain ⟨_, found, _⟩ | ⟨_, found, _⟩ | ⟨j, _, _, t, call', found, there', resumed, rfl⟩ :=
      step_cases taken
    · rw [label] at found
      cases found
    · rw [label] at found
      cases found
    · rw [label] at found
      cases found
      have inside := (List.getElem?_eq_some_iff.mp there).1
      rw [there] at there'
      cases there'
      simp [inside] at same
  · rw [label] at label'
    cases label'
    obtain ⟨q, rfl, inner⟩ := rotating_resumes resumed
    exact ⟨delivery, choice, steps, _, q, label, inner, after⟩

/-! ## What was read -/

/-- The record a call has loaded and still looks at. -/
def Pc.loaded? : Pc → Option Loaded
  | readClock loaded | isRevoked loaded _ | claim loaded _ | sealClaim loaded ..
  | swapClaim loaded .. => some loaded
  | _ => none

/-- The bytes a call has read under its handle and still looks at. -/
def Pc.bytes? : Pc → Option Value
  | openRecord bytes => some bytes
  | p => p.loaded?.map Loaded.bytes

/-- The step reads these bytes under the handle. -/
def Loads (e : R.machine.Event) (i : ℕ) (h : Name) (bytes : Value) : Prop :=
  At e i h .load ∧ e.before.store.live e.before.now (.handle h) = some bytes

theorem loads_of_bytes (run : R.machine.Runs ok events s) {i steps since : ℕ} {h : Name} {p : Pc}
    (there : s.threads[i]? = some ⟨.rotating h p, steps, since⟩) {bytes : Value}
    (holds : p.bytes? = some bytes) : ∃ e ∈ events, Loads e i h bytes := by
  refine past (Q := fun p => p.bytes? = some bytes) (E := fun e i h => Loads e i h bytes)
    (by simp [Pc.bytes?, Pc.loaded?]) ?_ run there holds
  intro es e i steps h p q delivery choice _ at₁ _ edge holds
  cases edge with
  | loaded live =>
      cases holds
      exact .inr ⟨at₁, live⟩
  | opened => exact .inl holds
  | unexpired => exact .inl holds
  | free => exact .inl holds
  | abandoned => exact .inl holds
  | claim => exact .inl holds
  | sealClaim => exact .inl holds
  | _ => cases holds

/-- The step reads the clock after loading the record. -/
def ReadsClock (e : R.machine.Event) (i : ℕ) (h : Name) (loaded : Loaded) (reading : ℕ) : Prop :=
  At e i h (.readClock loaded) ∧ ∃ delivery choice, e.label = .step i delivery choice ∧
    choice.reading = reading

theorem readsClock_of_isRevoked (run : R.machine.Runs ok events s) {i steps since reading : ℕ}
    {h : Name} {loaded : Loaded}
    (there : s.threads[i]? = some ⟨.rotating h (.isRevoked loaded reading), steps, since⟩) :
    (∃ e ∈ events, ReadsClock e i h loaded reading) ∧ reading < loaded.record.familyExpiresMs := by
  have fact : ∃ e ∈ events, ReadsClock e i h loaded reading ∧
      reading < loaded.record.familyExpiresMs := by
    refine past (Q := fun p => p = .isRevoked loaded reading)
      (E := fun e i h => ReadsClock e i h loaded reading ∧
        reading < loaded.record.familyExpiresMs) (by simp) ?_ run there rfl
    intro es e i steps h p q delivery choice _ at₁ label edge holds
    subst holds
    cases edge with
    | unexpired before => exact .inr ⟨⟨at₁, delivery, choice, label, rfl⟩, before⟩
  obtain ⟨e, member, reads, before⟩ := fact
  exact ⟨⟨e, member, reads⟩, before⟩

/-! ## The claim -/

/-- The step takes the claim. -/
def Claims (e : R.machine.Event) (i : ℕ) (h : Name) (loaded : Loaded) (held : Claim) : Prop :=
  ∃ ttl, At e i h (.swapClaim loaded held ttl) ∧
    e.change = some (.handle h, some ⟨held.bytes, e.before.now + ttl⟩)

/-- A step out of `swapClaim`, `swapRotated` and the like makes its change when it is
answered. -/
theorem change_of_swap {e : R.machine.Event} {i : ℕ} {h : Name} {p : Pc} {choice : Choice}
    (step : At e i h p) (label : e.label = .step i .answered choice) {key : Key}
    {expected new : Value} {ttl : ℕ} {next : Except StoreError Bool → Pc}
    (await : p.await R h = .compareAndSwap key expected new ttl next) (positive : 0 < ttl)
    (live : e.before.store.live e.before.now key = some expected) :
    e.change = some (key, some ⟨new, e.before.now + ttl⟩) := by
  obtain ⟨⟨call, steps, since⟩, ⟨there, _⟩, rfl⟩ := step
  rw [Event.change_eq label there]
  show (Call.await R (.rotating h p)).change _ _ _ = _
  rw [Call.await, Await.change_map, await]
  exact Await.compareAndSwap_changes positive live

theorem claims_of_claim (run : R.machine.Runs ok events s) {i steps since : ℕ} {h : Name} {p : Pc}
    (there : s.threads[i]? = some ⟨.rotating h p, steps, since⟩) {held : Claim}
    (holds : p.claim? = some held) : ∃ e ∈ events, ∃ loaded, Claims e i h loaded held := by
  refine past (Q := fun p => p.claim? = some held)
    (E := fun e i h => ∃ loaded, Claims e i h loaded held) (by simp [Pc.claim?]) ?_ run there holds
  intro es e i steps h p q delivery choice _ at₁ label edge holds
  cases edge with
  | claimed positive answered live =>
      cases holds
      subst answered
      exact .inr ⟨_, _, at₁, change_of_swap at₁ label rfl positive live⟩
  | unprepared preparing =>
      cases holds
      refine .inl ?_
      cases p <;> simp_all [Pc.preparing?, Pc.claim?]
  | @discard _ _ _ after =>
      cases after with
      | failed => exact .inl holds
      | lost => exact .inl holds
      | revoked => cases holds
  | unsuccessful => exact .inl holds
  | succeeded => exact .inl holds
  | expired => exact .inl holds
  | commit => exact .inl holds
  | sealResponse => exact .inl holds
  | putResponse => exact .inl holds
  | sealSuccessor => exact .inl holds
  | putSuccessor => exact .inl holds
  | sealRotated => exact .inl holds
  | rotated => exact .inl holds
  | lost => exact .inl holds
  | advanced => exact .inl holds
  | failed => exact .inl holds
  | discardedLost => exact .inl holds
  | sealRelease => exact .inl holds
  | release => exact .inl holds
  | _ => cases holds

/-! ## The rotation -/

theorem rotates_of_swapped (run : R.machine.Runs ok events s) {i steps since : ℕ} {h : Name}
    {p : Pc} (there : s.threads[i]? = some ⟨.rotating h p, steps, since⟩) {attempt : Attempt}
    (holds : p = .swapHead attempt ∨ p = .isRevokedInFlight attempt) :
    ∃ e ∈ events, Rotates e i h attempt := by
  refine past (Q := fun p => p = .swapHead attempt ∨ p = .isRevokedInFlight attempt)
    (E := fun e i h => Rotates e i h attempt) (by simp) ?_ run there holds
  rintro es e i steps h p q delivery choice run at₁ label edge (rfl | rfl)
  · cases edge with
    | rotated positive answered live =>
        subst answered
        have frames := at₁.formed run
        exact .inr ⟨_, at₁, frames.2, change_of_swap at₁ label rfl positive live⟩
  · cases edge with
    | advanced => exact .inl (.inl rfl)

/-! ## The answer -/

/-- What a call will answer, once that is settled. -/
def Pc.answer? : Pc → Option RefreshOutcome
  | done outcome | sealRelease _ outcome | releaseClock _ _ outcome | swapRelease _ _ _ outcome =>
      some outcome
  | discard _ _ (.failed _ fault) => some fault.outcome
  | p => p.revocation?.map Revocation.answer

/-- The last step of a rotation: the family is not revoked, and the response is returned. -/
def Finishes (e : R.machine.Event) (i : ℕ) (h : Name) (attempt : Attempt) : Prop :=
  At e i h (.isRevokedInFlight attempt) ∧
    e.before.store.live e.before.now (.revoked attempt.claim.familyId) = none

/-- The step opens a recorded response. -/
def Opens (e : R.machine.Event) (i : ℕ) (h claimId : Name) (response : StoredResponse) : Prop :=
  ∃ nonce, At e i h
    (.openGrace claimId (.sealed .grace (.grace h claimId) (.response response) nonce))

/-- **A successful response is the call's own rotation's or a recorded one.** -/
theorem success_of_answer (run : R.machine.Runs ok events s) {i steps since : ℕ} {h : Name} {p : Pc}
    (there : s.threads[i]? = some ⟨.rotating h p, steps, since⟩) {response : StoredResponse}
    (success : response.isSuccess = true) (holds : p.answer? = some (.response response)) :
    ∃ e ∈ events, (∃ attempt, Finishes e i h attempt ∧ response = attempt.response) ∨
      ∃ claimId, Opens e i h claimId response := by
  refine past (Q := fun p => p.answer? = some (.response response))
    (E := fun e i h => (∃ attempt, Finishes e i h attempt ∧ response = attempt.response) ∨
      ∃ claimId, Opens e i h claimId response)
    (by simp [Pc.answer?, Pc.revocation?]) ?_ run there holds
  intro es e i steps h p q delivery choice _ at₁ label edge holds
  cases edge with
  | refuse noResponse =>
      cases holds
      exact absurd rfl (noResponse response)
  | reuse => cases holds
  | replayed =>
      cases holds
      exact .inr (.inr ⟨_, _, at₁⟩)
  | unsuccessful failure =>
      cases holds
      rw [failure _ rfl] at success
      cases success
  | invalidGrant _ invalid =>
      cases holds
      rw [SerdeJson.not_isSuccess_of_isInvalidGrant invalid] at success
      cases success
  | @unprepared _ _ fault =>
      cases fault <;> cases holds
  | lost => cases holds
  | inFlight => cases holds
  | finished _ unrevoked =>
      cases holds
      exact .inr (.inl ⟨_, ⟨at₁, unrevoked⟩, rfl⟩)
  | @discard _ _ _ after =>
      cases after with
      | failed => exact .inl holds
      | lost => cases holds
      | revoked => cases holds
  | failed => exact .inl holds
  | sealRelease => exact .inl holds
  | release => exact .inl holds
  | unreleased => exact .inl holds
  | released => exact .inl holds
  | revoke => exact .inl holds
  | marked => exact .inl holds
  | erase erasing =>
      refine .inl ?_
      cases p <;> simp_all [Pc.erasing?, Pc.answer?, Pc.revocation?]
  | follow => exact .inl holds
  | openErased => exact .inl holds
  | deleteErased => exact .inl holds
  | revoked revoking =>
      refine .inl ?_
      cases p <;> simp_all [Pc.answer?, Pc.revocation?]
  | _ => cases holds

/-- The step finds the handle rotated within its grace period, and the family not
revoked. -/
def Replays (e : R.machine.Event) (i : ℕ) (h claimId : Name) : Prop :=
  ∃ loaded reading rotatedMs key, At e i h (.isRevoked loaded reading) ∧
    loaded.record.state = .rotated rotatedMs claimId key ∧ reading - rotatedMs ≤ R.grace ∧
    e.before.store.live e.before.now (.revoked loaded.record.familyId) = none

theorem replays_of_grace (run : R.machine.Runs ok events s) {i steps since : ℕ} {h claimId : Name}
    {p : Pc} (there : s.threads[i]? = some ⟨.rotating h p, steps, since⟩)
    (holds : p = .loadGrace claimId ∨ ∃ bytes, p = .openGrace claimId bytes) :
    ∃ e ∈ events, Replays e i h claimId := by
  refine past (Q := fun p => p = .loadGrace claimId ∨ ∃ bytes, p = .openGrace claimId bytes)
    (E := fun e i h => Replays e i h claimId) (by simp) ?_ run there holds
  rintro es e i steps h p q delivery choice _ at₁ _ edge (rfl | ⟨bytes, rfl⟩)
  · cases edge with
    | replay unrevoked state within => exact .inr ⟨_, _, _, _, at₁, state, within, unrevoked⟩
  · cases edge with
    | recorded => exact .inl (.inl rfl)

/-- The bytes of a recorded response were read from the store. -/
theorem read_of_openGrace (run : R.machine.Runs ok events s) {i steps since : ℕ} {h claimId : Name}
    {bytes : Value}
    (there : s.threads[i]? = some ⟨.rotating h (.openGrace claimId bytes), steps, since⟩) :
    ∃ e ∈ events, At e i h (.loadGrace claimId) ∧
      e.before.store.live e.before.now (.grace h claimId) = some bytes := by
  refine past (Q := fun p => p = .openGrace claimId bytes)
    (E := fun e i h => At e i h (.loadGrace claimId) ∧
      e.before.store.live e.before.now (.grace h claimId) = some bytes) (by simp) ?_ run there rfl
  intro es e i steps h p q delivery choice _ at₁ _ edge holds
  subst holds
  cases edge with
  | recorded live => exact .inr ⟨at₁, live⟩

end OAuthRelay.Rotation
