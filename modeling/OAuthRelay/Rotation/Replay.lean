import OAuthRelay.Rotation.Lease
import OAuthRelay.Rotation.Lifetime
import OAuthRelay.Rotation.Revoked

/-!
# Replays within the grace period

The winner of a rotation records its response before its final swap, under the claim id that
the rotated record names, for longer than the grace period. Its own call is the only one that
could delete the recorded response, and does so only when it finds the family revoked. So while
the grace period lasts the response is there (`recorded_in_grace`), and a duplicate gets it
(`replays_in_grace`). All this is with one clock for the calls and the store, and with a store
that answers.
-/

set_option autoImplicit false

namespace OAuthRelay.Rotation

open OAuthRelay.Async OAuthRelay.Async.Machine

variable {R : Rotator} {events : List R.machine.Event} {s : R.machine.State}

/-- One clock, and a store that answers. -/
def Faultless (R : Rotator) (_ : List R.machine.Event) (s : R.machine.State)
    (label : R.machine.Lbl) : Prop :=
  ∀ i delivery choice, label = .step i delivery choice →
    delivery = .answered ∧ choice.reading = s.now

theorem Faultless.oneClock {label : R.machine.Lbl} (faultless : Faultless R events s label) :
    OneClock R events s label :=
  fun i delivery choice same => (faultless i delivery choice same).2

/-- The handle is rotated and within its grace period, and its family is neither expired nor
revoked. -/
structure InGrace (R : Rotator) (s : R.machine.State) (h : Name) (record : Record) : Prop where
  stored : ∃ entry, s.store (.handle h) = some entry ∧ Sealed h record entry.value
  within : ∃ rotatedMs claimId key, record.state = .rotated rotatedMs claimId key ∧
    s.now - rotatedMs ≤ R.grace
  unexpired : s.now < record.familyExpiresMs
  unrevoked : s.store.live s.now (.revoked record.familyId) = none

/-! ## What a rotation has done before -/

/-- The response hands out the handle of the rotation's successor, in an upstream's success. -/
def Attempt.Named (R : Rotator) (attempt : Attempt) : Prop :=
  ∃ reply : StoredResponse, reply.isSuccess = true ∧
    attempt.response = { reply with body := attempt.response.body } ∧
    R.json.withRefreshToken reply.status reply.body (R.handleText attempt.successorHandle) =
      some attempt.response.body

/-- A step out of `putResponse` and the like makes its change when it is answered. -/
theorem change_of_put {e : R.machine.Event} {i : ℕ} {h : Name} {p : Pc} {choice : Choice}
    (step : At e i h p) (label : e.label = .step i .answered choice) {key : Key} {value : Value}
    {ttl : ℕ} {next : Except StoreError Bool → Pc}
    (await : p.await R h = .putIfAbsent key value ttl next) (positive : 0 < ttl)
    (vacant : e.before.store.live e.before.now key = none) :
    e.change = some (key, some ⟨value, e.before.now + ttl⟩) := by
  obtain ⟨⟨call, steps, since⟩, ⟨there, _⟩, rfl⟩ := step
  rw [Event.change_eq label there]
  show (Call.await R (.rotating h p)).change _ _ _ = _
  rw [Call.await, Await.change_map, await]
  exact Await.putIfAbsent_changes positive vacant

section Prepared

variable {ok : List R.machine.Event → R.machine.State → R.machine.Lbl → Prop}
  (run : R.machine.Runs ok events s) {i steps since : ℕ} {h : Name} {p : Pc}
  (there : s.threads[i]? = some ⟨.rotating h p, steps, since⟩) {attempt : Attempt}

include run there

/-- A rotation is stamped with a reading of its call's clock. -/
theorem stamp_of_attempt (holds : p.attempt? = some attempt) : ∃ e ∈ events,
    ReadsTime e i attempt.now ∧
      ttlUntil attempt.claim.familyExpiresMs attempt.now = some attempt.familyTtl := by
  refine past (Q := fun p => p.attempt? = some attempt)
    (E := fun e i _ => ReadsTime e i attempt.now ∧
      ttlUntil attempt.claim.familyExpiresMs attempt.now = some attempt.familyTtl)
    (by simp [Pc.attempt?]) ?_ run there holds
  intro es e i steps h p q delivery choice _ at₁ label edge holds
  cases edge with
  | commit left =>
      cases holds
      exact .inr ⟨at₁.readsTime label rfl, left⟩
  | sealResponse | putResponse | sealSuccessor | putSuccessor | sealRotated | rotated | advanced =>
      exact .inl holds
  | _ => cases holds

theorem named_of_attempt (holds : p.attempt? = some attempt) : attempt.Named R := by
  have fact : ∃ e ∈ events, attempt.Named R := by
    refine past (Q := fun p => p.attempt? = some attempt ∨
        ∃ held token, p = .commit held attempt.successorHandle token attempt.response)
      (E := fun _ _ _ => attempt.Named R) (by simp [Pc.attempt?]) ?_ run there (.inl holds)
    rintro es e i steps h p q delivery choice _ at₁ label edge (holds | ⟨held, token, rfl⟩)
    · cases edge with
      | commit left =>
          cases holds
          exact .inl (.inr ⟨_, _, rfl⟩)
      | sealResponse | putResponse | sealSuccessor | putSuccessor | sealRotated | rotated
      | advanced => exact .inl (.inl holds)
      | _ => cases holds
    · generalize same : Pc.commit held attempt.successorHandle token attempt.response = q at edge
      cases edge with
      | succeeded success named =>
          injection same with _ handle _ response
          refine .inr ⟨_, success, ?_, ?_⟩
          · rw [response]
          · rw [handle, response]
            exact named
      | _ => cases same
  exact fact.choose_spec.2

/-- The rotation has recorded its response. -/
theorem recorded_of_prepared (holds : p = .sealSuccessor attempt ∨
      (∃ successor, p = .putSuccessor attempt successor) ∨ p = .sealRotated attempt ∨
      ∃ rotated, p = .swapRotated attempt rotated) :
    ∃ e ∈ events, ∃ sealed, At e i h (.putResponse attempt sealed) ∧
      e.change = some (.grace h attempt.claim.claimId,
        some ⟨sealed, e.before.now + attempt.graceTtl R⟩) := by
  refine past (Q := fun p => p = .sealSuccessor attempt ∨
      (∃ successor, p = .putSuccessor attempt successor) ∨ p = .sealRotated attempt ∨
      ∃ rotated, p = .swapRotated attempt rotated)
    (E := fun e i h => ∃ sealed, At e i h (.putResponse attempt sealed) ∧
      e.change = some (.grace h attempt.claim.claimId,
        some ⟨sealed, e.before.now + attempt.graceTtl R⟩)) (by simp) ?_ run there holds
  rintro es e i steps h p q delivery choice _ at₁ label edge
    (rfl | ⟨successor, rfl⟩ | rfl | ⟨rotated, rfl⟩)
  · cases edge with
    | putResponse positive answered vacant =>
        subst answered
        exact .inr ⟨_, at₁, change_of_put at₁ label rfl positive vacant⟩
  · cases edge with
    | sealSuccessor => exact .inl (.inl rfl)
  · cases edge with
    | putSuccessor => exact .inl (.inr (.inl ⟨_, rfl⟩))
  · cases edge with
    | sealRotated => exact .inl (.inr (.inr (.inl rfl)))

/-- The rotation has stored the successor. -/
theorem succeeded_of_prepared (holds : p = .sealRotated attempt ∨
      ∃ rotated, p = .swapRotated attempt rotated) :
    ∃ e ∈ events, ∃ successor, At e i h (.putSuccessor attempt successor) ∧
      e.change = some (attempt.successorKey,
        some ⟨successor, e.before.now + attempt.familyTtl⟩) := by
  refine past (Q := fun p => p = .sealRotated attempt ∨ ∃ rotated, p = .swapRotated attempt rotated)
    (E := fun e i h => ∃ successor, At e i h (.putSuccessor attempt successor) ∧
      e.change = some (attempt.successorKey,
        some ⟨successor, e.before.now + attempt.familyTtl⟩)) (by simp) ?_ run there holds
  rintro es e i steps h p q delivery choice _ at₁ label edge (rfl | ⟨rotated, rfl⟩)
  · cases edge with
    | putSuccessor positive answered vacant =>
        subst answered
        exact .inr ⟨_, at₁, change_of_put at₁ label rfl positive vacant⟩
  · cases edge with
    | sealRotated => exact .inl (.inl rfl)

end Prepared

/-! ## The marker on one clock -/

section Marker

variable {ok : List R.machine.Event → R.machine.State → R.machine.Lbl → Prop}

theorem ReadsTime.reading_eq {e : R.machine.Event} {i reading : ℕ}
    (clock : OneClock R events e.before e.label) (reads : ReadsTime e i reading) :
    reading = e.before.now := by
  obtain ⟨_, delivery, choice, _, label, _, rfl⟩ := reads
  exact clock i delivery choice label

/-- **A marker that was written is live until the family expires.** -/
theorem Marked.lasts (clock : ∀ es s label, ok es s label → OneClock R es s label)
    (run : R.machine.Runs ok events s) {family : Name × ℕ} (founded : Founded events family)
    (marked : Marked events family.1) (unexpired : s.now < family.2) :
    s.store.live s.now (.revoked family.1) ≠ none := by
  obtain ⟨e, member, i, h, revocation, ttl, ⟨marker, step, change⟩, same⟩ := marked
  obtain ⟨later, earlier, rfl⟩ := List.mem_iff_append.mp member
  obtain ⟨run₁, _, s₁, taken, next⟩ := run.split
  obtain ⟨_, _, there⟩ := step.thread
  obtain ⟨e₀, older, reading, reads, left⟩ := within_family run₁ there rfl rfl
  obtain ⟨_, run₂, permitted, _⟩ := run₁.of_mem older
  have stamped : reading ≤ e.before.now := by
    rw [reads.reading_eq (clock _ _ _ permitted)]
    exact run₁.now_le older
  -- the marker was written for the family's lifetime
  have expiry : revocation.family = family := by
    refine Founded.unique run ?_ founded same
    refine ((inFamily_of_pc run₁ there rfl).founded run₁).mono fun e' older => ?_
    exact List.mem_append_right _ (List.mem_cons_of_mem _ older)
  obtain ⟨_, rfl⟩ := ttlUntil_eq_some_iff.mp left
  have written : s₁.store (.revoked family.1) =
      some ⟨.marker marker, e.before.now + (family.2 - reading)⟩ := by
    rw [step_store taken, change, same, Store.applyChange_same, ← expiry]
  have lasts : s.now < e.before.now + (family.2 - reading) := by omega
  rw [Store.live_of_entry (marker_stays next run written lasts) lasts]
  simp

/-! ## The winner leaves its records -/

/-- Where a winner can be after its final swap. -/
def Pc.Rotated (attempt : Attempt) : Pc → Prop
  | swapHead attempt' => attempt' = attempt
  | isRevokedInFlight attempt' => attempt' = attempt
  | discard _ _ .revoked => True
  | done _ => True
  | _ => False

theorem Pc.Rotated.edge {h name : Name} {σ : Store Key Value} {now : ℕ} {delivery : Delivery}
    {choice : Choice} {attempt : Attempt} {p q : Pc} (rotated : p.Rotated attempt)
    (edge : Edge R h σ now delivery choice name p q) : q.Rotated attempt := by
  cases edge with
  | refuse | finished | revoked => trivial
  | advanced => exact rotated
  | inFlight => trivial
  | @discard _ _ _ after => cases after <;> exact rotated
  | wait seeking => cases p <;> first | exact rotated.elim | exact seeking.elim
  | unprepared preparing => cases p <;> first | exact rotated.elim | cases preparing
  | erase erasing => cases p <;> first | exact rotated.elim | cases erasing
  | replayed | unreleased | released => trivial
  | _ => exact rotated.elim

/-- The winner goes on from its final swap, or has failed when the answer got lost. -/
theorem Rotates.next {e : R.machine.Event} {i : ℕ} {h : Name} {attempt : Attempt}
    {s' : R.machine.State} (taken : R.machine.step e.before e.label = some s')
    (rotates : Rotates e i h attempt) : ∃ q steps since,
      s'.threads[i]? = some ⟨.rotating h q, steps, since⟩ ∧
      (q = .swapHead attempt ∨ ∃ outcome, q = .done outcome) := by
  obtain ⟨rotated, step, _, change⟩ := rotates
  obtain ⟨delivery, choice, steps, since, q, label, resumed, after⟩ := after_of_at taken step
  refine ⟨q, _, _, after, ?_⟩
  cases step.alters change with
  | rotate live =>
      rcases Await.next_compareAndSwap resumed with ⟨_, _, _, rfl⟩ | ⟨_, _, gone, _⟩ | ⟨_, _, rfl⟩
      · exact .inl rfl
      · exact absurd live gone
      · exact .inr ⟨_, rfl⟩

/-- After its final swap a winner deletes nothing, unless it found the family revoked. -/
theorem inFlight_of_discard (run : R.machine.Runs ok events s) {i steps since : ℕ} {h : Name}
    {key : Key} {rest : List Key}
    (there : s.threads[i]? = some ⟨.rotating h (.discard key rest .revoked), steps, since⟩) :
    ∃ e ∈ events, ∃ attempt marker, At e i h (.isRevokedInFlight attempt) ∧
      e.before.store.live e.before.now (.revoked attempt.claim.familyId) = some marker := by
  refine past (Q := fun p => ∃ key rest, p = .discard key rest .revoked)
    (E := fun e i h => ∃ attempt marker, At e i h (.isRevokedInFlight attempt) ∧
      e.before.store.live e.before.now (.revoked attempt.claim.familyId) = some marker)
    (by simp) ?_ run there ⟨key, rest, rfl⟩
  rintro es e i steps h p q delivery choice _ at₁ _ edge ⟨key, rest, rfl⟩
  generalize same : Pc.discard key rest .revoked = q at edge
  cases edge with
  | inFlight live => exact .inr ⟨_, _, at₁, live⟩
  | discard =>
      injection same with _ _ after
      exact .inl ⟨_, _, by rw [after]⟩
  | _ => cases same

/-- **A winner deletes something only when it has found its family revoked.** -/
theorem marked_of_discard (run : R.machine.Runs ok events s) {e e' : R.machine.Event}
    (member : e ∈ events) (member' : e' ∈ events) {i : ℕ} {h h' : Name} {attempt : Attempt}
    (rotates : Rotates e i h attempt) {key : Key} {rest : List Key} {after : AfterDiscard}
    (step' : At e' i h' (.discard key rest after)) :
    after = .revoked ∧ ∃ earlier, R.machine.Runs ok earlier e'.before ∧ earlier ⊆ events ∧
      Marked earlier attempt.claim.familyId := by
  obtain ⟨rotated, step, _⟩ := id rotates
  rcases mem_before member member' with rfl | ⟨later, earlier, rfl, older⟩ |
    ⟨later, earlier, rfl, older⟩
  · obtain ⟨t, by₁, call⟩ := step
    obtain ⟨t', by₂, call'⟩ := step'
    obtain rfl := by₁.unique by₂
    rw [call] at call'
    cases call'
  · -- a call that discards swaps no more
    obtain ⟨t, by₁, call⟩ := step
    obtain ⟨t', by₂, call'⟩ := step'
    have order := rank_of_follows (run.split.1.follows by₁.1 e' older t' by₂).1
    rw [call, call'] at order
    simp [Call.rank, Pc.rank] at order
  · have run' := run.split.1
    obtain ⟨steps', since', there'⟩ := step'.thread
    have revoked : after = .revoked := by
      obtain ⟨between, before, rfl⟩ := List.mem_iff_append.mp older
      obtain ⟨_, _, s₁, taken, next⟩ := run'.split
      obtain ⟨q, _, _, there₁, ended⟩ := rotates.next taken
      have init : q.Rotated attempt := by
        rcases ended with rfl | ⟨outcome, rfl⟩
        · rfl
        · trivial
      obtain ⟨t, there, p, call, holds⟩ := next.carry_thread
        (P := fun (call : Call) => ∃ p, call = .rotating h p ∧ p.Rotated attempt)
        run' there₁ ⟨_, rfl, init⟩ (by
          rintro _ _ t _ _ _ _ _ ⟨p, call, holds⟩ resumed
          rw [call] at resumed
          obtain ⟨q, rfl, edge⟩ := rotating_next resumed
          exact ⟨q, rfl, holds.edge edge⟩)
      rw [there'] at there
      cases there
      cases call
      cases after <;> first | rfl | exact holds.elim
    subst revoked
    obtain ⟨e₂, older₂, attempt', marker, inFlight, live⟩ := inFlight_of_discard run' there'
    have member₂ : e₂ ∈ later ++ e' :: earlier :=
      List.mem_append_right _ (List.mem_cons_of_mem _ older₂)
    obtain rfl : attempt = attempt' := attempt_unique run member member₂ step inFlight rfl rfl
    obtain ⟨before₂, run₂, _, inside₂⟩ := run'.of_mem older₂
    refine ⟨rfl, earlier, run', by simp, Marked.mono inside₂ (marked_of_live run₂ ?_)⟩
    rw [live]
    simp

/-- The family of a rotation is the handle's. -/
theorem Rotates.inFamily (run : R.machine.Runs ok events s) {e : R.machine.Event}
    (member : e ∈ events) {i : ℕ} {h : Name} {attempt : Attempt} (rotates : Rotates e i h attempt) :
    InFamily events h attempt.claim.family := by
  obtain ⟨rotated, step, _⟩ := rotates
  obtain ⟨_, run₀, _, inside⟩ := run.of_mem member
  obtain ⟨_, _, there⟩ := step.thread
  exact (inFamily_of_pc run₀ there rfl).mono inside

/-- **A winner deletes what it wrote only when its family is revoked or expired.** -/
theorem not_discards (clock : ∀ es s label, ok es s label → OneClock R es s label)
    (run : R.machine.Runs ok events s) {e e' : R.machine.Event} (member : e ∈ events)
    (member' : e' ∈ events) {i : ℕ} {h h' : Name} {attempt : Attempt}
    (rotates : Rotates e i h attempt) (unexpired : s.now < attempt.claim.familyExpiresMs)
    (unrevoked : s.store.live s.now (.revoked attempt.claim.familyId) = none) {key : Key}
    {rest : List Key} {after : AfterDiscard} : ¬ At e' i h' (.discard key rest after) := by
  intro step'
  obtain ⟨_, earlier, _, inside, marked⟩ := marked_of_discard run member member' rotates step'
  have founded := (rotates.inFamily run member).founded run
  exact Marked.lasts clock run founded (marked.mono inside) unexpired unrevoked

end Marker

/-- **Nobody touches the response that a rotation recorded**, while its family is neither expired
nor revoked. -/
theorem response_untouched {later earlier : List R.machine.Event} {e e₁ : R.machine.Event}
    (run : R.machine.Runs (Faultless R) (later ++ e₁ :: earlier) s)
    (member : e ∈ later ++ e₁ :: earlier) {i : ℕ} {h : Name} {attempt : Attempt}
    (rotates : Rotates e i h attempt) {sealed : Value}
    (puts : At e₁ i h (.putResponse attempt sealed))
    (unexpired : s.now < attempt.claim.familyExpiresMs)
    (unrevoked : s.store.live s.now (.revoked attempt.claim.familyId) = none) :
    ∀ e' ∈ later, ∀ x, e'.change ≠ some (.grace h attempt.claim.claimId, x) := by
  intro e' newer x change
  have member' : e' ∈ later ++ e₁ :: earlier := List.mem_append_left _ newer
  obtain ⟨earlier', run', _, inside'⟩ := run.of_mem member'
  have mine : attempt.claim.claimId.call = i := (puts.formed run.split.1).1.1.1
  cases changes run' rfl change with
  | refresh j h' p step formed alters =>
      generalize key : Key.grace h attempt.claim.claimId = key at alters
      cases alters with
      | @response attempt' _ vacant =>
          injection key with handle claimId
          obtain ⟨⟨⟨theirs, _⟩, _⟩, _⟩ := formed
          have same : i = j := by rw [← mine, ← theirs, claimId]
          subst same
          obtain ⟨t, by₁, call⟩ := puts
          obtain ⟨t', by₂, call'⟩ := step
          have rank : t.call.rank = 4 := by rw [call]; rfl
          have rank' : t'.call.rank = 4 := by rw [call']; rfl
          obtain rfl := eq_of_rank run (by simp) member' by₁ by₂ (by omega) (by omega) (by omega)
          exact run.step_once by₁ newer
      | discard =>
          subst key
          have same : i = j := by rw [← mine]; exact formed.1
          subst same
          exact not_discards (fun _ _ _ faultless => faultless.oneClock) run member member' rotates
            unexpired unrevoked step
      | erase =>
          subst key
          obtain ⟨_, _, there⟩ := step.thread
          obtain ⟨k, other⟩ := (erasesHandles run' there).2 _ (List.mem_cons_self ..)
          cases other
      | claim => cases key
      | successor => cases key
      | rotate => cases key
      | head => cases key
      | release => cases key
      | marker => cases key
  | creation j p step formed alters =>
      generalize key : Key.grace h attempt.claim.claimId = key at alters
      cases alters with
      | record => cases key
      | head => cases key

/-! ## The recorded response -/

/-- The rotation that a record describes. -/
structure Winner (events : List R.machine.Event) (h : Name) (record : Record) (attempt : Attempt) :
    Prop where
  rotates : ∃ e ∈ events, ∃ i, Rotates e i h attempt
  record : record = attempt.rotated

/-- **While the grace period lasts, the rotated record is live, and so is the winner's
response.** -/
theorem recorded_in_grace (run : R.machine.Runs (Faultless R) events s) {h : Name} {record : Record}
    (grace : InGrace R s h record) : ∃ attempt, Winner events h record attempt ∧
      (∃ bytes, s.store.live s.now (.handle h) = some bytes ∧ Sealed h record bytes) ∧
      ∃ nonce, s.store.live s.now (.grace h attempt.claim.claimId) =
        some (.sealed .grace (.grace h attempt.claim.claimId) (.response attempt.response) nonce) := by
  obtain ⟨⟨entry, there, sealed⟩, ⟨rotatedMs, claimId, key, state, within⟩, unexpired, unrevoked⟩ :=
    grace
  obtain ⟨e, member, i, attempt, rotates, same, expires⟩ := rotates_of_entry run there sealed state
  subst same
  injection state with stamp _ _
  have unexpired' : s.now < attempt.claim.familyExpiresMs := unexpired
  obtain ⟨rotated, step, _⟩ := id rotates
  obtain ⟨earlier, run', _, inside⟩ := run.of_mem member
  obtain ⟨_, _, thread⟩ := step.thread
  obtain ⟨e₁, older₁, value, puts, change⟩ :=
    recorded_of_prepared run' thread (.inr (.inr (.inr ⟨_, rfl⟩)))
  -- the winner read its clock before its writes
  have stamped : attempt.now ≤ e₁.before.now ∧ attempt.now < attempt.claim.familyExpiresMs ∧
      attempt.familyTtl = attempt.claim.familyExpiresMs - attempt.now := by
    obtain ⟨_, run₁, _⟩ := run'.of_mem older₁
    obtain ⟨_, _, thread₁⟩ := puts.thread
    obtain ⟨e₀, older₀, reads, left⟩ := stamp_of_attempt run₁ thread₁ rfl
    obtain ⟨_, run₀, faultless, _⟩ := run₁.of_mem older₀
    refine ⟨?_, ttlUntil_eq_some_iff.mp left⟩
    rw [reads.reading_eq faultless.oneClock]
    exact run₁.now_le older₀
  have ordered : e₁.before.now ≤ e.before.now := run'.now_le older₁
  obtain ⟨later, earlier₁, rfl⟩ := List.mem_iff_append.mp (inside older₁)
  refine ⟨attempt, ⟨⟨e, member, i, rotates⟩, rfl⟩, ⟨entry.value, ?_, sealed⟩, ?_⟩
  · exact Store.live_of_entry there (by omega)
  · obtain ⟨run₁, _, s₁, taken, next⟩ := run.split
    obtain ⟨nonce, rfl⟩ := (puts.formed run₁).2
    have kept := next.store_of_untouched run
      (response_untouched run member rotates puts unexpired' unrevoked)
    rw [step_store taken, change, Store.applyChange_same] at kept
    refine ⟨nonce, Store.live_of_entry kept ?_⟩
    show s.now < e₁.before.now + min (R.grace + graceResponseMargin) attempt.familyTtl
    simp only [graceResponseMargin]
    omega

/-! ## Duplicates -/

/-- Where a duplicate is that presents a handle in its grace period, after this many steps. -/
def Pc.Replays (events : List R.machine.Event) (h : Name) (record : Record) : Pc → ℕ → Prop
  | load, steps => steps = 1
  | openRecord bytes, steps => steps = 2 ∧ Sealed h record bytes
  | readClock loaded, steps => steps = 3 ∧ loaded.record = record
  | isRevoked loaded _, steps => steps = 4 ∧ loaded.record = record
  | loadGrace claimId, steps => steps = 5 ∧ ∃ rotatedMs key, record.state = .rotated rotatedMs claimId key
  | openGrace claimId bytes, steps => steps = 6 ∧ ∃ attempt nonce, Winner events h record attempt ∧
      bytes = .sealed .grace (.grace h claimId) (.response attempt.response) nonce
  | done outcome, _ => ∃ attempt, Winner events h record attempt ∧ outcome = .response attempt.response
  | _, _ => False

theorem Winner.mono {events' : List R.machine.Event} (inside : events ⊆ events') {h : Name}
    {record : Record} {attempt : Attempt} (winner : Winner events h record attempt) :
    Winner events' h record attempt := by
  obtain ⟨⟨e, member, rotates⟩, same⟩ := winner
  exact ⟨⟨e, inside member, rotates⟩, same⟩

theorem Pc.Replays.mono {events' : List R.machine.Event} (inside : events ⊆ events') {h : Name}
    {record : Record} {p : Pc} {steps : ℕ} (replays : p.Replays events h record steps) :
    p.Replays events' h record steps := by
  cases p with
  | openGrace claimId bytes =>
      obtain ⟨count, attempt, nonce, winner, same⟩ := replays
      exact ⟨count, attempt, nonce, winner.mono inside, same⟩
  | done outcome =>
      obtain ⟨attempt, winner, same⟩ := replays
      exact ⟨attempt, winner.mono inside, same⟩
  | _ => exact replays

theorem Pc.Replays.bound {h : Name} {record : Record} {p : Pc} {steps : ℕ}
    (replays : p.Replays events h record steps) :
    (∃ attempt, Winner events h record attempt ∧ p = .done (.response attempt.response)) ∨
      steps < 7 := by
  cases p with
  | load => exact .inr (by simp only [Pc.Replays] at replays; omega)
  | openRecord | readClock | isRevoked | loadGrace | openGrace =>
      have count := replays.1
      exact .inr (by omega)
  | done outcome =>
      obtain ⟨attempt, winner, rfl⟩ := replays
      exact .inl ⟨attempt, winner, rfl⟩
  | _ => exact replays.elim

/-- **A step of a duplicate leads on to the recorded response.** -/
theorem Pc.Replays.edge (run : R.machine.Runs (Faultless R) events s) {h name : Name}
    {record : Record} (grace : InGrace R s h record) {choice : Choice} {steps : ℕ} {p q : Pc}
    (replays : p.Replays events h record steps) (served : choice.sealer = .works)
    (clock : choice.reading = s.now)
    (past : ∀ loaded reading, p = .isRevoked loaded reading → reading ≤ s.now)
    (edge : Edge R h s.store s.now .answered choice name p q) :
    q.Replays events h record (steps + 1) := by
  obtain ⟨attempt, winner, ⟨bytes, live, sealed⟩, nonce, recorded⟩ := recorded_in_grace run grace
  obtain ⟨rotatedMs, claimId, key, state, within⟩ := grace.within
  have claimed : ∀ {rotatedMs claimId key}, record.state = .rotated rotatedMs claimId key →
      claimId = attempt.claim.claimId := by
    intro rotatedMs claimId key state
    rw [winner.record] at state
    cases state
    rfl
  cases edge with
  | refuse _ reason =>
      cases reason with
      | fault faulty => simp [Faulty, served] at faulty
      | invalid zero => cases p <;> first | exact replays.elim | cases zero
      | unopenable foreign =>
          obtain ⟨_, nonce, rfl⟩ := replays
          exact absurd rfl (foreign record nonce)
      | unopenableGrace foreign =>
          obtain ⟨_, attempt, nonce, _, rfl⟩ := replays
          exact absurd rfl (foreign attempt.response nonce)
      | absent gone =>
          rw [live] at gone
          cases gone
      | expired lapsed =>
          obtain ⟨_, rfl⟩ := replays
          have := grace.unexpired
          omega
      | revoked marked =>
          obtain ⟨_, rfl⟩ := replays
          rw [grace.unrevoked] at marked
          cases marked
      | _ => exact replays.elim
  | wait _ reason =>
      cases reason with
      | claimed _ state' =>
          obtain ⟨_, rfl⟩ := replays
          rw [state] at state'
          cases state'
      | unrecorded gone =>
          obtain ⟨_, rotatedMs, key, state⟩ := replays
          rw [claimed state, recorded] at gone
          cases gone
      | _ => exact replays.elim
  | loaded found =>
      rw [live] at found
      cases found
      exact ⟨congrArg Nat.succ replays, sealed⟩
  | opened =>
      obtain ⟨count, same⟩ := replays
      exact ⟨congrArg Nat.succ count, Sealed.unique ⟨_, rfl⟩ same⟩
  | unexpired => exact ⟨congrArg Nat.succ replays.1, replays.2⟩
  | free _ state' =>
      obtain ⟨_, rfl⟩ := replays
      rw [state] at state'
      cases state'
  | abandoned _ state' =>
      obtain ⟨_, rfl⟩ := replays
      rw [state] at state'
      cases state'
  | replay _ state' =>
      obtain ⟨count, rfl⟩ := replays
      exact ⟨congrArg Nat.succ count, _, _, state'⟩
  | reuse _ state' late =>
      obtain ⟨_, rfl⟩ := replays
      have := past _ _ rfl
      rw [state] at state'
      cases state'
      omega
  | recorded found =>
      obtain ⟨count, rotatedMs, key, state⟩ := replays
      obtain rfl := claimed state
      rw [recorded] at found
      cases found
      exact ⟨congrArg Nat.succ count, attempt, nonce, winner, rfl⟩
  | replayed =>
      obtain ⟨_, attempt', nonce', winner', same⟩ := replays
      injection same with _ _ plain
      injection plain with response
      exact ⟨attempt', winner', by rw [response]⟩
  | unprepared preparing => cases p <;> first | exact replays.elim | cases preparing
  | erase erasing => cases p <;> first | exact replays.elim | cases erasing
  | revoked revoking => cases p <;> first | exact replays.elim | cases revoking
  | _ => exact replays.elim

/-- The sealer serves the call, and the handle stays in its grace period during it. -/
def Served (R : Rotator) (events : List R.machine.Event) (i : ℕ) (h : Name) (record : Record) :
    Prop :=
  ∀ e ∈ events, ∀ delivery choice, e.label = .step i delivery choice →
    choice.sealer = .works ∧ InGrace R e.before h record

/-- **A duplicate in the grace period gets the winner's response**, without asking the upstream
and without waiting. -/
theorem replays_in_grace (run : R.machine.Runs (Faultless R) events s) {i steps since : ℕ}
    {h : Name} {record : Record} {p : Pc}
    (there : s.threads[i]? = some ⟨.rotating h p, steps, since⟩)
    (served : Served R events i h record) :
    p.Replays events h record steps ∧ ∀ e ∈ events, ∀ t, e.By i t →
      (∀ token, (t.call.await R).question? ≠ some (.upstream token)) ∧
      ∀ duration, (t.call.await R).question? ≠ some (.sleep duration) := by
  refine run.thread_invariant
    (I := fun es i (t : Thread Call) => ∀ p, t.call = .rotating h p → Served R es i h record →
      p.Replays es h record t.steps ∧ ∀ e ∈ es, ∀ t, e.By i t →
        (∀ token, (t.call.await R).question? ≠ some (.upstream token)) ∧
        ∀ duration, (t.call.await R).question? ≠ some (.sleep duration))
    ?_ ?_ ?_ there p rfl served
  · intro e es i t earlier other p same served
    obtain ⟨replays, idle⟩ := earlier p same fun e' member => served e' (List.mem_cons_of_mem _ member)
    refine ⟨replays.mono (List.subset_cons_self ..), fun e' member t' stepped => ?_⟩
    rcases List.mem_cons.mp member with rfl | older
    · exact absurd stepped (other t')
    · exact idle e' older t' stepped
  · intro es s input run p same _
    refine ⟨?_, fun e member t stepped => absurd stepped (run.not_by_begin e member t)⟩
    cases input with
    | issue token => cases same
    | refresh presented =>
        cases presented with
        | rotating handle =>
            cases same
            rfl
        | sealedHandle | other => cases same
  · intro es s i delivery choice t call run faultless before earlier resumed q same served
    subst same
    obtain ⟨call₀, steps, since⟩ := t
    cases call₀ with
    | founding p =>
        obtain ⟨_, same, _⟩ := founding_next resumed
        cases same
    | rotating h₀ p =>
        obtain ⟨_, same, edge⟩ := rotating_next resumed
        cases same
        obtain ⟨replays, idle⟩ :=
          earlier p rfl fun e' member => served e' (List.mem_cons_of_mem _ member)
        obtain ⟨works, grace⟩ := served _ (List.mem_cons_self ..) delivery choice rfl
        obtain ⟨rfl, clock⟩ := faultless i delivery choice rfl
        refine ⟨?_, fun e member t stepped => ?_⟩
        · refine (replays.edge run grace works clock ?_ edge).mono (List.subset_cons_self ..)
          rintro loaded reading rfl
          obtain ⟨⟨e, older, step, delivery, choice, label, rfl⟩, _⟩ :=
            readsClock_of_isRevoked run before
          obtain ⟨_, _, faultless', _⟩ := run.of_mem older
          rw [(faultless' i delivery choice label).2]
          exact run.now_le older
        · rcases List.mem_cons.mp member with rfl | older
          · obtain rfl := Option.some.inj (before.symm.trans stepped.1)
            cases p with
            | load | openRecord | readClock | isRevoked | loadGrace | openGrace =>
                exact ⟨fun token asks => (by cases asks), fun duration asks => (by cases asks)⟩
            | done => cases resumed
            | _ => exact replays.elim
          · exact idle e older t stepped

/-! ## Runs -/

/-- A rotated handle can be replayed as long as its grace period lasts. -/
structure ReplayableInGrace (events : List R.machine.Event) (s : R.machine.State) : Prop where
  /-- The response is kept under the claim id of the rotated record, and the successor it names
  was stored before the rotation. -/
  recorded : ∀ h record, InGrace R s h record → ∃ later e earlier i attempt,
    events = later ++ e :: earlier ∧ Rotates e i h attempt ∧ record = attempt.rotated ∧
    (∃ nonce, s.store.live s.now (.grace h attempt.claim.claimId) =
      some (.sealed .grace (.grace h attempt.claim.claimId) (.response attempt.response) nonce)) ∧
    attempt.Named R ∧ ∃ e₁ ∈ earlier, ∃ successor expires,
      Sealed attempt.successorHandle attempt.successor successor ∧
      e₁.change = some (attempt.successorKey, some ⟨successor, expires⟩)
  /-- A duplicate ends with the winner's response within six steps, none of which asks the
  upstream or waits. -/
  replayed : ∀ i h record p steps since, s.threads[i]? = some ⟨.rotating h p, steps, since⟩ →
    Served R events i h record →
    ((∃ attempt, Winner events h record attempt ∧ p = .done (.response attempt.response)) ∨
      steps < 7) ∧
    ∀ e ∈ events, ∀ t, e.By i t → (∀ token, (t.call.await R).question? ≠ some (.upstream token)) ∧
      ∀ duration, (t.call.await R).question? ≠ some (.sleep duration)

/-- **A rotated handle can be replayed as long as its grace period lasts.** -/
theorem replayable_in_grace (run : R.machine.Runs (Faultless R) events s) :
    ReplayableInGrace events s where
  recorded h record grace := by
    obtain ⟨attempt, ⟨⟨e, member, i, rotates⟩, same⟩, _, recorded⟩ := recorded_in_grace run grace
    obtain ⟨later, earlier, rfl⟩ := List.mem_iff_append.mp member
    have run' := run.split.1
    obtain ⟨_, step, _⟩ := id rotates
    obtain ⟨_, _, there⟩ := step.thread
    obtain ⟨e₁, older, successor, puts, change⟩ := succeeded_of_prepared run' there (.inr ⟨_, rfl⟩)
    obtain ⟨_, run₁, _⟩ := run'.of_mem older
    exact ⟨later, e, earlier, i, attempt, rfl, rotates, same, recorded,
      named_of_attempt run' there rfl, e₁, older, successor, _, (puts.formed run₁).2, change⟩
  replayed i h record p steps since there served := by
    obtain ⟨replays, idle⟩ := replays_in_grace run there served
    exact ⟨replays.bound, idle⟩

/-- Whether a step is without fault. -/
def faultlessly (s : R.machine.State) : R.machine.Lbl → Bool
  | .step _ delivery choice => delivery = .answered && choice.reading = s.now
  | _ => true

theorem faultless_of_faultlessly (events : List R.machine.Event) (s : R.machine.State)
    (label : R.machine.Lbl) (h : faultlessly s label = true) : Faultless R events s label := by
  rintro i delivery choice rfl
  simpa [faultlessly] using h

/-- A handle is rotated at 100, and replayed in the last millisecond of its grace period. -/
theorem replayable_in_grace_of_duplicate :
    ∃ events s, (sampleRotator 30000 1000000 .default).machine.Runs
        (Faultless (sampleRotator 30000 1000000 .default)) events s ∧
      Answered s 1 ⟨0, 0⟩ (.response (handsOut ⟨1, 8⟩)) ∧
      Answered s 2 ⟨0, 0⟩ (.response (handsOut ⟨1, 8⟩)) ∧
      ReplayableInGrace (R := sampleRotator 30000 1000000 .default) events s := by
  obtain ⟨events, s, run, won, replayed⟩ := Runs.exists_of_replay
    (M := (sampleRotator 30000 1000000 .default).machine)
    (fun events s label => faultless_of_faultlessly events s label)
    ([.begin (.issue "token")] ++ steps 0 4 (.good 0) ++
      [.tick 100, .begin (.refresh (.rotating ⟨0, 0⟩))] ++ steps 1 17 (.good 100) ++
      [.tick 30000, .begin (.refresh (.rotating ⟨0, 0⟩))] ++ steps 2 6 (.good 30100))
    (fun _ s => Answered s 1 ⟨0, 0⟩ (.response (handsOut ⟨1, 8⟩)) ∧
      Answered s 2 ⟨0, 0⟩ (.response (handsOut ⟨1, 8⟩))) (by decide +kernel)
  exact ⟨events, s, run, won, replayed, replayable_in_grace run⟩

end OAuthRelay.Rotation
