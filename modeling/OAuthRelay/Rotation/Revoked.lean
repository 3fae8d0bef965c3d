import OAuthRelay.Rotation.Claims
import OAuthRelay.Rotation.Marker

/-!
# A revoked family yields nothing

Every path to a successful response, and every path to the upstream, reads the family's
marker and finds it absent: the loop before the claim and before a replay, and the winner
once more after its rotation. As a marker outlives the family, a call that begins after it
was written neither asks the upstream nor answers with tokens. A call that finds the
marker answers `invalid_grant`, and a winner first deletes what it wrote.
-/

set_option autoImplicit false

namespace OAuthRelay.Rotation

open OAuthRelay.Async OAuthRelay.Async.Machine

variable {R : Rotator} {ok : List R.machine.Event → R.machine.State → R.machine.Lbl → Prop}
  {events : List R.machine.Event} {s : R.machine.State}

/-! ## Reading the marker -/

/-- The family whose marker a call reads next. -/
def Pc.marker? : Pc → Option (Name × ℕ)
  | isRevoked loaded _ => some loaded.record.family
  | isRevokedInFlight attempt => some attempt.claim.family
  | isRevokedLost held => some held.family
  | _ => none

/-- The step reads the family's marker and finds this. -/
def ReadsMarker (e : R.machine.Event) (i : ℕ) (h : Name) (family : Name × ℕ)
    (found : Option Value) : Prop :=
  (∃ p, At e i h p ∧ p.marker? = some family) ∧
    e.before.store.live e.before.now (.revoked family.1) = found

theorem Pc.family?_of_marker? {p : Pc} {family : Name × ℕ} (reads : p.marker? = some family) :
    p.family? = some family := by
  cases p <;> first | exact reads | cases reads

theorem ReadsMarker.inFamily {e : R.machine.Event} (run : R.machine.Runs ok events s)
    (member : e ∈ events) {i : ℕ} {h : Name} {family : Name × ℕ} {found : Option Value}
    (reads : ReadsMarker e i h family found) : InFamily events h family := by
  obtain ⟨⟨p, step, marker⟩, _⟩ := reads
  obtain ⟨earlier, run₀, _, inside⟩ := run.of_mem member
  obtain ⟨_, _, there⟩ := step.thread
  exact (inFamily_of_pc run₀ there (Pc.family?_of_marker? marker)).mono inside

/-- **Whoever holds a claim has found the marker absent.** -/
theorem readsMarker_of_claim (run : R.machine.Runs ok events s) {i steps since : ℕ} {h : Name}
    {p : Pc} (there : s.threads[i]? = some ⟨.rotating h p, steps, since⟩) {held : Claim}
    (holds : p.claim? = some held) : ∃ e ∈ events, ReadsMarker e i h held.family none := by
  obtain ⟨e, member, loaded, claims⟩ := claims_of_claim run there holds
  obtain ⟨earlier, run₀, _, inside⟩ := run.of_mem member
  have family := family_of_claims run₀ claims
  obtain ⟨ttl, step, _⟩ := claims
  obtain ⟨_, _, thread⟩ := step.thread
  have looked : ∃ e ∈ earlier, ReadsMarker e i h loaded.record.family none := by
    refine past (Q := fun p => p.claiming? = some loaded)
      (E := fun e i h => ReadsMarker e i h loaded.record.family none) (by simp [Pc.claiming?]) ?_
      run₀ thread rfl
    intro es e i steps h p q delivery choice _ at₁ _ edge holds
    cases edge with
    | free unrevoked =>
        cases holds
        exact .inr ⟨⟨_, at₁, rfl⟩, unrevoked⟩
    | abandoned unrevoked =>
        cases holds
        exact .inr ⟨⟨_, at₁, rfl⟩, unrevoked⟩
    | claim => exact .inl holds
    | sealClaim => exact .inl holds
    | _ => cases holds
  obtain ⟨e', older, reads⟩ := looked
  exact ⟨e', inside older, family ▸ reads⟩

/-- A call that replays a response does not rotate the handle. -/
theorem not_rotates_of_opens (run : R.machine.Runs ok events s) {e e' : R.machine.Event}
    (member : e ∈ events) (member' : e' ∈ events) {i : ℕ} {h h' claimId : Name}
    {response : StoredResponse} {attempt : Attempt} (opens : Opens e i h claimId response) :
    ¬ Rotates e' i h' attempt := by
  rintro ⟨rotated, step', _, _⟩
  obtain ⟨nonce, step⟩ := opens
  rcases At.ordered run member member' step step' with ⟨_, _, same⟩ | follows | follows
  · cases same
  · -- nothing follows an opened response but the answer
    obtain ⟨q, same, ended⟩ := rotating_of_follows
      (P := fun p => (∃ bytes, p = .openGrace claimId bytes) ∨ ∃ outcome, p = .done outcome)
      (by
        rintro σ now delivery choice name p q edge (⟨bytes, rfl⟩ | ⟨outcome, rfl⟩)
        · cases edge with
          | refuse => exact .inr ⟨_, rfl⟩
          | wait _ reason => cases reason
          | replayed => exact .inr ⟨_, rfl⟩
          | unprepared preparing => cases preparing
          | erase erasing => cases erasing
          | revoked revoking => cases revoking
        · cases edge with
          | refuse => exact .inr ⟨_, rfl⟩
          | wait _ reason => cases reason
          | unprepared preparing => cases preparing
          | erase erasing => cases erasing
          | revoked revoking => cases revoking)
      follows (.inl ⟨_, rfl⟩)
    cases same
    rcases ended with ⟨_, other⟩ | ⟨_, other⟩
    · cases other
    · cases other
  · have := rank_of_follows follows
    simp [Call.rank, Pc.rank] at this

/-- **A successful response comes after a read that found the marker absent**, and for the
winner after its rotation. -/
theorem readsMarker_of_success (run : R.machine.Runs ok events s) {i : ℕ} {h : Name}
    {response : StoredResponse} (answered : Answered s i h (.response response))
    (success : response.isSuccess = true) : ∃ family later e earlier,
      events = later ++ e :: earlier ∧ ReadsMarker e i h family none ∧
      ∀ e' ∈ events, ∀ attempt, Rotates e' i h attempt → e' ∈ earlier := by
  obtain ⟨steps, since, there⟩ := answered.thread
  obtain ⟨e, member, ⟨attempt, finishes, _⟩ | ⟨claimId, opens⟩⟩ :=
    success_of_answer run there success rfl
  · obtain ⟨later, earlier, rfl⟩ := List.mem_iff_append.mp member
    refine ⟨_, later, e, earlier, rfl, ⟨⟨_, finishes.1, rfl⟩, finishes.2⟩, ?_⟩
    intro e' member' attempt' rotates'
    obtain ⟨_, _, before⟩ := finishes.1.thread
    obtain ⟨e₀, older, rotates⟩ := rotates_of_swapped run.split.1 before (.inr rfl)
    obtain ⟨rfl, _⟩ := rotation_unique run member' (by simp [older]) rotates' rotates
    exact older
  · obtain ⟨e₁, member₁, loaded, reading, rotatedMs, key, step, _, _, unrevoked⟩ :=
      replays_of_opens run member opens
    obtain ⟨later, earlier, rfl⟩ := List.mem_iff_append.mp member₁
    refine ⟨_, later, e₁, earlier, rfl, ⟨⟨_, step, rfl⟩, unrevoked⟩, ?_⟩
    intro e' member' attempt' rotates'
    exact absurd rotates' (not_rotates_of_opens run member member' opens)

/-! ## After the marker -/

/-- The steps of a call that began after a step are later than it. -/
theorem later_of_begun {later earlier : List R.machine.Event} {e e' : R.machine.Event}
    (run : R.machine.Runs ok (later ++ e :: earlier) s)
    (member : e' ∈ later ++ e :: earlier) {j : ℕ} (begun : e.before.threads.length ≤ j)
    {t : Thread Call} (by₁ : e'.By j t) : ∃ later' between,
      later = later' ++ e' :: between := by
  have inside := (List.getElem?_eq_some_iff.mp by₁.1).1
  rcases List.mem_append.mp member with newer | older
  · exact List.mem_iff_append.mp newer
  rcases List.mem_cons.mp older with rfl | older
  · omega
  · have := run.split.1.length_le older
    omega

/-- **After a marker no call that begins finds it absent, until the family expires.** -/
theorem not_readsMarker_of_marks {later earlier : List R.machine.Event} {e e₀ : R.machine.Event}
    (run : R.machine.Runs ok (later ++ e :: earlier) s) {h₀ : Name} {revocation : Revocation}
    {reading : ℕ}
    (lasting : ∀ {later' : List R.machine.Event} {s' : R.machine.State},
      R.machine.Runs ok (later' ++ e :: earlier) s' →
      Unexpired e₀ reading revocation.familyExpiresMs s' →
      (s'.store.live s'.now (.revoked revocation.familyId)).isSome = true)
    (unexpired : Unexpired e₀ reading revocation.familyExpiresMs s)
    (known : InFamily (later ++ e :: earlier) h₀ revocation.family)
    {j : ℕ} (begun : e.before.threads.length ≤ j) {e' : R.machine.Event}
    (member : e' ∈ later ++ e :: earlier) {family : Name × ℕ}
    (belongs : InFamily (later ++ e :: earlier) h₀ family) :
    ¬ ReadsMarker e' j h₀ family none := by
  rintro ⟨⟨p, ⟨t, by₁, call⟩, marker⟩, absent⟩
  obtain rfl := belongs.unique run known
  obtain ⟨later', between, rfl⟩ := later_of_begun run member begun by₁
  have run' : R.machine.Runs ok (later' ++ e' :: (between ++ e :: earlier)) s := by simpa using run
  have clock : e'.before.now ≤ s.now := run.now_le member
  have live := lasting run'.split.1 (by unfold Unexpired at unexpired ⊢; omega)
  change e'.before.store.live e'.before.now (.revoked revocation.familyId) = none at absent
  rw [absent] at live
  cases live

/-! ## When the marker is found -/

/-- The call has found the marker: it only deletes what it wrote. -/
def Pc.Withheld (p : Pc) : Prop :=
  p = .done .invalidGrant ∨ ∃ key rest, p = .discard key rest .revoked

theorem Pc.Withheld.edge {h name : Name} {σ : Store Key Value} {now : ℕ} {delivery : Delivery}
    {choice : Choice} {p q : Pc} (withheld : p.Withheld)
    (resumed : (p.await R h).next σ now delivery (answer choice name) = some q) : q.Withheld := by
  rcases withheld with rfl | ⟨key, rest, rfl⟩
  · cases resumed
  · cases rest with
    | nil =>
        rcases Await.next_delete resumed with ⟨_, rfl⟩ | ⟨_, _, rfl⟩
        · exact .inl rfl
        · exact .inl rfl
    | cons key' rest' =>
        rcases Await.next_delete resumed with ⟨_, rfl⟩ | ⟨_, _, rfl⟩
        · exact .inr ⟨key', rest', rfl⟩
        · exact .inr ⟨key', rest', rfl⟩

/-- The answered read of a present marker leads to a refusal. -/
theorem next_of_marker {h name : Name} {σ : Store Key Value} {now : ℕ} {choice : Choice}
    {p q : Pc} {family : Name × ℕ} {marker : Value} (reads : p.marker? = some family)
    (live : σ.live now (.revoked family.1) = some marker)
    (resumed : (p.await R h).next σ now .answered (answer choice name) = some q) :
    q = .done .invalidGrant ∨ ∃ attempt, p = .isRevokedInFlight attempt ∧
      q = .discard (.grace h attempt.claim.claimId) [attempt.successorKey] .revoked := by
  cases p with
  | isRevoked loaded reading =>
      cases reads
      rcases Await.next_get resumed with ⟨_, rfl⟩ | ⟨unanswered, _⟩
      · rw [show σ.live now (.revoked loaded.record.familyId) = some marker from live]
        exact .inl rfl
      · exact absurd rfl unanswered
  | isRevokedInFlight attempt =>
      cases reads
      rcases Await.next_get resumed with ⟨_, rfl⟩ | ⟨unanswered, _⟩
      · rw [show σ.live now (.revoked attempt.claim.familyId) = some marker from live]
        exact .inr ⟨attempt, rfl, rfl⟩
      · exact absurd rfl unanswered
  | isRevokedLost held =>
      cases reads
      rcases Await.next_get resumed with ⟨_, rfl⟩ | ⟨unanswered, _⟩
      · rw [show σ.live now (.revoked held.familyId) = some marker from live]
        exact .inl rfl
      · exact absurd rfl unanswered
  | _ => cases reads

/-- The step deletes the key, unless the store drops the request. -/
def Deletes (e : R.machine.Event) (i : ℕ) (h : Name) (key : Key) : Prop :=
  (∃ rest after, At e i h (.discard key rest after)) ∧ ∀ delivery choice,
    e.label = .step i delivery choice → delivery ≠ .notApplied → e.change = some (key, none)

theorem At.deletes {e : R.machine.Event} {i : ℕ} {h : Name} {key : Key} {rest : List Key}
    {after : AfterDiscard} (step : At e i h (.discard key rest after)) : Deletes e i h key := by
  refine ⟨⟨rest, after, step⟩, fun delivery choice label applied => ?_⟩
  obtain ⟨⟨call, steps, since⟩, ⟨there, _⟩, rfl⟩ := step
  rw [Event.change_eq label there]
  simp [Call.await, Pc.await, Await.change, Await.map, applied]

/-- **A call that finds the marker is refused for good.** -/
theorem withheld_of_marker {later earlier : List R.machine.Event} {e : R.machine.Event}
    (run : R.machine.Runs ok (later ++ e :: earlier) s) {i : ℕ} {h : Name} {family : Name × ℕ}
    {marker : Value} (reads : ReadsMarker e i h family (some marker)) {choice : Choice}
    (label : e.label = .step i .answered choice) :
    (∃ t, s.threads[i]? = some t ∧ ∃ q, t.call = .rotating h q ∧ q.Withheld) ∧
    ∀ e' ∈ later, ∀ h' p, At e' i h' p → p.Withheld := by
  obtain ⟨⟨p, step, marked⟩, live⟩ := reads
  obtain ⟨_, _, s₁, taken, run₁⟩ := run.split
  obtain ⟨delivery, choice', steps, since, q, label', resumed, there⟩ := after_of_at taken step
  rw [label] at label'
  cases label'
  have init : q.Withheld := by
    rcases next_of_marker marked live resumed with rfl | ⟨attempt, _, rfl⟩
    · exact .inl rfl
    · exact .inr ⟨_, _, rfl⟩
  -- every later step of the call is a refusal's
  have always : ∀ {later' : List R.machine.Event} {s' : R.machine.State},
      R.machine.Runs ok (later' ++ e :: earlier) s' →
      ∃ t, s'.threads[i]? = some t ∧ ∃ q, t.call = Call.rotating h q ∧ q.Withheld := by
    intro later' s' run'
    refine run₁.carry_thread run' there (P := fun call => ∃ q, call = Call.rotating h q ∧ q.Withheld)
      ⟨q, rfl, init⟩ ?_
    rintro e' member ⟨call₀, steps, since⟩ delivery choice call label there ⟨p', rfl, withheld⟩ resumed
    obtain ⟨q', rfl, inner⟩ := rotating_resumes resumed
    exact ⟨q', rfl, withheld.edge inner⟩
  refine ⟨always run, fun e' member h' p' step' => ?_⟩
  obtain ⟨later', between, rfl⟩ := List.mem_iff_append.mp member
  have run' : R.machine.Runs ok (later' ++ e' :: (between ++ e :: earlier)) s := by simpa using run
  obtain ⟨t, there', q', same, withheld⟩ := always run'.split.1
  obtain ⟨steps', since', there''⟩ := step'.thread
  rw [there''] at there'
  cases there'
  cases same
  exact withheld

/-- **A winner that finds the marker deletes what it wrote before it answers.** -/
theorem deletes_of_inFlight {later earlier : List R.machine.Event} {e : R.machine.Event}
    (run : R.machine.Runs ok (later ++ e :: earlier) s) {i : ℕ} {h : Name} {attempt : Attempt}
    {marker : Value} (step : At e i h (.isRevokedInFlight attempt))
    (live : e.before.store.live e.before.now (.revoked attempt.claim.familyId) = some marker)
    {choice : Choice} (label : e.label = .step i .answered choice) {outcome : RefreshOutcome}
    (answered : Answered s i h outcome) :
    (∃ e' ∈ later, Deletes e' i h (.grace h attempt.claim.claimId)) ∧
      ∃ e' ∈ later, Deletes e' i h attempt.successorKey := by
  obtain ⟨_, _, s₁, taken, run₁⟩ := run.split
  obtain ⟨delivery, choice', steps, since, q, label', resumed, there⟩ := after_of_at taken step
  rw [label] at label'
  cases label'
  obtain rfl : q = .discard (.grace h attempt.claim.claimId) [attempt.successorKey] .revoked := by
    rcases Await.next_get resumed with ⟨_, rfl⟩ | ⟨unanswered, _⟩
    · rw [live]
    · exact absurd rfl unanswered
  -- the two deletions come one after the other, and then the answer
  have progress : ∀ {later' : List R.machine.Event} {s' : R.machine.State},
      R.machine.Runs ok (later' ++ e :: earlier) s' →
      ∃ q steps since, s'.threads[i]? = some ⟨.rotating h q, steps, since⟩ ∧
        (q = .discard (.grace h attempt.claim.claimId) [attempt.successorKey] .revoked ∨
          (∃ e' ∈ later', Deletes e' i h (.grace h attempt.claim.claimId)) ∧
            (q = .discard attempt.successorKey [] .revoked ∨
              ∃ e' ∈ later', Deletes e' i h attempt.successorKey)) := by
    intro later'
    induction later' with
    | nil =>
        intro s' run'
        obtain rfl := run₁.unique run'
        exact ⟨_, _, _, there, .inl rfl⟩
    | cons e' later' ih =>
        intro s' run'
        cases run' with
        | @cons _ s₂ _ label run' _ taken =>
            obtain ⟨q, steps, since, there, phase⟩ := ih run'
            rcases thread_persists taken there with same |
              ⟨delivery, choice, call, rfl, resumed, after⟩
            · refine ⟨q, steps, since, same, phase.imp_right fun ⟨first, second⟩ => ?_⟩
              obtain ⟨e₁, member₁, deletes₁⟩ := first
              refine ⟨⟨e₁, List.mem_cons_of_mem _ member₁, deletes₁⟩, second.imp_right ?_⟩
              rintro ⟨e₂, member₂, deletes₂⟩
              exact ⟨e₂, List.mem_cons_of_mem _ member₂, deletes₂⟩
            · have step' : At (⟨s₂, .step i delivery choice⟩ : R.machine.Event) i h q :=
                ⟨_, ⟨there, delivery, choice, rfl⟩, rfl⟩
              obtain ⟨q', rfl, inner⟩ := rotating_resumes resumed
              refine ⟨q', _, _, after, .inr ?_⟩
              rcases phase with rfl | ⟨⟨e₁, member₁, deletes₁⟩, rfl | ⟨e₂, member₂, deletes₂⟩⟩
              · refine ⟨⟨_, List.mem_cons_self .., step'.deletes⟩, .inl ?_⟩
                rcases Await.next_delete inner with ⟨_, rfl⟩ | ⟨_, _, rfl⟩
                · rfl
                · rfl
              · exact ⟨⟨e₁, List.mem_cons_of_mem _ member₁, deletes₁⟩,
                  .inr ⟨_, List.mem_cons_self .., step'.deletes⟩⟩
              · exact ⟨⟨e₁, List.mem_cons_of_mem _ member₁, deletes₁⟩,
                  .inr ⟨e₂, List.mem_cons_of_mem _ member₂, deletes₂⟩⟩
  obtain ⟨q, steps', since', there', phase⟩ := progress run
  obtain ⟨_, _, done⟩ := answered.thread
  rw [there'] at done
  cases done
  rcases phase with other | ⟨first, other | second⟩
  · cases other
  · cases other
  · exact ⟨first, second⟩

/-! ## The main result -/

/-- What revocation means for the calls of a run. The events are given newest first. -/
structure RevokedYieldsNothing (events : List R.machine.Event) (s : R.machine.State) : Prop where
  /-- A successful response comes after a read of the call itself that found the marker
  absent, and for the winner that read comes after its rotation. -/
  unrevoked : ∀ i h response, Answered s i h (.response response) → response.isSuccess = true →
    ∃ family later e earlier, events = later ++ e :: earlier ∧ InFamily events h family ∧
      ReadsMarker e i h family none ∧
      ∀ e' ∈ events, ∀ attempt, Rotates e' i h attempt → e' ∈ earlier
  /-- Once written, the marker is live at least until the family's expiry, by the clock that
  gave its lifetime; until then no call that begins later asks the upstream for a handle of
  the family, or answers with tokens. -/
  lasting : ∀ later e earlier i h revocation ttl, events = later ++ e :: earlier →
    Marks e i h revocation ttl → InFamily events h revocation.family ∧
    ∃ e₀ ∈ earlier, ∃ reading, ReadsRevokeClock e₀ i h revocation reading ∧
      (Unexpired e₀ reading revocation.familyExpiresMs s →
        (s.store.live s.now (.revoked revocation.familyId)).isSome = true ∧
        ∀ j k family, e.before.threads.length ≤ j → InFamily events k family →
          family.1 = revocation.familyId →
          (∀ e' ∈ events, ∀ held, ¬ At e' j k (.askUpstream held)) ∧
          ∀ response, Answered s j k (.response response) → response.isSuccess = false)
  /-- A call that finds the marker does not ask the upstream any more and answers
  `invalid_grant`. -/
  refused : ∀ later e earlier i h family marker choice, events = later ++ e :: earlier →
    ReadsMarker e i h family (some marker) → e.label = .step i .answered choice →
    (∀ e' ∈ later, ∀ k held, ¬ At e' i k (.askUpstream held)) ∧
    ∀ k outcome, Answered s i k outcome → outcome = .invalidGrant
  /-- A winner that finds the marker after its rotation deletes the response and the successor
  it wrote before it answers. -/
  withdrawn : ∀ later e earlier i h attempt marker choice outcome, events = later ++ e :: earlier →
    At e i h (.isRevokedInFlight attempt) →
    e.before.store.live e.before.now (.revoked attempt.claim.familyId) = some marker →
    e.label = .step i .answered choice → Answered s i h outcome →
    (∃ e' ∈ later, Deletes e' i h (.grace h attempt.claim.claimId)) ∧
      ∃ e' ∈ later, Deletes e' i h attempt.successorKey

/-- **A revoked family yields nothing.** -/
theorem revoked_yields_nothing (run : R.machine.Runs R.machine.anyStep events s) :
    RevokedYieldsNothing events s where
  unrevoked := by
    intro i h response answered success
    obtain ⟨family, later, e, earlier, rfl, reads, after⟩ :=
      readsMarker_of_success run answered success
    exact ⟨family, later, e, earlier, rfl, reads.inFamily run (by simp), reads, after⟩
  lasting := by
    intro later e earlier i h revocation ttl parts marks
    subst parts
    have known : InFamily (later ++ e :: earlier) h revocation.family := by
      obtain ⟨marker, step, _⟩ := marks
      obtain ⟨_, _, there⟩ := step.thread
      refine (inFamily_of_pc run.split.1 there rfl).mono fun e' older => ?_
      exact List.mem_append_right _ (List.mem_cons_of_mem _ older)
    obtain ⟨e₀, older, reading, reads, lasting⟩ := marker_outlives run marks
    refine ⟨known, e₀, older, reading, reads, fun unexpired => ⟨lasting run unexpired, ?_⟩⟩
    intro j k family begun belongs named
    obtain rfl := belongs.expiry_eq run known named
    have withheld : ∀ e' ∈ later ++ e :: earlier, ∀ family',
        InFamily (later ++ e :: earlier) k family' → ¬ ReadsMarker e' j k family' none :=
      fun e' member family' belongs' =>
        not_readsMarker_of_marks run lasting unexpired belongs begun member belongs'
    refine ⟨fun e' member held asks => ?_, fun response answered => ?_⟩
    · obtain ⟨before, run₀, _, inside⟩ := run.of_mem member
      obtain ⟨_, _, there⟩ := asks.thread
      obtain ⟨e₁, older₁, reads₁⟩ := readsMarker_of_claim run₀ there rfl
      exact withheld e₁ (inside older₁) _ (reads₁.inFamily run (inside older₁)) reads₁
    · refine Bool.eq_false_iff.mpr fun success => ?_
      obtain ⟨family', later', e₁, earlier', parts, reads₁, _⟩ :=
        readsMarker_of_success run answered success
      have member : e₁ ∈ later ++ e :: earlier := by rw [parts]; simp
      exact withheld e₁ member _ (reads₁.inFamily run member) reads₁
  refused := by
    intro later e earlier i h family marker choice parts reads label
    subst parts
    obtain ⟨⟨t, there, q, same, withheld⟩, always⟩ := withheld_of_marker run reads label
    refine ⟨fun e' member k held asks => ?_, fun k outcome answered => ?_⟩
    · rcases always e' member k _ asks with other | ⟨_, _, other⟩
      · cases other
      · cases other
    · obtain ⟨_, _, done⟩ := answered.thread
      rw [there] at done
      cases done
      cases same
      rcases withheld with same | ⟨_, _, other⟩
      · cases same
        rfl
      · cases other
  withdrawn := by
    intro later e earlier i h attempt marker choice outcome parts step live label answered
    subst parts
    exact deletes_of_inFlight run step live label answered

/-- The reuse of a rotated handle revokes the family while its successor is being rotated:
the winner withholds its response, and a later call is refused. -/
theorem revoked_yields_nothing_of_reuse :
    ∃ events s, (sampleRotator 30000 1000000 .default).machine.Runs
        (sampleRotator 30000 1000000 .default).machine.anyStep events s ∧
      Answered s 2 ⟨1, 8⟩ .invalidGrant ∧ Answered s 3 ⟨0, 0⟩ .invalidGrant ∧
      Answered s 4 ⟨1, 8⟩ .invalidGrant ∧
      RevokedYieldsNothing (R := sampleRotator 30000 1000000 .default) events s := by
  obtain ⟨events, s, run, won, reused, refused⟩ := exists_run (sampleRotator 30000 1000000 .default)
    ([.begin (.issue "token")] ++ steps 0 4 (.good 0) ++
      [.begin (.refresh (.rotating ⟨0, 0⟩))] ++ steps 1 17 (.good 0) ++
      [.begin (.refresh (.rotating ⟨1, 8⟩))] ++ steps 2 15 (.good 0) ++
      [.tick 30001, .begin (.refresh (.rotating ⟨0, 0⟩))] ++ steps 3 17 (.good 30001) ++
      steps 2 4 (.good 30001) ++
      [.begin (.refresh (.rotating ⟨1, 8⟩))] ++ steps 4 4 (.good 30001))
    (fun _ s => Answered s 2 ⟨1, 8⟩ .invalidGrant ∧ Answered s 3 ⟨0, 0⟩ .invalidGrant ∧
      Answered s 4 ⟨1, 8⟩ .invalidGrant)
    (by decide +kernel)
  exact ⟨events, s, run, won, reused, refused, revoked_yields_nothing run⟩

end OAuthRelay.Rotation
