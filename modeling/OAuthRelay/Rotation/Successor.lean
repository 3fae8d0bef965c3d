import OAuthRelay.Rotation.Past

/-!
# One successor for each handle

Whatever the interleaving, the faults and the clocks, a handle is rotated at most once,
and every successful response for it is the response of that rotation: the winner returns
it, and a replay reads it from the record of the claim the rotated record names.
-/

set_option autoImplicit false

namespace OAuthRelay.Rotation

open OAuthRelay.Async OAuthRelay.Async.Machine

variable {R : Rotator} {ok : List R.machine.Event → R.machine.State → R.machine.Lbl → Prop}
  {events : List R.machine.Event} {s : R.machine.State}

/-- A handle is rotated from a record that holds a token. -/
theorem Rotates.not_tokenless {e : R.machine.Event} (run : R.machine.Runs ok events e.before)
    {i : ℕ} {h : Name} {attempt : Attempt} (rotates : Rotates e i h attempt) :
    ¬ Tokenless e.before h := by
  intro tokenless
  obtain ⟨rotated, step, _, change⟩ := rotates
  cases step.alters change with
  | rotate live =>
      have frames : attempt.Formed i h := (step.formed run).1
      obtain ⟨_, sealed⟩ := frames.1.sealed
      exact tokenless.not_live sealed rfl live

/-- **A handle is rotated at most once.** -/
theorem rotation_unique (run : R.machine.Runs ok events s) {e e' : R.machine.Event}
    (member : e ∈ events) (member' : e' ∈ events) {i i' : ℕ} {h : Name} {attempt attempt' : Attempt}
    (rotates : Rotates e i h attempt) (rotates' : Rotates e' i' h attempt') :
    e = e' ∧ i = i' ∧ attempt = attempt' := by
  -- a second rotation would find the handle without a token
  have once : ∀ {later earlier : List R.machine.Event} {e₁ e₂ : R.machine.Event} {i₁ i₂ : ℕ}
      {a₁ a₂ : Attempt}, events = later ++ e₂ :: earlier → e₁ ∈ earlier → Rotates e₁ i₁ h a₁ →
      ¬ Rotates e₂ i₂ h a₂ := by
    intro later earlier e₁ e₂ i₁ i₂ a₁ a₂ parts older rotates₁ rotates₂
    subst parts
    obtain ⟨between, before, rfl⟩ := List.mem_iff_append.mp older
    have run₂ := run.split.1
    obtain ⟨run₁, _, s₁, taken, next⟩ := run₂.split
    obtain ⟨e₀, born, births⟩ := rotates₁.born run₁ rfl
    refine rotates₂.not_tokenless run₂ ?_
    refine (rotates₁.tokenless taken).later next run₂ ?_
    exact ⟨e₀, List.mem_cons_of_mem _ born, births⟩
  rcases mem_before member member' with rfl | ⟨later, earlier, parts, older⟩ |
    ⟨later, earlier, parts, older⟩
  · obtain ⟨_, ⟨t, by₁, call⟩, _⟩ := rotates
    obtain ⟨_, ⟨t', by₂, call'⟩, _⟩ := rotates'
    obtain rfl := by₁.index_eq by₂
    obtain rfl := by₁.unique by₂
    rw [call] at call'
    cases call'
    exact ⟨rfl, rfl, rfl⟩
  · exact absurd rotates (once parts older rotates')
  · exact absurd rotates' (once parts older rotates)

/-- What the store keeps for replays was put there by a call with that claim. -/
theorem putResponse_of_store (run : R.machine.Runs ok events s) {h claimId : Name}
    {entry : Entry Value} (there : s.store (.grace h claimId) = some entry) :
    ∃ e ∈ events, ∃ attempt, At e claimId.call h (.putResponse attempt entry.value) ∧
      attempt.claim.claimId = claimId ∧ ∃ nonce, entry.value =
        .sealed .grace (.grace h claimId) (.response attempt.response) nonce := by
  obtain ⟨later, e, earlier, rfl, change, _⟩ := run.writer there
  refine ⟨e, by simp, ?_⟩
  cases changes run.split.1 rfl change with
  | refresh i h' p step formed alters =>
      generalize key : Key.grace h claimId = key at alters
      cases alters with
      | response vacant =>
          cases key
          obtain ⟨⟨⟨mine, _⟩, _⟩, nonce, sealed⟩ := formed
          subst mine
          exact ⟨_, step, rfl, nonce, sealed⟩
      | claim => cases key
      | successor => cases key
      | rotate => cases key
      | head => cases key
      | release => cases key
      | marker => cases key
  | creation i p step formed alters =>
      generalize key : Key.grace h claimId = key at alters
      cases alters with
      | record => cases key
      | head => cases key

/-- A handle that was read rotated was rotated. -/
theorem rotates_of_loads (run : R.machine.Runs ok events s) {e : R.machine.Event}
    (member : e ∈ events) {i : ℕ} {h claimId : Name} {bytes : Value} {record : Record}
    {rotatedMs : ℕ} {key : Key} (loads : Loads e i h bytes) (sealed : Sealed h record bytes)
    (state : record.state = .rotated rotatedMs claimId key) :
    ∃ e' ∈ events, ∃ j attempt, Rotates e' j h attempt ∧ record = attempt.rotated := by
  obtain ⟨earlier, run₀, _, inside⟩ := run.of_mem member
  obtain ⟨entry, there, _, rfl⟩ := Store.live_eq_some_iff.mp loads.2
  obtain ⟨e', older, rotates⟩ := rotates_of_store run₀ there sealed state
  exact ⟨e', inside older, rotates⟩

/-- A replay is of a rotation by the call that drew the claim id. -/
theorem rotates_of_replays (run : R.machine.Runs ok events s) {e : R.machine.Event}
    (member : e ∈ events) {i : ℕ} {h claimId : Name} (replays : Replays e i h claimId) :
    ∃ e' ∈ events, ∃ attempt, Rotates e' claimId.call h attempt ∧
      attempt.claim.claimId = claimId := by
  obtain ⟨loaded, reading, rotatedMs, key, step, state, _, _⟩ := replays
  obtain ⟨earlier, run₀, _, inside⟩ := run.of_mem member
  obtain ⟨steps, since, there⟩ := step.thread
  obtain ⟨e₁, older₁, loads⟩ := loads_of_bytes run₀ there (show Pc.bytes? _ = some loaded.bytes from rfl)
  have frames : loaded.Formed h := step.formed run₀
  obtain ⟨e₂, older₂, j, attempt, rotates, record⟩ :=
    rotates_of_loads run₀ older₁ loads frames.sealed state
  rw [record] at state
  cases state
  obtain ⟨_, step₂, _⟩ := rotates
  obtain ⟨earlier₂, run₂, _⟩ := run₀.of_mem older₂
  have mine : attempt.claim.claimId.call = j := (step₂.formed run₂).1.1.1
  subst mine
  exact ⟨e₂, inside older₂, attempt, ⟨_, step₂, ‹_›⟩, rfl⟩

/-- An opened response was recorded by the call that drew the claim id. -/
theorem putResponse_of_opens (run : R.machine.Runs ok events s) {e : R.machine.Event}
    (member : e ∈ events) {i : ℕ} {h claimId : Name} {response : StoredResponse}
    (opens : Opens e i h claimId response) :
    ∃ e' ∈ events, ∃ attempt sealed, At e' claimId.call h (.putResponse attempt sealed) ∧
      response = attempt.response := by
  obtain ⟨nonce, step⟩ := opens
  obtain ⟨earlier, run₀, _, inside⟩ := run.of_mem member
  obtain ⟨steps, since, there⟩ := step.thread
  obtain ⟨e₁, older₁, step₁, live⟩ := read_of_openGrace run₀ there
  obtain ⟨earlier₁, run₁, _, inside₁⟩ := run₀.of_mem older₁
  obtain ⟨entry, held, _, same⟩ := Store.live_eq_some_iff.mp live
  obtain ⟨e₂, older₂, attempt, step₂, _, nonce', sealed⟩ := putResponse_of_store run₁ held
  rw [same] at sealed
  cases sealed
  exact ⟨e₂, inside (inside₁ older₂), attempt, _, step₂, rfl⟩

theorem replays_of_opens (run : R.machine.Runs ok events s) {e : R.machine.Event}
    (member : e ∈ events) {i : ℕ} {h claimId : Name} {response : StoredResponse}
    (opens : Opens e i h claimId response) : ∃ e' ∈ events, Replays e' i h claimId := by
  obtain ⟨nonce, step⟩ := opens
  obtain ⟨earlier, run₀, _, inside⟩ := run.of_mem member
  obtain ⟨steps, since, there⟩ := step.thread
  obtain ⟨e₁, older₁, replays⟩ := replays_of_grace run₀ there (.inr ⟨_, rfl⟩)
  exact ⟨e₁, inside older₁, replays⟩

/-- **Every successful response for a handle is the response of its rotation.** -/
theorem rotates_of_success (run : R.machine.Runs ok events s) {i : ℕ} {h : Name}
    {response : StoredResponse} (answered : Answered s i h (.response response))
    (success : response.isSuccess = true) :
    ∃ e ∈ events, ∃ j attempt, Rotates e j h attempt ∧ response = attempt.response := by
  obtain ⟨steps, since, there⟩ := answered.thread
  obtain ⟨e, member, ⟨attempt, finishes, rfl⟩ | ⟨claimId, opens⟩⟩ :=
    success_of_answer run there success rfl
  · obtain ⟨earlier, run₀, _, inside⟩ := run.of_mem member
    obtain ⟨_, _, before⟩ := finishes.1.thread
    obtain ⟨e₀, older, rotates⟩ := rotates_of_swapped run₀ before (.inr rfl)
    exact ⟨e₀, inside older, i, attempt, rotates, rfl⟩
  · obtain ⟨e₁, member₁, replays⟩ := replays_of_opens run member opens
    obtain ⟨e₂, member₂, attempt, rotates, _⟩ := rotates_of_replays run member₁ replays
    obtain ⟨e₃, member₃, attempt', _, step, rfl⟩ := putResponse_of_opens run member opens
    -- both are steps of the call that drew the claim id, which prepares one rotation
    obtain ⟨_, step₂, _⟩ := rotates
    have same := attempt_unique run member₂ member₃ step₂ step rfl rfl
    exact ⟨e₂, member₂, _, attempt, ⟨_, step₂, ‹_›⟩, by rw [same]⟩

/-- A handle that is rotated keeps its rotated record, or loses it. -/
theorem rotated_stays {later earlier : List R.machine.Event} {s₀ : R.machine.State}
    (run₀ : R.machine.Runs ok earlier s₀) (run : R.machine.Runs ok (later ++ earlier) s) {h : Name}
    {entry : Entry Value} (there : s₀.store (.handle h) = some entry)
    (rotated : entry.value.isRotated = true) :
    s.store (.handle h) = some entry ∨ s.store (.handle h) = none := by
  rw [← there]
  refine tokenless_stays run₀ run (born_of_store run₀ there) ?_
  intro entry' record there' sealed
  rw [there] at there'
  cases there'
  obtain ⟨rotatedMs, claimId, key, state⟩ := sealed.rotated rotated
  rw [state]
  rfl

/-- **At most one successor is handed out for a handle.** In every run, all successful
responses for a handle are equal, and once its record is rotated it stays as it is until
it is gone for good. -/
theorem one_successor (run : R.machine.Runs R.machine.anyStep events s) :
    (∀ (h : Name) (i j : ℕ) (response response' : StoredResponse),
      Answered s i h (.response response) → Answered s j h (.response response') →
      response.isSuccess = true → response'.isSuccess = true → response = response') ∧
    (∀ (later earlier : List R.machine.Event) (e : R.machine.Event) (h : Name)
      (entry : Entry Value), events = later ++ e :: earlier →
      e.before.store (.handle h) = some entry → entry.value.isRotated = true →
      s.store (.handle h) = some entry ∨ s.store (.handle h) = none) := by
  refine ⟨?_, ?_⟩
  · intro h i j response response' there there' success success'
    obtain ⟨e, member, _, attempt, rotates, rfl⟩ := rotates_of_success run there success
    obtain ⟨e', member', _, attempt', rotates', rfl⟩ := rotates_of_success run there' success'
    rw [(rotation_unique run member member' rotates rotates').2.2]
  · intro later earlier e h entry parts there rotated
    subst parts
    have whole : R.machine.Runs R.machine.anyStep ((later ++ [e]) ++ earlier) s := by simpa using run
    exact rotated_stays run.split.1 whole there rotated

/-- A winner and a replay answer the same, and the record the replay read is still there. -/
theorem one_successor_of_replay :
    ∃ events s, (sampleRotator 30000 1000000 .default).machine.Runs
        (sampleRotator 30000 1000000 .default).machine.anyStep events s ∧
      Answered s 1 ⟨0, 0⟩ (.response (handsOut ⟨1, 8⟩)) ∧
      (∀ response, Answered s 2 ⟨0, 0⟩ (.response response) → response.isSuccess = true →
        handsOut ⟨1, 8⟩ = response) ∧
      ∃ e ∈ events, ∃ entry, e.before.store (.handle ⟨0, 0⟩) = some entry ∧
        (s.store (.handle ⟨0, 0⟩) = some entry ∨ s.store (.handle ⟨0, 0⟩) = none) := by
  obtain ⟨events, s, run, won, _, found⟩ := exists_run (sampleRotator 30000 1000000 .default)
    ([.begin (.issue "token")] ++ steps 0 4 (.good 0) ++
      [.begin (.refresh (.rotating ⟨0, 0⟩)), .begin (.refresh (.rotating ⟨0, 0⟩))] ++
      steps 1 17 (.good 0) ++ steps 2 6 (.good 0))
    (fun events s => Answered s 1 ⟨0, 0⟩ (.response (handsOut ⟨1, 8⟩)) ∧
      Answered s 2 ⟨0, 0⟩ (.response (handsOut ⟨1, 8⟩)) ∧
      events.any (fun e => (e.before.store (.handle ⟨0, 0⟩)).any fun entry =>
        entry.value.isRotated) = true)
    (by decide +kernel)
  obtain ⟨e, member, found⟩ := List.any_eq_true.mp found
  obtain ⟨entry, there, rotated⟩ := (Option.any_eq_true _ _).mp found
  obtain ⟨later, earlier, parts⟩ := List.mem_iff_append.mp member
  refine ⟨events, s, run, won, fun response replayed success => ?_, e, member, entry, there, ?_⟩
  · exact (one_successor run).1 _ _ _ _ _ won replayed (by decide +kernel) success
  · exact (one_successor run).2 _ _ _ _ _ parts there rotated

end OAuthRelay.Rotation
