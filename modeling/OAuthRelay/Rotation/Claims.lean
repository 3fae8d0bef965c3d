import OAuthRelay.Rotation.Successor

/-!
# Claims on a handle

A claim swaps the bytes its call has read for a claimed record. From then on the handle's
record stays as the claim left it until the claim's own call releases it, another call
takes it over after the lease, or the token is gone from the record (`claim_ends`). Hence
two claims on one handle are separated by a release or a takeover.
-/

set_option autoImplicit false

namespace OAuthRelay.Rotation

open OAuthRelay.Async OAuthRelay.Async.Machine

variable {R : Rotator} {ok : List R.machine.Event → R.machine.State → R.machine.Lbl → Prop}
  {events : List R.machine.Event} {s : R.machine.State}

/-! ## How a claim is taken -/

/-- The record a call has decided to claim. -/
def Pc.claiming? : Pc → Option Loaded
  | claim loaded _ | sealClaim loaded .. | swapClaim loaded .. => some loaded
  | _ => none

/-- A claim is taken over only after the lease, by the clock of the call that takes it. -/
theorem lease_over_of_claiming (run : R.machine.Runs ok events s) {i steps since claimedMs : ℕ}
    {h claimId : Name} {token : String} {p : Pc} {loaded : Loaded}
    (there : s.threads[i]? = some ⟨.rotating h p, steps, since⟩)
    (claiming : p.claiming? = some loaded)
    (state : loaded.record.state = .claimed token claimId claimedMs) :
    ∃ e ∈ events, ∃ reading, ReadsClock e i h loaded reading ∧
      R.timing.claimLease < reading - claimedMs := by
  have looked : ∃ e ∈ events, ∃ reading, At e i h (.isRevoked loaded reading) ∧
      R.timing.claimLease < reading - claimedMs := by
    refine past (Q := fun p => p.claiming? = some loaded)
      (E := fun e i h => ∃ reading, At e i h (.isRevoked loaded reading) ∧
        R.timing.claimLease < reading - claimedMs) (by simp [Pc.claiming?]) ?_ run there claiming
    intro es e i steps h p q delivery choice _ at₁ _ edge holds
    cases edge with
    | free _ free =>
        cases holds
        rw [free] at state
        cases state
    | abandoned _ found old =>
        cases holds
        rw [found] at state
        cases state
        exact .inr ⟨_, at₁, old⟩
    | claim => exact .inl holds
    | sealClaim => exact .inl holds
    | _ => cases holds
  obtain ⟨e, member, reading, step, old⟩ := looked
  obtain ⟨earlier, run₀, _, inside⟩ := run.of_mem member
  obtain ⟨_, _, before⟩ := step.thread
  obtain ⟨⟨e₀, older, reads⟩, _⟩ := readsClock_of_isRevoked run₀ before
  exact ⟨e₀, inside older, reading, reads, old⟩

/-- The step reads the clock a claim is stamped with. -/
def ReadsClaimClock (e : R.machine.Event) (i : ℕ) (h : Name) (loaded : Loaded) (reading : ℕ) :
    Prop :=
  (∃ token, At e i h (.claim loaded token)) ∧ ∃ delivery choice,
    e.label = .step i delivery choice ∧ choice.reading = reading

/-- A claim is stamped with a clock reading before the family's expiry. -/
theorem claimClock_of_swapClaim (run : R.machine.Runs ok events s) {i steps since ttl : ℕ}
    {h : Name} {loaded : Loaded} {held : Claim}
    (there : s.threads[i]? = some ⟨.rotating h (.swapClaim loaded held ttl), steps, since⟩) :
    ∃ e ∈ events, ∃ reading, ReadsClaimClock e i h loaded reading ∧
      reading < loaded.record.familyExpiresMs ∧
      Sealed h (claimedRecord loaded held.upstreamToken held.claimId reading) held.bytes := by
  obtain ⟨_, _, family, expires, _, reading, nonce, bytes⟩ := formed run there
  rw [← family, ← expires] at bytes
  have stamped : ∃ e ∈ events, ReadsClaimClock e i h loaded reading ∧
      reading < loaded.record.familyExpiresMs := by
    refine past
      (Q := fun p => (∃ token ttl, p = .sealClaim loaded token held.claimId reading ttl) ∨
        ∃ ttl, p = .swapClaim loaded held ttl)
      (E := fun e i h => ReadsClaimClock e i h loaded reading ∧
        reading < loaded.record.familyExpiresMs) (by simp) ?_ run there (.inr ⟨_, rfl⟩)
    rintro es e i steps h p q delivery choice _ at₁ label edge (⟨token, ttl, same⟩ | ⟨ttl, same⟩)
    · cases edge with
      | claim left =>
          injection same with loads _ _ reads _
          subst loads
          have before := (ttlUntil_eq_some_iff.mp left).1
          exact .inr ⟨⟨⟨_, at₁⟩, delivery, choice, label, reads⟩, reads ▸ before⟩
      | _ => cases same
    · cases edge with
      | @sealClaim _ token claimId now =>
          injection same with loads claim _
          subst loads claim
          simp only [Value.sealed.injEq, Plain.record.injEq, claimedRecord, Record.mk.injEq,
            State.claimed.injEq] at bytes
          obtain rfl : now = reading := bytes.2.2.1.2.2.2.2
          exact .inl (.inl ⟨_, _, rfl⟩)
      | _ => cases same
  obtain ⟨e, member, reads, before⟩ := stamped
  exact ⟨e, member, reading, reads, before, nonce, bytes⟩

/-- A claim is determined by its bytes. -/
theorem Claim.Formed.ext {i j : ℕ} {h : Name} {held held' : Claim} (formed : held.Formed i h)
    (formed' : held'.Formed j h) (same : held.bytes = held'.bytes) : held = held' ∧ i = j := by
  obtain ⟨mine, claimedMs, nonce, bytes⟩ := formed
  obtain ⟨mine', claimedMs', nonce', bytes'⟩ := formed'
  have equal := same
  rw [bytes, bytes'] at equal
  simp only [Value.sealed.injEq, Plain.record.injEq, Record.mk.injEq, State.claimed.injEq] at equal
  obtain ⟨_, _, ⟨family, expires, token, claimId, _⟩, _⟩ := equal
  cases held
  cases held'
  simp only at family expires token claimId same
  subst family expires token claimId same
  exact ⟨rfl, mine.symm.trans mine'⟩

theorem Claims.formed {e : R.machine.Event} (run : R.machine.Runs ok events e.before) {i : ℕ}
    {h : Name} {loaded : Loaded} {held : Claim} (claims : Claims e i h loaded held) :
    loaded.Formed h ∧ loaded.record.state.token? = some held.upstreamToken ∧ held.Formed i h := by
  obtain ⟨ttl, step, _⟩ := claims
  obtain ⟨formed, token, _, _, claim⟩ := step.formed run
  exact ⟨formed, token, claim⟩

/-- A claim finds the bytes its call has read. -/
theorem Claims.live {e : R.machine.Event} {i : ℕ} {h : Name} {loaded : Loaded} {held : Claim}
    (claims : Claims e i h loaded held) :
    e.before.store.live e.before.now (.handle h) = some loaded.bytes := by
  obtain ⟨ttl, step, change⟩ := claims
  cases step.alters change with
  | claim live => exact live

theorem Claims.not_tokenless {e : R.machine.Event} (run : R.machine.Runs ok events e.before) {i : ℕ}
    {h : Name} {loaded : Loaded} {held : Claim} (claims : Claims e i h loaded held) :
    ¬ Tokenless e.before h := by
  intro tokenless
  obtain ⟨formed, token, _⟩ := claims.formed run
  exact tokenless.not_live formed.sealed token claims.live

theorem Claims.born {e : R.machine.Event} (run : R.machine.Runs ok events e.before) {i : ℕ}
    {h : Name} {loaded : Loaded} {held : Claim} (claims : Claims e i h loaded held) :
    ∃ e₀ ∈ events, Births e₀ h := by
  obtain ⟨entry, there, _, _⟩ := Store.live_eq_some_iff.mp claims.live
  exact born_of_store run there

/-! ## How a claim ends -/

/-- The step releases the claim. -/
def Releases (e : R.machine.Event) (i : ℕ) (h : Name) (held : Claim) : Prop :=
  ∃ bytes ttl outcome, At e i h (.swapRelease held bytes ttl outcome) ∧
    e.change = some (.handle h, some ⟨bytes, e.before.now + ttl⟩)

/-- The step of a call `j` takes the claim over: by its clock, read among these events, the
claim is older than the lease. -/
def TakesOver (events : List R.machine.Event) (e : R.machine.Event) (h : Name) (held : Claim) :
    Prop :=
  ∃ j loaded held' claimedMs, Claims e j h loaded held' ∧ loaded.bytes = held.bytes ∧
    loaded.record.state = .claimed held.upstreamToken held.claimId claimedMs ∧
    ∃ e₀ ∈ events, ∃ reading, ReadsClock e₀ j h loaded reading ∧
      R.timing.claimLease < reading - claimedMs

/-- A claim of a claimed record takes it over. -/
theorem Claims.takesOver {e : R.machine.Event} (run : R.machine.Runs ok events e.before) {i j : ℕ}
    {h : Name} {loaded : Loaded} {held held' : Claim} (formed : held.Formed i h)
    (claims : Claims e j h loaded held') (same : loaded.bytes = held.bytes) :
    TakesOver events e h held := by
  obtain ⟨claimedMs, sealed⟩ := formed.sealed
  have state : loaded.record.state = .claimed held.upstreamToken held.claimId claimedMs := by
    rw [(claims.formed run).1.sealed.unique (same ▸ sealed)]
  refine ⟨j, loaded, held', claimedMs, claims, same, state, ?_⟩
  obtain ⟨ttl, step, _⟩ := claims
  obtain ⟨_, _, there⟩ := step.thread
  exact lease_over_of_claiming run there rfl state

/-- **A claim stands until it is released or taken over, or the token is gone.** -/
theorem claim_ends {later earlier : List R.machine.Event} {e : R.machine.Event}
    (run : R.machine.Runs ok (later ++ e :: earlier) s) {i : ℕ} {h : Name} {loaded : Loaded}
    {held : Claim} (claims : Claims e i h loaded held) :
    (∃ e' ∈ later, Releases e' i h held ∨ TakesOver (later ++ e :: earlier) e' h held) ∨
      (∃ entry, s.store (.handle h) = some entry ∧ entry.value = held.bytes) ∨ Tokenless s h := by
  have frames := claims.formed run.split.1
  obtain ⟨e₀, born, births₀⟩ := claims.born run.split.1
  induction later generalizing s with
  | nil =>
      obtain ⟨ttl, _, change⟩ := claims
      refine .inr (.inl ⟨⟨held.bytes, e.before.now + ttl⟩, ?_, rfl⟩)
      cases run with
      | cons _ _ taken => rw [step_store taken, change, Store.applyChange_same]
  | cons e₁ later ih =>
      cases run with
      | @cons _ s₁ _ label run permitted taken =>
          have member : e₀ ∈ later ++ e :: earlier := by simp [born]
          rcases ih run with ⟨e', inside, ended⟩ | stands | tokenless
          · refine .inl ⟨e', List.mem_cons_of_mem _ inside, ended.imp_right ?_⟩
            rintro ⟨j, loaded', held', claimedMs, claims', same, state, e₂, older, reads⟩
            exact ⟨j, loaded', held', claimedMs, claims', same, state, e₂,
              List.mem_cons_of_mem _ older, reads⟩
          · obtain ⟨entry, there, value⟩ := stands
            -- a live record is the claimed one
            have found : ∀ {bytes : Value}, s₁.store.live s₁.now (.handle h) = some bytes →
                bytes = held.bytes := by
              intro bytes live
              obtain ⟨entry', there', _, rfl⟩ := Store.live_eq_some_iff.mp live
              rw [there] at there'
              cases there'
              exact value
            by_cases touched : ∃ x, Event.change (⟨s₁, label⟩ : R.machine.Event) = some (.handle h, x)
            · obtain ⟨x, change⟩ := touched
              cases record_change run rfl change with
              | founded step handle _ _ =>
                  exact absurd (.inl ⟨_, _, _, step, handle⟩) (not_born_again run rfl member births₀)
              | succeeded step handle _ _ =>
                  exact absurd (.inr ⟨_, _, _, _, step, handle⟩)
                    (not_born_again run rfl member births₀)
              | claimed step _ live =>
                  have taker : Claims (⟨s₁, label⟩ : R.machine.Event) _ h _ _ := ⟨_, step, change⟩
                  obtain ⟨j, loaded', held', claimedMs, claims', same, state, e₂, older, reads⟩ :=
                    taker.takesOver run frames.2.2 (found live)
                  exact .inl ⟨_, List.mem_cons_self .., .inr ⟨j, loaded', held', claimedMs, claims',
                    same, state, e₂, List.mem_cons_of_mem _ older, reads⟩⟩
              | released step formed live =>
                  obtain ⟨rfl, rfl⟩ := formed.1.ext frames.2.2 (found live)
                  exact .inl ⟨_, List.mem_cons_self .., .inl ⟨_, _, _, step, change⟩⟩
              | rotated step formed live =>
                  exact .inr (.inr (Rotates.tokenless taken ⟨_, step, formed.2, change⟩))
              | deleted =>
                  refine .inr (.inr fun entry' _ there' _ => ?_)
                  rw [step_store taken, change, Store.applyChange_same] at there'
                  cases there'
            · refine .inr (.inl ⟨entry, ?_, value⟩)
              rw [step_store taken,
                Store.applyChange_of_forall_ne _ fun x change => touched ⟨x, change⟩, there]
          · have next : R.machine.Runs ok ([⟨s₁, label⟩] ++ (later ++ e :: earlier)) s :=
              .cons run permitted taken
            exact .inr (.inr (tokenless.later run next ⟨e₀, member, births₀⟩))

/-! ## Exclusion -/

/-- The step takes the handle's token away: it rotates the handle or deletes its record. -/
def Retires (e : R.machine.Event) (h : Name) : Prop :=
  (∃ i attempt, Rotates e i h attempt) ∨
    (e.change = some (.handle h, none) ∧ e.before.store (.handle h) ≠ none)

/-- Claims on a handle exclude each other. The events of a run are given newest first, so
`later ++ e₂ :: (between ++ e₁ :: earlier)` has `e₁` before `e₂`. -/
structure Exclusive (events : List R.machine.Event) : Prop where
  /-- Before or with a second claim, the first is released or taken over. -/
  separated : ∀ later between earlier e₁ e₂ i₁ i₂ h loaded₁ loaded₂ held₁ held₂,
    events = later ++ e₂ :: (between ++ e₁ :: earlier) →
    Claims e₁ i₁ h loaded₁ held₁ → Claims e₂ i₂ h loaded₂ held₂ →
    ∃ e ∈ e₂ :: between, Releases e i₁ h held₁ ∨ TakesOver events e h held₁
  /-- The upstream is asked with a claim of the call itself, taken on the record it read. -/
  asked : ∀ later earlier e i h held, events = later ++ e :: earlier →
    At e i h (.askUpstream held) → ∃ after between before claim read loaded,
      earlier = after ++ claim :: (between ++ read :: before) ∧
      Claims claim i h loaded held ∧ Loads read i h loaded.bytes ∧
      ∀ e' ∈ between, ∀ x, e'.change ≠ some (.handle h, x)
  /-- Nothing is claimed after the rotation or the deletion of the record. -/
  closed : ∀ later between earlier e₁ e₂ h,
    events = later ++ e₂ :: (between ++ e₁ :: earlier) → Retires e₁ h →
    ∀ i loaded held, ¬ Claims e₂ i h loaded held
  /-- A claim is stamped with a clock reading before the family's expiry. -/
  stamped : ∀ e ∈ events, ∀ i h loaded held, Claims e i h loaded held →
    ∃ e₀ ∈ events, ∃ reading, ReadsClaimClock e₀ i h loaded reading ∧
      reading < loaded.record.familyExpiresMs ∧
      Sealed h (claimedRecord loaded held.upstreamToken held.claimId reading) held.bytes

theorem TakesOver.mono {events events' : List R.machine.Event} (inside : events ⊆ events')
    {e : R.machine.Event} {h : Name} {held : Claim} (takesOver : TakesOver events e h held) :
    TakesOver events' e h held := by
  obtain ⟨j, loaded, held', claimedMs, claims, same, state, e₀, older, reads⟩ := takesOver
  exact ⟨j, loaded, held', claimedMs, claims, same, state, e₀, inside older, reads⟩

theorem separated_of_claims {later between earlier : List R.machine.Event}
    {e₁ e₂ : R.machine.Event}
    (run : R.machine.Runs ok (later ++ e₂ :: (between ++ e₁ :: earlier)) s) {i₁ i₂ : ℕ} {h : Name}
    {loaded₁ loaded₂ : Loaded} {held₁ held₂ : Claim} (claims₁ : Claims e₁ i₁ h loaded₁ held₁)
    (claims₂ : Claims e₂ i₂ h loaded₂ held₂) :
    ∃ e ∈ e₂ :: between, Releases e i₁ h held₁ ∨
      TakesOver (later ++ e₂ :: (between ++ e₁ :: earlier)) e h held₁ := by
  have run₂ := run.split.1
  have inside : between ++ e₁ :: earlier ⊆ later ++ e₂ :: (between ++ e₁ :: earlier) :=
    fun e member => List.mem_append_right _ (List.mem_cons_of_mem _ member)
  rcases claim_ends run₂ claims₁ with ⟨e, member, ended⟩ | ⟨entry, there, value⟩ | tokenless
  · exact ⟨e, List.mem_cons_of_mem _ member, ended.imp_right (TakesOver.mono inside)⟩
  · -- the second claim itself finds the first
    obtain ⟨entry', there', _, same⟩ := Store.live_eq_some_iff.mp claims₂.live
    rw [there] at there'
    cases there'
    have frames := claims₁.formed run₂.split.1
    have taken := claims₂.takesOver run₂ frames.2.2 (same.symm.trans value)
    exact ⟨e₂, List.mem_cons_self .., .inr (taken.mono inside)⟩
  · exact absurd tokenless (claims₂.not_tokenless run₂)

theorem claims_of_ask {later earlier : List R.machine.Event} {e : R.machine.Event}
    (run : R.machine.Runs ok (later ++ e :: earlier) s) {i : ℕ} {h : Name} {held : Claim}
    (asks : At e i h (.askUpstream held)) : ∃ after between before claim read loaded,
      earlier = after ++ claim :: (between ++ read :: before) ∧
      Claims claim i h loaded held ∧ Loads read i h loaded.bytes ∧
      ∀ e' ∈ between, ∀ x, e'.change ≠ some (.handle h, x) := by
  obtain ⟨_, _, there⟩ := asks.thread
  obtain ⟨claim, member, loaded, claims⟩ := claims_of_claim run.split.1 there rfl
  obtain ⟨after, rest, rfl⟩ := List.mem_iff_append.mp member
  have runC := run.split.1.split.1
  obtain ⟨ttl, step, change⟩ := claims
  obtain ⟨_, _, thereC⟩ := step.thread
  obtain ⟨read, memberR, loads⟩ :=
    loads_of_bytes runC thereC (show Pc.bytes? _ = some loaded.bytes from rfl)
  obtain ⟨between, before, rfl⟩ := List.mem_iff_append.mp memberR
  refine ⟨after, between, before, claim, read, loaded, rfl, ⟨ttl, step, change⟩, loads, ?_⟩
  -- the bytes were there at the read and at the swap
  obtain ⟨entry₀, there₀, _, value₀⟩ := Store.live_eq_some_iff.mp loads.2
  obtain ⟨entry₁, there₁, _, value₁⟩ :=
    Store.live_eq_some_iff.mp (Claims.live ⟨ttl, step, change⟩)
  obtain ⟨nonce, bytes⟩ := (Claims.formed runC ⟨ttl, step, change⟩).1
  have whole : R.machine.Runs ok ((between ++ [read]) ++ before) claim.before := by simpa using runC
  have tagged : entry₁.value.nonce? = some nonce := by
    rw [value₁, bytes]
    rfl
  intro e' inside
  exact sealed_fresh.untouched runC.split.1 whole there₀ there₁ (value₁.trans value₀.symm) tagged e'
    (List.mem_append_left _ inside)

theorem not_claims_of_retires {later between earlier : List R.machine.Event}
    {e₁ e₂ : R.machine.Event}
    (run : R.machine.Runs ok (later ++ e₂ :: (between ++ e₁ :: earlier)) s) {h : Name}
    (retires : Retires e₁ h) {i : ℕ} {loaded : Loaded} {held : Claim} :
    ¬ Claims e₂ i h loaded held := by
  intro claims
  obtain ⟨run₁, _, s₁, taken, next⟩ := run.split.1.split
  have after : Tokenless s₁ h ∧ ∃ e₀ ∈ earlier, Births e₀ h := by
    rcases retires with ⟨i, attempt, rotates⟩ | ⟨change, there⟩
    · exact ⟨rotates.tokenless taken, rotates.born run₁ rfl⟩
    · refine ⟨fun entry _ gone _ => ?_, ?_⟩
      · rw [step_store taken, change, Store.applyChange_same] at gone
        cases gone
      · obtain ⟨entry, there⟩ := Option.ne_none_iff_exists'.mp there
        exact born_of_store run₁ there
  obtain ⟨tokenless, e₀, born, births⟩ := after
  exact claims.not_tokenless run.split.1
    (tokenless.later next run.split.1 ⟨e₀, List.mem_cons_of_mem _ born, births⟩)

/-- **Claims on a rotating handle are exclusive.** -/
theorem claims_exclusive (run : R.machine.Runs R.machine.anyStep events s) : Exclusive events where
  separated := by
    intro later between earlier e₁ e₂ i₁ i₂ h loaded₁ loaded₂ held₁ held₂ parts claims₁ claims₂
    subst parts
    exact separated_of_claims run claims₁ claims₂
  asked := by
    intro later earlier e i h held parts asks
    subst parts
    exact claims_of_ask run asks
  closed := by
    intro later between earlier e₁ e₂ h parts retires i loaded held
    subst parts
    exact not_claims_of_retires run retires
  stamped := by
    intro e member i h loaded held claims
    obtain ⟨ttl, step, _⟩ := claims
    obtain ⟨earlier, run₀, _, inside⟩ := run.of_mem member
    obtain ⟨_, _, there⟩ := step.thread
    obtain ⟨e₀, older, stamped⟩ := claimClock_of_swapClaim run₀ there
    exact ⟨e₀, inside older, stamped⟩

/-- One call claims, and another takes the claim over and asks the upstream too. -/
theorem claims_exclusive_of_takeover :
    ∃ events s, (sampleRotator 30000 1000000 .default).machine.Runs
        (sampleRotator 30000 1000000 .default).machine.anyStep events s ∧
      s.threads.map (fun t => t.call.rank) = [11, 1, 1] ∧
      Exclusive (R := sampleRotator 30000 1000000 .default) events := by
  obtain ⟨events, s, run, asking⟩ := exists_run (sampleRotator 30000 1000000 .default)
    ([.begin (.issue "token")] ++ steps 0 4 (.good 0) ++
      [.begin (.refresh (.rotating ⟨0, 0⟩)), .begin (.refresh (.rotating ⟨0, 0⟩))] ++
      steps 1 7 (.good 0) ++ steps 2 7 (.good 60001))
    (fun _ s => s.threads.map (fun t => t.call.rank) = [11, 1, 1])
    (by decide +kernel)
  exact ⟨events, s, run, asking, claims_exclusive run⟩

end OAuthRelay.Rotation
