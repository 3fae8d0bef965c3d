import OAuthRelay.Rotation.Claims

/-!
# A claim holder and its lease

A claim may be taken over once it is older than the lease. Between the clock reading it is
stamped with and its final swap, a holder seals four times, asks the upstream once and
writes to the store four times. A bound on each await gives a bound on the sum
(`Pc.allowance?`), and the holder is in time when the lease covers it.
-/

set_option autoImplicit false

namespace OAuthRelay.Rotation

open OAuthRelay.Async OAuthRelay.Async.Machine

variable {R : Rotator} {events : List R.machine.Event} {s : R.machine.State}

/-! ## Bounded awaits -/

/-- How long an await may take, with a deadline for store operations. Reading a clock takes
no time. -/
def Pc.limit? (R : Rotator) (deadline : ℕ) : Pc → Option ℕ
  | load | isRevoked .. | loadGrace _ | swapClaim .. | putResponse .. | putSuccessor ..
  | swapRotated .. | swapHead _ | isRevokedInFlight _ | isRevokedLost _ | discard ..
  | swapRelease .. | putMarker .. | getHead _ | erase .. | deleteErased .. => some deadline
  | openRecord _ | openGrace .. | sealClaim .. | sealResponse _ | sealSuccessor _
  | sealRotated _ | sealRelease .. | openErased .. => some R.timing.sealerTimeout
  | askUpstream _ => some R.timing.upstreamTimeout
  | readClock _ | readElapsed | claim .. | commit .. | releaseClock .. | revoke _ => some 0
  | sleep | done _ => none

/-- Every call reads the store's clock. -/
def OneClock (R : Rotator) (_ : List R.machine.Event) (s : R.machine.State)
    (label : R.machine.Lbl) : Prop :=
  ∀ i delivery choice, label = .step i delivery choice → choice.reading = s.now

/-- One clock, and no await of a refresh takes longer than it may. -/
def Prompt (R : Rotator) (deadline : ℕ) (events : List R.machine.Event) (s : R.machine.State)
    (label : R.machine.Lbl) : Prop :=
  OneClock R events s label ∧ ∀ i delivery choice h p steps since limit,
    label = .step i delivery choice → s.threads[i]? = some ⟨.rotating h p, steps, since⟩ →
    p.limit? R deadline = some limit → s.now ≤ since + limit

/-- When a claimed record was claimed. -/
def Value.claimedMs : Value → ℕ
  | .sealed _ _ (.record ⟨_, _, .claimed _ _ claimedMs⟩) _ => claimedMs
  | _ => 0

/-- The claims of a handle are kept to their holders by the lease. -/
structure FinishesInLease (R : Rotator) (events : List R.machine.Event) : Prop where
  /-- A final swap comes before the claim may be taken over. -/
  in_time : ∀ e ∈ events, ∀ i h attempt rotated, At e i h (.swapRotated attempt rotated) →
    e.before.now ≤ attempt.claim.bytes.claimedMs + R.timing.claimLease
  /-- The claim has not been taken over by then, so nobody else has asked with its token. -/
  not_taken_over : ∀ later earlier e i h attempt rotated, events = later ++ e :: earlier →
    At e i h (.swapRotated attempt rotated) →
    ∀ e' ∈ earlier, ¬ TakesOver earlier e' h attempt.claim

/-! ## The budget of a holder -/

/-- From the stamp of the claim a call is about to hold or holds, how long it may take to get
where it is. -/
def Pc.allowance? (R : Rotator) (deadline : ℕ) : Pc → Option (ℕ × ℕ)
  | sealClaim _ _ _ claimedMs _ => some (claimedMs, 0)
  | swapClaim _ held _ => some (held.bytes.claimedMs, R.timing.sealerTimeout)
  | askUpstream held => some (held.bytes.claimedMs, R.timing.sealerTimeout + deadline)
  | commit held .. =>
      some (held.bytes.claimedMs,
        R.timing.sealerTimeout + deadline + R.timing.upstreamTimeout)
  | sealResponse attempt =>
      some (attempt.claim.bytes.claimedMs,
        R.timing.sealerTimeout + deadline + R.timing.upstreamTimeout)
  | putResponse attempt _ =>
      some (attempt.claim.bytes.claimedMs,
        2 * R.timing.sealerTimeout + deadline + R.timing.upstreamTimeout)
  | sealSuccessor attempt =>
      some (attempt.claim.bytes.claimedMs,
        2 * R.timing.sealerTimeout + 2 * deadline + R.timing.upstreamTimeout)
  | putSuccessor attempt _ =>
      some (attempt.claim.bytes.claimedMs,
        3 * R.timing.sealerTimeout + 2 * deadline + R.timing.upstreamTimeout)
  | sealRotated attempt =>
      some (attempt.claim.bytes.claimedMs,
        3 * R.timing.sealerTimeout + 3 * deadline + R.timing.upstreamTimeout)
  | swapRotated attempt _ =>
      some (attempt.claim.bytes.claimedMs,
        4 * R.timing.sealerTimeout + 3 * deadline + R.timing.upstreamTimeout)
  | _ => none

/-- **An await adds its limit to what its call may have taken**, and a claim is stamped with
the time of its reading. -/
theorem allowance_of_edge {h name : Name} {σ : Store Key Value} {now deadline : ℕ}
    {delivery : Delivery} {choice : Choice} {p q : Pc} {stamp allowed : ℕ}
    (edge : Edge R h σ now delivery choice name p q)
    (holds : q.allowance? R deadline = some (stamp, allowed)) :
    stamp = choice.reading ∨ ∃ allowed' limit, p.allowance? R deadline = some (stamp, allowed') ∧
      p.limit? R deadline = some limit ∧ allowed' + limit = allowed := by
  cases edge with
  | claim =>
      cases holds
      exact .inl rfl
  | sealClaim | claimed | succeeded | commit | sealResponse | putResponse | sealSuccessor
  | putSuccessor | sealRotated =>
      cases holds
      refine .inr ⟨_, _, rfl, rfl, ?_⟩
      omega
  | _ => cases holds

variable {deadline : ℕ}

/-- **A holder is where it is within its allowance.** -/
theorem within_allowance (run : R.machine.Runs (Prompt R deadline) events s)
    {i steps since stamp allowed : ℕ} {h : Name} {p : Pc}
    (there : s.threads[i]? = some ⟨.rotating h p, steps, since⟩)
    (holds : p.allowance? R deadline = some (stamp, allowed)) : since ≤ stamp + allowed := by
  refine run.thread_invariant
    (I := fun _ _ (t : Thread Call) => ∀ h p stamp allowed, t.call = .rotating h p →
      p.allowance? R deadline = some (stamp, allowed) → t.since ≤ stamp + allowed)
    ?_ ?_ ?_ there h p stamp allowed rfl holds
  · intro _ _ _ _ earlier _
    exact earlier
  · intro es s input _ h p stamp allowed same holds
    cases input with
    | issue token => cases same
    | refresh presented =>
        cases presented with
        | rotating handle =>
            cases same
            cases holds
        | sealedHandle opened => cases same
        | other => cases same
  · intro es s i delivery choice t call _ prompt before earlier resumed h q stamp allowed same holds
    subst same
    obtain ⟨call₀, steps, since⟩ := t
    cases call₀ with
    | founding p =>
        obtain ⟨_, same, _⟩ := founding_next resumed
        cases same
    | rotating h₀ p =>
        obtain ⟨_, same, edge⟩ := rotating_next resumed
        cases same
        have clock := prompt.1 i delivery choice rfl
        rcases allowance_of_edge edge holds with stamped | ⟨allowed', limit, owned, bound, sum⟩
        · show s.now ≤ stamp + allowed
          omega
        · have entered := earlier _ _ _ _ rfl owned
          have taken := prompt.2 i delivery choice _ _ _ _ _ rfl before bound
          simp only at entered
          show s.now ≤ stamp + allowed
          omega

/-- **With a lease that covers four seals, four store operations and the upstream request, a
holder finishes inside it.** -/
theorem finishes_in_lease
    (covers : R.timing.upstreamTimeout + 4 * R.timing.sealerTimeout + 4 * deadline ≤
      R.timing.claimLease)
    (run : R.machine.Runs (Prompt R deadline) events s) : FinishesInLease R events := by
  have in_time : ∀ e ∈ events, ∀ i h attempt rotated, At e i h (.swapRotated attempt rotated) →
      e.before.now ≤ attempt.claim.bytes.claimedMs + R.timing.claimLease := by
    intro e member i h attempt rotated step
    obtain ⟨_, run₀, prompt, _⟩ := run.of_mem member
    obtain ⟨steps, since, there⟩ := step.thread
    obtain ⟨_, ⟨_, delivery, choice, label⟩, _⟩ := step
    have entered := within_allowance run₀ there rfl
    have taken := prompt.2 i delivery choice _ _ _ _ _ label there rfl
    omega
  refine ⟨in_time, ?_⟩
  rintro later earlier e i h attempt rotated rfl step e' older
    ⟨j, loaded, held, claimedMs, claims, same, state, e₀, inside, reading, reads, lapsed⟩
  have ended := in_time e (by simp) i h attempt rotated step
  obtain ⟨_, run', _, _⟩ := run.split.1.of_mem older
  -- the taker has read the same stamp
  obtain ⟨nonce, bytes⟩ := (claims.formed run').1.sealed
  have stamp : attempt.claim.bytes.claimedMs = claimedMs := by
    obtain ⟨_, _, _, found⟩ := loaded
    subst state
    rw [← same, bytes]
    rfl
  obtain ⟨_, run₀, prompt, _⟩ := run.split.1.of_mem inside
  obtain ⟨_, delivery, choice, label, read⟩ := reads
  have clock := prompt.1 j delivery choice label
  have before := run.split.1.now_le inside
  omega

/-! ## A lease that is too short -/

/-- Ten seconds, the deadline of the store with the slowest operations. -/
def kubernetesDeadline : ℕ := 10000

/-- The sample rotator with a long-lived family. -/
abbrev slowRotator : Rotator := sampleRotator 30000 1000000 .default

/-- Whether a step keeps to one clock and to the limits. -/
def promptly (deadline : ℕ) (s : slowRotator.machine.State) : slowRotator.machine.Lbl → Bool
  | .step i _ choice => choice.reading = s.now && s.threads[i]?.all fun t =>
      match t.call with
      | .rotating _ p => (p.limit? slowRotator deadline).all fun limit => s.now ≤ t.since + limit
      | .founding _ => true
  | _ => true

theorem prompt_of_promptly (deadline : ℕ) (events : List slowRotator.machine.Event)
    (s : slowRotator.machine.State) (label : slowRotator.machine.Lbl)
    (h : promptly deadline s label = true) : Prompt slowRotator deadline events s label := by
  refine ⟨?_, ?_⟩
  · rintro i delivery choice rfl
    simp only [promptly, Bool.and_eq_true, decide_eq_true_eq] at h
    exact h.1
  · rintro i delivery choice h' p steps since limit rfl there bound
    simp only [promptly, there, Option.all_some, bound, Bool.and_eq_true, decide_eq_true_eq] at h
    exact h.2

/-- A holder whose seals, store operations and request all take as long as they may, up to
the clock reading of its commit. -/
def slowClaim (deadline : ℕ) : List (Label Input Choice) :=
  [.begin (.issue "token")] ++ steps 0 4 (.good 0) ++
    [.begin (.refresh (.rotating ⟨0, 0⟩))] ++ steps 1 5 (.good 0) ++
    [.tick 5000] ++ steps 1 1 (.good 5000) ++
    [.tick deadline] ++ steps 1 1 (.good (5000 + deadline)) ++
    [.tick 30000] ++ steps 1 2 (.good (35000 + deadline))

/-- A seal and a store operation of the holder that take as long as they may, from a time on. -/
def slowWrite (deadline now : ℕ) : List (Label Input Choice) :=
  [.tick 5000] ++ steps 1 1 (.good (now + 5000)) ++
    [.tick deadline] ++ steps 1 1 (.good (now + 5000 + deadline))

/-- The time of a final swap, and when its claim was stamped. -/
def finalSwap? (e : slowRotator.machine.Event) : Option (ℕ × ℕ) :=
  match e.label with
  | .step i _ _ =>
      match e.before.threads[i]? with
      | some ⟨.rotating _ (.swapRotated attempt _), _, _⟩ =>
          some (e.before.now, attempt.claim.bytes.claimedMs)
      | _ => none
  | _ => none

theorem at_of_finalSwap {e : slowRotator.machine.Event} {now stamp : ℕ}
    (h : finalSwap? e = some (now, stamp)) : ∃ i h attempt rotated,
      At e i h (.swapRotated attempt rotated) ∧ e.before.now = now ∧
        attempt.claim.bytes.claimedMs = stamp := by
  unfold finalSwap? at h
  split at h
  · rename_i i delivery choice label
    split at h
    · rename_i h' attempt rotated steps since there
      cases h
      exact ⟨i, h', attempt, rotated, ⟨_, ⟨there, delivery, choice, label⟩, rfl⟩, rfl, rfl⟩
    · cases h
  · cases h

/-- A holder that swaps in the very millisecond its lease ends. -/
theorem finishes_in_lease_of_slow : ∃ events s,
    slowRotator.machine.Runs (Prompt slowRotator 2500) events s ∧
      events.head?.map finalSwap? = some (some (60000, 0)) ∧
      FinishesInLease slowRotator events := by
  obtain ⟨events, s, run, swapped⟩ := Runs.exists_of_replay (prompt_of_promptly 2500)
    (slowClaim 2500 ++ slowWrite 2500 37500 ++ slowWrite 2500 45000 ++ slowWrite 2500 52500)
    (fun events _ => events.head?.map finalSwap? = some (some (60000, 0))) (by decide +kernel)
  exact ⟨events, s, run, swapped, finishes_in_lease (by decide) run⟩

/-- **With the timing that the relay runs with and a store deadline of ten seconds, a claim is
taken over from a holder that is still at work.** The second call asks the upstream with the
same token half a minute before the holder's final swap. -/
theorem not_finishes_in_lease :
    ¬ ∀ (R : Rotator) (events : List R.machine.Event) (s : R.machine.State),
      R.timing = .default → R.machine.Runs (Prompt R kubernetesDeadline) events s →
      FinishesInLease R events := by
  intro all
  obtain ⟨events, s, run, swapped⟩ := Runs.exists_of_replay (prompt_of_promptly kubernetesDeadline)
    (slowClaim kubernetesDeadline ++ slowWrite kubernetesDeadline 45000 ++
      [.tick 1, .begin (.refresh (.rotating ⟨0, 0⟩))] ++ steps 2 8 (.good 60001) ++
      [.tick 4999] ++ steps 1 1 (.good 65000) ++ [.tick kubernetesDeadline] ++
      steps 1 1 (.good 75000) ++ slowWrite kubernetesDeadline 75000)
    (fun events _ => events.head?.map finalSwap? = some (some (90000, 0))) (by decide +kernel)
  obtain ⟨e, first, swap⟩ := Option.map_eq_some_iff.mp swapped
  obtain ⟨i, h, attempt, rotated, step, now, stamp⟩ := at_of_finalSwap swap
  have early := (all slowRotator events s rfl run).in_time e (List.mem_of_mem_head? first) i h
    attempt rotated step
  rw [now, stamp] at early
  exact absurd early (by decide)

end OAuthRelay.Rotation
