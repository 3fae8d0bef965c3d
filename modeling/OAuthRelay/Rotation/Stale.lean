import OAuthRelay.Rotation.Claims

/-!
# A claimant that lost its claim

After a takeover the first claimant may wake at any await, with any answer of the
upstream. Its commit, its release and its discards touch nothing of the family: the swaps
expect bytes that are gone for good, and what it writes and deletes besides is named after
its own draws. Its revocation is the exception. An `invalid_grant` answered to a stale
claimant writes the family's marker and deletes the token, whoever holds the claim.
-/

set_option autoImplicit false

namespace OAuthRelay.Rotation

open OAuthRelay.Async OAuthRelay.Async.Machine

variable {R : Rotator} {ok : List R.machine.Event → R.machine.State → R.machine.Lbl → Prop}
  {events : List R.machine.Event} {s : R.machine.State}

/-- The upstream answers the call with `invalid_grant`. -/
def InvalidGrantReply (e : R.machine.Event) (i : ℕ) : Prop :=
  ∃ h held delivery choice response, At e i h (.askUpstream held) ∧
    e.label = .step i delivery choice ∧ choice.reply = .ok response ∧
    R.json.isInvalidGrant response = true

/-- Where a call is after a claim, as long as the upstream does not answer `invalid_grant`:
it does not seek again, it does not revoke, and it has no other claim. -/
def Pc.AfterClaim (held : Claim) (p : Pc) : Prop :=
  0 < p.rank ∧ p.revocation? = none ∧ (p.claim? = some held ∨ (p.claim? = none ∧ p.rank = 11))

theorem Pc.AfterClaim.edge {h : Name} {σ : Store Key Value} {now : ℕ} {delivery : Delivery}
    {choice : Choice} {name : Name} {p q : Pc} {held : Claim} (after : p.AfterClaim held)
    (edge : Edge R h σ now delivery choice name p q)
    (spared : ∀ held' response, p = .askUpstream held' → choice.reply = .ok response →
      R.json.isInvalidGrant response = false) : q.AfterClaim held := by
  obtain ⟨positive, harmless, claim⟩ := after
  refine ⟨?_, ?_, edge.keeps_claim claim⟩
  · have := edge.rank
    omega
  · cases edge with
    | reuse => cases positive
    | invalidGrant reply invalid =>
        rw [spared _ _ rfl reply] at invalid
        cases invalid
    | revoke => exact harmless
    | marked => exact harmless
    | erase erasing => cases p <;> simp_all [Pc.erasing?, Pc.revocation?]
    | follow => exact harmless
    | openErased => exact harmless
    | deleteErased => exact harmless
    | _ => rfl

/-- A call that has made its claim asks the upstream, or has failed without learning of the
claim. -/
theorem Claims.next {e : R.machine.Event} {i : ℕ} {h : Name} {loaded : Loaded} {held : Claim}
    {s' : R.machine.State} (taken : R.machine.step e.before e.label = some s')
    (claims : Claims e i h loaded held) : ∃ steps since q,
      s'.threads[i]? = some ⟨.rotating h q, steps, since⟩ ∧
        (q = .askUpstream held ∨ ∃ fault, q = Pc.fail fault) := by
  have found := claims.live
  obtain ⟨ttl, step, _⟩ := claims
  obtain ⟨delivery, choice, steps, since, q, _, resumed, there⟩ := after_of_at taken step
  refine ⟨_, _, q, there, ?_⟩
  rcases Await.next_compareAndSwap resumed with ⟨_, _, _, rfl⟩ | ⟨_, _, lost, _⟩ | ⟨_, error, rfl⟩
  · exact .inl rfl
  · exact absurd found lost
  · exact .inr ⟨_, rfl⟩

/-- **After its claim a call that is not answered `invalid_grant` does not revoke.** -/
theorem afterClaim {later earlier : List R.machine.Event} {e : R.machine.Event}
    (run : R.machine.Runs ok (later ++ e :: earlier) s) {i : ℕ} {h : Name} {loaded : Loaded}
    {held : Claim} (claims : Claims e i h loaded held)
    (spared : ∀ e' ∈ later, ¬ InvalidGrantReply e' i) :
    ∃ steps since q, s.threads[i]? = some ⟨.rotating h q, steps, since⟩ ∧ q.AfterClaim held := by
  obtain ⟨_, _, s₁, taken, run₁⟩ := run.split
  obtain ⟨steps, since, q, there, next⟩ := claims.next taken
  have init : q.AfterClaim held := by
    rcases next with rfl | ⟨fault, rfl⟩
    · exact ⟨by simp [Pc.rank], rfl, .inl rfl⟩
    · exact ⟨by simp [Pc.rank, Pc.fail], rfl, .inr ⟨rfl, rfl⟩⟩
  obtain ⟨⟨call, steps', since'⟩, there', q', rfl, after⟩ := run₁.carry_thread run there
    (P := fun call => ∃ q, call = Call.rotating h q ∧ q.AfterClaim held) ⟨q, rfl, init⟩ (by
      rintro e' member ⟨_, steps', since'⟩ delivery choice call label there' ⟨p, rfl, after⟩ resumed
      obtain ⟨q', rfl, edge⟩ := rotating_next resumed
      refine ⟨q', rfl, after.edge edge fun held' response asks reply => ?_⟩
      subst asks
      refine Bool.eq_false_iff.mpr fun invalid => spared e' member ?_
      exact ⟨h, held', delivery, choice, response, ⟨_, ⟨there', delivery, choice, label⟩, rfl⟩, label,
        reply, invalid⟩)
  exact ⟨steps', since', q', there', after⟩

/-! ## After a takeover -/

/-- Before the events `later`, the call `b` has taken the claim `held` of the call `a`
over. -/
def Takeover (events later : List R.machine.Event) (a b : ℕ) (h : Name) (held held' : Claim) :
    Prop :=
  ∃ between earlier e₁ e₂ loaded₁ loaded₂,
    events = later ++ e₂ :: (between ++ e₁ :: earlier) ∧ Claims e₁ a h loaded₁ held ∧
    Claims e₂ b h loaded₂ held' ∧ loaded₂.bytes = held.bytes

/-- The records of the handle, of the rotation of the call `b`, and of the family. -/
inductive Touches (events : List R.machine.Event) (b : ℕ) (h : Name) (held : Claim) : Key → Prop
    where
  | record : Touches events b h held (.handle h)
  | successor {e : R.machine.Event} {p : Pc} {attempt : Attempt} (member : e ∈ events)
      (step : At e b h p) (attempting : p.attempt? = some attempt) :
      Touches events b h held attempt.successorKey
  | response : Touches events b h held (.grace h held.claimId)
  | head : Touches events b h held (.head held.familyId)
  | marker : Touches events b h held (.revoked held.familyId)

/-- No step of the call `a` among the later ones changes a record of the handle, of the
rotation of `b`, or of the family. -/
def Harmless (events later : List R.machine.Event) (a b : ℕ) (h : Name) (held' : Claim) : Prop :=
  ∀ e ∈ later, ∀ t, e.By a t → ∀ key, Touches events b h held' key → ∀ x,
    e.change ≠ some (key, x)

theorem Claims.mine {e : R.machine.Event} (run : R.machine.Runs ok events e.before) {i : ℕ}
    {h : Name} {loaded : Loaded} {held : Claim} (claims : Claims e i h loaded held) :
    held.claimId.call = i := (claims.formed run).2.2.1

/-- A handle that a call claims was not drawn by the call itself: the record it claims was
there before. -/
theorem Claims.handle_ne {e : R.machine.Event} (run : R.machine.Runs ok events e.before) {i : ℕ}
    {h : Name} {loaded : Loaded} {held : Claim} (claims : Claims e i h loaded held) :
    h.call ≠ i := by
  rintro rfl
  obtain ⟨e₀, older, births⟩ := claims.born run
  obtain ⟨earlier, run₀, _⟩ := run.of_mem older
  obtain ⟨t₀, by₀, rank₀⟩ := births.by_call run₀
  obtain ⟨ttl, ⟨t, by₁, call⟩, _⟩ := claims
  have order := rank_of_follows (run.follows by₁.1 e₀ older t₀ by₀).1
  rw [call, rank₀] at order
  simp [Call.rank, Pc.rank] at order

section Takeover

variable {later between earlier : List R.machine.Event} {e₁ e₂ : R.machine.Event} {a b : ℕ}
  {h : Name} {loaded₁ loaded₂ : Loaded} {held held' : Claim}
  (run : R.machine.Runs ok (later ++ e₂ :: (between ++ e₁ :: earlier)) s)
  (claims₁ : Claims e₁ a h loaded₁ held) (claims₂ : Claims e₂ b h loaded₂ held')
  (same : loaded₂.bytes = held.bytes)

include run claims₁ claims₂ same

/-- The bytes of a claim that was taken over are gone for good. -/
theorem not_live_of_takeover : s.store.live s.now (.handle h) ≠ some held.bytes := by
  intro live
  obtain ⟨entry₀, there₀, _, value₀⟩ := Store.live_eq_some_iff.mp claims₂.live
  obtain ⟨entry, there, _, value⟩ := Store.live_eq_some_iff.mp live
  obtain ⟨_, claimedMs, nonce, bytes⟩ := (claims₁.formed run.split.1.split.1).2.2
  have tagged : entry.value.nonce? = some nonce := by
    rw [value, bytes]
    rfl
  have whole : R.machine.Runs ok ((later ++ [e₂]) ++ (between ++ e₁ :: earlier)) s := by
    simpa using run
  obtain ⟨ttl, _, change⟩ := claims₂
  exact sealed_fresh.untouched run.split.1 whole there₀ there (by rw [value, value₀, same]) tagged e₂
    (by simp) _ change

/-- A call whose claim was taken over has not rotated the handle. -/
theorem not_rotates_of_takeover {e : R.machine.Event}
    (member : e ∈ later ++ e₂ :: (between ++ e₁ :: earlier)) {attempt : Attempt}
    (mine : attempt.claim = held) : ¬ Rotates e a h attempt := by
  intro rotates
  rcases List.mem_append.mp member with newer | older
  · -- the rotation would find the bytes that are gone
    obtain ⟨after, before, rfl⟩ := List.mem_iff_append.mp newer
    obtain ⟨rotated, step, _, change⟩ := rotates
    have run₀ : R.machine.Runs ok (after ++ e :: (before ++ e₂ :: (between ++ e₁ :: earlier))) s := by
      simpa using run
    cases step.alters change with
    | rotate live => exact not_live_of_takeover run₀.split.1 claims₁ claims₂ same (mine ▸ live)
  rcases List.mem_cons.mp older with rfl | older
  · obtain ⟨rotated, ⟨t, by₁, call⟩, _, _⟩ := rotates
    obtain ⟨ttl, ⟨t', by₂, call'⟩, _⟩ := claims₂
    obtain rfl := by₁.index_eq by₂
    obtain rfl := by₁.unique by₂
    rw [call] at call'
    cases call'
  · obtain ⟨after, before, parts⟩ := List.mem_iff_append.mp older
    rw [parts] at run
    exact not_claims_of_retires run (.inl ⟨a, attempt, rotates⟩) claims₂

omit same in
/-- The claim is taken over by another call. -/
theorem ne_of_takeover (spared : ∀ e ∈ between, ¬ InvalidGrantReply e a) : a ≠ b := by
  rintro rfl
  obtain ⟨steps, since, q, there, positive, _⟩ := afterClaim run.split.1 claims₁ spared
  obtain ⟨ttl, step, _⟩ := claims₂
  obtain ⟨_, _, there'⟩ := step.thread
  rw [there] at there'
  cases there'
  cases positive

omit same in
/-- What the later call and the family work with is not named after the first call. -/
theorem not_ownedBy_of_touches (differ : a ≠ b) {key : Key}
    (touches : Touches (later ++ e₂ :: (between ++ e₁ :: earlier)) b h held' key) :
    ¬ key.OwnedBy a := by
  intro owned
  cases touches with
  | record => exact claims₁.handle_ne run.split.1.split.1 owned
  | successor member step attempting =>
      obtain ⟨before, run₀, _⟩ := run.of_mem member
      have mine := (step.formed run₀).attempt attempting
      exact differ (owned.symm.trans mine.2)
  | response => exact differ (owned.symm.trans (claims₂.mine run.split.1))
  | head => exact owned
  | marker => exact owned

/-- **A stale claimant that is not answered `invalid_grant` is harmless.** -/
theorem harmless_of_takeover
    (spared : ∀ e ∈ later ++ e₂ :: (between ++ e₁ :: earlier), ¬ InvalidGrantReply e a) :
    Harmless (later ++ e₂ :: (between ++ e₁ :: earlier)) later a b h held' := by
  intro e member t by₁ key touches x change
  have differ := ne_of_takeover run claims₁ claims₂ fun e' between =>
    spared e' (by simp [between])
  have notOwned := not_ownedBy_of_touches run claims₁ claims₂ differ touches
  obtain ⟨after, before, rfl⟩ := List.mem_iff_append.mp member
  -- the run up to the step, with the first claim in its past
  have run₀ : R.machine.Runs ok (after ++ e :: (before ++ e₂ :: (between ++ e₁ :: earlier))) s := by
    simpa using run
  have runE := run₀.split.1
  have gone := not_live_of_takeover runE claims₁ claims₂ same
  have path : R.machine.Runs ok ((before ++ e₂ :: between) ++ e₁ :: earlier) e.before := by
    simpa using runE
  obtain ⟨steps, since, p, there, positive, harmless, claim⟩ := afterClaim path claims₁
    fun e' inside => spared e' (by simp at inside ⊢; tauto)
  have step : At e a h p := ⟨_, ⟨there, by₁.2⟩, rfl⟩
  have frames := step.formed runE
  cases step.alters change with
  | claim => cases positive
  | response => exact notOwned frames.1.1.1
  | successor => exact notOwned frames.1.2
  | rotate live =>
      obtain rfl : _ = held := by simpa [Pc.claim?, Pc.rank] using claim
      exact gone live
  | head =>
      obtain rfl : _ = held := by simpa [Pc.claim?, Pc.rank] using claim
      obtain ⟨e', older, rotates⟩ := rotates_of_swapped runE there (.inl rfl)
      exact not_rotates_of_takeover runE claims₁ claims₂ same older rfl rotates
  | discard => exact notOwned frames.1
  | release live =>
      obtain rfl : _ = held := by simpa [Pc.claim?, Pc.rank] using claim
      exact gone live
  | marker => cases harmless
  | erase => cases harmless

end Takeover

/-- **A claimant whose claim was taken over is harmless, unless the upstream answers it
with `invalid_grant`.** -/
theorem stale_claimant_harmless (run : R.machine.Runs R.machine.anyStep events s)
    {later : List R.machine.Event} {a b : ℕ} {h : Name} {held held' : Claim}
    (takeover : Takeover events later a b h held held')
    (spared : ∀ e ∈ events, ¬ InvalidGrantReply e a) : Harmless events later a b h held' := by
  obtain ⟨between, earlier, e₁, e₂, loaded₁, loaded₂, rfl, claims₁, claims₂, same⟩ := takeover
  exact harmless_of_takeover run claims₁ claims₂ same spared

/-! ## A sample takeover -/

/-- The upstream's response in a label. -/
def reply? : Label Input Choice → Option StoredResponse
  | .step _ _ choice => choice.reply.toOption
  | _ => none

theorem not_invalidGrantReply {e : R.machine.Event} {i : ℕ}
    (spared : (reply? e.label).all (fun response => !R.json.isInvalidGrant response) = true) :
    ¬ InvalidGrantReply e i := by
  rintro ⟨h, held, delivery, choice, response, _, label, reply, invalid⟩
  rw [label] at spared
  simp [reply?, reply, Except.toOption, invalid] at spared

/-- The first record of the sample family, in a state and sealed with a nonce. -/
def sampleLoaded (state : State) (nonce : Name) : Loaded where
  bytes := .sealed .record (.handle ⟨0, 0⟩) (.record ⟨⟨0, 1⟩, 1000000, state⟩) nonce
  record := ⟨⟨0, 1⟩, 1000000, state⟩

/-- A claim of the call `i` on the first handle of the sample family. -/
def sampleClaim (i claimedMs : ℕ) : Claim where
  bytes := (sampleLoaded (.claimed "token" ⟨i, 5⟩ claimedMs) ⟨i, 6⟩).bytes
  claimId := ⟨i, 5⟩
  upstreamToken := "token"
  familyId := ⟨0, 1⟩
  familyExpiresMs := 1000000

/-- A family of one handle, claimed by the call 1 and, after the lease, by the call 2. -/
def takeoverLabels : List (Label Input Choice) :=
  [.begin (.issue "token")] ++ steps 0 4 (.good 0) ++
    [.begin (.refresh (.rotating ⟨0, 0⟩)), .begin (.refresh (.rotating ⟨0, 0⟩))] ++
    steps 1 7 (.good 0) ++ steps 2 7 (.good 60001)

/-- The events `k` and `m` are the two claims. -/
def TakenOver (events : List (sampleRotator 30000 1000000 .default).machine.Event) (k m : ℕ) :
    Prop :=
  events[k]?.any (fun e =>
    decide (At e 2 ⟨0, 0⟩ (.swapClaim (sampleLoaded (.claimed "token" ⟨1, 5⟩ 0) ⟨1, 6⟩)
      (sampleClaim 2 60001) 939999)) &&
    decide (e.change = some (.handle ⟨0, 0⟩,
      some ⟨(sampleClaim 2 60001).bytes, e.before.now + 939999⟩))) = true ∧
  (events.drop (k + 1))[m]?.any (fun e =>
    decide (At e 1 ⟨0, 0⟩ (.swapClaim (sampleLoaded (.active "token") ⟨0, 2⟩)
      (sampleClaim 1 0) 1000000)) &&
    decide (e.change = some (.handle ⟨0, 0⟩,
      some ⟨(sampleClaim 1 0).bytes, e.before.now + 1000000⟩))) = true

instance (events : List (sampleRotator 30000 1000000 .default).machine.Event) (k m : ℕ) :
    Decidable (TakenOver events k m) :=
  inferInstanceAs (Decidable (_ ∧ _))

theorem TakenOver.takeover
    {events : List (sampleRotator 30000 1000000 .default).machine.Event} {k m : ℕ}
    (taken : TakenOver events k m) :
    Takeover events (events.take k) 1 2 ⟨0, 0⟩ (sampleClaim 1 0) (sampleClaim 2 60001) := by
  obtain ⟨second, first⟩ := taken
  obtain ⟨e₂, there₂, second⟩ := (Option.any_eq_true _ _).mp second
  obtain ⟨e₁, there₁, first⟩ := (Option.any_eq_true _ _).mp first
  simp only [Bool.and_eq_true, decide_eq_true_eq] at first second
  refine ⟨(events.drop (k + 1)).take m, (events.drop (k + 1)).drop (m + 1), e₁, e₂, _, _, ?_,
    ⟨_, first.1, first.2⟩, ⟨_, second.1, second.2⟩, rfl⟩
  rw [← parts_of_getElem? there₁]
  exact parts_of_getElem? there₂

/-- The first claimant asks the upstream after the takeover, is answered, and fails to
rotate the handle. -/
theorem stale_claimant_harmless_of_success :
    ∃ events s, (sampleRotator 30000 1000000 .default).machine.Runs
        (sampleRotator 30000 1000000 .default).machine.anyStep events s ∧
      s.threads.map (fun t => t.call.rank) = [11, 11, 1] ∧
      Harmless events (events.take 11) 1 2 ⟨0, 0⟩ (sampleClaim 2 60001) := by
  obtain ⟨events, s, run, ended, taken, spared⟩ := exists_run (sampleRotator 30000 1000000 .default)
    (takeoverLabels ++ steps 1 11 (.good 60001))
    (fun events s => s.threads.map (fun t => t.call.rank) = [11, 11, 1] ∧
      TakenOver events 11 6 ∧ events.all (fun e => (reply? e.label).all fun response =>
        !(sampleRotator 30000 1000000 .default).json.isInvalidGrant response) = true)
    (by decide +kernel)
  refine ⟨events, s, run, ended, stale_claimant_harmless run taken.takeover fun e member => ?_⟩
  exact not_invalidGrantReply (List.all_eq_true.mp spared e member)

/-- A stale claimant that is answered `invalid_grant` revokes the family. -/
theorem not_harmless_of_invalidGrant :
    ¬ ∀ (events : List (sampleRotator 30000 1000000 .default).machine.Event)
      (s : (sampleRotator 30000 1000000 .default).machine.State)
      (later : List (sampleRotator 30000 1000000 .default).machine.Event) (a b : ℕ) (h : Name)
      (held held' : Claim),
      (sampleRotator 30000 1000000 .default).machine.Runs
        (sampleRotator 30000 1000000 .default).machine.anyStep events s →
      Takeover events later a b h held held' → Harmless events later a b h held' := by
  intro harmless
  obtain ⟨events, s, run, taken, marks⟩ := exists_run (sampleRotator 30000 1000000 .default)
    (takeoverLabels ++ steps 1 3 { Choice.good 60001 with
      reply := .ok ⟨400, some "application/json", invalidGrantBody⟩ })
    (fun events _ => TakenOver events 3 6 ∧ (events.take 3)[0]?.any (fun e =>
      decide (At e 1 ⟨0, 0⟩ (.putMarker ⟨⟨0, 1⟩, 1000000, .handle ⟨0, 0⟩,
        .response ⟨400, some "application/json", invalidGrantBody⟩⟩ 939999 ⟨1, 9⟩)) &&
      decide (e.change = some (.revoked ⟨0, 1⟩,
        some ⟨.marker ⟨1, 9⟩, e.before.now + 939999⟩))) = true)
    (by decide +kernel)
  obtain ⟨e, there, marks⟩ := (Option.any_eq_true _ _).mp marks
  simp only [Bool.and_eq_true, decide_eq_true_eq] at marks
  obtain ⟨⟨t, by₁, _⟩, change⟩ := marks
  exact harmless events s _ 1 2 ⟨0, 0⟩ _ _ run taken.takeover e (List.mem_of_getElem? there) t by₁
    (.revoked ⟨0, 1⟩) .marker _ change

end OAuthRelay.Rotation
