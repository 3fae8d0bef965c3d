import OAuthRelay.Codes.Redemption

/-!
# A redemption is checked, and a failed one leaves the code redeemable

The checks, the ID-token policy and the sealing of the refresh token come before the code's
marker, and the response comes after it. So a call that returns the response has been through
all of them and has won the marker, and a call that one of them refuses has not touched the
marker, after which a correct request gets past it (`redemption_sound`).
-/

set_option autoImplicit false

namespace OAuthRelay.Codes

open OAuthRelay.Async OAuthRelay.Async.Machine
open OAuthRelay.Rotation (CreatePc)

variable {X : Exchanger}

/-! ## What a redemption has established -/

namespace Attempt

variable (attempt : Attempt X) (envelope : CodeEnvelope)

/-- The presented code opens to the envelope. -/
def Opens : Prop :=
  ∃ code, attempt.form.code = some code ∧
    unsealPostcard CodeEnvelope.codec attempt.key code = some envelope

/-- The request may redeem the envelope. -/
structure Granted : Prop where
  opens : attempt.Opens envelope
  relay : envelope.relayKey = attempt.key.value
  redirect : attempt.form.redirectUri = some envelope.redirectUri
  /-- A challenge is matched by a valid verifier. -/
  challenged : ∀ challenge, envelope.clientCodeChallenge = some challenge →
    ∃ verifier, attempt.form.codeVerifier = some verifier ∧ validPkceVerifier verifier = true ∧
      X.pkceChallenge verifier = challenge
  /-- Without a challenge there is no verifier, and the client is not public. -/
  unchallenged : envelope.clientCodeChallenge = none →
    attempt.form.codeVerifier = none ∧ attempt.relay.clientIsPublic = false

/-- What a redemption in this state has established. -/
def Known : Pc → Prop
  | .unsealCode code => attempt.form.code = some code
  | .readClock envelope => attempt.Opens envelope
  | .validate envelope _ => attempt.Granted envelope
  | .sealClock envelope _ => attempt.Granted envelope
  | .sealMember envelope .. => attempt.Granted envelope
  | .putMarker envelope .. => attempt.Granted envelope
  | .issue envelope _ => attempt.Granted envelope
  | .redeemed envelope _ => attempt.Granted envelope
  | .refused _ => True

end Attempt

/-- The redemption is past the checks of this envelope, or refused. -/
def Pc.Cleared (envelope : CodeEnvelope) : Pc → Prop
  | .unsealCode _ => False
  | .readClock _ => False
  | .validate envelope' _ => envelope' = envelope
  | .sealClock envelope' _ => envelope' = envelope
  | .sealMember envelope' .. => envelope' = envelope
  | .putMarker envelope' .. => envelope' = envelope
  | .issue envelope' _ => envelope' = envelope
  | .redeemed envelope' _ => envelope' = envelope
  | .refused _ => True

/-- The redemption is past the ID-token policy, which admitted the response. -/
def Pc.admitted : Pc → Bool
  | .sealClock .. => true
  | .sealMember .. => true
  | .putMarker _ _ admitted _ => admitted
  | .issue .. => true
  | .redeemed .. => true
  | _ => false

/-- The redemption has not gone for the marker yet, or is about to. -/
def Pc.early : Pc → Bool
  | .unsealCode _ => true
  | .readClock _ => true
  | .validate .. => true
  | .sealClock .. => true
  | .sealMember .. => true
  | .putMarker .. => true
  | _ => false

section Calls

variable {attempt : Attempt X} {envelope envelope' : CodeEnvelope} {marker : Name}
  {sealedBody : Option (List UInt8)} {p q : Pc}

theorem Attempt.Granted.known (granted : attempt.Granted envelope) (cleared : p.Cleared envelope) :
    attempt.Known p := by
  cases p with
  | unsealCode | readClock => exact cleared.elim
  | refused error => trivial
  | _ => obtain rfl : _ = envelope := cleared; exact granted

theorem envelope_eq_of_cleared (cleared : p.Cleared envelope') (admitted : p.admitted = true)
    (again : p.Cleared envelope) : envelope' = envelope := by
  cases p with
  | unsealCode | readClock => exact cleared.elim
  | refused error => cases admitted
  | _ => exact (Eq.symm cleared).trans again

/-! ### The functions between the awaits -/

theorem cleared_afterMarker (admitted : Bool) :
    (attempt.afterMarker envelope admitted sealedBody).Cleared envelope := by
  unfold Attempt.afterMarker Attempt.issueInResponse
  simp only
  repeat' split
  all_goals first | exact rfl | trivial

theorem admitted_afterMarker {admitted : Bool}
    (h : (attempt.afterMarker envelope admitted sealedBody).admitted = true) : admitted = true := by
  cases admitted with
  | false => cases h
  | true => rfl

theorem early_afterMarker (admitted : Bool) :
    (attempt.afterMarker envelope admitted sealedBody).early = false := by
  unfold Attempt.afterMarker Attempt.issueInResponse
  simp only
  repeat' split
  all_goals rfl

theorem cleared_settle (pc : CreatePc) : (attempt.settle envelope pc).Cleared envelope := by
  unfold Attempt.settle
  simp only
  repeat' split
  all_goals first | exact rfl | trivial

theorem early_settle (pc : CreatePc) : (attempt.settle envelope pc).early = false := by
  unfold Attempt.settle
  simp only
  repeat' split
  all_goals rfl

theorem cleared_beginMarker (admitted : Bool) :
    (attempt.beginMarker envelope marker admitted sealedBody).Cleared envelope := by
  unfold Attempt.beginMarker
  split
  · rfl
  · exact cleared_afterMarker admitted

theorem admitted_beginMarker {admitted : Bool}
    (h : (attempt.beginMarker envelope marker admitted sealedBody).admitted = true) :
    admitted = true := by
  unfold Attempt.beginMarker at h
  split at h
  · exact h
  · exact admitted_afterMarker h

theorem cleared_sealNext {issuedAt : ℕ} {rest : Members} :
    ∀ {replaced : Bool} {before : Members},
      (attempt.sealNext envelope marker issuedAt replaced before rest).Cleared envelope := by
  induction rest with
  | nil =>
      intro replaced before
      unfold Attempt.sealNext
      split
      · split
        · exact cleared_beginMarker true
        · trivial
      · exact cleared_beginMarker true
  | cons member rest ih =>
      intro replaced before
      unfold Attempt.sealNext
      split
      · exact ih
      · split
        · exact ih
        · rfl

theorem cleared_sealTokenResponse {issuedAt : ℕ} :
    (attempt.sealTokenResponse envelope marker issuedAt).Cleared envelope := by
  unfold Attempt.sealTokenResponse
  simp only
  split
  · exact cleared_beginMarker true
  · split
    · split
      · trivial
      · exact cleared_beginMarker true
    · exact cleared_sealNext

theorem cleared_afterValidation (validation : Except IdTokenValidationError Unit) :
    (attempt.afterValidation envelope marker validation).Cleared envelope := by
  unfold Attempt.afterValidation
  split
  · trivial
  · exact cleared_beginMarker false
  · split
    · rfl
    · exact cleared_beginMarker true

theorem admitted_afterValidation {validation : Except IdTokenValidationError Unit}
    (h : (attempt.afterValidation envelope marker validation).admitted = true) :
    validation = .ok () := by
  unfold Attempt.afterValidation at h
  split at h
  · cases h
  · cases admitted_beginMarker h
  · rfl

/-- A request without an error may redeem the envelope. -/
theorem granted_of_requestError (opens : attempt.Opens envelope)
    (relay : envelope.relayKey = attempt.key.value)
    (checked : requestError X.pkceChallenge attempt.relay attempt.form envelope = none) :
    attempt.Granted envelope := by
  unfold requestError at checked
  split at checked
  · cases checked
  · rename_i redirect
    have redirected := not_not.mp redirect
    split at checked
    · cases checked
    · rename_i challenge verifier given sent
      split at checked
      · cases checked
      · rename_i valid
        split at checked
        · cases checked
        · rename_i matched
          have same := not_not.mp matched
          refine ⟨opens, relay, redirected, fun expected asked => ?_, fun absent => ?_⟩
          · obtain rfl : challenge = expected := Option.some.inj (given.symm.trans asked)
            exact ⟨verifier, sent, by simpa using valid, same.symm⟩
          · rw [given] at absent
            cases absent
    · cases checked
    · rename_i absent unsent
      split at checked
      · cases checked
      · rename_i private'
        refine ⟨opens, relay, redirected, fun expected asked => ?_,
          fun _ => ⟨unsent, by simpa using private'⟩⟩
        rw [absent] at asked
        cases asked

theorem known_checkEnvelope (opens : attempt.Opens envelope) {now : ℕ} :
    attempt.Known (attempt.checkEnvelope envelope now marker) := by
  unfold Attempt.checkEnvelope
  split
  · rename_i accepted
    simp only [Bool.and_eq_true, decide_eq_true_eq] at accepted
    split
    · trivial
    · rename_i checked
      have granted := granted_of_requestError opens accepted.1 checked
      apply granted.known
      split
      · rfl
      · exact cleared_afterValidation _
  · trivial

theorem unpoliced_of_checkEnvelope {now : ℕ}
    (admitted : (attempt.checkEnvelope envelope' now marker).admitted = true)
    (cleared : (attempt.checkEnvelope envelope' now marker).Cleared envelope) :
    policyApplies attempt.relay envelope.upstreamResponse = false := by
  unfold Attempt.checkEnvelope at admitted cleared
  split at admitted
  · rename_i accepted
    rw [if_pos accepted] at cleared
    split at admitted
    · cases admitted
    · rename_i checked
      simp only [checked] at cleared
      split at admitted
      · cases admitted
      · rename_i unpoliced
        rw [if_neg unpoliced] at cleared
        obtain rfl := envelope_eq_of_cleared (cleared_afterValidation _) admitted cleared
        simpa using unpoliced
  · cases admitted

/-! ### The steps -/

variable {σ : Store Key Value} {now : ℕ} {delivery : Delivery} {choice : Choice} {name : Name}

theorem unsealPostcard_of_openEnvelope {failure : Option Rotation.SealError} {key : ResourceKey}
    {code : SealedText} (h : openEnvelope failure key code = .ok envelope) :
    unsealPostcard CodeEnvelope.codec key code = some envelope := by
  unfold openEnvelope at h
  split at h
  · cases h
  · cases h
  · split at h
    · rename_i opened
      injection h with same
      rw [opened, same]
    · cases h

/-- What a redemption has established stays so, and every step establishes its part. -/
theorem next_known (known : attempt.Known p)
    (next : (attempt.await p).next σ now delivery (answer choice name) = some q) :
    attempt.Known q := by
  cases p with
  | unsealCode code =>
      obtain rfl := Option.some.inj next
      simp only [answer]
      split
      · rename_i envelope opened
        exact ⟨code, known, unsealPostcard_of_openEnvelope opened⟩
      · trivial
      · trivial
  | readClock envelope' =>
      obtain rfl := Option.some.inj next
      exact known_checkEnvelope known
  | validate envelope' marker =>
      obtain rfl := Option.some.inj next
      exact known.known (cleared_afterValidation _)
  | sealClock envelope' marker =>
      obtain rfl := Option.some.inj next
      exact known.known cleared_sealTokenResponse
  | sealMember envelope' marker issuedAt before token rest =>
      obtain rfl := Option.some.inj next
      dsimp only
      split
      · trivial
      · split
        · trivial
        · exact known.known cleared_sealNext
  | putMarker envelope' marker admitted sealedBody =>
      rcases Await.next_putIfAbsent next with ⟨_, _, _, rfl⟩ | ⟨_, _, _, rfl⟩ | ⟨_, _, rfl⟩
      · exact known.known (cleared_afterMarker admitted)
      · trivial
      · trivial
  | issue envelope' pc =>
      simp only [Attempt.await, Await.next_map, Option.map_eq_some_iff] at next
      obtain ⟨pc', _, rfl⟩ := next
      exact known.known (cleared_settle pc')
  | redeemed envelope' response => cases next
  | refused error => cases next

/-- **A response is admitted by the policy, or none applies to it.** -/
theorem next_admitted (admitted : q.admitted = true) (cleared : q.Cleared envelope)
    (next : (attempt.await p).next σ now delivery (answer choice name) = some q) :
    (p.admitted = true ∧ p.Cleared envelope) ∨
      policyApplies attempt.relay envelope.upstreamResponse = false ∨
      ∃ marker, p = .validate envelope marker ∧ choice.validation = .ok () := by
  cases p with
  | unsealCode code =>
      obtain rfl := Option.some.inj next
      dsimp only at admitted
      split at admitted <;> cases admitted
  | readClock envelope' =>
      obtain rfl := Option.some.inj next
      exact .inr (.inl (unpoliced_of_checkEnvelope admitted cleared))
  | validate envelope' marker =>
      obtain rfl := Option.some.inj next
      obtain rfl := envelope_eq_of_cleared (cleared_afterValidation _) admitted cleared
      exact .inr (.inr ⟨marker, rfl, admitted_afterValidation admitted⟩)
  | sealClock envelope' marker =>
      obtain rfl := Option.some.inj next
      exact .inl ⟨rfl, envelope_eq_of_cleared cleared_sealTokenResponse admitted cleared⟩
  | sealMember envelope' marker issuedAt before token rest =>
      obtain rfl := Option.some.inj next
      dsimp only at admitted cleared
      split at admitted
      · cases admitted
      · rename_i handle sealed
        simp only [sealed] at cleared
        split at admitted
        · cases admitted
        · rename_i value encoded
          simp only [encoded] at cleared
          exact .inl ⟨rfl, envelope_eq_of_cleared cleared_sealNext admitted cleared⟩
  | putMarker envelope' marker admitted' sealedBody =>
      rcases Await.next_putIfAbsent next with ⟨_, _, _, rfl⟩ | ⟨_, _, _, rfl⟩ | ⟨_, _, rfl⟩
      · exact .inl ⟨admitted_afterMarker admitted,
          envelope_eq_of_cleared (cleared_afterMarker admitted') admitted cleared⟩
      · cases admitted
      · cases admitted
  | issue envelope' pc =>
      simp only [Attempt.await, Await.next_map, Option.map_eq_some_iff] at next
      obtain ⟨pc', _, rfl⟩ := next
      exact .inl ⟨rfl, envelope_eq_of_cleared (cleared_settle pc') admitted cleared⟩
  | redeemed envelope' response => cases next
  | refused error => cases next

/-- **Up to the marker a redemption changes nothing in the store.** -/
theorem next_early (early : q.early = true)
    (next : (attempt.await p).next σ now delivery (answer choice name) = some q) :
    p.early = true ∧ (attempt.await p).change σ now delivery = none := by
  cases p with
  | putMarker envelope' marker admitted sealedBody =>
      rcases Await.next_putIfAbsent next with ⟨_, _, _, rfl⟩ | ⟨_, _, _, rfl⟩ | ⟨_, _, rfl⟩
      · rw [early_afterMarker] at early
        cases early
      · cases early
      · cases early
  | issue envelope' pc =>
      simp only [Attempt.await, Await.next_map, Option.map_eq_some_iff] at next
      obtain ⟨pc', _, rfl⟩ := next
      rw [early_settle] at early
      cases early
  | redeemed envelope' response => cases next
  | refused error => cases next
  | _ => exact ⟨rfl, rfl⟩

/-- A step that refuses the code without touching its marker: any step up to the marker, and
the marker's when the store does not apply it. -/
def Pc.Spares (delivery : Delivery) : Pc → Prop
  | .unsealCode _ => True
  | .readClock _ => True
  | .validate .. => True
  | .sealClock .. => True
  | .sealMember .. => True
  | .putMarker .. => delivery = .notApplied
  | _ => False

theorem change_of_spares (spares : p.Spares delivery) :
    p.early = true ∧ (attempt.await p).change σ now delivery = none := by
  cases p with
  | putMarker =>
      obtain rfl : delivery = .notApplied := spares
      exact ⟨rfl, by simp [Attempt.await, Await.change]⟩
  | issue | redeemed | refused => exact spares.elim
  | _ => exact ⟨rfl, rfl⟩

end Calls

/-! ## A correct retry -/

/-- A JSON library prints every string and every list of members. -/
structure Prints (json : SerdeJson) : Prop where
  printed : ∀ members, (json.toVec members).isSome = true
  encoded : ∀ text, (json.encodeString text).isSome = true

/-- A request that a code is good for. -/
structure Input.Correct (input : Input X) (envelope : CodeEnvelope) (now : ℕ) : Prop where
  configured : rotationStoreMissing X.toDeployment input.relay = false
  opens : ∃ code, input.form.code = some code ∧
    unsealPostcard CodeEnvelope.codec input.key code = some envelope
  relay : envelope.relayKey = input.key.value
  accepted : X.accepts input.place now envelope = true
  checked : requestError X.pkceChallenge input.relay input.form envelope = none
  /-- In sealed mode the relay can read the response. -/
  recognized : input.relay.refreshTokens = .sealed →
    (X.rotator input.key).json.members envelope.upstreamResponse.body = none →
    namesRefreshToken envelope.upstreamResponse.body = false

/-- The redemption is at the code's marker, or past it where there is no store. -/
def AtMarker (attempt : Attempt X) (envelope : CodeEnvelope) (call : Call X) : Prop :=
  ∃ marker sealedBody, call = ⟨attempt, attempt.beginMarker envelope marker true sealedBody⟩

section Retry

variable {attempt : Attempt X} {envelope : CodeEnvelope} {marker : Name}
  {σ : Store Key Value} {now : ℕ}

/-- From this state a redemption gets to the code's marker. -/
abbrev Approaches (attempt : Attempt X) (envelope : CodeEnvelope) (σ : Store Key Value) (now : ℕ)
    (pc : Pc) : Prop :=
  Leads (M := X.machine) σ now (AtMarker attempt envelope) ⟨attempt, pc⟩

theorem approaches_step {p : Pc} (choice : Choice) (next : Name → Pc)
    (resumes : ∀ name,
      (attempt.await p).next σ now .answered (answer choice name) = some (next name))
    (unchanged : (attempt.await p).change σ now .answered = none)
    (rest : ∀ name, Approaches attempt envelope σ now (next name)) :
    Approaches attempt envelope σ now p := by
  apply Leads.step (M := X.machine) choice fun name => ⟨attempt, next name⟩
  · intro name
    simp [Call.await, resumes]
  · simpa [Call.await] using unchanged
  · exact rest

/-- An environment that opens the code, reads the clock, admits the response and seals. -/
def healthy (reading : ℕ) : Choice := ⟨none, reading, .ok (), .ok "", .good 0⟩

theorem approaches_sealNext (prints : Prints attempt.rotator.json) {issuedAt : ℕ} {rest : Members} :
    ∀ {replaced : Bool} {before : Members}, Approaches attempt envelope σ now
      (attempt.sealNext envelope marker issuedAt replaced before rest) := by
  induction rest with
  | nil =>
      intro replaced before
      unfold Attempt.sealNext
      split
      · split
        · exact .here ⟨marker, _, rfl⟩
        · rename_i unprinted
          have printed := prints.printed before
          rw [unprinted] at printed
          cases printed
      · exact .here ⟨marker, none, rfl⟩
  | cons member rest ih =>
      intro replaced before
      unfold Attempt.sealNext
      split
      · exact ih
      · split
        · exact ih
        · obtain ⟨value, encoded⟩ := Option.isSome_iff_exists.mp (prints.encoded "")
          apply approaches_step (healthy 0) fun _ => attempt.sealNext envelope marker issuedAt true
            (before ++ [(refreshTokenMember, value)]) rest
          · intro name
            simp [Attempt.await, Await.next, answer, healthy, encoded]
          · rfl
          · intro name
            exact ih

theorem approaches_sealTokenResponse (prints : Prints attempt.rotator.json) {issuedAt : ℕ}
    (recognized : attempt.rotator.json.members envelope.upstreamResponse.body = none →
      namesRefreshToken envelope.upstreamResponse.body = false) :
    Approaches attempt envelope σ now (attempt.sealTokenResponse envelope marker issuedAt) := by
  unfold Attempt.sealTokenResponse
  simp only
  split
  · exact .here ⟨marker, none, rfl⟩
  · split
    · rename_i unread
      rw [recognized unread]
      exact .here ⟨marker, none, rfl⟩
    · exact approaches_sealNext prints

theorem approaches_afterValidation (prints : Prints attempt.rotator.json)
    (recognized : attempt.relay.refreshTokens = .sealed →
      attempt.rotator.json.members envelope.upstreamResponse.body = none →
      namesRefreshToken envelope.upstreamResponse.body = false) :
    Approaches attempt envelope σ now (attempt.afterValidation envelope marker (.ok ())) := by
  unfold Attempt.afterValidation
  dsimp only
  split
  · rename_i mode
    apply approaches_step (healthy 0) fun _ => attempt.sealTokenResponse envelope marker 0
    · intro name
      rfl
    · rfl
    · intro name
      exact approaches_sealTokenResponse prints (recognized mode)
  · exact .here ⟨marker, none, rfl⟩

/-- **A correct request gets to the marker.** -/
theorem leads_of_correct {input : Input X} {name : Name}
    (prints : Prints (X.rotator input.key).json)
    (correct : input.Correct envelope now) :
    Leads (M := X.machine) σ now
      (AtMarker ⟨input.place, input.key, input.relay, input.form, name⟩ envelope)
      (Call.start X name input) := by
  obtain ⟨code, presented, opened⟩ := correct.opens
  have accepted : fresh (X.unixNow input.place now) envelope.issuedAt codeTtl = true :=
    correct.accepted
  unfold Call.start
  simp only [correct.configured, presented, Bool.false_eq_true, if_false]
  apply approaches_step (healthy 0) fun _ => .readClock envelope
  · intro name
    simp [Attempt.await, Await.next, answer, healthy, openEnvelope, opened]
  · rfl
  · intro name
    apply approaches_step (healthy (X.unixNow input.place now)) fun marker =>
      Attempt.checkEnvelope _ envelope (X.unixNow input.place now) marker
    · intro name
      rfl
    · rfl
    · intro marker
      unfold Attempt.checkEnvelope
      simp only [correct.relay, accepted, correct.checked, decide_true, Bool.and_self, if_true]
      split
      · apply approaches_step (healthy 0) fun _ => Attempt.afterValidation _ envelope marker (.ok ())
        · intro name
          rfl
        · rfl
        · intro name
          exact approaches_afterValidation prints correct.recognized
      · exact approaches_afterValidation prints correct.recognized

end Retry

/-! ## Runs -/

variable {ok : List X.machine.Event → X.machine.State → X.machine.Lbl → Prop}
  {events : List X.machine.Event} {s : X.machine.State} {envelope : CodeEnvelope}

/-- The policy's outcome for the envelope reaches the call. -/
def Validates (e : X.machine.Event) (i : ℕ) (envelope : CodeEnvelope)
    (outcome : Except IdTokenValidationError Unit) : Prop :=
  ∃ t marker delivery choice, e.before.threads[i]? = some t ∧
    t.call.pc = .validate envelope marker ∧ e.label = .step i delivery choice ∧
    choice.validation = outcome

/-- The call is refused in this step, which does not touch the code's marker. -/
def Spares (e : X.machine.Event) (i : ℕ) : Prop :=
  ∃ t delivery choice error, e.before.threads[i]? = some t ∧ t.call.pc.Spares delivery ∧
    e.label = .step i delivery choice ∧
    (t.call.attempt.await t.call.pc).next e.before.store e.before.now delivery
      (answer choice ⟨i, t.steps⟩) = some (.refused error)

/-- What a run makes of a code. -/
structure Sound (envelope : CodeEnvelope) (events : List X.machine.Event) (s : X.machine.State) :
    Prop where
  granted : ∀ (i : ℕ) (t : Thread (Call X)) response, s.threads[i]? = some t →
    t.call.pc = .redeemed envelope response → t.call.attempt.Granted envelope
  validated : ∀ (i : ℕ) (t : Thread (Call X)) response, s.threads[i]? = some t →
    t.call.pc = .redeemed envelope response →
    policyApplies t.call.attempt.relay envelope.upstreamResponse = true →
    ∃ e ∈ events, Validates e i envelope (.ok ())
  won : X.hasStore = true → ∀ i response, Redeemed s i envelope response →
    ∃ e ∈ events, Wins e i envelope
  /-- A call refused up to the marker has changed nothing in the store. -/
  spared : ∀ e ∈ events, ∀ i, Spares e i → ∀ e' ∈ events, ∀ t, e'.By i t → e'.change = none
  /-- A rejected response is not returned, and its code is used up. -/
  rejected : ∀ e ∈ events, ∀ i, Validates e i envelope (.error .rejected) →
    ∃ t, s.threads[i]? = some t ∧
      ((∃ marker, t.call.pc = .putMarker envelope marker false none) ∨
        ∃ error, t.call.pc = .refused error ∧
          (error = requiredClaimsError → X.hasStore = true → ∃ e' ∈ events, Wins e' i envelope))
  /-- While the code has no live marker, a correct request gets past the marker. -/
  retried : s.store.live s.now (.code envelope.envelopeId) = none → ∀ input : Input X,
    input.Correct envelope s.now → Prints (X.rotator input.key).json →
    ∃ later s', X.machine.Runs X.machine.anyStep (later ++ events) s' ∧ ∃ t sealedBody,
      s'.threads[s.threads.length]? = some t ∧
      t.call.attempt = ⟨input.place, input.key, input.relay, input.form, ⟨s.threads.length, 0⟩⟩ ∧
      t.call.pc = t.call.attempt.afterMarker envelope true sealedBody

/-- **What a redemption has established holds all the time.** -/
theorem known_of_run (run : X.machine.Runs ok events s) {i : ℕ} {t : Thread (Call X)}
    (there : s.threads[i]? = some t) : t.call.attempt.Known t.call.pc := by
  apply run.thread_invariant (I := fun _ _ (t : Thread (Call X)) =>
    t.call.attempt.Known t.call.pc) ?_ ?_ ?_ there
  · intro _ _ _ _ known _
    exact known
  · intro _ _ input _
    simp only [Call.start]
    split
    · trivial
    · split
      · trivial
      · rename_i code presented
        exact presented
  · intro _ _ _ _ _ t call _ _ _ known resumed
    simp only [Call.await, Await.next_map, Option.map_eq_some_iff] at resumed
    obtain ⟨pc, next, rfl⟩ := resumed
    exact next_known known next

/-- **A call past the policy was admitted by it.** -/
theorem validated_of_admitted (run : X.machine.Runs ok events s) {i : ℕ} {t : Thread (Call X)}
    (there : s.threads[i]? = some t) (admitted : t.call.pc.admitted = true)
    (cleared : t.call.pc.Cleared envelope)
    (policy : policyApplies t.call.attempt.relay envelope.upstreamResponse = true) :
    ∃ e ∈ events, Validates e i envelope (.ok ()) := by
  refine run.thread_invariant (I := fun es i (t : Thread (Call X)) =>
    t.call.pc.admitted = true → t.call.pc.Cleared envelope →
    policyApplies t.call.attempt.relay envelope.upstreamResponse = true →
    ∃ e ∈ es, Validates e i envelope (.ok ())) ?_ ?_ ?_ there admitted cleared policy
  · intro e es i t earlier _ admitted cleared policy
    obtain ⟨e', member, validates⟩ := earlier admitted cleared policy
    exact ⟨e', List.mem_cons_of_mem _ member, validates⟩
  · intro es s input _ admitted
    simp only [Call.start] at admitted
    repeat' split at admitted
    all_goals cases admitted
  · intro es s i delivery choice t call _ _ before earlier resumed admitted cleared policy
    simp only [Call.await, Await.next_map, Option.map_eq_some_iff] at resumed
    obtain ⟨pc, next, rfl⟩ := resumed
    rcases next_admitted admitted cleared next with ⟨admitted, cleared⟩ | none | ⟨marker, same, outcome⟩
    · obtain ⟨e, member, validates⟩ := earlier admitted cleared policy
      exact ⟨e, List.mem_cons_of_mem _ member, validates⟩
    · exact absurd policy (by simp [none])
    · exact ⟨_, List.mem_cons_self .., t, marker, delivery, choice, before, same, rfl, outcome⟩

/-- A call up to the marker has changed nothing in the store. -/
theorem unchanged_of_early (run : X.machine.Runs ok events s) {i : ℕ} {t : Thread (Call X)}
    (there : s.threads[i]? = some t) (early : t.call.pc.early = true) :
    ∀ e ∈ events, ∀ t', e.By i t' → e.change = none := by
  refine run.thread_invariant (I := fun es i (t : Thread (Call X)) => t.call.pc.early = true →
    ∀ e ∈ es, ∀ t', e.By i t' → e.change = none) ?_ ?_ ?_ there early
  · intro e es i t earlier other early e' member t' stepped
    rcases List.mem_cons.mp member with rfl | older
    · exact absurd stepped (other t')
    · exact earlier early e' older t' stepped
  · intro es s input run _ e member t' stepped
    exact absurd stepped (run.not_by_begin e member t')
  · intro es s i delivery choice t call _ _ before earlier resumed early e member t' stepped
    simp only [Call.await, Await.next_map, Option.map_eq_some_iff] at resumed
    obtain ⟨pc, next, rfl⟩ := resumed
    obtain ⟨before', unchanged⟩ := next_early early next
    rcases List.mem_cons.mp member with rfl | older
    · rw [Event.change_eq rfl before]
      simpa [Call.await] using unchanged
    · exact earlier before' e older t' stepped

/-- A call refused up to the marker has changed nothing in the store. -/
theorem unchanged_of_spares (run : X.machine.Runs ok events s) {e : X.machine.Event} {i : ℕ}
    (member : e ∈ events) (spares : Spares e i) :
    ∀ e' ∈ events, ∀ t, e'.By i t → e'.change = none := by
  obtain ⟨later, earlier, rfl⟩ := List.mem_iff_append.mp member
  obtain ⟨t, delivery, choice, error, there, spared, label, refused⟩ := spares
  obtain ⟨run₀, _, s₁, taken, run₁⟩ := run.split
  obtain ⟨early, unchanged⟩ : t.call.pc.early = true ∧
      (t.call.attempt.await t.call.pc).change e.before.store e.before.now delivery = none :=
    change_of_spares spared
  intro e' member' t' stepped
  rcases List.mem_append.mp member' with newer | older
  · rw [label] at taken
    obtain ⟨call, resumed, after⟩ := thread_of_step taken there
    simp only [Call.await, Await.next_map, refused, Option.map_some, Option.some.injEq] at resumed
    exact absurd stepped ((run₁.no_step_of_finished run after (by rw [← resumed]; rfl)).2 e' newer t')
  · rcases List.mem_cons.mp older with rfl | older
    · rw [Event.change_eq label there]
      simpa [Call.await] using unchanged
    · exact unchanged_of_early run₀ there early e' older t' stepped

/-- A rejected response stays with the relay until its code is used up. -/
theorem refused_of_rejected (run : X.machine.Runs ok events s) {e : X.machine.Event} {i : ℕ}
    (member : e ∈ events) (rejects : Validates e i envelope (.error .rejected)) :
    ∃ t, s.threads[i]? = some t ∧
      ((∃ marker, t.call.pc = .putMarker envelope marker false none) ∨
        ∃ error, t.call.pc = .refused error ∧
          (error = requiredClaimsError → X.hasStore = true →
            ∃ e' ∈ events, Wins e' i envelope)) := by
  obtain ⟨later, earlier, rfl⟩ := List.mem_iff_append.mp member
  obtain ⟨t, marker, delivery, choice, there, pc, label, outcome⟩ := rejects
  obtain ⟨_, _, s₁, taken, run₁⟩ := run.split
  rw [label] at taken
  obtain ⟨call, resumed, after⟩ := thread_of_step taken there
  simp only [Call.await, Await.next_map, pc, Option.map_eq_some_iff] at resumed
  obtain ⟨q, next, rfl⟩ := resumed
  have begins : q = t.call.attempt.beginMarker envelope marker false none := by
    rw [← Option.some.inj next]
    simp [answer, outcome, Attempt.afterValidation]
  refine run₁.carry_thread (P := fun (call : Call X) =>
    (∃ marker, call.pc = .putMarker envelope marker false none) ∨
      ∃ error, call.pc = .refused error ∧ (error = requiredClaimsError → X.hasStore = true →
        ∃ e' ∈ later ++ e :: earlier, Wins e' i envelope)) run after ?_ ?_
  · cases stored : X.hasStore with
    | true => exact .inl ⟨marker, by simp [begins, Attempt.beginMarker, stored]⟩
    | false =>
        refine .inr ⟨requiredClaimsError, ?_, fun _ impossible => absurd impossible (by simp)⟩
        simp [begins, Attempt.beginMarker, stored, Attempt.afterMarker]
  · rintro e' newer t' delivery' choice' call' label' there' (⟨marker', pc'⟩ | ⟨error, pc', _⟩) resumed'
    · simp only [Call.await, pc', Attempt.await, Await.next_map, Option.map_eq_some_iff] at resumed'
      obtain ⟨q, next, rfl⟩ := resumed'
      rcases Await.next_putIfAbsent next with ⟨_, rfl, vacant, rfl⟩ | ⟨_, _, _, rfl⟩ | ⟨_, _, rfl⟩
      · refine .inr ⟨requiredClaimsError, rfl, fun _ _ => ?_⟩
        refine ⟨e', List.mem_append_left _ newer, ?_⟩
        obtain ⟨before, _⟩ := e'
        obtain rfl := label'
        exact wins_of_vacant there' pc' vacant
      · exact .inr ⟨_, rfl, fun same => absurd same (by decide)⟩
      · exact .inr ⟨_, rfl, fun same => absurd same (by decide)⟩
    · simp [Call.await, pc', Attempt.await, Await.map, Await.next] at resumed'

/-- While the code has no live marker, a correct request gets past the marker. -/
theorem retried_of_run (run : X.machine.Runs ok events s)
    (vacant : s.store.live s.now (.code envelope.envelopeId) = none) {input : Input X}
    (correct : input.Correct envelope s.now) (prints : Prints (X.rotator input.key).json) :
    ∃ later s', X.machine.Runs X.machine.anyStep (later ++ events) s' ∧ ∃ t sealedBody,
      s'.threads[s.threads.length]? = some t ∧
      t.call.attempt = ⟨input.place, input.key, input.relay, input.form, ⟨s.threads.length, 0⟩⟩ ∧
      t.call.pc = t.call.attempt.afterMarker envelope true sealedBody := by
  obtain ⟨σ, now, threads⟩ := s
  have begun : X.machine.Runs X.machine.anyStep (⟨⟨σ, now, threads⟩, .begin input⟩ :: events)
      ⟨σ, now, threads ++ [⟨Call.start X ⟨threads.length, 0⟩ input, 1, now⟩]⟩ :=
    .cons run.any trivial rfl
  obtain ⟨later, threads', reached, t, there, marker, sealedBody, at'⟩ :=
    Runs.exists_of_leads (leads_of_correct prints correct) begun List.getElem?_concat_length
  cases stored : X.hasStore with
  | false =>
      refine ⟨later ++ [_], _, by simpa using reached, t, sealedBody, there, by rw [at'], ?_⟩
      simp [at', Attempt.beginMarker, stored]
  | true =>
      have pc : t.call.pc = .putMarker envelope marker true sealedBody := by
        simp [at', Attempt.beginMarker, stored]
      have written : Await.written (codeTtl * second) .answered
          (σ.putChange now (.code envelope.envelopeId) (.marker marker) (codeTtl * second)) =
            .ok true := by
        simp [Await.written, Store.putChange_isSome.mpr vacant, codeTtl, second]
      have resumed : (Call.await X t.call).next σ now .answered
          (answer (healthy 0) ⟨threads.length, t.steps⟩) =
            some ⟨t.call.attempt, t.call.attempt.afterMarker envelope true sealedBody⟩ := by
        simp [Call.await, pc, Attempt.await, Await.map, Await.next, written]
      obtain ⟨s', taken, after⟩ := exists_step (M := X.machine) (s := ⟨σ, now, threads'⟩)
        there resumed
      have reached' := Runs.cons reached trivial taken
      rw [← List.cons_append, List.append_cons] at reached'
      exact ⟨_, s', reached', _, sealedBody, after, by rw [at'], rfl⟩

/-- **A redemption is checked, and a failed one leaves the code redeemable.** -/
theorem redemption_sound (run : X.machine.Runs ok events s) : Sound envelope events s where
  granted i t response there pc := by
    have known := known_of_run run there
    rwa [pc] at known
  validated i t response there pc policy :=
    validated_of_admitted run there (by rw [pc]; rfl) (by rw [pc]; rfl) policy
  won stored i response := by
    rintro ⟨t, there, pc⟩
    exact wins_of_past stored run there (by rw [pc]; rfl)
  spared e member i spares := unchanged_of_spares run member spares
  rejected e member i rejects := refused_of_rejected run member rejects
  retried vacant input correct prints := retried_of_run run vacant correct prints

/-- A code is redeemed, after a first request was refused for its redirect URI. -/
theorem redemption_sound_of_retry : ∃ events s,
    sampleExchanger.machine.Runs sampleExchanger.machine.anyStep events s ∧
      (s.threads[0]?.map fun t => t.call.pc) =
        some (.refused (invalidGrant "redirect_uri does not match")) ∧
      returned s 1 = true ∧ Sound sampleEnvelope events s := by
  let code := sealPostcard CodeEnvelope.codec sampleKey sampleEnvelope
  obtain ⟨events, s, run, refused, succeeded⟩ := Runs.exists_of_replay
    (fun _ _ _ (_ : (true : Bool) = true) => trivial)
    (.begin ⟨(), sampleKey, confidentialRelay, ⟨some code, some "https://t.co", none⟩⟩ ::
      List.replicate 2 (.step 0 .answered (healthy 101)) ++ redemption 1 101)
    (fun _ s => (s.threads[0]?.map fun t => t.call.pc) =
      some (.refused (invalidGrant "redirect_uri does not match")) ∧ returned s 1 = true)
    (by decide +kernel)
  exact ⟨events, s, run, refused, succeeded, redemption_sound run⟩

end OAuthRelay.Codes
