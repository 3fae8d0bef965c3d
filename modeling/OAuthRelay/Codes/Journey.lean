import Mathlib.Data.List.Basic
import OAuthRelay.Async.Steps
import OAuthRelay.Codes.Separation
import OAuthRelay.Codes.Soundness

/-!
# From the authorization request to the token response

A client gets its tokens in four requests. Its browser goes to the upstream with a flow state, and
from there to the callback, which asks the upstream for the tokens and sends the browser on to the
client with a sealed code. The client redeems the code. Nothing but the two sealed texts connects
the requests. Each may reach another instance, some of them under an older configuration, and an
attacker may present texts of other flows.

The service runs any number of such flows at once. The sealer is ideal, so texts that open have been
sealed before. Then the requests behind a token response belong together
(`redeemed_by_journey`): the response answers the token request of one callback, the callback took
up the flow of one authorization request, for the same relay and at the upstream that the client was
sent to, and the redeeming request names that request's redirect URI and meets its challenge.

No relay may share its key with its upstream.
-/

set_option autoImplicit false

namespace OAuthRelay.Codes

open OAuthRelay.Async OAuthRelay.Async.Machine OAuthRelay.Wire OAuthRelay.Wire.Codec
open OAuthRelay.Rotation (CreatePc)

/-! ## The service -/

/-- The flow that `authorize` seals. -/
def flowOf (key : ResourceKey) (query : AuthorizeRequest) (redirect verifier : String)
    (nonce : Bytes 16) (now : ℕ) : FlowEnvelope where
  relayKey := key.value
  appRedirectUri := redirect
  appState := query.state
  upstreamPkceVerifier := verifier
  clientCodeChallenge := query.codeChallenge
  clientCodeChallengeMethod := query.codeChallenge.map fun _ => "S256"
  idTokenNonce := query.idTokenNonce
  issuedAt := now
  nonce := nonce

/-- A callback that has sent its token request and waits for the upstream's answer. -/
structure Pending (X : Exchanger) where
  place : X.Instance
  key : ResourceKey
  flow : FlowEnvelope
  /-- The code that the upstream gave to the browser. -/
  upstreamCode : String

/-- The code that `callback` seals when the answer is there. -/
def Pending.envelope {X : Exchanger} (pending : Pending X) (response : StoredResponse)
    (envelopeId : Bytes 16) (fingerprint : Bytes 32) (now : ℕ) : CodeEnvelope where
  relayKey := pending.key.value
  envelopeId := envelopeId
  issuedAt := now
  redirectUri := pending.flow.appRedirectUri
  clientCodeChallenge := pending.flow.clientCodeChallenge
  idTokenNonce := pending.flow.idTokenNonce
  upstreamResponse := response
  handleFingerprint := fingerprint

/-- The instances and the versions of the configuration that they have been serving. -/
structure Service extends Exchanger where
  Version : Type
  resolve : Version → ResourceKey → Option Relay

namespace Service

variable (W : Service)

def deployment (version : W.Version) : Deployment where
  resolveRelay := W.resolve version
  hasStore := W.hasStore

/-- The requests under way, and the texts that the sealer has made. -/
structure State where
  minted : List SealedText
  pending : List (Pending W.toExchanger)
  exchange : W.machine.State

inductive Label where
  /-- The version is the one that the instance served when the request came in. -/
  | authorize (place : W.Instance) (version : W.Version) (key : ResourceKey)
      (query : AuthorizeRequest) (verifier : String) (nonce : Bytes 16)
  | callback (place : W.Instance) (version : W.Version) (upstream : ResourceKey)
      (state : SealedText) (upstreamCode : String)
  /-- The upstream answers a callback's token request. -/
  | answer (index : ℕ) (response : StoredResponse) (envelopeId : Bytes 16)
      (fingerprint : Bytes 32)
  | exchange (label : W.machine.Lbl)

def initial : State W := ⟨[], [], W.machine.initial⟩

def step (s : State W) : Label W → Option (State W)
  | .authorize place version key query verifier nonce =>
      match W.resolve version key with
      | none => none
      | some relay =>
          (authorize (W.deployment version) key relay query verifier nonce
            (W.unixNow place s.exchange.now)).map fun state =>
              { s with minted := state :: s.minted }
  | .callback place version upstream state upstreamCode =>
      match openFlow (W.deployment version) upstream (W.unixNow place s.exchange.now) state with
      | none => none
      | some (key, relay, flow) =>
          if relay.redirectAllowed flow.appRedirectUri then
            some { s with pending := s.pending ++ [⟨place, key, flow, upstreamCode⟩] }
          else none
  | .answer index response envelopeId fingerprint =>
      match s.pending[index]? with
      | none => none
      | some pending =>
          let now := W.unixNow pending.place s.exchange.now
          some { s with
            pending := s.pending.eraseIdx index
            minted := sealPostcard CodeEnvelope.codec pending.key
              (pending.envelope response envelopeId fingerprint now) :: s.minted }
  | .exchange label =>
      (W.machine.step s.exchange label).map fun exchange => { s with exchange := exchange }

abbrev Event := Steps.Event (State W) (Label W)

/-- Nobody forges a sealed text, what is sealed fits into memory, and instances read their
clocks. -/
def Genuine (_ : List W.Event) (s : State W) : Label W → Prop
  | .authorize place _ key query verifier nonce => ∀ redirect, query.redirectUri = some redirect →
      FlowEnvelope.codec.Fitting
        (flowOf key query redirect verifier nonce (W.unixNow place s.exchange.now))
  | .callback _ _ _ state _ => state ∈ s.minted
  | .answer index response envelopeId fingerprint => ∀ pending, s.pending[index]? = some pending →
      CodeEnvelope.codec.Fitting (pending.envelope response envelopeId fingerprint
        (W.unixNow pending.place s.exchange.now))
  | .exchange label => W.Clocked [] s.exchange label ∧
      ∀ input code, label = .begin input → input.form.code = some code → code ∈ s.minted

/-- No relay that a flow can end at shares its key with its upstream. -/
def Apart : Prop :=
  ∀ version key relay, W.resolve version key = some relay →
    (∃ redirect, relay.redirectAllowed redirect = true) → relay.upstream ≠ key

end Service

variable {W : Service}

/-! ## The requests of a flow -/

/-- The step sends a browser to the relay's upstream with the flow. -/
structure Authorizes (e : W.Event) (key : ResourceKey) (relay : Relay) (query : AuthorizeRequest)
    (flow : FlowEnvelope) : Prop where
  asked : ∃ place version verifier nonce redirect,
    e.label = .authorize place version key query verifier nonce ∧
      W.resolve version key = some relay ∧ query.redirectUri = some redirect ∧
      flow = flowOf key query redirect verifier nonce (W.unixNow place e.before.exchange.now)
  allowed : relay.redirectAllowed flow.appRedirectUri = true
  /-- A public client has to send a challenge. -/
  challenged : relay.clientIsPublic = true → query.codeChallenge ≠ none

/-- The step takes up a flow at the callback of the upstream. -/
structure Calls (e : W.Event) (upstream : ResourceKey) (pending : Pending W.toExchanger) :
    Prop where
  asked : ∃ version relay, e.label = .callback pending.place version upstream
      (sealPostcard FlowEnvelope.codec upstream pending.flow) pending.upstreamCode ∧
    W.resolve version pending.key = some relay ∧ relay.upstream = upstream ∧
    relay.redirectAllowed pending.flow.appRedirectUri = true
  fresh : fresh (W.unixNow pending.place e.before.exchange.now) pending.flow.issuedAt flowTtl = true

/-- The step brings the upstream's answer to a callback, which makes a code of it. -/
def Answers (e : W.Event) (pending : Pending W.toExchanger) (envelope : CodeEnvelope) : Prop :=
  ∃ index response envelopeId fingerprint, e.label = .answer index response envelopeId fingerprint ∧
    e.before.pending[index]? = some pending ∧
    envelope = pending.envelope response envelopeId fingerprint
      (W.unixNow pending.place e.before.exchange.now)

/-- The requests that lead to a code. -/
structure Journey (W : Service) where
  authorized : W.Event
  called : W.Event
  answered : W.Event
  relay : Relay
  query : AuthorizeRequest
  pending : Pending W.toExchanger
  envelope : CodeEnvelope

/-- Newest first. -/
def Journey.steps (journey : Journey W) : List W.Event :=
  [journey.answered, journey.called, journey.authorized]

/-- The requests belong together. -/
structure Journey.Made (journey : Journey W) : Prop where
  authorizes : Authorizes journey.authorized journey.pending.key journey.relay journey.query
    journey.pending.flow
  calls : Calls journey.called journey.relay.upstream journey.pending
  answers : Answers journey.answered journey.pending journey.envelope

/-! ## Redemptions -/

/-- The step begins the redemption `i`. -/
def Begins (e : W.Event) (i : ℕ) (attempt : Attempt W.toExchanger) : Prop :=
  ∃ input, e.label = .exchange (.begin input) ∧ i = e.before.exchange.threads.length ∧
    attempt = ⟨input.place, input.key, input.relay, input.form, ⟨i, 0⟩⟩

/-- In this step the redemption `i` finds the code fresh. -/
structure Checks (e : W.Event) (i : ℕ) (attempt : Attempt W.toExchanger)
    (envelope : CodeEnvelope) : Prop where
  steps : ∃ delivery choice, e.label = .exchange (.step i delivery choice)
  reads : ∃ t, e.before.exchange.threads[i]? = some t ∧ t.call = ⟨attempt, .readClock envelope⟩
  accepts : W.accepts attempt.place e.before.exchange.now envelope = true

/-- The redemption meets what the authorization request asked for. -/
structure Attempt.Meets {X : Exchanger} (attempt : Attempt X) (query : AuthorizeRequest) :
    Prop where
  redirect : attempt.form.redirectUri = query.redirectUri
  /-- A challenge is matched by a valid verifier. -/
  challenged : ∀ challenge, query.codeChallenge = some challenge →
    ∃ verifier, attempt.form.codeVerifier = some verifier ∧ validPkceVerifier verifier = true ∧
      X.pkceChallenge verifier = challenge
  /-- Without a challenge there is no verifier, and the client is not public. -/
  unchallenged : query.codeChallenge = none →
    attempt.form.codeVerifier = none ∧ attempt.relay.clientIsPublic = false

/-- The client gets the answer, with another body only if the relay keeps the refresh tokens. -/
structure Attempt.Conveys {X : Exchanger} (attempt : Attempt X)
    (answer response : StoredResponse) : Prop where
  status : response.status = answer.status
  contentType : response.contentType = answer.contentType
  body : attempt.relay.refreshTokens = .passthrough → response.body = answer.body

/-- The code whose checks a redemption has passed. -/
def Pc.cleared? : Pc → Option CodeEnvelope
  | .unsealCode _ => none
  | .readClock _ => none
  | .validate envelope _ => some envelope
  | .sealClock envelope _ => some envelope
  | .sealMember envelope .. => some envelope
  | .putMarker envelope .. => some envelope
  | .issue envelope _ => some envelope
  | .redeemed envelope _ => some envelope
  | .refused _ => none

section Calls

variable {X : Exchanger} {attempt : Attempt X} {envelope envelope' : CodeEnvelope}
  {p q : Pc} {σ : Store Key Value} {now : ℕ} {delivery : Delivery} {choice : Choice} {name : Name}

theorem eq_of_cleared? (cleared : p.Cleared envelope') (some : p.cleared? = some envelope) :
    envelope' = envelope := by
  cases p with
  | unsealCode _ => cases some
  | readClock _ => cases some
  | refused _ => cases some
  | _ =>
      cases some
      exact cleared.symm

theorem fresh_of_checkEnvelope {marker : Name}
    (cleared : (attempt.checkEnvelope envelope' now marker).cleared? = some envelope) :
    envelope' = envelope ∧ fresh now envelope'.issuedAt codeTtl = true := by
  have checked : (attempt.checkEnvelope envelope' now marker).Cleared envelope' ∧
      (fresh now envelope'.issuedAt codeTtl = true ∨
        (attempt.checkEnvelope envelope' now marker).cleared? = none) := by
    unfold Attempt.checkEnvelope
    split
    · rename_i checked
      simp only [Bool.and_eq_true, decide_eq_true_eq] at checked
      refine ⟨?_, .inl checked.2⟩
      split
      · trivial
      · split
        · rfl
        · exact cleared_afterValidation _
    · exact ⟨trivial, .inr rfl⟩
  refine ⟨eq_of_cleared? checked.1 cleared, checked.2.resolve_right fun none => ?_⟩
  rw [cleared] at none
  cases none

/-- **A redemption gets past the checks by finding its code fresh.** -/
theorem next_cleared? (cleared : q.cleared? = some envelope)
    (next : (attempt.await p).next σ now delivery (answer choice name) = some q) :
    p.cleared? = some envelope ∨
      (p = .readClock envelope ∧ fresh choice.now envelope.issuedAt codeTtl = true) := by
  cases p with
  | unsealCode code =>
      obtain rfl := Option.some.inj next
      dsimp only at cleared
      split at cleared <;> cases cleared
  | readClock envelope' =>
      obtain rfl := Option.some.inj next
      obtain ⟨rfl, fresh⟩ := fresh_of_checkEnvelope cleared
      exact .inr ⟨rfl, fresh⟩
  | validate envelope' marker =>
      obtain rfl := Option.some.inj next
      obtain rfl := eq_of_cleared? (cleared_afterValidation _) cleared
      exact .inl rfl
  | sealClock envelope' marker =>
      obtain rfl := Option.some.inj next
      obtain rfl := eq_of_cleared? cleared_sealTokenResponse cleared
      exact .inl rfl
  | sealMember envelope' marker issuedAt before token rest =>
      obtain rfl := Option.some.inj next
      dsimp only at cleared
      split at cleared
      · cases cleared
      · split at cleared
        · cases cleared
        · obtain rfl := eq_of_cleared? cleared_sealNext cleared
          exact .inl rfl
  | putMarker envelope' marker admitted sealedBody =>
      rcases Await.next_putIfAbsent next with ⟨_, _, _, rfl⟩ | ⟨_, _, _, rfl⟩ | ⟨_, _, rfl⟩
      · obtain rfl := eq_of_cleared? (cleared_afterMarker admitted) cleared
        exact .inl rfl
      · cases cleared
      · cases cleared
  | issue envelope' pc =>
      simp only [Attempt.await, Await.next_map, Option.map_eq_some_iff] at next
      obtain ⟨pc', _, rfl⟩ := next
      obtain rfl := eq_of_cleared? (cleared_settle pc') cleared
      exact .inl rfl
  | redeemed envelope' response => cases next
  | refused error => cases next

/-- What comes out of this state is the upstream's answer. -/
def Attempt.Faithful {X : Exchanger} (attempt : Attempt X) : Pc → Prop
  | .issue _ _ => attempt.relay.refreshTokens = .rotating
  | .redeemed envelope response => attempt.Conveys envelope.upstreamResponse response
  | _ => True

theorem faithful_issueInResponse (rotating : attempt.relay.refreshTokens = .rotating) :
    attempt.Faithful (attempt.issueInResponse envelope) := by
  unfold Attempt.issueInResponse
  dsimp only
  split
  · split
    · trivial
    · exact ⟨rfl, rfl, fun _ => rfl⟩
  · exact rotating

theorem faithful_settle (rotating : attempt.relay.refreshTokens = .rotating) (pc : CreatePc) :
    attempt.Faithful (attempt.settle envelope pc) := by
  have other : attempt.relay.refreshTokens ≠ .passthrough := by simp [rotating]
  unfold Attempt.settle
  dsimp only
  split
  · split
    · trivial
    · exact ⟨rfl, rfl, fun passthrough => absurd passthrough other⟩
  · trivial
  · trivial
  · exact rotating

theorem faithful_afterMarker (admitted : Bool) (sealedBody : Option (List UInt8)) :
    attempt.Faithful (attempt.afterMarker envelope admitted sealedBody) := by
  unfold Attempt.afterMarker
  split
  · trivial
  · split
    · exact ⟨rfl, rfl, fun _ => rfl⟩
    · rename_i mode
      refine ⟨rfl, rfl, fun passthrough => ?_⟩
      rw [mode] at passthrough
      cases passthrough
    · rename_i mode
      split
      · exact faithful_issueInResponse mode
      · trivial

theorem faithful_beginMarker {marker : Name} (admitted : Bool)
    (sealedBody : Option (List UInt8)) :
    attempt.Faithful (attempt.beginMarker envelope marker admitted sealedBody) := by
  unfold Attempt.beginMarker
  split
  · trivial
  · exact faithful_afterMarker admitted sealedBody

theorem faithful_sealNext {marker : Name} {issuedAt : ℕ} {rest : Members} :
    ∀ {replaced : Bool} {before : Members},
      attempt.Faithful (attempt.sealNext envelope marker issuedAt replaced before rest) := by
  induction rest with
  | nil =>
      intro replaced before
      unfold Attempt.sealNext
      split
      · split
        · exact faithful_beginMarker true _
        · trivial
      · exact faithful_beginMarker true none
  | cons member rest ih =>
      intro replaced before
      unfold Attempt.sealNext
      split
      · exact ih
      · split
        · exact ih
        · trivial

theorem faithful_sealTokenResponse {marker : Name} {issuedAt : ℕ} :
    attempt.Faithful (attempt.sealTokenResponse envelope marker issuedAt) := by
  unfold Attempt.sealTokenResponse
  dsimp only
  split
  · exact faithful_beginMarker true none
  · split
    · split
      · trivial
      · exact faithful_beginMarker true none
    · exact faithful_sealNext

theorem faithful_afterValidation {marker : Name}
    (validation : Except IdTokenValidationError Unit) :
    attempt.Faithful (attempt.afterValidation envelope marker validation) := by
  unfold Attempt.afterValidation
  split
  · trivial
  · exact faithful_beginMarker false none
  · split
    · trivial
    · exact faithful_beginMarker true none

theorem faithful_checkEnvelope {marker : Name} :
    attempt.Faithful (attempt.checkEnvelope envelope now marker) := by
  unfold Attempt.checkEnvelope
  split
  · split
    · trivial
    · split
      · trivial
      · exact faithful_afterValidation _
  · trivial

theorem next_faithful (faithful : attempt.Faithful p)
    (next : (attempt.await p).next σ now delivery (answer choice name) = some q) :
    attempt.Faithful q := by
  cases p with
  | unsealCode code =>
      obtain rfl := Option.some.inj next
      dsimp only
      split <;> trivial
  | readClock envelope' =>
      obtain rfl := Option.some.inj next
      exact faithful_checkEnvelope
  | validate envelope' marker =>
      obtain rfl := Option.some.inj next
      exact faithful_afterValidation _
  | sealClock envelope' marker =>
      obtain rfl := Option.some.inj next
      exact faithful_sealTokenResponse
  | sealMember envelope' marker issuedAt before token rest =>
      obtain rfl := Option.some.inj next
      dsimp only
      split
      · trivial
      · split
        · trivial
        · exact faithful_sealNext
  | putMarker envelope' marker admitted sealedBody =>
      rcases Await.next_putIfAbsent next with ⟨_, _, _, rfl⟩ | ⟨_, _, _, rfl⟩ | ⟨_, _, rfl⟩
      · exact faithful_afterMarker admitted sealedBody
      · trivial
      · trivial
  | issue envelope' pc =>
      simp only [Attempt.await, Await.next_map, Option.map_eq_some_iff] at next
      obtain ⟨pc', _, rfl⟩ := next
      exact faithful_settle faithful pc'
  | redeemed envelope' response => cases next
  | refused error => cases next

end Calls

/-- **What a redemption hands on is the upstream's answer.** -/
theorem conveys_of_run {X : Exchanger} {ok : List X.machine.Event → X.machine.State →
      X.machine.Lbl → Prop} {events : List X.machine.Event} {s : X.machine.State}
    (run : X.machine.Runs ok events s) {i : ℕ} {t : Thread (Call X)}
    (there : s.threads[i]? = some t) : t.call.attempt.Faithful t.call.pc := by
  apply run.thread_invariant (I := fun _ _ (t : Thread (Call X)) =>
    t.call.attempt.Faithful t.call.pc) ?_ ?_ ?_ there
  · intro _ _ _ _ faithful _
    exact faithful
  · intro _ _ input _
    simp only [Call.start]
    split
    · trivial
    · split <;> trivial
  · intro _ _ _ _ _ t call _ _ _ faithful resumed
    simp only [Call.await, Await.next_map, Option.map_eq_some_iff] at resumed
    obtain ⟨pc, next, rfl⟩ := resumed
    exact next_faithful faithful next

/-! ## What opens -/

theorem flow_of_authorize {deployment : Deployment} {key : ResourceKey} {relay : Relay}
    {query : AuthorizeRequest} {verifier : String} {nonce : Bytes 16} {now : ℕ} {state : SealedText}
    (made : authorize deployment key relay query verifier nonce now = some state) :
    ∃ redirect, query.redirectUri = some redirect ∧ relay.redirectAllowed redirect = true ∧
      (relay.clientIsPublic = true → query.codeChallenge ≠ none) ∧
      state = sealPostcard FlowEnvelope.codec relay.upstream
        (flowOf key query redirect verifier nonce now) := by
  unfold authorize at made
  split at made
  · cases made
  split at made
  · cases made
  rename_i redirect asked
  split at made
  · cases made
  rename_i allowed
  split at made
  · cases made
  split at made
  · cases made
  split at made
  · cases made
  rename_i challenged
  repeat' (split at made; · cases made)
  refine ⟨redirect, asked, by simpa using allowed, fun isPublic none => ?_,
    (Option.some.inj made).symm⟩
  simp [isPublic, none] at challenged

theorem FlowEnvelope.eq_of_unseal {key key' : ResourceKey} {flow flow' : FlowEnvelope}
    (fits : FlowEnvelope.codec.Fitting flow)
    (opened : unsealPostcard FlowEnvelope.codec key' (sealPostcard FlowEnvelope.codec key flow) =
      some flow') : key' = key ∧ flow' = flow := by
  obtain rfl := key_eq_of_unsealPostcard opened
  rw [unsealPostcard_sealPostcard _ _ fits] at opened
  exact ⟨rfl, (Option.some.inj opened).symm⟩

theorem CodeEnvelope.eq_of_unseal {key key' : ResourceKey} {code code' : CodeEnvelope}
    (fits : CodeEnvelope.codec.Fitting code)
    (opened : unsealPostcard CodeEnvelope.codec key' (sealPostcard CodeEnvelope.codec key code) =
      some code') : key' = key ∧ code' = code := by
  obtain rfl := key_eq_of_unsealPostcard opened
  rw [unsealPostcard_sealPostcard _ _ fits] at opened
  exact ⟨rfl, (Option.some.inj opened).symm⟩

theorem openFlow_fresh {deployment : Deployment} {upstream key : ResourceKey} {now : ℕ}
    {state : SealedText} {relay : Relay} {flow : FlowEnvelope}
    (opened : openFlow deployment upstream now state = some (key, relay, flow)) :
    fresh now flow.issuedAt flowTtl = true := by
  unfold openFlow at opened
  split at opened
  · cases opened
  · split at opened
    · rename_i fresh
      repeat' split at opened
      all_goals cases opened
      exact fresh
    · cases opened

/-! ## Runs -/

/-- A sealed text and the steps that led to it. -/
inductive Minted : List W.Event → SealedText → Prop where
  | flow {e : W.Event} {key : ResourceKey} {relay : Relay} {query : AuthorizeRequest}
      {flow : FlowEnvelope} (authorizes : Authorizes e key relay query flow)
      (fits : FlowEnvelope.codec.Fitting flow) :
      Minted [e] (sealPostcard FlowEnvelope.codec relay.upstream flow)
  | code (journey : Journey W) (made : journey.Made)
      (fits : CodeEnvelope.codec.Fitting journey.envelope) :
      Minted journey.steps (sealPostcard CodeEnvelope.codec journey.pending.key journey.envelope)

theorem Authorizes.relayKey {e : W.Event} {key : ResourceKey} {relay : Relay}
    {query : AuthorizeRequest} {flow : FlowEnvelope}
    (authorizes : Authorizes e key relay query flow) :
    flow.relayKey = key.value := by
  obtain ⟨_, _, _, _, _, _, _, _, rfl⟩ := authorizes.asked
  rfl

/-- **A callback takes up only flows that were authorized at its upstream.** -/
theorem authorized_of_openFlow (apart : W.Apart) {steps : List W.Event} {state : SealedText}
    (minted : Minted steps state) {version : W.Version} {upstream key : ResourceKey} {now : ℕ}
    {relay : Relay} {flow : FlowEnvelope}
    (opened : openFlow (W.deployment version) upstream now state = some (key, relay, flow))
    (allowed : relay.redirectAllowed flow.appRedirectUri = true) :
    ∃ e relay' query, steps = [e] ∧ Authorizes e key relay' query flow ∧
      relay'.upstream = upstream ∧ state = sealPostcard FlowEnvelope.codec upstream flow := by
  obtain ⟨unsealed, named, _, _⟩ := openFlow_eq_some opened
  cases minted with
  | flow authorizes fits =>
      obtain ⟨rfl, rfl⟩ := FlowEnvelope.eq_of_unseal fits unsealed
      rw [authorizes.relayKey, ResourceKey.new_value] at named
      cases named
      exact ⟨_, _, _, rfl, authorizes, rfl, rfl⟩
  | code journey made fits =>
      obtain ⟨_, _, _, _, _, _, same⟩ := made.answers
      have relayKey : journey.envelope.relayKey = journey.pending.key.value := by
        rw [same]
        rfl
      obtain ⟨found, shared⟩ := upstream_eq_of_openFlow relayKey opened
      exact absurd shared (apart _ _ _ found ⟨_, allowed⟩)

/-- **A token endpoint redeems only codes that a callback made for its relay.** -/
theorem journey_of_granted (apart : W.Apart) {steps : List W.Event} {code : SealedText}
    (minted : Minted steps code) {attempt : Attempt W.toExchanger} {envelope : CodeEnvelope}
    (presented : attempt.form.code = some code) (granted : attempt.Granted envelope) :
    ∃ journey : Journey W, steps = journey.steps ∧ journey.Made ∧ journey.envelope = envelope ∧
      journey.pending.key = attempt.key := by
  obtain ⟨code', presented', unsealed⟩ := granted.opens
  rw [presented] at presented'
  cases presented'
  cases minted with
  | flow authorizes fits =>
      obtain ⟨_, _, _, _, _, _, found, _, _⟩ := authorizes.asked
      obtain ⟨a, rfl⟩ := relayKey_of_unseal (FlowEnvelope.starts authorizes.relayKey) unsealed
      have same := key_eq_of_unsealPostcard unsealed
      have key := ResourceKey.ext_value granted.relay
      exact absurd (same.symm.trans key.symm) (apart _ _ _ found ⟨_, authorizes.allowed⟩)
  | code journey made fits =>
      obtain ⟨same, rfl⟩ := CodeEnvelope.eq_of_unseal fits unsealed
      exact ⟨_, rfl, made, rfl, same.symm⟩

/-- What a step does. -/
inductive Moves (s : Service.State W) : Service.Label W → Service.State W → Prop where
  | authorize {place : W.Instance} {version : W.Version} {key : ResourceKey}
      {query : AuthorizeRequest} {verifier : String} {nonce : Bytes 16} {relay : Relay}
      {state : SealedText} (found : W.resolve version key = some relay)
      (made : authorize (W.deployment version) key relay query verifier nonce
        (W.unixNow place s.exchange.now) = some state) :
      Moves s (.authorize place version key query verifier nonce)
        { s with minted := state :: s.minted }
  | callback {place : W.Instance} {version : W.Version} {upstream key : ResourceKey}
      {state : SealedText} {upstreamCode : String} {relay : Relay} {flow : FlowEnvelope}
      (opened : openFlow (W.deployment version) upstream (W.unixNow place s.exchange.now) state =
        some (key, relay, flow))
      (allowed : relay.redirectAllowed flow.appRedirectUri = true) :
      Moves s (.callback place version upstream state upstreamCode)
        { s with pending := s.pending ++ [⟨place, key, flow, upstreamCode⟩] }
  | answer {index : ℕ} {response : StoredResponse} {envelopeId : Bytes 16}
      {fingerprint : Bytes 32} {pending : Pending W.toExchanger}
      (there : s.pending[index]? = some pending) :
      Moves s (.answer index response envelopeId fingerprint)
        { s with
          pending := s.pending.eraseIdx index
          minted := sealPostcard CodeEnvelope.codec pending.key (pending.envelope response
            envelopeId fingerprint (W.unixNow pending.place s.exchange.now)) :: s.minted }
  | exchange {label : W.machine.Lbl} {exchange : W.machine.State}
      (taken : W.machine.step s.exchange label = some exchange) :
      Moves s (.exchange label) { s with exchange := exchange }

theorem moves_of_step {s s' : Service.State W} {label : Service.Label W}
    (taken : W.step s label = some s') : Moves s label s' := by
  cases label with
  | authorize place version key query verifier nonce =>
      simp only [Service.step] at taken
      split at taken
      · cases taken
      · rename_i relay found
        obtain ⟨state, made, rfl⟩ := Option.map_eq_some_iff.mp taken
        exact .authorize found made
  | callback place version upstream state upstreamCode =>
      simp only [Service.step] at taken
      split at taken
      · cases taken
      · rename_i key relay flow opened
        split at taken
        · rename_i allowed
          cases taken
          exact .callback opened allowed
        · cases taken
  | answer index response envelopeId fingerprint =>
      simp only [Service.step] at taken
      split at taken
      · cases taken
      · rename_i pending there
        cases taken
        exact .answer there
  | exchange label =>
      obtain ⟨exchange, moved, rfl⟩ := Option.map_eq_some_iff.mp taken
      exact .exchange moved

section Steps

variable {events : List W.Event} {s s' : Service.State W} {label : Service.Label W}

/-- The redemptions of a run are a run of their own. -/
theorem exchange_of_run (run : Steps.Runs W.step W.Genuine W.initial events s) :
    ∃ events', W.machine.Runs W.machine.anyStep events' s.exchange := by
  refine run.invariant (I := fun _ s => ∃ events', W.machine.Runs W.machine.anyStep events'
    s.exchange) ⟨[], .nil⟩ ?_
  rintro _ s label s' _ _ taken ⟨events', run'⟩
  cases moves_of_step taken with
  | exchange moved => exact ⟨_, run'.cons trivial moved⟩
  | _ => exact ⟨events', run'⟩

/-- Where the texts of a state come from, and the requests that wait or run there. -/
structure Traced (events : List W.Event) (s : Service.State W) : Prop where
  minted : ∀ text ∈ s.minted, ∃ steps, steps.Sublist events ∧ Minted steps text
  pending : ∀ pending ∈ s.pending, ∃ called authorized relay query,
    [called, authorized].Sublist events ∧
      Authorizes authorized pending.key relay query pending.flow ∧
      Calls called relay.upstream pending
  begun : ∀ (i : ℕ) (t : Thread (Call W.toExchanger)) code, s.exchange.threads[i]? = some t →
    t.call.attempt.form.code = some code → ∃ begun steps, (begun :: steps).Sublist events ∧
      Begins begun i t.call.attempt ∧ Minted steps code
  checked : ∀ (i : ℕ) (t : Thread (Call W.toExchanger)) envelope,
    s.exchange.threads[i]? = some t → t.call.pc.cleared? = some envelope →
    ∃ checked begun steps code, (checked :: begun :: steps).Sublist events ∧
      t.call.attempt.form.code = some code ∧ Checks checked i t.call.attempt envelope ∧
      Begins begun i t.call.attempt ∧ Minted steps code

theorem minted_step (traced : Traced events s) (genuine : W.Genuine events s label)
    (moves : Moves s label s') {text : SealedText} (member : text ∈ s'.minted) :
    ∃ steps, steps.Sublist (⟨s, label, s'⟩ :: events) ∧ Minted steps text := by
  have older (member : text ∈ s.minted) :
      ∃ steps, steps.Sublist (⟨s, label, s'⟩ :: events) ∧ Minted steps text := by
    obtain ⟨steps, inside, minted⟩ := traced.minted text member
    exact ⟨steps, inside.cons _, minted⟩
  cases moves with
  | authorize found made =>
      rcases List.mem_cons.mp member with rfl | member
      · obtain ⟨redirect, asked, allowed, challenged, rfl⟩ := flow_of_authorize made
        exact ⟨[_], List.singleton_sublist.mpr (List.mem_cons_self ..), .flow
          ⟨⟨_, _, _, _, redirect, rfl, found, asked, rfl⟩, allowed, challenged⟩
          (genuine redirect asked)⟩
      · exact older member
  | callback opened allowed => exact older member
  | @answer index response envelopeId fingerprint pending there =>
      rcases List.mem_cons.mp member with rfl | member
      · obtain ⟨called, authorized, relay, query, inside, authorizes, calls⟩ :=
          traced.pending pending (List.mem_of_getElem? there)
        exact ⟨_, inside.cons_cons _, .code ⟨authorized, called, _, relay, query, pending, _⟩
          ⟨authorizes, calls, index, response, envelopeId, fingerprint, rfl, there, rfl⟩
          (genuine pending there)⟩
      · exact older member
  | exchange taken => exact older member

theorem pending_step (apart : W.Apart) (traced : Traced events s)
    (genuine : W.Genuine events s label) (moves : Moves s label s')
    {pending : Pending W.toExchanger} (member : pending ∈ s'.pending) :
    ∃ called authorized relay query,
      [called, authorized].Sublist (⟨s, label, s'⟩ :: events) ∧
        Authorizes authorized pending.key relay query pending.flow ∧
        Calls called relay.upstream pending := by
  have older (member : pending ∈ s.pending) : ∃ called authorized relay query,
      [called, authorized].Sublist (⟨s, label, s'⟩ :: events) ∧
        Authorizes authorized pending.key relay query pending.flow ∧
        Calls called relay.upstream pending := by
    obtain ⟨called, authorized, relay, query, inside, steps⟩ := traced.pending pending member
    exact ⟨called, authorized, relay, query, inside.cons _, steps⟩
  cases moves with
  | authorize found made => exact older member
  | callback opened allowed =>
      rcases List.mem_append.mp member with member | member
      · exact older member
      · obtain rfl := List.mem_singleton.mp member
        obtain ⟨steps, inside, minted⟩ := traced.minted _ genuine
        obtain ⟨_, found, same⟩ := (openFlow_eq_some opened).2
        obtain ⟨authorized, relay, query, rfl, authorizes, rfl, rfl⟩ :=
          authorized_of_openFlow apart minted opened allowed
        exact ⟨_, authorized, relay, query, inside.cons_cons _, authorizes,
          ⟨_, _, rfl, found, same, allowed⟩, openFlow_fresh opened⟩
  | answer there => exact older (List.mem_of_mem_eraseIdx member)
  | exchange taken => exact older member

theorem begun_step (traced : Traced events s) (genuine : W.Genuine events s label)
    (moves : Moves s label s') {i : ℕ} {t : Thread (Call W.toExchanger)} {code : SealedText}
    (there : s'.exchange.threads[i]? = some t) (presented : t.call.attempt.form.code = some code) :
    ∃ begun steps, (begun :: steps).Sublist (⟨s, label, s'⟩ :: events) ∧
      Begins begun i t.call.attempt ∧ Minted steps code := by
  have older {t : Thread (Call W.toExchanger)} (there : s.exchange.threads[i]? = some t)
      (presented : t.call.attempt.form.code = some code) :
      ∃ begun steps, (begun :: steps).Sublist (⟨s, label, s'⟩ :: events) ∧
        Begins begun i t.call.attempt ∧ Minted steps code := by
    obtain ⟨begun, steps, inside, begins⟩ := traced.begun i t code there presented
    exact ⟨begun, steps, inside.cons _, begins⟩
  cases moves with
  | exchange moved =>
      rcases thread_after moved there with ⟨before, _⟩ | ⟨input, rfl, rfl, rfl⟩ |
        ⟨delivery, choice, t, call, rfl, before, resumed, rfl⟩
      · exact older before presented
      · obtain ⟨steps, inside, minted⟩ := traced.minted code (genuine.2 input code rfl presented)
        exact ⟨_, steps, inside.cons_cons _, ⟨input, rfl, rfl, rfl⟩, minted⟩
      · simp only [Call.await, Await.next_map, Option.map_eq_some_iff] at resumed
        obtain ⟨pc, _, rfl⟩ := resumed
        have earlier := older before presented
        exact earlier
  | _ => exact older there presented

theorem checked_step (run : Steps.Runs W.step W.Genuine W.initial events s)
    (traced : Traced events s) (genuine : W.Genuine events s label) (moves : Moves s label s')
    {i : ℕ} {t : Thread (Call W.toExchanger)} {envelope : CodeEnvelope}
    (there : s'.exchange.threads[i]? = some t) (cleared : t.call.pc.cleared? = some envelope) :
    ∃ checked begun steps code,
      (checked :: begun :: steps).Sublist (⟨s, label, s'⟩ :: events) ∧
        t.call.attempt.form.code = some code ∧ Checks checked i t.call.attempt envelope ∧
        Begins begun i t.call.attempt ∧ Minted steps code := by
  have older {t : Thread (Call W.toExchanger)} (there : s.exchange.threads[i]? = some t)
      (cleared : t.call.pc.cleared? = some envelope) :
      ∃ checked begun steps code,
        (checked :: begun :: steps).Sublist (⟨s, label, s'⟩ :: events) ∧
          t.call.attempt.form.code = some code ∧ Checks checked i t.call.attempt envelope ∧
          Begins begun i t.call.attempt ∧ Minted steps code := by
    obtain ⟨checked, begun, steps, code, inside, facts⟩ := traced.checked i t envelope there cleared
    exact ⟨checked, begun, steps, code, inside.cons _, facts⟩
  cases moves with
  | exchange moved =>
      rcases thread_after moved there with ⟨before, _⟩ | ⟨input, rfl, rfl, rfl⟩ |
        ⟨delivery, choice, t, call, rfl, before, resumed, rfl⟩
      · exact older before cleared
      · simp only [Call.start] at cleared
        repeat' split at cleared
        all_goals cases cleared
      · simp only [Call.await, Await.next_map, Option.map_eq_some_iff] at resumed
        obtain ⟨pc, next, rfl⟩ := resumed
        rcases next_cleared? cleared next with cleared | ⟨reads, fresh⟩
        · have earlier := older before cleared
          exact earlier
        -- the code is read for the first time, so the request that presents it is known
        · obtain ⟨_, run'⟩ := exchange_of_run run
          have known := known_of_run run' before
          rw [reads] at known
          obtain ⟨code, presented, _⟩ := known
          obtain ⟨begun, steps, inside, begins, minted⟩ := traced.begun i t code before presented
          rw [genuine.1 i delivery choice t rfl before] at fresh
          exact ⟨_, begun, steps, code, inside.cons_cons _, presented,
            ⟨⟨delivery, choice, rfl⟩, ⟨t, before, by rw [← reads]⟩, fresh⟩, begins, minted⟩
  | _ => exact older there cleared

theorem traced_initial : Traced [] W.initial where
  minted _ member := absurd member List.not_mem_nil
  pending _ member := absurd member List.not_mem_nil
  begun _ _ _ there := by cases there
  checked _ _ _ there := by cases there

/-- **Every text, callback and redemption of a run can be traced back.** -/
theorem traced_of_run (apart : W.Apart) (run : Steps.Runs W.step W.Genuine W.initial events s) :
    Traced events s := by
  refine run.invariant (I := Traced) traced_initial ?_
  intro events s label s' run genuine taken traced
  have moves := moves_of_step taken
  exact ⟨fun _ => minted_step traced genuine moves,
    fun _ => pending_step apart traced genuine moves,
    fun _ _ _ => begun_step traced genuine moves,
    fun _ _ _ => checked_step run traced genuine moves⟩

theorem Journey.Made.meets {journey : Journey W} (made : journey.Made)
    {attempt : Attempt W.toExchanger} (granted : attempt.Granted journey.envelope) :
    attempt.Meets journey.query ∧ journey.envelope.idTokenNonce = journey.query.idTokenNonce := by
  obtain ⟨_, _, _, _, redirect, _, _, asked, flow⟩ := made.authorizes.asked
  obtain ⟨_, _, _, _, _, _, code⟩ := made.answers
  have same : journey.envelope.redirectUri = redirect ∧
      journey.envelope.clientCodeChallenge = journey.query.codeChallenge ∧
      journey.envelope.idTokenNonce = journey.query.idTokenNonce := by
    rw [code, Pending.envelope, flow]
    exact ⟨rfl, rfl, rfl⟩
  refine ⟨⟨?_, ?_, ?_⟩, same.2.2⟩
  · rw [asked, ← same.1]
    exact granted.redirect
  · rw [← same.2.1]
    exact granted.challenged
  · rw [← same.2.1]
    exact granted.unchallenged

/-- The journey ends in the redemption `i` of its code. -/
structure Journey.EndsIn (journey : Journey W) (events : List W.Event) (i : ℕ)
    (attempt : Attempt W.toExchanger) : Prop where
  made : journey.Made
  ordered : ∃ begun checked, (checked :: begun :: journey.steps).Sublist events ∧
    Begins begun i attempt ∧ Checks checked i attempt journey.envelope
  key : journey.pending.key = attempt.key
  meets : attempt.Meets journey.query
  nonce : journey.envelope.idTokenNonce = journey.query.idTokenNonce

/-- **The requests behind a token response belong together.** -/
theorem redeemed_by_journey (apart : W.Apart)
    (run : Steps.Runs W.step W.Genuine W.initial events s) {i : ℕ}
    {t : Thread (Call W.toExchanger)} {envelope : CodeEnvelope} {response : StoredResponse}
    (there : s.exchange.threads[i]? = some t) (redeemed : t.call.pc = .redeemed envelope response) :
    ∃ journey : Journey W, journey.envelope = envelope ∧
      journey.EndsIn events i t.call.attempt ∧
      t.call.attempt.Conveys envelope.upstreamResponse response := by
  obtain ⟨_, run'⟩ := exchange_of_run run
  have granted := known_of_run run' there
  have conveys := conveys_of_run run' there
  rw [redeemed] at granted conveys
  obtain ⟨checked, begun, steps, code, inside, presented, checks, begins, minted⟩ :=
    (traced_of_run apart run).checked i t envelope there (by rw [redeemed]; rfl)
  obtain ⟨journey, rfl, made, rfl, key⟩ := journey_of_granted apart minted presented granted
  obtain ⟨meets, nonce⟩ := made.meets granted
  exact ⟨journey, rfl, ⟨made, ⟨begun, checked, inside, begins, checks⟩, key, meets, nonce⟩, conveys⟩

end Steps

/-! ## A flow that ends well -/

def fitsMemory (text : String) : Bool := (utf8Bytes text).length < 2 ^ 64

def FlowEnvelope.fits (flow : FlowEnvelope) : Bool :=
  fitsMemory flow.relayKey && fitsMemory flow.appRedirectUri && flow.appState.all fitsMemory &&
    fitsMemory flow.upstreamPkceVerifier && flow.clientCodeChallenge.all fitsMemory &&
    flow.clientCodeChallengeMethod.all fitsMemory && flow.idTokenNonce.all fitsMemory &&
    flow.issuedAt < 2 ^ 64

def CodeEnvelope.fits (code : CodeEnvelope) : Bool :=
  fitsMemory code.relayKey && code.issuedAt < 2 ^ 64 && fitsMemory code.redirectUri &&
    code.clientCodeChallenge.all fitsMemory && code.idTokenNonce.all fitsMemory &&
    code.upstreamResponse.status < 2 ^ 16 && code.upstreamResponse.contentType.all fitsMemory &&
    code.upstreamResponse.body.length < 2 ^ 64

theorem string_fitting_of_fits {text : String} (fits : fitsMemory text = true) :
    string.Fitting text :=
  string_fitting.mpr (of_decide_eq_true fits)

theorem option_fitting_of_fits {text : Option String} (fits : text.all fitsMemory = true) :
    (option string).Fitting text := by
  cases text with
  | none => exact option_fitting_none string
  | some text => exact option_fitting_some.mpr (string_fitting_of_fits fits)

theorem FlowEnvelope.fitting_of_fits {flow : FlowEnvelope} (fits : flow.fits = true) :
    FlowEnvelope.codec.Fitting flow := by
  simp only [FlowEnvelope.fits, Bool.and_eq_true, decide_eq_true_eq] at fits
  obtain ⟨⟨⟨⟨⟨⟨⟨key, redirect⟩, state⟩, verifier⟩, challenge⟩, method⟩, nonce⟩, time⟩ := fits
  exact ⟨string_fitting_of_fits key, string_fitting_of_fits redirect, option_fitting_of_fits state,
    string_fitting_of_fits verifier, option_fitting_of_fits challenge,
    option_fitting_of_fits method, option_fitting_of_fits nonce, u64_fitting.mpr time, trivial⟩

theorem CodeEnvelope.fitting_of_fits {code : CodeEnvelope} (fits : code.fits = true) :
    CodeEnvelope.codec.Fitting code := by
  simp only [CodeEnvelope.fits, Bool.and_eq_true, decide_eq_true_eq] at fits
  obtain ⟨⟨⟨⟨⟨⟨⟨key, time⟩, redirect⟩, challenge⟩, nonce⟩, status⟩, type⟩, body⟩ := fits
  exact ⟨string_fitting_of_fits key, trivial, u64_fitting.mpr time, string_fitting_of_fits redirect,
    option_fitting_of_fits challenge, option_fitting_of_fits nonce,
    ⟨status, option_fitting_of_fits type, body⟩, trivial⟩

def sampleUpstream : ResourceKey where
  value := "up"
  valid := by decide +kernel
  fits := string_fitting.mpr (by decide +kernel)

/-- The sample relay with a public client and another upstream key, that passes refresh tokens
on. -/
def publicRelay : Relay :=
  { sampleRelay with
    upstream := sampleUpstream
    refreshTokens := .passthrough }

/-- One instance, at the sample time, and one version of the configuration. The hash is right for
the sample challenge. -/
def sampleService : Service where
  resolveRelay key := if key = sampleKey then some publicRelay else none
  hasStore := true
  Instance := Unit
  clock _ := sampleTime * second
  pkceChallenge _ := sampleChallenge
  rotator _ := Rotation.sampleRotator 0 0 Rotation.Timing.default
  Version := Unit
  resolve _ key := if key = sampleKey then some publicRelay else none

theorem apart_sampleService : sampleService.Apart := by
  intro _ key relay found _
  simp only [sampleService] at found
  split at found
  · rename_i same
    cases found
    rw [same]
    decide +kernel
  · cases found

/-- The code of the sample flow. -/
def journeyCode : CodeEnvelope where
  relayKey := "app"
  envelopeId := zeroBytes 16
  issuedAt := sampleTime
  redirectUri := "https://t.co/"
  clientCodeChallenge := some sampleChallenge
  idTokenNonce := none
  upstreamResponse := ⟨200, none, utf8Bytes "\x7b\x7d"⟩
  handleFingerprint := zeroBytes 32

/-- A flow from the authorization request to the token response. -/
def sampleJourney : List (Service.Label sampleService) :=
  [.authorize () () sampleKey (sampleQuery "https://t.co/" none) "verifier" (zeroBytes 16),
    .callback () () sampleUpstream
      (sealPostcard FlowEnvelope.codec sampleUpstream (flowOf sampleKey
        (sampleQuery "https://t.co/" none) "https://t.co/" "verifier" (zeroBytes 16) sampleTime))
      "code",
    .answer 0 ⟨200, none, utf8Bytes "\x7b\x7d"⟩ (zeroBytes 16) (zeroBytes 32),
    .exchange (.begin ⟨(), sampleKey, publicRelay,
      ⟨some (sealPostcard CodeEnvelope.codec sampleKey journeyCode), some "https://t.co/",
        some "dBjftJeZ4CVP-mB92K27uhbUJU1p1r_wW1gFWFOEjXk"⟩⟩)] ++
    List.replicate 3 (.exchange (.step 0 .answered
      ⟨none, sampleTime, .ok (), .error .invalid, .good 0⟩))

def sampleGenuine (s : Service.State sampleService) : Service.Label sampleService → Bool
  | .authorize place _ key query verifier nonce => query.redirectUri.all fun redirect =>
      (flowOf key query redirect verifier nonce
        (sampleService.unixNow place s.exchange.now)).fits
  | .callback _ _ _ state _ => state ∈ s.minted
  | .answer index response envelopeId fingerprint => s.pending[index]?.all fun pending =>
      (pending.envelope response envelopeId fingerprint
        (sampleService.unixNow pending.place s.exchange.now)).fits
  | .exchange (.tick _) => true
  | .exchange (.begin input) => input.form.code.all fun code => code ∈ s.minted
  | .exchange (.step i _ choice) => s.exchange.threads[i]?.all fun t =>
      choice.now = sampleService.unixNow t.call.attempt.place s.exchange.now

theorem genuine_of_sampleGenuine {events : List sampleService.Event}
    {s : Service.State sampleService} {label : Service.Label sampleService}
    (genuine : sampleGenuine s label = true) : sampleService.Genuine events s label := by
  cases label with
  | authorize place version key query verifier nonce =>
      intro redirect asked
      simp only [sampleGenuine, asked, Option.all_some] at genuine
      exact FlowEnvelope.fitting_of_fits genuine
  | callback place version upstream state upstreamCode =>
      have member : state ∈ s.minted := of_decide_eq_true genuine
      exact member
  | answer index response envelopeId fingerprint =>
      intro pending there
      simp only [sampleGenuine, there, Option.all_some] at genuine
      exact CodeEnvelope.fitting_of_fits genuine
  | exchange label =>
      cases label with
      | tick duration =>
          exact ⟨fun _ _ _ _ same => (by cases same), fun _ _ same => (by cases same)⟩
      | begin input =>
          refine ⟨fun _ _ _ _ same => (by cases same), fun input code same presented => ?_⟩
          cases same
          simp only [sampleGenuine, presented, Option.all_some] at genuine
          exact of_decide_eq_true genuine
      | step i delivery choice =>
          refine ⟨fun i delivery choice t same there => ?_, fun _ _ same => (by cases same)⟩
          cases same
          simp only [sampleGenuine, there, Option.all_some] at genuine
          exact of_decide_eq_true genuine

/-- The sample flow is a run at whose end the call `0` has returned the upstream's answer. -/
theorem redeemed_by_journey_sample : ∃ events s t,
    Steps.Runs sampleService.step sampleService.Genuine sampleService.initial events s ∧
      s.exchange.threads[0]? = some t ∧
      t.call.pc = .redeemed journeyCode journeyCode.upstreamResponse ∧
      ∃ journey : Journey sampleService, journey.envelope = journeyCode ∧
        journey.EndsIn events 0 t.call.attempt := by
  have done : (Steps.replay sampleService.step (fun _ s label => sampleGenuine s label)
      sampleJourney [] sampleService.initial).map
        (fun p => p.2.exchange.threads[0]?.map fun t => t.call.pc) =
      some (some (.redeemed journeyCode journeyCode.upstreamResponse)) := by decide +kernel
  obtain ⟨⟨events, s⟩, replayed, done⟩ := Option.map_eq_some_iff.mp done
  obtain ⟨t, there, redeemed⟩ := Option.map_eq_some_iff.mp done
  have run : Steps.Runs sampleService.step sampleService.Genuine sampleService.initial events s :=
    .of_replay (fun _ s label => sampleGenuine s label) sampleJourney
      (fun _ _ _ => genuine_of_sampleGenuine) .nil replayed
  obtain ⟨journey, same, ends, _⟩ := redeemed_by_journey apart_sampleService run there redeemed
  exact ⟨events, s, t, run, there, redeemed, journey, same, ends⟩

end OAuthRelay.Codes
