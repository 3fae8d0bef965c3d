import OAuthRelay.Codes.Envelope

/-!
# Flow states and codes under one key

A flow state is sealed for the upstream's key and a code for the relay's. With different
keys neither opens as the other. With one key only the layouts could keep them apart, and
they do not: both start with the relay's key, then the first has texts that the client
chose where the second has sixteen arbitrary bytes, a varint and more texts.
-/

set_option autoImplicit false

namespace OAuthRelay.Codes

open OAuthRelay.Wire OAuthRelay.Wire.Codec

/-! ## The endpoints -/

structure AuthorizeRequest where
  redirectUri : Option String
  state : Option String
  codeChallenge : Option String
  codeChallengeMethod : Option String
  idTokenNonce : Option String
  scope : Option String

def validPkceChallenge (challenge : String) : Bool :=
  (utf8Bytes challenge).length = 43 && challenge.toList.all fun c => c.isAlphanum || c = '-' || c = '_'

/-- `authorize`, up to the sealed flow state that it sends to the upstream. The verifier and
the nonce are random. -/
def authorize (deployment : Deployment) (key : ResourceKey) (relay : Relay)
    (query : AuthorizeRequest) (verifier : String) (nonce : Bytes 16) (now : ℕ) :
    Option SealedText :=
  if rotationStoreMissing deployment relay then none
  else
    match query.redirectUri with
    | none => none
    | some redirect =>
        if !relay.redirectAllowed redirect then none
        else if query.codeChallengeMethod.any (· ≠ "S256") then none
        else if query.codeChallenge.isNone && query.codeChallengeMethod.isSome then none
        else if relay.clientIsPublic && query.codeChallenge.isNone then none
        else if query.codeChallenge.any (!validPkceChallenge ·) then none
        else if query.scope.any (!relay.scopeAllowed ·) then none
        else
          some (sealPostcard FlowEnvelope.codec relay.upstream
            { relayKey := key.value
              appRedirectUri := redirect
              appState := query.state
              upstreamPkceVerifier := verifier
              clientCodeChallenge := query.codeChallenge
              clientCodeChallengeMethod := query.codeChallenge.map fun _ => "S256"
              idTokenNonce := query.idTokenNonce
              issuedAt := now
              nonce := nonce })

/-- The callback of an upstream accepts a flow state. -/
def openFlow (deployment : Deployment) (upstream : ResourceKey) (now : ℕ) (state : SealedText) :
    Option (ResourceKey × Relay × FlowEnvelope) :=
  match unsealPostcard FlowEnvelope.codec upstream state with
  | none => none
  | some flow =>
      if fresh now flow.issuedAt flowTtl then
        match ResourceKey.new flow.relayKey with
        | none => none
        | some key =>
            match deployment.resolveRelay key with
            | none => none
            | some relay => if relay.upstream = upstream then some (key, relay, flow) else none
      else none

/-- `callback`, from the flow state to the sealed code that it sends to the client. The
envelope id is random. -/
def callback (deployment : Deployment) (upstream : ResourceKey) (state : SealedText)
    (response : StoredResponse) (envelopeId : Bytes 16) (fingerprint : Bytes 32) (now : ℕ) :
    Option SealedText :=
  match openFlow deployment upstream now state with
  | none => none
  | some (key, relay, flow) =>
      if relay.redirectAllowed flow.appRedirectUri then
        some (sealPostcard CodeEnvelope.codec key
          { relayKey := key.value
            envelopeId := envelopeId
            issuedAt := now
            redirectUri := flow.appRedirectUri
            clientCodeChallenge := flow.clientCodeChallenge
            idTokenNonce := flow.idTokenNonce
            upstreamResponse := response
            handleFingerprint := fingerprint })
      else none

/-- The token endpoint of a relay accepts a code. -/
def openCode (key : ResourceKey) (now : ℕ) (code : SealedText) : Option CodeEnvelope :=
  match unsealPostcard CodeEnvelope.codec key code with
  | none => none
  | some envelope =>
      if envelope.relayKey = key.value && fresh now envelope.issuedAt codeTtl then some envelope
      else none

/-! ## Separation -/

/-- No flow state is accepted as a code, and no code as a flow state. -/
structure Separate (deployment : Deployment) : Prop where
  flow_not_code : ∀ key relay query verifier nonce issued state,
    deployment.resolveRelay key = some relay →
    authorize deployment key relay query verifier nonce issued = some state →
    ∀ key' relay' now, deployment.resolveRelay key' = some relay' → openCode key' now state = none
  code_not_flow : ∀ key relay query verifier nonce issued state upstream response envelopeId
    fingerprint answered code,
    deployment.resolveRelay key = some relay →
    authorize deployment key relay query verifier nonce issued = some state →
    callback deployment upstream state response envelopeId fingerprint answered = some code →
    ∀ upstream' now, openFlow deployment upstream' now code = none

/-- A relay whose authorization endpoint accepts some redirect URI. -/
def Relay.Serves (relay : Relay) (deployment : Deployment) : Prop :=
  rotationStoreMissing deployment relay = false ∧ ∃ redirect, relay.redirectAllowed redirect = true

theorem authorize_eq_some {deployment : Deployment} {key : ResourceKey} {relay : Relay}
    {query : AuthorizeRequest} {verifier : String} {nonce : Bytes 16} {now : ℕ} {state : SealedText}
    (h : authorize deployment key relay query verifier nonce now = some state) :
    relay.Serves deployment ∧ ∃ flow, flow.relayKey = key.value ∧
      state = sealPostcard FlowEnvelope.codec relay.upstream flow := by
  unfold authorize at h
  split at h
  · cases h
  rename_i store
  split at h
  · cases h
  rename_i redirect _
  split at h
  · cases h
  rename_i allowed
  repeat' (split at h; · cases h)
  exact ⟨⟨by simpa using store, redirect, by simpa using allowed⟩, _, rfl,
    (Option.some.inj h).symm⟩

theorem openFlow_eq_some {deployment : Deployment} {upstream key : ResourceKey} {now : ℕ}
    {state : SealedText} {relay : Relay} {flow : FlowEnvelope}
    (h : openFlow deployment upstream now state = some (key, relay, flow)) :
    unsealPostcard FlowEnvelope.codec upstream state = some flow ∧
      ResourceKey.new flow.relayKey = some key ∧ deployment.resolveRelay key = some relay ∧
      relay.upstream = upstream := by
  unfold openFlow at h
  split at h
  · cases h
  rename_i flow' opened
  split at h
  · split at h
    · cases h
    rename_i key' named
    split at h
    · cases h
    rename_i relay' found
    split at h
    · rename_i same
      cases h
      exact ⟨opened, named, found, same⟩
    · cases h
  · cases h

theorem openFlow_of_unseal {deployment : Deployment} {upstream key : ResourceKey} {now : ℕ}
    {state : SealedText} {relay : Relay} {flow : FlowEnvelope}
    (opened : unsealPostcard FlowEnvelope.codec upstream state = some flow)
    (accepted : fresh now flow.issuedAt flowTtl = true) (named : flow.relayKey = key.value)
    (found : deployment.resolveRelay key = some relay) (same : relay.upstream = upstream) :
    openFlow deployment upstream now state = some (key, relay, flow) := by
  simp [openFlow, opened, accepted, named, ResourceKey.new_value, found, same]

theorem callback_eq_some {deployment : Deployment} {upstream : ResourceKey}
    {state code : SealedText}
    {response : StoredResponse} {envelopeId : Bytes 16} {fingerprint : Bytes 32} {now : ℕ}
    (h : callback deployment upstream state response envelopeId fingerprint now = some code) :
    ∃ key relay flow envelope, openFlow deployment upstream now state = some (key, relay, flow) ∧
      envelope.relayKey = key.value ∧ code = sealPostcard CodeEnvelope.codec key envelope := by
  unfold callback at h
  split at h
  · cases h
  rename_i key relay flow opened
  split at h
  · exact ⟨key, relay, flow, _, opened, rfl, (Option.some.inj h).symm⟩
  · cases h

/-! ## The first text of both layouts -/

/-- A struct that starts with a text reads that text first. -/
theorem first_of_fromBytes {α β : Type} {rest : Codec α} {forth : String × α → β}
    {back : β → String × α}
    {inverse : ∀ b, forth (back b) = b} {text : String} (fits : string.Fitting text)
    {tail : List UInt8} {value : β}
    (read : ((string.pair rest).map forth back inverse).fromBytes (string.encode text ++ tail) =
      some value) : ∃ a, value = forth (text, a) := by
  simp only [fromBytes, Codec.map, Option.map_eq_some_iff] at read
  obtain ⟨_, ⟨⟨⟨first, a⟩, left⟩, decoded, rfl⟩, rfl⟩ := read
  obtain ⟨left', decoded'⟩ := pair_decode_fst decoded
  rw [string.decode_encode text tail fits] at decoded'
  cases decoded'
  exact ⟨a, rfl⟩

/-- What opens as a flow state or as a code keeps the relay key it was sealed with. -/
theorem relayKey_of_unseal {α β γ : Type} {codec : Codec α} {rest : Codec γ}
    {forth : String × γ → β} {back : β → String × γ} {inverse : ∀ b, forth (back b) = b}
    {key sealer opener : ResourceKey} {value : α} {value' : β}
    (starts : ∃ tail, codec.encode value = string.encode key.value ++ tail)
    (opened : unsealPostcard ((string.pair rest).map forth back inverse) opener
      (sealPostcard codec sealer value) = some value') : ∃ a, value' = forth (key.value, a) := by
  obtain rfl := key_eq_of_unsealPostcard opened
  obtain ⟨tail, encoded⟩ := starts
  simp only [unsealPostcard, SealedText.unseal, sealPostcard, if_true, Option.bind_some,
    encoded] at opened
  exact first_of_fromBytes key.fits opened

theorem FlowEnvelope.starts {flow : FlowEnvelope} {key : ResourceKey}
    (named : flow.relayKey = key.value) :
    ∃ tail, FlowEnvelope.codec.encode flow = string.encode key.value ++ tail := by
  rw [← named]
  exact ⟨_, rfl⟩

theorem CodeEnvelope.starts {envelope : CodeEnvelope} {key : ResourceKey}
    (named : envelope.relayKey = key.value) :
    ∃ tail, CodeEnvelope.codec.encode envelope = string.encode key.value ++ tail := by
  rw [← named]
  exact ⟨_, rfl⟩

theorem ResourceKey.ext_value {a b : ResourceKey} (same : a.value = b.value) : a = b := by
  obtain ⟨a, _, _⟩ := a
  obtain ⟨b, _, _⟩ := b
  obtain rfl : a = b := same
  rfl

/-- A callback names the relay that authorized the flow. -/
theorem key_eq_of_openFlow_authorize {deployment : Deployment} {key key' upstream : ResourceKey}
    {relay relay' : Relay} {query : AuthorizeRequest} {verifier : String} {nonce : Bytes 16}
    {issued now : ℕ} {state : SealedText} {flow : FlowEnvelope}
    (made : authorize deployment key relay query verifier nonce issued = some state)
    (accepted : openFlow deployment upstream now state = some (key', relay', flow)) :
    key' = key := by
  obtain ⟨_, flow', named, rfl⟩ := authorize_eq_some made
  obtain ⟨opened, named', _, _⟩ := openFlow_eq_some accepted
  obtain ⟨a, rfl⟩ := relayKey_of_unseal (FlowEnvelope.starts named) opened
  have same : ResourceKey.new key.value = some key' := named'
  rw [ResourceKey.new_value] at same
  exact (Option.some.inj same).symm

/-- A flow state opens at the token endpoint only for a relay with its upstream's key. -/
theorem upstream_eq_of_openCode {deployment : Deployment} {key key' : ResourceKey} {relay : Relay}
    {query : AuthorizeRequest} {verifier : String} {nonce : Bytes 16} {issued now : ℕ}
    {state : SealedText} {code : CodeEnvelope}
    (made : authorize deployment key relay query verifier nonce issued = some state)
    (accepted : openCode key' now state = some code) : relay.upstream = key := by
  obtain ⟨_, flow, named, rfl⟩ := authorize_eq_some made
  unfold openCode at accepted
  split at accepted
  · cases accepted
  rename_i code' opened
  split at accepted
  · rename_i checked
    simp only [Bool.and_eq_true, decide_eq_true_eq] at checked
    obtain ⟨a, rfl⟩ := relayKey_of_unseal (FlowEnvelope.starts named) opened
    obtain rfl := key_eq_of_unsealPostcard opened
    have first : key.value = relay.upstream.value := checked.1
    exact (ResourceKey.ext_value first).symm
  · cases accepted

/-- A code opens at a callback only for a relay with its upstream's key. -/
theorem upstream_eq_of_openFlow {deployment : Deployment} {key key' upstream : ResourceKey}
    {envelope : CodeEnvelope} {now : ℕ} {relay' : Relay} {flow : FlowEnvelope}
    (named : envelope.relayKey = key.value)
    (accepted : openFlow deployment upstream now (sealPostcard CodeEnvelope.codec key envelope) =
      some (key', relay', flow)) :
    deployment.resolveRelay key = some relay' ∧ relay'.upstream = key := by
  obtain ⟨opened, named', found, same⟩ := openFlow_eq_some accepted
  obtain ⟨a, rfl⟩ := relayKey_of_unseal (CodeEnvelope.starts named) opened
  obtain rfl := key_eq_of_unsealPostcard opened
  have new : ResourceKey.new upstream.value = some key' := named'
  rw [ResourceKey.new_value] at new
  cases new
  exact ⟨found, same⟩

/-! ## One key for a relay and its upstream -/

/-- Six empty fields and a varint, where a flow state has its texts and its time of issue. -/
def blankFlow (time : ℕ) : List UInt8 := List.replicate 6 0 ++ u64.encode time

/-- **Bytes that go on like an empty flow state read as one.** -/
theorem fromBytes_blankFlow (key : ResourceKey) {time : ℕ} (fits : u64.Fitting time)
    (tail : List UInt8) (long : 16 ≤ tail.length) : ∃ flow, flow.relayKey = key.value ∧
      flow.issuedAt = time ∧
      FlowEnvelope.codec.fromBytes (string.encode key.value ++ (blankFlow time ++ tail)) =
        some flow := by
  let flow : FlowEnvelope := ⟨key.value, "", none, "", none, none, none, time,
    ⟨tail.take 16, by simp [long]⟩⟩
  refine ⟨flow, rfl, rfl, ?_⟩
  have empty : string.Fitting "" := string_fitting.mpr (by decide +kernel)
  have none : (option string).Fitting none := option_fitting_none string
  have fitting : FlowEnvelope.codec.Fitting flow :=
    ⟨key.fits, empty, none, empty, none, none, none, fits, trivial⟩
  have whole : string.encode key.value ++ (blankFlow time ++ tail) =
      FlowEnvelope.codec.encode flow ++ tail.drop 16 := by
    have encoded : FlowEnvelope.codec.encode flow =
        string.encode key.value ++ (blankFlow time ++ tail.take 16) := by
      show string.encode key.value ++ _ = _
      simp only [blankFlow, List.append_assoc]
      rfl
    rw [encoded, List.append_assoc, List.append_assoc, List.take_append_drop]
  rw [whole]
  exact fromBytes_encode _ fitting _

/-- A moment in May 2026. -/
def sampleTime : ℕ := 1778913377

/-- An envelope id that continues a code like an empty flow state. -/
def blankEnvelopeId : Bytes 16 := ⟨blankFlow sampleTime ++ List.replicate 5 0, by decide⟩

def sampleChallenge : String := "E9Melhoa2OwvFrEMTJguCHaoeK1t8URWbuGJSstw-cM"

def sampleQuery (redirect : String) (state : Option String) : AuthorizeRequest where
  redirectUri := some redirect
  state := state
  codeChallenge := some sampleChallenge
  codeChallengeMethod := some "S256"
  idTokenNonce := none
  scope := none

/-- The flow state that the sample query leads to. -/
def sampleFlow (key : ResourceKey) (redirect : String) (state : Option String) : FlowEnvelope where
  relayKey := key.value
  appRedirectUri := redirect
  appState := state
  upstreamPkceVerifier := ""
  clientCodeChallenge := some sampleChallenge
  clientCodeChallengeMethod := some "S256"
  idTokenNonce := none
  issuedAt := sampleTime
  nonce := zeroBytes 16

theorem authorize_sampleQuery {deployment : Deployment} (key : ResourceKey) {relay : Relay}
    {redirect : String} (state : Option String)
    (store : rotationStoreMissing deployment relay = false)
    (allowed : relay.redirectAllowed redirect = true) :
    authorize deployment key relay (sampleQuery redirect state) ""
        (zeroBytes 16) sampleTime =
      some (sealPostcard FlowEnvelope.codec relay.upstream (sampleFlow key redirect state)) := by
  have challenge : validPkceChallenge sampleChallenge = true := by decide +kernel
  simp [authorize, store, sampleQuery, allowed, challenge, sampleFlow]

theorem sampleFlow_fitting (key : ResourceKey) {relay : Relay} {redirect : String}
    (allowed : relay.redirectAllowed redirect = true) :
    FlowEnvelope.codec.Fitting (sampleFlow key redirect none) := by
  have empty : string.Fitting "" := string_fitting.mpr (by decide +kernel)
  have challenge : string.Fitting sampleChallenge := string_fitting.mpr (by decide +kernel)
  have method : string.Fitting "S256" := string_fitting.mpr (by decide +kernel)
  have none : (option string).Fitting none := option_fitting_none string
  have time : u64.Fitting sampleTime := u64_fitting.mpr (by decide)
  exact ⟨key.fits, Relay.fitting_of_allowed allowed, none, empty, option_fitting_some.mpr challenge,
    option_fitting_some.mpr method, none, time, trivial⟩

/-- **A relay with its upstream's key takes some of its codes for flow states.** -/
theorem not_separate_of_key_eq {deployment : Deployment} {key : ResourceKey} {relay : Relay}
    (resolved : deployment.resolveRelay key = some relay) (serves : relay.Serves deployment)
    (same : relay.upstream = key) : ¬ Separate deployment := by
  intro separate
  obtain ⟨store, redirect, allowed⟩ := serves
  have issued := authorize_sampleQuery key none store allowed
  have time : u64.Fitting sampleTime := u64_fitting.mpr (by decide)
  have now : fresh sampleTime sampleTime flowTtl = true := by decide
  have fitting := sampleFlow_fitting key allowed
  have opened := unsealPostcard_sealPostcard FlowEnvelope.codec relay.upstream fitting
  have accepted := openFlow_of_unseal opened now rfl resolved rfl
  -- the callback answers this flow with a code of the blank envelope id
  have code : callback deployment relay.upstream
      (sealPostcard FlowEnvelope.codec relay.upstream (sampleFlow key redirect none))
      ⟨200, none, []⟩ blankEnvelopeId (zeroBytes 32) sampleTime =
      some (sealPostcard CodeEnvelope.codec key
        ⟨key.value, blankEnvelopeId, sampleTime, redirect, some sampleChallenge, none,
          ⟨200, none, []⟩, (zeroBytes 32)⟩) := by
    simp only [callback, accepted]
    simp [sampleFlow, allowed]
  have refused := separate.code_not_flow _ _ _ _ _ _ _ _ _ _ _ _ _ resolved issued code key sampleTime
  -- which reads as a flow state
  obtain ⟨flow, named, stamped, read⟩ := fromBytes_blankFlow key time
    (List.replicate 5 0 ++ (u64.encode sampleTime ++ (string.encode redirect ++
      ((option string).encode (some sampleChallenge) ++ ((option string).encode none ++
        (StoredResponse.codec.encode ⟨200, none, []⟩ ++ List.replicate 32 0))))))
    (by simp only [List.length_append, List.length_replicate]; omega)
  have read' : unsealPostcard FlowEnvelope.codec key (sealPostcard CodeEnvelope.codec key
      ⟨key.value, blankEnvelopeId, sampleTime, redirect, some sampleChallenge, none,
        ⟨200, none, []⟩, (zeroBytes 32)⟩) = some flow := by
    simp only [unsealPostcard, SealedText.unseal, sealPostcard, if_true, Option.bind_some]
    rw [← read]
    rfl
  rw [openFlow_of_unseal read' (by rw [stamped]; exact now) named resolved same] at refused
  cases refused

/-- **Flow states and codes are kept apart exactly when no serving relay shares its key with
its upstream.** -/
theorem separate_iff (deployment : Deployment) : Separate deployment ↔
    ∀ key relay, deployment.resolveRelay key = some relay → relay.Serves deployment →
      relay.upstream ≠ key := by
  constructor
  · intro separate key relay resolved serves same
    exact not_separate_of_key_eq resolved serves same separate
  · intro distinct
    refine ⟨?_, ?_⟩
    · intro key relay query verifier nonce issued state resolved made key' relay' now _
      cases accepted : openCode key' now state with
      | none => rfl
      | some code =>
          obtain ⟨serves, _⟩ := authorize_eq_some made
          exact absurd (upstream_eq_of_openCode made accepted) (distinct key relay resolved serves)
    · intro key relay query verifier nonce issued state upstream response envelopeId fingerprint
        answered code resolved made called upstream' now
      cases accepted : openFlow deployment upstream' now code with
      | none => rfl
      | some opened =>
          obtain ⟨key'', relay'', flow'⟩ := opened
          obtain ⟨key', relay', flow, envelope, opened, named, rfl⟩ := callback_eq_some called
          obtain rfl := key_eq_of_openFlow_authorize made opened
          obtain ⟨found, same⟩ := upstream_eq_of_openFlow named accepted
          rw [resolved] at found
          cases found
          obtain ⟨serves, _⟩ := authorize_eq_some made
          exact absurd same (distinct key' relay resolved serves)

/-! ## A flow state that is a code -/

/-- A relay for one redirect URI, with its upstream's key. -/
def sampleRelay : Relay where
  upstream := sampleKey
  clientIsPublic := true
  refreshTokens := .rotating
  policyConfigured := false
  scopes := []
  scopeAllowed _ := false
  matcherAllows redirect := redirect = "https://t.co/"
  fits redirect allowed := by
    obtain rfl := of_decide_eq_true allowed
    exact string_fitting.mpr (by decide +kernel)

def sampleDeployment : Deployment where
  resolveRelay key := if key = sampleKey then some sampleRelay else none
  hasStore := true

/-- A client state that continues the redirect URI to a code. The first two characters are
the time of issue as a varint of six bytes; then come the redirect URI, no challenge, no
nonce, status 200 with no content type and the body of the client's choice, and a
fingerprint. -/
def codeInState : String :=
  "\u1820\u0406\x00" ++ "\x0dhttps://t.co/" ++ "\x00\x00" ++ "\u0201\x00" ++ "\x00" ++
    "\x02\x7b\x7d" ++ "AAAAAAAAAAAAAAAAAAAAAAAAAAAAAAAA"

/-- **The token endpoint accepts a flow state as a code.** It returns the response that the
client wrote into its own state. -/
theorem not_separate_sampleDeployment : ¬ Separate sampleDeployment := by
  intro separate
  have refused := separate.flow_not_code sampleKey sampleRelay
    (sampleQuery "https://t.co/" (some codeInState)) "" (zeroBytes 16) sampleTime _
    (by simp [sampleDeployment])
    (authorize_sampleQuery sampleKey (some codeInState) (by decide +kernel) (by decide +kernel))
    sampleKey sampleRelay sampleTime (by simp [sampleDeployment])
  have accepted : (openCode sampleKey sampleTime (sealPostcard FlowEnvelope.codec sampleKey
      (sampleFlow sampleKey "https://t.co/" (some codeInState)))).map (·.upstreamResponse) =
      some ⟨200, none, utf8Bytes "\x7b\x7d"⟩ := by decide +kernel
  change openCode sampleKey sampleTime (sealPostcard FlowEnvelope.codec sampleKey
    (sampleFlow sampleKey "https://t.co/" (some codeInState))) = none at refused
  rw [refused] at accepted
  cases accepted

end OAuthRelay.Codes
