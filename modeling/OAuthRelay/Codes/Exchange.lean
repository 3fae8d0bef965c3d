import OAuthRelay.Codes.Envelope
import OAuthRelay.Rotation.Protocol

/-!
# Redemption of a relayed code

The calls of `exchange_sealed_code` as a machine over the store of the deployment, with
`seal_token_response` and `issue_in_response` where the relay's refresh-token mode has
them. A relay with rotating handles starts a family in the same store, so the machine
embeds the calls of its rotator.

The store's clock counts nanoseconds. Every serving instance has a clock of its own, which
it reads in whole seconds.
-/

set_option autoImplicit false

namespace OAuthRelay.Codes

open OAuthRelay.Wire OAuthRelay.Wire.Codec
open OAuthRelay.Async (Name StoreError Await Machine)
open OAuthRelay.Rotation (SealError Rotator CreatePc)

/-- Nanoseconds. -/
def second : ℕ := 10 ^ 9

/-- Nanoseconds. -/
def millisecond : ℕ := 10 ^ 6

/-- What sealed handles and records are bound to. -/
structure HandleBinding where
  relay : ResourceKey
  fingerprint : Bytes 32
  deriving DecidableEq

inductive Key where
  /-- `replay:code:{envelope id}`. -/
  | code (envelopeId : Bytes 16)
  /-- A key of the relay's rotator. -/
  | refresh (relay : ResourceKey) (key : Rotation.Key)
  deriving DecidableEq

inductive Value where
  | marker (random : Name)
  | refresh (binding : HandleBinding) (value : Rotation.Value)
  deriving DecidableEq

/-- What the rotator of a binding takes a value for. -/
def Value.toRefresh (binding : HandleBinding) : Value → Option Rotation.Value
  | .marker _ => none
  | .refresh binding' value => if binding' = binding then some value else none

/-! ## Answers -/

/-- An OAuth error response. -/
structure OAuthError where
  status : ℕ
  error : String
  description : String
  /-- The response carries `no-store` and `no-cache`. -/
  noStore : Bool := false
  deriving DecidableEq

def invalidGrant (description : String) : OAuthError := ⟨400, "invalid_grant", description, false⟩

def rotationStoreRequired : OAuthError :=
  ⟨500, "server_error", "rotating refresh tokens require a transient store", false⟩

def refreshStateUnavailable : OAuthError :=
  ⟨503, "server_error", "refresh token state is unavailable", false⟩

def sealerUnavailable : OAuthError := ⟨503, "server_error", "sealing is unavailable", false⟩

def requiredClaimsError : OAuthError :=
  ⟨400, "invalid_grant", "Identity does not satisfy required ID-token claims.", true⟩

/-- Why the refresh token in a response cannot be replaced. -/
inductive SubstitutionError where
  | sealing
  | sealerUnavailable
  | unrecognizedBody
  deriving DecidableEq

def substitutionFailed : SubstitutionError → OAuthError
  | .sealing => ⟨500, "server_error", "token response could not be sealed", false⟩
  | .sealerUnavailable => sealerUnavailable
  | .unrecognizedBody =>
      ⟨502, "server_error", "upstream token response could not be processed", false⟩

inductive IdTokenValidationError where
  | rejected
  | unavailable
  deriving DecidableEq

inductive UnsealError where
  | invalid
  | unavailable
  deriving DecidableEq

inductive HandleError where
  | invalid
  | sealerUnavailable
  deriving DecidableEq

def HandleError.substitution : HandleError → SubstitutionError
  | .invalid => .sealing
  | .sealerUnavailable => .sealerUnavailable

/-! ## Requests -/

/-- The fields of a token request that redeem a code. -/
structure TokenRequest where
  code : Option SealedText
  redirectUri : Option String
  codeVerifier : Option String

/-- The serving instances of a deployment, and what they share. -/
structure Exchanger extends Deployment where
  Instance : Type
  /-- The Unix time in nanoseconds on an instance's clock when the store's clock shows 0. -/
  clock : Instance → ℕ
  pkceChallenge : String → String
  /-- The rotation settings of a relay, with the JSON library. -/
  rotator : ResourceKey → Rotator

/-- `unix_now` of an instance. -/
def Exchanger.unixNow (X : Exchanger) (place : X.Instance) (now : ℕ) : ℕ :=
  (now + X.clock place) / second

/-- A request to redeem a code, with the handle it may hand out, which is random. -/
structure Attempt (X : Exchanger) where
  place : X.Instance
  key : ResourceKey
  relay : Relay
  form : TokenRequest
  handle : Name

/-- Where a redemption is. -/
inductive Pc where
  | unsealCode (code : SealedText)
  | readClock (envelope : CodeEnvelope)
  | validate (envelope : CodeEnvelope) (marker : Name)
  -- `seal_token_response`
  | sealClock (envelope : CodeEnvelope) (marker : Name)
  | sealMember (envelope : CodeEnvelope) (marker : Name) (issuedAt : ℕ) (before : Members)
      (token : String) (rest : Members)
  | putMarker (envelope : CodeEnvelope) (marker : Name) (admitted : Bool)
      (sealedBody : Option (List UInt8))
  -- `issue_in_response`
  | issue (envelope : CodeEnvelope) (pc : CreatePc)
  | redeemed (envelope : CodeEnvelope) (response : StoredResponse)
  | refused (error : OAuthError)
  deriving DecidableEq

structure Call (X : Exchanger) where
  attempt : Attempt X
  pc : Pc

/-- What a redemption asks of its environment, apart from the store. -/
inductive Question where
  | unseal (key : ResourceKey) (code : SealedText)
  | unixNow
  | validate (response : StoredResponse) (expectedNonce : Option String)
  | sealHandle (binding : HandleBinding) (token : String) (issuedAt : ℕ)
  | refresh (binding : HandleBinding) (question : Rotation.Question)

/-- A clock reading comes with the random value drawn next. -/
abbrev Answer : Question → Type
  | .unseal .. => Except UnsealError CodeEnvelope
  | .unixNow => ℕ × Name
  | .validate .. => Except IdTokenValidationError Unit
  | .sealHandle .. => Except HandleError String
  | .refresh _ question => Rotation.Answer question

/-- What the environment is free in. -/
structure Choice where
  unsealing : Option SealError
  now : ℕ
  validation : Except IdTokenValidationError Unit
  sealing : Except HandleError String
  refresh : Rotation.Choice

def openEnvelope (failure : Option SealError) (key : ResourceKey) (code : SealedText) :
    Except UnsealError CodeEnvelope :=
  match failure with
  | some .unavailable => .error .unavailable
  | some _ => .error .invalid
  | none =>
      match unsealPostcard CodeEnvelope.codec key code with
      | some envelope => .ok envelope
      | none => .error .invalid

def answer (choice : Choice) (name : Name) : (question : Question) → Answer question
  | .unseal key code => openEnvelope choice.unsealing key code
  | .unixNow => (choice.now, name)
  | .validate .. => choice.validation
  | .sealHandle .. => choice.sealing
  | .refresh _ question => Rotation.answer choice.refresh name question

/-! ## Checks -/

def validPkceVerifier (verifier : String) : Bool :=
  43 ≤ (utf8Bytes verifier).length && (utf8Bytes verifier).length ≤ 128 &&
    verifier.toList.all fun c => c.isAlphanum || c = '-' || c = '.' || c = '_' || c = '~'

/-- Why a request may not redeem an envelope. -/
def requestError (pkceChallenge : String → String) (relay : Relay) (form : TokenRequest)
    (envelope : CodeEnvelope) : Option OAuthError :=
  if form.redirectUri ≠ some envelope.redirectUri then
    some (invalidGrant "redirect_uri does not match")
  else
    match envelope.clientCodeChallenge, form.codeVerifier with
    | some _, none => some (invalidGrant "code_verifier is required")
    | some expected, some verifier =>
        if !validPkceVerifier verifier then some (invalidGrant "invalid code_verifier")
        else if expected ≠ pkceChallenge verifier then
          some (invalidGrant "PKCE verification failed")
        else none
    -- A verifier for a code issued without a challenge is a downgrade attempt.
    | none, some _ => some (invalidGrant
        "code_verifier was sent but the authorization request had no code_challenge")
    | none, none =>
        if relay.clientIsPublic then some (invalidGrant "PKCE challenge is missing") else none

/-- Whether the ID token of an envelope is validated. -/
def policyApplies (relay : Relay) (response : StoredResponse) : Bool :=
  relay.policyConfigured && response.isSuccess

/-! ## Calls -/

namespace Attempt

variable {X : Exchanger} (attempt : Attempt X) (envelope : CodeEnvelope)

def binding : HandleBinding := ⟨attempt.key, envelope.handleFingerprint⟩

def rotator : Rotator := X.rotator attempt.key

/-- `issue_in_response` up to the creation of the family. -/
def issueInResponse : Pc :=
  let response := envelope.upstreamResponse
  match attempt.rotator.json.upstreamRefreshToken response.status response.body with
  | none =>
      if response.isSuccess && !attempt.rotator.json.isObject response.body &&
          namesRefreshToken response.body then
        .refused (substitutionFailed .unrecognizedBody)
      else .redeemed envelope response
  | some token => .issue envelope (.create ⟨attempt.handle, token, none⟩)

/-- `issue_in_response` after a step of the creation. -/
def settle : CreatePc → Pc
  | .issued handle =>
      let response := envelope.upstreamResponse
      match attempt.rotator.json.withRefreshToken response.status response.body
          (attempt.rotator.handleText handle) with
      | none => .refused (substitutionFailed .unrecognizedBody)
      | some body => .redeemed envelope { response with body := body }
  | .issueFailed .store => .refused refreshStateUnavailable
  | .issueFailed .sealerUnavailable => .refused sealerUnavailable
  | pc => .issue envelope pc

/-- The code counts as used. -/
def afterMarker (admitted : Bool) (sealedBody : Option (List UInt8)) : Pc :=
  if !admitted then .refused requiredClaimsError
  else
    match attempt.relay.refreshTokens with
    | .passthrough => .redeemed envelope envelope.upstreamResponse
    | .sealed =>
        .redeemed envelope { envelope.upstreamResponse with
          body := sealedBody.getD envelope.upstreamResponse.body }
    | .rotating =>
        if X.hasStore then attempt.issueInResponse envelope else .refused rotationStoreRequired

/-- Whatever can be refused before the code counts as used has not been. -/
def beginMarker (marker : Name) (admitted : Bool) (sealedBody : Option (List UInt8)) : Pc :=
  if X.hasStore then .putMarker envelope marker admitted sealedBody
  else attempt.afterMarker envelope admitted sealedBody

/-- `seal_token_response` with the members of `before` done. -/
def sealNext (marker : Name) (issuedAt : ℕ) (replaced : Bool) (before : Members) : Members → Pc
  | [] =>
      if replaced then
        match attempt.rotator.json.toVec before with
        | some body => attempt.beginMarker envelope marker true (some body)
        | none => .refused (substitutionFailed .sealing)
      else attempt.beginMarker envelope marker true none
  | (name, value) :: rest =>
      match if name = refreshTokenMember then attempt.rotator.json.decodeString value else none with
      | none => sealNext marker issuedAt replaced (before ++ [(name, value)]) rest
      | some token =>
          if token = "" then sealNext marker issuedAt replaced (before ++ [(name, value)]) rest
          else .sealMember envelope marker issuedAt before token rest

/-- `seal_token_response` up to the first handle. -/
def sealTokenResponse (marker : Name) (issuedAt : ℕ) : Pc :=
  let response := envelope.upstreamResponse
  if !response.isSuccess then attempt.beginMarker envelope marker true none
  else
    match attempt.rotator.json.members response.body with
    | none =>
        if namesRefreshToken response.body then .refused (substitutionFailed .unrecognizedBody)
        else attempt.beginMarker envelope marker true none
    | some members => attempt.sealNext envelope marker issuedAt false [] members

/-- Sealing commits nothing, so it comes before the marker. -/
def afterValidation (marker : Name) : Except IdTokenValidationError Unit → Pc
  | .error .unavailable =>
      .refused ⟨502, "server_error", "ID token validation is unavailable", false⟩
  | .error .rejected => attempt.beginMarker envelope marker false none
  | .ok () =>
      if attempt.relay.refreshTokens = .sealed then .sealClock envelope marker
      else attempt.beginMarker envelope marker true none

/-- The envelope is open, and the instance's clock shows `now`. -/
def checkEnvelope (now : ℕ) (marker : Name) : Pc :=
  if envelope.relayKey = attempt.key.value && fresh now envelope.issuedAt codeTtl then
    match requestError X.pkceChallenge attempt.relay attempt.form envelope with
    | some error => .refused error
    | none =>
        if policyApplies attempt.relay envelope.upstreamResponse then .validate envelope marker
        else attempt.afterValidation envelope marker (.ok ())
  else .refused (invalidGrant "invalid or expired code")

/-- What a redemption awaits. -/
def await : Pc → Await Key Value Question Answer Pc
  | .unsealCode code => .consult (.unseal attempt.key code) fun
      | .ok envelope => .readClock envelope
      | .error .unavailable => .refused sealerUnavailable
      | .error .invalid => .refused (invalidGrant "invalid or expired code")
  | .readClock envelope => .consult .unixNow fun (now, marker) =>
      attempt.checkEnvelope envelope now marker
  | .validate envelope marker =>
      .consult (.validate envelope.upstreamResponse envelope.idTokenNonce) fun validation =>
        attempt.afterValidation envelope marker validation
  | .sealClock envelope marker => .consult .unixNow fun (now, _) =>
      attempt.sealTokenResponse envelope marker now
  | .sealMember envelope marker issuedAt before token rest =>
      .consult (.sealHandle (attempt.binding envelope) token issuedAt) fun
        | .error error => .refused (substitutionFailed error.substitution)
        | .ok handle =>
            match attempt.rotator.json.encodeString handle with
            | none => .refused (substitutionFailed .sealing)
            | some value =>
                attempt.sealNext envelope marker issuedAt true
                  (before ++ [(refreshTokenMember, value)]) rest
  | .putMarker envelope marker admitted sealedBody =>
      .putIfAbsent (.code envelope.envelopeId) (.marker marker) (codeTtl * second) fun
        | .ok true => attempt.afterMarker envelope admitted sealedBody
        | .ok false => .refused (invalidGrant "code was already used")
        | .error _ => .refused ⟨503, "server_error", "replay protection is unavailable", false⟩
  | .issue envelope pc =>
      ((pc.await attempt.rotator).embed (.refresh attempt.key)
        (.refresh (attempt.binding envelope)) (Value.toRefresh (attempt.binding envelope))
        millisecond (.refresh (attempt.binding envelope)) fun _ answer => answer).map
          (attempt.settle envelope)
  | .redeemed .. => .finished
  | .refused _ => .finished

end Attempt

/-- A token request for a relay, at one instance. -/
structure Input (X : Exchanger) where
  place : X.Instance
  key : ResourceKey
  relay : Relay
  form : TokenRequest

def Call.start (X : Exchanger) (name : Name) (input : Input X) : Call X where
  attempt := ⟨input.place, input.key, input.relay, input.form, name⟩
  pc :=
    if rotationStoreMissing X.toDeployment input.relay then .refused rotationStoreRequired
    else
      match input.form.code with
      | none => .refused ⟨400, "invalid_request", "code is required", false⟩
      | some code => .unsealCode code

def Call.await (X : Exchanger) (call : Call X) : Await Key Value Question Answer (Call X) :=
  (call.attempt.await call.pc).map (Call.mk call.attempt)

/-- The serving instances and their environment. -/
abbrev Exchanger.machine (X : Exchanger) : Machine Key Value where
  Input := Input X
  Call := Call X
  Question := Question
  Answer := Answer
  Choice := Choice
  start := Call.start X
  await := Call.await X
  answer := answer

end OAuthRelay.Codes
