import OAuthRelay.RefreshHandle
import OAuthRelay.Wire.Postcard

/-!
# Flow states and relayed codes

Two values travel through the browser under the relay's seal: the state of a flow, which the
upstream hands back to the callback, and the relayed code, which the client hands back to
the token endpoint. Both are structs in the postcard format. The flow state is sealed for
the key of the upstream and the code for the key of the relay, and that key is all the
associated data.

The seal is ideal: a sealed text opens to what was sealed, and only under the associated
data it was sealed with.
-/

set_option autoImplicit false

namespace OAuthRelay.Codes

open OAuthRelay.Wire OAuthRelay.Wire.Codec

/-! ## Resource keys -/

/-- A segment of a resource key. -/
def validSegment (segment : List Char) : Bool :=
  segment ≠ [] && segment ≠ ['.'] && segment ≠ ['.', '.'] &&
    segment.all fun c => c.isAlphanum || c = '-' || c = '_' || c = '.'

/-- Non-empty URL-safe path segments other than `.` and `..`. -/
def validKey (value : String) : Bool :=
  value ≠ "" && value.toList.head? ≠ some '/' && value.toList.getLast? ≠ some '/' &&
    (value.toList.splitOn '/').all validSegment

/-- The key of a relay or an upstream. -/
structure ResourceKey where
  value : String
  valid : validKey value = true
  /-- A text in memory has fewer bytes than addresses. -/
  fits : string.Fitting value

instance : DecidableEq ResourceKey := fun a b =>
  decidable_of_iff (a.value = b.value) <| by
    obtain ⟨a, _, _⟩ := a
    obtain ⟨b, _, _⟩ := b
    simp

def ResourceKey.new (value : String) : Option ResourceKey :=
  if h : validKey value = true ∧ (utf8Bytes value).length < 2 ^ 64 then some ⟨value, h.1, h.2⟩
  else none

theorem ResourceKey.new_value (key : ResourceKey) : ResourceKey.new key.value = some key := by
  obtain ⟨value, valid, fits⟩ := key
  have both : validKey value = true ∧ (utf8Bytes value).length < 2 ^ 64 := ⟨valid, fits⟩
  exact dif_pos both

/-- For concrete runs. -/
def sampleKey : ResourceKey where
  value := "app"
  valid := by decide +kernel
  fits := string_fitting.mpr (by decide +kernel)

/-! ## Relays -/

inductive RefreshTokenMode where
  | passthrough
  | sealed
  | rotating
  deriving DecidableEq

/-- A relay. Its redirect matchers compare parsed URLs, so they are a parameter. -/
structure Relay where
  upstream : ResourceKey
  clientIsPublic : Bool
  refreshTokens : RefreshTokenMode
  /-- ID-token claims are required, or an ID-token policy is configured. -/
  policyConfigured : Bool
  scopes : List String
  scopeAllowed : String → Bool
  matcherAllows : String → Bool
  fits : ∀ redirect, matcherAllows redirect = true → string.Fitting redirect

/-- An ASCII URI without whitespace or backslashes. -/
def validateRawUri (value : String) : Bool :=
  value.toList.all fun c =>
    c.toNat < 128 && c ≠ ' ' && c ≠ '\t' && c ≠ '\n' && c ≠ '\x0c' && c ≠ '\r' && c ≠ '\\'

def Relay.redirectAllowed (relay : Relay) (redirect : String) : Bool :=
  validateRawUri redirect && relay.matcherAllows redirect

theorem Relay.fitting_of_allowed {relay : Relay} {redirect : String}
    (allowed : relay.redirectAllowed redirect = true) : string.Fitting redirect := by
  simp only [Relay.redirectAllowed, Bool.and_eq_true] at allowed
  exact relay.fits redirect allowed.2

/-- What the serving instances are configured with. A relay is found under its key. -/
structure Deployment where
  resolveRelay : ResourceKey → Option Relay
  hasStore : Bool

/-- A rotating relay cannot work without a transient store. -/
def rotationStoreMissing (deployment : Deployment) (relay : Relay) : Bool :=
  relay.refreshTokens = .rotating && !deployment.hasStore

/-! ## Envelopes -/

abbrev Bytes (n : ℕ) := { bytes : List UInt8 // bytes.length = n }

/-- For concrete runs. -/
def zeroBytes (n : ℕ) : Bytes n := ⟨List.replicate n 0, List.length_replicate⟩

structure FlowEnvelope where
  relayKey : String
  appRedirectUri : String
  appState : Option String
  upstreamPkceVerifier : String
  clientCodeChallenge : Option String
  clientCodeChallengeMethod : Option String
  idTokenNonce : Option String
  issuedAt : ℕ
  nonce : Bytes 16
  deriving DecidableEq

structure CodeEnvelope where
  relayKey : String
  envelopeId : Bytes 16
  issuedAt : ℕ
  redirectUri : String
  clientCodeChallenge : Option String
  idTokenNonce : Option String
  upstreamResponse : StoredResponse
  handleFingerprint : Bytes 32
  deriving DecidableEq

def StoredResponse.codec : Codec StoredResponse :=
  (u16.pair ((option string).pair byteSeq)).map
    (fun (status, contentType, body) => ⟨status, contentType, body⟩)
    (fun response => (response.status, response.contentType, response.body)) fun _ => rfl

def FlowEnvelope.codec : Codec FlowEnvelope :=
  (string.pair (string.pair ((option string).pair (string.pair ((option string).pair
    ((option string).pair ((option string).pair (u64.pair (array 16))))))))).map
    (fun (relayKey, redirect, state, verifier, challenge, method, idNonce, issuedAt, nonce) =>
      ⟨relayKey, redirect, state, verifier, challenge, method, idNonce, issuedAt, nonce⟩)
    (fun flow => (flow.relayKey, flow.appRedirectUri, flow.appState, flow.upstreamPkceVerifier,
      flow.clientCodeChallenge, flow.clientCodeChallengeMethod, flow.idTokenNonce, flow.issuedAt,
      flow.nonce)) fun _ => rfl

def CodeEnvelope.codec : Codec CodeEnvelope :=
  (string.pair ((array 16).pair (u64.pair (string.pair ((option string).pair
    ((option string).pair (StoredResponse.codec.pair (array 32)))))))).map
    (fun (relayKey, id, issuedAt, redirect, challenge, idNonce, response, fingerprint) =>
      ⟨relayKey, id, issuedAt, redirect, challenge, idNonce, response, fingerprint⟩)
    (fun code => (code.relayKey, code.envelopeId, code.issuedAt, code.redirectUri,
      code.clientCodeChallenge, code.idTokenNonce, code.upstreamResponse,
      code.handleFingerprint)) fun _ => rfl

/-! ## Sealing -/

/-- A text that the sealer made. -/
structure SealedText where
  associatedData : List UInt8
  plaintext : List UInt8
  deriving DecidableEq

/-- What a sealed text opens to under the associated data. -/
def SealedText.unseal (text : SealedText) (associatedData : List UInt8) : Option (List UInt8) :=
  if text.associatedData = associatedData then some text.plaintext else none

def sealPostcard {α : Type} (codec : Codec α) (key : ResourceKey) (value : α) : SealedText where
  associatedData := utf8Bytes key.value
  plaintext := codec.encode value

def unsealPostcard {α : Type} (codec : Codec α) (key : ResourceKey) (text : SealedText) :
    Option α :=
  (text.unseal (utf8Bytes key.value)).bind codec.fromBytes

theorem utf8Bytes_injective {a b : String} (same : utf8Bytes a = utf8Bytes b) : a = b := by
  have opened := fromUtf8_utf8Bytes a
  rw [same, fromUtf8_utf8Bytes] at opened
  exact (Option.some.inj opened).symm

/-- A text sealed for one key opens under that key only. -/
theorem key_eq_of_unsealPostcard {α β : Type} {codec : Codec α} {codec' : Codec β}
    {key key' : ResourceKey} {value : α} {value' : β}
    (opened : unsealPostcard codec' key' (sealPostcard codec key value) = some value') :
    key' = key := by
  by_cases same : utf8Bytes key.value = utf8Bytes key'.value
  · obtain ⟨value, _, _⟩ := key
    obtain ⟨value', _, _⟩ := key'
    obtain rfl := utf8Bytes_injective same
    rfl
  · simp [unsealPostcard, SealedText.unseal, sealPostcard, same] at opened

/-- **A sealed value opens to itself.** -/
theorem unsealPostcard_sealPostcard {α : Type} (codec : Codec α) (key : ResourceKey) {value : α}
    (fits : codec.Fitting value) :
    unsealPostcard codec key (sealPostcard codec key value) = some value := by
  have opened := codec.fromBytes_encode fits []
  rw [List.append_nil] at opened
  simp [unsealPostcard, SealedText.unseal, sealPostcard, opened]

/-! ## Freshness -/

/-- Seconds. -/
def flowTtl : ℕ := 10 * 60

/-- Seconds. -/
def codeTtl : ℕ := 5 * 60

/-- An envelope issued at a second is accepted at another: up to 30 seconds of clock difference
early, and for its lifetime. -/
def fresh (now issuedAt ttl : ℕ) : Bool :=
  issuedAt ≤ min (now + 30) (2 ^ 64 - 1) && now - issuedAt ≤ ttl

end OAuthRelay.Codes
