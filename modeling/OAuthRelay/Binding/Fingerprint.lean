import Mathlib.Data.List.DropRight
import OAuthRelay.Codes.Exchange
import OAuthRelay.Config.Resources
import OAuthRelay.Wire.Framing

/-!
# What a refresh token is bound to

A refresh token belongs to a generation of its relay and to an upstream identity: the issuer,
the token endpoint where one is configured, and the client id. The fingerprint of a binding
is the hash of these four. Each is written with its length in front, and an absent one
differs from an empty one, so the hashed bytes determine all four
(`Identity.fingerprintInput_injective`).

The hash function is a parameter.
-/

set_option autoImplicit false

namespace OAuthRelay.Binding

open OAuthRelay.Wire OAuthRelay.Wire.Codec
open OAuthRelay.Codes (ResourceKey Bytes HandleBinding utf8Bytes_injective)
open OAuthRelay.Config (Rules Relay Upstream Url)

/-! ## Identities -/

/-- A text has fewer bytes than a memory has addresses. -/
def InMemory (text : String) : Prop := (utf8Bytes text).length < 2 ^ 64

/-- The generation of a relay and the identity of its upstream. -/
structure Identity where
  generation : Option String
  issuer : String
  tokenEndpoint : Option String
  clientId : String
  generation_inMemory : ∀ text ∈ generation, InMemory text
  issuer_inMemory : InMemory issuer
  tokenEndpoint_inMemory : ∀ text ∈ tokenEndpoint, InMemory text
  clientId_inMemory : InMemory clientId

/-- `FINGERPRINT_DOMAIN`. -/
def fingerprintDomain : List UInt8 := utf8Bytes "oauthrelay refresh-token binding v1"

/-- `field`: what the hasher is fed for a value. -/
def field : Option String → List UInt8
  | none => [0]
  | some value => 1 :: (bigEndian 8 (utf8Bytes value).length ++ utf8Bytes value)

/-- The end of a field can be seen. -/
theorem field_framing :
    Framing (fun value : Option String => ∀ text ∈ value, InMemory text) field := by
  have text : Framing InMemory
      (fun text : String => bigEndian 8 (utf8Bytes text).length ++ utf8Bytes text) :=
    (Framing.prefixed (.bigEndian 8)).comap fun _ _ => utf8Bytes_injective
  intro v w x y fits fits' same
  have differ : (0 : UInt8) ≠ 1 := by decide
  apply text.option differ v w x y fits fits'
  cases v with
  | none => cases w <;> exact same
  | some => cases w <;> exact same

/-- The bytes that `fingerprint` hashes. -/
def Identity.fingerprintInput (identity : Identity) : List UInt8 :=
  fingerprintDomain ++ (field identity.generation ++ (field (some identity.issuer) ++
    (field identity.tokenEndpoint ++ field (some identity.clientId))))

/-- **The hashed bytes determine the generation and the upstream identity.** -/
theorem Identity.fingerprintInput_injective {a b : Identity}
    (same : a.fingerprintInput = b.fingerprintInput) : a = b := by
  have some_inMemory : ∀ {text : String}, InMemory text → ∀ other ∈ some text, InMemory other := by
    rintro text fits _ ⟨⟩
    exact fits
  have rest := List.append_cancel_left same
  obtain ⟨generation, rest⟩ :=
    field_framing _ _ _ _ a.generation_inMemory b.generation_inMemory rest
  obtain ⟨issuer, rest⟩ :=
    field_framing _ _ _ _ (some_inMemory a.issuer_inMemory) (some_inMemory b.issuer_inMemory) rest
  obtain ⟨tokenEndpoint, rest⟩ :=
    field_framing _ _ _ _ a.tokenEndpoint_inMemory b.tokenEndpoint_inMemory rest
  have clientId := field_framing.injective (some_inMemory a.clientId_inMemory)
    (some_inMemory b.clientId_inMemory) rest
  obtain ⟨_, _, _, _, _, _, _, _⟩ := a
  obtain ⟨_, _, _, _, _, _, _, _⟩ := b
  cases generation
  cases issuer
  cases tokenEndpoint
  cases clientId
  rfl

/-! ## Configurations -/

/-- `issuer_identifier`: an issuer URL as ID tokens name it. -/
def issuerIdentifier (url : Url) : String :=
  if url.path = "/" && url.query.isNone && url.fragment.isNone then
    String.ofList (url.asStr.toList.rdropWhile (· = '/'))
  else url.asStr

/-- A relay as it is configured, with the upstream it references. -/
structure Configuration (R : Rules) where
  relay : Relay R
  upstream : Upstream
  references : relay.upstream = upstream.key
  generation_inMemory : ∀ text ∈ relay.generation, InMemory text
  issuer_inMemory : InMemory (issuerIdentifier upstream.issuerUrl)
  tokenEndpoint_inMemory : ∀ text ∈ upstream.tokenEndpoint.map Url.asStr, InMemory text
  clientId_inMemory : InMemory upstream.clientId

variable {R : Rules}

/-- What of a configuration is identity. -/
def Configuration.identity (configuration : Configuration R) : Identity where
  generation := configuration.relay.generation
  issuer := issuerIdentifier configuration.upstream.issuerUrl
  tokenEndpoint := configuration.upstream.tokenEndpoint.map Url.asStr
  clientId := configuration.upstream.clientId
  generation_inMemory := configuration.generation_inMemory
  issuer_inMemory := configuration.issuer_inMemory
  tokenEndpoint_inMemory := configuration.tokenEndpoint_inMemory
  clientId_inMemory := configuration.clientId_inMemory

/-- Two configurations have the relay key, the generation, the issuer identifier, the token
endpoint override and the client id in common. -/
structure Configuration.Agrees (a b : Configuration R) : Prop where
  key : a.relay.key = b.relay.key
  generation : a.relay.generation = b.relay.generation
  issuer : issuerIdentifier a.upstream.issuerUrl = issuerIdentifier b.upstream.issuerUrl
  tokenEndpoint : a.upstream.tokenEndpoint.map Url.asStr = b.upstream.tokenEndpoint.map Url.asStr
  clientId : a.upstream.clientId = b.upstream.clientId

/-- `HandleBinding::new`: the relay key, and the fingerprint of the generation and the upstream
identity. -/
def Configuration.binding (sha256 : List UInt8 → Bytes 32) (configuration : Configuration R) :
    HandleBinding where
  relay := configuration.relay.key
  fingerprint := sha256 configuration.identity.fingerprintInput

/-- The hash tells the identities of two configurations apart. -/
def CollisionFree (sha256 : List UInt8 → Bytes 32) (a b : Configuration R) : Prop :=
  sha256 a.identity.fingerprintInput = sha256 b.identity.fingerprintInput →
    a.identity.fingerprintInput = b.identity.fingerprintInput

/-- **Configurations with one binding agree.** -/
theorem agrees_of_binding {sha256 : List UInt8 → Bytes 32} {a b : Configuration R}
    (free : CollisionFree sha256 a b) (same : a.binding sha256 = b.binding sha256) :
    a.Agrees b := by
  have identity : a.identity = b.identity :=
    Identity.fingerprintInput_injective (free (congrArg HandleBinding.fingerprint same))
  exact ⟨congrArg HandleBinding.relay same, congrArg Identity.generation identity,
    congrArg Identity.issuer identity, congrArg Identity.tokenEndpoint identity,
    congrArg Identity.clientId identity⟩

end OAuthRelay.Binding
