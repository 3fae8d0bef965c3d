import Mathlib.Data.List.AList
import OAuthRelay.Codes.Envelope

/-!
# Relays and upstreams

What a provider configures: upstreams, each an OAuth client at an identity provider, and
relays, each of which refers to an upstream. A snapshot is a map of each kind, and it is valid
when all its resources are and every relay's upstream is in it.

URLs are parsed by a library. What redirect matchers and ID-token policies are is a parameter
of this module (`Rules`); of both only their own checks matter here.
-/

set_option autoImplicit false

namespace OAuthRelay.Config

open OAuthRelay.Codes (ResourceKey RefreshTokenMode)

/-! ## Values and URLs -/

/-- A JSON value. Of a number only what it is as a 64-bit number matters. -/
inductive Value where
  | null
  | bool (value : Bool)
  | number (asU64 : Option UInt64)
  | string (value : String)
  | array (values : List Value)
  | object (members : List (String × Value))

namespace Value

def get (name : String) : Value → Option Value
  | object members => (members.find? fun member => member.1 = name).map Prod.snd
  | _ => none

def asStr : Value → Option String
  | string value => some value
  | _ => none

def asU64 : Value → Option UInt64
  | number value => value
  | _ => none

def asArray : Value → Option (List Value)
  | array values => some values
  | _ => none

end Value

/-- A URL in parts, with its serialization. -/
structure Url where
  asStr : String
  scheme : String
  /-- The host, and whether it is a loopback address. -/
  host : Option (String × Bool)
  username : String
  password : Option String
  path : String
  query : Option String
  fragment : Option String

/-- An absolute `http` or `https` URL. -/
def Url.absoluteHttp (url : Url) : Bool :=
  (url.scheme = "http" || url.scheme = "https") && url.host.isSome

def validDiscoveryUrl (url : Url) : Bool :=
  (url.scheme = "https" || (url.scheme = "http" && url.host.any Prod.snd)) &&
    url.host.isSome && url.username = "" && url.password.isNone && url.query.isNone &&
    url.fragment.isNone

/-! ## Upstreams -/

inductive TokenEndpointAuthMethod where
  | clientSecretPost
  | clientSecretBasic

structure Upstream where
  key : ResourceKey
  issuerUrl : Url
  authorizationEndpoint : Option Url
  tokenEndpoint : Option Url
  jwksUri : Option Url
  clientId : String
  clientSecret : String
  tokenEndpointAuthMethod : TokenEndpointAuthMethod

def Upstream.validate (upstream : Upstream) : Except String Unit := do
  let urls := ("issuer_url", upstream.issuerUrl) ::
    (upstream.authorizationEndpoint.map fun url => ("authorization_endpoint", url)).toList ++
    (upstream.tokenEndpoint.map fun url => ("token_endpoint", url)).toList ++
    (upstream.jwksUri.map fun url => ("jwks_uri", url)).toList
  urls.forM fun (field, url) =>
    if url.absoluteHttp then pure () else throw s!"{field} must be an absolute http(s) URL"
  if upstream.clientId = "" then throw "client_id must not be empty"
  if upstream.clientSecret = "" then throw "client_secret must not be empty"

/-! ## Relays -/

structure RefreshTokens where
  mode : RefreshTokenMode
  gracePeriodSeconds : ℕ
  maxLifetimeSeconds : ℕ

def maxGracePeriodSeconds : ℕ := 5 * 60

def maxMaxLifetimeSeconds : ℕ := 10 * 365 * 24 * 60 * 60

def RefreshTokens.validate (tokens : RefreshTokens) : Except String Unit := do
  if tokens.gracePeriodSeconds < 1 || maxGracePeriodSeconds < tokens.gracePeriodSeconds then
    throw s!"refresh_tokens.grace_period_seconds must be between 1 and {maxGracePeriodSeconds}"
  if tokens.maxLifetimeSeconds < tokens.gracePeriodSeconds ||
      maxMaxLifetimeSeconds < tokens.maxLifetimeSeconds then
    throw <| "refresh_tokens.max_lifetime_seconds must be between grace_period_seconds and " ++
      toString maxMaxLifetimeSeconds

/-- Where the keys of a client are. -/
inductive ClientJwks where
  | url (url : Url)
  | inline (value : Value)

/-- `ClientAuth::PrivateKeyJwt`. -/
structure PrivateKeyJwt where
  requireSingleUse : Bool
  clientId : String
  issuer : Option String
  subject : Option String
  audience : Option String
  jwks : Option ClientJwks

inductive ClientAuth where
  | upstreamClient
  | isPublic
  | clientSecret (clientId clientSecret : String)
  | privateKeyJwt (jwt : PrivateKeyJwt)

/-- How matchers, policies and URLs are read. -/
structure Rules where
  parseUrl : String → Option Url
  Matcher : Type
  /-- What two matchers of one redirect policy may not share. -/
  identity : Matcher → String
  validateMatcher : Matcher → Except String Unit
  /-- The origin of an `Origin` matcher that is not `https`. -/
  httpOrigin : Matcher → Option String
  Policy : Type
  validatePolicy : Policy → Except String Unit

variable {R : Rules}

structure Relay (R : Rules) where
  key : ResourceKey
  upstream : ResourceKey
  generation : Option String
  clientAuth : ClientAuth
  scopes : List String
  allowedScopes : Option (List String)
  requiredIdTokenClaims : List (String × String)
  idTokenPolicy : Option R.Policy
  refreshTokens : RefreshTokens
  redirectPolicy : List R.Matcher

def validScopeToken (scope : String) : Bool :=
  scope ≠ "" && scope.toList.all fun c =>
    c.toNat = 0x21 || (0x23 ≤ c.toNat && c.toNat ≤ 0x5b) || (0x5d ≤ c.toNat && c.toNat ≤ 0x7e)

/-- Checks one after the other that each is accepted and is not among those before it. -/
def checkDistinct {α : Type} (check : α → Except String Unit) (identity : α → String)
    (duplicate : String) (seen : List String) : List α → Except String Unit
  | [] => pure ()
  | x :: rest => do
      check x
      if identity x ∈ seen then throw duplicate
      checkDistinct check identity duplicate (identity x :: seen) rest

def checkScopes (field : String) : List String → Except String Unit :=
  checkDistinct
    (fun scope => if validScopeToken scope then pure ()
      else throw s!"{field} must contain valid RFC 6749 scope tokens")
    id s!"{field} must not contain duplicates" []

def PrivateKeyJwt.validate (R : Rules) (jwt : PrivateKeyJwt) : Except String Unit := do
  if jwt.clientId = "" then throw "clientAuthentication.clientId must not be empty"
  if let some issuer := jwt.issuer then
    match R.parseUrl issuer with
    | none => throw "clientAuthentication.issuer must be an absolute HTTPS URL"
    | some url =>
        if !validDiscoveryUrl url then
          throw <| "clientAuthentication.issuer must use HTTPS (HTTP on loopback) without user " ++
            "information, query, or fragment"
  if jwt.subject = some "" then throw "clientAuthentication.subject must not be empty"
  if jwt.audience = some "" then throw "clientAuthentication.audience must not be empty"
  match jwt.jwks with
  | none =>
      if jwt.issuer.isNone then throw "clientAuthentication requires jwks or issuer discovery"
  | some (.url url) =>
      if !url.absoluteHttp then throw "clientAuthentication.jwks must be an absolute http(s) URL"
  | some (.inline value) =>
      if !((value.get "keys").bind Value.asArray).any (fun keys => !keys.isEmpty) then
        throw "clientAuthentication.jwks must contain a non-empty keys array"

def ClientAuth.validate (R : Rules) : ClientAuth → Except String Unit
  | upstreamClient | isPublic => pure ()
  | clientSecret id secret =>
      if id = "" || secret = "" then
        throw "clientAuthentication credentials must not be empty"
      else pure ()
  | privateKeyJwt jwt => jwt.validate R

def publicRequiresRotating : String :=
  "clientAuthentication.type: Public requires refreshTokens.mode: rotating, because a public " ++
    "client's refresh tokens must be rotated; set refreshTokens.mode to rotating, or " ++
    "authenticate the relying party with ClientSecret, UpstreamClient or PrivateKeyJwt. " ++
    "rotating needs a transient store shared by every serving instance (OAUTHRELAY_STORE, " ++
    "e.g. dynamodb or kubernetes); the default memory store only suits a single instance"

namespace Relay

/-- The checks that do not depend on how the relay is served. -/
def validate (relay : Relay R) : Except String Unit := do
  if relay.requiredIdTokenClaims.any fun claim => claim.1 = "" then
    throw "required_id_token_claims must not contain an empty claim name"
  if let some policy := relay.idTokenPolicy then R.validatePolicy policy
  relay.refreshTokens.validate
  if let .isPublic := relay.clientAuth then
    if relay.refreshTokens.mode ≠ .rotating then throw publicRequiresRotating
  checkScopes "scopes.default" relay.scopes
  if let some allowed := relay.allowedScopes then
    checkScopes "scopes.allowed" allowed
    if !relay.scopes.all (fun scope => scope ∈ allowed) then
      throw "scopes.default must be contained in scopes.allowed"
  if relay.redirectPolicy.isEmpty then throw "redirect_policy must contain at least one matcher"
  checkDistinct R.validateMatcher R.identity "redirect_policy must not contain duplicates" []
    relay.redirectPolicy
  relay.clientAuth.validate R

/-- Those checks and the ones that do. -/
def validateFor (relay : Relay R) (allowHttpOrigins : Bool) : Except String Unit := do
  relay.validate
  if !allowHttpOrigins then
    if let some origin := relay.redirectPolicy.findSome? R.httpOrigin then
      throw <| s!"redirect_policy origin {origin} uses http, which requires " ++
        "allow_http_origins (OAUTHRELAY_ALLOW_HTTP_ORIGINS)"

end Relay

/-! ## Snapshots -/

abbrev ResourceMap (α : Type) := AList fun _ : ResourceKey => α

structure ProviderSnapshot (R : Rules) where
  upstreams : ResourceMap Upstream
  relays : ResourceMap (Relay R)

namespace ProviderSnapshot

/-- `ProviderSnapshot::default`. -/
def empty : ProviderSnapshot R := ⟨∅, ∅⟩

def validate (snapshot : ProviderSnapshot R) : Except String Unit := do
  snapshot.upstreams.entries.forM fun ⟨key, upstream⟩ =>
    upstream.validate.mapError fun error => s!"Upstream/{key.value}: {error}"
  snapshot.relays.entries.forM fun ⟨key, relay⟩ => do
    relay.validate.mapError fun error => s!"Relay/{key.value}: {error}"
    if (snapshot.upstreams.lookup relay.upstream).isNone then
      throw s!"Relay/{key.value}: upstreamRef {relay.upstream.value} does not exist"

end ProviderSnapshot

/-- Every element passes a check that is made of all. -/
theorem ok_of_forM {α : Type} {check : α → Except String Unit} {values : List α} {u : Unit}
    (passed : values.forM check = .ok u) : ∀ x ∈ values, check x = .ok () := by
  induction values with
  | nil => simp
  | cons x rest ih =>
      simp only [List.forM_eq_forM, List.forM_cons, bind, Except.bind] at passed
      cases first : check x with
      | error => rw [first] at passed; cases passed
      | ok =>
          rw [first] at passed
          exact List.forall_mem_cons.mpr ⟨first, ih passed⟩

theorem forM_eq_ok {α : Type} {check : α → Except String Unit} {values : List α} :
    values.forM check = .ok () ↔ ∀ x ∈ values, check x = .ok () := by
  refine ⟨ok_of_forM, fun all => ?_⟩
  induction values with
  | nil => rfl
  | cons x rest ih =>
      obtain ⟨first, others⟩ := List.forall_mem_cons.mp all
      simp only [List.forM_eq_forM, List.forM_cons, bind, Except.bind, first]
      exact ih others

theorem mapError_eq_ok_iff {α ε ε' : Type} {f : ε → ε'} {x : Except ε α} {a : α} :
    x.mapError f = .ok a ↔ x = .ok a := by
  cases x <;> simp [Except.mapError]

namespace ProviderSnapshot

/-- **A snapshot is valid when all its resources are and every relay's upstream is in it.** -/
theorem validate_eq_ok {snapshot : ProviderSnapshot R} :
    snapshot.validate = .ok () ↔
      (∀ key upstream, snapshot.upstreams.lookup key = some upstream →
        upstream.validate = .ok ()) ∧
      ∀ key relay, snapshot.relays.lookup key = some relay → relay.validate = .ok () ∧
        ∃ upstream, snapshot.upstreams.lookup relay.upstream = some upstream := by
  have upstreams : (snapshot.upstreams.entries.forM fun ⟨key, upstream⟩ =>
        upstream.validate.mapError fun error => s!"Upstream/{key.value}: {error}") = .ok () ↔
      ∀ key upstream, snapshot.upstreams.lookup key = some upstream →
        upstream.validate = .ok () := by
    rw [forM_eq_ok]
    constructor
    · intro all key upstream found
      exact mapError_eq_ok_iff.mp (all ⟨key, upstream⟩ (AList.mem_lookup_iff.mp found))
    · rintro all ⟨key, upstream⟩ member
      exact mapError_eq_ok_iff.mpr (all key upstream (AList.mem_lookup_iff.mpr member))
  have relay : ∀ (key : ResourceKey) (relay : Relay R),
      ((do
        relay.validate.mapError fun error => s!"Relay/{key.value}: {error}"
        if (snapshot.upstreams.lookup relay.upstream).isNone then
          throw s!"Relay/{key.value}: upstreamRef {relay.upstream.value} does not exist" :
        Except String Unit) = .ok ()) ↔ relay.validate = .ok () ∧
          ∃ upstream, snapshot.upstreams.lookup relay.upstream = some upstream := by
    intro key relay
    cases relay.validate with
    | error => simp [bind, Except.bind, Except.mapError]
    | ok =>
        cases snapshot.upstreams.lookup relay.upstream with
        | none => simp [bind, Except.bind, Except.mapError, throw, throwThe, MonadExceptOf.throw]
        | some upstream => simp [bind, Except.bind, Except.mapError, pure, Except.pure]
  have relays : (snapshot.relays.entries.forM fun ⟨key, relay⟩ => do
        relay.validate.mapError fun error => s!"Relay/{key.value}: {error}"
        if (snapshot.upstreams.lookup relay.upstream).isNone then
          throw s!"Relay/{key.value}: upstreamRef {relay.upstream.value} does not exist") = .ok () ↔
      ∀ key relay, snapshot.relays.lookup key = some relay → relay.validate = .ok () ∧
        ∃ upstream, snapshot.upstreams.lookup relay.upstream = some upstream := by
    rw [forM_eq_ok]
    constructor
    · intro all key value found
      exact (relay key value).mp (all ⟨key, value⟩ (AList.mem_lookup_iff.mp found))
    · rintro all ⟨key, value⟩ member
      exact (relay key value).mpr (all key value (AList.mem_lookup_iff.mpr member))
  rw [← upstreams, ← relays]
  unfold validate
  cases snapshot.upstreams.entries.forM fun ⟨key, upstream⟩ =>
      upstream.validate.mapError fun error => s!"Upstream/{key.value}: {error}" with
  | error => simp [bind, Except.bind]
  | ok => simp [bind, Except.bind]

/-- **A relay of a valid snapshot has its upstream there.** -/
theorem exists_upstream {snapshot : ProviderSnapshot R} (valid : snapshot.validate = .ok ())
    {key : ResourceKey} {relay : Relay R} (found : snapshot.relays.lookup key = some relay) :
    ∃ upstream, snapshot.upstreams.lookup relay.upstream = some upstream :=
  ((validate_eq_ok.mp valid).2 key relay found).2

end ProviderSnapshot

end OAuthRelay.Config
