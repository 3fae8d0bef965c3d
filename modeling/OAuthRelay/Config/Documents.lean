import OAuthRelay.Async.Memo
import OAuthRelay.Config.Resources

/-!
# Resource documents and their compilation

A provider discovers resource documents. `compile_resources` makes a snapshot of them: it
refuses two documents of one kind and name, compiles the upstreams and then the relays, and
checks the snapshot as a whole. A secret is written in a document or comes from an external
source, which is resolved when the first document needs it.

The compilation is written over any monad with errors, and over the way that a source is
resolved. Redirect matchers are built by their own constructors, which are parameters here
(`Readers`), and so is the form of inline keys.
-/

set_option autoImplicit false

namespace OAuthRelay.Config

open OAuthRelay.Codes (ResourceKey RefreshTokenMode)
open Memo (lift mapError)

/-! ## Documents -/

/-- An error and its contexts, the outermost first. -/
abbrev Error := List String

structure Metadata where
  namespaceName : Option String
  name : String

/-- A secret source. -/
inductive SecretSource where
  | env (name : String)
  | file (path : String)
  | awsSsmParameter (name : String)
  | secretKeyRef (name key : String)
  | awsSecretsManager (secretId : String) (jsonKey : Option String)
  deriving DecidableEq

inductive SecretValue where
  | value (text : String)
  | valueFrom (source : SecretSource)

structure UpstreamEndpoints where
  authorization : Option String
  token : Option String
  jwks : Option String

structure OAuthClient where
  clientId : String
  clientSecret : SecretValue
  tokenEndpointAuthMethod : TokenEndpointAuthMethod

structure UpstreamResourceSpec where
  issuerUrl : String
  endpoints : UpstreamEndpoints
  oauthClient : OAuthClient

structure UpstreamResource where
  metadata : Metadata
  spec : UpstreamResourceSpec

structure ScopePolicy where
  default : List String
  allowed : Option (List String)

structure RefreshTokensSpec where
  mode : RefreshTokenMode
  gracePeriodSeconds : Option ℕ
  maxLifetimeSeconds : Option ℕ

inductive RedirectPolicyEntry where
  | uri (uri : String)
  | origin (origin : String)
  | loopback (loopback : String)
  | loopbackOrigin (loopbackOrigin : String)

/-- How redirect matchers are built, and what inline keys are. -/
structure Readers (R : Rules) where
  uri : String → Except String R.Matcher
  origin : String → Except String R.Matcher
  httpOrigin : String → Except String R.Matcher
  loopback : String → Except String R.Matcher
  loopbackOrigin : String → Except String R.Matcher
  PublicJwkSet : Type
  toValue : PublicJwkSet → Except Error Value

variable {R : Rules} {B : Readers R}

inductive ClientAuthentication (B : Readers R) where
  | upstreamClient
  | isPublic
  | clientSecret (clientId : String) (clientSecret : SecretValue)
  | privateKeyJwt (requireSingleUse : Bool) (clientId : String)
      (issuer subject audience : Option String) (jwks : Option B.PublicJwkSet)
      (jwksUrl : Option String)

structure RelayResourceSpec (B : Readers R) where
  upstreamRef : String
  scopes : ScopePolicy
  requiredIdTokenClaims : List (String × String)
  idTokenPolicy : Option R.Policy
  refreshTokens : RefreshTokensSpec
  clientAuthentication : ClientAuthentication B
  redirectPolicy : List RedirectPolicyEntry

structure RelayResource (B : Readers R) where
  metadata : Metadata
  spec : RelayResourceSpec B

inductive ResourceDocument (B : Readers R) where
  | upstream (resource : UpstreamResource)
  | relay (resource : RelayResource B)

namespace ResourceDocument

def kind : ResourceDocument B → String
  | upstream _ => "Upstream"
  | relay _ => "Relay"

def name : ResourceDocument B → String
  | upstream resource => resource.metadata.name
  | relay resource => resource.metadata.name

end ResourceDocument

/-! ## What needs no secret -/

/-- `resource_key`. -/
def resourceKey (kind value : String) : Except Error ResourceKey :=
  if value.toList.contains '/' then
    .error [s!"{kind}/{value}: metadata.name must be one path segment"]
  else
    match ResourceKey.new value with
    | some key => .ok key
    | none => .error [s!"{kind}/{value}: metadata.name " ++
        "must contain non-empty URL-safe path segments other than `.` and `..`"]

/-- `parse_url`. -/
def parseUrl (R : Rules) (field value : String) : Except Error Url :=
  match R.parseUrl value with
  | none => .error [field]
  | some url =>
      if url.absoluteHttp then .ok url
      else .error [s!"{field}: must be an absolute http(s) URL"]

/-- `parse_optional_url`. -/
def parseOptionalUrl (R : Rules) (field : String) : Option String → Except Error (Option Url)
  | none => .ok none
  | some value => (parseUrl R field value).map some

def RefreshTokens.default : RefreshTokens := ⟨.passthrough, 30, 30 * 24 * 60 * 60⟩

/-- `compile_refresh_tokens`. -/
def compileRefreshTokens (spec : RefreshTokensSpec) : Except Error RefreshTokens := do
  if spec.mode ≠ .rotating &&
      (spec.gracePeriodSeconds.isSome || spec.maxLifetimeSeconds.isSome) then
    throw ["gracePeriodSeconds and maxLifetimeSeconds apply only to mode: rotating"]
  let compiled : RefreshTokens :=
    { mode := spec.mode
      gracePeriodSeconds := spec.gracePeriodSeconds.getD RefreshTokens.default.gracePeriodSeconds
      maxLifetimeSeconds := spec.maxLifetimeSeconds.getD RefreshTokens.default.maxLifetimeSeconds }
  compiled.validate.mapError fun error => [error]
  pure compiled

/-- An upstream, once its secret is known. -/
def buildUpstream (R : Rules) (key : ResourceKey) (secret : String) (spec : UpstreamResourceSpec) :
    Except Error Upstream := do
  let issuerUrl ← parseUrl R "spec.issuerUrl" spec.issuerUrl
  let authorizationEndpoint ←
    parseOptionalUrl R "spec.endpoints.authorization" spec.endpoints.authorization
  let tokenEndpoint ← parseOptionalUrl R "spec.endpoints.token" spec.endpoints.token
  let jwksUri ← parseOptionalUrl R "spec.endpoints.jwks" spec.endpoints.jwks
  let upstream : Upstream :=
    { key, issuerUrl, authorizationEndpoint, tokenEndpoint, jwksUri
      clientId := spec.oauthClient.clientId
      clientSecret := secret
      tokenEndpointAuthMethod := spec.oauthClient.tokenEndpointAuthMethod }
  upstream.validate.mapError fun error => [s!"Upstream/{key.value}", error]
  pure upstream

/-- The keys of a `PrivateKeyJwt` client: one source, or issuer discovery with none. -/
def compileJwks (B : Readers R) (key : ResourceKey) (issuer : Option String)
    (jwks : Option B.PublicJwkSet) (jwksUrl : Option String) : Except Error (Option ClientJwks) :=
  match jwks, jwksUrl with
  | none, some value =>
      match R.parseUrl value with
      | some url => .ok (some (.url url))
      | none => .error ["spec.clientAuthentication.jwksUrl"]
  | some jwks, none => (B.toValue jwks).map fun value => some (.inline value)
  | none, none =>
      if issuer.isSome then .ok none
      else .error [s!"Relay/{key.value}: PrivateKeyJwt requires exactly one of jwks and " ++
        "jwksUrl, or issuer discovery with neither"]
  | some _, some _ => .error [s!"Relay/{key.value}: PrivateKeyJwt requires exactly one of jwks " ++
      "and jwksUrl, or issuer discovery with neither"]

/-- The matcher for an entry of a redirect policy. -/
def compileMatcher (B : Readers R) : RedirectPolicyEntry → Except String R.Matcher
  | .uri uri => B.uri uri
  | .origin origin =>
      if (R.parseUrl origin).any fun url => url.scheme = "http" then B.httpOrigin origin
      else B.origin origin
  | .loopback loopback => B.loopback loopback
  | .loopbackOrigin loopbackOrigin => B.loopbackOrigin loopbackOrigin

/-- The matchers of a redirect policy, from the entry `index` on. -/
def compileRedirectPolicy (B : Readers R) (key : ResourceKey) (index : ℕ) :
    List RedirectPolicyEntry → Except Error (List R.Matcher)
  | [] => .ok []
  | entry :: rest => do
      let matcher ← (compileMatcher B entry).mapError fun error =>
        [s!"Relay/{key.value} spec.redirectPolicy[{index}]", error]
      let matchers ← compileRedirectPolicy B key (index + 1) rest
      pure (matcher :: matchers)

/-- A relay, once its client authentication is known. -/
def buildRelay (key upstream : ResourceKey) (clientAuth : ClientAuth)
    (spec : RelayResourceSpec B) : Except Error (Relay R) := do
  let redirectPolicy ← compileRedirectPolicy B key 0 spec.redirectPolicy
  let refreshTokens ← (compileRefreshTokens spec.refreshTokens).mapError fun error =>
    s!"Relay/{key.value} spec.refreshTokens" :: error
  let relay : Relay R :=
    { key, upstream, clientAuth, redirectPolicy, refreshTokens
      generation := none
      scopes := spec.scopes.default
      allowedScopes := spec.scopes.allowed
      requiredIdTokenClaims := spec.requiredIdTokenClaims
      idTokenPolicy := spec.idTokenPolicy }
  relay.validate.mapError fun error => [s!"Relay/{key.value}", error]
  pure relay

/-- Separates the kinds; no two documents have one kind and name. -/
def separate (identities : List (String × String)) :
    List (ResourceDocument B) → Except Error (List UpstreamResource × List (RelayResource B))
  | [] => .ok ([], [])
  | document :: rest => do
      if (document.kind, document.name) ∈ identities then
        throw [s!"duplicate {document.kind}/{document.name}"]
      let documents ← separate ((document.kind, document.name) :: identities) rest
      match document with
      | .upstream resource => pure (resource :: documents.1, documents.2)
      | .relay resource => pure (documents.1, resource :: documents.2)

/-! ## Compilation -/

section Compilation

variable {m : Type → Type} [Monad m] [MonadExceptOf Error m]

/-- `resolve_secret`, over the way that a source is resolved. -/
def resolveSecret (value : String → Except Error String) (source : SecretSource → m String) :
    SecretValue → m String
  | .value text => lift (value text)
  | .valueFrom reference => source reference

variable (secret : SecretValue → m String)

def compileUpstream (R : Rules) (resource : UpstreamResource) : m (ResourceKey × Upstream) := do
  let key ← lift (resourceKey "Upstream" resource.metadata.name)
  let clientSecret ← mapError
    (fun error : Error => s!"Upstream/{key.value} spec.oauthClient.clientSecret" :: error)
    (secret resource.spec.oauthClient.clientSecret)
  let upstream ← lift (buildUpstream R key clientSecret resource.spec)
  pure (key, upstream)

def compileClientAuth (key : ResourceKey) : ClientAuthentication B → m ClientAuth
  | .upstreamClient => pure .upstreamClient
  | .isPublic => pure .isPublic
  | .clientSecret clientId clientSecret => do
      let clientSecret ← mapError
        (fun error : Error => s!"Relay/{key.value} spec.clientAuthentication.clientSecret" :: error)
        (secret clientSecret)
      pure (.clientSecret clientId clientSecret)
  | .privateKeyJwt requireSingleUse clientId issuer subject audience jwks jwksUrl => do
      let jwks ← lift (compileJwks B key issuer jwks jwksUrl)
      pure (.privateKeyJwt { requireSingleUse, clientId, issuer, subject, audience, jwks })

def compileRelay (resource : RelayResource B) : m (ResourceKey × Relay R) := do
  let key ← lift (resourceKey "Relay" resource.metadata.name)
  let upstream ← lift (resourceKey "Upstream" resource.spec.upstreamRef)
  let clientAuth ← compileClientAuth secret key resource.spec.clientAuthentication
  let relay ← lift (buildRelay key upstream clientAuth resource.spec)
  pure (key, relay)

/-- Compiles one resource after the other into a map. -/
def compileInto {α β : Type} (compile : α → m (ResourceKey × β)) (resources : ResourceMap β) :
    List α → m (ResourceMap β)
  | [] => pure resources
  | resource :: rest => do
      let compiled ← compile resource
      compileInto compile (resources.insert compiled.1 compiled.2) rest

/-- `compile_resources`, over the way that a secret is resolved. -/
def compileWith (documents : List (ResourceDocument B)) : m (ProviderSnapshot R) := do
  let separated ← lift (separate [] documents)
  let upstreams ← compileInto (compileUpstream secret R) ∅ separated.1
  let relays ← compileInto (compileRelay secret) ∅ separated.2
  let snapshot : ProviderSnapshot R := ⟨upstreams, relays⟩
  lift (snapshot.validate.mapError fun error => [error])
  pure snapshot

end Compilation

end OAuthRelay.Config
