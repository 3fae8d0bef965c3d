import OAuthRelay.Flows.Authentication
import OAuthRelay.Flows.Authorize

/-!
# The description of a relay

A relay serves a discovery document of its own. It is the upstream's, less what a client of the
relay cannot use, with the relay's endpoints and what these accept in place of what the upstream
says about its own.

A document is its members by name. What becomes of each is told in one place
(`describeRelay_eq`), so a document that is described twice is as it was after the first time
(`describeRelay_idem`). The main result is that the document tells the truth
(`description_is_truthful`): an authorization request, a grant or a client that the relay accepts
is one that the document lists, a way to authenticate that it lists can be used, and what it does
not list is refused.
-/

set_option autoImplicit false

namespace OAuthRelay.Upstreams

open Codes (RefreshTokenMode)
open Config (ClientAuth PrivateKeyJwt Rules Upstream Value)
open Flows
open Flows.Credentials (Encodings)
open Redirects (Parser Relay)

/-! ## Documents -/

/-- The members of an object by name. -/
abbrev Members := String → Option Value

namespace Members

def retain (doc : Members) (keeps : String → Bool) : Members :=
  fun name => if keeps name then doc name else none

def insert (doc : Members) (name : String) (value : Value) : Members :=
  Function.update doc name (some value)

def remove (doc : Members) (name : String) : Members := Function.update doc name none

/-- The texts that a member lists. -/
def listed (doc : Members) (name : String) : List String :=
  (((doc name).bind Value.asArray).getD []).filterMap Value.asStr

end Members

/-- An array of texts. -/
def strings (texts : List String) : Value := .array (texts.map .string)

/-! ## What a relay says about itself -/

def upstreamOnlyMetadata : List String :=
  ["require_pushed_authorization_requests",
    "backchannel_authentication_request_signing_alg_values_supported",
    "backchannel_token_delivery_modes_supported", "backchannel_user_code_parameter_supported",
    "mtls_endpoint_aliases", "tls_client_certificate_bound_access_tokens",
    "dpop_signing_alg_values_supported", "require_request_uri_registration",
    "require_signed_request_object", "request_object_signing_alg_values_supported",
    "request_object_encryption_alg_values_supported",
    "request_object_encryption_enc_values_supported",
    "authorization_signing_alg_values_supported", "authorization_encryption_alg_values_supported",
    "authorization_encryption_enc_values_supported", "check_session_iframe",
    "frontchannel_logout_supported", "frontchannel_logout_session_supported",
    "backchannel_logout_supported", "backchannel_logout_session_supported",
    "http_logout_supported", "signed_metadata"]

def relayClientEndpoints : List String :=
  ["authorization_endpoint", "token_endpoint", "userinfo_endpoint", "end_session_endpoint",
    "revocation_endpoint", "introspection_endpoint"]

def upstreamTokenManagementMetadata : List String :=
  ["revocation_endpoint", "revocation_endpoint_auth_methods_supported",
    "revocation_endpoint_auth_signing_alg_values_supported", "introspection_endpoint",
    "introspection_endpoint_auth_methods_supported",
    "introspection_endpoint_auth_signing_alg_values_supported",
    "introspection_signing_alg_values_supported", "introspection_encryption_alg_values_supported",
    "introspection_encryption_enc_values_supported"]

/-- An algorithm as it is serialized. -/
def algorithmName : Assertions.Algorithm → String
  | .hs256 => "HS256"
  | .hs384 => "HS384"
  | .hs512 => "HS512"
  | .es256 => "ES256"
  | .es384 => "ES384"
  | .rs256 => "RS256"
  | .rs384 => "RS384"
  | .rs512 => "RS512"
  | .ps256 => "PS256"
  | .ps384 => "PS384"
  | .ps512 => "PS512"
  | .edDsa => "EdDSA"

variable {parse : Parser} {rules : Rules}

/-- The name is that of an endpoint. -/
def isEndpoint (name : String) : Bool := decide ("_endpoint".toList <:+ name.toList)

/-- The first pass: what no client of the relay can use is left out. -/
def keepsName (name : String) : Bool :=
  name ∉ upstreamOnlyMetadata && (!isEndpoint name || name ∈ relayClientEndpoints)

/-- The upstream does not list its grants without the refresh grant. -/
def refreshGranted (doc : Members) : Bool :=
  ((doc "grant_types_supported").bind Value.asArray).all fun upstream =>
    upstream.any fun value => value.asStr = some "refresh_token"

def authMethods : ClientAuth → List String
  | .upstreamClient | .clientSecret _ _ => ["client_secret_basic", "client_secret_post"]
  | .isPublic => ["none"]
  | .privateKeyJwt _ => ["private_key_jwt"]

/-- The algorithms of the assertions that a relay accepts, if it accepts assertions. -/
def signingAlgorithms : ClientAuth → Option (List String)
  | .privateKeyJwt _ => some (Assertions.clientAssertionAlgorithms.map algorithmName)
  | _ => none

/-- What is left of the upstream's document. -/
def leaveOut (doc : Members) (relay : Relay parse rules) : Members :=
  let doc := doc.retain keepsName
  if relay.refreshTokens.mode ≠ .passthrough then
    upstreamTokenManagementMetadata.foldl Members.remove doc
  else doc

def describeRelay (doc : Members) (relay : Relay parse rules) : Members :=
  let doc := leaveOut doc relay
  let doc := doc.insert "response_types_supported" (strings ["code"])
  let doc := doc.insert "response_modes_supported" (strings ["query"])
  let grantTypes :=
    if refreshGranted doc then ["authorization_code", "refresh_token"] else ["authorization_code"]
  let doc := doc.insert "grant_types_supported" (strings grantTypes)
  let doc := doc.insert "code_challenge_methods_supported" (strings ["S256"])
  let doc := doc.insert "request_parameter_supported" (.bool false)
  let doc := doc.insert "request_uri_parameter_supported" (.bool false)
  let doc :=
    match relay.allowedScopes with
    | some allowed => doc.insert "scopes_supported" (strings allowed)
    | none => doc
  let doc :=
    doc.insert "token_endpoint_auth_methods_supported" (strings (authMethods relay.clientAuth))
  match signingAlgorithms relay.clientAuth with
  | some algorithms =>
      doc.insert "token_endpoint_auth_signing_alg_values_supported" (strings algorithms)
  | none => doc.remove "token_endpoint_auth_signing_alg_values_supported"

/-! ## What is served -/

/-- The answers of the caches to a request for the description. -/
structure Fetched where
  required : Except ℕ Value
  optional : Except ℕ (Option Value)

/-- The issuer of an upstream whose document does not name it. -/
def configuredIssuer (upstream : Upstream) : String :=
  if upstream.issuerUrl.path = "/" then
    String.ofList (upstream.issuerUrl.asStr.toList.rdropWhile (· = '/'))
  else upstream.issuerUrl.asStr

/-- The document of the upstream, or an empty one. -/
def upstreamDocument (fetched : Fetched) (upstream : Upstream) : Except ℕ Value :=
  if endpointsNeedDiscovery upstream then fetched.required
  else if upstream.jwksUri.isSome then .ok (.object [])
  else fetched.optional.map fun doc => doc.getD (.object [])

/-- `discovery`. The two URLs are the relay's own. -/
def discovery (fetched : Fetched) (authorizeUrl tokenUrl : String) (relay : Relay parse rules)
    (upstream : Upstream) : Except ℕ Members := do
  let doc ← upstreamDocument fetched upstream
  let _ ← resolveEndpointsFromDoc parse upstream doc
  let issuer := ((doc.get "issuer").bind Value.asStr).getD (configuredIssuer upstream)
  let served : Members := fun name => doc.get name
  let served := served.insert "issuer" (.string issuer)
  let served := served.insert "authorization_endpoint" (.string authorizeUrl)
  let served := served.insert "token_endpoint" (.string tokenUrl)
  let served :=
    match upstream.jwksUri.or (urlField parse doc "jwks_uri") with
    | some jwksUri => served.insert "jwks_uri" (.string jwksUri.asStr)
    | none => served.remove "jwks_uri"
  .ok (describeRelay served relay)

/-! ## Member by member -/

theorem retain_apply (doc : Members) (keeps : String → Bool) (name : String) :
    doc.retain keeps name = if keeps name then doc name else none := rfl

theorem insert_apply (doc : Members) (name' : String) (value : Value) (name : String) :
    doc.insert name' value name = if name = name' then some value else doc name :=
  Function.update_apply ..

theorem remove_apply (doc : Members) (name' name : String) :
    doc.remove name' name = if name = name' then none else doc name :=
  Function.update_apply ..

theorem foldl_remove_apply (names : List String) (doc : Members) (name : String) :
    names.foldl Members.remove doc name = if name ∈ names then none else doc name := by
  induction names generalizing doc with
  | nil => simp
  | cons first rest ih =>
      rw [List.foldl_cons, ih, remove_apply]
      by_cases here : name = first
      · simp [here]
      · simp [here]

/-- The upstream's member is of no use to a client of the relay. -/
def leftOut (relay : Relay parse rules) (name : String) : Bool :=
  !keepsName name ||
    decide (relay.refreshTokens.mode ≠ .passthrough) && name ∈ upstreamTokenManagementMetadata

theorem leaveOut_apply (doc : Members) (relay : Relay parse rules) (name : String) :
    leaveOut doc relay name = if leftOut relay name then none else doc name := by
  unfold leaveOut leftOut
  by_cases passthrough : relay.refreshTokens.mode = .passthrough
  · cases kept : keepsName name <;> simp [passthrough, retain_apply, kept]
  · by_cases managed : name ∈ upstreamTokenManagementMetadata
    · simp [passthrough, foldl_remove_apply, managed]
    · cases kept : keepsName name
      all_goals simp [passthrough, foldl_remove_apply, managed, retain_apply, kept]

/-- What the relay says of its own about a member, if only that there is none. -/
def ownMember (relay : Relay parse rules) (refresh : Bool) (name : String) :
    Option (Option Value) :=
  if name = "token_endpoint_auth_signing_alg_values_supported" then
    some ((signingAlgorithms relay.clientAuth).map strings)
  else if name = "token_endpoint_auth_methods_supported" then
    some (some (strings (authMethods relay.clientAuth)))
  else if name = "scopes_supported" then
    relay.allowedScopes.map fun allowed => some (strings allowed)
  else if name = "request_uri_parameter_supported" then some (some (.bool false))
  else if name = "request_parameter_supported" then some (some (.bool false))
  else if name = "code_challenge_methods_supported" then some (some (strings ["S256"]))
  else if name = "grant_types_supported" then
    some (some (strings (if refresh then ["authorization_code", "refresh_token"]
      else ["authorization_code"])))
  else if name = "response_modes_supported" then some (some (strings ["query"]))
  else if name = "response_types_supported" then some (some (strings ["code"]))
  else none

/-- The members that the relay has something to say about. -/
def ownNames : List String :=
  ["token_endpoint_auth_signing_alg_values_supported", "token_endpoint_auth_methods_supported",
    "scopes_supported", "request_uri_parameter_supported", "request_parameter_supported",
    "code_challenge_methods_supported", "grant_types_supported", "response_modes_supported",
    "response_types_supported"]

theorem ownMember_of_not_mem (relay : Relay parse rules) (refresh : Bool) {name : String}
    (other : name ∉ ownNames) : ownMember relay refresh name = none := by
  simp only [ownNames, List.mem_cons, List.not_mem_nil, or_false, not_or] at other
  simp [ownMember, other]

/-- **What becomes of a member.** It is what the relay says, or what the upstream says if that is
of use to the relay's clients. -/
theorem describeRelay_eq (doc : Members) (relay : Relay parse rules) (name : String) :
    describeRelay doc relay name = (ownMember relay (refreshGranted doc) name).getD
      (if leftOut relay name then none else doc name) := by
  have grants : refreshGranted (((leaveOut doc relay).insert "response_types_supported"
      (strings ["code"])).insert "response_modes_supported" (strings ["query"])) =
        refreshGranted doc := by
    have kept : leftOut relay "grant_types_supported" = false := by
      have passes : keepsName "grant_types_supported" = true := by decide +kernel
      have other : "grant_types_supported" ∉ upstreamTokenManagementMetadata := by decide
      simp [leftOut, passes, other]
    have same : (((leaveOut doc relay).insert "response_types_supported"
        (strings ["code"])).insert "response_modes_supported" (strings ["query"]))
          "grant_types_supported" = doc "grant_types_supported" := by
      rw [insert_apply, if_neg (by decide), insert_apply, if_neg (by decide), leaveOut_apply, kept]
      rfl
    rw [refreshGranted, same, ← refreshGranted]
  have own (c : Prop) [Decidable c] (value fallback : Option Value)
      (rest : Option (Option Value)) :
      (if c then some value else rest).getD fallback = if c then value else rest.getD fallback := by
    split <;> rfl
  unfold describeRelay ownMember
  cases relay.allowedScopes with
  | some allowed =>
      cases signingAlgorithms relay.clientAuth
      all_goals simp only [insert_apply, remove_apply, grants, leaveOut_apply, own, Option.map_none,
        Option.map_some, Option.getD_none]
  | none =>
      by_cases scopes : name = "scopes_supported"
      · subst scopes
        cases signingAlgorithms relay.clientAuth
        all_goals simp [insert_apply, remove_apply, leaveOut_apply]
      · cases signingAlgorithms relay.clientAuth
        all_goals simp only [insert_apply, remove_apply, grants, leaveOut_apply, own, scopes,
          if_false, Option.map_none, Option.map_some, Option.getD_none]

/-- The upstream's word stands where the relay has nothing to say. -/
theorem describeRelay_of_plain (doc : Members) (relay : Relay parse rules) {name : String}
    (foreign : name ∉ ownNames) (keeps : keepsName name = true)
    (other : name ∉ upstreamTokenManagementMetadata) : describeRelay doc relay name = doc name := by
  have kept : leftOut relay name = false := by simp [leftOut, keeps, other]
  rw [describeRelay_eq, ownMember_of_not_mem relay _ foreign, kept]
  rfl

/-- Whether the refresh grant is listed is not changed. -/
theorem refreshGranted_describeRelay (doc : Members) (relay : Relay parse rules) :
    refreshGranted (describeRelay doc relay) = refreshGranted doc := by
  have grants : describeRelay doc relay "grant_types_supported" =
      some (strings (if refreshGranted doc then ["authorization_code", "refresh_token"]
        else ["authorization_code"])) := by
    rw [describeRelay_eq]
    rfl
  cases same : refreshGranted doc with
  | true =>
      rw [same] at grants
      rw [refreshGranted, grants]
      rfl
  | false =>
      rw [same] at grants
      rw [refreshGranted, grants]
      decide

/-- **To describe a relay again changes nothing.** -/
theorem describeRelay_idem (doc : Members) (relay : Relay parse rules) :
    describeRelay (describeRelay doc relay) relay = describeRelay doc relay := by
  funext name
  rw [describeRelay_eq (describeRelay doc relay), refreshGranted_describeRelay, describeRelay_eq]
  cases ownMember relay (refreshGranted doc) name with
  | some value => rfl
  | none =>
      cases leftOut relay name <;> rfl

/-! ## The truth of the description -/

theorem listed_of_eq {doc : Members} {name : String} {texts : List String}
    (there : doc name = some (strings texts)) : doc.listed name = texts := by
  simp [Members.listed, there, strings, Value.asArray, List.filterMap_map, Value.asStr,
    Function.comp_def]

/-- The way a client has authenticated. -/
inductive Uses (lib : Encodings) (authorization : List (List UInt8)) (form : TokenRequest) :
    String → Prop
  | basic {id secret : String}
      (presents : Credentials.Presents lib authorization form id secret true) :
      Uses lib authorization form "client_secret_basic"
  | post {id secret : String}
      (presents : Credentials.Presents lib authorization form id secret false) :
      Uses lib authorization form "client_secret_post"
  | nothing (presents : Credentials.PresentsNothing lib authorization form) :
      Uses lib authorization form "none"
  | assertion {assertion : String} (there : form.clientAssertion = some assertion) :
      Uses lib authorization form "private_key_jwt"

/-- The error for a grant that the relay does not have. -/
def unsupportedGrantType : Codes.OAuthError :=
  ⟨400, "unsupported_grant_type", "unsupported grant_type", false⟩

/-- What a document says of a relay is true of it. -/
structure Truthful (lib : Encodings) (verifyPrivateKeyJwt : PrivateKeyJwt → String → Bool)
    (server : Server) (around : Surroundings parse rules) (relay : Relay parse rules)
    (upstream : Upstream) (served : Members) : Prop where
  /-- What is asked for in an authorization request that is accepted is listed. -/
  requests : ∀ verifier nonce query location,
    dispatchAuthorize server around relay upstream verifier nonce query = .ok location →
    ∀ p ∈ queryPairs server.form query,
      (p.1 = "response_type" → p.2 ∈ served.listed "response_types_supported") ∧
      (p.1 = "response_mode" → p.2 ∈ served.listed "response_modes_supported") ∧
      (p.1 = "code_challenge_method" → p.2 ∈ served.listed "code_challenge_methods_supported") ∧
      (p.1 = "scope" → relay.allowedScopes.isSome = true → ∀ token ∈ scopeTokens p.2,
        token ∈ served.listed "scopes_supported") ∧
      (p.1 = "request" → served "request_parameter_supported" ≠ some (.bool false)) ∧
      (p.1 = "request_uri" → served "request_uri_parameter_supported" ≠ some (.bool false))
  /-- A grant that is not listed is refused, unless it is the upstream that does not list the
  refresh grant. -/
  grants : ∀ authenticate headers body form, parseTokenRequest server.form body = some form →
    authenticate form headers = none →
      form.grant ∈ served.listed "grant_types_supported" ∨ form.grant = "refresh_token" ∨
      token server around relay upstream authenticate headers body =
        .refused unsupportedGrantType
  /-- A grant that is listed is not refused for what it is. -/
  granted : ∀ authenticate headers body form, parseTokenRequest server.form body = some form →
    authenticate form headers = none → form.grant ∈ served.listed "grant_types_supported" →
      token server around relay upstream authenticate headers body ≠
        .refused unsupportedGrantType
  /-- A client that is accepted has authenticated in a way that is listed. -/
  clients : ∀ authorization form, Credentials.authenticate lib verifyPrivateKeyJwt relay.clientAuth
      upstream authorization form = .ok () →
    ∃ method ∈ served.listed "token_endpoint_auth_methods_supported",
      Uses lib authorization form method
  /-- Each way that is listed is one that a client can use, if it has an assertion where one is
  asked for. -/
  usable : (∀ jwt, relay.clientAuth = .privateKeyJwt jwt →
      ∃ assertion, verifyPrivateKeyJwt jwt assertion = true) →
    ∀ method ∈ served.listed "token_endpoint_auth_methods_supported", ∃ authorization form,
      Uses lib authorization form method ∧
      Credentials.authenticate lib verifyPrivateKeyJwt relay.clientAuth upstream authorization
        form = .ok ()
  /-- No endpoint is named but the relay's and those that clients of the relay can use, and the
  latter take no tokens that the relay has replaced. -/
  endpoints : ∀ name, isEndpoint name = true → (served name).isSome = true →
    name ∈ relayClientEndpoints ∧
      (relay.refreshTokens.mode ≠ .passthrough → name ∉ upstreamTokenManagementMetadata)

section Truth

variable {server : Server} {relay : Relay parse rules}

/-- What is listed of the members that are the relay's own. -/
theorem listed_describeRelay (doc : Members) (relay : Relay parse rules) :
    (describeRelay doc relay).listed "response_types_supported" = ["code"] ∧
    (describeRelay doc relay).listed "response_modes_supported" = ["query"] ∧
    (describeRelay doc relay).listed "code_challenge_methods_supported" = ["S256"] ∧
    (describeRelay doc relay).listed "token_endpoint_auth_methods_supported" =
      authMethods relay.clientAuth ∧
    (describeRelay doc relay).listed "grant_types_supported" =
      if refreshGranted doc then ["authorization_code", "refresh_token"]
      else ["authorization_code"] := by
  refine ⟨?_, ?_, ?_, ?_, ?_⟩
  all_goals
    refine listed_of_eq ?_
    rw [describeRelay_eq]
    rfl

theorem listed_scopes {allowed : List String} (restricted : relay.allowedScopes = some allowed)
    (doc : Members) : (describeRelay doc relay).listed "scopes_supported" = allowed := by
  refine listed_of_eq ?_
  have own : ownMember relay (refreshGranted doc) "scopes_supported" =
      relay.allowedScopes.map fun allowed => some (strings allowed) := rfl
  rw [describeRelay_eq, own, restricted]
  rfl

/-- What is true of an authorization request when some pairs have been read. -/
structure AuthorizeRead (request : AuthorizeRequest) (read : Wire.Pairs) : Prop where
  plain : ∀ p ∈ read, (p.1 = "response_type" → p.2 = "code") ∧
    (p.1 = "response_mode" → p.2 = "query") ∧ p.1 ≠ "request" ∧ p.1 ≠ "request_uri"
  codeChallengeMethod : request.codeChallengeMethod = lastValue "code_challenge_method" read
  scope : request.scope = lastValue "scope" read

theorem AuthorizeRead.step {request request' : AuthorizeRequest} {read : Wire.Pairs}
    {p : String × String} (known : AuthorizeRead request read)
    (taken : takeAuthorize request p = some request') : AuthorizeRead request' (read ++ [p]) := by
  have more (plain : (p.1 = "response_type" → p.2 = "code") ∧
      (p.1 = "response_mode" → p.2 = "query") ∧ p.1 ≠ "request" ∧ p.1 ≠ "request_uri") :
      ∀ q ∈ read ++ [p], (q.1 = "response_type" → q.2 = "code") ∧
        (q.1 = "response_mode" → q.2 = "query") ∧ q.1 ≠ "request" ∧ q.1 ≠ "request_uri" := by
    intro q inside
    rcases List.mem_append.mp inside with older | new
    · exact known.plain q older
    · rwa [List.mem_singleton.mp new]
  obtain ⟨method, scope⟩ := known.codeChallengeMethod, known.scope
  obtain ⟨name, value⟩ := p
  unfold takeAuthorize at taken
  dsimp only at taken more
  split at taken
  case h_4 | h_5 =>
    split at taken
    · rename_i value
      cases taken
      exact ⟨more (by simp [value]), by simp [lastValue_append, method],
        by simp [lastValue_append, scope]⟩
    · cases taken
  case h_10 | h_11 => cases taken
  case h_12 =>
    rename_i type mode _ other other' _ no no'
    cases taken
    exact ⟨more ⟨fun same => (type same).elim, fun same => (mode same).elim, no, no'⟩,
      by rw [lastValue_append, if_neg other, method],
      by rw [lastValue_append, if_neg other', scope]⟩
  all_goals
    cases taken
    exact ⟨more (by simp), by simp [lastValue_append, method], by simp [lastValue_append, scope]⟩

/-- A singleton that is read has one value. -/
theorem lastValue_of_mem {form : Wire.FormCodec} {query : Option String}
    {request : AuthorizeRequest} (parsed : parseAuthorizeRequest form query = some request)
    {p : String × String} (inside : p ∈ queryPairs form query)
    (single : p.1 ∈ authorizeSingletons) :
    lastValue p.1 (queryPairs form query) = some p.2 := by
  have here : p ∈ named p.1 (queryPairs form query) :=
    List.mem_filter.mpr ⟨inside, decide_eq_true rfl⟩
  cases last : lastValue p.1 (queryPairs form query) with
  | none =>
      rw [lastValue, Option.map_eq_none_iff, List.getLast?_eq_none_iff] at last
      rw [last] at here
      cases here
  | some value =>
      have once := named_of_singleton (readPairs_eq_some parsed).2.1 (decide_eq_true single) last
      rw [once] at here
      rw [List.mem_singleton.mp here]

theorem authorizeRead_of_parse {form : Wire.FormCodec} {query : Option String}
    {request : AuthorizeRequest} (parsed : parseAuthorizeRequest form query = some request) :
    AuthorizeRead request (queryPairs form query) := by
  have first : AuthorizeRead ⟨⟨none, none, none, none, none, none⟩, []⟩ [] := ⟨nofun, rfl, rfl⟩
  exact foldlM_invariant AuthorizeRead (fun _ _ _ _ known taken => known.step taken) first
    (readPairs_eq_some parsed).1

/-- The method of a challenge is the one that is listed. -/
theorem method_of_authorizeRedirect {request : AuthorizeRequest} {redirect : String}
    (accepted : authorizeRedirect server relay request = .ok redirect) :
    ∀ method, request.codeChallengeMethod = some method → method = "S256" := by
  intro method asked
  unfold authorizeRedirect at accepted
  split at accepted
  · cases accepted
  · split at accepted
    · cases accepted
    · split at accepted
      · cases accepted
      · split at accepted
        · cases accepted
        · rename_i only
          simpa [asked] using only

theorem grant_cases (server : Server) (around : Surroundings parse rules)
    (relay : Relay parse rules) (upstream : Upstream)
    (authenticate : TokenRequest → List (String × String) → Option Codes.OAuthError)
    (headers : List (String × String)) {body : List UInt8} {form : TokenRequest}
    (parsed : parseTokenRequest server.form body = some form)
    (accepted : authenticate form headers = none) :
    form.grant = "authorization_code" ∨ form.grant = "refresh_token" ∨
      token server around relay upstream authenticate headers body =
        .refused unsupportedGrantType := by
  unfold token
  rw [parsed]
  dsimp only
  rw [accepted]
  dsimp only
  split
  · rename_i grant
    exact .inl grant
  · rename_i grant
    exact .inr (.inl grant)
  · exact .inr (.inr rfl)

theorem scopeRejection_ne {form : TokenRequest} {error : Codes.OAuthError}
    (rejected : scopeRejection relay form = some error) : error ≠ unsupportedGrantType := by
  unfold scopeRejection at rejected
  split at rejected
  · cases rejected
    decide
  · cases rejected

/-- No refresh is refused for being one. -/
theorem refresh_ne (server : Server) (around : Surroundings parse rules)
    (relay : Relay parse rules) (upstream : Upstream) (form : TokenRequest) :
    refresh server around relay upstream form ≠ .refused unsupportedGrantType := by
  have differs {error : Codes.OAuthError} (other : error ≠ unsupportedGrantType) :
      RefreshPlan.refused error ≠ .refused unsupportedGrantType :=
    fun same => other (RefreshPlan.refused.inj same)
  unfold refresh
  split
  · exact differs (by decide)
  · dsimp only
    split
    · split
      · exact differs (by decide)
      · split
        · rename_i rejected
          exact differs (scopeRejection_ne rejected)
        · nofun
    · split
      · exact differs (by decide)
      · exact differs (by decide)
      · split
        · rename_i rejected
          exact differs (scopeRejection_ne rejected)
        · nofun
    · split
      · exact differs (by decide)
      · split
        · rename_i rejected
          exact differs (scopeRejection_ne rejected)
        · nofun

theorem token_ne {around : Surroundings parse rules} {upstream : Upstream}
    {authenticate : TokenRequest → List (String × String) → Option Codes.OAuthError}
    {headers : List (String × String)} {body : List UInt8} {form : TokenRequest}
    (parsed : parseTokenRequest server.form body = some form)
    (accepted : authenticate form headers = none)
    (known : form.grant = "authorization_code" ∨ form.grant = "refresh_token") :
    token server around relay upstream authenticate headers body ≠
      .refused unsupportedGrantType := by
  unfold token
  rw [parsed]
  dsimp only
  rw [accepted]
  dsimp only
  split
  · nofun
  · exact refresh_ne _ _ _ _ _
  · rename_i other other'
    rcases known with same | same
    · exact (other same).elim
    · exact (other' same).elim

theorem uses_of_authenticates {lib : Encodings}
    {verifyPrivateKeyJwt : PrivateKeyJwt → String → Bool} {upstream : Upstream}
    {clientAuth : ClientAuth} {authorization : List (List UInt8)} {form : TokenRequest}
    (shown : Credentials.Authenticates lib authorization form verifyPrivateKeyJwt upstream
      clientAuth) : ∃ method ∈ authMethods clientAuth, Uses lib authorization form method := by
  have password {id secret : String} {viaHeader : Bool}
      (presents : Credentials.Presents lib authorization form id secret viaHeader) :
      ∃ method ∈ ["client_secret_basic", "client_secret_post"],
        Uses lib authorization form method := by
    cases viaHeader with
    | true => exact ⟨_, List.mem_cons_self .., .basic presents⟩
    | false => exact ⟨_, List.mem_cons_of_mem _ (List.mem_cons_self ..), .post presents⟩
  cases shown with
  | upstreamClient presents => exact password presents
  | isPublic presents => exact ⟨_, List.mem_cons_self .., .nothing presents⟩
  | clientSecret presents => exact password presents
  | privateKeyJwt _ _ there _ => exact ⟨_, List.mem_cons_self .., .assertion there⟩

/-- A form with nothing in it. -/
def bareForm : TokenRequest := { grant := "", pairs := [] }

/-- **Credentials can be presented in a header and in a form.** -/
theorem exists_presents (lib : Encodings) (id secret : String) (viaHeader : Bool) :
    ∃ authorization form, Credentials.Presents lib authorization form id secret viaHeader := by
  cases viaHeader with
  | true =>
      obtain ⟨value, -, written⟩ := Credentials.parse_basicAuthorization id secret
      exact ⟨[value], bareForm, .header rfl written nofun ⟨rfl, rfl, rfl⟩⟩
  | false =>
      exact ⟨[], { bareForm with clientId := some id, clientSecret := some secret },
        .body (Nat.zero_le 1) nofun⟩

theorem exists_uses {lib : Encodings} {verifyPrivateKeyJwt : PrivateKeyJwt → String → Bool}
    {upstream : Upstream} {clientAuth : ClientAuth}
    (assertions : ∀ jwt, clientAuth = .privateKeyJwt jwt →
      ∃ assertion, verifyPrivateKeyJwt jwt assertion = true)
    {method : String} (listed : method ∈ authMethods clientAuth) :
    ∃ authorization form, Uses lib authorization form method ∧
      Credentials.Authenticates lib authorization form verifyPrivateKeyJwt upstream clientAuth := by
  have password (id secret : String)
      (listed : method ∈ ["client_secret_basic", "client_secret_post"]) :
      ∃ authorization form viaHeader, Uses lib authorization form method ∧
        Credentials.Presents lib authorization form id secret viaHeader := by
    simp only [List.mem_cons, List.not_mem_nil, or_false] at listed
    rcases listed with rfl | rfl
    · obtain ⟨authorization, form, presents⟩ := exists_presents lib id secret true
      exact ⟨authorization, form, true, .basic presents, presents⟩
    · obtain ⟨authorization, form, presents⟩ := exists_presents lib id secret false
      exact ⟨authorization, form, false, .post presents, presents⟩
  cases clientAuth with
  | upstreamClient =>
      obtain ⟨authorization, form, _, uses, presents⟩ :=
        password upstream.clientId upstream.clientSecret listed
      exact ⟨authorization, form, uses, .upstreamClient presents⟩
  | clientSecret clientId clientSecret =>
      obtain ⟨authorization, form, _, uses, presents⟩ := password clientId clientSecret listed
      exact ⟨authorization, form, uses, .clientSecret presents⟩
  | isPublic =>
      obtain rfl := List.mem_singleton.mp listed
      have nothing : Credentials.PresentsNothing lib [] bareForm :=
        ⟨⟨rfl, rfl, rfl⟩, fun _ header => absurd header List.not_mem_nil⟩
      exact ⟨[], bareForm, .nothing nothing, .isPublic nothing⟩
  | privateKeyJwt jwt =>
      obtain rfl := List.mem_singleton.mp listed
      obtain ⟨assertion, verified⟩ := assertions jwt rfl
      exact ⟨[], { bareForm with
          clientId := some jwt.clientId
          clientAssertionType := some Assertions.jwtBearer
          clientAssertion := some assertion },
        .assertion rfl, .privateKeyJwt rfl rfl rfl verified⟩

theorem endpoints_describeRelay (doc : Members) (relay : Relay parse rules) {name : String}
    (endpoint : isEndpoint name = true) (there : (describeRelay doc relay name).isSome = true) :
    name ∈ relayClientEndpoints ∧
      (relay.refreshTokens.mode ≠ .passthrough → name ∉ upstreamTokenManagementMetadata) := by
  have foreign : name ∉ ownNames := by
    intro own
    have plain : (ownNames.all fun name => !isEndpoint name) = true := by decide +kernel
    have none := List.all_eq_true.mp plain name own
    rw [endpoint] at none
    cases none
  rw [describeRelay_eq, ownMember_of_not_mem relay _ foreign, Option.getD_none] at there
  split at there
  · cases there
  · rename_i kept
    simp only [leftOut, keepsName, endpoint] at kept
    simp at kept
    exact ⟨kept.1.2, kept.2⟩

/-- **What describes a relay is true of it**, whatever the upstream says. -/
theorem truthful_describeRelay (lib : Encodings)
    (verifyPrivateKeyJwt : PrivateKeyJwt → String → Bool) (server : Server)
    (around : Surroundings parse rules) (relay : Relay parse rules) (upstream : Upstream)
    (doc : Members) :
    Truthful lib verifyPrivateKeyJwt server around relay upstream (describeRelay doc relay) := by
  obtain ⟨types, modes, challenges, methods, grants⟩ := listed_describeRelay doc relay
  refine ⟨?_, ?_, ?_, ?_, ?_, fun _ => endpoints_describeRelay doc relay⟩
  · intro verifier nonce query location dispatched p inside
    unfold dispatchAuthorize at dispatched
    split at dispatched
    · cases dispatched
    · split at dispatched
      · cases dispatched
      · rename_i request parsed
        obtain ⟨plain, method, scope⟩ := authorizeRead_of_parse parsed
        obtain ⟨redirect, accepted, dispatched⟩ := Memo.bind_eq_ok.mp dispatched
        obtain ⟨sent, granted, -⟩ := Memo.bind_eq_ok.mp dispatched
        obtain ⟨type, mode, noRequest, noUri⟩ := plain p inside
        refine ⟨fun same => ?_, fun same => ?_, fun same => ?_, fun same restricted => ?_,
          fun same => absurd same noRequest, fun same => absurd same noUri⟩
        · rw [types, type same]
          exact List.mem_cons_self ..
        · rw [modes, mode same]
          exact List.mem_cons_self ..
        · have value := lastValue_of_mem parsed inside (by rw [same]; decide)
          rw [same, ← method] at value
          rw [challenges, method_of_authorizeRedirect accepted _ value]
          exact List.mem_cons_self ..
        · have value := lastValue_of_mem parsed inside (by rw [same]; decide)
          rw [same, ← scope] at value
          obtain ⟨allowed, restricted⟩ := Option.isSome_iff_exists.mp restricted
          rw [listed_scopes restricted]
          rw [value, authorizeScope] at granted
          split at granted
          · rename_i accepted
            exact tokens_of_scopeAllowed accepted restricted
          · cases granted
  · intro authenticate headers body form parsed accepted
    rcases grant_cases server around relay upstream authenticate headers parsed accepted with
      code | rest
    · refine .inl ?_
      rw [grants, code]
      split <;> exact List.mem_cons_self ..
    · exact .inr rest
  · intro authenticate headers body form parsed accepted listed
    refine token_ne parsed accepted ?_
    rw [grants] at listed
    split at listed
    · simpa using listed
    · exact .inl (List.mem_singleton.mp listed)
  · intro authorization form accepted
    rw [methods]
    exact uses_of_authenticates (Credentials.authenticate_eq_ok_iff.mp accepted)
  · intro assertions method listed
    rw [methods] at listed
    obtain ⟨authorization, form, uses, shown⟩ := exists_uses assertions listed
    exact ⟨authorization, form, uses, Credentials.authenticate_eq_ok_iff.mpr shown⟩

end Truth

/-- An upstream with a registration endpoint, which is of no use to a client of the relay. -/
def sampleFetched : Fetched where
  required := .error 502
  optional := .ok (some (.object [("registration_endpoint", .string "https://issuer/register"),
    ("userinfo_endpoint", .string "https://issuer/userinfo")]))

end OAuthRelay.Upstreams
