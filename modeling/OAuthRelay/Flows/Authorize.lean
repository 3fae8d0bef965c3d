import OAuthRelay.Codes.Separation
import OAuthRelay.Config.Checks
import OAuthRelay.Flows.Requests
import OAuthRelay.Redirects.Loopback

/-!
# Authorization requests

The authorization endpoint of a relay takes the request of an application and makes a request to
the upstream of it. Some parameters of the second request are the relay's own: it identifies
itself, names its own callback, puts the flow under seal into the state and adds a challenge of
its own. Whatever else the application has sent goes on to the upstream.

Both requests are forms. The first is read as pairs, so it does not matter how the application
has encoded a name. The second is appended to the query of the upstream's endpoint. What the
upstream reads is the query of its endpoint, the relay's parameters and the other parameters of
the application, in this order (`Sent.decoded`). So it reads every parameter of the relay once
(`authorize_owns_parameters`).
-/

set_option autoImplicit false

namespace OAuthRelay.Flows

open Codes (Bytes FlowEnvelope ResourceKey)
open Config (Rules Upstream validScopeToken)
open Redirects (Parser Relay)
open Wire (FormCodec Pairs)

/-! ## The request -/

/-- A request to the authorization endpoint, with the pairs that go on to the upstream. -/
structure AuthorizeRequest extends Codes.AuthorizeRequest where
  forwarded : Pairs

def authorizeSingletons : List String :=
  ["redirect_uri", "state", "client_id", "response_type", "response_mode", "code_challenge",
    "code_challenge_method", "scope", "nonce", "prompt", "login_hint", "request", "request_uri"]

def takeAuthorize (request : AuthorizeRequest) (p : String × String) : Option AuthorizeRequest :=
  let forward := request.forwarded ++ [p]
  match p.1 with
  | "redirect_uri" => some { request with redirectUri := some p.2 }
  | "state" => some { request with state := some p.2 }
  | "client_id" => some request
  | "response_type" => if p.2 = "code" then some request else none
  | "response_mode" => if p.2 = "query" then some { request with forwarded := forward } else none
  | "code_challenge" => some { request with codeChallenge := some p.2 }
  | "code_challenge_method" => some { request with codeChallengeMethod := some p.2 }
  | "scope" => some { request with scope := some p.2 }
  | "nonce" => some { request with idTokenNonce := some p.2, forwarded := forward }
  | "request" | "request_uri" => none
  | _ => some { request with forwarded := forward }

def parseAuthorizeRequest (form : FormCodec) (query : Option String) : Option AuthorizeRequest :=
  readPairs (· ∈ authorizeSingletons) takeAuthorize []
    ⟨⟨none, none, none, none, none, none⟩, []⟩ (queryPairs form query)

variable {parse : Parser} {rules : Rules}

/-- The tokens of a scope. -/
def scopeTokens (scope : String) : List String := (scope.toList.splitOn ' ').map String.ofList

def scopeAllowed (relay : Relay parse rules) (scope : String) : Bool :=
  let scopes := scopeTokens scope
  if scopes.isEmpty || scopes.any (!validScopeToken ·) then false
  else relay.allowedScopes.all fun allowed => scopes.all (· ∈ allowed)

/-! ## The endpoint -/

/-- The checks of `authorize`, and the redirect that has passed them. -/
def authorizeRedirect (server : Server) (relay : Relay parse rules) (query : AuthorizeRequest) :
    Except ℕ String :=
  if rotationStoreMissing server relay then .error 500
  else
    match query.redirectUri with
    | none => .error 400
    | some redirect =>
        if !Redirects.redirectAllowed relay redirect server.redirect then .error 400
        else if query.codeChallengeMethod.any (· ≠ "S256") then .error 400
        else if query.codeChallenge.isNone && query.codeChallengeMethod.isSome then .error 400
        else if (relay.clientAuth matches .isPublic) && query.codeChallenge.isNone then .error 400
        else if query.codeChallenge.any (!Codes.validPkceChallenge ·) then .error 400
        else .ok redirect

/-- The scope that is sent upstream. -/
def authorizeScope (relay : Relay parse rules) : Option String → Except ℕ (Option String)
  | some scope => if scopeAllowed relay scope then .ok (some scope) else .error 400
  | none => if relay.scopes.isEmpty then .ok none else .ok (some (" ".intercalate relay.scopes))

/-- The parameters that the relay sends. -/
structure Parameters where
  clientId : String
  redirectUri : String
  state : String
  codeChallenge : String
  scope : Option String

def Parameters.required (params : Parameters) : Pairs :=
  [("response_type", "code"), ("client_id", params.clientId), ("redirect_uri", params.redirectUri),
    ("state", params.state), ("code_challenge", params.codeChallenge),
    ("code_challenge_method", "S256")]

def Parameters.pairs (params : Parameters) : Pairs :=
  params.required ++ (params.scope.map fun scope => ("scope", scope)).toList

/-- `authorize`. The verifier and the nonce are random. -/
def authorize (server : Server) (around : Surroundings parse rules) (relay : Relay parse rules)
    (upstream : Upstream) (verifier : String) (nonce : Bytes 16) (query : AuthorizeRequest) :
    Except ℕ String := do
  let redirect ← authorizeRedirect server relay query
  let scope ← authorizeScope relay query.scope
  let endpoints ← resolveEndpoints around upstream
  let sealedFlow ← sealPostcard around FlowEnvelope.codec upstream.key
    { relayKey := relay.key.value
      appRedirectUri := redirect
      appState := query.state
      upstreamPkceVerifier := verifier
      clientCodeChallenge := query.codeChallenge
      clientCodeChallengeMethod := query.codeChallenge.map fun _ => "S256"
      idTokenNonce := query.idTokenNonce
      issuedAt := around.now
      nonce := nonce }
  let params : Parameters :=
    { clientId := upstream.clientId
      redirectUri := server.callbackUrl upstream.key
      state := sealedFlow
      codeChallenge := server.pkceChallenge verifier
      scope := scope }
  let pairs := params.pairs ++ query.forwarded
  found server (server.urls.appendPairs endpoints.authorizationEndpoint pairs).asStr

/-- `dispatch` of an authorization request, after its relay and upstream have been found. -/
def dispatchAuthorize (server : Server) (around : Surroundings parse rules)
    (relay : Relay parse rules) (upstream : Upstream) (verifier : String) (nonce : Bytes 16)
    (query : Option String) : Except ℕ String :=
  match relay.validateFor server.redirect.allowHttpOrigins with
  | .error _ => .error 500
  | .ok () =>
      match parseAuthorizeRequest server.form query with
      | none => .error 400
      | some request => authorize server around relay upstream verifier nonce request

/-! ## What is claimed -/

/-- The parameters that are the relay's own. -/
def ownedNames : List String :=
  ["response_type", "client_id", "redirect_uri", "state", "code_challenge",
    "code_challenge_method", "scope"]

/-- The pairs of a name. -/
def named (name : String) (pairs : Pairs) : Pairs := pairs.filter fun p => p.1 = name

/-- What an upstream reads out of a location that its endpoint has been made into. -/
structure Sent (form : FormCodec) (endpoint : Config.Url) (params : Parameters) (asked : Pairs)
    (location : String) : Prop where
  /-- The query of the endpoint, the relay's parameters and what else was asked. -/
  decoded : form.decode (queryText location.toList) =
    form.decode (queryText endpoint.asStr.toList) ++ params.pairs ++
      asked.filter fun p => p.1 ∉ ownedNames
  before : beforeQuery location.toList = beforeQuery endpoint.asStr.toList
  once : ∀ p ∈ params.required, named p.1 (form.decode (queryText endpoint.asStr.toList)) = [] →
    named p.1 (form.decode (queryText location.toList)) = [p]
  scope : named "scope" (form.decode (queryText endpoint.asStr.toList)) = [] →
    named "scope" (form.decode (queryText location.toList)) =
      (params.scope.map fun scope => ("scope", scope)).toList
  others : ∀ name, name ∉ ownedNames → named name (form.decode (queryText location.toList)) =
    named name (form.decode (queryText endpoint.asStr.toList)) ++ named name asked
  noRequest : ∀ name ∈ ["request", "request_uri"],
    named name (form.decode (queryText endpoint.asStr.toList)) = [] →
    named name (form.decode (queryText location.toList)) = []

/-- The values are the relay's own, and the scope is one that it allows. -/
structure Parameters.Own (params : Parameters) (server : Server)
    (around : Surroundings parse rules) (relay : Relay parse rules) (upstream : Upstream)
    (verifier : String) (asked : Pairs) : Prop where
  clientId : params.clientId = upstream.clientId
  redirectUri : params.redirectUri = server.callbackUrl upstream.key
  state : ∃ flow : FlowEnvelope, flow.relayKey = relay.key.value ∧
    flow.upstreamPkceVerifier = verifier ∧
    sealPostcard around FlowEnvelope.codec upstream.key flow = .ok params.state
  codeChallenge : params.codeChallenge = server.pkceChallenge verifier
  scope : ∀ scope, params.scope = some scope → ("scope", scope) ∈ asked ∨
    named "scope" asked = [] ∧ scope = " ".intercalate relay.scopes
  allowed : ∀ scope, params.scope = some scope → ∀ allowed, relay.allowedScopes = some allowed →
    ∀ token ∈ scopeTokens scope, token ∈ allowed

/-! ## What is forwarded -/

/-- What is true of a request when some pairs have been read. -/
structure Reads (request : AuthorizeRequest) (read : Pairs) : Prop where
  forwarded : request.forwarded = read.filter fun p => p.1 ∉ ownedNames
  noRequest : ∀ p ∈ read, p.1 ∉ ["request", "request_uri"]
  scope : ∀ scope, request.scope = some scope → ("scope", scope) ∈ read
  noScope : request.scope = none → named "scope" read = []

/-- A pair that is read changes the request in one of three ways. -/
theorem takeAuthorize_eq_some {request request' : AuthorizeRequest} {p : String × String}
    (taken : takeAuthorize request p = some request') : p.1 ∉ ["request", "request_uri"] ∧
      (p.1 = "scope" ∧ request'.scope = some p.2 ∨
        p.1 ≠ "scope" ∧ request'.scope = request.scope) ∧
      (p.1 ∈ ownedNames ∧ request'.forwarded = request.forwarded ∨
        p.1 ∉ ownedNames ∧ request'.forwarded = request.forwarded ++ [p]) := by
  obtain ⟨name, value⟩ := p
  unfold takeAuthorize at taken
  dsimp only at taken ⊢
  split at taken
  case h_4 | h_5 =>
    split at taken
    · cases taken
      exact ⟨by decide, .inr ⟨by decide, rfl⟩, by simp [ownedNames]⟩
    · cases taken
  case h_8 =>
    cases taken
    exact ⟨by decide, .inl ⟨rfl, rfl⟩, .inl ⟨by decide, rfl⟩⟩
  case h_10 | h_11 => cases taken
  case h_12 =>
    rename_i redirect state client type mode challenge method scope nonce request requestUri
    cases taken
    refine ⟨by simpa using ⟨request, requestUri⟩, .inr ⟨scope, rfl⟩, .inr ⟨?_, rfl⟩⟩
    simpa [ownedNames] using ⟨type, client, redirect, state, challenge, method, scope⟩
  all_goals
    cases taken
    exact ⟨by decide, .inr ⟨by decide, rfl⟩, by simp [ownedNames]⟩

theorem named_append (name : String) (front back : Pairs) :
    named name (front ++ back) = named name front ++ named name back :=
  List.filter_append ..

theorem Reads.step {request request' : AuthorizeRequest} {read : Pairs} {p : String × String}
    (reads : Reads request read) (taken : takeAuthorize request p = some request') :
    Reads request' (read ++ [p]) := by
  obtain ⟨plain, scopes, forwarded⟩ := takeAuthorize_eq_some taken
  refine ⟨?_, ?_, ?_, ?_⟩
  · rw [List.filter_append, ← reads.forwarded]
    rcases forwarded with ⟨owned, same⟩ | ⟨other, same⟩
    · rw [same, List.filter_cons_of_neg (by simpa using owned), List.filter_nil, List.append_nil]
    · rw [same, List.filter_cons_of_pos (by simpa using other), List.filter_nil]
  · intro q inside
    rcases List.mem_append.mp inside with inside | inside
    · exact reads.noRequest q inside
    · rwa [List.mem_singleton.mp inside]
  · intro scope has
    refine List.mem_append.mpr ?_
    rcases scopes with ⟨name, same⟩ | ⟨-, same⟩
    · refine .inr (List.mem_singleton.mpr ?_)
      rw [same] at has
      exact Prod.ext name.symm (Option.some.inj has).symm
    · exact .inl (reads.scope scope (same.symm.trans has))
  · intro has
    rcases scopes with ⟨-, same⟩ | ⟨other, same⟩
    · rw [same] at has
      cases has
    · rw [named_append, reads.noScope (same.symm.trans has)]
      simp [named, other]

/-- **What is forwarded are the pairs that are not the relay's own**, and a request object is not
accepted. -/
theorem reads_of_parse {form : FormCodec} {query : Option String} {request : AuthorizeRequest}
    (parsed : parseAuthorizeRequest form query = some request) :
    Reads request (queryPairs form query) := by
  have first : Reads ⟨⟨none, none, none, none, none, none⟩, []⟩ [] :=
    ⟨rfl, nofun, nofun, fun _ => rfl⟩
  exact foldlM_invariant Reads (fun _ _ _ _ reads taken => reads.step taken) first
    (readPairs_eq_some parsed).1

/-! ## Scopes -/

theorem tokens_of_scopeAllowed {relay : Relay parse rules} {scope : String}
    (accepted : scopeAllowed relay scope = true) {allowed : List String}
    (restricted : relay.allowedScopes = some allowed) :
    ∀ token ∈ scopeTokens scope, token ∈ allowed := by
  unfold scopeAllowed at accepted
  dsimp only at accepted
  split at accepted
  · cases accepted
  · rw [restricted, Option.all_some] at accepted
    simpa using accepted

theorem space_not_mem_of_validScopeToken {scope : String} (valid : validScopeToken scope = true) :
    ' ' ∉ scope.toList := by
  intro inside
  have plain := List.all_eq_true.mp (Bool.and_eq_true_iff.mp valid).2 ' ' inside
  exact absurd plain (by decide)

/-- The tokens of scopes that are joined are the scopes. -/
theorem scopeTokens_intercalate {scopes : List String} (nonempty : scopes ≠ [])
    (valid : ∀ scope ∈ scopes, validScopeToken scope = true) :
    scopeTokens (" ".intercalate scopes) = scopes := by
  have plain : ∀ text ∈ scopes.map String.toList, ' ' ∉ text := by
    intro text inside
    obtain ⟨scope, member, rfl⟩ := List.mem_map.mp inside
    exact space_not_mem_of_validScopeToken (valid scope member)
  have separator : " ".toList = [' '] := rfl
  rw [scopeTokens, String.toList_intercalate, separator,
    List.splitOn_intercalate ' ' plain (mt List.map_eq_nil_iff.mp nonempty), List.map_map]
  simp [Function.comp_def]

theorem valid_of_checkScopes {field : String} {scopes : List String} {u : Unit}
    (checked : Config.checkScopes field scopes = .ok u) :
    ∀ scope ∈ scopes, validScopeToken scope = true := by
  intro scope member
  have passed := Config.ok_of_checkDistinct checked scope member
  by_contra invalid
  rw [if_neg invalid] at passed
  cases passed

/-- **The scope that is sent has been asked for and is allowed, or is the relay's default.** -/
theorem scope_of_authorizeScope {relay : Relay parse rules} (checked : relay.Checked)
    {requested : Option String} {scope : String}
    (accepted : authorizeScope relay requested = .ok (some scope)) :
    (requested = some scope ∨ requested = none ∧ scope = " ".intercalate relay.scopes) ∧
      ∀ allowed, relay.allowedScopes = some allowed →
        ∀ token ∈ scopeTokens scope, token ∈ allowed := by
  cases requested with
  | some requested =>
      rw [authorizeScope] at accepted
      split at accepted
      · rename_i isAllowed
        cases accepted
        exact ⟨.inl rfl, fun allowed restricted => tokens_of_scopeAllowed isAllowed restricted⟩
      · cases accepted
  | none =>
      rw [authorizeScope] at accepted
      split at accepted
      · cases accepted
      · rename_i nonempty
        cases accepted
        refine ⟨.inr ⟨rfl, rfl⟩, fun allowed restricted token inside => ?_⟩
        rw [scopeTokens_intercalate (by simpa using nonempty)
          (valid_of_checkScopes checked.scopes)] at inside
        exact checked.allowed allowed restricted token inside

/-! ## What is sent -/

theorem named_forwarded_of_mem {name : String} (owned : name ∈ ownedNames) (asked : Pairs) :
    named name (asked.filter fun p => p.1 ∉ ownedNames) = [] := by
  refine List.filter_eq_nil_iff.mpr fun p inside same => ?_
  rw [← of_decide_eq_true same] at owned
  exact of_decide_eq_true (List.mem_filter.mp inside).2 owned

theorem named_forwarded_of_not_mem {name : String} (other : name ∉ ownedNames) (asked : Pairs) :
    named name (asked.filter fun p => p.1 ∉ ownedNames) = named name asked := by
  rw [named, List.filter_filter]
  refine List.filter_congr fun p _ => ?_
  by_cases same : p.1 = name
  · simp [same, other]
  · simp [same]

/-- Every parameter is there once. -/
theorem named_pairs {params : Parameters} {p : String × String} (inside : p ∈ params.required) :
    p.1 ∈ ownedNames ∧ named p.1 params.pairs = [p] := by
  have scoped' : ∀ name, name ≠ "scope" →
      named name (params.scope.map fun scope => ("scope", scope)).toList = [] := by
    intro name other
    cases params.scope with
    | none => rfl
    | some scope => simp [named, other.symm]
  have first (name : String) (other : name ≠ "scope") :
      named name params.pairs = named name params.required := by
    rw [Parameters.pairs, named_append, scoped' name other, List.append_nil]
  simp only [Parameters.required, List.mem_cons, List.not_mem_nil, or_false] at inside
  rcases inside with rfl | rfl | rfl | rfl | rfl | rfl
  all_goals
    dsimp only
    refine ⟨by decide, (first _ (by decide)).trans ?_⟩
    simp [named, Parameters.required]

theorem named_pairs_scope (params : Parameters) : named "scope" params.pairs =
    (params.scope.map fun scope => ("scope", scope)).toList := by
  have required : named "scope" params.required = [] := by simp [named, Parameters.required]
  rw [Parameters.pairs, named_append, required, List.nil_append]
  cases params.scope with
  | none => rfl
  | some scope => simp [named]

theorem named_pairs_of_not_mem {params : Parameters} {name : String} (other : name ∉ ownedNames) :
    named name params.pairs = [] := by
  refine List.filter_eq_nil_iff.mpr fun p inside same => other ?_
  rw [← of_decide_eq_true same]
  rcases List.mem_append.mp inside with inside | inside
  · exact (named_pairs inside).1
  · obtain ⟨scope, -, rfl⟩ := Option.map_eq_some_iff.mp (Option.mem_toList.mp inside)
    dsimp only
    decide

/-- **An upstream reads the relay's parameters once, and the others as they were asked.** -/
theorem sent_of_decoded {form : FormCodec} {endpoint : Config.Url} {params : Parameters}
    {asked : Pairs} {location : String}
    (decoded : form.decode (queryText location.toList) =
      form.decode (queryText endpoint.asStr.toList) ++ params.pairs ++
        asked.filter fun p => p.1 ∉ ownedNames)
    (before : beforeQuery location.toList = beforeQuery endpoint.asStr.toList)
    (noRequest : ∀ p ∈ asked, p.1 ∉ ["request", "request_uri"]) :
    Sent form endpoint params asked location := by
  have others : ∀ name, name ∉ ownedNames →
      named name (form.decode (queryText location.toList)) =
        named name (form.decode (queryText endpoint.asStr.toList)) ++ named name asked := by
    intro name other
    rw [decoded, named_append, named_append, named_pairs_of_not_mem other,
      named_forwarded_of_not_mem other, List.append_nil]
  refine ⟨decoded, before, ?_, ?_, others, ?_⟩
  · intro p inside absent
    obtain ⟨owned, once⟩ := named_pairs inside
    rw [decoded, named_append, named_append, absent, once, named_forwarded_of_mem owned]
    rfl
  · intro absent
    rw [decoded, named_append, named_append, absent, named_pairs_scope,
      named_forwarded_of_mem (by decide), List.nil_append, List.append_nil]
  · intro name request absent
    have other : name ∉ ownedNames := by
      simp only [List.mem_cons, List.not_mem_nil, or_false] at request
      rcases request with rfl | rfl <;> decide
    rw [others name other, absent, List.nil_append]
    refine List.filter_eq_nil_iff.mpr fun p inside same => noRequest p inside ?_
    rwa [of_decide_eq_true same]

/-- **The relay owns its authorization parameters.** -/
theorem authorize_owns_parameters (server : Server) (around : Surroundings parse rules)
    (relay : Relay parse rules) (upstream : Upstream) (verifier : String) (nonce : Bytes 16)
    (query : Option String) (location : String)
    (accepted : dispatchAuthorize server around relay upstream verifier nonce query =
      .ok location) :
    ∃ endpoints params, resolveEndpoints around upstream = .ok endpoints ∧
      params.Own server around relay upstream verifier (queryPairs server.form query) ∧
      Sent server.form endpoints.authorizationEndpoint params (queryPairs server.form query)
        location := by
  unfold dispatchAuthorize at accepted
  split at accepted
  · cases accepted
  · rename_i valid
    split at accepted
    · cases accepted
    · rename_i request parsed
      have reads := reads_of_parse parsed
      obtain ⟨redirect, -, accepted⟩ := Memo.bind_eq_ok.mp accepted
      obtain ⟨scope, scopes, accepted⟩ := Memo.bind_eq_ok.mp accepted
      obtain ⟨endpoints, resolved, accepted⟩ := Memo.bind_eq_ok.mp accepted
      obtain ⟨sealedFlow, opens, accepted⟩ := Memo.bind_eq_ok.mp accepted
      obtain rfl := eq_of_found accepted
      have allowed (scope' : String) (same : scope = some scope') :=
        scope_of_authorizeScope (Config.Relay.checked_of_validateFor valid) (same ▸ scopes)
      let params : Parameters := ⟨upstream.clientId, server.callbackUrl upstream.key, sealedFlow,
        server.pkceChallenge verifier, scope⟩
      refine ⟨endpoints, params, resolved, ⟨rfl, rfl, ⟨_, rfl, rfl, opens⟩, rfl, ?_, ?_⟩,
        sent_of_decoded ?_ (server.urls.before _ _) reads.noRequest⟩
      · intro scope' same
        rcases (allowed scope' same).1 with requested | ⟨missing, default⟩
        · exact .inl (reads.scope scope' requested)
        · exact .inr ⟨reads.noScope missing, default⟩
      · exact fun scope' same => (allowed scope' same).2
      · rw [server.urls.decode, reads.forwarded, List.append_assoc]

/-- Surroundings with a sealer that always answers the same. -/
def sampleSurroundings : Surroundings Redirects.loopbackParse Config.plainRules where
  sealBytes _ _ := .ok "sealed"
  unsealBytes _ _ := .error .invalidEnvelope
  resolveRelay _ := .ok none
  discovery := .error 502
  fingerprint _ _ := Codes.zeroBytes 32
  now := 1700000000

/-- A request with a name that is encoded in an odd way and a parameter that is repeated. -/
theorem authorize_owns_parameters_odd : ∃ location endpoints params,
    resolveEndpoints sampleSurroundings sampleUpstream = .ok endpoints ∧
    params.Own sampleServer sampleSurroundings (Redirects.loopbackRelay "http://127.0.0.1/cb")
      sampleUpstream "verifier" (queryPairs sampleServer.form
        (some "redirect_uri=http://127.0.0.1/cb&st%61te=s&x=1&x=2")) ∧
    Sent sampleServer.form endpoints.authorizationEndpoint params (queryPairs sampleServer.form
      (some "redirect_uri=http://127.0.0.1/cb&st%61te=s&x=1&x=2")) location :=
  ⟨"https://issuer/authorize?a=b&response_type=code&client_id=id&" ++
      "redirect_uri=https%3A%2F%2Frelay%2Fupstream%2Fapp%2Fcallback&state=sealed&" ++
      "code_challenge=hash-verifier&code_challenge_method=S256&x=1&x=2",
    authorize_owns_parameters sampleServer sampleSurroundings
      (Redirects.loopbackRelay "http://127.0.0.1/cb") sampleUpstream "verifier"
      (Codes.zeroBytes 16)
      (some "redirect_uri=http://127.0.0.1/cb&st%61te=s&x=1&x=2") _
      (by decide +kernel)⟩

end OAuthRelay.Flows
