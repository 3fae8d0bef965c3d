import OAuthRelay.Binding.Fleet
import OAuthRelay.Flows.Authorize
import OAuthRelay.Flows.Callback
import OAuthRelay.Routes.Layout

/-!
# Refresh requests

The token endpoint authenticates the client of a relay, and sends a refresh request of its own to
the token endpoint of the upstream, as the upstream's client. The form goes on as it is, with two
exceptions. The four parameters that a client authenticates with are taken out, and where the
relay has handed out a handle, the upstream's token stands in its place. The credentials of the
upstream's client are added to the form or to the headers, as it is configured.

So what is sent upstream has the credentials of one side only (`OwnCredentials`), and does not
depend on those of the other (`credentials_never_mix`). The same is true of the request with which
a callback redeems a code.
-/

set_option autoImplicit false

namespace OAuthRelay.Flows

open Binding (Sealing hasHandlePrefix refreshHandle)
open Codes (FlowEnvelope HandleBinding HandleError OAuthError invalidGrant rotationStoreRequired
  sealerUnavailable)
open Config (Rules TokenEndpointAuthMethod Upstream)
open Redirects (Parser Relay)
open Wire (FormCodec Pairs)

/-! ## The request -/

/-- What has been read of a token request. -/
structure TokenFields where
  grantType : Option String := none
  code : Option String := none
  refreshToken : Option String := none
  redirectUri : Option String := none
  clientId : Option String := none
  clientSecret : Option String := none
  codeVerifier : Option String := none
  scope : Option String := none
  clientAssertionType : Option String := none
  clientAssertion : Option String := none
  deriving DecidableEq

/-- A token request, with all of its pairs. -/
structure TokenRequest extends TokenFields where
  grant : String
  pairs : Pairs
  deriving DecidableEq

def tokenSingletons : List String :=
  ["grant_type", "code", "refresh_token", "redirect_uri", "client_id", "client_secret",
    "code_verifier", "scope", "client_assertion_type", "client_assertion"]

def takeToken (fields : TokenFields) (p : String × String) : Option TokenFields :=
  match p.1 with
  | "grant_type" => some { fields with grantType := some p.2 }
  | "code" => some { fields with code := some p.2 }
  | "refresh_token" => some { fields with refreshToken := some p.2 }
  | "redirect_uri" => some { fields with redirectUri := some p.2 }
  | "client_id" => some { fields with clientId := some p.2 }
  | "client_secret" => some { fields with clientSecret := some p.2 }
  | "code_verifier" => some { fields with codeVerifier := some p.2 }
  | "scope" => some { fields with scope := some p.2 }
  | "client_assertion_type" => some { fields with clientAssertionType := some p.2 }
  | "client_assertion" => some { fields with clientAssertion := some p.2 }
  | _ => some fields

def parseTokenRequest (form : FormCodec) (body : List UInt8) : Option TokenRequest := do
  let pairs := form.parse body
  let fields ← readPairs (· ∈ tokenSingletons) takeToken [] {} pairs
  fields.grantType.map fun grant => ⟨fields, grant, pairs⟩

/-! ## The endpoint -/

variable {parse : Parser} {rules : Rules}

/-- What a client authenticates with in a form. -/
def credentialNames : List String :=
  ["client_id", "client_secret", "client_assertion_type", "client_assertion"]

/-- The form that is sent upstream. -/
def refreshForm (pairs : Pairs) (upstreamToken : Option String) : Pairs :=
  (pairs.filter fun p => p.1 ∉ credentialNames).map fun p =>
    match upstreamToken, p.1 with
    | some token, "refresh_token" => (p.1, token)
    | _, _ => p

/-- `send_upstream_refresh`, up to the request that is sent. -/
def sendUpstreamRefresh (server : Server) (around : Surroundings parse rules) (upstream : Upstream)
    (form : TokenRequest) (upstreamToken : Option String) : Except ℕ UpstreamRequest := do
  let endpoints ← resolveEndpoints around upstream
  .ok (upstreamTokenRequest server upstream endpoints.tokenEndpoint
    (refreshForm form.pairs upstreamToken))

/-- `open_handle`: the upstream's token in a handle. -/
def openHandle (around : Surroundings parse rules) (binding : HandleBinding) (handle : String) :
    Except HandleError String :=
  match Routes.stripPrefix "rrt1.".toList handle.toList with
  | none => .error .invalid
  | some envelope =>
      match around.unsealBytes (String.ofList envelope) (Sealing.handle binding).associatedData with
      | .ok bytes =>
          match refreshHandle.fromBytes bytes with
          | some opened => .ok opened.upstreamToken
          | none => .error .invalid
      | .error .unavailable => .error .sealerUnavailable
      | .error _ => .error .invalid

def scopeRejection (relay : Relay parse rules) (form : TokenRequest) : Option OAuthError :=
  if form.scope.any (!scopeAllowed relay ·) then
    some ⟨400, "invalid_scope", "scope is not allowed", false⟩
  else none

/-- What the token endpoint does about a request. -/
inductive RefreshPlan where
  | refused (error : OAuthError)
  /-- The request redeems a code. -/
  | exchange
  /-- The rotator refreshes the handle. It makes a request when it has the upstream's token. -/
  | rotate (handle : String) (request : String → Except ℕ UpstreamRequest)
  | send (request : Except ℕ UpstreamRequest)

/-- `refresh`, up to the rotator or to the request that is sent. -/
def refresh (server : Server) (around : Surroundings parse rules) (relay : Relay parse rules)
    (upstream : Upstream) (form : TokenRequest) : RefreshPlan :=
  match form.refreshToken with
  | none => .refused ⟨400, "invalid_request", "refresh_token is required", false⟩
  | some presented =>
      let binding : HandleBinding := ⟨relay.key, around.fingerprint relay upstream⟩
      match relay.refreshTokens.mode with
      | .rotating =>
          if rotationStoreMissing server relay then .refused rotationStoreRequired
          else
            match scopeRejection relay form with
            | some rejection => .refused rejection
            | none =>
                .rotate presented fun token =>
                  sendUpstreamRefresh server around upstream form (some token)
      | .sealed =>
          match openHandle around binding presented with
          | .error .sealerUnavailable => .refused sealerUnavailable
          | .error .invalid => .refused (invalidGrant "invalid refresh token")
          | .ok token =>
              match scopeRejection relay form with
              | some rejection => .refused rejection
              | none => .send (sendUpstreamRefresh server around upstream form (some token))
      | .passthrough =>
          if hasHandlePrefix presented then .refused (invalidGrant "invalid refresh token")
          else
            match scopeRejection relay form with
            | some rejection => .refused rejection
            | none => .send (sendUpstreamRefresh server around upstream form none)

/-- `token`, up to there. How the client is authenticated is left open: `authenticate` gives the
error, if there is one. -/
def token (server : Server) (around : Surroundings parse rules) (relay : Relay parse rules)
    (upstream : Upstream)
    (authenticate : TokenRequest → List (String × String) → Option OAuthError)
    (headers : List (String × String)) (body : List UInt8) : RefreshPlan :=
  match parseTokenRequest server.form body with
  | none => .refused ⟨400, "invalid_request", "invalid form body", false⟩
  | some form =>
      match authenticate form headers with
      | some error => .refused error
      | none =>
          match form.grant with
          | "authorization_code" => .exchange
          | "refresh_token" => refresh server around relay upstream form
          | _ => .refused ⟨400, "unsupported_grant_type", "unsupported grant_type", false⟩

/-! ## What is claimed -/

/-- A request is sent upstream. A rotator that sends one has unwrapped a token. -/
inductive RefreshPlan.Sends : RefreshPlan → Option String → UpstreamRequest → Prop
  | direct {request : UpstreamRequest} : Sends (.send (.ok request)) none request
  | rotated {handle unwrapped : String} {make : String → Except ℕ UpstreamRequest}
      {request : UpstreamRequest} (made : make unwrapped = .ok request) :
      Sends (.rotate handle make) (some unwrapped) request

/-- What stands in the place of the token that has been presented. -/
inductive Carries (around : Surroundings parse rules) (relay : Relay parse rules)
    (upstream : Upstream) (presented : String) : Option String → String → Prop
  | passthrough (mode : relay.refreshTokens.mode = .passthrough)
      (plain : hasHandlePrefix presented = false) :
      Carries around relay upstream presented none presented
  | opened {token : String} (mode : relay.refreshTokens.mode = .sealed)
      (opens : openHandle around ⟨relay.key, around.fingerprint relay upstream⟩ presented =
        .ok token) : Carries around relay upstream presented none token
  | rotated {token : String} (mode : relay.refreshTokens.mode = .rotating) :
      Carries around relay upstream presented (some token) token

/-- The pairs of a form without what a client authenticates with. -/
def withoutCredentials (pairs : Pairs) : Pairs := pairs.filter fun p => p.1 ∉ credentialNames

/-- The request has the credentials of the upstream's client once, and no others. -/
def OwnCredentials (server : Server) (upstream : Upstream) (request : UpstreamRequest) : Prop :=
  match upstream.tokenEndpointAuthMethod with
  | .clientSecretPost =>
      request.form = withoutCredentials request.form ++
        [("client_id", upstream.clientId), ("client_secret", upstream.clientSecret)] ∧
      request.headers = [("accept", "application/json")]
  | .clientSecretBasic =>
      request.form = withoutCredentials request.form ∧
      request.headers = [("accept", "application/json"), ("authorization",
        basicAuthorization server upstream.clientId upstream.clientSecret)]

/-- A pair with a token in the place of the one that has been presented. -/
def replaceToken (token : String) (p : String × String) : String × String :=
  if p.1 = "refresh_token" then (p.1, token) else p

/-- What is sent for a form that asks for a refresh. -/
structure Refreshed (server : Server) (around : Surroundings parse rules)
    (relay : Relay parse rules) (upstream : Upstream) (asked : Pairs) (unwrapped : Option String)
    (request : UpstreamRequest) : Prop where
  endpoint : ∃ endpoints, resolveEndpoints around upstream = .ok endpoints ∧
    request.url = endpoints.tokenEndpoint
  /-- The form in order, with a token in the place of the one that has been presented. -/
  form : ∃ presented token, named "refresh_token" asked = [("refresh_token", presented)] ∧
    Carries around relay upstream presented unwrapped token ∧
    withoutCredentials request.form = (withoutCredentials asked).map (replaceToken token) ∧
    named "refresh_token" request.form = [("refresh_token", token)]
  credentials : OwnCredentials server upstream request

/-- The request with which a callback redeems a code. -/
def exchangeRequest (server : Server) (upstream : Upstream) (url : Config.Url)
    (flow : FlowEnvelope) (code : String) : UpstreamRequest :=
  upstreamTokenRequest server upstream url (codeExchangeForm server upstream flow code)

/-- A callback sends no other request than one that redeems its code, and that has the credentials
of the upstream's client only. -/
structure Exchanged (server : Server) (around : Surroundings parse rules) (upstream : Upstream)
    (envelopeId : Codes.Bytes 16) (query : CallbackRequest) : Prop where
  only : ∀ send send' : UpstreamRequest → Option StoredResponse,
    (∀ url flow code, openFlow around upstream query.state = .ok flow → query.code = some code →
      send (exchangeRequest server upstream url flow code) =
        send' (exchangeRequest server upstream url flow code)) →
    callback server around upstream envelopeId send query =
      callback server around upstream envelopeId send' query
  form : ∀ url flow code, withoutCredentials (exchangeRequest server upstream url flow code).form =
    [("grant_type", "authorization_code"), ("code", code),
      ("redirect_uri", server.callbackUrl upstream.key),
      ("code_verifier", flow.upstreamPkceVerifier)]
  credentials : ∀ url flow code,
    OwnCredentials server upstream (exchangeRequest server upstream url flow code)

/-! ## What is read -/

/-- The last value of a name. -/
def lastValue (name : String) (pairs : Pairs) : Option String :=
  (named name pairs).getLast?.map Prod.snd

theorem lastValue_append (name : String) (pairs : Pairs) (p : String × String) :
    lastValue name (pairs ++ [p]) = if p.1 = name then some p.2 else lastValue name pairs := by
  unfold lastValue
  rw [named_append]
  split
  · rename_i same
    have one : named name [p] = [p] := by simp [named, same]
    rw [one, List.getLast?_concat, Option.map_some]
  · rename_i other
    have none : named name [p] = [] := by simp [named, other]
    rw [none, List.append_nil]

/-- What is true of the fields when some pairs have been read. -/
structure TokenRead (fields : TokenFields) (read : Pairs) : Prop where
  refreshToken : fields.refreshToken = lastValue "refresh_token" read

theorem TokenRead.step {fields fields' : TokenFields} {read : Pairs} {p : String × String}
    (known : TokenRead fields read) (taken : takeToken fields p = some fields') :
    TokenRead fields' (read ++ [p]) := by
  refine ⟨?_⟩
  rw [lastValue_append, ← known.refreshToken]
  obtain ⟨name, value⟩ := p
  unfold takeToken at taken
  dsimp only at taken ⊢
  split at taken
  case h_3 =>
    cases taken
    exact (if_pos rfl).symm
  case h_11 =>
    rename_i other _ _ _ _ _ _ _
    cases taken
    exact (if_neg other).symm
  all_goals
    cases taken
    exact (if_neg (by decide)).symm

/-- A singleton is there once, if it is there at all. -/
theorem named_of_singleton {pairs : Pairs} {singleton : String → Bool} {name value : String}
    (distinct : ((pairs.map Prod.fst).filter singleton).Nodup) (single : singleton name = true)
    (last : lastValue name pairs = some value) : named name pairs = [(name, value)] := by
  have once : ((named name pairs).map Prod.fst).Nodup := by
    have part : (named name pairs).map Prod.fst =
        ((pairs.map Prod.fst).filter singleton).filter fun other => other = name := by
      rw [List.filter_filter, List.filter_map]
      refine congrArg _ (List.filter_congr fun p _ => ?_)
      by_cases same : p.1 = name
      · simp [same, single]
      · simp [same]
    rw [part]
    exact distinct.filter _
  have all : ∀ p ∈ named name pairs, p.1 = name := fun p inside =>
    of_decide_eq_true (List.mem_filter.mp inside).2
  obtain ⟨p, found, rfl⟩ := Option.map_eq_some_iff.mp last
  obtain ⟨before, shape⟩ := List.getLast?_eq_some_iff.mp found
  rw [shape] at once all ⊢
  have first : before = [] := by
    refine List.eq_nil_iff_forall_not_mem.mpr fun q inside => ?_
    rw [List.map_append, List.nodup_append] at once
    refine once.2.2 q.1 (List.mem_map_of_mem inside) p.1 (by simp) ?_
    rw [all q (List.mem_append_left _ inside), all p (by simp)]
  rw [first, List.nil_append, ← all p (by simp)]

theorem parseTokenRequest_eq_some {form : FormCodec} {body : List UInt8} {request : TokenRequest}
    {presented : String} (parsed : parseTokenRequest form body = some request)
    (has : request.refreshToken = some presented) : request.pairs = form.parse body ∧
      named "refresh_token" (form.parse body) = [("refresh_token", presented)] := by
  obtain ⟨fields, read, accepted⟩ := Option.bind_eq_some_iff.mp parsed
  obtain ⟨grant, -, rfl⟩ := Option.map_eq_some_iff.mp accepted
  have known := foldlM_invariant TokenRead (fun _ _ _ _ known taken => known.step taken)
    (⟨rfl⟩ : TokenRead {} []) (readPairs_eq_some read).1
  refine ⟨rfl, named_of_singleton (readPairs_eq_some read).2.1 (by decide) ?_⟩
  exact known.refreshToken.symm.trans has

/-! ## What is sent -/

theorem withoutCredentials_append (front back : Pairs) :
    withoutCredentials (front ++ back) = withoutCredentials front ++ withoutCredentials back :=
  List.filter_append ..

/-- **A request for a form without credentials has those of the upstream's client.** -/
theorem ownCredentials_of_plain (server : Server) (upstream : Upstream) (url : Config.Url)
    {form : Pairs} (plain : withoutCredentials form = form) :
    OwnCredentials server upstream (upstreamTokenRequest server upstream url form) ∧
      withoutCredentials (upstreamTokenRequest server upstream url form).form = form := by
  have own : withoutCredentials
      [("client_id", upstream.clientId), ("client_secret", upstream.clientSecret)] = [] := by
    simp [withoutCredentials, credentialNames]
  unfold OwnCredentials upstreamTokenRequest
  cases upstream.tokenEndpointAuthMethod with
  | clientSecretPost =>
      have rest : withoutCredentials (form ++ [("client_id", upstream.clientId),
          ("client_secret", upstream.clientSecret)]) = form := by
        rw [withoutCredentials_append, own, plain, List.append_nil]
      exact ⟨⟨by dsimp only; rw [rest], rfl⟩, rest⟩
  | clientSecretBasic => exact ⟨⟨plain.symm, rfl⟩, plain⟩

theorem fst_replaceToken (token : String) (p : String × String) :
    (replaceToken token p).1 = p.1 := by
  unfold replaceToken
  split <;> rfl

theorem filter_map_replaceToken (keeps : String → Bool) (token : String) (pairs : Pairs) :
    (pairs.map (replaceToken token)).filter (fun p => keeps p.1) =
      (pairs.filter fun p => keeps p.1).map (replaceToken token) := by
  rw [List.filter_map]
  refine congrArg _ (List.filter_congr fun p _ => ?_)
  rw [Function.comp_apply, fst_replaceToken]

theorem withoutCredentials_idem (pairs : Pairs) :
    withoutCredentials (withoutCredentials pairs) = withoutCredentials pairs := by
  rw [withoutCredentials, withoutCredentials, List.filter_filter]
  simp only [Bool.and_self]

/-- What is not a credential is kept. -/
theorem named_withoutCredentials {name : String} (other : name ∉ credentialNames) (pairs : Pairs) :
    named name (withoutCredentials pairs) = named name pairs := by
  rw [named, withoutCredentials, List.filter_filter]
  refine List.filter_congr fun p _ => ?_
  by_cases same : p.1 = name
  · simp [same, other]
  · simp [same]

/-- **The form that is sent is the form that was asked, without credentials and with the token.** -/
theorem refreshForm_eq {asked : Pairs} {presented : String}
    (once : named "refresh_token" asked = [("refresh_token", presented)])
    (upstreamToken : Option String) : refreshForm asked upstreamToken =
      (withoutCredentials asked).map (replaceToken (upstreamToken.getD presented)) := by
  refine List.map_congr_left fun p inside => ?_
  have value (same : p.1 = "refresh_token") : p = ("refresh_token", presented) := by
    have there : p ∈ named "refresh_token" asked :=
      List.mem_filter.mpr ⟨(List.mem_filter.mp inside).1, decide_eq_true same⟩
    rw [once] at there
    exact List.mem_singleton.mp there
  unfold replaceToken
  cases upstreamToken with
  | none =>
      by_cases same : p.1 = "refresh_token"
      · rw [value same]
        rfl
      · exact (if_neg same).symm
  | some token =>
      split
      · rename_i token' same name
        cases same
        exact (if_pos name).symm
      · rename_i other
        exact (if_neg fun name => other token rfl name).symm

theorem named_refreshForm {asked : Pairs} {presented : String}
    (once : named "refresh_token" asked = [("refresh_token", presented)]) (token : String) :
    named "refresh_token" ((withoutCredentials asked).map (replaceToken token)) =
      [("refresh_token", token)] := by
  have cut := filter_map_replaceToken (fun name => name = "refresh_token") token
    (withoutCredentials asked)
  rw [named, cut, ← named, named_withoutCredentials (by decide), once]
  rfl

/-- What `send_upstream_refresh` makes of a form. -/
theorem refreshed_of_sent {server : Server} {around : Surroundings parse rules}
    {relay : Relay parse rules} {upstream : Upstream} {form : TokenRequest} {presented : String}
    {unwrapped : Option String} (upstreamToken : Option String) {request : UpstreamRequest}
    (once : named "refresh_token" form.pairs = [("refresh_token", presented)])
    (carries : Carries around relay upstream presented unwrapped (upstreamToken.getD presented))
    (sent : sendUpstreamRefresh server around upstream form upstreamToken = .ok request) :
    Refreshed server around relay upstream form.pairs unwrapped request := by
  obtain ⟨endpoints, resolved, sent⟩ := Memo.bind_eq_ok.mp sent
  obtain rfl := Except.ok.inj sent
  have shape := refreshForm_eq once upstreamToken
  have plain : withoutCredentials (refreshForm form.pairs upstreamToken) =
      refreshForm form.pairs upstreamToken := by
    have cut := filter_map_replaceToken (fun name => name ∉ credentialNames)
      (upstreamToken.getD presented) (withoutCredentials form.pairs)
    rw [shape, withoutCredentials, cut, ← withoutCredentials, withoutCredentials_idem]
  obtain ⟨own, rest⟩ := ownCredentials_of_plain server upstream endpoints.tokenEndpoint plain
  have endpoint : (upstreamTokenRequest server upstream endpoints.tokenEndpoint
      (refreshForm form.pairs upstreamToken)).url = endpoints.tokenEndpoint := by
    unfold upstreamTokenRequest
    cases upstream.tokenEndpointAuthMethod <;> rfl
  refine ⟨⟨endpoints, resolved, endpoint⟩, ⟨presented, _, once, carries, rest.trans shape, ?_⟩, own⟩
  rw [← named_withoutCredentials (by decide), rest, shape]
  exact named_refreshForm once _

theorem RefreshPlan.eq_of_sends {plan : RefreshPlan} {unwrapped : Option String}
    {request : UpstreamRequest} (sends : plan.Sends unwrapped request) :
    plan = .send (.ok request) ∧ unwrapped = none ∨
      ∃ handle token make, plan = .rotate handle make ∧ unwrapped = some token ∧
        make token = .ok request := by
  cases sends with
  | direct => exact .inl ⟨rfl, rfl⟩
  | rotated made => exact .inr ⟨_, _, _, rfl, rfl, made⟩

variable {server : Server} {around : Surroundings parse rules} {relay : Relay parse rules}
  {upstream : Upstream} {unwrapped : Option String} {request : UpstreamRequest}

/-- A plan that sends what `send_upstream_refresh` makes of the form. -/
theorem refreshed_of_refresh {form : TokenRequest} {presented : String}
    (has : form.refreshToken = some presented)
    (once : named "refresh_token" form.pairs = [("refresh_token", presented)])
    (sends : (refresh server around relay upstream form).Sends unwrapped request) :
    Refreshed server around relay upstream form.pairs unwrapped request := by
  unfold refresh at sends
  rw [has] at sends
  dsimp only at sends
  split at sends
  · rename_i mode
    split at sends
    · cases sends
    · split at sends
      · cases sends
      · rcases RefreshPlan.eq_of_sends sends with ⟨same, -⟩ | ⟨_, token, _, same, rfl, made⟩
        · cases same
        · cases same
          exact refreshed_of_sent (some token) once (.rotated mode) made
  · rename_i mode
    split at sends
    · cases sends
    · cases sends
    · rename_i token opens
      split at sends
      · cases sends
      · rcases RefreshPlan.eq_of_sends sends with ⟨same, rfl⟩ | ⟨_, _, _, same, -⟩
        · exact refreshed_of_sent (some token) once (.opened mode opens) (RefreshPlan.send.inj same)
        · cases same
  · rename_i mode
    split at sends
    · cases sends
    · rename_i plain
      split at sends
      · cases sends
      · rcases RefreshPlan.eq_of_sends sends with ⟨same, rfl⟩ | ⟨_, _, _, same, -⟩
        · exact refreshed_of_sent none once (.passthrough mode (Bool.eq_false_iff.mpr plain))
            (RefreshPlan.send.inj same)
        · cases same

theorem refreshed_of_token
    {authenticate : TokenRequest → List (String × String) → Option OAuthError}
    {headers : List (String × String)} {body : List UInt8}
    (sends : (token server around relay upstream authenticate headers body).Sends unwrapped
      request) :
    Refreshed server around relay upstream (server.form.parse body) unwrapped request := by
  unfold token at sends
  split at sends
  · cases sends
  · rename_i form parsed
    split at sends
    · cases sends
    · split at sends
      · cases sends
      · cases has : form.refreshToken with
        | none =>
            unfold refresh at sends
            rw [has] at sends
            cases sends
        | some presented =>
            obtain ⟨pairs, once⟩ := parseTokenRequest_eq_some parsed has
            rw [← pairs] at once ⊢
            exact refreshed_of_refresh has once sends
      · cases sends

/-! ## What it depends on -/

theorem Carries.unique {presented token token' : String}
    (carries : Carries around relay upstream presented unwrapped token)
    (carries' : Carries around relay upstream presented unwrapped token') : token = token' := by
  cases carries with
  | passthrough mode _ =>
      cases carries' with
      | passthrough => rfl
      | opened mode' _ => rw [mode] at mode'; cases mode'
  | opened mode opens =>
      cases carries' with
      | passthrough mode' _ => rw [mode] at mode'; cases mode'
      | opened _ opens' => exact Except.ok.inj (opens.symm.trans opens')
  | rotated _ =>
      cases carries' with
      | rotated _ => rfl

/-- A request is determined by the rest of its form, and where it goes. -/
theorem OwnCredentials.unique {request' : UpstreamRequest}
    (own : OwnCredentials server upstream request)
    (own' : OwnCredentials server upstream request') (url : request.url = request'.url)
    (rest : withoutCredentials request.form = withoutCredentials request'.form) :
    request = request' := by
  obtain ⟨target, headers, form⟩ := request
  obtain ⟨target', headers', form'⟩ := request'
  obtain rfl : target = target' := url
  unfold OwnCredentials at own own'
  dsimp only at own own' rest
  cases method : upstream.tokenEndpointAuthMethod with
  | clientSecretPost =>
      rw [method] at own own'
      dsimp only at own own'
      rw [own.2, own'.2, own.1, own'.1, rest]
  | clientSecretBasic =>
      rw [method] at own own'
      dsimp only at own own'
      rw [own.2, own'.2, own.1, own'.1, rest]

/-- **What is sent does not depend on what the client has authenticated with.** -/
theorem Refreshed.unique {asked asked' : Pairs} {request' : UpstreamRequest}
    (refreshed : Refreshed server around relay upstream asked unwrapped request)
    (refreshed' : Refreshed server around relay upstream asked' unwrapped request')
    (same : withoutCredentials asked = withoutCredentials asked') : request = request' := by
  obtain ⟨presented, token, once, carries, form, -⟩ := refreshed.form
  obtain ⟨presented', token', once', carries', form', -⟩ := refreshed'.form
  obtain rfl : presented = presented' := by
    have names := congrArg (named "refresh_token") same
    rw [named_withoutCredentials (by decide), named_withoutCredentials (by decide), once,
      once'] at names
    cases names
    rfl
  obtain rfl := carries.unique carries'
  obtain ⟨endpoints, resolved, url⟩ := refreshed.endpoint
  obtain ⟨endpoints', resolved', url'⟩ := refreshed'.endpoint
  obtain rfl := Except.ok.inj (resolved.symm.trans resolved')
  exact refreshed.credentials.unique refreshed'.credentials (url.trans url'.symm)
    (form.trans (same ▸ form'.symm))

/-! ## The exchange of a code -/

theorem relayCode_congr {send send' : UpstreamRequest → Option StoredResponse}
    {envelopeId : Codes.Bytes 16} {flow : FlowEnvelope} {code : String}
    (same : ∀ url, send (exchangeRequest server upstream url flow code) =
      send' (exchangeRequest server upstream url flow code)) :
    relayCode server around upstream relay envelopeId send flow code =
      relayCode server around upstream relay envelopeId send' flow code := by
  unfold relayCode
  cases resolveEndpoints around upstream with
  | error status => rfl
  | ok endpoints =>
      have here := same endpoints.tokenEndpoint
      unfold exchangeRequest at here
      simp only [Bind.bind, Except.bind, here]

theorem exchanged (server : Server) (around : Surroundings parse rules) (upstream : Upstream)
    (envelopeId : Codes.Bytes 16) (query : CallbackRequest) :
    Exchanged server around upstream envelopeId query := by
  have plain : ∀ flow code, withoutCredentials (codeExchangeForm server upstream flow code) =
      codeExchangeForm server upstream flow code := by
    intro flow code
    simp [withoutCredentials, codeExchangeForm, credentialNames]
  refine ⟨fun send send' same => ?_, fun url flow code => ?_, fun url flow code => ?_⟩
  · unfold callback
    cases opened : openFlow around upstream query.state with
    | error status => rfl
    | ok flow =>
        refine congrArg (Except.bind (callbackRelay server around upstream flow)) ?_
        funext relay
        cases asked : query.code with
        | none => rfl
        | some code =>
            have redeemed : relayCode server around upstream relay envelopeId send flow code =
                relayCode server around upstream relay envelopeId send' flow code :=
              relayCode_congr fun url => same url flow code opened asked
            dsimp only
            rw [redeemed]
  · exact (ownCredentials_of_plain server upstream url (plain flow code)).2
  · exact (ownCredentials_of_plain server upstream url (plain flow code)).1

/-- **The credentials of the two sides never mix.** -/
theorem credentials_never_mix (server : Server) (around : Surroundings parse rules)
    (relay : Relay parse rules) (upstream : Upstream)
    (authenticate : TokenRequest → List (String × String) → Option OAuthError)
    (headers : List (String × String)) (body : List UInt8) (envelopeId : Codes.Bytes 16)
    (query : CallbackRequest) (unwrapped : Option String) (request : UpstreamRequest)
    (sends : (token server around relay upstream authenticate headers body).Sends unwrapped
      request) :
    Refreshed server around relay upstream (server.form.parse body) unwrapped request ∧
      (∀ headers' body' request',
        withoutCredentials (server.form.parse body') =
          withoutCredentials (server.form.parse body) →
        (token server around relay upstream authenticate headers' body').Sends unwrapped request' →
        request' = request) ∧
      Exchanged server around upstream envelopeId query := by
  have refreshed := refreshed_of_token sends
  refine ⟨refreshed, ?_, exchanged server around upstream envelopeId query⟩
  intro headers' body' request' same sends'
  exact (refreshed_of_token sends').unique refreshed same

/-- The request that is sent without a rotator. -/
def RefreshPlan.request? : RefreshPlan → Option UpstreamRequest
  | .send (.ok request) => some request
  | _ => none

theorem RefreshPlan.sends_of_request? {plan : RefreshPlan} {request : UpstreamRequest}
    (found : plan.request? = some request) : plan.Sends none request := by
  unfold request? at found
  split at found
  · cases found
    exact .direct
  · cases found

/-- The body of a refresh request with the credentials of a client. -/
def sampleBody : List UInt8 :=
  Wire.Codec.utf8Bytes "client_id=app&refresh_token=t&grant_type=refresh_token&client_secret=s&x=1"

/-- A relay that passes tokens through. -/
theorem credentials_never_mix_passthrough : ∃ request,
    request.form = [("refresh_token", "t"), ("grant_type", "refresh_token"), ("x", "1"),
      ("client_id", "id"), ("client_secret", "secret")] ∧
    Refreshed sampleServer sampleSurroundings (Redirects.loopbackRelay "http://127.0.0.1/cb")
      sampleUpstream (sampleServer.form.parse sampleBody) none request ∧
    (∀ headers' body' request',
      withoutCredentials (sampleServer.form.parse body') =
        withoutCredentials (sampleServer.form.parse sampleBody) →
      (token sampleServer sampleSurroundings (Redirects.loopbackRelay "http://127.0.0.1/cb")
        sampleUpstream (fun _ _ => none) headers' body').Sends none request' →
      request' = request) ∧
    Exchanged sampleServer sampleSurroundings sampleUpstream (Codes.zeroBytes 16)
      ⟨some "c", "s", false, []⟩ := by
  have made : (token sampleServer sampleSurroundings
      (Redirects.loopbackRelay "http://127.0.0.1/cb") sampleUpstream (fun _ _ => none) []
      sampleBody).request?.map UpstreamRequest.form =
        some [("refresh_token", "t"), ("grant_type", "refresh_token"), ("x", "1"),
          ("client_id", "id"), ("client_secret", "secret")] := by
    decide +kernel
  obtain ⟨request, found, form⟩ := Option.map_eq_some_iff.mp made
  exact ⟨request, form, credentials_never_mix sampleServer sampleSurroundings
    (Redirects.loopbackRelay "http://127.0.0.1/cb") sampleUpstream (fun _ _ => none) [] sampleBody
    (Codes.zeroBytes 16) ⟨some "c", "s", false, []⟩ none request
    (RefreshPlan.sends_of_request? found)⟩

end OAuthRelay.Flows
