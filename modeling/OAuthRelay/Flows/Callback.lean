import OAuthRelay.Flows.Requests
import OAuthRelay.Redirects.Loopback

/-!
# Callbacks

The upstream sends the browser to the callback with a code or an error. The relay opens the state,
redeems the code, and sends the browser on to the redirect URI of the flow with parameters
appended to its query: a code of its own, what else the upstream has sent, and the state of the
application.

The redirect URI is a text, and stays as it is. An ampersand goes between its query and what is
appended, unless the text ends in an ampersand or a question mark already. A question mark need
not be the one in front of the query. If the query itself ends in one, what is appended first runs
into its last parameter, and the application does not get the code (`not_callback_built_on`).
There is no other exception (`callback_built_on_iff`).
-/

set_option autoImplicit false

namespace OAuthRelay.Flows

open Codes (Bytes CodeEnvelope FlowEnvelope ResourceKey)
open Config (Rules TokenEndpointAuthMethod Upstream)
open Redirects (Parser Relay)
open Wire (FormCodec Pairs)
open Wire.Codec (utf8Bytes)

/-! ## Requests to an upstream -/

/-- A POST of a form to the token endpoint of an upstream. -/
structure UpstreamRequest where
  url : Config.Url
  headers : List (String × String)
  form : Pairs

/-- Both credentials are encoded before the Basic encoding. -/
def basicAuthorization (server : Server) (clientId clientSecret : String) : String :=
  "Basic " ++ server.base64 (utf8Bytes
    (server.byteSerialize clientId ++ ":" ++ server.byteSerialize clientSecret))

/-- `upstream_token_request`: the upstream's client authenticates as it is configured. -/
def upstreamTokenRequest (server : Server) (upstream : Upstream) (tokenEndpoint : Config.Url)
    (form : Pairs) : UpstreamRequest :=
  let accept := ("accept", "application/json")
  match upstream.tokenEndpointAuthMethod with
  | .clientSecretPost =>
      ⟨tokenEndpoint, [accept],
        form ++ [("client_id", upstream.clientId), ("client_secret", upstream.clientSecret)]⟩
  | .clientSecretBasic =>
      ⟨tokenEndpoint, [accept, ("authorization",
        basicAuthorization server upstream.clientId upstream.clientSecret)], form⟩

/-! ## The request -/

structure CallbackRequest where
  code : Option String
  state : String
  error : Bool
  forwarded : Pairs
  deriving DecidableEq

/-- What has been read of a request. -/
structure CallbackFields where
  code : Option String
  state : Option String
  error : Bool
  forwarded : Pairs

def takeCallback (fields : CallbackFields) (p : String × String) : Option CallbackFields :=
  match p.1 with
  | "code" => some { fields with code := some p.2 }
  | "state" => some { fields with state := some p.2 }
  | "error" => some { fields with error := true, forwarded := fields.forwarded ++ [p] }
  | _ => some { fields with forwarded := fields.forwarded ++ [p] }

def parseCallbackRequest (form : FormCodec) (query : Option String) : Option CallbackRequest := do
  let fields ← readPairs (· ∈ ["code", "state", "error"]) takeCallback [] ⟨none, none, false, []⟩
    (queryPairs form query)
  if fields.code.isSome = fields.error then none
  else fields.state.map fun state => ⟨fields.code, state, fields.error, fields.forwarded⟩

/-! ## The endpoint -/

variable {parse : Parser} {rules : Rules}

/-- The flow of a state. -/
def openFlow (around : Surroundings parse rules) (upstream : Upstream) (state : String) :
    Except ℕ FlowEnvelope :=
  match unsealPostcard around FlowEnvelope.codec upstream.key state with
  | .ok flow => if Codes.fresh around.now flow.issuedAt Codes.flowTtl then .ok flow else .error 400
  | .error .unavailable => .error 503
  | .error .invalid => .error 400

/-- The relay of a flow, as it is now. -/
def callbackRelay (server : Server) (around : Surroundings parse rules) (upstream : Upstream)
    (flow : FlowEnvelope) : Except ℕ (Relay parse rules) :=
  match ResourceKey.new flow.relayKey with
  | none => .error 400
  | some key =>
      match around.resolveRelay key with
      | .ok (some relay) =>
          if relay.upstream = upstream.key ∧
              relay.validateFor server.redirect.allowHttpOrigins = .ok () then .ok relay
          else .error 400
      | _ => .error 400

/-- The form that redeems the upstream's code. -/
def codeExchangeForm (server : Server) (upstream : Upstream) (flow : FlowEnvelope)
    (code : String) : Pairs :=
  [("grant_type", "authorization_code"), ("code", code),
    ("redirect_uri", server.callbackUrl upstream.key),
    ("code_verifier", flow.upstreamPkceVerifier)]

/-- `append_query_pairs`. -/
def appendQueryPairs (server : Server) (url : String) (pairs : Pairs) : String :=
  Redirects.appendQueryPairs (fun pairs => String.ofList (server.form.serialize pairs)) url pairs

/-- The state of the application as a pair. -/
def statePairs (flow : FlowEnvelope) : Pairs :=
  (flow.appState.map fun state => ("state", state)).toList

/-- Appends the state of the application. -/
def appendState (server : Server) (flow : FlowEnvelope) (url : String) : String :=
  match flow.appState with
  | some state => appendQueryPairs server url [("state", state)]
  | none => url

/-- What becomes of the upstream's code: a code of the relay. -/
def relayCode (server : Server) (around : Surroundings parse rules) (upstream : Upstream)
    (relay : Relay parse rules) (envelopeId : Bytes 16)
    (send : UpstreamRequest → Option StoredResponse) (flow : FlowEnvelope) (code : String) :
    Except ℕ String := do
  let endpoints ← resolveEndpoints around upstream
  match send (upstreamTokenRequest server upstream endpoints.tokenEndpoint
      (codeExchangeForm server upstream flow code)) with
  | none => .error 502
  | some response =>
      sealPostcard around CodeEnvelope.codec relay.key
        { relayKey := relay.key.value
          envelopeId := envelopeId
          issuedAt := around.now
          redirectUri := flow.appRedirectUri
          clientCodeChallenge := flow.clientCodeChallenge
          idTokenNonce := flow.idTokenNonce
          upstreamResponse := response
          handleFingerprint := around.fingerprint relay upstream }

/-- `callback`. The envelope id is random. `send` gives the response to a request, unless it
fails. -/
def callback (server : Server) (around : Surroundings parse rules) (upstream : Upstream)
    (envelopeId : Bytes 16) (send : UpstreamRequest → Option StoredResponse)
    (query : CallbackRequest) : Except ℕ String := do
  let flow ← openFlow around upstream query.state
  let relay ← callbackRelay server around upstream flow
  if !Redirects.redirectAllowed relay flow.appRedirectUri server.redirect then .error 400
  else if query.error then
    found server <| appendState server flow <|
      appendQueryPairs server flow.appRedirectUri query.forwarded
  else
    match query.code with
    | none => .error 400
    | some code =>
        let sealedCode ← relayCode server around upstream relay envelopeId send flow code
        found server <| appendState server flow <|
          appendQueryPairs server (appendQueryPairs server flow.appRedirectUri
            [("code", sealedCode)]) query.forwarded

/-- `dispatch` of a callback, after its upstream has been found. -/
def dispatchCallback (server : Server) (around : Surroundings parse rules) (upstream : Upstream)
    (envelopeId : Bytes 16) (send : UpstreamRequest → Option StoredResponse)
    (query : Option String) : Except ℕ String :=
  match upstream.validate with
  | .error _ => .error 500
  | .ok () =>
      match parseCallbackRequest server.form query with
      | none => .error 400
      | some request => callback server around upstream envelopeId send request

/-! ## What is claimed -/

/-- The pairs of a callback that go on to the application. -/
def forwardedPairs (asked : Pairs) : Pairs := asked.filter fun p => p.1 ∉ ["code", "state"]

/-- What the application gets. -/
inductive Delivered (around : Surroundings parse rules) (relay : Relay parse rules)
    (flow : FlowEnvelope) (asked : Pairs) : Pairs → Prop
  | code {envelope : CodeEnvelope} {text : String} (relayKey : envelope.relayKey = relay.key.value)
      (redirectUri : envelope.redirectUri = flow.appRedirectUri)
      (sealedCode : sealPostcard around CodeEnvelope.codec relay.key envelope = .ok text)
      (success : "error" ∉ asked.map Prod.fst) :
      Delivered around relay flow asked
        (("code", text) :: forwardedPairs asked ++ statePairs flow)
  | error (failed : "error" ∈ asked.map Prod.fst) :
      Delivered around relay flow asked (forwardedPairs asked ++ statePairs flow)

/-- The location is the redirect URI of the flow, which is allowed, and its query is that of the
redirect URI with what is delivered. -/
structure BuiltOn (server : Server) (around : Surroundings parse rules) (upstream : Upstream)
    (flow : FlowEnvelope) (asked : Pairs) (location : String) : Prop where
  allowed : ∃ relay, callbackRelay server around upstream flow = .ok relay ∧
    Redirects.redirectAllowed relay flow.appRedirectUri server.redirect = true
  front : flow.appRedirectUri.toList <+: location.toList
  decoded : ∃ relay delivered, callbackRelay server around upstream flow = .ok relay ∧
    Delivered around relay flow asked delivered ∧
    server.form.decode (queryText location.toList) =
      server.form.decode (queryText flow.appRedirectUri.toList) ++ delivered
  /-- Neither the code nor the state that the upstream has sent. -/
  others : ∀ p ∈ forwardedPairs asked, p.1 ≠ "code" ∧ p.1 ≠ "state"

/-- The query ends in a question mark. -/
def DanglingMark (url : List Char) : Prop := (queryText url).getLast? = some '?'

/-! ## Appending to the text of a URL -/

theorem queryText_of_not_mem {url : List Char} (plain : '?' ∉ url) : queryText url = [] := by
  have gone : (url.takeWhile (· ≠ '#')).dropWhile (· ≠ '?') = [] := by
    refine List.dropWhile_eq_nil_iff.mpr fun c inside => decide_eq_true ?_
    rintro rfl
    exact plain ((List.takeWhile_sublist _).subset inside)
  rw [queryText, gone, List.tail_nil]

theorem queryText_append {front query : List Char} (plain : '?' ∉ front)
    (whole : '#' ∉ front ++ '?' :: query) : queryText (front ++ '?' :: query) = query := by
  have inside : ∀ c ∈ front, c ≠ '?' ∧ c ≠ '#' := by
    refine fun c there => ⟨?_, ?_⟩
    · rintro rfl
      exact plain there
    · rintro rfl
      exact whole (List.mem_append_left _ there)
  have query' : '#' ∉ query := fun there =>
    whole (List.mem_append_right _ (List.mem_cons_of_mem _ there))
  have read : queryText (front ++ '?' :: query ++ []) = query :=
    queryText_eq inside query' (by simp)
  rwa [List.append_nil] at read

/-- The text in front of the query and the query. -/
theorem exists_query {url : List Char} (plain : '#' ∉ url) (has : '?' ∈ url) :
    ∃ front, '?' ∉ front ∧ url = front ++ '?' :: queryText url := by
  obtain ⟨front, query, rfl, first⟩ := List.eq_append_cons_of_mem has
  exact ⟨front, first, by rw [queryText_append first plain]⟩

/-- What a query is when a form is appended to it. -/
inductive Joint (query : List Char) : List Char → Prop
  | empty (nothing : query = []) : Joint query []
  | closed {front : List Char} (ends : query = front ++ ['&']) : Joint query query
  | ampersand (separate : query.getLast? ≠ some '?') : Joint query (query ++ ['&'])
  | dangling (ends : query.getLast? = some '?') : Joint query query

variable {server : Server}

/-- The text of a form is not empty, and a query stays a query when it is appended. -/
theorem plain_serialize {form : FormCodec} (pairs : Pairs) :
    ∀ c ∈ form.serialize pairs, c ≠ '?' ∧ c ≠ '#' := by
  intro c inside
  rcases FormCodec.plain_foldl_append pairs [] c inside with none | plain | rfl
  · cases none
  · exact (FormCodec.ascii_of_isFormChar plain).2.2
  · exact ⟨by decide, by decide⟩

theorem serialize_ne_nil (form : FormCodec) {pairs : Pairs} (nonempty : pairs ≠ []) :
    form.serialize pairs ≠ [] := by
  intro empty
  have read := form.decode_serialize pairs
  rw [empty, FormCodec.decode_nil] at read
  exact nonempty read.symm

theorem not_mem_append_serialize (form : FormCodec) {front : List Char} (plain : '#' ∉ front)
    (pairs : Pairs) : '#' ∉ front ++ form.serialize pairs := by
  intro there
  rcases List.mem_append.mp there with there | there
  · exact plain there
  · exact (plain_serialize pairs '#' there).2 rfl

/-- A form goes on with the query that it is appended to. -/
theorem queryText_append_serialize (form : FormCodec) {front query : List Char}
    (first : '?' ∉ front) (plain : '#' ∉ front ++ '?' :: query) (pairs : Pairs) :
    queryText (front ++ '?' :: query ++ form.serialize pairs) = query ++ form.serialize pairs := by
  have whole := not_mem_append_serialize form plain pairs
  rw [List.append_assoc, List.cons_append] at whole ⊢
  exact queryText_append first whole

/-- The text ends as its query does. -/
theorem getLast?_eq_queryText {url : List Char} (plain : '#' ∉ url) (has : '?' ∈ url)
    (nonempty : queryText url ≠ []) : url.getLast? = (queryText url).getLast? := by
  obtain ⟨front, _, shape⟩ := exists_query plain has
  nth_rewrite 1 [shape]
  rw [List.getLast?_append_cons, List.getLast?_cons_of_ne_nil nonempty]

/-- A text that ends in a question mark or an ampersand needs no ampersand. -/
theorem Joint.of_last {url : List Char} (plain : '#' ∉ url) (has : '?' ∈ url)
    (ends : url.getLast? = some '?' ∨ url.getLast? = some '&') :
    Joint (queryText url) (queryText url) := by
  by_cases nothing : queryText url = []
  · rw [nothing]
    exact .empty rfl
  · rw [getLast?_eq_queryText plain has nothing] at ends
    rcases ends with mark | separator
    · exact .dangling mark
    · obtain ⟨front, shape⟩ := List.getLast?_eq_some_iff.mp separator
      exact .closed shape

/-- Behind another character there is an ampersand. -/
theorem Joint.of_separate {url : List Char} (plain : '#' ∉ url) (has : '?' ∈ url)
    (separate : url.getLast? ≠ some '?') : Joint (queryText url) (queryText url ++ ['&']) := by
  refine .ampersand fun mark => separate ?_
  have nonempty : queryText url ≠ [] := by
    intro nothing
    rw [nothing] at mark
    cases mark
  exact (getLast?_eq_queryText plain has nonempty).trans mark

/-- **The query that is appended to, and the text of the form.** -/
theorem joint_appendQueryPairs (server : Server) {url : String} {pairs : Pairs}
    (nonempty : pairs ≠ []) (plain : '#' ∉ url.toList) :
    ∃ query, Joint (queryText url.toList) query ∧
      queryText (appendQueryPairs server url pairs).toList =
        query ++ server.form.serialize pairs ∧
      '#' ∉ (appendQueryPairs server url pairs).toList := by
  unfold appendQueryPairs Redirects.appendQueryPairs
  rw [if_neg nonempty]
  by_cases has : '?' ∈ url.toList
  · obtain ⟨front, first, shape⟩ := exists_query plain has
    dsimp only
    rw [if_neg (not_not_intro has)]
    split
    · rename_i ends
      simp only [ne_eq, Bool.and_eq_true, decide_eq_true_eq] at ends
      have closed : url.toList ++ ['&'] = front ++ '?' :: (queryText url.toList ++ ['&']) := by
        nth_rewrite 1 [shape]
        simp
      have plain' : '#' ∉ front ++ '?' :: (queryText url.toList ++ ['&']) := by
        rw [← closed]
        intro there
        rcases List.mem_append.mp there with there | there
        · exact plain there
        · exact absurd there (by decide)
      have text : (url.push '&' ++ String.ofList (server.form.serialize pairs)).toList =
          front ++ '?' :: (queryText url.toList ++ ['&']) ++ server.form.serialize pairs := by
        rw [String.toList_append, String.toList_push, String.toList_ofList, closed]
      rw [text]
      exact ⟨_, .of_separate plain has ends.1, queryText_append_serialize _ first plain' pairs,
        not_mem_append_serialize _ plain' pairs⟩
    · rename_i ends
      simp only [Bool.and_eq_true, decide_eq_true_eq, ne_eq, not_and_or, not_not] at ends
      have plain' : '#' ∉ front ++ '?' :: queryText url.toList := shape ▸ plain
      have text : (url ++ String.ofList (server.form.serialize pairs)).toList =
          front ++ '?' :: queryText url.toList ++ server.form.serialize pairs := by
        rw [String.toList_append, String.toList_ofList]
        nth_rewrite 1 [shape]
        rfl
      rw [text]
      exact ⟨_, .of_last plain has ends, queryText_append_serialize _ first plain' pairs,
        not_mem_append_serialize _ plain' pairs⟩
  · dsimp only
    rw [if_pos has]
    have plain' : '#' ∉ url.toList ++ ['?'] := by
      intro there
      rcases List.mem_append.mp there with there | there
      · exact plain there
      · exact absurd there (by decide)
    have text : (url.push '?' ++ String.ofList (server.form.serialize pairs)).toList =
        url.toList ++ ['?'] ++ server.form.serialize pairs := by simp
    rw [text]
    exact ⟨[], .empty (queryText_of_not_mem has),
      queryText_append_serialize _ has plain' pairs, not_mem_append_serialize _ plain' pairs⟩

/-! ## What is read -/

theorem Joint.decode {form : FormCodec} {query joint : List Char} (joined : Joint query joint)
    (closed : query.getLast? ≠ some '?') (pairs : Pairs) :
    form.decode (joint ++ form.serialize pairs) = form.decode query ++ pairs := by
  cases joined with
  | empty nothing => rw [nothing, List.nil_append, FormCodec.decode_serialize,
      FormCodec.decode_nil, List.nil_append]
  | @closed front ends =>
      have cut : form.decode (front ++ ['&']) = form.decode front := by
        rw [FormCodec.decode_append, FormCodec.decode_nil, List.append_nil]
      rw [ends, cut, List.append_assoc, List.singleton_append, FormCodec.decode_append,
        FormCodec.decode_serialize]
  | ampersand _ => rw [List.append_assoc, List.singleton_append, FormCodec.decode_append,
      FormCodec.decode_serialize]
  | dangling ends => exact absurd ends closed

theorem Joint.eq_of_dangling {query joint : List Char} (joined : Joint query joint)
    (dangling : query.getLast? = some '?') : joint = query := by
  cases joined with
  | empty nothing => exact nothing.symm
  | closed _ => rfl
  | ampersand separate => exact absurd dangling separate
  | dangling _ => rfl

theorem not_danglingMark_append {pairs : Pairs} {url : String} (nonempty : pairs ≠ [])
    (plain : '#' ∉ url.toList) : ¬ DanglingMark (appendQueryPairs server url pairs).toList := by
  obtain ⟨joint, -, read, -⟩ := joint_appendQueryPairs server nonempty plain
  intro mark
  have written := serialize_ne_nil server.form nonempty
  rw [DanglingMark, read, List.getLast?_append_of_ne_nil _ written] at mark
  exact (plain_serialize pairs '?' (List.mem_of_getLast? mark)).1 rfl

theorem appendQueryPairs_nil (url : String) : appendQueryPairs server url [] = url := by
  rw [appendQueryPairs, Redirects.appendQueryPairs, if_pos rfl]

/-- **Forms that are appended are read after the query**, if it does not end in a question mark. -/
theorem decode_foldl_append {groups : List Pairs} {url : String} (plain : '#' ∉ url.toList)
    (closed : ¬ DanglingMark url.toList) :
    server.form.decode (queryText (groups.foldl (appendQueryPairs server) url).toList) =
      server.form.decode (queryText url.toList) ++ groups.flatten := by
  induction groups generalizing url with
  | nil => rw [List.foldl_nil, List.flatten_nil, List.append_nil]
  | cons pairs rest ih =>
      rw [List.foldl_cons, List.flatten_cons]
      by_cases nonempty : pairs = []
      · rw [nonempty, appendQueryPairs_nil, ih plain closed, List.nil_append]
      · obtain ⟨joint, joined, read, plain'⟩ := joint_appendQueryPairs server nonempty plain
        rw [ih plain' (not_danglingMark_append nonempty plain), read, joined.decode closed,
          List.append_assoc]

/-- **If it does, a pair is lost.** -/
theorem length_decode_foldl_append {groups : List Pairs} {url : String}
    (plain : '#' ∉ url.toList) (ascii : ∀ c ∈ url.toList, c.toNat < 128)
    (dangling : DanglingMark url.toList) (nonempty : groups.flatten ≠ []) :
    (server.form.decode (queryText (groups.foldl (appendQueryPairs server) url).toList)).length <
      (server.form.decode (queryText url.toList) ++ groups.flatten).length := by
  induction groups with
  | nil => exact absurd rfl nonempty
  | cons pairs rest ih =>
      rw [List.foldl_cons, List.flatten_cons]
      rw [List.flatten_cons] at nonempty
      by_cases nothing : pairs = []
      · rw [nothing, List.nil_append] at nonempty
        rw [nothing, appendQueryPairs_nil, List.nil_append]
        exact ih nonempty
      · obtain ⟨joint, joined, read, plain'⟩ := joint_appendQueryPairs server nothing plain
        have inside : ∀ c ∈ queryText url.toList, c.toNat < 128 := by
          intro c there
          refine ascii c ?_
          exact (List.takeWhile_sublist _).subset
            ((List.dropWhile_sublist _).subset (List.mem_of_mem_tail there))
        have query_nonempty : queryText url.toList ≠ [] := by
          intro empty
          rw [DanglingMark, empty] at dangling
          cases dangling
        have open' : (queryText url.toList).getLast? ≠ some '&' := by
          rw [dangling]
          decide
        have lost : (server.form.decode (_ ++ server.form.serialize pairs)).length < _ :=
          FormCodec.length_decode_lt inside query_nonempty open' nothing
        rw [decode_foldl_append plain' (not_danglingMark_append nothing plain), read,
          joined.eq_of_dangling dangling]
        simp only [List.length_append] at lost ⊢
        omega

/-! ## What is forwarded -/

/-- What is true of the fields when some pairs have been read. -/
structure FieldsOf (fields : CallbackFields) (read : Pairs) : Prop where
  forwarded : fields.forwarded = forwardedPairs read
  error : fields.error = true ↔ "error" ∈ read.map Prod.fst

theorem takeCallback_eq_some {fields fields' : CallbackFields} {p : String × String}
    (taken : takeCallback fields p = some fields') :
    (p.1 ∈ ["code", "state"] ∧ fields'.forwarded = fields.forwarded ∨
      p.1 ∉ ["code", "state"] ∧ fields'.forwarded = fields.forwarded ++ [p]) ∧
    (p.1 = "error" ∧ fields'.error = true ∨
      p.1 ≠ "error" ∧ fields'.error = fields.error) := by
  obtain ⟨name, value⟩ := p
  unfold takeCallback at taken
  dsimp only at taken ⊢
  split at taken
  · cases taken
    exact ⟨.inl ⟨by decide, rfl⟩, .inr ⟨by decide, rfl⟩⟩
  · cases taken
    exact ⟨.inl ⟨by decide, rfl⟩, .inr ⟨by decide, rfl⟩⟩
  · cases taken
    exact ⟨.inr ⟨by decide, rfl⟩, .inl ⟨rfl, rfl⟩⟩
  · rename_i code state error
    cases taken
    exact ⟨.inr ⟨by simpa using ⟨code, state⟩, rfl⟩, .inr ⟨error, rfl⟩⟩

theorem FieldsOf.step {fields fields' : CallbackFields} {read : Pairs} {p : String × String}
    (known : FieldsOf fields read) (taken : takeCallback fields p = some fields') :
    FieldsOf fields' (read ++ [p]) := by
  obtain ⟨forwarded, error⟩ := takeCallback_eq_some taken
  refine ⟨?_, ?_⟩
  · rw [forwardedPairs, List.filter_append]
    rcases forwarded with ⟨kept, same⟩ | ⟨other, same⟩
    · rw [same, known.forwarded,
        List.filter_cons_of_neg (by simpa only [decide_eq_true_eq, not_not] using kept),
        List.filter_nil, List.append_nil, forwardedPairs]
    · rw [same, known.forwarded, List.filter_cons_of_pos (by simpa using other), List.filter_nil,
        forwardedPairs]
  · rw [List.map_append, List.mem_append, ← known.error, List.map_singleton, List.mem_singleton]
    rcases error with ⟨name, set⟩ | ⟨other, same⟩
    · simp [set, name]
    · simp [same, other.symm]

/-- What a callback that is accepted has asked for. -/
theorem fields_of_parse {form : FormCodec} {query : Option String} {request : CallbackRequest}
    (parsed : parseCallbackRequest form query = some request) :
    request.forwarded = forwardedPairs (queryPairs form query) ∧
      (request.error = true ↔ "error" ∈ (queryPairs form query).map Prod.fst) := by
  obtain ⟨fields, read, accepted⟩ := Option.bind_eq_some_iff.mp parsed
  have first : FieldsOf ⟨none, none, false, []⟩ [] := ⟨rfl, by simp⟩
  have known := foldlM_invariant FieldsOf (fun _ _ _ _ known taken => known.step taken) first
    (readPairs_eq_some read).1
  split at accepted
  · cases accepted
  · obtain ⟨state, -, rfl⟩ := Option.map_eq_some_iff.mp accepted
    exact ⟨known.forwarded, known.error⟩

/-! ## What is delivered -/

theorem appendState_eq (flow : FlowEnvelope) (url : String) :
    appendState server flow url = appendQueryPairs server url (statePairs flow) := by
  unfold appendState statePairs
  cases flow.appState with
  | none => exact (appendQueryPairs_nil url).symm
  | some state => rfl

variable {around : Surroundings parse rules} {upstream : Upstream} {envelopeId : Bytes 16}
  {send : UpstreamRequest → Option StoredResponse} {flow : FlowEnvelope} {asked : Pairs}

theorem relayCode_eq_ok {relay : Relay parse rules} {code text : String}
    (answered : relayCode server around upstream relay envelopeId send flow code = .ok text) :
    ∃ envelope : CodeEnvelope, envelope.relayKey = relay.key.value ∧
      envelope.redirectUri = flow.appRedirectUri ∧
      sealPostcard around CodeEnvelope.codec relay.key envelope = .ok text := by
  obtain ⟨endpoints, -, answered⟩ := Memo.bind_eq_ok.mp answered
  split at answered
  · cases answered
  · exact ⟨_, rfl, rfl, answered⟩

/-- **A callback that answers has appended what it delivers** to the redirect URI, in two or three
parts. -/
theorem callback_eq_ok {request : CallbackRequest} {location : String}
    (forwarded : request.forwarded = forwardedPairs asked)
    (failed : request.error = true ↔ "error" ∈ asked.map Prod.fst)
    (opened : openFlow around upstream request.state = .ok flow)
    (answered : callback server around upstream envelopeId send request = .ok location) :
    ∃ (relay : Relay parse rules) (groups : List Pairs),
      callbackRelay server around upstream flow = .ok relay ∧
      Redirects.redirectAllowed relay flow.appRedirectUri server.redirect = true ∧
      Delivered around relay flow asked groups.flatten ∧ groups.flatten ≠ [] ∧
      location = groups.foldl (appendQueryPairs server) flow.appRedirectUri := by
  obtain ⟨flow', opened', answered⟩ := Memo.bind_eq_ok.mp answered
  obtain rfl := Except.ok.inj (opened.symm.trans opened')
  obtain ⟨relay, resolved, answered⟩ := Memo.bind_eq_ok.mp answered
  split at answered
  · cases answered
  · rename_i allowed
    have allowed : Redirects.redirectAllowed relay flow.appRedirectUri server.redirect = true := by
      simpa using allowed
    split at answered
    · rename_i error
      obtain rfl := eq_of_found answered
      refine ⟨relay, [forwardedPairs asked, statePairs flow], resolved, allowed, ?_, ?_, ?_⟩
      · have whole : [forwardedPairs asked, statePairs flow].flatten =
            forwardedPairs asked ++ statePairs flow := by simp
        rw [whole]
        exact .error (failed.mp error)
      · obtain ⟨p, inside, name⟩ := List.mem_map.mp (failed.mp error)
        have kept : p ∈ forwardedPairs asked :=
          List.mem_filter.mpr ⟨inside, by rw [name]; decide⟩
        exact List.ne_nil_of_mem (List.mem_flatten.mpr ⟨_, List.mem_cons_self .., kept⟩)
      · rw [appendState_eq, forwarded]
        rfl
    · rename_i success
      split at answered
      · cases answered
      · rename_i code _
        obtain ⟨text, redeemed, answered⟩ := Memo.bind_eq_ok.mp answered
        obtain rfl := eq_of_found answered
        obtain ⟨envelope, relayKey, redirectUri, sealedCode⟩ := relayCode_eq_ok redeemed
        refine ⟨relay, [[("code", text)], forwardedPairs asked, statePairs flow], resolved, allowed,
          ?_, by simp, ?_⟩
        · have whole : [[("code", text)], forwardedPairs asked, statePairs flow].flatten =
              ("code", text) :: forwardedPairs asked ++ statePairs flow := by simp
          rw [whole]
          exact .code relayKey redirectUri sealedCode (mt failed.mpr success)
        · rw [appendState_eq, forwarded]
          rfl

theorem Delivered.length_eq {relay relay' : Relay parse rules} {pairs pairs' : Pairs}
    (delivered : Delivered around relay flow asked pairs)
    (delivered' : Delivered around relay' flow asked pairs') : pairs.length = pairs'.length := by
  cases delivered with
  | code _ _ _ success =>
      cases delivered' with
      | code => rfl
      | error failed => exact absurd failed success
  | error failed =>
      cases delivered' with
      | code _ _ _ success => exact absurd failed success
      | error => rfl

theorem prefix_foldl_append (groups : List Pairs) (url : String) :
    url.toList <+: (groups.foldl (appendQueryPairs server) url).toList := by
  obtain ⟨suffix, whole, -⟩ := Redirects.location_eq
    ⟨fun pairs => String.ofList (server.form.serialize pairs), groups, rfl⟩
  exact ⟨suffix, whole.symm⟩

theorem ascii_of_validateRawUri {value : String} (valid : Redirects.validateRawUri value = .ok ()) :
    ∀ c ∈ value.toList, c.toNat < 128 := by
  intro c inside
  unfold Redirects.validateRawUri at valid
  split at valid
  · rename_i checked
    exact of_decide_eq_true (Bool.and_eq_true_iff.mp (List.all_eq_true.mp checked c inside)).1
  · cases valid

/-- **A callback is built on the redirect URI of its flow, unless the query of that ends in a
question mark.** -/
theorem callback_built_on_iff
    (fragment : ∀ raw url, parse raw = .ok url → url.fragment = none → '#' ∉ raw.toList)
    (server : Server) (around : Surroundings parse rules) (upstream : Upstream)
    (envelopeId : Bytes 16) (send : UpstreamRequest → Option StoredResponse)
    (query : Option String) (request : CallbackRequest) (flow : FlowEnvelope) (location : String)
    (parsed : parseCallbackRequest server.form query = some request)
    (opened : openFlow around upstream request.state = .ok flow)
    (answered : dispatchCallback server around upstream envelopeId send query = .ok location) :
    BuiltOn server around upstream flow (queryPairs server.form query) location ↔
      ¬ DanglingMark flow.appRedirectUri.toList := by
  unfold dispatchCallback at answered
  split at answered
  · cases answered
  · rw [parsed] at answered
    obtain ⟨forwarded, failed⟩ := fields_of_parse parsed
    obtain ⟨relay, groups, resolved, allowed, delivered, nonempty, rfl⟩ :=
      callback_eq_ok forwarded failed opened answered
    obtain ⟨url, matcher, accepted⟩ := Redirects.redirectAllowed_iff.mp allowed
    have plain : '#' ∉ flow.appRedirectUri.toList := by
      refine fragment _ url accepted.parsed ?_
      have valid := accepted.valid
      simp only [Redirects.validRedirectUrl, Bool.and_eq_true, Option.isNone_iff_eq_none] at valid
      exact valid.1.1.2
    constructor
    · rintro ⟨-, -, ⟨relay', delivered', -, delivers, decoded⟩, -⟩ dangling
      have lost : (server.form.decode (queryText _)).length < _ :=
        length_decode_foldl_append plain (ascii_of_validateRawUri accepted.raw) dangling nonempty
      rw [decoded, List.length_append, List.length_append, delivers.length_eq delivered] at lost
      exact Nat.lt_irrefl _ lost
    · intro closed
      refine ⟨⟨relay, resolved, allowed⟩, prefix_foldl_append groups _,
        ⟨relay, groups.flatten, resolved, delivered, decode_foldl_append plain closed⟩, ?_⟩
      intro p inside
      have other := of_decide_eq_true (List.mem_filter.mp inside).2
      simpa using other

/-- Surroundings in which one state opens, as a flow to a redirect URI at the loopback address. -/
def sampleFlows (redirect : String) : Surroundings Redirects.loopbackParse Config.plainRules where
  sealBytes _ _ := .ok "sealed"
  unsealBytes text _ :=
    if text = "s" then .ok (FlowEnvelope.codec.encode (sampleFlow redirect))
    else .error .invalidEnvelope
  resolveRelay _ := .ok (some (Redirects.loopbackRelay redirect))
  discovery := .error 502
  fingerprint _ _ := Codes.zeroBytes 32
  now := 1700000000
where
  sampleFlow (redirect : String) : FlowEnvelope :=
    ⟨"app", redirect, some "state", "verifier", none, none, none, 1700000000, Codes.zeroBytes 16⟩

/-- A redirect URI with a query. -/
theorem callback_built_on_plain :
    BuiltOn sampleServer (sampleFlows "http://127.0.0.1/cb?x=y") sampleUpstream
      (sampleFlows.sampleFlow "http://127.0.0.1/cb?x=y")
      (queryPairs sampleServer.form (some "code=c&state=s&x=1"))
      "http://127.0.0.1/cb?x=y&code=sealed&x=1&state=state" :=
  (callback_built_on_iff Redirects.serializes_loopbackParse.fragment sampleServer _ sampleUpstream
    (Codes.zeroBytes 16) (fun _ => some ⟨200, none, []⟩) (some "code=c&state=s&x=1")
    ⟨some "c", "s", false, [("x", "1")]⟩ _ _ (by decide +kernel) (by decide +kernel)
    (by decide +kernel)).mpr (by unfold DanglingMark; decide +kernel)

/-- **A query that ends in a question mark takes in the code.** The application reads a parameter
`x` with the value `y?code=sealed`, and no code. -/
theorem not_callback_built_on :
    ¬ ∀ (parse : Parser) (rules : Rules) (server : Server) (around : Surroundings parse rules)
      (upstream : Upstream) (envelopeId : Bytes 16)
      (send : UpstreamRequest → Option StoredResponse) (query : Option String)
      (request : CallbackRequest) (flow : FlowEnvelope) (location : String),
      (∀ raw url, parse raw = .ok url → url.fragment = none → '#' ∉ raw.toList) →
      parseCallbackRequest server.form query = some request →
      openFlow around upstream request.state = .ok flow →
      dispatchCallback server around upstream envelopeId send query = .ok location →
      BuiltOn server around upstream flow (queryPairs server.form query) location := by
  intro all
  obtain ⟨-, -, ⟨relay, delivered, -, delivers, decoded⟩, -⟩ :=
    all Redirects.loopbackParse Config.plainRules sampleServer
      (sampleFlows "http://127.0.0.1/cb?x=y?") sampleUpstream (Codes.zeroBytes 16)
      (fun _ => some ⟨200, none, []⟩) (some "code=c&state=s")
      ⟨some "c", "s", false, []⟩ (sampleFlows.sampleFlow "http://127.0.0.1/cb?x=y?")
      "http://127.0.0.1/cb?x=y?code=sealed&state=state"
      Redirects.serializes_loopbackParse.fragment (by decide +kernel) (by decide +kernel)
      (by decide +kernel)
  have names := congrArg (List.map Prod.fst) decoded
  have read : (sampleServer.form.decode (queryText
      "http://127.0.0.1/cb?x=y?code=sealed&state=state".toList)).map Prod.fst = ["x", "state"] := by
    decide +kernel
  have own : (sampleServer.form.decode (queryText
      (sampleFlows.sampleFlow "http://127.0.0.1/cb?x=y?").appRedirectUri.toList)).map Prod.fst =
        ["x"] := by
    decide +kernel
  rw [read, List.map_append, own] at names
  cases delivers with
  | code => simp at names
  | error failed => exact absurd failed (by decide +kernel)

end OAuthRelay.Flows
