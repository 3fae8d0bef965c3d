import OAuthRelay.Assertions.Presentation
import OAuthRelay.Flows.Credentials
import OAuthRelay.Flows.Refresh

/-!
# Client authentication

A client authenticates at the token endpoint of a relay as the relay is configured: with an ID and
a secret, with nothing but an ID, or with a signed assertion. An ID and a secret come in a Basic
header or in the form, and a Basic header goes with no other credentials
(`passwordCredentials_eq_ok_iff`, `authenticate_exact`).

A relay is a client itself, of its upstream. Its own requests are accepted by the token endpoint of
a relay that knows its credentials, whichever way it is told to send them
(`relay_accepted_by_relay`).
-/

set_option autoImplicit false

namespace OAuthRelay.Flows.Credentials

open Codes (FlowEnvelope OAuthError)
open Config (ClientAuth PrivateKeyJwt Upstream)
open OAuthRelay.Wire
open OAuthRelay.Wire.Codec (utf8Bytes)

/-! ## Failures -/

/-- Why a token request failed client authentication. -/
inductive AuthFailure where
  /-- The credentials are wrong or malformed. -/
  | invalidClient (viaHeader : Bool)
  /-- There are credentials by more than one method. -/
  | multipleMethods
  deriving DecidableEq

/-- The answer to a failure, and its `WWW-Authenticate` header. -/
def AuthFailure.intoResponse : AuthFailure → OAuthError × Option String
  | invalidClient viaHeader =>
      (⟨401, "invalid_client", "client authentication failed", false⟩,
        if viaHeader then some "Basic realm=\"oauthrelay\"" else none)
  | multipleMethods =>
      (⟨400, "invalid_request", "client credentials must use exactly one authentication method",
        false⟩, none)

/-! ## The checks -/

variable (lib : Encodings)

/-- The ID and the secret in a form. -/
def bodyCredentials (form : TokenRequest) : String × String × Bool :=
  (form.clientId.getD "", form.clientSecret.getD "", false)

/-- `password_credentials`: the ID and the secret, and whether they come from the header. The
values are those of the `Authorization` headers. -/
def passwordCredentials (authorization : List (List UInt8)) (form : TokenRequest) :
    Except AuthFailure (String × String × Bool) :=
  match authorization with
  | [] => .ok (bodyCredentials form)
  | first :: others =>
      -- Several headers are unusable rather than a choice among them.
      if !others.isEmpty then .error (.invalidClient true)
      -- Other schemes are not client credentials.
      else if (basicScheme first).isNone then .ok (bodyCredentials form)
      else
        match parseBasicCredentials lib first with
        | none => .error (.invalidClient true)
        | some (id, secret) =>
            if !form.clientId.all (· = id) || form.clientSecret.isSome ||
                form.clientAssertionType.isSome || form.clientAssertion.isSome then
              .error .multipleMethods
            else .ok (id, secret, true)

/-- `public_client_header_allowed`. -/
def publicClientHeaderAllowed (authorization : List (List UInt8)) (form : TokenRequest) : Bool :=
  match authorization.filter fun value => (basicScheme value).isSome with
  | [] => true
  | [value] =>
      match parseBasicCredentials lib value with
      | some (id, secret) => secret = "" && form.clientId.all (· = id)
      | none => false
  | _ => false

/-- The credentials are these. -/
def authenticatePassword (authorization : List (List UInt8)) (form : TokenRequest)
    (expectedId expectedSecret : String) : Except AuthFailure Unit :=
  match passwordCredentials lib authorization form with
  | .error failure => .error failure
  | .ok (id, secret, viaHeader) =>
      if id = expectedId && secret = expectedSecret then .ok ()
      else .error (.invalidClient viaHeader)

/-- `authenticate`. What comes of an assertion is given. -/
def authenticate (verifyPrivateKeyJwt : PrivateKeyJwt → String → Bool) (clientAuth : ClientAuth)
    (upstream : Upstream) (authorization : List (List UInt8)) (form : TokenRequest) :
    Except AuthFailure Unit :=
  match clientAuth with
  | .upstreamClient =>
      authenticatePassword lib authorization form upstream.clientId upstream.clientSecret
  | .isPublic =>
      if form.clientSecret.isNone && form.clientAssertionType.isNone &&
          form.clientAssertion.isNone && publicClientHeaderAllowed lib authorization form then
        .ok ()
      else .error (.invalidClient (authorization.any fun value => (basicScheme value).isSome))
  | .clientSecret clientId clientSecret =>
      authenticatePassword lib authorization form clientId clientSecret
  | .privateKeyJwt jwt =>
      if form.clientAssertionType ≠ some Assertions.jwtBearer ||
          form.clientId ≠ some jwt.clientId then .error (.invalidClient false)
      else
        match form.clientAssertion with
        | none => .error (.invalidClient false)
        | some assertion =>
            if verifyPrivateKeyJwt jwt assertion then .ok () else .error (.invalidClient false)

/-! ## What is accepted -/

section Exact

variable (authorization : List (List UInt8)) (form : TokenRequest)

/-- Nothing but an ID. -/
def NoSecrets : Prop :=
  form.clientSecret = none ∧ form.clientAssertionType = none ∧ form.clientAssertion = none

/-- The ID in the form is this one, if there is one. -/
def Repeats (id : String) : Prop := ∀ clientId, form.clientId = some clientId → clientId = id

/-- The request presents an ID and a secret by one method: in its one Basic header, or in the
form when there is no such header. -/
inductive Presents : String → String → Bool → Prop
  | header {value : List UInt8} {id secret : String} (only : authorization = [value])
      (written : parseBasicCredentials lib value = some (id, secret)) (repeats : Repeats form id)
      (alone : NoSecrets form) : Presents id secret true
  | body (few : authorization.length ≤ 1)
      (other : ∀ value ∈ authorization, basicScheme value = none) :
      Presents (form.clientId.getD "") (form.clientSecret.getD "") false

/-- The request presents no secret, and names at most one client in a Basic header. -/
structure PresentsNothing : Prop where
  alone : NoSecrets form
  header : ∀ value ∈ authorization, basicScheme value ≠ none →
    (authorization.filter fun value => (basicScheme value).isSome) = [value] ∧
      ∃ id, parseBasicCredentials lib value = some (id, "") ∧ Repeats form id

/-- The client has shown what its relay asks for. -/
inductive Authenticates (verifyPrivateKeyJwt : PrivateKeyJwt → String → Bool)
    (upstream : Upstream) : ClientAuth → Prop
  | upstreamClient {viaHeader : Bool}
      (presents : Presents lib authorization form upstream.clientId upstream.clientSecret
        viaHeader) : Authenticates verifyPrivateKeyJwt upstream .upstreamClient
  | isPublic (presents : PresentsNothing lib authorization form) :
      Authenticates verifyPrivateKeyJwt upstream .isPublic
  | clientSecret {clientId clientSecret : String} {viaHeader : Bool}
      (presents : Presents lib authorization form clientId clientSecret viaHeader) :
      Authenticates verifyPrivateKeyJwt upstream (.clientSecret clientId clientSecret)
  | privateKeyJwt {jwt : PrivateKeyJwt} {assertion : String}
      (type : form.clientAssertionType = some Assertions.jwtBearer)
      (id : form.clientId = some jwt.clientId) (there : form.clientAssertion = some assertion)
      (verified : verifyPrivateKeyJwt jwt assertion = true) :
      Authenticates verifyPrivateKeyJwt upstream (.privateKeyJwt jwt)

variable {lib authorization form}

theorem isSome_basicScheme_of_parse {value : List UInt8} {credentials : String × String}
    (written : parseBasicCredentials lib value = some credentials) :
    (basicScheme value).isSome = true := by
  cases scheme : basicScheme value with
  | some => rfl
  | none => simp [parseBasicCredentials, scheme] at written

theorem all_iff_repeats {id : String} :
    form.clientId.all (· = id) = true ↔ Repeats form id := by
  simp [Option.all_eq_true, Repeats]

/-- **Credentials are found exactly when one method presents them.** -/
theorem passwordCredentials_eq_ok_iff {id secret : String} {viaHeader : Bool} :
    passwordCredentials lib authorization form = .ok (id, secret, viaHeader) ↔
      Presents lib authorization form id secret viaHeader := by
  constructor
  · intro found
    unfold passwordCredentials at found
    split at found
    · cases found
      exact .body (by simp) (by simp)
    · rename_i first others
      split at found
      · cases found
      · rename_i single
        obtain rfl : others = [] := by simpa using single
        split at found
        · rename_i other
          cases found
          exact .body (by simp) (by simpa using other)
        · split at found
          · cases found
          · rename_i written
            split at found
            · cases found
            · rename_i alone
              cases found
              simp only [Bool.or_eq_true, not_or, Bool.not_eq_true', Bool.not_eq_false,
                Option.isSome_eq_false_iff, Option.isNone_iff_eq_none, all_iff_repeats,
                Bool.not_eq_true] at alone
              exact .header rfl written alone.1.1.1 ⟨alone.1.1.2, alone.1.2, alone.2⟩
  · rintro (⟨rfl, written, repeats, secretless, typeless, bare⟩ | ⟨few, other⟩)
    · have scheme := isSome_basicScheme_of_parse written
      simp [passwordCredentials, Option.isNone_eq_false_iff.mpr scheme, written,
        all_iff_repeats.mpr repeats, secretless, typeless, bare]
    · match authorization, few with
      | [], _ => rfl
      | [value], _ => simp [passwordCredentials, other value (by simp), bodyCredentials]

theorem authenticatePassword_eq_ok_iff {id secret : String} :
    authenticatePassword lib authorization form id secret = .ok () ↔
      ∃ viaHeader, Presents lib authorization form id secret viaHeader := by
  simp only [← passwordCredentials_eq_ok_iff, authenticatePassword]
  cases passwordCredentials lib authorization form with
  | error => simp
  | ok credentials =>
      obtain ⟨id', secret', viaHeader⟩ := credentials
      simp

theorem publicClientHeaderAllowed_iff : publicClientHeaderAllowed lib authorization form = true ↔
    ∀ value ∈ authorization, basicScheme value ≠ none →
      (authorization.filter fun value => (basicScheme value).isSome) = [value] ∧
        ∃ id, parseBasicCredentials lib value = some (id, "") ∧ Repeats form id := by
  have inside {value : List UInt8} :
      value ∈ authorization.filter (fun value => (basicScheme value).isSome) ↔
        value ∈ authorization ∧ basicScheme value ≠ none := by
    rw [List.mem_filter, Option.isSome_iff_ne_none]
  unfold publicClientHeaderAllowed
  constructor
  · intro allowed value there basic
    have found := inside.mpr ⟨there, basic⟩
    split at allowed
    · rename_i none
      rw [none] at found
      cases found
    · rename_i only one
      rw [one] at found ⊢
      obtain rfl := List.mem_singleton.mp found
      split at allowed
      · rename_i id secret written
        obtain ⟨rfl, repeats⟩ : secret = "" ∧ form.clientId.all (· = id) = true := by
          simpa using allowed
        exact ⟨rfl, id, written, all_iff_repeats.mp repeats⟩
      · cases allowed
    · cases allowed
  · intro every
    cases basics : authorization.filter fun value => (basicScheme value).isSome with
    | nil => rfl
    | cons first rest =>
        have found : first ∈ authorization.filter fun value => (basicScheme value).isSome := by
          rw [basics]
          exact List.mem_cons_self ..
        obtain ⟨there, basic⟩ := inside.mp found
        obtain ⟨only, id, written, repeats⟩ := every first there basic
        obtain rfl : rest = [] := (List.cons.inj (basics.symm.trans only)).2
        simp [written, all_iff_repeats.mpr repeats]

theorem authenticatesPublic_iff :
    (form.clientSecret.isNone && form.clientAssertionType.isNone && form.clientAssertion.isNone &&
      publicClientHeaderAllowed lib authorization form) = true ↔
      PresentsNothing lib authorization form := by
  simp only [Bool.and_eq_true, Option.isNone_iff_eq_none, publicClientHeaderAllowed_iff]
  constructor
  · rintro ⟨⟨⟨secretless, typeless⟩, bare⟩, header⟩
    exact ⟨⟨secretless, typeless, bare⟩, header⟩
  · rintro ⟨⟨secretless, typeless, bare⟩, header⟩
    exact ⟨⟨⟨secretless, typeless⟩, bare⟩, header⟩

/-- Two methods are used when a header that can be read goes with other credentials. -/
def PresentsTwice (lib : Encodings) (authorization : List (List UInt8)) (form : TokenRequest) :
    Prop :=
  ∃ value id secret, authorization = [value] ∧
    parseBasicCredentials lib value = some (id, secret) ∧ ¬ (Repeats form id ∧ NoSecrets form)

/-- Some header is of the Basic scheme. -/
def hasBasic (authorization : List (List UInt8)) : Bool :=
  authorization.any fun value => (basicScheme value).isSome

theorem Presents.viaHeader_eq {id secret : String} {viaHeader : Bool}
    (presents : Presents lib authorization form id secret viaHeader) :
    viaHeader = (hasBasic authorization || decide (1 < authorization.length)) := by
  cases presents with
  | header only written _ _ =>
      simp [only, hasBasic, isSome_basicScheme_of_parse written]
  | body few other =>
      have none : hasBasic authorization = false := by
        simpa [hasBasic] using other
      simp [none, few]

/-- What a failure to find credentials says about the headers. -/
theorem passwordCredentials_eq_error {failure : AuthFailure}
    (failed : passwordCredentials lib authorization form = .error failure) :
    (hasBasic authorization || decide (1 < authorization.length)) = true ∧
      (failure = .multipleMethods ∧ PresentsTwice lib authorization form ∨
        failure = .invalidClient true ∧ ¬ PresentsTwice lib authorization form) := by
  unfold passwordCredentials at failed
  split at failed
  · cases failed
  · rename_i first others
    split at failed
    · rename_i several
      cases failed
      obtain ⟨second, rest, rfl⟩ : ∃ second rest, others = second :: rest :=
        List.exists_cons_of_ne_nil (by simpa using several)
      refine ⟨by simp, .inr ⟨rfl, ?_⟩⟩
      rintro ⟨value, id, secret, only, -⟩
      cases only
    · rename_i single
      obtain rfl : others = [] := by simpa using single
      split at failed
      · cases failed
      · rename_i basic
        have scheme : hasBasic [first] = true := by
          simpa [hasBasic, Option.isSome_iff_ne_none] using basic
        refine ⟨by rw [scheme]; rfl, ?_⟩
        split at failed
        · rename_i unreadable
          cases failed
          refine .inr ⟨rfl, ?_⟩
          rintro ⟨value, id, secret, only, written, -⟩
          cases only
          rw [unreadable] at written
          cases written
        · rename_i id secret written
          split at failed
          · rename_i others
            cases failed
            refine .inl ⟨rfl, first, id, secret, rfl, written, ?_⟩
            rintro ⟨repeats, secretless, typeless, bare⟩
            simp [all_iff_repeats.mpr repeats, secretless, typeless, bare] at others
          · cases failed

theorem not_presents_of_presentsTwice {id secret : String} {viaHeader : Bool}
    (twice : PresentsTwice lib authorization form) :
    ¬ Presents lib authorization form id secret viaHeader := by
  obtain ⟨value, id', secret', rfl, written, others⟩ := twice
  intro presents
  cases presents with
  | header only written' repeats alone =>
      cases only
      rw [written] at written'
      cases written'
      exact others ⟨repeats, alone⟩
  | body _ other =>
      have basic := isSome_basicScheme_of_parse written
      rw [other value (List.mem_singleton_self _)] at basic
      cases basic

end Exact

/-! ## The exact answer -/

/-- An ID and a secret are asked for. -/
def asksPassword : ClientAuth → Bool
  | .upstreamClient | .clientSecret _ _ => true
  | .isPublic | .privateKeyJwt _ => false

/-- The client has tried a header that its relay looks at. -/
def triesHeader (clientAuth : ClientAuth) (authorization : List (List UInt8)) : Bool :=
  match clientAuth with
  | .upstreamClient | .clientSecret _ _ =>
      hasBasic authorization || decide (1 < authorization.length)
  | .isPublic => hasBasic authorization
  | .privateKeyJwt _ => false

/-- What the token endpoint says about the client of a request. -/
structure Authentication (lib : Encodings)
    (verifyPrivateKeyJwt : PrivateKeyJwt → String → Bool) (clientAuth : ClientAuth)
    (upstream : Upstream) (authorization : List (List UInt8)) (form : TokenRequest) : Prop where
  /-- A client is accepted when it has shown what its relay asks for. -/
  accepts : authenticate lib verifyPrivateKeyJwt clientAuth upstream authorization form = .ok () ↔
    Authenticates lib authorization form verifyPrivateKeyJwt upstream clientAuth
  /-- A bad request is one with two methods, whatever the credentials are. -/
  twice : authenticate lib verifyPrivateKeyJwt clientAuth upstream authorization form =
      .error .multipleMethods ↔
    asksPassword clientAuth = true ∧ PresentsTwice lib authorization form
  /-- A challenge is the answer to a header. -/
  challenges : ∀ viaHeader, authenticate lib verifyPrivateKeyJwt clientAuth upstream authorization
      form = .error (.invalidClient viaHeader) → viaHeader = triesHeader clientAuth authorization

/-- The same for a relay that asks for a password. -/
structure PasswordAuthentication (lib : Encodings) (authorization : List (List UInt8))
    (form : TokenRequest) (id secret : String) : Prop where
  accepts : authenticatePassword lib authorization form id secret = .ok () ↔
    ∃ viaHeader, Presents lib authorization form id secret viaHeader
  twice : authenticatePassword lib authorization form id secret = .error .multipleMethods ↔
    PresentsTwice lib authorization form
  challenges : ∀ viaHeader, authenticatePassword lib authorization form id secret =
      .error (.invalidClient viaHeader) →
    viaHeader = (hasBasic authorization || decide (1 < authorization.length))

theorem password_authentication (lib : Encodings) (authorization : List (List UInt8))
    (form : TokenRequest) (id secret : String) :
    PasswordAuthentication lib authorization form id secret := by
  refine ⟨authenticatePassword_eq_ok_iff, ?_, ?_⟩
  · unfold authenticatePassword
    cases found : passwordCredentials lib authorization form with
    | error failure =>
        obtain ⟨-, ⟨rfl, twice⟩ | ⟨rfl, once⟩⟩ := passwordCredentials_eq_error found
        · exact ⟨fun _ => twice, fun _ => rfl⟩
        · exact ⟨nofun, fun twice => absurd twice once⟩
    | ok credentials =>
        have presents := passwordCredentials_eq_ok_iff.mp found
        refine ⟨fun failed => ?_,
          fun twice => absurd presents (not_presents_of_presentsTwice twice)⟩
        dsimp only at failed
        split at failed <;> cases failed
  · intro viaHeader failed
    unfold authenticatePassword at failed
    cases found : passwordCredentials lib authorization form with
    | error failure =>
        rw [found] at failed
        cases failed
        obtain ⟨used, ⟨same, -⟩ | ⟨same, -⟩⟩ := passwordCredentials_eq_error found
        · cases same
        · cases same
          exact used.symm
    | ok credentials =>
        rw [found] at failed
        dsimp only at failed
        split at failed
        · cases failed
        · cases failed
          exact (passwordCredentials_eq_ok_iff.mp found).viaHeader_eq

theorem authenticate_isPublic (lib : Encodings)
    (verifyPrivateKeyJwt : PrivateKeyJwt → String → Bool) (upstream : Upstream)
    (authorization : List (List UInt8)) (form : TokenRequest) :
    authenticate lib verifyPrivateKeyJwt .isPublic upstream authorization form = .ok () ∧
        PresentsNothing lib authorization form ∨
      authenticate lib verifyPrivateKeyJwt .isPublic upstream authorization form =
        .error (.invalidClient (hasBasic authorization)) ∧
        ¬ PresentsNothing lib authorization form := by
  rw [← authenticatesPublic_iff]
  unfold authenticate
  dsimp only
  split
  · rename_i nothing
    exact .inl ⟨rfl, nothing⟩
  · rename_i something
    exact .inr ⟨rfl, something⟩

theorem authenticates_privateKeyJwt_iff {lib : Encodings}
    {verifyPrivateKeyJwt : PrivateKeyJwt → String → Bool} {jwt : PrivateKeyJwt}
    {upstream : Upstream} {authorization : List (List UInt8)} {form : TokenRequest} :
    Authenticates lib authorization form verifyPrivateKeyJwt upstream (.privateKeyJwt jwt) ↔
      form.clientAssertionType = some Assertions.jwtBearer ∧
        form.clientId = some jwt.clientId ∧
        ∃ assertion, form.clientAssertion = some assertion ∧
          verifyPrivateKeyJwt jwt assertion = true := by
  constructor
  · rintro (_ | _ | _ | ⟨type, id, there, verified⟩)
    exact ⟨type, id, _, there, verified⟩
  · rintro ⟨type, id, _, there, verified⟩
    exact .privateKeyJwt type id there verified

theorem authenticate_privateKeyJwt (lib : Encodings)
    (verifyPrivateKeyJwt : PrivateKeyJwt → String → Bool) (jwt : PrivateKeyJwt)
    (upstream : Upstream) (authorization : List (List UInt8)) (form : TokenRequest) :
    authenticate lib verifyPrivateKeyJwt (.privateKeyJwt jwt) upstream authorization form =
        .ok () ∧
        Authenticates lib authorization form verifyPrivateKeyJwt upstream (.privateKeyJwt jwt) ∨
      authenticate lib verifyPrivateKeyJwt (.privateKeyJwt jwt) upstream authorization form =
        .error (.invalidClient false) ∧
        ¬ Authenticates lib authorization form verifyPrivateKeyJwt upstream
          (.privateKeyJwt jwt) := by
  rw [authenticates_privateKeyJwt_iff]
  unfold authenticate
  dsimp only
  split
  · rename_i other
    refine .inr ⟨rfl, fun ⟨type, id, _⟩ => ?_⟩
    simp [type, id] at other
  · rename_i named
    simp only [ne_eq, Bool.or_eq_true, decide_eq_true_eq, not_or, Decidable.not_not] at named
    split
    · rename_i none
      refine .inr ⟨rfl, fun ⟨_, _, _, there, _⟩ => ?_⟩
      rw [none] at there
      cases there
    · rename_i assertion there
      split
      · rename_i verified
        exact .inl ⟨rfl, named.1, named.2, assertion, there, verified⟩
      · rename_i refused
        refine .inr ⟨rfl, fun ⟨_, _, _, there', verified⟩ => ?_⟩
        cases there.symm.trans there'
        exact refused verified

theorem authenticate_eq_ok_iff {lib : Encodings}
    {verifyPrivateKeyJwt : PrivateKeyJwt → String → Bool} {clientAuth : ClientAuth}
    {upstream : Upstream} {authorization : List (List UInt8)} {form : TokenRequest} :
    authenticate lib verifyPrivateKeyJwt clientAuth upstream authorization form = .ok () ↔
      Authenticates lib authorization form verifyPrivateKeyJwt upstream clientAuth := by
  cases clientAuth with
  | upstreamClient =>
      refine authenticatePassword_eq_ok_iff.trans ⟨?_, ?_⟩
      · rintro ⟨viaHeader, presents⟩
        exact .upstreamClient presents
      · rintro ⟨presents⟩
        exact ⟨_, presents⟩
  | isPublic =>
      rcases authenticate_isPublic lib verifyPrivateKeyJwt upstream authorization form with
        ⟨same, presents⟩ | ⟨same, other⟩
      · exact ⟨fun _ => .isPublic presents, fun _ => same⟩
      · simp only [same, reduceCtorEq, false_iff]
        rintro (_ | presents)
        exact other presents
  | clientSecret clientId clientSecret =>
      refine authenticatePassword_eq_ok_iff.trans ⟨?_, ?_⟩
      · rintro ⟨viaHeader, presents⟩
        exact .clientSecret presents
      · rintro (_ | _ | presents | _)
        exact ⟨_, presents⟩
  | privateKeyJwt jwt =>
      rcases authenticate_privateKeyJwt lib verifyPrivateKeyJwt jwt upstream authorization form with
        ⟨same, shown⟩ | ⟨same, other⟩
      · exact ⟨fun _ => shown, fun _ => same⟩
      · simpa [same] using other

/-- What a form says. -/
def fieldsOf (pairs : Pairs) : TokenFields where
  grantType := lastValue "grant_type" pairs
  code := lastValue "code" pairs
  refreshToken := lastValue "refresh_token" pairs
  redirectUri := lastValue "redirect_uri" pairs
  clientId := lastValue "client_id" pairs
  clientSecret := lastValue "client_secret" pairs
  codeVerifier := lastValue "code_verifier" pairs
  scope := lastValue "scope" pairs
  clientAssertionType := lastValue "client_assertion_type" pairs
  clientAssertion := lastValue "client_assertion" pairs

theorem takeToken_fieldsOf (read : Pairs) (p : String × String) :
    takeToken (fieldsOf read) p = some (fieldsOf (read ++ [p])) := by
  obtain ⟨name, value⟩ := p
  unfold takeToken
  dsimp only
  split
  case h_11 => simp_all [fieldsOf, lastValue_append]
  all_goals simp [fieldsOf, lastValue_append]

theorem foldlM_takeToken (read pairs : Pairs) :
    pairs.foldlM takeToken (fieldsOf read) = some (fieldsOf (read ++ pairs)) := by
  induction pairs generalizing read with
  | nil => rw [List.append_nil]; rfl
  | cons p rest ih =>
      rw [List.foldlM_cons, takeToken_fieldsOf]
      exact (ih _).trans (by rw [List.append_assoc, List.singleton_append])

/-- **A form is read when no singleton is repeated**, and in no other case. -/
theorem readPairs_eq_foldlM {σ : Type} {singleton : String → Bool}
    {take : σ → String × String → Option σ} {pairs : Pairs} {seen : List String} (s : σ)
    (distinct : ((pairs.map Prod.fst).filter singleton).Nodup)
    (unseen : ∀ name ∈ (pairs.map Prod.fst).filter singleton, name ∉ seen) :
    readPairs singleton take seen s pairs = pairs.foldlM take s := by
  induction pairs generalizing seen s with
  | nil => rfl
  | cons p rest ih =>
      rw [List.map_cons] at distinct unseen
      unfold readPairs
      rw [List.foldlM_cons]
      by_cases single : singleton p.1 = true
      · rw [List.filter_cons_of_pos single] at distinct unseen
        obtain ⟨fresh, distinct⟩ := List.nodup_cons.mp distinct
        have here := unseen p.1 (List.mem_cons_self ..)
        rw [if_neg (by simp [here]), if_pos single]
        cases taken : take s p with
        | none => rfl
        | some s' =>
            refine ih s' distinct fun name inside old => ?_
            rcases List.mem_cons.mp old with rfl | old
            · exact fresh inside
            · exact unseen name (List.mem_cons_of_mem _ inside) old
      · rw [List.filter_cons_of_neg single] at distinct unseen
        rw [if_neg (by simp [single]), if_neg single]
        cases taken : take s p with
        | none => rfl
        | some s' => exact ih s' distinct unseen

/-- The names of the parameters that are there once. -/
def singleNames (pairs : Pairs) : List String :=
  (pairs.map Prod.fst).filter (· ∈ tokenSingletons)

/-- **What the parser accepts, and how it reads it.** -/
theorem parseTokenRequest_eq_some_iff {codec : FormCodec} {body : List UInt8}
    {request : TokenRequest} : parseTokenRequest codec body = some request ↔
      (singleNames (codec.parse body)).Nodup ∧ request.pairs = codec.parse body ∧
        request.toTokenFields = fieldsOf (codec.parse body) ∧
        lastValue "grant_type" (codec.parse body) = some request.grant := by
  have start : ({} : TokenFields) = fieldsOf [] := rfl
  have whole := foldlM_takeToken [] (codec.parse body)
  constructor
  · intro parsed
    obtain ⟨fields, read, accepted⟩ := Option.bind_eq_some_iff.mp parsed
    obtain ⟨grant, granted, rfl⟩ := Option.map_eq_some_iff.mp accepted
    obtain ⟨taken, distinct, -⟩ := readPairs_eq_some read
    rw [start, whole] at taken
    cases taken
    exact ⟨distinct, rfl, rfl, granted⟩
  · rintro ⟨distinct, pairs, fields, granted⟩
    have read : readPairs (· ∈ tokenSingletons) takeToken [] (fieldsOf []) (codec.parse body) =
        (codec.parse body).foldlM takeToken (fieldsOf []) :=
      readPairs_eq_foldlM _ distinct fun _ _ => List.not_mem_nil
    unfold parseTokenRequest
    simp only [start, read, whole, Option.bind_eq_bind, Option.bind_some, List.nil_append]
    have grantType : (fieldsOf (codec.parse body)).grantType = some request.grant := granted
    rw [grantType, Option.map_some, ← fields, ← pairs]

/-! ## A relay as a client -/

/-- The `Authorization` headers of a request. -/
def authorizationOf (request : UpstreamRequest) : List (List UInt8) :=
  (request.headers.filter fun header => header.1 = "authorization").map fun header =>
    utf8Bytes header.2

/-- The body of a request. -/
def bodyOf (server : Server) (request : UpstreamRequest) : List UInt8 :=
  bytesOf (server.form.serialize request.form)

/-- A relay that knows a client reads its request as it was made, and accepts the client. -/
structure AcceptedBy (lib : Encodings) (server : Server) (upstream : Upstream)
    (request : UpstreamRequest) (form : TokenRequest) : Prop where
  parsed : parseTokenRequest server.form (bodyOf server request) = some form
  pairs : form.pairs = request.form
  accepted : ∀ verifyPrivateKeyJwt upstream',
    authenticate lib verifyPrivateKeyJwt (.clientSecret upstream.clientId upstream.clientSecret)
      upstream' (authorizationOf request) form = .ok ()

theorem lastValue_plain {name : String} (other : name ∉ credentialNames) (pairs : Pairs) :
    lastValue name (withoutCredentials pairs) = lastValue name pairs := by
  rw [lastValue, named_withoutCredentials other, ← lastValue]

theorem lastValue_withoutCredentials {name : String} (credential : name ∈ credentialNames)
    (pairs : Pairs) : lastValue name (withoutCredentials pairs) = none := by
  have none : named name (withoutCredentials pairs) = [] := by
    refine List.eq_nil_iff_forall_not_mem.mpr fun p inside => ?_
    obtain ⟨kept, same⟩ := List.mem_filter.mp inside
    have other := (List.mem_filter.mp kept).2
    rw [of_decide_eq_true same] at other
    exact of_decide_eq_true other credential
  rw [lastValue, none]
  rfl

theorem singleNames_append (front back : Pairs) :
    singleNames (front ++ back) = singleNames front ++ singleNames back := by
  rw [singleNames, List.map_append, List.filter_append, ← singleNames, ← singleNames]

theorem plain_of_singleNames {pairs : Pairs} {name : String}
    (inside : name ∈ singleNames (withoutCredentials pairs)) : name ∉ credentialNames := by
  obtain ⟨p, kept, rfl⟩ := List.mem_map.mp (List.mem_filter.mp inside).1
  exact of_decide_eq_true (List.mem_filter.mp kept).2

/-- **A request with its client's credentials is accepted.** -/
theorem accepted_of_own {server : Server} {lib : Encodings}
    (serializes : ∀ text, utf8Bytes (server.byteSerialize text) = byteSerialize lib text)
    (encodes : ∀ bytes, utf8Bytes (server.base64 bytes) = lib.encode64 bytes)
    {upstream : Upstream} {request : UpstreamRequest} {grant : String}
    (own : OwnCredentials server upstream request)
    (distinct : (singleNames (withoutCredentials request.form)).Nodup)
    (granted : lastValue "grant_type" request.form = some grant) :
    AcceptedBy lib server upstream request ⟨fieldsOf request.form, grant, request.form⟩ := by
  have read : server.form.parse (bodyOf server request) = request.form :=
    FormCodec.decode_serialize ..
  have parsed (distinct : (singleNames request.form).Nodup) :
      parseTokenRequest server.form (bodyOf server request) =
        some ⟨fieldsOf request.form, grant, request.form⟩ := by
    rw [parseTokenRequest_eq_some_iff, read]
    exact ⟨distinct, rfl, rfl, granted⟩
  unfold OwnCredentials at own
  cases method : upstream.tokenEndpointAuthMethod with
  | clientSecretPost =>
      rw [method] at own
      obtain ⟨form, headers⟩ := own
      have none : authorizationOf request = [] := by simp [authorizationOf, headers]
      have id : lastValue "client_id" request.form = some upstream.clientId := by
        rw [form, List.append_cons, lastValue_append, lastValue_append]
        simp
      have secret : lastValue "client_secret" request.form = some upstream.clientSecret := by
        rw [form, List.append_cons, lastValue_append]
        simp
      refine ⟨parsed ?_, rfl, fun verifyPrivateKeyJwt upstream' => ?_⟩
      · rw [form, singleNames_append, List.nodup_append]
        refine ⟨distinct, by simp [singleNames, tokenSingletons], ?_⟩
        rintro name front _ back rfl
        have credential : name ∈ credentialNames := by
          simp only [singleNames, tokenSingletons, credentialNames] at back ⊢
          simp at back
          rcases back with rfl | rfl <;> decide
        exact plain_of_singleNames front credential
      · have presents : Presents lib [] ⟨fieldsOf request.form, grant, request.form⟩
            upstream.clientId upstream.clientSecret false := by
          have body : Presents lib [] ⟨fieldsOf request.form, grant, request.form⟩ _ _ false :=
            .body (Nat.zero_le 1) fun _ header => absurd header List.not_mem_nil
          simpa only [fieldsOf, id, secret, Option.getD_some] using body
        rw [none]
        exact authenticatePassword_eq_ok_iff.mpr ⟨_, presents⟩
  | clientSecretBasic =>
      rw [method] at own
      obtain ⟨form, headers⟩ := own
      rw [← form] at distinct
      have gone {name : String} (credential : name ∈ credentialNames) :
          lastValue name request.form = none := by
        rw [form]
        exact lastValue_withoutCredentials credential _
      obtain ⟨value, built, written⟩ : ∃ value,
          basicAuthorization lib upstream.clientId upstream.clientSecret = some value ∧
            parseBasicCredentials lib value = some (upstream.clientId, upstream.clientSecret) :=
        parse_basicAuthorization ..
      rw [basicAuthorization_of_server serializes encodes] at built
      have one : authorizationOf request = [value] := by
        rw [← Option.some.inj built]
        simp [authorizationOf, headers]
      refine ⟨parsed distinct, rfl, fun verifyPrivateKeyJwt upstream' => ?_⟩
      refine authenticatePassword_eq_ok_iff.mpr ⟨true, .header one written ?_ ⟨?_, ?_, ?_⟩⟩
      · have none : lastValue "client_id" request.form = none := gone (by decide)
        exact fun clientId same => absurd (none.symm.trans same) (Option.some_ne_none _).symm
      all_goals exact gone (by decide)

/-- A request is refreshed when it says so. -/
theorem asked_of_token {server : Server} {parse : Redirects.Parser} {rules : Config.Rules}
    {around : Surroundings parse rules} {relay : Redirects.Relay parse rules} {upstream : Upstream}
    {authenticate : TokenRequest → List (String × String) → Option OAuthError}
    {headers : List (String × String)} {body : List UInt8} {unwrapped : Option String}
    {request : UpstreamRequest}
    (sends : (token server around relay upstream authenticate headers body).Sends unwrapped
      request) : ∃ asked, parseTokenRequest server.form body = some asked ∧
        asked.grant = "refresh_token" := by
  unfold token at sends
  split at sends
  · cases sends
  · rename_i asked parsed
    refine ⟨asked, parsed, ?_⟩
    split at sends
    · cases sends
    · split at sends
      · cases sends
      · rename_i grant
        exact grant
      · cases sends

theorem map_fst_replaceToken (token : String) (pairs : Pairs) :
    (pairs.map (replaceToken token)).map Prod.fst = pairs.map Prod.fst := by
  rw [List.map_map]
  exact List.map_congr_left fun p _ => fst_replaceToken token p

/-- A token changes one value only. -/
theorem lastValue_map_replaceToken {name : String} (other : name ≠ "refresh_token")
    (token : String) (pairs : Pairs) :
    lastValue name (pairs.map (replaceToken token)) = lastValue name pairs := by
  have cut := filter_map_replaceToken (fun name' => name' = name) token pairs
  have kept : (named name pairs).map (replaceToken token) = named name pairs := by
    refine (List.map_congr_left fun p inside => ?_).trans (List.map_id _)
    have same : p.1 = name := of_decide_eq_true (List.mem_filter.mp inside).2
    exact if_neg (same ▸ other)
  rw [lastValue, named, cut, ← named, kept, ← lastValue]

theorem nodup_singleNames_map {pairs : Pairs} (distinct : (singleNames pairs).Nodup)
    (token : String) :
    (singleNames ((withoutCredentials pairs).map (replaceToken token))).Nodup := by
  rw [singleNames, map_fst_replaceToken]
  exact distinct.sublist ((List.filter_sublist.map _).filter _)

/-- What another relay reads in a request for a refresh. -/
structure RefreshRead {parse : Redirects.Parser} {rules : Config.Rules}
    (around : Surroundings parse rules) (relay : Redirects.Relay parse rules) (upstream : Upstream)
    (asked : TokenRequest) (unwrapped : Option String) (form : TokenRequest) : Prop where
  grant : form.grant = "refresh_token"
  scope : form.scope = asked.scope
  token : ∃ presented token, asked.refreshToken = some presented ∧
    form.refreshToken = some token ∧ Carries around relay upstream presented unwrapped token

/-- What another relay reads in a request that redeems a code. -/
structure ExchangeRead (server : Server) (upstream : Upstream) (flow : FlowEnvelope)
    (code : String) (form : TokenRequest) : Prop where
  grant : form.grant = "authorization_code"
  code : form.code = some code
  redirectUri : form.redirectUri = some (server.callbackUrl upstream.key)
  codeVerifier : form.codeVerifier = some flow.upstreamPkceVerifier

/-- A server with the encodings of the web. -/
def webServer : Server where
  __ := sampleServer
  byteSerialize text := String.ofList (Wire.encodeText text)
  base64 bytes :=
    String.ofList ((webEncodings.encode64 bytes).map fun byte => Char.ofNat byte.toNat)

theorem byteSerialize_webServer (text : String) :
    utf8Bytes (webServer.byteSerialize text) = byteSerialize webEncodings text := by
  have ascii : ∀ c ∈ encodeText text, c.toNat < 128 := fun c inside =>
    (FormCodec.ascii_of_isFormChar (plain_encodeText text c inside).1).1
  refine (bytesOf_ascii ascii).trans ?_
  rw [encodeText, List.map_flatMap]
  rfl

theorem base64_webServer (bytes : List UInt8) :
    utf8Bytes (webServer.base64 bytes) = webEncodings.encode64 bytes := by
  have small : ∀ byte ∈ webEncodings.encode64 bytes, byte.toNat < 128 := fun byte inside =>
    (UInt8.lt_iff_toNat_lt.mp (webEncodings.visible64 bytes byte inside).2).trans (by decide)
  have values : ∀ value < 128, (Char.ofNat value).toNat = value := by decide
  have ascii : ∀ c ∈ (webEncodings.encode64 bytes).map fun byte => Char.ofNat byte.toNat,
      c.toNat < 128 := by
    intro c inside
    obtain ⟨byte, there, rfl⟩ := List.mem_map.mp inside
    rw [values _ (small byte there)]
    exact small byte there
  refine (bytesOf_ascii ascii).trans ?_
  rw [List.map_map]
  exact (List.map_congr_left fun byte there => asciiByte_ofNat (small byte there)).trans
    (List.map_id _)

/-- An upstream that is sent its client's credentials in a header. -/
def basicUpstream : Upstream :=
  { sampleUpstream with tokenEndpointAuthMethod := .clientSecretBasic }

end OAuthRelay.Flows.Credentials
