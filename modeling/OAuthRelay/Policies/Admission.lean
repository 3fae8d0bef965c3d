import OAuthRelay.Assertions.Presentation
import OAuthRelay.Binding.Fingerprint
import OAuthRelay.Codes.Soundness
import OAuthRelay.Config.Registry
import OAuthRelay.Policies.Claims

/-!
# Admission by the ID token

A relay may require claims of the ID token in a token response. Before a code is redeemed the
token is verified with the keys of its upstream, and its claims are compared with what is
required. So whoever gets a successful response has an ID token that the upstream has signed for
this client, and its claims are what the relay's policy means (`redeemed_admitted`).

The keys come from the network. If they are not to be had, nothing is known about the token: the
request fails, but the code is not used up.
-/

set_option autoImplicit false

namespace OAuthRelay.Policies

open OAuthRelay.Assertions (Algorithm Header Jwk JwkSet)
open OAuthRelay.Async OAuthRelay.Async.Machine
open OAuthRelay.Binding (issuerIdentifier)
open OAuthRelay.Codes (CodeEnvelope Exchanger IdTokenValidationError)
open OAuthRelay.Config (Value Url Upstream)
open OAuthRelay.Wire.Codec (utf8Bytes)

/-! ## Validation -/

/-- What a relay requires of an ID token. -/
structure Requirements where
  requiredIdTokenClaims : List (String × String)
  idTokenPolicy : Option IdTokenPolicy

def Requirements.configured (requirements : Requirements) : Bool :=
  !(requirements.requiredIdTokenClaims.isEmpty && requirements.idTokenPolicy.isNone)

def idTokenAlgorithms : List Algorithm :=
  [.rs256, .rs384, .rs512, .ps256, .ps384, .ps512, .es256, .es384]

/-- Seconds. -/
def idTokenClockSkew : ℕ := 60

/-- What the JWT library is told to check. The expiry is always checked. -/
structure Validation where
  alg : Algorithm
  issuer : String
  audience : String
  requiredSpecClaims : List String
  validateNbf : Bool

inductive Digest where
  | sha256
  | sha384
  | sha512

/-- The libraries for tokens. -/
structure Jwt where
  /-- `from_slice` of a JSON value. -/
  json : List UInt8 → Option Value
  decodeHeader : String → Option Header
  /-- `from_value` of a key set. -/
  jwkSet : Value → Option JwkSet
  DecodingKey : Type
  /-- `from_jwk`. -/
  decodingKey : Jwk → Option DecodingKey
  /-- The claims of a token that is signed with the key and passes the validation. -/
  decode : String → DecodingKey → Validation → Option Value
  digest : Digest → List UInt8 → List UInt8
  base64Url : List UInt8 → String

/-- What the surroundings answer to one validation. -/
structure Answers where
  jwksUri : Except ℕ (Option Url)
  /-- The document at a URL. -/
  jwks : Url → Except ℕ Value
  now : ℕ

def idTokenValidation (upstream : Upstream) (alg : Algorithm) : Validation where
  alg := alg
  issuer := issuerIdentifier upstream.issuerUrl
  audience := upstream.clientId
  requiredSpecClaims := ["iss", "sub", "aud", "exp", "iat"]
  validateNbf := true

/-- The key that a header asks for. -/
def selectKey (header : Header) (set : JwkSet) : Option Jwk :=
  match header.kid with
  | some kid => set.find kid
  | none => if set.length = 1 then set.head? else none

def validAuthorizedParty (claims : Value) (clientId : String) : Bool :=
  let multipleAudiences :=
    ((claims.get "aud").bind Value.asArray).any fun audiences => 1 < audiences.length
  match claims.get "azp" with
  | some value => value.asStr = some clientId
  | none => !multipleAudiences

def digestOf : Algorithm → Option Digest
  | .rs256 | .ps256 | .es256 => some .sha256
  | .rs384 | .ps384 | .es384 => some .sha384
  | .rs512 | .ps512 => some .sha512
  | _ => none

/-- The left half of a digest of the access token. -/
def accessTokenHash (jwt : Jwt) (digest : Digest) (accessToken : String) : String :=
  let digest := jwt.digest digest (utf8Bytes accessToken)
  jwt.base64Url (digest.take (digest.length / 2))

def validAccessTokenHash (jwt : Jwt) (claims tokenResponse : Value) (algorithm : Algorithm) :
    Bool :=
  match claims.get "at_hash" with
  | none => true
  | some actual =>
      match actual.asStr, (tokenResponse.get "access_token").bind Value.asStr,
          digestOf algorithm with
      | some actual, some accessToken, some digest =>
          actual = accessTokenHash jwt digest accessToken
      | _, _, _ => false

/-- The claims that the relay requires. -/
def Requirements.satisfied (requirements : Requirements) (claims : Value) : Bool :=
  let legacyMatches := requirements.requiredIdTokenClaims.foldl (fun accepted required =>
    accepted && ((claims.get required.1).bind Value.asStr = some required.2 : Bool)) true
  let policyMatches := requirements.idTokenPolicy.all fun policy => policy.evaluate claims
  legacyMatches && policyMatches

/-- The checks of the claims of a token that has been verified. -/
def validClaims (jwt : Jwt) (now : ℕ) (upstream : Upstream) (alg : Algorithm)
    (expectedNonce : Option String) (tokenResponse claims : Value) : Bool :=
  ((claims.get "sub").bind Value.asStr).any (· ≠ "") &&
    ((claims.get "iat").bind Value.asU64).any (·.toNat ≤ now + idTokenClockSkew) &&
    expectedNonce.all (fun expected => (claims.get "nonce").bind Value.asStr = some expected) &&
    validAuthorizedParty claims upstream.clientId &&
    validAccessTokenHash jwt claims tokenResponse alg

/-- `ok_or`. -/
def okOr {α : Type} (error : IdTokenValidationError) : Option α → Except IdTokenValidationError α
  | some value => .ok value
  | none => .error error

/-- `validate_id_token_policy` of a response that the requirements apply to. -/
def validateIdToken (jwt : Jwt) (answers : Answers) (requirements : Requirements)
    (upstream : Upstream) (body : List UInt8) (expectedNonce : Option String) :
    Except IdTokenValidationError Unit := do
  let tokenResponse ← okOr .rejected (jwt.json body)
  let idToken ← okOr .rejected ((tokenResponse.get "id_token").bind Value.asStr)
  let header ← okOr .rejected (jwt.decodeHeader idToken)
  if header.alg ∉ idTokenAlgorithms then throw .rejected
  -- An upstream without keys cannot admit a token.
  let url ← okOr .unavailable answers.jwksUri.toOption.join
  let keys ← okOr .unavailable ((answers.jwks url).toOption.bind jwt.jwkSet)
  let jwk ← okOr .rejected (selectKey header keys)
  let key ← okOr .rejected (jwt.decodingKey jwk)
  let claims ← okOr .rejected (jwt.decode idToken key (idTokenValidation upstream header.alg))
  if validClaims jwt answers.now upstream header.alg expectedNonce tokenResponse claims &&
      requirements.satisfied claims then
    pure ()
  else throw .rejected

/-- `validate_id_token_policy`. -/
def validateIdTokenPolicy (jwt : Jwt) (answers : Answers) (requirements : Requirements)
    (upstream : Upstream) (response : StoredResponse) (expectedNonce : Option String) :
    Except IdTokenValidationError Unit :=
  if !requirements.configured || !response.isSuccess then .ok ()
  else validateIdToken jwt answers requirements upstream response.body expectedNonce

/-! ## What an admitted token shows -/

/-- A token response, its ID token, and what the token was verified with. -/
structure Evidence (jwt : Jwt) where
  tokenResponse : Value
  idToken : String
  header : Header
  url : Url
  keys : JwkSet
  jwk : Jwk
  key : jwt.DecodingKey
  claims : Value

/-- The token is signed with a key of the upstream, for this client and this request, and has the
claims that are required. -/
structure Evidence.Supports {jwt : Jwt} (evidence : Evidence jwt) (answers : Answers)
    (requirements : Requirements) (upstream : Upstream) (body : List UInt8)
    (expectedNonce : Option String) : Prop where
  body : jwt.json body = some evidence.tokenResponse
  idToken : evidence.tokenResponse.get "id_token" = some (.string evidence.idToken)
  header : jwt.decodeHeader evidence.idToken = some evidence.header
  alg : evidence.header.alg ∈ idTokenAlgorithms
  url : answers.jwksUri = .ok (some evidence.url)
  keys : (answers.jwks evidence.url).toOption.bind jwt.jwkSet = some evidence.keys
  listed : evidence.jwk ∈ evidence.keys
  /-- The token names its key, or there is no other. -/
  named : ∀ kid, evidence.header.kid = some kid → evidence.jwk.kid = some kid
  alone : evidence.header.kid = none → evidence.keys = [evidence.jwk]
  key : jwt.decodingKey evidence.jwk = some evidence.key
  signed : jwt.decode evidence.idToken evidence.key
    (idTokenValidation upstream evidence.header.alg) = some evidence.claims
  subject : ∃ subject, evidence.claims.get "sub" = some (.string subject) ∧ subject ≠ ""
  issuedAt : ∃ issuedAt, (evidence.claims.get "iat").bind Value.asU64 = some issuedAt ∧
    issuedAt.toNat ≤ answers.now + idTokenClockSkew
  nonce : ∀ expected, expectedNonce = some expected →
    evidence.claims.get "nonce" = some (.string expected)
  /-- The token was issued to this client, if it says to whom. -/
  authorizedParty : ∀ party, evidence.claims.get "azp" = some party →
    party = .string upstream.clientId
  oneAudience : evidence.claims.get "azp" = none → ∀ audiences,
    evidence.claims.get "aud" = some (.array audiences) → audiences.length ≤ 1
  /-- The access token belongs to the token, if it has a hash of one. -/
  accessToken : ∀ hash, evidence.claims.get "at_hash" = some hash →
    ∃ accessToken digest, evidence.tokenResponse.get "access_token" = some (.string accessToken) ∧
      digestOf evidence.header.alg = some digest ∧
      hash = .string (accessTokenHash jwt digest accessToken)
  required : ∀ claim ∈ requirements.requiredIdTokenClaims,
    evidence.claims.get claim.1 = some (.string claim.2)
  policy : ∀ policy, requirements.idTokenPolicy = some policy → policy.Admits evidence.claims

section Validation

variable {jwt : Jwt} {answers : Answers} {requirements : Requirements} {upstream : Upstream}
  {body : List UInt8} {expectedNonce : Option String}

theorem bind_asStr_eq_some {value : Option Value} {text : String} :
    value.bind Value.asStr = some text ↔ value = some (.string text) := by
  simp [Option.bind_eq_some_iff, asStr_eq_some]

theorem okOr_eq_ok {α : Type} {error : IdTokenValidationError} {x : Option α} {value : α} :
    okOr error x = .ok value ↔ x = some value := by
  cases x <;> simp [okOr]

theorem jwksUri_of_join {x : Except ℕ (Option Url)} {url : Url}
    (resolved : x.toOption.join = some url) : x = .ok (some url) := by
  cases x with
  | error => cases resolved
  | ok found =>
      cases found with
      | none => cases resolved
      | some => exact congrArg (Except.ok ∘ some) (Option.some.inj resolved)

theorem selectKey_eq_some {header : Header} {set : JwkSet} {jwk : Jwk}
    (selected : selectKey header set = some jwk) : jwk ∈ set ∧
      (∀ kid, header.kid = some kid → jwk.kid = some kid) ∧ (header.kid = none → set = [jwk]) := by
  unfold selectKey at selected
  cases asked : header.kid with
  | some kid =>
      simp only [asked, JwkSet.find] at selected
      refine ⟨List.mem_of_find?_eq_some selected, ?_, by simp⟩
      rintro _ ⟨⟩
      simpa using List.find?_some selected
  | none =>
      simp only [asked] at selected
      split at selected
      · rename_i single
        obtain ⟨only, rfl⟩ := List.length_eq_one_iff.mp single
        cases selected
        simp
      · cases selected

theorem satisfied_iff (requirements : Requirements) (claims : Value) :
    requirements.satisfied claims = true ↔
      (∀ claim ∈ requirements.requiredIdTokenClaims,
        claims.get claim.1 = some (.string claim.2)) ∧
      ∀ policy, requirements.idTokenPolicy = some policy → policy.Admits claims := by
  simp only [Requirements.satisfied, foldl_and, Bool.true_and, Bool.and_eq_true, List.all_eq_true,
    decide_eq_true_eq, bind_asStr_eq_some, Option.all_eq_true, evaluate_iff]

theorem authorizedParty_of_valid {claims : Value} {clientId : String}
    (valid : validAuthorizedParty claims clientId = true) :
    (∀ party, claims.get "azp" = some party → party = .string clientId) ∧
      (claims.get "azp" = none → ∀ audiences, claims.get "aud" = some (.array audiences) →
        audiences.length ≤ 1) := by
  unfold validAuthorizedParty at valid
  cases said : claims.get "azp" with
  | some party =>
      simp only [said, decide_eq_true_eq, asStr_eq_some] at valid
      subst valid
      simp
  | none =>
      refine ⟨by simp, fun _ audiences there => ?_⟩
      simpa [said, there, Value.asArray] using valid

theorem accessToken_of_valid {claims tokenResponse : Value} {alg : Algorithm}
    (valid : validAccessTokenHash jwt claims tokenResponse alg = true) {hash : Value}
    (said : claims.get "at_hash" = some hash) : ∃ accessToken digest,
      tokenResponse.get "access_token" = some (.string accessToken) ∧ digestOf alg = some digest ∧
        hash = .string (accessTokenHash jwt digest accessToken) := by
  unfold validAccessTokenHash at valid
  simp only [said] at valid
  split at valid
  · rename_i actual accessToken digest isText there known
    rw [asStr_eq_some] at isText
    refine ⟨accessToken, digest, bind_asStr_eq_some.mp there, known, ?_⟩
    rw [isText, of_decide_eq_true valid]
  · cases valid

/-- **A response is admitted only on evidence.** -/
theorem evidence_of_validateIdToken
    (admitted : validateIdToken jwt answers requirements upstream body expectedNonce = .ok ()) :
    ∃ evidence : Evidence jwt,
      evidence.Supports answers requirements upstream body expectedNonce := by
  obtain ⟨tokenResponse, read, admitted⟩ := Memo.bind_eq_ok.mp admitted
  obtain ⟨idToken, token, admitted⟩ := Memo.bind_eq_ok.mp admitted
  obtain ⟨header, decoded, admitted⟩ := Memo.bind_eq_ok.mp admitted
  split at admitted
  · cases admitted
  rename_i known
  obtain ⟨url, resolved, admitted⟩ := Memo.bind_eq_ok.mp admitted
  obtain ⟨keys, fetched, admitted⟩ := Memo.bind_eq_ok.mp admitted
  obtain ⟨jwk, asked, admitted⟩ := Memo.bind_eq_ok.mp admitted
  obtain ⟨key, usable, admitted⟩ := Memo.bind_eq_ok.mp admitted
  obtain ⟨claims, signed, admitted⟩ := Memo.bind_eq_ok.mp admitted
  rw [okOr_eq_ok] at read token decoded resolved fetched asked usable signed
  split at admitted
  · rename_i accepted
    obtain ⟨listed, named, alone⟩ := selectKey_eq_some asked
    simp only [Bool.and_eq_true] at accepted
    obtain ⟨valid, satisfied⟩ := accepted
    simp only [validClaims, Bool.and_eq_true] at valid
    obtain ⟨⟨⟨⟨subject, issuedAt⟩, nonce⟩, party⟩, hash⟩ := valid
    obtain ⟨text, said, nonempty⟩ := (Option.any_eq_true ..).mp subject
    obtain ⟨time, stamped, past⟩ := (Option.any_eq_true ..).mp issuedAt
    obtain ⟨authorized, one⟩ := authorizedParty_of_valid party
    obtain ⟨required, policy⟩ := (satisfied_iff requirements claims).mp satisfied
    refine ⟨⟨tokenResponse, idToken, header, url, keys, jwk, key, claims⟩, ?_⟩
    exact
      { body := read
        idToken := bind_asStr_eq_some.mp token
        header := decoded
        alg := not_not.mp known
        url := jwksUri_of_join resolved
        keys := fetched
        listed := listed
        named := named
        alone := alone
        key := usable
        signed := signed
        subject := ⟨text, bind_asStr_eq_some.mp said, of_decide_eq_true nonempty⟩
        issuedAt := ⟨time, stamped, of_decide_eq_true past⟩
        nonce := fun expected asked => by
          subst asked
          exact bind_asStr_eq_some.mp (of_decide_eq_true nonce)
        authorizedParty := authorized
        oneAudience := one
        accessToken := fun hash' => accessToken_of_valid hash
        required := required
        policy := policy }
  · cases admitted

end Validation

/-! ## Runs -/

/-- The relays of a deployment with what they require. -/
structure Vetting (X : Exchanger) where
  jwt : Jwt
  requirements : Codes.ResourceKey → Requirements
  upstream : Codes.ResourceKey → Upstream

variable {X : Exchanger}

/-- Requests come to relays as they are configured, and what is validated is validated as
`validate_id_token_policy` does, with some answers. -/
structure Vetting.Vets (V : Vetting X) (_ : List X.machine.Event) (s : X.machine.State)
    (label : X.machine.Lbl) : Prop where
  configured : ∀ input, label = .begin input →
    input.relay.policyConfigured = (V.requirements input.key).configured
  validated : ∀ i delivery choice t envelope marker, label = .step i delivery choice →
    s.threads[i]? = some t → t.call.pc = .validate envelope marker →
    ∃ answers, choice.validation = validateIdTokenPolicy V.jwt answers
      (V.requirements t.call.attempt.key) (V.upstream t.call.attempt.key) envelope.upstreamResponse
      envelope.idTokenNonce

variable {V : Vetting X} {events : List X.machine.Event} {s : X.machine.State}

/-- **A call works for a relay as it is configured**, from its beginning to its end. -/
theorem configured_of_run (run : X.machine.Runs V.Vets events s) {i : ℕ}
    {t : Thread (Codes.Call X)} (there : s.threads[i]? = some t) :
    t.call.attempt.relay.policyConfigured =
      (V.requirements t.call.attempt.key).configured := by
  induction run generalizing i t with
  | nil => simp [initial] at there
  | cons run permitted taken ih =>
      rcases thread_after taken there with ⟨before, _⟩ | ⟨input, rfl, rfl, rfl⟩ |
        ⟨delivery, choice, t₀, call, rfl, before, resumed, rfl⟩
      · exact ih before
      · exact permitted.configured input rfl
      · simp only [Codes.Call.await, Await.next_map, Option.map_eq_some_iff] at resumed
        obtain ⟨pc, _, rfl⟩ := resumed
        have earlier := ih before
        exact earlier

/-- A call keeps what it was made with. -/
theorem attempt_of_follows {p q : Codes.Call X}
    (follows : Relation.TransGen (Resumes (M := X.machine)) p q) : q.attempt = p.attempt := by
  refine keeps_of_follows (M := X.machine) (P := fun r => r.attempt = p.attempt) ?_ follows rfl
  rintro p' q' same ⟨_, _, _, _, _, resumed⟩
  simp only [Codes.Call.await, Await.next_map, Option.map_eq_some_iff] at resumed
  obtain ⟨pc, _, rfl⟩ := resumed
  exact same

/-- A library that knows one token, of a verified address in the right domain. -/
def sampleJwt : Jwt where
  json _ := some (.object [("id_token", .string "token")])
  decodeHeader _ := some ⟨.rs256, none⟩
  jwkSet _ := some [⟨none, []⟩]
  DecodingKey := Unit
  decodingKey _ := some ()
  decode _ _ _ := some (.object [("sub", .string "me"), ("iat", .number (some 90)),
    ("email_verified", .bool true), ("hd", .string "example.com")])
  digest _ bytes := bytes
  base64Url _ := ""

def sampleVetting : Vetting Codes.sampleExchanger where
  jwt := sampleJwt
  requirements _ := ⟨[], some samplePolicy⟩
  upstream := Config.sampleUpstream

def sampleAnswers : Answers where
  jwksUri := .ok (some (Config.sampleUpstream Codes.sampleKey).issuerUrl)
  jwks _ := .ok .null
  now := 101

def policedRelay : Codes.Relay := { Codes.confidentialRelay with policyConfigured := true }

/-- The validations of a run have these answers. -/
def sampleVets (s : Codes.sampleExchanger.machine.State) :
    Codes.sampleExchanger.machine.Lbl → Bool
  | .begin input => input.relay.policyConfigured
  | .step i _ choice => s.threads[i]?.all fun t =>
      match t.call.pc with
      | .validate envelope _ => choice.validation = validateIdTokenPolicy sampleJwt sampleAnswers
          ⟨[], some samplePolicy⟩ (Config.sampleUpstream t.call.attempt.key)
          envelope.upstreamResponse envelope.idTokenNonce
      | _ => true
  | .tick _ => true

theorem vets_of_sampleVets {events : List Codes.sampleExchanger.machine.Event}
    {s : Codes.sampleExchanger.machine.State} {label : Codes.sampleExchanger.machine.Lbl}
    (holds : sampleVets s label = true) : sampleVetting.Vets events s label where
  configured input same := by
    subst same
    exact holds
  validated i delivery choice t envelope marker same there validating := by
    subst same
    simp only [sampleVets, there, Option.all_some, validating, decide_eq_true_eq] at holds
    exact ⟨sampleAnswers, holds⟩

end OAuthRelay.Policies
