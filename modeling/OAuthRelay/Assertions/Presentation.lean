import OAuthRelay.Async.History
import OAuthRelay.Config.Resources
import OAuthRelay.Wire.Json
import OAuthRelay.Wire.Postcard

/-!
# Presentations of a client assertion

A client of a relay with `privateKeyJwt` authentication presents a signed assertion. The
calls of `authenticate` and `verify_private_key_jwt` for such a relay are a machine over the
store. Keys come from the relay's configuration, from the network, or from metadata that
names where they are; the JWT library checks the signature and the expiry. A relay that
requires single use also writes a marker for the identity of the assertion.

Times in an assertion are in whole seconds, those of the store in a finer unit.
-/

set_option autoImplicit false

namespace OAuthRelay.Assertions

open OAuthRelay.Async (Name StoreError Await Machine)
open OAuthRelay.Config (Value Url ClientJwks PrivateKeyJwt validDiscoveryUrl)
open OAuthRelay.Wire

/-! ## Requests -/

inductive Algorithm where
  | hs256
  | hs384
  | hs512
  | es256
  | es384
  | rs256
  | rs384
  | rs512
  | ps256
  | ps384
  | ps512
  | edDsa
  deriving DecidableEq

def clientAssertionAlgorithms : List Algorithm :=
  [.rs256, .rs384, .rs512, .ps256, .ps384, .ps512, .es256, .es384, .edDsa]

/-- The header of an assertion. -/
structure Header where
  alg : Algorithm
  kid : Option String

/-- A JSON web key, with the bytes that are its key material. -/
structure Jwk where
  kid : Option String
  material : List UInt8

abbrev JwkSet := List Jwk

/-- `JwkSet::find`. -/
def JwkSet.find (set : JwkSet) (kid : String) : Option Jwk :=
  List.find? (fun jwk => jwk.kid = some kid) set

/-- The fields of a token request that carry an assertion. -/
structure TokenRequest where
  clientId : Option String
  clientAssertionType : Option String
  clientAssertion : Option String

def jwtBearer : String := "urn:ietf:params:oauth:client-assertion-type:jwt-bearer"

/-- The clock skew in seconds that the JWT library allows for, its default. -/
def leeway : ℕ := 60

/-- The longest time in seconds between the issue and the expiry of a single-use assertion. -/
def maxAge : ℕ := 300

/-- Addition of two 64-bit numbers, saturating. -/
def saturatingAdd (a b : ℕ) : ℕ := min (a + b) (2 ^ 64 - 1)

/-! ## The identity of an assertion -/

/-- What an assertion is recognized by. -/
structure Identity where
  issuer : String
  subject : String
  audience : String
  jti : String
  deriving DecidableEq

/-- `to_vec` of the four strings, a JSON array. -/
def Identity.text (identity : Identity) : List Char :=
  '[' :: (Json.quote identity.issuer ++ ',' :: (Json.quote identity.subject ++
    ',' :: (Json.quote identity.audience ++ ',' :: (Json.quote identity.jti ++ [']']))))

def Identity.bytes (identity : Identity) : List UInt8 :=
  Codec.utf8Bytes (String.ofList identity.text)

/-! ## The machine -/

/-- A deployment that verifies assertions. -/
structure Verifier where
  /-- Units of the store's clock in a second. -/
  second : ℕ
  positive : 0 < second
  hasStore : Bool
  parseUrl : String → Option Url
  /-- `decode_header`. -/
  decodeHeader : String → Option Header
  /-- `from_value` of a key set. -/
  jwkSet : Value → Option JwkSet
  /-- The SHA-256 digest in base64. -/
  digest : List UInt8 → String

def replayAssertionPrefix : String := "replay:client-assertion:"

/-- The key of the marker of an assertion. -/
def Verifier.markerKey (V : Verifier) (identity : Identity) : String :=
  replayAssertionPrefix ++ V.digest identity.bytes

/-- What `verify_private_key_jwt` is called with, apart from the source of the keys. -/
structure Verification where
  audience : String
  issuer : String
  subject : String
  assertion : String
  requireSingleUse : Bool

def Verification.identity (verification : Verification) (jti : String) : Identity :=
  ⟨verification.issuer, verification.subject, verification.audience, jti⟩

/-- Where a presentation is. -/
inductive Pc where
  | metadata (header : Header) (url : Url)
  | jwks (header : Header) (url : Url)
  | refreshJwks (header : Header) (url : Url) (kid : String)
  | decode (header : Header) (jwk : Jwk)
  | checkTime (claims : Value) (time : UInt64) (rest : List String)
  | readClock (expiresAt : UInt64) (jti : String)
  /-- The backend may keep a record `longer` than its lifetime. -/
  | putMarker (expiresAt : UInt64) (jti : String) (ttl : ℕ) (marker : Name) (longer : ℕ)
  | done (accepted : Bool)

structure Call where
  verification : Verification
  pc : Pc

/-- A token request to a relay whose token endpoint has this URL. -/
structure Input where
  clientAuth : PrivateKeyJwt
  tokenEndpoint : String
  form : TokenRequest

inductive Question where
  | metadata (issuer : Url)
  | jwks (url : Url) (missingKid : Option String)
  | decode (assertion : String) (jwk : Jwk) (alg : Algorithm)
  | clock

/-- A clock reading comes with the random value drawn next, and with how much longer than its
lifetime the backend keeps a record. -/
abbrev Answer : Question → Type
  | .metadata _ => Option Value
  | .jwks .. => Option JwkSet
  | .decode .. => Option Value
  | .clock => ℕ × Name × ℕ

/-- What the environment is free in. -/
structure Choice where
  document : Option Value
  keys : Option JwkSet
  claims : Option Value
  reading : ℕ
  longer : ℕ

def answer (choice : Choice) (name : Name) : (question : Question) → Answer question
  | .metadata _ => choice.document
  | .jwks .. => choice.keys
  | .decode .. => choice.claims
  | .clock => (choice.reading, name, choice.longer)

namespace Verification

variable (V : Verifier) (verification : Verification)

/-- The key that the header asks for. -/
def useKey (header : Header) (set : JwkSet) : Pc :=
  match (match header.kid with
    | some kid => set.find kid
    | none => if set.length = 1 then set.head? else none) with
  | none => .done false
  | some jwk => .decode header jwk

/-- The keys have been fetched. A key that is missing is asked for once more. -/
def useKeys (header : Header) (url : Url) (set : JwkSet) : Pc :=
  match header.kid with
  | none => useKey header set
  | some kid =>
      if (set.find kid).isNone then .refreshJwks header url kid else useKey header set

/-- The audience is the relay's, alone or among others. -/
def audienceOk (claims : Value) : Bool :=
  match claims.get "aud" with
  | some (.string value) => value = verification.audience
  | some (.array values) => values.any fun value => value.asStr = some verification.audience
  | _ => false

/-- The checks of a single-use assertion. -/
def checkSingleUse (claims : Value) : Pc :=
  match (claims.get "iat").bind Value.asU64, (claims.get "exp").bind Value.asU64,
      ((claims.get "jti").bind Value.asStr).filter fun value => value ≠ "" with
  | some issuedAt, some expiresAt, some jti =>
      if expiresAt ≤ issuedAt || expiresAt - issuedAt > maxAge.toUInt64 then .done false
      else if V.hasStore then .readClock expiresAt jti
      else .done false
  | _, _, _ => .done false

/-- The times in the assertion that are still to be checked. -/
def checkTimes (claims : Value) : List String → Pc
  | [] =>
      if verification.audienceOk claims then
        if verification.requireSingleUse then checkSingleUse V claims else .done true
      else .done false
  | name :: rest =>
      match claims.get name with
      | none => checkTimes claims rest
      | some time =>
          match time.asU64 with
          | none => .done false
          | some time => .checkTime claims time rest

def checkClaims (claims : Value) : Pc :=
  if (claims.get "iss").bind Value.asStr ≠ some verification.issuer ||
      (claims.get "sub").bind Value.asStr ≠ some verification.subject then .done false
  else verification.checkTimes V claims ["iat", "nbf"]

/-- The lifetime in seconds of the marker: the time left until the expiry with its skew, and
one second more. -/
def markerTtl (expiresAt : UInt64) (now : ℕ) : ℕ :=
  saturatingAdd (saturatingAdd expiresAt.toNat leeway - now) 1

/-- What a presentation awaits. -/
def await : Pc → Await String Name Question Answer Pc
  | .metadata header url => .consult (.metadata url) fun
      | none => .done false
      | some doc =>
          if (doc.get "issuer").bind Value.asStr = some verification.issuer then
            match ((doc.get "jwks_uri").bind Value.asStr).bind V.parseUrl with
            | none => .done false
            | some url => if validDiscoveryUrl url then .jwks header url else .done false
          else .done false
  | .jwks header url => .consult (.jwks url none) fun
      | none => .done false
      | some set => useKeys header url set
  | .refreshJwks header url kid => .consult (.jwks url (some kid)) fun
      | none => .done false
      | some set => useKey header set
  | .decode header jwk => .consult (.decode verification.assertion jwk header.alg) fun
      | none => .done false
      | some claims => verification.checkClaims V claims
  | .checkTime claims time rest => .consult .clock fun (now, _, _) =>
      if time.toNat > saturatingAdd now leeway then .done false
      else verification.checkTimes V claims rest
  | .readClock expiresAt jti => .consult .clock fun (now, marker, longer) =>
      .putMarker expiresAt jti (markerTtl expiresAt now) marker longer
  | .putMarker _ jti ttl marker longer =>
      .putIfAbsent (V.markerKey (verification.identity jti)) marker (ttl * V.second + longer) fun
        | .ok stored => .done stored
        | .error _ => .done false
  | .done _ => .finished

/-- `verify_private_key_jwt` until its first await. -/
def start (source : Option ClientJwks) : Pc :=
  match V.decodeHeader verification.assertion with
  | none => .done false
  | some header =>
      if header.alg ∈ clientAssertionAlgorithms then
        match source with
        | some (.inline value) =>
            match V.jwkSet value with
            | none => .done false
            | some set => useKey header set
        | some (.url url) => .jwks header url
        | none =>
            match V.parseUrl verification.issuer with
            | none => .done false
            | some url => if validDiscoveryUrl url then .metadata header url else .done false
      else .done false

end Verification

namespace Call

variable (V : Verifier)

/-- `authenticate` for a relay with `PrivateKeyJwt`. -/
def start (_ : Name) (input : Input) : Call :=
  let auth := input.clientAuth
  let verification : Verification :=
    { audience := auth.audience.getD input.tokenEndpoint
      issuer := auth.issuer.getD auth.clientId
      subject := auth.subject.getD auth.clientId
      assertion := input.form.clientAssertion.getD ""
      requireSingleUse := auth.requireSingleUse }
  if input.form.clientAssertionType ≠ some jwtBearer ||
      input.form.clientId ≠ some auth.clientId || input.form.clientAssertion.isNone then
    ⟨verification, .done false⟩
  else ⟨verification, verification.start V auth.jwks⟩

def await (call : Call) : Await String Name Question Answer Call :=
  (call.verification.await V call.pc).map fun pc => { call with pc := pc }

end Call

/-- The presentations to a deployment. -/
abbrev Verifier.machine (V : Verifier) : Machine String Name where
  Input := Input
  Call := Call
  Question := Question
  Answer := Answer
  Choice := Choice
  start := Call.start V
  await := Call.await V
  answer := answer

end OAuthRelay.Assertions
