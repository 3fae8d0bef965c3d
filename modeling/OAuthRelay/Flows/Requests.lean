import OAuthRelay.Codes.Exchange
import OAuthRelay.Redirects.Matchers
import OAuthRelay.Wire.Form

/-!
# Requests

What the endpoints of a flow have in common. A request brings a form, in its query or its body,
and is refused if it repeats a parameter that is to be there once (`readPairs`). An answer sends
the browser on to a URL with a form in its query. The URL library appends to the query of a URL
(`UrlLibrary`), so what is appended is read after what was there.

A server is given by its configuration and the libraries that it uses, and the answers of its
surroundings to one request are given with the request.
-/

set_option autoImplicit false

namespace OAuthRelay.Flows

open Codes (Bytes ResourceKey UnsealError)
open Config (Rules Upstream Value)
open Redirects (Parser RedirectOptions Relay)
open Rotation (SealError)
open Wire (Codec FormCodec Pairs bytesOf)
open Wire.Codec (utf8Bytes)

/-! ## The query of a URL -/

/-- The text between the question mark and the number sign. -/
def queryText (url : List Char) : List Char :=
  ((url.takeWhile (· ≠ '#')).dropWhile (· ≠ '?')).tail

/-- The text in front of the question mark. -/
def beforeQuery (url : List Char) : List Char := url.takeWhile fun c => c ≠ '?' ∧ c ≠ '#'

theorem queryText_eq {front query rest : List Char} (plain : ∀ c ∈ front, c ≠ '?' ∧ c ≠ '#')
    (whole : '#' ∉ query) (after : ∀ c ∈ rest.head?, c = '#') :
    queryText (front ++ '?' :: query ++ rest) = query := by
  have cut : (front ++ '?' :: query ++ rest).takeWhile (· ≠ '#') = front ++ '?' :: query := by
    have inside : ∀ c ∈ front ++ '?' :: query, c ≠ '#' := by
      intro c there
      rcases List.mem_append.mp there with there | there
      · exact (plain c there).2
      · rcases List.mem_cons.mp there with rfl | there
        · decide
        · rintro rfl
          exact whole there
    rw [List.takeWhile_append_of_pos (by simpa using inside)]
    cases rest with
    | nil => simp
    | cons c rest => simp [after c rfl]
  have others : ∀ c ∈ front, decide (c ≠ '?') = true :=
    fun c there => decide_eq_true (plain c there).1
  rw [queryText, cut, List.dropWhile_append_of_pos others, List.dropWhile_cons_of_neg (by simp),
    List.tail_cons]

theorem beforeQuery_eq {front query rest : List Char} (plain : ∀ c ∈ front, c ≠ '?' ∧ c ≠ '#') :
    beforeQuery (front ++ '?' :: query ++ rest) = front := by
  rw [beforeQuery, List.append_assoc, List.takeWhile_append_of_pos (by simpa using plain)]
  simp

theorem number_sign_not_mem_queryText (url : List Char) : '#' ∉ queryText url := by
  intro inside
  have kept := (List.dropWhile_sublist _).subset (List.mem_of_mem_tail inside)
  have other := List.mem_takeWhile_imp kept
  simp at other

/-! ## Forms -/

/-- Goes through the pairs of a form, and stops at a singleton that is repeated. -/
def readPairs {σ : Type} (singleton : String → Bool) (take : σ → String × String → Option σ)
    (seen : List String) (s : σ) : Pairs → Option σ
  | [] => some s
  | p :: rest =>
      if singleton p.1 && p.1 ∈ seen then none
      else
        match take s p with
        | none => none
        | some s => readPairs singleton take (if singleton p.1 then p.1 :: seen else seen) s rest

/-- **A form that is read has every singleton at most once**, and its pairs have been taken one
after the other. -/
theorem readPairs_eq_some {σ : Type} {singleton : String → Bool}
    {take : σ → String × String → Option σ} {pairs : Pairs} {s' : σ} {seen : List String} {s : σ}
    (read : readPairs singleton take seen s pairs = some s') :
    pairs.foldlM take s = some s' ∧ ((pairs.map Prod.fst).filter singleton).Nodup ∧
      ∀ name ∈ (pairs.map Prod.fst).filter singleton, name ∉ seen := by
  induction pairs generalizing seen s with
  | nil => exact ⟨read, List.nodup_nil, nofun⟩
  | cons p rest ih =>
      unfold readPairs at read
      split at read
      · cases read
      · rename_i fresh
        split at read
        · cases read
        · rename_i s'' taken
          obtain ⟨rest', distinct, unseen⟩ := ih read
          refine ⟨?_, ?_⟩
          · rw [List.foldlM_cons, taken]
            exact rest'
          · rw [List.map_cons]
            by_cases single : singleton p.1 = true
            · rw [if_pos single] at unseen
              rw [List.filter_cons_of_pos single]
              refine ⟨List.nodup_cons.mpr ⟨fun again => ?_, distinct⟩, ?_⟩
              · exact unseen p.1 again (List.mem_cons_self ..)
              · intro name inside
                rcases List.mem_cons.mp inside with rfl | inside
                · simpa [single] using fresh
                · exact fun old => unseen name inside (List.mem_cons_of_mem _ old)
            · rw [if_neg single] at unseen
              rw [List.filter_cons_of_neg single]
              exact ⟨distinct, unseen⟩

/-- What holds of a state and is kept by every pair holds in the end. -/
theorem foldlM_invariant {σ : Type} {take : σ → String × String → Option σ}
    (invariant : σ → Pairs → Prop)
    (step : ∀ s read p s', invariant s read → take s p = some s' → invariant s' (read ++ [p]))
    {pairs : Pairs} {read : Pairs} {s s' : σ} (first : invariant s read)
    (taken : pairs.foldlM take s = some s') : invariant s' (read ++ pairs) := by
  induction pairs generalizing read s with
  | nil =>
      obtain rfl := Option.some.inj taken
      rwa [List.append_nil]
  | cons p rest ih =>
      rw [List.foldlM_cons] at taken
      obtain ⟨s'', here, taken⟩ := Option.bind_eq_some_iff.mp taken
      have whole : read ++ p :: rest = read ++ [p] ++ rest := by simp
      rw [whole]
      exact ih (step s read p s'' first here) taken

/-- `query_pairs` of a request. -/
def queryPairs (form : FormCodec) (query : Option String) : Pairs :=
  form.parse (utf8Bytes (query.getD ""))

/-! ## Libraries -/

/-- What is used of the URL library: `query_pairs_mut` appends to the query of a URL, and leaves
what is in front of it. -/
structure UrlLibrary (form : FormCodec) where
  appendPairs : Config.Url → Pairs → Config.Url
  query : ∀ url pairs, queryText (appendPairs url pairs).asStr.toList =
    pairs.foldl form.append (queryText url.asStr.toList)
  before : ∀ url pairs,
    beforeQuery (appendPairs url pairs).asStr.toList = beforeQuery url.asStr.toList

/-- **What is appended to the query of a URL is read after what was there.** -/
theorem UrlLibrary.decode {form : FormCodec} (urls : UrlLibrary form) (url : Config.Url)
    (pairs : Pairs) : form.decode (queryText (urls.appendPairs url pairs).asStr.toList) =
      form.decode (queryText url.asStr.toList) ++ pairs := by
  rw [urls.query, FormCodec.decode_foldl_append]

/-- The library on texts. -/
def urlTexts (form : FormCodec) : UrlLibrary form where
  appendPairs url pairs :=
    let text := url.asStr.toList
    { url with
      asStr := String.ofList <| beforeQuery text ++
        '?' :: pairs.foldl form.append (queryText text) ++ text.dropWhile (· ≠ '#')
      query := some (String.ofList (pairs.foldl form.append (queryText text))) }
  query url pairs := by
    rw [String.toList_ofList]
    refine queryText_eq ?_ ?_ ?_
    · intro c inside
      simpa using List.mem_takeWhile_imp inside
    · intro inside
      rcases FormCodec.plain_foldl_append pairs _ '#' inside with old | plain | separator
      · exact number_sign_not_mem_queryText _ old
      · exact (FormCodec.ascii_of_isFormChar plain).2.2.2 rfl
      · exact absurd separator (by decide)
    · intro c first
      have last := List.head?_dropWhile_not (· ≠ '#') url.asStr.toList
      rw [Option.mem_def.mp first] at last
      exact Decidable.not_not.mp (of_decide_eq_false last)
  before url pairs := by
    rw [String.toList_ofList]
    refine beforeQuery_eq fun c inside => ?_
    simpa using List.mem_takeWhile_imp inside

/-! ## Servers -/

variable {parse : Parser} {rules : Rules}

/-- The configuration of a server, with its libraries. -/
structure Server where
  form : FormCodec
  urls : UrlLibrary form
  redirect : RedirectOptions
  hasStore : Bool
  /-- `endpoint_url` of the callback of an upstream. -/
  callbackUrl : ResourceKey → String
  pkceChallenge : String → String
  /-- `byte_serialize` of the library for forms. -/
  byteSerialize : String → String
  base64 : List UInt8 → String
  /-- What `HeaderValue::from_str` accepts. -/
  isHeaderValue : String → Bool

/-- What the surroundings of a server answer to one request. -/
structure Surroundings (parse : Parser) (rules : Rules) where
  /-- `Sealer::seal` of bytes under associated data. -/
  sealBytes : List UInt8 → List UInt8 → Except SealError String
  /-- `Sealer::unseal` of a text under associated data. -/
  unsealBytes : String → List UInt8 → Except SealError (List UInt8)
  resolveRelay : ResourceKey → Except Unit (Option (Relay parse rules))
  /-- The discovery document of the upstream, or the status that says why there is none. -/
  discovery : Except ℕ Value
  /-- `fingerprint` of a relay and its upstream. -/
  fingerprint : Relay parse rules → Upstream → Bytes 32
  now : ℕ

/-- A rotating relay cannot work without a transient store. -/
def rotationStoreMissing (server : Server) (relay : Relay parse rules) : Bool :=
  relay.refreshTokens.mode = .rotating && !server.hasStore

/-- A redirect to a location, or a status. -/
def found (server : Server) (location : String) : Except ℕ String :=
  if server.isHeaderValue location then .ok location else .error 500

theorem eq_of_found {server : Server} {location location' : String}
    (answered : found server location = .ok location') : location' = location := by
  unfold found at answered
  split at answered
  · exact (Except.ok.inj answered).symm
  · cases answered

def sealPostcard {α : Type} (around : Surroundings parse rules) (codec : Codec α)
    (key : ResourceKey) (value : α) : Except ℕ String :=
  match around.sealBytes (codec.encode value) (utf8Bytes key.value) with
  | .ok text => .ok text
  | .error .unavailable => .error 503
  | .error _ => .error 500

def unsealPostcard {α : Type} (around : Surroundings parse rules) (codec : Codec α)
    (key : ResourceKey) (text : String) : Except UnsealError α :=
  match around.unsealBytes text (utf8Bytes key.value) with
  | .ok bytes =>
      match codec.fromBytes bytes with
      | some value => .ok value
      | none => .error .invalid
  | .error .unavailable => .error .unavailable
  | .error _ => .error .invalid

/-! ## Endpoints of an upstream -/

structure ResolvedEndpoints where
  authorizationEndpoint : Config.Url
  tokenEndpoint : Config.Url

/-- A member of a document that is the text of a URL. -/
def urlField (parse : Parser) (doc : Value) (name : String) : Option Config.Url :=
  ((doc.get name).bind Value.asStr).bind fun text =>
    (parse text).toOption.map Redirects.Url.toConfig

def endpointsNeedDiscovery (upstream : Upstream) : Bool :=
  upstream.authorizationEndpoint.isNone || upstream.tokenEndpoint.isNone

def resolveEndpointsFromDoc (parse : Parser) (upstream : Upstream) (doc : Value) :
    Except ℕ ResolvedEndpoints :=
  match upstream.authorizationEndpoint.or (urlField parse doc "authorization_endpoint"),
    upstream.tokenEndpoint.or (urlField parse doc "token_endpoint") with
  | some authorizationEndpoint, some tokenEndpoint => .ok ⟨authorizationEndpoint, tokenEndpoint⟩
  | _, _ => .error 502

/-- `resolve_endpoints`: from the configuration, or from the upstream's discovery document. -/
def resolveEndpoints (around : Surroundings parse rules) (upstream : Upstream) :
    Except ℕ ResolvedEndpoints :=
  if endpointsNeedDiscovery upstream then
    match around.discovery with
    | .ok doc => resolveEndpointsFromDoc parse upstream doc
    | .error status => .error status
  else resolveEndpointsFromDoc parse upstream (.object [])

/-! ## A server for concrete runs -/

def sampleServer : Server where
  form := Wire.urlencoded fun _ => ""
  urls := urlTexts _
  redirect := ⟨false, false⟩
  hasStore := false
  callbackUrl key := "https://relay/upstream/" ++ key.value ++ "/callback"
  pkceChallenge verifier := "hash-" ++ verifier
  byteSerialize text := String.ofList (Wire.encodeText text)
  base64 bytes := String.ofList (bytes.map fun byte => Char.ofNat byte.toNat)
  isHeaderValue text := (utf8Bytes text).all fun byte => 32 ≤ byte && byte < 127

/-- The URL of an upstream with a path and a query. -/
def sampleUrl (path : String) (query : Option String) : Config.Url :=
  ⟨"https://issuer" ++ path ++ (query.map ("?" ++ ·)).getD "", "https", some ("issuer", false), "",
    none, path, query, none⟩

def sampleUpstream : Upstream where
  key := Codes.sampleKey
  issuerUrl := sampleUrl "/" none
  authorizationEndpoint := some (sampleUrl "/authorize" (some "a=b"))
  tokenEndpoint := some (sampleUrl "/token" none)
  jwksUri := none
  clientId := "id"
  clientSecret := "secret"
  tokenEndpointAuthMethod := .clientSecretPost

end OAuthRelay.Flows
