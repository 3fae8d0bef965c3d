import OAuthRelay.Config.Resources

/-!
# Requests and the registry

The registry holds one snapshot, and a replacement swaps it for another in one step. Every
lookup reads the snapshot that is held at that moment. A request makes two: `dispatch` looks
up a relay and then the relay's upstream, and a callback an upstream and then the relay that
its flow names. Replacements may fall between the two.

A replacement is harmless to a request between its lookups if what the request has found and
what it will find now are in one published snapshot. With harmless replacements a request
works with one configuration (`one_configuration`).
-/

set_option autoImplicit false

namespace OAuthRelay.Config

open OAuthRelay.Codes (ResourceKey)

variable {R : Rules}

/-! ## Requests -/

inductive Endpoint where
  | authorize
  | callback
  | token
  | discovery
  | jwks
  deriving DecidableEq

inductive Method where
  | get
  | post
  | options
  | other
  deriving DecidableEq

/-- A request whose path names an endpoint and a key. -/
structure Request where
  endpoint : Endpoint
  key : ResourceKey
  method : Method
  /-- `parse_callback_request` succeeds. -/
  parses : Bool
  /-- The relay key in the flow that the state opens to under the key of an upstream, or the
  status that a state is answered with that does not open. -/
  flow : ResourceKey → Except ℕ String

/-- Why a request ends before it is worked on. -/
inductive Failure where
  | unknownRelay
  | upstreamUnavailable
  | relayInvalid
  | methodNotAllowed
  | status (code : ℕ)

inductive Reply where
  | status (code : ℕ)
  | oauthError (code : ℕ) (error description : String)

/-- The answer to a failed request. The token endpoint answers with an OAuth error. -/
def Failure.reply (endpoint : Endpoint) : Failure → Reply
  | unknownRelay =>
      if endpoint = .token then .oauthError 404 "invalid_request" "unknown relay"
      else .status 404
  | upstreamUnavailable =>
      if endpoint = .token then .oauthError 500 "server_error" "relay upstream is unavailable"
      else .status 500
  | relayInvalid =>
      if endpoint = .token then .oauthError 500 "server_error" "relay configuration is invalid"
      else .status 500
  | methodNotAllowed => .status 405
  | status code => .status code

/-- Where a request is. -/
inductive Pc (R : Rules) where
  | resolveRelay
  | resolveUpstream (relay : Relay R)
  | resolveCallbackUpstream
  | resolveFlowRelay (upstream : Upstream) (relayKey : ResourceKey)
  /-- The request is worked on with this relay and this upstream, which was found under the
  key `upstreamKey`. -/
  | serves (relayKey : ResourceKey) (relay : Relay R) (upstreamKey : ResourceKey)
      (upstream : Upstream)
  | preflights (relay : Relay R)
  | failed (failure : Failure)

/-- `dispatch` until its first lookup. -/
def Pc.start (request : Request) : Pc R :=
  if request.endpoint = .callback then .resolveCallbackUpstream else .resolveRelay

/-- The rest of `dispatch` when both lookups have found something. -/
def serve (allowHttpOrigins : Bool) (request : Request) (relay : Relay R) (upstream : Upstream) :
    Pc R :=
  match relay.validateFor allowHttpOrigins with
  | .error _ => .failed .relayInvalid
  | .ok _ =>
      match request.endpoint, request.method with
      | .authorize, .get | .token, .post | .discovery, .get | .jwks, .get =>
          .serves request.key relay relay.upstream upstream
      | .token, .options => .preflights relay
      | _, _ => .failed .methodNotAllowed

/-- `callback` until it looks up the relay. The sealer, which opens the state, does not use the
registry. -/
def openFlow (request : Request) (upstream : Upstream) : Pc R :=
  match upstream.validate with
  | .error _ => .failed (.status 500)
  | .ok _ =>
      if request.method ≠ .get then .failed .methodNotAllowed
      else if !request.parses then .failed (.status 400)
      else
        match request.flow upstream.key with
        | .error code => .failed (.status code)
        | .ok relayKey =>
            match ResourceKey.new relayKey with
            | none => .failed (.status 400)
            | some relayKey => .resolveFlowRelay upstream relayKey

/-- A lookup, with the snapshot that the registry holds. -/
def Pc.next (allowHttpOrigins : Bool) (resources : ProviderSnapshot R) (request : Request) :
    Pc R → Option (Pc R)
  | resolveRelay =>
      match resources.relays.lookup request.key with
      | none => some (.failed .unknownRelay)
      | some relay => some (.resolveUpstream relay)
  | resolveUpstream relay =>
      match resources.upstreams.lookup relay.upstream with
      | none => some (.failed .upstreamUnavailable)
      | some upstream => some (serve allowHttpOrigins request relay upstream)
  | resolveCallbackUpstream =>
      match resources.upstreams.lookup request.key with
      | none => some (.failed (.status 404))
      | some upstream => some (openFlow request upstream)
  | resolveFlowRelay upstream relayKey =>
      match resources.relays.lookup relayKey with
      | none => some (.failed (.status 400))
      | some relay =>
          if relay.upstream = upstream.key then
            match relay.validateFor allowHttpOrigins with
            | .error _ => some (.failed (.status 400))
            | .ok _ => some (.serves relayKey relay request.key upstream)
          else some (.failed (.status 400))
  | serves .. | preflights _ | failed _ => none

/-! ## Runs -/

structure Thread (R : Rules) where
  request : Request
  pc : Pc R

/-- The registry and the requests. -/
structure State (R : Rules) where
  resources : ProviderSnapshot R
  threads : List (Thread R)

inductive Label (R : Rules) where
  | replace (resources : ProviderSnapshot R)
  | begin (request : Request)
  | step (index : ℕ)

/-- The snapshot that a step publishes. -/
def Label.publishes : Label R → List (ProviderSnapshot R)
  | replace resources => [resources]
  | _ => []

def step (allowHttpOrigins : Bool) (s : State R) : Label R → Option (State R)
  | .replace resources => some { s with resources := resources }
  | .begin request => some { s with threads := s.threads ++ [⟨request, .start request⟩] }
  | .step index =>
      match s.threads[index]? with
      | none => none
      | some t =>
          (t.pc.next allowHttpOrigins s.resources t.request).map fun pc =>
            { s with threads := s.threads.set index { t with pc := pc } }

/-- Runs from an empty registry, with the snapshots published so far and what is assumed of
their steps. -/
inductive Runs (allowHttpOrigins : Bool)
    (permitted : List (ProviderSnapshot R) → State R → Label R → Prop) :
    List (ProviderSnapshot R) → State R → Prop
  | nil : Runs allowHttpOrigins permitted [.empty] ⟨.empty, []⟩
  | cons {published : List (ProviderSnapshot R)} {s s' : State R} (label : Label R)
      (run : Runs allowHttpOrigins permitted published s) (allowed : permitted published s label)
      (taken : step allowHttpOrigins s label = some s') :
      Runs allowHttpOrigins permitted (label.publishes ++ published) s'

/-! ## One configuration -/

/-- A published snapshot has both under their keys. -/
def Together (published : List (ProviderSnapshot R)) (relayKey : ResourceKey) (relay : Relay R)
    (upstreamKey : ResourceKey) (upstream : Upstream) : Prop :=
  ∃ snapshot ∈ published, snapshot.relays.lookup relayKey = some relay ∧
    snapshot.upstreams.lookup upstreamKey = some upstream

/-- **A request sees one configuration.** -/
structure OneConfiguration (published : List (ProviderSnapshot R)) (s : State R) : Prop where
  together : ∀ (i : ℕ) (request : Request) relayKey relay upstreamKey upstream,
    s.threads[i]? = some ⟨request, .serves relayKey relay upstreamKey upstream⟩ →
    Together published relayKey relay upstreamKey upstream
  found : ∀ (i : ℕ) (request : Request),
    s.threads[i]? ≠ some ⟨request, .failed .upstreamUnavailable⟩

/-- The endpoint has a handler for the method that works with the upstream. -/
def Request.handled (request : Request) : Bool :=
  match request.endpoint, request.method with
  | .authorize, .get | .token, .post | .discovery, .get | .jwks, .get => true
  | _, _ => false

/-- What the snapshot has for the second lookup of a request that has made its first. A relay's
upstream is there. A request that will be worked on finds what was published together. -/
def Pc.Fits (allowHttpOrigins : Bool) (published : List (ProviderSnapshot R))
    (resources : ProviderSnapshot R) (request : Request) : Pc R → Prop
  | resolveUpstream relay =>
      ∃ upstream, resources.upstreams.lookup relay.upstream = some upstream ∧
        (relay.validateFor allowHttpOrigins = .ok () → request.handled = true →
          Together published request.key relay relay.upstream upstream)
  | resolveFlowRelay upstream relayKey =>
      ∀ relay, resources.relays.lookup relayKey = some relay → relay.upstream = upstream.key →
        relay.validateFor allowHttpOrigins = .ok () →
        Together published relayKey relay request.key upstream
  | _ => True

/-- A published snapshot is valid. -/
def Label.Valid : Label R → Prop
  | replace resources => resources.validate = .ok ()
  | _ => True

/-- A published snapshot fits every request that is between its lookups. -/
def Label.Harmless (allowHttpOrigins : Bool) (published : List (ProviderSnapshot R))
    (s : State R) : Label R → Prop
  | replace resources => ∀ (i : ℕ) (t : Thread R), s.threads[i]? = some t →
      t.pc.Fits allowHttpOrigins (resources :: published) resources t.request
  | _ => True

variable {allowHttpOrigins : Bool} {published : List (ProviderSnapshot R)} {s : State R}

theorem Together.mono {published' : List (ProviderSnapshot R)} (inside : published ⊆ published')
    {relayKey upstreamKey : ResourceKey} {relay : Relay R} {upstream : Upstream}
    (together : Together published relayKey relay upstreamKey upstream) :
    Together published' relayKey relay upstreamKey upstream := by
  obtain ⟨snapshot, member, found⟩ := together
  exact ⟨snapshot, inside member, found⟩

/-- What a request has found so far is from one configuration, and so is what it would find
now. -/
def Pc.Coherent (allowHttpOrigins : Bool) (published : List (ProviderSnapshot R))
    (resources : ProviderSnapshot R) (request : Request) : Pc R → Prop
  | serves relayKey relay upstreamKey upstream =>
      Together published relayKey relay upstreamKey upstream
  | failed failure => failure ≠ .upstreamUnavailable
  | pc => pc.Fits allowHttpOrigins published resources request

/-- A snapshot that is held is published and valid. -/
structure Holds (published : List (ProviderSnapshot R)) (resources : ProviderSnapshot R) :
    Prop where
  published : resources ∈ published
  valid : resources.validate = .ok ()

variable {resources : ProviderSnapshot R} {request : Request}

theorem coherent_start :
    (Pc.start request).Coherent allowHttpOrigins published resources request := by
  unfold Pc.start
  split <;> trivial

theorem serve_of_handled {relay : Relay R} {upstream : Upstream}
    (passes : relay.validateFor allowHttpOrigins = .ok ()) (handled : request.handled = true) :
    serve allowHttpOrigins request relay upstream =
      .serves request.key relay relay.upstream upstream := by
  unfold Request.handled at handled
  unfold serve
  rw [passes]
  split at handled <;> simp_all

theorem coherent_serve {relay : Relay R} {upstream : Upstream}
    (together : relay.validateFor allowHttpOrigins = .ok () → request.handled = true →
      Together published request.key relay relay.upstream upstream) :
    (serve allowHttpOrigins request relay upstream).Coherent allowHttpOrigins published resources
      request := by
  by_cases handled : request.handled = true
  · cases passes : relay.validateFor allowHttpOrigins with
    | error =>
        unfold serve
        rw [passes]
        exact fun same => Failure.noConfusion same
    | ok =>
        rw [serve_of_handled passes handled]
        exact together passes handled
  · unfold Request.handled at handled
    unfold serve
    split
    · exact fun same => Failure.noConfusion same
    · split <;> simp_all [Pc.Coherent, Pc.Fits]

theorem coherent_openFlow (holds : Holds published resources) {upstream : Upstream}
    (found : resources.upstreams.lookup request.key = some upstream) :
    (openFlow request upstream : Pc R).Coherent allowHttpOrigins published resources request := by
  unfold openFlow
  repeat' split
  · exact fun same => Failure.noConfusion same
  · exact fun same => Failure.noConfusion same
  · exact fun same => Failure.noConfusion same
  · exact fun same => Failure.noConfusion same
  · exact fun same => Failure.noConfusion same
  · intro relay there _ _
    exact ⟨resources, holds.published, there, found⟩

/-- **A lookup keeps a request coherent.** -/
theorem coherent_next (holds : Holds published resources) {p q : Pc R}
    (coherent : p.Coherent allowHttpOrigins published resources request)
    (next : p.next allowHttpOrigins resources request = some q) :
    q.Coherent allowHttpOrigins published resources request := by
  cases p with
  | resolveRelay =>
      simp only [Pc.next] at next
      split at next
      · cases next
        exact fun same => Failure.noConfusion same
      · rename_i relay found
        cases next
        obtain ⟨upstream, there⟩ := ProviderSnapshot.exists_upstream holds.valid found
        exact ⟨upstream, there, fun _ _ => ⟨resources, holds.published, found, there⟩⟩
  | resolveUpstream relay =>
      obtain ⟨upstream, there, together⟩ := coherent
      simp only [Pc.next, there, Option.some.injEq] at next
      subst next
      exact coherent_serve together
  | resolveCallbackUpstream =>
      simp only [Pc.next] at next
      split at next
      · cases next
        exact fun same => Failure.noConfusion same
      · rename_i upstream found
        cases next
        exact coherent_openFlow holds found
  | resolveFlowRelay upstream relayKey =>
      simp only [Pc.next] at next
      repeat' split at next
      · cases next
        exact fun same => Failure.noConfusion same
      · cases next
        exact fun same => Failure.noConfusion same
      · rename_i relay found refers _ _ passes
        cases next
        exact coherent relay found refers passes
      · cases next
        exact fun same => Failure.noConfusion same
  | serves | preflights | failed => cases next

theorem coherent_replace {resources' : ProviderSnapshot R} {p : Pc R}
    (coherent : p.Coherent allowHttpOrigins published resources request)
    (fits : p.Fits allowHttpOrigins (resources' :: published) resources' request) :
    p.Coherent allowHttpOrigins (resources' :: published) resources' request := by
  cases p with
  | serves => exact coherent.mono (List.subset_cons_self ..)
  | failed => exact coherent
  | _ => exact fits

/-- The registry holds a valid snapshot, and all requests are coherent. -/
structure Settled (allowHttpOrigins : Bool) (published : List (ProviderSnapshot R))
    (s : State R) : Prop where
  holds : Holds published s.resources
  coherent : ∀ (i : ℕ) (t : Thread R), s.threads[i]? = some t →
    t.pc.Coherent allowHttpOrigins published s.resources t.request

theorem settled_step {s' : State R} {label : Label R}
    (settled : Settled allowHttpOrigins published s) (valid : label.Valid)
    (harmless : label.Harmless allowHttpOrigins published s)
    (taken : step allowHttpOrigins s label = some s') :
    Settled allowHttpOrigins (label.publishes ++ published) s' := by
  cases label with
  | replace resources =>
      cases taken
      refine ⟨⟨List.mem_cons_self .., valid⟩, ?_⟩
      intro i t there
      exact coherent_replace (settled.coherent i t there) (harmless i t there)
  | begin request =>
      cases taken
      refine ⟨settled.holds, ?_⟩
      intro i t there
      rw [List.getElem?_append] at there
      split at there
      · exact settled.coherent i t there
      · obtain rfl := List.mem_singleton.mp (List.mem_of_getElem? there)
        exact coherent_start
  | step index =>
      simp only [step] at taken
      split at taken
      · cases taken
      · rename_i t there
        obtain ⟨pc, next, rfl⟩ := Option.map_eq_some_iff.mp taken
        refine ⟨settled.holds, ?_⟩
        intro i t' there'
        rcases Nat.decEq index i with other | rfl
        · rw [List.getElem?_set_ne other] at there'
          exact settled.coherent i t' there'
        · rw [List.getElem?_set_self', there] at there'
          cases there'
          exact coherent_next settled.holds (settled.coherent _ t there) next

/-- **With replacements that are harmless to the requests under way, every request sees one
configuration.** -/
theorem one_configuration
    (run : Runs allowHttpOrigins
      (fun published s label => label.Valid ∧ label.Harmless allowHttpOrigins published s)
      published s) : OneConfiguration published s := by
  have settled : Settled allowHttpOrigins published s := by
    induction run with
    | nil => exact ⟨⟨List.mem_singleton_self _, rfl⟩, fun i t there => by cases there⟩
    | cons _ _ allowed taken ih => exact settled_step ih allowed.1 allowed.2 taken
  refine ⟨?_, ?_⟩
  · intro i request relayKey relay upstreamKey upstream there
    exact settled.coherent i _ there
  · intro i request there
    exact settled.coherent i _ there rfl

/-- **A request that a replacement does not fit sees two configurations.** -/
theorem exists_torn {i : ℕ} {t : Thread R} (there : s.threads[i]? = some t)
    (misfit : ¬ t.pc.Fits allowHttpOrigins published s.resources t.request) :
    ∃ s', step allowHttpOrigins s (.step i) = some s' ∧ ¬ OneConfiguration published s' := by
  obtain ⟨request, p⟩ := t
  have inside : i < s.threads.length := (List.getElem?_eq_some_iff.mp there).1
  have reached : ∀ q, p.next allowHttpOrigins s.resources request = some q →
      ∃ s', step allowHttpOrigins s (.step i) = some s' ∧ s'.threads[i]? = some ⟨request, q⟩ := by
    intro q next
    refine ⟨_, by simp only [step, there, next]; rfl, List.getElem?_set_self inside⟩
  cases p with
  | resolveUpstream relay =>
      cases found : s.resources.upstreams.lookup relay.upstream with
      | none =>
          obtain ⟨s', taken, failed⟩ := reached _ (by simp only [Pc.next, found]; rfl)
          exact ⟨s', taken, fun one => one.found i request failed⟩
      | some upstream =>
          have apart : ¬ (relay.validateFor allowHttpOrigins = .ok () → request.handled = true →
              Together published request.key relay relay.upstream upstream) :=
            fun together => misfit ⟨upstream, found, together⟩
          push Not at apart
          obtain ⟨passes, handled, apart⟩ := apart
          obtain ⟨s', taken, serves⟩ := reached _ (by simp only [Pc.next, found]; rfl)
          rw [serve_of_handled passes handled] at serves
          exact ⟨s', taken, fun one => apart (one.together i request _ _ _ _ serves)⟩
  | resolveFlowRelay upstream relayKey =>
      simp only [Pc.Fits, not_forall] at misfit
      obtain ⟨relay, found, refers, passes, apart⟩ := misfit
      obtain ⟨s', taken, serves⟩ := reached (.serves relayKey relay request.key upstream)
        (by simp only [Pc.next, found, refers, passes, if_true])
      exact ⟨s', taken, fun one => apart (one.together i request _ _ _ _ serves)⟩
  | _ => exact absurd trivial misfit

/-! ## A replacement between two lookups -/

/-- Redirect URIs are taken as they are. -/
def sampleRules : Rules where
  parseUrl _ := none
  Matcher := String
  identity := id
  validateMatcher _ := pure ()
  httpOrigin _ := none
  Policy := Empty
  validatePolicy policy := policy.elim

def oldKey : ResourceKey where
  value := "old"
  valid := by decide +kernel
  fits := OAuthRelay.Wire.Codec.string_fitting.mpr (by decide +kernel)

def newKey : ResourceKey where
  value := "new"
  valid := by decide +kernel
  fits := OAuthRelay.Wire.Codec.string_fitting.mpr (by decide +kernel)

def sampleUrl : Url :=
  ⟨"https://issuer.example/", "https", some ("issuer.example", false), "", none, "/", none, none⟩

def sampleUpstream (key : ResourceKey) : Upstream :=
  ⟨key, sampleUrl, none, none, none, "id", "secret", .clientSecretPost⟩

def sampleRelay (upstream : ResourceKey) (scopes : List String) : Relay sampleRules :=
  ⟨Codes.sampleKey, upstream, none, .upstreamClient, scopes, none, [], none,
    ⟨.passthrough, 30, 2592000⟩, ["https://app.example/callback"]⟩

/-- One relay and its upstream. -/
def sampleSnapshot (upstream : ResourceKey) (scopes : List String) :
    ProviderSnapshot sampleRules where
  upstreams := AList.singleton upstream (sampleUpstream upstream)
  relays := AList.singleton Codes.sampleKey (sampleRelay upstream scopes)

/-- A request to the token endpoint of the relay. -/
def sampleRequest : Request := ⟨.token, Codes.sampleKey, .post, true, fun _ => .error 400⟩

/-- A snapshot is published, and a request looks up its relay. -/
def beforeUpstream (snapshot : ProviderSnapshot sampleRules) (relay : Relay sampleRules) :
    State sampleRules :=
  ⟨snapshot, [⟨sampleRequest, .resolveUpstream relay⟩]⟩

/-- The scopes of a relay change while a request is between its lookups. It is worked on with
the scopes that it found. -/
theorem one_configuration_of_scopes : ∃ published s,
    s.threads[0]? = some ⟨sampleRequest, .serves Codes.sampleKey (sampleRelay oldKey ["openid"])
      oldKey (sampleUpstream oldKey)⟩ ∧
    OneConfiguration (R := sampleRules) published s := by
  let first := sampleSnapshot oldKey ["openid"]
  let second := sampleSnapshot oldKey ["email"]
  have looked : Runs false
      (fun published s label => label.Valid ∧ label.Harmless false published s) [first, .empty]
      (beforeUpstream first (sampleRelay oldKey ["openid"])) :=
    .cons (.step 0) (.cons (.begin sampleRequest) (.cons (.replace first) .nil
      ⟨by rfl, fun _ _ there => by cases there⟩ rfl) ⟨trivial, trivial⟩ rfl) ⟨trivial, trivial⟩ rfl
  have fits : (Label.replace second).Harmless false [first, .empty]
      (beforeUpstream first (sampleRelay oldKey ["openid"])) := by
    intro i t there
    obtain rfl := List.mem_singleton.mp (List.mem_of_getElem? there)
    exact ⟨sampleUpstream oldKey, rfl, fun _ _ => ⟨first, by simp, rfl, rfl⟩⟩
  have served := Runs.cons (.step 0) (.cons (.replace second) looked ⟨by rfl, fits⟩ rfl)
    ⟨trivial, trivial⟩ rfl
  exact ⟨_, _, rfl, one_configuration served⟩

/-- **A replacement between the two lookups of a request makes it fail.** Both snapshots are
valid. The relay of the first refers to an upstream that is not in the second. -/
theorem not_one_configuration :
    ¬ ∀ (R : Rules) (allowHttpOrigins : Bool) (published : List (ProviderSnapshot R))
      (s : State R), Runs allowHttpOrigins (fun _ _ label => label.Valid) published s →
      OneConfiguration published s := by
  intro all
  let first := sampleSnapshot oldKey ["openid"]
  let second := sampleSnapshot newKey ["openid"]
  have looked : Runs false (fun _ _ label => label.Valid) [first, .empty]
      (beforeUpstream first (sampleRelay oldKey ["openid"])) :=
    .cons (.step 0) (.cons (.begin sampleRequest) (.cons (.replace first) .nil (by rfl) rfl)
      trivial rfl) trivial rfl
  have failed : Runs false (fun _ _ label => label.Valid) [second, first, .empty]
      ⟨second, [⟨sampleRequest, .failed .upstreamUnavailable⟩]⟩ :=
    .cons (.step 0) (.cons (.replace second) looked (by rfl) rfl) trivial rfl
  exact (all _ _ _ _ failed).found 0 sampleRequest rfl

end OAuthRelay.Config
