import OAuthRelay.Flows.Handles
import OAuthRelay.Responses.Sealing

/-!
# A relay in sealed mode gets out of the way

In sealed mode a client of the relay holds handles where a client of the upstream would hold refresh
tokens, and the relay keeps nothing. It opens the handle that it is given, asks the upstream for a
refresh with the token, and seals the tokens of the answer.

Any number of such requests are under way at a time, of all kinds of relays and upstreams, while the
key of the sealer changes. What passes through them is what would pass between a client and the
upstream (`sealed_mode_transparent`). The upstream is asked what the client asks, with a token in
the place of the handle. The upstream has given out this token itself, in an answer for the same
relay and the same identity of the upstream, and the handle is what the relay made of it. The client
gets the answer with a handle in the place of each token, and all else as it was. And a handle that
was made leads back to its token as long as its key is known.
-/

set_option autoImplicit false

namespace OAuthRelay.Flows.Transparency

open OAuthRelay.Wire OAuthRelay.Wire.Json
open Async.Steps (Runs)
open Codes (Bytes HandleBinding)
open Handles (Libraries Handle)
open Redirects (Parser)
open Config (Rules Upstream)
open Responses (usableToken sealTokenResponse)

variable {parse : Parser} {rules : Rules}

/-! ## The relay -/

/-- What a relay in sealed mode runs on. -/
structure Relaying where
  server : Server
  lib : Libraries
  json : SerdeJson

variable (X : Relaying)

/-- Where a request is. -/
inductive Pc where
  /-- The request is with the upstream. -/
  | asking (request : UpstreamRequest)
  /-- The answer is there. Some of its tokens are sealed, and some are left. -/
  | sealing (answer : StoredResponse) (handles : List (String × String)) (left : List String)
  | answered (answer output : StoredResponse)
  | refused

structure Call where
  binding : HandleBinding
  pc : Pc

structure State where
  sealer : Handles.State X.lib
  calls : List Call

inductive Label (parse : Parser) (rules : Rules) where
  /-- The key changes, or something else is sealed. -/
  | sealer (label : Handles.Label)
  | refresh (relay : Redirects.Relay parse rules) (upstream : Upstream)
      (around : Surroundings parse rules) (form : TokenRequest)
  /-- A code is redeemed, which has the upstream's answer in it. -/
  | redeem (binding : HandleBinding) (answer : StoredResponse)
  | respond (i : ℕ) (answer : StoredResponse)
  /-- The next token of an answer is sealed. -/
  | sealToken (i : ℕ) (handle : Handle) (nonce : Bytes 24)
  | finish (i : ℕ)

/-- The tokens of an answer that have to be replaced. -/
def tokensOf (json : SerdeJson) (answer : StoredResponse) : List String :=
  if successStatus answer.status then
    ((json.members answer.body).getD []).filterMap (usableToken json)
  else []

def received (json : SerdeJson) (answer : StoredResponse) : Pc :=
  .sealing answer [] (tokensOf json answer)

/-- The handle for the token that is sealed after `n` others. -/
def handleAt (handles : List (String × String)) (n : ℕ) (token : String) :
    Except Codes.HandleError String :=
  match handles[n]? with
  | some sealed => if sealed.1 = token then .ok sealed.2 else .error .invalid
  | none => .error .invalid

variable {X}

/-- The surroundings of a request, with the sealer as it is. -/
def State.around (s : State X) (around : Surroundings parse rules) : Surroundings parse rules :=
  { around with unsealBytes := s.sealer.keys.unsealBytes s.sealer.log }

def State.set (s : State X) (i : ℕ) (call : Call) : State X :=
  { s with calls := s.calls.set i call }

def step (s : State X) : Label parse rules → Option (State X)
  | .sealer label => (Handles.step s.sealer label).map fun sealer => { s with sealer := sealer }
  | .refresh relay upstream around form =>
      let binding : HandleBinding := ⟨relay.key, around.fingerprint relay upstream⟩
      match refresh X.server (s.around around) relay upstream form with
      | .send (.ok request) => some { s with calls := s.calls ++ [⟨binding, .asking request⟩] }
      | _ => some { s with calls := s.calls ++ [⟨binding, .refused⟩] }
  | .redeem binding answer =>
      some { s with calls := s.calls ++ [⟨binding, received X.json answer⟩] }
  | .respond i answer =>
      match s.calls[i]? with
      | some ⟨binding, .asking _⟩ => some (s.set i ⟨binding, received X.json answer⟩)
      | _ => none
  | .sealToken i handle nonce =>
      match s.calls[i]? with
      | some ⟨binding, .sealing answer handles (token :: left)⟩ =>
          if handle.val.upstreamToken = token then
            let pc :=
              match Handles.sealHandle (s.sealer.keys.sealer s.sealer.log nonce) binding
                handle.val with
              | .ok text => .sealing answer (handles ++ [(token, text)]) left
              | .error _ => .refused
            (Handles.step s.sealer (.sealHandle binding handle nonce)).map fun sealer =>
              ⟨sealer, s.calls.set i ⟨binding, pc⟩⟩
          else none
      | _ => none
  | .finish i =>
      match s.calls[i]? with
      | some ⟨binding, .sealing answer handles []⟩ =>
          match sealTokenResponse X.json (handleAt handles) answer.status answer.body with
          | .ok body => some (s.set i
              ⟨binding, .answered answer { answer with body := body.getD answer.body }⟩)
          | .error _ => some (s.set i ⟨binding, .refused⟩)
      | _ => none

abbrev Event (X : Relaying) (parse : Parser) (rules : Rules) :=
  Async.Steps.Event (State X) (Label parse rules)

/-- The relays are in sealed mode, forms have been read, nonces are new, and nothing else makes
handles. -/
def Permitted (_ : List (Event X parse rules)) (s : State X) : Label parse rules → Prop
  | .sealer label => Handles.Fresh [] s.sealer label ∧
      ∀ binding handle nonce, label ≠ .sealHandle binding handle nonce
  | .refresh relay _ _ form => relay.refreshTokens.mode = .sealed ∧
      ∃ body, parseTokenRequest X.server.form body = some form
  | .sealToken _ _ nonce => ∀ e ∈ s.sealer.log, e.nonce ≠ nonce
  | _ => True

/-! ## What is promised -/

/-- The step makes a handle of a token, for the call `i`. -/
structure Makes (e : Event X parse rules) (i : ℕ) (binding : HandleBinding) (handle : Handle)
    (text : String) (key : Bytes 32) : Prop where
  steps : ∃ nonce, e.label = .sealToken i handle nonce ∧
    Handles.sealHandle (e.before.sealer.keys.sealer e.before.sealer.log nonce) binding
      handle.val = .ok text
  binding : ∃ answer handles left, e.before.calls[i]? =
    some ⟨binding, .sealing answer handles (handle.val.upstreamToken :: left)⟩
  key : e.before.sealer.keys.current = key

/-- The upstream's answer has come to the call `i`. -/
def Received (events : List (Event X parse rules)) (i : ℕ) (answer : StoredResponse) : Prop :=
  ∃ e ∈ events, e.label = .respond i answer ∨
    ∃ binding, e.label = .redeem binding answer ∧ i = e.before.calls.length

/-- The text is a handle for a token that the upstream has given out for the binding. -/
def Stands (events : List (Event X parse rules)) (binding : HandleBinding)
    (text token : String) : Prop :=
  ∃ e ∈ events, ∃ i handle key answer, Makes e i binding handle text key ∧
    handle.val.upstreamToken = token ∧ Received events i answer ∧ token ∈ tokensOf X.json answer

/-- The call `i` has made this handle of the token. -/
def Made (events : List (Event X parse rules)) (i : ℕ) (binding : HandleBinding)
    (token text : String) : Prop :=
  ∃ e ∈ events, ∃ handle key, Makes e i binding handle text key ∧ handle.val.upstreamToken = token

/-- A token has become a handle of the call, and any other member has its raw value. -/
structure Wrapped (events : List (Event X parse rules)) (i : ℕ) (binding : HandleBinding)
    (member member' : Member) : Prop where
  name : decode member'.name = decode member.name
  wrapped : Responses.IsToken member → ∃ pieces token text, member.value = literal pieces ∧
    decode pieces = some token ∧ Made events i binding token text ∧ member'.value = quote text
  kept : ¬ Responses.IsToken member → member'.value = member.value

/-- What passes through the relays is what would pass between clients and upstreams. -/
structure Transparent (events : List (Event X parse rules)) (s : State X) : Prop where
  /-- The upstream is asked what the client asks, for a token that it has given out. -/
  forwarded : ∀ later e earlier relay upstream around form request, events = later ++ e :: earlier →
    e.label = .refresh relay upstream around form →
    refresh X.server (e.before.around around) relay upstream form = .send (.ok request) →
    ∃ presented token, named "refresh_token" form.pairs = [("refresh_token", presented)] ∧
      Stands earlier ⟨relay.key, around.fingerprint relay upstream⟩ presented token ∧
      withoutCredentials request.form = (withoutCredentials form.pairs).map (replaceToken token) ∧
      OwnCredentials X.server upstream request
  /-- The client gets the upstream's answer, with handles for tokens. -/
  answered : ∀ i binding answer output, s.calls[i]? = some ⟨binding, .answered answer output⟩ →
    Received events i answer ∧ output.status = answer.status ∧
      output.contentType = answer.contentType ∧
      (successStatus answer.status = false → output.body = answer.body) ∧
      ∀ object, answer.body = Responses.bytes object → successStatus answer.status = true →
        Responses.Reads X.json object → Responses.Sealable object → ∃ result,
          output.body = Responses.bytes result ∧
            List.Forall₂ (Wrapped events i binding) object.members result.members
  /-- When its tokens are sealed, an answer that can be read is passed on. -/
  delivered : ∀ i binding answer handles object,
    s.calls[i]? = some ⟨binding, .sealing answer handles []⟩ →
    answer.body = Responses.bytes object → Responses.Reads X.json object →
    (∀ member ∈ object.members, (decode member.name).isSome = true) → ∃ output,
      step s (.finish i : Label parse rules) = some (s.set i ⟨binding, .answered answer output⟩)
  /-- A handle leads back to its token, as long as its key is known. -/
  resumed : ∀ e ∈ events, ∀ i binding handle text key, Makes e i binding handle text key →
    s.sealer.keys.Knows key → ∀ (relay : Redirects.Relay parse rules) upstream around form
      endpoints, relay.refreshTokens.mode = .sealed →
      binding = ⟨relay.key, around.fingerprint relay upstream⟩ → form.refreshToken = some text →
      scopeRejection relay form = none →
      resolveEndpoints (s.around around) upstream = .ok endpoints →
      refresh X.server (s.around around) relay upstream form =
        .send (.ok (upstreamTokenRequest X.server upstream endpoints.tokenEndpoint
          (refreshForm form.pairs (some handle.val.upstreamToken))))

/-! ## What a step does -/

inductive Moves (s : State X) : Label parse rules → State X → Prop where
  | sealer {label : Handles.Label} {sealer : Handles.State X.lib}
      (taken : Handles.step s.sealer label = some sealer) :
      Moves s (.sealer label) { s with sealer := sealer }
  | begins {relay : Redirects.Relay parse rules} {upstream : Upstream}
      {around : Surroundings parse rules} {form : TokenRequest} {pc : Pc}
      (early : (∃ request, pc = .asking request) ∨ pc = .refused) :
      Moves s (.refresh relay upstream around form)
        { s with calls := s.calls ++ [⟨⟨relay.key, around.fingerprint relay upstream⟩, pc⟩] }
  | redeems {binding : HandleBinding} {answer : StoredResponse} :
      Moves s (.redeem binding answer)
        { s with calls := s.calls ++ [⟨binding, received X.json answer⟩] }
  | hears {i : ℕ} {answer : StoredResponse} {binding : HandleBinding} :
      Moves s (.respond i answer) (s.set i ⟨binding, received X.json answer⟩)
  | tokenSealed {i : ℕ} {handle : Handle} {nonce : Bytes 24} {binding : HandleBinding}
      {answer : StoredResponse} {handles : List (String × String)} {left : List String} {pc : Pc}
      {sealer : Handles.State X.lib}
      (there : s.calls[i]? =
        some ⟨binding, .sealing answer handles (handle.val.upstreamToken :: left)⟩)
      (taken : Handles.step s.sealer (.sealHandle binding handle nonce) = some sealer)
      (next : pc = .refused ∨ ∃ text,
        Handles.sealHandle (s.sealer.keys.sealer s.sealer.log nonce) binding handle.val =
          .ok text ∧
        pc = .sealing answer (handles ++ [(handle.val.upstreamToken, text)]) left) :
      Moves s (.sealToken i handle nonce) ⟨sealer, s.calls.set i ⟨binding, pc⟩⟩
  | finishes {i : ℕ} {binding : HandleBinding} {answer : StoredResponse}
      {handles : List (String × String)} {pc : Pc}
      (there : s.calls[i]? = some ⟨binding, .sealing answer handles []⟩)
      (next : pc = .refused ∨ ∃ body,
        sealTokenResponse X.json (handleAt handles) answer.status answer.body = .ok body ∧
        pc = .answered answer { answer with body := body.getD answer.body }) :
      Moves s (.finish i) (s.set i ⟨binding, pc⟩)

theorem moves_of_step {s s' : State X} {label : Label parse rules}
    (taken : step s label = some s') : Moves s label s' := by
  cases label with
  | sealer label =>
      obtain ⟨sealer, moved, rfl⟩ := Option.map_eq_some_iff.mp taken
      exact .sealer moved
  | refresh relay upstream around form =>
      simp only [step] at taken
      split at taken
      · cases taken
        exact .begins (.inl ⟨_, rfl⟩)
      · cases taken
        exact .begins (.inr rfl)
  | redeem binding answer =>
      cases taken
      exact .redeems
  | respond i answer =>
      simp only [step] at taken
      split at taken
      · cases taken
        exact .hears
      · cases taken
  | sealToken i handle nonce =>
      simp only [step] at taken
      split at taken
      · rename_i there
        split at taken
        · rename_i same
          obtain ⟨sealer, moved, rfl⟩ := Option.map_eq_some_iff.mp taken
          subst same
          refine .tokenSealed there moved ?_
          split
          · rename_i text made
            exact .inr ⟨text, made, rfl⟩
          · exact .inl rfl
        · cases taken
      · cases taken
  | finish i =>
      simp only [step] at taken
      split at taken
      · rename_i there
        split at taken
        · rename_i body sealed
          cases taken
          exact .finishes there (.inr ⟨body, sealed, rfl⟩)
        · cases taken
          exact .finishes there (.inl rfl)
      · cases taken

/-! ## The sealer -/

section Runs

variable {init s s' : State X} {events : List (Event X parse rules)} {label : Label parse rules}

/-- What the sealer does in a step. -/
def sealerEvent (e : Event X parse rules) :
    Option (Async.Steps.Event (Handles.State X.lib) Handles.Label) :=
  match e.label with
  | .sealer label => some ⟨e.before.sealer, label, e.after.sealer⟩
  | .sealToken i handle nonce => (e.before.calls[i]?).map fun call =>
      ⟨e.before.sealer, .sealHandle call.binding handle nonce, e.after.sealer⟩
  | _ => none

/-- The steps of the sealer are a run of its own. -/
theorem sealer_of_run (run : Runs step Permitted init events s) :
    Runs Handles.step Handles.Fresh init.sealer (events.filterMap sealerEvent) s.sealer := by
  refine run.invariant (I := fun events s => Runs Handles.step Handles.Fresh init.sealer
    (events.filterMap sealerEvent) s.sealer) .nil ?_
  intro events s label s' _ permitted taken run
  cases moves_of_step taken with
  | sealer moved => exact .cons run permitted.1 moved
  | begins early => exact run
  | redeems => exact run
  | hears => exact run
  | tokenSealed there moved next =>
      simp only [List.filterMap_cons, sealerEvent, there, Option.map_some]
      refine .cons run ?_ moved
      intro nonce drawn
      cases drawn
      exact permitted
  | finishes there next => exact run

/-- The steps of a run were permitted and possible. -/
theorem step_of_mem (run : Runs step Permitted init events s) {e : Event X parse rules}
    (member : e ∈ events) : ∃ later earlier, events = later ++ e :: earlier ∧
      Runs step Permitted init earlier e.before ∧ Permitted earlier e.before e.label ∧
      Moves e.before e.label e.after := by
  obtain ⟨later, earlier, rfl⟩ := List.append_of_mem member
  obtain ⟨_, run⟩ := run.earlier
  obtain ⟨before, permitted, taken, _⟩ := run.last
  exact ⟨later, earlier, rfl, before, permitted, moves_of_step taken⟩

/-- **What the sealer has sealed as a handle, a call has made of a token.** -/
theorem makes_of_sealed (run : Runs step Permitted init events s) {binding : HandleBinding}
    {handle : Handle} {key : Bytes 32} {text : String}
    (sealed : Handles.Sealed (events.filterMap sealerEvent) binding handle key text) :
    ∃ e ∈ events, ∃ i, Makes e i binding handle text key := by
  obtain ⟨e', member, nonce, label, current, made⟩ := sealed
  obtain ⟨e, inside, same⟩ := List.mem_filterMap.mp member
  obtain ⟨_, _, _, _, permitted, moves⟩ := step_of_mem run inside
  refine ⟨e, inside, ?_⟩
  obtain ⟨before, label', after⟩ := e
  dsimp only at moves permitted
  cases moves with
  | sealer moved =>
      cases same
      exact absurd label (permitted.2 binding handle nonce)
  | begins early => cases same
  | redeems => cases same
  | hears => cases same
  | tokenSealed there moved next =>
      simp only [sealerEvent, there, Option.map_some] at same
      cases same
      cases label
      exact ⟨_, ⟨nonce, rfl, made⟩, ⟨_, _, _, there⟩, current⟩
  | finishes there next => cases same

theorem sealed_of_makes {e : Event X parse rules} (member : e ∈ events) {i : ℕ}
    {binding : HandleBinding} {handle : Handle} {text : String} {key : Bytes 32}
    (makes : Makes e i binding handle text key) :
    Handles.Sealed (events.filterMap sealerEvent) binding handle key text := by
  obtain ⟨nonce, label, made⟩ := makes.steps
  obtain ⟨_, _, _, there⟩ := makes.binding
  refine ⟨⟨e.before.sealer, .sealHandle binding handle nonce, e.after.sealer⟩, ?_, nonce, rfl,
    makes.key, made⟩
  refine List.mem_filterMap.mpr ⟨e, member, ?_⟩
  simp only [sealerEvent, label, there, Option.map_some]

/-! ## The calls -/

theorem Received.cons {i : ℕ} {answer : StoredResponse} (e : Event X parse rules)
    (received : Received events i answer) : Received (e :: events) i answer :=
  let ⟨e', member, label⟩ := received
  ⟨e', List.mem_cons_of_mem _ member, label⟩

theorem Made.cons {i : ℕ} {binding : HandleBinding} {token text : String}
    (e : Event X parse rules) (made : Made events i binding token text) :
    Made (e :: events) i binding token text :=
  let ⟨e', member, makes⟩ := made
  ⟨e', List.mem_cons_of_mem _ member, makes⟩

/-- What a call has got and made. -/
def Pc.Fits (events : List (Event X parse rules)) (i : ℕ) (binding : HandleBinding) : Pc → Prop
  | .asking _ => True
  | .sealing answer handles left => Received events i answer ∧
      tokensOf X.json answer = handles.map Prod.fst ++ left ∧
      ∀ sealed ∈ handles, Made events i binding sealed.1 sealed.2
  | .answered answer output => Received events i answer ∧ ∃ handles body,
      (∀ sealed ∈ handles, Made events i binding sealed.1 sealed.2) ∧
      sealTokenResponse X.json (handleAt handles) answer.status answer.body = .ok body ∧
      output = { answer with body := body.getD answer.body }
  | .refused => True

theorem Pc.Fits.cons {i : ℕ} {binding : HandleBinding} {pc : Pc} (e : Event X parse rules)
    (fits : pc.Fits events i binding) : pc.Fits (e :: events) i binding := by
  cases pc with
  | asking request => trivial
  | sealing answer handles left =>
      exact ⟨fits.1.cons e, fits.2.1, fun sealed inside => (fits.2.2 sealed inside).cons e⟩
  | answered answer output =>
      obtain ⟨received, handles, body, made, rest⟩ := fits
      exact ⟨received.cons e, handles, body, fun sealed inside => (made sealed inside).cons e, rest⟩
  | refused => trivial

theorem fits_received {i : ℕ} {binding : HandleBinding} {answer : StoredResponse}
    (here : Received events i answer) : (received X.json answer).Fits events i binding :=
  ⟨here, rfl, fun _ inside => absurd inside List.not_mem_nil⟩

/-- Every call is as it should be. -/
def Sound (events : List (Event X parse rules)) (calls : List Call) : Prop :=
  ∀ (i : ℕ) (call : Call), calls[i]? = some call → call.pc.Fits events i call.binding

section Calls

variable {calls : List Call} {call : Call}

theorem Sound.cons (sound : Sound events calls) (e : Event X parse rules) :
    Sound (e :: events) calls :=
  fun i call there => (sound i call there).cons e

/-- A new call is the last. -/
theorem Sound.push (sound : Sound events calls) (e : Event X parse rules)
    (fits : call.pc.Fits (e :: events) calls.length call.binding) :
    Sound (e :: events) (calls ++ [call]) := by
  intro i call' there
  rcases Nat.lt_trichotomy i calls.length with inside | rfl | outside
  · rw [List.getElem?_append_left inside] at there
    exact (sound i call' there).cons e
  · rw [List.getElem?_concat_length] at there
    cases there
    exact fits
  · rw [List.getElem?_eq_none (by simp; omega)] at there
    cases there

/-- A call that steps is the only one that changes. -/
theorem Sound.set (sound : Sound events calls) (e : Event X parse rules) {i : ℕ}
    (fits : call.pc.Fits (e :: events) i call.binding) :
    Sound (e :: events) (calls.set i call) := by
  intro j call' there
  by_cases same : i = j
  · subst same
    simp only [List.getElem?_set_self'] at there
    obtain ⟨_, _, rfl⟩ := Option.map_eq_some_iff.mp there
    exact fits
  · rw [List.getElem?_set_ne same] at there
    exact (sound j call' there).cons e

end Calls

theorem sound_step (sound : Sound events s.calls) (taken : step s label = some s') :
    Sound (⟨s, label, s'⟩ :: events) s'.calls := by
  cases moves_of_step taken with
  | sealer moved => exact sound.cons _
  | begins early =>
      refine sound.push _ ?_
      rcases early with ⟨request, rfl⟩ | rfl <;> trivial
  | redeems => exact sound.push _ (fits_received
      ⟨_, List.mem_cons_self .., .inr ⟨_, rfl, rfl⟩⟩)
  | hears => exact sound.set _ (fits_received ⟨_, List.mem_cons_self .., .inl rfl⟩)
  | @tokenSealed i handle nonce binding answer handles left pc sealer there moved next =>
      refine sound.set _ ?_
      rcases next with rfl | ⟨text, made, rfl⟩
      · trivial
      · obtain ⟨received, tokens, before⟩ := sound _ _ there
        refine ⟨received.cons _, ?_, ?_⟩
        · rw [tokens, List.map_append, List.append_assoc]
          rfl
        · intro sealed inside
          rcases List.mem_append.mp inside with inside | inside
          · exact (before sealed inside).cons _
          · obtain rfl := List.mem_singleton.mp inside
            exact ⟨_, List.mem_cons_self .., handle, _,
              ⟨⟨nonce, rfl, made⟩, ⟨_, _, _, there⟩, rfl⟩, rfl⟩
  | finishes there next =>
      refine sound.set _ ?_
      rcases next with rfl | ⟨body, sealed, rfl⟩
      · trivial
      · obtain ⟨received, tokens, made⟩ := sound _ _ there
        exact ⟨received.cons _, _, body, fun sealed inside => (made sealed inside).cons _, sealed,
          rfl⟩

theorem sound_of_run (blank : init.calls = []) (run : Runs step Permitted init events s) :
    Sound events s.calls := by
  refine run.invariant (I := fun events s => Sound events s.calls) ?_ ?_
  · intro i call there
    rw [blank] at there
    cases there
  · exact fun _ _ _ _ _ _ taken sound => sound_step sound taken

/-- **A handle that opens stands for a token that the upstream has given out.** -/
theorem stands_of_makes (blank : init.calls = []) (run : Runs step Permitted init events s)
    {e : Event X parse rules} (member : e ∈ events) {i : ℕ} {binding : HandleBinding}
    {handle : Handle} {text : String} {key : Bytes 32} (makes : Makes e i binding handle text key) :
    Stands events binding text handle.val.upstreamToken := by
  obtain ⟨later, earlier, rfl, before, _⟩ := step_of_mem run member
  obtain ⟨answer, handles, left, there⟩ := makes.binding
  obtain ⟨⟨e', inside, label⟩, tokens, _⟩ := sound_of_run blank before i _ there
  refine ⟨e, member, i, handle, key, answer, makes, rfl, ⟨e', ?_, label⟩, ?_⟩
  · exact List.mem_append_right _ (List.mem_cons_of_mem _ inside)
  · rw [tokens]
    exact List.mem_append_right _ (List.mem_cons_self ..)

/-! ## Answers -/

theorem mem_of_handleAt {handles : List (String × String)} {n : ℕ} {token text : String}
    (found : handleAt handles n token = .ok text) : (token, text) ∈ handles := by
  unfold handleAt at found
  split at found
  · rename_i sealed there
    split at found
    · rename_i same
      cases found
      subst same
      exact List.mem_of_getElem? there
    · cases found
  · cases found

section Answers

variable {json : SerdeJson} {object : Object} {i : ℕ} {binding : HandleBinding}
  {sealHandle : ℕ → String → Except Codes.HandleError String}

/-- **A member that is read and sealed is wrapped.** -/
theorem wrapped_of_sealed (reads : Responses.Reads json object)
    (tokens : ∀ member ∈ object.members, decode member.name = some refreshTokenMember →
      ∀ pieces, member.value = literal pieces → (decode pieces).isSome = true)
    (made : ∀ n token text, sealHandle n token = .ok text → Made events i binding token text)
    {member : Member} (inside : member ∈ object.members) {read sealed : String × String}
    (named : Responses.Named member read) (part : Responses.Sealed json sealHandle read sealed) :
    Wrapped events i binding member (Responses.compact sealed) where
  name := (Responses.handled_of_sealed reads tokens inside named part).name
  wrapped isToken := by
    obtain ⟨pieces, token, written, decoded, nonempty⟩ :=
      Responses.token_decodes inside tokens isToken
    have usable := (Responses.usableToken_iff reads inside named).mpr
      ⟨isToken.1, nonempty, pieces, written, decoded⟩
    obtain ⟨n, text, works, encoded⟩ := part.replaced token usable
    rw [reads.encodes] at encoded
    refine ⟨pieces, token, text, written, decoded, made n token text works, ?_⟩
    change sealed.2.toList = _
    rw [← Option.some.inj encoded, String.toList_ofList]
  kept := (Responses.handled_of_sealed reads tokens inside named part).kept

/-- Nothing is wrapped where there is no token. -/
theorem wrapped_self (tokenless : ∀ member ∈ object.members, ¬ Responses.IsToken member) :
    List.Forall₂ (Wrapped events i binding) object.members object.members :=
  List.forall₂_same.mpr fun member inside =>
    ⟨rfl, fun isToken => absurd isToken (tokenless member inside), fun _ => rfl⟩

/-- **A sealable answer comes out with its tokens wrapped.** -/
theorem wrapped_of_sealTokenResponse (reads : Responses.Reads json object) {status : ℕ}
    (success : successStatus status = true) (sealable : Responses.Sealable object)
    (made : ∀ n token text, sealHandle n token = .ok text → Made events i binding token text)
    {sealed : Option (List UInt8)}
    (result : sealTokenResponse json sealHandle status (Responses.bytes object) = .ok sealed) :
    ∃ object', sealed.getD (Responses.bytes object) = Responses.bytes object' ∧
      List.Forall₂ (Wrapped events i binding) object.members object'.members := by
  rcases sealable with ⟨named, tokens⟩ | ⟨⟨member, inside, undecodable⟩, refused⟩
  · obtain ⟨read, named⟩ := Option.isSome_iff_exists.mp (Responses.namedMembers_isSome.mpr named)
    have named' := Responses.named_of_namedMembers named
    cases outcome : Responses.sealMembers json sealHandle 0 read with
    | error error => simp [sealTokenResponse, success, reads.members, named, outcome] at result
    | ok pair =>
        obtain ⟨replaced, members⟩ := pair
        obtain ⟨parts, untouched⟩ := Responses.sealed_of_sealMembers outcome
        have passes := Responses.passes_of_sealed (fun _ inside => inside) named' parts
        rw [Responses.sealTokenResponse_eq reads success named outcome] at result
        cases result
        cases replaced with
        | false =>
            exact ⟨object, rfl, wrapped_self
              (Responses.tokenless_of_untouched reads named' tokens (untouched rfl))⟩
        | true =>
            rw [if_pos rfl, Option.getD_some, Responses.bytes_compactObject
              (Responses.forall_right passes fun _ _ => Responses.valid_of_passes reads)]
            refine ⟨_, rfl, ?_⟩
            change List.Forall₂ _ _ (members.map Responses.compact)
            rw [List.forall₂_map_right_iff]
            refine passes.imp fun member sealed passes => ?_
            obtain ⟨inside, read, named, part⟩ := passes
            exact wrapped_of_sealed reads tokens made inside named part
  · rw [Responses.sealTokenResponse_of_undecodable reads success inside undecodable] at result
    rcases refused with names | tokenless
    · rw [if_pos names] at result
      cases result
    · split at result
      · cases result
      · cases result
        exact ⟨object, rfl, wrapped_self tokenless⟩

/-- The handles are found in the order in which their tokens are. -/
theorem sealMembers_of_handles (encodes : ∀ text, ∃ value, json.encodeString text = some value)
    {handles : List (String × String)} {members : Members} : ∀ {n : ℕ},
      members.filterMap (usableToken json) = (handles.drop n).map Prod.fst →
      ∃ result, Responses.sealMembers json (handleAt handles) n members = .ok result := by
  induction members with
  | nil => exact fun _ => ⟨_, rfl⟩
  | cons member rest ih =>
      intro n tokens
      cases usable : usableToken json member with
      | none =>
          rw [List.filterMap_cons_none usable] at tokens
          obtain ⟨result, sealed⟩ := ih tokens
          exact ⟨(result.1, member :: result.2),
            by simp only [Responses.sealMembers, usable, sealed]⟩
      | some token =>
          rw [List.filterMap_cons_some usable] at tokens
          cases at_n : handles.drop n with
          | nil =>
              rw [at_n] at tokens
              cases tokens
          | cons first after =>
              rw [at_n, List.map_cons] at tokens
              obtain ⟨same, tokens⟩ := List.cons.inj tokens
              have there : handles[n]? = some first := by
                rw [← List.head?_drop, at_n, List.head?_cons]
              have next : handles.drop (n + 1) = after := by
                rw [← List.tail_drop, at_n, List.tail_cons]
              obtain ⟨value, encoded⟩ := encodes first.2
              obtain ⟨result, sealed⟩ := ih (next ▸ tokens)
              have found : handleAt handles n token = .ok first.2 := by
                simp only [handleAt, there, same, if_true]
              exact ⟨(true, (member.1, value) :: result.2),
                by simp only [Responses.sealMembers, usable, found, encoded, sealed]⟩

/-- **An answer that can be read is passed on with the handles for its tokens.** -/
theorem sealTokenResponse_of_handles (reads : Responses.Reads json object)
    (named : ∀ member ∈ object.members, (decode member.name).isSome = true)
    {answer : StoredResponse} (body : answer.body = Responses.bytes object)
    {handles : List (String × String)} (tokens : tokensOf json answer = handles.map Prod.fst) :
    ∃ sealed, sealTokenResponse json (handleAt handles) answer.status answer.body = .ok sealed := by
  cases success : successStatus answer.status with
  | false => exact ⟨none, by simp [sealTokenResponse, success]⟩
  | true =>
      obtain ⟨read, named⟩ := Option.isSome_iff_exists.mp (Responses.namedMembers_isSome.mpr named)
      rw [tokensOf, if_pos success, body, reads.members, named, Option.getD_some] at tokens
      obtain ⟨⟨replaced, members⟩, outcome⟩ :=
        sealMembers_of_handles (fun text => ⟨_, reads.encodes text⟩) (n := 0) tokens
      exact ⟨_, by rw [body, Responses.sealTokenResponse_eq reads success named outcome]⟩

end Answers

/-! ## Requests -/

/-- In sealed mode the token that is sent was in the handle. -/
theorem opens_of_carries {around : Surroundings parse rules} {relay : Redirects.Relay parse rules}
    {upstream : Upstream} {presented token : String} (mode : relay.refreshTokens.mode = .sealed)
    (carries : Carries around relay upstream presented none token) :
    openHandle around ⟨relay.key, around.fingerprint relay upstream⟩ presented = .ok token := by
  cases carries with
  | passthrough plain _ =>
      rw [mode] at plain
      cases plain
  | opened _ opens => exact opens

/-- A refresh opens its handle with the sealer as it is. -/
theorem openHandle_around (around : Surroundings parse rules) (nonce : Bytes 24)
    (binding : HandleBinding) (text : String) :
    openHandle (s.around around) binding text =
      (Handles.openHandle (s.sealer.keys.sealer s.sealer.log nonce) binding text).map
        Rotation.OpenedHandle.upstreamToken :=
  Handles.openHandle_of_surroundings (s.around around) binding text

theorem exists_opened {around : Surroundings parse rules} {binding : HandleBinding}
    {text token : String} (opens : openHandle (s.around around) binding text = .ok token) :
    ∃ opened, opened.upstreamToken = token ∧ Handles.openHandle
      (s.sealer.keys.sealer s.sealer.log (Codes.zeroBytes 24)) binding text = .ok opened := by
  rw [openHandle_around around (Codes.zeroBytes 24)] at opens
  cases outcome : Handles.openHandle (s.sealer.keys.sealer s.sealer.log (Codes.zeroBytes 24))
      binding text with
  | error error =>
      rw [outcome] at opens
      cases opens
  | ok opened =>
      rw [outcome] at opens
      cases opens
      exact ⟨opened, rfl, rfl⟩

end Runs

/-! ## A session -/

def session : Relaying := ⟨sampleServer, Handles.sampleLibraries, Responses.tableJson⟩

def sealedRelay : Redirects.Relay Redirects.loopbackParse Config.plainRules :=
  { Redirects.loopbackRelay "http://127.0.0.1/cb" with refreshTokens := ⟨.sealed, 30, 2592000⟩ }

def sessionHandle : Handle :=
  ⟨⟨"up", 1778913377⟩, Codec.string_fitting.mpr (by decide +kernel),
    Codec.u64_fitting.mpr (by decide)⟩

def sessionText : String :=
  "rrt1.v1." ++ Handles.sampleLibraries.encode64 ((Codes.zeroBytes 24).val ++
    (Binding.refreshHandle.encode sessionHandle.val ++ List.replicate 16 0))

def sessionForm : TokenRequest where
  grantType := some "refresh_token"
  refreshToken := some sessionText
  grant := "refresh_token"
  pairs := [("refresh_token", sessionText), ("grant_type", "refresh_token")]

/-- A code is redeemed, the key changes, and the client refreshes with the handle that it got. -/
def sessionLabels : List (Label Redirects.loopbackParse Config.plainRules) :=
  [.redeem ⟨sealedRelay.key, sampleSurroundings.fingerprint sealedRelay sampleUpstream⟩
      ⟨200, none, Responses.plainBody⟩,
    .sealToken 0 sessionHandle (Codes.zeroBytes 24), .finish 0,
    .sealer (.newKey Handles.newKey.val true),
    .refresh sealedRelay sampleUpstream sampleSurroundings sessionForm]

def sessionPermitted (s : State session) :
    Label Redirects.loopbackParse Config.plainRules → Bool
  | .sealer (.newKey _ _) => true
  | .sealer _ => false
  | .refresh relay _ _ form => relay.refreshTokens.mode = .sealed && form = sessionForm
  | .sealToken _ _ nonce => s.sealer.log.all fun e => e.nonce ≠ nonce
  | .redeem _ _ => true
  | .respond _ _ => true
  | .finish _ => true

theorem permitted_of_sessionPermitted
    {events : List (Event session Redirects.loopbackParse Config.plainRules)}
    {s : State session} {label : Label Redirects.loopbackParse Config.plainRules}
    (permitted : sessionPermitted s label = true) : Permitted events s label := by
  cases label with
  | sealer label =>
      cases label with
      | newKey key keep =>
          exact ⟨fun _ drawn => (by cases drawn), fun _ _ _ same => (by cases same)⟩
      | sealHandle binding handle nonce => cases permitted
      | sealValue sealing plaintext nonce => cases permitted
  | refresh relay upstream around form =>
      simp only [sessionPermitted, Bool.and_eq_true, decide_eq_true_eq] at permitted
      obtain ⟨mode, rfl⟩ := permitted
      exact ⟨mode, Codec.utf8Bytes ("refresh_token=" ++ sessionText ++ "&grant_type=refresh_token"),
        by decide +kernel⟩
  | sealToken i handle nonce =>
      simp only [sessionPermitted, List.all_eq_true, decide_eq_true_eq] at permitted
      exact permitted
  | redeem binding answer => trivial
  | respond i answer => trivial
  | finish i => trivial

end OAuthRelay.Flows.Transparency
