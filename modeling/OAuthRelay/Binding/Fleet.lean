import OAuthRelay.Binding.AssociatedData
import OAuthRelay.Rotation.Calls

/-!
# Relays under several configurations

A relay's configuration changes over time, and several relays share one store. A call works
under one configuration: it seals what it stores for the binding of that configuration, and
opens what is sealed for that binding. A value that is sealed for another binding opens for
nothing, so the call sees a value that it cannot open.

A handle that was handed out under one configuration and is presented under another, where the
two do not agree on what is bound, is refused: the upstream is not asked, and the store stays as
it is (`binding_holds`).
-/

set_option autoImplicit false

namespace OAuthRelay.Binding

open OAuthRelay.Async OAuthRelay.Async.Machine
open OAuthRelay.Codes (ResourceKey Bytes HandleBinding SealedText OAuthError invalidGrant
  sealerUnavailable)
open OAuthRelay.Config (Rules)
open OAuthRelay.Rotation (Purpose Plain OpenedHandle Presented Pc CreatePc Rotator Question Answer
  Choice RefreshOutcome SealerReply Faulty openSealedHandle openValue)

variable {R : Rules}

/-! ## What is presented -/

/-- A refresh token that a client presents. -/
inductive Token where
  | sealedHandle (text : SealedText)
  | rotating (handle : Name)
  | other (text : String)
  deriving DecidableEq

/-- `has_handle_prefix`: a handle of any version. -/
def hasHandlePrefix (token : String) : Bool :=
  match token.toList with
  | 'r' :: 'r' :: 't' :: rest =>
      0 < (rest.takeWhile fun c => c.isDigit).length &&
        (rest.dropWhile fun c => c.isDigit).head? = some '.'
  | _ => false

/-- The token as the rotator of a binding takes it. -/
def Token.presented (binding : HandleBinding) : Token → Presented
  | .sealedHandle text => .sealedHandle (openHandle binding text)
  | .rotating handle => .rotating handle
  | .other _ => .other

def refusedToken : OAuthError := invalidGrant "invalid refresh token"

/-- What a relay without rotation sends upstream in place of the token: in sealed mode what the
handle opens to, otherwise the token itself. A handle is never sent. -/
def upstreamToken (sealed : Bool) (binding : HandleBinding) (sealer : SealerReply) :
    Token → Except OAuthError (Option String)
  | .sealedHandle text =>
      if sealed then
        match openSealedHandle sealer (openHandle binding text) with
        | .error _ => .error sealerUnavailable
        | .ok none => .error refusedToken
        | .ok (some opened) => .ok (some opened.upstreamToken)
      else .error refusedToken
  | .rotating _ => .error refusedToken
  | .other text => if sealed || hasHandlePrefix text then .error refusedToken else .ok none

/-! ## The store that the configurations share -/

abbrev StoreKey := ResourceKey × Rotation.Key

inductive BoundValue where
  | sealed (binding : HandleBinding) (purpose : Purpose) (key : Rotation.Key) (plain : Plain)
      (nonce : Name)
  | headKey (key : Rotation.Key)
  | marker (random : Name)
  deriving DecidableEq

/-- What a rotator writes, under its binding. -/
def bindValue (binding : HandleBinding) : Rotation.Value → BoundValue
  | .sealed purpose key plain nonce => .sealed binding purpose key plain nonce
  | .headKey key => .headKey key
  | .marker random => .marker random

/-- What a rotator makes of a value. One that is sealed for another binding does not open. -/
def readValue (binding : HandleBinding) : BoundValue → Rotation.Value
  | .sealed binding' purpose key plain nonce =>
      if binding' = binding then .sealed purpose key plain nonce else .marker nonce
  | .headKey key => .headKey key
  | .marker random => .marker random

theorem readValue_foreign {binding binding' : HandleBinding} (foreign : binding' ≠ binding)
    {purpose : Purpose} {key : Rotation.Key} {plain : Plain} {nonce : Name} :
    readValue binding (.sealed binding' purpose key plain nonce) = .marker nonce :=
  if_neg foreign

/-! ## The calls -/

/-- The hash, and the rotation settings under each configuration. -/
structure Fleet (R : Rules) where
  sha256 : List UInt8 → Bytes 32
  rotator : Configuration R → Rotator

structure Call (R : Rules) where
  configuration : Configuration R
  /-- The token a refresh presents. -/
  presented : Option Token
  call : Rotation.Call

inductive Input (R : Rules) where
  | issue (configuration : Configuration R) (upstreamToken : String)
  | refresh (configuration : Configuration R) (token : Token)

namespace Fleet

variable (F : Fleet R)

abbrev binding (configuration : Configuration R) : HandleBinding := configuration.binding F.sha256

def start (name : Name) : Input R → Call R
  | .issue configuration upstreamToken =>
      ⟨configuration, none, .start name (.issue upstreamToken)⟩
  | .refresh configuration token =>
      ⟨configuration, some token,
        .start name (.refresh (token.presented (F.binding configuration)))⟩

/-- A call of the rotator over the keys of its relay, under its binding. -/
def await (call : Call R) : Await StoreKey BoundValue Question Answer (Call R) :=
  ((call.call.await (F.rotator call.configuration)).embed (Prod.mk call.configuration.relay.key)
      (bindValue (F.binding call.configuration))
      (fun value => some (readValue (F.binding call.configuration) value)) 1 id
      fun _ answer => answer).map fun next => { call with call := next }

abbrev machine : Machine StoreKey BoundValue where
  Input := Input R
  Call := Call R
  Question := Question
  Answer := Answer
  Choice := Choice
  start := F.start
  await := F.await
  answer := Rotation.answer

end Fleet

/-! ## What one step does -/

section Steps

variable {F : Fleet R} {σ : Store StoreKey BoundValue} {now : ℕ} {delivery : Delivery}
  {choice : Choice} {name : Name} {call call' : Call R}

/-- **A call stays under its configuration, and its rotator goes on as it does over some store of
its own.** -/
theorem next_cases
    (resumed : (F.machine.await call).next σ now delivery (Rotation.answer choice name) =
      some call') :
    ∃ next, call' = { call with call := next } ∧ ∃ σ' : Store Rotation.Key Rotation.Value,
      (call.call.await (F.rotator call.configuration)).next σ' now delivery
        (Rotation.answer choice name) = some next := by
  change (F.await call).next σ now delivery (Rotation.answer choice name) = some call' at resumed
  rw [Fleet.await, Await.next_map, Option.map_eq_some_iff] at resumed
  obtain ⟨next, resumed, rfl⟩ := resumed
  exact ⟨next, rfl, Await.next_embed (by decide) resumed⟩

/-- The frames of a rotator's call `i`. -/
def FramesFormed (i : ℕ) : Rotation.Call → Prop
  | .rotating handle pc => pc.Formed i handle
  | .founding pc => pc.Formed i

theorem FramesFormed.start (name : Name) (input : Rotation.Input) :
    FramesFormed name.call (.start name input) := by
  cases input with
  | issue => exact rfl
  | refresh presented => cases presented <;> trivial

theorem FramesFormed.next {rotator : Rotator} {σ : Store Rotation.Key Rotation.Value}
    {i steps : ℕ} {rotating next : Rotation.Call} (formed : FramesFormed i rotating)
    (resumed : (rotating.await rotator).next σ now delivery
      (Rotation.answer choice ⟨i, steps⟩) = some next) : FramesFormed i next := by
  cases rotating with
  | rotating handle pc =>
      obtain ⟨_, rfl, edge⟩ := Rotation.rotating_next resumed
      exact Rotation.Pc.Formed.edge formed edge
  | founding pc =>
      obtain ⟨_, rfl, edge⟩ := Rotation.founding_next resumed
      exact Rotation.CreatePc.Formed.edge formed edge

/-- The value is a record of the handle, sealed for the binding. -/
def IsRecord (binding : HandleBinding) (handle : Name) (value : BoundValue) : Prop :=
  ∃ plain nonce, value = .sealed binding .record (.handle handle) plain nonce

theorem IsRecord.of_bytes {binding : HandleBinding} {handle nonce : Name} {plain : Plain}
    {bytes : Rotation.Value} (same : bytes = .sealed .record (.handle handle) plain nonce) :
    IsRecord binding handle (bindValue binding bytes) :=
  ⟨plain, nonce, by rw [same]; rfl⟩

/-- What a call writes under the key of a handle. -/
structure WritesRecord (F : Fleet R) (σ : Store StoreKey BoundValue) (now i : ℕ) (call : Call R)
    (relay : ResourceKey) (handle : Name) (value : BoundValue) : Prop where
  own : relay = call.configuration.relay.key
  sealed : IsRecord (F.binding call.configuration) handle value
  /-- The call drew the handle, or replaces a record of its own binding. -/
  origin : handle.call = i ∨ ∃ value', σ.live now (relay, .handle handle) = some value' ∧
    IsRecord (F.binding call.configuration) handle value'

/-- **Under the key of a handle a call writes records for its own binding only.** -/
theorem writes_record {i : ℕ} (formed : FramesFormed i call.call) {relay : ResourceKey}
    {handle : Name} {entry : Entry BoundValue}
    (made : (F.machine.await call).change σ now delivery =
      some ((relay, .handle handle), some entry)) :
    WritesRecord F σ now i call relay handle entry.value := by
  obtain ⟨configuration, presented, rotating⟩ := call
  change (F.await ⟨configuration, presented, rotating⟩).change σ now delivery = _ at made
  rw [Fleet.await, Await.change_map] at made
  cases rotating with
  | rotating h pc =>
      cases pc with
      | swapClaim loaded held ttl =>
          obtain ⟨live, same⟩ := Await.change_compareAndSwap made
          cases same
          obtain ⟨⟨nonce, bytes⟩, _, _, _, _, _, nonce', bytes'⟩ := formed
          exact ⟨rfl, .of_bytes bytes',
            .inr ⟨_, live, .of_bytes bytes⟩⟩
      | putSuccessor attempt successor =>
          obtain ⟨_, same⟩ := Await.change_putIfAbsent made
          cases same
          obtain ⟨⟨_, mine⟩, nonce, bytes⟩ := formed
          exact ⟨rfl, .of_bytes bytes, .inl mine⟩
      | swapRotated attempt rotated =>
          obtain ⟨live, same⟩ := Await.change_compareAndSwap made
          cases same
          obtain ⟨⟨⟨_, _, nonce, bytes⟩, _⟩, nonce', bytes'⟩ := formed
          exact ⟨rfl, .of_bytes bytes',
            .inr ⟨_, live, .of_bytes bytes⟩⟩
      | swapRelease held bytes ttl outcome =>
          obtain ⟨live, same⟩ := Await.change_compareAndSwap made
          cases same
          obtain ⟨⟨_, _, nonce, bytes⟩, nonce', bytes'⟩ := formed
          exact ⟨rfl, .of_bytes bytes',
            .inr ⟨_, live, .of_bytes bytes⟩⟩
      | putResponse attempt sealed => cases (Await.change_putIfAbsent made).2
      | swapHead attempt => cases (Await.change_compareAndSwap made).2
      | putMarker revocation ttl marker => cases (Await.change_putIfAbsent made).2
      | discard key rest after => cases Await.change_delete made
      | deleteErased revocation key rest => cases Await.change_delete made
      | _ => cases made
  | founding pc =>
      cases pc with
      | putRecord family bytes =>
          obtain ⟨_, same⟩ := Await.change_putIfAbsent made
          cases same
          obtain ⟨⟨mine, _⟩, nonce, bytes⟩ := formed
          exact ⟨rfl, .of_bytes bytes, .inl mine⟩
      | putHead family => cases (Await.change_putIfAbsent made).2
      | _ => cases made

end Steps

/-! ## Runs -/

section Runs

variable {F : Fleet R} {ok : List F.machine.Event → F.machine.State → F.machine.Lbl → Prop}
  {events : List F.machine.Event} {s : F.machine.State}

theorem formed (run : F.machine.Runs ok events s) {i : ℕ} {t : Thread (Call R)}
    (there : s.threads[i]? = some t) : FramesFormed i t.call.call := by
  refine run.thread_invariant
    (I := fun _ i (t : Thread (Call R)) => FramesFormed i t.call.call) ?_ ?_ ?_ there
  · intro _ _ _ _ earlier _
    exact earlier
  · intro _ s input _
    cases input with
    | issue configuration upstreamToken =>
        exact FramesFormed.start ⟨s.threads.length, 0⟩ (.issue upstreamToken)
    | refresh configuration token =>
        exact FramesFormed.start ⟨s.threads.length, 0⟩ (.refresh (token.presented _))
  · intro _ _ _ _ _ _ _ _ _ _ earlier resumed
    obtain ⟨_, rfl, _, resumed⟩ := next_cases resumed
    exact earlier.next resumed

/-- A call is under one configuration all the way, and keeps what it was begun with. -/
theorem arguments_stay (run : F.machine.Runs ok events s) {e : F.machine.Event}
    (member : e ∈ events) {i : ℕ} {t₀ : Thread (Call R)} (there : e.before.threads[i]? = some t₀) :
    ∃ t, s.threads[i]? = some t ∧ t.call.configuration = t₀.call.configuration ∧
      t.call.presented = t₀.call.presented := by
  obtain ⟨later, earlier, rfl⟩ := List.mem_iff_append.mp member
  have whole : F.machine.Runs ok ((later ++ [e]) ++ earlier) s := by simpa using run
  refine Runs.carry_thread (P := fun call : Call R =>
    call.configuration = t₀.call.configuration ∧ call.presented = t₀.call.presented)
    run.split.1 whole there ⟨rfl, rfl⟩ ?_
  intro _ _ _ _ _ _ _ _ same resumed
  obtain ⟨_, rfl, _⟩ := next_cases resumed
  exact same

/-- The call that drew the handle is one of the relay's, and the value is sealed for the binding
of its configuration. -/
def OwnRecord (s : F.machine.State) (relay : ResourceKey) (handle : Name) (value : BoundValue) :
    Prop :=
  ∃ t, s.threads[handle.call]? = some t ∧ t.call.configuration.relay.key = relay ∧
    IsRecord (F.binding t.call.configuration) handle value

theorem OwnRecord.step {s' : F.machine.State} {label : F.machine.Lbl}
    (taken : F.machine.step s label = some s') {relay : ResourceKey} {handle : Name}
    {value : BoundValue} (own : OwnRecord s relay handle value) :
    OwnRecord s' relay handle value := by
  obtain ⟨t, there, key, sealed⟩ := own
  rcases thread_persists taken there with same | ⟨_, _, _, _, resumed, after⟩
  · exact ⟨t, same, key, sealed⟩
  · obtain ⟨_, rfl, _⟩ := next_cases resumed
    exact ⟨_, after, key, sealed⟩

/-- **What the store holds under the key of a handle is sealed for the binding under which the
handle was drawn.** -/
theorem own_record (run : F.machine.Runs ok events s) {relay : ResourceKey} {handle : Name}
    {entry : Entry BoundValue} (there : s.store (relay, .handle handle) = some entry) :
    OwnRecord s relay handle entry.value := by
  induction run generalizing relay handle entry with
  | nil => cases there
  | @cons events s s' label run _ taken ih =>
      rw [step_store taken] at there
      refine OwnRecord.step taken ?_
      by_cases same : s.store.applyChange (Event.change (⟨s, label⟩ : F.machine.Event))
          (relay, .handle handle) = s.store (relay, .handle handle)
      · exact ih (same ▸ there)
      · have changed := Store.change_of_ne _ same
        rw [there] at changed
        obtain ⟨i, t, _, _, _, stepping, made⟩ := Event.by_of_change changed
        obtain ⟨rfl, sealed, origin⟩ := writes_record (formed run stepping) made
        rcases origin with rfl | ⟨value', live, sealed'⟩
        · exact ⟨t, stepping, rfl, sealed⟩
        · -- the record that is replaced is of the same binding
          obtain ⟨entry', found, _, rfl⟩ := Store.live_eq_some_iff.mp live
          obtain ⟨t', drew, key, _, _, own⟩ := ih found
          obtain ⟨_, _, mine⟩ := sealed'
          rw [mine] at own
          injection own with bindings
          exact ⟨t', drew, key, bindings ▸ sealed⟩

/-! ## Refusal -/

/-- The token is a handle of the binding: sealed for it, or drawn by a call under it. -/
def Opens (events : List F.machine.Event) (binding : HandleBinding) : Token → Prop
  | .sealedHandle text => (openHandle binding text).isSome = true
  | .rotating handle => ∃ e ∈ events, ∃ t, e.before.threads[handle.call]? = some t ∧
      F.binding t.call.configuration = binding
  | .other _ => False

theorem Opens.mono {events' : List F.machine.Event} (inside : events ⊆ events')
    {binding : HandleBinding} {token : Token} (opens : Opens events binding token) :
    Opens events' binding token := by
  cases token with
  | sealedHandle => exact opens
  | rotating =>
      obtain ⟨e, member, drawn⟩ := opens
      exact ⟨e, inside member, drawn⟩
  | other => exact opens

/-- Store and sealer fail a step of the call. -/
def Fails (events : List F.machine.Event) (i : ℕ) : Prop :=
  ∃ e ∈ events, ∃ delivery choice, e.label = .step i delivery choice ∧ Faulty delivery choice

/-- Where a call is that gets nowhere with its token, after a number of steps. -/
inductive Dismisses (ends : RefreshOutcome → Prop) : Token → Rotation.Call → ℕ → Prop where
  | load {handle : Name} : Dismisses ends (.rotating handle) (.rotating handle .load) 1
  | foreign {handle nonce : Name} :
      Dismisses ends (.rotating handle) (.rotating handle (.openRecord (.marker nonce))) 2
  | refused {handle : Name} {outcome : RefreshOutcome} {steps : ℕ} (ended : ends outcome) :
      Dismisses ends (.rotating handle) (.rotating handle (.done outcome)) steps
  | unopened {text : SealedText} :
      Dismisses ends (.sealedHandle text) (.founding (.openHandle none)) 1
  | rejected {token : Token} {outcome : RefreshOutcome} {steps : ℕ} (ended : ends outcome) :
      Dismisses ends token (.founding (.done outcome)) steps

/-- The call has refused its token, because of the token or of a failure. -/
abbrev Ended (events : List F.machine.Event) (i : ℕ) (outcome : RefreshOutcome) : Prop :=
  outcome = .invalidGrant ∨ Fails events i

theorem Dismisses.mono {ends ends' : RefreshOutcome → Prop} (weaker : ∀ o, ends o → ends' o)
    {token : Token} {call : Rotation.Call} {steps : ℕ}
    (dismisses : Dismisses ends token call steps) : Dismisses ends' token call steps := by
  cases dismisses with
  | load => exact .load
  | foreign => exact .foreign
  | refused ended => exact .refused (weaker _ ended)
  | unopened => exact .unopened
  | rejected ended => exact .rejected (weaker _ ended)

/-- A refresh begins without its token's being opened, or with a sealed handle that opens. -/
theorem dismisses_start {ends : RefreshOutcome → Prop} (invalid : ends .invalidGrant)
    {binding : HandleBinding} {name : Name} {token : Token} :
    Dismisses ends token (.start name (.refresh (token.presented binding))) 1 ∨
      Opens events binding token := by
  cases token with
  | sealedHandle text =>
      cases opened : openHandle binding text with
      | none =>
          refine .inl ?_
          simp only [Token.presented, opened]
          exact .unopened
      | some => exact .inr (by simp [Opens, opened])
  | rotating handle => exact .inl .load
  | other text => exact .inl (.rejected invalid)

/-- **A step out of a refused call refuses, unless the handle was drawn under the binding.** -/
theorem Dismisses.step (run : F.machine.Runs ok events s) {i : ℕ} {delivery : Delivery}
    {choice : Choice} {t : Thread (Call R)} {call : Call R} {token : Token}
    (dismisses : Dismisses (Ended events i) token t.call.call t.steps)
    (resumed : (F.machine.await t.call).next s.store s.now delivery
      (Rotation.answer choice ⟨i, t.steps⟩) = some call) :
    let events' : List F.machine.Event := ⟨s, .step i delivery choice⟩ :: events
    Dismisses (Ended events' i) token call.call (t.steps + 1) ∨
      Opens events' (F.binding t.call.configuration) token := by
  intro events'
  have failed : Faulty delivery choice → Fails events' i :=
    fun faulty => ⟨_, List.mem_cons_self .., delivery, choice, rfl, faulty⟩
  obtain ⟨⟨configuration, presented, rotating⟩, steps, since⟩ := t
  change (F.await ⟨configuration, presented, rotating⟩).next _ _ _ _ = _ at resumed
  rw [Fleet.await, Await.next_map, Option.map_eq_some_iff] at resumed
  obtain ⟨next, resumed, rfl⟩ := resumed
  cases dismisses with
  | @load handle =>
      rcases Await.next_get resumed with ⟨_, rfl⟩ | ⟨unanswered, error, rfl⟩
      · cases live : s.store.live s.now (configuration.relay.key, .handle handle) with
        | none => exact .inl (.refused (.inl rfl))
        | some value =>
            obtain ⟨entry, found, _, rfl⟩ := Store.live_eq_some_iff.mp live
            obtain ⟨t, drew, _, plain, nonce, same⟩ := own_record run found
            rw [same]
            by_cases own : F.binding t.call.configuration = F.binding configuration
            · exact .inr ⟨_, List.mem_cons_self .., t, drew, own⟩
            · refine .inl ?_
              simp only [Except.map, Option.bind_some, readValue_foreign own]
              exact .foreign
      · exact .inl (.refused (.inr (failed (.inl unanswered))))
  | foreign =>
      obtain rfl := Await.next_consult resumed
      refine .inl ?_
      cases sealer : choice.sealer with
      | works =>
          simp only [Rotation.answer, sealer, openValue]
          exact .refused (.inl rfl)
      | fails error =>
          simp only [Rotation.answer, sealer, openValue]
          exact .refused (.inr (failed (.inr (by simp [sealer]))))
      | timeout =>
          simp only [Rotation.answer, sealer, openValue]
          exact .refused (.inr (failed (.inr (by simp [sealer]))))
  | refused => cases resumed
  | unopened =>
      obtain rfl := Await.next_consult resumed
      refine .inl ?_
      cases sealer : choice.sealer with
      | works =>
          simp only [Rotation.answer, sealer, openSealedHandle]
          exact .rejected (.inl rfl)
      | fails error =>
          cases error <;> simp only [Rotation.answer, sealer, openSealedHandle] <;>
            exact .rejected (.inr (failed (.inr (by simp [sealer]))))
      | timeout =>
          simp only [Rotation.answer, sealer, openSealedHandle]
          exact .rejected (.inr (failed (.inr (by simp [sealer]))))
  | rejected => cases resumed

/-- **A refresh refuses its token all the way, unless the token is a handle of its binding.** -/
theorem dismisses_or_opens (run : F.machine.Runs ok events s) {i : ℕ} {t : Thread (Call R)}
    (there : s.threads[i]? = some t) {token : Token} (presents : t.call.presented = some token) :
    Dismisses (Ended events i) token t.call.call t.steps ∨
      Opens events (F.binding t.call.configuration) token := by
  refine run.thread_invariant (I := fun es i (t : Thread (Call R)) => ∀ token,
    t.call.presented = some token → Dismisses (Ended es i) token t.call.call t.steps ∨
      Opens es (F.binding t.call.configuration) token) ?_ ?_ ?_ there token presents
  · intro e es i t earlier _ token presents
    refine (earlier token presents).imp ?_ (Opens.mono (List.subset_cons_self ..))
    refine Dismisses.mono fun outcome => Or.imp_right ?_
    rintro ⟨e', member, failed⟩
    exact ⟨e', List.mem_cons_of_mem _ member, failed⟩
  · intro es s input _ token presents
    cases input with
    | issue => cases presents
    | refresh configuration token' =>
        cases presents
        exact dismisses_start (.inl rfl)
  · intro es s i delivery choice t call run _ before earlier resumed token presents
    obtain ⟨next, rfl, _⟩ := next_cases resumed
    rcases earlier token presents with dismisses | opens
    · exact dismisses.step run resumed
    · exact .inr (opens.mono (List.subset_cons_self ..))

/-- A refused call asks the upstream nothing and leaves the store as it is. -/
theorem Dismisses.idle {ends : RefreshOutcome → Prop} {token : Token} {call : Call R} {steps : ℕ}
    (dismisses : Dismisses ends token call.call steps) :
    (∀ sent, (F.machine.await call).question? ≠ some (.upstream sent)) ∧
      ∀ (σ : Store StoreKey BoundValue) now delivery,
        (F.machine.await call).change σ now delivery = none := by
  obtain ⟨configuration, presented, rotating⟩ := call
  cases dismisses with
  | load => exact ⟨nofun, fun _ _ _ => rfl⟩
  | foreign => exact ⟨nofun, fun _ _ _ => rfl⟩
  | refused => exact ⟨nofun, fun _ _ _ => rfl⟩
  | unopened => exact ⟨nofun, fun _ _ _ => rfl⟩
  | rejected => exact ⟨nofun, fun _ _ _ => rfl⟩

end Runs

/-! ## Handles and records of one configuration under another -/

section Bound

variable (F : Fleet R)

/-- A handle that was handed out under the configuration. -/
inductive Produced (s : F.machine.State) (configuration : Configuration R) : Token → Prop where
  | sealedHandle {handle : OpenedHandle} :
      Produced s configuration (.sealedHandle (sealHandle (F.binding configuration) handle))
  | rotating {handle : Name} {t : Thread (Call R)} (drew : s.threads[handle.call]? = some t)
      (under : t.call.configuration = configuration) : Produced s configuration (.rotating handle)

/-- What a refresh has answered. -/
def answered? : Rotation.Call → Option RefreshOutcome
  | .rotating _ (.done outcome) => some outcome
  | .founding (.done outcome) => some outcome
  | _ => none

theorem Dismisses.ended {ends : RefreshOutcome → Prop} {token : Token} {call : Rotation.Call}
    {steps : ℕ} (dismisses : Dismisses ends token call steps) (late : 3 ≤ steps) :
    (answered? call).isSome = true := by
  cases dismisses with
  | load => exact absurd late (by decide)
  | foreign => exact absurd late (by decide)
  | refused => rfl
  | unopened => exact absurd late (by decide)
  | rejected => rfl

theorem Dismisses.outcome {ends : RefreshOutcome → Prop} {token : Token} {call : Rotation.Call}
    {steps : ℕ} {outcome : RefreshOutcome} (dismisses : Dismisses ends token call steps)
    (answered : answered? call = some outcome) : ends outcome := by
  cases dismisses with
  | refused ended =>
      cases answered
      exact ended
  | rejected ended =>
      cases answered
      exact ended
  | load => cases answered
  | foreign => cases answered
  | unopened => cases answered

/-- A refresh answers `invalid_grant` after at most two steps, with no upstream call and no store
write, if store and sealer do not fail it. -/
structure Refuses (events : List F.machine.Event) (i : ℕ) (t : Thread (Call R)) : Prop where
  unasked : ∀ e ∈ events, ∀ t', e.By i t' →
    ∀ sent, (F.machine.await t'.call).question? ≠ some (.upstream sent)
  unwritten : ∀ e ∈ events, ∀ t', e.By i t' → e.change = none
  ended : 3 ≤ t.steps → (answered? t.call.call).isSome = true
  invalidGrant : ∀ outcome, answered? t.call.call = some outcome →
    outcome = .invalidGrant ∨ Fails events i

/-- **What a handle or a record is bound to.** -/
structure Bound : Prop where
  /-- The hashed bytes encode the generation and the upstream identity. -/
  fingerprint : ∀ a b : Identity, a.fingerprintInput = b.fingerprintInput → a = b
  /-- Associated data differ where purpose, relay key, store key or fingerprint do. -/
  associatedData : ∀ a b : Sealing, a.associatedData = b.associatedData → a = b
  /-- The bytes hashed into store keys differ where relay keys do. -/
  storeKeys : ∀ relay relay' material material',
    digestInput relay material = digestInput relay' material' → relay = relay'
  /-- A sealed handle opens under configurations that agree only. -/
  handles : ∀ c₁ c₂ : Configuration R, CollisionFree F.sha256 c₁ c₂ → ∀ handle opened,
    openHandle (F.binding c₂) (sealHandle (F.binding c₁) handle) = some opened → c₁.Agrees c₂
  /-- A record or a response does so too, and for its own purpose and key. -/
  records : ∀ c₁ c₂ : Configuration R, CollisionFree F.sha256 c₁ c₂ →
    ∀ purpose purpose' storeKey storeKey' plaintext opened,
      ((Sealing.state purpose (F.binding c₁) storeKey).seal plaintext).unseal
        (Sealing.state purpose' (F.binding c₂) storeKey').associatedData = some opened →
      c₁.Agrees c₂ ∧ purpose = purpose' ∧ storeKey = storeKey'
  /-- A relay without rotation sends nothing upstream for a handle of another configuration. -/
  stateless : ∀ s (c₁ c₂ : Configuration R), CollisionFree F.sha256 c₁ c₂ → ¬ c₁.Agrees c₂ →
    ∀ sealed token, Produced F s c₁ token →
      upstreamToken sealed (F.binding c₂) .works token = .error refusedToken
  /-- A relay with rotation refuses it, in every run. -/
  refused : ∀ events s, F.machine.Runs F.machine.anyStep events s →
    ∀ c₁ c₂ : Configuration R, CollisionFree F.sha256 c₁ c₂ → ¬ c₁.Agrees c₂ →
      ∀ i t token, s.threads[i]? = some t → t.call.configuration = c₂ →
        t.call.presented = some token → Produced F s c₁ token → Refuses F events i t

variable {F} {events : List F.machine.Event} {s : F.machine.State} {c₁ c₂ : Configuration R}

/-- A handle of one configuration is none of another's. -/
theorem not_opens (run : F.machine.Runs F.machine.anyStep events s)
    (free : CollisionFree F.sha256 c₁ c₂) (apart : ¬ c₁.Agrees c₂) {token : Token}
    (produced : Produced F s c₁ token) : ¬ Opens events (F.binding c₂) token := by
  intro opens
  cases produced with
  | sealedHandle =>
      obtain ⟨_, opened⟩ := Option.isSome_iff_exists.mp opens
      exact apart (agrees_of_binding free (binding_of_openHandle opened))
  | rotating drew under =>
      obtain ⟨e, member, t, drew', same⟩ := opens
      obtain ⟨t', after, stays, _⟩ := arguments_stay run member drew'
      obtain rfl := Option.some.inj (drew.symm.trans after)
      rw [← stays, under] at same
      exact apart (agrees_of_binding free same)

theorem refuses (run : F.machine.Runs F.machine.anyStep events s)
    (free : CollisionFree F.sha256 c₁ c₂) (apart : ¬ c₁.Agrees c₂) {i : ℕ} {t : Thread (Call R)}
    {token : Token} (there : s.threads[i]? = some t) (under : t.call.configuration = c₂)
    (presents : t.call.presented = some token) (produced : Produced F s c₁ token) :
    Refuses F events i t := by
  have closed := not_opens run free apart produced
  have dismissed := (dismisses_or_opens run there presents).resolve_right (under ▸ closed)
  -- the same holds before each of the call's steps
  have before : ∀ e ∈ events, ∀ t', e.By i t' →
      ∃ ends, Dismisses ends token t'.call.call t'.steps := by
    intro e member t' stepping
    obtain ⟨earlier, run', _, inside⟩ := run.of_mem member
    obtain ⟨t'', after, configuration, presented⟩ := arguments_stay run member stepping.1
    obtain rfl := Option.some.inj (there.symm.trans after)
    refine ⟨_, (dismisses_or_opens run' stepping.1 (presented ▸ presents)).resolve_right
      fun opens => ?_⟩
    rw [← configuration, under] at opens
    exact closed (opens.mono inside)
  refine ⟨?_, ?_, ?_, ?_⟩
  · intro e member t' stepping
    obtain ⟨_, dismisses⟩ := before e member t' stepping
    exact dismisses.idle.1
  · intro e member t' stepping
    obtain ⟨_, dismisses⟩ := before e member t' stepping
    obtain ⟨there', delivery, choice, label⟩ := stepping
    rw [Event.change_eq label there']
    exact dismisses.idle.2 _ _ _
  · exact dismissed.ended
  · exact fun outcome => dismissed.outcome

/-- **Handles and records are accepted under the binding they were made under, and nowhere
else.** -/
theorem binding_holds : Bound F where
  fingerprint _ _ same := Identity.fingerprintInput_injective same
  associatedData _ _ same := Sealing.associatedData_injective same
  storeKeys _ _ _ _ same := (digestInput_injective same).1
  handles _ _ free _ _ opened := agrees_of_binding free (binding_of_openHandle opened)
  records c₁ c₂ free purpose purpose' storeKey storeKey' plaintext opened unsealed := by
    have same := (Sealing.unseal_seal.mp unsealed).1
    injection same with purposes bindings storeKeys
    exact ⟨agrees_of_binding free bindings, purposes, storeKeys⟩
  stateless s c₁ c₂ free apart sealed token produced := by
    cases produced with
    | rotating => rfl
    | @sealedHandle handle =>
        cases opened : openHandle (F.binding c₂) (sealHandle (F.binding c₁) handle) with
        | none => cases sealed <;> simp [upstreamToken, opened, openSealedHandle]
        | some => exact absurd (agrees_of_binding free (binding_of_openHandle opened)) apart
  refused _ _ run _ _ free apart _ _ _ there under presents produced :=
    refuses run free apart there under presents produced

end Bound

/-! ## A handle of an older generation -/

/-- Redirect URIs are taken as they are. -/
def plainRules : Rules where
  parseUrl _ := none
  Matcher := String
  identity := id
  validateMatcher _ := pure ()
  httpOrigin _ := none
  Policy := Empty
  validatePolicy policy := policy.elim

/-- A relay in one of its generations. -/
def generationOf (generation : Option String)
    (inMemory : ∀ text ∈ generation, InMemory text) : Configuration plainRules where
  relay := ⟨Codes.sampleKey, Codes.sampleKey, generation, .isPublic, [], none, [], none,
    ⟨.rotating, 30, 2592000⟩, ["https://app.example/callback"]⟩
  upstream := ⟨Codes.sampleKey, ⟨"https://issuer.example/", "https",
    some ("issuer.example", false), "", none, "/", none, none⟩, none, none, none, "id", "secret",
    .clientSecretPost⟩
  references := rfl
  generation_inMemory := inMemory
  issuer_inMemory := by
    show (Wire.Codec.utf8Bytes _).length < _
    decide +kernel
  tokenEndpoint_inMemory := nofun
  clientId_inMemory := by
    show (Wire.Codec.utf8Bytes _).length < _
    decide +kernel

def firstGeneration : Configuration plainRules := generationOf none nofun

def secondGeneration : Configuration plainRules :=
  generationOf (some "2") <| by
    rintro _ ⟨⟩
    show (Wire.Codec.utf8Bytes _).length < _
    decide +kernel

/-- A hash that shows what follows the domain. -/
def sampleFleet : Fleet plainRules where
  sha256 input := ⟨((input.drop fingerprintDomain.length).take 32).rightpad 32 0, by
    rw [List.length_rightpad, List.length_take]
    omega⟩
  rotator _ := Rotation.sampleRotator 30000 2592000000 .default

/-- A handle is issued, and presented to the relay in its second generation or its first. -/
def presentedTo (configuration : Configuration plainRules) : Option (Option RefreshOutcome) :=
  (sampleFleet.machine.replay (fun _ _ _ => true)
    ([.begin (.issue firstGeneration "up")] ++
      List.replicate 4 (.step 0 .answered (Choice.good 0)) ++
      [.begin (.refresh configuration (.rotating ⟨0, 0⟩))] ++
      List.replicate 2 (.step 1 .answered (Choice.good 0))) [] sampleFleet.machine.initial).bind
    fun last => last.2.threads[1]?.map fun t => answered? t.call.call

example : presentedTo secondGeneration = some (some .invalidGrant) := by decide +kernel

example : presentedTo firstGeneration = some none := by decide +kernel

end OAuthRelay.Binding
