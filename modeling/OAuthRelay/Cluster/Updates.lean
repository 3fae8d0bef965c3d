import OAuthRelay.Async.Steps
import OAuthRelay.Cluster.Discovery

/-!
# Following a cluster

The provider follows its upstreams, its relays and the metadata of the secrets with a watcher
each. After an event that changes what it knows, and when it refreshes, it compiles what its
stores show, if no list is in progress. What was compiled is published. A compilation that
fails stops the provider when nothing has been published yet, and else leaves the published
snapshot in place.

The provider publishes nothing that is half read, and it loses no update
(`cluster_followed`).
-/

set_option autoImplicit false

namespace OAuthRelay.Cluster

open Async.Steps (Event Runs)
open Config (Error ProviderSnapshot Readers RelayResourceSpec Resolver Rules UpstreamResourceSpec)

variable {R : Rules} {B : Readers R} {Spec : Type}

/-! ## The provider -/

/-- What a watcher delivers: an event, an error, or its end. -/
abbrev Delivered (Spec : Type) := Option (Except Unit (WatchEvent Spec))

/-- Where `run` is. -/
inductive Phase (B : Readers R) where
  | waiting
  | compiling (upstreams : List UpstreamObject) (relays : List (RelayObject B))
  /-- `run` has returned, with the text of an error if there is one. -/
  | stopped (result : Except String Unit)

structure Provider (B : Readers R) where
  upstreams : Store UpstreamResourceSpec
  relays : Store (RelayResourceSpec B)
  secrets : Store Unit
  phase : Phase B
  /-- The snapshots that were sent, the last one first. -/
  sent : List (ProviderSnapshot R)

/-- What happens to `run`. -/
inductive Happening (B : Readers R) where
  | upstream (event : Delivered UpstreamResourceSpec)
  | relay (event : Delivered (RelayResourceSpec B))
  | secret (event : Delivered Unit)
  | refresh
  /-- `INITIAL_SYNC_TIMEOUT` is over. -/
  | deadline
  /-- All receivers of the snapshots are gone. -/
  | closed
  /-- The compilation ends, with secrets from this resolver, or takes too long. A receiver may be
  listening to the snapshot. -/
  | compiled (resolver : Option Resolver) (listening : Bool)

namespace Provider

def initial : Provider B := ⟨.empty, .empty, .empty, .waiting, []⟩

def published (p : Provider B) : Bool := !p.sent.isEmpty

def ready (p : Provider B) : Bool := p.upstreams.ready && p.relays.ready && p.secrets.ready

/-- Compiles what the stores show if it has changed and all are ready. -/
def settle (p : Provider B) (changed : Bool) : Provider B :=
  if changed && p.ready then
    { p with phase := .compiling p.upstreams.objects.values p.relays.objects.values }
  else p

/-- A changed secret is relevant if it is referenced; all else that the watcher delivers is. -/
def relevant (p : Provider B) : Delivered Unit → Bool
  | some (.ok (.apply object)) | some (.ok (.delete object)) =>
      object.nameAny ∈ referencedSecrets p.upstreams p.relays
  | _ => true

def stop (p : Provider B) (result : Except String Unit) : Provider B :=
  { p with phase := .stopped result }

/-- The end of a compilation. -/
def finish (p : Provider B) (result : Except Error (ProviderSnapshot R)) (listening : Bool) :
    Provider B :=
  match result with
  | .ok snapshot =>
      if listening then { p with phase := .waiting, sent := snapshot :: p.sent }
      else p.stop (.ok ())
  | .error _ =>
      if p.published then { p with phase := .waiting }
      else p.stop (.error "invalid initial Kubernetes configuration")

/-- What a compilation that has begun results in. -/
def outcome (namespaceName : String) (upstreams : List UpstreamObject)
    (relays : List (RelayObject B)) : Option Resolver → Except Error (ProviderSnapshot R)
  | some resolver => compile namespaceName resolver upstreams relays
  | none => .error ["Kubernetes configuration compilation timed out"]

/-- One step of `run`; `none` when it does not wait for this. -/
def step (namespaceName : String) (p : Provider B) (happening : Happening B) :
    Option (Provider B) :=
  match p.phase, happening with
  | .waiting, .upstream event =>
      match watchEvent p.upstreams event with
      | .ok (store, changed) => some ({ p with upstreams := store }.settle changed)
      | .error _ => some (p.stop (.error "Kubernetes Upstream watch stopped"))
  | .waiting, .relay event =>
      match watchEvent p.relays event with
      | .ok (store, changed) => some ({ p with relays := store }.settle changed)
      | .error _ => some (p.stop (.error "Kubernetes Relay watch stopped"))
  | .waiting, .secret event =>
      match watchEvent p.secrets event with
      | .ok (store, changed) =>
          some ({ p with secrets := store }.settle (changed && p.relevant event))
      | .error _ => some (p.stop (.error "Kubernetes Secret watch stopped"))
  | .waiting, .refresh => some (p.settle true)
  | .compiling upstreams relays, .compiled resolver listening =>
      some (p.finish (outcome namespaceName upstreams relays resolver) listening)
  | .waiting, .closed | .compiling .., .closed => some (p.stop (.ok ()))
  | .waiting, .deadline | .compiling .., .deadline =>
      if p.published then none
      else some (p.stop (.error "initial Kubernetes synchronization timed out"))
  | _, _ => none

end Provider

/-! ## What is claimed -/

/-- What the watcher of the upstreams has delivered, the last event first. -/
def upstreamEvents (events : List (Event (Provider B) (Happening B))) :
    List (WatchEvent UpstreamResourceSpec) :=
  events.filterMap fun e =>
    match e.label with
    | .upstream (some (.ok event)) => some event
    | _ => none

/-- What the watcher of the relays has delivered. -/
def relayEvents (events : List (Event (Provider B) (Happening B))) :
    List (WatchEvent (RelayResourceSpec B)) :=
  events.filterMap fun e =>
    match e.label with
    | .relay (some (.ok event)) => some event
    | _ => none

/-- What the watcher of the secrets has delivered. -/
def secretEvents (events : List (Event (Provider B) (Happening B))) : List (WatchEvent Unit) :=
  events.filterMap fun e =>
    match e.label with
    | .secret (some (.ok event)) => some event
    | _ => none

/-- The watchers deliver what they may. -/
def Contract (events : List (Event (Provider B) (Happening B))) (_ : Provider B) :
    Happening B → Prop
  | .upstream (some (.ok event)) => Permitted (upstreamEvents events) event
  | .relay (some (.ok event)) => Permitted (relayEvents events) event
  | .secret (some (.ok event)) => Permitted (secretEvents events) event
  | _ => True

/-- A compilation of these objects begins with the step. -/
def Starts (e : Event (Provider B) (Happening B)) (upstreams : List UpstreamObject)
    (relays : List (RelayObject B)) : Prop :=
  e.before.phase = .waiting ∧ e.after.phase = .compiling upstreams relays

/-- A compilation begins with the step. -/
def Begins (e : Event (Provider B) (Happening B)) : Prop :=
  ∃ upstreams relays, Starts e upstreams relays

/-- The stores show the objects of complete lists, with what was applied and deleted since. -/
structure Read (events : List (Event (Provider B) (Happening B))) (p : Provider B) : Prop where
  upstreams : Complete (upstreamEvents events) ∧
    p.upstreams.objects.Shows (current (upstreamEvents events))
  relays : Complete (relayEvents events) ∧
    p.relays.objects.Shows (current (relayEvents events))
  secrets : Complete (secretEvents events) ∧
    p.secrets.objects.Shows (current (secretEvents events))

/-- Each kind has a complete list, and none is in progress. -/
def AllComplete (events : List (Event (Provider B) (Happening B))) : Prop :=
  Complete (upstreamEvents events) ∧ Complete (relayEvents events) ∧ Complete (secretEvents events)

/-- An event that can change what is compiled from the objects that `p` shows: a list is
complete, an upstream or a relay is applied or deleted, or a secret is that is referenced, now
or when it changed. -/
def Affects (p : Provider B) (e : Event (Provider B) (Happening B)) : Prop :=
  match e.label with
  | .upstream (some (.ok event)) => event.changes = true
  | .relay (some (.ok event)) => event.changes = true
  | .secret (some (.ok .initDone)) => True
  | .secret (some (.ok (.apply object))) | .secret (some (.ok (.delete object))) =>
      object.nameAny ∈ referencedSecrets p.upstreams p.relays ∨
        object.nameAny ∈ referencedSecrets e.before.upstreams e.before.relays
  | _ => False

/-- The names of the secrets that were applied or deleted. -/
def changedSecrets (events : List (Event (Provider B) (Happening B))) : List String :=
  (secretEvents events).filterMap fun event =>
    match event with
    | .apply object | .delete object => some object.nameAny
    | _ => none

/-- The provider publishes nothing that is half read, and loses no update. -/
structure Followed (namespaceName : String) (events : List (Event (Provider B) (Happening B)))
    (p : Provider B) : Prop where
  /-- A published snapshot was compiled from the objects of complete lists. -/
  complete : ∀ snapshot ∈ p.sent, ∃ later c earlier upstreams relays resolver,
    events = later ++ c :: earlier ∧ Starts c upstreams relays ∧ Read (c :: earlier) c.after ∧
    upstreams = c.after.upstreams.objects.values ∧ relays = c.after.relays.objects.values ∧
    compile namespaceName resolver upstreams relays = .ok snapshot
  /-- While the provider waits with complete lists, every event that can change the result is
  followed by a compilation that began after it. -/
  followed : p.phase = .waiting → AllComplete events → ∀ later e earlier,
    events = later ++ e :: earlier → Affects p e →
    ∃ c ∈ later ++ [e], Begins c
  /-- The last compilation was of the objects that are there now. One that began now, with secrets
  that have changed as the watcher says, would come to the same. -/
  latest : p.phase = .waiting → AllComplete events → ∃ later c earlier,
    events = later ++ c :: earlier ∧ (∀ e ∈ later, ¬ Begins e) ∧
    Starts c p.upstreams.objects.values p.relays.objects.values ∧
    ∀ resolver resolver', Agree (· ∉ changedSecrets later) resolver resolver' →
      compile namespaceName resolver p.upstreams.objects.values p.relays.objects.values =
        compile namespaceName resolver' p.upstreams.objects.values p.relays.objects.values
  /-- A compilation that fails leaves the published snapshot in place. -/
  kept : ∀ e ∈ events, ∀ resolver listening upstreams relays error,
    e.label = .compiled resolver listening → e.before.phase = .compiling upstreams relays →
    Provider.outcome namespaceName upstreams relays resolver = .error error →
    e.before.sent ≠ [] → e.after = { e.before with phase := .waiting }

/-! ## What a step does -/

/-- What the stores become when the provider takes something up, and whether it has changed. -/
inductive Takes (p : Provider B) : Happening B → Provider B → Bool → Prop
  | upstream (event : WatchEvent UpstreamResourceSpec) :
      Takes p (.upstream (some (.ok event)))
        { p with upstreams := (p.upstreams.apply event).1 } event.changes
  | relay (event : WatchEvent (RelayResourceSpec B)) :
      Takes p (.relay (some (.ok event)))
        { p with relays := (p.relays.apply event).1 } event.changes
  | secret (event : WatchEvent Unit) :
      Takes p (.secret (some (.ok event)))
        { p with secrets := (p.secrets.apply event).1 }
        (event.changes && p.relevant (some (.ok event)))
  | upstreamFails (error : Unit) : Takes p (.upstream (some (.error error))) p false
  | relayFails (error : Unit) : Takes p (.relay (some (.error error))) p false
  | secretFails (error : Unit) : Takes p (.secret (some (.error error))) p false
  | refresh : Takes p .refresh p true

/-- A watcher delivers an event. -/
def Happening.delivers : Happening B → Bool
  | upstream (some (.ok _)) | relay (some (.ok _)) | secret (some (.ok _)) => true
  | _ => false

/-- What a step can be. -/
inductive Steps (namespaceName : String) (p : Provider B) : Happening B → Provider B → Prop
  | takes {happening : Happening B} {q : Provider B} {changed : Bool}
      (waiting : p.phase = .waiting) (took : Takes p happening q changed) :
      Steps namespaceName p happening (q.settle changed)
  | finishes {upstreams : List UpstreamObject} {relays : List (RelayObject B)}
      (compiling : p.phase = .compiling upstreams relays) (resolver : Option Resolver)
      (listening : Bool) :
      Steps namespaceName p (.compiled resolver listening)
        (p.finish (Provider.outcome namespaceName upstreams relays resolver) listening)
  | stops {happening : Happening B} (result : Except String Unit)
      (silent : happening.delivers = false) :
      Steps namespaceName p happening (p.stop result)

theorem steps_of_step {namespaceName : String} {p p' : Provider B} {happening : Happening B}
    (taken : p.step namespaceName happening = some p') :
    Steps namespaceName p happening p' := by
  unfold Provider.step at taken
  split at taken
  · rename_i event waiting
    obtain _ | _ | event := event
    · cases taken
      exact .stops _ rfl
    · cases taken
      exact .takes waiting (.upstreamFails _)
    · simp only [watchEvent, Option.some.injEq, Store.apply_snd] at taken
      subst taken
      exact .takes waiting (.upstream event)
  · rename_i event waiting
    obtain _ | _ | event := event
    · cases taken
      exact .stops _ rfl
    · cases taken
      exact .takes waiting (.relayFails _)
    · simp only [watchEvent, Option.some.injEq, Store.apply_snd] at taken
      subst taken
      exact .takes waiting (.relay event)
  · rename_i event waiting
    obtain _ | _ | event := event
    · cases taken
      exact .stops _ rfl
    · cases taken
      exact .takes waiting (.secretFails _)
    · simp only [watchEvent, Option.some.injEq, Store.apply_snd] at taken
      subst taken
      exact .takes waiting (.secret event)
  · rename_i waiting
    cases taken
    exact .takes waiting .refresh
  · rename_i compiling
    cases taken
    exact .finishes compiling _ _
  · cases taken
    exact .stops _ rfl
  · cases taken
    exact .stops _ rfl
  · split at taken
    · cases taken
    · cases taken
      exact .stops _ rfl
  · split at taken
    · cases taken
    · cases taken
      exact .stops _ rfl
  · cases taken

/-! ## What the stores show -/

variable {namespaceName : String} {events : List (Event (Provider B) (Happening B))}
  {p p' q : Provider B} {happening : Happening B} {changed : Bool}

/-- The stores show what their watchers have delivered. -/
structure Provider.Follows (p : Provider B) (events : List (Event (Provider B) (Happening B))) :
    Prop where
  upstreams : p.upstreams.Follows (upstreamEvents events)
  relays : p.relays.Follows (relayEvents events)
  secrets : p.secrets.Follows (secretEvents events)

theorem Provider.Follows.ready_iff (follows : p.Follows events) :
    p.ready = true ↔ AllComplete events := by
  unfold Provider.ready AllComplete
  rw [Bool.and_eq_true, Bool.and_eq_true, follows.upstreams.ready_iff, follows.relays.ready_iff,
    follows.secrets.ready_iff, and_assoc]

theorem Provider.Follows.read (follows : p.Follows events) (ready : p.ready = true) :
    Read events p := by
  obtain ⟨upstreams, relays, secrets⟩ := follows.ready_iff.mp ready
  exact ⟨⟨upstreams, follows.upstreams.shows⟩, ⟨relays, follows.relays.shows⟩,
    ⟨secrets, follows.secrets.shows⟩⟩

/-- A state with the same stores follows the watchers as well. -/
theorem Provider.Follows.of_stores (follows : p.Follows events)
    (upstreams : q.upstreams = p.upstreams) (relays : q.relays = p.relays)
    (secrets : q.secrets = p.secrets) : q.Follows events :=
  ⟨upstreams ▸ follows.upstreams, relays ▸ follows.relays, secrets ▸ follows.secrets⟩

theorem settle_stores (p : Provider B) (changed : Bool) :
    (p.settle changed).upstreams = p.upstreams ∧ (p.settle changed).relays = p.relays ∧
      (p.settle changed).secrets = p.secrets ∧ (p.settle changed).sent = p.sent := by
  unfold Provider.settle
  split <;> exact ⟨rfl, rfl, rfl, rfl⟩

/-- What is taken up leaves the provider waiting with what it has sent. -/
theorem Takes.phase_eq (took : Takes p happening q changed) :
    q.phase = p.phase ∧ q.sent = p.sent := by
  cases took <;> exact ⟨rfl, rfl⟩

/-- What delivers no event leaves the stores following. -/
theorem Provider.Follows.silent (follows : p.Follows events)
    (silent : happening.delivers = false) (before after : Provider B) :
    p.Follows (⟨before, happening, after⟩ :: events) := by
  obtain (_ | _ | _) | (_ | _ | _) | (_ | _ | _) | _ | _ | _ | _ := happening
  all_goals first
    | exact ⟨follows.upstreams, follows.relays, follows.secrets⟩
    | cases silent

/-- **The stores keep following.** -/
theorem follows_takes (follows : p.Follows events) (contract : Contract events p happening)
    (took : Takes p happening q changed) (after : Provider B) :
    q.Follows (⟨p, happening, after⟩ :: events) := by
  cases took with
  | upstream event =>
      exact ⟨follows_apply follows.upstreams contract, follows.relays, follows.secrets⟩
  | relay event =>
      exact ⟨follows.upstreams, follows_apply follows.relays contract, follows.secrets⟩
  | secret event =>
      exact ⟨follows.upstreams, follows.relays, follows_apply follows.secrets contract⟩
  | upstreamFails | relayFails | secretFails | refresh =>
      exact ⟨follows.upstreams, follows.relays, follows.secrets⟩

/-! ## No event is lost -/

/-- What can affect the result depends on the objects alone. -/
theorem Affects.of_objects {e : Event (Provider B) (Happening B)} (affects : Affects q e)
    (upstreams : q.upstreams.objects = p.upstreams.objects)
    (relays : q.relays.objects = p.relays.objects) : Affects p e := by
  unfold Affects at affects ⊢
  unfold referencedSecrets at affects ⊢
  rwa [upstreams, relays] at affects

/-- **What does not begin a compilation with complete lists cannot affect the result.** The
lists were complete before, and the upstreams and relays are what they were. -/
theorem Takes.unaffected (took : Takes p happening q changed) (ready : q.ready = true)
    (unchanged : changed = false) (after : Provider B) :
    p.ready = true ∧ q.upstreams.objects = p.upstreams.objects ∧
      q.relays.objects = p.relays.objects ∧ ¬ Affects q ⟨p, happening, after⟩ := by
  cases took with
  | upstream event =>
      cases event with
      | init | initApply => simp [Provider.ready, Store.ready, Store.apply] at ready
      | initDone | apply | delete => cases unchanged
  | relay event =>
      cases event with
      | init | initApply => simp [Provider.ready, Store.ready, Store.apply] at ready
      | initDone | apply | delete => cases unchanged
  | secret event =>
      cases event with
      | init | initApply => simp [Provider.ready, Store.ready, Store.apply] at ready
      | initDone => cases unchanged
      | apply object | delete object =>
          have irrelevant : object.nameAny ∉ referencedSecrets p.upstreams p.relays := by
            simpa [WatchEvent.changes, Provider.relevant] using unchanged
          exact ⟨ready, rfl, rfl, fun affects => affects.elim irrelevant irrelevant⟩
  | upstreamFails | relayFails | secretFails => exact ⟨ready, rfl, rfl, id⟩
  | refresh => cases unchanged

/-- The last compilation was of the objects that are there now, and nothing since then can
affect the result. -/
structure UpToDate (events : List (Event (Provider B) (Happening B))) (p : Provider B) :
    Prop where
  latest : ∃ later c earlier, events = later ++ c :: earlier ∧ (∀ e ∈ later, ¬ Begins e) ∧
    Starts c p.upstreams.objects.values p.relays.objects.values
  followed : ∀ later e earlier, events = later ++ e :: earlier → Affects p e →
    ∃ c ∈ later ++ [e], Begins c

/-- A step that begins nothing keeps the provider up to date, when it cannot affect the
result. -/
theorem UpToDate.cons {e : Event (Provider B) (Happening B)} (upToDate : UpToDate events p)
    (idle : ¬ Begins e) (upstreams : q.upstreams.objects = p.upstreams.objects)
    (relays : q.relays.objects = p.relays.objects) (unaffected : ¬ Affects q e) :
    UpToDate (e :: events) q := by
  refine ⟨?_, ?_⟩
  · obtain ⟨later, c, earlier, rfl, none, starts⟩ := upToDate.latest
    refine ⟨e :: later, c, earlier, rfl, List.forall_mem_cons.mpr ⟨idle, none⟩, ?_⟩
    rwa [upstreams, relays]
  · intro later f earlier same affects
    cases later with
    | nil =>
        obtain ⟨rfl, -⟩ := List.cons.inj same
        exact absurd affects unaffected
    | cons first later =>
        obtain ⟨rfl, before⟩ := List.cons.inj same
        obtain ⟨c, member, begins⟩ := upToDate.followed later f earlier before
          (affects.of_objects upstreams relays)
        exact ⟨c, List.mem_cons_of_mem _ member, begins⟩

/-! ## Every run -/

/-- A compilation of the objects that are there has just begun. -/
structure Compiling (events : List (Event (Provider B) (Happening B))) (p : Provider B)
    (upstreams : List UpstreamObject) (relays : List (RelayObject B)) : Prop where
  upstreams_eq : upstreams = p.upstreams.objects.values
  relays_eq : relays = p.relays.objects.values
  ready : p.ready = true
  begun : ∃ c earlier, events = c :: earlier ∧ Starts c upstreams relays ∧ c.after = p

/-- A snapshot was compiled from the objects of complete lists. -/
def CompiledFrom (namespaceName : String) (events : List (Event (Provider B) (Happening B)))
    (snapshot : ProviderSnapshot R) : Prop :=
  ∃ later c earlier upstreams relays resolver,
    events = later ++ c :: earlier ∧ Starts c upstreams relays ∧ Read (c :: earlier) c.after ∧
    upstreams = c.after.upstreams.objects.values ∧ relays = c.after.relays.objects.values ∧
    compile namespaceName resolver upstreams relays = .ok snapshot

theorem CompiledFrom.cons {snapshot : ProviderSnapshot R} (e : Event (Provider B) (Happening B))
    (compiled : CompiledFrom namespaceName events snapshot) :
    CompiledFrom namespaceName (e :: events) snapshot := by
  obtain ⟨later, c, earlier, upstreams, relays, resolver, rfl, others⟩ := compiled
  exact ⟨e :: later, c, earlier, upstreams, relays, resolver, rfl, others⟩

/-- What holds at every point of a run. -/
structure Sound (namespaceName : String) (events : List (Event (Provider B) (Happening B)))
    (p : Provider B) : Prop where
  follows : p.Follows events
  sent : ∀ snapshot ∈ p.sent, CompiledFrom namespaceName events snapshot
  waiting : p.phase = .waiting → p.ready = true → UpToDate events p
  compiling : ∀ upstreams relays, p.phase = .compiling upstreams relays →
    Compiling events p upstreams relays

theorem sound_initial : Sound namespaceName [] (.initial : Provider B) where
  follows := ⟨follows_empty, follows_empty, follows_empty⟩
  sent _ member := nomatch member
  waiting _ ready := nomatch ready
  compiling _ _ compiling := nomatch compiling

/-- The provider takes something up. -/
theorem sound_takes (sound : Sound namespaceName events p) (contract : Contract events p happening)
    (waiting : p.phase = .waiting) (took : Takes p happening q changed) :
    Sound namespaceName (⟨p, happening, q.settle changed⟩ :: events) (q.settle changed) := by
  have follows := follows_takes sound.follows contract took (q.settle changed)
  obtain ⟨upstreams, relays, secrets, sent⟩ := settle_stores q changed
  obtain ⟨phase, sentBefore⟩ := took.phase_eq
  refine ⟨follows.of_stores upstreams relays secrets, ?_, ?_, ?_⟩
  · intro snapshot member
    rw [sent, sentBefore] at member
    exact (sound.sent snapshot member).cons _
  · intro still ready
    -- Only what does not change anything leaves the provider waiting with complete lists.
    have settled : q.settle changed = q := by
      unfold Provider.settle at still ⊢
      split at still
      · cases still
      · rename_i idle
        exact if_neg idle
    rw [settled] at ready ⊢
    have unchanged : changed = false := by
      cases changed with
      | false => rfl
      | true =>
          unfold Provider.settle at still
          rw [ready] at still
          cases still
    obtain ⟨readyBefore, sameUpstreams, sameRelays, unaffected⟩ :=
      took.unaffected ready unchanged q
    refine (sound.waiting waiting readyBefore).cons ?_ sameUpstreams sameRelays unaffected
    rintro ⟨_, _, -, after⟩
    rw [phase, waiting] at after
    cases after
  · intro ups rels compiling
    have starts : Starts (⟨p, happening, q.settle changed⟩ : Event _ _) ups rels :=
      ⟨waiting, compiling⟩
    unfold Provider.settle at compiling ⊢
    split at compiling
    · rename_i begins
      cases compiling
      rw [if_pos begins]
      exact ⟨rfl, rfl, (Bool.and_eq_true_iff.mp begins).2, _, _, rfl, by
        rwa [Provider.settle, if_pos begins] at starts, rfl⟩
    · rw [phase, waiting] at compiling
      cases compiling

/-- A compilation that ends was of all there is. -/
theorem Compiling.upToDate {upstreams : List UpstreamObject} {relays : List (RelayObject B)}
    (compiling : Compiling events p upstreams relays) {e : Event (Provider B) (Happening B)}
    {resolver : Option Resolver} {listening : Bool} (label : e.label = .compiled resolver listening)
    (idle : ¬ Begins e) (sameUpstreams : q.upstreams = p.upstreams)
    (sameRelays : q.relays = p.relays) : UpToDate (e :: events) q := by
  obtain ⟨c, earlier, rfl, starts, -⟩ := compiling.begun
  refine ⟨⟨[e], c, earlier, rfl, by simpa using idle, ?_⟩, ?_⟩
  · rw [sameUpstreams, sameRelays, ← compiling.upstreams_eq, ← compiling.relays_eq]
    exact starts
  · intro later f before same affects
    refine ⟨c, ?_, _, _, starts⟩
    match later, same with
    | [], same =>
        obtain ⟨rfl, -⟩ := List.cons.inj same
        unfold Affects at affects
        rw [label] at affects
        exact affects.elim
    | [_], same =>
        obtain ⟨-, same⟩ := List.cons.inj same
        obtain ⟨rfl, -⟩ := List.cons.inj same
        exact List.mem_cons_of_mem _ (List.mem_singleton_self _)
    | _ :: _ :: _, same =>
        obtain ⟨-, same⟩ := List.cons.inj same
        obtain ⟨rfl, -⟩ := List.cons.inj same
        exact List.mem_cons_of_mem _ (List.mem_cons_self ..)

theorem sound_stop (sound : Sound namespaceName events p) (silent : happening.delivers = false)
    (result : Except String Unit) :
    Sound namespaceName (⟨p, happening, p.stop result⟩ :: events) (p.stop result) where
  follows := (sound.follows.silent silent p _).of_stores rfl rfl rfl
  sent snapshot member := (sound.sent snapshot member).cons _
  waiting still := nomatch still
  compiling _ _ compiling := nomatch compiling

/-- A compilation ends, and the provider waits again. -/
theorem sound_waits {upstreams : List UpstreamObject} {relays : List (RelayObject B)}
    (sound : Sound namespaceName events p) (compiling : p.phase = .compiling upstreams relays)
    (resolver : Option Resolver) (listening : Bool) {sent : List (ProviderSnapshot R)}
    (compiled : ∀ snapshot ∈ sent, CompiledFrom namespaceName events snapshot) :
    Sound namespaceName
      (⟨p, .compiled resolver listening, { p with phase := .waiting, sent := sent }⟩ :: events)
      { p with phase := .waiting, sent := sent } where
  follows := (sound.follows.silent rfl p _).of_stores rfl rfl rfl
  sent snapshot member := (compiled snapshot member).cons _
  waiting _ _ := by
    refine (sound.compiling _ _ compiling).upToDate rfl ?_ rfl rfl
    rintro ⟨_, _, before, -⟩
    rw [compiling] at before
    cases before
  compiling _ _ compiling := nomatch compiling

theorem sound_finishes {upstreams : List UpstreamObject} {relays : List (RelayObject B)}
    (sound : Sound namespaceName events p) (compiling : p.phase = .compiling upstreams relays)
    (resolver : Option Resolver) (listening : Bool) {result : Except Error (ProviderSnapshot R)}
    (ended : Provider.outcome namespaceName upstreams relays resolver = result) :
    Sound namespaceName (⟨p, .compiled resolver listening, p.finish result listening⟩ :: events)
      (p.finish result listening) := by
  unfold Provider.finish
  cases result with
  | error error =>
      dsimp only
      split
      · exact sound_waits sound compiling resolver listening sound.sent
      · exact sound_stop sound rfl _
  | ok snapshot =>
      dsimp only
      split
      · refine sound_waits sound compiling resolver listening ?_
        refine List.forall_mem_cons.mpr ⟨?_, sound.sent⟩
        have begun := sound.compiling _ _ compiling
        obtain ⟨c, earlier, rfl, starts, rfl⟩ := begun.begun
        cases resolver with
        | none => cases ended
        | some resolver =>
            exact ⟨[], c, earlier, upstreams, relays, resolver, rfl, starts,
              sound.follows.read begun.ready, begun.upstreams_eq, begun.relays_eq, ended⟩
      · exact sound_stop sound rfl _

theorem sound_of_run (run : Runs (Provider.step namespaceName) Contract .initial events p) :
    Sound namespaceName events p := by
  refine run.invariant sound_initial fun _ _ _ _ _ contract taken sound => ?_
  cases steps_of_step taken with
  | takes waiting took => exact sound_takes sound contract waiting took
  | finishes compiling resolver listening =>
      exact sound_finishes sound compiling resolver listening rfl
  | stops result silent => exact sound_stop sound silent result

/-- A failed compilation leaves what was published. -/
theorem kept_of_step {upstreams : List UpstreamObject} {relays : List (RelayObject B)}
    {resolver : Option Resolver} {listening : Bool} {error : Error}
    (taken : p.step namespaceName (.compiled resolver listening) = some p')
    (compiling : p.phase = .compiling upstreams relays)
    (failed : Provider.outcome namespaceName upstreams relays resolver = .error error)
    (published : p.sent ≠ []) : p' = { p with phase := .waiting } := by
  have nonempty : p.published = true := by
    simpa [Provider.published] using published
  simp only [Provider.step, compiling, failed, Option.some.injEq] at taken
  rw [← taken, Provider.finish, if_pos nonempty]

theorem mem_changedSecrets {name : String} (changed : name ∈ changedSecrets events) :
    ∃ e ∈ events, ∃ object : Object Unit, object.nameAny = name ∧
      (e.label = .secret (some (.ok (.apply object))) ∨
        e.label = .secret (some (.ok (.delete object)))) := by
  obtain ⟨event, delivered, named⟩ := List.mem_filterMap.mp changed
  obtain ⟨e, member, found⟩ := List.mem_filterMap.mp delivered
  refine ⟨e, member, ?_⟩
  split at found
  · rename_i label
    cases found
    split at named
    · exact ⟨_, Option.some.inj named, .inl label⟩
    · exact ⟨_, Option.some.inj named, .inr label⟩
    · cases named
  · cases found

/-- A secret that has changed since the last compilation is not referenced. -/
theorem UpToDate.unreferenced {later earlier : List (Event (Provider B) (Happening B))}
    (upToDate : UpToDate (later ++ earlier) p) (idle : ∀ e ∈ later, ¬ Begins e) {name : String}
    (changed : name ∈ changedSecrets later) :
    name ∉ referencedSecrets p.upstreams p.relays := by
  intro referenced
  obtain ⟨e, member, object, rfl, label⟩ := mem_changedSecrets changed
  obtain ⟨after, before, rfl⟩ := List.append_of_mem member
  have affects : Affects p e := by
    unfold Affects
    rcases label with label | label <;> rw [label] <;> exact .inl referenced
  obtain ⟨c, inside, begins⟩ := upToDate.followed after e (before ++ earlier)
    (by rw [List.append_assoc, List.cons_append]) affects
  refine idle c ?_ begins
  rw [List.append_cons]
  exact List.mem_append_left _ inside

/-- **The provider publishes nothing that is half read, and loses no update.** -/
theorem cluster_followed
    (run : Runs (Provider.step namespaceName) Contract .initial events p) :
    Followed namespaceName events p := by
  have sound := sound_of_run run
  refine ⟨sound.sent, ?_, ?_, ?_⟩
  · intro waiting complete
    exact (sound.waiting waiting (sound.follows.ready_iff.mpr complete)).followed
  · intro waiting complete
    have upToDate := sound.waiting waiting (sound.follows.ready_iff.mpr complete)
    obtain ⟨later, c, earlier, rfl, idle, starts⟩ := upToDate.latest
    refine ⟨later, c, earlier, rfl, idle, starts, fun resolver resolver' agree => ?_⟩
    refine compile_congr (agree.mono fun name referenced changed => ?_) namespaceName
    exact upToDate.unreferenced idle changed referenced
  · intro e member resolver listening upstreams relays error label compiling failed published
    obtain ⟨later, earlier, rfl⟩ := List.append_of_mem member
    obtain ⟨s₁, run₁⟩ := run.earlier
    obtain ⟨-, -, taken, -⟩ := run₁.last
    rw [label] at taken
    exact kept_of_step taken compiling failed published

/-! ## A run -/

instance : (events : List (WatchEvent Spec)) → Decidable (Listing events)
  | .init :: _ | .initApply _ :: _ => isTrue trivial
  | [] | .initDone :: _ | .apply _ :: _ | .delete _ :: _ => isFalse id

instance : (events : List (WatchEvent Spec)) → Decidable (Complete events)
  | .initDone :: _ | .apply _ :: _ | .delete _ :: _ => isTrue trivial
  | [] | .init :: _ | .initApply _ :: _ => isFalse id

instance (events : List (WatchEvent Spec)) : (event : WatchEvent Spec) →
    Decidable (Permitted events event)
  | .init => isTrue trivial
  | .initApply _ | .initDone => inferInstanceAs (Decidable (Listing events))
  | .apply _ | .delete _ => inferInstanceAs (Decidable (Complete events))

instance (events : List (Event (Provider B) (Happening B))) (p : Provider B) :
    (happening : Happening B) → Decidable (Contract events p happening)
  | .upstream (some (.ok event)) => inferInstanceAs (Decidable (Permitted _ event))
  | .relay (some (.ok event)) => inferInstanceAs (Decidable (Permitted _ event))
  | .secret (some (.ok event)) => inferInstanceAs (Decidable (Permitted _ event))
  | .upstream none | .upstream (some (.error _)) | .relay none | .relay (some (.error _))
  | .secret none | .secret (some (.error _)) | .refresh | .deadline | .closed
  | .compiled .. => isTrue trivial

/-- An upstream whose client has a Kubernetes secret. -/
def referringUpstream : UpstreamObject :=
  ⟨some "login", none, some "team", none, "issuer.example", ⟨none, none, none⟩,
    ⟨"id", .valueFrom (.secretKeyRef "credentials" "password"), .clientSecretPost⟩⟩

/-- A secret changes that nothing refers to, and then an upstream that refers to it is applied.
The provider compiles again, and when that takes too long keeps what it has published. -/
theorem cluster_followed_reference : ∃ events p, p.phase = .waiting ∧ p.sent = [.empty] ∧
    p.upstreams.objects.values = [referringUpstream] ∧ AllComplete events ∧
    Followed (B := Config.plainReaders) "team" events p := by
  let happenings : List (Happening Config.plainReaders) :=
    [.upstream (some (.ok .init)), .secret (some (.ok .init)), .upstream (some (.ok .initDone)),
      .relay (some (.ok .init)), .relay (some (.error ())), .relay (some (.ok .initDone)),
      .secret (some (.ok .initDone)), .compiled (some Config.countingResolver) true,
      .secret (some (.ok (.apply ⟨some "credentials", none, some "team", none, ()⟩))),
      .upstream (some (.ok (.apply referringUpstream))), .compiled none true]
  have run : Runs (Provider.step "team") Contract .initial _ _ :=
    .of_replay (fun events p happening => decide (Contract events p happening)) happenings
      (fun _ _ _ => of_decide_eq_true) .nil rfl
  refine ⟨_, _, ?_, ?_, ?_, ?_, cluster_followed run⟩
  · rfl
  · rfl
  · rfl
  · exact ⟨trivial, trivial, trivial⟩

end OAuthRelay.Cluster
