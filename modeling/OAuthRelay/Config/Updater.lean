import Mathlib.Logic.Function.Basic
import OAuthRelay.Async.Steps
import OAuthRelay.Config.Merge
import OAuthRelay.Config.Registry

/-!
# Serving what the providers publish

Every provider publishes its snapshots in a watch channel of its own, and may stop at any time.
At startup the service waits for the first snapshot of each, and then reads the channels one
after the other and puts the merge into the registry. From then on an updater makes passes. It
asks each channel whether there is something it has not seen, marks what it has seen, and if
there was something it reads all the channels again.

A channel whose sender is gone does not say whether there is something unseen, and the updater
takes this for no. A provider that publishes and stops before the updater asks is not heard
(`not_registry_exact`). With passes that do not lose a snapshot in this way the registry is
exact (`registry_exact`).
-/

set_option autoImplicit false

namespace OAuthRelay.Config

open OAuthRelay.Codes (ResourceKey)

variable {R : Rules}

/-! ## Watch channels -/

/-- A watch channel and its receiver. -/
structure Channel (R : Rules) where
  /-- The snapshots that were sent, in this order. -/
  published : List (ProviderSnapshot R)
  /-- How many of them there were when the receiver marked the last one as seen. -/
  seen : ℕ
  /-- The sender is dropped. -/
  closed : Bool

namespace Channel

/-- `watch::channel(ProviderSnapshot::default())`. -/
def new : Channel R := ⟨[], 0, false⟩

def version (channel : Channel R) : ℕ := channel.published.length

/-- What the channel held when it had this version. -/
def valueAt (channel : Channel R) (version : ℕ) : ProviderSnapshot R :=
  (channel.published.take version).getLastD .empty

def borrow (channel : Channel R) : ProviderSnapshot R := channel.published.getLastD .empty

def borrowAndUpdate (channel : Channel R) : Channel R :=
  { channel with seen := channel.version }

/-- Fails when the sender is dropped, whatever there is to see. -/
def hasChanged (channel : Channel R) : Except Unit Bool :=
  if channel.closed then .error () else .ok (channel.seen ≠ channel.version)

/-- `changed().await`, and `none` while it waits. It fails when the sender is dropped and there
is nothing left to see. -/
def changed (channel : Channel R) : Option (Except Unit (Channel R)) :=
  if channel.seen ≠ channel.version then some (.ok channel.borrowAndUpdate)
  else if channel.closed then some (.error ())
  else none

/-- `Sender::send`. -/
def send (channel : Channel R) (snapshot : ProviderSnapshot R) : Channel R :=
  { channel with published := channel.published ++ [snapshot] }

end Channel

/-! ## The service -/

/-- Where the service is. A channel that is read is noted with its version. -/
inductive Service (R : Rules) where
  /-- `await_initial_snapshots`, at the provider `i`. -/
  | awaiting (i : ℕ)
  /-- A provider stopped before its first snapshot. -/
  | failed
  /-- `replace_registry`, at startup or in a pass, with what was read so far. -/
  | reading (startup : Bool) (read : List (ℕ × ProviderSnapshot R))
  /-- Before a pass. -/
  | sleeping
  /-- A pass is at the provider `i`. -/
  | checking (i : ℕ) (changed : Bool)
  /-- `has_changed` has said yes for the provider `i`. -/
  | marking (i : ℕ)

/-- The registry has been replaced at startup. -/
def Service.started : Service R → Bool
  | awaiting _ | failed => false
  | reading startup _ => !startup
  | sleeping | checking .. | marking _ => true

/-- The channels of the providers in configured order, the service and the registry. -/
structure Served (R : Rules) where
  channels : ℕ → Channel R
  service : Service R
  resources : ProviderSnapshot R
  /-- The version of each channel that the registry was merged from. -/
  shown : ℕ → ℕ

inductive Action (R : Rules) where
  | publish (i : ℕ) (snapshot : ProviderSnapshot R)
  | stop (i : ℕ)
  | advance

namespace Served

def initial : Served R := ⟨fun _ => .new, .awaiting 0, .empty, fun _ => 0⟩

/-- The snapshots that the registry was merged from. -/
def snapshots (count : ℕ) (s : Served R) : List (ProviderSnapshot R) :=
  (List.range count).map fun i => (s.channels i).valueAt (s.shown i)

/-- The version of the channel `i` when it was read. -/
def versions (read : List (ℕ × ProviderSnapshot R)) (i : ℕ) : ℕ :=
  (read[i]?.map Prod.fst).getD 0

/-- The next step of the service; `none` while it waits and when it has failed. -/
def advance (count : ℕ) (s : Served R) : Option (Served R) :=
  match s.service with
  | .awaiting i =>
      if i < count then
        match (s.channels i).changed with
        | none => none
        | some (.error _) => some { s with service := .failed }
        | some (.ok channel) =>
            some { s with
              channels := Function.update s.channels i channel
              service := .awaiting (i + 1) }
      else some { s with service := .reading true [] }
  | .failed => none
  | .reading startup read =>
      if read.length < count then
        let channel := s.channels read.length
        some { s with service := .reading startup (read ++ [(channel.version, channel.borrow)]) }
      else
        some { s with
          service := .sleeping
          resources := mergeOrdered (read.map Prod.snd)
          shown := versions read }
  | .sleeping => some { s with service := .checking 0 false }
  | .checking i changed =>
      if i < count then
        match (s.channels i).hasChanged with
        | .ok true => some { s with service := .marking i }
        | .ok false | .error _ => some { s with service := .checking (i + 1) changed }
      else if changed then some { s with service := .reading false [] }
      else some { s with service := .sleeping }
  | .marking i =>
      some { s with
        channels := Function.update s.channels i (s.channels i).borrowAndUpdate
        service := .checking (i + 1) true }

/-- One step of a provider or of the service. A provider that has stopped publishes nothing. -/
def step (count : ℕ) (s : Served R) : Action R → Option (Served R)
  | .publish i snapshot =>
      if (s.channels i).closed then none
      else some { s with channels := Function.update s.channels i ((s.channels i).send snapshot) }
  | .stop i =>
      some { s with
        channels := Function.update s.channels i { s.channels i with closed := true } }
  | .advance => s.advance count

end Served

open Async.Steps (Event)

/-- Runs of `count` providers and the service. -/
abbrev Serves (count : ℕ)
    (ok : List (Event (Served R) (Action R)) → Served R → Action R → Prop) :
    List (Event (Served R) (Action R)) → Served R → Prop :=
  Async.Steps.Runs (Served.step count) ok .initial

/-- A pass begins with the step. -/
def Begins (e : Event (Served R) (Action R)) : Prop :=
  e.before.service = .sleeping ∧ e.label = .advance

/-- The registry is, between two passes or in one, what the providers have published. -/
structure RegistryExact (count : ℕ) (events : List (Event (Served R) (Action R)))
    (s : Served R) : Prop where
  /-- Each provider has one snapshot in the registry that it has published. -/
  published : s.service.started = true → ∀ i < count,
    0 < s.shown i ∧ s.shown i ≤ (s.channels i).version
  /-- Each key has the upstream of the first provider that defines it. -/
  upstreams : s.service.started = true → ∀ key, s.resources.upstreams.lookup key =
    (s.snapshots count).findSome? fun snapshot => snapshot.upstreams.lookup key
  /-- Each key has the relay of the first provider that defines it. -/
  relays : s.service.started = true → ∀ key, s.resources.relays.lookup key =
    (s.snapshots count).findSome? fun snapshot => snapshot.relays.lookup key
  valid : s.resources.validate = .ok ()
  /-- The snapshots of a provider appear in the order in which they were published. -/
  ordered : ∀ e ∈ events, ∀ i < count, e.before.shown i ≤ s.shown i
  /-- Once a pass has ended, the registry shows what a provider had published when the pass
  began, or something later. -/
  reflected : ∀ later fin earlier, events = later ++ fin :: earlier →
    fin.after.service = .sleeping → ∀ beg ∈ earlier, Begins beg → ∀ i < count,
    (beg.before.channels i).version ≤ s.shown i

/-- A published snapshot is valid. -/
def Action.Valid : Action R → Prop
  | publish _ snapshot => snapshot.validate = .ok ()
  | _ => True

/-- When a pass ends without a change, what a provider that has stopped had published when
the pass began has been seen. -/
def Action.Attends (count : ℕ) (events : List (Event (Served R) (Action R))) (s : Served R) :
    Action R → Prop
  | advance => s.service = .checking count false → ∀ beg ∈ events, Begins beg → ∀ i < count,
      (s.channels i).closed = true → (beg.before.channels i).version ≤ (s.channels i).seen
  | _ => True

/-! ## What a step does -/

/-- What the next step of the service can be. -/
inductive Advances (count : ℕ) (s : Served R) : Served R → Prop
  | hears {i : ℕ} (stands : s.service = .awaiting i) (inside : i < count)
      (unseen : (s.channels i).seen ≠ (s.channels i).version) :
      Advances count s { s with
        channels := Function.update s.channels i (s.channels i).borrowAndUpdate
        service := .awaiting (i + 1) }
  | fails {i : ℕ} (stands : s.service = .awaiting i) : Advances count s { s with service := .failed }
  | heard {i : ℕ} (stands : s.service = .awaiting i) (all : count ≤ i) :
      Advances count s { s with service := .reading true [] }
  | reads {startup : Bool} {read : List (ℕ × ProviderSnapshot R)}
      (stands : s.service = .reading startup read) (inside : read.length < count) :
      Advances count s { s with
        service := .reading startup (read ++
          [((s.channels read.length).version, (s.channels read.length).borrow)]) }
  | replaces {startup : Bool} {read : List (ℕ × ProviderSnapshot R)}
      (stands : s.service = .reading startup read) (all : count ≤ read.length) :
      Advances count s { s with
        service := .sleeping
        resources := mergeOrdered (read.map Prod.snd)
        shown := Served.versions read }
  | begins (stands : s.service = .sleeping) :
      Advances count s { s with service := .checking 0 false }
  | finds {i : ℕ} {changed : Bool} (stands : s.service = .checking i changed)
      (inside : i < count) : Advances count s { s with service := .marking i }
  | skips {i : ℕ} {changed : Bool} (stands : s.service = .checking i changed)
      (inside : i < count)
      (quiet : (s.channels i).closed = false → (s.channels i).seen = (s.channels i).version) :
      Advances count s { s with service := .checking (i + 1) changed }
  | turns {i : ℕ} (stands : s.service = .checking i true) (all : count ≤ i) :
      Advances count s { s with service := .reading false [] }
  | rests {i : ℕ} (stands : s.service = .checking i false) (all : count ≤ i) :
      Advances count s { s with service := .sleeping }
  | marks {i : ℕ} (stands : s.service = .marking i) :
      Advances count s { s with
        channels := Function.update s.channels i (s.channels i).borrowAndUpdate
        service := .checking (i + 1) true }

theorem advances_of_advance {count : ℕ} {s s' : Served R} (taken : s.advance count = some s') :
    Advances count s s' := by
  unfold Served.advance at taken
  split at taken
  · rename_i i stands
    split at taken
    · rename_i inside
      unfold Channel.changed at taken
      by_cases unseen : (s.channels i).seen ≠ (s.channels i).version
      · rw [if_pos unseen] at taken
        cases taken
        exact .hears stands inside unseen
      · rw [if_neg unseen] at taken
        by_cases closed : (s.channels i).closed = true
        · rw [if_pos closed] at taken
          cases taken
          exact .fails stands
        · rw [if_neg closed] at taken
          cases taken
    · rename_i all
      cases taken
      exact .heard stands (Nat.not_lt.mp all)
  · cases taken
  · rename_i startup read stands
    split at taken
    · rename_i inside
      cases taken
      exact .reads stands inside
    · rename_i all
      cases taken
      exact .replaces stands (Nat.not_lt.mp all)
  · rename_i stands
    cases taken
    exact .begins stands
  · rename_i i changed stands
    split at taken
    · rename_i inside
      unfold Channel.hasChanged at taken
      by_cases closed : (s.channels i).closed = true
      · rw [if_pos closed] at taken
        cases taken
        exact .skips stands inside fun isOpen => absurd closed (by rw [isOpen]; decide)
      · rw [if_neg closed] at taken
        by_cases same : (s.channels i).seen = (s.channels i).version
        · simp only [same, ne_eq, not_true_eq_false, decide_false] at taken
          cases taken
          exact .skips stands inside fun _ => same
        · simp only [ne_eq, same, not_false_eq_true, decide_true] at taken
          cases taken
          exact .finds stands inside
    · rename_i all
      cases changed with
      | false =>
          cases taken
          exact .rests stands (Nat.not_lt.mp all)
      | true =>
          cases taken
          exact .turns stands (Nat.not_lt.mp all)
  · rename_i i stands
    cases taken
    exact .marks stands

/-! ## What channels keep -/

/-- A channel after some steps has what it had. -/
structure Channel.Extends (channel channel' : Channel R) : Prop where
  version : channel.version ≤ channel'.version
  valueAt : ∀ v ≤ channel.version, channel'.valueAt v = channel.valueAt v

namespace Channel

theorem extends_of_published {channel channel' : Channel R}
    (same : channel'.published = channel.published) : channel.Extends channel' where
  version := by simp only [version, same, Nat.le_refl]
  valueAt v _ := by simp only [valueAt, same]

theorem extends_send (channel : Channel R) (snapshot : ProviderSnapshot R) :
    channel.Extends (channel.send snapshot) where
  version := by simp [version, send]
  valueAt v old := by
    simp only [valueAt, send]
    rw [List.take_append_of_le_length old]

theorem borrow_eq_valueAt (channel : Channel R) :
    channel.borrow = channel.valueAt channel.version := by
  simp only [borrow, valueAt, version, List.take_length]

/-- A version of the channel from the first one on is a snapshot that was published. -/
theorem valueAt_mem {channel : Channel R} {v : ℕ} (positive : 0 < v)
    (old : v ≤ channel.version) : channel.valueAt v ∈ channel.published := by
  have nonempty : channel.published.take v ≠ [] := by
    intro empty
    have := List.length_take_of_le old
    rw [empty, List.length_nil] at this
    omega
  unfold valueAt
  rw [List.getLastD_eq_getLast?, List.getLast?_eq_some_getLast nonempty, Option.getD_some]
  exact List.mem_of_mem_take (List.getLast_mem nonempty)

end Channel

variable {count : ℕ} {events : List (Event (Served R) (Action R))} {s s' : Served R}

theorem extends_update {channels : ℕ → Channel R} {i : ℕ} {channel : Channel R}
    (extended : (channels i).Extends channel) (j : ℕ) :
    (channels j).Extends (Function.update channels i channel j) := by
  by_cases same : j = i
  · subst same
    rwa [Function.update_self]
  · rw [Function.update_of_ne same]
    exact Channel.extends_of_published rfl

/-! ## What the service keeps -/

/-- Whatever the channel had when a pass began is not later than this version. -/
def Covers (events : List (Event (Served R) (Action R))) (i v : ℕ) : Prop :=
  ∀ beg ∈ events, Begins beg → (beg.before.channels i).version ≤ v

/-- A snapshot that was read for the registry, with its version. -/
structure WasRead (events : List (Event (Served R) (Action R))) (s : Served R) (i v : ℕ)
    (snapshot : ProviderSnapshot R) : Prop where
  positive : 0 < v
  old : v ≤ (s.channels i).version
  value : snapshot = (s.channels i).valueAt v
  shown : s.shown i ≤ v
  seen : (s.channels i).seen ≤ v
  covers : Covers events i v

/-- What is so at each point of the service. Between passes the registry shows everything that
was seen. A pass that has found nothing so far has only missed channels that are closed. -/
def Service.Fits (count : ℕ) (events : List (Event (Served R) (Action R))) (s : Served R) :
    Service R → Prop
  | awaiting k => ∀ i < k, 0 < (s.channels i).version
  | failed => True
  | reading _ read => read.length ≤ count ∧ (∀ i < count, 0 < (s.channels i).version) ∧
      ∀ i v snapshot, read[i]? = some (v, snapshot) → WasRead events s i v snapshot
  | sleeping => ∀ i < count,
      (s.channels i).seen ≤ s.shown i ∧ Covers events i (s.shown i)
  | checking k changed => k ≤ count ∧ (changed = false → ∀ i < count,
      (s.channels i).seen ≤ s.shown i ∧
      (i < k → (s.channels i).closed = false → Covers events i (s.channels i).seen))
  | marking k => k < count

/-- What the providers, the service and the registry have to do with each other. -/
structure Tracks (count : ℕ) (events : List (Event (Served R) (Action R))) (s : Served R) :
    Prop where
  valid : ∀ i, ∀ snapshot ∈ (s.channels i).published, snapshot.validate = .ok ()
  seen_le : ∀ i, (s.channels i).seen ≤ (s.channels i).version
  shown_le : ∀ i, s.shown i ≤ (s.channels i).version
  covered : ∀ i, Covers events i (s.channels i).version
  positive : s.service.started = true → ∀ i < count, 0 < s.shown i
  merged : s.service.started = true → s.resources = mergeOrdered (s.snapshots count)
  resources : s.resources.validate = .ok ()
  fits : s.service.Fits count events s

theorem Covers.mono {i v v' : ℕ} (covers : Covers events i v) (later : v ≤ v') :
    Covers events i v' :=
  fun beg member begins => Nat.le_trans (covers beg member begins) later

theorem Covers.cons {i v : ℕ} {e : Event (Served R) (Action R)} (covers : Covers events i v)
    (begun : Begins e → (e.before.channels i).version ≤ v) : Covers (e :: events) i v := by
  intro beg member begins
  rcases List.mem_cons.mp member with rfl | older
  · exact begun begins
  · exact covers beg older begins

theorem tracks_initial : Tracks count [] (.initial : Served R) where
  valid _ _ member := by cases member
  seen_le _ := Nat.le_refl _
  shown_le _ := Nat.le_refl _
  covered _ _ member := by cases member
  positive started := by cases started
  merged started := by cases started
  resources := by rfl
  fits _ early := absurd early (Nat.not_lt_zero _)

/-- The registry stays the merge it is when only channels change. -/
theorem snapshots_eq (tracks : Tracks count events s)
    (extended : ∀ i, (s.channels i).Extends (s'.channels i)) (same : s'.shown = s.shown) :
    s'.snapshots count = s.snapshots count := by
  unfold Served.snapshots
  rw [same]
  exact List.map_congr_left fun i _ => (extended i).valueAt _ (tracks.shown_le i)

/-! ### Providers -/

/-- Channels after a step of a provider. -/
structure Channel.Keeps (channel channel' : Channel R) : Prop extends channel.Extends channel' where
  seen : channel'.seen = channel.seen
  isOpen : channel'.closed = false → channel.closed = false

theorem WasRead.environment {channels : ℕ → Channel R} {e : Event (Served R) (Action R)}
    (kept : ∀ i, (s.channels i).Keeps (channels i)) (quiet : ¬ Begins e) {i v : ℕ}
    {snapshot : ProviderSnapshot R} (reads : WasRead events s i v snapshot) :
    WasRead (e :: events) { s with channels := channels } i v snapshot where
  positive := reads.positive
  old := Nat.le_trans reads.old (kept i).version
  value := reads.value.trans ((kept i).valueAt v reads.old).symm
  shown := reads.shown
  seen := (kept i).seen ▸ reads.seen
  covers := reads.covers.cons fun begins => absurd begins quiet

/-- Providers do not disturb the service. -/
theorem fits_environment {channels : ℕ → Channel R} {e : Event (Served R) (Action R)}
    (kept : ∀ i, (s.channels i).Keeps (channels i)) (quiet : ¬ Begins e) {service : Service R}
    (fits : service.Fits count events s) :
    service.Fits count (e :: events) { s with channels := channels } := by
  cases service with
  | awaiting k => exact fun i early => Nat.lt_of_lt_of_le (fits i early) (kept i).version
  | failed => trivial
  | reading startup read =>
      obtain ⟨short, positive, reads⟩ := fits
      refine ⟨short, fun i inside => Nat.lt_of_lt_of_le (positive i inside) (kept i).version, ?_⟩
      intro i v snapshot there
      exact (reads i v snapshot there).environment kept quiet
  | sleeping =>
      intro i inside
      obtain ⟨seen, covers⟩ := fits i inside
      exact ⟨(kept i).seen ▸ seen, covers.cons fun begins => absurd begins quiet⟩
  | checking k changed =>
      refine ⟨fits.1, fun unchanged i inside => ?_⟩
      obtain ⟨seen, covers⟩ := fits.2 unchanged i inside
      refine ⟨(kept i).seen ▸ seen, fun early isOpen => ?_⟩
      rw [(kept i).seen]
      exact (covers early ((kept i).isOpen isOpen)).cons fun begins => absurd begins quiet
  | marking k => exact fits

theorem tracks_environment {channels : ℕ → Channel R} {e : Event (Served R) (Action R)}
    (tracks : Tracks count events s) (kept : ∀ i, (s.channels i).Keeps (channels i))
    (quiet : ¬ Begins e)
    (valid : ∀ i, ∀ snapshot ∈ (channels i).published, snapshot.validate = .ok ()) :
    Tracks count (e :: events) { s with channels := channels } where
  valid := valid
  seen_le i := by
    rw [(kept i).seen]
    exact Nat.le_trans (tracks.seen_le i) (kept i).version
  shown_le i := Nat.le_trans (tracks.shown_le i) (kept i).version
  covered i := ((tracks.covered i).mono (kept i).version).cons fun begins => absurd begins quiet
  positive := tracks.positive
  merged started := by
    refine (tracks.merged started).trans (congrArg mergeOrdered (Eq.symm ?_))
    exact snapshots_eq tracks (fun i => (kept i).toExtends) rfl
  resources := tracks.resources
  fits := fits_environment kept quiet tracks.fits

/-! ### The service -/

theorem version_eq_of_published {channel channel' : Channel R}
    (same : channel'.published = channel.published) : channel'.version = channel.version := by
  unfold Channel.version
  rw [same]

/-- A step of the service that leaves the registry alone. -/
theorem tracks_service {channels : ℕ → Channel R} {service : Service R}
    {e : Event (Served R) (Action R)} (tracks : Tracks count events s) (before : e.before = s)
    (same : ∀ i, (channels i).published = (s.channels i).published)
    (seen : ∀ i, (channels i).seen ≤ (channels i).version)
    (started : service.started = true → s.service.started = true)
    (fits : service.Fits count (e :: events)
      { s with channels := channels, service := service }) :
    Tracks count (e :: events) { s with channels := channels, service := service } where
  valid i snapshot member := tracks.valid i snapshot (same i ▸ member)
  seen_le := seen
  shown_le i := by
    rw [version_eq_of_published (same i)]
    exact tracks.shown_le i
  covered i := by
    rw [version_eq_of_published (same i)]
    refine (tracks.covered i).cons fun _ => ?_
    rw [before]
  positive now := tracks.positive (started now)
  merged now := by
    refine (tracks.merged (started now)).trans (congrArg mergeOrdered (Eq.symm ?_))
    exact snapshots_eq tracks (fun i => Channel.extends_of_published (same i)) rfl
  resources := tracks.resources
  fits := fits

theorem versions_eq {read : List (ℕ × ProviderSnapshot R)} {i v : ℕ}
    {snapshot : ProviderSnapshot R} (there : read[i]? = some (v, snapshot)) :
    Served.versions read i = v := by
  unfold Served.versions
  rw [there]
  rfl

/-- What was read of all providers are the snapshots that the registry is then merged from. -/
theorem map_snd_eq {read : List (ℕ × ProviderSnapshot R)} (length : read.length = count)
    (reads : ∀ i v snapshot, read[i]? = some (v, snapshot) → WasRead events s i v snapshot) :
    read.map Prod.snd =
      (List.range count).map fun i => (s.channels i).valueAt (Served.versions read i) := by
  refine List.ext_getElem (by rw [List.length_map, List.length_map, List.length_range, length]) ?_
  intro i inside _
  rw [List.length_map] at inside
  have there : read[i]? = some (read[i].1, read[i].2) := List.getElem?_eq_getElem inside
  rw [List.getElem_map, List.getElem_map, List.getElem_range, versions_eq there]
  exact (reads i _ _ there).value

/-- The registry is replaced. -/
theorem tracks_replaces {startup : Bool} {read : List (ℕ × ProviderSnapshot R)}
    {e : Event (Served R) (Action R)} (tracks : Tracks count events s) (before : e.before = s)
    (stands : s.service = .reading startup read) (all : count ≤ read.length) :
    Tracks count (e :: events) { s with
      service := .sleeping
      resources := mergeOrdered (read.map Prod.snd)
      shown := Served.versions read } := by
  have fits := tracks.fits
  rw [stands] at fits
  obtain ⟨short, -, reads⟩ := fits
  have quiet : ¬ Begins e := by
    rintro ⟨asleep, -⟩
    rw [before, stands] at asleep
    cases asleep
  -- Every provider was read, and the registry now shows the version that it had then.
  have replaced : ∀ i < count, ∃ snapshot, WasRead events s i (Served.versions read i) snapshot := by
    intro i inside
    have there : read[i]? = some (read[i].1, read[i].2) := List.getElem?_eq_getElem _
    exact ⟨_, (versions_eq there).symm ▸ reads i _ _ there⟩
  refine ⟨tracks.valid, tracks.seen_le, ?_, ?_, ?_, ?_, ?_, ?_⟩
  · intro i
    change Served.versions read i ≤ _
    cases there : read[i]? with
    | none =>
        unfold Served.versions
        rw [there]
        exact Nat.zero_le _
    | some pair =>
        rw [versions_eq there]
        exact (reads i _ _ there).old
  · intro i
    refine (tracks.covered i).cons fun _ => ?_
    rw [before]
  · intro _ i inside
    obtain ⟨snapshot, read⟩ := replaced i inside
    exact read.positive
  · intro _
    change mergeOrdered _ = mergeOrdered _
    rw [map_snd_eq (Nat.le_antisymm short all) reads]
    rfl
  · refine validate_mergeOrdered fun snapshot member => ?_
    obtain ⟨⟨v, snapshot⟩, inRead, rfl⟩ := List.mem_map.mp member
    obtain ⟨i, there⟩ := List.mem_iff_getElem?.mp inRead
    obtain ⟨positive, old, value, -, -, -⟩ := reads i v snapshot there
    exact tracks.valid i _ (value ▸ Channel.valueAt_mem positive old)
  · intro i inside
    obtain ⟨snapshot, read⟩ := replaced i inside
    exact ⟨read.seen, read.covers.cons fun begins => absurd begins quiet⟩

/-- What has been published is there when a channel is read. -/
theorem reads_borrow {startup : Bool} {read : List (ℕ × ProviderSnapshot R)}
    (service : Service R) {e : Event (Served R) (Action R)} (tracks : Tracks count events s)
    (quiet : ¬ Begins e) (stands : s.service = .reading startup read)
    (inside : read.length < count) :
    WasRead (e :: events) { s with service := service } read.length
      (s.channels read.length).version (s.channels read.length).borrow where
  positive := by
    have fits := tracks.fits
    rw [stands] at fits
    exact fits.2.1 _ inside
  old := Nat.le_refl _
  value := Channel.borrow_eq_valueAt _
  shown := tracks.shown_le _
  seen := tracks.seen_le _
  covers := (tracks.covered _).cons fun begins => absurd begins quiet

theorem WasRead.service {service : Service R} {e : Event (Served R) (Action R)} {i v : ℕ}
    {snapshot : ProviderSnapshot R} (reads : WasRead events s i v snapshot) (quiet : ¬ Begins e) :
    WasRead (e :: events) { s with service := service } i v snapshot :=
  ⟨reads.positive, reads.old, reads.value, reads.shown, reads.seen,
    reads.covers.cons fun begins => absurd begins quiet⟩

/-- A marked channel has published what it had, and everything in it has been seen. -/
theorem marked {channels : ℕ → Channel R} (i j : ℕ) :
    (Function.update channels i (channels i).borrowAndUpdate j).published =
        (channels j).published ∧
      ((channels j).seen ≤ (channels j).version →
        (Function.update channels i (channels i).borrowAndUpdate j).seen ≤
          (Function.update channels i (channels i).borrowAndUpdate j).version) := by
  by_cases same : j = i
  · subst same
    rw [Function.update_self]
    exact ⟨rfl, fun _ => Nat.le_refl _⟩
  · rw [Function.update_of_ne same]
    exact ⟨rfl, id⟩

/-- A pass that ends without a change has left nothing out. -/
theorem fits_rests {i : ℕ} {e : Event (Served R) (Action R)} (tracks : Tracks count events s)
    (quiet : ¬ Begins e) (stands : s.service = .checking i false) (all : count ≤ i)
    (attends : Action.advance.Attends count events s) :
    Service.sleeping.Fits count (e :: events) { s with service := .sleeping } := by
  have fits := tracks.fits
  rw [stands] at fits
  obtain ⟨short, unchanged⟩ := fits
  obtain rfl := Nat.le_antisymm short all
  intro j inside
  obtain ⟨seen, covers⟩ := unchanged rfl j inside
  refine ⟨seen, Covers.cons ?_ fun begins => absurd begins quiet⟩
  cases closed : (s.channels j).closed with
  | false => exact (covers inside closed).mono seen
  | true =>
      intro beg member begins
      exact Nat.le_trans (attends stands beg member begins j inside closed) seen

/-- **Every step of the service keeps track.** -/
theorem tracks_advances (tracks : Tracks count events s)
    (attends : Action.advance.Attends count events s) (advances : Advances count s s') :
    Tracks count (⟨s, .advance, s'⟩ :: events) s' := by
  have fits := tracks.fits
  have quiet : s.service ≠ .sleeping → ¬ Begins (⟨s, .advance, s'⟩ : Event _ (Action R)) :=
    fun awake begins => awake begins.1
  cases advances with
  | @hears i stands inside unseen =>
      rw [stands] at fits
      refine tracks_service tracks rfl (fun j => (marked i j).1)
        (fun j => (marked i j).2 (tracks.seen_le j)) (fun now => nomatch now) ?_
      intro j early
      change 0 < (Function.update s.channels i (s.channels i).borrowAndUpdate j).version
      rw [version_eq_of_published (marked i j).1]
      have old := tracks.seen_le i
      rcases Nat.lt_succ_iff_lt_or_eq.mp early with before | rfl
      · exact fits j before
      · omega
  | fails stands =>
      exact tracks_service tracks rfl (fun _ => rfl) tracks.seen_le (fun now => nomatch now) trivial
  | @heard i stands all =>
      rw [stands] at fits
      refine tracks_service tracks rfl (fun _ => rfl) tracks.seen_le (fun now => nomatch now) ?_
      exact ⟨Nat.zero_le _, fun j inside => fits j (Nat.lt_of_lt_of_le inside all),
        fun _ _ _ there => nomatch there⟩
  | @reads startup read stands inside =>
      have awake := quiet (by rw [stands]; exact nofun)
      refine tracks_service tracks rfl (fun _ => rfl) tracks.seen_le
        (fun now => by rw [stands]; exact now) ?_
      have last := reads_borrow (.reading startup (read ++ [((s.channels read.length).version,
        (s.channels read.length).borrow)])) tracks awake stands inside
      rw [stands] at fits
      obtain ⟨-, positive, reads⟩ := fits
      refine ⟨by rw [List.length_append]; exact inside, positive, ?_⟩
      intro i v snapshot there
      rw [List.getElem?_append] at there
      split at there
      · exact (reads i v snapshot there).service awake
      · rename_i late
        obtain ⟨rfl, rfl⟩ := Prod.mk.inj (List.mem_singleton.mp (List.mem_of_getElem? there))
        have := (List.getElem?_eq_some_iff.mp there).1
        obtain rfl : i = read.length := by
          rw [List.length_singleton] at this
          omega
        exact last
  | replaces stands all => exact tracks_replaces tracks rfl stands all
  | begins stands =>
      rw [stands] at fits
      refine tracks_service tracks rfl (fun _ => rfl) tracks.seen_le
        (fun _ => by rw [stands]; rfl) ⟨Nat.zero_le _, fun _ i inside => ⟨(fits i inside).1, ?_⟩⟩
      exact fun early => absurd early (Nat.not_lt_zero _)
  | finds stands inside =>
      exact tracks_service tracks rfl (fun _ => rfl) tracks.seen_le
        (fun _ => by rw [stands]; rfl) inside
  | @skips i changed stands inside skipped =>
      have awake := quiet (by rw [stands]; exact nofun)
      rw [stands] at fits
      obtain ⟨-, unchanged⟩ := fits
      refine tracks_service tracks rfl (fun _ => rfl) tracks.seen_le
        (fun _ => by rw [stands]; rfl) ⟨inside, fun same j inside' => ?_⟩
      obtain ⟨seen, covers⟩ := unchanged same j inside'
      refine ⟨seen, fun early isOpen => Covers.cons ?_ fun begins => absurd begins awake⟩
      rcases Nat.lt_succ_iff_lt_or_eq.mp early with before | rfl
      · exact covers before isOpen
      · change Covers events j (s.channels j).seen
        rw [skipped isOpen]
        exact tracks.covered j
  | turns stands all =>
      have started : s.service.started = true := by rw [stands]; rfl
      refine tracks_service tracks rfl (fun _ => rfl) tracks.seen_le (fun _ => started)
        ⟨Nat.zero_le _, fun i inside => ?_, fun _ _ _ there => nomatch there⟩
      exact Nat.lt_of_lt_of_le (tracks.positive started i inside) (tracks.shown_le i)
  | rests stands all =>
      have awake := quiet (by rw [stands]; exact nofun)
      exact tracks_service tracks rfl (fun _ => rfl) tracks.seen_le
        (fun _ => by rw [stands]; rfl) (fits_rests tracks awake stands all attends)
  | @marks i stands =>
      rw [stands] at fits
      exact tracks_service tracks rfl (fun j => (marked i j).1)
        (fun j => (marked i j).2 (tracks.seen_le j)) (fun _ => by rw [stands]; rfl)
        ⟨fits, fun same => nomatch same⟩

/-! ## The registry is exact -/

/-- Only valid snapshots are published, and no pass loses what a provider published before it
stopped. -/
abbrev Heeds (count : ℕ) (events : List (Event (Served R) (Action R))) (s : Served R)
    (action : Action R) : Prop :=
  action.Valid ∧ action.Attends count events s

theorem published_send {channel : Channel R} {sent snapshot : ProviderSnapshot R}
    (member : snapshot ∈ (channel.send sent).published) :
    snapshot ∈ channel.published ∨ snapshot = sent := by
  rw [← List.mem_singleton]
  exact List.mem_append.mp member

theorem tracks_step {action : Action R} (tracks : Tracks count events s)
    (heeds : Heeds count events s action) (taken : Served.step count s action = some s') :
    Tracks count (⟨s, action, s'⟩ :: events) s' := by
  cases action with
  | publish i sent =>
      simp only [Served.step] at taken
      split at taken
      · cases taken
      · rename_i isOpen
        cases taken
        refine tracks_environment tracks (fun j => ?_) (fun begins => nomatch begins.2)
          (fun j snapshot member => ?_)
        · refine ⟨extends_update (Channel.extends_send _ _) j, ?_, ?_⟩
          · by_cases same : j = i
            · rw [same, Function.update_self]
              rfl
            · rw [Function.update_of_ne same]
          · by_cases same : j = i
            · rw [same, Function.update_self]
              exact id
            · rw [Function.update_of_ne same]
              exact id
        · by_cases same : j = i
          · subst same
            rw [Function.update_self] at member
            rcases published_send member with old | rfl
            · exact tracks.valid j snapshot old
            · exact heeds.1
          · rw [Function.update_of_ne same] at member
            exact tracks.valid j snapshot member
  | stop i =>
      cases taken
      refine tracks_environment tracks (fun j => ?_) (fun begins => nomatch begins.2)
        (fun j snapshot member => ?_)
      · by_cases same : j = i
        · subst same
          rw [Function.update_self]
          exact ⟨Channel.extends_of_published rfl, rfl, fun isOpen => nomatch isOpen⟩
        · rw [Function.update_of_ne same]
          exact ⟨Channel.extends_of_published rfl, rfl, id⟩
      · by_cases same : j = i
        · subst same
          rw [Function.update_self] at member
          exact tracks.valid j snapshot member
        · rw [Function.update_of_ne same] at member
          exact tracks.valid j snapshot member
  | advance => exact tracks_advances tracks heeds.2 (advances_of_advance taken)

theorem tracks_of_run (run : Serves count (Heeds count) events s) : Tracks count events s :=
  run.invariant tracks_initial fun _ _ _ _ _ heeds taken tracks => tracks_step tracks heeds taken

/-- The registry goes from no provider's snapshot to one that was published before. -/
theorem shown_le_of_step {action : Action R} (tracks : Tracks count events s)
    (taken : Served.step count s action = some s') : ∀ i < count, s.shown i ≤ s'.shown i := by
  intro i inside
  cases action with
  | publish =>
      simp only [Served.step] at taken
      split at taken
      · cases taken
      · cases taken
        exact Nat.le_refl _
  | stop =>
      cases taken
      exact Nat.le_refl _
  | advance =>
      cases advances_of_advance taken with
      | replaces stands all =>
          have fits := tracks.fits
          rw [stands] at fits
          obtain ⟨-, -, reads⟩ := fits
          have there := List.getElem?_eq_getElem (Nat.lt_of_lt_of_le inside all)
          change s.shown i ≤ Served.versions _ i
          rw [versions_eq there]
          exact (reads i _ _ there).shown
      | _ => exact Nat.le_refl _

/-- **When no pass loses what a provider published before it stopped, the registry is the merge
of what was published, valid, and misses nothing.** -/
theorem registry_exact (run : Serves count (Heeds count) events s) :
    RegistryExact count events s := by
  have tracks := tracks_of_run run
  have refl (s : Served R) : ∀ i < count, s.shown i ≤ s.shown i := fun _ _ => Nat.le_refl _
  have trans (s₁ s₂ s₃ : Served R) (first : ∀ i < count, s₁.shown i ≤ s₂.shown i)
      (second : ∀ i < count, s₂.shown i ≤ s₃.shown i) : ∀ i < count, s₁.shown i ≤ s₃.shown i :=
    fun i inside => Nat.le_trans (first i inside) (second i inside)
  refine ⟨?_, ?_, ?_, tracks.resources, ?_, ?_⟩
  · intro started i inside
    exact ⟨tracks.positive started i inside, tracks.shown_le i⟩
  · intro started key
    rw [tracks.merged started, lookup_upstreams_mergeOrdered]
  · intro started key
    rw [tracks.merged started, lookup_relays_mergeOrdered]
  · intro e member
    exact run.related_before (r := fun s s' => ∀ i < count, s.shown i ≤ s'.shown i) refl trans
      (fun _ _ _ _ run _ taken => shown_le_of_step (tracks_of_run run) taken) member
  · rintro later fin earlier rfl ended beg member begins i inside
    obtain ⟨s₁, run₁, grown⟩ := run.related (r := fun s s' => ∀ i < count, s.shown i ≤ s'.shown i)
      refl trans (fun _ _ _ _ run _ taken => shown_le_of_step (tracks_of_run run) taken)
    obtain ⟨-, -, -, rfl⟩ := run₁.last
    have fits := (tracks_of_run run₁).fits
    rw [ended] at fits
    exact Nat.le_trans ((fits i inside).2 beg (List.mem_cons_of_mem _ member) begins)
      (grown i inside)

/-! ## A provider that stops -/

instance (action : Action R) : Decidable action.Valid :=
  match action with
  | .publish _ snapshot => inferInstanceAs (Decidable (snapshot.validate = .ok ()))
  | .stop _ | .advance => isTrue trivial

/-- No pass ends without a change. -/
def busy (count : ℕ) (s : Served R) (action : Action R) : Bool :=
  match action, s.service with
  | .advance, .checking i false => i ≠ count
  | _, _ => true

theorem attends_of_busy {action : Action R} (works : busy count s action = true) :
    action.Attends count events s := by
  cases action with
  | advance =>
      intro stands
      simp [busy, stands] at works
  | _ => trivial

/-- A provider publishes a second snapshot and stops while a pass is looking at it. The pass
brings the snapshot into the registry. -/
theorem registry_exact_of_stop : ∃ events s, (s.channels 0).closed = true ∧ s.shown 0 = 2 ∧
    RegistryExact (R := sampleRules) 2 events s := by
  let first := sampleSnapshot oldKey ["openid"]
  let second := sampleSnapshot oldKey ["email"]
  let labels : List (Action sampleRules) :=
    [.publish 0 first, .publish 1 first, .advance, .advance, .advance, .advance, .advance,
      .advance, .publish 0 second, .advance, .advance, .stop 0, .advance, .advance, .advance,
      .advance, .advance, .advance]
  have run : Serves 2 (Heeds 2) _ _ :=
    .of_replay (fun _ s action => decide action.Valid && busy 2 s action) labels
      (fun events s action checked => by
        obtain ⟨valid, works⟩ := Bool.and_eq_true_iff.mp checked
        exact ⟨of_decide_eq_true valid, attends_of_busy works⟩)
      .nil rfl
  exact ⟨_, _, rfl, rfl, registry_exact run⟩

/-- **What a provider publishes before it stops may never be served.** It publishes a second
snapshot and stops, and a pass that begins after that ends without it. -/
theorem not_registry_exact :
    ¬ ∀ (R : Rules) (count : ℕ) (events : List (Event (Served R) (Action R))) (s : Served R),
      Serves count (fun _ _ action => action.Valid) events s → RegistryExact count events s := by
  intro all
  let first := sampleSnapshot oldKey ["openid"]
  let second := sampleSnapshot oldKey ["email"]
  let labels : List (Action sampleRules) :=
    [.publish 0 first, .advance, .advance, .advance, .advance, .publish 0 second, .stop 0,
      .advance, .advance, .advance]
  have run : Serves 1 (fun _ _ action => action.Valid) _ _ :=
    .of_replay (fun _ _ action => decide action.Valid) labels (fun _ _ _ => of_decide_eq_true)
      .nil rfl
  have reflected := (all _ _ _ _ run).reflected [] _ _ rfl rfl _
    (List.mem_cons_of_mem _ (List.mem_cons_self ..)) ⟨rfl, rfl⟩ 0 Nat.one_pos
  exact absurd reflected (by decide)

end OAuthRelay.Config
