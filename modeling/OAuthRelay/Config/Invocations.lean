import OAuthRelay.Async.Steps
import OAuthRelay.Config.Merge
import OAuthRelay.Config.Registry

/-!
# Refreshing between invocations

Lambda freezes the process between invocations, so no task watches the providers there. Every
invocation first takes the lock of the refresher and looks at the wall clock. If the last attempt
to refresh is younger than a time to live, the invocation goes on. Otherwise it notes a new attempt,
asks one provider after the other, keeps the last good snapshot of a provider that fails, and puts
the merge into the registry. Only then it lets go of the lock and goes on.

Wall time may be set back, and an invocation may be dropped while it waits. A refresh that is
dropped has been noted as an attempt, but the registry does not show what it has loaded. As long as
this has not happened to the last attempt, an invocation goes on with what each provider last had,
and each was asked since an attempt that is younger than the time to live (`sees_recent`). After
a dropped refresh invocations go on with what was there before (`passes_after_cut`).
-/

set_option autoImplicit false

namespace OAuthRelay.Config.Invocations

open Async.Steps (Event)

variable {R : Rules}

/-! ## The refresher -/

/-- Where an invocation is. -/
inductive Pc where
  /-- It waits for the lock. -/
  | queued
  /-- It has the lock and has found that the last attempt is too old. -/
  | stale
  /-- It refreshes and is at this provider. -/
  | loading (provider : ℕ)
  /-- It goes on to the router. -/
  | passed
  | dropped
  deriving DecidableEq

/-- The invocation has the lock. -/
def Pc.refreshing : Pc → Bool
  | stale | loading _ => true
  | queued | passed | dropped => false

/-- The wall clock, `LambdaRefreshState` under its lock, the invocations and the registry. -/
structure State (R : Rules) where
  now : ℤ
  lastAttempt : ℤ
  /-- The last good snapshot of each provider, in configured order. -/
  snapshots : List (ProviderSnapshot R)
  /-- The invocation that has the lock. -/
  holder : Option ℕ
  invocations : List Pc
  resources : ProviderSnapshot R

inductive Label (R : Rules) where
  /-- The wall clock changes, in either direction. -/
  | clock (now : ℤ)
  | arrive
  /-- Takes the lock and looks at the last attempt. -/
  | acquire (i : ℕ)
  /-- Notes an attempt. -/
  | attempt (i : ℕ)
  /-- `load` of the next provider returns. -/
  | load (i : ℕ) (result : Except String (ProviderSnapshot R))
  /-- Replaces the registry and lets go of the lock. -/
  | replace (i : ℕ)
  /-- The invocation is dropped where it waits. -/
  | drop (i : ℕ)

namespace State

/-- `duration_since` fails when the last attempt is later than now. -/
def isFresh (ttl : ℕ) (s : State R) : Bool :=
  s.lastAttempt ≤ s.now && s.now - s.lastAttempt < ttl

def put (s : State R) (i : ℕ) (pc : Pc) : State R :=
  { s with invocations := s.invocations.set i pc }

/-- The snapshots after a load. A provider that fails keeps its own. -/
def load (s : State R) (provider : ℕ) : Except String (ProviderSnapshot R) → State R
  | .ok snapshot => { s with snapshots := s.snapshots.set provider snapshot }
  | .error _ => s

end State

/-- `refresh_if_stale`, cut where it waits and where it reads the clock. -/
def step (ttl : ℕ) (s : State R) : Label R → Option (State R)
  | .clock now => some { s with now := now }
  | .arrive => some { s with invocations := s.invocations ++ [.queued] }
  | .acquire i =>
      if s.invocations[i]? = some .queued ∧ s.holder = none then
        if s.isFresh ttl then some (s.put i .passed)
        else some { s.put i .stale with holder := some i }
      else none
  | .attempt i =>
      if s.invocations[i]? = some .stale then
        some { s.put i (.loading 0) with lastAttempt := s.now }
      else none
  | .load i result =>
      match s.invocations[i]? with
      | some (.loading provider) =>
          if provider < s.snapshots.length then
            some ((s.load provider result).put i (.loading (provider + 1)))
          else none
      | _ => none
  | .replace i =>
      if s.invocations[i]? = some (.loading s.snapshots.length) then
        some { s.put i .passed with
          holder := none
          resources := mergeOrdered s.snapshots }
      else none
  | .drop i =>
      match s.invocations[i]? with
      | some .queued => some (s.put i .dropped)
      | some (.loading provider) =>
          if provider < s.snapshots.length then some { s.put i .dropped with holder := none }
          else none
      | _ => none

/-- What the refresher starts with: the snapshots that the providers had published, and those that
the registry was merged from shortly before. -/
structure Start (R : Rules) where
  now : ℤ
  snapshots : List (ProviderSnapshot R)
  shown : List (ProviderSnapshot R)

/-- `LambdaConfigRefresher::new`. -/
def Start.state (start : Start R) : State R where
  now := start.now
  lastAttempt := start.now
  snapshots := start.snapshots
  holder := none
  invocations := []
  resources := mergeOrdered start.shown

/-! ## What has happened -/

abbrev Events (R : Rules) := List (Event (State R) (Label R))

def Label.isAttempt : Label R → Bool
  | attempt _ => true
  | _ => false

def Label.isReplace : Label R → Bool
  | replace _ => true
  | _ => false

/-- An attempt to refresh was made. -/
def attempted (events : Events R) : Bool := events.any fun e => e.label.isAttempt

/-- The steps since the last attempt. -/
def since (events : Events R) : Events R := events.takeWhile fun e => !e.label.isAttempt

/-- What the wall clock showed at the last attempt, or at the start. -/
def attemptedAt (start : Start R) : Events R → ℤ
  | [] => start.now
  | e :: earlier => if e.label.isAttempt then e.before.now else attemptedAt start earlier

/-- The last snapshot that a provider has loaded. -/
def lastGood (start : Start R) : Events R → ℕ → ProviderSnapshot R
  | [], provider => start.snapshots.getD provider .empty
  | ⟨before, .load i (.ok snapshot), _⟩ :: earlier, provider =>
      if before.invocations[i]? = some (.loading provider) then snapshot
      else lastGood start earlier provider
  | _ :: earlier, provider => lastGood start earlier provider

/-- What each provider had last loaded. -/
def allGood (start : Start R) (events : Events R) : List (ProviderSnapshot R) :=
  (List.range start.snapshots.length).map (lastGood start events)

/-- What was merged into the registry. -/
def shownBy (start : Start R) : Events R → List (ProviderSnapshot R)
  | [] => start.shown
  | e :: earlier =>
      if e.label.isReplace then allGood start earlier else shownBy start earlier

/-- The step is the answer of a provider. -/
def Asks (provider : ℕ) (e : Event (State R) (Label R)) : Prop :=
  ∃ i result, e.label = .load i result ∧ e.before.invocations[i]? = some (.loading provider)

/-- A refresh is dropped. -/
def Cuts (e : Event (State R) (Label R)) : Prop :=
  ∃ i provider, e.label = .drop i ∧ e.before.invocations[i]? = some (.loading provider)

/-- An invocation goes on. -/
def Passes (i : ℕ) (e : Event (State R) (Label R)) : Prop :=
  e.label = .acquire i ∧ e.after.invocations[i]? = some .passed ∨ e.label = .replace i

/-- Providers load what they have checked. -/
def Label.Valid : Label R → Prop
  | load _ (.ok snapshot) => snapshot.validate = .ok ()
  | _ => True

def Label.checked : Label R → Bool
  | load _ (.ok snapshot) => snapshot.validate = .ok ()
  | _ => true

/-- **What invocations see.** -/
structure SeesRecent (ttl : ℕ) (start : Start R) (events : Events R) (s : State R) : Prop where
  valid : s.resources.validate = .ok ()
  /-- One invocation refreshes at a time. -/
  exclusive : ∀ (i j : ℕ) (p q : Pc), s.invocations[i]? = some p → s.invocations[j]? = some q →
    p.refreshing = true → q.refreshing = true → i = j
  /-- The registry is what the providers had last loaded when it was replaced. -/
  shown : s.resources = mergeOrdered (shownBy start events)
  /-- An invocation that goes on without a refresh does so less than a time to live after the last
  attempt, as the wall clock has it. -/
  young : ∀ later e earlier, events = later ++ e :: earlier → ∀ i, e.label = .acquire i →
    e.after.invocations[i]? = some .passed →
      attemptedAt start earlier ≤ e.before.now ∧ e.before.now < attemptedAt start earlier + ttl
  /-- Unless the last attempt was dropped, an invocation that goes on has every provider asked since
  that attempt, and finds each key where the first provider has it. -/
  recent : ∀ later e earlier, events = later ++ e :: earlier → ∀ i, Passes i e →
    attempted earlier = true → (∀ cut ∈ since earlier, ¬ Cuts cut) →
      (∀ provider < start.snapshots.length, ∃ answer ∈ since earlier, Asks provider answer) ∧
      (∀ key, e.after.resources.upstreams.lookup key =
        (allGood start earlier).findSome? fun snapshot => snapshot.upstreams.lookup key) ∧
      ∀ key, e.after.resources.relays.lookup key =
        (allGood start earlier).findSome? fun snapshot => snapshot.relays.lookup key
  /-- A refresh begins when a time to live has passed since the last attempt, or when the clock was
  set back behind it. -/
  due : ∀ later e earlier, events = later ++ e :: earlier → ∀ i, e.label = .attempt i →
    ∃ check ∈ since earlier, check.label = .acquire i ∧
      (check.before.now < attemptedAt start earlier ∨
        attemptedAt start earlier + ttl ≤ check.before.now)

variable {ttl : ℕ} {start : Start R} {events : Events R} {s s' : State R} {label : Label R}

/-! ## What a step does -/

inductive Moves (ttl : ℕ) (s : State R) : Label R → State R → Prop
  | clock (now : ℤ) : Moves ttl s (.clock now) { s with now := now }
  | arrives : Moves ttl s .arrive { s with invocations := s.invocations ++ [.queued] }
  | passes {i : ℕ} (stands : s.invocations[i]? = some .queued) (free : s.holder = none)
      (fresh : s.isFresh ttl = true) : Moves ttl s (.acquire i) (s.put i .passed)
  | takes {i : ℕ} (stands : s.invocations[i]? = some .queued) (free : s.holder = none)
      (old : s.isFresh ttl = false) :
      Moves ttl s (.acquire i) { s.put i .stale with holder := some i }
  | attempts {i : ℕ} (stands : s.invocations[i]? = some .stale) :
      Moves ttl s (.attempt i) { s.put i (.loading 0) with lastAttempt := s.now }
  | loads {i provider : ℕ} (result : Except String (ProviderSnapshot R))
      (stands : s.invocations[i]? = some (.loading provider))
      (inside : provider < s.snapshots.length) :
      Moves ttl s (.load i result) ((s.load provider result).put i (.loading (provider + 1)))
  | replaces {i : ℕ} (stands : s.invocations[i]? = some (.loading s.snapshots.length)) :
      Moves ttl s (.replace i) { s.put i .passed with
        holder := none
        resources := mergeOrdered s.snapshots }
  | leaves {i : ℕ} (stands : s.invocations[i]? = some .queued) :
      Moves ttl s (.drop i) (s.put i .dropped)
  | cuts {i provider : ℕ} (stands : s.invocations[i]? = some (.loading provider)) :
      Moves ttl s (.drop i) { s.put i .dropped with holder := none }

theorem moves_of_step (taken : step ttl s label = some s') : Moves ttl s label s' := by
  cases label with
  | clock now =>
      cases taken
      exact .clock now
  | arrive =>
      cases taken
      exact .arrives
  | acquire i =>
      simp only [step] at taken
      split at taken
      · rename_i stands
        split at taken
        · rename_i fresh
          cases taken
          exact .passes stands.1 stands.2 fresh
        · rename_i old
          cases taken
          exact .takes stands.1 stands.2 (Bool.eq_false_iff.mpr old)
      · cases taken
  | attempt i =>
      simp only [step] at taken
      split at taken
      · rename_i stands
        cases taken
        exact .attempts stands
      · cases taken
  | load i result =>
      simp only [step] at taken
      split at taken
      · rename_i provider stands
        split at taken
        · rename_i inside
          cases taken
          exact .loads result stands inside
        · cases taken
      · cases taken
  | replace i =>
      simp only [step] at taken
      split at taken
      · rename_i stands
        cases taken
        exact .replaces stands
      · cases taken
  | drop i =>
      simp only [step] at taken
      split at taken
      · rename_i stands
        cases taken
        exact .leaves stands
      · rename_i provider stands
        split at taken
        · cases taken
          exact .cuts stands
        · cases taken
      · cases taken

/-! ## What steps leave in the history -/

variable {e : Event (State R) (Label R)}

theorem since_cons (quiet : e.label.isAttempt = false) :
    since (e :: events) = e :: since events := by
  simp [since, quiet]

theorem mem_since_cons (quiet : e.label.isAttempt = false) : e ∈ since (e :: events) := by
  rw [since_cons quiet]
  exact List.mem_cons_self ..

theorem attempted_cons (quiet : e.label.isAttempt = false) :
    attempted (e :: events) = attempted events := by
  simp [attempted, quiet]

theorem attemptedAt_cons (quiet : e.label.isAttempt = false) :
    attemptedAt start (e :: events) = attemptedAt start events := by
  simp [attemptedAt, quiet]

theorem shownBy_cons (keeps : e.label.isReplace = false) :
    shownBy start (e :: events) = shownBy start events := by
  simp [shownBy, keeps]

/-- The step is no load. -/
def Label.isLoad : Label R → Bool
  | load .. => true
  | _ => false

theorem allGood_cons (keeps : e.label.isLoad = false) :
    allGood start (e :: events) = allGood start events := by
  have same : lastGood start (e :: events) = lastGood start events := by
    funext provider
    cases e with
    | mk before label after =>
        cases label with
        | load => cases keeps
        | _ => rfl
  rw [allGood, same, allGood]

/-- A good answer is the last good snapshot of its provider and of no other. -/
theorem lastGood_load {i provider : ℕ} {snapshot : ProviderSnapshot R} {before after : State R}
    (stands : before.invocations[i]? = some (.loading provider)) (other : ℕ) :
    lastGood start (⟨before, .load i (.ok snapshot), after⟩ :: events) other =
      if provider = other then snapshot else lastGood start events other := by
  simp only [lastGood, stands, Option.some.injEq, Pc.loading.injEq]

theorem allGood_load {i provider : ℕ} {result : Except String (ProviderSnapshot R)}
    {before after : State R} (stands : before.invocations[i]? = some (.loading provider))
    (good : before.snapshots = allGood start events) :
    (before.load provider result).snapshots =
      allGood start (⟨before, .load i result, after⟩ :: events) := by
  cases result with
  | error => exact good
  | ok snapshot =>
      simp only [State.load, good, allGood]
      apply List.ext_getElem?
      intro other
      rw [List.getElem?_set]
      by_cases inside : other < start.snapshots.length
      · simp only [List.getElem?_map, List.getElem?_range inside, Option.map_some,
          lastGood_load stands, List.length_map, List.length_range]
        by_cases same : provider = other
        · simp [same, inside]
        · simp [same]
      · have outside : (List.range start.snapshots.length)[other]? = none := by
          simpa using Nat.not_lt.mp inside
        simp only [List.getElem?_map, outside, Option.map_none, List.length_map, List.length_range]
        by_cases same : provider = other
        · simp [same, inside]
        · simp [same]

/-! ## Where the last refresh is -/

/-- The providers up to this one were asked since the last attempt. -/
def Asked (events : Events R) (count : ℕ) : Prop :=
  ∀ provider < count, ∃ answer ∈ since events, Asks provider answer

/-- The last refresh was dropped or has come to its end. -/
def Finished (start : Start R) (events : Events R) (s : State R) : Prop :=
  attempted events = true → (∀ cut ∈ since events, ¬ Cuts cut) →
    Asked events start.snapshots.length ∧ s.resources = mergeOrdered s.snapshots

/-- The invocation has found the last attempt to be too old. -/
def Due (ttl : ℕ) (start : Start R) (events : Events R) (i : ℕ) : Prop :=
  ∃ check ∈ since events, check.label = .acquire i ∧
    (check.before.now < attemptedAt start events ∨
      attemptedAt start events + ttl ≤ check.before.now)

/-- What is so while an invocation has the lock, and while none has it. -/
def Phase (ttl : ℕ) (start : Start R) (events : Events R) (s : State R) : Option ℕ → Prop
  | none => Finished start events s
  | some i => s.invocations[i]? = some .stale ∧ Finished start events s ∧ Due ttl start events i ∨
      ∃ provider ≤ start.snapshots.length, s.invocations[i]? = some (.loading provider) ∧
        Asked events provider

/-- What the refresher has to do with what has happened. -/
structure Tracks (ttl : ℕ) (start : Start R) (events : Events R) (s : State R) : Prop where
  valid : ∀ snapshot ∈ s.snapshots, snapshot.validate = .ok ()
  resources : s.resources.validate = .ok ()
  good : s.snapshots = allGood start events
  attempt : s.lastAttempt = attemptedAt start events
  shown : s.resources = mergeOrdered (shownBy start events)
  holder : ∀ (i : ℕ) (pc : Pc), s.invocations[i]? = some pc → pc.refreshing = true →
    s.holder = some i
  phase : Phase ttl start events s s.holder

theorem Asked.cons {count : ℕ} (asked : Asked events count)
    (quiet : e.label.isAttempt = false) : Asked (e :: events) count := by
  intro provider inside
  obtain ⟨answer, member, asks⟩ := asked provider inside
  exact ⟨answer, since_cons quiet ▸ List.mem_cons_of_mem _ member, asks⟩

theorem Finished.cons (finished : Finished start events s) (quiet : e.label.isAttempt = false)
    (resources : s'.resources = s.resources) (snapshots : s'.snapshots = s.snapshots) :
    Finished start (e :: events) s' := by
  intro made uncut
  rw [since_cons quiet] at uncut
  obtain ⟨asked, merged⟩ := finished (attempted_cons quiet ▸ made)
    fun cut member => uncut cut (List.mem_cons_of_mem _ member)
  exact ⟨asked.cons quiet, by rw [resources, snapshots, merged]⟩

theorem Due.cons {i : ℕ} (due : Due ttl start events i) (quiet : e.label.isAttempt = false) :
    Due ttl start (e :: events) i := by
  obtain ⟨check, member, asked, old⟩ := due
  exact ⟨check, since_cons quiet ▸ List.mem_cons_of_mem _ member, asked,
    by rwa [attemptedAt_cons quiet]⟩

/-- An invocation after one of them was put somewhere. -/
theorem getElem?_put {i j : ℕ} {pc q : Pc} (there : (s.put i pc).invocations[j]? = some q) :
    j = i ∧ q = pc ∨ j ≠ i ∧ s.invocations[j]? = some q := by
  simp only [State.put, List.getElem?_set] at there
  by_cases same : i = j
  · simp only [same, if_true] at there
    split at there
    · exact .inl ⟨same.symm, (Option.some.inj there).symm⟩
    · cases there
  · rw [if_neg same] at there
    exact .inr ⟨fun eq => same eq.symm, there⟩

theorem getElem?_put_self {i : ℕ} {pc q : Pc} (there : s.invocations[i]? = some q) :
    (s.put i pc).invocations[i]? = some pc := by
  simp only [State.put, List.getElem?_set, if_true]
  rw [if_pos (List.getElem?_eq_some_iff.mp there).1]

theorem getElem?_put_of_ne {i j : ℕ} {pc : Pc} (other : j ≠ i) :
    (s.put i pc).invocations[j]? = s.invocations[j]? := by
  simp only [State.put, List.getElem?_set]
  rw [if_neg fun eq => other eq.symm]

theorem Phase.cons {holder : Option ℕ} (phase : Phase ttl start events s holder)
    (quiet : e.label.isAttempt = false)
    (same : ∀ i, holder = some i → s'.invocations[i]? = s.invocations[i]?)
    (resources : s'.resources = s.resources) (snapshots : s'.snapshots = s.snapshots) :
    Phase ttl start (e :: events) s' holder := by
  cases holder with
  | none => exact Finished.cons phase quiet resources snapshots
  | some i =>
      rcases phase with ⟨stands, finished, due⟩ | ⟨provider, inside, stands, asked⟩
      · exact .inl ⟨(same i rfl).trans stands, finished.cons quiet resources snapshots,
          due.cons quiet⟩
      · exact .inr ⟨provider, inside, (same i rfl).trans stands, asked.cons quiet⟩

/-- The invocation that stands there has the lock, and what is so then. -/
theorem Tracks.phase_of (tracks : Tracks ttl start events s) {i : ℕ} {pc : Pc}
    (stands : s.invocations[i]? = some pc) (refreshing : pc.refreshing = true) :
    Phase ttl start events s (some i) := by
  have phase := tracks.phase
  rwa [tracks.holder i pc stands refreshing] at phase

theorem Tracks.asked (tracks : Tracks ttl start events s) {i provider : ℕ}
    (stands : s.invocations[i]? = some (.loading provider)) : Asked events provider := by
  rcases tracks.phase_of stands rfl with ⟨stale, _⟩ | ⟨other, _, loading, asked⟩
  · rw [stands] at stale
    cases stale
  · rw [stands] at loading
    cases loading
    exact asked

/-- When nobody has the lock, a good refresh is complete. -/
theorem Tracks.finished (tracks : Tracks ttl start events s) (free : s.holder = none) :
    Finished start events s := by
  have phase := tracks.phase
  rwa [free] at phase

theorem validate_load {provider : ℕ} {result : Except String (ProviderSnapshot R)} {i : ℕ}
    (valid : ∀ snapshot ∈ s.snapshots, snapshot.validate = .ok ())
    (good : (Label.load i result).Valid) :
    ∀ snapshot ∈ (s.load provider result).snapshots, snapshot.validate = .ok () := by
  intro snapshot member
  cases result with
  | error => exact valid snapshot member
  | ok loaded =>
      rcases List.mem_or_eq_of_mem_set member with old | rfl
      · exact valid snapshot old
      · exact good

/-- A step that asks nothing, loads nothing and replaces nothing. -/
def Label.silent : Label R → Bool
  | clock _ | arrive | acquire _ | drop _ => true
  | attempt _ | load .. | replace _ => false

/-- A silent step only changes the clock, the lock and the invocations. -/
theorem Tracks.silent (tracks : Tracks ttl start events s) (silent : label.silent = true)
    (resources : s'.resources = s.resources) (snapshots : s'.snapshots = s.snapshots)
    (lastAttempt : s'.lastAttempt = s.lastAttempt)
    (holder : ∀ (i : ℕ) (pc : Pc), s'.invocations[i]? = some pc → pc.refreshing = true →
      s'.holder = some i)
    (phase : Phase ttl start (⟨s, label, s'⟩ :: events) s' s'.holder) :
    Tracks ttl start (⟨s, label, s'⟩ :: events) s' := by
  have kinds : label.isLoad = false ∧ label.isAttempt = false ∧ label.isReplace = false := by
    cases label <;> simp_all [Label.silent, Label.isLoad, Label.isAttempt, Label.isReplace]
  obtain ⟨noLoad, noAttempt, noReplace⟩ := kinds
  exact {
    valid := snapshots ▸ tracks.valid
    resources := resources ▸ tracks.resources
    good := by
      rw [allGood_cons noLoad, snapshots]
      exact tracks.good
    attempt := by
      rw [attemptedAt_cons noAttempt, lastAttempt]
      exact tracks.attempt
    shown := by
      rw [shownBy_cons noReplace, resources]
      exact tracks.shown
    holder
    phase }

/-- An invocation that is put outside the lock has no say in who has it. -/
theorem Tracks.holder_put (tracks : Tracks ttl start events s) {i : ℕ} {pc : Pc}
    (outside : pc.refreshing = false) (j : ℕ) (q : Pc)
    (there : (s.put i pc).invocations[j]? = some q) (refreshing : q.refreshing = true) :
    j ≠ i ∧ s.holder = some j := by
  rcases getElem?_put there with ⟨_, rfl⟩ | ⟨other, there⟩
  · rw [outside] at refreshing
    cases refreshing
  · exact ⟨other, tracks.holder j q there refreshing⟩

/-- An invocation that waits for the lock does not have it. -/
theorem Tracks.ne_of_queued (tracks : Tracks ttl start events s) {i : ℕ}
    (stands : s.invocations[i]? = some .queued) (j : ℕ) (held : s.holder = some j) : j ≠ i := by
  rintro rfl
  have phase := tracks.phase
  rw [held] at phase
  rcases phase with ⟨stale, _⟩ | ⟨_, _, loading, _⟩
  · rw [stands] at stale
    cases stale
  · rw [stands] at loading
    cases loading

theorem Tracks.count (tracks : Tracks ttl start events s) :
    s.snapshots.length = start.snapshots.length := by
  rw [tracks.good, allGood, List.length_map, List.length_range]

/-- **A step of an invocation, a provider or the clock.** -/
theorem tracks_step (tracks : Tracks ttl start events s) (good : label.Valid)
    (taken : step ttl s label = some s') : Tracks ttl start (⟨s, label, s'⟩ :: events) s' := by
  cases moves_of_step taken with
  | clock now =>
      exact tracks.silent rfl rfl rfl rfl tracks.holder
        (tracks.phase.cons rfl (fun _ _ => rfl) rfl rfl)
  | arrives =>
      refine tracks.silent rfl rfl rfl rfl ?_ (tracks.phase.cons rfl ?_ rfl rfl)
      · intro i pc there refreshing
        rw [List.getElem?_append] at there
        split at there
        · exact tracks.holder i pc there refreshing
        · obtain rfl := List.mem_singleton.mp (List.mem_of_getElem? there)
          cases refreshing
      · intro i held
        have phase := tracks.phase
        rw [held] at phase
        have inside : i < s.invocations.length := by
          rcases phase with ⟨stands, _⟩ | ⟨_, _, stands, _⟩
          · exact (List.getElem?_eq_some_iff.mp stands).1
          · exact (List.getElem?_eq_some_iff.mp stands).1
        rw [List.getElem?_append, if_pos inside]
  | @passes i stands free fresh =>
      exact tracks.silent rfl rfl rfl rfl
        (fun j pc there refreshing => (tracks.holder_put rfl j pc there refreshing).2)
        (tracks.phase.cons rfl
          (fun j held => getElem?_put_of_ne (tracks.ne_of_queued stands j held)) rfl rfl)
  | @takes i stands free old =>
      refine tracks.silent rfl rfl rfl rfl ?_ (.inl ⟨getElem?_put_self stands,
        (tracks.finished free).cons rfl rfl rfl, _, mem_since_cons rfl, rfl, ?_⟩)
      · intro j pc there refreshing
        rcases getElem?_put there with ⟨rfl, _⟩ | ⟨_, there⟩
        · rfl
        · have held := tracks.holder j pc there refreshing
          rw [free] at held
          cases held
      · rw [attemptedAt_cons rfl, ← tracks.attempt]
        simp only [State.isFresh, Bool.and_eq_false_iff, decide_eq_false_iff_not] at old
        change s.now < s.lastAttempt ∨ s.lastAttempt + ttl ≤ s.now
        omega
  | @attempts i stands =>
      have held := tracks.holder i .stale stands rfl
      refine {
        valid := tracks.valid
        resources := tracks.resources
        good := by rw [allGood_cons rfl]; exact tracks.good
        attempt := rfl
        shown := by rw [shownBy_cons rfl]; exact tracks.shown
        holder := ?_
        phase := ?_ }
      · intro j pc there refreshing
        rcases getElem?_put there with ⟨rfl, _⟩ | ⟨_, there⟩
        · exact held
        · exact tracks.holder j pc there refreshing
      · change Phase ttl start _ _ s.holder
        rw [held]
        exact .inr ⟨0, Nat.zero_le _, getElem?_put_self stands,
          fun provider inside => absurd inside (Nat.not_lt_zero _)⟩
  | @loads i provider result stands inside =>
      have same : (s.load provider result).resources = s.resources ∧
          (s.load provider result).lastAttempt = s.lastAttempt ∧
          (s.load provider result).holder = s.holder ∧
          (s.load provider result).invocations = s.invocations := by
        cases result <;> exact ⟨rfl, rfl, rfl, rfl⟩
      obtain ⟨resources, lastAttempt, holder, invocations⟩ := same
      have held := tracks.holder i _ stands rfl
      refine {
        valid := validate_load tracks.valid good
        resources := resources ▸ tracks.resources
        good := allGood_load stands tracks.good
        attempt := by
          rw [attemptedAt_cons rfl]
          exact lastAttempt.trans tracks.attempt
        shown := by
          rw [shownBy_cons rfl]
          exact resources.trans tracks.shown
        holder := ?_
        phase := ?_ }
      · intro j pc there refreshing
        refine holder.trans ?_
        rcases getElem?_put there with ⟨rfl, _⟩ | ⟨_, there⟩
        · exact held
        · exact tracks.holder j pc (invocations ▸ there) refreshing
      · change Phase ttl start _ _ (s.load provider result).holder
        rw [holder, held]
        refine .inr ⟨provider + 1, tracks.count ▸ inside,
          getElem?_put_self (invocations ▸ stands), ?_⟩
        intro other before
        rcases Nat.lt_succ_iff_lt_or_eq.mp before with before | rfl
        · exact (tracks.asked stands).cons rfl other before
        · exact ⟨_, mem_since_cons rfl, i, result, rfl, stands⟩
  | @replaces i stands =>
      refine {
        valid := tracks.valid
        resources := validate_mergeOrdered tracks.valid
        good := by rw [allGood_cons rfl]; exact tracks.good
        attempt := by rw [attemptedAt_cons rfl]; exact tracks.attempt
        shown := congrArg mergeOrdered tracks.good
        holder := ?_
        phase := fun _ _ => ⟨tracks.count ▸ (tracks.asked stands).cons rfl, rfl⟩ }
      intro j pc there refreshing
      obtain ⟨other, held⟩ := tracks.holder_put rfl j pc there refreshing
      rw [tracks.holder i _ stands rfl] at held
      exact absurd (Option.some.inj held).symm other
  | @leaves i stands =>
      exact tracks.silent rfl rfl rfl rfl
        (fun j pc there refreshing => (tracks.holder_put rfl j pc there refreshing).2)
        (tracks.phase.cons rfl
          (fun j held => getElem?_put_of_ne (tracks.ne_of_queued stands j held)) rfl rfl)
  | @cuts i provider stands =>
      refine tracks.silent rfl rfl rfl rfl ?_ ?_
      · intro j pc there refreshing
        obtain ⟨other, held⟩ := tracks.holder_put rfl j pc there refreshing
        rw [tracks.holder i _ stands rfl] at held
        exact absurd (Option.some.inj held).symm other
      · intro _ uncut
        exact absurd ⟨i, provider, rfl, stands⟩ (uncut _ (mem_since_cons rfl))

/-! ## Every run -/

/-- Runs of the refresher in which providers load what they have checked. -/
abbrev Invokes (ttl : ℕ) (start : Start R) : Events R → State R → Prop :=
  Async.Steps.Runs (step ttl) (fun _ _ label => label.Valid) start.state

/-- What the providers had published at the start was checked. -/
structure Start.Valid (start : Start R) : Prop where
  snapshots : ∀ snapshot ∈ start.snapshots, snapshot.validate = .ok ()
  shown : ∀ snapshot ∈ start.shown, snapshot.validate = .ok ()

theorem tracks_start (valid : start.Valid) : Tracks ttl start [] start.state where
  valid := valid.snapshots
  resources := validate_mergeOrdered valid.shown
  good := by
    apply List.ext_getElem?
    intro provider
    simp only [allGood, List.getElem?_map]
    by_cases inside : provider < start.snapshots.length
    · simp [lastGood, Start.state, inside]
    · have outside : (List.range start.snapshots.length)[provider]? = none := by
        simpa using Nat.not_lt.mp inside
      simpa [outside, Start.state] using Nat.not_lt.mp inside
  attempt := rfl
  shown := rfl
  holder i pc there := by cases there
  phase made := by cases made

theorem tracks_of_run (valid : start.Valid) (run : Invokes ttl start events s) :
    Tracks ttl start events s :=
  run.invariant (tracks_start valid)
    fun _ _ _ _ _ permitted taken tracks => tracks_step tracks permitted taken

/-- A step of a run is taken in the state that the earlier steps lead to. -/
theorem step_of_run (run : Invokes ttl start events s) {later earlier : Events R}
    (split : events = later ++ e :: earlier) :
    Invokes ttl start earlier e.before ∧ step ttl e.before e.label = some e.after := by
  subst split
  obtain ⟨_, before⟩ := run.earlier
  obtain ⟨before, _, taken, _⟩ := before.last
  exact ⟨before, taken⟩

/-- An invocation that goes on at once has found a fresh attempt, and nobody had the lock. -/
theorem fresh_of_passed {i : ℕ} (taken : step ttl s (.acquire i) = some s')
    (passed : s'.invocations[i]? = some .passed) :
    s.isFresh ttl = true ∧ s.holder = none ∧ s'.resources = s.resources := by
  cases moves_of_step taken with
  | passes stands free fresh => exact ⟨fresh, free, rfl⟩
  | takes stands free old =>
      have stale : (s.put i .stale).invocations[i]? = some .stale := getElem?_put_self stands
      change (s.put i .stale).invocations[i]? = _ at passed
      rw [stale] at passed
      cases passed

/-- The invocation that goes on finds the end of the last refresh, its own or another's. -/
theorem merged_of_passes {i : ℕ} (tracks : Tracks ttl start events e.before)
    (taken : step ttl e.before e.label = some e.after) (passes : Passes i e)
    (made : attempted events = true) (uncut : ∀ cut ∈ since events, ¬ Cuts cut) :
    Asked events start.snapshots.length ∧
      e.after.resources = mergeOrdered (allGood start events) := by
  cases e with
  | mk s label s' =>
      rcases passes with ⟨rfl, passed⟩ | rfl
      · obtain ⟨_, free, kept⟩ := fresh_of_passed taken passed
        obtain ⟨asked, merged⟩ := tracks.finished free made uncut
        exact ⟨asked, (kept.trans merged).trans (congrArg mergeOrdered tracks.good)⟩
      · change step ttl s (.replace i) = some s' at taken
        cases moves_of_step taken with
        | replaces stands =>
            exact ⟨tracks.count ▸ tracks.asked stands, congrArg mergeOrdered tracks.good⟩

/-- **Invocations see what was there a time to live ago, or later.** -/
theorem sees_recent (valid : start.Valid) (run : Invokes ttl start events s) :
    SeesRecent ttl start events s where
  valid := (tracks_of_run valid run).resources
  exclusive i j p q there there' refreshing refreshing' := by
    have tracks := tracks_of_run valid run
    have held := tracks.holder i p there refreshing
    rw [tracks.holder j q there' refreshing'] at held
    exact (Option.some.inj held).symm
  shown := (tracks_of_run valid run).shown
  young later e earlier split i asked passed := by
    obtain ⟨before, taken⟩ := step_of_run run split
    have tracks := tracks_of_run valid before
    cases e with
    | mk s label s' =>
        obtain rfl : label = .acquire i := asked
        obtain ⟨fresh, _, _⟩ := fresh_of_passed taken passed
        rw [← tracks.attempt]
        simp only [State.isFresh, Bool.and_eq_true, decide_eq_true_eq] at fresh
        change s.lastAttempt ≤ s.now ∧ s.now < s.lastAttempt + ttl
        omega
  recent later e earlier split i passes made uncut := by
    obtain ⟨before, taken⟩ := step_of_run run split
    obtain ⟨asked, merged⟩ :=
      merged_of_passes (tracks_of_run valid before) taken passes made uncut
    refine ⟨asked, fun key => ?_, fun key => ?_⟩
    · rw [merged]
      exact lookup_upstreams_mergeOrdered _ key
    · rw [merged]
      exact lookup_relays_mergeOrdered _ key
  due later e earlier split i attempts := by
    obtain ⟨before, taken⟩ := step_of_run run split
    have tracks := tracks_of_run valid before
    cases e with
    | mk s label s' =>
        obtain rfl : label = .attempt i := attempts
        change step ttl s (.attempt i) = some s' at taken
        cases moves_of_step taken with
        | attempts stands =>
            rcases tracks.phase_of stands rfl with ⟨_, _, due⟩ | ⟨_, _, loading, _⟩
            · exact due
            · rw [stands] at loading
              cases loading

/-! ## A refresh, and a refresh that is dropped -/

theorem valid_of_checked (checked : label.checked = true) : label.Valid := by
  cases label with
  | load i result =>
      cases result with
      | error => trivial
      | ok snapshot =>
          simp only [Label.checked, decide_eq_true_eq] at checked
          exact checked
  | _ => trivial

/-- The refresher of one provider, at time 0. -/
def sampleStart : Start sampleRules :=
  ⟨0, [sampleSnapshot oldKey ["openid"]], [sampleSnapshot oldKey ["openid"]]⟩

/-- A provider loads another upstream after a minute, and a later invocation uses it. -/
theorem sees_recent_of_refresh : ∃ events s, s.invocations = [.passed, .passed] ∧
    s.resources.upstreams.keys = [newKey] ∧ SeesRecent 60 sampleStart events s := by
  let labels : List (Label sampleRules) :=
    [.arrive, .clock 60, .acquire 0, .attempt 0, .load 0 (.ok (sampleSnapshot newKey ["openid"])),
      .replace 0, .arrive, .clock 90, .acquire 1]
  have valid : sampleStart.Valid :=
    ⟨by decide +kernel, by decide +kernel⟩
  have run : Invokes 60 sampleStart _ _ :=
    .of_replay (fun _ _ label => label.checked) labels (fun _ _ _ => valid_of_checked) .nil rfl
  exact ⟨_, _, rfl, by decide +kernel, sees_recent valid run⟩

/-- **After a dropped refresh an invocation goes on with what was there before.** -/
theorem passes_after_cut {i provider : ℕ}
    (stands : s.invocations[i]? = some (.loading provider))
    (inside : provider < s.snapshots.length) (fresh : s.isFresh ttl = true) :
    ∃ s₁ s₂ s₃, step ttl s (.drop i) = some s₁ ∧ step ttl s₁ .arrive = some s₂ ∧
      step ttl s₂ (.acquire s.invocations.length) = some s₃ ∧
      s₃.invocations[s.invocations.length]? = some .passed ∧ s₃.resources = s.resources := by
  let s₁ : State R := { s.put i .dropped with holder := none }
  let s₂ : State R := { s₁ with invocations := s₁.invocations ++ [.queued] }
  have last : s₂.invocations[s.invocations.length]? = some .queued := by
    simp [s₂, s₁, State.put]
  refine ⟨s₁, s₂, s₂.put s.invocations.length .passed, ?_, rfl, ?_, getElem?_put_self last, rfl⟩
  · simp only [step, stands, if_pos inside, s₁]
  · have young : s₂.isFresh ttl = true := fresh
    have free : s₂.holder = none := rfl
    simp only [step, last, young, free, and_self, if_true]

end OAuthRelay.Config.Invocations
