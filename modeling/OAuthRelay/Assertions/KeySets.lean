import Mathlib.Logic.Function.Basic
import OAuthRelay.Assertions.Presentation
import OAuthRelay.Async.Steps

/-!
# Fetching the key set of a client

The keys of a client are at a URL, and what was fetched from there is cached. The calls of
`client_assertion_jwks` for one URL take turns: a call holds the lock of the cached entry from
its look at the entry to the end of its fetch. Entries of different URLs share nothing.

A fetch starts when a call puts off the next one by a cooldown. After that the outbound policy
is asked, and the request is sent if it agrees. What the call does to the cooldown depends on how
this ends, and a call may also be dropped at any time it waits. The main result
(`refreshes_are_throttled`) says what holds in any run of such calls.
-/

set_option autoImplicit false

namespace OAuthRelay.Assertions.KeySets

open OAuthRelay.Async.Steps (Event Runs replay)

/-! ## The entry of a URL -/

/-- `JWKS_TTL`, in nanoseconds. -/
def jwksTtl : ℕ := 10 * 60 * 10 ^ 9

/-- `JWKS_REFRESH_COOLDOWN`, in nanoseconds. -/
def jwksRefreshCooldown : ℕ := 30 * 10 ^ 9

/-- `CachedClientJwks`. Instants are nanoseconds. -/
structure CachedClientJwks where
  current : Option (ℕ × JwkSet)
  retryAfter : Option ℕ

/-- What a call finds when it has the lock. -/
inductive Finding where
  /-- It returns without a fetch. -/
  | returns (result : Option JwkSet)
  /-- It is `forced` when there is a set that has not expired. -/
  | fetch (forced : Bool)

namespace CachedClientJwks

/-- `CachedClientJwks::default()`. -/
def empty : CachedClientJwks := ⟨none, none⟩

/-- The cached set, if it has not expired. -/
def unexpired (entry : CachedClientJwks) (now : ℕ) : Option JwkSet :=
  (entry.current.filter fun (fetched, _) => decide (now - fetched < jwksTtl)).map Prod.snd

/-- The two looks at the entry, each with its own reading of the clock. -/
def look (entry : CachedClientJwks) (missingKid : Option String) (now later : ℕ) : Finding :=
  let current := entry.unexpired now
  match current.filter fun set => missingKid.all fun kid => (set.find kid).isSome with
  | some set => .returns (some set)
  | none =>
      if entry.retryAfter.any fun deadline => decide (deadline > later) then .returns current
      else .fetch current.isSome

/-- The next fetch is put off. -/
def putOff (entry : CachedClientJwks) (now : ℕ) : CachedClientJwks :=
  { entry with retryAfter := some (now + jwksRefreshCooldown) }

/-- A set was fetched. -/
def renew (entry : CachedClientJwks) (now : ℕ) (set : JwkSet) (forced : Bool) :
    CachedClientJwks where
  current := some (now, set)
  retryAfter := if forced then entry.retryAfter else none

/-- A fetch starts only when the cooldown is over. -/
theorem retry_le_of_look {entry : CachedClientJwks} {missingKid : Option String} {now later : ℕ}
    {forced : Bool} (finds : entry.look missingKid now later = .fetch forced) {deadline : ℕ}
    (stamped : entry.retryAfter = some deadline) : deadline ≤ later := by
  simp only [look] at finds
  split at finds
  · cases finds
  · split at finds
    · cases finds
    · rename_i free
      rw [stamped, Option.any_some, decide_eq_true_iff] at free
      exact Nat.le_of_not_gt free

/-- A set that has not expired is returned when it has the key. -/
theorem look_of_find {entry : CachedClientJwks} {missingKid : Option String} {now : ℕ}
    {set : JwkSet} (current : entry.unexpired now = some set)
    (found : ∀ kid, missingKid = some kid → (set.find kid).isSome = true) (later : ℕ) :
    entry.look missingKid now later = .returns (some set) := by
  have finds : missingKid.all (fun kid => (set.find kid).isSome) = true := by
    cases missingKid with
    | none => rfl
    | some kid => exact found kid rfl
  simp only [look, current, Option.filter_some, finds, if_true]

/-- Whatever the key, a set that has not expired is what a call returns without a fetch. -/
theorem result_of_look {entry : CachedClientJwks} {missingKid : Option String} {now later : ℕ}
    {set : JwkSet} {result : Option JwkSet} (current : entry.unexpired now = some set)
    (finds : entry.look missingKid now later = .returns result) : result = some set := by
  simp only [look, current] at finds
  split at finds
  · rename_i kept
    cases finds
    exact ((Option.filter_eq_some_iff.mp kept).1).symm
  · split at finds
    · cases finds
      rfl
    · cases finds

/-- A fetch while a set has not expired is forced. -/
theorem forced_of_look {entry : CachedClientJwks} {missingKid : Option String} {now later : ℕ}
    {set : JwkSet} {forced : Bool} (current : entry.unexpired now = some set)
    (finds : entry.look missingKid now later = .fetch forced) : forced = true := by
  simp only [look, current] at finds
  split at finds
  · cases finds
  · split at finds
    · cases finds
    · cases finds
      rfl

/-- The cached set stays usable until it expires. -/
theorem unexpired_of_lt {entry : CachedClientJwks} {fetched now : ℕ} {set : JwkSet}
    (current : entry.current = some (fetched, set)) (fresh : now < fetched + jwksTtl) :
    entry.unexpired now = some set := by
  have young : now - fetched < jwksTtl := by
    have : 0 < jwksTtl := by decide
    omega
  simp only [unexpired, current, Option.filter_some, young, decide_true, if_true,
    Option.map_some]

end CachedClientJwks

/-! ## Calls -/

/-- An answer to the request. -/
structure Response where
  /-- It comes from the URL that was asked. -/
  fromUrl : Bool
  status : ℕ
  /-- What its body is as a key set. -/
  json : Option JwkSet

/-- The set in what the request led to: the second half of `send_checked`, and what is done with
its result. Without a response there was a failure in transport. -/
def keysOf : Option Response → Option JwkSet
  | some response =>
      if !response.fromUrl || (300 ≤ response.status && response.status < 400) then none
      else if !(200 ≤ response.status && response.status < 300) then none
      else response.json
  | none => none

/-- Where a call is. -/
inductive Pc where
  | idle
  /-- It waits for the lock. -/
  | waiting (missingKid : Option String)
  /-- It asks the outbound policy about its request. -/
  | asking (forced : Bool) (previousRetry : Option ℕ)
  /-- It has sent its request. -/
  | sending (forced : Bool)
  | done (result : Option JwkSet)
  /-- The future was dropped. -/
  | dropped

/-- It returned, or was dropped. -/
def Pc.Over : Pc → Prop
  | done _ | dropped => True
  | _ => False

/-- What can happen next. -/
inductive Label where
  | pass (duration : ℕ)
  | begin (call : ℕ) (missingKid : Option String)
  /-- The lock is taken, and the entry is looked at. The clock goes on between its readings. -/
  | acquire (call : ℕ) (second third : ℕ) (built : Bool)
  /-- Without a policy every request is allowed. -/
  | policy (call : ℕ) (allowed : Bool)
  | respond (call : ℕ) (response : Option Response)
  | drop (call : ℕ)

/-- The call a label is about. -/
def Label.call : Label → Option ℕ
  | pass _ => none
  | begin i _ | acquire i _ _ _ | policy i _ | respond i _ | drop i => some i

structure State where
  now : ℕ
  entry : CachedClientJwks
  /-- Who has the lock of the entry. -/
  holder : Option ℕ
  calls : ℕ → Pc

namespace State

def initial (now : ℕ) : State := ⟨now, .empty, none, fun _ => .idle⟩

/-- A call goes on. -/
def goto (s : State) (i : ℕ) (pc : Pc) : State := { s with calls := Function.update s.calls i pc }

/-- A call is over, and the lock is free. -/
def finish (s : State) (i : ℕ) (pc : Pc) (entry : CachedClientJwks) : State :=
  { s with entry := entry, holder := none, calls := Function.update s.calls i pc }

@[simp] theorem goto_calls_self (s : State) (i : ℕ) (pc : Pc) : (s.goto i pc).calls i = pc :=
  Function.update_self ..

@[simp] theorem finish_calls_self (s : State) (i : ℕ) (pc : Pc) (entry : CachedClientJwks) :
    (s.finish i pc entry).calls i = pc :=
  Function.update_self ..

theorem goto_calls_of_ne (s : State) {i j : ℕ} (pc : Pc) (other : j ≠ i) :
    (s.goto i pc).calls j = s.calls j :=
  Function.update_of_ne other ..

theorem finish_calls_of_ne (s : State) {i j : ℕ} (pc : Pc) (entry : CachedClientJwks)
    (other : j ≠ i) : (s.finish i pc entry).calls j = s.calls j :=
  Function.update_of_ne other ..

/-- `client_assertion_jwks`, from one point where it waits to the next. -/
def step (s : State) : Label → Option State
  | .pass duration => some { s with now := s.now + duration }
  | .begin i missingKid =>
      match s.calls i with
      | .idle => some (s.goto i (.waiting missingKid))
      | _ => none
  | .acquire i second third built =>
      match s.holder, s.calls i with
      | none, .waiting missingKid =>
          match s.entry.look missingKid s.now (s.now + second) with
          | .returns result => some ({ s with now := s.now + second }.goto i (.done result))
          | .fetch forced =>
              let later := { s with now := s.now + second + third }
              let entry := s.entry.putOff later.now
              if built then
                some ({ later with entry := entry, holder := some i }.goto i
                  (.asking forced s.entry.retryAfter))
              else some (later.finish i (.done none) entry)
      | _, _ => none
  | .policy i allowed =>
      match s.calls i with
      | .asking forced previousRetry =>
          if allowed then some (s.goto i (.sending forced))
          else some (s.finish i (.done none) { s.entry with retryAfter := previousRetry })
      | _ => none
  | .respond i response =>
      match s.calls i with
      | .sending forced =>
          match keysOf response with
          | none => some (s.finish i (.done none) s.entry)
          | some set => some (s.finish i (.done (some set)) (s.entry.renew s.now set forced))
      | _ => none
  | .drop i =>
      match s.calls i with
      | .waiting _ => some (s.goto i .dropped)
      | .asking _ _ | .sending _ => some (s.finish i .dropped s.entry)
      | _ => none

end State

/-- Any run from a time when nothing was fetched. -/
abbrev Calls (start : ℕ) (events : List (Event State Label)) (s : State) : Prop :=
  Runs State.step (fun _ _ _ => True) (.initial start) events s

/-! ## What a step can do -/

/-- The steps of a run, one by one. -/
inductive Takes (s : State) : Label → State → Prop where
  | passes (duration : ℕ) : Takes s (.pass duration) { s with now := s.now + duration }
  | begins {i : ℕ} {missingKid : Option String} (stands : s.calls i = .idle) :
      Takes s (.begin i missingKid) (s.goto i (.waiting missingKid))
  | returns {i second third : ℕ} {built : Bool} {missingKid : Option String}
      {result : Option JwkSet} (free : s.holder = none) (stands : s.calls i = .waiting missingKid)
      (finds : s.entry.look missingKid s.now (s.now + second) = .returns result) :
      Takes s (.acquire i second third built)
        ({ s with now := s.now + second }.goto i (.done result))
  | starts {i second third : ℕ} {missingKid : Option String} {forced : Bool}
      (free : s.holder = none) (stands : s.calls i = .waiting missingKid)
      (finds : s.entry.look missingKid s.now (s.now + second) = .fetch forced) :
      Takes s (.acquire i second third true)
        (State.goto
          { s with
            now := s.now + second + third
            entry := s.entry.putOff (s.now + second + third)
            holder := some i }
          i (.asking forced s.entry.retryAfter))
  | unbuilt {i second third : ℕ} {missingKid : Option String} {forced : Bool}
      (free : s.holder = none) (stands : s.calls i = .waiting missingKid)
      (finds : s.entry.look missingKid s.now (s.now + second) = .fetch forced) :
      Takes s (.acquire i second third false)
        (State.finish { s with now := s.now + second + third } i (.done none)
          (s.entry.putOff (s.now + second + third)))
  | sends {i : ℕ} {forced : Bool} {previousRetry : Option ℕ}
      (stands : s.calls i = .asking forced previousRetry) :
      Takes s (.policy i true) (s.goto i (.sending forced))
  | denied {i : ℕ} {forced : Bool} {previousRetry : Option ℕ}
      (stands : s.calls i = .asking forced previousRetry) :
      Takes s (.policy i false)
        (s.finish i (.done none) { s.entry with retryAfter := previousRetry })
  | fails {i : ℕ} {response : Option Response} {forced : Bool}
      (stands : s.calls i = .sending forced) (keyless : keysOf response = none) :
      Takes s (.respond i response) (s.finish i (.done none) s.entry)
  | fetches {i : ℕ} {response : Option Response} {forced : Bool} {set : JwkSet}
      (stands : s.calls i = .sending forced) (keys : keysOf response = some set) :
      Takes s (.respond i response)
        (s.finish i (.done (some set)) (s.entry.renew s.now set forced))
  | leaves {i : ℕ} {missingKid : Option String} (stands : s.calls i = .waiting missingKid) :
      Takes s (.drop i) (s.goto i .dropped)
  | dropsAsking {i : ℕ} {forced : Bool} {previousRetry : Option ℕ}
      (stands : s.calls i = .asking forced previousRetry) :
      Takes s (.drop i) (s.finish i .dropped s.entry)
  | dropsSending {i : ℕ} {forced : Bool} (stands : s.calls i = .sending forced) :
      Takes s (.drop i) (s.finish i .dropped s.entry)

theorem takes_of_step {s s' : State} {label : Label} (taken : s.step label = some s') :
    Takes s label s' := by
  cases label with
  | pass duration =>
      cases taken
      exact .passes duration
  | begin i missingKid =>
      simp only [State.step] at taken
      split at taken
      · rename_i stands
        cases taken
        exact .begins stands
      · cases taken
  | acquire i second third built =>
      simp only [State.step] at taken
      split at taken
      · rename_i missingKid free stands
        split at taken
        · rename_i result finds
          cases taken
          exact .returns free stands finds
        · rename_i forced finds
          cases built with
          | true =>
              cases taken
              exact .starts free stands finds
          | false =>
              cases taken
              exact .unbuilt free stands finds
      · cases taken
  | policy i allowed =>
      simp only [State.step] at taken
      split at taken
      · rename_i forced previousRetry stands
        cases allowed with
        | true =>
            cases taken
            exact .sends stands
        | false =>
            cases taken
            exact .denied stands
      · cases taken
  | respond i response =>
      simp only [State.step] at taken
      split at taken
      · rename_i forced stands
        split at taken
        · rename_i keyless
          cases taken
          exact .fails stands keyless
        · rename_i set keys
          cases taken
          exact .fetches stands keys
      · cases taken
  | drop i =>
      simp only [State.step] at taken
      split at taken
      · rename_i missingKid stands
        cases taken
        exact .leaves stands
      · rename_i forced previousRetry stands
        cases taken
        exact .dropsAsking stands
      · rename_i forced stands
        cases taken
        exact .dropsSending stands
      · cases taken

/-! ## What happened in a run -/

/-- The call looks at the entry. -/
def Looks (e : Event State Label) (i : ℕ) : Prop :=
  ∃ second third built, e.label = .acquire i second third built

/-- The call starts a fetch, when the clock shows `e.after.now`. -/
def Starts (e : Event State Label) (i : ℕ) (forced : Bool) : Prop :=
  ∃ missingKid second third built, e.label = .acquire i second third built ∧
    e.before.calls i = .waiting missingKid ∧
    e.before.entry.look missingKid e.before.now (e.before.now + second) = .fetch forced

/-- The call looks for a key, or for any, and it is in the set that has not expired. -/
def Hits (e : Event State Label) (i : ℕ) (set : JwkSet) : Prop :=
  Looks e i ∧ ∃ missingKid, e.before.calls i = .waiting missingKid ∧
    e.before.entry.unexpired e.before.now = some set ∧
    ∀ kid, missingKid = some kid → (set.find kid).isSome = true

/-- The fetch of the call was sent, and failed. -/
def Fails (e : Event State Label) (i : ℕ) : Prop :=
  ∃ response, e.label = .respond i response ∧ keysOf response = none

/-- A fetch ends with a set. -/
def Renews (e : Event State Label) : Prop :=
  ∃ i response set, e.label = .respond i response ∧ keysOf response = some set

/-- The outbound policy denies the fetch of the call. -/
def Denies (e : Event State Label) (i : ℕ) : Prop := e.label = .policy i false

/-- The fetch that `e` started for the call was sent and failed, or was forced by an unknown key
id. A fetch that is denied does not count. -/
def Counts (events : List (Event State Label)) (e : Event State Label) (i : ℕ) : Prop :=
  ∃ forced, Starts e i forced ∧
    ((∃ e' ∈ events, Fails e' i) ∨ forced = true ∧ ¬ ∃ e' ∈ events, Denies e' i)

theorem Starts.looks {e : Event State Label} {i : ℕ} {forced : Bool}
    (starts : Starts e i forced) : Looks e i :=
  let ⟨_, second, third, built, label, _⟩ := starts
  ⟨second, third, built, label⟩

theorem Starts.unique {e : Event State Label} {i : ℕ} {forced forced' : Bool}
    (starts : Starts e i forced) (starts' : Starts e i forced') : forced = forced' := by
  obtain ⟨_, _, _, _, called, stands, finds⟩ := starts
  obtain ⟨_, _, _, _, called', stands', finds'⟩ := starts'
  cases called.symm.trans called'
  cases stands.symm.trans stands'
  cases finds.symm.trans finds'
  rfl

theorem Looks.call {e : Event State Label} {i : ℕ} (looks : Looks e i) :
    e.label.call = some i := by
  obtain ⟨_, _, _, label⟩ := looks
  rw [label]
  rfl

theorem Fails.call {e : Event State Label} {i : ℕ} (fails : Fails e i) :
    e.label.call = some i := by
  obtain ⟨_, label, _⟩ := fails
  rw [label]
  rfl

theorem Denies.call {e : Event State Label} {i : ℕ} (denies : Denies e i) :
    e.label.call = some i := by
  rw [denies]
  rfl

theorem Fails.not_looks {e : Event State Label} {i j : ℕ} (fails : Fails e i) : ¬ Looks e j := by
  obtain ⟨_, label, _⟩ := fails
  rintro ⟨_, _, _, looks⟩
  cases label.symm.trans looks

/-- A fetch that counts after one more step counted before, or the step is the start of the fetch
or its failure. -/
theorem Counts.cases {events : List (Event State Label)} {e e₀ : Event State Label} {i : ℕ}
    (counts : Counts (e :: events) e₀ i) :
    Counts events e₀ i ∨ Fails e i ∧ ∃ forced, Starts e₀ i forced := by
  obtain ⟨forced, starts, ⟨e', member, fails⟩ | ⟨isForced, allowed⟩⟩ := counts
  · rcases List.mem_cons.mp member with rfl | older
    · exact .inr ⟨fails, forced, starts⟩
    · exact .inl ⟨forced, starts, .inl ⟨e', older, fails⟩⟩
  · refine .inl ⟨forced, starts, .inr ⟨isForced, fun ⟨e', older, denies⟩ => ?_⟩⟩
    exact allowed ⟨e', List.mem_cons_of_mem _ older, denies⟩

/-! ## What a run keeps -/

variable {events : List (Event State Label)} {s s' : State} {i : ℕ}

/-- The call is in the fetch that `e₀` started, and no call has looked at the entry since. -/
structure Fetching (events : List (Event State Label)) (s : State) (i : ℕ) (forced : Bool)
    (e₀ : Event State Label) : Prop where
  holds : s.holder = some i
  unfailed : ∀ e ∈ events, ¬ Fails e i
  starts : Starts e₀ i forced
  alone : ∃ since earlier, events = since ++ e₀ :: earlier ∧ (∀ e ∈ since, ∀ j, ¬ Looks e j) ∧
    ∀ e ∈ earlier, ∀ forced, ¬ Starts e i forced
  entry : s.entry = e₀.before.entry.putOff e₀.after.now

/-- What is so at each point of a call. -/
def Pc.Fits (events : List (Event State Label)) (s : State) (i : ℕ) : Pc → Prop
  | idle | waiting _ => ∀ e ∈ events, (∀ forced, ¬ Starts e i forced) ∧ ¬ Fails e i
  | asking forced previousRetry => ∃ e₀, Fetching events s i forced e₀ ∧
      previousRetry = e₀.before.entry.retryAfter
  | sending forced => ∃ e₀, Fetching events s i forced e₀
  | done _ | dropped => True

/-- No fetch starts before this time. -/
def Bounded (s : State) (time : ℕ) : Prop :=
  time ≤ s.now ∨ ∃ deadline, s.entry.retryAfter = some deadline ∧ time ≤ deadline

/-- A bound is kept while the clock goes on. -/
theorem Bounded.mono {time : ℕ} (bounded : Bounded s time) (later : s.now ≤ s'.now)
    (retry : s'.entry.retryAfter = s.entry.retryAfter) : Bounded s' time := by
  rcases bounded with ended | ⟨deadline, stamped, within⟩
  · exact .inl (Nat.le_trans ended later)
  · exact .inr ⟨deadline, retry.trans stamped, within⟩

/-- The cooldowns that count are over or in the entry. While a call fetches, those of all other
calls are over. -/
structure Throttles (events : List (Event State Label)) (s : State) : Prop where
  fits : ∀ i, (s.calls i).Fits events s i
  bounded : ∀ e₀ ∈ events, ∀ i, Counts events e₀ i →
    Bounded s (e₀.after.now + jwksRefreshCooldown)
  held : ∀ i, s.holder = some i → ∀ e₀ ∈ events, ∀ j ≠ i, Counts events e₀ j →
    e₀.after.now + jwksRefreshCooldown ≤ s.now

namespace Fetching

variable {forced : Bool} {e e₀ : Event State Label}

theorem retryAfter (fetching : Fetching events s i forced e₀) :
    s.entry.retryAfter = some (e₀.after.now + jwksRefreshCooldown) := by
  rw [fetching.entry]
  rfl

/-- A call starts one fetch. -/
theorem eq_of_starts (fetching : Fetching events s i forced e₀) (member : e ∈ events)
    {forced' : Bool} (starts : Starts e i forced') : e = e₀ := by
  obtain ⟨since, earlier, rfl, quiet, first⟩ := fetching.alone
  rcases List.mem_append.mp member with later | before
  · exact absurd starts.looks (quiet e later i)
  · rcases List.mem_cons.mp before with same | older
    · exact same
    · exact absurd starts (first e older forced')

/-- A step that leaves the entry and its lock alone. -/
theorem cons (fetching : Fetching events s i forced e₀) (unfailed : ¬ Fails e i)
    (quiet : ∀ j, ¬ Looks e j) (holder : s'.holder = s.holder) (entry : s'.entry = s.entry) :
    Fetching (e :: events) s' i forced e₀ where
  holds := holder.trans fetching.holds
  unfailed e' member := by
    rcases List.mem_cons.mp member with rfl | older
    · exact unfailed
    · exact fetching.unfailed e' older
  starts := fetching.starts
  alone := by
    obtain ⟨since, earlier, rfl, unseen, first⟩ := fetching.alone
    refine ⟨e :: since, earlier, rfl, fun e' member => ?_, first⟩
    rcases List.mem_cons.mp member with rfl | later
    · exact quiet
    · exact unseen e' later
  entry := entry.trans fetching.entry

end Fetching

/-- Who fetches has the lock. -/
theorem Pc.Fits.holds {pc : Pc} (fits : pc.Fits events s i)
    (fetches : (∃ forced previousRetry, pc = .asking forced previousRetry) ∨
      ∃ forced, pc = .sending forced) : s.holder = some i := by
  rcases fetches with ⟨forced, previousRetry, rfl⟩ | ⟨forced, rfl⟩
  · obtain ⟨e₀, fetching, _⟩ := fits
    exact fetching.holds
  · obtain ⟨e₀, fetching⟩ := fits
    exact fetching.holds

/-- A step of another call. -/
theorem Pc.Fits.cons {pc : Pc} {e : Event State Label} (fits : pc.Fits events s i)
    (other : e.label.call ≠ some i)
    (quiet : s.holder = some i →
      (∀ j, ¬ Looks e j) ∧ s'.holder = s.holder ∧ s'.entry = s.entry) :
    pc.Fits (e :: events) s' i := by
  have fresh : (∀ e' ∈ events, (∀ forced, ¬ Starts e' i forced) ∧ ¬ Fails e' i) →
      ∀ e' ∈ e :: events, (∀ forced, ¬ Starts e' i forced) ∧ ¬ Fails e' i := by
    intro before e' member
    rcases List.mem_cons.mp member with rfl | older
    · exact ⟨fun _ starts => other starts.looks.call, fun fails => other fails.call⟩
    · exact before e' older
  cases pc with
  | idle | waiting => exact fresh fits
  | asking =>
      obtain ⟨e₀, fetching, previous⟩ := fits
      obtain ⟨unseen, holder, entry⟩ := quiet fetching.holds
      exact ⟨e₀, fetching.cons (fun fails => other fails.call) unseen holder entry, previous⟩
  | sending =>
      obtain ⟨e₀, fetching⟩ := fits
      obtain ⟨unseen, holder, entry⟩ := quiet fetching.holds
      exact ⟨e₀, fetching.cons (fun fails => other fails.call) unseen holder entry⟩
  | done | dropped => trivial

namespace Throttles

variable {label : Label}

theorem initial (start : ℕ) : Throttles [] (.initial start) where
  fits _ _ member := by cases member
  bounded _ member := by cases member
  held _ _ _ member := by cases member

theorem holds (throttles : Throttles events s)
    (fetches : (∃ forced previousRetry, s.calls i = .asking forced previousRetry) ∨
      ∃ forced, s.calls i = .sending forced) : s.holder = some i :=
  (throttles.fits i).holds fetches

/-- A step leaves the other calls where they are, and does not touch the entry of the one that
has the lock. -/
theorem others (throttles : Throttles events s) (takes : Takes s label s')
    (other : label.call ≠ some i) :
    s'.calls i = s.calls i ∧ (s.holder = some i →
      (∀ j, ¬ Looks ⟨s, label, s'⟩ j) ∧ s'.holder = s.holder ∧ s'.entry = s.entry) := by
  have unseen : ∀ {label : Label} {s' : State}, (∀ j second third built,
      label ≠ .acquire j second third built) → ∀ j, ¬ Looks ⟨s, label, s'⟩ j :=
    fun differs j ⟨_, _, _, looks⟩ => differs j _ _ _ looks
  have apart : ∀ {j}, label.call = some j → i ≠ j := fun called same =>
    other (same ▸ called)
  -- whoever ends a fetch has the lock
  have taken : ∀ {j}, s.holder = some j → i ≠ j → s.holder ≠ some i :=
    fun holds differs same => differs (Option.some.inj (same.symm.trans holds))
  cases takes with
  | passes => exact ⟨rfl, fun _ => ⟨unseen (by rintro _ _ _ _ ⟨⟩), rfl, rfl⟩⟩
  | begins | sends | leaves =>
      exact ⟨State.goto_calls_of_ne _ _ (apart rfl), fun _ =>
        ⟨unseen (by rintro _ _ _ _ ⟨⟩), rfl, rfl⟩⟩
  | returns free | starts free =>
      refine ⟨State.goto_calls_of_ne _ _ (apart rfl), fun holds => ?_⟩
      rw [free] at holds
      cases holds
  | unbuilt free =>
      refine ⟨State.finish_calls_of_ne _ _ _ (apart rfl), fun holds => ?_⟩
      rw [free] at holds
      cases holds
  | denied stands | dropsAsking stands =>
      exact ⟨State.finish_calls_of_ne _ _ _ (apart rfl), fun holds =>
        absurd holds (taken (throttles.holds (.inl ⟨_, _, stands⟩)) (apart rfl))⟩
  | fails stands | fetches stands | dropsSending stands =>
      exact ⟨State.finish_calls_of_ne _ _ _ (apart rfl), fun holds =>
        absurd holds (taken (throttles.holds (.inr ⟨_, stands⟩)) (apart rfl))⟩

/-- Before a call looks at the entry it has done nothing. -/
theorem fresh (throttles : Throttles events s) {missingKid : Option String}
    (stands : s.calls i = .waiting missingKid) :
    ∀ e ∈ events, (∀ forced, ¬ Starts e i forced) ∧ ¬ Fails e i := by
  have fits := throttles.fits i
  rw [stands] at fits
  exact fits

theorem fetching_of_asking (throttles : Throttles events s) {forced : Bool}
    {previousRetry : Option ℕ} (stands : s.calls i = .asking forced previousRetry) :
    ∃ e₀, Fetching events s i forced e₀ ∧ previousRetry = e₀.before.entry.retryAfter := by
  have fits := throttles.fits i
  rw [stands] at fits
  exact fits

theorem fetching_of_sending (throttles : Throttles events s) {forced : Bool}
    (stands : s.calls i = .sending forced) : ∃ e₀, Fetching events s i forced e₀ := by
  have fits := throttles.fits i
  rw [stands] at fits
  exact fits

theorem fits_step (throttles : Throttles events s) (takes : Takes s label s') (j : ℕ) :
    (s'.calls j).Fits (⟨s, label, s'⟩ :: events) s' j := by
  by_cases called : label.call = some j
  · cases takes with
    | passes => cases called
    | begins stands =>
        cases called
        rw [State.goto_calls_self]
        have fits := throttles.fits j
        rw [stands] at fits
        intro e member
        rcases List.mem_cons.mp member with rfl | older
        · constructor
          · rintro _ ⟨_, _, _, _, starts, _⟩
            cases starts
          · rintro ⟨_, fails, _⟩
            cases fails
        · exact fits e older
    | returns | leaves =>
        cases called
        rw [State.goto_calls_self]
        trivial
    | @starts _ second third missingKid forced free stands finds =>
        cases called
        rw [State.goto_calls_self]
        have before := throttles.fresh stands
        refine ⟨_, ⟨rfl, ?_, ⟨missingKid, second, third, true, rfl, stands, finds⟩,
          ⟨[], events, rfl, ?_, fun e older => (before e older).1⟩, rfl⟩, rfl⟩
        · intro e member
          rcases List.mem_cons.mp member with rfl | older
          · rintro ⟨_, fails, _⟩
            cases fails
          · exact (before e older).2
        · intro e member
          cases member
    | sends stands =>
        cases called
        rw [State.goto_calls_self]
        obtain ⟨e₀, fetching, _⟩ := throttles.fetching_of_asking stands
        refine ⟨e₀, fetching.cons ?_ ?_ rfl rfl⟩
        · rintro ⟨_, fails, _⟩
          cases fails
        · rintro _ ⟨_, _, _, looks⟩
          cases looks
    | unbuilt | denied | fails | fetches | dropsAsking | dropsSending =>
        cases called
        rw [State.finish_calls_self]
        trivial
  · obtain ⟨same, quiet⟩ := throttles.others takes called
    rw [same]
    exact (throttles.fits j).cons called quiet

/-- When a call starts a fetch, all cooldowns that count are over. -/
theorem over_of_look (throttles : Throttles events s) {missingKid : Option String}
    {second : ℕ} {forced : Bool}
    (finds : s.entry.look missingKid s.now (s.now + second) = .fetch forced)
    {e₀ : Event State Label} (member : e₀ ∈ events) {j : ℕ} (counts : Counts events e₀ j) :
    e₀.after.now + jwksRefreshCooldown ≤ s.now + second := by
  rcases throttles.bounded e₀ member j counts with ended | ⟨deadline, stamped, within⟩
  · omega
  · have := CachedClientJwks.retry_le_of_look finds stamped
    omega

/-- The fetch that starts now is the first that the new cooldown covers. -/
theorem bounded_of_starts (takes : Takes s label s') {forced : Bool}
    (starts : Starts ⟨s, label, s'⟩ i forced) : Bounded s' (s'.now + jwksRefreshCooldown) := by
  obtain ⟨missingKid, second, third, built, called, stands, finds⟩ := starts
  cases takes with
  | returns _ stands' finds' =>
      cases called
      cases stands.symm.trans stands'
      cases finds.symm.trans finds'
  | starts | unbuilt => exact .inr ⟨_, rfl, Nat.le_refl _⟩
  | _ => cases called

theorem bounded_step (throttles : Throttles events s) (takes : Takes s label s')
    {e₀ : Event State Label} (member : e₀ ∈ ⟨s, label, s'⟩ :: events) {j : ℕ}
    (counts : Counts (⟨s, label, s'⟩ :: events) e₀ j) :
    Bounded s' (e₀.after.now + jwksRefreshCooldown) := by
  rcases List.mem_cons.mp member with rfl | older
  · obtain ⟨forced, starts, _⟩ := counts
    exact bounded_of_starts takes starts
  rcases counts.cases with before | ⟨fails, forced', starts⟩
  · have bounded := throttles.bounded e₀ older j before
    cases takes with
    | passes | returns => exact bounded.mono (Nat.le_add_right ..) rfl
    | begins | sends | fails | leaves | dropsAsking | dropsSending =>
        exact bounded.mono (Nat.le_refl _) rfl
    | starts _ _ finds | unbuilt _ _ finds =>
        exact .inl (Nat.le_trans (throttles.over_of_look finds older before)
          (Nat.le_add_right ..))
    | @denied i _ _ stands =>
        obtain ⟨_, fetching, _⟩ := throttles.fetching_of_asking stands
        by_cases same : j = i
        · -- the fetch is the one that is denied
          subst same
          obtain ⟨_, _, ⟨e, member, fails⟩ | ⟨_, allowed⟩⟩ := counts
          · rcases List.mem_cons.mp member with rfl | older
            · obtain ⟨_, fails, _⟩ := fails
              cases fails
            · exact absurd fails (fetching.unfailed e older)
          · exact absurd ⟨_, List.mem_cons_self .., rfl⟩ allowed
        · exact .inl (throttles.held i fetching.holds e₀ older j same before)
    | @fetches i _ forced _ stands =>
        obtain ⟨e, fetching⟩ := throttles.fetching_of_sending stands
        by_cases same : j = i
        · subst same
          obtain ⟨forced', starts, ⟨e', older', fails⟩ | ⟨isForced, _⟩⟩ := before
          · exact absurd fails (fetching.unfailed e' older')
          · cases fetching.eq_of_starts older starts
            -- only a fetch that was not forced ends the cooldown
            cases isForced
            cases starts.unique fetching.starts
            exact .inr ⟨_, fetching.retryAfter, Nat.le_refl _⟩
        · exact .inl (throttles.held i fetching.holds e₀ older j same before)
  · cases takes with
    | @fails i _ _ stands =>
        cases fails.call
        obtain ⟨e, fetching⟩ := throttles.fetching_of_sending stands
        cases fetching.eq_of_starts older starts
        exact .inr ⟨_, fetching.retryAfter, Nat.le_refl _⟩
    | fetches _ keys =>
        obtain ⟨_, called, keyless⟩ := fails
        cases called
        cases keys.symm.trans keyless
    | _ =>
        obtain ⟨_, called, _⟩ := fails
        cases called

theorem held_step (throttles : Throttles events s) (takes : Takes s label s')
    (holds : s'.holder = some i) {e₀ : Event State Label}
    (member : e₀ ∈ ⟨s, label, s'⟩ :: events) {j : ℕ} (other : j ≠ i)
    (counts : Counts (⟨s, label, s'⟩ :: events) e₀ j) :
    e₀.after.now + jwksRefreshCooldown ≤ s'.now := by
  rcases List.mem_cons.mp member with rfl | older
  · obtain ⟨forced, starts, _⟩ := counts
    obtain ⟨_, _, _, _, called, _⟩ := starts
    cases takes with
    | returns free => cases free.symm.trans holds
    | starts =>
        cases called
        exact absurd (Option.some.inj holds) other
    | unbuilt => cases holds
    | _ => cases called
  rcases counts.cases with before | ⟨fails, _⟩
  · cases takes with
    | passes =>
        exact Nat.le_trans (throttles.held i holds e₀ older j other before) (Nat.le_add_right ..)
    | begins | sends | leaves => exact throttles.held i holds e₀ older j other before
    | returns free => cases free.symm.trans holds
    | starts _ _ finds =>
        exact Nat.le_trans (throttles.over_of_look finds older before) (Nat.le_add_right ..)
    | unbuilt | denied | fails | fetches | dropsAsking | dropsSending => cases holds
  · obtain ⟨_, called, _⟩ := fails
    cases takes with
    | fails | fetches => cases holds
    | _ => cases called

/-- **A step keeps the cooldowns.** -/
theorem step (throttles : Throttles events s) (takes : Takes s label s') :
    Throttles (⟨s, label, s'⟩ :: events) s' where
  fits := throttles.fits_step takes
  bounded _ member _ counts := throttles.bounded_step takes member counts
  held _ holds _ member _ other counts := throttles.held_step takes holds member other counts

end Throttles

/-! ## Any run -/

/-- What holds of the calls for one URL. -/
structure Throttled (events : List (Event State Label)) (s : State) : Prop where
  /-- After a fetch that was sent and failed, or was forced by an unknown key id, the next one
  starts at least the cooldown later than this one started. -/
  spaced : ∀ later e earlier, events = later ++ e :: earlier → ∀ j forced, Starts e j forced →
    ∀ e₀ ∈ earlier, ∀ i, Counts events e₀ i →
      e₀.after.now + jwksRefreshCooldown ≤ e.after.now
  /-- A call whose key is in the set that has not expired gets the set, and never fetches. -/
  hit : ∀ e ∈ events, ∀ i set, Hits e i set →
    e.after.calls i = .done (some set) ∧ e.after.entry = e.before.entry ∧
      ∀ e' ∈ events, ∀ forced, ¬ Starts e' i forced
  /-- After a fetch that failed the keys are where they were until other keys are fetched. Until
  they expire they are what every call gets that does not fetch, and each fetch is forced. -/
  kept : ∀ later e earlier, events = later ++ e :: earlier → ∀ i, Fails e i →
    ∀ fetched set, e.before.entry.current = some (fetched, set) → (∀ e' ∈ later, ¬ Renews e') →
      s.entry.current = some (fetched, set) ∧ ∀ e' ∈ later, ∀ j, Looks e' j →
        e'.before.now < fetched + jwksTtl →
          e'.after.calls j = .done (some set) ∨ Starts e' j true
  /-- A call whose fetch is denied leaves the entry as it found it, and no other call looked at
  the entry in between. -/
  denied : ∀ later e earlier, events = later ++ e :: earlier → ∀ i, Denies e i →
    ∃ since e₀ before forced, earlier = since ++ e₀ :: before ∧ Starts e₀ i forced ∧
      (∀ e' ∈ since, ∀ j, ¬ Looks e' j) ∧ e.after.entry = e₀.before.entry

theorem throttles_of_calls {start : ℕ} (run : Calls start events s) : Throttles events s :=
  run.invariant (.initial start) fun _ _ _ _ _ _ taken throttles =>
    throttles.step (takes_of_step taken)

section

variable {start : ℕ} {later earlier : List (Event State Label)} {e : Event State Label}

/-- A step of a run, and the run before it. -/
theorem takes_of_calls (run : Calls start (later ++ e :: earlier) s) :
    Calls start earlier e.before ∧ Takes e.before e.label e.after ∧
      Calls start (e :: earlier) e.after := by
  obtain ⟨s₁, run₁⟩ := run.earlier
  obtain ⟨before, _, taken, rfl⟩ := run₁.last
  exact ⟨before, takes_of_step taken, run₁⟩

/-- A call that is over stays so. -/
theorem Takes.stays {label : Label} (takes : Takes s label s') (ended : (s.calls i).Over) :
    s'.calls i = s.calls i := by
  have differs : ∀ {j pc}, s.calls j = pc → ¬ pc.Over → i ≠ j := by
    rintro j pc stands not_over rfl
    exact not_over (stands ▸ ended)
  cases takes with
  | passes => rfl
  | begins stands | returns _ stands | starts _ stands | sends stands | leaves stands =>
      exact State.goto_calls_of_ne _ _ (differs stands id)
  | unbuilt _ stands | denied stands | fails stands | fetches stands | dropsAsking stands
  | dropsSending stands => exact State.finish_calls_of_ne _ _ _ (differs stands id)

/-- Once over, a call is over at every later step. -/
theorem over_of_calls (run : Calls start (later ++ e :: earlier) s)
    (ended : (e.after.calls i).Over) {e' : Event State Label} (member : e' ∈ later) :
    (e'.before.calls i).Over ∧ Takes e'.before e'.label e'.after := by
  obtain ⟨newer, older, rfl⟩ := List.append_of_mem member
  rw [List.append_assoc, List.cons_append] at run
  obtain ⟨before, takes, _⟩ := takes_of_calls run
  obtain ⟨s₁, run₁, stays⟩ := before.related
    (r := fun s s' => (s.calls i).Over → s'.calls i = s.calls i) (fun _ _ => rfl)
    (fun _ _ _ first second ended => by
      have same := first ended
      exact (second (same ▸ ended)).trans same)
    fun _ _ _ _ _ _ taken => (takes_of_step taken).stays
  obtain ⟨_, _, _, rfl⟩ := run₁.last
  exact ⟨stays ended ▸ ended, takes⟩

/-- A call that looked at the entry is over when the lock is free. -/
theorem over_of_starts (run : Calls start earlier s) (free : s.holder = none)
    {e₀ : Event State Label} (member : e₀ ∈ earlier) {forced : Bool}
    (starts : Starts e₀ i forced) : (s.calls i).Over := by
  have throttles := throttles_of_calls run
  cases stands : s.calls i with
  | idle =>
      have fits := throttles.fits i
      rw [stands] at fits
      exact absurd starts ((fits e₀ member).1 forced)
  | waiting => exact absurd starts ((throttles.fresh stands e₀ member).1 forced)
  | asking => cases free.symm.trans (throttles.holds (.inl ⟨_, _, stands⟩))
  | sending => cases free.symm.trans (throttles.holds (.inr ⟨_, stands⟩))
  | done | dropped => trivial

/-- A fetch starts while the lock is free, after a look that finds the cooldown over. -/
theorem Takes.of_starts {label : Label} (takes : Takes s label s') {forced : Bool}
    (starts : Starts ⟨s, label, s'⟩ i forced) : s.holder = none ∧ ∃ missingKid second,
      s.entry.look missingKid s.now (s.now + second) = .fetch forced ∧
      s.now + second ≤ s'.now := by
  obtain ⟨missingKid, second, third, built, called, stands, finds⟩ := starts
  cases takes with
  | returns _ stands' finds' =>
      cases called
      cases stands.symm.trans stands'
      cases finds.symm.trans finds'
  | starts free | unbuilt free =>
      cases called
      exact ⟨free, missingKid, second, finds, Nat.le_add_right ..⟩
  | _ => cases called

theorem Takes.of_fails {label : Label} (takes : Takes s label s')
    (fails : Fails ⟨s, label, s'⟩ i) : ∃ forced, s.calls i = .sending forced := by
  obtain ⟨response, called, _⟩ := fails
  cases takes with
  | fails stands | fetches stands =>
      cases called
      exact ⟨_, stands⟩
  | _ => cases called

/-- A fetch that failed at any time failed before the next one starts. -/
theorem counts_of_starts (run : Calls start (later ++ e :: earlier) s) {j : ℕ} {forced : Bool}
    (starts : Starts e j forced) {e₀ : Event State Label} (member : e₀ ∈ earlier)
    (counts : Counts (later ++ e :: earlier) e₀ i) : Counts earlier e₀ i := by
  obtain ⟨before, takes, _⟩ := takes_of_calls run
  obtain ⟨forced₀, starts₀, ⟨e', member', fails⟩ | ⟨isForced, allowed⟩⟩ := counts
  · refine ⟨forced₀, starts₀, .inl ⟨e', ?_, fails⟩⟩
    rcases List.mem_append.mp member' with newer | older
    · have ended := over_of_starts before (takes.of_starts starts).1 member starts₀
      obtain ⟨still, takes'⟩ := over_of_calls run ((takes.stays ended).symm ▸ ended) newer
      obtain ⟨_, sending⟩ := takes'.of_fails fails
      rw [sending] at still
      exact still.elim
    · rcases List.mem_cons.mp older with rfl | oldest
      · exact absurd starts.looks fails.not_looks
      · exact oldest
  · refine ⟨forced₀, starts₀, .inr ⟨isForced, fun ⟨e', older, denies⟩ => allowed ⟨e', ?_, denies⟩⟩⟩
    exact List.mem_append_right _ (List.mem_cons_of_mem _ older)

theorem spaced_of_calls (run : Calls start (later ++ e :: earlier) s) {j : ℕ} {forced : Bool}
    (starts : Starts e j forced) {e₀ : Event State Label} (member : e₀ ∈ earlier)
    (counts : Counts (later ++ e :: earlier) e₀ i) :
    e₀.after.now + jwksRefreshCooldown ≤ e.after.now := by
  obtain ⟨before, takes, _⟩ := takes_of_calls run
  obtain ⟨_, missingKid, second, finds, within⟩ := takes.of_starts starts
  exact Nat.le_trans ((throttles_of_calls before).over_of_look finds member
    (counts_of_starts run starts member counts)) within

theorem Takes.of_hits {label : Label} {set : JwkSet} (takes : Takes s label s')
    (hits : Hits ⟨s, label, s'⟩ i set) :
    s'.calls i = .done (some set) ∧ s'.entry = s.entry := by
  obtain ⟨⟨second, third, built, called⟩, missingKid, stands, current, found⟩ := hits
  have finds := CachedClientJwks.look_of_find current found
  cases takes with
  | returns _ stands' finds' =>
      cases called
      cases stands.symm.trans stands'
      cases (finds _).symm.trans finds'
      exact ⟨State.goto_calls_self .., rfl⟩
  | starts _ stands' finds' | unbuilt _ stands' finds' =>
      cases called
      cases stands.symm.trans stands'
      cases (finds _).symm.trans finds'
  | _ => cases called

/-- A call that finds its key does so at its only look. -/
theorem not_starts_of_hits (run : Calls start (later ++ e :: earlier) s) {set : JwkSet}
    (hits : Hits e i set) {e' : Event State Label} (member : e' ∈ later ++ e :: earlier)
    {forced : Bool} : ¬ Starts e' i forced := by
  obtain ⟨before, takes, _⟩ := takes_of_calls run
  have returned := (takes.of_hits hits).1
  rcases List.mem_append.mp member with newer | older
  · rintro ⟨missingKid, _, _, _, _, stands, _⟩
    have ended : (e.after.calls i).Over := by
      rw [returned]
      trivial
    have still := (over_of_calls run ended newer).1
    rw [stands] at still
    exact still.elim
  obtain ⟨_, missingKid, stands, current, found⟩ := hits
  rcases List.mem_cons.mp older with rfl | oldest
  · rintro ⟨_, _, _, _, _, stands', finds⟩
    cases stands.symm.trans stands'
    cases (CachedClientJwks.look_of_find current found _).symm.trans finds
  · exact ((throttles_of_calls before).fresh stands e' oldest).1 forced

theorem Takes.current {label : Label} (takes : Takes s label s')
    (quiet : ¬ Renews ⟨s, label, s'⟩) : s'.entry.current = s.entry.current := by
  cases takes with
  | fetches _ keys => exact absurd ⟨_, _, _, rfl, keys⟩ quiet
  | _ => rfl

/-- The cached keys stay until others are fetched. -/
theorem current_of_calls (run : Calls start (later ++ e :: earlier) s)
    (quiet : ∀ e' ∈ later, ¬ Renews e') : s.entry.current = e.after.entry.current := by
  induction later generalizing s with
  | nil =>
      obtain ⟨_, _, _, rfl⟩ := run.last
      rfl
  | cons e' later ih =>
      obtain ⟨before, _, taken, rfl⟩ := run.last
      exact ((takes_of_step taken).current (quiet e' (List.mem_cons_self ..))).trans
        (ih before fun e'' member => quiet e'' (List.mem_cons_of_mem _ member))

/-- With a set that has not expired a look ends with the set or starts a forced fetch. -/
theorem Takes.of_looks {label : Label} {set : JwkSet} (takes : Takes s label s')
    (looks : Looks ⟨s, label, s'⟩ i) (current : s.entry.unexpired s.now = some set) :
    s'.calls i = .done (some set) ∨ Starts ⟨s, label, s'⟩ i true := by
  obtain ⟨second, third, built, called⟩ := looks
  cases takes with
  | returns _ _ finds =>
      cases called
      cases CachedClientJwks.result_of_look current finds
      exact .inl (State.goto_calls_self ..)
  | starts _ stands finds | unbuilt _ stands finds =>
      cases called
      cases CachedClientJwks.forced_of_look current finds
      exact .inr ⟨_, _, _, _, rfl, stands, finds⟩
  | _ => cases called

theorem kept_of_calls (run : Calls start (later ++ e :: earlier) s) (fails : Fails e i)
    {fetched : ℕ} {set : JwkSet} (current : e.before.entry.current = some (fetched, set))
    (quiet : ∀ e' ∈ later, ¬ Renews e') :
    s.entry.current = some (fetched, set) ∧ ∀ e' ∈ later, ∀ j, Looks e' j →
      e'.before.now < fetched + jwksTtl →
        e'.after.calls j = .done (some set) ∨ Starts e' j true := by
  have unchanged : e.after.entry.current = some (fetched, set) := by
    obtain ⟨response, called, keyless⟩ := fails
    refine ((takes_of_calls run).2.1.current ?_).trans current
    rintro ⟨_, _, _, called', keys⟩
    cases called.symm.trans called'
    cases keyless.symm.trans keys
  refine ⟨(current_of_calls run quiet).trans unchanged, fun e' member j looks young => ?_⟩
  obtain ⟨newer, older, rfl⟩ := List.append_of_mem member
  rw [List.append_assoc, List.cons_append] at run
  obtain ⟨before, takes, _⟩ := takes_of_calls run
  have held := (current_of_calls before fun e'' member => quiet e''
    (List.mem_append_right _ (List.mem_cons_of_mem _ member))).trans unchanged
  exact takes.of_looks looks (CachedClientJwks.unexpired_of_lt held young)

/-- A denied fetch leaves no trace in the entry. -/
theorem denied_of_takes (throttles : Throttles events s) {label : Label}
    (takes : Takes s label s') (denies : Denies ⟨s, label, s'⟩ i) :
    ∃ since e₀ before forced, events = since ++ e₀ :: before ∧ Starts e₀ i forced ∧
      (∀ e' ∈ since, ∀ j, ¬ Looks e' j) ∧ s'.entry = e₀.before.entry := by
  cases takes with
  | denied stands =>
      cases denies
      obtain ⟨e₀, fetching, rfl⟩ := throttles.fetching_of_asking stands
      obtain ⟨since, before, split, unseen, _⟩ := fetching.alone
      refine ⟨since, e₀, before, _, split, fetching.starts, unseen, ?_⟩
      simp only [State.finish, fetching.entry, CachedClientJwks.putOff]
  | _ => cases denies

end

/-- **Fetches are throttled, and never lose good keys.** In any run of calls for one URL, a fetch
that failed or was forced is followed by no other before the cooldown is over; who finds its key
in a set that has not expired does not fetch; a failed fetch takes no keys away; and a fetch that
is denied changes nothing. -/
theorem refreshes_are_throttled {start : ℕ} {events : List (Event State Label)} {s : State}
    (run : Calls start events s) : Throttled events s where
  spaced later e earlier split _ _ starts _ member _ counts := by
    subst split
    exact spaced_of_calls run starts member counts
  hit e member i set hits := by
    obtain ⟨later, earlier, rfl⟩ := List.append_of_mem member
    obtain ⟨returned, same⟩ := (takes_of_calls run).2.1.of_hits hits
    exact ⟨returned, same, fun _ member _ => not_starts_of_hits run hits member⟩
  kept later e earlier split _ fails _ _ current quiet := by
    subst split
    exact kept_of_calls run fails current quiet
  denied later e earlier split _ denies := by
    subst split
    obtain ⟨before, takes, _⟩ := takes_of_calls run
    exact denied_of_takes (throttles_of_calls before) takes denies

/-- Keys are fetched. An unknown key id forces a fetch, which fails, and the next call gets the
old keys. When the cooldown is over another fetch is forced, and it is denied. -/
def unknownKid : List Label :=
  [.begin 0 none, .acquire 0 0 0 true, .policy 0 true,
    .respond 0 (some ⟨true, 200, some [⟨some "a", []⟩]⟩),
    .begin 1 (some "b"), .acquire 1 0 0 true, .policy 1 true, .respond 1 none,
    .begin 2 (some "b"), .acquire 2 0 0 true, .pass jwksRefreshCooldown,
    .begin 3 (some "b"), .acquire 3 0 0 true, .policy 3 false]

theorem refreshes_are_throttled_forced : ∃ events s, s.now = jwksRefreshCooldown ∧
    s.calls 2 = .done (some [⟨some "a", []⟩]) ∧
    s.entry = ⟨some (0, [⟨some "a", []⟩]), some jwksRefreshCooldown⟩ ∧ Throttled events s := by
  obtain ⟨events, s, replayed, now, second, entry⟩ : ∃ events s,
      replay State.step (fun _ _ _ => true) unknownKid [] (.initial 0) = some (events, s) ∧
        s.now = jwksRefreshCooldown ∧ s.calls 2 = .done (some [⟨some "a", []⟩]) ∧
        s.entry = ⟨some (0, [⟨some "a", []⟩]), some jwksRefreshCooldown⟩ :=
    ⟨_, _, rfl, rfl, rfl, rfl⟩
  have run : Calls 0 events s :=
    .of_replay (fun _ _ _ => true) unknownKid (fun _ _ _ _ => trivial) .nil replayed
  exact ⟨events, s, now, second, entry, refreshes_are_throttled run⟩

end OAuthRelay.Assertions.KeySets
