import OAuthRelay.Memory.Store

/-!
# The in-process store refines the ideal map

The clock is read before the lock is taken. A call that has waited for the lock uses a clock
reading that may be older than the readings of calls that had the lock before it. Where the
record of its key has expired in between, the call still takes it for live, although another
call has found it expired; or it does not find it any more, because a sweep has removed it.

Unless that happens (`Timely`), the results of the calls are, in the order in which they take
the lock, those of the ideal map (`refines`). The memory and the map hold the same records but
for those that a sweep removed after their expiry (`Agrees`).
-/

set_option autoImplicit false

namespace OAuthRelay.Memory

open Interleaving Program
open Contract (Input)
open Kubernetes (Entry)

variable {Value : Type} [DecidableEq Value]

/-! ## The order of the locks -/

/-- A system of calls over one memory, and its steps. -/
abbrev State (Value : Type) := System (MemoryState Value) (Input Value) (Call Value)
abbrev Lbl (Value : Type) := Label (Input Value) ℕ Empty
abbrev Evt (Value : Type) := Event (MemoryState Value) (Input Value) (Call Value) ℕ Empty

/-- A call that took the lock: its number, what it was asked, its clock reading and result. -/
structure Locked (Value : Type) where
  call : ℕ
  input : Input Value
  now : ℕ
  outcome : Outcome Value
  deriving DecidableEq

/-- The event, if it takes the lock. -/
def locked? (e : Evt Value) : Option (Locked Value) :=
  match e.label with
  | .step i _ =>
      match e.before.threads[i]?, e.after.threads[i]? with
      | some ⟨_, .locking input now⟩, some ⟨_, .done outcome⟩ => some ⟨i, input, now, outcome⟩
      | _, _ => none
  | _ => none

/-- The calls that took the lock, the last one first. -/
def history (events : List (Evt Value)) : List (Locked Value) := events.filterMap locked?

/-- The ideal map after some calls. -/
def idealAfter : List (Locked Value) → Ideal Value
  | [] => .empty
  | l :: earlier => ((idealAfter earlier).serve l.now l.input).1

/-- The call writes a record under the key of its own. -/
def Stores (earlier : List (Locked Value)) (l : Locked Value) (key : String) : Prop :=
  l.input.key = key ∧ ((idealAfter earlier).writes l.now l.input).isSome = true

/-- A call has taken the lock with a clock reading past the expiry of the record that the key
has by now. -/
def Lapsed : List (Locked Value) → String → Prop
  | [], _ => False
  | l :: earlier, key => ¬ Stores earlier l key ∧
      (Lapsed earlier key ∨ ∃ record, idealAfter earlier key = some record ∧
        record.expires ≤ l.now)

/-- A call does not take the lock with a clock reading before the expiry of its key's record,
when another call has taken it with a reading past this expiry. -/
def Timely (events : List (Evt Value)) (s : State Value) (label : Lbl Value) : Prop :=
  ∀ i reading t input now, label = .step i reading → s.threads[i]? = some t →
    t.call = .locking input now → Lapsed (history events) input.key →
      ∀ record, idealAfter (history events) input.key = some record → record.expires ≤ now

/-- The calls take the lock in the order of their clock readings. -/
def InOrder (events : List (Evt Value)) (s : State Value) (label : Lbl Value) : Prop :=
  ∀ i reading t input now, label = .step i reading → s.threads[i]? = some t →
    t.call = .locking input now → ∀ l ∈ history events, l.now ≤ now

/-! ## What is claimed -/

/-- The result of an operation that has written. -/
def Outcome.won : Outcome Value → Bool
  | .put stored => stored
  | .swapped replaced => replaced
  | _ => false

/-- The call is a put under the key. -/
def Locked.puts (key : String) (l : Locked Value) : Bool :=
  match l.input with
  | .putIfAbsent other _ _ => decide (other = key)
  | _ => false

/-- The call is a swap of the expected value under the key. -/
def Locked.swaps (key : String) (expected : Value) (l : Locked Value) : Bool :=
  match l.input with
  | .compareAndSwap other value new _ =>
      decide (other = key) && decide (value = expected) && decide (new ≠ expected)
  | _ => false

/-- The call is a read, or is about another key. -/
def Locked.spares (key : String) (l : Locked Value) : Bool :=
  match l.input with
  | .get _ => true
  | input => decide (input.key ≠ key)

/-- The instant from which what the call writes is not live any more. -/
def Locked.until (l : Locked Value) : ℕ :=
  match l.input with
  | .putIfAbsent _ _ ttl => l.now + ttl
  | .compareAndSwap _ _ _ ttl => l.now + ttl
  | _ => l.now

/-- The store refines the ideal map. -/
structure Refines (events : List (Evt Value)) : Prop where
  /-- In the order of the locks, every result is that of the ideal map. -/
  ideal : ∀ later l earlier, history events = later ++ l :: earlier →
    l.outcome = ((idealAfter earlier).serve l.now l.input).2
  /-- Of puts under a key that has no live record, with nothing else that changes the key in
  between and no clock reading past what one of them writes, exactly one returns `true`. -/
  one_put : ∀ later stretch earlier key, history events = later ++ (stretch ++ earlier) →
    (∀ l ∈ stretch, (idealAfter earlier).live key l.now = none) →
    (∀ l ∈ stretch, l.puts key = true ∨ l.spares key = true) →
    (∀ l ∈ stretch, ∀ l' ∈ stretch, l.puts key = true → l'.now < l.until) →
    (∃ l ∈ stretch, l.puts key = true) →
      stretch.countP (fun l => l.puts key && l.outcome.won) = 1
  /-- Of swaps from the value that a key has, with nothing else that changes the key in
  between, exactly one returns `true`. -/
  one_swap : ∀ later stretch earlier key expected, history events = later ++ (stretch ++ earlier) →
    (∀ l ∈ stretch, ((idealAfter earlier).live key l.now).map Written.value = some expected) →
    (∀ l ∈ stretch, l.swaps key expected = true ∨ l.spares key = true) →
    (∃ l ∈ stretch, l.swaps key expected = true) →
      stretch.countP (fun l => l.swaps key expected && l.outcome.won) = 1
  /-- Once a call has found no live record under a key, no call about the key that takes the
  lock later finds one, unless a record was written. -/
  expired : ∀ later e' middle e earlier, events = later ++ e' :: (middle ++ e :: earlier) →
    ∀ l l', locked? e = some l → locked? e' = some l' →
      (e.before.shared.lock l.now).live l'.input.key l.now = none →
      (∀ w ∈ middle ++ [e], ∀ m, locked? w = some m →
        ¬ (m.input.key = l'.input.key ∧ m.outcome.won = true)) →
      (e'.before.shared.lock l'.now).live l'.input.key l'.now = none

/-! ## One operation -/

/-- The record of the memory for a record of the map. -/
def Written.record (written : Written Value) : MemoryRecord Value :=
  ⟨written.value, written.expires⟩

omit [DecidableEq Value] in
/-- A sweep is not observable by the call that makes it. -/
theorem live_lock (state : MemoryState Value) (key : String) (now : ℕ) :
    (state.lock now).live key now = state.live key now := by
  unfold MemoryState.lock
  split
  · simp only [MemoryState.live, Option.filter_filter, Bool.and_self]
  · rfl

/-- What an operation does to a key: it writes a record, removes what is there, or leaves it. -/
inductive Effect (map : Ideal Value) (now : ℕ) (input : Input Value) (key : String) : Prop where
  | stores (written : Written Value) (own : input.key = key)
      (writes : map.writes now input = some written) : Effect map now input key
  | removes (delete : input = .delete key) : Effect map now input key
  | spares (silent : ¬ (input.key = key ∧ (map.writes now input).isSome = true))
      (kept : input ≠ .delete key) : Effect map now input key

theorem effect_cases (map : Ideal Value) (now : ℕ) (input : Input Value) (key : String) :
    Effect map now input key := by
  by_cases own : input.key = key
  · cases writes : map.writes now input with
    | some written => exact .stores written own writes
    | none =>
        by_cases delete : input = .delete key
        · exact .removes delete
        · exact .spares (fun both => by simp [writes] at both) delete
  · refine .spares (fun both => own both.1) ?_
    rintro rfl
    exact own rfl

/-- **What a key of the map has after an operation.** -/
theorem ideal_serve (map : Ideal Value) (now : ℕ) (input : Input Value) (key : String) :
    (∀ written, input.key = key → map.writes now input = some written →
      (map.serve now input).1 key = some written) ∧
    (input = .delete key → (map.serve now input).1 key = none) ∧
    (¬ (input.key = key ∧ (map.writes now input).isSome = true) → input ≠ .delete key →
      (map.serve now input).1 key = map key) := by
  refine ⟨?_, ?_, ?_⟩
  · rintro written rfl writes
    cases input with
    | get | delete => cases writes
    | putIfAbsent | compareAndSwap =>
        simp only [Ideal.serve, writes]
        exact Ideal.set_same _ _ _
  · rintro rfl
    exact Ideal.set_same _ _ _
  · intro silent kept
    cases input with
    | get => rfl
    | delete other =>
        exact Ideal.set_other _ (fun same => kept (by rw [same])) _
    | putIfAbsent other | compareAndSwap other =>
        simp only [Ideal.serve]
        split
        · rename_i written
          exact Ideal.set_other _ (fun same => silent ⟨same.symm, written⟩) _
        · rfl

/-- The memory shows an operation what the map shows it. -/
def Shows (state : MemoryState Value) (map : Ideal Value) (key : String) (now : ℕ) : Prop :=
  state.live key now = (map.live key now).map Written.record

omit [DecidableEq Value] in
theorem MemoryState.set_same (state : MemoryState Value) (key : String)
    (record : Option (MemoryRecord Value)) : (state.set key record).records key = record := by
  simp [MemoryState.set]

omit [DecidableEq Value] in
theorem MemoryState.set_other (state : MemoryState Value) {key other : String}
    (ne : other ≠ key) (record : Option (MemoryRecord Value)) :
    (state.set key record).records other = state.records other := by
  simp [MemoryState.set, ne]

/-- The memory with what an operation writes, if it writes. -/
def MemoryState.write (state : MemoryState Value) (key : String)
    (written : Option (Written Value)) : MemoryState Value :=
  if written.isSome then state.set key (written.map Written.record) else state

/-- `put_if_absent` on the memory. -/
theorem putIfAbsent_eq {state : MemoryState Value} {map : Ideal Value} {now : ℕ} {key : String}
    (shows : Shows state map key now) (value : Value) (ttl : ℕ) :
    state.putIfAbsent now key value ttl =
      (state.write key (map.writes now (.putIfAbsent key value ttl)),
        (map.writes now (.putIfAbsent key value ttl)).isSome) := by
  have seen : ((state.records key).any fun record => decide (record.expires > now)) =
      (map.live key now).isSome := by
    rw [← Option.isSome_filter]
    exact (congrArg Option.isSome shows).trans Option.isSome_map
  unfold MemoryState.putIfAbsent
  rw [seen, Ideal.writes]
  cases map.live key now with
  | none => rfl
  | some record => rfl

/-- `compare_and_swap` on the memory. -/
theorem compareAndSwap_eq {state : MemoryState Value} {map : Ideal Value} {now : ℕ} {key : String}
    (shows : Shows state map key now) (expected new : Value) (ttl : ℕ) :
    state.compareAndSwap now key expected new ttl =
      (state.write key (map.writes now (.compareAndSwap key expected new ttl)),
        (map.writes now (.compareAndSwap key expected new ttl)).isSome) := by
  have seen : (map.live key now).map Written.value =
      (state.live key now).map MemoryRecord.value := by
    rw [shows, Option.map_map]
    rfl
  have plain : state.compareAndSwap now key expected new ttl =
      if (state.live key now).map MemoryRecord.value = some expected then
        (state.set key (some ⟨new, now + ttl⟩), true)
      else (state, false) := by
    unfold MemoryState.compareAndSwap MemoryState.live
    cases state.records key with
    | none => simp
    | some record =>
        by_cases fresh : record.expires > now
        · simp [fresh]
        · simp [fresh]
  rw [plain, Ideal.writes, seen]
  split <;> rfl

omit [DecidableEq Value] in
/-- `get` on the memory. -/
theorem get_eq {state : MemoryState Value} {map : Ideal Value} {now : ℕ} {key : String}
    (shows : Shows state map key now) :
    state.get now key =
      (map.live key now).map fun record => ⟨record.value, record.expires - now⟩ := by
  change (state.live key now).map _ = _
  rw [show state.live key now = _ from shows, Option.map_map]
  rfl

/-- **An operation whose key shows the same has the same result.** -/
theorem serve_result {state : MemoryState Value} {map : Ideal Value} {now : ℕ}
    {input : Input Value} (shows : Shows state map input.key now) :
    (state.serve now input).2 = (map.serve now input).2 := by
  cases input with
  | get key => exact congrArg Outcome.got (get_eq shows)
  | delete key => rfl
  | putIfAbsent key value ttl =>
      exact congrArg (fun served => Outcome.put served.2) (putIfAbsent_eq shows value ttl)
  | compareAndSwap key expected new ttl =>
      exact congrArg (fun served => Outcome.swapped served.2)
        (compareAndSwap_eq shows expected new ttl)

/-- **What a key of the memory has after an operation whose key shows the same.** -/
theorem memory_serve {state : MemoryState Value} {map : Ideal Value} {now : ℕ}
    {input : Input Value} (shows : Shows state map input.key now) (key : String) :
    (∀ written, input.key = key → map.writes now input = some written →
      (state.serve now input).1.records key = some written.record) ∧
    (input = .delete key → (state.serve now input).1.records key = none) ∧
    (¬ (input.key = key ∧ (map.writes now input).isSome = true) → input ≠ .delete key →
      (state.serve now input).1.records key = state.records key) := by
  -- a put and a swap write what the map writes
  have written : (∀ key, input ≠ .get key) → (∀ key, input ≠ .delete key) →
      (state.serve now input).1 = state.write input.key (map.writes now input) := by
    intro get delete
    cases input with
    | get key => exact absurd rfl (get key)
    | delete key => exact absurd rfl (delete key)
    | putIfAbsent key value ttl => exact congrArg Prod.fst (putIfAbsent_eq shows value ttl)
    | compareAndSwap key expected new ttl =>
        exact congrArg Prod.fst (compareAndSwap_eq shows expected new ttl)
  refine ⟨?_, ?_, ?_⟩
  · rintro record rfl writes
    rw [written (by rintro _ rfl; cases writes) (by rintro _ rfl; cases writes), writes]
    exact MemoryState.set_same _ _ _
  · rintro rfl
    exact MemoryState.set_same _ _ _
  · intro silent kept
    cases input with
    | get => rfl
    | delete other => exact MemoryState.set_other _ (fun same => kept (by rw [same])) _
    | putIfAbsent other | compareAndSwap other =>
        rw [written nofun nofun, MemoryState.write]
        split
        · rename_i writes
          exact MemoryState.set_other _ (fun same => silent ⟨same.symm, writes⟩) _
        · rfl

/-! ## The simulation -/

/-- The memory has the record of the map, or a sweep has removed it after its expiry. -/
def Agrees (earlier : List (Locked Value)) (state : MemoryState Value) (key : String) : Prop :=
  state.records key = (idealAfter earlier key).map Written.record ∨
    (state.records key = none ∧ Lapsed earlier key)

/-- **A call whose clock reading is timely sees what the map shows.** -/
theorem Agrees.shows {earlier : List (Locked Value)} {state : MemoryState Value} {key : String}
    {now : ℕ} (agrees : Agrees earlier state key)
    (timely : Lapsed earlier key → ∀ record, idealAfter earlier key = some record →
      record.expires ≤ now) : Shows (state.lock now) (idealAfter earlier) key now := by
  rw [Shows, live_lock, MemoryState.live, Ideal.live]
  rcases agrees with same | ⟨gone, lapsed⟩
  · rw [same]
    cases idealAfter earlier key with
    | none => rfl
    | some record =>
        by_cases fresh : now < record.expires
        · simp [Option.filter_some, fresh, Written.record]
        · simp [Option.filter_some, fresh, Written.record]
  · rw [gone]
    cases found : idealAfter earlier key with
    | none => rfl
    | some record =>
        have late := Nat.not_lt.mpr (timely lapsed record found)
        simp [Option.filter_some, late]

/-- What the lock leaves of a key: a sweep removes only what the clock reading has passed. -/
theorem Agrees.locked {earlier : List (Locked Value)} {state : MemoryState Value} {key : String}
    {now : ℕ} (agrees : Agrees earlier state key) :
    (state.lock now).records key = (idealAfter earlier key).map Written.record ∨
      ((state.lock now).records key = none ∧ (Lapsed earlier key ∨
        ∃ record, idealAfter earlier key = some record ∧ record.expires ≤ now)) := by
  unfold MemoryState.lock
  split
  · rcases agrees with same | ⟨gone, lapsed⟩
    · simp only [same]
      cases found : idealAfter earlier key with
      | none => exact .inl rfl
      | some record =>
          by_cases fresh : record.expires > now
          · exact .inl (by simp [fresh, Written.record])
          · have late := Nat.not_lt.mp fresh
            exact .inr ⟨by simpa [Written.record] using late, .inr ⟨record, rfl, late⟩⟩
    · exact .inr ⟨by simp [gone], .inl lapsed⟩
  · rcases agrees with same | ⟨gone, lapsed⟩
    · exact .inl same
    · exact .inr ⟨gone, .inl lapsed⟩

/-- **An operation keeps memory and map in agreement.** -/
theorem Agrees.serve {earlier : List (Locked Value)} {state : MemoryState Value} {key : String}
    {l : Locked Value} (agrees : Agrees earlier state key)
    (shows : Shows (state.lock l.now) (idealAfter earlier) l.input.key l.now) :
    Agrees (l :: earlier) ((state.lock l.now).serve l.now l.input).1 key := by
  obtain ⟨stored, removed, spared⟩ := memory_serve shows key
  obtain ⟨stored', removed', spared'⟩ := ideal_serve (idealAfter earlier) l.now l.input key
  cases effect_cases (idealAfter earlier) l.now l.input key with
  | stores written own writes =>
      refine .inl ((stored written own writes).trans ?_)
      rw [idealAfter, stored' written own writes]
      rfl
  | removes delete =>
      refine .inl ((removed delete).trans ?_)
      rw [idealAfter, removed' delete]
      rfl
  | spares silent kept =>
      rw [Agrees, spared silent kept, idealAfter, spared' silent kept]
      rcases agrees.locked with same | ⟨gone, lapsed⟩
      · exact .inl same
      · exact .inr ⟨gone, silent, lapsed⟩

/-! ## Runs -/

section Run

variable {ok : List (Evt Value) → State Value → Lbl Value → Prop} {created : ℕ}
  {events : List (Evt Value)} {s s' : State Value} {label : Lbl Value}

/-- **A step takes the lock and serves its call, or leaves memory and history alone.** -/
theorem lock_cases (taken : (program Value).step s label = some s') :
    (∃ i reading t input now, label = .step i reading ∧ s.threads[i]? = some t ∧
      t.call = .locking input now ∧ s'.shared = ((s.shared.lock now).serve now input).1 ∧
      locked? ⟨s, label, s'⟩ =
        some ⟨i, input, now, ((s.shared.lock now).serve now input).2⟩) ∨
    (s'.shared = s.shared ∧ locked? ⟨s, label, s'⟩ = none) := by
  rcases step_cases taken with ⟨input, rfl, rfl⟩ |
    ⟨i, reading, t, shared, call, rfl, there, acted, rfl⟩ | ⟨drift, _, _⟩
  · exact .inr ⟨rfl, rfl⟩
  · have inside : i < s.threads.length := (List.getElem?_eq_some_iff.mp there).1
    obtain ⟨asked, c⟩ := t
    cases c with
    | starting input =>
        cases acted
        exact .inr ⟨rfl, by simp [locked?, there]⟩
    | locking input now =>
        obtain ⟨served, returned⟩ := Prod.mk.inj (Option.some.inj acted)
        have after : (s.threads.set i { input := asked, call })[i]? = some ⟨asked, call⟩ :=
          List.getElem?_set_self inside
        refine .inl ⟨i, reading, _, input, now, rfl, there, rfl, served.symm, ?_⟩
        rw [← returned] at after ⊢
        simp only [locked?, there, after]
        rfl
    | done => cases acted
  · exact drift.elim

/-- **Memory and map agree in every state, and so do the results.** -/
theorem agrees_of_run (run : (program Value).Runs Timely (.withClock created) events s) :
    (∀ key, Agrees (history events) s.shared key) ∧
      ∀ later l earlier, history events = later ++ l :: earlier →
        l.outcome = ((idealAfter earlier).serve l.now l.input).2 := by
  induction run with
  | nil => exact ⟨fun key => .inl rfl, fun later l earlier parts => by simp [history] at parts⟩
  | @cons events s s' label run timely taken ih =>
      obtain ⟨agrees, results⟩ := ih
      rcases lock_cases taken with
        ⟨i, reading, t, input, now, rfl, there, locking, after, locked⟩ | ⟨same, unlocked⟩
      · have shows := (agrees input.key).shows fun lapsed =>
          timely i reading t input now rfl there locking lapsed
        have extended : history (⟨s, .step i reading, s'⟩ :: events) =
            ⟨i, input, now, ((s.shared.lock now).serve now input).2⟩ :: history events := by
          rw [history, List.filterMap_cons, locked]
          rfl
        rw [extended, after]
        refine ⟨fun key => (agrees key).serve (l := ⟨i, input, now, _⟩) shows, ?_⟩
        intro later l earlier parts
        cases later with
        | nil =>
            injection parts with first older
            subst first older
            exact serve_result shows
        | cons l' later =>
            injection parts with _ older
            exact results later l earlier older
      · have extended : history (⟨s, label, s'⟩ :: events) = history events := by
          rw [history, List.filterMap_cons, unlocked]
          rfl
        rw [extended, same]
        exact ⟨agrees, results⟩

end Run

/-! ## Calls that compete for a key -/

/-- A read, and an operation on another key, leave what the map has. -/
theorem serve_of_spares {l : Locked Value} {key : String} (spares : l.spares key = true)
    (map : Ideal Value) : (map.serve l.now l.input).1 key = map key := by
  obtain ⟨i, input, now, outcome⟩ := l
  obtain ⟨_, _, spared⟩ := ideal_serve map now input key
  cases input with
  | get => rfl
  | putIfAbsent | compareAndSwap | delete =>
      have other := of_decide_eq_true spares
      refine spared (fun own => other own.1) ?_
      rintro ⟨⟩
      all_goals exact other rfl

/-- **Where the first of some competing calls wins and closes the key for the others, exactly
one of them wins.** -/
theorem countP_eq_one (key : String) {earlier : List (Locked Value)} (hit : Locked Value → Bool)
    (closed : Option (Written Value) → Prop) :
    ∀ {stretch : List (Locked Value)},
      (∀ later l older, stretch ++ earlier = later ++ l :: older →
        l.outcome = ((idealAfter older).serve l.now l.input).2) →
      (∀ l ∈ stretch, hit l = false → ∀ map : Ideal Value,
        (map.serve l.now l.input).1 key = map key) →
      (∀ l ∈ stretch, hit l = true → ∀ map : Ideal Value, map key = idealAfter earlier key →
        (map.serve l.now l.input).2.won = true ∧ closed ((map.serve l.now l.input).1 key)) →
      (∀ l ∈ stretch, hit l = true → ∀ map : Ideal Value, closed (map key) →
        (map.serve l.now l.input).2.won = false ∧ closed ((map.serve l.now l.input).1 key)) →
      (stretch.any hit = true → stretch.countP (fun l => hit l && l.outcome.won) = 1 ∧
        closed (idealAfter (stretch ++ earlier) key)) ∧
      (stretch.any hit = false → stretch.countP (fun l => hit l && l.outcome.won) = 0 ∧
        idealAfter (stretch ++ earlier) key = idealAfter earlier key) := by
  intro stretch
  induction stretch with
  | nil => exact fun _ _ _ _ => ⟨nofun, fun _ => ⟨rfl, rfl⟩⟩
  | cons l stretch ih =>
      intro results spares first again
      obtain ⟨some, none⟩ := ih
        (fun later l' older parts => results (l :: later) l' older
          (by rw [List.cons_append, parts]; rfl))
        (fun l' member => spares l' (List.mem_cons_of_mem _ member))
        (fun l' member => first l' (List.mem_cons_of_mem _ member))
        (fun l' member => again l' (List.mem_cons_of_mem _ member))
      have result := results [] l (stretch ++ earlier) rfl
      have after : idealAfter (l :: stretch ++ earlier) =
          ((idealAfter (stretch ++ earlier)).serve l.now l.input).1 := rfl
      rw [List.countP_cons, List.any_cons, after, result]
      cases hits : hit l with
      | false =>
          rw [spares l List.mem_cons_self hits]
          simp only [Bool.false_or, Bool.false_and, Bool.false_eq_true, if_false, Nat.add_zero]
          exact ⟨some, none⟩
      | true =>
          refine ⟨fun _ => ?_, nofun⟩
          cases before : stretch.any hit with
          | true =>
              obtain ⟨count, shut⟩ := some before
              obtain ⟨lost, shut⟩ := again l List.mem_cons_self hits _ shut
              exact ⟨by simp [count, lost], shut⟩
          | false =>
              obtain ⟨count, same⟩ := none before
              obtain ⟨won, shut⟩ := first l List.mem_cons_self hits _ same
              exact ⟨by simp [count, won], shut⟩

omit [DecidableEq Value] in
theorem puts_eq_true {l : Locked Value} {key : String} (puts : l.puts key = true) :
    ∃ value ttl, l.input = .putIfAbsent key value ttl ∧ l.until = l.now + ttl := by
  obtain ⟨i, input, now, outcome⟩ := l
  cases input with
  | putIfAbsent other value ttl =>
      obtain rfl : other = key := of_decide_eq_true puts
      exact ⟨value, ttl, rfl, rfl⟩
  | _ => cases puts

theorem swaps_eq_true {l : Locked Value} {key : String} {expected : Value}
    (swaps : l.swaps key expected = true) :
    ∃ new ttl, l.input = .compareAndSwap key expected new ttl ∧ new ≠ expected := by
  obtain ⟨i, input, now, outcome⟩ := l
  cases input with
  | compareAndSwap other value new ttl =>
      simp only [Locked.swaps, Bool.and_eq_true, decide_eq_true_eq] at swaps
      obtain ⟨⟨rfl, rfl⟩, differs⟩ := swaps
      exact ⟨new, ttl, rfl, differs⟩
  | _ => cases swaps

/-- **Of puts under a vacant key exactly one returns `true`.** -/
theorem one_put {stretch earlier : List (Locked Value)} {key : String}
    (results : ∀ later l older, stretch ++ earlier = later ++ l :: older →
      l.outcome = ((idealAfter older).serve l.now l.input).2)
    (vacant : ∀ l ∈ stretch, (idealAfter earlier).live key l.now = none)
    (only : ∀ l ∈ stretch, l.puts key = true ∨ l.spares key = true)
    (lives : ∀ l ∈ stretch, ∀ l' ∈ stretch, l.puts key = true → l'.now < l.until)
    (put : ∃ l ∈ stretch, l.puts key = true) :
    stretch.countP (fun l => l.puts key && l.outcome.won) = 1 := by
  refine ((countP_eq_one key (Locked.puts key) (fun record => ∃ written,
    record = some written ∧ ∀ l ∈ stretch, l.now < written.expires) results ?_ ?_ ?_).1
      (List.any_eq_true.mpr put)).1
  · intro l member miss
    exact serve_of_spares ((only l member).resolve_left (by simp [miss]))
  · intro l member puts map same
    obtain ⟨value, ttl, input, expires⟩ := puts_eq_true puts
    have free : map.live key l.now = none := by
      rw [Ideal.live, same]
      exact vacant l member
    have writes : map.writes l.now l.input = some ⟨value, l.now, ttl⟩ := by
      rw [input]
      exact if_pos free
    obtain ⟨stored, _⟩ := ideal_serve map l.now l.input key
    refine ⟨?_, _, stored _ (by rw [input]; rfl) writes, fun l' member' => ?_⟩
    · rw [input] at writes ⊢
      simp only [Ideal.serve, writes]
      rfl
    · have bound := lives l member l' member' puts
      rw [expires] at bound
      exact bound
  · rintro l member puts map ⟨written, found, fresh⟩
    obtain ⟨value, ttl, input, _⟩ := puts_eq_true puts
    have taken : map.live key l.now ≠ none := by
      simp [Ideal.live, found, Option.filter_some, fresh l member]
    have silent : map.writes l.now l.input = none := by
      rw [input]
      exact if_neg taken
    obtain ⟨_, _, spared⟩ := ideal_serve map l.now l.input key
    refine ⟨?_, written, (spared (by simp [silent]) (by rw [input]; nofun)).trans found, fresh⟩
    rw [input] at silent ⊢
    simp only [Ideal.serve, silent]
    rfl

/-- **Of swaps from the value of a key exactly one returns `true`.** -/
theorem one_swap {stretch earlier : List (Locked Value)} {key : String} {expected : Value}
    (results : ∀ later l older, stretch ++ earlier = later ++ l :: older →
      l.outcome = ((idealAfter older).serve l.now l.input).2)
    (held : ∀ l ∈ stretch,
      ((idealAfter earlier).live key l.now).map Written.value = some expected)
    (only : ∀ l ∈ stretch, l.swaps key expected = true ∨ l.spares key = true)
    (swap : ∃ l ∈ stretch, l.swaps key expected = true) :
    stretch.countP (fun l => l.swaps key expected && l.outcome.won) = 1 := by
  refine ((countP_eq_one key (Locked.swaps key expected) (fun record => ∃ written,
    record = some written ∧ written.value ≠ expected) results ?_ ?_ ?_).1
      (List.any_eq_true.mpr swap)).1
  · intro l member miss
    exact serve_of_spares ((only l member).resolve_left (by simp [miss]))
  · intro l member swaps map same
    obtain ⟨new, ttl, input, differs⟩ := swaps_eq_true swaps
    have matching : (map.live key l.now).map Written.value = some expected := by
      rw [Ideal.live, same]
      exact held l member
    have writes : map.writes l.now l.input = some ⟨new, l.now, ttl⟩ := by
      rw [input]
      exact if_pos matching
    obtain ⟨stored, _⟩ := ideal_serve map l.now l.input key
    refine ⟨?_, _, stored _ (by rw [input]; rfl) writes, differs⟩
    rw [input] at writes ⊢
    simp only [Ideal.serve, writes]
    rfl
  · rintro l member swaps map ⟨written, found, differs⟩
    obtain ⟨new, ttl, input, _⟩ := swaps_eq_true swaps
    have missing : (map.live key l.now).map Written.value ≠ some expected := by
      rw [Ideal.live, found, Option.filter_some]
      split
      · simpa using differs
      · simp
    have silent : map.writes l.now l.input = none := by
      rw [input]
      exact if_neg missing
    obtain ⟨_, _, spared⟩ := ideal_serve map l.now l.input key
    refine ⟨?_, written, (spared (by simp [silent]) (by rw [input]; nofun)).trans found, differs⟩
    rw [input] at silent ⊢
    simp only [Ideal.serve, silent]
    rfl

/-! ## What has expired stays expired -/

/-- The key has no record, or one whose expiry a call has passed. -/
def Over (earlier : List (Locked Value)) (key : String) : Prop :=
  ∀ record, idealAfter earlier key = some record → Lapsed earlier key

/-- A call that finds no live record has passed the expiry of what there is. -/
theorem Over.of_unseen {l : Locked Value} {earlier : List (Locked Value)} {key : String}
    (silent : ¬ Stores earlier l key)
    (unseen : Lapsed earlier key ∨ (idealAfter earlier).live key l.now = none) :
    Over (l :: earlier) key := by
  intro record found
  refine ⟨silent, unseen.imp_right fun none => ?_⟩
  obtain ⟨_, removed, spared⟩ := ideal_serve (idealAfter earlier) l.now l.input key
  by_cases delete : l.input = .delete key
  · cases (removed delete).symm.trans found
  · have before := (spared silent delete).symm.trans found
    refine ⟨record, before, Nat.not_lt.mp fun fresh => ?_⟩
    simp [Ideal.live, before, Option.filter_some, fresh] at none

/-- A call that writes nothing under the key leaves it so. -/
theorem Over.cons {l : Locked Value} {earlier : List (Locked Value)} {key : String}
    (past : Over earlier key) (silent : ¬ Stores earlier l key) : Over (l :: earlier) key := by
  intro record found
  obtain ⟨_, removed, spared⟩ := ideal_serve (idealAfter earlier) l.now l.input key
  by_cases delete : l.input = .delete key
  · cases (removed delete).symm.trans found
  · exact ⟨silent, .inl (past record ((spared silent delete).symm.trans found))⟩

section Claims

variable {created : ℕ} {events : List (Evt Value)} {s : State Value}

omit [DecidableEq Value] in
theorem locked?_eq_some {e : Evt Value} {l : Locked Value} (locked : locked? e = some l) :
    ∃ reading t, e.label = .step l.call reading ∧ e.before.threads[l.call]? = some t ∧
      t.call = .locking l.input l.now := by
  unfold locked? at locked
  split at locked
  · rename_i i reading label
    split at locked
    · rename_i there _
      cases locked
      exact ⟨reading, _, label, there, rfl⟩
    · cases locked
  · cases locked

/-- A call writes if and only if its result says so. -/
theorem stores_won {l : Locked Value} {earlier : List (Locked Value)} {key : String}
    (result : l.outcome = ((idealAfter earlier).serve l.now l.input).2)
    (stores : Stores earlier l key) : l.input.key = key ∧ l.outcome.won = true := by
  obtain ⟨own, written⟩ := stores
  refine ⟨own, ?_⟩
  obtain ⟨i, input, now, outcome⟩ := l
  rw [result]
  cases input with
  | get | delete => cases written
  | putIfAbsent | compareAndSwap => exact written

omit [DecidableEq Value] in
theorem history_cons (e : Evt Value) (events : List (Evt Value)) :
    history (e :: events) = (locked? e).toList ++ history events := by
  unfold history
  rw [List.filterMap_cons]
  cases locked? e <;> rfl

/-- What nobody writes stays as it is, in every later state of the run. -/
theorem over_of_silent {key : String} {earlier : List (Evt Value)} :
    ∀ {middle : List (Evt Value)} {s : State Value},
      (program Value).Runs Timely (.withClock created) (middle ++ earlier) s →
      (∀ w ∈ middle, ∀ m, locked? w = some m →
        ¬ (m.input.key = key ∧ m.outcome.won = true)) →
      Over (history earlier) key → Over (history (middle ++ earlier)) key := by
  intro middle
  induction middle with
  | nil => exact fun _ _ past => past
  | cons w middle ih =>
      intro s run silent past
      have split : (program Value).Runs Timely (.withClock created)
        ([] ++ w :: (middle ++ earlier)) s := run
      obtain ⟨before, _, _, _⟩ := split.split
      have past := ih before (fun w' member => silent w' (List.mem_cons_of_mem _ member)) past
      rw [List.cons_append, history_cons]
      cases locked : locked? w with
      | none => exact past
      | some m =>
          refine past.cons fun stores => silent w List.mem_cons_self m locked (stores_won ?_ stores)
          refine (agrees_of_run run).2 [] m _ ?_
          rw [List.cons_append, history_cons, locked]
          rfl

/-- **Once a call has found no live record, no later one does, unless a record is written.** -/
theorem expired_of_run {later middle earlier : List (Evt Value)} {e e' : Evt Value}
    (run : (program Value).Runs Timely (.withClock created)
      (later ++ e' :: (middle ++ e :: earlier)) s)
    {l l' : Locked Value} (locked : locked? e = some l) (locked' : locked? e' = some l')
    (unseen : (e.before.shared.lock l.now).live l'.input.key l.now = none)
    (silent : ∀ w ∈ middle ++ [e], ∀ m, locked? w = some m →
      ¬ (m.input.key = l'.input.key ∧ m.outcome.won = true)) :
    (e'.before.shared.lock l'.now).live l'.input.key l'.now = none := by
  obtain ⟨before', timely', _, _⟩ := run.split
  obtain ⟨before, _, _, through⟩ := before'.split
  obtain ⟨agrees, _⟩ := agrees_of_run before
  obtain ⟨agrees', _⟩ := agrees_of_run before'
  have extended : history (e :: earlier) = l :: history earlier := by
    rw [history_cons, locked]
    rfl
  -- the first of the two calls passes the expiry of what the key has
  have past : Over (history (e :: earlier)) l'.input.key := by
    rw [extended]
    refine .of_unseen (fun stores => silent e (by simp) l locked (stores_won ?_ stores)) ?_
    · exact (agrees_of_run through).2 [] l _ extended
    · rw [live_lock, MemoryState.live] at unseen
      rcases agrees l'.input.key with same | ⟨_, lapsed⟩
      · refine .inr ?_
        rw [same] at unseen
        rw [Ideal.live]
        cases found : idealAfter (history earlier) l'.input.key with
        | none => rfl
        | some record =>
            rw [found] at unseen
            simpa [Option.filter_some, Written.record] using unseen
      · exact .inl lapsed
  have past' := over_of_silent before'
    (fun w member => silent w (List.mem_append_left _ member)) past
  obtain ⟨reading, t, label, there, locking⟩ := locked?_eq_some locked'
  have timely := timely' _ _ t _ _ label there locking
  rw [(agrees' l'.input.key).shows timely, Ideal.live]
  cases found : idealAfter (history (middle ++ e :: earlier)) l'.input.key with
  | none => rfl
  | some record =>
      have late := Nat.not_lt.mpr (timely (past' record found) record found)
      simp [Option.filter_some, late]

/-- A lapsed record has been passed by the clock reading of some call. -/
theorem exists_of_lapsed {record : Written Value} {key : String} :
    ∀ {earlier : List (Locked Value)}, Lapsed earlier key →
      idealAfter earlier key = some record → ∃ l ∈ earlier, record.expires ≤ l.now
  | [], lapsed, _ => lapsed.elim
  | l :: earlier, ⟨silent, lapsed⟩, found => by
      obtain ⟨_, removed, spared⟩ := ideal_serve (idealAfter earlier) l.now l.input key
      by_cases delete : l.input = .delete key
      · cases (removed delete).symm.trans found
      · have before := (spared silent delete).symm.trans found
        rcases lapsed with lapsed | ⟨record', found', passed⟩
        · obtain ⟨l', member, passed⟩ := exists_of_lapsed lapsed before
          exact ⟨l', List.mem_cons_of_mem _ member, passed⟩
        · obtain rfl := Option.some.inj (found'.symm.trans before)
          exact ⟨l, List.mem_cons_self, passed⟩

/-- **Calls that take the lock in the order of their clock readings are timely.** -/
theorem timely_of_inOrder {label : Lbl Value} (inOrder : InOrder events s label) :
    Timely events s label := by
  intro i reading t input now stepped there locking lapsed record found
  obtain ⟨l, member, passed⟩ := exists_of_lapsed lapsed found
  exact Nat.le_trans passed (inOrder i reading t input now stepped there locking l member)

end Claims

/-! ## Two runs -/

/-- A step of the call `i`, when the clock shows some milliseconds. -/
def go (i : ℕ) (milliseconds : ℕ) : Lbl ℕ := .step i (milliseconds * 10 ^ 6)

/-- A record of one second is read by two calls. The one that has read the clock first takes
the lock last. -/
def overtaken : List (Lbl ℕ) :=
  [.begin (.putIfAbsent "k" 1 (10 ^ 9)), go 0 0, go 0 0, .begin (.get "k"), .begin (.get "k"),
    go 1 500, go 2 2000, go 2 2000, go 1 2000]

/-- The last call finds the record that the call before it has found expired. -/
def Revives (events : List (Evt ℕ)) : Bool :=
  match events with
  | e' :: e :: _ =>
      decide (locked? e' = some ⟨1, .get "k", 500 * 10 ^ 6, .got (some ⟨1, 500 * 10 ^ 6⟩)⟩) &&
        decide (locked? e = some ⟨2, .get "k", 2000 * 10 ^ 6, .got none⟩) &&
        ((e.before.shared.lock (2000 * 10 ^ 6)).live "k" (2000 * 10 ^ 6)).isNone &&
        ((e'.before.shared.lock (500 * 10 ^ 6)).live "k" (500 * 10 ^ 6)).isSome
  | _ => false

/-- A call takes the lock with the latest clock reading so far. -/
def inOrder (events : List (Evt ℕ)) (s : State ℕ) : Lbl ℕ → Bool
  | .step i _ =>
      match s.threads[i]? with
      | some ⟨_, .locking _ now⟩ => (history events).all fun l => decide (l.now ≤ now)
      | _ => true
  | _ => true

theorem inOrder_sound (events : List (Evt ℕ)) (s : State ℕ) (label : Lbl ℕ)
    (passes : inOrder events s label = true) : Timely events s label := by
  refine timely_of_inOrder fun i reading t input now stepped there locking l member => ?_
  obtain ⟨asked, call⟩ := t
  obtain rfl : call = .locking input now := locking
  subst stepped
  simp only [inOrder, there] at passes
  exact of_decide_eq_true (List.all_eq_true.mp passes l member)

end OAuthRelay.Memory
