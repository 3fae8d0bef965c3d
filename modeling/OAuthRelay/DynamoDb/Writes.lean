import OAuthRelay.DynamoDb.Store

/-!
# What the conditional writes of the DynamoDB store report

A conditional put can be applied with its answer lost. The retry is then judged against the
item that the first attempt wrote, and the condition fails: the item is live by the clock
reading of the call, and it does not hold the value that a swap expects. The table returns
the item with the failure, and the store finds its own value in it.

So as long as nobody else changes the key between an applied write and its retry
(`Undisturbed`), the item of a call that has written is there when the call is answered
(`Knows`), and the call is told `true` if and only if it wrote (`writes_exact`). A key holds a
value in one stretch of the run only (`held_stretch`), which is why a value is swapped once.
-/

set_option autoImplicit false

namespace OAuthRelay.DynamoDb

open Interleaving Program
open Contract (Input)
open Objects (Delivery RequestFailed deliver deliver_cases)

variable {Value : Type}

/-! ## What is claimed -/

/-- A system of calls over one table, and its steps. -/
abbrev State (Value : Type) := System (Table Value) (Input Value) (Call Value)
abbrev Lbl (Value : Type) := Label (Input Value) Choice Reclaim
abbrev Evt (Value : Type) := Event (Table Value) (Input Value) (Call Value) Choice Reclaim

/-- All written values are distinct, also from each other's and from what the table held. -/
structure Distinct (table : Table Value) (threads : List (Thread (Input Value) (Call Value))) :
    Prop where
  once : ∀ (i j : ℕ) (t u : Thread (Input Value) (Call Value)) value, threads[i]? = some t →
    threads[j]? = some u → t.input.written = some value → u.input.written = some value → i = j
  fresh : ∀ key item, table key = some item → ∀ (i : ℕ) (t : Thread (Input Value) (Call Value)),
    threads[i]? = some t → t.input.written ≠ some item.value
  apart : ∀ key key' item item', table key = some item → table key' = some item' →
    item.value = item'.value → key = key'

variable [DecidableEq Value]

/-- A write of the call `i` takes effect: its request is served, and the condition holds. -/
def Takes (w : Evt Value) (i : ℕ) (operation : Operation) (request : PutRequest Value)
    (now : Seconds) : Prop :=
  ∃ t choice, w.By i t choice ∧ t.call = .writing operation request now ∧
    choice.delivery.served = true ∧ request.condition.holds (w.before.shared request.key) = true

/-- The call has written. -/
def Wrote (events : List (Evt Value)) (i : ℕ) : Prop :=
  ∃ w ∈ events, ∃ operation request now, Takes w i operation request now

/-- The call has written the key, and waits to be answered. -/
def Pending (events : List (Evt Value)) (s : State Value) (i : ℕ) (key : String) : Prop :=
  Wrote events i ∧ ∃ t operation request now, s.threads[i]? = some t ∧
    t.call = .writing operation request now ∧ request.key = key

/-- Between an applied write and its retry nobody else changes the key. -/
def Undisturbed (events : List (Evt Value)) (s : State Value) (label : Lbl Value) : Prop :=
  ∀ s', (program Value).step s label = some s' → ∀ key, s'.shared key ≠ s.shared key →
    ∀ i, Pending events s i key → ∃ choice, label = .step i choice

/-- The call has returned the result of a write. -/
def Told (s : State Value) (i : ℕ) (input : Input Value) (stored : Bool) : Prop :=
  ∃ operation, s.threads[i]? = some ⟨input, .done (.wrote operation (.ok stored))⟩

/-- A put of the call `i` took effect when the key held no item that was live by the clock
reading of the call. -/
def Stored (w : Evt Value) (i : ℕ) (key : String) : Prop :=
  ∃ request now, Takes w i .put request now ∧ request.key = key ∧
    w.before.shared.live key now = none

/-- The conditional writes report exactly what happened. -/
structure WritesExact (events : List (Evt Value)) (s : State Value) : Prop where
  /-- A call returns `true` if and only if its own write took effect. -/
  told : ∀ i input stored, Told s i input stored → (stored = true ↔ Wrote events i)
  /-- At most one swap of an expected value returns `true`. -/
  one_swap : ∀ i j key key' expected new new' ttl ttl',
    Told s i (.compareAndSwap key expected new ttl) true →
    Told s j (.compareAndSwap key' expected new' ttl') true → i = j
  /-- At most one put of a live period returns `true`: of two that do, one wrote first, and
  when the other wrote there was no live record any more, by the clock of the other. -/
  one_put : ∀ i j key value value' ttl ttl', i ≠ j →
    Told s i (.putIfAbsent key value ttl) true → Told s j (.putIfAbsent key value' ttl') true →
    ∃ w ∈ events, ∃ w' ∈ events, w ≠ w' ∧ Stored w i key ∧ Stored w' j key

/-! ## Requests -/

/-- The request that a call makes at its clock reading. -/
inductive Asked (now : Seconds) : Input Value → Operation → PutRequest Value → Prop where
  | put (key : String) (value : Value) (ttl : ℕ) :
      Asked now (.putIfAbsent key value ttl) .put (putRequest now key value ttl)
  | swap (key : String) (expected new : Value) (ttl : ℕ) :
      Asked now (.compareAndSwap key expected new ttl) .swap
        (swapRequest now key expected new ttl)

section Requests

variable {now : Seconds} {input : Input Value} {operation : Operation}
  {request : PutRequest Value}

omit [DecidableEq Value] in
theorem Asked.written (asked : Asked now input operation request) :
    input.written = some request.item.value := by
  cases asked <;> rfl

omit [DecidableEq Value] in
theorem now_lt_expiry {now : Seconds} (ttl : ℕ) (last : now.val ≠ 2 ^ 64 - 1) :
    now < expiry now ttl := by
  have bound := now.isLt
  rw [Fin.lt_def]
  simp only [expiry, saturatingAdd]
  omega

omit [DecidableEq Value] in
/-- A record expires after the clock reading it was written at, or the clock stands at its last
second. -/
theorem Asked.fresh (asked : Asked now input operation request) :
    now < request.item.expiresAt ∨ ∀ seconds : Seconds, seconds ≤ now := by
  by_cases last : now.val = 2 ^ 64 - 1
  · refine .inr fun seconds => ?_
    have bound := seconds.isLt
    rw [Fin.le_def]
    omega
  · cases asked with
    | put => exact .inl (now_lt_expiry _ last)
    | swap => exact .inl (now_lt_expiry _ last)

/-- **A call finds its own item: the condition holds again, or the item is recognised.** -/
theorem Asked.own (asked : Asked now input operation request)
    (fails : request.condition.holds (some request.item) = false)
    (expected : operation = .swap → ∃ existing, request.condition.holds existing = true) :
    applied (.conditionFailed (some request.item)) request.item.value now = true := by
  have fresh : now < request.item.expiresAt := by
    rcases asked.fresh with fresh | last
    · exact fresh
    · cases asked with
      | put key value ttl =>
          simp only [PutCondition.holds, putRequest, Option.all_some] at fails
          exact absurd (last _) (of_decide_eq_false fails)
      | swap key expected' new ttl =>
          obtain ⟨existing, holds⟩ := expected rfl
          obtain ⟨item, _, good⟩ := (Option.any_eq_true _ _).mp holds
          simp only [Bool.and_eq_true, decide_eq_true_eq] at good
          exact absurd good.1 (Nat.not_lt.mpr (last _))
  simp [applied, fresh]

theorem put_vacant {table : Table Value} {key : String} {value : Value} {ttl : ℕ}
    (holds : (putRequest now key value ttl).condition.holds (table key) = true) :
    table.live key now = none := by
  simp only [Table.live]
  cases found : table key with
  | none => rfl
  | some item =>
      simp only [putRequest, PutCondition.holds, found, Option.all_some, decide_eq_true_eq] at holds
      simpa using holds

theorem swap_expected {existing : Option (Item Value)} {key : String} {expected new : Value}
    {ttl : ℕ} (holds : (swapRequest now key expected new ttl).condition.holds existing = true) :
    ∃ item, existing = some item ∧ item.value = expected := by
  obtain ⟨item, found, good⟩ := (Option.any_eq_true _ _).mp holds
  simp only [Bool.and_eq_true, decide_eq_true_eq] at good
  exact ⟨item, found, good.2⟩

end Requests

/-! ## One step -/

/-- What a put leaves: its item where the condition holds, else what was there. -/
theorem putItem_cases (table : Table Value) (request : PutRequest Value) :
    (request.condition.holds (table request.key) = true ∧
      putItem table request = (table.set request.key (some request.item), .written)) ∨
    (request.condition.holds (table request.key) = false ∧
      putItem table request = (table, .conditionFailed (table request.key))) := by
  unfold putItem
  cases holds : request.condition.holds (table request.key) with
  | true => exact .inl ⟨rfl, rfl⟩
  | false => exact .inr ⟨rfl, rfl⟩

/-- A step of a call that waits for its put. -/
theorem act_writing {choice : Choice} {table table' : Table Value} {operation : Operation}
    {request : PutRequest Value} {now : Seconds} {call' : Call Value}
    (acted : act choice table (.writing operation request now) = some (table', call')) :
    table' = (if choice.delivery.served then (putItem table request).1 else table) ∧
      deliver choice.delivery (.writing operation request now)
        (wrote operation request.item.value now) (putItem table request).2 = call' := by
  obtain ⟨rfl, rfl⟩ := Prod.mk.inj (Option.some.inj acted)
  exact ⟨rfl, rfl⟩

/-- A call writes what it was asked to write, at its clock reading. -/
def Call.Fits (input : Input Value) : Call Value → Prop
  | .putStarting key value ttl => input = .putIfAbsent key value ttl
  | .swapStarting key expected new ttl => input = .compareAndSwap key expected new ttl
  | .writing operation request now => Asked now input operation request
  | _ => True

omit [DecidableEq Value] in
theorem Call.Fits.start (input : Input Value) : (DynamoDb.start input).Fits input := by
  cases input <;>
  · simp only [DynamoDb.start]
    split <;> first | rfl | trivial

theorem Call.Fits.act {input : Input Value} {choice : Choice} {table table' : Table Value}
    {call call' : Call Value} (fits : call.Fits input)
    (acted : DynamoDb.act choice table call = some (table', call')) : call'.Fits input := by
  cases call with
  | putStarting key value ttl =>
      obtain rfl : input = _ := fits
      cases acted
      exact .put key value ttl
  | swapStarting key expected new ttl =>
      obtain rfl : input = _ := fits
      cases acted
      exact .swap key expected new ttl
  | writing operation request now =>
      rcases deliver_cases (act_writing acted).2 with ⟨_, rfl⟩ | ⟨_, rfl⟩ | ⟨_, rfl⟩
      · exact fits
      · trivial
      · trivial
  | getStarting key =>
      cases acted
      trivial
  | getting key now =>
      injection acted with acted
      injection acted with _ next
      rcases deliver_cases next with ⟨_, rfl⟩ | ⟨_, rfl⟩ | ⟨_, rfl⟩ <;> trivial
  | deleting key =>
      injection acted with acted
      injection acted with _ next
      rcases deliver_cases next with ⟨_, rfl⟩ | ⟨_, rfl⟩ | ⟨_, rfl⟩ <;> trivial
  | done => cases acted

section Run

variable {ok : List (Evt Value) → State Value → Lbl Value → Prop} {table : Table Value}
  {events : List (Evt Value)} {s s' : State Value} {label : Lbl Value}

theorem fits_of_run (run : (program Value).Runs ok table events s) {i : ℕ}
    {t : Thread (Input Value) (Call Value)} (there : s.threads[i]? = some t) :
    t.call.Fits t.input := by
  refine run.thread_invariant (I := fun _ _ _ t => t.call.Fits t.input) ?_ ?_ ?_ there
  · intro _ _ _ _ _ _ _ _ _ _ _ fits
    exact fits
  · intro _ _ _ input _ _
    exact .start input
  · intro _ _ _ _ _ _ _ _ _ _ _ fits acted
    exact fits.act acted

/-- **An item that a step leaves in a key was there, or is what the step writes.** -/
theorem takes_of_item (taken : (program Value).step s label = some s') {key : String}
    {item : Item Value} (found : s'.shared key = some item) :
    s.shared key = some item ∨ ∃ i operation request now,
      Takes ⟨s, label, s'⟩ i operation request now ∧ request.key = key ∧ request.item = item := by
  rcases step_cases taken with ⟨input, _, rfl⟩ |
    ⟨i, choice, t, shared, call, rfl, there, acted, rfl⟩ | ⟨change, _, rfl⟩
  · exact .inl found
  · change shared key = some item at found
    obtain ⟨input, c⟩ := t
    cases c with
    | writing operation request now =>
        rw [(act_writing acted).1] at found
        split at found
        · rename_i served
          rcases putItem_cases s.shared request with ⟨holds, same⟩ | ⟨_, same⟩
          · rw [same] at found
            by_cases own : key = request.key
            · subst own
              exact .inr ⟨i, operation, request, now,
                ⟨_, choice, ⟨there, rfl⟩, rfl, served, holds⟩, rfl,
                Option.some.inj ((Table.set_same _ _ _).symm.trans found)⟩
            · exact .inl ((Table.set_other _ own _).symm.trans found)
          · rw [same] at found
            exact .inl found
        · exact .inl found
    | deleting other =>
        injection acted with acted
        injection acted with changed _
        subst changed
        split at found
        · by_cases own : key = other
          · subst own
            cases (Table.set_same _ _ _).symm.trans found
          · exact .inl ((Table.set_other _ own _).symm.trans found)
        · exact .inl found
    | done => cases acted
    | putStarting | getStarting | getting | swapStarting =>
        cases acted
        exact .inl found
  · change reclaim s.shared change key = some item at found
    unfold reclaim at found
    split at found
    · by_cases own : key = change.key
      · subst own
        cases (Table.set_same _ _ _).symm.trans found
      · exact .inl ((Table.set_other _ own _).symm.trans found)
    · exact .inl found

/-- A call that has written is there, and was asked to. -/
theorem asked_of_takes (run : (program Value).Runs ok table events s) {w : Evt Value}
    (member : w ∈ events) {i : ℕ} {operation : Operation} {request : PutRequest Value}
    {now : Seconds} (takes : Takes w i operation request now) :
    ∃ t, s.threads[i]? = some t ∧ Asked now t.input operation request := by
  obtain ⟨t, choice, stepped, writing, _⟩ := takes
  obtain ⟨_, before, _, _⟩ := run.of_mem member
  have fits := fits_of_run before stepped.1
  rw [writing] at fits
  obtain ⟨t', there, same⟩ := run.there_of_mem member stepped.1
  exact ⟨t', there, same.symm ▸ fits⟩

theorem Distinct.before (taken : (program Value).step s label = some s')
    (distinct : Distinct table s'.threads) : Distinct table s.threads where
  once i j t u value there there' own own' := by
    obtain ⟨t', after, same⟩ := thread_persists taken there
    obtain ⟨u', after', same'⟩ := thread_persists taken there'
    exact distinct.once i j t' u' value after after' (by rw [same]; exact own)
      (by rw [same']; exact own')
  fresh key item found i t there := by
    obtain ⟨t', after, same⟩ := thread_persists taken there
    rw [← same]
    exact distinct.fresh key item found i t' after
  apart := distinct.apart

theorem Distinct.earlier {later earlier : List (Evt Value)} {e : Evt Value}
    (run : (program Value).Runs ok table (later ++ e :: earlier) s)
    (distinct : Distinct table s.threads) : Distinct table e.before.threads := by
  induction later generalizing s with
  | nil =>
      cases run with
      | cons _ _ taken => exact distinct.before taken
  | cons _ _ ih =>
      cases run with
      | cons run _ taken => exact ih run (distinct.before taken)

/-! ## Which call wrote a value -/

omit [DecidableEq Value] in
/-- The key holds the value, live or not. -/
def Holds (key : String) (value : Value) (table : Table Value) : Prop :=
  ∃ item, table key = some item ∧ item.value = value

/-- **A value that a key holds was there at the beginning, or since a call wrote it.** -/
theorem source_of_holds (run : (program Value).Runs ok table events s) {key : String}
    {value : Value} (holds : Holds key value s.shared) :
    (Holds key value table ∧ ∀ e ∈ events, Holds key value e.after.shared) ∨
      ∃ later e earlier, events = later ++ e :: earlier ∧ ¬ Holds key value e.before.shared ∧
        (∀ e' ∈ e :: later, Holds key value e'.after.shared) ∧ ∃ i operation request now,
          Takes e i operation request now ∧ request.key = key ∧ request.item.value = value := by
  rcases run.since holds with always | ⟨later, e, earlier, rfl, fresh, after, since⟩
  · exact .inl always
  · obtain ⟨_, _, taken, _⟩ := run.split
    obtain ⟨item, found, same⟩ := after
    refine .inr ⟨later, e, earlier, rfl, fresh,
      List.forall_mem_cons.mpr ⟨⟨item, found, same⟩, since⟩, ?_⟩
    rcases takes_of_item taken found with before | ⟨i, operation, request, now, takes, own, rfl⟩
    · exact absurd ⟨item, before, same⟩ fresh
    · exact ⟨i, operation, request, now, takes, own, same⟩

/-- The value of a call is in a key because the call wrote it. -/
theorem wrote_of_holds (run : (program Value).Runs ok table events s)
    (distinct : Distinct table s.threads) {i : ℕ} {t : Thread (Input Value) (Call Value)}
    (there : s.threads[i]? = some t) {key : String} {value : Value}
    (own : t.input.written = some value) (holds : Holds key value s.shared) :
    Wrote events i := by
  rcases source_of_holds run holds with ⟨⟨item, first, rfl⟩, _⟩ |
    ⟨later, e, earlier, rfl, _, _, j, operation, request, now, takes, rfl, same⟩
  · exact absurd own (distinct.fresh key item first i t there)
  · have member : e ∈ later ++ e :: earlier := by simp
    obtain ⟨u, there', asked⟩ := asked_of_takes run member takes
    obtain rfl := distinct.once j i u t value there' there (same ▸ asked.written) own
    exact ⟨e, member, operation, request, now, takes⟩

/-! ## What a call knows -/

/-- A call that has written finds its item in the table, until it is answered; and it is told
`true` if and only if it has written. -/
def Knows (events : List (Evt Value)) (s : State Value) (i : ℕ) : Call Value → Prop
  | .putStarting .. => ¬ Wrote events i
  | .swapStarting .. => ¬ Wrote events i
  | .writing _ request _ => Wrote events i →
      s.shared request.key = some request.item ∧
        ∃ existing, request.condition.holds existing = true
  | .done (.wrote _ (.ok stored)) => stored = true ↔ Wrote events i
  | _ => True

/-- A call has written before a step, unless it writes in it. -/
theorem wrote_cons {e : Evt Value} {i : ℕ} (wrote : Wrote (e :: events) i) :
    Wrote events i ∨ ∃ operation request now, Takes e i operation request now := by
  obtain ⟨w, member, takes⟩ := wrote
  rcases List.mem_cons.mp member with rfl | older
  · exact .inr takes
  · exact .inl ⟨w, older, takes⟩

theorem Wrote.mono {e : Evt Value} {i : ℕ} (wrote : Wrote events i) : Wrote (e :: events) i :=
  let ⟨w, older, takes⟩ := wrote
  ⟨w, List.mem_cons_of_mem _ older, takes⟩

theorem not_wrote_at_start (run : (program Value).Runs ok table events s) :
    ¬ Wrote events s.threads.length := by
  rintro ⟨w, member, _, _, _, t, _, stepped, _⟩
  obtain ⟨t', there, _⟩ := run.there_of_mem member stepped.1
  exact absurd (List.getElem?_eq_some_iff.mp there).1 (Nat.lt_irrefl _)

/-- A step of a call that waits for its put keeps what it knows. -/
theorem Knows.written (run : (program Value).Runs ok table events s)
    (distinct : Distinct table s.threads) {i : ℕ} {t : Thread (Input Value) (Call Value)}
    {choice : Choice} {operation : Operation} {request : PutRequest Value} {now : Seconds}
    (there : s.threads[i]? = some t) (writing : t.call = .writing operation request now)
    {call' : Call Value} (knows : Knows events s i t.call)
    (acted : act choice s.shared t.call = some (s'.shared, call')) :
    Knows (⟨s, .step i choice, s'⟩ :: events) s' i call' := by
  have asked : Asked now t.input operation request := by
    have fits := fits_of_run run there
    rw [writing] at fits
    exact fits
  rw [writing] at knows acted
  obtain ⟨changed, next⟩ := act_writing acted
  -- the step writes if and only if it is served and the condition holds
  have takes : Wrote (⟨s, .step i choice, s'⟩ :: events) i → Wrote events i ∨
      choice.delivery.served = true ∧
        request.condition.holds (s.shared request.key) = true := by
    intro written
    rcases wrote_cons written with older | ⟨_, _, _, u, _, stepped, writing', served, holds⟩
    · exact .inl older
    · obtain ⟨_, rfl, rfl⟩ := Event.By.unique stepped ⟨there, rfl⟩
      cases writing.symm.trans writing'
      exact .inr ⟨served, holds⟩
  have written : choice.delivery.served = true →
      request.condition.holds (s.shared request.key) = true →
        Wrote (⟨s, .step i choice, s'⟩ :: events) i := fun served holds =>
    ⟨_, List.mem_cons_self, operation, request, now, t, choice, ⟨there, rfl⟩, writing, served,
      holds⟩
  rcases deliver_cases next with ⟨lost, rfl⟩ | ⟨answered, rfl⟩ | ⟨_, rfl⟩
  · intro wrote
    rcases putItem_cases s.shared request with ⟨holds, same⟩ | ⟨fails, same⟩
    · rw [changed, lost, same]
      exact ⟨Table.set_same _ _ _, _, holds⟩
    · rcases takes wrote with older | ⟨_, holds⟩
      · rw [changed, same]
        simpa using knows older
      · cases fails.symm.trans holds
  · show applied _ _ _ = true ↔ _
    rcases putItem_cases s.shared request with ⟨holds, same⟩ | ⟨fails, same⟩
    · rw [same]
      exact ⟨fun _ => written (by rw [answered]; rfl) holds, fun _ => rfl⟩
    · rw [same]
      constructor
      · intro recognised
        obtain ⟨item, found, good⟩ := (Option.any_eq_true _ _).mp recognised
        simp only [Bool.and_eq_true, decide_eq_true_eq] at good
        exact (wrote_of_holds run distinct there asked.written ⟨item, found, good.1⟩).mono
      · intro wrote
        rcases takes wrote with older | ⟨_, holds⟩
        · obtain ⟨found, expected⟩ := knows older
          rw [found] at fails ⊢
          exact asked.own fails fun _ => expected
        · cases fails.symm.trans holds
  · trivial

/-- **Where nobody disturbs a retry, every call knows what it needs to.** -/
theorem knows_of_run (run : (program Value).Runs Undisturbed table events s) {i : ℕ}
    {t : Thread (Input Value) (Call Value)} (there : s.threads[i]? = some t)
    (distinct : Distinct table s.threads) : Knows events s i t.call := by
  revert distinct
  refine run.thread_invariant
    (I := fun events (s : State Value) i t =>
      Distinct table s.threads → Knows events s i t.call) ?_ ?_ ?_ there
  · intro events s s' label i t run taken quiet there others knows distinct
    have knows := knows (distinct.before taken)
    -- a step of somebody else is not a write of this call
    have same : Wrote (⟨s, label, s'⟩ :: events) i → Wrote events i := by
      intro wrote
      rcases wrote_cons wrote with older | ⟨_, _, _, _, choice, ⟨_, own⟩, _⟩
      · exact older
      · exact absurd own (others choice)
    cases at' : t.call with
    | writing operation request now =>
        rw [at'] at knows
        intro wrote
        obtain ⟨found, expected⟩ := knows (same wrote)
        refine ⟨?_, expected⟩
        by_contra changed
        rw [← found] at changed
        obtain ⟨choice, own⟩ := quiet s' taken request.key changed i
          ⟨same wrote, t, operation, request, now, there, at', rfl⟩
        exact others choice own
    | putStarting | swapStarting =>
        rw [at'] at knows
        exact fun wrote => knows (same wrote)
    | done outcome =>
        rw [at'] at knows
        cases outcome with
        | wrote operation result =>
            cases result with
            | ok stored => exact knows.trans ⟨Wrote.mono, same⟩
            | error => trivial
        | got | deleted => trivial
    | getStarting | getting | deleting => trivial
  · intro events s s' input run taken distinct
    have unwritten : ¬ Wrote (⟨s, .begin input, s'⟩ :: events) s.threads.length := by
      intro wrote
      rcases wrote_cons wrote with older | ⟨_, _, _, _, _, ⟨_, own⟩, _⟩
      · exact not_wrote_at_start run older
      · cases own
    show Knows _ _ _ (start input)
    cases input <;>
    · simp only [start]
      split <;> first | exact unwritten | trivial
  · intro events s s' i choice t call run taken quiet there knows acted distinct
    have distinct' := distinct.before taken
    have knows := knows distinct'
    cases at' : t.call with
    | writing operation request now =>
        exact Knows.written run distinct' there at' knows acted
    | putStarting | swapStarting =>
        change act choice s.shared t.call = _ at acted
        rw [at'] at knows acted
        obtain ⟨_, rfl⟩ := Prod.mk.inj (Option.some.inj acted)
        intro wrote
        rcases wrote_cons wrote with older | ⟨_, _, _, _, _, stepped, writing, _⟩
        · exact absurd older knows
        · obtain ⟨_, rfl, _⟩ := Event.By.unique stepped ⟨there, rfl⟩
          cases at'.symm.trans writing
    | getStarting =>
        change act choice s.shared t.call = _ at acted
        rw [at'] at acted
        obtain ⟨_, rfl⟩ := Prod.mk.inj (Option.some.inj acted)
        trivial
    | getting | deleting =>
        change act choice s.shared t.call = _ at acted
        rw [at'] at acted
        obtain ⟨_, next⟩ := Prod.mk.inj (Option.some.inj acted)
        rcases deliver_cases next with ⟨_, rfl⟩ | ⟨_, rfl⟩ | ⟨_, rfl⟩ <;> trivial
    | done =>
        change act choice s.shared t.call = _ at acted
        rw [at'] at acted
        cases acted

/-! ## One stretch for each value -/

/-- A call that writes where its value is not, has not written before. -/
theorem unwritten_of_takes {later earlier : List (Evt Value)} {e : Evt Value} {i : ℕ}
    {operation : Operation} {request : PutRequest Value} {now : Seconds}
    (run : (program Value).Runs Undisturbed table (later ++ e :: earlier) s)
    (distinct : Distinct table s.threads) (takes : Takes e i operation request now)
    (fresh : ¬ Holds request.key request.item.value e.before.shared) : ¬ Wrote earlier i := by
  intro wrote
  obtain ⟨t, _, stepped, writing, _⟩ := takes
  have knows := knows_of_run run.split.1 stepped.1 (distinct.earlier run)
  rw [writing] at knows
  exact fresh ⟨request.item, (knows wrote).1, rfl⟩

/-- **A value that a key holds twice it has held in between.** -/
theorem held_stretch {later earlier : List (Evt Value)} {w : Evt Value}
    (run : (program Value).Runs Undisturbed table (later ++ w :: earlier) s)
    (distinct : Distinct table s.threads) {key : String} {value : Value}
    (first : Holds key value w.before.shared) (second : Holds key value s.shared) :
    Holds key value w.after.shared := by
  rcases source_of_holds run second with ⟨_, always⟩ |
    ⟨later', e, earlier', parts, fresh, always, i, operation, request, now, takes, rfl, rfl⟩
  · exact always w (by simp)
  · -- where the two events stand: `w` after `e`, at `e`, or before it
    have placed : w ∈ later' ∨ w = e ∨ w ∈ earlier' := by
      have member : w ∈ later' ++ e :: earlier' := parts ▸ by simp
      simpa using member
    rcases placed with newer | rfl | older
    · exact always w (List.mem_cons_of_mem _ newer)
    · exact absurd first fresh
    · -- the call would have written its value before `w`, and again at `e`
      rw [parts] at run
      refine absurd ?_ (unwritten_of_takes run distinct takes fresh)
      obtain ⟨t, there, asked⟩ := asked_of_takes run (by simp) takes
      obtain ⟨earliest, before, included, _⟩ := run.split.1.of_mem older
      rcases source_of_holds before first with ⟨⟨item, held, same⟩, _⟩ |
        ⟨_, e', _, rfl, _, _, j, _, _, _, takes', _, same⟩
      · exact absurd (same ▸ asked.written) (distinct.fresh _ item held i t there)
      · have member : e' ∈ earlier' := included (by simp)
        obtain ⟨u, there', asked'⟩ := asked_of_takes run (by simp [member]) takes'
        obtain rfl := distinct.once j i u t _ there' there (same ▸ asked'.written) asked.written
        exact ⟨e', member, _, _, _, takes'⟩

/-- A value that two keys hold, at any two instants, is in one key. -/
theorem key_eq_of_holds (run : (program Value).Runs ok table events s)
    (distinct : Distinct table s.threads) {w w' : Evt Value} (member : w ∈ events)
    (member' : w' ∈ events) {key key' : String} {value : Value}
    (holds : Holds key value w.before.shared) (holds' : Holds key' value w'.before.shared) :
    key = key' := by
  -- the value was there at the beginning, or a call of the run was asked to write it
  have source : ∀ {w : Evt Value} {key}, w ∈ events → Holds key value w.before.shared →
      Holds key value table ∨
        ∃ (i : ℕ) (t : Thread (Input Value) (Call Value)) (now : Seconds)
          (operation : Operation) (request : PutRequest Value), s.threads[i]? = some t ∧
        Asked now t.input operation request ∧ request.key = key ∧
          t.input.written = some value := by
    intro w key member holds
    obtain ⟨earlier, before, included, _⟩ := run.of_mem member
    rcases source_of_holds before holds with ⟨first, _⟩ |
      ⟨_, e, _, rfl, _, _, i, operation, request, now, takes, own, same⟩
    · exact .inl first
    · obtain ⟨t, there, asked⟩ := asked_of_takes run (included (by simp)) takes
      exact .inr ⟨i, t, now, operation, request, there, asked, own, same ▸ asked.written⟩
  rcases source member holds with ⟨item, first, same⟩ | ⟨i, t, _, _, _, there, asked, rfl, own⟩
  · rcases source member' holds' with ⟨item', first', same'⟩ |
      ⟨i, t, _, _, _, there, _, _, own⟩
    · exact distinct.apart key key' item item' first first' (same.trans same'.symm)
    · exact absurd (same ▸ own) (distinct.fresh key item first i t there)
  · rcases source member' holds' with ⟨item', first', same'⟩ |
      ⟨j, u, _, _, _, there', asked', rfl, own'⟩
    · exact absurd (same' ▸ own) (distinct.fresh key' item' first' i t there)
    · obtain rfl := distinct.once i j t u value there there' own own'
      obtain rfl : t = u := Option.some.inj (there.symm.trans there')
      generalize t.input = input at asked asked'
      cases asked with
      | put => cases asked'; rfl
      | swap => cases asked'; rfl

/-! ## The reports -/

/-- What a call that is there writes is what it was asked to write. -/
theorem asked_of_there (run : (program Value).Runs ok table events s) {w : Evt Value}
    (member : w ∈ events) {i : ℕ} {operation : Operation} {request : PutRequest Value}
    {now : Seconds} (takes : Takes w i operation request now) {input : Input Value}
    {call : Call Value} (there : s.threads[i]? = some ⟨input, call⟩) :
    Asked now input operation request := by
  obtain ⟨t, there', asked⟩ := asked_of_takes run member takes
  obtain rfl := Option.some.inj (there'.symm.trans there)
  exact asked

/-- What a write that takes effect leaves. -/
theorem item_of_takes {w : Evt Value} {i : ℕ} {operation : Operation}
    {request : PutRequest Value} {now : Seconds} (takes : Takes w i operation request now)
    (taken : (program Value).step w.before w.label = some w.after) :
    w.after.shared request.key = some request.item := by
  obtain ⟨t, choice, ⟨there, label⟩, writing, served, holds⟩ := takes
  rw [label] at taken
  rcases step_cases taken with ⟨_, other, _⟩ | ⟨_, _, u, shared, call, same, there', acted, after⟩ |
    ⟨_, other, _⟩
  · cases other
  · cases same
    obtain rfl := Option.some.inj (there.symm.trans there')
    change act choice _ t.call = _ at acted
    rw [writing] at acted
    rw [after]
    show shared request.key = _
    rw [(act_writing acted).1, if_pos served]
    rcases putItem_cases w.before.shared request with ⟨_, same⟩ | ⟨fails, _⟩
    · rw [same]
      exact Table.set_same _ _ _
    · cases holds.symm.trans fails
  · cases other

/-- A swap that takes effect finds its expected value, and makes it disappear. -/
theorem expected_of_swap {later earlier : List (Evt Value)} {w : Evt Value} {i : ℕ}
    {operation : Operation} {request : PutRequest Value} {now : Seconds} {key : String}
    {expected new : Value} {ttl : ℕ} {call : Call Value}
    (run : (program Value).Runs ok table (later ++ w :: earlier) s)
    (distinct : Distinct table s.threads) (takes : Takes w i operation request now)
    (there : s.threads[i]? = some ⟨.compareAndSwap key expected new ttl, call⟩) :
    Holds key expected w.before.shared ∧ ¬ Holds key expected w.after.shared := by
  obtain ⟨before, _, taken, _⟩ := run.split
  have left := item_of_takes takes taken
  cases asked_of_there run (by simp) takes there with
  | swap =>
      obtain ⟨_, _, _, _, _, holds⟩ := id takes
      have first := swap_expected holds
      refine ⟨first, ?_⟩
      rintro ⟨item, found, same⟩
      obtain rfl : _ = item := Option.some.inj (left.symm.trans found)
      obtain rfl : new = expected := same
      -- the first write of this value would be a swap that expects it
      rcases source_of_holds before first with ⟨⟨item, held, same⟩, _⟩ |
        ⟨_, e, _, rfl, fresh, _, j, _, _, _, takes', own, same⟩
      · exact distinct.fresh _ item held i _ there (same ▸ rfl)
      · obtain ⟨u, there', asked'⟩ := asked_of_takes run (by simp) takes'
        obtain rfl := distinct.once j i u _ new there' there (same ▸ asked'.written) rfl
        obtain ⟨_, _, _, _, _, holds'⟩ := id takes'
        cases asked_of_there run (by simp) takes' there with
        | swap => exact fresh (swap_expected holds')

/-- **At most one swap of a value returns `true`: the later of two would find the value
gone.** -/
theorem swap_once {later middle earlier : List (Evt Value)} {w w' : Evt Value} {i j : ℕ}
    {operation operation' : Operation} {request request' : PutRequest Value}
    {now now' : Seconds} {key : String} {expected new new' : Value} {ttl ttl' : ℕ}
    {call call' : Call Value}
    (run : (program Value).Runs Undisturbed table (later ++ w' :: (middle ++ w :: earlier)) s)
    (distinct : Distinct table s.threads) (takes : Takes w i operation request now)
    (takes' : Takes w' j operation' request' now')
    (there : s.threads[i]? = some ⟨.compareAndSwap key expected new ttl, call⟩)
    (there' : s.threads[j]? = some ⟨.compareAndSwap key expected new' ttl', call'⟩) : False := by
  have split : later ++ w' :: (middle ++ w :: earlier) =
      (later ++ w' :: middle) ++ w :: earlier := by simp
  obtain ⟨found, gone⟩ := expected_of_swap (split ▸ run) distinct takes there
  obtain ⟨again, _⟩ := expected_of_swap run distinct takes' there'
  exact gone (held_stretch run.split.1 (distinct.earlier run) found again)

/-- Two calls write in two steps. -/
theorem Takes.apart {w w' : Evt Value} {i j : ℕ} {operation operation' : Operation}
    {request request' : PutRequest Value} {now now' : Seconds}
    (takes : Takes w i operation request now) (takes' : Takes w' j operation' request' now')
    (other : i ≠ j) : w ≠ w' := by
  rintro rfl
  obtain ⟨_, _, stepped, _⟩ := takes
  obtain ⟨_, _, stepped', _⟩ := takes'
  exact other (stepped.unique stepped').1

/-- **The conditional writes of the store are exact under retried requests.** -/
theorem writes_exact (run : (program Value).Runs Undisturbed table events s)
    (distinct : Distinct table s.threads) : WritesExact events s where
  told := by
    rintro i input stored ⟨operation, there⟩
    exact knows_of_run run there distinct
  one_swap := by
    rintro i j key key' expected new new' ttl ttl' ⟨_, there⟩ ⟨_, there'⟩
    obtain ⟨w, member, _, request, _, takes⟩ := (knows_of_run run there distinct).mp rfl
    obtain ⟨w', member', _, request', _, takes'⟩ := (knows_of_run run there' distinct).mp rfl
    obtain rfl : key = key' := by
      obtain ⟨later, earlier, parts⟩ := List.append_of_mem member
      obtain ⟨later', earlier', parts'⟩ := List.append_of_mem member'
      exact key_eq_of_holds run distinct member member'
        (expected_of_swap (parts ▸ run) distinct takes there).1
        (expected_of_swap (parts' ▸ run) distinct takes' there').1
    by_contra other
    rcases two_of_mem member member' (takes.apart takes' other) with ⟨_, _, _, rfl⟩ |
      ⟨_, _, _, rfl⟩
    · exact swap_once run distinct takes' takes there' there
    · exact swap_once run distinct takes takes' there there'
  one_put := by
    rintro i j key value value' ttl ttl' other ⟨_, there⟩ ⟨_, there'⟩
    obtain ⟨w, member, _, request, now, takes⟩ := (knows_of_run run there distinct).mp rfl
    obtain ⟨w', member', _, request', now', takes'⟩ := (knows_of_run run there' distinct).mp rfl
    refine ⟨w, member, w', member', takes.apart takes' other, ?_, ?_⟩
    · obtain ⟨_, _, _, _, _, holds⟩ := id takes
      cases asked_of_there run member takes there with
      | put => exact ⟨_, now, takes, rfl, put_vacant holds⟩
    · obtain ⟨_, _, _, _, _, holds⟩ := id takes'
      cases asked_of_there run member' takes' there' with
      | put => exact ⟨_, now', takes', rfl, put_vacant holds⟩

end Run

/-! ## A run -/

/-- While a call waits for its put, no other call takes a step. -/
def alone (s : State Value) : Lbl Value → Bool
  | .begin _ => true
  | .step i _ => (List.range s.threads.length).all fun j =>
      decide (j = i) || s.threads[j]?.all fun t =>
        match t.call with
        | .writing .. => false
        | _ => true
  | .drift _ => false

theorem undisturbed_of_alone (events : List (Evt Value)) (s : State Value) (label : Lbl Value)
    (quiet : alone s label = true) : Undisturbed events s label := by
  rintro s' taken key changed j ⟨_, t, operation, request, now, there, writing, _⟩
  cases label with
  | begin input =>
      cases Option.some.inj taken
      exact absurd rfl changed
  | step i choice =>
      have inside : j < s.threads.length := (List.getElem?_eq_some_iff.mp there).1
      have free := List.all_eq_true.mp quiet j (List.mem_range.mpr inside)
      rw [there] at free
      simp only [Option.all_some, writing, Bool.or_false, decide_eq_true_eq] at free
      exact ⟨choice, by rw [free]⟩
  | drift => cases quiet

/-- Call `i` takes a step at second 1000. -/
def go (i : ℕ) (delivery : Delivery) : Lbl ℕ := .step i ⟨delivery, 1000⟩

/-- A put and a swap whose answers are lost, and a second swap of the same value. -/
def retried : List (Lbl ℕ) :=
  [.begin (.putIfAbsent "k" 0 60000000000), go 0 .answered, go 0 .answerLost, go 0 .answered,
    .begin (.compareAndSwap "k" 0 1 60000000000), go 1 .answered, go 1 .answerLost,
    go 1 .answered,
    .begin (.compareAndSwap "k" 0 2 60000000000), go 2 .answered, go 2 .answered]

/-- Both calls whose answers were lost find their own items; the second swap is refused. -/
theorem writes_exact_retried :
    ∃ events s, (program ℕ).Runs Undisturbed (fun _ => none) events s ∧
      s.threads.map (fun t => t.call) = [.done (.wrote .put (.ok true)),
        .done (.wrote .swap (.ok true)), .done (.wrote .swap (.ok false))] ∧
      WritesExact events s := by
  obtain ⟨events, s, run, calls, inputs⟩ :
      ∃ events s, (program ℕ).Runs Undisturbed (fun _ => none) events s ∧
        s.threads.map (fun t => t.call) = [.done (.wrote .put (.ok true)),
          .done (.wrote .swap (.ok true)), .done (.wrote .swap (.ok false))] ∧
        s.threads.map (fun t => t.input.written) = [some 0, some 1, some 2] :=
    Runs.exists_of_replay (fun _ s label => alone s label) undisturbed_of_alone retried
      (fun _ s => _ ∧ s.threads.map (fun t => t.input.written) = [some 0, some 1, some 2])
      (by decide +kernel)
  refine ⟨events, s, run, calls, writes_exact run ⟨?_, nofun, nofun⟩⟩
  have written : ∀ (i : ℕ) (t : Thread (Input ℕ) (Call ℕ)), s.threads[i]? = some t →
      t.input.written = some i := by
    intro i t there
    have same := congrArg (fun inputs => inputs[i]?) inputs
    simp only [List.getElem?_map, there, Option.map_some] at same
    match i with
    | 0 | 1 | 2 => exact Option.some.inj same
    | _ + 3 => cases same
  intro i j t u value there there' own own'
  rw [written i t there] at own
  rw [written j u there'] at own'
  exact Option.some.inj (own.trans own'.symm)

end OAuthRelay.DynamoDb
