import OAuthRelay.Kubernetes.Calls

/-!
# What `put_if_absent` reports

A create or a replace can be applied with its answer lost, and the retry is then
answered with a conflict. `put_if_absent` resolves the conflict in its next round, by
reading the object: if it holds the value that this call wrote, the write was its own.
So what it reports as stored was stored, by this call, when the key held no live record
(`putStored`), whatever was lost.

The last round has no next one. A replace of the third round that is applied with its
answer lost is retried, answered with a conflict, and reported as a key that somebody
else holds, while the object holds the call's own value. Unless that happens, a call
that is told `false` has not written what the key holds (`put_reports`).
-/

set_option autoImplicit false

namespace OAuthRelay.Kubernetes

open Objects Machine
open Async (StoreError)

variable {Value : Type} [DecidableEq Value] {objectName : String → String}

/-! ## What is claimed of a report -/

/-- `put_if_absent` reports exactly what happened: the reports of the call `i`. -/
structure PutReports (objectName : String → String)
    (events : List (machine Value objectName).Event) (i : ℕ) : Prop where
  /-- Told `true`, the call wrote its value when the key held no live record. -/
  stored : ∀ e ∈ events, ∀ t, e.By i t → e.resumed i = some (.done (.put (.ok true))) →
    ∃ put, t.call.put? = some put ∧ put.For objectName t.input ∧
      ∃ w ∈ events, ∃ u, w.By i u ∧ w.change = some (put.record.name, some (encode put.record)) ∧
        live w.before.server put.record.name put.now = none
  /-- Told `false`, the object does not hold the call's value when the last request is
  answered. -/
  refused : ∀ e ∈ events, ∀ t, e.By i t → e.resumed i = some (.done (.put (.ok false))) →
    ∃ put, t.call.put? = some put ∧ put.For objectName t.input ∧
      held e.before.server put.record.name ≠ some put.record.value
  /-- Told `false`, the call did not write what the object holds. -/
  foreign : ∀ e ∈ events, ∀ t, e.By i t → e.resumed i = some (.done (.put (.ok false))) →
    ∀ w ∈ events, ∀ u name body, w.By i u → w.change = some (name, some body) →
      ∀ object, e.before.server.objects name = some object → object.body ≠ body

/-- The replace of a round of the call `i` is applied and its answer lost. -/
def ReplaceLost (e : (machine Value objectName).Event) (i round : ℕ) : Prop :=
  ∃ t put existing choice, e.By i t ∧ t.call = .replacing put round existing ∧
    e.label = .step i .answerLost choice ∧ e.change ≠ none

/-! ## What was stored -/

section Run

variable {ok : List (machine Value objectName).Event → (machine Value objectName).State →
    (machine Value objectName).Lbl → Prop}
  {server : Server String (Contents Value)} {events : List (machine Value objectName).Event}
  {s s' : (machine Value objectName).State} {label : (machine Value objectName).Lbl}

/-- The call wrote its record, at an instant when the key held no live record. -/
def Wrote (events : List (machine Value objectName).Event) (i : ℕ) (put : Put Value) : Prop :=
  ∃ w ∈ events, ∃ u, w.By i u ∧ w.change = some (put.record.name, some (encode put.record)) ∧
    live w.before.server put.record.name put.now = none

/-- Where the name holds the value of a call, the call wrote it. -/
structure Accounted (events : List (machine Value objectName).Event)
    (s : (machine Value objectName).State) (i : ℕ) (t : (machine Value objectName).Thr) :
    Prop where
  unwritten : ∀ key value ttl, t.call = .putStarting key value ttl →
    held s.server (objectName key) ≠ some value
  wrote : ∀ put, t.call.put? = some put →
    held s.server put.record.name = some put.record.value → Wrote events i put

theorem Wrote.mono {put : Put Value} {i : ℕ} {e : (machine Value objectName).Event}
    (wrote : Wrote events i put) : Wrote (e :: events) i put :=
  let ⟨w, older, rest⟩ := wrote
  ⟨w, List.mem_cons_of_mem _ older, rest⟩

theorem accounted_of_run (run : (machine Value objectName).Runs ok server events s) {i : ℕ}
    {t : (machine Value objectName).Thr} (there : s.threads[i]? = some t)
    (distinct : Distinct server s.threads) : Accounted events s i t := by
  revert distinct
  refine run.thread_invariant
    (I := fun events (s : (machine Value objectName).State) i t =>
      Distinct server s.threads → Accounted events s i t) ?_ ?_ ?_ there
  · intro events s s' label i t run taken _ there others accounted distinct
    have distinct' := distinct.before taken
    have fits := fits_of_run run there
    -- another call writes another value
    have same : ∀ {name value}, t.input.written = some value →
        held s'.server name = some value → held s.server name = some value := by
      intro name value own holds
      rcases held_step run taken distinct' there own holds with before | ⟨⟨_, _, rfl⟩, _⟩
      · exact before
      · exact absurd rfl (others _ _)
    constructor
    · intro key value ttl starting holds
      rw [starting] at fits
      exact (accounted distinct').unwritten key value ttl starting (same (by rw [fits]; rfl) holds)
    · intro put inside holds
      obtain ⟨key, value, ttl, asked, record⟩ := put_of_fits fits inside
      refine ((accounted distinct').wrote put inside (same ?_ holds)).mono
      rw [asked, record]
      rfl
  · intro events s s' replica input run taken distinct
    have unchanged : s'.server = s.server := by rw [← Option.some.inj taken]
    constructor
    · intro key value ttl starting
      rw [unchanged]
      refine unwritten_at_start run taken distinct ?_
      have fits : (start input).Fits objectName s.server input := .start
      change start input = _ at starting
      rw [starting] at fits
      rw [fits]
      rfl
    · intro put inside
      cases (put?_start input).symm.trans inside
  · intro events s s' i delivery choice t call run taken _ there accounted resumed distinct
    have distinct' := distinct.before taken
    have fits := fits_of_run run there
    have follows := follows_of_resume resumed
    constructor
    · intro key value ttl starting
      exact absurd starting (follows.begun key value ttl)
    · intro put inside holds
      have asked : t.input.written = some put.record.value := by
        obtain ⟨key, value, ttl, asked, record⟩ := put_of_fits (fits.next resumed) inside
        rw [asked, record]
        rfl
      rcases held_step run taken distinct' there asked holds with before | ⟨_, body, change⟩
      · rcases follows.put put inside with same | ⟨key, value, ttl, starting, name, own⟩
        · exact ((accounted distinct').wrote put same before).mono
        · rw [name, own] at before
          exact absurd before ((accounted distinct').unwritten key value ttl starting)
      · have made := change
        simp only [Event.change, there] at made
        rcases follows.put put inside with same | ⟨key, value, ttl, starting, _⟩
        · obtain ⟨record, vacant⟩ := vacant_of_change fits same made
          exact ⟨_, List.mem_cons_self, t, ⟨there, _, _, rfl⟩,
            change.trans (congrArg some record), vacant⟩
        · rw [starting] at made
          cases made

end Run

/-! ## What a conflict says -/

/-- A call that replaces an object which holds its value by now, under another version than
the one it read, has lost the answer of this replace. -/
def Confirmed (events : List (machine Value objectName).Event)
    (s : (machine Value objectName).State) (i : ℕ) (t : (machine Value objectName).Thr) : Prop :=
  ∀ put round existing, t.call = .replacing put round existing → ∀ object,
    s.server.objects put.record.name = some object →
      object.body.record.map Prod.fst = some put.record.value →
        object.version = existing.resourceVersion ∨ ∃ w ∈ events, ReplaceLost w i round

/-- A call comes to replace what it has just read, or replaces it once more. -/
theorem replacing_of_resume {s : (machine Value objectName).State} {delivery : Delivery}
    {choice : Choice (Page Value)} {t : Thread (Input Value) (Call Value)} {put : Put Value}
    {round : ℕ} {existing : Stored Value}
    (resumed : (machine Value objectName).resume s delivery choice t =
      some (.replacing put round existing)) :
    (t.call = .replacing put round existing ∧ delivery = .answerLost) ∨
      ∃ object, t.call = .reading put round ∧
        s.server.objects put.record.name = some object ∧
        decode put.record.name object = some existing := by
  have follows := (follows_of_resume resumed).put put rfl
  obtain ⟨replica, input, c⟩ := t
  rw [resume_eq] at resumed
  have loops : ∀ {put' : Put Value} {round'},
      putLoop put' round' ≠ .replacing put round existing := by
    intro put' round' same
    rcases putLoop_cases put' round' with ⟨_, same'⟩ | ⟨_, same'⟩
    · cases same'.symm.trans same
    · cases same'.symm.trans same
  cases c with
  | creating put' round' =>
      rcases deliver_cases (Option.some.inj resumed) with ⟨_, same⟩ | ⟨_, same⟩ | ⟨_, same⟩
      · cases same
      · cases outcome : s.server.createOutcome put'.record.name with
        | created => rw [outcome] at same; cases same
        | alreadyExists => rw [outcome] at same; cases same
      · cases same
  | reading put' round' =>
      rcases deliver_cases (Option.some.inj resumed) with ⟨_, same⟩ | ⟨_, same⟩ | ⟨_, same⟩
      · cases same
      · rcases existing_cases put' round' rfl with other | ⟨other, _⟩ | ⟨other, _⟩ | ⟨other, _⟩ |
          ⟨object, stored, other, found, decoded, _⟩
        · cases same.trans other
        · cases same.trans other
        · exact absurd (same.trans other).symm loops
        · cases same.trans other
        · cases same.trans other
          exact .inr ⟨object, rfl, found, decoded⟩
      · cases same
  | replacing put' round' existing' =>
      rcases deliver_cases (Option.some.inj resumed) with ⟨lost, same⟩ | ⟨_, same⟩ | ⟨_, same⟩
      · exact .inl ⟨same.symm, lost⟩
      · cases outcome : s.server.replaceOutcome put'.record.name existing'.resourceVersion with
        | replaced => rw [outcome] at same; cases same
        | conflict => rw [outcome] at same; exact absurd same.symm loops
        | notFound => rw [outcome] at same; exact absurd same.symm loops
      · cases same
  | putStarting key value ttl =>
      have same := Option.some.inj resumed
      simp only [putStarted] at same
      split at same
      · cases same
      · exact absurd same loops
  | _ =>
      rcases follows with inside | ⟨_, _, _, starting, _⟩
      · cases inside
      · cases starting


section Run

variable {ok : List (machine Value objectName).Event → (machine Value objectName).State →
    (machine Value objectName).Lbl → Prop}
  {server : Server String (Contents Value)} {events : List (machine Value objectName).Event}
  {s : (machine Value objectName).State}

theorem confirmed_of_run (run : (machine Value objectName).Runs ok server events s) {i : ℕ}
    {t : (machine Value objectName).Thr} (there : s.threads[i]? = some t)
    (distinct : Distinct server s.threads) : Confirmed events s i t := by
  revert distinct
  refine run.thread_invariant
    (I := fun events (s : (machine Value objectName).State) i t =>
      Distinct server s.threads → Confirmed events s i t) ?_ ?_ ?_ there
  · intro events s s' label i t run taken _ there others confirmed distinct
    have distinct' := distinct.before taken
    intro put round existing replacing object found record
    rw [step_server taken] at found
    rcases Server.object_after found with before | ⟨change, _⟩
    · rcases confirmed distinct' put round existing replacing object before record with
        same | ⟨w, older, lost⟩
      · exact .inl same
      · exact .inr ⟨w, List.mem_cons_of_mem _ older, lost⟩
    · -- another call writes another value
      have inside : t.call.put? = some put := by rw [replacing]; rfl
      obtain ⟨key, value, ttl, asked, own⟩ := put_of_fits (fits_of_run run there) inside
      obtain ⟨⟨value', expires⟩, record, same⟩ := Option.map_eq_some_iff.mp record
      rw [own] at same
      obtain rfl : value' = value := same
      obtain ⟨_, _, same⟩ := by_of_change run taken distinct' there (by rw [asked]; rfl) change
        record
      exact absurd same (others _ _)
  · intro events s s' replica input run taken distinct put round existing replacing
    have inside : (start input).put? = some put := congrArg Call.put? replacing
    cases (put?_start input).symm.trans inside
  · intro events s s' i delivery choice t call run taken _ there confirmed resumed distinct
    have distinct' := distinct.before taken
    intro put round existing replacing object found record
    obtain rfl : call = _ := replacing
    rw [step_server taken] at found
    rcases replacing_of_resume resumed with ⟨same, rfl⟩ | ⟨read, reading, was, decoded⟩
    · rcases Server.object_after found with before | ⟨change, _⟩
      · rcases confirmed distinct' put round existing same object before record with
          same | ⟨w, older, lost⟩
        · exact .inl same
        · exact .inr ⟨w, List.mem_cons_of_mem _ older, lost⟩
      · refine .inr ⟨_, List.mem_cons_self, t, put, existing, choice, ⟨there, _, _, rfl⟩, same,
          rfl, ?_⟩
        rw [change]
        nofun
    · have unchanged : Event.change
          (⟨s, .step i delivery choice⟩ : (machine Value objectName).Event) = none := by
        simp only [Event.change, there]
        change (await objectName t.call).change _ _ = none
        rw [reading]
        rfl
      rw [unchanged] at found
      obtain rfl : read = object := Option.some.inj (was.symm.trans found)
      exact .inl (decode_eq_some.mp decoded).2.2.symm

/-! ## The reports -/

/-- A call that returns from its loop was in it, for the record it was asked to write. -/
theorem put_of_told {e : (machine Value objectName).Event} {i : ℕ}
    {t : (machine Value objectName).Thr} {stored : Bool}
    (fits : t.call.Fits objectName e.before.server t.input) (stepped : e.By i t)
    (told : e.resumed i = some (.done (.put (.ok stored)))) :
    ∃ put delivery choice, t.call.put? = some put ∧ put.For objectName t.input ∧
      e.label = .step i delivery choice ∧
      (await objectName t.call).next e.before.server (e.before.memories t.replica) delivery choice
        t.call = some (.done (.put (.ok stored))) := by
  obtain ⟨t', delivery, choice, there, label, resumed⟩ := Event.resumed_eq_some.mp told
  obtain rfl : t' = t := Option.some.inj (there.symm.trans stepped.1)
  obtain ⟨put, inside⟩ := (follows_of_resume resumed).told stored rfl
  exact ⟨put, delivery, choice, inside, put_of_fits fits inside, label, resumed⟩

/-- **A call that is told `true` wrote its value when the key held no live record.** -/
theorem put_stored (run : (machine Value objectName).Runs ok server events s)
    (distinct : Distinct server s.threads) {e : (machine Value objectName).Event}
    (member : e ∈ events) {i : ℕ} {t : (machine Value objectName).Thr} (stepped : e.By i t)
    (told : e.resumed i = some (.done (.put (.ok true)))) :
    ∃ put, t.call.put? = some put ∧ put.For objectName t.input ∧ Wrote events i put := by
  obtain ⟨earlier, before, included⟩ := run.of_mem member
  have fits := fits_of_run before stepped.1
  obtain ⟨put, delivery, choice, inside, own, label, resumed⟩ := put_of_told fits stepped told
  refine ⟨put, inside, own, ?_⟩
  have change : e.change = (await objectName t.call).change e.before.server delivery := by
    simp only [Event.change, label, stepped.1]
    rfl
  -- a step that writes is the one that is meant
  have writes : ∀ {c}, (await objectName t.call).change e.before.server delivery = some c →
      Wrote events i put := by
    intro c made
    obtain ⟨record, vacant⟩ := vacant_of_change fits inside made
    exact ⟨e, member, t, stepped, change.trans (made.trans (congrArg some record)), vacant⟩
  have accounted := accounted_of_run before stepped.1 (distinct.earlier run member)
  obtain ⟨replica, input, c⟩ := t
  cases c with
  | creating put' round =>
      rcases deliver_cases (Option.some.inj resumed) with ⟨_, same⟩ | ⟨rfl, same⟩ | ⟨_, same⟩
      · cases same
      · cases outcome : e.before.server.createOutcome put'.record.name with
        | created =>
            have free := Server.createOutcome_eq_created.mp outcome
            refine writes (c := (put'.record.name, some (encode put'.record))) ?_
            simp [await, Await.change, Delivery.served, Server.createChange, free]
        | alreadyExists => rw [outcome] at same; cases same
      · cases same
  | reading put' round =>
      rcases deliver_cases (Option.some.inj resumed) with ⟨_, same⟩ | ⟨_, same⟩ | ⟨_, same⟩
      · cases same
      · rcases existing_cases put' round rfl with other | ⟨_, holds⟩ | ⟨other, _⟩ | ⟨other, _⟩ |
          ⟨_, _, other, _⟩
        · cases same.trans other
        · obtain rfl := Option.some.inj inside
          obtain ⟨w, older, rest⟩ := accounted.wrote put' rfl holds
          exact ⟨w, included older, rest⟩
        · rcases putLoop_cases put' (round + 1) with ⟨_, loop⟩ | ⟨_, loop⟩
          · cases (same.trans other).trans loop
          · cases (same.trans other).trans loop
        · cases same.trans other
        · cases same.trans other
      · cases same
  | replacing put' round existing =>
      rcases deliver_cases (Option.some.inj resumed) with ⟨_, same⟩ | ⟨rfl, same⟩ | ⟨_, same⟩
      · cases same
      · have loops : ∀ {put' : Put Value} {round'},
            putLoop put' round' ≠ .done (.put (.ok true)) := by
          intro put' round' same
          rcases putLoop_cases put' round' with ⟨_, loop⟩ | ⟨_, loop⟩
          · cases loop.symm.trans same
          · cases loop.symm.trans same
        cases outcome : e.before.server.replaceOutcome put'.record.name
            existing.resourceVersion with
        | replaced =>
            refine writes (c := (put'.record.name, some (encode put'.record))) ?_
            simp [await, Await.change, Delivery.served, Server.replaceChange, outcome]
        | conflict => rw [outcome] at same; exact absurd same.symm loops
        | notFound => rw [outcome] at same; exact absurd same.symm loops
      · cases same
  | _ => cases inside

/-- **A call that is told `false` looks at an object that does not hold its value, unless the
answer of its last replace was lost.** -/
theorem put_refused (run : (machine Value objectName).Runs ok server events s)
    (distinct : Distinct server s.threads) {e : (machine Value objectName).Event}
    (member : e ∈ events) {i : ℕ} {t : (machine Value objectName).Thr} (stepped : e.By i t)
    (heard : ∀ w ∈ events, ¬ ReplaceLost w i (replaceRounds - 1))
    (told : e.resumed i = some (.done (.put (.ok false)))) :
    ∃ put, t.call.put? = some put ∧ put.For objectName t.input ∧
      held e.before.server put.record.name ≠ some put.record.value := by
  obtain ⟨earlier, before, included⟩ := run.of_mem member
  have fits := fits_of_run before stepped.1
  obtain ⟨put, delivery, choice, inside, own, label, resumed⟩ := put_of_told fits stepped told
  refine ⟨put, inside, own, ?_⟩
  have confirmed := confirmed_of_run before stepped.1 (distinct.earlier run member)
  obtain ⟨replica, input, c⟩ := t
  cases c with
  | creating put' round =>
      rcases deliver_cases (Option.some.inj resumed) with ⟨_, same⟩ | ⟨_, same⟩ | ⟨_, same⟩
      · cases same
      · cases outcome : e.before.server.createOutcome put'.record.name with
        | created => rw [outcome] at same; cases same
        | alreadyExists => rw [outcome] at same; cases same
      · cases same
  | reading put' round =>
      obtain rfl := Option.some.inj inside
      rcases deliver_cases (Option.some.inj resumed) with ⟨_, same⟩ | ⟨_, same⟩ | ⟨_, same⟩
      · cases same
      · rcases existing_cases put' round rfl with other | ⟨other, _⟩ | ⟨_, absent⟩ |
          ⟨_, differs⟩ | ⟨_, _, other, _⟩
        · cases same.trans other
        · cases same.trans other
        · simp [held, absent]
        · exact differs
        · cases same.trans other
      · cases same
  | replacing put' round existing =>
      obtain rfl := Option.some.inj inside
      obtain ⟨_, below, _⟩ := fits
      rcases deliver_cases (Option.some.inj resumed) with ⟨_, same⟩ | ⟨_, same⟩ | ⟨_, same⟩
      · cases same
      · intro holds
        obtain ⟨object, expires, found, record⟩ := held_eq_some.mp holds
        cases outcome : e.before.server.replaceOutcome put'.record.name
            existing.resourceVersion with
        | replaced => rw [outcome] at same; cases same
        | notFound => cases found.symm.trans (Server.replaceOutcome_eq_notFound.mp outcome)
        | conflict =>
            rw [outcome] at same
            -- the loop is over, so this was its last round
            obtain rfl : round = replaceRounds - 1 := by
              rcases putLoop_cases put' (round + 1) with ⟨_, loop⟩ | ⟨over', _⟩
              · cases same.trans loop
              · omega
            rcases confirmed put' _ existing rfl object found (by rw [record]; rfl) with
              version | ⟨w, older, lost⟩
            · simp [Server.replaceOutcome, found, version] at outcome
            · exact heard w (included older) lost
      · cases same
  | _ => cases inside

/-- **Unless the replace of its last round is applied with the answer lost, what a call of
`put_if_absent` reports is what happened.** -/
theorem put_reports (run : (machine Value objectName).Runs ok server events s)
    (distinct : Distinct server s.threads) {i : ℕ}
    (heard : ∀ w ∈ events, ¬ ReplaceLost w i (replaceRounds - 1)) :
    PutReports objectName events i := by
  have refused : ∀ e ∈ events, ∀ t, e.By i t →
      e.resumed i = some (.done (.put (.ok false))) → _ :=
    fun e member t stepped told => put_refused run distinct member stepped heard told
  refine ⟨fun e member t stepped told => put_stored run distinct member stepped told, refused, ?_⟩
  intro e member t stepped told w older u name body wrote change object found same
  obtain ⟨put, inside, ⟨key, value, ttl, asked, own⟩, differs⟩ := refused e member t stepped told
  obtain ⟨_, before, _⟩ := run.of_mem older
  obtain ⟨value', expires, record, asked', target⟩ :=
    asked_of_change (fits_of_run before wrote.1) wrote change
  -- both steps are of one call, which has one value
  obtain ⟨t', there, input⟩ := run.input_of_by member stepped
  obtain ⟨u', there', input'⟩ := run.input_of_by older wrote
  obtain rfl : u' = t' := Option.some.inj (there'.symm.trans there)
  have one : t.input = u.input := input.symm.trans input'
  rw [← one, asked] at asked' target
  cases asked'
  cases target
  rw [own] at differs
  exact differs (held_eq_some.mpr ⟨object, expires, found, by rw [same, record]⟩)

end Run

/-! ## Two runs -/

/-- A record that expired at 900. -/
def expiredServer : Server String (Contents ℕ) where
  objects name := if name = "k" then some ⟨1, encode ⟨"k", "k", 100, 900⟩⟩ else none
  revision := 1
  numbered := by
    intro name object held
    split at held
    · cases held
      exact Nat.le_refl _
    · cases held

/-- The call `i` takes a step; a clock shows `reading`. -/
def go (i : ℕ) (delivery : Delivery) (reading : ℕ) : (machine ℕ id).Lbl :=
  .step i delivery ⟨⟨[], [], none⟩, reading⟩

/-- The call `i` writes its own number for `ttl` milliseconds. -/
def ask (i ttl : ℕ) : (machine ℕ id).Lbl := .begin i (.putIfAbsent "k" i (ttl * 1000000))

/-- Three calls of `put_if_absent`. The records of the two others expire, by the clock of the
first, before it comes to replace what it read. -/
def contended : List (machine ℕ id).Lbl :=
  [ask 0 60000, go 0 .answered 1000, go 0 .answered 0, go 0 .answered 0,
    ask 1 30, go 1 .answered 950, go 1 .answered 0, go 1 .answered 0, go 1 .answered 0,
    go 0 .answered 0, go 0 .answered 0, go 0 .answered 0,
    ask 2 5, go 2 .answered 990, go 2 .answered 0, go 2 .answered 0, go 2 .answered 0,
    go 0 .answered 0, go 0 .answered 0, go 0 .answered 0]

/-- The calls of a system. -/
def calls (s : (machine ℕ id).State) : List (Thread (Input ℕ) (Call ℕ)) := s.threads

/-- Where the first call stands after an event, when the event is its step. -/
def first (e : (machine ℕ id).Event) : Option (Call ℕ) := e.resumed 0

/-- The last step tells the first call `stored`, and the key holds `value` before it. -/
def Tells (stored : Bool) (value : ℕ) (events : List (machine ℕ id).Event)
    (s : (machine ℕ id).State) : Prop :=
  (calls s).map (fun t => t.input.written) = [some 0, some 1, some 2] ∧
    events.head?.any fun e =>
      decide (first e = some (.done (.put (.ok stored)))) &&
        decide (held e.before.server "k" = some value) &&
        decide ((calls e.before)[0]?.map (fun t => t.input) =
          some (.putIfAbsent "k" 0 (60000 * 1000000)))

instance (stored : Bool) (value : ℕ) (events : List (machine ℕ id).Event)
    (s : (machine ℕ id).State) : Decidable (Tells stored value events s) :=
  inferInstanceAs (Decidable (_ ∧ _))

/-- Calls that write their own numbers write distinct values. -/
theorem distinct_of_numbered {n : ℕ} {threads : List (Thread (Input ℕ) (Call ℕ))}
    (numbered : threads.map (fun t => t.input.written) = (List.range n).map some)
    (few : n ≤ 100) : Distinct expiredServer threads := by
  have written : ∀ (i : ℕ) (t : Thread (Input ℕ) (Call ℕ)), threads[i]? = some t →
      t.input.written = some i ∧ i < n := by
    intro i t there
    have same := congrArg (fun inputs => inputs[i]?) numbered
    simp only [List.getElem?_map, there, Option.map_some] at same
    obtain ⟨value, at', written⟩ := Option.map_eq_some_iff.mp same.symm
    obtain ⟨inside, rfl⟩ := List.getElem?_eq_some_iff.mp at'
    rw [List.getElem_range] at written
    exact ⟨written.symm, by simpa using inside⟩
  constructor
  · intro i j t u value there there' own own'
    rw [(written i t there).1] at own
    rw [(written j u there').1] at own'
    cases own
    cases own'
    rfl
  · intro name value holds i t there own
    obtain ⟨same, below⟩ := written i t there
    obtain ⟨object, expires, found, record⟩ := held_eq_some.mp holds
    simp only [expiredServer] at found
    split at found
    · cases found
      cases record
      rw [same] at own
      cases own
      exact absurd below (Nat.not_lt.mpr few)
    · cases found

/-- The lost answer of the third replace is taken for a refusal. -/
theorem exists_hidden :
    ∃ events s, (machine ℕ id).Runs (machine ℕ id).anyStep expiredServer events s ∧
      Tells false 0 events s :=
  Runs.exists_of_replay (contended ++ [go 0 .answerLost 0, go 0 .answered 0]) (Tells false 0)
    (by decide +kernel)

/-- A call can be told `false` while the key holds its record. -/
theorem not_put_reports :
    ¬ ∀ (server : Server String (Contents ℕ)) (events : List (machine ℕ id).Event)
      (s : (machine ℕ id).State) (i : ℕ),
      (machine ℕ id).Runs (machine ℕ id).anyStep server events s →
        Distinct server s.threads → PutReports id events i := by
  intro all
  obtain ⟨events, s, run, numbered, last⟩ := exists_hidden
  have reports := all _ events s 0 run (distinct_of_numbered (n := 3) numbered (by decide))
  cases events with
  | nil => cases last
  | cons e events =>
      simp only [List.head?_cons, Option.any_some, Bool.and_eq_true, decide_eq_true_eq] at last
      obtain ⟨⟨told, holds⟩, asked⟩ := last
      obtain ⟨t, delivery, choice, there, label, _⟩ := Event.resumed_eq_some.mp told
      obtain ⟨put, _, ⟨key, value, ttl, input, record⟩, differs⟩ :=
        reports.refused e List.mem_cons_self t ⟨there, delivery, choice, label⟩ told
      obtain ⟨t', there', asked⟩ := Option.map_eq_some_iff.mp asked
      obtain rfl : t' = t := Option.some.inj (there'.symm.trans there)
      cases asked.symm.trans input
      rw [record] at differs
      exact differs holds

/-- No answer of these steps is lost. -/
def allHeard (events : List (machine ℕ id).Event) : Bool :=
  events.all fun e =>
    match e.label with
    | .step _ .answerLost _ => false
    | _ => true

/-- With every answer heard, the first call replaces the third record and is told so. -/
theorem put_reports_contended :
    ∃ events s, (machine ℕ id).Runs (machine ℕ id).anyStep expiredServer events s ∧
      Tells true 2 events s ∧ PutReports id events 0 := by
  obtain ⟨events, s, run, heard, tells⟩ :
      ∃ events s, (machine ℕ id).Runs (machine ℕ id).anyStep expiredServer events s ∧
        allHeard events = true ∧ Tells true 2 events s :=
    Runs.exists_of_replay (contended ++ [go 0 .answered 0])
      (fun events s => allHeard events = true ∧ Tells true 2 events s) (by decide +kernel)
  refine ⟨events, s, run, tells, put_reports run (distinct_of_numbered (n := 3) tells.1 (by decide)) ?_⟩
  rintro w older ⟨_, _, _, _, _, _, label, _⟩
  have all := List.all_eq_true.mp heard w older
  rw [label] at all
  cases all

end OAuthRelay.Kubernetes

