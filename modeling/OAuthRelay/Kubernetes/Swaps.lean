import OAuthRelay.Kubernetes.Reports

/-!
# What `compare_and_swap` reports

A swap reads the object, and replaces the version that it read. The server refuses the replace
when the object has another version by then, so the expected value was replaced in one request
or not at all, and a version is replaced once. A conflict can also be the second answer to a
replace whose first answer was lost. The swap resolves it by a third request: if the object
holds the value that this call wrote, and is live, the replace was its own.

A record that is written for less than a millisecond is never live. If the answer of its
replace is lost, the swap finds its own value, takes the record for a stranger's and reports
that nothing was replaced. Unless that happens, a swap reports what happened (`swap_exact`).
-/

set_option autoImplicit false

namespace OAuthRelay.Kubernetes

open Objects Machine
open Async (StoreError)

variable {Value : Type} [DecidableEq Value] {objectName : String → String}

/-! ## What is claimed of a swap -/

/-- What a call does once its `compare_and_swap` has read the clock. -/
def Call.swap? : Call Value → Option (Swap Value)
  | .swapReading swap => some swap
  | .swapping swap _ => some swap
  | .swapChecking swap => some swap
  | _ => none

/-- In one request the call `i` replaced an object that held the expected value and was live by
its clock reading. -/
def Replaced (events : List (machine Value objectName).Event) (i : ℕ) (swap : Swap Value)
    (object : Object (Contents Value)) : Prop :=
  ∃ w ∈ events, ∃ u current, w.By i u ∧ u.call = .swapping swap current ∧
    w.change = some (swap.record.name, some (encode swap.record)) ∧
    w.before.server.objects swap.record.name = some object ∧
    decode swap.record.name object = some current ∧ current.value = swap.expected ∧
    swap.now < current.expiresAtMs

/-- The step tells the call `i` whether its value was replaced. -/
def TellsSwap (e : (machine Value objectName).Event) (i : ℕ) (swapped : Bool) : Prop :=
  e.resumed i = some (.done (.swapped (.ok swapped)))

/-- `compare_and_swap` reports exactly what happened: the reports of the call `i`. -/
structure SwapExact (objectName : String → String)
    (events : List (machine Value objectName).Event) (i : ℕ) : Prop where
  /-- Told `true`, the call replaced a live object with the expected value by its own. -/
  replaced : ∀ e ∈ events, ∀ t, e.By i t → TellsSwap e i true →
    ∃ swap object, t.call.swap? = some swap ∧ swap.For objectName t.input ∧
      Replaced events i swap object
  /-- No other call replaces the same version of the object. -/
  once : ∀ swap object, Replaced events i swap object → ∀ j swap' object',
    Replaced events j swap' object' → swap'.record.name = swap.record.name →
      object'.version = object.version → j = i
  /-- Told `false`, the object does not hold the call's new value when the last request is
  answered. -/
  refused : ∀ e ∈ events, ∀ t, e.By i t → TellsSwap e i false →
    ∃ swap, t.call.swap? = some swap ∧ swap.For objectName t.input ∧
      held e.before.server swap.record.name ≠ some swap.record.value
  /-- Where the object is removed between the read and the replace, the swap changes nothing and
  fails. -/
  removed : ∀ later d earlier, events = later ++ d :: earlier → ∀ t swap current,
    d.before.threads[i]? = some t → t.call = .swapping swap current →
    d.change = some (swap.record.name, none) → (∀ w ∈ earlier, ∀ u, w.By i u → w.change = none) →
      ∀ e ∈ later, ∀ u, e.By i u → e.change = none ∧ ¬ TellsSwap e i true

/-! ## What one step does -/

/-- How a swap goes on: `q` may come after `p`. -/
inductive SwapEdge (σ : Server String (Contents Value)) (delivery : Delivery)
    (swap : Swap Value) : Call Value → Call Value → Prop where
  | waits {p : Call Value} : SwapEdge σ delivery swap p p
  | failed {p : Call Value} : SwapEdge σ delivery swap p (.done (.swapped (.error .backend)))
  | differs : SwapEdge σ delivery swap (.swapReading swap) (.done (.swapped (.ok false)))
  | read {object : Object (Contents Value)} {current : Stored Value}
      (found : σ.objects swap.record.name = some object)
      (decoded : decode swap.record.name object = some current)
      (fresh : swap.now < current.expiresAtMs) (same : current.value = swap.expected) :
      SwapEdge σ delivery swap (.swapReading swap) (.swapping swap current)
  | replaced {current : Stored Value} {object : Object (Contents Value)}
      (answered : delivery = .answered) (found : σ.objects swap.record.name = some object)
      (version : object.version = current.resourceVersion) :
      SwapEdge σ delivery swap (.swapping swap current) (.done (.swapped (.ok true)))
  | absent {current : Stored Value} (gone : σ.objects swap.record.name = none) :
      SwapEdge σ delivery swap (.swapping swap current) (.done (.swapped (.ok false)))
  | conflict {current : Stored Value} :
      SwapEdge σ delivery swap (.swapping swap current) (.swapChecking swap)
  | ours (holds : held σ swap.record.name = some swap.record.value) :
      SwapEdge σ delivery swap (.swapChecking swap) (.done (.swapped (.ok true)))
  | theirs (foreign : ∀ object stored, σ.objects swap.record.name = some object →
        decode swap.record.name object = some stored → stored.value = swap.record.value →
        stored.expiresAtMs ≤ swap.now) :
      SwapEdge σ delivery swap (.swapChecking swap) (.done (.swapped (.ok false)))

omit [DecidableEq Value] in
/-- What a swap is for. -/
theorem swap_of_fits {σ : Server String (Contents Value)} {input : Input Value}
    {call : Call Value} {swap : Swap Value} (fits : call.Fits objectName σ input)
    (own : call.swap? = some swap) : swap.For objectName input := by
  cases call with
  | swapReading swap' | swapping swap' | swapChecking swap' =>
      obtain rfl := Option.some.inj own
      exact fits
  | _ => cases own

variable {s : (machine Value objectName).State} {delivery : Delivery}
  {choice : Choice (Page Value)} {t : Thread (Input Value) (Call Value)} {call : Call Value}

/-- **A swap goes on along an edge.** -/
theorem swap_edge_of_resume {swap : Swap Value} (own : t.call.swap? = some swap)
    (resumed : (machine Value objectName).resume s delivery choice t = some call) :
    SwapEdge s.server delivery swap t.call call := by
  obtain ⟨replica, input, c⟩ := t
  rw [resume_eq] at resumed
  cases c with
  | swapReading swap' =>
      obtain rfl := Option.some.inj own
      refine of_deliver (Option.some.inj resumed) .waits ?_ .failed
      cases found : s.server.objects swap'.record.name with
      | none => exact .differs
      | some object =>
          cases decoded : decode swap'.record.name object with
          | none =>
              simp only [read, decoded]
              exact .failed
          | some current =>
              simp only [read, decoded, swapRead]
              split
              · exact .differs
              · rename_i matching
                obtain ⟨same, good⟩ := Option.filter_eq_some_iff.mp matching
                cases same
                simp only [Bool.and_eq_true, decide_eq_true_eq] at good
                exact .read found decoded good.1 good.2
  | swapping swap' current =>
      obtain rfl := Option.some.inj own
      rcases deliver_cases (Option.some.inj resumed) with ⟨_, rfl⟩ | ⟨answered, rfl⟩ | ⟨_, rfl⟩
      · exact .waits
      · cases outcome : s.server.replaceOutcome swap'.record.name current.resourceVersion with
        | replaced =>
            obtain ⟨object, found, version⟩ := Server.replaceOutcome_eq_replaced.mp outcome
            exact .replaced answered found version
        | conflict => exact .conflict
        | notFound => exact .absent (Server.replaceOutcome_eq_notFound.mp outcome)
      · exact .failed
  | swapChecking swap' =>
      obtain rfl := Option.some.inj own
      refine of_deliver (Option.some.inj resumed) .waits ?_ .failed
      cases found : s.server.objects swap'.record.name with
      | none =>
          refine .theirs fun object stored found' => ?_
          cases found.symm.trans found'
      | some object =>
          cases decoded : decode swap'.record.name object with
          | none =>
              simp only [read, decoded]
              exact .failed
          | some stored =>
              simp only [read, decoded, swapChecked, isOurs, Option.any_some]
              by_cases fresh : swap'.now < stored.expiresAtMs
              · by_cases same : stored.value = swap'.record.value
                · have holds : held s.server swap'.record.name = some swap'.record.value :=
                    held_eq_some.mpr ⟨object, _, found, by
                      rw [← same]; exact (decode_eq_some.mp decoded).1⟩
                  simpa [fresh, same] using SwapEdge.ours holds
                · have foreign : SwapEdge s.server delivery swap' (.swapChecking swap')
                      (.done (.swapped (.ok false))) := by
                    refine .theirs fun object' stored' found' decoded' same' => ?_
                    obtain rfl := Option.some.inj (found.symm.trans found')
                    obtain rfl := Option.some.inj (decoded.symm.trans decoded')
                    exact absurd same' same
                  simpa [fresh, same] using foreign
              · have late : SwapEdge s.server delivery swap' (.swapChecking swap')
                    (.done (.swapped (.ok false))) := by
                  refine .theirs fun object' stored' found' decoded' _ => ?_
                  obtain rfl := Option.some.inj (found.symm.trans found')
                  obtain rfl := Option.some.inj (decoded.symm.trans decoded')
                  exact Nat.not_lt.mp fresh
                simpa [fresh] using late
  | _ => cases own

/-- A call that is told of a swap has begun one, and is past its clock reading. -/
theorem swap_of_told {swapped : Bool}
    (resumed : (machine Value objectName).resume s delivery choice t =
      some (.done (.swapped (.ok swapped)))) : ∃ swap, t.call.swap? = some swap := by
  have same : Kind.swap = t.call.kind := kind_of_resume resumed
  obtain ⟨replica, input, c⟩ := t
  cases c with
  | swapReading swap => exact ⟨swap, rfl⟩
  | swapping swap => exact ⟨swap, rfl⟩
  | swapChecking swap => exact ⟨swap, rfl⟩
  | swapStarting key expected new ttl =>
      have told := Option.some.inj resumed
      simp only [swapStarted] at told
      split at told <;> cases told
  | done => cases resumed
  | _ => cases same

/-- A call past the clock reading of a swap was there before, or has just read the clock. -/
theorem swap_before {swap : Swap Value} (own : call.swap? = some swap)
    (resumed : (machine Value objectName).resume s delivery choice t = some call) :
    t.call.swap? = some swap ∨
      (∃ key expected new ttl, t.call = .swapStarting key expected new ttl) ∧
        call = .swapReading swap := by
  have swaps : call.kind = .swap := by
    cases call with
    | swapReading | swapping | swapChecking => rfl
    | _ => cases own
  have same : t.call.kind = .swap := (kind_of_resume resumed).symm.trans swaps
  have edge := fun swap' (own' : t.call.swap? = some swap') => swap_edge_of_resume own' resumed
  obtain ⟨replica, input, c⟩ := t
  cases c with
  | swapStarting key expected new ttl =>
      refine .inr ⟨⟨key, expected, new, ttl, rfl⟩, ?_⟩
      obtain rfl := Option.some.inj resumed
      simp only [swapStarted] at own ⊢
      split at own
      · cases own
      · cases own
        rfl
  | swapReading swap' | swapping swap' | swapChecking swap' =>
      refine .inl ?_
      cases edge swap' rfl <;> first | exact own | cases own
  | done => cases resumed
  | _ => cases same

/-- Where a call can stand that has asked to replace what it read. -/
inductive Call.Past (swap : Swap Value) (current : Stored Value) : Call Value → Prop where
  | swapping : Past swap current (.swapping swap current)
  | checking : Past swap current (.swapChecking swap)
  | done (outcome : Outcome Value) : Past swap current (.done outcome)

theorem Call.Past.next {swap : Swap Value} {current : Stored Value}
    (past : t.call.Past swap current)
    (resumed : (machine Value objectName).resume s delivery choice t = some call) :
    call.Past swap current := by
  have edge := fun swap' (own' : t.call.swap? = some swap') => swap_edge_of_resume own' resumed
  obtain ⟨replica, input, c⟩ := t
  cases past with
  | swapping =>
      cases edge swap rfl with
      | waits => exact .swapping
      | conflict => exact .checking
      | failed | replaced | absent => exact .done _
  | checking =>
      cases edge swap rfl with
      | waits => exact .checking
      | failed | ours | theirs => exact .done _
  | done => cases resumed

/-- When the version that was read is gone, the call changes nothing any more. -/
theorem Call.Past.change_of_gone {swap : Swap Value} {current : Stored Value}
    {σ : Server String (Contents Value)} (past : call.Past swap current)
    (gone : σ.Gone swap.record.name current.resourceVersion) :
    (await objectName call).change σ delivery = none := by
  cases past with
  | swapping =>
      have refused : σ.replaceOutcome swap.record.name current.resourceVersion ≠ .replaced :=
        fun replaced =>
          let ⟨object, found, version⟩ := Server.replaceOutcome_eq_replaced.mp replaced
          gone.absent object found version
      simp [await, Await.change, Server.replaceChange, refused]
  | checking | done => rfl

/-! ## What a call knows, and what it replaces -/

section Run

variable {ok : List (machine Value objectName).Event → (machine Value objectName).State →
    (machine Value objectName).Lbl → Prop}
  {server : Server String (Contents Value)} {events : List (machine Value objectName).Event}
  {s : (machine Value objectName).State}

/-- What a call is about to replace was read, held the expected value and was live. -/
def Call.Matches (σ : Server String (Contents Value)) : Call Value → Prop
  | .swapping swap current =>
      current.value = swap.expected ∧ swap.now < current.expiresAtMs ∧
        Read σ swap.record.name current
  | _ => True

omit [DecidableEq Value] in
theorem Call.Matches.apply {σ : Server String (Contents Value)} {call : Call Value}
    (matching : call.Matches σ) (change : Option (Change String (Contents Value))) :
    call.Matches (σ.apply change) := by
  cases call with
  | swapping swap current =>
      obtain ⟨same, fresh, object, decoded, known⟩ := matching
      exact ⟨same, fresh, object, decoded, known.apply change⟩
  | _ => trivial

omit [DecidableEq Value] in
theorem Call.Matches.start (σ : Server String (Contents Value)) (input : Input Value) :
    (Kubernetes.start input).Matches σ := by
  cases input with
  | sweep | sweepTick => trivial
  | _ =>
      simp only [Kubernetes.start]
      split <;> trivial

theorem Call.Matches.next {t : Thread (Input Value) (Call Value)} {call : Call Value}
    {delivery : Delivery} {choice : Choice (Page Value)} (matching : t.call.Matches s.server)
    (resumed : (machine Value objectName).resume s delivery choice t = some call) :
    call.Matches s.server := by
  cases call with
  | swapping swap current =>
      have past : (Call.swapping swap current).swap? = some swap := rfl
      rcases swap_before past resumed with own | ⟨_, other⟩
      · have edge := swap_edge_of_resume own resumed
        generalize t.call = before at edge matching
        cases edge with
        | waits => exact matching
        | read found decoded fresh same => exact ⟨same, fresh, _, decoded, .of_held found⟩
      · cases other
  | _ => trivial

theorem matches_of_run (run : (machine Value objectName).Runs ok server events s) {i : ℕ}
    {t : (machine Value objectName).Thr} (there : s.threads[i]? = some t) :
    t.call.Matches s.server := by
  refine run.thread_invariant
    (I := fun _ (s : (machine Value objectName).State) _ (t : (machine Value objectName).Thr) =>
      t.call.Matches s.server) ?_ ?_ ?_ there
  · intro _ s s' label _ t _ taken _ _ _ matching
    rw [step_server taken]
    exact matching.apply _
  · intro _ s s' _ input _ _
    exact .start s'.server input
  · intro _ s s' _ _ _ t call _ taken _ _ matching resumed
    rw [step_server taken]
    exact (matching.next resumed).apply _

/-- **A swap changes the server by replacing a live object with the expected value.** -/
theorem replaced_of_change (run : (machine Value objectName).Runs ok server events s)
    {w : (machine Value objectName).Event} (member : w ∈ events) {i : ℕ}
    {u : (machine Value objectName).Thr} (stepped : w.By i u) (swaps : u.call.kind = .swap)
    {c : Change String (Contents Value)} (change : w.change = some c) :
    ∃ swap current object, u.call = .swapping swap current ∧
      c = (swap.record.name, some (encode swap.record)) ∧ Replaced events i swap object := by
  obtain ⟨_, before, _⟩ := run.of_mem member
  have matching := matches_of_run before stepped.1
  obtain ⟨there, delivery, choice, label⟩ := id stepped
  have made := (Event.change_eq label there).symm.trans change
  obtain ⟨replica, input, call⟩ := u
  cases call with
  | swapping swap current =>
      simp only [machine, await, Await.change] at made
      split at made
      · obtain ⟨⟨object, found, version⟩, rfl⟩ := Server.replaceChange_eq_some made
        obtain ⟨same, fresh, object', decoded, known⟩ := matching
        obtain rfl := known.eq object found (version.trans (decode_eq_some.mp decoded).2.2)
        exact ⟨swap, current, object, rfl, rfl, w, member, _, current, stepped, rfl, change,
          found, decoded, same, fresh⟩
      · cases made
  | swapStarting | swapReading | swapChecking | done => cases made
  | _ => cases swaps

/-- A call that is told of a swap goes on along an edge of the swap it was begun for. -/
theorem swap_of_tells {e : (machine Value objectName).Event} {i : ℕ}
    {t : (machine Value objectName).Thr} {swapped : Bool}
    (fits : t.call.Fits objectName e.before.server t.input) (stepped : e.By i t)
    (told : TellsSwap e i swapped) :
    ∃ swap delivery choice, t.call.swap? = some swap ∧ swap.For objectName t.input ∧
      e.label = .step i delivery choice ∧
      SwapEdge e.before.server delivery swap t.call (.done (.swapped (.ok swapped))) := by
  obtain ⟨t', delivery, choice, there, label, resumed⟩ := Event.resumed_eq_some.mp told
  obtain rfl : t' = t := Option.some.inj (there.symm.trans stepped.1)
  obtain ⟨swap, own⟩ := swap_of_told resumed
  exact ⟨swap, delivery, choice, own, swap_of_fits fits own, label,
    swap_edge_of_resume own resumed⟩

/-- **A name holds the value of a swap because the call has asked to replace what it read.** -/
theorem past_of_held (run : (machine Value objectName).Runs ok server events s)
    (distinct : Distinct server s.threads) {i : ℕ} {t : (machine Value objectName).Thr}
    (there : s.threads[i]? = some t) {swap : Swap Value} (own : t.call.swap? = some swap)
    (holds : held s.server swap.record.name = some swap.record.value) :
    ∃ swap' current replaced object, t.call.Past swap' current ∧
      s.server.objects swap.record.name = some object ∧ object.body = encode swap'.record ∧
      Replaced events i swap' replaced ∧
      ∃ w ∈ events, ∃ u, w.By i u ∧ w.change = some (swap.record.name, some object.body) := by
  obtain ⟨key, expected, new, ttl, asked, record, _⟩ := swap_of_fits (fits_of_run run there) own
  obtain ⟨w, member, u, object, stepped, found, change⟩ :=
    writer_of_held run distinct there (by rw [asked, record]; rfl) holds
  obtain ⟨_, before, _⟩ := run.of_mem member
  -- both steps are of one call, which was begun as a swap
  have swaps : u.call.kind = .swap := by
    obtain ⟨t', after, same⟩ := run.input_of_by member stepped
    obtain rfl : t' = t := Option.some.inj (after.symm.trans there)
    rw [kind_of_run before stepped.1, ← same, asked]
    rfl
  obtain ⟨swap', current, replaced, at', body, done⟩ :=
    replaced_of_change run member stepped swaps change
  injection body with _ body
  injection body with body
  have past : t.call.Past swap' current :=
    run.kept (P := fun (call : Call Value) => call.Past swap' current)
      (fun _ _ _ _ _ past => past.next) member stepped.1 (by rw [at']; exact .swapping) there
  exact ⟨swap', current, replaced, object, past, found, body, done, w, member, u, stepped, change⟩

/-- **A call that is told `true` replaced a live object that held the expected value.** -/
theorem swap_replaced (run : (machine Value objectName).Runs ok server events s)
    (distinct : Distinct server s.threads) {e : (machine Value objectName).Event}
    (member : e ∈ events) {i : ℕ} {t : (machine Value objectName).Thr} (stepped : e.By i t)
    (told : TellsSwap e i true) :
    ∃ swap object, t.call.swap? = some swap ∧ swap.For objectName t.input ∧
      Replaced events i swap object := by
  obtain ⟨earlier, before, included⟩ := run.of_mem member
  obtain ⟨swap, delivery, choice, own, asked, label, edge⟩ :=
    swap_of_tells (fits_of_run before stepped.1) stepped told
  have past := fun holds =>
    past_of_held before (distinct.earlier run member) stepped.1 own holds
  have replaces := fun swaps c change =>
    replaced_of_change (c := c) run member stepped swaps change
  have change : e.change = (await objectName t.call).change e.before.server delivery :=
    Event.change_eq label stepped.1
  generalize at' : t.call = call at edge
  rw [at'] at own past replaces change
  cases edge with
  | waits => cases own
  | @replaced current _ answered found version =>
      obtain ⟨swap', current', object, same, _, done⟩ :=
        replaces rfl (swap.record.name, some (encode swap.record)) (by
          rw [change]
          simp [await, Await.change, answered, Delivery.served, Server.replaceChange,
            Server.replaceOutcome_eq_replaced.mpr ⟨_, found, version⟩])
      cases same
      exact ⟨swap, object, own, asked, done⟩
  | ours holds =>
      obtain ⟨swap', _, replaced, _, past, _, _, ⟨w, older, rest⟩, _⟩ := past holds
      cases past
      exact ⟨swap, replaced, own, asked, w, included older, rest⟩

/-- **A call that is told `false` does not find its value, unless its record was never live.** -/
theorem swap_refused (run : (machine Value objectName).Runs ok server events s)
    (distinct : Distinct server s.threads) {e : (machine Value objectName).Event}
    (member : e ∈ events) {i : ℕ} {t : (machine Value objectName).Thr} (stepped : e.By i t)
    (long : ∀ key expected new ttl, t.input = .compareAndSwap key expected new ttl →
      0 < millis ttl)
    (told : TellsSwap e i false) :
    ∃ swap, t.call.swap? = some swap ∧ swap.For objectName t.input ∧
      held e.before.server swap.record.name ≠ some swap.record.value := by
  obtain ⟨earlier, before, included⟩ := run.of_mem member
  obtain ⟨swap, delivery, choice, own, asked, label, edge⟩ :=
    swap_of_tells (fits_of_run before stepped.1) stepped told
  refine ⟨swap, own, asked, fun holds => ?_⟩
  obtain ⟨swap', current, replaced, object, past, found, body, _⟩ :=
    past_of_held before (distinct.earlier run member) stepped.1 own holds
  obtain ⟨key, expected, new, ttl, input, record, _⟩ := asked
  have lives := long key expected new ttl input
  generalize t.call = call at edge past own
  cases edge with
  | waits => cases own
  | differs => cases past
  | absent gone => cases gone.symm.trans found
  | theirs foreign =>
      cases past
      -- the object is the one that this call wrote, and it expires after the clock reading
      have expired := foreign object ⟨_, _, _, _⟩ found
        (decode_eq_some.mpr ⟨by rw [body]; rfl, rfl, rfl⟩) rfl
      rw [record] at expired
      have : swap.now + millis ttl ≤ swap.now := expired
      omega

/-- **Where the object is removed, the swap of what was read changes nothing and fails.** -/
theorem swap_removed {d : (machine Value objectName).Event}
    {earlier : List (machine Value objectName).Event} {i : ℕ}
    {t : (machine Value objectName).Thr} {swap : Swap Value} {current : Stored Value}
    (there : d.before.threads[i]? = some t) (standing : t.call = .swapping swap current)
    (removes : d.change = some (swap.record.name, none))
    (unwritten : ∀ w ∈ earlier, ∀ u, w.By i u → w.change = none) :
    ∀ {later : List (machine Value objectName).Event} {s : (machine Value objectName).State},
      (machine Value objectName).Runs ok server (later ++ d :: earlier) s →
      Distinct server s.threads → ∀ e ∈ later, ∀ u, e.By i u →
        e.change = none ∧ ¬ TellsSwap e i true := by
  intro later
  induction later with
  | nil => exact fun _ _ _ member => nomatch member
  | cons e' later ih =>
      intro s' run' distinct' e member
      cases run' with
      | @cons _ s _ label run _ taken =>
      have distinct := distinct'.before taken
      have before := ih run distinct
      rcases List.mem_cons.mp member with rfl | older
      · intro u stepped
        have removal : d ∈ later ++ d :: earlier := by simp
        -- the version that was read is gone, and the call is still about it
        have gone : s.server.Gone swap.record.name current.resourceVersion := by
          obtain ⟨_, at', _⟩ := run.of_mem removal
          have matching := matches_of_run at' there
          rw [standing] at matching
          obtain ⟨_, _, object, decoded, known⟩ := matching
          exact run.gone removal removes
            ((decode_eq_some.mp decoded).2.2.symm ▸ known.version_le)
        have past : u.call.Past swap current :=
          run.kept (P := fun (call : Call Value) => call.Past swap current)
            (fun _ _ _ _ _ past => past.next) removal there (by rw [standing]; exact .swapping)
            stepped.1
        have silent : ∀ w ∈ later ++ d :: earlier, ∀ u, w.By i u → ∀ name body,
            w.change ≠ some (name, some body) := by
          intro w inside u stepped name body change
          rcases List.mem_append.mp inside with newer | inside
          · cases change.symm.trans (before w newer u stepped).1
          · rcases List.mem_cons.mp inside with rfl | older
            · cases change.symm.trans removes
            · cases change.symm.trans (unwritten w older u stepped)
        constructor
        · obtain ⟨there', delivery, choice, label'⟩ := stepped
          exact (Event.change_eq label' there').trans (past.change_of_gone gone)
        · intro told
          obtain ⟨swap', delivery, choice, own, _, _, edge⟩ :=
            swap_of_tells (fits_of_run run stepped.1) stepped told
          have holder := fun holds => past_of_held run distinct stepped.1 own holds
          generalize u.call = call at edge past own
          cases edge with
          | waits => cases own
          | replaced _ found version =>
              cases past
              exact gone.absent _ found version
          | ours holds =>
              obtain ⟨_, _, _, _, _, _, _, _, w, inside, u', stepped', change⟩ := holder holds
              exact silent w inside u' stepped' _ _ change
      · exact before e older

/-- **A swap whose record lives at all reports exactly what happened.** -/
theorem swap_exact (run : (machine Value objectName).Runs ok server events s)
    (distinct : Distinct server s.threads) {i : ℕ}
    (long : ∀ (t : (machine Value objectName).Thr) key expected new ttl, s.threads[i]? = some t →
      t.input = .compareAndSwap key expected new ttl → 1000000 ≤ ttl) :
    SwapExact objectName events i where
  replaced e member t stepped told := swap_replaced run distinct member stepped told
  once := by
    rintro swap object ⟨w, member, u, _, stepped, _, change, found, _⟩ j swap' object'
      ⟨w', member', u', _, stepped', _, change', found', _⟩ name version
    rw [name] at change' found'
    obtain rfl := run.change_once member' member change' change found' found version
    exact stepped'.index_eq stepped
  refused e member t stepped told := by
    refine swap_refused run distinct member stepped (fun key expected new ttl asked => ?_) told
    obtain ⟨t', there, same⟩ := run.input_of_by member stepped
    have least := long t' key expected new ttl there (same.trans asked)
    unfold millis
    omega
  removed later d earlier parts t swap current there standing removes unwritten := by
    subst parts
    exact swap_removed there standing removes unwritten run distinct

end Run

/-! ## Two runs -/

/-- A swap of the record that expires at 900, begun at 800. Its replace is applied, the answer
is lost, and the conflict is resolved by a read. -/
def lostSwap (ttl : ℕ) : List (machine ℕ id).Lbl :=
  [.begin 0 (.compareAndSwap "k" 100 0 ttl), go 0 .answered 800, go 0 .answered 0,
    go 0 .answerLost 0, go 0 .answered 0, go 0 .answered 0]

/-- The last step tells the only call `swapped`, while the object holds its value. -/
def LostTells (ttl : ℕ) (swapped : Bool) (events : List (machine ℕ id).Event)
    (s : (machine ℕ id).State) : Prop :=
  (calls s).map (fun t => t.input) = [.compareAndSwap "k" 100 0 ttl] ∧
    events.head?.any fun e =>
      decide (first e = some (.done (.swapped (.ok swapped)))) &&
        decide (held e.before.server "k" = some 0)

instance (ttl : ℕ) (swapped : Bool) (events : List (machine ℕ id).Event)
    (s : (machine ℕ id).State) : Decidable (LostTells ttl swapped events s) :=
  inferInstanceAs (Decidable (_ ∧ _))

theorem input_of_single {threads : List (Thread (Input ℕ) (Call ℕ))} {input : Input ℕ}
    (single : threads.map (fun t => t.input) = [input]) {i : ℕ} {t : Thread (Input ℕ) (Call ℕ)}
    (there : threads[i]? = some t) : t.input = input :=
  List.mem_singleton.mp (single ▸ List.mem_map_of_mem (List.mem_of_getElem? there))

theorem LostTells.distinct {ttl : ℕ} {swapped : Bool} {events : List (machine ℕ id).Event}
    {s : (machine ℕ id).State} (tells : LostTells ttl swapped events s) :
    Distinct expiredServer s.threads := by
  refine distinct_of_numbered (n := 1) ?_ (by decide)
  have written := congrArg (List.map Input.written) tells.1
  rw [List.map_map] at written
  exact written

/-- A record of half a millisecond is never live, and its swap denies it. -/
theorem exists_denied :
    ∃ events s, (machine ℕ id).Runs (machine ℕ id).anyStep expiredServer events s ∧
      LostTells 500000 false events s :=
  Runs.exists_of_replay (lostSwap 500000) (LostTells 500000 false) (by decide +kernel)

/-- A swap can report `false` while the object holds its value. -/
theorem not_swap_exact :
    ¬ ∀ (server : Server String (Contents ℕ)) (events : List (machine ℕ id).Event)
      (s : (machine ℕ id).State) (i : ℕ),
      (machine ℕ id).Runs (machine ℕ id).anyStep server events s →
        Distinct server s.threads → SwapExact id events i := by
  intro all
  obtain ⟨events, s, run, tells⟩ := exists_denied
  have exact' := all _ events s 0 run tells.distinct
  obtain ⟨inputs, last⟩ := tells
  cases events with
  | nil => cases last
  | cons e events =>
      simp only [List.head?_cons, Option.any_some, Bool.and_eq_true, decide_eq_true_eq] at last
      obtain ⟨told, holds⟩ := last
      obtain ⟨t, delivery, choice, there, label, _⟩ := Event.resumed_eq_some.mp told
      have stepped : e.By 0 t := ⟨there, delivery, choice, label⟩
      obtain ⟨swap, _, ⟨key, expected, new, ttl, asked, record, _⟩, differs⟩ :=
        exact'.refused e List.mem_cons_self t stepped told
      obtain ⟨t', there', same⟩ := run.input_of_by List.mem_cons_self stepped
      cases (same.trans asked).symm.trans (input_of_single inputs there')
      rw [record] at differs
      exact differs holds

/-- A record of a minute is found again. -/
theorem swap_exact_lost :
    ∃ events s, (machine ℕ id).Runs (machine ℕ id).anyStep expiredServer events s ∧
      LostTells 60000000000 true events s ∧ SwapExact id events 0 := by
  obtain ⟨events, s, run, tells⟩ : ∃ events s,
      (machine ℕ id).Runs (machine ℕ id).anyStep expiredServer events s ∧
        LostTells 60000000000 true events s :=
    Runs.exists_of_replay (lostSwap 60000000000) (LostTells 60000000000 true) (by decide +kernel)
  refine ⟨events, s, run, tells, swap_exact run tells.distinct ?_⟩
  intro t key expected new ttl there asked
  cases asked.symm.trans (input_of_single tells.1 there)
  decide

end OAuthRelay.Kubernetes
