import OAuthRelay.Kubernetes.Sweeps

/-!
# What the sweeper forgets

A tick of the sweeper lists by expiry hour, from the hour where the last sweep stopped on. The
recorded watermark is the first hour that was not yet entirely past, when the sweep read the
clock. This forgets nothing, for two reasons. A write that is applied within the deadline of the
store goes to an hour that is still to come for every sweep begun before: the grace is longer
than the deadline (`not_due_of_change`). And a sweep records its watermark only after every list
of its pass was read to the end, and every object on it that had expired was deleted, or had
another version by then (`tidy_of_run`).

So no record is left behind the watermark, a sweep that fails leaves the watermark alone, and a
tick lists each hour of its window once, or everything (`sweeper_complete`).
-/

set_option autoImplicit false

namespace OAuthRelay.Kubernetes

open Objects Machine

variable {Value : Type} [DecidableEq Value] {objectName : String → String}

/-! ## Hours -/

/-- `OPERATION_DEADLINE`, in milliseconds. -/
def operationDeadlineMs : ℕ := 10 * 1000

/-- A record in an earlier hour than an instant expired before it. -/
theorem lt_of_expiryHour_lt {expires instant : ℕ}
    (earlier : expiryHour expires < expiryHour instant) :
    expires < instant := by
  by_contra late
  exact absurd (Nat.div_le_div_right (Nat.not_lt.mp late)) (Nat.not_le.mpr earlier)

/-- **Every record in an earlier hour than the settled one is past the grace.** -/
theorem expired_of_lt_settledHour {expires now : ℕ}
    (earlier : expiryHour expires < settledHour now) :
    expires + sweepGraceMs ≤ now := by
  have before := lt_of_expiryHour_lt earlier
  omega

theorem settledHour_mono {before after : ℕ} (le : before ≤ after) :
    settledHour before ≤ settledHour after :=
  Nat.div_le_div_right (Nat.sub_le_sub_right le _)

/-- **What is written within the deadline belongs to an hour that is not settled yet.** -/
theorem settledHour_le_of_prompt {now reading : ℕ} (ttl : ℕ)
    (prompt : now ≤ reading + operationDeadlineMs) :
    settledHour now ≤ expiryHour (reading + ttl) := by
  refine Nat.div_le_div_right ?_
  unfold sweepGraceMs
  unfold operationDeadlineMs at prompt
  omega

/-- **The window of a tick is a day and an hour at most.** -/
theorem hourRange_length_le {watermark last now lastFull : ℕ}
    (full : settledHour lastFull ≤ watermark)
    (due : now - lastFull < fullSweepIntervalMs) (settled : last = settledHour now) :
    (hourRange watermark last).length ≤ 25 := by
  subst settled
  unfold fullSweepIntervalMs at due
  unfold settledHour expiryHour expiryBucketMs sweepGraceMs at *
  rw [hourRange, List.length_range']
  omega

theorem mem_hourRange {first last hour : ℕ} :
    hour ∈ hourRange first last ↔ first ≤ hour ∧ hour ≤ last := by
  rw [hourRange, List.mem_range'_1]
  omega

/-- What is cut into chunks is the chunks one after another. -/
theorem flatten_chunksFrom {α : Type} (n : ℕ) (items : List α) (chunk : Array α)
    (chunks : Array (List α)) :
    (List.toChunks.go n items chunk chunks).flatten =
      chunks.toList.flatten ++ chunk.toList ++ items := by
  induction items generalizing chunk chunks with
  | nil => simp [List.toChunks.go]
  | cons item items ih =>
      rw [List.toChunks.go]
      split
      · simp [ih]
      · simp [ih]

theorem flatten_toChunks {α : Type} (n : ℕ) (items : List α) :
    (items.toChunks n).flatten = items := by
  cases items with
  | nil => simp [List.toChunks]
  | cons item items =>
      cases n with
      | zero => simp [List.toChunks]
      | succ n => simp [List.toChunks, flatten_chunksFrom]

/-! ## What a list returns -/

/-- The token of the page after, if there is one. -/
def nextToken (token : Option String) : Option String := token.filter fun token => !token.isEmpty

/-- The selector and the token that a call asks for a page with. -/
def Call.asks : Call Value → Option (Selector × Option String)
  | .listing _ selector _ token => some (selector, token)
  | _ => none

/-- The page that the call `i` is answered with, after what it asked with. -/
def paged (e : (machine Value objectName).Event) (i : ℕ) :
    Option ((Selector × Option String) × Page Value) :=
  match e.label with
  | .step index .answered choice =>
      if index = i then
        (e.before.threads[i]?).bind fun t => (Call.asks t.call).map fun asked => (asked, choice.page)
      else none
  | _ => none

/-- What the list of the call `i` has still to return: the object was there, as it is, when the
first page was answered, and at every page since, and was on none of them. -/
def Missed (i : ℕ) :
    List (machine Value objectName).Event → String → Object (Contents Value) → Prop
  | [], _, _ => False
  | e :: earlier, name, object =>
      match paged e i with
      | some ((_, token), page) =>
          e.before.server.objects name = some object ∧
            (token = none ∨ Missed i earlier name object) ∧
              ∀ item ∈ page.items, decode name object ≠ some item
      | none => Missed i earlier name object

/-- The selectors whose lists the call `i` has read to the end, the first one first. -/
def completed (i : ℕ) : List (machine Value objectName).Event → List Selector
  | [] => []
  | e :: earlier =>
      match paged e i with
      | some ((selector, _), page) =>
          if nextToken page.continueToken = none then completed i earlier ++ [selector]
          else completed i earlier
      | none => completed i earlier

/-- The clock reading that the expiry was computed from of what a call writes. -/
def Call.reading? : Call Value → Option ℕ
  | .creating put _ => some put.now
  | .replacing put _ _ => some put.now
  | .swapping swap _ => some swap.now
  | _ => none

/-- What is assumed of a step. -/
structure Timely (events : List (machine Value objectName).Event)
    (s : (machine Value objectName).State) (label : (machine Value objectName).Lbl) : Prop where
  /-- There is one clock. -/
  clock : ∀ i delivery (choice : Choice (Page Value)), label = .step i delivery choice →
    choice.reading = s.now
  /-- A write is applied within the deadline. -/
  prompt : ∀ i delivery choice (t : Thread (Input Value) (Call Value)) reading,
    label = .step i delivery choice → s.threads[i]? = some t → t.call.reading? = some reading →
      Event.change (⟨s, label⟩ : (machine Value objectName).Event) ≠ none →
        s.now ≤ reading + operationDeadlineMs
  /-- A list that ends has returned every record that matches and was there from its first page
  on. -/
  whole : ∀ i (choice : Choice (Page Value)) (t : Thread (Input Value) (Call Value)) pass selector
    report token, label = .step i .answered choice → s.threads[i]? = some t →
      t.call = .listing pass selector report token →
      nextToken choice.page.continueToken = none → ∀ name object stored,
        s.server.objects name = some object → decode name object = some stored →
        selector.lists object.body = true → (token = none ∨ Missed i events name object) →
          stored ∈ choice.page.items

/-! ## What is claimed -/

/-- A labelled record whose expiry hour is below an hour. -/
def Due (hour : ℕ) (body : Contents Value) : Prop :=
  body.managed = true ∧ ∃ value expires, body.record = some (value, expires) ∧
    body.expiresHour = some (expiryHour expires) ∧ expiryHour expires < hour

/-- What a tick lists, by its clock reading and what its replica remembered. -/
inductive Schedule (now : ℕ) (memory : Option SweepState) (resumed : Option (Call Value)) :
    List Selector → Prop where
  /-- Everything. -/
  | full (starts : resumed = some .fullStarting) : Schedule now memory resumed [.managed]
  /-- The hours from the watermark to the settled one, each in one chunk. -/
  | hours {state : SweepState} {chunks : List (List ℕ)} (remembered : memory = some state)
      (tiles : chunks.flatten = hourRange state.watermarkHour (settledHour now))
      (once : chunks.flatten.Nodup) (few : chunks.flatten.length ≤ 25) :
      Schedule now memory resumed (chunks.map .expiry)

/-- The sweeper forgets nothing. -/
structure SweeperComplete (events : List (machine Value objectName).Event)
    (s : (machine Value objectName).State) : Prop where
  /-- No record is left behind the watermark. -/
  gone : ∀ replica (state : SweepState), s.memories replica = some state → ∀ name object,
    s.server.objects name = some object → ¬ Due state.watermarkHour object.body
  /-- A sweep that has not succeeded has changed nothing that a replica remembers. -/
  failed : ∀ i (t : Thread (Input Value) (Call Value)), s.threads[i]? = some t →
    (∀ report, t.call ≠ .done (.swept (.ok report))) → ∀ e ∈ events, ∀ u, e.By i u →
      e.memories = e.before.memories
  /-- A tick lists the hours of its window, each once, or is a full sweep: it asks for nothing
  else, reads the lists in order, and has read all of them when it succeeds. -/
  tick : ∀ later r earlier i (t u : Thread (Input Value) (Call Value)) now,
    events = later ++ r :: earlier → r.By i t → t.call = .tickRecalling now →
    s.threads[i]? = some u →
      (∃ c ∈ earlier, ∃ begun, c.By i begun ∧ begun.call = .tickStarting ∧ c.before.now = now) ∧
      ∃ selectors, Schedule now (r.before.memories t.replica) (r.resumed i) selectors ∧
        (∀ pass selector report token, u.call = .listing pass selector report token →
          completed i later ++ [selector] <+: selectors) ∧
        completed i later <+: selectors ∧
        ∀ report, u.call = .done (.swept (.ok report)) → completed i later = selectors

/-! ## Pages -/

section Pages

variable {e : (machine Value objectName).Event} {i : ℕ}

theorem paged_of_listing {choice : Choice (Page Value)} {t : (machine Value objectName).Thr}
    {pass : Pass} {selector : Selector} {report : SweepReport} {token : Option String}
    (there : e.before.threads[i]? = some t) (label : e.label = .step i .answered choice)
    (lists : t.call = .listing pass selector report token) :
    paged e i = some ((selector, token), choice.page) := by
  simp only [paged, label, if_true, there, Option.bind_some]
  rw [lists]
  rfl

/-- A step of another call answers no list of this one. -/
theorem paged_eq_none_of_other (other : ∀ delivery choice, e.label ≠ .step i delivery choice) :
    paged e i = none := by
  unfold paged
  split
  · rename_i index choice label
    split
    · rename_i same
      exact absurd (same ▸ label) (other _ _)
    · rfl
  · rfl

theorem paged_eq_none_of_asks {t : (machine Value objectName).Thr}
    (there : e.before.threads[i]? = some t) (quiet : Call.asks t.call = none) :
    paged e i = none := by
  unfold paged
  split
  · split
    · simp only [there, Option.bind_some]
      rw [quiet]
      rfl
    · rfl
  · rfl

/-- A step whose answer does not arrive answers no list. -/
theorem paged_eq_none_of_unanswered {s : (machine Value objectName).State} {delivery : Delivery}
    {choice : Choice (Page Value)} (unanswered : delivery ≠ .answered) :
    paged (⟨s, .step i delivery choice⟩ : (machine Value objectName).Event) i = none := by
  cases delivery with
  | answered => exact absurd rfl unanswered
  | answerLost | failed => rfl

variable {events : List (machine Value objectName).Event}

theorem missed_cons (unpaged : paged e i = none) {name : String}
    {object : Object (Contents Value)} :
    Missed i (e :: events) name object ↔ Missed i events name object := by
  simp only [Missed, unpaged]

theorem missed_paged {selector : Selector} {token : Option String} {page : Page Value}
    (answer : paged e i = some ((selector, token), page)) {name : String}
    {object : Object (Contents Value)} :
    Missed i (e :: events) name object ↔
      e.before.server.objects name = some object ∧
        (token = none ∨ Missed i events name object) ∧
          ∀ item ∈ page.items, decode name object ≠ some item := by
  simp only [Missed, answer]

theorem completed_cons (unpaged : paged e i = none) :
    completed i (e :: events) = completed i events := by
  simp only [completed, unpaged]

theorem completed_paged {selector : Selector} {token : Option String} {page : Page Value}
    (answer : paged e i = some ((selector, token), page)) :
    completed i (e :: events) =
      if nextToken page.continueToken = none then completed i events ++ [selector]
      else completed i events := by
  simp only [completed, answer]

end Pages

/-! ## What is written -/

/-- What a call writes expires after the clock reading it was computed from. -/
theorem expires_of_change {σ : Server String (Contents Value)} {input : Input Value}
    {call : Call Value} {delivery : Delivery} {name : String} {body : Contents Value}
    (fits : call.Fits objectName σ input)
    (made : (await objectName call).change σ delivery = some (name, some body)) :
    ∃ reading ttl value, call.reading? = some reading ∧
      body.record = some (value, reading + ttl) := by
  cases call with
  | creating put round =>
      obtain ⟨⟨key, value, ttl, _, record⟩, _⟩ := fits
      simp only [await, Await.change] at made
      split at made
      · obtain ⟨_, same⟩ := Server.createChange_eq_some made
        cases same
        exact ⟨put.now, millis ttl, value, rfl, by rw [encode, record]⟩
      · cases made
  | replacing put round existing =>
      obtain ⟨⟨key, value, ttl, _, record⟩, _⟩ := fits
      simp only [await, Await.change] at made
      split at made
      · obtain ⟨_, same⟩ := Server.replaceChange_eq_some made
        cases same
        exact ⟨put.now, millis ttl, value, rfl, by rw [encode, record]⟩
      · cases made
  | swapping swap current =>
      obtain ⟨key, expected, new, ttl, _, record, _⟩ := fits
      simp only [await, Await.change] at made
      split at made
      · obtain ⟨_, same⟩ := Server.replaceChange_eq_some made
        cases same
        exact ⟨swap.now, millis ttl, new, rfl, by rw [encode, record]⟩
      · cases made
  | deleting key =>
      simp only [await, Await.change] at made
      split at made
      · cases (Server.deleteChange_eq_some made).2
      · cases made
  | sweeping pass selector report token object rest =>
      simp only [await, Await.change] at made
      split at made
      · cases (Server.deleteChange_eq_some made).2
      · cases made
  | _ => cases made

section Run

variable {server : Server String (Contents Value)}
  {events : List (machine Value objectName).Event}
  {s s' : (machine Value objectName).State} {label : (machine Value objectName).Lbl}

/-- **What is written is not due for any hour that is settled.** -/
theorem not_due_of_change (run : (machine Value objectName).Runs Timely server events s)
    (timely : Timely events s label) {hour : ℕ} (settled : ∃ n ≤ s.now, hour ≤ settledHour n)
    {name : String} {body : Contents Value}
    (change : Event.change (⟨s, label⟩ : (machine Value objectName).Event) =
      some (name, some body)) : ¬ Due hour body := by
  rintro ⟨_, value, expires, record, _, below⟩
  obtain ⟨n, past, le⟩ := settled
  cases label with
  | tick | begin => cases change
  | step i delivery choice =>
      have made := change
      simp only [Event.change] at made
      split at made
      · rename_i t there
        obtain ⟨reading, ttl, value', reads, record'⟩ :=
          expires_of_change (fits_of_run run there) made
        have prompt := timely.prompt i delivery choice t reading rfl there reads
          (by rw [change]; exact Option.some_ne_none _)
        have late := settledHour_le_of_prompt ttl prompt
        have mono := settledHour_mono past
        rw [record, Option.some.injEq, Prod.mk.injEq] at record'
        rw [record'.2] at below
        omega
      · cases made

/-- What is due after a step was there before it. -/
theorem held_of_due (run : (machine Value objectName).Runs Timely server events s)
    (timely : Timely events s label) (taken : (machine Value objectName).step s label = some s')
    {hour : ℕ} (settled : ∃ n ≤ s.now, hour ≤ settledHour n) {name : String}
    {object : Object (Contents Value)} (held : s'.server.objects name = some object)
    (due : Due hour object.body) : s.server.objects name = some object := by
  rw [step_server taken] at held
  rcases Server.object_after held with before | ⟨change, _⟩
  · exact before
  · exact absurd due (not_due_of_change run timely settled change)

end Run

/-! ## What a sweep has still to delete -/

/-- The hour below which a pass leaves nothing. -/
def Pass.limit : Pass → ℕ
  | .full started => settledHour started
  | .hours last _ => last

/-- The selectors that a pass has still to list, after the present one. -/
def Pass.later : Pass → List Selector
  | .full _ => []
  | .hours _ chunks => chunks.map .expiry

variable (Value) in
omit [DecidableEq Value] in
/-- **After a selector: the next one, or the end of the pass.** -/
theorem passDone_later (pass : Pass) (report : SweepReport) :
    (∃ selector rest pass', pass.later = selector :: rest ∧ pass'.later = rest ∧
      pass'.limit = pass.limit ∧
      (passDone pass report : Call Value) = .listing pass' selector report none) ∨
    pass.later = [] ∧ (passDone pass report : Call Value) = .settling pass report := by
  rcases passDone_cases Value pass report with
    ⟨last, chunk, chunks, rfl, same⟩ | ⟨⟨_, rfl⟩ | ⟨_, rfl⟩, same⟩
  · exact .inl ⟨_, _, .hours last chunks, rfl, rfl, rfl, same⟩
  · exact .inr ⟨rfl, same⟩
  · exact .inr ⟨rfl, same⟩

/-- A pass ends at an hour that was settled when it began. -/
def Pass.Begun (pass : Pass) (now : ℕ) : Prop := ∃ n ≤ now, pass.limit = settledHour n

theorem Pass.Begun.later {pass : Pass} {now now' : ℕ} (begun : pass.Begun now) (le : now ≤ now') :
    pass.Begun now' :=
  let ⟨n, past, same⟩ := begun
  ⟨n, Nat.le_trans past le, same⟩

theorem Pass.Begun.settled {pass : Pass} {now : ℕ} (begun : pass.Begun now) :
    ∃ n ≤ now, pass.limit ≤ settledHour n :=
  let ⟨n, past, same⟩ := begun
  ⟨n, past, Nat.le_of_eq same⟩

/-- What is due is held only as the condition says. -/
def DueOnly (σ : Server String (Contents Value)) (hour : ℕ)
    (P : String → Object (Contents Value) → Prop) : Prop :=
  ∀ name object, σ.objects name = some object → Due hour object.body → P name object

/-- The object is on a list that the pass has still to read. -/
def Pass.Lists (pass : Pass) (object : Object (Contents Value)) : Prop :=
  ∃ selector ∈ pass.later, selector.lists object.body = true

/-- The object is on the rest of the present list. -/
def OnRest (events : List (machine Value objectName).Event) (i : ℕ) (selector : Selector)
    (name : String) (object : Object (Contents Value)) : Prop :=
  selector.lists object.body = true ∧ Missed i events name object

/-- Whatever is due is among the items, on the rest of the list or on a later one. -/
def Remaining (events : List (machine Value objectName).Event)
    (s : (machine Value objectName).State) (i : ℕ) (pass : Pass) (selector : Selector)
    (token : Option String) (items : List (Stored Value)) : Prop :=
  pass.Begun s.now ∧ DueOnly s.server pass.limit fun name object =>
    pass.Lists object ∨ (nextToken token ≠ none ∧ OnRest events i selector name object) ∨
      ∃ item ∈ items, decode name object = some item

/-- What a call of the sweeper knows of what is due. -/
def Call.Tidy (events : List (machine Value objectName).Event)
    (s : (machine Value objectName).State) (i : ℕ) : Call Value → Prop
  | .tickRecalling now => now ≤ s.now
  | .listing pass selector _ token => pass.Begun s.now ∧ DueOnly s.server pass.limit
      fun name object => pass.Lists object ∨
        selector.lists object.body = true ∧ (token = none ∨ Missed i events name object)
  | .listed pass selector _ page =>
      Remaining events s i pass selector page.continueToken page.items
  | .sweeping pass selector _ token object rest =>
      Remaining events s i pass selector token (object :: rest)
  | .settling pass _ => pass.Begun s.now ∧ DueOnly s.server pass.limit fun _ _ => False
  | _ => True

/-- What a replica remembers is true. -/
structure Marks (s : (machine Value objectName).State) (state : SweepState) : Prop where
  settled : ∃ n ≤ s.now, state.watermarkHour ≤ settledHour n
  full : settledHour state.lastFullMs ≤ state.watermarkHour
  gone : DueOnly s.server state.watermarkHour fun _ _ => False

section Step

variable {server : Server String (Contents Value)}
  {events : List (machine Value objectName).Event}
  {s s' : (machine Value objectName).State} {label : (machine Value objectName).Lbl}

theorem DueOnly.after {hour : ℕ} {P Q : String → Object (Contents Value) → Prop}
    (only : DueOnly s.server hour P)
    (run : (machine Value objectName).Runs Timely server events s)
    (timely : Timely events s label) (taken : (machine Value objectName).step s label = some s')
    (settled : ∃ n ≤ s.now, hour ≤ settledHour n)
    (keeps : ∀ name object, s.server.objects name = some object → Due hour object.body →
      P name object → Q name object) : DueOnly s'.server hour Q := by
  intro name object held due
  have before := held_of_due run timely taken settled held due
  exact keeps name object before due (only name object before due)

theorem Marks.after {state : SweepState} (marks : Marks s state)
    (run : (machine Value objectName).Runs Timely server events s)
    (timely : Timely events s label) (taken : (machine Value objectName).step s label = some s') :
    Marks s' state where
  settled :=
    let ⟨n, past, le⟩ := marks.settled
    ⟨n, Nat.le_trans past (step_now taken), le⟩
  full := marks.full
  gone := marks.gone.after run timely taken marks.settled fun _ _ _ _ no => no

/-- **A step that answers no list of a call leaves it nothing more to delete.** -/
theorem Call.Tidy.after {i : ℕ} {call : Call Value} (tidy : call.Tidy events s i)
    (run : (machine Value objectName).Runs Timely server events s)
    (timely : Timely events s label) (taken : (machine Value objectName).step s label = some s')
    (unpaged : paged (⟨s, label⟩ : (machine Value objectName).Event) i = none) :
    call.Tidy (⟨s, label⟩ :: events) s' i := by
  have later := step_now taken
  have remaining : ∀ pass selector token items,
      Remaining events s i pass selector token items →
        Remaining (⟨s, label⟩ :: events) s' i pass selector token items := by
    rintro pass selector token items ⟨begun, only⟩
    refine ⟨begun.later later, only.after run timely taken begun.settled ?_⟩
    rintro name object _ _ (listed | ⟨more, matching, missed⟩ | item)
    · exact .inl listed
    · exact .inr (.inl ⟨more, matching, (missed_cons unpaged).mpr missed⟩)
    · exact .inr (.inr item)
  cases call with
  | tickRecalling now => exact Nat.le_trans tidy later
  | listing pass selector report token =>
      obtain ⟨begun, only⟩ := tidy
      refine ⟨begun.later later, only.after run timely taken begun.settled ?_⟩
      rintro name object _ _ (listed | ⟨matching, first | missed⟩)
      · exact .inl listed
      · exact .inr ⟨matching, .inl first⟩
      · exact .inr ⟨matching, .inr ((missed_cons unpaged).mpr missed)⟩
  | listed pass selector report page => exact remaining _ _ _ _ tidy
  | sweeping pass selector report token object rest => exact remaining _ _ _ _ tidy
  | settling pass report =>
      obtain ⟨begun, only⟩ := tidy
      exact ⟨begun.later later, only.after run timely taken begun.settled fun _ _ _ _ no => no⟩
  | _ => trivial

/-- **After a selector, what is due is on the next list or on a later one.** -/
theorem tidy_passDone {i : ℕ} {pass : Pass} (begun : pass.Begun s.now) (report : SweepReport)
    (only : DueOnly s.server pass.limit fun _ object => pass.Lists object) :
    (passDone pass report).Tidy events s i := by
  rcases passDone_later Value pass report with
    ⟨selector, rest, pass', here, later, limit, same⟩ | ⟨here, same⟩
  · rw [same]
    obtain ⟨n, past, settled⟩ := begun
    refine ⟨⟨n, past, limit.trans settled⟩, fun name object held due => ?_⟩
    rw [limit] at due
    obtain ⟨selector', member, matching⟩ := only name object held due
    rw [here] at member
    rcases List.mem_cons.mp member with rfl | member
    · exact .inr ⟨matching, .inl rfl⟩
    · exact .inl ⟨selector', by rw [later]; exact member, matching⟩
  · rw [same]
    refine ⟨begun, fun name object held due => ?_⟩
    obtain ⟨selector', member, _⟩ := only name object held due
    rw [here] at member
    cases member

/-- **After a delete, what is due is still to be deleted, or on the rest of the list, or on a
later one.** -/
theorem tidy_deletes {i : ℕ} {pass : Pass} {selector : Selector} {report : SweepReport}
    {token : Option String} {items : List (Stored Value)}
    (remaining : Remaining events s i pass selector token items) :
    (deletes pass selector report token items).Tidy events s i := by
  rcases deletes_cases pass selector report token items with
    ⟨object, rest, rfl, same⟩ | ⟨rfl, ⟨next, more, same⟩ | ⟨last, same⟩⟩
  · rw [same]
    exact remaining
  · rw [same]
    obtain ⟨begun, only⟩ := remaining
    refine ⟨begun, fun name object held due => ?_⟩
    rcases only name object held due with listed | ⟨_, matching, missed⟩ | ⟨_, member, _⟩
    · exact .inl listed
    · exact .inr ⟨matching, .inr missed⟩
    · cases member
  · rw [same]
    obtain ⟨begun, only⟩ := remaining
    refine tidy_passDone begun report fun name object held due => ?_
    rcases only name object held due with listed | ⟨more, _⟩ | ⟨_, member, _⟩
    · exact listed
    · exact absurd last more
    · cases member

/-- What a tick schedules covers what is due. -/
theorem tidy_tickRecalled {i now : ℕ} {memory : Option SweepState} (past : now ≤ s.now)
    (marks : ∀ state, memory = some state → Marks s state) :
    (tickRecalled now memory).Tidy events s i := by
  rcases tickRecalled_cases Value now memory with same | ⟨state, remembered, _, same⟩
  · rw [same]
    trivial
  · rw [same]
    have known := marks state remembered
    refine tidy_passDone ⟨now, past, rfl⟩ _ fun name object held due => ?_
    obtain ⟨managed, value, expires, record, labelled, below⟩ := due
    -- the hour is in the window, because nothing is due below the watermark
    have inside : expiryHour expires ∈ hourRange state.watermarkHour (settledHour now) := by
      refine mem_hourRange.mpr ⟨Nat.not_lt.mp fun behind => ?_, Nat.le_of_lt below⟩
      exact known.gone name object held ⟨managed, value, expires, record, labelled, behind⟩
    rw [← flatten_toChunks hoursPerList (hourRange _ _)] at inside
    obtain ⟨chunk, member, inChunk⟩ := List.mem_flatten.mp inside
    refine ⟨.expiry chunk, List.mem_map_of_mem member, ?_⟩
    simp [Selector.lists, managed, labelled, inChunk]

/-- The items that are due are past the grace. -/
theorem tidy_pageListed {i : ℕ} {pass : Pass} {selector : Selector} {report : SweepReport}
    {page : Page Value} {now : ℕ} (late : s.now ≤ now)
    (remaining : Remaining events s i pass selector page.continueToken page.items) :
    (pageListed pass selector report page now).Tidy events s i := by
  obtain ⟨begun, only⟩ := remaining
  refine tidy_deletes ⟨begun, fun name object held due => ?_⟩
  rcases only name object held due with listed | rest | ⟨item, member, decoded⟩
  · exact .inl listed
  · exact .inr (.inl rest)
  · refine .inr (.inr ⟨item, List.mem_filter.mpr ⟨member, decide_eq_true ?_⟩, decoded⟩)
    obtain ⟨n, past, limit⟩ := begun
    obtain ⟨_, value, expires, record, _, below⟩ := due
    rw [(decode_eq_some.mp decoded).1, Option.some.injEq, Prod.mk.injEq] at record
    rw [limit] at below
    have expired := expired_of_lt_settledHour below
    omega

/-- An object that a sweep deletes is not there afterwards. -/
theorem not_held_of_swept (objectName : String → String)
    {σ σ' : Server String (Contents Value)} {pass : Pass} {selector : Selector}
    {report : SweepReport} {token : Option String} {item : Stored Value}
    {rest : List (Stored Value)} {name : String} {object : Object (Contents Value)}
    (server : σ' = σ.apply ((await objectName (.sweeping pass selector report token item
      rest)).change σ .answered)) (decoded : decode name object = some item)
    (held : σ.objects name = some object) : σ'.objects name ≠ some object := by
  obtain ⟨_, rfl, version⟩ := decode_eq_some.mp decoded
  have deletes : σ.deleteChange item.name (some item.resourceVersion) = some (item.name, none) := by
    have outcome := Server.deleteOutcome_eq_deleted.mpr
      ⟨object, held, (by simp [version] : (some item.resourceVersion).all (· = object.version) =
        true)⟩
    simp [Server.deleteChange, outcome]
  subst server
  simp [await, Await.change, Delivery.served, deletes, Server.apply]

/-- **Every step of a sweep keeps track of what is due.** -/
theorem Call.Tidy.next {i : ℕ} {delivery : Delivery} {choice : Choice (Page Value)}
    {t : (machine Value objectName).Thr} {call : Call Value}
    (tidy : Call.Tidy events s i t.call)
    (run : (machine Value objectName).Runs Timely server events s)
    (timely : Timely events s (.step i delivery choice))
    (taken : (machine Value objectName).step s (.step i delivery choice) = some s')
    (there : s.threads[i]? = some t)
    (marks : ∀ replica state, s.memories replica = some state → Marks s state)
    (sweeps : Call.kind t.call = .sweep)
    (resumed : (machine Value objectName).resume s delivery choice t = some call) :
    call.Tidy (⟨s, .step i delivery choice⟩ :: events) s' i := by
  have clock : choice.reading = s.now := timely.clock i delivery choice rfl
  have server := step_server taken
  rw [Event.change_eq rfl there] at server
  have edge := sweep_edge_of_resume sweeps resumed
  have quiet := paged_eq_none_of_asks
    (e := (⟨s, .step i delivery choice⟩ : (machine Value objectName).Event)) there
  generalize at' : Thread.call t = standing at tidy edge quiet server
  cases edge with
  | waits lost =>
      subst lost
      exact tidy.after run timely taken (paged_eq_none_of_unanswered nofun)
  | failed | settled => trivial
  | full =>
      refine Call.Tidy.after ?_ run timely taken (quiet rfl)
      refine ⟨⟨choice.reading, Nat.le_of_eq clock, rfl⟩, fun name object held due => ?_⟩
      exact .inr ⟨due.1, .inl rfl⟩
  | tick => exact Call.Tidy.after (Nat.le_of_eq clock) run timely taken (quiet rfl)
  | recalled =>
      exact (tidy_tickRecalled tidy (marks _)).after run timely taken (quiet rfl)
  | @page pass selector report token answered =>
      subst answered
      have answer := paged_of_listing
        (e := (⟨s, .step i .answered choice⟩ : (machine Value objectName).Event)) there rfl at'
      obtain ⟨begun, only⟩ := tidy
      refine ⟨begun.later (step_now taken), only.after run timely taken begun.settled ?_⟩
      rintro name object held ⟨_, value, expires, record, _⟩ (listed | ⟨matching, missed⟩)
      · exact .inl listed
      · by_cases onPage : ∃ item ∈ choice.page.items, decode name object = some item
        · exact .inr (.inr onPage)
        · refine .inr (.inl ⟨fun last => onPage ?_, matching, (missed_paged answer).mpr
            ⟨held, missed, fun item member decoded => onPage ⟨item, member, decoded⟩⟩⟩)
          have decoded : decode name object = some ⟨name, object.version, value, expires⟩ :=
            decode_eq_some.mpr ⟨record, rfl, rfl⟩
          exact ⟨_, timely.whole i choice t pass selector report token rfl there at' last name
            object _ held decoded matching missed, decoded⟩
  | vetted =>
      exact (tidy_pageListed (Nat.le_of_eq clock.symm) tidy).after run timely taken (quiet rfl)
  | @swept pass selector report report' token object rest answered =>
      subst answered
      have settled := tidy.1.settled
      obtain ⟨begun, only⟩ := tidy.after run timely taken (quiet rfl)
      refine tidy_deletes ⟨begun, fun name object' held due => ?_⟩
      have before := held_of_due run timely taken settled held due
      rcases only name object' held due with listed | onRest | ⟨item, member, decoded⟩
      · exact .inl listed
      · exact .inr (.inl onRest)
      · rcases List.mem_cons.mp member with rfl | member
        · exact absurd held (not_held_of_swept objectName server decoded before)
        · exact .inr (.inr ⟨item, member, decoded⟩)

/-- A call of another operation has nothing to delete. -/
theorem tidy_of_kind {i : ℕ} {call : Call Value} (other : call.kind ≠ .sweep) :
    call.Tidy events s i := by
  cases call with
  | tickRecalling | listing | listed | sweeping | settling => exact absurd rfl other
  | _ => trivial

theorem tidy_start {i : ℕ} (input : Input Value) : (start input).Tidy events s i := by
  cases input with
  | sweep | sweepTick => trivial
  | _ =>
      simp only [start]
      split <;> trivial

/-- What a sweep records is true. -/
theorem marks_settle {pass : Pass} {memory : Option SweepState} {state : SweepState}
    (begun : pass.Begun s.now) (none : DueOnly s.server pass.limit fun _ _ => False)
    (marks : ∀ state, memory = some state → Marks s state)
    (recorded : settle pass memory = some state) : Marks s state := by
  cases pass with
  | full started =>
      cases recorded
      obtain ⟨n, past, same⟩ := begun
      exact ⟨⟨n, past, Nat.le_of_eq same⟩, Nat.le_refl _, none⟩
  | hours last chunks =>
      obtain ⟨old, remembered, rfl⟩ := Option.map_eq_some_iff.mp recorded
      have known := marks old remembered
      obtain ⟨n, past, same⟩ := begun
      have later : old.watermarkHour ≤ max old.watermarkHour last := Nat.le_max_left _ _
      refine ⟨?_, Nat.le_trans known.full later, fun name object held due => ?_⟩
      · obtain ⟨n', past', le⟩ := known.settled
        rcases Nat.le_total old.watermarkHour last with le' | le'
        · exact ⟨n, past, by rw [Nat.max_eq_right le']; exact Nat.le_of_eq same⟩
        · exact ⟨n', past', by rw [Nat.max_eq_left le']; exact le⟩
      · obtain ⟨managed, value, expires, record, labelled, below⟩ := due
        change expiryHour expires < max old.watermarkHour last at below
        have either : expiryHour expires < old.watermarkHour ∨ expiryHour expires < last := by omega
        rcases either with behind | behind
        · exact known.gone name object held ⟨managed, value, expires, record, labelled, behind⟩
        · exact none name object held ⟨managed, value, expires, record, labelled, behind⟩

/-- What a replica remembers after an event it remembered before, or a sweep has just recorded
it. -/
theorem memories_cases {e : (machine Value objectName).Event} {replica : ℕ}
    {memory : Option SweepState} (remembered : e.memories replica = memory) :
    e.before.memories replica = memory ∨
      ∃ i t pass report, e.By i t ∧ t.call = .settling pass report ∧
        settle pass (e.before.memories replica) = memory := by
  subst remembered
  unfold Event.memories
  split
  · rename_i index delivery choice label
    split
    · rename_i t there
      split
      · obtain ⟨replica', input, call⟩ := t
        cases call with
        | settling pass report =>
            exact .inr ⟨index, _, pass, report, ⟨there, delivery, choice, label⟩, rfl, rfl⟩
        | _ => exact .inl rfl
      · exact .inl rfl
    · exact .inl rfl
  · exact .inl rfl

/-- **Nothing is left behind a watermark, and every sweep knows what it has still to delete.** -/
theorem tidy_of_run (run : (machine Value objectName).Runs Timely server events s) :
    (∀ i t, s.threads[i]? = some t → Call.Tidy events s i t.call) ∧
      ∀ replica state, s.memories replica = some state → Marks s state := by
  induction run with
  | nil => exact ⟨fun i t there => by simp [initial] at there, fun _ _ remembered => nomatch remembered⟩
  | @cons events s s' label run timely taken ih =>
      obtain ⟨tidy, marks⟩ := ih
      constructor
      · intro i t there
        rcases thread_after taken there with ⟨before, others⟩ | ⟨replica, input, rfl, _, rfl⟩ |
          ⟨delivery, choice, t, call, rfl, before, resumed, rfl⟩
        · exact (tidy i t before).after run timely taken (paged_eq_none_of_other others)
        · exact tidy_start input
        · by_cases sweeps : Call.kind t.call = .sweep
          · exact (tidy i t before).next run timely taken before marks sweeps resumed
          · exact tidy_of_kind fun same => sweeps ((kind_of_resume resumed).symm.trans same)
      · intro replica state remembered
        rw [step_memories taken] at remembered
        rcases memories_cases remembered with old | ⟨i, t, pass, report, stepped, standing, recorded⟩
        · exact (marks replica state old).after run timely taken
        · have settled := tidy i t stepped.1
          rw [standing] at settled
          exact (marks_settle settled.1 settled.2 (marks replica) recorded).after run timely taken

end Step

/-! ## What a sweep lists -/

/-- What is left of a list after a page with this token. -/
def restOf (selector : Selector) (token : Option String) : List Selector :=
  if nextToken token = none then [] else [selector]

/-- A sweep that has read some lists has the others before it. -/
def Call.Plan (selectors read : List Selector) : Call Value → Prop
  | .fullStarting => read = [] ∧ selectors = [.managed]
  | .listing pass selector _ _ => read ++ selector :: pass.later = selectors
  | .listed pass selector _ page =>
      read ++ (restOf selector page.continueToken ++ pass.later) = selectors
  | .sweeping pass selector _ token _ _ =>
      read ++ (restOf selector token ++ pass.later) = selectors
  | .settling _ _ => read = selectors
  | .done (.swept (.ok _)) => read = selectors
  | .done (.swept (.error _)) => read <+: selectors
  | _ => False

omit [DecidableEq Value] in
theorem plan_passDone {selectors read : List Selector} {pass : Pass} (report : SweepReport)
    (left : read ++ pass.later = selectors) :
    (passDone pass report : Call Value).Plan selectors read := by
  rcases passDone_later Value pass report with
    ⟨selector, rest, pass', here, later, _, same⟩ | ⟨here, same⟩
  · rw [same]
    change read ++ selector :: pass'.later = selectors
    rw [later, ← here, left]
  · rw [same]
    change read = selectors
    rw [← left, here, List.append_nil]

omit [DecidableEq Value] in
theorem plan_deletes {selectors read : List Selector} {pass : Pass} {selector : Selector}
    {report : SweepReport} {token : Option String} {items : List (Stored Value)}
    (left : read ++ (restOf selector token ++ pass.later) = selectors) :
    (deletes pass selector report token items).Plan selectors read := by
  rcases deletes_cases pass selector report token items with
    ⟨object, rest, rfl, same⟩ | ⟨rfl, ⟨next, more, same⟩ | ⟨last, same⟩⟩
  · rw [same]
    exact left
  · rw [same]
    have rest : restOf selector token = [selector] := by
      rw [restOf, if_neg]
      exact fun none => Option.some_ne_none _ (more.symm.trans none)
    rw [rest] at left
    exact left
  · rw [same]
    have rest : restOf selector token = [] := if_pos last
    rw [rest] at left
    exact plan_passDone report left

omit [DecidableEq Value] in
/-- A sweep has read the lists of its schedule in order. -/
theorem Call.Plan.prefix {selectors read : List Selector} {call : Call Value}
    (plan : call.Plan selectors read) : read <+: selectors := by
  cases call with
  | fullStarting =>
      obtain ⟨rfl, _⟩ := plan
      exact List.nil_prefix
  | listing | listed | sweeping => exact ⟨_, plan⟩
  | settling =>
      obtain rfl : read = selectors := plan
      exact List.prefix_refl _
  | done outcome =>
      cases outcome with
      | swept result =>
          cases result with
          | ok =>
              obtain rfl : read = selectors := plan
              exact List.prefix_refl _
          | error => exact plan
      | _ => cases plan
  | _ => cases plan

section Schedule

variable {server : Server String (Contents Value)}
  {events : List (machine Value objectName).Event}
  {s s' : (machine Value objectName).State} {label : (machine Value objectName).Lbl}

omit [DecidableEq Value] in
theorem kind_of_plan {selectors read : List Selector} {call : Call Value}
    (plan : call.Plan selectors read) : call.kind = .sweep := by
  cases call with
  | fullStarting | listing | listed | sweeping | settling => rfl
  | done outcome =>
      cases outcome with
      | swept => rfl
      | _ => cases plan
  | _ => cases plan

/-- **Every step of a sweep keeps to its schedule.** -/
theorem Call.Plan.next {i : ℕ} {delivery : Delivery} {choice : Choice (Page Value)}
    {t : (machine Value objectName).Thr} {call : Call Value} {selectors : List Selector}
    (plan : Call.Plan selectors (completed i events) t.call)
    (there : s.threads[i]? = some t)
    (resumed : (machine Value objectName).resume s delivery choice t = some call) :
    call.Plan selectors (completed i
      ((⟨s, .step i delivery choice⟩ : (machine Value objectName).Event) :: events)) := by
  have edge := sweep_edge_of_resume (kind_of_plan plan) resumed
  have quiet := paged_eq_none_of_asks
    (e := (⟨s, .step i delivery choice⟩ : (machine Value objectName).Event)) there
  have silent : delivery ≠ .answered →
      paged (⟨s, .step i delivery choice⟩ : (machine Value objectName).Event) i = none :=
    paged_eq_none_of_unanswered
  generalize at' : Thread.call t = standing at plan edge quiet
  cases edge with
  | waits lost =>
      subst lost
      rw [completed_cons (silent nofun)]
      exact plan
  | failed failed =>
      obtain ⟨served, rfl⟩ := failed
      rw [completed_cons (silent nofun)]
      exact plan.prefix
  | full =>
      obtain ⟨none, rfl⟩ := plan
      rw [completed_cons (quiet rfl), none]
      rfl
  | tick | recalled => cases plan
  | @page pass selector report token answered =>
      subst answered
      have answer := paged_of_listing
        (e := (⟨s, .step i .answered choice⟩ : (machine Value objectName).Event)) there rfl at'
      rw [completed_paged answer]
      change _ ++ (restOf _ _ ++ _) = _
      unfold restOf
      split
      · exact (List.append_assoc _ _ _).trans plan
      · exact plan
  | vetted =>
      rw [completed_cons (quiet rfl)]
      exact plan_deletes plan
  | swept answered =>
      rw [completed_cons (quiet rfl)]
      exact plan_deletes plan
  | settled =>
      rw [completed_cons (quiet rfl)]
      exact plan

/-- **A sweep keeps to its schedule over a whole run.** -/
theorem plan_of_run {later earlier : List (machine Value objectName).Event}
    {r : (machine Value objectName).Event} {i : ℕ} {t u : (machine Value objectName).Thr}
    {begun : Call Value} {selectors : List Selector}
    (run : (machine Value objectName).Runs Timely server (later ++ r :: earlier) s)
    (stepped : r.By i t) (resumed : r.resumed i = some begun) (plan : begun.Plan selectors [])
    (there : s.threads[i]? = some u) : Call.Plan selectors (completed i later) u.call := by
  induction later generalizing s u with
  | nil =>
      cases run with
      | @cons _ s _ label run _ taken =>
      obtain ⟨t', delivery, choice, before, label', resumed⟩ := Event.resumed_eq_some.mp resumed
      rcases thread_after taken there with ⟨_, others⟩ | ⟨_, _, same, _⟩ |
        ⟨_, _, _, _, same, before', resumed', rfl⟩
      · exact absurd label' (others _ _)
      · cases label'.symm.trans same
      · cases label'.symm.trans same
        obtain rfl := Option.some.inj (before.symm.trans before')
        obtain rfl := Option.some.inj (resumed.symm.trans resumed')
        exact plan
  | cons e later ih =>
      cases run with
      | @cons _ s _ label run _ taken =>
      rcases thread_after taken there with ⟨before, others⟩ | ⟨_, _, _, outside, _⟩ |
        ⟨_, _, _, _, rfl, before, resumed', rfl⟩
      · rw [completed_cons (paged_eq_none_of_other others)]
        exact ih run before
      · obtain ⟨_, inside, _⟩ := run.there_of_mem (e := r) (by simp) stepped.1
        have := (List.getElem?_eq_some_iff.mp inside).1
        omega
      · exact (ih run before).next before resumed'

variable (Value) in
omit [DecidableEq Value] in
/-- **What a tick schedules: the hours of its window, each in one chunk, or everything.** -/
theorem schedule_tickRecalled (now : ℕ) {memory : Option SweepState}
    (full : ∀ state, memory = some state → settledHour state.lastFullMs ≤ state.watermarkHour) :
    ∃ selectors, Schedule now memory (some (tickRecalled now memory : Call Value)) selectors ∧
      (tickRecalled now memory : Call Value).Plan selectors [] := by
  rcases tickRecalled_cases Value now memory with same | ⟨state, remembered, due, same⟩
  · rw [same]
    exact ⟨[.managed], .full rfl, rfl, rfl⟩
  · have few := hourRange_length_le (full state remembered) due rfl
    have tiles := flatten_toChunks hoursPerList (hourRange state.watermarkHour (settledHour now))
    rw [same]
    generalize (hourRange state.watermarkHour (settledHour now)).toChunks hoursPerList = chunks
      at tiles ⊢
    refine ⟨_, .hours remembered tiles ?_ ?_, plan_passDone _ (List.nil_append _)⟩
    · rw [tiles]
      exact List.nodup_range'
    · rw [tiles]
      exact few

omit [DecidableEq Value] in
theorem passDone_ne (pass : Pass) (report : SweepReport) (now : ℕ) :
    (passDone pass report : Call Value) ≠ .tickRecalling now := by
  unfold passDone
  split <;> nofun

omit [DecidableEq Value] in
theorem tickRecalled_ne (instant now : ℕ) (memory : Option SweepState) :
    (tickRecalled instant memory : Call Value) ≠ .tickRecalling now := by
  rcases tickRecalled_cases Value instant memory with same | ⟨_, _, _, same⟩
  · rw [same]
    nofun
  · rw [same]
    exact passDone_ne _ _ _

omit [DecidableEq Value] in
theorem deletes_ne (pass : Pass) (selector : Selector) (report : SweepReport)
    (token : Option String) (items : List (Stored Value)) (now : ℕ) :
    deletes pass selector report token items ≠ .tickRecalling now := by
  cases items with
  | nil =>
      simp only [deletes, pageDone]
      split
      · intro same
        cases same
      · exact passDone_ne _ _ _
  | cons =>
      intro same
      cases same

omit [DecidableEq Value] in
/-- A sweep comes to recall the state only from the start of a tick. -/
theorem recalls_of_edge {memory : Option SweepState} {delivery : Delivery}
    {choice : Choice (Page Value)} {p : Call Value} {now : ℕ}
    (edge : SweepEdge memory delivery choice p (.tickRecalling now)) :
    p = .tickRecalling now ∨ p = .tickStarting ∧ now = choice.reading := by
  generalize after : Call.tickRecalling now = q at edge
  cases edge with
  | waits => exact .inl rfl
  | tick => exact .inr ⟨rfl, Call.tickRecalling.inj after⟩
  | failed | full | page | settled => cases after
  | recalled => exact absurd after.symm (tickRecalled_ne _ _ _)
  | vetted | swept => exact absurd after.symm (deletes_ne _ _ _ _ _ _)

/-- A tick has read the clock before it recalls the state. -/
theorem began_of_run (run : (machine Value objectName).Runs Timely server events s) {i : ℕ}
    {t : (machine Value objectName).Thr} (there : s.threads[i]? = some t) {now : ℕ}
    (recalls : t.call = .tickRecalling now) :
    ∃ c ∈ events, ∃ begun, c.By i begun ∧ begun.call = .tickStarting ∧ c.before.now = now := by
  refine run.thread_invariant
    (I := fun events (_ : (machine Value objectName).State) i
      (t : (machine Value objectName).Thr) => ∀ now, t.call = .tickRecalling now →
        ∃ c ∈ events, ∃ begun, c.By i begun ∧ begun.call = .tickStarting ∧ c.before.now = now)
    ?_ ?_ ?_ there now recalls
  · intro events s s' label i t _ _ _ _ _ began now recalls
    obtain ⟨c, older, rest⟩ := began now recalls
    exact ⟨c, List.mem_cons_of_mem _ older, rest⟩
  · intro events s s' replica input _ _ now recalls
    change start input = _ at recalls
    cases input with
    | sweep | sweepTick => cases recalls
    | _ =>
        simp only [start] at recalls
        split at recalls <;> cases recalls
  · intro events s s' i delivery choice t call run taken timely there began resumed now recalls
    change call = _ at recalls
    subst recalls
    have sweeps : Call.kind t.call = .sweep := (kind_of_resume resumed).symm
    rcases recalls_of_edge (sweep_edge_of_resume sweeps resumed) with standing | ⟨starting, rfl⟩
    · obtain ⟨c, member, rest⟩ := began now standing
      exact ⟨c, List.mem_cons_of_mem _ member, rest⟩
    · exact ⟨_, List.mem_cons_self, t, ⟨there, delivery, choice, rfl⟩, starting,
        (timely.clock i delivery choice rfl).symm⟩

theorem resume_recalling {delivery : Delivery} {choice : Choice (Page Value)}
    {t : Thread (Input Value) (Call Value)} {now : ℕ} (recalls : t.call = .tickRecalling now) :
    (machine Value objectName).resume s delivery choice t =
      some (tickRecalled now (s.memories t.replica)) := by
  rw [resume_eq, recalls]
  rfl

theorem resume_settling {delivery : Delivery} {choice : Choice (Page Value)}
    {t : Thread (Input Value) (Call Value)} {pass : Pass} {report : SweepReport}
    (settles : t.call = .settling pass report) :
    (machine Value objectName).resume s delivery choice t = some (.done (.swept (.ok report))) := by
  rw [resume_eq, settles]
  rfl

theorem resume_done {delivery : Delivery} {choice : Choice (Page Value)}
    {t : Thread (Input Value) (Call Value)} {outcome : Outcome Value}
    (finished : t.call = .done outcome) :
    (machine Value objectName).resume s delivery choice t = none := by
  rw [resume_eq, finished]
  rfl

/-- Only a sweep that is about to succeed changes what a replica remembers. -/
theorem settling_of_memories {e : (machine Value objectName).Event} {i : ℕ}
    {t : (machine Value objectName).Thr} (stepped : e.By i t)
    (changed : e.memories ≠ e.before.memories) :
    ∃ pass report, t.call = .settling pass report := by
  obtain ⟨replica, differs⟩ := Function.ne_iff.mp changed
  rcases memories_cases (rfl : e.memories replica = e.memories replica) with
    same | ⟨j, u, pass, report, stepped', standing, _⟩
  · exact absurd same.symm differs
  · obtain rfl := stepped'.index_eq stepped
    obtain rfl := stepped'.unique stepped
    exact ⟨pass, report, standing⟩

/-- **A call that changed what a replica remembers has succeeded.** -/
theorem succeeded_of_memories (run : (machine Value objectName).Runs Timely server events s)
    {i : ℕ} {t : (machine Value objectName).Thr} (there : s.threads[i]? = some t)
    {e : (machine Value objectName).Event} (member : e ∈ events)
    {u : (machine Value objectName).Thr} (stepped : e.By i u)
    (changed : e.memories ≠ e.before.memories) :
    ∃ report, t.call = .done (.swept (.ok report)) := by
  refine run.thread_invariant
    (I := fun events (_ : (machine Value objectName).State) i
      (t : (machine Value objectName).Thr) => ∀ e ∈ events, ∀ u, e.By i u →
        e.memories ≠ e.before.memories → ∃ report, t.call = .done (.swept (.ok report)))
    ?_ ?_ ?_ there e member u stepped changed
  · intro events s s' label i t _ _ _ _ others told e member u stepped changed
    rcases List.mem_cons.mp member with rfl | older
    · obtain ⟨_, delivery, choice, label⟩ := stepped
      exact absurd label (others delivery choice)
    · exact told e older u stepped changed
  · intro events s s' replica input run _ e member u stepped _
    rcases List.mem_cons.mp member with rfl | older
    · obtain ⟨_, _, _, label⟩ := stepped
      cases label
    · obtain ⟨_, there, _⟩ := run.there_of_mem older stepped.1
      have := (List.getElem?_eq_some_iff.mp there).1
      omega
  · intro events s s' i delivery choice t call run _ _ there told resumed e member u stepped changed
    change ∃ report, call = _
    rcases List.mem_cons.mp member with rfl | older
    · obtain rfl := Option.some.inj (stepped.1.symm.trans there)
      obtain ⟨pass, report, settles⟩ := settling_of_memories stepped changed
      exact ⟨report, Option.some.inj (resumed.symm.trans (resume_settling settles))⟩
    · obtain ⟨report, finished⟩ := told e older u stepped changed
      cases (resume_done finished).symm.trans resumed

/-- **The sweeper forgets nothing.** -/
theorem sweeper_complete (run : (machine Value objectName).Runs Timely server events s) :
    SweeperComplete events s where
  gone replica state remembered name object held due :=
    ((tidy_of_run run).2 replica state remembered).gone name object held due
  failed i t there unfinished e member u stepped := by
    by_contra changed
    obtain ⟨report, succeeded⟩ := succeeded_of_memories run there member stepped changed
    exact unfinished report succeeded
  tick := by
    rintro later r earlier i t u now rfl stepped recalls there
    obtain ⟨before, _⟩ := run.split
    refine ⟨began_of_run before stepped.1 recalls, ?_⟩
    have marks := (tidy_of_run before).2 t.replica
    obtain ⟨selectors, schedule, plan⟩ := schedule_tickRecalled Value now
      fun state remembered => (marks state remembered).full
    have resumed : r.resumed i = some (tickRecalled now (r.before.memories t.replica)) := by
      obtain ⟨there, delivery, choice, label⟩ := stepped
      exact Event.resumed_eq_some.mpr ⟨t, delivery, choice, there, label, resume_recalling recalls⟩
    have kept := plan_of_run run stepped resumed plan there
    refine ⟨selectors, by rw [resumed]; exact schedule, ?_, kept.prefix, ?_⟩
    · intro pass selector report token lists
      rw [lists] at kept
      exact ⟨pass.later, (List.append_assoc _ _ _).trans kept⟩
    · intro report succeeded
      rw [succeeded] at kept
      exact kept

end Schedule

/-! ## A run -/

/-- The call `i` takes a step at an instant, with a page. -/
def stepAt (i instant : ℕ) (items : List (Stored ℕ)) : (machine ℕ id).Lbl :=
  .step i .answered ⟨⟨items, [], none⟩, instant⟩

/-- A full sweep deletes the record that expired at 900. The key is written again for a minute,
and two hours later a tick deletes that record too. -/
def sweptByHour : List (machine ℕ id).Lbl :=
  [.tick 3700000, .begin 0 .sweep, stepAt 0 3700000 [], stepAt 0 3700000 [⟨"k", 1, 100, 900⟩],
    stepAt 0 3700000 [], stepAt 0 3700000 [], stepAt 0 3700000 [],
    .begin 0 (.putIfAbsent "k" 0 60000000000), stepAt 1 3700000 [], stepAt 1 3700000 [],
    .tick 7200000, .begin 0 .sweepTick, stepAt 2 10900000 [], stepAt 2 10900000 [],
    stepAt 2 10900000 [⟨"k", 3, 0, 3760000⟩], stepAt 2 10900000 [], stepAt 2 10900000 [],
    stepAt 2 10900000 []]

/-- A call writes in time, and lists what the key holds. -/
def timelyCall (now : ℕ) (object : Option (Object (Contents ℕ))) (page : Page ℕ)
    (call : Call ℕ) : Bool :=
  (call.reading?.all fun reading => decide (now ≤ reading + 10000)) &&
    (call.asks.isNone || (object.bind (decode "k")).all fun item => decide (item ∈ page.items))

/-- A step changes nothing but the key, reads the right clock, writes in time, and lists what the
key holds. -/
def timely (e : (machine ℕ id).Event) : Bool :=
  (e.change.all fun change => decide (change.1 = "k")) &&
    match e.label with
    | .step i _ choice =>
        decide (choice.reading = e.before.now) && ((calls e.before)[i]?).all fun t =>
          timelyCall e.before.now (e.before.server.objects "k") choice.page t.call
    | _ => true

/-- Only the key is ever held. -/
theorem name_of_held {ok : List (machine ℕ id).Event → (machine ℕ id).State →
      (machine ℕ id).Lbl → Prop} {events : List (machine ℕ id).Event}
    {s : (machine ℕ id).State} (run : (machine ℕ id).Runs ok expiredServer events s)
    (all : events.all timely = true) {name : String} {object : Object (Contents ℕ)}
    (held : s.server.objects name = some object) : name = "k" := by
  rcases run.writer held with first | ⟨w, member, _, _, _, change⟩
  · simp only [expiredServer] at first
    split at first
    · assumption
    · cases first
  · have good := List.all_eq_true.mp all w member
    simp only [timely, change, Option.all_some, Bool.and_eq_true, decide_eq_true_eq] at good
    exact good.1

theorem timely_of_all {ok : List (machine ℕ id).Event → (machine ℕ id).State →
      (machine ℕ id).Lbl → Prop} {events : List (machine ℕ id).Event}
    {s : (machine ℕ id).State} (run : (machine ℕ id).Runs ok expiredServer events s)
    (all : events.all timely = true) (e : (machine ℕ id).Event) (member : e ∈ events)
    (earlier : List (machine ℕ id).Event) : Timely earlier e.before e.label := by
  obtain ⟨before, run, included⟩ := run.of_mem member
  have key : ∀ name object, e.before.server.objects name = some object → name = "k" :=
    fun _ _ held => name_of_held run
      (List.all_eq_true.mpr fun e older => List.all_eq_true.mp all e (included older)) held
  have good := List.all_eq_true.mp all e member
  simp only [timely, Bool.and_eq_true] at good
  obtain ⟨_, good⟩ := good
  have call : ∀ i delivery (choice : Choice (Page ℕ)) (t : Thread (Input ℕ) (Call ℕ)),
      e.label = .step i delivery choice → e.before.threads[i]? = some t →
        timelyCall e.before.now (e.before.server.objects "k") choice.page t.call = true := by
    intro i delivery choice t label there
    simp only [label, Bool.and_eq_true] at good
    have there' : (calls e.before)[i]? = some t := there
    rw [there'] at good
    exact good.2
  constructor
  · intro i delivery choice label
    simp only [label, Bool.and_eq_true, decide_eq_true_eq] at good
    exact good.1
  · intro i delivery choice t reading label there reads _
    have good := call i delivery choice t label there
    simp only [timelyCall, reads, Option.all_some, Bool.and_eq_true, decide_eq_true_eq] at good
    exact good.1
  · intro i choice t pass selector report token label there lists _ name object stored held
      decoded _ _
    obtain rfl := key name object held
    have good := call i .answered choice t label there
    simp only [timelyCall, lists, Call.asks, held, Option.bind_some, decoded, Option.all_some,
      Option.isNone_some, Bool.false_or, Bool.and_eq_true, decide_eq_true_eq] at good
    exact good.2

/-- What the first replica remembers. -/
def memory (s : (machine ℕ id).State) : Option SweepState := s.memories 0

/-- Both records are gone, and the watermark is the hour that was settled at the last tick. -/
def Forgotten (events : List (machine ℕ id).Event) (s : (machine ℕ id).State) : Prop :=
  events.all timely = true ∧ memory s = some ⟨3, 3700000⟩ ∧ held s.server "k" = none

instance (events : List (machine ℕ id).Event) (s : (machine ℕ id).State) :
    Decidable (Forgotten events s) :=
  inferInstanceAs (Decidable (_ ∧ _))

/-- A full sweep and a tick delete what expired before them. -/
theorem sweeper_complete_twice :
    ∃ events s, (machine ℕ id).Runs Timely expiredServer events s ∧ Forgotten events s ∧
      SweeperComplete events s := by
  obtain ⟨events, s, run, forgotten⟩ : ∃ events s,
      (machine ℕ id).Runs (machine ℕ id).anyStep expiredServer events s ∧ Forgotten events s :=
    Runs.exists_of_replay sweptByHour Forgotten (by decide +kernel)
  have timely' := run.of_forall (timely_of_all run forgotten.1)
  exact ⟨events, s, timely', forgotten, sweeper_complete timely'⟩

end OAuthRelay.Kubernetes
