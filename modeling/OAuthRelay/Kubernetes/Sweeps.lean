import OAuthRelay.Kubernetes.Reports

/-!
# What the sweeper deletes

A sweep lists a page, reads the clock, and deletes those objects of the page that had expired
more than the grace before. Every delete names the version that was listed, and the server
refuses it when the object has another version by then. So what a sweep deletes is the very
object that it listed, nobody has changed it in between, and it had expired for the grace by
the clock of the replica (`sweeps_settled`).

The grace is what replica clocks may differ by. While they do not differ by more, no replica
still serves what a sweep deletes.
-/

set_option autoImplicit false

namespace OAuthRelay.Kubernetes

open Objects Machine

variable {Value : Type} [DecidableEq Value] {objectName : String → String}

/-! ## How a sweep goes on -/

/-- How a sweep goes on: `q` may come after `p`. -/
inductive SweepEdge (memory : Option SweepState) (delivery : Delivery)
    (choice : Choice (Page Value)) : Call Value → Call Value → Prop where
  | waits {p : Call Value} (lost : delivery = .answerLost) :
      SweepEdge memory delivery choice p p
  | failed {p : Call Value} (failed : ∃ served, delivery = .failed served) :
      SweepEdge memory delivery choice p (.done (.swept (.error ⟨⟩)))
  | full : SweepEdge memory delivery choice .fullStarting
      (.listing (.full choice.reading) .managed ⟨0, 0, 0⟩ none)
  | tick : SweepEdge memory delivery choice .tickStarting (.tickRecalling choice.reading)
  | recalled {now : ℕ} : SweepEdge memory delivery choice (.tickRecalling now)
      (tickRecalled now memory)
  | page {pass : Pass} {selector : Selector} {report : SweepReport} {token : Option String}
      (answered : delivery = .answered) :
      SweepEdge memory delivery choice (.listing pass selector report token)
        (.listed pass selector report choice.page)
  | vetted {pass : Pass} {selector : Selector} {report : SweepReport} {page : Page Value} :
      SweepEdge memory delivery choice (.listed pass selector report page)
        (pageListed pass selector report page choice.reading)
  | swept {pass : Pass} {selector : Selector} {report report' : SweepReport}
      {token : Option String} {object : Stored Value} {rest : List (Stored Value)}
      (answered : delivery = .answered) :
      SweepEdge memory delivery choice (.sweeping pass selector report token object rest)
        (deletes pass selector report' token rest)
  | settled {pass : Pass} {report : SweepReport} :
      SweepEdge memory delivery choice (.settling pass report) (.done (.swept (.ok report)))

section Steps

variable {s : (machine Value objectName).State} {delivery : Delivery}
  {choice : Choice (Page Value)} {t : Thread (Input Value) (Call Value)} {call : Call Value}

/-- **A sweep goes on along an edge.** -/
theorem sweep_edge_of_resume (sweeps : t.call.kind = .sweep)
    (resumed : (machine Value objectName).resume s delivery choice t = some call) :
    SweepEdge (s.memories t.replica) delivery choice t.call call := by
  obtain ⟨replica, input, c⟩ := t
  rw [resume_eq] at resumed
  cases c with
  | fullStarting =>
      obtain rfl := Option.some.inj resumed
      exact .full
  | tickStarting =>
      obtain rfl := Option.some.inj resumed
      exact .tick
  | tickRecalling now =>
      obtain rfl := Option.some.inj resumed
      exact .recalled
  | listing pass selector report token =>
      rcases deliver_cases (Option.some.inj resumed) with
        ⟨lost, rfl⟩ | ⟨answered, rfl⟩ | ⟨failed, rfl⟩
      · exact .waits lost
      · exact .page answered
      · exact .failed failed
  | listed pass selector report page =>
      obtain rfl := Option.some.inj resumed
      exact .vetted
  | sweeping pass selector report token object rest =>
      rcases deliver_cases (Option.some.inj resumed) with
        ⟨lost, rfl⟩ | ⟨answered, rfl⟩ | ⟨failed, rfl⟩
      · exact .waits lost
      · cases s.server.deleteOutcome object.name (some object.resourceVersion) with
        | deleted | conflict | notFound => exact .swept answered
      · exact .failed failed
  | settling pass report =>
      obtain rfl := Option.some.inj resumed
      exact .settled
  | done => cases resumed
  | _ => cases sweeps

end Steps

variable (Value) in
omit [DecidableEq Value] in
/-- **A tick is a full sweep, or goes through the hours from the watermark on.** -/
theorem tickRecalled_cases (now : ℕ) (memory : Option SweepState) :
    (tickRecalled now memory : Call Value) = .fullStarting ∨
    ∃ state, memory = some state ∧ now - state.lastFullMs < fullSweepIntervalMs ∧
      (tickRecalled now memory : Call Value) = passDone (.hours (settledHour now)
        ((hourRange state.watermarkHour (settledHour now)).toChunks hoursPerList)) ⟨0, 0, 0⟩ := by
  unfold tickRecalled
  split
  · exact .inl rfl
  · rename_i state remembered
    obtain ⟨remembered, due⟩ := Option.filter_eq_some_iff.mp remembered
    exact .inr ⟨state, remembered, of_decide_eq_true due, rfl⟩

variable (Value) in
omit [DecidableEq Value] in
/-- **After a selector: the next one, or the end of the pass.** -/
theorem passDone_cases (pass : Pass) (report : SweepReport) :
    (∃ last chunk chunks, pass = .hours last (chunk :: chunks) ∧
      (passDone pass report : Call Value) =
        .listing (.hours last chunks) (.expiry chunk) report none) ∨
    ((∃ started, pass = .full started) ∨ ∃ last, pass = .hours last []) ∧
      (passDone pass report : Call Value) = .settling pass report := by
  cases pass with
  | full started => exact .inr ⟨.inl ⟨started, rfl⟩, rfl⟩
  | hours last chunks =>
      cases chunks with
      | nil => exact .inr ⟨.inr ⟨last, rfl⟩, rfl⟩
      | cons chunk chunks => exact .inl ⟨last, chunk, chunks, rfl, rfl⟩

omit [DecidableEq Value] in
/-- **After a delete: the next one, the next page, or the end of the selector.** -/
theorem deletes_cases (pass : Pass) (selector : Selector) (report : SweepReport)
    (token : Option String) (items : List (Stored Value)) :
    (∃ object rest, items = object :: rest ∧
      deletes pass selector report token items =
        .sweeping pass selector report token object rest) ∨
    items = [] ∧
      ((∃ next, token.filter (fun token => !token.isEmpty) = some next ∧
        deletes pass selector report token items = .listing pass selector report (some next)) ∨
      (token.filter (fun token => !token.isEmpty) = none ∧
        deletes pass selector report token items = passDone pass report)) := by
  cases items with
  | cons object rest => exact .inl ⟨object, rest, rfl, rfl⟩
  | nil =>
      refine .inr ⟨rfl, ?_⟩
      cases more : token.filter (fun token => !token.isEmpty) with
      | some next => exact .inl ⟨next, rfl, by simp only [deletes, pageDone, more]⟩
      | none => exact .inr ⟨rfl, by simp only [deletes, pageDone, more]⟩

/-! ## What is claimed -/

/-- Every item of a page is an object that the server holds, or has held. -/
def Honest (events : List (machine Value objectName).Event)
    (s : (machine Value objectName).State) (label : (machine Value objectName).Lbl) : Prop :=
  ∀ i delivery (choice : Choice (Page Value)) (t : Thread (Input Value) (Call Value)) pass selector
    report token, label = .step i delivery choice → s.threads[i]? = some t →
    t.call = .listing pass selector report token → ∀ item ∈ choice.page.items,
      ∃ object, decode item.name object = some item ∧
        (s.server.objects item.name = some object ∨
          ∃ e ∈ events, e.before.server.objects item.name = some object)

/-- The call `i` is answered with a page that has the item. -/
def Lists (l : (machine Value objectName).Event) (i : ℕ) (item : Stored Value) : Prop :=
  ∃ t pass selector report token, ∃ choice : Choice (Page Value), l.By i t ∧
    t.call = .listing pass selector report token ∧ l.label = .step i .answered choice ∧
      item ∈ choice.page.items

/-- The call `i` reads the clock after it has listed the item. -/
def Vets (r : (machine Value objectName).Event) (i : ℕ) (item : Stored Value) (reading : ℕ) :
    Prop :=
  ∃ t pass selector report page delivery, ∃ choice : Choice (Page Value), r.By i t ∧
    t.call = .listed pass selector report page ∧ r.label = .step i delivery choice ∧
      item ∈ page.items ∧ reading = choice.reading

/-- The call `i` lists the item, and reads the clock after that. -/
def Settled (events : List (machine Value objectName).Event) (i : ℕ) (item : Stored Value)
    (reading : ℕ) : Prop :=
  ∃ newer r older, events = newer ++ r :: older ∧ Vets r i item reading ∧
    ∃ l ∈ older, Lists l i item

/-- A sweep of the call `i` deletes the object of the item. -/
def Sweeps (w : (machine Value objectName).Event) (i : ℕ) (item : Stored Value) : Prop :=
  ∃ t pass selector report token rest, w.By i t ∧
    t.call = .sweeping pass selector report token item rest ∧ w.change = some (item.name, none)

/-- What the clock of a replica shows at an instant. What one clock shows is ahead by the grace at
most of what another one shows then or later. -/
structure Clocks where
  shows : ℕ → ℕ → ℕ
  close : ∀ replica other before after, before ≤ after →
    shows replica before ≤ shows other after + sweepGraceMs

/-- What the event reads of a clock is what the clock of its replica shows. -/
def Clocks.Read (clocks : Clocks) (e : (machine Value objectName).Event) : Prop :=
  ∀ i t delivery (choice : Choice (Page Value)), e.By i t → e.label = .step i delivery choice →
    choice.reading = clocks.shows t.replica e.before.now

/-- A sweep removes nothing that is live. -/
structure SweepsSettled (events : List (machine Value objectName).Event) : Prop where
  /-- What a sweep deletes is the version that it listed, which had expired for the grace at the
  clock reading after the list. -/
  settled : ∀ later w earlier i item, events = later ++ w :: earlier → Sweeps w i item →
    ∃ object, w.before.server.objects item.name = some object ∧
      decode item.name object = some item ∧ ∃ reading, Settled earlier i item reading ∧
        item.expiresAtMs + sweepGraceMs ≤ reading
  /-- What is rewritten after it was listed is not deleted. -/
  untouched : ∀ later w middle l earlier i item, events = later ++ w :: (middle ++ l :: earlier) →
    Lists l i item → Sweeps w i item → ∀ d ∈ middle, ∀ body, d.change ≠ some (item.name, body)
  /-- While the clocks differ by the grace at most, no replica serves what a sweep deletes. -/
  unserved : ∀ clocks : Clocks, (∀ e ∈ events, clocks.Read e) → ∀ w ∈ events, ∀ i item,
    Sweeps w i item → ∀ replica,
      live w.before.server item.name (clocks.shows replica w.before.now) = none

/-! ## What a sweep knows -/

/-- The items of a page were listed, and those that a sweep is about to delete were settled. -/
def Call.Vetted (events : List (machine Value objectName).Event)
    (s : (machine Value objectName).State) (i : ℕ) : Call Value → Prop
  | .listed _ _ _ page => ∀ item ∈ page.items,
      Read s.server item.name item ∧ ∃ l ∈ events, Lists l i item
  | .sweeping _ _ _ _ object rest => ∀ item ∈ object :: rest, Read s.server item.name item ∧
      ∃ reading, Settled events i item reading ∧ item.expiresAtMs + sweepGraceMs ≤ reading
  | _ => True

omit [DecidableEq Value] in
theorem Read.apply {σ : Server String (Contents Value)} {name : String} {item : Stored Value}
    (known : Read σ name item) (change : Option (Change String (Contents Value))) :
    Read (σ.apply change) name item :=
  let ⟨object, decoded, known⟩ := known
  ⟨object, decoded, known.apply change⟩

theorem Settled.later {events : List (machine Value objectName).Event} {i : ℕ}
    {item : Stored Value} {reading : ℕ} (settled : Settled events i item reading)
    (e : (machine Value objectName).Event) : Settled (e :: events) i item reading :=
  let ⟨newer, r, older, parts, rest⟩ := settled
  ⟨e :: newer, r, older, by rw [parts]; rfl, rest⟩

section Run

variable {ok : List (machine Value objectName).Event → (machine Value objectName).State →
    (machine Value objectName).Lbl → Prop}
  {server : Server String (Contents Value)} {events : List (machine Value objectName).Event}
  {s s' : (machine Value objectName).State} {label : (machine Value objectName).Lbl}

/-- What a call knows it knows after every step. -/
theorem Call.Vetted.mono {i : ℕ} {call : Call Value} (vetted : call.Vetted events s i)
    (taken : (machine Value objectName).step s label = some s') :
    call.Vetted (⟨s, label⟩ :: events) s' i := by
  have server := step_server taken
  cases call with
  | listed pass selector report page =>
      intro item member
      obtain ⟨known, l, older, lists⟩ := vetted item member
      rw [server]
      exact ⟨known.apply _, l, List.mem_cons_of_mem _ older, lists⟩
  | sweeping pass selector report token object rest =>
      intro item member
      obtain ⟨known, reading, settled, expired⟩ := vetted item member
      rw [server]
      exact ⟨known.apply _, reading, settled.later _, expired⟩
  | _ => trivial

/-- The next selector of a pass has listed nothing yet. -/
theorem vetted_passDone {i : ℕ} (pass : Pass) (report : SweepReport) :
    (passDone pass report).Vetted events s i := by
  rcases passDone_cases Value pass report with ⟨_, _, _, _, same⟩ | ⟨_, same⟩
  · rw [same]
    trivial
  · rw [same]
    trivial

theorem vetted_tickRecalled {i : ℕ} (now : ℕ) (memory : Option SweepState) :
    (tickRecalled now memory).Vetted events s i := by
  rcases tickRecalled_cases Value now memory with same | ⟨_, _, _, same⟩
  · rw [same]
    trivial
  · rw [same]
    exact vetted_passDone _ _

/-- The head of a list of deletes knows what the list is known for. -/
theorem vetted_deletes {i : ℕ} {pass : Pass} {selector : Selector} {report : SweepReport}
    {token : Option String} {items : List (Stored Value)}
    (vetted : ∀ item ∈ items, Read s.server item.name item ∧
      ∃ reading, Settled events i item reading ∧ item.expiresAtMs + sweepGraceMs ≤ reading) :
    (deletes pass selector report token items).Vetted events s i := by
  rcases deletes_cases pass selector report token items with
    ⟨object, rest, rfl, same⟩ | ⟨rfl, ⟨next, _, same⟩ | ⟨_, same⟩⟩
  · rw [same]
    exact vetted
  · rw [same]
    trivial
  · rw [same]
    exact vetted_passDone _ _

/-- A call of another operation has listed nothing. -/
theorem vetted_of_kind {i : ℕ} {call : Call Value} (other : call.kind ≠ .sweep) :
    call.Vetted events s i := by
  cases call with
  | listed | sweeping => exact absurd rfl other
  | _ => trivial

/-- **Every sweep knows what it deletes.** -/
theorem vetted_of_run (run : (machine Value objectName).Runs Honest server events s) {i : ℕ}
    {t : (machine Value objectName).Thr} (there : s.threads[i]? = some t) :
    Call.Vetted events s i t.call := by
  refine run.thread_invariant
    (I := fun events (s : (machine Value objectName).State) i
      (t : (machine Value objectName).Thr) => Call.Vetted events s i t.call) ?_ ?_ ?_ there
  · intro events s s' label i t _ taken _ _ _ vetted
    exact Call.Vetted.mono vetted taken
  · intro events s s' replica input _ _
    change (start input).Vetted _ _ _
    cases input with
    | sweep | sweepTick => trivial
    | _ =>
        simp only [start]
        split <;> trivial
  · intro events s s' i delivery choice t call run taken honest there vetted resumed
    change call.Vetted _ _ _
    by_cases sweeps : t.call.kind = .sweep
    · have server := step_server taken
      have edge := sweep_edge_of_resume sweeps resumed
      have stepped : Event.By (⟨s, .step i delivery choice⟩ : (machine Value objectName).Event)
        i t := ⟨there, delivery, choice, rfl⟩
      have still := vetted.mono taken
      generalize at' : t.call = standing at edge vetted still
      cases edge with
      | waits => exact still
      | failed | full | tick | settled => trivial
      | recalled => exact vetted_tickRecalled _ _
      | page answered =>
          subst answered
          intro item member
          obtain ⟨object, decoded, held⟩ := honest i _ choice t _ _ _ _ rfl there at' item member
          have known : s.server.Known item.name object := by
            rcases held with now | ⟨e, older, before⟩
            · exact .of_held now
            · exact run.known_of_mem older before
          rw [server]
          exact ⟨⟨object, decoded, known.apply _⟩, _, List.mem_cons_self, t, _, _, _, _, choice,
            stepped, at', rfl, member⟩
      | vetted =>
          refine vetted_deletes fun item member => ?_
          obtain ⟨inPage, expired⟩ := List.mem_filter.mp member
          obtain ⟨_, l, older, lists⟩ := vetted item inPage
          exact ⟨(still item inPage).1, choice.reading, ⟨[], _, events, rfl,
            ⟨t, _, _, _, _, delivery, choice, stepped, at', rfl, inPage, rfl⟩, l, older, lists⟩,
            of_decide_eq_true expired⟩
      | swept answered =>
          exact vetted_deletes fun item member => still item (List.mem_cons_of_mem _ member)
    · exact vetted_of_kind fun same => sweeps ((kind_of_resume resumed).symm.trans same)

/-! ## What a sweep deletes -/

/-- The object that a sweep deletes is the one that it listed. -/
theorem found_of_sweeps {w : (machine Value objectName).Event}
    (run : (machine Value objectName).Runs Honest server events w.before) {i : ℕ}
    {item : Stored Value} (sweeps : Sweeps w i item) :
    ∃ object, w.before.server.objects item.name = some object ∧
      decode item.name object = some item ∧ ∃ reading, Settled events i item reading ∧
        item.expiresAtMs + sweepGraceMs ≤ reading := by
  obtain ⟨t, pass, selector, report, token, rest, ⟨there, delivery, choice, label⟩, at', change⟩ :=
    sweeps
  have vetted := vetted_of_run run there
  rw [at'] at vetted
  obtain ⟨⟨object, decoded, known⟩, settled⟩ := vetted item List.mem_cons_self
  rw [Event.change_eq label there, at'] at change
  simp only [machine, await, Await.change] at change
  split at change
  · obtain ⟨⟨current, found, version⟩, _⟩ := Server.deleteChange_eq_some change
    have same : current.version = object.version := by
      rw [← (decode_eq_some.mp decoded).2.2]
      simpa [eq_comm] using version
    obtain rfl := known.eq current found same
    exact ⟨current, found, decoded, settled⟩
  · cases change

/-- **What a name held when it was listed is gone once the name is changed.** -/
theorem unswept_of_change {l : (machine Value objectName).Event}
    {middle earlier : List (machine Value objectName).Event}
    (run : (machine Value objectName).Runs Honest server (middle ++ l :: earlier) s) {i : ℕ}
    {item : Stored Value} (lists : Lists l i item) {d : (machine Value objectName).Event}
    (member : d ∈ middle) {body : Option (Contents Value)}
    (change : d.change = some (item.name, body)) :
    s.server.Gone item.name item.resourceVersion := by
  obtain ⟨t, pass, selector, report, token, choice, ⟨there, _⟩, at', label, inPage⟩ := lists
  obtain ⟨newer, older, rfl⟩ := List.append_of_mem member
  obtain ⟨_, honest⟩ := run.split
  obtain ⟨object, decoded, held⟩ :=
    honest i _ choice t _ _ _ _ label there at' item inPage
  rw [List.append_assoc, List.cons_append] at run
  obtain ⟨before, _⟩ := run.split
  have known : d.before.server.Known item.name object := by
    rcases held with now | ⟨e, earlier, found⟩
    · exact before.known_of_mem (by simp) now
    · exact before.known_of_mem (by simp [earlier]) found
  refine run.gone (by simp) change ?_
  rw [(decode_eq_some.mp decoded).2.2]
  exact known.version_le

/-- **No sweep removes a record that is live.** -/
theorem sweeps_settled (run : (machine Value objectName).Runs Honest server events s) :
    SweepsSettled events where
  settled := by
    rintro later w earlier i item rfl sweeps
    exact found_of_sweeps run.split.1 sweeps
  untouched := by
    rintro later w middle l earlier i item rfl lists sweeps d member body change
    obtain ⟨before, _⟩ := run.split
    obtain ⟨object, found, decoded, _⟩ := found_of_sweeps before sweeps
    exact (unswept_of_change before lists member change).absent object found
      (decode_eq_some.mp decoded).2.2.symm
  unserved := by
    intro clocks reads w member i item sweeps replica
    obtain ⟨later, earlier, rfl⟩ := List.append_of_mem member
    obtain ⟨before, _⟩ := run.split
    obtain ⟨object, found, decoded, reading, ⟨newer, r, older, rfl, vets, _⟩, expired⟩ :=
      found_of_sweeps before sweeps
    obtain ⟨t, _, _, _, _, delivery, choice, stepped, _, label, _, rfl⟩ := vets
    have shown := reads r (by simp) i t delivery choice stepped label
    have close := clocks.close t.replica replica _ _ (before.now_le (e := r) (by simp))
    exact live_eq_none_of_expired found decoded (by omega)

end Run

/-! ## A run -/

/-- The call `i` is answered with a page of the record that expired at 900. -/
def list (i : ℕ) : (machine ℕ id).Lbl :=
  .step i .answered ⟨⟨[⟨"k", 1, 100, 900⟩], [], none⟩, 0⟩

/-- Two replicas list the same record. One deletes it, and the key is written again before the
other comes to its delete. -/
def sweptTwice : List (machine ℕ id).Lbl :=
  [.begin 0 .sweep, .begin 1 .sweep, go 0 .answered 31000, go 1 .answered 31000, list 0, list 1,
    go 0 .answered 31000, go 1 .answered 31000, go 0 .answered 0,
    .begin 2 (.putIfAbsent "k" 0 60000000000), go 2 .answered 31000, go 2 .answered 0,
    go 1 .answered 0, go 0 .answered 0, go 1 .answered 0]

/-- Every item that the step lists is held. -/
def listsHeld (e : (machine ℕ id).Event) : Bool :=
  match e.label with
  | .step _ _ choice =>
      let page : Page ℕ := choice.page
      page.items.all fun item =>
        decide ((e.before.server.objects item.name).bind (decode item.name) = some item)
  | _ => true

theorem honest_of_listsHeld {e : (machine ℕ id).Event} (held : listsHeld e = true)
    (earlier : List (machine ℕ id).Event) : Honest earlier e.before e.label := by
  intro i delivery choice t pass selector report token label _ _ item member
  simp only [listsHeld, label, List.all_eq_true, decide_eq_true_eq] at held
  obtain ⟨object, found, decoded⟩ := Option.bind_eq_some_iff.mp (held item member)
  exact ⟨object, decoded, .inl found⟩

/-- The old record is deleted, and the new one is not. -/
def Spared (events : List (machine ℕ id).Event) (s : (machine ℕ id).State) : Prop :=
  events.all listsHeld = true ∧ (events.any fun e => decide (e.change = some ("k", none))) = true ∧
    held s.server "k" = some 0

instance (events : List (machine ℕ id).Event) (s : (machine ℕ id).State) :
    Decidable (Spared events s) :=
  inferInstanceAs (Decidable (_ ∧ _))

/-- The replica that comes late spares the new record. -/
theorem sweeps_settled_twice :
    ∃ events s, (machine ℕ id).Runs Honest expiredServer events s ∧ Spared events s ∧
      SweepsSettled events := by
  obtain ⟨events, s, run, spared⟩ : ∃ events s,
      (machine ℕ id).Runs (machine ℕ id).anyStep expiredServer events s ∧ Spared events s :=
    Runs.exists_of_replay sweptTwice Spared (by decide +kernel)
  have honest := run.of_forall fun e member =>
    honest_of_listsHeld (List.all_eq_true.mp spared.1 e member)
  exact ⟨events, s, honest, spared, sweeps_settled honest⟩

end OAuthRelay.Kubernetes
