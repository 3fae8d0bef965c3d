import OAuthRelay.Rotation.Chain
import OAuthRelay.Rotation.Recovery

/-!
# How far the head is behind

A revocation finds the family's token by following the chain from the record that the family's
head names. The winner of a rotation moves the head in a step of its own, with a swap that
expects the head to name the handle it rotated.

So a rotation leaves the head one record further behind, and only its own head swap takes that
back. The account of it is `headLag`: the rotations whose head swap is still to come, and those
that stalled (`Stall`). The number of rotated records from the head to the token is exactly this
(`lag_of_run`). A swap that finds the head elsewhere is `lost`, and once one swap has failed
every later one is: the head stays where it is, and no later rotation repairs it. The head is
near the token exactly as long as no swap was lost (`headNear_iff`).
-/

set_option autoImplicit false

namespace OAuthRelay.Rotation

open OAuthRelay.Async OAuthRelay.Async.Machine

variable {R : Rotator} {ok : List R.machine.Event → R.machine.State → R.machine.Lbl → Prop}
  {events : List R.machine.Event} {s s' : R.machine.State} {label : R.machine.Lbl}

/-! ## The account -/

/-- Why a rotation leaves the head where it is. -/
inductive Stall where
  /-- The store did not apply the head swap. -/
  | failed
  /-- The head did not name the handle that was rotated. -/
  | lost
  /-- The final swap took effect and its answer was lost, so the head swap is not tried. -/
  | untried
  deriving DecidableEq

/-- How a step ends a rotation without moving the head, with the family. -/
def stall? (e : R.machine.Event) : Option (Stall × (Name × ℕ)) :=
  match e.label with
  | .step i delivery _ =>
      match e.before.threads[i]?.map Thread.call with
      | some (.rotating _ (.swapRotated attempt _)) =>
          if e.change.isSome ∧ delivery ≠ .answered then some (.untried, attempt.claim.family)
          else none
      | some (.rotating _ (.swapHead attempt)) =>
          if e.change.isSome then none
          else some (if delivery = .notApplied then .failed else .lost, attempt.claim.family)
      | _ => none
  | _ => none

/-- How many rotations of the family stalled for this reason. -/
def stalls (events : List R.machine.Event) (stall : Stall) (family : Name × ℕ) : ℕ :=
  events.countP fun e => stall? e = some (stall, family)

/-- The family whose head a call is about to move. -/
def Call.moving? : Call → Option (Name × ℕ)
  | .rotating _ (.swapHead attempt) => some attempt.claim.family
  | _ => none

/-- How many rotations of the family have still to move the head. -/
def moving (s : R.machine.State) (family : Name × ℕ) : ℕ :=
  s.threads.countP fun t => t.call.moving? = some family

/-- How many rotations of the family have not moved the head. -/
def headLag (events : List R.machine.Event) (s : R.machine.State) (family : Name × ℕ) : ℕ :=
  stalls events .failed family + stalls events .lost family + stalls events .untried family +
    moving s family

theorem stalls_cons {e : R.machine.Event} (stall : Stall) (family : Name × ℕ) :
    stalls (e :: events) stall family =
      stalls events stall family + if stall? e = some (stall, family) then 1 else 0 := by
  simp [stalls, List.countP_cons]

theorem stalls_append {later : List R.machine.Event} {stall : Stall}
    {family : Name × ℕ} (none : ∀ e ∈ later, stall? e ≠ some (stall, family)) :
    stalls (later ++ events) stall family = stalls events stall family := by
  induction later with
  | nil => rfl
  | cons e later ih =>
      rw [List.cons_append, stalls_cons, if_neg (none e (List.mem_cons_self ..)),
        ih fun e member => none e (List.mem_cons_of_mem _ member)]
      rfl

/-- A swap that is answered does not fail. -/
theorem not_failed_of_answered {e : R.machine.Event} {i : ℕ} {choice : Choice}
    {family : Name × ℕ} (label : e.label = .step i .answered choice) :
    stall? e ≠ some (.failed, family) := by
  unfold stall?
  rw [label]
  simp only
  split <;> simp

/-- The step moves the head from the handle it rotated to the successor. -/
def MovesHead (e : R.machine.Event) (i : ℕ) (h : Name) (attempt : Attempt) : Prop :=
  At e i h (.swapHead attempt) ∧
    e.before.store.live e.before.now (.head attempt.claim.familyId) = some (.headKey (.handle h)) ∧
    e.change = some (.head attempt.claim.familyId,
      some ⟨.headKey attempt.successorKey, e.before.now + attempt.familyTtl⟩)

theorem MovesHead.of_change {e : R.machine.Event} {i : ℕ} {h : Name} {attempt : Attempt}
    (step : At e i h (.swapHead attempt)) (changed : e.change.isSome = true) :
    MovesHead e i h attempt := by
  obtain ⟨c, change⟩ := Option.isSome_iff_exists.mp changed
  cases step.alters change with
  | head live => exact ⟨step, live, change⟩

theorem headLag_cons {e : R.machine.Event} {s' : R.machine.State} {family : Name × ℕ}
    (moves : moving s' family = moving s family)
    (settled : ∀ stall, stall? e ≠ some (stall, family)) :
    headLag (e :: events) s' family = headLag events s family := by
  simp [headLag, stalls_cons, moves, settled]

/-- A rotation that stalls is counted once. -/
theorem headLag_of_stall {e : R.machine.Event} (events : List R.machine.Event)
    (s s' : R.machine.State) {stall : Stall} {family : Name × ℕ}
    (stalled : stall? e = some (stall, family)) :
    headLag (e :: events) s' family + moving s family =
      headLag events s family + 1 + moving s' family := by
  cases stall <;> simp [headLag, stalls_cons, stalled] <;> omega

/-- The calls about to move the head change by the call that steps. -/
theorem moving_of_step {i : ℕ} {delivery : Delivery} {choice : Choice}
    (taken : R.machine.step s (.step i delivery choice) = some s') {t t' : Thread Call}
    (there : s.threads[i]? = some t) (after : s'.threads[i]? = some t') (family : Name × ℕ) :
    moving s' family + (if t.call.moving? = some family then 1 else 0) =
      moving s family + if t'.call.moving? = some family then 1 else 0 := by
  have inside : i < s.threads.length := (List.getElem?_eq_some_iff.mp there).1
  have here : s.threads[i] = t := (List.getElem?_eq_some_iff.mp there).2
  simp only [step, there] at taken
  obtain ⟨call, _, rfl⟩ := Option.map_eq_some_iff.mp taken
  simp only [List.getElem?_set_self inside, Option.some.injEq] at after
  subst after
  have counted := List.boole_getElem_le_countP
    (p := fun t : Thread Call => t.call.moving? = some family) inside
  rw [here] at counted
  simp only [moving, List.countP_set inside, here]
  simp only [decide_eq_true_eq] at counted ⊢
  omega

/-- Only a final swap that was answered leads on to a head swap. -/
theorem Edge.moving {h name : Name} {σ : Store Key Value} {now : ℕ} {delivery : Delivery}
    {choice : Choice} {p q : Pc} (edge : Edge R h σ now delivery choice name p q)
    {family : Name × ℕ} (moves : (Call.rotating h q).moving? = some family) :
    ∃ attempt rotated, p = .swapRotated attempt rotated ∧ 0 < attempt.familyTtl ∧
      delivery = .answered ∧ σ.live now (.handle h) = some attempt.claim.bytes := by
  cases edge with
  | rotated positive answered live => exact ⟨_, _, rfl, positive, answered, live⟩
  | _ => cases moves

/-- **A rotation leaves the head of its family one record further behind.** -/
theorem headLag_of_rotates (taken : R.machine.step s label = some s') {i : ℕ} {h : Name}
    {attempt : Attempt} (rotates : Rotates (⟨s, label⟩ : R.machine.Event) i h attempt)
    (family : Name × ℕ) :
    headLag (⟨s, label⟩ :: events) s' family =
      headLag events s family + if attempt.claim.family = family then 1 else 0 := by
  obtain ⟨rotated, step, _, change⟩ := rotates
  obtain ⟨delivery, choice, steps, since, q, rfl, next, after⟩ := after_of_at taken step
  obtain ⟨_, _, there⟩ := step.thread
  have account := moving_of_step taken there after family
  have stalled : stall? (⟨s, .step i delivery choice⟩ : R.machine.Event) =
      if delivery ≠ .answered then some (.untried, attempt.claim.family) else none := by
    simp [stall?, show s.threads[i]? = _ from there, change]
  rcases Await.next_compareAndSwap next with ⟨_, answered, _, rfl⟩ | ⟨_, _, gone, _⟩ |
    ⟨reason, error, rfl⟩
  · rw [if_neg (not_not.mpr answered)] at stalled
    simp only [Call.moving?, Option.some.injEq, reduceCtorEq, if_false, Nat.add_zero] at account
    simp only [headLag, stalls_cons, stalled, reduceCtorEq, if_false]
    omega
  · cases step.alters change with
    | rotate live => exact absurd live gone
  · have unanswered : delivery ≠ .answered := by
      rcases reason with zero | unanswered
      · rw [Event.change_eq rfl there] at change
        simp [Call.await, Pc.await, Await.map, Await.change, zero] at change
      · exact unanswered
    rw [if_pos unanswered] at stalled
    simp only [Call.moving?, Pc.fail, reduceCtorEq, if_false, Nat.add_zero] at account
    by_cases same : attempt.claim.family = family
    · subst same
      have counted := headLag_of_stall events s s' stalled
      rw [if_pos rfl]
      omega
    · rw [if_neg same]
      exact headLag_cons account (by simp [stalled, same])

/-- **A head swap takes back its rotation's part in the lag, if it moves the head.** -/
theorem headLag_of_swapHead (events : List R.machine.Event)
    (taken : R.machine.step s label = some s') {i : ℕ} {h : Name} {attempt : Attempt}
    (step : At (⟨s, label⟩ : R.machine.Event) i h (.swapHead attempt))
    (family : Name × ℕ) :
    headLag (⟨s, label⟩ :: events) s' family +
        (if attempt.claim.family = family ∧
          (Event.change (⟨s, label⟩ : R.machine.Event)).isSome = true then 1 else 0) =
      headLag events s family := by
  obtain ⟨delivery, choice, steps, since, q, rfl, next, after⟩ := after_of_at taken step
  obtain ⟨_, _, there⟩ := step.thread
  have account := moving_of_step taken there after family
  have stays : (Call.rotating h q).moving? = none := by
    cases moves : (Call.rotating h q).moving? with
    | none => rfl
    | some family' =>
        obtain ⟨_, _, same, _⟩ := (edge_of_next next).moving moves
        cases same
  simp only [stays, reduceCtorEq, if_false, Nat.add_zero] at account
  simp only [Call.moving?, Option.some.injEq] at account
  generalize change : Event.change (⟨s, .step i delivery choice⟩ : R.machine.Event) = c
  have stalled : stall? (⟨s, .step i delivery choice⟩ : R.machine.Event) =
      if c.isSome then none
      else some (if delivery = .notApplied then .failed else .lost, attempt.claim.family) := by
    simp [stall?, show s.threads[i]? = _ from there, change]
  by_cases same : attempt.claim.family = family
  · subst same
    rw [if_pos rfl] at account
    by_cases moved : c.isSome = true
    · rw [if_pos moved] at stalled
      simp only [headLag, stalls_cons, stalled, moved, and_self, reduceCtorEq, if_true, if_false]
      omega
    · rw [if_neg moved] at stalled
      have counted := headLag_of_stall events s s' stalled
      rw [if_neg fun both => moved both.2]
      omega
  · rw [if_neg same] at account
    rw [if_neg (fun both => same both.1)]
    refine headLag_cons account fun stall found => ?_
    rw [stalled] at found
    split at found
    · cases found
    · exact same (Prod.mk.inj (Option.some.inj found)).2

/-- No other step changes the lag. -/
theorem headLag_of_other (taken : R.machine.step s label = some s')
    (unrotated : ∀ i h attempt, ¬ Rotates (⟨s, label⟩ : R.machine.Event) i h attempt)
    (unmoved : ∀ i h attempt, ¬ At (⟨s, label⟩ : R.machine.Event) i h (.swapHead attempt))
    (run : R.machine.Runs ok events s) (family : Name × ℕ) :
    headLag (⟨s, label⟩ :: events) s' family = headLag events s family := by
  rcases step_cases taken with ⟨_, rfl, rfl⟩ | ⟨input, rfl, rfl⟩ |
    ⟨i, delivery, choice, ⟨call, steps, since⟩, next, rfl, there, resumed, rfl⟩
  · exact headLag_cons rfl (by simp [stall?])
  · refine headLag_cons ?_ (by simp [stall?])
    have seeking : (R.machine.start ⟨s.threads.length, 0⟩ input).moving? = none := by
      cases input with
      | issue token => rfl
      | refresh presented => cases presented <;> rfl
    simp [moving, seeking]
  · have account := moving_of_step taken there
      (List.getElem?_set_self (List.getElem?_eq_some_iff.mp there).1) family
    cases call with
    | founding p =>
        obtain ⟨q, rfl, _⟩ := founding_next resumed
        exact headLag_cons account (by simp [stall?, there])
    | rotating h p =>
        obtain ⟨q, rfl, edge⟩ := rotating_next resumed
        have step : At (⟨s, .step i delivery choice⟩ : R.machine.Event) i h p :=
          ⟨_, ⟨there, _, _, rfl⟩, rfl⟩
        -- an answered final swap that finds its claim is a rotation
        have unheaded : (Call.rotating h q).moving? ≠ some family := by
          intro moves
          obtain ⟨attempt, rotated, rfl, positive, rfl, live⟩ := edge.moving moves
          exact unrotated i h attempt ⟨rotated, step, (step.formed run).2,
            change_of_swap step rfl rfl positive live⟩
        have settled : stall? (⟨s, .step i delivery choice⟩ : R.machine.Event) = none := by
          cases p with
          | swapHead attempt => exact absurd step (unmoved i h attempt)
          | swapRotated attempt rotated =>
              have unchanged : Event.change
                  (⟨s, .step i delivery choice⟩ : R.machine.Event) = none := by
                by_contra changed
                obtain ⟨c, change⟩ := Option.ne_none_iff_exists'.mp changed
                refine unrotated i h attempt ⟨rotated, step, (step.formed run).2, ?_⟩
                cases step.alters change with
                | rotate => exact change
              simp [stall?, there, unchanged]
          | _ => simp [stall?, there]
        have unmoving : (Call.rotating h p).moving? ≠ some family := by
          cases p with
          | swapHead attempt => exact absurd step (unmoved i h attempt)
          | _ => simp [Call.moving?]
        rw [if_neg unmoving, if_neg unheaded] at account
        exact headLag_cons account (by simp [settled])

/-- **The lag of a family changes by its rotations and by what moves its head.** -/
theorem headLag_of_quiet (run : R.machine.Runs ok events s)
    (taken : R.machine.step s label = some s') {family : Name × ℕ}
    (unrotated : ∀ i h attempt, Rotates (⟨s, label⟩ : R.machine.Event) i h attempt →
      attempt.claim.family ≠ family)
    (unmoved : ∀ i h attempt, MovesHead (⟨s, label⟩ : R.machine.Event) i h attempt →
      attempt.claim.family ≠ family) :
    headLag (⟨s, label⟩ :: events) s' family = headLag events s family := by
  by_cases rotation : ∃ i h attempt, Rotates (⟨s, label⟩ : R.machine.Event) i h attempt
  · obtain ⟨i, h, attempt, rotates⟩ := rotation
    rw [headLag_of_rotates taken rotates, if_neg (unrotated i h attempt rotates), Nat.add_zero]
  · by_cases swap : ∃ i h attempt, At (⟨s, label⟩ : R.machine.Event) i h (.swapHead attempt)
    · obtain ⟨i, h, attempt, step⟩ := swap
      rw [← headLag_of_swapHead events taken step family, if_neg, Nat.add_zero]
      exact fun moved => unmoved i h attempt (.of_change step moved.2) moved.1
    · exact headLag_of_other taken (fun i h attempt rotates => rotation ⟨i, h, attempt, rotates⟩)
        (fun i h attempt step => swap ⟨i, h, attempt, step⟩) run family

/-! ## The founder and the head -/

/-- The handle that a family begins with. -/
def First (events : List R.machine.Event) (k : Name) (family : Name × ℕ) : Prop :=
  ∃ e ∈ events, ∃ i creating bytes, Founding e i (.putRecord creating bytes) ∧
    creating.record.family = family ∧ creating.creation.handle = k

theorem First.mono {events' : List R.machine.Event} (inside : events ⊆ events') {k : Name}
    {family : Name × ℕ} (first : First events k family) : First events' k family := by
  obtain ⟨e, member, founding⟩ := first
  exact ⟨e, inside member, founding⟩

theorem First.unique (run : R.machine.Runs ok events s) {k k' : Name} {family : Name × ℕ}
    (first : First events k family) (first' : First events k' family) : k = k' := by
  obtain ⟨e, member, i, creating, bytes, step, same, rfl⟩ := first
  obtain ⟨e', member', i', creating', bytes', step', same', rfl⟩ := first'
  obtain ⟨_, run₀, _⟩ := run.of_mem member
  obtain ⟨_, run₁, _⟩ := run.of_mem member'
  have names : creating.familyId = creating'.familyId := congrArg Prod.fst (same.trans same'.symm)
  obtain rfl : i = i' := by rw [← step.owner run₀, ← step'.owner run₁, names]
  obtain ⟨t, by₁, call⟩ := step
  obtain ⟨t', by₂, call'⟩ := step'
  have rank : t.call.rank = 6 := by rw [call]; rfl
  have rank' : t'.call.rank = 6 := by rw [call']; rfl
  obtain rfl := eq_of_rank run member member' by₁ by₂ (by omega) (by omega) (by omega)
  rw [by₁.unique by₂, call'] at call
  cases call
  rfl

/-- A founder that sets the head has written its family's first record. -/
theorem first_of_putHead (run : R.machine.Runs ok events s) {i steps since : ℕ} {creating : Family}
    (there : s.threads[i]? = some ⟨.founding (.putHead creating), steps, since⟩) :
    First events creating.creation.handle creating.record.family := by
  refine founding_invariant (I := fun es _ p => p = .putHead creating →
    First es creating.creation.handle creating.record.family) ?_ ?_ ?_ run there rfl
  · exact fun e es i p earlier _ same => (earlier same).mono (List.subset_cons_self ..)
  · rintro es s input p _ start rfl
    cases input with
    | issue token => cases start
    | refresh presented => cases presented <;> cases start
  · rintro es s i delivery choice steps since p q _ _ there _ edge rfl
    cases edge with
    | putRecord =>
        exact ⟨_, List.mem_cons_self .., i, creating, _, ⟨_, ⟨there, _, _, rfl⟩, rfl⟩, rfl, rfl⟩

/-- The step sets the head of a new family to its first handle. -/
def SetsHead (e : R.machine.Event) (i : ℕ) (creating : Family) : Prop :=
  Founding e i (.putHead creating) ∧ e.change = some (.head creating.familyId,
    some ⟨.headKey (.handle creating.creation.handle), e.before.now + creating.ttl⟩)

/-- **A head is set by its founder, and moved by rotations.** -/
theorem head_change (run : R.machine.Runs ok events s) {e : R.machine.Event} (before : e.before = s)
    {familyId : Name} {x : Option (Entry Value)} (change : e.change = some (.head familyId, x)) :
    (∃ i h attempt, MovesHead e i h attempt ∧ attempt.claim.familyId = familyId) ∨
      ∃ i creating, SetsHead e i creating ∧ creating.familyId = familyId := by
  subst before
  cases changes run rfl change with
  | refresh i h p step formed alters =>
      generalize made : (Key.head familyId, x) = c at alters
      cases alters with
      | @head attempt live =>
          cases made
          exact .inl ⟨i, h, attempt, ⟨step, live, change⟩, rfl⟩
      | @discard key rest after =>
          cases made
          cases formed.1
      | @erase revocation key rest =>
          cases made
          obtain ⟨_, _, there⟩ := step.thread
          obtain ⟨k, same⟩ := (erasesHandles run there).2 _ (List.mem_cons_self ..)
          cases same
      | _ => cases made
  | creation i p step formed alters =>
      generalize made : (Key.head familyId, x) = c at alters
      cases alters with
      | record => cases made
      | @head creating vacant =>
          cases made
          exact .inr ⟨i, creating, ⟨step, change⟩, rfl⟩

/-- The founder of the family has set its head. -/
def HeadSet (events : List R.machine.Event) (family : Name × ℕ) : Prop :=
  ∃ e ∈ events, ∃ i creating, SetsHead e i creating ∧ creating.record.family = family

theorem HeadSet.mono {events' : List R.machine.Event} (inside : events ⊆ events')
    {family : Name × ℕ} (set : HeadSet events family) : HeadSet events' family := by
  obtain ⟨e, member, founding⟩ := set
  exact ⟨e, inside member, founding⟩

theorem SetsHead.founded {e : R.machine.Event} (run : R.machine.Runs ok events e.before) {i : ℕ}
    {creating : Family} (sets : SetsHead e i creating) : Founded events creating.record.family := by
  obtain ⟨⟨call, steps, since⟩, by₁, rfl⟩ := sets.1
  obtain ⟨e₀, member, j, creating', bytes, step, same, _⟩ := first_of_putHead run by₁.1
  exact ⟨e₀, member, j, creating', bytes, step, same⟩

theorem HeadSet.founded (run : R.machine.Runs ok events s) {family : Name × ℕ}
    (set : HeadSet events family) : Founded events family := by
  obtain ⟨e, member, i, creating, sets, rfl⟩ := set
  obtain ⟨_, run₀, _, inside⟩ := run.of_mem member
  exact (sets.founded run₀).mono inside

/-- **Where there is a head the founder has set it.** -/
theorem headSet_of_head (run : R.machine.Runs ok events s) : ∀ {familyId : Name}
    {entry : Entry Value}, s.store (.head familyId) = some entry →
      ∃ family, HeadSet events family ∧ family.1 = familyId := by
  refine run.prefix_induction (P := fun events s => ∀ {familyId : Name} {entry : Entry Value},
    s.store (.head familyId) = some entry →
      ∃ family, HeadSet events family ∧ family.1 = familyId) ?_
  intro events s run ih familyId entry there
  obtain ⟨later, e, earlier, rfl, change, _⟩ := run.writer there
  have member : e ∈ later ++ e :: earlier := by simp
  rcases head_change run.split.1 rfl change with ⟨i, h, attempt, moves, rfl⟩ |
    ⟨i, creating, sets, rfl⟩
  · obtain ⟨before, stored, _⟩ := Store.live_eq_some_iff.mp moves.2.1
    obtain ⟨_, _, inside, already⟩ := ih e member
    obtain ⟨family, set, same⟩ := already stored
    exact ⟨family, set.mono inside, same⟩
  · exact ⟨_, ⟨e, member, i, creating, sets, rfl⟩, rfl⟩

/-- The store keeps what it was given of the family: neither the head nor a record of the family's
handles has expired. -/
structure Lasting (events : List R.machine.Event) (s : R.machine.State) (family : Name × ℕ) :
    Prop where
  head : ∀ entry, s.store (.head family.1) = some entry → s.now < entry.expires
  records : ∀ k, HandedOut events k family → ∀ entry, s.store (.handle k) = some entry →
    s.now < entry.expires

/-- **With one clock for all calls, head and records last as long as the family.** -/
theorem lasting_of_clock (clock : ∀ es s label, ok es s label → OneClock R es s label)
    (run : R.machine.Runs ok events s) {family : Name × ℕ} (founded : Founded events family)
    (unexpired : s.now < family.2) : Lasting events s family where
  head entry there := by
    obtain ⟨later, e, earlier, rfl, change, _⟩ := run.writer there
    have inside : earlier ⊆ later ++ e :: earlier :=
      fun e' older => List.mem_append_right _ (List.mem_cons_of_mem _ older)
    rcases head_change run.split.1 rfl change with ⟨i, h, attempt, ⟨step, _, moved⟩, id⟩ |
      ⟨i, creating, sets, id⟩
    · obtain ⟨_, _, thread⟩ := step.thread
      have belongs := ((inFamily_of_pc run.split.1 thread rfl).founded run.split.1).mono inside
      obtain rfl := belongs.unique run founded id
      rw [moved] at change
      cases change
      exact Nat.lt_of_lt_of_le unexpired (expiry_le_of_left clock run.split.1 thread rfl rfl)
    · obtain rfl := ((sets.founded run.split.1).mono inside).unique run founded id
      rw [sets.2] at change
      cases change
      exact Nat.lt_of_lt_of_le unexpired (sets.1.lasts clock run.split.1 rfl)
  records k handed entry there := by
    obtain ⟨record, sealed⟩ := sealed_of_store run there
    have lasts := expiry_le_of_stored clock run there sealed
    have same : record.familyExpiresMs = family.2 :=
      congrArg Prod.snd (handed.family_of_stored run there sealed)
    omega

/-! ## The way from the head to the token -/

/-- The handle that the family's head names. Before there is a head, the family has its first
handle. -/
def HeadAt (events : List R.machine.Event) (s : R.machine.State) (family : Name × ℕ) (k : Name) :
    Prop :=
  (∃ expires, s.store (.head family.1) = some ⟨.headKey (.handle k), expires⟩) ∨
    (s.store (.head family.1) = none ∧ First events k family)

theorem HeadAt.keep {family : Name × ℕ} {k : Name} (head : HeadAt events s family k)
    (taken : R.machine.step s label = some s')
    (untouched : ∀ x, Event.change (⟨s, label⟩ : R.machine.Event) ≠ some (.head family.1, x)) :
    HeadAt (⟨s, label⟩ :: events) s' family k := by
  have same : s'.store (.head family.1) = s.store (.head family.1) := by
    rw [step_store taken]
    exact Store.applyChange_of_forall_ne _ untouched
  rcases head with ⟨expires, there⟩ | ⟨absent, first⟩
  · exact .inl ⟨expires, same.trans there⟩
  · exact .inr ⟨same.trans absent, first.mono (List.subset_cons_self ..)⟩

/-- From the head at `k` the chain of the family passes the handles `l`, as many as the head lags
behind, and ends at `z`. -/
structure Lag (events : List R.machine.Event) (s : R.machine.State) (family : Name × ℕ) (k : Name)
    (l : List Name) (z : Name) : Prop where
  head : HeadAt events s family k
  ends : Ends (fun a => HandedOut events a family) (Links events family) z
  path : Path (Links events family) k l z
  length : l.length = headLag events s family

section Unguessed

variable (unguessed : ∀ es s label, ok es s label → Unguessed R es s label)

/-- Apart from a rotation no step of a refresh hands out a handle. -/
theorem handsOut?_of_at {e : R.machine.Event} {i : ℕ} {h : Name} {p : Pc} (step : At e i h p)
    (unrotating : ∀ attempt rotated, p ≠ .swapRotated attempt rotated := by simp) :
    handsOut? e = none := by
  obtain ⟨label, there⟩ := at_iff.mp step
  cases p with
  | swapRotated attempt rotated => exact absurd rfl (unrotating attempt rotated)
  | _ => simp [handsOut?, label, there]

/-- A step that neither hands out a handle of the family nor moves its head. -/
theorem Lag.keep {family : Name × ℕ} {k z : Name} {l : List Name} (lag : Lag events s family k l z)
    (quiet : ∀ a, handsOut? (⟨s, label⟩ : R.machine.Event) ≠ some (a, family))
    (head : HeadAt (⟨s, label⟩ :: events) s' family k)
    (same : headLag (⟨s, label⟩ :: events) s' family = headLag events s family) :
    Lag (⟨s, label⟩ :: events) s' family k l z where
  head := head
  ends := lag.ends.congr (handedOut_cons_of_not quiet) (links_cons_of_not quiet)
  path := lag.path.mono fun _ next => (links_cons_of_not quiet _ _).mpr next
  length := by rw [same, lag.length]

include unguessed

/-- A rotation puts the successor behind the last handle of the family. -/
theorem Lag.rotate (run : R.machine.Runs ok events s) (permitted : ok events s label)
    (taken : R.machine.step s label = some s') {i : ℕ} {h : Name} {attempt : Attempt}
    (rotates : Rotates (⟨s, label⟩ : R.machine.Event) i h attempt) {k z : Name} {l : List Name}
    (lag : Lag events s attempt.claim.family k l z) :
    Lag (⟨s, label⟩ :: events) s' attempt.claim.family k (l ++ [z]) attempt.successorHandle := by
  have run' : R.machine.Runs ok (⟨s, label⟩ :: events) s' := .cons run permitted taken
  have fresh := not_handedOut_before run' rotates.handsOut
  have mine := rotates.handedOut unguessed run
  obtain rfl := lag.ends.eq_of_last mine (rotates.unlinked run' _)
  refine ⟨lag.head.keep taken fun x touches => ?_, ?_, ?_, ?_⟩
  · obtain ⟨_, _, _, change⟩ := rotates
    rw [change] at touches
    cases touches
  · refine lag.ends.extend (handedOut_cons rotates.handsOut) (links_cons rotates) ?_ ?_
    · exact fun c links => fresh _ (links.handedOut unguessed run)
    · rintro rfl
      exact fresh _ mine
  · refine (lag.path.mono fun _ next => (links_cons rotates _ _).mpr (.inl next)).snoc ?_
    exact (links_cons rotates _ _).mpr (.inr ⟨rfl, rfl⟩)
  · rw [headLag_of_rotates taken rotates, if_pos rfl, ← lag.length, List.length_append]
    rfl

omit unguessed in
/-- A head swap moves the head along the chain. -/
theorem Lag.move (run : R.machine.Runs ok events s)
    (taken : R.machine.step s label = some s') {i : ℕ} {h : Name} {attempt : Attempt}
    (moves : MovesHead (⟨s, label⟩ : R.machine.Event) i h attempt) {k z : Name} {l : List Name}
    (lag : Lag events s attempt.claim.family k l z) :
    ∃ l', Lag (⟨s, label⟩ :: events) s' attempt.claim.family attempt.successorHandle l' z := by
  obtain ⟨step, live, change⟩ := moves
  obtain ⟨_, _, there⟩ := step.thread
  obtain ⟨e₀, member, rotates⟩ := rotates_of_swapped run there (.inl rfl)
  have next : Links events attempt.claim.family h attempt.successorHandle :=
    ⟨e₀, member, i, attempt, rotates, rfl, rfl⟩
  obtain ⟨entry, stored, _, value⟩ := Store.live_eq_some_iff.mp live
  -- the head named the handle that was rotated
  have here : k = h := by
    rcases lag.head with ⟨expires, named⟩ | ⟨absent, _⟩
    · rw [show s.store (.head attempt.claim.familyId) = _ from named] at stored
      cases stored
      cases value
      rfl
    · rw [show s.store (.head attempt.claim.familyId) = _ from absent] at stored
      cases stored
  subst here
  have quiet : ∀ a, handsOut? (⟨s, label⟩ : R.machine.Event) ≠ some (a, attempt.claim.family) := by
    simp [handsOut?_of_at step]
  have path := lag.path
  have length := lag.length
  have account := headLag_of_swapHead events taken step attempt.claim.family
  rw [if_pos ⟨rfl, by rw [change]; rfl⟩] at account
  cases path with
  | here => exact absurd next (lag.ends.last _)
  | @step _ _ _ l' next' rest =>
      obtain rfl := Links.functional run _ next' next
      refine ⟨l', ?_⟩
      constructor
      · refine .inl ⟨s.now + attempt.familyTtl, ?_⟩
        rw [step_store taken, change]
        exact Store.applyChange_same ..
      · exact lag.ends.congr (handedOut_cons_of_not quiet) (links_cons_of_not quiet)
      · exact rest.mono fun _ next => (links_cons_of_not quiet _ _).mpr next
      · rw [List.length_cons] at length
        omega

omit unguessed in
/-- The founder's head names the first handle. -/
theorem HeadAt.found (run : R.machine.Runs ok events s) (permitted : ok events s label)
    (taken : R.machine.step s label = some s') {i : ℕ} {creating : Family}
    (sets : SetsHead (⟨s, label⟩ : R.machine.Event) i creating) {k : Name}
    (head : HeadAt events s creating.record.family k) :
    HeadAt (⟨s, label⟩ :: events) s' creating.record.family k := by
  have run' : R.machine.Runs ok (⟨s, label⟩ :: events) s' := .cons run permitted taken
  obtain ⟨⟨⟨call, steps, since⟩, by₁, rfl⟩, change⟩ := sets
  rcases head with ⟨_, there⟩ | ⟨absent, first⟩
  · -- the founder sets the head once
    obtain ⟨_, ⟨e, member, j, creating', ⟨⟨⟨call', steps', since'⟩, by₂, rfl⟩, _⟩, rfl⟩, id⟩ :=
      headSet_of_head run there
    obtain ⟨_, run₀, _⟩ := run.of_mem member
    have mine : creating.familyId.call = i := (founding_formed run by₁.1).2
    have mine' : creating'.familyId.call = j := (founding_formed run₀ by₂.1).2
    have names : creating'.familyId = creating.familyId := id
    obtain rfl : i = j := by rw [← mine, ← mine', names]
    obtain rfl := eq_of_rank run' (List.mem_cons_self ..) (List.mem_cons_of_mem _ member) by₁ by₂
      rfl (by simp [Call.rank, CreatePc.rank]) (by simp [Call.rank, CreatePc.rank])
    exact absurd member (run'.new_of_step by₁)
  · obtain rfl := first.unique run (first_of_putHead run by₁.1)
    refine .inl ⟨s.now + creating.ttl, ?_⟩
    rw [step_store taken, change]
    exact Store.applyChange_same ..

/-- What moves a head was handed out. -/
theorem MovesHead.handedOut {e : R.machine.Event} (run : R.machine.Runs ok events e.before) {i : ℕ}
    {h : Name} {attempt : Attempt} (moves : MovesHead e i h attempt) :
    HandedOut events h attempt.claim.family := by
  obtain ⟨_, _, there⟩ := moves.1.thread
  exact handedOut_of_pc unguessed run there rfl

/-- Nothing lags behind where nothing was handed out. -/
theorem headLag_eq_zero (run : R.machine.Runs ok events s) {family : Name × ℕ}
    (alone : ∀ a, ¬ HandedOut events a family) : headLag events s family = 0 := by
  induction run with
  | nil => rfl
  | @cons events s s' label run permitted taken ih =>
      have older : ∀ a, ¬ HandedOut events a family :=
        fun a handed => alone a (handed.mono (List.subset_cons_self ..))
      rw [headLag_of_quiet run taken, ih older]
      · rintro i h attempt rotates rfl
        exact older h (rotates.handedOut unguessed run)
      · rintro i h attempt moves rfl
        exact older h (moves.handedOut unguessed run)

omit unguessed in
/-- A head stays where it is unless a rotation moves it. -/
theorem HeadAt.stay (run : R.machine.Runs ok events s) (permitted : ok events s label)
    (taken : R.machine.step s label = some s') {family : Name × ℕ} (founded : Founded events family)
    (unmoved : ∀ i h attempt, MovesHead (⟨s, label⟩ : R.machine.Event) i h attempt →
      attempt.claim.family ≠ family) {k : Name} (head : HeadAt events s family k) :
    HeadAt (⟨s, label⟩ :: events) s' family k := by
  by_cases touched : ∃ x, Event.change (⟨s, label⟩ : R.machine.Event) = some (.head family.1, x)
  · obtain ⟨x, change⟩ := touched
    rcases head_change run rfl change with ⟨i, h, attempt, moves, id⟩ | ⟨i, creating, sets, id⟩
    · obtain ⟨_, _, there⟩ := moves.1.thread
      have belongs := (inFamily_of_pc run there rfl).founded run
      exact absurd (belongs.unique run founded id) (unmoved i h attempt moves)
    · obtain rfl := (sets.founded run).unique run founded id
      exact head.found run permitted taken sets
  · exact head.keep taken fun x change => touched ⟨x, change⟩

/-- The first record of a family is its last, and it has no head yet. -/
theorem Lag.found (run : R.machine.Runs ok events s) (permitted : ok events s label)
    (taken : R.machine.step s label = some s') {i expires : ℕ} {creating : Family} {bytes : Value}
    (step : Founding (⟨s, label⟩ : R.machine.Event) i (.putRecord creating bytes))
    (hands : handsOut? (⟨s, label⟩ : R.machine.Event) =
      some (creating.creation.handle, creating.record.family))
    (change : Event.change (⟨s, label⟩ : R.machine.Event) =
      some (.handle creating.creation.handle, some ⟨bytes, expires⟩)) :
    Lag (⟨s, label⟩ :: events) s' creating.record.family creating.creation.handle []
      creating.creation.handle := by
  have run' : R.machine.Runs ok (⟨s, label⟩ :: events) s' := .cons run permitted taken
  have alone := not_handedOut_of_founding run run' step
  have member : (⟨s, label⟩ : R.machine.Event) ∈ (⟨s, label⟩ :: events : List R.machine.Event) :=
    List.mem_cons_self ..
  have founded : Founded (⟨s, label⟩ :: events) creating.record.family :=
    ⟨_, member, i, creating, bytes, step, rfl⟩
  refine ⟨.inr ⟨?_, _, member, i, creating, bytes, step, rfl, rfl⟩,
    ends_of_founding run' step hands alone, .here _, ?_⟩
  · rw [step_store taken, change, Store.applyChange_other _ (by simp)]
    by_contra there
    obtain ⟨entry, there⟩ := Option.ne_none_iff_exists'.mp there
    obtain ⟨k, family, _, id, handed⟩ := handedOut_of_head run there
    have older := (handed.founded run).mono (List.subset_cons_self (⟨s, label⟩ : R.machine.Event) _)
    obtain rfl := older.unique run' founded id
    exact alone k handed
  · rw [List.length_nil, headLag_of_quiet run taken, headLag_eq_zero unguessed run alone]
    · intro i h attempt rotates same
      exact alone h (same ▸ rotates.handedOut unguessed run)
    · intro i h attempt moves same
      exact alone h (same ▸ moves.handedOut unguessed run)

/-- **The head of a family is as many records behind its last as rotations have not moved it.** -/
theorem lag_of_run (run : R.machine.Runs ok events s) {family : Name × ℕ}
    (handed : ∃ k, HandedOut events k family) : ∃ k l z, Lag events s family k l z := by
  induction run with
  | nil =>
      obtain ⟨k, e, member, _⟩ := handed
      cases member
  | @cons events s s' label run permitted taken ih =>
      have run' : R.machine.Runs ok (⟨s, label⟩ :: events) s' := .cons run permitted taken
      by_cases grows : ∃ k, handsOut? (⟨s, label⟩ : R.machine.Event) = some (k, family)
      · obtain ⟨k, hands⟩ := grows
        rcases handsOut_cases run hands with ⟨i, creating, bytes, step, rfl, rfl, change⟩ |
          ⟨i, h, attempt, rotates, rfl, rfl⟩
        · exact ⟨_, _, _, Lag.found unguessed run permitted taken step hands change⟩
        · obtain ⟨k, l, z, lag⟩ := ih ⟨h, rotates.handedOut unguessed run⟩
          exact ⟨k, _, _, lag.rotate unguessed run permitted taken rotates⟩
      · have quiet : ∀ a, handsOut? (⟨s, label⟩ : R.machine.Event) ≠ some (a, family) :=
          fun a hands => grows ⟨a, hands⟩
        obtain ⟨a, mem⟩ := handed
        have mem := (handedOut_cons_of_not quiet a).mp mem
        obtain ⟨k, l, z, lag⟩ := ih ⟨a, mem⟩
        by_cases moves : ∃ i h attempt,
            MovesHead (⟨s, label⟩ : R.machine.Event) i h attempt ∧ attempt.claim.family = family
        · obtain ⟨i, h, attempt, moves, rfl⟩ := moves
          obtain ⟨l', lag'⟩ := lag.move run taken moves
          exact ⟨_, l', z, lag'⟩
        · have unmoved : ∀ i h attempt, MovesHead (⟨s, label⟩ : R.machine.Event) i h attempt →
              attempt.claim.family ≠ family :=
            fun i h attempt moved same => moves ⟨i, h, attempt, moved, same⟩
          refine ⟨k, l, z, lag.keep quiet ?_ ?_⟩
          · exact lag.head.stay run permitted taken (mem.founded run) unmoved
          · refine headLag_of_quiet run taken ?_ unmoved
            rintro i h attempt rotates rfl
            exact quiet _ rotates.handsOut

omit unguessed in
/-- A head that was set stays. -/
theorem HeadSet.stored (run : R.machine.Runs ok events s) {family : Name × ℕ}
    (set : HeadSet events family) : s.store (.head family.1) ≠ none := by
  intro gone
  obtain ⟨e, member, i, creating, sets, rfl⟩ := set
  obtain ⟨later, earlier, rfl⟩ := List.mem_iff_append.mp member
  obtain ⟨_, _, s₁, taken, next⟩ := run.split
  have there : s₁.store (.head creating.familyId) ≠ none := by
    rw [step_store taken, sets.2, Store.applyChange_same]
    simp
  obtain ⟨e₁, newer, change⟩ := next.deleted_between run there gone
  obtain ⟨_, run₁, _⟩ := run.of_mem (List.mem_append_left _ newer)
  rcases head_change run₁ rfl change with ⟨_, _, _, ⟨_, _, moved⟩, _⟩ | ⟨_, _, ⟨_, written⟩, _⟩
  · simp [change] at moved
  · simp [change] at written

/-- **In the store the head is as many rotated records away from the token.** -/
theorem path_of_lag (run : R.machine.Runs ok events s) {family : Name × ℕ}
    (set : HeadSet events family) (lasting : Lasting events s family)
    (unrevoked : ¬ Marked events family.1) :
    ∃ k l z, s.store.live s.now (.head family.1) = some (.headKey (.handle k)) ∧
      Path (Follows s) k l z ∧ HoldsToken s z ∧ l.length = headLag events s family := by
  obtain ⟨entry, there⟩ := Option.ne_none_iff_exists'.mp (set.stored run)
  obtain ⟨a, family', _, id, handed⟩ := handedOut_of_head run there
  obtain rfl := (handed.founded run).unique run (set.founded run) id
  obtain ⟨k, l, z, lag⟩ := lag_of_run unguessed run ⟨a, handed⟩
  have live : ∀ b, HandedOut events b family' → ∃ bytes record,
      s.store.live s.now (.handle b) = some bytes ∧ Sealed b record bytes ∧
        record.family = family' := by
    intro b handed
    obtain ⟨entry, record, stored, sealed, same⟩ :=
      stored_of_handedOut unguessed run handed unrevoked
    exact ⟨entry.value, record, Store.live_of_entry stored (lasting.records b handed entry stored),
      sealed, same⟩
  refine ⟨k, l, z, ?_, ?_, ?_, lag.length⟩
  · rcases lag.head with ⟨expires, named⟩ | ⟨absent, _⟩
    · exact Store.live_of_entry named (lasting.head _ named)
    · rw [absent] at there
      cases there
  · refine lag.path.mono fun _ next => ?_
    obtain ⟨bytes, _, found, _⟩ := live _ (next.handedOut unguessed run)
    exact follows_of_links run next found
  · obtain ⟨bytes, record, found, sealed, same⟩ := live z lag.ends.mem
    exact holdsToken_of_last run lag.ends.last found sealed same

end Unguessed

/-! ## The walk of a revocation -/

/-- A revocation reads and opens the record of a hop. -/
theorem leads_of_erase {goal : Call → Prop} {h k : Name} {revocation : Revocation} {hop : ℕ}
    {rest : List Key} {bytes : Value} {record : Record}
    (live : s.store.live s.now (.handle k) = some bytes) (sealed : Sealed k record bytes)
    (onward : Leads (M := R.machine) s.store s.now goal
      (.rotating h (Pc.eraseRecord revocation (.handle k) hop rest record))) :
    Leads (M := R.machine) s.store s.now goal
      (.rotating h (.erase revocation (.handle k) hop rest)) := by
  obtain ⟨nonce, rfl⟩ := sealed
  apply leads_step (.good 0) fun _ => .openErased revocation (.handle k) hop rest _
  · intro name
    simp only [Pc.await, Await.next, live, if_true]
    rfl
  · rfl
  · intro name
    apply leads_step (.good 0) fun _ => Pc.eraseRecord revocation (.handle k) hop rest record
    · intro name
      simp [Pc.await, Await.next, answer, Choice.good, openValue]
    · rfl
    · exact fun _ => onward

/-- **A revocation erases the token that it gets to within its hops**, in a store that stays as
it is. -/
theorem erases_of_path {h : Name} {revocation : Revocation} {rest : List Key} {k z : Name}
    {l : List Name} {goal : Call → Prop} (path : Path (Follows s) k l z) (holds : HoldsToken s z)
    (reached : goal (.rotating h (.deleteErased revocation (.handle z) rest))) :
    ∀ {hop : ℕ}, hop + l.length < maxEraseHops →
      Leads (M := R.machine) s.store s.now goal
        (.rotating h (.erase revocation (.handle k) hop rest)) := by
  induction path with
  | here a =>
      intro hop below
      obtain ⟨bytes, record, token, live, sealed, held⟩ := holds
      refine leads_of_erase live sealed (.here ?_)
      unfold Pc.eraseRecord
      cases state : record.state with
      | rotated =>
          rw [state] at held
          cases held
      | _ => exact reached
  | step next _ ih =>
      intro hop below
      obtain ⟨bytes, record, rotatedMs, claimId, live, sealed, state⟩ := next
      rw [List.length_cons] at below
      have further : hop + 1 < maxEraseHops := by omega
      refine leads_of_erase live sealed ?_
      simp only [Pc.eraseRecord, state, if_pos further]
      exact ih holds reached (by omega)

/-! ## Runs -/

/-- The family's head is near its token: at most as many rotated records lie between them as head
swaps have failed or are still to come, and a revocation that starts from the head gets to the
token within its hops. -/
def HeadNear (events : List R.machine.Event) (s : R.machine.State) (family : Name × ℕ) : Prop :=
  ∃ k l z, s.store.live s.now (.head family.1) = some (.headKey (.handle k)) ∧
    Path (Follows s) k l z ∧ HoldsToken s z ∧
    l.length ≤ stalls events .failed family + moving s family ∧ l.length < maxEraseHops

/-- A revocation of a family whose head is near erases the token. -/
theorem HeadNear.erases {family : Name × ℕ} (near : HeadNear events s family) (h : Name)
    {revocation : Revocation} (same : revocation.familyId = family.1) :
    ∃ z, HoldsToken s z ∧ Leads (M := R.machine) s.store s.now
      (fun call => ∃ rest, call = .rotating h (.deleteErased revocation (.handle z) rest))
      (.rotating h (.getHead revocation)) := by
  obtain ⟨k, l, z, named, path, holds, _, within⟩ := near
  refine ⟨z, holds, ?_⟩
  apply leads_step (.good 0) fun _ => .erase revocation (.handle k) 0
    (if some (.handle k) = some revocation.knownKey then [] else [revocation.knownKey])
  · intro name
    simp [Pc.await, Await.next, same, named, Value.asKey, eraseStarts, eraseNext]
  · rfl
  · exact fun name => erases_of_path path holds ⟨_, rfl⟩ (by omega)

/-- **The head of a family is near its token exactly as long as no head swap was lost or left out,
and not too many have failed or are still to come.** -/
theorem headNear_iff (unguessed : ∀ es s label, ok es s label → Unguessed R es s label)
    (run : R.machine.Runs ok events s) {family : Name × ℕ} (set : HeadSet events family)
    (lasting : Lasting events s family) (unrevoked : ¬ Marked events family.1) :
    HeadNear events s family ↔
      stalls events .lost family = 0 ∧ stalls events .untried family = 0 ∧
        stalls events .failed family + moving s family < maxEraseHops := by
  obtain ⟨k, l, z, named, path, holds, length⟩ :=
    path_of_lag unguessed run set lasting unrevoked
  simp only [headLag] at length
  constructor
  · rintro ⟨k', l', z', named', path', holds', near, within⟩
    rw [named] at named'
    cases named'
    obtain ⟨rfl, rfl⟩ := path.unique Follows.functional holds.last holds'.last path'
    omega
  · rintro ⟨won, tried, few⟩
    exact ⟨k, l, z, named, path, holds, by omega, by omega⟩

/-- All calls read one clock, and nobody finds a record under a handle that was not handed out. -/
structure Unforged (R : Rotator) (events : List R.machine.Event) (s : R.machine.State)
    (label : R.machine.Lbl) : Prop where
  clock : OneClock R events s label
  unguessed : Unguessed R events s label

end OAuthRelay.Rotation
