import Mathlib.Data.List.Infix
import OAuthRelay.Rotation.Chain

/-!
# Reuse of a rotated handle

A rotated handle that is presented after its grace period means that two parties hold it, and
its family is revoked. Store and sealer do what they are asked, all calls read one clock, and
handles are not guessed (`Undisturbed`).

A call that begins after the grace period always ends with a refusal and a live marker. The
other direction does not hold of every run: the rotation is stamped when its winner begins to
commit, and a duplicate that waits for the winner compares that stamp with its own clock. When
the winner takes longer than the grace period for its last steps, the duplicate's next look
finds the grace period over, and the family is revoked although nobody presented the handle
late. With the condition that only late calls find a grace period over (`FindsLate`), every
revocation comes from a late call or from the upstream (`reuse_exact`).
-/

set_option autoImplicit false

namespace OAuthRelay.Rotation

open OAuthRelay.Async OAuthRelay.Async.Machine

variable {R : Rotator} {events : List R.machine.Event} {s : R.machine.State}

/-- Store and sealer do what they are asked, all calls read one clock, and nobody finds a record
under a handle that was not handed out. -/
structure Undisturbed (R : Rotator) (events : List R.machine.Event) (s : R.machine.State)
    (label : R.machine.Lbl) : Prop where
  served : ∀ i delivery choice, label = .step i delivery choice → ¬ Faulty delivery choice
  clock : OneClock R events s label
  unguessed : Unguessed R events s label

/-- The call began when the handle was rotated and its grace period was over. -/
def BeganLate (R : Rotator) (events : List R.machine.Event) (i : ℕ) (h : Name)
    (family : Name × ℕ) : Prop :=
  ∃ later e earlier, events = later ++ e :: earlier ∧
    e.label = .begin (.refresh (.rotating h)) ∧ e.before.threads.length = i ∧
    ∃ e₀ ∈ earlier, ∃ j attempt, Rotates e₀ j h attempt ∧ attempt.claim.family = family ∧
      R.grace < e.before.now - attempt.now

/-- A call that has loaded a rotated record, reads its clock after the end of the grace period
and finds no marker began after that end. -/
def FindsLate (R : Rotator) (events : List R.machine.Event) (s : R.machine.State)
    (label : R.machine.Lbl) : Prop :=
  ∀ i h loaded reading rotatedMs claimId key,
    At (⟨s, label⟩ : R.machine.Event) i h (.isRevoked loaded reading) →
    loaded.record.state = .rotated rotatedMs claimId key → R.grace < reading - rotatedMs →
    s.store.live s.now (.revoked loaded.record.familyId) = none →
    BeganLate R events i h loaded.record.family

/-- The upstream answers a refresh with `invalid_grant`. -/
def RefusedUpstream (e : R.machine.Event) (i : ℕ) (h : Name) (family : Name × ℕ) : Prop :=
  ∃ held delivery choice response, At e i h (.askUpstream held) ∧ held.family = family ∧
    e.label = .step i delivery choice ∧ choice.reply = .ok response ∧
    R.json.isInvalidGrant response = true

/-- The step is the first read of a call, and finds this record. -/
def FirstReads (e : R.machine.Event) (i : ℕ) (h : Name) (record : Record) : Prop :=
  (∃ since, e.By i ⟨.rotating h .load, 1, since⟩) ∧
    ∃ bytes, e.before.store.live e.before.now (.handle h) = some bytes ∧ Sealed h record bytes

/-- Reuse is detected where it happens and nowhere else. -/
structure ReuseExact (R : Rotator) (events : List R.machine.Event) (s : R.machine.State) :
    Prop where
  /-- A call that begins late is refused and leaves the marker, if it ends before the family
  expires. -/
  late : ∀ i h family outcome, BeganLate R events i h family → Answered s i h outcome →
    s.now < family.2 →
    outcome = .invalidGrant ∧ s.store.live s.now (.revoked family.1) ≠ none
  /-- A call that first found a token does not revoke the family for reuse. -/
  waiting : ∀ e ∈ events, ∀ i h record, FirstReads e i h record →
    record.state.token? ≠ none → ∀ e' ∈ events, ∀ h' p revocation, At e' i h' p →
    p.revocation? = some revocation → revocation.answer ≠ .invalidGrant
  /-- A marker is written by a call that began late, or one that the upstream refused. -/
  only : ∀ e ∈ events, ∀ i h revocation ttl, Marks e i h revocation ttl →
    BeganLate R events i h revocation.family ∨
      ∃ e' ∈ events, RefusedUpstream e' i h revocation.family

/-! ## A late call -/

theorem BeganLate.mono {later : List R.machine.Event} {i : ℕ} {h : Name} {family : Name × ℕ}
    (late : BeganLate R events i h family) : BeganLate R (later ++ events) i h family := by
  obtain ⟨after, e, earlier, rfl, begun⟩ := late
  exact ⟨later ++ after, e, earlier, by simp, begun⟩

/-- The family is revoked or expired. -/
def Closed (events : List R.machine.Event) (s : R.machine.State) (family : Name × ℕ) : Prop :=
  Marked events family.1 ∨ family.2 ≤ s.now

theorem Closed.mono {events' : List R.machine.Event} {s' : R.machine.State} {family : Name × ℕ}
    (closed : Closed events s family) (inside : events ⊆ events') (later : s.now ≤ s'.now) :
    Closed events' s' family :=
  closed.imp (Marked.mono inside) fun expired => Nat.le_trans expired later

/-- Where a late call is, that presents a handle with this rotation. -/
def Pc.Late (R : Rotator) (events : List R.machine.Event) (s : R.machine.State) (h : Name)
    (attempt : Attempt) : Pc → Prop
  | load => True
  | openRecord bytes => Sealed h attempt.rotated bytes
  | readClock loaded => loaded.record = attempt.rotated
  | isRevoked loaded reading =>
      loaded.record = attempt.rotated ∧ R.grace < reading - attempt.now
  | revoke revocation =>
      revocation.family = attempt.claim.family ∧ revocation.answer = .invalidGrant
  | putMarker revocation _ _ =>
      revocation.family = attempt.claim.family ∧ revocation.answer = .invalidGrant
  | getHead revocation | erase revocation .. | openErased revocation ..
  | deleteErased revocation .. =>
      revocation.answer = .invalidGrant ∧ Closed events s attempt.claim.family
  | done outcome => outcome = .invalidGrant ∧ Closed events s attempt.claim.family
  | _ => False

theorem Pc.Late.mono {events' : List R.machine.Event} {s' : R.machine.State} {h : Name}
    {attempt : Attempt} {p : Pc} (late : p.Late R events s h attempt) (inside : events ⊆ events')
    (later : s.now ≤ s'.now) : p.Late R events' s' h attempt := by
  cases p with
  | getHead | erase | openErased | deleteErased | done =>
      exact ⟨late.1, late.2.mono inside later⟩
  | _ => exact late

section Run

variable {ok : List R.machine.Event → R.machine.State → R.machine.Lbl → Prop}
  (undisturbed : ∀ es s label, ok es s label → Undisturbed R es s label)

include undisturbed

/-- **A late call goes on to a refusal.** -/
theorem Pc.Late.edge (run : R.machine.Runs ok events s) {e₀ : R.machine.Event} (member : e₀ ∈ events)
    {i j steps since : ℕ} {h : Name} {attempt : Attempt} (rotates : Rotates e₀ j h attempt)
    (past : R.grace < s.now - attempt.now) {delivery : Delivery} {choice : Choice} {p q : Pc}
    (permitted : ok events s (.step i delivery choice))
    (there : s.threads[i]? = some ⟨.rotating h p, steps, since⟩)
    (late : p.Late R events s h attempt)
    (edge : Edge R h s.store s.now delivery choice ⟨i, steps⟩ p q) :
    q.Late R (⟨s, .step i delivery choice⟩ :: events) s h attempt := by
  have served := (undisturbed _ _ _ permitted).served i delivery choice rfl
  have clock : choice.reading = s.now := (undisturbed _ _ _ permitted).clock i delivery choice rfl
  have handed : HandedOut events h attempt.claim.family := by
    obtain ⟨earlier, run₀, _, inside⟩ := run.of_mem member
    exact (rotates.handedOut (fun _ _ _ allowed => (undisturbed _ _ _ allowed).unguessed) run₀).mono
      inside
  have newer : events ⊆ (⟨s, .step i delivery choice⟩ :: events : List R.machine.Event) :=
    List.subset_cons_self ..
  have found : s.store.live s.now (.revoked attempt.claim.familyId) ≠ none →
      Closed (⟨s, .step i delivery choice⟩ :: events) s attempt.claim.family :=
    fun live => .inl ((marked_of_live run live).mono newer)
  cases edge with
  | refuse _ reason =>
      cases reason with
      | fault faulty => exact absurd faulty served
      | invalid zero =>
          cases p with
          | putMarker revocation ttl marker =>
              obtain ⟨_, _, reading, _, left⟩ := revokeClock_of_putMarker run there
              obtain ⟨before, rfl⟩ := ttlUntil_eq_some_iff.mp left
              have zero := Option.some.inj zero
              omega
          | swapClaim | swapRotated => exact late.elim
          | _ => cases zero
      | unopenable foreign =>
          obtain ⟨nonce, rfl⟩ := late
          exact absurd rfl (foreign attempt.rotated nonce)
      | absent gone =>
          -- the rotated record would be there if the family were neither revoked nor expired
          refine ⟨rfl, ?_⟩
          by_cases expired : attempt.claim.family.2 ≤ s.now
          · exact .inr expired
          · refine found fun unrevoked => ?_
            obtain ⟨bytes, record, live, _⟩ := live_of_handedOut
              (fun _ _ _ allowed => (undisturbed _ _ _ allowed).unguessed)
              (fun _ _ _ allowed => (undisturbed _ _ _ allowed).clock) run handed
              (Nat.lt_of_not_le expired) unrevoked
            rw [gone] at live
            cases live
      | @expired loaded lapsed =>
          refine ⟨rfl, .inr ?_⟩
          rw [← clock]
          rw [show loaded.record = attempt.rotated from late] at lapsed
          exact lapsed
      | @revoked loaded reading marker live =>
          refine ⟨rfl, found ?_⟩
          have same : loaded.record.familyId = attempt.claim.familyId := by rw [late.1]; rfl
          rw [← same, live]
          simp
      | _ => exact late.elim
  | wait _ reason =>
      cases reason with
      | claimed _ state =>
          rw [late.1] at state
          cases state
      | _ => exact late.elim
  | loaded live => exact rotates.sealed_of_live run member live
  | opened => exact Sealed.unique ⟨_, rfl⟩ late
  | unexpired =>
      refine ⟨late, ?_⟩
      rw [clock]
      exact past
  | free _ state =>
      rw [late.1] at state
      cases state
  | abandoned _ state =>
      rw [late.1] at state
      cases state
  | replay _ state within =>
      rw [late.1] at state
      cases state
      exact absurd late.2 (Nat.not_lt.mpr within)
  | reuse =>
      refine ⟨?_, rfl⟩
      rw [late.1]
      rfl
  | revoke => exact late
  | @marked revocation ttl marker positive answered =>
      subst answered
      refine ⟨late.2, ?_⟩
      have same : revocation.familyId = attempt.claim.familyId := congrArg Prod.fst late.1
      by_cases vacant : s.store.live s.now (.revoked revocation.familyId) = none
      · have step : At (⟨s, .step i .answered choice⟩ : R.machine.Event) i h
            (.putMarker revocation ttl marker) := ⟨_, ⟨there, _, _, rfl⟩, rfl⟩
        exact .inl ⟨_, List.mem_cons_self .., i, h, revocation, ttl,
          ⟨marker, step, change_of_put step rfl rfl positive vacant⟩, same⟩
      · exact found (same ▸ vacant)
  | unprepared preparing => cases p <;> first | exact late.elim | cases preparing
  | erase erasing =>
      cases p <;> first | exact late.elim | cases erasing <;>
        exact ⟨late.1, late.2.mono newer (Nat.le_refl _)⟩
  | follow | openErased | deleteErased => exact ⟨late.1, late.2.mono newer (Nat.le_refl _)⟩
  | @revoked _ revocation revoking lapsed =>
      rcases lapsed with ⟨rfl, expired⟩ | erases
      · refine ⟨late.2, .inr ?_⟩
        rw [← clock, ← late.1]
        exact expired
      · generalize ([] : List Key) = keys at erases
        cases erases <;> cases revoking <;> exact ⟨late.1, late.2.mono newer (Nat.le_refl _)⟩
  | _ => exact late.elim

/-- **A call that begins late is refused and leaves the marker.** -/
theorem refused_of_beganLate (run : R.machine.Runs ok events s) {i : ℕ} {h : Name}
    {family : Name × ℕ} (late : BeganLate R events i h family) {outcome : RefreshOutcome}
    (answered : Answered s i h outcome) (unexpired : s.now < family.2) :
    outcome = .invalidGrant ∧ s.store.live s.now (.revoked family.1) ≠ none := by
  obtain ⟨later, e, earlier, rfl, label, begun, e₀, older, j, attempt, rotates, rfl, past⟩ := late
  obtain ⟨_, _, s₁, taken, next⟩ := run.split
  have there₁ : s₁.threads[i]? = some ⟨.rotating h .load, 1, e.before.now⟩ ∧
      s₁.now = e.before.now := by
    rw [label] at taken
    simp only [Machine.step, Option.some.injEq] at taken
    subst taken begun
    simp [Call.start]
  have holds := Runs.carry (I := fun es s' => e₀ ∈ es ∧ e.before.now ≤ s'.now ∧
      ∃ p steps since, s'.threads[i]? = some ⟨.rotating h p, steps, since⟩ ∧
        p.Late R es s' h attempt) next run
    ⟨List.mem_cons_of_mem _ older, Nat.le_of_eq there₁.2.symm, .load, 1, e.before.now, there₁.1,
      trivial⟩ (by
    rintro es s₂ s₃ label run₂ ⟨member, clock, p, steps, since, there, late⟩ permitted taken
    have onward := step_now_le taken
    refine ⟨List.mem_cons_of_mem _ member, by omega, ?_⟩
    rcases thread_persists taken there with same | ⟨delivery, choice, call, rfl, resumed, after⟩
    · exact ⟨p, steps, since, same, late.mono (List.subset_cons_self ..) onward⟩
    · obtain ⟨q, rfl, edge⟩ := rotating_next resumed
      refine ⟨q, _, _, after, ?_⟩
      have late' := Pc.Late.edge undisturbed run₂ member rotates (by omega) permitted there late edge
      exact late'.mono (fun _ member => member) onward)
  obtain ⟨_, _, p, steps, since, there, late⟩ := holds
  obtain ⟨_, _, done⟩ := answered.thread
  rw [there] at done
  cases done
  obtain ⟨refused, closed⟩ := late
  refine ⟨refused, ?_⟩
  have founded : Founded (later ++ e :: earlier) attempt.claim.family := by
    refine (rotates.inFamily run ?_).founded run
    exact List.mem_append_right _ (List.mem_cons_of_mem _ older)
  rcases closed with marked | expired
  · exact Marked.lasts (fun _ _ _ allowed => (undisturbed _ _ _ allowed).clock) run founded marked
      unexpired
  · exact absurd unexpired (Nat.not_lt.mpr expired)

/-! ## Where a revocation comes from -/

/-- The step finds a grace period over and the family not revoked. -/
def DetectsReuse (R : Rotator) (e : R.machine.Event) (i : ℕ) (h : Name) (family : Name × ℕ) :
    Prop :=
  ∃ loaded reading rotatedMs claimId key, At e i h (.isRevoked loaded reading) ∧
    loaded.record.state = .rotated rotatedMs claimId key ∧ R.grace < reading - rotatedMs ∧
    e.before.store.live e.before.now (.revoked loaded.record.familyId) = none ∧
    loaded.record.family = family

omit undisturbed in
/-- **A revocation comes from a detected reuse or from the upstream.** -/
theorem origin_of_revocation (run : R.machine.Runs ok events s) {i steps since : ℕ} {h : Name}
    {p : Pc} (there : s.threads[i]? = some ⟨.rotating h p, steps, since⟩) {revocation : Revocation}
    (revoking : p.revocation? = some revocation) : ∃ e ∈ events,
      (DetectsReuse R e i h revocation.family ∧ revocation.answer = .invalidGrant) ∨
      (RefusedUpstream e i h revocation.family ∧ revocation.answer ≠ .invalidGrant) := by
  refine past (Q := fun p => p.revocation? = some revocation)
    (E := fun e i h => (DetectsReuse R e i h revocation.family ∧ revocation.answer = .invalidGrant) ∨
      (RefusedUpstream e i h revocation.family ∧ revocation.answer ≠ .invalidGrant))
    (by simp [Pc.revocation?]) ?_ run there revoking
  intro es e i steps h p q delivery choice _ at₁ label edge holds
  cases edge with
  | reuse unrevoked state late =>
      cases holds
      exact .inr (.inl ⟨⟨_, _, _, _, _, at₁, state, late, unrevoked, rfl⟩, rfl⟩)
  | invalidGrant reply invalid =>
      cases holds
      exact .inr (.inr ⟨⟨_, delivery, choice, _, at₁, rfl, label, reply, invalid⟩, by simp⟩)
  | revoke | marked | follow | openErased | deleteErased => exact .inl holds
  | erase erasing =>
      cases holds
      refine .inl ?_
      cases p <;> cases erasing <;> rfl
  | _ => cases holds

omit undisturbed in
/-- A call that began late finds no token. -/
theorem tokenless_of_beganLate (run : R.machine.Runs ok events s) {i : ℕ} {h : Name}
    {family : Name × ℕ} (late : BeganLate R events i h family) {e : R.machine.Event}
    (member : e ∈ events) {t : Thread Call} (stepped : e.By i t) : Tokenless e.before h := by
  obtain ⟨later, e₁, earlier, rfl, _, begun, e₀, older, j, attempt, rotates, _, _⟩ := late
  obtain ⟨later', between, rfl⟩ := later_of_begun run member (Nat.le_of_eq begun) stepped
  have run' : R.machine.Runs ok (later' ++ e :: (between ++ e₁ :: earlier)) s := by simpa using run
  have member₀ : e₀ ∈ between ++ e₁ :: earlier :=
    List.mem_append_right _ (List.mem_cons_of_mem _ older)
  obtain ⟨after, before, parts⟩ := List.mem_iff_append.mp member₀
  have run₁ := run'.split.1
  rw [parts] at run₁
  obtain ⟨run₀, _, s₁, taken, next⟩ := run₁.split
  obtain ⟨e₂, born, births⟩ := rotates.born run₀ rfl
  exact (rotates.tokenless taken).later next run₁ ⟨e₂, List.mem_cons_of_mem _ born, births⟩

variable (late : ∀ es s label, ok es s label → FindsLate R es s label)

include late

omit undisturbed in
theorem beganLate_of_detects (run : R.machine.Runs ok events s) {e : R.machine.Event}
    (member : e ∈ events) {i : ℕ} {h : Name} {family : Name × ℕ}
    (detects : DetectsReuse R e i h family) : BeganLate R events i h family := by
  obtain ⟨loaded, reading, rotatedMs, claimId, key, step, state, past, unrevoked, rfl⟩ := detects
  obtain ⟨later, earlier, rfl⟩ := List.mem_iff_append.mp member
  obtain ⟨_, permitted, _⟩ := run.split
  have began := late _ _ _ permitted i h loaded reading rotatedMs claimId key step state past
    unrevoked
  rw [List.append_cons]
  exact began.mono

/-- **Where only late calls find a grace period over, reuse detection is exact.** -/
theorem reuseExact_of_findsLate (run : R.machine.Runs ok events s) : ReuseExact R events s where
  late i h family outcome began answered unexpired :=
    refused_of_beganLate undisturbed run began answered unexpired
  waiting := by
    intro e member i h record first holds e' member' h' p revocation step revoking answer
    obtain ⟨⟨since, by₁⟩, bytes, live, sealed⟩ := first
    obtain ⟨token, holds⟩ := Option.ne_none_iff_exists'.mp holds
    obtain ⟨earlier, run', _, inside⟩ := run.of_mem member'
    obtain ⟨_, _, there⟩ := step.thread
    obtain ⟨e₁, older, ⟨detects, _⟩ | ⟨_, other⟩⟩ := origin_of_revocation run' there revoking
    · have began := beganLate_of_detects late run (inside older) detects
      -- it is the same handle, which had no token any more
      have same : h = h' := by
        have step₁ : At e i h .load := ⟨_, by₁, rfl⟩
        rcases At.ordered run member member' step₁ step with ⟨_, same, _⟩ | follows | follows
        · exact same
        · obtain ⟨q, same, _⟩ := rotating_of_follows (P := fun _ => True) (fun _ _ => trivial)
            follows trivial
          cases same
          rfl
        · obtain ⟨q, same, _⟩ := rotating_of_follows (P := fun _ => True) (fun _ _ => trivial)
            follows trivial
          cases same
          rfl
      subst same
      exact (tokenless_of_beganLate run began member by₁).not_live sealed holds live
    · exact other answer
  only := by
    intro e member i h revocation ttl marks
    obtain ⟨marker, step, _⟩ := marks
    obtain ⟨earlier, run', _, inside⟩ := run.of_mem member
    obtain ⟨_, _, there⟩ := step.thread
    obtain ⟨e₁, older, ⟨detects, _⟩ | ⟨refused, _⟩⟩ := origin_of_revocation run' there rfl
    · exact .inl (beganLate_of_detects late run (inside older) detects)
    · exact .inr ⟨e₁, inside older, refused⟩

end Run

/-! ## Runs -/

/-- **Reuse detection is exact in every run where only late calls find a grace period over.** -/
theorem reuse_exact (run : R.machine.Runs (fun events s label => Undisturbed R events s label ∧
    FindsLate R events s label) events s) : ReuseExact R events s :=
  reuseExact_of_findsLate (fun _ _ _ permitted => permitted.1) (fun _ _ _ permitted => permitted.2) run

/-- Whether store and sealer serve a step, on one clock, and it guesses no handle. -/
def undisturbedly (events : List R.machine.Event) (s : R.machine.State) (label : R.machine.Lbl) :
    Bool :=
  unguessedly events s label && match label with
    | .step _ delivery choice =>
        delivery = .answered && choice.sealer = .works && choice.reading = s.now
    | _ => true

theorem undisturbed_of_undisturbedly (events : List R.machine.Event) (s : R.machine.State)
    (label : R.machine.Lbl) (holds : undisturbedly events s label = true) :
    Undisturbed R events s label := by
  obtain ⟨unguessed, served⟩ := Bool.and_eq_true_iff.mp holds
  refine ⟨?_, ?_, unguessed_of_unguessedly unguessed⟩
  · rintro i delivery choice rfl
    simp only [Bool.and_eq_true, decide_eq_true_eq] at served
    simp [Faulty, served]
  · rintro i delivery choice rfl
    simp only [Bool.and_eq_true, decide_eq_true_eq] at served
    exact served.2

/-- The rotation a step makes. -/
def rotation? (e : R.machine.Event) : Option (Name × Attempt) :=
  match e.label.index?.bind fun i => e.before.threads[i]?.map Thread.call with
  | some (.rotating h (.swapRotated attempt (.sealed purpose key plain nonce))) =>
      if (purpose = .record ∧ key = .handle h ∧ plain = .record attempt.rotated) ∧
          e.change = some (.handle h,
            some ⟨.sealed purpose key plain nonce, e.before.now + attempt.familyTtl⟩) then
        some (h, attempt)
      else none
  | _ => none

theorem rotates_of_rotation? {e : R.machine.Event} {h : Name} {attempt : Attempt}
    (found : rotation? e = some (h, attempt)) : ∃ i, Rotates e i h attempt := by
  unfold rotation? at found
  split at found
  · rename_i k attempt' purpose key plain nonce there
    split at found
    · rename_i made
      obtain ⟨⟨rfl, rfl, rfl⟩, change⟩ := made
      cases found
      obtain ⟨i, index, thread⟩ := Option.bind_eq_some_iff.mp there
      exact ⟨i, _, at_iff.mpr ⟨index, thread⟩, ⟨nonce, rfl⟩, change⟩
    · cases found
  · cases found

/-- Whether a call began late. -/
def beganLately (events : List R.machine.Event) (i : ℕ) (h : Name) (family : Name × ℕ) : Bool :=
  events.tails.any fun
    | ⟨s, .begin (.refresh (.rotating k))⟩ :: earlier =>
        k = h && s.threads.length = i && earlier.any fun e => (rotation? e).any fun found =>
          found.1 = h && found.2.claim.family = family && R.grace < s.now - found.2.now
    | _ => false

theorem beganLate_of_beganLately {i : ℕ} {h : Name} {family : Name × ℕ}
    (holds : beganLately events i h family = true) : BeganLate R events i h family := by
  obtain ⟨l, suffix, holds⟩ := List.any_eq_true.mp holds
  split at holds
  · rename_i s k earlier
    simp only [Bool.and_eq_true, decide_eq_true_eq, List.any_eq_true, Option.any_eq_true] at holds
    obtain ⟨⟨rfl, begun⟩, e, older, ⟨k', attempt⟩, found, ⟨rfl, same⟩, past⟩ := holds
    obtain ⟨later, parts⟩ := (List.mem_tails _ _).mp suffix
    obtain ⟨j, rotates⟩ := rotates_of_rotation? found
    exact ⟨later, _, earlier, parts.symm, rfl, begun, e, older, j, attempt, rotates, same, past⟩
  · cases holds

/-- Whether a step is undisturbed and, when it finds a grace period over, of a call that began
late. -/
def findsLately (events : List R.machine.Event) (s : R.machine.State) (label : R.machine.Lbl) :
    Bool :=
  undisturbedly events s label && match label with
  | .step i _ _ =>
      match s.threads[i]?.map Thread.call with
      | some (.rotating h (.isRevoked loaded _)) =>
          loaded.record.state.token?.isSome || beganLately events i h loaded.record.family
      | _ => true
  | _ => true

theorem findsLate_of_findsLately (events : List R.machine.Event) (s : R.machine.State)
    (label : R.machine.Lbl) (holds : findsLately events s label = true) :
    Undisturbed R events s label ∧ FindsLate R events s label := by
  obtain ⟨undisturbed, holds⟩ := Bool.and_eq_true_iff.mp holds
  refine ⟨undisturbed_of_undisturbedly events s label undisturbed, ?_⟩
  intro i h loaded reading rotatedMs claimId key step state _ _
  obtain ⟨index, there⟩ := at_iff.mp step
  obtain ⟨delivery, choice, rfl⟩ := Label.index?_eq_some_iff.mp index
  simp only [there, Bool.or_eq_true, state, State.token?, Option.isSome_none,
    Bool.false_eq_true, false_or] at holds
  exact beganLate_of_beganLately holds

/-- A handle is rotated at 0 and presented again right after its grace period. -/
theorem reuse_exact_of_late : ∃ events s, Answered s 2 ⟨0, 0⟩ .invalidGrant ∧
    ReuseExact (sampleRotator 1000 1000000 .default) events s := by
  obtain ⟨events, s, run, refused⟩ := Runs.exists_of_replay
    (M := (sampleRotator 1000 1000000 .default).machine) findsLate_of_findsLately
    ([.begin (.issue "token")] ++ steps 0 4 (.good 0) ++
      [.begin (.refresh (.rotating ⟨0, 0⟩))] ++ steps 1 17 (.good 0) ++
      [.tick 1001, .begin (.refresh (.rotating ⟨0, 0⟩))] ++ steps 2 13 (.good 1001))
    (fun _ s => Answered s 2 ⟨0, 0⟩ .invalidGrant) (by decide +kernel)
  exact ⟨events, s, refused, reuse_exact run⟩

/-- The value is a record with a token. -/
def Value.hasToken : Value → Bool
  | .sealed _ _ (.record record) _ => record.state.token?.isSome
  | _ => false

theorem firstReads_of_live {ok : List R.machine.Event → R.machine.State → R.machine.Lbl → Prop}
    {e : R.machine.Event} (run : R.machine.Runs ok events e.before) {i : ℕ} {h : Name}
    (index : e.label.index? = some i)
    (there : e.before.threads[i]?.map (fun t => (t.call, t.steps)) = some (.rotating h .load, 1))
    (token : (e.before.store.live e.before.now (.handle h)).any Value.hasToken = true) :
    ∃ record, FirstReads e i h record ∧ record.state.token? ≠ none := by
  obtain ⟨⟨call, steps, since⟩, thread, same⟩ := Option.map_eq_some_iff.mp there
  cases same
  obtain ⟨bytes, live, holds⟩ := (Option.any_eq_true _ _).mp token
  obtain ⟨entry, stored, _, rfl⟩ := Store.live_eq_some_iff.mp live
  obtain ⟨record, sealed⟩ := sealed_of_store run stored
  refine ⟨record, ⟨⟨since, thread, Label.index?_eq_some_iff.mp index⟩, _, live, sealed⟩, ?_⟩
  obtain ⟨nonce, value⟩ := sealed
  rw [value] at holds
  exact Option.isSome_iff_ne_none.mp holds

/-- The call revokes a family for reuse. -/
def Call.revokesForReuse : Call → Bool
  | .rotating _ p => p.revocation?.any fun revocation => revocation.answer = .invalidGrant
  | _ => false

/-- A duplicate is presented while the winner commits, and waits. The winner reads its clock at 0
and swaps at 2000; with a grace period of 1000 the duplicate revokes the family. -/
theorem not_reuse_exact : ∃ events s, (sampleRotator 1000 1000000 .default).machine.Runs
    (Undisturbed (sampleRotator 1000 1000000 .default)) events s ∧
    ¬ ReuseExact (sampleRotator 1000 1000000 .default) events s := by
  obtain ⟨events, s, run, first, reused⟩ := Runs.exists_of_replay
    (M := (sampleRotator 1000 1000000 .default).machine) undisturbed_of_undisturbedly
    ([.begin (.issue "token")] ++ steps 0 4 (.good 0) ++
      [.begin (.refresh (.rotating ⟨0, 0⟩)), .begin (.refresh (.rotating ⟨0, 0⟩))] ++
      steps 1 9 (.good 0) ++ steps 2 6 (.good 0) ++ [.tick 2000] ++ steps 1 6 (.good 2000) ++
      steps 2 6 (.good 2000))
    (fun events _ => (∃ e ∈ events, e.label.index? = some 2 ∧
        e.before.threads[2]?.map (fun t => (t.call, t.steps)) =
          some (.rotating ⟨0, 0⟩ .load, 1) ∧
        (e.before.store.live e.before.now (.handle ⟨0, 0⟩)).any Value.hasToken = true) ∧
      ∃ e ∈ events, e.label.index? = some 2 ∧
        (e.before.threads[2]?.map Thread.call).any Call.revokesForReuse = true)
    (by decide +kernel)
  refine ⟨events, s, run, fun exact => ?_⟩
  obtain ⟨e, member, index, there, token⟩ := first
  obtain ⟨_, run₀, _⟩ := run.of_mem member
  obtain ⟨record, reads, holds⟩ := firstReads_of_live run₀ index there token
  obtain ⟨e', member', index', call⟩ := reused
  obtain ⟨call, there', revokes⟩ := (Option.any_eq_true _ _).mp call
  cases call with
  | founding p => cases revokes
  | rotating h p =>
      obtain ⟨revocation, revoking, answer⟩ := (Option.any_eq_true _ _).mp revokes
      exact exact.waiting e member 2 _ record reads holds e' member' h p revocation
        (at_iff.mpr ⟨index', there'⟩) revoking (of_decide_eq_true answer)

end OAuthRelay.Rotation
