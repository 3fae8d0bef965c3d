import OAuthRelay.Rotation.Family

/-!
# The revocation marker

Only a revocation writes a marker, and only where none is live. Discarding and erasing
delete records of handles and recorded responses, never a marker: an erasure starts from a
handle or the head and follows successors, and all of these are handle records
(`Pc.ErasesHandles`). So a marker stays until it expires (`marker_stays`), and that is no
earlier than the family (`marker_outlives`).
-/

set_option autoImplicit false

namespace OAuthRelay.Rotation

open OAuthRelay.Async OAuthRelay.Async.Machine

variable {R : Rotator} {ok : List R.machine.Event → R.machine.State → R.machine.Lbl → Prop}
  {events : List R.machine.Event} {s : R.machine.State}

/-! ## What is erased -/

def Key.IsHandle (key : Key) : Prop := ∃ k, key = .handle k

/-- A head record names a handle record. -/
theorem head_of_store (run : R.machine.Runs ok events s) {familyId : Name} {entry : Entry Value}
    (there : s.store (.head familyId) = some entry) :
    ∃ key, entry.value = .headKey key ∧ key.IsHandle := by
  obtain ⟨later, e, earlier, rfl, change, _⟩ := run.writer there
  cases changes run.split.1 rfl change with
  | refresh i h p step formed alters =>
      generalize key : Key.head familyId = key at alters
      cases alters with
      | head => exact ⟨_, rfl, _, rfl⟩
      | claim => cases key
      | response => cases key
      | successor => cases key
      | rotate => cases key
      | release => cases key
      | marker => cases key
  | creation i p step formed alters =>
      generalize key : Key.head familyId = key at alters
      cases alters with
      | record => cases key
      | head => exact ⟨_, rfl, _, rfl⟩

/-- The keys a call is about to erase from. -/
def Pc.eraseKeys : Pc → List Key
  | erase _ key _ rest | openErased _ key _ rest _ | deleteErased _ key rest => key :: rest
  | _ => []

/-- The bytes a call has read under a key it erases from. -/
def Pc.erased? : Pc → Option (Key × Value)
  | openErased _ key _ _ bytes => some (key, bytes)
  | _ => none

/-- A refresh of `h` erases handle records only. -/
def Pc.ErasesHandles (h : Name) (p : Pc) : Prop :=
  (∀ revocation, p.revocation? = some revocation → revocation.knownKey = .handle h) ∧
    ∀ key ∈ p.eraseKeys, key.IsHandle

/-- What a call has read under a key it erases from was there. -/
theorem read_of_erased (run : R.machine.Runs ok events s) {i steps since : ℕ} {h : Name} {p : Pc}
    (there : s.threads[i]? = some ⟨.rotating h p, steps, since⟩) {key : Key} {bytes : Value}
    (holds : p.erased? = some (key, bytes)) :
    ∃ e ∈ events, e.before.store.live e.before.now key = some bytes := by
  refine past (Q := fun p => p.erased? = some (key, bytes))
    (E := fun e _ _ => e.before.store.live e.before.now key = some bytes)
    (by simp [Pc.erased?]) ?_ run there holds
  intro es e i steps h p q delivery choice _ _ _ edge holds
  cases edge with
  | openErased live =>
      cases holds
      exact .inr live
  | _ => cases holds

/-- A rotated record names a handle record. -/
theorem successorKey_isHandle (run : R.machine.Runs ok events s) {key successorKey : Key}
    (handle : key.IsHandle) {record : Record} {nonce claimId : Name} {rotatedMs : ℕ}
    (found : ∃ e ∈ events, e.before.store.live e.before.now key =
      some (.sealed .record key (.record record) nonce))
    (state : record.state = .rotated rotatedMs claimId successorKey) : successorKey.IsHandle := by
  obtain ⟨k, rfl⟩ := handle
  obtain ⟨e, member, live⟩ := found
  obtain ⟨earlier, run₀, _⟩ := run.of_mem member
  obtain ⟨entry, there, _, value⟩ := Store.live_eq_some_iff.mp live
  obtain ⟨_, _, _, attempt, _, rfl⟩ := rotates_of_store run₀ there ⟨nonce, value⟩ state
  cases state
  exact ⟨_, rfl⟩

/-- **A refresh erases handle records only.** -/
theorem erasesHandles (run : R.machine.Runs ok events s) {i steps since : ℕ} {h : Name} {p : Pc}
    (there : s.threads[i]? = some ⟨.rotating h p, steps, since⟩) : p.ErasesHandles h := by
  refine refresh_invariant (I := fun _ _ h p => p.ErasesHandles h)
    (fun _ _ _ _ _ earlier _ => earlier) (fun _ _ _ _ => ⟨by simp [Pc.revocation?],
      by simp [Pc.eraseKeys]⟩) ?_ run there
  intro es s i delivery choice steps since h p q run _ there earlier edge
  obtain ⟨known, keys⟩ := earlier
  have keep : ∀ {key : Key} {bytes : Value}, p.erased? = some (key, bytes) →
      ∃ e ∈ es, e.before.store.live e.before.now key = some bytes :=
    fun holds => read_of_erased run there holds
  cases edge with
  | reuse => exact ⟨by simp [Pc.revocation?], by simp [Pc.eraseKeys]⟩
  | invalidGrant => exact ⟨by simp [Pc.revocation?], by simp [Pc.eraseKeys]⟩
  | revoke => exact ⟨known, by simp [Pc.eraseKeys]⟩
  | marked => exact ⟨known, by simp [Pc.eraseKeys]⟩
  | @erase _ revocation key rest erasing next =>
      refine ⟨fun revocation' same => ?_, fun key' member => ?_⟩
      · cases same
        cases p <;> simp_all [Pc.erasing?, Pc.revocation?]
      · -- the keys come from the head and the known key, or were there before
        generalize list : key :: rest = keys' at next
        have member' : key' ∈ keys' := by rw [← list]; exact member
        cases next with
        | @starts rv head read =>
            simp only [eraseStarts, List.mem_append, Option.mem_toList] at member'
            rcases member' with named | knownKey
            · cases head with
              | none => cases named
              | some value =>
                  obtain ⟨entry, stored, _, rfl⟩ := Store.live_eq_some_iff.mp read
                  obtain ⟨key'', value', handle⟩ := head_of_store run stored
                  simp [value', Value.asKey] at named
                  exact named ▸ handle
            · split at knownKey
              · cases knownKey
              · rw [List.mem_singleton.mp knownKey, known _ rfl]
                exact ⟨h, rfl⟩
        | absent gone => exact keys key' (List.mem_cons_of_mem _ member')
        | tolerated down => exact keys key' (List.mem_cons_of_mem _ member')
        | limit last => exact keys key' (List.mem_cons_of_mem _ member')
        | deleted => exact keys key' (List.mem_cons_of_mem _ member')
  | follow state =>
      refine ⟨known, fun key' member => ?_⟩
      rcases List.mem_cons.mp member with rfl | member
      · exact successorKey_isHandle run (keys _ (List.mem_cons_self ..)) (keep rfl) state
      · exact keys key' (List.mem_cons_of_mem _ member)
  | openErased => exact ⟨known, keys⟩
  | deleteErased => exact ⟨known, keys⟩
  | _ => exact ⟨by simp [Pc.revocation?], by simp [Pc.eraseKeys]⟩

/-! ## The marker -/

/-- The step writes the family's marker. -/
def Marks (e : R.machine.Event) (i : ℕ) (h : Name) (revocation : Revocation) (ttl : ℕ) : Prop :=
  ∃ marker, At e i h (.putMarker revocation ttl marker) ∧
    e.change = some (.revoked revocation.familyId, some ⟨.marker marker, e.before.now + ttl⟩)

/-- **Only a revocation touches a marker, and only when none is live.** -/
theorem marks_of_change (run : R.machine.Runs ok events s) {e : R.machine.Event}
    (before : e.before = s) {familyId : Name} {x : Option (Entry Value)}
    (change : e.change = some (.revoked familyId, x)) :
    ∃ i h revocation ttl, Marks e i h revocation ttl ∧ revocation.familyId = familyId ∧
      s.store.live s.now (.revoked familyId) = none := by
  subst before
  cases changes run rfl change with
  | refresh i h p step formed alters =>
      generalize key : Key.revoked familyId = key at alters
      cases alters with
      | marker vacant =>
          cases key
          exact ⟨i, h, _, _, ⟨_, step, change⟩, rfl, vacant⟩
      | discard =>
          subst key
          exact absurd formed.1 id
      | erase =>
          subst key
          obtain ⟨_, _, there⟩ := step.thread
          obtain ⟨k, other⟩ := (erasesHandles run there).2 _ (List.mem_cons_self ..)
          cases other
      | claim => cases key
      | response => cases key
      | successor => cases key
      | rotate => cases key
      | head => cases key
      | release => cases key
  | creation i p step formed alters =>
      generalize key : Key.revoked familyId = key at alters
      cases alters with
      | record => cases key
      | head => cases key

/-- The family's marker was written. -/
def Marked (events : List R.machine.Event) (familyId : Name) : Prop :=
  ∃ e ∈ events, ∃ i h revocation ttl, Marks e i h revocation ttl ∧
    revocation.familyId = familyId

theorem Marked.mono {events' : List R.machine.Event} (inside : events ⊆ events') {familyId : Name}
    (marked : Marked events familyId) : Marked events' familyId := by
  obtain ⟨e, member, written⟩ := marked
  exact ⟨e, inside member, written⟩

theorem marked_of_live (run : R.machine.Runs ok events s) {familyId : Name}
    (live : s.store.live s.now (.revoked familyId) ≠ none) : Marked events familyId := by
  obtain ⟨marker, live⟩ := Option.ne_none_iff_exists'.mp live
  obtain ⟨entry, there, _, _⟩ := Store.live_eq_some_iff.mp live
  obtain ⟨later, e, earlier, rfl, change, _⟩ := run.writer there
  obtain ⟨i, h, revocation, ttl, marks, same, _⟩ := marks_of_change run.split.1 rfl change
  exact ⟨e, by simp, i, h, revocation, ttl, marks, same⟩

/-- **A marker stays until it expires.** -/
theorem marker_stays {later earlier : List R.machine.Event} {s₀ : R.machine.State}
    (run₀ : R.machine.Runs ok earlier s₀) (run : R.machine.Runs ok (later ++ earlier) s)
    {familyId : Name} {entry : Entry Value}
    (there : s₀.store (.revoked familyId) = some entry) (unexpired : s.now < entry.expires) :
    s.store (.revoked familyId) = some entry := by
  induction later generalizing s with
  | nil =>
      obtain rfl := run₀.unique run
      exact there
  | cons e later ih =>
      cases run with
      | @cons _ s s' label run _ taken =>
          have earlierNow : s.now < entry.expires := Nat.lt_of_le_of_lt (step_now_le taken) unexpired
          have kept := ih run earlierNow
          rw [step_store taken, Store.applyChange_of_forall_ne, kept]
          intro x change
          obtain ⟨i, h, revocation, ttl, _, _, vacant⟩ := marks_of_change run rfl change
          rw [Store.live_of_entry kept earlierNow] at vacant
          cases vacant

/-- The step reads the clock from which a revocation takes the marker's lifetime. -/
def ReadsRevokeClock (e : R.machine.Event) (i : ℕ) (h : Name) (revocation : Revocation)
    (reading : ℕ) : Prop :=
  At e i h (.revoke revocation) ∧ ∃ delivery choice, e.label = .step i delivery choice ∧
    choice.reading = reading

theorem revokeClock_of_putMarker (run : R.machine.Runs ok events s) {i steps since ttl : ℕ}
    {h marker : Name} {revocation : Revocation}
    (there : s.threads[i]? = some ⟨.rotating h (.putMarker revocation ttl marker), steps, since⟩) :
    ∃ e ∈ events, ∃ reading, ReadsRevokeClock e i h revocation reading ∧
      ttlUntil revocation.familyExpiresMs reading = some ttl := by
  refine past (Q := fun p => p = .putMarker revocation ttl marker)
    (E := fun e i h => ∃ reading, ReadsRevokeClock e i h revocation reading ∧
      ttlUntil revocation.familyExpiresMs reading = some ttl) (by simp) ?_ run there rfl
  intro es e i steps h p q delivery choice _ at₁ label edge holds
  subst holds
  cases edge with
  | revoke left => exact .inr ⟨_, ⟨at₁, delivery, choice, label, rfl⟩, left⟩

/-- By the clock that read `reading` in the step `e`, the family has not expired yet. With
one clock for all, this says that the clock has not reached the expiry. -/
def Unexpired (e : R.machine.Event) (reading expiry : ℕ) (s : R.machine.State) : Prop :=
  reading + (s.now - e.before.now) < expiry

/-- **A marker outlives the family.** -/
theorem marker_outlives {later earlier : List R.machine.Event} {e : R.machine.Event}
    (run : R.machine.Runs ok (later ++ e :: earlier) s) {i ttl : ℕ} {h : Name}
    {revocation : Revocation} (marks : Marks e i h revocation ttl) :
    ∃ e₀ ∈ earlier, ∃ reading, ReadsRevokeClock e₀ i h revocation reading ∧
      ∀ {later' : List R.machine.Event} {s' : R.machine.State},
        R.machine.Runs ok (later' ++ e :: earlier) s' →
        Unexpired e₀ reading revocation.familyExpiresMs s' →
        (s'.store.live s'.now (.revoked revocation.familyId)).isSome = true := by
  obtain ⟨marker, step, change⟩ := marks
  obtain ⟨run₁, _, s₁, taken, next⟩ := run.split
  obtain ⟨_, _, there⟩ := step.thread
  obtain ⟨e₀, older, reading, reads, left⟩ := revokeClock_of_putMarker run₁ there
  refine ⟨e₀, older, reading, reads, fun {later' s'} run' unexpired => ?_⟩
  obtain ⟨before, rfl⟩ := ttlUntil_eq_some_iff.mp left
  have clock : e₀.before.now ≤ e.before.now := run₁.now_le older
  have written : s₁.store (.revoked revocation.familyId) =
      some ⟨.marker marker, e.before.now + (revocation.familyExpiresMs - reading)⟩ := by
    rw [step_store taken, change, Store.applyChange_same]
  have fresh : s'.now < e.before.now + (revocation.familyExpiresMs - reading) := by
    have elapsed : reading + (s'.now - e₀.before.now) < revocation.familyExpiresMs := unexpired
    omega
  rw [Store.live_of_entry (marker_stays next run' written fresh) fresh]
  rfl

end OAuthRelay.Rotation
