import OAuthRelay.Rotation.Drift
import OAuthRelay.Rotation.Reuse

/-!
# What a revocation erases

A revocation writes the family's marker, reads the family's head and follows the chain from
there to the record that holds the token, which it deletes.

Calls that were under way when the marker was written may still rotate. A winner reads the
marker after its final swap, and takes its successor back when it finds it. So once the calls of
that time have returned, only records that were handed out before the marker are left
(`handedOut_before_marker`). Among these the chain has stopped growing, and its rotated records
stay where they are as long as no winner takes back a successor that was rotated in the meantime
(`Strands`); then the revocation that wrote the marker gets to the end of the chain
(`revocation_erases`). With such a winner it does not (`not_erased_of_strands`).
-/

set_option autoImplicit false

namespace OAuthRelay.Rotation

open OAuthRelay.Async OAuthRelay.Async.Machine Relation

variable {R : Rotator} {ok : List R.machine.Event → R.machine.State → R.machine.Lbl → Prop}
  {events : List R.machine.Event} {s : R.machine.State}

/-! ## Calls that have returned -/

/-- The call is over. -/
def Call.isOver : Call → Bool
  | .rotating _ (.done _) => true
  | .founding (.issued _) => true
  | .founding (.issueFailed _) => true
  | .founding (.done _) => true
  | _ => false

/-- The call has returned. -/
def Returned (s : R.machine.State) (i : ℕ) : Prop :=
  s.threads[i]?.map (fun t => t.call.isOver) = some true

instance (s : R.machine.State) (i : ℕ) : Decidable (Returned s i) :=
  inferInstanceAs (Decidable (_ = _))

/-- A refresh that has returned is in its last state. -/
theorem Returned.done {i steps since : ℕ} {h : Name} {p : Pc} (returned : Returned s i)
    (there : s.threads[i]? = some ⟨.rotating h p, steps, since⟩) :
    ∃ outcome, p = .done outcome := by
  unfold Returned at returned
  rw [there] at returned
  cases p with
  | done outcome => exact ⟨outcome, rfl⟩
  | _ => cases returned

/-- A call that once stepped as a refresh is one in the end. -/
theorem At.thread_later {e : R.machine.Event} (run : R.machine.Runs ok events s)
    (member : e ∈ events) {i : ℕ} {h : Name} {p : Pc} (step : At e i h p) :
    ∃ q steps since, s.threads[i]? = some ⟨.rotating h q, steps, since⟩ := by
  obtain ⟨t, stepped, call⟩ := step
  have present : i < s.threads.length :=
    (List.getElem?_eq_some_iff.mp stepped.1).1.trans_le (run.length_le member)
  obtain ⟨follows, _⟩ := run.follows (List.getElem?_eq_getElem present) e member t stepped
  rw [call] at follows
  obtain ⟨q, same, _⟩ :=
    rotating_of_follows (P := fun _ => True) (fun _ _ => trivial) follows trivial
  refine ⟨q, s.threads[i].steps, s.threads[i].since, ?_⟩
  rw [List.getElem?_eq_getElem present, ← same]

/-- A step is of one call, in one state. -/
theorem At.unique {e : R.machine.Event} {i j : ℕ} {h h' : Name} {p p' : Pc} (step : At e i h p)
    (step' : At e j h' p') : i = j ∧ h = h' ∧ p = p' := by
  obtain ⟨t, stepped, call⟩ := step
  obtain ⟨t', stepped', call'⟩ := step'
  obtain rfl := stepped.index_eq stepped'
  obtain rfl := stepped.unique stepped'
  rw [call] at call'
  cases call'
  exact ⟨rfl, rfl, rfl⟩

theorem older_subset {α : Type} (later : List α) (a : α) (earlier : List α) :
    earlier ⊆ later ++ a :: earlier :=
  fun _ member => List.mem_append_right _ (List.mem_cons_of_mem _ member)

/-! ## Successors that are settled -/

/-- The rotation still has its successor in hand: it is on its way to its final swap, to its last
look at the marker, or about to delete the successor. -/
def Pc.Keeps (attempt : Attempt) : Pc → Prop
  | sealRotated attempt' => attempt' = attempt
  | swapRotated attempt' _ => attempt' = attempt
  | swapHead attempt' => attempt' = attempt
  | isRevokedInFlight attempt' => attempt' = attempt
  | discard key rest _ => attempt.successorKey ∈ key :: rest
  | _ => False

/-- The step deletes the record of a handle, in a later state than the step `e`. -/
def DeletedAfter (events : List R.machine.Event) (e : R.machine.Event) (k : Name) : Prop :=
  ∃ later e' earlier, events = later ++ e' :: earlier ∧ e ∈ earlier ∧
    e'.change = some (.handle k, none)

theorem DeletedAfter.cons {e : R.machine.Event} {k : Name} (deleted : DeletedAfter events e k)
    (e' : R.machine.Event) : DeletedAfter (e' :: events) e k := by
  obtain ⟨later, e₁, earlier, rfl, member, change⟩ := deleted
  exact ⟨e' :: later, e₁, earlier, rfl, member, change⟩

/-- A record that is gone does not come back. -/
theorem absent_stays {later earlier : List R.machine.Event} {s₀ : R.machine.State} {k : Name}
    (run₀ : R.machine.Runs ok earlier s₀) (run : R.machine.Runs ok (later ++ earlier) s)
    (born : ∃ e ∈ earlier, Births e k) (gone : s₀.store (.handle k) = none) :
    s.store (.handle k) = none := by
  have tokenless : Tokenless s₀ k := by
    intro entry record there
    rw [gone] at there
    cases there
  rcases tokenless_stays run₀ run born tokenless with same | absent
  · rw [same, gone]
  · exact absent

/-- A record that is there in the end has been there since it was born. -/
theorem present_between {newer older earlier : List R.machine.Event} {s' : R.machine.State}
    {k : Name}
    (run' : R.machine.Runs ok (older ++ earlier) s')
    (run : R.machine.Runs ok (newer ++ older ++ earlier) s) (born : ∃ e ∈ earlier, Births e k)
    (there : s.store (.handle k) ≠ none) : s'.store (.handle k) ≠ none := by
  intro gone
  rw [List.append_assoc] at run
  obtain ⟨e, member, births⟩ := born
  exact there (absent_stays run' run ⟨e, List.mem_append_right _ member, births⟩ gone)

theorem DeletedAfter.absent (run : R.machine.Runs ok events s) {e : R.machine.Event} {k : Name}
    (deleted : DeletedAfter events e k) (births : Births e k) : s.store (.handle k) = none := by
  obtain ⟨later, e', earlier, rfl, older, change⟩ := deleted
  obtain ⟨_, _, s₁, taken, next⟩ := run.split
  refine absent_stays next run ⟨e, List.mem_cons_of_mem _ older, births⟩ ?_
  rw [step_store taken, change, Store.applyChange_same]

/-- A handle with a record was written by the step that bore it. -/
theorem Births.writes (run : R.machine.Runs ok events s) {e : R.machine.Event} (member : e ∈ events)
    {k : Name} (births : Births e k) (there : s.store (.handle k) ≠ none) :
    ∃ entry, e.change = some (.handle k, some entry) := by
  obtain ⟨later, earlier, rfl⟩ := List.mem_iff_append.mp member
  obtain ⟨run₀, _, s₁, taken, next⟩ := run.split
  have unborn : e.before.store (.handle k) = none := by
    by_contra present
    obtain ⟨entry, there₀⟩ := Option.ne_none_iff_exists'.mp present
    obtain ⟨e₀, older, births₀⟩ := born_of_store run₀ there₀
    exact not_born_again run₀ rfl older births₀ births
  have written : s₁.store (.handle k) ≠ none :=
    fun gone => there (absent_stays next run ⟨e, List.mem_cons_self .., births⟩ gone)
  obtain ⟨entry, there₁⟩ := Option.ne_none_iff_exists'.mp written
  have changed : e.before.store.applyChange e.change (.handle k) ≠ e.before.store (.handle k) := by
    rw [← step_store taken, there₁, unborn]
    simp
  refine ⟨entry, ?_⟩
  rw [Store.change_of_ne _ changed, ← step_store taken, there₁]

/-- **A successor stays in hand until its call finds no marker or deletes it.** -/
theorem Pc.Keeps.edge {attempt : Attempt} {h name : Name} {σ : Store Key Value} {now : ℕ}
    {delivery : Delivery} {choice : Choice} {p q : Pc} (keeps : p.Keeps attempt)
    (edge : Edge R h σ now delivery choice name p q) (served : ¬ Faulty delivery choice)
    (positive : ∀ attempt', p.attempt? = some attempt' → 0 < attempt'.familyTtl) :
    q.Keeps attempt ∨
      (p = .isRevokedInFlight attempt ∧ σ.live now (.revoked attempt.claim.familyId) = none) ∨
      ∃ rest after, p = .discard attempt.successorKey rest after := by
  have refused : ∀ outcome, Refusal h σ now delivery choice p outcome →
      ∃ key after, p = .discard key [] after := by
    intro outcome reason
    cases reason with
    | fault faulty => exact absurd faulty served
    | invalid zero =>
        cases p with
        | swapRotated attempt' rotated =>
            exact absurd (positive _ rfl) (Nat.not_lt.mpr (Nat.le_of_eq (Option.some.inj zero)))
        | swapClaim | putMarker => exact False.elim keeps
        | _ => cases zero
    | discarded => exact ⟨_, _, rfl⟩
    | _ => cases keeps
  have discards : ∀ {key rest after}, p = .discard key rest after →
      attempt.successorKey ∈ rest ∨ ∃ rest after, p = .discard attempt.successorKey rest after := by
    rintro key rest after rfl
    rcases List.mem_cons.mp keeps with rfl | further
    · exact .inr ⟨_, _, rfl⟩
    · exact .inl further
  cases edge with
  | refuse _ reason =>
      obtain ⟨key, after, rfl⟩ := refused _ reason
      exact .inr (.inr ((discards rfl).resolve_left (List.not_mem_nil)))
  | sealRotated =>
      cases keeps
      exact .inl rfl
  | rotated =>
      cases keeps
      exact .inl rfl
  | advanced =>
      cases keeps
      exact .inl rfl
  | unprepared preparing =>
      cases p with
      | sealRotated =>
          cases keeps
          cases preparing
          exact .inl (List.mem_cons_of_mem _ (List.mem_singleton_self _))
      | sealResponse | putResponse | sealSuccessor | putSuccessor => exact False.elim keeps
      | _ => cases preparing
  | lost =>
      cases keeps
      exact .inl (List.mem_cons_of_mem _ (List.mem_singleton_self _))
  | inFlight =>
      cases keeps
      exact .inl (List.mem_cons_of_mem _ (List.mem_singleton_self _))
  | finished _ unrevoked =>
      cases keeps
      exact .inr (.inl ⟨rfl, unrevoked⟩)
  | discard =>
      rcases discards rfl with further | deletes
      · exact .inl further
      · exact .inr (.inr deletes)
  | failed => exact .inr (.inr ((discards rfl).resolve_left (List.not_mem_nil)))
  | discardedLost => exact .inr (.inr ((discards rfl).resolve_left (List.not_mem_nil)))
  | wait seeking => cases p <;> first | exact False.elim keeps | cases seeking
  | erase erasing => cases p <;> first | exact False.elim keeps | cases erasing
  | revoked revoking => cases p <;> first | exact False.elim keeps | cases revoking
  | _ => cases keeps

/-- What a rotation writes has a lifetime. -/
theorem ttl_pos_of_attempt (run : R.machine.Runs ok events s) {i steps since : ℕ} {h : Name}
    {p : Pc} (there : s.threads[i]? = some ⟨.rotating h p, steps, since⟩) {attempt : Attempt}
    (holds : p.attempt? = some attempt) : 0 < attempt.familyTtl := by
  obtain ⟨_, _, _, left⟩ := stamp_of_attempt run there holds
  obtain ⟨before, remains⟩ := ttlUntil_eq_some_iff.mp left
  omega

/-- A founder that writes the first record hands its handle out. -/
theorem Founding.handsOut {e : R.machine.Event} {i : ℕ} {creating : Family} {bytes : Value}
    (step : Founding e i (.putRecord creating bytes)) (changed : e.change.isSome = true) :
    handsOut? e = some (creating.creation.handle, creating.record.family) := by
  obtain ⟨t, ⟨there, delivery, choice, label⟩, call⟩ := step
  simp [handsOut?, changed, label, Label.index?, there, call]

section Settled

variable (undisturbed : ∀ es s label, ok es s label → Undisturbed R es s label)

include undisturbed

theorem unguessed_of_undisturbed : ∀ es s label, ok es s label → Unguessed R es s label :=
  fun es s label permitted => (undisturbed es s label permitted).unguessed

theorem clock_of_undisturbed : ∀ es s label, ok es s label → OneClock R es s label :=
  fun es s label permitted => (undisturbed es s label permitted).clock

/-- **A successor that was stored is kept in hand until its call has found no marker or has
deleted it.** -/
theorem keeps_of_putSuccessor (run : R.machine.Runs ok events s) {i steps since : ℕ} {h : Name}
    {p : Pc} (there : s.threads[i]? = some ⟨.rotating h p, steps, since⟩) {e : R.machine.Event}
    (member : e ∈ events) {attempt : Attempt} {successor : Value}
    (step : At e i h (.putSuccessor attempt successor)) :
    (∃ e' ∈ events, Finishes e' i h attempt) ∨ DeletedAfter events e attempt.successorHandle ∨
      p.Keeps attempt := by
  refine refresh_invariant (I := fun es i h p => ∀ e ∈ es, ∀ attempt successor,
    At e i h (.putSuccessor attempt successor) → (∃ e' ∈ es, Finishes e' i h attempt) ∨
      DeletedAfter es e attempt.successorHandle ∨ p.Keeps attempt) ?_ ?_ ?_ run there e member
    attempt successor step
  · intro e₁ es i h p earlier other e member attempt successor step
    rcases List.mem_cons.mp member with rfl | older
    · obtain ⟨t, stepped, _⟩ := step
      exact absurd stepped (other t)
    · rcases earlier e older attempt successor step with ⟨e', member', ends⟩ | deleted | keeps
      · exact .inl ⟨e', List.mem_cons_of_mem _ member', ends⟩
      · exact .inr (.inl (deleted.cons _))
      · exact .inr (.inr keeps)
  · intro es s h run e member attempt successor step
    obtain ⟨t, stepped, _⟩ := step
    exact absurd stepped (run.not_by_begin e member t)
  · intro es s i delivery choice steps since h p q run permitted before earlier edge e member
      attempt successor step
    have served : ¬ Faulty delivery choice := (undisturbed _ _ _ permitted).served _ _ _ rfl
    rcases List.mem_cons.mp member with rfl | older
    · -- the successor is stored, or the rotation is given up
      obtain ⟨⟨call, _, _⟩, stepped, rfl⟩ := step
      cases before.symm.trans stepped.1
      refine .inr (.inr ?_)
      cases edge with
      | putSuccessor => rfl
      | unprepared preparing =>
          cases preparing
          exact List.mem_cons_of_mem _ (List.mem_singleton_self _)
      | refuse _ reason =>
          cases reason with
          | fault faulty => exact absurd faulty served
          | invalid zero => cases zero
      | wait seeking => cases seeking
      | erase erasing => cases erasing
      | revoked revoking => cases revoking
    · rcases earlier e older attempt successor step with ⟨e', member', ends⟩ | deleted | keeps
      · exact .inl ⟨e', List.mem_cons_of_mem _ member', ends⟩
      · exact .inr (.inl (deleted.cons _))
      · have positive : ∀ attempt', p.attempt? = some attempt' → 0 < attempt'.familyTtl :=
          fun _ holds => ttl_pos_of_attempt run before holds
        rcases keeps.edge edge served positive with keeps | ⟨rfl, unrevoked⟩ | ⟨rest, after, rfl⟩
        · exact .inr (.inr keeps)
        · exact .inl ⟨_, List.mem_cons_self .., ⟨_, ⟨before, _, _, rfl⟩, rfl⟩, unrevoked⟩
        · refine .inr (.inl ⟨[], _, es, rfl, older, ?_⟩)
          rw [Event.change_eq rfl before]
          have answered : delivery = .answered := by
            by_contra lost
            exact served (.inl lost)
          subst answered
          rfl

end Settled

/-! ## What a revocation deletes -/

/-- What a revocation has opened it read under its key. -/
theorem reads_of_openErased (run : R.machine.Runs ok events s) {i steps since hop : ℕ} {h : Name}
    {revocation : Revocation} {key : Key} {rest : List Key} {bytes : Value}
    (there : s.threads[i]? =
      some ⟨.rotating h (.openErased revocation key hop rest bytes), steps, since⟩) :
    ∃ e ∈ events, At e i h (.erase revocation key hop rest) ∧
      e.before.store.live e.before.now key = some bytes := by
  refine past (Q := fun p => p = .openErased revocation key hop rest bytes)
    (E := fun e i h => At e i h (.erase revocation key hop rest) ∧
      e.before.store.live e.before.now key = some bytes) (by simp) ?_ run there rfl
  intro es e i steps h p q delivery choice _ at₁ _ edge holds
  cases edge with
  | openErased live =>
      cases holds
      exact .inr ⟨at₁, live⟩
  | _ => cases holds

/-- What a revocation opens it follows or deletes. -/
theorem eraseRecord_of_next {h name : Name} {σ : Store Key Value} {now hop : ℕ}
    {delivery : Delivery} {choice : Choice} {revocation : Revocation} {k : Name} {rest : List Key}
    {record : Record} {bytes : Value} {q : Pc} (sealed : Sealed k record bytes)
    (works : choice.sealer = .works)
    (resumed : ((Pc.openErased revocation (.handle k) hop rest bytes).await R h).next σ now delivery
      (answer choice name) = some q) :
    q = Pc.eraseRecord revocation (.handle k) hop rest record := by
  obtain ⟨nonce, rfl⟩ := sealed
  simpa [Pc.await, Await.next, answer, openValue, works, eq_comm] using resumed

/-- A record that was opened is deleted only if it is not rotated. -/
theorem token_of_deletes {h name : Name} {σ : Store Key Value} {now hop : ℕ} {delivery : Delivery}
    {choice : Choice} {revocation : Revocation} {k : Name} {rest rest' : List Key} {record : Record}
    {bytes : Value} {key : Key} (sealed : Sealed k record bytes) (works : choice.sealer = .works)
    (resumed : ((Pc.openErased revocation (.handle k) hop rest bytes).await R h).next σ now delivery
      (answer choice name) = some (.deleteErased revocation key rest')) :
    record.state.token? ≠ none := by
  have opened := eraseRecord_of_next sealed works resumed
  cases state : record.state with
  | active => simp [State.token?]
  | claimed => simp [State.token?]
  | rotated =>
      simp only [Pc.eraseRecord, state] at opened
      split at opened
      · cases opened
      · cases rest <;> cases opened

/-- **A revocation deletes a record that it read with a token.** -/
theorem reads_of_deleteErased (undisturbed : ∀ es s label, ok es s label → Undisturbed R es s label)
    (run : R.machine.Runs ok events s) {i steps since : ℕ} {h k : Name} {revocation : Revocation}
    {rest : List Key} (there : s.threads[i]? =
      some ⟨.rotating h (.deleteErased revocation (.handle k) rest), steps, since⟩) :
    ∃ e ∈ events, ∃ hop bytes, At e i h (.erase revocation (.handle k) hop rest) ∧
      e.before.store.live e.before.now (.handle k) = some bytes ∧
      ∀ record, Sealed k record bytes → record.state.token? ≠ none := by
  rcases run.entered there with ⟨input, begun⟩ |
    ⟨e, member, delivery, choice, ⟨call, steps₀, since₀⟩, label, there₀, resumed⟩
  · cases input with
    | issue => cases begun
    | refresh presented => cases presented <;> cases begun
  · cases call with
    | founding p =>
        obtain ⟨q, same, _⟩ := founding_next resumed
        cases same
    | rotating h₀ p =>
        obtain ⟨q, same, resumed⟩ := rotating_resumes resumed
        cases same
        cases edge_of_next resumed with
        | @deleteErased _ _ hop _ bytes =>
            obtain ⟨_, run₀, permitted, inside⟩ := run.of_mem member
            obtain ⟨e', older, step, live⟩ := reads_of_openErased run₀ there₀
            refine ⟨e', inside older, hop, bytes, step, live, fun record sealed => ?_⟩
            refine token_of_deletes sealed ?_ resumed
            by_contra broken
            exact (undisturbed _ _ _ permitted).served _ _ _ label (.inr broken)

/-- The step takes back a successor of the family that was rotated in the meantime, so that nothing
in the store leads to the handles after it. -/
def Strands (e : R.machine.Event) (family : Name × ℕ) : Prop :=
  ∃ k entry, TakesBack e k ∧ e.before.store (.handle k) = some entry ∧
    entry.value.isRotated = true ∧ entry.value.family? = some family

/-! ## A chain that has stopped growing -/

/-- Links to handles that were handed out early are early. -/
theorem Links.earlier {earlier : List R.machine.Event} (run : R.machine.Runs ok events s)
    (inside : earlier ⊆ events) {family : Name × ℕ} {a b : Name} (links : Links events family a b)
    (old : HandedOut earlier b family) : Links earlier family a b := by
  obtain ⟨r, member, i, attempt, rotates, rfl, rfl⟩ := links
  obtain ⟨e, older, hands⟩ := old
  obtain ⟨rfl, _⟩ := handsOut_unique run member (inside older) rotates.handsOut hands
  exact ⟨r, older, i, attempt, rotates, rfl, rfl⟩

/-- **When the last handle of a family was handed out early, all of them were.** -/
theorem handedOut_early (unguessed : ∀ es s label, ok es s label → Unguessed R es s label)
    {earlier : List R.machine.Event} {s₀ : R.machine.State} (run₀ : R.machine.Runs ok earlier s₀)
    (run : R.machine.Runs ok events s) (inside : earlier ⊆ events) {family : Name × ℕ} {z : Name}
    (ends : Ends (fun a => HandedOut events a family) (Links events family) z)
    (old : HandedOut earlier z family) {a : Name} (handed : HandedOut events a family) :
    HandedOut earlier a family := by
  have reaches := ends.reaches a handed
  induction reaches using ReflTransGen.head_induction_on with
  | refl => exact old
  | @head x y link rest ih =>
      exact (link.earlier run inside (ih (.of_links link))).handedOut unguessed run₀

/-- Without a rotation the head does not get further behind. -/
theorem headLag_le_of_step {label : R.machine.Lbl} {s' : R.machine.State}
    (run : R.machine.Runs ok events s) (taken : R.machine.step s label = some s')
    {family : Name × ℕ} (unrotated : ∀ i h attempt,
      Rotates (⟨s, label⟩ : R.machine.Event) i h attempt → attempt.claim.family ≠ family) :
    headLag (⟨s, label⟩ :: events) s' family ≤ headLag events s family := by
  by_cases moves : ∃ i h attempt, At (⟨s, label⟩ : R.machine.Event) i h (.swapHead attempt)
  · obtain ⟨i, h, attempt, step⟩ := moves
    exact Nat.le_of_add_right_le (Nat.le_of_eq (headLag_of_swapHead events taken step family))
  · by_cases rotation : ∃ i h attempt, Rotates (⟨s, label⟩ : R.machine.Event) i h attempt
    · obtain ⟨i, h, attempt, rotates⟩ := rotation
      rw [headLag_of_rotates taken rotates, if_neg (unrotated i h attempt rotates)]
      exact Nat.le_refl _
    · refine Nat.le_of_eq (headLag_of_other taken ?_ ?_ run family)
      · exact fun i h attempt rotates => rotation ⟨i, h, attempt, rotates⟩
      · exact fun i h attempt step => moves ⟨i, h, attempt, step⟩

theorem headLag_le {later earlier : List R.machine.Event} {s₀ : R.machine.State}
    (run₀ : R.machine.Runs ok earlier s₀) (run : R.machine.Runs ok (later ++ earlier) s)
    {family : Name × ℕ} (unrotated : ∀ e ∈ later, ∀ i h attempt, Rotates e i h attempt →
      attempt.claim.family ≠ family) :
    headLag (later ++ earlier) s family ≤ headLag earlier s₀ family := by
  induction later generalizing s with
  | nil =>
      rw [run₀.unique run]
      exact Nat.le_refl _
  | cons e later ih =>
      cases run with
      | cons run _ taken =>
          refine (headLag_le_of_step run taken (unrotated _ (List.mem_cons_self ..))).trans ?_
          exact ih run fun e' member => unrotated e' (List.mem_cons_of_mem _ member)

/-! ## After the marker -/

section Marker

variable (undisturbed : ∀ es s label, ok es s label → Undisturbed R es s label)
  {later earlier : List R.machine.Event} {e : R.machine.Event} {i ttl : ℕ} {h : Name}
  {revocation : Revocation} (run : R.machine.Runs ok (later ++ e :: earlier) s)
  (marks : Marks e i h revocation ttl) (unexpired : s.now < revocation.familyExpiresMs)

include undisturbed run marks unexpired

omit undisturbed unexpired in
theorem Marks.handedOut (unguessed : ∀ es s label, ok es s label → Unguessed R es s label) :
    HandedOut earlier h revocation.family := by
  obtain ⟨marker, step, _⟩ := marks
  obtain ⟨_, _, there⟩ := step.thread
  exact handedOut_of_pc unguessed run.split.1 there rfl

/-- A live marker is written once. -/
theorem first_marker : ¬ Marked earlier revocation.familyId := by
  intro marked
  obtain ⟨run₀, _, _⟩ := run.split
  have founded : Founded earlier revocation.family :=
    (marks.handedOut run (unguessed_of_undisturbed undisturbed)).founded run₀
  have young : e.before.now < revocation.familyExpiresMs :=
    (run.now_le (List.mem_append_right _ (List.mem_cons_self ..))).trans_lt unexpired
  refine marked.lasts (clock_of_undisturbed undisturbed) run₀ founded young
    ?_
  obtain ⟨marker, step, change⟩ := marks
  obtain ⟨_, _, _, _, _, _, vacant⟩ := marks_of_change run₀ rfl change
  exact vacant

/-- **Whoever found no marker of the family looked before it was written.** -/
theorem earlier_of_readsMarker {e' : R.machine.Event} (member : e' ∈ later ++ e :: earlier) {j : ℕ}
    {k : Name} (reads : ReadsMarker e' j k revocation.family none) : e' ∈ earlier := by
  rcases List.mem_append.mp member with newer | here
  · obtain ⟨_, older, _, run', _, young⟩ := run.split_later newer
    have founded : Founded (older ++ e :: earlier) revocation.family := by
      have handed := marks.handedOut run (unguessed_of_undisturbed undisturbed)
      exact (handed.founded run.split.1).mono (older_subset _ _ _)
    have marked : Marked (older ++ e :: earlier) revocation.family.1 :=
      ⟨e, List.mem_append_right _ (List.mem_cons_self ..), i, h, revocation, ttl, marks, rfl⟩
    exact absurd reads.2 (marked.lasts (clock_of_undisturbed undisturbed)
      run' founded (young.trans_lt unexpired))
  · rcases List.mem_cons.mp here with rfl | old
    · obtain ⟨⟨p, step, asks⟩, _⟩ := reads
      obtain ⟨_, step', _⟩ := marks
      obtain ⟨_, _, rfl⟩ := step.unique step'
      cases asks
    · exact old

/-- Nobody erases records of the family before the marker. -/
theorem later_of_erases {older : List R.machine.Event} {e' : R.machine.Event}
    (member : e' ∈ older ++ e :: earlier) {j hop : ℕ} {k : Name} {revoking : Revocation} {key : Key}
    {rest : List Key} (step : At e' j k (.erase revoking key hop rest))
    (same : revoking.familyId = revocation.familyId) : e' ∈ older := by
  rcases List.mem_append.mp member with after | here
  · exact after
  · rcases List.mem_cons.mp here with rfl | old
    · obtain ⟨_, step', _⟩ := marks
      obtain ⟨_, _, other⟩ := step'.unique step
      cases other
    · obtain ⟨_, run', _, inside⟩ := run.split.1.of_mem old
      obtain ⟨_, _, thread⟩ := step.thread
      have marked := (marked_of_erasing run' thread rfl).mono inside
      rw [same] at marked
      exact absurd marked (first_marker undisturbed run marks unexpired)

/-- **A record that was rotated before the marker stays**, unless a winner strands what follows. -/
theorem rotated_survives (spared : ∀ e' ∈ later, ¬ Strands e' revocation.family) {a b : Name}
    (links : Links earlier revocation.family a b) {newer older : List R.machine.Event}
    (split : later = newer ++ older) {s' : R.machine.State}
    (run' : R.machine.Runs ok (older ++ e :: earlier) s') :
    ∃ entry record rotatedMs claimId, s'.store (.handle a) = some entry ∧
      Sealed a record entry.value ∧ record.family = revocation.family ∧
      record.state = .rotated rotatedMs claimId (.handle b) := by
  have unguessed := unguessed_of_undisturbed undisturbed
  have unmarked : ¬ Marked earlier revocation.familyId :=
    first_marker undisturbed run marks unexpired
  obtain ⟨run₀, _, s₁, taken, next⟩ := run.split
  have handed : HandedOut earlier a revocation.family := links.handedOut unguessed run₀
  obtain ⟨entry, record, there, sealed, same⟩ := stored_of_handedOut unguessed run₀ handed unmarked
  have young : e.before.now < revocation.family.2 :=
    (run.now_le (List.mem_append_right _ (List.mem_cons_self ..))).trans_lt unexpired
  have lasts := expiry_le_of_stored (clock_of_undisturbed undisturbed)
    run₀ there sealed
  obtain ⟨r, member, j, attempt, rotates, family, rfl⟩ := links
  have live : e.before.store.live e.before.now (.handle a) = some entry.value := by
    refine Store.live_of_entry there (young.trans_le ?_)
    rw [← same]
    exact lasts
  obtain rfl := sealed.unique (rotates.sealed_of_live run₀ member live)
  have rotated : entry.value.isRotated = true := by
    obtain ⟨nonce, bytes⟩ := sealed
    rw [bytes]
    rfl
  have there₁ : s₁.store (.handle a) = some entry := by
    obtain ⟨_, _, change⟩ := marks
    rw [step_store taken, change, Store.applyChange_other _ (by simp), there]
  have stays : ∀ {es s₂}, R.machine.Runs ok (es ++ e :: earlier) s₂ → s₂.store (.handle a) ≠ none →
      s₂.store (.handle a) = some entry :=
    fun run₂ present => (rotated_stays next run₂ there₁ rotated).resolve_right present
  refine ⟨entry, _, _, _, stays run' fun gone => ?_, sealed, same, rfl⟩
  obtain ⟨newer', e', older', rfl, present, change⟩ :=
    next.removed_between run' (by simp [there₁]) gone
  rw [List.append_assoc, List.cons_append] at run'
  have before := run'.split.1
  have deleting := deletes_handedOut unguessed run'
    (List.mem_append_right _ (List.mem_cons_self ..)) change
    (handed.mono (List.Subset.trans (older_subset older' e earlier) (older_subset newer' e' _)))
  rcases deleting.2 with takes | ⟨j', h', revoking, rest, step, family'⟩
  · refine spared e' ?_ ⟨a, entry, takes, stays before present, rotated, ?_⟩
    · rw [split]
      exact List.mem_append_right _ (List.mem_append_right _ (List.mem_cons_self ..))
    · rw [sealed.family, same]
  · obtain ⟨_, _, thread⟩ := step.thread
    obtain ⟨e₂, member₂, hop, bytes, step₂, live₂, token⟩ :=
      reads_of_deleteErased undisturbed before thread
    -- by then the record was rotated
    have after := later_of_erases undisturbed run marks unexpired member₂ step₂
      (congrArg Prod.fst family')
    obtain ⟨_, _, _, run₂, _⟩ := before.split_later after
    obtain ⟨entry₂, there₂, _, rfl⟩ := Store.live_eq_some_iff.mp live₂
    have there₃ := stays run₂ (by simp [there₂])
    rw [there₂] at there₃
    cases there₃
    exact token _ sealed rfl

/-- Where a revocation is on its way from the head to the end `z` of the chain. -/
def Pc.Walks (links : Name → Name → Prop) (z : Name) (revocation : Revocation) : Pc → Prop
  | getHead revocation' => revocation' = revocation
  | erase _ key hop _ =>
      ∃ x l, key = .handle x ∧ Path links x l z ∧ hop + l.length < maxEraseHops
  | openErased _ key hop _ bytes => ∃ x record, key = .handle x ∧ Sealed x record bytes ∧
      ((x = z ∧ record.state.token? ≠ none) ∨ ∃ y l rotatedMs claimId,
        record.state = .rotated rotatedMs claimId (.handle y) ∧ Path links y l z ∧
          hop + 1 + l.length < maxEraseHops)
  | deleteErased _ key _ => key = .handle z
  | _ => False

omit undisturbed marks unexpired in
/-- A handed-out record that is there in the end has been there since the marker. -/
theorem present_after {k : Name} {family : Name × ℕ} (there : s.store (.handle k) ≠ none)
    (old : HandedOut earlier k family) {newer older : List R.machine.Event}
    (split : later = newer ++ older) {s' : R.machine.State}
    (run' : R.machine.Runs ok (older ++ e :: earlier) s') : s'.store (.handle k) ≠ none := by
  obtain ⟨b, member, hands⟩ := old
  obtain ⟨b₀, member₀, births, _⟩ := birth_of_handsOut run.split.1 member hands
  rw [split] at run
  exact present_between run' run ⟨b₀, List.mem_cons_of_mem _ member₀, births.births⟩ there

section Walk

variable (spared : ∀ e' ∈ later, ¬ Strands e' revocation.family) {z : Name}
  (there : s.store (.handle z) ≠ none)
  (ends : Ends (fun a => HandedOut (later ++ e :: earlier) a revocation.family)
    (Links (later ++ e :: earlier) revocation.family) z)
  (old : HandedOut earlier z revocation.family)

include spared there ends old

/-- **On the chain a revocation reads rotated records up to the last, which holds a token.** -/
theorem found_on_path {newer older : List R.machine.Event} (split : later = newer ++ older)
    {s' : R.machine.State} (run' : R.machine.Runs ok (older ++ e :: earlier) s')
    (young : s'.now ≤ s.now) {x : Name} {l : List Name}
    (path : Path (Links earlier revocation.family) x l z) {hop : ℕ}
    (below : hop + l.length < maxEraseHops) (revoking : Revocation) (rest : List Key) :
    ∃ bytes, s'.store.live s'.now (.handle x) = some bytes ∧
      (Pc.openErased revoking (.handle x) hop rest bytes).Walks (Links earlier revocation.family) z
        revocation := by
  have clock := clock_of_undisturbed undisturbed
  have live : ∀ {a entry record}, s'.store (.handle a) = some entry →
      Sealed a record entry.value → record.family = revocation.family →
      s'.store.live s'.now (.handle a) = some entry.value := by
    intro a entry record there sealed same
    refine Store.live_of_entry there ((young.trans_lt unexpired).trans_le ?_)
    rw [← show record.familyExpiresMs = revocation.familyExpiresMs from congrArg Prod.snd same]
    exact expiry_le_of_stored clock run' there sealed
  cases path with
  | here =>
      obtain ⟨entry', there'⟩ := Option.ne_none_iff_exists'.mp
        (present_after run there old split run')
      obtain ⟨record, sealed⟩ := sealed_of_store run' there'
      have handed : HandedOut (older ++ e :: earlier) z revocation.family :=
        old.mono (older_subset _ _ _)
      have same := handed.family_of_stored run' there' sealed
      refine ⟨entry'.value, live there' sealed same, z, record, rfl, sealed, .inl ⟨rfl, ?_⟩⟩
      intro tokenless
      -- the last handle was not rotated
      cases state : record.state with
      | active => simp [state, State.token?] at tokenless
      | claimed => simp [state, State.token?] at tokenless
      | rotated rotatedMs claimId key =>
          obtain ⟨r, member, j, attempt, rotates, rfl⟩ := rotates_of_store run' there' sealed state
          refine ends.last attempt.successorHandle ⟨r, ?_, j, attempt, rotates, same, rfl⟩
          rw [split, List.append_assoc]
          exact List.mem_append_right _ member
  | @step _ y _ l next path =>
      obtain ⟨entry', record, rotatedMs, claimId, there', sealed, same, state⟩ :=
        rotated_survives undisturbed run marks unexpired spared next split run'
      rw [List.length_cons] at below
      exact ⟨entry'.value, live there' sealed same, x, record, rfl, sealed,
        .inr ⟨y, l, rotatedMs, claimId, state, path, by omega⟩⟩

omit marks unexpired spared there in
/-- No handle of the family is rotated after the marker. -/
theorem not_rotates_after {older : List R.machine.Event} (inside : older ⊆ later)
    {e' : R.machine.Event} (member : e' ∈ older ++ [e]) {j : ℕ} {k : Name} {attempt : Attempt}
    (rotates : Rotates e' j k attempt) : attempt.claim.family ≠ revocation.family := by
  intro same
  have unguessed := unguessed_of_undisturbed undisturbed
  have old_inside : earlier ⊆ later ++ e :: earlier := older_subset _ _ _
  have member' : e' ∈ later ++ [e] := by
    rcases List.mem_append.mp member with newer | here
    · exact List.mem_append_left _ (inside newer)
    · exact List.mem_append_right _ here
  have everywhere : e' ∈ later ++ e :: earlier := by
    rw [List.append_cons]
    exact List.mem_append_left _ member'
  have link : Links (later ++ e :: earlier) revocation.family k attempt.successorHandle :=
    ⟨e', everywhere, j, attempt, rotates, same, rfl⟩
  obtain ⟨r, first, i', attempt', rotates', _⟩ := link.earlier run old_inside
    (handedOut_early unguessed run.split.1 run old_inside ends old (.of_links link))
  obtain ⟨rfl, _⟩ := rotation_unique run everywhere (old_inside first) rotates rotates'
  obtain ⟨newer, older', rfl⟩ := List.mem_iff_append.mp first
  rw [List.append_cons, ← List.append_assoc] at run
  obtain ⟨_, ⟨_, stepped, _⟩, _⟩ := rotates
  exact run.step_once stepped (List.mem_append_left _ member')

omit marks spared there in
/-- **From the head that a revocation reads, the end of the chain is within its hops.** -/
theorem named_by_head (set : HeadSet earlier revocation.family)
    (near : headLag earlier e.before revocation.family < maxEraseHops)
    {newer older : List R.machine.Event} (split : later = newer ++ older) {s' : R.machine.State}
    (run' : R.machine.Runs ok (older ++ e :: earlier) s') (young : s'.now ≤ s.now) :
    ∃ k l, s'.store.live s'.now (.head revocation.familyId) = some (.headKey (.handle k)) ∧
      Path (Links earlier revocation.family) k l z ∧ l.length < maxEraseHops := by
  have unguessed := unguessed_of_undisturbed undisturbed
  have before : earlier ⊆ older ++ e :: earlier := older_subset _ _ _
  have inside : older ++ e :: earlier ⊆ later ++ e :: earlier := by
    rw [split, List.append_assoc]
    exact List.subset_append_right _ _
  have within : earlier ⊆ later ++ e :: earlier := List.Subset.trans before inside
  have first : ∀ {a}, HandedOut (later ++ e :: earlier) a revocation.family →
      HandedOut earlier a revocation.family :=
    fun handed => handedOut_early unguessed run.split.1 run within ends old handed
  have early : ∀ {a b}, Links (older ++ e :: earlier) revocation.family a b →
      Links earlier revocation.family a b :=
    fun link => link.earlier run' before (first ((HandedOut.of_links link).mono inside))
  obtain ⟨k, l, z', lag⟩ := lag_of_run unguessed run' ⟨z, old.mono before⟩
  obtain rfl : z' = z := by
    refine ends.eq_of_last (lag.ends.mem.mono inside) fun b link => ?_
    exact lag.ends.last b ((link.earlier run within (first (.of_links link))).mono before)
  refine ⟨k, l, ?_, lag.path.mono fun _ => early, ?_⟩
  · have lasting := lasting_of_clock (clock_of_undisturbed undisturbed)
      run' ((old.mono before).founded run') (young.trans_lt unexpired)
    rcases lag.head with ⟨expires, named⟩ | ⟨absent, _⟩
    · exact Store.live_of_entry named (lasting.head _ named)
    · exact absurd absent ((set.mono before).stored run')
  · rw [lag.length]
    refine lt_of_le_of_lt ?_ near
    rw [List.append_cons] at run' ⊢
    refine headLag_le run.split.1 run' fun e' member j k attempt rotates => ?_
    refine not_rotates_after undisturbed run ends old ?_ member rotates
    rw [split]
    exact List.subset_append_right _ _

omit unexpired spared there ends old in
/-- The call that has written the marker goes on to the head. -/
theorem getHead_of_marks : ∃ s₁ steps since, R.machine.Runs ok (e :: earlier) s₁ ∧
    s₁.threads[i]? = some ⟨.rotating h (.getHead revocation), steps, since⟩ := by
  obtain ⟨run₀, permitted, s₁, taken, next⟩ := run.split
  obtain ⟨marker, at₁, _⟩ := marks
  obtain ⟨delivery, choice, steps, since, q, label, resumed, thread⟩ := after_of_at taken at₁
  obtain ⟨_, _, thread₀⟩ := at₁.thread
  have served := (undisturbed _ _ _ permitted).served _ _ _ label
  have first : q = .getHead revocation := by
    cases edge_of_next resumed with
    | marked => rfl
    | refuse _ reason =>
        cases reason with
        | fault faulty => exact absurd faulty served
        | invalid zero =>
            obtain ⟨_, _, _, _, left⟩ := revokeClock_of_putMarker run₀ thread₀
            obtain ⟨before, remains⟩ := ttlUntil_eq_some_iff.mp left
            have none_left : ttl = 0 := Option.some.inj zero
            omega
    | wait seeking => cases seeking
    | unprepared preparing => cases preparing
    | erase erasing => cases erasing
    | revoked _ lapsed =>
        rcases lapsed with ⟨same, _⟩ | erases
        · cases same
        · cases erases
  rw [first] at thread
  exact ⟨s₁, _, _, next, thread⟩

/-- **A step of a revocation leads on along the chain**, and not past its end as long as the record
there stays. -/
theorem Pc.Walks.next (set : HeadSet earlier revocation.family)
    (near : headLag earlier e.before revocation.family < maxEraseHops) {e' : R.machine.Event}
    (member : e' ∈ later) {delivery : Delivery} {choice : Choice} {p q : Pc} {steps since : ℕ}
    (label : e'.label = .step i delivery choice)
    (thread : e'.before.threads[i]? = some ⟨.rotating h p, steps, since⟩)
    (walks : p.Walks (Links earlier revocation.family) z revocation)
    (resumed : (p.await R h).next e'.before.store e'.before.now delivery
      (answer choice ⟨i, steps⟩) = some q) :
    q.Walks (Links earlier revocation.family) z revocation := by
  obtain ⟨newer, older, split, run', permitted, young⟩ := run.split_later member
  have cut : later = newer ++ [e'] ++ older := by rw [split, List.append_cons]
  have served := (undisturbed _ _ _ permitted).served _ _ _ label
  have works : choice.sealer = .works := by
    by_contra broken
    exact served (.inr broken)
  obtain rfl : delivery = .answered := by
    by_contra lost
    exact served (.inl lost)
  cases p with
  | getHead revocation' =>
      obtain rfl : revocation' = revocation := walks
      obtain ⟨k, l, named, path, below⟩ :=
        named_by_head undisturbed run unexpired ends old set near cut run' young
      have erases : q = .erase revocation' (.handle k) 0
          (if some (.handle k) = some revocation'.knownKey then []
            else [revocation'.knownKey]) := by
        simpa [Pc.await, Await.next, named, Value.asKey, eraseStarts, eraseNext, eq_comm]
          using resumed
      rw [erases]
      exact ⟨k, l, rfl, path, by omega⟩
  | erase revocation' key hop rest =>
      obtain ⟨x, l, rfl, path, below⟩ := walks
      obtain ⟨bytes, live, opened⟩ := found_on_path undisturbed run marks unexpired spared there
        ends old cut run' young path below revocation' rest
      have reads : q = .openErased revocation' (.handle x) hop rest bytes := by
        simpa [Pc.await, Await.next, live, eq_comm] using resumed
      rw [reads]
      exact opened
  | openErased revocation' key hop rest bytes =>
      obtain ⟨x, record, rfl, sealed, found⟩ := walks
      rw [eraseRecord_of_next sealed works resumed]
      rcases found with ⟨rfl, token⟩ | ⟨y, l, rotatedMs, claimId, state, path, below⟩
      · cases state : record.state with
        | rotated => simp [state, State.token?] at token
        | _ => simp [Pc.eraseRecord, state, Pc.Walks]
      · simp only [Pc.eraseRecord, state]
        rw [if_pos (by omega)]
        exact ⟨y, l, rfl, path, below⟩
  | deleteErased revocation' key rest =>
      -- the record that is deleted here would be gone in the end
      obtain rfl : key = .handle z := walks
      have change : e'.change = some (.handle z, none) := by
        rw [Event.change_eq label thread]
        rfl
      have run₁ := run
      rw [split, List.append_assoc, List.cons_append] at run₁
      obtain ⟨_, _, s₂, taken, after⟩ := run₁.split
      rw [← List.cons_append] at after
      refine absurd ?_ (present_after run there old split after)
      rw [step_store taken, change, Store.applyChange_same]
  | _ => exact False.elim walks

/-- **A revocation that has written the marker does not return while the end of the chain has a
record.** -/
theorem walks_of_marks (set : HeadSet earlier revocation.family)
    (near : headLag earlier e.before revocation.family < maxEraseHops) :
    ∃ t, s.threads[i]? = some t ∧ ∃ p, t.call = .rotating h p ∧
      p.Walks (Links earlier revocation.family) z revocation := by
  obtain ⟨s₁, steps, since, next, thread⟩ := getHead_of_marks undisturbed run marks
  have start : (Pc.getHead revocation).Walks (Links earlier revocation.family) z revocation := rfl
  refine next.carry_thread (P := fun call => ∃ p, call = Call.rotating h p ∧
    p.Walks (Links earlier revocation.family) z revocation) run thread ⟨_, rfl, start⟩ ?_
  rintro e' member ⟨call, steps, since⟩ delivery choice call' label thread ⟨p, rfl, walks⟩ resumed
  obtain ⟨q, rfl, resumes⟩ := rotating_resumes resumed
  exact ⟨q, rfl, Pc.Walks.next undisturbed run marks unexpired spared there ends old set near member
    label thread walks resumes⟩

end Walk

section Returned

variable (returned : ∀ j, j < e.before.threads.length → Returned s j)

include returned

/-- Whoever held a claim of the family has returned. -/
theorem returned_of_claim {e' : R.machine.Event} (member : e' ∈ later ++ e :: earlier) {j : ℕ}
    {k : Name} {p : Pc} (step : At e' j k p) {held : Claim} (holds : p.claim? = some held)
    (same : held.family = revocation.family) : Returned s j := by
  obtain ⟨_, _, there⟩ := step.thread
  obtain ⟨_, run', _, inside⟩ := run.of_mem member
  obtain ⟨e₁, older, reads⟩ := readsMarker_of_claim run' there holds
  rw [same] at reads
  have old := earlier_of_readsMarker undisturbed run marks unexpired (inside older) reads
  obtain ⟨⟨_, ⟨t, stepped, _⟩, _⟩, _⟩ := reads
  exact returned j ((List.getElem?_eq_some_iff.mp stepped.1).1.trans_le
    (run.split.1.length_le old))

/-- **Once the calls of its time have returned, only records that were handed out before the marker
are left.** -/
theorem handedOut_before_marker {k : Name} {entry : Entry Value} {record : Record}
    (there : s.store (.handle k) = some entry) (sealed : Sealed k record entry.value)
    (same : record.family = revocation.family) : HandedOut earlier k revocation.family := by
  have unguessed := unguessed_of_undisturbed undisturbed
  obtain ⟨b, member, births⟩ := birthsInto_of_store run there sealed
  rw [same] at births
  have present : s.store (.handle k) ≠ none := by simp [there]
  obtain ⟨first, written⟩ := births.births.writes run member present
  rcases births with ⟨j, creating, bytes, step, rfl, family⟩ |
    ⟨j, k', attempt, successor, step, rfl, family⟩
  · have handed := marks.handedOut run unguessed
    rcases List.mem_append.mp member with newer | here
    · -- of a family that is founded nothing was handed out before
      obtain ⟨newer, older, rfl⟩ := List.mem_iff_append.mp newer
      rw [List.append_assoc, List.cons_append] at run
      obtain ⟨before, _, _, _, after⟩ := run.split
      refine absurd ?_ (not_handedOut_of_founding before after step h)
      rw [family]
      exact handed.mono (older_subset _ _ _)
    · rcases List.mem_cons.mp here with rfl | old
      · obtain ⟨_, at₁, _⟩ := marks
        obtain rfl : i = j := at₁.choose_spec.1.index_eq step.choose_spec.1
        exact absurd at₁ (not_at_of_founding run member member step)
      · exact ⟨b, old, by rw [step.handsOut (by simp [written]), family]⟩
  · obtain ⟨q, _, _, there'⟩ := step.thread_later run member
    have ended := returned_of_claim undisturbed run marks unexpired returned member step rfl family
    obtain ⟨outcome, rfl⟩ := ended.done there'
    rcases keeps_of_putSuccessor undisturbed run there' member step with
      ⟨e', member', ends, unrevoked⟩ | deleted | keeps
    · rw [show attempt.claim.familyId = revocation.family.1 from congrArg Prod.fst family]
        at unrevoked
      have old := earlier_of_readsMarker undisturbed run marks unexpired member'
        ⟨⟨_, ends, congrArg some family⟩, unrevoked⟩
      obtain ⟨_, run', _, inside⟩ := run.split.1.of_mem old
      obtain ⟨_, _, swapped⟩ := ends.thread
      obtain ⟨r, older, rotates⟩ := rotates_of_swapped run' swapped (.inr rfl)
      exact ⟨r, inside older, by rw [rotates.handsOut, family]⟩
    · exact absurd (deleted.absent run (.inr ⟨_, _, _, _, step, rfl⟩)) present
    · exact False.elim keeps

end Returned

end Marker

/-! ## Runs -/

/-- In the step `e` the marker of the family is written, and what was under way has come to an end:
the calls of that time have returned before the family expires. The founder had set the head, and
fewer head swaps than the hops of a revocation had stalled or were still to come. -/
structure Revokes (s : R.machine.State) (e : R.machine.Event) (earlier : List R.machine.Event)
    (family : Name × ℕ) : Prop where
  marks : ∃ i h revocation ttl, Marks e i h revocation ttl ∧ revocation.family = family
  set : HeadSet earlier family
  near : headLag earlier e.before family < maxEraseHops
  returned : ∀ j, j < e.before.threads.length → Returned s j
  unexpired : s.now < family.2

/-- **A revocation erases the token of its family.** When store and sealer do what they are asked
and the calls of its time have returned, no record of the family holds a token, unless a winner
took back a successor that was rotated in the meantime. -/
theorem revocation_erases {later earlier : List R.machine.Event} {e : R.machine.Event}
    {family : Name × ℕ} (run : R.machine.Runs (Undisturbed R) (later ++ e :: earlier) s)
    (revokes : Revokes s e earlier family) (spared : ∀ e' ∈ later, ¬ Strands e' family) {k : Name}
    {entry : Entry Value} {record : Record} (there : s.store (.handle k) = some entry)
    (sealed : Sealed k record entry.value) (same : record.family = family) :
    record.state.token? = none := by
  have undisturbed : ∀ es s label, Undisturbed R es s label → Undisturbed R es s label :=
    fun _ _ _ permitted => permitted
  have unguessed := unguessed_of_undisturbed undisturbed
  obtain ⟨⟨i, h, revocation, ttl, marks, rfl⟩, set, near, returned, unexpired⟩ := revokes
  by_contra token
  have old := handedOut_before_marker undisturbed run marks unexpired returned there sealed same
  have inside : earlier ⊆ later ++ e :: earlier := older_subset _ _ _
  obtain ⟨z, ends⟩ := chain_of_family unguessed run ⟨k, old.mono inside⟩
  -- a record with a token is the last of its chain
  obtain rfl : k = z := by
    refine ends.eq_of_last (old.mono inside) fun b link => ?_
    obtain ⟨r, member, j, attempt, rotates, _⟩ := link
    obtain ⟨newer, older, list⟩ := List.mem_iff_append.mp member
    rw [list] at run
    obtain ⟨before, _, s₁, taken, next⟩ := run.split
    obtain ⟨b₀, first, births⟩ := rotates.born before rfl
    have tokenless := (rotates.tokenless taken).later next run
      ⟨b₀, List.mem_cons_of_mem _ first, births⟩
    exact token (tokenless entry record there sealed)
  obtain ⟨t, thread, p, call, walks⟩ := walks_of_marks undisturbed run marks unexpired spared
    (by simp [there]) ends old set near
  obtain ⟨_, ⟨_, stepped, _⟩, _⟩ := marks
  have ended : Returned s i := returned i (List.getElem?_eq_some_iff.mp stepped.1).1
  obtain ⟨call₀, steps, since⟩ := t
  obtain rfl : call₀ = .rotating h p := call
  obtain ⟨outcome, rfl⟩ := ended.done thread
  exact walks

/-! ## Sample revocations -/

/-- A relay with a grace period of a second. -/
abbrev erasureRotator : Rotator := sampleRotator 1000 1000000 .default

/-- The revocation of the first family for a reuse of its first handle. -/
def reuseRevocation : Revocation where
  familyId := firstFamily.1
  familyExpiresMs := firstFamily.2
  knownKey := .handle ⟨0, 0⟩
  answer := .invalidGrant

/-- Whether a step takes back a successor that has been rotated. -/
def strands (e : R.machine.Event) : Bool :=
  match e.label.index?.bind fun i => e.before.threads[i]?.map Thread.call with
  | some (.rotating _ (.discard (.handle k) _ .revoked)) =>
      (e.before.store (.handle k)).any fun entry => entry.value.isRotated
  | _ => false

theorem strands_of_step {e : R.machine.Event} {family : Name × ℕ} (stranded : Strands e family) :
    strands e = true := by
  obtain ⟨k, entry, ⟨i, h, rest, step⟩, there, rotated, _⟩ := stranded
  obtain ⟨index, call⟩ := at_iff.mp step
  simp [strands, index, call, there, rotated]

/-- Whether the call `i` writes the marker in the event `m`, as a revocation of the first family
that is complete in the end. -/
def revokesAt (m i ttl : ℕ) (marker : Name) (events : List R.machine.Event) (s : R.machine.State) :
    Bool :=
  s.now < firstFamily.2 && events[m]?.any fun e =>
    decide (At e i ⟨0, 0⟩ (.putMarker reuseRevocation ttl marker)) &&
    decide (e.change =
      some (.revoked firstFamily.1, some ⟨.marker marker, e.before.now + ttl⟩)) &&
    (e.before.store (.head firstFamily.1)).isSome &&
    decide (headLag (events.drop (m + 1)) e.before firstFamily < maxEraseHops) &&
    (List.range e.before.threads.length).all fun j => Returned s j

theorem revokes_of_revokesAt {m i ttl : ℕ} {marker : Name}
    (run : R.machine.Runs (Undisturbed R) events s)
    (holds : revokesAt m i ttl marker events s = true) :
    ∃ e, events = events.take m ++ e :: events.drop (m + 1) ∧
      Revokes s e (events.drop (m + 1)) firstFamily := by
  simp only [revokesAt, Bool.and_eq_true, decide_eq_true_eq, Option.any_eq_true] at holds
  obtain ⟨unexpired, e, found, ⟨⟨⟨step, change⟩, head⟩, near⟩, returned⟩ := holds
  have parts := parts_of_getElem? found
  refine ⟨e, parts, ⟨⟨i, _, _, ttl, ⟨marker, step, change⟩, rfl⟩, ?_, near, ?_, unexpired⟩⟩
  · rw [parts] at run
    obtain ⟨run₀, _⟩ := run.split
    obtain ⟨entry, there⟩ := Option.isSome_iff_exists.mp head
    obtain ⟨family, set, id⟩ := headSet_of_head run₀ there
    obtain ⟨_, _, thread⟩ := step.thread
    have founded : Founded (events.drop (m + 1)) reuseRevocation.family :=
      (inFamily_of_pc run₀ thread rfl).founded run₀
    obtain rfl := (set.founded run₀).unique run₀ founded id
    exact set
  · intro j present
    simpa using List.all_eq_true.mp returned j (List.mem_range.mpr present)

/-- A rotation that is under way when the first handle is presented late: its winner takes the
successor back, and the revocation finds nothing more to delete behind it. -/
theorem revocation_erases_of_reuse : ∃ later e earlier s,
    erasureRotator.machine.Runs (Undisturbed erasureRotator) (later ++ e :: earlier) s ∧
      Revokes s e earlier firstFamily ∧ ∀ k entry record, s.store (.handle k) = some entry →
        Sealed k record entry.value → record.family = firstFamily → record.state.token? = none := by
  obtain ⟨events, s, run, holds, spared⟩ :=
    Runs.exists_of_replay (M := erasureRotator.machine) undisturbed_of_undisturbedly
      ([.begin (.issue "token")] ++ steps 0 4 (.good 0) ++
        [.begin (.refresh (.rotating ⟨0, 0⟩))] ++ steps 1 17 (.good 0) ++
        [.begin (.refresh (.rotating ⟨1, 8⟩))] ++ steps 2 8 (.good 0) ++
        [.tick 1001, .begin (.refresh (.rotating ⟨0, 0⟩))] ++ steps 3 6 (.good 1001) ++
        steps 2 11 (.good 1001) ++ steps 3 7 (.good 1001))
      (fun events s => revokesAt 18 3 998999 ⟨3, 5⟩ events s = true ∧
        (events.take 18).all (fun e => !strands e) = true)
      (by decide +kernel)
  obtain ⟨e, parts, revokes⟩ := revokes_of_revokesAt run holds
  rw [parts] at run
  refine ⟨_, e, _, s, run, revokes, fun k entry record there sealed same => ?_⟩
  refine revocation_erases run revokes (fun e' member stranded => ?_) there sealed same
  have safe := List.all_eq_true.mp spared e' member
  rw [strands_of_step stranded] at safe
  cases safe

/-- **A winner that takes back a successor after its rotation leaves a token behind.** The call 1
waits before its head swap while the call 2 replays its response and the call 3 rotates the
successor in turn. The revocation of the call 4 finds a chain with a gap. -/
theorem not_erased_of_strands : ∃ later e earlier s,
    erasureRotator.machine.Runs (Undisturbed erasureRotator) (later ++ e :: earlier) s ∧
      Revokes s e earlier firstFamily ∧ HoldsToken s ⟨3, 8⟩ := by
  obtain ⟨events, s, run, holds, now, there⟩ :=
    Runs.exists_of_replay (M := erasureRotator.machine) undisturbed_of_undisturbedly
      ([.begin (.issue "token")] ++ steps 0 4 (.good 0) ++
        [.begin (.refresh (.rotating ⟨0, 0⟩))] ++ steps 1 15 (.good 0) ++
        [.begin (.refresh (.rotating ⟨0, 0⟩))] ++ steps 2 6 (.good 0) ++
        [.begin (.refresh (.rotating ⟨1, 8⟩))] ++ steps 3 17 (.good 0) ++
        [.tick 1001, .begin (.refresh (.rotating ⟨0, 0⟩))] ++ steps 4 6 (.good 1001) ++
        steps 1 4 (.good 1001) ++ steps 4 5 (.good 1001))
      (fun events s => revokesAt 9 4 998999 ⟨4, 5⟩ events s = true ∧ s.now = 1001 ∧
        s.store (.handle ⟨3, 8⟩) = some ⟨driftSuccessor 3, 1000000⟩)
      (by decide +kernel)
  obtain ⟨e, parts, revokes⟩ := revokes_of_revokesAt run holds
  rw [parts] at run
  have live : s.store.live s.now (.handle ⟨3, 8⟩) = some (driftSuccessor 3) := by
    refine Store.live_of_entry there ?_
    rw [now]
    decide
  exact ⟨_, e, _, s, run, revokes, _, _, "token", live, ⟨_, rfl⟩, rfl⟩

end OAuthRelay.Rotation
