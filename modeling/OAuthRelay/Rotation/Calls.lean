import OAuthRelay.Rotation.Steps

/-!
# One call of the rotator

What holds of a single call whatever the others do. The frames it carries are well formed
(`Formed`): what it writes under a handle is a record sealed for that handle, and every
claim id, successor handle and nonce in its hands it drew itself. A call goes through the
claim, the upstream request and the commit at most once and in order (`rank`), with one
claim and one rotation (`claim_unique`, `attempt_unique`).
-/

set_option autoImplicit false

namespace OAuthRelay.Rotation

open OAuthRelay.Async OAuthRelay.Async.Machine

variable {R : Rotator}

/-- The step is taken by the call `i`, a refresh of `h` in state `p`. -/
def At (e : R.machine.Event) (i : ℕ) (h : Name) (p : Pc) : Prop :=
  ∃ t, e.By i t ∧ t.call = .rotating h p

theorem at_iff {e : R.machine.Event} {i : ℕ} {h : Name} {p : Pc} :
    At e i h p ↔ e.label.index? = some i ∧
      e.before.threads[i]?.map Thread.call = some (.rotating h p) := by
  rw [Label.index?_eq_some_iff]
  constructor
  · rintro ⟨t, ⟨there, label⟩, call⟩
    exact ⟨label, Option.map_eq_some_iff.mpr ⟨t, there, call⟩⟩
  · rintro ⟨label, there⟩
    obtain ⟨t, there, call⟩ := Option.map_eq_some_iff.mp there
    exact ⟨t, ⟨there, label⟩, call⟩

instance (e : R.machine.Event) (i : ℕ) (h : Name) (p : Pc) : Decidable (At e i h p) :=
  decidable_of_iff _ at_iff.symm

/-- The step is taken by the call `i`, which creates a family and is in state `p`. -/
def Founding (e : R.machine.Event) (i : ℕ) (p : CreatePc) : Prop :=
  ∃ t, e.By i t ∧ t.call = .founding p

/-- The call `i` has answered a refresh of `h`. -/
def Answered (s : R.machine.State) (i : ℕ) (h : Name) (outcome : RefreshOutcome) : Prop :=
  s.threads[i]?.map Thread.call = some (.rotating h (.done outcome))

instance (s : R.machine.State) (i : ℕ) (h : Name) (outcome : RefreshOutcome) :
    Decidable (Answered s i h outcome) :=
  inferInstanceAs (Decidable (_ = _))

theorem Answered.thread {s : R.machine.State} {i : ℕ} {h : Name} {outcome : RefreshOutcome}
    (answered : Answered s i h outcome) :
    ∃ steps since, s.threads[i]? = some ⟨.rotating h (.done outcome), steps, since⟩ := by
  obtain ⟨⟨call, steps, since⟩, there, same⟩ := Option.map_eq_some_iff.mp answered
  cases same
  exact ⟨steps, since, there⟩

/-- A refresh resumes as a refresh of the same handle. -/
theorem rotating_resumes {h : Name} {p : Pc} {σ : Store Key Value} {now : ℕ} {delivery : Delivery}
    {choice : Choice} {name : Name} {call : Call}
    (resumed : (R.machine.await (.rotating h p)).next σ now delivery (answer choice name) =
      some call) :
    ∃ q, call = .rotating h q ∧ (p.await R h).next σ now delivery (answer choice name) = some q := by
  change ((Call.rotating h p).await R).next σ now delivery (answer choice name) = some call at resumed
  rw [Call.await, Await.next_map, Option.map_eq_some_iff] at resumed
  obtain ⟨q, resumed, rfl⟩ := resumed
  exact ⟨q, rfl, resumed⟩

theorem rotating_next {h : Name} {p : Pc} {σ : Store Key Value} {now : ℕ} {delivery : Delivery}
    {choice : Choice} {name : Name} {call : Call}
    (resumed : ((Call.rotating h p).await R).next σ now delivery (answer choice name) = some call) :
    ∃ q, call = .rotating h q ∧ Edge R h σ now delivery choice name p q := by
  obtain ⟨q, rfl, inner⟩ := rotating_resumes resumed
  exact ⟨q, rfl, edge_of_next inner⟩

theorem founding_next {p : CreatePc} {σ : Store Key Value} {now : ℕ} {delivery : Delivery}
    {choice : Choice} {name : Name} {call : Call}
    (resumed : ((Call.founding p).await R).next σ now delivery (answer choice name) = some call) :
    ∃ q, call = .founding q ∧ CreateEdge R σ now delivery choice name p q := by
  rw [Call.await, Await.next_map, Option.map_eq_some_iff] at resumed
  obtain ⟨q, resumed, rfl⟩ := resumed
  exact ⟨q, rfl, createEdge_of_next resumed⟩

section Invariant

variable {ok : List R.machine.Event → R.machine.State → R.machine.Lbl → Prop}
  {events : List R.machine.Event} {s : R.machine.State}

/-- A property of refreshes is an invariant when it holds at the first load and every edge
keeps it. -/
theorem refresh_invariant {I : List R.machine.Event → ℕ → Name → Pc → Prop}
    (older : ∀ e es i h p, I es i h p → (∀ t, ¬ e.By i t) → I (e :: es) i h p)
    (start : ∀ es (s : R.machine.State) h, R.machine.Runs ok es s →
      I (⟨s, .begin (.refresh (.rotating h))⟩ :: es) s.threads.length h .load)
    (step : ∀ es (s : R.machine.State) i delivery choice steps since h p q,
      R.machine.Runs ok es s → ok es s (.step i delivery choice) →
      s.threads[i]? = some ⟨.rotating h p, steps, since⟩ → I es i h p →
      Edge R h s.store s.now delivery choice ⟨i, steps⟩ p q →
      I (⟨s, .step i delivery choice⟩ :: es) i h q)
    (run : R.machine.Runs ok events s) {i : ℕ} {h : Name} {p : Pc} {steps since : ℕ}
    (there : s.threads[i]? = some ⟨.rotating h p, steps, since⟩) : I events i h p := by
  refine run.thread_invariant
    (I := fun es i t => ∀ h p, t.call = Call.rotating h p → I es i h p) ?_ ?_ ?_ there h p rfl
  · intro e es i t earlier other h p same
    exact older e es i h p (earlier h p same) other
  · intro es s input run h p same
    cases input with
    | issue token => cases same
    | refresh presented =>
        cases presented with
        | sealedHandle opened => cases same
        | rotating handle =>
            cases same
            exact start es s h run
        | other => cases same
  · intro es s i delivery choice t call run permitted before earlier resumed h p same
    obtain ⟨call₀, steps, since⟩ := t
    cases call₀ with
    | founding p₀ =>
        obtain ⟨q, rfl, _⟩ := founding_next resumed
        cases same
    | rotating h₀ p₀ =>
        obtain ⟨q, rfl, edge⟩ := rotating_next resumed
        cases same
        exact step es s i delivery choice steps since h p₀ p run permitted before
          (earlier h p₀ rfl) edge

theorem founding_invariant {I : List R.machine.Event → ℕ → CreatePc → Prop}
    (older : ∀ e es i p, I es i p → (∀ t, ¬ e.By i t) → I (e :: es) i p)
    (start : ∀ es (s : R.machine.State) input p, R.machine.Runs ok es s →
      Call.start ⟨s.threads.length, 0⟩ input = .founding p →
      I (⟨s, .begin input⟩ :: es) s.threads.length p)
    (step : ∀ es (s : R.machine.State) i delivery choice steps since p q,
      R.machine.Runs ok es s → ok es s (.step i delivery choice) →
      s.threads[i]? = some ⟨.founding p, steps, since⟩ → I es i p →
      CreateEdge R s.store s.now delivery choice ⟨i, steps⟩ p q →
      I (⟨s, .step i delivery choice⟩ :: es) i q)
    (run : R.machine.Runs ok events s) {i : ℕ} {p : CreatePc} {steps since : ℕ}
    (there : s.threads[i]? = some ⟨.founding p, steps, since⟩) : I events i p := by
  refine run.thread_invariant
    (I := fun es i t => ∀ p, t.call = Call.founding p → I es i p) ?_ ?_ ?_ there p rfl
  · intro e es i t earlier other p same
    exact older e es i p (earlier p same) other
  · intro es s input run p same
    exact start es s input p run same
  · intro es s i delivery choice t call run permitted before earlier resumed p same
    obtain ⟨call₀, steps, since⟩ := t
    cases call₀ with
    | rotating h₀ p₀ =>
        obtain ⟨q, rfl, _⟩ := rotating_next resumed
        cases same
    | founding p₀ =>
        obtain ⟨q, rfl, edge⟩ := founding_next resumed
        cases same
        exact step es s i delivery choice steps since p₀ p run permitted before
          (earlier p₀ rfl) edge

end Invariant

/-! ## Frames -/

/-- The upstream token a record holds. -/
def State.token? : State → Option String
  | .active token => some token
  | .claimed token _ _ => some token
  | .rotated .. => none

/-- The record of the handle was read from bytes sealed for it. -/
def Loaded.Formed (h : Name) (loaded : Loaded) : Prop :=
  ∃ nonce, loaded.bytes = .sealed .record (.handle h) (.record loaded.record) nonce

/-- The claim's bytes are its claimed record, and its call drew the claim id. -/
def Claim.Formed (i : ℕ) (h : Name) (claim : Claim) : Prop :=
  claim.claimId.call = i ∧ ∃ claimedMs nonce,
    claim.bytes = .sealed .record (.handle h)
      (.record ⟨claim.familyId, claim.familyExpiresMs,
        .claimed claim.upstreamToken claim.claimId claimedMs⟩) nonce

def Attempt.Formed (i : ℕ) (h : Name) (attempt : Attempt) : Prop :=
  attempt.claim.Formed i h ∧ attempt.successorHandle.call = i

/-- Keys of records that only one call writes. -/
def Key.OwnedBy (i : ℕ) : Key → Prop
  | .handle name => name.call = i
  | .grace _ claimId => claimId.call = i
  | _ => False

def AfterDiscard.Formed (i : ℕ) (h : Name) : AfterDiscard → Prop
  | .failed claim _ => claim.Formed i h
  | .lost claim => claim.Formed i h
  | .revoked => True

/-- The frames of a call `i` that refreshes `h`. -/
def Pc.Formed (i : ℕ) (h : Name) : Pc → Prop
  | .readClock loaded => loaded.Formed h
  | .isRevoked loaded _ => loaded.Formed h
  | .claim loaded token => loaded.Formed h ∧ loaded.record.state.token? = some token
  | .sealClaim loaded token claimId _ _ =>
      loaded.Formed h ∧ loaded.record.state.token? = some token ∧ claimId.call = i
  | .swapClaim loaded held _ =>
      loaded.Formed h ∧ loaded.record.state.token? = some held.upstreamToken ∧
        loaded.record.familyId = held.familyId ∧
        loaded.record.familyExpiresMs = held.familyExpiresMs ∧ held.Formed i h
  | .askUpstream held => held.Formed i h
  | .commit held successorHandle _ _ => held.Formed i h ∧ successorHandle.call = i
  | .sealResponse attempt => attempt.Formed i h
  | .putResponse attempt sealed => attempt.Formed i h ∧ ∃ nonce,
      sealed = .sealed .grace (.grace h attempt.claim.claimId) (.response attempt.response) nonce
  | .sealSuccessor attempt => attempt.Formed i h
  | .putSuccessor attempt successor => attempt.Formed i h ∧ ∃ nonce,
      successor = .sealed .record attempt.successorKey (.record attempt.successor) nonce
  | .sealRotated attempt => attempt.Formed i h
  | .swapRotated attempt rotated => attempt.Formed i h ∧ ∃ nonce,
      rotated = .sealed .record (.handle h) (.record attempt.rotated) nonce
  | .swapHead attempt => attempt.Formed i h
  | .isRevokedInFlight attempt => attempt.Formed i h
  | .isRevokedLost held => held.Formed i h
  | .discard key rest after =>
      key.OwnedBy i ∧ (∀ key' ∈ rest, key'.OwnedBy i) ∧ after.Formed i h
  | .sealRelease held _ => held.Formed i h
  | .releaseClock held released _ => held.Formed i h ∧ ∀ bytes, released = .ok bytes →
      ∃ nonce, bytes = .sealed .record (.handle h) (.record held.released) nonce
  | .swapRelease held bytes _ _ => held.Formed i h ∧
      ∃ nonce, bytes = .sealed .record (.handle h) (.record held.released) nonce
  | _ => True

theorem attempt?_of_preparing? {p : Pc} {attempt : Attempt}
    (preparing : p.preparing? = some attempt) : p.attempt? = some attempt := by
  cases p <;> first | exact preparing | cases preparing

theorem Pc.Formed.attempt {i : ℕ} {h : Name} {p : Pc} {attempt : Attempt} (formed : p.Formed i h)
    (attempting : p.attempt? = some attempt) : attempt.Formed i h := by
  cases p <;> simp only [Pc.attempt?, Option.some.injEq, reduceCtorEq] at attempting
  all_goals
    subst attempting
    first | exact formed | exact formed.1

theorem Attempt.Formed.discards {i : ℕ} {h : Name} {attempt : Attempt} {after : AfterDiscard}
    (formed : attempt.Formed i h) (rest : after.Formed i h) :
    (Pc.discard (.grace h attempt.claim.claimId) [attempt.successorKey] after).Formed i h :=
  ⟨formed.1.1, by simpa [Attempt.successorKey, Key.OwnedBy] using formed.2, rest⟩

/-- The frames stay well formed. -/
theorem Pc.Formed.edge {i steps now : ℕ} {h : Name} {σ : Store Key Value} {delivery : Delivery}
    {choice : Choice} {p q : Pc} (formed : p.Formed i h)
    (edge : Edge R h σ now delivery choice ⟨i, steps⟩ p q) : q.Formed i h := by
  cases edge with
  | opened => exact ⟨_, rfl⟩
  | unexpired => exact formed
  | free _ state => exact ⟨formed, by simp [state, State.token?]⟩
  | abandoned _ state => exact ⟨formed, by simp [state, State.token?]⟩
  | claim => exact ⟨formed.1, formed.2, rfl⟩
  | sealClaim => exact ⟨formed.1, formed.2.1, rfl, rfl, formed.2.2, _, _, rfl⟩
  | claimed => exact formed.2.2.2.2
  | unsuccessful => exact formed
  | succeeded => exact ⟨formed, rfl⟩
  | expired => exact formed.1
  | commit => exact ⟨formed.1, formed.2⟩
  | sealResponse => exact ⟨formed, _, rfl⟩
  | putResponse => exact formed.1
  | sealSuccessor => exact ⟨formed, _, rfl⟩
  | putSuccessor => exact formed.1
  | sealRotated => exact ⟨formed, _, rfl⟩
  | unprepared preparing =>
      have attempt := formed.attempt (attempt?_of_preparing? preparing)
      exact attempt.discards attempt.1
  | rotated => exact formed.1
  | lost => exact formed.1.discards formed.1.1
  | advanced => exact formed
  | inFlight => exact formed.discards trivial
  | discard =>
      obtain ⟨_, rest, after⟩ := formed
      exact ⟨rest _ (List.mem_cons_self ..), fun k member => rest k (List.mem_cons_of_mem _ member),
        after⟩
  | failed => exact formed.2.2
  | discardedLost => exact formed.2.2
  | sealRelease sealed => exact ⟨formed, fun bytes done => ⟨_, sealed bytes done⟩⟩
  | release => exact ⟨formed.1, formed.2 _ rfl⟩
  | _ => trivial

def Family.Formed (i : ℕ) (family : Family) : Prop :=
  family.creation.handle.call = i ∧ family.familyId.call = i

/-- The frames of a call `i` that creates a family. -/
def CreatePc.Formed (i : ℕ) : CreatePc → Prop
  | .create creation => creation.handle.call = i
  | .sealRecord family => family.Formed i
  | .putRecord family bytes => family.Formed i ∧ ∃ nonce,
      bytes = .sealed .record (.handle family.creation.handle) (.record family.record) nonce
  | .putHead family => family.Formed i
  | .issued handle => handle.call = i
  | _ => True

theorem CreatePc.Formed.edge {i steps now : ℕ} {σ : Store Key Value} {delivery : Delivery}
    {choice : Choice} {p q : CreatePc} (formed : p.Formed i)
    (edge : CreateEdge R σ now delivery choice ⟨i, steps⟩ p q) : q.Formed i := by
  cases edge with
  | migrate => rfl
  | create => exact ⟨formed, rfl⟩
  | sealRecord => exact ⟨formed, _, rfl⟩
  | putRecord => exact formed.1
  | issued => exact formed.1
  | _ => trivial

section Runs

variable {ok : List R.machine.Event → R.machine.State → R.machine.Lbl → Prop}
  {events : List R.machine.Event} {s : R.machine.State}

/-- **The frames of a refresh are well formed.** -/
theorem formed (run : R.machine.Runs ok events s) {i steps since : ℕ} {h : Name} {p : Pc}
    (there : s.threads[i]? = some ⟨.rotating h p, steps, since⟩) : p.Formed i h :=
  refresh_invariant (I := fun _ i h p => p.Formed i h) (fun _ _ _ _ _ earlier _ => earlier)
    (fun _ _ _ _ => trivial) (fun _ _ _ _ _ _ _ _ _ _ _ _ _ earlier edge => earlier.edge edge)
    run there

theorem founding_formed (run : R.machine.Runs ok events s) {i steps since : ℕ} {p : CreatePc}
    (there : s.threads[i]? = some ⟨.founding p, steps, since⟩) : p.Formed i := by
  refine founding_invariant (I := fun _ i p => p.Formed i) (fun _ _ _ _ earlier _ => earlier)
    ?_ (fun _ _ _ _ _ _ _ _ _ _ _ _ earlier edge => earlier.edge edge) run there
  intro es s input p run same
  cases input with
  | issue token =>
      cases same
      rfl
  | refresh presented =>
      cases presented with
      | sealedHandle opened =>
          cases same
          trivial
      | rotating handle => cases same
      | other =>
          cases same
          trivial

end Runs

/-! ## Sealed values are written once -/

/-- The nonce of a sealed value. -/
def Value.nonce? : Value → Option Name
  | .sealed _ _ _ nonce => some nonce
  | _ => none

/-- The sealed value a call is about to write. -/
def Call.pending? : Call → Option Value
  | .rotating _ (.swapClaim _ held _) => some held.bytes
  | .rotating _ (.putResponse _ sealed) => some sealed
  | .rotating _ (.putSuccessor _ successor) => some successor
  | .rotating _ (.swapRotated _ rotated) => some rotated
  | .rotating _ (.releaseClock _ (.ok bytes) _) => some bytes
  | .rotating _ (.swapRelease _ bytes _ _) => some bytes
  | .founding (.putRecord _ bytes) => some bytes
  | _ => none

theorem pending_of_alters {h : Name} {σ : Store Key Value} {now : ℕ} {p : Pc} {key : Key}
    {value : Value} {expires : ℕ} {nonce : Name}
    (alters : Alters R h σ now p (key, some ⟨value, expires⟩))
    (tagged : value.nonce? = some nonce) :
    (Call.rotating h p).pending? = some value := by
  cases alters with
  | head => cases tagged
  | marker => cases tagged
  | _ => rfl

theorem pending_of_edge {h : Name} {σ : Store Key Value} {now : ℕ} {delivery : Delivery}
    {choice : Choice} {name nonce : Name} {p q : Pc} {value : Value}
    (edge : Edge R h σ now delivery choice name p q)
    (pending : (Call.rotating h q).pending? = some value) (tagged : value.nonce? = some nonce) :
    ((Call.rotating h p).pending? = some value ∧
      (p.await R h).change σ now delivery = none) ∨ nonce = name := by
  cases edge with
  | sealClaim =>
      cases pending
      exact .inr (Option.some.inj tagged).symm
  | sealResponse =>
      cases pending
      exact .inr (Option.some.inj tagged).symm
  | sealSuccessor =>
      cases pending
      exact .inr (Option.some.inj tagged).symm
  | sealRotated =>
      cases pending
      exact .inr (Option.some.inj tagged).symm
  | @sealRelease held outcome released sealed =>
      cases released with
      | error fault => cases pending
      | ok bytes =>
          cases pending
          rw [sealed value rfl] at tagged
          exact .inr (Option.some.inj tagged).symm
  | release => exact .inl ⟨pending, rfl⟩
  | _ => cases pending

/-- **Every sealed value is written by at most one step.** -/
theorem sealed_fresh : Fresh R.machine Value.nonce? Call.pending? where
  start name input value pending := by
    cases input with
    | issue token => cases pending
    | refresh presented => cases presented <;> cases pending
  writes {call σ now delivery key value expires nonce} made tagged := by
    cases call with
    | rotating h p =>
        have alters : Alters R h σ now p (key, some ⟨value, expires⟩) :=
          alters_of_change (by simpa [Call.await] using made)
        exact pending_of_alters alters tagged
    | founding p =>
        have alters : CreateAlters σ now p (key, some ⟨value, expires⟩) :=
          createAlters_of_change (by simpa [Call.await] using made)
        cases alters with
        | record => rfl
        | head => cases tagged
  next {call call' σ now delivery choice name value nonce} resumed pending tagged := by
    cases call with
    | rotating h p =>
        obtain ⟨q, rfl, edge⟩ := rotating_next resumed
        simpa [Call.await] using pending_of_edge edge pending tagged
    | founding p =>
        obtain ⟨q, rfl, edge⟩ := founding_next resumed
        cases edge with
        | sealRecord =>
            cases pending
            exact .inr (Option.some.inj tagged).symm
        | _ => cases pending

/-! ## The order of a call -/

/-- How far a refresh has come. Looking for the claim is 0, and everything after the
rotation, or after giving it up, is 11. -/
def Pc.rank : Pc → ℕ
  | load | openRecord _ | readClock _ | isRevoked .. | loadGrace _ | openGrace .. | readElapsed
  | sleep | claim .. | sealClaim .. | swapClaim .. => 0
  | askUpstream _ => 1
  | commit .. => 2
  | sealResponse _ => 3
  | putResponse .. => 4
  | sealSuccessor _ => 5
  | putSuccessor .. => 6
  | sealRotated _ => 7
  | swapRotated .. => 8
  | swapHead _ => 9
  | isRevokedInFlight _ => 10
  | _ => 11

/-- How far the creation of a family has come. It writes the first record where a rotation
writes the successor. -/
def CreatePc.rank : CreatePc → ℕ
  | openHandle _ => 1
  | checkLifetime _ => 2
  | askUpstream _ => 3
  | create _ => 4
  | sealRecord _ => 5
  | putRecord .. => 6
  | putHead _ => 7
  | _ => 11

def Call.rank : Call → ℕ
  | .rotating _ p => p.rank
  | .founding p => p.rank

theorem Edge.rank {h : Name} {σ : Store Key Value} {now : ℕ} {delivery : Delivery}
    {choice : Choice} {name : Name} {p q : Pc} (edge : Edge R h σ now delivery choice name p q) :
    p.rank < q.rank ∨ (p.rank = q.rank ∧ (q.rank = 0 ∨ q.rank = 11)) := by
  cases edge with
  | refuse => cases p <;> simp [Pc.rank]
  | wait seeking => cases p <;> simp_all [Pc.rank, Pc.Seeking]
  | unprepared preparing => cases p <;> simp_all [Pc.rank, Pc.preparing?]
  | erase erasing => cases p <;> simp_all [Pc.rank, Pc.erasing?]
  | revoked revoking => cases p <;> simp_all [Pc.rank, Pc.revocation?]
  | _ => simp [Pc.rank]

theorem CreateEdge.rank {σ : Store Key Value} {now : ℕ} {delivery : Delivery}
    {choice : Choice} {name : Name} {p q : CreatePc}
    (edge : CreateEdge R σ now delivery choice name p q) :
    p.rank < q.rank ∨ (p.rank = q.rank ∧ (q.rank = 0 ∨ q.rank = 11)) := by
  cases edge with
  | refuse => cases p <;> simp [CreatePc.rank]
  | issueFailed => cases p <;> simp [CreatePc.rank]
  | _ => simp [CreatePc.rank]

theorem rank_of_resumes {call call' : Call} (resumes : Resumes (M := R.machine) call call') :
    call.rank < call'.rank ∨ (call.rank = call'.rank ∧ (call'.rank = 0 ∨ call'.rank = 11)) := by
  obtain ⟨σ, now, delivery, choice, name, resumed⟩ := resumes
  cases call with
  | rotating h p =>
      obtain ⟨q, rfl, edge⟩ := rotating_next resumed
      exact edge.rank
  | founding p =>
      obtain ⟨q, rfl, edge⟩ := founding_next resumed
      exact edge.rank

/-- **A call never goes back, and stays only while it seeks or when it has ended.** -/
theorem rank_of_follows {call call' : Call}
    (follows : Relation.TransGen (Resumes (M := R.machine)) call call') :
    call.rank < call'.rank ∨ (call.rank = call'.rank ∧ (call'.rank = 0 ∨ call'.rank = 11)) := by
  induction follows with
  | single resumes => exact rank_of_resumes resumes
  | tail _ resumes ih =>
      have last := rank_of_resumes resumes
      omega

/-- Two steps of one call are equal, or their states have different ranks, seek, or have
ended. -/
theorem eq_of_rank {ok : List R.machine.Event → R.machine.State → R.machine.Lbl → Prop}
    {events : List R.machine.Event} {s : R.machine.State} (run : R.machine.Runs ok events s)
    {i : ℕ} {e e' : R.machine.Event} {t t' : Thread Call} (member : e ∈ events)
    (member' : e' ∈ events) (by₁ : e.By i t) (by₂ : e'.By i t')
    (same : t.call.rank = t'.call.rank) (positive : 0 < t.call.rank) (below : t.call.rank < 11) :
    e = e' := by
  rcases run.ordered member member' by₁ by₂ with equal | follows | follows
  · exact equal
  · have := rank_of_follows follows
    omega
  · have := rank_of_follows follows
    omega

/-! ## One claim and one rotation -/

theorem Edge.keeps_claim {h : Name} {σ : Store Key Value} {now : ℕ} {delivery : Delivery}
    {choice : Choice} {name : Name} {p q : Pc} {held : Claim}
    (edge : Edge R h σ now delivery choice name p q)
    (before : p.claim? = some held ∨ (p.claim? = none ∧ p.rank = 11)) :
    q.claim? = some held ∨ (q.claim? = none ∧ q.rank = 11) := by
  cases edge with
  | refuse => exact .inr ⟨rfl, rfl⟩
  | wait seeking => cases p <;> simp_all [Pc.claim?, Pc.rank, Pc.Seeking]
  | unprepared preparing => cases p <;> simp_all [Pc.claim?, Pc.rank, Pc.preparing?]
  | erase erasing => cases p <;> simp_all [Pc.claim?, Pc.rank, Pc.erasing?]
  | revoked revoking => cases p <;> simp_all [Pc.claim?, Pc.rank, Pc.revocation?]
  | @discard _ _ _ after => cases after <;> simp_all [Pc.claim?, Pc.rank]
  | _ => simp_all [Pc.claim?, Pc.rank]

theorem Edge.keeps_attempt {h : Name} {σ : Store Key Value} {now : ℕ} {delivery : Delivery}
    {choice : Choice} {name : Name} {p q : Pc} {attempt : Attempt}
    (edge : Edge R h σ now delivery choice name p q)
    (before : p.attempt? = some attempt ∨ p.rank = 11) :
    q.attempt? = some attempt ∨ q.rank = 11 := by
  cases edge with
  | refuse => exact .inr rfl
  | wait seeking => cases p <;> simp_all [Pc.attempt?, Pc.rank, Pc.Seeking]
  | unprepared preparing => exact .inr rfl
  | erase erasing => exact .inr rfl
  | revoked revoking => exact .inr rfl
  | _ => simp_all [Pc.attempt?, Pc.rank]

theorem attempt?_of_ended {p : Pc} (ended : p.rank = 11) : p.attempt? = none := by
  cases p <;> simp_all [Pc.rank, Pc.attempt?]

/-- What every edge keeps, a refresh keeps all the way. -/
theorem rotating_of_follows {P : Pc → Prop} {h : Name} {p : Pc} {call : Call}
    (keeps : ∀ {σ now delivery choice name p q},
      Edge R h σ now delivery choice name p q → P p → P q)
    (follows : Relation.TransGen (Resumes (M := R.machine)) (.rotating h p) call) (init : P p) :
    ∃ q, call = .rotating h q ∧ P q := by
  refine keeps_of_follows (M := R.machine) (P := fun call => ∃ q, call = Call.rotating h q ∧ P q)
    ?_ follows ⟨p, rfl, init⟩
  rintro _ call ⟨q, rfl, holds⟩ ⟨σ, now, delivery, choice, name, resumed⟩
  obtain ⟨q', rfl, edge⟩ := rotating_next resumed
  exact ⟨q', rfl, keeps edge holds⟩

/-- A call that creates a family refreshes nothing. -/
theorem not_at_of_founding {ok : List R.machine.Event → R.machine.State → R.machine.Lbl → Prop}
    {events : List R.machine.Event} {s : R.machine.State} (run : R.machine.Runs ok events s)
    {e e' : R.machine.Event} (member : e ∈ events) (member' : e' ∈ events) {i : ℕ} {p : CreatePc}
    (founding : Founding e i p) {h : Name} {q : Pc} : ¬ At e' i h q := by
  rintro ⟨t', by₂, call'⟩
  obtain ⟨t, by₁, call⟩ := founding
  rcases run.ordered member member' by₁ by₂ with rfl | follows | follows
  · rw [by₁.unique by₂, call'] at call
    cases call
  · rw [call, call'] at follows
    obtain ⟨q', other⟩ := keeps_of_follows (M := R.machine)
      (P := fun call => ∃ p, call = Call.founding p) (by
        rintro _ call ⟨p, rfl⟩ ⟨σ, now, delivery, choice, name, resumed⟩
        obtain ⟨p', rfl, _⟩ := founding_next resumed
        exact ⟨p', rfl⟩) follows ⟨p, rfl⟩
    cases other
  · rw [call, call'] at follows
    obtain ⟨q', other, _⟩ := rotating_of_follows (P := fun _ => True) (fun _ _ => trivial) follows
      trivial
    cases other

section Unique

variable {ok : List R.machine.Event → R.machine.State → R.machine.Lbl → Prop}
  {events : List R.machine.Event} {s : R.machine.State} (run : R.machine.Runs ok events s)
  {i : ℕ} {e e' : R.machine.Event} {h h' : Name} {p p' : Pc} (member : e ∈ events)
  (member' : e' ∈ events) (at₁ : At e i h p) (at₂ : At e' i h' p')

include run member member' at₁ at₂

/-- Of two steps of a refresh, one follows the other. -/
theorem At.ordered : (e = e' ∧ h = h' ∧ p = p') ∨
    Relation.TransGen (Resumes (M := R.machine)) (.rotating h p) (.rotating h' p') ∨
    Relation.TransGen (Resumes (M := R.machine)) (.rotating h' p') (.rotating h p) := by
  obtain ⟨t, by₁, same⟩ := at₁
  obtain ⟨t', by₂, same'⟩ := at₂
  rcases run.ordered member member' by₁ by₂ with rfl | follows | follows
  · obtain rfl := by₁.unique by₂
    rw [same] at same'
    cases same'
    exact .inl ⟨rfl, rfl, rfl⟩
  · rw [same, same'] at follows
    exact .inr (.inl follows)
  · rw [same, same'] at follows
    exact .inr (.inr follows)

/-- **A call holds at most one claim.** -/
theorem claim_unique {held held' : Claim} (holds : p.claim? = some held)
    (holds' : p'.claim? = some held') : held = held' := by
  rcases At.ordered run member member' at₁ at₂ with ⟨_, _, rfl⟩ | follows | follows
  · exact Option.some.inj (holds.symm.trans holds')
  · obtain ⟨q, same, kept⟩ := rotating_of_follows (fun edge => edge.keeps_claim) follows (.inl holds)
    cases same
    simpa [holds', eq_comm] using kept
  · obtain ⟨q, same, kept⟩ := rotating_of_follows (fun edge => edge.keeps_claim) follows (.inl holds')
    cases same
    simpa [holds] using kept

/-- **A call prepares at most one rotation.** -/
theorem attempt_unique {attempt attempt' : Attempt} (holds : p.attempt? = some attempt)
    (holds' : p'.attempt? = some attempt') : attempt = attempt' := by
  rcases At.ordered run member member' at₁ at₂ with ⟨_, _, rfl⟩ | follows | follows
  · exact Option.some.inj (holds.symm.trans holds')
  · obtain ⟨q, same, kept⟩ := rotating_of_follows (fun edge => edge.keeps_attempt) follows
      (.inl holds)
    cases same
    rcases kept with kept | ended
    · exact Option.some.inj (kept.symm.trans holds')
    · rw [attempt?_of_ended ended] at holds'
      cases holds'
  · obtain ⟨q, same, kept⟩ := rotating_of_follows (fun edge => edge.keeps_attempt) follows
      (.inl holds')
    cases same
    rcases kept with kept | ended
    · exact Option.some.inj (holds.symm.trans kept)
    · rw [attempt?_of_ended ended] at holds
      cases holds

end Unique

end OAuthRelay.Rotation
