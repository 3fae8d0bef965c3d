import OAuthRelay.Rotation.Head

/-!
# How far the head can drift

A head that a failed swap has left behind stays where it is, however many rotations follow: each
of their swaps expects the head to name the handle it has just rotated. So with one failed swap
the head gets any number of records behind (`head_drifts`), and whether it is near is decided by
the swaps that were lost or not tried (`head_near_exact`).
-/

set_option autoImplicit false

namespace OAuthRelay.Rotation

open OAuthRelay.Async OAuthRelay.Async.Machine

section Drive

variable {R : Rotator} {i now n n' : ℕ} {choice : Choice} {σ σ₁ σ' : Store Key Value}
  {through : R.machine.Call → Prop} {call : Call} {h : Name} {p : Pc}

/-- A refresh is driven through one of its states. -/
theorem drives_step (q : Pc) (passes : through (.rotating h p))
    (resumes : (p.await R h).next σ now .answered (answer choice ⟨i, n⟩) = some q)
    (changes : σ.applyChange ((p.await R h).change σ now .answered) = σ₁)
    (rest : Drives (M := R.machine) i now choice through σ₁ (.rotating h q) (n + 1) σ' call n') :
    Drives (M := R.machine) i now choice through σ (.rotating h p) n σ' call n' := by
  apply Drives.step (M := R.machine) passes
  · show (Call.await R (.rotating h p)).next _ _ _ (answer choice ⟨i, n⟩) = some (.rotating h q)
    rw [Call.await, Await.next_map, resumes]
    rfl
  · show Drives (M := R.machine) i now choice through
      (σ.applyChange ((Call.await R (.rotating h p)).change σ now .answered)) _ _ _ _ _
    rw [Call.await, Await.change_map, changes]
    exact rest

end Drive

/-! ## One more rotation -/

/-- A relay whose family drifts. -/
abbrev driftRotator : Rotator := sampleRotator 30000 1000000 .default

/-- The first family of a run, created at 0. -/
def firstFamily : Name × ℕ := (⟨0, 1⟩, 1000000)

/-- A record of this family. -/
def familyRecord (state : State) : Record := ⟨firstFamily.1, firstFamily.2, state⟩

/-- The claim of the call `i` on the record with these bytes. -/
def driftClaim (i : ℕ) (k : Name) : Claim where
  bytes := .sealed .record (.handle k) (.record (familyRecord (.claimed "token" ⟨i, 5⟩ 0))) ⟨i, 6⟩
  claimId := ⟨i, 5⟩
  upstreamToken := "token"
  familyId := firstFamily.1
  familyExpiresMs := firstFamily.2

def driftAttempt (i : ℕ) (k : Name) (response : StoredResponse) : Attempt where
  claim := driftClaim i k
  successorHandle := ⟨i, 8⟩
  successorToken := "token"
  response := response
  now := 0
  familyTtl := firstFamily.2

/-- The sample upstream's answer can carry any handle. -/
theorem exists_body (handle : Name) :
    ∃ body, sampleJson.withRefreshToken 200 emptyObject (sampleText handle) = some body := by
  have known : sampleJson.members emptyObject = some [] := by simp [sampleJson]
  simp only [SerdeJson.withRefreshToken, known]
  exact ⟨_, rfl⟩

/-- The call `i` is driven on, all of whose questions are answered well at 0. -/
abbrev DrivesOn (i : ℕ) (σ : Store Key Value) (call : Call) (n : ℕ) (σ' : Store Key Value)
    (call' : Call) (n' : ℕ) : Prop :=
  Drives (M := driftRotator.machine) i 0 (.good 0) (fun call => ∀ h, call ≠ .rotating h .load)
    σ call n σ' call' n'

/-- A step that leaves the store as it is. -/
theorem drives_quietly {i n n' : ℕ} {σ σ' : Store Key Value} {call : Call} {h : Name} {p : Pc}
    (q : Pc) (sought : p ≠ .load)
    (resumes : (p.await driftRotator h).next σ 0 .answered (answer (.good 0) ⟨i, n⟩) = some q)
    (changes : (p.await driftRotator h).change σ 0 .answered = none)
    (rest : DrivesOn i σ (.rotating h q) (n + 1) σ' call n') :
    DrivesOn i σ (.rotating h p) n σ' call n' := by
  refine drives_step q (fun h' same => ?_) resumes (by rw [changes]; rfl) rest
  cases same
  exact sought rfl

section Steps

variable {σ : Store Key Value} {i expires : ℕ} {k : Name}

/-- From an active record to the claim. -/
theorem drives_claim {bytes : Value} {nonce : Name}
    (same : bytes = .sealed .record (.handle k) (.record (familyRecord (.active "token"))) nonce)
    (there : σ (.handle k) = some ⟨bytes, expires⟩) (unexpired : 0 < expires)
    (unrevoked : σ (.revoked firstFamily.1) = none) :
    DrivesOn i σ (.rotating k (.openRecord bytes)) 2
      (σ.applyChange (some (.handle k, some ⟨(driftClaim i k).bytes, firstFamily.2⟩)))
      (.rotating k (.askUpstream (driftClaim i k))) 8 := by
  let loaded : Loaded := ⟨bytes, familyRecord (.active "token")⟩
  apply drives_quietly (.readClock loaded)
  · simp
  · simp [Pc.await, Await.next, answer, Choice.good, openValue, same, loaded]
  · rfl
  apply drives_quietly (.isRevoked loaded 0)
  · simp
  · simp [Pc.await, Await.next, answer, Choice.good, loaded, familyRecord, firstFamily]
  · rfl
  apply drives_quietly (.claim loaded "token")
  · simp
  · simp [Pc.await, Await.next, Store.live_eq_none_of_absent unrevoked, loaded, familyRecord,
      Pc.handleState]
  · rfl
  apply drives_quietly (.sealClaim loaded "token" ⟨i, 5⟩ 0 firstFamily.2)
  · simp
  · rfl
  · rfl
  apply drives_quietly (.swapClaim loaded (driftClaim i k) firstFamily.2)
  · simp
  · rfl
  · rfl
  have live : σ.live 0 (.handle k) = some bytes := Store.live_of_entry there unexpired
  refine drives_step (.askUpstream (driftClaim i k)) (by simp) ?_ ?_ (.here _ _ _)
  · simp [Pc.await, Await.next, Await.written, Store.swapChange, live, loaded, firstFamily]
  · simp [Pc.await, Await.change, Store.swapChange, live, loaded, firstFamily]

/-- The rotated record that the call `i` writes. -/
def driftRotated (i : ℕ) (k : Name) : Value :=
  .sealed .record (.handle k)
    (.record (familyRecord (.rotated 0 ⟨i, 5⟩ (.handle ⟨i, 8⟩)))) ⟨i, 14⟩

/-- The successor that the call `i` writes. -/
def driftSuccessor (i : ℕ) : Value :=
  .sealed .record (.handle ⟨i, 8⟩) (.record (familyRecord (.active "token"))) ⟨i, 12⟩

/-- The response that the call `i` records. -/
def driftRecorded (i : ℕ) (k : Name) (response : StoredResponse) : Value :=
  .sealed .grace (.grace k ⟨i, 5⟩) (.response response) ⟨i, 10⟩

/-- From the claim to the final swap. -/
theorem drives_commit (ungraced : σ (.grace k ⟨i, 5⟩) = none) (unborn : σ (.handle ⟨i, 8⟩) = none) :
    ∃ response expires', DrivesOn i σ (.rotating k (.askUpstream (driftClaim i k))) 8
      ((σ.applyChange
        (some (.grace k ⟨i, 5⟩, some ⟨driftRecorded i k response, expires'⟩))).applyChange
        (some (.handle ⟨i, 8⟩, some ⟨driftSuccessor i, firstFamily.2⟩)))
      (.rotating k (.swapRotated (driftAttempt i k response) (driftRotated i k))) 15 := by
  obtain ⟨body, named⟩ := exists_body ⟨i, 8⟩
  let response : StoredResponse := ⟨200, some "application/json", body⟩
  let attempt := driftAttempt i k response
  have kept : attempt.graceTtl driftRotator = 40000 := by
    simp [Attempt.graceTtl, attempt, driftAttempt, firstFamily, sampleRotator, graceResponseMargin]
  have renewed : driftRotator.json.withRefreshToken 200 emptyObject
      (driftRotator.handleText ⟨i, 8⟩) = some body := named
  have same : driftRotator.json.upstreamRefreshToken 200 emptyObject = none := by decide +kernel
  refine ⟨response, 40000, ?_⟩
  apply drives_quietly (.commit (driftClaim i k) ⟨i, 8⟩ "token" response)
  · simp
  · simp [Pc.await, Await.next, answer, Choice.good, Pc.handleReply, SerdeJson.isInvalidGrant,
      StoredResponse.isSuccess, successStatus, renewed, same, driftClaim, response]
  · rfl
  apply drives_quietly (.sealResponse attempt)
  · simp
  · rfl
  · rfl
  apply drives_quietly (.putResponse attempt (driftRecorded i k response))
  · simp
  · rfl
  · rfl
  let recorded := σ.applyChange (some (.grace k ⟨i, 5⟩, some ⟨driftRecorded i k response, 40000⟩))
  have vacant : σ.live 0 (.grace k attempt.claim.claimId) = none :=
    Store.live_eq_none_of_absent ungraced
  refine drives_step (.sealSuccessor attempt) (by simp) ?_ (?_ : _ = recorded) ?_
  · simp [Pc.await, Await.next, Await.written, Store.putChange, vacant, kept]
  · simp [Pc.await, Await.change, Store.putChange, vacant, kept]
    rfl
  apply drives_quietly (.putSuccessor attempt (driftSuccessor i))
  · simp
  · rfl
  · rfl
  have vacant' : recorded.live 0 attempt.successorKey = none :=
    Store.live_eq_none_of_absent
      ((Store.applyChange_other _ (by simp [Attempt.successorKey]) _).trans unborn)
  have lasting : attempt.familyTtl = firstFamily.2 := rfl
  refine drives_step (.sealRotated attempt) (by simp) ?_ (?_ : _ = recorded.applyChange
    (some (.handle ⟨i, 8⟩, some ⟨driftSuccessor i, firstFamily.2⟩))) ?_
  · simp [Pc.await, Await.next, Await.written, Store.putChange, vacant', lasting, firstFamily]
  · simp [Pc.await, Await.change, Store.putChange, vacant', lasting, firstFamily]
    rfl
  apply drives_quietly (.swapRotated attempt (driftRotated i k))
  · simp
  · rfl
  · rfl
  exact .here _ _ _

/-- From the final swap to the end. The head swap is lost. -/
theorem drives_finish (response : StoredResponse) {h₀ : Name} {expires' : ℕ}
    (there : σ (.handle k) = some ⟨(driftClaim i k).bytes, expires⟩) (unexpired : 0 < expires)
    (head : σ (.head firstFamily.1) = some ⟨.headKey (.handle h₀), expires'⟩) (behind : h₀ ≠ k)
    (unrevoked : σ (.revoked firstFamily.1) = none) :
    DrivesOn i σ (.rotating k (.swapRotated (driftAttempt i k response) (driftRotated i k))) 15
      (σ.applyChange (some (.handle k, some ⟨driftRotated i k, firstFamily.2⟩)))
      (.rotating k (.done (.response response))) 18 := by
  have live : σ.live 0 (.handle k) = some (driftClaim i k).bytes :=
    Store.live_of_entry there unexpired
  refine drives_step (.swapHead (driftAttempt i k response)) (by simp) ?_
    (?_ : _ = σ.applyChange (some (.handle k, some ⟨driftRotated i k, firstFamily.2⟩))) ?_
  · simp [Pc.await, Await.next, Await.written, Store.swapChange, live, driftAttempt, firstFamily]
  · simp [Pc.await, Await.change, Store.swapChange, live, driftAttempt, firstFamily]
  have elsewhere : Store.live
      (σ.applyChange (some (.handle k, some ⟨driftRotated i k, firstFamily.2⟩))) 0
      (.head firstFamily.1) ≠ some (.headKey (.handle k)) := by
    intro found
    obtain ⟨entry, stored, _, value⟩ := Store.live_eq_some_iff.mp found
    rw [Store.applyChange_other _ (by simp), head] at stored
    cases stored
    cases value
    exact behind rfl
  have unmarked : Store.live
      (σ.applyChange (some (.handle k, some ⟨driftRotated i k, firstFamily.2⟩))) 0
      (.revoked firstFamily.1) = none :=
    Store.live_eq_none_of_absent ((Store.applyChange_other _ (by simp) _).trans unrevoked)
  apply drives_quietly (.isRevokedInFlight (driftAttempt i k response))
  · simp
  · rfl
  · simp [Pc.await, Await.change, Store.swapChange, driftAttempt, driftClaim, elsewhere]
  apply drives_quietly (.done (.response response))
  · simp
  · simp [Pc.await, Await.next, driftAttempt, driftClaim, unmarked]
  · rfl
  exact .here _ _ _

/-- **A refresh of an active handle rotates it**, and leaves a head that names another handle. -/
theorem drives_rotation {bytes : Value} {nonce h₀ : Name} {expires' : ℕ}
    (same : bytes = .sealed .record (.handle k) (.record (familyRecord (.active "token"))) nonce)
    (there : σ (.handle k) = some ⟨bytes, expires⟩) (unexpired : 0 < expires)
    (unrevoked : σ (.revoked firstFamily.1) = none)
    (head : σ (.head firstFamily.1) = some ⟨.headKey (.handle h₀), expires'⟩) (behind : h₀ ≠ k)
    (clean : Clean σ i []) :
    ∃ σ' outcome, DrivesOn i σ (.rotating k (.openRecord bytes)) 2 σ'
        (.rotating k (.done outcome)) 18 ∧
      σ' (.handle k) = some ⟨driftRotated i k, firstFamily.2⟩ ∧
      σ' (.handle ⟨i, 8⟩) = some ⟨driftSuccessor i, firstFamily.2⟩ ∧
      σ' (.head firstFamily.1) = σ (.head firstFamily.1) ∧ σ' (.revoked firstFamily.1) = none := by
  have unborn : σ (.handle ⟨i, 8⟩) = none := clean _ rfl (by simp)
  have ungraced : σ (.grace k ⟨i, 5⟩) = none := clean _ rfl (by simp)
  have foreign : k ≠ ⟨i, 8⟩ := by
    rintro rfl
    rw [there] at unborn
    cases unborn
  let claimed := σ.applyChange (some (.handle k, some ⟨(driftClaim i k).bytes, firstFamily.2⟩))
  obtain ⟨response, limit, commits⟩ := drives_commit (k := k) (i := i) (σ := claimed)
    ((Store.applyChange_other _ (by simp) _).trans ungraced)
    ((Store.applyChange_other _ (by simpa using foreign.symm) _).trans unborn)
  generalize stored : ((claimed.applyChange (some (.grace k ⟨i, 5⟩,
    some ⟨driftRecorded i k response, limit⟩))).applyChange
      (some (.handle ⟨i, 8⟩, some ⟨driftSuccessor i, firstFamily.2⟩))) = σ₁ at commits
  have kept : ∀ key, key ≠ .handle k → key ≠ .grace k ⟨i, 5⟩ → key ≠ .handle ⟨i, 8⟩ →
      σ₁ key = σ key := by
    intro key record response successor
    rw [← stored, Store.applyChange_other _ successor, Store.applyChange_other _ response]
    exact Store.applyChange_other _ record _
  have held : σ₁ (.handle k) = some ⟨(driftClaim i k).bytes, firstFamily.2⟩ := by
    rw [← stored, Store.applyChange_other _ (by simpa using foreign),
      Store.applyChange_other _ (by simp)]
    exact Store.applyChange_same ..
  have born : σ₁ (.handle ⟨i, 8⟩) = some ⟨driftSuccessor i, firstFamily.2⟩ := by
    rw [← stored, Store.applyChange_same]
  have named := kept (.head firstFamily.1) (by simp) (by simp) (by simp)
  have unmarked := kept (.revoked firstFamily.1) (by simp) (by simp) (by simp)
  have finishes := drives_finish response held (by decide) (named.trans head) behind
    (unmarked.trans unrevoked)
  refine ⟨_, _, (drives_claim same there unexpired unrevoked).trans (commits.trans finishes),
    Store.applyChange_same .., ?_, ?_, ?_⟩
  · rw [Store.applyChange_other _ (by simpa using foreign.symm), born]
  · rw [Store.applyChange_other _ (by simp), named]
  · rw [Store.applyChange_other _ (by simp), unmarked, unrevoked]

end Steps

/-! ## A head that stays behind -/

/-- The head of the first family names its first handle, and its chain has gone `n` handles on.
One head swap has failed, and no call is under way. -/
structure Adrift (n : ℕ) (events : List driftRotator.machine.Event)
    (s : driftRotator.machine.State) : Prop where
  run : driftRotator.machine.Runs (Unforged driftRotator) events s
  now : s.now = 0
  set : HeadSet events firstFamily
  head : ∃ expires, s.store (.head firstFamily.1) = some ⟨.headKey (.handle ⟨0, 0⟩), expires⟩
  unrevoked : s.store (.revoked firstFamily.1) = none
  last : ∃ l k nonce expires, Path (Links events firstFamily) ⟨0, 0⟩ l k ∧ l.length = n ∧
    HandedOut events k firstFamily ∧ (⟨0, 0⟩ : Name) ≠ k ∧ 0 < expires ∧
    s.store (.handle k) = some ⟨.sealed .record (.handle k)
      (.record (familyRecord (.active "token"))) nonce, expires⟩
  failed : stalls events .failed firstFamily = 1
  moving : moving s firstFamily = 0

/-- A step at 0 that goes well is permitted, unless it looks for a record. -/
theorem unforged_of_good {events : List driftRotator.machine.Event} {s : driftRotator.machine.State}
    {i : ℕ} {t : Thread Call} (now : s.now = 0) (there : s.threads[i]? = some t)
    (sought : ∀ h, t.call = .rotating h .load → HandedOut events h firstFamily) :
    Unforged driftRotator events s (.step i .answered (.good 0)) where
  clock j delivery choice same := by
    cases same
    exact now.symm
  unguessed j h step live := by
    obtain ⟨t', stepped, call⟩ := step
    have mine : Event.By (⟨s, .step i .answered (.good 0)⟩ : driftRotator.machine.Event) i t :=
      ⟨there, _, _, rfl⟩
    obtain rfl := stepped.index_eq mine
    rw [stepped.unique mine] at call
    exact ⟨firstFamily, sought h call⟩

/-- A successor that the store names was linked. -/
theorem links_of_rotated {i : ℕ} {k : Name} {expires : ℕ}
    {events : List driftRotator.machine.Event} {s : driftRotator.machine.State}
    (run : driftRotator.machine.Runs (Unforged driftRotator) events s)
    (rotated : s.store (.handle k) = some ⟨driftRotated i k, expires⟩) :
    Links events firstFamily k ⟨i, 8⟩ := by
  obtain ⟨e, member, j, attempt, rotates, made⟩ := rotates_of_store run rotated ⟨_, rfl⟩ rfl
  refine ⟨e, member, j, attempt, rotates, (congrArg Record.family made).symm, ?_⟩
  have successors := congrArg Record.state made
  simp only [familyRecord, Attempt.rotated, State.rotated.injEq, Attempt.successorKey,
    Key.handle.injEq] at successors
  exact successors.2.2.symm

/-- **A head that is behind gets further behind with the next rotation.** -/
theorem Adrift.rotate {n : ℕ} {events : List driftRotator.machine.Event}
    {s : driftRotator.machine.State} (adrift : Adrift n events s) :
    ∃ events' s', Adrift (n + 1) events' s' := by
  obtain ⟨l, k, nonce, expires, path, length, handed, behind, unexpired, there⟩ := adrift.last
  obtain ⟨bytes, same, there⟩ : ∃ bytes, bytes = Value.sealed .record (.handle k)
      (.record (familyRecord (.active "token"))) nonce ∧
        s.store (.handle k) = some ⟨bytes, expires⟩ := ⟨_, rfl, there⟩
  obtain ⟨limit, head⟩ := adrift.head
  have clean := clean_of_length adrift.run (Nat.le_refl s.threads.length)
  obtain ⟨σ', outcome, drives, rotated, successor, named, unmarked⟩ :=
    drives_rotation same there unexpired adrift.unrevoked head behind clean
  obtain ⟨σ, now, threads⟩ := s
  obtain rfl : now = 0 := adrift.now
  -- the refresh begins and loads the record
  have begun : driftRotator.machine.Runs (Unforged driftRotator)
      (⟨⟨σ, 0, threads⟩, .begin (.refresh (.rotating k))⟩ :: events)
      ⟨σ, 0, threads ++ [⟨.rotating k .load, 1, 0⟩]⟩ := by
    refine .cons adrift.run ⟨?_, ?_⟩ rfl
    · intro i delivery choice same
      cases same
    · rintro i h ⟨t, ⟨_, delivery, choice, same⟩, _⟩
      cases same
  have last : (threads ++ [(⟨.rotating k .load, 1, 0⟩ : Thread Call)])[threads.length]? =
      some ⟨.rotating k .load, 1, 0⟩ := by simp
  have live : σ.live 0 (.handle k) = some bytes := Store.live_of_entry there unexpired
  have taken : driftRotator.machine.step ⟨σ, 0, threads ++ [⟨.rotating k .load, 1, 0⟩]⟩
      (.step threads.length .answered (.good 0)) =
        some ⟨σ, 0, threads ++ [⟨.rotating k (.openRecord bytes), 2, 0⟩]⟩ := by
    simp [Machine.step, Call.await, Pc.await, Await.map, Await.next, Await.change, live]
  have loaded := begun.cons (unforged_of_good rfl last fun h same => by
    cases same
    exact handed.mono (List.subset_cons_self ..)) taken
  have opened : (threads ++ [(⟨.rotating k (.openRecord bytes), 2, 0⟩ : Thread Call)])[
      threads.length]? = some ⟨.rotating k (.openRecord bytes), 2, 0⟩ := by simp
  -- and goes on to its end
  obtain ⟨later, since, run, labels⟩ := Runs.exists_of_drives drives
    (fun es s t now there sought => unforged_of_good now there fun h same => absurd same (sought h))
    loaded opened
  have ended : (threads ++ [(⟨.rotating k (.openRecord bytes), 2, 0⟩ : Thread Call)]).set
      threads.length ⟨.rotating k (.done outcome), 18, since⟩ =
        threads ++ [⟨.rotating k (.done outcome), 18, since⟩] := by simp
  rw [ended] at run
  have calm : stalls (later ++ (⟨⟨σ, 0, threads ++ [⟨.rotating k .load, 1, 0⟩]⟩,
      .step threads.length .answered (.good 0)⟩ ::
        ⟨⟨σ, 0, threads⟩, .begin (.refresh (.rotating k))⟩ :: events)) .failed firstFamily = 1 := by
    rw [stalls_append fun e member => not_failed_of_answered (labels e member), stalls_cons,
      if_neg (not_failed_of_answered rfl), stalls_cons, adrift.failed]
    rfl
  have inside : events ⊆ later ++ (⟨⟨σ, 0, threads ++ [⟨.rotating k .load, 1, 0⟩]⟩,
      .step threads.length .answered (.good 0)⟩ ::
        ⟨⟨σ, 0, threads⟩, .begin (.refresh (.rotating k))⟩ :: events) :=
    fun e member => List.mem_append_right _
      (List.mem_cons_of_mem _ (List.mem_cons_of_mem _ member))
  generalize later ++ _ = events' at run calm inside
  have link := links_of_rotated run rotated
  refine ⟨events', _, run, rfl, adrift.set.mono inside, ⟨limit, named.trans head⟩, unmarked, ?_,
    calm, ?_⟩
  · exact ⟨l ++ [k], ⟨threads.length, 8⟩, ⟨threads.length, 12⟩, firstFamily.2,
      (path.mono fun _ next => next.mono inside).snoc link, by simp [length], .of_links link,
      by simp, by decide, successor⟩
  · have before := adrift.moving
    simp only [Rotation.moving] at before ⊢
    rw [List.countP_append, before]
    rfl

/-- The head swap of the first rotation fails. -/
def driftLabels : List (Label Input Choice) :=
  [.begin (.issue "token")] ++ steps 0 4 (.good 0) ++
    [.begin (.refresh (.rotating ⟨0, 0⟩))] ++ steps 1 15 (.good 0) ++
    [.step 1 .notApplied (.good 0)] ++ steps 1 1 (.good 0)

/-- Whether a step reads the one clock and guesses no handle. -/
def unforgedly {R : Rotator} (events : List R.machine.Event) (s : R.machine.State)
    (label : R.machine.Lbl) : Bool :=
  unguessedly events s label && match label with
    | .step _ _ choice => choice.reading = s.now
    | _ => true

theorem unforged_of_unforgedly {R : Rotator} (events : List R.machine.Event) (s : R.machine.State)
    (label : R.machine.Lbl) (holds : unforgedly events s label = true) :
    Unforged R events s label := by
  obtain ⟨unguessed, holds⟩ := Bool.and_eq_true_iff.mp holds
  refine ⟨fun i delivery choice same => ?_, unguessed_of_unguessedly unguessed⟩
  subst same
  exact of_decide_eq_true holds

/-- After one rotation whose head swap fails, the family drifts. -/
theorem exists_adrift : ∃ events s, Adrift 1 events s := by
  obtain ⟨events, s, run, now, head, unrevoked, rotated, successor, failed, moving⟩ :=
    Runs.exists_of_replay (M := driftRotator.machine) unforged_of_unforgedly driftLabels
      (fun events s => s.now = 0 ∧
        s.store (.head firstFamily.1) = some ⟨.headKey (.handle ⟨0, 0⟩), 1000000⟩ ∧
        s.store (.revoked firstFamily.1) = none ∧
        s.store (.handle ⟨0, 0⟩) = some ⟨driftRotated 1 ⟨0, 0⟩, 1000000⟩ ∧
        s.store (.handle ⟨1, 8⟩) = some ⟨driftSuccessor 1, 1000000⟩ ∧
        stalls events .failed firstFamily = 1 ∧ moving s firstFamily = 0) (by decide +kernel)
  have link := links_of_rotated run rotated
  obtain ⟨family, set, id⟩ := headSet_of_head run head
  obtain rfl := (set.founded run).unique run ((HandedOut.of_links link).founded run) id
  exact ⟨events, s, run, now, set, ⟨_, head⟩, unrevoked,
    ⟨[⟨0, 0⟩], ⟨1, 8⟩, ⟨1, 12⟩, 1000000, .step link (.here _), rfl, .of_links link, by decide,
      by decide, successor⟩, failed, moving⟩

theorem exists_adrift_succ (n : ℕ) : ∃ events s, Adrift (n + 1) events s := by
  induction n with
  | zero => exact exists_adrift
  | succ n ih =>
      obtain ⟨events, s, adrift⟩ := ih
      exact adrift.rotate

/-- The family that drifts is neither expired nor revoked. -/
theorem Adrift.unexpired {n : ℕ} {events : List driftRotator.machine.Event}
    {s : driftRotator.machine.State} (adrift : Adrift n events s) : s.now < firstFamily.2 := by
  rw [adrift.now]
  decide

theorem Adrift.lasting {n : ℕ} {events : List driftRotator.machine.Event}
    {s : driftRotator.machine.State} (adrift : Adrift n events s) : Lasting events s firstFamily :=
  lasting_of_clock (fun _ _ _ unforged => unforged.clock) adrift.run (adrift.set.founded adrift.run)
    adrift.unexpired

theorem Adrift.unmarked {n : ℕ} {events : List driftRotator.machine.Event}
    {s : driftRotator.machine.State} (adrift : Adrift n events s) : ¬ Marked events firstFamily.1 :=
  fun marked => marked.lasts (fun _ _ _ unforged => unforged.clock) adrift.run
    (adrift.set.founded adrift.run) adrift.unexpired (Store.live_eq_none_of_absent adrift.unrevoked)

/-- From the head to the token the family that drifts has `n` rotated records. -/
theorem Adrift.length_eq {n : ℕ} {events : List driftRotator.machine.Event}
    {s : driftRotator.machine.State} (adrift : Adrift n events s) {k z : Name} {l : List Name}
    (named : s.store.live s.now (.head firstFamily.1) = some (.headKey (.handle k)))
    (path : Path (Follows s) k l z) (holds : HoldsToken s z) : l.length = n := by
  obtain ⟨l', k', nonce, expires, links, length, handed, _, unexpired, there⟩ := adrift.last
  obtain ⟨limit, head⟩ := adrift.head
  obtain ⟨entry, stored, _, value⟩ := Store.live_eq_some_iff.mp named
  rw [head] at stored
  cases stored
  cases value
  have follows : Path (Follows s) ⟨0, 0⟩ l' k' := by
    refine links.mono fun _ next => ?_
    have mine := next.handedOut (fun _ _ _ unforged => unforged.unguessed) adrift.run
    obtain ⟨bytes, _, live, _⟩ := live_of_handedOut (fun _ _ _ unforged => unforged.unguessed)
      (fun _ _ _ unforged => unforged.clock) adrift.run mine adrift.unexpired
      (Store.live_eq_none_of_absent adrift.unrevoked)
    exact follows_of_links adrift.run next live
  have holds' : HoldsToken s k' := by
    refine ⟨_, _, "token", Store.live_of_entry there ?_, ⟨nonce, rfl⟩, rfl⟩
    rw [adrift.now]
    exact unexpired
  rw [(path.unique Follows.functional holds.last holds'.last follows).1, length]

/-- **The head of a family is near its token exactly as long as no head swap was lost or left out,
and not too many have failed or are still to come.** -/
theorem head_near_exact {R : Rotator} {events : List R.machine.Event} {s : R.machine.State}
    (run : R.machine.Runs (Unguessed R) events s) {family : Name × ℕ} (set : HeadSet events family)
    (lasting : Lasting events s family) (unrevoked : ¬ Marked events family.1) :
    HeadNear events s family ↔
      stalls events .lost family = 0 ∧ stalls events .untried family = 0 ∧
        stalls events .failed family + moving s family < maxEraseHops :=
  headNear_iff (fun _ _ _ unguessed => unguessed) run set lasting unrevoked

/-- A rotation whose head swap is answered. -/
theorem head_near_exact_of_rotation : ∃ events s,
    driftRotator.machine.Runs (Unguessed driftRotator) events s ∧ HeadSet events firstFamily ∧
      HeadNear events s firstFamily := by
  obtain ⟨events, s, run, now, head, unrevoked, rotated, lost, untried, few⟩ :=
    Runs.exists_of_replay (M := driftRotator.machine) unforged_of_unforgedly
      ([.begin (.issue "token")] ++ steps 0 4 (.good 0) ++
        [.begin (.refresh (.rotating ⟨0, 0⟩))] ++ steps 1 17 (.good 0))
      (fun events s => s.now = 0 ∧
        s.store (.head firstFamily.1) = some ⟨.headKey (.handle ⟨1, 8⟩), 1000000⟩ ∧
        s.store (.revoked firstFamily.1) = none ∧
        s.store (.handle ⟨0, 0⟩) = some ⟨driftRotated 1 ⟨0, 0⟩, 1000000⟩ ∧
        stalls events .lost firstFamily = 0 ∧ stalls events .untried firstFamily = 0 ∧
        stalls events .failed firstFamily + moving s firstFamily < maxEraseHops)
      (by decide +kernel)
  have link := links_of_rotated run rotated
  obtain ⟨family, set, id⟩ := headSet_of_head run head
  obtain rfl := (set.founded run).unique run ((HandedOut.of_links link).founded run) id
  have young : s.now < firstFamily.2 := by
    rw [now]
    decide
  have lasting :=
    lasting_of_clock (fun _ _ _ unforged => unforged.clock) run (set.founded run) young
  have unmarked : ¬ Marked events firstFamily.1 := fun marked =>
    marked.lasts (fun _ _ _ unforged => unforged.clock) run (set.founded run) young
      (Store.live_eq_none_of_absent unrevoked)
  have run' : driftRotator.machine.Runs (Unguessed driftRotator) events s :=
    run.mono fun _ _ _ unforged => unforged.unguessed
  exact ⟨events, s, run', set,
    (head_near_exact run' set lasting unmarked).mpr ⟨lost, untried, few⟩⟩

end OAuthRelay.Rotation
