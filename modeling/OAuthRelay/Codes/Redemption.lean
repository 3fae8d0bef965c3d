import OAuthRelay.Async.History
import OAuthRelay.Codes.Exchange

/-!
# A code is redeemed once

The marker of a redeemed code expires five minutes after its redemption, and the code is
accepted until five minutes after its issue, in whole seconds. So the marker lasts as long
as the code exactly when it is written a full second after the time of issue or later
(`marker_covers_iff`). When every marker of a code is, and is written while the code is
still accepted, the code is redeemed at most once (`redeemed_once`).
-/

set_option autoImplicit false

namespace OAuthRelay.Codes

open OAuthRelay.Async OAuthRelay.Async.Machine
open OAuthRelay.Rotation (CreatePc)

variable {X : Exchanger}

/-- The call `i` has returned the upstream's response for the code. -/
def Redeemed (s : X.machine.State) (i : ℕ) (envelope : CodeEnvelope) (response : StoredResponse) :
    Prop :=
  ∃ t, s.threads[i]? = some t ∧ t.call.pc = .redeemed envelope response

/-- An instance accepts the code, its redemption apart. -/
def Exchanger.accepts (X : Exchanger) (place : X.Instance) (now : ℕ) (envelope : CodeEnvelope) :
    Bool :=
  fresh (X.unixNow place now) envelope.issuedAt codeTtl

/-- At most one call returns the response, and while the code is accepted its marker is live. -/
structure RedeemedOnce (envelope : CodeEnvelope) (s : X.machine.State) : Prop where
  once : ∀ i j response response', Redeemed s i envelope response →
    Redeemed s j envelope response' → i = j
  marked : ∀ i response, Redeemed s i envelope response →
    ∀ place, X.accepts place s.now envelope = true →
      s.store.live s.now (.code envelope.envelopeId) ≠ none

/-- A call that asks for the time learns its instance's. -/
def Exchanger.Clocked (X : Exchanger) (_ : List X.machine.Event) (s : X.machine.State)
    (label : X.machine.Lbl) : Prop :=
  ∀ i delivery choice t, label = .step i delivery choice → s.threads[i]? = some t →
    choice.now = X.unixNow t.call.attempt.place s.now

/-- Every clock has passed the second of issue. -/
def Exchanger.Issued (X : Exchanger) (envelope : CodeEnvelope) (now : ℕ) : Prop :=
  ∀ place, (envelope.issuedAt + 1) * second ≤ now + X.clock place

/-- A call about to write the code's marker finds the second of issue over, and the code
still accepted by its own instance. -/
def Exchanger.Timely (X : Exchanger) (envelope : CodeEnvelope) (_ : List X.machine.Event)
    (s : X.machine.State) (label : X.machine.Lbl) : Prop :=
  ∀ i delivery choice t marker admitted sealedBody, label = .step i delivery choice →
    s.threads[i]? = some t → t.call.pc = .putMarker envelope marker admitted sealedBody →
    X.Issued envelope s.now ∧ X.accepts t.call.attempt.place s.now envelope = true

/-! ## The acceptance window -/

/-- The window closes at the end of a second. -/
theorem lt_of_accepts {place : X.Instance} {now : ℕ} {envelope : CodeEnvelope}
    (accepted : X.accepts place now envelope = true) :
    now + X.clock place < (envelope.issuedAt + codeTtl + 1) * second := by
  simp only [Exchanger.accepts, fresh, Bool.and_eq_true, decide_eq_true_eq] at accepted
  have floor : X.unixNow place now < envelope.issuedAt + codeTtl + 1 := by omega
  exact (Nat.div_lt_iff_lt_mul (by decide)).mp floor

/-- What is written after the second of issue lasts as long as the code is accepted. -/
theorem lt_of_issued {place : X.Instance} {written now : ℕ} {envelope : CodeEnvelope}
    (issued : X.Issued envelope written) (accepted : X.accepts place now envelope = true) :
    now < written + codeTtl * second := by
  have after := issued place
  have closes := lt_of_accepts accepted
  simp only [Nat.add_mul] at after closes
  omega

/-- An instance whose clock shows the last second of the window accepts the code. -/
theorem accepts_last {place : X.Instance} {now : ℕ} {envelope : CodeEnvelope}
    (stamp : envelope.issuedAt < 2 ^ 64)
    (low : (envelope.issuedAt + codeTtl) * second ≤ now + X.clock place)
    (high : now + X.clock place < (envelope.issuedAt + codeTtl + 1) * second) :
    X.accepts place now envelope = true := by
  have floor : X.unixNow place now = envelope.issuedAt + codeTtl := by
    apply Nat.le_antisymm
    · exact Nat.lt_succ_iff.mp ((Nat.div_lt_iff_lt_mul (by decide)).mpr high)
    · exact (Nat.le_div_iff_mul_le (by decide)).mpr low
  simp only [Exchanger.accepts, fresh, floor, Bool.and_eq_true, decide_eq_true_eq]
  omega

/-- **A marker outlives its code exactly when it is written after the second of issue**, on
every instance's clock. -/
theorem marker_covers_iff {envelope : CodeEnvelope} {written : ℕ}
    (stamp : envelope.issuedAt < 2 ^ 64) :
    (∀ place now, written ≤ now → X.accepts place now envelope = true →
      now < written + codeTtl * second) ↔ X.Issued envelope written := by
  constructor
  · intro covers place
    by_contra early
    -- the last second of the window, or the end of the marker if that is later
    have positive : 0 < second := by decide
    have reached := covers place
      (written + codeTtl * second + (envelope.issuedAt * second - (written + X.clock place)))
    simp only [Nat.add_mul] at early
    refine absurd (reached (by omega) (accepts_last stamp ?_ ?_)) (by omega)
    · rw [Nat.add_mul]
      omega
    · simp only [Nat.add_mul]
      omega
  · intro issued place now _ accepted
    exact lt_of_issued issued accepted

/-! ## One redemption -/

/-- The code counts as used for this call. -/
def Pc.Past (envelope : CodeEnvelope) : Pc → Prop
  | .issue envelope' _ => envelope' = envelope
  | .redeemed envelope' _ => envelope' = envelope
  | _ => False

section Calls

variable {attempt : Attempt X} {envelope envelope' : CodeEnvelope} {marker : Name}
  {sealedBody : Option (List UInt8)}

theorem not_past_beginMarker (stored : X.hasStore = true) (admitted : Bool) :
    ¬ (attempt.beginMarker envelope' marker admitted sealedBody).Past envelope := by
  simp [Attempt.beginMarker, stored, Pc.Past]

theorem not_past_sealNext (stored : X.hasStore = true) {issuedAt : ℕ} {rest : Members} :
    ∀ {replaced : Bool} {before : Members},
      ¬ (attempt.sealNext envelope' marker issuedAt replaced before rest).Past envelope := by
  induction rest with
  | nil =>
      intro replaced before
      unfold Attempt.sealNext
      split
      · split
        · exact not_past_beginMarker stored true
        · exact id
      · exact not_past_beginMarker stored true
  | cons member rest ih =>
      intro replaced before
      unfold Attempt.sealNext
      split
      · exact ih
      · split
        · exact ih
        · exact id

theorem not_past_sealTokenResponse (stored : X.hasStore = true) {issuedAt : ℕ} :
    ¬ (attempt.sealTokenResponse envelope' marker issuedAt).Past envelope := by
  unfold Attempt.sealTokenResponse
  simp only
  split
  · exact not_past_beginMarker stored true
  · split
    · split
      · exact id
      · exact not_past_beginMarker stored true
    · exact not_past_sealNext stored

theorem not_past_afterValidation (stored : X.hasStore = true)
    (validation : Except IdTokenValidationError Unit) :
    ¬ (attempt.afterValidation envelope' marker validation).Past envelope := by
  unfold Attempt.afterValidation
  split
  · exact id
  · exact not_past_beginMarker stored false
  · split
    · exact id
    · exact not_past_beginMarker stored true

theorem not_past_checkEnvelope (stored : X.hasStore = true) {now : ℕ} :
    ¬ (attempt.checkEnvelope envelope' now marker).Past envelope := by
  unfold Attempt.checkEnvelope
  split
  · split
    · exact id
    · split
      · exact id
      · exact not_past_afterValidation stored _
  · exact id

theorem past_afterMarker {admitted : Bool}
    (past : (attempt.afterMarker envelope' admitted sealedBody).Past envelope) :
    envelope' = envelope := by
  unfold Attempt.afterMarker Attempt.issueInResponse at past
  simp only at past
  repeat' split at past
  all_goals first | exact past | exact past.elim

theorem past_settle {pc : CreatePc} (past : (attempt.settle envelope' pc).Past envelope) :
    envelope' = envelope := by
  unfold Attempt.settle at past
  simp only at past
  repeat' split at past
  all_goals first | exact past | exact past.elim

variable {σ : Store Key Value} {now : ℕ} {delivery : Delivery} {choice : Choice} {name : Name}
  {p q : Pc}

/-- **A call gets past the marker by writing it.** -/
theorem next_past (stored : X.hasStore = true)
    (next : (attempt.await p).next σ now delivery (answer choice name) = some q)
    (past : q.Past envelope) :
    p.Past envelope ∨ (delivery = .answered ∧ σ.live now (.code envelope.envelopeId) = none ∧
      ∃ marker admitted sealedBody, p = .putMarker envelope marker admitted sealedBody) := by
  cases p with
  | unsealCode code =>
      obtain rfl := Option.some.inj next
      dsimp only at past
      split at past <;> exact past.elim
  | readClock envelope' =>
      obtain rfl := Option.some.inj next
      exact absurd past (not_past_checkEnvelope stored)
  | validate envelope' marker =>
      obtain rfl := Option.some.inj next
      exact absurd past (not_past_afterValidation stored _)
  | sealClock envelope' marker =>
      obtain rfl := Option.some.inj next
      exact absurd past (not_past_sealTokenResponse stored)
  | sealMember envelope' marker issuedAt before token rest =>
      obtain rfl := Option.some.inj next
      dsimp only at past
      split at past
      · exact past.elim
      · split at past
        · exact past.elim
        · exact absurd past (not_past_sealNext stored)
  | putMarker envelope' marker admitted sealedBody =>
      rcases Await.next_putIfAbsent next with ⟨_, rfl, vacant, rfl⟩ | ⟨_, _, _, rfl⟩ | ⟨_, _, rfl⟩
      · obtain rfl := past_afterMarker past
        exact .inr ⟨rfl, vacant, marker, admitted, sealedBody, rfl⟩
      · exact past.elim
      · exact past.elim
  | issue envelope' pc =>
      simp only [Attempt.await, Await.next_map, Option.map_eq_some_iff] at next
      obtain ⟨pc', _, rfl⟩ := next
      exact .inl (past_settle past)
  | redeemed envelope' response => cases next
  | refused error => cases next

/-- A marker is written where there is none, for the lifetime of a code. -/
theorem marker_change {id : Bytes 16} {entry : Option (Entry Value)}
    (change : (attempt.await p).change σ now delivery = some (.code id, entry)) :
    σ.live now (.code id) = none ∧ ∃ value, entry = some ⟨value, now + codeTtl * second⟩ := by
  cases p with
  | putMarker envelope' marker admitted sealedBody =>
      obtain ⟨vacant, same⟩ := Await.change_putIfAbsent change
      cases same
      exact ⟨vacant, _, rfl⟩
  | issue envelope' pc =>
      simp only [Attempt.await, Await.change_map] at change
      obtain ⟨key, same⟩ := Await.change_embed change
      cases same
  | _ => cases change

end Calls

/-! ## A sample deployment -/

/-- A confidential relay. -/
def confidentialRelay : Relay where
  upstream := sampleKey
  clientIsPublic := false
  refreshTokens := .passthrough
  policyConfigured := false
  scopes := []
  scopeAllowed _ := false
  matcherAllows _ := false
  fits _ allowed := by cases allowed

/-- One instance, on the store's clock. -/
def sampleExchanger : Exchanger where
  resolveRelay key := if key = sampleKey then some confidentialRelay else none
  hasStore := true
  Instance := Unit
  clock _ := 0
  pkceChallenge _ := ""
  rotator _ := Rotation.sampleRotator 0 0 Rotation.Timing.default

/-- A code issued 100 seconds after the epoch. -/
def sampleEnvelope : CodeEnvelope where
  relayKey := "app"
  envelopeId := zeroBytes 16
  issuedAt := 100
  redirectUri := "https://t.co/"
  clientCodeChallenge := none
  idTokenNonce := none
  upstreamResponse := ⟨200, none, []⟩
  handleFingerprint := zeroBytes 32

/-- The call `i` redeems the sample code when its clock shows the second `now`. -/
def redemption (i now : ℕ) : List sampleExchanger.machine.Lbl :=
  .begin ⟨(), sampleKey, confidentialRelay,
      ⟨some (sealPostcard CodeEnvelope.codec sampleKey sampleEnvelope), some "https://t.co/", none⟩⟩ ::
    List.replicate 3 (.step i .answered ⟨none, now, .ok (), .error .invalid, .good 0⟩)

/-- Whether the call `i` has returned the sample response. -/
def returned (s : sampleExchanger.machine.State) (i : ℕ) : Bool :=
  s.threads[i]?.map (fun t => t.call.pc) =
    some (.redeemed sampleEnvelope sampleEnvelope.upstreamResponse)

theorem redeemed_of_returned {s : sampleExchanger.machine.State} {i : ℕ}
    (h : returned s i = true) : Redeemed s i sampleEnvelope sampleEnvelope.upstreamResponse :=
  Option.map_eq_some_iff.mp (of_decide_eq_true h)

def sampleClocked (s : sampleExchanger.machine.State) : sampleExchanger.machine.Lbl → Bool
  | .step i _ choice => s.threads[i]?.all fun t =>
      choice.now = sampleExchanger.unixNow t.call.attempt.place s.now
  | _ => true

theorem clocked_of_sampleClocked {events : List sampleExchanger.machine.Event}
    {s : sampleExchanger.machine.State} {label : sampleExchanger.machine.Lbl}
    (h : sampleClocked s label = true) : sampleExchanger.Clocked events s label := by
  rintro i delivery choice t rfl there
  simpa [sampleClocked, there] using h

/-! ## Runs -/

variable {ok : List X.machine.Event → X.machine.State → X.machine.Lbl → Prop}
  {events : List X.machine.Event} {s : X.machine.State} {envelope : CodeEnvelope}

/-- The step writes the code's marker. -/
def Marks (e : X.machine.Event) (i : ℕ) (envelope : CodeEnvelope) : Prop :=
  ∃ t marker admitted sealedBody, e.By i t ∧
    t.call.pc = .putMarker envelope marker admitted sealedBody ∧
    e.change = some (.code envelope.envelopeId,
      some ⟨.marker marker, e.before.now + codeTtl * second⟩)

/-- The step writes the code's marker, and the call learns that it did. -/
def Wins (e : X.machine.Event) (i : ℕ) (envelope : CodeEnvelope) : Prop :=
  Marks e i envelope ∧ ∃ choice, e.label = .step i .answered choice

/-- A marker step that finds no marker and is answered wins. -/
theorem wins_of_vacant {i : ℕ} {t : Thread (Call X)} {choice : Choice} {marker : Name}
    {admitted : Bool} {sealedBody : Option (List UInt8)} (there : s.threads[i]? = some t)
    (pc : t.call.pc = .putMarker envelope marker admitted sealedBody)
    (vacant : s.store.live s.now (.code envelope.envelopeId) = none) :
    Wins (⟨s, .step i .answered choice⟩ : X.machine.Event) i envelope := by
  refine ⟨⟨t, marker, admitted, sealedBody, ⟨there, .answered, choice, rfl⟩, pc, ?_⟩, choice, rfl⟩
  rw [Event.change_eq rfl there]
  simp only [Call.await, pc, Await.change_map]
  exact Await.putIfAbsent_changes (by decide) vacant

/-- **A call for which the code counts as used has written its marker.** -/
theorem wins_of_past (stored : X.hasStore = true) (run : X.machine.Runs ok events s) {i : ℕ}
    {t : Thread (Call X)} (there : s.threads[i]? = some t) (past : t.call.pc.Past envelope) :
    ∃ e ∈ events, Wins e i envelope := by
  refine run.thread_invariant
    (I := fun es i (t : Thread (Call X)) => t.call.pc.Past envelope → ∃ e ∈ es, Wins e i envelope)
    ?_ ?_ ?_ there past
  · intro e es i t earlier _ past
    obtain ⟨e', member, wins⟩ := earlier past
    exact ⟨e', List.mem_cons_of_mem _ member, wins⟩
  · intro es s input _ past
    simp only [Call.start] at past
    repeat' split at past
    all_goals exact past.elim
  · intro es s i delivery choice t call _ _ before earlier resumed past
    simp only [Call.await, Await.next_map, Option.map_eq_some_iff] at resumed
    obtain ⟨pc, next, rfl⟩ := resumed
    rcases next_past stored next past with already | ⟨rfl, vacant, marker, admitted, sealedBody, same⟩
    · obtain ⟨e, member, wins⟩ := earlier already
      exact ⟨e, List.mem_cons_of_mem _ member, wins⟩
    · exact ⟨_, List.mem_cons_self .., wins_of_vacant before same vacant⟩

/-- The code's marker is there and expires no earlier than at an instant. -/
def MarkedUntil (envelope : CodeEnvelope) (instant : ℕ) (s : X.machine.State) : Prop :=
  ∃ entry, s.store (.code envelope.envelopeId) = some entry ∧ instant ≤ entry.expires

/-- A marker stays, or another takes its place when it has expired. -/
theorem MarkedUntil.step {s' : X.machine.State} {label : X.machine.Lbl} {instant : ℕ}
    (marked : MarkedUntil envelope instant s) (taken : X.machine.step s label = some s') :
    MarkedUntil envelope instant s' := by
  obtain ⟨entry, there, late⟩ := marked
  unfold MarkedUntil
  rw [step_store taken]
  by_cases same : s.store.applyChange (Event.change (⟨s, label⟩ : X.machine.Event))
      (.code envelope.envelopeId) = s.store (.code envelope.envelopeId)
  · exact ⟨entry, by rw [same, there], late⟩
  · have change := Store.change_of_ne _ same
    obtain ⟨i, t, delivery, choice, rfl, _, made⟩ := Event.by_of_change change
    simp only [Call.await, Await.change_map] at made
    obtain ⟨vacant, value, written⟩ := marker_change made
    refine ⟨_, written, ?_⟩
    have expired : entry.expires ≤ s.now := by
      by_contra live
      rw [Store.live_of_entry there (by omega)] at vacant
      cases vacant
    show instant ≤ s.now + codeTtl * second
    omega

/-- **After a marker was written, one is there for at least its lifetime.** -/
theorem markedUntil_of_marks (run : X.machine.Runs ok events s) {e : X.machine.Event}
    (member : e ∈ events) {i : ℕ} (marks : Marks e i envelope) :
    MarkedUntil envelope (e.before.now + codeTtl * second) s := by
  induction run with
  | nil => cases member
  | cons _ _ taken ih =>
      rcases List.mem_cons.mp member with rfl | older
      · obtain ⟨_, _, _, _, _, _, change⟩ := marks
        refine ⟨_, by rw [step_store taken, change, Store.applyChange_same], ?_⟩
        exact Nat.le_refl _
      · exact (ih older).step taken

/-- **A code is redeemed at most once, and its marker is live while it is accepted**, when
its markers are timely. -/
theorem redeemed_once (stored : X.hasStore = true)
    (run : X.machine.Runs (X.Timely envelope) events s) : RedeemedOnce envelope s := by
  have marked : ∀ i response, Redeemed s i envelope response →
      ∃ e ∈ events, Marks e i envelope := by
    rintro i response ⟨t, there, pc⟩
    obtain ⟨e, member, marks, _⟩ := wins_of_past stored run there (by rw [pc]; rfl)
    exact ⟨e, member, marks⟩
  have timely : ∀ e ∈ events, ∀ i, Marks e i envelope → X.Issued envelope e.before.now ∧
      ∃ place, X.accepts place e.before.now envelope = true := by
    rintro e member i ⟨t, _, _, _, ⟨there, delivery, choice, label⟩, pc, _⟩
    obtain ⟨_, _, permitted, _⟩ := run.of_mem member
    obtain ⟨issued, accepted⟩ := permitted i delivery choice t _ _ _ label there pc
    exact ⟨issued, _, accepted⟩
  -- a second marker would be written while the first is live
  have first : ∀ later earlier e₁ e₂ i j, events = later ++ e₂ :: earlier → e₁ ∈ earlier →
      Marks e₁ i envelope → Marks e₂ j envelope → False := by
    rintro later earlier e₁ e₂ i j rfl older marks₁ marks₂
    have before := run.split.1
    obtain ⟨entry, there, late⟩ := markedUntil_of_marks before older marks₁
    obtain ⟨issued, _⟩ := timely e₁ (List.mem_append_right _ (List.mem_cons_of_mem _ older)) i marks₁
    obtain ⟨_, place, accepted⟩ := timely e₂ (by simp) j marks₂
    have live : e₂.before.now < entry.expires :=
      Nat.lt_of_lt_of_le (lt_of_issued issued accepted) late
    obtain ⟨_, _, _, _, _, _, change⟩ := marks₂
    obtain ⟨k, t, delivery, choice, _, _, made⟩ := Event.by_of_change change
    simp only [Call.await, Await.change_map] at made
    have vacant := (marker_change made).1
    rw [Store.live_of_entry there live] at vacant
    cases vacant
  refine ⟨?_, ?_⟩
  · intro i j response response' redeemed redeemed'
    obtain ⟨e₁, member₁, marks₁⟩ := marked i response redeemed
    obtain ⟨e₂, member₂, marks₂⟩ := marked j response' redeemed'
    rcases mem_before member₁ member₂ with rfl | ⟨later, earlier, parts, older⟩ |
      ⟨later, earlier, parts, older⟩
    · obtain ⟨_, _, _, _, by₁, _⟩ := marks₁
      obtain ⟨_, _, _, _, by₂, _⟩ := marks₂
      exact by₁.index_eq by₂
    · exact (first _ _ _ _ _ _ parts older marks₂ marks₁).elim
    · exact (first _ _ _ _ _ _ parts older marks₁ marks₂).elim
  · intro i response redeemed place accepted
    obtain ⟨e, member, marks⟩ := marked i response redeemed
    obtain ⟨entry, there, late⟩ := markedUntil_of_marks run member marks
    have live := lt_of_issued (timely e member i marks).1 accepted
    rw [Store.live_of_entry there (Nat.lt_of_lt_of_le live late)]
    simp

/-- Whether a step of the sample deployment is timely. -/
def sampleTimely (s : sampleExchanger.machine.State) : sampleExchanger.machine.Lbl → Bool
  | .step i _ _ => s.threads[i]?.all fun t =>
      match t.call.pc with
      | .putMarker .. => 101 * second ≤ s.now && sampleExchanger.accepts () s.now sampleEnvelope
      | _ => true
  | _ => true

/-- A code redeemed in the second after its issue, and refused four minutes later. -/
theorem redeemed_once_of_refusal : ∃ events s,
    sampleExchanger.machine.Runs (sampleExchanger.Timely sampleEnvelope) events s ∧
      returned s 0 = true ∧ (s.threads[1]?.map fun t => t.call.pc) =
        some (.refused (invalidGrant "code was already used")) ∧
      RedeemedOnce sampleEnvelope s := by
  have sound : ∀ (events : List sampleExchanger.machine.Event)
      (s : sampleExchanger.machine.State) label, sampleTimely s label = true →
        sampleExchanger.Timely sampleEnvelope events s label := by
    rintro _ s _ timely i _ _ t _ _ _ rfl there pc
    simp only [sampleTimely, there, Option.all_some, pc, Bool.and_eq_true,
      decide_eq_true_eq] at timely
    exact ⟨fun _ => timely.1, timely.2⟩
  obtain ⟨events, s, run, first, second⟩ := Runs.exists_of_replay sound
    (.tick (101 * second) :: redemption 0 101 ++ .tick (240 * second) :: redemption 1 341)
    (fun _ s => returned s 0 = true ∧ (s.threads[1]?.map fun t => t.call.pc) =
      some (.refused (invalidGrant "code was already used"))) (by decide +kernel)
  exact ⟨events, s, run, first, second, redeemed_once rfl run⟩

/-- **A code redeemed in its first second is redeemed again in the last second of its
window.** -/
theorem not_redeemed_once : ¬ ∀ (X : Exchanger) (envelope : CodeEnvelope)
    (events : List X.machine.Event) (s : X.machine.State), X.hasStore = true →
    X.machine.Runs X.Clocked events s → RedeemedOnce envelope s := by
  intro all
  have sound : ∀ events s label, sampleClocked s label = true →
      sampleExchanger.Clocked events s label := fun _ _ _ => clocked_of_sampleClocked
  obtain ⟨events, s, run, first, second⟩ := Runs.exists_of_replay sound
    (.tick (100 * second) :: redemption 0 100 ++ .tick (300 * second) :: redemption 1 400)
    (fun _ s => returned s 0 = true ∧ returned s 1 = true) (by decide +kernel)
  have twice := (all sampleExchanger sampleEnvelope events s rfl run).once 0 1 _ _
    (redeemed_of_returned first) (redeemed_of_returned second)
  cases twice

end OAuthRelay.Codes
