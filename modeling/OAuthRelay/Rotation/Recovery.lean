import OAuthRelay.Rotation.Lifetime
import OAuthRelay.Rotation.Stale

/-!
# Rotations that fail

A refresh that fails between its claim and its final swap undoes what it did: what it wrote
under names of its own is removed again, and the handle's record is released, or stays
claimed until the lease is over. The family is revoked only when the upstream rejects the
token itself.

All of this is an invariant of the failing call (`Secure`): which states it can be in, what
is left under its keys there, and what the handle's record is.
-/

set_option autoImplicit false

namespace OAuthRelay.Rotation

open OAuthRelay.Async OAuthRelay.Async.Machine

variable {R : Rotator} {ok : List R.machine.Event → R.machine.State → R.machine.Lbl → Prop}
  {events later earlier : List R.machine.Event} {s : R.machine.State}

/-- The refresh of `h` by the call `i` does not come to its final swap. Nobody else changes the
handle's record, and what the clean-up deletes is deleted. -/
structure FailsEarly (later : List R.machine.Event) (i : ℕ) (h : Name) : Prop where
  untried : ∀ e ∈ later, ∀ attempt rotated, ¬ At e i h (.swapRotated attempt rotated)
  undisturbed : ∀ e ∈ later, ∀ x, e.change = some (.handle h, x) → e.label.index? = some i
  cleaned : ∀ e ∈ later, ∀ key rest after choice, At e i h (.discard key rest after) →
    e.label ≠ .step i .notApplied choice

theorem FailsEarly.older {e : R.machine.Event} {i : ℕ} {h : Name}
    (fails : FailsEarly (e :: later) i h) : FailsEarly later i h where
  untried e' member := fails.untried e' (List.mem_cons_of_mem _ member)
  undisturbed e' member := fails.undisturbed e' (List.mem_cons_of_mem _ member)
  cleaned e' member := fails.cleaned e' (List.mem_cons_of_mem _ member)

/-- The upstream gives the call this response. -/
def Replies (e : R.machine.Event) (i : ℕ) (h : Name) (response : StoredResponse) : Prop :=
  ∃ held delivery choice, At e i h (.askUpstream held) ∧ e.label = .step i delivery choice ∧
    choice.reply = .ok response

/-- An error, or the upstream's own answer if that is no success. -/
def Failure (events : List R.machine.Event) (i : ℕ) (h : Name) (outcome : RefreshOutcome) : Prop :=
  ∀ response, outcome = .response response →
    response.isSuccess = false ∧ ∃ e ∈ events, Replies e i h response

theorem Failure.of_ne {i : ℕ} {h : Name} {outcome : RefreshOutcome}
    (noResponse : ∀ response, outcome ≠ .response response) : Failure later i h outcome :=
  fun response same => absurd same (noResponse response)

theorem Failure.mono {e : R.machine.Event} {i : ℕ} {h : Name} {outcome : RefreshOutcome}
    (failure : Failure later i h outcome) : Failure (e :: later) i h outcome := by
  intro response same
  obtain ⟨failed, e₀, member, replies⟩ := failure response same
  exact ⟨failed, e₀, List.mem_cons_of_mem _ member, replies⟩

/-- The upstream has rejected the token. -/
def Rejected (events : List R.machine.Event) (i : ℕ) : Prop :=
  ∃ e ∈ events, InvalidGrantReply e i

theorem Rejected.mono {e : R.machine.Event} {i : ℕ} (rejected : Rejected later i) :
    Rejected (e :: later) i := by
  obtain ⟨e₀, member, reply⟩ := rejected
  exact ⟨e₀, List.mem_cons_of_mem _ member, reply⟩

/-! ## States of a failing call -/

/-- Where a call that fails early can be after its claim. -/
def Pc.Stage (later : List R.machine.Event) (i : ℕ) (h : Name) (held : Claim) : Pc → Prop
  | askUpstream own | commit own .. | isRevokedLost own | discard _ _ (.failed own _) =>
      own = held
  | sealResponse attempt | putResponse attempt _ | sealSuccessor attempt
  | putSuccessor attempt _ | sealRotated attempt | swapRotated attempt _ => attempt.claim = held
  | sealRelease own outcome | releaseClock own _ outcome | swapRelease own _ _ outcome =>
      own = held ∧ Failure later i h outcome
  | done outcome => Failure later i h outcome
  | revoke revocation | putMarker revocation .. | getHead revocation | erase revocation ..
  | openErased revocation .. | deleteErased revocation .. =>
      Rejected later i ∧ Failure later i h revocation.answer
  | _ => False

theorem Pc.Stage.mono {e : R.machine.Event} {i : ℕ} {h : Name} {held : Claim} {p : Pc}
    (stage : p.Stage later i h held) : p.Stage (e :: later) i h held := by
  cases p with
  | sealRelease | releaseClock | swapRelease => exact ⟨stage.1, stage.2.mono⟩
  | revoke | putMarker | getHead | erase | openErased | deleteErased =>
      exact ⟨stage.1.mono, stage.2.mono⟩
  | done => exact Failure.mono stage
  | discard key rest after => cases after <;> exact stage
  | _ => exact stage

/-- What the upstream's answer makes of the call. -/
theorem stage_of_handleReply {e : R.machine.Event} {i : ℕ} {h : Name} {held : Claim}
    {delivery : Delivery} {choice : Choice} {name : Name} (step : At e i h (.askUpstream held))
    (label : e.label = .step i delivery choice) (member : e ∈ events) :
    (Pc.handleReply R h held name choice.reply).Stage events i h held := by
  cases reply : choice.reply with
  | error failure => exact ⟨rfl, .of_ne (by simp)⟩
  | ok response =>
      have replies : Replies e i h response := ⟨held, delivery, choice, step, label, reply⟩
      simp only [Pc.handleReply]
      split
      · rename_i invalid
        refine ⟨⟨e, member, h, held, delivery, choice, response, step, label, reply, invalid⟩, ?_⟩
        intro response' same
        cases same
        exact ⟨SerdeJson.not_isSuccess_of_isInvalidGrant invalid, e, member, replies⟩
      · split
        · split
          · exact ⟨rfl, .of_ne (by simp)⟩
          · exact rfl
        · rename_i failure
          refine ⟨rfl, fun response' same => ?_⟩
          cases same
          exact ⟨by simpa using failure, e, member, replies⟩

/-- A step of a failing call that does not ask the upstream. -/
theorem Pc.Stage.edge {i : ℕ} {h name : Name} {held : Claim} {σ : Store Key Value} {now : ℕ}
    {delivery : Delivery} {choice : Choice} {p q : Pc} (stage : p.Stage later i h held)
    (edge : Edge R h σ now delivery choice name p q)
    (waits : ∀ claim, p ≠ .askUpstream claim)
    (untried : ∀ attempt rotated, p ≠ .swapRotated attempt rotated) :
    q.Stage later i h held := by
  cases edge with
  | refuse noResponse => exact Failure.of_ne noResponse
  | unsuccessful | invalidGrant | succeeded => exact absurd rfl (waits _)
  | rotated | lost => exact absurd rfl (untried _ _)
  | wait _ reason => cases reason <;> exact stage.elim
  | unprepared preparing =>
      cases p <;> first | cases preparing; done | skip
      all_goals
        cases preparing
        exact stage
  | erase erasing =>
      cases p <;> first | cases erasing; done | skip
      all_goals
        cases erasing
        exact stage
  | revoked revoking =>
      cases p <;> first | cases revoking; done | skip
      all_goals
        cases revoking
        exact stage.2
  | @discard _ _ _ after => cases after <;> exact stage
  | failed => exact ⟨stage, .of_ne (Fault.outcome_ne_response _)⟩
  | unreleased | released => exact stage.2
  | reuse | replayed | claimed | finished | discardedLost => exact stage.elim
  | _ => exact stage

/-- A failing call has its claim, or the upstream has rejected the token, or it is over. -/
theorem Pc.Stage.claimed {i : ℕ} {h : Name} {held : Claim} {p : Pc}
    (stage : p.Stage later i h held) :
    p.claim? = some held ∨ Rejected later i ∨ ∃ outcome, p = .done outcome := by
  cases p with
  | done outcome => exact .inr (.inr ⟨outcome, rfl⟩)
  | revoke | putMarker | getHead | erase | openErased | deleteErased => exact .inr (.inl stage.1)
  | sealRelease | releaseClock | swapRelease => exact .inl (congrArg some stage.1)
  | askUpstream | commit | isRevokedLost | sealResponse | putResponse | sealSuccessor
  | putSuccessor | sealRotated | swapRotated => exact .inl (congrArg some stage)
  | discard key rest after =>
      cases after with
      | failed => exact .inl (congrArg some stage)
      | _ => exact stage.elim
  | _ => exact stage.elim

/-! ## What is left under the keys of a call -/

/-- Nothing is there under the keys of the call `i`, apart from these. -/
def Clean (σ : Store Key Value) (i : ℕ) (keys : List Key) : Prop :=
  ∀ key, key.OwnedBy i → key ∉ keys → σ key = none

theorem Clean.mono {σ : Store Key Value} {i : ℕ} {keys keys' : List Key} (clean : Clean σ i keys)
    (inside : keys ⊆ keys') : Clean σ i keys' :=
  fun key mine outside => clean key mine fun member => outside (inside member)

theorem Clean.change {σ : Store Key Value} {i : ℕ} {keys : List Key}
    {change : Option (Change Key Value)} (clean : Clean σ i keys)
    (kept : ∀ key entry, change = some (key, some entry) → key.OwnedBy i → key ∈ keys) :
    Clean (σ.applyChange change) i keys := by
  intro key mine outside
  by_cases touched : ∃ x, change = some (key, x)
  · obtain ⟨x, rfl⟩ := touched
    rw [Store.applyChange_same]
    cases x with
    | none => rfl
    | some entry => exact absurd (kept key entry rfl mine) outside
  · rw [Store.applyChange_of_forall_ne _ fun x made => touched ⟨x, made⟩]
    exact clean key mine outside

/-- A key of a call that holds nothing is written by the call only. -/
theorem owner_of_change {e : R.machine.Event} (run : R.machine.Runs ok events e.before) {i : ℕ}
    {key : Key} {entry : Entry Value} (made : e.change = some (key, some entry))
    (mine : key.OwnedBy i) (absent : e.before.store key = none) : e.label.index? = some i := by
  have vacant : e.before.store.live e.before.now key = none :=
    Store.live_eq_none_of_absent absent
  cases changes run rfl made with
  | refresh j h p step formed alters =>
      have index := (at_iff.mp step).1
      cases alters with
      | claim live | rotate live | release live =>
          rw [vacant] at live
          cases live
      | response =>
          rw [index, ← show _ = i from mine, ← formed.1.1.1]
      | successor =>
          rw [index, ← show _ = i from mine, ← formed.1.2]
      | head | marker => exact mine.elim
  | creation j p step formed alters =>
      obtain ⟨t, ⟨_, label⟩, _⟩ := step
      have index := Label.index?_eq_some_iff.mpr label
      cases alters with
      | record => rw [index, ← show _ = i from mine, ← formed.1.1]
      | head => exact mine.elim

/-- Other calls leave the keys of a call alone. -/
theorem Clean.other {e : R.machine.Event} (run : R.machine.Runs ok events e.before) {i : ℕ}
    {keys : List Key} (clean : Clean e.before.store i keys) (other : e.label.index? ≠ some i) :
    Clean (e.before.store.applyChange e.change) i keys := by
  apply clean.change
  intro key entry made mine
  by_contra outside
  exact other (owner_of_change run made mine (clean key mine outside))

/-- The keys of its own that a refresh of `h` may have written in a state. -/
def Pc.leftover (h : Name) : Pc → List Key
  | sealSuccessor attempt | putSuccessor attempt _ | sealRotated attempt
  | swapRotated attempt _ => [.grace h attempt.claim.claimId, attempt.successorKey]
  | discard key rest _ => key :: rest
  | _ => []

/-- A step that finds and writes nothing of the call's own leaves its keys clean. -/
theorem Clean.of_nil {σ : Store Key Value} {i : ℕ} {keys : List Key}
    {change : Option (Change Key Value)} (clean : Clean σ i [])
    (kept : ∀ key entry, change = some (key, some entry) → ¬ key.OwnedBy i) :
    Clean (σ.applyChange change) i keys :=
  (clean.change fun key entry made mine => absurd mine (kept key entry made)).mono
    (List.nil_subset _)

/-- `commit` goes on, or removes what it may have written. -/
theorem leftover_of_preparing {h name : Name} {σ : Store Key Value} {now : ℕ}
    {delivery : Delivery} {choice : Choice} {p q : Pc} {attempt : Attempt}
    (preparing : p.preparing? = some attempt) (writes : p ≠ .sealResponse attempt)
    (resumed : (p.await R h).next σ now delivery (answer choice name) = some q) :
    q.leftover h = [.grace h attempt.claim.claimId, attempt.successorKey] := by
  cases p with
  | sealResponse =>
      cases preparing
      exact absurd rfl writes
  | putResponse | putSuccessor =>
      cases preparing
      rcases Await.next_putIfAbsent resumed with ⟨_, _, _, rfl⟩ | ⟨_, _, _, rfl⟩ | ⟨_, _, rfl⟩
      · rfl
      · rfl
      · rfl
  | sealSuccessor | sealRotated =>
      cases preparing
      obtain rfl := Await.next_consult resumed
      simp only [answer]
      split
      · rfl
      · rfl
  | _ => cases preparing

/-- `discard` goes through its keys. -/
theorem leftover_of_discard {h name : Name} {σ : Store Key Value} {now : ℕ}
    {delivery : Delivery} {choice : Choice} {q : Pc} {key : Key} {rest : List Key} {held : Claim}
    {fault : Fault}
    (resumed : ((Pc.discard key rest (.failed held fault)).await R h).next σ now delivery
      (answer choice name) = some q) : q.leftover h = rest := by
  cases rest with
  | nil =>
      rcases Await.next_delete resumed with ⟨_, rfl⟩ | ⟨_, _, rfl⟩
      · rfl
      · rfl
  | cons =>
      rcases Await.next_delete resumed with ⟨_, rfl⟩ | ⟨_, _, rfl⟩
      · rfl
      · rfl

/-- What `commit` writes is named in the state that follows, and what `discard` deletes is
gone. -/
theorem clean_of_next {i : ℕ} {h name : Name} {held : Claim} {σ : Store Key Value} {now : ℕ}
    {delivery : Delivery} {choice : Choice} {p q : Pc} (stage : p.Stage later i h held)
    (resumed : (p.await R h).next σ now delivery (answer choice name) = some q)
    (untried : ∀ attempt rotated, p ≠ .swapRotated attempt rotated)
    (cleaned : ∀ key rest after, p = .discard key rest after → delivery ≠ .notApplied)
    (foreign : h.call ≠ i) (clean : Clean σ i (p.leftover h)) :
    Clean (σ.applyChange ((p.await R h).change σ now delivery)) i (q.leftover h) := by
  cases p with
  | askUpstream | commit | isRevokedLost | sealResponse | sealRelease | releaseClock | revoke
  | getHead | erase | openErased => exact clean.mono (List.nil_subset _)
  | putResponse attempt sealed =>
      rw [leftover_of_preparing rfl (by simp) resumed]
      apply (clean.mono (List.nil_subset _)).change
      intro key entry made _
      have written := (Await.change_putIfAbsent made).2
      cases written
      exact List.mem_cons_self ..
  | sealSuccessor attempt =>
      rw [leftover_of_preparing rfl (by simp) resumed]
      exact clean
  | putSuccessor attempt successor =>
      rw [leftover_of_preparing rfl (by simp) resumed]
      apply Clean.change clean
      intro key entry made _
      have written := (Await.change_putIfAbsent made).2
      cases written
      exact List.mem_cons_of_mem _ (List.mem_cons_self ..)
  | sealRotated attempt =>
      rw [leftover_of_preparing rfl (by simp) resumed]
      exact clean
  | discard key rest after =>
      have deleted : q.leftover h = rest := by
        cases after with
        | failed => exact leftover_of_discard resumed
        | _ => exact stage.elim
      rw [deleted]
      intro other mine outside
      simp only [Pc.await, Await.change, if_neg (cleaned _ _ _ rfl)]
      by_cases same : other = key
      · rw [same, Store.applyChange_same]
      · rw [Store.applyChange_other _ same]
        refine clean other mine fun member => ?_
        rcases List.mem_cons.mp member with equal | inside
        · exact same equal
        · exact outside inside
  | swapRelease own bytes ttl outcome =>
      apply clean.of_nil
      intro key entry made mine
      have written := (Await.change_compareAndSwap made).2
      cases written
      exact foreign mine
  | putMarker revocation ttl marker =>
      apply clean.of_nil
      intro key entry made mine
      have written := (Await.change_putIfAbsent made).2
      cases written
      exact mine
  | deleteErased revocation key rest =>
      apply clean.of_nil
      intro key entry made
      have deleted := Await.change_delete made
      cases deleted
  | swapRotated attempt rotated => exact absurd rfl (untried _ _)
  | done => cases resumed
  | _ => exact stage.elim

/-! ## The record of the handle -/

/-- The entry lasts as long as the claim's family, counted from a clock reading of the call. -/
def Lasts (events : List R.machine.Event) (i : ℕ) (held : Claim) (entry : Entry Value) : Prop :=
  ∃ e ∈ events, ∃ reading, ReadsTime e i reading ∧
    held.familyExpiresMs + e.before.now ≤ entry.expires + reading

theorem Lasts.mono {events' : List R.machine.Event} (inside : events ⊆ events') {i : ℕ}
    {held : Claim} {entry : Entry Value} (lasts : Lasts events i held entry) :
    Lasts events' i held entry := by
  obtain ⟨e, member, reading, reads, past⟩ := lasts
  exact ⟨e, inside member, reading, reads, past⟩

/-- A record that a refresh writes lasts as long as the family. -/
theorem lasts_of_left (run : R.machine.Runs ok events s) {i steps since ttl : ℕ} {h : Name} {p : Pc}
    (there : s.threads[i]? = some ⟨.rotating h p, steps, since⟩) (left : p.left? = some ttl)
    {held : Claim} (holds : p.family? = some held.family) (bytes : Value) :
    Lasts events i held ⟨bytes, s.now + ttl⟩ := by
  obtain ⟨e, member, reading, reads, remains⟩ := within_family run there left holds
  obtain ⟨before, rfl⟩ := ttlUntil_eq_some_iff.mp remains
  refine ⟨e, member, reading, reads, ?_⟩
  have := run.now_le member
  simp only [Claim.family] at before ⊢
  omega

/-- The handle's record is the claimed one. -/
def Stands (events : List R.machine.Event) (σ : Store Key Value) (i : ℕ) (h : Name)
    (held : Claim) : Prop :=
  ∃ entry, σ (.handle h) = some entry ∧ entry.value = held.bytes ∧ Lasts events i held entry

/-- The handle's record is the claimed one or the released one. -/
def Kept (events : List R.machine.Event) (σ : Store Key Value) (i : ℕ) (h : Name)
    (held : Claim) : Prop :=
  ∃ entry record, σ (.handle h) = some entry ∧ Sealed h record entry.value ∧
    (record = held.released ∨ entry.value = held.bytes) ∧ Lasts events i held entry

theorem Stands.mono {events' : List R.machine.Event} {σ σ' : Store Key Value}
    (inside : events ⊆ events') {i : ℕ} {h : Name} {held : Claim}
    (stands : Stands events σ i h held) (same : σ' (.handle h) = σ (.handle h)) :
    Stands events' σ' i h held := by
  obtain ⟨entry, there, value, lasts⟩ := stands
  exact ⟨entry, same.trans there, value, lasts.mono inside⟩

theorem Kept.mono {events' : List R.machine.Event} {σ σ' : Store Key Value}
    (inside : events ⊆ events') {i : ℕ} {h : Name} {held : Claim}
    (kept : Kept events σ i h held) (same : σ' (.handle h) = σ (.handle h)) :
    Kept events' σ' i h held := by
  obtain ⟨entry, record, there, sealed, state, lasts⟩ := kept
  exact ⟨entry, record, same.trans there, sealed, state, lasts.mono inside⟩

theorem Stands.kept {σ : Store Key Value} {i : ℕ} {h : Name} {held : Claim}
    (stands : Stands events σ i h held) (formed : held.Formed i h) : Kept events σ i h held := by
  obtain ⟨entry, there, value, lasts⟩ := stands
  obtain ⟨claimedMs, sealed⟩ := formed.sealed
  exact ⟨entry, _, there, value ▸ sealed, .inr value, lasts⟩

/-- Until its release a failing call leaves the handle's record alone. -/
theorem change_ne_handle {i : ℕ} {h : Name} {held : Claim} {σ : Store Key Value} {now : ℕ} {p : Pc}
    {c : Change Key Value} (stage : p.Stage later i h held) (formed : p.Formed i h)
    (holds : p.claim? = some held) (alters : Alters R h σ now p c)
    (untried : ∀ attempt rotated, p ≠ .swapRotated attempt rotated)
    (unreleased : ∀ bytes ttl outcome, p ≠ .swapRelease held bytes ttl outcome)
    (foreign : h.call ≠ i) : c.1 ≠ .handle h := by
  rintro same
  cases alters with
  | claim | erase | marker => cases holds
  | response | head => cases same
  | successor =>
      injection same with equal
      exact foreign (equal ▸ formed.1.2)
  | rotate => exact absurd rfl (untried _ _)
  | discard =>
      change _ = Key.handle h at same
      subst same
      exact foreign formed.1
  | release =>
      obtain rfl := Option.some.inj holds
      exact absurd rfl (unreleased _ _ _)

/-! ## The invariant of a failing call -/

/-- What holds of a call that fails early, in a state after its claim. -/
structure Secure (events later : List R.machine.Event) (σ : Store Key Value) (i : ℕ) (h : Name)
    (held : Claim) (p : Pc) : Prop where
  stage : p.Stage later i h held
  clean : Clean σ i (p.leftover h)
  record : (p.claim? = some held ∧ Stands events σ i h held) ∨ Rejected later i ∨
    ((∃ outcome, p = .done outcome) ∧ Kept events σ i h held)

/-- Steps of other calls keep the invariant. -/
theorem Secure.other {e : R.machine.Event} (run : R.machine.Runs ok events e.before) {i : ℕ}
    {h : Name} {held : Claim} {p : Pc} (secure : Secure events later e.before.store i h held p)
    (other : e.label.index? ≠ some i)
    (undisturbed : ∀ x, e.change = some (.handle h, x) → e.label.index? = some i) :
    Secure (e :: events) (e :: later) (e.before.store.applyChange e.change) i h held p where
  stage := secure.stage.mono
  clean := secure.clean.other run other
  record := by
    have same : e.before.store.applyChange e.change (.handle h) = e.before.store (.handle h) :=
      Store.applyChange_of_forall_ne _ fun x change => other (undisturbed x change)
    rcases secure.record with ⟨claimed, stands⟩ | rejected | ⟨ended, kept⟩
    · exact .inl ⟨claimed, stands.mono (List.subset_cons_self ..) same⟩
    · exact .inr (.inl rejected.mono)
    · exact .inr (.inr ⟨ended, kept.mono (List.subset_cons_self ..) same⟩)

/-- A claim that stands does so after a step, or the step releases it. -/
theorem kept_of_step {e : R.machine.Event} (run : R.machine.Runs ok events e.before) {i : ℕ}
    {h : Name} {held : Claim} {p : Pc} (step : At e i h p) (stage : p.Stage later i h held)
    (untried : ∀ attempt rotated, p ≠ .swapRotated attempt rotated)
    (holds : p.claim? = some held) (foreign : h.call ≠ i)
    (stands : Stands events e.before.store i h held) :
    Stands (e :: events) (e.before.store.applyChange e.change) i h held ∨
      ((∃ bytes ttl outcome, p = .swapRelease held bytes ttl outcome) ∧
        Kept (e :: events) (e.before.store.applyChange e.change) i h held) := by
  have formed := step.formed run
  by_cases touched : ∃ x, e.change = some (.handle h, x)
  · obtain ⟨x, change⟩ := touched
    by_cases releases : ∃ bytes ttl outcome, p = .swapRelease held bytes ttl outcome
    · obtain ⟨bytes, ttl, outcome, rfl⟩ := releases
      obtain ⟨steps, since, there⟩ := step.thread
      refine .inr ⟨⟨_, _, _, rfl⟩, ⟨bytes, e.before.now + ttl⟩, held.released, ?_, formed.2, .inl rfl,
        (lasts_of_left run there rfl rfl bytes).mono (List.subset_cons_self ..)⟩
      rw [change, Store.applyChange_same]
      have alters := step.alters change
      cases alters with
      | release => rfl
    · refine absurd rfl (change_ne_handle stage formed holds (step.alters change) untried ?_ foreign)
      exact fun bytes ttl outcome same => releases ⟨bytes, ttl, outcome, same⟩
  · refine .inl (stands.mono (List.subset_cons_self ..) ?_)
    exact Store.applyChange_of_forall_ne _ fun x change => touched ⟨x, change⟩

/-- The steps of the call itself keep the invariant. -/
theorem Secure.own {e : R.machine.Event} (run : R.machine.Runs ok events e.before)
    {i steps since : ℕ}
    {h : Name} {held : Claim} {p q : Pc} (secure : Secure events later e.before.store i h held p)
    (fails : FailsEarly (e :: later) i h) (formed : held.Formed i h) (foreign : h.call ≠ i)
    {delivery : Delivery} {choice : Choice} (label : e.label = .step i delivery choice)
    (there : e.before.threads[i]? = some ⟨.rotating h p, steps, since⟩)
    (resumed : (p.await R h).next e.before.store e.before.now delivery
      (answer choice ⟨i, steps⟩) = some q) :
    Secure (e :: events) (e :: later) (e.before.store.applyChange e.change) i h held q := by
  have step : At e i h p := ⟨_, ⟨there, delivery, choice, label⟩, rfl⟩
  have untried : ∀ attempt rotated, p ≠ .swapRotated attempt rotated := by
    rintro attempt rotated rfl
    exact fails.untried e (List.mem_cons_self ..) attempt rotated step
  have change : e.change = (p.await R h).change e.before.store e.before.now delivery := by
    rw [Event.change_eq label there]
    simp [Call.await]
  have stage : q.Stage (e :: later) i h held := by
    by_cases asks : ∃ own, p = .askUpstream own
    · obtain ⟨own, rfl⟩ := asks
      obtain rfl : own = held := secure.stage
      obtain rfl := Await.next_consult resumed
      exact stage_of_handleReply step label (List.mem_cons_self ..)
    · exact secure.stage.mono.edge (edge_of_next resumed) (fun own same => asks ⟨own, same⟩) untried
  refine ⟨stage, ?_, ?_⟩
  · rw [change]
    apply clean_of_next secure.stage resumed untried ?_ foreign secure.clean
    rintro key rest after rfl rfl
    exact fails.cleaned e (List.mem_cons_self ..) key rest after choice step label
  · rcases secure.record with ⟨claimed, stands⟩ | rejected | ⟨⟨outcome, rfl⟩, _⟩
    · rcases kept_of_step run step secure.stage untried claimed foreign stands with stands |
        ⟨⟨bytes, ttl, outcome, rfl⟩, kept⟩
      · rcases stage.claimed with holds | rejected | ended
        · exact .inl ⟨holds, stands⟩
        · exact .inr (.inl rejected)
        · exact .inr (.inr ⟨ended, stands.kept formed⟩)
      · refine .inr (.inr ⟨⟨outcome, ?_⟩, kept⟩)
        rcases Await.next_compareAndSwap resumed with ⟨_, _, _, rfl⟩ | ⟨_, _, _, rfl⟩ | ⟨_, _, rfl⟩
        · rfl
        · rfl
        · rfl
    · exact .inr (.inl rejected.mono)
    · cases resumed

/-- What is there under the keys of a call the call has written. -/
theorem stepped_of_owned (run : R.machine.Runs ok events s) {key : Key} {i : ℕ}
    (mine : key.OwnedBy i) (there : s.store key ≠ none) :
    ∃ e ∈ events, ∃ t, e.By i t ∧ 0 < t.call.rank := by
  obtain ⟨entry, found⟩ := Option.ne_none_iff_exists'.mp there
  cases key with
  | handle name =>
      subst mine
      obtain ⟨e, older, births⟩ := born_of_store run found
      obtain ⟨_, run₀, _⟩ := run.of_mem older
      obtain ⟨t, stepped, rank⟩ := births.by_call run₀
      exact ⟨e, older, t, stepped, by omega⟩
  | grace h' claimId =>
      subst mine
      obtain ⟨e, older, attempt, ⟨t, stepped, call⟩, _⟩ := putResponse_of_store run found
      exact ⟨e, older, t, stepped, by rw [call]; simp [Call.rank, Pc.rank]⟩
  | revoked | head => exact mine.elim

/-- A call that has claimed has written nothing else yet. -/
theorem clean_of_claims {e : R.machine.Event} (run : R.machine.Runs ok earlier e.before) {i : ℕ}
    {h : Name} {loaded : Loaded} {held : Claim} (claims : Claims e i h loaded held) :
    Clean e.before.store i [] := by
  obtain ⟨ttl, ⟨t, by₁, call⟩, _⟩ := claims
  intro key mine _
  by_contra there
  obtain ⟨e₀, older, t₀, by₀, further⟩ := stepped_of_owned run mine there
  have order := rank_of_follows (run.follows by₁.1 e₀ older t₀ by₀).1
  rw [call, show (Call.rotating h (.swapClaim loaded held ttl)).rank = 0 from rfl] at order
  omega

/-- A call that has not begun has written nothing. -/
theorem clean_of_length (run : R.machine.Runs ok events s) {i : ℕ} (outside : s.threads.length ≤ i) :
    Clean s.store i [] := by
  intro key mine _
  by_contra there
  obtain ⟨e, older, t, stepped, _⟩ := stepped_of_owned run mine there
  have inside := (List.getElem?_eq_some_iff.mp stepped.1).1
  have bound := run.length_le older
  omega

theorem secure_of_claims {e : R.machine.Event} (run : R.machine.Runs ok earlier e.before)
    (taken : R.machine.step e.before e.label = some s) {i : ℕ} {h : Name} {loaded : Loaded}
    {held : Claim} (claims : Claims e i h loaded held) : ∃ p steps since,
      s.threads[i]? = some ⟨.rotating h p, steps, since⟩ ∧
        Secure (e :: earlier) [] s.store i h held p := by
  have formed := (claims.formed run).2.2
  have foreign := claims.handle_ne run
  have clean := clean_of_claims run claims
  obtain ⟨steps, since, q, there, next⟩ := claims.next taken
  obtain ⟨ttl, step, change⟩ := claims
  obtain ⟨_, _, before⟩ := step.thread
  have stands : Stands (e :: earlier) s.store i h held := by
    refine ⟨⟨held.bytes, e.before.now + ttl⟩, ?_, rfl,
      (lasts_of_left run before rfl rfl held.bytes).mono (List.subset_cons_self ..)⟩
    rw [step_store taken]
    exact (congrArg (fun c => e.before.store.applyChange c (.handle h)) change).trans
      (Store.applyChange_same ..)
  have clean' : Clean s.store i [] := by
    rw [step_store taken]
    apply clean.of_nil
    intro key entry made mine
    cases change.symm.trans made
    exact foreign mine
  refine ⟨q, steps, since, there, ?_⟩
  rcases next with rfl | ⟨fault, rfl⟩
  · exact ⟨rfl, clean', .inl ⟨rfl, stands⟩⟩
  · exact ⟨.of_ne fault.outcome_ne_response, clean', .inr (.inr ⟨⟨_, rfl⟩, stands.kept formed⟩)⟩

/-- **A call that fails early is secure after its claim.** -/
theorem secure_of_fails {e : R.machine.Event} (run : R.machine.Runs ok (later ++ e :: earlier) s)
    {i : ℕ} {h : Name} {loaded : Loaded} {held : Claim} (claims : Claims e i h loaded held)
    (fails : FailsEarly later i h) : ∃ p steps since,
      s.threads[i]? = some ⟨.rotating h p, steps, since⟩ ∧
        Secure (later ++ e :: earlier) later s.store i h held p := by
  have foreign := claims.handle_ne run.split.1
  have formed := (claims.formed run.split.1).2.2
  induction later generalizing s with
  | nil =>
      cases run with
      | cons run _ taken => exact secure_of_claims run taken claims
  | cons e' later ih =>
      cases run with
      | @cons _ s₁ _ label run _ taken =>
          obtain ⟨p, steps, since, there, secure⟩ := ih run fails.older
          by_cases mine : label.index? = some i
          · obtain ⟨delivery, choice, rfl⟩ := Label.index?_eq_some_iff.mp mine
            obtain ⟨call, resumed, after⟩ := thread_of_step taken there
            obtain ⟨q, rfl, inner⟩ := rotating_resumes resumed
            refine ⟨q, _, _, after, ?_⟩
            rw [step_store taken]
            exact secure.own run fails formed foreign rfl there inner
          · refine ⟨p, steps, since, ?_, ?_⟩
            · rcases thread_persists taken there with same | ⟨_, _, _, rfl, _⟩
              · exact same
              · exact absurd rfl mine
            · rw [step_store taken]
              exact secure.other run mine fun x => fails.undisturbed _ (List.mem_cons_self ..) x

/-! ## How long it takes -/

/-- How many steps a refresh that has its claim takes at most. -/
def Pc.ahead : Pc → ℕ
  | done _ => 0
  | swapRelease .. | isRevokedLost _ => 1
  | releaseClock .. => 2
  | sealRelease .. => 3
  | discard _ rest _ => rest.length + 4
  | isRevokedInFlight _ => 6
  | swapHead _ => 7
  | swapRotated .. => 8
  | sealRotated _ => 9
  | putSuccessor .. => 10
  | sealSuccessor _ => 11
  | putResponse .. => 12
  | sealResponse _ => 13
  | commit .. => 14
  | deleteErased _ _ rest => rest.length * perKey + 1
  | openErased _ _ hop rest _ => rest.length * perKey + 2 * (maxEraseHops - hop) + 2
  | erase _ _ hop rest => rest.length * perKey + 2 * (maxEraseHops - hop) + 3
  | getHead _ => 2 * perKey + 1
  | putMarker .. => 2 * perKey + 2
  | revoke _ => 2 * perKey + 3
  | askUpstream _ => 2 * perKey + 4
  | _ => 0
where
  /-- An erasure reads and opens a record for each hop, and deletes the last. -/
  perKey : ℕ := 2 * maxEraseHops + 3

theorem length_eraseStarts_le (head : Option Key) (knownKey : Key) :
    (eraseStarts head knownKey).length ≤ 2 := by
  unfold eraseStarts
  cases head <;> split <;> simp

/-- Erasing from the keys that remain takes less than a step before it allows. -/
theorem ahead_eraseNext {revocation : Revocation} {keys : List Key} :
    (eraseNext revocation keys).ahead ≤ keys.length * Pc.ahead.perKey := by
  cases keys with
  | nil => exact Nat.zero_le _
  | cons key rest =>
      simp only [eraseNext, Pc.ahead, Pc.ahead.perKey, List.length_cons, Nat.add_mul]
      omega

theorem rank_of_seeking {p : Pc} (seeking : p.Seeking) : p.rank = 0 := by
  cases p with
  | load | openRecord | readClock | isRevoked | loadGrace | openGrace | readElapsed | sleep
  | claim | sealClaim | swapClaim => rfl
  | _ => exact seeking.elim

theorem le_ahead_of_preparing {p : Pc} {attempt : Attempt}
    (preparing : p.preparing? = some attempt) : 9 ≤ p.ahead := by
  cases p with
  | sealResponse | putResponse | sealSuccessor | putSuccessor | sealRotated =>
      simp only [Pc.ahead]
      omega
  | _ => cases preparing

/-- A refresh that has its claim and is not over has steps ahead. -/
theorem ahead_pos {p : Pc} (claimed : 0 < p.rank) (unended : ∀ outcome, p ≠ .done outcome) :
    0 < p.ahead := by
  cases p with
  | load | openRecord | readClock | isRevoked | loadGrace | openGrace | readElapsed | sleep
  | claim | sealClaim | swapClaim => exact absurd claimed (Nat.lt_irrefl 0)
  | done outcome => exact absurd rfl (unended outcome)
  | _ => exact Nat.zero_lt_succ _

/-- **Every step of a call that has its claim brings it nearer to its end.** -/
theorem ahead_of_edge {h name : Name} {σ : Store Key Value} {now : ℕ} {delivery : Delivery}
    {choice : Choice} {p q : Pc} (edge : Edge R h σ now delivery choice name p q)
    (claimed : 0 < p.rank) (unended : ∀ outcome, p ≠ .done outcome) : q.ahead < p.ahead := by
  have erases : ∀ {keys : List Key} {revocation : Revocation}, Erases σ now choice p keys →
      (eraseNext revocation keys).ahead < p.ahead := by
    intro keys revocation next
    apply Nat.lt_of_le_of_lt ahead_eraseNext
    cases next with
    | @starts own head =>
        have := Nat.mul_le_mul_right Pc.ahead.perKey
          (length_eraseStarts_le (head.bind Value.asKey) own.knownKey)
        simp only [Pc.ahead]
        omega
    | _ =>
        simp only [Pc.ahead]
        omega
  cases edge with
  | refuse => exact ahead_pos claimed unended
  | wait seeking => exact absurd claimed (rank_of_seeking seeking ▸ Nat.lt_irrefl 0)
  | unprepared preparing =>
      exact Nat.lt_of_lt_of_le (show 1 + 4 < 9 by decide) (le_ahead_of_preparing preparing)
  | pause | again | loaded | opened | unexpired | free | abandoned | replay | reuse | recorded
  | replayed | claim | sealClaim | claimed => exact absurd claimed (Nat.lt_irrefl 0)
  | erase _ next => exact erases next
  | revoked revoking lapsed =>
      rcases lapsed with ⟨rfl, _⟩ | next
      · exact Nat.zero_lt_succ _
      · exact erases next
  | succeeded =>
      simp only [Pc.ahead, Pc.ahead.perKey, maxEraseHops]
      omega
  | follow _ below =>
      simp only [Pc.ahead]
      omega
  | _ =>
      simp only [Pc.ahead, List.length_cons, List.length_nil]
      omega

/-- A refresh that is not over can take a step, whatever it is answered. -/
theorem exists_next {h : Name} {p : Pc} (unended : ∀ outcome, p ≠ .done outcome)
    (σ : Store Key Value) (now : ℕ) (delivery : Delivery)
    (answer : (question : Question) → Answer question) :
    ∃ q, (p.await R h).next σ now delivery answer = some q := by
  cases p with
  | done outcome => exact absurd rfl (unended outcome)
  | _ => exact ⟨_, rfl⟩

/-- How many steps a refresh takes at most after its claim. -/
def claimSteps : ℕ := 2 * Pc.ahead.perKey + 4

theorem ahead_of_claims {e : R.machine.Event} (run : R.machine.Runs ok (later ++ e :: earlier) s)
    {i : ℕ} {h : Name} {loaded : Loaded} {held : Claim} (claims : Claims e i h loaded held)
    {t₀ : Thread Call} (by₀ : e.By i t₀) : ∃ p steps since,
      s.threads[i]? = some ⟨.rotating h p, steps, since⟩ ∧ 0 < p.rank ∧
        steps + p.ahead ≤ t₀.steps + 1 + claimSteps := by
  induction later generalizing s with
  | nil =>
      cases run with
      | cons _ _ taken =>
          obtain ⟨steps, since, q, there, next⟩ := claims.next taken
          obtain ⟨there₀, delivery, choice, label⟩ := by₀
          cases label
          obtain ⟨call, _, after⟩ := thread_of_step taken there₀
          rw [there] at after
          cases after
          refine ⟨q, _, _, there, ?_⟩
          rcases next with rfl | ⟨fault, rfl⟩
          · exact ⟨by simp [Pc.rank], Nat.le_refl _⟩
          · exact ⟨by simp [Pc.rank, Pc.fail], Nat.le_add_right _ _⟩
  | cons e' later ih =>
      cases run with
      | cons run _ taken =>
          obtain ⟨p, steps, since, there, claimed, below⟩ := ih run
          rcases thread_persists taken there with same | ⟨delivery, choice, call, _, resumed, after⟩
          · exact ⟨p, steps, since, same, claimed, below⟩
          · obtain ⟨q, rfl, inner⟩ := rotating_resumes resumed
            have edge := edge_of_next inner
            have nearer := ahead_of_edge edge claimed (by
              rintro outcome rfl
              cases inner)
            have onward := edge.rank
            refine ⟨q, _, _, after, by omega, ?_⟩
            show steps + 1 + q.ahead ≤ _
            omega

/-! ## Claiming again -/

/-- A call can get as far as swapping the entry of the handle for a claim of its own, with the
token of the claim that was given up. -/
def Claimable (R : Rotator) (σ : Store Key Value) (h : Name) (held : Claim)
    (entry : Entry Value) (now : ℕ) : Prop :=
  Leads (M := R.machine) σ now (fun call => ∃ loaded own ttl,
    call = Call.rotating h (.swapClaim loaded own ttl) ∧ loaded.bytes = entry.value ∧
      own.upstreamToken = held.upstreamToken ∧ 0 < ttl) (.rotating h .load)

theorem leads_step {σ : Store Key Value} {now : ℕ} {goal : Call → Prop} {h : Name} {p : Pc}
    (choice : Choice) (next : Name → Pc)
    (resumes : ∀ name, (p.await R h).next σ now .answered (answer choice name) = some (next name))
    (unchanged : (p.await R h).change σ now .answered = none)
    (rest : ∀ name, Leads (M := R.machine) σ now goal (.rotating h (next name))) :
    Leads (M := R.machine) σ now goal (.rotating h p) := by
  apply Leads.step (M := R.machine) choice fun name => Call.rotating h (next name)
  · intro name
    simp [Call.await, resumes]
  · simpa [Call.await] using unchanged
  · exact rest

/-- **A live record with a token can be claimed**, a claimed one after the lease. -/
theorem claimable_of_record {σ : Store Key Value} {h : Name} {held : Claim} {entry : Entry Value}
    {record : Record} (there : σ (.handle h) = some entry) (sealed : Sealed h record entry.value)
    (family : record.family = held.family)
    (holds : record.state.token? = some held.upstreamToken) {now reading : ℕ}
    (live : now < entry.expires) (unrevoked : σ.live now (.revoked held.familyId) = none)
    (unexpired : reading < held.familyExpiresMs)
    (lease : ∀ token claimId claimedMs, record.state = .claimed token claimId claimedMs →
      R.timing.claimLease < reading - claimedMs) : Claimable R σ h held entry now := by
  obtain ⟨id, expires⟩ := Prod.mk.inj family
  obtain ⟨nonce, bytes⟩ := sealed
  have left : ttlUntil record.familyExpiresMs reading = some (record.familyExpiresMs - reading) :=
    ttlUntil_eq_some_iff.mpr ⟨expires ▸ unexpired, rfl⟩
  have seeks : Pc.handleState R h ⟨entry.value, record⟩ reading =
      .claim ⟨entry.value, record⟩ held.upstreamToken := by
    unfold Pc.handleState
    cases state : record.state with
    | active token =>
        rw [state] at holds
        cases holds
        rfl
    | claimed token claimId claimedMs =>
        rw [state] at holds
        cases holds
        simp [lease _ _ _ state]
    | rotated =>
        rw [state] at holds
        cases holds
  apply leads_step (.good 0) fun _ => .openRecord entry.value
  · intro name
    simp [Pc.await, Await.next, Store.live_of_entry there live]
  · rfl
  · intro name
    apply leads_step (.good 0) fun _ => .readClock ⟨entry.value, record⟩
    · intro name
      simp [Pc.await, Await.next, answer, Choice.good, bytes, openValue]
    · rfl
    · intro name
      apply leads_step (.good reading) fun _ => .isRevoked ⟨entry.value, record⟩ reading
      · intro name
        simp [Pc.await, Await.next, answer, Choice.good, expires, Nat.not_le.mpr unexpired]
      · rfl
      · intro name
        apply leads_step (.good 0) fun _ => .claim ⟨entry.value, record⟩ held.upstreamToken
        · intro name
          simp [Pc.await, Await.next, id, unrevoked, seeks]
        · rfl
        · intro name
          apply leads_step (.good reading) fun claimId => .sealClaim ⟨entry.value, record⟩
            held.upstreamToken claimId reading (record.familyExpiresMs - reading)
          · intro name
            simp [Pc.await, Await.next, answer, Choice.good, left]
          · rfl
          · intro claimId
            apply leads_step (.good 0) fun nonce => .swapClaim ⟨entry.value, record⟩
              { bytes := .sealed .record (.handle h)
                  (.record (claimedRecord ⟨entry.value, record⟩ held.upstreamToken claimId
                    reading)) nonce
                claimId := claimId
                upstreamToken := held.upstreamToken
                familyId := record.familyId
                familyExpiresMs := record.familyExpiresMs } (record.familyExpiresMs - reading)
            · intro name
              simp [Pc.await, Await.next, answer, Choice.good, sealValue]
            · rfl
            · intro name
              exact .here ⟨_, _, _, rfl, rfl, rfl, by omega⟩

/-! ## Runs -/

/-- The record of the handle after a rotation that failed. It is of the same family with the same
token, released or still claimed, lasts as long as the family, and can be claimed again. -/
def Recoverable (events : List R.machine.Event) (s : R.machine.State) (i : ℕ) (h : Name)
    (held : Claim) : Prop :=
  ∃ entry record, s.store (.handle h) = some entry ∧ Sealed h record entry.value ∧
    record.family = held.family ∧
    (record.state = .active held.upstreamToken ∨ entry.value = held.bytes) ∧
    Lasts events i held entry ∧ ∀ now reading, now < entry.expires →
      s.store.live now (.revoked held.familyId) = none → reading < held.familyExpiresMs →
      (∀ token claimId claimedMs, record.state = .claimed token claimId claimedMs →
        R.timing.claimLease < reading - claimedMs) → Claimable R s.store h held entry now

/-- **Rotation fails closed, and its claim is recoverable.** `e` is the step that takes the
claim. -/
structure FailsClosed (later : List R.machine.Event) (e : R.machine.Event)
    (earlier : List R.machine.Event) (s : R.machine.State) (i : ℕ) (h : Name) (held : Claim) :
    Prop where
  /-- The client gets an error, or the upstream's own answer, which is no success. -/
  answered : ∀ response, Answered s i h (.response response) →
    response.isSuccess = false ∧ ∃ e ∈ later, Replies e i h response
  /-- Nothing remains under the handles and claim ids that the call drew. -/
  clean : ∀ outcome, Answered s i h outcome → ∀ key, key.OwnedBy i → s.store key = none
  recoverable : ∀ outcome, Answered s i h outcome → Rejected later i ∨
    Recoverable (later ++ e :: earlier) s i h held
  /-- The call revokes no family unless the upstream rejects its token. -/
  revoked : ∀ e' ∈ later, ∀ t, e'.By i t → ∀ familyId x,
    e'.change = some (.revoked familyId, x) → Rejected later i
  /-- The call is over after a bounded number of steps, each of which it can take. -/
  returns : ∀ t₀, e.By i t₀ → ∃ t, s.threads[i]? = some t ∧
    ((∃ outcome, t.call = .rotating h (.done outcome)) ∨ (t.steps < t₀.steps + 1 + claimSteps ∧
      ∀ delivery choice, ∃ s', R.machine.step s (.step i delivery choice) = some s'))

theorem Kept.recoverable {i : ℕ} {h : Name} {held : Claim} (formed : held.Formed i h)
    (kept : Kept events s.store i h held) : Recoverable events s i h held := by
  obtain ⟨entry, record, there, sealed, state, lasts⟩ := kept
  obtain ⟨claimedMs, sealed'⟩ := formed.sealed
  have same : record.family = held.family ∧ record.state.token? = some held.upstreamToken := by
    rcases state with rfl | value
    · exact ⟨rfl, rfl⟩
    · rw [sealed.unique (value ▸ sealed')]
      exact ⟨rfl, rfl⟩
  refine ⟨entry, record, there, sealed, same.1, ?_, lasts, ?_⟩
  · rcases state with rfl | value
    · exact .inl rfl
    · exact .inr value
  · intro now reading live unrevoked unexpired lease
    exact claimable_of_record there sealed same.1 same.2 live unrevoked unexpired lease

theorem FailsEarly.append {newer : List R.machine.Event} {i : ℕ} {h : Name}
    (fails : FailsEarly (newer ++ later) i h) : FailsEarly later i h where
  untried e member := fails.untried e (List.mem_append_right _ member)
  undisturbed e member := fails.undisturbed e (List.mem_append_right _ member)
  cleaned e member := fails.cleaned e (List.mem_append_right _ member)

/-- A marker is written by a call whose token was rejected. -/
theorem rejected_of_marker {e e' : R.machine.Event}
    (run : R.machine.Runs ok (later ++ e :: earlier) s) {i : ℕ} {h : Name} {loaded : Loaded}
    {held : Claim} (claims : Claims e i h loaded held) (fails : FailsEarly later i h)
    (member : e' ∈ later) {t : Thread Call} (stepped : e'.By i t) {familyId : Name}
    {x : Option (Entry Value)} (change : e'.change = some (.revoked familyId, x)) :
    Rejected later i := by
  obtain ⟨newer, older, rfl⟩ := List.mem_iff_append.mp member
  have run' : R.machine.Runs ok (older ++ e :: earlier) e'.before := by
    rw [List.append_assoc, List.cons_append] at run
    exact run.split.1
  have fails' : FailsEarly older i h := by
    rw [← List.singleton_append, ← List.append_assoc] at fails
    exact fails.append
  obtain ⟨p, steps, since, there, secure⟩ := secure_of_fails run' claims fails'
  obtain ⟨there', delivery, choice, label⟩ := stepped
  obtain rfl := Option.some.inj (there'.symm.trans there)
  have step : At e' i h p := ⟨_, ⟨there, delivery, choice, label⟩, rfl⟩
  have rejected : Rejected older i := by
    have alters := step.alters change
    generalize key : Key.revoked familyId = key at alters
    cases alters with
    | marker | erase => exact secure.stage.1
    | discard =>
        subst key
        exact (step.formed run').1.elim
    | _ => cases key
  obtain ⟨e₀, inside, reply⟩ := rejected
  exact ⟨e₀, List.mem_append_right _ (List.mem_cons_of_mem _ inside), reply⟩

/-- **Rotation fails closed, and its claim is recoverable.** -/
theorem fails_closed {e : R.machine.Event} (run : R.machine.Runs ok (later ++ e :: earlier) s)
    {i : ℕ} {h : Name} {loaded : Loaded} {held : Claim} (claims : Claims e i h loaded held)
    (fails : FailsEarly later i h) : FailsClosed later e earlier s i h held := by
  have ended : ∀ outcome, Answered s i h outcome →
      Secure (later ++ e :: earlier) later s.store i h held (.done outcome) := by
    intro outcome answered
    obtain ⟨p, steps, since, there, secure⟩ := secure_of_fails run claims fails
    obtain ⟨steps', since', there'⟩ := answered.thread
    cases there'.symm.trans there
    exact secure
  refine ⟨fun response answered => ?_, fun outcome answered => ?_, fun outcome answered => ?_, ?_, ?_⟩
  · exact (ended _ answered).stage response rfl
  · exact fun key mine => (ended _ answered).clean key mine List.not_mem_nil
  · rcases (ended _ answered).record with ⟨claimed, _⟩ | rejected | ⟨_, kept⟩
    · cases claimed
    · exact .inl rejected
    · exact .inr (kept.recoverable (claims.formed run.split.1).2.2)
  · intro e' member t stepped familyId x change
    exact rejected_of_marker run claims fails member stepped change
  · intro t₀ by₀
    obtain ⟨p, steps, since, there, claimed, below⟩ := ahead_of_claims run claims by₀
    refine ⟨_, there, ?_⟩
    by_cases ended : ∃ outcome, p = .done outcome
    · obtain ⟨outcome, rfl⟩ := ended
      exact .inl ⟨outcome, rfl⟩
    · have unended : ∀ outcome, p ≠ .done outcome := fun outcome same => ended ⟨outcome, same⟩
      have resumes := exists_next (R := R) (h := h) unended s.store s.now
      refine .inr ⟨?_, fun delivery choice => ?_⟩
      · obtain ⟨q, inner⟩ := resumes .answered (answer (.good 0) ⟨i, steps⟩)
        have nearer := ahead_of_edge (edge_of_next inner) claimed unended
        show steps < _
        omega
      · obtain ⟨q, inner⟩ := resumes delivery (answer choice ⟨i, steps⟩)
        have resumed : (Call.await R (.rotating h p)).next s.store s.now delivery
            (answer choice ⟨i, steps⟩) = some (.rotating h q) := by simp [Call.await, inner]
        obtain ⟨s', taken, _⟩ := exists_step there resumed
        exact ⟨s', taken⟩

/-- Whether a step is one of the call `i`, not its final swap, and no lost delete. -/
def failsQuietly (i : ℕ) (e : R.machine.Event) : Bool :=
  match e.label with
  | .step j delivery _ => j = i && e.before.threads[i]?.all fun t =>
      match t.call with
      | .rotating _ (.swapRotated ..) => false
      | .rotating _ (.discard ..) => delivery ≠ .notApplied
      | _ => true
  | _ => true

theorem failsEarly_of_all {i : ℕ} {h : Name} (quiet : later.all (failsQuietly i) = true) :
    FailsEarly later i h := by
  have each := fun e member => List.all_eq_true.mp quiet e member
  refine ⟨?_, ?_, ?_⟩
  · rintro e member attempt rotated ⟨⟨call, steps, since⟩, ⟨there, delivery, choice, label⟩, rfl⟩
    have := each e member
    simp [failsQuietly, label, there] at this
  · intro e member x change
    obtain ⟨j, t, delivery, choice, label, _⟩ := Event.by_of_change change
    have := each e member
    simp only [failsQuietly, label, Bool.and_eq_true, decide_eq_true_eq] at this
    simp [label, Label.index?, this.1]
  · rintro e member key rest after choice ⟨⟨call, steps, since⟩, ⟨there, _⟩, rfl⟩ label
    have := each e member
    simp [failsQuietly, label, there] at this

/-- The sealer fails in the middle of a commit. The claim stays and nothing else does. -/
theorem fails_closed_of_seal : ∃ later e earlier s,
    (sampleRotator 30000 1000000 .default).machine.Runs
        (sampleRotator 30000 1000000 .default).machine.anyStep (later ++ e :: earlier) s ∧
      Answered s 1 ⟨0, 0⟩ .sealerUnavailable ∧
      s.store.held (.handle ⟨0, 0⟩) = some (sampleClaim 1 0).bytes ∧
      FailsClosed later e earlier s 1 ⟨0, 0⟩ (sampleClaim 1 0) := by
  obtain ⟨events, s, run, answered, held, claims, quiet⟩ :=
    exists_run (sampleRotator 30000 1000000 .default)
      ([.begin (.issue "token")] ++ steps 0 4 (.good 0) ++
        [.begin (.refresh (.rotating ⟨0, 0⟩))] ++ steps 1 11 (.good 0) ++
        steps 1 5 { Choice.good 0 with sealer := .fails .unavailable })
      (fun events s => Answered s 1 ⟨0, 0⟩ .sealerUnavailable ∧
        s.store.held (.handle ⟨0, 0⟩) = some (sampleClaim 1 0).bytes ∧
        events[9]?.any (fun e =>
          decide (At e 1 ⟨0, 0⟩ (.swapClaim (sampleLoaded (.active "token") ⟨0, 2⟩)
            (sampleClaim 1 0) 1000000)) &&
          decide (e.change = some (.handle ⟨0, 0⟩,
            some ⟨(sampleClaim 1 0).bytes, e.before.now + 1000000⟩))) = true ∧
        (events.take 9).all (failsQuietly 1) = true)
      (by decide +kernel)
  obtain ⟨e, there, claims⟩ := (Option.any_eq_true _ _).mp claims
  simp only [Bool.and_eq_true, decide_eq_true_eq] at claims
  rw [parts_of_getElem? there] at run
  exact ⟨_, e, _, s, run, answered, held,
    fails_closed run ⟨_, claims.1, claims.2⟩ (failsEarly_of_all quiet)⟩

end OAuthRelay.Rotation
