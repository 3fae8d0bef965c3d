import OAuthRelay.Assertions.Presentation

/-!
# A single-use assertion is accepted once

The marker of an assertion is written for the time that is left until its expiry, the skew
included, and a second more. By the one clock that all calls read it is there until the last
whole second in which the assertion is valid is over (`Pc.Timely`). So a presentation that
writes its marker within that period finds none, and is the only one.
-/

set_option autoImplicit false

namespace OAuthRelay.Assertions

open OAuthRelay.Async OAuthRelay.Async.Machine
open OAuthRelay.Config (Value Url ClientJwks)
open OAuthRelay.Wire

variable {V : Verifier}

/-! ## Markers of different assertions -/

/-- **The text of an identity determines it.** -/
theorem Identity.text_injective {p q : Identity} (same : p.text = q.text) : p = q := by
  have framing := Json.quote_framing
  obtain ⟨issuer, rest⟩ := framing _ _ _ _ trivial trivial (List.cons.inj same).2
  obtain ⟨subject, rest⟩ := framing _ _ _ _ trivial trivial (List.cons.inj rest).2
  obtain ⟨audience, rest⟩ := framing _ _ _ _ trivial trivial (List.cons.inj rest).2
  obtain ⟨jti, _⟩ := framing _ _ _ _ trivial trivial (List.cons.inj rest).2
  cases p
  cases q
  simp_all

theorem Identity.bytes_injective {p q : Identity} (same : p.bytes = q.bytes) : p = q := by
  have read := congrArg Codec.fromUtf8 same
  simp only [Identity.bytes, Codec.fromUtf8_utf8Bytes, Option.some.injEq] at read
  exact Identity.text_injective (String.ofList_injective read)

/-- **Different assertions have different markers**, if their digests do not collide. -/
theorem markerKey_ne {p q : Identity} (differ : p ≠ q)
    (collisionFree : V.digest p.bytes = V.digest q.bytes → p.bytes = q.bytes) :
    V.markerKey p ≠ V.markerKey q := by
  intro same
  have digests : V.digest p.bytes = V.digest q.bytes := by
    simpa [Verifier.markerKey, String.ext_iff] using same
  exact differ (Identity.bytes_injective (collisionFree digests))

/-! ## Steps -/

/-- The step is taken by the call `i`, which is in this state. -/
def At (e : V.machine.Event) (i : ℕ) (verification : Verification) (p : Pc) : Prop :=
  ∃ t, e.By i t ∧ t.call = ⟨verification, p⟩

/-- All calls read the store's clock in whole seconds, and it fits in 64 bits. -/
def OneClock (V : Verifier) (_ : List V.machine.Event) (s : V.machine.State)
    (label : V.machine.Lbl) : Prop :=
  ∀ i delivery choice, label = .step i delivery choice →
    choice.reading = s.now / V.second ∧ choice.reading < 2 ^ 64

/-- The presentation by the call `i` is accepted: its marker is stored. -/
def Accepts (e : V.machine.Event) (i : ℕ) (verification : Verification) (expiresAt : UInt64)
    (jti : String) : Prop :=
  ∃ ttl marker longer choice, At e i verification (.putMarker expiresAt jti ttl marker longer) ∧
    e.label = .step i .answered choice ∧ 0 < ttl ∧
    e.before.store.live e.before.now (V.markerKey (verification.identity jti)) = none

/-- The whole-second clock is at most the expiry with its skew. -/
def InPeriod (e : V.machine.Event) (expiresAt : UInt64) : Prop :=
  e.before.now / V.second ≤ expiresAt.toNat + leeway

theorem change_await {call : Call} {σ : Store String Name} {now : ℕ} {delivery : Delivery}
    {c : Change String Name} (made : (call.await V).change σ now delivery = some c) :
    σ.live now c.1 = none ∧ ∃ marker ttl, c.2 = some ⟨marker, now + ttl⟩ := by
  obtain ⟨verification, p⟩ := call
  simp only [Call.await, Await.change_map] at made
  cases p with
  | putMarker expiresAt jti ttl marker longer =>
      obtain ⟨vacant, rfl⟩ := Await.change_putIfAbsent made
      exact ⟨vacant, marker, _, rfl⟩
  | _ => cases made

/-- Nothing but markers is written, and only where there is none. -/
theorem fills (e : V.machine.Event) (key : String) : e.Fills key := by
  intro x change
  obtain ⟨i, t, delivery, choice, _, _, made⟩ := Event.by_of_change change
  exact change_await made

theorem Accepts.change {e : V.machine.Event} {i : ℕ} {verification : Verification}
    {expiresAt : UInt64} {jti : String} (accepts : Accepts e i verification expiresAt jti) :
    ∃ ttl marker longer, At e i verification (.putMarker expiresAt jti ttl marker longer) ∧
      e.change = some (V.markerKey (verification.identity jti),
        some ⟨marker, e.before.now + (ttl * V.second + longer)⟩) := by
  obtain ⟨ttl, marker, longer, choice, step, label, positive, vacant⟩ := accepts
  refine ⟨ttl, marker, longer, step, ?_⟩
  obtain ⟨⟨call, steps, since⟩, ⟨there, _⟩, rfl⟩ := step
  rw [Event.change_eq label there]
  simp only [Call.await, Await.change_map, Verification.await]
  exact Await.putIfAbsent_changes
    (Nat.lt_of_lt_of_le (Nat.mul_pos positive V.positive) (Nat.le_add_right _ _)) vacant

/-! ## The lifetime of a marker -/

/-- By the time of a step the assertion was issued, up to the skew. -/
def Issued (V : Verifier) (events : List V.machine.Event) (issuedAt : UInt64) : Prop :=
  ∃ e ∈ events, issuedAt.toNat ≤ e.before.now / V.second + leeway

/-- The issue time in the claims has been checked. -/
def IssueChecked (V : Verifier) (events : List V.machine.Event) (claims : Value) : Prop :=
  ∀ issuedAt, (claims.get "iat").bind Value.asU64 = some issuedAt → Issued V events issuedAt

/-- From the whole second of some step a lifetime reaches past the expiry with its skew, or to
the end of the clock. -/
def Covers (V : Verifier) (events : List V.machine.Event) (expiresAt : UInt64) (ttl : ℕ) : Prop :=
  ∃ e ∈ events, expiresAt.toNat + leeway < e.before.now / V.second + ttl ∨
    2 ^ 64 ≤ e.before.now / V.second + ttl

/-- The longest lifetime of a marker in seconds. -/
def maxMarkerTtl : ℕ := 2 * leeway + maxAge + 1

/-- What the checks so far say about times. -/
def Pc.Timely (V : Verifier) (events : List V.machine.Event) : Pc → Prop
  | checkTime claims time rest =>
      (rest = ["nbf"] ∧ (claims.get "iat").bind Value.asU64 = some time) ∨
        (rest = [] ∧ IssueChecked V events claims)
  | readClock expiresAt _ =>
      ∃ issuedAt, Issued V events issuedAt ∧ expiresAt.toNat ≤ issuedAt.toNat + maxAge
  | putMarker expiresAt _ ttl _ _ =>
      0 < ttl ∧ ttl ≤ maxMarkerTtl ∧ Covers V events expiresAt ttl
  | _ => True

theorem Issued.mono {events events' : List V.machine.Event} (inside : events ⊆ events')
    {issuedAt : UInt64} (issued : Issued V events issuedAt) : Issued V events' issuedAt := by
  obtain ⟨e, member, young⟩ := issued
  exact ⟨e, inside member, young⟩

theorem Pc.Timely.mono {events events' : List V.machine.Event} (inside : events ⊆ events') {p : Pc}
    (timely : p.Timely V events) : p.Timely V events' := by
  cases p with
  | checkTime claims time rest =>
      rcases timely with first | ⟨last, checked⟩
      · exact .inl first
      · exact .inr ⟨last, fun issuedAt found => (checked issuedAt found).mono inside⟩
  | readClock =>
      obtain ⟨issuedAt, issued, young⟩ := timely
      exact ⟨issuedAt, issued.mono inside, young⟩
  | putMarker =>
      obtain ⟨positive, short, e, member, covers⟩ := timely
      exact ⟨positive, short, e, inside member, covers⟩
  | _ => trivial

variable {events : List V.machine.Event} {verification : Verification} {claims : Value}

theorem timely_checkSingleUse (checked : IssueChecked V events claims) :
    (Verification.checkSingleUse V claims).Timely V events := by
  unfold Verification.checkSingleUse
  split
  · rename_i issuedAt expiresAt jti issued _ _
    split
    · trivial
    · rename_i young
      split
      · refine ⟨issuedAt, checked issuedAt issued, ?_⟩
        simp only [Bool.or_eq_true, decide_eq_true_eq, not_or, UInt64.not_le, gt_iff_lt,
          UInt64.not_lt] at young
        obtain ⟨after, below⟩ := young
        have difference := UInt64.toNat_sub_of_le _ _ (UInt64.le_of_lt after)
        have bound := UInt64.le_iff_toNat_le.mp below
        rw [difference] at bound
        change expiresAt.toNat - issuedAt.toNat ≤ 300 at bound
        simp only [maxAge]
        omega
      · trivial
  · trivial

theorem timely_checkTimes_nil (checked : IssueChecked V events claims) :
    (verification.checkTimes V claims []).Timely V events := by
  unfold Verification.checkTimes
  split
  · split
    · exact timely_checkSingleUse checked
    · trivial
  · trivial

theorem timely_checkTimes_nbf (checked : IssueChecked V events claims) :
    (verification.checkTimes V claims ["nbf"]).Timely V events := by
  unfold Verification.checkTimes
  split
  · exact timely_checkTimes_nil checked
  · split
    · trivial
    · exact .inr ⟨rfl, checked⟩

theorem timely_checkTimes_iat :
    (verification.checkTimes V claims ["iat", "nbf"]).Timely V events := by
  unfold Verification.checkTimes
  split
  · rename_i absent
    apply timely_checkTimes_nbf
    intro issuedAt found
    rw [absent] at found
    cases found
  · rename_i value present
    split
    · trivial
    · rename_i time number
      refine .inl ⟨rfl, ?_⟩
      rw [present]
      exact number

/-- The lifetime of a marker, computed at a reading before which the assertion was issued. -/
theorem markerTtl_bounds {expiresAt issuedAt : UInt64} {now earlier : ℕ} (order : earlier ≤ now)
    (issued : issuedAt.toNat ≤ earlier + leeway) (young : expiresAt.toNat ≤ issuedAt.toNat + maxAge)
    (fits : now < 2 ^ 64) : 0 < Verification.markerTtl expiresAt now ∧
      Verification.markerTtl expiresAt now ≤ maxMarkerTtl ∧
      (expiresAt.toNat + leeway < now + Verification.markerTtl expiresAt now ∨
        2 ^ 64 ≤ now + Verification.markerTtl expiresAt now) := by
  simp only [Verification.markerTtl, saturatingAdd, maxMarkerTtl, leeway, maxAge] at *
  omega

theorem timely_useKey {header : Header} {set : JwkSet} :
    (Verification.useKey header set).Timely V events := by
  unfold Verification.useKey
  split <;> trivial

theorem timely_useKeys {header : Header} {url : Url} {set : JwkSet} :
    (Verification.useKeys header url set).Timely V events := by
  unfold Verification.useKeys
  split
  · exact timely_useKey
  · split
    · trivial
    · exact timely_useKey

theorem timely_start {source : Option ClientJwks} :
    (verification.start V source).Timely V events := by
  unfold Verification.start
  repeat' split
  all_goals first | trivial | exact timely_useKey

/-- **Checks once made stay made, and a step that makes one is remembered.** -/
theorem timely_next {run : List V.machine.Event} {s : V.machine.State} {i : ℕ}
    {delivery : Delivery} {choice : Choice} {name : Name} {p q : Pc}
    (history : ∀ e ∈ run, e.before.now ≤ s.now)
    (clock : choice.reading = s.now / V.second ∧ choice.reading < 2 ^ 64)
    (timely : p.Timely V run)
    (resumed : (verification.await V p).next s.store s.now delivery (answer choice name) = some q) :
    q.Timely V (⟨s, .step i delivery choice⟩ :: run) := by
  cases p with
  | metadata header url =>
      obtain rfl := Await.next_consult resumed
      simp only
      repeat' split
      all_goals trivial
  | jwks header url =>
      obtain rfl := Await.next_consult resumed
      simp only
      split
      · trivial
      · exact timely_useKeys
  | refreshJwks header url kid =>
      obtain rfl := Await.next_consult resumed
      simp only
      split
      · trivial
      · exact timely_useKey
  | decode header jwk =>
      obtain rfl := Await.next_consult resumed
      simp only
      split
      · trivial
      · unfold Verification.checkClaims
        split
        · trivial
        · exact timely_checkTimes_iat
  | checkTime claims time rest =>
      obtain rfl := Await.next_consult resumed
      change Pc.Timely V _ (if time.toNat > saturatingAdd choice.reading leeway then .done false
        else verification.checkTimes V claims rest)
      split
      · trivial
      · rename_i late
        have young := Nat.le_of_not_lt late
        rcases timely with ⟨rfl, first⟩ | ⟨rfl, checked⟩
        · apply timely_checkTimes_nbf
          intro issuedAt found
          rw [first] at found
          cases found
          refine ⟨_, List.mem_cons_self .., ?_⟩
          rw [clock.1] at young
          exact Nat.le_trans young (Nat.min_le_left _ _)
        · apply timely_checkTimes_nil
          exact fun issuedAt found => (checked issuedAt found).mono (List.subset_cons_self ..)
  | readClock expiresAt jti =>
      obtain rfl := Await.next_consult resumed
      obtain ⟨issuedAt, ⟨e, member, issued⟩, young⟩ := timely
      have order : e.before.now / V.second ≤ choice.reading := by
        rw [clock.1]
        exact Nat.div_le_div_right (history e member)
      obtain ⟨positive, short, covers⟩ := markerTtl_bounds order issued young clock.2
      refine ⟨positive, short, _, List.mem_cons_self .., ?_⟩
      rw [clock.1] at covers
      simpa only [answer, clock.1] using covers
  | putMarker =>
      rcases Await.next_putIfAbsent resumed with ⟨_, _, _, rfl⟩ | ⟨_, _, _, rfl⟩ | ⟨_, _, rfl⟩
      · trivial
      · trivial
      · trivial
  | done => cases resumed

variable {s : V.machine.State}

/-- **The markers that are written are timely.** -/
theorem timely (run : V.machine.Runs (OneClock V) events s) {i : ℕ} {t : Thread Call}
    (there : s.threads[i]? = some t) : t.call.pc.Timely V events := by
  refine run.thread_invariant (I := fun es _ (t : Thread Call) => t.call.pc.Timely V es)
    ?_ ?_ ?_ there
  · intro e es i t earlier _
    exact earlier.mono (List.subset_cons_self ..)
  · intro es s input _
    simp only [Call.start]
    split
    · trivial
    · exact timely_start
  · intro es s i delivery choice t call run permitted _ earlier resumed
    simp only [Call.await, Await.next_map, Option.map_eq_some_iff] at resumed
    obtain ⟨q, resumed, rfl⟩ := resumed
    exact timely_next (fun e member => run.now_le member) (permitted i delivery choice rfl) earlier
      resumed

/-! ## Who is accepted -/

theorem useKey_ne_accepted {header : Header} {set : JwkSet} :
    Verification.useKey header set ≠ .done true := by
  unfold Verification.useKey
  split <;> simp

theorem checkSingleUse_ne_accepted : Verification.checkSingleUse V claims ≠ .done true := by
  unfold Verification.checkSingleUse
  repeat' split
  all_goals simp

theorem checkTimes_ne_accepted (single : verification.requireSingleUse = true) :
    ∀ names, verification.checkTimes V claims names ≠ .done true := by
  intro names
  induction names with
  | nil =>
      unfold Verification.checkTimes
      rw [if_pos single]
      split
      · exact checkSingleUse_ne_accepted
      · simp
  | cons name rest ih =>
      unfold Verification.checkTimes
      split
      · exact ih
      · split <;> simp

theorem start_ne_accepted {source : Option ClientJwks} :
    verification.start V source ≠ .done true := by
  unfold Verification.start
  repeat' split
  all_goals first | exact useKey_ne_accepted | simp

/-- A single-use assertion is accepted by the store's answer. -/
theorem next_accepted {delivery : Delivery} {choice : Choice} {name : Name} {p : Pc}
    (single : verification.requireSingleUse = true)
    (resumed : (verification.await V p).next s.store s.now delivery (answer choice name) =
      some (.done true)) :
    delivery = .answered ∧ ∃ expiresAt jti ttl marker longer,
      p = .putMarker expiresAt jti ttl marker longer ∧
        s.store.live s.now (V.markerKey (verification.identity jti)) = none := by
  cases p with
  | metadata header url =>
      have target := Await.next_consult resumed
      repeat' split at target
      all_goals cases target
  | jwks header url =>
      have target := Await.next_consult resumed
      split at target
      · cases target
      · unfold Verification.useKeys at target
        repeat' split at target
        all_goals first | exact absurd target.symm useKey_ne_accepted | cases target
  | refreshJwks header url kid =>
      have target := Await.next_consult resumed
      split at target
      · cases target
      · exact absurd target.symm useKey_ne_accepted
  | decode header jwk =>
      have target := Await.next_consult resumed
      split at target
      · cases target
      · unfold Verification.checkClaims at target
        split at target
        · cases target
        · exact absurd target.symm (checkTimes_ne_accepted single _)
  | checkTime claims time rest =>
      have target := Await.next_consult resumed
      change _ = (if time.toNat > saturatingAdd choice.reading leeway then .done false
        else verification.checkTimes V claims rest) at target
      split at target
      · cases target
      · exact absurd target.symm (checkTimes_ne_accepted single _)
  | readClock expiresAt jti => cases Await.next_consult resumed
  | putMarker expiresAt jti ttl marker longer =>
      rcases Await.next_putIfAbsent resumed with ⟨_, answered, vacant, _⟩ | ⟨_, _, _, target⟩ |
        ⟨_, _, target⟩
      · exact ⟨answered, _, _, _, _, _, rfl, vacant⟩
      · cases target
      · cases target
  | done => cases resumed

/-- **A single-use assertion is accepted in the step that stores its marker.** -/
theorem accepts_of_done (run : V.machine.Runs (OneClock V) events s) {i steps since : ℕ}
    (there : s.threads[i]? = some ⟨⟨verification, .done true⟩, steps, since⟩)
    (single : verification.requireSingleUse = true) :
    ∃ e ∈ events, ∃ expiresAt jti, Accepts e i verification expiresAt jti := by
  refine run.thread_invariant
    (I := fun es i (t : Thread Call) => t.call = ⟨verification, .done true⟩ →
      ∃ e ∈ es, ∃ expiresAt jti, Accepts e i verification expiresAt jti) ?_ ?_ ?_ there rfl
  · intro e es i t earlier _ accepted
    obtain ⟨e₀, member, accepts⟩ := earlier accepted
    exact ⟨e₀, List.mem_cons_of_mem _ member, accepts⟩
  · intro es s input _ accepted
    simp only [Call.start] at accepted
    split at accepted
    · cases accepted
    · injection accepted with _ started
      exact absurd started start_ne_accepted
  · intro es s i delivery choice t call run _ there _ resumed accepted
    subst accepted
    obtain ⟨⟨verification', p⟩, steps, since⟩ := t
    simp only [Call.await, Await.next_map, Option.map_eq_some_iff] at resumed
    obtain ⟨q, resumed, same⟩ := resumed
    injection same with equal target
    subst equal target
    obtain ⟨rfl, expiresAt, jti, ttl, marker, longer, rfl, vacant⟩ := next_accepted single resumed
    have positive := (timely run there).1
    exact ⟨_, List.mem_cons_self .., expiresAt, jti, ttl, marker, longer, choice,
      ⟨_, ⟨there, .answered, choice, rfl⟩, rfl⟩, rfl, positive, vacant⟩

/-! ## Runs -/

/-- **A marker outlasts the period in which its assertion is valid**, as the next acceptance of
the assertion finds. -/
theorem not_accepts_again {later earlier : List V.machine.Event} {e₁ e₂ : V.machine.Event}
    (run : V.machine.Runs (OneClock V) (later ++ e₂ :: earlier) s) (older : e₁ ∈ earlier)
    {i j : ℕ} {verification verification' : Verification} {expiresAt : UInt64} {jti : String}
    (accepts₁ : Accepts e₁ i verification expiresAt jti)
    (accepts₂ : Accepts e₂ j verification' expiresAt jti)
    (same : verification.identity jti = verification'.identity jti) : ¬ InPeriod e₂ expiresAt := by
  intro period
  have run₂ := run.split.1
  obtain ⟨between, before, rfl⟩ := List.mem_iff_append.mp older
  obtain ⟨ttl, marker, longer, step, change⟩ := accepts₁.change
  obtain ⟨t, by₁, call⟩ := step
  have run₁ := run₂.split.1
  have checked := timely run₁ by₁.1
  rw [call] at checked
  obtain ⟨_, _, e₀, member, covers⟩ := checked
  obtain ⟨entry, there, lasts⟩ := run₂.heldUntil change fun e' _ => fills e' _
  -- the marker is expired when the second presentation stores its own
  obtain ⟨_, _, _, choice, _, label, _, vacant⟩ := accepts₂
  have expired : entry.expires ≤ e₂.before.now := by
    by_contra live
    rw [← same, Store.live_of_entry there (Nat.lt_of_not_le live)] at vacant
    cases vacant
  obtain ⟨clock, fits⟩ := run.split.2.1 j .answered choice label
  have begun : e₀.before.now / V.second * V.second ≤ e₁.before.now :=
    Nat.le_trans (Nat.div_mul_le_self _ _) (run₁.now_le member)
  have past : e₀.before.now / V.second + ttl ≤ e₂.before.now / V.second := by
    rw [Nat.le_div_iff_mul_le V.positive, Nat.add_mul]
    omega
  rw [clock] at fits
  unfold InPeriod at period
  omega

/-- **A single-use client assertion is accepted at most once.** -/
structure SingleUse (V : Verifier) (events : List V.machine.Event) (s : V.machine.State) :
    Prop where
  /-- Whoever is accepted has stored the marker of the assertion. -/
  accepted : ∀ i verification steps since,
    s.threads[i]? = some ⟨⟨verification, .done true⟩, steps, since⟩ →
    verification.requireSingleUse = true →
    ∃ e ∈ events, ∃ expiresAt jti, Accepts e i verification expiresAt jti
  /-- In the period in which an assertion is valid one presentation of it is accepted. -/
  once : ∀ e₁ ∈ events, ∀ e₂ ∈ events, ∀ i j verification verification' expiresAt jti,
    Accepts e₁ i verification expiresAt jti → Accepts e₂ j verification' expiresAt jti →
    verification.identity jti = verification'.identity jti →
    InPeriod e₁ expiresAt → InPeriod e₂ expiresAt → i = j
  /-- The lifetime of a marker is neither zero nor long, and reaches past that period. -/
  bounded : ∀ e ∈ events, ∀ i verification expiresAt jti ttl marker longer,
    At e i verification (.putMarker expiresAt jti ttl marker longer) →
    0 < ttl ∧ ttl ≤ maxMarkerTtl ∧ Covers V events expiresAt ttl
  /-- Assertions that differ in issuer, subject, audience or id have different markers. -/
  separate : ∀ p q : Identity, p ≠ q →
    (V.digest p.bytes = V.digest q.bytes → p.bytes = q.bytes) → V.markerKey p ≠ V.markerKey q

/-- **A single-use client assertion is accepted at most once.** -/
theorem accepted_once (run : V.machine.Runs (OneClock V) events s) : SingleUse V events s where
  accepted i verification steps since there single := accepts_of_done run there single
  once := by
    intro e₁ member₁ e₂ member₂ i j verification verification' expiresAt jti accepts₁ accepts₂ same
      period₁ period₂
    rcases mem_before member₁ member₂ with rfl | ⟨later, earlier, rfl, older⟩ |
      ⟨later, earlier, rfl, older⟩
    · obtain ⟨_, _, _, _, ⟨_, by₁, _⟩, _⟩ := accepts₁
      obtain ⟨_, _, _, _, ⟨_, by₂, _⟩, _⟩ := accepts₂
      exact by₁.index_eq by₂
    · exact absurd period₁ (not_accepts_again run older accepts₂ accepts₁ same.symm)
    · exact absurd period₂ (not_accepts_again run older accepts₁ accepts₂ same)
  bounded e member i verification expiresAt jti ttl marker longer step := by
    obtain ⟨earlier, run₀, _, inside⟩ := run.of_mem member
    obtain ⟨⟨call, steps, since⟩, by₁, rfl⟩ := step
    obtain ⟨positive, short, e₀, older, covers⟩ := timely run₀ by₁.1
    exact ⟨positive, short, e₀, inside older, covers⟩
  separate p q differ collisionFree := markerKey_ne differ collisionFree

/-! ## An assertion that is presented twice -/

/-- A deployment with a clock in milliseconds, where every key set has one key. -/
def sampleVerifier : Verifier where
  second := 1000
  positive := by decide
  hasStore := true
  parseUrl _ := none
  decodeHeader _ := some ⟨.rs256, none⟩
  jwkSet _ := some [⟨none, []⟩]
  digest bytes := String.ofList (bytes.map fun byte => Char.ofNat byte.toNat)

def sampleInput : Input where
  clientAuth := ⟨true, "id", none, none, none, some (.inline .null)⟩
  tokenEndpoint := "url"
  form := ⟨some "id", some jwtBearer, some "jwt"⟩

/-- The claims of an assertion that is valid for five minutes from the hundredth second on. -/
def sampleClaims : Value :=
  .object [("iss", .string "id"), ("sub", .string "id"), ("aud", .array [.string "url"]),
    ("iat", .number (some 100)), ("exp", .number (some 400)), ("jti", .string "jti")]

/-- The library accepts the assertion, and the clock is at this second. -/
def sampleChoice (reading : ℕ) : Choice := ⟨none, none, some sampleClaims, reading, 0⟩

/-- The steps of a presentation in one second. -/
def presentation (i reading : ℕ) : List sampleVerifier.machine.Lbl :=
  .begin sampleInput :: List.replicate 4 (.step i .answered (sampleChoice reading))

/-- Whether all calls read the store's clock. -/
def onClock (s : sampleVerifier.machine.State) : sampleVerifier.machine.Lbl → Bool
  | .step _ _ choice => choice.reading = s.now / 1000 && choice.reading < 2 ^ 64
  | _ => true

theorem oneClock_of_onClock (events : List sampleVerifier.machine.Event)
    (s : sampleVerifier.machine.State) (label : sampleVerifier.machine.Lbl)
    (h : onClock s label = true) : OneClock sampleVerifier events s label := by
  rintro i delivery choice rfl
  simpa [onClock, sampleVerifier] using h

/-- The answer of a call, if it has one. -/
def verdict? (s : sampleVerifier.machine.State) (i : ℕ) : Option Bool :=
  match s.threads[i]? with
  | some ⟨⟨_, .done accepted⟩, _, _⟩ => some accepted
  | _ => none

/-- An assertion is presented as soon as it is valid, and again in its last second, the skew
included. -/
theorem accepted_once_of_twice : ∃ events s,
    sampleVerifier.machine.Runs (OneClock sampleVerifier) events s ∧
      s.now = 460999 ∧ verdict? s 0 = some true ∧ verdict? s 1 = some false ∧
      SingleUse sampleVerifier events s := by
  obtain ⟨events, s, run, now, first, second⟩ := Runs.exists_of_replay oneClock_of_onClock
    ([.tick 40000] ++ presentation 0 40 ++ [.tick 420999] ++ presentation 1 460)
    (fun _ s => s.now = 460999 ∧ verdict? s 0 = some true ∧ verdict? s 1 = some false)
    (by decide +kernel)
  exact ⟨events, s, run, now, first, second, accepted_once run⟩

end OAuthRelay.Assertions
