import OAuthRelay.Async.History
import OAuthRelay.Rotation.Protocol

/-!
# Steps of a call

What one step of a call can do, said once. `Edge` lists from which state a refresh goes on
to which, with what the step has learned on the way; `Alters` lists the states that change
the store, with the change. Every invariant of the protocol is proved from these two
lists, not from the definition of the await.
-/

set_option autoImplicit false

namespace OAuthRelay.Rotation

open OAuthRelay.Async

/-! ## Parts of a state -/

namespace Pc

/-- Before the claim is held. -/
def Seeking : Pc → Prop
  | load | openRecord _ | readClock _ | isRevoked .. | loadGrace _ | openGrace .. | readElapsed
  | sleep | claim .. | sealClaim .. | swapClaim .. => True
  | _ => False

/-- The rotation a call is preparing, before its final swap. -/
def preparing? : Pc → Option Attempt
  | sealResponse attempt | putResponse attempt _ | sealSuccessor attempt
  | putSuccessor attempt _ | sealRotated attempt => some attempt
  | _ => none

/-- The rotation a call is preparing or has made. -/
def attempt? : Pc → Option Attempt
  | sealResponse attempt | putResponse attempt _ | sealSuccessor attempt
  | putSuccessor attempt _ | sealRotated attempt | swapRotated attempt _ | swapHead attempt
  | isRevokedInFlight attempt => some attempt
  | _ => none

/-- The claim a call holds and may still use. -/
def claim? : Pc → Option Claim
  | askUpstream held | commit held .. | isRevokedLost held | discard _ _ (.failed held _)
  | discard _ _ (.lost held) | sealRelease held _ | releaseClock held .. | swapRelease held .. =>
      some held
  | sealResponse attempt | putResponse attempt _ | sealSuccessor attempt
  | putSuccessor attempt _ | sealRotated attempt | swapRotated attempt _ | swapHead attempt
  | isRevokedInFlight attempt => some attempt.claim
  | _ => none

/-- The revocation a call is carrying out. -/
def revocation? : Pc → Option Revocation
  | revoke revocation | putMarker revocation .. | getHead revocation | erase revocation ..
  | openErased revocation .. | deleteErased revocation .. => some revocation
  | _ => none

/-- The lifetime of what a call is about to write, where the store may reject it. -/
def ttl? : Pc → Option ℕ
  | swapClaim _ _ ttl | putMarker _ ttl _ => some ttl
  | swapRotated attempt _ => some attempt.familyTtl
  | _ => none

/-- The revocation of a call that is erasing, after it has written the marker. -/
def erasing? : Pc → Option Revocation
  | getHead revocation | erase revocation .. | openErased revocation ..
  | deleteErased revocation .. => some revocation
  | _ => none

end Pc

/-! ## From state to state -/

section Edge

variable (R : Rotator) (h : Name) (σ : Store Key Value) (now : ℕ) (delivery : Delivery)
  (choice : Choice) (name : Name)

/-- The store or the sealer does not do what it is asked. -/
def Faulty (delivery : Delivery) (choice : Choice) : Prop :=
  delivery ≠ .answered ∨ choice.sealer ≠ .works

/-- Why a refresh ends without a response. -/
inductive Refusal : Pc → RefreshOutcome → Prop where
  | fault {p : Pc} {outcome : RefreshOutcome} (faulty : Faulty delivery choice) :
      Refusal p outcome
  | invalid {p : Pc} {outcome : RefreshOutcome} (zero : p.ttl? = some 0) : Refusal p outcome
  | unopenable {bytes : Value}
      (foreign : ∀ record nonce, bytes ≠ .sealed .record (.handle h) (.record record) nonce) :
      Refusal (.openRecord bytes) .invalidGrant
  | unopenableGrace {claimId : Name} {bytes : Value}
      (foreign : ∀ response nonce,
        bytes ≠ .sealed .grace (.grace h claimId) (.response response) nonce) :
      Refusal (.openGrace claimId bytes) .invalidGrant
  | absent (gone : σ.live now (.handle h) = none) : Refusal .load .invalidGrant
  | expired {loaded : Loaded} (lapsed : loaded.record.familyExpiresMs ≤ choice.reading) :
      Refusal (.readClock loaded) .invalidGrant
  | revoked {loaded : Loaded} {reading : ℕ} {marker : Value}
      (live : σ.live now (.revoked loaded.record.familyId) = some marker) :
      Refusal (.isRevoked loaded reading) .invalidGrant
  | late : Refusal .readElapsed .unavailable
  | lost {held : Claim} (unrevoked : σ.live now (.revoked held.familyId) = none) :
      Refusal (.isRevokedLost held) .unavailable
  | lostRevoked {held : Claim} {marker : Value}
      (live : σ.live now (.revoked held.familyId) = some marker) :
      Refusal (.isRevokedLost held) .invalidGrant
  | discarded {key : Key} : Refusal (.discard key [] .revoked) .invalidGrant

/-- Why a refresh looks again later. -/
inductive Waits : Pc → Prop where
  | claimed {loaded : Loaded} {reading claimedMs : ℕ} {token : String} {claimId : Name}
      (unrevoked : σ.live now (.revoked loaded.record.familyId) = none)
      (state : loaded.record.state = .claimed token claimId claimedMs)
      (young : reading - claimedMs ≤ R.timing.claimLease) : Waits (.isRevoked loaded reading)
  | unrecorded {claimId : Name} (gone : σ.live now (.grace h claimId) = none) :
      Waits (.loadGrace claimId)
  | expired {loaded : Loaded} {token : String}
      (lapsed : loaded.record.familyExpiresMs ≤ choice.reading) : Waits (.claim loaded token)
  | beaten {loaded : Loaded} {held : Claim} {ttl : ℕ}
      (gone : σ.live now (.handle h) ≠ some loaded.bytes) : Waits (.swapClaim loaded held ttl)

/-- The state goes on erasing from these keys. -/
inductive Erases : Pc → List Key → Prop where
  | starts {revocation : Revocation} {head : Option Value}
      (read : σ.live now (.head revocation.familyId) = head) :
      Erases (.getHead revocation) (eraseStarts (head.bind Value.asKey) revocation.knownKey)
  | absent {revocation : Revocation} {key : Key} {hop : ℕ} {rest : List Key}
      (gone : σ.live now key = none) : Erases (.erase revocation key hop rest) rest
  | tolerated {revocation : Revocation} {key : Key} {hop : ℕ} {rest : List Key} {bytes : Value}
      (down : choice.sealer ≠ .works) : Erases (.openErased revocation key hop rest bytes) rest
  | limit {revocation : Revocation} {key : Key} {hop : ℕ} {rest : List Key} {bytes : Value}
      (last : maxEraseHops ≤ hop + 1) : Erases (.openErased revocation key hop rest bytes) rest
  | deleted {revocation : Revocation} {key : Key} {rest : List Key} :
      Erases (.deleteErased revocation key rest) rest

/-- A refresh goes on from one state to another, in a step with this store, clock,
delivery, choice and name. -/
inductive Edge : Pc → Pc → Prop where
  | refuse {p : Pc} {outcome : RefreshOutcome} (noResponse : ∀ r, outcome ≠ .response r)
      (reason : Refusal h σ now delivery choice p outcome) : Edge p (.done outcome)
  | wait {p : Pc} (seeking : p.Seeking) (reason : Waits R h σ now choice p) : Edge p .readElapsed
  | pause : Edge .readElapsed .sleep
  | again : Edge .sleep .load
  | loaded {bytes : Value} (live : σ.live now (.handle h) = some bytes) :
      Edge .load (.openRecord bytes)
  | opened {record : Record} {nonce : Name} :
      Edge (.openRecord (.sealed .record (.handle h) (.record record) nonce))
        (.readClock ⟨.sealed .record (.handle h) (.record record) nonce, record⟩)
  | unexpired {loaded : Loaded} (before : choice.reading < loaded.record.familyExpiresMs) :
      Edge (.readClock loaded) (.isRevoked loaded choice.reading)
  | free {loaded : Loaded} {reading : ℕ} {token : String}
      (unrevoked : σ.live now (.revoked loaded.record.familyId) = none)
      (state : loaded.record.state = .active token) :
      Edge (.isRevoked loaded reading) (.claim loaded token)
  | abandoned {loaded : Loaded} {reading claimedMs : ℕ} {token : String} {claimId : Name}
      (unrevoked : σ.live now (.revoked loaded.record.familyId) = none)
      (state : loaded.record.state = .claimed token claimId claimedMs)
      (old : R.timing.claimLease < reading - claimedMs) :
      Edge (.isRevoked loaded reading) (.claim loaded token)
  | replay {loaded : Loaded} {reading rotatedMs : ℕ} {claimId : Name} {key : Key}
      (unrevoked : σ.live now (.revoked loaded.record.familyId) = none)
      (state : loaded.record.state = .rotated rotatedMs claimId key)
      (within : reading - rotatedMs ≤ R.grace) :
      Edge (.isRevoked loaded reading) (.loadGrace claimId)
  | reuse {loaded : Loaded} {reading rotatedMs : ℕ} {claimId : Name} {key : Key}
      (unrevoked : σ.live now (.revoked loaded.record.familyId) = none)
      (state : loaded.record.state = .rotated rotatedMs claimId key)
      (late : R.grace < reading - rotatedMs) :
      Edge (.isRevoked loaded reading)
        (.revoke ⟨loaded.record.familyId, loaded.record.familyExpiresMs, .handle h,
          .invalidGrant⟩)
  | recorded {claimId : Name} {bytes : Value} (live : σ.live now (.grace h claimId) = some bytes) :
      Edge (.loadGrace claimId) (.openGrace claimId bytes)
  | replayed {claimId nonce : Name} {response : StoredResponse} :
      Edge (.openGrace claimId (.sealed .grace (.grace h claimId) (.response response) nonce))
        (.done (.response response))
  | claim {loaded : Loaded} {token : String} {ttl : ℕ}
      (left : ttlUntil loaded.record.familyExpiresMs choice.reading = some ttl) :
      Edge (.claim loaded token) (.sealClaim loaded token name choice.reading ttl)
  | sealClaim {loaded : Loaded} {token : String} {claimId : Name} {reading ttl : ℕ} :
      Edge (.sealClaim loaded token claimId reading ttl)
        (.swapClaim loaded
          ⟨.sealed .record (.handle h) (.record (claimedRecord loaded token claimId reading)) name,
            claimId, token, loaded.record.familyId, loaded.record.familyExpiresMs⟩ ttl)
  | claimed {loaded : Loaded} {held : Claim} {ttl : ℕ} (positive : 0 < ttl)
      (answered : delivery = .answered) (live : σ.live now (.handle h) = some loaded.bytes) :
      Edge (.swapClaim loaded held ttl) (.askUpstream held)
  | unsuccessful {held : Claim} {outcome : RefreshOutcome}
      (failure : ∀ r, outcome = .response r → r.isSuccess = false) :
      Edge (.askUpstream held) (.sealRelease held outcome)
  | invalidGrant {held : Claim} {response : StoredResponse} (reply : choice.reply = .ok response)
      (invalid : R.json.isInvalidGrant response = true) :
      Edge (.askUpstream held)
        (.revoke ⟨held.familyId, held.familyExpiresMs, .handle h, .response response⟩)
  | succeeded {held : Claim} {token : String} {reply : StoredResponse} {body : List UInt8}
      (success : reply.isSuccess = true)
      (named : R.json.withRefreshToken reply.status reply.body (R.handleText name) = some body) :
      Edge (.askUpstream held) (.commit held name token { reply with body := body })
  | expired {held : Claim} {successorHandle : Name} {token : String} {response : StoredResponse}
      (lapsed : held.familyExpiresMs ≤ choice.reading) :
      Edge (.commit held successorHandle token response) (.isRevokedLost held)
  | commit {held : Claim} {successorHandle : Name} {token : String} {response : StoredResponse}
      {ttl : ℕ} (left : ttlUntil held.familyExpiresMs choice.reading = some ttl) :
      Edge (.commit held successorHandle token response)
        (.sealResponse ⟨held, successorHandle, token, response, choice.reading, ttl⟩)
  | sealResponse {attempt : Attempt} :
      Edge (.sealResponse attempt)
        (.putResponse attempt (.sealed .grace (.grace h attempt.claim.claimId)
          (.response attempt.response) name))
  | putResponse {attempt : Attempt} {sealed : Value} (positive : 0 < attempt.graceTtl R)
      (answered : delivery = .answered)
      (vacant : σ.live now (.grace h attempt.claim.claimId) = none) :
      Edge (.putResponse attempt sealed) (.sealSuccessor attempt)
  | sealSuccessor {attempt : Attempt} :
      Edge (.sealSuccessor attempt)
        (.putSuccessor attempt
          (.sealed .record attempt.successorKey (.record attempt.successor) name))
  | putSuccessor {attempt : Attempt} {successor : Value} (positive : 0 < attempt.familyTtl)
      (answered : delivery = .answered) (vacant : σ.live now attempt.successorKey = none) :
      Edge (.putSuccessor attempt successor) (.sealRotated attempt)
  | sealRotated {attempt : Attempt} :
      Edge (.sealRotated attempt)
        (.swapRotated attempt (.sealed .record (.handle h) (.record attempt.rotated) name))
  | unprepared {p : Pc} {attempt : Attempt} {fault : Fault}
      (preparing : p.preparing? = some attempt) :
      Edge p (.discard (.grace h attempt.claim.claimId) [attempt.successorKey]
        (.failed attempt.claim fault))
  | rotated {attempt : Attempt} {rotated : Value} (positive : 0 < attempt.familyTtl)
      (answered : delivery = .answered)
      (live : σ.live now (.handle h) = some attempt.claim.bytes) :
      Edge (.swapRotated attempt rotated) (.swapHead attempt)
  | lost {attempt : Attempt} {rotated : Value}
      (gone : σ.live now (.handle h) ≠ some attempt.claim.bytes) :
      Edge (.swapRotated attempt rotated)
        (.discard (.grace h attempt.claim.claimId) [attempt.successorKey] (.lost attempt.claim))
  | advanced {attempt : Attempt} : Edge (.swapHead attempt) (.isRevokedInFlight attempt)
  | inFlight {attempt : Attempt} {marker : Value}
      (live : σ.live now (.revoked attempt.claim.familyId) = some marker) :
      Edge (.isRevokedInFlight attempt)
        (.discard (.grace h attempt.claim.claimId) [attempt.successorKey] .revoked)
  | finished {attempt : Attempt} (answered : delivery = .answered)
      (unrevoked : σ.live now (.revoked attempt.claim.familyId) = none) :
      Edge (.isRevokedInFlight attempt) (.done (.response attempt.response))
  | discard {key key' : Key} {rest : List Key} {after : AfterDiscard} :
      Edge (.discard key (key' :: rest) after) (.discard key' rest after)
  | failed {key : Key} {held : Claim} {fault : Fault} :
      Edge (.discard key [] (.failed held fault)) (.sealRelease held fault.outcome)
  | discardedLost {key : Key} {held : Claim} :
      Edge (.discard key [] (.lost held)) (.isRevokedLost held)
  | sealRelease {held : Claim} {outcome : RefreshOutcome} {released : Except Fault Value}
      (sealed : ∀ bytes, released = .ok bytes →
        bytes = .sealed .record (.handle h) (.record held.released) name) :
      Edge (.sealRelease held outcome) (.releaseClock held released outcome)
  | release {held : Claim} {bytes : Value} {outcome : RefreshOutcome} {ttl : ℕ}
      (left : ttlUntil held.familyExpiresMs choice.reading = some ttl) :
      Edge (.releaseClock held (.ok bytes) outcome) (.swapRelease held bytes ttl outcome)
  | unreleased {held : Claim} {released : Except Fault Value} {outcome : RefreshOutcome} :
      Edge (.releaseClock held released outcome) (.done outcome)
  | released {held : Claim} {bytes : Value} {outcome : RefreshOutcome} {ttl : ℕ} :
      Edge (.swapRelease held bytes ttl outcome) (.done outcome)
  | revoke {revocation : Revocation} {ttl : ℕ}
      (left : ttlUntil revocation.familyExpiresMs choice.reading = some ttl) :
      Edge (.revoke revocation) (.putMarker revocation ttl name)
  | marked {revocation : Revocation} {ttl : ℕ} {marker : Name} (positive : 0 < ttl)
      (answered : delivery = .answered) :
      Edge (.putMarker revocation ttl marker) (.getHead revocation)
  | erase {p : Pc} {revocation : Revocation} {key : Key} {rest : List Key}
      (erasing : p.erasing? = some revocation) (next : Erases σ now choice p (key :: rest)) :
      Edge p (.erase revocation key 0 rest)
  | follow {revocation : Revocation} {key successorKey : Key} {hop rotatedMs : ℕ}
      {rest : List Key} {record : Record} {claimId nonce : Name}
      (state : record.state = .rotated rotatedMs claimId successorKey)
      (below : hop + 1 < maxEraseHops) :
      Edge (.openErased revocation key hop rest (.sealed .record key (.record record) nonce))
        (.erase revocation successorKey (hop + 1) rest)
  | openErased {revocation : Revocation} {key : Key} {hop : ℕ} {rest : List Key} {bytes : Value}
      (live : σ.live now key = some bytes) :
      Edge (.erase revocation key hop rest) (.openErased revocation key hop rest bytes)
  | deleteErased {revocation : Revocation} {key : Key} {hop : ℕ} {rest : List Key}
      {bytes : Value} :
      Edge (.openErased revocation key hop rest bytes) (.deleteErased revocation key rest)
  | revoked {p : Pc} {revocation : Revocation} (revoking : p.revocation? = some revocation)
      (lapsed : (p = .revoke revocation ∧ revocation.familyExpiresMs ≤ choice.reading) ∨
        Erases σ now choice p []) : Edge p (.done revocation.answer)

variable {R h σ now delivery choice name}

theorem Fault.outcome_ne_response (fault : Fault) (r : StoredResponse) :
    fault.outcome ≠ .response r := by
  cases fault <;> simp [Fault.outcome]

theorem Edge.fails {p : Pc} {fault : Fault}
    (reason : Refusal h σ now delivery choice p fault.outcome) :
    Edge R h σ now delivery choice name p (Pc.fail fault) :=
  .refuse fault.outcome_ne_response reason

theorem Edge.of_handleState {loaded : Loaded} {reading : ℕ}
    (unrevoked : σ.live now (.revoked loaded.record.familyId) = none) :
    Edge R h σ now delivery choice name (.isRevoked loaded reading)
      (Pc.handleState R h loaded reading) := by
  unfold Pc.handleState
  cases state : loaded.record.state with
  | active token => exact .free unrevoked state
  | claimed token claimId claimedMs =>
      simp only
      split
      · rename_i old
        exact .abandoned unrevoked state old
      · rename_i young
        exact .wait trivial (.claimed unrevoked state (Nat.le_of_not_lt young))
  | rotated rotatedMs claimId key =>
      simp only
      split
      · rename_i within
        exact .replay unrevoked state within
      · rename_i late
        exact .reuse unrevoked state (Nat.lt_of_not_le late)

theorem Edge.of_handleReply {held : Claim} :
    Edge R h σ now delivery choice name (.askUpstream held)
      (Pc.handleReply R h held name choice.reply) := by
  cases reply : choice.reply with
  | error failure => exact .unsuccessful (by simp)
  | ok response =>
      simp only [Pc.handleReply]
      split
      · rename_i invalid
        exact .invalidGrant reply invalid
      · split
        · rename_i success
          split
          · exact .unsuccessful (by simp)
          · rename_i body named
            exact .succeeded success named
        · rename_i failure
          exact .unsuccessful fun r same => by
            cases same
            simpa using failure

theorem Edge.of_eraseNext {p : Pc} {revocation : Revocation}
    (erasing : p.erasing? = some revocation)
    (revoking : p.revocation? = some revocation) {keys : List Key}
    (next : Erases σ now choice p keys) :
    Edge R h σ now delivery choice name p (eraseNext revocation keys) := by
  cases keys with
  | nil => exact .revoked revoking (.inr next)
  | cons key rest => exact .erase erasing next

/-- **A refresh goes on along an edge.** -/
theorem edge_of_next {p q : Pc}
    (resumed : (p.await R h).next σ now delivery (answer choice name) = some q) :
    Edge R h σ now delivery choice name p q := by
  cases p with
  | load =>
      rcases Await.next_get resumed with ⟨_, rfl⟩ | ⟨unanswered, error, rfl⟩
      · cases live : σ.live now (.handle h) with
        | none => exact .refuse (by simp) (.absent live)
        | some bytes => exact .loaded live
      · exact .fails (.fault (.inl unanswered))
  | openRecord bytes =>
      obtain rfl := Await.next_consult resumed
      simp only [answer]
      cases opened : openValue choice.sealer .record (.handle h) bytes with
      | error fault =>
          rcases openValue_eq_error opened with down | ⟨rfl, foreign⟩
          · exact .fails (.fault (.inr down))
          · exact .fails (.unopenable fun record nonce => foreign _ nonce)
      | ok plain =>
          obtain ⟨nonce, rfl⟩ := openValue_eq_ok opened
          cases plain with
          | record record => exact .opened
          | response response => exact .fails (.unopenable (by simp))
  | readClock loaded =>
      obtain rfl := Await.next_consult resumed
      by_cases lapsed : choice.reading ≥ loaded.record.familyExpiresMs
      · simpa [answer, lapsed] using Edge.refuse (by simp) (.expired lapsed)
      · simpa [answer, lapsed] using Edge.unexpired (Nat.lt_of_not_le lapsed)
  | isRevoked loaded reading =>
      rcases Await.next_get resumed with ⟨_, rfl⟩ | ⟨unanswered, error, rfl⟩
      · cases live : σ.live now (.revoked loaded.record.familyId) with
        | none => exact .of_handleState live
        | some marker => exact .refuse (by simp) (.revoked live)
      · exact .fails (.fault (.inl unanswered))
  | loadGrace claimId =>
      rcases Await.next_get resumed with ⟨_, rfl⟩ | ⟨unanswered, error, rfl⟩
      · cases live : σ.live now (.grace h claimId) with
        | none => exact .wait trivial (.unrecorded live)
        | some bytes => exact .recorded live
      · exact .fails (.fault (.inl unanswered))
  | openGrace claimId bytes =>
      obtain rfl := Await.next_consult resumed
      simp only [answer]
      cases opened : openValue choice.sealer .grace (.grace h claimId) bytes with
      | error fault =>
          rcases openValue_eq_error opened with down | ⟨rfl, foreign⟩
          · exact .fails (.fault (.inr down))
          · exact .fails (.unopenableGrace fun response nonce => foreign _ nonce)
      | ok plain =>
          obtain ⟨nonce, rfl⟩ := openValue_eq_ok opened
          cases plain with
          | record record => exact .fails (.unopenableGrace (by simp))
          | response response => exact .replayed
  | readElapsed =>
      obtain rfl := Await.next_consult resumed
      by_cases lapsed : choice.elapsed ≥ R.timing.resolveWait
      · simpa [answer, lapsed] using Edge.refuse (by simp) .late
      · simpa [answer, lapsed] using Edge.pause
  | sleep =>
      obtain rfl := Await.next_consult resumed
      exact .again
  | claim loaded token =>
      obtain rfl := Await.next_consult resumed
      simp only [answer]
      cases left : ttlUntil loaded.record.familyExpiresMs choice.reading with
      | none => exact .wait trivial (.expired (ttlUntil_eq_none_iff.mp left))
      | some ttl => exact .claim left
  | sealClaim loaded token claimId reading ttl =>
      obtain rfl := Await.next_consult resumed
      simp only [answer]
      cases done : sealValue choice.sealer .record (.handle h)
          (.record (claimedRecord loaded token claimId reading)) name with
      | error fault => exact .fails (.fault (.inr (sealValue_eq_error done)))
      | ok bytes =>
          obtain rfl := sealValue_eq_ok done
          exact .sealClaim
  | swapClaim loaded held ttl =>
      rcases Await.next_compareAndSwap resumed with ⟨positive, answered, live, rfl⟩ |
        ⟨_, _, gone, rfl⟩ | ⟨zero | unanswered, error, rfl⟩
      · exact .claimed positive answered live
      · exact .wait trivial (.beaten gone)
      · exact .fails (.invalid (by rw [Pc.ttl?, zero]))
      · exact .fails (.fault (.inl unanswered))
  | askUpstream held =>
      obtain rfl := Await.next_consult resumed
      exact .of_handleReply
  | commit held successorHandle token response =>
      obtain rfl := Await.next_consult resumed
      simp only [answer]
      cases left : ttlUntil held.familyExpiresMs choice.reading with
      | none => exact .expired (ttlUntil_eq_none_iff.mp left)
      | some ttl => exact .commit left
  | sealResponse attempt =>
      obtain rfl := Await.next_consult resumed
      simp only [answer]
      cases done : sealValue choice.sealer .grace (.grace h attempt.claim.claimId)
          (.response attempt.response) name with
      | error fault => exact .unprepared rfl
      | ok bytes =>
          obtain rfl := sealValue_eq_ok done
          exact .sealResponse
  | putResponse attempt sealed =>
      rcases Await.next_putIfAbsent resumed with ⟨positive, answered, vacant, rfl⟩ |
        ⟨_, _, _, rfl⟩ | ⟨_, error, rfl⟩
      · exact .putResponse positive answered vacant
      · exact .unprepared rfl
      · exact .unprepared rfl
  | sealSuccessor attempt =>
      obtain rfl := Await.next_consult resumed
      simp only [answer]
      cases done : sealValue choice.sealer .record attempt.successorKey
          (.record attempt.successor) name with
      | error fault => exact .unprepared rfl
      | ok bytes =>
          obtain rfl := sealValue_eq_ok done
          exact .sealSuccessor
  | putSuccessor attempt successor =>
      rcases Await.next_putIfAbsent resumed with ⟨positive, answered, vacant, rfl⟩ |
        ⟨_, _, _, rfl⟩ | ⟨_, error, rfl⟩
      · exact .putSuccessor positive answered vacant
      · exact .unprepared rfl
      · exact .unprepared rfl
  | sealRotated attempt =>
      obtain rfl := Await.next_consult resumed
      simp only [answer]
      cases done : sealValue choice.sealer .record (.handle h) (.record attempt.rotated) name with
      | error fault => exact .unprepared rfl
      | ok bytes =>
          obtain rfl := sealValue_eq_ok done
          exact .sealRotated
  | swapRotated attempt rotated =>
      rcases Await.next_compareAndSwap resumed with ⟨positive, answered, live, rfl⟩ |
        ⟨_, _, gone, rfl⟩ | ⟨zero | unanswered, error, rfl⟩
      · exact .rotated positive answered live
      · exact .lost gone
      · exact .fails (.invalid (by rw [Pc.ttl?, zero]))
      · exact .fails (.fault (.inl unanswered))
  | swapHead attempt =>
      rcases Await.next_compareAndSwap resumed with ⟨_, _, _, rfl⟩ | ⟨_, _, _, rfl⟩ | ⟨_, _, rfl⟩
      · exact .advanced
      · exact .advanced
      · exact .advanced
  | isRevokedInFlight attempt =>
      rcases Await.next_get resumed with ⟨answered, rfl⟩ | ⟨unanswered, error, rfl⟩
      · cases live : σ.live now (.revoked attempt.claim.familyId) with
        | none => exact .finished answered live
        | some marker => exact .inFlight live
      · exact .fails (.fault (.inl unanswered))
  | isRevokedLost held =>
      rcases Await.next_get resumed with ⟨_, rfl⟩ | ⟨unanswered, error, rfl⟩
      · cases live : σ.live now (.revoked held.familyId) with
        | none => exact .refuse (by simp) (.lost live)
        | some marker => exact .refuse (by simp) (.lostRevoked live)
      · exact .fails (.fault (.inl unanswered))
  | discard key rest after =>
      cases rest with
      | cons key' rest' =>
          rcases Await.next_delete resumed with ⟨_, rfl⟩ | ⟨_, _, rfl⟩
          · exact .discard
          · exact .discard
      | nil =>
          have target : q = after.next := by
            rcases Await.next_delete resumed with ⟨_, rfl⟩ | ⟨_, _, rfl⟩
            · rfl
            · rfl
          subst target
          cases after with
          | failed held fault => exact .failed
          | lost held => exact .discardedLost
          | revoked => exact .refuse (by simp) .discarded
  | sealRelease held outcome =>
      obtain rfl := Await.next_consult resumed
      exact .sealRelease fun bytes done => sealValue_eq_ok done
  | releaseClock held released outcome =>
      obtain rfl := Await.next_consult resumed
      simp only [answer]
      cases left : ttlUntil held.familyExpiresMs choice.reading with
      | none => exact .unreleased
      | some ttl =>
          cases released with
          | error fault => exact .unreleased
          | ok bytes => exact .release left
  | swapRelease held bytes ttl outcome =>
      rcases Await.next_compareAndSwap resumed with ⟨_, _, _, rfl⟩ | ⟨_, _, _, rfl⟩ | ⟨_, _, rfl⟩
      · exact .released
      · exact .released
      · exact .released
  | revoke revocation =>
      obtain rfl := Await.next_consult resumed
      simp only [answer]
      cases left : ttlUntil revocation.familyExpiresMs choice.reading with
      | none => exact .revoked rfl (.inl ⟨rfl, ttlUntil_eq_none_iff.mp left⟩)
      | some ttl => exact .revoke left
  | putMarker revocation ttl marker =>
      rcases Await.next_putIfAbsent resumed with ⟨positive, answered, _, rfl⟩ |
        ⟨positive, answered, _, rfl⟩ | ⟨zero | unanswered, error, rfl⟩
      · exact .marked positive answered
      · exact .marked positive answered
      · exact .fails (.invalid (by rw [Pc.ttl?, zero]))
      · exact .fails (.fault (.inl unanswered))
  | getHead revocation =>
      rcases Await.next_get resumed with ⟨_, rfl⟩ | ⟨unanswered, error, rfl⟩
      · exact .of_eraseNext rfl rfl (.starts rfl)
      · exact .fails (.fault (.inl unanswered))
  | erase revocation key hop rest =>
      rcases Await.next_get resumed with ⟨_, rfl⟩ | ⟨unanswered, error, rfl⟩
      · cases live : σ.live now key with
        | none => exact .of_eraseNext rfl rfl (.absent live)
        | some bytes => exact .openErased live
      · exact .fails (.fault (.inl unanswered))
  | openErased revocation key hop rest bytes =>
      obtain rfl := Await.next_consult resumed
      simp only [answer]
      cases opened : openValue choice.sealer .record key bytes with
      | error fault =>
          rcases openValue_eq_error opened with down | ⟨rfl, foreign⟩
          · cases fault with
            | sealerUnavailable => exact .of_eraseNext rfl rfl (.tolerated down)
            | unopenable => exact .deleteErased
            | store error => exact .fails (.fault (.inr down))
            | sealing => exact .fails (.fault (.inr down))
            | conflict => exact .fails (.fault (.inr down))
          · exact .deleteErased
      | ok plain =>
          obtain ⟨nonce, rfl⟩ := openValue_eq_ok opened
          cases plain with
          | response response => exact .deleteErased
          | record record =>
              simp only [Pc.eraseRecord]
              split
              · rename_i state
                split
                · rename_i below
                  exact .follow state below
                · rename_i last
                  exact .of_eraseNext rfl rfl (.limit (Nat.le_of_not_lt last))
              · exact .deleteErased
  | deleteErased revocation key rest =>
      rcases Await.next_delete resumed with ⟨_, rfl⟩ | ⟨unanswered, error, rfl⟩
      · exact .of_eraseNext rfl rfl .deleted
      · exact .fails (.fault (.inl unanswered))
  | done outcome => cases resumed

end Edge

section CreateEdge

variable (R : Rotator) (σ : Store Key Value) (now : ℕ) (delivery : Delivery) (choice : Choice)
  (name : Name)

/-- A call that creates a family goes on from one state to another. -/
inductive CreateEdge : CreatePc → CreatePc → Prop where
  | refuse {p : CreatePc} {outcome : RefreshOutcome}
      (failure : ∀ r, outcome = .response r → r.isSuccess = false) :
      CreateEdge p (.done outcome)
  | issueFailed {p : CreatePc} {error : IssueError} : CreateEdge p (.issueFailed error)
  | opened {opened : OpenedHandle} :
      CreateEdge (.openHandle (some opened)) (.checkLifetime opened)
  | young {opened : OpenedHandle} : CreateEdge (.checkLifetime opened) (.askUpstream opened)
  | migrate {opened : OpenedHandle} {token : String} {response : StoredResponse} :
      CreateEdge (.askUpstream opened) (.create ⟨name, token, some response⟩)
  | create {creation : Creation} {ttl : ℕ}
      (left : ttlUntil (saturatingAdd choice.reading R.maxLifetime) choice.reading = some ttl) :
      CreateEdge (.create creation)
        (.sealRecord ⟨creation, name, saturatingAdd choice.reading R.maxLifetime, ttl⟩)
  | sealRecord {family : Family} :
      CreateEdge (.sealRecord family)
        (.putRecord family (.sealed .record (.handle family.creation.handle)
          (.record family.record) name))
  | putRecord {family : Family} {bytes : Value} (positive : 0 < family.ttl)
      (answered : delivery = .answered)
      (vacant : σ.live now (.handle family.creation.handle) = none) :
      CreateEdge (.putRecord family bytes) (.putHead family)
  | issued {family : Family} (positive : 0 < family.ttl) (answered : delivery = .answered)
      (vacant : σ.live now (.head family.familyId) = none) :
      CreateEdge (.putHead family) (.issued family.creation.handle)
  | migrated {family : Family} {response : StoredResponse} (positive : 0 < family.ttl)
      (answered : delivery = .answered) (vacant : σ.live now (.head family.familyId) = none)
      (carries : family.creation.response = some response) :
      CreateEdge (.putHead family) (.done (.response response))

variable {R σ now delivery choice name}

theorem CreateEdge.of_fault {p : CreatePc} (fault : Fault) :
    CreateEdge R σ now delivery choice name p (.done fault.outcome) :=
  .refuse fun r same => absurd same (fault.outcome_ne_response r)

theorem CreateEdge.fails {p : CreatePc} (creation : Creation) (fault : Fault) :
    CreateEdge R σ now delivery choice name p (CreatePc.fail creation fault) := by
  unfold CreatePc.fail
  split
  · exact .issueFailed
  · exact .of_fault fault

theorem CreateEdge.of_handleReply {opened : OpenedHandle} :
    CreateEdge R σ now delivery choice name (.askUpstream opened)
      (CreatePc.handleReply R opened name choice.reply) := by
  cases choice.reply with
  | error failure => exact .refuse (by simp)
  | ok response =>
      simp only [CreatePc.handleReply]
      split
      · rename_i invalid
        refine .refuse fun r same => ?_
        cases same
        exact SerdeJson.not_isSuccess_of_isInvalidGrant invalid
      · split
        · split
          · exact .refuse (by simp)
          · exact .migrate
        · rename_i failure
          refine .refuse fun r same => ?_
          cases same
          simpa using failure

theorem createEdge_of_next {p q : CreatePc}
    (resumed : (p.await R).next σ now delivery (answer choice name) = some q) :
    CreateEdge R σ now delivery choice name p q := by
  cases p with
  | openHandle opened =>
      obtain rfl := Await.next_consult resumed
      simp only [answer]
      cases found : openSealedHandle choice.sealer opened with
      | error fault => exact .of_fault fault
      | ok plain =>
          cases plain with
          | none => exact .refuse (by simp)
          | some plain =>
              have same : opened = some plain := by
                unfold openSealedHandle at found
                split at found <;> simp_all
              subst same
              exact .opened
  | checkLifetime opened =>
      obtain rfl := Await.next_consult resumed
      show CreateEdge R σ now delivery choice name _
        (if choice.reading ≥
            saturatingAdd (min (opened.issuedAt * 1000) (2 ^ 64 - 1)) R.maxLifetime then
          .done .invalidGrant else .askUpstream opened)
      split
      · exact .refuse (by simp)
      · exact .young
  | askUpstream opened =>
      obtain rfl := Await.next_consult resumed
      exact .of_handleReply
  | create creation =>
      obtain rfl := Await.next_consult resumed
      simp only [answer]
      cases left : ttlUntil (saturatingAdd choice.reading R.maxLifetime) choice.reading with
      | none => exact .fails _ _
      | some ttl => exact .create left
  | sealRecord family =>
      obtain rfl := Await.next_consult resumed
      simp only [answer]
      cases done : sealValue choice.sealer .record (.handle family.creation.handle)
          (.record family.record) name with
      | error fault => exact .fails _ _
      | ok bytes =>
          obtain rfl := sealValue_eq_ok done
          exact .sealRecord
  | putRecord family bytes =>
      rcases Await.next_putIfAbsent resumed with ⟨positive, answered, vacant, rfl⟩ |
        ⟨_, _, _, rfl⟩ | ⟨_, error, rfl⟩
      · exact .putRecord positive answered vacant
      · exact .fails _ _
      · exact .fails _ _
  | putHead family =>
      rcases Await.next_putIfAbsent resumed with ⟨positive, answered, vacant, rfl⟩ |
        ⟨_, _, _, rfl⟩ | ⟨_, error, rfl⟩
      · simp only [CreatePc.finish]
        split
        · exact .issued positive answered vacant
        · rename_i response carries
          exact .migrated positive answered vacant carries
      · exact .fails _ _
      · exact .fails _ _
  | issued handle => cases resumed
  | issueFailed error => cases resumed
  | done outcome => cases resumed

end CreateEdge

/-! ## Changes to the store -/

section Alters

variable (R : Rotator) (h : Name) (σ : Store Key Value) (now : ℕ)

/-- A refresh in this state changes the store, which has this clock. -/
inductive Alters : Pc → Change Key Value → Prop where
  | claim {loaded : Loaded} {held : Claim} {ttl : ℕ}
      (live : σ.live now (.handle h) = some loaded.bytes) :
      Alters (.swapClaim loaded held ttl) (.handle h, some ⟨held.bytes, now + ttl⟩)
  | response {attempt : Attempt} {sealed : Value}
      (vacant : σ.live now (.grace h attempt.claim.claimId) = none) :
      Alters (.putResponse attempt sealed)
        (.grace h attempt.claim.claimId, some ⟨sealed, now + attempt.graceTtl R⟩)
  | successor {attempt : Attempt} {successor : Value}
      (vacant : σ.live now attempt.successorKey = none) :
      Alters (.putSuccessor attempt successor)
        (attempt.successorKey, some ⟨successor, now + attempt.familyTtl⟩)
  | rotate {attempt : Attempt} {rotated : Value}
      (live : σ.live now (.handle h) = some attempt.claim.bytes) :
      Alters (.swapRotated attempt rotated)
        (.handle h, some ⟨rotated, now + attempt.familyTtl⟩)
  | head {attempt : Attempt}
      (live : σ.live now (.head attempt.claim.familyId) = some (.headKey (.handle h))) :
      Alters (.swapHead attempt)
        (.head attempt.claim.familyId,
          some ⟨.headKey attempt.successorKey, now + attempt.familyTtl⟩)
  | discard {key : Key} {rest : List Key} {after : AfterDiscard} :
      Alters (.discard key rest after) (key, none)
  | release {held : Claim} {bytes : Value} {ttl : ℕ} {outcome : RefreshOutcome}
      (live : σ.live now (.handle h) = some held.bytes) :
      Alters (.swapRelease held bytes ttl outcome) (.handle h, some ⟨bytes, now + ttl⟩)
  | marker {revocation : Revocation} {ttl : ℕ} {marker : Name}
      (vacant : σ.live now (.revoked revocation.familyId) = none) :
      Alters (.putMarker revocation ttl marker)
        (.revoked revocation.familyId, some ⟨.marker marker, now + ttl⟩)
  | erase {revocation : Revocation} {key : Key} {rest : List Key} :
      Alters (.deleteErased revocation key rest) (key, none)

/-- A call that creates a family changes the store. -/
inductive CreateAlters : CreatePc → Change Key Value → Prop where
  | record {family : Family} {bytes : Value}
      (vacant : σ.live now (.handle family.creation.handle) = none) :
      CreateAlters (.putRecord family bytes)
        (.handle family.creation.handle, some ⟨bytes, now + family.ttl⟩)
  | head {family : Family} (vacant : σ.live now (.head family.familyId) = none) :
      CreateAlters (.putHead family)
        (.head family.familyId,
          some ⟨.headKey (.handle family.creation.handle), now + family.ttl⟩)

variable {R h σ now}

/-- **A refresh changes the store only in the listed states.** -/
theorem alters_of_change {p : Pc} {delivery : Delivery} {c : Change Key Value}
    (made : (p.await R h).change σ now delivery = some c) : Alters R h σ now p c := by
  cases p with
  | swapClaim loaded held ttl =>
      obtain ⟨live, rfl⟩ := Await.change_compareAndSwap made
      exact .claim live
  | putResponse attempt sealed =>
      obtain ⟨vacant, rfl⟩ := Await.change_putIfAbsent made
      exact .response vacant
  | putSuccessor attempt successor =>
      obtain ⟨vacant, rfl⟩ := Await.change_putIfAbsent made
      exact .successor vacant
  | swapRotated attempt rotated =>
      obtain ⟨live, rfl⟩ := Await.change_compareAndSwap made
      exact .rotate live
  | swapHead attempt =>
      obtain ⟨live, rfl⟩ := Await.change_compareAndSwap made
      exact .head live
  | discard key rest after =>
      obtain rfl := Await.change_delete made
      exact .discard
  | swapRelease held bytes ttl outcome =>
      obtain ⟨live, rfl⟩ := Await.change_compareAndSwap made
      exact .release live
  | putMarker revocation ttl marker =>
      obtain ⟨vacant, rfl⟩ := Await.change_putIfAbsent made
      exact .marker vacant
  | deleteErased revocation key rest =>
      obtain rfl := Await.change_delete made
      exact .erase
  | _ => cases made

theorem createAlters_of_change {p : CreatePc} {delivery : Delivery} {c : Change Key Value}
    (made : (p.await R).change σ now delivery = some c) : CreateAlters σ now p c := by
  cases p with
  | putRecord family bytes =>
      obtain ⟨vacant, rfl⟩ := Await.change_putIfAbsent made
      exact .record vacant
  | putHead family =>
      obtain ⟨vacant, rfl⟩ := Await.change_putIfAbsent made
      exact .head vacant
  | _ => cases made

end Alters

end OAuthRelay.Rotation
