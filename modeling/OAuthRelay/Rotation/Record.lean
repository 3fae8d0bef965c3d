import OAuthRelay.Async.Machine
import OAuthRelay.RefreshHandle

/-!
# What rotation stores

The state of rotating refresh-token handles lives in a store shared by the instances of
a relay. Its keys are hashes over a handle or a family id, taken here as the thing
hashed; its values are sealed records, sealed responses, and two kinds of plain values.

Random values are names of draws, so a handle that nobody drew belongs to nobody. A
sealed value opens only under the purpose and the key it was sealed for, and its nonce
makes it different from every other sealed value. Times are in milliseconds.
-/

set_option autoImplicit false

namespace OAuthRelay.Rotation

open OAuthRelay.Async (Name StoreError)

/-- Store keys. -/
inductive Key where
  /-- `refresh:handle:{hash(handle)}`. -/
  | handle (handle : Name)
  /-- `refresh:grace:{hash(handle, claim id)}`. -/
  | grace (handle claimId : Name)
  /-- `refresh:revoked:{hash(family id)}`, the family key. -/
  | revoked (familyId : Name)
  /-- `refresh:head:{hash(family id)}`. -/
  | head (familyId : Name)
  deriving DecidableEq

/-- What a handle's record says of it. -/
inductive State where
  | active (upstreamToken : String)
  | claimed (upstreamToken : String) (claimId : Name) (claimedMs : ℕ)
  /-- `successorKey` is the store key of the successor's record. -/
  | rotated (rotatedMs : ℕ) (claimId : Name) (successorKey : Key)
  deriving DecidableEq

structure Record where
  familyId : Name
  familyExpiresMs : ℕ
  state : State
  deriving DecidableEq

/-- What a value is sealed for. -/
inductive Purpose where
  | record
  | grace
  deriving DecidableEq

/-- What can be sealed. -/
inductive Plain where
  | record (record : Record)
  | response (response : StoredResponse)
  deriving DecidableEq

/-- Store values. The purpose and the key of a sealed value are its associated data. -/
inductive Value where
  | sealed (purpose : Purpose) (key : Key) (plain : Plain) (nonce : Name)
  /-- The value of a head record, the store key of a handle record. -/
  | headKey (key : Key)
  /-- The value of a revocation marker. -/
  | marker (random : Name)
  deriving DecidableEq

/-- A head record's value as a store key. -/
def Value.asKey : Value → Option Key
  | .headKey key => some key
  | _ => none

inductive SealError where
  | unavailable
  | invalidKey
  | invalidEnvelope
  deriving DecidableEq

/-- Why a step of the rotation failed. -/
inductive Fault where
  | store (error : StoreError)
  /-- A value could not be encoded or sealed. -/
  | sealing
  /-- A stored value does not open. -/
  | unopenable
  | sealerUnavailable
  /-- A create-only write found a record that a random key cannot have. -/
  | conflict
  deriving DecidableEq

def Fault.fromSealError : SealError → Fault
  | .unavailable => .sealerUnavailable
  | .invalidKey => .sealing
  | .invalidEnvelope => .sealing

def Fault.fromUnsealError : SealError → Fault
  | .unavailable => .sealerUnavailable
  | .invalidKey => .unopenable
  | .invalidEnvelope => .unopenable

/-- How one sealer operation goes. -/
inductive SealerReply where
  | works
  | fails (error : SealError)
  | timeout
  deriving DecidableEq

/-- `seal` of a plain value, with the nonce it draws. -/
def sealValue (reply : SealerReply) (purpose : Purpose) (key : Key) (plain : Plain)
    (nonce : Name) : Except Fault Value :=
  match reply with
  | .works => .ok (.sealed purpose key plain nonce)
  | .fails error => .error (.fromSealError error)
  | .timeout => .error .sealerUnavailable

/-- `open` of a stored value. -/
def openValue (reply : SealerReply) (purpose : Purpose) (key : Key) (value : Value) :
    Except Fault Plain :=
  match reply with
  | .works =>
      match value with
      | .sealed purpose' key' plain _ =>
          if purpose' = purpose ∧ key' = key then .ok plain else .error .unopenable
      | _ => .error .unopenable
  | .fails error => .error (.fromUnsealError error)
  | .timeout => .error .sealerUnavailable

theorem sealValue_eq_ok {reply : SealerReply} {purpose : Purpose} {key : Key} {plain : Plain}
    {nonce : Name} {value : Value} (h : sealValue reply purpose key plain nonce = .ok value) :
    value = .sealed purpose key plain nonce := by
  cases reply with
  | works => simpa [sealValue] using h.symm
  | fails error => cases h
  | timeout => cases h

theorem openValue_eq_ok {reply : SealerReply} {purpose : Purpose} {key : Key} {plain : Plain}
    {value : Value} (h : openValue reply purpose key value = .ok plain) :
    ∃ nonce, value = .sealed purpose key plain nonce := by
  cases reply with
  | works =>
      simp only [openValue] at h
      split at h
      · split at h
        · rename_i same
          obtain ⟨rfl, rfl⟩ := same
          cases h
          exact ⟨_, rfl⟩
        · cases h
      · cases h
  | fails error => cases h
  | timeout => cases h

/-- Sealing fails only when the sealer does. -/
theorem sealValue_eq_error {reply : SealerReply} {purpose : Purpose} {key : Key} {plain : Plain}
    {nonce : Name} {fault : Fault} (h : sealValue reply purpose key plain nonce = .error fault) :
    reply ≠ .works := by
  rintro rfl
  cases h

/-- Opening fails when the sealer does, or for a value sealed for something else. -/
theorem openValue_eq_error {reply : SealerReply} {purpose : Purpose} {key : Key} {value : Value}
    {fault : Fault} (h : openValue reply purpose key value = .error fault) :
    reply ≠ .works ∨ (fault = .unopenable ∧
      ∀ plain nonce, value ≠ .sealed purpose key plain nonce) := by
  cases reply with
  | works =>
      refine .inr ⟨?_, ?_⟩
      · simp only [openValue] at h
        split at h
        · split at h
          · cases h
          · exact (Except.error.inj h).symm
        · exact (Except.error.inj h).symm
      · rintro plain nonce rfl
        simp [openValue] at h
  | fails error => exact .inl (by simp)
  | timeout => exact .inl (by simp)

/-- Waiting and lease durations of the claim protocol. -/
structure Timing where
  pollInterval : ℕ
  resolveWait : ℕ
  upstreamTimeout : ℕ
  claimLease : ℕ
  sealerTimeout : ℕ

def Timing.default : Timing where
  pollInterval := 100
  resolveWait := 5000
  upstreamTimeout := 30000
  claimLease := 60000
  sealerTimeout := 5000

/-- Longest chain of rotated records followed when a revoked family is erased. -/
def maxEraseHops : ℕ := 1000

/-- How long a recorded response outlives the grace period. -/
def graceResponseMargin : ℕ := 10000

/-- Addition of two 64-bit numbers, saturating. -/
def saturatingAdd (a b : ℕ) : ℕ := min (a + b) (2 ^ 64 - 1)

/-- The time left until an expiry, if it is not over. -/
def ttlUntil (expiresMs nowMs : ℕ) : Option ℕ :=
  if expiresMs > nowMs then some (expiresMs - nowMs) else none

theorem ttlUntil_eq_some_iff {expiresMs nowMs ttl : ℕ} :
    ttlUntil expiresMs nowMs = some ttl ↔ nowMs < expiresMs ∧ ttl = expiresMs - nowMs := by
  unfold ttlUntil
  split <;> simp <;> omega

theorem ttlUntil_eq_none_iff {expiresMs nowMs : ℕ} :
    ttlUntil expiresMs nowMs = none ↔ expiresMs ≤ nowMs := by
  unfold ttlUntil
  split <;> simp <;> omega

/-- Why the upstream could not be asked or did not answer. -/
inductive UpstreamFailure where
  | status (code : ℕ)
  | request
  deriving DecidableEq

/-- What the router should answer to a refresh. -/
inductive RefreshOutcome where
  | response (response : StoredResponse)
  | invalidGrant
  | unavailable
  | upstreamFailed (failure : UpstreamFailure)
  | upstreamUnusable
  | storeFailed
  | sealerUnavailable
  deriving DecidableEq

/-- What a refresh that ends in a fault answers. -/
def Fault.outcome : Fault → RefreshOutcome
  | .unopenable => .invalidGrant
  | .sealing => .invalidGrant
  | .sealerUnavailable => .sealerUnavailable
  | .store _ => .storeFailed
  | .conflict => .storeFailed

/-- Why a code-grant response could not be given a handle. -/
inductive IssueError where
  | store
  | sealerUnavailable
  deriving DecidableEq

def Fault.issueError : Fault → IssueError
  | .sealerUnavailable => .sealerUnavailable
  | _ => .store

/-- The rotation settings of one relay, and what it takes from its environment. -/
structure Rotator where
  grace : ℕ
  maxLifetime : ℕ
  timing : Timing
  json : SerdeJson
  /-- The text of a rotating handle. -/
  handleText : Name → String

end OAuthRelay.Rotation
