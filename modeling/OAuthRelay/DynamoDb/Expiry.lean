import OAuthRelay.DynamoDb.Writes

/-!
# How long the DynamoDB store keeps a record

The table keeps whole seconds. The second in which a record expires is the clock's second,
plus the time to live rounded up, plus one for what the clock cuts off. Reads and conditions
compare it with the second that their own clock shows, so a record is live at every instant
before its time to live is over (`lt_expiry`), and gone two seconds later (`expiry_le`).

The rounding up of `expiry` is not protected: when the whole seconds of a time to live are all
that fit in 64 bits, a fraction makes their sum overflow. A release build wraps around and lets
the record expire after one second, any other build panics (`longest_breaks_contract`). The sum
with the clock saturates instead, at the last second a clock can show; a record that should
outlive the beginning of this second does not. These are all the times to live for which the
contract breaks (`keeps_contract_iff`).
-/

set_option autoImplicit false

namespace OAuthRelay.DynamoDb

open Interleaving Program
open Contract (Input)
open Kubernetes (validTtl)

/-! ## Instants and clocks -/

/-- Whole seconds in 64 bits and a fraction, in nanoseconds: an instant, or a `Duration`. -/
abbrev Nanoseconds := Fin (2 ^ 64 * 10 ^ 9)

/-- `unix_now`: a clock shows the whole seconds of an instant. -/
def reading (instant : Nanoseconds) : Seconds := ⟨instant / 10 ^ 9, by omega⟩

/-- The whole seconds that hold a time to live. -/
def wholeSeconds (ttl : ℕ) : ℕ := ttl / 10 ^ 9 + if ttl % 10 ^ 9 > 0 then 1 else 0

/-- `expiry` with the check for overflow that a debug build makes; none where it panics. -/
def checkedExpiry (now : Seconds) (ttl : ℕ) : Option Seconds :=
  if wholeSeconds ttl < 2 ^ 64 then
    some (saturatingAdd (saturatingAdd now (wholeSeconds ttl)) 1)
  else none

/-- The second in which a record written at an instant expires has no place in 64 bits. -/
def Saturates (t ttl : Nanoseconds) : Prop :=
  2 ^ 64 ≤ (reading t : ℕ) + wholeSeconds ttl + 1

theorem saturatingAdd_val (seconds : Seconds) (more : ℕ) :
    (saturatingAdd seconds more : ℕ) = min (seconds + more) (2 ^ 64 - 1) := rfl

theorem expiry_of_fits {ttl : ℕ} (fits : wholeSeconds ttl < 2 ^ 64) (now : Seconds) :
    expiry now ttl = saturatingAdd (saturatingAdd now (wholeSeconds ttl)) 1 := by
  have whole : wholeSeconds ttl % 2 ^ 64 = wholeSeconds ttl := Nat.mod_eq_of_lt fits
  unfold wholeSeconds at whole ⊢
  rw [expiry, whole]

/-- A build that checks computes the same second, unless it panics. -/
theorem checkedExpiry_eq_some_iff {now : Seconds} {ttl : ℕ} :
    checkedExpiry now ttl = some (expiry now ttl) ↔ wholeSeconds ttl < 2 ^ 64 := by
  unfold checkedExpiry
  constructor
  · intro computed
    by_contra overflows
    rw [if_neg overflows] at computed
    cases computed
  · intro fits
    rw [if_pos fits, expiry_of_fits fits]

/-! ## Rounding -/

section Rounding

variable {t ttl u : Nanoseconds}

/-- The clock of no instant within the time to live shows the second of expiry. -/
theorem lt_expiry (ends : (t : ℕ) + ttl ≤ (2 ^ 64 - 1) * 10 ^ 9) (within : (u : ℕ) < t + ttl) :
    reading u < expiry (reading t) ttl := by
  have fits : wholeSeconds ttl < 2 ^ 64 := by
    unfold wholeSeconds
    split <;> omega
  rw [expiry_of_fits fits, Fin.lt_def, saturatingAdd_val, saturatingAdd_val]
  have rounded : (ttl : ℕ) ≤ wholeSeconds ttl * 10 ^ 9 := by
    unfold wholeSeconds
    split <;> omega
  have cut : (t : ℕ) < ((reading t : ℕ) + 1) * 10 ^ 9 := by
    simp only [reading]
    omega
  simp only [reading] at cut ⊢
  omega

/-- Two seconds after the time to live every clock shows the second of expiry. -/
theorem expiry_le (fits : wholeSeconds ttl < 2 ^ 64)
    (after : (t : ℕ) + ttl + 2 * 10 ^ 9 ≤ u) : expiry (reading t) ttl ≤ reading u := by
  rw [expiry_of_fits fits, Fin.le_def, saturatingAdd_val, saturatingAdd_val]
  have rounded : wholeSeconds ttl * 10 ^ 9 < ttl + 10 ^ 9 := by
    unfold wholeSeconds
    split <;> omega
  have cut : (reading t : ℕ) * 10 ^ 9 ≤ t := Nat.div_mul_le_self _ _
  simp only [reading] at cut ⊢
  omega

end Rounding

/-! ## Three judgements of a record -/

variable {Value : Type} [DecidableEq Value]

/-- To a clock that shows `now`, the record is live: a get returns it, a put is refused, and a
swap of its value is not. -/
structure TreatedLive (item : Item Value) (now : Seconds) : Prop where
  get : ∃ left, got now (.ok (some item)) = .done (.got (.ok (some ⟨item.value, left⟩)))
  put : ∀ key value ttl, (putRequest now key value ttl).condition.holds (some item) = false
  swap : ∀ key new ttl,
    (swapRequest now key item.value new ttl).condition.holds (some item) = true

/-- To a clock that shows `now`, there is no record. -/
structure TreatedAbsent (item : Item Value) (now : Seconds) : Prop where
  get : got now (.ok (some item)) = .done (.got (.ok none))
  put : ∀ key value ttl, (putRequest now key value ttl).condition.holds (some item) = true
  swap : ∀ key expected new ttl,
    (swapRequest now key expected new ttl).condition.holds (some item) = false

omit [DecidableEq Value] in
theorem got_some (item : Item Value) (now : Seconds) : got now (.ok (some item)) =
    .done (.got (.ok (if now < item.expiresAt then
      some ⟨item.value, (item.expiresAt - now : ℕ) * 10 ^ 9⟩ else none))) := by
  by_cases live : now < item.expiresAt
  · simp [got, live]
  · have expired : item.expiresAt ≤ now := Nat.le_of_not_lt live
    simp [got, live, expired]

theorem treatedLive_iff {item : Item Value} {now : Seconds} :
    TreatedLive item now ↔ now < item.expiresAt := by
  constructor
  · intro treated
    obtain ⟨left, found⟩ := treated.get
    rw [got_some] at found
    split at found
    · assumption
    · cases found
  · intro live
    refine ⟨⟨(item.expiresAt - now : ℕ) * 10 ^ 9, ?_⟩, fun key value ttl => ?_,
      fun key new ttl => ?_⟩
    · rw [got_some, if_pos live]
    · simpa [putRequest, PutCondition.holds] using live
    · simpa [swapRequest, PutCondition.holds] using live

theorem treatedAbsent_iff {item : Item Value} {now : Seconds} :
    TreatedAbsent item now ↔ item.expiresAt ≤ now := by
  constructor
  · intro treated
    have found := treated.get
    rw [got_some] at found
    split at found
    · cases found
    · exact Nat.le_of_not_lt ‹_›
  · intro expired
    have live : ¬ now < item.expiresAt := Nat.not_lt.mpr expired
    refine ⟨?_, fun key value ttl => ?_, fun key expected new ttl => ?_⟩
    · rw [got_some, if_neg live]
    · simpa [putRequest, PutCondition.holds] using expired
    · simp [swapRequest, PutCondition.holds, live]

/-- **The three agree at every reading of a clock.** -/
theorem treatedLive_or_treatedAbsent (item : Item Value) (now : Seconds) :
    TreatedLive item now ∨ TreatedAbsent item now := by
  rw [treatedLive_iff, treatedAbsent_iff]
  exact Nat.lt_or_ge _ _

/-! ## The contract -/

/-- The time to live of a write. -/
def timeToLive : Input Value → Option ℕ
  | .putIfAbsent _ _ ttl => some ttl
  | .compareAndSwap _ _ _ ttl => some ttl
  | .get _ => none
  | .delete _ => none

omit [DecidableEq Value] in
theorem Asked.expiresAt {now : Seconds} {input : Input Value} {operation : Operation}
    {request : PutRequest Value} (asked : Asked now input operation request) {ttl : ℕ}
    (lasts : timeToLive input = some ttl) : request.item.expiresAt = expiry now ttl := by
  cases asked with
  | put => cases lasts; rfl
  | swap => cases lasts; rfl

variable (Value) in
/-- What is promised of a record that is written at `t` to be kept for `ttl`. -/
structure KeepsContract (t ttl : Nanoseconds) : Prop where
  /-- Its expiry is computed without overflow. -/
  computed : checkedExpiry (reading t) ttl = some (expiry (reading t) ttl)
  /-- It is live at every instant before its time to live is over. -/
  live : ∀ (input : Input Value) operation request, Asked (reading t) input operation request →
    timeToLive input = some ttl.val → ∀ u : Nanoseconds, (u : ℕ) < t + ttl →
      TreatedLive request.item (reading u)
  /-- It is absent at every instant two seconds later, unless the expiry saturates. -/
  absent : ¬ Saturates t ttl → ∀ (input : Input Value) operation request,
    Asked (reading t) input operation request → timeToLive input = some ttl.val →
      ∀ u : Nanoseconds, t + ttl + 2 * 10 ^ 9 ≤ (u : ℕ) → TreatedAbsent request.item (reading u)
  /-- All judge it alike at every instant. -/
  agree : ∀ (input : Input Value) operation request, Asked (reading t) input operation request →
    timeToLive input = some ttl.val → ∀ u : Nanoseconds,
      TreatedLive request.item (reading u) ∨ TreatedAbsent request.item (reading u)

/-- The first instant of the last second that a clock can show. -/
def lastSecond : Nanoseconds := ⟨(2 ^ 64 - 1) * 10 ^ 9, by decide⟩

/-- To the last reading of a clock nothing is live. -/
theorem not_treatedLive_lastSecond (item : Item Value) :
    ¬ TreatedLive item (reading lastSecond) := by
  rw [treatedLive_iff, Fin.lt_def]
  have last : (reading lastSecond : ℕ) = 2 ^ 64 - 1 := rfl
  have bound := item.expiresAt.isLt
  omega

/-- **The contract is kept exactly of what expires before the last second of the clock.** -/
theorem keeps_contract_iff [Inhabited Value] (t ttl : Nanoseconds) :
    KeepsContract Value t ttl ↔ (t : ℕ) + ttl ≤ (2 ^ 64 - 1) * 10 ^ 9 := by
  constructor
  · intro keeps
    by_contra late
    have within : (lastSecond : ℕ) < t + ttl := Nat.lt_of_not_le late
    exact not_treatedLive_lastSecond _
      (keeps.live _ _ _ (.put "" default ttl) rfl lastSecond within)
  · intro ends
    have fits : wholeSeconds ttl < 2 ^ 64 := by
      unfold wholeSeconds
      split <;> omega
    refine ⟨checkedExpiry_eq_some_iff.mpr fits, ?_, ?_, fun _ _ _ _ _ u =>
      treatedLive_or_treatedAbsent _ _⟩
    · intro input operation request asked lasts u within
      rw [treatedLive_iff, asked.expiresAt lasts]
      exact lt_expiry ends within
    · intro _ input operation request asked lasts u after
      rw [treatedAbsent_iff, asked.expiresAt lasts]
      exact expiry_le fits after

/-- `Duration::MAX`. -/
def longest : Nanoseconds := ⟨2 ^ 64 * 10 ^ 9 - 1, by decide⟩

/-- **The longest time to live is admitted, its expiry overflows, and the record is not kept.** -/
theorem longest_breaks_contract : validTtl longest = true ∧
    checkedExpiry (reading 0) longest = none ∧ expiry (reading 0) longest = 1 ∧
      ¬ KeepsContract (List UInt8) 0 longest := by
  refine ⟨by decide, by decide +kernel, by decide +kernel, fun keeps => ?_⟩
  have computed := keeps.computed
  rw [show checkedExpiry (reading 0) longest = none by decide +kernel] at computed
  cases computed

/-! ## Runs -/

/-- **In every run, what a call has written is live for its time.** -/
theorem live_of_takes {ok : List (Evt Value) → State Value → Lbl Value → Prop}
    {table : Table Value} {events : List (Evt Value)} {s : State Value}
    (run : (program Value).Runs ok table events s) {w : Evt Value} (member : w ∈ events) {i : ℕ}
    {operation : Operation} {request : PutRequest Value} {t ttl : Nanoseconds}
    (takes : Takes w i operation request (reading t)) {thread : Thread (Input Value) (Call Value)}
    (there : s.threads[i]? = some thread) (lasts : timeToLive thread.input = some ttl.val)
    (ends : (t : ℕ) + ttl ≤ (2 ^ 64 - 1) * 10 ^ 9) {u : Nanoseconds} (within : (u : ℕ) < t + ttl) :
    TreatedLive request.item (reading u) := by
  obtain ⟨thread', there', asked⟩ := asked_of_takes run member takes
  obtain rfl : thread' = thread := Option.some.inj (there'.symm.trans there)
  rw [treatedLive_iff, asked.expiresAt lasts]
  exact lt_expiry ends within

end OAuthRelay.DynamoDb
