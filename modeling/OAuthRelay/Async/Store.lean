import Mathlib.Data.Nat.Notation
import Mathlib.Logic.Basic

/-!
# Expiring key-value stores

A store maps a key to an entry, a value with the instant at which it expires. An
entry is live as long as the clock has not reached that instant; an expired entry
stays where it is and counts as absent. Four operations act on a store: a read, a
write that needs the key to be free, a write that needs the key to hold an expected
value, and a removal.

Every operation changes at most one key. A change is therefore a key with what the
key holds afterwards (`Change`), and the store after an operation is the store
before it with the change applied (`applyChange`).
-/

set_option autoImplicit false

namespace OAuthRelay.Async

/-- A value and the instant from which it counts as absent. -/
structure Entry (V : Type) where
  value : V
  expires : ℕ
  deriving DecidableEq

/-- What every key holds, live or expired. -/
abbrev Store (K V : Type) := K → Option (Entry V)

/-- One key and what it holds afterwards. -/
abbrev Change (K V : Type) := K × Option (Entry V)

namespace Store

variable {K V : Type}

/-- The store without entries. -/
def empty : Store K V := fun _ => none

/-- The live value of a key, if any. -/
def live (σ : Store K V) (now : ℕ) (key : K) : Option V :=
  match σ key with
  | some entry => if now < entry.expires then some entry.value else none
  | none => none

/-- The value a key holds, live or expired. -/
def held (σ : Store K V) (key : K) : Option V := (σ key).map Entry.value

theorem live_eq_some_iff {σ : Store K V} {now : ℕ} {key : K} {value : V} :
    σ.live now key = some value ↔ ∃ e, σ key = some e ∧ now < e.expires ∧ e.value = value := by
  unfold live
  cases entry : σ key with
  | none => simp
  | some e =>
      by_cases fresh : now < e.expires
      · simp [fresh]
      · simp [fresh]

theorem live_of_entry {σ : Store K V} {now : ℕ} {key : K} {e : Entry V}
    (h : σ key = some e) (fresh : now < e.expires) : σ.live now key = some e.value :=
  live_eq_some_iff.mpr ⟨e, h, fresh, rfl⟩

theorem live_eq_none_of_absent {σ : Store K V} {now : ℕ} {key : K} (h : σ key = none) :
    σ.live now key = none := by
  simp [live, h]

/-- A key can hold anything. -/
theorem exists_live (now : ℕ) (key : K) (value : Option V) :
    ∃ σ : Store K V, σ.live now key = value := by
  cases value with
  | none => exact ⟨empty, rfl⟩
  | some v =>
      exact ⟨fun _ => some ⟨v, now + 1⟩,
        live_of_entry (e := ⟨v, now + 1⟩) rfl (Nat.lt_succ_self now)⟩

/-- `put_if_absent`: the change it makes. An expired entry counts as absent. -/
def putChange (σ : Store K V) (now : ℕ) (key : K) (value : V) (ttl : ℕ) :
    Option (Change K V) :=
  if (σ.live now key).isNone then some (key, some ⟨value, now + ttl⟩) else none

theorem putChange_isSome {σ : Store K V} {now : ℕ} {key : K} {value : V} {ttl : ℕ} :
    (σ.putChange now key value ttl).isSome = true ↔ σ.live now key = none := by
  unfold putChange
  cases σ.live now key <;> simp

theorem putChange_eq_some {σ : Store K V} {now : ℕ} {key : K} {value : V} {ttl : ℕ}
    {c : Change K V} (h : σ.putChange now key value ttl = some c) :
    σ.live now key = none ∧ c = (key, some ⟨value, now + ttl⟩) := by
  refine ⟨putChange_isSome.mp (by rw [h]; rfl), ?_⟩
  unfold putChange at h
  split at h
  · simpa using h.symm
  · cases h

section Swap

variable [DecidableEq V]

/-- `compare_and_swap`: the change it makes. An absent or expired entry never matches. -/
def swapChange (σ : Store K V) (now : ℕ) (key : K) (expected new : V) (ttl : ℕ) :
    Option (Change K V) :=
  if σ.live now key = some expected then some (key, some ⟨new, now + ttl⟩) else none

theorem swapChange_isSome {σ : Store K V} {now : ℕ} {key : K} {expected new : V} {ttl : ℕ} :
    (σ.swapChange now key expected new ttl).isSome = true ↔ σ.live now key = some expected := by
  unfold swapChange
  split <;> simp_all

theorem swapChange_eq_some {σ : Store K V} {now : ℕ} {key : K} {expected new : V} {ttl : ℕ}
    {c : Change K V} (h : σ.swapChange now key expected new ttl = some c) :
    σ.live now key = some expected ∧ c = (key, some ⟨new, now + ttl⟩) := by
  unfold swapChange at h
  split at h
  · rename_i live
    exact ⟨live, by simpa using h.symm⟩
  · cases h

end Swap

variable [DecidableEq K]

/-- The store with one change made, if there is one. -/
def applyChange (σ : Store K V) : Option (Change K V) → Store K V
  | none => σ
  | some (key, entry) => fun other => if other = key then entry else σ other

@[simp] theorem applyChange_none (σ : Store K V) : σ.applyChange none = σ := rfl

@[simp] theorem applyChange_same (σ : Store K V) (key : K) (entry : Option (Entry V)) :
    σ.applyChange (some (key, entry)) key = entry := by
  simp [applyChange]

theorem applyChange_other (σ : Store K V) {key other : K} (h : other ≠ key)
    (entry : Option (Entry V)) : σ.applyChange (some (key, entry)) other = σ other := by
  simp [applyChange, h]

/-- A key the change does not name keeps its entry. -/
theorem applyChange_of_forall_ne (σ : Store K V) {change : Option (Change K V)} {key : K}
    (h : ∀ entry, change ≠ some (key, entry)) : σ.applyChange change key = σ key := by
  cases change with
  | none => rfl
  | some c =>
      obtain ⟨other, entry⟩ := c
      refine applyChange_other σ (fun same => ?_) entry
      subst same
      exact h entry rfl

/-- **A key that holds something else after a change is the key the change names.** -/
theorem change_of_ne (σ : Store K V) {change : Option (Change K V)} {key : K}
    (h : σ.applyChange change key ≠ σ key) :
    change = some (key, σ.applyChange change key) := by
  cases change with
  | none => exact absurd rfl h
  | some c =>
      obtain ⟨other, entry⟩ := c
      by_cases same : key = other
      · subst same
        simp
      · exact absurd (applyChange_other σ same entry) h

end Store

end OAuthRelay.Async
