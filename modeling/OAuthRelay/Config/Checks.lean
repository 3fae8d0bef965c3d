import OAuthRelay.Async.Memo
import OAuthRelay.Config.Resources

/-!
# Relays that pass their checks

A relay is checked part by part, and the first part that fails ends the check. So each part of a
relay that passes has passed: its scopes are scope tokens among those that are allowed, its
matchers are valid, and no matcher needs an option that is off.
-/

set_option autoImplicit false

namespace OAuthRelay.Config

variable {R : Rules}

/-! ## One check after the other -/

/-- What follows a check has been reached when the check has passed. -/
theorem ok_of_unless {α : Type} {failed : Prop} [Decidable failed] {error : String}
    {rest : Except String α} {value : α}
    (passed : (if failed then (do throw error; rest) else rest) = .ok value) :
    ¬ failed ∧ rest = .ok value := by
  split at passed
  · cases passed
  · exact ⟨‹_›, passed⟩

theorem ok_of_checkDistinct {α : Type} {check : α → Except String Unit} {identity : α → String}
    {duplicate : String} {xs : List α} {u : Unit} : ∀ {seen : List String},
    checkDistinct check identity duplicate seen xs = .ok u → ∀ x ∈ xs, check x = .ok () := by
  induction xs with
  | nil => simp
  | cons x rest ih =>
      intro seen passed
      obtain ⟨_, first, passed⟩ := Memo.bind_eq_ok.mp passed
      exact List.forall_mem_cons.mpr ⟨first, ih (ok_of_unless passed).2⟩

/-! ## Parts of a relay -/

/-- The scopes and the matchers have been checked. -/
structure Relay.Checked (relay : Relay R) : Prop where
  scopes : checkScopes "scopes.default" relay.scopes = .ok ()
  allowed : ∀ allowed, relay.allowedScopes = some allowed → ∀ scope ∈ relay.scopes, scope ∈ allowed
  matchers : ∀ matcher ∈ relay.redirectPolicy, R.validateMatcher matcher = .ok ()

/-- The checks of the redirect policy come last. -/
theorem matchers_of_checks {relay : Relay R} {u : Unit} (valid : (do
      if relay.redirectPolicy.isEmpty then throw "redirect_policy must contain at least one matcher"
      checkDistinct R.validateMatcher R.identity "redirect_policy must not contain duplicates" []
        relay.redirectPolicy
      relay.clientAuth.validate R) = .ok u) :
    ∀ matcher ∈ relay.redirectPolicy, R.validateMatcher matcher = .ok () := by
  obtain ⟨_, distinct, -⟩ := Memo.bind_eq_ok.mp (ok_of_unless valid).2
  exact ok_of_checkDistinct distinct

/-- The checks from those of the scopes on. -/
theorem Relay.checked_of_checks {relay : Relay R} {u : Unit} (valid : (do
      checkScopes "scopes.default" relay.scopes
      if let some allowed := relay.allowedScopes then
        checkScopes "scopes.allowed" allowed
        if !relay.scopes.all (fun scope => scope ∈ allowed) then
          throw "scopes.default must be contained in scopes.allowed"
      if relay.redirectPolicy.isEmpty then throw "redirect_policy must contain at least one matcher"
      checkDistinct R.validateMatcher R.identity "redirect_policy must not contain duplicates" []
        relay.redirectPolicy
      relay.clientAuth.validate R) = .ok u) : relay.Checked := by
  obtain ⟨_, scopes, valid⟩ := Memo.bind_eq_ok.mp valid
  dsimp only at valid
  split at valid
  · rename_i allowed known
    obtain ⟨_, -, valid⟩ := Memo.bind_eq_ok.mp valid
    obtain ⟨contained, valid⟩ := ok_of_unless valid
    refine ⟨scopes, fun allowed' same => ?_, matchers_of_checks valid⟩
    obtain rfl := Option.some.inj (known.symm.trans same)
    simpa using contained
  · rename_i open'
    exact ⟨scopes, fun allowed known => absurd known (open' allowed), matchers_of_checks valid⟩

/-- The checks from those of the refresh tokens on. -/
theorem Relay.checked_of_refreshChecks {relay : Relay R} {u : Unit} (valid : (do
      relay.refreshTokens.validate
      if let .isPublic := relay.clientAuth then
        if relay.refreshTokens.mode ≠ Codes.RefreshTokenMode.rotating then
          throw publicRequiresRotating
      checkScopes "scopes.default" relay.scopes
      if let some allowed := relay.allowedScopes then
        checkScopes "scopes.allowed" allowed
        if !relay.scopes.all (fun scope => scope ∈ allowed) then
          throw "scopes.default must be contained in scopes.allowed"
      if relay.redirectPolicy.isEmpty then throw "redirect_policy must contain at least one matcher"
      checkDistinct R.validateMatcher R.identity "redirect_policy must not contain duplicates" []
        relay.redirectPolicy
      relay.clientAuth.validate R) = .ok u) : relay.Checked := by
  obtain ⟨_, -, valid⟩ := Memo.bind_eq_ok.mp valid
  dsimp only at valid
  split at valid
  · exact checked_of_checks (ok_of_unless valid).2
  · exact checked_of_checks valid

theorem Relay.checked_of_validate {relay : Relay R} {u : Unit} (valid : relay.validate = .ok u) :
    relay.Checked := by
  unfold Relay.validate at valid
  have policy := (ok_of_unless valid).2
  dsimp only at policy
  split at policy
  · obtain ⟨_, -, policy⟩ := Memo.bind_eq_ok.mp policy
    exact checked_of_refreshChecks policy
  · exact checked_of_refreshChecks policy

theorem Relay.checked_of_validateFor {relay : Relay R} {allowHttpOrigins : Bool} {u : Unit}
    (valid : relay.validateFor allowHttpOrigins = .ok u) : relay.Checked := by
  obtain ⟨_, valid, -⟩ := Memo.bind_eq_ok.mp valid
  exact checked_of_validate valid

/-- Without the option no matcher is for an `http` origin. -/
theorem Relay.httpOrigin_of_validateFor {relay : Relay R} {u : Unit}
    (valid : relay.validateFor false = .ok u) :
    ∀ matcher ∈ relay.redirectPolicy, R.httpOrigin matcher = none := by
  obtain ⟨_, -, valid⟩ := Memo.bind_eq_ok.mp valid
  rw [if_pos Bool.not_false] at valid
  split at valid
  · cases valid
  · rename_i none
    exact List.findSome?_eq_none_iff.mp (Option.eq_none_iff_forall_ne_some.mpr none)

end OAuthRelay.Config
