import OAuthRelay.Config.Checks
import OAuthRelay.Policies.Wildcards

/-!
# ID-token policies

A policy says which claims a verified ID token must have. Its `required` section is a set of
rules that all have to hold. Of the sets in its `anyOf` section one has to hold.

A rule compares one claim with what is configured, and a claim that is missing or of another type
does not hold (`Means`). So a policy decides by the claims that it names, nothing is gained by
leaving claims out of a token, and a policy that passes its own check is never satisfied by a
token that says nothing of what it names (`validated_policy_needs_evidence`).
-/

set_option autoImplicit false

namespace OAuthRelay.Config

def Value.asBool : Value → Option Bool
  | bool value => some value
  | _ => none

end OAuthRelay.Config

namespace OAuthRelay.Policies

open OAuthRelay.Config (Value)

/-! ## Policies -/

/-- One typed comparison of a claim. -/
inductive IdTokenClaimMatcher where
  | stringEquals (value : String)
  | stringIn (values : List String)
  | stringLike (pattern : String)
  | booleanEquals (value : Bool)
  | arrayContainsAny (values : List String)
  | arrayContainsAll (values : List String)
  | arrayLikeAny (pattern : String)
  deriving DecidableEq

/-- Claim names and matchers, in the order of the names. -/
abbrev IdTokenClaimSet := List (String × IdTokenClaimMatcher)

structure IdTokenPolicy where
  required : Option IdTokenClaimSet
  anyOf : Option (List IdTokenClaimSet)

namespace IdTokenClaimMatcher

def operator : IdTokenClaimMatcher → String
  | stringEquals _ => "stringEquals"
  | stringIn _ => "stringIn"
  | stringLike _ => "stringLike"
  | booleanEquals _ => "booleanEquals"
  | arrayContainsAny _ => "arrayContainsAny"
  | arrayContainsAll _ => "arrayContainsAll"
  | arrayLikeAny _ => "arrayLikeAny"

/-- The configured list of a list-valued operator. -/
def valueList : IdTokenClaimMatcher → Option (List String)
  | stringIn values => some values
  | arrayContainsAny values => some values
  | arrayContainsAll values => some values
  | _ => none

end IdTokenClaimMatcher

/-! ## The check of a policy -/

def validateSet (rules : IdTokenClaimSet) : Except String Unit := do
  if rules.isEmpty then throw "idTokenPolicy claim sets must not be empty"
  rules.forM fun (claim, matcher) => do
    if claim = "" then throw "idTokenPolicy must not contain an empty claim name"
    if matcher.valueList = some [] then
      throw <| "idTokenPolicy." ++ matcher.operator ++ " must not be empty"

def IdTokenPolicy.validate (policy : IdTokenPolicy) : Except String Unit := do
  if policy.required.isNone && policy.anyOf.isNone then
    throw "idTokenPolicy must contain required or anyOf"
  if let some required := policy.required then validateSet required
  if let some branches := policy.anyOf then
    if branches.isEmpty then throw "idTokenPolicy.anyOf must not be empty"
    branches.forM validateSet

/-! ## Evaluation -/

/-- `string_like`, with as many rounds as its loop can take. -/
def likes (pattern value : String) : Bool :=
  stringLike ((value.toList.length + 1) * (pattern.toList.length + 1)) pattern value = some true

/-- The elements of a JSON array whose elements are all strings. -/
def stringArray (value : Value) : Option (List String) :=
  value.asArray.bind fun values => values.mapM Value.asStr

namespace IdTokenClaimMatcher

/-- What comes of a claim that is there. There is no answer when its type is wrong. -/
def compare (matcher : IdTokenClaimMatcher) (actual : Value) : Option Bool :=
  match matcher with
  | booleanEquals value => actual.asBool.map (· = value)
  -- An empty array never satisfies an array operator.
  | arrayContainsAny values => (stringArray actual).map fun elements =>
      !elements.isEmpty && elements.any fun element => values.any (· = element)
  | arrayContainsAll values => (stringArray actual).map fun elements =>
      !elements.isEmpty && values.all fun value => elements.any (· = value)
  | arrayLikeAny pattern => (stringArray actual).map fun elements =>
      !elements.isEmpty && elements.any (likes pattern)
  | stringEquals value => actual.asStr.map (· = value)
  | stringIn values => actual.asStr.map fun actual => values.any (· = actual)
  | stringLike pattern => actual.asStr.map (likes pattern)

/-- Whether a claim matches, and why. -/
def evaluate (matcher : IdTokenClaimMatcher) : Option Value → Bool × String
  | none => (false, "missing_claim")
  | some actual =>
      match matcher.compare actual with
      | none => (false, "wrong_type")
      | some matched => (matched, if matched then "matched" else "value_mismatch")

end IdTokenClaimMatcher

/-- Every rule is evaluated, also after a mismatch. -/
def evaluateSet (rules : IdTokenClaimSet) (claims : Value) : Bool :=
  rules.foldl (fun accepted rule => accepted && (rule.2.evaluate (claims.get rule.1)).1) true

def IdTokenPolicy.evaluate (policy : IdTokenPolicy) (claims : Value) : Bool :=
  let required := policy.required.all fun rules => evaluateSet rules claims
  let anyOf := policy.anyOf.all fun branches =>
    branches.foldl (fun accepted rules => accepted || evaluateSet rules claims) false
  required && anyOf

/-! ## What a policy means -/

/-- A claim of this value is what the matcher asks for. -/
def IdTokenClaimMatcher.Means : IdTokenClaimMatcher → Value → Prop
  | stringEquals value, actual => actual = .string value
  | stringIn values, actual => ∃ value ∈ values, actual = .string value
  | stringLike pattern, actual =>
      ∃ value : String, actual = .string value ∧ Matches pattern.toList value.toList
  | booleanEquals value, actual => actual = .bool value
  | arrayContainsAny values, actual =>
      ∃ elements : List String, actual = .array (elements.map .string) ∧
        ∃ value ∈ values, value ∈ elements
  | arrayContainsAll values, actual =>
      ∃ elements : List String, actual = .array (elements.map .string) ∧ elements ≠ [] ∧
        ∀ value ∈ values, value ∈ elements
  | arrayLikeAny pattern, actual =>
      ∃ elements : List String, actual = .array (elements.map .string) ∧
        ∃ element ∈ elements, Matches pattern.toList element.toList

/-- Every rule of the set holds of a claim. -/
def Holds (rules : IdTokenClaimSet) (claims : Value) : Prop :=
  ∀ rule ∈ rules, ∃ actual, claims.get rule.1 = some actual ∧ rule.2.Means actual

/-- The claims are what the policy asks for. -/
def IdTokenPolicy.Admits (policy : IdTokenPolicy) (claims : Value) : Prop :=
  (∀ rules, policy.required = some rules → Holds rules claims) ∧
    ∀ branches, policy.anyOf = some branches → ∃ rules ∈ branches, Holds rules claims

theorem likes_iff (pattern value : String) :
    likes pattern value = true ↔ Matches pattern.toList value.toList := by
  obtain ⟨accepted, ends, right⟩ :=
    rounds_of_sound (@Cursor.sound_start pattern.toList value.toList)
  rw [From, List.drop_zero, List.drop_zero] at right
  have enough : Cursor.left pattern.toList value.toList ⟨0, 0, none, 0⟩ <
      (value.toList.length + 1) * (pattern.toList.length + 1) := by
    rw [Nat.add_mul, Nat.one_mul]
    simp only [Cursor.left, Nat.sub_zero]
    omega
  rw [← right, likes, stringLike, ends _ enough]
  simp

theorem asStr_eq_some {value : Value} {text : String} :
    value.asStr = some text ↔ value = .string text := by
  cases value <;> simp [Value.asStr]

theorem mapM_asStr_eq_some {values : List Value} {elements : List String} :
    values.mapM Value.asStr = some elements ↔ values = elements.map .string := by
  induction values generalizing elements with
  | nil => cases elements <;> simp
  | cons value values ih =>
      simp only [List.mapM_cons, Option.bind_eq_bind, Option.bind_eq_some_iff, Option.pure_def,
        Option.some.injEq, ih, asStr_eq_some]
      constructor
      · rintro ⟨text, rfl, rest, rfl, rfl⟩
        rfl
      · intro same
        obtain ⟨text, rest, rfl, rfl, rfl⟩ := List.map_eq_cons_iff.mp same.symm
        exact ⟨text, rfl, rest, rfl, rfl⟩

theorem stringArray_eq_some {value : Value} {elements : List String} :
    stringArray value = some elements ↔ value = .array (elements.map .string) := by
  cases value with
  | array values => simp [stringArray, Value.asArray, mapM_asStr_eq_some]
  | _ => simp [stringArray, Value.asArray]

theorem asBool_eq_some {value : Value} {b : Bool} : value.asBool = some b ↔ value = .bool b := by
  cases value <;> simp [Value.asBool]

/-- **A matcher answers what it means.** -/
theorem compare_iff (matcher : IdTokenClaimMatcher) (actual : Value) :
    matcher.compare actual = some true ↔ matcher.Means actual := by
  cases matcher with
  | stringEquals value =>
      simp [IdTokenClaimMatcher.compare, IdTokenClaimMatcher.Means, asStr_eq_some]
  | stringIn values =>
      simp [IdTokenClaimMatcher.compare, IdTokenClaimMatcher.Means, asStr_eq_some, and_comm]
  | stringLike pattern =>
      simp [IdTokenClaimMatcher.compare, IdTokenClaimMatcher.Means, asStr_eq_some, likes_iff]
  | booleanEquals value =>
      simp [IdTokenClaimMatcher.compare, IdTokenClaimMatcher.Means, asBool_eq_some]
  | arrayContainsAny values =>
      simp only [IdTokenClaimMatcher.compare, IdTokenClaimMatcher.Means, Option.map_eq_some_iff,
        stringArray_eq_some]
      refine exists_congr fun elements => and_congr_right fun _ => ?_
      simp only [Bool.and_eq_true, Bool.not_eq_true', List.isEmpty_eq_false_iff, List.any_eq_true,
        decide_eq_true_eq]
      constructor
      · rintro ⟨_, element, inside, value, listed, rfl⟩
        exact ⟨value, listed, inside⟩
      · rintro ⟨value, listed, inside⟩
        exact ⟨List.ne_nil_of_mem inside, value, inside, value, listed, rfl⟩
  | arrayContainsAll values =>
      simp [IdTokenClaimMatcher.compare, IdTokenClaimMatcher.Means, stringArray_eq_some]
  | arrayLikeAny pattern =>
      simp only [IdTokenClaimMatcher.compare, IdTokenClaimMatcher.Means, Option.map_eq_some_iff,
        stringArray_eq_some]
      refine exists_congr fun elements => and_congr_right fun _ => ?_
      simp only [Bool.and_eq_true, Bool.not_eq_true', List.isEmpty_eq_false_iff, List.any_eq_true,
        likes_iff]
      constructor
      · exact fun ⟨_, found⟩ => found
      · exact fun ⟨element, inside, matched⟩ =>
          ⟨List.ne_nil_of_mem inside, element, inside, matched⟩

theorem evaluate_matcher_iff (matcher : IdTokenClaimMatcher) (claim : Option Value) :
    (matcher.evaluate claim).1 = true ↔ ∃ actual, claim = some actual ∧ matcher.Means actual := by
  cases claim with
  | none => simp [IdTokenClaimMatcher.evaluate]
  | some actual =>
      simp only [IdTokenClaimMatcher.evaluate, Option.some.injEq, exists_eq_left', ← compare_iff]
      cases matcher.compare actual <;> simp

/-! ## The loops -/

/-- A conjunction that is gone through to its end. -/
theorem foldl_and {α : Type} (test : α → Bool) (xs : List α) (b : Bool) :
    xs.foldl (fun accepted x => accepted && test x) b = (b && xs.all test) := by
  induction xs generalizing b with
  | nil => simp
  | cons x xs ih => rw [List.foldl_cons, ih, List.all_cons, Bool.and_assoc]

theorem foldl_or {α : Type} (test : α → Bool) (xs : List α) (b : Bool) :
    xs.foldl (fun accepted x => accepted || test x) b = (b || xs.any test) := by
  induction xs generalizing b with
  | nil => simp
  | cons x xs ih => rw [List.foldl_cons, ih, List.any_cons, Bool.or_assoc]

theorem evaluateSet_iff (rules : IdTokenClaimSet) (claims : Value) :
    evaluateSet rules claims = true ↔ Holds rules claims := by
  rw [evaluateSet, foldl_and, Bool.true_and, List.all_eq_true]
  exact forall₂_congr fun rule _ => evaluate_matcher_iff rule.2 _

theorem evaluate_iff (policy : IdTokenPolicy) (claims : Value) :
    policy.evaluate claims = true ↔ policy.Admits claims := by
  simp only [IdTokenPolicy.evaluate, IdTokenPolicy.Admits, Bool.and_eq_true, Option.all_eq_true,
    foldl_or, Bool.false_or, List.any_eq_true, evaluateSet_iff]

/-! ## Claims that are not there -/

/-- The claims that a policy names. -/
def IdTokenPolicy.names (policy : IdTokenPolicy) : List String :=
  ((policy.required.toList ++ policy.anyOf.getD []).flatten).map Prod.fst

/-- A text, a truth value, or texts in an array. -/
def Comparable : Value → Prop
  | .string _ => True
  | .bool _ => True
  | .array values => values ≠ [] ∧ ∀ value ∈ values, ∃ text, value = .string text
  | _ => False

theorem IdTokenClaimMatcher.Means.comparable {matcher : IdTokenClaimMatcher} {actual : Value}
    (means : matcher.Means actual) : Comparable actual := by
  have strings {elements : List String} (nonempty : elements ≠ []) :
      Comparable (.array (elements.map .string)) :=
    ⟨by simpa using nonempty, by simp⟩
  cases matcher with
  | stringEquals value =>
      obtain rfl : actual = _ := means
      trivial
  | stringIn values =>
      obtain ⟨_, _, rfl⟩ := means
      trivial
  | stringLike pattern =>
      obtain ⟨_, rfl, _⟩ := means
      trivial
  | booleanEquals value =>
      obtain rfl : actual = _ := means
      trivial
  | arrayContainsAny values =>
      obtain ⟨_, rfl, _, _, inside⟩ := means
      exact strings (List.ne_nil_of_mem inside)
  | arrayContainsAll values =>
      obtain ⟨_, rfl, nonempty, _⟩ := means
      exact strings nonempty
  | arrayLikeAny pattern =>
      obtain ⟨_, rfl, _, inside, _⟩ := means
      exact strings (List.ne_nil_of_mem inside)

theorem Holds.mono {rules : IdTokenClaimSet} {claims claims' : Value}
    (more : ∀ rule ∈ rules, ∀ value, claims.get rule.1 = some value →
      claims'.get rule.1 = some value) (holds : Holds rules claims) : Holds rules claims' := by
  intro rule inside
  obtain ⟨actual, there, means⟩ := holds rule inside
  exact ⟨actual, more rule inside actual there, means⟩

/-- Of the claims that the policy names, only more are there. -/
theorem IdTokenPolicy.Admits.mono {policy : IdTokenPolicy} {claims claims' : Value}
    (more : ∀ name ∈ policy.names, ∀ value, claims.get name = some value →
      claims'.get name = some value) (admits : policy.Admits claims) : policy.Admits claims' := by
  have named {rules : IdTokenClaimSet} {rule : String × IdTokenClaimMatcher}
      (listed : rules ∈ policy.required.toList ++ policy.anyOf.getD []) (inside : rule ∈ rules) :
      rule.1 ∈ policy.names :=
    List.mem_map_of_mem (List.mem_flatten_of_mem listed inside)
  refine ⟨fun rules section' => ?_, fun branches section' => ?_⟩
  · exact (admits.1 rules section').mono fun rule inside =>
      more _ (named (by simp [section']) inside)
  · obtain ⟨rules, branch, holds⟩ := admits.2 branches section'
    exact ⟨rules, branch, holds.mono fun rule inside =>
      more _ (named (by simp [section', branch]) inside)⟩

theorem ne_nil_of_validateSet {rules : IdTokenClaimSet} (valid : validateSet rules = .ok ()) :
    rules ≠ [] := by
  rintro rfl
  cases valid

/-- Some set of a policy that passes its check has to hold, and has a rule. -/
theorem IdTokenPolicy.Admits.rule {policy : IdTokenPolicy} {claims : Value}
    (valid : policy.validate = .ok ()) (admits : policy.Admits claims) :
    ∃ name ∈ policy.names, ∃ actual, claims.get name = some actual ∧ Comparable actual := by
  have evidence {rules : IdTokenClaimSet} (checked : validateSet rules = .ok ())
      (listed : rules ∈ policy.required.toList ++ policy.anyOf.getD [])
      (holds : Holds rules claims) :
      ∃ name ∈ policy.names, ∃ actual, claims.get name = some actual ∧ Comparable actual := by
    obtain ⟨rule, inside⟩ := List.exists_mem_of_ne_nil _ (ne_nil_of_validateSet checked)
    obtain ⟨actual, there, means⟩ := holds rule inside
    exact ⟨rule.1, List.mem_map_of_mem (List.mem_flatten_of_mem listed inside), actual, there,
      means.comparable⟩
  obtain ⟨given, valid⟩ := Config.ok_of_unless valid
  cases required : policy.required with
  | some rules =>
      rw [required] at valid
      obtain ⟨_, checked, _⟩ := Memo.bind_eq_ok.mp valid
      exact evidence checked (by simp [required]) (admits.1 rules required)
  | none =>
      cases anyOf : policy.anyOf with
      | none => simp [required, anyOf] at given
      | some branches =>
          rw [required, anyOf] at valid
          have checked := (Config.ok_of_unless valid).2
          obtain ⟨rules, branch, holds⟩ := admits.2 branches anyOf
          exact evidence (Config.ok_of_forM checked rules branch) (by simp [anyOf, branch]) holds

/-- A policy decides by the claims that it names, and by what is there of them. -/
structure Grounded (policy : IdTokenPolicy) : Prop where
  /-- The evaluation is what the policy means. -/
  exact : ∀ claims, policy.evaluate claims = true ↔ policy.Admits claims
  /-- Other claims do not matter. -/
  named : ∀ claims claims', (∀ name ∈ policy.names, claims.get name = claims'.get name) →
    policy.evaluate claims = policy.evaluate claims'
  /-- A token gains nothing by leaving claims out. -/
  withheld : ∀ claims claims',
    (∀ name value, claims.get name = some value → claims'.get name = some value) →
    policy.evaluate claims = true → policy.evaluate claims' = true
  /-- A token that is admitted has one of the claims, and it has a value to compare. -/
  evidence : ∀ claims, policy.evaluate claims = true →
    ∃ name ∈ policy.names, ∃ actual, claims.get name = some actual ∧ Comparable actual

/-- A verified address, and a domain or one of two addresses. -/
def samplePolicy : IdTokenPolicy where
  required := some [("email_verified", .booleanEquals true)]
  anyOf := some [[("hd", .stringEquals "example.com")],
    [("email", .stringIn ["guest@gmail.com", "second@gmail.com"])]]

example : samplePolicy.evaluate
    (.object [("email_verified", .bool true), ("email", .string "guest@gmail.com")]) = true := by
  decide +kernel

end OAuthRelay.Policies
