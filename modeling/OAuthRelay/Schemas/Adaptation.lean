import Mathlib.Data.List.Forall2
import OAuthRelay.Schemas.Meaning

/-!
# Adapting a schema for Kubernetes

A structural schema declares every property of an object at the object, and its alternatives
only restrict what is declared. So the properties of alternatives are hoisted: copies of one
property are merged into one, and every alternative becomes a rule, its own copy without what
only a declaration may have. A closed alternative forbids the names of the others.

Merging copies takes away what they do not have alike, but only of some keywords; of the others
the first copy's is kept. It fails if the types of the copies differ.
-/

set_option autoImplicit false

namespace OAuthRelay.Schemas

variable {P : Type}

/-! ## Validation copies -/

/-- What a declaration has and a rule does not. -/
def Keywords.validationOnly (k : Keywords P) : Keywords P where
  type := none
  nullable := false
  required := k.required
  plain := k.plain.filter fun entry => decide (entry.1 ∉ annotations)

namespace Schema

mutual

def validationOnly : Schema P → Schema P
  | ⟨k, ps, _, it, no, all, one, any⟩ =>
      ⟨k.validationOnly, validationOnlyProperties ps, none, validationOnlyOption it,
        validationOnlyOption no, validationOnlyAll all, validationOnlyAll one,
        validationOnlyAll any⟩

def validationOnlyProperties : Option (List (String × Schema P)) →
    Option (List (String × Schema P))
  | none => none
  | some ps => some (validationOnlyFields ps)

def validationOnlyFields : List (String × Schema P) → List (String × Schema P)
  | [] => []
  | (name, s) :: rest => (name, validationOnly s) :: validationOnlyFields rest

def validationOnlyOption : Option (Schema P) → Option (Schema P)
  | none => none
  | some s => some (validationOnly s)

def validationOnlyAll : List (Schema P) → List (Schema P)
  | [] => []
  | s :: rest => validationOnly s :: validationOnlyAll rest

end

/-! ## Merging copies -/

section Merging

variable [DecidableEq P]

/-- The plain keywords that a merged property has only if both copies have them alike. -/
def relaxedKeywords : List String := ["enum", "const", "minLength", "maxLength", "pattern"]

/-- The type of a merged property; none where the assertion fails. -/
def mergeType : Option Kind → Option Kind → Option (Option Kind)
  | none, some kind => some (some kind)
  | some left, some right => if left = right then some (some left) else none
  | kind, none => some kind

/-- The keywords of a merged property. -/
def relaxed (type : Option Kind) (a b : Keywords P) : Keywords P where
  type := type
  nullable := a.nullable
  required := if a.required = b.required then a.required else none
  plain := a.plain.filter fun entry =>
    decide (entry.1 ∉ relaxedKeywords) || decide (b.plain.lookup entry.1 = some entry.2)

/-- Sets a field that is there. -/
def setField (fields : List (String × Schema P)) (name : String) (s : Schema P) :
    List (String × Schema P) :=
  fields.map fun p => if p.1 = name then (name, s) else p

mutual

/-- `merge_property`; none where it panics. -/
def mergeProperty (existing : Schema P) : Schema P → Option (Schema P)
  | ⟨k, ps, ad, it, no, all, one, any⟩ =>
      if existing = ⟨k, ps, ad, it, no, all, one, any⟩ then some existing
      else do
        let type ← mergeType existing.keywords.type k.type
        let properties ← mergeProperties existing.properties ps
        some
          { keywords := relaxed type existing.keywords k
            properties := properties
            additional := existing.additional
            items := existing.items
            negated := if existing.negated = no then existing.negated else none
            allOf := if existing.allOf = all then existing.allOf else []
            oneOf := existing.oneOf
            anyOf := existing.anyOf }

def mergeProperties (target : Option (List (String × Schema P))) :
    Option (List (String × Schema P)) → Option (Option (List (String × Schema P)))
  | none => some target
  | some fields => (mergeFields (target.getD []) fields).map some

def mergeFields (target : List (String × Schema P)) :
    List (String × Schema P) → Option (List (String × Schema P))
  | [] => some target
  | (name, field) :: rest =>
      match target.lookup name with
      | some existing =>
          (mergeProperty existing field).bind fun merged =>
            mergeFields (setField target name merged) rest
      | none => mergeFields (target ++ [(name, field)]) rest

end

/-! ## Hoisting -/

/-- `{"not": {"required": [name]}}`. -/
def forbidding (name : String) : Schema P :=
  { blank with
    negated := some { blank with keywords := { (blank : Schema P).keywords with
      required := some [name] } } }

/-- A closed alternative forbids the names that it does not declare. -/
def forbid (names : List String) (branch : Schema P) : Schema P :=
  if branch.additional = some none then
    { branch with
      allOf := branch.allOf ++
        (names.filter fun name => decide (name ∉ branch.names)).map forbidding }
  else branch

/-- An alternative among the names that are declared. -/
def rule (names : List String) (branch : Schema P) : Schema P :=
  { blank with allOf := [(branch.forbid names).validationOnly] }

/-- The properties of an object and of its alternatives. -/
def hoistedFields (fields : List (String × Schema P)) (branches : List (Schema P)) :
    Option (List (String × Schema P)) :=
  branches.foldlM (fun fields branch => mergeFields fields branch.fields) fields

/-- Some alternative has properties. -/
def hoistable (branches : List (Schema P)) : Bool := branches.any fun b => b.properties.isSome

/-- The object that declares the hoisted properties. -/
def declaring (s : Schema P) (fields : List (String × Schema P)) : Schema P :=
  { s with
    keywords := { s.keywords with type := some .object }
    properties := some fields }

def hoistOneOf (s : Schema P) : Option (Schema P) :=
  if hoistable s.oneOf then
    (hoistedFields s.fields s.oneOf).map fun fields =>
      { s.declaring fields with oneOf := s.oneOf.map (rule (fields.map Prod.fst)) }
  else some s

def hoistAnyOf (s : Schema P) : Option (Schema P) :=
  if hoistable s.anyOf then
    (hoistedFields s.fields s.anyOf).map fun fields =>
      { s.declaring fields with anyOf := s.anyOf.map (rule (fields.map Prod.fst)) }
  else some s

mutual

/-- `adapt`; none where it panics. -/
def adapt : Schema P → Option (Schema P)
  | ⟨k, ps, ad, it, no, all, one, any⟩ => do
      let s : Schema P := ⟨k, ← adaptProperties ps, ← adaptAdditional ad, ← adaptOption it,
        ← adaptOption no, ← adaptAll all, ← adaptAll one, ← adaptAll any⟩
      hoistAnyOf (← hoistOneOf s)

def adaptProperties : Option (List (String × Schema P)) →
    Option (Option (List (String × Schema P)))
  | none => some none
  | some ps => (adaptFields ps).map some

def adaptFields : List (String × Schema P) → Option (List (String × Schema P))
  | [] => some []
  | (name, s) :: rest => do some ((name, ← adapt s) :: (← adaptFields rest))

def adaptAdditional : Option (Option (Schema P)) → Option (Option (Option (Schema P)))
  | none => some none
  | some s => (adaptOption s).map some

def adaptOption : Option (Schema P) → Option (Option (Schema P))
  | none => some none
  | some s => (adapt s).map some

def adaptAll : List (Schema P) → Option (List (Schema P))
  | [] => some []
  | s :: rest => do some ((← adapt s) :: (← adaptAll rest))

end

end Merging

end Schema

end OAuthRelay.Schemas
