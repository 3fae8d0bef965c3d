import Mathlib.Data.List.Nodup
import Mathlib.Data.Nat.Notation

/-!
# JSON schemas

A schema is an object of keywords. The ones that hold schemas themselves, and those that the
adaptation for Kubernetes changes in ways of their own, are fields here; every other keyword is
kept by its name, with its value and a meaning that does not depend on the others.

What a schema means is a relation to instances (`Schema.accepts`). Instances are whatever has
members and elements (`Instances`), so a result about all of them is one about JSON.
-/

set_option autoImplicit false

namespace OAuthRelay.Schemas

/-! ## Syntax -/

/-- The values of `type`. -/
inductive Kind where
  | object
  | array
  | string
  | number
  | integer
  | boolean
  deriving DecidableEq

/-- The keywords that hold no schemas. -/
structure Keywords (P : Type) where
  type : Option Kind
  nullable : Bool
  required : Option (List String)
  /-- The others by name. -/
  plain : List (String × P)
  deriving DecidableEq

/-- A schema. Of `additionalProperties` there may be `false` (`some none`) or a schema; `true`
means what its absence means. -/
structure Schema (P : Type) where
  keywords : Keywords P
  properties : Option (List (String × Schema P))
  additional : Option (Option (Schema P))
  items : Option (Schema P)
  negated : Option (Schema P)
  allOf : List (Schema P)
  oneOf : List (Schema P)
  anyOf : List (Schema P)

variable {P : Type}

/-- `{}`. -/
def blank : Schema P := ⟨⟨none, false, none, []⟩, none, none, none, none, [], [], []⟩

namespace Schema

def fields (s : Schema P) : List (String × Schema P) := s.properties.getD []

def names (s : Schema P) : List String := s.fields.map Prod.fst

def property (s : Schema P) (name : String) : Option (Schema P) := s.fields.lookup name

/-- All alternatives. -/
def branches (s : Schema P) : List (Schema P) := s.oneOf ++ s.anyOf

/-! ## Induction -/

/-- The schemas in a schema. -/
inductive Child (s : Schema P) : Schema P → Prop where
  | property {name : String} {c : Schema P} (here : (name, c) ∈ s.fields) : Child s c
  | additional {c : Schema P} (here : s.additional = some (some c)) : Child s c
  | items {c : Schema P} (here : s.items = some c) : Child s c
  | negated {c : Schema P} (here : s.negated = some c) : Child s c
  | allOf {c : Schema P} (here : c ∈ s.allOf) : Child s c
  | oneOf {c : Schema P} (here : c ∈ s.oneOf) : Child s c
  | anyOf {c : Schema P} (here : c ∈ s.anyOf) : Child s c

theorem sizeOf_lt {s c : Schema P} (child : s.Child c) : sizeOf c < sizeOf s := by
  obtain ⟨k, ps, ad, it, no, all, one, any⟩ := s
  simp only [mk.sizeOf_spec]
  cases child with
  | @property name c here =>
      cases ps with
      | none => cases here
      | some ps =>
          have pair : sizeOf (name, c) < sizeOf ps := List.sizeOf_lt_of_mem here
          simp only [Prod.mk.sizeOf_spec] at pair
          simp only [Option.some.sizeOf_spec]
          omega
  | additional here =>
      cases here
      simp only [Option.some.sizeOf_spec]
      omega
  | items here =>
      cases here
      simp only [Option.some.sizeOf_spec]
      omega
  | negated here =>
      cases here
      simp only [Option.some.sizeOf_spec]
      omega
  | allOf here =>
      have listed : sizeOf c < sizeOf all := List.sizeOf_lt_of_mem here
      omega
  | oneOf here =>
      have listed : sizeOf c < sizeOf one := List.sizeOf_lt_of_mem here
      omega
  | anyOf here =>
      have listed : sizeOf c < sizeOf any := List.sizeOf_lt_of_mem here
      omega

/-- **What a schema has if all schemas in it have it, every schema has.** -/
theorem induct {motive : Schema P → Prop}
    (step : ∀ s : Schema P, (∀ c, s.Child c → motive c) → motive s) (s : Schema P) : motive s := by
  induction size : sizeOf s using Nat.strongRecOn generalizing s with
  | ind n ih =>
      subst size
      exact step s fun c child => ih _ (sizeOf_lt child) c rfl

/-! ## Equality -/

section Equality

variable [DecidableEq P]

mutual

def same : Schema P → Schema P → Bool
  | ⟨k, ps, ad, it, no, all, one, any⟩, t =>
      decide (k = t.keywords) && sameProperties ps t.properties &&
        sameAdditional ad t.additional && sameOption it t.items && sameOption no t.negated &&
        sameAll all t.allOf && sameAll one t.oneOf && sameAll any t.anyOf
termination_by structural s => s

def sameProperties : Option (List (String × Schema P)) →
    Option (List (String × Schema P)) → Bool
  | none, none => true
  | some ps, some qs => sameFields ps qs
  | _, _ => false
termination_by structural s => s

def sameFields : List (String × Schema P) → List (String × Schema P) → Bool
  | [], [] => true
  | (n, s) :: rest, (n', s') :: rest' => decide (n = n') && same s s' && sameFields rest rest'
  | _, _ => false
termination_by structural s => s

def sameAdditional : Option (Option (Schema P)) → Option (Option (Schema P)) → Bool
  | none, none => true
  | some s, some t => sameOption s t
  | _, _ => false
termination_by structural s => s

def sameOption : Option (Schema P) → Option (Schema P) → Bool
  | none, none => true
  | some s, some t => same s t
  | _, _ => false
termination_by structural s => s

def sameAll : List (Schema P) → List (Schema P) → Bool
  | [], [] => true
  | s :: rest, s' :: rest' => same s s' && sameAll rest rest'
  | _, _ => false
termination_by structural s => s

end

theorem sameAll_iff {ss : List (Schema P)} (each : ∀ s ∈ ss, ∀ t, s.same t = true ↔ s = t)
    (ts : List (Schema P)) : sameAll ss ts = true ↔ ss = ts := by
  induction ss generalizing ts with
  | nil => cases ts <;> simp [sameAll]
  | cons s rest ih =>
      cases ts with
      | nil => simp [sameAll]
      | cons t others =>
          have first := each s (List.mem_cons_self ..) t
          have later := ih (fun s inside => each s (List.mem_cons_of_mem _ inside)) others
          simp only [sameAll, Bool.and_eq_true, List.cons.injEq, first, later]

theorem sameFields_iff {ps : List (String × Schema P)}
    (each : ∀ p ∈ ps, ∀ t, p.2.same t = true ↔ p.2 = t) (qs : List (String × Schema P)) :
    sameFields ps qs = true ↔ ps = qs := by
  induction ps generalizing qs with
  | nil => cases qs <;> simp [sameFields]
  | cons p rest ih =>
      obtain ⟨n, s⟩ := p
      cases qs with
      | nil => simp [sameFields]
      | cons q others =>
          obtain ⟨n', s'⟩ := q
          have first : s.same s' = true ↔ s = s' := each (n, s) (List.mem_cons_self ..) s'
          have later := ih (fun p inside => each p (List.mem_cons_of_mem _ inside)) others
          simp only [sameFields, Bool.and_eq_true, decide_eq_true_eq, List.cons.injEq,
            Prod.mk.injEq, first, later]

theorem sameOption_iff {s : Option (Schema P)} (each : ∀ c ∈ s, ∀ t, c.same t = true ↔ c = t)
    (t : Option (Schema P)) : sameOption s t = true ↔ s = t := by
  cases s with
  | none => cases t <;> simp [sameOption]
  | some s =>
      cases t with
      | none => simp [sameOption]
      | some t => simp only [sameOption, each s rfl t, Option.some.injEq]

theorem same_iff (s t : Schema P) : s.same t = true ↔ s = t := by
  induction s using induct generalizing t with
  | step s ih =>
      obtain ⟨k, ps, ad, it, no, all, one, any⟩ := s
      obtain ⟨k', ps', ad', it', no', all', one', any'⟩ := t
      have properties : sameProperties ps ps' = true ↔ ps = ps' := by
        cases ps with
        | none => cases ps' <;> simp [sameProperties]
        | some ps =>
            cases ps' with
            | none => simp [sameProperties]
            | some ps' =>
                rw [sameProperties, Option.some.injEq]
                exact sameFields_iff (fun p inside => ih p.2 (.property inside)) ps'
      have additional : sameAdditional ad ad' = true ↔ ad = ad' := by
        cases ad with
        | none => cases ad' <;> simp [sameAdditional]
        | some s =>
            cases ad' with
            | none => simp [sameAdditional]
            | some t =>
                rw [sameAdditional, Option.some.injEq]
                refine sameOption_iff (fun c here => ih c (.additional ?_)) t
                cases here
                rfl
      have items : sameOption it it' = true ↔ it = it' :=
        sameOption_iff (fun c here => ih c (.items here)) it'
      have negated : sameOption no no' = true ↔ no = no' :=
        sameOption_iff (fun c here => ih c (.negated here)) no'
      have allOf : sameAll all all' = true ↔ all = all' :=
        sameAll_iff (fun c here => ih c (.allOf here)) all'
      have oneOf : sameAll one one' = true ↔ one = one' :=
        sameAll_iff (fun c here => ih c (.oneOf here)) one'
      have anyOf : sameAll any any' = true ↔ any = any' :=
        sameAll_iff (fun c here => ih c (.anyOf here)) any'
      rw [same, mk.injEq]
      simp only [Bool.and_eq_true, decide_eq_true_eq, and_assoc, properties, additional, items,
        negated, allOf, oneOf, anyOf]

instance : DecidableEq (Schema P) := fun s t => decidable_of_iff _ (same_iff s t)

end Equality

end Schema

end OAuthRelay.Schemas
