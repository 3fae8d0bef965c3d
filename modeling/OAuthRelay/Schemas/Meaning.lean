import Mathlib.Data.List.Basic
import OAuthRelay.Schemas.Syntax

/-!
# What schemas accept

An instance is accepted if it satisfies every keyword. Members that `properties` does not name
are up to `additionalProperties`. Exactly one alternative of `oneOf` has to accept, and some
alternative of `anyOf`.

Whether the members of an instance are named in a schema is a matter of paths
(`Schema.Named`): each path to a member, through members and elements, is one that the schema
names, in whichever alternative.
-/

set_option autoImplicit false

namespace OAuthRelay.Schemas

/-- Keywords that say nothing about instances. -/
def annotations : List String := ["title", "description", "default", "$schema"]

/-- Instances, and what keywords say about them. -/
structure Instances (P V : Type) where
  hasType : Kind → V → Prop
  isNull : V → Prop
  member : V → String → Option V
  elements : V → List V
  keyword : String → P → V → Prop
  object_of_member : ∀ v name w, member v name = some w → hasType .object v
  elements_of_object : ∀ v, hasType .object v → elements v = []
  not_null_of_object : ∀ v, hasType .object v → ¬ isNull v
  annotation : ∀ key ∈ annotations, ∀ value v, keyword key value v

/-- One of the propositions holds, at one place. -/
def ExactlyOne (ps : List Prop) : Prop :=
  ∃ front p back, ps = front ++ p :: back ∧ p ∧ ∀ q ∈ front ++ back, ¬ q

theorem ExactlyOne.exists_mem {ps : List Prop} (one : ExactlyOne ps) : ∃ p ∈ ps, p := by
  obtain ⟨front, p, back, rfl, holds, _⟩ := one
  exact ⟨p, List.mem_append_right _ (List.mem_cons_self ..), holds⟩

variable {P V : Type} (J : Instances P V)

/-- What the keywords without schemas say. -/
structure Keywords.Accepts (k : Keywords P) (v : V) : Prop where
  type : ∀ kind, k.type = some kind → J.hasType kind v ∨ k.nullable = true ∧ J.isNull v
  required : ∀ names, k.required = some names → J.hasType .object v →
    ∀ name ∈ names, (J.member v name).isSome = true
  plain : ∀ entry ∈ k.plain, J.keyword entry.1 entry.2 v

namespace Schema

mutual

/-- The schema accepts the instance. -/
def accepts : Schema P → V → Prop
  | ⟨k, ps, ad, it, no, all, one, any⟩, v =>
      k.Accepts J v ∧ propertiesAccept ps v ∧
        additionalAccepts ((ps.getD []).map Prod.fst) ad v ∧ itemsAccept it v ∧
        negatedAccepts no v ∧ (∀ p ∈ answers all v, p) ∧
        (one ≠ [] → ExactlyOne (answers one v)) ∧ (any ≠ [] → ∃ p ∈ answers any v, p)

def propertiesAccept : Option (List (String × Schema P)) → V → Prop
  | none, _ => True
  | some ps, v => fieldsAccept ps v

def fieldsAccept : List (String × Schema P) → V → Prop
  | [], _ => True
  | (name, s) :: rest, v =>
      (∀ w, J.member v name = some w → accepts s w) ∧ fieldsAccept rest v

def additionalAccepts (names : List String) : Option (Option (Schema P)) → V → Prop
  | none, _ => True
  | some s, v => ∀ name w, J.member v name = some w → name ∉ names → restAccepts s w

/-- A member that is not named; there may be none. -/
def restAccepts : Option (Schema P) → V → Prop
  | none, _ => False
  | some s, w => accepts s w

def itemsAccept : Option (Schema P) → V → Prop
  | none, _ => True
  | some s, v => ∀ w ∈ J.elements v, accepts s w

def negatedAccepts : Option (Schema P) → V → Prop
  | none, _ => True
  | some s, v => ¬ accepts s v

/-- What each of the schemas says. -/
def answers : List (Schema P) → V → List Prop
  | [], _ => []
  | s :: rest, v => accepts s v :: answers rest v

end

/-- **What a schema accepts, keyword by keyword.** -/
structure Accepted (s : Schema P) (v : V) : Prop where
  keywords : s.keywords.Accepts J v
  properties : ∀ p ∈ s.fields, ∀ w, J.member v p.1 = some w → p.2.accepts J w
  additional : ∀ rest, s.additional = some rest → ∀ name w, J.member v name = some w →
    name ∉ s.names → ∃ t, rest = some t ∧ t.accepts J w
  items : ∀ t, s.items = some t → ∀ w ∈ J.elements v, t.accepts J w
  negated : ∀ t, s.negated = some t → ¬ t.accepts J v
  allOf : ∀ t ∈ s.allOf, t.accepts J v
  oneOf : s.oneOf ≠ [] → ExactlyOne (s.oneOf.map fun t => t.accepts J v)
  anyOf : s.anyOf ≠ [] → ∃ t ∈ s.anyOf, t.accepts J v

variable {J}

theorem fieldsAccept_iff {ps : List (String × Schema P)} {v : V} : fieldsAccept J ps v ↔
    ∀ p ∈ ps, ∀ w, J.member v p.1 = some w → p.2.accepts J w := by
  induction ps with
  | nil => simp [fieldsAccept]
  | cons p rest ih =>
      obtain ⟨name, s⟩ := p
      rw [fieldsAccept, ih, List.forall_mem_cons]

theorem answers_eq_map (ss : List (Schema P)) (v : V) :
    answers J ss v = ss.map fun t => t.accepts J v := by
  induction ss with
  | nil => rfl
  | cons s rest ih => rw [answers, ih, List.map_cons]

theorem accepts_iff {s : Schema P} {v : V} : s.accepts J v ↔ s.Accepted J v := by
  obtain ⟨k, ps, ad, it, no, all, one, any⟩ := s
  rw [accepts, answers_eq_map, answers_eq_map, answers_eq_map]
  have properties : propertiesAccept J ps v ↔
      ∀ p ∈ ps.getD [], ∀ w, J.member v p.1 = some w → p.2.accepts J w := by
    cases ps with
    | none => simp [propertiesAccept]
    | some ps => rw [propertiesAccept, fieldsAccept_iff, Option.getD_some]
  have additional : additionalAccepts J ((ps.getD []).map Prod.fst) ad v ↔
      ∀ rest, ad = some rest → ∀ name w, J.member v name = some w →
        name ∉ (ps.getD []).map Prod.fst → ∃ t, rest = some t ∧ t.accepts J w := by
    rcases ad with _ | _ | s <;> simp [additionalAccepts, restAccepts]
  have items : itemsAccept J it v ↔
      ∀ t, it = some t → ∀ w ∈ J.elements v, t.accepts J w := by
    cases it <;> simp [itemsAccept]
  have negated : negatedAccepts J no v ↔ ∀ t, no = some t → ¬ t.accepts J v := by
    cases no <;> simp [negatedAccepts]
  rw [properties, additional, items, negated]
  constructor
  · rintro ⟨keywords, properties, additional, items, negated, allOf, oneOf, anyOf⟩
    refine ⟨keywords, properties, additional, items, negated,
      fun t inside => allOf _ (List.mem_map_of_mem inside), oneOf, fun given => ?_⟩
    obtain ⟨p, inside, holds⟩ := anyOf given
    obtain ⟨t, member, rfl⟩ := List.mem_map.mp inside
    exact ⟨t, member, holds⟩
  · intro accepted
    refine ⟨accepted.keywords, accepted.properties, accepted.additional, accepted.items,
      accepted.negated, List.forall_mem_map.mpr accepted.allOf, accepted.oneOf, fun given => ?_⟩
    obtain ⟨t, member, holds⟩ := accepted.anyOf given
    exact ⟨_, List.mem_map_of_mem member, holds⟩

/-! ## Properties by name -/

theorem lookup_eq_some_iff {α : Type} {ps : List (String × α)}
    (distinct : (ps.map Prod.fst).Nodup) {name : String} {s : α} :
    ps.lookup name = some s ↔ (name, s) ∈ ps := by
  induction ps with
  | nil => simp
  | cons p rest ih =>
      obtain ⟨name', s'⟩ := p
      obtain ⟨absent, distinct⟩ := List.nodup_cons.mp distinct
      rw [List.lookup_cons, List.mem_cons]
      by_cases same : name = name'
      · subst same
        have here : (name, s) ∉ rest := fun inside =>
          absent (List.mem_map.mpr ⟨(name, s), inside, rfl⟩)
        simp [here, eq_comm]
      · rw [beq_eq_false_iff_ne.mpr same, ih distinct]
        simp [same]

theorem mem_of_lookup {α : Type} {ps : List (String × α)} {name : String} {s : α}
    (found : ps.lookup name = some s) : (name, s) ∈ ps := by
  induction ps with
  | nil => cases found
  | cons p rest ih =>
      obtain ⟨name', s'⟩ := p
      rw [List.lookup_cons] at found
      by_cases same : name = name'
      · subst same
        rw [beq_self_eq_true] at found
        cases found
        exact List.mem_cons_self ..
      · rw [beq_eq_false_iff_ne.mpr same] at found
        exact List.mem_cons_of_mem _ (ih found)

theorem lookup_isSome_iff {ps : List (String × Schema P)} {name : String} :
    (ps.lookup name).isSome = true ↔ name ∈ ps.map Prod.fst := by
  induction ps with
  | nil => simp
  | cons p rest ih =>
      obtain ⟨name', s'⟩ := p
      rw [List.lookup_cons, List.map_cons, List.mem_cons]
      by_cases same : name = name'
      · simp [same]
      · rw [beq_eq_false_iff_ne.mpr same, ih]
        simp [same]

theorem exists_property {s : Schema P} {name : String} :
    (∃ c, s.property name = some c) ↔ name ∈ s.names := by
  rw [← Option.isSome_iff_exists]
  exact lookup_isSome_iff

theorem property_eq_none_iff {s : Schema P} {name : String} :
    s.property name = none ↔ name ∉ s.names := by
  rw [← Option.not_isSome_iff_eq_none]
  exact not_congr lookup_isSome_iff

/-- What the properties say, by their names. -/
theorem forall_fields_iff {s : Schema P} (distinct : s.names.Nodup) {v : V} :
    (∀ p ∈ s.fields, ∀ w, J.member v p.1 = some w → p.2.accepts J w) ↔
      ∀ name c, s.property name = some c → ∀ w, J.member v name = some w → c.accepts J w := by
  constructor
  · intro all name c found
    exact all (name, c) ((lookup_eq_some_iff distinct).mp found)
  · rintro all ⟨name, c⟩ inside
    exact all name c ((lookup_eq_some_iff distinct).mpr inside)

/-! ## Named members -/

/-- A step into an instance. -/
inductive Step where
  | member (name : String)
  | element

/-- What a member of this name is subject to, in the object or in an alternative. -/
def copies (s : Schema P) (name : String) : List (Schema P) :=
  ((s.property name).or s.additional.join).toList ++
    s.branches.flatMap fun b => (b.property name).toList

/-- The schema names the path. -/
def Names : Schema P → List Step → Prop
  | _, [] => True
  | s, .member name :: path => ∃ c ∈ s.copies name, c.Names path
  | s, .element :: path => ∃ c, s.items = some c ∧ c.Names path

variable (J)

/-- The path leads to a member of the instance. -/
def Leads : V → List Step → Prop
  | _, [] => False
  | v, .member name :: path => ∃ w, J.member v name = some w ∧ (path = [] ∨ Leads w path)
  | v, .element :: path => ∃ w ∈ J.elements v, Leads w path

/-- All members of the instance, also of its members and elements, are named in the schema. -/
def Named (s : Schema P) (v : V) : Prop := ∀ path, Leads J v path → s.Names path

end Schema

end OAuthRelay.Schemas
