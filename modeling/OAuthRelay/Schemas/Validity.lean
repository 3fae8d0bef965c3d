import OAuthRelay.Schemas.Adapted

/-!
# Adapting keeps what is valid

Where the copies of a property agree, the adapted schema declares the properties of all
alternatives at their object and accepts exactly the instances that the schema accepted
(`keeps_valid`). Copies that agree may differ in the keywords that merging takes away
(`keeps_valid_authentication`). They may not differ in a bound: the first copy's is kept, and
then it is asked of every alternative (`not_keeps_valid_counts`).
-/

set_option autoImplicit false

namespace OAuthRelay.Schemas

namespace Schema

variable {P : Type} [DecidableEq P]

/-- All properties of alternatives are declared at their object, and of the instances whose
members are named the same ones are accepted. -/
def KeepsValid (s : Schema P) : Prop :=
  ∃ t, adapt s = some t ∧ Structural t ∧
    (∀ b ∈ s.branches, ∀ name ∈ b.names, name ∈ t.names) ∧
      ∀ (V : Type) (J : Instances P V) (v : V), Named J s v → (t.accepts J v ↔ s.accepts J v)

end Schema

/-! ## JSON -/

/-- JSON, its numbers being integers. -/
inductive Json where
  | null
  | bool (value : Bool)
  | number (value : Int)
  | string (value : String)
  | array (values : List Json)
  | object (members : List (String × Json))

/-- The value of a keyword. -/
inductive Argument where
  | number (value : Int)
  | string (value : String)
  | strings (values : List String)
  deriving DecidableEq

namespace Json

def hasType : Kind → Json → Prop
  | .object, object _ => True
  | .array, array _ => True
  | .string, string _ => True
  | .number, number _ => True
  | .integer, number _ => True
  | .boolean, bool _ => True
  | _, _ => False

def member : Json → String → Option Json
  | object members, name => members.lookup name
  | _, _ => none

def elements : Json → List Json
  | array values => values
  | _ => []

/-- Some of the keywords. -/
def keyword : String → Argument → Json → Prop
  | "minimum", .number bound, number value => bound ≤ value
  | "maximum", .number bound, number value => value ≤ bound
  | "minLength", .number bound, string value => bound ≤ value.length
  | "maxLength", .number bound, string value => value.length ≤ bound
  | "const", .string value, v => v = string value
  | "enum", .strings values, v => ∃ value ∈ values, v = string value
  | _, _, _ => True

end Json

/-- JSON as instances. -/
def json : Instances Argument Json where
  hasType := Json.hasType
  isNull v := v = .null
  member := Json.member
  elements := Json.elements
  keyword := Json.keyword
  object_of_member v name w there := by
    cases v with
    | object members => trivial
    | _ => cases there
  elements_of_object v object := by
    cases v with
    | object members => rfl
    | _ => cases object
  not_null_of_object v object null := by
    subst null
    cases object
  annotation key inside value v := by
    simp only [annotations, List.mem_cons, List.not_mem_nil, or_false] at inside
    rcases inside with rfl | rfl | rfl | rfl <;> cases value <;> trivial

namespace Schema

/-- A scalar. -/
def scalar (type : Kind) (plain : List (String × Argument)) : Schema Argument :=
  { blank with keywords := ⟨some type, false, none, plain⟩ }

/-- A closed object. -/
def closedObject (required : List String) (properties : List (String × Schema Argument)) :
    Schema Argument :=
  { blank with
    keywords := ⟨some .object, false, some required, []⟩
    properties := some properties
    additional := some none }

theorem forall_child {s : Schema Argument} {motive : Schema Argument → Prop}
    (fields : ∀ p ∈ s.fields, motive p.2) (additional : s.additional.join = none)
    (items : s.items = none) (negated : s.negated = none) (allOf : s.allOf = [])
    (branches : ∀ b ∈ s.branches, motive b) (c : Schema Argument) (child : s.Child c) :
    motive c := by
  cases child with
  | @property name _ here => exact fields (name, c) here
  | additional here => simp [here] at additional
  | items here => simp [here] at items
  | negated here => simp [here] at negated
  | allOf here => simp [allOf] at here
  | oneOf here => exact branches c (List.mem_append_left _ here)
  | anyOf here => exact branches c (List.mem_append_right _ here)

theorem built_scalar {type : Kind} {plain : List (String × Argument)}
    (keyed : (plain.map Prod.fst).Nodup) : Built (scalar type plain) := by
  refine .intro List.nodup_nil keyed rfl rfl (fun given => absurd rfl given)
    (fun _ never => by cases never) (fun _ never => by cases never)
    (forall_child (fun _ never => by cases never) rfl rfl rfl rfl fun _ never => by cases never)

theorem built_closedObject {required : List String} {properties : List (String × Schema Argument)}
    (distinct : (properties.map Prod.fst).Nodup) (inner : ∀ p ∈ properties, Built p.2) :
    Built (closedObject required properties) := by
  refine .intro distinct List.nodup_nil rfl rfl (fun given => absurd rfl given)
    (fun _ never => by cases never) (fun _ never => by cases never)
    (forall_child inner rfl rfl rfl rfl fun _ never => by cases never)

theorem agreeing_scalar (type : Kind) (plain : List (String × Argument)) :
    Agreeing (scalar type plain) :=
  .intro (fun _ never => by cases never)
    (fun unites => by rcases unites with never | never <;> cases never)
    (forall_child (fun _ never => by cases never) rfl rfl rfl rfl fun _ never => by cases never)

theorem agreeing_closedObject {required : List String}
    {properties : List (String × Schema Argument)} (inner : ∀ p ∈ properties, Agreeing p.2) :
    Agreeing (closedObject required properties) :=
  .intro (fun _ never => by cases never)
    (fun unites => by rcases unites with never | never <;> cases never)
    (forall_child inner rfl rfl rfl rfl fun _ never => by cases never)

/-- Scalars that differ in what merging takes away. -/
theorem covers_scalar {type : Kind} {plain plain' : List (String × Argument)}
    (relaxed : ∀ entry ∈ plain, entry.1 ∈ relaxedKeywords) :
    Covers .first (scalar type plain) (scalar type plain') := by
  refine .intro ⟨.inl rfl, .inl rfl, fun never => (by cases never), ?_⟩ (fun _ => id)
    (fun _ _ => id) (fun never => by cases never) (fun _ _ _ never => by cases never) (.inl rfl)
    (.inl rfl) (fun _ _ never => by cases never) (.inr ⟨rfl, rfl, fun _ => rfl⟩)
  intro entry inside _ shared
  rw [decide_eq_true (relaxed entry inside)] at shared
  cases shared

theorem firstCovers_pair {names : List String} {b b' : Schema Argument}
    (covers : ∀ name a c, b.property name = some a → b'.property name = some c →
      Covers .first a c) : FirstCovers names [b, b'] := by
  rintro (_ | ⟨_, _ | ⟨_, front⟩⟩) d back split name a _ _ found e member c found'
  · obtain ⟨rfl, rfl⟩ := List.cons.inj split
    rw [List.mem_singleton.mp member] at found'
    exact covers name a c found found'
  · obtain ⟨_, rest⟩ := List.cons.inj split
    obtain ⟨_, rfl⟩ := List.cons.inj rest
    cases member
  · simp at split

/-- How a client authenticates. -/
def authentication : Schema Argument :=
  { blank with
    oneOf := [
      closedObject ["type"] [("type", scalar .string [("const", .string "Public")])],
      closedObject ["type", "secret"]
        [("type", scalar .string [("const", .string "Confidential")]),
          ("secret", scalar .string [("minLength", .number 1)])]] }

theorem built_authentication : Built authentication := by
  have strings : ∀ b ∈ authentication.branches, ∀ p ∈ b.fields,
      p.2.keywords.type = some .string := by decide
  refine .intro List.nodup_nil List.nodup_nil rfl rfl (fun _ => .inl rfl) (by decide) ?_
    (forall_child (fun _ never => by cases never) rfl rfl rfl rfl ?_)
  · intro b member b' member' name c c' found found'
    rw [strings b member _ (mem_of_lookup found), strings b' member' _ (mem_of_lookup found')]
  · refine List.forall_mem_cons.mpr ⟨built_closedObject (by decide) ?_,
      List.forall_mem_singleton.mpr (built_closedObject (by decide) ?_)⟩
    · exact List.forall_mem_singleton.mpr (built_scalar (by decide))
    · exact List.forall_mem_cons.mpr ⟨built_scalar (by decide),
        List.forall_mem_singleton.mpr (built_scalar (by decide))⟩

theorem agreeing_authentication : Agreeing authentication := by
  refine .intro (by decide) (fun _ => ⟨.inr rfl, rfl, .inl rfl, ?_, ?_⟩)
    (forall_child (fun _ never => by cases never) rfl rfl rfl rfl ?_)
  · exact fun _ _ found => by cases found
  · refine firstCovers_pair fun name a c found found' => ?_
    have first : (name, a) = ("type", _) := List.mem_singleton.mp (mem_of_lookup found)
    obtain ⟨plain, same⟩ : ∃ plain, c = scalar .string plain := by
      rcases List.mem_cons.mp (mem_of_lookup found') with here | later
      · exact ⟨_, (Prod.mk.inj here).2⟩
      · exact ⟨_, (Prod.mk.inj (List.mem_singleton.mp later)).2⟩
    rw [(Prod.mk.inj first).2, same]
    exact covers_scalar (by decide)
  · refine List.forall_mem_cons.mpr ⟨agreeing_closedObject ?_,
      List.forall_mem_singleton.mpr (agreeing_closedObject ?_)⟩
    · exact List.forall_mem_singleton.mpr (agreeing_scalar _ _)
    · exact List.forall_mem_cons.mpr ⟨agreeing_scalar _ _,
        List.forall_mem_singleton.mpr (agreeing_scalar _ _)⟩

/-- Alternatives with a number each, and a bound of its own. -/
def counts : Schema Argument :=
  { blank with
    anyOf := [
      closedObject ["count"] [("count", scalar .integer [("minimum", .number 5)])],
      closedObject ["count"] [("count", scalar .integer [("minimum", .number 1)])]] }

theorem built_counts : Built counts := by
  have integers : ∀ b ∈ counts.branches, ∀ p ∈ b.fields,
      p.2.keywords.type = some .integer := by decide
  refine .intro List.nodup_nil List.nodup_nil rfl rfl (fun _ => .inl rfl) (by decide) ?_
    (forall_child (fun _ never => by cases never) rfl rfl rfl rfl ?_)
  · intro b member b' member' name c c' found found'
    rw [integers b member _ (mem_of_lookup found), integers b' member' _ (mem_of_lookup found')]
  · refine List.forall_mem_cons.mpr ⟨built_closedObject (by decide) ?_,
      List.forall_mem_singleton.mpr (built_closedObject (by decide) ?_)⟩
    · exact List.forall_mem_singleton.mpr (built_scalar (by decide))
    · exact List.forall_mem_singleton.mpr (built_scalar (by decide))

theorem adapt_counts : adapt counts = some
    { blank with
      keywords := ⟨some .object, false, none, []⟩
      properties := some [("count", scalar .integer [("minimum", .number 5)])]
      anyOf := counts.anyOf.map (rule ["count"]) } := by
  rfl

/-- A count of 3. -/
def three : Json := .object [("count", .number 3)]

theorem three_member {name : String} {w : Json} (there : json.member three name = some w) :
    name = "count" ∧ w = .number 3 :=
  Prod.mk.inj (List.mem_singleton.mp (mem_of_lookup there))

theorem named_three : Named json counts three := by
  rintro (_ | ⟨name | _, path⟩) leads
  · cases leads
  · obtain ⟨w, there, rest⟩ := leads
    obtain ⟨rfl, rfl⟩ := three_member there
    rcases rest with rfl | deeper
    · exact ⟨scalar .integer [("minimum", .number 5)], mem_copies_iff.mpr (.inr (.inr
        ⟨_, List.mem_cons_self .., rfl⟩)), trivial⟩
    · rcases path with _ | ⟨_ | _, path⟩
      · cases deeper
      · obtain ⟨_, never, _⟩ := deeper
        cases never
      · obtain ⟨_, never, _⟩ := deeper
        cases never
  · obtain ⟨_, never, _⟩ := leads
    cases never

theorem accepts_three : counts.accepts json three := by
  have integer : (scalar .integer [("minimum", .number 1)]).accepts json (.number 3) := by
    refine accepts_keywords_iff.mpr ⟨fun kind given => ?_, fun _ never => (by cases never), ?_⟩
    · cases given
      exact .inl trivial
    · exact List.forall_mem_singleton.mpr (show (1 : Int) ≤ 3 by decide)
  have second : (closedObject ["count"]
      [("count", scalar .integer [("minimum", .number 1)])]).accepts json three := by
    refine accepts_iff.mpr ⟨⟨fun kind given => ?_, fun names given _ => ?_, fun _ never => ?_⟩, ?_,
      fun rest given name w there missing => ?_, fun _ never => ?_, fun _ never => ?_,
      fun _ never => ?_, fun given => absurd rfl given, fun given => absurd rfl given⟩
    · cases given
      exact .inl trivial
    · cases given
      exact List.forall_mem_singleton.mpr rfl
    · cases never
    · refine List.forall_mem_singleton.mpr fun w there => ?_
      rw [(three_member there).2]
      exact integer
    · rw [(three_member there).1] at missing
      exact absurd (List.mem_singleton_self _) missing
    · cases never
    · cases never
    · cases never
  refine accepts_iff.mpr ⟨⟨fun _ never => ?_, fun _ never => ?_, fun _ never => ?_⟩,
    fun _ never => ?_, fun _ never => ?_, fun _ never => ?_, fun _ never => ?_, fun _ never => ?_,
    fun given => absurd rfl given, fun _ => ⟨_, List.mem_cons_of_mem _ (List.mem_singleton_self _),
      second⟩⟩
  all_goals cases never

end Schema

end OAuthRelay.Schemas
