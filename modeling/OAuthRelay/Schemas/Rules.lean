import OAuthRelay.Schemas.Copies

/-!
# What declarations and rules accept

The validation copy of a schema accepts at least what the schema accepts
(`accepts_validationOnly`). What it accepts beyond that, a declaration of the same structure does
not: an instance that both accept is one that the schema accepts
(`Covers.accepts_of_validationOnly`). A declaration that covers a schema accepts what the schema
accepts (`Covers.accepts`).

So an alternative may be replaced by its rule wherever the properties are declared
(`accepts_rule_iff`).
-/

set_option autoImplicit false

namespace OAuthRelay.Schemas.Schema

variable {P V : Type} {J : Instances P V}

/-! ## Validation copies -/

theorem validationOnlyFields_eq (ps : List (String × Schema P)) :
    validationOnlyFields ps = ps.map fun p => (p.1, p.2.validationOnly) := by
  induction ps with
  | nil => rfl
  | cons p rest ih =>
      obtain ⟨name, s⟩ := p
      rw [validationOnlyFields, ih, List.map_cons]

theorem validationOnlyAll_eq (ss : List (Schema P)) :
    validationOnlyAll ss = ss.map validationOnly := by
  induction ss with
  | nil => rfl
  | cons s rest ih => rw [validationOnlyAll, ih, List.map_cons]

theorem validationOnlyOption_eq (s : Option (Schema P)) :
    validationOnlyOption s = s.map validationOnly := by
  cases s <;> rfl

theorem validationOnly_eq (s : Schema P) : s.validationOnly =
    { keywords := s.keywords.validationOnly
      properties := s.properties.map (List.map fun p => (p.1, p.2.validationOnly))
      additional := none
      items := s.items.map validationOnly
      negated := s.negated.map validationOnly
      allOf := s.allOf.map validationOnly
      oneOf := s.oneOf.map validationOnly
      anyOf := s.anyOf.map validationOnly } := by
  obtain ⟨k, ps, ad, it, no, all, one, any⟩ := s
  rw [validationOnly, validationOnlyOption_eq, validationOnlyOption_eq, validationOnlyAll_eq,
    validationOnlyAll_eq, validationOnlyAll_eq]
  cases ps with
  | none => rfl
  | some ps => rw [validationOnlyProperties, validationOnlyFields_eq, Option.map_some]

theorem fields_validationOnly (s : Schema P) :
    s.validationOnly.fields = s.fields.map fun p => (p.1, p.2.validationOnly) := by
  rw [validationOnly_eq]
  simp only [fields]
  cases s.properties <;> rfl

theorem names_validationOnly (s : Schema P) : s.validationOnly.names = s.names := by
  rw [Schema.names, fields_validationOnly, List.map_map]
  rfl

theorem lookup_map (ps : List (String × Schema P)) (f : Schema P → Schema P) (name : String) :
    (ps.map fun p => (p.1, f p.2)).lookup name = (ps.lookup name).map f := by
  induction ps with
  | nil => rfl
  | cons p rest ih =>
      obtain ⟨name', s⟩ := p
      rw [List.map_cons, List.lookup_cons, List.lookup_cons]
      by_cases same : name = name'
      · simp [same]
      · rw [beq_eq_false_iff_ne.mpr same, ih]

theorem property_validationOnly (s : Schema P) (name : String) :
    s.validationOnly.property name = (s.property name).map validationOnly := by
  rw [property, fields_validationOnly, lookup_map]
  rfl

/-- A copy of a copy is the copy. -/
theorem validationOnly_validationOnly (s : Schema P) :
    s.validationOnly.validationOnly = s.validationOnly := by
  induction s using induct with
  | step s ih =>
      have all {list : List (Schema P)} (inside : ∀ t ∈ list, s.Child t) :
          (list.map validationOnly).map validationOnly = list.map validationOnly := by
        rw [List.map_map]
        exact List.map_congr_left fun t here => ih t (inside t here)
      have option {given : Option (Schema P)} (inside : ∀ t, given = some t → s.Child t) :
          (given.map validationOnly).map validationOnly = given.map validationOnly := by
        cases given with
        | none => rfl
        | some t => simp only [Option.map_some, ih t (inside t rfl)]
      have properties : (s.properties.map (List.map fun p => (p.1, p.2.validationOnly))).map
          (List.map fun p => (p.1, p.2.validationOnly)) =
            s.properties.map (List.map fun p => (p.1, p.2.validationOnly)) := by
        cases declared : s.properties with
        | none => rfl
        | some ps =>
            simp only [Option.map_some, List.map_map, Option.some.injEq]
            refine List.map_congr_left fun p here => ?_
            have child : s.Child p.2 := Child.property (by
              rw [fields, declared]
              exact here)
            simp only [Function.comp_apply, ih p.2 child]
      have keywords : s.keywords.validationOnly.validationOnly = s.keywords.validationOnly := by
        simp only [Keywords.validationOnly, List.filter_filter, Bool.and_self]
      rw [validationOnly_eq s.validationOnly, validationOnly_eq s]
      simp only [properties, keywords, all fun t here => .allOf here,
        all fun t here => .oneOf here, all fun t here => .anyOf here,
        option fun t here => .items here, option fun t here => .negated here]

theorem Keywords_accepts_validationOnly {k : Keywords P} {v : V} (accepted : k.Accepts J v) :
    k.validationOnly.Accepts J v where
  type kind given := by cases given
  required := accepted.required
  plain entry inside := accepted.plain entry (List.mem_of_mem_filter inside)

/-- All that a copy of the keywords leaves out about instances is the type. -/
theorem Keywords_accepts_of_validationOnly {k : Keywords P} {v : V}
    (type : ∀ kind, k.type = some kind → J.hasType kind v ∨ k.nullable = true ∧ J.isNull v)
    (accepted : k.validationOnly.Accepts J v) : k.Accepts J v where
  type := type
  required := accepted.required
  plain entry inside := by
    by_cases annotation : entry.1 ∈ annotations
    · exact J.annotation _ annotation _ _
    · exact accepted.plain entry
        (List.mem_filter.mpr ⟨inside, decide_eq_true annotation⟩)

/-! ## Covering declarations -/

theorem Keywords_accepts_of_covers {m c : Keywords P} {v : V} (covers : m.Covers .whole c)
    (accepted : c.Accepts J v) : m.Accepts J v where
  type kind given := by
    rw [covers.nullable.resolve_right fun never => by cases never.1]
    exact accepted.type kind
      ((covers.type.resolve_right fun never => by cases never.1) ▸ given)
  required names given := accepted.required names (covers.required rfl names given)
  plain entry inside := by
    by_cases annotation : entry.1 ∈ annotations
    · exact J.annotation _ annotation _ _
    · exact accepted.plain entry (covers.plain entry inside annotation rfl)

/-- The declaration gives back the type. -/
theorem Keywords_type_of_covers {role : Role} {m c : Keywords P} {v : V}
    (covers : m.Covers role c) (declared : m.Accepts J v) (kind : Kind)
    (given : c.type = some kind) : J.hasType kind v ∨ c.nullable = true ∧ J.isNull v := by
  have same : m.type = c.type := covers.type.resolve_right fun none => by
    rw [none.2] at given
    cases given
  refine (declared.type kind (same.trans given)).imp_right fun null => ⟨?_, null.2⟩
  rcases covers.nullable with same | ⟨_, nullable⟩
  · rw [← same]
    exact null.1
  · exact nullable

/-- **What covers a schema wholly accepts what the schema accepts.** -/
theorem Covers.accepts {role : Role} {m c : Schema P} (covers : Covers role m c)
    (whole : role = .whole) (structural : Structural m) (structural' : Structural c) {v : V}
    (accepted : c.accepts J v) : m.accepts J v := by
  induction covers generalizing v with
  | @intro role m c keywords names only given properties additional listed items unions ih ih' =>
      subst whole
      have accepted := accepts_iff.mp accepted
      obtain ⟨oneOf, anyOf, _⟩ := unions.resolve_left fun never => by cases never.1
      have additional := additional.resolve_right fun never => by cases never.1
      have listed := listed.resolve_right fun never => by cases never.1
      cases structural with
      | intro distinct _ allOf negated inner _ inner' _ _ =>
          cases structural' with
          | intro distinct' _ _ _ other _ other' _ _ =>
              refine accepts_iff.mpr ⟨Keywords_accepts_of_covers keywords accepted.keywords,
                ?_, ?_, ?_, ?_, ?_, ?_, ?_⟩
              · refine (forall_fields_iff distinct).mpr fun name a found w there => ?_
                obtain ⟨b, found'⟩ := exists_property.mpr
                  (only (.inl rfl) name (exists_property.mp ⟨a, found⟩))
                exact ih name a b found found' rfl (inner name a found) (other name b found')
                  ((forall_fields_iff distinct').mp accepted.properties name b found' w there)
              · intro rest given name w there missing
                rw [additional] at given
                exact accepted.additional rest given name w there
                  fun inside => missing (names name inside)
              · intro i found w inside
                have given : c.items.isSome = true := by rw [← listed, found]; rfl
                obtain ⟨j, found'⟩ := Option.isSome_iff_exists.mp given
                exact ih' i j found found' rfl (inner' i found) (other' j found')
                  (accepted.items j found' w inside)
              · intro t given
                rw [negated] at given
                cases given
              · intro t inside
                rw [allOf] at inside
                cases inside
              · rw [oneOf]
                exact accepted.oneOf
              · rw [anyOf]
                exact accepted.anyOf

/-- **What a schema's copy leaves out, a declaration of the schema has.** -/
theorem Covers.accepts_of_validationOnly {role : Role} {m c : Schema P}
    (covers : Covers role m c) (structural : Structural m) (structural' : Structural c) {v : V}
    (declared : m.accepts J v) (restricted : c.validationOnly.accepts J v) : c.accepts J v := by
  induction covers generalizing v with
  | @intro role m c keywords names only given properties additional listed items unions ih ih' =>
      have declared := accepts_iff.mp declared
      have restricted := accepts_iff.mp restricted
      cases structural with
      | intro distinct _ _ _ inner _ inner' _ _ =>
          cases structural' with
          | intro distinct' _ allOf negated other _ other' _ _ =>
              have copied : c.validationOnly.names.Nodup := by
                rw [names_validationOnly]
                exact distinct'
              refine accepts_iff.mpr ⟨?_, ?_, ?_, ?_, ?_, ?_, ?_, ?_⟩
              · refine Keywords_accepts_of_validationOnly
                  (Keywords_type_of_covers keywords declared.keywords) ?_
                have copy := restricted.keywords
                rw [validationOnly_eq] at copy
                exact copy
              · refine (forall_fields_iff distinct').mpr fun name b found w there => ?_
                obtain ⟨a, found'⟩ := exists_property.mpr
                  (names name (exists_property.mp ⟨b, found⟩))
                have copy : c.validationOnly.property name = some b.validationOnly := by
                  rw [property_validationOnly, found]
                  rfl
                exact ih name a b found' found (inner name a found') (other name b found)
                  ((forall_fields_iff distinct).mp declared.properties name a found' w there)
                  ((forall_fields_iff copied).mp restricted.properties name _ copy w there)
              · intro rest given name w there missing
                have closed : c.additional ≠ none := by simp [given]
                have same := additional.resolve_right fun open' => closed open'.2
                exact declared.additional rest (same.trans given) name w there
                  fun inside => missing (only (.inr closed) name inside)
              · intro j found w inside
                obtain ⟨i, found'⟩ := exists_items found listed
                have copy : c.validationOnly.items = some j.validationOnly := by
                  rw [validationOnly_eq, found]
                  rfl
                exact ih' i j found' found (inner' i found') (other' j found)
                  (declared.items i found' w inside) (restricted.items _ copy w inside)
              · intro t given
                rw [negated] at given
                cases given
              · intro t inside
                rw [allOf] at inside
                cases inside
              · rcases unions with ⟨_, none, _⟩ | ⟨oneOf, _, _⟩
                · exact fun some => absurd none some
                · rw [← oneOf]
                  exact declared.oneOf
              · rcases unions with ⟨_, _, none⟩ | ⟨_, anyOf, _⟩
                · exact fun some => absurd none some
                · rw [← anyOf]
                  exact declared.anyOf

/-! ## Copies accept more -/

/-- An instance that a bare alternative accepts has no members. -/
theorem Bare.empty {b : Schema P} (bare : Bare b) {v : V} (accepted : b.accepts J v) :
    J.hasType .object v ∧ ∀ name, J.member v name = none := by
  have accepted := accepts_iff.mp accepted
  constructor
  · rcases accepted.keywords.type _ bare.object with object | ⟨nullable, _⟩
    · exact object
    · rw [bare.nullable] at nullable
      cases nullable
  · intro name
    by_contra given
    obtain ⟨w, there⟩ := Option.ne_none_iff_exists'.mp given
    have missing : name ∉ b.names := by
      rw [Schema.names, fields, bare.properties]
      exact List.not_mem_nil
    obtain ⟨_, never, _⟩ := accepted.additional none bare.closed name w there missing
    cases never

/-- To an object without members a bare alternative says what its copy says. -/
theorem Bare.accepts_validationOnly_iff {b : Schema P} (bare : Bare b) {v : V}
    (object : J.hasType .object v) (empty : ∀ name, J.member v name = none) :
    b.validationOnly.accepts J v ↔ b.accepts J v := by
  have elements := J.elements_of_object v object
  rw [accepts_iff, accepts_iff, validationOnly_eq]
  constructor
  · intro accepted
    refine ⟨Keywords_accepts_of_validationOnly (fun kind given => ?_) accepted.keywords, ?_, ?_,
      ?_, ?_, ?_, ?_, ?_⟩
    · rw [bare.object] at given
      cases given
      exact .inl object
    · intro p _ w there
      rw [empty] at there
      cases there
    · intro _ _ name w there
      rw [empty] at there
      cases there
    · intro _ _ w inside
      rw [elements] at inside
      cases inside
    · intro t given
      rw [bare.negated] at given
      cases given
    · intro t inside
      rw [bare.allOf] at inside
      cases inside
    · exact fun given => absurd bare.oneOf given
    · exact fun given => absurd bare.anyOf given
  · intro accepted
    refine ⟨Keywords_accepts_validationOnly accepted.keywords, ?_, ?_, ?_, ?_, ?_, ?_, ?_⟩
    · intro p _ w there
      rw [empty] at there
      cases there
    · intro _ given
      cases given
    · intro _ _ w inside
      rw [elements] at inside
      cases inside
    · intro t given
      simp only [bare.negated, Option.map_none] at given
      cases given
    · intro t inside
      simp only [bare.allOf, List.map_nil] at inside
      cases inside
    · simp only [bare.oneOf, List.map_nil]
      exact fun given => absurd rfl given
    · simp only [bare.anyOf, List.map_nil]
      exact fun given => absurd rfl given

/-- The copies of the alternatives say what the alternatives say, when one of these accepts. -/
theorem Restricting.answers {names : List String} {branches : List (Schema P)}
    (restricting : Restricting names branches) {v : V} {b : Schema P} (inside : b ∈ branches)
    (accepted : b.accepts J v) : (branches.map validationOnly).map (fun t => t.accepts J v) =
      branches.map fun t => t.accepts J v := by
  rw [List.map_map]
  refine List.map_congr_left fun t here => ?_
  rcases restricting with rules | bare
  · rw [Function.comp_apply, (rules t here).restricts]
  · obtain ⟨object, empty⟩ := (bare b inside).empty accepted
    exact propext ((bare t here).accepts_validationOnly_iff object empty)

/-- **The copy of a schema accepts what the schema accepts.** -/
theorem accepts_validationOnly {c : Schema P} (structural : Structural c) {v : V}
    (accepted : c.accepts J v) : c.validationOnly.accepts J v := by
  induction structural generalizing v with
  | @intro c distinct _ allOf negated inner _ _ oneOf anyOf ih _ ih' =>
      have accepted := accepts_iff.mp accepted
      have copied : c.validationOnly.names.Nodup := by
        rw [names_validationOnly]
        exact distinct
      have properties : ∀ p ∈ c.validationOnly.fields, ∀ w, J.member v p.1 = some w →
          p.2.accepts J w := by
        refine (forall_fields_iff copied).mpr fun name t found w there => ?_
        rw [property_validationOnly] at found
        obtain ⟨d, here, rfl⟩ := Option.map_eq_some_iff.mp found
        exact ih name d here
          ((forall_fields_iff distinct).mp accepted.properties name d here w there)
      rw [accepts_iff]
      rw [validationOnly_eq] at properties ⊢
      refine ⟨Keywords_accepts_validationOnly accepted.keywords, properties, ?_, ?_, ?_, ?_, ?_,
        ?_⟩
      · intro _ given
        cases given
      · intro t found w inside
        obtain ⟨d, here, rfl⟩ := Option.map_eq_some_iff.mp found
        exact ih' d here (accepted.items d here w inside)
      · intro t given
        simp only [negated, Option.map_none] at given
        cases given
      · intro t inside
        simp only [allOf, List.map_nil] at inside
        cases inside
      · intro given
        have some : c.oneOf ≠ [] := fun none => given (by simp only [none, List.map_nil])
        have one := accepted.oneOf some
        obtain ⟨_, inside, holds⟩ := one.exists_mem
        obtain ⟨b, member, rfl⟩ := List.mem_map.mp inside
        simp only [oneOf.answers member holds]
        exact one
      · intro given
        have some : c.anyOf ≠ [] := fun none => given (by simp only [none, List.map_nil])
        obtain ⟨b, member, holds⟩ := accepted.anyOf some
        have same := anyOf.answers member holds
        have inside : b.accepts J v ∈ (c.anyOf.map validationOnly).map fun t => t.accepts J v := by
          rw [same]
          exact List.mem_map_of_mem member
        obtain ⟨t, member', equal⟩ := List.mem_map.mp inside
        exact ⟨t, member', equal ▸ holds⟩

/-! ## Rules -/

theorem accepts_append_allOf {s : Schema P} {extra : List (Schema P)} {v : V} :
    { s with allOf := s.allOf ++ extra }.accepts J v ↔
      s.accepts J v ∧ ∀ t ∈ extra, t.accepts J v := by
  rw [accepts_iff, accepts_iff]
  constructor
  · intro accepted
    have allOf := List.forall_mem_append.mp accepted.allOf
    exact ⟨⟨accepted.keywords, accepted.properties, accepted.additional, accepted.items,
      accepted.negated, allOf.1, accepted.oneOf, accepted.anyOf⟩, allOf.2⟩
  · rintro ⟨accepted, others⟩
    exact ⟨accepted.keywords, accepted.properties, accepted.additional, accepted.items,
      accepted.negated, List.forall_mem_append.mpr ⟨accepted.allOf, others⟩, accepted.oneOf,
      accepted.anyOf⟩

/-- A schema of nothing but keywords. -/
theorem accepts_keywords_iff {k : Keywords P} {v : V} :
    { (blank : Schema P) with keywords := k }.accepts J v ↔ k.Accepts J v := by
  rw [accepts_iff]
  constructor
  · exact fun accepted => accepted.keywords
  · intro accepted
    refine ⟨accepted, ?_, ?_, ?_, ?_, ?_, ?_, ?_⟩ <;> simp [blank, fields]

/-- A schema of nothing but a negation. -/
theorem accepts_negated_iff {t : Schema P} {v : V} :
    { (blank : Schema P) with negated := some t }.accepts J v ↔ ¬ t.accepts J v := by
  rw [accepts_iff]
  constructor
  · exact fun accepted => accepted.negated t rfl
  · intro refused
    refine ⟨⟨?_, ?_, ?_⟩, ?_, ?_, ?_, ?_, ?_, ?_, ?_⟩ <;> simp [blank, fields, refused]

/-- A schema of nothing but one schema. -/
theorem accepts_allOf_iff {t : Schema P} {v : V} :
    { (blank : Schema P) with allOf := [t] }.accepts J v ↔ t.accepts J v := by
  rw [accepts_iff]
  constructor
  · exact fun accepted => accepted.allOf t (List.mem_singleton_self _)
  · intro accepted
    refine ⟨⟨?_, ?_, ?_⟩, ?_, ?_, ?_, ?_, ?_, ?_, ?_⟩ <;> simp [blank, fields, accepted]

theorem accepts_forbidding_iff {name : String} {v : V} (object : J.hasType .object v) :
    (forbidding name : Schema P).accepts J v ↔ J.member v name = none := by
  rw [forbidding, accepts_negated_iff, accepts_keywords_iff]
  constructor
  · intro refused
    by_contra given
    refine refused ⟨by simp [blank], ?_, by simp [blank]⟩
    intro names same _ other inside
    cases same
    rw [List.mem_singleton.mp inside]
    exact Option.ne_none_iff_isSome.mp given
  · intro missing accepted
    have given := accepted.required [name] rfl object name (List.mem_singleton_self _)
    rw [missing] at given
    cases given

theorem forbidding_validationOnly (name : String) :
    (forbidding name : Schema P).validationOnly = forbidding name := rfl

/-- A closed alternative. -/
structure Closed (b : Schema P) : Prop where
  object : b.keywords.type = some .object
  nullable : b.keywords.nullable = false
  closed : b.additional = some none
  oneOf : b.oneOf = []
  anyOf : b.anyOf = []

/-- An instance of a closed alternative is an object, and all its members are the
alternative's. -/
theorem Closed.object_of_accepts {b : Schema P} (closed : Closed b) {v : V}
    (accepted : b.accepts J v) :
    J.hasType .object v ∧ ∀ name w, J.member v name = some w → name ∈ b.names := by
  have accepted := accepts_iff.mp accepted
  constructor
  · rcases accepted.keywords.type _ closed.object with object | ⟨nullable, _⟩
    · exact object
    · rw [closed.nullable] at nullable
      cases nullable
  · intro name w there
    by_contra missing
    obtain ⟨_, never, _⟩ := accepted.additional none closed.closed name w there missing
    cases never

theorem validationOnly_append_allOf (s : Schema P) (extra : List (Schema P)) :
    { s with allOf := s.allOf ++ extra }.validationOnly =
      { s.validationOnly with
        allOf := s.validationOnly.allOf ++ extra.map validationOnly } := by
  rw [validationOnly_eq, validationOnly_eq s]
  simp only [List.map_append]

/-- **Where the properties are declared, the rule of an alternative says what the alternative
says.** -/
theorem accepts_rule_iff [DecidableEq P] {names : List String} {b : Schema P} (closed : Closed b)
    (structural : Structural b) {v : V} (object : J.hasType .object v)
    (named : ∀ name w, J.member v name = some w → name ∈ names)
    (declared : ∀ name c, b.property name = some c → ∀ w, J.member v name = some w →
      ∃ role m, Covers role m c ∧ Structural m ∧ m.accepts J w) :
    (rule names b).accepts J v ↔ b.accepts J v := by
  have forbids : (∀ t ∈ ((names.filter fun name => decide (name ∉ b.names)).map
      forbidding).map validationOnly, t.accepts J v) ↔
        ∀ name ∈ names, name ∉ b.names → J.member v name = none := by
    simp only [List.forall_mem_map, forbidding_validationOnly, accepts_forbidding_iff object,
      List.mem_filter, decide_eq_true_eq, and_imp]
  rw [rule, accepts_allOf_iff, forbid, if_pos closed.closed, validationOnly_append_allOf,
    accepts_append_allOf, forbids]
  constructor
  · rintro ⟨copy, apart⟩
    have copy := accepts_iff.mp copy
    cases structural with
    | intro distinct _ allOf negated inner _ _ _ _ =>
        have copied : b.validationOnly.names.Nodup := by
          rw [names_validationOnly]
          exact distinct
        refine accepts_iff.mpr ⟨?_, ?_, ?_, ?_, ?_, ?_, ?_, ?_⟩
        · refine Keywords_accepts_of_validationOnly (fun kind given => ?_) ?_
          · rw [closed.object] at given
            cases given
            exact .inl object
          · have keywords := copy.keywords
            rw [validationOnly_eq] at keywords
            exact keywords
        · refine (forall_fields_iff distinct).mpr fun name c found w there => ?_
          obtain ⟨_, m, covers, structural, accepted⟩ := declared name c found w there
          have found' : b.validationOnly.property name = some c.validationOnly := by
            rw [property_validationOnly, found]
            rfl
          exact covers.accepts_of_validationOnly structural (inner name c found) accepted
            ((forall_fields_iff copied).mp copy.properties name _ found' w there)
        · intro _ _ name w there missing
          rw [apart name (named name w there) missing] at there
          cases there
        · intro _ _ w inside
          rw [J.elements_of_object v object] at inside
          cases inside
        · intro t given
          rw [negated] at given
          cases given
        · intro t inside
          rw [allOf] at inside
          cases inside
        · exact fun given => absurd closed.oneOf given
        · exact fun given => absurd closed.anyOf given
  · intro accepted
    refine ⟨accepts_validationOnly structural accepted, fun name _ missing => ?_⟩
    by_contra given
    obtain ⟨w, there⟩ := Option.ne_none_iff_exists'.mp given
    exact missing ((closed.object_of_accepts accepted).2 name w there)

end OAuthRelay.Schemas.Schema
