import OAuthRelay.Schemas.Agreement

/-!
# Adapting keeps what is valid
-/

set_option autoImplicit false

namespace OAuthRelay.Schemas.Schema

variable {P V : Type} {J : Instances P V}

/-! ## Alternatives -/

theorem exists_accepts_iff {ss : List (Schema P)} {v : V} :
    (∃ t ∈ ss, t.accepts J v) ↔ ∃ p ∈ ss.map (fun t => t.accepts J v), p := by
  constructor
  · rintro ⟨t, member, accepted⟩
    exact ⟨_, List.mem_map_of_mem member, accepted⟩
  · rintro ⟨_, inside, holds⟩
    obtain ⟨t, member, rfl⟩ := List.mem_map.mp inside
    exact ⟨t, member, holds⟩

theorem oneOf_iff {ss ts : List (Schema P)} {v : V}
    (same : (ts.map fun t => t.accepts J v) = ss.map fun s => s.accepts J v) :
    (ts ≠ [] → ExactlyOne (ts.map fun t => t.accepts J v)) ↔
      (ss ≠ [] → ExactlyOne (ss.map fun s => s.accepts J v)) := by
  have none : ts = [] ↔ ss = [] := by
    rw [← List.map_eq_nil_iff, same, List.map_eq_nil_iff]
  rw [same, Ne, Ne, none]

theorem anyOf_iff {ss ts : List (Schema P)} {v : V}
    (same : (ts.map fun t => t.accepts J v) = ss.map fun s => s.accepts J v) :
    (ts ≠ [] → ∃ t ∈ ts, t.accepts J v) ↔ (ss ≠ [] → ∃ s ∈ ss, s.accepts J v) := by
  have none : ts = [] ↔ ss = [] := by
    rw [← List.map_eq_nil_iff, same, List.map_eq_nil_iff]
  rw [exists_accepts_iff, exists_accepts_iff, same, Ne, Ne, none]

/-- What is no object, no alternative accepts. -/
theorem not_accepts_of_not_object {b : Schema P} (object : b.keywords.type = some .object)
    (nullable : b.keywords.nullable = false) {v : V} (other : ¬ J.hasType .object v) :
    ¬ b.accepts J v := by
  intro accepted
  rcases (accepts_iff.mp accepted).keywords.type _ object with here | ⟨null, _⟩
  · exact other here
  · rw [nullable] at null
    cases null

/-- An alternative knows what the object knows. -/
theorem reads_branch {s b : Schema P} (built : Built s) (member : b ∈ s.branches) {v : V}
    (object : J.hasType .object v) (reads : Reads J s v) : Reads J b v := by
  cases built with
  | intro _ _ _ _ _ closed =>
      cases reads with
      | intro members _ _ =>
          obtain ⟨_, closed, oneOf, anyOf⟩ := closed b member
          refine .intro (fun name w there c copy => ?_) (fun w inside => ?_) fun unites => ?_
          · refine members name w there c (mem_copies_iff.mpr (.inr (.inr ⟨b, member, ?_⟩)))
            rcases mem_copies_iff.mp copy with found | ⟨_, rest⟩ | ⟨b', member', _⟩
            · exact found
            · rw [closed] at rest
              cases rest
            · rw [branches, oneOf, anyOf] at member'
              cases member'
          · rw [J.elements_of_object v object] at inside
            cases inside
          · exact absurd (List.append_eq_nil_iff.mpr ⟨oneOf, anyOf⟩) unites.ne_nil

/-! ## Declared alternatives -/

variable {s : Schema P} {fields : List (String × Schema P)} {branches : List (Schema P)}

theorem Hoists.mem_names (hoists : Hoists s.names s.fields branches fields) {b : Schema P}
    (member : b ∈ branches) {name : String} (inside : name ∈ b.names) :
    name ∈ fields.map Prod.fst := by
  obtain ⟨c, found⟩ := exists_property.mpr inside
  obtain ⟨m, declared, _⟩ := hoists.copies b member name c found
  exact lookup_isSome_iff.mp (by rw [declared]; rfl)

theorem Hoists.mem_own (hoists : Hoists s.names s.fields branches fields) {name : String}
    (inside : name ∈ s.names) : name ∈ fields.map Prod.fst := by
  obtain ⟨m, found⟩ := exists_property.mpr inside
  exact lookup_isSome_iff.mp (by rw [hoists.kept name inside m found]; rfl)

/-- What is declared accepts the members of an instance that the object and one of its
alternatives accept. -/
theorem Hoists.declared (hoists : Hoists s.names s.fields branches fields)
    (closed : ∀ b ∈ branches, Closed b) (structural : ∀ b ∈ branches, Structural b) {v : V}
    (own : ∀ name m, s.property name = some m → ∀ w, J.member v name = some w → m.accepts J w)
    {b : Schema P} (member : b ∈ branches) (accepted : b.accepts J v) (name : String)
    (m : Schema P) (found : fields.lookup name = some m) (w : V)
    (there : J.member v name = some w) : m.accepts J w := by
  by_cases mine : name ∈ s.names
  · obtain ⟨m', found'⟩ := exists_property.mpr mine
    cases Option.some.inj (found.symm.trans (hoists.kept name mine m' found'))
    exact own name m found' w there
  · have inside := ((closed b member).object_of_accepts accepted).2 name w there
    obtain ⟨c, copy⟩ := exists_property.mpr inside
    obtain ⟨m', found', covers⟩ := hoists.copies b member name c copy
    cases Option.some.inj (found.symm.trans found')
    rw [role, if_neg mine] at covers
    cases structural b member with
    | intro distinct _ _ _ inner =>
        exact covers.accepts rfl (hoists.structural name m found) (inner name c copy)
          ((forall_fields_iff distinct).mp (accepts_iff.mp accepted).properties name c copy w
            there)

/-- **An object that declares the properties of its alternatives accepts what it accepted.** -/
theorem accepts_declaring_iff {one any : List (Schema P)} {v : V}
    (hoists : Hoists s.names s.fields branches fields) (distinct : s.names.Nodup)
    (object : J.hasType .object v)
    (type : s.keywords.type = none ∨ s.keywords.type = some .object)
    (additional : s.additional = none ∨
      s.additional = some none ∧ ∀ name ∈ fields.map Prod.fst, name ∈ s.names)
    (declared : s.Accepted J v → ∀ name m, fields.lookup name = some m → ∀ w,
      J.member v name = some w → m.accepts J w)
    (answers : (∀ name m, fields.lookup name = some m → ∀ w, J.member v name = some w →
      m.accepts J w) → (one.map fun r => r.accepts J v) = (s.oneOf.map fun b => b.accepts J v) ∧
        (any.map fun r => r.accepts J v) = s.anyOf.map fun b => b.accepts J v) :
    { s.declaring fields with oneOf := one, anyOf := any }.accepts J v ↔ s.accepts J v := by
  have distinct' : { s.declaring fields with oneOf := one, anyOf := any }.names.Nodup :=
    hoists.distinct
  rw [accepts_iff, accepts_iff]
  constructor
  · intro accepted
    have all := (forall_fields_iff distinct').mp accepted.properties
    obtain ⟨sameOne, sameAny⟩ := answers all
    refine ⟨⟨fun kind given => ?_, accepted.keywords.required, accepted.keywords.plain⟩, ?_, ?_,
      accepted.items, accepted.negated, accepted.allOf, (oneOf_iff sameOne).mp accepted.oneOf,
      (anyOf_iff sameAny).mp accepted.anyOf⟩
    · rcases type with free | here
      · rw [free] at given
        cases given
      · rw [here] at given
        cases given
        exact .inl object
    · refine (forall_fields_iff distinct).mpr fun name m found w there => ?_
      exact all name m (hoists.kept name (exists_property.mp ⟨m, found⟩) m found) w there
    · intro rest given name w there missing
      rcases additional with free | ⟨_, complete⟩
      · rw [free] at given
        cases given
      · exact accepted.additional rest given name w there fun inside =>
          missing (complete name inside)
  · intro accepted
    have all := declared accepted
    obtain ⟨sameOne, sameAny⟩ := answers all
    refine ⟨⟨fun kind given => ?_, accepted.keywords.required, accepted.keywords.plain⟩, ?_, ?_,
      accepted.items, accepted.negated, accepted.allOf, (oneOf_iff sameOne).mpr accepted.oneOf,
      (anyOf_iff sameAny).mpr accepted.anyOf⟩
    · cases given
      exact .inl object
    · exact (forall_fields_iff distinct').mpr all
    · exact fun rest given name w there missing => accepted.additional rest given name w there
        fun inside => missing (hoists.mem_own inside)

section Adapting

variable [DecidableEq P]

/-! ## Rules -/

theorem rule_restricts (names : List String) (b : Schema P) :
    (rule names b).validationOnly = rule names b := by
  rw [rule, validationOnly_eq]
  simp only [List.map_cons, List.map_nil, validationOnly_validationOnly]
  rfl

theorem names_forbid (names : List String) (b : Schema P) :
    (b.forbid names).validationOnly.names = b.names := by
  rw [names_validationOnly, forbid]
  split <;> rfl

/-- Rules restrict what is declared. -/
theorem restricting_rules {names : List String} {branches : List (Schema P)}
    (declared : ∀ b ∈ branches, ∀ name ∈ b.names, name ∈ names) :
    Restricting names (branches.map (rule names)) := by
  refine .inl fun r member => ?_
  obtain ⟨b, inside, rfl⟩ := List.mem_map.mp member
  refine ⟨rule_restricts names b, fun name never => (by cases never), fun s here name there => ?_⟩
  rw [List.mem_singleton.mp here, names_forbid] at there
  exact declared b inside name there

/-- **Where everything that is declared accepts its members, rules answer what the alternatives
answer.** -/
theorem Hoists.rules (hoists : Hoists s.names s.fields branches fields)
    (closed : ∀ b ∈ branches, Closed b) (structural : ∀ b ∈ branches, Structural b) {v : V}
    (object : J.hasType .object v)
    (named : ∀ name w, J.member v name = some w → name ∈ fields.map Prod.fst)
    (declared : ∀ name m, fields.lookup name = some m → ∀ w, J.member v name = some w →
      m.accepts J w) :
    ((branches.map (rule (fields.map Prod.fst))).map fun r => r.accepts J v) =
      branches.map fun b => b.accepts J v := by
  rw [List.map_map]
  refine List.map_congr_left fun b member => propext ?_
  refine accepts_rule_iff (closed b member) (structural b member) object named
    fun name c copy w there => ?_
  obtain ⟨m, found, covers⟩ := hoists.copies b member name c copy
  exact ⟨_, m, covers, hoists.structural name m found, declared name m found w there⟩

/-! ## Adapted schemas in a schema -/

theorem answers_eq {ss ts : List (Schema P)} {v : V} (done : adaptAll ss = some ts)
    (same : ∀ s ∈ ss, ∀ t, adapt s = some t → (t.accepts J v ↔ s.accepts J v)) :
    (ts.map fun t => t.accepts J v) = ss.map fun s => s.accepts J v := by
  have pairs := adaptAll_eq_some_iff.mp done
  clear done
  induction pairs with
  | nil => rfl
  | @cons s t ss ts adapted _ ih =>
      rw [List.map_cons, List.map_cons, ih fun s' member => same s' (List.mem_cons_of_mem _ member),
        propext (same s (List.mem_cons_self ..) t adapted)]

/-- An alternative with its parts adapted. -/
theorem closed_of_adapt {s b b' : Schema P} (built : Built s)
    (present : ∀ b ∈ s.branches, b.keywords.nullable = false) (member : b ∈ s.branches)
    (done : adapt b = some b') : Inside b b' ∧ Closed b' := by
  cases built with
  | intro _ _ _ _ _ closed =>
      obtain ⟨object, closed, oneOf, anyOf⟩ := closed b member
      have inside := inside_of_adapt oneOf anyOf done
      refine ⟨inside, ?_, ?_, ?_, ?_, ?_⟩
      · rw [inside.keywords]
        exact object
      · rw [inside.keywords]
        exact present b member
      · have additional := inside.additional
        rw [closed, adaptAdditional, adaptOption] at additional
        exact (Option.some.inj additional).symm
      · exact (Inside.eq_nil inside.oneOf).mpr oneOf
      · exact (Inside.eq_nil inside.anyOf).mpr anyOf

/-- **With the schemas in it adapted, a schema accepts what it accepted.** -/
theorem Inside.accepts_iff {s s' : Schema P} (inside : Inside s s') (built : Built s)
    (present : ∀ b ∈ s.branches, b.keywords.nullable = false) {v : V} (reads : Reads J s v)
    (same : ∀ c c', s.Child c → adapt c = some c' → ∀ w, Reads J c w →
      (c'.accepts J w ↔ c.accepts J w)) : s'.accepts J v ↔ s.accepts J v := by
  have branch (b : Schema P) (member : b ∈ s.branches) (b' : Schema P) (done : adapt b = some b') :
      b'.accepts J v ↔ b.accepts J v := by
    obtain ⟨_, closed⟩ := closed_of_adapt built present member done
    by_cases object : J.hasType .object v
    · exact same b b' (child_of_branch member) done v (reads_branch built member object reads)
    · refine iff_of_false (not_accepts_of_not_object closed.object closed.nullable object)
        (not_accepts_of_not_object ?_ (present b member) object)
      cases built with
      | intro _ _ _ _ _ closed => exact (closed b member).1
  have one := oneOf_iff (answers_eq inside.oneOf fun b member =>
    branch b (List.mem_append_left _ member))
  have any := anyOf_iff (answers_eq inside.anyOf fun b member =>
    branch b (List.mem_append_right _ member))
  cases built with
  | intro distinct _ allOf negated =>
      cases reads with
      | intro members elements _ =>
          have distinct' : s'.names.Nodup := by rwa [inside.names]
          have property (name : String) (c c' : Schema P) (found : s.property name = some c)
              (done : adapt c = some c') (w : V) (there : J.member v name = some w) :
              c'.accepts J w ↔ c.accepts J w :=
            same c c' (.property (mem_of_lookup found)) done w
              (members name w there c (mem_copies_iff.mpr (.inl found)))
          have additional (c c' : Schema P) (rest : s.additional = some (some c))
              (done : adapt c = some c') (name : String) (w : V)
              (there : J.member v name = some w) (missing : name ∉ s.names) :
              c'.accepts J w ↔ c.accepts J w :=
            same c c' (.additional rest) done w (members name w there c
              (mem_copies_iff.mpr (.inr (.inl ⟨property_eq_none_iff.mpr missing, rest⟩))))
          have item (c c' : Schema P) (found : s.items = some c) (done : adapt c = some c') (w : V)
              (there : w ∈ J.elements v) : c'.accepts J w ↔ c.accepts J w :=
            same c c' (.items found) done w (elements w there c found)
          have negated' : s'.negated = none := by
            have done := inside.negated
            rw [negated, adaptOption] at done
            exact (Option.some.inj done).symm
          have allOf' : s'.allOf = [] := (Inside.eq_nil inside.allOf).mpr allOf
          have keywords : s'.keywords.Accepts J v ↔ s.keywords.Accepts J v := by
            rw [inside.keywords]
          rw [Schema.accepts_iff, Schema.accepts_iff]
          constructor
          · intro accepted
            refine ⟨keywords.mp accepted.keywords, ?_, ?_, ?_, ?_, ?_,
              one.mp accepted.oneOf, any.mp accepted.anyOf⟩
            · refine (forall_fields_iff distinct).mpr fun name c found w there => ?_
              obtain ⟨c', found', done⟩ := inside.property_of found
              exact (property name c c' found done w there).mp
                ((forall_fields_iff distinct').mp accepted.properties name c' found' w there)
            · intro rest given name w there missing
              obtain ⟨rest', given', adapted⟩ := inside.rest_of given
              obtain ⟨c', rfl, holds⟩ := accepted.additional rest' given' name w there
                (by rwa [inside.names])
              obtain ⟨c, rfl, done⟩ := adaptOption_eq_some_some adapted
              exact ⟨c, rfl, (additional c c' given done name w there missing).mp holds⟩
            · intro c found w there
              obtain ⟨c', found', done⟩ := inside.item_of found
              exact (item c c' found done w there).mp (accepted.items c' found' w there)
            · simp [negated]
            · simp [allOf]
          · intro accepted
            refine ⟨keywords.mpr accepted.keywords, ?_, ?_, ?_, ?_, ?_,
              one.mpr accepted.oneOf, any.mpr accepted.anyOf⟩
            · refine (forall_fields_iff distinct').mpr fun name c' found' w there => ?_
              obtain ⟨c, found, done⟩ := inside.property found'
              exact (property name c c' found done w there).mpr
                ((forall_fields_iff distinct).mp accepted.properties name c found w there)
            · intro rest' given' name w there missing
              rw [inside.names] at missing
              obtain ⟨rest, given, adapted⟩ := inside.rest given'
              obtain ⟨c, rfl, holds⟩ := accepted.additional rest given name w there missing
              rw [adaptOption] at adapted
              obtain ⟨c', done, rfl⟩ := Option.map_eq_some_iff.mp adapted
              exact ⟨c', rfl, (additional c c' given done name w there missing).mpr holds⟩
            · intro c' found' w there
              obtain ⟨c, found, done⟩ := inside.item found'
              exact (item c c' found done w there).mpr (accepted.items c found w there)
            · simp [negated']
            · simp [allOf']

end Adapting

end OAuthRelay.Schemas.Schema
