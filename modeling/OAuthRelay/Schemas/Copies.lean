import OAuthRelay.Schemas.Adaptation

/-!
# Copies of one property

What becomes of a property that alternatives have, each its own copy of it, depends on how the
declaration is related to the copies. It has to give back what a rule leaves out of a copy: type
and nullability, the end of a closed object, alternatives (`Covers`). Beyond that it depends on
what it is (`Role`). The object's own property applies to every instance anyway; merging has to
leave it as it is, so what merging takes away the copy has to have as well
(`mergeProperty_own`). The first copy must say nothing that a later one does not say, up to what
merging takes away, and is then merged into a schema that covers both wholly
(`mergeProperty_first`).
-/

set_option autoImplicit false

namespace OAuthRelay.Schemas

variable {P : Type}

/-- What a declaration is to a copy. -/
inductive Role where
  /-- The object's own property, to be left as it is. -/
  | own
  /-- A part of an own property, which merging does not look at. -/
  | part
  /-- The first copy. -/
  | first
  /-- What copies are merged into. -/
  | whole
  deriving DecidableEq

namespace Role

/-- The declaration says nothing that the copy does not say as well. -/
def alike : Role → Bool
  | own => false
  | part => false
  | first => true
  | whole => true

def inner : Role → Role
  | own => part
  | part => part
  | first => whole
  | whole => whole

/-- The keywords that the declaration has only if the copy has them too, by whether merging
takes them away. -/
def shares : Role → Bool → Bool
  | own, relaxed => relaxed
  | part, _ => false
  | first, relaxed => !relaxed
  | whole, _ => true

end Role

/-- A declaration's keywords for those of a copy. -/
structure Keywords.Covers (role : Role) (m c : Keywords P) : Prop where
  type : m.type = c.type ∨ role.alike = false ∧ c.type = none
  nullable : m.nullable = c.nullable ∨ role.alike = false ∧ c.nullable = true
  required : role.shares true = true → ∀ names, m.required = some names →
    c.required = some names
  plain : ∀ entry ∈ m.plain, entry.1 ∉ annotations →
    role.shares (decide (entry.1 ∈ Schema.relaxedKeywords)) = true → entry ∈ c.plain

theorem Keywords.Covers.refl {role : Role} (k : Keywords P) : k.Covers role k :=
  ⟨.inl rfl, .inl rfl, fun _ _ => id, fun _ inside _ _ => inside⟩

theorem Keywords.Covers.trans {role : Role} {m k c : Keywords P} (first : m.Covers .whole k)
    (second : k.Covers role c) : m.Covers role c where
  type := by
    rcases first.type with same | ⟨never, _⟩
    · rw [same]
      exact second.type
    · cases never
  nullable := by
    rcases first.nullable with same | ⟨never, _⟩
    · rw [same]
      exact second.nullable
    · cases never
  required shared names given := second.required shared names (first.required rfl names given)
  plain entry inside apart shared :=
    second.plain entry (first.plain entry inside apart rfl) apart shared

/-- Whatever the declaration is, it may be taken for a part. -/
theorem Keywords.Covers.part {role : Role} {m c : Keywords P} (covers : m.Covers role c) :
    m.Covers .part c where
  type := covers.type.imp_right fun given => ⟨rfl, given.2⟩
  nullable := covers.nullable.imp_right fun given => ⟨rfl, given.2⟩
  required never := by cases never
  plain _ _ _ never := by cases never

namespace Schema

/-! ## Fields -/

theorem names_setField (fields : List (String × Schema P)) (name : String) (s : Schema P) :
    (setField fields name s).map Prod.fst = fields.map Prod.fst := by
  rw [setField, List.map_map]
  refine List.map_congr_left fun p _ => ?_
  simp only [Function.comp_apply]
  split
  · rename_i same
    exact same.symm
  · rfl

theorem lookup_setField (fields : List (String × Schema P)) (name : String) (s : Schema P)
    (other : String) : (setField fields name s).lookup other =
      if other = name then (fields.lookup name).map fun _ => s else fields.lookup other := by
  induction fields with
  | nil => simp [setField]
  | cons p rest ih =>
      obtain ⟨here, t⟩ := p
      rw [setField, List.map_cons, ← setField]
      by_cases first : here = name
      · subst first
        rw [if_pos rfl, List.lookup_cons, List.lookup_cons, List.lookup_cons, ih]
        by_cases same : other = here
        · simp [same]
        · simp [same, beq_eq_false_iff_ne.mpr same]
      · rw [if_neg first, List.lookup_cons, List.lookup_cons, List.lookup_cons, ih]
        by_cases same : other = here
        · subst same
          simp [first]
        · have apart : (name == here) = false := beq_eq_false_iff_ne.mpr (Ne.symm first)
          simp [beq_eq_false_iff_ne.mpr same, apart]

/-- Fields are determined by what each name leads to. -/
theorem fields_ext {ps qs : List (String × Schema P)} (distinct : (ps.map Prod.fst).Nodup)
    (names : ps.map Prod.fst = qs.map Prod.fst)
    (same : ∀ name, ps.lookup name = qs.lookup name) : ps = qs := by
  induction ps generalizing qs with
  | nil => exact (List.map_eq_nil_iff.mp names.symm).symm
  | cons p rest ih =>
      obtain ⟨name, s⟩ := p
      cases qs with
      | nil => cases names
      | cons q others =>
          obtain ⟨name', s'⟩ := q
          obtain ⟨(front : name = name'), (back : rest.map Prod.fst = others.map Prod.fst)⟩ :=
            List.cons.inj names
          subst front
          obtain ⟨absent, distinct⟩ := List.nodup_cons.mp distinct
          have first := same name
          simp only [List.lookup_cons, beq_self_eq_true, Option.some.injEq] at first
          subst first
          congr 1
          refine ih distinct back fun other => ?_
          have later := same other
          simp only [List.lookup_cons] at later
          by_cases here : other = name
          · subst here
            rw [Option.not_isSome_iff_eq_none.mp fun found =>
                absent (lookup_isSome_iff.mp found),
              Option.not_isSome_iff_eq_none.mp fun found =>
                absent (back ▸ lookup_isSome_iff.mp found)]
          · simpa [beq_eq_false_iff_ne.mpr here] using later

theorem properties_ext {ps qs : Option (List (String × Schema P))}
    (distinct : ((ps.getD []).map Prod.fst).Nodup) (isSome : ps.isSome = qs.isSome)
    (names : (ps.getD []).map Prod.fst = (qs.getD []).map Prod.fst)
    (same : ∀ name, (ps.getD []).lookup name = (qs.getD []).lookup name) : ps = qs := by
  cases ps with
  | none =>
      cases qs with
      | none => rfl
      | some qs => cases isSome
  | some ps =>
      cases qs with
      | none => cases isSome
      | some qs => exact congrArg some (fields_ext distinct names same)

section Merging

variable [DecidableEq P]

/-- What merging fields into others leads to. -/
structure Merged (target fields result : List (String × Schema P)) : Prop where
  names : result.map Prod.fst = target.map Prod.fst ++
    (fields.map Prod.fst).filter fun name => decide (name ∉ target.map Prod.fst)
  kept : ∀ name, fields.lookup name = none → result.lookup name = target.lookup name
  added : ∀ name c, target.lookup name = none → fields.lookup name = some c →
    result.lookup name = some c
  merged : ∀ name m c, target.lookup name = some m → fields.lookup name = some c →
    result.lookup name = mergeProperty m c

theorem mergeFields_spec (target fields : List (String × Schema P))
    (distinct : (fields.map Prod.fst).Nodup)
    (merges : ∀ name m c, target.lookup name = some m → fields.lookup name = some c →
      ∃ m', mergeProperty m c = some m') :
    ∃ result, mergeFields target fields = some result ∧ Merged target fields result := by
  induction fields generalizing target with
  | nil => exact ⟨target, rfl, by simp, fun _ _ => rfl, by simp, by simp⟩
  | cons p rest ih =>
      obtain ⟨name, field⟩ := p
      obtain ⟨absent, distinct⟩ := List.nodup_cons.mp distinct
      have gone : rest.lookup name = none :=
        Option.not_isSome_iff_eq_none.mp fun found => absent (lookup_isSome_iff.mp found)
      have other {name' : String} {c : Schema P} (found : rest.lookup name' = some c) :
          name' ≠ name := by
        rintro rfl
        rw [gone] at found
        cases found
      have later {name' : String} (ne : name' ≠ name) :
          ((name, field) :: rest).lookup name' = rest.lookup name' := by
        rw [List.lookup_cons, beq_eq_false_iff_ne.mpr ne]
      have first : ((name, field) :: rest).lookup name = some field := by
        rw [List.lookup_cons, beq_self_eq_true]
      cases there : target.lookup name with
      | some existing =>
          obtain ⟨merged, merge⟩ := merges name existing field there first
          have kept {name' : String} (ne : name' ≠ name) :
              (setField target name merged).lookup name' = target.lookup name' := by
            rw [lookup_setField, if_neg ne]
          obtain ⟨result, done, spec⟩ := ih (setField target name merged) distinct
            fun name' m c found found' => merges name' m c
              (by rwa [← kept (other found')]) (by rwa [later (other found')])
          refine ⟨result, by rw [mergeFields, there]; simpa [merge] using done, ?_, ?_, ?_, ?_⟩
          · have inside : name ∈ target.map Prod.fst := lookup_isSome_iff.mp (by rw [there]; rfl)
            rw [spec.names, names_setField, List.map_cons,
              List.filter_cons_of_neg (by simpa using inside)]
          · intro name' none
            have ne : name' ≠ name := by
              rintro rfl
              rw [first] at none
              cases none
            rw [spec.kept name' (by rwa [← later ne]), kept ne]
          · intro name' c none found
            have ne : name' ≠ name := by
              rintro rfl
              rw [there] at none
              cases none
            exact spec.added name' c (by rwa [kept ne]) (by rwa [← later ne])
          · intro name' m c found found'
            by_cases same : name' = name
            · subst same
              rw [there] at found
              rw [first] at found'
              cases found
              cases found'
              rw [spec.kept name' gone, lookup_setField, if_pos rfl, there, merge]
              rfl
            · exact spec.merged name' m c (by rwa [kept same]) (by rwa [← later same])
      | none =>
          have missing : name ∉ target.map Prod.fst := fun inside => by
            have found := lookup_isSome_iff.mpr inside
            rw [there] at found
            cases found
          have kept {name' : String} (ne : name' ≠ name) :
              (target ++ [(name, field)]).lookup name' = target.lookup name' := by
            rw [List.lookup_append, List.lookup_cons, beq_eq_false_iff_ne.mpr ne]
            simp
          have added : (target ++ [(name, field)]).lookup name = some field := by
            rw [List.lookup_append, there, List.lookup_cons, beq_self_eq_true]
            rfl
          obtain ⟨result, done, spec⟩ := ih (target ++ [(name, field)]) distinct
            fun name' m c found found' => merges name' m c
              (by rwa [← kept (other found')]) (by rwa [later (other found')])
          refine ⟨result, by rw [mergeFields, there]; exact done, ?_, ?_, ?_, ?_⟩
          · rw [spec.names, List.map_append, List.map_cons, List.map_nil, List.map_cons,
              List.filter_cons_of_pos (by simpa using missing), List.append_assoc]
            congr 1
            rw [List.singleton_append]
            congr 1
            refine List.filter_congr fun name' inside => ?_
            have ne : name' ≠ name := fun same => absent (same ▸ inside)
            simp [ne]
          · intro name' none
            have ne : name' ≠ name := by
              rintro rfl
              rw [first] at none
              cases none
            rw [spec.kept name' (by rwa [← later ne]), kept ne]
          · intro name' c none found
            by_cases same : name' = name
            · subst same
              rw [first] at found
              cases found
              rw [spec.kept name' gone, added]
            · exact spec.added name' c (by rwa [kept same]) (by rwa [← later same])
          · intro name' m c found found'
            have ne : name' ≠ name := by
              rintro rfl
              rw [there] at found
              cases found
            exact spec.merged name' m c (by rwa [kept ne]) (by rwa [← later ne])

end Merging

/-! ## Structural schemas -/

/-- A closed object without properties. -/
structure Bare (b : Schema P) : Prop where
  object : b.keywords.type = some .object
  nullable : b.keywords.nullable = false
  properties : b.properties = none
  closed : b.additional = some none
  negated : b.negated = none
  allOf : b.allOf = []
  oneOf : b.oneOf = []
  anyOf : b.anyOf = []

/-- A rule restricts what is declared: it declares nothing itself. -/
structure Rule (names : List String) (r : Schema P) : Prop where
  restricts : r.validationOnly = r
  own : ∀ name ∈ r.names, name ∈ names
  inner : ∀ s ∈ r.allOf, ∀ name ∈ s.names, name ∈ names

/-- Alternatives are rules about the names that are declared, or have no properties at all. -/
def Restricting (names : List String) (branches : List (Schema P)) : Prop :=
  (∀ r ∈ branches, Rule names r) ∨ ∀ b ∈ branches, Bare b

/-- Every object declares all properties of its alternatives. -/
inductive Structural : Schema P → Prop where
  | intro {t : Schema P} (distinct : t.names.Nodup)
      (keyed : (t.keywords.plain.map Prod.fst).Nodup)
      (allOf : t.allOf = []) (negated : t.negated = none)
      (properties : ∀ name c, t.property name = some c → Structural c)
      (additional : ∀ c, t.additional = some (some c) → Structural c)
      (items : ∀ c, t.items = some c → Structural c)
      (oneOf : Restricting t.names t.oneOf) (anyOf : Restricting t.names t.anyOf) :
      Structural t

/-! ## Covering -/

/-- The alternatives of a copy: the declaration has the same ones among the same names, or is
there anyway where the copy has none. -/
def Unions (role : Role) (m c : Schema P) : Prop :=
  role.alike = false ∧ c.oneOf = [] ∧ c.anyOf = [] ∨
    m.oneOf = c.oneOf ∧ m.anyOf = c.anyOf ∧ (c.branches ≠ [] → m.names = c.names)

/-- The declaration `m` of a property for its copy `c`. -/
inductive Covers : Role → Schema P → Schema P → Prop where
  | intro {role : Role} {m c : Schema P} (keywords : m.keywords.Covers role c.keywords)
      (names : ∀ name ∈ c.names, name ∈ m.names)
      (only : role.alike = true ∨ c.additional ≠ none → ∀ name ∈ m.names, name ∈ c.names)
      (given : role = .own → c.properties.isSome = true → m.properties.isSome = true)
      (properties : ∀ name a b, m.property name = some a → c.property name = some b →
        Covers role a b)
      (additional : m.additional = c.additional ∨ role.alike = false ∧ c.additional = none)
      (listed : m.items.isSome = c.items.isSome ∨ role.alike = false ∧ c.items = none)
      (items : ∀ i j, m.items = some i → c.items = some j → Covers role.inner i j)
      (unions : Unions role m c) : Covers role m c

theorem Covers.refl {role : Role} (s : Schema P) : Covers role s s := by
  induction s using induct generalizing role with
  | step s ih =>
      refine .intro (.refl _) (fun _ => id) (fun _ _ => id) (fun _ => id) ?_ (.inl rfl) (.inl rfl)
        ?_ (.inr ⟨rfl, rfl, fun _ => rfl⟩)
      · intro name a b found found'
        rw [found] at found'
        cases found'
        exact ih a (.property (mem_of_lookup found))
      · intro i j found found'
        rw [found] at found'
        cases found'
        exact ih i (.items found)

/-- If the copy has elements, the declaration has. -/
theorem exists_items {role : Role} {m c j : Schema P} (found : c.items = some j)
    (listed : m.items.isSome = c.items.isSome ∨ role.alike = false ∧ c.items = none) :
    ∃ i, m.items = some i := by
  rcases listed with same | ⟨_, none⟩
  · rw [← Option.isSome_iff_exists, same, found]
    rfl
  · rw [none] at found
    cases found

theorem Unions.trans {role : Role} {m k c : Schema P} (first : Unions .whole m k)
    (second : Unions role k c) : Unions role m c := by
  rcases first with ⟨never, _⟩ | ⟨oneOf, anyOf, names⟩
  · cases never
  · rcases second with apart | ⟨oneOf', anyOf', names'⟩
    · exact .inl apart
    · refine .inr ⟨oneOf.trans oneOf', anyOf.trans anyOf', fun given => ?_⟩
      have given' : k.branches ≠ [] := by
        unfold branches
        rw [oneOf', anyOf']
        exact given
      exact (names given').trans (names' given)

theorem Covers.trans {role : Role} {m k c : Schema P} (first : Covers .whole m k)
    (second : Covers role k c) (apart : role ≠ .own) : Covers role m c := by
  induction second generalizing m with
  | @intro role k c keywords names only given properties additional listed items unions ih ih' =>
      cases first with
      | intro keywords' names' only' _ properties' additional' listed' items' unions' =>
          have additional' : m.additional = k.additional :=
            additional'.resolve_right fun never => by cases never.1
          have listed' : m.items.isSome = k.items.isSome :=
            listed'.resolve_right fun never => by cases never.1
          refine .intro (keywords'.trans keywords)
            (fun name there => names' name (names name there)) (fun strict name there => only strict name (only' (.inl rfl) name there)) ?_ ?_
            (by rwa [additional']) (by rwa [listed']) ?_ (unions'.trans unions)
          · exact fun isOwn => absurd isOwn apart
          · intro name a b found found'
            obtain ⟨d, middle⟩ := exists_property.mpr (names name (exists_property.mp ⟨b, found'⟩))
            exact ih name d b middle found' (properties' name a d found middle) apart
          · intro i j found found'
            obtain ⟨d, middle⟩ := exists_items found' listed
            exact ih' d j middle found' (items' i d found middle) (by cases role <;> decide)

/-- Whatever the declaration is, it may be taken for a part. -/
theorem Covers.part {role : Role} {m c : Schema P} (covers : Covers role m c) :
    Covers .part m c := by
  induction covers with
  | @intro role m c keywords names only given properties additional listed items unions ih ih' =>
      refine .intro keywords.part names ?_ (fun never => by cases never) ih
        (additional.imp_right fun none => ⟨rfl, none.2⟩)
        (listed.imp_right fun none => ⟨rfl, none.2⟩) ih' ?_
      · rintro (never | closed)
        · cases never
        · exact only (.inr closed)
      · exact unions.imp_left fun none => ⟨rfl, none.2⟩

/-! ## Merging what is covered -/

theorem mergeType_of_covers {role : Role} {m c : Keywords P} (covers : m.Covers role c) :
    mergeType m.type c.type = some m.type := by
  rcases covers.type with same | ⟨_, none⟩
  · rw [← same]
    cases m.type with
    | none => rfl
    | some kind => simp [mergeType]
  · rw [none]
    cases m.type <;> rfl

section MergingCovered

variable [DecidableEq P]

theorem mergeProperty_self (s : Schema P) : mergeProperty s s = some s := by
  obtain ⟨k, ps, ad, it, no, all, one, any⟩ := s
  rw [mergeProperty, if_pos rfl]

/-- Fields whose names are there are merged name by name. -/
theorem mergeProperties_spec {ps qs : Option (List (String × Schema P))}
    (distinct : ((qs.getD []).map Prod.fst).Nodup)
    (names : ∀ name ∈ (qs.getD []).map Prod.fst, name ∈ (ps.getD []).map Prod.fst)
    (each : ∀ name a b, (ps.getD []).lookup name = some a → (qs.getD []).lookup name = some b →
      ∃ a', mergeProperty a b = some a') :
    ∃ rs, mergeProperties ps qs = some rs ∧
      (rs.getD []).map Prod.fst = (ps.getD []).map Prod.fst ∧
      rs.isSome = (ps.isSome || qs.isSome) ∧
      (∀ name, (qs.getD []).lookup name = none →
        (rs.getD []).lookup name = (ps.getD []).lookup name) ∧
      ∀ name a b, (ps.getD []).lookup name = some a → (qs.getD []).lookup name = some b →
        (rs.getD []).lookup name = mergeProperty a b := by
  cases qs with
  | none =>
      exact ⟨ps, by rw [mergeProperties], rfl, (Bool.or_false _).symm, fun _ _ => rfl,
        fun _ _ _ _ found => by cases found⟩
  | some fields =>
      obtain ⟨result, done, merged⟩ := mergeFields_spec (ps.getD []) fields distinct each
      refine ⟨some result, by rw [mergeProperties, done]; rfl, ?_, (Bool.or_true _).symm,
        merged.kept, merged.merged⟩
      rw [Option.getD_some, merged.names, List.filter_eq_nil_iff.mpr, List.append_nil]
      intro name inside
      simpa using names name inside

theorem relaxed_covers_first (m c : Keywords P) :
    (relaxed m.type m c).Covers .whole m where
  type := .inl rfl
  nullable := .inl rfl
  required _ names given := by
    simp only [relaxed] at given
    split at given
    · exact given
    · cases given
  plain entry inside _ _ := List.mem_of_mem_filter inside

theorem relaxed_covers_second {m c : Keywords P} (covers : m.Covers .first c) :
    (relaxed m.type m c).Covers .whole c where
  type := .inl (covers.type.resolve_right fun never => by cases never.1)
  nullable := .inl (covers.nullable.resolve_right fun never => by cases never.1)
  required _ names given := by
    simp only [relaxed] at given
    split at given
    · rename_i same
      rw [← same, given]
    · cases given
  plain entry inside apart _ := by
    obtain ⟨there, kept⟩ := List.mem_filter.mp inside
    rcases Bool.or_eq_true_iff.mp kept with strict | alike
    · refine covers.plain entry there apart ?_
      rw [decide_eq_false (of_decide_eq_true strict)]
      rfl
    · exact mem_of_lookup (of_decide_eq_true alike)

/-- An own property keeps its keywords. -/
theorem relaxed_eq {m c : Keywords P} (covers : m.Covers .own c)
    (keyed : (c.plain.map Prod.fst).Nodup) : relaxed m.type m c = m := by
  have required : (if m.required = c.required then m.required else none) = m.required := by
    cases given : m.required with
    | none => split <;> rfl
    | some names => rw [covers.required rfl names given, if_pos rfl]
  have plain : m.plain.filter (fun entry => decide (entry.1 ∉ relaxedKeywords) ||
      decide (c.plain.lookup entry.1 = some entry.2)) = m.plain := by
    rw [List.filter_eq_self]
    intro entry inside
    by_cases strict : entry.1 ∈ relaxedKeywords
    · have apart : entry.1 ∉ annotations := by
        intro annotation
        have disjoint : ∀ key ∈ relaxedKeywords, key ∉ annotations := by decide
        exact disjoint _ strict annotation
      have there := covers.plain entry inside apart (decide_eq_true strict)
      simp [lookup_eq_some_iff keyed |>.mpr there]
    · simp [strict]
  unfold relaxed
  rw [required, plain]

theorem mergeProperty_of_ne {m c : Schema P} (ne : m ≠ c) {type : Option Kind}
    {rs : Option (List (String × Schema P))}
    (types : mergeType m.keywords.type c.keywords.type = some type)
    (properties : mergeProperties m.properties c.properties = some rs) : mergeProperty m c = some
      { keywords := relaxed type m.keywords c.keywords
        properties := rs
        additional := m.additional
        items := m.items
        negated := if m.negated = c.negated then m.negated else none
        allOf := if m.allOf = c.allOf then m.allOf else []
        oneOf := m.oneOf
        anyOf := m.anyOf } := by
  obtain ⟨k, ps, ad, it, no, all, one, any⟩ := c
  rw [mergeProperty, if_neg ne]
  simp only at types properties
  simp only [types, properties, Option.bind_eq_bind, Option.bind_some]

/-- **An own property stays as it is.** -/
theorem mergeProperty_own {role : Role} {m c : Schema P} (covers : Covers role m c)
    (own : role = .own) (structural : Structural m) (structural' : Structural c) :
    mergeProperty m c = some m := by
  induction covers with
  | @intro role m c keywords names only given properties additional listed items unions ih _ =>
      subst own
      by_cases same : m = c
      · rw [← same]
        exact mergeProperty_self m
      · cases structural with
        | intro distinct _ allOf negated inner _ _ _ _ =>
            cases structural' with
            | intro distinct' keyed allOf' negated' other _ _ _ _ =>
                obtain ⟨rs, merge, names', isSome, kept, merged⟩ := mergeProperties_spec distinct'
                  names fun name a b found found' =>
                    ⟨a, ih name a b found found' rfl (inner name a found) (other name b found')⟩
                have isSome' : rs.isSome = m.properties.isSome := by
                  rw [isSome]
                  cases declared : c.properties with
                  | none => exact Bool.or_false _
                  | some fields =>
                      rw [given rfl (by rw [declared]; rfl)]
                      rfl
                have unchanged : rs = m.properties := by
                  refine properties_ext (names' ▸ distinct) isSome' names' fun name => ?_
                  cases found' : c.property name with
                  | none => exact kept name found'
                  | some b =>
                      obtain ⟨a, found⟩ := exists_property.mpr
                        (names name (exists_property.mp ⟨b, found'⟩))
                      rw [merged name a b found found', ih name a b found found' rfl
                        (inner name a found) (other name b found')]
                      exact found.symm
                rw [mergeProperty_of_ne same (mergeType_of_covers keywords) merge,
                  relaxed_eq keywords keyed, unchanged, if_pos (negated.trans negated'.symm),
                  if_pos (allOf.trans allOf'.symm)]
                cases m
                rfl

/-- What two copies are merged into. -/
structure Absorbs (m c m' : Schema P) : Prop where
  merge : mergeProperty m c = some m'
  structural : Structural m'
  first : Covers .whole m' m
  second : Covers .whole m' c

theorem Absorbs.self {s : Schema P} (structural : Structural s) : Absorbs s s s :=
  ⟨mergeProperty_self s, structural, .refl s, .refl s⟩

/-- **The first copy is merged into what covers both.** -/
theorem mergeProperty_first {role : Role} {m c : Schema P} (covers : Covers role m c)
    (first : role = .first) (structural : Structural m) (structural' : Structural c) :
    ∃ m', Absorbs m c m' := by
  induction covers with
  | @intro role m c keywords names only given properties additional listed items unions ih _ =>
      subst first
      by_cases same : m = c
      · subst same
        exact ⟨m, .self structural⟩
      · cases structural with
        | intro distinct keyed allOf negated inner additional₁ items₁ oneOf₁ anyOf₁ =>
            cases structural' with
            | intro distinct' keyed' allOf' negated' other _ _ _ _ =>
                have absorbs (name : String) (a b : Schema P) (found : m.property name = some a)
                    (found' : c.property name = some b) : ∃ a', Absorbs a b a' :=
                  ih name a b found found' rfl (inner name a found) (other name b found')
                obtain ⟨rs, merge, own, _, _, merged⟩ := mergeProperties_spec distinct'
                  names fun name a b found found' =>
                    let ⟨a', absorbed⟩ := absorbs name a b found found'
                    ⟨a', absorbed.merge⟩
                have own : (rs.getD []).map Prod.fst = m.names := own
                have done := mergeProperty_of_ne same (mergeType_of_covers keywords) merge
                rw [if_pos (negated.trans negated'.symm), if_pos (allOf.trans allOf'.symm)] at done
                -- each merged field comes from a field of either copy
                have both {name : String} {a' : Schema P}
                    (there : (rs.getD []).lookup name = some a') : ∃ a b,
                      m.property name = some a ∧ c.property name = some b ∧ Absorbs a b a' := by
                  have inside : name ∈ m.names :=
                    own ▸ lookup_isSome_iff.mp (by rw [there]; rfl)
                  obtain ⟨a, found⟩ := exists_property.mpr inside
                  obtain ⟨b, found'⟩ := exists_property.mpr (only (.inl rfl) name inside)
                  obtain ⟨a'', absorbed⟩ := absorbs name a b found found'
                  have there' := (merged name a b found found').trans absorbed.merge
                  cases Option.some.inj (there.symm.trans there')
                  exact ⟨a, b, found, found', absorbed⟩
                obtain ⟨oneOf, anyOf, order⟩ := unions.resolve_left fun never => by cases never.1
                refine ⟨_, done, ?_, ?_, ?_⟩
                · refine .intro (show ((rs.getD []).map Prod.fst).Nodup from own ▸ distinct) ?_
                    allOf negated (fun name a' there => ?_) additional₁ items₁
                    (show Restricting ((rs.getD []).map Prod.fst) m.oneOf from own ▸ oneOf₁)
                    (show Restricting ((rs.getD []).map Prod.fst) m.anyOf from own ▸ anyOf₁)
                  · exact (List.filter_sublist.map _).nodup keyed
                  · obtain ⟨_, _, _, _, absorbed⟩ := both there
                    exact absorbed.structural
                · refine .intro (relaxed_covers_first _ _) (fun name => ?_) (fun _ name => ?_)
                    (fun never => by cases never) (fun name a' a there found => ?_) (.inl rfl)
                    (.inl rfl) (fun i j found found' => ?_) (.inr ⟨rfl, rfl, fun _ => own⟩)
                  · exact fun inside => show name ∈ (rs.getD []).map Prod.fst from own ▸ inside
                  · exact fun inside => own ▸ inside
                  · obtain ⟨_, _, found', _, absorbed⟩ := both there
                    cases Option.some.inj (found.symm.trans found')
                    exact absorbed.first
                  · cases Option.some.inj (found.symm.trans found')
                    exact .refl i
                · refine .intro (relaxed_covers_second keywords) (fun name inside => ?_)
                    (fun _ name inside => ?_) (fun never => by cases never)
                    (fun name a' b there found => ?_) ?_ ?_ items
                    (.inr ⟨oneOf, anyOf, fun some => own.trans (order some)⟩)
                  · exact show name ∈ (rs.getD []).map Prod.fst from own ▸ names name inside
                  · exact only (.inl rfl) name (own ▸ inside)
                  · obtain ⟨_, _, _, found', absorbed⟩ := both there
                    cases Option.some.inj (found.symm.trans found')
                    exact absorbed.second
                  · exact .inl (additional.resolve_right fun never => by cases never.1)
                  · exact .inl (listed.resolve_right fun never => by cases never.1)

end MergingCovered

end Schema

end OAuthRelay.Schemas
