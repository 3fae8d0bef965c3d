import OAuthRelay.Schemas.Hoisting

/-!
# Adapting copies

A schema is adapted from the inside: first the schemas in it (`Inside`), then its own
alternatives. Where hoisting keeps the object's own properties, all the way down (`Steady`), a
declaration remains for an adapted copy what it was for the copy that was given
(`Covers.adapt`). So what hoisting asks of adapted schemas can be asked of the schemas as they
were written.
-/

set_option autoImplicit false

namespace OAuthRelay.Schemas.Schema

variable {P : Type}

/-! ## Declaring more -/

/-- Both the declaration and the copy declare more, the same beyond their own. -/
theorem Covers.declaring {role : Role} {m c : Schema P} (covers : Covers role m c)
    {fm fc : List (String × Schema P)} {one one' any any' : List (Schema P)}
    (oneOf : one = one') (anyOf : any = any')
    (kept : ∀ name a, m.property name = some a → fm.lookup name = some a)
    (kept' : ∀ name b, c.property name = some b → fc.lookup name = some b)
    (names : m.names = c.names) (order : fm.map Prod.fst = fc.map Prod.fst)
    (same : ∀ name, name ∉ c.names → fm.lookup name = fc.lookup name) :
    Covers role { m.declaring fm with oneOf := one, anyOf := any }
      { c.declaring fc with oneOf := one', anyOf := any' } := by
  cases covers with
  | intro keywords _ _ _ properties additional listed items _ =>
      refine .intro ⟨.inl rfl, keywords.nullable, keywords.required, keywords.plain⟩ ?_ ?_
        (fun _ _ => rfl) ?_ additional listed items (.inr ⟨oneOf, anyOf, fun _ => order⟩)
      · exact fun name there => show name ∈ fm.map Prod.fst from order ▸ there
      · exact fun _ name there => show name ∈ fc.map Prod.fst from order ▸ there
      · intro name a b found found'
        change fm.lookup name = some a at found
        change fc.lookup name = some b at found'
        by_cases mine : name ∈ c.names
        · obtain ⟨b₀, there'⟩ := exists_property.mpr mine
          obtain ⟨a₀, there⟩ := exists_property.mpr (names ▸ mine)
          cases Option.some.inj (found.symm.trans (kept name a₀ there))
          cases Option.some.inj (found'.symm.trans (kept' name b₀ there'))
          exact properties name a b there there'
        · rw [same name mine] at found
          cases Option.some.inj (found.symm.trans found')
          exact .refl a

/-- Only the declaration declares more. -/
theorem Covers.declaring_left {role : Role} {m c : Schema P} (covers : Covers role m c)
    {fm : List (String × Schema P)} {one any : List (Schema P)} (apart : role.alike = false)
    (single : c.oneOf = [] ∧ c.anyOf = [])
    (object : m.keywords.type = none ∨ m.keywords.type = some .object)
    (kept : ∀ name a, m.property name = some a → fm.lookup name = some a)
    (complete : m.additional ≠ none → ∀ name ∈ fm.map Prod.fst, name ∈ m.names) :
    Covers role { m.declaring fm with oneOf := one, anyOf := any } c := by
  cases covers with
  | intro keywords names only _ properties additional listed items _ =>
      have type : some Kind.object = c.keywords.type ∨
          role.alike = false ∧ c.keywords.type = none := by
        rcases keywords.type with same | free
        · rcases object with free | object
          · exact .inr ⟨apart, same.symm.trans free⟩
          · exact .inl (object.symm.trans same)
        · exact .inr free
      refine .intro ⟨type, keywords.nullable, keywords.required, keywords.plain⟩ ?_ ?_
        (fun _ _ => rfl) ?_ additional listed items (.inl ⟨apart, single⟩)
      · intro name there
        obtain ⟨a, found⟩ := exists_property.mpr (names name there)
        exact lookup_isSome_iff.mp (show (fm.lookup name).isSome = true by
          rw [kept name a found]
          rfl)
      · intro closed name there
        have closed : c.additional ≠ none := closed.resolve_left (by simp [apart])
        have same := additional.resolve_right fun free => closed free.2
        exact only (.inr closed) name (complete (same ▸ closed) name there)
      · intro name a b found found'
        obtain ⟨a₀, there⟩ := exists_property.mpr (names name (exists_property.mp ⟨b, found'⟩))
        change fm.lookup name = some a at found
        cases Option.some.inj (found.symm.trans (kept name a₀ there))
        exact properties name a b there found'

theorem hoistable_ne_nil {branches : List (Schema P)} (given : hoistable branches = true) :
    branches ≠ [] := by
  rintro rfl
  cases given

/-- Outside of the names nothing is declared. -/
theorem lookup_eq_of_names {m c : Schema P} (names : m.names = c.names) (name : String)
    (foreign : name ∉ c.names) : m.fields.lookup name = c.fields.lookup name :=
  (property_eq_none_iff.mpr (names ▸ foreign)).trans (property_eq_none_iff.mpr foreign).symm

theorem Covers.unions {role : Role} {m c : Schema P} (covers : Covers role m c) :
    Unions role m c := by
  cases covers
  assumption

section Adapting

variable [DecidableEq P]

/-! ## The schemas in a schema -/

/-- The schemas in it are adapted. -/
structure Inside (s t : Schema P) : Prop where
  keywords : t.keywords = s.keywords
  properties : adaptProperties s.properties = some t.properties
  additional : adaptAdditional s.additional = some t.additional
  items : adaptOption s.items = some t.items
  negated : adaptOption s.negated = some t.negated
  allOf : adaptAll s.allOf = some t.allOf
  oneOf : adaptAll s.oneOf = some t.oneOf
  anyOf : adaptAll s.anyOf = some t.anyOf

theorem adapt_eq_some_iff {s t : Schema P} : adapt s = some t ↔
    ∃ s', Inside s s' ∧ ∃ s'', hoistOneOf s' = some s'' ∧ hoistAnyOf s'' = some t := by
  obtain ⟨k, ps, ad, it, no, all, one, any⟩ := s
  rw [adapt]
  simp only [Option.bind_eq_bind, Option.bind_eq_some_iff]
  constructor
  · rintro ⟨ps', properties, ad', additional, it', items, no', negated, all', allOf, one', oneOf,
      any', anyOf, s'', hoisted, hoisted'⟩
    exact ⟨⟨k, ps', ad', it', no', all', one', any'⟩,
      ⟨rfl, properties, additional, items, negated, allOf, oneOf, anyOf⟩, s'', hoisted, hoisted'⟩
  · rintro ⟨⟨k', ps', ad', it', no', all', one', any'⟩, inside, s'', hoisted, hoisted'⟩
    cases inside.keywords
    exact ⟨ps', inside.properties, ad', inside.additional, it', inside.items, no',
      inside.negated, all', inside.allOf, one', inside.oneOf, any', inside.anyOf, s'', hoisted,
      hoisted'⟩

theorem adaptFields_spec {ps qs : List (String × Schema P)} (done : adaptFields ps = some qs) :
    qs.map Prod.fst = ps.map Prod.fst ∧
      ∀ name c', qs.lookup name = some c' → ∃ c, ps.lookup name = some c ∧ adapt c = some c' := by
  induction ps generalizing qs with
  | nil =>
      rw [adaptFields] at done
      cases done
      exact ⟨rfl, fun _ _ found => by cases found⟩
  | cons p rest ih =>
      obtain ⟨name, s⟩ := p
      rw [adaptFields] at done
      simp only [Option.bind_eq_bind, Option.bind_eq_some_iff, Option.some.injEq] at done
      obtain ⟨t, adapted, others, done, rfl⟩ := done
      obtain ⟨names, lookup⟩ := ih done
      refine ⟨by rw [List.map_cons, names, List.map_cons], fun other c' found => ?_⟩
      rw [List.lookup_cons] at found ⊢
      by_cases same : other = name
      · subst same
        rw [beq_self_eq_true] at found ⊢
        cases found
        exact ⟨s, rfl, adapted⟩
      · rw [beq_eq_false_iff_ne.mpr same] at found ⊢
        exact lookup other c' found

theorem adaptAll_eq_some_iff {ss ts : List (Schema P)} :
    adaptAll ss = some ts ↔ List.Forall₂ (fun s t => adapt s = some t) ss ts := by
  induction ss generalizing ts with
  | nil => simp [adaptAll, eq_comm]
  | cons s rest ih =>
      rw [adaptAll]
      simp only [Option.bind_eq_bind, Option.bind_eq_some_iff, Option.some.injEq,
        List.forall₂_cons_left_iff, ih]
      constructor
      · rintro ⟨t, adapted, others, done, rfl⟩
        exact ⟨t, others, adapted, done, rfl⟩
      · rintro ⟨t, others, adapted, done, rfl⟩
        exact ⟨t, adapted, others, done, rfl⟩

theorem adaptOption_eq_some_some {s : Option (Schema P)} {t : Schema P}
    (done : adaptOption s = some (some t)) : ∃ c, s = some c ∧ adapt c = some t := by
  cases s with
  | none =>
      rw [adaptOption] at done
      cases done
  | some c =>
      rw [adaptOption] at done
      obtain ⟨t', adapted, same⟩ := Option.map_eq_some_iff.mp done
      cases same
      exact ⟨c, rfl, adapted⟩

namespace Inside

theorem isSome {s t : Schema P} (inside : Inside s t) :
    t.properties.isSome = s.properties.isSome := by
  have done := inside.properties
  cases given : s.properties with
  | none =>
      rw [given, adaptProperties] at done
      rw [← Option.some.inj done]
  | some ps =>
      rw [given, adaptProperties] at done
      obtain ⟨qs, _, same⟩ := Option.map_eq_some_iff.mp done
      rw [← same]
      rfl

/-- The fields, whether there are any or not. -/
theorem fields {s t : Schema P} (inside : Inside s t) :
    adaptFields s.fields = some t.fields := by
  have done := inside.properties
  unfold Schema.fields
  cases given : s.properties with
  | none =>
      rw [given, adaptProperties] at done
      rw [← Option.some.inj done, Option.getD_none, adaptFields]
  | some ps =>
      rw [given, adaptProperties] at done
      obtain ⟨qs, adapted, same⟩ := Option.map_eq_some_iff.mp done
      rw [← same, Option.getD_some, Option.getD_some, adapted]

theorem names {s t : Schema P} (inside : Inside s t) : t.names = s.names :=
  (adaptFields_spec inside.fields).1

theorem property {s t : Schema P} (inside : Inside s t) {name : String} {c' : Schema P}
    (found : t.property name = some c') :
    ∃ c, s.property name = some c ∧ adapt c = some c' :=
  (adaptFields_spec inside.fields).2 name c' found

theorem property_of {s t : Schema P} (inside : Inside s t) {name : String} {c : Schema P}
    (found : s.property name = some c) : ∃ c', t.property name = some c' ∧ adapt c = some c' := by
  have there : name ∈ t.names := inside.names ▸ exists_property.mp ⟨c, found⟩
  obtain ⟨c', found'⟩ := exists_property.mpr there
  obtain ⟨c'', given, adapted⟩ := inside.property found'
  cases Option.some.inj (found.symm.trans given)
  exact ⟨c', found', adapted⟩

theorem item {s t : Schema P} (inside : Inside s t) {i' : Schema P} (found : t.items = some i') :
    ∃ i, s.items = some i ∧ adapt i = some i' :=
  adaptOption_eq_some_some (inside.items.trans (congrArg some found))

theorem item_of {s t : Schema P} (inside : Inside s t) {i : Schema P} (found : s.items = some i) :
    ∃ i', t.items = some i' ∧ adapt i = some i' := by
  have done := inside.items
  rw [found, adaptOption] at done
  obtain ⟨i', adapted, same⟩ := Option.map_eq_some_iff.mp done
  exact ⟨i', same.symm, adapted⟩

theorem rest {s t : Schema P} (inside : Inside s t) {r' : Option (Schema P)}
    (found : t.additional = some r') :
    ∃ r, s.additional = some r ∧ adaptOption r = some r' := by
  have done := inside.additional
  rw [found] at done
  cases given : s.additional with
  | none =>
      rw [given, adaptAdditional] at done
      cases done
  | some r =>
      rw [given, adaptAdditional] at done
      obtain ⟨r'', adapted, same⟩ := Option.map_eq_some_iff.mp done
      cases same
      exact ⟨r, rfl, adapted⟩

theorem rest_of {s t : Schema P} (inside : Inside s t) {r : Option (Schema P)}
    (found : s.additional = some r) :
    ∃ r', t.additional = some r' ∧ adaptOption r = some r' := by
  have done := inside.additional
  rw [found, adaptAdditional] at done
  obtain ⟨r', adapted, same⟩ := Option.map_eq_some_iff.mp done
  exact ⟨r', same.symm, adapted⟩

theorem item_isSome {s t : Schema P} (inside : Inside s t) :
    t.items.isSome = s.items.isSome := by
  rw [Bool.eq_iff_iff, Option.isSome_iff_exists, Option.isSome_iff_exists]
  constructor
  · rintro ⟨i', found⟩
    obtain ⟨i, there, _⟩ := inside.item found
    exact ⟨i, there⟩
  · rintro ⟨i, found⟩
    obtain ⟨i', there, _⟩ := inside.item_of found
    exact ⟨i', there⟩

theorem additional_eq_none_iff {s t : Schema P} (inside : Inside s t) :
    t.additional = none ↔ s.additional = none := by
  rw [← not_iff_not]
  simp only [← Ne.eq_def, Option.ne_none_iff_exists']
  constructor
  · rintro ⟨r', found⟩
    obtain ⟨r, there, _⟩ := inside.rest found
    exact ⟨r, there⟩
  · rintro ⟨r, found⟩
    obtain ⟨r', there, _⟩ := inside.rest_of found
    exact ⟨r', there⟩

theorem eq_nil {ss ts : List (Schema P)} (done : adaptAll ss = some ts) : ts = [] ↔ ss = [] := by
  have lengths := (adaptAll_eq_some_iff.mp done).length_eq
  rw [← List.length_eq_zero_iff, ← List.length_eq_zero_iff, lengths]

theorem branches_eq_nil_iff {s t : Schema P} (inside : Inside s t) :
    t.branches = [] ↔ s.branches = [] := by
  rw [branches, branches, List.append_eq_nil_iff, List.append_eq_nil_iff, eq_nil inside.oneOf,
    eq_nil inside.anyOf]

end Inside

theorem exists_adaptAll {ss : List (Schema P)} (each : ∀ s ∈ ss, ∃ t, adapt s = some t) :
    ∃ ts, adaptAll ss = some ts := by
  induction ss with
  | nil => exact ⟨[], by rw [adaptAll]⟩
  | cons s rest ih =>
      obtain ⟨t, done⟩ := each s (List.mem_cons_self ..)
      obtain ⟨ts, others⟩ := ih fun s' member => each s' (List.mem_cons_of_mem _ member)
      exact ⟨t :: ts, by rw [adaptAll, done, others]; rfl⟩

theorem exists_adaptFields {ps : List (String × Schema P)}
    (each : ∀ p ∈ ps, ∃ t, adapt p.2 = some t) : ∃ qs, adaptFields ps = some qs := by
  induction ps with
  | nil => exact ⟨[], by rw [adaptFields]⟩
  | cons p rest ih =>
      obtain ⟨name, s⟩ := p
      obtain ⟨t, done⟩ := each (name, s) (List.mem_cons_self ..)
      obtain ⟨qs, others⟩ := ih fun p' member => each p' (List.mem_cons_of_mem _ member)
      exact ⟨(name, t) :: qs, by rw [adaptFields, done, others]; rfl⟩

theorem exists_adaptOption {s : Option (Schema P)}
    (each : ∀ c, s = some c → ∃ t, adapt c = some t) : ∃ t, adaptOption s = some t := by
  cases s with
  | none => exact ⟨none, by rw [adaptOption]⟩
  | some c =>
      obtain ⟨t, done⟩ := each c rfl
      exact ⟨some t, by rw [adaptOption, done]; rfl⟩

theorem exists_inside {s : Schema P} (each : ∀ c, s.Child c → ∃ t, adapt c = some t) :
    ∃ t, Inside s t := by
  have properties : ∃ ps, adaptProperties s.properties = some ps := by
    cases given : s.properties with
    | none => exact ⟨none, by rw [adaptProperties]⟩
    | some ps =>
        have inner : ∀ p ∈ ps, ∃ t, adapt p.2 = some t := fun p member =>
          each p.2 (Child.property (by rw [fields, given]; exact member))
        obtain ⟨qs, done⟩ := exists_adaptFields inner
        exact ⟨some qs, by rw [adaptProperties, done]; rfl⟩
  have additional : ∃ ad, adaptAdditional s.additional = some ad := by
    cases given : s.additional with
    | none => exact ⟨none, by rw [adaptAdditional]⟩
    | some rest =>
        obtain ⟨t, done⟩ := exists_adaptOption fun c same => each c (.additional (same ▸ given))
        exact ⟨some t, by rw [adaptAdditional, done]; rfl⟩
  obtain ⟨ps, properties⟩ := properties
  obtain ⟨ad, additional⟩ := additional
  obtain ⟨it, items⟩ := exists_adaptOption fun c here => each c (.items here)
  obtain ⟨no, negated⟩ := exists_adaptOption fun c here => each c (.negated here)
  obtain ⟨all, allOf⟩ := exists_adaptAll fun c here => each c (.allOf here)
  obtain ⟨one, oneOf⟩ := exists_adaptAll fun c here => each c (.oneOf here)
  obtain ⟨any, anyOf⟩ := exists_adaptAll fun c here => each c (.anyOf here)
  exact ⟨⟨s.keywords, ps, ad, it, no, all, one, any⟩, rfl, properties, additional, items, negated,
    allOf, oneOf, anyOf⟩

theorem Inside.unique {s t t' : Schema P} (inside : Inside s t) (inside' : Inside s t') :
    t = t' := by
  obtain ⟨k, ps, ad, it, no, all, one, any⟩ := t
  obtain ⟨k', ps', ad', it', no', all', one', any'⟩ := t'
  have keywords := inside.keywords.trans inside'.keywords.symm
  have properties := inside.properties.symm.trans inside'.properties
  have additional := inside.additional.symm.trans inside'.additional
  have items := inside.items.symm.trans inside'.items
  have negated := inside.negated.symm.trans inside'.negated
  have allOf := inside.allOf.symm.trans inside'.allOf
  have oneOf := inside.oneOf.symm.trans inside'.oneOf
  have anyOf := inside.anyOf.symm.trans inside'.anyOf
  simp only [Option.some.injEq] at keywords properties additional items negated allOf oneOf anyOf
  subst keywords properties additional items negated allOf oneOf anyOf
  rfl

/-- A schema without alternatives is adapted by adapting what is in it. -/
theorem inside_of_adapt {s t : Schema P} (oneOf : s.oneOf = []) (anyOf : s.anyOf = [])
    (done : adapt s = some t) : Inside s t := by
  obtain ⟨s', inside, s'', hoisted, hoisted'⟩ := adapt_eq_some_iff.mp done
  rw [hoistOneOf, (Inside.eq_nil inside.oneOf).mpr oneOf, if_neg (by simp [hoistable])] at hoisted
  cases hoisted
  rw [hoistAnyOf, (Inside.eq_nil inside.anyOf).mpr anyOf, if_neg (by simp [hoistable])] at hoisted'
  cases hoisted'
  exact inside

theorem exists_of_mem {ss ts : List (Schema P)} (done : adaptAll ss = some ts) {t : Schema P}
    (member : t ∈ ts) : ∃ s ∈ ss, adapt s = some t := by
  have pairs := adaptAll_eq_some_iff.mp done
  clear done
  induction pairs with
  | nil => cases member
  | cons adapted _ ih =>
      rcases List.mem_cons.mp member with rfl | member
      · exact ⟨_, List.mem_cons_self .., adapted⟩
      · obtain ⟨s, there, adapted⟩ := ih member
        exact ⟨s, List.mem_cons_of_mem _ there, adapted⟩

/-! ## Own properties -/

/-- Hoisting from these alternatives keeps what is declared at the object. -/
structure KeepsOwn (s : Schema P) (branches : List (Schema P)) : Prop where
  object : hoistable branches = true →
    s.keywords.type = none ∨ s.keywords.type = some .object
  kept : hoistable branches = true → ∀ fields, hoistedFields s.fields branches = some fields →
    ∀ name m, s.property name = some m → fields.lookup name = some m
  complete : hoistable branches = true → s.additional ≠ none → ∀ fields,
    hoistedFields s.fields branches = some fields → ∀ name ∈ fields.map Prod.fst, name ∈ s.names

theorem KeepsOwn.of_not {s : Schema P} {branches : List (Schema P)}
    (apart : hoistable branches = false) : KeepsOwn s branches := by
  have never : ¬ hoistable branches = true := Bool.eq_false_iff.mp apart
  exact ⟨fun some => absurd some never, fun some => absurd some never,
    fun some => absurd some never⟩

/-- At most one list of alternatives is hoisted from, and own properties are kept. -/
structure Keeping (s : Schema P) : Prop where
  apart : hoistable s.oneOf = false ∨ hoistable s.anyOf = false
  oneOf : KeepsOwn s s.oneOf
  anyOf : KeepsOwn s s.anyOf

/-- So it is in the schema and in the schemas in it. -/
inductive Steady : Schema P → Prop where
  | intro {s : Schema P} (keeping : ∀ t, Inside s t → Keeping t)
      (inner : ∀ c, s.Child c → Steady c) : Steady s

theorem Keeping.hoistOneOf {s s' : Schema P} (keeping : Keeping s)
    (done : hoistOneOf s = some s') : KeepsOwn s' s'.anyOf := by
  rw [Schema.hoistOneOf] at done
  split at done
  · rename_i first
    obtain ⟨fields, _, rfl⟩ := Option.map_eq_some_iff.mp done
    exact .of_not (keeping.apart.resolve_left fun never => by simp [first] at never)
  · cases done
    exact keeping.anyOf

/-! ## Lifting -/

/-- Both hoist from the same alternatives. -/
theorem Covers.hoist {role : Role} {m c : Schema P} (covers : Covers role m c)
    {branches : List (Schema P)} (given : hoistable branches = true)
    (keeps : KeepsOwn m branches) (keeps' : KeepsOwn c branches) (names : m.names = c.names)
    {fields fields' : List (String × Schema P)}
    (hoisted : hoistedFields m.fields branches = some fields)
    (hoisted' : hoistedFields c.fields branches = some fields') :
    fields.map Prod.fst = fields'.map Prod.fst ∧
      ∀ one any one' any', one = one' → any = any' →
        Covers role { m.declaring fields with oneOf := one, anyOf := any }
          { c.declaring fields' with oneOf := one', anyOf := any' } := by
  obtain ⟨order, same⟩ := hoistedFields_congr names (lookup_eq_of_names names) hoisted hoisted'
  exact ⟨order, fun _ _ _ _ oneOf anyOf => covers.declaring oneOf anyOf
    (keeps.kept given fields hoisted) (keeps'.kept given fields' hoisted') names order same⟩

/-- Only the declaration hoists. -/
theorem Covers.hoist_left {role : Role} {m c : Schema P} (covers : Covers role m c)
    (apart : role.alike = false) (single : c.oneOf = [] ∧ c.anyOf = [])
    {branches : List (Schema P)} (given : hoistable branches = true)
    (keeps : KeepsOwn m branches) {fields : List (String × Schema P)}
    (hoisted : hoistedFields m.fields branches = some fields) (one any : List (Schema P)) :
    Covers role { m.declaring fields with oneOf := one, anyOf := any } c :=
  covers.declaring_left apart single (keeps.object given) (keeps.kept given fields hoisted)
    fun closed => keeps.complete given closed fields hoisted

theorem Covers.hoistOneOf {role : Role} {m c m' c' : Schema P} (covers : Covers role m c)
    (keeps : KeepsOwn m m.oneOf) (keeps' : KeepsOwn c c.oneOf) (done : hoistOneOf m = some m')
    (done' : hoistOneOf c = some c') : Covers role m' c' := by
  rw [Schema.hoistOneOf] at done done'
  rcases covers.unions with ⟨apart, single⟩ | ⟨oneOf, anyOf, names⟩
  · rw [single.1, if_neg (by simp [hoistable])] at done'
    cases done'
    split at done
    · rename_i given
      obtain ⟨fields, hoisted, rfl⟩ := Option.map_eq_some_iff.mp done
      exact covers.hoist_left apart single given keeps hoisted _ _
    · cases done
      exact covers
  · rw [oneOf] at done keeps
    split at done
    · rename_i given
      rw [if_pos given] at done'
      obtain ⟨fields, hoisted, rfl⟩ := Option.map_eq_some_iff.mp done
      obtain ⟨fields', hoisted', rfl⟩ := Option.map_eq_some_iff.mp done'
      have some : c.branches ≠ [] := fun none =>
        hoistable_ne_nil given (List.append_eq_nil_iff.mp none).1
      obtain ⟨order, lifted⟩ := covers.hoist given keeps keeps' (names some) hoisted hoisted'
      exact lifted _ _ _ _ (by rw [order]) anyOf
    · rename_i given
      rw [if_neg given] at done'
      cases done
      cases done'
      exact covers

theorem Covers.hoistAnyOf {role : Role} {m c m' c' : Schema P} (covers : Covers role m c)
    (keeps : KeepsOwn m m.anyOf) (keeps' : KeepsOwn c c.anyOf) (done : hoistAnyOf m = some m')
    (done' : hoistAnyOf c = some c') : Covers role m' c' := by
  rw [Schema.hoistAnyOf] at done done'
  rcases covers.unions with ⟨apart, single⟩ | ⟨oneOf, anyOf, names⟩
  · rw [single.2, if_neg (by simp [hoistable])] at done'
    cases done'
    split at done
    · rename_i given
      obtain ⟨fields, hoisted, rfl⟩ := Option.map_eq_some_iff.mp done
      exact covers.hoist_left apart single given keeps hoisted _ _
    · cases done
      exact covers
  · rw [anyOf] at done keeps
    split at done
    · rename_i given
      rw [if_pos given] at done'
      obtain ⟨fields, hoisted, rfl⟩ := Option.map_eq_some_iff.mp done
      obtain ⟨fields', hoisted', rfl⟩ := Option.map_eq_some_iff.mp done'
      have some : c.branches ≠ [] := fun none =>
        hoistable_ne_nil given (List.append_eq_nil_iff.mp none).2
      obtain ⟨order, lifted⟩ := covers.hoist given keeps keeps' (names some) hoisted hoisted'
      exact lifted _ _ _ _ oneOf (by rw [order])
    · rename_i given
      rw [if_neg given] at done'
      cases done
      cases done'
      exact covers

/-- The schemas in a declaration and in a copy are adapted. -/
theorem Covers.inside {role : Role} {m c m' c' : Schema P} (covers : Covers role m c)
    (inside : Inside m m') (inside' : Inside c c')
    (properties : ∀ name a b a' b', m.property name = some a → c.property name = some b →
      adapt a = some a' → adapt b = some b' → Covers role a' b')
    (items : ∀ i j i' j', m.items = some i → c.items = some j → adapt i = some i' →
      adapt j = some j' → Covers role.inner i' j') : Covers role m' c' := by
  cases covers with
  | intro keywords names only given _ additional listed _ unions =>
      have additional' : m'.additional = c'.additional ∨
          role.alike = false ∧ c'.additional = none := by
        refine additional.imp (fun same => ?_) fun free =>
          ⟨free.1, inside'.additional_eq_none_iff.mpr free.2⟩
        have done := inside.additional
        rw [same, inside'.additional] at done
        exact (Option.some.inj done).symm
      have listed' : m'.items.isSome = c'.items.isSome ∨
          role.alike = false ∧ c'.items = none := by
        rw [inside.item_isSome, inside'.item_isSome]
        refine listed.imp_right fun free => ⟨free.1, ?_⟩
        rw [← Option.not_isSome_iff_eq_none, inside'.item_isSome, free.2]
        exact Bool.false_ne_true
      have unions' : Unions role m' c' := by
        refine unions.imp (fun single => ⟨single.1, (Inside.eq_nil inside'.oneOf).mpr single.2.1,
          (Inside.eq_nil inside'.anyOf).mpr single.2.2⟩) ?_
        rintro ⟨oneOf, anyOf, order⟩
        have one := inside.oneOf
        have any := inside.anyOf
        rw [oneOf, inside'.oneOf] at one
        rw [anyOf, inside'.anyOf] at any
        refine ⟨(Option.some.inj one).symm, (Option.some.inj any).symm, fun some => ?_⟩
        rw [inside.names, inside'.names]
        exact order (mt inside'.branches_eq_nil_iff.mpr some)
      refine .intro (by rwa [inside.keywords, inside'.keywords]) ?_ ?_ ?_ ?_ additional' listed'
        ?_ unions'
      · rwa [inside.names, inside'.names]
      · rw [inside.names, inside'.names]
        exact fun closed => only (closed.imp_right (mt inside'.additional_eq_none_iff.mpr))
      · rwa [inside.isSome, inside'.isSome]
      · intro name a' b' found found'
        obtain ⟨a, there, adapted⟩ := inside.property found
        obtain ⟨b, there', adapted'⟩ := inside'.property found'
        exact properties name a b a' b' there there' adapted adapted'
      · intro i' j' found found'
        obtain ⟨i, there, adapted⟩ := inside.item found
        obtain ⟨j, there', adapted'⟩ := inside'.item found'
        exact items i j i' j' there there' adapted adapted'

/-- **A declaration remains what it is when both are adapted.** -/
theorem Covers.adapt {role : Role} {m c m' c' : Schema P} (covers : Covers role m c)
    (steady : Steady m) (steady' : Steady c) (done : adapt m = some m')
    (done' : Schema.adapt c = some c') : Covers role m' c' := by
  induction covers generalizing m' c' with
  | @intro role m c keywords names only given properties additional listed items unions ih ih' =>
      obtain ⟨m₁, inside, m₂, one, any⟩ := adapt_eq_some_iff.mp done
      obtain ⟨c₁, inside', c₂, one', any'⟩ := adapt_eq_some_iff.mp done'
      cases steady with
      | intro keeping inner =>
          cases steady' with
          | intro keeping' inner' =>
              have keeps := keeping m₁ inside
              have keeps' := keeping' c₁ inside'
              have lifted : Covers role m₁ c₁ := by
                refine Covers.inside (.intro keywords names only given properties additional
                  listed items unions) inside inside' ?_ ?_
                · intro name a b a' b' found found' adapted adapted'
                  exact ih name a b found found' (inner a (.property (mem_of_lookup found)))
                    (inner' b (.property (mem_of_lookup found'))) adapted adapted'
                · intro i j i' j' found found' adapted adapted'
                  exact ih' i j found found' (inner i (.items found)) (inner' j (.items found'))
                    adapted adapted'
              exact (lifted.hoistOneOf keeps.oneOf keeps'.oneOf one one').hoistAnyOf
                (keeps.hoistOneOf one) (keeps'.hoistOneOf one') any any'

end Adapting

end OAuthRelay.Schemas.Schema
