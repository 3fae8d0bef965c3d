import OAuthRelay.Schemas.Lifting

/-!
# Schemas that agree

The schemas here are objects, arrays and scalars, and unions of closed objects (`Built`).
Adapting keeps what such a schema accepts if everywhere in it the copies of a property agree,
and so do the object and its alternatives (`Agreeing`). What this asks of two copies is
`Covers`: merging takes the first copy for the declaration, takes away a few of the keywords
that are not alike, and a rule has no types, so the declaration has to say everything else for
all copies and must not say it for one of them only.

Where the copies agree, naming the members of an instance in one copy is naming them in all
(`reads_of_named`).
-/

set_option autoImplicit false

namespace OAuthRelay.Schemas.Schema

variable {P V : Type}

/-! ## The schemas -/

/-- A schema of objects, arrays and scalars, and of unions of closed objects, in which the
copies of a property agree in type. -/
inductive Built : Schema P → Prop where
  | intro {s : Schema P} (distinct : s.names.Nodup)
      (keyed : (s.keywords.plain.map Prod.fst).Nodup) (allOf : s.allOf = [])
      (negated : s.negated = none)
      (object : s.branches ≠ [] → s.keywords.type = none ∨ s.keywords.type = some .object)
      (closed : ∀ b ∈ s.branches, b.keywords.type = some .object ∧ b.additional = some none ∧
        b.oneOf = [] ∧ b.anyOf = [])
      (shared : ∀ b ∈ s.branches, ∀ b' ∈ s.branches, ∀ name c c', b.property name = some c →
        b'.property name = some c' → c.keywords.type = c'.keywords.type)
      (inner : ∀ c, s.Child c → Built c) : Built s

/-- The object has properties to hoist. -/
def Unites (s : Schema P) : Prop := hoistable s.oneOf = true ∨ hoistable s.anyOf = true

/-- An object and its alternatives agree on the properties. -/
structure Concordant (s : Schema P) : Prop where
  apart : hoistable s.oneOf = false ∨ hoistable s.anyOf = false
  nullable : s.keywords.nullable = false
  additional : s.additional = none ∨
    s.additional = some none ∧ ∀ b ∈ s.branches, ∀ name ∈ b.names, name ∈ s.names
  own : ∀ name m, s.property name = some m → ∀ b ∈ s.branches, ∀ c,
    b.property name = some c → Covers .own m c
  first : FirstCovers s.names s.branches

/-- Everywhere in the schema no alternative may be null, and objects agree with their
alternatives. -/
inductive Agreeing : Schema P → Prop where
  | intro {s : Schema P} (present : ∀ b ∈ s.branches, b.keywords.nullable = false)
      (concordant : s.Unites → Concordant s) (inner : ∀ c, s.Child c → Agreeing c) : Agreeing s

theorem child_of_branch {s b : Schema P} (member : b ∈ s.branches) : s.Child b := by
  rcases List.mem_append.mp member with here | here
  · exact .oneOf here
  · exact .anyOf here

theorem Unites.ne_nil {s : Schema P} (unites : s.Unites) : s.branches ≠ [] := by
  intro none
  obtain ⟨one, any⟩ := List.append_eq_nil_iff.mp none
  rcases unites with given | given
  · exact hoistable_ne_nil given one
  · exact hoistable_ne_nil given any

/-- Alternatives that are not hoisted from have no properties. -/
theorem properties_eq_none {branches : List (Schema P)} (apart : hoistable branches = false)
    {b : Schema P} (member : b ∈ branches) : b.properties = none := by
  by_contra given
  have some : hoistable branches = true :=
    List.any_eq_true.mpr ⟨b, member, Option.ne_none_iff_isSome.mp given⟩
  rw [apart] at some
  cases some

theorem properties_eq_none_of_not_unites {s b : Schema P} (apart : ¬ s.Unites)
    (member : b ∈ s.branches) : b.properties = none := by
  rcases List.mem_append.mp member with here | here
  · exact properties_eq_none (Bool.eq_false_iff.mpr fun given => apart (.inl given)) here
  · exact properties_eq_none (Bool.eq_false_iff.mpr fun given => apart (.inr given)) here

/-! ## Members that are read -/

/-- The members of the instance are what the schema and the schemas that apply to them know. -/
inductive Reads (J : Instances P V) : Schema P → V → Prop where
  | intro {s : Schema P} {v : V}
      (members : ∀ name w, J.member v name = some w → ∀ c ∈ s.copies name, Reads J c w)
      (elements : ∀ w ∈ J.elements v, ∀ c, s.items = some c → Reads J c w)
      (known : s.Unites → ∀ name w, J.member v name = some w →
        name ∈ s.names ∨ ∃ b ∈ s.branches, name ∈ b.names) : Reads J s v

theorem mem_copies_iff {s c : Schema P} {name : String} : c ∈ s.copies name ↔
    s.property name = some c ∨ s.property name = none ∧ s.additional = some (some c) ∨
      ∃ b ∈ s.branches, b.property name = some c := by
  have first : (s.property name).or s.additional.join = some c ↔
      s.property name = some c ∨ s.property name = none ∧ s.additional = some (some c) := by
    cases s.property name <;> simp [Option.join_eq_some_iff]
  rw [copies, List.mem_append, List.mem_flatMap, Option.mem_toList, ← or_assoc, ← first]
  simp only [Option.mem_toList]

variable {J : Instances P V}

/-- What a member is subject to in a copy, it is subject to in the declaration. -/
theorem Covers.copies {role : Role} {m c d : Schema P} (covers : Covers role m c) {name : String}
    (copy : d ∈ c.copies name) :
    d ∈ m.copies name ∨ ∃ a, m.property name = some a ∧ c.property name = some d := by
  cases covers with
  | intro _ names only _ _ additional _ _ unions =>
      rcases mem_copies_iff.mp copy with found | ⟨missing, rest⟩ | ⟨b, member, found⟩
      · obtain ⟨a, there⟩ := exists_property.mpr (names name (exists_property.mp ⟨d, found⟩))
        exact .inr ⟨a, there, found⟩
      · have closed : c.additional ≠ none := by simp [rest]
        have same := additional.resolve_right fun free => closed free.2
        refine .inl (mem_copies_iff.mpr (.inr (.inl ⟨?_, same.trans rest⟩)))
        rw [property_eq_none_iff] at missing ⊢
        exact fun inside => missing (only (.inr closed) name inside)
      · refine .inl (mem_copies_iff.mpr (.inr (.inr ⟨b, ?_, found⟩)))
        rcases unions with ⟨_, one, any⟩ | ⟨one, any, _⟩
        · rw [branches, one, any] at member
          cases member
        · rwa [branches, one, any]

/-- A path that a copy names, the declaration names. -/
theorem Covers.names {role : Role} {m c : Schema P} (covers : Covers role m c)
    {path : List Step} (named : c.Names path) : m.Names path := by
  induction covers generalizing path with
  | @intro role m c keywords names only given properties additional listed items unions ih ih' =>
      have covers : Covers role m c :=
        .intro keywords names only given properties additional listed items unions
      cases path with
      | nil => trivial
      | cons step path =>
          cases step with
          | member name =>
              obtain ⟨d, copy, named⟩ := named
              rcases covers.copies copy with copy' | ⟨a, found, found'⟩
              · exact ⟨d, copy', named⟩
              · exact ⟨a, mem_copies_iff.mpr (.inl found), ih name a d found found' named⟩
          | element =>
              obtain ⟨j, found', named⟩ := named
              obtain ⟨i, found⟩ := exists_items found' listed
              exact ⟨i, found, ih' i j found found' named⟩

/-- Members that the declaration knows, every copy knows. -/
theorem Covers.reads {role : Role} {m c : Schema P} (covers : Covers role m c) {v : V}
    (reads : Reads J m v) : Reads J c v := by
  induction covers generalizing v with
  | @intro role m c keywords names only given properties additional listed items unions ih ih' =>
      have covers : Covers role m c :=
        .intro keywords names only given properties additional listed items unions
      cases reads with
      | intro members elements known =>
          refine .intro (fun name w there d copy => ?_) (fun w inside j found' => ?_)
            fun unites name w there => ?_
          · rcases covers.copies copy with copy' | ⟨a, found, found'⟩
            · exact members name w there d copy'
            · exact ih name a d found found'
                (members name w there a (mem_copies_iff.mpr (.inl found)))
          · obtain ⟨i, found⟩ := exists_items found' listed
            exact ih' i j found found' (elements w inside i found)
          · rcases unions with ⟨_, one, any⟩ | ⟨one, any, order⟩
            · exact absurd (List.append_eq_nil_iff.mpr ⟨one, any⟩) unites.ne_nil
            · have unites' : m.Unites := by rwa [Unites, one, any]
              have knows := known unites' name w there
              rwa [order unites.ne_nil, branches, one, any] at knows

/-- Of the alternatives that have the property there is a first one. -/
theorem exists_first {branches : List (Schema P)} {name : String}
    (given : ∃ b ∈ branches, name ∈ b.names) : ∃ front b back a,
      branches = front ++ b :: back ∧ (∀ b' ∈ front, name ∉ b'.names) ∧
        b.property name = some a := by
  induction branches with
  | nil => simp at given
  | cons b rest ih =>
      by_cases here : name ∈ b.names
      · obtain ⟨a, found⟩ := exists_property.mpr here
        exact ⟨[], b, rest, a, rfl, fun _ never => (List.not_mem_nil never).elim, found⟩
      · have later : ∃ b' ∈ rest, name ∈ b'.names := by
          obtain ⟨b', member, there⟩ := given
          rcases List.mem_cons.mp member with rfl | member
          · exact absurd there here
          · exact ⟨b', member, there⟩
        obtain ⟨front, b', back, a, rfl, before, found⟩ := ih later
        refine ⟨b :: front, b', back, a, rfl, fun b'' member => ?_, found⟩
        rcases List.mem_cons.mp member with rfl | member
        · exact here
        · exact before b'' member

/-- Where object and alternatives agree, one of the copies of a property is a declaration of all
copies. -/
theorem Concordant.exists_declaration {s : Schema P} (concordant : Concordant s) {name : String}
    {c : Schema P} (copy : c ∈ s.copies name) : ∃ m ∈ s.copies name,
      (s.Child m ∨ ∃ b, s.Child b ∧ b.Child m) ∧
        ∀ d ∈ s.copies name, ∃ role, Covers role m d := by
  have open' : ∀ d, s.additional ≠ some (some d) := by
    rcases concordant.additional with none | ⟨closed, _⟩
    · simp [none]
    · simp [closed]
  cases own : s.property name with
  | some m =>
      refine ⟨m, mem_copies_iff.mpr (.inl own), .inl (.property (mem_of_lookup own)),
        fun d other => ?_⟩
      rcases mem_copies_iff.mp other with same | ⟨missing, _⟩ | ⟨b, member, found⟩
      · cases Option.some.inj (own.symm.trans same)
        exact ⟨.whole, .refl m⟩
      · rw [own] at missing
        cases missing
      · exact ⟨.own, concordant.own name m own b member d found⟩
  | none =>
      have foreign {d : Schema P} (other : d ∈ s.copies name) :
          ∃ b ∈ s.branches, b.property name = some d := by
        rcases mem_copies_iff.mp other with same | ⟨_, rest⟩ | found
        · rw [own] at same
          cases same
        · exact absurd rest (open' d)
        · exact found
      obtain ⟨b₀, member₀, found₀⟩ := foreign copy
      obtain ⟨front, b, back, m, split, before, found⟩ :=
        exists_first ⟨b₀, member₀, exists_property.mp ⟨c, found₀⟩⟩
      have member : b ∈ s.branches := split ▸ List.mem_append_right _ (List.mem_cons_self ..)
      refine ⟨m, mem_copies_iff.mpr (.inr (.inr ⟨b, member, found⟩)),
        .inr ⟨b, child_of_branch member, .property (mem_of_lookup found)⟩, fun d other => ?_⟩
      obtain ⟨b', member', found'⟩ := foreign other
      rw [split] at member'
      rcases List.mem_append.mp member' with early | late
      · exact absurd (exists_property.mp ⟨d, found'⟩) (before b' early)
      · rcases List.mem_cons.mp late with rfl | late
        · cases Option.some.inj (found.symm.trans found')
          exact ⟨.whole, .refl m⟩
        · exact ⟨.first, concordant.first front b back split name m
            (property_eq_none_iff.mp own) before found b' late d found'⟩

/-- Without properties in alternatives there is one copy. -/
theorem copies_unique {s c d : Schema P} (apart : ¬ s.Unites) {name : String}
    (copy : c ∈ s.copies name) (other : d ∈ s.copies name) : c = d ∧ s.Child c := by
  have alone (d : Schema P) (other : d ∈ s.copies name) :
      s.property name = some d ∨ s.property name = none ∧ s.additional = some (some d) := by
    rcases mem_copies_iff.mp other with found | found | ⟨b, member, found⟩
    · exact .inl found
    · exact .inr found
    · rw [property, fields, properties_eq_none_of_not_unites apart member] at found
      cases found
  rcases alone c copy with found | ⟨missing, rest⟩
  · rcases alone d other with found' | ⟨missing, _⟩
    · exact ⟨Option.some.inj (found.symm.trans found'), .property (mem_of_lookup found)⟩
    · rw [found] at missing
      cases missing
  · rcases alone d other with found | ⟨_, rest'⟩
    · rw [missing] at found
      cases found
    · exact ⟨Option.some.inj (Option.some.inj (rest.symm.trans rest')), .additional rest⟩

/-- **Where copies agree, an instance whose members are named has members that every copy
knows.** -/
theorem reads_of_named {s : Schema P} (agreeing : Agreeing s) {v : V} (named : Named J s v) :
    Reads J s v := by
  have all (s : Schema P) : (Agreeing s → ∀ v, Named J s v → Reads J s v) ∧
      ∀ c, s.Child c → Agreeing c → ∀ v, Named J c v → Reads J c v := by
    induction s using induct with
    | step s ih =>
        refine ⟨fun agreeing v named => ?_, fun c child => (ih c child).1⟩
        cases agreeing with
        | intro _ concordant inner =>
            refine .intro (fun name w there c copy => ?_) (fun w inside c found => ?_)
              fun unites name w there => ?_
            · by_cases unites : s.Unites
              · obtain ⟨m, copy', near, covers⟩ := (concordant unites).exists_declaration copy
                have named' : Named J m w := fun path leads => by
                  obtain ⟨d, other, names⟩ := named (.member name :: path)
                    ⟨w, there, .inr leads⟩
                  obtain ⟨_, covers⟩ := covers d other
                  exact covers.names names
                have reads : Reads J m w := by
                  rcases near with child | ⟨b, child, child'⟩
                  · exact (ih m child).1 (inner m child) w named'
                  · cases inner b child with
                    | intro _ _ inner' => exact (ih b child).2 m child' (inner' m child') w named'
                obtain ⟨_, covers⟩ := covers c copy
                exact covers.reads reads
              · have child := (copies_unique unites copy copy).2
                refine (ih c child).1 (inner c child) w fun path leads => ?_
                obtain ⟨d, other, names⟩ := named (.member name :: path) ⟨w, there, .inr leads⟩
                rw [(copies_unique unites copy other).1]
                exact names
            · refine (ih c (.items found)).1 (inner c (.items found)) w fun path leads => ?_
              obtain ⟨d, found', names⟩ := named (.element :: path) ⟨w, inside, leads⟩
              cases Option.some.inj (found.symm.trans found')
              exact names
            · obtain ⟨d, copy, _⟩ := named [.member name] ⟨w, there, .inl rfl⟩
              rcases mem_copies_iff.mp copy with found | ⟨_, rest⟩ | ⟨b, member, found⟩
              · exact .inl (exists_property.mp ⟨d, found⟩)
              · rcases (concordant unites).additional with none | ⟨closed, _⟩
                · rw [none] at rest
                  cases rest
                · rw [closed] at rest
                  cases rest
              · exact .inr ⟨b, member, exists_property.mp ⟨d, found⟩⟩
  exact (all s).1 agreeing v named

end OAuthRelay.Schemas.Schema
