import OAuthRelay.Schemas.Soundness

/-!
# Adapted schemas

By induction on a schema that agrees: adapting it does not fail, leads to a structural schema,
and changes nothing about the instances whose members it knows (`exists_adapts`). First come the
schemas in it (`Prepared`), then the properties of its alternatives, where there are any to hoist
(`Prepared.declares`).
-/

set_option autoImplicit false

namespace OAuthRelay.Schemas.Schema

variable {P : Type}

/-- A closed alternative without properties. -/
theorem Closed.bare {b : Schema P} (closed : Closed b) (structural : Structural b)
    (none : b.properties = none) : Bare b := by
  cases structural with
  | intro _ _ allOf negated =>
      exact ⟨closed.object, closed.nullable, none, closed.closed, negated, allOf, closed.oneOf,
        closed.anyOf⟩

theorem FirstCovers.left {names : List String} {one any : List (Schema P)}
    (first : FirstCovers names (one ++ any)) : FirstCovers names one := by
  rintro front b back rfl name a foreign before found d member
  exact first front b (back ++ any) (by simp) name a foreign before found d
    (List.mem_append_left _ member)

theorem FirstCovers.right {names : List String} {one any : List (Schema P)}
    (first : FirstCovers names (one ++ any)) (apart : hoistable one = false) :
    FirstCovers names any := by
  rintro front b back rfl name a foreign before found
  refine first (one ++ front) b back (by simp) name a foreign (fun d member inside => ?_) found
  rcases List.mem_append.mp member with early | late
  · rw [Schema.names, fields, properties_eq_none apart early] at inside
    cases inside
  · exact before d late inside

variable [DecidableEq P]

/-! ## Adapted alternatives -/

theorem exists_mem_of_mem {ss ts : List (Schema P)} (done : adaptAll ss = some ts) {s : Schema P}
    (member : s ∈ ss) : ∃ t ∈ ts, adapt s = some t := by
  have pairs := adaptAll_eq_some_iff.mp done
  clear done
  induction pairs with
  | nil => cases member
  | cons adapted _ ih =>
      rcases List.mem_cons.mp member with rfl | member
      · exact ⟨_, List.mem_cons_self .., adapted⟩
      · obtain ⟨t, there, adapted⟩ := ih member
        exact ⟨t, List.mem_cons_of_mem _ there, adapted⟩

theorem split_of_adaptAll {ss ts us : List (Schema P)} {t : Schema P}
    (done : adaptAll ss = some (ts ++ t :: us)) : ∃ front s back, ss = front ++ s :: back ∧
      adaptAll front = some ts ∧ adapt s = some t ∧ adaptAll back = some us := by
  induction ts generalizing ss with
  | nil =>
      obtain ⟨s, back, adapted, pairs, rfl⟩ :=
        List.forall₂_cons_right_iff.mp (adaptAll_eq_some_iff.mp done)
      exact ⟨[], s, back, rfl, by rw [adaptAll], adapted, adaptAll_eq_some_iff.mpr pairs⟩
  | cons t' ts ih =>
      obtain ⟨s', rest, adapted, pairs, rfl⟩ :=
        List.forall₂_cons_right_iff.mp (adaptAll_eq_some_iff.mp done)
      obtain ⟨front, s, back, rfl, first, middle, last⟩ := ih (adaptAll_eq_some_iff.mpr pairs)
      refine ⟨s' :: front, s, back, rfl, ?_, middle, last⟩
      rw [adaptAll, adapted, first]
      rfl

theorem hoistable_adapt {ss ts : List (Schema P)} (done : adaptAll ss = some ts)
    (inside : ∀ s ∈ ss, ∀ t, adapt s = some t → Inside s t) : hoistable ts = hoistable ss := by
  rw [Bool.eq_iff_iff, hoistable, hoistable, List.any_eq_true, List.any_eq_true]
  constructor
  · rintro ⟨t, member, given⟩
    obtain ⟨s, there, adapted⟩ := exists_of_mem done member
    exact ⟨s, there, (inside s there t adapted).isSome ▸ given⟩
  · rintro ⟨s, member, given⟩
    obtain ⟨t, there, adapted⟩ := exists_mem_of_mem done member
    exact ⟨t, there, (inside s member t adapted).isSome.symm ▸ given⟩

theorem Steady.property {s c : Schema P} (steady : Steady s) {name : String}
    (found : s.property name = some c) : Steady c := by
  cases steady with
  | intro _ inner => exact inner c (.property (mem_of_lookup found))

theorem FirstCovers.adapt {names : List String} {ss ts : List (Schema P)}
    (first : FirstCovers names ss) (done : adaptAll ss = some ts)
    (inside : ∀ s ∈ ss, ∀ t, Schema.adapt s = some t → Inside s t) (steady : ∀ s ∈ ss, Steady s) :
    FirstCovers names ts := by
  rintro front' b' back' rfl name a' foreign before found d' member c' found'
  obtain ⟨front, b, back, rfl, early, middle, late⟩ := split_of_adaptAll done
  have here : b ∈ front ++ b :: back := List.mem_append_right _ (List.mem_cons_self ..)
  obtain ⟨a, there, adapted⟩ := (inside b here b' middle).property found
  obtain ⟨d, member', adapted'⟩ := exists_of_mem late member
  have here' : d ∈ front ++ b :: back :=
    List.mem_append_right _ (List.mem_cons_of_mem _ member')
  obtain ⟨c, there', adapted''⟩ := (inside d here' d' adapted').property found'
  refine Covers.adapt (first front b back rfl name a foreign (fun e earlier => ?_) there d member' c
    there') ((steady b here).property there) ((steady d here').property there') adapted adapted''
  obtain ⟨e', earlier', done'⟩ := exists_mem_of_mem early earlier
  rw [← (inside e (List.mem_append_left _ earlier) e' done').names]
  exact before e' earlier'

/-! ## The induction -/

/-- What adapting a schema leads to. -/
structure Adapts (s t : Schema P) : Prop where
  done : adapt s = some t
  structural : Structural t
  steady : Steady s
  hoisted : ∀ b ∈ s.branches, ∀ name ∈ b.names, name ∈ t.names
  accepts : ∀ (V : Type) (J : Instances P V) (v : V), Reads J s v →
    (t.accepts J v ↔ s.accepts J v)

/-- The schema with the schemas in it adapted. -/
structure Prepared (s s' : Schema P) : Prop where
  inside : Inside s s'
  steady : ∀ c, s.Child c → Steady c
  fields : ∀ name m, s'.property name = some m → Structural m
  additional : ∀ c, s'.additional = some (some c) → Structural c
  items : ∀ c, s'.items = some c → Structural c
  alternatives : ∀ b ∈ s.branches, ∀ b', adapt b = some b' →
    Inside b b' ∧ Closed b' ∧ Structural b'
  accepts : ∀ (V : Type) (J : Instances P V) (v : V), Reads J s v →
    (s'.accepts J v ↔ s.accepts J v)

theorem exists_prepared {s : Schema P} (built : Built s)
    (present : ∀ b ∈ s.branches, b.keywords.nullable = false)
    (each : ∀ c, s.Child c → ∃ t, Adapts c t) : ∃ s', Prepared s s' := by
  obtain ⟨s', inside⟩ := exists_inside fun c child =>
    let ⟨t, adapts⟩ := each c child
    ⟨t, adapts.done⟩
  have structural (c c' : Schema P) (child : s.Child c) (done : adapt c = some c') :
      Structural c' := by
    obtain ⟨t, adapts⟩ := each c child
    cases Option.some.inj (done.symm.trans adapts.done)
    exact adapts.structural
  refine ⟨s', inside, ?_, ?_, ?_, ?_, ?_, ?_⟩
  · intro c child
    obtain ⟨t, adapts⟩ := each c child
    exact adapts.steady
  · intro name c' found
    obtain ⟨c, there, done⟩ := inside.property found
    exact structural c c' (.property (mem_of_lookup there)) done
  · intro c' found
    obtain ⟨rest, there, done⟩ := inside.rest found
    obtain ⟨c, rfl, adapted⟩ := adaptOption_eq_some_some done
    exact structural c c' (.additional there) adapted
  · intro c' found
    obtain ⟨c, there, done⟩ := inside.item found
    exact structural c c' (.items there) done
  · intro b member b' done
    obtain ⟨inside', closed⟩ := closed_of_adapt built present member done
    exact ⟨inside', closed, structural b b' (child_of_branch member) done⟩
  · intro V J v reads
    refine inside.accepts_iff built present reads fun c c' child done w reads' => ?_
    obtain ⟨t, adapts⟩ := each c child
    cases Option.some.inj (done.symm.trans adapts.done)
    exact adapts.accepts V J w reads'

namespace Prepared

variable {s s' : Schema P}

theorem keeping (prepared : Prepared s s') (keeping : Keeping s') : Steady s :=
  .intro (fun _ inside => prepared.inside.unique inside ▸ keeping) prepared.steady

theorem unites_iff (prepared : Prepared s s') : (hoistable s'.oneOf = hoistable s.oneOf) ∧
    hoistable s'.anyOf = hoistable s.anyOf := by
  constructor
  · exact hoistable_adapt prepared.inside.oneOf fun b member b' done =>
      (prepared.alternatives b (List.mem_append_left _ member) b' done).1
  · exact hoistable_adapt prepared.inside.anyOf fun b member b' done =>
      (prepared.alternatives b (List.mem_append_right _ member) b' done).1

/-- Alternatives that are not hoisted from. -/
theorem bare (prepared : Prepared s s') {branches branches' : List (Schema P)}
    (listed : ∀ b ∈ branches, b ∈ s.branches) (done : adaptAll branches = some branches')
    (apart : hoistable branches = false) (names : List String) :
    Restricting names branches' := by
  refine .inr fun b' member => ?_
  obtain ⟨b, there, adapted⟩ := exists_of_mem done member
  obtain ⟨inside, closed, structural⟩ := prepared.alternatives b (listed b there) b' adapted
  refine closed.bare structural (Option.not_isSome_iff_eq_none.mp fun given => ?_)
  rw [inside.isSome, properties_eq_none apart there] at given
  cases given

theorem structural (prepared : Prepared s s') (built : Built s) {type : Option Kind}
    {ps : Option (List (String × Schema P))} {one any : List (Schema P)}
    (distinct : ((ps.getD []).map Prod.fst).Nodup)
    (fields : ∀ name m, (ps.getD []).lookup name = some m → Structural m)
    (oneOf : Restricting ((ps.getD []).map Prod.fst) one)
    (anyOf : Restricting ((ps.getD []).map Prod.fst) any) :
    Structural { s' with
      keywords := { s'.keywords with type := type }
      properties := ps
      oneOf := one
      anyOf := any } := by
  cases built with
  | intro _ keyed allOf negated =>
      have negated' := prepared.inside.negated
      rw [negated, adaptOption] at negated'
      exact .intro distinct (prepared.inside.keywords ▸ keyed)
        ((Inside.eq_nil prepared.inside.allOf).mpr allOf) (Option.some.inj negated').symm fields
        prepared.additional prepared.items oneOf anyOf

/-- Without properties to hoist nothing more is done. -/
theorem single (prepared : Prepared s s') (built : Built s) (apart : ¬ s.Unites) :
    Adapts s s' := by
  have one : hoistable s.oneOf = false := Bool.eq_false_iff.mpr fun given => apart (.inl given)
  have any : hoistable s.anyOf = false := Bool.eq_false_iff.mpr fun given => apart (.inr given)
  have one' : hoistable s'.oneOf = false := prepared.unites_iff.1.trans one
  have any' : hoistable s'.anyOf = false := prepared.unites_iff.2.trans any
  refine ⟨?_, ?_, prepared.keeping ⟨.inl one', .of_not one', .of_not any'⟩, ?_,
    prepared.accepts⟩
  · refine adapt_eq_some_iff.mpr ⟨s', prepared.inside, s', ?_, ?_⟩
    · rw [hoistOneOf, one', if_neg Bool.false_ne_true]
    · rw [hoistAnyOf, any', if_neg Bool.false_ne_true]
  · have same : s' = { s' with keywords := { s'.keywords with type := s'.keywords.type } } := by
      cases s'
      rfl
    rw [same]
    have distinct : s'.names.Nodup := by
      rw [prepared.inside.names]
      cases built
      assumption
    exact prepared.structural built distinct prepared.fields
      (prepared.bare (fun b => List.mem_append_left _) prepared.inside.oneOf one _)
      (prepared.bare (fun b => List.mem_append_right _) prepared.inside.anyOf any _)
  · intro b member name inside
    rw [Schema.names, Schema.fields, properties_eq_none_of_not_unites apart member] at inside
    cases inside

theorem exists_hoists (prepared : Prepared s s') (built : Built s) (concordant : Concordant s)
    {branches branches' : List (Schema P)} (listed : ∀ b ∈ branches, b ∈ s.branches)
    (done : adaptAll branches = some branches') (first : FirstCovers s.names branches) :
    ∃ fields, hoistedFields s'.fields branches' = some fields ∧
      Hoists s'.names s'.fields branches' fields := by
  have distinct : s'.names.Nodup := by
    rw [prepared.inside.names]
    cases built
    assumption
  have inside (b : Schema P) (member : b ∈ branches) (b' : Schema P) (adapted : adapt b = some b') :
      Inside b b' := (prepared.alternatives b (listed b member) b' adapted).1
  have steady (b : Schema P) (member : b ∈ branches) : Steady b :=
    prepared.steady b (child_of_branch (listed b member))
  refine hoistedFields_spec distinct prepared.fields (fun b' member => ?_) (fun _ => id) ?_ ?_
  · obtain ⟨b, there, adapted⟩ := exists_of_mem done member
    exact (prepared.alternatives b (listed b there) b' adapted).2.2
  · intro name m' found' b' member c' copy'
    rw [role, if_pos (exists_property.mp ⟨m', found'⟩)]
    obtain ⟨m, found, adapted⟩ := prepared.inside.property found'
    obtain ⟨b, there, done'⟩ := exists_of_mem done member
    obtain ⟨c, copy, adapted'⟩ := (inside b there b' done').property copy'
    exact Covers.adapt (concordant.own name m found b (listed b there) c copy)
      (prepared.steady m (.property (mem_of_lookup found))) ((steady b there).property copy)
      adapted adapted'
  · rw [← Schema.names, prepared.inside.names]
    exact first.adapt done inside steady

/-- A union is of objects. -/
theorem object (prepared : Prepared s s') (built : Built s) {branches : List (Schema P)}
    (listed : ∀ b ∈ branches, b ∈ s.branches) {b : Schema P} (member : b ∈ branches) :
    s'.keywords.type = none ∨ s'.keywords.type = some .object := by
  rw [prepared.inside.keywords]
  cases built with
  | intro _ _ _ _ object =>
      exact object fun none => by
        have here := listed b member
        rw [none] at here
        cases here

/-- Closed objects declare nothing more. -/
theorem complete (prepared : Prepared s s') (concordant : Concordant s)
    {branches branches' : List (Schema P)} (listed : ∀ b ∈ branches, b ∈ s.branches)
    (done : adaptAll branches = some branches') {fields : List (String × Schema P)}
    (hoists : Hoists s'.names s'.fields branches' fields) : s'.additional = none ∨
      s'.additional = some none ∧ ∀ name ∈ fields.map Prod.fst, name ∈ s'.names := by
  rcases concordant.additional with free | ⟨closed, inner⟩
  · exact .inl (prepared.inside.additional_eq_none_iff.mpr free)
  · refine .inr ⟨?_, fun name there => ?_⟩
    · obtain ⟨rest, given, adapted⟩ := prepared.inside.rest_of closed
      rw [adaptOption] at adapted
      rw [given, ← adapted]
    · rcases hoists.named name there with own | ⟨b', member, new⟩
      · exact own
      · obtain ⟨b, here, adapted⟩ := exists_of_mem done member
        rw [(prepared.alternatives b (listed b here) b' adapted).1.names] at new
        rw [prepared.inside.names]
        exact inner b (listed b here) name new

/-- Hoisting keeps the object's own properties. -/
theorem keepsOwn (prepared : Prepared s s') (built : Built s) (concordant : Concordant s)
    {branches branches' : List (Schema P)} (listed : ∀ b ∈ branches, b ∈ s.branches)
    (done : adaptAll branches = some branches') {fields : List (String × Schema P)}
    (hoisted : hoistedFields s'.fields branches' = some fields)
    (hoists : Hoists s'.names s'.fields branches' fields) : KeepsOwn s' branches' where
  object given := by
    obtain ⟨b', member, _⟩ := List.any_eq_true.mp given
    obtain ⟨b, here, _⟩ := exists_of_mem done member
    exact prepared.object built listed here
  kept _ fields' hoisted' name m found := by
    cases Option.some.inj (hoisted.symm.trans hoisted')
    exact hoists.kept name (exists_property.mp ⟨m, found⟩) m found
  complete _ closed fields' hoisted' := by
    cases Option.some.inj (hoisted.symm.trans hoisted')
    exact ((prepared.complete concordant listed done hoists).resolve_left closed).2

/-- **An object that hoists from some of its alternatives.** -/
theorem declares (prepared : Prepared s s') (built : Built s) (concordant : Concordant s)
    {branches branches' one any : List (Schema P)} {fields : List (String × Schema P)}
    (listed : ∀ b ∈ branches, b ∈ s.branches)
    (others : ∀ b ∈ s.branches, b ∈ branches ∨ b.properties = none) (unites : s.Unites)
    (pairs : adaptAll branches = some branches')
    (hoists : Hoists s'.names s'.fields branches' fields) (keeping : Keeping s')
    (done : adapt s = some { s'.declaring fields with oneOf := one, anyOf := any })
    (oneOf : Restricting (fields.map Prod.fst) one)
    (anyOf : Restricting (fields.map Prod.fst) any)
    (given : ∀ (V : Type) (J : Instances P V) (v : V), s'.Accepted J v →
      ∃ b ∈ branches', b.accepts J v)
    (answers : ∀ (V : Type) (J : Instances P V) (v : V),
      ((branches'.map (rule (fields.map Prod.fst))).map fun r => r.accepts J v) =
        (branches'.map fun b => b.accepts J v) →
      (one.map fun r => r.accepts J v) = (s'.oneOf.map fun b => b.accepts J v) ∧
        (any.map fun r => r.accepts J v) = s'.anyOf.map fun b => b.accepts J v) :
    Adapts s { s'.declaring fields with oneOf := one, anyOf := any } := by
  have alternatives (b' : Schema P) (member : b' ∈ branches') : ∃ b ∈ branches, Inside b b' ∧
      Closed b' ∧ Structural b' := by
    obtain ⟨b, there, adapted⟩ := exists_of_mem pairs member
    exact ⟨b, there, prepared.alternatives b (listed b there) b' adapted⟩
  have closed (b' : Schema P) (member : b' ∈ branches') : Closed b' :=
    let ⟨_, _, _, closed, _⟩ := alternatives b' member
    closed
  have structural (b' : Schema P) (member : b' ∈ branches') : Structural b' :=
    let ⟨_, _, _, _, structural⟩ := alternatives b' member
    structural
  have declared (b : Schema P) (member : b ∈ s.branches) (name : String) (inside : name ∈ b.names) :
      name ∈ fields.map Prod.fst := by
    rcases others b member with here | none
    · obtain ⟨b', there, adapted⟩ := exists_mem_of_mem pairs here
      refine hoists.mem_names there ?_
      rwa [(prepared.alternatives b member b' adapted).1.names]
    · rw [Schema.names, Schema.fields, none] at inside
      cases inside
  refine ⟨done, ?_, prepared.keeping keeping, declared, fun V J v reads => ?_⟩
  · exact prepared.structural built hoists.distinct hoists.structural oneOf anyOf
  · rw [← prepared.accepts V J v reads]
    by_cases object : J.hasType .object v
    · have named (name : String) (w : V) (there : J.member v name = some w) :
          name ∈ fields.map Prod.fst := by
        cases reads with
        | intro _ _ known =>
            rcases known unites name w there with own | ⟨b, member, inside⟩
            · exact hoists.mem_own (prepared.inside.names.symm ▸ own)
            · exact declared b member name inside
      have distinct : s'.names.Nodup := by
        rw [prepared.inside.names]
        cases built
        assumption
      have type : s'.keywords.type = none ∨ s'.keywords.type = some .object := by
        rw [prepared.inside.keywords]
        cases built with
        | intro _ _ _ _ object => exact object unites.ne_nil
      refine accepts_declaring_iff hoists distinct object type
        (prepared.complete concordant listed pairs hoists) (fun accepted => ?_) fun all => ?_
      · obtain ⟨b', member, holds⟩ := given V J v accepted
        exact hoists.declared closed structural
          ((forall_fields_iff distinct).mp accepted.properties) member holds
      · exact answers V J v (hoists.rules closed structural object named all)
    · refine iff_of_false ?_ fun accepted => ?_
      · have nullable : s'.keywords.nullable = false := by
          rw [prepared.inside.keywords]
          exact concordant.nullable
        refine not_accepts_of_not_object ?_ ?_ object
        · rfl
        · exact nullable
      · obtain ⟨b', member, holds⟩ := given V J v (accepts_iff.mp accepted)
        exact object ((closed b' member).object_of_accepts holds).1

/-- Some alternative of `oneOf` has properties. -/
theorem oneOf (prepared : Prepared s s') (built : Built s) (concordant : Concordant s)
    (given : hoistable s.oneOf = true) : ∃ t, Adapts s t := by
  have apart : hoistable s.anyOf = false :=
    concordant.apart.resolve_left (by rw [given]; exact Bool.noConfusion)
  have given' : hoistable s'.oneOf = true := prepared.unites_iff.1.trans given
  have apart' : hoistable s'.anyOf = false := prepared.unites_iff.2.trans apart
  have listed (b : Schema P) (member : b ∈ s.oneOf) : b ∈ s.branches :=
    List.mem_append_left _ member
  obtain ⟨fields, hoisted, hoists⟩ := prepared.exists_hoists built concordant listed
    prepared.inside.oneOf concordant.first.left
  have keeps := prepared.keepsOwn built concordant listed prepared.inside.oneOf hoisted hoists
  have done : adapt s = some { s'.declaring fields with
      oneOf := s'.oneOf.map (rule (fields.map Prod.fst))
      anyOf := s'.anyOf } := by
    refine adapt_eq_some_iff.mpr ⟨s', prepared.inside,
      { s'.declaring fields with oneOf := s'.oneOf.map (rule (fields.map Prod.fst)) }, ?_, ?_⟩
    · rw [hoistOneOf, if_pos given', hoisted, Option.map_some]
    · exact if_neg (Bool.eq_false_iff.mp apart')
  refine ⟨_, prepared.declares built concordant listed (fun b member => ?_) (.inl given)
    prepared.inside.oneOf hoists ⟨.inr apart', keeps, .of_not apart'⟩ done
    (restricting_rules fun b member name inside => hoists.mem_names member inside)
    (prepared.bare (fun b => List.mem_append_right _) prepared.inside.anyOf apart _)
    (fun V J v accepted => ?_) fun V J v same => ⟨same, rfl⟩⟩
  · exact (List.mem_append.mp member).imp_right (properties_eq_none apart)
  · obtain ⟨_, inside, holds⟩ := (accepted.oneOf (hoistable_ne_nil given')).exists_mem
    obtain ⟨b, member, rfl⟩ := List.mem_map.mp inside
    exact ⟨b, member, holds⟩

/-- Some alternative of `anyOf` has properties. -/
theorem anyOf (prepared : Prepared s s') (built : Built s) (concordant : Concordant s)
    (given : hoistable s.anyOf = true) : ∃ t, Adapts s t := by
  have apart : hoistable s.oneOf = false :=
    concordant.apart.resolve_right (by rw [given]; exact Bool.noConfusion)
  have given' : hoistable s'.anyOf = true := prepared.unites_iff.2.trans given
  have apart' : hoistable s'.oneOf = false := prepared.unites_iff.1.trans apart
  have listed (b : Schema P) (member : b ∈ s.anyOf) : b ∈ s.branches :=
    List.mem_append_right _ member
  obtain ⟨fields, hoisted, hoists⟩ := prepared.exists_hoists built concordant listed
    prepared.inside.anyOf (concordant.first.right apart)
  have keeps := prepared.keepsOwn built concordant listed prepared.inside.anyOf hoisted hoists
  have done : adapt s = some { s'.declaring fields with
      oneOf := s'.oneOf
      anyOf := s'.anyOf.map (rule (fields.map Prod.fst)) } := by
    refine adapt_eq_some_iff.mpr ⟨s', prepared.inside, s', ?_, ?_⟩
    · rw [hoistOneOf, apart', if_neg Bool.false_ne_true]
    · rw [hoistAnyOf, if_pos given', hoisted, Option.map_some]
      rfl
  refine ⟨_, prepared.declares built concordant listed (fun b member => ?_) (.inr given)
    prepared.inside.anyOf hoists ⟨.inl apart', .of_not apart', keeps⟩ done
    (prepared.bare (fun b => List.mem_append_left _) prepared.inside.oneOf apart _)
    (restricting_rules fun b member name inside => hoists.mem_names member inside)
    (fun V J v accepted => accepted.anyOf (hoistable_ne_nil given'))
    fun V J v same => ⟨rfl, same⟩⟩
  exact (List.mem_append.mp member).symm.imp_right (properties_eq_none apart)

end Prepared

/-- **A schema that agrees is adapted into one that accepts the same.** -/
theorem exists_adapts {s : Schema P} (built : Built s) (agreeing : Agreeing s) :
    ∃ t, Adapts s t := by
  induction s using induct with
  | step s ih =>
      cases agreeing with
      | intro present concordant inner =>
          have inner' : ∀ c, s.Child c → Built c := by
            cases built
            assumption
          obtain ⟨s', prepared⟩ := exists_prepared built present fun c child =>
            ih c child (inner' c child) (inner c child)
          by_cases unites : s.Unites
          · rcases unites with given | given
            · exact prepared.oneOf built (concordant (.inl given)) given
            · exact prepared.anyOf built (concordant (.inr given)) given
          · exact ⟨s', prepared.single built unites⟩

end OAuthRelay.Schemas.Schema
