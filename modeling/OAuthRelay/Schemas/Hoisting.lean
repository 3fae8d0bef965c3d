import OAuthRelay.Schemas.Rules

/-!
# Hoisting the properties of alternatives

The properties that are hoisted are those of the object, and for every other name what the
copies of the alternatives are merged into, from the first one on. If the object's own properties
are for all copies what own properties have to be, and the first copy what a first copy has to
be, nothing fails: own properties stay as they are, and every other copy is covered wholly by
what is declared (`hoistedFields_spec`).

What becomes of a name depends on nothing but the alternatives and what is declared under that
name before (`hoistedFields_congr`).
-/

set_option autoImplicit false

namespace OAuthRelay.Schemas.Schema

variable {P : Type}

/-! ## Hoisted fields -/

/-- Of a property that is not declared yet, the first copy covers the later ones. -/
def FirstCovers (names : List String) (branches : List (Schema P)) : Prop :=
  ∀ front b back, branches = front ++ b :: back → ∀ name a, name ∉ names →
    (∀ b' ∈ front, name ∉ b'.names) → b.property name = some a →
      ∀ b' ∈ back, ∀ c, b'.property name = some c → Covers .first a c

/-- What a declaration has to be, by whether the name is one of the object's own. -/
def role (own : List String) (name : String) (otherwise : Role) : Role :=
  if name ∈ own then .own else otherwise

/-- What is declared once the alternatives are hoisted. -/
structure Hoists (own : List String) (target : List (String × Schema P))
    (branches : List (Schema P)) (result : List (String × Schema P)) : Prop where
  distinct : (result.map Prod.fst).Nodup
  kept : ∀ name ∈ own, ∀ m, target.lookup name = some m → result.lookup name = some m
  covered : ∀ name m, target.lookup name = some m →
    ∃ m', result.lookup name = some m' ∧ Covers .whole m' m
  copies : ∀ b ∈ branches, ∀ name c, b.property name = some c →
    ∃ m, result.lookup name = some m ∧ Covers (role own name .whole) m c
  named : ∀ name ∈ result.map Prod.fst,
    name ∈ target.map Prod.fst ∨ ∃ b ∈ branches, name ∈ b.names
  structural : ∀ name m, result.lookup name = some m → Structural m

section Hoisting

variable [DecidableEq P]

/-- What a copy does to the declaration of its name. -/
structure Fate (own : List String) (name : String) (m c m' : Schema P) : Prop where
  merge : mergeProperty m c = some m'
  structural : Structural m'
  first : Covers .whole m' m
  second : Covers (role own name .whole) m' c
  kept : name ∈ own → m' = m

theorem exists_fate {own : List String} {name : String} {m c : Schema P}
    (covers : Covers (role own name .first) m c) (structural : Structural m)
    (structural' : Structural c) : ∃ m', Fate own name m c m' := by
  by_cases inside : name ∈ own
  · rw [role, if_pos inside] at covers
    refine ⟨m, mergeProperty_own covers rfl structural structural', structural, .refl m, ?_,
      fun _ => rfl⟩
    rwa [role, if_pos inside]
  · rw [role, if_neg inside] at covers
    obtain ⟨m', absorbed⟩ := mergeProperty_first covers rfl structural structural'
    refine ⟨m', absorbed.merge, absorbed.structural, absorbed.first, ?_,
      fun there => absurd there inside⟩
    rw [role, if_neg inside]
    exact absorbed.second

/-- One alternative: each of its copies is covered by what becomes of its name. -/
theorem hoistedFields_step {own : List String} {target : List (String × Schema P)} {b : Schema P}
    (distinct : (target.map Prod.fst).Nodup)
    (structural : ∀ name m, target.lookup name = some m → Structural m)
    (branch : Structural b) (owned : ∀ name ∈ own, name ∈ target.map Prod.fst)
    (ready : ∀ name m, target.lookup name = some m → ∀ c, b.property name = some c →
      Covers (role own name .first) m c) :
    ∃ result, mergeFields target b.fields = some result ∧ Hoists own target [b] result ∧
      ∀ name m, target.lookup name = none → result.lookup name = some m →
        b.property name = some m := by
  cases branch with
  | intro distinct' _ _ _ inner _ _ _ _ =>
      have fates (name : String) (m c : Schema P) (found : target.lookup name = some m)
          (found' : b.fields.lookup name = some c) : ∃ m', Fate own name m c m' :=
        exists_fate (ready name m found c found') (structural name m found)
          (inner name c found')
      obtain ⟨result, done, merged⟩ := mergeFields_spec target b.fields distinct'
        fun name m c found found' =>
          let ⟨m', fate⟩ := fates name m c found found'
          ⟨m', fate.merge⟩
      have fate (name : String) (m : Schema P) (found : target.lookup name = some m) :
          ∃ m', result.lookup name = some m' ∧ Covers .whole m' m ∧ Structural m' ∧
            (name ∈ own → m' = m) ∧
              ∀ c, b.property name = some c → Covers (role own name .whole) m' c := by
        cases found' : b.fields.lookup name with
        | none =>
            refine ⟨m, (merged.kept name found').trans found, .refl m, structural name m found,
              fun _ => rfl, fun c there => ?_⟩
            rw [property, found'] at there
            cases there
        | some c =>
            obtain ⟨m', fate⟩ := fates name m c found found'
            refine ⟨m', (merged.merged name m c found found').trans fate.merge,
              fate.first, fate.structural, fate.kept, fun c' there => ?_⟩
            rw [property, found'] at there
            cases there
            exact fate.second
      have added (name : String) (m : Schema P) (missing : target.lookup name = none)
          (there : result.lookup name = some m) : b.property name = some m := by
        cases found' : b.fields.lookup name with
        | none =>
            rw [merged.kept name found', missing] at there
            cases there
        | some c =>
            rw [merged.added name c missing found'] at there
            cases there
            exact found'
      refine ⟨result, done, ⟨?_, ?_, ?_, ?_, ?_, ?_⟩, added⟩
      · rw [merged.names]
        refine List.nodup_append.mpr ⟨distinct, distinct'.filter _, ?_⟩
        rintro name inside _ inside' rfl
        exact absurd inside (of_decide_eq_true (List.mem_filter.mp inside').2)
      · intro name inside m found
        obtain ⟨m', there, _, _, same, _⟩ := fate name m found
        rw [there, same inside]
      · intro name m found
        obtain ⟨m', there, covers, _⟩ := fate name m found
        exact ⟨m', there, covers⟩
      · intro b' member name c found
        obtain rfl := List.mem_singleton.mp member
        cases there : target.lookup name with
        | none =>
            have foreign : name ∉ own := fun inside => by
              have known := lookup_isSome_iff.mpr (owned name inside)
              rw [there] at known
              cases known
            rw [role, if_neg foreign]
            exact ⟨c, merged.added name c there found, .refl c⟩
        | some m =>
            obtain ⟨m', there, _, _, _, covers⟩ := fate name m there
            exact ⟨m', there, covers c found⟩
      · intro name inside
        rw [merged.names] at inside
        rcases List.mem_append.mp inside with old | new
        · exact .inl old
        · exact .inr ⟨b, List.mem_singleton_self b, (List.mem_filter.mp new).1⟩
      · intro name m there
        cases found : target.lookup name with
        | none => exact inner name m (added name m found there)
        | some old =>
            obtain ⟨m', there', _, structural, _⟩ := fate name old found
            cases Option.some.inj (there.symm.trans there')
            exact structural

/-- **Hoisting does not fail, keeps own properties, and declares a cover of every copy.** -/
theorem hoistedFields_spec {own : List String} {target : List (String × Schema P)}
    {branches : List (Schema P)} (distinct : (target.map Prod.fst).Nodup)
    (structural : ∀ name m, target.lookup name = some m → Structural m)
    (inside : ∀ b ∈ branches, Structural b) (owned : ∀ name ∈ own, name ∈ target.map Prod.fst)
    (ready : ∀ name m, target.lookup name = some m → ∀ b ∈ branches, ∀ c,
      b.property name = some c → Covers (role own name .first) m c)
    (first : FirstCovers (target.map Prod.fst) branches) :
    ∃ result, hoistedFields target branches = some result ∧
      Hoists own target branches result := by
  induction branches generalizing target with
  | nil =>
      refine ⟨target, rfl, distinct, fun _ _ _ found => found,
        fun name m found => ⟨m, found, .refl m⟩, ?_, fun _ => .inl, structural⟩
      intro b member
      cases member
  | cons b rest ih =>
      obtain ⟨middle, step, hoists, added⟩ := hoistedFields_step distinct structural
        (inside b (List.mem_cons_self ..)) owned
        fun name m found c => ready name m found b (List.mem_cons_self ..) c
      have grows (name : String) (there : name ∈ target.map Prod.fst) :
          name ∈ middle.map Prod.fst := by
        obtain ⟨m, found⟩ := Option.isSome_iff_exists.mp (lookup_isSome_iff.mpr there)
        obtain ⟨m', found', _⟩ := hoists.covered name m found
        exact lookup_isSome_iff.mp (by rw [found']; rfl)
      have ready' : ∀ name m, middle.lookup name = some m → ∀ b' ∈ rest, ∀ c,
          b'.property name = some c → Covers (role own name .first) m c := by
        intro name m found b' member c found'
        cases old : target.lookup name with
        | some m₀ =>
            have covers := ready name m₀ old b' (List.mem_cons_of_mem _ member) c found'
            by_cases mine : name ∈ own
            · cases Option.some.inj (found.symm.trans (hoists.kept name mine m₀ old))
              exact covers
            · obtain ⟨m₁, there, covers'⟩ := hoists.covered name m₀ old
              cases Option.some.inj (found.symm.trans there)
              rw [role, if_neg mine] at covers ⊢
              exact covers'.trans covers (by decide)
        | none =>
            have missing : name ∉ target.map Prod.fst := fun there => by
              have given := lookup_isSome_iff.mpr there
              rw [old] at given
              cases given
            rw [role, if_neg fun mine => missing (owned name mine)]
            exact first [] b rest rfl name m missing (fun _ never => by cases never)
              (added name m old found) b' member c found'
      have first' : FirstCovers (middle.map Prod.fst) rest := by
        rintro front b' back rfl name a missing before found
        refine first (b :: front) b' back rfl name a (fun there => missing (grows name there)) ?_
          found
        intro b'' member there
        rcases List.mem_cons.mp member with rfl | member
        · obtain ⟨c, copy⟩ := exists_property.mpr there
          obtain ⟨m, declared, _⟩ := hoists.copies _ (List.mem_singleton_self _) name c copy
          exact missing (lookup_isSome_iff.mp (by rw [declared]; rfl))
        · exact before b'' member there
      obtain ⟨result, done, later⟩ := ih hoists.distinct hoists.structural
        (fun b' member => inside b' (List.mem_cons_of_mem _ member))
        (fun name there => grows name (owned name there)) ready' first'
      refine ⟨result, ?_, later.distinct, ?_, ?_, ?_, ?_, later.structural⟩
      · rw [hoistedFields, List.foldlM_cons, step]
        exact done
      · exact fun name there m found => later.kept name there m (hoists.kept name there m found)
      · intro name m found
        obtain ⟨m₁, there, covers⟩ := hoists.covered name m found
        obtain ⟨m₂, there', covers'⟩ := later.covered name m₁ there
        exact ⟨m₂, there', covers'.trans covers (by decide)⟩
      · intro b' member name c found
        rcases List.mem_cons.mp member with rfl | member
        · obtain ⟨m₁, there, covers⟩ := hoists.copies _ (List.mem_singleton_self _) name c found
          by_cases mine : name ∈ own
          · exact ⟨m₁, later.kept name mine m₁ there, covers⟩
          · obtain ⟨m₂, there', covers'⟩ := later.covered name m₁ there
            rw [role, if_neg mine] at covers ⊢
            exact ⟨m₂, there', covers'.trans covers (by decide)⟩
        · exact later.copies b' member name c found
      · intro name there
        rcases later.named name there with old | ⟨b', member, new⟩
        · rcases hoists.named name old with older | ⟨b', member, new⟩
          · exact .inl older
          · rw [List.mem_singleton] at member
            exact .inr ⟨b', member ▸ List.mem_cons_self .., new⟩
        · exact .inr ⟨b', List.mem_cons_of_mem _ member, new⟩

/-! ## Names apart -/

/-- What becomes of a name depends on what is declared under it. -/
theorem mergeFields_congr {own : List String} {target target' fields result result' :
    List (String × Schema P)} (names : target.map Prod.fst = target'.map Prod.fst)
    (same : ∀ name, name ∉ own → target.lookup name = target'.lookup name)
    (done : mergeFields target fields = some result)
    (done' : mergeFields target' fields = some result') :
    result.map Prod.fst = result'.map Prod.fst ∧
      ∀ name, name ∉ own → result.lookup name = result'.lookup name := by
  induction fields generalizing target target' with
  | nil =>
      rw [mergeFields] at done done'
      cases done
      cases done'
      exact ⟨names, same⟩
  | cons p rest ih =>
      obtain ⟨name, field⟩ := p
      have there : (target.lookup name).isSome = (target'.lookup name).isSome := by
        rw [Bool.eq_iff_iff, lookup_isSome_iff, lookup_isSome_iff, names]
      rw [mergeFields] at done done'
      cases found : target.lookup name with
      | none =>
          have found' : target'.lookup name = none := by
            rw [found] at there
            exact Option.isSome_eq_false_iff.mp there.symm |> Option.isNone_iff_eq_none.mp
          rw [found] at done
          rw [found'] at done'
          refine ih (by rw [List.map_append, names, List.map_append]) (fun other apart => ?_)
            done done'
          rw [List.lookup_append, List.lookup_append, same other apart]
      | some existing =>
          obtain ⟨existing', found'⟩ : ∃ existing', target'.lookup name = some existing' :=
            Option.isSome_iff_exists.mp (by rw [← there, found]; rfl)
          rw [found] at done
          rw [found'] at done'
          obtain ⟨merged, merge, done⟩ := Option.bind_eq_some_iff.mp done
          obtain ⟨merged', merge', done'⟩ := Option.bind_eq_some_iff.mp done'
          refine ih (by rw [names_setField, names_setField, names]) (fun other apart => ?_)
            done done'
          rw [lookup_setField, lookup_setField, found, found']
          split
          · rename_i here
            have alike := same other apart
            rw [here, found, found', Option.some.injEq] at alike
            rw [alike, merge'] at merge
            cases merge
            rfl
          · exact same other apart

theorem hoistedFields_congr {own : List String} {target target' result result' :
    List (String × Schema P)} {branches : List (Schema P)}
    (names : target.map Prod.fst = target'.map Prod.fst)
    (same : ∀ name, name ∉ own → target.lookup name = target'.lookup name)
    (done : hoistedFields target branches = some result)
    (done' : hoistedFields target' branches = some result') :
    result.map Prod.fst = result'.map Prod.fst ∧
      ∀ name, name ∉ own → result.lookup name = result'.lookup name := by
  induction branches generalizing target target' with
  | nil =>
      cases done
      cases done'
      exact ⟨names, same⟩
  | cons b rest ih =>
      rw [hoistedFields, List.foldlM_cons] at done done'
      obtain ⟨middle, step, done⟩ := Option.bind_eq_some_iff.mp done
      obtain ⟨middle', step', done'⟩ := Option.bind_eq_some_iff.mp done'
      obtain ⟨names, same⟩ := mergeFields_congr names same step step'
      exact ih names same done done'

end Hoisting

end OAuthRelay.Schemas.Schema
