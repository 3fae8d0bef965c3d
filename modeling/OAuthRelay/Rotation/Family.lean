import OAuthRelay.Rotation.Past

/-!
# Families

A family begins with the record that its creation writes, and every later record takes its
id and its expiry from the record before it. So the records of one handle are all of one
family, whenever they are read (`family_unique`), and a family has one expiry
(`expiry_unique`).
-/

set_option autoImplicit false

namespace OAuthRelay.Rotation

open OAuthRelay.Async OAuthRelay.Async.Machine

variable {R : Rotator} {ok : List R.machine.Event → R.machine.State → R.machine.Lbl → Prop}
  {events : List R.machine.Event} {s : R.machine.State}

/-- The id of a record's family and the family's expiry. -/
def Record.family (record : Record) : Name × ℕ := (record.familyId, record.familyExpiresMs)

def Claim.family (held : Claim) : Name × ℕ := (held.familyId, held.familyExpiresMs)

def Revocation.family (revocation : Revocation) : Name × ℕ :=
  (revocation.familyId, revocation.familyExpiresMs)

/-- The family of a sealed record. -/
def Value.family? : Value → Option (Name × ℕ)
  | .sealed _ _ (.record record) _ => some record.family
  | _ => none

theorem Sealed.family {k : Name} {record : Record} {bytes : Value}
    (sealed : Sealed k record bytes) :
    bytes.family? = some record.family := by
  obtain ⟨nonce, rfl⟩ := sealed
  rfl

/-- The family a call works on. -/
def Pc.family? : Pc → Option (Name × ℕ)
  | openRecord bytes => bytes.family?
  | readClock loaded | isRevoked loaded _ | claim loaded _ | sealClaim loaded .. =>
      some loaded.record.family
  | swapClaim _ held _ => some held.family
  | revoke revocation | putMarker revocation .. | getHead revocation | erase revocation ..
  | openErased revocation .. | deleteErased revocation .. => some revocation.family
  | p => p.claim?.map Claim.family

/-! ## The founder of a family -/

/-- The family was founded. -/
def Founded (events : List R.machine.Event) (family : Name × ℕ) : Prop :=
  ∃ e ∈ events, ∃ i creating bytes, Founding e i (.putRecord creating bytes) ∧
    creating.record.family = family

theorem Founded.mono {events events' : List R.machine.Event} (inside : events ⊆ events')
    {family : Name × ℕ} (founded : Founded events family) : Founded events' family := by
  obtain ⟨e, member, founding⟩ := founded
  exact ⟨e, inside member, founding⟩

/-- **A family has one expiry.** -/
theorem Founded.unique (run : R.machine.Runs ok events s) {family family' : Name × ℕ}
    (founded : Founded events family) (founded' : Founded events family')
    (same : family.1 = family'.1) : family = family' := by
  obtain ⟨e, member, i, creating, bytes, ⟨t, by₁, call⟩, rfl⟩ := founded
  obtain ⟨e', member', i', creating', bytes', ⟨t', by₂, call'⟩, rfl⟩ := founded'
  have owner : ∀ {e : R.machine.Event} {i : ℕ} {creating : Family} {bytes : Value} {t : Thread Call},
      e ∈ events → e.By i t → t.call = .founding (.putRecord creating bytes) →
      creating.familyId.call = i := by
    intro e i creating bytes t member by₁ call
    obtain ⟨earlier, run₀, _⟩ := run.of_mem member
    obtain ⟨call₀, steps, since⟩ := t
    cases call
    exact (founding_formed run₀ by₁.1).1.2
  -- the call that drew the id founds once
  have mine := owner member by₁ call
  have mine' := owner member' by₂ call'
  have names : creating.familyId = creating'.familyId := same
  rw [names, mine'] at mine
  subst mine
  have rank : t.call.rank = t'.call.rank := by rw [call, call']; rfl
  have positive : 0 < t.call.rank := by rw [call]; simp [Call.rank, CreatePc.rank]
  have below : t.call.rank < 11 := by rw [call]; simp [Call.rank, CreatePc.rank]
  obtain rfl := eq_of_rank run member member' by₁ by₂ rank positive below
  obtain rfl := by₁.unique by₂
  rw [call] at call'
  cases call'
  rfl

/-- A claim is of the family of the record it was made on. -/
theorem family_of_claims {e : R.machine.Event} (run : R.machine.Runs ok events e.before) {i : ℕ}
    {h : Name} {loaded : Loaded} {held : Claim} (claims : Claims e i h loaded held) :
    held.family = loaded.record.family := by
  obtain ⟨ttl, step, _⟩ := claims
  obtain ⟨_, _, family, expires, _⟩ := step.formed run
  rw [Claim.family, Record.family, family, expires]

/-- **Every stored record is of a family that was founded.** -/
theorem founded_of_store (run : R.machine.Runs ok events s) :
    ∀ {k : Name} {entry : Entry Value} {record : Record}, s.store (.handle k) = some entry →
      Sealed k record entry.value → Founded events record.family := by
  refine run.prefix_induction (P := fun events s => ∀ {k : Name} {entry : Entry Value}
    {record : Record}, s.store (.handle k) = some entry → Sealed k record entry.value →
      Founded events record.family) ?_
  intro events s run prefixes k entry record there sealed
  -- a record that was live when a call found it
  have found : ∀ {e : R.machine.Event}, e ∈ events → ∀ {k : Name} {record : Record} {bytes : Value},
      e.before.store.live e.before.now (.handle k) = some bytes → Sealed k record bytes →
      Founded events record.family := by
    intro e member k record bytes live sealed
    obtain ⟨earlier, _, inside, founded⟩ := prefixes e member
    obtain ⟨entry, there, _, rfl⟩ := Store.live_eq_some_iff.mp live
    exact (founded there sealed).mono inside
  -- a claim was made on a record
  have claimed : ∀ {e : R.machine.Event}, e ∈ events → ∀ {i : ℕ} {h : Name} {p : Pc} {held : Claim},
      At e i h p → p.claim? = some held → Founded events held.family := by
    intro e member i h p held step holds
    obtain ⟨earlier, run₀, _, inside⟩ := run.of_mem member
    obtain ⟨_, _, thread⟩ := step.thread
    obtain ⟨e', older, loaded, claims⟩ := claims_of_claim run₀ thread holds
    obtain ⟨earlier', run₁, _⟩ := run₀.of_mem older
    rw [family_of_claims run₁ claims]
    obtain ⟨ttl, step', change⟩ := claims
    cases step'.alters change with
    | claim live => exact found (inside older) live (step'.formed run₁).1.sealed
  obtain ⟨later, e, earlier, rfl, change, _⟩ := run.writer there
  have member : e ∈ later ++ e :: earlier := by simp
  cases record_change run.split.1 rfl change with
  | founded step handle formed _ =>
      subst handle
      rw [sealed.unique formed.2]
      exact ⟨e, member, _, _, _, step, rfl⟩
  | succeeded step handle formed _ =>
      subst handle
      rw [sealed.unique formed.2]
      exact claimed member step rfl
  | claimed step formed live =>
      obtain ⟨_, sealed'⟩ := formed.2.2.2.2.sealed
      rw [sealed.unique sealed']
      show Founded _ (Claim.family _)
      rw [family_of_claims run.split.1 ⟨_, step, change⟩]
      exact found member live formed.1.sealed
  | released step formed _ =>
      rw [sealed.unique formed.2]
      exact claimed member step rfl
  | rotated step formed _ =>
      rw [sealed.unique formed.2]
      exact claimed member step rfl

/-! ## The family of a handle -/

/-- The handle had a record of the family. -/
def InFamily (events : List R.machine.Event) (h : Name) (family : Name × ℕ) : Prop :=
  ∃ e ∈ events, ∃ entry record, e.before.store (.handle h) = some entry ∧
    Sealed h record entry.value ∧ record.family = family

theorem InFamily.mono {events events' : List R.machine.Event} (inside : events ⊆ events')
    {h : Name} {family : Name × ℕ} (belongs : InFamily events h family) :
    InFamily events' h family := by
  obtain ⟨e, member, record⟩ := belongs
  exact ⟨e, inside member, record⟩

theorem InFamily.founded (run : R.machine.Runs ok events s) {h : Name} {family : Name × ℕ}
    (belongs : InFamily events h family) : Founded events family := by
  obtain ⟨e, member, entry, record, there, sealed, rfl⟩ := belongs
  obtain ⟨earlier, run₀, _, inside⟩ := run.of_mem member
  exact (founded_of_store run₀ there sealed).mono inside

/-- The step writes the first record of the handle, which is of the family. -/
def BirthsInto (e : R.machine.Event) (k : Name) (family : Name × ℕ) : Prop :=
  (∃ i creating bytes, Founding e i (.putRecord creating bytes) ∧ creating.creation.handle = k ∧
      creating.record.family = family) ∨
    ∃ i h attempt successor, At e i h (.putSuccessor attempt successor) ∧
      attempt.successorHandle = k ∧ attempt.claim.family = family

theorem BirthsInto.births {e : R.machine.Event} {k : Name} {family : Name × ℕ}
    (births : BirthsInto e k family) : Births e k := by
  rcases births with ⟨i, creating, bytes, step, handle, _⟩ | ⟨i, h, attempt, successor, step, handle, _⟩
  · exact .inl ⟨i, creating, bytes, step, handle⟩
  · exact .inr ⟨i, h, attempt, successor, step, handle⟩

/-- The family of a record that changes stays. -/
theorem RecordChange.family {e : R.machine.Event} (run : R.machine.Runs ok events e.before)
    {k : Name}
    {entry : Entry Value} {record : Record} (change : RecordChange e k (some entry))
    (made : e.change = some (.handle k, some entry)) (sealed : Sealed k record entry.value) :
    BirthsInto e k record.family ∨ ∃ entry₀ record₀, e.before.store (.handle k) = some entry₀ ∧
      Sealed k record₀ entry₀.value ∧ record₀.family = record.family := by
  have found : ∀ {bytes : Value} {record₀ : Record},
      e.before.store.live e.before.now (.handle k) = some bytes → Sealed k record₀ bytes →
      record₀.family = record.family → ∃ entry₀ record₀, e.before.store (.handle k) = some entry₀ ∧
        Sealed k record₀ entry₀.value ∧ record₀.family = record.family := by
    intro bytes record₀ live sealed₀ same
    obtain ⟨entry₀, there, _, rfl⟩ := Store.live_eq_some_iff.mp live
    exact ⟨entry₀, record₀, there, sealed₀, same⟩
  cases change with
  | founded step handle formed _ =>
      subst handle
      exact .inl (.inl ⟨_, _, _, step, rfl, by rw [sealed.unique formed.2]⟩)
  | succeeded step handle formed _ =>
      subst handle
      exact .inl (.inr ⟨_, _, _, _, step, rfl, by rw [sealed.unique formed.2]; rfl⟩)
  | claimed step formed live =>
      obtain ⟨_, sealed'⟩ := formed.2.2.2.2.sealed
      refine .inr (found live formed.1.sealed ?_)
      rw [sealed.unique sealed']
      exact (family_of_claims run ⟨_, step, made⟩).symm
  | released step formed live =>
      obtain ⟨_, sealed'⟩ := formed.1.sealed
      refine .inr (found live sealed' ?_)
      rw [sealed.unique formed.2]
      rfl
  | rotated step formed live =>
      obtain ⟨_, sealed'⟩ := formed.1.1.sealed
      refine .inr (found live sealed' ?_)
      rw [sealed.unique formed.2]
      rfl

/-- **The records of a handle are of one family.** -/
theorem family_stays {later earlier : List R.machine.Event} {s₀ : R.machine.State} {k : Name}
    (run₀ : R.machine.Runs ok earlier s₀) (run : R.machine.Runs ok (later ++ earlier) s)
    {entry₀ entry : Entry Value} {record₀ record : Record}
    (there₀ : s₀.store (.handle k) = some entry₀) (sealed₀ : Sealed k record₀ entry₀.value)
    (there : s.store (.handle k) = some entry) (sealed : Sealed k record entry.value) :
    record.family = record₀.family := by
  induction later generalizing s entry record with
  | nil =>
      obtain rfl := run₀.unique run
      rw [there₀] at there
      cases there
      rw [sealed.unique sealed₀]
  | cons e later ih =>
      cases run with
      | @cons _ s _ label run _ taken =>
          rw [step_store taken] at there
          by_cases touched : ∃ x, Event.change (⟨s, label⟩ : R.machine.Event) = some (.handle k, x)
          · obtain ⟨x, change⟩ := touched
            rw [change, Store.applyChange_same] at there
            subst there
            rcases (record_change run rfl change).family run change sealed with births |
              ⟨entry₁, record₁, there₁, sealed₁, same⟩
            · obtain ⟨e₀, older, births₀⟩ := born_of_store run₀ there₀
              exact absurd births.births
                (not_born_again run rfl (List.mem_append_right _ older) births₀)
            · rw [← same]
              exact ih run there₁ sealed₁
          · rw [Store.applyChange_of_forall_ne _ fun x change => touched ⟨x, change⟩] at there
            exact ih run there sealed

theorem InFamily.unique (run : R.machine.Runs ok events s) {h : Name} {family family' : Name × ℕ}
    (belongs : InFamily events h family) (belongs' : InFamily events h family') :
    family = family' := by
  obtain ⟨e, member, entry, record, there, sealed, rfl⟩ := belongs
  obtain ⟨e', member', entry', record', there', sealed', rfl⟩ := belongs'
  have ordered : ∀ {later earlier : List R.machine.Event} {e e' : R.machine.Event}
      {entry entry' : Entry Value} {record record' : Record}, events = later ++ e' :: earlier →
      e ∈ earlier → e.before.store (.handle h) = some entry → Sealed h record entry.value →
      e'.before.store (.handle h) = some entry' → Sealed h record' entry'.value →
      record'.family = record.family := by
    intro later earlier e e' entry entry' record record' parts older there sealed there' sealed'
    subst parts
    obtain ⟨between, before, rfl⟩ := List.mem_iff_append.mp older
    have path : R.machine.Runs ok ((between ++ [e]) ++ before) e'.before := by
      simpa using run.split.1
    exact family_stays run.split.1.split.1 path there sealed there' sealed'
  rcases mem_before member member' with rfl | ⟨later, earlier, parts, older⟩ |
    ⟨later, earlier, parts, older⟩
  · rw [there] at there'
    cases there'
    rw [sealed.unique sealed']
  · exact ordered parts older there' sealed' there sealed
  · exact (ordered parts older there sealed there' sealed').symm

/-- **A call works on the family of the record it has loaded.** -/
theorem loads_of_family (run : R.machine.Runs ok events s) {i steps since : ℕ} {h : Name} {p : Pc}
    (there : s.threads[i]? = some ⟨.rotating h p, steps, since⟩) {family : Name × ℕ}
    (holds : p.family? = some family) : ∃ e ∈ events, ∃ bytes record, Loads e i h bytes ∧
      Sealed h record bytes ∧ record.family = family := by
  refine past (Q := fun p => p.family? = some family)
    (E := fun e i h => ∃ bytes record, Loads e i h bytes ∧ Sealed h record bytes ∧
      record.family = family) (by simp [Pc.family?, Pc.claim?]) ?_ run there holds
  intro es e i steps h p q delivery choice run at₁ _ edge holds
  cases edge with
  | loaded live =>
      obtain ⟨entry, stored, _, rfl⟩ := Store.live_eq_some_iff.mp live
      obtain ⟨record, sealed⟩ := sealed_of_store run stored
      have same : record.family = family :=
        Option.some.inj (sealed.family.symm.trans holds)
      exact .inr ⟨_, record, ⟨at₁, live⟩, sealed, same⟩
  | sealClaim => exact .inl holds
  | unprepared preparing =>
      refine .inl ?_
      cases p <;> simp_all [Pc.preparing?, Pc.family?, Pc.claim?]
  | @discard _ _ _ after =>
      cases after with
      | failed => exact .inl holds
      | lost => exact .inl holds
      | revoked => cases holds
  | erase erasing =>
      refine .inl ?_
      cases p <;> simp_all [Pc.erasing?, Pc.family?]
  | claimed => exact .inl holds
  | _ => first | exact .inl holds | cases holds

theorem inFamily_of_pc (run : R.machine.Runs ok events s) {i steps since : ℕ} {h : Name} {p : Pc}
    (there : s.threads[i]? = some ⟨.rotating h p, steps, since⟩) {family : Name × ℕ}
    (holds : p.family? = some family) : InFamily events h family := by
  obtain ⟨e, member, bytes, record, loads, sealed, same⟩ := loads_of_family run there holds
  obtain ⟨entry, stored, _, rfl⟩ := Store.live_eq_some_iff.mp loads.2
  exact ⟨e, member, entry, record, stored, sealed, same⟩

/-- Handles of families with one id are of one family. -/
theorem InFamily.expiry_eq (run : R.machine.Runs ok events s) {h h' : Name}
    {family family' : Name × ℕ} (belongs : InFamily events h family)
    (belongs' : InFamily events h' family') (same : family.1 = family'.1) : family = family' :=
  (belongs.founded run).unique run (belongs'.founded run) same

end OAuthRelay.Rotation
