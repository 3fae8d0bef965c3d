import OAuthRelay.Config.Resources

/-!
# Merging snapshots

The snapshots of several providers are merged in the order in which the providers are
configured. A resource is added unless one of its kind is there under its key, so the first
provider that defines a key has it (`lookup_upstreams_mergeOrdered`,
`lookup_relays_mergeOrdered`).

A relay of a valid snapshot refers to an upstream of that snapshot. In a merge the upstream
under this key may come from an earlier provider, but there is one, so a merge of valid
snapshots is valid (`validate_mergeOrdered`).
-/

set_option autoImplicit false

namespace OAuthRelay.Config

open OAuthRelay.Codes (ResourceKey)

variable {R : Rules} {α : Type}

/-- Adds a resource unless there is one under its key. -/
def keepEarlier (merged : ResourceMap α) (entry : (_ : ResourceKey) × α) : ResourceMap α :=
  if entry.1 ∈ merged then merged else merged.insert entry.1 entry.2

/-- Adds all resources of a map that are missing. -/
def addMissing (merged added : ResourceMap α) : ResourceMap α :=
  added.entries.foldl keepEarlier merged

/-- Adds the resources of one more provider. -/
def ProviderSnapshot.addProvider (merged snapshot : ProviderSnapshot R) : ProviderSnapshot R where
  upstreams := addMissing merged.upstreams snapshot.upstreams
  relays := addMissing merged.relays snapshot.relays

def mergeOrdered (snapshots : List (ProviderSnapshot R)) : ProviderSnapshot R :=
  snapshots.foldl ProviderSnapshot.addProvider .empty

/-! ## What a merge has -/

theorem lookup_keepEarlier (merged : ResourceMap α) (key key' : ResourceKey) (value : α) :
    (keepEarlier merged ⟨key', value⟩).lookup key =
      (merged.lookup key).or (if key = key' then some value else none) := by
  unfold keepEarlier
  by_cases same : key = key'
  · subst same
    split
    · rename_i there
      obtain ⟨found, held⟩ := Option.isSome_iff_exists.mp (AList.lookup_isSome.mpr there)
      change merged.lookup key = some found at held
      rw [held, Option.some_or]
    · rename_i absent
      rw [AList.lookup_insert, AList.lookup_eq_none.mpr absent, Option.none_or, if_pos rfl]
  · rw [if_neg same, Option.or_none]
    split
    · rfl
    · rw [AList.lookup_insert_ne same]

theorem lookup_foldl_keepEarlier (entries : List ((_ : ResourceKey) × α))
    (merged : ResourceMap α) (key : ResourceKey) :
    (entries.foldl keepEarlier merged).lookup key =
      (merged.lookup key).or (entries.dlookup key) := by
  induction entries generalizing merged with
  | nil => rw [List.foldl_nil, List.dlookup_nil, Option.or_none]
  | cons entry entries ih =>
      obtain ⟨key', value⟩ := entry
      rw [List.foldl_cons, ih, lookup_keepEarlier, Option.or_assoc]
      by_cases same : key = key'
      · subst same
        rw [if_pos rfl, List.dlookup_cons_eq, Option.some_or]
      · rw [if_neg same, List.dlookup_cons_ne _ _ same, Option.none_or]

/-- The first map that defines a key has it. -/
theorem lookup_foldl_addMissing (maps : ProviderSnapshot R → ResourceMap α)
    (snapshots : List (ProviderSnapshot R)) (merged : ResourceMap α) (key : ResourceKey) :
    (snapshots.foldl (fun merged snapshot => addMissing merged (maps snapshot)) merged).lookup key =
      (merged.lookup key).or (snapshots.findSome? fun snapshot => (maps snapshot).lookup key) := by
  induction snapshots generalizing merged with
  | nil => rw [List.foldl_nil, List.findSome?_nil, Option.or_none]
  | cons snapshot snapshots ih =>
      have added : (addMissing merged (maps snapshot)).lookup key =
          (merged.lookup key).or ((maps snapshot).lookup key) :=
        lookup_foldl_keepEarlier (maps snapshot).entries merged key
      rw [List.foldl_cons, ih, added, List.findSome?_cons, Option.or_assoc]
      cases (maps snapshot).lookup key with
      | none => rw [Option.none_or]
      | some value => rw [Option.some_or]

/-- **The first provider that defines an upstream has it.** -/
theorem lookup_upstreams_mergeOrdered (snapshots : List (ProviderSnapshot R))
    (key : ResourceKey) :
    (mergeOrdered snapshots).upstreams.lookup key =
      snapshots.findSome? fun snapshot => snapshot.upstreams.lookup key := by
  have upstreams : (mergeOrdered snapshots).upstreams =
      snapshots.foldl (fun merged snapshot => addMissing merged snapshot.upstreams) ∅ :=
    (List.foldl_hom ProviderSnapshot.upstreams fun _ _ => rfl).symm
  rw [upstreams, lookup_foldl_addMissing ProviderSnapshot.upstreams, AList.lookup_empty,
    Option.none_or]

/-- **The first provider that defines a relay has it.** -/
theorem lookup_relays_mergeOrdered (snapshots : List (ProviderSnapshot R))
    (key : ResourceKey) :
    (mergeOrdered snapshots).relays.lookup key =
      snapshots.findSome? fun snapshot => snapshot.relays.lookup key := by
  have relays : (mergeOrdered snapshots).relays =
      snapshots.foldl (fun merged snapshot => addMissing merged snapshot.relays) ∅ :=
    (List.foldl_hom ProviderSnapshot.relays fun _ _ => rfl).symm
  rw [relays, lookup_foldl_addMissing ProviderSnapshot.relays, AList.lookup_empty,
    Option.none_or]

/-- **A merge of valid snapshots is valid.** -/
theorem validate_mergeOrdered {snapshots : List (ProviderSnapshot R)}
    (valid : ∀ snapshot ∈ snapshots, snapshot.validate = .ok ()) :
    (mergeOrdered snapshots).validate = .ok () := by
  rw [ProviderSnapshot.validate_eq_ok]
  constructor
  · intro key upstream found
    rw [lookup_upstreams_mergeOrdered] at found
    obtain ⟨snapshot, member, defines⟩ := List.exists_of_findSome?_eq_some found
    exact (ProviderSnapshot.validate_eq_ok.mp (valid snapshot member)).1 key upstream defines
  · intro key relay found
    rw [lookup_relays_mergeOrdered] at found
    obtain ⟨snapshot, member, defines⟩ := List.exists_of_findSome?_eq_some found
    obtain ⟨passes, upstream, refers⟩ :=
      (ProviderSnapshot.validate_eq_ok.mp (valid snapshot member)).2 key relay defines
    refine ⟨passes, Option.isSome_iff_exists.mp ?_⟩
    rw [lookup_upstreams_mergeOrdered, List.findSome?_isSome_iff]
    exact ⟨snapshot, member, by rw [refers]; rfl⟩

end OAuthRelay.Config
