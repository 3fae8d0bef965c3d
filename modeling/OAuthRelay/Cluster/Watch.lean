import Mathlib.Data.List.AList
import Mathlib.Data.List.Sort

/-!
# Watched objects

A watcher lists the objects of one kind and then follows them. It may begin a new list at any
time. A store takes its events: while a list is in progress it collects the listed objects
apart, and shows them when the list is complete.

What a store should show is said by the events alone (`current`). They are the objects of the
last list that was completed, with what was applied and deleted since. A store that takes the
events of a watcher shows just these, and is ready when no list is in progress
(`follows_apply`).
-/

set_option autoImplicit false

namespace OAuthRelay.Cluster

/-! ## Objects -/

/-- An object with its metadata. -/
structure Object (Spec : Type) where
  name : Option String
  generateName : Option String
  namespaceName : Option String
  uid : Option String
  spec : Spec

/-- `name_any`. -/
def Object.nameAny {Spec : Type} (object : Object Spec) : String :=
  (object.name.or object.generateName).getD ""

/-- Objects by name. -/
abbrev Objects (Spec : Type) := AList fun _ : String => Object Spec

/-- The objects, in the order of their names. -/
def Objects.values {Spec : Type} (objects : Objects Spec) : List (Object Spec) :=
  (objects.entries.insertionSort fun a b => a.1 ≤ b.1).map Sigma.snd

inductive WatchEvent (Spec : Type) where
  | init
  | initApply (object : Object Spec)
  | initDone
  | apply (object : Object Spec)
  | delete (object : Object Spec)

/-- The event changes what a store shows. -/
def WatchEvent.changes {Spec : Type} : WatchEvent Spec → Bool
  | init | initApply _ => false
  | initDone | apply _ | delete _ => true

/-! ## Stores -/

/-- A list in progress is kept apart until it is complete. -/
structure Store (Spec : Type) where
  objects : Objects Spec
  staging : Option (Objects Spec)
  initialized : Bool

variable {Spec : Type}

namespace Store

/-- `Store::default()`. -/
def empty : Store Spec := ⟨∅, none, false⟩

def ready (store : Store Spec) : Bool := store.initialized && store.staging.isNone

/-- Takes an event, and says whether it has changed what the store shows. -/
def apply (store : Store Spec) : WatchEvent Spec → Store Spec × Bool
  | .init => ({ store with staging := some ∅ }, false)
  | .initApply object =>
      ({ store with staging := some ((store.staging.getD ∅).insert object.nameAny object) }, false)
  | .initDone => (⟨store.staging.getD ∅, none, true⟩, true)
  | .apply object => ({ store with objects := store.objects.insert object.nameAny object }, true)
  | .delete object => ({ store with objects := store.objects.erase object.nameAny }, true)

end Store

/-- `watch_event`: a failed watch changes nothing, and one that has ended is an error. -/
def watchEvent (store : Store Spec) :
    Option (Except Unit (WatchEvent Spec)) → Except Unit (Store Spec × Bool)
  | some (.ok event) => .ok (store.apply event)
  | some (.error _) => .ok (store, false)
  | none => .error ()

theorem Store.apply_snd (store : Store Spec) (event : WatchEvent Spec) :
    (store.apply event).2 = event.changes := by
  cases event <;> rfl

/-! ## What the events say -/

/-- The events are of a list in progress. The last one comes first. -/
def Listing : List (WatchEvent Spec) → Prop
  | .init :: _ | .initApply _ :: _ => True
  | _ => False

/-- A list is complete, and none is in progress. -/
def Complete : List (WatchEvent Spec) → Prop
  | .initDone :: _ | .apply _ :: _ | .delete _ :: _ => True
  | _ => False

/-- What a watcher may deliver after other events. -/
def Permitted (events : List (WatchEvent Spec)) : WatchEvent Spec → Prop
  | .init => True
  | .initApply _ | .initDone => Listing events
  | .apply _ | .delete _ => Complete events

/-- The objects of the list in progress. -/
def collected : List (WatchEvent Spec) → String → Option (Object Spec)
  | .initApply object :: events => Function.update (collected events) object.nameAny (some object)
  | _ => fun _ => none

/-- The objects of the last complete list, with what was applied and deleted since. -/
def current : List (WatchEvent Spec) → String → Option (Object Spec)
  | [] => fun _ => none
  | .init :: events | .initApply _ :: events => current events
  | .initDone :: events => collected events
  | .apply object :: events => Function.update (current events) object.nameAny (some object)
  | .delete object :: events => Function.update (current events) object.nameAny none

/-! ## A store follows its watcher -/

/-- The map has these objects. -/
def Objects.Shows (objects : Objects Spec) (found : String → Option (Object Spec)) : Prop :=
  ∀ name, objects.lookup name = found name

/-- What a store is after the events. -/
structure Store.Follows (store : Store Spec) (events : List (WatchEvent Spec)) : Prop where
  shows : store.objects.Shows (current events)
  listing : Listing events → ∃ staged, store.staging = some staged ∧ staged.Shows (collected events)
  ready : store.ready = true → Complete events
  complete : Complete events → store.initialized = true ∧ store.staging = none

namespace Objects

variable {objects : Objects Spec} {found : String → Option (Object Spec)}

theorem shows_empty : Shows (∅ : Objects Spec) fun _ => none := AList.lookup_empty

theorem Shows.insert (shows : objects.Shows found) (object : Object Spec) :
    Shows (AList.insert object.nameAny object objects)
      (Function.update found object.nameAny (some object)) := by
  intro name
  by_cases same : name = object.nameAny
  · rw [same, AList.lookup_insert, Function.update_self]
  · rw [AList.lookup_insert_ne same, Function.update_of_ne same]
    exact shows name

theorem Shows.erase (shows : objects.Shows found) (name : String) :
    Shows (AList.erase name objects) (Function.update found name none) := by
  intro other
  by_cases same : other = name
  · rw [same, AList.lookup_erase, Function.update_self]
  · rw [AList.lookup_erase_ne same, Function.update_of_ne same]
    exact shows other

end Objects

theorem follows_empty : (Store.empty : Store Spec).Follows [] where
  shows := Objects.shows_empty
  listing := False.elim
  ready := nofun
  complete := False.elim

/-- **A store that takes what its watcher may deliver shows what the events say.** -/
theorem follows_apply {store : Store Spec} {events : List (WatchEvent Spec)}
    (follows : store.Follows events) {event : WatchEvent Spec}
    (permitted : Permitted events event) :
    (store.apply event).1.Follows (event :: events) := by
  cases event with
  | init =>
      refine ⟨follows.shows, fun _ => ⟨∅, rfl, Objects.shows_empty⟩, ?_, False.elim⟩
      simp [Store.ready, Store.apply]
  | initApply object =>
      obtain ⟨staged, staging, shows⟩ := follows.listing permitted
      refine ⟨follows.shows, fun _ => ⟨staged.insert object.nameAny object, ?_,
        shows.insert object⟩, ?_, False.elim⟩
      · simp [Store.apply, staging]
      · simp [Store.ready, Store.apply]
  | initDone =>
      obtain ⟨staged, staging, shows⟩ := follows.listing permitted
      refine ⟨?_, False.elim, fun _ => trivial, fun _ => ⟨rfl, rfl⟩⟩
      simp only [Store.apply, staging, Option.getD_some]
      exact shows
  | apply object =>
      exact ⟨follows.shows.insert object, False.elim, fun _ => trivial,
        fun _ => follows.complete permitted⟩
  | delete object =>
      exact ⟨follows.shows.erase object.nameAny, False.elim, fun _ => trivial,
        fun _ => follows.complete permitted⟩

/-- A store is ready when a list is complete and none is in progress. -/
theorem Store.Follows.ready_iff {store : Store Spec} {events : List (WatchEvent Spec)}
    (follows : store.Follows events) : store.ready = true ↔ Complete events := by
  refine ⟨follows.ready, fun complete => ?_⟩
  obtain ⟨initialized, staging⟩ := follows.complete complete
  simp [Store.ready, initialized, staging]

end OAuthRelay.Cluster
