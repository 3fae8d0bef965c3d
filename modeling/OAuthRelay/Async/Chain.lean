import Mathlib.Data.List.Nodup
import Mathlib.Logic.Relation

/-!
# Chains that grow at their end

Things that are linked, each to at most one next, and a last one that all of them lead to:
a log of versions, a list of predecessors, a line of successors. A path lists what it passes
before it gets to its end (`Path`). Where links are functional and the end has none, a path
repeats nothing (`Path.nodup`), and it passes exactly what its start leads to
(`Path.mem_iff`). A chain stays one when a new thing is linked behind its last
(`Ends.extend`).
-/

set_option autoImplicit false

namespace OAuthRelay.Async

open Relation

variable {α : Type} {link link' : α → α → Prop} {a b z : α} {l : List α}

/-! ## Paths -/

/-- From `a` the links lead to `z`, past the things in the list. -/
inductive Path (link : α → α → Prop) : α → List α → α → Prop where
  | here (a : α) : Path link a [] a
  | step {a b z : α} {l : List α} (next : link a b) (rest : Path link b l z) :
      Path link a (a :: l) z

namespace Path

theorem mono (path : Path link a l z) (inside : ∀ {x y}, x ∈ l → link x y → link' x y) :
    Path link' a l z := by
  induction path with
  | here a => exact .here a
  | step next _ ih =>
      refine .step (inside (List.mem_cons_self ..) next) (ih fun member => ?_)
      exact inside (List.mem_cons_of_mem _ member)

/-- A path goes on behind its end. -/
theorem snoc (path : Path link a l z) (next : link z b) : Path link a (l ++ [z]) b := by
  induction path with
  | here a => exact .step next (.here b)
  | step first _ ih => exact .step first (ih next)

theorem reaches (path : Path link a l z) : ReflTransGen link a z := by
  induction path with
  | here => exact .refl
  | step next _ ih => exact .head next ih

/-- What a path passes lies between its start and its end. -/
theorem between (path : Path link a l z) {x : α} (member : x ∈ l) :
    ReflTransGen link a x ∧ TransGen link x z := by
  induction path with
  | here => cases member
  | step next rest ih =>
      rcases List.mem_cons.mp member with rfl | later
      · exact ⟨.refl, .head' next rest.reaches⟩
      · exact ⟨.head next (ih later).1, (ih later).2⟩

end Path

theorem exists_path (reaches : ReflTransGen link a z) : ∃ l, Path link a l z := by
  induction reaches using ReflTransGen.head_induction_on with
  | refl => exact ⟨[], .here z⟩
  | head next _ ih =>
      obtain ⟨l, path⟩ := ih
      exact ⟨_, .step next path⟩

/-! ## Functional links with an end -/

section Functional

variable (functional : Relator.RightUnique link) (last : ∀ b, ¬ link z b)

include functional last

/-- Whatever leads to the end does not come back to itself. -/
theorem not_cycle (reaches : ReflTransGen link a z) : ¬ TransGen link a a := by
  induction reaches using ReflTransGen.head_induction_on with
  | refl =>
      intro cycle
      obtain ⟨b, next, _⟩ := TransGen.head'_iff.mp cycle
      exact last b next
  | head next _ ih =>
      intro cycle
      obtain ⟨b, next', back⟩ := TransGen.head'_iff.mp cycle
      obtain rfl := functional next next'
      exact ih (.tail' back next)

/-- Of two things that lead to the end, one leads to the other. -/
theorem reaches_of_end (reaches : ReflTransGen link a b) (ends : ReflTransGen link a z) :
    ReflTransGen link b z := by
  rcases ReflTransGen.total_of_right_unique functional reaches ends with onward | back
  · exact onward
  · rcases ReflTransGen.cases_head back with rfl | ⟨c, next, _⟩
    · exact .refl
    · exact absurd next (last c)

theorem Path.nodup (path : Path link a l z) : l.Nodup := by
  induction path with
  | here => exact .nil
  | step next rest ih =>
      refine List.nodup_cons.mpr ⟨fun member => ?_, ih last⟩
      exact not_cycle functional last (.head next rest.reaches) (.head' next (rest.between member).1)

/-- There is one path to an end. -/
theorem Path.unique {z' : α} {l' : List α} (last' : ∀ b, ¬ link z' b) (path : Path link a l z)
    (path' : Path link a l' z') : l = l' ∧ z = z' := by
  induction path generalizing l' with
  | here =>
      cases path' with
      | here => exact ⟨rfl, rfl⟩
      | step next _ => exact absurd next (last _)
  | step next _ ih =>
      cases path' with
      | here => exact absurd next (last' _)
      | step next' rest' =>
          obtain rfl := functional next next'
          obtain ⟨rfl, same⟩ := ih last rest'
          exact ⟨rfl, same⟩

/-- **A path passes what its start leads to, up to its end.** -/
theorem Path.mem_iff (path : Path link a l z) {x : α} :
    x ∈ l ↔ ReflTransGen link a x ∧ x ≠ z := by
  constructor
  · intro member
    obtain ⟨there, onward⟩ := path.between member
    refine ⟨there, ?_⟩
    rintro rfl
    obtain ⟨b, next, _⟩ := TransGen.head'_iff.mp onward
    exact last b next
  · rintro ⟨reaches, other⟩
    induction path with
    | here =>
        rcases ReflTransGen.cases_head reaches with rfl | ⟨c, next, _⟩
        · exact absurd rfl other
        · exact absurd next (last c)
    | step next rest ih =>
        rcases ReflTransGen.cases_head reaches with rfl | ⟨c, next', onward⟩
        · exact List.mem_cons_self ..
        · obtain rfl := functional next next'
          exact List.mem_cons_of_mem _ (ih last onward other)

end Functional

/-! ## The end of a chain -/

/-- All members lead to this last one. -/
structure Ends (member : α → Prop) (link : α → α → Prop) (z : α) : Prop where
  mem : member z
  last : ∀ b, ¬ link z b
  reaches : ∀ a, member a → ReflTransGen link a z

namespace Ends

variable {member member' : α → Prop}

/-- A member without a link is the last one. -/
theorem eq_of_last (ends : Ends member link z) (mem : member a) (last : ∀ b, ¬ link a b) :
    a = z := by
  rcases ReflTransGen.cases_head (ends.reaches a mem) with same | ⟨b, next, _⟩
  · exact same
  · exact absurd next (last b)

theorem congr (ends : Ends member link z) (members : ∀ a, member' a ↔ member a)
    (links : ∀ a b, link' a b ↔ link a b) : Ends member' link' z where
  mem := (members z).mpr ends.mem
  last b next := ends.last b ((links z b).mp next)
  reaches a mem :=
    ReflTransGen.mono (fun x y next => (links x y).mpr next) _ _
      (ends.reaches a ((members a).mp mem))

/-- **A chain grows behind its last.** -/
theorem extend (ends : Ends member link z) (members : ∀ a, member' a ↔ member a ∨ a = b)
    (links : ∀ x y, link' x y ↔ link x y ∨ (x = z ∧ y = b)) (fresh : ∀ c, ¬ link b c)
    (other : b ≠ z) : Ends member' link' b where
  mem := (members b).mpr (.inr rfl)
  last c next := by
    rcases (links b c).mp next with old | ⟨same, _⟩
    · exact fresh c old
    · exact other same
  reaches a mem := by
    rcases (members a).mp mem with old | rfl
    · refine .tail (ReflTransGen.mono (fun x y next => ?_) _ _ (ends.reaches a old)) ?_
      · exact (links x y).mpr (.inl next)
      · exact (links z b).mpr (.inr ⟨rfl, rfl⟩)
    · exact .refl

end Ends

end OAuthRelay.Async
