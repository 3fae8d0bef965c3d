import Mathlib.Data.List.Forall2
import Mathlib.Data.Nat.Notation

/-!
# Wildcards

An ID-token policy can compare a claim with a pattern, in which a star stands for any text and
a question mark for one character. What a pattern means is said by the pieces a subject is cut
into, one for each element of the pattern (`Matches`).

The matcher is one loop over a position in the pattern and one in the subject. When they do not
fit it goes back to the last star only, and lets that star take one more character. This finds
every match: what stands between two stars takes the same number of characters wherever it
stands, so an earlier star gains nothing by taking more (`Cursor.Sound`). The loop ends, because
each time it goes back it goes back less far (`Cursor.left`).
-/

set_option autoImplicit false

namespace OAuthRelay.Policies

/-! ## What a pattern means -/

/-- The element of a pattern matches the piece. -/
def MatchesPiece (element : Char) (piece : List Char) : Prop :=
  element = '*' ∨ (element = '?' ∧ piece.length = 1) ∨ piece = [element]

/-- The subject splits into pieces that match the elements of the pattern in their order. -/
def Matches (pattern subject : List Char) : Prop :=
  ∃ pieces, pieces.flatten = subject ∧ List.Forall₂ MatchesPiece pattern pieces

theorem matches_nil {subject : List Char} : Matches [] subject ↔ subject = [] := by
  constructor
  · rintro ⟨pieces, rfl, fits⟩
    cases fits
    rfl
  · rintro rfl
    exact ⟨[], rfl, .nil⟩

theorem matches_cons {element : Char} {rest subject : List Char} :
    Matches (element :: rest) subject ↔
      ∃ piece onward, subject = piece ++ onward ∧ MatchesPiece element piece ∧
        Matches rest onward := by
  constructor
  · rintro ⟨pieces, rfl, fits⟩
    cases fits with
    | @cons _ piece _ others first others_fit =>
        exact ⟨piece, others.flatten, rfl, first, others, rfl, others_fit⟩
  · rintro ⟨piece, _, rfl, first, pieces, rfl, fits⟩
    exact ⟨piece :: pieces, rfl, .cons first fits⟩

/-! ## The loop -/

/-- The variables of the loop of `string_like`. -/
structure Cursor where
  p : ℕ
  v : ℕ
  star : Option ℕ
  retry : ℕ
  deriving DecidableEq

/-- What one round of the loop does. -/
inductive Round where
  | goOn (cursor : Cursor)
  | answer (accepted : Bool)
  deriving DecidableEq

def round (pattern value : List Char) (c : Cursor) : Round :=
  if c.v < value.length then
    if pattern[c.p]? = some '?' ∨ (pattern[c.p]? ≠ some '*' ∧ pattern[c.p]? = value[c.v]?) then
      .goOn { c with p := c.p + 1, v := c.v + 1 }
    else if pattern[c.p]? = some '*' then
      .goOn { c with star := some c.p, p := c.p + 1, retry := c.v }
    else
      match c.star with
      | some index => .goOn { c with retry := c.retry + 1, v := c.retry + 1, p := index + 1 }
      | none => .answer false
  else .answer ((pattern.drop c.p).all fun character => character = '*')

/-- Any number of rounds; no answer when the loop goes on after them. -/
def rounds (pattern value : List Char) : ℕ → Cursor → Option Bool
  | 0, _ => none
  | fuel + 1, c =>
      match round pattern value c with
      | .goOn c' => rounds pattern value fuel c'
      | .answer accepted => some accepted

/-- `string_like`, stopped after a number of rounds. -/
def stringLike (fuel : ℕ) (pattern value : String) : Option Bool :=
  rounds pattern.toList value.toList fuel ⟨0, 0, none, 0⟩

/-! ## Matching from positions on -/

section Positions

variable {pattern value : List Char}

/-- The rest of the pattern matches the rest of the subject. -/
def From (pattern value : List Char) (p v : ℕ) : Prop :=
  Matches (pattern.drop p) (value.drop v)

variable {p v : ℕ}

theorem from_end (ended : pattern.length ≤ p) : From pattern value p v ↔ value.length ≤ v := by
  rw [From, List.drop_eq_nil_of_le ended, matches_nil, List.drop_eq_nil_iff]

/-- A star takes any number of characters. -/
theorem from_star (there : pattern[p]? = some '*') :
    From pattern value p v ↔ ∃ w, v ≤ w ∧ From pattern value (p + 1) w := by
  obtain ⟨inside, element⟩ := List.getElem?_eq_some_iff.mp there
  rw [From, List.drop_eq_getElem_cons inside, matches_cons]
  constructor
  · rintro ⟨piece, onward, split, _, fits⟩
    refine ⟨v + piece.length, Nat.le_add_right .., ?_⟩
    have rest : value.drop (v + piece.length) = onward := by
      rw [← List.drop_drop, split, List.drop_left]
    rwa [From, rest]
  · rintro ⟨w, later, fits⟩
    refine ⟨(value.drop v).take (w - v), value.drop w, ?_, .inl element, fits⟩
    have rest : (value.drop v).drop (w - v) = value.drop w := by
      rw [List.drop_drop, Nat.add_sub_cancel' later]
    rw [← rest, List.take_append_drop]

/-- Any other element takes one character. -/
theorem from_char {element : Char} (there : pattern[p]? = some element) (other : element ≠ '*') :
    From pattern value p v ↔ ∃ c, value[v]? = some c ∧ (element = '?' ∨ element = c) ∧
      From pattern value (p + 1) (v + 1) := by
  obtain ⟨inside, same⟩ := List.getElem?_eq_some_iff.mp there
  rw [From, List.drop_eq_getElem_cons inside, same, matches_cons]
  have one {c : Char} {onward : List Char} (split : value.drop v = [c] ++ onward) :
      value[v]? = some c ∧ value.drop (v + 1) = onward := by
    refine ⟨?_, ?_⟩
    · rw [← List.head?_drop, split]
      rfl
    · rw [← List.drop_drop, split]
      rfl
  constructor
  · rintro ⟨piece, onward, split, star | ⟨any, single⟩ | rfl, fits⟩
    · exact absurd star other
    · obtain ⟨c, rfl⟩ := List.length_eq_one_iff.mp single
      obtain ⟨found, rest⟩ := one split
      exact ⟨c, found, .inl any, by rwa [From, rest]⟩
    · obtain ⟨found, rest⟩ := one split
      exact ⟨element, found, .inr rfl, by rwa [From, rest]⟩
  · rintro ⟨c, found, allowed, fits⟩
    obtain ⟨within, rfl⟩ := List.getElem?_eq_some_iff.mp found
    refine ⟨[value[v]], value.drop (v + 1), List.drop_eq_getElem_cons within, ?_, fits⟩
    rcases allowed with any | rfl
    · exact .inr (.inl ⟨any, rfl⟩)
    · exact .inr (.inr rfl)

end Positions

/-! ## The invariant -/

variable (pattern value : List Char)

/-- The positions are inside, and matching from the start comes down to matching from here, or
from the last star with what it has taken so far or more. What stands after that star takes the
same number of characters wherever it stands. -/
structure Cursor.Sound (c : Cursor) : Prop where
  p_le : c.p ≤ pattern.length
  v_le : c.v ≤ value.length
  retry_le : c.retry ≤ c.v
  first : c.star = none → (From pattern value 0 0 ↔ From pattern value c.p c.v)
  last : ∀ index, c.star = some index →
    index < c.p ∧ c.v = c.retry + (c.p - (index + 1)) ∧
    (From pattern value 0 0 ↔ ∃ w, c.retry ≤ w ∧ From pattern value (index + 1) w) ∧
    (From pattern value c.p c.v → From pattern value (index + 1) c.retry) ∧
    ∀ w, From pattern value (index + 1) w → From pattern value c.p (w + (c.p - (index + 1)))

/-- What is left to do: how far the last star can still be moved, then the rest of the pattern. -/
def Cursor.left (c : Cursor) : ℕ :=
  (value.length - c.retry) * (pattern.length + 1) + (pattern.length - c.p)

variable {pattern value}

theorem Cursor.sound_start : Cursor.Sound pattern value ⟨0, 0, none, 0⟩ where
  p_le := Nat.zero_le _
  v_le := Nat.zero_le _
  retry_le := Nat.le_refl _
  first _ := Iff.rfl
  last index star := by cases star

/-- A round in which the characters fit. -/
theorem Cursor.Sound.fits {c : Cursor} (sound : c.Sound pattern value) {element d : Char}
    (there : pattern[c.p]? = some element) (other : element ≠ '*') (found : value[c.v]? = some d)
    (allowed : element = '?' ∨ element = d) :
    Cursor.Sound pattern value { c with p := c.p + 1, v := c.v + 1 } where
  p_le := (List.getElem?_eq_some_iff.mp there).1
  v_le := (List.getElem?_eq_some_iff.mp found).1
  retry_le := Nat.le_succ_of_le sound.retry_le
  first star := by
    rw [sound.first star, from_char there other]
    constructor
    · rintro ⟨_, _, _, onward⟩
      exact onward
    · exact fun onward => ⟨d, found, allowed, onward⟩
  last index star := by
    obtain ⟨before, distance, whole, here, everywhere⟩ := sound.last index star
    have longer : c.p + 1 - (index + 1) = c.p - (index + 1) + 1 := Nat.sub_add_comm before
    refine ⟨Nat.lt_succ_of_lt before, ?_, whole, fun onward => ?_, fun w fits => ?_⟩
    · show c.v + 1 = c.retry + (c.p + 1 - (index + 1))
      rw [longer, distance, Nat.add_assoc]
    · exact here ((from_char there other).mpr ⟨d, found, allowed, onward⟩)
    · obtain ⟨_, _, _, onward⟩ := (from_char there other).mp (everywhere w fits)
      show From pattern value (c.p + 1) (w + (c.p + 1 - (index + 1)))
      rwa [longer, ← Nat.add_assoc]

/-- A round that finds a star. -/
theorem Cursor.Sound.starred {c : Cursor} (sound : c.Sound pattern value)
    (there : pattern[c.p]? = some '*') :
    Cursor.Sound pattern value { c with star := some c.p, p := c.p + 1, retry := c.v } where
  p_le := (List.getElem?_eq_some_iff.mp there).1
  v_le := sound.v_le
  retry_le := Nat.le_refl _
  first star := by cases star
  last index star := by
    cases star
    refine ⟨Nat.lt_succ_self _, by simp, ?_, fun onward => onward,
      fun w fits => by simpa using fits⟩
    show From pattern value 0 0 ↔ ∃ w, c.v ≤ w ∧ From pattern value (c.p + 1) w
    rw [← from_star there]
    cases star : c.star with
    | none => exact sound.first star
    | some index =>
        obtain ⟨_, distance, whole, here, everywhere⟩ := sound.last index star
        rw [whole]
        constructor
        · -- the earlier star gains nothing by taking more
          rintro ⟨w, later, fits⟩
          obtain ⟨w', later', onward⟩ := (from_star there).mp (everywhere w fits)
          exact (from_star there).mpr ⟨w', by omega, onward⟩
        · exact fun onward => ⟨c.retry, Nat.le_refl _, here onward⟩

/-- A round that goes back to the last star. -/
theorem Cursor.Sound.back {c : Cursor} (sound : c.Sound pattern value) {index : ℕ}
    (star : c.star = some index) (inside : c.v < value.length)
    (fails : ¬ From pattern value c.p c.v) :
    Cursor.Sound pattern value
      { c with retry := c.retry + 1, v := c.retry + 1, p := index + 1 } where
  p_le := Nat.le_trans (sound.last index star).1 sound.p_le
  v_le := Nat.lt_of_le_of_lt sound.retry_le inside
  retry_le := Nat.le_refl _
  first none := by rw [star] at none; cases none
  last index' star' := by
    obtain rfl : index = index' := Option.some.inj (star.symm.trans star')
    obtain ⟨_, distance, whole, _, everywhere⟩ := sound.last index star
    refine ⟨Nat.lt_succ_self _, by simp, ?_, fun onward => onward,
      fun w fits => by simpa using fits⟩
    rw [whole]
    constructor
    · rintro ⟨w, later, fits⟩
      refine ⟨w, Nat.lt_of_le_of_ne later ?_, fits⟩
      rintro rfl
      have onward := everywhere _ fits
      rw [← distance] at onward
      exact fails onward
    · rintro ⟨w, later, fits⟩
      exact ⟨w, Nat.le_of_succ_le later, fits⟩

/-- Where neither the characters fit nor a star stands, the rests do not match. -/
theorem not_from {p v : ℕ} (inside : v < value.length)
    (unfit : ¬ (pattern[p]? = some '?' ∨ (pattern[p]? ≠ some '*' ∧ pattern[p]? = value[v]?)))
    (other : pattern[p]? ≠ some '*') : ¬ From pattern value p v := by
  intro onward
  cases there : pattern[p]? with
  | none => exact absurd ((from_end (List.getElem?_eq_none_iff.mp there)).mp onward) (by omega)
  | some element =>
      rw [there] at unfit other
      obtain ⟨c, found, allowed, _⟩ :=
        (from_char there fun star => other (congrArg some star)).mp onward
      rcases allowed with rfl | rfl
      · exact unfit (.inl rfl)
      · exact unfit (.inr ⟨other, found.symm⟩)

/-- **A round keeps the invariant and leaves less to do.** -/
theorem Cursor.Sound.round {c c' : Cursor} (sound : c.Sound pattern value)
    (goes : round pattern value c = .goOn c') :
    c'.Sound pattern value ∧ c'.left pattern value < c.left pattern value := by
  have retry := sound.retry_le
  unfold Policies.round at goes
  split at goes
  · rename_i inside
    have found := List.getElem?_eq_getElem inside
    split at goes
    · rename_i fit
      cases goes
      have shorter {element : Char} (there : pattern[c.p]? = some element) :
          Cursor.left pattern value { c with p := c.p + 1, v := c.v + 1 } <
            c.left pattern value := by
        have below := (List.getElem?_eq_some_iff.mp there).1
        simp only [Cursor.left]
        omega
      rcases fit with any | ⟨other, same⟩
      · exact ⟨sound.fits any (by decide) found (.inl rfl), shorter any⟩
      · have there := same.trans found
        refine ⟨sound.fits there ?_ found (.inr rfl), shorter there⟩
        rintro star
        exact other (by rw [there, star])
    · rename_i unfit
      split at goes
      · rename_i there
        cases goes
        refine ⟨sound.starred there, ?_⟩
        have below := (List.getElem?_eq_some_iff.mp there).1
        have further : (value.length - c.v) * (pattern.length + 1) ≤
            (value.length - c.retry) * (pattern.length + 1) :=
          Nat.mul_le_mul_right _ (Nat.sub_le_sub_left retry _)
        simp only [Cursor.left]
        omega
      · rename_i other
        split at goes
        · rename_i index star
          cases goes
          refine ⟨sound.back star inside (not_from inside unfit other), ?_⟩
          have nearer : value.length - c.retry = value.length - (c.retry + 1) + 1 := by omega
          have room := sound.p_le
          have order := (sound.last index star).1
          simp only [Cursor.left]
          rw [nearer, Nat.add_mul, Nat.one_mul]
          omega
        · cases goes
  · cases goes

/-- At the end of the subject only stars match. -/
theorem from_of_ended {p v : ℕ} (ended : value.length ≤ v) :
    From pattern value p v ↔ (pattern.drop p).all (fun character => character = '*') = true := by
  induction left : pattern.length - p generalizing p with
  | zero =>
      have short : pattern.length ≤ p := by omega
      rw [from_end short, List.drop_eq_nil_of_le short]
      simp [ended]
  | succ n ih =>
      have inside : p < pattern.length := by omega
      have there := List.getElem?_eq_getElem inside
      rw [List.drop_eq_getElem_cons inside, List.all_cons, Bool.and_eq_true, ← ih (by omega),
        decide_eq_true_eq]
      by_cases star : pattern[p] = '*'
      · rw [star] at there
        rw [from_star there]
        constructor
        · rintro ⟨w, later, onward⟩
          refine ⟨star, ?_⟩
          rwa [From, List.drop_eq_nil_of_le ended,
            ← List.drop_eq_nil_of_le (Nat.le_trans ended later)]
        · exact fun ⟨_, onward⟩ => ⟨v, Nat.le_refl _, onward⟩
      · rw [from_char there star, List.getElem?_eq_none ended]
        simp [star]

/-- **An answer is right.** -/
theorem Cursor.Sound.answer {c : Cursor} (sound : c.Sound pattern value) {accepted : Bool}
    (answers : Policies.round pattern value c = .answer accepted) :
    accepted = true ↔ From pattern value 0 0 := by
  unfold Policies.round at answers
  split at answers
  · rename_i inside
    split at answers
    · cases answers
    · rename_i unfit
      split at answers
      · cases answers
      · rename_i other
        split at answers
        · cases answers
        · rename_i star
          cases answers
          rw [sound.first star]
          simpa using not_from inside unfit other
  · rename_i outside
    have ended : value.length ≤ c.v := Nat.le_of_not_lt outside
    cases answers
    rw [← from_of_ended ended]
    cases star : c.star with
    | none => exact (sound.first star).symm
    | some index =>
        obtain ⟨_, distance, whole, here, everywhere⟩ := sound.last index star
        rw [whole]
        constructor
        · exact fun onward => ⟨c.retry, Nat.le_refl _, here onward⟩
        · rintro ⟨w, later, fits⟩
          have past : value.length ≤ w + (c.p - (index + 1)) := by omega
          have onward := everywhere w fits
          rwa [from_of_ended past, ← from_of_ended ended] at onward

/-! ## The matcher -/

theorem rounds_of_sound {c : Cursor} (sound : c.Sound pattern value) :
    ∃ accepted, (∀ fuel, c.left pattern value < fuel →
      rounds pattern value fuel c = some accepted) ∧
      (accepted = true ↔ From pattern value 0 0) := by
  induction left : c.left pattern value using Nat.strongRecOn generalizing c with
  | _ n ih =>
      cases does : Policies.round pattern value c with
      | answer accepted =>
          refine ⟨accepted, fun fuel more => ?_, sound.answer does⟩
          cases fuel with
          | zero => omega
          | succ fuel => rw [rounds, does]
      | goOn c' =>
          obtain ⟨sound', less⟩ := sound.round does
          obtain ⟨accepted, ends, right⟩ := ih _ (left ▸ less) sound' rfl
          refine ⟨accepted, fun fuel more => ?_, right⟩
          cases fuel with
          | zero => omega
          | succ fuel =>
              rw [rounds, does]
              exact ends fuel (by omega)

/-- **The wildcard matcher ends on every input, and accepts what the pattern means.** It takes
at most one round for every pair of a position in the pattern and one in the subject. -/
theorem string_like_exact (pattern value : String) :
    ∃ accepted, (∀ fuel, (value.toList.length + 1) * (pattern.toList.length + 1) ≤ fuel →
      stringLike fuel pattern value = some accepted) ∧
      (accepted = true ↔ Matches pattern.toList value.toList) := by
  obtain ⟨accepted, ends, right⟩ :=
    rounds_of_sound (@Cursor.sound_start pattern.toList value.toList)
  refine ⟨accepted, fun fuel enough => ends fuel ?_, ?_⟩
  · rw [Nat.add_mul, Nat.one_mul] at enough
    simp only [Cursor.left, Nat.sub_zero]
    omega
  · rw [right, From, List.drop_zero, List.drop_zero]

example : stringLike 100 "a*b?*c" "aXbYbZcc" = some true := by decide +kernel

end OAuthRelay.Policies
