import Mathlib.Data.List.Basic
import Mathlib.Data.Nat.Notation

/-!
# Label selectors

An API server lists the objects whose labels meet the requirements of a selector, which is
a text. A requirement asks for the value of a label, or for one of several values, and the
requirements are separated by commas. What is used of an API server is that it reads such
texts so (`Lister.Documented`); `reader` is a reader that does (`reader_documented`).

Keys and values consist of characters that are not used for anything else, so the reader
takes each of them as far as it goes, and the rest is what the writer put behind it.
-/

set_option autoImplicit false

namespace OAuthRelay.Kubernetes

/-- The labels of an object. -/
abbrev Labels := List (String × String)

/-! ## Requirements -/

/-- The characters of keys and values. -/
def isNameChar (c : Char) : Bool := c.isAlphanum || c ∈ ['-', '_', '.', '/']

/-- A text of such characters. -/
def IsName (text : String) : Prop := ∀ c ∈ text.toList, isNameChar c = true

inductive Requirement where
  /-- `key=value`. -/
  | equals (key value : String)
  /-- `key in (value,value)`. -/
  | among (key first : String) (rest : List String)
  deriving DecidableEq

namespace Requirement

def Holds (labels : Labels) : Requirement → Bool
  | .equals key value => labels.lookup key = some value
  | .among key first rest => (labels.lookup key).any (· ∈ first :: rest)

/-- Keys and values are names. -/
def WellFormed : Requirement → Prop
  | .equals key value => IsName key ∧ IsName value
  | .among key first rest => IsName key ∧ ∀ value ∈ first :: rest, IsName value

/-- The values of a list, and its end. -/
def valueChars : (first : String) → (rest : List String) → List Char
  | first, [] => first.toList ++ [')']
  | first, second :: rest => first.toList ++ ',' :: valueChars second rest

def chars : Requirement → List Char
  | .equals key value => key.toList ++ '=' :: value.toList
  | .among key first rest =>
      key.toList ++ ' ' :: 'i' :: 'n' :: ' ' :: '(' :: valueChars first rest

end Requirement

/-- The requirements of a selector, separated by commas. -/
def selectorChars : (first : Requirement) → (rest : List Requirement) → List Char
  | first, [] => first.chars
  | first, second :: rest => first.chars ++ ',' :: selectorChars second rest

def selectorText (first : Requirement) (rest : List Requirement) : String :=
  String.ofList (selectorChars first rest)

/-- How an API server lists: what it makes of the text of a selector and the labels of an
object. -/
abbrev Lister := String → Labels → Bool

/-- Selectors are read as they are documented. -/
def Lister.Documented (lists : Lister) : Prop :=
  ∀ first rest, (∀ requirement ∈ first :: rest, requirement.WellFormed) →
    ∀ labels, lists (selectorText first rest) labels = (first :: rest).all (·.Holds labels)

/-! ## A reader -/

/-- A name at the start of a text, and what is behind it. -/
def takeName (text : List Char) : String × List Char :=
  (String.ofList (text.takeWhile isNameChar), text.dropWhile isNameChar)

/-- The values of a list that has begun. -/
def takeValues : (fuel : ℕ) → List Char → Option (List String × List Char)
  | 0, _ => none
  | fuel + 1, text =>
      let (value, rest) := takeName text
      match rest with
      | ')' :: rest => some ([value], rest)
      | ',' :: rest => (takeValues fuel rest).map fun values => (value :: values.1, values.2)
      | _ => none

def takeRequirement (text : List Char) : Option (Requirement × List Char) :=
  let (key, rest) := takeName text
  match rest with
  | '=' :: rest =>
      let (value, rest) := takeName rest
      some (.equals key value, rest)
  | ' ' :: 'i' :: 'n' :: ' ' :: '(' :: rest =>
      match takeValues rest.length rest with
      | some (first :: values, rest) => some (.among key first values, rest)
      | _ => none
  | _ => none

def takeRequirements : (fuel : ℕ) → List Char → Option (List Requirement)
  | 0, _ => none
  | fuel + 1, text =>
      match takeRequirement text with
      | some (requirement, []) => some [requirement]
      | some (requirement, ',' :: rest) => (takeRequirements fuel rest).map (requirement :: ·)
      | _ => none

/-- An API server that understands just these selectors. -/
def reader : Lister := fun text labels =>
  match takeRequirements (text.toList.length + 1) text.toList with
  | some requirements => requirements.all (·.Holds labels)
  | none => false

/-- A name is taken as far as it goes. -/
theorem takeName_append {name : String} (rest : List Char) (plain : IsName name)
    (other : ∀ c ∈ rest.head?, isNameChar c = false) :
    takeName (name.toList ++ rest) = (name, rest) := by
  have stops : rest.takeWhile isNameChar = [] ∧ rest.dropWhile isNameChar = rest := by
    cases rest with
    | nil => exact ⟨rfl, rfl⟩
    | cons c rest =>
        have not := other c rfl
        exact ⟨List.takeWhile_cons_of_neg (by simp [not]),
          List.dropWhile_cons_of_neg (by simp [not])⟩
  rw [takeName, List.takeWhile_append_of_pos plain, List.dropWhile_append_of_pos plain, stops.1,
    stops.2, List.append_nil, String.ofList_toList]

theorem takeValues_append {first : String} {values : List String}
    (plain : ∀ value ∈ first :: values, IsName value) (rest : List Char) (fuel : ℕ)
    (enough : (Requirement.valueChars first values).length ≤ fuel) :
    takeValues fuel (Requirement.valueChars first values ++ rest) =
      some (first :: values, rest) := by
  induction values generalizing first fuel with
  | nil =>
      obtain ⟨fuel, rfl⟩ : ∃ less, fuel = less + 1 :=
        ⟨fuel - 1, by simp [Requirement.valueChars] at enough; omega⟩
      have name := takeName_append (')' :: rest) (plain first (List.mem_cons_self ..))
        (by rintro _ ⟨⟩; decide)
      simp only [Requirement.valueChars, List.append_assoc, List.singleton_append, takeValues, name]
  | cons second values ih =>
      obtain ⟨fuel, rfl⟩ : ∃ less, fuel = less + 1 :=
        ⟨fuel - 1, by simp [Requirement.valueChars] at enough; omega⟩
      have name := takeName_append (',' :: (Requirement.valueChars second values ++ rest))
        (plain first (List.mem_cons_self ..)) (by rintro _ ⟨⟩; decide)
      have onward := @ih second
        (fun value inside => plain value (List.mem_cons_of_mem _ inside)) fuel
        (by simp [Requirement.valueChars] at enough; omega)
      simp only [Requirement.valueChars, List.append_assoc, List.cons_append, takeValues, name,
        onward, Option.map_some]

theorem takeRequirement_append {requirement : Requirement} (formed : requirement.WellFormed)
    (rest : List Char) (other : ∀ c ∈ rest.head?, isNameChar c = false) :
    takeRequirement (requirement.chars ++ rest) = some (requirement, rest) := by
  cases requirement with
  | equals key value =>
      have name := takeName_append ('=' :: (value.toList ++ rest)) formed.1
        (by rintro _ ⟨⟩; decide)
      simp only [Requirement.chars, List.append_assoc, List.cons_append, takeRequirement, name,
        takeName_append rest formed.2 other]
  | among key first values =>
      have name := takeName_append
        (' ' :: 'i' :: 'n' :: ' ' :: '(' :: (Requirement.valueChars first values ++ rest))
        formed.1 (by rintro _ ⟨⟩; decide)
      have found := takeValues_append formed.2 rest
        (Requirement.valueChars first values ++ rest).length (by simp)
      simp only [Requirement.chars, List.append_assoc, List.cons_append, takeRequirement, name,
        found]

theorem takeRequirements_selector {first : Requirement} {rest : List Requirement}
    (formed : ∀ requirement ∈ first :: rest, requirement.WellFormed) (fuel : ℕ)
    (enough : (selectorChars first rest).length < fuel) :
    takeRequirements fuel (selectorChars first rest) = some (first :: rest) := by
  induction rest generalizing first fuel with
  | nil =>
      obtain ⟨fuel, rfl⟩ : ∃ less, fuel = less + 1 := ⟨fuel - 1, by omega⟩
      have found := takeRequirement_append (formed first (List.mem_cons_self ..)) []
        (by rintro _ ⟨⟩)
      rw [List.append_nil] at found
      simp only [selectorChars, takeRequirements, found]
  | cons second rest ih =>
      obtain ⟨fuel, rfl⟩ : ∃ less, fuel = less + 1 := ⟨fuel - 1, by omega⟩
      have found := takeRequirement_append (formed first (List.mem_cons_self ..))
        (',' :: selectorChars second rest) (by rintro _ ⟨⟩; decide)
      have onward := @ih second
        (fun requirement inside => formed requirement (List.mem_cons_of_mem _ inside)) fuel
        (by simp [selectorChars] at enough; omega)
      simp only [selectorChars, takeRequirements, found, onward, Option.map_some]

/-- **The reader understands selectors.** -/
theorem reader_documented : Lister.Documented reader := by
  intro first rest formed labels
  have found := takeRequirements_selector formed ((selectorChars first rest).length + 1)
    (Nat.lt_succ_self _)
  simp only [reader, selectorText, String.toList_ofList, found]

end OAuthRelay.Kubernetes
