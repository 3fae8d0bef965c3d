import Mathlib.Data.List.Nodup
import OAuthRelay.Wire.Radix

/-!
# Base64

Base64 writes bytes as digits of six bits, with one symbol for each digit. The variants differ
in their symbols and in whether the text is filled up to groups of four. A text is read only if
it is what would be written: digits that stand for no bytes, other bits than zeros at the end and
missing or wrong padding are refused (`decode_eq_some_iff`, `decodePadded_eq_some_iff`).
-/

set_option autoImplicit false

namespace OAuthRelay.Wire.Base64

variable {S : Type} [DecidableEq S]

/-- The symbols of the digits, and one that fills up. -/
structure Alphabet (S : Type) [DecidableEq S] where
  symbols : List S
  padding : S
  size : symbols.length = 64
  distinct : symbols.Nodup
  other : padding ∉ symbols

namespace Alphabet

variable (A : Alphabet S)

def symbol (d : ℕ) : S := A.symbols.getD d A.padding

/-- The digit of a symbol. -/
def value (s : S) : Option ℕ := if s ∈ A.symbols then some (A.symbols.idxOf s) else none

variable {A}

theorem symbol_mem {d : ℕ} (small : d < 2 ^ 6) : A.symbol d ∈ A.symbols := by
  have inside : d < A.symbols.length := by rw [A.size]; exact small
  rw [symbol, List.getD_eq_getElem?_getD, List.getElem?_eq_getElem inside]
  exact List.getElem_mem inside

theorem value_eq_some_iff {s : S} {d : ℕ} :
    A.value s = some d ↔ d < 2 ^ 6 ∧ s = A.symbol d := by
  unfold value
  constructor
  · intro found
    split at found
    · rename_i member
      cases found
      have inside := List.idxOf_lt_length_of_mem member
      refine ⟨Nat.lt_of_lt_of_eq inside A.size, ?_⟩
      rw [symbol, List.getD_eq_getElem?_getD, List.getElem?_eq_getElem inside]
      exact (List.getElem_idxOf inside).symm
    · cases found
  · rintro ⟨small, rfl⟩
    have inside : d < A.symbols.length := by rw [A.size]; exact small
    rw [if_pos (symbol_mem small), symbol, List.getD_eq_getElem?_getD,
      List.getElem?_eq_getElem inside, Option.getD_some, A.distinct.idxOf_getElem d inside]

end Alphabet

variable {A : Alphabet S}

/-! ## Without padding -/

def encode (A : Alphabet S) (bytes : List UInt8) : List S :=
  (Radix.digits 6 bytes).map A.symbol

def decode (A : Alphabet S) (text : List S) : Option (List UInt8) :=
  (text.mapM A.value).bind (Radix.bytes 6)

theorem mapM_value_eq_some_iff {text : List S} {digits : List ℕ} :
    text.mapM A.value = some digits ↔ (∀ d ∈ digits, d < 2 ^ 6) ∧ text = digits.map A.symbol := by
  induction text generalizing digits with
  | nil =>
      simp only [List.mapM_nil, Option.pure_def, Option.some.injEq]
      constructor
      · rintro rfl
        exact ⟨fun _ inside => (by cases inside), rfl⟩
      · rintro ⟨_, same⟩
        exact (List.map_eq_nil_iff.mp same.symm).symm
  | cons s rest ih =>
      rw [List.mapM_cons]
      constructor
      · intro read
        obtain ⟨d, first, read⟩ := Option.bind_eq_some_iff.mp read
        obtain ⟨others, later, same⟩ := Option.bind_eq_some_iff.mp read
        cases same
        obtain ⟨small, rfl⟩ := Alphabet.value_eq_some_iff.mp first
        obtain ⟨small', rfl⟩ := ih.mp later
        exact ⟨List.forall_mem_cons.mpr ⟨small, small'⟩, rfl⟩
      · rintro ⟨small, same⟩
        cases digits with
        | nil => cases same
        | cons d others =>
            obtain ⟨rfl, rest_eq⟩ := List.cons.inj same
            obtain ⟨below, below'⟩ := List.forall_mem_cons.mp small
            rw [Alphabet.value_eq_some_iff.mpr ⟨below, rfl⟩, ih.mpr ⟨below', rest_eq⟩]
            rfl

/-- **A text is read when it is what would be written.** -/
theorem decode_eq_some_iff {text : List S} {bytes : List UInt8} :
    decode A text = some bytes ↔ text = encode A bytes := by
  constructor
  · intro read
    obtain ⟨digits, values, found⟩ := Option.bind_eq_some_iff.mp read
    obtain ⟨small, rfl⟩ := mapM_value_eq_some_iff.mp values
    rw [encode, Radix.digits_of_bytes (by decide) small found]
  · rintro rfl
    have small := (Radix.regroups_digits (w := 6) (by decide) bytes).small
    rw [decode, encode, mapM_value_eq_some_iff.mpr ⟨small, rfl⟩]
    exact Radix.bytes_digits (by decide) (by decide) bytes

theorem mem_of_encode {bytes : List UInt8} : ∀ s ∈ encode A bytes, s ∈ A.symbols := by
  intro s inside
  obtain ⟨d, there, rfl⟩ := List.mem_map.mp inside
  exact Alphabet.symbol_mem ((Radix.regroups_digits (w := 6) (by decide) bytes).small d there)

/-! ## With padding -/

/-- A text filled up to groups of four. -/
def fill (A : Alphabet S) (text : List S) : List S :=
  text ++ List.replicate ((4 - text.length % 4) % 4) A.padding

def encodePadded (A : Alphabet S) (bytes : List UInt8) : List S := fill A (encode A bytes)

def decodePadded (A : Alphabet S) (text : List S) : Option (List UInt8) :=
  let digits := text.takeWhile (· ≠ A.padding)
  if text = fill A digits then decode A digits else none

/-- **A padded text is read when it is what would be written.** -/
theorem decodePadded_eq_some_iff {text : List S} {bytes : List UInt8} :
    decodePadded A text = some bytes ↔ text = encodePadded A bytes := by
  constructor
  · intro read
    simp only [decodePadded] at read
    split at read
    · rename_i filled
      rw [filled, decode_eq_some_iff.mp read]
      rfl
    · cases read
  · rintro rfl
    have plain : ∀ s ∈ encode A bytes, decide (s ≠ A.padding) = true := by
      intro s inside
      refine decide_eq_true ?_
      rintro rfl
      exact A.other (mem_of_encode _ inside)
    have digits : (encodePadded A bytes).takeWhile (· ≠ A.padding) = encode A bytes := by
      rw [encodePadded, fill, List.takeWhile_append_of_pos plain, List.takeWhile_replicate]
      simp
    unfold decodePadded
    rw [digits, encodePadded, if_pos rfl]
    exact decode_eq_some_iff.mpr rfl

/-! ## The usual alphabets -/

def letters : List Char :=
  "ABCDEFGHIJKLMNOPQRSTUVWXYZabcdefghijklmnopqrstuvwxyz0123456789".toList

def standard : Alphabet Char where
  symbols := letters ++ ['+', '/']
  padding := '='
  size := by decide +kernel
  distinct := by decide +kernel
  other := by decide +kernel

def urlSafe : Alphabet Char where
  symbols := letters ++ ['-', '_']
  padding := '='
  size := by decide +kernel
  distinct := by decide +kernel
  other := by decide +kernel

example : encodePadded standard [102, 111, 111, 98] = "Zm9vYg==".toList := by decide +kernel

end OAuthRelay.Wire.Base64
