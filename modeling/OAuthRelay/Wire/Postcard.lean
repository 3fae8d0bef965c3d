import Mathlib.Algebra.Group.Nat.Defs
import Mathlib.Data.Nat.Notation
import Mathlib.Logic.Basic

/-!
# A compact wire format

The postcard format has no field names and no types on the wire. A number is a varint, seven
bits a byte with the lowest first, and need not be minimal; text and byte sequences carry
their length in front; an option is a tag byte and, if it is 1, the value; an array is its
bytes. A struct is its fields in order. What follows a value is left for the next one, and
at the end it is ignored.

A codec carries the proof that what it writes it reads back, for the values that fit
(`Codec.decode_encode`), so that codecs built from codecs need no proof of their own.
-/

set_option autoImplicit false

namespace OAuthRelay.Wire

/-! ## Varints -/

/-- Writes a number in at most `k` bytes. -/
def putVarint : ℕ → ℕ → List UInt8
  | 0, _ => []
  | k + 1, n =>
      if n < 128 then [n.toUInt8] else (n % 128 + 128).toUInt8 :: putVarint k (n / 128)

/-- Reads a number of at most `k` bytes, the last of which holds no more than `last`. -/
def takeVarint (last : ℕ) : ℕ → List UInt8 → Option (ℕ × List UInt8)
  | 0, _ => none
  | _ + 1, [] => none
  | k + 1, byte :: rest =>
      if byte.toNat < 128 then
        if k = 0 ∧ last < byte.toNat then none else some (byte.toNat, rest)
      else
        match takeVarint last k rest with
        | none => none
        | some (n, rest) => some (byte.toNat - 128 + 128 * n, rest)

theorem toNat_toUInt8 {n : ℕ} (h : n < 256) : n.toUInt8.toNat = n := by
  simp [Nat.mod_eq_of_lt h]

/-- **A number that fits is read back.** -/
theorem takeVarint_putVarint {last : ℕ} (small : last < 128) (rest : List UInt8) :
    ∀ (k n : ℕ), n < (last + 1) * 128 ^ k →
      takeVarint last (k + 1) (putVarint (k + 1) n ++ rest) = some (n, rest) := by
  intro k
  induction k with
  | zero =>
      intro n fits
      have below : n < last + 1 := by simpa using fits
      have byte : n.toUInt8.toNat = n := toNat_toUInt8 (by omega)
      have short : n < 128 := by omega
      have kept : ¬ last < n := by omega
      simp [putVarint, takeVarint, short, byte, kept]
  | succ k ih =>
      intro n fits
      by_cases short : n < 128
      · have byte : n.toUInt8.toNat = n := toNat_toUInt8 (by omega)
        rw [putVarint, if_pos short]
        simp [takeVarint, short, byte]
      · have byte : (n % 128 + 128).toUInt8.toNat = n % 128 + 128 := toNat_toUInt8 (by omega)
        have high : ¬ n % 128 + 128 < 128 := by omega
        have fits' : n / 128 < (last + 1) * 128 ^ k := by
          rw [Nat.div_lt_iff_lt_mul (by decide), Nat.mul_assoc, ← Nat.pow_succ]
          exact fits
        rw [putVarint, if_neg short, List.cons_append, takeVarint, byte, if_neg high,
          ih (n / 128) fits']
        simp only [Option.some.injEq, Prod.mk.injEq, and_true]
        omega

/-! ## Codecs -/

/-- A way to write values and to read them. The values that are `Fitting` are read back,
whatever follows them. -/
structure Codec (α : Type) where
  encode : α → List UInt8
  decode : List UInt8 → Option (α × List UInt8)
  Fitting : α → Prop
  decode_encode : ∀ a rest, Fitting a → decode (encode a ++ rest) = some (a, rest)

namespace Codec

variable {α β : Type}

/-- The text or value at the start of the bytes; what follows it is ignored. -/
def fromBytes (codec : Codec α) (bytes : List UInt8) : Option α := (codec.decode bytes).map Prod.fst

theorem fromBytes_encode (codec : Codec α) {a : α} (fits : codec.Fitting a) (rest : List UInt8) :
    codec.fromBytes (codec.encode a ++ rest) = some a := by
  simp [fromBytes, codec.decode_encode a rest fits]

/-- A 64-bit number. -/
def u64 : Codec ℕ where
  encode := putVarint 10
  decode := takeVarint 1 10
  Fitting n := n < 2 ^ 64
  decode_encode n rest fits :=
    takeVarint_putVarint (by decide) rest 9 n (Nat.lt_of_lt_of_le fits (by decide))

/-- A 16-bit number. -/
def u16 : Codec ℕ where
  encode := putVarint 3
  decode := takeVarint 3 3
  Fitting n := n < 2 ^ 16
  decode_encode n rest fits :=
    takeVarint_putVarint (by decide) rest 2 n (Nat.lt_of_lt_of_le fits (by decide))

/-- The first `n` bytes, if there are as many. -/
def takeBytes (n : ℕ) (bytes : List UInt8) : Option (List UInt8 × List UInt8) :=
  if n ≤ bytes.length then some (bytes.take n, bytes.drop n) else none

theorem takeBytes_append (bytes rest : List UInt8) :
    takeBytes bytes.length (bytes ++ rest) = some (bytes, rest) := by
  simp [takeBytes]

/-- A byte sequence. -/
def byteSeq : Codec (List UInt8) where
  encode bytes := u64.encode bytes.length ++ bytes
  decode bytes :=
    match u64.decode bytes with
    | none => none
    | some (n, rest) => takeBytes n rest
  Fitting bytes := bytes.length < 2 ^ 64
  decode_encode bytes rest fits := by
    rw [List.append_assoc, u64.decode_encode _ _ fits]
    exact takeBytes_append bytes rest

/-- An array of `n` bytes. -/
def array (n : ℕ) : Codec { bytes : List UInt8 // bytes.length = n } where
  encode bytes := bytes.1
  decode bytes :=
    if h : n ≤ bytes.length then
      some (⟨bytes.take n, by simp [h]⟩, bytes.drop n)
    else none
  Fitting _ := True
  decode_encode bytes rest _ := by
    obtain ⟨bytes, rfl⟩ := bytes
    simp

/-- The UTF-8 bytes of a text. -/
def utf8Bytes (text : String) : List UInt8 := text.toUTF8.data.toList

/-- The text with these UTF-8 bytes. -/
def fromUtf8 (bytes : List UInt8) : Option String := String.fromUTF8? ⟨bytes.toArray⟩

theorem fromUtf8_utf8Bytes (text : String) : fromUtf8 (utf8Bytes text) = some text := by
  have back : (⟨text.toUTF8.data.toList.toArray⟩ : ByteArray) = text.toUTF8 := by simp
  have valid : text.toUTF8.IsValidUTF8 := text.isValidUTF8
  rw [fromUtf8, utf8Bytes, back, String.fromUTF8?, dif_pos valid]
  rfl

/-- A text. -/
def string : Codec String where
  encode text := byteSeq.encode (utf8Bytes text)
  decode bytes :=
    match byteSeq.decode bytes with
    | none => none
    | some (bytes, rest) => (fromUtf8 bytes).map fun text => (text, rest)
  Fitting text := byteSeq.Fitting (utf8Bytes text)
  decode_encode text rest fits := by
    rw [byteSeq.decode_encode _ _ fits]
    simp [fromUtf8_utf8Bytes]

/-- A value that may be missing. -/
def option (codec : Codec α) : Codec (Option α) where
  encode
    | none => [0]
    | some a => 1 :: codec.encode a
  decode
    | 0 :: rest => some (none, rest)
    | 1 :: rest => (codec.decode rest).map fun read => (some read.1, read.2)
    | _ => none
  Fitting value := ∀ a ∈ value, codec.Fitting a
  decode_encode value rest fits := by
    cases value with
    | none => rfl
    | some a => simp [codec.decode_encode a rest (fits a rfl)]

theorem u64_fitting {n : ℕ} : u64.Fitting n ↔ n < 2 ^ 64 := Iff.rfl

theorem string_fitting {text : String} : string.Fitting text ↔ (utf8Bytes text).length < 2 ^ 64 :=
  Iff.rfl

@[simp] theorem option_fitting_none (codec : Codec α) : codec.option.Fitting none := by
  intro a member
  cases member

@[simp] theorem option_fitting_some {codec : Codec α} {a : α} :
    codec.option.Fitting (some a) ↔ codec.Fitting a := by
  constructor
  · intro fits
    exact fits a rfl
  · rintro fits _ ⟨⟩
    exact fits

/-- Two values, one after the other. -/
def pair (first : Codec α) (second : Codec β) : Codec (α × β) where
  encode values := first.encode values.1 ++ second.encode values.2
  decode bytes :=
    match first.decode bytes with
    | none => none
    | some (a, rest) => (second.decode rest).map fun read => ((a, read.1), read.2)
  Fitting values := first.Fitting values.1 ∧ second.Fitting values.2
  decode_encode values rest fits := by
    obtain ⟨a, b⟩ := values
    rw [List.append_assoc, first.decode_encode a _ fits.1]
    simp [second.decode_encode b rest fits.2]

/-- What the first of two values is. -/
theorem pair_decode_fst {first : Codec α} {second : Codec β} {bytes rest : List UInt8}
    {values : α × β} (h : (first.pair second).decode bytes = some (values, rest)) :
    ∃ rest', first.decode bytes = some (values.1, rest') := by
  simp only [pair] at h
  split at h
  · cases h
  · rename_i a rest' read
    obtain ⟨⟨b, rest''⟩, _, same⟩ := Option.map_eq_some_iff.mp h
    cases same
    exact ⟨rest', read⟩

/-- The same bytes for a type with the same values. -/
def map (codec : Codec α) (forth : α → β) (back : β → α) (inverse : ∀ b, forth (back b) = b) :
    Codec β where
  encode b := codec.encode (back b)
  decode bytes := (codec.decode bytes).map fun read => (forth read.1, read.2)
  Fitting b := codec.Fitting (back b)
  decode_encode b rest fits := by
    rw [codec.decode_encode _ _ fits]
    simp [inverse]

end Codec

end OAuthRelay.Wire
