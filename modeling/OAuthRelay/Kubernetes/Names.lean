import Mathlib.Data.List.Nodup
import Mathlib.Data.Set.Operations
import OAuthRelay.Codes.Envelope
import OAuthRelay.Wire.Form
import OAuthRelay.Wire.Radix

/-!
# Names of objects

The store keeps a record in an object whose name is a prefix and the hash of the store key in
base32. The encoder takes the bytes into an accumulator of 32 bits and lets go of a digit as soon
as there are five bits. Fewer than five are left after every byte, so the accumulator has room
for the next one, and what has been let go of and what is left are together the bits of all the
bytes (`absorbAll_spec`).

Hence the text has the digits of the bytes, and texts are different where bytes are. With a hash
that has no collision among the keys, keys have different names. All names are labels of 63
characters, and those among the codes of Dex sort behind the codes that Dex makes itself.
-/

set_option autoImplicit false

namespace OAuthRelay.Kubernetes

open OAuthRelay.Codes (Bytes)
open OAuthRelay.Wire
open OAuthRelay.Wire.Codec (utf8Bytes)
open OAuthRelay.Wire.Radix (Regroups)

/-! ## Base32 -/

/-- `BASE32_ALPHABET`. -/
def base32Alphabet : List Char := "abcdefghijklmnopqrstuvwxyz234567".toList

def base32Digit (d : ℕ) : Char := base32Alphabet.getD d 'a'

/-- The variables of the loop of `base32_lower`. -/
structure Accumulator where
  buffer : UInt32
  bits : ℕ
  deriving DecidableEq

/-- The inner loop: the digits that are complete, and the bits that are left. -/
def drain (buffer : UInt32) : ℕ → List Char × ℕ
  | bits + 5 =>
      let (out, left) := drain buffer bits
      (base32Digit ((buffer >>> UInt32.ofNat bits) &&& 31).toNat :: out, left)
  | bits => ([], bits)

/-- One round of the outer loop. -/
def absorb (acc : Accumulator) (byte : UInt8) : List Char × Accumulator :=
  let buffer := acc.buffer <<< 8 ||| byte.toUInt32
  let (out, bits) := drain buffer (acc.bits + 8)
  (out, ⟨buffer &&& (1 <<< UInt32.ofNat bits) - 1, bits⟩)

def absorbAll (acc : Accumulator) : List UInt8 → List Char × Accumulator
  | [] => ([], acc)
  | byte :: rest =>
      let (out, acc) := absorb acc byte
      let (out', acc) := absorbAll acc rest
      (out ++ out', acc)

/-- What is left at the end. -/
def finish (acc : Accumulator) : List Char :=
  if acc.bits > 0 then
    [base32Digit ((acc.buffer <<< UInt32.ofNat (5 - acc.bits)) &&& 31).toNat]
  else []

def base32Lower (bytes : List UInt8) : String :=
  let (out, acc) := absorbAll ⟨0, 0⟩ bytes
  String.ofList (out ++ finish acc)

/-! ## Names -/

/-- `RecordMapping`. -/
inductive RecordMapping where
  | transientRecord
  | dexAuthCode
  deriving DecidableEq

/-- `NAME_PREFIX`. -/
def namePrefix : String := "oauthrelay-"

/-- `DEX_NAME_PREFIX`. -/
def dexNamePrefix : String := "zzzzzzzzzzz"

def prefixedName (sha256 : List UInt8 → Bytes 32) (front key : String) : String :=
  front ++ base32Lower (sha256 (utf8Bytes key)).val

/-- `RecordMapping::object_name`. -/
def RecordMapping.objectName (sha256 : List UInt8 → Bytes 32) (mapping : RecordMapping)
    (key : String) : String :=
  match mapping with
  | .transientRecord => prefixedName sha256 namePrefix key
  | .dexAuthCode => prefixedName sha256 dexNamePrefix key

/-! ## Digits -/

theorem base32Digit_mem (d : ℕ) : base32Digit d ∈ base32Alphabet := by
  unfold base32Digit
  rw [List.getD_eq_getElem?_getD]
  cases found : base32Alphabet[d]? with
  | none => decide
  | some c => exact List.mem_of_getElem? found

theorem base32Digit_injOn {d d' : ℕ} (small : d < 32) (small' : d' < 32)
    (same : base32Digit d = base32Digit d') : d = d' := by
  have distinct : base32Alphabet.Nodup := by decide
  have size : base32Alphabet.length = 32 := by decide
  rw [base32Digit, base32Digit, List.getD_eq_getElem?_getD, List.getD_eq_getElem?_getD,
    List.getElem?_eq_getElem (by omega), List.getElem?_eq_getElem (by omega)] at same
  exact (List.Nodup.getElem_inj_iff distinct).mp same

theorem map_base32Digit_injOn {digits digits' : List ℕ} (small : ∀ d ∈ digits, d < 32)
    (small' : ∀ d ∈ digits', d < 32)
    (same : digits.map base32Digit = digits'.map base32Digit) : digits = digits' := by
  induction digits generalizing digits' with
  | nil => exact (List.map_eq_nil_iff.mp same.symm).symm
  | cons d rest ih =>
      cases digits' with
      | nil => cases same
      | cons d' rest' =>
          obtain ⟨first, others⟩ := List.cons.inj same
          rw [base32Digit_injOn (small d (List.mem_cons_self ..))
            (small' d' (List.mem_cons_self ..))
            first, ih (fun d inside => small d (List.mem_cons_of_mem _ inside))
              (fun d inside => small' d (List.mem_cons_of_mem _ inside)) others]

/-- What the digits and the names are made of. -/
def isLabelChar (c : Char) : Bool := c.isLower || c.isDigit || c = '-'

theorem alphabet_chars : ∀ c ∈ base32Alphabet,
    (c.isLower || c.isDigit) = true ∧ c.toNat < 128 ∧
      (c = 'z' ∨ asciiByte c < asciiByte 'z') := by
  decide

/-! ## The accumulator -/

/-- Fewer than five bits are left, and the buffer holds no others. -/
structure Accumulator.Sound (acc : Accumulator) : Prop where
  few : acc.bits < 5
  clean : acc.buffer.toNat < 2 ^ acc.bits

theorem toNat_mask (n : UInt32) : (n &&& 31).toNat = n.toNat % 2 ^ 5 := by
  rw [UInt32.toNat_and]
  exact Nat.and_two_pow_sub_one_eq_mod n.toNat 5

theorem toNat_shiftRight {n : UInt32} {k : ℕ} (small : k < 32) :
    (n >>> UInt32.ofNat k).toNat = n.toNat / 2 ^ k := by
  rw [UInt32.toNat_shiftRight, UInt32.toNat_ofNat', Nat.mod_eq_of_lt (by omega : k < 2 ^ 32),
    Nat.mod_eq_of_lt small, Nat.shiftRight_eq_div_pow]

/-- A buffer with so few bits has room for a byte. -/
theorem Accumulator.Sound.room {acc : Accumulator} (sound : acc.Sound) (byte : UInt8) :
    (acc.buffer <<< 8 ||| byte.toUInt32).toNat = acc.buffer.toNat * 2 ^ 8 + byte.toNat := by
  have few : 2 ^ acc.bits ≤ 2 ^ 4 := Nat.pow_le_pow_right (by decide) (Nat.le_of_lt_succ sound.few)
  have clean := sound.clean
  have shifted : (acc.buffer <<< 8).toNat = acc.buffer.toNat <<< 8 := by
    rw [UInt32.toNat_shiftLeft]
    refine Nat.mod_eq_of_lt ?_
    show acc.buffer.toNat <<< 8 < 2 ^ 32
    rw [Nat.shiftLeft_eq]
    omega
  rw [UInt32.toNat_or, shifted, UInt8.toNat_toUInt32,
    ← Nat.shiftLeft_add_eq_or_of_lt byte.toNat_lt, Nat.shiftLeft_eq]

/-- **The inner loop lets go of the upper bits and leaves fewer than five.** -/
theorem drain_spec (buffer : UInt32) : ∀ bits ≤ 32, ∃ digits,
    (drain buffer bits).1 = digits.map base32Digit ∧ (∀ d ∈ digits, d < 2 ^ 5) ∧
      (drain buffer bits).2 < 5 ∧
      Radix.bits bits buffer.toNat =
        Radix.allBits 5 digits ++ Radix.bits (drain buffer bits).2 buffer.toNat := by
  intro bits
  induction bits using drain.induct buffer with
  | case1 bits _ _ _ ih =>
      intro small
      obtain ⟨digits, out, below, left, same⟩ := ih (by omega)
      refine ⟨buffer.toNat / 2 ^ bits % 2 ^ 5 :: digits, ?_, ?_, left, ?_⟩
      · show base32Digit _ :: (drain buffer bits).1 = _
        rw [out, toNat_mask, toNat_shiftRight (by omega), List.map_cons]
      · intro d inside
        rcases List.mem_cons.mp inside with rfl | later
        · exact Nat.mod_lt _ (by decide)
        · exact below d later
      · show Radix.bits (bits + 5) buffer.toNat = _ ++ Radix.bits (drain buffer bits).2 _
        rw [Nat.add_comm, Radix.bits_add, same, Radix.allBits_cons, Radix.bits_mod,
          List.append_assoc]
  | case2 bits short =>
      intro _
      have few : bits < 5 := by
        by_contra many
        exact short (bits - 5) (by omega)
      have stops : drain buffer bits = ([], bits) := by
        unfold drain
        split
        · omega
        · rfl
      rw [stops]
      exact ⟨[], rfl, fun _ inside => (by cases inside), few, rfl⟩

/-- A round of the loop loses no bit. -/
theorem absorb_spec {acc : Accumulator} (sound : acc.Sound) (byte : UInt8) :
    (absorb acc byte).2.Sound ∧ ∃ digits,
      (absorb acc byte).1 = digits.map base32Digit ∧ (∀ d ∈ digits, d < 2 ^ 5) ∧
      Radix.bits acc.bits acc.buffer.toNat ++ Radix.bits 8 byte.toNat =
        Radix.allBits 5 digits ++
          Radix.bits (absorb acc byte).2.bits (absorb acc byte).2.buffer.toNat := by
  obtain ⟨digits, out, below, few, same⟩ :=
    drain_spec (acc.buffer <<< 8 ||| byte.toUInt32) (acc.bits + 8) (by have := sound.few; omega)
  have masked : (absorb acc byte).2.buffer.toNat =
      (acc.buffer <<< 8 ||| byte.toUInt32).toNat % 2 ^ (absorb acc byte).2.bits := by
    have mask : ∀ k < 5, ((1 : UInt32) <<< UInt32.ofNat k - 1).toNat = 2 ^ k - 1 := by decide
    show ((acc.buffer <<< 8 ||| byte.toUInt32) &&& ((1 : UInt32) <<< UInt32.ofNat
      (drain (acc.buffer <<< 8 ||| byte.toUInt32) (acc.bits + 8)).2) - 1).toNat = _
    rw [UInt32.toNat_and, mask _ few, Nat.and_two_pow_sub_one_eq_mod]
    rfl
  refine ⟨⟨few, ?_⟩, digits, out, below, ?_⟩
  · rw [masked]
    exact Nat.mod_lt _ (Nat.two_pow_pos _)
  · rw [masked, Radix.bits_mod, ← Radix.bits_append _ _ _ _ byte.toNat_lt, ← sound.room, same]
    rfl

/-- **What has been let go of and what is left are the bits of all bytes.** -/
theorem absorbAll_spec (bytes : List UInt8) : ∀ {acc : Accumulator}, acc.Sound →
    (absorbAll acc bytes).2.Sound ∧ ∃ digits,
      (absorbAll acc bytes).1 = digits.map base32Digit ∧ (∀ d ∈ digits, d < 2 ^ 5) ∧
      Radix.bits acc.bits acc.buffer.toNat ++ Radix.allBits 8 (bytes.map UInt8.toNat) =
        Radix.allBits 5 digits ++
          Radix.bits (absorbAll acc bytes).2.bits (absorbAll acc bytes).2.buffer.toNat := by
  induction bytes with
  | nil =>
      intro acc sound
      exact ⟨sound, [], rfl, fun _ inside => (by cases inside), by simp [absorbAll]⟩
  | cons byte rest ih =>
      intro acc sound
      obtain ⟨sound', digits, out, below, same⟩ := absorb_spec sound byte
      obtain ⟨sound'', digits', out', below', same'⟩ := ih sound'
      refine ⟨sound'', digits ++ digits', ?_, ?_, ?_⟩
      · show (absorb acc byte).1 ++ (absorbAll (absorb acc byte).2 rest).1 = _
        rw [out, out', List.map_append]
      · intro d inside
        rcases List.mem_append.mp inside with first | later
        · exact below d first
        · exact below' d later
      · show _ = _ ++ Radix.bits (absorbAll (absorb acc byte).2 rest).2.bits _
        rw [List.map_cons, Radix.allBits_cons, ← List.append_assoc, same, List.append_assoc, same',
          Radix.allBits_append, List.append_assoc]
        rfl

theorem sound_start : Accumulator.Sound ⟨0, 0⟩ := ⟨by decide, by decide⟩

/-- The last digit is what is left, filled up. -/
theorem finish_spec {acc : Accumulator} (sound : acc.Sound) : ∃ digits,
    finish acc = digits.map base32Digit ∧ (∀ d ∈ digits, d < 2 ^ 5) ∧ ∃ missing < 5,
      Radix.allBits 5 digits =
        Radix.bits acc.bits acc.buffer.toNat ++ List.replicate missing false := by
  obtain ⟨buffer, bits⟩ := acc
  obtain ⟨few, clean⟩ := sound
  dsimp only at few clean
  unfold finish
  by_cases some : bits > 0
  · rw [if_pos some]
    have room : buffer.toNat * 2 ^ (5 - bits) < 2 ^ 5 := by
      have whole : 2 ^ bits * 2 ^ (5 - bits) = 2 ^ 5 := by
        rw [← Nat.pow_add, Nat.add_sub_cancel' (Nat.le_of_lt few)]
      rw [← whole]
      exact Nat.mul_lt_mul_of_pos_right clean (Nat.two_pow_pos _)
    have shifted : (buffer <<< UInt32.ofNat (5 - bits)).toNat = buffer.toNat * 2 ^ (5 - bits) := by
      rw [UInt32.toNat_shiftLeft, UInt32.toNat_ofNat',
        Nat.mod_eq_of_lt (by omega : 5 - bits < 2 ^ 32),
        Nat.mod_eq_of_lt (by omega : 5 - bits < 32), Nat.shiftLeft_eq]
      exact Nat.mod_eq_of_lt (by omega)
    refine ⟨[buffer.toNat * 2 ^ (5 - bits)], ?_, ?_, 5 - bits, by omega, ?_⟩
    · rw [toNat_mask, shifted, Nat.mod_eq_of_lt room]
      rfl
    · intro d inside
      rwa [List.mem_singleton.mp inside]
    · have split := Radix.bits_append bits (5 - bits) buffer.toNat 0 (Nat.two_pow_pos _)
      rw [Nat.add_sub_cancel' (Nat.le_of_lt few), Nat.add_zero, Radix.bits_zero] at split
      simpa using split
  · obtain rfl : bits = 0 := by omega
    exact ⟨[], rfl, fun _ inside => (by cases inside), 0, by decide, rfl⟩

/-- **The text has the digits of the bytes.** -/
theorem base32Lower_spec (bytes : List UInt8) : ∃ digits,
    Regroups 5 bytes digits ∧ base32Lower bytes = String.ofList (digits.map base32Digit) := by
  obtain ⟨sound, digits, out, below, same⟩ := absorbAll_spec bytes sound_start
  obtain ⟨digits', out', below', missing, less, same'⟩ := finish_spec sound
  refine ⟨digits ++ digits', ⟨fun d inside => ?_, missing, less, ?_⟩, ?_⟩
  · rcases List.mem_append.mp inside with first | later
    · exact below d first
    · exact below' d later
  · rw [Radix.allBits_append, same', ← List.append_assoc, ← same]
    rfl
  · show String.ofList ((absorbAll ⟨0, 0⟩ bytes).1 ++ finish (absorbAll ⟨0, 0⟩ bytes).2) = _
    rw [out, out', List.map_append]

theorem base32Lower_injective {bytes bytes' : List UInt8}
    (same : base32Lower bytes = base32Lower bytes') : bytes = bytes' := by
  obtain ⟨digits, regroups, text⟩ := base32Lower_spec bytes
  obtain ⟨digits', regroups', text'⟩ := base32Lower_spec bytes'
  rw [text, text'] at same
  have equal :=
    map_base32Digit_injOn regroups.small regroups'.small (String.ofList_injective same)
  exact regroups.bytes_unique (by decide) (equal ▸ regroups')

/-! ## What names are like -/

/-- The two prefixes. -/
def RecordMapping.front : RecordMapping → String
  | .transientRecord => namePrefix
  | .dexAuthCode => dexNamePrefix

variable {sha256 : List UInt8 → Bytes 32}

/-- A name is the prefix and 52 digits. -/
theorem RecordMapping.objectName_eq (mapping : RecordMapping) (key : String) : ∃ digits : List ℕ,
    digits.length = 52 ∧
      (mapping.objectName sha256 key).toList =
        mapping.front.toList ++ digits.map base32Digit := by
  obtain ⟨digits, regroups, text⟩ := base32Lower_spec (sha256 (utf8Bytes key)).val
  obtain ⟨missing, less, count⟩ := regroups.length_eq
  rw [(sha256 (utf8Bytes key)).property] at count
  refine ⟨digits, by omega, ?_⟩
  cases mapping with
  | transientRecord =>
      show (namePrefix ++ base32Lower _).toList = _
      rw [text, String.toList_append, String.toList_ofList]
      rfl
  | dexAuthCode =>
      show (dexNamePrefix ++ base32Lower _).toList = _
      rw [text, String.toList_append, String.toList_ofList]
      rfl

/-- A DNS label of 63 characters. -/
structure IsLabel (name : String) : Prop where
  length : name.toList.length = 63
  chars : ∀ c ∈ name.toList, isLabelChar c = true
  first : ∃ c, name.toList.head? = some c ∧ (c.isLower || c.isDigit) = true
  last : ∃ c, name.toList.getLast? = some c ∧ (c.isLower || c.isDigit) = true

theorem RecordMapping.isLabel (mapping : RecordMapping) (key : String) :
    IsLabel (mapping.objectName sha256 key) := by
  obtain ⟨digits, count, same⟩ := @objectName_eq sha256 mapping key
  have alnum {d : ℕ} : ((base32Digit d).isLower || (base32Digit d).isDigit) = true :=
    (alphabet_chars _ (base32Digit_mem d)).1
  have front : mapping.front.toList.length = 11 ∧
      (∀ c ∈ mapping.front.toList, isLabelChar c = true) ∧
      ∃ c, mapping.front.toList.head? = some c ∧ (c.isLower || c.isDigit) = true := by
    cases mapping with
    | transientRecord => exact ⟨by decide, by decide, 'o', by decide, by decide⟩
    | dexAuthCode => exact ⟨by decide, by decide, 'z', by decide, by decide⟩
  obtain ⟨eleven, chars, c, head, letter⟩ := front
  refine ⟨?_, ?_, ⟨c, ?_, letter⟩, ?_⟩
  · rw [same, List.length_append, List.length_map, eleven, count]
  · rw [same]
    intro c inside
    rcases List.mem_append.mp inside with before | digit
    · exact chars c before
    · obtain ⟨d, _, rfl⟩ := List.mem_map.mp digit
      unfold isLabelChar
      rw [alnum]
      rfl
  · rw [same, List.head?_append, head]
    rfl
  · obtain ⟨init, d, rfl⟩ : ∃ init d, digits = init ++ [d] :=
      ⟨digits.dropLast, digits.getLast (by rintro rfl; cases count),
        (List.dropLast_concat_getLast _).symm⟩
    refine ⟨base32Digit d, ?_, alnum⟩
    rw [same, List.map_append, ← List.append_assoc]
    exact List.getLast?_concat

/-- Before the place of the first other character, a text of `z` is behind every text of the
alphabet. -/
theorem before_of_not_prefix (rest : List Char) : ∀ (n : ℕ) (text : List Char),
    (∀ c ∈ text, c ∈ base32Alphabet) → ¬ List.replicate n 'z' <+: text →
      text.map asciiByte < (List.replicate n 'z' ++ rest).map asciiByte := by
  intro n
  induction n with
  | zero => exact fun text _ other => absurd List.nil_prefix other
  | succ n ih =>
      intro text chars other
      cases text with
      | nil => exact List.Lex.nil
      | cons c onward =>
          rcases (alphabet_chars c (chars c (List.mem_cons_self ..))).2.2 with rfl | less
          · refine List.Lex.cons
              (ih onward (fun c inside => chars c (List.mem_cons_of_mem _ inside)) ?_)
            intro starts
            exact other ((List.prefix_cons_inj 'z').mpr starts)
          · exact List.Lex.rel less

/-- **Names among the codes of Dex sort behind the codes of Dex.** -/
theorem sorts_before (key code : String) (chars : ∀ c ∈ code.toList, c ∈ base32Alphabet)
    (other : ¬ dexNamePrefix.toList <+: code.toList) :
    utf8Bytes code < utf8Bytes (RecordMapping.dexAuthCode.objectName sha256 key) := by
  obtain ⟨digits, _, same⟩ := @RecordMapping.objectName_eq sha256 .dexAuthCode key
  have zs : dexNamePrefix.toList = List.replicate 11 'z' := by decide +kernel
  have ascii {text : String} (plain : ∀ c ∈ text.toList, c.toNat < 128) :
      utf8Bytes text = text.toList.map asciiByte := by
    rw [← bytesOf_ascii plain, bytesOf, String.ofList_toList]
  rw [ascii fun c inside => (alphabet_chars c (chars c inside)).2.1, ascii, same]
  · show code.toList.map asciiByte < (dexNamePrefix.toList ++ _).map asciiByte
    rw [zs] at other ⊢
    exact before_of_not_prefix _ 11 _ chars other
  · rw [same]
    intro c inside
    rcases List.mem_append.mp inside with before | digit
    · have plain : ∀ c ∈ dexNamePrefix.toList, c.toNat < 128 := by decide +kernel
      exact plain c before
    · obtain ⟨d, _, rfl⟩ := List.mem_map.mp digit
      exact (alphabet_chars _ (base32Digit_mem d)).2.1

/-- The names of the store. -/
structure NamesKeys (sha256 : List UInt8 → Bytes 32) : Prop where
  /-- The text of some bytes is their base32, with digits of the lower-case alphabet. -/
  base32 : ∀ bytes, ∃ digits, Regroups 5 bytes digits ∧
    base32Lower bytes = String.ofList (digits.map base32Digit)
  /-- After any bytes the accumulator has room for another, and no bit is lost. -/
  accumulates : ∀ bytes, (absorbAll ⟨0, 0⟩ bytes).2.Sound ∧
    (∀ byte : UInt8, ((absorbAll ⟨0, 0⟩ bytes).2.buffer <<< 8 ||| byte.toUInt32).toNat =
      (absorbAll ⟨0, 0⟩ bytes).2.buffer.toNat * 2 ^ 8 + byte.toNat) ∧
    ∃ digits, (absorbAll ⟨0, 0⟩ bytes).1 = digits.map base32Digit ∧ (∀ d ∈ digits, d < 2 ^ 5) ∧
      Radix.allBits 8 (bytes.map UInt8.toNat) = Radix.allBits 5 digits ++
        Radix.bits (absorbAll ⟨0, 0⟩ bytes).2.bits (absorbAll ⟨0, 0⟩ bytes).2.buffer.toNat
  injective : ∀ bytes bytes', base32Lower bytes = base32Lower bytes' → bytes = bytes'
  /-- Keys without a collision among their hashes have different names. -/
  distinct : ∀ (mapping : RecordMapping) (keys : Set String),
    Set.InjOn (fun key => sha256 (utf8Bytes key)) keys →
      Set.InjOn (mapping.objectName sha256) keys
  label : ∀ (mapping : RecordMapping) key, IsLabel (mapping.objectName sha256 key)
  sorts : ∀ key code : String, code.toList.length = 25 → (∀ c ∈ code.toList, c ∈ base32Alphabet) →
    ¬ dexNamePrefix.toList <+: code.toList →
    utf8Bytes code < utf8Bytes (RecordMapping.dexAuthCode.objectName sha256 key) ∧
      code ≠ RecordMapping.dexAuthCode.objectName sha256 key

/-- **Store keys have valid, distinct names.** -/
theorem names_keys (sha256 : List UInt8 → Bytes 32) : NamesKeys sha256 where
  base32 := base32Lower_spec
  accumulates bytes := by
    obtain ⟨sound, digits, out, below, same⟩ := absorbAll_spec bytes sound_start
    exact ⟨sound, sound.room, digits, out, below, same⟩
  injective _ _ := base32Lower_injective
  distinct mapping keys injOn := by
    intro key inside key' inside' same
    refine injOn inside inside' (Subtype.ext (base32Lower_injective ?_))
    cases mapping with
    | transientRecord => exact (String.append_right_inj _).mp same
    | dexAuthCode => exact (String.append_right_inj _).mp same
  label mapping key := mapping.isLabel key
  sorts key code _ chars other := by
    have before := @sorts_before sha256 key code chars other
    refine ⟨before, ?_⟩
    rintro rfl
    exact List.lt_irrefl _ before

example : base32Lower (utf8Bytes "foobar") = "mzxw6ytboi" := by decide +kernel

end OAuthRelay.Kubernetes
