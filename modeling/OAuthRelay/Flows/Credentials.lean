import OAuthRelay.Flows.Callback
import OAuthRelay.Wire.Base64

/-!
# Basic credentials

The relay sends its own credentials upstream in a Basic header, and reads those of its clients
from one. Both credentials are form-encoded, so the colon between them is the first one, and the
two are written in base64.

The decoder is strict: a percent sign stands before two hexadecimal digits or the text is
refused, and so are bytes that are no UTF-8 (`formUrldecode_isSome_iff`). What one side of the
relay builds the other reads back (`basic_credentials`).
-/

set_option autoImplicit false

namespace OAuthRelay.Flows.Credentials

open OAuthRelay.Wire
open OAuthRelay.Wire.Codec (utf8Bytes fromUtf8 fromUtf8_utf8Bytes)

/-! ## What the libraries do -/

def plus : UInt8 := asciiByte '+'
def percent : UInt8 := asciiByte '%'
def space : UInt8 := asciiByte ' '
def colon : UInt8 := asciiByte ':'

/-- The base64 engine, the form encoder and the header type. -/
structure Encodings where
  /-- `STANDARD.encode` and `STANDARD.decode`. -/
  encode64 : List UInt8 → List UInt8
  decode64 : List UInt8 → Option (List UInt8)
  decode64_encode64 : ∀ bytes, decode64 (encode64 bytes) = some bytes
  /-- The text is of visible characters. -/
  visible64 : ∀ bytes, ∀ b ∈ encode64 bytes, 32 < b ∧ b < 127
  /-- `byte_serialize`, byte by byte. -/
  serializeByte : UInt8 → List UInt8
  serializeByte_plain : ∀ b, (b.toNat < 128 && isPlainByte b) = true → serializeByte b = [b]
  serializeByte_space : serializeByte space = [plus]
  serializeByte_other : ∀ b, (b.toNat < 128 && isPlainByte b) = false → b ≠ space →
    ∃ high low, serializeByte b = [percent, high, low] ∧ hexValue high = some (b.toNat / 16) ∧
      hexValue low = some (b.toNat % 16)
  /-- `HeaderValue::from_str`. -/
  headerValue : List UInt8 → Option (List UInt8)
  headerValue_visible : ∀ bytes, (∀ b ∈ bytes, 32 ≤ b ∧ b < 127) → headerValue bytes = some bytes

variable (lib : Encodings)

/-! ## Building and reading -/

def byteSerialize (text : String) : List UInt8 := (utf8Bytes text).flatMap lib.serializeByte

/-- `basic_authorization`; none where it would panic. -/
def basicAuthorization (clientId clientSecret : String) : Option (List UInt8) :=
  let credentials := byteSerialize lib clientId ++ colon :: byteSerialize lib clientSecret
  lib.headerValue (utf8Bytes "Basic " ++ lib.encode64 credentials)

/-- `to_ascii_lowercase`. -/
def asciiLower (b : UInt8) : UInt8 := if 65 ≤ b ∧ b ≤ 90 then b + 32 else b

/-- `basic_scheme`: what is after the scheme. -/
def basicScheme (value : List UInt8) : Option (List UInt8) :=
  if 5 ≤ value.length then
    let rest := value.drop 5
    if (value.take 5).map asciiLower = utf8Bytes "basic" ∧
        (rest.head?.all fun b => decide (b = space)) = true then
      some rest
    else none
  else none

/-- `is_ascii_whitespace`. -/
def isAsciiWhitespace (b : UInt8) : Bool := b = 9 || b = 10 || b = 12 || b = 13 || b = 32

/-- The loop of `form_urldecode`. -/
def unescape : List UInt8 → Option (List UInt8)
  | [] => some []
  | byte :: rest =>
      if byte = plus then (unescape rest).map (space :: ·)
      else if byte = percent then
        match rest with
        | high :: low :: rest' =>
            match hexValue high, hexValue low with
            | some high, some low =>
                (unescape rest').map (UInt8.ofNat (high * 16 + low) :: ·)
            | _, _ => none
        | _ => none
      else (unescape rest).map (byte :: ·)

def formUrldecode (input : List UInt8) : Option String := (unescape input).bind fromUtf8

/-- `parse_basic_credentials`. -/
def parseBasicCredentials (value : List UInt8) : Option (String × String) := do
  let rest ← basicScheme value
  let token ← if rest.head? = some space then some rest.tail else none
  let decoded ← lib.decode64 (token.dropWhile isAsciiWhitespace)
  let position ← decoded.findIdx? (· = colon)
  let id ← formUrldecode (decoded.take position)
  let secret ← formUrldecode (decoded.drop (position + 1))
  some (id, secret)

/-! ## What the decoder accepts -/

/-- The bytes that an escaped text stands for. -/
inductive Unescapes : List UInt8 → List UInt8 → Prop where
  | nil : Unescapes [] []
  | space {rest out : List UInt8} (onward : Unescapes rest out) :
      Unescapes (plus :: rest) (space :: out)
  | escape {high low : UInt8} {h l : ℕ} {rest out : List UInt8} (upper : hexValue high = some h)
      (lower : hexValue low = some l) (onward : Unescapes rest out) :
      Unescapes (percent :: high :: low :: rest) (UInt8.ofNat (h * 16 + l) :: out)
  | plain {byte : UInt8} {rest out : List UInt8} (no_plus : byte ≠ plus)
      (no_percent : byte ≠ percent) (onward : Unescapes rest out) :
      Unescapes (byte :: rest) (byte :: out)

/-- Every percent sign stands before two hexadecimal digits. -/
def Escaped (input : List UInt8) : Prop :=
  ∀ front rest, input = front ++ percent :: rest → ∃ high low rest',
    rest = high :: low :: rest' ∧ (hexValue high).isSome = true ∧ (hexValue low).isSome = true

theorem unescape_percent (high low : UInt8) (rest : List UInt8) :
    unescape (percent :: high :: low :: rest) = (hexValue high).bind fun h =>
      (hexValue low).bind fun l => (unescape rest).map (UInt8.ofNat (h * 16 + l) :: ·) := by
  rw [unescape, if_neg (by decide), if_pos rfl]
  cases hexValue high with
  | none => rfl
  | some h => cases hexValue low <;> rfl

theorem unescape_short {rest : List UInt8}
    (short : ∀ high low rest', rest = high :: low :: rest' → False) :
    unescape (percent :: rest) = none := by
  cases rest with
  | nil => rfl
  | cons high rest =>
      cases rest with
      | nil => rfl
      | cons low rest => exact absurd rfl (short high low rest)

theorem unescape_other {byte : UInt8} (other : byte ≠ percent) (rest : List UInt8) :
    unescape (byte :: rest) =
      (unescape rest).map ((if byte = plus then space else byte) :: ·) := by
  have front (read : Option (List UInt8)) :
      (if byte = plus then read.map (space :: ·) else read.map (byte :: ·)) =
        read.map ((if byte = plus then space else byte) :: ·) := by
    split <;> rfl
  rw [← front]
  rcases rest with _ | ⟨_, _ | ⟨_, _⟩⟩
  · simp only [unescape, other, if_false]
  · simp only [unescape, other, if_false]
  · rw [unescape]
    simp only [other, if_false]

theorem unescape_eq_some_iff {input out : List UInt8} :
    unescape input = some out ↔ Unescapes input out := by
  constructor
  · intro read
    induction input using unescape.induct generalizing out with
    | case1 =>
        cases read
        exact .nil
    | case2 rest ih =>
        rw [unescape_other (by decide)] at read
        obtain ⟨out', onward, rfl⟩ := Option.map_eq_some_iff.mp read
        exact .space (ih onward)
    | case3 high low rest h l lower upper _ ih =>
        rw [unescape_percent, upper, lower] at read
        obtain ⟨out', onward, rfl⟩ := Option.map_eq_some_iff.mp read
        exact .escape upper lower (ih onward)
    | case4 high low rest bad =>
        rw [unescape_percent] at read
        obtain ⟨h, upper, read⟩ := Option.bind_eq_some_iff.mp read
        obtain ⟨l, lower, _⟩ := Option.bind_eq_some_iff.mp read
        exact (bad h l upper lower).elim
    | case5 rest short =>
        rw [unescape_short short] at read
        cases read
    | case6 byte rest no_plus no_percent ih =>
        rw [unescape_other no_percent, if_neg no_plus] at read
        obtain ⟨out', onward, rfl⟩ := Option.map_eq_some_iff.mp read
        exact .plain no_plus no_percent (ih onward)
  · intro read
    induction read with
    | nil => rfl
    | space _ ih => rw [unescape_other (by decide), if_pos rfl, ih]; rfl
    | escape upper lower _ ih => rw [unescape_percent, upper, lower, ih]; rfl
    | plain no_plus no_percent _ ih => rw [unescape_other no_percent, if_neg no_plus, ih]; rfl

/-- A hexadecimal digit is no percent sign. -/
theorem ne_percent_of_hexValue {b : UInt8} {v : ℕ} (digit : hexValue b = some v) :
    b ≠ percent := by
  rintro rfl
  cases digit

theorem Escaped.tail {byte : UInt8} {rest : List UInt8} (escaped : Escaped (byte :: rest)) :
    Escaped rest := by
  rintro front onward rfl
  exact escaped (byte :: front) onward rfl

theorem Escaped.cons {byte : UInt8} {rest : List UInt8} (other : byte ≠ percent)
    (escaped : Escaped rest) : Escaped (byte :: rest) := by
  intro front onward same
  cases front with
  | nil => exact absurd (List.cons.inj same).1 other
  | cons _ front => exact escaped front onward (List.cons.inj same).2

/-- **A text stands for bytes when every percent sign is followed by two digits.** -/
theorem exists_unescapes_iff {input : List UInt8} :
    (∃ out, Unescapes input out) ↔ Escaped input := by
  constructor
  · rintro ⟨out, read⟩
    induction read with
    | nil => exact fun front rest same => absurd same (by simp)
    | space _ ih => exact ih.cons (by decide)
    | escape upper lower _ ih =>
        intro front rest same
        cases front with
        | nil =>
            cases same
            exact ⟨_, _, _, rfl, by rw [upper]; rfl, by rw [lower]; rfl⟩
        | cons _ front =>
            have onward := (ih.cons (ne_percent_of_hexValue lower)).cons
              (ne_percent_of_hexValue upper)
            exact onward front rest (List.cons.inj same).2
    | plain _ no_percent _ ih => exact ih.cons no_percent
  · intro escaped
    induction input using unescape.induct with
    | case1 => exact ⟨[], .nil⟩
    | case2 rest ih =>
        obtain ⟨out, read⟩ := ih escaped.tail
        exact ⟨_, .space read⟩
    | case3 high low rest h l lower upper _ ih =>
        obtain ⟨out, read⟩ := ih escaped.tail.tail.tail
        exact ⟨_, .escape upper lower read⟩
    | case4 high low rest bad =>
        obtain ⟨_, _, _, same, upper, lower⟩ := escaped [] _ rfl
        cases same
        obtain ⟨h, upper⟩ := Option.isSome_iff_exists.mp upper
        obtain ⟨l, lower⟩ := Option.isSome_iff_exists.mp lower
        exact (bad h l upper lower).elim
    | case5 rest short =>
        obtain ⟨_, _, _, same, _, _⟩ := escaped [] _ rfl
        exact (short _ _ _ same).elim
    | case6 byte rest no_plus no_percent ih =>
        obtain ⟨out, read⟩ := ih escaped.tail
        exact ⟨_, .plain no_plus no_percent read⟩

theorem fromUtf8_eq_some_iff {bytes : List UInt8} {text : String} :
    fromUtf8 bytes = some text ↔ bytes = utf8Bytes text := by
  constructor
  · intro read
    simp only [fromUtf8, String.fromUTF8?] at read
    split at read
    · cases read
      simp [utf8Bytes, String.fromUTF8]
    · cases read
  · rintro rfl
    exact fromUtf8_utf8Bytes text

theorem formUrldecode_eq_some_iff {input : List UInt8} {text : String} :
    formUrldecode input = some text ↔ Unescapes input (utf8Bytes text) := by
  rw [formUrldecode, Option.bind_eq_some_iff]
  constructor
  · rintro ⟨out, read, valid⟩
    rw [← fromUtf8_eq_some_iff.mp valid]
    exact unescape_eq_some_iff.mp read
  · exact fun read => ⟨_, unescape_eq_some_iff.mpr read, fromUtf8_utf8Bytes text⟩

/-- **The decoder accepts the well-escaped texts of UTF-8 and no others.** -/
theorem formUrldecode_isSome_iff (input : List UInt8) : (formUrldecode input).isSome = true ↔
    Escaped input ∧ ∀ out, Unescapes input out → ∃ text, out = utf8Bytes text := by
  rw [Option.isSome_iff_exists]
  constructor
  · rintro ⟨text, read⟩
    have read := formUrldecode_eq_some_iff.mp read
    refine ⟨exists_unescapes_iff.mp ⟨_, read⟩, fun out read' => ⟨text, ?_⟩⟩
    rw [← unescape_eq_some_iff] at read read'
    exact Option.some.inj (read'.symm.trans read)
  · rintro ⟨escaped, valid⟩
    obtain ⟨out, read⟩ := exists_unescapes_iff.mpr escaped
    obtain ⟨text, rfl⟩ := valid out read
    exact ⟨text, formUrldecode_eq_some_iff.mpr read⟩

/-! ## The round trip -/

section RoundTrip

variable {lib}

/-- A byte is read as it is written, and is written without a colon. -/
theorem serializeByte_spec (b : UInt8) {rest out : List UInt8} (onward : Unescapes rest out) :
    Unescapes (lib.serializeByte b ++ rest) (b :: out) ∧ colon ∉ lib.serializeByte b := by
  by_cases plain : (b.toNat < 128 && isPlainByte b) = true
  · rw [lib.serializeByte_plain b plain]
    have other {d : UInt8} (marked : (d.toNat < 128 && isPlainByte d) = false) : b ≠ d := by
      rintro rfl
      rw [plain] at marked
      cases marked
    refine ⟨.plain (other (by decide)) (other (by decide)) onward, ?_⟩
    rw [List.mem_singleton]
    exact (other (by decide)).symm
  · by_cases blank : b = space
    · rw [blank, lib.serializeByte_space]
      exact ⟨.space onward, by decide⟩
    · obtain ⟨high, low, written, upper, lower⟩ :=
        lib.serializeByte_other b (Bool.eq_false_iff.mpr plain) blank
      have noColon {d : UInt8} {v : ℕ} (digit : hexValue d = some v) : colon ≠ d := by
        rintro rfl
        cases digit
      rw [written]
      refine ⟨?_, ?_⟩
      · have read := Unescapes.escape upper lower onward
        rwa [Nat.div_add_mod', UInt8.ofNat_toNat] at read
      · simp only [List.mem_cons, List.not_mem_nil, or_false, not_or]
        exact ⟨by decide, noColon upper, noColon lower⟩

theorem byteSerialize_spec (text : String) :
    formUrldecode (byteSerialize lib text) = some text ∧ colon ∉ byteSerialize lib text := by
  have bytes (bytes : List UInt8) : Unescapes (bytes.flatMap lib.serializeByte) bytes ∧
      colon ∉ bytes.flatMap lib.serializeByte := by
    induction bytes with
    | nil => exact ⟨.nil, List.not_mem_nil⟩
    | cons b rest ih =>
        obtain ⟨read, plain⟩ := serializeByte_spec b ih.1
        rw [List.flatMap_cons]
        refine ⟨read, fun inside => ?_⟩
        rcases List.mem_append.mp inside with first | later
        · exact plain first
        · exact ih.2 later
  exact ⟨formUrldecode_eq_some_iff.mpr (bytes _).1, (bytes _).2⟩

/-- The colon between the credentials is the first one. -/
theorem findIdx?_colon {front : List UInt8} (plain : colon ∉ front) (back : List UInt8) :
    (front ++ colon :: back).findIdx? (· = colon) = some front.length := by
  induction front with
  | nil => rw [List.nil_append, List.findIdx?_cons, decide_eq_true rfl]; rfl
  | cons b rest ih =>
      have other : b ≠ colon := fun same => plain (same ▸ List.mem_cons_self ..)
      rw [List.cons_append, List.findIdx?_cons,
        ih fun inside => plain (List.mem_cons_of_mem _ inside)]
      simp [other]

/-- The scheme is in front of what is built. -/
theorem basicScheme_basic (token : List UInt8) :
    basicScheme (utf8Bytes "Basic " ++ token) = some (space :: token) := by
  have scheme : utf8Bytes "Basic " = [66, 97, 115, 105, 99, 32] := by decide +kernel
  have lower : utf8Bytes "basic" = [98, 97, 115, 105, 99] := by decide +kernel
  rw [scheme]
  unfold basicScheme
  rw [if_pos (by simp), lower]
  have named : [66, 97, 115, 105, 99].map asciiLower = [98, 97, 115, 105, 99] := by decide
  exact if_pos ⟨named, rfl⟩

/-- The text of base64 does not begin with a blank. -/
theorem trimmed_encode64 (bytes : List UInt8) :
    (lib.encode64 bytes).dropWhile isAsciiWhitespace = lib.encode64 bytes := by
  have visible := lib.visible64 bytes
  cases text : lib.encode64 bytes with
  | nil => rfl
  | cons b rest =>
      rw [text] at visible
      have above := (visible b (List.mem_cons_self ..)).1
      have blanks : ∀ d ≤ (32 : UInt8), ¬ 32 < d := fun d low high =>
        absurd (UInt8.lt_of_lt_of_le high low) (by decide)
      refine List.dropWhile_cons_of_neg fun blank => ?_
      simp only [isAsciiWhitespace, Bool.or_eq_true, decide_eq_true_eq] at blank
      rcases blank with (((rfl | rfl) | rfl) | rfl) | rfl
      all_goals exact absurd above (blanks _ (by decide))

/-- What is built is of visible characters and one space. -/
theorem visible_basic (bytes : List UInt8) :
    ∀ b ∈ utf8Bytes "Basic " ++ lib.encode64 bytes, 32 ≤ b ∧ b < 127 := by
  intro b inside
  rcases List.mem_append.mp inside with scheme | text
  · have visible : ∀ b ∈ utf8Bytes "Basic ", 32 ≤ b ∧ b < 127 := by decide +kernel
    exact visible b scheme
  · obtain ⟨above, below⟩ := lib.visible64 _ b text
    exact ⟨UInt8.le_of_lt above, below⟩

theorem parse_basicAuthorization (clientId clientSecret : String) : ∃ value,
    basicAuthorization lib clientId clientSecret = some value ∧
      parseBasicCredentials lib value = some (clientId, clientSecret) := by
  have ⟨(id : formUrldecode (byteSerialize lib clientId) = _), plain⟩ := byteSerialize_spec clientId
  have ⟨(secret : formUrldecode (byteSerialize lib clientSecret) = _), _⟩ :=
    byteSerialize_spec clientSecret
  refine ⟨_, lib.headerValue_visible _ (visible_basic _), ?_⟩
  have front : ((byteSerialize lib clientId ++ colon :: byteSerialize lib clientSecret).take
      (byteSerialize lib clientId).length) = byteSerialize lib clientId :=
    List.take_left
  have back : ((byteSerialize lib clientId ++ colon :: byteSerialize lib clientSecret).drop
      ((byteSerialize lib clientId).length + 1)) = byteSerialize lib clientSecret := by
    rw [← List.drop_drop, List.drop_left]
    rfl
  unfold parseBasicCredentials
  rw [basicScheme_basic]
  simp only [Option.bind_eq_bind, Option.bind_some, List.head?_cons, if_true, List.tail_cons,
    trimmed_encode64, lib.decode64_encode64, findIdx?_colon plain, front, back, id, secret]

theorem utf8Bytes_append (a b : String) : utf8Bytes (a ++ b) = utf8Bytes a ++ utf8Bytes b := by
  simp [utf8Bytes]

/-- What a server sends upstream is built so. -/
theorem basicAuthorization_of_server {server : Server}
    (serializes : ∀ text, utf8Bytes (server.byteSerialize text) = byteSerialize lib text)
    (encodes : ∀ bytes, utf8Bytes (server.base64 bytes) = lib.encode64 bytes)
    (clientId clientSecret : String) : basicAuthorization lib clientId clientSecret =
      some (utf8Bytes (Flows.basicAuthorization server clientId clientSecret)) := by
  have written : utf8Bytes ":" = [colon] := by decide +kernel
  rw [Flows.basicAuthorization, utf8Bytes_append, encodes, utf8Bytes_append, utf8Bytes_append,
    serializes, serializes, written, List.append_assoc, List.singleton_append]
  exact lib.headerValue_visible _ (visible_basic _)

end RoundTrip

/-- What the relay does with Basic credentials. -/
structure BasicCredentials (lib : Encodings) : Prop where
  /-- What one side builds the other reads. -/
  round_trip : ∀ clientId clientSecret, ∃ value,
    basicAuthorization lib clientId clientSecret = some value ∧
      parseBasicCredentials lib value = some (clientId, clientSecret)
  /-- The decoder accepts what is well escaped and stands for UTF-8, and reads it as that. -/
  decodes : ∀ input, ((formUrldecode input).isSome = true ↔
      Escaped input ∧ ∀ out, Unescapes input out → ∃ text, out = utf8Bytes text) ∧
    ∀ text, formUrldecode input = some text ↔ Unescapes input (utf8Bytes text)

/-- **Basic credentials round-trip, and the decoder is strict.** -/
theorem basic_credentials (lib : Encodings) : BasicCredentials lib where
  round_trip := parse_basicAuthorization
  decodes input := ⟨formUrldecode_isSome_iff input, fun _ => formUrldecode_eq_some_iff⟩

/-! ## The encodings of the web -/

/-- The standard alphabet as bytes. -/
def standardBytes : Base64.Alphabet UInt8 where
  symbols := Base64.standard.symbols.map asciiByte
  padding := asciiByte '='
  size := by decide +kernel
  distinct := by decide +kernel
  other := by decide +kernel

/-- **The encodings as they are documented.** -/
def webEncodings : Encodings where
  encode64 := Base64.encodePadded standardBytes
  decode64 := Base64.decodePadded standardBytes
  decode64_encode64 _ := Base64.decodePadded_eq_some_iff.mpr rfl
  visible64 bytes b inside := by
    have symbols : (standardBytes.symbols.all fun b => decide (32 < b ∧ b < 127)) = true := by
      decide +kernel
    rcases List.mem_append.mp inside with digit | filler
    · exact of_decide_eq_true (List.all_eq_true.mp symbols b (Base64.mem_of_encode b digit))
    · rw [(List.mem_replicate.mp filler).2]
      decide
  serializeByte b := (encodeByte b).map asciiByte
  serializeByte_plain b plain := by
    rw [encodeByte, if_pos plain, List.map_singleton,
      asciiByte_ofNat (of_decide_eq_true (Bool.and_eq_true_iff.mp plain).1)]
  serializeByte_space := by decide
  serializeByte_other b marked other := by
    have high := hexValue_hexDigit (div_sixteen_lt b)
    have low := hexValue_hexDigit (Nat.mod_lt b.toNat (by decide : 16 > 0))
    refine ⟨_, _, ?_, high.2.2.2.2, low.2.2.2.2⟩
    rw [encodeByte, if_neg (by rw [marked]; decide),
      if_neg (show ¬ b = asciiByte ' ' from other)]
    rfl
  headerValue bytes :=
    if (bytes.all fun b => decide (32 ≤ b ∧ b < 127)) = true then some bytes else none
  headerValue_visible _ visible :=
    if_pos (List.all_eq_true.mpr fun b inside => decide_eq_true (visible b inside))

example : (basicAuthorization webEncodings "a:é" "%+ ").bind (parseBasicCredentials webEncodings) =
    some ("a:é", "%+ ") := by
  decide +kernel

end OAuthRelay.Flows.Credentials
