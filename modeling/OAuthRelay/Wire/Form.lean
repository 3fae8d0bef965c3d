import OAuthRelay.Wire.Postcard

/-!
# Forms

A form is a list of pairs of a name and a value. As a text its pairs stand one after the other
with an ampersand between them, and what stands between two ampersands is one pair. The text is
ASCII and has no delimiters of a URL, so it can be the query of one.

A codec of forms is given by its parser and by the text of one pair, with the laws that connect
them (`FormCodec`). So the text of a form is read as that form, also where it is appended to
the text of another (`decode_foldl_append`). It has to be appended with an ampersand: without one
a pair is lost (`length_decode_lt`).

The codec of the web, `application/x-www-form-urlencoded`, satisfies the laws (`urlencoded`).
-/

set_option autoImplicit false

namespace OAuthRelay.Wire

open Codec (utf8Bytes fromUtf8 fromUtf8_utf8Bytes)

/-! ## Bytes of ASCII texts -/

/-- The byte of an ASCII character. -/
def asciiByte (c : Char) : UInt8 := UInt8.ofNat c.toNat

/-- The UTF-8 bytes of a list of characters. -/
def bytesOf (text : List Char) : List UInt8 := utf8Bytes (String.ofList text)

@[simp] theorem bytesOf_nil : bytesOf [] = [] := rfl

@[simp] theorem bytesOf_append (front back : List Char) :
    bytesOf (front ++ back) = bytesOf front ++ bytesOf back := by
  simp [bytesOf, utf8Bytes]

theorem bytesOf_singleton {c : Char} (ascii : c.toNat < 128) : bytesOf [c] = [asciiByte c] := by
  have size : c.utf8Size = 1 := by
    rw [Char.utf8Size_eq_one_iff, UInt32.le_iff_toNat_le]
    exact Nat.le_of_lt_succ ascii
  simp [bytesOf, utf8Bytes, List.utf8Encode_singleton, String.utf8EncodeChar_eq_singleton size]
  rfl

/-- **An ASCII text has a byte for every character.** -/
theorem bytesOf_ascii {text : List Char} (ascii : ∀ c ∈ text, c.toNat < 128) :
    bytesOf text = text.map asciiByte := by
  induction text with
  | nil => rfl
  | cons c rest ih =>
      have front := bytesOf_append [c] rest
      rw [List.singleton_append] at front
      rw [front, bytesOf_singleton (ascii c (List.mem_cons_self ..)),
        ih fun d inside => ascii d (List.mem_cons_of_mem _ inside)]
      rfl

theorem asciiByte_injOn {c d : Char} (ascii : c.toNat < 128) (ascii' : d.toNat < 128)
    (same : asciiByte c = asciiByte d) : c = d := by
  have values := congrArg UInt8.toNat same
  simp only [asciiByte, UInt8.toNat_ofNat'] at values
  rw [Nat.mod_eq_of_lt (by omega), Nat.mod_eq_of_lt (by omega)] at values
  exact Char.toNat_inj.mp values

/-! ## Codecs -/

/-- Pairs of a name and a value. -/
abbrev Pairs := List (String × String)

/-- A character of the text of a pair. -/
def isFormChar (c : Char) : Bool := c.isAlphanum || c ∈ ['*', '-', '.', '_', '+', '%', '=']

def ampersand : UInt8 := asciiByte '&'

/-- A codec of forms. -/
structure FormCodec where
  parse : List UInt8 → Pairs
  /-- The text of a pair. -/
  pair : String × String → List Char
  plain : ∀ p, ∀ c ∈ pair p, isFormChar c = true
  parse_nil : parse [] = []
  parse_pair : ∀ p, parse (bytesOf (pair p)) = [p]
  parse_append : ∀ front back, parse (front ++ ampersand :: back) = parse front ++ parse back
  /-- What stands between two ampersands is one pair. -/
  parse_single : ∀ bytes, bytes ≠ [] → ampersand ∉ bytes → (parse bytes).length = 1

namespace FormCodec

variable (form : FormCodec)

/-- The pairs of a text. -/
def decode (text : List Char) : Pairs := form.parse (bytesOf text)

/-- `append_pair` of a serializer, after what it has written. -/
def append (text : List Char) (p : String × String) : List Char :=
  if text = [] then form.pair p else text ++ '&' :: form.pair p

/-- The text of a form. -/
def serialize (pairs : Pairs) : List Char := pairs.foldl form.append []

variable {form}

@[simp] theorem decode_nil : form.decode [] = [] := form.parse_nil

@[simp] theorem decode_pair (p : String × String) : form.decode (form.pair p) = [p] :=
  form.parse_pair p

theorem pair_ne_nil (p : String × String) : form.pair p ≠ [] := by
  intro empty
  have read := form.decode_pair p
  rw [empty, decode_nil] at read
  cases read

theorem decode_append (front back : List Char) :
    form.decode (front ++ '&' :: back) = form.decode front ++ form.decode back := by
  have bytes : bytesOf (front ++ '&' :: back) = bytesOf front ++ ampersand :: bytesOf back := by
    have split := bytesOf_append ['&'] back
    rw [bytesOf_singleton (by decide), List.singleton_append] at split
    rw [bytesOf_append, split]
    rfl
  rw [decode, bytes]
  exact form.parse_append _ _

/-- **A pair that is appended is read last.** -/
theorem decode_append_pair (text : List Char) (p : String × String) :
    form.decode (form.append text p) = form.decode text ++ [p] := by
  unfold append
  split
  · rename_i empty
    rw [empty, decode_nil, decode_pair, List.nil_append]
  · rw [decode_append, decode_pair]

theorem decode_foldl_append (pairs : Pairs) (text : List Char) :
    form.decode (pairs.foldl form.append text) = form.decode text ++ pairs := by
  induction pairs generalizing text with
  | nil => rw [List.foldl_nil, List.append_nil]
  | cons p rest ih => rw [List.foldl_cons, ih, decode_append_pair, List.append_assoc]; rfl

/-- **A form is read as it is written.** -/
@[simp] theorem decode_serialize (pairs : Pairs) : form.decode (form.serialize pairs) = pairs := by
  rw [serialize, decode_foldl_append, decode_nil, List.nil_append]

/-! ## Pairs that run together -/

/-- A character of the text of a form is ASCII, and no ampersand unless it separates pairs. -/
theorem ascii_of_isFormChar {c : Char} (plain : isFormChar c = true) :
    c.toNat < 128 ∧ c ≠ '&' ∧ c ≠ '?' ∧ c ≠ '#' := by
  have others : ∀ d ∈ ['&', '?', '#'], isFormChar d = false := by
    intro d member
    simp only [List.mem_cons, List.not_mem_nil, or_false] at member
    rcases member with rfl | rfl | rfl
    all_goals decide
  have differs : ∀ d ∈ ['&', '?', '#'], c ≠ d := by
    rintro d known rfl
    rw [others c known] at plain
    cases plain
  refine ⟨?_, differs _ (by decide), differs _ (by decide), differs _ (by decide)⟩
  unfold isFormChar Char.isAlphanum Char.isAlpha Char.isUpper Char.isLower Char.isDigit at plain
  simp only [Bool.or_eq_true, Bool.and_eq_true, decide_eq_true_eq, List.mem_cons,
    List.not_mem_nil, or_false] at plain
  have below {d : Char} (le : c.val ≤ d.val) (small : d.toNat < 128) : c.toNat < 128 :=
    Nat.lt_of_le_of_lt (UInt32.le_iff_toNat_le.mp le) small
  rcases plain with ((⟨-, le⟩ | ⟨-, le⟩) | ⟨-, le⟩) | rfl | rfl | rfl | rfl | rfl | rfl | rfl
  · exact below (d := 'Z') le (by decide)
  · exact below (d := 'z') le (by decide)
  · exact below (d := '9') le (by decide)
  all_goals decide

theorem plain_foldl_append (pairs : Pairs) (text : List Char) :
    ∀ c ∈ pairs.foldl form.append text, c ∈ text ∨ isFormChar c = true ∨ c = '&' := by
  induction pairs generalizing text with
  | nil => exact fun c inside => .inl inside
  | cons p rest ih =>
      intro c inside
      rcases ih _ c inside with inside | plain
      · unfold append at inside
        split at inside
        · exact .inr (.inl (form.plain p c inside))
        · rcases List.mem_append.mp inside with inside | inside
          · exact .inl inside
          · rcases List.mem_cons.mp inside with rfl | inside
            · exact .inr (.inr rfl)
            · exact .inr (.inl (form.plain p c inside))
      · exact .inr plain

theorem foldl_append_of_ne_nil (pairs : Pairs) (front : List Char) {text : List Char}
    (nonempty : text ≠ []) :
    front ++ pairs.foldl form.append text = pairs.foldl form.append (front ++ text) := by
  induction pairs generalizing text with
  | nil => rfl
  | cons p rest ih =>
      have whole : form.append (front ++ text) p = front ++ form.append text p := by
        simp [append, nonempty]
      have nonempty' : form.append text p ≠ [] := by simp [append, nonempty]
      rw [List.foldl_cons, List.foldl_cons, whole, ih nonempty']

/-- What is after the last ampersand. -/
theorem exists_segment (text : List Char) :
    ∃ segment, '&' ∉ segment ∧ (text = segment ∨ ∃ front, text = front ++ '&' :: segment) := by
  induction text with
  | nil => exact ⟨[], List.not_mem_nil, .inl rfl⟩
  | cons c rest ih =>
      obtain ⟨segment, plain, rfl | ⟨front, rfl⟩⟩ := ih
      · by_cases separator : c = '&'
        · exact ⟨rest, plain, .inr ⟨[], by rw [separator]; rfl⟩⟩
        · refine ⟨c :: rest, fun inside => ?_, .inl rfl⟩
          rcases List.mem_cons.mp inside with same | inside
          · exact separator same.symm
          · exact plain inside
      · exact ⟨segment, plain, .inr ⟨c :: front, rfl⟩⟩

theorem length_decode_single {segment : List Char} (ascii : ∀ c ∈ segment, c.toNat < 128)
    (nonempty : segment ≠ []) (plain : '&' ∉ segment) : (form.decode segment).length = 1 := by
  rw [decode, bytesOf_ascii ascii]
  refine form.parse_single _ (mt List.map_eq_nil_iff.mp nonempty) fun inside => ?_
  obtain ⟨c, there, same⟩ := List.mem_map.mp inside
  rw [asciiByte_injOn (ascii c there) (by decide) same] at there
  exact plain there

/-- **Without an ampersand in front a pair that is appended runs into the last pair**, and there
is one pair less. -/
theorem length_decode_lt {text : List Char} (ascii : ∀ c ∈ text, c.toNat < 128)
    (nonempty : text ≠ []) (unseparated : text.getLast? ≠ some '&') {pairs : Pairs}
    (nonempty' : pairs ≠ []) :
    (form.decode (text ++ form.serialize pairs)).length < (form.decode text ++ pairs).length := by
  obtain ⟨p, rest, rfl⟩ := List.exists_cons_of_ne_nil nonempty'
  have whole : text ++ form.serialize (p :: rest) =
      rest.foldl form.append (text ++ form.pair p) :=
    foldl_append_of_ne_nil rest text (pair_ne_nil p)
  have text_pair : (form.decode (text ++ form.pair p)).length = (form.decode text).length := by
    -- The pair has become part of the last segment.
    obtain ⟨segment, plain, cases⟩ := exists_segment text
    have inside : ∀ c ∈ segment, c ∈ text := by
      intro c there
      rcases cases with rfl | ⟨front, rfl⟩
      · exact there
      · exact List.mem_append_right _ (List.mem_cons_of_mem _ there)
    have segment_nonempty : segment ≠ [] := by
      rintro rfl
      rcases cases with rfl | ⟨front, rfl⟩
      · exact nonempty rfl
      · exact unseparated List.getLast?_concat
    have joined : (form.decode (segment ++ form.pair p)).length = (form.decode segment).length := by
      rw [length_decode_single (fun c there => ascii c (inside c there)) segment_nonempty plain]
      refine length_decode_single ?_ (List.append_ne_nil_of_left_ne_nil segment_nonempty _) ?_
      · intro c there
        rcases List.mem_append.mp there with there | there
        · exact ascii c (inside c there)
        · exact (ascii_of_isFormChar (form.plain p c there)).1
      · intro there
        rcases List.mem_append.mp there with there | there
        · exact plain there
        · exact (ascii_of_isFormChar (form.plain p '&' there)).2.1 rfl
    rcases cases with rfl | ⟨front, rfl⟩
    · exact joined
    · have split : front ++ '&' :: segment ++ form.pair p =
          front ++ '&' :: (segment ++ form.pair p) := by simp
      rw [split, decode_append, decode_append, List.length_append, List.length_append, joined]
  rw [whole, decode_foldl_append, List.length_append, List.length_append, text_pair,
    List.length_cons]
  omega

end FormCodec

/-! ## Forms of the web -/

def hexDigit (value : ℕ) : Char := Char.ofNat (if value < 10 then 48 + value else 55 + value)

def hexValue (byte : UInt8) : Option ℕ :=
  let value := byte.toNat
  if 48 ≤ value ∧ value ≤ 57 then some (value - 48)
  else if 65 ≤ value ∧ value ≤ 70 then some (value - 55)
  else if 97 ≤ value ∧ value ≤ 102 then some (value - 87)
  else none

/-- A byte that is written as it is. -/
def isPlainByte (byte : UInt8) : Bool :=
  (Char.ofNat byte.toNat).isAlphanum || Char.ofNat byte.toNat ∈ ['*', '-', '.', '_']

def encodeByte (byte : UInt8) : List Char :=
  if byte.toNat < 128 && isPlainByte byte then [Char.ofNat byte.toNat]
  else if byte = asciiByte ' ' then ['+']
  else ['%', hexDigit (byte.toNat / 16), hexDigit (byte.toNat % 16)]

/-- `byte_serialize` of the bytes of a text. -/
def encodeText (text : String) : List Char := (utf8Bytes text).flatMap encodeByte

def percentDecode : List UInt8 → List UInt8
  | byte :: high :: low :: rest =>
      match hexValue high, hexValue low with
      | some h, some l =>
          if byte = asciiByte '%' then UInt8.ofNat (h * 16 + l) :: percentDecode rest
          else byte :: percentDecode (high :: low :: rest)
      | _, _ => byte :: percentDecode (high :: low :: rest)
  | bytes => bytes

def plusToSpace (byte : UInt8) : UInt8 := if byte = asciiByte '+' then asciiByte ' ' else byte

/-- The text of a part of a pair. Bytes that are no UTF-8 are left to `lossy`. -/
def decodeText (lossy : List UInt8 → String) (bytes : List UInt8) : String :=
  let bytes := percentDecode (bytes.map plusToSpace)
  (fromUtf8 bytes).getD (lossy bytes)

/-- The pair of a segment. -/
def readPair (lossy : List UInt8 → String) (segment : List UInt8) : String × String :=
  (decodeText lossy (segment.takeWhile (· ≠ asciiByte '=')),
    decodeText lossy (segment.dropWhile (· ≠ asciiByte '=')).tail)

def parseUrlencoded (lossy : List UInt8 → String) (bytes : List UInt8) : Pairs :=
  ((bytes.splitOn ampersand).filter (· ≠ [])).map (readPair lossy)

def urlencodedPair (p : String × String) : List Char := encodeText p.1 ++ '=' :: encodeText p.2

theorem hexValue_hexDigit {value : ℕ} (small : value < 16) :
    (hexDigit value).toNat < 128 ∧ isFormChar (hexDigit value) = true ∧ hexDigit value ≠ '=' ∧
      hexDigit value ≠ '+' ∧ hexValue (asciiByte (hexDigit value)) = some value := by
  revert value
  decide

theorem div_sixteen_lt (byte : UInt8) : byte.toNat / 16 < 16 := by
  have size := byte.toNat_lt_size
  rw [UInt8.size] at size
  omega

theorem percentDecode_cons {byte : UInt8} (other : byte ≠ asciiByte '%') (rest : List UInt8) :
    percentDecode (byte :: rest) = byte :: percentDecode rest := by
  match rest with
  | [] => rfl
  | [_] => rfl
  | high :: low :: rest =>
      rw [percentDecode]
      split
      · rw [if_neg other]
      · rfl

/-- What is written for a byte is ASCII without a delimiter. -/
theorem plain_encodeByte (byte : UInt8) :
    ∀ c ∈ encodeByte byte, isFormChar c = true ∧ c ≠ '=' := by
  intro c inside
  unfold encodeByte at inside
  split at inside
  · rename_i plain
    obtain rfl := List.mem_singleton.mp inside
    have plain := (Bool.and_eq_true_iff.mp plain).2
    refine ⟨?_, ?_⟩
    · rcases Bool.or_eq_true_iff.mp plain with alphanum | known
      · exact Bool.or_eq_true_iff.mpr (.inl alphanum)
      · exact Bool.or_eq_true_iff.mpr <| .inr <| decide_eq_true <|
          List.mem_append_left ['+', '%', '='] (of_decide_eq_true known)
    · intro same
      unfold isPlainByte at plain
      rw [same] at plain
      exact absurd plain (by decide)
  · split at inside
    · obtain rfl := List.mem_singleton.mp inside
      exact ⟨by decide, by decide⟩
    · have high := hexValue_hexDigit (div_sixteen_lt byte)
      have low := hexValue_hexDigit (Nat.mod_lt byte.toNat (by decide : 16 > 0))
      have cases : c = '%' ∨ c = hexDigit (byte.toNat / 16) ∨ c = hexDigit (byte.toNat % 16) := by
        simpa using inside
      rcases cases with rfl | rfl | rfl
      · exact ⟨by decide, by decide⟩
      · exact ⟨high.2.1, high.2.2.1⟩
      · exact ⟨low.2.1, low.2.2.1⟩

theorem asciiByte_ofNat {byte : UInt8} (ascii : byte.toNat < 128) :
    asciiByte (Char.ofNat byte.toNat) = byte := by
  have values : ∀ value < 128, (Char.ofNat value).toNat = value := by decide
  rw [asciiByte, values _ ascii, UInt8.ofNat_toNat]

/-- **A byte is read as it is written.** -/
theorem percentDecode_encodeByte (byte : UInt8) (rest : List UInt8) :
    percentDecode (((encodeByte byte).map asciiByte).map plusToSpace ++ rest) =
      byte :: percentDecode rest := by
  unfold encodeByte
  split
  · rename_i plain
    obtain ⟨ascii, plain⟩ := Bool.and_eq_true_iff.mp plain
    have byte' := asciiByte_ofNat (of_decide_eq_true ascii)
    have others : byte ≠ asciiByte '%' ∧ byte ≠ asciiByte '+' := by
      refine ⟨?_, ?_⟩ <;> rintro rfl <;> exact absurd plain (by decide)
    rw [List.map_singleton, List.map_singleton, byte', plusToSpace, if_neg others.2,
      List.singleton_append, percentDecode_cons others.1]
  · split
    · rename_i space
      rw [space]
      exact percentDecode_cons (by decide) rest
    · have high := hexValue_hexDigit (div_sixteen_lt byte)
      have low := hexValue_hexDigit (Nat.mod_lt byte.toNat (by decide : 16 > 0))
      have keeps {c : Char} (ascii : c.toNat < 128) (other : c ≠ '+') :
          plusToSpace (asciiByte c) = asciiByte c :=
        if_neg fun same => other (asciiByte_injOn ascii (by decide) same)
      simp only [List.map_cons, List.map_nil, List.cons_append, List.nil_append,
        keeps high.1 high.2.2.2.1, keeps low.1 low.2.2.2.1,
        keeps (c := '%') (by decide) (by decide)]
      rw [percentDecode, high.2.2.2.2, low.2.2.2.2]
      dsimp only
      rw [if_pos rfl, Nat.div_add_mod', UInt8.ofNat_toNat]

theorem decodeText_encodeText (lossy : List UInt8 → String) (text : String) :
    decodeText lossy ((encodeText text).map asciiByte) = text := by
  have bytes (bytes : List UInt8) : percentDecode
      (((bytes.flatMap encodeByte).map asciiByte).map plusToSpace) = bytes := by
    induction bytes with
    | nil => rfl
    | cons byte rest ih =>
        rw [List.flatMap_cons, List.map_append, List.map_append, percentDecode_encodeByte, ih]
  rw [decodeText, encodeText, bytes, fromUtf8_utf8Bytes, Option.getD_some]

/-! ## The laws -/

theorem plain_encodeText (text : String) :
    ∀ c ∈ encodeText text, isFormChar c = true ∧ c ≠ '=' := by
  intro c inside
  obtain ⟨byte, -, written⟩ := List.mem_flatMap.mp inside
  exact plain_encodeByte byte c written

theorem plain_urlencodedPair (p : String × String) :
    ∀ c ∈ urlencodedPair p, isFormChar c = true := by
  intro c inside
  rcases List.mem_append.mp inside with inside | inside
  · exact (plain_encodeText p.1 c inside).1
  · rcases List.mem_cons.mp inside with rfl | inside
    · decide
    · exact (plain_encodeText p.2 c inside).1

/-- What has no ampersand is one segment. -/
theorem parseUrlencoded_single (lossy : List UInt8 → String) {bytes : List UInt8}
    (nonempty : bytes ≠ []) (plain : ampersand ∉ bytes) :
    parseUrlencoded lossy bytes = [readPair lossy bytes] := by
  rw [parseUrlencoded, List.splitOn_eq_singleton plain,
    List.filter_cons_of_pos (by simpa using nonempty)]
  rfl

theorem readPair_urlencodedPair (lossy : List UInt8 → String) (p : String × String) :
    readPair lossy ((urlencodedPair p).map asciiByte) = p := by
  have before : ∀ byte ∈ (encodeText p.1).map asciiByte, byte ≠ asciiByte '=' := by
    rintro _ inside rfl
    obtain ⟨c, there, same⟩ := List.mem_map.mp inside
    have plain := plain_encodeText p.1 c there
    exact plain.2 (asciiByte_injOn (FormCodec.ascii_of_isFormChar plain.1).1 (by decide) same)
  have shape : (urlencodedPair p).map asciiByte =
      (encodeText p.1).map asciiByte ++ asciiByte '=' :: (encodeText p.2).map asciiByte := by
    rw [urlencodedPair, List.map_append, List.map_cons]
  rw [readPair, shape, List.takeWhile_append_of_pos (by simpa using before),
    List.dropWhile_append_of_pos (by simpa using before), List.takeWhile_cons_of_neg (by simp),
    List.dropWhile_cons_of_neg (by simp), List.append_nil, List.tail_cons, decodeText_encodeText,
    decodeText_encodeText]

/-- **The codec of the web.** -/
def urlencoded (lossy : List UInt8 → String) : FormCodec where
  parse := parseUrlencoded lossy
  pair := urlencodedPair
  plain := plain_urlencodedPair
  parse_nil := rfl
  parse_pair p := by
    have ascii c (inside : c ∈ urlencodedPair p) :=
      FormCodec.ascii_of_isFormChar (plain_urlencodedPair p c inside)
    rw [bytesOf_ascii fun c inside => (ascii c inside).1, parseUrlencoded_single,
      readPair_urlencodedPair]
    · simp [urlencodedPair]
    · intro inside
      obtain ⟨c, there, same⟩ := List.mem_map.mp inside
      exact (ascii c there).2.1 (asciiByte_injOn (ascii c there).1 (by decide) same)
  parse_append front back := by
    unfold parseUrlencoded
    rw [List.splitOn_append_cons_self, List.filter_append, List.map_append]
  parse_single bytes nonempty plain := by
    rw [parseUrlencoded_single lossy nonempty plain]
    rfl

example : (urlencoded fun _ => "").decode "a=b+c&&%64=%2B=%&e".toList =
    [("a", "b c"), ("d", "+=%"), ("e", "")] := by
  decide +kernel

end OAuthRelay.Wire
