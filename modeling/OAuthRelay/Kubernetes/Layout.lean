import OAuthRelay.Config.Resources
import OAuthRelay.Kubernetes.Names
import OAuthRelay.Kubernetes.Selectors
import OAuthRelay.Kubernetes.Store
import OAuthRelay.Wire.Base64
import OAuthRelay.Wire.Calendar

/-!
# How records are laid out

A record is an object of one of two resources: the relay's own `TransientRecord`, whose
specification has the key, the value and the expiry, or an `AuthCode` of Dex, where value
and expiry stand in the fields that Dex has for such things. Either way the value is text in
base64, the expiry is text by RFC 3339, and labels say who manages the object, in which hour
it expires, and what it is for.

`RecordMapping.meaning` is what the store reads of an object, whoever wrote it. The object
that is made of a record means the record (`meaning_encode`) and is one that an API server
accepts (`accepted_encode`), and the texts of the two selectors list the objects whose
meanings are asked for (`lists_text`).
-/

set_option autoImplicit false

namespace OAuthRelay.Kubernetes

open Codes (Bytes)
open Objects (Object)
open Wire.Calendar (Moment)

/-! ## Labels and times -/

/-- `MANAGED_BY_LABEL`. -/
def managedByLabel : String := "app.kubernetes.io/managed-by"

/-- `MANAGED_BY_VALUE`. -/
def managedByValue : String := "oauthrelay"

/-- `MANAGED_SELECTOR`. -/
def managedSelector : String := "app.kubernetes.io/managed-by=oauthrelay"

/-- `PURPOSE_LABEL`. -/
def purposeLabel : String := "oauthrelay.dev/purpose"

/-- `EXPIRES_HOUR_LABEL`. -/
def expiresHourLabel : String := "oauthrelay.dev/expires-hour"

/-- `purpose`: the first segment of the key, when it is a valid label value. -/
def purpose (key : String) : Option String :=
  let segment := key.toList.takeWhile (· ≠ ':')
  if segment ≠ [] ∧ segment.length ≤ 63 ∧
      (segment.all fun c => c.isAlphanum || c ∈ ['-', '_', '.']) = true ∧
      segment.head?.any Char.isAlphanum = true ∧ segment.getLast?.any Char.isAlphanum = true then
    some (String.ofList segment)
  else none

/-- `labels`. -/
def labels (key : String) (expiresAtMs : ℕ) : Labels :=
  [(managedByLabel, managedByValue), (expiresHourLabel, toString (expiryHour expiresAtMs))] ++
    ((purpose key).map fun purpose => (purposeLabel, purpose)).toList

/-- `expiry_selector`. -/
def expirySelector (hours : List ℕ) : String :=
  managedSelector ++ "," ++ expiresHourLabel ++ " in (" ++ ",".intercalate (hours.map toString) ++
    ")"

/-- The text of a selector. -/
def Selector.text : Selector → String
  | .managed => managedSelector
  | .expiry hours => expirySelector hours

/-- What is used of the libraries. Timestamps are milliseconds, which may be before 1970. -/
structure Libraries where
  /-- `strftime` with `%Y-%m-%dT%H:%M:%S%.3fZ`. -/
  strftime : ℕ → String
  /-- The instant of a text by RFC 3339. -/
  parse : String → Option ℤ
  /-- A name in an error. -/
  debug : String → String

/-- Moments with years of four digits are written and read by RFC 3339. -/
structure Libraries.Documented (lib : Libraries) : Prop where
  prints : ∀ m : Moment, m.Valid → m.year ≤ 9999 → lib.strftime m.instant = m.text
  reads : ∀ m : Moment, m.Valid → m.year ≤ 9999 → lib.parse m.text = some ↑m.instant

/-- The latest timestamp of the library. -/
def maxTimestampMs : ℕ := maxExpiryMillis + 999

/-- `format_time`. -/
def formatTime (lib : Libraries) (millis : ℕ) : Except String String :=
  if millis < 2 ^ 63 ∧ millis ≤ maxTimestampMs then .ok (lib.strftime millis)
  else .error "timestamp out of range"

/-- `parse_time`: instants before 1970 read as its beginning. -/
def parseTime (lib : Libraries) (text : String) : Option ℕ := (lib.parse text).map Int.toNat

/-! ## Objects -/

/-- `ApiResource`. -/
structure ApiResource where
  group : String
  version : String
  kind : String
  plural : String
  deriving DecidableEq

/-- `DynamicObject`. -/
structure DynamicObject where
  resource : ApiResource
  name : Option String
  home : Option String
  resourceVersion : Option ℕ
  labels : Option Labels
  data : Config.Value

/-- `TransientRecordSpec`. -/
structure TransientRecordSpec where
  key : String
  value : String
  expiresAt : String

def TransientRecordSpec.toValue (spec : TransientRecordSpec) : Config.Value :=
  .object [("key", .string spec.key), ("value", .string spec.value),
    ("expiresAt", .string spec.expiresAt)]

/-- `from_value`: other members are ignored, and an array has the fields in their order. -/
def TransientRecordSpec.fromValue : Config.Value → Option TransientRecordSpec
  | .array [.string key, .string value, .string expiresAt] => some ⟨key, value, expiresAt⟩
  | .object members => do
      let field := fun name => ((Config.Value.object members).get name).bind Config.Value.asStr
      return ⟨← field "key", ← field "value", ← field "expiresAt"⟩
  | _ => none

def standardEncode (bytes : List UInt8) : String :=
  String.ofList (Wire.Base64.encodePadded Wire.Base64.standard bytes)

def standardDecode (text : String) : Option (List UInt8) :=
  Wire.Base64.decodePadded Wire.Base64.standard text.toList

def urlSafeEncode (bytes : List UInt8) : String :=
  String.ofList (Wire.Base64.encode Wire.Base64.urlSafe bytes)

def dexClientId : String := "oauthrelay:transient-record"

def dexRedirectUri : String := "urn:oauthrelay:transient-record"

def dexConnectorId : String := "oauthrelay"

/-- A value, or the error about an object. -/
def orError {α : Type} (lib : Libraries) (name error : String) : Option α → Except String α
  | some a => .ok a
  | none => .error ("object " ++ lib.debug name ++ " " ++ error)

namespace RecordMapping

def all : List RecordMapping := [.transientRecord, .dexAuthCode]

def resourceName : RecordMapping → String
  | .transientRecord => "transientrecords.oauthrelay.dev"
  | .dexAuthCode => "authcodes.dex.coreos.com"

def fromResourceName (name : String) : Option RecordMapping :=
  all.find? fun mapping => mapping.resourceName = name

def apiResource : RecordMapping → ApiResource
  | .transientRecord => ⟨"oauthrelay.dev", "v1alpha1", "TransientRecord", "transientrecords"⟩
  | .dexAuthCode => ⟨"dex.coreos.com", "v1", "AuthCode", "authcodes"⟩

/-- The data of a record. The challenge is random. -/
def data (record : NewRecord (List UInt8)) (expiresAt : String) (challenge : Bytes 32) :
    RecordMapping → Config.Value
  | .transientRecord => .object [("spec",
      TransientRecordSpec.toValue ⟨record.key, standardEncode record.value, expiresAt⟩)]
  | .dexAuthCode => .object [("clientID", .string dexClientId),
      ("redirectURI", .string dexRedirectUri), ("connectorID", .string dexConnectorId),
      ("connectorData", .string (standardEncode record.value)), ("expiry", .string expiresAt),
      ("code_challenge", .string (urlSafeEncode challenge.val)),
      ("code_challenge_method", .string "S256")]

/-- `encode`. -/
def encode (lib : Libraries) (mapping : RecordMapping) (home : String)
    (record : NewRecord (List UInt8)) (challenge : Bytes 32) : Except String DynamicObject := do
  let expiresAt ← formatTime lib record.expiresAtMs
  return { resource := mapping.apiResource, name := some record.name, home := some home,
           resourceVersion := none, labels := some (labels record.key record.expiresAtMs),
           data := mapping.data record expiresAt challenge }

/-- The value and the expiry in the data of an object of this name. -/
def decodeData (lib : Libraries) (name : String) (data : Config.Value) :
    RecordMapping → Except String (List UInt8 × ℕ)
  | .transientRecord => do
      let spec ← orError lib name "has no spec" (data.get "spec")
      let spec ← orError lib name "has an invalid spec" (TransientRecordSpec.fromValue spec)
      let value ← orError lib name "has an invalid value" (standardDecode spec.value)
      let expires ← orError lib name "has an invalid expiresAt" (parseTime lib spec.expiresAt)
      return (value, expires)
  | .dexAuthCode => do
      let field := fun field => orError lib name ("has no " ++ field)
        ((data.get field).bind Config.Value.asStr)
      let value ← orError lib name "has an invalid connectorData"
        (standardDecode (← field "connectorData"))
      let expires ← orError lib name "has an invalid expiry" (parseTime lib (← field "expiry"))
      return (value, expires)

/-- `decode`. -/
def decode (lib : Libraries) (mapping : RecordMapping) (object : DynamicObject) :
    Except String (Stored (List UInt8)) :=
  match object.name with
  | none => .error "object has no name"
  | some name => do
      let version ← orError lib name "has no resourceVersion" object.resourceVersion
      let (value, expires) ← decodeData lib name object.data mapping
      return ⟨name, version, value, expires⟩

/-- An expiry label that the store could have written. -/
def readHour (text : String) : Option ℕ :=
  let hour := Nat.ofDigitChars 10 text.toList 0
  if toString hour = text then some hour else none

/-- What the store reads of an object. -/
def meaning (lib : Libraries) (mapping : RecordMapping) (object : DynamicObject) :
    Contents (List UInt8) where
  managed := decide ((object.labels.getD []).lookup managedByLabel = some managedByValue)
  expiresHour := ((object.labels.getD []).lookup expiresHourLabel).bind readHour
  record := (decodeData lib "" object.data mapping).toOption

end RecordMapping

/-- An object as a server delivers it: under its name, with its version. -/
def delivered (name : String) (object : Object DynamicObject) : DynamicObject :=
  { object.body with name := some name, resourceVersion := some object.version }

/-! ## Reading what was written -/

theorem resourceName_eq (mapping : RecordMapping) :
    mapping.resourceName = mapping.apiResource.plural ++ "." ++ mapping.apiResource.group := by
  cases mapping <;> decide

theorem fromResourceName_eq_some {name : String} {mapping : RecordMapping} :
    RecordMapping.fromResourceName name = some mapping ↔ name = mapping.resourceName := by
  constructor
  · intro found
    rw [RecordMapping.fromResourceName] at found
    have same := List.find?_some found
    exact (of_decide_eq_true same).symm
  · rintro rfl
    cases mapping <;> decide

theorem formatTime_eq {lib : Libraries} (documented : lib.Documented) {millis : ℕ}
    (small : millis ≤ maxExpiryMillis) : formatTime lib millis = .ok (Moment.of millis).text := by
  have early : (Moment.of millis).instant < 253402300800000 := by
    rw [Moment.instant_of]
    exact Nat.lt_of_le_of_lt small (by decide)
  have printed := documented.prints (Moment.of millis) (Moment.of_valid millis)
    (Moment.year_le_of_early early)
  rw [Moment.instant_of] at printed
  rw [formatTime, if_pos, printed]
  exact ⟨Nat.lt_of_le_of_lt small (by decide), Nat.le_trans small (Nat.le_add_right _ _)⟩

theorem parseTime_eq {lib : Libraries} (documented : lib.Documented) {millis : ℕ}
    (small : millis ≤ maxExpiryMillis) : parseTime lib (Moment.of millis).text = some millis := by
  have early : (Moment.of millis).instant < 253402300800000 := by
    rw [Moment.instant_of]
    exact Nat.lt_of_le_of_lt small (by decide)
  rw [parseTime, documented.reads (Moment.of millis) (Moment.of_valid millis)
    (Moment.year_le_of_early early), Moment.instant_of, Option.map_some, Int.toNat_natCast]

theorem standardDecode_encode (bytes : List UInt8) :
    standardDecode (standardEncode bytes) = some bytes := by
  rw [standardDecode, standardEncode, String.toList_ofList]
  exact Wire.Base64.decodePadded_eq_some_iff.mpr rfl

theorem toOption_orError {α : Type} (lib : Libraries) (name error : String) (a : Option α) :
    (orError lib name error a).toOption = a := by
  cases a <;> rfl

theorem toOption_bind {ε α β : Type} (x : Except ε α) (f : α → Except ε β) :
    (x >>= f).toOption = x.toOption.bind fun a => (f a).toOption := by
  cases x <;> rfl

/-- Only errors depend on the name. -/
theorem decodeData_name (lib : Libraries) (name : String) (data : Config.Value)
    (mapping : RecordMapping) : (mapping.decodeData lib name data).toOption =
      (mapping.decodeData lib "" data).toOption := by
  cases mapping <;> simp only [RecordMapping.decodeData, toOption_bind, toOption_orError]

/-- **An object that is delivered is read as its meaning.** -/
theorem decode_delivered (lib : Libraries) (mapping : RecordMapping) (name : String)
    (object : Object DynamicObject) :
    (mapping.decode lib (delivered name object)).toOption =
      decode name ⟨object.version, mapping.meaning lib object.body⟩ := by
  simp only [RecordMapping.decode, delivered, toOption_bind, toOption_orError, decodeData_name,
    Option.bind_some, decode, RecordMapping.meaning]
  cases (mapping.decodeData lib "" object.body.data).toOption <;> rfl

theorem get_spec (value : Config.Value) :
    (Config.Value.object [("spec", value)]).get "spec" = some value := rfl

theorem fromValue_toValue (spec : TransientRecordSpec) :
    TransientRecordSpec.fromValue spec.toValue = some spec := rfl

theorem decodeData_data {lib : Libraries} (documented : lib.Documented) (name : String)
    {record : NewRecord (List UInt8)} (small : record.expiresAtMs ≤ maxExpiryMillis)
    (challenge : Bytes 32) (mapping : RecordMapping) :
    mapping.decodeData lib name
        (mapping.data record (Moment.of record.expiresAtMs).text challenge) =
      .ok (record.value, record.expiresAtMs) := by
  cases mapping with
  | transientRecord =>
      simp only [RecordMapping.decodeData, RecordMapping.data, get_spec, fromValue_toValue, orError,
        bind, Except.bind, standardDecode_encode, parseTime_eq documented small, pure, Except.pure]
  | dexAuthCode =>
      have value : ((RecordMapping.dexAuthCode.data record (Moment.of record.expiresAtMs).text
          challenge).get "connectorData").bind Config.Value.asStr =
            some (standardEncode record.value) := rfl
      have expiry : ((RecordMapping.dexAuthCode.data record (Moment.of record.expiresAtMs).text
          challenge).get "expiry").bind Config.Value.asStr =
            some (Moment.of record.expiresAtMs).text := rfl
      simp only [RecordMapping.decodeData, value, expiry, orError, bind, Except.bind,
        standardDecode_encode, parseTime_eq documented small, pure, Except.pure]

theorem readHour_eq_some {text : String} {hour : ℕ} :
    RecordMapping.readHour text = some hour ↔ text = toString hour := by
  simp only [RecordMapping.readHour]
  constructor
  · intro read
    split at read
    · rename_i same
      rw [← Option.some.inj read, same]
    · cases read
  · rintro rfl
    have value : Nat.ofDigitChars 10 (toString hour).toList 0 = hour := by
      rw [Nat.toString_eq_ofList_toDigits, String.toList_ofList, Nat.ofDigitChars_ten_toDigits]
    rw [value, if_pos rfl]

theorem lookup_managedBy (key : String) (expiresAtMs : ℕ) :
    (labels key expiresAtMs).lookup managedByLabel = some managedByValue := rfl

theorem lookup_expiresHour (key : String) (expiresAtMs : ℕ) :
    (labels key expiresAtMs).lookup expiresHourLabel = some (toString (expiryHour expiresAtMs)) :=
  rfl

section Written

variable {lib : Libraries} (documented : lib.Documented)
variable {record : NewRecord (List UInt8)} (small : record.expiresAtMs ≤ maxExpiryMillis)
include documented small

/-- A record that a store writes can be laid out. -/
theorem encode_eq (mapping : RecordMapping) (home : String) (challenge : Bytes 32) :
    mapping.encode lib home record challenge =
      .ok { resource := mapping.apiResource, name := some record.name, home := some home,
            resourceVersion := none, labels := some (labels record.key record.expiresAtMs),
            data := mapping.data record (Moment.of record.expiresAtMs).text challenge } := by
  rw [RecordMapping.encode, formatTime_eq documented small]
  rfl

/-- **The object for a record means the record.** -/
theorem meaning_encode {mapping : RecordMapping} {home : String} {challenge : Bytes 32}
    {object : DynamicObject} (laid : mapping.encode lib home record challenge = .ok object) :
    mapping.meaning lib object = encode record := by
  rw [encode_eq documented small] at laid
  cases laid
  simp only [RecordMapping.meaning, Option.getD_some, lookup_managedBy, lookup_expiresHour,
    decide_true, Option.bind_some, readHour_eq_some.mpr rfl, decodeData_data documented _ small,
    Except.toOption, encode]

end Written

/-! ## What an API server accepts -/

/-- The value of a label. -/
structure IsLabelValue (text : String) : Prop where
  length : text.toList.length ≤ 63
  chars : ∀ c ∈ text.toList, (c.isAlphanum || c ∈ ['-', '_', '.']) = true
  first : text.toList.head?.any Char.isAlphanum = true
  last : text.toList.getLast?.any Char.isAlphanum = true

/-- The resource takes these data. The definition of `TransientRecord` bounds the length of
the key and asks for a time; Dex reads bytes in base64 and a time. -/
def RecordMapping.Takes (data : Config.Value) : RecordMapping → Prop
  | .transientRecord => ∃ spec : TransientRecordSpec, data.get "spec" = some spec.toValue ∧
      (1 ≤ spec.key.toList.length ∧ spec.key.toList.length ≤ 1024) ∧
      (∃ bytes, standardDecode spec.value = some bytes) ∧
      ∃ m : Moment, m.Valid ∧ spec.expiresAt = m.text
  | .dexAuthCode =>
      (data.get "clientID").bind Config.Value.asStr = some dexClientId ∧
      (∃ text bytes, (data.get "connectorData").bind Config.Value.asStr = some text ∧
        standardDecode text = some bytes) ∧
      (∃ m : Moment, m.Valid ∧ (data.get "expiry").bind Config.Value.asStr = some m.text) ∧
      (data.get "code_challenge_method").bind Config.Value.asStr = some "S256"

/-- The object is of the resource, its name and its labels are well formed, and the resource
takes its data. -/
structure Accepted (mapping : RecordMapping) (home name : String) (object : DynamicObject) :
    Prop where
  resource : object.resource = mapping.apiResource
  home : object.home = some home
  name : object.name = some name ∧ IsLabel name
  labels : ∃ labels, object.labels = some labels ∧ (labels.map Prod.fst).Nodup ∧
    ∀ label ∈ labels, IsLabelValue label.2
  data : mapping.Takes object.data

theorem length_le_utf8ByteSize (text : String) : text.toList.length ≤ text.utf8ByteSize := by
  have all (chars : List Char) : chars.length ≤ (String.ofList chars).utf8ByteSize := by
    induction chars with
    | nil => exact Nat.zero_le _
    | cons c chars ih =>
        rw [String.ofList_cons, String.utf8ByteSize_append, String.utf8ByteSize_singleton,
          List.length_cons]
        have := c.utf8Size_pos
        omega
  have whole := all text.toList
  rwa [String.ofList_toList] at whole

theorem length_of_validKey {key : String} (valid : validKey key = true) :
    1 ≤ key.toList.length ∧ key.toList.length ≤ 1024 := by
  simp only [validKey, Bool.and_eq_true, maxKeyBytes] at valid
  constructor
  · rw [Nat.one_le_iff_ne_zero, ne_eq, List.length_eq_zero_iff, String.toList_eq_nil_iff]
    rintro rfl
    exact absurd valid.1 (by decide)
  · exact Nat.le_trans (length_le_utf8ByteSize key) (of_decide_eq_true valid.2)

theorem isLabelValue_of_purpose {key text : String} (found : purpose key = some text) :
    IsLabelValue text := by
  simp only [purpose] at found
  split at found
  · rename_i valid
    cases found
    obtain ⟨_, short, chars, first, last⟩ := valid
    refine ⟨?_, ?_, ?_, ?_⟩ <;> rw [String.toList_ofList]
    · exact short
    · exact fun c inside => List.all_eq_true.mp chars c inside
    · exact first
    · exact last
  · cases found

theorem isLabelValue_of_digits {n : ℕ} (small : n < 10 ^ 63) : IsLabelValue (toString n) := by
  have digit {c : Char} (inside : c ∈ Nat.toDigits 10 n) : c.isAlphanum = true := by
    rw [Char.isAlphanum, Nat.isDigit_of_mem_toDigits (by decide) (by decide) inside, Bool.or_true]
  have some_digit : Nat.toDigits 10 n ≠ [] := Nat.toDigits_ne_nil
  refine ⟨?_, ?_, ?_, ?_⟩ <;> rw [Nat.toString_eq_ofList_toDigits, String.toList_ofList]
  · exact (Nat.length_toDigits_le_iff (by decide) (by decide)).mpr small
  · intro c inside
    rw [digit inside]
    rfl
  · rw [List.head?_eq_some_head some_digit]
    exact digit (List.head_mem some_digit)
  · rw [List.getLast?_eq_some_getLast some_digit]
    exact digit (List.getLast_mem some_digit)

/-- **The object for a record is one that an API server accepts.** -/
theorem accepted_encode {lib : Libraries} (documented : lib.Documented)
    {sha256 : List UInt8 → Bytes 32} {mapping : RecordMapping}
    {record : NewRecord (List UInt8)} (small : record.expiresAtMs ≤ maxExpiryMillis)
    (valid : validKey record.key = true)
    (named : record.name = mapping.objectName sha256 record.key) {home : String}
    {challenge : Bytes 32} {object : DynamicObject}
    (laid : mapping.encode lib home record challenge = .ok object) :
    Accepted mapping home record.name object := by
  rw [encode_eq documented small] at laid
  cases laid
  have hour : expiryHour record.expiresAtMs < 10 ^ 63 :=
    Nat.lt_of_le_of_lt (Nat.div_le_self _ _) (Nat.lt_of_le_of_lt small (by decide))
  have time : ∃ m : Moment, m.Valid ∧ (Moment.of record.expiresAtMs).text = m.text :=
    ⟨_, Moment.of_valid _, rfl⟩
  refine ⟨rfl, rfl, ⟨rfl, named ▸ mapping.isLabel record.key⟩, ⟨_, rfl, ?_, ?_⟩, ?_⟩
  · unfold labels
    cases purpose record.key with
    | none =>
        have distinct : [managedByLabel, expiresHourLabel].Nodup := by decide
        exact distinct
    | some =>
        have distinct : [managedByLabel, expiresHourLabel, purposeLabel].Nodup := by decide
        exact distinct
  · intro label inside
    simp only [labels, List.mem_append, List.mem_cons, List.not_mem_nil, or_false,
      Option.mem_toList, Option.map_eq_some_iff] at inside
    rcases inside with (rfl | rfl) | ⟨text, found, rfl⟩
    · exact ⟨by decide, by decide, by decide, by decide⟩
    · exact isLabelValue_of_digits hour
    · exact isLabelValue_of_purpose found
  · cases mapping with
    | transientRecord =>
        exact ⟨_, rfl, length_of_validKey valid, ⟨_, standardDecode_encode _⟩, time⟩
    | dexAuthCode =>
        obtain ⟨m, sound, same⟩ := time
        exact ⟨rfl, ⟨_, _, rfl, standardDecode_encode _⟩, ⟨m, sound, congrArg some same⟩, rfl⟩

/-! ## Selectors -/

theorem managedSelector_eq :
    managedSelector = selectorText (.equals managedByLabel managedByValue) [] := by
  decide +kernel

theorem expirySelector_eq (hour : ℕ) (hours : List ℕ) :
    expirySelector (hour :: hours) = selectorText (.equals managedByLabel managedByValue)
      [.among expiresHourLabel (toString hour) (hours.map toString)] := by
  have values : ∀ (first : String) (rest : List String),
      (",".intercalate (first :: rest)).toList ++ [')'] = Requirement.valueChars first rest := by
    intro first rest
    induction rest generalizing first with
    | nil => rw [String.intercalate_singleton, Requirement.valueChars]
    | cons second rest ih =>
        rw [String.intercalate_cons_cons, Requirement.valueChars, ← ih second]
        simp
  refine String.toList_injective ?_
  rw [selectorText, String.toList_ofList, expirySelector, String.toList_append,
    String.toList_append, List.append_assoc, List.map_cons]
  have closing : ")".toList = [')'] := rfl
  rw [closing, values]
  simp only [selectorChars, Requirement.chars, managedSelector_eq, selectorText]
  simp [String.toList_append]

theorem isName_digits (n : ℕ) : IsName (toString n) := by
  intro c inside
  rw [Nat.toString_eq_ofList_toDigits, String.toList_ofList] at inside
  rw [isNameChar, Char.isAlphanum, Nat.isDigit_of_mem_toDigits (by decide) (by decide) inside]
  simp

/-- **The texts of selectors list the objects whose meanings are asked for.** -/
theorem lists_text {lists : Lister} (documented : lists.Documented) (lib : Libraries)
    (mapping : RecordMapping) (object : DynamicObject) {selector : Selector}
    (named : ∀ hours, selector = .expiry hours → hours ≠ []) :
    lists selector.text (object.labels.getD []) = selector.lists (mapping.meaning lib object) := by
  have managed : (Requirement.equals managedByLabel managedByValue).WellFormed :=
    ⟨by unfold IsName; decide, by unfold IsName; decide⟩
  cases selector with
  | managed =>
      rw [Selector.text, managedSelector_eq, documented _ _ (by simpa using managed)]
      simp only [List.all_cons, List.all_nil, Bool.and_true, Requirement.Holds, Selector.lists,
        RecordMapping.meaning]
  | expiry hours =>
      obtain ⟨hour, hours, rfl⟩ := List.exists_cons_of_ne_nil (named hours rfl)
      have within : (Requirement.among expiresHourLabel (toString hour)
          (hours.map toString)).WellFormed := by
        refine ⟨by unfold IsName; decide, fun value inside => ?_⟩
        rw [← List.map_cons] at inside
        obtain ⟨n, _, rfl⟩ := List.mem_map.mp inside
        exact isName_digits n
      rw [Selector.text, expirySelector_eq, documented _ _ (by simpa using ⟨managed, within⟩)]
      simp only [List.all_cons, List.all_nil, Bool.and_true, Requirement.Holds, Selector.lists,
        RecordMapping.meaning]
      congr 1
      cases (object.labels.getD []).lookup expiresHourLabel with
      | none => rfl
      | some text =>
          simp only [Option.any_some, Option.bind_some, ← List.map_cons]
          cases read : RecordMapping.readHour text with
          | none =>
              refine decide_eq_false fun inside => ?_
              obtain ⟨n, _, rfl⟩ := List.mem_map.mp inside
              rw [readHour_eq_some.mpr rfl] at read
              cases read
          | some n =>
              rw [readHour_eq_some.mp read, Option.any_some]
              refine decide_eq_decide.mpr (List.mem_map_of_injective ?_)
              intro a b same
              exact Option.some.inj ((readHour_eq_some.mpr rfl).symm.trans
                (readHour_eq_some.mpr same))

end OAuthRelay.Kubernetes
