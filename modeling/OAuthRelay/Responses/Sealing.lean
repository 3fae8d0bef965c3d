import OAuthRelay.Responses.Modes
import OAuthRelay.Wire.Object

/-!
# No refresh token gets through

Sealed mode promises that a client never sees the upstream's refresh token. For a body that is
a JSON object this is a statement about its members: one that is named `refresh_token`, however
the name is spelled, and has a string for a value comes out with a handle instead.

The library keeps the raw text of a value, and the token is the text that a value stands for. A
string with half a surrogate pair stands for none, and so does a name. What the response must
be like for the promise to be kept is `Sealable`.
-/

set_option autoImplicit false

namespace OAuthRelay.Responses

open OAuthRelay.Codes (HandleError SubstitutionError utf8Bytes_injective)
open OAuthRelay.Wire.Json
open OAuthRelay.Wire.Codec (utf8Bytes)

/-! ## The JSON library on an object -/

def bytes (object : Object) : List UInt8 := utf8Bytes (String.ofList object.text)

/-- The names that are meant, with the raw values. A name that stands for no text is an error. -/
def namedMembers : List Member → Option Members
  | [] => some []
  | member :: rest =>
      match decode member.name, namedMembers rest with
      | some name, some rest => some ((name, String.ofList member.value) :: rest)
      | _, _ => none

/-- A member as a serializer writes it. -/
def compact (member : String × String) : Member where
  before := .none
  name := member.1.toList.map Piece.ofChar
  beforeColon := .none
  item := ⟨.none, member.2.toList, .none⟩

/-- An object as a serializer writes it. -/
def printed (members : Members) : List Char :=
  '{' :: container Member.text .none '}' (members.map compact)

/-- What the library makes of an object, and how it prints. -/
structure Reads (json : SerdeJson) (object : Object) : Prop where
  members : json.members (bytes object) = namedMembers object.members
  string : ∀ member ∈ object.members, ∀ pieces, member.value = literal pieces →
    json.decodeString (String.ofList member.value) = decode pieces
  other : ∀ member ∈ object.members, (∀ pieces, member.value ≠ literal pieces) →
    json.decodeString (String.ofList member.value) = none
  encodes : ∀ text, json.encodeString text = some (String.ofList (quote text))
  prints : ∀ members, json.toVec members = some (utf8Bytes (String.ofList (printed members)))

/-! ## What is promised -/

/-- The member is named `refresh_token` and is a string that is not empty. -/
def IsToken (member : Member) : Prop :=
  decode member.name = some refreshTokenMember ∧
    ∃ pieces, member.value = literal pieces ∧ pieces ≠ []

/-- A token has become a handle, and any other member has its raw value. -/
structure Handled (sealHandle : ℕ → String → Except HandleError String)
    (member member' : Member) : Prop where
  name : decode member'.name = decode member.name
  replaced : IsToken member → ∃ n token handle, sealHandle n token = .ok handle ∧
    member'.value = quote handle
  kept : ¬ IsToken member → member'.value = member.value

/-- The output is an object with these members, each of them handled. -/
def Protects (sealHandle : ℕ → String → Except HandleError String) (object : Object)
    (output : List UInt8) : Prop :=
  ∃ result : Object, output = bytes result ∧
    List.Forall₂ (Handled sealHandle) object.members result.members

/-- **Whatever the sealer does, a response that is passed on has no token in it.** -/
def NeverLeaks (json : SerdeJson) (status : ℕ) (object : Object) : Prop :=
  ∀ sealHandle sealed, sealTokenResponse json sealHandle status (bytes object) = .ok sealed →
    Protects sealHandle object (sealed.getD (bytes object))

/-- All names stand for texts, and so do the tokens. Or a name does not, and then the body is
refused, or there is no token. -/
def Sealable (object : Object) : Prop :=
  ((∀ member ∈ object.members, (decode member.name).isSome = true) ∧
    ∀ member ∈ object.members, decode member.name = some refreshTokenMember →
      ∀ pieces, member.value = literal pieces → (decode pieces).isSome = true) ∨
  ((∃ member ∈ object.members, decode member.name = none) ∧
    (namesRefreshToken (bytes object) = true ∨ ∀ member ∈ object.members, ¬ IsToken member))

/-! ## Texts that literals stand for -/

theorem decodeFrom_ne_nil : ∀ {half : Option ℕ} {pieces : List Piece},
    (half.isSome = true ∨ pieces ≠ []) → decodeFrom half pieces ≠ some [] := by
  intro half pieces
  induction pieces generalizing half with
  | nil =>
      intro nonempty
      cases half with
      | none => simp at nonempty
      | some => simp [decodeFrom]
  | cons piece rest ih =>
      intro _
      cases half with
      | none =>
          cases piece with
          | plain => simp [decodeFrom]
          | escape => simp [decodeFrom]
          | unicode =>
              unfold decodeFrom
              split
              · exact ih (.inl rfl)
              · split <;> simp
      | some =>
          cases piece with
          | plain => simp [decodeFrom]
          | escape => simp [decodeFrom]
          | unicode =>
              unfold decodeFrom
              split <;> simp

/-- A literal that is not empty stands for no empty text. -/
theorem nonempty_of_decode {pieces : List Piece} {text : String} (nonempty : pieces ≠ [])
    (decoded : decode pieces = some text) : text ≠ "" := by
  rintro rfl
  obtain ⟨chars, found, same⟩ := Option.map_eq_some_iff.mp decoded
  have empty : chars = [] := by simpa using same
  subst empty
  exact decodeFrom_ne_nil (.inr nonempty) found

theorem literal_injective {pieces pieces' : List Piece} (same : literal pieces = literal pieces') :
    pieces = pieces' :=
  literal_framing.injective trivial trivial same

theorem bytes_injective {object object' : Object} (same : bytes object = bytes object') :
    object.members = object'.members :=
  Object.members_unique (String.ofList_injective (utf8Bytes_injective same))

/-! ## The members that are read -/

variable {json : SerdeJson} {object : Object}
  {sealHandle : ℕ → String → Except HandleError String}

/-- The library has read the member. -/
def Named (member : Member) (read : String × String) : Prop :=
  decode member.name = some read.1 ∧ read.2 = String.ofList member.value

theorem named_of_namedMembers : ∀ {members : List Member} {read : Members},
    namedMembers members = some read → List.Forall₂ Named members read := by
  intro members
  induction members with
  | nil =>
      intro read named
      cases named
      exact .nil
  | cons member rest ih =>
      intro read named
      unfold namedMembers at named
      split at named
      · rename_i name rest' decoded named'
        cases named
        exact .cons ⟨decoded, rfl⟩ (ih named')
      · cases named

theorem namedMembers_isSome : ∀ {members : List Member},
    (namedMembers members).isSome = true ↔
      ∀ member ∈ members, (decode member.name).isSome = true := by
  intro members
  induction members with
  | nil => simp [namedMembers]
  | cons member rest ih =>
      rw [List.forall_mem_cons, ← ih]
      cases first : decode member.name with
      | none => simp [namedMembers, first]
      | some name => cases others : namedMembers rest <;> simp [namedMembers, first, others]

/-- The token of a member is the text that its value stands for. -/
theorem usableToken_iff (reads : Reads json object) {member : Member}
    (inside : member ∈ object.members) {read : String × String} (named : Named member read)
    {token : String} : usableToken json read = some token ↔
      decode member.name = some refreshTokenMember ∧ token ≠ "" ∧
        ∃ pieces, member.value = literal pieces ∧ decode pieces = some token := by
  obtain ⟨name, value⟩ := named
  unfold usableToken
  rw [name, value]
  constructor
  · intro usable
    split at usable
    · rename_i same
      obtain ⟨decoded, nonempty⟩ := Option.filter_eq_some_iff.mp usable
      by_cases isString : ∃ pieces, member.value = literal pieces
      · obtain ⟨pieces, written⟩ := isString
        rw [reads.string member inside pieces written] at decoded
        exact ⟨congrArg some same, by simpa using nonempty, pieces, written, decoded⟩
      · rw [reads.other member inside fun pieces written => isString ⟨pieces, written⟩] at decoded
        cases decoded
    · cases usable
  · rintro ⟨same, nonempty, pieces, written, decoded⟩
    rw [if_pos (Option.some.inj same), reads.string member inside pieces written, decoded]
    exact Option.filter_some_pos (by simpa using nonempty)

theorem isToken_of_usable (reads : Reads json object) {member : Member}
    (inside : member ∈ object.members) {read : String × String} (named : Named member read)
    {token : String} (usable : usableToken json read = some token) : IsToken member := by
  obtain ⟨name, nonempty, pieces, written, decoded⟩ :=
    (usableToken_iff reads inside named).mp usable
  refine ⟨name, pieces, written, ?_⟩
  rintro rfl
  exact nonempty (Option.some.inj decoded).symm

/-! ## The members that are printed -/

/-- What sealing makes of a member. -/
structure Sealed (json : SerdeJson) (sealHandle : ℕ → String → Except HandleError String)
    (read sealed : String × String) : Prop where
  name : sealed.1 = read.1
  kept : usableToken json read = none → sealed.2 = read.2
  replaced : ∀ token, usableToken json read = some token → ∃ n handle,
    sealHandle n token = .ok handle ∧ json.encodeString handle = some sealed.2

theorem sealed_of_sealMembers : ∀ {n : ℕ} {read sealed : Members} {replaced : Bool},
    sealMembers json sealHandle n read = .ok (replaced, sealed) →
    List.Forall₂ (Sealed json sealHandle) read sealed ∧
      (replaced = false → ∀ member ∈ read, usableToken json member = none) := by
  intro n read
  induction read generalizing n with
  | nil =>
      intro sealed replaced result
      cases result
      exact ⟨.nil, fun _ _ inside => absurd inside List.not_mem_nil⟩
  | cons member rest ih =>
      intro sealed replaced result
      unfold sealMembers at result
      split at result
      · rename_i unusable
        split at result
        · cases result
        · rename_i replaced' rest' result'
          cases result
          obtain ⟨parts, untouched⟩ := ih result'
          refine ⟨.cons ⟨rfl, fun _ => rfl, ?_⟩ parts, ?_⟩
          · intro token usable
            rw [unusable] at usable
            cases usable
          · exact fun none => List.forall_mem_cons.mpr ⟨unusable, untouched none⟩
      · rename_i token usable
        repeat' split at result
        · cases result
        · cases result
        · cases result
        · rename_i handle works _ value encoded _ _ rest' result'
          cases result
          refine ⟨.cons ⟨rfl, ?_, ?_⟩ (ih result').1, fun same => by cases same⟩
          · intro unusable
            rw [usable] at unusable
            cases unusable
          · intro token' usable'
            obtain rfl := Option.some.inj (usable.symm.trans usable')
            exact ⟨n, handle, works, encoded⟩

/-! ## A sealable response -/

theorem token_decodes {member : Member} (inside : member ∈ object.members)
    (tokens : ∀ member ∈ object.members, decode member.name = some refreshTokenMember →
      ∀ pieces, member.value = literal pieces → (decode pieces).isSome = true)
    (isToken : IsToken member) : ∃ pieces token, member.value = literal pieces ∧
      decode pieces = some token ∧ token ≠ "" := by
  obtain ⟨name, pieces, written, nonempty⟩ := isToken
  obtain ⟨token, decoded⟩ :=
    Option.isSome_iff_exists.mp (tokens member inside name pieces written)
  exact ⟨pieces, token, written, decoded, nonempty_of_decode nonempty decoded⟩

/-- **A member that is read and sealed is handled.** -/
theorem handled_of_sealed (reads : Reads json object)
    (tokens : ∀ member ∈ object.members, decode member.name = some refreshTokenMember →
      ∀ pieces, member.value = literal pieces → (decode pieces).isSome = true)
    {member : Member} (inside : member ∈ object.members) {read sealed : String × String}
    (named : Named member read) (part : Sealed json sealHandle read sealed) :
    Handled sealHandle member (compact sealed) where
  name := by
    change decode (sealed.1.toList.map Piece.ofChar) = _
    rw [decode_quoted, part.name, named.1]
  replaced isToken := by
    obtain ⟨pieces, token, written, decoded, nonempty⟩ := token_decodes inside tokens isToken
    have usable := (usableToken_iff reads inside named).mpr
      ⟨isToken.1, nonempty, pieces, written, decoded⟩
    obtain ⟨n, handle, works, encoded⟩ := part.replaced token usable
    rw [reads.encodes] at encoded
    refine ⟨n, token, handle, works, ?_⟩
    change sealed.2.toList = _
    rw [← Option.some.inj encoded, String.toList_ofList]
  kept other := by
    have unusable : usableToken json read = none :=
      Option.eq_none_iff_forall_ne_some.mpr fun token usable =>
        other (isToken_of_usable reads inside named usable)
    change sealed.2.toList = _
    rw [part.kept unusable, named.2, String.toList_ofList]

/-- The member is read and sealed to the result. -/
def Passes (json : SerdeJson) (sealHandle : ℕ → String → Except HandleError String)
    (object : Object) (member : Member) (sealed : String × String) : Prop :=
  member ∈ object.members ∧ ∃ read, Named member read ∧ Sealed json sealHandle read sealed

theorem passes_of_sealed : ∀ {members : List Member} {read sealed : Members},
    (∀ member ∈ members, member ∈ object.members) → List.Forall₂ Named members read →
    List.Forall₂ (Sealed json sealHandle) read sealed →
    List.Forall₂ (Passes json sealHandle object) members sealed := by
  intro members read sealed inside named
  induction named generalizing sealed with
  | nil =>
      intro parts
      cases parts
      exact .nil
  | cons name _ ih =>
      intro parts
      cases parts with
      | cons part parts =>
          rw [List.forall_mem_cons] at inside
          exact .cons ⟨inside.1, _, name, part⟩ (ih inside.2 parts)

/-- What a relation says of every element on the right. -/
theorem forall_right {α β : Type} {P : α → β → Prop} {Q : β → Prop} {as : List α} {bs : List β}
    (related : List.Forall₂ P as bs) (each : ∀ a b, P a b → Q b) : ∀ b ∈ bs, Q b := by
  induction related with
  | nil => simp
  | cons first _ ih => exact List.forall_mem_cons.mpr ⟨each _ _ first, ih⟩

/-- An element on the left has one on the right, and both relations hold of them. -/
theorem exists_right {α β : Type} {P Q : α → β → Prop} {as : List α} {bs : List β}
    (first : List.Forall₂ P as bs) (second : List.Forall₂ Q as bs) {a : α} (inside : a ∈ as) :
    ∃ b ∈ bs, P a b ∧ Q a b := by
  induction first with
  | nil => cases inside
  | cons p _ ih =>
      cases second with
      | cons q second =>
          rcases List.mem_cons.mp inside with rfl | inside
          · exact ⟨_, List.mem_cons_self .., p, q⟩
          · obtain ⟨b, member, both⟩ := ih second inside
            exact ⟨b, List.mem_cons_of_mem _ member, both⟩

/-- Members with these values, printed as an object. -/
def compactObject (members : Members) (valid : ∀ member ∈ members, IsValue member.2.toList) :
    Object where
  before := .none
  inner := .none
  members := members.map compact
  after := .none
  valid := by
    intro member inside
    obtain ⟨member, inside', rfl⟩ := List.mem_map.mp inside
    exact valid member inside'

theorem bytes_compactObject {members : Members}
    (valid : ∀ member ∈ members, IsValue member.2.toList) :
    utf8Bytes (String.ofList (printed members)) = bytes (compactObject members valid) := by
  simp [bytes, Object.text, compactObject, printed, Space.none]

/-- What is sealed is a JSON value. -/
theorem valid_of_passes (reads : Reads json object) {member : Member} {sealed : String × String}
    (passes : Passes json sealHandle object member sealed) : IsValue sealed.2.toList := by
  obtain ⟨inside, read, named, part⟩ := passes
  cases usable : usableToken json read with
  | none =>
      rw [part.kept usable, named.2, String.toList_ofList]
      exact object.valid member inside
  | some token =>
      obtain ⟨_, handle, _, encoded⟩ := part.replaced token usable
      rw [reads.encodes] at encoded
      rw [← Option.some.inj encoded, String.toList_ofList]
      exact .string _

/-- A raw value is kept if it stands for no text. -/
theorem kept_of_undecodable (reads : Reads json object) {member : Member}
    {sealed : String × String} (passes : Passes json sealHandle object member sealed)
    {pieces : List Piece} (written : member.value = literal pieces)
    (undecodable : decode pieces = none) : (compact sealed).value = member.value := by
  obtain ⟨inside, read, named, part⟩ := passes
  have unusable : usableToken json read = none := by
    refine Option.eq_none_iff_forall_ne_some.mpr fun token usable => ?_
    obtain ⟨_, _, pieces', written', decoded⟩ := (usableToken_iff reads inside named).mp usable
    obtain rfl := literal_injective (written.symm.trans written')
    rw [undecodable] at decoded
    cases decoded
  change sealed.2.toList = _
  rw [part.kept unusable, named.2, String.toList_ofList]

/-- **What sealed mode passes on when the members have been read.** -/
theorem sealTokenResponse_eq (reads : Reads json object) {status : ℕ}
    (success : successStatus status = true) {read : Members}
    (named : namedMembers object.members = some read) {replaced : Bool} {members : Members}
    (result : sealMembers json sealHandle 0 read = .ok (replaced, members)) :
    sealTokenResponse json sealHandle status (bytes object) =
      .ok (if replaced then some (utf8Bytes (String.ofList (printed members))) else none) := by
  have read' := reads.members
  rw [named] at read'
  cases replaced with
  | false => simp [sealTokenResponse, success, read', result]
  | true => simp [sealTokenResponse, success, read', result, reads.prints]

/-- What sealed mode does when a name stands for no text. -/
theorem sealTokenResponse_of_undecodable (reads : Reads json object) {status : ℕ}
    (success : successStatus status = true) {member : Member} (inside : member ∈ object.members)
    (undecodable : decode member.name = none) :
    sealTokenResponse json sealHandle status (bytes object) =
      if namesRefreshToken (bytes object) then .error .unrecognizedBody else .ok none := by
  have unread : namedMembers object.members = none := by
    rw [← Option.not_isSome_iff_eq_none, namedMembers_isSome]
    intro named
    have some := named member inside
    rw [undecodable] at some
    cases some
  simp [sealTokenResponse, success, reads.members, unread]

/-- A response is passed on as it is if it has no token. -/
theorem protects_self (tokenless : ∀ member ∈ object.members, ¬ IsToken member) :
    Protects sealHandle object (bytes object) := by
  refine ⟨object, rfl, List.forall₂_same.mpr fun member inside => ⟨rfl, ?_, fun _ => rfl⟩⟩
  exact fun isToken => absurd isToken (tokenless member inside)

/-- A token that stands for a text is not overlooked. -/
theorem tokenless_of_untouched (reads : Reads json object) {read : Members}
    (named : List.Forall₂ Named object.members read)
    (tokens : ∀ member ∈ object.members, decode member.name = some refreshTokenMember →
      ∀ pieces, member.value = literal pieces → (decode pieces).isSome = true)
    (untouched : ∀ member ∈ read, usableToken json member = none) :
    ∀ member ∈ object.members, ¬ IsToken member := by
  intro member inside isToken
  obtain ⟨pieces, token, written, decoded, nonempty⟩ := token_decodes inside tokens isToken
  obtain ⟨found, member', name, _⟩ := exists_right named named inside
  have usable := (usableToken_iff reads inside name).mpr
    ⟨isToken.1, nonempty, pieces, written, decoded⟩
  rw [untouched found member'] at usable
  cases usable

theorem neverLeaks_of_sealable (reads : Reads json object) {status : ℕ}
    (success : successStatus status = true) (sealable : Sealable object) :
    NeverLeaks json status object := by
  intro sealHandle sealed result
  rcases sealable with ⟨named, tokens⟩ | ⟨⟨member, inside, undecodable⟩, refused⟩
  · obtain ⟨read, named⟩ := Option.isSome_iff_exists.mp (namedMembers_isSome.mpr named)
    have named' := named_of_namedMembers named
    cases outcome : sealMembers json sealHandle 0 read with
    | error error => simp [sealTokenResponse, success, reads.members, named, outcome] at result
    | ok pair =>
        obtain ⟨replaced, members⟩ := pair
        obtain ⟨parts, untouched⟩ := sealed_of_sealMembers outcome
        have passes := passes_of_sealed (fun _ inside => inside) named' parts
        rw [sealTokenResponse_eq reads success named outcome] at result
        cases result
        cases replaced with
        | false => exact protects_self (tokenless_of_untouched reads named' tokens (untouched rfl))
        | true =>
            rw [if_pos rfl, Option.getD_some,
              bytes_compactObject (forall_right passes fun _ _ => valid_of_passes reads)]
            refine ⟨_, rfl, ?_⟩
            change List.Forall₂ _ _ (members.map compact)
            rw [List.forall₂_map_right_iff]
            refine passes.imp fun member sealed passes => ?_
            obtain ⟨inside, read, named, part⟩ := passes
            exact handled_of_sealed reads tokens inside named part
  · rw [sealTokenResponse_of_undecodable reads success inside undecodable] at result
    rcases refused with names | tokenless
    · rw [if_pos names] at result
      cases result
    · split at result
      · cases result
      · cases result
        exact protects_self tokenless

/-! ## A response that is not sealable -/

/-- A token that stands for no text is passed on. -/
theorem leaks_of_undecodable (reads : Reads json object) {status : ℕ}
    (success : successStatus status = true)
    (named : ∀ member ∈ object.members, (decode member.name).isSome = true) {member : Member}
    (inside : member ∈ object.members) (name : decode member.name = some refreshTokenMember)
    {pieces : List Piece} (written : member.value = literal pieces)
    (undecodable : decode pieces = none) : ¬ NeverLeaks json status object := by
  intro never
  have isToken : IsToken member := by
    refine ⟨name, pieces, written, ?_⟩
    rintro rfl
    cases undecodable
  obtain ⟨read, named⟩ := Option.isSome_iff_exists.mp (namedMembers_isSome.mpr named)
  obtain ⟨members, outcome, _⟩ : ∃ members, sealMembers json (fun _ _ => .ok "") 0 read =
      .ok ((firstToken json read).isSome, members) ∧ List.Forall₂ Keeps read members :=
    sealMembers_of_healthy (fun text => ⟨_, reads.encodes text⟩) (fun _ _ => ⟨_, rfl⟩) 0
  have passes := passes_of_sealed (fun _ inside => inside) (named_of_namedMembers named)
    (sealed_of_sealMembers outcome).1
  obtain ⟨result, same, handled⟩ := never _ _ (sealTokenResponse_eq reads success named outcome)
  -- the members of the output are known, and so the value would be a handle
  obtain ⟨handle, quoted⟩ : ∃ handle, member.value = quote handle := by
    cases first : (firstToken json read).isSome with
    | false =>
        rw [first] at same
        rw [← bytes_injective same, List.forall₂_same] at handled
        obtain ⟨_, _, handle, _, quoted⟩ := (handled member inside).replaced isToken
        exact ⟨handle, quoted⟩
    | true =>
        rw [first, if_pos rfl, Option.getD_some,
          bytes_compactObject (forall_right passes fun _ _ => valid_of_passes reads)] at same
        rw [← bytes_injective same] at handled
        change List.Forall₂ _ _ (members.map compact) at handled
        rw [List.forall₂_map_right_iff] at handled
        obtain ⟨sealed, _, passes, handled⟩ := exists_right passes handled inside
        obtain ⟨_, _, handle, _, quoted⟩ := handled.replaced isToken
        exact ⟨handle, (kept_of_undecodable reads passes written undecodable).symm.trans quoted⟩
  obtain rfl := literal_injective (written.symm.trans quoted)
  rw [decode_quoted] at undecodable
  cases undecodable

/-- A body that cannot be read and names no refresh token is passed on. -/
theorem leaks_of_unread (reads : Reads json object) {status : ℕ}
    (success : successStatus status = true) {member : Member} (inside : member ∈ object.members)
    (undecodable : decode member.name = none)
    (unnamed : namesRefreshToken (bytes object) = false) {token : Member}
    (inside' : token ∈ object.members) (isToken : IsToken token) :
    ¬ NeverLeaks json status object := by
  intro never
  have passed : sealTokenResponse json (fun _ _ => .error .invalid) status (bytes object) =
      .ok none := by
    rw [sealTokenResponse_of_undecodable reads success inside undecodable, unnamed]
    rfl
  obtain ⟨result, same, handled⟩ := never _ _ passed
  rw [← bytes_injective same, List.forall₂_same] at handled
  obtain ⟨_, _, _, works, _⟩ := (handled token inside').replaced isToken
  cases works

/-- **Sealed mode keeps its promise for a response if and only if the response is sealable.** -/
theorem never_leaks_iff (reads : Reads json object) {status : ℕ}
    (success : successStatus status = true) : NeverLeaks json status object ↔ Sealable object := by
  refine ⟨fun never => ?_, neverLeaks_of_sealable reads success⟩
  by_cases named : ∀ member ∈ object.members, (decode member.name).isSome = true
  · refine .inl ⟨named, ?_⟩
    intro member inside name pieces written
    by_contra undecodable
    exact leaks_of_undecodable reads success named inside name written (by simpa using undecodable)
      never
  · simp only [not_forall, Bool.not_eq_true, Option.isSome_eq_false_iff, Option.isNone_iff_eq_none,
      exists_prop] at named
    obtain ⟨member, inside, undecodable⟩ := named
    refine .inr ⟨⟨member, inside, undecodable⟩, ?_⟩
    cases names : namesRefreshToken (bytes object) with
    | true => exact .inl rfl
    | false =>
        exact .inr fun token inside' isToken =>
          leaks_of_unread reads success inside undecodable names inside' isToken never

/-! ## Half a surrogate pair -/

open Classical in
/-- A JSON library that reads every object and every string. -/
noncomputable def everyJson : SerdeJson where
  members body :=
    if h : ∃ object : Object, body = bytes object then namedMembers h.choose.members else none
  toVec members := some (utf8Bytes (String.ofList (printed members)))
  decodeString raw :=
    if h : ∃ pieces, raw = String.ofList (literal pieces) then decode h.choose else none
  encodeString text := some (String.ofList (quote text))
  errorMember _ := none
  isObject _ := false

theorem reads_everyJson (object : Object) : Reads everyJson object where
  members := by
    have exists_object : ∃ object' : Object, bytes object = bytes object' := ⟨object, rfl⟩
    simp only [everyJson, exists_object, dif_pos]
    rw [bytes_injective exists_object.choose_spec]
  string member _ pieces written := by
    have exists_pieces : ∃ pieces', String.ofList member.value = String.ofList (literal pieces') :=
      ⟨pieces, by rw [written]⟩
    simp only [everyJson, exists_pieces, dif_pos]
    have same := String.ofList_injective exists_pieces.choose_spec
    rw [← literal_injective (written.symm.trans same)]
  other member _ unlike := by
    have no_pieces : ¬ ∃ pieces, String.ofList member.value = String.ofList (literal pieces) :=
      fun ⟨pieces, same⟩ => unlike pieces (String.ofList_injective same)
    simp only [everyJson, no_pieces, dif_neg, not_false_eq_true]
  encodes _ := rfl
  prints _ := rfl

/-- An object with one member that is named `refresh_token`. -/
def tokenObject (pieces : List Piece) : Object where
  before := .none
  inner := .none
  members := [⟨.none, refreshTokenMember.toList.map Piece.ofChar, .none,
    ⟨.none, literal pieces, .none⟩⟩]
  after := .none
  valid member inside := by
    obtain rfl := List.mem_singleton.mp inside
    exact .string pieces

/-- The pieces of a token with half a surrogate pair in front. -/
def halfPieces : List Piece :=
  .unicode ⟨'d', rfl⟩ ⟨'8', rfl⟩ ⟨'0', rfl⟩ ⟨'0', rfl⟩ :: "abc".toList.map Piece.ofChar

example : (tokenObject halfPieces).text =
    "\x7b\"refresh_token\":\"\\ud800abc\"\x7d".toList := by decide +kernel

/-- A token that stands for a text does not get through. -/
theorem never_leaks_token :
    NeverLeaks everyJson 200 (tokenObject ("up".toList.map Piece.ofChar)) := by
  refine (never_leaks_iff (reads_everyJson _) rfl).mpr (.inl ⟨?_, ?_⟩)
  · intro member inside
    obtain rfl := List.mem_singleton.mp inside
    decide +kernel
  · intro member inside _ pieces written
    obtain rfl := List.mem_singleton.mp inside
    rw [← literal_injective written, decode_quoted]
    rfl

/-- **A token with half a surrogate pair gets through as it is.** -/
theorem not_never_leaks :
    ¬ ∀ (json : SerdeJson) (status : ℕ) (object : Object), Reads json object →
      successStatus status = true → NeverLeaks json status object := by
  intro all
  have never := all everyJson 200 (tokenObject halfPieces) (reads_everyJson _) rfl
  refine leaks_of_undecodable (reads_everyJson _) rfl ?_ (List.mem_singleton_self _) ?_ rfl ?_ never
  · intro member inside
    obtain rfl := List.mem_singleton.mp inside
    decide +kernel
  · decide +kernel
  · decide +kernel

end OAuthRelay.Responses
