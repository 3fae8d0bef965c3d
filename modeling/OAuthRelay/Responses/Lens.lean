import OAuthRelay.Responses.Sealing

/-!
# Replacing the refresh token of a response

Rotating mode reads the refresh token of a response and puts a handle in its place. The two
functions are the halves of a lens on JSON objects: what is put is what is then read, the last
token that is put is the one that stays, and nothing else of the object changes (`LensLaws`).

They keep the laws on every object all of whose names stand for texts. The library does not read
an object with half a surrogate pair in a name, and nothing is replaced in it.
-/

set_option autoImplicit false

namespace OAuthRelay.Responses

open OAuthRelay.Wire.Json
open OAuthRelay.Wire.Codec (utf8Bytes)

/-! ## The laws -/

/-- The member is named `refresh_token`, however the name is spelled. -/
def NamesToken (member : Member) : Prop := decode member.name = some refreshTokenMember

/-- The member keeps its name, and its raw value unless it is a token. -/
structure Untouched (member member' : Member) : Prop where
  name : decode member'.name = decode member.name
  value : ¬ NamesToken member → member'.value = member.value

/-- The object with the token: the members stay in place, and a token is appended if there was
none. -/
structure Carries (token : String) (object result : Object) : Prop where
  members : ∃ front back, result.members = front ++ back ∧
    List.Forall₂ Untouched object.members front ∧
    ((∃ member ∈ object.members, NamesToken member) ∧ back = [] ∨
      (∀ member ∈ object.members, ¬ NamesToken member) ∧ ∃ member, back = [member] ∧
        NamesToken member)
  token : ∀ member ∈ result.members, NamesToken member →
    ∃ pieces, member.value = literal pieces ∧ decode pieces = some token

/-- The laws of replacing the token in a body. -/
structure LensLaws (json : SerdeJson) (status : ℕ) (object : Object) : Prop where
  /-- An object comes out that has the token, and is otherwise the same. -/
  put : ∀ token, ∃ result : Object,
    json.withRefreshToken status (bytes object) token = some (bytes result) ∧
      Carries token object result
  /-- What has been put is read. -/
  put_get : ∀ token output, json.withRefreshToken status (bytes object) token = some output →
    token ≠ "" → json.upstreamRefreshToken status output = some token
  /-- The last token that is put stays. -/
  put_put : ∀ token token' output,
    json.withRefreshToken status (bytes object) token = some output →
    json.withRefreshToken status output token' =
      json.withRefreshToken status (bytes object) token'

/-! ## Members -/

/-- The raw value of a token. -/
def tokenValue (token : String) : String := String.ofList (quote token)

/-- Replaces the value of a token. -/
def replaceToken (token : String) (member : String × String) : String × String :=
  if member.1 = refreshTokenMember then (member.1, tokenValue token) else member

/-- What `with_refresh_token` makes of the members. -/
def putToken (token : String) (members : Members) : Members :=
  if members.any fun member => member.1 = refreshTokenMember then members.map (replaceToken token)
  else members ++ [(refreshTokenMember, tokenValue token)]

@[simp] theorem replaceToken_fst (token : String) (member : String × String) :
    (replaceToken token member).1 = member.1 := by
  unfold replaceToken
  split <;> rfl

theorem replaceToken_replaceToken (token token' : String) (member : String × String) :
    replaceToken token' (replaceToken token member) = replaceToken token' member := by
  by_cases named : member.1 = refreshTokenMember
  · simp [replaceToken, named]
  · simp [replaceToken, named]

theorem putToken_of_named {token : String} {members : Members}
    (named : ∃ member ∈ members, member.1 = refreshTokenMember) :
    putToken token members = members.map (replaceToken token) := by
  have found : (members.any fun member => member.1 = refreshTokenMember) = true := by
    simpa using named
  exact if_pos found

theorem putToken_of_unnamed {token : String} {members : Members}
    (unnamed : ∀ member ∈ members, member.1 ≠ refreshTokenMember) :
    putToken token members = members ++ [(refreshTokenMember, tokenValue token)] := by
  refine if_neg fun found => ?_
  obtain ⟨member, inside, named⟩ := List.any_eq_true.mp found
  exact unnamed member inside (of_decide_eq_true named)

/-- There is a token once one has been put. -/
theorem named_putToken (token : String) (members : Members) :
    ∃ member ∈ putToken token members, member.1 = refreshTokenMember := by
  by_cases named : ∃ member ∈ members, member.1 = refreshTokenMember
  · obtain ⟨member, inside, same⟩ := named
    rw [putToken_of_named ⟨member, inside, same⟩]
    exact ⟨_, List.mem_map_of_mem inside, (replaceToken_fst token member).trans same⟩
  · have unnamed : ∀ member ∈ members, member.1 ≠ refreshTokenMember :=
      fun member inside same => named ⟨member, inside, same⟩
    rw [putToken_of_unnamed unnamed]
    exact ⟨_, List.mem_append_right _ (List.mem_singleton_self _), rfl⟩

/-- **Every token is the one that has been put.** -/
theorem value_putToken {token : String} {members : Members} {member : String × String}
    (inside : member ∈ putToken token members) (named : member.1 = refreshTokenMember) :
    member.2 = tokenValue token := by
  by_cases before : ∃ member ∈ members, member.1 = refreshTokenMember
  · rw [putToken_of_named before] at inside
    obtain ⟨original, _, rfl⟩ := List.mem_map.mp inside
    rw [replaceToken_fst] at named
    simp [replaceToken, named]
  · have unnamed : ∀ member ∈ members, member.1 ≠ refreshTokenMember :=
      fun member inside same => before ⟨member, inside, same⟩
    rw [putToken_of_unnamed unnamed] at inside
    rcases List.mem_append.mp inside with old | new
    · exact absurd named (unnamed member old)
    · rw [List.mem_singleton.mp new]

/-- **The last token that is put stays.** -/
theorem putToken_putToken (token token' : String) (members : Members) :
    putToken token' (putToken token members) = putToken token' members := by
  rw [putToken_of_named (named_putToken token members)]
  by_cases before : ∃ member ∈ members, member.1 = refreshTokenMember
  · rw [putToken_of_named before, putToken_of_named before, List.map_map]
    exact List.map_congr_left fun member _ => replaceToken_replaceToken token token' member
  · have unnamed : ∀ member ∈ members, member.1 ≠ refreshTokenMember :=
      fun member inside same => before ⟨member, inside, same⟩
    have kept : members.map (replaceToken token') = members := by
      refine (List.map_congr_left fun member inside => ?_).trans (List.map_id members)
      exact if_neg (unnamed member inside)
    rw [putToken_of_unnamed unnamed, putToken_of_unnamed unnamed, List.map_append, kept]
    simp [replaceToken]

/-! ## Objects -/

variable {json : SerdeJson} {object : Object} {status : ℕ}

theorem namedMembers_compact : ∀ members : Members,
    namedMembers (members.map compact) = some members := by
  intro members
  induction members with
  | nil => rfl
  | cons member rest ih =>
      have name : decode (compact member).name = some member.1 := decode_quoted member.1
      rw [List.map_cons, namedMembers, name, ih]
      exact congrArg some (congrArg (· :: rest) (Prod.ext rfl String.ofList_toList))

theorem withRefreshToken_eq (reads : Reads json object) (success : successStatus status = true)
    {read : Members} (named : namedMembers object.members = some read) (token : String) :
    json.withRefreshToken status (bytes object) token =
      some (utf8Bytes (String.ofList (printed (putToken token read)))) := by
  have read' := reads.members
  rw [named] at read'
  simp only [SerdeJson.withRefreshToken, success, if_true, read', reads.encodes]
  rw [reads.prints, reads.prints, ← apply_ite some]
  congr 1
  unfold putToken
  split <;> rfl

theorem valid_of_named {member : Member} {read : String × String}
    (inside : member ∈ object.members) (named : Named member read) : IsValue read.2.toList := by
  rw [named.2, String.toList_ofList]
  exact object.valid member inside

theorem valid_of_read {read : Members} (named : List.Forall₂ Named object.members read) :
    ∀ member ∈ read, IsValue member.2.toList := by
  have both : List.Forall₂ (fun member read => member ∈ object.members ∧ Named member read)
      object.members read := (List.forall₂_and_left _ _).mpr ⟨fun _ inside => inside, named⟩
  exact forall_right both fun member read part => valid_of_named part.1 part.2

/-- The values are JSON with the token as well. -/
theorem valid_putToken {token : String} {members : Members}
    (valid : ∀ member ∈ members, IsValue member.2.toList) :
    ∀ member ∈ putToken token members, IsValue member.2.toList := by
  have value : IsValue (tokenValue token).toList := by
    rw [tokenValue, String.toList_ofList]
    exact .string _
  intro member inside
  unfold putToken at inside
  split at inside
  · obtain ⟨original, inside', rfl⟩ := List.mem_map.mp inside
    unfold replaceToken
    split
    · exact value
    · exact valid original inside'
  · rcases List.mem_append.mp inside with old | new
    · exact valid member old
    · rw [List.mem_singleton.mp new]
      exact value

/-- A name that is read is the name that is written. -/
theorem namesToken_compact {member : String × String} :
    NamesToken (compact member) ↔ member.1 = refreshTokenMember := by
  have name : decode (compact member).name = some member.1 := decode_quoted member.1
  rw [NamesToken, name, Option.some.injEq]

theorem namesToken_iff {member : Member} {read : String × String} (named : Named member read) :
    NamesToken member ↔ read.1 = refreshTokenMember := by
  rw [NamesToken, named.1, Option.some.injEq]

theorem untouched_compact {member : Member} {read read' : String × String}
    (named : Named member read) (name : read'.1 = read.1)
    (value : read.1 ≠ refreshTokenMember → read'.2 = read.2) :
    Untouched member (compact read') where
  name := by
    rw [named.1, ← name]
    exact decode_quoted read'.1
  value other := by
    change read'.2.toList = _
    rw [value (mt (namesToken_iff named).mpr other), named.2, String.toList_ofList]

theorem untouched_map {members : List Member} {read : Members}
    {f : String × String → String × String}
    (named : List.Forall₂ Named members read) (name : ∀ member, (f member).1 = member.1)
    (value : ∀ member : String × String, member.1 ≠ refreshTokenMember →
      (f member).2 = member.2) :
    List.Forall₂ Untouched members ((read.map f).map compact) := by
  induction named with
  | nil => exact .nil
  | cons first _ ih => exact .cons (untouched_compact first (name _) (value _)) ih

/-- **The printed object has the token, and is otherwise the same.** -/
theorem carries_compactObject {read : Members} (named : List.Forall₂ Named object.members read)
    (token : String) (valid : ∀ member ∈ putToken token read, IsValue member.2.toList) :
    Carries token object (compactObject (putToken token read) valid) where
  members := by
    change ∃ front back, (putToken token read).map compact = front ++ back ∧ _
    by_cases before : ∃ member ∈ read, member.1 = refreshTokenMember
    · refine ⟨_, [], (List.append_nil _).symm, ?_, .inl ⟨?_, rfl⟩⟩
      · rw [putToken_of_named before]
        exact untouched_map named (replaceToken_fst token) fun member other =>
          congrArg Prod.snd (if_neg other)
      · obtain ⟨read, inside, same⟩ := before
        obtain ⟨member, inside, part, -⟩ := exists_right named.flip named.flip inside
        exact ⟨member, inside, (namesToken_iff part).mpr same⟩
    · have unnamed : ∀ member ∈ read, member.1 ≠ refreshTokenMember :=
        fun member inside same => before ⟨member, inside, same⟩
      rw [putToken_of_unnamed unnamed, List.map_append]
      refine ⟨_, _, rfl, ?_, .inr ⟨?_, compact (refreshTokenMember, tokenValue token), rfl, ?_⟩⟩
      · have kept := untouched_map named (f := id) (fun _ => rfl) fun _ _ => rfl
        rwa [List.map_id] at kept
      · intro member inside named'
        obtain ⟨found, inside, part, -⟩ := exists_right named named inside
        exact unnamed found inside ((namesToken_iff part).mp named')
      · exact namesToken_compact.mpr rfl
  token member inside named' := by
    obtain ⟨found, inside', rfl⟩ := List.mem_map.mp inside
    have value := value_putToken inside' (namesToken_compact.mp named')
    refine ⟨token.toList.map Piece.ofChar, ?_, decode_quoted token⟩
    change found.2.toList = _
    rw [value, tokenValue, String.toList_ofList]
    rfl

/-! ## Reading what has been put -/

/-- A printed object is read as its members. -/
theorem members_printed (reads : ∀ object, Reads json object) {members : Members}
    (valid : ∀ member ∈ members, IsValue member.2.toList) :
    json.members (utf8Bytes (String.ofList (printed members))) = some members := by
  rw [bytes_compactObject valid, (reads _).members]
  exact namedMembers_compact members

/-- **What has been put is read.** -/
theorem upstreamRefreshToken_printed (reads : ∀ object, Reads json object)
    (success : successStatus status = true) {token : String} (nonempty : token ≠ "")
    {members : Members} (valid : ∀ member ∈ members, IsValue member.2.toList)
    (named : ∃ member ∈ members, member.1 = refreshTokenMember)
    (same : ∀ member ∈ members, member.1 = refreshTokenMember → member.2 = tokenValue token) :
    json.upstreamRefreshToken status (utf8Bytes (String.ofList (printed members))) =
      some token := by
  have decoded : json.decodeString (tokenValue token) = some token := by
    obtain ⟨member, inside, name⟩ := named
    have value := same member inside name
    have written : (compact member).value = literal (token.toList.map Piece.ofChar) := by
      change member.2.toList = _
      rw [value, tokenValue, String.toList_ofList]
      rfl
    have read := (reads (compactObject members valid)).string (compact member)
      (List.mem_map_of_mem inside) _ written
    rw [written] at read
    exact read.trans (decode_quoted token)
  simp only [SerdeJson.upstreamRefreshToken, success, if_true, members_printed reads valid]
  have tokens : ∀ member ∈ members.filter fun member => member.1 = refreshTokenMember,
      json.decodeString member.2 = some token := by
    intro member inside
    obtain ⟨inside, name⟩ := List.mem_filter.mp inside
    rw [same member inside (of_decide_eq_true name), decoded]
  cases found : members.filter fun member => member.1 = refreshTokenMember with
  | nil =>
      obtain ⟨member, inside, name⟩ := named
      have kept : member ∈ members.filter fun member => member.1 = refreshTokenMember :=
        List.mem_filter.mpr ⟨inside, decide_eq_true name⟩
      rw [found] at kept
      cases kept
  | cons first rest =>
      rw [found] at tokens
      have head := tokens first (List.mem_cons_self ..)
      simp only [List.filterMap_cons, head]
      exact List.find?_cons_of_pos (by simpa using nonempty)

/-- A body with a name that stands for no text is left alone. -/
theorem withRefreshToken_of_undecodable (reads : Reads json object) {member : Member}
    (inside : member ∈ object.members) (undecodable : decode member.name = none)
    (token : String) : json.withRefreshToken status (bytes object) token = none := by
  have unread : namedMembers object.members = none := by
    rw [← Option.not_isSome_iff_eq_none, namedMembers_isSome]
    intro named
    have decodes := named member inside
    rw [undecodable] at decodes
    cases decodes
  unfold SerdeJson.withRefreshToken
  rw [reads.members, unread]
  split <;> rfl

/-- **Replacing a token obeys the laws on exactly the objects whose names stand for texts.** -/
theorem lens_laws_iff (reads : ∀ object, Reads json object)
    (success : successStatus status = true) : LensLaws json status object ↔
      ∀ member ∈ object.members, (decode member.name).isSome = true := by
  constructor
  · intro laws member inside
    rw [Option.isSome_iff_ne_none]
    intro undecodable
    obtain ⟨result, put, -⟩ := laws.put ""
    rw [withRefreshToken_of_undecodable (reads object) inside undecodable] at put
    cases put
  · intro names
    obtain ⟨read, named⟩ := Option.isSome_iff_exists.mp (namedMembers_isSome.mpr names)
    have parts := named_of_namedMembers named
    have valid : ∀ token, ∀ member ∈ putToken token read, IsValue member.2.toList :=
      fun token => valid_putToken (valid_of_read parts)
    have once := withRefreshToken_eq (reads object) success named
    refine ⟨fun token => ?_, fun token output put nonempty => ?_, fun token token' output put => ?_⟩
    · rw [once, bytes_compactObject (valid token)]
      exact ⟨_, rfl, carries_compactObject parts token (valid token)⟩
    · rw [once] at put
      cases put
      exact upstreamRefreshToken_printed reads success nonempty (valid token)
        (named_putToken token read) fun member => value_putToken
    · rw [once] at put
      cases put
      have twice := withRefreshToken_eq (reads (compactObject _ (valid token))) success
        (namedMembers_compact _) token'
      rw [bytes_compactObject (valid token), twice, once, putToken_putToken]

/-! ## Half a surrogate pair in a name -/

/-- An object with one member that has a number for its value. -/
def numberObject (pieces : List Piece) : Object where
  before := .none
  inner := .none
  members := [⟨.none, pieces, .none, ⟨.none, ['0'], .none⟩⟩]
  after := .none
  valid member inside := by
    obtain rfl := List.mem_singleton.mp inside
    exact .scalar (.number ⟨false, ⟨['0'], nofun, rfl⟩, fun _ => rfl, none, none⟩)

example : (numberObject halfPieces).text = "\x7b\"\\ud800abc\":0\x7d".toList := by decide +kernel

/-- The laws hold of an object with a plain name. -/
theorem lens_laws_plain :
    LensLaws everyJson 200 (numberObject ("expires_in".toList.map Piece.ofChar)) := by
  refine (lens_laws_iff reads_everyJson rfl).mpr fun member inside => ?_
  obtain rfl := List.mem_singleton.mp inside
  decide +kernel

/-- **The token of an object with half a surrogate pair in a name is not replaced.** -/
theorem not_lens_laws :
    ¬ ∀ (json : SerdeJson) (status : ℕ) (object : Object), (∀ object, Reads json object) →
      successStatus status = true → LensLaws json status object := by
  intro all
  have laws := all everyJson 200 (numberObject halfPieces) reads_everyJson rfl
  obtain ⟨result, put, -⟩ := laws.put ""
  rw [withRefreshToken_of_undecodable (reads_everyJson _) (List.mem_singleton_self _)
    (by decide +kernel)] at put
  cases put

end OAuthRelay.Responses
