import Mathlib.Data.List.Forall2
import OAuthRelay.Codes.Exchange

/-!
# Handles in token responses

A relay that hands out handles puts them where a token response has the upstream's refresh
token. In sealed mode `seal_token_response` replaces every token by a handle of its own, and in
rotating mode `issue_in_response` starts one family and hands out its first handle. What the
two ask the sealer and the store for are arguments here.

Both decide what the response contains, and they read it in two ways: the first as a list of
members with raw values, the second also as a map of generic values. A body that is the one
and not the other divides them (`same_rules_iff`).
-/

set_option autoImplicit false

namespace OAuthRelay.Responses

open OAuthRelay.Codes (HandleError SubstitutionError)
open OAuthRelay.Rotation (IssueError)

/-! ## Sealed mode -/

/-- The token of a member that has to be replaced. -/
def usableToken (json : SerdeJson) (member : String × String) : Option String :=
  if member.1 = refreshTokenMember then
    (json.decodeString member.2).filter fun token => token ≠ ""
  else none

/-- Replaces the tokens of the members and says whether there was one. The sealings before were
`n`. -/
def sealMembers (json : SerdeJson) (sealHandle : ℕ → String → Except HandleError String) :
    ℕ → Members → Except SubstitutionError (Bool × Members)
  | _, [] => .ok (false, [])
  | n, member :: rest =>
      match usableToken json member with
      | none =>
          match sealMembers json sealHandle n rest with
          | .error error => .error error
          | .ok (replaced, rest) => .ok (replaced, member :: rest)
      | some token =>
          match sealHandle n token with
          | .error error => .error error.substitution
          | .ok handle =>
              match json.encodeString handle with
              | none => .error .sealing
              | some value =>
                  match sealMembers json sealHandle (n + 1) rest with
                  | .error error => .error error
                  | .ok (_, rest) => .ok (true, (member.1, value) :: rest)

/-- `seal_token_response`. -/
def sealTokenResponse (json : SerdeJson) (sealHandle : ℕ → String → Except HandleError String)
    (status : ℕ) (body : List UInt8) : Except SubstitutionError (Option (List UInt8)) :=
  if !successStatus status then .ok none
  else
    match json.members body with
    | none => if namesRefreshToken body then .error .unrecognizedBody else .ok none
    | some members =>
        match sealMembers json sealHandle 0 members with
        | .error error => .error error
        | .ok (replaced, members) =>
            if !replaced then .ok none
            else
              match json.toVec members with
              | none => .error .sealing
              | some body => .ok (some body)

/-! ## Rotating mode -/

/-- Why a response gets no handle in rotating mode. -/
inductive ResponseError where
  | issue (error : IssueError)
  | unrecognizedBody
  deriving DecidableEq

/-- `issue_in_response`. -/
def issueInResponse (json : SerdeJson) (issue : String → Except IssueError String)
    (response : StoredResponse) : Except ResponseError (Option (List UInt8)) :=
  match json.upstreamRefreshToken response.status response.body with
  | none =>
      if response.isSuccess && !json.isObject response.body &&
          namesRefreshToken response.body then .error .unrecognizedBody
      else .ok none
  | some token =>
      match issue token with
      | .error error => .error (.issue error)
      | .ok handle =>
          match json.withRefreshToken response.status response.body handle with
          | none => .error .unrecognizedBody
          | some body => .ok (some body)

/-! ## What each mode does -/

variable {json : SerdeJson} {sealHandle : ℕ → String → Except HandleError String}
  {issue : String → Except IssueError String} {members : Members} {status : ℕ}
  {body : List UInt8}

/-- The library prints strings and members, and what it reads as a map it reads as members. -/
structure Documented (json : SerdeJson) (body : List UInt8) : Prop where
  printed : ∀ members, ∃ text, json.toVec members = some text
  encoded : ∀ text, ∃ value, json.encodeString text = some value
  read : json.isObject body = true → json.members body ≠ none

/-- Sealer and store work. -/
structure Healthy (sealHandle : ℕ → String → Except HandleError String)
    (issue : String → Except IssueError String) : Prop where
  seals : ∀ n token, ∃ handle, sealHandle n token = .ok handle
  issues : ∀ token, ∃ handle, issue token = .ok handle

/-- The first token that has to be replaced. -/
def firstToken (json : SerdeJson) (members : Members) : Option String :=
  members.findSome? (usableToken json)

/-- A member as it was, or with another refresh token. -/
def Keeps (member member' : String × String) : Prop :=
  member'.1 = member.1 ∧ (member.1 ≠ refreshTokenMember → member'.2 = member.2)

/-- Two changes of one list of members keep each other's. -/
theorem Keeps.fork : ∀ {members before after : Members}, List.Forall₂ Keeps members before →
    List.Forall₂ Keeps members after → List.Forall₂ Keeps before after := by
  intro members before after kept
  induction kept generalizing after with
  | nil =>
      intro kept'
      cases kept'
      exact .nil
  | cons first _ ih =>
      intro kept'
      cases kept' with
      | cons first' rest' =>
          refine .cons ⟨first'.1.trans first.1.symm, ?_⟩ (ih rest')
          intro other
          rw [first.1] at other
          rw [first'.2 other, first.2 other]

theorem Keeps.refl (member : String × String) : Keeps member member := ⟨rfl, fun _ => rfl⟩

theorem named_of_usableToken {member : String × String} {token : String}
    (usable : usableToken json member = some token) : member.1 = refreshTokenMember := by
  unfold usableToken at usable
  split at usable
  · assumption
  · cases usable

theorem usableToken_of_decoded {member : String × String} {token : String}
    (named : member.1 = refreshTokenMember) (decoded : json.decodeString member.2 = some token) :
    usableToken json member = if token = "" then none else some token := by
  unfold usableToken
  rw [if_pos named, decoded]
  by_cases empty : token = ""
  · rw [if_pos empty, Option.filter_some_neg (by simpa using empty)]
  · rw [if_neg empty, Option.filter_some_pos (by simpa using empty)]

theorem find_eq_firstToken : ∀ members : Members,
    ((members.filter fun member => member.1 = refreshTokenMember).filterMap
      fun member => json.decodeString member.2).find? (fun token => token ≠ "") =
    firstToken json members := by
  intro members
  induction members with
  | nil => rfl
  | cons member rest ih =>
      unfold firstToken at ih ⊢
      by_cases named : member.1 = refreshTokenMember
      · rw [List.filter_cons_of_pos (by simpa using named), List.findSome?_cons, ← ih]
        cases decoded : json.decodeString member.2 with
        | none => simp [usableToken, named, decoded]
        | some token =>
            simp only [List.filterMap_cons, decoded, List.find?_cons,
              usableToken_of_decoded named decoded]
            by_cases empty : token = ""
            · simp [empty]
            · simp [empty]
      · rw [List.filter_cons_of_neg (by simpa using named), List.findSome?_cons, ← ih]
        simp [usableToken, named]

theorem upstreamRefreshToken_eq (success : successStatus status = true)
    (read : json.members body = some members) :
    json.upstreamRefreshToken status body = firstToken json members := by
  simp only [SerdeJson.upstreamRefreshToken, success, read, if_true, find_eq_firstToken]

/-- **A working sealer replaces every token and keeps the other members.** -/
theorem sealMembers_of_healthy
    (encodes : ∀ text, ∃ value, json.encodeString text = some value)
    (healthy : ∀ n token, ∃ handle, sealHandle n token = .ok handle) :
    ∀ n, ∃ members', sealMembers json sealHandle n members =
      .ok ((firstToken json members).isSome, members') ∧ List.Forall₂ Keeps members members' := by
  induction members with
  | nil => exact fun n => ⟨[], rfl, .nil⟩
  | cons member rest ih =>
      intro n
      cases usable : usableToken json member with
      | none =>
          obtain ⟨rest', sealed, kept⟩ := ih n
          refine ⟨member :: rest', ?_, .cons (Keeps.refl member) kept⟩
          simp only [sealMembers, usable, sealed, firstToken, List.findSome?_cons]
      | some token =>
          obtain ⟨handle, works⟩ := healthy n token
          obtain ⟨value, encoded⟩ := encodes handle
          obtain ⟨rest', sealed, kept⟩ := ih (n + 1)
          refine ⟨(member.1, value) :: rest', ?_, .cons ⟨rfl, ?_⟩ kept⟩
          · simp only [sealMembers, usable, works, encoded, sealed, firstToken,
              List.findSome?_cons, Option.isSome_some]
          · exact fun other => absurd (named_of_usableToken usable) other

/-- **The first handle of a family replaces every token and keeps the other members.** -/
theorem withRefreshToken_keeps (documented : Documented json body)
    (success : successStatus status = true) (read : json.members body = some members)
    {token : String} (first : firstToken json members = some token) (handle : String) :
    ∃ members' text, json.withRefreshToken status body handle = some text ∧
      json.toVec members' = some text ∧ List.Forall₂ Keeps members members' := by
  obtain ⟨value, encoded⟩ := documented.encoded handle
  have named : (members.any fun member => member.1 = refreshTokenMember) = true := by
    obtain ⟨member, inside, usable⟩ := List.exists_of_findSome?_eq_some first
    exact List.any_eq_true.mpr ⟨member, inside, by simpa using named_of_usableToken usable⟩
  obtain ⟨text, printed⟩ := documented.printed (members.map fun member =>
    if member.1 = refreshTokenMember then (member.1, value) else member)
  refine ⟨_, text, ?_, printed, ?_⟩
  · simp only [SerdeJson.withRefreshToken, success, read, encoded, named, if_true, printed]
  · rw [List.forall₂_map_right_iff, List.forall₂_same]
    intro member _
    split
    · rename_i same
      exact ⟨rfl, fun other => absurd same other⟩
    · exact Keeps.refl member

/-! ## The same content rules -/

/-- Both modes issue nothing, both issue, or both refuse the body, and the members they hand
on are the same up to the refresh token. -/
structure SameRules (json : SerdeJson) (sealed : Except SubstitutionError (Option (List UInt8)))
    (rotating : Except ResponseError (Option (List UInt8))) : Prop where
  unchanged : rotating = .ok none ↔ sealed = .ok none
  issued : (∃ text, rotating = .ok (some text)) ↔ ∃ text, sealed = .ok (some text)
  unrecognized : rotating = .error .unrecognizedBody ↔ sealed = .error .unrecognizedBody
  kept : ∀ text text', sealed = .ok (some text) → rotating = .ok (some text') →
    ∃ before after, json.toVec before = some text ∧ json.toVec after = some text' ∧
      List.Forall₂ Keeps before after

/-- The members of a successful response have no token to replace, the body is no map of
values, and it names a refresh token. -/
structure Divides (json : SerdeJson) (status : ℕ) (body : List UInt8) : Prop where
  success : successStatus status = true
  tokenless : ∃ members, json.members body = some members ∧ firstToken json members = none
  unread : json.isObject body = false
  names : namesRefreshToken body = true

theorem sameRules_unchanged : SameRules json (.ok none) (.ok none) :=
  ⟨by simp, by simp, by simp, by simp⟩

theorem sameRules_unrecognized :
    SameRules json (.error .unrecognizedBody) (.error .unrecognizedBody) :=
  ⟨by simp, by simp, by simp, by simp⟩

/-- A response that is not to be read, or cannot be read as members. -/
theorem same_rules_of_unread (documented : Documented json body)
    (unread : successStatus status = true → json.members body = none)
    {contentType : Option String} :
    SameRules json (sealTokenResponse json sealHandle status body)
      (issueInResponse json issue ⟨status, contentType, body⟩) := by
  cases success : successStatus status with
  | false =>
      simp only [sealTokenResponse, issueInResponse, SerdeJson.upstreamRefreshToken,
        StoredResponse.isSuccess, success, Bool.not_false, Bool.false_and, Bool.false_eq_true,
        if_true, if_false]
      exact sameRules_unchanged
  | true =>
      have absent := unread success
      have noMap : json.isObject body = false := by
        by_contra isMap
        exact documented.read (by simpa using isMap) absent
      simp only [sealTokenResponse, issueInResponse, SerdeJson.upstreamRefreshToken,
        StoredResponse.isSuccess, success, absent, noMap, Bool.not_false, Bool.not_true,
        Bool.true_and, Bool.false_eq_true, if_true, if_false]
      split
      · exact sameRules_unrecognized
      · exact sameRules_unchanged

/-- **The modes apply the same content rules to a response, except to one that divides them.** -/
theorem same_rules_iff {contentType : Option String} (documented : Documented json body)
    (healthy : Healthy sealHandle issue) :
    SameRules json (sealTokenResponse json sealHandle status body)
      (issueInResponse json issue ⟨status, contentType, body⟩) ↔ ¬ Divides json status body := by
  by_cases read : successStatus status = true ∧ ∃ members, json.members body = some members
  · obtain ⟨success, members, read⟩ := read
    obtain ⟨members', sealed, kept⟩ :=
      sealMembers_of_healthy documented.encoded healthy.seals 0
    have found := upstreamRefreshToken_eq success read
    cases first : firstToken json members with
    | none =>
        rw [first] at sealed found
        have unchanged : sealTokenResponse json sealHandle status body = .ok none := by
          simp [sealTokenResponse, success, read, sealed]
        have divides : Divides json status body ↔
            json.isObject body = false ∧ namesRefreshToken body = true :=
          ⟨fun parts => ⟨parts.unread, parts.names⟩,
            fun parts => ⟨success, ⟨members, read, first⟩, parts.1, parts.2⟩⟩
        rw [unchanged, divides]
        simp only [issueInResponse, found, StoredResponse.isSuccess, success, Bool.true_and,
          Bool.and_eq_true, Bool.not_eq_true']
        split
        · rename_i both
          refine iff_of_false ?_ (not_not_intro both)
          intro same
          exact absurd (same.unchanged.mpr rfl) (by simp)
        · rename_i apart
          exact iff_of_true sameRules_unchanged apart
    | some token =>
        rw [first] at sealed found
        obtain ⟨text, printed⟩ := documented.printed members'
        obtain ⟨handle, issues⟩ := healthy.issues token
        obtain ⟨after, text', replaced, printed', kept'⟩ :=
          withRefreshToken_keeps documented success read first handle
        have seals : sealTokenResponse json sealHandle status body = .ok (some text) := by
          simp [sealTokenResponse, success, read, sealed, printed]
        have starts : issueInResponse json issue ⟨status, contentType, body⟩ =
            .ok (some text') := by
          simp [issueInResponse, found, issues, replaced]
        rw [seals, starts]
        refine iff_of_true ⟨by simp, by simp, by simp, ?_⟩ ?_
        · rintro _ _ ⟨⟩ ⟨⟩
          exact ⟨members', after, printed, printed', Keeps.fork kept kept'⟩
        · rintro ⟨_, ⟨_, again, tokenless⟩, _⟩
          obtain rfl := Option.some.inj (read.symm.trans again)
          rw [first] at tokenless
          cases tokenless
  · refine iff_of_true (same_rules_of_unread documented ?_) ?_
    · intro success
      exact Option.eq_none_iff_forall_ne_some.mpr fun members same => read ⟨success, members, same⟩
    · rintro ⟨success, ⟨members, same, _⟩, _⟩
      exact read ⟨success, members, same⟩

/-! ## A number that is too large -/

open OAuthRelay.Rotation (utf8)

def plainBody : List UInt8 := utf8 "\x7b\"refresh_token\":\"up\",\"a\":1\x7d"

/-- The number is beyond what a generic value holds. -/
def hugeBody : List UInt8 := utf8 "\x7b\"refresh_token\":\"\",\"a\":1e999\x7d"

/-- A JSON library that knows these two bodies. -/
def tableJson : SerdeJson where
  members body :=
    if body = plainBody then some [("refresh_token", "\"up\""), ("a", "1")]
    else if body = hugeBody then some [("refresh_token", "\"\""), ("a", "1e999")] else none
  toVec members := some (utf8 ("\x7b" ++ String.intercalate "," (members.map fun member =>
    "\"" ++ member.1 ++ "\":" ++ member.2) ++ "\x7d"))
  decodeString raw :=
    if raw = "\"up\"" then some "up" else if raw = "\"\"" then some "" else none
  encodeString text := some ("\"" ++ text ++ "\"")
  errorMember _ := none
  isObject body := body = plainBody

theorem documented_tableJson (body : List UInt8) : Documented tableJson body where
  printed _ := ⟨_, rfl⟩
  encoded _ := ⟨_, rfl⟩
  read isMap := by
    have same : body = plainBody := by simpa [tableJson] using isMap
    simp [tableJson, same]

def sampleSeals (_ : ℕ) (_ : String) : Except HandleError String := .ok "rrt1.handle"

def sampleIssues (_ : String) : Except IssueError String := .ok "rrt2.handle"

theorem healthy_sample : Healthy sampleSeals sampleIssues where
  seals _ _ := ⟨_, rfl⟩
  issues _ := ⟨_, rfl⟩

/-- A response with a token gets a handle in both modes. -/
theorem same_rules_of_plainBody :
    (sealTokenResponse tableJson sampleSeals 200 plainBody).isOk = true ∧
      SameRules tableJson (sealTokenResponse tableJson sampleSeals 200 plainBody)
        (issueInResponse tableJson sampleIssues ⟨200, none, plainBody⟩) := by
  refine ⟨by decide +kernel, (same_rules_iff (documented_tableJson _) healthy_sample).mpr ?_⟩
  intro divides
  exact absurd divides.unread (by decide +kernel)

/-- **An empty token beside a number that is too large: sealed mode passes the response on, and
rotating mode refuses it.** -/
theorem not_same_rules :
    ¬ ∀ (json : SerdeJson) (sealHandle : ℕ → String → Except HandleError String)
      (issue : String → Except IssueError String) (status : ℕ) (contentType : Option String)
      (body : List UInt8), Documented json body → Healthy sealHandle issue →
      SameRules json (sealTokenResponse json sealHandle status body)
        (issueInResponse json issue ⟨status, contentType, body⟩) := by
  intro all
  have same := all tableJson sampleSeals sampleIssues 200 none hugeBody (documented_tableJson _)
    healthy_sample
  have passed : sealTokenResponse tableJson sampleSeals 200 hugeBody = .ok none := by
    decide +kernel
  have refused : issueInResponse tableJson sampleIssues ⟨200, none, hugeBody⟩ =
      .error .unrecognizedBody := by decide +kernel
  rw [same.unchanged.mpr passed] at refused
  cases refused

end OAuthRelay.Responses
