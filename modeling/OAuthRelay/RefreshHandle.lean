import Mathlib.Algebra.Group.Nat.Defs
import Mathlib.Data.Nat.Notation

/-!
# Refresh tokens in token responses

A relay reads the upstream refresh token out of a token response and puts a handle of
its own in its place. Both functions see the body as the members of a JSON object, in
document order and with raw values. How text is parsed and printed belongs to the JSON
library, which is a parameter here (`SerdeJson`).
-/

set_option autoImplicit false

namespace OAuthRelay

/-- An upstream response as the relay keeps it. -/
structure StoredResponse where
  status : ℕ
  contentType : Option String
  body : List UInt8
  deriving DecidableEq

/-- The members of a JSON object in document order, with values kept verbatim. -/
abbrev Members := List (String × String)

/-- The JSON functions the relay calls. -/
structure SerdeJson where
  /-- `from_slice::<Members>`. -/
  members : List UInt8 → Option Members
  /-- `to_vec` of members. -/
  toVec : Members → Option (List UInt8)
  /-- `from_str::<String>` of a raw value. -/
  decodeString : String → Option String
  /-- `to_string` of a string, taken as a raw value. -/
  encodeString : String → Option String
  /-- The string under `error` in a body that parses as a JSON value. -/
  errorMember : List UInt8 → Option String
  /-- `from_slice::<Map>` succeeds. -/
  isObject : List UInt8 → Bool

def refreshTokenMember : String := "refresh_token"

/-! ## Bodies that are no JSON object -/

/-- A byte that goes on a UTF-8 sequence. -/
def isContinuation (byte : UInt8) : Bool := 0x80 ≤ byte && byte ≤ 0xbf

/-- How many bytes a UTF-8 sequence with this first byte has, and the range of its second. -/
def utf8Width (first : UInt8) : ℕ × UInt8 × UInt8 :=
  if first < 0x80 then (1, 0, 0)
  else if first < 0xc2 then (0, 0, 0)
  else if first < 0xe0 then (2, 0x80, 0xbf)
  else if first < 0xf0 then
    (3, if first = 0xe0 then 0xa0 else 0x80, if first = 0xed then 0x9f else 0xbf)
  else if first < 0xf5 then
    (4, if first = 0xf0 then 0x90 else 0x80, if first = 0xf4 then 0x8f else 0xbf)
  else (0, 0, 0)

/-- How many bytes the longest beginning of a UTF-8 sequence has at the start of the bytes. -/
def utf8Prefix (first : UInt8) (rest : List UInt8) : ℕ :=
  let (width, low, high) := utf8Width first
  match rest with
  | second :: rest =>
      if 2 ≤ width && low ≤ second && second ≤ high then
        2 + ((rest.take (width - 2)).takeWhile isContinuation).length
      else 1
  | [] => 1

/-- The character of a UTF-8 sequence. -/
def utf8Char (first : UInt8) (continued : List UInt8) : Char :=
  let lead := match continued.length with
    | 0 => first.toNat
    | 1 => first.toNat - 0xc0
    | 2 => first.toNat - 0xe0
    | _ => first.toNat - 0xf0
  Char.ofNat (continued.foldl (fun code byte => code * 64 + (byte.toNat - 0x80)) lead)

/-- `from_utf8_lossy`: the longest beginning of a sequence that is not completed becomes one
replacement character. -/
def fromUtf8Lossy (bytes : List UInt8) : List Char :=
  go bytes.length bytes
where
  go : ℕ → List UInt8 → List Char
    | 0, _ => []
    | _, [] => []
    | fuel + 1, first :: rest =>
        let read := utf8Prefix first rest
        (if read = (utf8Width first).1 then utf8Char first (rest.take (read - 1)) else '\ufffd') ::
          go fuel (rest.drop (read - 1))

/-- Whether a text goes on after the member's name as `refresh_token=` or `"refresh_token":`. -/
def assignsValue (text : List Char) : Bool :=
  let unquoted := text.dropWhile fun c => c = '"' || c = '\''
  match unquoted.dropWhile isWhitespace with
  | c :: _ => c = '=' || c = ':'
  | [] => false
where
  /-- The Unicode property `White_Space`. -/
  isWhitespace (c : Char) : Bool :=
    (9 ≤ c.toNat && c.toNat ≤ 13) || c = ' ' || c.toNat = 0x85 || c.toNat = 0xa0 ||
      c.toNat = 0x1680 || (0x2000 ≤ c.toNat && c.toNat ≤ 0x200a) || c.toNat = 0x2028 ||
      c.toNat = 0x2029 || c.toNat = 0x202f || c.toNat = 0x205f || c.toNat = 0x3000

/-- Whether a body names a `refresh_token` as a member or field. -/
def namesRefreshToken (body : List UInt8) : Bool :=
  go (fromUtf8Lossy body)
where
  go : List Char → Bool
    | [] => false
    | c :: text =>
        (refreshTokenMember.toList.isPrefixOf (c :: text) &&
          assignsValue ((c :: text).drop refreshTokenMember.toList.length)) || go text

/-- A 2xx status. -/
def successStatus (status : ℕ) : Bool := 200 ≤ status && status < 300

namespace SerdeJson

variable (json : SerdeJson)

/-- The first non-empty string `refresh_token` member of a 2xx JSON object body. -/
def upstreamRefreshToken (status : ℕ) (body : List UInt8) : Option String :=
  if successStatus status then
    match json.members body with
    | none => none
    | some members =>
        ((members.filter fun member => member.1 = refreshTokenMember).filterMap
          fun member => json.decodeString member.2).find? fun token => token ≠ ""
  else none

/-- Sets the `refresh_token` member of a 2xx JSON object body: every existing member is
replaced in place, and one is appended when there is none. -/
def withRefreshToken (status : ℕ) (body : List UInt8) (token : String) :
    Option (List UInt8) :=
  if successStatus status then
    match json.members body, json.encodeString token with
    | some members, some value =>
        if members.any fun member => member.1 = refreshTokenMember then
          json.toVec (members.map fun member =>
            if member.1 = refreshTokenMember then (member.1, value) else member)
        else json.toVec (members ++ [(refreshTokenMember, value)])
    | _, _ => none
  else none

/-- An OAuth `invalid_grant` error: the upstream has rejected the refresh token itself. -/
def isInvalidGrant (response : StoredResponse) : Bool :=
  400 ≤ response.status && response.status < 500 &&
    json.errorMember response.body = some "invalid_grant"

end SerdeJson

/-- A successful response. -/
def StoredResponse.isSuccess (response : StoredResponse) : Bool := successStatus response.status

/-- An `invalid_grant` error is not a success. -/
theorem SerdeJson.not_isSuccess_of_isInvalidGrant {json : SerdeJson} {response : StoredResponse}
    (invalid : json.isInvalidGrant response = true) : response.isSuccess = false := by
  simp only [isInvalidGrant, Bool.and_eq_true, decide_eq_true_eq] at invalid
  simp only [StoredResponse.isSuccess, successStatus, Bool.and_eq_false_iff,
    decide_eq_false_iff_not]
  omega

end OAuthRelay
