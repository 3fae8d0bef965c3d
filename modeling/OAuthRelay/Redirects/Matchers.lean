import Mathlib.Data.List.DropRight
import OAuthRelay.Config.Documents
import OAuthRelay.Redirects.Text

/-!
# Redirect matchers

A relay sends an authorization code to a redirect only if a matcher of its policy accepts the
redirect. A matcher is one redirect URI, every path at an origin, or a loopback address on any
port, with one path and query or with any. Two options that are off by default admit `http`
origins, and `localhost` names where a loopback address is configured.

The URL parser is a parameter. It repairs what is spelled badly, and what is sent is the text of
a redirect. Most matchers therefore also check the text (`canonicalAuthority`).
-/

set_option autoImplicit false

namespace OAuthRelay.Redirects

open Config (Error Readers Rules Value)
open Text (Ipv6Addr lower parseIpv6 parseU16 rsplitOnce splitOnce)

/-! ## URLs -/

inductive Host where
  | domain (name : String)
  | ipv4 (address : BitVec 32)
  | ipv6 (address : Ipv6Addr)
  deriving DecidableEq

/-- A parsed URL, with its serialization. -/
structure Url where
  asStr : String
  scheme : String
  username : String
  password : Option String
  host : Option Host
  hostStr : Option String
  /-- The port, unless it is the default of the scheme. -/
  port : Option ℕ
  path : String
  query : Option String
  fragment : Option String

/-- `Url::parse`. -/
abbrev Parser := String → Except String Url

namespace Url

def portOrKnownDefault (url : Url) : Option ℕ :=
  url.port.or <|
    match url.scheme with
    | "http" | "ws" => some 80
    | "https" | "wss" => some 443
    | "ftp" => some 21
    | _ => none

def isIpLoopback (url : Url) : Bool :=
  match url.host with
  | some (.ipv4 address) => address = 0x7f000001
  | some (.ipv6 address) => address = 1
  | _ => false

/-- `origin().ascii_serialization()` of an `http` or `https` URL. -/
def originSerialization (url : Url) : String :=
  url.scheme ++ "://" ++ url.hostStr.getD "" ++
    match url.port with
    | some port => ":" ++ toString port
    | none => ""

/-- What a configuration needs of a URL. -/
def toConfig (url : Url) : Config.Url where
  asStr := url.asStr
  scheme := url.scheme
  host := url.hostStr.map fun host => (host, url.isIpLoopback)
  username := url.username
  password := url.password
  path := url.path
  query := url.query
  fragment := url.fragment

end Url

/-! ## Texts -/

def validateRawUri (value : String) : Except String Unit :=
  if value.toList.all fun c => c.toNat < 128 && c ∉ [' ', '\t', '\n', '\x0c', '\r', '\\'] then
    .ok ()
  else .error "must use an ASCII URI without whitespace or backslashes"

/-- The host and the optional port between `://` and the first `/`, `?` or `#`. A host in brackets
keeps them. -/
def rawAuthority (raw : List Char) : Option (List Char × Option (List Char)) := do
  let (_, rest) ← splitOnce [':', '/', '/'] raw
  let authority := rest.takeWhile fun c => c ∉ ['/', '?', '#']
  if authority.head? = some '[' then
    let (host, tail) ← splitOnce [']'] authority
    match tail with
    | [] => some (host ++ [']'], none)
    | ':' :: port => some (host ++ [']'], some port)
    | _ => none
  else
    match rsplitOnce ':' authority with
    | some (host, port) => some (host, some port)
    | none => some (authority, none)

def rawPathAndQuery (value : List Char) : Option (List Char) :=
  (splitOnce [':', '/', '/'] value).map fun parts => parts.2.dropWhile fun c => c ∉ ['/', '?']

/-- The address in brackets. -/
def bracketed : List Char → Option Ipv6Addr
  | '[' :: rest => if rest.getLast? = some ']' then parseIpv6 rest.dropLast else none
  | _ => none

/-- The text spells the host as the URL has it. -/
def hostMatches (host : List Char) (url : Url) : Bool :=
  match url.host with
  | some (.ipv6 address) => bracketed host = some address
  | some _ => url.hostStr.any fun parsed => lower host = lower parsed.toList
  | none => false

/-- The text spells the port as the URL has it. -/
def portMatches (port : Option (List Char)) (url : Url) : Bool :=
  match port with
  | none => url.port.isNone
  | some port =>
      port ≠ [] && port.all Char.isDigit && (port = ['0'] || port.head? ≠ some '0') &&
        parseU16 port = url.portOrKnownDefault

/-- The text spells its scheme, host and port as the URL has them, so that no form passes that the
parser has repaired. -/
def canonicalAuthority (raw : String) (url : Url) : Bool :=
  match splitOnce [':', '/', '/'] raw.toList, rawAuthority raw.toList with
  | some (scheme, _), some (host, port) =>
      lower scheme = lower url.scheme.toList && hostMatches host url && portMatches port url
  | _, _ => false

/-! ## URLs of redirects -/

def validRedirectUrl (url : Url) : Bool :=
  (url.scheme = "http" || url.scheme = "https") && url.host.isSome && url.fragment.isNone &&
    url.username = "" && url.password.isNone

def validateExactUri (parse : Parser) (value : String) : Except String Unit := do
  validateRawUri value
  let url ← parse value
  if !validRedirectUrl url then
    throw "must be an absolute redirect URI without user information or fragment"
  if url.scheme = "https" || (url.scheme = "http" && url.isIpLoopback) then pure ()
  else throw "must use https unless it targets an IP-literal loopback host"

def validateLoopbackBase (url : Url) : Except String Unit :=
  if url.scheme ≠ "http" || !url.isIpLoopback || url.port.isSome || url.fragment.isSome ||
      url.username ≠ "" || url.password.isSome then
    .error <| "must be an http URI on 127.0.0.1 or ::1 without a port, user information, or " ++
      "fragment"
  else .ok ()

def validateLoopbackUri (parse : Parser) (value : String) : Except String Unit := do
  validateRawUri value
  let url ← parse value
  validateLoopbackBase url

/-- A scheme, a host and a port. -/
structure Origin where
  url : Url
  scheme : url.scheme = "http" ∨ url.scheme = "https"
  host : url.hostStr.isSome
  bare : url.path = "/" ∧ url.query = none ∧ url.fragment = none
  anonymous : url.username = "" ∧ url.password = none

def Origin.parse (parse : Parser) (value : String) : Except String Origin := do
  let url ← parse value
  if absolute : (url.scheme = "http" ∨ url.scheme = "https") ∧ url.hostStr.isSome then
    if bare : url.path = "/" ∧ url.query = none ∧ url.fragment = none then
      if anonymous : url.username = "" ∧ url.password = none then
        pure ⟨url, absolute.1, absolute.2, bare, anonymous⟩
      else throw "must not contain user information"
    else throw "must contain only scheme, host, and optional port"
  else throw "must be an http(s) origin"

/-- A host without regard to case and trailing dots. -/
def comparable (host : String) : List Char := lower (host.toList.rdropWhile (· = '.'))

def sameOrigin (a b : Url) : Bool :=
  a.scheme = b.scheme && a.hostStr.map comparable = b.hostStr.map comparable &&
    a.portOrKnownDefault = b.portOrKnownDefault

def Origin.matchesUrl (origin : Origin) (url : Url) : Bool := sameOrigin origin.url url

def validateLoopbackOrigin (origin : Origin) : Except String Unit := do
  validateLoopbackBase origin.url
  if origin.url.path ≠ "/" || origin.url.query.isSome then
    throw "loopback origin must not contain a path or query"

def validLabel (label : List Char) : Bool :=
  1 ≤ label.length && label.length ≤ 63 && label.all (fun c => c.isAlphanum || c = '-') &&
    label.head? ≠ some '-' && label.getLast? ≠ some '-'

/-- `localhost`, or labels and `.localhost`. -/
def isLocalhostName (domain : String) : Bool :=
  let name := lower domain.toList
  let suffix := ".localhost".toList
  name = "localhost".toList ||
    (domain.utf8ByteSize ≤ 253 && suffix.isSuffixOf name &&
      let labels := name.take (name.length - suffix.length)
      labels ≠ [] && (labels.splitOn '.').all validLabel)

def loopbackHostMatches (base candidate : Url) (allowLocalhost : Bool) : Bool :=
  base.host = candidate.host ||
    (allowLocalhost &&
      match candidate.host with
      | some (.domain domain) => isLocalhostName domain
      | _ => false)

/-! ## Matchers -/

/-- What is admitted beyond the defaults. -/
structure RedirectOptions where
  allowLocalhostLoopback : Bool
  allowHttpOrigins : Bool

def originPermitted (origin : Origin) (options : RedirectOptions) : Bool :=
  match origin.url.scheme with
  | "https" => true
  | "http" => options.allowHttpOrigins
  | _ => false

inductive RedirectMatcher where
  /-- One complete redirect URI. -/
  | uri (value : String)
  /-- Every path and query at an origin. -/
  | origin (origin : Origin)
  /-- One path and query on a loopback address, on any port. -/
  | loopback (value : String)
  /-- Every path and query on a loopback address, on any port. -/
  | loopbackOrigin (origin : Origin)

namespace RedirectMatcher

variable (parse : Parser)

/-- `RedirectMatcher::uri`. -/
def ofUri (value : String) : Except String RedirectMatcher := do
  validateExactUri parse value
  pure (.uri value)

/-- `RedirectMatcher::origin`. -/
def ofOrigin (value : String) : Except String RedirectMatcher := do
  let origin ← Origin.parse parse value
  if origin.url.scheme ≠ "https" then throw "must use https"
  pure (.origin origin)

/-- `RedirectMatcher::http_origin`. -/
def ofHttpOrigin (value : String) : Except String RedirectMatcher := do
  validateRawUri value
  let origin ← Origin.parse parse value
  if origin.url.scheme ≠ "http" then throw "must use http"
  if !(rawPathAndQuery value.toList = some [] || rawPathAndQuery value.toList = some ['/']) ||
      !canonicalAuthority value origin.url then
    throw "must be spelled canonically as http://host or http://host:port, without a path"
  pure (.origin origin)

/-- `RedirectMatcher::loopback`. -/
def ofLoopback (value : String) : Except String RedirectMatcher := do
  validateLoopbackUri parse value
  pure (.loopback value)

def loopbackOriginError : String :=
  "must be http://127.0.0.1 or http://[::1] without a port, path, query, user information, or " ++
    "fragment"

/-- `RedirectMatcher::loopback_origin`. -/
def ofLoopbackOrigin (value : String) : Except String RedirectMatcher := do
  validateRawUri value
  if !(rawPathAndQuery value.toList = some [] || rawPathAndQuery value.toList = some ['/']) then
    throw loopbackOriginError
  let origin ← (Origin.parse parse value).mapError fun _ => loopbackOriginError
  (validateLoopbackOrigin origin).mapError fun _ => loopbackOriginError
  if !canonicalAuthority value origin.url ||
      (rawAuthority value.toList).all fun authority => authority.2.isSome then
    throw loopbackOriginError
  pure (.loopbackOrigin origin)

/-- What two matchers of one policy may not share. -/
def identity : RedirectMatcher → String
  | uri value => "uri\x00" ++ value
  | origin value => "origin\x00" ++ value.url.asStr
  | loopback value => "loopback\x00" ++ value
  | loopbackOrigin value => "loopback_origin\x00" ++ value.url.asStr

def validate : RedirectMatcher → Except String Unit
  | uri value => validateExactUri parse value
  | origin _ => pure ()
  | loopback value => validateLoopbackUri parse value
  | loopbackOrigin value => validateLoopbackOrigin value

/-- The origin of an `Origin` matcher that is not `https`. -/
def httpOrigin : RedirectMatcher → Option String
  | origin value =>
      if value.url.scheme ≠ "https" then some value.url.originSerialization else none
  | _ => none

/-- The matcher accepts a redirect, of which `url` is what the parser makes. -/
def accepts (redirect : String) (url : Url) (options : RedirectOptions) : RedirectMatcher → Bool
  | uri value => (validateExactUri parse value).isOk && value = redirect
  | origin value =>
      originPermitted value options && value.matchesUrl url &&
        (url.scheme = "https" || canonicalAuthority redirect url)
  | loopback value =>
      (parse value).toOption.any fun base =>
        (validateLoopbackUri parse value).isOk && url.scheme = "http" &&
          loopbackHostMatches base url options.allowLocalhostLoopback &&
          canonicalAuthority redirect url &&
          (rawPathAndQuery value.toList).any fun tail =>
            rawPathAndQuery redirect.toList = some tail
  | loopbackOrigin value =>
      (validateLoopbackOrigin value).isOk && url.scheme = "http" &&
        loopbackHostMatches value.url url options.allowLocalhostLoopback &&
        canonicalAuthority redirect url

end RedirectMatcher

/-! ## Policies -/

/-- Rules with these matchers. Of other rules they have the ID-token policies. -/
abbrev redirectRules (parse : Parser) (rules : Rules) : Rules where
  parseUrl value := (parse value).toOption.map Url.toConfig
  Matcher := RedirectMatcher
  identity := RedirectMatcher.identity
  validateMatcher := RedirectMatcher.validate parse
  httpOrigin := RedirectMatcher.httpOrigin
  Policy := rules.Policy
  validatePolicy := rules.validatePolicy

/-- The matchers that are built from a configuration. -/
abbrev redirectReaders (parse : Parser) (rules : Rules) (PublicJwkSet : Type)
    (toValue : PublicJwkSet → Except Error Value) : Readers (redirectRules parse rules) where
  uri := RedirectMatcher.ofUri parse
  origin := RedirectMatcher.ofOrigin parse
  httpOrigin := RedirectMatcher.ofHttpOrigin parse
  loopback := RedirectMatcher.ofLoopback parse
  loopbackOrigin := RedirectMatcher.ofLoopbackOrigin parse
  PublicJwkSet := PublicJwkSet
  toValue := toValue

variable {parse : Parser} {rules : Rules}

/-- A relay with these matchers. -/
abbrev Relay (parse : Parser) (rules : Rules) := Config.Relay (redirectRules parse rules)

/-- `Relay::redirect_allowed`. -/
def redirectAllowed (relay : Relay parse rules) (redirect : String) (options : RedirectOptions) :
    Bool :=
  (validateRawUri redirect).isOk &&
    match parse redirect with
    | .error _ => false
    | .ok url =>
        validRedirectUrl url &&
          relay.redirectPolicy.any (RedirectMatcher.accepts parse redirect url options)

end OAuthRelay.Redirects
