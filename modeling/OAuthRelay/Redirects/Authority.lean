import OAuthRelay.Config.Compile
import OAuthRelay.Redirects.Matchers

/-!
# Where a redirect leads

The relay sends the text of a redirect, and whoever follows it reads the text anew: a browser
with the URL of the relay as the base, another client by the generic syntax. A text that spells
`scheme://host:port` as the parser has it leads all of them to the same place
(`SentThere`).

The matchers for loopback addresses and for `http` origins check this. The matcher for an `https`
origin does not, and accepts texts that the parser has repaired (`Repaired`). A browser takes
`https:app.example` for a path at the relay.
-/

set_option autoImplicit false

namespace OAuthRelay.Redirects

open Config (Rules)
open Text (lower parseU16 rsplitOnce splitOnce)

/-! ## Reading a text -/

/-- The text of a host. In brackets it is an address; otherwise it is the host as the URL has it,
without regard to case, and has no user information before it. -/
inductive HostText (url : Url) : List Char → Prop
  | address {literal : List Char} {address : Text.Ipv6Addr} (host : url.host = some (.ipv6 address))
      (reads : Text.parseIpv6 literal = some address) : HostText url ('[' :: literal ++ [']'])
  | name {text : List Char} {parsed : String} (host : url.hostStr = some parsed)
      (same : lower text = lower parsed.toList) (anonymous : '@' ∉ text) : HostText url text

/-- The text of an authority: a host, and the port unless it is the default. -/
inductive AuthorityText (url : Url) : List Char → Prop
  | host {host : List Char} (text : HostText url host) (default : url.port = none) :
      AuthorityText url host
  | port {host port : List Char} (text : HostText url host) (digits : port.all Char.isDigit)
      (nonempty : port ≠ []) (reads : parseU16 port = url.portOrKnownDefault) :
      AuthorityText url (host ++ ':' :: port)

/-- The text by the generic syntax: a scheme, `://`, an authority, and then a path, a query or a
fragment. They are those of the URL. -/
def Spells (raw : String) (url : Url) : Prop :=
  ∃ scheme authority rest, raw.toList = scheme ++ [':', '/', '/'] ++ authority ++ rest ∧
    lower scheme = lower url.scheme.toList ∧ AuthorityText url authority ∧
    (∀ c ∈ authority, c ∉ ['/', '?', '#']) ∧ ∀ c ∈ rest.head?, c ∈ ['/', '?', '#']

/-! ## Locations -/

/-- Appends pairs to the query of a URL. Their encoding is the parser's library's. -/
def appendQueryPairs (encode : List (String × String) → String) (url : String)
    (pairs : List (String × String)) : String :=
  if pairs = [] then url
  else
    let url :=
      if '?' ∉ url.toList then url.push '?'
      else if url.toList.getLast? ≠ some '?' && url.toList.getLast? ≠ some '&' then url.push '&'
      else url
    url ++ encode pairs

/-- What `callback` answers with: the redirect, with pairs appended several times. -/
def Location (redirect location : String) : Prop :=
  ∃ (encode : List (String × String) → String) (groups : List (List (String × String))),
    location = groups.foldl (appendQueryPairs encode) redirect

/-- The URLs have one scheme, host and port. -/
structure Url.SameAuthority (a b : Url) : Prop where
  scheme : a.scheme = b.scheme
  host : a.host = b.host
  hostStr : a.hostStr = b.hostStr
  port : a.port = b.port

/-- A browser resolves a location against a base. -/
abbrev Resolver := Url → String → Except String Url

/-- The text begins with the scheme of the web and two slashes. -/
def Absolute (raw : String) : Prop :=
  ∃ scheme rest, raw.toList = scheme ++ [':', '/', '/'] ++ rest ∧
    lower scheme ∈ ["http".toList, "https".toList]

/-- What is used of URL parsers. -/
structure Whatwg (parse : Parser) (resolve : Resolver) : Prop where
  /-- A base plays no part where a scheme and two slashes are spelled out. -/
  absolute : ∀ base raw, Absolute raw → resolve base raw = parse raw
  /-- User information is no part of a host. -/
  host : ∀ raw url name, parse raw = .ok url → url.hostStr = some name → '@' ∉ name.toList
  /-- What is appended to the query of a text that spells its authority leaves the authority. -/
  query : ∀ (raw raw' : String) url suffix, parse raw = .ok url → Spells raw url →
    raw'.toList = raw.toList ++ suffix →
    (suffix = [] ∨ '?' ∈ raw.toList ∨ suffix.head? = some '?') →
    ∃ found, parse raw' = .ok found ∧ found.SameAuthority url

/-! ## What is claimed -/

/-- The matchers that match an authority. -/
def RedirectMatcher.MatchesAuthority : RedirectMatcher → Prop
  | .uri _ => False
  | .origin _ | .loopback _ | .loopbackOrigin _ => True

variable {parse : Parser} {rules : Rules}

/-- The redirect is accepted through a matcher. -/
structure AcceptedThrough (relay : Relay parse rules) (options : RedirectOptions)
    (redirect : String) (url : Url) (matcher : RedirectMatcher) : Prop where
  raw : validateRawUri redirect = .ok ()
  parsed : parse redirect = .ok url
  valid : validRedirectUrl url = true
  member : matcher ∈ relay.redirectPolicy
  accepts : matcher.accepts parse redirect url options = true

/-- The redirect leads to the authority of its URL, whoever reads the location. -/
structure SentThere (resolve : Resolver) (redirect : String) (url : Url) : Prop where
  canonical : canonicalAuthority redirect url = true
  generic : ∀ location, Location redirect location → Spells location url
  browser : ∀ base location, Location redirect location →
    ∃ found, resolve base location = .ok found ∧ found.SameAuthority url

/-- The redirect is of the origin of an `https` matcher, but its text does not spell the authority
that the parser has made of it. -/
def Repaired (relay : Relay parse rules) (redirect : String) : Prop :=
  ∃ url origin, validateRawUri redirect = .ok () ∧ parse redirect = .ok url ∧
    validRedirectUrl url = true ∧ url.scheme = "https" ∧
    RedirectMatcher.origin origin ∈ relay.redirectPolicy ∧ origin.matchesUrl url = true ∧
    canonicalAuthority redirect url = false

/-! ## What is accepted -/

/-- **A redirect is allowed when it is accepted through some matcher.** -/
theorem redirectAllowed_iff {relay : Relay parse rules} {options : RedirectOptions}
    {redirect : String} : redirectAllowed relay redirect options = true ↔
      ∃ url matcher, AcceptedThrough relay options redirect url matcher := by
  unfold redirectAllowed
  constructor
  · intro allowed
    obtain ⟨raw, allowed⟩ := Bool.and_eq_true_iff.mp allowed
    split at allowed
    · cases allowed
    · rename_i url parsed
      obtain ⟨valid, allowed⟩ := Bool.and_eq_true_iff.mp allowed
      obtain ⟨matcher, member, accepts⟩ := List.any_eq_true.mp allowed
      refine ⟨url, matcher, ?_, parsed, valid, member, accepts⟩
      cases checked : validateRawUri redirect with
      | error => rw [checked] at raw; cases raw
      | ok => rfl
  · rintro ⟨url, matcher, raw, parsed, valid, member, accepts⟩
    rw [raw, parsed]
    simp only [valid, Bool.true_and]
    exact Bool.and_eq_true_iff.mpr ⟨rfl, List.any_eq_true.mpr ⟨matcher, member, accepts⟩⟩

/-! ## What a canonical text spells -/

/-- The raw authority is a part of the text. -/
theorem rawAuthority_eq_some {raw host : List Char} {port : Option (List Char)}
    (found : rawAuthority raw = some (host, port)) :
    ∃ scheme authority rest, splitOnce [':', '/', '/'] raw = some (scheme, authority ++ rest) ∧
      authority = host ++ port.elim [] (':' :: ·) ∧
      (∀ c ∈ authority, c ∉ ['/', '?', '#']) ∧ ∀ c ∈ rest.head?, c ∈ ['/', '?', '#'] := by
  unfold rawAuthority at found
  obtain ⟨⟨scheme, rest⟩, first, found⟩ := Option.bind_eq_some_iff.mp found
  let inside (c : Char) : Bool := c ∉ ['/', '?', '#']
  refine ⟨scheme, rest.takeWhile inside, rest.dropWhile inside, ?_, ?_, ?_, ?_⟩
  · rw [List.takeWhile_append_dropWhile]
    exact first
  · dsimp only at found
    split at found
    · obtain ⟨⟨before, tail⟩, parts, found⟩ := Option.bind_eq_some_iff.mp found
      dsimp only at found
      split at found
      · cases found
        rw [Text.append_of_splitOnce parts]
        rfl
      · cases found
        rw [Text.append_of_splitOnce parts]
        rfl
      · cases found
    · split at found
      · rename_i parts
        cases found
        exact Text.append_of_rsplitOnce parts
      · cases found
        exact (List.append_nil _).symm
  · intro c member
    simpa [inside] using List.mem_takeWhile_imp member
  · intro c member
    have last := List.head?_dropWhile_not inside rest
    rw [Option.mem_def.mp member] at last
    exact Decidable.not_not.mp (of_decide_eq_false last)

theorem hostText_of_hostMatches {host : List Char} {url : Url}
    (matched : hostMatches host url = true)
    (anonymous : ∀ name, url.hostStr = some name → '@' ∉ name.toList) : HostText url host := by
  unfold hostMatches at matched
  split at matched
  · rename_i address parsed
    have reads := of_decide_eq_true matched
    unfold bracketed at reads
    split at reads
    · rename_i rest
      split at reads
      · rename_i closed
        obtain ⟨literal, rfl⟩ := List.getLast?_eq_some_iff.mp closed
        rw [List.dropLast_concat] at reads
        exact .address parsed reads
      · cases reads
    · cases reads
  · obtain ⟨name, parsed, same⟩ := (Option.any_eq_true _ _).mp matched
    have same := of_decide_eq_true same
    refine .name parsed same fun member => anonymous name parsed ?_
    exact Text.mem_of_lower_eq same (.inl (by decide)) rfl member
  · cases matched

theorem authorityText_of_matches {host : List Char} {port : Option (List Char)} {url : Url}
    (text : HostText url host) (matched : portMatches port url = true) :
    AuthorityText url (host ++ port.elim [] (':' :: ·)) := by
  cases port with
  | none =>
      rw [Option.elim_none, List.append_nil]
      exact .host text (Option.isNone_iff_eq_none.mp matched)
  | some port =>
      simp only [portMatches, Bool.and_eq_true, decide_eq_true_eq] at matched
      obtain ⟨⟨⟨nonempty, digits⟩, -⟩, reads⟩ := matched
      exact .port text digits nonempty reads

/-- **A canonical text spells the authority of the URL.** -/
theorem spells_of_canonical {resolve : Resolver} (whatwg : Whatwg parse resolve) {raw : String}
    {url : Url} (parsed : parse raw = .ok url) (canonical : canonicalAuthority raw url = true) :
    Spells raw url := by
  unfold canonicalAuthority at canonical
  split at canonical
  · rename_i scheme _ host port first authority
    simp only [Bool.and_eq_true, decide_eq_true_eq] at canonical
    obtain ⟨⟨sameScheme, sameHost⟩, samePort⟩ := canonical
    obtain ⟨scheme', text, rest, found, shape, inside, after⟩ := rawAuthority_eq_some authority
    obtain ⟨rfl, rfl⟩ := Prod.mk.inj (Option.some.inj (first.symm.trans found))
    refine ⟨scheme, text, rest, ?_, sameScheme, ?_, inside, after⟩
    · rw [Text.append_of_splitOnce first, List.append_assoc _ text]
    · rw [shape]
      exact authorityText_of_matches
        (hostText_of_hostMatches sameHost fun name => whatwg.host raw url name parsed) samePort
  · cases canonical

/-! ## Where a canonical text leads -/

theorem appendQueryPairs_eq (encode : List (String × String) → String) (url : String)
    (pairs : List (String × String)) : ∃ suffix,
      (appendQueryPairs encode url pairs).toList = url.toList ++ suffix ∧
      (suffix = [] ∨ '?' ∈ url.toList ∨ suffix.head? = some '?') := by
  unfold appendQueryPairs
  split
  · exact ⟨[], (List.append_nil _).symm, .inl rfl⟩
  · by_cases query : '?' ∈ url.toList
    · dsimp only
      rw [if_neg (not_not_intro query)]
      split
      · exact ⟨'&' :: (encode pairs).toList, by simp, .inr (.inl query)⟩
      · exact ⟨(encode pairs).toList, String.toList_append, .inr (.inl query)⟩
    · dsimp only
      rw [if_pos query]
      exact ⟨'?' :: (encode pairs).toList, by simp, .inr (.inr rfl)⟩

/-- A location is the redirect, and what is appended belongs to its query. -/
theorem location_eq {redirect location : String} (leads : Location redirect location) :
    ∃ suffix, location.toList = redirect.toList ++ suffix ∧
      (suffix = [] ∨ '?' ∈ redirect.toList ∨ suffix.head? = some '?') := by
  obtain ⟨encode, groups, rfl⟩ := leads
  induction groups generalizing redirect with
  | nil => exact ⟨[], (List.append_nil _).symm, .inl rfl⟩
  | cons pairs groups ih =>
      obtain ⟨first, whole, query⟩ := appendQueryPairs_eq encode redirect pairs
      obtain ⟨rest, whole', query'⟩ := @ih (appendQueryPairs encode redirect pairs)
      refine ⟨first ++ rest, by rw [List.foldl_cons, whole', whole, List.append_assoc], ?_⟩
      rcases query with rfl | query | query
      · rw [whole, List.append_nil] at query'
        exact query'
      · exact .inr (.inl query)
      · exact .inr (.inr (by rw [List.head?_append, query]; rfl))

theorem lower_scheme_of_valid {url : Url} (valid : validRedirectUrl url = true) :
    lower url.scheme.toList ∈ ["http".toList, "https".toList] := by
  simp only [validRedirectUrl, Bool.and_eq_true, Bool.or_eq_true, decide_eq_true_eq] at valid
  rcases valid.1.1.1.1 with http | https
  · rw [http]
    decide
  · rw [https]
    decide

/-- What is appended to the query leaves what is spelled. -/
theorem Spells.append {raw raw' : String} {url : Url} (spells : Spells raw url)
    (valid : validRedirectUrl url = true) {suffix : List Char}
    (whole : raw'.toList = raw.toList ++ suffix)
    (query : suffix = [] ∨ '?' ∈ raw.toList ∨ suffix.head? = some '?') : Spells raw' url := by
  obtain ⟨scheme, authority, rest, shape, same, text, inside, after⟩ := spells
  refine ⟨scheme, authority, rest ++ suffix, by rw [whole, shape, List.append_assoc _ rest], same,
    text, inside, ?_⟩
  intro c first
  rw [List.head?_append] at first
  cases rest with
  | cons d rest => exact after c first
  | nil =>
      rcases query with rfl | query | query
      · cases first
      · -- Neither a scheme nor an authority has a question mark.
        rw [shape, List.append_nil] at query
        rcases List.mem_append.mp query with front | member
        · rcases List.mem_append.mp front with member | member
          · have lowered : '?' ∈ lower scheme := List.mem_map.mpr ⟨'?', member, rfl⟩
            rw [same] at lowered
            have known := lower_scheme_of_valid valid
            simp only [List.mem_cons, List.not_mem_nil, or_false] at known
            rcases known with http | https
            · rw [http] at lowered
              exact absurd lowered (by decide)
            · rw [https] at lowered
              exact absurd lowered (by decide)
          · exact absurd member (by decide)
        · exact absurd (by decide) (inside '?' member)
      · rw [query] at first
        cases first
        decide

/-- **A canonical redirect leads to its URL.** -/
theorem sentThere_of_canonical {resolve : Resolver} (whatwg : Whatwg parse resolve)
    {redirect : String} {url : Url} (parsed : parse redirect = .ok url)
    (valid : validRedirectUrl url = true) (canonical : canonicalAuthority redirect url = true) :
    SentThere resolve redirect url := by
  have spells := spells_of_canonical whatwg parsed canonical
  refine ⟨canonical, fun location leads => ?_, fun base location leads => ?_⟩
  · obtain ⟨suffix, whole, query⟩ := location_eq leads
    exact spells.append valid whole query
  · obtain ⟨suffix, whole, query⟩ := location_eq leads
    obtain ⟨found, parsed', same⟩ :=
      whatwg.query redirect location url suffix parsed spells whole query
    refine ⟨found, ?_, same⟩
    rw [whatwg.absolute base location, parsed']
    obtain ⟨scheme, authority, rest, shape, lowered, -, -, -⟩ := spells.append valid whole query
    refine ⟨scheme, authority ++ rest, by rw [shape, List.append_assoc _ authority], ?_⟩
    rw [lowered]
    exact lower_scheme_of_valid valid

/-! ## What the matchers check -/

/-- **Only the matcher for an `https` origin leaves the spelling unchecked.** -/
theorem canonical_of_accepts {matcher : RedirectMatcher} {redirect : String} {url : Url}
    {options : RedirectOptions} (authority : matcher.MatchesAuthority)
    (accepts : matcher.accepts parse redirect url options = true) :
    canonicalAuthority redirect url = true ∨
      url.scheme = "https" ∧ ∃ origin, matcher = .origin origin ∧ origin.matchesUrl url = true := by
  cases matcher with
  | uri => exact authority.elim
  | origin origin =>
      simp only [RedirectMatcher.accepts, Bool.and_eq_true, Bool.or_eq_true,
        decide_eq_true_eq] at accepts
      obtain ⟨⟨-, sameOrigin⟩, https | canonical⟩ := accepts
      · exact .inr ⟨https, origin, rfl, sameOrigin⟩
      · exact .inl canonical
  | loopback value =>
      obtain ⟨base, -, checks⟩ := (Option.any_eq_true _ _).mp accepts
      simp only [Bool.and_eq_true] at checks
      exact .inl checks.1.2
  | loopbackOrigin origin =>
      simp only [RedirectMatcher.accepts, Bool.and_eq_true] at accepts
      exact .inl accepts.2

/-- A matcher for an origin that has the scheme of an `https` URL accepts it. -/
theorem accepts_of_https {origin : Origin} {redirect : String} {url : Url}
    (options : RedirectOptions) (https : url.scheme = "https")
    (same : origin.matchesUrl url = true) :
    (RedirectMatcher.origin origin).accepts parse redirect url options = true := by
  have scheme : origin.url.scheme = "https" := by
    simp only [Origin.matchesUrl, sameOrigin, Bool.and_eq_true, decide_eq_true_eq] at same
    rw [same.1.1, https]
  simp only [RedirectMatcher.accepts, originPermitted, scheme, same, https, Bool.true_and,
    decide_true, Bool.true_or]

def appUrl : Url :=
  ⟨"https://app.example/cb", "https", "", none, some (.domain "app.example"), some "app.example",
    none, "/cb", none, none⟩

def relayUrl : Url :=
  ⟨"https://relay.example/", "https", "", none, some (.domain "relay.example"),
    some "relay.example", none, "/", none, none⟩

/-- A parser that knows one redirect, what can be appended to it, and a text without slashes that
it repairs. -/
def sampleParse : Parser := fun raw =>
  if raw = "https:app.example/cb" ∨ "https://app.example/cb".toList.isPrefixOf raw.toList then
    .ok appUrl
  else .error "relative URL without a base"

/-- The text without slashes is relative to a base of its scheme. -/
def sampleResolve : Resolver := fun base raw =>
  if raw = "https:app.example/cb" ∧ base.scheme = "https" then
    .ok { base with
      asStr := base.originSerialization ++ "/app.example/cb"
      path := "/app.example/cb" }
  else sampleParse raw

/-- The text without slashes has one slash only. -/
theorem not_spelled {scheme rest : List Char} :
    "https:app.example/cb".toList ≠ scheme ++ [':', '/', '/'] ++ rest := by
  intro same
  have slashes := congrArg (List.count '/') same
  have one : List.count '/' "https:app.example/cb".toList = 1 := by decide
  have two : List.count '/' [':', '/', '/'] = 2 := by decide
  rw [List.count_append, List.count_append, one, two] at slashes
  omega

theorem whatwg_sample : Whatwg sampleParse sampleResolve where
  absolute base raw absolute := by
    refine if_neg fun ⟨repaired, _⟩ => ?_
    obtain ⟨scheme, rest, whole, -⟩ := absolute
    rw [repaired] at whole
    exact not_spelled whole
  host raw url name parsed named := by
    unfold sampleParse at parsed
    split at parsed
    · cases parsed
      cases named
      decide
    · cases parsed
  query raw raw' url suffix parsed spells whole _ := by
    unfold sampleParse at parsed ⊢
    split at parsed
    · rename_i known
      cases parsed
      refine ⟨appUrl, if_pos (.inr ?_), rfl, rfl, rfl, rfl⟩
      rcases known with repaired | known
      · obtain ⟨scheme, authority, rest, shape, -⟩ := spells
        rw [repaired, List.append_assoc _ authority] at shape
        exact absurd shape not_spelled
      · rw [List.isPrefixOf_iff_prefix] at known ⊢
        rw [whole]
        exact known.trans (List.prefix_append _ _)
    · cases parsed

def appOrigin : Origin where
  url := { appUrl with asStr := "https://app.example/", path := "/" }
  scheme := .inr rfl
  host := rfl
  bare := ⟨rfl, rfl, rfl⟩
  anonymous := ⟨rfl, rfl⟩

/-- A relay for every path at one origin. -/
def appRelay : Relay sampleParse Config.plainRules :=
  ⟨Codes.sampleKey, Codes.sampleKey, none, .upstreamClient, [], none, [], none,
    ⟨.passthrough, 30, 2592000⟩, [.origin appOrigin]⟩

def noOptions : RedirectOptions := ⟨false, false⟩

end OAuthRelay.Redirects
