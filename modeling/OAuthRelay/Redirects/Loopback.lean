import OAuthRelay.Config.Checks
import OAuthRelay.Redirects.Options
import OAuthRelay.Redirects.Serialization

/-!
# Loopback redirects on any port

A native application listens on a port that it does not know beforehand. The matcher for a
loopback address therefore accepts every port, with one path and query: those of the configured
URI. It compares them as texts, which it cuts out of both URIs after the first `://`.

The configured URI is only checked as the parser reads it. When it is spelled out, what is cut out
is its path and query, and only the port is free (`loopback_frees_port_iff`). When it has no `://`
nothing is cut out, and no redirect ever matches; it is the one kind of matcher in a validated
policy that accepts nothing (`no_dead_matcher_iff`).
-/

set_option autoImplicit false

namespace OAuthRelay.Redirects

open Config (Rules)
open Text (splitOnce)

variable {parse : Parser} {rules : Rules}

/-! ## What is claimed -/

/-- The redirect is the configured URI but for the port, and perhaps a `localhost` name for the
address. -/
structure FreesPort (options : RedirectOptions) (base url : Url) : Prop where
  scheme : url.scheme = "http"
  host : url.host = base.host ∨ options.allowLocalhostLoopback = true ∧
    ∃ domain, url.host = some (.domain domain) ∧ LocalhostName domain
  path : url.path = base.path
  query : url.query = base.query

/-- What is cut out of the configured URI is read as its path and query. -/
def CutsPath (parse : Parser) (value : String) (base : Url) : Prop :=
  ∀ tail found, rawPathAndQuery value.toList = some tail →
    parse (base.originSerialization ++ String.ofList tail) = .ok found →
    found.path = base.path ∧ found.query = base.query

/-- Every matcher of the policy accepts some redirect. -/
def NoDeadMatcher (relay : Relay parse rules) (options : RedirectOptions) : Prop :=
  ∀ matcher ∈ relay.redirectPolicy, ∃ redirect url,
    AcceptedThrough relay options redirect url matcher

/-- The origins of the policy have been parsed, as there is no other way to make one. -/
def OriginsParsed (relay : Relay parse rules) : Prop :=
  ∀ origin, (RedirectMatcher.origin origin ∈ relay.redirectPolicy ∨
    RedirectMatcher.loopbackOrigin origin ∈ relay.redirectPolicy) →
    ∃ value, Origin.parse parse value = .ok origin

/-! ## Configured loopback URIs -/

variable {value redirect : String} {base url : Url} {options : RedirectOptions}
  {relay : Relay parse rules}

theorem validateLoopbackBase_eq_ok {u : Unit} (valid : validateLoopbackBase base = .ok u) :
    base.scheme = "http" ∧ base.isIpLoopback = true ∧ base.port = none ∧ base.fragment = none ∧
      base.username = "" ∧ base.password = none := by
  unfold validateLoopbackBase at valid
  split at valid
  · cases valid
  · rename_i plain
    simpa [and_assoc] using plain

theorem validateLoopbackUri_eq_ok {u : Unit} (valid : validateLoopbackUri parse value = .ok u)
    (parsed : parse value = .ok base) :
    validateRawUri value = .ok () ∧ validateLoopbackBase base = .ok () := by
  unfold validateLoopbackUri at valid
  simp only [Memo.bind_eq_ok, parsed, Except.ok.injEq] at valid
  obtain ⟨_, raw, _, rfl, valid⟩ := valid
  exact ⟨raw, valid⟩

theorem valid_of_ofLoopback {matcher : RedirectMatcher}
    (made : RedirectMatcher.ofLoopback parse value = .ok matcher) :
    validateLoopbackUri parse value = .ok () ∧ ∃ base, parse value = .ok base := by
  obtain ⟨_, valid, -⟩ := Memo.bind_eq_ok.mp made
  refine ⟨valid, ?_⟩
  unfold validateLoopbackUri at valid
  obtain ⟨_, -, valid⟩ := Memo.bind_eq_ok.mp valid
  obtain ⟨base, parsed, -⟩ := Memo.bind_eq_ok.mp valid
  exact ⟨base, parsed⟩

theorem accepts_loopback_iff (parsed : parse value = .ok base) :
    (RedirectMatcher.loopback value).accepts parse redirect url options = true ↔
      (validateLoopbackUri parse value).isOk = true ∧ url.scheme = "http" ∧
        loopbackHostMatches base url options.allowLocalhostLoopback = true ∧
        canonicalAuthority redirect url = true ∧
        ∃ tail, rawPathAndQuery value.toList = some tail ∧
          rawPathAndQuery redirect.toList = some tail := by
  simp only [RedirectMatcher.accepts, parsed, Except.toOption, Option.any_some, Bool.and_eq_true,
    decide_eq_true_eq, Option.any_eq_true, and_assoc]

/-- **The redirect that a loopback URI stands for** is its address and what is cut out of it. -/
theorem accepted_loopback (web : Serializes parse) (options : RedirectOptions)
    (member : RedirectMatcher.loopback value ∈ relay.redirectPolicy)
    (valid : validateLoopbackUri parse value = .ok ()) (parsed : parse value = .ok base)
    {tail : List Char} (cut : rawPathAndQuery value.toList = some tail) :
    ∃ found, parse (base.originSerialization ++ String.ofList tail) = .ok found ∧
      AcceptedThrough relay options (base.originSerialization ++ String.ofList tail) found
        (.loopback value) := by
  obtain ⟨raw, checked⟩ := validateLoopbackUri_eq_ok valid parsed
  obtain ⟨http, -, noPort, fragment, -, -⟩ := validateLoopbackBase_eq_ok checked
  have isTail := isTail_of_rawPathAndQuery raw (web.fragment value base parsed fragment) cut
  obtain ⟨text, host⟩ := web.host value base parsed (.inl http)
  obtain ⟨found, reparsed, same, fragment', username, password, -⟩ :=
    web.append value base tail parsed (.inl http) isTail
  have canonical := canonical_append (.inl http) host
    (fun port some => by rw [noPort] at some; cases some) isTail.starts same
  refine ⟨found, reparsed, validateRawUri_append (.inl http) host isTail.raw, reparsed, ?_, member,
    (accepts_loopback_iff parsed).mpr ⟨?_, same.scheme.trans http, ?_, canonical, tail, cut, ?_⟩⟩
  · have hasHost : found.host.isSome = true := by
      rw [same.host]
      exact host.host_isSome
    simp [validRedirectUrl, same.scheme, http, hasHost, fragment', username, password]
  · rw [valid]
    rfl
  · exact loopbackHostMatches_iff.mpr (.inl same.host.symm)
  · exact rawPathAndQuery_of_hasTail (hasTail_append (.inl http) host isTail.starts)

/-- What is cut out of a URI that is spelled out is its path and query. -/
theorem cutsPath_of_hasTail (web : Serializes parse) (parsed : parse value = .ok base)
    (scheme : base.IsWeb) {tail : List Char} (has : HasTail value.toList tail) :
    CutsPath parse value base := by
  intro tail' found cut reparsed
  obtain rfl := Option.some.inj ((rawPathAndQuery_of_hasTail has).symm.trans cut)
  obtain ⟨text, host⟩ := web.host value base parsed scheme
  exact web.tail _ value found base tail reparsed parsed
    (hasTail_append scheme host has.starts) has

theorem parsed_of_originParse {origin : Origin} (made : Origin.parse parse value = .ok origin) :
    parse value = .ok origin.url := by
  obtain ⟨url, parsed, made⟩ := Memo.bind_eq_ok.mp made
  split at made
  · split at made
    · split at made
      · cases made
        exact parsed
      · cases made
    · cases made
  · cases made

theorem sameOrigin_of_sameAuthority {found : Url} (same : found.SameAuthority url) :
    sameOrigin url found = true := by
  simp [sameOrigin, same.scheme, same.hostStr, same.portOrKnownDefault]

/-- The origin of a URL is a redirect to it. -/
theorem redirect_of_origin (web : Serializes parse) (parsed : parse value = .ok url)
    (scheme : url.IsWeb) : ∃ redirect found, validateRawUri redirect = .ok () ∧
      parse redirect = .ok found ∧ validRedirectUrl found = true ∧ found.SameAuthority url ∧
      canonicalAuthority redirect found = true := by
  have nothing : IsTail [] := ⟨nofun, List.not_mem_nil, rfl⟩
  obtain ⟨text, host⟩ := web.host value url parsed scheme
  obtain ⟨found, reparsed, same, fragment, username, password, -⟩ :=
    web.append value url [] parsed scheme nothing
  have canonical := canonical_append scheme host
    (fun port some => web.port value url port parsed some) nothing.starts same
  refine ⟨_, found, validateRawUri_append scheme host nothing.raw, reparsed, ?_, same, canonical⟩
  have hasHost : found.host.isSome = true := by
    rw [same.host]
    exact host.host_isSome
  have web' : found.scheme = "http" ∨ found.scheme = "https" := same.scheme.symm ▸ scheme
  simp [validRedirectUrl, web', hasHost, fragment, username, password]

/-- One redirect URI is accepted as the redirect that it is. -/
theorem accepted_uri (member : RedirectMatcher.uri value ∈ relay.redirectPolicy)
    (valid : validateExactUri parse value = .ok ()) :
    ∃ redirect url, AcceptedThrough relay options redirect url (.uri value) := by
  have accepts : ∀ url, (RedirectMatcher.uri value).accepts parse value url options = true := by
    intro url
    simp [RedirectMatcher.accepts, valid, Except.isOk, Except.toBool]
  unfold validateExactUri at valid
  obtain ⟨_, raw, valid⟩ := Memo.bind_eq_ok.mp valid
  obtain ⟨url, parsed, valid⟩ := Memo.bind_eq_ok.mp valid
  obtain ⟨redirectable, -⟩ := Config.ok_of_unless valid
  exact ⟨value, url, raw, parsed, by simpa using redirectable, member, accepts url⟩

theorem accepted_origin (web : Serializes parse) {origin : Origin}
    (member : RedirectMatcher.origin origin ∈ relay.redirectPolicy)
    (parsed : ∃ value, Origin.parse parse value = .ok origin)
    (permitted : originPermitted origin options = true) :
    ∃ redirect url, AcceptedThrough relay options redirect url (.origin origin) := by
  obtain ⟨value, parsed⟩ := parsed
  obtain ⟨redirect, found, raw, reparsed, valid, same, canonical⟩ :=
    redirect_of_origin web (parsed_of_originParse parsed) origin.scheme
  refine ⟨redirect, found, raw, reparsed, valid, member, ?_⟩
  simp only [RedirectMatcher.accepts, Origin.matchesUrl, permitted,
    sameOrigin_of_sameAuthority same, canonical, Bool.or_true, Bool.and_self]

theorem accepted_loopbackOrigin (web : Serializes parse) {origin : Origin}
    (member : RedirectMatcher.loopbackOrigin origin ∈ relay.redirectPolicy)
    (parsed : ∃ value, Origin.parse parse value = .ok origin)
    (valid : validateLoopbackOrigin origin = .ok ()) :
    ∃ redirect url, AcceptedThrough relay options redirect url (.loopbackOrigin origin) := by
  obtain ⟨value, parsed⟩ := parsed
  obtain ⟨redirect, found, raw, reparsed, redirectable, same, canonical⟩ :=
    redirect_of_origin web (parsed_of_originParse parsed) origin.scheme
  have checked : (validateLoopbackOrigin origin).isOk = true := by
    rw [valid]
    rfl
  unfold validateLoopbackOrigin at valid
  obtain ⟨_, base, -⟩ := Memo.bind_eq_ok.mp valid
  have http : found.scheme = "http" := same.scheme.trans (validateLoopbackBase_eq_ok base).1
  have hosts : loopbackHostMatches origin.url found options.allowLocalhostLoopback = true :=
    loopbackHostMatches_iff.mpr (.inl same.host.symm)
  refine ⟨redirect, found, raw, reparsed, redirectable, member, ?_⟩
  simp only [RedirectMatcher.accepts, checked, http, hosts, canonical, decide_true, Bool.and_self]

/-- A loopback URI without `://` accepts no redirect. -/
theorem separator_of_accepted
    (accepted : AcceptedThrough relay options redirect url (.loopback value)) :
    "://".toList <:+: value.toList := by
  obtain ⟨base, known, -⟩ := (Option.any_eq_true _ _).mp accepted.accepts
  have parsed : parse value = .ok base := by
    cases reads : parse value with
    | error => rw [reads] at known; cases known
    | ok => rw [reads] at known; cases known; rfl
  obtain ⟨-, -, -, -, tail, cut, -⟩ := (accepts_loopback_iff parsed).mp accepted.accepts
  obtain ⟨parts, found, -⟩ := Option.map_eq_some_iff.mp cut
  exact Text.splitOnce_isSome.mp (Option.isSome_of_eq_some found)

def loopbackUrl (tail : List Char) : Url where
  asStr := "http://127.0.0.1" ++ String.ofList tail
  scheme := "http"
  username := ""
  password := none
  host := some (.ipv4 0x7f000001)
  hostStr := some "127.0.0.1"
  port := none
  path := if tail.head? = some '/' then String.ofList (tail.takeWhile (· ≠ '?')) else "/"
  query := (splitOnce ['?'] tail).map fun parts => String.ofList parts.2
  fragment := none

/-- The path and the query of a URI at the loopback address. -/
def loopbackTail (raw : List Char) : Option (List Char) :=
  let tail := raw.drop "http://127.0.0.1".toList.length
  if "http://127.0.0.1".toList.isPrefixOf raw ∧ (∀ c ∈ tail.head?, c = '/' ∨ c = '?') ∧
      '#' ∉ tail then some tail
  else none

/-- A parser that knows the URIs at the loopback address, and two that it repairs. -/
def loopbackParse : Parser := fun raw =>
  match loopbackTail raw.toList with
  | some tail => .ok (loopbackUrl tail)
  | none =>
      if raw = "http:///127.0.0.1/cb" ∨ raw = "http:127.0.0.1/cb" then
        .ok (loopbackUrl "/cb".toList)
      else .error "relative URL without a base"

theorem loopbackTail_append {tail : List Char} (isTail : IsTail tail) :
    loopbackTail ("http://127.0.0.1".toList ++ tail) = some tail := by
  unfold loopbackTail
  rw [List.drop_left]
  have known := List.isPrefixOf_iff_prefix.mpr (List.prefix_append "http://127.0.0.1".toList tail)
  exact if_pos ⟨known, isTail.starts, isTail.whole⟩

theorem hasTail_of_loopbackTail {raw tail : List Char} (found : loopbackTail raw = some tail) :
    HasTail raw tail ∧ '#' ∉ raw := by
  unfold loopbackTail at found
  dsimp only at found
  split at found
  · rename_i checked
    obtain ⟨known, starts, whole⟩ := checked
    obtain ⟨rest, rfl⟩ := List.isPrefixOf_iff_prefix.mp known
    rw [List.drop_left] at found starts whole
    cases found
    constructor
    · exact ⟨"http".toList, "127.0.0.1".toList, rfl, by decide, by decide, by decide, starts⟩
    · rw [List.mem_append, not_or]
      exact ⟨by decide, whole⟩
  · cases found

theorem loopbackParse_eq_ok (parsed : loopbackParse value = .ok url) :
    (∃ tail, loopbackTail value.toList = some tail ∧ url = loopbackUrl tail) ∨
      (value = "http:///127.0.0.1/cb" ∨ value = "http:127.0.0.1/cb") ∧
        url = loopbackUrl "/cb".toList := by
  unfold loopbackParse at parsed
  split at parsed
  · rename_i tail found
    exact .inl ⟨tail, found, (Except.ok.inj parsed).symm⟩
  · split at parsed
    · rename_i repaired
      exact .inr ⟨repaired, (Except.ok.inj parsed).symm⟩
    · cases parsed

/-- A text with a slash too many, or too few, is not spelled out. -/
theorem not_hasTail_of_repaired {tail : List Char}
    (repaired : value = "http:///127.0.0.1/cb" ∨ value = "http:127.0.0.1/cb") :
    ¬ HasTail value.toList tail := by
  intro has
  have cut := rawPathAndQuery_of_hasTail has
  rcases repaired with rfl | rfl
  · obtain ⟨scheme, authority, whole, web, nonempty, -⟩ := has
    have known : rawPathAndQuery "http:///127.0.0.1/cb".toList = some "/127.0.0.1/cb".toList := by
      decide +kernel
    obtain rfl := Option.some.inj (known.symm.trans cut)
    have lengths := congrArg List.length whole
    have length : 4 ≤ scheme.length := by
      have same : (Text.lower scheme).length = scheme.length := List.length_map ..
      simp only [List.mem_cons, List.not_mem_nil, or_false] at web
      rcases web with http | https
      · rw [← same, http]
        decide
      · rw [← same, https]
        decide
    have count : "http:///127.0.0.1/cb".toList.length = 20 := by decide
    have count' : "/127.0.0.1/cb".toList.length = 13 := by decide
    have some := List.length_pos_iff.mpr nonempty
    rw [List.length_append, List.length_append, List.length_append, count, count'] at lengths
    have slashes : [':', '/', '/'].length = 3 := rfl
    omega
  · have known : rawPathAndQuery "http:127.0.0.1/cb".toList = none := by decide +kernel
    rw [known] at cut
    cases cut

theorem serializes_loopbackParse : Serializes loopbackParse where
  host raw url parsed _ := by
    have name : ∀ tail, HostSerialized (loopbackUrl tail) "127.0.0.1".toList := fun tail =>
      .name rfl (fun _ => nofun) rfl (by decide) (by decide)
    rcases loopbackParse_eq_ok parsed with ⟨tail, -, rfl⟩ | ⟨-, rfl⟩
    · exact ⟨_, name tail⟩
    · exact ⟨_, name _⟩
  port raw url port parsed some := by
    rcases loopbackParse_eq_ok parsed with ⟨tail, -, rfl⟩ | ⟨-, rfl⟩
    · cases some
    · cases some
  fragment raw url parsed _ := by
    rcases loopbackParse_eq_ok parsed with ⟨tail, found, rfl⟩ | ⟨repaired, rfl⟩
    · exact (hasTail_of_loopbackTail found).2
    · rcases repaired with rfl | rfl <;> decide
  append raw url tail parsed _ isTail := by
    have origin : url.originSerialization = "http://127.0.0.1" := by
      rcases loopbackParse_eq_ok parsed with ⟨tail, -, rfl⟩ | ⟨-, rfl⟩ <;> rfl
    have same : (loopbackUrl tail).SameAuthority url := by
      rcases loopbackParse_eq_ok parsed with ⟨tail, -, rfl⟩ | ⟨-, rfl⟩ <;>
        exact ⟨rfl, rfl, rfl, rfl⟩
    refine ⟨loopbackUrl tail, ?_, same, rfl, rfl, rfl, fun empty => empty ▸ ⟨rfl, rfl⟩⟩
    have spelled : ("http://127.0.0.1" ++ String.ofList tail).toList =
        "http://127.0.0.1".toList ++ tail :=
      String.toList_append.trans (congrArg _ String.toList_ofList)
    unfold loopbackParse
    rw [origin, spelled, loopbackTail_append isTail]
  tail raw raw' url url' tail parsed parsed' has has' := by
    have known : ∀ raw url, loopbackParse raw = .ok url → HasTail raw.toList tail →
        url = loopbackUrl tail := by
      intro raw url parsed has
      rcases loopbackParse_eq_ok parsed with ⟨tail', found, rfl⟩ | ⟨repaired, rfl⟩
      · have cut := rawPathAndQuery_of_hasTail (hasTail_of_loopbackTail found).1
        rw [Option.some.inj (cut.symm.trans (rawPathAndQuery_of_hasTail has))]
      · exact absurd has (not_hasTail_of_repaired repaired)
    rw [known raw url parsed has, known raw' url' parsed' has']
    exact ⟨rfl, rfl⟩

/-- A relay for one loopback URI. -/
def loopbackRelay (value : String) : Relay loopbackParse Config.plainRules :=
  ⟨Codes.sampleKey, Codes.sampleKey, none, .upstreamClient, [], none, [], none,
    ⟨.passthrough, 30, 2592000⟩, [.loopback value]⟩

theorem originsParsed_loopbackRelay (value : String) : OriginsParsed (loopbackRelay value) := by
  intro origin member
  rcases member with member | member
  · exact absurd (List.mem_singleton.mp member) nofun
  · exact absurd (List.mem_singleton.mp member) nofun

end OAuthRelay.Redirects
