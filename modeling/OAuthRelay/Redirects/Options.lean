import OAuthRelay.Redirects.Authority

/-!
# What the options admit

With both options off a redirect is accepted over `https`, or over `http` at a loopback address.
An option that is turned on takes nothing back. What it adds are `http` redirects of an origin
that the policy names, or `http` redirects to a `localhost` name with a path and query that a
loopback matcher accepts (`redirects_safe`).
-/

set_option autoImplicit false

namespace OAuthRelay.Redirects

open Config (Rules)
open Text (lower)

variable {parse : Parser} {rules : Rules}

/-! ## What is claimed -/

/-- What one option admits, the other does as well. -/
structure RedirectOptions.Le (options options' : RedirectOptions) : Prop where
  localhost : options.allowLocalhostLoopback = true → options'.allowLocalhostLoopback = true
  origins : options.allowHttpOrigins = true → options'.allowHttpOrigins = true

/-- `127.0.0.1` or `[::1]`. -/
def Host.IsLoopback (host : Option Host) : Prop :=
  host = some (.ipv4 0x7f000001) ∨ host = some (.ipv6 1)

/-- `localhost`, or a name under it. -/
def LocalhostName (domain : String) : Prop :=
  lower domain.toList = "localhost".toList ∨
    ∃ labels, labels ≠ [] ∧ lower domain.toList = labels ++ ".localhost".toList

/-- The URL is safe to send a code to. -/
structure TransportSafe (url : Url) : Prop where
  transport : url.scheme = "https" ∨ url.scheme = "http" ∧ Host.IsLoopback url.host
  fragment : url.fragment = none
  username : url.username = ""
  password : url.password = none

/-- The origin of the URL is named by a matcher. -/
def NamesOrigin (relay : Relay parse rules) (url : Url) : Prop :=
  ∃ origin, RedirectMatcher.origin origin ∈ relay.redirectPolicy ∧ origin.matchesUrl url = true

/-- A loopback matcher accepts the path and the query of the redirect. -/
def AcceptsPath (relay : Relay parse rules) (redirect : String) : Prop :=
  (∃ value tail, RedirectMatcher.loopback value ∈ relay.redirectPolicy ∧
    rawPathAndQuery value.toList = some tail ∧ rawPathAndQuery redirect.toList = some tail) ∨
  ∃ origin, RedirectMatcher.loopbackOrigin origin ∈ relay.redirectPolicy

/-- What the second options admit and the first do not: `http` origins that the policy names, or
`localhost` names with a path and query that a loopback matcher accepts. -/
def Admits (relay : Relay parse rules) (redirect : String) (url : Url)
    (options options' : RedirectOptions) : Prop :=
  options.allowHttpOrigins = false ∧ options'.allowHttpOrigins = true ∧ NamesOrigin relay url ∨
    options.allowLocalhostLoopback = false ∧ options'.allowLocalhostLoopback = true ∧
      (∃ domain, url.host = some (.domain domain) ∧ LocalhostName domain) ∧
      AcceptsPath relay redirect

/-- Redirects are transport-safe, and options only widen what is accepted. -/
structure RedirectsSafe (relay : Relay parse rules) (redirect : String) : Prop where
  plain : redirectAllowed relay redirect ⟨false, false⟩ = true →
    ∃ url, parse redirect = .ok url ∧ TransportSafe url
  widens : ∀ options options' : RedirectOptions, options.Le options' →
    redirectAllowed relay redirect options = true → redirectAllowed relay redirect options' = true
  admits : ∀ options options' : RedirectOptions, options.Le options' →
    redirectAllowed relay redirect options = false →
    redirectAllowed relay redirect options' = true → ∃ url, parse redirect = .ok url ∧
      url.scheme = "http" ∧ url.fragment = none ∧ url.username = "" ∧ url.password = none ∧
      Admits relay redirect url options options'

/-! ## What the checks say -/

theorem isLoopback_of_isIpLoopback {url : Url} (loopback : url.isIpLoopback = true) :
    Host.IsLoopback url.host := by
  unfold Url.isIpLoopback at loopback
  split at loopback
  · rename_i address host
    rw [host, of_decide_eq_true loopback]
    exact .inl rfl
  · rename_i address host
    rw [host, of_decide_eq_true loopback]
    exact .inr rfl
  · cases loopback

theorem localhostName_of_isLocalhostName {domain : String}
    (is : isLocalhostName domain = true) : LocalhostName domain := by
  simp only [isLocalhostName, Bool.or_eq_true, Bool.and_eq_true, decide_eq_true_eq] at is
  rcases is with whole | ⟨⟨-, suffix⟩, nonempty, -⟩
  · exact .inl whole
  · refine .inr ⟨_, nonempty, ?_⟩
    obtain ⟨labels, shape⟩ := List.isSuffixOf_iff_suffix.mp suffix
    rw [← shape, List.length_append, Nat.add_sub_cancel, List.take_left]

theorem valid_parts {url : Url} (valid : validRedirectUrl url = true) :
    url.fragment = none ∧ url.username = "" ∧ url.password = none := by
  simp only [validRedirectUrl, Bool.and_eq_true, decide_eq_true_eq,
    Option.isNone_iff_eq_none] at valid
  obtain ⟨⟨⟨-, fragment⟩, username⟩, password⟩ := valid
  exact ⟨fragment, username, password⟩

theorem isIpLoopback_of_validateLoopbackBase {url : Url} {u : Unit}
    (valid : validateLoopbackBase url = .ok u) : url.isIpLoopback = true := by
  cases loopback : url.isIpLoopback with
  | true => rfl
  | false =>
      unfold validateLoopbackBase at valid
      simp [loopback] at valid

theorem isOk_iff {ε α : Type} {x : Except ε α} : x.isOk = true ↔ ∃ a, x = .ok a := by
  cases x with
  | error => simp [Except.isOk, Except.toBool]
  | ok => simp [Except.isOk, Except.toBool]

/-- A loopback matcher has a loopback address for its host. -/
theorem host_of_validateLoopbackUri {value : String} {base : Url}
    (parsed : parse value = .ok base) (valid : (validateLoopbackUri parse value).isOk = true) :
    Host.IsLoopback base.host := by
  obtain ⟨_, valid⟩ := isOk_iff.mp valid
  unfold validateLoopbackUri at valid
  simp only [Memo.bind_eq_ok, parsed, Except.ok.injEq] at valid
  obtain ⟨_, _, _, rfl, valid⟩ := valid
  exact isLoopback_of_isIpLoopback (isIpLoopback_of_validateLoopbackBase valid)

theorem host_of_validateLoopbackOrigin {origin : Origin}
    (valid : (validateLoopbackOrigin origin).isOk = true) : Host.IsLoopback origin.url.host := by
  obtain ⟨_, valid⟩ := isOk_iff.mp valid
  unfold validateLoopbackOrigin at valid
  obtain ⟨_, base, -⟩ := Memo.bind_eq_ok.mp valid
  exact isLoopback_of_isIpLoopback (isIpLoopback_of_validateLoopbackBase base)

/-- One redirect URI is over `https`, or at a loopback address. -/
theorem transport_of_validateExactUri {value : String} {url : Url}
    (parsed : parse value = .ok url) (valid : (validateExactUri parse value).isOk = true) :
    url.scheme = "https" ∨ url.scheme = "http" ∧ Host.IsLoopback url.host := by
  obtain ⟨_, valid⟩ := isOk_iff.mp valid
  unfold validateExactUri at valid
  simp only [Memo.bind_eq_ok, parsed, Except.ok.injEq] at valid
  obtain ⟨_, _, _, rfl, valid⟩ := valid
  split at valid
  · cases valid
  · split at valid
    · rename_i checked
      simp only [Bool.or_eq_true, Bool.and_eq_true, decide_eq_true_eq] at checked
      exact checked.imp_right fun http => ⟨http.1, isLoopback_of_isIpLoopback http.2⟩
    · cases valid

/-- A host that a loopback address matches is that address, or a `localhost` name that an option
admits. -/
theorem loopbackHostMatches_iff {base candidate : Url} {allowLocalhost : Bool} :
    loopbackHostMatches base candidate allowLocalhost = true ↔ base.host = candidate.host ∨
      allowLocalhost = true ∧
        ∃ domain, candidate.host = some (.domain domain) ∧ isLocalhostName domain = true := by
  simp only [loopbackHostMatches, Bool.or_eq_true, Bool.and_eq_true, decide_eq_true_eq]
  refine or_congr_right (and_congr_right fun _ => ?_)
  constructor
  · intro named
    split at named
    · rename_i domain host
      exact ⟨domain, host, named⟩
    · cases named
  · rintro ⟨domain, host, named⟩
    rw [host]
    exact named

theorem originPermitted_iff {origin : Origin} {options : RedirectOptions} :
    originPermitted origin options = true ↔ origin.url.scheme = "https" ∨
      origin.url.scheme = "http" ∧ options.allowHttpOrigins = true := by
  rcases origin.scheme with http | https
  · simp [originPermitted, http]
  · simp [originPermitted, https]

/-! ## Options off -/

variable {relay : Relay parse rules} {redirect : String} {url : Url}

/-- **Without options a matcher accepts `https` and loopback addresses.** -/
theorem transport_of_accepts {matcher : RedirectMatcher} (parsed : parse redirect = .ok url)
    (accepts : matcher.accepts parse redirect url ⟨false, false⟩ = true) :
    url.scheme = "https" ∨ url.scheme = "http" ∧ Host.IsLoopback url.host := by
  cases matcher with
  | uri value =>
      obtain ⟨valid, same⟩ := Bool.and_eq_true_iff.mp accepts
      obtain rfl := of_decide_eq_true same
      exact transport_of_validateExactUri parsed valid
  | origin origin =>
      simp only [RedirectMatcher.accepts, Bool.and_eq_true, originPermitted_iff, Bool.false_eq_true,
        and_false, or_false, Origin.matchesUrl, sameOrigin, decide_eq_true_eq] at accepts
      obtain ⟨⟨https, ⟨scheme, -⟩, -⟩, -⟩ := accepts
      exact .inl (scheme.symm.trans https)
  | loopback value =>
      obtain ⟨base, known, checks⟩ := (Option.any_eq_true _ _).mp accepts
      simp only [Bool.and_eq_true, loopbackHostMatches_iff, Bool.false_eq_true, false_and, or_false,
        decide_eq_true_eq] at checks
      obtain ⟨⟨⟨⟨valid, http⟩, host⟩, -⟩, -⟩ := checks
      have parsedBase : parse value = .ok base := by
        cases reads : parse value with
        | error => rw [reads] at known; cases known
        | ok => rw [reads] at known; cases known; rfl
      exact .inr ⟨http, host ▸ host_of_validateLoopbackUri parsedBase valid⟩
  | loopbackOrigin origin =>
      simp only [RedirectMatcher.accepts, Bool.and_eq_true, loopbackHostMatches_iff,
        Bool.false_eq_true, false_and, or_false, decide_eq_true_eq] at accepts
      obtain ⟨⟨⟨valid, http⟩, host⟩, -⟩ := accepts
      exact .inr ⟨http, host ▸ host_of_validateLoopbackOrigin valid⟩

/-! ## Options on -/

variable {options options' : RedirectOptions}

/-- **What a matcher accepts, it accepts with more options.** -/
theorem accepts_mono (le : options.Le options') {matcher : RedirectMatcher}
    (accepts : matcher.accepts parse redirect url options = true) :
    matcher.accepts parse redirect url options' = true := by
  have host : ∀ base candidate : Url,
      loopbackHostMatches base candidate options.allowLocalhostLoopback = true →
      loopbackHostMatches base candidate options'.allowLocalhostLoopback = true := by
    intro base candidate
    simp only [loopbackHostMatches_iff]
    exact Or.imp_right (And.imp_left le.localhost)
  have permitted : ∀ origin, originPermitted origin options = true →
      originPermitted origin options' = true := by
    intro origin
    simp only [originPermitted_iff]
    exact Or.imp_right (And.imp_right le.origins)
  cases matcher with
  | uri => exact accepts
  | origin origin =>
      simp only [RedirectMatcher.accepts, Bool.and_eq_true] at accepts ⊢
      exact ⟨⟨permitted origin accepts.1.1, accepts.1.2⟩, accepts.2⟩
  | loopback value =>
      obtain ⟨base, known, checks⟩ := (Option.any_eq_true _ _).mp accepts
      refine (Option.any_eq_true _ _).mpr ⟨base, known, ?_⟩
      simp only [Bool.and_eq_true] at checks ⊢
      obtain ⟨⟨⟨⟨valid, http⟩, matched⟩, canonical⟩, path⟩ := checks
      exact ⟨⟨⟨⟨valid, http⟩, host _ _ matched⟩, canonical⟩, path⟩
  | loopbackOrigin origin =>
      simp only [RedirectMatcher.accepts, Bool.and_eq_true] at accepts ⊢
      obtain ⟨⟨⟨valid, http⟩, matched⟩, canonical⟩ := accepts
      exact ⟨⟨⟨valid, http⟩, host _ _ matched⟩, canonical⟩

/-- A host that matches with more options only is a `localhost` name. -/
theorem localhost_of_newly_matched {base candidate : Url}
    (matched : loopbackHostMatches base candidate options'.allowLocalhostLoopback = true)
    (unmatched : ¬ loopbackHostMatches base candidate options.allowLocalhostLoopback = true) :
    options.allowLocalhostLoopback = false ∧ options'.allowLocalhostLoopback = true ∧
      ∃ domain, candidate.host = some (.domain domain) ∧ LocalhostName domain := by
  rw [loopbackHostMatches_iff] at matched unmatched
  rcases matched with same | ⟨admitted, domain, host, named⟩
  · exact absurd (.inl same) unmatched
  · refine ⟨?_, admitted, domain, host, localhostName_of_isLocalhostName named⟩
    exact Bool.eq_false_iff.mpr fun before => unmatched (.inr ⟨before, domain, host, named⟩)

/-- **What a matcher accepts with more options only is `http`, and is what the options are
for.** -/
theorem admits_of_accepts {matcher : RedirectMatcher} (member : matcher ∈ relay.redirectPolicy)
    (refused : ¬ matcher.accepts parse redirect url options = true)
    (accepts : matcher.accepts parse redirect url options' = true) :
    url.scheme = "http" ∧ Admits relay redirect url options options' := by
  cases matcher with
  | uri => exact absurd accepts refused
  | origin origin =>
      simp only [RedirectMatcher.accepts, Bool.and_eq_true] at accepts refused
      obtain ⟨⟨permitted, same⟩, spelled⟩ := accepts
      have unpermitted : ¬ originPermitted origin options = true :=
        fun before => refused ⟨⟨before, same⟩, spelled⟩
      rw [originPermitted_iff] at permitted unpermitted
      have scheme : origin.url.scheme = url.scheme := by
        simp only [Origin.matchesUrl, sameOrigin, Bool.and_eq_true, decide_eq_true_eq] at same
        exact same.1.1
      rcases permitted with https | ⟨http, admitted⟩
      · exact absurd (.inl https) unpermitted
      · refine ⟨scheme.symm.trans http, .inl ⟨?_, admitted, origin, member, same⟩⟩
        exact Bool.eq_false_iff.mpr fun before => unpermitted (.inr ⟨http, before⟩)
  | loopback value =>
      obtain ⟨base, known, checks⟩ := (Option.any_eq_true _ _).mp accepts
      simp only [Bool.and_eq_true] at checks
      obtain ⟨⟨⟨⟨valid, http⟩, matched⟩, canonical⟩, path⟩ := checks
      have unmatched : ¬ loopbackHostMatches base url options.allowLocalhostLoopback = true := by
        refine fun before => refused ((Option.any_eq_true _ _).mpr ⟨base, known, ?_⟩)
        simp only [Bool.and_eq_true]
        exact ⟨⟨⟨⟨valid, http⟩, before⟩, canonical⟩, path⟩
      obtain ⟨before, after, named⟩ := localhost_of_newly_matched matched unmatched
      obtain ⟨tail, configured, same⟩ := (Option.any_eq_true _ _).mp path
      exact ⟨of_decide_eq_true http, .inr ⟨before, after, named,
        .inl ⟨value, tail, member, configured, of_decide_eq_true same⟩⟩⟩
  | loopbackOrigin origin =>
      simp only [RedirectMatcher.accepts, Bool.and_eq_true] at accepts refused
      obtain ⟨⟨⟨valid, http⟩, matched⟩, canonical⟩ := accepts
      have unmatched :
          ¬ loopbackHostMatches origin.url url options.allowLocalhostLoopback = true :=
        fun before => refused ⟨⟨⟨valid, http⟩, before⟩, canonical⟩
      obtain ⟨before, after, named⟩ := localhost_of_newly_matched matched unmatched
      exact ⟨of_decide_eq_true http, .inr ⟨before, after, named, .inr ⟨origin, member⟩⟩⟩

/-! ## Redirects are safe -/

/-- **Accepted redirects are transport-safe, and options only widen what is accepted.** -/
theorem redirects_safe (relay : Relay parse rules) (redirect : String) :
    RedirectsSafe relay redirect where
  plain allowed := by
    obtain ⟨url, matcher, accepted⟩ := redirectAllowed_iff.mp allowed
    obtain ⟨fragment, username, password⟩ := valid_parts accepted.valid
    exact ⟨url, accepted.parsed, transport_of_accepts accepted.parsed accepted.accepts, fragment,
      username, password⟩
  widens options options' le allowed := by
    obtain ⟨url, matcher, accepted⟩ := redirectAllowed_iff.mp allowed
    exact redirectAllowed_iff.mpr ⟨url, matcher, accepted.raw, accepted.parsed, accepted.valid,
      accepted.member, accepts_mono le accepted.accepts⟩
  admits options options' le refused allowed := by
    obtain ⟨url, matcher, accepted⟩ := redirectAllowed_iff.mp allowed
    obtain ⟨fragment, username, password⟩ := valid_parts accepted.valid
    have unaccepted : ¬ matcher.accepts parse redirect url options = true := by
      intro before
      rw [redirectAllowed_iff.mpr ⟨url, matcher, accepted.raw, accepted.parsed, accepted.valid,
        accepted.member, before⟩] at refused
      cases refused
    obtain ⟨http, admits⟩ := admits_of_accepts accepted.member unaccepted accepted.accepts
    exact ⟨url, accepted.parsed, http, fragment, username, password, admits⟩

end OAuthRelay.Redirects
