import OAuthRelay.Redirects.Authority

/-!
# Origins as they are serialized

The origin of a parsed URL is a text: the scheme, `://`, the host and the port unless it is the
default. A path or a query may follow it. Such a text is spelled out in full, so the parser reads
the same scheme, host and port out of it (`Serializes`), and the check of the spelling accepts it
(`canonical_append`).
-/

set_option autoImplicit false

namespace OAuthRelay.Redirects

open Config (Rules)
open Text (lower parseIpv6 parseU16 rsplitOnce splitOnce)

/-! ## What is used of the parser -/

/-- `http` or `https`. -/
def Url.IsWeb (url : Url) : Prop := url.scheme = "http" ∨ url.scheme = "https"

/-- A character that may stand in a URI as it is. -/
def isRawChar (c : Char) : Bool := c.toNat < 128 && c ∉ [' ', '\t', '\n', '\x0c', '\r', '\\']

/-- A character of a host that is no address in brackets. -/
def isHostChar (c : Char) : Bool := isRawChar c && c ∉ ['/', '?', '#', ':', '[', ']']

/-- The host as the URL serializes it. -/
inductive HostSerialized (url : Url) : List Char → Prop
  | name {host : Host} {text : List Char} (parsed : url.host = some host)
      (other : ∀ address, host ≠ .ipv6 address)
      (serialized : url.hostStr = some (String.ofList text))
      (nonempty : text ≠ []) (plain : text.all isHostChar = true) : HostSerialized url text
  | address {address : Text.Ipv6Addr} {literal : List Char}
      (parsed : url.host = some (.ipv6 address))
      (serialized : url.hostStr = some (String.ofList ('[' :: literal ++ [']'])))
      (plain : (literal.all fun c => isHostChar c || c = ':') = true)
      (reads : parseIpv6 literal = some address) : HostSerialized url ('[' :: literal ++ [']'])

/-- What follows an authority: a path, a query, or nothing. There is no fragment. -/
structure IsTail (tail : List Char) : Prop where
  starts : ∀ c ∈ tail.head?, c = '/' ∨ c = '?'
  whole : '#' ∉ tail
  raw : tail.all isRawChar = true

/-- The text spells out a scheme of the web and an authority in front of a path and a query. -/
def HasTail (raw tail : List Char) : Prop :=
  ∃ scheme authority, raw = scheme ++ [':', '/', '/'] ++ authority ++ tail ∧
    lower scheme ∈ ["http".toList, "https".toList] ∧ authority ≠ [] ∧
    (∀ c ∈ authority, c ∉ ['/', '?', '#']) ∧ ∀ c ∈ tail.head?, c = '/' ∨ c = '?'

/-- What is used of the URL parser. -/
structure Serializes (parse : Parser) : Prop where
  /-- A URL of the web has a host. Its serialization is ASCII without delimiters, but an IPv6
  address is in brackets. -/
  host : ∀ raw url, parse raw = .ok url → url.IsWeb → ∃ text, HostSerialized url text
  port : ∀ raw url port, parse raw = .ok url → url.port = some port → port < 2 ^ 16
  /-- What is after a number sign is a fragment. -/
  fragment : ∀ raw url, parse raw = .ok url → url.fragment = none → '#' ∉ raw.toList
  /-- The serialization of an origin is parsed, whatever path and query follow. -/
  append : ∀ raw url (tail : List Char), parse raw = .ok url → url.IsWeb → IsTail tail →
    ∃ found, parse (url.originSerialization ++ String.ofList tail) = .ok found ∧
      found.SameAuthority url ∧ found.fragment = none ∧ found.username = "" ∧
      found.password = none ∧ (tail = [] → found.path = "/" ∧ found.query = none)
  /-- The path and the query depend on what follows the authority only. -/
  tail : ∀ (raw raw' : String) url url' tail, parse raw = .ok url → parse raw' = .ok url' →
    HasTail raw.toList tail → HasTail raw'.toList tail →
    url.path = url'.path ∧ url.query = url'.query

/-! ## Texts of origins -/

/-- The port as it is serialized. -/
def portText (url : Url) : List Char :=
  match url.port with
  | some port => ':' :: (toString port).toList
  | none => []

variable {parse : Parser} {rules : Rules} {url found : Url} {text tail : List Char}

theorem HostSerialized.hostStr (host : HostSerialized url text) :
    url.hostStr = some (String.ofList text) := by
  cases host with
  | name _ _ serialized _ _ => exact serialized
  | address _ serialized _ _ => exact serialized

theorem HostSerialized.ne_nil (host : HostSerialized url text) : text ≠ [] := by
  cases host with
  | name _ _ _ nonempty _ => exact nonempty
  | address => exact List.cons_ne_nil _ _

theorem HostSerialized.host_isSome (host : HostSerialized url text) : url.host.isSome = true := by
  cases host with
  | name parsed _ _ _ _ => rw [parsed]; rfl
  | address parsed _ _ _ => rw [parsed]; rfl

theorem originSerialization_eq (host : HostSerialized url text) :
    url.originSerialization.toList =
      url.scheme.toList ++ [':', '/', '/'] ++ (text ++ portText url) := by
  unfold Url.originSerialization portText
  rw [host.hostStr, Option.getD_some]
  cases url.port <;> simp

/-- Nothing in the serialization of a host ends an authority, or has to be encoded. -/
theorem HostSerialized.plain (host : HostSerialized url text) :
    ∀ c ∈ text, c ∉ ['/', '?', '#'] ∧ isRawChar c = true := by
  have inside : ∀ c, isHostChar c = true → c ∉ ['/', '?', '#'] ∧ isRawChar c = true := by
    intro c plain
    simp only [isHostChar, Bool.and_eq_true, decide_eq_true_eq] at plain
    refine ⟨fun member => plain.2 ?_, plain.1⟩
    simp only [List.mem_cons, List.not_mem_nil, or_false] at member ⊢
    tauto
  cases host with
  | name _ _ _ _ plain => exact fun c member => inside c (List.all_eq_true.mp plain c member)
  | @address _ literal _ _ plain _ =>
      intro c member
      have cases : c = '[' ∨ c ∈ literal ∨ c = ']' := by simpa using member
      rcases cases with rfl | member | rfl
      · exact ⟨by decide, by decide⟩
      · rcases Bool.or_eq_true_iff.mp (List.all_eq_true.mp plain c member) with host | colon
        · exact inside c host
        · rw [of_decide_eq_true colon]
          exact ⟨by decide, by decide⟩
      · exact ⟨by decide, by decide⟩

theorem plain_portText (url : Url) :
    ∀ c ∈ portText url, c ∉ ['/', '?', '#'] ∧ isRawChar c = true := by
  intro c member
  unfold portText at member
  split at member
  · rename_i port _
    rcases List.mem_cons.mp member with rfl | member
    · exact ⟨by decide, by decide⟩
    · have digit := List.all_eq_true.mp (Text.isDigit_toString port) c member
      have differs : ∀ d : Char, d.isDigit = false → c ≠ d := by
        rintro d other rfl
        rw [other] at digit
        cases digit
      have small : c.toNat < 128 := by
        simp only [Char.isDigit, Bool.and_eq_true, decide_eq_true_eq] at digit
        exact Nat.lt_of_le_of_lt (UInt32.le_iff_toNat_le.mp digit.2) (by decide)
      constructor
      · simp only [List.mem_cons, List.not_mem_nil, or_false, not_or]
        exact ⟨differs _ rfl, differs _ rfl, differs _ rfl⟩
      · simp only [isRawChar, Bool.and_eq_true, decide_eq_true_eq, List.mem_cons,
          List.not_mem_nil, or_false, not_or]
        exact ⟨small, differs _ rfl, differs _ rfl, differs _ rfl, differs _ rfl, differs _ rfl,
          differs _ rfl⟩
  · cases member

theorem lower_scheme (web : url.IsWeb) :
    lower url.scheme.toList ∈ ["http".toList, "https".toList] := by
  rcases web with http | https
  · rw [http]
    decide
  · rw [https]
    decide

theorem colon_not_mem_scheme (web : url.IsWeb) : ':' ∉ url.scheme.toList := by
  rcases web with http | https
  · rw [http]
    decide
  · rw [https]
    decide

/-- **A text that spells an origin and a tail is taken apart again.** -/
theorem splitOnce_originText (web : url.IsWeb) (rest : List Char) :
    splitOnce [':', '/', '/'] (url.scheme.toList ++ [':', '/', '/'] ++ rest) =
      some (url.scheme.toList, rest) :=
  Text.splitOnce_append (colon_not_mem_scheme web) rest

theorem takeWhile_authority {authority : List Char} (plain : ∀ c ∈ authority, c ∉ ['/', '?', '#'])
    (starts : ∀ c ∈ tail.head?, c = '/' ∨ c = '?') :
    ((authority ++ tail).takeWhile fun c => c ∉ ['/', '?', '#']) = authority := by
  rw [List.takeWhile_append_of_pos fun c member => decide_eq_true (plain c member)]
  cases tail with
  | nil => simp
  | cons c rest =>
      have stop : ¬ decide (c ∉ ['/', '?', '#']) = true := by
        rcases starts c rfl with rfl | rfl
        · decide
        · decide
      have none : ((c :: rest).takeWhile fun c => c ∉ ['/', '?', '#']) = [] :=
        List.takeWhile_cons_of_neg stop
      rw [none, List.append_nil]

theorem colon_not_mem_digits (port : ℕ) : ':' ∉ (toString port).toList := by
  intro member
  have digit := List.all_eq_true.mp (Text.isDigit_toString port) ':' member
  exact absurd digit (by decide)

/-- The authority of a serialized origin, taken apart. -/
theorem rawAuthority_originText (web : url.IsWeb) (host : HostSerialized url text)
    (starts : ∀ c ∈ tail.head?, c = '/' ∨ c = '?') :
    rawAuthority (url.scheme.toList ++ [':', '/', '/'] ++ (text ++ portText url ++ tail)) =
      some (text, url.port.map fun port => (toString port).toList) := by
  have plain : ∀ c ∈ text ++ portText url, c ∉ ['/', '?', '#'] := by
    intro c member
    rcases List.mem_append.mp member with member | member
    · exact (host.plain c member).1
    · exact (plain_portText url c member).1
  unfold rawAuthority
  rw [splitOnce_originText web]
  simp only [Option.bind_eq_bind, Option.bind_some, takeWhile_authority plain starts]
  cases host with
  | @name _ text _ _ _ _ chars =>
      have colon : ':' ∉ text := fun member =>
        absurd (List.all_eq_true.mp chars ':' member) (by decide)
      have bracket : ¬ (text ++ portText url).head? = some '[' := by
        intro first
        rcases List.mem_append.mp (List.mem_of_mem_head? first) with member | member
        · exact absurd (List.all_eq_true.mp chars '[' member) (by decide)
        · unfold portText at member
          split at member
          · rename_i port _
            rcases List.mem_cons.mp member with same | member
            · exact absurd same (by decide)
            · exact absurd (List.all_eq_true.mp (Text.isDigit_toString port) '[' member) (by decide)
          · cases member
      rw [if_neg bracket]
      unfold portText
      cases url.port with
      | none =>
          rw [List.append_nil, Text.rsplitOnce_eq_none colon]
          rfl
      | some port =>
          rw [Text.rsplitOnce_append (colon_not_mem_digits port)]
          rfl
  | @address _ literal _ _ chars _ =>
      have bracket : ']' ∉ '[' :: literal := by
        intro member
        rcases List.mem_cons.mp member with same | member
        · exact absurd same (by decide)
        · exact absurd (List.all_eq_true.mp chars ']' member) (by decide)
      have first : ('[' :: literal ++ [']'] ++ portText url).head? = some '[' := rfl
      rw [if_pos first, Text.splitOnce_append bracket]
      unfold portText
      cases url.port with
      | none => rfl
      | some port => rfl

theorem Url.SameAuthority.portOrKnownDefault (same : found.SameAuthority url) :
    found.portOrKnownDefault = url.portOrKnownDefault := by
  rw [Url.portOrKnownDefault, Url.portOrKnownDefault, same.port, same.scheme]

/-- **What spells out the origin of a URL is canonical** for every URL at that origin. -/
theorem canonical_append (web : url.IsWeb) (host : HostSerialized url text)
    (small : ∀ port, url.port = some port → port < 2 ^ 16)
    (starts : ∀ c ∈ tail.head?, c = '/' ∨ c = '?') (same : found.SameAuthority url) :
    canonicalAuthority (url.originSerialization ++ String.ofList tail) found = true := by
  have spelled : (url.originSerialization ++ String.ofList tail).toList =
      url.scheme.toList ++ [':', '/', '/'] ++ (text ++ portText url ++ tail) := by
    rw [String.toList_append, originSerialization_eq host, String.toList_ofList]
    simp
  have hosts : hostMatches text found = true := by
    unfold hostMatches
    rw [same.host, same.hostStr, host.hostStr]
    cases host with
    | @name parsedHost text parsed other _ _ _ =>
        rw [parsed]
        cases parsedHost with
        | domain => simp
        | ipv4 => simp
        | ipv6 address => exact absurd rfl (other address)
    | @address address literal parsed _ _ reads =>
        rw [parsed]
        simp [bracketed, reads]
  have ports : portMatches (url.port.map fun port => (toString port).toList) found = true := by
    unfold portMatches
    cases port : url.port with
    | none => rw [Option.map_none, same.port, port]; rfl
    | some port' =>
        have value : url.portOrKnownDefault = some port' := by
          rw [Url.portOrKnownDefault, port]
          rfl
        rw [Option.map_some, same.portOrKnownDefault, value]
        simp only [Text.isDigit_toString, Text.parseU16_toString (small port' port),
          Text.toString_ne_nil, ne_eq, not_false_eq_true, decide_true, Bool.true_and, Bool.and_true,
          Bool.or_eq_true, decide_eq_true_eq]
        exact Text.head?_toString port'
  unfold canonicalAuthority
  rw [spelled, splitOnce_originText web, rawAuthority_originText web host starts]
  simp only [hosts, ports, same.scheme, decide_true, Bool.and_self]

/-! ## Tails -/

theorem dropWhile_authority {authority : List Char} (plain : ∀ c ∈ authority, c ∉ ['/', '?', '#'])
    (starts : ∀ c ∈ tail.head?, c = '/' ∨ c = '?') :
    ((authority ++ tail).dropWhile fun c => c ∉ ['/', '?']) = tail := by
  have inside : ∀ c ∈ authority, decide (c ∉ ['/', '?']) = true := by
    intro c member
    have outside := plain c member
    simp only [List.mem_cons, List.not_mem_nil, or_false, not_or] at outside
    simp [outside.1, outside.2.1]
  rw [List.dropWhile_append_of_pos inside]
  cases tail with
  | nil => rfl
  | cons c rest =>
      have stop : ¬ decide (c ∉ ['/', '?']) = true := by
        rcases starts c rfl with rfl | rfl
        · decide
        · decide
      exact List.dropWhile_cons_of_neg stop

theorem colon_not_mem_of_lower {scheme : List Char}
    (web : lower scheme ∈ ["http".toList, "https".toList]) : ':' ∉ scheme := by
  intro member
  have lowered : ':' ∈ lower scheme := List.mem_map.mpr ⟨':', member, rfl⟩
  simp only [List.mem_cons, List.not_mem_nil, or_false] at web
  rcases web with http | https
  · rw [http] at lowered
    exact absurd lowered (by decide)
  · rw [https] at lowered
    exact absurd lowered (by decide)

theorem HasTail.starts {raw : List Char} (has : HasTail raw tail) :
    ∀ c ∈ tail.head?, c = '/' ∨ c = '?' := by
  obtain ⟨_, _, _, _, _, _, starts⟩ := has
  exact starts

/-- **What is cut out of a text that is spelled out is its tail.** -/
theorem rawPathAndQuery_of_hasTail {raw : List Char} (has : HasTail raw tail) :
    rawPathAndQuery raw = some tail := by
  obtain ⟨scheme, authority, rfl, web, -, plain, starts⟩ := has
  rw [List.append_assoc _ authority]
  unfold rawPathAndQuery
  rw [Text.splitOnce_append (colon_not_mem_of_lower web), Option.map_some,
    dropWhile_authority plain starts]

theorem hasTail_append (web : url.IsWeb) (host : HostSerialized url text)
    (starts : ∀ c ∈ tail.head?, c = '/' ∨ c = '?') :
    HasTail (url.originSerialization ++ String.ofList tail).toList tail := by
  refine ⟨url.scheme.toList, text ++ portText url, ?_, lower_scheme web, ?_, ?_, starts⟩
  · rw [String.toList_append, originSerialization_eq host, String.toList_ofList]
  · exact List.append_ne_nil_of_left_ne_nil host.ne_nil _
  · intro c member
    rcases List.mem_append.mp member with member | member
    · exact (host.plain c member).1
    · exact (plain_portText url c member).1

theorem validateRawUri_iff {value : String} {u : Unit} :
    validateRawUri value = .ok u ↔ value.toList.all isRawChar = true := by
  unfold validateRawUri
  change (if value.toList.all isRawChar = true then _ else _) = _ ↔ _
  split
  · rename_i plain
    simp [plain]
  · rename_i special
    simp [special]

theorem validateRawUri_append (web : url.IsWeb) (host : HostSerialized url text)
    (raw : tail.all isRawChar = true) :
    validateRawUri (url.originSerialization ++ String.ofList tail) = .ok () := by
  have scheme : (url.scheme.toList ++ [':', '/', '/']).all isRawChar = true := by
    rcases web with http | https
    · rw [http]
      decide
    · rw [https]
      decide
  have hostChars : text.all isRawChar = true := List.all_eq_true.mpr fun c member =>
    (host.plain c member).2
  have port : (portText url).all isRawChar = true := List.all_eq_true.mpr fun c member =>
    (plain_portText url c member).2
  rw [validateRawUri_iff, String.toList_append, originSerialization_eq host, String.toList_ofList]
  simp only [List.all_append, Bool.and_eq_true] at scheme ⊢
  exact ⟨⟨scheme, hostChars, port⟩, raw⟩

/-- The tail that is cut out of a URI that has no fragment. -/
theorem isTail_of_rawPathAndQuery {value : String} (raw : validateRawUri value = .ok ())
    (whole : '#' ∉ value.toList) (cut : rawPathAndQuery value.toList = some tail) :
    IsTail tail := by
  obtain ⟨⟨scheme, rest⟩, parts, rfl⟩ := Option.map_eq_some_iff.mp cut
  have suffix : ∀ c ∈ rest.dropWhile fun c => c ∉ ['/', '?'], c ∈ value.toList := by
    intro c member
    rw [Text.append_of_splitOnce parts]
    exact List.mem_append_right _ ((List.dropWhile_sublist _).subset member)
  have chars := List.all_eq_true.mp (validateRawUri_iff.mp raw)
  refine ⟨fun c first => ?_, fun member => whole (suffix _ member),
    List.all_eq_true.mpr fun c member => chars c (suffix c member)⟩
  have stop := List.head?_dropWhile_not (fun c => decide (c ∉ ['/', '?'])) rest
  rw [Option.mem_def.mp first] at stop
  have inside := Decidable.not_not.mp (of_decide_eq_false stop)
  simpa using inside

/-- **A canonical text of a URL without a fragment has a tail.** -/
theorem hasTail_of_canonical (web : Serializes parse) {raw : String} (parsed : parse raw = .ok url)
    (scheme : url.IsWeb) (fragment : url.fragment = none)
    (canonical : canonicalAuthority raw url = true) (cut : rawPathAndQuery raw.toList = some tail) :
    HasTail raw.toList tail := by
  unfold canonicalAuthority at canonical
  split at canonical
  · rename_i scheme' _ host port first authority
    simp only [Bool.and_eq_true, decide_eq_true_eq] at canonical
    obtain ⟨⟨sameScheme, sameHost⟩, -⟩ := canonical
    obtain ⟨scheme'', text, rest, found, shape, inside, after⟩ := rawAuthority_eq_some authority
    obtain ⟨rfl, rfl⟩ := Prod.mk.inj (Option.some.inj (first.symm.trans found))
    have whole := Text.append_of_splitOnce first
    have starts : ∀ c ∈ rest.head?, c = '/' ∨ c = '?' := by
      intro c member
      have ends := after c member
      simp only [List.mem_cons, List.not_mem_nil, or_false] at ends
      rcases ends with slash | question | hash
      · exact .inl slash
      · exact .inr question
      · refine absurd ?_ (web.fragment raw url parsed fragment)
        rw [whole, ← hash]
        exact List.mem_append_right _ (List.mem_append_right _ (List.mem_of_mem_head? member))
    have same : rest = tail := by
      unfold rawPathAndQuery at cut
      rw [first, Option.map_some, dropWhile_authority inside starts] at cut
      exact Option.some.inj cut
    refine ⟨scheme', text, ?_, sameScheme ▸ lower_scheme scheme, ?_, inside, same ▸ starts⟩
    · rw [whole, ← same, List.append_assoc _ text]
    · rw [shape]
      refine List.append_ne_nil_of_left_ne_nil ?_ _
      rintro rfl
      obtain ⟨name, serialized⟩ := web.host raw url parsed scheme
      unfold hostMatches at sameHost
      rw [serialized.hostStr] at sameHost
      split at sameHost
      · exact absurd sameHost (by simp [bracketed])
      · have empty := of_decide_eq_true (Option.any_some.symm.trans sameHost)
        rw [String.toList_ofList] at empty
        exact serialized.ne_nil (List.map_eq_nil_iff.mp empty.symm)
      · cases sameHost
  · cases canonical

end OAuthRelay.Redirects
