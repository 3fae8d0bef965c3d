import OAuthRelay.Binding.AssociatedData
import OAuthRelay.Redirects.Matchers

/-!
# Paths of the endpoints

The layout gives every endpoint of every key a path below the public URL, and reads paths back.
What it reads is determined by the path alone (`parse_eq_some_iff`): a path is served if it is
the one that is rendered, perhaps with slashes in front of it and after it.

So every URL that the relay hands out leads back to its endpoint (`urls_lead_back`). An endpoint
has other spellings as well, which differ from the rendered one in the slashes around it
(`one_spelling_iff`).

Setting the path of a URL is up to the URL library, which percent-encodes what has to be and
resolves dot segments. The paths here have nothing of either (`Setters.Lawful`).
-/

set_option autoImplicit false

namespace OAuthRelay.Routes

open Codes (ResourceKey validSegment)
open Redirects (Parser Url)

/-! ## The layout -/

inductive Endpoint where
  | authorize
  | callback
  | token
  | discovery
  | jwks
  deriving DecidableEq

/-- How segments of a path make a key. -/
inductive KeyStrategy where
  | singleSegment
  | twoSegment
  | custom (map : List String → Option ResourceKey)

def isSlash (c : Char) : Bool := c = '/'

/-- `trim_matches('/')`. -/
def trimSlashes (text : List Char) : List Char := (text.dropWhile isSlash).rdropWhile isSlash

def KeyStrategy.key (keys : KeyStrategy) (parts : List String) : Option ResourceKey :=
  match keys, parts with
  | singleSegment, [part] => ResourceKey.new part
  | twoSegment, [first, second] => ResourceKey.new (first ++ "/" ++ second)
  | custom map, parts => map parts
  | _, _ => none

/-- The segments of the key and the endpoint, from the segments of a path. -/
def route : List String → Option (List String × Endpoint)
  | [] => none
  | ns :: namespaced =>
      if ns = "upstream" ∧ namespaced.getLast? = some "callback" then
        some (namespaced.dropLast, .callback)
      else if ns = "relay" then
        if [".well-known", "openid-configuration"].isSuffixOf namespaced then
          some (namespaced.take (namespaced.length - 2), .discovery)
        else
          match namespaced.getLast? with
          | some "authorize" => some (namespaced.dropLast, .authorize)
          | some "token" => some (namespaced.dropLast, .token)
          | some "jwks" => some (namespaced.dropLast, .jwks)
          | _ => none
      else none

/-- `split('/')`. -/
def splitSlashes (text : List Char) : List String := (text.splitOn '/').map String.ofList

/-- `DefaultLayout::parse`. -/
def parse (keys : KeyStrategy) (path : String) : Option (Endpoint × ResourceKey) := do
  let (keyParts, endpoint) ← route (splitSlashes (trimSlashes path.toList))
  let key ← keys.key keyParts
  pure (endpoint, key)

/-- `DefaultLayout::path`. -/
def path (endpoint : Endpoint) (key : ResourceKey) : String :=
  match endpoint with
  | .authorize => "relay/" ++ key.value ++ "/authorize"
  | .callback => "upstream/" ++ key.value ++ "/callback"
  | .token => "relay/" ++ key.value ++ "/token"
  | .discovery => "relay/" ++ key.value ++ "/.well-known/openid-configuration"
  | .jwks => "relay/" ++ key.value ++ "/jwks"

/-! ## The router -/

/-- The setters of the URL library. -/
structure Setters where
  setPath : Url → String → Url
  setQuery : Url → Option String → Url
  setFragment : Url → Option String → Url

def trimEnd (text : List Char) : List Char := text.rdropWhile isSlash

/-- `public_route_prefix`. -/
def publicRoutePrefix (publicUrl : Url) : String := String.ofList (trimEnd publicUrl.path.toList)

/-- `endpoint_url`. -/
def endpointUrl (set : Setters) (publicUrl : Url) (endpoint : Endpoint) (key : ResourceKey) :
    Url :=
  let url := set.setPath publicUrl <| String.ofList <| trimEnd publicUrl.path.toList ++
    '/' :: (path endpoint key).toList.dropWhile isSlash
  set.setFragment (set.setQuery url none) none

def stripPrefix (front text : List Char) : Option (List Char) :=
  if front.isPrefixOf text then some (text.drop front.length) else none

/-- The path that `dispatch` gives to the layout. -/
def dispatchPath (routePrefix requestPath : String) : Option String := do
  let rest ← stripPrefix routePrefix.toList requestPath.toList
  let rest ← stripPrefix ['/'] rest
  pure (String.ofList rest)

/-! ## What is claimed -/

/-- The key has as many segments as the strategy takes. -/
def KeyStrategy.Takes (keys : KeyStrategy) (key : ResourceKey) : Prop :=
  match keys with
  | singleSegment => (splitSlashes key.value.toList).length = 1
  | twoSegment => (splitSlashes key.value.toList).length = 2
  | custom _ => False

/-- What is used of the URL library. -/
structure Setters.Lawful (set : Setters) (parseUrl : Parser) : Prop where
  /-- Segments of URL-safe characters, none of them a dot segment, are appended to the path of a
  URL as they are. -/
  path : ∀ value url, parseUrl value = .ok url → ∀ tail : List Char,
    (tail.splitOn '/').all validSegment = true →
    (set.setPath url (String.ofList (trimEnd url.path.toList ++ '/' :: tail))).path =
      String.ofList (trimEnd url.path.toList ++ '/' :: tail)
  query : ∀ url query, (set.setQuery url query).path = url.path
  fragment : ∀ url fragment, (set.setFragment url fragment).path = url.path

/-- What is handed out leads back to the endpoint and the key it is for, and to no others. -/
structure LeadsBack (set : Setters) (keys : KeyStrategy) (publicUrl : Url) : Prop where
  back : ∀ endpoint key, keys.Takes key → ∃ path,
    dispatchPath (publicRoutePrefix publicUrl) (endpointUrl set publicUrl endpoint key).path =
      some path ∧ parse keys path = some (endpoint, key)
  distinct : ∀ endpoint key endpoint' key', keys.Takes key → keys.Takes key' →
    (endpointUrl set publicUrl endpoint key).path =
      (endpointUrl set publicUrl endpoint' key').path → endpoint = endpoint' ∧ key = key'

/-- A path that is served, with slashes in front of it or after it. -/
def Padded (keys : KeyStrategy) (text : String) : Prop :=
  ∃ endpoint key front back, keys.Takes key ∧ 0 < front + back ∧
    text.toList = List.replicate front '/' ++ (path endpoint key).toList ++
      List.replicate back '/'

/-- Whatever the path is read as, it is the path of that. -/
def OneSpelling (keys : KeyStrategy) (text : String) : Prop :=
  ∀ endpoint key, parse keys text = some (endpoint, key) → text = path endpoint key

/-! ## Segments -/

theorem not_mem_of_mem_splitOn {α : Type} [DecidableEq α] {separator : α} {text piece : List α}
    (inside : piece ∈ text.splitOn separator) : separator ∉ piece := by
  induction text generalizing piece with
  | nil =>
      obtain rfl : piece = [] := by simpa [List.splitOn_eq_singleton] using inside
      exact List.not_mem_nil
  | cons x rest ih =>
      rw [List.splitOn_cons_eq_if_modifyHead] at inside
      split at inside
      · rcases List.mem_cons.mp inside with rfl | inside
        · exact List.not_mem_nil
        · exact ih inside
      · rename_i other
        obtain ⟨first, others, pieces⟩ :=
          List.exists_cons_of_ne_nil (List.splitOn_ne_nil separator rest)
        rw [pieces] at ih inside
        rcases List.mem_cons.mp inside with rfl | inside
        · intro found
          rcases List.mem_cons.mp found with rfl | found
          · exact other (beq_self_eq_true _)
          · exact ih (List.mem_cons_self ..) found
        · exact ih (List.mem_cons_of_mem _ inside)

theorem intercalate_append {α : Type} (separator : α) {front back : List (List α)}
    (nonempty : front ≠ []) (nonempty' : back ≠ []) : [separator].intercalate (front ++ back) =
      [separator].intercalate front ++ separator :: [separator].intercalate back := by
  induction front with
  | nil => exact absurd rfl nonempty
  | cons first rest ih =>
      cases rest with
      | nil =>
          obtain ⟨second, others, rfl⟩ := List.exists_cons_of_ne_nil nonempty'
          simp [List.intercalate_cons_cons]
      | cons second rest =>
          have rest := ih (List.cons_ne_nil _ _)
          simp only [List.cons_append, List.intercalate_cons_cons] at rest ⊢
          rw [rest]
          simp

/-- Segments as a text. -/
def joinSlashes (texts : List String) : List Char := ['/'].intercalate (texts.map String.toList)

theorem joinSlashes_append {front back : List String} (nonempty : front ≠ [])
    (nonempty' : back ≠ []) :
    joinSlashes (front ++ back) = joinSlashes front ++ '/' :: joinSlashes back := by
  unfold joinSlashes
  rw [List.map_append]
  exact intercalate_append '/' (mt List.map_eq_nil_iff.mp nonempty)
    (mt List.map_eq_nil_iff.mp nonempty')

@[simp] theorem joinSlashes_singleton (text : String) : joinSlashes [text] = text.toList := by
  simp [joinSlashes]

@[simp] theorem joinSlashes_cons_cons (text text' : String) (texts : List String) :
    joinSlashes (text :: text' :: texts) = text.toList ++ '/' :: joinSlashes (text' :: texts) := by
  simp [joinSlashes, List.intercalate_cons_cons]

theorem joinSlashes_splitSlashes (text : List Char) : joinSlashes (splitSlashes text) = text := by
  have whole : (splitSlashes text).map String.toList = text.splitOn '/' := by
    simp [splitSlashes, Function.comp_def]
  rw [joinSlashes, whole, List.intercalate_splitOn]

theorem splitSlashes_joinSlashes {texts : List String} (nonempty : texts ≠ [])
    (plain : ∀ text ∈ texts, '/' ∉ text.toList) : splitSlashes (joinSlashes texts) = texts := by
  unfold splitSlashes joinSlashes
  rw [List.splitOn_intercalate '/' _ (mt List.map_eq_nil_iff.mp nonempty), List.map_map]
  · simp [Function.comp_def]
  · intro text inside
    obtain ⟨text, inside', rfl⟩ := List.mem_map.mp inside
    exact plain text inside'

theorem slash_not_mem_of_splitSlashes {text : List Char} {piece : String}
    (inside : piece ∈ splitSlashes text) : '/' ∉ piece.toList := by
  obtain ⟨piece, inside', rfl⟩ := List.mem_map.mp inside
  rw [String.toList_ofList]
  exact not_mem_of_mem_splitOn inside'

theorem splitSlashes_ne_nil (text : List Char) : splitSlashes text ≠ [] :=
  mt List.map_eq_nil_iff.mp (List.splitOn_ne_nil _ _)

/-! ## Paths -/

def segments (key : ResourceKey) : List String := splitSlashes key.value.toList

/-- The segment in front of the key. -/
def Endpoint.ns : Endpoint → String
  | .callback => "upstream"
  | _ => "relay"

/-- The segments after the key. -/
def Endpoint.suffix : Endpoint → List String
  | .authorize => ["authorize"]
  | .callback => ["callback"]
  | .token => ["token"]
  | .discovery => [".well-known", "openid-configuration"]
  | .jwks => ["jwks"]

/-- The segments of a path. -/
def pathSegments (endpoint : Endpoint) (key : ResourceKey) : List String :=
  endpoint.ns :: (segments key ++ endpoint.suffix)

theorem suffix_ne_nil (endpoint : Endpoint) : endpoint.suffix ≠ [] := by
  cases endpoint <;> exact List.cons_ne_nil _ _

theorem path_eq (endpoint : Endpoint) (key : ResourceKey) :
    (path endpoint key).toList = joinSlashes (pathSegments endpoint key) := by
  have whole : joinSlashes (pathSegments endpoint key) = endpoint.ns.toList ++
      '/' :: (key.value.toList ++ '/' :: joinSlashes endpoint.suffix) := by
    have keyed := joinSlashes_append (splitSlashes_ne_nil key.value.toList) (suffix_ne_nil endpoint)
    rw [joinSlashes_splitSlashes] at keyed
    have spaced := joinSlashes_append (List.cons_ne_nil endpoint.ns [])
      (List.append_ne_nil_of_left_ne_nil (splitSlashes_ne_nil key.value.toList) endpoint.suffix)
    rw [joinSlashes_singleton, keyed] at spaced
    exact spaced
  rw [whole]
  cases endpoint <;> simp [path, Endpoint.ns, Endpoint.suffix]

theorem slash_not_mem_of_pathSegments {endpoint : Endpoint} {key : ResourceKey} :
    ∀ text ∈ pathSegments endpoint key, '/' ∉ text.toList := by
  have ends : '/' ∉ endpoint.ns.toList ∧ ∀ text ∈ endpoint.suffix, '/' ∉ text.toList := by
    cases endpoint <;> decide
  intro text inside
  rcases List.mem_cons.mp inside with rfl | inside
  · exact ends.1
  · rcases List.mem_append.mp inside with inside | inside
    · exact slash_not_mem_of_splitSlashes inside
    · exact ends.2 text inside

theorem splitSlashes_path (endpoint : Endpoint) (key : ResourceKey) :
    splitSlashes (path endpoint key).toList = pathSegments endpoint key := by
  rw [path_eq]
  exact splitSlashes_joinSlashes (List.cons_ne_nil _ _) slash_not_mem_of_pathSegments

/-! ## What is read -/

theorem getLast?_eq_iff {α : Type} {xs init : List α} {last : α} :
    xs.getLast? = some last ∧ xs.dropLast = init ↔ xs = init ++ [last] := by
  constructor
  · rintro ⟨found, rfl⟩
    obtain ⟨init, rfl⟩ := List.getLast?_eq_some_iff.mp found
    rw [List.dropLast_concat]
  · rintro rfl
    exact ⟨List.getLast?_concat, List.dropLast_concat⟩

/-- **The segments determine the endpoint and what is left for the key.** -/
theorem route_eq_some_iff {texts parts : List String} {endpoint : Endpoint} :
    route texts = some (parts, endpoint) ↔ texts = endpoint.ns :: (parts ++ endpoint.suffix) := by
  constructor
  · intro routed
    unfold route at routed
    split at routed
    · cases routed
    · rename_i ns namespaced
      split at routed
      · rename_i callback
        cases routed
        rw [callback.1, getLast?_eq_iff.mp ⟨callback.2, rfl⟩, List.dropLast_concat]
        rfl
      · split at routed
        · rename_i relay
          rw [relay]
          split at routed
          · rename_i known
            cases routed
            obtain ⟨front, rfl⟩ := List.isSuffixOf_iff_suffix.mp known
            simp [Endpoint.ns, Endpoint.suffix]
          · split at routed
            · rename_i last
              cases routed
              exact congrArg _ (getLast?_eq_iff.mp ⟨last, rfl⟩)
            · rename_i last
              cases routed
              exact congrArg _ (getLast?_eq_iff.mp ⟨last, rfl⟩)
            · rename_i last
              cases routed
              exact congrArg _ (getLast?_eq_iff.mp ⟨last, rfl⟩)
            · cases routed
        · cases routed
  · rintro rfl
    have plain : ∀ last : String, last ≠ "openid-configuration" →
        [".well-known", "openid-configuration"].isSuffixOf (parts ++ [last]) = false := by
      intro last other
      rw [Bool.eq_false_iff]
      intro known
      obtain ⟨front, same⟩ := List.isSuffixOf_iff_suffix.mp known
      have ends := congrArg List.getLast? same
      simp at ends
      exact other ends.symm
    cases endpoint with
    | authorize => simp [route, Endpoint.ns, Endpoint.suffix, plain]
    | callback => simp [route, Endpoint.ns, Endpoint.suffix]
    | token => simp [route, Endpoint.ns, Endpoint.suffix, plain]
    | discovery => simp [route, Endpoint.ns, Endpoint.suffix]
    | jwks => simp [route, Endpoint.ns, Endpoint.suffix, plain]

variable {keys : KeyStrategy} {endpoint : Endpoint} {key : ResourceKey}

theorem value_of_new {value : String} (new : ResourceKey.new value = some key) :
    key.value = value := by
  unfold ResourceKey.new at new
  split at new
  · cases new
    rfl
  · cases new

/-- A built-in strategy. -/
def KeyStrategy.BuiltIn (keys : KeyStrategy) : Prop := keys = .singleSegment ∨ keys = .twoSegment

theorem parts_of_singleSegment {parts : List String}
    (made : KeyStrategy.singleSegment.key parts = some key) : parts = [key.value] :=
  match parts, made with
  | [_], made => congrArg (fun value => [value]) (value_of_new made).symm

theorem parts_of_twoSegment {parts : List String}
    (made : KeyStrategy.twoSegment.key parts = some key) :
    ∃ first second, parts = [first, second] ∧ key.value = first ++ "/" ++ second :=
  match parts, made with
  | [first, second], made => ⟨first, second, rfl, value_of_new made⟩

/-- **The segments that make a key are its segments, as many as the strategy takes.** -/
theorem key_eq_some_iff (builtIn : keys.BuiltIn) {parts : List String}
    (plain : ∀ text ∈ parts, '/' ∉ text.toList) :
    keys.key parts = some key ↔ parts = segments key ∧ keys.Takes key := by
  constructor
  · intro made
    rcases builtIn with rfl | rfl
    · obtain rfl := parts_of_singleSegment made
      have same : [key.value] = segments key := by
        rw [segments, ← joinSlashes_singleton, splitSlashes_joinSlashes (by simp) plain]
      refine ⟨same, ?_⟩
      change (segments key).length = 1
      rw [← same]
      rfl
    · obtain ⟨first, second, rfl, value⟩ := parts_of_twoSegment made
      have joined : key.value.toList = joinSlashes [first, second] := by
        rw [value]
        simp
      have same : [first, second] = segments key := by
        rw [segments, joined, splitSlashes_joinSlashes (by simp) plain]
      refine ⟨same, ?_⟩
      change (segments key).length = 2
      rw [← same]
      rfl
  · rintro ⟨rfl, takes⟩
    have whole := joinSlashes_splitSlashes key.value.toList
    rcases builtIn with rfl | rfl
    · obtain ⟨part, single⟩ := List.length_eq_one_iff.mp takes
      have value : part = key.value := by
        rw [single, joinSlashes_singleton] at whole
        exact String.toList_inj.mp whole
      rw [segments, single, value]
      exact key.new_value
    · obtain ⟨first, second, both⟩ := List.length_eq_two.mp takes
      have value : first ++ "/" ++ second = key.value := by
        rw [both, joinSlashes_cons_cons, joinSlashes_singleton] at whole
        refine String.toList_inj.mp (Eq.trans ?_ whole)
        simp
      rw [segments, both]
      change ResourceKey.new (first ++ "/" ++ second) = some key
      rw [value]
      exact key.new_value

/-- **What the layout reads.** The path is served when it is the path of an endpoint and a key,
with slashes around it. -/
theorem parse_eq_some_iff (builtIn : keys.BuiltIn) {text : String} :
    parse keys text = some (endpoint, key) ↔
      keys.Takes key ∧ trimSlashes text.toList = (path endpoint key).toList := by
  have texts (parts : List String) : splitSlashes (trimSlashes text.toList) =
      endpoint.ns :: (parts ++ endpoint.suffix) → ∀ part ∈ parts, '/' ∉ part.toList := by
    intro same part inside
    have among : part ∈ splitSlashes (trimSlashes text.toList) := by
      rw [same]
      exact List.mem_cons_of_mem _ (List.mem_append_left _ inside)
    exact slash_not_mem_of_splitSlashes among
  constructor
  · intro read
    obtain ⟨⟨parts, endpoint'⟩, routed, read⟩ := Option.bind_eq_some_iff.mp read
    obtain ⟨key', made, same⟩ := Option.bind_eq_some_iff.mp read
    obtain ⟨rfl, rfl⟩ := Prod.mk.inj (Option.some.inj same)
    have whole := route_eq_some_iff.mp routed
    obtain ⟨rfl, takes⟩ := (key_eq_some_iff builtIn (texts parts whole)).mp made
    refine ⟨takes, ?_⟩
    rw [path_eq, pathSegments, ← whole, joinSlashes_splitSlashes]
  · rintro ⟨takes, same⟩
    have whole : splitSlashes (trimSlashes text.toList) = pathSegments endpoint key := by
      rw [same, splitSlashes_path]
    have made := (key_eq_some_iff builtIn (texts (segments key) whole)).mpr ⟨rfl, takes⟩
    simp only [parse, route_eq_some_iff.mpr whole, made, Option.bind_eq_bind, Option.bind_some]
    rfl

/-! ## Slashes around a path -/

/-- The text neither begins nor ends with a slash. -/
structure Bare (text : List Char) : Prop where
  nonempty : text ≠ []
  first : ∀ c ∈ text.head?, isSlash c = false
  last : ∀ c ∈ text.getLast?, isSlash c = false

theorem dropWhile_replicate {text : List Char} (first : ∀ c ∈ text.head?, isSlash c = false)
    (front : ℕ) : (List.replicate front '/' ++ text).dropWhile isSlash = text := by
  rw [List.dropWhile_append_of_pos (by simp [isSlash])]
  cases text with
  | nil => rfl
  | cons c rest =>
      have other := first c rfl
      exact List.dropWhile_cons_of_neg (by simp [other])

theorem rdropWhile_replicate {text : List Char} (last : ∀ c ∈ text.getLast?, isSlash c = false)
    (back : ℕ) : (text ++ List.replicate back '/').rdropWhile isSlash = text := by
  induction back with
  | zero =>
      rw [List.replicate_zero, List.append_nil, List.rdropWhile_eq_self_iff]
      intro nonempty
      have other := last _ (List.getLast?_eq_some_getLast nonempty)
      simp [other]
  | succ back ih =>
      rw [List.replicate_succ', ← List.append_assoc, List.rdropWhile_concat_pos _ _ _ rfl]
      exact ih

theorem trimSlashes_of_bare {text : List Char} (bare : Bare text) (front back : ℕ) :
    trimSlashes (List.replicate front '/' ++ text ++ List.replicate back '/') = text := by
  unfold trimSlashes
  rw [List.append_assoc, dropWhile_replicate ?_ front, rdropWhile_replicate bare.last]
  obtain ⟨c, rest, rfl⟩ := List.exists_cons_of_ne_nil bare.nonempty
  exact bare.first

/-- The slashes that are trimmed. -/
theorem exists_replicate (text : List Char) : ∃ front back,
    text = List.replicate front '/' ++ trimSlashes text ++ List.replicate back '/' := by
  have slashes : ∀ run : List Char, (∀ c ∈ run, isSlash c = true) →
      ∃ count, run = List.replicate count '/' := fun run all =>
    ⟨run.length, List.eq_replicate_iff.mpr ⟨rfl, fun c inside => of_decide_eq_true (all c inside)⟩⟩
  obtain ⟨front, leading⟩ := slashes (text.takeWhile isSlash) fun _ => List.mem_takeWhile_imp
  obtain ⟨back, trailing⟩ := slashes ((text.dropWhile isSlash).rtakeWhile isSlash) fun _ =>
    List.mem_rtakeWhile_imp
  refine ⟨front, back, ?_⟩
  rw [← leading, trimSlashes, List.append_assoc, ← trailing, List.rdropWhile_append_rtakeWhile,
    List.takeWhile_append_dropWhile]

theorem bare_path (endpoint : Endpoint) (key : ResourceKey) : Bare (path endpoint key).toList := by
  cases endpoint <;> constructor <;>
    simp [path, isSlash, List.getLast?_cons, List.getLast?_append]

/-- **Every path is read as what it is the path of.** -/
theorem parse_path (builtIn : keys.BuiltIn) (takes : keys.Takes key) :
    parse keys (path endpoint key) = some (endpoint, key) := by
  refine (parse_eq_some_iff builtIn).mpr ⟨takes, ?_⟩
  simpa using trimSlashes_of_bare (bare_path endpoint key) 0 0

/-- **A path has one spelling, unless it is a path with slashes around it.** -/
theorem one_spelling_iff (builtIn : keys.BuiltIn) (text : String) :
    OneSpelling keys text ↔ ¬ Padded keys text := by
  constructor
  · rintro one ⟨endpoint, key, front, back, takes, some, padded⟩
    have read : parse keys text = Option.some (endpoint, key) :=
      (parse_eq_some_iff builtIn).mpr
        ⟨takes, by rw [padded]; exact trimSlashes_of_bare (bare_path endpoint key) front back⟩
    have lengths := congrArg List.length padded
    rw [one endpoint key read] at lengths
    simp at lengths
    omega
  · intro plain endpoint key read
    obtain ⟨takes, trimmed⟩ := (parse_eq_some_iff builtIn).mp read
    obtain ⟨front, back, whole⟩ := exists_replicate text.toList
    rw [trimmed] at whole
    by_contra other
    refine plain ⟨endpoint, key, front, back, takes, Nat.pos_of_ne_zero fun none => other ?_, whole⟩
    obtain ⟨rfl, rfl⟩ := Nat.add_eq_zero_iff.mp none
    exact String.toList_inj.mp (by simpa using whole)

/-- An endpoint may answer under a second spelling. -/
theorem not_one_spelling :
    ¬ ∀ (keys : KeyStrategy) (text : String), keys.BuiltIn → OneSpelling keys text := by
  intro all
  have same := all .singleSegment "relay/app/token/" (.inl rfl) .token Codes.sampleKey
    (by decide +kernel)
  exact absurd same (by decide +kernel)

/-- The rendered path is the one spelling of its endpoint that has no slashes around it. -/
theorem one_spelling_rendered : OneSpelling .singleSegment "relay/app/token" := by
  refine (one_spelling_iff (.inl rfl) _).mpr ?_
  rintro ⟨endpoint, key, front, back, -, some, padded⟩
  have bare : Bare "relay/app/token".toList := bare_path .token Codes.sampleKey
  have trimmed := trimSlashes_of_bare (bare_path endpoint key) front back
  have trimmed' := trimSlashes_of_bare bare 0 0
  rw [List.replicate_zero, List.nil_append, List.append_nil] at trimmed'
  rw [← padded, trimmed'] at trimmed
  rw [trimmed] at padded
  have lengths := congrArg List.length padded
  simp only [List.length_append, List.length_replicate] at lengths
  omega

/-! ## URLs -/

variable {set : Setters} {parseUrl : Parser} {publicUrl : Url} {value : String}

theorem splitOn_path (endpoint : Endpoint) (key : ResourceKey) :
    (path endpoint key).toList.splitOn '/' = (pathSegments endpoint key).map String.toList := by
  rw [← splitSlashes_path]
  simp [splitSlashes, Function.comp_def]

theorem validSegment_of_path (endpoint : Endpoint) (key : ResourceKey) :
    ((path endpoint key).toList.splitOn '/').all validSegment = true := by
  have ends : validSegment endpoint.ns.toList = true ∧
      (endpoint.suffix.map String.toList).all validSegment = true := by
    cases endpoint <;> decide
  have keyed : ((segments key).map String.toList).all validSegment = true := by
    have valid := key.valid
    simp only [Codes.validKey, Bool.and_eq_true] at valid
    simpa [segments, splitSlashes, Function.comp_def] using valid.2
  rw [splitOn_path, pathSegments, List.map_cons, List.map_append, List.all_cons, List.all_append,
    ends.1, ends.2, keyed]
  rfl

/-- **The path of a URL that is handed out.** -/
theorem endpointUrl_path (lawful : set.Lawful parseUrl) (parsed : parseUrl value = .ok publicUrl)
    (endpoint : Endpoint) (key : ResourceKey) : (endpointUrl set publicUrl endpoint key).path =
      String.ofList (trimEnd publicUrl.path.toList ++ '/' :: (path endpoint key).toList) := by
  have bare : (path endpoint key).toList.dropWhile isSlash = (path endpoint key).toList :=
    dropWhile_replicate (bare_path endpoint key).first 0
  unfold endpointUrl
  rw [bare, lawful.fragment, lawful.query]
  exact lawful.path value publicUrl parsed _ (validSegment_of_path endpoint key)

theorem stripPrefix_append (front rest : List Char) :
    stripPrefix front (front ++ rest) = some rest := by
  unfold stripPrefix
  rw [if_pos (List.isPrefixOf_iff_prefix.mpr (List.prefix_append _ _)), List.drop_left]

theorem dispatchPath_append (routePrefix text : List Char) :
    dispatchPath (String.ofList routePrefix) (String.ofList (routePrefix ++ '/' :: text)) =
      some (String.ofList text) := by
  have slash : stripPrefix ['/'] ('/' :: text) = some text := stripPrefix_append ['/'] text
  simp only [dispatchPath, String.toList_ofList, stripPrefix_append, Option.bind_eq_bind,
    Option.bind_some, slash]
  rfl

/-- **Every URL that is handed out leads back to its endpoint and its key.** -/
theorem urls_lead_back (builtIn : keys.BuiltIn) (lawful : set.Lawful parseUrl)
    (parsed : parseUrl value = .ok publicUrl) : LeadsBack set keys publicUrl where
  back endpoint key takes := by
    refine ⟨path endpoint key, ?_, parse_path builtIn takes⟩
    rw [endpointUrl_path lawful parsed, publicRoutePrefix, dispatchPath_append,
      String.ofList_toList]
  distinct endpoint key endpoint' key' takes takes' same := by
    rw [endpointUrl_path lawful parsed, endpointUrl_path lawful parsed] at same
    have texts := List.append_cancel_left (String.ofList_injective same)
    have paths := String.toList_inj.mp (List.cons.inj texts).2
    have read : parse keys (path endpoint key) = some (endpoint, key) := parse_path builtIn takes
    rw [paths, parse_path builtIn takes'] at read
    exact (Prod.mk.inj (Option.some.inj read)).imp Eq.symm Eq.symm

/-- A relay below a path. -/
def oauthUrl : Url :=
  ⟨"https://relay.example/oauth/", "https", "", none, some (.domain "relay.example"),
    some "relay.example", none, "/oauth/", none, none⟩

/-- A parser that knows one public URL. -/
def oauthParse : Parser := fun raw =>
  if raw = "https://relay.example/oauth/" then .ok oauthUrl
  else .error "relative URL without a base"

/-- Setters that encode nothing, as nothing has to be encoded. -/
def plainSetters : Setters where
  setPath url path :=
    { url with asStr := url.originSerialization ++ path, path := path }
  setQuery url query := { url with query := query }
  setFragment url fragment := { url with fragment := fragment }

theorem lawful_plainSetters : plainSetters.Lawful oauthParse where
  path _ _ _ _ _ := rfl
  query _ _ := rfl
  fragment _ _ := rfl

/-- The URLs below a path lead back. -/
theorem urls_lead_back_oauth : LeadsBack plainSetters .singleSegment oauthUrl :=
  urls_lead_back (.inl rfl) lawful_plainSetters
    (rfl : oauthParse "https://relay.example/oauth/" = .ok oauthUrl)

end OAuthRelay.Routes
