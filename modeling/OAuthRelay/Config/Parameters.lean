import OAuthRelay.Config.Compile
import OAuthRelay.Flows.Handles

/-!
# Resources in a parameter tree

The SSM provider keeps one document in each parameter below two paths, one for each kind. A load
lists both paths page by page. A parameter has to be a plain string, its name has to be the path of
its kind and one more segment, and its document has to have this kind and this name. Secrets are in
parameters of another type, in the secrets manager, in the environment and in files.

Whatever the pages are, a load mirrors the tree (`parameters_mirrored`). It succeeds exactly when
every parameter below the two paths is a document in its own place, all documents compile, and the
whole is valid. Then there is one resource for each parameter, and a parameter that was read as
a secret is none of them.
-/

set_option autoImplicit false

namespace OAuthRelay.Config.Parameters

open OAuthRelay.Codes (ResourceKey)
open Flows.Handles (stripPrefix_eq_some_iff)
open Memo (Table)

variable {R : Rules} {B : Readers R}

/-! ## Parameters and clients -/

inductive ParameterType where
  | string
  | secureString
  | stringList
  deriving DecidableEq

structure Parameter where
  name : String
  value : String
  parameterType : ParameterType
  deriving DecidableEq

structure ParameterPage where
  parameters : List Parameter
  nextToken : Option String

/-- A call that lists a path, with the token of the page before. -/
abbrev Listing := String × Option String

/-- What the provider reads from, which may depend on what was read before, and what it reads texts
with. -/
structure World (B : Readers R) where
  getParametersByPath : List Listing → String → Option String → Except Error ParameterPage
  getParameter : List SecretSource → String → Except Error (Option Parameter)
  getSecretString : List SecretSource → String → Except Error (Option String)
  environment : List SecretSource → String → Except Error String
  file : List SecretSource → String → Except Error String
  parseDocument : String → Except Error (ResourceDocument B)
  parseJson : String → Except Error Value

/-! ## Secrets -/

/-- A string field at the top of a JSON text. -/
def stringField (parseJson : String → Except Error Value) (key secret : String) :
    Except Error String :=
  match parseJson secret with
  | .error error => .error ("Secrets Manager SecretString is not valid JSON" :: error)
  | .ok value =>
      match (value.get key).bind Value.asStr with
      | some text => .ok text
      | none => .error ["Secrets Manager jsonKey must identify a top-level string field"]

/-- `AwsSecretResolver::resolve_source`. -/
def awsSource (world : World B) (asked : List SecretSource) : SecretSource → Except Error String
  | .awsSsmParameter name =>
      if name.toList.head? ≠ some '/' then .error ["SSM parameter name must be absolute"]
      else
        match world.getParameter asked name with
        | .error error => .error error
        | .ok none => .error ["referenced SSM parameter does not exist"]
        | .ok (some parameter) =>
            if parameter.parameterType ≠ .secureString then
              .error ["referenced SSM parameter must use the SecureString type"]
            else .ok parameter.value
  | .awsSecretsManager secretId jsonKey =>
      match world.getSecretString asked secretId with
      | .error error => .error error
      | .ok none => .error ["Secrets Manager secret must contain SecretString"]
      | .ok (some secret) =>
          match jsonKey with
          | none => .ok secret
          | some key => stringField world.parseJson key secret
  | .env _ | .file _ | .secretKeyRef .. => .error ["source is not an AWS secret source"]

/-- `trim_end_matches(['\r', '\n'])`. -/
def trimNewlines (text : String) : String :=
  String.ofList (text.toList.rdropWhile fun c => c = '\r' || c = '\n')

/-- `Path::join`, with a relative path. -/
def joinPath (base path : String) : String :=
  if base = "" ∨ base.toList.getLast? = some '/' then base ++ path else base ++ "/" ++ path

/-- `StandardSecretResolver::resolve_source`, with the directory of relative paths and the resolvers
that it was given. -/
def standardSource (world : World B) (baseDirectory : Option String)
    (aws kubernetes : Option (List SecretSource → SecretSource → Except Error String))
    (asked : List SecretSource) (source : SecretSource) : Except Error String :=
  match source with
  | .secretKeyRef .. =>
      match kubernetes with
      | some resolve => resolve asked source
      | none => .error ["Kubernetes secret resolution is not configured"]
  | .env name => (world.environment asked name).map trimNewlines
  | .file path =>
      if path.toList.head? = some '/' then (world.file asked path).map trimNewlines
      else
        match baseDirectory with
        | some base => (world.file asked (joinPath base path)).map trimNewlines
        | none => .error ["relative secret file requires a resource base directory"]
  | .awsSsmParameter _ | .awsSecretsManager .. =>
      match aws with
      | some resolve => resolve asked source
      | none => .error ["AWS secret resolution is not configured"]

/-- The resolver of the SSM provider. -/
def resolver (world : World B) : Resolver where
  resolveValue := .ok
  resolveSource := standardSource world none (some (awsSource world)) none

/-! ## Loading -/

/-- `expected_identity`. -/
def expectedIdentity (front name : String) : Except Error (String × String) :=
  match Routes.stripPrefix front.toList name.toList with
  | none => .error [s!"{name}: parameter is outside the configured prefix"]
  | some relative =>
      match Routes.splitSlashes relative with
      | [plural, resource] =>
          if resource = "" then
            .error [s!"{name}: expected {front}" ++ "\x7bupstreams|relays\x7d/\x7bname\x7d"]
          else if plural = "upstreams" then .ok ("Upstream", resource)
          else if plural = "relays" then .ok ("Relay", resource)
          else .error [s!"{name}: expected an upstreams or relays resource path"]
      | _ => .error [s!"{name}: expected {front}" ++ "\x7bupstreams|relays\x7d/\x7bname\x7d"]

/-- The document of a parameter. -/
def parameterDocument (world : World B) (front : String) (parameter : Parameter) :
    Except Error (ResourceDocument B) := do
  if parameter.parameterType ≠ .string then
    throw [s!"{parameter.name}: resource documents must use the SSM String type"]
  let expected ← expectedIdentity front parameter.name
  let document ← Memo.mapError
    (fun error : Error => s!"{parameter.name}: parse resource document" :: error)
    (world.parseDocument parameter.value)
  if document.kind ≠ expected.1 || document.name ≠ expected.2 then
    throw [s!"{parameter.name}: path identifies {expected.1}/{expected.2}, document identifies " ++
      s!"{document.kind}/{document.name}"]
  pure document

/-- Lists a path from a token on, with the documents of each page, and `none` without fuel. -/
def listDocuments (world : World B) (front path : String) :
    ℕ → List Listing → Option String →
      Option (Except Error (List (ResourceDocument B)) × List Listing)
  | 0, _, _ => none
  | fuel + 1, asked, token =>
      match world.getParametersByPath asked path token with
      | .error error => some (.error error, (path, token) :: asked)
      | .ok page =>
          match page.parameters.mapM (parameterDocument world front) with
          | .error error => some (.error error, (path, token) :: asked)
          | .ok documents =>
              match page.nextToken with
              | none => some (.ok documents, (path, token) :: asked)
              | some next =>
                  (listDocuments world front path fuel ((path, token) :: asked) (some next)).map
                    fun rest => (rest.1.map (documents ++ ·), rest.2)

/-- The path of a kind. -/
def pathOf (front plural : String) : String := front ++ plural ++ "/"

/-- `SsmProvider::load`, with the secrets that were resolved. -/
def load (world : World B) (front : String) (fuel : ℕ) :
    Option (Except Error (ProviderSnapshot R) × Table SecretSource String) :=
  match listDocuments world front (pathOf front "upstreams") fuel [] none with
  | none => none
  | some (.error error, _) => some (.error error, ⟨[], []⟩)
  | some (.ok upstreams, asked) =>
      match listDocuments world front (pathOf front "relays") fuel asked none with
      | none => none
      | some (.error error, _) => some (.error error, ⟨[], []⟩)
      | some (.ok relays, _) => some (compileResources (resolver world) (upstreams ++ relays))

/-! ## What is claimed -/

/-- The pages of a path, from a token on: each but the last names the token of the next. -/
inductive Pages (world : World B) (path : String) :
    List Listing → Option String → List (List Parameter) → List Listing → Prop
  | last {asked : List Listing} {token : Option String} {parameters : List Parameter}
      (answer : world.getParametersByPath asked path token = .ok ⟨parameters, none⟩) :
      Pages world path asked token [parameters] ((path, token) :: asked)
  | more {asked asked' : List Listing} {token : Option String} {next : String}
      {parameters : List Parameter} {pages : List (List Parameter)}
      (answer : world.getParametersByPath asked path token = .ok ⟨parameters, some next⟩)
      (rest : Pages world path ((path, token) :: asked) (some next) pages asked') :
      Pages world path asked token (parameters :: pages) asked'

/-- The parameter is in the tree below the path of a kind. -/
def Below (front plural : String) (parameter : Parameter) : Prop :=
  (pathOf front plural).toList <+: parameter.name.toList

instance (front plural : String) (parameter : Parameter) :
    Decidable (Below front plural parameter) :=
  inferInstanceAs (Decidable ((pathOf front plural).toList <+: parameter.name.toList))

/-- The client lists these parameters, on so many pages, in any order. -/
def Serves (world : World B) (front : String) (parameters : List Parameter) (count : ℕ) : Prop :=
  ∃ upstreams relays asked asked',
    Pages world (pathOf front "upstreams") [] none upstreams asked ∧
    Pages world (pathOf front "relays") asked none relays asked' ∧
    upstreams.length ≤ count ∧ relays.length ≤ count ∧
    upstreams.flatten.Perm (parameters.filter fun p => Below front "upstreams" p) ∧
    relays.flatten.Perm (parameters.filter fun p => Below front "relays" p)

/-- The name that a document's parameter has to have. -/
def placeOf (front : String) : ResourceDocument B → String
  | .upstream resource => pathOf front "upstreams" ++ resource.metadata.name
  | .relay resource => pathOf front "relays" ++ resource.metadata.name

/-- The snapshot is the tree. -/
structure Mirrors (world : World B) (front : String) (parameters : List Parameter)
    (secret : SecretValue → Except Error String) (snapshot : ProviderSnapshot R) : Prop where
  /-- Below the two paths there are documents, each in its own place. -/
  documents : ∀ p ∈ parameters, Below front "upstreams" p ∨ Below front "relays" p →
    p.parameterType = .string ∧
      ∃ document, world.parseDocument p.value = .ok document ∧ p.name = placeOf front document
  /-- Each has its resource. -/
  upstreams : ∀ p ∈ parameters, Below front "upstreams" p →
    ∃ key : ResourceKey, p.name = pathOf front "upstreams" ++ key.value ∧
      (snapshot.upstreams.lookup key).isSome
  relays : ∀ p ∈ parameters, Below front "relays" p →
    ∃ key : ResourceKey, p.name = pathOf front "relays" ++ key.value ∧
      (snapshot.relays.lookup key).isSome
  /-- A resource is what the document in its place compiles to. -/
  upstream : ∀ key upstream, snapshot.upstreams.lookup key = some upstream ↔
    ∃ p ∈ parameters, p.name = pathOf front "upstreams" ++ key.value ∧
      ∃ resource, world.parseDocument p.value = .ok (.upstream resource) ∧
        compileUpstream secret R resource = .ok (key, upstream)
  relay : ∀ key relay, snapshot.relays.lookup key = some relay ↔
    ∃ p ∈ parameters, p.name = pathOf front "relays" ++ key.value ∧
      ∃ resource, world.parseDocument p.value = .ok (.relay resource) ∧
        compileRelay secret resource = .ok (key, relay)
  valid : snapshot.validate = .ok ()

/-- The secrets of the documents, from a world that does not change. -/
def secretOf (world : World B) : SecretValue → Except Error String :=
  resolveSecret (resolver world).resolveValue ((resolver world).resolveSource [])

/-- **What a load makes of a tree.** -/
structure MirrorsTree (world : World B) (front : String) (parameters : List Parameter)
    (fuel : ℕ) : Prop where
  /-- A load comes to an end. -/
  returns : ∃ result, load world front fuel = some result
  sound : ∀ snapshot table, load world front fuel = some (.ok snapshot, table) →
    Mirrors world front parameters (secretOf world) snapshot
  complete : ∀ snapshot, Mirrors world front parameters (secretOf world) snapshot →
    ∃ snapshot' table, load world front fuel = some (.ok snapshot', table) ∧
      snapshot.Same snapshot'
  /-- A parameter that was read as a secret is no document. -/
  secrets : ∀ snapshot table name value, load world front fuel = some (.ok snapshot, table) →
    table.answers.lookup (.awsSsmParameter name) = some value →
      ∃ p ∈ parameters, p.name = name ∧ p.parameterType = .secureString ∧ p.value = value ∧
        ¬ Below front "upstreams" p ∧ ¬ Below front "relays" p

variable {world : World B} {front : String} {parameters : List Parameter} {fuel count : ℕ}

/-! ## Names -/

/-- The kind under a path. -/
def kindOf (plural : String) : Option String :=
  if plural = "upstreams" then some "Upstream"
  else if plural = "relays" then some "Relay"
  else none

theorem kindOf_eq_some {plural kind : String} : kindOf plural = some kind ↔
    plural = "upstreams" ∧ kind = "Upstream" ∨ plural = "relays" ∧ kind = "Relay" := by
  unfold kindOf
  constructor
  · intro found
    split at found
    · rename_i same
      exact .inl ⟨same, (Option.some.inj found).symm⟩
    · split at found
      · rename_i same
        exact .inr ⟨same, (Option.some.inj found).symm⟩
      · cases found
  · rintro (⟨rfl, rfl⟩ | ⟨rfl, rfl⟩)
    · rfl
    · rfl

theorem joinSlashes_pair (plural resource : String) :
    Routes.joinSlashes [plural, resource] = plural.toList ++ '/' :: resource.toList := by
  simp [Routes.joinSlashes, List.intercalate]

theorem pathOf_append (front plural resource : String) : pathOf front plural ++ resource =
    front ++ String.ofList (plural.toList ++ '/' :: resource.toList) := by
  apply String.toList_injective
  simp [pathOf]

/-- **A name identifies a resource when it is the path of a kind and one more segment.** -/
theorem expectedIdentity_eq_ok {name kind resource : String} :
    expectedIdentity front name = .ok (kind, resource) ↔
      ∃ plural, kindOf plural = some kind ∧ name = pathOf front plural ++ resource ∧
        resource ≠ "" ∧ '/' ∉ resource.toList := by
  constructor
  · intro found
    unfold expectedIdentity at found
    split at found
    · cases found
    · rename_i relative stripped
      split at found
      · rename_i plural resource' pieces
        have inside : resource' ∈ Routes.splitSlashes relative := by simp [pieces]
        have plain := Routes.slash_not_mem_of_splitSlashes inside
        have whole : relative = plural.toList ++ '/' :: resource'.toList := by
          rw [← Routes.joinSlashes_splitSlashes relative, pieces, joinSlashes_pair]
        have named : name = pathOf front plural ++ resource' := by
          rw [stripPrefix_eq_some_iff.mp stripped, whole, pathOf_append]
        split at found
        · cases found
        · rename_i nonempty
          split at found
          · rename_i upstreams
            cases found
            exact ⟨plural, kindOf_eq_some.mpr (.inl ⟨upstreams, rfl⟩), named, nonempty, plain⟩
          · split at found
            · rename_i relays
              cases found
              exact ⟨plural, kindOf_eq_some.mpr (.inr ⟨relays, rfl⟩), named, nonempty, plain⟩
            · cases found
      · cases found
  · rintro ⟨plural, kind, rfl, nonempty, plain⟩
    have slashless : '/' ∉ plural.toList := by
      rcases kindOf_eq_some.mp kind with ⟨rfl, _⟩ | ⟨rfl, _⟩
      · decide
      · decide
    have stripped : Routes.stripPrefix front.toList (pathOf front plural ++ resource).toList =
        some (plural.toList ++ '/' :: resource.toList) :=
      stripPrefix_eq_some_iff.mpr (pathOf_append front plural resource)
    have pieces : Routes.splitSlashes (plural.toList ++ '/' :: resource.toList) =
        [plural, resource] := by
      rw [← joinSlashes_pair]
      exact Routes.splitSlashes_joinSlashes (by simp) (by simp [slashless, plain])
    simp only [expectedIdentity, stripped, pieces, nonempty, if_false]
    rcases kindOf_eq_some.mp kind with ⟨rfl, rfl⟩ | ⟨rfl, rfl⟩
    · rfl
    · rfl

/-- The plural of a document's kind. -/
def pluralOf : ResourceDocument B → String
  | .upstream _ => "upstreams"
  | .relay _ => "relays"

theorem placeOf_eq (document : ResourceDocument B) :
    placeOf front document = pathOf front (pluralOf document) ++ document.name := by
  cases document <;> rfl

theorem kindOf_eq_kind {document : ResourceDocument B} {plural : String} :
    kindOf plural = some document.kind ↔ plural = pluralOf document := by
  rw [kindOf_eq_some]
  cases document with
  | upstream => simp [ResourceDocument.kind, pluralOf]
  | relay => simp [ResourceDocument.kind, pluralOf]

/-- **A parameter is a document in its own place, or it is an error.** -/
theorem parameterDocument_eq_ok {parameter : Parameter} {document : ResourceDocument B} :
    parameterDocument world front parameter = .ok document ↔
      parameter.parameterType = .string ∧ world.parseDocument parameter.value = .ok document ∧
        parameter.name = placeOf front document ∧ document.name ≠ "" ∧
          '/' ∉ document.name.toList := by
  unfold parameterDocument
  by_cases plain : parameter.parameterType = .string
  · simp only [plain, ne_eq, not_true_eq_false, if_false, true_and]
    constructor
    · intro found
      obtain ⟨⟨kind, resource⟩, expected, found⟩ := Memo.bind_eq_ok.mp found
      obtain ⟨document', parsed, found⟩ := Memo.bind_eq_ok.mp found
      split at found
      · cases found
      · rename_i same
        cases found
        simp only [Bool.or_eq_true, decide_eq_true_eq, not_or, not_not] at same
        obtain ⟨rfl, rfl⟩ := same
        obtain ⟨plural, named, whole, nonempty, slashless⟩ := expectedIdentity_eq_ok.mp expected
        refine ⟨Memo.mapError_eq_ok.mp parsed, ?_, nonempty, slashless⟩
        rw [whole, placeOf_eq, kindOf_eq_kind.mp named]
    · rintro ⟨parsed, named, nonempty, slashless⟩
      have expected : expectedIdentity front parameter.name =
          .ok (document.kind, document.name) :=
        expectedIdentity_eq_ok.mpr ⟨pluralOf document, kindOf_eq_kind.mpr rfl,
          named.trans (placeOf_eq document), nonempty, slashless⟩
      rw [expected, parsed]
      simp [bind, Except.bind, Memo.mapError, tryCatch, tryCatchThe, MonadExceptOf.tryCatch,
        Except.tryCatch, pure, Except.pure]
  · simp only [plain, ne_eq, not_false_eq_true, if_true, false_and, iff_false]
    intro found
    cases found

/-! ## Listings -/

theorem mapM_eq_ok {α β : Type} {f : α → Except Error β} {xs : List α} {ys : List β} :
    xs.mapM f = .ok ys ↔ List.Forall₂ (fun x y => f x = .ok y) xs ys := by
  induction xs generalizing ys with
  | nil =>
      cases ys with
      | nil => simp [pure, Except.pure]
      | cons => simp [pure, Except.pure]
  | cons x xs ih =>
      rw [List.mapM_cons, Memo.bind_eq_ok]
      constructor
      · rintro ⟨y, first, others⟩
        obtain ⟨ys', rest, done⟩ := Memo.bind_eq_ok.mp others
        cases done
        exact .cons first (ih.mp rest)
      · rintro (_ | ⟨first, rest⟩)
        exact ⟨_, first, Memo.bind_eq_ok.mpr ⟨_, ih.mpr rest, rfl⟩⟩

/-- **The documents of a path are those of all its pages.** -/
theorem listDocuments_of_pages (front : String) {path : String} {asked asked' : List Listing}
    {token : Option String} {pages : List (List Parameter)}
    (listed : Pages world path asked token pages asked') (enough : pages.length ≤ fuel) :
    match pages.flatten.mapM (parameterDocument world front) with
    | .ok documents =>
        listDocuments world front path fuel asked token = some (.ok documents, asked')
    | .error error => ∃ asked'',
        listDocuments world front path fuel asked token = some (.error error, asked'') := by
  induction listed generalizing fuel with
  | last answer =>
      cases fuel with
      | zero => exact absurd enough (by simp)
      | succ fuel =>
          rename_i parameters
          simp only [List.flatten_cons, List.flatten_nil, List.append_nil, listDocuments, answer]
          cases parameters.mapM (parameterDocument world front) with
          | ok documents => rfl
          | error error => exact ⟨_, rfl⟩
  | more answer rest ih =>
      cases fuel with
      | zero => exact absurd enough (by simp)
      | succ fuel =>
          rename_i parameters pages
          have ih := ih (Nat.le_of_succ_le_succ enough)
          simp only [List.flatten_cons, List.mapM_append, listDocuments, answer]
          cases parameters.mapM (parameterDocument world front) with
          | error error => exact ⟨_, rfl⟩
          | ok documents =>
              cases here : pages.flatten.mapM (parameterDocument world front) with
              | ok others =>
                  rw [here] at ih
                  simp only [ih]
                  rfl
              | error error =>
                  rw [here] at ih
                  obtain ⟨asked'', failed⟩ := ih
                  exact ⟨asked'', by simp only [failed]; rfl⟩

/-- **A load is a compilation of what is listed below the two paths.** -/
theorem load_of_serves (serves : Serves world front parameters count) (enough : count ≤ fuel) :
    ∃ listed : List Parameter,
      listed.Perm (parameters.filter (fun p => Below front "upstreams" p) ++
        parameters.filter (fun p => Below front "relays" p)) ∧
      match listed.mapM (parameterDocument world front) with
      | .ok documents => load world front fuel = some (compileResources (resolver world) documents)
      | .error error => load world front fuel = some (.error error, ⟨[], []⟩) := by
  obtain ⟨upstreams, relays, asked, asked', first, second, few, few', all, all'⟩ := serves
  have listed := listDocuments_of_pages front first (Nat.le_trans few enough)
  have listed' := listDocuments_of_pages front second (Nat.le_trans few' enough)
  refine ⟨upstreams.flatten ++ relays.flatten, all.append all', ?_⟩
  rw [List.mapM_append]
  unfold load
  cases here : upstreams.flatten.mapM (parameterDocument world front) with
  | error error =>
      rw [here] at listed
      obtain ⟨_, failed⟩ := listed
      rw [failed]
      rfl
  | ok documents =>
      rw [here] at listed
      rw [listed]
      cases here' : relays.flatten.mapM (parameterDocument world front) with
      | error error =>
          rw [here'] at listed'
          obtain ⟨_, failed⟩ := listed'
          simp only [failed]
          rfl
      | ok others =>
          rw [here'] at listed'
          simp only [listed']
          rfl

/-! ## Parameters and their documents -/

theorem below_iff {plural : String} {parameter : Parameter} :
    Below front plural parameter ↔ ∃ rest, parameter.name = pathOf front plural ++ rest := by
  constructor
  · rintro ⟨rest, same⟩
    refine ⟨String.ofList rest, ?_⟩
    apply String.toList_injective
    rw [String.toList_append, String.toList_ofList, same]
  · rintro ⟨rest, named⟩
    refine ⟨rest.toList, ?_⟩
    rw [named, String.toList_append]

/-- A parameter is below one path at most. -/
theorem not_below_relays {parameter : Parameter} (below : Below front "upstreams" parameter) :
    ¬ Below front "relays" parameter := by
  intro other
  unfold Below pathOf at below other
  simp only [String.toList_append, List.append_assoc] at below other
  have apart : ¬ ("upstreams".toList ++ "/".toList <+: "relays".toList ++ "/".toList) ∧
      ¬ ("relays".toList ++ "/".toList <+: "upstreams".toList ++ "/".toList) := by decide
  rcases List.prefix_or_prefix_of_prefix below other with first | second
  · exact apart.1 ((List.prefix_append_right_inj _).mp first)
  · exact apart.2 ((List.prefix_append_right_inj _).mp second)

/-- The documents are those of the parameters below the two paths. -/
structure Documents (world : World B) (front : String) (parameters : List Parameter)
    (documents : List (ResourceDocument B)) : Prop where
  document : ∀ p ∈ parameters, Below front "upstreams" p ∨ Below front "relays" p →
    ∃ document ∈ documents, parameterDocument world front p = .ok document
  parameter : ∀ document ∈ documents, ∃ p ∈ parameters,
    parameterDocument world front p = .ok document
  distinct : (documents.map ResourceDocument.identity).Nodup

section Forall₂

variable {α β : Type} {r : α → β → Prop} {xs : List α} {ys : List β}

theorem exists_right (all : List.Forall₂ r xs ys) : ∀ x ∈ xs, ∃ y ∈ ys, r x y := by
  induction all with
  | nil => simp
  | cons related _ ih =>
      intro x member
      rcases List.mem_cons.mp member with rfl | member
      · exact ⟨_, List.mem_cons_self .., related⟩
      · obtain ⟨y, member, related⟩ := ih x member
        exact ⟨y, List.mem_cons_of_mem _ member, related⟩

theorem exists_left (all : List.Forall₂ r xs ys) : ∀ y ∈ ys, ∃ x ∈ xs, r x y := by
  intro y member
  obtain ⟨x, member, related⟩ := exists_right all.flip y member
  exact ⟨x, member, related⟩

end Forall₂

theorem mem_listed {listed : List Parameter}
    (perm : listed.Perm (parameters.filter (fun p => Below front "upstreams" p) ++
      parameters.filter (fun p => Below front "relays" p))) {p : Parameter} :
    p ∈ listed ↔ p ∈ parameters ∧ (Below front "upstreams" p ∨ Below front "relays" p) := by
  rw [perm.mem_iff, List.mem_append, List.mem_filter, List.mem_filter]
  simp only [decide_eq_true_eq, and_or_left]

/-- Listed parameters have different names. -/
theorem nodup_listed {listed : List Parameter} (names : (parameters.map Parameter.name).Nodup)
    (perm : listed.Perm (parameters.filter (fun p => Below front "upstreams" p) ++
      parameters.filter (fun p => Below front "relays" p))) :
    (listed.map Parameter.name).Nodup := by
  have split : (parameters.filter (fun p => Below front "relays" p)) =
      (parameters.filter (fun p => Below front "relays" p)).filter
        fun p => !decide (Below front "upstreams" p) := by
    symm
    apply List.filter_eq_self.mpr
    intro p member
    have below := of_decide_eq_true (List.mem_filter.mp member).2
    have other : ¬ Below front "upstreams" p := fun other => not_below_relays other below
    simp [other]
  rw [(perm.map Parameter.name).nodup_iff, List.map_append]
  refine List.Nodup.append (names.sublist (List.filter_sublist.map _))
    (names.sublist (List.filter_sublist.map _)) ?_
  intro name here there
  obtain ⟨p, member, rfl⟩ := List.mem_map.mp here
  obtain ⟨q, member', same⟩ := List.mem_map.mp there
  obtain ⟨inside, below⟩ := List.mem_filter.mp member
  obtain ⟨inside', below'⟩ := List.mem_filter.mp member'
  obtain rfl := List.inj_on_of_nodup_map names inside' inside same
  exact not_below_relays (of_decide_eq_true below) (of_decide_eq_true below')

theorem placeOf_congr {a b : ResourceDocument B} (same : a.identity = b.identity) :
    placeOf front a = placeOf front b := by
  obtain ⟨kind, name⟩ := Prod.mk.inj same
  have plural : pluralOf a = pluralOf b := by
    rw [← kindOf_eq_kind, ← kind]
    exact kindOf_eq_kind.mpr rfl
  rw [placeOf_eq, placeOf_eq, plural, name]

theorem documents_of_listed {listed : List Parameter}
    (names : (parameters.map Parameter.name).Nodup)
    (perm : listed.Perm (parameters.filter (fun p => Below front "upstreams" p) ++
      parameters.filter (fun p => Below front "relays" p)))
    {documents : List (ResourceDocument B)}
    (all : List.Forall₂ (fun p document => parameterDocument world front p = .ok document) listed
      documents) : Documents world front parameters documents where
  document p inside below := exists_right all p ((mem_listed perm).mpr ⟨inside, below⟩)
  parameter document member := by
    obtain ⟨p, inside, read⟩ := exists_left all document member
    exact ⟨p, ((mem_listed perm).mp inside).1, read⟩
  distinct := by
    have places : documents.map (placeOf front) = listed.map Parameter.name := by
      clear perm
      induction all with
      | nil => rfl
      | cons read _ ih =>
          rw [List.map_cons, List.map_cons, ih, (parameterDocument_eq_ok.mp read).2.2.1]
    have nodup := nodup_listed names perm
    rw [← places] at nodup
    unfold List.Nodup at nodup ⊢
    rw [List.pairwise_map] at nodup ⊢
    exact nodup.imp fun apart same => apart (placeOf_congr same)

/-! ## The tree and the snapshot -/

variable {secret : SecretValue → Except Error String} {documents : List (ResourceDocument B)}
  {snapshot : ProviderSnapshot R}

theorem mem_upstreamsOf {resource : UpstreamResource} :
    resource ∈ upstreamsOf documents ↔ .upstream resource ∈ documents := by
  simp only [upstreamsOf, List.mem_filterMap]
  constructor
  · rintro ⟨document, member, found⟩
    cases document with
    | upstream => cases found; exact member
    | relay => cases found
  · intro member
    exact ⟨_, member, rfl⟩

theorem mem_relaysOf {resource : RelayResource B} :
    resource ∈ relaysOf documents ↔ .relay resource ∈ documents := by
  simp only [relaysOf, List.mem_filterMap]
  constructor
  · rintro ⟨document, member, found⟩
    cases document with
    | upstream => cases found
    | relay => cases found; exact member
  · intro member
    exact ⟨_, member, rfl⟩

/-- A parameter below a path has a document of this kind. -/
theorem Documents.upstream_of_below (read : Documents world front parameters documents)
    {p : Parameter} (inside : p ∈ parameters) (below : Below front "upstreams" p) :
    ∃ resource ∈ upstreamsOf documents,
      parameterDocument world front p = .ok (.upstream resource) := by
  obtain ⟨document, member, found⟩ := read.document p inside (.inl below)
  cases document with
  | upstream resource => exact ⟨resource, mem_upstreamsOf.mpr member, found⟩
  | relay resource =>
      have placed := (parameterDocument_eq_ok.mp found).2.2.1
      exact absurd (below_iff.mpr ⟨_, placed⟩) (not_below_relays below)

theorem Documents.relay_of_below (read : Documents world front parameters documents)
    {p : Parameter} (inside : p ∈ parameters) (below : Below front "relays" p) :
    ∃ resource ∈ relaysOf documents,
      parameterDocument world front p = .ok (.relay resource) := by
  obtain ⟨document, member, found⟩ := read.document p inside (.inr below)
  cases document with
  | upstream resource =>
      have placed := (parameterDocument_eq_ok.mp found).2.2.1
      exact absurd below (not_below_relays (below_iff.mpr ⟨_, placed⟩))
  | relay resource => exact ⟨resource, mem_relaysOf.mpr member, found⟩

/-- What a document compiles to has the name of its parameter. -/
theorem name_of_upstream {p : Parameter} {resource : UpstreamResource} {key : ResourceKey}
    {upstream : Upstream} (found : parameterDocument world front p = .ok (.upstream resource))
    (compiled : compileUpstream secret R resource = .ok (key, upstream)) :
    p.name = pathOf front "upstreams" ++ key.value := by
  rw [(parameterDocument_eq_ok.mp found).2.2.1, keyed_compileUpstream _ _ _ compiled]
  rfl

theorem name_of_relay {p : Parameter} {resource : RelayResource B} {key : ResourceKey}
    {relay : Relay R} (found : parameterDocument world front p = .ok (.relay resource))
    (compiled : compileRelay secret resource = .ok (key, relay)) :
    p.name = pathOf front "relays" ++ key.value := by
  rw [(parameterDocument_eq_ok.mp found).2.2.1, keyed_compileRelay _ _ _ compiled]
  rfl

/-- A resource of the documents is one of a parameter in its place. -/
theorem upstream_iff (read : Documents world front parameters documents) {key : ResourceKey}
    {upstream : Upstream} :
    (∃ resource ∈ upstreamsOf documents,
        compileUpstream secret R resource = .ok (key, upstream)) ↔
      ∃ p ∈ parameters, p.name = pathOf front "upstreams" ++ key.value ∧
        ∃ resource, world.parseDocument p.value = .ok (.upstream resource) ∧
          compileUpstream secret R resource = .ok (key, upstream) := by
  constructor
  · rintro ⟨resource, member, compiled⟩
    obtain ⟨p, inside, found⟩ := read.parameter _ (mem_upstreamsOf.mp member)
    exact ⟨p, inside, name_of_upstream found compiled, resource,
      (parameterDocument_eq_ok.mp found).2.1, compiled⟩
  · rintro ⟨p, inside, named, resource, parsed, compiled⟩
    obtain ⟨resource', member, found⟩ := read.upstream_of_below inside (below_iff.mpr ⟨_, named⟩)
    have same := (parameterDocument_eq_ok.mp found).2.1
    rw [parsed] at same
    cases same
    exact ⟨resource, member, compiled⟩

theorem relay_iff (read : Documents world front parameters documents) {key : ResourceKey}
    {relay : Relay R} :
    (∃ resource ∈ relaysOf documents, compileRelay secret resource = .ok (key, relay)) ↔
      ∃ p ∈ parameters, p.name = pathOf front "relays" ++ key.value ∧
        ∃ resource, world.parseDocument p.value = .ok (.relay resource) ∧
          compileRelay secret resource = .ok (key, relay) := by
  constructor
  · rintro ⟨resource, member, compiled⟩
    obtain ⟨p, inside, found⟩ := read.parameter _ (mem_relaysOf.mp member)
    exact ⟨p, inside, name_of_relay found compiled, resource,
      (parameterDocument_eq_ok.mp found).2.1, compiled⟩
  · rintro ⟨p, inside, named, resource, parsed, compiled⟩
    obtain ⟨resource', member, found⟩ := read.relay_of_below inside (below_iff.mpr ⟨_, named⟩)
    have same := (parameterDocument_eq_ok.mp found).2.1
    rw [parsed] at same
    cases same
    exact ⟨resource, member, compiled⟩

/-- **What the documents are read as mirrors the tree.** -/
theorem mirrors_of_reads (read : Documents world front parameters documents)
    (reads : Reads secret documents snapshot) :
    Mirrors world front parameters secret snapshot where
  documents p inside below := by
    obtain ⟨document, _, found⟩ := read.document p inside below
    obtain ⟨plain, parsed, placed, _⟩ := parameterDocument_eq_ok.mp found
    exact ⟨plain, document, parsed, placed⟩
  upstreams p inside below := by
    obtain ⟨resource, member, found⟩ := read.upstream_of_below inside below
    obtain ⟨⟨key, upstream⟩, compiled⟩ := reads.upstreams resource member
    refine ⟨key, name_of_upstream found compiled, ?_⟩
    rw [(reads.upstream key upstream).mpr ⟨resource, member, compiled⟩]
    rfl
  relays p inside below := by
    obtain ⟨resource, member, found⟩ := read.relay_of_below inside below
    obtain ⟨⟨key, relay⟩, compiled⟩ := reads.relays resource member
    refine ⟨key, name_of_relay found compiled, ?_⟩
    rw [(reads.relay key relay).mpr ⟨resource, member, compiled⟩]
    rfl
  upstream key upstream := (reads.upstream key upstream).trans (upstream_iff read)
  relay key relay := (reads.relay key relay).trans (relay_iff read)
  valid := reads.valid

theorem plain_of_resourceKey {kind value : String} {key : ResourceKey}
    (made : resourceKey kind value = .ok key) : value ≠ "" ∧ '/' ∉ value.toList := by
  have same := resourceKey_value made
  constructor
  · rintro rfl
    have valid := key.valid
    rw [same] at valid
    revert valid
    decide
  · intro slash
    unfold resourceKey at made
    rw [if_pos (List.contains_iff_mem.mpr slash)] at made
    cases made

section Mirror

variable (names : (parameters.map Parameter.name).Nodup)
  (mirrors : Mirrors world front parameters secret snapshot)
include names mirrors

/-- A parameter of a mirrored tree has a document that compiles. -/
theorem exists_upstream_of_below {p : Parameter} (inside : p ∈ parameters)
    (below : Below front "upstreams" p) : ∃ resource pair,
      parameterDocument world front p = .ok (.upstream resource) ∧
        compileUpstream secret R resource = .ok pair := by
  obtain ⟨plain, _⟩ := mirrors.documents p inside (.inl below)
  obtain ⟨key, named, present⟩ := mirrors.upstreams p inside below
  obtain ⟨upstream, found⟩ := Option.isSome_iff_exists.mp present
  obtain ⟨q, inside', named', resource, parsed, compiled⟩ :=
    (mirrors.upstream key upstream).mp found
  obtain rfl := List.inj_on_of_nodup_map names inside' inside (named'.trans named.symm)
  obtain ⟨nonempty, slashless⟩ := plain_of_resourceKey (compileUpstream_eq_ok.mp compiled).1
  refine ⟨resource, _, parameterDocument_eq_ok.mpr ⟨plain, parsed, ?_, nonempty, slashless⟩,
    compiled⟩
  rw [named, keyed_compileUpstream _ _ _ compiled]
  rfl

theorem exists_relay_of_below {p : Parameter} (inside : p ∈ parameters)
    (below : Below front "relays" p) : ∃ resource pair,
      parameterDocument world front p = .ok (.relay resource) ∧
        compileRelay secret resource = .ok pair := by
  obtain ⟨plain, _⟩ := mirrors.documents p inside (.inr below)
  obtain ⟨key, named, present⟩ := mirrors.relays p inside below
  obtain ⟨relay, found⟩ := Option.isSome_iff_exists.mp present
  obtain ⟨q, inside', named', resource, parsed, compiled⟩ := (mirrors.relay key relay).mp found
  obtain rfl := List.inj_on_of_nodup_map names inside' inside (named'.trans named.symm)
  obtain ⟨nonempty, slashless⟩ := plain_of_resourceKey (compileRelay_eq_ok.mp compiled).1
  refine ⟨resource, _, parameterDocument_eq_ok.mpr ⟨plain, parsed, ?_, nonempty, slashless⟩,
    compiled⟩
  rw [named, keyed_compileRelay _ _ _ compiled]
  rfl

/-- **A mirrored tree can be read.** -/
theorem exists_documents {listed : List Parameter}
    (below : ∀ p ∈ listed, p ∈ parameters ∧ (Below front "upstreams" p ∨ Below front "relays" p)) :
    ∃ documents : List (ResourceDocument B),
      listed.mapM (parameterDocument world front) = .ok documents := by
  induction listed with
  | nil => exact ⟨[], rfl⟩
  | cons p listed ih =>
      obtain ⟨documents, read⟩ := ih fun q member => below q (List.mem_cons_of_mem _ member)
      have first : ∃ document, parameterDocument world front p = .ok document := by
        obtain ⟨inside, upstream | relay⟩ := below p (List.mem_cons_self ..)
        · obtain ⟨resource, _, found, _⟩ := exists_upstream_of_below names mirrors inside upstream
          exact ⟨_, found⟩
        · obtain ⟨resource, _, found, _⟩ := exists_relay_of_below names mirrors inside relay
          exact ⟨_, found⟩
      obtain ⟨document, found⟩ := first
      exact ⟨document :: documents, mapM_eq_ok.mpr (.cons found (mapM_eq_ok.mp read))⟩

/-- **What mirrors the tree is what the documents are read as.** -/
theorem reads_of_mirrors (read : Documents world front parameters documents) :
    Reads secret documents snapshot where
  distinct := read.distinct
  upstreams resource member := by
    obtain ⟨p, inside, found⟩ := read.parameter _ (mem_upstreamsOf.mp member)
    have below := below_iff.mpr ⟨_, (parameterDocument_eq_ok.mp found).2.2.1⟩
    obtain ⟨resource', pair, found', compiled⟩ :=
      exists_upstream_of_below names mirrors inside below
    rw [found] at found'
    cases found'
    exact ⟨pair, compiled⟩
  relays resource member := by
    obtain ⟨p, inside, found⟩ := read.parameter _ (mem_relaysOf.mp member)
    have below := below_iff.mpr ⟨_, (parameterDocument_eq_ok.mp found).2.2.1⟩
    obtain ⟨resource', pair, found', compiled⟩ := exists_relay_of_below names mirrors inside below
    rw [found] at found'
    cases found'
    exact ⟨pair, compiled⟩
  upstream key upstream := (mirrors.upstream key upstream).trans (upstream_iff read).symm
  relay key relay := (mirrors.relay key relay).trans (relay_iff read).symm
  valid := mirrors.valid

end Mirror

/-! ## Loads -/

/-- What a compilation knows of its sources, the resolver has said. -/
theorem from_compileResources {resolver : Resolver} (constant : resolver.resolveSource.Constant)
    {result : Except Error (ProviderSnapshot R)} {table : Table SecretSource String}
    (done : compileResources resolver documents = (result, table)) :
    table.From resolver.resolveSource := by
  have told := (compileWith_of_simulation (Memo.same resolver.resolveSource)
    (resolveSecret_of_simulation (Memo.same resolver.resolveSource)
      (Memo.same_askOnce constant) resolver.resolveValue) documents ⟨[], []⟩
    (Table.from_empty resolver.resolveSource)).2
  unfold compileResources at done
  rw [done] at told
  exact told

/-- A secret parameter that was read is one of the secure type. -/
theorem secure_of_resolved
    (gets : ∀ asked name, world.getParameter asked name =
      .ok (parameters.find? fun p => p.name = name)) {name value : String}
    (resolved : (resolver world).resolveSource [] (.awsSsmParameter name) = .ok value) :
    ∃ p ∈ parameters, p.name = name ∧ p.parameterType = .secureString ∧ p.value = value := by
  simp only [resolver, standardSource, awsSource, gets] at resolved
  split at resolved
  · cases resolved
  · cases found : parameters.find? fun p => p.name = name with
    | none =>
        rw [found] at resolved
        cases resolved
    | some p =>
        rw [found] at resolved
        simp only at resolved
        split at resolved
        · cases resolved
        · rename_i secure
          cases resolved
          exact ⟨p, List.mem_of_find?_eq_some found,
            by simpa using List.find?_some found, not_not.mp secure, rfl⟩

/-- **A load mirrors the parameter tree, whatever the pages are.** -/
theorem parameters_mirrored (names : (parameters.map Parameter.name).Nodup)
    (serves : Serves world front parameters count)
    (gets : ∀ asked name, world.getParameter asked name =
      .ok (parameters.find? fun p => p.name = name))
    (constant : (resolver world).resolveSource.Constant) (enough : count ≤ fuel) :
    MirrorsTree world front parameters fuel := by
  obtain ⟨listed, perm, loads⟩ := load_of_serves serves enough
  have sound : ∀ snapshot table, load world front fuel = some (.ok snapshot, table) →
      Mirrors world front parameters (secretOf world) snapshot ∧
        table.From (resolver world).resolveSource := by
    intro snapshot table loaded
    cases read : listed.mapM (parameterDocument world front) with
    | error error =>
        rw [read] at loads
        rw [loads] at loaded
        cases loaded
    | ok documents =>
        rw [read] at loads
        have done := Option.some.inj (loads.symm.trans loaded)
        have compiled : (compileResources (resolver world) documents).1 = _ :=
          compileResources_eq constant
        rw [done] at compiled
        exact ⟨mirrors_of_reads (documents_of_listed names perm (mapM_eq_ok.mp read))
          (reads_of_compileWith compiled.symm).1, from_compileResources constant done⟩
  refine ⟨?_, fun snapshot table loaded => (sound snapshot table loaded).1, ?_, ?_⟩
  · cases read : listed.mapM (parameterDocument world front) with
    | error error =>
        rw [read] at loads
        exact ⟨_, loads⟩
    | ok documents =>
        rw [read] at loads
        exact ⟨_, loads⟩
  · intro snapshot mirrors
    obtain ⟨documents, read⟩ := exists_documents names mirrors
      fun p member => (mem_listed perm).mp member
    rw [read] at loads
    have reads := reads_of_mirrors names mirrors
      (documents_of_listed names perm (mapM_eq_ok.mp read))
    obtain ⟨snapshot', compiled, same⟩ := exists_compileWith reads
    have whole : (compileResources (resolver world) documents).1 = .ok snapshot' :=
      (compileResources_eq constant).trans compiled
    refine ⟨snapshot', (compileResources (resolver world) documents).2, loads.trans ?_, same⟩
    rw [← whole]
  · intro snapshot table name value loaded known
    obtain ⟨mirrors, told⟩ := sound snapshot table loaded
    obtain ⟨p, inside, named, secure, valued⟩ := secure_of_resolved gets (told _ _ known)
    refine ⟨p, inside, named, secure, valued, fun below => ?_, fun below => ?_⟩
    · have plain := (mirrors.documents p inside (.inl below)).1
      rw [secure] at plain
      cases plain
    · have plain := (mirrors.documents p inside (.inr below)).1
      rw [secure] at plain
      cases plain

/-! ## A tree -/

/-- A relay, its upstream and the secret of both. -/
def sampleParameters : List Parameter :=
  [⟨"/oauthrelay/relays/app", "app", .string⟩, ⟨"/oauthrelay/upstreams/login", "login", .string⟩,
    ⟨"/secrets/login", "hidden", .secureString⟩]

def sampleDocument : String → Except Error (ResourceDocument plainReaders)
  | "app" => .ok (.relay ⟨⟨none, "app"⟩, "login", ⟨["openid"], none⟩, [], none,
      ⟨.passthrough, none, none⟩,
      .clientSecret "id" (.valueFrom (.awsSsmParameter "/secrets/login")),
      [.uri "https://app.example/callback"]⟩)
  | "login" => .ok (.upstream ⟨⟨none, "login"⟩, "issuer.example", ⟨none, none, none⟩,
      ⟨"id", .valueFrom (.awsSsmParameter "/secrets/login"), .clientSecretPost⟩⟩)
  | text => .error [text]

/-- The relays are listed on two pages. -/
def sampleWorld : World plainReaders where
  getParametersByPath _ path token :=
    if path = "/oauthrelay/upstreams/" then
      .ok ⟨[⟨"/oauthrelay/upstreams/login", "login", .string⟩], none⟩
    else if token = none then .ok ⟨[], some "next"⟩
    else .ok ⟨[⟨"/oauthrelay/relays/app", "app", .string⟩], none⟩
  getParameter _ name := .ok (sampleParameters.find? fun p => p.name = name)
  getSecretString _ secretId := .error [secretId]
  environment _ name := .error [name]
  file _ path := .error [path]
  parseDocument := sampleDocument
  parseJson text := .error [text]

theorem serves_sampleWorld : Serves sampleWorld "/oauthrelay/" sampleParameters 2 :=
  ⟨_, _, _, _, .last rfl, .more rfl (.last rfl), by decide, by decide, by decide +kernel,
    by decide +kernel⟩

/-- The documents and the secret are told apart. -/
theorem parameters_mirrored_of_sample :
    (load sampleWorld "/oauthrelay/" 2).map (fun result => result.1.toOption.map summary) =
      some (some [("login", "hidden"), ("app", "hidden")]) ∧
    MirrorsTree sampleWorld "/oauthrelay/" sampleParameters 2 := by
  refine ⟨by decide +kernel, parameters_mirrored (by decide +kernel) serves_sampleWorld
    (fun _ _ => rfl) ?_ (Nat.le_refl 2)⟩
  intro asked source
  cases source <;> rfl

end OAuthRelay.Config.Parameters
