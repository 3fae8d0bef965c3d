import OAuthRelay.Config.Documents

/-!
# What a compilation depends on

A compilation resolves every external source once, so all the documents that use a source get
the same value. It succeeds when no two documents have one kind and name, every document
compiles by itself, and the snapshot as a whole is valid. None of that depends on the order of
the documents, as long as the answers of the resolver do not, and the snapshot is the map of
what the documents compile to (`compile_exact`).
-/

set_option autoImplicit false

namespace OAuthRelay.Config

open OAuthRelay.Codes (ResourceKey)
open Memo (lift Asks Table Oracle Simulation Told)

variable {R : Rules} {B : Readers R}

/-! ## Resolvers -/

/-- A secret resolver. What it answers for a source may depend on what it was asked before. -/
structure Resolver where
  resolveValue : String → Except Error String
  resolveSource : Oracle SecretSource String Error

/-- `compile_resources`, with the sources that were resolved. -/
def compileResources (resolver : Resolver) (documents : List (ResourceDocument B)) :
    Except Error (ProviderSnapshot R) × Table SecretSource String :=
  Asks.run (compileWith
    (resolveSecret resolver.resolveValue (Memo.askOnce resolver.resolveSource)) documents) ⟨[], []⟩

/-! ## What is claimed -/

/-- The same maps. -/
def ProviderSnapshot.Same (a b : ProviderSnapshot R) : Prop :=
  (∀ key, a.upstreams.lookup key = b.upstreams.lookup key) ∧
    ∀ key, a.relays.lookup key = b.relays.lookup key

theorem ProviderSnapshot.Same.validate {a b : ProviderSnapshot R} (same : a.Same b)
    (valid : a.validate = .ok ()) : b.validate = .ok () := by
  rw [validate_eq_ok] at valid ⊢
  simpa only [same.1, same.2] using valid

namespace ResourceDocument

def upstream? : ResourceDocument B → Option UpstreamResource
  | upstream resource => some resource
  | relay _ => none

def relay? : ResourceDocument B → Option (RelayResource B)
  | upstream _ => none
  | relay resource => some resource

end ResourceDocument

/-- The secret of a client that has one. -/
def ClientAuthentication.secret? : ClientAuthentication B → Option SecretValue
  | clientSecret _ secret => some secret
  | _ => none

def upstreamsOf (documents : List (ResourceDocument B)) : List UpstreamResource :=
  documents.filterMap ResourceDocument.upstream?

def relaysOf (documents : List (ResourceDocument B)) : List (RelayResource B) :=
  documents.filterMap ResourceDocument.relay?

/-- What a compilation has made of its documents, with the values that sources were resolved
to. -/
structure Compiled (documents : List (ResourceDocument B)) (snapshot : ProviderSnapshot R)
    (value : SecretSource → Option String) : Prop where
  valid : snapshot.validate = .ok ()
  /-- There is one entry for every document, under its kind and name. -/
  upstreams : (snapshot.upstreams.keys.map ResourceKey.value).Perm
    ((upstreamsOf documents).map fun resource => resource.metadata.name)
  relays : (snapshot.relays.keys.map ResourceKey.value).Perm
    ((relaysOf documents).map fun resource => resource.metadata.name)
  /-- The upstream of a relay is an entry. -/
  referenced : ∀ key relay, snapshot.relays.lookup key = some relay →
    ∃ upstream, snapshot.upstreams.lookup relay.upstream = some upstream
  /-- Whoever uses a source has its one value. -/
  upstreamSecret : ∀ resource ∈ upstreamsOf documents, ∀ source,
    resource.spec.oauthClient.clientSecret = .valueFrom source →
      ∃ key upstream, key.value = resource.metadata.name ∧
        snapshot.upstreams.lookup key = some upstream ∧ value source = some upstream.clientSecret
  relaySecret : ∀ resource ∈ relaysOf documents, ∀ clientId source,
    resource.spec.clientAuthentication = .clientSecret clientId (.valueFrom source) →
      ∃ key relay secret, key.value = resource.metadata.name ∧
        snapshot.relays.lookup key = some relay ∧
        relay.clientAuth = .clientSecret clientId secret ∧ value source = some secret

/-- A compilation is all or nothing, asks once, and does not depend on the order. -/
structure CompileExact (B : Readers R) (resolver : Resolver) : Prop where
  sound : ∀ (documents : List (ResourceDocument B)) snapshot table,
    compileResources resolver documents = (.ok snapshot, table) →
      Compiled documents snapshot fun source => table.answers.lookup source
  /-- No source is resolved twice, whether the compilation succeeds or not. -/
  once : ∀ documents : List (ResourceDocument B), (compileResources resolver documents).2.asked.Nodup
  orderFree : resolver.resolveSource.Constant → ∀ documents documents' : List (ResourceDocument B),
    documents.Perm documents' → ∀ snapshot,
      (compileResources resolver documents).1 = .ok snapshot →
        ∃ snapshot', (compileResources resolver documents').1 = .ok snapshot' ∧
          snapshot.Same snapshot'

/-! ## One program, two readings -/

section Simulations

variable {Rel : ∀ {α : Type}, Asks SecretSource String Error α → Except Error α → Prop}

theorem resolveSecret_of_simulation (simulation : Simulation Rel)
    {ask : SecretSource → Asks SecretSource String Error String}
    {answer : SecretSource → Except Error String}
    (asks : ∀ source, Rel (ask source) (answer source)) (value : String → Except Error String)
    (secret : SecretValue) :
    Rel (resolveSecret value ask secret) (resolveSecret value answer secret) := by
  cases secret with
  | value text => exact simulation.lift _
  | valueFrom source => exact asks source

variable {ask : SecretValue → Asks SecretSource String Error String}
  {answer : SecretValue → Except Error String}

theorem compileUpstream_of_simulation (simulation : Simulation Rel)
    (asks : ∀ secret, Rel (ask secret) (answer secret)) (resource : UpstreamResource) :
    Rel (compileUpstream ask R resource) (compileUpstream answer R resource) :=
  simulation.bind (simulation.lift _) fun _ =>
    simulation.bind (simulation.mapError _ (asks _)) fun _ =>
      simulation.bind (simulation.lift _) fun _ => simulation.lift (.ok _)

theorem compileClientAuth_of_simulation (simulation : Simulation Rel)
    (asks : ∀ secret, Rel (ask secret) (answer secret)) (key : ResourceKey)
    (authentication : ClientAuthentication B) :
    Rel (compileClientAuth ask key authentication) (compileClientAuth answer key authentication) := by
  cases authentication with
  | upstreamClient | isPublic => exact simulation.lift (.ok _)
  | clientSecret clientId clientSecret =>
      exact simulation.bind (simulation.mapError _ (asks _)) fun _ => simulation.lift (.ok _)
  | privateKeyJwt requireSingleUse clientId issuer subject audience jwks jwksUrl =>
      exact simulation.bind (simulation.lift _) fun _ => simulation.lift (.ok _)

theorem compileRelay_of_simulation (simulation : Simulation Rel)
    (asks : ∀ secret, Rel (ask secret) (answer secret)) (resource : RelayResource B) :
    Rel (compileRelay ask resource) (compileRelay answer resource) :=
  simulation.bind (simulation.lift _) fun _ => simulation.bind (simulation.lift _) fun _ =>
    simulation.bind (compileClientAuth_of_simulation simulation asks _ _) fun _ =>
      simulation.bind (simulation.lift _) fun _ => simulation.lift (.ok _)

theorem compileInto_of_simulation (simulation : Simulation Rel) {α β : Type}
    {compile : α → Asks SecretSource String Error (ResourceKey × β)}
    {compile' : α → Except Error (ResourceKey × β)}
    (same : ∀ resource, Rel (compile resource) (compile' resource)) (resources : ResourceMap β)
    (rest : List α) :
    Rel (compileInto compile resources rest) (compileInto compile' resources rest) := by
  induction rest generalizing resources with
  | nil => exact simulation.lift (.ok _)
  | cons resource rest ih => exact simulation.bind (same resource) fun _ => ih _

/-- **Every relation that programs keep, compilations keep.** -/
theorem compileWith_of_simulation (simulation : Simulation Rel)
    (asks : ∀ secret, Rel (ask secret) (answer secret)) (documents : List (ResourceDocument B)) :
    Rel (compileWith ask documents) (compileWith answer documents) :=
  simulation.bind (simulation.lift _) fun _ =>
    simulation.bind (compileInto_of_simulation simulation
      (compileUpstream_of_simulation simulation asks) _ _) fun _ =>
      simulation.bind (compileInto_of_simulation simulation
        (compileRelay_of_simulation simulation asks) _ _) fun _ =>
        simulation.bind (simulation.lift _) fun _ => simulation.lift (.ok _)

end Simulations

/-! ## What a compilation makes of its documents -/

def ResourceDocument.identity (document : ResourceDocument B) : String × String :=
  (document.kind, document.name)

theorem separate_cons {identities : List (String × String)} {document : ResourceDocument B}
    {rest : List (ResourceDocument B)} (fresh : document.identity ∉ identities) :
    separate identities (document :: rest) =
      separate (document.identity :: identities) rest >>= fun documents =>
        .ok (document.upstream?.toList ++ documents.1, document.relay?.toList ++ documents.2) := by
  unfold ResourceDocument.identity at fresh ⊢
  rw [separate, if_neg fresh]
  cases document <;> rfl

theorem separate_eq_ok {identities : List (String × String)}
    {documents : List (ResourceDocument B)}
    {separated : List UpstreamResource × List (RelayResource B)} :
    separate identities documents = .ok separated ↔
      (∀ document ∈ documents, document.identity ∉ identities) ∧
      (documents.map ResourceDocument.identity).Nodup ∧
      separated = (upstreamsOf documents, relaysOf documents) := by
  induction documents generalizing identities separated with
  | nil => simp [separate, upstreamsOf, relaysOf, eq_comm]
  | cons document rest ih =>
      by_cases duplicate : document.identity ∈ identities
      · have refused : ¬ ((∀ other ∈ document :: rest, other.identity ∉ identities) ∧
            ((document :: rest).map ResourceDocument.identity).Nodup ∧
            separated = (upstreamsOf (document :: rest), relaysOf (document :: rest))) :=
          fun all => all.1 document List.mem_cons_self duplicate
        rw [iff_false_right refused, separate]
        unfold ResourceDocument.identity at duplicate
        simp [duplicate, throw, throwThe, MonadExceptOf.throw, bind, Except.bind]
      · rw [separate_cons duplicate, Memo.bind_eq_ok]
        simp only [ih, List.mem_cons, not_or, List.map_cons, List.nodup_cons, List.mem_map,
          Except.ok.injEq]
        constructor
        · rintro ⟨_, ⟨others, distinct, rfl⟩, rfl⟩
          refine ⟨?_, ⟨?_, distinct⟩, ?_⟩
          · rintro other (rfl | member)
            · exact duplicate
            · exact (others other member).2
          · rintro ⟨other, member, same⟩
            exact (others other member).1 same
          · cases document <;> rfl
        · rintro ⟨others, ⟨new, distinct⟩, rfl⟩
          refine ⟨_, ⟨fun other member => ⟨fun same => new ⟨other, member, same⟩,
            others other (.inr member)⟩, distinct, rfl⟩, ?_⟩
          cases document <;> rfl

theorem value_injective : Function.Injective ResourceKey.value := by
  intro a b same
  have opened := ResourceKey.new_value a
  rw [same, ResourceKey.new_value b] at opened
  exact (Option.some.inj opened).symm

section Into

variable {α β : Type} {compile : α → Except Error (ResourceKey × β)} {name : α → String}

/-- Every resource is compiled under its own name. -/
def Keyed (compile : α → Except Error (ResourceKey × β)) (name : α → String) : Prop :=
  ∀ resource key value, compile resource = .ok (key, value) → key.value = name resource

theorem compileInto_eq_ok {resources result : ResourceMap β} {xs : List α} :
    compileInto compile resources xs = .ok result ↔
      ∃ pairs, List.Forall₂ (fun x pair => compile x = .ok pair) xs pairs ∧
        result = pairs.foldl (fun map pair => map.insert pair.1 pair.2) resources := by
  induction xs generalizing resources with
  | nil =>
      simp only [compileInto, List.forall₂_nil_left_iff, exists_eq_left, List.foldl_nil]
      exact ⟨fun same => (Except.ok.inj same).symm, fun same => congrArg _ same.symm⟩
  | cons x xs ih =>
      simp only [compileInto, Memo.bind_eq_ok, ih, List.forall₂_cons_left_iff]
      constructor
      · rintro ⟨pair, first, pairs, others, rfl⟩
        exact ⟨pair :: pairs, ⟨pair, pairs, first, others, rfl⟩, rfl⟩
      · rintro ⟨_, ⟨pair, pairs, first, others, rfl⟩, rfl⟩
        exact ⟨pair, first, pairs, others, rfl⟩

/-- All resources compile, or the map is not made. -/
theorem exists_compileInto {resources : ResourceMap β} {xs : List α} :
    (∃ result, compileInto compile resources xs = .ok result) ↔
      ∀ x ∈ xs, ∃ pair, compile x = .ok pair := by
  induction xs generalizing resources with
  | nil => simp [compileInto, pure, Except.pure]
  | cons x xs ih =>
      simp only [compileInto, Memo.bind_eq_ok, List.forall_mem_cons]
      constructor
      · rintro ⟨result, pair, first, others⟩
        exact ⟨⟨pair, first⟩, ih.mp ⟨result, others⟩⟩
      · rintro ⟨⟨pair, first⟩, others⟩
        obtain ⟨result, done⟩ := ih.mpr others
        exact ⟨result, pair, first, done⟩

/-- What a map holds after distinct keys were inserted. -/
theorem lookup_foldl_insert {pairs : List (ResourceKey × β)} {resources : ResourceMap β}
    (distinct : (pairs.map Prod.fst).Nodup) {key : ResourceKey} {value : β} :
    (pairs.foldl (fun map pair => map.insert pair.1 pair.2) resources).lookup key = some value ↔
      (key, value) ∈ pairs ∨ resources.lookup key = some value ∧ key ∉ pairs.map Prod.fst := by
  induction pairs generalizing resources with
  | nil => simp
  | cons pair pairs ih =>
      obtain ⟨first, own⟩ := pair
      obtain ⟨new, distinct⟩ := List.nodup_cons.mp distinct
      rw [List.foldl_cons, ih distinct]
      by_cases same : key = first
      · subst same
        have absent : (key, value) ∉ pairs :=
          fun member => new (List.mem_map.mpr ⟨_, member, rfl⟩)
        simp [AList.lookup_insert, new, absent, eq_comm]
      · simp [AList.lookup_insert_ne same, same]

theorem map_name_of_keyed (keyed : Keyed compile name) {xs : List α}
    {pairs : List (ResourceKey × β)}
    (all : List.Forall₂ (fun x pair => compile x = .ok pair) xs pairs) :
    pairs.map (fun pair => pair.1.value) = xs.map name := by
  induction all with
  | nil => rfl
  | cons first _ ih =>
      rw [List.map_cons, List.map_cons, ih, keyed _ _ _ first]

theorem distinct_of_keyed (keyed : Keyed compile name) {xs : List α}
    (distinct : (xs.map name).Nodup) {pairs : List (ResourceKey × β)}
    (all : List.Forall₂ (fun x pair => compile x = .ok pair) xs pairs) :
    (pairs.map Prod.fst).Nodup := by
  rw [← map_name_of_keyed keyed all] at distinct
  refine List.Nodup.of_map ResourceKey.value ?_
  rw [List.map_map]
  exact distinct

/-- **Compiled resources are a map of what each compiles to.** -/
theorem lookup_compileInto (keyed : Keyed compile name) {xs : List α}
    (distinct : (xs.map name).Nodup) {result : ResourceMap β}
    (done : compileInto compile ∅ xs = .ok result) {key : ResourceKey} {value : β} :
    result.lookup key = some value ↔ ∃ x ∈ xs, compile x = .ok (key, value) := by
  obtain ⟨pairs, all, rfl⟩ := compileInto_eq_ok.mp done
  rw [lookup_foldl_insert (distinct_of_keyed keyed distinct all)]
  simp only [AList.lookup_empty, reduceCtorEq, false_and, or_false]
  clear done distinct
  induction all with
  | nil => simp
  | @cons x pair xs pairs first _ ih =>
      rw [List.mem_cons, ih, List.exists_mem_cons_iff, first, Except.ok.injEq, eq_comm]

/-- **There is one entry for each resource.** -/
theorem keys_compileInto (keyed : Keyed compile name) {xs : List α}
    (distinct : (xs.map name).Nodup) {result : ResourceMap β}
    (done : compileInto compile ∅ xs = .ok result) :
    (result.keys.map ResourceKey.value).Perm (xs.map name) := by
  refine (List.perm_ext_iff_of_nodup (result.keys_nodup.map value_injective) distinct).mpr
    fun text => ?_
  simp only [List.mem_map]
  constructor
  · rintro ⟨key, member, rfl⟩
    obtain ⟨value, found⟩ := Option.isSome_iff_exists.mp (AList.lookup_isSome.mpr member)
    obtain ⟨x, inside, compiles⟩ := (lookup_compileInto keyed distinct done).mp found
    exact ⟨x, inside, (keyed x key value compiles).symm⟩
  · rintro ⟨x, inside, rfl⟩
    obtain ⟨⟨key, value⟩, compiles⟩ := exists_compileInto.mp ⟨result, done⟩ x inside
    have found := (lookup_compileInto keyed distinct done).mpr ⟨x, inside, compiles⟩
    exact ⟨key, AList.lookup_isSome.mp (Option.isSome_iff_exists.mpr ⟨value, found⟩),
      keyed x key value compiles⟩

end Into

section Reading

variable {secret : SecretValue → Except Error String}

theorem resourceKey_value {kind value : String} {key : ResourceKey}
    (made : resourceKey kind value = .ok key) : key.value = value := by
  unfold resourceKey at made
  split at made
  · cases made
  · split at made
    · rename_i key' new
      cases made
      unfold ResourceKey.new at new
      split at new
      · cases new
        rfl
      · cases new
    · cases made

theorem compileUpstream_eq_ok {resource : UpstreamResource} {key : ResourceKey}
    {upstream : Upstream} :
    compileUpstream secret R resource = .ok (key, upstream) ↔
      resourceKey "Upstream" resource.metadata.name = .ok key ∧
        ∃ clientSecret, secret resource.spec.oauthClient.clientSecret = .ok clientSecret ∧
          buildUpstream R key clientSecret resource.spec = .ok upstream := by
  simp only [compileUpstream, Memo.bind_eq_ok, Memo.lift_except, Memo.mapError_eq_ok, pure,
    Except.pure, Except.ok.injEq, Prod.mk.injEq]
  constructor
  · rintro ⟨_, named, clientSecret, known, _, built, rfl, rfl⟩
    exact ⟨named, clientSecret, known, built⟩
  · rintro ⟨named, clientSecret, known, built⟩
    exact ⟨key, named, clientSecret, known, upstream, built, rfl, rfl⟩

theorem compileRelay_eq_ok {resource : RelayResource B} {key : ResourceKey} {relay : Relay R} :
    compileRelay secret resource = .ok (key, relay) ↔
      resourceKey "Relay" resource.metadata.name = .ok key ∧
        ∃ upstream, resourceKey "Upstream" resource.spec.upstreamRef = .ok upstream ∧
          ∃ clientAuth,
            compileClientAuth secret key resource.spec.clientAuthentication = .ok clientAuth ∧
              buildRelay key upstream clientAuth resource.spec = .ok relay := by
  simp only [compileRelay, Memo.bind_eq_ok, Memo.lift_except, pure, Except.pure, Except.ok.injEq,
    Prod.mk.injEq]
  constructor
  · rintro ⟨_, named, upstream, refers, clientAuth, known, _, built, rfl, rfl⟩
    exact ⟨named, upstream, refers, clientAuth, known, built⟩
  · rintro ⟨named, upstream, refers, clientAuth, known, built⟩
    exact ⟨key, named, upstream, refers, clientAuth, known, relay, built, rfl, rfl⟩

theorem keyed_compileUpstream :
    Keyed (compileUpstream secret R) fun resource => resource.metadata.name :=
  fun _ _ _ compiles => resourceKey_value (compileUpstream_eq_ok.mp compiles).1

theorem keyed_compileRelay :
    Keyed (compileRelay secret) fun resource : RelayResource B => resource.metadata.name :=
  fun _ _ _ compiles => resourceKey_value (compileRelay_eq_ok.mp compiles).1

/-- A built upstream has the secret that it was built with. -/
theorem clientSecret_of_buildUpstream {key : ResourceKey} {clientSecret : String}
    {spec : UpstreamResourceSpec} {upstream : Upstream}
    (built : buildUpstream R key clientSecret spec = .ok upstream) :
    upstream.clientSecret = clientSecret := by
  simp only [buildUpstream, Memo.bind_eq_ok, pure, Except.pure, Except.ok.injEq] at built
  obtain ⟨_, _, _, _, _, _, _, _, _, _, rfl⟩ := built
  rfl

theorem clientAuth_of_buildRelay {key upstream : ResourceKey} {clientAuth : ClientAuth}
    {spec : RelayResourceSpec B} {relay : Relay R}
    (built : buildRelay key upstream clientAuth spec = .ok relay) :
    relay.clientAuth = clientAuth := by
  simp only [buildRelay, Memo.bind_eq_ok, pure, Except.pure, Except.ok.injEq] at built
  obtain ⟨_, _, _, _, _, _, rfl⟩ := built
  rfl

/-- What the documents of a list compile to, as maps. -/
structure Reads (secret : SecretValue → Except Error String)
    (documents : List (ResourceDocument B)) (snapshot : ProviderSnapshot R) : Prop where
  distinct : (documents.map ResourceDocument.identity).Nodup
  upstreams : ∀ resource ∈ upstreamsOf documents,
    ∃ pair, compileUpstream secret R resource = .ok pair
  relays : ∀ resource ∈ relaysOf documents, ∃ pair, compileRelay secret resource = .ok pair
  upstream : ∀ key upstream, snapshot.upstreams.lookup key = some upstream ↔
    ∃ resource ∈ upstreamsOf documents, compileUpstream secret R resource = .ok (key, upstream)
  relay : ∀ key relay, snapshot.relays.lookup key = some relay ↔
    ∃ resource ∈ relaysOf documents, compileRelay secret resource = .ok (key, relay)
  valid : snapshot.validate = .ok ()

theorem identity_eq {kind : String} {a b : String × String} {name : String}
    (here : name ∈ if a.1 = kind then some a.2 else none)
    (there : name ∈ if b.1 = kind then some b.2 else none) : a = b := by
  obtain ⟨kindA, nameA⟩ := a
  obtain ⟨kindB, nameB⟩ := b
  by_cases same : kindA = kind
  · by_cases same' : kindB = kind
    · simp_all
    · simp [same'] at there
  · simp [same] at here

theorem distinct_upstreams {documents : List (ResourceDocument B)}
    (distinct : (documents.map ResourceDocument.identity).Nodup) :
    ((upstreamsOf documents).map fun resource => resource.metadata.name).Nodup := by
  have names : (upstreamsOf documents).map (fun resource => resource.metadata.name) =
      (documents.map ResourceDocument.identity).filterMap fun identity =>
        if identity.1 = "Upstream" then some identity.2 else none := by
    rw [upstreamsOf, List.map_filterMap, List.filterMap_map]
    refine List.filterMap_congr fun document _ => ?_
    cases document <;> rfl
  rw [names]
  exact distinct.filterMap fun a b name here there => identity_eq here there

theorem distinct_relays {documents : List (ResourceDocument B)}
    (distinct : (documents.map ResourceDocument.identity).Nodup) :
    ((relaysOf documents).map fun resource => resource.metadata.name).Nodup := by
  have names : (relaysOf documents).map (fun resource => resource.metadata.name) =
      (documents.map ResourceDocument.identity).filterMap fun identity =>
        if identity.1 = "Relay" then some identity.2 else none := by
    rw [relaysOf, List.map_filterMap, List.filterMap_map]
    refine List.filterMap_congr fun document _ => ?_
    cases document <;> rfl
  rw [names]
  exact distinct.filterMap fun a b name here there => identity_eq here there

/-- **What a compilation in `Except` succeeds with.** -/
theorem reads_of_compileWith {documents : List (ResourceDocument B)}
    {snapshot : ProviderSnapshot R} (done : compileWith secret documents = .ok snapshot) :
    Reads secret documents snapshot ∧
      (snapshot.upstreams.keys.map ResourceKey.value).Perm
        ((upstreamsOf documents).map fun resource => resource.metadata.name) ∧
      (snapshot.relays.keys.map ResourceKey.value).Perm
        ((relaysOf documents).map fun resource => resource.metadata.name) := by
  simp only [compileWith, Memo.bind_eq_ok, Memo.lift_except, mapError_eq_ok_iff, pure, Except.pure,
    Except.ok.injEq] at done
  obtain ⟨_, separated, upstreams, first, relays, second, _, valid, rfl⟩ := done
  obtain ⟨_, distinct, rfl⟩ := separate_eq_ok.mp separated
  have names := distinct_upstreams distinct
  have names' := distinct_relays distinct
  refine ⟨⟨distinct, exists_compileInto.mp ⟨_, first⟩, exists_compileInto.mp ⟨_, second⟩,
    fun key upstream => lookup_compileInto keyed_compileUpstream names first,
    fun key relay => lookup_compileInto keyed_compileRelay names' second, valid⟩,
    keys_compileInto keyed_compileUpstream names first,
    keys_compileInto keyed_compileRelay names' second⟩

theorem Reads.same {documents : List (ResourceDocument B)} {a b : ProviderSnapshot R}
    (reads : Reads secret documents a) (reads' : Reads secret documents b) : a.Same b :=
  ⟨fun key => Option.ext fun upstream =>
      (reads.upstream key upstream).trans (reads'.upstream key upstream).symm,
    fun key => Option.ext fun relay =>
      (reads.relay key relay).trans (reads'.relay key relay).symm⟩

theorem Reads.perm {documents documents' : List (ResourceDocument B)}
    {snapshot : ProviderSnapshot R} (reads : Reads secret documents snapshot)
    (perm : documents.Perm documents') : Reads secret documents' snapshot := by
  have upstreams : (upstreamsOf documents).Perm (upstreamsOf documents') := perm.filterMap _
  have relays : (relaysOf documents).Perm (relaysOf documents') := perm.filterMap _
  refine ⟨(perm.map _).nodup_iff.mp reads.distinct,
    fun resource member => reads.upstreams resource (upstreams.mem_iff.mpr member),
    fun resource member => reads.relays resource (relays.mem_iff.mpr member), ?_, ?_, reads.valid⟩
  · intro key upstream
    simpa only [upstreams.mem_iff] using reads.upstream key upstream
  · intro key relay
    simpa only [relays.mem_iff] using reads.relay key relay

/-- **Documents that can be read can be compiled, in any order.** -/
theorem exists_compileWith {documents : List (ResourceDocument B)}
    {snapshot : ProviderSnapshot R} (reads : Reads secret documents snapshot) :
    ∃ snapshot', compileWith secret documents = .ok snapshot' ∧ snapshot.Same snapshot' := by
  have separated : separate [] documents = .ok (upstreamsOf documents, relaysOf documents) :=
    separate_eq_ok.mpr ⟨fun _ _ => List.not_mem_nil, reads.distinct, rfl⟩
  obtain ⟨upstreams, first⟩ : ∃ result,
      compileInto (compileUpstream secret R) ∅ (upstreamsOf documents) = .ok result :=
    exists_compileInto.mpr reads.upstreams
  obtain ⟨relays, second⟩ : ∃ result,
      compileInto (compileRelay secret) ∅ (relaysOf documents) = .ok result :=
    exists_compileInto.mpr reads.relays
  have same : snapshot.Same ⟨upstreams, relays⟩ := by
    refine ⟨fun key => Option.ext fun upstream => (reads.upstream key upstream).trans ?_,
      fun key => Option.ext fun relay => (reads.relay key relay).trans ?_⟩
    · exact (lookup_compileInto keyed_compileUpstream (distinct_upstreams reads.distinct)
        first).symm
    · exact (lookup_compileInto keyed_compileRelay (distinct_relays reads.distinct) second).symm
  refine ⟨⟨upstreams, relays⟩, ?_, same⟩
  simp only [compileWith, Memo.bind_eq_ok, Memo.lift_except, mapError_eq_ok_iff, pure, Except.pure,
    Except.ok.injEq]
  exact ⟨_, separated, upstreams, first, relays, second, (), same.validate reads.valid, rfl⟩

end Reading

/-! ## Compilations that ask once -/

variable {resolver : Resolver} {documents : List (ResourceDocument B)}

/-- The secrets of a compilation, as its table has them. -/
def Table.secret (resolver : Resolver) (table : Table SecretSource String) :
    SecretValue → Except Error String :=
  resolveSecret resolver.resolveValue (table.answer [])

/-- A compilation that succeeds is the one with the answers that it ended with. -/
theorem told_compileResources (resolver : Resolver) (documents : List (ResourceDocument B))
    (table : Table SecretSource String) :
    Told table (compileWith
      (resolveSecret resolver.resolveValue (Memo.askOnce resolver.resolveSource)) documents)
      (compileWith (Table.secret resolver table) documents) :=
  compileWith_of_simulation (Memo.told table) (resolveSecret_of_simulation (Memo.told table)
    (Memo.told_askOnce table resolver.resolveSource []) resolver.resolveValue) documents

/-- **No source is resolved twice.** -/
theorem asked_once : (compileResources resolver documents).2.asked.Nodup := by
  have told := told_compileResources resolver documents ⟨[], []⟩ ⟨[], []⟩ Table.known_empty
  unfold compileResources
  split at told
  · rename_i same
    rw [same]
    exact told.1.once
  · rename_i same
    rw [same]
    exact told

/-- **What a compilation succeeds with, it makes of the answers that it ended with.** -/
theorem compileWith_of_compileResources {snapshot : ProviderSnapshot R}
    {table : Table SecretSource String}
    (done : compileResources resolver documents = (.ok snapshot, table)) :
    compileWith (Table.secret resolver table) documents = .ok snapshot := by
  have told := told_compileResources resolver documents table ⟨[], []⟩ Table.known_empty
  unfold compileResources at done
  rw [done] at told
  exact told.2.2 fun _ _ found => found

/-- **Where answers do not change, a compilation gives what it gives with the resolver itself.** -/
theorem compileResources_eq (constant : resolver.resolveSource.Constant) :
    (compileResources resolver documents).1 =
      compileWith (resolveSecret resolver.resolveValue (resolver.resolveSource [])) documents :=
  (compileWith_of_simulation (Memo.same resolver.resolveSource)
    (resolveSecret_of_simulation (Memo.same resolver.resolveSource)
      (Memo.same_askOnce constant) resolver.resolveValue) documents ⟨[], []⟩
    (Table.from_empty resolver.resolveSource)).1

/-- What a compilation has made of its documents. -/
theorem compiled_of_compileResources {snapshot : ProviderSnapshot R}
    {table : Table SecretSource String}
    (done : compileResources resolver documents = (.ok snapshot, table)) :
    Compiled documents snapshot fun source => table.answers.lookup source := by
  obtain ⟨reads, upstreams, relays⟩ := reads_of_compileWith (compileWith_of_compileResources done)
  refine ⟨reads.valid, upstreams, relays,
    fun _ _ found => ProviderSnapshot.exists_upstream reads.valid found, ?_, ?_⟩
  · intro resource member source uses
    obtain ⟨⟨key, upstream⟩, compiles⟩ := reads.upstreams resource member
    obtain ⟨named, clientSecret, known, built⟩ := compileUpstream_eq_ok.mp compiles
    rw [uses] at known
    refine ⟨key, upstream, resourceKey_value named,
      (reads.upstream key upstream).mpr ⟨resource, member, compiles⟩, ?_⟩
    rw [clientSecret_of_buildUpstream built]
    exact Table.answer_eq_ok.mp known
  · intro resource member clientId source uses
    obtain ⟨⟨key, relay⟩, compiles⟩ := reads.relays resource member
    obtain ⟨named, upstream, _, clientAuth, known, built⟩ := compileRelay_eq_ok.mp compiles
    rw [uses] at known
    simp only [compileClientAuth, Memo.bind_eq_ok, Memo.mapError_eq_ok, pure, Except.pure,
      Except.ok.injEq] at known
    obtain ⟨secret, known, rfl⟩ := known
    exact ⟨key, relay, secret, resourceKey_value named,
      (reads.relay key relay).mpr ⟨resource, member, compiles⟩, clientAuth_of_buildRelay built,
      Table.answer_eq_ok.mp known⟩

/-- **A compilation is all or nothing, asks once, and does not depend on the order.** -/
theorem compile_exact (B : Readers R) (resolver : Resolver) : CompileExact B resolver where
  sound _ _ _ done := compiled_of_compileResources done
  once _ := asked_once
  orderFree := by
    intro constant documents documents' perm snapshot done
    rw [compileResources_eq constant] at done ⊢
    obtain ⟨reads, _⟩ := reads_of_compileWith done
    exact exists_compileWith (reads.perm perm)

/-! ## The secrets of the documents -/

section Secrets

variable {ask ask' : SecretValue → Asks SecretSource String Error String}

/-- The secrets that a compilation of the documents resolves. -/
def secretsOf (documents : List (ResourceDocument B)) : List SecretValue :=
  ((upstreamsOf documents).map fun resource => resource.spec.oauthClient.clientSecret) ++
    (relaysOf documents).filterMap fun resource => resource.spec.clientAuthentication.secret?

theorem compileRelay_congr {resource : RelayResource B}
    (same : ∀ secret, resource.spec.clientAuthentication.secret? = some secret →
      ask secret = ask' secret) : compileRelay ask resource = compileRelay ask' resource := by
  have clientAuth : ∀ key, compileClientAuth ask key resource.spec.clientAuthentication =
      compileClientAuth ask' key resource.spec.clientAuthentication := by
    intro key
    cases authentication : resource.spec.clientAuthentication with
    | clientSecret clientId secret =>
        simp only [compileClientAuth]
        rw [same secret (by rw [authentication]; rfl)]
    | _ => rfl
  unfold compileRelay
  simp only [clientAuth]

theorem compileInto_congr {α β : Type}
    {compile compile' : α → Asks SecretSource String Error (ResourceKey × β)} {xs : List α}
    (same : ∀ x ∈ xs, compile x = compile' x) (resources : ResourceMap β) :
    compileInto compile resources xs = compileInto compile' resources xs := by
  induction xs generalizing resources with
  | nil => rfl
  | cons x xs ih =>
      obtain ⟨first, rest⟩ := List.forall_mem_cons.mp same
      simp only [compileInto, first, ih rest]

/-- **A compilation asks for nothing but the secrets of its documents.** -/
theorem compileWith_congr {documents : List (ResourceDocument B)}
    (same : ∀ secret ∈ secretsOf documents, ask secret = ask' secret)
    (table : Table SecretSource String) :
    (compileWith ask documents).run table = (compileWith ask' documents).run table := by
  have upstreams : ∀ resource ∈ upstreamsOf documents,
      compileUpstream ask R resource = compileUpstream ask' R resource := by
    intro resource member
    unfold compileUpstream
    rw [same _ (List.mem_append_left _ (List.mem_map_of_mem member))]
  have relays : ∀ resource ∈ relaysOf documents,
      compileRelay ask resource = compileRelay ask' resource := fun resource member =>
    compileRelay_congr fun secret uses =>
      same secret (List.mem_append_right _ (List.mem_filterMap.mpr ⟨resource, member, uses⟩))
  unfold compileWith
  rw [Memo.run_bind, Memo.run_bind, Memo.run_lift]
  cases separated : separate [] documents with
  | error => rfl
  | ok parts =>
      obtain ⟨-, -, rfl⟩ := separate_eq_ok.mp separated
      simp only [compileInto_congr upstreams, compileInto_congr relays]

end Secrets

/-! ## A compilation -/

/-- Every text is a URL of the host that it names, and a redirect matcher. -/
def plainRules : Rules where
  parseUrl text := some ⟨text, "https", some (text, false), "", none, "/", none, none⟩
  Matcher := String
  identity := id
  validateMatcher _ := pure ()
  httpOrigin _ := none
  Policy := Empty
  validatePolicy policy := policy.elim

def plainReaders : Readers plainRules where
  uri := .ok
  origin := .ok
  httpOrigin := .ok
  loopback := .ok
  loopbackOrigin := .ok
  PublicJwkSet := Empty
  toValue keys := keys.elim

/-- A relay before its upstream, and both with the secret of one source. -/
def plainDocuments : List (ResourceDocument plainReaders) :=
  [.relay ⟨⟨none, "app"⟩, "login", ⟨["openid"], none⟩, [], none, ⟨.passthrough, none, none⟩,
      .clientSecret "id" (.valueFrom (.env "SECRET")), [.uri "https://app.example/callback"]⟩,
    .upstream ⟨⟨none, "login"⟩, "issuer.example", ⟨none, none, none⟩,
      ⟨"id", .valueFrom (.env "SECRET"), .clientSecretPost⟩⟩]

/-- Its answers say how many questions came before. -/
def countingResolver : Resolver where
  resolveValue := .ok
  resolveSource asked _ := .ok (toString asked.length)

/-- The names of the entries, and the secrets of the clients. -/
def summary (snapshot : ProviderSnapshot plainRules) : List (String × String) :=
  (snapshot.upstreams.entries.map fun entry => (entry.1.value, entry.2.clientSecret)) ++
    snapshot.relays.entries.map fun entry =>
      (entry.1.value, match entry.2.clientAuth with
        | .clientSecret _ secret => secret
        | _ => "")

example :
    ((compileResources countingResolver plainDocuments).1.toOption.map summary,
      (compileResources countingResolver plainDocuments).2.asked) =
    (some [("login", "0"), ("app", "0")], [.env "SECRET"]) := by
  decide +kernel

end OAuthRelay.Config
