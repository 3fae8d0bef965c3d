import OAuthRelay.Cluster.Watch
import OAuthRelay.Config.Compile

/-!
# Discovery in a namespace

The provider makes documents of the upstream and relay objects of one namespace and compiles
them. A compiled relay has the uid of its object as its generation.

Secrets are not documents. The provider watches their metadata, and their values are read while
it compiles. `referenced_secrets` are the names of the secrets that the objects refer to, and a
compilation reads no other (`compile_congr`).
-/

set_option autoImplicit false

namespace OAuthRelay.Cluster

open OAuthRelay.Codes (ResourceKey)
open Config (ClientAuthentication Error Metadata ProviderSnapshot Readers Relay RelayResourceSpec
  ResourceDocument ResourceMap Resolver Rules SecretSource SecretValue UpstreamResource
  UpstreamResourceSpec compileResources relaysOf secretsOf upstreamsOf)

variable {R : Rules} {B : Readers R} {Spec : Type}

abbrev UpstreamObject := Object UpstreamResourceSpec

abbrev RelayObject (B : Readers R) := Object (RelayResourceSpec B)

/-! ## Documents -/

/-- The metadata of a document. -/
def metadata (namespaceName : String) (object : Object Spec) : Except Error Metadata :=
  if object.namespaceName ≠ some namespaceName then
    .error ["resource is outside the Kubernetes provider namespace"]
  else
    match object.name with
    | none => .error ["Kubernetes resource has no name"]
    | some name => .ok ⟨some namespaceName, name⟩

/-- One document after the other. -/
def documentsOf {Document : Type} (document : Metadata → Spec → Document)
    (namespaceName : String) : List (Object Spec) → Except Error (List Document)
  | [] => .ok []
  | object :: objects => do
      let metadata ← metadata namespaceName object
      let rest ← documentsOf document namespaceName objects
      pure (document metadata object.spec :: rest)

def documents (namespaceName : String) (upstreams : List UpstreamObject)
    (relays : List (RelayObject B)) : Except Error (List (ResourceDocument B)) := do
  let upstreams ←
    documentsOf (fun metadata spec => .upstream ⟨metadata, spec⟩) namespaceName upstreams
  let relays ← documentsOf (fun metadata spec => .relay ⟨metadata, spec⟩) namespaceName relays
  pure (upstreams ++ relays)

/-! ## Compilation -/

/-- The uid of each relay object by its name. -/
def relayGenerations (relays : List (RelayObject B)) : AList fun _ : String => String :=
  relays.foldl (fun generations relay =>
    match relay.name, relay.uid with
    | some name, some uid => generations.insert name uid
    | _, _ => generations) ∅

/-- Sets the generation of the relay under a key to the uid of its object. -/
def withGeneration (generations : AList fun _ : String => String) (key : ResourceKey)
    (relay : Relay R) : Relay R :=
  match generations.lookup key.value with
  | some uid => { relay with generation := some uid }
  | none => relay

def withGenerations (snapshot : ProviderSnapshot R)
    (generations : AList fun _ : String => String) : ProviderSnapshot R where
  upstreams := snapshot.upstreams
  relays :=
    { entries := snapshot.relays.entries.map fun entry =>
        ⟨entry.1, withGeneration generations entry.1 entry.2⟩
      nodupKeys := by
        rw [List.NodupKeys, List.keys, List.map_map]
        exact snapshot.relays.nodupKeys }

/-- `KubernetesProvider::compile`. -/
def compile (namespaceName : String) (resolver : Resolver) (upstreams : List UpstreamObject)
    (relays : List (RelayObject B)) : Except Error (ProviderSnapshot R) := do
  let documents ← documents namespaceName upstreams relays
  let snapshot ← (compileResources resolver documents).1
  pure (withGenerations snapshot (relayGenerations relays))

/-! ## Referenced secrets -/

/-- The name of the Kubernetes secret that is referred to. -/
def secretName : SecretValue → Option String
  | .valueFrom (.secretKeyRef name _) => some name
  | _ => none

/-- The names of the secrets that upstreams and relays refer to. -/
def referencedBy (upstreams : List UpstreamObject) (relays : List (RelayObject B)) :
    List String :=
  ((upstreams.map fun object => object.spec.oauthClient.clientSecret) ++
    relays.filterMap fun object => object.spec.clientAuthentication.secret?).filterMap secretName

/-- `referenced_secrets`. -/
def referencedSecrets (upstreams : Store UpstreamResourceSpec)
    (relays : Store (RelayResourceSpec B)) : List String :=
  referencedBy upstreams.objects.values relays.objects.values

/-- What can be read off the documents can be read off the objects. -/
theorem filterMap_documentsOf {Document β : Type} {document : Metadata → Spec → Document}
    {namespaceName : String} {objects : List (Object Spec)} {result : List Document}
    (done : documentsOf document namespaceName objects = .ok result) (f : Document → Option β)
    (g : Spec → Option β) (same : ∀ metadata spec, f (document metadata spec) = g spec) :
    result.filterMap f = objects.filterMap fun object => g object.spec := by
  induction objects generalizing result with
  | nil =>
      cases done
      rfl
  | cons object objects ih =>
      simp only [documentsOf, Memo.bind_eq_ok, pure, Except.pure, Except.ok.injEq] at done
      obtain ⟨metadata, -, rest, others, rfl⟩ := done
      rw [List.filterMap_cons, List.filterMap_cons, same, ih others]

/-- The secrets of the documents are those of the objects. -/
theorem secretsOf_documents {namespaceName : String} {upstreams : List UpstreamObject}
    {relays : List (RelayObject B)} {result : List (ResourceDocument B)}
    (done : documents namespaceName upstreams relays = .ok result) :
    secretsOf result = (upstreams.map fun object => object.spec.oauthClient.clientSecret) ++
      relays.filterMap fun object => object.spec.clientAuthentication.secret? := by
  simp only [documents, Memo.bind_eq_ok, pure, Except.pure, Except.ok.injEq] at done
  obtain ⟨first, upstreamsDone, second, relaysDone, rfl⟩ := done
  let upstreamSecret (document : ResourceDocument B) : Option SecretValue :=
    document.upstream?.map fun resource => resource.spec.oauthClient.clientSecret
  let relaySecret (document : ResourceDocument B) : Option SecretValue :=
    document.relay?.bind fun resource => resource.spec.clientAuthentication.secret?
  have split : secretsOf (first ++ second) =
      (first ++ second).filterMap upstreamSecret ++ (first ++ second).filterMap relaySecret := by
    simp only [secretsOf, upstreamsOf, relaysOf, List.map_filterMap, List.filterMap_filterMap]
    rfl
  rw [split, List.filterMap_append, List.filterMap_append,
    filterMap_documentsOf upstreamsDone upstreamSecret
      (fun spec => some spec.oauthClient.clientSecret) fun _ _ => rfl,
    filterMap_documentsOf upstreamsDone relaySecret (fun _ => none) fun _ _ => rfl,
    filterMap_documentsOf relaysDone upstreamSecret (fun _ => none) fun _ _ => rfl,
    filterMap_documentsOf relaysDone relaySecret
      (fun spec => spec.clientAuthentication.secret?) fun _ _ => rfl]
  simp

/-- The resolvers answer alike, except perhaps for Kubernetes secrets of other names. -/
structure Agree (names : String → Prop) (resolver resolver' : Resolver) : Prop where
  values : resolver.resolveValue = resolver'.resolveValue
  sources : ∀ asked source, (∀ name key, source = .secretKeyRef name key → names name) →
    resolver.resolveSource asked source = resolver'.resolveSource asked source

theorem Agree.mono {names names' : String → Prop} {resolver resolver' : Resolver}
    (agree : Agree names resolver resolver') (fewer : ∀ name, names' name → names name) :
    Agree names' resolver resolver' where
  values := agree.values
  sources asked source inside :=
    agree.sources asked source fun name key same => fewer name (inside name key same)

/-- Resolvers that agree resolve a secret alike that is not a Kubernetes secret of another
name. -/
theorem resolveSecret_congr {names : String → Prop} {resolver resolver' : Resolver}
    (agree : Agree names resolver resolver') {secret : SecretValue}
    (inside : ∀ name, secretName secret = some name → names name) :
    Config.resolveSecret resolver.resolveValue (Memo.askOnce resolver.resolveSource) secret =
      Config.resolveSecret resolver'.resolveValue (Memo.askOnce resolver'.resolveSource)
        secret := by
  cases secret with
  | value text =>
      unfold Config.resolveSecret
      rw [agree.values]
  | valueFrom source =>
      have sources : ∀ asked, resolver.resolveSource asked source =
          resolver'.resolveSource asked source := by
        refine fun asked => agree.sources asked source fun name key same => inside name ?_
        rw [same]
        rfl
      unfold Config.resolveSecret Memo.askOnce
      simp only [sources]

theorem bind_congr_ok {α β : Type} {x : Except Error α} {f g : α → Except Error β}
    (same : ∀ a, x = .ok a → f a = g a) : (x >>= f) = (x >>= g) := by
  cases x with
  | error => rfl
  | ok a => exact same a rfl

/-- **A compilation reads no secret but the referenced ones.** -/
theorem compile_congr {resolver resolver' : Resolver} {upstreams : List UpstreamObject}
    {relays : List (RelayObject B)}
    (agree : Agree (· ∈ referencedBy upstreams relays) resolver resolver')
    (namespaceName : String) :
    compile namespaceName resolver upstreams relays =
      compile namespaceName resolver' upstreams relays := by
  have compiled : ∀ result, documents namespaceName upstreams relays = .ok result →
      compileResources resolver result = compileResources resolver' result := by
    intro result found
    unfold compileResources
    refine Config.compileWith_congr (fun secret member => resolveSecret_congr agree ?_) _
    intro name named
    rw [secretsOf_documents found] at member
    exact List.mem_filterMap.mpr ⟨secret, member, named⟩
  refine bind_congr_ok fun result found => ?_
  rw [compiled result found]

end OAuthRelay.Cluster
