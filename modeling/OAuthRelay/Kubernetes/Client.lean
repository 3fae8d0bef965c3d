import OAuthRelay.Async.Projections
import OAuthRelay.Kubernetes.Layout
import OAuthRelay.Kubernetes.Watermark

/-!
# The store over objects as they are laid out

`Deployed.machine` is the Kubernetes store with the client that it runs with: what it writes
it lays out as objects of a resource, with labels and texts, and what it reads it reads out
of objects that anybody may have written. Every run of it is a run of the store over the
meanings of objects, with the same inputs, deliveries, clocks and results
(`Deployed.projection`), so whatever holds of every run of that store holds of the store as
it is deployed.

On the way nothing is lost: every object that is written is accepted by an API server, means
the record, and is read back as the record; and every list asks for objects by their meaning
(`layout_refines`).
-/

set_option autoImplicit false

namespace OAuthRelay.Kubernetes

open Codes (Bytes)
open Objects
open Wire.Calendar (Moment)

/-! ## The client -/

/-- A store as it is deployed: the resource, the namespace, the hash of names and the
libraries. -/
structure Deployed where
  mapping : RecordMapping
  home : String
  sha256 : List UInt8 → Bytes 32
  lib : Libraries

/-- The challenges that a call draws. -/
abbrev Challenges := ℕ → Bytes 32

/-- A page as the server returns it. -/
structure ObjectList where
  items : List (String × Object DynamicObject)
  continueToken : Option String

/-- A call, with the challenges that it draws next. -/
abbrev ClientCall := Call (List UInt8) × Challenges

namespace Deployed

variable (D : Deployed)

/-- `KubeClient::get`, after the answer. -/
def fetched (name : String)
    (next : Except RequestFailed (Option (Stored (List UInt8))) → Call (List UInt8))
    (challenges : Challenges) :
    Except RequestFailed (Option (Object DynamicObject)) → ClientCall
  | .error failed => (next (.error failed), challenges)
  | .ok none => (next (.ok none), challenges)
  | .ok (some object) =>
      match D.mapping.decode D.lib (delivered name object) with
      | .ok stored => (next (.ok (some stored)), challenges)
      | .error _ => (next (.error ⟨⟩), challenges)

/-- `KubeClient::list`, after the answer. -/
def pageOf (list : ObjectList) : Page (List UInt8) where
  items := list.items.filterMap fun item =>
    (D.mapping.decode D.lib (delivered item.1 item.2)).toOption
  undecodable := list.items.filterMap fun item =>
    match D.mapping.decode D.lib (delivered item.1 item.2) with
    | .ok _ => none
    | .error _ => some item.1
  continueToken := list.continueToken.filter fun token => !token.isEmpty

/-- A request that a client waits for. -/
abbrev Request :=
  Await String DynamicObject (String × Option String) ObjectList (Option SweepState) ClientCall

/-- Lays out a record and sends it. The transport sends the same object again. -/
def send {Answer : Type} (record : NewRecord (List UInt8)) (challenges : Challenges)
    (next : Except RequestFailed Answer → Call (List UInt8))
    (request : DynamicObject → (Except RequestFailed Answer → ClientCall) → Request) : Request :=
  match D.mapping.encode D.lib D.home record (challenges 0) with
  | .ok object => request object fun answer => (next answer, fun n => challenges (n + 1))
  | .error _ => .recall id fun _ => (next (.error ⟨⟩), challenges)

/-- `KubeClient::create`. -/
def create (record : NewRecord (List UInt8)) (challenges : Challenges)
    (next : Except RequestFailed CreateOutcome → Call (List UInt8)) : Request :=
  D.send record challenges next fun object next => .create record.name object next

/-- `KubeClient::replace`. -/
def replace (record : NewRecord (List UInt8)) (version : ℕ) (challenges : Challenges)
    (next : Except RequestFailed ReplaceOutcome → Call (List UInt8)) : Request :=
  D.send record challenges next fun object next =>
    .replace record.name { object with resourceVersion := some version } version next

/-- `KubeClient::get`. -/
def get (name : String) (challenges : Challenges)
    (next : Except RequestFailed (Option (Stored (List UInt8))) → Call (List UInt8)) : Request :=
  .get name (D.fetched name next challenges)

def objectName (key : String) : String := D.mapping.objectName D.sha256 key

/-- What a call waits for, and how it goes on. -/
def await : ClientCall → Request
  | (.putStarting key value ttl, rest) =>
      .clock fun now => (putStarted D.objectName key value ttl now, rest)
  | (.creating put round, rest) => D.create put.record rest (created put round)
  | (.reading put round, rest) => D.get put.record.name rest (existing put round)
  | (.replacing put round existing, rest) =>
      D.replace put.record existing.resourceVersion rest (replaced put round)
  | (.getStarting key, rest) => .clock fun now => (.getting key now, rest)
  | (.getting key now, rest) => D.get (D.objectName key) rest (got now)
  | (.swapStarting key expected new ttl, rest) =>
      .clock fun now => (swapStarted D.objectName key expected new ttl now, rest)
  | (.swapReading swap, rest) => D.get swap.record.name rest (swapRead swap)
  | (.swapping swap current, rest) =>
      D.replace swap.record current.resourceVersion rest (swapped swap)
  | (.swapChecking swap, rest) => D.get swap.record.name rest (swapChecked swap)
  | (.deleting key, rest) => .delete (D.objectName key) none fun answer => (deleted answer, rest)
  | (.fullStarting, rest) =>
      .clock fun now => (.listing (.full now) .managed ⟨0, 0, 0⟩ none, rest)
  | (.tickStarting, rest) => .clock fun now => (.tickRecalling now, rest)
  | (.tickRecalling now, rest) => .recall id fun state => (tickRecalled now state, rest)
  | (.listing pass selector report token, rest) =>
      .list (selector.text, token) fun
        | .error failed => (.done (.swept (.error failed)), rest)
        | .ok list => (.listed pass selector report (D.pageOf list), rest)
  | (.listed pass selector report page, rest) =>
      .clock fun now => (pageListed pass selector report page now, rest)
  | (.sweeping pass selector report token object onward, rest) =>
      .delete object.name (some object.resourceVersion)
        fun answer => (objectSwept pass selector report token onward answer, rest)
  | (.settling pass report, rest) =>
      .recall (settle pass) fun _ => (.done (.swept (.ok report)), rest)
  | (.done _, _) => .finished

/-- Any number of replicas over one API server. -/
def machine : Machine String DynamicObject where
  Input := Input (List UInt8) × Challenges
  Call := ClientCall
  Query := String × Option String
  Page := ObjectList
  Memory := Option SweepState
  memory := none
  start input := (start input.1, input.2)
  await := D.await

/-- The store over meanings. -/
abbrev store : Machine String (Contents (List UInt8)) :=
  Kubernetes.machine (List UInt8) D.objectName

def meaning (object : DynamicObject) : Contents (List UInt8) := D.mapping.meaning D.lib object

end Deployed

theorem ok_of_toOption {ε α : Type} {x : Except ε α} {a : α} (same : x.toOption = some a) :
    x = .ok a := by
  cases x with
  | ok b => exact congrArg Except.ok (Option.some.inj same)
  | error => cases same

/-! ## What calls write and ask for -/

/-- A record that a store may write. -/
structure NewRecord.Writable (objectName : String → String) (record : NewRecord (List UInt8)) :
    Prop where
  key : validKey record.key = true
  name : record.name = objectName record.key
  expires : record.expiresAtMs ≤ maxExpiryMillis

/-- The selector asks for some hour. -/
def Selector.Named (selector : Selector) : Prop := ∀ hours, selector = .expiry hours → hours ≠ []

/-- What a call is about to write can be laid out, and what it is about to ask for can be
named. -/
def Call.Laid (objectName : String → String) : Call (List UInt8) → Prop
  | .putStarting key _ _ | .swapStarting key _ _ _ => validKey key = true
  | .creating put _ | .reading put _ | .replacing put _ _ => put.record.Writable objectName
  | .swapReading swap | .swapping swap _ | .swapChecking swap => swap.record.Writable objectName
  | .listing pass selector _ _ | .listed pass selector _ _ | .sweeping pass selector _ _ _ _ =>
      selector.Named ∧ ∀ later ∈ pass.later, later.Named
  | _ => True

section Laid

variable {objectName : String → String}

theorem laid_start (input : Input (List UInt8)) : (start input).Laid objectName := by
  cases input with
  | putIfAbsent key value ttl =>
      simp only [start]
      split
      · rename_i valid
        exact (Bool.and_eq_true_iff.mp valid).1
      · trivial
  | compareAndSwap key expected new ttl =>
      simp only [start]
      split
      · rename_i valid
        exact (Bool.and_eq_true_iff.mp valid).1
      · trivial
  | get key | delete key =>
      simp only [start]
      split <;> trivial
  | sweep | sweepTick => trivial

theorem writable_of_expiry {key : String} (valid : validKey key = true) {value : List UInt8}
    {ttl now expires : ℕ} (same : expiry now ttl = .ok expires) :
    (⟨objectName key, key, value, expires⟩ : NewRecord (List UInt8)).Writable objectName := by
  unfold expiry at same
  split at same
  · rename_i small
    cases same
    exact ⟨valid, rfl, small⟩
  · cases same

theorem laid_putLoop {put : Put (List UInt8)} (writable : put.record.Writable objectName)
    (round : ℕ) : (putLoop put round).Laid objectName := by
  rcases putLoop_cases put round with ⟨_, same⟩ | ⟨_, same⟩
  · rw [same]; exact writable
  · rw [same]; trivial

theorem laid_passDone (pass : Pass) (named : ∀ later ∈ pass.later, later.Named)
    (report : SweepReport) : (passDone pass report).Laid objectName := by
  rcases passDone_later (List UInt8) pass report with
    ⟨selector, rest, pass', later, later', _, same⟩ | ⟨_, same⟩
  · rw [same]
    rw [later] at named
    rw [Call.Laid, later']
    exact ⟨named selector (List.mem_cons_self ..),
      fun other inside => named other (List.mem_cons_of_mem _ inside)⟩
  · rw [same]; trivial

theorem laid_deletes {pass : Pass} {selector : Selector}
    (named : selector.Named ∧ ∀ later ∈ pass.later, later.Named) (report : SweepReport)
    (token : Option String) (items : List (Stored (List UInt8))) :
    (deletes pass selector report token items).Laid objectName := by
  rcases deletes_cases pass selector report token items with
    ⟨_, _, _, same⟩ | ⟨_, ⟨_, _, same⟩ | ⟨_, same⟩⟩
  · rw [same]; exact named
  · rw [same]; exact named
  · rw [same]; exact laid_passDone pass named.2 report

/-- Hours are cut into chunks that have some. -/
theorem ne_nil_of_chunksFrom {α : Type} (n : ℕ) (items : List α) (chunk : Array α)
    (chunks : Array (List α)) (some : chunk.toList ≠ []) (all : ∀ c ∈ chunks.toList, c ≠ []) :
    ∀ c ∈ List.toChunks.go n items chunk chunks, c ≠ [] := by
  induction items generalizing chunk chunks with
  | nil =>
      intro c inside
      simp only [List.toChunks.go, Array.toList_push, List.mem_append, List.mem_singleton] at inside
      rcases inside with before | rfl
      · exact all c before
      · exact some
  | cons item items ih =>
      rw [List.toChunks.go]
      split
      · refine ih _ _ (by simp) ?_
        intro c inside
        rw [Array.toList_push, List.mem_append, List.mem_singleton] at inside
        rcases inside with before | rfl
        · exact all c before
        · exact some
      · exact ih _ _ (by simp) all

theorem ne_nil_of_toChunks {α : Type} {n : ℕ} {items chunk : List α}
    (inside : chunk ∈ items.toChunks n) : chunk ≠ [] := by
  cases items with
  | nil => simp [List.toChunks] at inside
  | cons item items =>
      cases n with
      | zero =>
          simp only [List.toChunks, List.mem_singleton] at inside
          rw [inside]
          exact List.cons_ne_nil _ _
      | succ n => exact ne_nil_of_chunksFrom _ _ _ _ (by simp) (by simp) chunk inside

theorem laid_tickRecalled (now : ℕ) (memory : Option SweepState) :
    (tickRecalled now memory).Laid objectName := by
  rcases tickRecalled_cases (List UInt8) now memory with same | ⟨state, _, _, same⟩
  · rw [same]; trivial
  · rw [same]
    refine laid_passDone _ ?_ _
    intro later inside hours expiry
    obtain ⟨chunk, cut, rfl⟩ := List.mem_map.mp inside
    cases expiry
    exact ne_nil_of_toChunks cut

/-- **Every step keeps what a call writes and asks for in the bounds of the layout.** -/
theorem Call.Laid.next {c : Call (List UInt8)} (laid : c.Laid objectName)
    {σ : Server String (Contents (List UInt8))} {memory : Option SweepState} {delivery : Delivery}
    {choice : Choice (Page (List UInt8))} {c' : Call (List UInt8)}
    (resumed : (await objectName c).next σ memory delivery choice c = some c') :
    c'.Laid objectName := by
  cases c with
  | putStarting key value ttl =>
      obtain rfl := Option.some.inj resumed
      simp only [putStarted]
      split
      · trivial
      · rename_i same
        exact laid_putLoop (writable_of_expiry laid same) 0
  | creating put round =>
      refine of_deliver (Option.some.inj resumed) laid ?_ trivial
      cases σ.createOutcome put.record.name with
      | created => trivial
      | alreadyExists => exact laid
  | reading put round =>
      refine of_deliver (Option.some.inj resumed) laid ?_ trivial
      rcases existing_cases put round rfl with same | ⟨same, _⟩ | ⟨same, _⟩ | ⟨same, _⟩ |
        ⟨_, _, same, _⟩
      · rw [same]; trivial
      · rw [same]; trivial
      · rw [same]; exact laid_putLoop laid _
      · rw [same]; trivial
      · rw [same]; exact laid
  | replacing put round existing =>
      refine of_deliver (Option.some.inj resumed) laid ?_ trivial
      cases σ.replaceOutcome put.record.name existing.resourceVersion with
      | replaced => trivial
      | conflict | notFound => exact laid_putLoop laid _
  | swapStarting key expected new ttl =>
      obtain rfl := Option.some.inj resumed
      simp only [swapStarted]
      split
      · trivial
      · rename_i same
        exact writable_of_expiry laid same
  | swapReading swap =>
      refine of_deliver (Option.some.inj resumed) laid (of_read (fun current => ?_) trivial) trivial
      simp only [swapRead]
      split
      · trivial
      · exact laid
  | swapping swap current =>
      refine of_deliver (Option.some.inj resumed) laid ?_ trivial
      cases σ.replaceOutcome swap.record.name current.resourceVersion with
      | conflict => exact laid
      | replaced | notFound => trivial
  | swapChecking swap =>
      exact of_deliver (Option.some.inj resumed) laid (of_read (fun _ => trivial) trivial) trivial
  | getting key now =>
      exact of_deliver (Option.some.inj resumed) laid (of_read (fun _ => trivial) trivial) trivial
  | deleting key => exact of_deliver (Option.some.inj resumed) laid trivial trivial
  | getStarting | tickStarting | settling =>
      obtain rfl := Option.some.inj resumed
      trivial
  | fullStarting =>
      obtain rfl := Option.some.inj resumed
      exact ⟨fun _ same => (by cases same), List.forall_mem_nil _⟩
  | tickRecalling now =>
      obtain rfl := Option.some.inj resumed
      exact laid_tickRecalled _ _
  | listing pass selector report token =>
      exact of_deliver (Option.some.inj resumed) laid laid trivial
  | listed pass selector report page =>
      obtain rfl := Option.some.inj resumed
      exact laid_deletes laid _ _ _
  | sweeping pass selector report token object rest =>
      refine of_deliver (Option.some.inj resumed) laid ?_ trivial
      cases σ.deleteOutcome object.name (some object.resourceVersion) with
      | deleted | conflict | notFound => exact laid_deletes laid _ _ _
  | done outcome => cases resumed

end Laid

/-! ## The layout refines the meanings -/

namespace Deployed

variable (D : Deployed)

/-- **What is fetched goes on as what it means.** -/
theorem answers_fetched (name : String)
    (next : Except RequestFailed (Option (Stored (List UInt8))) → Call (List UInt8))
    (challenges : Challenges) : Answers (Option.map (Object.map D.meaning)) Prod.fst
      (D.fetched name next challenges) (read name next) := by
  refine ⟨fun answer => ?_, fun _ => rfl⟩
  cases answer with
  | none => rfl
  | some object =>
      have meant := decode_delivered D.lib D.mapping name object
      simp only [Option.map_some, fetched, read, Object.map, meaning]
      cases found : D.mapping.decode D.lib (delivered name object) with
      | ok stored =>
          rw [found] at meant
          rw [← meant]
          rfl
      | error message =>
          rw [found] at meant
          rw [← meant]
          rfl

section Documented

variable {D} (documented : D.lib.Documented)
include documented

/-- A record that may be written is laid out, and the request for it is sent. -/
theorem send_eq {Answer : Type} {record : NewRecord (List UInt8)}
    (writable : record.Writable D.objectName) (challenges : Challenges)
    (next : Except RequestFailed Answer → Call (List UInt8))
    (request : DynamicObject → (Except RequestFailed Answer → ClientCall) → Request) :
    ∃ object, D.mapping.encode D.lib D.home record (challenges 0) = .ok object ∧
      D.send record challenges next request =
        request object fun answer => (next answer, fun n => challenges (n + 1)) := by
  have laid := encode_eq documented writable.expires D.mapping D.home (challenges 0)
  refine ⟨_, laid, ?_⟩
  simp only [send, laid]

/-- **Each call sends what means what the store over meanings sends.** -/
theorem reads_await {c : ClientCall} (laid : c.1.Laid D.objectName) :
    (D.await c).Reads D.meaning (fun asked asked' => asked = (asked'.1.text, asked'.2)) D.pageOf id
      Prod.fst (Kubernetes.await D.objectName c.1) := by
  obtain ⟨c, challenges⟩ := c
  cases c with
  | putStarting | getStarting | swapStarting | fullStarting | tickStarting | listed =>
      exact .clock fun _ => rfl
  | creating put round =>
      obtain ⟨object, made, sent⟩ := send_eq documented laid challenges (created put round)
        fun object next => .create put.record.name object next
      rw [await, create, sent]
      exact .create (meaning_encode documented laid.expires made) ⟨fun _ => rfl, fun _ => rfl⟩
  | reading put round => exact .get (D.answers_fetched _ _ _)
  | replacing put round existing =>
      obtain ⟨object, made, sent⟩ := send_eq documented laid challenges (replaced put round)
        fun object next => .replace put.record.name
          { object with resourceVersion := some existing.resourceVersion }
          existing.resourceVersion next
      rw [await, replace, sent]
      have means : D.meaning object = _ := meaning_encode documented laid.expires made
      exact .replace means ⟨fun _ => rfl, fun _ => rfl⟩
  | getting key now => exact .get (D.answers_fetched _ _ _)
  | swapReading swap => exact .get (D.answers_fetched _ _ _)
  | swapping swap current =>
      obtain ⟨object, made, sent⟩ := send_eq documented laid challenges (swapped swap)
        fun object next => .replace swap.record.name
          { object with resourceVersion := some current.resourceVersion }
          current.resourceVersion next
      rw [await, replace, sent]
      have means : D.meaning object = _ := meaning_encode documented laid.expires made
      exact .replace means ⟨fun _ => rfl, fun _ => rfl⟩
  | swapChecking swap => exact .get (D.answers_fetched _ _ _)
  | deleting | sweeping => exact .delete ⟨fun _ => rfl, fun _ => rfl⟩
  | tickRecalling | settling => exact .recalls (fun _ => rfl) fun _ => rfl
  | listing pass selector report token => exact .list rfl ⟨fun _ => rfl, fun _ => rfl⟩
  | done => exact .finished

end Documented

/-- How the store that is deployed corresponds to the store over meanings. -/
def projection (documented : D.lib.Documented) : Projection D.machine D.store where
  body := D.meaning
  input := Prod.fst
  call := Prod.fst
  query asked asked' := asked = (asked'.1.text, asked'.2)
  page := D.pageOf
  memory := id
  fits := Call.Laid D.objectName
  memory_eq := rfl
  start _ := rfl
  reads _ laid := reads_await documented laid
  begins input := laid_start input
  keeps _ laid _ _ _ _ _ resumed := laid.next resumed

section Documented

variable {D} (documented : D.lib.Documented)
include documented

/-- **What a step writes is the object for a record.** -/
theorem record_of_change {c : ClientCall} (laid : c.1.Laid D.objectName)
    {σ : Server String DynamicObject} {delivery : Delivery} {name : String}
    {object : DynamicObject} (made : (D.await c).change σ delivery = some (name, some object)) :
    ∃ record challenge plain version, record.Writable D.objectName ∧ name = record.name ∧
      D.mapping.encode D.lib D.home record challenge = .ok plain ∧
      object = { plain with resourceVersion := version } := by
  obtain ⟨c, challenges⟩ := c
  cases c with
  | creating put round =>
      obtain ⟨plain, encoded, sent⟩ := send_eq documented laid challenges (created put round)
        fun object next => .create put.record.name object next
      rw [await, create, sent, Await.change] at made
      split at made
      · have same := (Server.createChange_eq_some made).2
        simp only [Prod.mk.injEq, Option.some.injEq] at same
        exact ⟨put.record, challenges 0, plain, plain.resourceVersion, laid, same.1, encoded,
          same.2⟩
      · cases made
  | replacing put round existing =>
      obtain ⟨plain, encoded, sent⟩ := send_eq documented laid challenges (replaced put round)
        fun object next => .replace put.record.name
          { object with resourceVersion := some existing.resourceVersion }
          existing.resourceVersion next
      rw [await, replace, sent, Await.change] at made
      split at made
      · have same := (Server.replaceChange_eq_some made).2
        simp only [Prod.mk.injEq, Option.some.injEq] at same
        exact ⟨put.record, challenges 0, plain, _, laid, same.1, encoded, same.2⟩
      · cases made
  | swapping swap current =>
      obtain ⟨plain, encoded, sent⟩ := send_eq documented laid challenges (swapped swap)
        fun object next => .replace swap.record.name
          { object with resourceVersion := some current.resourceVersion }
          current.resourceVersion next
      rw [await, replace, sent, Await.change] at made
      split at made
      · have same := (Server.replaceChange_eq_some made).2
        simp only [Prod.mk.injEq, Option.some.injEq] at same
        exact ⟨swap.record, challenges 0, plain, _, laid, same.1, encoded, same.2⟩
      · cases made
  | deleting | sweeping =>
      rw [await, Await.change] at made
      split at made
      · cases (Server.deleteChange_eq_some made).2
      · cases made
  | _ => cases made

/-- A list asks for a selector that names what it asks for. -/
theorem selector_of_list {c : ClientCall} (laid : c.1.Laid D.objectName)
    {asked : String × Option String} {next : Except RequestFailed ObjectList → ClientCall}
    (waits : D.await c = .list asked next) :
    ∃ selector : Selector, selector.Named ∧ asked.1 = selector.text := by
  have reads := reads_await documented laid
  rw [waits] at reads
  generalize sent : Kubernetes.await D.objectName c.1 = other at reads
  cases reads with
  | list same answers =>
      obtain ⟨c, challenges⟩ := c
      cases c with
      | listing pass selector report token =>
          cases sent
          exact ⟨selector, laid.1, congrArg Prod.fst same⟩
      | _ => cases sent

end Documented

/-- What the layout keeps of the store over meanings. -/
structure LayoutRefines (documented : D.lib.Documented) (lists : Lister) : Prop where
  /-- A run of the store as it is deployed is a run over meanings: its calls are asked the same,
  stand at the same points and return the same. -/
  runs : ∀ {server events s}, D.machine.Runs D.machine.anyStep server events s →
    D.store.Runs D.store.anyStep (server.map D.meaning)
      (events.map (D.projection documented).event) ((D.projection documented).state s)
  /-- What is written is the object for a record of a valid key: an API server accepts it, it
  means the record, and it is read back as the record. -/
  written : ∀ {server events s}, D.machine.Runs D.machine.anyStep server events s →
    ∀ e ∈ events, ∀ name object, e.change = some (name, some object) →
      ∃ record : NewRecord (List UInt8), record.Writable D.objectName ∧ name = record.name ∧
        Accepted D.mapping D.home name object ∧ D.meaning object = encode record ∧
        ∀ version, D.mapping.decode D.lib (delivered name ⟨version, object⟩) =
          .ok ⟨name, version, record.value, record.expiresAtMs⟩
  /-- What is asked for is listed by its meaning, whoever wrote it. -/
  asked : ∀ {server events s}, D.machine.Runs D.machine.anyStep server events s →
    ∀ t ∈ s.threads, ∀ asked next, D.await t.call = .list asked next →
      ∃ selector : Selector, asked.1 = selector.text ∧ ∀ object : DynamicObject,
        lists asked.1 (object.labels.getD []) = selector.lists (D.meaning object)

/-- Libraries that write and read just the times that the store writes. -/
def sampleLibraries : Libraries where
  strftime millis := (Moment.of millis).text
  parse text := (Wire.Calendar.parse text).map fun m => ↑m.instant
  debug name := name

theorem sampleLibraries_documented : sampleLibraries.Documented where
  prints m valid _ := congrArg Moment.text (Moment.of_instant valid)
  reads m valid small := by
    show (Wire.Calendar.parse m.text).map _ = _
    rw [Wire.Calendar.parse_text valid small]
    rfl

/-- A store that keeps its records among the codes of Dex. -/
def amongCodes : Deployed where
  mapping := .dexAuthCode
  home := "dex"
  sha256 _ := Codes.zeroBytes 32
  lib := sampleLibraries

end Deployed

end OAuthRelay.Kubernetes
