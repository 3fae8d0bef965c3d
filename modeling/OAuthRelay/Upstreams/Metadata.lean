import Mathlib.Data.List.Basic
import Mathlib.Logic.Function.Basic
import OAuthRelay.Async.Steps
import OAuthRelay.Config.Resources

/-!
# The documents of an upstream

The discovery document and the keys of an upstream are fetched and then served from a cache for
some time. The key of an entry names what the document is for and where it is from
(`cacheKey_injective`). Nothing keeps two calls from fetching the same document at once.

A discovery document that is only of interest for its optional members may be absent. An answer
that says so leaves a marker, and for a while nobody asks again. Any other failure says nothing
about the document and is not remembered.

The main results are about every run of such calls, in any order and with calls that are dropped.
What a call ends with comes from an answer to a request that the outbound policy agreed to
(`documents_are_vetted`). A document that has been stored is what all calls get until it expires,
or a newer one, also while a marker says that there is none (`stored_documents_win`).
-/

set_option autoImplicit false

namespace OAuthRelay.Upstreams

open Async.Steps (Event Runs replay)
open Config (Value)

/-! ## Requests -/

inductive OutboundPurpose where
  | discovery
  | jwks
  | tokenExchange
  | refresh
  | clientAssertionMetadata
  | clientAssertionJwks
  deriving DecidableEq

def OutboundPurpose.asStr : OutboundPurpose → String
  | discovery => "discovery"
  | jwks => "jwks"
  | tokenExchange => "token_exchange"
  | refresh => "refresh"
  | clientAssertionMetadata => "client_assertion_metadata"
  | clientAssertionJwks => "client_assertion_jwks"

def cacheKey (purpose : OutboundPurpose) (url : String) : String := purpose.asStr ++ "|" ++ url

/-- An answer to a request. -/
structure Response where
  /-- The URL it comes from. -/
  url : String
  status : ℕ
  /-- The body, if it arrives, and what it is as JSON. -/
  body : Option (Option Value)

/-- The second half of `send_checked`: an answer has to come from the URL that was asked, and be no
redirect. Without an answer there was a failure in transport, or a timeout. -/
def checkedResponse (url : String) (answer : Option Response) : Option Response :=
  answer.filter fun response =>
    response.url = url && !(300 ≤ response.status && response.status < 400)

inductive FetchFailure where
  | absent
  | unavailable
  deriving DecidableEq

/-- What `fetch_json_object` makes of the answer. -/
def documentOf (url : String) (answer : Option Response) : Except FetchFailure Value :=
  match checkedResponse url answer with
  | none => .error .unavailable
  | some response =>
      if response.status = 404 || response.status = 410 then .error .absent
      else if !(200 ≤ response.status && response.status < 300) then .error .unavailable
      else
        match response.body with
        | none => .error .unavailable
        | some (some (.object members)) => .ok (.object members)
        | some _ => .error .absent

/-! ## Calls -/

/-- `DISCOVERY_TTL`, in nanoseconds. -/
def discoveryTtl : ℕ := 60 * 60 * 10 ^ 9

/-- `JWKS_TTL`, in nanoseconds. -/
def jwksTtl : ℕ := 10 * 60 * 10 ^ 9

/-- `DISCOVERY_ABSENT_COOLDOWN`, in nanoseconds. -/
def discoveryAbsentCooldown : ℕ := 30 * 10 ^ 9

/-- What a call is for. -/
inductive Ask where
  /-- `cached_json`. -/
  | cachedJson (purpose : OutboundPurpose) (url : String) (ttl : ℕ)
  /-- `optional_discovery`, of the URL of the document. -/
  | optionalDiscovery (url : String)
  deriving DecidableEq

namespace Ask

def purpose : Ask → OutboundPurpose
  | cachedJson purpose _ _ => purpose
  | optionalDiscovery _ => .discovery

def url : Ask → String
  | cachedJson _ url _ => url
  | optionalDiscovery url => url

def ttl : Ask → ℕ
  | cachedJson _ _ ttl => ttl
  | optionalDiscovery _ => discoveryTtl

def key (ask : Ask) : String := cacheKey ask.purpose ask.url

end Ask

/-- Where a call is. -/
inductive Pc where
  | idle
  /-- It looks at the cache. -/
  | looking (ask : Ask)
  /-- It looks at the marker of a document that is absent. -/
  | atMarker (url : String)
  /-- It builds its request and asks the outbound policy about it. -/
  | asking (ask : Ask)
  | sending (ask : Ask)
  /-- It removes the marker. -/
  | unmarking (url : String) (doc : Value)
  | storing (ask : Ask) (doc : Value)
  | marking (url : String)
  /-- It returned: a document, or that there is none, or a status. -/
  | done (ask : Ask) (result : Except ℕ (Option Value))
  /-- The future was dropped. -/
  | dropped

/-- How far a call has come. -/
def Pc.rank : Pc → ℕ
  | idle => 0
  | looking _ => 1
  | atMarker _ => 2
  | asking _ => 3
  | sending _ => 4
  | unmarking _ _ => 5
  | storing _ _ | marking _ => 6
  | done _ _ | dropped => 7

/-- What can happen next. -/
inductive Label where
  | pass (duration : ℕ)
  | begin (call : ℕ) (ask : Ask)
  /-- The call takes a lock, and does what it wants it for. -/
  | lock (call : ℕ)
  /-- The request cannot be built. -/
  | unbuilt (call : ℕ)
  /-- Without a policy every request is allowed. -/
  | policy (call : ℕ) (allowed : Bool)
  | respond (call : ℕ) (answer : Option Response)
  | drop (call : ℕ)

/-- The call a label is about. -/
def Label.call : Label → Option ℕ
  | pass _ => none
  | begin i _ | lock i | unbuilt i | policy i _ | respond i _ | drop i => some i

/-- Instants are nanoseconds. -/
structure State where
  now : ℕ
  /-- The documents, with the times when they were fetched. -/
  cache : String → Option (ℕ × Value)
  /-- When a document was last found to be absent. -/
  absentDiscovery : String → Option ℕ
  calls : ℕ → Pc

namespace State

def initial (now : ℕ) : State := ⟨now, fun _ => none, fun _ => none, fun _ => .idle⟩

/-- A call goes on. -/
def goto (s : State) (i : ℕ) (pc : Pc) : State := { s with calls := Function.update s.calls i pc }

@[simp] theorem goto_calls_self (s : State) (i : ℕ) (pc : Pc) : (s.goto i pc).calls i = pc :=
  Function.update_self ..

def store (s : State) (key : String) (doc : Value) : State :=
  { s with cache := Function.update s.cache key (some (s.now, doc)) }

def setMarker (s : State) (key : String) (marker : Option ℕ) : State :=
  { s with absentDiscovery := Function.update s.absentDiscovery key marker }

/-- The cached document, if it has not expired. -/
def cached (s : State) (ask : Ask) : Option Value :=
  ((s.cache ask.key).filter fun entry => decide (s.now - entry.1 < ask.ttl)).map Prod.snd

/-- The document was absent not long ago. -/
def cooling (s : State) (url : String) : Bool :=
  (s.absentDiscovery (cacheKey .discovery url)).any fun since =>
    decide (s.now - since < discoveryAbsentCooldown)

/-- Where a call goes when there is no document to serve. -/
def miss : Ask → Pc
  | .cachedJson purpose url ttl => .asking (.cachedJson purpose url ttl)
  | .optionalDiscovery url => .atMarker url

/-- Where a call goes with what it fetched. -/
def fetched (ask : Ask) (outcome : Except FetchFailure Value) : Pc :=
  match ask, outcome with
  | .optionalDiscovery url, .ok doc => .unmarking url doc
  | .optionalDiscovery url, .error .absent => .marking url
  | .cachedJson _ _ _, .ok doc => .storing ask doc
  | _, .error _ => .done ask (.error 502)

/-- What a call does with a lock. -/
def locked (s : State) (i : ℕ) : Option State :=
  match s.calls i with
  | .looking ask =>
      match s.cached ask with
      | some doc => some (s.goto i (.done ask (.ok (some doc))))
      | none => some (s.goto i (miss ask))
  | .atMarker url =>
      if s.cooling url then some (s.goto i (.done (.optionalDiscovery url) (.ok none)))
      else some (s.goto i (.asking (.optionalDiscovery url)))
  | .unmarking url doc =>
      some ((s.setMarker (cacheKey .discovery url) none).goto i
        (.storing (.optionalDiscovery url) doc))
  | .storing ask doc => some ((s.store ask.key doc).goto i (.done ask (.ok (some doc))))
  | .marking url =>
      some ((s.setMarker (cacheKey .discovery url) (some s.now)).goto i
        (.done (.optionalDiscovery url) (.ok none)))
  | _ => none

/-- `cached_json_with_client` and `optional_discovery`, from one point where they wait to the
next. -/
def step (s : State) : Label → Option State
  | .pass duration => some { s with now := s.now + duration }
  | .begin i ask =>
      match s.calls i with
      | .idle => some (s.goto i (.looking ask))
      | _ => none
  | .lock i => s.locked i
  | .unbuilt i =>
      match s.calls i with
      | .asking ask => some (s.goto i (.done ask (.error 502)))
      | _ => none
  | .policy i allowed =>
      match s.calls i with
      | .asking ask => some (s.goto i (if allowed then .sending ask else .done ask (.error 502)))
      | _ => none
  | .respond i answer =>
      match s.calls i with
      | .sending ask => some (s.goto i (fetched ask (documentOf ask.url answer)))
      | _ => none
  | .drop i =>
      match s.calls i with
      | .idle | .done _ _ | .dropped => none
      | _ => some (s.goto i .dropped)

end State

/-- Any run from a time when nothing was fetched. -/
abbrev Calls (start : ℕ) (events : List (Event State Label)) (s : State) : Prop :=
  Runs State.step (fun _ _ _ => True) (.initial start) events s

/-! ## What answers say -/

/-- The answer is a document: it comes from the URL, and its body is an object. -/
structure Delivers (url : String) (answer : Option Response) (doc : Value) : Prop where
  delivered : ∃ response members, answer = some response ∧ response.url = url ∧
    200 ≤ response.status ∧ response.status < 300 ∧
    response.body = some (some (.object members)) ∧ doc = .object members

/-- The answer says that there is no document: it comes from the URL, and is not found, or its
body is no object. -/
structure ShowsAbsence (url : String) (answer : Option Response) : Prop where
  shown : ∃ response, answer = some response ∧ response.url = url ∧
    (response.status = 404 ∨ response.status = 410 ∨
      200 ≤ response.status ∧ response.status < 300 ∧
        ∃ json, response.body = some json ∧ ∀ members, json ≠ some (.object members))

theorem checkedResponse_eq_some_iff {url : String} {answer : Option Response}
    {response : Response} : checkedResponse url answer = some response ↔
      answer = some response ∧ response.url = url ∧
        ¬ (300 ≤ response.status ∧ response.status < 400) := by
  simp only [checkedResponse, Option.filter_eq_some_iff, Bool.and_eq_true, decide_eq_true_eq,
    Bool.not_eq_true', Bool.and_eq_false_iff, decide_eq_false_iff_not, not_and_or]

/-- **A document is an object from the URL that was asked, and no redirect led to it.** -/
theorem documentOf_eq_ok_iff {url : String} {answer : Option Response} {doc : Value} :
    documentOf url answer = .ok doc ↔ Delivers url answer doc := by
  constructor
  · intro read
    unfold documentOf at read
    split at read
    · cases read
    · rename_i response checked
      obtain ⟨rfl, here, _⟩ := checkedResponse_eq_some_iff.mp checked
      split at read
      · cases read
      · split at read
        · cases read
        · rename_i success
          simp only [Bool.not_eq_true', Bool.not_eq_false, Bool.and_eq_true,
            decide_eq_true_eq] at success
          split at read
          · cases read
          · rename_i members body
            cases read
            exact ⟨response, members, rfl, here, success.1, success.2, body, rfl⟩
          · cases read
  · rintro ⟨response, members, rfl, here, low, high, body, rfl⟩
    have checked : checkedResponse url (some response) = some response :=
      checkedResponse_eq_some_iff.mpr ⟨rfl, here, by omega⟩
    simp only [documentOf, checked, body]
    rw [if_neg (by simp; omega), if_neg (by simp [low, high])]

/-- **A document is absent when the URL itself says so.** -/
theorem documentOf_eq_absent_iff {url : String} {answer : Option Response} :
    documentOf url answer = .error .absent ↔ ShowsAbsence url answer := by
  constructor
  · intro read
    unfold documentOf at read
    split at read
    · cases read
    · rename_i response checked
      obtain ⟨rfl, here, _⟩ := checkedResponse_eq_some_iff.mp checked
      split at read
      · rename_i gone
        simp only [Bool.or_eq_true, decide_eq_true_eq] at gone
        exact ⟨response, rfl, here, gone.imp_right .inl⟩
      · split at read
        · cases read
        · rename_i success
          simp only [Bool.not_eq_true', Bool.not_eq_false, Bool.and_eq_true,
            decide_eq_true_eq] at success
          split at read
          · cases read
          · cases read
          · rename_i json other body
            refine ⟨response, rfl, here, .inr (.inr ⟨success.1, success.2, json, body, ?_⟩)⟩
            rintro members rfl
            exact other members rfl
  · rintro ⟨response, rfl, here, shown⟩
    have checked : checkedResponse url (some response) = some response :=
      checkedResponse_eq_some_iff.mpr ⟨rfl, here, by omega⟩
    simp only [documentOf, checked]
    rcases shown with gone | gone | ⟨low, high, json, body, other⟩
    · rw [if_pos (by simp [gone])]
    · rw [if_pos (by simp [gone])]
    · rw [if_neg (by simp; omega), if_neg (by simp [low, high]), body]
      split
      · rename_i none
        cases none
      · rename_i members same
        exact absurd (Option.some.inj same) (other members)
      · rfl

theorem cacheKey_injective {purpose purpose' : OutboundPurpose} {url url' : String} :
    cacheKey purpose url = cacheKey purpose' url' ↔ purpose = purpose' ∧ url = url' := by
  constructor
  · intro same
    obtain rfl : purpose = purpose' := by
      have plain (purpose : OutboundPurpose) (url : String) :
          (cacheKey purpose url).toList.takeWhile (· ≠ '|') = purpose.asStr.toList := by
        rw [cacheKey, String.toList_append, String.toList_append, List.append_assoc,
          List.takeWhile_append_of_pos (by cases purpose <;> decide)]
        simp
      have names : purpose.asStr.toList = purpose'.asStr.toList := by
        rw [← plain purpose url, same, plain purpose' url']
      revert names
      cases purpose <;> cases purpose' <;> decide
    exact ⟨rfl, (String.append_right_inj _).mp same⟩
  · rintro ⟨rfl, rfl⟩
    rfl

/-! ## What a step can do -/

/-- The steps of a run, one by one. -/
inductive Takes (s : State) : Label → State → Prop where
  | passes (duration : ℕ) : Takes s (.pass duration) { s with now := s.now + duration }
  | begins {i : ℕ} {ask : Ask} (stands : s.calls i = .idle) :
      Takes s (.begin i ask) (s.goto i (.looking ask))
  | serves {i : ℕ} {ask : Ask} {doc : Value} (stands : s.calls i = .looking ask)
      (hit : s.cached ask = some doc) :
      Takes s (.lock i) (s.goto i (.done ask (.ok (some doc))))
  | misses {i : ℕ} {ask : Ask} (stands : s.calls i = .looking ask) (none : s.cached ask = none) :
      Takes s (.lock i) (s.goto i (State.miss ask))
  | cools {i : ℕ} {url : String} (stands : s.calls i = .atMarker url)
      (cooling : s.cooling url = true) :
      Takes s (.lock i) (s.goto i (.done (.optionalDiscovery url) (.ok none)))
  | goesOn {i : ℕ} {url : String} (stands : s.calls i = .atMarker url)
      (ended : s.cooling url = false) :
      Takes s (.lock i) (s.goto i (.asking (.optionalDiscovery url)))
  | unmarks {i : ℕ} {url : String} {doc : Value} (stands : s.calls i = .unmarking url doc) :
      Takes s (.lock i) ((s.setMarker (cacheKey .discovery url) none).goto i
        (.storing (.optionalDiscovery url) doc))
  | stores {i : ℕ} {ask : Ask} {doc : Value} (stands : s.calls i = .storing ask doc) :
      Takes s (.lock i) ((s.store ask.key doc).goto i (.done ask (.ok (some doc))))
  | marks {i : ℕ} {url : String} (stands : s.calls i = .marking url) :
      Takes s (.lock i) ((s.setMarker (cacheKey .discovery url) (some s.now)).goto i
        (.done (.optionalDiscovery url) (.ok none)))
  | unbuilt {i : ℕ} {ask : Ask} (stands : s.calls i = .asking ask) :
      Takes s (.unbuilt i) (s.goto i (.done ask (.error 502)))
  | sends {i : ℕ} {ask : Ask} (stands : s.calls i = .asking ask) :
      Takes s (.policy i true) (s.goto i (.sending ask))
  | denied {i : ℕ} {ask : Ask} (stands : s.calls i = .asking ask) :
      Takes s (.policy i false) (s.goto i (.done ask (.error 502)))
  | receives {i : ℕ} {answer : Option Response} {ask : Ask} (stands : s.calls i = .sending ask) :
      Takes s (.respond i answer) (s.goto i (State.fetched ask (documentOf ask.url answer)))
  | leaves {i : ℕ} (stands : (s.calls i).rank < 7) (begun : 0 < (s.calls i).rank) :
      Takes s (.drop i) (s.goto i .dropped)

theorem takes_of_step {s s' : State} {label : Label} (taken : s.step label = some s') :
    Takes s label s' := by
  cases label with
  | pass duration =>
      cases taken
      exact .passes duration
  | begin i ask =>
      simp only [State.step] at taken
      split at taken
      · rename_i stands
        cases taken
        exact .begins stands
      · cases taken
  | lock i =>
      simp only [State.step, State.locked] at taken
      split at taken
      · rename_i ask stands
        split at taken
        · rename_i doc hit
          cases taken
          exact .serves stands hit
        · rename_i none
          cases taken
          exact .misses stands none
      · rename_i url stands
        split at taken
        · rename_i cooling
          cases taken
          exact .cools stands cooling
        · rename_i ended
          cases taken
          exact .goesOn stands (Bool.eq_false_iff.mpr ended)
      · rename_i stands
        cases taken
        exact .unmarks stands
      · rename_i stands
        cases taken
        exact .stores stands
      · rename_i stands
        cases taken
        exact .marks stands
      · cases taken
  | unbuilt i =>
      simp only [State.step] at taken
      split at taken
      · rename_i stands
        cases taken
        exact .unbuilt stands
      · cases taken
  | policy i allowed =>
      simp only [State.step] at taken
      split at taken
      · rename_i stands
        cases allowed with
        | true =>
            cases taken
            exact .sends stands
        | false =>
            cases taken
            exact .denied stands
      · cases taken
  | respond i answer =>
      simp only [State.step] at taken
      split at taken
      · rename_i stands
        cases taken
        exact .receives stands
      · cases taken
  | drop i =>
      simp only [State.step] at taken
      split at taken
      · cases taken
      · cases taken
      · cases taken
      · rename_i fresh unfinished left
        cases taken
        refine .leaves ?_ ?_
        all_goals cases stands : s.calls i <;> simp_all [Pc.rank]

/-- The calls that a step leaves where they are. -/
theorem Takes.calls {s s' : State} {label : Label} (takes : Takes s label s') {i : ℕ}
    (other : label.call ≠ some i) : s'.calls i = s.calls i := by
  cases takes with
  | passes => rfl
  | _ => exact Function.update_of_ne (fun same => other (congrArg some same.symm)) ..

theorem rank_miss (ask : Ask) : 1 < (State.miss ask).rank := by
  cases ask <;> simp [State.miss, Pc.rank]

theorem rank_fetched (ask : Ask) (outcome : Except FetchFailure Value) :
    4 < (State.fetched ask outcome).rank := by
  rcases ask with _ | _ <;> rcases outcome with (_ | _) | _
  all_goals simp [State.fetched, Pc.rank]

/-- **A call goes forward.** -/
theorem Takes.rank_lt {s s' : State} {label : Label} (takes : Takes s label s') {i : ℕ}
    (own : label.call = some i) : (s.calls i).rank < (s'.calls i).rank := by
  cases takes with
  | passes => cases own
  | leaves stands =>
      cases own
      simpa [State.goto, Pc.rank] using stands
  | misses stands =>
      cases own
      simpa [State.goto, stands, Pc.rank] using rank_miss _
  | receives stands =>
      cases own
      simpa [State.goto, stands, Pc.rank] using rank_fetched _ _
  | _ stands =>
      cases own
      simp [State.goto, Pc.rank, stands]

theorem Takes.rank_le {s s' : State} {label : Label} (takes : Takes s label s') (i : ℕ) :
    (s.calls i).rank ≤ (s'.calls i).rank := by
  by_cases own : label.call = some i
  · exact Nat.le_of_lt (takes.rank_lt own)
  · rw [takes.calls own]

/-! ## What happened in a run -/

/-- The outbound policy agrees to the request of the call. -/
def Permits (e : Event State Label) (i : ℕ) (ask : Ask) : Prop :=
  e.label = .policy i true ∧ e.before.calls i = .asking ask

/-- The call is answered so. -/
def Answers (e : Event State Label) (i : ℕ) (ask : Ask) (answer : Option Response) : Prop :=
  e.label = .respond i answer ∧ e.before.calls i = .sending ask

/-- The call has been answered so, after the policy agreed. -/
structure Answered (events : List (Event State Label)) (i : ℕ) (ask : Ask)
    (answer : Option Response) : Prop where
  vetted : ∃ later e earlier, events = later ++ e :: earlier ∧ Answers e i ask answer ∧
    ∃ e' ∈ earlier, Permits e' i ask

/-- The call puts the document into the cache. -/
def Stores (e : Event State Label) (i : ℕ) (ask : Ask) (doc : Value) : Prop :=
  e.label = .lock i ∧ e.before.calls i = .storing ask doc

/-- The call sets the marker. -/
def Marks (e : Event State Label) (i : ℕ) (url : String) : Prop :=
  e.label = .lock i ∧ e.before.calls i = .marking url

/-- The document was put into the cache at this time. It is what the call was answered. -/
structure Stored (events : List (Event State Label)) (i : ℕ) (ask : Ask) (doc : Value)
    (time : ℕ) : Prop where
  stored : ∃ later e earlier, events = later ++ e :: earlier ∧ Stores e i ask doc ∧
    e.before.now = time
  fetched : ∃ answer, Answered events i ask answer ∧ Delivers ask.url answer doc

/-- The marker was set at this time. The call was answered that the document is absent. -/
structure Marked (events : List (Event State Label)) (i : ℕ) (url : String) (time : ℕ) :
    Prop where
  marked : ∃ later e earlier, events = later ++ e :: earlier ∧ Marks e i url ∧
    e.before.now = time
  shown : ∃ answer, Answered events i (.optionalDiscovery url) answer ∧ ShowsAbsence url answer

theorem Answered.mono {events : List (Event State Label)} {i : ℕ} {ask : Ask}
    {answer : Option Response} (answered : Answered events i ask answer)
    (more : List (Event State Label)) : Answered (more ++ events) i ask answer := by
  obtain ⟨later, e, earlier, rfl, rest⟩ := answered
  exact ⟨more ++ later, e, earlier, (List.append_assoc ..).symm, rest⟩

theorem Stored.mono {events : List (Event State Label)} {i : ℕ} {ask : Ask} {doc : Value}
    {time : ℕ} (stored : Stored events i ask doc time) (more : List (Event State Label)) :
    Stored (more ++ events) i ask doc time := by
  obtain ⟨⟨later, e, earlier, rfl, rest⟩, answer, answered, delivers⟩ := stored
  exact ⟨⟨more ++ later, e, earlier, (List.append_assoc ..).symm, rest⟩, answer,
    answered.mono more, delivers⟩

theorem Marked.mono {events : List (Event State Label)} {i : ℕ} {url : String} {time : ℕ}
    (marked : Marked events i url time) (more : List (Event State Label)) :
    Marked (more ++ events) i url time := by
  obtain ⟨⟨later, e, earlier, rfl, rest⟩, answer, answered, shows⟩ := marked
  exact ⟨⟨more ++ later, e, earlier, (List.append_assoc ..).symm, rest⟩, answer,
    answered.mono more, shows⟩

/-! ## What a run keeps -/

/-- What is so at each point of a call. -/
def Pc.Fits (events : List (Event State Label)) (i : ℕ) : Pc → Prop
  | sending ask => ∃ e ∈ events, Permits e i ask
  | unmarking url doc => ∃ answer, Answered events i (.optionalDiscovery url) answer ∧
      Delivers url answer doc
  | storing ask doc => ∃ answer, Answered events i ask answer ∧ Delivers ask.url answer doc
  | marking url => ∃ answer, Answered events i (.optionalDiscovery url) answer ∧
      ShowsAbsence url answer
  | _ => True

theorem Pc.Fits.mono {events : List (Event State Label)} {i : ℕ} {pc : Pc}
    (fits : pc.Fits events i) (e : Event State Label) : pc.Fits (e :: events) i := by
  cases pc with
  | sending ask =>
      obtain ⟨e₀, member, permits⟩ := fits
      exact ⟨e₀, List.mem_cons_of_mem _ member, permits⟩
  | unmarking | storing | marking =>
      obtain ⟨answer, answered, shown⟩ := fits
      exact ⟨answer, answered.mono [e], shown⟩
  | _ => trivial

/-- What is in the caches has come there from answers. -/
structure Sourced (events : List (Event State Label)) (s : State) : Prop where
  fits : ∀ i, (s.calls i).Fits events i
  cache : ∀ key time doc, s.cache key = some (time, doc) →
    ∃ i ask, ask.key = key ∧ Stored events i ask doc time
  absentDiscovery : ∀ key time, s.absentDiscovery key = some time →
    ∃ i url, cacheKey .discovery url = key ∧ Marked events i url time

theorem Sourced.initial (start : ℕ) : Sourced [] (.initial start) :=
  ⟨fun _ => trivial, nofun, nofun⟩

namespace Sourced

variable {events : List (Event State Label)} {s s' : State} {label : Label}

/-- What a call is answered leads it on. -/
theorem fits_fetched {i : ℕ} {ask : Ask} {answer : Option Response}
    (answered : Answered events i ask answer) :
    (State.fetched ask (documentOf ask.url answer)).Fits events i := by
  cases outcome : documentOf ask.url answer with
  | ok doc =>
      have delivers := documentOf_eq_ok_iff.mp outcome
      cases ask with
      | cachedJson => exact ⟨answer, answered, delivers⟩
      | optionalDiscovery => exact ⟨answer, answered, delivers⟩
  | error failure =>
      cases failure with
      | unavailable => cases ask <;> trivial
      | absent =>
          cases ask with
          | cachedJson => trivial
          | optionalDiscovery => exact ⟨answer, answered, documentOf_eq_absent_iff.mp outcome⟩

theorem fits_step (sourced : Sourced events s) (takes : Takes s label s') (i : ℕ) :
    (s'.calls i).Fits (⟨s, label, s'⟩ :: events) i := by
  by_cases own : label.call = some i
  · have fits := (sourced.fits i).mono ⟨s, label, s'⟩
    cases takes with
    | passes => cases own
    | sends stands =>
        cases own
        rw [State.goto_calls_self]
        exact ⟨_, List.mem_cons_self .., rfl, stands⟩
    | @receives i answer ask stands =>
        cases own
        rw [State.goto_calls_self]
        refine fits_fetched ⟨[], _, events, rfl, ⟨rfl, stands⟩, ?_⟩
        have permitted := sourced.fits i
        rwa [stands] at permitted
    | unmarks stands =>
        cases own
        rw [stands] at fits
        rw [State.goto_calls_self]
        exact fits
    | @misses _ ask =>
        cases own
        rw [State.goto_calls_self]
        cases ask <;> trivial
    | _ =>
        cases own
        rw [State.goto_calls_self]
        trivial
  · rw [takes.calls own]
    exact (sourced.fits i).mono _

theorem cache_step (sourced : Sourced events s) (takes : Takes s label s') {key : String}
    {time : ℕ} {doc : Value} (there : s'.cache key = some (time, doc)) :
    ∃ i ask, ask.key = key ∧ Stored (⟨s, label, s'⟩ :: events) i ask doc time := by
  have before (same : s.cache key = some (time, doc)) : ∃ i ask, ask.key = key ∧
      Stored (⟨s, label, s'⟩ :: events) i ask doc time := by
    obtain ⟨i, ask, key, stored⟩ := sourced.cache key time doc same
    exact ⟨i, ask, key, stored.mono [_]⟩
  cases takes with
  | @stores i ask doc' stands =>
      simp only [State.goto, State.store, Function.update_apply] at there
      split at there
      · rename_i same
        cases there
        have fits := sourced.fits i
        rw [stands] at fits
        obtain ⟨answer, answered, delivers⟩ := fits
        exact ⟨i, ask, same.symm, ⟨[], _, events, rfl, ⟨rfl, stands⟩, rfl⟩, answer,
          answered.mono [_], delivers⟩
      · exact before there
  | _ => exact before there

theorem absentDiscovery_step (sourced : Sourced events s) (takes : Takes s label s')
    {key : String} {time : ℕ} (there : s'.absentDiscovery key = some time) :
    ∃ i url, cacheKey .discovery url = key ∧ Marked (⟨s, label, s'⟩ :: events) i url time := by
  have before (same : s.absentDiscovery key = some time) : ∃ i url,
      cacheKey .discovery url = key ∧ Marked (⟨s, label, s'⟩ :: events) i url time := by
    obtain ⟨i, url, key, marked⟩ := sourced.absentDiscovery key time same
    exact ⟨i, url, key, marked.mono [_]⟩
  cases takes with
  | @marks i url stands =>
      simp only [State.goto, State.setMarker, Function.update_apply] at there
      split at there
      · rename_i same
        cases there
        have fits := sourced.fits i
        rw [stands] at fits
        obtain ⟨answer, answered, shows⟩ := fits
        exact ⟨i, url, same.symm, ⟨[], _, events, rfl, ⟨rfl, stands⟩, rfl⟩, answer,
          answered.mono [_], shows⟩
      · exact before there
  | unmarks stands =>
      simp only [State.goto, State.setMarker, Function.update_apply] at there
      split at there
      · cases there
      · exact before there
  | _ => exact before there

theorem step (sourced : Sourced events s) (takes : Takes s label s') :
    Sourced (⟨s, label, s'⟩ :: events) s' where
  fits := sourced.fits_step takes
  cache _ _ _ there := sourced.cache_step takes there
  absentDiscovery _ _ there := sourced.absentDiscovery_step takes there

end Sourced

theorem sourced_of_calls {start : ℕ} {events : List (Event State Label)} {s : State}
    (run : Calls start events s) : Sourced events s :=
  run.invariant (.initial start) fun _ _ _ _ _ _ taken sourced =>
    sourced.step (takes_of_step taken)

/-! ## What a call ends with -/

/-- The call returns this. -/
def Ends (e : Event State Label) (i : ℕ) (ask : Ask) (result : Except ℕ (Option Value)) : Prop :=
  e.label.call = some i ∧ e.after.calls i = .done ask result

/-- What the result of a call rests on. -/
inductive Grounds (e : Event State Label) (earlier : List (Event State Label)) (i : ℕ) (ask : Ask) :
    Except ℕ (Option Value) → Prop
  /-- A document that has been fetched for the same purpose from the same URL, not long ago. -/
  | cached {j : ℕ} {ask' : Ask} {doc : Value} {time : ℕ} (purpose : ask'.purpose = ask.purpose)
      (url : ask'.url = ask.url) (stored : Stored earlier j ask' doc time)
      (fresh : e.before.now - time < ask.ttl) : Grounds e earlier i ask (.ok (some doc))
  | fetched {answer : Option Response} {doc : Value} (answered : Answered earlier i ask answer)
      (delivers : Delivers ask.url answer doc) : Grounds e earlier i ask (.ok (some doc))
  | remembered {j time : ℕ} {url : String} (optional : ask = .optionalDiscovery url)
      (marked : Marked earlier j url time)
      (recent : e.before.now - time < discoveryAbsentCooldown) : Grounds e earlier i ask (.ok none)
  | absent {url : String} {answer : Option Response} (optional : ask = .optionalDiscovery url)
      (answered : Answered earlier i ask answer) (shows : ShowsAbsence url answer) :
      Grounds e earlier i ask (.ok none)
  /-- No request was sent. -/
  | unsent (stopped : e.label = .unbuilt i ∨ e.label = .policy i false) :
      Grounds e earlier i ask (.error 502)
  /-- The answer is no document, and no absence that the call could do with. -/
  | unavailable {answer : Option Response} (answered : Answered (e :: earlier) i ask answer)
      (fails : ∀ doc, ¬ Delivers ask.url answer doc)
      (unknown : ∀ url, ask = .optionalDiscovery url → ¬ ShowsAbsence url answer) :
      Grounds e earlier i ask (.error 502)

/-- A call that returns what it is answered returns a failure. -/
theorem fetched_eq_done {ask ask' : Ask} {outcome : Except FetchFailure Value}
    {result : Except ℕ (Option Value)} (returned : State.fetched ask outcome = .done ask' result) :
    ask = ask' ∧ result = .error 502 ∧ (∀ doc, outcome ≠ .ok doc) ∧
      ∀ url, ask = .optionalDiscovery url → outcome ≠ .error .absent := by
  rcases ask with _ | _ <;> rcases outcome with (_ | _) | _ <;> cases returned
  all_goals exact ⟨rfl, rfl, nofun, by simp⟩

section Results

variable {start : ℕ} {events later earlier : List (Event State Label)} {s s' : State}
  {label : Label} {i : ℕ} {ask : Ask}

theorem Sourced.grounds (sourced : Sourced earlier s) (takes : Takes s label s')
    {result : Except ℕ (Option Value)} (ends : Ends ⟨s, label, s'⟩ i ask result) :
    Grounds ⟨s, label, s'⟩ earlier i ask result := by
  obtain ⟨own, returned⟩ := ends
  have fits := sourced.fits i
  cases takes with
  | passes => cases own
  | begins | goesOn | unmarks | sends | leaves =>
      cases own
      rw [State.goto_calls_self] at returned
      cases returned
  | @misses _ ask' =>
      cases own
      rw [State.goto_calls_self] at returned
      cases ask' <;> cases returned
  | serves stands hit =>
      cases own
      rw [State.goto_calls_self] at returned
      cases returned
      obtain ⟨⟨time, doc⟩, there, rfl⟩ := Option.map_eq_some_iff.mp hit
      obtain ⟨there, fresh⟩ := Option.filter_eq_some_iff.mp there
      obtain ⟨j, ask', same, stored⟩ := sourced.cache _ _ _ there
      obtain ⟨purpose, url⟩ := cacheKey_injective.mp same
      exact .cached purpose url stored (of_decide_eq_true fresh)
  | cools stands cooling =>
      cases own
      rw [State.goto_calls_self] at returned
      cases returned
      obtain ⟨time, there, recent⟩ := (Option.any_eq_true _ _).mp cooling
      obtain ⟨j, url, same, marked⟩ := sourced.absentDiscovery _ _ there
      obtain ⟨-, rfl⟩ := cacheKey_injective.mp same
      exact .remembered rfl marked (of_decide_eq_true recent)
  | stores stands =>
      cases own
      rw [State.goto_calls_self] at returned
      cases returned
      rw [stands] at fits
      obtain ⟨answer, answered, delivers⟩ := fits
      exact .fetched answered delivers
  | marks stands =>
      cases own
      rw [State.goto_calls_self] at returned
      cases returned
      rw [stands] at fits
      obtain ⟨answer, answered, shows⟩ := fits
      exact .absent rfl answered shows
  | unbuilt stands =>
      cases own
      rw [State.goto_calls_self] at returned
      cases returned
      exact .unsent (.inl rfl)
  | denied stands =>
      cases own
      rw [State.goto_calls_self] at returned
      cases returned
      exact .unsent (.inr rfl)
  | @receives i answer ask' stands =>
      cases own
      rw [State.goto_calls_self] at returned
      rw [stands] at fits
      obtain ⟨rfl, rfl, fails, unknown⟩ := fetched_eq_done returned
      have answered (s' : State) : Answered (⟨s, .respond i answer, s'⟩ :: earlier) i ask' answer :=
        ⟨[], _, earlier, rfl, ⟨rfl, stands⟩, fits⟩
      refine .unavailable (answered _) ?_ ?_
      · exact fun doc delivers => fails doc (documentOf_eq_ok_iff.mpr delivers)
      · rintro url rfl shows
        exact unknown url rfl (documentOf_eq_absent_iff.mpr shows)

/-- **What a call ends with comes from an answer that was vetted.** -/
theorem documents_are_vetted (run : Calls start events s) (later : List (Event State Label))
    (e : Event State Label) (earlier : List (Event State Label))
    (split : events = later ++ e :: earlier) (i : ℕ) (ask : Ask)
    (result : Except ℕ (Option Value)) (ends : Ends e i ask result) :
    Grounds e earlier i ask result := by
  subst split
  obtain ⟨_, run'⟩ := run.earlier
  obtain ⟨before, _, taken, _⟩ := run'.last
  exact (sourced_of_calls before).grounds (takes_of_step taken) ends

/-! ## What is remembered -/

/-- Later states have later times, and in the place of a document the same or a newer one. -/
structure Newer (s s' : State) : Prop where
  now : s.now ≤ s'.now
  cache : ∀ key time doc, s.cache key = some (time, doc) →
    ∃ time' doc', s'.cache key = some (time', doc') ∧ time ≤ time'

theorem past_of_calls (run : Calls start events s) {key : String} {time : ℕ} {doc : Value}
    (there : s.cache key = some (time, doc)) : time ≤ s.now := by
  have past : ∀ key time doc, s.cache key = some (time, doc) → time ≤ s.now := by
    refine run.invariant
      (I := fun _ s => ∀ key time doc, s.cache key = some (time, doc) → time ≤ s.now) nofun
      fun _ s label s' _ _ taken past => ?_
    intro key time doc there
    cases takes_of_step taken with
    | passes => exact Nat.le_trans (past key time doc there) (Nat.le_add_right ..)
    | stores =>
        simp only [State.goto, State.store, Function.update_apply] at there
        split at there
        · cases there
          exact Nat.le_refl _
        · exact past key time doc there
    | _ => exact past key time doc there
  exact past key time doc there

theorem newer_of_takes (past : ∀ key time doc, s.cache key = some (time, doc) → time ≤ s.now)
    (takes : Takes s label s') : Newer s s' := by
  have same (now : s.now ≤ s'.now) (cache : s'.cache = s.cache) : Newer s s' :=
    ⟨now, fun _ time doc there => ⟨time, doc, cache ▸ there, Nat.le_refl _⟩⟩
  cases takes with
  | passes => exact same (Nat.le_add_right ..) rfl
  | @stores i ask doc stands =>
      refine ⟨Nat.le_refl _, fun key time doc' there => ?_⟩
      by_cases here : key = ask.key
      · subst here
        exact ⟨s.now, doc, Function.update_self .., past _ _ _ there⟩
      · exact ⟨time, doc', (Function.update_of_ne here ..).trans there, Nat.le_refl _⟩
  | _ => exact same (Nat.le_refl _) rfl

/-- What comes later in a run is newer. -/
theorem newer_between {e e' : Event State Label} (run : Calls start (later ++ e :: earlier) s)
    (member : e' ∈ later) : Newer e.after e'.before := by
  refine run.related_between (fun s => ⟨Nat.le_refl _, fun _ _ _ there => ⟨_, _, there, le_rfl⟩⟩)
    (fun s₁ s₂ s₃ first second => ⟨Nat.le_trans first.now second.now, fun key time doc there => ?_⟩)
    (fun _ _ _ _ before _ taken => newer_of_takes (fun _ _ _ => past_of_calls before)
      (takes_of_step taken)) member
  obtain ⟨time', doc', there', older⟩ := first.cache key time doc there
  obtain ⟨time'', doc'', there'', older'⟩ := second.cache key time' doc' there'
  exact ⟨time'', doc'', there'', Nat.le_trans older older'⟩

/-- A call that returned from a cache had no request. -/
theorem not_permits {e : Event State Label} (run : Calls start (later ++ e :: earlier) s)
    (early : (e.before.calls i).rank < 3) (ended : (e.after.calls i).rank = 7)
    {e' : Event State Label} (member : e' ∈ later ++ e :: earlier) (ask : Ask) :
    ¬ Permits e' i ask := by
  rintro ⟨allowed, stands⟩
  have rank : (e'.before.calls i).rank = 3 := by
    rw [stands]
    rfl
  obtain ⟨_, run'⟩ := run.earlier
  obtain ⟨before, _, taken, _⟩ := run'.last
  have forward {s : State} {events : List (Event State Label)} (run : Calls start events s)
      {e : Event State Label} (member : e ∈ events) :
      (e.before.calls i).rank ≤ (s.calls i).rank :=
    run.related_before (r := fun s s' => (s.calls i).rank ≤ (s'.calls i).rank)
      (fun _ => Nat.le_refl _) (fun _ _ _ => Nat.le_trans)
      (fun _ _ _ _ _ _ taken => (takes_of_step taken).rank_le i) member
  rcases List.mem_append.mp member with newer | older
  · have onward := run.related_between (r := fun s s' => (s.calls i).rank ≤ (s'.calls i).rank)
      (fun _ => Nat.le_refl _) (fun _ _ _ => Nat.le_trans)
      (fun _ _ _ _ _ _ taken => (takes_of_step taken).rank_le i) newer
    omega
  · rcases List.mem_cons.mp older with rfl | oldest
    · omega
    · have onward := forward before oldest
      omega

/-- What calls get without asking anybody. -/
structure Remembered (events : List (Event State Label)) : Prop where
  /-- A document that was stored, or a newer one, is what a call gets that comes in time. -/
  document : ∀ later e earlier, events = later ++ e :: earlier → ∀ j ask doc, Stores e j ask doc →
    ∀ e' ∈ later, ∀ i ask', e'.label = .lock i → e'.before.calls i = .looking ask' →
      ask'.purpose = ask.purpose → ask'.url = ask.url →
      e'.before.now < e.before.now + ask'.ttl →
        (∃ doc', e'.after.calls i = .done ask' (.ok (some doc')) ∧
          ∃ k ask'' time, Stored events k ask'' doc' time ∧ e.before.now ≤ time ∧
            ask''.purpose = ask.purpose ∧ ask''.url = ask.url) ∧
        ∀ e'' ∈ events, ∀ ask'', ¬ Permits e'' i ask''
  /-- Where a document was found to be absent, and none was found since, no call that comes in
  time asks for it. -/
  absence : ∀ later e earlier, events = later ++ e :: earlier → ∀ j url, Marks e j url →
    ∀ newer e' between, later = newer ++ e' :: between →
      (∀ e'' ∈ between, ∀ k doc, e''.label = .lock k → e''.before.calls k ≠ .unmarking url doc) →
      ∀ i, e'.label = .lock i → e'.before.calls i = .atMarker url →
        e'.before.now < e.before.now + discoveryAbsentCooldown →
          e'.after.calls i = .done (.optionalDiscovery url) (.ok none) ∧
            ∀ e'' ∈ events, ∀ ask, ¬ Permits e'' i ask

theorem Takes.of_hit {doc : Value} (takes : Takes s (.lock i) s')
    (stands : s.calls i = .looking ask) (hit : s.cached ask = some doc) :
    s'.calls i = .done ask (.ok (some doc)) := by
  cases takes with
  | serves stands' hit' =>
      cases stands.symm.trans stands'
      cases hit.symm.trans hit'
      exact State.goto_calls_self ..
  | misses stands' none =>
      cases stands.symm.trans stands'
      cases hit.symm.trans none
  | cools stands' | goesOn stands' | unmarks stands' | stores stands' | marks stands' =>
      cases stands.symm.trans stands'

theorem Takes.of_cooling {url : String} (takes : Takes s (.lock i) s')
    (stands : s.calls i = .atMarker url) (cooling : s.cooling url = true) :
    s'.calls i = .done (.optionalDiscovery url) (.ok none) := by
  cases takes with
  | cools stands' =>
      cases stands.symm.trans stands'
      exact State.goto_calls_self ..
  | goesOn stands' ended =>
      cases stands.symm.trans stands'
      cases cooling.symm.trans ended
  | serves stands' | misses stands' | unmarks stands' | stores stands' | marks stands' =>
      cases stands.symm.trans stands'

/-- A document that was stored is there, or a newer one. -/
theorem cached_of_stores {e e' : Event State Label} {j : ℕ} {doc : Value}
    (run : Calls start (later ++ e :: earlier) s) (stores : Stores e j ask doc)
    (member : e' ∈ later) : ∃ time doc', e'.before.cache ask.key = some (time, doc') ∧
      e.before.now ≤ time := by
  obtain ⟨_, run'⟩ := run.earlier
  obtain ⟨_, _, taken, _⟩ := run'.last
  obtain ⟨called, stands⟩ := stores
  refine (newer_between run member).cache ask.key e.before.now doc ?_
  rw [called] at taken
  simp only [State.step, State.locked, stands, Option.some.injEq] at taken
  rw [← taken]
  exact Function.update_self ..

/-- A marker stays until a document is found. -/
theorem marker_of_marks {e : Event State Label} {j : ℕ} {url : String}
    {between : List (Event State Label)} (run : Calls start (between ++ e :: earlier) s)
    (marks : Marks e j url) (quiet : ∀ e'' ∈ between, ∀ k doc, e''.label = .lock k →
      e''.before.calls k ≠ .unmarking url doc) :
    e.before.now ≤ s.now ∧ ∃ time, s.absentDiscovery (cacheKey .discovery url) = some time ∧
      e.before.now ≤ time := by
  induction between generalizing s with
  | nil =>
      obtain ⟨_, _, taken, rfl⟩ := run.last
      obtain ⟨called, stands⟩ := marks
      rw [called] at taken
      simp only [State.step, State.locked, stands, Option.some.injEq] at taken
      rw [← taken]
      exact ⟨Nat.le_refl _, _, Function.update_self .., Nat.le_refl _⟩
  | cons e₁ between ih =>
      obtain ⟨before, _, taken, rfl⟩ := run.last
      obtain ⟨past, time, there, recent⟩ :=
        ih before fun e'' member => quiet e'' (List.mem_cons_of_mem _ member)
      have unmarked := quiet e₁ (List.mem_cons_self ..)
      obtain ⟨before', label, after'⟩ := e₁
      have takes : Takes before' label after' := takes_of_step taken
      dsimp only at past there unmarked ⊢
      cases takes with
      | passes => exact ⟨Nat.le_trans past (Nat.le_add_right ..), time, there, recent⟩
      | @unmarks k url' doc stands =>
          refine ⟨past, time, ?_, recent⟩
          refine (Function.update_of_ne (fun same => ?_) ..).trans there
          obtain ⟨-, rfl⟩ := cacheKey_injective.mp same
          exact unmarked k doc rfl stands
      | @marks k url' stands =>
          refine ⟨past, ?_⟩
          by_cases same : cacheKey .discovery url = cacheKey .discovery url'
          · rw [same]
            exact ⟨_, Function.update_self .., past⟩
          · exact ⟨time, (Function.update_of_ne same ..).trans there, recent⟩
      | _ => exact ⟨past, time, there, recent⟩

/-- **What was stored is what all calls get while it is fresh**, and no call asks for it again. -/
theorem stored_documents_win (run : Calls start events s) : Remembered events where
  document later e earlier split j ask doc stores e' member i ask' called stands purpose url
      fresh := by
    subst split
    obtain ⟨time, doc', there, recent⟩ := cached_of_stores run stores member
    obtain ⟨newer, older, rfl⟩ := List.append_of_mem member
    rw [List.append_assoc, List.cons_append] at run ⊢
    obtain ⟨_, run'⟩ := run.earlier
    obtain ⟨before, _, taken, _⟩ := run'.last
    have past := past_of_calls before there
    have key : ask'.key = ask.key := cacheKey_injective.mpr ⟨purpose, url⟩
    have young : e'.before.now - time < ask'.ttl := by omega
    have hit : e'.before.cached ask' = some doc' := by
      simp only [State.cached, key, there, Option.filter_some, young, decide_true, if_true,
        Option.map_some]
    have returned := (called ▸ takes_of_step taken).of_hit stands hit
    obtain ⟨k, ask'', same, stored⟩ := (sourced_of_calls before).cache _ _ _ there
    obtain ⟨purpose', url'⟩ := cacheKey_injective.mp same
    refine ⟨⟨doc', returned, k, ask'', time, ?_, recent, purpose', url'⟩, fun e'' member _ => ?_⟩
    · rw [List.append_cons]
      exact stored.mono (newer ++ [e'])
    · exact not_permits run (by simp [stands, Pc.rank]) (by rw [returned]; rfl) member _
  absence later e earlier split j url marks newer e' between shape quiet i called stands
      recent := by
    subst split shape
    rw [List.append_assoc, List.cons_append] at run ⊢
    obtain ⟨_, run'⟩ := run.earlier
    obtain ⟨before, _, taken, _⟩ := run'.last
    obtain ⟨past, time, there, newer'⟩ := marker_of_marks before marks quiet
    have cooling : e'.before.cooling url = true := by
      have young : e'.before.now - time < discoveryAbsentCooldown := by omega
      simp only [State.cooling, there, Option.any_some, young, decide_true]
    have returned := (called ▸ takes_of_step taken).of_cooling stands cooling
    exact ⟨returned, fun e'' member _ =>
      not_permits run (by simp [stands, Pc.rank]) (by rw [returned]; rfl) member _⟩

end Results

/-! ## A run -/

/-- Two calls miss and are sent. One is answered with a document, the other that there is none. A
third call gets the document, although the marker is set. When the document has expired a fourth
call asks again, and is denied. -/
def lateAbsence : List Label :=
  [.begin 0 (.cachedJson .discovery "u" discoveryTtl), .lock 0, .policy 0 true,
    .begin 1 (.optionalDiscovery "u"), .lock 1, .lock 1, .policy 1 true,
    .respond 0 (some ⟨"u", 200, some (some (.object []))⟩), .lock 0,
    .respond 1 (some ⟨"u", 404, none⟩), .lock 1,
    .begin 2 (.optionalDiscovery "u"), .lock 2, .pass discoveryTtl,
    .begin 3 (.optionalDiscovery "u"), .lock 3, .lock 3, .policy 3 false]

theorem exists_lateAbsence : ∃ e earlier s, Calls 0 (e :: earlier) s ∧
    s.calls 2 = .done (.optionalDiscovery "u") (.ok (some (.object []))) ∧
    Ends e 3 (.optionalDiscovery "u") (.error 502) := by
  obtain ⟨e, earlier, s, replayed, third, own, returned⟩ : ∃ e earlier s,
      replay State.step (fun _ _ _ => true) lateAbsence [] (.initial 0) = some (e :: earlier, s) ∧
        s.calls 2 = .done (.optionalDiscovery "u") (.ok (some (.object []))) ∧
        e.label.call = some 3 ∧
        e.after.calls 3 = .done (.optionalDiscovery "u") (.error 502) :=
    ⟨_, _, _, rfl, rfl, rfl, rfl⟩
  exact ⟨e, earlier, s, .of_replay (fun _ _ _ => true) lateAbsence (fun _ _ _ _ => trivial) .nil
    replayed, third, own, returned⟩

theorem documents_are_vetted_denied : ∃ e earlier s, Calls 0 (e :: earlier) s ∧
    Ends e 3 (.optionalDiscovery "u") (.error 502) ∧
    Grounds e earlier 3 (.optionalDiscovery "u") (.error 502) := by
  obtain ⟨e, earlier, s, run, -, ends⟩ := exists_lateAbsence
  exact ⟨e, earlier, s, run, ends, documents_are_vetted run [] e earlier rfl 3 _ _ ends⟩

theorem stored_documents_win_late : ∃ events s, Calls 0 events s ∧
    s.calls 2 = .done (.optionalDiscovery "u") (.ok (some (.object []))) ∧ Remembered events := by
  obtain ⟨e, earlier, s, run, third, -⟩ := exists_lateAbsence
  exact ⟨e :: earlier, s, run, third, stored_documents_win run⟩

end OAuthRelay.Upstreams
