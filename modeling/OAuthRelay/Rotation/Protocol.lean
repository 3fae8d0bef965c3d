import OAuthRelay.Rotation.Record

/-!
# The rotation protocol

The calls of a rotator as a machine over the shared store. A call presents a handle to be
refreshed, or starts a family for the upstream token of a code grant. The states of a
refresh (`Pc`) are the awaits of the source in the order of its functions: the loop of
`refresh_rotating`, `claim`, `perform`, `commit`, `release`, `discard` and `revoke` with
`erase_tokens`. What a state carries are the local variables that are read later.

A handle and a claim id are drawn by the step that awaits before their first use, so they
carry that step's name; so does the nonce of every sealed value.
-/

set_option autoImplicit false

namespace OAuthRelay.Rotation

open OAuthRelay.Async (Name StoreError Await Machine Label)

/-- A record together with the exact bytes it was read as. -/
structure Loaded where
  bytes : Value
  record : Record
  deriving DecidableEq

/-- A claim a call holds. -/
structure Claim where
  bytes : Value
  claimId : Name
  upstreamToken : String
  familyId : Name
  familyExpiresMs : ℕ
  deriving DecidableEq

/-- The local variables of `commit` once it has read its clock. -/
structure Attempt where
  claim : Claim
  successorHandle : Name
  successorToken : String
  response : StoredResponse
  now : ℕ
  familyTtl : ℕ
  deriving DecidableEq

/-- The arguments of `revoke`, and what the call answers when it succeeds. -/
structure Revocation where
  familyId : Name
  familyExpiresMs : ℕ
  knownKey : Key
  answer : RefreshOutcome
  deriving DecidableEq

/-- Where a call goes on after `discard`. -/
inductive AfterDiscard where
  /-- `commit` failed before its final swap: the claim is released. -/
  | failed (claim : Claim) (fault : Fault)
  /-- The final swap lost. -/
  | lost (claim : Claim)
  /-- The family was revoked in flight. -/
  | revoked
  deriving DecidableEq

/-- Where a refresh of a rotating handle is. -/
inductive Pc where
  -- `refresh_rotating`
  | load
  | openRecord (bytes : Value)
  | readClock (loaded : Loaded)
  | isRevoked (loaded : Loaded) (now : ℕ)
  | loadGrace (claimId : Name)
  | openGrace (claimId : Name) (bytes : Value)
  | readElapsed
  | sleep
  -- `claim`
  | claim (loaded : Loaded) (upstreamToken : String)
  | sealClaim (loaded : Loaded) (upstreamToken : String) (claimId : Name) (now ttl : ℕ)
  | swapClaim (loaded : Loaded) (claim : Claim) (ttl : ℕ)
  -- `perform` and `commit`
  | askUpstream (claim : Claim)
  | commit (claim : Claim) (successorHandle : Name) (successorToken : String)
      (response : StoredResponse)
  | sealResponse (attempt : Attempt)
  | putResponse (attempt : Attempt) (sealed : Value)
  | sealSuccessor (attempt : Attempt)
  | putSuccessor (attempt : Attempt) (successor : Value)
  | sealRotated (attempt : Attempt)
  | swapRotated (attempt : Attempt) (rotated : Value)
  | swapHead (attempt : Attempt)
  | isRevokedInFlight (attempt : Attempt)
  | isRevokedLost (claim : Claim)
  -- `discard`
  | discard (key : Key) (rest : List Key) (after : AfterDiscard)
  -- `release`
  | sealRelease (claim : Claim) (outcome : RefreshOutcome)
  | releaseClock (claim : Claim) (released : Except Fault Value) (outcome : RefreshOutcome)
  | swapRelease (claim : Claim) (bytes : Value) (ttl : ℕ) (outcome : RefreshOutcome)
  -- `revoke` and `erase_tokens`
  | revoke (revocation : Revocation)
  | putMarker (revocation : Revocation) (ttl : ℕ) (marker : Name)
  | getHead (revocation : Revocation)
  | erase (revocation : Revocation) (key : Key) (hop : ℕ) (rest : List Key)
  | openErased (revocation : Revocation) (key : Key) (hop : ℕ) (rest : List Key)
      (bytes : Value)
  | deleteErased (revocation : Revocation) (key : Key) (rest : List Key)
  | done (outcome : RefreshOutcome)
  deriving DecidableEq

/-- A refresh token recovered from a sealed handle. -/
structure OpenedHandle where
  upstreamToken : String
  issuedAt : ℕ
  deriving DecidableEq

/-- A token a client presents: a sealed handle with what it opens to under the relay's
binding, a rotating handle, or neither. -/
inductive Presented where
  | sealedHandle (opened : Option OpenedHandle)
  | rotating (handle : Name)
  | other

/-- The local variables of `create_family`, and the response that carries the handle when
a sealed handle is migrated. -/
structure Creation where
  handle : Name
  upstreamToken : String
  response : Option StoredResponse
  deriving DecidableEq

/-- A family that is being created. -/
structure Family where
  creation : Creation
  familyId : Name
  familyExpiresMs : ℕ
  ttl : ℕ
  deriving DecidableEq

/-- The first record of a family. -/
def Family.record (family : Family) : Record where
  familyId := family.familyId
  familyExpiresMs := family.familyExpiresMs
  state := .active family.creation.upstreamToken

/-- Where a call that creates a family is. -/
inductive CreatePc where
  -- `refresh_sealed_handle`
  | openHandle (opened : Option OpenedHandle)
  | checkLifetime (opened : OpenedHandle)
  | askUpstream (opened : OpenedHandle)
  -- `create_family`
  | create (creation : Creation)
  | sealRecord (family : Family)
  | putRecord (family : Family) (bytes : Value)
  | putHead (family : Family)
  | issued (handle : Name)
  | issueFailed (error : IssueError)
  | done (outcome : RefreshOutcome)
  deriving DecidableEq

/-- A call of the rotator. -/
inductive Call where
  /-- `refresh_rotating` of a handle. -/
  | rotating (handle : Name) (pc : Pc)
  /-- `issue`, or a refresh of a sealed handle. -/
  | founding (pc : CreatePc)
  deriving DecidableEq

/-- What a client or the router asks of the rotator. -/
inductive Input where
  | issue (upstreamToken : String)
  | refresh (presented : Presented)

/-- What a call asks of its environment, apart from the store. -/
inductive Question where
  | clock
  | seal (purpose : Purpose) (key : Key) (plain : Plain)
  | unseal (purpose : Purpose) (key : Key) (value : Value)
  | openHandle (opened : Option OpenedHandle)
  | upstream (token : String)
  | elapsed
  | sleep (duration : ℕ)

/-- A clock reading and an upstream response come with the random values drawn next. -/
abbrev Answer : Question → Type
  | .clock => ℕ × Name
  | .seal .. => Except Fault Value
  | .unseal .. => Except Fault Plain
  | .openHandle _ => Except Fault (Option OpenedHandle)
  | .upstream _ => Except UpstreamFailure StoredResponse × Name
  | .elapsed => ℕ
  | .sleep _ => Unit

/-- What the environment is free in. An upstream that does not answer within the upstream
timeout has failed with `request`. -/
structure Choice where
  reading : ℕ
  reply : Except UpstreamFailure StoredResponse
  sealer : SealerReply
  elapsed : ℕ

/-- Opening a sealed handle. A handle that does not open is no fault of the relay. -/
def openSealedHandle (reply : SealerReply) (opened : Option OpenedHandle) :
    Except Fault (Option OpenedHandle) :=
  match reply with
  | .works => .ok opened
  | .fails .unavailable => .error .sealerUnavailable
  | .fails _ => .ok none
  | .timeout => .error .sealerUnavailable

def answer (choice : Choice) (name : Name) : (question : Question) → Answer question
  | .clock => (choice.reading, name)
  | .seal purpose key plain => sealValue choice.sealer purpose key plain name
  | .unseal purpose key value => openValue choice.sealer purpose key value
  | .openHandle opened => openSealedHandle choice.sealer opened
  | .upstream _ => (choice.reply, name)
  | .elapsed => choice.elapsed
  | .sleep _ => ()

/-- A call that ends in a fault. -/
def Pc.fail (fault : Fault) : Pc := .done fault.outcome

/-- The claimed record of a claim. -/
def claimedRecord (loaded : Loaded) (upstreamToken : String) (claimId : Name) (now : ℕ) : Record :=
  { loaded.record with state := .claimed upstreamToken claimId now }

namespace Attempt

/-- How long the response is kept for replays. -/
def graceTtl (R : Rotator) (attempt : Attempt) : ℕ :=
  min (R.grace + graceResponseMargin) attempt.familyTtl

def successorKey (attempt : Attempt) : Key := .handle attempt.successorHandle

def successor (attempt : Attempt) : Record where
  familyId := attempt.claim.familyId
  familyExpiresMs := attempt.claim.familyExpiresMs
  state := .active attempt.successorToken

def rotated (attempt : Attempt) : Record where
  familyId := attempt.claim.familyId
  familyExpiresMs := attempt.claim.familyExpiresMs
  state := .rotated attempt.now attempt.claim.claimId attempt.successorKey

end Attempt

/-- The record a released claim leaves. -/
def Claim.released (claim : Claim) : Record where
  familyId := claim.familyId
  familyExpiresMs := claim.familyExpiresMs
  state := .active claim.upstreamToken

def AfterDiscard.next : AfterDiscard → Pc
  | .failed claim fault => .sealRelease claim fault.outcome
  | .lost claim => .isRevokedLost claim
  | .revoked => .done .invalidGrant

/-- `erase_tokens` from the next of the keys it is called with. -/
def eraseNext (revocation : Revocation) : List Key → Pc
  | [] => .done revocation.answer
  | key :: rest => .erase revocation key 0 rest

/-- The keys `revoke` erases from: the head, and the known key unless it is the head. -/
def eraseStarts (head : Option Key) (knownKey : Key) : List Key :=
  head.toList ++ if head = some knownKey then [] else [knownKey]

namespace Pc

variable (R : Rotator) (handle : Name)

/-- `refresh_rotating` once it knows that the family is not revoked. -/
def handleState (loaded : Loaded) (now : ℕ) : Pc :=
  match loaded.record.state with
  | .active upstreamToken => .claim loaded upstreamToken
  | .claimed upstreamToken _ claimedMs =>
      if now - claimedMs > R.timing.claimLease then .claim loaded upstreamToken else .readElapsed
  | .rotated rotatedMs claimId _ =>
      if now - rotatedMs ≤ R.grace then .loadGrace claimId
      else
        .revoke
          { familyId := loaded.record.familyId
            familyExpiresMs := loaded.record.familyExpiresMs
            knownKey := .handle handle
            answer := .invalidGrant }

/-- `perform` once the upstream has answered, with the handle it draws. -/
def handleReply (claim : Claim) (successorHandle : Name) :
    Except UpstreamFailure StoredResponse → Pc
  | .error failure => .sealRelease claim (.upstreamFailed failure)
  | .ok response =>
      if R.json.isInvalidGrant response then
        .revoke
          { familyId := claim.familyId
            familyExpiresMs := claim.familyExpiresMs
            knownKey := .handle handle
            answer := .response response }
      else if response.isSuccess then
        match R.json.withRefreshToken response.status response.body
            (R.handleText successorHandle) with
        | none => .sealRelease claim .upstreamUnusable
        | some body =>
            .commit claim successorHandle
              ((R.json.upstreamRefreshToken response.status response.body).getD
                claim.upstreamToken)
              { response with body := body }
      else .sealRelease claim (.response response)

/-- `commit` fails before its final swap: what was written is removed and the claim is
released. -/
def unprepared (attempt : Attempt) (fault : Fault) : Pc :=
  .discard (.grace handle attempt.claim.claimId) [attempt.successorKey]
    (.failed attempt.claim fault)

/-- `erase_tokens` once it has opened the record of hop `hop`. -/
def eraseRecord (revocation : Revocation) (key : Key) (hop : ℕ) (rest : List Key)
    (record : Record) : Pc :=
  match record.state with
  | .rotated _ _ successorKey =>
      if hop + 1 < maxEraseHops then .erase revocation successorKey (hop + 1) rest
      else eraseNext revocation rest
  | _ => .deleteErased revocation key rest

/-- What a refresh of a rotating handle awaits. -/
def await : Pc → Await Key Value Question Answer Pc
  | .load => .get (.handle handle) fun
      | .error error => fail (.store error)
      | .ok none => .done .invalidGrant
      | .ok (some bytes) => .openRecord bytes
  | .openRecord bytes => .consult (.unseal .record (.handle handle) bytes) fun
      | .error fault => fail fault
      | .ok (.record record) => .readClock ⟨bytes, record⟩
      | .ok (.response _) => fail .unopenable
  | .readClock loaded => .consult .clock fun (now, _) =>
      if now ≥ loaded.record.familyExpiresMs then .done .invalidGrant else .isRevoked loaded now
  | .isRevoked loaded now => .get (.revoked loaded.record.familyId) fun
      | .error error => fail (.store error)
      | .ok (some _) => .done .invalidGrant
      | .ok none => handleState R handle loaded now
  | .loadGrace claimId => .get (.grace handle claimId) fun
      | .error error => fail (.store error)
      | .ok none => .readElapsed
      | .ok (some bytes) => .openGrace claimId bytes
  | .openGrace claimId bytes => .consult (.unseal .grace (.grace handle claimId) bytes) fun
      | .error fault => fail fault
      | .ok (.response response) => .done (.response response)
      | .ok (.record _) => fail .unopenable
  | .readElapsed => .consult .elapsed fun elapsed =>
      if elapsed ≥ R.timing.resolveWait then .done .unavailable else .sleep
  | .sleep => .consult (.sleep R.timing.pollInterval) fun _ => .load
  | .claim loaded upstreamToken => .consult .clock fun (now, claimId) =>
      match ttlUntil loaded.record.familyExpiresMs now with
      | none => .readElapsed
      | some ttl => .sealClaim loaded upstreamToken claimId now ttl
  | .sealClaim loaded upstreamToken claimId now ttl =>
      .consult (.seal .record (.handle handle)
          (.record (claimedRecord loaded upstreamToken claimId now))) fun
        | .error fault => fail fault
        | .ok bytes =>
            .swapClaim loaded
              { bytes := bytes
                claimId := claimId
                upstreamToken := upstreamToken
                familyId := loaded.record.familyId
                familyExpiresMs := loaded.record.familyExpiresMs } ttl
  | .swapClaim loaded held ttl =>
      .compareAndSwap (.handle handle) loaded.bytes held.bytes ttl fun
        | .error error => fail (.store error)
        | .ok true => .askUpstream held
        | .ok false => .readElapsed
  | .askUpstream held => .consult (.upstream held.upstreamToken) fun (reply, successorHandle) =>
      handleReply R handle held successorHandle reply
  | .commit held successorHandle successorToken response => .consult .clock fun (now, _) =>
      match ttlUntil held.familyExpiresMs now with
      | none => .isRevokedLost held
      | some familyTtl =>
          .sealResponse ⟨held, successorHandle, successorToken, response, now, familyTtl⟩
  | .sealResponse attempt =>
      .consult (.seal .grace (.grace handle attempt.claim.claimId)
          (.response attempt.response)) fun
        | .error fault => unprepared handle attempt fault
        | .ok sealed => .putResponse attempt sealed
  | .putResponse attempt sealed =>
      .putIfAbsent (.grace handle attempt.claim.claimId) sealed (attempt.graceTtl R) fun
        | .error error => unprepared handle attempt (.store error)
        | .ok false => unprepared handle attempt .conflict
        | .ok true => .sealSuccessor attempt
  | .sealSuccessor attempt =>
      .consult (.seal .record attempt.successorKey (.record attempt.successor)) fun
        | .error fault => unprepared handle attempt fault
        | .ok successor => .putSuccessor attempt successor
  | .putSuccessor attempt successor =>
      .putIfAbsent attempt.successorKey successor attempt.familyTtl fun
        | .error error => unprepared handle attempt (.store error)
        | .ok false => unprepared handle attempt .conflict
        | .ok true => .sealRotated attempt
  | .sealRotated attempt =>
      .consult (.seal .record (.handle handle) (.record attempt.rotated)) fun
        | .error fault => unprepared handle attempt fault
        | .ok rotated => .swapRotated attempt rotated
  | .swapRotated attempt rotated =>
      .compareAndSwap (.handle handle) attempt.claim.bytes rotated attempt.familyTtl fun
        | .error error => fail (.store error)
        | .ok true => .swapHead attempt
        | .ok false =>
            .discard (.grace handle attempt.claim.claimId) [attempt.successorKey]
              (.lost attempt.claim)
  -- The head pointer is an accelerator: whatever becomes of this swap, the rotation stands.
  | .swapHead attempt =>
      .compareAndSwap (.head attempt.claim.familyId) (.headKey (.handle handle))
        (.headKey attempt.successorKey) attempt.familyTtl fun _ => .isRevokedInFlight attempt
  | .isRevokedInFlight attempt => .get (.revoked attempt.claim.familyId) fun
      | .error error => fail (.store error)
      | .ok (some _) =>
          .discard (.grace handle attempt.claim.claimId) [attempt.successorKey] .revoked
      | .ok none => .done (.response attempt.response)
  | .isRevokedLost held => .get (.revoked held.familyId) fun
      | .error error => fail (.store error)
      | .ok (some _) => .done .invalidGrant
      | .ok none => .done .unavailable
  | .discard key rest after => .delete key fun _ =>
      match rest with
      | [] => after.next
      | key' :: rest' => .discard key' rest' after
  | .sealRelease held outcome =>
      .consult (.seal .record (.handle handle) (.record held.released)) fun released =>
        .releaseClock held released outcome
  | .releaseClock held released outcome => .consult .clock fun (now, _) =>
      match ttlUntil held.familyExpiresMs now, released with
      | none, _ => .done outcome
      | some ttl, .ok bytes => .swapRelease held bytes ttl outcome
      | some _, .error _ => .done outcome
  | .swapRelease held bytes ttl outcome =>
      .compareAndSwap (.handle handle) held.bytes bytes ttl fun _ => .done outcome
  | .revoke revocation => .consult .clock fun (now, marker) =>
      match ttlUntil revocation.familyExpiresMs now with
      | none => .done revocation.answer
      | some ttl => .putMarker revocation ttl marker
  -- Only the marker's presence is read, so an existing marker will do.
  | .putMarker revocation ttl marker =>
      .putIfAbsent (.revoked revocation.familyId) (.marker marker) ttl fun
        | .error error => fail (.store error)
        | .ok _ => .getHead revocation
  | .getHead revocation => .get (.head revocation.familyId) fun
      | .error error => fail (.store error)
      | .ok head =>
          eraseNext revocation (eraseStarts (head.bind Value.asKey) revocation.knownKey)
  | .erase revocation key hop rest => .get key fun
      | .error error => fail (.store error)
      | .ok none => eraseNext revocation rest
      | .ok (some bytes) => .openErased revocation key hop rest bytes
  | .openErased revocation key hop rest bytes =>
      .consult (.unseal .record key bytes) fun
        -- An unavailable sealer is tolerated; what cannot be opened is deleted.
        | .error .sealerUnavailable => eraseNext revocation rest
        | .error .unopenable => .deleteErased revocation key rest
        | .error fault => fail fault
        | .ok (.response _) => .deleteErased revocation key rest
        | .ok (.record record) => eraseRecord revocation key hop rest record
  | .deleteErased revocation key rest => .delete key fun
      | .error error => fail (.store error)
      | .ok () => eraseNext revocation rest
  | .done _ => .finished

end Pc

namespace CreatePc

variable (R : Rotator)

/-- `refresh_sealed_handle` once the upstream has answered. -/
def handleReply (opened : OpenedHandle) (handle : Name) :
    Except UpstreamFailure StoredResponse → CreatePc
  | .error failure => .done (.upstreamFailed failure)
  | .ok response =>
      if R.json.isInvalidGrant response then .done (.response response)
      else if response.isSuccess then
        match R.json.withRefreshToken response.status response.body (R.handleText handle) with
        | none => .done .upstreamUnusable
        | some body =>
            .create
              { handle := handle
                upstreamToken :=
                  (R.json.upstreamRefreshToken response.status response.body).getD
                    opened.upstreamToken
                response := some { response with body := body } }
      else .done (.response response)

/-- `create_family` has failed. -/
def fail (creation : Creation) (fault : Fault) : CreatePc :=
  match creation.response with
  | none => .issueFailed fault.issueError
  | some _ => .done fault.outcome

/-- `create_family` has succeeded. -/
def finish (creation : Creation) : CreatePc :=
  match creation.response with
  | none => .issued creation.handle
  | some response => .done (.response response)

/-- What a call that creates a family awaits. -/
def await : CreatePc → Await Key Value Question Answer CreatePc
  | .openHandle opened => .consult (.openHandle opened) fun
      | .error fault => .done fault.outcome
      | .ok none => .done .invalidGrant
      | .ok (some opened) => .checkLifetime opened
  | .checkLifetime opened => .consult .clock fun (now, _) =>
      if now ≥ saturatingAdd (min (opened.issuedAt * 1000) (2 ^ 64 - 1)) R.maxLifetime then
        .done .invalidGrant
      else .askUpstream opened
  | .askUpstream opened => .consult (.upstream opened.upstreamToken) fun (reply, handle) =>
      handleReply R opened handle reply
  | .create creation => .consult .clock fun (now, familyId) =>
      match ttlUntil (saturatingAdd now R.maxLifetime) now with
      | none => fail creation .conflict
      | some ttl => .sealRecord ⟨creation, familyId, saturatingAdd now R.maxLifetime, ttl⟩
  | .sealRecord family =>
      .consult (.seal .record (.handle family.creation.handle) (.record family.record)) fun
        | .error fault => fail family.creation fault
        | .ok bytes => .putRecord family bytes
  | .putRecord family bytes =>
      .putIfAbsent (.handle family.creation.handle) bytes family.ttl fun
        | .error error => fail family.creation (.store error)
        | .ok false => fail family.creation .conflict
        | .ok true => .putHead family
  | .putHead family =>
      .putIfAbsent (.head family.familyId) (.headKey (.handle family.creation.handle))
        family.ttl fun
        | .error error => fail family.creation (.store error)
        | .ok false => fail family.creation .conflict
        | .ok true => finish family.creation
  | .issued _ => .finished
  | .issueFailed _ => .finished
  | .done _ => .finished

end CreatePc

namespace Call

/-- `issue` draws its handle as it begins. -/
def start (name : Name) : Input → Call
  | .issue upstreamToken => .founding (.create ⟨name, upstreamToken, none⟩)
  | .refresh (.sealedHandle opened) => .founding (.openHandle opened)
  | .refresh (.rotating handle) => .rotating handle .load
  | .refresh .other => .founding (.done .invalidGrant)

def await (R : Rotator) : Call → Await Key Value Question Answer Call
  | .rotating handle pc => (pc.await R handle).map (.rotating handle)
  | .founding pc => (pc.await R).map .founding

end Call

/-- The rotator and its environment. -/
abbrev Rotator.machine (R : Rotator) : Machine Key Value where
  Input := Input
  Call := Call
  Question := Question
  Answer := Answer
  Choice := Choice
  start := Call.start
  await := Call.await R
  answer := answer

/-! ## A sample relay

For concrete runs: an upstream that answers with an empty object or with `invalid_grant`,
and a JSON library that knows these two bodies. -/

def utf8 (text : String) : List UInt8 := text.toUTF8.toList

def emptyObject : List UInt8 := utf8 "\x7b\x7d"

def invalidGrantBody : List UInt8 := utf8 "\x7b\"error\":\"invalid_grant\"\x7d"

def sampleJson : SerdeJson where
  members body :=
    if body = emptyObject then some []
    else if body = invalidGrantBody then some [("error", "\"invalid_grant\"")] else none
  toVec members := some (utf8 ("\x7b" ++ String.intercalate "," (members.map fun member =>
    "\"" ++ member.1 ++ "\":" ++ member.2) ++ "\x7d"))
  decodeString raw := if raw = "\"invalid_grant\"" then some "invalid_grant" else none
  encodeString text := some ("\"" ++ text ++ "\"")
  errorMember body := if body = invalidGrantBody then some "invalid_grant" else none
  isObject body := body = emptyObject || body = invalidGrantBody

/-- The base64 digit of a small number. -/
def base64Digit (n : ℕ) : Char :=
  "ABCDEFGHIJKLMNOPQRSTUVWXYZabcdefghijklmnopqrstuvwxyz0123456789-_".toList.getD n '_'

/-- A handle that spells out its name. -/
def sampleText (name : Name) : String :=
  "rrt2." ++ String.ofList (List.replicate 40 'A' ++
    [base64Digit name.call, base64Digit name.step, 'A'])

def sampleRotator (grace maxLifetime : ℕ) (timing : Timing) : Rotator where
  grace := grace
  maxLifetime := maxLifetime
  timing := timing
  json := sampleJson
  handleText := sampleText

/-- A choice of the environment where all goes well. -/
def Choice.good (reading : ℕ) : Choice where
  reading := reading
  reply := .ok ⟨200, some "application/json", emptyObject⟩
  sealer := .works
  elapsed := 0

/-- The token response that hands out a handle of the sample relay. -/
def handsOut (handle : Name) : StoredResponse where
  status := 200
  contentType := some "application/json"
  body := utf8 ("\x7b\"refresh_token\":\"" ++ sampleText handle ++
    "\"\x7d")

/-- `n` answered steps of one call. -/
def steps (index n : ℕ) (choice : Choice) : List (Label Input Choice) :=
  List.replicate n (.step index .answered choice)

/-- The run that executes these labels. -/
theorem exists_run (R : Rotator) (labels : List R.machine.Lbl)
    (P : List R.machine.Event → R.machine.State → Prop) [∀ es s, Decidable (P es s)]
    (reached : (R.machine.replay (fun _ _ _ => true) labels [] R.machine.initial).any
      (fun last => P last.1 last.2) = true) :
    ∃ events s, R.machine.Runs R.machine.anyStep events s ∧ P events s :=
  Machine.Runs.exists_of_replay (fun _ _ _ _ => trivial) labels P reached

end OAuthRelay.Rotation
