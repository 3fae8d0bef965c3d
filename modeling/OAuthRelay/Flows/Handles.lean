import OAuthRelay.Async.Steps
import OAuthRelay.Flows.Refresh
import OAuthRelay.Wire.Aead
import OAuthRelay.Wire.Base64

/-!
# Handles and changes of the sealing key

A handle is the upstream's token and the time it was issued, encrypted under the sealer's current
key and bound to the relay and its upstream. The sealer opens what was encrypted under its
current key or the one before it.

While keys change and all kinds of values are sealed, the log of the cipher keeps an entry for
each handle (`Sound`). A text opens if and only if it is the text of an entry whose key the sealer
knows and whose data are those of the binding (`openHandle_eq_ok_iff`), and a text determines its
entry, since it contains the nonce. So a handle opens to what was sealed as long as its key is
known, and under no other binding; and what opens is a handle (`handles_survive`).

A sealer that cannot be reached says nothing about a handle, and none of its failures is taken
for a bad handle, whatever the sealer (`unavailable_of_sealer`).
-/

set_option autoImplicit false

namespace OAuthRelay.Flows.Handles

open OAuthRelay.Wire
open OAuthRelay.Wire.Aead
open Async.Steps (Event Runs)
open Binding (Sealing refreshHandle)
open Codes (Bytes HandleBinding HandleError)
open Rotation (OpenedHandle SealError)

/-! ## Sealing and opening handles -/

/-- `Sealer`: both functions take the associated data last. -/
structure Sealer where
  sealBytes : List UInt8 → List UInt8 → Except SealError String
  unsealBytes : String → List UInt8 → Except SealError (List UInt8)

/-- The conversion of a sealer's error. -/
def handleError : SealError → HandleError
  | .unavailable => .sealerUnavailable
  | .invalidKey => .invalid
  | .invalidEnvelope => .invalid

def handlePrefix : String := "rrt1."

def sealHandle (sealer : Sealer) (binding : HandleBinding) (handle : OpenedHandle) :
    Except HandleError String :=
  match sealer.sealBytes (refreshHandle.encode handle) (Sealing.handle binding).associatedData with
  | .ok envelope => .ok (handlePrefix ++ envelope)
  | .error error => .error (handleError error)

def openHandle (sealer : Sealer) (binding : HandleBinding) (handle : String) :
    Except HandleError OpenedHandle :=
  match Routes.stripPrefix handlePrefix.toList handle.toList with
  | none => .error .invalid
  | some envelope =>
      match sealer.unsealBytes (String.ofList envelope)
        (Sealing.handle binding).associatedData with
      | .error error => .error (handleError error)
      | .ok plaintext =>
          match refreshHandle.fromBytes plaintext with
          | some opened => .ok opened
          | none => .error .invalid

/-! ## The sealer with two keys -/

/-- The base64 engine and the cipher. -/
structure Libraries where
  encode64 : List UInt8 → String
  decode64 : String → Option (List UInt8)
  /-- A text is read if it is what would be written. -/
  decode64_eq_some_iff : ∀ text bytes, decode64 text = some bytes ↔ text = encode64 bytes
  cipher : Cipher (Bytes 32) (Bytes 24)

structure XChaChaSealer where
  current : Bytes 32
  previous : Option (Bytes 32)
  deriving DecidableEq

/-- `try_into`: a key has 32 bytes. -/
def sealKey (bytes : List UInt8) : Except SealError (Bytes 32) :=
  if size : bytes.length = 32 then .ok ⟨bytes, size⟩ else .error .invalidKey

variable (lib : Libraries)

namespace XChaChaSealer

def new (current : List UInt8) (previous : Option (List UInt8)) :
    Except SealError XChaChaSealer := do
  let current ← sealKey current
  match previous with
  | none => .ok ⟨current, none⟩
  | some previous => .ok ⟨current, some (← sealKey previous)⟩

def sealBytes (keys : XChaChaSealer) (nonce : Bytes 24) (plaintext associatedData : List UInt8) :
    Except SealError String :=
  match lib.cipher.encrypt keys.current nonce associatedData plaintext with
  | none => .error .invalidEnvelope
  | some ciphertext => .ok ("v1." ++ lib.encode64 (nonce.val ++ ciphertext))

variable {lib}

def tryUnseal (log : List (Entry lib.cipher)) (key : Bytes 32) (nonce : Bytes 24)
    (ciphertext associatedData : List UInt8) : Except SealError (List UInt8) :=
  match decrypt log key nonce associatedData ciphertext with
  | some plaintext => .ok plaintext
  | none => .error .invalidEnvelope

/-- The current key, then the previous one. -/
def tryKeys (keys : XChaChaSealer) (log : List (Entry lib.cipher)) (nonce : Bytes 24)
    (ciphertext associatedData : List UInt8) : Except SealError (List UInt8) :=
  match tryUnseal log keys.current nonce ciphertext associatedData with
  | .ok plaintext => .ok plaintext
  | .error _ =>
      match keys.previous with
      | none => .error .invalidEnvelope
      | some key => tryUnseal log key nonce ciphertext associatedData

def unsealBytes (keys : XChaChaSealer) (log : List (Entry lib.cipher)) (envelope : String)
    (associatedData : List UInt8) : Except SealError (List UInt8) :=
  match Routes.stripPrefix "v1.".toList envelope.toList with
  | none => .error .invalidEnvelope
  | some encoded =>
      match lib.decode64 (String.ofList encoded) with
      | none => .error .invalidEnvelope
      | some bytes =>
          if long : 24 < bytes.length then
            keys.tryKeys log ⟨bytes.take 24, List.length_take_of_le (Nat.le_of_lt long)⟩
              (bytes.drop 24) associatedData
          else .error .invalidEnvelope

/-- The sealer, with what has been encrypted so far and the nonce it draws next. -/
def sealer (keys : XChaChaSealer) (log : List (Entry lib.cipher)) (nonce : Bytes 24) : Sealer where
  sealBytes := keys.sealBytes lib nonce
  unsealBytes := keys.unsealBytes log

/-- The keys that the sealer opens with. -/
def Knows (keys : XChaChaSealer) (key : Bytes 32) : Prop :=
  key = keys.current ∨ keys.previous = some key

end XChaChaSealer

/-! ## Changing keys and sealing -/

/-- What a handle is sealed from: a text in memory and a time. -/
abbrev Handle := { handle : OpenedHandle // refreshHandle.Fitting handle }

structure State where
  keys : XChaChaSealer
  log : List (Entry lib.cipher)

inductive Label where
  /-- A new current key; the old one is kept as the previous one, or dropped. -/
  | newKey (key : List UInt8) (keep : Bool)
  | sealHandle (binding : HandleBinding) (handle : Handle) (nonce : Bytes 24)
  /-- Something else is sealed. -/
  | sealValue (sealing : Sealing) (plaintext : List UInt8) (nonce : Bytes 24)

/-- The nonce that a step draws. -/
def Label.nonce : Label → Option (Bytes 24)
  | .newKey _ _ => none
  | .sealHandle _ _ nonce => some nonce
  | .sealValue _ _ nonce => some nonce

variable {lib}

/-- The cipher logs what it encrypts. -/
def State.logged (s : State lib) (nonce : Bytes 24) (sealing : Sealing)
    (plaintext : List UInt8) : State lib where
  keys := s.keys
  log := (encryption lib.cipher s.keys.current nonce sealing.associatedData plaintext).toList ++
    s.log

def step (s : State lib) : Label → Option (State lib)
  | .newKey key keep =>
      match XChaChaSealer.new key (if keep then some s.keys.current.val else none) with
      | .ok keys => some ⟨keys, s.log⟩
      | .error _ => none
  | .sealHandle binding handle nonce =>
      some (s.logged nonce (.handle binding) (refreshHandle.encode handle.val))
  | .sealValue (.handle _) _ _ => none
  | .sealValue sealing plaintext nonce => some (s.logged nonce sealing plaintext)

/-- The nonces drawn are new. -/
def Fresh (_ : List (Event (State lib) Label)) (s : State lib) (label : Label) : Prop :=
  ∀ nonce ∈ label.nonce, ∀ e ∈ s.log, e.nonce ≠ nonce

/-- In the run a text was sealed under a key, for a binding. -/
def Sealed (events : List (Event (State lib) Label)) (binding : HandleBinding) (handle : Handle)
    (key : Bytes 32) (text : String) : Prop :=
  ∃ e ∈ events, ∃ nonce, e.label = .sealHandle binding handle nonce ∧
    e.before.keys.current = key ∧
    sealHandle (e.before.keys.sealer e.before.log nonce) binding handle.val = .ok text

/-- What a sealer that cannot be reached is reported as. -/
structure ReportsUnavailable (sealer : Sealer) : Prop where
  sealing : ∀ binding handle, sealHandle sealer binding handle = .error .sealerUnavailable ↔
    sealer.sealBytes (refreshHandle.encode handle) (Sealing.handle binding).associatedData =
      .error .unavailable
  opening : ∀ binding text, openHandle sealer binding text = .error .sealerUnavailable ↔
    ∃ envelope, text = handlePrefix ++ envelope ∧
      sealer.unsealBytes envelope (Sealing.handle binding).associatedData = .error .unavailable

/-- What is promised of handles. The sealer draws some nonce next. -/
structure HandlesSurvive (events : List (Event (State lib) Label)) (s : State lib) : Prop where
  /-- A handle opens to what was sealed, under its binding and with a key that is known. -/
  opens : ∀ binding handle key text nonce, Sealed events binding handle key text →
    s.keys.Knows key → openHandle (s.keys.sealer s.log nonce) binding text = .ok handle.val
  /-- It is invalid when the key is not known, or under any other binding. -/
  refused : ∀ binding handle key text nonce, Sealed events binding handle key text →
    ∀ binding', ¬ s.keys.Knows key ∨ binding' ≠ binding →
      openHandle (s.keys.sealer s.log nonce) binding' text = .error .invalid
  /-- Every text that opens was sealed as a handle, under the binding it opens for. -/
  produced : ∀ binding text opened nonce,
    openHandle (s.keys.sealer s.log nonce) binding text = .ok opened →
      ∃ handle : Handle, handle.val = opened ∧ ∃ key, s.keys.Knows key ∧
        Sealed events binding handle key text
  /-- No sealer's failure to answer is reported as an invalid handle. -/
  unavailable : ∀ sealer, ReportsUnavailable sealer

/-! ## Errors -/

theorem handleError_eq_iff {error : SealError} :
    handleError error = .sealerUnavailable ↔ error = .unavailable := by
  cases error <;> simp [handleError]

theorem stripPrefix_eq_some_iff {front : String} {text : String} {rest : List Char} :
    Routes.stripPrefix front.toList text.toList = some rest ↔
      text = front ++ String.ofList rest := by
  constructor
  · intro stripped
    unfold Routes.stripPrefix at stripped
    split at stripped
    · rename_i starts
      obtain ⟨rest', same⟩ := List.isPrefixOf_iff_prefix.mp starts
      rw [← same, List.drop_left] at stripped
      cases stripped
      apply String.toList_injective
      rw [String.toList_append, String.toList_ofList, same]
    · cases stripped
  · rintro rfl
    rw [String.toList_append, String.toList_ofList]
    exact Routes.stripPrefix_append _ _

/-- **No sealer's failure to answer is taken for an invalid handle.** -/
theorem unavailable_of_sealer (sealer : Sealer) : ReportsUnavailable sealer where
  sealing binding handle := by
    unfold sealHandle
    split
    · rename_i sealed
      rw [sealed]
      simp
    · rename_i failed
      rw [failed]
      simp [handleError_eq_iff]
  opening binding text := by
    unfold openHandle
    constructor
    · intro refused
      split at refused
      · cases refused
      · rename_i envelope stripped
        refine ⟨String.ofList envelope, stripPrefix_eq_some_iff.mp stripped, ?_⟩
        split at refused
        · rename_i failed
          rw [failed, handleError_eq_iff.mp (Except.error.inj refused)]
        · split at refused <;> cases refused
    · rintro ⟨envelope, rfl, failed⟩
      have stripped : Routes.stripPrefix handlePrefix.toList (handlePrefix ++ envelope).toList =
          some envelope.toList :=
        stripPrefix_eq_some_iff.mpr (by rw [String.ofList_toList])
      rw [stripped]
      simp only [String.ofList_toList, failed]
      rfl

/-! ## Texts and entries -/

/-- The text of a handle's entry. -/
def text (e : Entry lib.cipher) : String :=
  handlePrefix ++ ("v1." ++ lib.encode64 (e.nonce.val ++ e.ciphertext))

theorem encode64_injective {bytes bytes' : List UInt8}
    (same : lib.encode64 bytes = lib.encode64 bytes') : bytes = bytes' := by
  have read := (lib.decode64_eq_some_iff _ _).mpr same
  rw [(lib.decode64_eq_some_iff _ _).mpr rfl] at read
  exact Option.some.inj read

/-- A text determines the nonce of its entry. -/
theorem nonce_of_text {e e' : Entry lib.cipher} (same : text e = text e') :
    e.nonce = e'.nonce := by
  unfold text at same
  rw [String.append_right_inj, String.append_right_inj] at same
  have bytes := encode64_injective same
  exact Subtype.ext
    (List.append_inj_left bytes (e.nonce.property.trans e'.nonce.property.symm))

section TwoKeys

variable {log : List (Entry lib.cipher)} {keys : XChaChaSealer}

theorem tryUnseal_eq_ok_iff (distinct : Distinct log) {key : Bytes 32} {nonce : Bytes 24}
    {ciphertext data plaintext : List UInt8} :
    XChaChaSealer.tryUnseal log key nonce ciphertext data = .ok plaintext ↔
      ∃ e ∈ log, e.key = key ∧ e.nonce = nonce ∧ e.data = data ∧ e.ciphertext = ciphertext ∧
        e.plaintext = plaintext := by
  rw [← decrypt_eq_some_iff distinct]
  unfold XChaChaSealer.tryUnseal
  cases decrypt log key nonce data ciphertext with
  | none => simp
  | some other => simp

/-- The key that an envelope was encrypted under is the one it opens with, whichever is tried
first. -/
theorem tryKeys_eq_ok_iff (distinct : Distinct log) {nonce : Bytes 24}
    {ciphertext data plaintext : List UInt8} :
    keys.tryKeys log nonce ciphertext data = .ok plaintext ↔
      ∃ e ∈ log, keys.Knows e.key ∧ e.nonce = nonce ∧ e.data = data ∧
        e.ciphertext = ciphertext ∧ e.plaintext = plaintext := by
  unfold XChaChaSealer.tryKeys
  constructor
  · intro unsealed
    split at unsealed
    · rename_i first
      cases unsealed
      obtain ⟨e, logged, key, same⟩ := (tryUnseal_eq_ok_iff distinct).mp first
      exact ⟨e, logged, .inl key, same⟩
    · split at unsealed
      · cases unsealed
      · rename_i previous kept
        obtain ⟨e, logged, rfl, same⟩ := (tryUnseal_eq_ok_iff distinct).mp unsealed
        exact ⟨e, logged, .inr kept, same⟩
  · rintro ⟨e, logged, known, rfl, rfl, rfl, rfl⟩
    have own : XChaChaSealer.tryUnseal log e.key e.nonce e.ciphertext e.data =
        .ok e.plaintext :=
      (tryUnseal_eq_ok_iff distinct).mpr ⟨e, logged, rfl, rfl, rfl, rfl, rfl⟩
    rcases known with current | previous
    · rw [← current, own]
    · split
      · rename_i first
        -- the nonce leads to the same entry under the current key
        obtain ⟨e', logged', _, nonce, _, _, rfl⟩ := (tryUnseal_eq_ok_iff distinct).mp first
        rw [distinct.eq_of_nonce logged' logged nonce]
      · rw [previous]
        exact own

/-- **An envelope opens to what was encrypted under a key that is known.** -/
theorem unsealBytes_eq_ok_iff (distinct : Distinct log) {envelope : String}
    {data plaintext : List UInt8} : keys.unsealBytes log envelope data = .ok plaintext ↔
      ∃ e ∈ log, keys.Knows e.key ∧ e.data = data ∧ e.plaintext = plaintext ∧
        envelope = "v1." ++ lib.encode64 (e.nonce.val ++ e.ciphertext) := by
  unfold XChaChaSealer.unsealBytes
  constructor
  · intro unsealed
    split at unsealed
    · cases unsealed
    · rename_i encoded stripped
      split at unsealed
      · cases unsealed
      · rename_i bytes decoded
        split at unsealed
        · obtain ⟨e, logged, known, nonce, same, ciphertext, plain⟩ :=
            (tryKeys_eq_ok_iff distinct).mp unsealed
          refine ⟨e, logged, known, same, plain, ?_⟩
          rw [stripPrefix_eq_some_iff.mp stripped, (lib.decode64_eq_some_iff _ _).mp decoded,
            nonce, ciphertext, List.take_append_drop]
        · cases unsealed
  · rintro ⟨e, logged, known, rfl, rfl, rfl⟩
    have stripped : Routes.stripPrefix "v1.".toList
        ("v1." ++ lib.encode64 (e.nonce.val ++ e.ciphertext)).toList =
          some (lib.encode64 (e.nonce.val ++ e.ciphertext)).toList :=
      stripPrefix_eq_some_iff.mpr (by rw [String.ofList_toList])
    have long : 24 < (e.nonce.val ++ e.ciphertext).length := by
      rw [List.length_append, e.nonce.property]
      exact Nat.lt_add_of_pos_right (List.length_pos_of_ne_nil e.ciphertext_ne_nil)
    have decoded := (lib.decode64_eq_some_iff _ (e.nonce.val ++ e.ciphertext)).mpr rfl
    simp only [stripped, String.ofList_toList, decoded, long, dif_pos]
    rw [tryKeys_eq_ok_iff distinct]
    exact ⟨e, logged, known, Subtype.ext (List.take_left' e.nonce.property).symm, rfl,
      (List.drop_left' e.nonce.property).symm, rfl⟩

/-- The sealer with two keys answers, whatever it is asked. -/
theorem error_of_unsealBytes {envelope : String} {data : List UInt8} {error : SealError}
    (failed : keys.unsealBytes log envelope data = .error error) : error = .invalidEnvelope := by
  have tried {key : Bytes 32} {nonce : Bytes 24} {ciphertext : List UInt8} {error : SealError}
      (failed : XChaChaSealer.tryUnseal log key nonce ciphertext data = .error error) :
      error = .invalidEnvelope := by
    unfold XChaChaSealer.tryUnseal at failed
    split at failed
    · cases failed
    · exact (Except.error.inj failed).symm
  unfold XChaChaSealer.unsealBytes at failed
  split at failed
  · exact (Except.error.inj failed).symm
  · split at failed
    · exact (Except.error.inj failed).symm
    · split at failed
      · unfold XChaChaSealer.tryKeys at failed
        split at failed
        · cases failed
        · split at failed
          · exact (Except.error.inj failed).symm
          · exact tried failed
      · exact (Except.error.inj failed).symm

/-- **A text opens to what is encoded in an entry of the binding, if its key is known.** -/
theorem openHandle_eq_ok_iff (distinct : Distinct log) {nonce : Bytes 24}
    {binding : HandleBinding} {handle : String} {opened : OpenedHandle} :
    openHandle (keys.sealer log nonce) binding handle = .ok opened ↔
      ∃ e ∈ log, keys.Knows e.key ∧ e.data = (Sealing.handle binding).associatedData ∧
        refreshHandle.fromBytes e.plaintext = some opened ∧ handle = text e := by
  unfold openHandle XChaChaSealer.sealer
  constructor
  · intro opens
    split at opens
    · cases opens
    · rename_i envelope stripped
      split at opens
      · cases opens
      · rename_i plaintext unsealed
        obtain ⟨e, logged, known, data, rfl, written⟩ :=
          (unsealBytes_eq_ok_iff distinct).mp unsealed
        split at opens
        · rename_i read
          cases opens
          exact ⟨e, logged, known, data, read,
            by rw [stripPrefix_eq_some_iff.mp stripped, written, text]⟩
        · cases opens
  · rintro ⟨e, logged, known, data, read, rfl⟩
    have stripped : Routes.stripPrefix handlePrefix.toList (text e).toList =
        some ("v1." ++ lib.encode64 (e.nonce.val ++ e.ciphertext)).toList :=
      stripPrefix_eq_some_iff.mpr (by rw [String.ofList_toList, text])
    have unsealed : keys.unsealBytes log ("v1." ++ lib.encode64 (e.nonce.val ++ e.ciphertext))
        (Sealing.handle binding).associatedData = .ok e.plaintext :=
      (unsealBytes_eq_ok_iff distinct).mpr ⟨e, logged, known, data, rfl, rfl⟩
    simp only [stripped, String.ofList_toList, unsealed, read]

/-- The text of an entry opens as what was encrypted opens, if the key is known. -/
theorem openHandle_text (distinct : Distinct log) {nonce : Bytes 24} {binding : HandleBinding}
    {e : Entry lib.cipher} (logged : e ∈ log) (known : keys.Knows e.key) (opened : OpenedHandle) :
    openHandle (keys.sealer log nonce) binding (text e) = .ok opened ↔
      Binding.openHandle binding ⟨e.data, e.plaintext⟩ = some opened := by
  rw [openHandle_eq_ok_iff distinct, Binding.openHandle, Option.bind_eq_some_iff]
  unfold Codes.SealedText.unseal
  constructor
  · rintro ⟨e', logged', _, data, read, same⟩
    obtain rfl := distinct.eq_of_nonce logged logged' (nonce_of_text same)
    exact ⟨e.plaintext, if_pos data, read⟩
  · rintro ⟨plaintext, unsealed, read⟩
    split at unsealed
    · rename_i data
      cases unsealed
      exact ⟨e, logged, known, data, read, rfl⟩
    · cases unsealed

/-- What does not open is invalid. -/
theorem openHandle_of_not_ok {nonce : Bytes 24} {binding : HandleBinding} {handle : String}
    (fails : ∀ opened, openHandle (keys.sealer log nonce) binding handle ≠ .ok opened) :
    openHandle (keys.sealer log nonce) binding handle = .error .invalid := by
  cases result : openHandle (keys.sealer log nonce) binding handle with
  | ok opened => exact absurd result (fails opened)
  | error error =>
      cases error with
      | invalid => rfl
      | sealerUnavailable =>
          obtain ⟨envelope, _, failed⟩ := ((unavailable_of_sealer _).opening _ _).mp result
          cases error_of_unsealBytes failed

/-- A sealed handle is the text of an entry. -/
theorem sealHandle_eq_ok_iff {nonce : Bytes 24} {binding : HandleBinding} {handle : OpenedHandle}
    {sealed : String} : sealHandle (keys.sealer log nonce) binding handle = .ok sealed ↔
      ∃ e, encryption lib.cipher keys.current nonce (Sealing.handle binding).associatedData
        (refreshHandle.encode handle) = some e ∧ sealed = text e := by
  unfold sealHandle XChaChaSealer.sealer XChaChaSealer.sealBytes
  constructor
  · intro written
    cases encrypted : lib.cipher.encrypt keys.current nonce
        (Sealing.handle binding).associatedData (refreshHandle.encode handle) with
    | none =>
        simp only [encrypted] at written
        cases written
    | some ciphertext =>
        simp only [encrypted] at written
        cases written
        exact ⟨⟨_, _, _, _, ciphertext, encrypted⟩,
          encryption_eq_some_iff.mpr ⟨rfl, rfl, rfl, rfl⟩, rfl⟩
  · rintro ⟨e, logged, rfl⟩
    obtain ⟨key, rfl, data, plaintext⟩ := encryption_eq_some_iff.mp logged
    have encrypted := e.encrypted
    rw [key, data, plaintext] at encrypted
    simp only [encrypted, text]

end TwoKeys

/-! ## Runs -/

section Runs

variable {init s s' : State lib} {events : List (Event (State lib) Label)} {label : Label}

/-- An entry is there because something was sealed: a handle, if its data are those of one. -/
structure Sound (events : List (Event (State lib) Label)) (s : State lib) : Prop where
  distinct : Distinct s.log
  logged : ∀ binding handle key sealed, Sealed events binding handle key sealed →
    ∃ e ∈ s.log, e.key = key ∧ e.data = (Sealing.handle binding).associatedData ∧
      e.plaintext = refreshHandle.encode handle.val ∧ sealed = text e
  produced : ∀ e ∈ s.log, ∀ binding, e.data = (Sealing.handle binding).associatedData →
    ∃ handle : Handle, e.plaintext = refreshHandle.encode handle.val ∧
      Sealed events binding handle e.key (text e)

/-- What a step does to the keys and the log. -/
theorem step_cases (taken : step s label = some s') :
    (∃ key keep, label = .newKey key keep ∧ s'.log = s.log) ∨
    (∃ binding handle nonce, label = .sealHandle binding handle nonce ∧
      s' = s.logged nonce (.handle binding) (refreshHandle.encode handle.val)) ∨
    ∃ sealing plaintext nonce, label = .sealValue sealing plaintext nonce ∧
      (∀ binding, sealing ≠ .handle binding) ∧ s' = s.logged nonce sealing plaintext := by
  cases label with
  | newKey key keep =>
      simp only [step] at taken
      split at taken
      · cases taken
        exact .inl ⟨key, keep, rfl, rfl⟩
      · cases taken
  | sealHandle binding handle nonce =>
      cases taken
      exact .inr (.inl ⟨binding, handle, nonce, rfl, rfl⟩)
  | sealValue sealing plaintext nonce =>
      cases sealing with
      | handle binding => cases taken
      | state purpose binding storeKey =>
          cases taken
          refine .inr (.inr ⟨_, plaintext, nonce, rfl, fun binding' same => ?_, rfl⟩)
          cases same
      | envelope key =>
          cases taken
          refine .inr (.inr ⟨_, plaintext, nonce, rfl, fun binding' same => ?_, rfl⟩)
          cases same

theorem mem_logged {nonce : Bytes 24} {sealing : Sealing} {plaintext : List UInt8}
    {e : Entry lib.cipher} : e ∈ (s.logged nonce sealing plaintext).log ↔
      encryption lib.cipher s.keys.current nonce sealing.associatedData plaintext = some e ∨
        e ∈ s.log := by
  simp only [State.logged, List.mem_append, Option.mem_toList]

theorem distinct_logged (distinct : Distinct s.log) {nonce : Bytes 24} {sealing : Sealing}
    {plaintext : List UInt8} (fresh : ∀ e ∈ s.log, e.nonce ≠ nonce) :
    Distinct (s.logged nonce sealing plaintext).log := by
  unfold Distinct State.logged
  cases added : encryption lib.cipher s.keys.current nonce sealing.associatedData plaintext with
  | none => exact distinct
  | some e =>
      obtain ⟨_, rfl, _, _⟩ := encryption_eq_some_iff.mp added
      refine List.nodup_cons.mpr ⟨fun inside => ?_, distinct⟩
      obtain ⟨e', logged, same⟩ := List.mem_map.mp inside
      exact fresh e' logged same

theorem Sealed.cons {e : Event (State lib) Label} {binding : HandleBinding} {handle : Handle}
    {key : Bytes 32} {sealed : String} (earlier : Sealed events binding handle key sealed) :
    Sealed (e :: events) binding handle key sealed :=
  let ⟨e', member, rest⟩ := earlier
  ⟨e', List.mem_cons_of_mem _ member, rest⟩

/-- A step that seals no handle keeps what is known about handles. -/
theorem Sound.other (sound : Sound events s) {e : Event (State lib) Label}
    (other : ∀ binding handle nonce, e.label ≠ .sealHandle binding handle nonce)
    (distinct : Distinct s'.log) (kept : ∀ e ∈ s.log, e ∈ s'.log)
    (added : ∀ e ∈ s'.log, e ∈ s.log ∨
      ∀ binding, e.data ≠ (Sealing.handle binding).associatedData) :
    Sound (e :: events) s' where
  distinct := distinct
  logged binding handle key sealed made := by
    obtain ⟨e', member, nonce, labelled, current⟩ := made
    rcases List.mem_cons.mp member with rfl | member
    · exact absurd labelled (other _ _ _)
    · obtain ⟨entry, logged, rest⟩ :=
        sound.logged binding handle key sealed ⟨e', member, nonce, labelled, current⟩
      exact ⟨entry, kept _ logged, rest⟩
  produced entry logged binding data := by
    rcases added entry logged with older | apart
    · obtain ⟨handle, plaintext, made⟩ := sound.produced entry older binding data
      exact ⟨handle, plaintext, made.cons⟩
    · exact absurd data (apart binding)

theorem Sound.step (sound : Sound events s) (fresh : Fresh events s label)
    (taken : step s label = some s') : Sound (⟨s, label, s'⟩ :: events) s' := by
  rcases step_cases taken with ⟨key, keep, rfl, log⟩ | ⟨binding, handle, nonce, rfl, rfl⟩ |
    ⟨sealing, plaintext, nonce, rfl, other, rfl⟩
  · refine sound.other (fun _ _ _ same => by cases same) (log ▸ sound.distinct) ?_ ?_
    · rw [log]
      exact fun _ logged => logged
    · rw [log]
      exact fun _ logged => .inl logged
  · refine ⟨distinct_logged sound.distinct (fresh nonce rfl), ?_, ?_⟩
    · rintro binding' handle' key sealed ⟨e', member, nonce', labelled, current, written⟩
      rcases List.mem_cons.mp member with rfl | member
      · cases labelled
        obtain ⟨entry, added, rfl⟩ := sealHandle_eq_ok_iff.mp written
        obtain ⟨key', _, data, plaintext⟩ := encryption_eq_some_iff.mp added
        exact ⟨entry, mem_logged.mpr (.inl added), key'.trans current, data, plaintext, rfl⟩
      · obtain ⟨entry, logged, rest⟩ := sound.logged binding' handle' key sealed
          ⟨e', member, nonce', labelled, current, written⟩
        exact ⟨entry, mem_logged.mpr (.inr logged), rest⟩
    · intro entry logged binding' data
      rcases mem_logged.mp logged with added | older
      · obtain ⟨key, _, data', plaintext⟩ := encryption_eq_some_iff.mp added
        cases Sealing.associatedData_injective (data'.symm.trans data)
        exact ⟨handle, plaintext, _, List.mem_cons_self .., nonce, rfl, key.symm,
          sealHandle_eq_ok_iff.mpr ⟨entry, added, rfl⟩⟩
      · obtain ⟨handle', plaintext, made⟩ := sound.produced entry older binding' data
        exact ⟨handle', plaintext, made.cons⟩
  · refine sound.other (fun _ _ _ same => by cases same)
      (distinct_logged sound.distinct (fresh nonce rfl))
      (fun _ logged => mem_logged.mpr (.inr logged)) ?_
    intro entry logged
    rcases mem_logged.mp logged with added | older
    · obtain ⟨_, _, data, _⟩ := encryption_eq_some_iff.mp added
      exact .inr fun binding data' =>
        other binding (Sealing.associatedData_injective (data.symm.trans data'))
    · exact .inl older

theorem sound_of_run (blank : init.log = []) (run : Runs step Fresh init events s) :
    Sound events s := by
  refine run.invariant ⟨?_, ?_, ?_⟩ fun events s label s' _ fresh taken sound =>
    sound.step fresh taken
  · rw [blank]
    exact List.nodup_nil
  · rintro _ _ _ _ ⟨_, member, _⟩
    cases member
  · rw [blank]
    exact fun _ member => by cases member

/-- **Handles survive the changes of keys that keep theirs, and nothing else opens.** -/
theorem handles_survive (blank : init.log = []) (run : Runs step Fresh init events s) :
    HandlesSurvive events s where
  opens binding handle key sealed nonce made known := by
    have sound := sound_of_run blank run
    obtain ⟨e, logged, rfl, data, plaintext, rfl⟩ := sound.logged _ _ _ _ made
    have read := refreshHandle.fromBytes_encode handle.property []
    rw [List.append_nil, ← plaintext] at read
    exact (openHandle_eq_ok_iff sound.distinct).mpr ⟨e, logged, known, data, read, rfl⟩
  refused binding handle key sealed nonce made binding' apart := by
    have sound := sound_of_run blank run
    obtain ⟨e, logged, rfl, data, plaintext, rfl⟩ := sound.logged _ _ _ _ made
    refine openHandle_of_not_ok fun opened opens => ?_
    obtain ⟨e', logged', known, data', _, same⟩ := (openHandle_eq_ok_iff sound.distinct).mp opens
    obtain rfl := sound.distinct.eq_of_nonce logged logged' (nonce_of_text same)
    rcases apart with unknown | other
    · exact unknown known
    · cases Sealing.associatedData_injective (data'.symm.trans data)
      exact other rfl
  produced binding sealed opened nonce opens := by
    have sound := sound_of_run blank run
    obtain ⟨e, logged, known, data, read, rfl⟩ := (openHandle_eq_ok_iff sound.distinct).mp opens
    obtain ⟨handle, plaintext, made⟩ := sound.produced e logged binding data
    have read' := refreshHandle.fromBytes_encode handle.property []
    rw [List.append_nil, ← plaintext, read] at read'
    exact ⟨handle, (Option.some.inj read').symm, e.key, known, made⟩
  unavailable := unavailable_of_sealer

end Runs

/-! ## The relay's requests -/

/-- The sealer that the surroundings of a server have. -/
def surroundingSealer {parse : Redirects.Parser} {rules : Config.Rules}
    (around : Surroundings parse rules) : Sealer where
  sealBytes := around.sealBytes
  unsealBytes := around.unsealBytes

/-- A refresh opens the handle that it is given. -/
theorem openHandle_of_surroundings {parse : Redirects.Parser} {rules : Config.Rules}
    (around : Surroundings parse rules) (binding : HandleBinding) (handle : String) :
    Flows.openHandle around binding handle =
      (openHandle (surroundingSealer around) binding handle).map OpenedHandle.upstreamToken := by
  unfold Flows.openHandle openHandle surroundingSealer handlePrefix
  cases Routes.stripPrefix "rrt1.".toList handle.toList with
  | none => rfl
  | some envelope =>
      dsimp only
      cases around.unsealBytes (String.ofList envelope)
          (Sealing.handle binding).associatedData with
      | ok plaintext =>
          dsimp only
          cases refreshHandle.fromBytes plaintext with
          | none => rfl
          | some opened => rfl
      | error error =>
          cases error with
          | unavailable => rfl
          | invalidKey => rfl
          | invalidEnvelope => rfl

/-! ## A change of keys -/

/-- URL-safe base64 without padding, and a cipher that leaves the plaintext as it is. -/
def sampleLibraries : Libraries where
  encode64 bytes := String.ofList (Base64.encode Base64.urlSafe bytes)
  decode64 text := Base64.decode Base64.urlSafe text.toList
  decode64_eq_some_iff text bytes := by
    rw [Base64.decode_eq_some_iff, ← String.toList_inj, String.toList_ofList]
  cipher :=
    { encrypt := fun _ _ _ plaintext => some (plaintext ++ List.replicate 16 0)
      tagged := by
        rintro _ _ _ plaintext _ encrypted
        cases encrypted
        simp }

def oldKey : Bytes 32 := ⟨List.replicate 32 1, List.length_replicate⟩
def newKey : Bytes 32 := ⟨List.replicate 32 2, List.length_replicate⟩

def sampleBinding : HandleBinding := ⟨Codes.sampleKey, Codes.zeroBytes 32⟩

def sampleHandle : Handle :=
  ⟨⟨"upstream-token", 1778913377⟩, Codec.string_fitting.mpr (by decide +kernel),
    Codec.u64_fitting.mpr (by decide)⟩

/-- A handle is sealed, and the key is changed. -/
def sampleState : State sampleLibraries := ⟨⟨oldKey, none⟩, []⟩

def sampleSealed : State sampleLibraries :=
  sampleState.logged (Codes.zeroBytes 24) (.handle sampleBinding)
    (refreshHandle.encode sampleHandle.val)

def sampleRotated : State sampleLibraries := ⟨⟨newKey, some oldKey⟩, sampleSealed.log⟩

def sampleEvents : List (Event (State sampleLibraries) Label) :=
  [⟨sampleSealed, .newKey newKey.val true, sampleRotated⟩,
    ⟨sampleState, .sealHandle sampleBinding sampleHandle (Codes.zeroBytes 24), sampleSealed⟩]

theorem sampleRun : Runs step Fresh sampleState sampleEvents sampleRotated := by
  refine .cons (.cons .nil ?_ rfl) ?_ rfl
  · rintro _ _ _ member
    cases member
  · rintro _ drawn
    cases drawn

theorem handles_survive_of_newKey : HandlesSurvive sampleEvents sampleRotated ∧
    ∃ sealed, openHandle (sampleRotated.keys.sealer sampleRotated.log (Codes.zeroBytes 24))
      sampleBinding sealed = .ok sampleHandle.val := by
  have survive := handles_survive rfl sampleRun
  exact ⟨survive, _, survive.opens sampleBinding sampleHandle oldKey _ _
    ⟨_, List.mem_cons_of_mem _ (List.mem_singleton_self _), _, rfl, rfl, rfl⟩ (.inr rfl)⟩

end OAuthRelay.Flows.Handles
