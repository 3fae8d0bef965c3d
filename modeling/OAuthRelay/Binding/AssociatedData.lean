import OAuthRelay.Binding.Fingerprint

/-!
# What sealed values are sealed for

Three kinds of values are sealed with a key that all of them share: handles, the records and
responses of a rotation, and the envelopes of a flow. The associated data tell them apart. They
are a text, followed by the fingerprint where the value is bound to an identity. A purpose and
the key of a relay have no NUL in them, so a NUL ends them; an envelope has the key of its
relay or upstream and nothing else, so no NUL at all.

Hence the associated data determine what a value was sealed for
(`Sealing.associatedData_injective`).
-/

set_option autoImplicit false

namespace OAuthRelay.Binding

open OAuthRelay.Wire OAuthRelay.Wire.Codec
open OAuthRelay.Codes (ResourceKey Bytes HandleBinding SealedText validKey validSegment
  utf8Bytes_injective)
open OAuthRelay.Rotation (Purpose OpenedHandle)

/-! ## Resource keys -/

theorem mem_intercalate {α : Type} {between c : α} : ∀ {texts : List (List α)},
    c ∈ [between].intercalate texts → c = between ∨ ∃ text ∈ texts, c ∈ text := by
  intro texts
  induction texts with
  | nil => simp [List.intercalate_nil]
  | cons text rest ih =>
      intro inside
      cases rest with
      | nil => exact .inr ⟨text, List.mem_singleton_self _, by simpa using inside⟩
      | cons text' rest =>
          rw [List.intercalate_cons_cons, List.append_assoc, List.mem_append, List.mem_append,
            List.mem_singleton] at inside
          rcases inside with here | rfl | there
          · exact .inr ⟨text, List.mem_cons_self .., here⟩
          · exact .inl rfl
          · rcases ih there with rfl | ⟨other, among, here⟩
            · exact .inl rfl
            · exact .inr ⟨other, List.mem_cons_of_mem _ among, here⟩

/-- Text whose bytes are the first of another's is the first of it. -/
theorem isPrefix_of_utf8Bytes {text other : String} {rest : List UInt8}
    (same : utf8Bytes text ++ rest = utf8Bytes other) : text.toList <+: other.toList := by
  apply List.isPrefix_of_utf8Encode_append_eq_utf8Encode ⟨rest.toArray⟩
  rw [String.utf8Encode_toList, String.utf8Encode_toList]
  apply ByteArray.ext
  rw [ByteArray.data_append]
  apply Array.toList_inj.mp
  rw [Array.toList_append]
  exact same

/-- A resource key has no NUL. -/
theorem nul_not_mem_key (key : ResourceKey) : '\x00' ∉ key.value.toList := by
  intro inside
  obtain ⟨value, valid, _⟩ := key
  simp only [validKey, Bool.and_eq_true, List.all_eq_true] at valid
  have parts : ['/'].intercalate (value.toList.splitOn '/') = value.toList :=
    List.intercalate_splitOn '/'
  rw [← parts] at inside
  rcases mem_intercalate inside with slash | ⟨segment, among, here⟩
  · exact absurd slash (by decide)
  · have segmentValid := valid.2 segment among
    simp only [validSegment, Bool.and_eq_true, List.all_eq_true] at segmentValid
    exact absurd (segmentValid.2 '\x00' here) (by decide)

theorem key_injective {a b : ResourceKey} (same : a.value = b.value) : a = b := by
  obtain ⟨_, _, _⟩ := a
  obtain ⟨_, _, _⟩ := b
  cases same
  rfl

/-! ## Associated data -/

/-- `RECORD_PURPOSE` and `GRACE_PURPOSE`. -/
def purposeText : Purpose → String
  | .record => "refresh-record"
  | .grace => "refresh-grace"

/-- What a value is sealed for. -/
inductive Sealing where
  /-- A handle, by `seal_handle`. -/
  | handle (binding : HandleBinding)
  /-- A record or a response, by the rotator's `seal`. -/
  | state (purpose : Purpose) (binding : HandleBinding) (storeKey : String)
  /-- A flow state or a code, by `seal_postcard`. -/
  | envelope (key : ResourceKey)
  deriving DecidableEq

/-- The text in front of the fingerprint, in `associated_data` of a handle and of the rotator. -/
def handleText (relay : ResourceKey) : String := "refresh:" ++ relay.value ++ "\x00"

def stateText (purpose : Purpose) (relay : ResourceKey) (storeKey : String) : String :=
  purposeText purpose ++ "\x00" ++ relay.value ++ "\x00" ++ storeKey ++ "\x00"

def Sealing.associatedData : Sealing → List UInt8
  | .handle binding => utf8Bytes (handleText binding.relay) ++ binding.fingerprint.val
  | .state purpose binding storeKey =>
      utf8Bytes (stateText purpose binding.relay storeKey) ++ binding.fingerprint.val
  | .envelope key => utf8Bytes key.value

/-! ## What they determine -/

/-- Bound texts are determined by their characters, up to the fingerprint. -/
theorem text_and_fingerprint {a b : String} {fingerprint fingerprint' : Bytes 32}
    (same : utf8Bytes a ++ fingerprint.val = utf8Bytes b ++ fingerprint'.val) :
    a.toList = b.toList ∧ fingerprint = fingerprint' := by
  obtain ⟨text, bytes⟩ :=
    List.append_inj' same (fingerprint.property.trans fingerprint'.property.symm)
  exact ⟨by rw [utf8Bytes_injective text], Subtype.ext bytes⟩

theorem handleText_injective {relay relay' : ResourceKey}
    (same : (handleText relay).toList = (handleText relay').toList) : relay = relay' := by
  simp only [handleText, String.toList_append, List.append_assoc] at same
  exact key_injective (String.toList_injective
    (List.append_cancel_right (List.append_cancel_left same)))

/-- The two purposes. -/
theorem nul_not_mem_purpose (purpose : Purpose) : '\x00' ∉ (purposeText purpose).toList := by
  cases purpose <;> decide +kernel

theorem stateText_injective {purpose purpose' : Purpose} {relay relay' : ResourceKey}
    {storeKey storeKey' : String}
    (same : (stateText purpose relay storeKey).toList =
      (stateText purpose' relay' storeKey').toList) :
    purpose = purpose' ∧ relay = relay' ∧ storeKey = storeKey' := by
  simp only [stateText, String.toList_append, List.append_assoc] at same
  rw [← List.append_assoc, ← List.append_assoc (purposeText purpose').toList] at same
  obtain ⟨purposes, rest⟩ := Framing.delimited '\x00' _ _ _ _ (nul_not_mem_purpose purpose)
    (nul_not_mem_purpose purpose') same
  rw [← List.append_assoc, ← List.append_assoc relay'.value.toList] at rest
  obtain ⟨relays, rest⟩ :=
    Framing.delimited '\x00' _ _ _ _ (nul_not_mem_key relay) (nul_not_mem_key relay') rest
  refine ⟨?_, key_injective (String.toList_injective relays),
    String.toList_injective (List.append_cancel_right rest)⟩
  cases purpose <;> cases purpose' <;> first | rfl | exact absurd purposes (by decide +kernel)

/-- A handle is sealed for no purpose of the rotation. -/
theorem handleText_ne_stateText {purpose : Purpose} {relay relay' : ResourceKey}
    {storeKey : String} :
    (handleText relay).toList ≠ (stateText purpose relay' storeKey).toList := by
  intro same
  have eighth := congrArg (fun text => text[7]?) same
  cases purpose <;> simp [handleText, stateText, purposeText, String.toList_append] at eighth

/-- Bytes that go on after a text with a NUL are no resource key. -/
theorem append_ne_key {text : String} {key : ResourceKey} {rest : List UInt8}
    (nul : '\x00' ∈ text.toList) : utf8Bytes text ++ rest ≠ utf8Bytes key.value :=
  fun same => nul_not_mem_key key ((isPrefix_of_utf8Bytes same).subset nul)

theorem nul_mem_handleText (relay : ResourceKey) : '\x00' ∈ (handleText relay).toList := by
  simp [handleText]

theorem nul_mem_stateText (purpose : Purpose) (relay : ResourceKey) (storeKey : String) :
    '\x00' ∈ (stateText purpose relay storeKey).toList := by
  simp [stateText]

/-- **The associated data determine the purpose, the relay key, the store key and the fingerprint
of a sealed value, and no envelope shares them with a handle or a rotation's state.** -/
theorem Sealing.associatedData_injective {a b : Sealing}
    (same : a.associatedData = b.associatedData) : a = b := by
  cases a with
  | handle binding =>
      cases b with
      | handle binding' =>
          obtain ⟨text, fingerprint⟩ := text_and_fingerprint same
          obtain ⟨_, _⟩ := binding
          obtain ⟨_, _⟩ := binding'
          cases handleText_injective text
          cases fingerprint
          rfl
      | state purpose binding' storeKey =>
          exact absurd (text_and_fingerprint same).1 handleText_ne_stateText
      | envelope key => exact absurd same (append_ne_key (nul_mem_handleText _))
  | state purpose binding storeKey =>
      cases b with
      | handle binding' =>
          exact absurd (text_and_fingerprint same).1.symm handleText_ne_stateText
      | state purpose' binding' storeKey' =>
          obtain ⟨text, fingerprint⟩ := text_and_fingerprint same
          obtain ⟨_, _⟩ := binding
          obtain ⟨_, _⟩ := binding'
          obtain ⟨rfl, relays, rfl⟩ := stateText_injective text
          cases relays
          cases fingerprint
          rfl
      | envelope key => exact absurd same (append_ne_key (nul_mem_stateText _ _ _))
  | envelope key =>
      cases b with
      | handle binding => exact absurd same.symm (append_ne_key (nul_mem_handleText _))
      | state purpose binding storeKey =>
          exact absurd same.symm (append_ne_key (nul_mem_stateText _ _ _))
      | envelope key' => rw [key_injective (utf8Bytes_injective same)]

/-- The sealer's text for a value. -/
def Sealing.seal (sealing : Sealing) (plaintext : List UInt8) : SealedText where
  associatedData := sealing.associatedData
  plaintext := plaintext

/-- **A sealed text opens for what it was sealed for, and for nothing else.** -/
theorem Sealing.unseal_seal {a b : Sealing} {plaintext opened : List UInt8} :
    (a.seal plaintext).unseal b.associatedData = some opened ↔ a = b ∧ plaintext = opened := by
  unfold SealedText.unseal Sealing.seal
  constructor
  · intro unsealed
    split at unsealed
    · rename_i same
      exact ⟨associatedData_injective same, Option.some.inj unsealed⟩
    · cases unsealed
  · rintro ⟨rfl, rfl⟩
    exact if_pos rfl

/-! ## Handles -/

/-- `RefreshHandle` on the wire. -/
def refreshHandle : Codec OpenedHandle :=
  (string.pair u64).map (fun (upstreamToken, issuedAt) => ⟨upstreamToken, issuedAt⟩)
    (fun handle => (handle.upstreamToken, handle.issuedAt)) fun _ => rfl

/-- `seal_handle`, without the prefix. -/
def sealHandle (binding : HandleBinding) (handle : OpenedHandle) : SealedText :=
  (Sealing.handle binding).seal (refreshHandle.encode handle)

/-- `open_handle`, without the prefix. -/
def openHandle (binding : HandleBinding) (text : SealedText) : Option OpenedHandle :=
  (text.unseal (Sealing.handle binding).associatedData).bind refreshHandle.fromBytes

/-- A handle opens to what was sealed. -/
theorem openHandle_sealHandle {binding : HandleBinding} {handle : OpenedHandle}
    (fits : refreshHandle.Fitting handle) :
    openHandle binding (sealHandle binding handle) = some handle := by
  have opened := Sealing.unseal_seal.mpr
    (And.intro (Eq.refl (Sealing.handle binding)) (Eq.refl (refreshHandle.encode handle)))
  have back := refreshHandle.fromBytes_encode fits []
  rw [List.append_nil] at back
  rw [openHandle, sealHandle, opened, Option.bind_some, back]

/-- **A handle opens under the binding it was sealed for, and under no other.** -/
theorem binding_of_openHandle {binding binding' : HandleBinding} {handle opened : OpenedHandle}
    (opens : openHandle binding' (sealHandle binding handle) = some opened) :
    binding = binding' := by
  obtain ⟨plaintext, unsealed, _⟩ := Option.bind_eq_some_iff.mp opens
  cases (Sealing.unseal_seal.mp unsealed).1
  rfl

/-! ## Store keys -/

/-- What `digest_key` feeds the hasher. -/
def digestInput (relay : ResourceKey) (material : List (List UInt8)) : List UInt8 :=
  utf8Bytes (relay.value ++ "\x00") ++ material.flatMap fun part => part ++ [0]

/-- The hash of store keys and how it is printed. -/
structure Digest where
  sha256 : List UInt8 → Bytes 32
  /-- URL-safe base64 without padding. -/
  encode : Bytes 32 → String

/-- `digest_key`. -/
def Digest.key (digest : Digest) (relay : ResourceKey) (start : String)
    (material : List (List UInt8)) : String :=
  start ++ digest.encode (digest.sha256 (digestInput relay material))

def Digest.handleKey (digest : Digest) (relay : ResourceKey) (handle : String) : String :=
  digest.key relay "refresh:handle:" [utf8Bytes handle]

def Digest.graceKey (digest : Digest) (relay : ResourceKey) (handleKey : String)
    (claimId : Bytes 16) : String :=
  digest.key relay "refresh:grace:" [utf8Bytes handleKey, claimId.val]

def Digest.headKey (digest : Digest) (relay : ResourceKey) (familyId : Bytes 16) : String :=
  digest.key relay "refresh:head:" [familyId.val]

def Digest.familyKey (digest : Digest) (relay : ResourceKey) (familyId : Bytes 16) : String :=
  digest.key relay "refresh:revoked:" [familyId.val]

theorem key_of_isPrefix {a b : ResourceKey}
    (starts : (a.value ++ "\x00").toList <+: (b.value ++ "\x00").toList) : a = b := by
  obtain ⟨rest, same⟩ := starts
  simp only [String.toList_append] at same
  have whole := Framing.delimited '\x00' _ _ rest [] (nul_not_mem_key a) (nul_not_mem_key b)
    (by simpa using same)
  exact key_injective (String.toList_injective whole.1)

/-- **Different relays hash different bytes, whatever they hash.** -/
theorem digestInput_injective {relay relay' : ResourceKey} {material material' : List (List UInt8)}
    (same : digestInput relay material = digestInput relay' material') :
    relay = relay' ∧ (material.flatMap fun part => part ++ [0]) =
      material'.flatMap fun part => part ++ [0] := by
  have relays : relay = relay' := by
    rcases List.append_eq_append_iff.mp same with ⟨rest, shorter, _⟩ | ⟨rest, longer, _⟩
    · exact key_of_isPrefix (isPrefix_of_utf8Bytes shorter.symm)
    · exact (key_of_isPrefix (isPrefix_of_utf8Bytes longer.symm)).symm
  subst relays
  exact ⟨rfl, List.append_cancel_left same⟩

end OAuthRelay.Binding
