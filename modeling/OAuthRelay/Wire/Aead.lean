import Mathlib.Data.List.Nodup
import Mathlib.Data.Nat.Notation

/-!
# Ideal authenticated encryption

What has been encrypted is kept in a log, with the key, the nonce and the data it was bound to.
A ciphertext decrypts if it is in the log with the same key, nonce and data, and then to what the
log says. So nothing is forged, and nothing is learnt from a ciphertext.

No nonce is drawn twice. Then each nonce leads to one entry (`Distinct.eq_of_nonce`), and a
ciphertext decrypts to what it was made from and under the one key it was made with
(`decrypt_eq_some_iff`).
-/

set_option autoImplicit false

namespace OAuthRelay.Wire.Aead

variable {Key Nonce : Type}

/-- How a plaintext is encrypted under a key, with a nonce and bound to data; a cipher may refuse
one that is too long. A ciphertext has a tag, so it is not empty. -/
structure Cipher (Key Nonce : Type) where
  encrypt : Key → Nonce → List UInt8 → List UInt8 → Option (List UInt8)
  tagged : ∀ key nonce data plaintext ciphertext,
    encrypt key nonce data plaintext = some ciphertext → ciphertext ≠ []

/-- One encryption. -/
structure Entry (cipher : Cipher Key Nonce) where
  key : Key
  nonce : Nonce
  data : List UInt8
  plaintext : List UInt8
  ciphertext : List UInt8
  encrypted : cipher.encrypt key nonce data plaintext = some ciphertext

variable {cipher : Cipher Key Nonce}

theorem Entry.ciphertext_ne_nil (e : Entry cipher) : e.ciphertext ≠ [] :=
  cipher.tagged _ _ _ _ _ e.encrypted

variable (cipher) in
/-- The entry of an encryption. -/
def encryption (key : Key) (nonce : Nonce) (data plaintext : List UInt8) : Option (Entry cipher) :=
  (cipher.encrypt key nonce data plaintext).pmap
    (fun ciphertext encrypted => ⟨key, nonce, data, plaintext, ciphertext, encrypted⟩)
    fun _ found => found

theorem encryption_eq_some_iff {key : Key} {nonce : Nonce} {data plaintext : List UInt8}
    {e : Entry cipher} : encryption cipher key nonce data plaintext = some e ↔
      e.key = key ∧ e.nonce = nonce ∧ e.data = data ∧ e.plaintext = plaintext := by
  unfold encryption
  rw [Option.pmap_eq_some_iff]
  constructor
  · rintro ⟨ciphertext, encrypted, _, rfl⟩
    exact ⟨rfl, rfl, rfl, rfl⟩
  · rintro ⟨rfl, rfl, rfl, rfl⟩
    exact ⟨e.ciphertext, e.encrypted, e.encrypted, rfl⟩

/-! ## The log -/

/-- No nonce was drawn twice. -/
def Distinct (log : List (Entry cipher)) : Prop := (log.map Entry.nonce).Nodup

theorem Distinct.eq_of_nonce {log : List (Entry cipher)} (distinct : Distinct log)
    {e e' : Entry cipher} (logged : e ∈ log) (logged' : e' ∈ log) (same : e.nonce = e'.nonce) :
    e = e' :=
  List.inj_on_of_nodup_map distinct logged logged' same

variable [DecidableEq Key] [DecidableEq Nonce]

/-- A ciphertext decrypts to what the log has for it. -/
def decrypt (log : List (Entry cipher)) (key : Key) (nonce : Nonce)
    (data ciphertext : List UInt8) : Option (List UInt8) :=
  (log.find? fun e => e.key = key ∧ e.nonce = nonce ∧ e.data = data ∧
    e.ciphertext = ciphertext).map Entry.plaintext

/-- **A ciphertext decrypts to what it was made from.** -/
theorem decrypt_eq_some_iff {log : List (Entry cipher)} (distinct : Distinct log) {key : Key}
    {nonce : Nonce} {data ciphertext plaintext : List UInt8} :
    decrypt log key nonce data ciphertext = some plaintext ↔ ∃ e ∈ log, e.key = key ∧
      e.nonce = nonce ∧ e.data = data ∧ e.ciphertext = ciphertext ∧ e.plaintext = plaintext := by
  unfold decrypt
  rw [Option.map_eq_some_iff]
  constructor
  · rintro ⟨e, found, rfl⟩
    have same := List.find?_some found
    obtain ⟨key, nonce, data, ciphertext⟩ := of_decide_eq_true same
    exact ⟨e, List.mem_of_find?_eq_some found, key, nonce, data, ciphertext, rfl⟩
  · rintro ⟨e, member, rfl, rfl, rfl, rfl, rfl⟩
    cases found : log.find? fun e' => e'.key = e.key ∧ e'.nonce = e.nonce ∧ e'.data = e.data ∧
      e'.ciphertext = e.ciphertext with
    | none =>
        have absent := List.find?_eq_none.mp found e member
        simp at absent
    | some e' =>
        have same := List.find?_some found
        obtain ⟨_, nonce, _⟩ := of_decide_eq_true same
        obtain rfl := distinct.eq_of_nonce (List.mem_of_find?_eq_some found) member nonce
        exact ⟨e', rfl, rfl⟩

end OAuthRelay.Wire.Aead
