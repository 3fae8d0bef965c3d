import OAuthRelay.Kubernetes.Store

/-!
# The operations of a transient store

What is asked of a store that keeps nothing but records with a time to live, and which
requests every backend rejects.
-/

set_option autoImplicit false

namespace OAuthRelay.Contract

open Kubernetes (validKey validTtl)

variable {Value : Type}

/-- What is asked of a store. Times to live are in nanoseconds. -/
inductive Input (Value : Type) where
  | putIfAbsent (key : String) (value : Value) (ttl : ℕ)
  | get (key : String)
  | compareAndSwap (key : String) (expected new : Value) (ttl : ℕ)
  | delete (key : String)
  deriving DecidableEq

/-- The key that a request is about. -/
def Input.key : Input Value → String
  | .putIfAbsent key _ _ => key
  | .get key => key
  | .compareAndSwap key _ _ _ => key
  | .delete key => key

/-- The value that a request may write. -/
def Input.written : Input Value → Option Value
  | .putIfAbsent _ value _ => some value
  | .compareAndSwap _ _ new _ => some new
  | _ => none

/-- `validate_key` and `validate_ttl` accept the request. -/
def Input.valid : Input Value → Bool
  | .putIfAbsent key _ ttl => validKey key && validTtl ttl
  | .get key => validKey key
  | .compareAndSwap key _ _ ttl => validKey key && validTtl ttl
  | .delete key => validKey key

end OAuthRelay.Contract
