/-
`src/signer.rs`: what the two role-halves ask of their owners. The traits
themselves are seams: `SessionSigner` and `SignPolicy` are actions of the client
(`DigIpc.Client`), `DidSigningKeyResolver` is an argument of the engine's
`attach` (`DigIpc.Engine`). What remains here is the data they exchange.
-/
import DigIpc.Wire

set_option autoImplicit false

namespace DigIpc

/-- A decoded engine `sign` callback presented to a `SignPolicy`. -/
structure SignRequest where
  session_id : String
  op_id : String
  payload_type : String
  payload : Bytes
  context : Option Serde.Value

/-- A `SignPolicy`'s ruling on one engine `sign` callback. -/
inductive SignDecision
  | Allow
  | Deny (reason : String)
  deriving DecidableEq

/-- `DidSigningKeyResolver::resolve_signing_key`. -/
abbrev DidSigningKeyResolver : Type := String → Option SigningPublicKey

end DigIpc
