/-
`src/wire.rs`: the JSON-RPC 2.0 wire contract.

Each wire type is a structure with the source's fields. `encode` is its derived
`Serialize` (a tree, fields in declaration order), `decode` its derived
`Deserialize` out of `Serde`'s visitor, so a decoder names the declared fields
once and says for each whether it has a default.

`DetachResult {}` has no fields: any object decodes, and so does the empty
array.
-/
import DigIpc.Domain

set_option autoImplicit false

open Serde

namespace DigIpc

def JSONRPC_VERSION : String := "2.0"
def METHOD_BEGIN : String := "control.session.begin"
def METHOD_ATTACH : String := "control.session.attach"
def METHOD_DETACH : String := "control.session.detach"
def METHOD_SIGN : String := "sign"

/-! ## Handshake parameters and results -/

/-- `control.session.begin` request parameters. -/
structure BeginParams where
  profile_did : String
  signing_pubkey_hex : String
  deriving DecidableEq

namespace BeginParams

def encode (v : BeginParams) : Json :=
  .object [("profile_did", .string v.profile_did),
    ("signing_pubkey_hex", .string v.signing_pubkey_hex)]

def decode (j : Json) : Option BeginParams := do
  let field ← readFields ["profile_did", "signing_pubkey_hex"] j
  let profile_did ← required string (field "profile_did")
  let signing_pubkey_hex ← required string (field "signing_pubkey_hex")
  return { profile_did, signing_pubkey_hex }

end BeginParams

/-- `control.session.begin` result. -/
structure BeginResult where
  nonce_b64 : String
  session_candidate : String
  deriving DecidableEq

namespace BeginResult

def encode (v : BeginResult) : Json :=
  .object [("nonce_b64", .string v.nonce_b64),
    ("session_candidate", .string v.session_candidate)]

def decode (j : Json) : Option BeginResult := do
  let field ← readFields ["nonce_b64", "session_candidate"] j
  let nonce_b64 ← required string (field "nonce_b64")
  let session_candidate ← required string (field "session_candidate")
  return { nonce_b64, session_candidate }

end BeginResult

/-- The active profile's attachment payload. -/
structure ProfileAttachment where
  did : String
  subscriptions : List String
  config_digest : String
  deriving DecidableEq

namespace ProfileAttachment

def encode (v : ProfileAttachment) : Json :=
  .object [("did", .string v.did), ("subscriptions", ofStrings v.subscriptions),
    ("config_digest", .string v.config_digest)]

def decode (j : Json) : Option ProfileAttachment := do
  let field ← readFields ["did", "subscriptions", "config_digest"] j
  let did ← required string (field "did")
  let subscriptions ← required (array string) (field "subscriptions")
  let config_digest ← required string (field "config_digest")
  return { did, subscriptions, config_digest }

end ProfileAttachment

/-- `control.session.attach` request parameters. -/
structure AttachParams where
  session_candidate : String
  signature_b64 : String
  profile : ProfileAttachment
  deriving DecidableEq

namespace AttachParams

def encode (v : AttachParams) : Json :=
  .object [("session_candidate", .string v.session_candidate),
    ("signature_b64", .string v.signature_b64), ("profile", v.profile.encode)]

def decode (j : Json) : Option AttachParams := do
  let field ← readFields ["session_candidate", "signature_b64", "profile"] j
  let session_candidate ← required string (field "session_candidate")
  let signature_b64 ← required string (field "signature_b64")
  let profile ← required ProfileAttachment.decode (field "profile")
  return { session_candidate, signature_b64, profile }

end AttachParams

/-- `control.session.attach` result; `engine_capabilities` defaults to empty. -/
structure AttachResult where
  session_id : String
  engine_capabilities : List String
  deriving DecidableEq

namespace AttachResult

def encode (v : AttachResult) : Json :=
  .object [("session_id", .string v.session_id),
    ("engine_capabilities", ofStrings v.engine_capabilities)]

def decode (j : Json) : Option AttachResult := do
  let field ← readFields ["session_id", "engine_capabilities"] j
  let session_id ← required string (field "session_id")
  let engine_capabilities ← defaulted [] (array string) (field "engine_capabilities")
  return { session_id, engine_capabilities }

end AttachResult

/-- `control.session.detach` request parameters. -/
structure DetachParams where
  session_id : String
  deriving DecidableEq

namespace DetachParams

def encode (v : DetachParams) : Json := .object [("session_id", .string v.session_id)]

def decode (j : Json) : Option DetachParams := do
  let field ← readFields ["session_id"] j
  let session_id ← required string (field "session_id")
  return { session_id }

end DetachParams

/-- `control.session.detach` result (an empty ack). -/
structure DetachResult where
  deriving DecidableEq

namespace DetachResult

def encode (_ : DetachResult) : Json := .object []

def decode (j : Json) : Option DetachResult := do
  let _ ← readFields [] j
  return {}

end DetachResult

/-! ## The engine→app `sign` callback -/

/-- `sign` callback request parameters; `context` defaults to `None`. -/
structure SignCallbackParams where
  session_id : String
  op_id : String
  payload_type : String
  payload_b64 : String
  context : Option Value

namespace SignCallbackParams

def encode (v : SignCallbackParams) : Json :=
  .object [("session_id", .string v.session_id), ("op_id", .string v.op_id),
    ("payload_type", .string v.payload_type), ("payload_b64", .string v.payload_b64),
    ("context", ofOption v.context)]

def decode (j : Json) : Option SignCallbackParams := do
  let field ← readFields ["session_id", "op_id", "payload_type", "payload_b64", "context"] j
  let session_id ← required string (field "session_id")
  let op_id ← required string (field "op_id")
  let payload_type ← required string (field "payload_type")
  let payload_b64 ← required string (field "payload_b64")
  let context ← defaulted none (option value) (field "context")
  return { session_id, op_id, payload_type, payload_b64, context }

end SignCallbackParams

/-- `sign` callback result. -/
structure SignCallbackResult where
  signature_b64 : String
  pubkey_hex : String
  deriving DecidableEq

namespace SignCallbackResult

def encode (v : SignCallbackResult) : Json :=
  .object [("signature_b64", .string v.signature_b64), ("pubkey_hex", .string v.pubkey_hex)]

def decode (j : Json) : Option SignCallbackResult := do
  let field ← readFields ["signature_b64", "pubkey_hex"] j
  let signature_b64 ← required string (field "signature_b64")
  let pubkey_hex ← required string (field "pubkey_hex")
  return { signature_b64, pubkey_hex }

end SignCallbackResult

/-! ## The JSON-RPC 2.0 envelope -/

/-- A JSON-RPC error object. -/
structure RpcError where
  code : Int64
  message : String
  deriving DecidableEq

namespace RpcError

def encode (v : RpcError) : Json :=
  .object [("code", ofI64 v.code), ("message", .string v.message)]

def decode (j : Json) : Option RpcError := do
  let field ← readFields ["code", "message"] j
  let code ← required i64 (field "code")
  let message ← required string (field "message")
  return { code, message }

end RpcError

/-- A JSON-RPC request the app sends; `params` is already encoded. -/
structure RpcRequest where
  jsonrpc : String
  id : UInt64
  method : String
  params : Json

def RpcRequest.encode (v : RpcRequest) : Json :=
  .object [("jsonrpc", .string v.jsonrpc), ("id", ofU64 v.id), ("method", .string v.method),
    ("params", v.params)]

/-- A JSON-RPC success reply; `result` is already encoded. -/
structure RpcResult where
  jsonrpc : String
  id : Value
  result : Json

def RpcResult.encode (v : RpcResult) : Json :=
  .object [("jsonrpc", .string v.jsonrpc), ("id", v.id.tree), ("result", v.result)]

/-- A JSON-RPC error reply. -/
structure RpcErrorReply where
  jsonrpc : String
  id : Value
  error : RpcError

def RpcErrorReply.encode (v : RpcErrorReply) : Json :=
  .object [("jsonrpc", .string v.jsonrpc), ("id", v.id.tree), ("error", v.error.encode)]

/-- A frame arriving from the peer: a response or a peer-initiated request.
Every field is optional, so one type parses both directions. -/
structure IncomingFrame where
  id : Option Value
  method : Option String
  params : Option Value
  result : Option Value
  error : Option RpcError

namespace IncomingFrame

def decode (j : Json) : Option IncomingFrame := do
  let field ← readFields ["id", "method", "params", "result", "error"] j
  let id ← defaulted none (option value) (field "id")
  let method ← defaulted none (option string) (field "method")
  let params ← defaulted none (option value) (field "params")
  let result ← defaulted none (option value) (field "result")
  let error ← defaulted none (option RpcError.decode) (field "error")
  return { id, method, params, result, error }

/-- `serde_json::from_str::<IncomingFrame>`. -/
def from_str (X : Crates) (raw : String) : Option IncomingFrame :=
  (X.json.from_str raw).bind decode

/-- The integer id of the frame, if it has one. -/
def id_u64 (frame : IncomingFrame) : Option UInt64 := frame.id.bind Value.as_u64

end IncomingFrame

/-! ## The APP-SIGN error taxonomy -/

/-- The stable symbolic error codes. -/
inductive SignErrorCode
  | AuthRequired
  | BadMac
  | Replay
  | PairDenied
  | ConnectRequired
  | SignDenied
  | NoConfirmer
  | Locked
  deriving DecidableEq

namespace SignErrorCode

/-- The canonical symbol string, sent as the error `message`. -/
def symbol : SignErrorCode → String
  | AuthRequired => "AUTH_REQUIRED"
  | BadMac => "BAD_MAC"
  | Replay => "REPLAY"
  | PairDenied => "PAIR_DENIED"
  | ConnectRequired => "CONNECT_REQUIRED"
  | SignDenied => "SIGN_DENIED"
  | NoConfirmer => "NO_CONFIRMER"
  | Locked => "LOCKED"

/-- The numeric JSON-RPC error code. -/
def code : SignErrorCode → Int64
  | AuthRequired => -33001
  | BadMac => -33002
  | Replay => -33003
  | PairDenied => -33010
  | ConnectRequired => -33020
  | SignDenied => -33030
  | NoConfirmer => -33034
  | Locked => -33040

/-- No two entries share a code. -/
theorem code_injective : Function.Injective code := by
  intro c c' h
  cases c <;> cases c' <;> first | rfl | exact absurd h (by decide)

/-- The JSON-RPC error of this code. -/
def to_rpc_error (c : SignErrorCode) : RpcError := { code := c.code, message := c.symbol }

end SignErrorCode

end DigIpc
