/-
`src/client.rs`: the app role-half.

`SessionClient` is generic over three traits, and everything it does to the
outside world it does through one of their methods. Those methods are the
actions of an interactive program (`DigIpc.Interaction`): a client call is a
`Proc` over `Seam`, and what a method returns is the environment's reply. A
signer that is locked between two calls, a policy with a mind of its own, an
engine that sends anything at all are then just replies.

`ClientM` is the `&mut self` / `Result<_, SessionError>` / `?` of the source: it
threads the client's own state through, keeps it on the error path, and stops
at the first error. The only state besides the seams is `next_id`; it is a `u64`
and wraps, as it does in a release build, where `debug_assert_eq!` is also not
compiled.

The read loop is bounded by `MAX_INTERLEAVED_CALLBACKS`, so it is a structural
recursion on the callbacks it may still service, with no fuel beside it.
-/
import DigIpc.Engine
import DigIpc.Interaction

set_option autoImplicit false

open Interaction Serde
open StdIo (Error ErrorKind)

namespace DigIpc

/-! ## Sessions and errors -/

/-- A live, attached engine session. -/
structure Session where
  session_id : String
  engine_capabilities : List String
  profile_did : String
  deriving DecidableEq

/-- Errors from driving a session over the IPC channel. `Frame` carries
`serde_json`'s own error in the source; nothing reads it. -/
inductive SessionError
  | Io (e : Error)
  | Frame
  | Engine (code : Int64) (message : String)
  | IdMismatch
  | MalformedResponse
  | InvalidNonceLength (expected actual : ℕ)
  | NotASignCallback
  | TooManyCallbacks
  | Locked
  deriving DecidableEq

/-! ## The seams -/

/-- The methods the client calls on its transport, its signer and its policy,
and the replacement of the transport by `reattach`. `sign` is the signer's
infallible method. -/
inductive Seam
  | send_frame (frame : String)
  | recv_frame
  | signing_public_key_hex
  | sign (message : Bytes)
  | try_sign (message : Bytes)
  | authorize (request : SignRequest)
  | set_transport

/-- What each method returns. -/
@[reducible] def Seam.Reply : Seam → Type
  | send_frame _ => Except Error Unit
  | recv_frame => Except Error String
  | signing_public_key_hex => String
  | sign _ => Signature
  | try_sign _ => Option Signature
  | authorize _ => SignDecision
  | set_transport => Unit

/-- A call of a seam method and its result. -/
abbrev SeamEvent : Type := Event Seam Seam.Reply

/-- The client's own state. -/
structure SessionClient where
  next_id : UInt64
  deriving DecidableEq

/-- `SessionClient::new`. -/
def SessionClient.new : SessionClient := { next_id := 1 }

/-- A method of the client: from its state to a program that ends with a result
and the state afterwards. -/
def ClientM (α : Type) : Type :=
  SessionClient → Proc Seam Seam.Reply (Except SessionError α × SessionClient)

namespace ClientM

instance : Monad ClientM where
  pure a := fun client => .ret (.ok a, client)
  bind x f := fun client => (x client).bind fun
    | (.ok a, client) => f a client
    | (.error e, client) => .ret (.error e, client)

/-- Return an error. -/
def throw {α : Type} (e : SessionError) : ClientM α := fun client => .ret (.error e, client)

/-- `?` on a `serde_json::Result`. -/
def orFrame {α : Type} : Option α → ClientM α
  | some a => pure a
  | none => throw .Frame

/-- `?` on an `io::Result`. -/
def orIo {α : Type} : Except Error α → ClientM α
  | .ok a => pure a
  | .error e => throw (.Io e)

/-- Call a seam method. -/
def perform (e : Seam) : ClientM e.Reply := fun client => .vis e fun r => .ret (.ok r, client)

end ClientM

open ClientM

def send_frame (frame : String) : ClientM Unit := do orIo (← perform (.send_frame frame))
def recv_frame : ClientM String := do orIo (← perform .recv_frame)
def signing_public_key_hex : ClientM String := perform .signing_public_key_hex
def try_sign (message : Bytes) : ClientM (Option Signature) := perform (.try_sign message)
def authorize (request : SignRequest) : ClientM SignDecision := perform (.authorize request)

/-- `let id = self.next_id; self.next_id += 1;` -/
def take_id : ClientM UInt64 := fun client =>
  .ret (.ok client.next_id, { client with next_id := client.next_id + 1 })

/-! ## `impl SessionClient` -/

section methods

variable (X : Crates)

/-- Write a JSON-RPC success reply to an engine-initiated request. -/
def send_result (id : Value) (result : Json) : ClientM Unit :=
  send_frame (X.json.to_string (RpcResult.mk JSONRPC_VERSION id result).encode)

/-- Write a JSON-RPC error reply to an engine-initiated request. -/
def send_error (id : Value) (code : Int64) (message : String) : ClientM Unit :=
  send_frame (X.json.to_string
    (RpcErrorReply.mk JSONRPC_VERSION id { code, message }).encode)

/-- Service a parsed `sign` callback frame: policy-gate, sign, and reply. -/
def service_sign_callback (frame : IncomingFrame) : ClientM SignDecision := do
  let id := frame.id.getD Value.Null
  -- `?`: parameters that do not decode end the call before anything is answered
  let params ← orFrame (SignCallbackParams.decode (frame.params.getD Value.Null).tree)
  match X.base64_decode params.payload_b64 with
  | none =>
    send_error X id SignErrorCode.SignDenied.code "sign payload is not valid base64"
    return .Deny "invalid base64 payload"
  | some payload =>
    let decision ← authorize
      { session_id := params.session_id, op_id := params.op_id,
        payload_type := params.payload_type, payload, context := params.context }
    match decision with
    | .Allow =>
      -- the tagged message is signed, never the bytes the engine sent
      match sign_callback_message params.payload_type payload with
      | some message =>
        match ← try_sign message with
        | some signature =>
          let pubkey_hex ← signing_public_key_hex
          send_result X id (SignCallbackResult.mk
            (X.base64_encode signature.as_bytes) pubkey_hex).encode
          return decision
        | none =>
          -- a locked signer: no signature is framed
          send_error X id SignErrorCode.Locked.code
            "active profile is locked; no key to sign with"
          return .Deny "active profile is locked"
      | none =>
        send_error X id SignErrorCode.SignDenied.code
          "sign payload_type exceeds the maximum length"
        return .Deny "payload_type too long"
    | .Deny reason =>
      send_error X id SignErrorCode.SignDenied.code reason
      return decision

/-- What `read_response` makes of a frame that is not a callback. -/
def response_of {R : Type} (decode : Json → Option R) (awaited_id : UInt64)
    (frame : IncomingFrame) : Except SessionError R :=
  -- the id is checked before anything else is looked at
  if frame.id_u64 ≠ some awaited_id then .error .IdMismatch
  else match frame.error with
    | some error => .error (.Engine error.code error.message)
    | none => match frame.result with
      | none => .error .MalformedResponse
      | some result => match decode result.tree with
        | none => .error .Frame
        | some r => .ok r

/-- One turn of the loop of `read_response`: read a frame, hand a `sign`
callback to `on_callback`, and let anything else decide the call. -/
def read_turn {R : Type} (decode : Json → Option R) (awaited_id : UInt64)
    (on_callback : IncomingFrame → ClientM R) : ClientM R := do
  let raw ← recv_frame
  let frame ← orFrame (IncomingFrame.from_str X raw)
  if frame.method = some METHOD_SIGN then on_callback frame
  else match response_of decode awaited_id frame with
    | .error e => throw e
    | .ok r => return r

/-- Read frames until the response for `awaited_id` arrives, servicing
interleaved `sign` callbacks along the way. The last argument is how many more
may be serviced: the source counts `callbacks_serviced` up from zero and gives
up past `MAX_INTERLEAVED_CALLBACKS`. -/
def read_response_loop {R : Type} (decode : Json → Option R) (awaited_id : UInt64) :
    ℕ → ClientM R
  -- one callback past the limit: it is read and not serviced
  | 0 => read_turn X decode awaited_id fun _ => throw .TooManyCallbacks
  | callbacks_left + 1 => read_turn X decode awaited_id fun frame => do
    let _ ← service_sign_callback X frame
    read_response_loop decode awaited_id callbacks_left

/-- `SessionClient::read_response`. -/
def read_response {R : Type} (decode : Json → Option R) (awaited_id : UInt64) : ClientM R :=
  read_response_loop X decode awaited_id MAX_INTERLEAVED_CALLBACKS

/-- The text of a request. -/
def request_frame (id : UInt64) (method : String) (params : Json) : String :=
  X.json.to_string (RpcRequest.mk JSONRPC_VERSION id method params).encode

/-- Send a JSON-RPC request and read its response. -/
def call {R : Type} (decode : Json → Option R) (method : String) (params : Json) :
    ClientM R := do
  let id ← take_id
  send_frame (request_frame X id method params)
  read_response X decode id

/-- Run the full handshake for `profile`: `begin`, sign the challenge, `attach`. -/
def begin_and_attach (profile : ProfileAttachment) : ClientM Session := do
  let begin_pubkey_hex ← signing_public_key_hex
  let begin ← call X BeginResult.decode METHOD_BEGIN
    (BeginParams.mk profile.did begin_pubkey_hex).encode
  match X.base64_decode begin.nonce_b64 with
  | none => throw .MalformedResponse
  | some nonce =>
    -- checked before anything is signed
    if nonce.length ≠ NONCE_LEN then throw (.InvalidNonceLength NONCE_LEN nonce.length)
    else match ← try_sign (challenge_message nonce profile.did) with
      | none => throw .Locked
      | some signature =>
        let attach ← call X AttachResult.decode METHOD_ATTACH
          (AttachParams.mk begin.session_candidate
            (X.base64_encode signature.as_bytes) profile).encode
        return { session_id := attach.session_id,
                 engine_capabilities := attach.engine_capabilities,
                 profile_did := profile.did }

/-- Detach `session`: tell the engine to drop its context for it. -/
def detach (session : Session) : ClientM Unit := do
  let _ ← call X DetachResult.decode METHOD_DETACH (DetachParams.mk session.session_id).encode
  return ()

/-- Swap in a freshly-connected transport and re-run the handshake. -/
def reattach (profile : ProfileAttachment) : ClientM Session := do
  perform .set_transport
  (fun _ => .ret (.ok (), { next_id := 1 }) : ClientM Unit)
  begin_and_attach X profile

/-- Read one frame and, if it is an engine `sign` callback, service it. -/
def handle_next_sign_callback : ClientM SignDecision := do
  let raw ← recv_frame
  let frame ← orFrame (IncomingFrame.from_str X raw)
  if frame.method = some METHOD_SIGN then service_sign_callback X frame
  else throw .NotASignCallback

end methods

end DigIpc
