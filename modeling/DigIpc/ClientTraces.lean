/-
Runs of the client written out.

`DigIpc.ClientSpec` says what a method may do; this file says that it does do
something, given the replies. `Performs x client tr out client'` is a whole run
of a method, and its rules build such runs from the source's control flow, one
for each step that goes well. They serve the results that exhibit a run.
-/
import DigIpc.ClientRuns
import DigIpc.WireRoundTrip

set_option autoImplicit false

open Interaction Serde
open StdIo (Error ErrorKind)

namespace DigIpc

/-! ## Methods -/

/-- The method `x` calls the seams in `tr`, in order, and ends with `out`. -/
def Performs {α : Type} (x : ClientM α) (client : SessionClient) (tr : ClientHistory)
    (out : Except SessionError α) (client' : SessionClient) : Prop :=
  Proc.Run (x client) tr (.ret (out, client'))

section Rules

variable {X : Crates} {α β : Type} {client client' client'' : SessionClient}
  {tr tr' : ClientHistory}

theorem performs_pure (a : α) : Performs (pure a : ClientM α) client [] (.ok a) client :=
  .nil _

theorem performs_throw (e : SessionError) :
    Performs (ClientM.throw e : ClientM α) client [] (.error e) client := .nil _

theorem performs_perform (e : Seam) (r : e.Reply) :
    Performs (ClientM.perform e) client [⟨e, r⟩] (.ok r) client := .cons (.nil _)

theorem performs_take_id :
    Performs take_id client [] (.ok client.next_id) { next_id := client.next_id + 1 } := .nil _

theorem performs_orFrame {o : Option α} {a : α} (ho : o = some a) :
    Performs (ClientM.orFrame o) client [] (.ok a) client := by
  rw [ho]
  exact .nil _

theorem Performs.bind {x : ClientM α} {f : α → ClientM β} {a : α} {out : Except SessionError β}
    (hx : Performs x client tr (.ok a) client') (hf : Performs (f a) client' tr' out client'') :
    Performs (x >>= f) client (tr ++ tr') out client'' := Proc.Run.bind hx hf

/-- A method up to the middle of what comes second. -/
theorem Performs.andThen {x : ClientM α} {f : α → ClientM β} {a : α}
    {q : Proc Seam Seam.Reply (Except SessionError β × SessionClient)}
    (hx : Performs x client tr (.ok a) client') (hf : Proc.Run (f a client') tr' q) :
    Proc.Run ((x >>= f) client) (tr ++ tr') q := Proc.Run.bind hx hf

/-- A result is passed on. -/
theorem Performs.map {x : ClientM α} {res : Except SessionError α}
    (hx : Performs x client tr res client') (f : α → β) :
    Performs (x >>= fun a => pure (f a)) client tr (res.map f) client' := by
  cases res with
  | error e => exact Proc.Run.bind_left hx _
  | ok a => exact Proc.Run.bind_left hx _

/-- An error skips the rest. -/
theorem Performs.bind_error {x : ClientM α} {f : α → ClientM β} {e : SessionError}
    (hx : Performs x client tr (.error e) client') :
    Performs (x >>= f) client tr (.error e) client' := Proc.Run.bind_left hx _

theorem performs_send_frame (frame : String) :
    Performs (send_frame frame) client [⟨.send_frame frame, .ok ()⟩] (.ok ()) client :=
  (performs_perform (.send_frame frame) (.ok ())).bind (performs_pure ())

theorem performs_recv_frame (raw : String) :
    Performs recv_frame client [⟨.recv_frame, .ok raw⟩] (.ok raw) client :=
  (performs_perform .recv_frame (.ok raw)).bind (performs_pure raw)

/-- A frame that is a callback is read and serviced. -/
theorem performs_handle_next {raw : String} {frame : IncomingFrame}
    {out : Except SessionError SignDecision}
    (hparse : IncomingFrame.from_str X raw = some frame) (hmethod : frame.method = some METHOD_SIGN)
    (hservice : Performs (service_sign_callback X frame) client tr out client') :
    Performs (handle_next_sign_callback X) client (⟨.recv_frame, .ok raw⟩ :: tr) out client' := by
  unfold handle_next_sign_callback
  refine (performs_recv_frame raw).bind ?_
  refine (performs_orFrame hparse).bind ?_
  rw [if_pos hmethod]
  exact hservice

/-- Parameters that do not decode end the service at once. -/
theorem performs_service_undecodable (client : SessionClient) {frame : IncomingFrame}
    (hparams : callback_params frame = none) :
    Performs (service_sign_callback X frame) client [] (.error .Frame) client := by
  unfold service_sign_callback
  have hframe : Performs (ClientM.orFrame (SignCallbackParams.decode (frame.params.getD
      Value.Null).tree)) client [] (.error .Frame) client := by
    rw [show SignCallbackParams.decode (frame.params.getD Value.Null).tree = none from hparams]
    exact performs_throw .Frame
  exact hframe.bind_error

/-- A payload that is not base64 is refused without asking anybody. -/
theorem performs_service_base64 (client : SessionClient) {frame : IncomingFrame}
    {params : SignCallbackParams} (hparams : callback_params frame = some params)
    (hpayload : X.base64_decode params.payload_b64 = none) :
    Performs (service_sign_callback X frame) client
      [⟨.send_frame (refusal_frame X frame .SignDenied "sign payload is not valid base64"), .ok ()⟩]
      (.ok (.Deny "invalid base64 payload")) client := by
  unfold service_sign_callback
  refine (performs_orFrame hparams).bind ?_
  simp only [hpayload]
  exact (performs_send_frame _).bind (performs_pure _)

/-- A denial of the policy is passed on. -/
theorem performs_service_denied (client : SessionClient) {frame : IncomingFrame}
    {params : SignCallbackParams} {payload : Bytes} (hparams : callback_params frame = some params)
    (hpayload : X.base64_decode params.payload_b64 = some payload) (reason : String) :
    Performs (service_sign_callback X frame) client
      [⟨.authorize (sign_request params payload), .Deny reason⟩,
        ⟨.send_frame (refusal_frame X frame .SignDenied reason), .ok ()⟩]
      (.ok (.Deny reason)) client := by
  unfold service_sign_callback
  refine (performs_orFrame hparams).bind ?_
  simp only [hpayload]
  refine (performs_perform (.authorize (sign_request params payload)) (.Deny reason)).bind ?_
  exact (performs_send_frame _).bind (performs_pure _)

/-- What the policy allows is signed. -/
theorem performs_service_signed (client : SessionClient) {frame : IncomingFrame}
    {params : SignCallbackParams} {payload m : Bytes} (hparams : callback_params frame = some params)
    (hpayload : X.base64_decode params.payload_b64 = some payload)
    (hmessage : sign_callback_message params.payload_type payload = some m) (signature : Signature)
    (pubkey_hex : String) :
    Performs (service_sign_callback X frame) client
      [⟨.authorize (sign_request params payload), .Allow⟩, ⟨.try_sign m, some signature⟩,
        ⟨.signing_public_key_hex, pubkey_hex⟩,
        ⟨.send_frame (signature_frame X frame signature pubkey_hex), .ok ()⟩]
      (.ok .Allow) client := by
  unfold service_sign_callback
  refine (performs_orFrame hparams).bind ?_
  simp only [hpayload]
  refine (performs_perform (.authorize (sign_request params payload)) .Allow).bind ?_
  simp only [hmessage]
  refine (performs_perform (.try_sign m) (some signature)).bind ?_
  refine (performs_perform .signing_public_key_hex pubkey_hex).bind ?_
  exact (performs_send_frame _).bind (performs_pure _)

/-- A frame that is not a callback decides at once, however many callbacks are left. -/
theorem performs_read_loop {decode : Json → Option α} {awaited_id : UInt64} {raw : String}
    {frame : IncomingFrame} {res : Except SessionError α}
    (hparse : IncomingFrame.from_str X raw = some frame) (hmethod : frame.method ≠ some METHOD_SIGN)
    (hresponse : response_of decode awaited_id frame = res) (callbacks_left : ℕ) :
    Performs (read_response_loop X decode awaited_id callbacks_left) client [⟨.recv_frame, .ok raw⟩]
      res client := by
  have hturn : ∀ on_callback, Performs (read_turn X decode awaited_id on_callback) client
      [⟨.recv_frame, .ok raw⟩] res client := by
    intro on_callback
    unfold read_turn
    refine (performs_recv_frame raw).bind ?_
    refine (performs_orFrame hparse).bind ?_
    rw [if_neg hmethod, hresponse]
    cases res with
    | error e => exact performs_throw e
    | ok a => exact performs_pure a
  cases callbacks_left with
  | zero => exact hturn _
  | succ n => exact hturn _

theorem performs_read_response {decode : Json → Option α} {awaited_id : UInt64} {raw : String}
    {frame : IncomingFrame} {res : Except SessionError α}
    (hparse : IncomingFrame.from_str X raw = some frame) (hmethod : frame.method ≠ some METHOD_SIGN)
    (hresponse : response_of decode awaited_id frame = res) :
    Performs (read_response X decode awaited_id) client [⟨.recv_frame, .ok raw⟩] res client :=
  performs_read_loop hparse hmethod hresponse MAX_INTERLEAVED_CALLBACKS

/-- A callback that comes first is serviced, and the next frame is read. -/
theorem performs_read_callback {decode : Json → Option α} {awaited_id : UInt64} {raw raw' : String}
    {frame frame' : IncomingFrame} {decision : SignDecision} {res : Except SessionError α}
    (hparse : IncomingFrame.from_str X raw = some frame) (hmethod : frame.method = some METHOD_SIGN)
    (hservice : Performs (service_sign_callback X frame) client tr (.ok decision) client')
    (hparse' : IncomingFrame.from_str X raw' = some frame') (hmethod' : frame'.method ≠ some METHOD_SIGN)
    (hresponse : response_of decode awaited_id frame' = res) :
    Performs (read_response X decode awaited_id) client
      (⟨.recv_frame, .ok raw⟩ :: tr ++ [⟨.recv_frame, .ok raw'⟩]) res client' := by
  show Performs (read_turn X decode awaited_id fun frame => do
    let _ ← service_sign_callback X frame
    read_response_loop X decode awaited_id 63) client _ res client'
  unfold read_turn
  refine (performs_recv_frame raw).bind ?_
  refine (performs_orFrame hparse).bind ?_
  rw [if_pos hmethod]
  exact hservice.bind (performs_read_loop hparse' hmethod' hresponse 63)

/-- A request, and what is read after it. -/
theorem performs_call {decode : Json → Option α} (method : String) (params : Json)
    {res : Except SessionError α} (hread : Performs (read_response X decode client.next_id)
      { next_id := client.next_id + 1 } tr res client') :
    Performs (call X decode method params) client
      (⟨.send_frame (request_frame X client.next_id method params), .ok ()⟩ :: tr) res client' := by
  unfold call
  refine performs_take_id.bind ?_
  exact (performs_send_frame _).bind hread

/-- A handshake up to its challenge. What is left of it signs the challenge, sends the `attach`,
and returns what is read after it. -/
theorem performs_challenge (profile : ProfileAttachment) (pubkey_hex : String) {raw : String}
    {frame : IncomingFrame} {begin : BeginResult} {nonce : Bytes}
    (hparse : IncomingFrame.from_str X raw = some frame) (hmethod : frame.method ≠ some METHOD_SIGN)
    (hresponse : response_of BeginResult.decode client.next_id frame = .ok begin)
    (hnonce : X.base64_decode begin.nonce_b64 = some nonce) (hlength : nonce.length = NONCE_LEN) :
    ∃ rest : ClientM ClientOut,
      Proc.Run ((ClientOp.begin_and_attach profile).program X client)
        [⟨.signing_public_key_hex, pubkey_hex⟩,
          ⟨.send_frame (begin_frame X client.next_id profile pubkey_hex), .ok ()⟩,
          ⟨.recv_frame, .ok raw⟩] (rest { next_id := client.next_id + 1 }) ∧
      ∀ (signature : Signature) {tr : ClientHistory} {res : Except SessionError AttachResult}
        {client' : SessionClient},
        Performs (read_response X AttachResult.decode (client.next_id + 1))
          { next_id := client.next_id + 1 + 1 } tr res client' →
        Performs rest { next_id := client.next_id + 1 }
          (⟨.try_sign (challenge_message nonce profile.did), some signature⟩ ::
            ⟨.send_frame (attach_frame X (client.next_id + 1) begin signature profile), .ok ()⟩ :: tr)
          (res.map fun attach => .session { session_id := attach.session_id,
                                            engine_capabilities := attach.engine_capabilities,
                                            profile_did := profile.did }) client' := by
  have hkey : Performs signing_public_key_hex client _ _ client :=
    performs_perform .signing_public_key_hex pubkey_hex
  have hbegin := performs_call METHOD_BEGIN (BeginParams.mk profile.did pubkey_hex).encode
    (@performs_read_response X _ { next_id := client.next_id + 1 } _ _ _ _ _ hparse hmethod hresponse)
  -- what is left is a method of its own
  refine ⟨_ >>= fun session => pure (ClientOut.session session),
    (hkey.andThen (hbegin.andThen (.nil _))).bind_left _, ?_⟩
  intro signature tr res client' hread
  have hattach := @performs_call X _ { next_id := client.next_id + 1 } _ _ _ METHOD_ATTACH
    (AttachParams.mk begin.session_candidate (X.base64_encode signature.as_bytes) profile).encode
    _ hread
  rw [hnonce]
  simp only
  rw [if_neg (not_not.mpr hlength)]
  have hsign := @performs_perform { next_id := client.next_id + 1 }
    (.try_sign (challenge_message nonce profile.did)) (some signature)
  have htwice : ∀ f : AttachResult → Session,
      (res.map fun attach => ClientOut.session (f attach)) = (res.map f).map ClientOut.session := by
    intro f
    cases res with
    | error e => rfl
    | ok attach => rfl
  rw [htwice fun attach => Session.mk attach.session_id attach.engine_capabilities profile.did]
  refine Performs.map ?_ _
  refine hsign.bind ?_
  exact hattach.map _

/-- A handshake, and its two responses. -/
theorem performs_begin_and_attach (profile : ProfileAttachment) (pubkey_hex : String)
    {raw raw' : String} {frame frame' : IncomingFrame} {begin : BeginResult} {nonce : Bytes}
    {attach : AttachResult} (hparse : IncomingFrame.from_str X raw = some frame)
    (hmethod : frame.method ≠ some METHOD_SIGN)
    (hresponse : response_of BeginResult.decode client.next_id frame = .ok begin)
    (hnonce : X.base64_decode begin.nonce_b64 = some nonce) (hlength : nonce.length = NONCE_LEN)
    (signature : Signature) (hparse' : IncomingFrame.from_str X raw' = some frame')
    (hmethod' : frame'.method ≠ some METHOD_SIGN)
    (hresponse' : response_of AttachResult.decode (client.next_id + 1) frame' = .ok attach) :
    Performs ((ClientOp.begin_and_attach profile).program X) client
      [⟨.signing_public_key_hex, pubkey_hex⟩,
        ⟨.send_frame (begin_frame X client.next_id profile pubkey_hex), .ok ()⟩,
        ⟨.recv_frame, .ok raw⟩,
        ⟨.try_sign (challenge_message nonce profile.did), some signature⟩,
        ⟨.send_frame (attach_frame X (client.next_id + 1) begin signature profile), .ok ()⟩,
        ⟨.recv_frame, .ok raw'⟩]
      (.ok (.session { session_id := attach.session_id,
                       engine_capabilities := attach.engine_capabilities,
                       profile_did := profile.did }))
      { next_id := client.next_id + 1 + 1 } := by
  obtain ⟨p, hbegin, hattach⟩ :=
    performs_challenge profile pubkey_hex hparse hmethod hresponse hnonce hlength
  exact hbegin.trans (hattach signature (performs_read_response hparse' hmethod' hresponse'))

/-- `detach`, and what it makes of what is read after it. -/
theorem performs_detach (session : Session) {res : Except SessionError DetachResult}
    (hread : Performs (read_response X DetachResult.decode client.next_id)
      { next_id := client.next_id + 1 } tr res client') :
    Performs ((ClientOp.detach session).program X) client
      (⟨.send_frame (detach_frame X client.next_id session), .ok ()⟩ :: tr)
      (res.map fun _ => .detached) client' := by
  have hcall := performs_call METHOD_DETACH (DetachParams.mk session.session_id).encode hread
  have hdetach := (hcall.map fun _ => ()).map fun _ => ClientOut.detached
  cases res with
  | error e => exact hdetach
  | ok ack => exact hdetach

end Rules

/-! ## Environments -/

/-- What the seams reply, whatever has happened before. -/
abbrev Environment : Type := ClientHistory → (e : Seam) → e.Reply

namespace Environment

/-- The transport takes every frame. -/
def Accepts (env : Environment) : Prop := ∀ h text, env h (.send_frame text) = .ok ()

/-- All replies are the environment's. -/
def Rely (env : Environment) : ClientCond := fun h e => e.2 = env h e.1

/-- Run a method to its end. -/
def run (env : Environment) {α : Type} (x : ClientM α) (client : SessionClient)
    (h : ClientHistory) : ClientHistory × Except SessionError α × SessionClient :=
  Proc.exec env (x client) h

/-- What is true of a method is true of this run of it. -/
theorem run_spec (env : Environment) {G : ClientCond} {α : Type} {x : ClientM α}
    {client : SessionClient} {h : ClientHistory}
    {Q : Except SessionError α → SessionClient → ClientHistory → Prop}
    (hx : Spec env.Rely G x client Q h) :
    Q (env.run x client h).2.1 (env.run x client h).2.2 (h ++ (env.run x client h).1) :=
  Proc.wp_exec hx fun _ _ => rfl

/-- Every reply in this run is the environment's. -/
theorem mem_run (env : Environment) {α : Type} (x : ClientM α) (client : SessionClient)
    (h : ClientHistory) {e : SeamEvent} (he : e ∈ (env.run x client h).1) :
    ∃ h', e.2 = env h' e.1 := by
  obtain ⟨pre, post, heq⟩ := List.append_of_mem he
  have halong := Proc.along_exec env (x client) h
  exact ⟨h ++ pre, (Proc.along_iff _ _).mp halong pre e post heq⟩

/-- A whole call keeps its contract, and ends as it says. -/
theorem run_program (env : Environment) (X : Crates) (op : ClientOp) (client : SessionClient) :
    Proc.Since (ClientEvent X client op) [] (env.run (op.program X) client []).1 ∧
      Ends X client op (env.run (op.program X) client []).2.1
        (env.run (op.program X) client []).1 := by
  have hran : Proc.Since (ClientEvent X client op) [] (env.run (op.program X) client []).1 ∧
      Post X client op (env.run (op.program X) client []).2.1
        (env.run (op.program X) client []).2.2 (env.run (op.program X) client []).1 :=
    Proc.wp_exec (Proc.wp_since (program_spec X client op)) fun _ _ => trivial
  exact ⟨hran.1, hran.2.1⟩

/-- A run of a method whose replies are all the environment's. -/
theorem run_of_performs (env : Environment) (h : ClientHistory) {α : Type} {x : ClientM α}
    {client client' : SessionClient} {tr : ClientHistory} {out : Except SessionError α}
    (hx : Performs x client tr out client') (halong : Proc.Along env.Rely h tr) :
    env.run x client h = (tr, out, client') := Proc.exec_of_run hx rfl halong

end Environment

/-- The frames that went out. -/
def frames_sent (h : ClientHistory) : List String :=
  h.filterMap fun
    | ⟨.send_frame text, .ok ()⟩ => some text
    | _ => none

/-- The frames that came in. -/
def frames_read (h : ClientHistory) : List String :=
  h.filterMap fun
    | ⟨.recv_frame, .ok raw⟩ => some raw
    | _ => none

/-- How often a frame was awaited, whether one came in or not. -/
def reads (h : ClientHistory) : ℕ :=
  h.countP fun
    | ⟨.recv_frame, _⟩ => true
    | _ => false

/-! ## A response on the wire -/

section Response

variable {X : Crates}

/-- What the client reads of the text of a response. -/
def response_read (id : UInt64) (t : PayloadType) (v : t.Carrier) : IncomingFrame :=
  { id := some (Value.of (ofU64 id)), method := none, params := none,
    result := some (Value.of (t.encode v)), error := none }

theorem from_str_result_frame (hX : X.json.Faithful) (id : UInt64) (t : PayloadType)
    (ht : t ≠ .SignCallbackParams) (v : t.Carrier) :
    IncomingFrame.from_str X (result_frame X (Value.of (ofU64 id)) (t.encode v))
      = some (response_read id t v) := by
  have hplain : (RpcResult.mk JSONRPC_VERSION (Value.of (ofU64 id)) (t.encode v)).encode.Plain
      MAX_NESTING := by simp [RpcResult.encode, MAX_NESTING, t.plain ht v]
  unfold result_frame
  rw [IncomingFrame.from_str_plain hX hplain, RpcResult.decode_encode, t.nullable_encode]
  rfl

theorem from_str_error_frame (hX : X.json.Faithful) (id : UInt64) (code : Int64) (message : String) :
    IncomingFrame.from_str X (error_frame X (Value.of (ofU64 id)) code message)
      = some { id := some (Value.of (ofU64 id)), method := none, params := none, result := none,
               error := some { code, message } } := by
  have hplain : (RpcErrorReply.mk JSONRPC_VERSION (Value.of (ofU64 id)) { code, message }).encode.Plain
      MAX_NESTING := by simp [RpcErrorReply.encode, RpcError.encode, MAX_NESTING]
  unfold error_frame
  rw [IncomingFrame.from_str_plain hX hplain, RpcErrorReply.decode_encode]
  rfl

theorem response_of_read (id : UInt64) (t : PayloadType) (v : t.Carrier) :
    response_of t.decode id (response_read id t v) = .ok (t.reads v) := by
  have hdecode : t.decode (Value.of (t.encode v)).tree = some (t.reads v) := t.decode_normalize v
  have hid : (response_read id t v).id_u64 = some id := rfl
  unfold response_of
  rw [if_neg (not_not.mpr hid)]
  unfold response_read
  simp only
  rw [hdecode]

end Response

namespace Reference

/-- An owner that allows everything and signs what is short enough, behind a
transport that takes every frame and delivers `incoming`. -/
def environment (incoming : ℕ → Except Error String) : Environment
  | _, .send_frame _ => .ok ()
  | h, .recv_frame => incoming (reads h)
  | _, .signing_public_key_hex => key.to_hex crates
  | _, .sign m => sign m
  | _, .try_sign m => if m.length ≤ MAX_MESSAGE then some (sign m) else none
  | _, .authorize _ => .Allow
  | _, .set_transport => ()

/-- The environment of a peer that sends these frames and hangs up. -/
def delivering (texts : List String) : Environment :=
  environment fun j => (texts[j]?).elim (.error (Error.fromKind .UnexpectedEof)) .ok

/-- A callback that asks for three bytes to be signed. -/
def spend : SignCallbackParams :=
  { session_id := "session", op_id := "op", payload_type := "spend", payload_b64 := "AAEC",
    context := none }

def session : Session :=
  { session_id := "session", engine_capabilities := [], profile_did := "did" }

/-- The acknowledgement of its `detach`, under the first id. -/
def ack : String := result_frame crates (Value.of (ofU64 1)) (DetachResult.encode {})

theorem from_str_ack : IncomingFrame.from_str crates ack = some
    { id := some (Value.of (ofU64 1)), method := none, params := none,
      result := some (Value.of (DetachResult.encode {})), error := none } :=
  from_str_result_frame faithful.json 1 .DetachResult nofun {}

/-- A reply to nothing that was asked. -/
def noise : String := result_frame crates Value.Null (DetachResult.encode {})

theorem from_str_noise : IncomingFrame.from_str crates noise = some
    { id := none, method := none, params := none, result := some (Value.of (DetachResult.encode {})),
      error := none } := by
  unfold noise result_frame
  rw [IncomingFrame.from_str_to_string lossless.json, RpcResult.decode_encode]
  rfl

end Reference

/-! ## A callback on the wire -/

section Callback

variable {X : Crates}

/-- The text of an engine's callback. -/
def callback_frame (X : Crates) (id : UInt64) (params : SignCallbackParams) : String :=
  request_frame X id METHOD_SIGN params.encode

/-- What the client reads of it. -/
def callback_read (id : UInt64) (params : SignCallbackParams) : IncomingFrame :=
  { id := some (Value.of (ofU64 id)), method := some METHOD_SIGN,
    params := some (Value.of params.encode), result := none, error := none }

/-- It may carry any context, so it is as plain as its context. -/
theorem from_str_callback_frame (hX : X.json.Faithful) (id : UInt64) (params : SignCallbackParams)
    (hcontext : (ofOption params.context).Plain 125) :
    IncomingFrame.from_str X (callback_frame X id params) = some (callback_read id params) := by
  have hparams : params.encode.Plain 126 := by simp [SignCallbackParams.encode, hcontext]
  unfold callback_frame request_frame
  rw [RpcRequest.from_str hX _ hparams]
  rfl

theorem callback_params_read (id : UInt64) (params : SignCallbackParams) :
    callback_params (callback_read id params)
      = some { params with context := params.context.bind nullable } :=
  SignCallbackParams.decode_normalize params

end Callback

/-! ## Calls -/

/-- A client makes any run of the call it is in. -/
theorem run_events {X : Crates} {s₀ : ClientState} {client : SessionClient} {op : ClientOp}
    {ls : List ClientLabel} {h tr : ClientHistory} {p q : ClientProc}
    (hrun : Machine.Run (ClientStep X) s₀ ls (.busy client op h p)) (htr : Proc.Run p tr q) :
    Machine.Run (ClientStep X) s₀ (ls ++ tr.map .event) (.busy client op (h ++ tr) q) := by
  induction htr generalizing ls h with
  | nil => rwa [List.map_nil, List.append_nil, List.append_nil]
  | @cons e k r tr q _ ih =>
    have hnext := ih (hrun.step (.event r))
    rwa [List.append_assoc, List.append_assoc] at hnext

/-- An idle client makes any run of any call. -/
theorem run_call {X : Crates} {s₀ : ClientState} {client : SessionClient} {op : ClientOp}
    {ls : List ClientLabel} {tr : ClientHistory} {q : ClientProc}
    (hrun : Machine.Run (ClientStep X) s₀ ls (.idle client))
    (htr : Proc.Run (op.program X client) tr q) :
    Machine.Run (ClientStep X) s₀ (ls ++ .call op :: tr.map .event) (.busy client op tr q) := by
  have hbusy := run_events (hrun.step (.call op)) htr
  rwa [List.append_assoc] at hbusy

/-- What has happened in the first call of a client. -/
theorem in_progress_call (op : ClientOp) (h : ClientHistory) :
    in_progress some (.call op :: h.map .event) = some (op, h) := by
  induction h using List.reverseRecOn with
  | nil => rfl
  | append_singleton h e ih =>
    rw [List.map_append, List.map_singleton, ← List.cons_append, in_progress_snoc, ih]
    rfl

end DigIpc
