/-
What each method of the client can do, once.

`Spec R G x client Q h` is the weakest precondition of `DigIpc.Interaction` for a
method `x` of the client: from history `h`, under the rely `R`, every call of a
seam keeps the guarantee `G`, and the method ends with a result, a state and a
history that satisfy `Q`. The rules follow the source's control flow: one for
each of `?`, early return, seam call and sequencing, one for a turn of the read
loop, and one for the loop.

`ServiceEvent` and `AwaitEvent` are the guarantees of the code that runs while a
response is awaited. They say of each seam call what must come right before it
in the history, so that a signature can be traced back to the verdict that
allowed it, and a reply to the signature it carries. `AwaitEnds` says how the
wait can end. `service_sign_callback_spec` is the only place that walks through
the branches of that function.

`tally` is what a history says of the call in progress: the callback that has
not been answered yet, the frames read since the last request, and how many
requests there were. A request is a frame sent when no callback is owed an
answer; that it is told apart by this, and not by its text, keeps the results
below free of assumptions about the codec.
-/
import DigIpc.Client

set_option autoImplicit false

open Interaction Serde
open StdIo (Error ErrorKind)

namespace DigIpc

/-! ## The rules of `ClientM` -/

/-- The histories, relies and guarantees of the client. -/
abbrev ClientHistory : Type := History Seam Seam.Reply

abbrev ClientCond : Type := Proc.Cond Seam Seam.Reply

/-- Two last events of a history are one. -/
theorem last_eq {h h' : ClientHistory} {e e' : SeamEvent} (heq : h ++ [e] = h' ++ [e']) : e = e' :=
  List.head_eq_of_cons_eq (List.append_inj' heq rfl).2

/-- The weakest precondition of a method. -/
def Spec (R G : ClientCond) {α : Type} (x : ClientM α) (client : SessionClient)
    (Q : Except SessionError α → SessionClient → ClientHistory → Prop) (h : ClientHistory) : Prop :=
  Proc.wp R G (x client) (fun out h' => Q out.1 out.2 h') h

section Rules

variable {R G : ClientCond} {α β : Type} {client : SessionClient} {h : ClientHistory}

/-- Sequencing: an error skips the rest. -/
theorem spec_bind (x : ClientM α) (f : α → ClientM β)
    (Q : Except SessionError β → SessionClient → ClientHistory → Prop) :
    Spec R G (x >>= f) client Q h ↔
      Spec R G x client (fun out client' h' => match out with
        | .ok a => Spec R G (f a) client' Q h'
        | .error e => Q (.error e) client' h') h := by
  unfold Spec
  refine (Proc.wp_bind (x client) _ _ h).trans ?_
  constructor
  · intro hx
    refine Proc.wp_post hx fun out h' hout => ?_
    obtain ⟨out, client'⟩ := out
    cases out <;> exact hout
  · intro hx
    refine Proc.wp_post hx fun out h' hout => ?_
    obtain ⟨out, client'⟩ := out
    cases out <;> exact hout

theorem spec_perform (e : Seam) (Q : Except SessionError e.Reply → SessionClient → ClientHistory → Prop) :
    Spec R G (ClientM.perform e) client Q h ↔
      ∀ r, R h ⟨e, r⟩ → G h ⟨e, r⟩ ∧ Q (.ok r) client (h ++ [⟨e, r⟩]) := Iff.rfl

theorem spec_take_id (Q : Except SessionError UInt64 → SessionClient → ClientHistory → Prop) :
    Spec R G take_id client Q h ↔ Q (.ok client.next_id) { next_id := client.next_id + 1 } h := Iff.rfl

theorem spec_orFrame (o : Option α)
    (Q : Except SessionError α → SessionClient → ClientHistory → Prop) :
    Spec R G (ClientM.orFrame o) client Q h ↔
      match o with
      | some a => Q (.ok a) client h
      | none => Q (.error .Frame) client h := by
  cases o <;> exact Iff.rfl

theorem spec_post {x : ClientM α}
    {Q Q' : Except SessionError α → SessionClient → ClientHistory → Prop}
    (hx : Spec R G x client Q h) (hQ : ∀ out client' h', Q out client' h' → Q' out client' h') :
    Spec R G x client Q' h := Proc.wp_post hx fun _ _ => hQ _ _ _

/-! ## Frames in and out -/

theorem spec_send_frame {frame : String}
    {Q : Except SessionError Unit → SessionClient → ClientHistory → Prop}
    (hsend : ∀ r, R h ⟨.send_frame frame, r⟩ → G h ⟨.send_frame frame, r⟩)
    (hok : R h ⟨.send_frame frame, .ok ()⟩ → Q (.ok ()) client (h ++ [⟨.send_frame frame, .ok ()⟩]))
    (hio : ∀ e, R h ⟨.send_frame frame, .error e⟩ →
      Q (.error (.Io e)) client (h ++ [⟨.send_frame frame, .error e⟩])) :
    Spec R G (send_frame frame) client Q h := by
  unfold send_frame
  rw [spec_bind, spec_perform]
  intro r hr
  refine ⟨hsend r hr, ?_⟩
  cases r with
  | error e => exact hio e hr
  | ok _ => exact hok hr

theorem spec_recv_frame {Q : Except SessionError String → SessionClient → ClientHistory → Prop}
    (hrecv : ∀ r, R h ⟨.recv_frame, r⟩ → G h ⟨.recv_frame, r⟩)
    (hok : ∀ raw, R h ⟨.recv_frame, .ok raw⟩ → Q (.ok raw) client (h ++ [⟨.recv_frame, .ok raw⟩]))
    (hio : ∀ e, R h ⟨.recv_frame, .error e⟩ →
      Q (.error (.Io e)) client (h ++ [⟨.recv_frame, .error e⟩])) :
    Spec R G recv_frame client Q h := by
  unfold recv_frame
  rw [spec_bind, spec_perform]
  intro r hr
  refine ⟨hrecv r hr, ?_⟩
  cases r with
  | error e => exact hio e hr
  | ok raw => exact hok raw hr

/-- The last event of `h` read `frame`. -/
def Reads (X : Crates) (h : ClientHistory) (frame : IncomingFrame) : Prop :=
  ∃ h' raw, h = h' ++ [⟨.recv_frame, .ok raw⟩] ∧ IncomingFrame.from_str X raw = some frame

variable {X : Crates}

/-- **One turn of the read loop.** What it does with a frame is `on_callback`'s
or `response_of`'s business. -/
theorem spec_read_turn {decode : Json → Option α} {awaited_id : UInt64}
    {on_callback : IncomingFrame → ClientM α}
    {Q : Except SessionError α → SessionClient → ClientHistory → Prop}
    (hrecv : ∀ r, R h ⟨.recv_frame, r⟩ → G h ⟨.recv_frame, r⟩)
    (hio : ∀ e, R h ⟨.recv_frame, .error e⟩ →
      Q (.error (.Io e)) client (h ++ [⟨.recv_frame, .error e⟩]))
    (hframe : ∀ raw, R h ⟨.recv_frame, .ok raw⟩ → IncomingFrame.from_str X raw = none →
      Q (.error .Frame) client (h ++ [⟨.recv_frame, .ok raw⟩]))
    (hcallback : ∀ raw frame, R h ⟨.recv_frame, .ok raw⟩ →
      IncomingFrame.from_str X raw = some frame → frame.method = some METHOD_SIGN →
      Spec R G (on_callback frame) client Q (h ++ [⟨.recv_frame, .ok raw⟩]))
    (hresponse : ∀ raw frame, R h ⟨.recv_frame, .ok raw⟩ →
      IncomingFrame.from_str X raw = some frame → frame.method ≠ some METHOD_SIGN →
      Q (response_of decode awaited_id frame) client (h ++ [⟨.recv_frame, .ok raw⟩])) :
    Spec R G (read_turn X decode awaited_id on_callback) client Q h := by
  unfold read_turn
  rw [spec_bind]
  refine spec_recv_frame hrecv (fun raw hr => ?_) hio
  simp only
  rw [spec_bind, spec_orFrame]
  cases hparse : IncomingFrame.from_str X raw with
  | none => exact hframe raw hr hparse
  | some frame =>
      simp only
      by_cases hsign : frame.method = some METHOD_SIGN
      · rw [if_pos hsign]
        exact hcallback raw frame hr hparse hsign
      · rw [if_neg hsign]
        have hQ := hresponse raw frame hr hparse hsign
        cases hres : response_of decode awaited_id frame with
        | error e => rw [hres] at hQ; exact hQ
        | ok a => rw [hres] at hQ; exact hQ

end Rules

/-! ## Servicing a callback -/

section Service

variable (X : Crates)

/-- The text of a success reply. -/
def result_frame (id : Value) (result : Json) : String :=
  X.json.to_string (RpcResult.mk JSONRPC_VERSION id result).encode

/-- The text of an error reply. -/
def error_frame (id : Value) (code : Int64) (message : String) : String :=
  X.json.to_string (RpcErrorReply.mk JSONRPC_VERSION id { code, message }).encode

/-- The id a reply to `frame` echoes. -/
def reply_id (frame : IncomingFrame) : Value := frame.id.getD Value.Null

/-- The parameters of a callback, if they are complete and of the right types. -/
def callback_params (frame : IncomingFrame) : Option SignCallbackParams :=
  SignCallbackParams.decode (frame.params.getD Value.Null).tree

/-- What the policy is asked. -/
def sign_request (params : SignCallbackParams) (payload : Bytes) : SignRequest :=
  { session_id := params.session_id, op_id := params.op_id, payload_type := params.payload_type,
    payload, context := params.context }

/-- The last event of `h` read the callback `frame`, and its payload decodes. -/
structure Asked (frame : IncomingFrame) (params : SignCallbackParams) (payload : Bytes)
    (h : ClientHistory) : Prop where
  reads : Reads X h frame
  method : frame.method = some METHOD_SIGN
  decoded : callback_params frame = some params
  contents : X.base64_decode params.payload_b64 = some payload

/-- The last event of `h` is the policy's `verdict` on the callback `frame`. -/
def Judged (frame : IncomingFrame) (params : SignCallbackParams) (payload : Bytes)
    (verdict : SignDecision) (h : ClientHistory) : Prop :=
  ∃ h', Asked X frame params payload h' ∧
    h = h' ++ [⟨.authorize (sign_request params payload), verdict⟩]

/-- The policy has just allowed the callback `frame`, whose message is `m`. -/
def Allowed (frame : IncomingFrame) (m : Bytes) (h : ClientHistory) : Prop :=
  ∃ params payload, Judged X frame params payload .Allow h ∧
    sign_callback_message params.payload_type payload = some m

/-- Why a callback is refused: the code and the message of the error that says
so, and the decision the client reports. -/
inductive Refused (frame : IncomingFrame) :
    SignErrorCode → String → SignDecision → ClientHistory → Prop
  | base64 {params : SignCallbackParams} {h : ClientHistory} (reads : Reads X h frame)
      (method : frame.method = some METHOD_SIGN) (decoded : callback_params frame = some params)
      (payload : X.base64_decode params.payload_b64 = none) :
      Refused frame .SignDenied "sign payload is not valid base64"
        (.Deny "invalid base64 payload") h
  | denied {params : SignCallbackParams} {payload : Bytes} {reason : String} {h : ClientHistory}
      (judged : Judged X frame params payload (.Deny reason) h) :
      Refused frame .SignDenied reason (.Deny reason) h
  | too_long {params : SignCallbackParams} {payload : Bytes} {h : ClientHistory}
      (judged : Judged X frame params payload .Allow h)
      (message : sign_callback_message params.payload_type payload = none) :
      Refused frame .SignDenied "sign payload_type exceeds the maximum length"
        (.Deny "payload_type too long") h
  | locked {m : Bytes} {h : ClientHistory} (allowed : Allowed X frame m h) :
      Refused frame .Locked "active profile is locked; no key to sign with"
        (.Deny "active profile is locked") (h ++ [⟨.try_sign m, none⟩])

/-- The client has the signature that the callback `frame` asked for, and the
key to go with it. -/
def Signed (frame : IncomingFrame) (signature : Signature) (pubkey_hex : String)
    (h : ClientHistory) : Prop :=
  ∃ m h', Allowed X frame m h' ∧
    h = h' ++ [⟨.try_sign m, some signature⟩] ++ [⟨.signing_public_key_hex, pubkey_hex⟩]

/-- The text of a success reply to the callback `frame`. -/
def signature_frame (frame : IncomingFrame) (signature : Signature) (pubkey_hex : String) : String :=
  result_frame X (reply_id frame)
    (SignCallbackResult.mk (X.base64_encode signature.as_bytes) pubkey_hex).encode

/-- The text of an error reply to it. -/
def refusal_frame (frame : IncomingFrame) (c : SignErrorCode) (message : String) : String :=
  error_frame X (reply_id frame) c.code message

/-- What the client does for the callback `frame`, and right after what. -/
inductive ServiceEvent (frame : IncomingFrame) : ClientHistory → SeamEvent → Prop
  | authorize {params : SignCallbackParams} {payload : Bytes} {h : ClientHistory}
      (verdict : SignDecision) (asked : Asked X frame params payload h) :
      ServiceEvent frame h ⟨.authorize (sign_request params payload), verdict⟩
  | try_sign {m : Bytes} {h : ClientHistory} (r : Option Signature) (allowed : Allowed X frame m h) :
      ServiceEvent frame h ⟨.try_sign m, r⟩
  | public_key {m : Bytes} {signature : Signature} {h : ClientHistory} (r : String)
      (allowed : Allowed X frame m h) :
      ServiceEvent frame (h ++ [⟨.try_sign m, some signature⟩]) ⟨.signing_public_key_hex, r⟩
  | signed {signature : Signature} {pubkey_hex : String} {h : ClientHistory}
      (r : Except Error Unit) (signed : Signed X frame signature pubkey_hex h) :
      ServiceEvent frame h ⟨.send_frame (signature_frame X frame signature pubkey_hex), r⟩
  | refused {c : SignErrorCode} {message : String} {decision : SignDecision} {h : ClientHistory}
      (r : Except Error Unit) (why : Refused X frame c message decision h) :
      ServiceEvent frame h ⟨.send_frame (refusal_frame X frame c message), r⟩

/-- The reply that the callback `frame`, read at the end of `h`, is due, the
decision that goes with it, and all that was asked for it since `h`. -/
inductive Replies (frame : IncomingFrame) (params : SignCallbackParams) (h : ClientHistory) :
    String → SignDecision → ClientHistory → Prop
  | base64 (payload : X.base64_decode params.payload_b64 = none) :
      Replies frame params h (refusal_frame X frame .SignDenied "sign payload is not valid base64")
        (.Deny "invalid base64 payload") h
  | denied {payload : Bytes} {reason : String}
      (contents : X.base64_decode params.payload_b64 = some payload) :
      Replies frame params h (refusal_frame X frame .SignDenied reason) (.Deny reason)
        (h ++ [⟨.authorize (sign_request params payload), .Deny reason⟩])
  | too_long {payload : Bytes} (contents : X.base64_decode params.payload_b64 = some payload)
      (message : sign_callback_message params.payload_type payload = none) :
      Replies frame params h
        (refusal_frame X frame .SignDenied "sign payload_type exceeds the maximum length")
        (.Deny "payload_type too long") (h ++ [⟨.authorize (sign_request params payload), .Allow⟩])
  | locked {payload m : Bytes} (contents : X.base64_decode params.payload_b64 = some payload)
      (message : sign_callback_message params.payload_type payload = some m) :
      Replies frame params h
        (refusal_frame X frame .Locked "active profile is locked; no key to sign with")
        (.Deny "active profile is locked")
        (h ++ [⟨.authorize (sign_request params payload), .Allow⟩] ++ [⟨.try_sign m, none⟩])
  | signed {payload m : Bytes} {signature : Signature} {pubkey_hex : String}
      (contents : X.base64_decode params.payload_b64 = some payload)
      (message : sign_callback_message params.payload_type payload = some m) :
      Replies frame params h (signature_frame X frame signature pubkey_hex) .Allow
        (h ++ [⟨.authorize (sign_request params payload), .Allow⟩] ++
          [⟨.try_sign m, some signature⟩] ++ [⟨.signing_public_key_hex, pubkey_hex⟩])

/-- How the service of `frame` ends: it has sent one reply, or it could not
decode the parameters and has done nothing. -/
inductive Served (R : ClientCond) (frame : IncomingFrame) (h : ClientHistory) :
    Except SessionError SignDecision → ClientHistory → Prop
  | undecodable (params : callback_params frame = none) : Served R frame h (.error .Frame) h
  | replied {params : SignCallbackParams} {h' : ClientHistory} {reply : String}
      {decision : SignDecision} (decoded : callback_params frame = some params)
      (replies : Replies X frame params h reply decision h')
      (accepted : R h' ⟨.send_frame reply, .ok ()⟩) :
      Served R frame h (.ok decision) (h' ++ [⟨.send_frame reply, .ok ()⟩])
  | io {params : SignCallbackParams} {h' : ClientHistory} {reply : String}
      {decision : SignDecision} {e : Error} (decoded : callback_params frame = some params)
      (replies : Replies X frame params h reply decision h')
      (failed : R h' ⟨.send_frame reply, .error e⟩) :
      Served R frame h (.error (.Io e)) (h' ++ [⟨.send_frame reply, .error e⟩])

variable {X} {R : ClientCond} {client : SessionClient} {frame : IncomingFrame} {h : ClientHistory}

/-- A reply comes right after what entitles it. -/
theorem Replies.event {params : SignCallbackParams} {h' : ClientHistory} {reply : String}
    {decision : SignDecision} (hreplies : Replies X frame params h reply decision h')
    (hreads : Reads X h frame) (hmethod : frame.method = some METHOD_SIGN)
    (hparams : callback_params frame = some params) (r : Except Error Unit) :
    ServiceEvent X frame h' ⟨.send_frame reply, r⟩ := by
  have hasked : ∀ {payload : Bytes}, X.base64_decode params.payload_b64 = some payload →
      Asked X frame params payload h := fun hpayload => ⟨hreads, hmethod, hparams, hpayload⟩
  cases hreplies with
  | base64 payload => exact .refused r (.base64 hreads hmethod hparams payload)
  | denied contents => exact .refused r (.denied ⟨h, hasked contents, rfl⟩)
  | too_long contents message => exact .refused r (.too_long ⟨h, hasked contents, rfl⟩ message)
  | locked contents message =>
    exact .refused r (.locked ⟨params, _, ⟨h, hasked contents, rfl⟩, message⟩)
  | @signed payload m signature pubkey_hex contents message =>
    exact .signed r ⟨m, _, ⟨params, payload, ⟨h, hasked contents, rfl⟩, message⟩, rfl⟩

/-- Sending a reply ends the service. -/
theorem spec_reply {params : SignCallbackParams} {h' : ClientHistory} {reply : String}
    {decision : SignDecision} (hreads : Reads X h frame) (hmethod : frame.method = some METHOD_SIGN)
    (hparams : callback_params frame = some params)
    (hreplies : Replies X frame params h reply decision h') :
    Spec R (ServiceEvent X frame) (do send_frame reply; return decision) client
      (fun out client' h'' => client' = client ∧ Served X R frame h out h'') h' := by
  rw [spec_bind]
  refine spec_send_frame (fun r _ => hreplies.event hreads hmethod hparams r) (fun hr => ?_)
    (fun e hr => ?_)
  · exact ⟨rfl, .replied hparams hreplies hr⟩
  · exact ⟨rfl, .io hparams hreplies hr⟩

/-- **The service of one callback**: branch by branch, every seam call comes
right after what entitles it, and the service ends as `Served` says. -/
theorem service_sign_callback_spec (client : SessionClient) (hreads : Reads X h frame)
    (hmethod : frame.method = some METHOD_SIGN) :
    Spec R (ServiceEvent X frame) (service_sign_callback X frame) client
      (fun out client' h' => client' = client ∧ Served X R frame h out h') h := by
  unfold service_sign_callback
  rw [spec_bind, spec_orFrame]
  cases hparams : SignCallbackParams.decode (frame.params.getD Value.Null).tree with
  | none => exact ⟨rfl, .undecodable hparams⟩
  | some params =>
    simp only
    cases hpayload : X.base64_decode params.payload_b64 with
    | none => exact spec_reply hreads hmethod hparams (.base64 hpayload)
    | some payload =>
      -- from here on the request is known, and what is done is done for it
      have hasked : Asked X frame params payload h := ⟨hreads, hmethod, hparams, hpayload⟩
      simp only
      rw [spec_bind]
      unfold authorize
      rw [spec_perform]
      intro verdict _
      refine ⟨.authorize verdict hasked, ?_⟩
      cases verdict with
      | Deny reason => exact spec_reply hreads hmethod hparams (.denied hpayload)
      | Allow =>
        simp only
        cases hmessage : sign_callback_message params.payload_type payload with
        | none => exact spec_reply hreads hmethod hparams (.too_long hpayload hmessage)
        | some m =>
          -- what the policy has allowed is what is signed
          have hallowed : Allowed X frame m
              (h ++ [⟨.authorize (sign_request params payload), .Allow⟩]) :=
            ⟨params, payload, ⟨h, hasked, rfl⟩, hmessage⟩
          simp only
          rw [spec_bind]
          unfold try_sign
          rw [spec_perform]
          intro signature _
          refine ⟨.try_sign signature hallowed, ?_⟩
          cases signature with
          | none => exact spec_reply hreads hmethod hparams (.locked hpayload hmessage)
          | some signature =>
            simp only
            rw [spec_bind]
            unfold signing_public_key_hex
            rw [spec_perform]
            intro pubkey_hex _
            exact ⟨.public_key pubkey_hex hallowed,
              spec_reply hreads hmethod hparams (.signed hpayload hmessage)⟩

end Service

/-! ## What a history says of the call in progress -/

section Tally

variable (X : Crates)

/-- The callback in the text of a frame, if it is one. -/
def callback_of (raw : String) : Option IncomingFrame :=
  (IncomingFrame.from_str X raw).filter fun frame => frame.method = some METHOD_SIGN

/-- What has happened in a call so far: the callback read last, until something
is sent; the frames read since the last request; and the requests. -/
structure Tally where
  owed : Option IncomingFrame
  reads : ℕ
  requests : ℕ

/-- Count one event. -/
def Tally.count (t : Tally) : SeamEvent → Tally
  | ⟨.recv_frame, .ok raw⟩ => { t with owed := callback_of X raw, reads := t.reads + 1 }
  | ⟨.send_frame _, _⟩ =>
    if t.owed.isSome then { t with owed := none }
    else { owed := none, reads := 0, requests := t.requests + 1 }
  | _ => t

/-- Count a whole history. -/
def tally (h : ClientHistory) : Tally := h.foldl (Tally.count X) ⟨none, 0, 0⟩

/-- The last event of `h` is a frame sent. -/
def AfterSend (h : ClientHistory) : Prop := ∃ h' text, h = h' ++ [⟨.send_frame text, .ok ()⟩]

variable {X}

@[simp] theorem tally_nil : tally X [] = ⟨none, 0, 0⟩ := rfl

theorem tally_snoc (h : ClientHistory) (e : SeamEvent) :
    tally X (h ++ [e]) = (tally X h).count X e := List.foldl_concat _ _ _ _

theorem callback_of_eq_some {raw : String} {frame : IncomingFrame} :
    callback_of X raw = some frame ↔
      IncomingFrame.from_str X raw = some frame ∧ frame.method = some METHOD_SIGN := by
  unfold callback_of
  rw [Option.filter_eq_some_iff, decide_eq_true_eq]

theorem callback_of_eq_none {raw : String} {frame : IncomingFrame}
    (hparse : IncomingFrame.from_str X raw = some frame) (hsign : frame.method ≠ some METHOD_SIGN) :
    callback_of X raw = none := by
  unfold callback_of
  rw [hparse, Option.filter_some, if_neg (by simpa using hsign)]

/-- A reply is not a request. -/
theorem Tally.count_send_of_owed {t : Tally} {text : String} {r : Except Error Unit}
    {frame : IncomingFrame} (howed : t.owed = some frame) :
    t.count X ⟨.send_frame text, r⟩ = ⟨none, t.reads, t.requests⟩ := by
  unfold Tally.count
  rw [howed, Option.isSome_some, if_pos rfl]

/-- A frame sent when nothing is owed is a request. -/
theorem Tally.count_send_of_none {t : Tally} {text : String} {r : Except Error Unit}
    (howed : t.owed = none) : t.count X ⟨.send_frame text, r⟩ = ⟨none, 0, t.requests + 1⟩ := by
  unfold Tally.count
  rw [howed, Option.isSome_none, if_neg Bool.false_ne_true]

theorem tally_send_owed (h : ClientHistory) (text : String) (r : Except Error Unit) :
    (tally X (h ++ [⟨.send_frame text, r⟩])).owed = none := by
  rw [tally_snoc]
  cases howed : (tally X h).owed with
  | none => rw [Tally.count_send_of_none howed]
  | some frame => rw [Tally.count_send_of_owed howed]

theorem AfterSend.owed {h : ClientHistory} (hsent : AfterSend h) : (tally X h).owed = none := by
  obtain ⟨h', text, rfl⟩ := hsent
  exact tally_send_owed h' text (.ok ())

section Owed

variable {frame : IncomingFrame} {h : ClientHistory}

theorem Asked.owed {params : SignCallbackParams} {payload : Bytes}
    (hasked : Asked X frame params payload h) : (tally X h).owed = some frame := by
  obtain ⟨⟨h', raw, rfl, hparse⟩, hmethod, -, -⟩ := hasked
  rw [tally_snoc]
  exact callback_of_eq_some.mpr ⟨hparse, hmethod⟩

theorem Judged.owed {params : SignCallbackParams} {payload : Bytes} {verdict : SignDecision}
    (hjudged : Judged X frame params payload verdict h) : (tally X h).owed = some frame := by
  obtain ⟨h', hasked, rfl⟩ := hjudged
  rw [tally_snoc]
  exact hasked.owed

theorem Allowed.owed {m : Bytes} (hallowed : Allowed X frame m h) :
    (tally X h).owed = some frame := by
  obtain ⟨params, payload, hjudged, -⟩ := hallowed
  exact hjudged.owed

theorem Signed.owed {signature : Signature} {pubkey_hex : String}
    (hsigned : Signed X frame signature pubkey_hex h) : (tally X h).owed = some frame := by
  obtain ⟨m, h', hallowed, rfl⟩ := hsigned
  rw [tally_snoc, tally_snoc]
  exact hallowed.owed

theorem Refused.owed {c : SignErrorCode} {message : String} {decision : SignDecision}
    (hrefused : Refused X frame c message decision h) : (tally X h).owed = some frame := by
  cases hrefused with
  | base64 reads method decoded payload =>
      obtain ⟨h', raw, rfl, hparse⟩ := reads
      rw [tally_snoc]
      exact callback_of_eq_some.mpr ⟨hparse, method⟩
  | denied judged => exact judged.owed
  | too_long judged message => exact judged.owed
  | locked allowed =>
      rw [tally_snoc]
      exact allowed.owed

/-- All the service of a callback happens while that callback is owed. -/
theorem owed_of_service {e : SeamEvent} (he : ServiceEvent X frame h e) :
    (tally X h).owed = some frame := by
  cases he with
  | authorize verdict asked => exact asked.owed
  | try_sign r allowed => exact allowed.owed
  | public_key r allowed =>
      rw [tally_snoc]
      exact allowed.owed
  | signed r signed => exact signed.owed
  | refused r why => exact why.owed

theorem tally_service_reads {e : SeamEvent} (he : ServiceEvent X frame h e) :
    (tally X (h ++ [e])).reads = (tally X h).reads := by
  have howed := owed_of_service he
  rw [tally_snoc]
  cases he with
  | signed r signed => rw [Tally.count_send_of_owed howed]
  | refused r why => rw [Tally.count_send_of_owed howed]
  | _ => rfl

theorem tally_service_requests {e : SeamEvent} (he : ServiceEvent X frame h e) :
    (tally X (h ++ [e])).requests = (tally X h).requests := by
  have howed := owed_of_service he
  rw [tally_snoc]
  cases he with
  | signed r signed => rw [Tally.count_send_of_owed howed]
  | refused r why => rw [Tally.count_send_of_owed howed]
  | _ => rfl

end Owed

end Tally

/-! ## Awaiting a response -/

section Await

variable (X : Crates) {R G : ClientCond} {α : Type} {client : SessionClient}

/-- What the client does while it awaits a response, and right after what. -/
inductive AwaitEvent : ClientHistory → SeamEvent → Prop
  | read {h : ClientHistory} (r : Except Error String) (sent : AfterSend h) :
      AwaitEvent h ⟨.recv_frame, r⟩
  | service {frame : IncomingFrame} {h : ClientHistory} {e : SeamEvent}
      (event : ServiceEvent X frame h e) : AwaitEvent h e

/-- How awaiting a response can end, and right after what. -/
inductive AwaitEnds (decode : Json → Option α) (awaited_id : UInt64) :
    Except SessionError α → ClientHistory → Prop
  | recv_io {h : ClientHistory} {e : Error} :
      AwaitEnds decode awaited_id (.error (.Io e)) (h ++ [⟨.recv_frame, .error e⟩])
  | send_io {h : ClientHistory} {text : String} {e : Error} :
      AwaitEnds decode awaited_id (.error (.Io e)) (h ++ [⟨.send_frame text, .error e⟩])
  | unparsed {h : ClientHistory} {raw : String} (parse : IncomingFrame.from_str X raw = none) :
      AwaitEnds decode awaited_id (.error .Frame) (h ++ [⟨.recv_frame, .ok raw⟩])
  | undecodable {h : ClientHistory} {raw : String} {frame : IncomingFrame}
      (parse : IncomingFrame.from_str X raw = some frame) (sign : frame.method = some METHOD_SIGN)
      (params : callback_params frame = none) :
      AwaitEnds decode awaited_id (.error .Frame) (h ++ [⟨.recv_frame, .ok raw⟩])
  | flooded {h : ClientHistory} {raw : String} {frame : IncomingFrame}
      (parse : IncomingFrame.from_str X raw = some frame) (sign : frame.method = some METHOD_SIGN)
      (reads : (tally X (h ++ [⟨.recv_frame, .ok raw⟩])).reads = MAX_INTERLEAVED_CALLBACKS + 1) :
      AwaitEnds decode awaited_id (.error .TooManyCallbacks) (h ++ [⟨.recv_frame, .ok raw⟩])
  | response {h : ClientHistory} {raw : String} {frame : IncomingFrame}
      (parse : IncomingFrame.from_str X raw = some frame) (method : frame.method ≠ some METHOD_SIGN) :
      AwaitEnds decode awaited_id (response_of decode awaited_id frame)
        (h ++ [⟨.recv_frame, .ok raw⟩])

variable {X}

/-- **The rule of the read loop.** The invariant `I` is indexed by how many more
callbacks may be serviced. -/
theorem spec_read_response_loop {decode : Json → Option α} {awaited_id : UInt64}
    {Q : Except SessionError α → SessionClient → ClientHistory → Prop}
    (I : ℕ → ClientHistory → Prop)
    (hrecv : ∀ n h r, I n h → R h ⟨.recv_frame, r⟩ → G h ⟨.recv_frame, r⟩)
    (hio : ∀ n h e, I n h → R h ⟨.recv_frame, .error e⟩ →
      Q (.error (.Io e)) client (h ++ [⟨.recv_frame, .error e⟩]))
    (hframe : ∀ n h raw, I n h → R h ⟨.recv_frame, .ok raw⟩ →
      IncomingFrame.from_str X raw = none →
      Q (.error .Frame) client (h ++ [⟨.recv_frame, .ok raw⟩]))
    (hresponse : ∀ n h raw frame, I n h → R h ⟨.recv_frame, .ok raw⟩ →
      IncomingFrame.from_str X raw = some frame → frame.method ≠ some METHOD_SIGN →
      Q (response_of decode awaited_id frame) client (h ++ [⟨.recv_frame, .ok raw⟩]))
    (hflood : ∀ h raw frame, I 0 h → R h ⟨.recv_frame, .ok raw⟩ →
      IncomingFrame.from_str X raw = some frame → frame.method = some METHOD_SIGN →
      Q (.error .TooManyCallbacks) client (h ++ [⟨.recv_frame, .ok raw⟩]))
    (hservice : ∀ n h raw frame, I (n + 1) h → R h ⟨.recv_frame, .ok raw⟩ →
      IncomingFrame.from_str X raw = some frame → frame.method = some METHOD_SIGN →
      Spec R G (service_sign_callback X frame) client (fun out client' h' => client' = client ∧
        match out with
        | .ok _ => I n h'
        | .error e => Q (.error e) client h') (h ++ [⟨.recv_frame, .ok raw⟩])) :
    ∀ n h, I n h → Spec R G (read_response_loop X decode awaited_id n) client Q h := by
  intro n
  induction n with
  | zero =>
      intro h hI
      unfold read_response_loop
      -- a callback is one too many now
      exact spec_read_turn (hrecv 0 h · hI) (hio 0 h · hI) (hframe 0 h · hI)
        (hflood h · · hI) (hresponse 0 h · · hI)
  | succ n ih =>
      intro h hI
      unfold read_response_loop
      refine spec_read_turn (hrecv (n + 1) h · hI) (hio (n + 1) h · hI) (hframe (n + 1) h · hI)
        (fun raw frame hr hparse hsign => ?_) (hresponse (n + 1) h · · hI)
      rw [spec_bind]
      refine spec_post (hservice n h raw frame hI hr hparse hsign) fun out client' h' hout => ?_
      obtain ⟨rfl, hout⟩ := hout
      cases out with
      | error e => exact hout
      -- the next turn, with one callback less to service
      | ok decision => exact ih h' hout

/-- **Awaiting a response**, right after the request was sent. -/
theorem read_response_spec (decode : Json → Option α) (awaited_id : UInt64) (client : SessionClient)
    {h : ClientHistory} {req : ℕ} (hsent : AfterSend h) (htally : tally X h = ⟨none, 0, req⟩) :
    Spec R (AwaitEvent X) (read_response X decode awaited_id) client
      (fun out client' h' => client' = client ∧ AwaitEnds X decode awaited_id out h' ∧
        (tally X h').requests = req) h := by
  -- between two turns nothing is owed, and reads and budget add up
  let I : ℕ → ClientHistory → Prop := fun n h' =>
    AfterSend h' ∧ ∃ reads, tally X h' = ⟨none, reads, req⟩ ∧ reads + n = MAX_INTERLEAVED_CALLBACKS
  have hread : ∀ n h' r, I n h' → (tally X (h' ++ [⟨.recv_frame, r⟩])).requests = req := by
    intro n h' r hI
    obtain ⟨-, reads, ht, -⟩ := hI
    rw [tally_snoc, ht]
    cases r <;> rfl
  refine spec_read_response_loop I (fun n h' r hI _ => .read r hI.1) ?_ ?_ ?_ ?_ ?_
    MAX_INTERLEAVED_CALLBACKS h ⟨hsent, 0, htally, Nat.zero_add _⟩
  · intro n h' e hI _
    exact ⟨rfl, .recv_io, hread n h' (.error e) hI⟩
  · intro n h' raw hI _ hparse
    exact ⟨rfl, .unparsed hparse, hread n h' (.ok raw) hI⟩
  · intro n h' raw frame hI _ hparse hsign
    exact ⟨rfl, .response hparse hsign, hread n h' (.ok raw) hI⟩
  · intro h' raw frame hI _ hparse hsign
    obtain ⟨-, reads, ht, hbudget⟩ := id hI
    refine ⟨rfl, .flooded hparse hsign ?_, hread 0 h' (.ok raw) hI⟩
    rw [tally_snoc, ht]
    exact congrArg (· + 1) hbudget
  · intro n h' raw frame hI _ hparse hsign
    obtain ⟨-, reads, ht, hbudget⟩ := hI
    have hcallback : callback_of X raw = some frame := callback_of_eq_some.mpr ⟨hparse, hsign⟩
    have htally' : tally X (h' ++ [⟨.recv_frame, .ok raw⟩]) = ⟨some frame, reads + 1, req⟩ := by
      rw [tally_snoc, ht]
      show Tally.mk (callback_of X raw) (reads + 1) req = _
      rw [hcallback]
    -- servicing counts as neither a read nor a request
    have hservice := Proc.wp_invariant
      (I := fun h'' => (tally X h'').reads = reads + 1 ∧ (tally X h'').requests = req)
      (fun h'' e hI' _ he => by rw [tally_service_reads he, tally_service_requests he]; exact hI')
      (show _ ∧ _ by rw [htally']; exact ⟨rfl, rfl⟩)
      (service_sign_callback_spec (R := R) client ⟨h', raw, rfl, hparse⟩ hsign)
    refine Proc.wp_mono (fun _ _ => id) (fun h'' e => .service) ?_ hservice
    rintro ⟨out, client'⟩ h'' ⟨⟨hreads, hreq⟩, rfl, hserved⟩
    refine ⟨rfl, ?_⟩
    cases hserved with
    | undecodable params => exact ⟨rfl, .undecodable hparse hsign params, hreq⟩
    | io decoded replies failed => exact ⟨rfl, .send_io, hreq⟩
    | @replied params h₁ reply decision decoded replies accepted =>
        have hevent := replies.event ⟨h', raw, rfl, hparse⟩ hsign decoded (.ok ())
        have hcount : (tally X h₁).count X ⟨.send_frame reply, .ok ()⟩
            = ⟨none, (tally X h₁).reads, (tally X h₁).requests⟩ :=
          Tally.count_send_of_owed (owed_of_service hevent)
        rw [tally_snoc, hcount] at hreads hreq
        refine ⟨⟨h₁, reply, rfl⟩, reads + 1, ?_, by omega⟩
        rw [tally_snoc, hcount, show (tally X h₁).reads = reads + 1 from hreads,
          show (tally X h₁).requests = req from hreq]

variable (X) in
/-- How a request sent at `h` can end. -/
inductive CallEnds (decode : Json → Option α) (id : UInt64) (request : String) (h : ClientHistory) :
    Except SessionError α → ClientHistory → Prop
  | unsent {e : Error} :
      CallEnds decode id request h (.error (.Io e)) (h ++ [⟨.send_frame request, .error e⟩])
  | awaited {out : Except SessionError α} {h' : ClientHistory}
      (since : Proc.Since (AwaitEvent X) (h ++ [⟨.send_frame request, .ok ()⟩]) h')
      (ends : AwaitEnds X decode id out h') : CallEnds decode id request h out h'

/-- **A request and its response**, under any guarantee that allows both. -/
theorem call_spec {decode : Json → Option α} {method : String} {params : Json} {h : ClientHistory}
    (howed : (tally X h).owed = none)
    (hsend : ∀ r, G h ⟨.send_frame (request_frame X client.next_id method params), r⟩)
    (hawait : ∀ h' e, Proc.Since (AwaitEvent X)
      (h ++ [⟨.send_frame (request_frame X client.next_id method params), .ok ()⟩]) h' →
        AwaitEvent X h' e → G h' e) :
    Spec R G (call X decode method params) client
      (fun out client' h' => client'.next_id = client.next_id + 1 ∧
        (tally X h').requests = (tally X h).requests + 1 ∧
        CallEnds X decode client.next_id (request_frame X client.next_id method params) h out h')
      h := by
  have hcount : ∀ r, tally X (h ++ [⟨.send_frame (request_frame X client.next_id method params), r⟩])
      = ⟨none, 0, (tally X h).requests + 1⟩ := by
    intro r
    rw [tally_snoc, Tally.count_send_of_none howed]
  unfold call
  rw [spec_bind, spec_take_id]
  simp only
  rw [spec_bind]
  refine spec_send_frame (fun r _ => hsend r) (fun _ => ?_) (fun e _ => ?_)
  · have hread := Proc.wp_since (read_response_spec (R := R) decode client.next_id
      { next_id := client.next_id + 1 } ⟨h, _, rfl⟩ (hcount (.ok ())))
    refine Proc.wp_mono (fun _ _ => id) (fun h' e he => hawait h' e he.1 he.2) ?_ hread
    rintro ⟨out, client'⟩ h' ⟨hsince, rfl, hends, hreq⟩
    exact ⟨rfl, hreq, .awaited hsince hends⟩
  · exact ⟨rfl, by rw [hcount], .unsent⟩

/-- The last event of `h` read the response to `awaited_id`, which carries `a`. -/
def Answered (X : Crates) (decode : Json → Option α) (awaited_id : UInt64) (a : α)
    (h : ClientHistory) : Prop :=
  ∃ frame, Reads X h frame ∧ frame.method ≠ some METHOD_SIGN ∧
    response_of decode awaited_id frame = .ok a

/-- A call returns what the response to its own request carries. -/
theorem CallEnds.answered {decode : Json → Option α} {id : UInt64} {request : String}
    {h h' : ClientHistory} {a : α} (hends : CallEnds X decode id request h (.ok a) h') :
    Proc.Since (AwaitEvent X) (h ++ [⟨.send_frame request, .ok ()⟩]) h' ∧
      Answered X decode id a h' := by
  cases hends with
  | awaited since ends =>
      refine ⟨since, ?_⟩
      generalize hout : (Except.ok a : Except SessionError α) = out at ends
      cases ends with
      | @response h'' raw frame parse method => exact ⟨frame, ⟨h'', raw, rfl, parse⟩, method, hout.symm⟩
      | _ => cases hout

/-- Nothing is owed once the response is there. -/
theorem Answered.owed {decode : Json → Option α} {id : UInt64} {a : α} {h : ClientHistory}
    (hanswered : Answered X decode id a h) : (tally X h).owed = none := by
  obtain ⟨frame, ⟨h', raw, rfl, hparse⟩, hmethod, -⟩ := hanswered
  rw [tally_snoc]
  exact callback_of_eq_none hparse hmethod

end Await

end DigIpc
