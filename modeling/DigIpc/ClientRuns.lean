/-
Whole runs of a `SessionClient`: one call after another, every one of them
interruptible by anything its environment may reply.

`ClientEvent` puts the guarantees of `DigIpc.ClientSpec` together for a whole
call: each constructor is one place where the source calls a seam, with what
must have happened before it in the same call. `Ends` does the same for the
places where a call returns. `program_spec` proves both of every call.

`ClientStep` is the machine: idle between two calls, busy inside one with what
is left of its program. The systems built later have clients among their parts,
so what a history says of a client is read through a `view`, as the engine's
histories are: `in_progress` is the call a client is in and what has happened in
it so far, and `Sound` is the invariant that ties it to the client's state.
-/
import DigIpc.ClientSpec
import DigIpc.Machine

set_option autoImplicit false

open Interaction Serde
open StdIo (Error ErrorKind)

namespace DigIpc

/-! ## The calls of a client -/

/-- A call on a `SessionClient`. The transport that `reattach` swaps in is part
of the environment. -/
inductive ClientOp
  | begin_and_attach (profile : ProfileAttachment)
  | reattach (profile : ProfileAttachment)
  | detach (session : Session)
  | handle_next_sign_callback

/-- What a call returns. -/
inductive ClientOut
  | session (session : Session)
  | detached
  | decision (decision : SignDecision)
  deriving DecidableEq

namespace ClientOp

/-- The program of a call. -/
def program (X : Crates) : ClientOp → ClientM ClientOut
  | .begin_and_attach profile => do return .session (← DigIpc.begin_and_attach X profile)
  | .reattach profile => do return .session (← DigIpc.reattach X profile)
  | .detach session => do
    DigIpc.detach X session
    return .detached
  | .handle_next_sign_callback => do return .decision (← DigIpc.handle_next_sign_callback X)

/-- The profile of a handshake. -/
def profile : ClientOp → Option ProfileAttachment
  | .begin_and_attach profile => some profile
  | .reattach profile => some profile
  | .detach _ => none
  | .handle_next_sign_callback => none

/-- What a call does before anything else. -/
def opening : ClientOp → ClientHistory
  | .reattach _ => [⟨.set_transport, ()⟩]
  | _ => []

/-- The id of the first request of a call. -/
def first_id (client : SessionClient) : ClientOp → UInt64
  | .reattach _ => 1
  | _ => client.next_id

theorem tally_opening (X : Crates) (op : ClientOp) : tally X op.opening = ⟨none, 0, 0⟩ := by
  cases op <;> rfl

end ClientOp

/-! ## What a call does, and how it ends -/

section Call

variable (X : Crates)

/-- The `begin` request of a handshake. -/
def begin_frame (id : UInt64) (profile : ProfileAttachment) (pubkey_hex : String) : String :=
  request_frame X id METHOD_BEGIN (BeginParams.mk profile.did pubkey_hex).encode

/-- Its `attach` request. -/
def attach_frame (id : UInt64) (begin : BeginResult) (signature : Signature)
    (profile : ProfileAttachment) : String :=
  request_frame X id METHOD_ATTACH
    (AttachParams.mk begin.session_candidate (X.base64_encode signature.as_bytes) profile).encode

/-- The `detach` request. -/
def detach_frame (id : UInt64) (session : Session) : String :=
  request_frame X id METHOD_DETACH (DetachParams.mk session.session_id).encode

variable (client : SessionClient) (op : ClientOp)

/-- The handshake has just read the response to its `begin`, and takes the nonce
from it. -/
structure Challenged (profile : ProfileAttachment) (begin : BeginResult) (nonce : Bytes)
    (h : ClientHistory) : Prop where
  handshake : op.profile = some profile
  begun : ∃ pubkey_hex, CallEnds X BeginResult.decode (op.first_id client)
    (begin_frame X (op.first_id client) profile pubkey_hex)
    (op.opening ++ [⟨.signing_public_key_hex, pubkey_hex⟩]) (.ok begin) h
  decoded : X.base64_decode begin.nonce_b64 = some nonce
  length : nonce.length = NONCE_LEN

/-- The requests of a call: the id, the text, and right after what. -/
inductive Requests : UInt64 → String → ClientHistory → Prop
  | begin {profile : ProfileAttachment} (handshake : op.profile = some profile)
      (pubkey_hex : String) :
      Requests (op.first_id client) (begin_frame X (op.first_id client) profile pubkey_hex)
        (op.opening ++ [⟨.signing_public_key_hex, pubkey_hex⟩])
  | attach {profile : ProfileAttachment} {begin : BeginResult} {nonce : Bytes} {h : ClientHistory}
      (challenged : Challenged X client op profile begin nonce h) (signature : Signature) :
      Requests (op.first_id client + 1)
        (attach_frame X (op.first_id client + 1) begin signature profile)
        (h ++ [⟨.try_sign (challenge_message nonce profile.did), some signature⟩])
  | detach {session : Session} (detaching : op = .detach session) :
      Requests client.next_id (detach_frame X client.next_id session) []

/-- The request with this id is pending. -/
def Awaiting (id : UInt64) (request : String) (h : ClientHistory) : Prop :=
  ∃ h₀, Requests X client op id request h₀ ∧
    Proc.Since (AwaitEvent X) (h₀ ++ [⟨.send_frame request, .ok ()⟩]) h

/-- What a call does, and right after what. -/
inductive ClientEvent : ClientHistory → SeamEvent → Prop
  | set_transport {profile : ProfileAttachment} (reattaching : op = .reattach profile) :
      ClientEvent [] ⟨.set_transport, ()⟩
  | public_key {profile : ProfileAttachment} (handshake : op.profile = some profile) (r : String) :
      ClientEvent op.opening ⟨.signing_public_key_hex, r⟩
  | challenge {profile : ProfileAttachment} {begin : BeginResult} {nonce : Bytes}
      {h : ClientHistory} (challenged : Challenged X client op profile begin nonce h)
      (r : Option Signature) : ClientEvent h ⟨.try_sign (challenge_message nonce profile.did), r⟩
  | request {id : UInt64} {request : String} {h : ClientHistory}
      (requests : Requests X client op id request h) (r : Except Error Unit) :
      ClientEvent h ⟨.send_frame request, r⟩
  | await {id : UInt64} {request : String} {h : ClientHistory} {e : SeamEvent}
      (awaiting : Awaiting X client op id request h) (event : AwaitEvent X h e) : ClientEvent h e
  | next_read (next : op = .handle_next_sign_callback) (r : Except Error String) :
      ClientEvent [] ⟨.recv_frame, r⟩
  | next_service {frame : IncomingFrame} {h : ClientHistory} {e : SeamEvent}
      (next : op = .handle_next_sign_callback) (event : ServiceEvent X frame h e) : ClientEvent h e

/-- The nonce of a `begin` result cannot be used, and what the client says then. -/
inductive BadNonce (begin : BeginResult) : SessionError → Prop
  | base64 (payload : X.base64_decode begin.nonce_b64 = none) : BadNonce begin .MalformedResponse
  | length {nonce : Bytes} (payload : X.base64_decode begin.nonce_b64 = some nonce)
      (length : nonce.length ≠ NONCE_LEN) :
      BadNonce begin (.InvalidNonceLength NONCE_LEN nonce.length)

/-- How a call ends, and right after what. -/
inductive Ends : Except SessionError ClientOut → ClientHistory → Prop
  | begin_failed {profile : ProfileAttachment} {pubkey_hex : String} {e : SessionError}
      {h : ClientHistory} (handshake : op.profile = some profile)
      (ends : CallEnds X BeginResult.decode (op.first_id client)
        (begin_frame X (op.first_id client) profile pubkey_hex)
        (op.opening ++ [⟨.signing_public_key_hex, pubkey_hex⟩]) (.error e) h) : Ends (.error e) h
  | bad_nonce {profile : ProfileAttachment} {pubkey_hex : String} {begin : BeginResult}
      {e : SessionError} {h : ClientHistory} (handshake : op.profile = some profile)
      (ends : CallEnds X BeginResult.decode (op.first_id client)
        (begin_frame X (op.first_id client) profile pubkey_hex)
        (op.opening ++ [⟨.signing_public_key_hex, pubkey_hex⟩]) (.ok begin) h)
      (bad : BadNonce X begin e) : Ends (.error e) h
  | locked {profile : ProfileAttachment} {begin : BeginResult} {nonce : Bytes} {h : ClientHistory}
      (challenged : Challenged X client op profile begin nonce h) :
      Ends (.error .Locked) (h ++ [⟨.try_sign (challenge_message nonce profile.did), none⟩])
  | attach_failed {profile : ProfileAttachment} {begin : BeginResult} {nonce : Bytes}
      {signature : Signature} {e : SessionError} {h₀ h : ClientHistory}
      (challenged : Challenged X client op profile begin nonce h₀)
      (ends : CallEnds X AttachResult.decode (op.first_id client + 1)
        (attach_frame X (op.first_id client + 1) begin signature profile)
        (h₀ ++ [⟨.try_sign (challenge_message nonce profile.did), some signature⟩]) (.error e) h) :
      Ends (.error e) h
  | attached {profile : ProfileAttachment} {begin : BeginResult} {nonce : Bytes}
      {signature : Signature} {attach : AttachResult} {h₀ h : ClientHistory}
      (challenged : Challenged X client op profile begin nonce h₀)
      (ends : CallEnds X AttachResult.decode (op.first_id client + 1)
        (attach_frame X (op.first_id client + 1) begin signature profile)
        (h₀ ++ [⟨.try_sign (challenge_message nonce profile.did), some signature⟩]) (.ok attach) h) :
      Ends (.ok (.session
        { session_id := attach.session_id, engine_capabilities := attach.engine_capabilities,
          profile_did := profile.did })) h
  | detach_failed {session : Session} {e : SessionError} {h : ClientHistory}
      (detaching : op = .detach session)
      (ends : CallEnds X DetachResult.decode client.next_id
        (detach_frame X client.next_id session) [] (.error e) h) : Ends (.error e) h
  | detached {session : Session} {h : ClientHistory} (detaching : op = .detach session)
      (ends : CallEnds X DetachResult.decode client.next_id
        (detach_frame X client.next_id session) [] (.ok {}) h) : Ends (.ok .detached) h
  | next_unread {e : Error} (next : op = .handle_next_sign_callback) :
      Ends (.error (.Io e)) [⟨.recv_frame, .error e⟩]
  | next_unparsed {raw : String} (next : op = .handle_next_sign_callback)
      (parse : IncomingFrame.from_str X raw = none) : Ends (.error .Frame) [⟨.recv_frame, .ok raw⟩]
  | next_other {raw : String} {frame : IncomingFrame} (next : op = .handle_next_sign_callback)
      (parse : IncomingFrame.from_str X raw = some frame) (method : frame.method ≠ some METHOD_SIGN) :
      Ends (.error .NotASignCallback) [⟨.recv_frame, .ok raw⟩]
  | next_served {raw : String} {frame : IncomingFrame} {out : Except SessionError SignDecision}
      {h : ClientHistory} (next : op = .handle_next_sign_callback)
      (parse : IncomingFrame.from_str X raw = some frame) (method : frame.method = some METHOD_SIGN)
      (served : Served X (fun _ _ => True) frame [⟨.recv_frame, .ok raw⟩] out h) :
      Ends (out.map .decision) h

end Call

section Specs

variable {X : Crates} {client : SessionClient} {op : ClientOp}

theorem Challenged.owed {profile : ProfileAttachment} {begin : BeginResult} {nonce : Bytes}
    {h : ClientHistory} (hchallenged : Challenged X client op profile begin nonce h) :
    (tally X h).owed = none := by
  obtain ⟨pubkey_hex, hends⟩ := hchallenged.begun
  exact hends.answered.2.owed

/-- A request is sent when no callback is owed an answer. -/
theorem Requests.owed {id : UInt64} {request : String} {h : ClientHistory}
    (hrequests : Requests X client op id request h) : (tally X h).owed = none := by
  cases hrequests with
  | begin handshake pubkey_hex =>
    rw [tally_snoc, op.tally_opening]
    rfl
  | attach challenged signature =>
    rw [tally_snoc]
    exact challenged.owed
  | detach detaching => rfl

/-- While a callback is owed an answer, a call does nothing but service it. -/
theorem ClientEvent.service_of_owed {frame : IncomingFrame} {e : SeamEvent} {h : ClientHistory}
    (hevent : ClientEvent X client op h e) (howed : (tally X h).owed = some frame) :
    ServiceEvent X frame h e := by
  have hidle : (tally X h).owed = none → ServiceEvent X frame h e := by
    intro hnone
    rw [howed] at hnone
    cases hnone
  have hservice : ∀ {frame' : IncomingFrame}, ServiceEvent X frame' h e →
      ServiceEvent X frame h e := by
    intro frame' hevent'
    have howed' := owed_of_service hevent'
    rw [howed] at howed'
    rwa [Option.some.inj howed']
  cases hevent with
  | set_transport reattaching => exact hidle rfl
  | public_key handshake r => exact hidle (by rw [op.tally_opening])
  | challenge challenged r => exact hidle challenged.owed
  | request requests r => exact hidle requests.owed
  | next_read next r => exact hidle rfl
  | next_service next event => exact hservice event
  | await awaiting event =>
    cases event with
    | read r sent => exact hidle sent.owed
    | service event => exact hservice event

/-- The guarantee of a call whose request is pending. -/
theorem await_of_requests {id : UInt64} {request : String} {h₀ : ClientHistory}
    (hrequests : Requests X client op id request h₀) :
    ∀ h e, Proc.Since (AwaitEvent X) (h₀ ++ [⟨.send_frame request, .ok ()⟩]) h →
      AwaitEvent X h e → ClientEvent X client op h e :=
  fun _ _ hsince he => .await ⟨h₀, hrequests, hsince⟩ he

/-- The postcondition of a call: how it ends, and the next id. -/
def Post (X : Crates) (client : SessionClient) (op : ClientOp)
    (out : Except SessionError ClientOut) (client' : SessionClient) (h : ClientHistory) : Prop :=
  Ends X client op out h ∧
    client'.next_id = op.first_id client + UInt64.ofNat (tally X h).requests

/-- The handshake, of `begin_and_attach` or after the opening of `reattach`. -/
theorem begin_and_attach_spec {profile : ProfileAttachment} (hop : op.profile = some profile)
    {client' : SessionClient} (hid : client'.next_id = op.first_id client) :
    Spec (fun _ _ => True) (ClientEvent X client op) (begin_and_attach X profile) client'
      (fun out client'' h => Post X client op (out.map .session) client'' h) op.opening := by
  unfold begin_and_attach
  rw [spec_bind]
  unfold signing_public_key_hex
  rw [spec_perform]
  intro pubkey_hex _
  refine ⟨.public_key hop pubkey_hex, ?_⟩
  simp only
  have htally : tally X (op.opening ++ [⟨.signing_public_key_hex, pubkey_hex⟩]) = ⟨none, 0, 0⟩ := by
    rw [tally_snoc, op.tally_opening]
    rfl
  have hbegin : Requests X client op (op.first_id client)
      (begin_frame X (op.first_id client) profile pubkey_hex) _ := .begin hop pubkey_hex
  rw [spec_bind]
  -- the first call: `begin`, under the first id
  refine spec_post (call_spec (by rw [htally]) ?_ ?_) ?_
  · rw [hid]
    exact .request hbegin
  · rw [hid]
    exact await_of_requests hbegin
  rw [hid, htally]
  rintro out client₁ h₁ ⟨hnext, hreq, hends⟩
  cases out with
  | error e =>
    refine ⟨.begin_failed hop hends, ?_⟩
    rw [hnext, hreq]
    rfl
  | ok begin =>
    simp only
    cases hpayload : X.base64_decode begin.nonce_b64 with
    | none =>
      refine ⟨.bad_nonce hop hends (.base64 hpayload), ?_⟩
      rw [hnext, hreq]
      rfl
    | some nonce =>
      simp only
      by_cases hlen : nonce.length = NONCE_LEN
      case neg =>
        rw [if_pos hlen]
        -- refused before it is signed
        refine ⟨.bad_nonce hop hends (.length hpayload hlen), ?_⟩
        rw [hnext, hreq]
        rfl
      rw [if_neg (not_not.mpr hlen), spec_bind]
      have hchallenged : Challenged X client op profile begin nonce h₁ :=
        ⟨hop, ⟨pubkey_hex, hends⟩, hpayload, hlen⟩
      unfold try_sign
      rw [spec_perform]
      intro signature _
      refine ⟨.challenge hchallenged signature, ?_⟩
      cases signature with
      | none =>
        refine ⟨.locked hchallenged, ?_⟩
        rw [hnext, tally_snoc]
        show _ = _ + UInt64.ofNat (tally X h₁).requests
        rw [hreq]
        rfl
      | some signature =>
        simp only
        have hattach : Requests X client op (op.first_id client + 1)
            (attach_frame X (op.first_id client + 1) begin signature profile) _ :=
          .attach hchallenged signature
        have htally₁ : tally X
            (h₁ ++ [⟨.try_sign (challenge_message nonce profile.did), some signature⟩])
              = tally X h₁ := by
          rw [tally_snoc]
          rfl
        rw [spec_bind]
        -- the second call: `attach`, under the next id
        refine spec_post (call_spec (by rw [htally₁]; exact hends.answered.2.owed) ?_ ?_) ?_
        · rw [hnext]
          exact .request hattach
        · rw [hnext]
          exact await_of_requests hattach
        rw [hnext, htally₁, hreq]
        rintro out client₂ h₂ ⟨hnext₂, hreq₂, hends₂⟩
        have hid₂ : client₂.next_id = op.first_id client + UInt64.ofNat (tally X h₂).requests := by
          rw [hnext₂, hreq₂, UInt64.add_assoc]
          rfl
        cases out with
        | error e => exact ⟨.attach_failed hchallenged hends₂, hid₂⟩
        | ok attach => exact ⟨.attached hchallenged hends₂, hid₂⟩

theorem detach_spec (session : Session) :
    Spec (fun _ _ => True) (ClientEvent X client (.detach session)) (detach X session) client
      (fun out client' h =>
        Post X client (.detach session) (out.map fun _ => .detached) client' h) [] := by
  have hdetach : Requests X client (.detach session) client.next_id
      (detach_frame X client.next_id session) [] := .detach rfl
  unfold detach
  rw [spec_bind]
  refine spec_post (call_spec rfl (.request hdetach) (await_of_requests hdetach)) ?_
  rintro out client' h ⟨hnext, hreq, hends⟩
  have hid : client'.next_id = client.next_id + UInt64.ofNat (tally X h).requests := by
    rw [hnext, hreq]
    rfl
  cases out with
  | error e => exact ⟨.detach_failed rfl hends, hid⟩
  | ok result => exact ⟨.detached rfl hends, hid⟩

theorem handle_next_sign_callback_spec :
    Spec (fun _ _ => True) (ClientEvent X client .handle_next_sign_callback)
      (handle_next_sign_callback X) client
      (fun out client' h =>
        Post X client .handle_next_sign_callback (out.map .decision) client' h) [] := by
  have hid : client.next_id = client.next_id + UInt64.ofNat 0 := (UInt64.add_zero _).symm
  have hread : ∀ r, (tally X [⟨.recv_frame, r⟩]).requests = 0 := by
    intro r
    cases r <;> rfl
  unfold handle_next_sign_callback
  rw [spec_bind]
  refine spec_recv_frame (fun r _ => .next_read rfl r) (fun raw _ => ?_) (fun e _ => ?_)
  · simp only
    rw [spec_bind, spec_orFrame]
    cases hparse : IncomingFrame.from_str X raw with
    | none => exact ⟨.next_unparsed rfl hparse, by rw [List.nil_append, hread]; exact hid⟩
    | some frame =>
      simp only
      by_cases hsign : frame.method = some METHOD_SIGN
      · rw [if_pos hsign]
        have hservice := Proc.wp_invariant (I := fun h => (tally X h).requests = 0)
          (fun h e hI _ he => by rw [tally_service_requests he]; exact hI) (hread (.ok raw))
          (service_sign_callback_spec (R := fun _ _ => True) client
            ⟨[], raw, rfl, hparse⟩ hsign)
        refine Proc.wp_mono (fun _ _ => id) (fun h e => .next_service rfl) ?_ hservice
        rintro ⟨out, client'⟩ h ⟨hreq, rfl, hserved⟩
        exact ⟨.next_served rfl hparse hsign hserved, by rw [hreq]; exact hid⟩
      · rw [if_neg hsign]
        exact ⟨.next_other rfl hparse hsign, by rw [List.nil_append, hread]; exact hid⟩
  · exact ⟨.next_unread rfl, by rw [List.nil_append, hread]; exact hid⟩

/-- **The contract of a call**: whatever the environment replies, everything the
call does is in `ClientEvent`, and it ends as `Ends` says. -/
theorem program_spec (X : Crates) (client : SessionClient) (op : ClientOp) :
    Spec (fun _ _ => True) (ClientEvent X client op) (op.program X) client
      (Post X client op) [] := by
  have hreturn : ∀ {α : Type} {x : ClientM α} {f : α → ClientOut} {client' : SessionClient}
      {h : ClientHistory},
      Spec (fun _ _ => True) (ClientEvent X client op) x client'
        (fun out client'' h' => Post X client op (out.map f) client'' h') h →
      Spec (fun _ _ => True) (ClientEvent X client op) (do return f (← x)) client'
        (Post X client op) h := by
    intro α x f client' h hx
    rw [spec_bind]
    refine spec_post hx fun out client'' h' hpost => ?_
    cases out <;> exact hpost
  cases op with
  | begin_and_attach profile => exact hreturn (begin_and_attach_spec rfl rfl)
  | reattach profile =>
    refine hreturn ?_
    unfold reattach
    rw [spec_bind, spec_perform]
    intro r _
    exact ⟨.set_transport rfl, begin_and_attach_spec rfl rfl⟩
  | detach session => exact hreturn (f := fun _ => ClientOut.detached) (detach_spec session)
  | handle_next_sign_callback => exact hreturn handle_next_sign_callback_spec

end Specs

/-! ## The machine -/

/-- What is left of a call. -/
abbrev ClientProc : Type := Proc Seam Seam.Reply (Except SessionError ClientOut × SessionClient)

/-- A client between two calls, or inside one: the client the call was made on,
the call, what has happened in it, and what is left of it. -/
inductive ClientState
  | idle (client : SessionClient)
  | busy (client : SessionClient) (op : ClientOp) (h : ClientHistory) (p : ClientProc)

/-- What is seen of a client. -/
inductive ClientLabel
  | call (op : ClientOp)
  | event (e : SeamEvent)
  | ret (out : Except SessionError ClientOut)

/-- One step of a client. The reply to a seam call is anybody's. -/
inductive ClientStep (X : Crates) : ClientState → ClientLabel → ClientState → Prop
  | call {client : SessionClient} (op : ClientOp) :
      ClientStep X (.idle client) (.call op) (.busy client op [] (op.program X client))
  | event {client : SessionClient} {op : ClientOp} {h : ClientHistory} {e : Seam}
      {k : e.Reply → ClientProc} (r : e.Reply) :
      ClientStep X (.busy client op h (.vis e k)) (.event ⟨e, r⟩)
        (.busy client op (h ++ [⟨e, r⟩]) (k r))
  | ret {client client' : SessionClient} {op : ClientOp} {h : ClientHistory}
      {out : Except SessionError ClientOut} :
      ClientStep X (.busy client op h (.ret (out, client'))) (.ret out) (.idle client')

namespace ClientState

/-- The call a client is in, and what has happened in it. -/
def current : ClientState → Option (ClientOp × ClientHistory)
  | .idle _ => none
  | .busy _ op h _ => some (op, h)

/-- **The invariant of a client**: what has happened in the call kept its
contract, and what is left of it will. -/
def Sound (X : Crates) : ClientState → Prop
  | .idle _ => True
  | .busy client op h p => Proc.Since (ClientEvent X client op) [] h ∧
    Proc.wp (fun _ _ => True) (ClientEvent X client op) p
      (fun out h' => Post X client op out.1 out.2 h') h

end ClientState

/-- The call in progress after one more label. -/
def progress : Option (ClientOp × ClientHistory) → ClientLabel → Option (ClientOp × ClientHistory)
  | _, .call op => some (op, [])
  | some (op, h), .event e => some (op, h ++ [e])
  | none, .event _ => none
  | _, .ret _ => none

/-- The call a client is in after a history, and what has happened in it. -/
def in_progress {ℓ : Type} (view : ℓ → Option ClientLabel) (ls : List ℓ) :
    Option (ClientOp × ClientHistory) := (ls.filterMap view).foldl progress none

section Step

variable {X : Crates} {s s' : ClientState} {l : ClientLabel}

theorem ClientStep.current (hstep : ClientStep X s l s') : s'.current = progress s.current l := by
  cases hstep <;> rfl

/-- Every step keeps the invariant. -/
theorem ClientStep.sound (hstep : ClientStep X s l s') (hsound : s.Sound X) : s'.Sound X := by
  cases hstep with
  | @call client op => exact ⟨Proc.Since.refl [], program_spec X client op⟩
  | event r =>
    obtain ⟨hsince, hwp⟩ := hsound
    obtain ⟨hevent, hrest⟩ := hwp r trivial
    exact ⟨hsince.snoc hevent, hrest⟩
  | ret => trivial

/-- What a client does is in the contract of the call it is in. -/
theorem ClientStep.event_inv {e : SeamEvent} (hstep : ClientStep X s (.event e) s')
    (hsound : s.Sound X) :
    ∃ client op h, s.current = some (op, h) ∧ Proc.Since (ClientEvent X client op) [] h ∧
      ClientEvent X client op h e := by
  cases hstep with
  | event r => exact ⟨_, _, _, rfl, hsound.1, (hsound.2 r trivial).1⟩

/-- So is how it returns. -/
theorem ClientStep.ret_inv {out : Except SessionError ClientOut}
    (hstep : ClientStep X s (.ret out) s') (hsound : s.Sound X) :
    ∃ client op h client', s.current = some (op, h) ∧ s' = .idle client' ∧
      Proc.Since (ClientEvent X client op) [] h ∧ Post X client op out client' h := by
  cases hstep with
  | ret => exact ⟨_, _, _, _, rfl, rfl, hsound.1, hsound.2⟩

end Step

/-! ## A client in a system -/

section System

variable {X : Crates} {σ ℓ : Type} {step : σ → ℓ → σ → Prop} {s₀ : σ}

/-- `client` is a part of the system, which steps when the system's labels say
so, as a client does. -/
structure HasClient (X : Crates) (step : σ → ℓ → σ → Prop) (s₀ : σ) (view : ℓ → Option ClientLabel)
    (client : σ → ClientState) : Prop where
  start : client s₀ = .idle .new
  still : ∀ {s l s'}, step s l s' → view l = none → client s' = client s
  moves : ∀ {s l s' cl}, step s l s' → view l = some cl → ClientStep X (client s) cl (client s')

variable {view : ℓ → Option ClientLabel} {client : σ → ClientState}

theorem in_progress_snoc (ls : List ℓ) (l : ℓ) :
    in_progress view (ls ++ [l]) = match view l with
      | none => in_progress view ls
      | some cl => progress (in_progress view ls) cl := by
  unfold in_progress
  rw [List.filterMap_append, List.foldl_append]
  cases hview : view l with
  | none => rw [List.filterMap_cons_none hview]; rfl
  | some cl => rw [List.filterMap_cons_some hview]; rfl

/-- As long as no call begins, a call in progress has been so since, and what has
happened in it only grows. -/
theorem in_progress_back (view : ℓ → Option ClientLabel) {ls : List ℓ} {i j : ℕ} (hij : i ≤ j)
    (hcalls : ∀ k l op, i ≤ k → k < j → ls[k]? = some l → view l ≠ some (.call op))
    {op : ClientOp} {h : ClientHistory} (hj : in_progress view (ls.take j) = some (op, h)) :
    ∃ h₀, in_progress view (ls.take i) = some (op, h₀) ∧ h₀ <+: h := by
  induction j, hij using Nat.le_induction generalizing h with
  | base => exact ⟨h, hj, List.prefix_refl h⟩
  | succ j hij ih =>
    have hearlier := fun {h'} => @ih (fun k l op hk hkj => hcalls k l op hk (by omega)) h'
    rw [List.take_add_one] at hj
    cases hl : ls[j]? with
    | none =>
      rw [hl, Option.toList_none, List.append_nil] at hj
      exact hearlier hj
    | some l =>
      rw [hl, Option.toList_some, in_progress_snoc] at hj
      cases hview : view l with
      | none =>
        rw [hview] at hj
        exact hearlier hj
      | some cl =>
        rw [hview] at hj
        cases cl with
        | call op' => exact absurd hview (hcalls j l op' hij (Nat.lt_succ_self j) hl)
        | ret out =>
          cases hcurrent : in_progress view (ls.take j) <;> rw [hcurrent] at hj <;> cases hj
        | event e =>
          cases hcurrent : in_progress view (ls.take j) with
          | none =>
            rw [hcurrent] at hj
            cases hj
          | some current =>
            rw [hcurrent] at hj
            obtain ⟨op', h'⟩ := current
            cases hj
            obtain ⟨h₀, hi, hprefix⟩ := hearlier hcurrent
            exact ⟨h₀, hi, hprefix.trans (List.prefix_append h' [e])⟩

/-- An event of the call in progress has its place in the log, and no call has
begun since. -/
theorem in_progress_event (view : ℓ → Option ClientLabel) {ls : List ℓ} {k : ℕ} {op : ClientOp}
    {h₀ h₁ : ClientHistory} {e : SeamEvent}
    (hk : in_progress view (ls.take k) = some (op, h₀ ++ e :: h₁)) :
    ∃ j l, j < k ∧ ls[j]? = some l ∧ view l = some (.event e) ∧
      in_progress view (ls.take j) = some (op, h₀) ∧
      ∀ i l' op', j ≤ i → i < k → ls[i]? = some l' → view l' ≠ some (.call op') := by
  induction k generalizing h₁ with
  | zero => cases hk
  | succ k ih =>
    -- when the last label is not the event, it is further back
    have hearlier : ∀ {h₂}, in_progress view (ls.take k) = some (op, h₀ ++ e :: h₂) →
        (∀ l' op', ls[k]? = some l' → view l' ≠ some (.call op')) →
        ∃ j l, j < k + 1 ∧ ls[j]? = some l ∧ view l = some (.event e) ∧
          in_progress view (ls.take j) = some (op, h₀) ∧
          ∀ i l' op', j ≤ i → i < k + 1 → ls[i]? = some l' → view l' ≠ some (.call op') := by
      intro h₂ hbefore hlast
      obtain ⟨j, l, hj, hl, hview, hstart, hcalls⟩ := ih hbefore
      refine ⟨j, l, by omega, hl, hview, hstart, fun i l' op' hji hik hl' => ?_⟩
      by_cases hlt : i < k
      · exact hcalls i l' op' hji hlt hl'
      · obtain rfl : i = k := by omega
        exact hlast l' op' hl'
    rw [List.take_add_one] at hk
    cases hl : ls[k]? with
    | none =>
      rw [hl, Option.toList_none, List.append_nil] at hk
      exact hearlier hk (by rw [hl]; exact nofun)
    | some l =>
      rw [hl, Option.toList_some, in_progress_snoc] at hk
      cases hview : view l with
      | none =>
        rw [hview] at hk
        refine hearlier hk fun l' op' hl' => ?_
        rw [hl] at hl'
        rw [← Option.some.inj hl', hview]
        exact nofun
      | some cl =>
        rw [hview] at hk
        cases cl with
        | call op' =>
          have hempty : ([] : ClientHistory) = h₀ ++ e :: h₁ := (Prod.mk.inj (Option.some.inj hk)).2
          simp at hempty
        | ret out => cases hcurrent : in_progress view (ls.take k) <;> rw [hcurrent] at hk <;> cases hk
        | event e' =>
          cases hcurrent : in_progress view (ls.take k) with
          | none =>
            rw [hcurrent] at hk
            cases hk
          | some current =>
            rw [hcurrent] at hk
            obtain ⟨op', h'⟩ := current
            obtain ⟨rfl, hsplit⟩ := Prod.mk.inj (Option.some.inj hk)
            have hnocall : ∀ l' op'', ls[k]? = some l' → view l' ≠ some (.call op'') := by
              intro l' op'' hl'
              rw [hl] at hl'
              rw [← Option.some.inj hl', hview]
              exact nofun
            rcases List.eq_nil_or_concat h₁ with rfl | ⟨h₂, e'', rfl⟩
            · obtain ⟨rfl, hlast⟩ := List.append_inj' hsplit rfl
              obtain rfl : e' = e := List.head_eq_of_cons_eq hlast
              refine ⟨k, l, Nat.lt_succ_self k, hl, hview, hcurrent, fun i l' op'' hki hik hl' => ?_⟩
              obtain rfl : i = k := by omega
              exact hnocall l' op'' hl'
            · rw [List.concat_eq_append, ← List.cons_append, ← List.append_assoc] at hsplit
              obtain ⟨rfl, -⟩ := List.append_inj' hsplit rfl
              exact hearlier hcurrent hnocall

/-- A call in progress began at a place of the log, and the client has done
nothing but call its seams since. -/
theorem in_progress_begun (view : ℓ → Option ClientLabel) {ls : List ℓ} {k : ℕ} {op : ClientOp}
    {h : ClientHistory} (hk : in_progress view (ls.take k) = some (op, h)) :
    ∃ c l, c < k ∧ ls[c]? = some l ∧ view l = some (.call op) ∧
      ∀ i l' cl, c < i → i < k → ls[i]? = some l' → view l' = some cl → ∃ e, cl = .event e := by
  induction k generalizing h with
  | zero => cases hk
  | succ k ih =>
    -- when the last label is not the call, the call is further back
    have hearlier : ∀ {h₂}, in_progress view (ls.take k) = some (op, h₂) →
        (∀ l' cl, ls[k]? = some l' → view l' = some cl → ∃ e, cl = .event e) →
        ∃ c l, c < k + 1 ∧ ls[c]? = some l ∧ view l = some (.call op) ∧
          ∀ i l' cl, c < i → i < k + 1 → ls[i]? = some l' → view l' = some cl → ∃ e, cl = .event e := by
      intro h₂ hbefore hlast
      obtain ⟨c, l, hc, hl, hview, hevents⟩ := ih hbefore
      refine ⟨c, l, by omega, hl, hview, fun i l' cl hci hik hl' hview' => ?_⟩
      by_cases hlt : i < k
      · exact hevents i l' cl hci hlt hl' hview'
      · obtain rfl : i = k := by omega
        exact hlast l' cl hl' hview'
    rw [List.take_add_one] at hk
    cases hl : ls[k]? with
    | none =>
      rw [hl, Option.toList_none, List.append_nil] at hk
      refine hearlier hk fun l' cl hl' => ?_
      rw [hl] at hl'
      cases hl'
    | some l =>
      rw [hl, Option.toList_some, in_progress_snoc] at hk
      cases hview : view l with
      | none =>
        rw [hview] at hk
        refine hearlier hk fun l' cl hl' hview' => ?_
        rw [hl] at hl'
        rw [← Option.some.inj hl', hview] at hview'
        cases hview'
      | some cl =>
        rw [hview] at hk
        cases cl with
        | call op' =>
          obtain ⟨rfl, -⟩ := Prod.mk.inj (Option.some.inj hk)
          exact ⟨k, l, Nat.lt_succ_self k, hl, hview, fun i l' cl hki hik => by omega⟩
        | ret out => cases hcurrent : in_progress view (ls.take k) <;> rw [hcurrent] at hk <;> cases hk
        | event e =>
          cases hcurrent : in_progress view (ls.take k) with
          | none =>
            rw [hcurrent] at hk
            cases hk
          | some current =>
            rw [hcurrent] at hk
            obtain ⟨op', h'⟩ := current
            obtain ⟨rfl, -⟩ := Prod.mk.inj (Option.some.inj hk)
            refine hearlier hcurrent fun l' cl hl' hview' => ?_
            rw [hl] at hl'
            rw [← Option.some.inj hl', hview] at hview'
            exact ⟨e, (Option.some.inj hview').symm⟩

/-- **The client of a system is sound**, and its state is in what its history
says. -/
theorem HasClient.sound (hsys : HasClient X step s₀ view client) {ls : List ℓ} {s : σ}
    (hrun : Machine.Run step s₀ ls s) :
    (client s).Sound X ∧ in_progress view ls = (client s).current := by
  refine hrun.invariant (I := fun ls s => (client s).Sound X ∧
    in_progress view ls = (client s).current) ?_ ?_
  · rw [hsys.start]
    exact ⟨trivial, rfl⟩
  · rintro ls s l s' _ ⟨hsound, hcurrent⟩ hstep
    rw [in_progress_snoc]
    cases hview : view l with
    | none =>
      rw [hsys.still hstep hview]
      exact ⟨hsound, hcurrent⟩
    | some cl =>
      have hmove := hsys.moves hstep hview
      refine ⟨hmove.sound hsound, ?_⟩
      rw [hmove.current, ← hcurrent]

/-- Every event of a run is in the contract of the call it happened in. -/
theorem HasClient.event (hsys : HasClient X step s₀ view client) {ls : List ℓ} {s : σ}
    (hrun : Machine.Run step s₀ ls s) {i : ℕ} {l : ℓ} {e : SeamEvent} (hl : ls[i]? = some l)
    (hview : view l = some (.event e)) :
    ∃ client op h, in_progress view (ls.take i) = some (op, h) ∧
      Proc.Since (ClientEvent X client op) [] h ∧ ClientEvent X client op h e := by
  obtain ⟨s₁, s₂, hrun₁, hstep, -⟩ := hrun.at hl
  obtain ⟨hsound, hcurrent⟩ := hsys.sound hrun₁
  rw [hcurrent]
  exact (hsys.moves hstep hview).event_inv hsound

/-- Every call of a run returned as its contract says. -/
theorem HasClient.ret (hsys : HasClient X step s₀ view client) {ls : List ℓ} {s : σ}
    (hrun : Machine.Run step s₀ ls s) {i : ℕ} {l : ℓ} {out : Except SessionError ClientOut}
    (hl : ls[i]? = some l) (hview : view l = some (.ret out)) :
    ∃ client op h client', in_progress view (ls.take i) = some (op, h) ∧
      Proc.Since (ClientEvent X client op) [] h ∧ Post X client op out client' h := by
  obtain ⟨s₁, s₂, hrun₁, hstep, -⟩ := hrun.at hl
  obtain ⟨hsound, hcurrent⟩ := hsys.sound hrun₁
  rw [hcurrent]
  obtain ⟨client, op, h, client', hcur, -, hsince, hpost⟩ :=
    (hsys.moves hstep hview).ret_inv hsound
  exact ⟨client, op, h, client', hcur, hsince, hpost⟩

end System

/-- A client alone is a system. -/
theorem has_client_self (X : Crates) :
    HasClient X (ClientStep X) (.idle .new) some (fun s => s) where
  start := rfl
  still := by
    intro s l s' _ hnone
    cases hnone
  moves := by
    intro s l s' cl hstep hsome
    cases hsome
    exact hstep

end DigIpc
