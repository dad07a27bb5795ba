/-
One callback, and the three places where its outcome shows: the reply on the
wire, the decision the client returns for its log, and the signature that the
engine checks.

`Replies` already lists the five ways the service of a callback can go, each with
its reply, its decision and everything asked on the way. Agreement is read off
that list; the signature is followed from the signer through base64, and the key
through hex, to the engine's own `verify_signature`.
-/
import DigIpc.ClientTraces
import DigIpc.SignedMessages

set_option autoImplicit false

open Interaction Serde
open StdIo (Error)

namespace DigIpc

/-- A reply to a callback. -/
inductive CallbackReply
  | success (result : SignCallbackResult)
  | error (error : RpcError)

namespace CallbackReply

/-- Its text, under the id it echoes. -/
def text (X : Crates) (id : Value) : CallbackReply → String
  | .success result => result_frame X id result.encode
  | .error e => error_frame X id e.code e.message

/-- A success envelope. -/
def IsSuccess (reply : CallbackReply) : Prop := ∃ result, reply = .success result

/-- An error with this code. -/
def IsError (c : SignErrorCode) (reply : CallbackReply) : Prop :=
  ∃ message, reply = .error { code := c.code, message }

@[simp] theorem isSuccess_success (result : SignCallbackResult) : (success result).IsSuccess :=
  ⟨result, rfl⟩

@[simp] theorem not_isSuccess_error (e : RpcError) : ¬ (error e).IsSuccess := nofun

@[simp] theorem not_isError_success (c : SignErrorCode) (result : SignCallbackResult) :
    ¬ (success result).IsError c := nofun

@[simp] theorem isError_error (c c' : SignErrorCode) (message : String) :
    (error { code := c.code, message }).IsError c' ↔ c = c' := by
  constructor
  · rintro ⟨message', h⟩
    exact SignErrorCode.code_injective (congrArg RpcError.code (error.inj h))
  · rintro rfl
    exact ⟨message, rfl⟩

end CallbackReply

section Conditions

variable (X : Crates) (params : SignCallbackParams) (tr : ClientHistory)

/-- The payload is valid base64. -/
def PayloadDecodes : Prop := ∃ payload, X.base64_decode params.payload_b64 = some payload

/-- The policy was asked, and allowed it. -/
def PolicyAllows : Prop := ∃ request, (⟨.authorize request, .Allow⟩ : SeamEvent) ∈ tr

/-- The payload type is at most 65535 bytes. -/
def TypeFits : Prop := (as_bytes params.payload_type).length ≤ 65535

/-- The signer was asked, and signed. -/
def SignerSigns : Prop := ∃ m signature, (⟨.try_sign m, some signature⟩ : SeamEvent) ∈ tr

/-- The signer was asked, and is locked. -/
def SignerLocked : Prop := ∃ m, (⟨.try_sign m, none⟩ : SeamEvent) ∈ tr

/-- What the reply and the decision have to do with the exchange `tr`. -/
structure OutcomeAgrees (reply : CallbackReply) (decision : SignDecision) : Prop where
  success : reply.IsSuccess ↔
    PayloadDecodes X params ∧ PolicyAllows tr ∧ TypeFits params ∧ SignerSigns tr
  locked : reply.IsError .Locked ↔
    PayloadDecodes X params ∧ PolicyAllows tr ∧ TypeFits params ∧ SignerLocked tr
  denied : reply.IsError .SignDenied ↔
    ¬ (PayloadDecodes X params ∧ PolicyAllows tr ∧ TypeFits params)
  decision : decision = .Allow ↔ reply.IsSuccess

/-- A success reply carries the signer's key and its signature of the payload. -/
def CarriesSignature (reply : CallbackReply) : Prop :=
  ∀ result, reply = .success result → ∃ payload m signature pubkey_hex,
    X.base64_decode params.payload_b64 = some payload ∧
    sign_callback_message params.payload_type payload = some m ∧
    (⟨.try_sign m, some signature⟩ : SeamEvent) ∈ tr ∧
    (⟨.signing_public_key_hex, pubkey_hex⟩ : SeamEvent) ∈ tr ∧
    result = SignCallbackResult.mk (X.base64_encode signature.as_bytes) pubkey_hex

end Conditions

/-- **The five ways a callback can go**, each with its conditions. -/
theorem Replies.agrees {X : Crates} {frame : IncomingFrame} {params : SignCallbackParams}
    {h h' : ClientHistory} {text : String} {decision : SignDecision}
    (hreplies : Replies X frame params h text decision h') :
    ∃ tr reply, h' ++ [⟨.send_frame text, .ok ()⟩] = h ++ tr ∧
      frames_sent tr = [CallbackReply.text X (reply_id frame) reply] ∧
      OutcomeAgrees X params tr reply decision ∧ CarriesSignature X params tr reply := by
  cases hreplies with
  | base64 payload =>
    have hdecodes : ¬ PayloadDecodes X params := by
      rintro ⟨payload', hpayload⟩
      rw [payload] at hpayload
      cases hpayload
    refine ⟨[_], .error ⟨SignErrorCode.SignDenied.code, _⟩, rfl, rfl, ⟨?_, ?_, ?_, ?_⟩, nofun⟩ <;>
      simp [hdecodes]
  | @denied payload reason contents =>
    have hallows : ¬ PolicyAllows [⟨.authorize (sign_request params payload), .Deny reason⟩,
        ⟨.send_frame (refusal_frame X frame .SignDenied reason), .ok ()⟩] := by
      simp [PolicyAllows]
    refine ⟨_, .error ⟨SignErrorCode.SignDenied.code, reason⟩, List.append_assoc _ _ _, rfl,
      ⟨?_, ?_, ?_, ?_⟩, nofun⟩ <;> simp [hallows]
  | @too_long payload contents message =>
    have hfits : ¬ TypeFits params := not_le.mpr (sign_callback_message_eq_none.mp message)
    refine ⟨_, .error ⟨SignErrorCode.SignDenied.code, _⟩, List.append_assoc _ _ _, rfl,
      ⟨?_, ?_, ?_, ?_⟩, nofun⟩ <;> simp [hfits]
  | @locked payload m contents message =>
    have hfits : TypeFits params := Nat.lt_succ_iff.mp (sign_callback_message_eq_some.mp message).1
    have hdecodes : PayloadDecodes X params := ⟨payload, contents⟩
    refine ⟨_, .error ⟨SignErrorCode.Locked.code, _⟩,
      (List.append_assoc _ _ _).trans (List.append_assoc _ _ _), rfl, ⟨?_, ?_, ?_, ?_⟩, nofun⟩
    · simp [SignerSigns]
    · simp [hfits, hdecodes, PolicyAllows, SignerLocked]
    · simp [hfits, hdecodes, PolicyAllows]
    · simp
  | @signed payload m signature pubkey_hex contents message =>
    have hfits : TypeFits params := Nat.lt_succ_iff.mp (sign_callback_message_eq_some.mp message).1
    have hdecodes : PayloadDecodes X params := ⟨payload, contents⟩
    refine ⟨_, .success ⟨_, _⟩, ((List.append_assoc _ _ _).trans (List.append_assoc _ _ _)).trans
      (List.append_assoc _ _ _), rfl, ⟨?_, ?_, ?_, ?_⟩, ?_⟩
    · simp [hfits, hdecodes, PolicyAllows, SignerSigns]
    · simp [SignerLocked]
    · simp [hfits, hdecodes, PolicyAllows]
    · simp
    · rintro result ⟨⟩
      exact ⟨payload, m, signature, pubkey_hex, contents, message, by simp, by simp, rfl⟩

end DigIpc
