/-
The refusals on the wire, against the error taxonomy.

A refusal of the engine goes through `AttachError::to_rpc_error`, which pairs a
code with its own symbol. A refusal of the client is built by hand: the code is a
taxonomy code, but the message is whatever text stands at the place that refuses,
or the reason the policy gave. `to_rpc_error_iff` says when such a pair is an
entry of the taxonomy. A refusal of the client is one exactly when the policy
denied the callback and the reason it gave happens to be the symbol.
-/
import DigIpc.ClientTraces

set_option autoImplicit false

open Interaction Serde
open StdIo (Error)

namespace DigIpc

/-! ## The taxonomy -/

/-- A code with a message is an entry when the message is the symbol of the code. -/
theorem SignErrorCode.to_rpc_error_iff (c : SignErrorCode) (message : String) :
    (∃ c' : SignErrorCode, RpcError.mk c.code message = c'.to_rpc_error) ↔ message = c.symbol := by
  constructor
  · rintro ⟨c', h⟩
    obtain ⟨hcode, hmessage⟩ := RpcError.mk.inj h
    rw [hmessage, SignErrorCode.code_injective hcode]
  · rintro rfl
    exact ⟨c, rfl⟩

/-! ## What a reply to a callback reads as -/

section Replies

variable {X : Crates} {frame : IncomingFrame}

/-- The error a text carries, for its reader. -/
def error_of (X : Crates) (text : String) : Option RpcError :=
  (IncomingFrame.from_str X text).bind IncomingFrame.error

/-- A refusal that reads back carries its code and its message. -/
theorem error_of_refusal (hX : X.json.Faithful) {c : SignErrorCode} {message : String}
    {error : RpcError} (herror : error_of X (refusal_frame X frame c message) = some error) :
    error = { code := c.code, message } := by
  obtain ⟨read, hparse, herror⟩ := Option.bind_eq_some_iff.mp herror
  rw [(RpcErrorReply.from_str hX hparse).2] at herror
  exact (Option.some.inj herror).symm

/-- And a signature no error. -/
theorem error_of_signature (hX : X.json.Faithful) (signature : Signature) (pubkey_hex : String) :
    error_of X (signature_frame X frame signature pubkey_hex) = none := by
  rw [error_of, Option.bind_eq_none_iff]
  intro read hparse
  exact (RpcResult.from_str hX hparse).2

/-- Under an integer id a refusal does read back. -/
theorem error_of_callback (hX : X.json.Faithful) (id : UInt64) (params : SignCallbackParams)
    (c : SignErrorCode) (message : String) :
    error_of X (refusal_frame X (callback_read id params) c message)
      = some { code := c.code, message } := by
  have hreply : reply_id (callback_read id params) = Value.of (ofU64 id) := rfl
  unfold error_of refusal_frame
  rw [hreply, from_str_error_frame hX]
  rfl

end Replies

/-! ## Refusals of the client -/

/-- The error that the `i`-th label of a client's history sends in answer to a
callback, after `h` in the call in progress. -/
structure RefusedAt (X : Crates) (ls : List ClientLabel) (i : ℕ) (h : ClientHistory)
    (error : RpcError) : Prop where
  sent : ∃ text r, ls[i]? = some (.event ⟨.send_frame text, r⟩) ∧ error_of X text = some error
  call : ∃ op, in_progress some (ls.take i) = some (op, h)
  owed : (tally X h).owed.isSome

/-- The policy has just denied the callback with this reason. -/
def DeniedWith (reason : String) (h : ClientHistory) : Prop :=
  ∃ h' request, h = h' ++ [⟨.authorize request, .Deny reason⟩]

variable {X : Crates}

/-- Only the policy's own reason can be the symbol of the code it goes with. -/
theorem Refused.symbol_iff {frame : IncomingFrame} {c : SignErrorCode} {message : String}
    {decision : SignDecision} {h : ClientHistory} (hrefused : Refused X frame c message decision h) :
    message = c.symbol ↔ DeniedWith SignErrorCode.SignDenied.symbol h := by
  -- a history has one last event, so the policy's denial is the only way to end with one
  have hlast : ∀ {h' : ClientHistory} {e : SeamEvent}, h = h' ++ [e] →
      DeniedWith SignErrorCode.SignDenied.symbol h →
      ∃ request, e = ⟨.authorize request, .Deny SignErrorCode.SignDenied.symbol⟩ := by
    rintro h' e rfl ⟨h'', request, heq⟩
    obtain ⟨-, he⟩ := List.append_inj' heq rfl
    exact ⟨request, List.head_eq_of_cons_eq he⟩
  have htext : ∀ {h' : ClientHistory} {e : SeamEvent} {text symbol : String}, h = h' ++ [e] →
      text ≠ symbol → (∀ request reason, e ≠ ⟨.authorize request, .Deny reason⟩) →
      (text = symbol ↔ DeniedWith SignErrorCode.SignDenied.symbol h) := by
    intro h' e text symbol heq htext hne
    refine ⟨fun h => absurd h htext, fun hdenied => ?_⟩
    obtain ⟨request, he⟩ := hlast heq hdenied
    exact absurd he (hne request _)
  cases hrefused with
  | base64 reads method decoded payload =>
    obtain ⟨h', raw, rfl, -⟩ := reads
    exact htext rfl (by decide) nofun
  | denied judged =>
    obtain ⟨h', -, rfl⟩ := judged
    constructor
    · rintro rfl
      exact ⟨h', _, rfl⟩
    · intro hdenied
      obtain ⟨request, he⟩ := hlast rfl hdenied
      cases he
      rfl
  | too_long judged message =>
    obtain ⟨h', -, rfl⟩ := judged
    refine htext rfl (by decide) fun request reason he => ?_
    cases he
  | locked allowed => exact htext rfl (by decide) nofun

/-- The reply to the first callback that a client services. -/
theorem refused_at_first (hX : X.json.Faithful) (id : UInt64) (params : SignCallbackParams)
    (hcontext : (ofOption params.context).Plain 125) (tr : ClientHistory) {text : String} {decision : SignDecision} {error : RpcError}
    (hservice : Performs (service_sign_callback X (callback_read id params)) .new
      (tr ++ [⟨.send_frame text, .ok ()⟩]) (.ok decision) .new)
    (herror : error_of X text = some error)
    (howed : (tr.foldl (Tally.count X) ⟨some (callback_read id params), 1, 0⟩).owed.isSome) :
    ∃ ls s i, Machine.Run (ClientStep X) (.idle .new) ls s ∧
      RefusedAt X ls i (⟨.recv_frame, .ok (callback_frame X id params)⟩ :: tr) error := by
  have hparse := from_str_callback_frame hX id params hcontext
  have hread : callback_of X (callback_frame X id params) = some (callback_read id params) :=
    callback_of_eq_some.mpr ⟨hparse, rfl⟩
  have hnext := performs_handle_next hparse rfl hservice
  have hprogram : Performs (ClientOp.handle_next_sign_callback.program X) .new _
      (.ok (.decision decision)) .new := hnext.bind (performs_pure _)
  refine ⟨_, _, tr.length + 2, run_call .start hprogram, ⟨text, .ok (), ?_, herror⟩,
    ⟨.handle_next_sign_callback, ?_⟩, ?_⟩
  · simp
  · rw [← in_progress_call]
    simp
  · show (tr.foldl (Tally.count X) ⟨callback_of X (callback_frame X id params), 1, 0⟩).owed.isSome
    rw [hread]
    exact howed

/-- **Every refusal of the engine is a taxonomy entry; a refusal of the client is
one exactly when it passes on a denial of the policy whose reason is the symbol
itself.** Its code is `SIGN_DENIED` or `LOCKED` in any case. -/
theorem refusals_in_taxonomy (hX : X.json.Faithful) :
    (∀ e : AttachError, ∃ c : SignErrorCode, (c = .AuthRequired ∨ c = .BadMac) ∧
      e.to_rpc_error = c.to_rpc_error) ∧
    ∀ (ls : List ClientLabel) (s : ClientState), Machine.Run (ClientStep X) (.idle .new) ls s →
      ∀ i h error, RefusedAt X ls i h error →
        ((∃ c : SignErrorCode, error = c.to_rpc_error) ↔
          DeniedWith SignErrorCode.SignDenied.symbol h) ∧
        ∃ c : SignErrorCode, (c = .SignDenied ∨ c = .Locked) ∧ error.code = c.code := by
  constructor
  · intro e
    refine ⟨e.error_code, ?_, rfl⟩
    cases e with
    | KeyMismatch => exact Or.inr rfl
    | BadSignature => exact Or.inr rfl
    | UnknownCandidate => exact Or.inl rfl
    | UnknownDid => exact Or.inl rfl
    | Malformed field => exact Or.inl rfl
  · intro ls s hrun i h error hrefused
    obtain ⟨⟨text, r, hl, herror⟩, ⟨op, hcall⟩, howed⟩ := hrefused
    obtain ⟨frame, howed⟩ := Option.isSome_iff_exists.mp howed
    obtain ⟨client, op', h', hcall', -, hevent⟩ := (has_client_self X).event hrun hl rfl
    rw [hcall] at hcall'
    obtain ⟨rfl, rfl⟩ := Prod.mk.inj (Option.some.inj hcall')
    -- the text answers the callback that is owed an answer, and is not a success
    cases hevent.service_of_owed howed with
    | signed r signed =>
      rw [error_of_signature hX] at herror
      cases herror
    | @refused c message decision h r why =>
      obtain rfl := error_of_refusal hX herror
      rw [c.to_rpc_error_iff, why.symbol_iff]
      refine ⟨Iff.rfl, c, ?_, rfl⟩
      cases why with
      | locked allowed => exact Or.inr rfl
      | base64 reads method decoded payload => exact Or.inl rfl
      | denied judged => exact Or.inl rfl
      | too_long judged message => exact Or.inl rfl

/-- A denial whose reason is the symbol. -/
theorem refusals_in_taxonomy_denied :
    ∃ ls s i h error, Machine.Run (ClientStep Reference.crates) (.idle .new) ls s ∧
      RefusedAt Reference.crates ls i h error ∧ ∃ c : SignErrorCode, error = c.to_rpc_error := by
  have hX := Reference.faithful.json
  obtain ⟨ls, s, i, hrun, hrefused⟩ := refused_at_first hX 7 Reference.spend trivial [_]
    (performs_service_denied .new (callback_params_read 7 Reference.spend)
      rfl SignErrorCode.SignDenied.symbol)
    (error_of_callback hX _ _ _ _) rfl
  refine ⟨ls, s, i, _, _, hrun, hrefused, ?_⟩
  rw [((refusals_in_taxonomy hX).2 ls s hrun i _ _ hrefused).1]
  exact ⟨[_], _, rfl⟩

/-- The reply to a payload that is not base64. -/
theorem refusal_outside_taxonomy :
    ∃ ls s i h error, Machine.Run (ClientStep Reference.crates) (.idle .new) ls s ∧
      RefusedAt Reference.crates ls i h error ∧ ∀ c : SignErrorCode, error ≠ c.to_rpc_error := by
  have hX := Reference.faithful.json
  have hparams := callback_params_read 7 { Reference.spend with payload_b64 := "*" }
  obtain ⟨ls, s, i, hrun, hrefused⟩ := refused_at_first hX 7
    { Reference.spend with payload_b64 := "*" } trivial []
    (performs_service_base64 .new hparams (by decide)) (error_of_callback hX _ _ _ _) rfl
  refine ⟨ls, s, i, _, _, hrun, hrefused, fun c hc => ?_⟩
  have hsymbol := (SignErrorCode.SignDenied.to_rpc_error_iff _).mp ⟨c, hc⟩
  exact absurd hsymbol (by decide)

end DigIpc
