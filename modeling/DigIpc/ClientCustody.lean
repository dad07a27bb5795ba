/-
Custody of the signing key: what the client hands to its signer, and which
frames carry a signature.

`ClientEvent` has the answer for one call, event by event. Two things are added
here. `ChallengeDue` and `CallbackDue` say what a signing request rests on in
terms of the events before it alone, so that they can be read without the
contract they come from. And a handshake signs one challenge: the request is
due right after the response to `begin` was read, and in the rest of the call
nothing is awaited from there (`Answered.no_await`), so a second point of the
call at which one is due cannot come after the first.
-/
import DigIpc.ClientTraces
import DigIpc.SignedMessages

set_option autoImplicit false

open Interaction Serde
open StdIo (Error)

namespace DigIpc

/-! ## What a signing request rests on -/

section Due

variable (X : Crates)

/-- The signature of `m` is due for the challenge of the handshake `op`: its
`begin` request went out in this call, and the response to that id has just been
read. -/
inductive ChallengeDue (op : ClientOp) (h : ClientHistory) : Bytes → Prop
  | intro {profile : ProfileAttachment} {begin : BeginResult} {nonce : Bytes} {id : UInt64}
      {pubkey_hex : String} (handshake : op.profile = some profile)
      (requested : op.opening ++ [⟨.signing_public_key_hex, pubkey_hex⟩] ++
        [⟨.send_frame (begin_frame X id profile pubkey_hex), .ok ()⟩] <+: h)
      (answered : Answered X BeginResult.decode id begin h)
      (decoded : X.base64_decode begin.nonce_b64 = some nonce) (length : nonce.length = NONCE_LEN) :
      ChallengeDue op h (challenge_message nonce profile.did)

/-- The signature of `m` is due for a callback: it has just been read, and the
policy was asked for exactly its type and payload and has allowed it. -/
inductive CallbackDue (h : ClientHistory) : Bytes → Prop
  | intro {h₀ : ClientHistory} {raw : String} {frame : IncomingFrame} {params : SignCallbackParams}
      {payload m : Bytes}
      (events : h = h₀ ++ [⟨.recv_frame, .ok raw⟩] ++
        [⟨.authorize (sign_request params payload), .Allow⟩])
      (parse : IncomingFrame.from_str X raw = some frame) (method : frame.method = some METHOD_SIGN)
      (decoded : callback_params frame = some params)
      (contents : X.base64_decode params.payload_b64 = some payload)
      (message : sign_callback_message params.payload_type payload = some m) : CallbackDue h m

/-- What a frame sent after `h` is, and which signature it carries. An `attach`
names the candidate of the challenge just signed, a reply answers the callback
that was read last, and a refusal says why. -/
inductive FrameDue (op : ClientOp) (h : ClientHistory) : String → Option Signature → Prop
  | begin {id : UInt64} {profile : ProfileAttachment} {pubkey_hex : String}
      (handshake : op.profile = some profile)
      (events : h = op.opening ++ [⟨.signing_public_key_hex, pubkey_hex⟩]) :
      FrameDue op h (begin_frame X id profile pubkey_hex) none
  | attach {id : UInt64} {profile : ProfileAttachment} {begin : BeginResult} {nonce : Bytes}
      {signature : Signature} {h₀ : ClientHistory} (handshake : op.profile = some profile)
      (answered : Answered X BeginResult.decode id begin h₀)
      (decoded : X.base64_decode begin.nonce_b64 = some nonce)
      (due : ChallengeDue X op h₀ (challenge_message nonce profile.did))
      (events : h = h₀ ++ [⟨.try_sign (challenge_message nonce profile.did), some signature⟩]) :
      FrameDue op h (attach_frame X (id + 1) begin signature profile) (some signature)
  | detach {id : UInt64} {session : Session} (detaching : op = .detach session) :
      FrameDue op h (detach_frame X id session) none
  | success {frame : IncomingFrame} {m : Bytes} {signature : Signature} {pubkey_hex : String}
      {h₀ : ClientHistory} (allowed : Allowed X frame m h₀) (due : CallbackDue X h₀ m)
      (events : h = h₀ ++ [⟨.try_sign m, some signature⟩] ++
        [⟨.signing_public_key_hex, pubkey_hex⟩]) :
      FrameDue op h (signature_frame X frame signature pubkey_hex) (some signature)
  | refusal {frame : IncomingFrame} {c : SignErrorCode} {message : String} {decision : SignDecision}
      (why : Refused X frame c message decision h) :
      FrameDue op h (refusal_frame X frame c message) none

end Due

section Call

variable {X : Crates} {client : SessionClient} {op : ClientOp} {h : ClientHistory}

theorem Challenged.due {profile : ProfileAttachment} {begin : BeginResult} {nonce : Bytes}
    (hchallenged : Challenged X client op profile begin nonce h) :
    ChallengeDue X op h (challenge_message nonce profile.did) := by
  obtain ⟨pubkey_hex, hends⟩ := hchallenged.begun
  obtain ⟨⟨tr, htr, -⟩, hanswered⟩ := hends.answered
  exact .intro hchallenged.handshake ⟨tr, htr.symm⟩ hanswered hchallenged.decoded
    hchallenged.length

theorem Allowed.due {frame : IncomingFrame} {m : Bytes} (hallowed : Allowed X frame m h) :
    CallbackDue X h m := by
  obtain ⟨params, payload, ⟨h', hasked, rfl⟩, hmessage⟩ := hallowed
  obtain ⟨h₀, raw, rfl, hparse⟩ := hasked.reads
  exact .intro rfl hparse hasked.method hasked.decoded hasked.contents hmessage

/-! ## One event of a call -/

/-- Everything a call does while it awaits a response or services a callback. -/
theorem ClientEvent.service_cases {P : ClientHistory → SeamEvent → Prop} {e : SeamEvent}
    (hevent : ClientEvent X client op h e)
    (hset : ∀ h, P h ⟨.set_transport, ()⟩)
    (hpublic : ∀ h r, P h ⟨.signing_public_key_hex, r⟩)
    (hread : ∀ h r, P h ⟨.recv_frame, r⟩)
    (hchallenge : ∀ {profile begin nonce h} r, Challenged X client op profile begin nonce h →
      P h ⟨.try_sign (challenge_message nonce profile.did), r⟩)
    (hrequest : ∀ {id request h} r, Requests X client op id request h →
      P h ⟨.send_frame request, r⟩)
    (hservice : ∀ {frame h e}, ServiceEvent X frame h e → P h e) : P h e := by
  cases hevent with
  | set_transport reattaching => exact hset _
  | public_key handshake r => exact hpublic _ r
  | challenge challenged r => exact hchallenge r challenged
  | request requests r => exact hrequest r requests
  | next_read next r => exact hread _ r
  | next_service next event => exact hservice event
  | await awaiting event =>
    cases event with
    | read r sent => exact hread _ r
    | service event => exact hservice event

/-- **The infallible method of the signer is never called.** -/
theorem ClientEvent.not_sign {e : SeamEvent} (hevent : ClientEvent X client op h e) (m : Bytes) :
    e.1 ≠ .sign m := by
  refine hevent.service_cases (P := fun _ e => e.1 ≠ .sign m) ?_ ?_ ?_ ?_ ?_ ?_ <;> intros
  case refine_6 hservice => cases hservice <;> nofun
  all_goals nofun

/-- **What the signer is asked to sign is due.** -/
theorem ClientEvent.signing_due {e : SeamEvent} (hevent : ClientEvent X client op h e) {m : Bytes}
    (hsign : e.1 = .try_sign m) : ChallengeDue X op h m ∨ CallbackDue X h m := by
  revert hsign
  refine hevent.service_cases
    (P := fun h e => e.1 = .try_sign m → ChallengeDue X op h m ∨ CallbackDue X h m) ?_ ?_ ?_ ?_ ?_ ?_
  · nofun
  · nofun
  · nofun
  · rintro profile begin nonce h r hchallenged ⟨⟩
    exact Or.inl hchallenged.due
  · nofun
  · intro frame h e hservice hsign
    cases hservice with
    | try_sign r allowed =>
      cases hsign
      exact Or.inr allowed.due
    | _ => cases hsign

/-- A request that is due for a challenge is made for it. -/
theorem ClientEvent.challenged_of_due {m m' : Bytes} {r : Option Signature}
    (hevent : ClientEvent X client op h ⟨.try_sign m, r⟩) (hdue : ChallengeDue X op h m') :
    ∃ profile begin nonce, Challenged X client op profile begin nonce h ∧
      m = challenge_message nonce profile.did := by
  have hservice : ∀ {frame}, ¬ ServiceEvent X frame h ⟨.try_sign m, r⟩ := by
    intro frame hservice
    cases hservice with
    | try_sign r allowed =>
      obtain ⟨params, payload, ⟨h', -, rfl⟩, -⟩ := allowed
      obtain ⟨-, -, ⟨frame', ⟨h'', raw, heq, -⟩, -⟩, -, -⟩ := hdue
      cases last_eq heq
  cases hevent with
  | challenge challenged r => exact ⟨_, _, _, challenged, rfl⟩
  | next_service next event => exact absurd event hservice
  | await awaiting event =>
    cases event with
    | service event => exact absurd event hservice

/-- **Every frame sent is one of five, and two of them carry a signature.** -/
theorem ClientEvent.frame_due {e : SeamEvent} (hevent : ClientEvent X client op h e) {text : String}
    (hsend : e.1 = .send_frame text) : ∃ signature, FrameDue X op h text signature := by
  revert hsend
  refine hevent.service_cases
    (P := fun h e => e.1 = .send_frame text → ∃ signature, FrameDue X op h text signature)
    ?_ ?_ ?_ ?_ ?_ ?_
  · nofun
  · nofun
  · nofun
  · nofun
  · rintro id request h r hrequests ⟨⟩
    cases hrequests with
    | begin handshake pubkey_hex => exact ⟨none, .begin handshake rfl⟩
    | attach challenged signature =>
      obtain ⟨pubkey_hex, hends⟩ := challenged.begun
      exact ⟨some signature, .attach challenged.handshake hends.answered.2 challenged.decoded
        challenged.due rfl⟩
    | detach detaching => exact ⟨none, .detach detaching⟩
  · intro frame h e hservice hsend
    cases hservice with
    | @signed signature pubkey_hex h r signed =>
      cases hsend
      obtain ⟨m, h', hallowed, rfl⟩ := signed
      exact ⟨some signature, .success hallowed hallowed.due rfl⟩
    | refused r why =>
      cases hsend
      exact ⟨none, .refusal why⟩
    | _ => cases hsend

/-! ## One challenge to a handshake -/

/-- Right after the response there is nothing to await. -/
theorem Answered.no_await {α : Type} {decode : Json → Option α} {id : UInt64} {a : α}
    (hanswered : Answered X decode id a h) (e : SeamEvent) : ¬ AwaitEvent X h e := by
  have howed := hanswered.owed
  obtain ⟨frame, ⟨h', raw, rfl, -⟩, -, -⟩ := hanswered
  intro hawait
  cases hawait with
  | read r sent =>
    obtain ⟨h'', text, heq⟩ := sent
    cases last_eq heq
  | service event =>
    rw [owed_of_service event] at howed
    cases howed

/-- **The challenge of a call is due once**: not again after anything has
happened since. -/
theorem Challenged.not_due_before {profile : ProfileAttachment} {begin : BeginResult}
    {nonce m : Bytes} {h₀ : ClientHistory} {e : SeamEvent}
    (hchallenged : Challenged X client op profile begin nonce h)
    (hbefore : h₀ ++ [e] <+: h) : ¬ ChallengeDue X op h₀ m := by
  rintro ⟨-, ⟨asked, rfl⟩, hanswered, -, -⟩
  obtain ⟨pubkey_hex, hends⟩ := hchallenged.begun
  obtain ⟨tr, rfl, halong⟩ := hends.answered.1
  obtain ⟨rest, hrest⟩ := hbefore
  -- both requests are the third event of the call, so what follows them is the same
  rw [List.append_assoc, List.append_assoc] at hrest
  obtain ⟨hrequest, rfl⟩ := List.append_inj hrest (by simp)
  rw [Proc.along_iff] at halong
  have hawait := halong asked e rest rfl
  rw [← hrequest] at hawait
  exact hanswered.no_await e hawait

end Call

/-! ## Runs -/

/-- At its `i`-th label the client asks for the signature of a challenge. -/
def ChallengeAt (X : Crates) (ls : List ClientLabel) (i : ℕ) : Prop :=
  ∃ op h m r, ls[i]? = some (.event ⟨.try_sign m, r⟩) ∧
    in_progress some (ls.take i) = some (op, h) ∧ ChallengeDue X op h m

/-- **Custody of the signing key.** In every run of a client, whatever its
environment replies: the infallible `sign` is never called; what `try_sign` gets
is due, for the challenge of the handshake in progress or for a callback just
allowed; a frame carries no signature but the one just made for it; and between
two challenges that are signed a new call begins. -/
theorem signing_key_custody (X : Crates) {ls : List ClientLabel} {s : ClientState}
    (hrun : Machine.Run (ClientStep X) (.idle .new) ls s) :
    (∀ i e, ls[i]? = some (.event e) → ∃ op h, in_progress some (ls.take i) = some (op, h) ∧
      (∀ m, e.1 ≠ .sign m) ∧
      (∀ m, e.1 = .try_sign m → ChallengeDue X op h m ∨ CallbackDue X h m) ∧
      ∀ text, e.1 = .send_frame text → ∃ signature, FrameDue X op h text signature) ∧
    ∀ i j, i < j → ChallengeAt X ls i → ChallengeAt X ls j →
      ∃ k op, i < k ∧ k < j ∧ ls[k]? = some (.call op) := by
  constructor
  · intro i e hl
    obtain ⟨client, op, h, hcall, -, hevent⟩ := (has_client_self X).event hrun hl rfl
    exact ⟨op, h, hcall, hevent.not_sign, fun m => hevent.signing_due, fun text => hevent.frame_due⟩
  · rintro i j hij ⟨op, h, m, r, hi, hcall, hdue⟩ ⟨op', h', m', r', hj, hcall', hdue'⟩
    by_contra hnone
    push Not at hnone
    obtain ⟨h₁, hcall₁, hprefix⟩ := in_progress_back some (Nat.succ_le_of_lt hij)
      (fun k l op hk hkj hl hview => hnone k op hk hkj (by rw [hl]; exact hview)) hcall'
    have htake : ls.take (i + 1) = ls.take i ++ [.event ⟨.try_sign m, r⟩] := by
      rw [List.take_add_one, hi]
      rfl
    rw [htake, in_progress_snoc, hcall] at hcall₁
    cases hcall₁
    obtain ⟨client, op₂, h₂, hcall₂, -, hevent⟩ := (has_client_self X).event hrun hj rfl
    rw [hcall'] at hcall₂
    cases hcall₂
    obtain ⟨profile, begin, nonce, hchallenged, -⟩ := hevent.challenged_of_due hdue'
    exact hchallenged.not_due_before hprefix hdue

/-- A callback that the policy allows and the signer signs. -/
theorem signing_key_custody_callback :
    ∃ ls s i m signature op h, Machine.Run (ClientStep Reference.crates) (.idle .new) ls s ∧
      ls[i]? = some (.event ⟨.try_sign m, some signature⟩) ∧
      in_progress some (ls.take i) = some (op, h) ∧
      (ChallengeDue Reference.crates op h m ∨ CallbackDue Reference.crates h m) := by
  obtain ⟨m, hm⟩ : ∃ m, sign_callback_message "spend" [0, 1, 2] = some m :=
    ⟨_, sign_callback_message_eq_some.mpr ⟨by decide, rfl⟩⟩
  have hservice := performs_service_signed .new (callback_params_read 7 Reference.spend)
    (show Reference.crates.base64_decode "AAEC" = some [0, 1, 2] by decide) hm (Reference.sign m)
    (Reference.key.to_hex Reference.crates)
  have hnext := performs_handle_next
    (from_str_callback_frame Reference.faithful.json 7 Reference.spend trivial) rfl hservice
  have hprogram : Performs (ClientOp.handle_next_sign_callback.program Reference.crates) .new _
      (.ok (.decision .Allow)) .new := hnext.bind (performs_pure _)
  have hrun := run_call .start hprogram
  obtain ⟨op, h, hcall, -, hdue, -⟩ := (signing_key_custody Reference.crates hrun).1 3 _ rfl
  exact ⟨_, _, 3, m, Reference.sign m, op, h, hrun, rfl, hcall, hdue m rfl⟩

end DigIpc
