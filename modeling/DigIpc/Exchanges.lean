/-
Requests and their responses, as the history of one call has them.

`exchanges` reads them off a history: the request that has no response yet, and
the requests that have, with theirs. A callback and the reply to it are neither.
A call has at most one request without a response, and in a history in which
nothing goes wrong (`Smooth`) it returns with none: `Ends.settled` says so, and
`Ends.handshake` what the one or two exchanges of a handshake have been and how
its outcome follows from them.
-/
import DigIpc.Correlation

set_option autoImplicit false

open Interaction Serde
open StdIo (Error)

namespace DigIpc

/-! ## The exchanges of a history -/

/-- The request that has no response yet, and the requests that have, each with
its response, oldest first. -/
structure Exchanges where
  pending : Option String
  settled : List (String × String)

section Record

variable (X : Crates)

/-- One event more. -/
def Exchanges.record (x : Exchanges) : SeamEvent → Exchanges
  | ⟨.send_frame text, .ok ()⟩ => if is_request X text then { x with pending := some text } else x
  | ⟨.recv_frame, .ok raw⟩ =>
    if (callback_of X raw).isSome then x
    else { pending := none,
           settled := x.settled ++ (x.pending.map fun request => (request, raw)).toList }
  | _ => x

/-- The exchanges of a history. -/
def exchanges (h : ClientHistory) : Exchanges := h.foldl (Exchanges.record X) ⟨none, []⟩

variable {X}

@[simp] theorem exchanges_nil : exchanges X [] = ⟨none, []⟩ := rfl

theorem exchanges_snoc (h : ClientHistory) (e : SeamEvent) :
    exchanges X (h ++ [e]) = (exchanges X h).record X e := List.foldl_concat _ _ _ _

theorem Exchanges.record_request (x : Exchanges) {text : String} (htext : is_request X text = true) :
    x.record X ⟨.send_frame text, .ok ()⟩ = ⟨some text, x.settled⟩ := by
  simp only [Exchanges.record, htext, if_true]

theorem Exchanges.record_reply (x : Exchanges) {text : String} (htext : is_request X text = false)
    (r : Except Error Unit) : x.record X ⟨.send_frame text, r⟩ = x := by
  cases r with
  | error e => rfl
  | ok _ => simp only [Exchanges.record, htext, Bool.false_eq_true, if_false]

theorem Exchanges.record_callback (x : Exchanges) {raw : String}
    (hraw : (callback_of X raw).isSome = true) : x.record X ⟨.recv_frame, .ok raw⟩ = x := by
  simp only [Exchanges.record, hraw, if_true]

/-- A response settles the request that is pending. -/
theorem Exchanges.record_response (x : Exchanges) {raw : String} (hraw : callback_of X raw = none) :
    x.record X ⟨.recv_frame, .ok raw⟩
      = ⟨none, x.settled ++ (x.pending.map fun request => (request, raw)).toList⟩ := by
  simp only [Exchanges.record, hraw, Option.isSome_none, Bool.false_eq_true, if_false]

theorem exchanges_try_sign (h : ClientHistory) (m : Bytes) (r : Option Signature) :
    exchanges X (h ++ [⟨.try_sign m, r⟩]) = exchanges X h := exchanges_snoc _ _

theorem exchanges_opening (op : ClientOp) : exchanges X op.opening = ⟨none, []⟩ := by
  cases op <;> rfl

end Record

/-! ## Histories in which nothing goes wrong -/

section Smooth

variable (X : Crates) (key : SigningPublicKey)

/-- A frame that a client can read: a response, or a callback whose parameters
are complete. -/
def Readable (raw : String) : Prop :=
  ∃ frame, IncomingFrame.from_str X raw = some frame ∧
    (frame.method = some METHOD_SIGN → (callback_params frame).isSome)

/-- The transport and the signer do what they are asked, and the signer holds
`key`. -/
def Smooth : SeamEvent → Prop
  | ⟨.send_frame _, r⟩ => r = .ok ()
  | ⟨.recv_frame, r⟩ => ∃ raw, r = .ok raw ∧ Readable X raw
  | ⟨.signing_public_key_hex, r⟩ => r = key.to_hex X
  | ⟨.try_sign m, r⟩ => ∃ signature, r = some signature ∧ verify_signature X key m signature = true
  | _ => True

/-- Not too many callbacks since the last request. -/
def Unflooded (h : ClientHistory) : Prop :=
  (tally X h).owed.isSome → (tally X h).reads ≤ MAX_INTERLEAVED_CALLBACKS

end Smooth

/-- How a smooth handshake can have gone: its outcome, and its exchanges. -/
inductive Handshake (X : Crates) (key : SigningPublicKey) (profile : ProfileAttachment)
    (id : UInt64) : Except SessionError ClientOut → List (String × String) → Prop
  | refused {raw : String} {e : SessionError}
      (response : outcome_of X BeginResult.decode id raw = .error e) :
      Handshake X key profile id (.error e) [(begin_frame X id profile (key.to_hex X), raw)]
  | bad_nonce {raw : String} {begin : BeginResult} {e : SessionError}
      (response : outcome_of X BeginResult.decode id raw = .ok begin) (bad : BadNonce X begin e) :
      Handshake X key profile id (.error e) [(begin_frame X id profile (key.to_hex X), raw)]
  | decided {raw raw' : String} {begin : BeginResult} {nonce : Bytes} {signature : Signature}
      (response : outcome_of X BeginResult.decode id raw = .ok begin)
      (decoded : X.base64_decode begin.nonce_b64 = some nonce)
      (signed : verify_signature X key (challenge_message nonce profile.did) signature = true) :
      Handshake X key profile id
        ((outcome_of X AttachResult.decode (id + 1) raw').map fun attach =>
          .session { session_id := attach.session_id,
                     engine_capabilities := attach.engine_capabilities,
                     profile_did := profile.did })
        [(begin_frame X id profile (key.to_hex X), raw),
          (attach_frame X (id + 1) begin signature profile, raw')]

section Exchange

variable {X : Crates}

/-- What the service of a callback sends is a reply. -/
theorem ServiceEvent.reply {frame : IncomingFrame} {h : ClientHistory} {text : String}
    {r : Except Error Unit} (hservice : ServiceEvent X frame h ⟨.send_frame text, r⟩) :
    ∃ reply, text = CallbackReply.text X (reply_id frame) reply := by
  cases hservice with
  | @signed signature pubkey_hex h r signed =>
    exact ⟨.success ⟨X.base64_encode signature.as_bytes, pubkey_hex⟩, rfl⟩
  | @refused c message decision h r why => exact ⟨.error ⟨c.code, message⟩, rfl⟩

/-- After a response nothing more is done for the call: nothing more is read, and
no callback is owed a reply. -/
theorem AwaitEvent.not_after_response {h : ClientHistory} {raw : String}
    (hraw : callback_of X raw = none) (e : SeamEvent) :
    ¬ AwaitEvent X (h ++ [⟨.recv_frame, .ok raw⟩]) e := by
  intro hevent
  have howed : (tally X (h ++ [⟨.recv_frame, .ok raw⟩])).owed = none := by
    rw [tally_snoc]
    exact hraw
  cases hevent with
  | read r sent =>
    obtain ⟨h', text, heq⟩ := sent
    simp at heq
  | service event =>
    rw [owed_of_service event] at howed
    cases howed

variable (hX : X.json.Faithful)

include hX

/-- **While a response is awaited** the request stays pending, until the first
frame that is not a callback settles it; nothing comes after that one. -/
theorem exchanges_await {h₀ h : ClientHistory} {request : String} {s : List (String × String)}
    (hrequest : is_request X request = true) (hbefore : exchanges X h₀ = ⟨none, s⟩)
    (hsince : Proc.Since (AwaitEvent X) (h₀ ++ [⟨.send_frame request, .ok ()⟩]) h) :
    exchanges X h = ⟨some request, s⟩ ∨
      ∃ h₁ raw, h = h₁ ++ [⟨.recv_frame, .ok raw⟩] ∧ callback_of X raw = none ∧
        exchanges X h = ⟨none, s ++ [(request, raw)]⟩ := by
  refine hsince.induction (I := fun h => exchanges X h = ⟨some request, s⟩ ∨
    ∃ h₁ raw, h = h₁ ++ [⟨.recv_frame, .ok raw⟩] ∧ callback_of X raw = none ∧
      exchanges X h = ⟨none, s ++ [(request, raw)]⟩) ?_ ?_
  · left
    rw [exchanges_snoc, hbefore, Exchanges.record_request _ hrequest]
  · intro h' e _ ih hevent
    -- after the response nothing more is read, and no callback is owed a reply
    have hpending : exchanges X h' = ⟨some request, s⟩ := by
      rcases ih with hpending | ⟨h₁, raw, rfl, hraw, -⟩
      · exact hpending
      · exact absurd hevent (AwaitEvent.not_after_response hraw e)
    rw [exchanges_snoc, hpending]
    cases hevent with
    | read r sent =>
      cases r with
      | error e => exact Or.inl rfl
      | ok raw =>
        by_cases hraw : (callback_of X raw).isSome = true
        · left
          exact Exchanges.record_callback _ hraw
        · right
          have hnone : callback_of X raw = none := by simpa using hraw
          refine ⟨h', raw, rfl, hnone, ?_⟩
          rw [Exchanges.record_response _ hnone]
          rfl
    | service event =>
      left
      obtain ⟨e, r⟩ := e
      cases e with
      | send_frame text =>
        obtain ⟨reply, rfl⟩ := event.reply
        exact Exchanges.record_reply _ (is_request_reply hX _ reply) r
      | recv_frame => cases event
      | _ => rfl

/-- **A call that goes smoothly takes its outcome from the response to its own
request**, which is the last thing it reads. -/
theorem CallEnds.settled {key : SigningPublicKey} {α : Type} {decode : Json → Option α} {id : UInt64}
    {request : String} {h₀ h : ClientHistory} {out : Except SessionError α}
    {s : List (String × String)} (hends : CallEnds X decode id request h₀ out h)
    (hrequest : is_request X request = true) (hbefore : exchanges X h₀ = ⟨none, s⟩)
    (hsmooth : ∀ e ∈ h, Smooth X key e) (hfew : Unflooded X h) :
    ∃ raw, exchanges X h = ⟨none, s ++ [(request, raw)]⟩ ∧ outcome_of X decode id raw = out := by
  have hreadable : ∀ {h' : ClientHistory} {raw : String}, h = h' ++ [⟨.recv_frame, .ok raw⟩] →
      Readable X raw := by
    rintro h' raw rfl
    obtain ⟨raw', hraw, hreadable⟩ := hsmooth ⟨.recv_frame, .ok raw⟩ (by simp)
    rwa [Except.ok.inj hraw]
  have howed : ∀ {h' : ClientHistory} {raw : String},
      (tally X (h' ++ [⟨.recv_frame, .ok raw⟩])).owed = callback_of X raw := by
    intro h' raw
    rw [tally_snoc]
    rfl
  cases hends with
  | @unsent e => exact nomatch hsmooth ⟨.send_frame request, .error e⟩ (by simp)
  | awaited since ends =>
    -- each other way to end needs an event that a smooth call does not have
    have hawait := exchanges_await hX hrequest hbefore since
    cases ends with
    | @recv_io h' e =>
      obtain ⟨raw, hraw, -⟩ := hsmooth ⟨.recv_frame, .error e⟩ (by simp)
      cases hraw
    | @send_io h' text e => exact nomatch hsmooth ⟨.send_frame text, .error e⟩ (by simp)
    | unparsed parse =>
      obtain ⟨frame, hparse, -⟩ := hreadable rfl
      rw [parse] at hparse
      cases hparse
    | undecodable parse sign params =>
      obtain ⟨frame, hparse, hparams⟩ := hreadable rfl
      rw [parse] at hparse
      obtain rfl := Option.some.inj hparse
      have hsome := hparams sign
      rw [params] at hsome
      cases hsome
    | flooded parse sign reads =>
      unfold Unflooded at hfew
      rw [howed, callback_of_eq_some.mpr ⟨parse, sign⟩, reads] at hfew
      exact absurd (hfew rfl) (by omega)
    | @response h' raw frame parse method =>
      have hnone := callback_of_eq_none parse method
      rcases hawait with hpending | ⟨h₁, raw', heq, -, hsettled⟩
      · rw [exchanges_snoc, Exchanges.record_response _ hnone] at hpending
        cases hpending
      · cases last_eq heq
        exact ⟨raw, hsettled, outcome_of_parsed X decode id parse⟩

/-! ## The exchanges of a call -/

variable {key : SigningPublicKey} {client : SessionClient} {op : ClientOp}

/-- The first exchange of a handshake; the key on the wire is the signer's. -/
theorem begin_settled {profile : ProfileAttachment} {pubkey_hex : String}
    {res : Except SessionError BeginResult} {h : ClientHistory}
    (hends : CallEnds X BeginResult.decode (op.first_id client)
      (begin_frame X (op.first_id client) profile pubkey_hex)
      (op.opening ++ [⟨.signing_public_key_hex, pubkey_hex⟩]) res h)
    (hsmooth : ∀ e ∈ h, Smooth X key e) (hfew : Unflooded X h) :
    ∃ raw, exchanges X h
        = ⟨none, [(begin_frame X (op.first_id client) profile (key.to_hex X), raw)]⟩ ∧
      outcome_of X BeginResult.decode (op.first_id client) raw = res := by
  have hkey : pubkey_hex = key.to_hex X :=
    hsmooth ⟨.signing_public_key_hex, pubkey_hex⟩ (hends.grows.subset (by simp))
  rw [hkey] at hends
  refine hends.settled (s := []) hX (is_request_frame hX _ _ (BeginParams.plain _)) ?_ hsmooth hfew
  rw [exchanges_snoc, exchanges_opening]
  rfl

theorem Challenged.settled {profile : ProfileAttachment} {begin : BeginResult} {nonce : Bytes}
    {h : ClientHistory} (hchallenged : Challenged X client op profile begin nonce h)
    (hsmooth : ∀ e ∈ h, Smooth X key e) :
    ∃ raw, exchanges X h
        = ⟨none, [(begin_frame X (op.first_id client) profile (key.to_hex X), raw)]⟩ ∧
      outcome_of X BeginResult.decode (op.first_id client) raw = .ok begin := by
  obtain ⟨pubkey_hex, hends⟩ := hchallenged.begun
  refine begin_settled hX hends hsmooth ?_
  intro howed
  rw [hends.answered.2.owed] at howed
  cases howed

/-- A request is sent when none is pending. -/
theorem Requests.settled {id : UInt64} {request : String} {h : ClientHistory}
    (hrequests : Requests X client op id request h) (hsmooth : ∀ e ∈ h, Smooth X key e) :
    is_request X request = true ∧ ∃ s, exchanges X h = ⟨none, s⟩ := by
  refine ⟨hrequests.asks hX, ?_⟩
  cases hrequests with
  | begin handshake pubkey_hex =>
    refine ⟨[], ?_⟩
    rw [exchanges_snoc, exchanges_opening]
    rfl
  | attach challenged signature =>
    have hbefore : ∀ e ∈ _, Smooth X key e := fun e he => hsmooth e (List.mem_append_left _ he)
    obtain ⟨raw, hsettled, -⟩ := challenged.settled hX hbefore
    exact ⟨_, (exchanges_try_sign _ _ _).trans hsettled⟩
  | detach detaching => exact ⟨[], rfl⟩

/-- **What is pending is what the call awaits**, at every moment of a smooth call. -/
theorem pending_awaiting (hop : op ≠ .handle_next_sign_callback) {h : ClientHistory}
    (hsince : Proc.Since (ClientEvent X client op) [] h) (hsmooth : ∀ e ∈ h, Smooth X key e) :
    (exchanges X h).pending = none ∨ ∃ id request h₀, Requests X client op id request h₀ ∧
      h₀ <+: h ∧ exchanges X h = ⟨some request, (exchanges X h₀).settled⟩ := by
  rcases List.eq_nil_or_concat h with rfl | ⟨h', e, rfl⟩
  · exact Or.inl rfl
  rw [List.concat_eq_append] at hsince hsmooth ⊢
  have hbefore : ∀ e ∈ h', Smooth X key e := fun e he => hsmooth e (List.mem_append_left _ he)
  rcases hsince.last with hnil | ⟨-, hevent⟩
  · simp at hnil
  cases hevent with
  | set_transport reattaching => exact Or.inl rfl
  | public_key handshake r =>
    left
    rw [exchanges_snoc, exchanges_opening]
    rfl
  | challenge challenged r =>
    left
    obtain ⟨raw, hsettled, -⟩ := challenged.settled hX hbefore
    rw [exchanges_try_sign, hsettled]
  | @request id request h' requests r =>
    right
    obtain ⟨hrequest, s, hs⟩ := requests.settled hX hbefore
    obtain rfl : r = .ok () := hsmooth ⟨.send_frame request, r⟩ (by simp)
    refine ⟨id, request, h', requests, List.prefix_append _ _, ?_⟩
    rw [exchanges_snoc, Exchanges.record_request _ hrequest]
  | @await id request h' e awaiting event =>
    obtain ⟨h₀, hrequests, hawait⟩ := awaiting
    -- between its request and its response, or right after the response
    have hgrows : h₀ <+: h' ++ [e] := by
      obtain ⟨tr, rfl, -⟩ := hawait
      simp [List.append_assoc]
    have hearlier : ∀ e ∈ h₀, Smooth X key e := fun e he => hsmooth e (hgrows.subset he)
    obtain ⟨hrequest, s, hs⟩ := hrequests.settled hX hearlier
    rcases exchanges_await hX hrequest hs (hawait.snoc event) with hpending | ⟨_, _, -, -, hsettled⟩
    · exact Or.inr ⟨id, request, h₀, hrequests, hgrows, by rw [hpending, hs]⟩
    · left
      rw [hsettled]
  | next_read next r => exact absurd next hop
  | next_service next event => exact absurd next hop

/-- **A smooth call returns with nothing pending.** -/
theorem Ends.settled (hop : op ≠ .handle_next_sign_callback) {h : ClientHistory}
    {out : Except SessionError ClientOut} (hends : Ends X client op out h)
    (hsmooth : ∀ e ∈ h, Smooth X key e) (hfew : Unflooded X h) :
    (exchanges X h).pending = none := by
  have hcall : ∀ {α : Type} {decode : Json → Option α} {id : UInt64} {request : String}
      {h₀ : ClientHistory} {res : Except SessionError α}, Requests X client op id request h₀ →
      CallEnds X decode id request h₀ res h → (exchanges X h).pending = none := by
    intro α decode id request h₀ res hrequests hcall
    have hearlier : ∀ e ∈ h₀, Smooth X key e := fun e he => hsmooth e (hcall.grows.subset he)
    obtain ⟨hrequest, s, hs⟩ := hrequests.settled hX hearlier
    obtain ⟨raw, hsettled, -⟩ := hcall.settled hX hrequest hs hsmooth hfew
    rw [hsettled]
  cases hends with
  | begin_failed handshake ends => exact hcall (.begin handshake _) ends
  | bad_nonce handshake ends bad => exact hcall (.begin handshake _) ends
  | @locked profile begin nonce h' challenged =>
    obtain ⟨signature, hnone, -⟩ :=
      hsmooth ⟨.try_sign (challenge_message nonce profile.did), none⟩ (by simp)
    cases hnone
  | attach_failed challenged ends => exact hcall (.attach challenged _) ends
  | attached challenged ends => exact hcall (.attach challenged _) ends
  | detach_failed detaching ends => exact hcall (.detach detaching) ends
  | detached detaching ends => exact hcall (.detach detaching) ends
  | next_unread next => exact absurd next hop
  | next_unparsed next parse => exact absurd next hop
  | next_other next parse method => exact absurd next hop
  | next_served next parse method served => exact absurd next hop

/-- The second exchange, after the challenge has been signed. -/
theorem Challenged.decided {profile : ProfileAttachment} {begin : BeginResult} {nonce : Bytes}
    {signature : Signature} {h₀ h : ClientHistory} {res : Except SessionError AttachResult}
    (hchallenged : Challenged X client op profile begin nonce h₀)
    (hends : CallEnds X AttachResult.decode (op.first_id client + 1)
      (attach_frame X (op.first_id client + 1) begin signature profile)
      (h₀ ++ [⟨.try_sign (challenge_message nonce profile.did), some signature⟩]) res h)
    (hsmooth : ∀ e ∈ h, Smooth X key e) (hfew : Unflooded X h) :
    Handshake X key profile (op.first_id client)
      (res.map fun attach => .session { session_id := attach.session_id,
                                        engine_capabilities := attach.engine_capabilities,
                                        profile_did := profile.did })
      (exchanges X h).settled := by
  have hbefore : ∀ e ∈ h₀, Smooth X key e := fun e he =>
    hsmooth e (hends.grows.subset (List.mem_append_left _ he))
  obtain ⟨raw, hsettled, hresponse⟩ := hchallenged.settled hX hbefore
  obtain ⟨raw', hsettled', hresponse'⟩ := hends.settled hX
    (is_request_frame hX _ _ (AttachParams.plain _)) ((exchanges_try_sign _ _ _).trans hsettled) hsmooth hfew
  obtain ⟨signature', hsome, hverify⟩ := hsmooth
    ⟨.try_sign (challenge_message nonce profile.did), some signature⟩ (hends.grows.subset (by simp))
  obtain rfl := Option.some.inj hsome
  rw [hsettled', ← hresponse']
  exact .decided hresponse hchallenged.decoded hverify

/-- **How a smooth handshake returns** follows from its responses. -/
theorem Ends.handshake {profile : ProfileAttachment} (hprofile : op.profile = some profile)
    {h : ClientHistory} {out : Except SessionError ClientOut} (hends : Ends X client op out h)
    (hsmooth : ∀ e ∈ h, Smooth X key e) (hfew : Unflooded X h) :
    Handshake X key profile (op.first_id client) out (exchanges X h).settled := by
  have hnext : op ≠ .handle_next_sign_callback := by
    rintro rfl
    cases hprofile
  have hsame : ∀ {profile' : ProfileAttachment}, op.profile = some profile' → profile' = profile :=
    fun hhandshake => Option.some.inj (hhandshake.symm.trans hprofile)
  cases hends with
  | begin_failed handshake ends =>
    obtain rfl := hsame handshake
    obtain ⟨raw, hsettled, hresponse⟩ := begin_settled hX ends hsmooth hfew
    rw [hsettled]
    exact .refused hresponse
  | bad_nonce handshake ends bad =>
    obtain rfl := hsame handshake
    obtain ⟨raw, hsettled, hresponse⟩ := begin_settled hX ends hsmooth hfew
    rw [hsettled]
    exact .bad_nonce hresponse bad
  | @locked profile' begin nonce h' challenged =>
    -- the signer is unlocked
    obtain ⟨signature, hnone, -⟩ :=
      hsmooth ⟨.try_sign (challenge_message nonce profile'.did), none⟩ (by simp)
    cases hnone
  | attach_failed challenged ends =>
    obtain rfl := hsame challenged.handshake
    exact challenged.decided hX ends hsmooth hfew
  | attached challenged ends =>
    obtain rfl := hsame challenged.handshake
    exact challenged.decided hX ends hsmooth hfew
  | detach_failed detaching ends =>
    rw [detaching] at hprofile
    cases hprofile
  | detached detaching ends =>
    rw [detaching] at hprofile
    cases hprofile
  | next_unread next => exact absurd next hnext
  | next_unparsed next parse => exact absurd next hnext
  | next_other next parse method => exact absurd next hnext
  | next_served next parse method served => exact absurd next hnext

/-- **How a smooth `detach` returns** follows from its response. -/
theorem Ends.detach {session : Session} (hdetaching : op = .detach session) {h : ClientHistory}
    {out : Except SessionError ClientOut} (hends : Ends X client op out h)
    (hsmooth : ∀ e ∈ h, Smooth X key e) (hfew : Unflooded X h) :
    ∃ raw, (exchanges X h).settled = [(detach_frame X client.next_id session, raw)] ∧
      out = (outcome_of X DetachResult.decode client.next_id raw).map fun _ => .detached := by
  have hhandshake : ∀ profile, op.profile ≠ some profile := by
    rw [hdetaching]
    exact nofun
  have hnext : op ≠ .handle_next_sign_callback := by
    rw [hdetaching]
    exact nofun
  -- both ways for a `detach` to end have one exchange
  have hcall : ∀ {session' : Session} {res : Except SessionError DetachResult},
      op = .detach session' →
      CallEnds X DetachResult.decode client.next_id (detach_frame X client.next_id session') [] res h →
      ∃ raw, (exchanges X h).settled = [(detach_frame X client.next_id session, raw)] ∧
        outcome_of X DetachResult.decode client.next_id raw = res := by
    intro session' res hdetaching' hcall
    rw [hdetaching] at hdetaching'
    obtain rfl := ClientOp.detach.inj hdetaching'
    obtain ⟨raw, hsettled, hresponse⟩ := hcall.settled (s := []) hX
      (is_request_frame hX _ _ (DetachParams.plain _)) rfl hsmooth hfew
    exact ⟨raw, by rw [hsettled]; rfl, hresponse⟩
  cases hends with
  | detach_failed detaching ends =>
    obtain ⟨raw, hsettled, hresponse⟩ := hcall detaching ends
    exact ⟨raw, hsettled, by rw [hresponse]; rfl⟩
  | detached detaching ends =>
    obtain ⟨raw, hsettled, hresponse⟩ := hcall detaching ends
    exact ⟨raw, hsettled, by rw [hresponse]; rfl⟩
  | begin_failed handshake ends => exact absurd handshake (hhandshake _)
  | bad_nonce handshake ends bad => exact absurd handshake (hhandshake _)
  | locked challenged => exact absurd challenged.handshake (hhandshake _)
  | attach_failed challenged ends => exact absurd challenged.handshake (hhandshake _)
  | attached challenged ends => exact absurd challenged.handshake (hhandshake _)
  | next_unread next => exact absurd next hnext
  | next_unparsed next parse => exact absurd next hnext
  | next_other next parse method => exact absurd next hnext
  | next_served next parse method served => exact absurd next hnext

end Exchange

end DigIpc
