/-
Which callbacks get a reply.

A callback that was read is owed an answer (`tally`). From there, the events of
the call are the service of that callback until a reply goes out
(`served_trace`, by induction on what follows), unless the call ends before; and
`Ends.owed` says that a call which ends while it owes an answer had parameters it
could not decode, or was flooded. That leaves one kind of callback without a
reply: the one with undecodable parameters, which ends its call instead.
-/
import DigIpc.CallbackOutcome

set_option autoImplicit false

open Interaction Serde
open StdIo (Error ErrorKind)

namespace DigIpc

section Owed

variable {X : Crates} {client : SessionClient} {op : ClientOp} {frame : IncomingFrame}
  {h : ClientHistory}

/-! ## Ending with a callback owed an answer -/

/-- The call gave up on the callback `frame`. -/
def GaveUp (X : Crates) (frame : IncomingFrame) (h : ClientHistory) : Prop :=
  callback_params frame = none ∨ (tally X h).reads = MAX_INTERLEAVED_CALLBACKS + 1

theorem CallEnds.owed {α : Type} {decode : Json → Option α} {id : UInt64} {request : String}
    {h₀ : ClientHistory} {out : Except SessionError α}
    (hends : CallEnds X decode id request h₀ out h) (howed : (tally X h).owed = some frame) :
    GaveUp X frame h := by
  have hread : ∀ {h' : ClientHistory} {raw : String},
      (tally X (h' ++ [⟨.recv_frame, .ok raw⟩])).owed = callback_of X raw := by
    intro h' raw
    rw [tally_snoc]
    rfl
  cases hends with
  | unsent =>
    rw [tally_send_owed] at howed
    cases howed
  | awaited since ends =>
    cases ends with
    | @recv_io h' e =>
      -- a read failed, right after something was sent
      have hidle : (tally X h').owed = none := by
        rcases since.last with hsend | ⟨-, hawait⟩
        · cases last_eq hsend
        · cases hawait with
          | read r sent => exact sent.owed
          | service event => cases event
      rw [tally_snoc] at howed
      change (tally X h').owed = some frame at howed
      rw [hidle] at howed
      cases howed
    | send_io =>
      rw [tally_send_owed] at howed
      cases howed
    | unparsed parse =>
      rw [hread, callback_of, parse] at howed
      cases howed
    | undecodable parse sign params =>
      rw [hread, callback_of_eq_some.mpr ⟨parse, sign⟩] at howed
      exact Or.inl (Option.some.inj howed ▸ params)
    | flooded parse sign reads => exact Or.inr reads
    | response parse method =>
      rw [hread, callback_of_eq_none parse method] at howed
      cases howed

/-- **A call that ends while a callback is owed an answer gave up on it.** -/
theorem Ends.owed {out : Except SessionError ClientOut} (hends : Ends X client op out h)
    (howed : (tally X h).owed = some frame) : GaveUp X frame h := by
  have hidle : (tally X h).owed = none → GaveUp X frame h := by
    intro hnone
    rw [howed] at hnone
    cases hnone
  cases hends with
  | begin_failed handshake ends => exact ends.owed howed
  | bad_nonce handshake ends bad => exact ends.owed howed
  | locked challenged =>
    rw [tally_snoc] at howed
    exact absurd (howed.symm.trans challenged.owed) nofun
  | attach_failed challenged ends => exact ends.owed howed
  | attached challenged ends => exact ends.owed howed
  | detach_failed detaching ends => exact ends.owed howed
  | detached detaching ends => exact ends.owed howed
  | next_unread next => exact hidle rfl
  | @next_unparsed raw next parse =>
    refine hidle ?_
    show callback_of X raw = none
    rw [callback_of, parse]
    rfl
  | next_other next parse method => exact hidle (callback_of_eq_none parse method)
  | @next_served raw frame' out h next parse method served =>
    cases served with
    | undecodable params =>
      change callback_of X raw = some frame at howed
      rw [callback_of_eq_some.mpr ⟨parse, method⟩] at howed
      exact Or.inl (Option.some.inj howed ▸ params)
    | replied decoded replies accepted => exact hidle (tally_send_owed _ _ _)
    | io decoded replies failed => exact hidle (tally_send_owed _ _ _)

/-! ## From the callback to its reply -/

/-- Neither reads nor sends. -/
def Quiet (e : SeamEvent) : Prop := e.1 ≠ .recv_frame ∧ ∀ text, e.1 ≠ .send_frame text

/-- A reply is the text of a `CallbackReply`. -/
theorem signature_frame_text (signature : Signature) (pubkey_hex : String) :
    signature_frame X frame signature pubkey_hex
      = CallbackReply.text X (reply_id frame)
        (.success ⟨X.base64_encode signature.as_bytes, pubkey_hex⟩) := rfl

theorem refusal_frame_text (c : SignErrorCode) (message : String) :
    refusal_frame X frame c message
      = CallbackReply.text X (reply_id frame) (.error ⟨c.code, message⟩) := rfl

/-- **What follows a callback that a call does not give up on**: some asking, and
one reply. -/
theorem served_trace {out : Except SessionError ClientOut} (post : ClientHistory)
    (halong : Proc.Along (ClientEvent X client op) h post) (hends : Ends X client op out (h ++ post))
    (hsent : ∀ text r, (⟨.send_frame text, r⟩ : SeamEvent) ∈ post → r = .ok ())
    (howed : (tally X h).owed = some frame) (hserve : ¬ GaveUp X frame h) :
    ∃ asked reply rest, post = asked ++
        ⟨.send_frame (CallbackReply.text X (reply_id frame) reply), .ok ()⟩ :: rest ∧
      ∀ e ∈ asked, Quiet e := by
  induction post generalizing h with
  | nil =>
    rw [List.append_nil] at hends
    exact absurd (hends.owed howed) hserve
  | cons e post ih =>
    obtain ⟨hevent, hrest⟩ := halong
    -- an event that asks leaves the callback owed, one that sends is its reply
    have hasks : (tally X (h ++ [e])) = tally X h → Quiet e →
        ∃ asked reply rest, e :: post = asked ++
            ⟨.send_frame (CallbackReply.text X (reply_id frame) reply), .ok ()⟩ :: rest ∧
          ∀ e ∈ asked, Quiet e := by
      intro htally hquiet
      have hserve' : ¬ GaveUp X frame (h ++ [e]) := by
        unfold GaveUp
        rw [htally]
        exact hserve
      rw [List.append_cons] at hends
      obtain ⟨asked, reply, rest, rfl, hasked⟩ := ih hrest hends
        (fun text r hmem => hsent text r (List.mem_cons_of_mem e hmem))
        (by rw [htally]; exact howed) hserve'
      refine ⟨e :: asked, reply, rest, rfl, fun e' hmem => ?_⟩
      rcases List.mem_cons.mp hmem with rfl | hmem
      · exact hquiet
      · exact hasked e' hmem
    cases hevent.service_of_owed howed with
    | authorize verdict asked => exact hasks (tally_snoc h _) ⟨nofun, nofun⟩
    | try_sign r allowed => exact hasks (tally_snoc h _) ⟨nofun, nofun⟩
    | public_key r allowed => exact hasks (tally_snoc _ _) ⟨nofun, nofun⟩
    | signed r signed =>
      rw [hsent _ r List.mem_cons_self, signature_frame_text]
      exact ⟨[], _, post, rfl, nofun⟩
    | refused r why =>
      rw [hsent _ r List.mem_cons_self, refusal_frame_text]
      exact ⟨[], _, post, rfl, nofun⟩

/-- Right after a read, nothing is done but for a callback just read whose
parameters decode. -/
theorem ServiceEvent.of_read {e : SeamEvent} {r : Except Error String}
    (hservice : ServiceEvent X frame (h ++ [⟨.recv_frame, r⟩]) e) :
    Reads X (h ++ [⟨.recv_frame, r⟩]) frame ∧ (callback_params frame).isSome := by
  generalize hread : h ++ [(⟨.recv_frame, r⟩ : SeamEvent)] = h' at hservice ⊢
  have hasked : ∀ {params payload verdict}, ¬ Judged X frame params payload verdict h' := by
    rintro params payload verdict ⟨h₀, -, rfl⟩
    cases last_eq hread
  have hallowed : ∀ {m}, ¬ Allowed X frame m h' := fun ⟨_, _, judged, _⟩ => hasked judged
  cases hservice with
  | authorize verdict asked => exact ⟨asked.reads, by rw [asked.decoded, Option.isSome_some]⟩
  | try_sign r allowed => exact absurd allowed hallowed
  | public_key r allowed => cases last_eq hread
  | signed r signed =>
    obtain ⟨m, h₀, -, rfl⟩ := signed
    cases last_eq hread
  | refused r why =>
    cases why with
    | base64 reads method decoded payload => exact ⟨reads, by rw [decoded, Option.isSome_some]⟩
    | denied judged => exact absurd judged hasked
    | too_long judged message => exact absurd judged hasked
    | locked allowed => cases last_eq hread

/-- A call whose last event sent a frame ends only after it has serviced one
callback. -/
theorem Ends.after_send {out : Except SessionError ClientOut} (hends : Ends X client op out h)
    (hsent : AfterSend h) :
    op = .handle_next_sign_callback ∧ ∃ decision, out = .ok (.decision decision) := by
  obtain ⟨h', text, hlast⟩ := hsent
  have hcall : ∀ {α : Type} {decode : Json → Option α} {id : UInt64} {request : String}
      {h₀ : ClientHistory} {out' : Except SessionError α},
      ¬ CallEnds X decode id request h₀ out' h := by
    intro α decode id request h₀ out' hends'
    cases hends' with
    | unsent => cases last_eq hlast
    | awaited since ends => cases ends <;> cases last_eq hlast
  cases hends with
  | begin_failed handshake ends => exact absurd ends hcall
  | bad_nonce handshake ends bad => exact absurd ends hcall
  | locked challenged => cases last_eq hlast
  | attach_failed challenged ends => exact absurd ends hcall
  | attached challenged ends => exact absurd ends hcall
  | detach_failed detaching ends => exact absurd ends hcall
  | detached detaching ends => exact absurd ends hcall
  | @next_unread e next => cases last_eq (h := []) hlast
  | @next_unparsed raw next parse => cases last_eq (h := []) hlast
  | @next_other raw frame next parse method => cases last_eq (h := []) hlast
  | @next_served raw frame out h next parse method served =>
    cases served with
    | undecodable params => cases last_eq (h := []) hlast
    | @replied params h' reply decision decoded replies accepted => exact ⟨next, decision, rfl⟩
    | io decoded replies failed => cases last_eq hlast

/-- After it has sent a frame, a call reads the next one, and it is not the
service of a single callback. -/
theorem ClientEvent.after_send {e : SeamEvent} (hevent : ClientEvent X client op h e)
    (hsent : AfterSend h) : e.1 = .recv_frame ∧ op ≠ .handle_next_sign_callback := by
  have howed : (tally X h).owed = none := hsent.owed
  have hservice : ∀ {frame}, ¬ ServiceEvent X frame h e := by
    intro frame hservice
    rw [owed_of_service hservice] at howed
    cases howed
  obtain ⟨h', text, hlast⟩ := hsent
  cases hevent with
  | set_transport reattaching => simp at hlast
  | public_key handshake r =>
    cases op with
    | reattach profile => cases last_eq (h := []) hlast
    | begin_and_attach profile => simp [ClientOp.opening] at hlast
    | detach session => cases handshake
    | handle_next_sign_callback => cases handshake
  | challenge challenged r =>
    obtain ⟨pubkey_hex, hends⟩ := challenged.begun
    obtain ⟨-, frame, ⟨h'', raw, heq, -⟩, -, -⟩ := hends.answered
    rw [heq] at hlast
    cases last_eq hlast
  | request requests r =>
    cases requests with
    | begin handshake pubkey_hex => cases last_eq hlast
    | attach challenged signature => cases last_eq hlast
    | detach detaching => simp at hlast
  | next_read next r => simp at hlast
  | next_service next event => exact absurd event hservice
  | await awaiting event =>
    cases event with
    | service event => exact absurd event hservice
    | read r sent =>
      refine ⟨rfl, ?_⟩
      rintro rfl
      obtain ⟨h₀, hrequests, -⟩ := awaiting
      cases hrequests with
      | begin handshake pubkey_hex => cases handshake
      | attach challenged signature => cases challenged.handshake
      | detach detaching => cases detaching

end Owed

/-! ## Runs -/

/-- The callback `frame` got one reply, under its own id, before anything else
was read, and did its caller no harm: a client that services one callback
returns the decision, and a pending call reads on. -/
def AnsweredOnce (X : Crates) (op : ClientOp) (frame : IncomingFrame) (post : ClientHistory)
    (out : Except SessionError ClientOut) : Prop :=
  ∃ asked reply rest, post = asked ++
      ⟨.send_frame (CallbackReply.text X (reply_id frame) reply), .ok ()⟩ :: rest ∧
    (∀ e ∈ asked, Quiet e) ∧
    (op = .handle_next_sign_callback → rest = [] ∧ ∃ decision, out = .ok (.decision decision)) ∧
    (op ≠ .handle_next_sign_callback → ∃ r rest', rest = ⟨.recv_frame, r⟩ :: rest')

/-- **A callback is answered exactly when its parameters decode**, in every call,
wherever in it the callback is read (before 64 others since the request), when the
transport takes what is sent. -/
theorem callback_answered_iff {X : Crates} (env : Environment) (hsends : env.Accepts)
    (op : ClientOp) (client : SessionClient) (pre : ClientHistory) {post : ClientHistory}
    {raw : String} {frame : IncomingFrame}
    (htrace : (env.run (op.program X) client []).1 = pre ++ ⟨.recv_frame, .ok raw⟩ :: post)
    (hparse : IncomingFrame.from_str X raw = some frame) (hmethod : frame.method = some METHOD_SIGN)
    (hbudget : (tally X pre).reads < MAX_INTERLEAVED_CALLBACKS) :
    AnsweredOnce X op frame post (env.run (op.program X) client []).2.1 ↔
      (callback_params frame).isSome := by
  have hsent : ∀ text r, (⟨.send_frame text, r⟩ : SeamEvent) ∈ post → r = .ok () := by
    intro text r hmem
    obtain ⟨h', hr⟩ := env.mem_run (op.program X) client []
      (by rw [htrace]; exact List.mem_append_right pre (List.mem_cons_of_mem _ hmem))
    exact hr.trans (hsends h' text)
  obtain ⟨⟨tr, htr, halong⟩, hends⟩ := env.run_program X op client
  rw [htrace] at htr hends
  rw [List.nil_append] at htr
  subst htr
  rw [List.append_cons] at hends
  rw [List.append_cons, Proc.along_append, List.nil_append] at halong
  obtain ⟨-, halong⟩ := halong
  have htally : tally X (pre ++ [⟨.recv_frame, .ok raw⟩])
      = { tally X pre with owed := some frame, reads := (tally X pre).reads + 1 } := by
    rw [tally_snoc]
    show { tally X pre with owed := callback_of X raw, reads := (tally X pre).reads + 1 } = _
    rw [callback_of_eq_some.mpr ⟨hparse, hmethod⟩]
  have howed : (tally X (pre ++ [⟨.recv_frame, .ok raw⟩])).owed = some frame := by rw [htally]
  have hreads : (tally X (pre ++ [⟨.recv_frame, .ok raw⟩])).reads ≠ MAX_INTERLEAVED_CALLBACKS + 1 := by
    rw [htally]
    simp only
    omega
  generalize (env.run (op.program X) client []).2.1 = out at hends ⊢
  constructor
  · rintro ⟨asked, reply, rest, rfl, -, -, -⟩
    -- something was done for the callback, and nothing is without parameters
    obtain ⟨e, post, hpost⟩ : ∃ e post, asked ++ ⟨.send_frame (CallbackReply.text X (reply_id frame)
        reply), .ok ()⟩ :: rest = e :: post := by
      cases asked with
      | nil => exact ⟨_, _, rfl⟩
      | cons e asked => exact ⟨e, _, rfl⟩
    rw [hpost] at halong
    exact (halong.1.service_of_owed howed).of_read.2
  · intro hparams
    have hserve : ¬ GaveUp X frame (pre ++ [⟨.recv_frame, .ok raw⟩]) := by
      rintro (hnone | hfull)
      · rw [hnone] at hparams
        cases hparams
      · exact hreads hfull
    obtain ⟨asked, reply, rest, rfl, hasked⟩ := served_trace post halong hends hsent howed hserve
    -- what the call does next, right after the reply
    rw [List.append_cons asked, Proc.along_append] at halong
    rw [List.append_cons asked, ← List.append_assoc] at hends
    have hafter : AfterSend (pre ++ [⟨.recv_frame, .ok raw⟩] ++
        (asked ++ [⟨.send_frame (CallbackReply.text X (reply_id frame) reply), .ok ()⟩])) :=
      ⟨pre ++ [⟨.recv_frame, .ok raw⟩] ++ asked, _, (List.append_assoc _ _ _).symm⟩
    refine ⟨asked, reply, rest, rfl, hasked, ?_⟩
    cases rest with
    | nil =>
      rw [List.append_nil] at hends
      obtain ⟨hnext, decided⟩ := hends.after_send hafter
      exact ⟨fun _ => ⟨rfl, decided⟩, fun hcall => absurd hnext hcall⟩
    | cons e rest =>
      obtain ⟨e, r⟩ := e
      obtain ⟨hread, hcall⟩ := halong.2.1.after_send hafter
      cases hread
      exact ⟨fun hnext => absurd hnext hcall, fun _ => ⟨r, rest, rfl⟩⟩

/-- A callback whose parameters are `{}`. -/
def Reference.bare_callback : String :=
  request_frame crates 7 METHOD_SIGN (.object [])

/-- What is read of it. -/
def Reference.bare_callback_read : IncomingFrame :=
  { id := some (Value.of (ofU64 7)), method := some METHOD_SIGN,
    params := some (Value.of (.object [])), result := none, error := none }

/-- **Without parameters, there is no reply**: the client reads the callback,
sends nothing, and returns an error to its caller. -/
theorem callback_unanswered :
    IncomingFrame.from_str Reference.crates Reference.bare_callback
        = some Reference.bare_callback_read ∧
      Reference.bare_callback_read.method = some METHOD_SIGN ∧
      (Reference.delivering [Reference.bare_callback]).Accepts ∧
      (Reference.delivering [Reference.bare_callback]).run
          (ClientOp.handle_next_sign_callback.program Reference.crates) .new []
        = ([⟨.recv_frame, .ok Reference.bare_callback⟩], .error .Frame, .new) ∧
      ¬ AnsweredOnce Reference.crates .handle_next_sign_callback Reference.bare_callback_read []
        (.error .Frame) := by
  have hparse : IncomingFrame.from_str Reference.crates Reference.bare_callback
      = some Reference.bare_callback_read := by
    unfold Reference.bare_callback request_frame
    rw [RpcRequest.from_str Reference.faithful.json _ (by simp)]
    rfl
  have hparams : callback_params Reference.bare_callback_read = none := by decide
  have hnext := performs_handle_next hparse rfl (performs_service_undecodable .new hparams)
  have hprogram : Performs (ClientOp.handle_next_sign_callback.program Reference.crates) .new _
      (.error .Frame) .new := hnext.bind_error
  refine ⟨hparse, rfl, fun _ _ => rfl, ?_, ?_⟩
  · exact (Reference.delivering _).run_of_performs [] hprogram ⟨rfl, trivial⟩
  · rintro ⟨asked, reply, rest, hpost, -⟩
    cases asked <;> cases hpost

/-- A callback with parameters, and its reply. -/
theorem callback_answered_iff_signed :
    ∃ post out, (Reference.delivering [callback_frame Reference.crates 7 Reference.spend]).run
          (ClientOp.handle_next_sign_callback.program Reference.crates) .new []
        = (⟨.recv_frame, .ok (callback_frame Reference.crates 7 Reference.spend)⟩ :: post, out, .new) ∧
      (AnsweredOnce Reference.crates .handle_next_sign_callback (callback_read 7 Reference.spend)
          post out ↔
        (callback_params (callback_read 7 Reference.spend)).isSome) := by
  have hparse := from_str_callback_frame Reference.faithful.json 7 Reference.spend trivial
  obtain ⟨m, hm, hshort⟩ : ∃ m, sign_callback_message "spend" [0, 1, 2] = some m ∧
      m.length ≤ Reference.MAX_MESSAGE :=
    ⟨_, sign_callback_message_eq_some.mpr ⟨by decide, rfl⟩, by decide⟩
  have hservice := performs_service_signed .new (callback_params_read 7 Reference.spend)
    (show Reference.crates.base64_decode "AAEC" = some [0, 1, 2] by decide) hm (Reference.sign m)
    (Reference.key.to_hex Reference.crates)
  have hprogram : Performs (ClientOp.handle_next_sign_callback.program Reference.crates) .new _
      (.ok (.decision .Allow)) .new :=
    (performs_handle_next hparse rfl hservice).bind (performs_pure _)
  have hrun := (Reference.delivering [callback_frame Reference.crates 7 Reference.spend]).run_of_performs
    [] hprogram ⟨rfl, rfl, (if_pos hshort).symm, rfl, rfl, trivial⟩
  have hanswered := callback_answered_iff (X := Reference.crates)
    (Reference.delivering [callback_frame Reference.crates 7 Reference.spend])
    (fun _ _ => rfl) .handle_next_sign_callback .new [] (congrArg Prod.fst hrun) hparse rfl (by decide)
  rw [hrun] at hanswered
  exact ⟨_, _, hrun, hanswered⟩

end DigIpc
