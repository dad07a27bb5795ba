/-
Responses and their requests, over whole runs of a client and all its connections.

The engine may answer a request whenever it likes, also long after the call that
made it has given up, and the client keeps no record of what is still to come. So
each frame in a pipe is tagged here with the place in the log at which the
request it answers was sent, a tag the client does not see. The invariant is
`Wire.Sound`: a frame carries the id of the request it answers, the requests of a
connection are numbered from 1 in the order they were sent, and the client's own
counter agrees. Until the numbers wrap, an id belongs to one request, so a frame
with the id a call awaits answers the request of that call.
-/
import DigIpc.ClientCustody
import DigIpc.ReadLoop

set_option autoImplicit false

open Interaction Serde
open StdIo (Error)

namespace DigIpc

/-! ## The wire -/

/-- What is seen: a step of the client, and the place of the request that the
frame it read answers; or a frame of the engine, on connection `c`, with the
place of the request it answers. -/
inductive WireLabel
  | client (cl : ClientLabel) (source : Option ℕ)
  | engine (c : ℕ) (source : Option ℕ) (text : String)

namespace WireLabel

/-- The part of a client. -/
def client_label : WireLabel → Option ClientLabel
  | client cl _ => some cl
  | engine _ _ _ => none

theorem client_label_eq_some {l : WireLabel} {cl : ClientLabel} (hview : l.client_label = some cl) :
    ∃ source, l = .client cl source := by
  cases l with
  | client cl' source =>
    cases hview
    exact ⟨source, rfl⟩
  | engine c source text => cases hview

/-- Whether a fresh transport is swapped in. -/
def reconnects : WireLabel → Bool
  | client (.event ⟨.set_transport, _⟩) _ => true
  | _ => false

end WireLabel

/-- The connection that the client is on after a log. -/
def connection (ls : List WireLabel) : ℕ := ls.countP WireLabel.reconnects

section Frames

variable (X : Crates)

/-- The text of a request. -/
def is_request (text : String) : Bool :=
  (IncomingFrame.from_str X text).any fun frame => frame.method.isSome

/-- `text` answers `request`: if it is a response at all, it is under the id of
that request. -/
def RespondsTo (request text : String) : Prop :=
  ∀ frame id, IncomingFrame.from_str X text = some frame → frame.method ≠ some METHOD_SIGN →
    frame.id_u64 = some id → ∃ asked, IncomingFrame.from_str X request = some asked ∧
      asked.method.isSome ∧ asked.id_u64 = some id

/-- `text` is a callback, or no frame, or has no id that a request could have. -/
def NoResponse (text : String) : Prop :=
  ∀ frame, IncomingFrame.from_str X text = some frame → frame.method ≠ some METHOD_SIGN →
    frame.id_u64 = none

/-- How many requests have been sent on the connection that the client is on. -/
def asked (ls : List WireLabel) : ℕ :=
  ls.foldl (fun n l => match l with
    | .client (.event ⟨.set_transport, _⟩) _ => 0
    | .client (.event ⟨.send_frame text, _⟩) _ => if is_request X text then n + 1 else n
    | _ => n) 0

end Frames

/-- `request` was sent at place `i`. Whether the transport said so or not, it may
have reached the engine. -/
def SentAt (ls : List WireLabel) (i : ℕ) (request : String) : Prop :=
  ∃ r source, ls[i]? = some (.client (.event ⟨.send_frame request, r⟩) source)

/-- The client, the log, and the frames that have not been read yet, on every
connection there has been. -/
structure Wire where
  client : ClientState
  log : List WireLabel
  pipes : ℕ → List (Option ℕ × String)

namespace Wire

def start : Wire := { client := .idle .new, log := [], pipes := fun _ => [] }

/-- A frame goes into a pipe. -/
def deliver (s : Wire) (c : ℕ) (source : Option ℕ) (text : String) : Wire :=
  { s with
    log := s.log ++ [.engine c source text],
    pipes := Function.update s.pipes c (s.pipes c ++ [(source, text)]) }

/-- A step of the client that leaves `rest` in its pipe. -/
def advance (s : Wire) (cl : ClientLabel) (source : Option ℕ) (client : ClientState)
    (rest : List (Option ℕ × String)) : Wire :=
  { client, log := s.log ++ [.client cl source],
    pipes := Function.update s.pipes (connection s.log) rest }

end Wire

/-- One step. The engine answers any request at any time, on the connection it
came in on, and sends anything else that is not a response. The client reads the
frames of its connection in order; a read that fails may lose some. -/
inductive WireStep (X : Crates) : Wire → WireLabel → Wire → Prop
  | answer {s : Wire} {i : ℕ} {request text : String} (sent : SentAt s.log i request)
      (own : RespondsTo X request text) :
      WireStep X s (.engine (connection (s.log.take i)) (some i) text)
        (s.deliver (connection (s.log.take i)) (some i) text)
  | other {s : Wire} (c : ℕ) {text : String} (unasked : NoResponse X text) :
      WireStep X s (.engine c none text) (s.deliver c none text)
  | read {s : Wire} {source : Option ℕ} {raw : String} {rest : List (Option ℕ × String)}
      {client : ClientState} (next : s.pipes (connection s.log) = (source, raw) :: rest)
      (step : ClientStep X s.client (.event ⟨.recv_frame, .ok raw⟩) client) :
      WireStep X s (.client (.event ⟨.recv_frame, .ok raw⟩) source)
        (s.advance (.event ⟨.recv_frame, .ok raw⟩) source client rest)
  | unread {s : Wire} {e : Error} {rest : List (Option ℕ × String)} {client : ClientState}
      (lost : rest <:+ s.pipes (connection s.log))
      (step : ClientStep X s.client (.event ⟨.recv_frame, .error e⟩) client) :
      WireStep X s (.client (.event ⟨.recv_frame, .error e⟩) none)
        (s.advance (.event ⟨.recv_frame, .error e⟩) none client rest)
  | act {s : Wire} {cl : ClientLabel} {client : ClientState}
      (quiet : ∀ r, cl ≠ .event ⟨.recv_frame, r⟩) (step : ClientStep X s.client cl client) :
      WireStep X s (.client cl none)
        (s.advance cl none client (s.pipes (connection s.log)))

theorem wire_has_client (X : Crates) :
    HasClient X (WireStep X) .start WireLabel.client_label Wire.client where
  start := rfl
  still := by
    intro s l s' hstep hview
    cases hstep with
    | answer sent own => rfl
    | other c unasked => rfl
    | _ => cases hview
  moves := by
    intro s l s' cl hstep hview
    cases hstep with
    | answer sent own => cases hview
    | other c unasked => cases hview
    | read next step => cases hview; exact step
    | unread lost step => cases hview; exact step
    | act quiet step => cases hview; exact step

/-! ## The text of what a client sends -/

section Texts

variable {X : Crates} (hX : X.json.Faithful)

include hX

theorem from_str_request_frame (id : UInt64) (method : String) {params : Json}
    (hparams : params.Plain 126) :
    IncomingFrame.from_str X (request_frame X id method params) = some
      { id := some (Value.of (ofU64 id)), method := some method,
        params := nullable (Value.of params), result := none, error := none } := by
  exact RpcRequest.from_str hX _ hparams

/-- A reply has no method. -/
theorem reply_method {text : String} {frame : IncomingFrame} {id : Value} {reply : CallbackReply}
    (htext : text = CallbackReply.text X id reply)
    (hparse : IncomingFrame.from_str X text = some frame) : frame.method = none := by
  rw [htext] at hparse
  cases reply with
  | success result => exact (RpcResult.from_str hX hparse).1
  | error e => exact (RpcErrorReply.from_str hX hparse).1

theorem is_request_reply (id : Value) (reply : CallbackReply) :
    is_request X (CallbackReply.text X id reply) = false := by
  unfold is_request
  cases hparse : IncomingFrame.from_str X (CallbackReply.text X id reply) with
  | none => rfl
  | some frame =>
    rw [Option.any_some, reply_method hX rfl hparse]
    rfl

end Texts

/-- Nothing is requested while a response is awaited. -/
theorem requests_of_since {X : Crates} {h h' : ClientHistory}
    (hsince : Proc.Since (AwaitEvent X) h h') :
    (tally X h').requests = (tally X h).requests := by
  refine hsince.induction (I := fun h₁ => (tally X h₁).requests = (tally X h).requests) rfl
    fun h₁ e _ ih hevent => ?_
  rw [← ih]
  cases hevent with
  | read r sent =>
    rw [tally_snoc]
    cases r <;> rfl
  | service event => exact tally_service_requests event

/-- A challenge is the matter of the second request of its call. -/
theorem Challenged.requests {X : Crates} {client : SessionClient} {op : ClientOp}
    {profile : ProfileAttachment} {begin : BeginResult} {nonce : Bytes} {h : ClientHistory}
    (hchallenged : Challenged X client op profile begin nonce h) : (tally X h).requests = 1 := by
  obtain ⟨pubkey_hex, hends⟩ := hchallenged.begun
  have hopening : tally X (op.opening ++ [⟨.signing_public_key_hex, pubkey_hex⟩]) = ⟨none, 0, 0⟩ := by
    rw [tally_snoc, op.tally_opening]
    rfl
  rw [requests_of_since hends.answered.1, tally_snoc, Tally.count_send_of_none (by rw [hopening]),
    hopening]

/-- The request of a call, and its id. -/
theorem Requests.text {X : Crates} {client : SessionClient} {op : ClientOp} {id : UInt64}
    {request : String} {h : ClientHistory} (hrequests : Requests X client op id request h) :
    ∃ method params, request = request_frame X id method params ∧ params.Plain 126 ∧
      id = op.first_id client + UInt64.ofNat (tally X h).requests := by
  cases hrequests with
  | begin handshake pubkey_hex =>
    refine ⟨_, _, rfl, BeginParams.plain _, ?_⟩
    rw [tally_snoc, op.tally_opening]
    exact (UInt64.add_zero _).symm
  | attach challenged signature =>
    refine ⟨_, _, rfl, AttachParams.plain _, ?_⟩
    have hone := challenged.requests
    rw [tally_snoc]
    show _ = _ + UInt64.ofNat (tally X _).requests
    rw [hone]
    rfl
  | detach detaching =>
    refine ⟨_, _, rfl, DetachParams.plain _, ?_⟩
    rw [detaching]
    exact (UInt64.add_zero _).symm

/-! ## The invariant -/

section Invariant

variable {X : Crates}

theorem connection_snoc (ls : List WireLabel) (l : WireLabel) :
    connection (ls ++ [l]) = connection ls + if l.reconnects then 1 else 0 := by
  unfold connection
  rw [List.countP_append, List.countP_singleton]

theorem asked_snoc (ls : List WireLabel) (l : WireLabel) :
    asked X (ls ++ [l]) = match l with
      | .client (.event ⟨.set_transport, _⟩) _ => 0
      | .client (.event ⟨.send_frame text, _⟩) _ =>
        if is_request X text then asked X ls + 1 else asked X ls
      | _ => asked X ls := List.foldl_concat _ _ _ _

/-- Neither a request nor a fresh transport. -/
def Idle (X : Crates) (cl : ClientLabel) : Prop :=
  (∀ r, cl ≠ .event ⟨.set_transport, r⟩) ∧
    ∀ text r, cl = .event ⟨.send_frame text, r⟩ → is_request X text = false

theorem asked_idle {cl : ClientLabel} (hidle : Idle X cl) (ls : List WireLabel)
    (source : Option ℕ) : asked X (ls ++ [.client cl source]) = asked X ls := by
  obtain ⟨hset, hsend⟩ := hidle
  rw [asked_snoc]
  cases cl with
  | event e =>
    obtain ⟨e, r⟩ := e
    cases e with
    | set_transport => exact absurd rfl (hset r)
    | send_frame text =>
      simp only
      rw [hsend text r rfl]
      rfl
    | _ => rfl
  | _ => rfl

/-- What the tag of a frame in the pipe of connection `c` says. -/
def Sourced (X : Crates) (ls : List WireLabel) (c : ℕ) : Option ℕ → String → Prop
  | none, raw => NoResponse X raw
  | some i, raw => ∃ request, SentAt ls i request ∧ connection (ls.take i) = c ∧
      RespondsTo X request raw

theorem SentAt.snoc {ls : List WireLabel} {i : ℕ} {request : String} (hsent : SentAt ls i request)
    (l : WireLabel) : SentAt (ls ++ [l]) i request ∧ (ls ++ [l]).take i = ls.take i := by
  obtain ⟨r, source, hl⟩ := hsent
  obtain ⟨hl', htake⟩ := Machine.getElem?_snoc_of_some hl l
  exact ⟨⟨r, source, hl'⟩, htake⟩

theorem Sourced.snoc {ls : List WireLabel} {c : ℕ} {source : Option ℕ} {raw : String}
    (hsourced : Sourced X ls c source raw) (l : WireLabel) : Sourced X (ls ++ [l]) c source raw := by
  cases source with
  | none => exact hsourced
  | some i =>
    obtain ⟨request, hsent, hconn, hresponds⟩ := hsourced
    obtain ⟨hsent', htake⟩ := hsent.snoc l
    exact ⟨request, hsent', by rw [htake]; exact hconn, hresponds⟩

/-- The client's counter, when `n` requests have been sent on its connection. A
`reattach` that has not swapped its transport yet is between two connections. -/
def NextId (X : Crates) : ClientState → ℕ → Prop
  | .idle client, n => client.next_id = UInt64.ofNat (n + 1)
  | .busy client op h _, n => op.opening <+: h →
      op.first_id client + UInt64.ofNat (tally X h).requests = UInt64.ofNat (n + 1)

/-- **The invariant**: every frame in a pipe is what its tag says, the requests
of a connection are numbered in the order they were sent, and the client goes on
counting. -/
structure Wire.Sound (X : Crates) (ls : List WireLabel) (s : Wire) : Prop where
  log : s.log = ls
  pipes : ∀ c source raw, (source, raw) ∈ s.pipes c → Sourced X ls c source raw
  numbered : ∀ i request, SentAt ls i request → is_request X request = true →
    ∃ method params, params.Plain 126 ∧ request
      = request_frame X (UInt64.ofNat (asked X (ls.take i) + 1)) method params
  next : NextId X s.client (asked X ls)

theorem CallEnds.grows {α : Type} {decode : Json → Option α} {id : UInt64} {request : String}
    {h₀ h : ClientHistory} {res : Except SessionError α}
    (hends : CallEnds X decode id request h₀ res h) : h₀ <+: h := by
  cases hends with
  | unsent => exact List.prefix_append _ _
  | awaited since ends =>
    obtain ⟨tr, rfl, -⟩ := since
    rw [List.append_assoc]
    exact List.prefix_append _ _

theorem Challenged.opening {client : SessionClient} {op : ClientOp} {profile : ProfileAttachment}
    {begin : BeginResult} {nonce : Bytes} {h : ClientHistory}
    (hchallenged : Challenged X client op profile begin nonce h) : op.opening <+: h := by
  obtain ⟨pubkey_hex, hbegun⟩ := hchallenged.begun
  exact (List.prefix_append _ _).trans hbegun.grows

theorem Requests.opening {client : SessionClient} {op : ClientOp} {id : UInt64} {request : String}
    {h : ClientHistory} (hrequests : Requests X client op id request h) : op.opening <+: h := by
  cases hrequests with
  | begin handshake pubkey_hex => exact List.prefix_append _ _
  | attach challenged signature => exact challenged.opening.trans (List.prefix_append _ _)
  | detach detaching =>
    rw [detaching]
    exact List.nil_prefix

/-- What a call has done begins with its opening. -/
theorem Ends.opening {client : SessionClient} {op : ClientOp}
    {out : Except SessionError ClientOut} {h : ClientHistory} (hends : Ends X client op out h) :
    op.opening <+: h := by
  have hnext : op = .handle_next_sign_callback → op.opening <+: h := by
    rintro rfl
    exact List.nil_prefix
  have hdetach : ∀ {session}, op = .detach session → op.opening <+: h := by
    rintro session rfl
    exact List.nil_prefix
  cases hends with
  | begin_failed handshake ends => exact (List.prefix_append _ _).trans ends.grows
  | bad_nonce handshake ends bad => exact (List.prefix_append _ _).trans ends.grows
  | locked challenged => exact challenged.opening.trans (List.prefix_append _ _)
  | attach_failed challenged ends =>
    exact challenged.opening.trans ((List.prefix_append _ _).trans ends.grows)
  | attached challenged ends =>
    exact challenged.opening.trans ((List.prefix_append _ _).trans ends.grows)
  | detach_failed detaching ends => exact hdetach detaching
  | detached detaching ends => exact hdetach detaching
  | next_unread next => exact hnext next
  | next_unparsed next parse => exact hnext next
  | next_other next parse method => exact hnext next
  | next_served next parse method served => exact hnext next

/-- What a client sends is a request of its call, or a reply. -/
theorem ClientEvent.sends {client : SessionClient} {op : ClientOp} {h : ClientHistory}
    {text : String} {r : Except Error Unit}
    (hevent : ClientEvent X client op h ⟨.send_frame text, r⟩) :
    ((tally X h).owed = none ∧ ∃ id, Requests X client op id text h) ∨
      ∃ frame reply, (tally X h).owed = some frame ∧
        text = CallbackReply.text X (reply_id frame) reply := by
  have hservice : ∀ {frame}, ServiceEvent X frame h ⟨.send_frame text, r⟩ →
      ∃ frame reply, (tally X h).owed = some frame ∧
        text = CallbackReply.text X (reply_id frame) reply := by
    intro frame hservice
    have howed := owed_of_service hservice
    cases hservice with
    | signed r signed => exact ⟨frame, .success _, howed, rfl⟩
    | refused r why => exact ⟨frame, .error ⟨_, _⟩, howed, rfl⟩
  cases hevent with
  | request requests r => exact Or.inl ⟨requests.owed, _, requests⟩
  | next_service next event => exact Or.inr (hservice event)
  | await awaiting event =>
    cases event with
    | service event => exact Or.inr (hservice event)

/-- The next request has the next id. -/
theorem NextId.request {client : SessionClient} {op : ClientOp} {h : ClientHistory}
    {p : ClientProc} {n : ℕ} (hnext : NextId X (.busy client op h p) n) {id : UInt64}
    {request : String} (hrequests : Requests X client op id request h) :
    ∃ method params, params.Plain 126 ∧
      request = request_frame X (UInt64.ofNat (n + 1)) method params := by
  obtain ⟨method, params, hrequest, hplain, hid⟩ := hrequests.text
  rw [hnext hrequests.opening] at hid
  exact ⟨method, params, hplain, by rw [hrequest, hid]⟩

theorem is_request_frame (hX : X.json.Faithful) (id : UInt64) (method : String) {params : Json}
    (hplain : params.Plain 126) : is_request X (request_frame X id method params) = true := by
  unfold is_request
  rw [from_str_request_frame hX _ _ hplain]
  rfl

/-- A request of a call is one on the wire. -/
theorem Requests.asks (hX : X.json.Faithful) {client : SessionClient} {op : ClientOp}
    {id : UInt64} {request : String} {h : ClientHistory}
    (hrequests : Requests X client op id request h) : is_request X request = true := by
  obtain ⟨method, params, rfl, hplain, -⟩ := hrequests.text
  exact is_request_frame hX _ _ hplain

/-- **One step of a client and its counter.** -/
theorem NextId.step (hX : X.json.Faithful) {s s' : ClientState} {cl : ClientLabel}
    (hstep : ClientStep X s cl s') (hsound : s.Sound X) {ls : List WireLabel} (source : Option ℕ)
    (hnext : NextId X s (asked X ls)) : NextId X s' (asked X (ls ++ [.client cl source])) := by
  cases hstep with
  | @call client op =>
    have hasked : asked X (ls ++ [.client (.call op) source]) = asked X ls := asked_snoc _ _
    rw [hasked]
    intro hopening
    have hnil : op.opening = [] := List.prefix_nil.mp hopening
    have hfirst : op.first_id client = client.next_id := by
      cases op with
      | reattach profile => cases hnil
      | _ => rfl
    rw [hfirst]
    exact (UInt64.add_zero _).trans hnext
  | @event client op h e k r =>
    have hevent : ClientEvent X client op h ⟨e, r⟩ := (hsound.2 r trivial).1
    intro hopening
    -- the opening is over, unless this is it
    have hbefore : (∀ r', (⟨e, r⟩ : SeamEvent) ≠ ⟨.set_transport, r'⟩) → op.opening <+: h := by
      intro hne
      rcases List.prefix_concat_iff.mp hopening with heq | hgrows
      · cases op with
        | reattach profile => exact absurd (@last_eq [] h _ _ heq).symm (hne ())
        | _ => simp [ClientOp.opening] at heq
      · exact hgrows
    have hquiet : (∀ r', (⟨e, r⟩ : SeamEvent) ≠ ⟨.set_transport, r'⟩) →
        Idle X (.event ⟨e, r⟩) → (tally X (h ++ [⟨e, r⟩])).requests = (tally X h).requests →
        op.first_id client + UInt64.ofNat (tally X (h ++ [⟨e, r⟩])).requests
          = UInt64.ofNat (asked X (ls ++ [.client (.event ⟨e, r⟩) source]) + 1) := by
      intro hne hidle hcount
      rw [asked_idle hidle, hcount]
      exact hnext (hbefore hne)
    cases e with
    | set_transport =>
      cases hevent with
      | set_transport reattaching =>
        rw [reattaching, asked_snoc]
        rfl
      | await awaiting event =>
        cases event with
        | service event => cases event
      | next_service next event => cases event
    | send_frame text =>
      rcases hevent.sends with ⟨howed, id, hrequests⟩ | ⟨frame, reply, howed, rfl⟩
      · have hcount := hnext hrequests.opening
        rw [asked_snoc, tally_snoc, Tally.count_send_of_none howed]
        simp only
        rw [if_pos (hrequests.asks hX),
          UInt64.ofNat_add (tally X h).requests 1, UInt64.ofNat_add (asked X ls + 1) 1,
          ← UInt64.add_assoc, hcount]
      · have hreply := is_request_reply hX (reply_id frame) reply
        refine hquiet nofun ⟨nofun, ?_⟩ ?_
        · rintro text r' ⟨⟩
          exact hreply
        · rw [tally_snoc, Tally.count_send_of_owed howed]
    | recv_frame =>
      refine hquiet nofun ⟨nofun, nofun⟩ ?_
      rw [tally_snoc]
      cases r <;> rfl
    | signing_public_key_hex => exact hquiet nofun ⟨nofun, nofun⟩ (by rw [tally_snoc]; rfl)
    | sign m => exact hquiet nofun ⟨nofun, nofun⟩ (by rw [tally_snoc]; rfl)
    | try_sign m => exact hquiet nofun ⟨nofun, nofun⟩ (by rw [tally_snoc]; rfl)
    | authorize request => exact hquiet nofun ⟨nofun, nofun⟩ (by rw [tally_snoc]; rfl)
  | @ret client client' op h out =>
    obtain ⟨-, hends, hid⟩ := hsound
    have hasked : asked X (ls ++ [.client (.ret out) source]) = asked X ls := asked_snoc _ _
    rw [hasked]
    exact hid.trans (hnext hends.opening)

/-- A frame in a pipe, after one more is delivered. -/
theorem mem_deliver {pipes : ℕ → List (Option ℕ × String)} {c c' : ℕ} {d d' : Option ℕ × String}
    (hmem : d ∈ Function.update pipes c (pipes c ++ [d']) c') :
    d ∈ pipes c' ∨ (c' = c ∧ d = d') := by
  by_cases hc : c' = c
  · rw [hc, Function.update_self] at hmem
    rcases List.mem_append.mp hmem with hmem | hmem
    · exact Or.inl (by rw [hc]; exact hmem)
    · exact Or.inr ⟨hc, List.mem_singleton.mp hmem⟩
  · rw [Function.update_of_ne hc] at hmem
    exact Or.inl hmem

/-- Of a pipe that was read, nothing is new. -/
theorem mem_advance {pipes : ℕ → List (Option ℕ × String)} {c c' : ℕ}
    {rest : List (Option ℕ × String)} {d : Option ℕ × String} (hrest : rest <:+ pipes c)
    (hmem : d ∈ Function.update pipes c rest c') : d ∈ pipes c' := by
  by_cases hc : c' = c
  · rw [hc, Function.update_self] at hmem
    rw [hc]
    exact hrest.subset hmem
  · rwa [Function.update_of_ne hc] at hmem

/-- A step of the engine keeps the invariant. -/
theorem Wire.Sound.deliver {ls : List WireLabel} {s : Wire} (hsound : s.Sound X ls) {c : ℕ}
    {source : Option ℕ} {text : String} (hsourced : Sourced X ls c source text) :
    (s.deliver c source text).Sound X (ls ++ [.engine c source text]) := by
  obtain ⟨hlog, hpipes, hnumbered, hnext⟩ := hsound
  constructor
  · exact congrArg (· ++ [_]) hlog
  · intro c' source' raw hmem
    rcases mem_deliver hmem with hmem | ⟨rfl, heq⟩
    · exact (hpipes c' source' raw hmem).snoc _
    · cases heq
      exact hsourced.snoc _
  · rintro i request ⟨r, src, hl⟩ hrequest
    rcases Machine.getElem?_snoc hl with ⟨hi, hl⟩ | ⟨-, heq⟩
    · rw [List.take_append_of_le_length hi.le]
      exact hnumbered i request ⟨r, src, hl⟩ hrequest
    · cases heq
  · rw [asked_snoc]
    exact hnext

/-- A step of the client keeps the invariant. -/
theorem Wire.Sound.advance (hX : X.json.Faithful) {ls : List WireLabel} {s : Wire}
    (hsound : s.Sound X ls) {cl : ClientLabel} {client : ClientState}
    (hstep : ClientStep X s.client cl client) (hclient : s.client.Sound X) {source : Option ℕ}
    {rest : List (Option ℕ × String)} (hrest : rest <:+ s.pipes (connection s.log)) :
    (s.advance cl source client rest).Sound X (ls ++ [.client cl source]) := by
  obtain ⟨hlog, hpipes, hnumbered, hnext⟩ := hsound
  constructor
  · exact congrArg (· ++ [_]) hlog
  · intro c' source' raw hmem
    exact (hpipes c' source' raw (mem_advance hrest hmem)).snoc _
  · rintro i request ⟨r, src, hl⟩ hrequest
    rcases Machine.getElem?_snoc hl with ⟨hi, hl⟩ | ⟨rfl, heq⟩
    · rw [List.take_append_of_le_length hi.le]
      exact hnumbered i request ⟨r, src, hl⟩ hrequest
    · -- the request that has just been sent
      cases heq
      rw [List.take_left]
      generalize hs : s.client = c at hstep hclient hnext
      cases hstep with
      | event r =>
        rcases (hclient.2 r trivial).1.sends with ⟨-, id, hrequests⟩ | ⟨frame, reply, -, rfl⟩
        · exact hnext.request hrequests
        · rw [is_request_reply hX] at hrequest
          cases hrequest
  · exact hnext.step hX hstep hclient source

/-- **The invariant of the wire.** -/
theorem wire_sound (hX : X.json.Faithful) {ls : List WireLabel} {s : Wire}
    (hrun : Machine.Run (WireStep X) .start ls s) : s.Sound X ls := by
  refine hrun.invariant (I := fun ls s => s.Sound X ls) ?_ ?_
  · exact ⟨rfl, fun _ _ _ hmem => (List.not_mem_nil hmem).elim,
      fun _ _ ⟨_, _, hl⟩ => by simp at hl, rfl⟩
  · intro ls s l s' hrun hsound hstep
    have hclient := ((wire_has_client X).sound hrun).1
    cases hstep with
    | @answer i request text sent own =>
      rw [hsound.log] at sent ⊢
      exact hsound.deliver ⟨request, sent, rfl, own⟩
    | other c unasked => exact hsound.deliver unasked
    | read next step => exact hsound.advance hX step hclient (by rw [next]; exact List.suffix_cons _ _)
    | unread lost step => exact hsound.advance hX step hclient lost
    | act quiet step => exact hsound.advance hX step hclient (List.suffix_refl _)

end Invariant

/-! ## One id, one request -/

section Numbers

variable {X : Crates} {ls : List WireLabel}

theorem connection_take_le (ls : List WireLabel) {i j : ℕ} (hij : i ≤ j) :
    connection (ls.take i) ≤ connection (ls.take j) := by
  obtain ⟨rest, hrest⟩ : ls.take i <+: ls.take j := List.take_prefix_take_left hij
  rw [← hrest]
  unfold connection
  rw [List.countP_append]
  exact Nat.le_add_right _ _

/-- On one connection the count only grows. -/
theorem asked_take_le {i j : ℕ} (hij : i ≤ j)
    (hconn : connection (ls.take i) = connection (ls.take j)) :
    asked X (ls.take i) ≤ asked X (ls.take j) := by
  induction j, hij using Nat.le_induction with
  | base => exact le_rfl
  | succ j hij ih =>
    have hi := connection_take_le ls hij
    have hj := connection_take_le ls (Nat.le_add_right j 1)
    have hle := ih (by omega)
    refine hle.trans ?_
    rw [List.take_add_one] at hconn ⊢
    cases hl : ls[j]? with
    | none =>
      rw [Option.toList_none, List.append_nil]
    | some l =>
      rw [hl, Option.toList_some, connection_snoc] at hconn
      -- a swap of the transport would be another connection
      have hstays : l.reconnects = false := by
        by_contra hne
        rw [Bool.not_eq_false] at hne
        rw [if_pos hne] at hconn
        omega
      rw [Option.toList_some, asked_snoc]
      split
      · cases hstays
      · split
        · exact Nat.le_succ _
        · exact le_rfl
      · exact le_rfl

/-- And every request counts. -/
theorem asked_lt {i j : ℕ} {request : String} (hij : i < j) (hsent : SentAt ls i request)
    (hrequest : is_request X request = true)
    (hconn : connection (ls.take i) = connection (ls.take j)) :
    asked X (ls.take i) < asked X (ls.take j) := by
  obtain ⟨r, source, hl⟩ := hsent
  have htake : ls.take (i + 1) = ls.take i ++ [.client (.event ⟨.send_frame request, r⟩) source] := by
    rw [List.take_add_one, hl]
    rfl
  have hi := connection_take_le ls (Nat.le_add_right i 1)
  have hj := connection_take_le ls (show i + 1 ≤ j from hij)
  have hle := @asked_take_le X ls (i + 1) j hij (by omega)
  rw [htake, asked_snoc] at hle
  simp only at hle
  rw [if_pos hrequest] at hle
  exact hle

/-- **On one connection, until the numbers wrap, an id belongs to one request.** -/
theorem sent_unique (hX : X.json.Faithful) {s : Wire} (hsound : s.Sound X ls)
    (hfew : ∀ k, asked X (ls.take k) < 2 ^ 64) {i j : ℕ} {request request' : String}
    (hi : SentAt ls i request) (hj : SentAt ls j request')
    (hconn : connection (ls.take i) = connection (ls.take j)) {frame frame' : IncomingFrame}
    (hparse : IncomingFrame.from_str X request = some frame)
    (hparse' : IncomingFrame.from_str X request' = some frame') (hmethod : frame.method.isSome)
    (hmethod' : frame'.method.isSome) (hid : frame.id_u64 = frame'.id_u64) : i = j := by
  -- the id of a request is the number of requests before it, and one
  have hnumber : ∀ {k text frame}, SentAt ls k text → IncomingFrame.from_str X text = some frame →
      frame.method.isSome → is_request X text = true ∧ asked X (ls.take k) + 1 < 2 ^ 64 ∧
        frame.id_u64 = some (UInt64.ofNat (asked X (ls.take k) + 1)) := by
    intro k text frame hsent hparse hmethod
    have hrequest : is_request X text = true := by
      unfold is_request
      rw [hparse]
      exact hmethod
    refine ⟨hrequest, ?_, ?_⟩
    · obtain ⟨r, source, hl⟩ := id hsent
      have htake : ls.take (k + 1) = ls.take k ++ [.client (.event ⟨.send_frame text, r⟩) source] := by
        rw [List.take_add_one, hl]
        rfl
      have hbound := hfew (k + 1)
      rw [htake, asked_snoc] at hbound
      simp only at hbound
      rwa [if_pos hrequest] at hbound
    · obtain ⟨method, params, hplain, rfl⟩ := hsound.numbered k text hsent hrequest
      rw [from_str_request_frame hX _ _ hplain] at hparse
      rw [← Option.some.inj hparse]
      rfl
  obtain ⟨hrequest, hbound, hid₁⟩ := hnumber hi hparse hmethod
  obtain ⟨hrequest', hbound', hid₂⟩ := hnumber hj hparse' hmethod'
  have heq : asked X (ls.take i) + 1 = asked X (ls.take j) + 1 := by
    rw [hid₁, hid₂, Option.some.injEq] at hid
    have hnat := congrArg UInt64.toNat hid
    rwa [UInt64.toNat_ofNat', UInt64.toNat_ofNat', Nat.mod_eq_of_lt hbound,
      Nat.mod_eq_of_lt hbound'] at hnat
  rcases Nat.lt_trichotomy i j with hlt | heq' | hlt
  · have := asked_lt (X := X) hlt hi hrequest hconn
    omega
  · exact heq'
  · have := asked_lt (X := X) hlt hj hrequest' hconn.symm
    omega

end Numbers

/-! ## The answer to the call's own request -/

/-- Between two places of the log no call begins and no transport is swapped. -/
structure SameCall (ls : List WireLabel) (i k : ℕ) : Prop where
  calls : ∀ m op source, i ≤ m → m < k → ls[m]? ≠ some (.client (.call op) source)
  connection : connection (ls.take i) = connection (ls.take k)

/-- The frame read at `j` is the engine's answer to `request`, which the call in
progress sent on this connection. -/
def OwnAnswer (ls : List WireLabel) (j : ℕ) (request raw : String) : Prop :=
  ∃ i, i < j ∧ SentAt ls i request ∧
    ls[j]? = some (.client (.event ⟨.recv_frame, .ok raw⟩) (some i)) ∧ SameCall ls i j

/-- At `k` the call in progress has taken `a` from the answer to `request`. -/
def Taken (X : Crates) (ls : List WireLabel) (k : ℕ) (request : String) {α : Type}
    (decode : Json → Option α) (id : UInt64) (a : α) : Prop :=
  ∃ j raw, j < k ∧ SameCall ls j k ∧ OwnAnswer ls j request raw ∧
    outcome_of X decode id raw = .ok a

section Answers

variable {X : Crates} (hX : X.json.Faithful) {ls : List WireLabel} {s : Wire}
  (hrun : Machine.Run (WireStep X) .start ls s)

include hrun

/-- After any event but the swap of the transport, the rest of the call is on
the same connection. -/
theorem same_call {i k : ℕ} (hik : i ≤ k) {e : SeamEvent} {source : Option ℕ}
    (hl : ls[i]? = some (.client (.event e) source)) (hswap : e.1 ≠ .set_transport)
    {op : ClientOp} {h₀ : ClientHistory}
    (hcall : in_progress WireLabel.client_label (ls.take i) = some (op, h₀))
    (hcalls : ∀ m l op', i ≤ m → m < k → ls[m]? = some l → l.client_label ≠ some (.call op')) :
    SameCall ls i k := by
  have hnext : in_progress WireLabel.client_label (ls.take (i + 1)) = some (op, h₀ ++ [e]) := by
    rw [List.take_add_one, hl, Option.toList_some, in_progress_snoc, hcall]
    rfl
  have hstays : ∀ m l, i ≤ m → m < k → ls[m]? = some l → l.reconnects = false := by
    intro m l him hmk hlm
    by_contra hne
    rw [Bool.not_eq_false] at hne
    obtain ⟨r, source', rfl⟩ : ∃ r source', l = .client (.event ⟨.set_transport, r⟩) source' := by
      cases l with
      | engine c source' text => cases hne
      | client cl source' =>
        cases cl with
        | event e' =>
          obtain ⟨e', r⟩ := e'
          cases e' with
          | set_transport => exact ⟨r, source', rfl⟩
          | _ => cases hne
        | _ => cases hne
    obtain rfl | hlt := Nat.eq_or_lt_of_le him
    · rw [hl] at hlm
      cases hlm
      exact hswap rfl
    · -- a swap is the first thing a call does
      obtain ⟨client, op', h, hcall', -, hevent⟩ := (wire_has_client X).event hrun hlm rfl
      obtain ⟨h', hback, hgrows⟩ := in_progress_back WireLabel.client_label hlt
        (fun m' l' op'' hm' hm'' hl' => hcalls m' l' op'' (by omega) (by omega) hl') hcall'
      rw [hnext] at hback
      cases hback
      have hnil : h = [] := by
        cases hevent with
        | set_transport reattaching => rfl
        | await awaiting event =>
          cases event with
          | service event => cases event
        | next_service next event => cases event
      rw [hnil, List.prefix_nil] at hgrows
      simp at hgrows
  refine ⟨fun m op' source' him hmk hlm => hcalls m _ op' him hmk hlm rfl, ?_⟩
  clear hcalls hnext
  induction k, hik using Nat.le_induction with
  | base => rfl
  | succ k hik ih =>
    rw [ih fun m l him hmk => hstays m l him (by omega), List.take_add_one]
    cases hlk : ls[k]? with
    | none => rw [Option.toList_none, List.append_nil]
    | some l =>
      rw [Option.toList_some, connection_snoc, hstays k l hik (Nat.lt_succ_self k) hlk]
      rfl

include hX

/-- **A frame with the id that a call awaits answers the request of that call.** -/
theorem own_answer (hfew : ∀ k, asked X (ls.take k) < 2 ^ 64) {j : ℕ} {raw : String}
    {source : Option ℕ} (hl : ls[j]? = some (.client (.event ⟨.recv_frame, .ok raw⟩) source))
    {client : SessionClient} {op : ClientOp} {id : UInt64} {request : String}
    {h₀ h₁ : ClientHistory}
    (hcall : in_progress WireLabel.client_label (ls.take j)
      = some (op, h₀ ++ ⟨.send_frame request, .ok ()⟩ :: h₁))
    (hrequests : Requests X client op id request h₀) {frame : IncomingFrame}
    (hparse : IncomingFrame.from_str X raw = some frame) (hmethod : frame.method ≠ some METHOD_SIGN)
    (hid : frame.id_u64 = some id) : OwnAnswer ls j request raw := by
  obtain ⟨i, l, hij, hli, hview, hstart, hcalls⟩ := in_progress_event WireLabel.client_label hcall
  obtain ⟨source', rfl⟩ := WireLabel.client_label_eq_some hview
  have hsame := same_call hrun hij.le hli nofun hstart hcalls
  -- the frame was in the pipe of this connection, under its tag
  obtain ⟨s₁, s₂, hrun₁, hstep, -⟩ := hrun.at hl
  have hsound₁ := wire_sound hX hrun₁
  have hsourced : Sourced X (ls.take j) (connection (ls.take j)) source raw := by
    cases hstep with
    | read next step =>
      refine hsound₁.pipes _ source raw ?_
      rw [← hsound₁.log, next]
      exact List.mem_cons_self
    | act quiet step => exact absurd rfl (quiet _)
  cases source with
  | none =>
    rw [hsourced frame hparse hmethod] at hid
    cases hid
  | some i' =>
    -- the request it answers has this id, and only one request of this connection does
    obtain ⟨request', ⟨r, src, hli'⟩, hconn, hresponds⟩ := hsourced
    obtain ⟨frame', hparse', hmethod', hid'⟩ := hresponds frame id hparse hmethod hid
    have hlt : i' < j := by
      have hlen := (List.getElem?_eq_some_iff.mp hli').1
      rw [List.length_take] at hlen
      omega
    rw [List.getElem?_take_of_lt hlt] at hli'
    rw [List.take_take, Nat.min_eq_left hlt.le] at hconn
    obtain ⟨method, params, rfl, hplain, -⟩ := hrequests.text
    have hown : i' = i := by
      refine sent_unique hX (wire_sound hX hrun) hfew ⟨r, src, hli'⟩ ⟨.ok (), source', hli⟩
        (hconn.trans hsame.connection.symm) hparse' (from_str_request_frame hX id method hplain)
        hmethod' rfl ?_
      rw [hid']
      rfl
    rw [hown] at hl
    exact ⟨i, hij, ⟨.ok (), source', hli⟩, hl, hsame⟩

/-- What a call takes from a response, it takes from the answer to its own
request. -/
theorem taken_of_ends (hfew : ∀ k, asked X (ls.take k) < 2 ^ 64) {k : ℕ} {client : SessionClient}
    {op : ClientOp} {h₀ h h' : ClientHistory} {id : UInt64} {request : String} {α : Type}
    {decode : Json → Option α} {a : α}
    (hcall : in_progress WireLabel.client_label (ls.take k) = some (op, h'))
    (hgrows : h <+: h') (hrequests : Requests X client op id request h₀)
    (hends : CallEnds X decode id request h₀ (.ok a) h) : Taken X ls k request decode id a := by
  obtain ⟨⟨tr, htr, -⟩, frame, ⟨h₁, raw, hlast, hparse⟩, hmethod, hresponse⟩ := hends.answered
  obtain ⟨rest, rfl⟩ := hgrows
  -- the response was read after the request was sent
  have hbefore : ∃ tr', h₁ = h₀ ++ ⟨.send_frame request, .ok ()⟩ :: tr' := by
    rcases List.eq_nil_or_concat tr with rfl | ⟨tr', e, rfl⟩
    · rw [List.append_nil] at htr
      rw [htr] at hlast
      cases last_eq hlast
    · rw [hlast, List.concat_eq_append, ← List.append_assoc] at htr
      obtain ⟨rfl, -⟩ := List.append_inj' htr rfl
      exact ⟨tr', by rw [List.append_assoc]; rfl⟩
  obtain ⟨tr', rfl⟩ := hbefore
  rw [hlast, List.append_assoc, List.singleton_append] at hcall
  obtain ⟨j, l, hjk, hl, hview, hstart, hcalls⟩ := in_progress_event WireLabel.client_label hcall
  obtain ⟨source, rfl⟩ := WireLabel.client_label_eq_some hview
  have hid : frame.id_u64 = some id := by
    by_contra hne
    unfold response_of at hresponse
    rw [if_pos hne] at hresponse
    cases hresponse
  refine ⟨j, raw, hjk, same_call hrun hjk.le hl nofun hstart hcalls,
    own_answer hX hrun hfew hl hstart hrequests hparse hmethod hid, ?_⟩
  rw [outcome_of_parsed X decode id hparse]
  exact hresponse

end Answers

/-- **Responses correlate with their requests**, in every run, whatever the engine
sends and whenever: until 2^64 requests have been sent on one connection, a frame
with the id that a call awaits is the engine's answer to the request that this
call sent on this connection. So is what a challenge is signed for, what is
attached, and what a call returns. -/
theorem responses_correlate {X : Crates} (hX : X.json.Faithful) {ls : List WireLabel} {s : Wire}
    (hrun : Machine.Run (WireStep X) .start ls s) (hfew : ∀ k, asked X (ls.take k) < 2 ^ 64) :
    (∀ j raw source client op h id request frame,
      ls[j]? = some (.client (.event ⟨.recv_frame, .ok raw⟩) source) →
      in_progress WireLabel.client_label (ls.take j) = some (op, h) →
      Awaiting X client op id request h → IncomingFrame.from_str X raw = some frame →
      frame.method ≠ some METHOD_SIGN → frame.id_u64 = some id → OwnAnswer ls j request raw) ∧
    (∀ k m r source op h, ls[k]? = some (.client (.event ⟨.try_sign m, r⟩) source) →
      in_progress WireLabel.client_label (ls.take k) = some (op, h) → ChallengeDue X op h m →
      ∃ id profile pubkey_hex begin nonce,
        Taken X ls k (begin_frame X id profile pubkey_hex) BeginResult.decode id begin ∧
        X.base64_decode begin.nonce_b64 = some nonce ∧ op.profile = some profile ∧
        m = challenge_message nonce profile.did) ∧
    (∀ k text r source frame params,
      ls[k]? = some (.client (.event ⟨.send_frame text, r⟩) source) →
      IncomingFrame.from_str X text = some frame → frame.method = some METHOD_ATTACH →
      AttachParams.decode (frame.params.getD Value.Null).tree = some params →
      ∃ id profile pubkey_hex begin,
        Taken X ls k (begin_frame X id profile pubkey_hex) BeginResult.decode id begin ∧
        params.session_candidate = begin.session_candidate) ∧
    (∀ k session source, ls[k]? = some (.client (.ret (.ok (.session session))) source) →
      ∃ id begin signature profile attach,
        Taken X ls k (attach_frame X id begin signature profile) AttachResult.decode id attach ∧
        session = { session_id := attach.session_id,
                    engine_capabilities := attach.engine_capabilities,
                    profile_did := profile.did }) ∧
    ∀ k source, ls[k]? = some (.client (.ret (.ok .detached)) source) →
      ∃ id session, Taken X ls k (detach_frame X id session) DetachResult.decode id {} := by
  refine ⟨?_, ?_, ?_, ?_, ?_⟩
  · intro j raw source client op h id request frame hl hcall hawaiting hparse hmethod hid
    obtain ⟨h₀, hrequests, tr, rfl, -⟩ := hawaiting
    rw [List.append_assoc, List.singleton_append] at hcall
    exact own_answer hX hrun hfew hl hcall hrequests hparse hmethod hid
  · intro k m r source op h hl hcall hdue
    obtain ⟨client, op', h', hcall', -, hevent⟩ := (wire_has_client X).event hrun hl rfl
    rw [hcall] at hcall'
    obtain ⟨rfl, rfl⟩ := Prod.mk.inj (Option.some.inj hcall')
    obtain ⟨profile, begin, nonce, hchallenged, hm⟩ := hevent.challenged_of_due hdue
    obtain ⟨pubkey_hex, hends⟩ := hchallenged.begun
    exact ⟨_, profile, pubkey_hex, begin, nonce, taken_of_ends hX hrun hfew hcall
      (List.prefix_refl h) (.begin hchallenged.handshake pubkey_hex) hends, hchallenged.decoded,
      hchallenged.handshake, hm⟩
  · intro k text r source frame params hl hparse hmethod hparams
    obtain ⟨client, op, h, hcall, -, hevent⟩ := (wire_has_client X).event hrun hl rfl
    rcases hevent.sends with ⟨-, id, hrequests⟩ | ⟨frame', reply, -, htext⟩
    · cases hrequests with
      | begin handshake pubkey_hex =>
        unfold begin_frame at hparse
        rw [from_str_request_frame hX _ _ (BeginParams.plain _)] at hparse
        rw [← Option.some.inj hparse] at hmethod
        exact absurd (Option.some.inj hmethod) (show METHOD_BEGIN ≠ METHOD_ATTACH by decide)
      | @attach profile begin nonce h challenged signature =>
        obtain ⟨pubkey_hex, hends⟩ := challenged.begun
        refine ⟨_, profile, pubkey_hex, begin, taken_of_ends hX hrun hfew hcall
          (List.prefix_append h _) (.begin challenged.handshake pubkey_hex) hends, ?_⟩
        -- the candidate on the wire is the one that was sent
        have hobject : ∀ v : AttachParams, nullable (Value.of v.encode) = some (Value.of v.encode) :=
          PayloadType.nullable_encode .AttachParams
        unfold attach_frame at hparse
        rw [from_str_request_frame hX _ _ (AttachParams.plain _), hobject] at hparse
        rw [← Option.some.inj hparse] at hparams
        have hread := (AttachParams.decode_normalize _).symm.trans hparams
        rw [← Option.some.inj hread]
      | detach detaching =>
        unfold detach_frame at hparse
        rw [from_str_request_frame hX _ _ (DetachParams.plain _)] at hparse
        rw [← Option.some.inj hparse] at hmethod
        exact absurd (Option.some.inj hmethod) (show METHOD_DETACH ≠ METHOD_ATTACH by decide)
    · rw [reply_method hX htext hparse] at hmethod
      cases hmethod
  · intro k session source hl
    obtain ⟨client, op, h, client', hcall, -, hpost⟩ := (wire_has_client X).ret hrun hl rfl
    have hends := hpost.1
    generalize hout : (Except.ok (ClientOut.session session) : Except SessionError ClientOut) = out
      at hends
    cases hends with
    | @attached profile begin nonce signature attach h₀ h challenged ends =>
      cases hout
      exact ⟨_, begin, signature, profile, attach, taken_of_ends hX hrun hfew hcall
        (List.prefix_refl h) (.attach challenged signature) ends, rfl⟩
    | @next_served raw frame out h next parse method served =>
      cases out <;> cases hout
    | _ => cases hout
  · intro k source hl
    obtain ⟨client, op, h, client', hcall, -, hpost⟩ := (wire_has_client X).ret hrun hl rfl
    have hends := hpost.1
    generalize hout : (Except.ok ClientOut.detached : Except SessionError ClientOut) = out at hends
    cases hends with
    | @detached session h detaching ends =>
      exact ⟨_, session, taken_of_ends hX hrun hfew hcall (List.prefix_refl h) (.detach detaching) ends⟩
    | @next_served raw frame out h next parse method served =>
      cases out <;> cases hout
    | _ => cases hout

theorem asked_le_length (X : Crates) (ls : List WireLabel) : asked X ls ≤ ls.length := by
  induction ls using List.reverseRecOn with
  | nil => exact le_rfl
  | append_singleton ls l ih =>
    rw [asked_snoc, List.length_append, List.length_singleton]
    split
    · exact Nat.zero_le _
    · split <;> omega
    · omega

/-- A step of the client, other than a read. -/
theorem wire_act {X : Crates} {ls : List WireLabel} {s : Wire} {cl : ClientLabel}
    {client : ClientState} (hrun : Machine.Run (WireStep X) .start ls s) (hlog : s.log = ls)
    (hstep : ClientStep X s.client cl client) (hquiet : ∀ r, cl ≠ .event ⟨.recv_frame, r⟩) :
    ∃ s', Machine.Run (WireStep X) .start (ls ++ [.client cl none]) s' ∧
      s'.log = ls ++ [.client cl none] ∧ s'.client = client ∧ s'.pipes = s.pipes :=
  ⟨_, hrun.step (.act hquiet hstep), congrArg (· ++ [_]) hlog, rfl, Function.update_eq_self _ _⟩

/-- A result under the id of a request answers it. -/
theorem responds_to_result {X : Crates} (hX : X.json.Faithful) (id : UInt64) (method : String)
    {params : Json} (hplain : params.Plain 126) (t : PayloadType) (ht : t ≠ .SignCallbackParams)
    (v : t.Carrier) :
    RespondsTo X (request_frame X id method params)
      (result_frame X (Value.of (ofU64 id)) (t.encode v)) := by
  intro frame id' hparse _ hid
  rw [from_str_result_frame hX id t ht v] at hparse
  rw [← Option.some.inj hparse] at hid
  exact ⟨_, from_str_request_frame hX id method hplain, rfl, hid⟩

/-- The log of a `detach` for which the engine sends one frame. -/
def detach_log (X : Crates) (id : UInt64) (session : Session) (source : Option ℕ) (raw : String)
    (out : Except SessionError ClientOut) : List WireLabel :=
  [.client (.call (.detach session)) none,
    .client (.event ⟨.send_frame (detach_frame X id session), .ok ()⟩) none, .engine 0 source raw,
    .client (.event ⟨.recv_frame, .ok raw⟩) source, .client (.ret out) none]

/-- An idle client on an empty first connection makes a `detach`, and gets one
frame, which decides it. -/
theorem wire_detach {X : Crates} {ls : List WireLabel} {s : Wire} {client : SessionClient}
    (hrun : Machine.Run (WireStep X) .start ls s) (hlog : s.log = ls)
    (hclient : s.client = .idle client) (hfirst : connection ls = 0) (hempty : s.pipes 0 = [])
    (session : Session) {source : Option ℕ} {raw : String} {frame : IncomingFrame}
    {res : Except SessionError DetachResult} (hparse : IncomingFrame.from_str X raw = some frame)
    (hmethod : frame.method ≠ some METHOD_SIGN)
    (hresponse : response_of DetachResult.decode client.next_id frame = res)
    (hsends : ∀ s' : Wire, s'.log = ls ++ [.client (.call (.detach session)) none,
        .client (.event ⟨.send_frame (detach_frame X client.next_id session), .ok ()⟩) none] →
      WireStep X s' (.engine 0 source raw) (s'.deliver 0 source raw)) :
    ∃ s', Machine.Run (WireStep X) .start
        (ls ++ detach_log X client.next_id session source raw (res.map fun _ => .detached)) s' ∧
      s'.log = ls ++ detach_log X client.next_id session source raw (res.map fun _ => .detached) ∧
      s'.client = .idle { next_id := client.next_id + 1 } ∧ s'.pipes 0 = [] := by
  have hperforms := performs_detach session (performs_read_response hparse hmethod hresponse)
  -- the call, and what is left of it after each of its events
  obtain ⟨k, hp, hrest⟩ := hperforms.cons_inv
  obtain ⟨k', hk, hend⟩ := hrest.cons_inv
  generalize hret : k' (.ok raw) = q at hend
  cases hend
  have hcall : ClientStep X s.client (.call (.detach session)) (.busy client (.detach session) []
      ((ClientOp.detach session).program X client)) := by
    rw [hclient]
    exact .call _
  rw [hp] at hcall
  obtain ⟨s₁, hrun₁, hlog₁, hclient₁, hpipes₁⟩ := wire_act hrun hlog hcall nofun
  have hsend : ClientStep X s₁.client
      (.event ⟨.send_frame (detach_frame X client.next_id session), .ok ()⟩)
      (.busy client (.detach session)
        [⟨.send_frame (detach_frame X client.next_id session), .ok ()⟩] (k (.ok ()))) := by
    rw [hclient₁]
    exact .event _
  rw [hk] at hsend
  obtain ⟨s₂, hrun₂, hlog₂, hclient₂, hpipes₂⟩ := wire_act hrun₁ hlog₁ hsend nofun
  -- the engine sends its frame, and it is the next one to be read
  rw [List.append_assoc] at hrun₂ hlog₂
  have hrun₃ := hrun₂.step (hsends s₂ hlog₂)
  have hconn₃ : connection (s₂.deliver 0 source raw).log = 0 := by
    show connection (s₂.log ++ _) = 0
    rw [hlog₂, List.append_assoc]
    unfold connection at hfirst ⊢
    rw [List.countP_append, hfirst]
    rfl
  have hpipe : (s₂.deliver 0 source raw).pipes (connection (s₂.deliver 0 source raw).log)
      = [(source, raw)] := by
    rw [hconn₃]
    show Function.update s₂.pipes 0 (s₂.pipes 0 ++ _) 0 = _
    rw [Function.update_self, hpipes₂, hpipes₁, hempty]
    rfl
  have hrecv : ClientStep X s₂.client (.event ⟨.recv_frame, .ok raw⟩)
      (.busy client (.detach session) [⟨.send_frame (detach_frame X client.next_id session), .ok ()⟩,
        ⟨.recv_frame, .ok raw⟩] (k' (.ok raw))) := by
    rw [hclient₂]
    exact .event _
  rw [hret] at hrecv
  have hread := WireStep.read (X := X) hpipe hrecv
  obtain ⟨s₅, hrun₅, hlog₅, hclient₅, hpipes₅⟩ := @wire_act _ _ _ (.ret _) _ (hrun₃.step hread)
    (congrArg (· ++ [_] ++ [_]) hlog₂) .ret nofun
  refine ⟨s₅, ?_, ?_, hclient₅, ?_⟩
  · simpa [detach_log] using hrun₅
  · simpa [detach_log] using hlog₅
  · rw [hpipes₅]
    unfold Wire.advance
    simp only [hconn₃, Function.update_self]

/-- Three calls on one connection. A reply under no id fails the first, the late
answer to its request fails the second, and the third takes its own. -/
theorem responses_correlate_stale : ∃ ls s stale id session,
    Machine.Run (WireStep Reference.crates) .start ls s ∧
    ls[4]? = some (.client (.ret (.error .IdMismatch)) none) ∧
    ls[7]? = some (.engine 0 (some 1) stale) ∧
    ls[8]? = some (.client (.event ⟨.recv_frame, .ok stale⟩) (some 1)) ∧
    ls[9]? = some (.client (.ret (.error .IdMismatch)) none) ∧
    ls[14]? = some (.client (.ret (.ok .detached)) none) ∧
    Taken Reference.crates ls 14 (detach_frame Reference.crates id session) DetachResult.decode id
      {} := by
  have hX := Reference.faithful.json
  have hresponds := fun id => responds_to_result hX id METHOD_DETACH
    (DetachParams.plain ⟨Reference.session.session_id⟩) .DetachResult nofun {}
  obtain ⟨s₁, hrun₁, hlog₁, hclient₁, hempty₁⟩ := @wire_detach _ [] .start .new .start rfl rfl rfl rfl
    Reference.session none _ _ _ Reference.from_str_noise nofun rfl
    fun s' _ => .other 0 fun frame hparse _ => by
      rw [Reference.from_str_noise] at hparse
      rw [← Option.some.inj hparse]
      rfl
  obtain ⟨s₂, hrun₂, hlog₂, hclient₂, hempty₂⟩ := @wire_detach _ _ s₁ _ hrun₁ hlog₁ hclient₁ rfl hempty₁
    Reference.session (some 1) _ _ _ Reference.from_str_ack nofun rfl
    fun s' hlog => by
      have hstep := WireStep.answer (s := s') (i := 1) (by rw [hlog]; exact ⟨.ok (), none, rfl⟩)
        (hresponds 1)
      rw [hlog] at hstep
      exact hstep
  obtain ⟨s₃, hrun₃, hlog₃, -⟩ := @wire_detach _ _ s₂ _ hrun₂ hlog₂ hclient₂ rfl hempty₂
    Reference.session (some 11) _ _ _ (from_str_result_frame hX 3 .DetachResult nofun {}) nofun
    (response_of_read 3 .DetachResult {})
    fun s' hlog => by
      have hstep := WireStep.answer (s := s') (i := 11) (by rw [hlog]; exact ⟨.ok (), none, rfl⟩)
        (hresponds 3)
      rw [hlog] at hstep
      exact hstep
  obtain ⟨id, session, htaken⟩ := (responses_correlate hX hrun₃ fun k =>
    lt_of_le_of_lt ((asked_le_length _ _).trans (List.length_take_le' _ _))
      (show 15 < 2 ^ 64 by omega)).2.2.2.2 14 none rfl
  exact ⟨_, s₃, _, id, session, hrun₃, rfl, rfl, rfl, rfl, rfl, htaken⟩

end DigIpc
