/-
Any number of clients and one engine.

Each client has a connection of its own, a queue of frames in either direction.
The repository has the two halves; what stands between them, the host of the
engine, is a few lines that it leaves to its users, and what is assumed of them is
`requested` and `EngineOut.frame`: a request is decoded and its parameters are
given to the registry, and the result goes back under the id of the request, an
error as its `to_rpc_error`. When the host does so, what else it does with its
registry, and how many callbacks it sends in between, is open, and so is the
order in which clients and host take their turns.

`InFlight` is the invariant of one connection, told in terms of `exchanges`: there
is at most one request or response on the way, it belongs to the request that is
pending in the client's history, and the responses that the client has read are
the ones that the host has sent, in order (`answers`).
-/
import DigIpc.Exchanges
import DigIpc.EngineLifetimes

set_option autoImplicit false

open Interaction Serde
open StdIo (Error)

namespace DigIpc

/-! ## Between a frame and the registry -/

section Host

variable (X : Crates)

/-- The call on the registry that a request asks for. -/
def request_op (resolver : DidSigningKeyResolver) (frame : IncomingFrame) : Option EngineOp :=
  let params := (frame.params.getD Value.Null).tree
  if frame.method = some METHOD_BEGIN then (BeginParams.decode params).map .begin
  else if frame.method = some METHOD_ATTACH then
    (AttachParams.decode params).map (.attach resolver)
  else if frame.method = some METHOD_DETACH then
    (DetachParams.decode params).map fun detach => .detach detach.session_id
  else none

/-- The id of a request, and the call it asks for. -/
def requested (resolver : DidSigningKeyResolver) (text : String) : Option (Value × EngineOp) := do
  let frame ← IncomingFrame.from_str X text
  let op ← request_op resolver frame
  return (reply_id frame, op)

/-- The response that carries a result. -/
def EngineOut.frame (id : Value) : EngineOut → String
  | .begin (.ok result) => result_frame X id result.encode
  | .begin (.error e) => error_frame X id e.to_rpc_error.code e.to_rpc_error.message
  | .attach (.ok result) => result_frame X id result.encode
  | .attach (.error e) => error_frame X id e.to_rpc_error.code e.to_rpc_error.message
  | .detach _ => result_frame X id (DetachResult.encode {})

variable {X} (hX : X.json.Faithful)

include hX

theorem requested_begin (resolver : DidSigningKeyResolver) (id : UInt64) (profile : ProfileAttachment)
    (pubkey_hex : String) : requested X resolver (begin_frame X id profile pubkey_hex)
      = some (Value.of (ofU64 id), .begin ⟨profile.did, pubkey_hex⟩) := by
  have hobject : ∀ v : BeginParams, nullable (Value.of v.encode) = some (Value.of v.encode) :=
    PayloadType.nullable_encode .BeginParams
  have hdecode : ∀ v : BeginParams, BeginParams.decode (Value.of v.encode).tree = some v :=
    BeginParams.decode_normalize
  unfold requested begin_frame
  rw [from_str_request_frame hX _ _ (BeginParams.plain _), hobject, Option.bind_eq_bind, Option.bind_some]
  unfold request_op
  simp only [Option.getD_some, if_true, hdecode]
  rfl

theorem requested_attach (resolver : DidSigningKeyResolver) (id : UInt64) (begin : BeginResult)
    (signature : Signature) (profile : ProfileAttachment) :
    requested X resolver (attach_frame X id begin signature profile)
      = some (Value.of (ofU64 id), .attach resolver
          ⟨begin.session_candidate, X.base64_encode signature.as_bytes, profile⟩) := by
  have hobject : ∀ v : AttachParams, nullable (Value.of v.encode) = some (Value.of v.encode) :=
    PayloadType.nullable_encode .AttachParams
  have hdecode : ∀ v : AttachParams, AttachParams.decode (Value.of v.encode).tree = some v :=
    AttachParams.decode_normalize
  have hmethod : some METHOD_ATTACH ≠ some METHOD_BEGIN := by decide
  unfold requested attach_frame
  rw [from_str_request_frame hX _ _ (AttachParams.plain _), hobject, Option.bind_eq_bind, Option.bind_some]
  unfold request_op
  simp only [Option.getD_some, if_neg hmethod, if_true, hdecode]
  rfl

theorem requested_detach (resolver : DidSigningKeyResolver) (id : UInt64) (session : Session) :
    requested X resolver (detach_frame X id session)
      = some (Value.of (ofU64 id), .detach session.session_id) := by
  have hobject : ∀ v : DetachParams, nullable (Value.of v.encode) = some (Value.of v.encode) :=
    PayloadType.nullable_encode .DetachParams
  have hdecode : ∀ v : DetachParams, DetachParams.decode (Value.of v.encode).tree = some v :=
    DetachParams.decode_normalize
  have hmethod : some METHOD_DETACH ≠ some METHOD_BEGIN := by decide
  have hmethod' : some METHOD_DETACH ≠ some METHOD_ATTACH := by decide
  unfold requested detach_frame
  rw [from_str_request_frame hX _ _ (DetachParams.plain _), hobject, Option.bind_eq_bind, Option.bind_some]
  unfold request_op
  simp only [Option.getD_some, if_neg hmethod, if_neg hmethod', if_true, hdecode]
  rfl

/-- The host answers every request that a client sends. -/
theorem Requests.requested (resolver : DidSigningKeyResolver) {client : SessionClient} {op : ClientOp}
    {id : UInt64} {request : String} {h : ClientHistory}
    (hrequests : Requests X client op id request h) :
    ∃ asks, requested X resolver request = some (Value.of (ofU64 id), asks) := by
  cases hrequests with
  | begin handshake pubkey_hex => exact ⟨_, requested_begin hX resolver _ _ _⟩
  | attach challenged signature => exact ⟨_, requested_attach hX resolver _ _ _ _⟩
  | detach detaching => exact ⟨_, requested_detach hX resolver _ _⟩

/-- A response parses, and is no callback. -/
theorem EngineOut.from_str_frame (id : UInt64) (out : EngineOut) :
    ∃ frame, IncomingFrame.from_str X (out.frame X (Value.of (ofU64 id))) = some frame ∧
      frame.method = none := by
  cases out with
  | begin result =>
    cases result with
    | error e => exact ⟨_, from_str_error_frame hX _ _ _, rfl⟩
    | ok result => exact ⟨_, from_str_result_frame hX id .BeginResult nofun result, rfl⟩
  | attach result =>
    cases result with
    | error e => exact ⟨_, from_str_error_frame hX _ _ _, rfl⟩
    | ok result => exact ⟨_, from_str_result_frame hX id .AttachResult nofun result, rfl⟩
  | detach removed => exact ⟨_, from_str_result_frame hX id .DetachResult nofun {}, rfl⟩

/-- What a client takes from a result under the id it awaits. -/
theorem outcome_of_result (id : UInt64) (t : PayloadType) (ht : t ≠ .SignCallbackParams)
    (v : t.Carrier) :
    outcome_of X t.decode id (result_frame X (Value.of (ofU64 id)) (t.encode v)) = .ok (t.reads v) := by
  rw [outcome_of_parsed X _ _ (from_str_result_frame hX id t ht v)]
  exact response_of_read id t v

/-- And from an error. -/
theorem outcome_of_error {α : Type} (decode : Json → Option α) (id : UInt64) (code : Int64)
    (message : String) :
    outcome_of X decode id (error_frame X (Value.of (ofU64 id)) code message)
      = .error (.Engine code message) := by
  rw [outcome_of_parsed X _ _ (from_str_error_frame hX _ _ _)]
  exact if_neg (not_not.mpr rfl)

end Host

/-! ## The system -/

/-- What is seen: a step of client `i`; the host gives a request of `i` to the
registry and sends the response, or drops another frame of `i`, or sends `i` a
callback; or another party calls the registry. -/
inductive NetLabel (ι : Type)
  | client (i : ι) (cl : ClientLabel)
  | dispatch (i : ι) (request : String) (op : EngineOp) (response : String)
  | skip (i : ι) (text : String)
  | callback (i : ι) (text : String)
  | other (op : EngineOp)

namespace NetLabel

variable {ι : Type}

/-- The part of client `i`. -/
def client_label [DecidableEq ι] (i : ι) : NetLabel ι → Option ClientLabel
  | client j cl => if j = i then some cl else none
  | _ => none

theorem client_label_eq_some [DecidableEq ι] {i : ι} {l : NetLabel ι} {cl : ClientLabel} :
    client_label i l = some cl ↔ l = .client i cl := by
  cases l with
  | client j cl' =>
    by_cases hji : j = i
    · simp [client_label, hji]
    · simp [client_label, hji]
  | _ => simp [client_label]

/-- The part of the registry. -/
def engine_op : NetLabel ι → Option EngineOp
  | dispatch _ _ op _ => some op
  | other op => some op
  | _ => none

end NetLabel

/-- The frames on their way. -/
structure Connection where
  to_engine : List String
  to_client : List String

/-- The clients, their connections, and the engine. -/
structure Net (ι : Type) where
  clients : ι → ClientState
  connections : ι → Connection
  registry : EngineSessionRegistry

def Net.start (ι : Type) (stream : ℕ → Nonce) : Net ι :=
  { clients := fun _ => .idle .new, connections := fun _ => ⟨[], []⟩, registry := .new stream }

section Steps

variable (X : Crates) (resolver : DidSigningKeyResolver)

/-- What a client can do on its connection. It runs `begin_and_attach` for DIDs
whose published key is the one its signer holds, and `detach`; its transport is
the connection; its signer is unlocked, and what it signs verifies. -/
inductive Serves (key : SigningPublicKey) : ClientLabel → Connection → Connection → Prop
  | begin_and_attach {profile : ProfileAttachment} {c : Connection}
      (published : resolver profile.did = some key) :
      Serves key (.call (.begin_and_attach profile)) c c
  | detach (session : Session) {c : Connection} : Serves key (.call (.detach session)) c c
  | send_frame (text : String) {c : Connection} :
      Serves key (.event ⟨.send_frame text, .ok ()⟩) c { c with to_engine := c.to_engine ++ [text] }
  | recv_frame {raw : String} {rest : List String} {c : Connection}
      (next : c.to_client = raw :: rest) :
      Serves key (.event ⟨.recv_frame, .ok raw⟩) c { c with to_client := rest }
  | signing_public_key_hex {c : Connection} :
      Serves key (.event ⟨.signing_public_key_hex, key.to_hex X⟩) c c
  | try_sign {m : Bytes} {signature : Signature} {c : Connection}
      (verifies : verify_signature X key m signature = true) :
      Serves key (.event ⟨.try_sign m, some signature⟩) c c
  | authorize (request : SignRequest) (verdict : SignDecision) {c : Connection} :
      Serves key (.event ⟨.authorize request, verdict⟩) c c
  | ret (out : Except SessionError ClientOut) {c : Connection} : Serves key (.ret out) c c

variable {ι : Type} [DecidableEq ι] (keys : ι → SigningPublicKey)

/-- One step of the system. -/
inductive NetStep : Net ι → NetLabel ι → Net ι → Prop
  | client {s : Net ι} {i : ι} {cl : ClientLabel} {client : ClientState} {c : Connection}
      (step : ClientStep X (s.clients i) cl client)
      (serves : Serves X resolver (keys i) cl (s.connections i) c) :
      NetStep s (.client i cl)
        { s with
          clients := Function.update s.clients i client,
          connections := Function.update s.connections i c }
  | dispatch {s : Net ι} {i : ι} {text : String} {rest : List String} {id : Value} {op : EngineOp}
      (next : (s.connections i).to_engine = text :: rest)
      (asks : requested X resolver text = some (id, op)) :
      NetStep s (.dispatch i text op ((op.apply X s.registry).1.frame X id))
        { s with
          connections := Function.update s.connections i
            { to_engine := rest,
              to_client := (s.connections i).to_client ++ [(op.apply X s.registry).1.frame X id] },
          registry := (op.apply X s.registry).2 }
  | skip {s : Net ι} {i : ι} {text : String} {rest : List String}
      (next : (s.connections i).to_engine = text :: rest) (reply : is_request X text = false) :
      NetStep s (.skip i text)
        { s with connections := Function.update s.connections i
                   { s.connections i with to_engine := rest } }
  | callback {s : Net ι} (i : ι) {text : String} (decodable : DecodableCallback X text) :
      NetStep s (.callback i text)
        { s with connections := Function.update s.connections i
                   { s.connections i with to_client := (s.connections i).to_client ++ [text] } }
  | other {s : Net ι} (op : EngineOp) :
      NetStep s (.other op) { s with registry := (op.apply X s.registry).2 }

end Steps

section Parts

variable {X : Crates} {resolver : DidSigningKeyResolver} {ι : Type} [DecidableEq ι]
  {keys : ι → SigningPublicKey} {stream : ℕ → Nonce}

theorem net_has_client (X : Crates) (resolver : DidSigningKeyResolver) (keys : ι → SigningPublicKey)
    (stream : ℕ → Nonce) (i : ι) : HasClient X (NetStep X resolver keys) (.start ι stream)
      (NetLabel.client_label i) (fun s => s.clients i) where
  start := rfl
  still := by
    intro s l s' hstep hview
    cases hstep with
    | @client j cl client c step serves =>
      have hne : i ≠ j := by
        rintro rfl
        simp [NetLabel.client_label] at hview
      exact Function.update_of_ne hne _ _
    | _ => rfl
  moves := by
    intro s l s' cl hstep hview
    obtain rfl := NetLabel.client_label_eq_some.mp hview
    cases hstep with
    | client step serves => simpa using step

/-- The registry of a state is the one that the calls so far leave. -/
theorem net_registry {ls : List (NetLabel ι)} {s : Net ι}
    (hrun : Machine.Run (NetStep X resolver keys) (.start ι stream) ls s) :
    s.registry = registry_after X stream NetLabel.engine_op ls := by
  refine hrun.invariant
    (I := fun ls s => s.registry = registry_after X stream NetLabel.engine_op ls) rfl ?_
  intro ls s l s' _ ih hstep
  rw [registry_after_snoc, ← ih]
  cases hstep <;> rfl

end Parts

/-! ## The invariant of a connection -/

/-- A call starts afresh. -/
def since_call {α : Type} (acc : List α) : ClientLabel → List α
  | .call _ => []
  | _ => acc

/-- The responses of the host to the requests of client `i` since its last call,
each with its request. -/
def answers {ι : Type} [DecidableEq ι] (i : ι) (ls : List (NetLabel ι)) : List (String × String) :=
  ls.foldl (fun acc l => match l with
    | .client j cl => if j = i then since_call acc cl else acc
    | .dispatch j request _ response => if j = i then acc ++ [(request, response)] else acc
    | _ => acc) []

section Flight

variable (X : Crates)

/-- The requests on their way. -/
def Connection.requests (c : Connection) : List String := c.to_engine.filter (is_request X)

/-- The responses on their way. -/
def Connection.responses (c : Connection) : List String :=
  c.to_client.filter fun text => (callback_of X text).isNone

/-- **What is on its way** belongs to the pending request, and what has been
answered is what the client has read, then what is on its way. -/
inductive InFlight (answers : List (String × String)) : Exchanges → Connection → Prop
  | quiet {x : Exchanges} {c : Connection} (pending : x.pending = none)
      (requests : c.requests X = []) (responses : c.responses X = [])
      (settled : answers = x.settled) : InFlight answers x c
  | asked {x : Exchanges} {c : Connection} {request : String} (pending : x.pending = some request)
      (requests : c.requests X = [request]) (responses : c.responses X = [])
      (settled : answers = x.settled) : InFlight answers x c
  | answered {x : Exchanges} {c : Connection} {request response : String}
      (pending : x.pending = some request) (requests : c.requests X = [])
      (responses : c.responses X = [response])
      (settled : answers = x.settled ++ [(request, response)]) : InFlight answers x c

variable (resolver : DidSigningKeyResolver) (key : SigningPublicKey)

/-- A call that the clients of this system make. -/
structure Offered (op : ClientOp) : Prop where
  requests : op ≠ .handle_next_sign_callback
  stays : ∀ profile, op ≠ .reattach profile
  published : ∀ profile, op.profile = some profile → resolver profile.did = some key

/-- **The invariant** of a client and its connection. -/
inductive Attended (answers : List (String × String)) : ClientState → Connection → Prop
  | idle {client : SessionClient} {c : Connection} (readable : ∀ raw ∈ c.to_client, Readable X raw)
      (requests : c.requests X = []) (responses : c.responses X = []) :
      Attended answers (.idle client) c
  | busy {client : SessionClient} {op : ClientOp} {h : ClientHistory} {p : ClientProc}
      {c : Connection} (readable : ∀ raw ∈ c.to_client, Readable X raw)
      (offered : Offered resolver key op) (smooth : ∀ e ∈ h, Smooth X key e)
      (flight : InFlight X answers (exchanges X h) c) : Attended answers (.busy client op h p) c

end Flight

section Preservation

variable {X : Crates} {resolver : DidSigningKeyResolver} {key : SigningPublicKey}
  {answers : List (String × String)} {state state' : ClientState} {c c' : Connection}

/-- An event that is neither a frame sent nor a frame read. -/
theorem InFlight.other {h : ClientHistory} {e : SeamEvent}
    (hflight : InFlight X answers (exchanges X h) c)
    (hother : ∀ x : Exchanges, x.record X e = x) :
    InFlight X answers (exchanges X (h ++ [e])) c := by
  rw [exchanges_snoc, hother]
  exact hflight

/-- A frame that is sent. -/
theorem InFlight.sent (hX : X.json.Faithful) {client : SessionClient} {op : ClientOp}
    {h : ClientHistory} {text : String} (hflight : InFlight X answers (exchanges X h) c)
    (hsmooth : ∀ e ∈ h, Smooth X key e)
    (hevent : ClientEvent X client op h ⟨.send_frame text, .ok ()⟩) :
    InFlight X answers (exchanges X (h ++ [⟨.send_frame text, .ok ()⟩]))
      { c with to_engine := c.to_engine ++ [text] } := by
  have happend : ({ c with to_engine := c.to_engine ++ [text] } : Connection).requests X
      = c.requests X ++ if is_request X text then [text] else [] := by
    unfold Connection.requests
    rw [List.filter_append, List.filter_singleton, cond_eq_ite]
  rcases hevent.sends with ⟨-, id, hrequests⟩ | ⟨frame, reply, -, rfl⟩
  · -- a request: nothing was pending, so nothing was on its way
    obtain ⟨hrequest, settled, hbefore⟩ := hrequests.settled hX hsmooth
    rw [exchanges_snoc, Exchanges.record_request _ hrequest]
    rw [if_pos hrequest] at happend
    rw [hbefore] at hflight ⊢
    cases hflight with
    | quiet pending requests responses settled =>
      exact .asked rfl (by rw [happend, requests]; rfl) responses settled
    | asked pending => cases pending
    | answered pending => cases pending
  · -- the reply to a callback
    have hreply := is_request_reply hX (reply_id frame) reply
    rw [hreply, if_neg Bool.false_ne_true, List.append_nil] at happend
    rw [exchanges_snoc, Exchanges.record_reply _ hreply]
    cases hflight with
    | quiet pending requests responses settled =>
      exact .quiet pending (happend.trans requests) responses settled
    | asked pending requests responses settled =>
      exact .asked pending (happend.trans requests) responses settled
    | answered pending requests responses settled =>
      exact .answered pending (happend.trans requests) responses settled

/-- A frame that is read. -/
theorem InFlight.read {h : ClientHistory} {raw : String} {rest : List String}
    (hflight : InFlight X answers (exchanges X h) c) (hnext : c.to_client = raw :: rest) :
    InFlight X answers (exchanges X (h ++ [⟨.recv_frame, .ok raw⟩])) { c with to_client := rest } := by
  have hresponses : c.responses X
      = if (callback_of X raw).isNone then raw :: rest.filter (fun t => (callback_of X t).isNone)
        else rest.filter fun t => (callback_of X t).isNone := by
    unfold Connection.responses
    rw [hnext, List.filter_cons]
  rw [exchanges_snoc]
  cases hcallback : callback_of X raw with
  | some frame =>
    -- a callback is no response
    rw [Exchanges.record_callback _ (by rw [hcallback]; rfl)]
    rw [hcallback, Option.isNone_some, if_neg Bool.false_ne_true] at hresponses
    cases hflight with
    | quiet pending requests responses settled =>
      exact .quiet pending requests (hresponses.symm.trans responses) settled
    | asked pending requests responses settled =>
      exact .asked pending requests (hresponses.symm.trans responses) settled
    | answered pending requests responses settled =>
      exact .answered pending requests (hresponses.symm.trans responses) settled
  | none =>
    rw [Exchanges.record_response _ hcallback]
    rw [hcallback, Option.isNone_none, if_pos rfl] at hresponses
    cases hflight with
    | quiet pending requests responses settled =>
      -- without a request there is no response to read
      rw [responses] at hresponses
      cases hresponses
    | asked pending requests responses settled =>
      rw [responses] at hresponses
      cases hresponses
    | @answered request response pending requests responses settled =>
      -- it is the response on its way
      rw [responses] at hresponses
      obtain ⟨rfl, hrest⟩ := List.cons.inj hresponses
      refine .quiet rfl requests hrest.symm ?_
      rw [settled, pending]
      rfl

/-- A step of the client. -/
theorem Attended.client (hX : X.json.Faithful) {cl : ClientLabel}
    (hattended : Attended X resolver key answers state c) (hstep : ClientStep X state cl state')
    (hsound : state.Sound X) (hserves : Serves X resolver key cl c c')
    (hfew : ∀ op h, state.current = some (op, h) → Unflooded X h) :
    Attended X resolver key (since_call answers cl) state' c' := by
  cases hstep with
  | @call client op =>
    cases hattended with
    | idle readable requests responses =>
      have hbusy : Offered resolver key op → Attended X resolver key []
          (.busy client op [] (op.program X client)) c :=
        fun hoffered => .busy readable hoffered nofun (.quiet rfl requests responses rfl)
      cases hserves with
      | begin_and_attach published =>
        refine hbusy ⟨nofun, nofun, fun profile hprofile => ?_⟩
        rw [← Option.some.inj hprofile]
        exact published
      | detach session => exact hbusy ⟨nofun, nofun, nofun⟩
  | @event client op h e k r =>
    have hevent : ClientEvent X client op h ⟨e, r⟩ := (hsound.2 r trivial).1
    cases hattended with
    | busy readable offered smooth flight =>
      -- whatever it is, it is an event more of the call
      have hnext : ∀ {c' : Connection}, (∀ raw ∈ c'.to_client, Readable X raw) →
          Smooth X key ⟨e, r⟩ → InFlight X answers (exchanges X (h ++ [⟨e, r⟩])) c' →
          Attended X resolver key answers (.busy client op (h ++ [⟨e, r⟩]) (k r)) c' := by
        intro c' hreadable he hflight
        refine .busy hreadable offered (fun e' he' => ?_) hflight
        rcases List.mem_append.mp he' with hold | hlast
        · exact smooth e' hold
        · rw [List.mem_singleton.mp hlast]
          exact he
      cases hserves with
      | send_frame text => exact hnext readable rfl (flight.sent hX smooth hevent)
      | recv_frame next =>
        have hraw := readable _ (by rw [next]; exact List.mem_cons_self)
        refine hnext (fun raw' hraw' => readable raw' ?_) ⟨_, rfl, hraw⟩ (flight.read next)
        rw [next]
        exact List.mem_cons_of_mem _ hraw'
      | signing_public_key_hex => exact hnext readable rfl (flight.other fun x => rfl)
      | try_sign verifies => exact hnext readable ⟨_, rfl, verifies⟩ (flight.other fun x => rfl)
      | authorize request verdict => exact hnext readable trivial (flight.other fun x => rfl)
  | @ret client client' op h out =>
    cases hattended with
    | busy readable offered smooth flight =>
      cases hserves with
      | ret out =>
        have hpending := hsound.2.1.settled hX offered.requests smooth (hfew op h rfl)
        -- so nothing is on its way
        cases flight with
        | quiet pending requests responses settled => exact .idle readable requests responses
        | asked pending =>
          rw [hpending] at pending
          cases pending
        | answered pending =>
          rw [hpending] at pending
          cases pending

/-- Only a request asks for a call. -/
theorem is_request_of_requested {text : String} {id : Value} {op : EngineOp}
    (hasks : requested X resolver text = some (id, op)) : is_request X text = true := by
  unfold requested at hasks
  unfold is_request
  cases hparse : IncomingFrame.from_str X text with
  | none =>
    rw [hparse] at hasks
    cases hasks
  | some frame =>
    rw [hparse, Option.bind_eq_bind, Option.bind_some] at hasks
    rw [Option.any_some]
    cases hmethod : frame.method with
    | some method => rfl
    | none =>
      unfold request_op at hasks
      simp [hmethod] at hasks

/-- What is not a request can go, and a callback can come. -/
theorem Attended.apart (hattended : Attended X resolver key answers state c)
    (hreadable : ∀ raw ∈ c'.to_client, Readable X raw) (hrequests : c'.requests X = c.requests X)
    (hresponses : c'.responses X = c.responses X) :
    Attended X resolver key answers state c' := by
  cases hattended with
  | idle readable requests responses =>
    exact .idle hreadable (hrequests.trans requests) (hresponses.trans responses)
  | busy readable offered smooth flight =>
    refine .busy hreadable offered smooth ?_
    cases flight with
    | quiet pending requests responses settled =>
      exact .quiet pending (hrequests.trans requests) (hresponses.trans responses) settled
    | asked pending requests responses settled =>
      exact .asked pending (hrequests.trans requests) (hresponses.trans responses) settled
    | answered pending requests responses settled =>
      exact .answered pending (hrequests.trans requests) (hresponses.trans responses) settled

theorem Attended.readable (hattended : Attended X resolver key answers state c) :
    ∀ raw ∈ c.to_client, Readable X raw := by
  cases hattended with
  | idle readable requests responses => exact readable
  | busy readable offered smooth flight => exact readable

theorem Attended.callback {text : String} (hattended : Attended X resolver key answers state c)
    (hdecodable : DecodableCallback X text) :
    Attended X resolver key answers state { c with to_client := c.to_client ++ [text] } := by
  obtain ⟨frame, hcallback, hparams⟩ := hdecodable
  refine hattended.apart (fun raw hraw => ?_) rfl ?_
  · rcases List.mem_append.mp hraw with hold | hlast
    · exact hattended.readable raw hold
    · rw [List.mem_singleton.mp hlast]
      exact ⟨frame, (callback_of_eq_some.mp hcallback).1, fun _ => hparams⟩
  · unfold Connection.responses
    rw [List.filter_append, List.filter_singleton, hcallback]
    exact List.append_nil _

/-- **A request on its way** is the one that its client's call waits for, and
when it was sent, the client had read all that the host had sent. -/
theorem Attended.pending (hX : X.json.Faithful) (hattended : Attended X resolver key answers state c)
    (hsound : state.Sound X) {request : String} {rest : List String}
    (hrequests : c.requests X = request :: rest) :
    ∃ client op h₀ id, Requests X client op id request h₀ ∧ Offered resolver key op ∧
      (∀ e ∈ h₀, Smooth X key e) ∧ exchanges X h₀ = ⟨none, answers⟩ := by
  cases hattended with
  | idle readable requests responses =>
    rw [requests] at hrequests
    cases hrequests
  | @busy client op h p c readable offered smooth flight =>
    cases flight with
    | quiet pending requests responses settled =>
      rw [requests] at hrequests
      cases hrequests
    | asked pending requests responses settled =>
      rw [requests] at hrequests
      obtain ⟨rfl, -⟩ := List.cons.inj hrequests
      rcases pending_awaiting hX offered.requests hsound.1 smooth with
        hnone | ⟨id, request, h₀, hawaited, hgrows, hexchanges⟩
      · rw [hnone] at pending
        cases pending
      · rw [hexchanges] at pending settled
        obtain rfl := Option.some.inj pending
        have hearlier : ∀ e ∈ h₀, Smooth X key e := fun e he => smooth e (hgrows.subset he)
        -- it was sent when everything before it was settled
        obtain ⟨-, before, hbefore⟩ := hawaited.settled hX hearlier
        refine ⟨client, op, h₀, id, hawaited, offered, hearlier, ?_⟩
        rw [settled, hbefore]
    | answered pending requests responses settled =>
      rw [requests] at hrequests
      cases hrequests

/-- The host answers a request. -/
theorem Attended.dispatch (hX : X.json.Faithful) {text : String} {rest : List String} {id : Value}
    {op : EngineOp} (out : EngineOut) (hattended : Attended X resolver key answers state c)
    (hsound : state.Sound X) (hnext : c.to_engine = text :: rest)
    (hasks : requested X resolver text = some (id, op)) :
    Attended X resolver key (answers ++ [(text, out.frame X id)]) state
      { to_engine := rest, to_client := c.to_client ++ [out.frame X id] } := by
  have hrequests : c.requests X = text :: rest.filter (is_request X) := by
    unfold Connection.requests
    rw [hnext, List.filter_cons, if_pos (is_request_of_requested hasks)]
  -- the request is one of the client's own, so its id is an integer
  obtain ⟨frame, hparse, hmethod⟩ : ∃ frame,
      IncomingFrame.from_str X (out.frame X id) = some frame ∧ frame.method = none := by
    obtain ⟨client, op', h₀, id', hrequest, -⟩ := hattended.pending hX hsound hrequests
    obtain ⟨asks, hasks'⟩ := hrequest.requested hX resolver
    rw [hasks] at hasks'
    obtain ⟨rfl, -⟩ := Prod.mk.inj (Option.some.inj hasks')
    exact EngineOut.from_str_frame hX id' out
  have hnone : callback_of X (out.frame X id) = none :=
    callback_of_eq_none hparse (by rw [hmethod]; exact nofun)
  have hresponses : ∀ c' : Connection, c'.to_client = c.to_client ++ [out.frame X id] →
      c'.responses X = c.responses X ++ [out.frame X id] := by
    intro c' hc'
    unfold Connection.responses
    rw [hc', List.filter_append, List.filter_singleton, hnone]
    rfl
  cases hattended with
  | idle readable requests responses =>
    -- an idle client has no request on its way
    rw [requests] at hrequests
    cases hrequests
  | busy readable offered smooth flight =>
    refine .busy (fun raw hraw => ?_) offered smooth ?_
    · rcases List.mem_append.mp hraw with hold | hlast
      · exact readable raw hold
      · rw [List.mem_singleton.mp hlast]
        exact ⟨frame, hparse, fun hsign => by rw [hmethod] at hsign; cases hsign⟩
    · cases flight with
      | quiet pending requests responses settled =>
        rw [requests] at hrequests
        cases hrequests
      | asked pending requests responses settled =>
        rw [requests] at hrequests
        obtain ⟨rfl, hrest⟩ := List.cons.inj hrequests
        refine .answered pending hrest.symm ?_ (by rw [settled])
        rw [hresponses _ rfl, responses]
        rfl
      | answered pending requests responses settled =>
        rw [requests] at hrequests
        cases hrequests

end Preservation

/-! ## The invariant of the system -/

section Run

variable {X : Crates} {resolver : DidSigningKeyResolver} {ι : Type} [DecidableEq ι]
  {keys : ι → SigningPublicKey} {stream : ℕ → Nonce}

variable (X) in
/-- At most `MAX_INTERLEAVED_CALLBACKS` callbacks come in between a request of a
client and its response. -/
def FewCallbacks (ls : List (NetLabel ι)) : Prop :=
  ∀ k i op h, in_progress (NetLabel.client_label i) (ls.take k) = some (op, h) → Unflooded X h

theorem FewCallbacks.take {ls : List (NetLabel ι)} (hfew : FewCallbacks X ls) (n : ℕ) :
    FewCallbacks X (ls.take n) := by
  intro k i op h hcall
  rw [List.take_take] at hcall
  exact hfew _ i op h hcall

theorem answers_snoc (i : ι) (ls : List (NetLabel ι)) (l : NetLabel ι) :
    answers i (ls ++ [l]) = match l with
      | .client j cl => if j = i then since_call (answers i ls) cl else answers i ls
      | .dispatch j request _ response =>
        if j = i then answers i ls ++ [(request, response)] else answers i ls
      | _ => answers i ls := List.foldl_concat _ _ _ _

/-- **Every client is attended.** -/
theorem net_attended (hX : X.json.Faithful) {ls : List (NetLabel ι)} {s : Net ι}
    (hrun : Machine.Run (NetStep X resolver keys) (.start ι stream) ls s)
    (hfew : FewCallbacks X ls) (i : ι) :
    Attended X resolver (keys i) (answers i ls) (s.clients i) (s.connections i) := by
  refine hrun.invariant (I := fun ls s => FewCallbacks X ls →
    ∀ i, Attended X resolver (keys i) (answers i ls) (s.clients i) (s.connections i)) ?_ ?_ hfew i
  · exact fun _ i => .idle nofun rfl rfl
  · intro ls s l s' hrun ih hstep hfew i
    have hbefore : FewCallbacks X ls := by
      have htake := hfew.take ls.length
      rwa [List.take_left] at htake
    have hi := ih hbefore i
    obtain ⟨hsound, hcurrent⟩ := (net_has_client X resolver keys stream i).sound hrun
    rw [answers_snoc]
    cases hstep with
    | @client j cl client c step serves =>
      by_cases hji : j = i
      · subst hji
        have hunflooded : ∀ op h, (s.clients j).current = some (op, h) → Unflooded X h := by
          intro op h hcall
          exact hbefore ls.length j op h (by rw [List.take_length, hcurrent, hcall])
        simp only [Function.update_self, if_true]
        exact hi.client hX step hsound serves hunflooded
      · -- the turn of another client
        simp only [Function.update_of_ne (Ne.symm hji), if_neg hji]
        exact hi
    | @dispatch j text rest id op next asks =>
      by_cases hji : j = i
      · subst hji
        simp only [Function.update_self, if_true]
        exact hi.dispatch hX _ hsound next asks
      · simp only [Function.update_of_ne (Ne.symm hji), if_neg hji]
        exact hi
    | @skip j text rest next reply =>
      by_cases hji : j = i
      · subst hji
        simp only [Function.update_self]
        refine hi.apart hi.readable ?_ rfl
        unfold Connection.requests
        rw [next, List.filter_cons_of_neg (by rw [reply]; exact Bool.false_ne_true)]
      · simp only [Function.update_of_ne (Ne.symm hji)]
        exact hi
    | @callback j text decodable =>
      by_cases hji : j = i
      · subst hji
        simp only [Function.update_self]
        exact hi.callback decodable
      · simp only [Function.update_of_ne (Ne.symm hji)]
        exact hi
    | other op => exact hi

end Run

end DigIpc
