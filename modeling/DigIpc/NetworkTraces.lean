/-
Runs of the system written out.

`DigIpc.Network` says what holds of every run; this file makes runs, out of a
call, an exchange, half a handshake or a detach at a time, with any number of
other clients around, each where it was before (`Net.put`). They serve the results
that exhibit a run, as those of `DigIpc.ClientTraces` do.
-/
import DigIpc.Network

set_option autoImplicit false

open Interaction Serde

namespace DigIpc

/-! ## Short runs -/

section Short

variable {X : Crates} {ι : Type} [DecidableEq ι]

/-- What a call counts, it has done. -/
theorem tally_reads_le (h : ClientHistory) : (tally X h).reads ≤ h.length := by
  induction h using List.reverseRecOn with
  | nil => exact le_rfl
  | append_singleton h e ih =>
    rw [tally_snoc, List.length_append, List.length_singleton]
    obtain ⟨e, r⟩ := e
    cases e with
    | recv_frame =>
      cases r with
      | error e => exact ih.trans (Nat.le_succ _)
      | ok raw => exact Nat.succ_le_succ ih
    | send_frame text =>
      cases howed : (tally X h).owed with
      | none =>
        rw [Tally.count_send_of_none howed]
        exact Nat.zero_le _
      | some frame =>
        rw [Tally.count_send_of_owed howed]
        exact ih.trans (Nat.le_succ _)
    | _ => exact ih.trans (Nat.le_succ _)

/-- What has happened in a call is in the log. -/
theorem in_progress_length {ℓ : Type} (view : ℓ → Option ClientLabel) (ls : List ℓ) :
    ∀ {op : ClientOp} {h : ClientHistory}, in_progress view ls = some (op, h) → h.length ≤ ls.length := by
  induction ls using List.reverseRecOn with
  | nil => exact nofun
  | append_singleton ls l ih =>
    intro op h hcall
    rw [in_progress_snoc] at hcall
    rw [List.length_append, List.length_singleton]
    cases hview : view l with
    | none =>
      rw [hview] at hcall
      exact (ih hcall).trans (Nat.le_succ _)
    | some cl =>
      rw [hview] at hcall
      cases cl with
      | call op' =>
        -- a new call starts with nothing
        obtain ⟨rfl, rfl⟩ := Prod.mk.inj (Option.some.inj hcall)
        exact Nat.zero_le _
      | ret out => cases hbefore : in_progress view ls <;> rw [hbefore] at hcall <;> cases hcall
      | event e =>
        cases hbefore : in_progress view ls with
        | none =>
          rw [hbefore] at hcall
          cases hcall
        | some current =>
          rw [hbefore] at hcall
          obtain ⟨op', h'⟩ := current
          obtain ⟨rfl, rfl⟩ := Prod.mk.inj (Option.some.inj hcall)
          rw [List.length_append, List.length_singleton]
          exact Nat.succ_le_succ (ih hbefore)

/-- In a short log there are few callbacks. -/
theorem few_callbacks_of_short {ls : List (NetLabel ι)}
    (hshort : ls.length ≤ MAX_INTERLEAVED_CALLBACKS) : FewCallbacks X ls := by
  intro k i op h hcall _
  have hreads := @tally_reads_le X h
  have hlength := in_progress_length _ _ hcall
  rw [List.length_take] at hlength
  omega

/-- In a short run no draw repeats. -/
theorem Reference.distinct_of_short {resolver : DidSigningKeyResolver} {keys : ι → SigningPublicKey}
    {ls : List (NetLabel ι)} {s : Net ι}
    (hrun : Machine.Run (NetStep X resolver keys) (.start ι Reference.stream) ls s)
    (hshort : ls.length ≤ 2 ^ 15) : s.registry.entropy.Distinct := by
  rw [net_registry hrun]
  have hle := drawn_le X Reference.stream NetLabel.engine_op ls
  exact Reference.distinct (stream_after _ _ _ _) (by omega)

end Short

/-! ## One client at a time -/

section Put

variable {ι : Type} [DecidableEq ι]

/-- Client `i`, its connection and the registry have changed. -/
def Net.put (s : Net ι) (i : ι) (client : ClientState) (c : Connection)
    (registry : EngineSessionRegistry) : Net ι :=
  { clients := Function.update s.clients i client
    connections := Function.update s.connections i c
    registry }

variable (s : Net ι) (i : ι) (client client' : ClientState) (c c' : Connection)
  (registry registry' : EngineSessionRegistry)

@[simp] theorem put_clients : (s.put i client c registry).clients i = client :=
  Function.update_self _ _ _

@[simp] theorem put_connections : (s.put i client c registry).connections i = c :=
  Function.update_self _ _ _

@[simp] theorem put_registry : (s.put i client c registry).registry = registry := rfl

@[simp] theorem put_put :
    (s.put i client c registry).put i client' c' registry' = s.put i client' c' registry' := by
  simp [Net.put]

theorem put_clients_of_ne {j : ι} (hji : j ≠ i) :
    (s.put i client c registry).clients j = s.clients j := Function.update_of_ne hji _ _

theorem put_connections_of_ne {j : ι} (hji : j ≠ i) :
    (s.put i client c registry).connections j = s.connections j := Function.update_of_ne hji _ _

/-- Its client stays where it is. -/
theorem put_same_client : s.put i (s.clients i) c registry
    = { s with connections := Function.update s.connections i c, registry } := by
  simp [Net.put]

end Put

section Blocks

variable {X : Crates} {resolver : DidSigningKeyResolver} {ι : Type} [DecidableEq ι]
  {keys : ι → SigningPublicKey} {stream : ℕ → Nonce} {ls : List (NetLabel ι)} {s : Net ι} {i : ι}
  {client : SessionClient} {op : ClientOp} {h : ClientHistory} {p q : ClientProc}

/-- A client moves. -/
theorem net_client (hrun : Machine.Run (NetStep X resolver keys) (.start ι stream) ls s)
    {cl : ClientLabel} {state : ClientState} {c : Connection}
    (hstep : ClientStep X (s.clients i) cl state)
    (hserves : Serves X resolver (keys i) cl (s.connections i) c) :
    Machine.Run (NetStep X resolver keys) (.start ι stream) (ls ++ [.client i cl])
      (s.put i state c s.registry) := hrun.step (.client hstep hserves)

/-- An idle client starts a call. -/
theorem net_call (hrun : Machine.Run (NetStep X resolver keys) (.start ι stream) ls s)
    {c : Connection} (hidle : s.clients i = .idle client)
    (hserves : Serves X resolver (keys i) (.call op) (s.connections i) c) :
    Machine.Run (NetStep X resolver keys) (.start ι stream) (ls ++ [.client i (.call op)])
      (s.put i (.busy client op [] (op.program X client)) c s.registry) := by
  have hstep : ClientStep X (s.clients i) (.call op) (.busy client op [] (op.program X client)) := by
    rw [hidle]
    exact .call op
  exact net_client hrun hstep hserves

/-- A client whose call is over returns. -/
theorem net_ret (hrun : Machine.Run (NetStep X resolver keys) (.start ι stream) ls s)
    {out : Except SessionError ClientOut} {client' : SessionClient}
    (hbusy : s.clients i = .busy client op h (.ret (out, client'))) :
    Machine.Run (NetStep X resolver keys) (.start ι stream) (ls ++ [.client i (.ret out)])
      (s.put i (.idle client') (s.connections i) s.registry) := by
  have hstep : ClientStep X (s.clients i) (.ret out) (.idle client') := by
    rw [hbusy]
    exact .ret
  exact net_client hrun hstep (.ret out)

/-- A client makes an event of the call it is in. -/
theorem net_event (hrun : Machine.Run (NetStep X resolver keys) (.start ι stream) ls s)
    {e : SeamEvent} {c : Connection} (hbusy : s.clients i = .busy client op h p)
    (hperforms : Proc.Run p [e] q) (hserves : Serves X resolver (keys i) (.event e) (s.connections i) c) :
    Machine.Run (NetStep X resolver keys) (.start ι stream) (ls ++ [.client i (.event e)])
      (s.put i (.busy client op (h ++ [e]) q) c s.registry) := by
  obtain ⟨e, r⟩ := e
  obtain ⟨k, rfl, hrest⟩ := hperforms.cons_inv
  generalize hk : k r = p at hrest
  cases hrest
  have hstep : ClientStep X (s.clients i) (.event ⟨e, r⟩) (.busy client op (h ++ [⟨e, r⟩]) (k r)) := by
    rw [hbusy]
    exact .event r
  rw [hk] at hstep
  exact net_client hrun hstep hserves

/-- The host answers the next request. -/
theorem net_dispatch (hrun : Machine.Run (NetStep X resolver keys) (.start ι stream) ls s)
    {request response : String} {rest : List String} {id : Value} {asked : EngineOp}
    (hnext : (s.connections i).to_engine = request :: rest)
    (hasks : requested X resolver request = some (id, asked))
    (hresponse : (asked.apply X s.registry).1.frame X id = response) :
    Machine.Run (NetStep X resolver keys) (.start ι stream)
      (ls ++ [.dispatch i request asked response])
      (s.put i (s.clients i) ⟨rest, (s.connections i).to_client ++ [response]⟩
        (asked.apply X s.registry).2) := by
  rw [put_same_client, ← hresponse]
  exact hrun.step (.dispatch hnext hasks)

/-- The host drops the next frame. -/
theorem net_skip (hrun : Machine.Run (NetStep X resolver keys) (.start ι stream) ls s)
    {text : String} {rest : List String} (hnext : (s.connections i).to_engine = text :: rest)
    (hreply : is_request X text = false) :
    Machine.Run (NetStep X resolver keys) (.start ι stream) (ls ++ [.skip i text])
      (s.put i (s.clients i) { s.connections i with to_engine := rest } s.registry) := by
  rw [put_same_client]
  exact hrun.step (.skip hnext hreply)

/-- The host sends a callback. -/
theorem net_callback (hrun : Machine.Run (NetStep X resolver keys) (.start ι stream) ls s) (i : ι)
    {text : String} (hdecodable : DecodableCallback X text) :
    Machine.Run (NetStep X resolver keys) (.start ι stream) (ls ++ [.callback i text])
      (s.put i (s.clients i) { s.connections i with
        to_client := (s.connections i).to_client ++ [text] } s.registry) := by
  rw [put_same_client]
  exact hrun.step (.callback i hdecodable)

/-- **One exchange** on an empty connection: a request, its processing, and its
response. -/
theorem net_exchange (hrun : Machine.Run (NetStep X resolver keys) (.start ι stream) ls s)
    (hbusy : s.clients i = .busy client op h p) (hempty : s.connections i = ⟨[], []⟩)
    {request response : String} {id : Value} {asked : EngineOp}
    (hasks : requested X resolver request = some (id, asked))
    (hresponse : (asked.apply X s.registry).1.frame X id = response)
    (hperforms : Proc.Run p [⟨.send_frame request, .ok ()⟩, ⟨.recv_frame, .ok response⟩] q) :
    Machine.Run (NetStep X resolver keys) (.start ι stream)
      (ls ++ [.client i (.event ⟨.send_frame request, .ok ()⟩), .dispatch i request asked response,
        .client i (.event ⟨.recv_frame, .ok response⟩)])
      (s.put i (.busy client op
          (h ++ [⟨.send_frame request, .ok ()⟩, ⟨.recv_frame, .ok response⟩]) q) ⟨[], []⟩
        (asked.apply X s.registry).2) := by
  obtain ⟨p', hsend, hrecv⟩ := @Proc.Run.append_inv _ _ _ _ _ [_] [_] hperforms
  have hrun₁ := net_event hrun hbusy hsend (.send_frame request)
  rw [hempty] at hrun₁
  have hrun₂ := net_dispatch hrun₁ (by rw [put_connections]; rfl) hasks hresponse
  rw [put_put, put_clients, put_connections, put_registry] at hrun₂
  -- the response is the only frame on the connection
  have hrun₃ := net_event hrun₂ (put_clients _ _ _ _ _) hrecv
    (.recv_frame (by rw [put_connections]; rfl))
  rw [put_put, put_connections, put_registry] at hrun₃
  simpa [List.append_assoc] using hrun₃

/-- **An exchange with a callback**: before its response the client reads a callback, which it
asks its owner about, who denies it. -/
theorem net_exchange_callback (hrun : Machine.Run (NetStep X resolver keys) (.start ι stream) ls s)
    (hbusy : s.clients i = .busy client op h p) (hempty : s.connections i = ⟨[], []⟩)
    {request callback refusal response reason : String} {id : Value} {asked : EngineOp}
    {sign : SignRequest} (hasks : requested X resolver request = some (id, asked))
    (hdecodable : DecodableCallback X callback) (hreply : is_request X refusal = false)
    (hresponse : (asked.apply X s.registry).1.frame X id = response)
    (hperforms : Proc.Run p [⟨.send_frame request, .ok ()⟩, ⟨.recv_frame, .ok callback⟩,
      ⟨.authorize sign, .Deny reason⟩, ⟨.send_frame refusal, .ok ()⟩,
      ⟨.recv_frame, .ok response⟩] q) :
    Machine.Run (NetStep X resolver keys) (.start ι stream)
      (ls ++ [.client i (.event ⟨.send_frame request, .ok ()⟩), .callback i callback,
        .dispatch i request asked response, .client i (.event ⟨.recv_frame, .ok callback⟩),
        .client i (.event ⟨.authorize sign, .Deny reason⟩),
        .client i (.event ⟨.send_frame refusal, .ok ()⟩), .skip i refusal,
        .client i (.event ⟨.recv_frame, .ok response⟩)])
      (s.put i (.busy client op (h ++ [⟨.send_frame request, .ok ()⟩, ⟨.recv_frame, .ok callback⟩,
          ⟨.authorize sign, .Deny reason⟩, ⟨.send_frame refusal, .ok ()⟩,
          ⟨.recv_frame, .ok response⟩]) q) ⟨[], []⟩
        (asked.apply X s.registry).2) := by
  obtain ⟨p₁, hsend, hrest⟩ := @Proc.Run.append_inv _ _ _ _ _ (_ :: _ :: _ :: [_]) [_] hperforms
  obtain ⟨p₂, hread, hrest⟩ := @Proc.Run.append_inv _ _ _ _ _ (_ :: _ :: [_]) [_] hrest
  obtain ⟨p₃, hask, hrest⟩ := @Proc.Run.append_inv _ _ _ _ _ (_ :: [_]) [_] hrest
  obtain ⟨p₄, hrefuse, hrecv⟩ := @Proc.Run.append_inv _ _ _ _ _ [_] [_] hrest
  -- the request and the callback cross
  have hrun₁ := net_event hrun hbusy hsend (.send_frame request)
  rw [hempty] at hrun₁
  have hrun₂ := net_callback hrun₁ i hdecodable
  rw [put_put, put_clients, put_connections, put_registry] at hrun₂
  have hrun₃ := net_dispatch hrun₂ (by rw [put_connections]; rfl) hasks hresponse
  rw [put_put, put_clients, put_connections, put_registry] at hrun₃
  -- the client answers the callback before it reads on
  have hrun₄ := net_event hrun₃ (put_clients _ _ _ _ _) hread
    (.recv_frame (by rw [put_connections]; rfl))
  rw [put_put, put_connections, put_registry] at hrun₄
  have hrun₅ := net_event hrun₄ (put_clients _ _ _ _ _) hask (.authorize sign _)
  rw [put_put, put_connections, put_registry] at hrun₅
  have hrun₆ := net_event hrun₅ (put_clients _ _ _ _ _) hrefuse (.send_frame refusal)
  rw [put_put, put_connections, put_registry] at hrun₆
  have hrun₇ := net_skip hrun₆ (by rw [put_connections]; rfl) hreply
  rw [put_put, put_clients, put_connections, put_registry] at hrun₇
  have hrun₈ := net_event hrun₇ (put_clients _ _ _ _ _) hrecv
    (.recv_frame (by rw [put_connections]; rfl))
  rw [put_put, put_connections, put_registry] at hrun₈
  simpa [List.append_assoc] using hrun₈

/-! ## Half a handshake at a time -/

/-- What is left of a handshake that has its challenge: the client signs, sends its `attach`, and
returns what is read after it. -/
def AtChallenge (X : Crates) (client : SessionClient) (profile : ProfileAttachment)
    (begin : BeginResult) (nonce : Bytes) (p : ClientProc) : Prop :=
  ∀ (signature : Signature) {tr : ClientHistory} {res : Except SessionError AttachResult}
    {client' : SessionClient},
    Performs (read_response X AttachResult.decode (client.next_id + 1))
      { next_id := client.next_id + 1 + 1 } tr res client' →
    Proc.Run p (⟨.try_sign (challenge_message nonce profile.did), some signature⟩ ::
        ⟨.send_frame (attach_frame X (client.next_id + 1) begin signature profile), .ok ()⟩ :: tr)
      (.ret (res.map fun attach => .session { session_id := attach.session_id,
                                              engine_capabilities := attach.engine_capabilities,
                                              profile_did := profile.did }, client'))

/-- The first half of a handshake, to its challenge. -/
def begin_log (X : Crates) (i : ι) (id : UInt64) (profile : ProfileAttachment)
    (key : SigningPublicKey) (begin : BeginResult) : List (NetLabel ι) :=
  let request := begin_frame X id profile (key.to_hex X)
  let response := result_frame X (Value.of (ofU64 id)) begin.encode
  [.client i (.call (.begin_and_attach profile)),
    .client i (.event ⟨.signing_public_key_hex, key.to_hex X⟩),
    .client i (.event ⟨.send_frame request, .ok ()⟩),
    .dispatch i request (.begin ⟨profile.did, key.to_hex X⟩) response,
    .client i (.event ⟨.recv_frame, .ok response⟩)]

/-- The second half, up to the response. -/
def attach_log (X : Crates) (resolver : DidSigningKeyResolver) (i : ι) (id : UInt64)
    (profile : ProfileAttachment) (begin : BeginResult) (nonce : Nonce) (signature : Signature)
    (attach : AttachResult) : List (NetLabel ι) :=
  let request := attach_frame X id begin signature profile
  let response := result_frame X (Value.of (ofU64 id)) attach.encode
  [.client i (.event ⟨.try_sign (challenge_message nonce.val profile.did), some signature⟩),
    .client i (.event ⟨.send_frame request, .ok ()⟩),
    .dispatch i request (.attach resolver ⟨begin.session_candidate,
      X.base64_encode signature.as_bytes, profile⟩) response,
    .client i (.event ⟨.recv_frame, .ok response⟩)]

/-- **An idle client begins.** -/
theorem net_begins (hX : X.Faithful)
    (hrun : Machine.Run (NetStep X resolver keys) (.start ι stream) ls s)
    (hidle : s.clients i = .idle client) (hempty : s.connections i = ⟨[], []⟩)
    {profile : ProfileAttachment} (hpublished : resolver profile.did = some (keys i)) :
    ∃ h p, Machine.Run (NetStep X resolver keys) (.start ι stream)
        (ls ++ begin_log X i client.next_id profile (keys i) (s.registry.offer X))
        (s.put i (.busy client (.begin_and_attach profile) h p) ⟨[], []⟩
          (s.registry.remember X (keys i) profile.did)) ∧
      AtChallenge X client profile (s.registry.offer X)
        (s.registry.entropy.stream s.registry.entropy.drawn).val p := by
  obtain ⟨rest, hperforms, hrest⟩ := performs_challenge profile ((keys i).to_hex X)
    (from_str_result_frame hX.json client.next_id .BeginResult nofun (s.registry.offer X)) nofun
    (response_of_read client.next_id .BeginResult _) (hX.base64 _)
    (s.registry.entropy.stream s.registry.entropy.drawn).property
  -- the key is asked first; then comes the exchange
  obtain ⟨p, hkey, hbegin⟩ := @Proc.Run.append_inv _ _ _ _ _ [_, _] [_] hperforms
  have hrun₁ := net_call hrun hidle (.begin_and_attach hpublished)
  rw [hempty] at hrun₁
  have hrun₂ := net_event hrun₁ (put_clients _ _ _ _ _) hkey .signing_public_key_hex
  rw [put_put, put_connections, put_registry] at hrun₂
  have hresponse := congrArg (fun result => EngineOut.frame X (Value.of (ofU64 client.next_id))
    (.begin result.1)) (begin_to_hex hX s.registry (keys i) profile.did)
  have hrun₃ := net_exchange hrun₂ (put_clients _ _ _ _ _) (put_connections _ _ _ _ _)
    (requested_begin hX.json resolver client.next_id profile ((keys i).to_hex X)) hresponse hbegin
  rw [put_put, put_registry] at hrun₃
  have hremember : (EngineOp.apply X s.registry (.begin ⟨profile.did, (keys i).to_hex X⟩)).2
      = s.registry.remember X (keys i) profile.did :=
    congrArg Prod.snd (begin_to_hex hX s.registry (keys i) profile.did)
  rw [hremember, List.append_assoc, List.append_assoc] at hrun₃
  exact ⟨_, _, hrun₃, hrest⟩

/-- **A client whose candidate is outstanding attaches**, and returns the session. -/
theorem net_attaches (hX : X.Faithful)
    (hrun : Machine.Run (NetStep X resolver keys) (.start ι stream) ls s)
    {profile : ProfileAttachment} {begin : BeginResult} {nonce : Nonce} {signature : Signature}
    {attach : AttachResult}
    (hbusy : s.clients i = .busy client (.begin_and_attach profile) h p)
    (hempty : s.connections i = ⟨[], []⟩) (hchallenge : AtChallenge X client profile begin nonce.val p)
    (hpending : s.registry.pending[begin.session_candidate]? = some ⟨nonce, keys i, profile.did⟩)
    (hpublished : resolver profile.did = some (keys i))
    (hverify : verify_signature X (keys i) (challenge_message nonce.val profile.did) signature = true)
    (hattach : attach = { session_id := X.hex_encode
                            (s.registry.entropy.stream s.registry.entropy.drawn).val,
                          engine_capabilities := ENGINE_CAPABILITIES }) :
    Machine.Run (NetStep X resolver keys) (.start ι stream)
      (ls ++ (attach_log X resolver i (client.next_id + 1) profile begin nonce signature attach
        ++ [.client i (.ret (.ok (.session ⟨attach.session_id, attach.engine_capabilities,
              profile.did⟩)))]))
      (s.put i (.idle { next_id := client.next_id + 1 + 1 }) ⟨[], []⟩
        ((s.registry.without begin.session_candidate).open_session X profile)) := by
  have hperforms := hchallenge signature (performs_read_response
    (from_str_result_frame hX.json (client.next_id + 1) .AttachResult nofun attach) nofun
    (response_of_read (client.next_id + 1) .AttachResult _))
  -- the challenge is signed first; then comes the exchange
  obtain ⟨p₁, hsign, hattaches⟩ := @Proc.Run.append_inv _ _ _ _ _ [_, _] [_] hperforms
  have hrun₁ := net_event hrun hbusy hsign (.try_sign hverify)
  rw [hempty] at hrun₁
  have hadmitted := attach_admitted hX hpending hpublished hverify
  rw [← hattach] at hadmitted
  have hresponse := congrArg (fun result => EngineOut.frame X (Value.of (ofU64 (client.next_id + 1)))
    (.attach result.1)) hadmitted
  have hrun₂ := net_exchange hrun₁ (put_clients _ _ _ _ _) (put_connections _ _ _ _ _)
    (requested_attach hX.json resolver (client.next_id + 1) begin signature profile) hresponse hattaches
  rw [put_put, put_registry] at hrun₂
  have hopened : (EngineOp.apply X s.registry (.attach resolver
      ⟨begin.session_candidate, X.base64_encode signature.as_bytes, profile⟩)).2
        = (s.registry.without begin.session_candidate).open_session X profile :=
    congrArg Prod.snd hadmitted
  rw [hopened] at hrun₂
  have hret := net_ret hrun₂ (put_clients _ _ _ _ _)
  rw [put_put, put_connections, put_registry] at hret
  rw [List.append_assoc ls, List.append_assoc ls] at hret
  exact hret

/-! ## A detach -/

/-- A `detach`, up to its response. -/
def net_detach_log (X : Crates) (i : ι) (id : UInt64) (session : Session) : List (NetLabel ι) :=
  let request := detach_frame X id session
  let response := result_frame X (Value.of (ofU64 id)) (DetachResult.encode {})
  [.client i (.call (.detach session)), .client i (.event ⟨.send_frame request, .ok ()⟩),
    .dispatch i request (.detach session.session_id) response,
    .client i (.event ⟨.recv_frame, .ok response⟩)]

/-- **An idle client detaches a session.** -/
theorem net_detaches (hX : X.Faithful)
    (hrun : Machine.Run (NetStep X resolver keys) (.start ι stream) ls s)
    (hidle : s.clients i = .idle client) (hempty : s.connections i = ⟨[], []⟩) (session : Session) :
    Machine.Run (NetStep X resolver keys) (.start ι stream)
      (ls ++ (net_detach_log X i client.next_id session ++ [.client i (.ret (.ok .detached))]))
      (s.put i (.idle { next_id := client.next_id + 1 }) ⟨[], []⟩
        (s.registry.detach session.session_id).2) := by
  have hperforms : Performs ((ClientOp.detach session).program X) client _ (.ok .detached)
      { next_id := client.next_id + 1 } :=
    performs_detach session (performs_read_response
      (from_str_result_frame hX.json client.next_id .DetachResult nofun {}) nofun
      (response_of_read client.next_id .DetachResult {}))
  have hrun₁ := net_call hrun hidle (.detach session)
  rw [hempty] at hrun₁
  have hrun₂ := net_exchange hrun₁ (put_clients _ _ _ _ _) (put_connections _ _ _ _ _)
    (requested_detach hX.json resolver client.next_id session) rfl hperforms
  rw [put_put, put_registry] at hrun₂
  have hret := net_ret hrun₂ (put_clients _ _ _ _ _)
  rw [put_put, put_connections, put_registry] at hret
  rw [List.append_assoc ls, List.append_assoc ls] at hret
  exact hret

/-- A `detach` in which a callback comes in, up to its response. -/
def net_detach_callback_log (X : Crates) (i : ι) (id : UInt64) (session : Session) (callback : String)
    (sign : SignRequest) (reason refusal : String) : List (NetLabel ι) :=
  let request := detach_frame X id session
  let response := result_frame X (Value.of (ofU64 id)) (DetachResult.encode {})
  [.client i (.call (.detach session)), .client i (.event ⟨.send_frame request, .ok ()⟩),
    .callback i callback, .dispatch i request (.detach session.session_id) response,
    .client i (.event ⟨.recv_frame, .ok callback⟩),
    .client i (.event ⟨.authorize sign, .Deny reason⟩),
    .client i (.event ⟨.send_frame refusal, .ok ()⟩), .skip i refusal,
    .client i (.event ⟨.recv_frame, .ok response⟩)]

/-- **An idle client detaches a session**, and on the way its owner denies a callback. -/
theorem net_detaches_callback (hX : X.Faithful)
    (hrun : Machine.Run (NetStep X resolver keys) (.start ι stream) ls s)
    (hidle : s.clients i = .idle client) (hempty : s.connections i = ⟨[], []⟩) (session : Session)
    {callback : String} {frame : IncomingFrame} {params : SignCallbackParams} {payload : Bytes}
    (hcallback : callback_of X callback = some frame) (hparams : callback_params frame = some params)
    (hpayload : X.base64_decode params.payload_b64 = some payload) (reason : String) :
    Machine.Run (NetStep X resolver keys) (.start ι stream)
      (ls ++ (net_detach_callback_log X i client.next_id session callback
        (sign_request params payload) reason (refusal_frame X frame .SignDenied reason)
        ++ [.client i (.ret (.ok .detached))]))
      (s.put i (.idle { next_id := client.next_id + 1 }) ⟨[], []⟩
        (s.registry.detach session.session_id).2) := by
  obtain ⟨hparse, hmethod⟩ := callback_of_eq_some.mp hcallback
  have hperforms : Performs ((ClientOp.detach session).program X) client _ (.ok .detached)
      { next_id := client.next_id + 1 } :=
    performs_detach session (performs_read_callback hparse hmethod
      (performs_service_denied { next_id := client.next_id + 1 } hparams hpayload reason)
      (from_str_result_frame hX.json client.next_id .DetachResult nofun {}) nofun
      (response_of_read client.next_id .DetachResult {}))
  have hrun₁ := net_call hrun hidle (.detach session)
  rw [hempty] at hrun₁
  have hrefusal : is_request X (refusal_frame X frame .SignDenied reason) = false :=
    is_request_reply hX.json (reply_id frame)
      (.error { code := SignErrorCode.SignDenied.code, message := reason })
  have hrun₂ := net_exchange_callback hrun₁ (put_clients _ _ _ _ _) (put_connections _ _ _ _ _)
    (requested_detach hX.json resolver client.next_id session)
    ⟨frame, hcallback, by rw [hparams]; rfl⟩ hrefusal rfl hperforms
  rw [put_put, put_registry] at hrun₂
  have hret := net_ret hrun₂ (put_clients _ _ _ _ _)
  rw [put_put, put_connections, put_registry] at hret
  rw [List.append_assoc ls, List.append_assoc ls] at hret
  exact hret

/-! ## Whole handshakes -/

/-- The session that the draw `n` names. -/
def session_drawn (X : Crates) (stream : ℕ → Nonce) (n : ℕ) (profile : ProfileAttachment) : Session :=
  { session_id := X.hex_encode (stream n).val, engine_capabilities := ENGINE_CAPABILITIES,
    profile_did := profile.did }

/-- The second half of a handshake of a new client, with its return. -/
def session_log (X : Crates) (resolver : DidSigningKeyResolver) (stream : ℕ → Nonce) (i : ι)
    (profile : ProfileAttachment) (signature : Signature) (b n : ℕ) : List (NetLabel ι) :=
  attach_log X resolver i 2 profile (offered X stream b) (stream b) signature
      { session_id := X.hex_encode (stream n).val, engine_capabilities := ENGINE_CAPABILITIES }
    ++ [.client i (.ret (.ok (.session (session_drawn X stream n profile))))]

/-- A whole handshake, the first of all. -/
def handshake_log (X : Crates) (resolver : DidSigningKeyResolver) (key : SigningPublicKey)
    (stream : ℕ → Nonce) (i : ι) (profile : ProfileAttachment) (signature : Signature) :
    List (NetLabel ι) :=
  begin_log X i 1 profile key (offered X stream 0)
    ++ session_log X resolver stream i profile signature 0 2

/-- **A handshake, and nothing else.** -/
theorem handshake_run (hX : X.Faithful) {profile : ProfileAttachment} {signature : Signature}
    (hpublished : resolver profile.did = some (keys i))
    (hverify : verify_signature X (keys i) (challenge_message (stream 0).val profile.did) signature
      = true) :
    ∃ s, Machine.Run (NetStep X resolver keys) (.start ι stream)
        (handshake_log X resolver (keys i) stream i profile signature) s ∧
      s.clients i = .idle { next_id := 3 } ∧ s.connections i = ⟨[], []⟩ := by
  obtain ⟨h, p, hbegun, hchallenge⟩ :=
    net_begins hX (@Machine.Run.start _ _ (NetStep X resolver keys) (.start ι stream)) rfl rfl hpublished
  have hsession := net_attaches hX hbegun (put_clients _ _ _ _ _) (put_connections _ _ _ _ _) hchallenge
    (remember_pending_self X (.new stream) (keys i) profile.did) hpublished hverify rfl
  rw [List.nil_append] at hsession
  exact ⟨_, hsession, put_clients _ _ _ _ _, put_connections _ _ _ _ _⟩

/-- Two handshakes, the second of which begins before the first attaches. -/
def two_handshakes_log (X : Crates) (resolver : DidSigningKeyResolver) (keys : ι → SigningPublicKey)
    (stream : ℕ → Nonce) (profiles : ι → ProfileAttachment) (signatures : ι → Signature)
    (i j : ι) : List (NetLabel ι) :=
  begin_log X i 1 (profiles i) (keys i) (offered X stream 0)
    ++ begin_log X j 1 (profiles j) (keys j) (offered X stream 2)
    ++ session_log X resolver stream i (profiles i) (signatures i) 0 4
    ++ session_log X resolver stream j (profiles j) (signatures j) 2 5

/-- **Two clients make their handshakes at the same time.** -/
theorem two_handshakes_run (hX : X.Faithful) {profiles : ι → ProfileAttachment}
    {signatures : ι → Signature} {j : ι} (hji : j ≠ i) (hfresh : stream 1 ≠ stream 3)
    (hpublished : ∀ k, resolver (profiles k).did = some (keys k))
    (hverify : verify_signature X (keys i) (challenge_message (stream 0).val (profiles i).did)
      (signatures i) = true)
    (hverify' : verify_signature X (keys j) (challenge_message (stream 2).val (profiles j).did)
      (signatures j) = true) :
    ∃ s, Machine.Run (NetStep X resolver keys) (.start ι stream)
        (two_handshakes_log X resolver keys stream profiles signatures i j) s ∧
      (s.clients i = .idle { next_id := 3 } ∧ s.connections i = ⟨[], []⟩) ∧
      (s.clients j = .idle { next_id := 3 } ∧ s.connections j = ⟨[], []⟩) := by
  have hcandidates : X.hex_encode (stream 1).val ≠ X.hex_encode (stream 3).val :=
    fun heq => hfresh (Subtype.ext (hX.hex_injective heq))
  have hroom : ((EngineSessionRegistry.new stream).remember X (keys i) (profiles i).did).pending.size
      < MAX_PENDING_CANDIDATES := Nat.lt_of_le_of_lt (first_remembered_size X stream _ _) (by decide)
  have hij := hji.symm
  obtain ⟨h₁, p₁, hrun₁, hchallenge₁⟩ := net_begins hX
    (@Machine.Run.start _ _ (NetStep X resolver keys) (.start ι stream)) rfl rfl (hpublished i)
  obtain ⟨h₂, p₂, hrun₂, hchallenge₂⟩ := net_begins hX hrun₁ (put_clients_of_ne _ _ _ _ _ hji)
    (put_connections_of_ne _ _ _ _ _ hji) (hpublished j)
  -- the second candidate is another one, and there is room for both
  have hpending₁ := remember_pending_of_ne (keys j) (profiles j).did hroom hcandidates.symm
  have hrun₃ := net_attaches hX hrun₂
    ((put_clients_of_ne _ _ _ _ _ hij).trans (put_clients _ _ _ _ _))
    ((put_connections_of_ne _ _ _ _ _ hij).trans (put_connections _ _ _ _ _)) hchallenge₁
    (hpending₁.trans (remember_pending_self X (.new stream) (keys i) (profiles i).did))
    (hpublished i) hverify rfl
  have hpending₂ := @open_session_pending_of_ne X (((EngineSessionRegistry.new stream).remember X
    (keys i) (profiles i).did).remember X (keys j) (profiles j).did) _ _ (profiles i) hcandidates
  have hrun₄ := net_attaches hX hrun₃
    ((put_clients_of_ne _ _ _ _ _ hji).trans (put_clients _ _ _ _ _))
    ((put_connections_of_ne _ _ _ _ _ hji).trans (put_connections _ _ _ _ _)) hchallenge₂
    (hpending₂.trans (remember_pending_self X _ (keys j) (profiles j).did)) (hpublished j) hverify' rfl
  refine ⟨_, hrun₄, ⟨?_, ?_⟩, put_clients _ _ _ _ _, put_connections _ _ _ _ _⟩
  · rw [put_clients_of_ne _ _ _ _ _ hij, put_clients]
    rfl
  · rw [put_connections_of_ne _ _ _ _ _ hij, put_connections]

end Blocks

end DigIpc
