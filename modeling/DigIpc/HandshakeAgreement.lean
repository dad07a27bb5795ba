/-
The two halves agree on every handshake.

A handshake that returns has had its `begin` and its `attach` processed by the
registry, in this order, and nothing else of its client in between
(`answers_last`). Its `attach` names the candidate of its own `begin`
(`attach_origin`), and since candidates are not drawn twice, no other client's
does; so unless 256 later `begin`s have pushed the candidate out
(`candidate_followed`), it is there, with the key, the nonce and the DID of this
very handshake, and every check of `attach` passes.
-/
import DigIpc.NetworkTraces

set_option autoImplicit false

open Interaction Serde
open StdIo (Error)

namespace DigIpc

section Agreement

variable {X : Crates} {resolver : DidSigningKeyResolver} {ι : Type} [DecidableEq ι]
  {keys : ι → SigningPublicKey} {stream : ℕ → Nonce} {ls : List (NetLabel ι)} {s : Net ι}

/-! ## Places of the log -/

/-- Neither a call of client `i` nor a response to it. -/
def Aside (i : ι) (l : NetLabel ι) : Prop :=
  (∀ op, l ≠ .client i (.call op)) ∧ ∀ request op response, l ≠ .dispatch i request op response

/-- What is aside changes no answers. -/
theorem Aside.answers {i : ι} {l : NetLabel ι} (haside : Aside i l) (ls : List (NetLabel ι)) :
    answers i (ls ++ [l]) = answers i ls := by
  obtain ⟨hcall, hdispatch⟩ := haside
  rw [answers_snoc]
  cases l with
  | client j cl =>
    by_cases hji : j = i
    · subst hji
      simp only [if_true]
      cases cl with
      | call op => exact absurd rfl (hcall op)
      | event e => rfl
      | ret out => rfl
    · exact if_neg hji
  | dispatch j request op response =>
    by_cases hji : j = i
    · subst hji
      exact absurd rfl (hdispatch request op response)
    · exact if_neg hji
  | _ => rfl

/-- **The last answer** was given at a place of the log, after the answers before
it, and neither a call nor a response is between it and the end. -/
theorem answers_last {i : ι} {n : ℕ} {before : List (String × String)} {request response : String}
    (hlast : answers i (ls.take n) = before ++ [(request, response)]) :
    ∃ a op, a < n ∧ ls[a]? = some (.dispatch i request op response) ∧
      answers i (ls.take a) = before ∧ ∀ j l, a < j → j < n → ls[j]? = some l → Aside i l := by
  induction n with
  | zero => simp [answers] at hlast
  | succ n ih =>
    rw [List.take_add_one] at hlast
    cases hl : ls[n]? with
    | none =>
      -- the log is no longer
      rw [hl, Option.toList_none, List.append_nil] at hlast
      obtain ⟨a, op, ha, hla, hbefore, haside⟩ := ih hlast
      refine ⟨a, op, by omega, hla, hbefore, fun j l haj hjn hlj => ?_⟩
      by_cases hlt : j < n
      · exact haside j l haj hlt hlj
      · obtain rfl : j = n := by omega
        rw [hl] at hlj
        cases hlj
    | some l =>
      rw [hl, Option.toList_some] at hlast
      by_cases haside : Aside i l
      · rw [haside.answers] at hlast
        obtain ⟨a, op, ha, hla, hbefore, hbetween⟩ := ih hlast
        refine ⟨a, op, by omega, hla, hbefore, fun j l' haj hjn hlj => ?_⟩
        by_cases hlt : j < n
        · exact hbetween j l' haj hlt hlj
        · obtain rfl : j = n := by omega
          rw [hl] at hlj
          rwa [← Option.some.inj hlj]
      · -- the last label is the answer itself: after a call there is none
        by_cases hcall : ∃ op, l = .client i (.call op)
        · obtain ⟨op, rfl⟩ := hcall
          rw [answers_snoc] at hlast
          simp [since_call] at hlast
        · obtain ⟨request', op, response', rfl⟩ :
              ∃ request' op response', l = .dispatch i request' op response' := by
            by_contra hdispatch
            push Not at hcall hdispatch
            exact haside ⟨hcall, hdispatch⟩
          rw [answers_snoc] at hlast
          simp only [if_true] at hlast
          obtain ⟨hbefore, hpair⟩ := List.append_inj' hlast rfl
          obtain ⟨rfl, rfl⟩ := Prod.mk.inj (List.head_eq_of_cons_eq hpair)
          exact ⟨n, op, by omega, hl, hbefore, fun j l' haj hjn => by omega⟩

/-! ## What the host has done -/

/-- A request and its response, where the host has processed it. -/
theorem dispatched (hrun : Machine.Run (NetStep X resolver keys) (.start ι stream) ls s) {a : ℕ}
    {i : ι} {request response : String} {op : EngineOp}
    (hl : ls[a]? = some (.dispatch i request op response)) :
    ∃ id, requested X resolver request = some (id, op) ∧
      response = (op.apply X (registry_after X stream NetLabel.engine_op (ls.take a))).1.frame X id := by
  obtain ⟨s₁, s₂, hrun₁, hstep, -⟩ := hrun.at hl
  rw [← net_registry hrun₁]
  cases hstep with
  | dispatch next asks => exact ⟨_, asks, rfl⟩

/-- The host has processed the `begin` of a handshake of client `i` at `b`. -/
structure BeginServed (X : Crates) (stream : ℕ → Nonce) (key : SigningPublicKey) (i : ι)
    (ls : List (NetLabel ι)) (profile : ProfileAttachment) (begin : BeginResult) (b : ℕ) : Prop where
  place : ∃ request response, ls[b]? = some
    (.dispatch i request (.begin ⟨profile.did, key.to_hex X⟩) response)
  begun : Begun X stream NetLabel.engine_op ls b ⟨profile.did, key.to_hex X⟩ begin

/-- **The response to a `begin`** is the registry's: it succeeds, and its nonce
decodes. -/
theorem begin_served (hX : X.Faithful)
    (hrun : Machine.Run (NetStep X resolver keys) (.start ι stream) ls s) {b : ℕ} {i : ι}
    {id : UInt64} {profile : ProfileAttachment} {key : SigningPublicKey} {op : EngineOp}
    {response : String}
    (hl : ls[b]? = some (.dispatch i (begin_frame X id profile (key.to_hex X)) op response)) :
    ∃ begin, outcome_of X BeginResult.decode id response = .ok begin ∧
      X.base64_decode begin.nonce_b64
        = some (begin_nonce X stream NetLabel.engine_op ls b).val ∧
      BeginServed X stream key i ls profile begin b := by
  obtain ⟨id', hasks, hresponse⟩ := dispatched hrun hl
  rw [requested_begin hX.json] at hasks
  obtain ⟨rfl, rfl⟩ := Prod.mk.inj (Option.some.inj hasks)
  rcases (registry_after X stream NetLabel.engine_op (ls.take b)).begin_cases X
      ⟨profile.did, key.to_hex X⟩ with ⟨hnone, -⟩ | ⟨key', -, hbegin⟩
  · -- a client sends its key in hex, so it parses
    rw [SigningPublicKey.from_hex_to_hex hX] at hnone
    cases hnone
  · have hbegun : Begun X stream NetLabel.engine_op ls b ⟨profile.did, key.to_hex X⟩
        { nonce_b64 := _, session_candidate := _ } :=
      ⟨_, hl, rfl, congrArg Prod.fst hbegin⟩
    refine ⟨_, ?_, ?_, ⟨⟨_, _, hl⟩, hbegun⟩⟩
    · rw [hresponse]
      show outcome_of X BeginResult.decode id (EngineOut.frame X _ (.begin (EngineSessionRegistry.begin
        X (registry_after X stream NetLabel.engine_op (ls.take b)) _).1)) = _
      rw [hbegin]
      exact outcome_of_result hX.json id .BeginResult nofun _
    · rw [hbegun.nonce, hX.base64]

/-! ## Where an `attach` comes from -/

/-- The `attach` with these parameters, which the host has processed for client `i`
at `a`, belongs to the `begin` at `b`. -/
structure AttachOrigin (X : Crates) (stream : ℕ → Nonce) (resolver : DidSigningKeyResolver)
    (key : SigningPublicKey) (i : ι) (ls : List (NetLabel ι)) (params : AttachParams) (a b : ℕ) :
    Prop where
  earlier : b < a
  begun : ∃ begin, BeginServed X stream key i ls params.profile begin b ∧
    params.session_candidate = begin.session_candidate
  aside : ∀ j l, b < j → j < a → ls[j]? = some l → Aside i l
  published : resolver params.profile.did = some key
  signed : ∃ signature, params.signature_b64 = X.base64_encode (Signature.as_bytes signature) ∧
    verify_signature X key (challenge_message (begin_nonce X stream NetLabel.engine_op ls b).val
      params.profile.did) signature = true

/-- **An `attach` of a client names the candidate of its last `begin`** and carries
a signature on its challenge. -/
theorem attach_origin (hX : X.Faithful)
    (hrun : Machine.Run (NetStep X resolver keys) (.start ι stream) ls s)
    (hfew : FewCallbacks X ls) {a : ℕ} {i : ι} {request response : String}
    {resolver' : DidSigningKeyResolver} {params : AttachParams}
    (hl : ls[a]? = some (.dispatch i request (.attach resolver' params) response)) :
    resolver' = resolver ∧ ∃ b, AttachOrigin X stream resolver (keys i) i ls params a b := by
  obtain ⟨s₁, s₂, hrun₁, hstep, -⟩ := hrun.at hl
  have hattended := net_attended hX.json hrun₁ (hfew.take a) i
  have hsound := ((net_has_client X resolver keys stream i).sound hrun₁).1
  obtain ⟨rest, id', hnext, hasks⟩ : ∃ rest id', (s₁.connections i).to_engine = request :: rest ∧
      requested X resolver request = some (id', .attach resolver' params) := by
    cases hstep with
    | dispatch next asks => exact ⟨_, _, next, asks⟩
  have hrequests : (s₁.connections i).requests X = request :: rest.filter (is_request X) := by
    unfold Connection.requests
    rw [hnext, List.filter_cons, if_pos (is_request_of_requested hasks)]
  -- it is on its way, so the client's call waits for its response
  obtain ⟨client, op, h₀, id, hrequest, hoffered, hsmooth, hexchanges⟩ :=
    hattended.pending hX.json hsound hrequests
  cases hrequest with
  | begin handshake pubkey_hex =>
    rw [requested_begin hX.json] at hasks
    cases hasks
  | detach detaching =>
    rw [requested_detach hX.json] at hasks
    cases hasks
  | @attach profile begin nonce h₁ challenged signature =>
    rw [requested_attach hX.json] at hasks
    cases hasks
    refine ⟨rfl, ?_⟩
    -- the one exchange before it is that of the `begin`
    have hbefore : ∀ e ∈ h₁, Smooth X (keys i) e := fun e he =>
      hsmooth e (List.mem_append_left _ he)
    obtain ⟨raw, hsettled, houtcome⟩ := challenged.settled hX.json hbefore
    rw [exchanges_try_sign, hsettled] at hexchanges
    have hanswers : answers i (ls.take a) = [] ++ [_] := (Exchanges.mk.inj hexchanges).2.symm
    obtain ⟨b, op', hba, hlb, -, haside⟩ := answers_last hanswers
    obtain ⟨begin', houtcome', hnonce, hserved⟩ := begin_served hX hrun hlb
    rw [houtcome] at houtcome'
    obtain rfl := Except.ok.inj houtcome'
    rw [challenged.decoded] at hnonce
    obtain rfl := Option.some.inj hnonce
    obtain ⟨signature', hsome, hverify⟩ :=
      hsmooth ⟨.try_sign _, some signature⟩ (List.mem_append_right h₁ List.mem_cons_self)
    obtain rfl := Option.some.inj hsome
    exact ⟨b, hba, ⟨begin, hserved, rfl⟩, haside, hoffered.published profile challenged.handshake,
      signature, rfl, hverify⟩

/-! ## What becomes of it -/

/-- The handshake of client `i` that returns `out` at `k`: the host has processed
its `attach` at `a`, after its `begin` at `b`, and `out` is what the response says. -/
structure Returned (X : Crates) (stream : ℕ → Nonce) (resolver : DidSigningKeyResolver)
    (key : SigningPublicKey) (i : ι) (ls : List (NetLabel ι)) (profile : ProfileAttachment)
    (out : Except SessionError ClientOut) (k a b : ℕ) : Prop where
  earlier : a < k
  aside : ∀ j l, a < j → j < k → ls[j]? = some l → Aside i l
  decided : ∃ request response id params,
    ls[a]? = some (.dispatch i request (.attach resolver params) response) ∧
    requested X resolver request = some (Value.of (ofU64 id), .attach resolver params) ∧
    AttachOrigin X stream resolver key i ls params a b ∧ params.profile = profile ∧
    out = (outcome_of X AttachResult.decode id response).map fun attach =>
      .session { session_id := attach.session_id, engine_capabilities := attach.engine_capabilities,
                 profile_did := profile.did }

/-- **Every call that returns** has read what the host has answered. -/
theorem net_returned (hX : X.json.Faithful)
    (hrun : Machine.Run (NetStep X resolver keys) (.start ι stream) ls s)
    (hfew : FewCallbacks X ls) {k : ℕ} {i : ι} {out : Except SessionError ClientOut} {op : ClientOp}
    {h : ClientHistory} (hl : ls[k]? = some (.client i (.ret out)))
    (hcall : in_progress (NetLabel.client_label i) (ls.take k) = some (op, h)) :
    ∃ client, Ends X client op out h ∧ Offered resolver (keys i) op ∧
      (∀ e ∈ h, Smooth X (keys i) e) ∧ answers i (ls.take k) = (exchanges X h).settled := by
  have hview : NetLabel.client_label i (.client i (.ret out)) = some (.ret out) := if_pos rfl
  obtain ⟨client, op', h', client', hcall', -, hends, -⟩ :=
    (net_has_client X resolver keys stream i).ret hrun hl hview
  rw [hcall] at hcall'
  obtain ⟨rfl, rfl⟩ := Prod.mk.inj (Option.some.inj hcall')
  obtain ⟨s₁, s₂, hrun₁, -, -⟩ := hrun.at hl
  have hcurrent := ((net_has_client X resolver keys stream i).sound hrun₁).2
  have hattended := net_attended hX hrun₁ (hfew.take k) i
  rw [hcall] at hcurrent
  generalize s₁.clients i = state at hattended hcurrent
  cases hattended with
  | idle readable requests responses => cases hcurrent
  | busy readable offered smooth flight =>
    obtain ⟨rfl, rfl⟩ := Prod.mk.inj (Option.some.inj hcurrent)
    refine ⟨client, hends, offered, smooth, ?_⟩
    -- a call returns with nothing pending, so all that it asked is settled
    have hpending := hends.settled hX offered.requests smooth (hfew k i _ _ hcall)
    cases flight with
    | quiet pending requests responses settled => exact settled
    | asked pending =>
      rw [hpending] at pending
      cases pending
    | answered pending =>
      rw [hpending] at pending
      cases pending

/-- **Every handshake that returns had both its requests processed.** -/
theorem handshake_returned (hX : X.Faithful)
    (hrun : Machine.Run (NetStep X resolver keys) (.start ι stream) ls s)
    (hfew : FewCallbacks X ls) {k : ℕ} {i : ι} {out : Except SessionError ClientOut}
    {profile : ProfileAttachment} {h : ClientHistory}
    (hl : ls[k]? = some (.client i (.ret out)))
    (hcall : in_progress (NetLabel.client_label i) (ls.take k) = some (.begin_and_attach profile, h)) :
    ∃ a b, Returned X stream resolver (keys i) i ls profile out k a b := by
  obtain ⟨client, hends, -, hsmooth, hanswers⟩ := net_returned hX.json hrun hfew hl hcall
  have hhandshake := hends.handshake hX.json rfl hsmooth (hfew k i _ _ hcall)
  rw [← hanswers] at hhandshake
  generalize hread : answers i (ls.take k) = read at hhandshake
  cases hhandshake with
  | refused response =>
    obtain ⟨b, op, -, hlb, -⟩ := @answers_last _ _ _ i k [] _ _ hread
    -- a `begin` from an honest client is served
    obtain ⟨begin, houtcome, -⟩ := begin_served hX hrun hlb
    rw [response] at houtcome
    cases houtcome
  | bad_nonce response bad =>
    obtain ⟨b, op, -, hlb, -⟩ := @answers_last _ _ _ i k [] _ _ hread
    obtain ⟨begin, houtcome, hnonce, -⟩ := begin_served hX hrun hlb
    rw [response] at houtcome
    obtain rfl := Except.ok.inj houtcome
    cases bad with
    | base64 payload =>
      rw [hnonce] at payload
      cases payload
    | length payload length =>
      rw [hnonce] at payload
      obtain rfl := Option.some.inj payload
      exact (length (begin_nonce X stream NetLabel.engine_op ls b).property).elim
  | @decided raw raw' begin nonce signature response decoded signed =>
    obtain ⟨a, op, hak, hla, -, haside⟩ := @answers_last _ _ _ i k [_] _ _ hread
    obtain ⟨id', hasks, -⟩ := dispatched hrun hla
    rw [requested_attach hX.json] at hasks
    obtain ⟨-, rfl⟩ := Prod.mk.inj (Option.some.inj hasks)
    obtain ⟨-, b, horigin⟩ := attach_origin hX hrun hfew hla
    exact ⟨a, b, hak, haside, _, raw', _, _, hla, requested_attach hX.json resolver _ _ _ _, horigin,
      rfl, rfl⟩

/-- A call that returns a session is a handshake. -/
theorem session_returned (hX : X.Faithful)
    (hrun : Machine.Run (NetStep X resolver keys) (.start ι stream) ls s)
    (hfew : FewCallbacks X ls) {k : ℕ} {i : ι} {session : Session}
    (hl : ls[k]? = some (.client i (.ret (.ok (.session session))))) :
    ∃ profile h,
      in_progress (NetLabel.client_label i) (ls.take k) = some (.begin_and_attach profile, h) := by
  obtain ⟨client, op, h, client', hcall, -⟩ :=
    (net_has_client X resolver keys stream i).ret hrun hl (if_pos rfl)
  obtain ⟨client, hends, offered, -, -⟩ := net_returned hX.json hrun hfew hl hcall
  cases op with
  | begin_and_attach profile => exact ⟨profile, h, hcall⟩
  | reattach profile => exact absurd rfl (offered.stays profile)
  | handle_next_sign_callback => exact absurd rfl offered.requests
  | detach session' =>
    generalize hout : (Except.ok (ClientOut.session session) : Except SessionError ClientOut) = out
      at hends
    cases hends with
    | attached challenged ends => exact absurd challenged.handshake nofun
    | next_served next parse method served => cases next
    | _ => cases hout

/-- **Where a returned session comes from.** -/
theorem session_attached (hX : X.Faithful)
    (hrun : Machine.Run (NetStep X resolver keys) (.start ι stream) ls s)
    (hfew : FewCallbacks X ls) {k : ℕ} {i : ι} {session : Session}
    (hl : ls[k]? = some (.client i (.ret (.ok (.session session))))) :
    ∃ a b profile params result,
      Returned X stream resolver (keys i) i ls profile (.ok (.session session)) k a b ∧
      Attached X stream NetLabel.engine_op ls a resolver params result ∧
      result.session_id = session.session_id ∧ params.profile.did = session.profile_did := by
  obtain ⟨profile, h, hcall⟩ := session_returned hX hrun hfew hl
  obtain ⟨a, b, hreturned⟩ := handshake_returned hX hrun hfew hl hcall
  obtain ⟨request, response, id, params, hla, hasks, -, rfl, hout⟩ := hreturned.decided
  obtain ⟨id', hasks', hresponse⟩ := dispatched hrun hla
  rw [hasks] at hasks'
  obtain rfl := (Prod.mk.inj (Option.some.inj hasks')).1
  have hframe : response = EngineOut.frame X (Value.of (ofU64 id)) (.attach
      ((registry_after X stream NetLabel.engine_op (ls.take a)).attach X resolver params).1) :=
    hresponse
  cases hresult :
      ((registry_after X stream NetLabel.engine_op (ls.take a)).attach X resolver params).1 with
  | error e =>
    have houtcome : outcome_of X AttachResult.decode id response
        = .error (.Engine e.to_rpc_error.code e.to_rpc_error.message) := by
      rw [hframe, hresult]
      exact outcome_of_error hX.json _ id _ _
    -- a refusal returns no session
    rw [houtcome] at hout
    cases hout
  | ok result =>
    have houtcome : outcome_of X AttachResult.decode id response = .ok result := by
      rw [hframe, hresult]
      exact outcome_of_result hX.json id .AttachResult nofun result
    rw [houtcome] at hout
    cases hout
    exact ⟨a, b, params.profile, params, result, hreturned, ⟨_, hla, rfl, hresult⟩, rfl, rfl⟩

end Agreement

/-! ## The theorem -/

end DigIpc
