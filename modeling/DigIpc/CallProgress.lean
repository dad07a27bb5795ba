/-
Every call returns, and so every handshake completes.

Nothing in the repository times out, so that a call returns depends on the other
side. Here the host is only assumed to be fair: it does not leave a frame of the
client unprocessed for ever. The client must not be stopped either, and its
signer must be able to sign what it is asked.

The proof follows the tree of the call. A client at any other seam can move; a
client that waits for a frame can when there is one, and when there is none, the
invariant of the connection says that its request is still on its way to the host
(`Attended.request_of_waiting`). That handshakes complete is this together with
what `DigIpc.HandshakeAgreement` says of the ones that have returned.
-/
import DigIpc.HandshakeAgreement
import DigIpc.Fairness

set_option autoImplicit false

open Interaction Serde Machine
open StdIo (Error)

namespace DigIpc

variable {ι : Type}

/-! ## Turns -/

/-- Client `i` goes on with its call. -/
def ClientTurn (i : ι) (l : NetLabel ι) : Prop := ∃ cl, l = .client i cl ∧ ∀ op, cl ≠ .call op

/-- The host takes a frame of client `i`. -/
def HostTurn (i : ι) (l : NetLabel ι) : Prop :=
  (∃ text op response, l = .dispatch i text op response) ∨ ∃ text, l = .skip i text

section Turns

variable [DecidableEq ι] {X : Crates} {resolver : DidSigningKeyResolver}
  {keys : ι → SigningPublicKey} {stream : ℕ → Nonce} {s s' : Net ι} {l : NetLabel ι} {i : ι}
  {client : SessionClient} {op : ClientOp} {h : ClientHistory} {p : ClientProc}

/-- Unless it takes a turn itself, a client stays where it is in its call, and
what it can read stays. -/
theorem NetStep.keeps (hstep : NetStep X resolver keys s l s')
    (hbusy : s.clients i = .busy client op h p) (hturn : ¬ ClientTurn i l) :
    s'.clients i = .busy client op h p ∧
      (s.connections i).to_client <+: (s'.connections i).to_client := by
  cases hstep with
  | @client j cl state c step serves =>
    by_cases hji : j = i
    · subst hji
      exfalso
      refine hturn ⟨cl, rfl, ?_⟩
      rintro op' rfl
      rw [hbusy] at step
      cases step
    · simp only [Function.update_of_ne (Ne.symm hji)]
      exact ⟨hbusy, List.prefix_refl _⟩
  | @dispatch j text rest id asked next asks =>
    refine ⟨hbusy, ?_⟩
    by_cases hji : j = i
    · subst hji
      simp
    · simp [Function.update_of_ne (Ne.symm hji)]
  | @skip j text rest next reply =>
    refine ⟨hbusy, ?_⟩
    by_cases hji : j = i
    · subst hji
      simp
    · simp [Function.update_of_ne (Ne.symm hji)]
  | @callback j text decodable =>
    refine ⟨hbusy, ?_⟩
    by_cases hji : j = i
    · subst hji
      simp
    · simp [Function.update_of_ne (Ne.symm hji)]
  | other asked => exact ⟨hbusy, List.prefix_refl _⟩

/-- While client `i` takes no turn and the host takes none of its frames, what it
has sent stays where it is. -/
theorem NetStep.keeps_to_engine (hstep : NetStep X resolver keys s l s')
    (hbusy : s.clients i = .busy client op h p) (hturn : ¬ ClientTurn i l) (hhost : ¬ HostTurn i l) :
    (s'.connections i).to_engine = (s.connections i).to_engine := by
  cases hstep with
  | @client j cl state c step serves =>
    by_cases hji : j = i
    · subst hji
      exfalso
      refine hturn ⟨cl, rfl, ?_⟩
      rintro op' rfl
      rw [hbusy] at step
      cases step
    · simp only [Function.update_of_ne (Ne.symm hji)]
  | @dispatch j text rest id asked next asks =>
    have hji : j ≠ i := by
      rintro rfl
      exact hhost (Or.inl ⟨_, _, _, rfl⟩)
    simp only [Function.update_of_ne (Ne.symm hji)]
  | @skip j text rest next reply =>
    have hji : j ≠ i := by
      rintro rfl
      exact hhost (Or.inr ⟨_, rfl⟩)
    simp only [Function.update_of_ne (Ne.symm hji)]
  | @callback j text decodable =>
    by_cases hji : j = i
    · subst hji
      simp only [Function.update_self]
    · simp only [Function.update_of_ne (Ne.symm hji)]
  | other asked => rfl

/-- What the host's turn does to the connection of the client whose frame it
takes: the client can read the response, or there is one frame less to take. -/
theorem NetStep.host_turn (hstep : NetStep X resolver keys s l s') (hhost : HostTurn i l) :
    (s'.connections i).to_client ≠ [] ∨
      (s'.connections i).to_engine.length < (s.connections i).to_engine.length := by
  rcases hhost with ⟨text, asked, response, rfl⟩ | ⟨text, rfl⟩
  · cases hstep
    left
    simp
  · cases hstep with
    | skip next reply =>
      right
      simp [next]

/-- A client's turn: its call returns, or does the next thing it has to do. -/
theorem NetStep.client_turn (hstep : NetStep X resolver keys s l s')
    (hbusy : s.clients i = .busy client op h p) (hturn : ClientTurn i l) :
    (∃ result, p = .ret result ∧ l = .client i (.ret result.1)) ∨
      ∃ e k r, p = .vis e k ∧ s'.clients i = .busy client op (h ++ [⟨e, r⟩]) (k r) ∧
        (e = .recv_frame → (s.connections i).to_client ≠ []) := by
  obtain ⟨cl, rfl, hcl⟩ := hturn
  cases hstep with
  | client step serves =>
    rw [hbusy] at step
    cases step with
    | ret => exact Or.inl ⟨_, rfl, rfl⟩
    | @event _ _ _ e k r =>
      refine Or.inr ⟨e, k, r, rfl, Function.update_self _ _ _, ?_⟩
      rintro rfl
      cases serves with
      | recv_frame next =>
        rw [next]
        exact List.cons_ne_nil _ _

end Turns

/-! ## Who can move -/

section Enabled

variable [DecidableEq ι] {X : Crates} {resolver : DidSigningKeyResolver}
  {keys : ι → SigningPublicKey} {s : Net ι} {i : ι} {client : SessionClient} {op : ClientOp}
  {h : ClientHistory} {p : ClientProc} {answers : List (String × String)}

/-- Only `reattach` takes a new transport. -/
theorem ClientEvent.reattaching (hevent : ClientEvent X client op h ⟨.set_transport, ()⟩) :
    ∃ profile, op = .reattach profile := by
  cases hevent with
  | set_transport reattaching => exact ⟨_, reattaching⟩
  | await awaiting event =>
    cases event with
    | service event => cases event
  | next_service next event => cases event

/-- **A client can move** unless it waits for a frame and there is none. -/
theorem client_enabled (hsigns : ∀ m, ∃ signature, verify_signature X (keys i) m signature = true)
    (hbusy : s.clients i = .busy client op h p)
    (hattended : Attended X resolver (keys i) answers (s.clients i) (s.connections i))
    (hsound : (s.clients i).Sound X)
    (hready : (∃ k, p = .vis .recv_frame k) → (s.connections i).to_client ≠ []) :
    Enabled (NetStep X resolver keys) (ClientTurn i) s := by
  rw [hbusy] at hattended hsound
  have hmoves : ∀ {cl : ClientLabel} {state : ClientState} {c : Connection},
      ClientStep X (.busy client op h p) cl state →
      Serves X resolver (keys i) cl (s.connections i) c → (∀ op, cl ≠ .call op) →
      Enabled (NetStep X resolver keys) (ClientTurn i) s := by
    intro cl state c hstep hserves hcl
    rw [← hbusy] at hstep
    exact ⟨_, _, ⟨cl, rfl, hcl⟩, .client hstep hserves⟩
  cases p with
  | ret result => exact hmoves .ret (.ret _) nofun
  | vis e k =>
    have hevent : ∀ r, ClientEvent X client op h ⟨e, r⟩ := fun r => (hsound.2 r trivial).1
    have hreply : ∀ (r : e.Reply) {c : Connection},
        Serves X resolver (keys i) (.event ⟨e, r⟩) (s.connections i) c →
        Enabled (NetStep X resolver keys) (ClientTurn i) s :=
      fun r c hserves => hmoves (.event r) hserves nofun
    cases e with
    | send_frame text => exact hreply (.ok ()) (.send_frame text)
    | recv_frame =>
      obtain ⟨raw, rest, hnext⟩ := List.exists_cons_of_ne_nil (hready ⟨k, rfl⟩)
      exact hreply (.ok raw) (.recv_frame hnext)
    | signing_public_key_hex => exact hreply _ .signing_public_key_hex
    | sign m =>
      -- no call uses it
      exfalso
      exact (hevent ⟨⟨List.replicate 96 0, List.length_replicate⟩⟩).not_sign m rfl
    | try_sign m =>
      obtain ⟨signature, hverify⟩ := hsigns m
      exact hreply (some signature) (.try_sign hverify)
    -- the policy may decide either way; that it can decide is enough
    | authorize request => exact hreply .Allow (.authorize request .Allow)
    | set_transport =>
      -- only `reattach` asks for it
      exfalso
      cases hattended with
      | busy readable offered smooth flight =>
        obtain ⟨profile, hreattach⟩ := (hevent ()).reattaching
        exact offered.stays profile hreattach

/-- A client that waits for a frame has a request without a response. -/
theorem ClientEvent.pending (hX : X.json.Faithful) {key : SigningPublicKey}
    (hop : op ≠ .handle_next_sign_callback) (hsmooth : ∀ e ∈ h, Smooth X key e)
    {r : Except Error String} (hevent : ClientEvent X client op h ⟨.recv_frame, r⟩) :
    (exchanges X h).pending ≠ none := by
  cases hevent with
  | @await id request h e awaiting event =>
    obtain ⟨h₀, hrequests, hsince⟩ := awaiting
    have hearlier : ∀ e ∈ h₀, Smooth X key e := by
      obtain ⟨tr, rfl, -⟩ := hsince
      exact fun e he => hsmooth e (by simp [he])
    obtain ⟨hrequest, settled, hbefore⟩ := hrequests.settled hX hearlier
    rcases exchanges_await hX hrequest hbefore hsince with hpending | ⟨h₁, raw, rfl, hraw, -⟩
    · rw [hpending]
      exact nofun
    · -- with its response read, the call does not read on
      exact absurd event (AwaitEvent.not_after_response hraw _)
  | next_read next r => exact absurd next hop
  | next_service next event => exact absurd next hop

/-- **Whoever waits in vain has its request on the way.** -/
theorem Attended.request_of_waiting (hX : X.json.Faithful) {key : SigningPublicKey}
    {c : Connection} {k : Except Error String → ClientProc}
    (hattended : Attended X resolver key answers (.busy client op h (.vis .recv_frame k)) c)
    (hsound : (ClientState.busy client op h (.vis .recv_frame k)).Sound X)
    (hempty : c.to_client = []) : c.to_engine ≠ [] := by
  cases hattended with
  | busy readable offered smooth flight =>
    have hpending := (hsound.2 (.error (.fromKind .Other)) trivial).1.pending hX offered.requests smooth
    intro hnone
    cases flight with
    | quiet pending requests responses settled => exact hpending pending
    | asked pending requests responses settled =>
      unfold Connection.requests at requests
      rw [hnone] at requests
      cases requests
    | answered pending requests responses settled =>
      unfold Connection.responses at responses
      rw [hempty] at responses
      cases responses

/-- **The host can take a frame** when there is one. -/
theorem host_enabled (hX : X.json.Faithful)
    (hattended : Attended X resolver (keys i) answers (s.clients i) (s.connections i))
    (hsound : (s.clients i).Sound X) (hframes : (s.connections i).to_engine ≠ []) :
    Enabled (NetStep X resolver keys) (HostTurn i) s := by
  obtain ⟨text, rest, hnext⟩ := List.exists_cons_of_ne_nil hframes
  by_cases hrequest : is_request X text = true
  · have hrequests : (s.connections i).requests X = text :: rest.filter (is_request X) := by
      unfold Connection.requests
      rw [hnext, List.filter_cons, if_pos hrequest]
    obtain ⟨client, op, h₀, id, hasked, -, -, -⟩ := hattended.pending hX hsound hrequests
    obtain ⟨asks, hasks⟩ := hasked.requested hX resolver
    exact ⟨_, _, Or.inl ⟨_, _, _, rfl⟩, .dispatch hnext hasks⟩
  · exact ⟨_, _, Or.inr ⟨_, rfl⟩, .skip hnext (by simpa using hrequest)⟩

end Enabled

/-! ## Executions -/

section Executions

variable [DecidableEq ι] {X : Crates} {resolver : DidSigningKeyResolver}
  {keys : ι → SigningPublicKey} {stream : ℕ → Nonce}
  (e : Execution (NetStep X resolver keys) (.start ι stream)) {i : ι}

/-- At time `n`, client `i` is in the call `op`, and `p` is left of it. -/
def InCall (i : ι) (op : ClientOp) (p : ClientProc) (n : ℕ) : Prop :=
  ∃ client h, (e.state n).clients i = .busy client op h p

/-- It waits for a frame, and there is none. -/
structure Waiting (i : ι) (op : ClientOp) (k : Except Error String → ClientProc) (n : ℕ) : Prop where
  in_call : InCall e i op (.vis .recv_frame k) n
  empty : ((e.state n).connections i).to_client = []

variable {e} {op : ClientOp} {p : ClientProc} {n : ℕ}

theorem InCall.keeps (hcall : InCall e i op p n) (hturn : ¬ ClientTurn i (e.label n)) :
    InCall e i op p (n + 1) := by
  obtain ⟨client, h, hbusy⟩ := hcall
  exact ⟨client, h, ((e.steps n).keeps hbusy hturn).1⟩

/-- Whoever waits in vain takes no turn. -/
theorem Waiting.no_turn {k : Except Error String → ClientProc} (hwaiting : Waiting e i op k n) :
    ¬ ClientTurn i (e.label n) := by
  obtain ⟨⟨client, h, hbusy⟩, hempty⟩ := hwaiting
  intro hturn
  rcases (e.steps n).client_turn hbusy hturn with ⟨result, hret, -⟩ | ⟨ev, k', r, hvis, -, hframes⟩
  · cases hret
  · obtain ⟨rfl, -⟩ := Proc.vis.inj hvis
    exact hframes rfl hempty

variable (hX : X.json.Faithful) (hfew : ∀ n, FewCallbacks X (e.history n))

include hX hfew

theorem execution_attended (i : ι) (n : ℕ) : Attended X resolver (keys i) (answers i (e.history n))
    ((e.state n).clients i) ((e.state n).connections i) ∧ ((e.state n).clients i).Sound X :=
  ⟨net_attended hX (e.run n) (hfew n) i,
    ((net_has_client X resolver keys stream i).sound (e.run n)).1⟩

/-- **Nobody waits in vain for ever**, when the host is fair. -/
theorem Waiting.ends (hhost : e.WeaklyFair (HostTurn i)) {k : Except Error String → ClientProc}
    (hwaiting : Waiting e i op k n) :
    ∃ m, n ≤ m ∧ InCall e i op (.vis .recv_frame k) m ∧
      ((e.state m).connections i).to_client ≠ [] := by
  -- the frames that the host has still to take become fewer
  let frames : ℕ → ℕ := fun m => ((e.state m).connections i).to_engine.length
  have hsteps : ∀ {m}, Waiting e i op k m → InCall e i op (.vis .recv_frame k) (m + 1) :=
    fun hwaiting => hwaiting.in_call.keeps hwaiting.no_turn
  refine hhost.variant (I := Waiting e i op k) (G := fun m => InCall e i op (.vis .recv_frame k) m ∧
    ((e.state m).connections i).to_client ≠ []) frames ?_ ?_ ?_ (frames n) n le_rfl hwaiting
  · rintro m ⟨⟨client, h, hbusy⟩, hempty⟩
    obtain ⟨hattended, hsound⟩ := execution_attended hX hfew i m
    refine host_enabled hX hattended hsound ?_
    rw [hbusy] at hattended hsound
    exact hattended.request_of_waiting hX hsound hempty
  · intro m hm hturn
    obtain ⟨client, h, hbusy⟩ := hm.in_call
    by_cases hempty : ((e.state (m + 1)).connections i).to_client = []
    · left
      refine ⟨⟨hsteps hm, hempty⟩, le_of_eq ?_⟩
      exact congrArg List.length ((e.steps m).keeps_to_engine hbusy hm.no_turn hturn)
    · exact Or.inr ⟨hsteps hm, hempty⟩
  · intro m hm hturn
    by_cases hempty : ((e.state (m + 1)).connections i).to_client = []
    · rcases (e.steps m).host_turn hturn with hread | hfewer
      · exact absurd hempty hread
      · exact Or.inl ⟨⟨hsteps hm, hempty⟩, hfewer⟩
    · exact Or.inr ⟨hsteps hm, hempty⟩

variable (hsigns : ∀ m, ∃ signature, verify_signature X (keys i) m signature = true)
  (hclient : e.WeaklyFair (ClientTurn i)) (hhost : e.WeaklyFair (HostTurn i))

include hsigns hclient hhost

/-- **A client in a call gets its turn.** -/
theorem InCall.turn (hcall : InCall e i op p n) :
    ∃ m, n ≤ m ∧ InCall e i op p m ∧ ClientTurn i (e.label m) := by
  -- first it becomes ready, and it stays so until it moves
  have hready : ∃ m, n ≤ m ∧ InCall e i op p m ∧
      ((∃ k, p = .vis .recv_frame k) → ((e.state m).connections i).to_client ≠ []) := by
    by_cases hwaits : (∃ k, p = .vis .recv_frame k) ∧ ((e.state n).connections i).to_client = []
    · obtain ⟨⟨k, rfl⟩, hempty⟩ := hwaits
      obtain ⟨m, hm, hcall', hframes⟩ := Waiting.ends hX hfew hhost ⟨hcall, hempty⟩
      exact ⟨m, hm, hcall', fun _ => hframes⟩
    · exact ⟨n, le_rfl, hcall, fun hrecv hempty => hwaits ⟨hrecv, hempty⟩⟩
  obtain ⟨n', hn', hcall', hframes⟩ := hready
  let I : ℕ → Prop := fun m => InCall e i op p m ∧
    ((∃ k, p = .vis .recv_frame k) → ((e.state m).connections i).to_client ≠ [])
  have henabled : ∀ m, I m → Enabled (NetStep X resolver keys) (ClientTurn i) (e.state m) := by
    rintro m ⟨⟨client, h, hbusy⟩, hready⟩
    obtain ⟨hattended, hsound⟩ := execution_attended hX hfew i m
    exact client_enabled hsigns hbusy hattended hsound hready
  have hkeeps : ∀ m, I m → ¬ ClientTurn i (e.label m) → I (m + 1) := by
    rintro m ⟨hcall, hready⟩ hturn
    refine ⟨hcall.keeps hturn, fun hrecv hempty => ?_⟩
    obtain ⟨client, h, hbusy⟩ := hcall
    have hprefix := ((e.steps m).keeps hbusy hturn).2
    rw [hempty] at hprefix
    exact hready hrecv (List.prefix_nil.mp hprefix)
  obtain ⟨m, hm, ⟨hcall, -⟩, hturn⟩ := hclient.taken henabled hkeeps ⟨hcall', hframes⟩
  exact ⟨m, hn'.trans hm, hcall, hturn⟩

/-- **A call in progress returns**, by induction on what is left of it. -/
theorem InCall.returns (hcall : InCall e i op p n) :
    ∃ m out, n ≤ m ∧ e.label m = .client i (.ret out) := by
  induction p generalizing n with
  | ret result =>
    obtain ⟨m, hm, ⟨client, h, hbusy⟩, hturn⟩ := hcall.turn hX hfew hsigns hclient hhost
    rcases (e.steps m).client_turn hbusy hturn with ⟨_, -, hl⟩ | ⟨ev, k, r, hvis, -⟩
    · exact ⟨m, _, hm, hl⟩
    · cases hvis
  | vis ev k ih =>
    obtain ⟨m, hm, ⟨client, h, hbusy⟩, hturn⟩ := hcall.turn hX hfew hsigns hclient hhost
    rcases (e.steps m).client_turn hbusy hturn with ⟨_, hret, -⟩ | ⟨_, _, r, hvis, hnext, -⟩
    · cases hret
    · cases hvis
      obtain ⟨m', out, hm', hl⟩ := ih r ⟨client, _, hnext⟩
      exact ⟨m', out, by omega, hl⟩

omit hX hfew hsigns hclient hhost in
/-- As long as a call does not return, it is the same call, with more done. -/
theorem in_progress_until {h₀ : ClientHistory} {m : ℕ} (hnm : n ≤ m)
    (hcall : in_progress (NetLabel.client_label i) (e.history n) = some (op, h₀))
    (hlasts : ∀ k, n ≤ k → k < m → ∀ out, e.label k ≠ .client i (.ret out)) :
    ∃ h, in_progress (NetLabel.client_label i) (e.history m) = some (op, h) ∧ h₀ <+: h := by
  induction m, hnm using Nat.le_induction with
  | base => exact ⟨h₀, hcall, List.prefix_refl h₀⟩
  | succ m hnm ih =>
    obtain ⟨h, hcurrent, hgrows⟩ := ih fun k hnk hkm => hlasts k hnk (by omega)
    have hclient := net_has_client X resolver keys stream i
    rw [e.history_succ, in_progress_snoc, hcurrent]
    cases hview : NetLabel.client_label i (e.label m) with
    | none => exact ⟨h, rfl, hgrows⟩
    | some cl =>
      cases cl with
      | event ev => exact ⟨h ++ [ev], rfl, hgrows.trans (List.prefix_append h [ev])⟩
      | call op' =>
        -- in a call there is no other call
        exfalso
        rw [(hclient.sound (e.run m)).2] at hcurrent
        have hstep := hclient.moves (e.steps m) hview
        generalize (e.state m).clients i = state at hcurrent hstep
        generalize (e.state (m + 1)).clients i = state' at hstep
        cases hstep
        cases hcurrent
      | ret out =>
        exact absurd (NetLabel.client_label_eq_some.mp hview)
          (hlasts m hnm (Nat.lt_succ_self m) out)

omit hX hfew hsigns hclient hhost in
/-- A client in a call has something left of it. -/
theorem in_call {h₀ : ClientHistory}
    (hcall : in_progress (NetLabel.client_label i) (e.history n) = some (op, h₀)) :
    ∃ p, InCall e i op p n := by
  rw [((net_has_client X resolver keys stream i).sound (e.run n)).2] at hcall
  unfold InCall
  cases hstate : (e.state n).clients i with
  | idle client =>
    rw [hstate] at hcall
    cases hcall
  | busy client op' h p =>
    rw [hstate] at hcall
    cases hcall
    exact ⟨p, client, _, rfl⟩

omit hX hfew hsigns hclient hhost in
/-- The next return of a client in a call is the one of this call. -/
theorem own_return {h₀ : ClientHistory}
    (hcall : in_progress (NetLabel.client_label i) (e.history n) = some (op, h₀))
    (hreturns : ∃ m out, n ≤ m ∧ e.label m = .client i (.ret out)) :
    ∃ m out h, n ≤ m ∧ e.label m = .client i (.ret out) ∧
      in_progress (NetLabel.client_label i) (e.history m) = some (op, h) ∧ h₀ <+: h ∧
      ∀ k, n ≤ k → k < m → ∀ out', e.label k ≠ .client i (.ret out') := by
  classical
  have hfirst : ∃ m, n ≤ m ∧ ∃ out, e.label m = .client i (.ret out) := by
    obtain ⟨m, out, hnm, hl⟩ := hreturns
    exact ⟨m, hnm, out, hl⟩
  have hlasts : ∀ k, n ≤ k → k < Nat.find hfirst → ∀ out, e.label k ≠ .client i (.ret out) :=
    fun k hnk hk out hl => Nat.find_min hfirst hk ⟨hnk, out, hl⟩
  obtain ⟨hn, out, hl⟩ := Nat.find_spec hfirst
  obtain ⟨h, hcurrent, hgrows⟩ := in_progress_until hn hcall hlasts
  exact ⟨Nat.find hfirst, out, h, hn, hl, hcurrent, hgrows, hlasts⟩

end Executions

/-! ## A fair execution -/

/-- The stand-in signer, but of messages of any length. -/
def tireless : Crates :=
  { Reference.crates with
    bls := { Reference.bls with
      verify := fun signature _ m => decide (signature.val = (Reference.sign m).bytes.val) } }

theorem tireless_faithful : tireless.Faithful :=
  ⟨Reference.faithful.json, Reference.faithful.base64, Reference.faithful.hex⟩

theorem tireless_signs (key : SigningPublicKey) (m : Bytes) :
    verify_signature tireless key m (Reference.sign m) = true := decide_eq_true rfl

/-- From every state, others can go on for ever and leave clients and connections
alone. -/
theorem exists_quiet [DecidableEq ι] (X : Crates) (resolver : DidSigningKeyResolver)
    (keys : ι → SigningPublicKey) (s : Net ι) :
    ∃ e : Execution (NetStep X resolver keys) s,
      (∀ n, (e.state n).clients = s.clients ∧ (e.state n).connections = s.connections) ∧
      ∀ n, e.label n = .other (.detach "") := by
  let next : EngineSessionRegistry → EngineSessionRegistry := fun registry =>
    ((EngineOp.detach "").apply X registry).2
  refine ⟨⟨fun n => { s with registry := next^[n] s.registry }, fun _ => .other (.detach ""), rfl,
    fun n => ?_⟩, fun n => ⟨rfl, rfl⟩, fun n => rfl⟩
  rw [Function.iterate_succ_apply']
  exact .other (.detach "")

section Quiet

variable [DecidableEq ι] {X : Crates} {resolver : DidSigningKeyResolver} {keys : ι → SigningPublicKey}
  {stream : ℕ → Nonce} {e : Execution (NetStep X resolver keys) (.start ι stream)} {N : ℕ} {i : ι}

/-- An execution is fair to a client once nobody can take a turn for it. -/
theorem fair_once_quiet
    (hidle : ∀ n, N ≤ n → ∃ client, (e.state n).clients i = .idle client)
    (hempty : ∀ n, N ≤ n → (e.state n).connections i = ⟨[], []⟩) :
    e.WeaklyFair (ClientTurn i) ∧ e.WeaklyFair (HostTurn i) := by
  constructor
  · intro n henabled
    obtain ⟨l, s', ⟨cl, rfl, hcl⟩, hstep⟩ := henabled (max n N) (le_max_left n N)
    obtain ⟨client, hnow⟩ := hidle (max n N) (le_max_right n N)
    exfalso
    cases hstep with
    | client step serves =>
      rw [hnow] at step
      cases step with
      | call op => exact hcl op rfl
  · intro n henabled
    obtain ⟨l, s', hturn, hstep⟩ := henabled (max n N) (le_max_left n N)
    have hnow := hempty (max n N) (le_max_right n N)
    exfalso
    rcases hturn with ⟨text, asked, response, rfl⟩ | ⟨text, rfl⟩
    · cases hstep with
      | dispatch next asks =>
        rw [hnow] at next
        cases next
    · cases hstep with
      | skip next reply =>
        rw [hnow] at next
        cases next

/-- There are few callbacks if all clients are idle soon. -/
theorem few_callbacks_once_quiet (hsoon : N ≤ MAX_INTERLEAVED_CALLBACKS)
    (hidle : ∀ n, N ≤ n → ∀ i, ∃ client, (e.state n).clients i = .idle client) (n : ℕ) :
    FewCallbacks X (e.history n) := by
  intro k i op h hcall
  rw [e.take_history] at hcall
  by_cases hk : min k n ≤ N
  · have hshort : FewCallbacks X (e.history (min k n)) :=
      few_callbacks_of_short (by rw [e.length_history]; exact hk.trans hsoon)
    refine hshort (min k n) i op h ?_
    rwa [e.take_history, Nat.min_self]
  · -- and then no client is in a call
    have hcurrent := ((net_has_client X resolver keys stream i).sound (e.run (min k n))).2
    obtain ⟨client, hnow⟩ := hidle (min k n) (by omega) i
    rw [hcall, hnow] at hcurrent
    cases hcurrent

end Quiet

/-- Two clients make their handshakes at the same time; then the first one detaches, and is asked
to sign meanwhile. -/
def two_clients_log : List (NetLabel Bool) :=
  two_handshakes_log tireless (fun _ => some Reference.key) (fun _ => Reference.key) Reference.stream
      (fun i => ⟨if i then "did" else "other", [], ""⟩)
      (fun i => Reference.sign (challenge_message (Reference.stream (if i then 0 else 2)).val
        (if i then "did" else "other"))) true false
    ++ (net_detach_callback_log tireless true 3 (session_drawn tireless Reference.stream 4 ⟨"did", [], ""⟩)
          (callback_frame tireless 7 Reference.spend) (sign_request Reference.spend [0, 1, 2]) "not now"
          (refusal_frame tireless (callback_read 7 Reference.spend) .SignDenied "not now")
        ++ [.client true (.ret (.ok .detached))])

/-- An execution that begins so is fair if everything is over after it. -/
theorem exists_two_clients : ∃ e : Execution (NetStep tireless (fun _ => some Reference.key)
      fun _ => Reference.key) (.start Bool Reference.stream),
    e.history 30 = two_clients_log ∧ (∀ n, FewCallbacks tireless (e.history n)) ∧
    ∀ i, e.WeaklyFair (ClientTurn i) ∧ e.WeaklyFair (HostTurn i) := by
  obtain ⟨s, hrun, ⟨hidle, hempty⟩, hidle', hempty'⟩ := @two_handshakes_run tireless
    (fun _ => some Reference.key) Bool _ (fun _ => Reference.key) Reference.stream true
    tireless_faithful (fun i => ⟨if i then "did" else "other", [], ""⟩)
    (fun i => Reference.sign (challenge_message (Reference.stream (if i then 0 else 2)).val
      (if i then "did" else "other"))) false (by decide) (by decide) (fun _ => rfl)
    (tireless_signs Reference.key _) (tireless_signs Reference.key _)
  have hcallback : callback_of tireless (callback_frame tireless 7 Reference.spend)
      = some (callback_read 7 Reference.spend) :=
    callback_of_eq_some.mpr
      ⟨from_str_callback_frame tireless_faithful.json 7 Reference.spend trivial, rfl⟩
  have hpayload : tireless.base64_decode Reference.spend.payload_b64 = some [0, 1, 2] := by decide
  have hrun : Machine.Run _ _ two_clients_log _ :=
    net_detaches_callback tireless_faithful hrun hidle hempty
      (session_drawn tireless Reference.stream 4 ⟨"did", [], ""⟩) hcallback
      (callback_params_read 7 Reference.spend) hpayload "not now"
  obtain ⟨quiet, hstate, -⟩ := exists_quiet tireless (fun _ => some Reference.key)
    (fun _ : Bool => Reference.key) _
  obtain ⟨e, hstate', -, hhistory⟩ := hrun.extend quiet
  have hlength : two_clients_log.length = 30 := rfl
  rw [hlength] at hstate' hhistory
  -- from then on both clients are idle, and nothing is on its way
  have hafter : ∀ n, 30 ≤ n → ∀ i, (∃ client, (e.state n).clients i = .idle client) ∧
      (e.state n).connections i = ⟨[], []⟩ := by
    intro n hn i
    obtain ⟨j, rfl⟩ := Nat.exists_eq_add_of_le hn
    rw [hstate', (hstate j).1, (hstate j).2]
    cases i with
    | true => exact ⟨⟨_, put_clients _ _ _ _ _⟩, put_connections _ _ _ _ _⟩
    | false =>
      rw [put_clients_of_ne _ _ _ _ _ (by decide), put_connections_of_ne _ _ _ _ _ (by decide)]
      exact ⟨⟨_, hidle'⟩, hempty'⟩
  refine ⟨e, hhistory, few_callbacks_once_quiet (by decide) fun n hn i => (hafter n hn i).1, ?_⟩
  intro i
  exact fair_once_quiet (fun n hn => (hafter n hn i).1) fun n hn => (hafter n hn i).2

/-! ## The theorems -/

/-- **Every call returns.** If the host does not leave a frame of the client
unprocessed for ever, and the client is not stopped for ever, then whatever the
host, its registry and the other clients do in between, a call that client `i`
is in returns after finitely many steps. -/
theorem calls_return [DecidableEq ι] {X : Crates} (hX : X.json.Faithful)
    {resolver : DidSigningKeyResolver} {keys : ι → SigningPublicKey} {stream : ℕ → Nonce}
    (e : Execution (NetStep X resolver keys) (.start ι stream))
    (hfew : ∀ n, FewCallbacks X (e.history n)) {i : ι}
    (hsigns : ∀ m, ∃ signature, verify_signature X (keys i) m signature = true)
    (hclient : e.WeaklyFair (ClientTurn i)) (hhost : e.WeaklyFair (HostTurn i))
    {n : ℕ} {op : ClientOp} {h₀ : ClientHistory}
    (hcall : in_progress (NetLabel.client_label i) (e.history n) = some (op, h₀)) :
    ∃ m out h, n ≤ m ∧ e.label m = .client i (.ret out) ∧
      in_progress (NetLabel.client_label i) (e.history m) = some (op, h) ∧ h₀ <+: h ∧
      ∀ k, n ≤ k → k < m → ∀ out', e.label k ≠ .client i (.ret out') := by
  obtain ⟨p, hin⟩ := in_call hcall
  exact own_return hcall (hin.returns hX hfew hsigns hclient hhost)

/-- Both are served, although one is asked to sign meanwhile. -/
theorem calls_return_two : ∃ (e : Execution (NetStep tireless (fun _ => some Reference.key)
      fun _ => Reference.key) (.start Bool Reference.stream)) (session : Session),
    e.label 5 = .client false (.call (.begin_and_attach ⟨"other", [], ""⟩)) ∧
    e.label 20 = .client true (.call (.detach session)) ∧
    e.label 22 = .callback true (callback_frame tireless 7 Reference.spend) ∧
    e.label 25 = .client true
      (.event ⟨.authorize (sign_request Reference.spend [0, 1, 2]), .Deny "not now"⟩) ∧
    (∃ m out, 6 ≤ m ∧ e.label m = .client false (.ret out)) ∧
    ∃ m out, 21 ≤ m ∧ e.label m = .client true (.ret out) := by
  obtain ⟨e, hhistory, hfew, hfair⟩ := exists_two_clients
  have hreturns : ∀ (n : ℕ) (i : Bool) op, n ≤ 30 →
      in_progress (NetLabel.client_label i) (two_clients_log.take n) = some (op, []) →
      ∃ m out, n ≤ m ∧ e.label m = .client i (.ret out) := by
    intro n i op hn hcall
    rw [← hhistory, e.take_history, Nat.min_eq_left hn] at hcall
    obtain ⟨m, out, h, hm, hl, -⟩ := calls_return tireless_faithful.json e hfew
      (fun m => ⟨_, tireless_signs Reference.key m⟩) (hfair i).1 (hfair i).2 hcall
    exact ⟨m, out, hm, hl⟩
  have hlabel : ∀ n l, n < 30 → two_clients_log[n]? = some l → e.label n = l := by
    intro n l hn hl
    rw [← hhistory, e.getElem?_history hn] at hl
    exact Option.some.inj hl
  exact ⟨e, _, hlabel 5 _ (by decide) rfl, hlabel 20 _ (by decide) rfl, hlabel 22 _ (by decide) rfl,
    hlabel 25 _ (by decide) rfl,
    hreturns 6 false (.begin_and_attach ⟨"other", [], ""⟩) (by decide) rfl,
    hreturns 21 true (.detach _) (by decide) rfl⟩

end DigIpc
