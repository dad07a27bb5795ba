/-
Attach authentication against an active attacker.

The attacker is the engine of an honest client and the only client of an honest
engine, and may relay what it likes from one to the other. Nothing in the step
relation ties the two halves together: what the client reads is anybody's choice
of text, and what the engine is called with anybody's choice of parameters. What
ties them is the signature. `Unforgeable` is the assumption on the scheme, that
what verifies has been signed before; from there the argument runs backwards,
from the `attach` to the bytes the engine verified (`Attached.consumes`), to the
one kind of message that these can be (`signed_challenge`), and to the one call
in which the client signs them.
-/
import DigIpc.ClientCustody
import DigIpc.EngineFailures

set_option autoImplicit false

open Interaction Serde

namespace DigIpc

/-! ## The system -/

/-- What is seen: a step of the client, a call on the registry, or a message of
the user that is signed outside any session. -/
inductive AttackLabel
  | client (cl : ClientLabel)
  | engine (op : EngineOp)
  | user_sign (message : Bytes)

namespace AttackLabel

/-- The part of the client. -/
def client_label : AttackLabel → Option ClientLabel
  | client cl => some cl
  | _ => none

/-- The part of the engine. -/
def engine_op : AttackLabel → Option EngineOp
  | engine op => some op
  | _ => none

end AttackLabel

/-- The client and the engine. The attacker has no state: it knows everything. -/
structure Attack where
  client : ClientState
  registry : EngineSessionRegistry

def Attack.start (stream : ℕ → Nonce) : Attack := { client := .idle .new, registry := .new stream }

/-- One step. The replies to the client and the calls on the engine are the
attacker's. -/
inductive AttackStep (X : Crates) : Attack → AttackLabel → Attack → Prop
  | client {s : Attack} {cl : ClientLabel} {client : ClientState}
      (step : ClientStep X s.client cl client) : AttackStep X s (.client cl) { s with client }
  | engine {s : Attack} (op : EngineOp) :
      AttackStep X s (.engine op) { s with registry := (op.apply X s.registry).2 }
  | user_sign {s : Attack} (message : Bytes) : AttackStep X s (.user_sign message) s

theorem attack_has_client (X : Crates) (stream : ℕ → Nonce) :
    HasClient X (AttackStep X) (.start stream) AttackLabel.client_label Attack.client where
  start := rfl
  still := by
    intro s l s' hstep hview
    cases hstep with
    | client step => cases hview
    | engine op => rfl
    | user_sign message => rfl
  moves := by
    intro s l s' cl hstep hview
    cases hstep with
    | client step => cases hview; exact step
    | engine op => cases hview
    | user_sign message => cases hview

/-- The registry of a state is the one that the calls so far leave. -/
theorem attack_registry {X : Crates} {stream : ℕ → Nonce} {ls : List AttackLabel} {s : Attack}
    (hrun : Machine.Run (AttackStep X) (.start stream) ls s) :
    s.registry = registry_after X stream AttackLabel.engine_op ls := by
  refine hrun.invariant
    (I := fun ls s => s.registry = registry_after X stream AttackLabel.engine_op ls) rfl ?_
  intro ls s l s' _ ih hstep
  rw [registry_after_snoc, ← ih]
  cases hstep <;> rfl

/-! ## What is assumed -/

/-- At `i` the holder of the key signs exactly `m`: as the client's signer, or for
the user, whose message goes through `user_sign_message`. -/
inductive SignedAt (ls : List AttackLabel) (i : ℕ) : Bytes → Prop
  | try_sign {m : Bytes} {signature : Signature}
      (signed : ls[i]? = some (.client (.event ⟨.try_sign m, some signature⟩))) : SignedAt ls i m
  | sign {m : Bytes} {signature : Signature}
      (signed : ls[i]? = some (.client (.event ⟨.sign m, signature⟩))) : SignedAt ls i m
  | user_sign {message : Bytes} (signed : ls[i]? = some (.user_sign message)) :
      SignedAt ls i (user_sign_message message)

/-- Ideal signatures: when the engine is given a signature that verifies under
`pk`, the holder of `pk` has already signed exactly the bytes that it verifies. -/
def Unforgeable (X : Crates) (pk : SigningPublicKey) (ls : List AttackLabel) : Prop :=
  ∀ (a : ℕ) (resolver : DidSigningKeyResolver) (params : AttachParams) (signature : Signature)
    (m : Bytes), ls[a]? = some (.engine (.attach resolver params)) →
    X.base64_decode params.signature_b64 = some signature.as_bytes →
    verify_signature X pk m signature = true → ∃ i, i < a ∧ SignedAt ls i m

/-- The resolver answers `pk` for `d`, or nothing. -/
def Published (pk : SigningPublicKey) (d : String) (ls : List AttackLabel) : Prop :=
  ∀ (a : ℕ) (resolver : DidSigningKeyResolver) (params : AttachParams),
    ls[a]? = some (.engine (.attach resolver params)) → resolver d = some pk ∨ resolver d = none

/-! ## What is signed -/

/-- In the call that begins at `c`, a handshake for `d`, the client signs the
challenge of `nonce` for `d` at `i`. -/
structure ChallengeSigned (X : Crates) (ls : List AttackLabel) (nonce : Nonce) (d : String)
    (c i : ℕ) : Prop where
  begun : ∃ op profile, ls[c]? = some (.client (.call op)) ∧ op.profile = some profile ∧
    profile.did = d
  earlier : c < i
  inside : ∀ k cl, c < k → k < i → ls[k]? = some (.client cl) → ∃ e, cl = .event e
  signed : ∃ signature, ls[i]?
    = some (.client (.event ⟨.try_sign (challenge_message nonce.val d), some signature⟩))
  due : ∃ op h, in_progress AttackLabel.client_label (ls.take i) = some (op, h) ∧
    ChallengeDue X op h (challenge_message nonce.val d)

section Runs

variable {X : Crates} {stream : ℕ → Nonce} {ls : List AttackLabel} {s : Attack}

/-- A challenge is due in a handshake for its own DID. -/
theorem ChallengeDue.handshake {op : ClientOp} {h : ClientHistory} {nonce : Nonce} {d : String}
    (hdue : ChallengeDue X op h (challenge_message nonce.val d)) :
    ∃ profile, op.profile = some profile ∧ profile.did = d := by
  generalize hm : challenge_message nonce.val d = m at hdue
  cases hdue with
  | @intro profile begin nonce' id pubkey_hex handshake requested answered decoded length =>
    obtain ⟨-, hd⟩ := @challenge_message_injective nonce ⟨nonce', length⟩ _ _ hm
    exact ⟨profile, handshake, hd.symm⟩

/-- A callback never asks for a challenge. -/
theorem CallbackDue.not_challenge {h : ClientHistory} {m : Bytes} (hdue : CallbackDue X h m)
    (nonce : Bytes) (d : String) : m ≠ challenge_message nonce d := by
  cases hdue with
  | intro events parse method decoded contents message =>
    exact (challenge_apart_callback nonce d message).ne.symm

include stream in
/-- **The bytes of a challenge are signed in a handshake only**, whatever the
client reads and whatever the user signs. -/
theorem signed_challenge (hrun : Machine.Run (AttackStep X) (.start stream) ls s) {i : ℕ}
    {nonce : Nonce} {d : String} (hsigned : SignedAt ls i (challenge_message nonce.val d)) :
    ∃ c, ChallengeSigned X ls nonce d c i := by
  generalize hm : challenge_message nonce.val d = m at hsigned
  cases hsigned with
  | @try_sign m signature hl =>
    obtain ⟨client, op, h, hcall, -, hevent⟩ := (attack_has_client X stream).event hrun hl rfl
    rcases hevent.signing_due rfl with hdue | hdue
    · rw [← hm] at hdue hl
      obtain ⟨c, l, hci, hlc, hview, hevents⟩ := in_progress_begun AttackLabel.client_label hcall
      obtain rfl : l = .client (.call op) := by
        cases l <;> cases hview
        rfl
      obtain ⟨profile, hprofile, hdid⟩ := hdue.handshake
      exact ⟨c, ⟨op, profile, hlc, hprofile, hdid⟩, hci,
        fun k cl hck hki hlk => hevents k _ cl hck hki hlk rfl, ⟨signature, hl⟩, op, h, hcall, hdue⟩
    · exact absurd hm.symm (hdue.not_challenge _ _)
  | sign hl =>
    obtain ⟨client, op, h, hcall, -, hevent⟩ := (attack_has_client X stream).event hrun hl rfl
    exact absurd rfl (hevent.not_sign _)
  | user_sign hl => exact absurd hm (challenge_apart_user _ _ _).ne

/-- One call signs one challenge. -/
theorem ChallengeSigned.same_call (hrun : Machine.Run (AttackStep X) (.start stream) ls s)
    {nonce nonce' : Nonce} {d d' : String} {c i i' : ℕ} (hi : ChallengeSigned X ls nonce d c i)
    (hi' : ChallengeSigned X ls nonce' d' c i') : ¬ i < i' := by
  intro hlt
  obtain ⟨signature, hl⟩ := hi.signed
  obtain ⟨signature', hl'⟩ := hi'.signed
  obtain ⟨op, h, hcall, hdue⟩ := hi.due
  obtain ⟨op', h', hcall', hdue'⟩ := hi'.due
  have hnone : ∀ k l op'', i + 1 ≤ k → k < i' → ls[k]? = some l →
      l.client_label ≠ some (.call op'') := by
    intro k l op'' hk hk' hlk hview
    cases l with
    | client cl =>
      obtain ⟨e, rfl⟩ := hi'.inside k cl (hi.earlier.trans hk) hk' hlk
      cases hview
    | _ => cases hview
  obtain ⟨h₁, hcall₁, hgrows⟩ := in_progress_back AttackLabel.client_label hlt hnone hcall'
  have hnext : in_progress AttackLabel.client_label (ls.take (i + 1)) = some (op, h ++
      [⟨.try_sign (challenge_message nonce.val d), some signature⟩]) := by
    rw [List.take_add_one, hl, Option.toList_some, in_progress_snoc, hcall]
    rfl
  rw [hnext] at hcall₁
  obtain ⟨rfl, rfl⟩ := Prod.mk.inj (Option.some.inj hcall₁)
  obtain ⟨client, op₂, h₂, hcall₂, -, hevent⟩ := (attack_has_client X stream).event hrun hl' rfl
  rw [hcall'] at hcall₂
  obtain ⟨rfl, rfl⟩ := Prod.mk.inj (Option.some.inj hcall₂)
  obtain ⟨profile, begin, nonce₂, hchallenged, -⟩ := hevent.challenged_of_due hdue'
  exact hchallenged.not_due_before hgrows hdue

/-- **A session for `d` was authorised**: the client signed the challenge of the
nonce that the `attach` consumed. -/
theorem Attached.authorised {pk : SigningPublicKey} {d : String}
    (hrun : Machine.Run (AttackStep X) (.start stream) ls s) (hideal : Unforgeable X pk ls)
    (hkey : Published pk d ls) {a : ℕ} {resolver : DidSigningKeyResolver} {params : AttachParams}
    {result : AttachResult}
    (hattached : Attached X stream AttackLabel.engine_op ls a resolver params result)
    (hdid : params.profile.did = d) :
    ∃ b c i, Consumes X stream AttackLabel.engine_op ls a resolver params b ∧
      (∀ j l, b < j → j < a → ls[j]? = some l →
        ¬ AttachNames AttackLabel.engine_op params.session_candidate l) ∧ i < a ∧
      ChallengeSigned X ls (begin_nonce X stream AttackLabel.engine_op ls b) d c i := by
  obtain ⟨b, hconsumes, huntouched⟩ := hattached.consumes
  obtain ⟨bparams, bresult, key, signature, -, -, -, -, -, hresolved, hdecoded, hverified⟩ :=
    hconsumes.entitled
  obtain ⟨l, hl, hview, -⟩ := hattached
  obtain rfl : l = .engine (.attach resolver params) := by
    cases l <;> cases hview
    rfl
  rw [hdid] at hresolved hverified
  have hpk : key = pk := by
    rcases hkey a resolver params hl with hsome | hnone
    · rw [hresolved] at hsome
      exact Option.some.inj hsome
    · rw [hresolved] at hnone
      cases hnone
  rw [hpk] at hverified
  obtain ⟨i, hia, hsigned⟩ := hideal a resolver params signature _ hl hdecoded hverified
  obtain ⟨c, hchallenge⟩ := signed_challenge hrun hsigned
  exact ⟨b, c, i, hconsumes, huntouched, hia, hchallenge⟩

end Runs

/-! ## The theorem -/

/-- **Attach authentication.** However the attacker interleaves the two halves and
whatever it sends, every session for `d` was opened by an `attach` that consumed a
`begin` whose nonce the client had signed for `d` before, in a handshake for `d`;
and no two of them share the `begin`, its nonce, the handshake or the signature. -/
theorem attach_authenticated {X : Crates} {stream : ℕ → Nonce} {pk : SigningPublicKey} {d : String}
    {ls : List AttackLabel} {s : Attack} (hrun : Machine.Run (AttackStep X) (.start stream) ls s)
    (hideal : Unforgeable X pk ls) (hkey : Published pk d ls)
    (hdistinct : s.registry.entropy.Distinct) :
    (∀ session_id profile, s.registry.session session_id = some profile → profile.did = d →
      ∃ a resolver params result,
        Attached X stream AttackLabel.engine_op ls a resolver params result ∧
        result.session_id = session_id ∧ params.profile = profile) ∧
    ∃ beginOf callOf signOf : ℕ → ℕ,
      (∀ a resolver params result,
        Attached X stream AttackLabel.engine_op ls a resolver params result →
        params.profile.did = d →
        Consumes X stream AttackLabel.engine_op ls a resolver params (beginOf a) ∧ signOf a < a ∧
        ChallengeSigned X ls (begin_nonce X stream AttackLabel.engine_op ls (beginOf a)) d
          (callOf a) (signOf a)) ∧
      ∀ a a' resolver resolver' params params' result result',
        Attached X stream AttackLabel.engine_op ls a resolver params result →
        Attached X stream AttackLabel.engine_op ls a' resolver' params' result' →
        params.profile.did = d → params'.profile.did = d → a ≠ a' →
        beginOf a ≠ beginOf a' ∧
        begin_nonce X stream AttackLabel.engine_op ls (beginOf a)
          ≠ begin_nonce X stream AttackLabel.engine_op ls (beginOf a') ∧
        callOf a ≠ callOf a' ∧ signOf a ≠ signOf a' := by
  classical
  rw [attack_registry hrun] at hdistinct ⊢
  refine ⟨fun session_id profile hsession _ => session_origin ls hsession, ?_⟩
  -- at one place there is one `attach`, so the three are functions of the place
  have hchoice : ∀ a, ∃ b c i, ∀ resolver params result,
      Attached X stream AttackLabel.engine_op ls a resolver params result →
      params.profile.did = d →
      Consumes X stream AttackLabel.engine_op ls a resolver params b ∧
      (∀ j l, b < j → j < a → ls[j]? = some l →
        ¬ AttachNames AttackLabel.engine_op params.session_candidate l) ∧ i < a ∧
      ChallengeSigned X ls (begin_nonce X stream AttackLabel.engine_op ls b) d c i := by
    intro a
    by_cases hex : ∃ resolver params result,
        Attached X stream AttackLabel.engine_op ls a resolver params result ∧ params.profile.did = d
    · obtain ⟨resolver, params, result, hattached, hdid⟩ := hex
      obtain ⟨b, c, i, hall⟩ := hattached.authorised hrun hideal hkey hdid
      refine ⟨b, c, i, fun resolver' params' result' hattached' _ => ?_⟩
      obtain ⟨l, hl, hview, -⟩ := hattached
      obtain ⟨l', hl', hview', -⟩ := hattached'
      obtain rfl : l = l' := Option.some.inj (hl.symm.trans hl')
      cases hview.symm.trans hview'
      exact hall
    · exact ⟨0, 0, 0, fun resolver params result hattached hdid =>
        absurd ⟨resolver, params, result, hattached, hdid⟩ hex⟩
  choose beginOf callOf signOf hall using hchoice
  refine ⟨beginOf, callOf, signOf, fun a resolver params result hattached hdid => ?_, ?_⟩
  · obtain ⟨hconsumes, -, hia, hsigned⟩ := hall a resolver params result hattached hdid
    exact ⟨hconsumes, hia, hsigned⟩
  intro a a' resolver resolver' params params' result result' hattached hattached' hdid hdid' hne
  obtain ⟨hconsumes, huntouched, hia, hsigned⟩ := hall a resolver params result hattached hdid
  obtain ⟨hconsumes', huntouched', hia', hsigned'⟩ :=
    hall a' resolver' params' result' hattached' hdid'
  have hbegin : beginOf a ≠ beginOf a' := by
    intro heq
    rw [← heq] at hconsumes' huntouched'
    exact hne (attached_unique hattached hattached' hconsumes hconsumes' huntouched huntouched')
  have hnonce : begin_nonce X stream AttackLabel.engine_op ls (beginOf a)
      ≠ begin_nonce X stream AttackLabel.engine_op ls (beginOf a') := by
    intro heq
    obtain ⟨bparams, bresult, key, signature, hbegun, -⟩ := hconsumes.entitled
    obtain ⟨bparams', bresult', key', signature', hbegun', -⟩ := hconsumes'.entitled
    exact hbegin (begin_nonce_injective hdistinct hbegun hbegun' heq)
  have hsign : signOf a ≠ signOf a' := by
    intro heq
    rw [← heq] at hsigned'
    obtain ⟨signature, hl⟩ := hsigned.signed
    obtain ⟨signature', hl'⟩ := hsigned'.signed
    rw [hl] at hl'
    simp only [Option.some.injEq, AttackLabel.client.injEq, ClientLabel.event.injEq] at hl'
    have hm := congrArg Sigma.fst hl'
    exact hnonce (challenge_message_injective (Seam.try_sign.inj hm)).1
  refine ⟨hbegin, hnonce, fun heq => ?_, hsign⟩
  rw [← heq] at hsigned'
  rcases Nat.lt_or_gt_of_ne hsign with hlt | hlt
  · exact hsigned.same_call hrun hsigned' hlt
  · exact hsigned'.same_call hrun hsigned hlt

/-! ## A relay -/

section Relay

variable {X : Crates}

/-- The client moves, and nothing else does. -/
theorem attack_client_run {stream : ℕ → Nonce} {ls : List AttackLabel} {s : Attack}
    (hrun : Machine.Run (AttackStep X) (.start stream) ls s) {cls : List ClientLabel}
    {client : ClientState} (hclient : Machine.Run (ClientStep X) s.client cls client) :
    Machine.Run (AttackStep X) (.start stream) (ls ++ cls.map .client) { s with client } := by
  induction hclient with
  | start => rwa [List.map_nil, List.append_nil]
  | step _ hstep ih =>
    have hnext := ih.step (.client hstep)
    rwa [List.append_assoc, ← List.map_singleton, ← List.map_append] at hnext

/-- What the engine answers to its first `begin`. -/
def relay_begin (X : Crates) (stream : ℕ → Nonce) : BeginResult :=
  { nonce_b64 := X.base64_encode (stream 0).val,
    session_candidate := X.hex_encode (stream 1).val }

/-- The attacker begins a handshake in the client's name, passes the engine's
answer on to the client, makes up the answer to the client's `attach`, and
attaches with the client's signature itself. -/
def relay_log (X : Crates) (stream : ℕ → Nonce) (key : SigningPublicKey)
    (profile : ProfileAttachment) (signature : Signature) (attach : AttachResult) :
    List AttackLabel :=
  [.engine (.begin ⟨profile.did, key.to_hex X⟩)] ++
    ([.call (.begin_and_attach profile),
      .event ⟨.signing_public_key_hex, key.to_hex X⟩,
      .event ⟨.send_frame (begin_frame X 1 profile (key.to_hex X)), .ok ()⟩,
      .event ⟨.recv_frame, .ok (result_frame X (Value.of (ofU64 1)) (relay_begin X stream).encode)⟩,
      .event ⟨.try_sign (challenge_message (stream 0).val profile.did), some signature⟩,
      .event ⟨.send_frame (attach_frame X 2 (relay_begin X stream) signature profile), .ok ()⟩,
      .event ⟨.recv_frame, .ok (result_frame X (Value.of (ofU64 2)) attach.encode)⟩] :
      List ClientLabel).map .client ++
  [.engine (.attach (fun _ => some key)
    ⟨X.hex_encode (stream 1).val, X.base64_encode signature.as_bytes, profile⟩)]

theorem relay_run (hX : X.Faithful) (stream : ℕ → Nonce) (key : SigningPublicKey)
    (profile : ProfileAttachment) (signature : Signature) (attach : AttachResult) :
    ∃ s, Machine.Run (AttackStep X) (.start stream)
      (relay_log X stream key profile signature attach) s := by
  have hperforms := @performs_begin_and_attach X .new profile (key.to_hex X) _ _ _ _ _ _ _
    (from_str_result_frame hX.json 1 .BeginResult nofun (relay_begin X stream)) nofun
    (response_of_read 1 .BeginResult _) (hX.base64 _) (stream 0).property signature
    (from_str_result_frame hX.json 2 .AttachResult nofun attach) nofun (response_of_read 2 .AttachResult _)
  have hbegun : Machine.Run (AttackStep X) (.start stream) ([] ++ [.engine (.begin _)]) _ :=
    Machine.Run.start.step (.engine (.begin ⟨profile.did, key.to_hex X⟩))
  have hclient := attack_client_run hbegun (run_call .start hperforms)
  exact ⟨_, hclient.step (.engine _)⟩

/-- The engine opens the session. -/
theorem relay_attached (hX : X.Faithful) {stream : ℕ → Nonce} {key : SigningPublicKey}
    {profile : ProfileAttachment} {signature : Signature} (attach : AttachResult)
    (hverify : verify_signature X key (challenge_message (stream 0).val profile.did) signature = true) :
    ∃ result, Attached X stream AttackLabel.engine_op
      (relay_log X stream key profile signature attach) 8 (fun _ => some key)
      ⟨X.hex_encode (stream 1).val, X.base64_encode signature.as_bytes, profile⟩ result := by
  have hafter : registry_after X stream AttackLabel.engine_op
      ((relay_log X stream key profile signature attach).take 8)
        = (EngineSessionRegistry.new stream).remember X key profile.did := by
    show ((EngineSessionRegistry.new stream).begin X ⟨profile.did, key.to_hex X⟩).2 = _
    rcases (EngineSessionRegistry.new stream).begin_cases X ⟨profile.did, key.to_hex X⟩ with
      ⟨hnone, -⟩ | ⟨key', hkey, hbegin⟩
    · rw [SigningPublicKey.from_hex_to_hex hX] at hnone
      cases hnone
    · rw [SigningPublicKey.from_hex_to_hex hX] at hkey
      rw [hbegin, ← Option.some.inj hkey]
  have hpending : ((EngineSessionRegistry.new stream).remember X key profile.did).pending[
      X.hex_encode (stream 1).val]? = some { nonce := stream 0, advertised_key := key,
                                             profile_did := profile.did } :=
    Std.ExtHashMap.getElem?_insert_self
  rcases ((EngineSessionRegistry.new stream).remember X key profile.did).attach_cases X
      (fun _ => some key)
      ⟨X.hex_encode (stream 1).val, X.base64_encode signature.as_bytes, profile⟩ with
    ⟨hnone, -⟩ | ⟨pending, hsome, hverdict⟩
  · rw [hpending] at hnone
    cases hnone
  · rw [hpending] at hsome
    obtain rfl := Option.some.inj hsome
    rcases hverdict with ⟨hrefused, -⟩ | ⟨-, hattach⟩
    · exact absurd ⟨rfl, rfl, signature, decode_signature_eq_ok.mpr (hX.base64 _), hverify⟩ hrefused
    · exact ⟨_, _, rfl, rfl, by rw [hafter, hattach]⟩

end Relay

/-- The relay succeeds: its session is one that the client authorised. -/
theorem attach_authenticated_relay :
    ∃ ls s resolver params result b c i,
      Machine.Run (AttackStep Reference.crates) (.start Reference.stream) ls s ∧
      Attached Reference.crates Reference.stream AttackLabel.engine_op ls 8 resolver params result ∧
      ChallengeSigned Reference.crates ls
        (begin_nonce Reference.crates Reference.stream AttackLabel.engine_op ls b) "did" c i := by
  let profile : ProfileAttachment := ⟨"did", [], ""⟩
  let m := challenge_message (Reference.stream 0).val profile.did
  have hshort : m.length ≤ Reference.MAX_MESSAGE := by decide
  let log := relay_log Reference.crates Reference.stream Reference.key profile (Reference.sign m)
    ⟨"", []⟩
  have hverify : verify_signature Reference.crates Reference.key m (Reference.sign m) = true :=
    Reference.verify_signature_iff.mpr ⟨hshort, rfl⟩
  obtain ⟨s, hrun⟩ := relay_run Reference.faithful Reference.stream Reference.key profile
    (Reference.sign m) ⟨"", []⟩
  obtain ⟨result, hattached⟩ := relay_attached Reference.faithful ⟨"", []⟩ hverify
  -- there is one `attach`, the last label of the log
  have hlast : ∀ {a : ℕ} {resolver : DidSigningKeyResolver} {params : AttachParams},
      log[a]? = some (.engine (.attach resolver params)) → a = 8 ∧
        resolver = (fun _ => some Reference.key) ∧ params.signature_b64
          = Reference.crates.base64_encode (Reference.sign m).as_bytes := by
    intro a resolver params hl
    rcases Machine.getElem?_snoc hl with ⟨-, hl⟩ | ⟨rfl, heq⟩
    · have hmem := List.mem_of_getElem? hl
      simp at hmem
    · cases heq
      exact ⟨rfl, rfl, rfl⟩
  have hideal : Unforgeable Reference.crates Reference.key log := by
    intro a resolver params signature m' hl hdecoded hverified
    obtain ⟨rfl, -, hsignature⟩ := hlast hl
    rw [hsignature, Reference.faithful.base64] at hdecoded
    have hsame : Reference.sign m = signature := by
      cases signature
      exact congrArg Signature.mk (Subtype.ext (Option.some.inj hdecoded))
    obtain ⟨hshort', hsign⟩ := Reference.verify_signature_iff.mp hverified
    rw [← hsame] at hsign
    rw [← Reference.sign_injective hshort hshort' hsign]
    exact ⟨5, by omega, .try_sign rfl⟩
  have hkey : Published Reference.key "did" log := by
    intro a resolver params hl
    obtain ⟨-, rfl, -⟩ := hlast hl
    exact Or.inl rfl
  have hdistinct : s.registry.entropy.Distinct := by
    rw [attack_registry hrun]
    have hle := drawn_le Reference.crates Reference.stream AttackLabel.engine_op log
    have hlen : 2 * log.length = 18 := rfl
    exact Reference.distinct (stream_after _ _ _ _) (hle.trans (by omega))
  obtain ⟨-, beginOf, callOf, signOf, hall, -⟩ := attach_authenticated hrun hideal hkey hdistinct
  exact ⟨log, s, _, _, result, _, _, _, hrun, hattached, (hall 8 _ _ _ hattached rfl).2.2⟩

end DigIpc
