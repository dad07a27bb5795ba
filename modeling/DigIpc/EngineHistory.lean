/-
Whole runs of the engine: where an open session comes from.

A run is a list of calls on one registry. What a session proves is about the
past -- which `begin` its `attach` consumed, and that no other session consumed
the same one -- so the statements here index into the run.

The list need not hold calls only: `view` says which elements of a history are
calls on the registry and which are something else (a step of a client, a
message in flight). The systems built later read the same lemmas at their own
histories; a run of the engine alone is `view := some`.

The invariant that carries everything is `Origin`: a pending entry was made by
some `begin`, and since that `begin` no `attach` has named its token. Entropy may
repeat: a later `begin` with the same token takes the entry over, and is then
its origin.
-/
import DigIpc.Machine
import DigIpc.Engine

set_option autoImplicit false

open Std

namespace DigIpc

/-! ## Calls and their results -/

/-- A call on the registry. The resolver is the one the call is made with. -/
inductive EngineOp
  | begin (params : BeginParams)
  | attach (resolver : DidSigningKeyResolver) (params : AttachParams)
  | detach (session_id : String)

/-- What a call returns. -/
inductive EngineOut
  | begin (result : Except AttachError BeginResult)
  | attach (result : Except AttachError AttachResult)
  | detach (removed : Bool)

/-- Make a call. -/
def EngineOp.apply (X : Crates) (reg : EngineSessionRegistry) :
    EngineOp → EngineOut × EngineSessionRegistry
  | .begin params => ((.begin (reg.begin X params).1), (reg.begin X params).2)
  | .attach resolver params =>
    ((.attach (reg.attach X resolver params).1), (reg.attach X resolver params).2)
  | .detach session_id => ((.detach (reg.detach session_id).1), (reg.detach session_id).2)

section History

variable (X : Crates) (stream : ℕ → Nonce) {ℓ : Type} (view : ℓ → Option EngineOp)

/-- The registry after one element of a history. -/
def advance (reg : EngineSessionRegistry) (l : ℓ) : EngineSessionRegistry :=
  match view l with
  | none => reg
  | some op => (op.apply X reg).2

/-- The registry after a history that starts with a new registry. -/
def registry_after (ls : List ℓ) : EngineSessionRegistry :=
  ls.foldl (advance X view) (EngineSessionRegistry.new stream)

@[simp] theorem registry_after_nil :
    registry_after X stream view [] = EngineSessionRegistry.new stream := rfl

@[simp] theorem registry_after_snoc (ls : List ℓ) (l : ℓ) :
    registry_after X stream view (ls ++ [l]) = advance X view (registry_after X stream view ls) l := by
  simp [registry_after]

/-- The nonce that a `begin` at position `b` draws. -/
def begin_nonce (ls : List ℓ) (b : ℕ) : Nonce :=
  (registry_after X stream view (ls.take b)).entropy.fill_nonce.1

/-- Position `b` is a `begin` that succeeds. -/
def Begun (ls : List ℓ) (b : ℕ) (params : BeginParams) (result : BeginResult) : Prop :=
  ∃ l, ls[b]? = some l ∧ view l = some (.begin params) ∧
    ((registry_after X stream view (ls.take b)).begin X params).1 = .ok result

/-- Position `a` is an `attach` that succeeds. -/
def Attached (ls : List ℓ) (a : ℕ) (resolver : DidSigningKeyResolver) (params : AttachParams)
    (result : AttachResult) : Prop :=
  ∃ l, ls[a]? = some l ∧ view l = some (.attach resolver params) ∧
    ((registry_after X stream view (ls.take a)).attach X resolver params).1 = .ok result

/-- An element that is an `attach` naming `token`, successful or not. -/
def AttachNames (token : String) (l : ℓ) : Prop :=
  ∃ resolver params, view l = some (.attach resolver params) ∧ params.session_candidate = token

/-- The pending entry `p` under `token` was made by the `begin` at `b`, and no
`attach` since has named the token. -/
structure Origin (ls : List ℓ) (token : String) (p : PendingCandidate) (b : ℕ) : Prop where
  made : ∃ params result key, Begun X stream view ls b params result ∧
    result.session_candidate = token ∧
    SigningPublicKey.from_hex X params.signing_pubkey_hex = some key ∧
    p = { nonce := begin_nonce X stream view ls b, advertised_key := key,
          profile_did := params.profile_did }
  untouched : ∀ j l, b < j → ls[j]? = some l → ¬ AttachNames view token l

variable {X stream view}

/-! ## Positions do not move when a history grows -/

theorem Begun.snoc {ls : List ℓ} {b : ℕ} {params : BeginParams} {result : BeginResult}
    (h : Begun X stream view ls b params result) (l' : ℓ) :
    Begun X stream view (ls ++ [l']) b params result := by
  obtain ⟨l, hl, hv, hr⟩ := h
  obtain ⟨hl', htake⟩ := Machine.getElem?_snoc_of_some hl l'
  exact ⟨l, hl', hv, by rw [htake]; exact hr⟩

theorem begin_nonce_snoc {ls : List ℓ} {b : ℕ} (hb : b ≤ ls.length) (l' : ℓ) :
    begin_nonce X stream view (ls ++ [l']) b = begin_nonce X stream view ls b := by
  rw [begin_nonce, List.take_append_of_le_length hb, begin_nonce]

theorem Begun.lt_length {ls : List ℓ} {b : ℕ} {params : BeginParams} {result : BeginResult}
    (h : Begun X stream view ls b params result) : b < ls.length := by
  obtain ⟨l, hl, -⟩ := h
  exact (List.getElem?_eq_some_iff.mp hl).1

theorem Begun.take {ls : List ℓ} {b n : ℕ} {params : BeginParams} {result : BeginResult}
    (h : Begun X stream view (ls.take n) b params result) :
    Begun X stream view ls b params result := by
  obtain ⟨l, hl, hv, hr⟩ := h
  have hbn : b < n := by
    have := (List.getElem?_eq_some_iff.mp hl).1
    simp only [List.length_take] at this
    omega
  rw [List.getElem?_take_of_lt hbn] at hl
  rw [List.take_take, Nat.min_eq_left hbn.le] at hr
  exact ⟨l, hl, hv, hr⟩

theorem begin_nonce_take {ls : List ℓ} {b n : ℕ} (hb : b ≤ n) :
    begin_nonce X stream view (ls.take n) b = begin_nonce X stream view ls b := by
  rw [begin_nonce, List.take_take, Nat.min_eq_left hb, begin_nonce]

/-- An origin stays one as long as nothing names its token. -/
theorem Origin.snoc {ls : List ℓ} {token : String} {p : PendingCandidate} {b : ℕ}
    (h : Origin X stream view ls token p b) {l' : ℓ} (hl' : ¬ AttachNames view token l') :
    Origin X stream view (ls ++ [l']) token p b := by
  obtain ⟨params, result, key, hb, htok, hkey, hp⟩ := h.made
  refine ⟨⟨params, result, key, hb.snoc l', htok, hkey, ?_⟩, fun j l hj hl => ?_⟩
  · rw [begin_nonce_snoc hb.lt_length.le]; exact hp
  · rcases Machine.getElem?_snoc hl with ⟨-, hl⟩ | ⟨-, rfl⟩
    · exact h.untouched j l hj hl
    · exact hl'

/-! ## The invariant -/

/-- Eviction only removes. -/
theorem evict_getElem? {token : String} {p : PendingCandidate} (order : List String) :
    ∀ {pending : ExtHashMap String PendingCandidate},
      (EngineSessionRegistry.evict pending order).1[token]? = some p → pending[token]? = some p := by
  induction order with
  | nil => exact fun h => h
  | cons oldest rest ih =>
      intro pending h
      rw [EngineSessionRegistry.evict] at h
      by_cases hfull : MAX_PENDING_CANDIDATES ≤ pending.size
      · rw [if_pos hfull] at h
        have herase := ih h
        rw [ExtHashMap.getElem?_erase] at herase
        split at herase
        · cases herase
        · exact herase
      · rwa [if_neg hfull] at h

/-- **Every pending entry has an origin.** -/
theorem pending_origin (ls : List ℓ) : ∀ {token : String} {p : PendingCandidate},
    (registry_after X stream view ls).pending[token]? = some p →
      ∃ b, Origin X stream view ls token p b := by
  induction ls using List.reverseRecOn with
  | nil =>
      intro token p h
      simp [EngineSessionRegistry.new] at h
  | append_singleton ls l ih =>
      intro token p h
      rw [registry_after_snoc, advance] at h
      -- an element that leaves the entry alone and does not name it keeps its origin
      have keep : (registry_after X stream view ls).pending[token]? = some p →
          ¬ AttachNames view token l → ∃ b, Origin X stream view (ls ++ [l]) token p b :=
        fun hold hname => (ih hold).imp fun b hb => hb.snoc hname
      cases hview : view l with
      | none =>
          rw [hview] at h
          exact keep h (by rintro ⟨_, _, hv, -⟩; rw [hview] at hv; cases hv)
      | some op =>
        rw [hview] at h
        cases op with
        | detach session_id =>
            exact keep h (by rintro ⟨_, _, hv, -⟩; rw [hview] at hv; cases hv)
        | begin params =>
            have hname : ¬ AttachNames view token l := by
              rintro ⟨_, _, hv, -⟩; rw [hview] at hv; cases hv
            simp only [EngineOp.apply] at h
            rcases (registry_after X stream view ls).begin_cases X params with ⟨-, hb⟩ | ⟨key, hkey, hb⟩
            · rw [hb] at h
              exact keep h hname
            · rw [hb] at h
              simp only [EngineSessionRegistry.remember, ExtHashMap.getElem?_insert] at h
              split at h
              · -- the entry is the new one: this `begin` is its origin
                rename_i htok
                have hbegun : Begun X stream view (ls ++ [l]) ls.length params
                    { nonce_b64 := _, session_candidate := _ } :=
                  ⟨l, by simp, hview, by rw [List.take_left, hb]⟩
                refine ⟨ls.length, ⟨params, _, key, hbegun, eq_of_beq htok, hkey, ?_⟩, ?_⟩
                · rw [begin_nonce, List.take_left]; exact (Option.some.inj h).symm
                · intro j l' hj hl'
                  have := (List.getElem?_eq_some_iff.mp hl').1
                  simp only [List.length_append, List.length_singleton] at this
                  omega
              · exact keep (evict_getElem? _ h) hname
        | attach resolver params =>
            simp only [EngineOp.apply] at h
            -- an entry still there after an `attach` is not the one it named
            have hname : params.session_candidate ≠ token → ¬ AttachNames view token l := by
              rintro hne ⟨_, _, hv, htok⟩; rw [hview] at hv; cases hv; exact hne htok
            have herase : ∀ {m : ExtHashMap String PendingCandidate},
                (m.erase params.session_candidate)[token]? = some p →
                params.session_candidate ≠ token ∧ m[token]? = some p := by
              intro m hm
              rw [ExtHashMap.getElem?_erase] at hm
              split at hm
              · cases hm
              · rename_i hne
                exact ⟨fun heq => hne (by simp [heq]), hm⟩
            rcases (registry_after X stream view ls).attach_cases X resolver params with
              ⟨hnone, ha⟩ | ⟨pending, hsome, ⟨-, e, -, ha⟩ | ⟨-, ha⟩⟩
            · rw [ha] at h
              exact keep h (hname (by rintro rfl; rw [hnone] at h; cases h))
            · rw [ha] at h
              obtain ⟨hne, hold⟩ := herase h
              exact keep hold (hname hne)
            · rw [ha] at h
              obtain ⟨hne, hold⟩ := herase h
              exact keep hold (hname hne)

/-! ## What a successful `attach` consumed -/

variable (X stream view) in
/-- The `begin` at `b` is the one that the `attach` with these parameters,
answered by this resolver, was entitled to at `a`. -/
structure Consumes (ls : List ℓ) (a : ℕ) (resolver : DidSigningKeyResolver)
    (params : AttachParams) (b : ℕ) : Prop where
  earlier : b < a
  entitled : ∃ bparams bresult key signature,
    Begun X stream view ls b bparams bresult ∧
    bresult.nonce_b64 = X.base64_encode (begin_nonce X stream view ls b).val ∧
    params.session_candidate = bresult.session_candidate ∧
    bparams.profile_did = params.profile.did ∧
    SigningPublicKey.from_hex X bparams.signing_pubkey_hex = some key ∧
    resolver params.profile.did = some key ∧
    X.base64_decode params.signature_b64 = some (Signature.as_bytes signature) ∧
    verify_signature X key
      (challenge_message (begin_nonce X stream view ls b).val params.profile.did) signature = true

/-- A `begin` answers with the nonce it draws. -/
theorem Begun.nonce {ls : List ℓ} {b : ℕ} {params : BeginParams} {result : BeginResult}
    (h : Begun X stream view ls b params result) :
    result.nonce_b64 = X.base64_encode (begin_nonce X stream view ls b).val := by
  obtain ⟨l, -, -, hr⟩ := h
  rcases (registry_after X stream view (ls.take b)).begin_cases X params with ⟨-, hb⟩ | ⟨key, -, hb⟩
  · rw [hb] at hr; cases hr
  · rw [hb] at hr; cases hr; rfl

theorem Begun.unique {ls : List ℓ} {b : ℕ} {params params' : BeginParams}
    {result result' : BeginResult} (h : Begun X stream view ls b params result)
    (h' : Begun X stream view ls b params' result') : params = params' ∧ result = result' := by
  obtain ⟨l, hl, hv, hr⟩ := h
  obtain ⟨l', hl', hv', hr'⟩ := h'
  obtain rfl : l = l' := Option.some.inj (hl.symm.trans hl')
  obtain rfl : params = params' := by
    have := hv.symm.trans hv'
    cases this
    rfl
  exact ⟨rfl, Except.ok.inj (hr.symm.trans hr')⟩

theorem Attached.lt_length {ls : List ℓ} {a : ℕ} {resolver : DidSigningKeyResolver}
    {params : AttachParams} {result : AttachResult}
    (h : Attached X stream view ls a resolver params result) : a < ls.length := by
  obtain ⟨l, hl, -⟩ := h
  exact (List.getElem?_eq_some_iff.mp hl).1

theorem Attached.snoc {ls : List ℓ} {a : ℕ} {resolver : DidSigningKeyResolver}
    {params : AttachParams} {result : AttachResult}
    (h : Attached X stream view ls a resolver params result) (l' : ℓ) :
    Attached X stream view (ls ++ [l']) a resolver params result := by
  obtain ⟨l, hl, hv, hr⟩ := h
  obtain ⟨hl', htake⟩ := Machine.getElem?_snoc_of_some hl l'
  exact ⟨l, hl', hv, by rw [htake]; exact hr⟩

/-- **A successful `attach` consumed a `begin`**, the origin of the entry it
found, which no `attach` between the two had named. -/
theorem Attached.consumes {ls : List ℓ} {a : ℕ} {resolver : DidSigningKeyResolver}
    {params : AttachParams} {result : AttachResult}
    (h : Attached X stream view ls a resolver params result) :
    ∃ b, Consumes X stream view ls a resolver params b ∧
      ∀ j l, b < j → j < a → ls[j]? = some l →
        ¬ AttachNames view params.session_candidate l := by
  obtain ⟨l, hl, hv, hr⟩ := h
  rcases (registry_after X stream view (ls.take a)).attach_cases X resolver params with
    ⟨-, ha⟩ | ⟨pending, hsome, ⟨-, e, -, ha⟩ | ⟨hadm, -⟩⟩
  · rw [ha] at hr; cases hr
  · rw [ha] at hr; cases hr
  · obtain ⟨b, horigin⟩ := pending_origin _ hsome
    obtain ⟨bparams, bresult, key, hbegun, htok, hkey, rfl⟩ := horigin.made
    obtain ⟨signature, hdec, hver⟩ := hadm.signed
    have hba : b < a := by
      have := hbegun.lt_length
      simp only [List.length_take] at this
      omega
    rw [begin_nonce_take hba.le] at hver
    refine ⟨b, ⟨hba, bparams, bresult, key, signature, hbegun.take, hbegun.take.nonce, htok.symm,
      hadm.did, hkey, hadm.published, decode_signature_eq_ok.mp hdec, hver⟩, ?_⟩
    intro j l hj hja hl
    exact horigin.untouched j l hj (by rw [List.getElem?_take_of_lt hja]; exact hl)

/-- The candidate of a successful `begin` opens at most one session. -/
theorem attached_unique {ls : List ℓ} {a a' b : ℕ} {r r' : DidSigningKeyResolver}
    {params params' : AttachParams} {result result' : AttachResult}
    (h : Attached X stream view ls a r params result)
    (h' : Attached X stream view ls a' r' params' result')
    (hc : Consumes X stream view ls a r params b) (hc' : Consumes X stream view ls a' r' params' b)
    (hun : ∀ j l, b < j → j < a → ls[j]? = some l → ¬ AttachNames view params.session_candidate l)
    (hun' : ∀ j l, b < j → j < a' → ls[j]? = some l →
      ¬ AttachNames view params'.session_candidate l) : a = a' := by
  obtain ⟨_, _, _, _, hb, -, htok, -⟩ := hc.entitled
  obtain ⟨_, _, _, _, hb', -, htok', -⟩ := hc'.entitled
  obtain ⟨rfl, rfl⟩ := hb.unique hb'
  obtain ⟨l, hl, hv, -⟩ := h
  obtain ⟨l', hl', hv', -⟩ := h'
  -- the earlier of two would have named the token before the later
  rcases Nat.lt_trichotomy a a' with hlt | heq | hgt
  · exact absurd ⟨r, params, hv, htok.trans htok'.symm⟩ (hun' a l hc.earlier hlt hl)
  · exact heq
  · exact absurd ⟨r', params', hv', htok'.trans htok.symm⟩ (hun a' l' hc'.earlier hgt hl')

/-! ## Where an open session comes from -/

/-- **Every open session was stored by a successful `attach`.** -/
theorem session_origin (ls : List ℓ) : ∀ {session_id : String} {profile : ProfileAttachment},
    (registry_after X stream view ls).session session_id = some profile →
      ∃ a resolver params result, Attached X stream view ls a resolver params result ∧
        result.session_id = session_id ∧ params.profile = profile := by
  induction ls using List.reverseRecOn with
  | nil =>
      intro session_id profile h
      simp [EngineSessionRegistry.session, EngineSessionRegistry.new] at h
  | append_singleton ls l ih =>
      intro session_id profile h
      rw [registry_after_snoc, advance] at h
      -- most calls leave the session as it was
      have keep : (registry_after X stream view ls).session session_id = some profile →
          ∃ a resolver params result,
            Attached X stream view (ls ++ [l]) a resolver params result ∧
              result.session_id = session_id ∧ params.profile = profile := by
        intro hold
        obtain ⟨a, resolver, params, result, ha, hid, hprof⟩ := ih hold
        exact ⟨a, resolver, params, result, ha.snoc l, hid, hprof⟩
      cases hview : view l with
      | none => rw [hview] at h; exact keep h
      | some op =>
        rw [hview] at h
        cases op with
        | begin params =>
            simp only [EngineOp.apply] at h
            rcases (registry_after X stream view ls).begin_cases X params with ⟨-, hb⟩ | ⟨key, -, hb⟩
            · rw [hb] at h; exact keep h
            · rw [hb] at h; exact keep h
        | detach sid =>
            simp only [EngineOp.apply, EngineSessionRegistry.detach,
              EngineSessionRegistry.session, ExtHashMap.getElem?_erase] at h
            split at h
            · cases h
            · exact keep h
        | attach resolver params =>
            simp only [EngineOp.apply] at h
            rcases (registry_after X stream view ls).attach_cases X resolver params with
              ⟨-, ha⟩ | ⟨pending, -, ⟨-, e, -, ha⟩ | ⟨-, ha⟩⟩
            · rw [ha] at h; exact keep h
            · rw [ha] at h; exact keep h
            · rw [ha] at h
              simp only [EngineSessionRegistry.open_session, EngineSessionRegistry.without,
                EngineSessionRegistry.session, ExtHashMap.getElem?_insert] at h
              split at h
              · -- the binding is the new one
                rename_i hid
                have hatt : Attached X stream view (ls ++ [l]) ls.length resolver params
                    { session_id := _, engine_capabilities := _ } :=
                  ⟨l, by simp, hview, by rw [List.take_left, ha]⟩
                exact ⟨ls.length, resolver, params, _, hatt, eq_of_beq hid, Option.some.inj h⟩
              · exact keep h

end History

/-! ## Authenticity and single use -/

/-- **Every session is entitled, and every `begin` opens at most one.** For
every run of calls on a new registry, every entropy stream and every choice of
resolvers, the successful `attach` calls are mapped injectively to the `begin`
each of them consumed, and every open session was stored by one of them. -/
theorem engine_sessions_authentic (X : Crates) (stream : ℕ → Nonce) (ops : List EngineOp) :
    (∀ session_id profile,
      (registry_after X stream some ops).session session_id = some profile →
        ∃ a resolver params result, Attached X stream some ops a resolver params result ∧
          result.session_id = session_id ∧ params.profile = profile) ∧
    ∃ beginOf : ℕ → ℕ,
      (∀ a resolver params result, Attached X stream some ops a resolver params result →
        Consumes X stream some ops a resolver params (beginOf a)) ∧
      (∀ a a' resolver resolver' params params' result result',
        Attached X stream some ops a resolver params result →
        Attached X stream some ops a' resolver' params' result' →
        beginOf a = beginOf a' → a = a') := by
  classical
  refine ⟨fun _ _ => session_origin ops, ?_⟩
  -- at one position there is only one `attach`, so the origin is a function of the position
  have hchoice : ∀ a, ∃ b, ∀ resolver params result,
      Attached X stream some ops a resolver params result →
        Consumes X stream some ops a resolver params b ∧
          ∀ j l, b < j → j < a → ops[j]? = some l →
            ¬ AttachNames some params.session_candidate l := by
    intro a
    by_cases hex : ∃ resolver params result, Attached X stream some ops a resolver params result
    · obtain ⟨resolver, params, result, h⟩ := hex
      obtain ⟨b, hb⟩ := h.consumes
      refine ⟨b, fun resolver' params' result' h' => ?_⟩
      obtain ⟨l, hl, hv, -⟩ := h
      obtain ⟨l', hl', hv', -⟩ := h'
      obtain rfl : l = l' := Option.some.inj (hl.symm.trans hl')
      cases hv.symm.trans hv'
      exact hb
    · exact ⟨0, fun resolver params result h => absurd ⟨resolver, params, result, h⟩ hex⟩
  choose beginOf hbegin using hchoice
  refine ⟨beginOf, fun a r p res h => (hbegin a r p res h).1, ?_⟩
  intro a a' r r' p p' res res' h h' heq
  obtain ⟨hc, hun⟩ := hbegin a r p res h
  obtain ⟨hc', hun'⟩ := hbegin a' r' p' res' h'
  rw [← heq] at hc' hun'
  exact attached_unique h h' hc hc' hun hun'

end DigIpc
