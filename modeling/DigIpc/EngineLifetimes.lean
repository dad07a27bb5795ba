/-
How long what the engine hands out lasts, in runs that draw no value twice.

A candidate lives from its `begin` until an `attach` names it or until
`MAX_PENDING_CANDIDATES` later `begin`s have succeeded, whichever comes first;
that the second bound is met exactly takes the queue behind the candidate
(`Fifo.Followed`): an `attach` that takes one of the younger candidates out of it
only prolongs the life of the older one. A session lives from its `attach` until
a `detach` names its id, and no id comes back.
-/
import DigIpc.EngineFailures

set_option autoImplicit false

open Std KeyedFifo

namespace DigIpc

/-! ## One call and the queue behind a candidate -/

section Queue

variable {X : Crates} {s s' : Handshakes} {k : String} {v : PendingCandidate} {ks : List String}

/-- A successful `begin` lengthens the queue, or evicts what it is behind. -/
theorem Handshakes.Step.begun {params : BeginParams} {result : BeginResult}
    (hstep : Handshakes.Step X s (.begin params, .begin (.ok result)) s')
    (hfollowed : s.outstanding.Followed k v ks) :
    (ks.length + 1 < MAX_PENDING_CANDIDATES →
      s'.outstanding.Followed k v (ks ++ [result.session_candidate])) ∧
    (MAX_PENDING_CANDIDATES ≤ ks.length + 1 → k ∉ s'.outstanding.keys) := by
  cases hstep with
  | begin_ok nonce token parsed fresh =>
    exact ⟨fun hroom => hfollowed.push hroom _ _ fresh,
      fun hfull => hfollowed.evicted hfull _ _ fresh⟩

/-- Any other call that does not name the candidate at most shortens it, by the
candidate that an `attach` takes. -/
theorem Handshakes.Step.followed {op : EngineOp} {out : EngineOut}
    (hstep : Handshakes.Step X s (op, out) s') (hfollowed : s.outstanding.Followed k v ks)
    (hbegun : ∀ result, out ≠ .begin (.ok result))
    (hnamed : ∀ resolver params, op = .attach resolver params → params.session_candidate ≠ k) :
    ∃ ks', s'.outstanding.Followed k v ks' ∧ (ks' = ks ∨
      ∃ resolver params, op = .attach resolver params ∧ out ≠ .attach (.error .UnknownCandidate) ∧
        ks' = ks.filter fun y => y ≠ params.session_candidate) := by
  cases hstep with
  | begin_ok nonce token parsed fresh => exact absurd rfl (hbegun _)
  | @attach_refused resolver params pending e found refused known =>
    refine ⟨_, hfollowed.remove (hnamed _ _ rfl), Or.inr ⟨resolver, params, rfl, ?_, rfl⟩⟩
    exact fun heq => known (Except.error.inj (EngineOut.attach.inj heq))
  | @attach_ok resolver params pending session_id found admitted fresh =>
    exact ⟨_, hfollowed.remove (hnamed _ _ rfl), Or.inr ⟨resolver, params, rfl, nofun, rfl⟩⟩
  | begin_refused key => exact ⟨ks, hfollowed, Or.inl rfl⟩
  | attach_unknown unknown => exact ⟨ks, hfollowed, Or.inl rfl⟩
  | detach answer => exact ⟨ks, hfollowed, Or.inl rfl⟩

end Queue

/-! ## Later `begin`s -/

section Lifetimes

variable {X : Crates} {stream : ℕ → Nonce} {ℓ : Type} {view : ℓ → Option EngineOp}

variable (X view) in
/-- A `begin` whose key parses: it succeeds whatever the registry holds. -/
def begins (l : ℓ) : Bool :=
  match view l with
  | some (.begin params) => (SigningPublicKey.from_hex X params.signing_pubkey_hex).isSome
  | _ => false

variable (X view) in
/-- How many `begin`s have succeeded after place `b`. -/
def begins_since (ls : List ℓ) (b : ℕ) : ℕ := (ls.drop (b + 1)).countP (begins X view)

theorem begins_since_snoc {ls : List ℓ} {b : ℕ} (hb : b < ls.length) (l : ℓ) :
    begins_since X view (ls ++ [l]) b
      = begins_since X view ls b + if begins X view l then 1 else 0 := by
  unfold begins_since
  rw [List.drop_append_of_le_length hb, List.countP_append, List.countP_singleton]

theorem begins_since_self (ls : List ℓ) (l : ℓ) :
    begins_since X view (ls ++ [l]) ls.length = 0 := by
  unfold begins_since
  rw [List.drop_of_length_le (by rw [List.length_append]; exact le_rfl)]
  rfl

/-- A `begin` succeeds exactly when its key parses. -/
theorem begin_ok_iff (reg : EngineSessionRegistry) (params : BeginParams) :
    (∃ result, (reg.begin X params).1 = .ok result) ↔
      (SigningPublicKey.from_hex X params.signing_pubkey_hex).isSome := by
  rcases reg.begin_cases X params with ⟨hkey, hb⟩ | ⟨key, hkey, hb⟩
  · rw [hb, hkey]
    exact ⟨nofun, nofun⟩
  · rw [hb, hkey]
    exact ⟨fun _ => rfl, fun _ => ⟨_, rfl⟩⟩

/-- The last place of a history is a `begin` that succeeds. -/
theorem begun_last {ls : List ℓ} {l : ℓ} (hbegins : begins X view l = true) :
    ∃ params result, Begun X stream view (ls ++ [l]) ls.length params result ∧
      view l = some (.begin params) ∧
      ((registry_after X stream view ls).begin X params).1 = .ok result := by
  unfold begins at hbegins
  split at hbegins
  · rename_i params hview
    obtain ⟨result, hresult⟩ := (begin_ok_iff (registry_after X stream view ls) params).mpr hbegins
    exact ⟨params, result, ⟨l, by simp, hview, by rw [List.take_left]; exact hresult⟩, hview, hresult⟩
  · cases hbegins

/-- The place of a `begin` in a history that grows. -/
theorem Begun.of_snoc {ls : List ℓ} {l : ℓ} {b : ℕ} {params : BeginParams} {result : BeginResult}
    (h : Begun X stream view (ls ++ [l]) b params result) :
    Begun X stream view ls b params result ∨ (b = ls.length ∧ view l = some (.begin params) ∧
      ((registry_after X stream view ls).begin X params).1 = .ok result) := by
  obtain ⟨l', hl, hview, hresult⟩ := h
  rcases Machine.getElem?_snoc hl with ⟨hb, hl⟩ | ⟨rfl, rfl⟩
  · rw [List.take_append_of_le_length hb.le] at hresult
    exact Or.inl ⟨l', hl, hview, hresult⟩
  · rw [List.take_left] at hresult
    exact Or.inr ⟨rfl, hview, hresult⟩

variable (X stream view) in
/-- No `attach` after `b` has named the candidate `token`. -/
def Unnamed (ls : List ℓ) (b : ℕ) (token : String) : Prop :=
  ∀ j l, b < j → ls[j]? = some l → ¬ AttachNames view token l

variable (X stream view) in
/-- Position `j` is an `attach` that takes the candidate `token`, whatever it does
with it. -/
def Takes (ls : List ℓ) (j : ℕ) (token : String) : Prop :=
  ∃ l resolver params, ls[j]? = some l ∧ view l = some (.attach resolver params) ∧
    params.session_candidate = token ∧
    ((registry_after X stream view (ls.take j)).attach X resolver params).1
      ≠ .error .UnknownCandidate

variable (X stream view) in
/-- No `attach` has taken a candidate issued after `b` before
`MAX_PENDING_CANDIDATES` of them had been issued. -/
def Untaken (ls : List ℓ) (b : ℕ) : Prop :=
  ∀ b' params result j, b < b' → Begun X stream view ls b' params result →
    begins_since X view (ls.take j) b < MAX_PENDING_CANDIDATES →
    ¬ Takes X stream view ls j result.session_candidate

theorem Takes.snoc {ls : List ℓ} {j : ℕ} {token : String} (h : Takes X stream view ls j token)
    (l : ℓ) : Takes X stream view (ls ++ [l]) j token ∧ (ls ++ [l]).take j = ls.take j := by
  obtain ⟨l', resolver, params, hl, hview, htoken, hknown⟩ := h
  obtain ⟨hl', htake⟩ := Machine.getElem?_snoc_of_some hl l
  exact ⟨⟨l', resolver, params, hl', hview, htoken, by rw [htake]; exact hknown⟩, htake⟩

theorem Unnamed.of_snoc {ls : List ℓ} {l : ℓ} {b : ℕ} {token : String}
    (h : Unnamed view (ls ++ [l]) b token) : Unnamed view ls b token :=
  fun j l' hj hl => h j l' hj (Machine.getElem?_snoc_of_some hl l).1

theorem Untaken.of_snoc {ls : List ℓ} {l : ℓ} {b : ℕ} (h : Untaken X stream view (ls ++ [l]) b) :
    Untaken X stream view ls b := by
  intro b' params result j hb hbegun hfew htakes
  obtain ⟨htakes', htake⟩ := htakes.snoc l
  rw [← htake] at hfew
  exact h b' params result j hb (hbegun.snoc l) hfew htakes'

/-- The last call of a history is a step of the abstract machine, from the state
before to the state after. -/
theorem simulates_last (hhex : Function.Injective X.hex_encode) {ls : List ℓ} {l : ℓ} {op : EngineOp}
    (hdistinct : (registry_after X stream view (ls ++ [l])).entropy.Distinct)
    (hview : view l = some op) {s : Handshakes} (hdrawn : Drawn X (registry_after X stream view ls))
    (hsim : Simulates (registry_after X stream view ls) s) :
    Drawn X (registry_after X stream view (ls ++ [l])) ∧ ∃ s',
      Handshakes.Step X s (op, (op.apply X (registry_after X stream view ls)).1) s' ∧
        Simulates (registry_after X stream view (ls ++ [l])) s' := by
  rw [registry_after_snoc] at hdistinct ⊢
  unfold advance at hdistinct ⊢
  rw [hview] at hdistinct ⊢
  exact refines_step hhex rfl hdistinct hdrawn hsim

/-- The last place is the `begin`: nothing is behind its candidate. -/
theorem followed_begun (hhex : Function.Injective X.hex_encode) {ls : List ℓ} {l : ℓ}
    (hdistinct : (registry_after X stream view (ls ++ [l])).entropy.Distinct) {params : BeginParams}
    {result : BeginResult} (hview : view l = some (.begin params))
    (hresult : ((registry_after X stream view ls).begin X params).1 = .ok result) :
    ∃ key s, SigningPublicKey.from_hex X params.signing_pubkey_hex = some key ∧
      Drawn X (registry_after X stream view (ls ++ [l])) ∧
      Simulates (registry_after X stream view (ls ++ [l])) s ∧
      s.outstanding.Followed result.session_candidate
        { nonce := begin_nonce X stream view (ls ++ [l]) ls.length, advertised_key := key,
          profile_did := params.profile_did } [] := by
  have hbefore := distinct_take hdistinct ls.length
  rw [List.take_left] at hbefore
  obtain ⟨hdrawn, s, hsim⟩ := simulates_after hhex ls hbefore
  obtain ⟨hdrawn', s', hstep, hsim'⟩ := simulates_last hhex hdistinct hview hdrawn hsim
  have hnonce : begin_nonce X stream view (ls ++ [l]) ls.length
      = (registry_after X stream view ls).entropy.stream
        (registry_after X stream view ls).entropy.drawn := by
    unfold begin_nonce
    rw [List.take_left]
    rfl
  rcases (registry_after X stream view ls).begin_cases X params with ⟨-, hb⟩ | ⟨key, hkey, hb⟩
  · rw [hb] at hresult
    cases hresult
  · have hentry : (registry_after X stream view (ls ++ [l])).pending[result.session_candidate]?
        = some { nonce := begin_nonce X stream view (ls ++ [l]) ls.length, advertised_key := key,
                 profile_did := params.profile_did } := by
      rw [registry_after_snoc, hnonce]
      unfold advance
      rw [hview]
      simp only [EngineOp.apply]
      rw [hb] at hresult ⊢
      cases hresult
      exact ExtHashMap.getElem?_insert_self
    have hout : (EngineOp.apply X (registry_after X stream view ls) (.begin params)).1
        = .begin (.ok result) := congrArg EngineOut.begin hresult
    rw [hout] at hstep
    cases hstep with
    | @begin_ok params key' nonce token parsed fresh =>
      -- the abstract queue has the entry at its end; the map says which it is
      have hself := Fifo.followed_push_self s.outstanding token
        { nonce, advertised_key := key', profile_did := params.profile_did } fresh
      rw [hsim'.outstanding.entries, hself.lookup] at hentry
      exact ⟨key, _, hkey, hdrawn', hsim', Option.some.inj hentry ▸ hself⟩

/-- A call issues a candidate exactly when it is a `begin` whose key parses. -/
theorem begins_iff {l : ℓ} {op : EngineOp} (hview : view l = some op) (reg : EngineSessionRegistry) :
    begins X view l = true ↔ ∃ result, (op.apply X reg).1 = .begin (.ok result) := by
  unfold begins
  rw [hview]
  cases op with
  | begin params =>
    refine (begin_ok_iff reg params).symm.trans ⟨?_, ?_⟩
    · rintro ⟨result, hresult⟩
      exact ⟨result, congrArg EngineOut.begin hresult⟩
    · rintro ⟨result, hresult⟩
      exact ⟨result, EngineOut.begin.inj hresult⟩
  | attach resolver params => exact ⟨nofun, nofun⟩
  | detach session_id => exact ⟨nofun, nofun⟩

variable (X stream view) in
/-- What is behind a candidate was issued after it: all of that, if no `attach` has
taken any. -/
structure IssuedBehind (ls : List ℓ) (b : ℕ) (ks : List String) : Prop where
  issued : ∀ y ∈ ks, ∃ b' params result, b < b' ∧ Begun X stream view ls b' params result ∧
    result.session_candidate = y
  few : ks.length ≤ begins_since X view ls b
  all : Untaken X stream view ls b → ks.length = begins_since X view ls b

/-- Positions do not move when the history grows. -/
theorem IssuedBehind.issued_snoc {ls : List ℓ} {b : ℕ} {ks : List String}
    (h : IssuedBehind X stream view ls b ks) (l : ℓ) : ∀ y ∈ ks, ∃ b' params result, b < b' ∧
      Begun X stream view (ls ++ [l]) b' params result ∧ result.session_candidate = y := by
  intro y hy
  obtain ⟨b', params, result, hb, hbegun, heq⟩ := h.issued y hy
  exact ⟨b', params, result, hb, hbegun.snoc l, heq⟩

theorem IssuedBehind.idle {ls : List ℓ} {l : ℓ} {b : ℕ} {ks : List String}
    (h : IssuedBehind X stream view ls b ks) (hlt : b < ls.length) (hbegins : begins X view l = false) :
    IssuedBehind X stream view (ls ++ [l]) b ks := by
  have hsame : begins_since X view (ls ++ [l]) b = begins_since X view ls b := by
    rw [begins_since_snoc hlt, hbegins]
    rfl
  refine ⟨h.issued_snoc l, ?_, ?_⟩
  · rw [hsame]
    exact h.few
  · intro huntaken
    rw [hsame]
    exact h.all huntaken.of_snoc

/-- The candidate of a `begin` goes to the end. -/
theorem IssuedBehind.begun {ls : List ℓ} {l : ℓ} {b : ℕ} {ks : List String}
    (h : IssuedBehind X stream view ls b ks) (hlt : b < ls.length) (hbegins : begins X view l = true)
    {params : BeginParams} {result : BeginResult}
    (hbegun : Begun X stream view (ls ++ [l]) ls.length params result) :
    IssuedBehind X stream view (ls ++ [l]) b (ks ++ [result.session_candidate]) := by
  have hmore : begins_since X view (ls ++ [l]) b = begins_since X view ls b + 1 := by
    rw [begins_since_snoc hlt, if_pos hbegins]
  have hlength : (ks ++ [result.session_candidate]).length = ks.length + 1 := by simp
  refine ⟨?_, ?_, ?_⟩
  · intro y hy
    rcases List.mem_append.mp hy with hy | hy
    · exact h.issued_snoc l y hy
    · exact ⟨ls.length, params, result, hlt, hbegun, (List.mem_singleton.mp hy).symm⟩
  · have hfew := h.few
    omega
  · intro huntaken
    have hall := h.all huntaken.of_snoc
    omega

/-- An `attach` takes what it names. -/
theorem IssuedBehind.taken {ls : List ℓ} {l : ℓ} {b : ℕ} {ks : List String}
    (h : IssuedBehind X stream view ls b ks) (hlt : b < ls.length)
    (hroom : begins_since X view ls b < MAX_PENDING_CANDIDATES) {resolver : DidSigningKeyResolver}
    {params : AttachParams} (hview : view l = some (.attach resolver params))
    (hknown : ((registry_after X stream view ls).attach X resolver params).1
      ≠ .error .UnknownCandidate) :
    IssuedBehind X stream view (ls ++ [l]) b (ks.filter fun y => y ≠ params.session_candidate) := by
  have hbegins : begins X view l = false := by
    unfold begins
    rw [hview]
  obtain ⟨hissued, hfew, hall⟩ := h.idle hlt hbegins
  refine ⟨?_, (List.length_filter_le _ _).trans hfew, ?_⟩
  · intro y hy
    exact hissued y (List.mem_of_mem_filter hy)
  · intro huntaken
    -- if none of the younger ones is taken, it does not name one of them
    rw [← hall huntaken, List.filter_eq_self.mpr]
    intro y hy
    obtain ⟨b', params', result', hb, hbegun, rfl⟩ := hissued y hy
    refine decide_eq_true fun heq => ?_
    refine huntaken b' params' result' ls.length hb hbegun (by rwa [List.take_left]) ?_
    exact ⟨l, resolver, params, by simp, hview, heq.symm, by rwa [List.take_left]⟩

/-- **The queue behind a candidate.** As long as fewer than
`MAX_PENDING_CANDIDATES` later `begin`s have succeeded and no `attach` has named
it, a candidate is outstanding, and behind it are candidates issued later; all of
them, if none of them has been taken. -/
theorem candidate_followed (hhex : Function.Injective X.hex_encode) {ls : List ℓ}
    (hdistinct : (registry_after X stream view ls).entropy.Distinct) {b : ℕ} {params : BeginParams}
    {result : BeginResult} (hbegun : Begun X stream view ls b params result)
    (hunnamed : Unnamed view ls b result.session_candidate)
    (hfew : begins_since X view ls b < MAX_PENDING_CANDIDATES) :
    ∃ key s ks, SigningPublicKey.from_hex X params.signing_pubkey_hex = some key ∧
      Drawn X (registry_after X stream view ls) ∧ Simulates (registry_after X stream view ls) s ∧
      s.outstanding.Followed result.session_candidate
        { nonce := begin_nonce X stream view ls b, advertised_key := key,
          profile_did := params.profile_did } ks ∧
      IssuedBehind X stream view ls b ks := by
  induction ls using List.reverseRecOn with
  | nil =>
    obtain ⟨l, hl, -⟩ := hbegun
    simp at hl
  | append_singleton ls l ih =>
    rcases hbegun.of_snoc with hbegun | ⟨rfl, hview, hresult⟩
    swap
    · -- the `begin` itself
      obtain ⟨key, s, hkey, hdrawn, hsim, hfollowed⟩ := followed_begun hhex hdistinct hview hresult
      have hzero : begins_since X view (ls ++ [l]) ls.length = 0 := begins_since_self ls l
      exact ⟨key, s, [], hkey, hdrawn, hsim, hfollowed, nofun, Nat.zero_le _, fun _ => hzero.symm⟩
    have hlt := hbegun.lt_length
    have hbefore := distinct_take hdistinct ls.length
    rw [List.take_left] at hbefore
    rw [begins_since_snoc hlt] at hfew
    obtain ⟨key, s, ks, hkey, hdrawn, hsim, hfollowed, hbehind⟩ :=
      ih hbefore hbegun hunnamed.of_snoc (by omega)
    rw [begin_nonce_snoc hlt.le]
    cases hview : view l with
    | none =>
      have hnone : begins X view l = false := by
        unfold begins
        rw [hview]
      have hbehind' := hbehind.idle hlt hnone
      rw [registry_after_snoc]
      unfold advance
      rw [hview]
      exact ⟨key, s, ks, hkey, hdrawn, hsim, hfollowed, hbehind'⟩
    | some op =>
      obtain ⟨hdrawn', s', hstep, hsim'⟩ := simulates_last hhex hdistinct hview hdrawn hsim
      by_cases hbegins : begins X view l = true
      · obtain ⟨params', result', hbegun', hview', hresult'⟩ :=
          @begun_last X stream ℓ view ls l hbegins
        rw [hview] at hview'
        obtain rfl := Option.some.inj hview'
        have hout : (EngineOp.apply X (registry_after X stream view ls) (.begin params')).1
            = .begin (.ok result') := congrArg EngineOut.begin hresult'
        rw [hout] at hstep
        rw [if_pos hbegins] at hfew
        -- one more behind it, which does not yet push it out
        have hroom : ks.length + 1 < MAX_PENDING_CANDIDATES := by
          have hle := hbehind.few
          omega
        exact ⟨key, s', _, hkey, hdrawn', hsim', (hstep.begun hfollowed).1 hroom,
          hbehind.begun hlt hbegins hbegun'⟩
      · -- another call: it may take one of those behind it
        have hnobegin : ∀ result', (op.apply X (registry_after X stream view ls)).1
            ≠ .begin (.ok result') :=
          fun result' heq => hbegins ((begins_iff hview _).mpr ⟨result', heq⟩)
        have hnamed : ∀ resolver params', op = .attach resolver params' →
            params'.session_candidate ≠ result.session_candidate := by
          rintro resolver params' rfl heq
          exact hunnamed ls.length l hlt (by simp) ⟨resolver, params', hview, heq⟩
        rw [if_neg hbegins] at hfew
        obtain ⟨ks', hfollowed', rfl | ⟨resolver, params', rfl, hknown, rfl⟩⟩ :=
          hstep.followed hfollowed hnobegin hnamed
        · exact ⟨key, s', ks', hkey, hdrawn', hsim', hfollowed',
            hbehind.idle hlt (Bool.eq_false_iff.mpr hbegins)⟩
        · exact ⟨key, s', _, hkey, hdrawn', hsim', hfollowed', hbehind.taken hlt hfew hview
            fun heq => hknown (congrArg EngineOut.attach heq)⟩

/-- A candidate that is not outstanding does not come back. -/
theorem candidate_gone (hhex : Function.Injective X.hex_encode) {ls : List ℓ} {l : ℓ}
    (hdistinct : (registry_after X stream view (ls ++ [l])).entropy.Distinct) {b : ℕ}
    {params : BeginParams} {result : BeginResult} (hbegun : Begun X stream view ls b params result)
    (hnone : (registry_after X stream view ls).pending[result.session_candidate]? = none) :
    (registry_after X stream view (ls ++ [l])).pending[result.session_candidate]? = none := by
  rw [registry_after_snoc]
  unfold advance
  cases hview : view l with
  | none => exact hnone
  | some op =>
    cases op with
    | detach session_id => exact hnone
    | attach resolver params' =>
      have herase : ∀ token : String, ((registry_after X stream view ls).pending.erase
          token)[result.session_candidate]? = none := by
        intro token
        rw [ExtHashMap.getElem?_erase, hnone, ite_self]
      simp only [EngineOp.apply]
      rcases (registry_after X stream view ls).attach_cases X resolver params' with
        ⟨-, ha⟩ | ⟨pending, -, ⟨-, e, -, ha⟩ | ⟨-, ha⟩⟩
      · rw [ha]
        exact hnone
      · rw [ha]
        exact herase params'.session_candidate
      · rw [ha]
        exact herase params'.session_candidate
    | begin params' =>
      simp only [EngineOp.apply]
      rcases (registry_after X stream view ls).begin_cases X params' with ⟨-, hb⟩ | ⟨key, -, hb⟩
      · rw [hb]
        exact hnone
      · rw [hb]
        -- the token issued now is another one
        have hnow : Begun X stream view (ls ++ [l]) ls.length params'
            { nonce_b64 := _, session_candidate := _ } :=
          ⟨l, by simp, hview, by rw [List.take_left, hb]⟩
        have hne : X.hex_encode ((registry_after X stream view ls).entropy.stream
            ((registry_after X stream view ls).entropy.drawn + 1)).val ≠ result.session_candidate := by
          intro heq
          have hlt := hbegun.lt_length
          have hsame := begun_injective hhex hdistinct hnow (hbegun.snoc l) heq
          omega
        unfold EngineSessionRegistry.remember
        rw [ExtHashMap.getElem?_insert, if_neg (by simpa using hne)]
        by_contra hsome
        obtain ⟨p, hp⟩ := Option.ne_none_iff_exists'.mp hsome
        rw [evict_getElem? _ hp] at hnone
        cases hnone

/-- **Pushed out.** When none of the candidates issued after it has been taken
meanwhile, `MAX_PENDING_CANDIDATES` later `begin`s end the life of a candidate. -/
theorem candidate_pushed_out (hhex : Function.Injective X.hex_encode) {ls : List ℓ}
    (hdistinct : (registry_after X stream view ls).entropy.Distinct) {b : ℕ} {params : BeginParams}
    {result : BeginResult} (hbegun : Begun X stream view ls b params result)
    (hunnamed : Unnamed view ls b result.session_candidate) (huntaken : Untaken X stream view ls b)
    (hmany : MAX_PENDING_CANDIDATES ≤ begins_since X view ls b) :
    (registry_after X stream view ls).pending[result.session_candidate]? = none := by
  induction ls using List.reverseRecOn with
  | nil =>
    obtain ⟨l, hl, -⟩ := hbegun
    simp at hl
  | append_singleton ls l ih =>
    rcases hbegun.of_snoc with hbegun | ⟨rfl, -, -⟩
    swap
    · rw [begins_since_self] at hmany
      exact absurd hmany (by decide)
    have hlt := hbegun.lt_length
    have hbefore := distinct_take hdistinct ls.length
    rw [List.take_left] at hbefore
    by_cases hearlier : MAX_PENDING_CANDIDATES ≤ begins_since X view ls b
    · exact candidate_gone hhex hdistinct hbegun
        (ih hbefore hbegun hunnamed.of_snoc huntaken.of_snoc hearlier)
    · -- this is the `begin` that does it
      rw [begins_since_snoc hlt] at hmany
      have hbegins : begins X view l = true := by
        by_contra hno
        rw [if_neg hno] at hmany
        omega
      rw [if_pos hbegins] at hmany
      obtain ⟨key, s, ks, -, hdrawn, hsim, hfollowed, hbehind⟩ :=
        candidate_followed hhex hbefore hbegun hunnamed.of_snoc (by omega)
      obtain ⟨params', result', -, hview, hresult⟩ := @begun_last X stream ℓ view ls l hbegins
      obtain ⟨-, s', hstep, hsim'⟩ := simulates_last hhex hdistinct hview hdrawn hsim
      have hout : (EngineOp.apply X (registry_after X stream view ls) (.begin params')).1
          = .begin (.ok result') := congrArg EngineOut.begin hresult
      rw [hout] at hstep
      have hlen := hbehind.all huntaken.of_snoc
      have hgone := (hstep.begun hfollowed).2 (by omega)
      rw [hsim'.outstanding.entries]
      exact Fifo.lookup_eq_none.mpr hgone

/-- **What is gone does not come back.** -/
theorem candidate_gone_after (hhex : Function.Injective X.hex_encode) {ls : List ℓ}
    (hdistinct : (registry_after X stream view ls).entropy.Distinct) {b n : ℕ} {params : BeginParams}
    {result : BeginResult} (hbegun : Begun X stream view ls b params result) (hbn : b < n)
    (hnone : (registry_after X stream view (ls.take n)).pending[result.session_candidate]? = none) :
    (registry_after X stream view ls).pending[result.session_candidate]? = none := by
  induction ls using List.reverseRecOn with
  | nil =>
    obtain ⟨l, hl, -⟩ := hbegun
    simp at hl
  | append_singleton ls l ih =>
    by_cases hn : n ≤ ls.length
    · rw [List.take_append_of_le_length hn] at hnone
      have hbefore := distinct_take hdistinct ls.length
      rw [List.take_left] at hbefore
      rcases hbegun.of_snoc with hbegun | ⟨rfl, -, -⟩
      · exact candidate_gone hhex hdistinct hbegun (ih hbefore hbegun hnone)
      · omega
    · rwa [List.take_of_length_le (by rw [List.length_append, List.length_singleton]; omega)] at hnone

/-! ## Sessions -/

/-- A successful `attach` draws its session id. -/
theorem Attached.draws {ls : List ℓ} {a : ℕ} {resolver : DidSigningKeyResolver}
    {params : AttachParams} {result : AttachResult}
    (h : Attached X stream view ls a resolver params result) :
    result.session_id
        = X.hex_encode (stream (registry_after X stream view (ls.take a)).entropy.drawn).val ∧
      (registry_after X stream view (ls.take a)).entropy.drawn + 1
        ≤ (registry_after X stream view (ls.take (a + 1))).entropy.drawn := by
  obtain ⟨l, hl, hview, hresult⟩ := h
  have hstream := stream_after X stream view (ls.take a)
  have htake : ls.take (a + 1) = ls.take a ++ [l] := by
    rw [List.take_add_one, hl]
    rfl
  rcases (registry_after X stream view (ls.take a)).attach_cases X resolver params with
    ⟨-, ha⟩ | ⟨pending, -, ⟨-, e, -, ha⟩ | ⟨-, ha⟩⟩
  · rw [ha] at hresult
    cases hresult
  · rw [ha] at hresult
    cases hresult
  · rw [htake, registry_after_snoc]
    unfold advance
    rw [hview]
    simp only [EngineOp.apply]
    rw [ha] at hresult ⊢
    cases hresult
    rw [hstream]
    exact ⟨rfl, le_rfl⟩

/-- **No id is given twice.** -/
theorem attached_injective (hhex : Function.Injective X.hex_encode) {ls : List ℓ}
    (hdistinct : (registry_after X stream view ls).entropy.Distinct) {a a' : ℕ}
    {r r' : DidSigningKeyResolver} {params params' : AttachParams} {result result' : AttachResult}
    (h : Attached X stream view ls a r params result)
    (h' : Attached X stream view ls a' r' params' result')
    (heq : result.session_id = result'.session_id) : a = a' := by
  have hdraw : ∀ {a a' : ℕ} {r r' : DidSigningKeyResolver} {params params' : AttachParams}
      {result result' : AttachResult}, Attached X stream view ls a r params result →
      Attached X stream view ls a' r' params' result' → result.session_id = result'.session_id →
      ¬ a < a' := by
    intro a a' r r' params params' result result' h h' heq hlt
    obtain ⟨hid, hdraws⟩ := h.draws
    obtain ⟨hid', hdraws'⟩ := h'.draws
    rw [hid, hid'] at heq
    have hmono := drawn_take_le X stream view (ls.take a') (a + 1)
    rw [List.take_take, Nat.min_eq_left (by omega)] at hmono
    have hend := drawn_take_le X stream view ls (a' + 1)
    have hidx := draws_injective hdistinct (Subtype.ext (hhex heq)) (by omega) (by omega)
    omega
  rcases Nat.lt_trichotomy a a' with hlt | hsame | hlt
  · exact absurd hlt (hdraw h h' heq)
  · exact hsame
  · exact absurd hlt (hdraw h' h heq.symm)

theorem Attached.take {ls : List ℓ} {a n : ℕ} {resolver : DidSigningKeyResolver}
    {params : AttachParams} {result : AttachResult}
    (h : Attached X stream view (ls.take n) a resolver params result) :
    Attached X stream view ls a resolver params result := by
  have ha := h.lt_length
  rw [List.length_take] at ha
  obtain ⟨l, hl, hview, hresult⟩ := h
  rw [List.getElem?_take_of_lt (by omega)] at hl
  rw [List.take_take, Nat.min_eq_left (by omega)] at hresult
  exact ⟨l, hl, hview, hresult⟩

variable (view) in
/-- No `detach` after `a` has named the session. -/
def Undetached (ls : List ℓ) (a : ℕ) (session_id : String) : Prop :=
  ∀ j l, a < j → ls[j]? = some l → view l ≠ some (.detach session_id)

theorem Undetached.of_snoc {ls : List ℓ} {l : ℓ} {a : ℕ} {session_id : String}
    (h : Undetached view (ls ++ [l]) a session_id) : Undetached view ls a session_id :=
  fun j l' hj hl => h j l' hj (Machine.getElem?_snoc_of_some hl l).1

theorem Undetached.snoc {ls : List ℓ} {l : ℓ} {a : ℕ} {session_id : String}
    (h : Undetached view ls a session_id) (hl : view l ≠ some (.detach session_id)) :
    Undetached view (ls ++ [l]) a session_id := by
  intro j l' hj hl'
  rcases Machine.getElem?_snoc hl' with ⟨-, hl'⟩ | ⟨-, rfl⟩
  · exact h j l' hj hl'
  · exact hl

/-- The place of an `attach` in a history that grows. -/
theorem Attached.of_snoc {ls : List ℓ} {l : ℓ} {a : ℕ} {resolver : DidSigningKeyResolver}
    {params : AttachParams} {result : AttachResult}
    (h : Attached X stream view (ls ++ [l]) a resolver params result) :
    Attached X stream view ls a resolver params result ∨
      (a = ls.length ∧ view l = some (.attach resolver params) ∧
        ((registry_after X stream view ls).attach X resolver params).1 = .ok result) := by
  obtain ⟨l', hl, hview, hresult⟩ := h
  rcases Machine.getElem?_snoc hl with ⟨ha, hl⟩ | ⟨rfl, rfl⟩
  · rw [List.take_append_of_le_length ha.le] at hresult
    exact Or.inl ⟨l', hl, hview, hresult⟩
  · rw [List.take_left] at hresult
    exact Or.inr ⟨rfl, hview, hresult⟩

/-- What one call does to one session. -/
theorem session_step (ls : List ℓ) (l : ℓ) (session_id : String) :
    (registry_after X stream view (ls ++ [l])).session session_id
        = (registry_after X stream view ls).session session_id ∨
    (view l = some (.detach session_id) ∧
      (registry_after X stream view (ls ++ [l])).session session_id = none) ∨
    ∃ resolver params result, Attached X stream view (ls ++ [l]) ls.length resolver params result ∧
      result.session_id = session_id ∧
      (registry_after X stream view (ls ++ [l])).session session_id = some params.profile := by
  rw [registry_after_snoc]
  unfold advance
  cases hview : view l with
  | none => exact Or.inl rfl
  | some op =>
    cases op with
    | begin params =>
      simp only [EngineOp.apply]
      rcases (registry_after X stream view ls).begin_cases X params with ⟨-, hb⟩ | ⟨key, -, hb⟩
      · rw [hb]
        exact Or.inl rfl
      · rw [hb]
        exact Or.inl rfl
    | detach id =>
      simp only [EngineOp.apply, EngineSessionRegistry.detach, EngineSessionRegistry.session,
        ExtHashMap.getElem?_erase]
      by_cases heq : id = session_id
      · rw [if_pos (by simpa using heq), heq]
        exact Or.inr (Or.inl ⟨rfl, rfl⟩)
      · rw [if_neg (by simpa using heq)]
        exact Or.inl rfl
    | attach resolver params =>
      -- only an `attach` that succeeds touches the sessions
      simp only [EngineOp.apply]
      rcases (registry_after X stream view ls).attach_cases X resolver params with
        ⟨-, ha⟩ | ⟨pending, -, ⟨-, e, -, ha⟩ | ⟨-, ha⟩⟩
      · rw [ha]
        exact Or.inl rfl
      · rw [ha]
        exact Or.inl rfl
      · have hnow : Attached X stream view (ls ++ [l]) ls.length resolver params
            { session_id := _, engine_capabilities := _ } :=
          ⟨l, by simp, hview, by rw [List.take_left, ha]⟩
        rw [ha]
        simp only [EngineSessionRegistry.open_session, EngineSessionRegistry.without,
          EngineSessionRegistry.session, ExtHashMap.getElem?_insert]
        by_cases heq : X.hex_encode ((registry_after X stream view ls).entropy.stream
            (registry_after X stream view ls).entropy.drawn).val = session_id
        · rw [if_pos (by simpa using heq)]
          exact Or.inr (Or.inr ⟨resolver, params, _, hnow, heq, rfl⟩)
        · rw [if_neg (by simpa using heq)]
          exact Or.inl rfl

/-- A `detach` leaves nothing open under its id. -/
theorem session_detached {ls : List ℓ} {l : ℓ} {session_id : String}
    (hview : view l = some (.detach session_id)) :
    (registry_after X stream view (ls ++ [l])).session session_id = none := by
  rw [registry_after_snoc]
  unfold advance
  rw [hview]
  simp [EngineOp.apply, EngineSessionRegistry.detach, EngineSessionRegistry.session]

/-- An `attach` that succeeds leaves its session open. -/
theorem Attached.opens {ls : List ℓ} {l : ℓ} {resolver : DidSigningKeyResolver}
    {params : AttachParams} {result : AttachResult}
    (h : Attached X stream view (ls ++ [l]) ls.length resolver params result) :
    (registry_after X stream view (ls ++ [l])).session result.session_id = some params.profile := by
  obtain ⟨l', hl, hview, hresult⟩ := h
  rw [List.take_left] at hresult
  obtain rfl : l = l' := by simpa using hl
  rw [registry_after_snoc]
  unfold advance
  rw [hview]
  simp only [EngineOp.apply]
  rcases (registry_after X stream view ls).attach_cases X resolver params with
    ⟨-, ha⟩ | ⟨pending, -, ⟨-, e, -, ha⟩ | ⟨-, ha⟩⟩
  · rw [ha] at hresult
    cases hresult
  · rw [ha] at hresult
    cases hresult
  · rw [ha] at hresult ⊢
    cases hresult
    exact ExtHashMap.getElem?_insert_self

/-- A `detach` answers whether its session is open. -/
theorem detach_iff (reg : EngineSessionRegistry) (session_id : String) :
    (reg.detach session_id).1 = true ↔ ∃ profile, reg.session session_id = some profile := by
  rw [← Option.isSome_iff_exists]
  exact (ExtHashMap.contains_eq_isSome_getElem?).congr_left

/-- **What is open, exactly**: a session that some `attach` opened and no
`detach` has named since. -/
theorem session_open_iff (hhex : Function.Injective X.hex_encode) {ls : List ℓ}
    (hdistinct : (registry_after X stream view ls).entropy.Distinct) {session_id : String}
    {profile : ProfileAttachment} :
    (registry_after X stream view ls).session session_id = some profile ↔
      ∃ a resolver params result, Attached X stream view ls a resolver params result ∧
        result.session_id = session_id ∧ params.profile = profile ∧
        Undetached view ls a session_id := by
  induction ls using List.reverseRecOn with
  | nil =>
    constructor
    · intro h
      simp [EngineSessionRegistry.session, EngineSessionRegistry.new] at h
    · rintro ⟨a, resolver, params, result, ⟨l, hl, -⟩, -⟩
      simp at hl
  | append_singleton ls l ih =>
    have hbefore := distinct_take hdistinct ls.length
    rw [List.take_left] at hbefore
    constructor
    · intro hopen
      rcases session_step ls l session_id with hsame | ⟨-, hnone⟩ |
        ⟨resolver, params, result, hatt, hid, hsome⟩
      · by_cases hdetach : view l = some (.detach session_id)
        · rw [session_detached hdetach] at hopen
          cases hopen
        · rw [hsame, ih hbefore] at hopen
          obtain ⟨a, resolver, params, result, hatt, hid, hprofile, hun⟩ := hopen
          exact ⟨a, resolver, params, result, hatt.snoc l, hid, hprofile, hun.snoc hdetach⟩
      · rw [hnone] at hopen
        cases hopen
      · rw [hsome] at hopen
        -- this call has opened it, and nothing comes after it
        refine ⟨ls.length, resolver, params, result, hatt, hid, Option.some.inj hopen, ?_⟩
        intro j l' hj hl'
        have hlen := (List.getElem?_eq_some_iff.mp hl').1
        rw [List.length_append, List.length_singleton] at hlen
        omega
    · rintro ⟨a, resolver, params, result, hatt, hid, hprofile, hun⟩
      rcases hatt.of_snoc with hold | ⟨rfl, -, -⟩
      · have hlt := hold.lt_length
        have hopen := (ih hbefore).mpr ⟨a, resolver, params, result, hold, hid, hprofile, hun.of_snoc⟩
        rcases session_step ls l session_id with hsame | ⟨hview, -⟩ |
          ⟨resolver', params', result', hatt', hid', -⟩
        · rw [hsame]
          exact hopen
        · exact absurd hview (hun ls.length l hlt (by simp))
        · -- the id is not drawn again
          have hsame := attached_injective hhex hdistinct hatt hatt' (hid.trans hid'.symm)
          omega
      · rw [← hid, ← hprofile]
        exact hatt.opens

end Lifetimes

/-! ## The two lives -/

/-- **The life of a candidate.** In every run that draws no value twice, a
candidate that no `attach` has named is outstanding, with the nonce, the key and
the DID of its `begin`, as long as fewer than `MAX_PENDING_CANDIDATES` later
`begin`s have succeeded; that many end it, unless an `attach` has taken one of
the later candidates meanwhile; once an `attach` has named it, it is gone; and
once it is gone, it stays so. -/
theorem candidate_lifetime {X : Crates} (hhex : Function.Injective X.hex_encode)
    {stream : ℕ → Nonce} {ops : List EngineOp}
    (hdistinct : (registry_after X stream some ops).entropy.Distinct) {b : ℕ} {params : BeginParams}
    {result : BeginResult} (hbegun : Begun X stream some ops b params result) :
    (Unnamed some ops b result.session_candidate →
      begins_since X some ops b < MAX_PENDING_CANDIDATES →
      ∃ key, SigningPublicKey.from_hex X params.signing_pubkey_hex = some key ∧
        (registry_after X stream some ops).pending[result.session_candidate]?
          = some { nonce := begin_nonce X stream some ops b, advertised_key := key,
                   profile_did := params.profile_did }) ∧
    (Untaken X stream some ops b → MAX_PENDING_CANDIDATES ≤ begins_since X some ops b →
      (registry_after X stream some ops).pending[result.session_candidate]? = none) ∧
    (¬ Unnamed some ops b result.session_candidate →
      (registry_after X stream some ops).pending[result.session_candidate]? = none) ∧
    ∀ n, b < n →
      (registry_after X stream some (ops.take n)).pending[result.session_candidate]? = none →
      (registry_after X stream some ops).pending[result.session_candidate]? = none := by
  have hnamed : ¬ Unnamed some ops b result.session_candidate →
      (registry_after X stream some ops).pending[result.session_candidate]? = none := by
    intro hnamed
    unfold Unnamed at hnamed
    push Not at hnamed
    obtain ⟨j, l, hj, hl, hnames⟩ := hnamed
    have hgone := named_is_unknown hhex hdistinct hbegun hj
      (List.getElem?_eq_some_iff.mp hl).1 hl hnames
    rwa [List.take_length] at hgone
  refine ⟨?_, ?_, hnamed, fun n => candidate_gone_after hhex hdistinct hbegun⟩
  · intro hunnamed hfew
    obtain ⟨key, s, ks, hkey, -, hsim, hfollowed, -⟩ :=
      candidate_followed hhex hdistinct hbegun hunnamed hfew
    exact ⟨key, hkey, by rw [hsim.outstanding.entries, hfollowed.lookup]⟩
  · intro huntaken hmany
    by_cases hunnamed : Unnamed some ops b result.session_candidate
    · exact candidate_pushed_out hhex hdistinct hbegun hunnamed huntaken hmany
    · exact hnamed hunnamed

/-- What a registry answers to a `begin` that draws its `n`th nonce. -/
def offered (X : Crates) (stream : ℕ → Nonce) (n : ℕ) : BeginResult :=
  { nonce_b64 := X.base64_encode (stream n).val, session_candidate := X.hex_encode (stream (n + 1)).val }

/-- What it answers next. -/
def EngineSessionRegistry.offer (X : Crates) (self : EngineSessionRegistry) : BeginResult :=
  offered X self.entropy.stream self.entropy.drawn

/-- A key in hex parses, so its handshake is remembered. -/
theorem begin_to_hex {X : Crates} (hX : X.Faithful) (reg : EngineSessionRegistry)
    (key : SigningPublicKey) (did : String) :
    reg.begin X ⟨did, key.to_hex X⟩ = (.ok (reg.offer X), reg.remember X key did) := by
  rcases reg.begin_cases X ⟨did, key.to_hex X⟩ with ⟨hnone, -⟩ | ⟨key', hkey, hbegin⟩
  · rw [SigningPublicKey.from_hex_to_hex hX] at hnone
    cases hnone
  · rw [SigningPublicKey.from_hex_to_hex hX] at hkey
    rw [hbegin, ← Option.some.inj hkey]
    rfl

theorem first_begin {X : Crates} (hX : X.Faithful) (stream : ℕ → Nonce) (key : SigningPublicKey)
    (did : String) : (EngineSessionRegistry.new stream).begin X ⟨did, key.to_hex X⟩
      = (.ok (offered X stream 0), (EngineSessionRegistry.new stream).remember X key did) :=
  begin_to_hex hX (.new stream) key did

theorem first_begun {X : Crates} (hX : X.Faithful) (stream : ℕ → Nonce) (key : SigningPublicKey)
    (did : String) (ops : List EngineOp) :
    Begun X stream some (.begin ⟨did, key.to_hex X⟩ :: ops) 0 ⟨did, key.to_hex X⟩
      (offered X stream 0) :=
  ⟨_, rfl, rfl, congrArg Prod.fst (first_begin hX stream key did)⟩

/-- One `begin` after another. -/
def repeated_begin (X : Crates) (key : SigningPublicKey) (did : String) (n : ℕ) : List EngineOp :=
  List.replicate n (.begin ⟨did, key.to_hex X⟩)

theorem begins_since_repeated {X : Crates} (hX : X.Faithful) (key : SigningPublicKey) (did : String)
    (n : ℕ) (ops : List EngineOp) (hops : ∀ op ∈ ops, begins X some op = false) :
    begins_since X some (repeated_begin X key did (n + 1) ++ ops) 0 = n := by
  have hbegins : begins X some (EngineOp.begin ⟨did, key.to_hex X⟩) = true := by
    show (SigningPublicKey.from_hex X (key.to_hex X)).isSome = true
    rw [SigningPublicKey.from_hex_to_hex hX]
    rfl
  have hnone : ops.countP (begins X some) = 0 :=
    List.countP_eq_zero.mpr fun op hop => Bool.eq_false_iff.mp (hops op hop)
  unfold begins_since repeated_begin
  rw [List.replicate_succ, List.cons_append, List.drop_succ_cons, List.drop_zero, List.countP_append,
    List.countP_replicate, if_pos hbegins, hnone, Nat.add_zero]

/-- An `attach` that names a candidate and proves nothing. -/
def vain_attach (token : String) : EngineOp :=
  .attach (fun _ => none) ⟨token, "", ⟨"did", [], ""⟩⟩

/-- The first candidate outlives 255 later ones and not the next; that one of them
is taken afterwards does not bring it back. Or an `attach` names it before. -/
theorem candidate_lifetime_flooded :
    let token := Reference.crates.hex_encode (Reference.stream 1).val
    let second := Reference.crates.hex_encode (Reference.stream 3).val
    let after := fun n op => registry_after Reference.crates Reference.stream some
      (repeated_begin Reference.crates Reference.key "did" n ++ op)
    (∃ entry, (after MAX_PENDING_CANDIDATES []).pending[token]? = some entry) ∧
    (after (MAX_PENDING_CANDIDATES + 1) [vain_attach second]).pending[token]? = none ∧
    (after MAX_PENDING_CANDIDATES [vain_attach token]).pending[token]? = none := by
  intro token second after
  have hhex := Reference.faithful.hex_injective
  have hcap : MAX_PENDING_CANDIDATES = 255 + 1 := rfl
  have hdistinct : ∀ n ≤ MAX_PENDING_CANDIDATES + 1, ∀ ops : List EngineOp, ops.length ≤ 1 →
      (registry_after Reference.crates Reference.stream some
        (repeated_begin Reference.crates Reference.key "did" n ++ ops)).entropy.Distinct := by
    intro n hn ops hops
    have hle := drawn_le Reference.crates Reference.stream some
      (repeated_begin Reference.crates Reference.key "did" n ++ ops)
    rw [List.length_append, repeated_begin, List.length_replicate] at hle
    exact Reference.distinct (stream_after _ _ _ _) (hle.trans (by omega))
  have hbegun : ∀ n ops, Begun Reference.crates Reference.stream some
      (repeated_begin Reference.crates Reference.key "did" (n + 1) ++ ops) 0 _ _ :=
    fun n ops => first_begun Reference.faithful Reference.stream Reference.key "did" _
  have hlater : ∀ n ops, (∀ op ∈ ops, ∃ token, op = vain_attach token) →
      begins_since Reference.crates some
        (repeated_begin Reference.crates Reference.key "did" (n + 1) ++ ops) 0 = n := by
    intro n ops hops
    refine begins_since_repeated Reference.faithful _ _ n ops fun op hop => ?_
    obtain ⟨token, rfl⟩ := hops op hop
    rfl
  -- the only `attach` is the last call
  have hplace : ∀ {n j : ℕ} {token : String} {resolver : DidSigningKeyResolver} {params : AttachParams},
      (repeated_begin Reference.crates Reference.key "did" n ++ [vain_attach token])[j]?
        = some (.attach resolver params) → j = n := by
    intro n j token resolver params hl
    rw [repeated_begin, List.getElem?_append, List.length_replicate, List.getElem?_replicate] at hl
    by_cases hj : j < n
    · rw [if_pos hj, if_pos hj] at hl
      cases hl
    · have hlt := (List.getElem?_eq_some_iff.mp ((if_neg hj).symm.trans hl)).1
      rw [List.length_singleton] at hlt
      omega
  have hself : ∀ (n : ℕ) (op : EngineOp),
      (repeated_begin Reference.crates Reference.key "did" n ++ [op])[n]? = some op := by
    intro n op
    simp [repeated_begin]
  refine ⟨?_, ?_, ?_⟩
  · have hunnamed : Unnamed some (repeated_begin Reference.crates Reference.key "did" (255 + 1) ++ [])
        0 token := by
      rintro j l - hl ⟨resolver, params, hview, -⟩
      obtain rfl := Option.some.inj hview
      rw [List.append_nil] at hl
      have hmem := List.mem_of_getElem? hl
      rw [repeated_begin, List.mem_replicate] at hmem
      cases hmem.2
    have hfew := hlater 255 [] nofun
    obtain ⟨key, -, hentry⟩ := (candidate_lifetime hhex (hdistinct (255 + 1) (by omega) [] (by simp))
      (hbegun 255 [])).1 hunnamed (by omega)
    exact ⟨_, hentry⟩
  · refine (candidate_lifetime hhex (hdistinct _ le_rfl _ le_rfl)
      (hbegun MAX_PENDING_CANDIDATES [vain_attach second])).2.1 ?_ ?_
    · -- by the time the second candidate is taken, the first is gone
      rintro b' params result j - - hroom ⟨l, resolver, params', hl, hview, -, -⟩
      obtain rfl := Option.some.inj hview
      obtain rfl := hplace hl
      have hall := hlater MAX_PENDING_CANDIDATES [] nofun
      rw [List.append_nil] at hall
      rw [List.take_left' (by rw [repeated_begin, List.length_replicate]), hall] at hroom
      exact absurd hroom (lt_irrefl _)
    · exact (hlater MAX_PENDING_CANDIDATES _ (by simp)).ge
  · refine (candidate_lifetime hhex (hdistinct _ (Nat.le_succ _) _ le_rfl)
      (hbegun 255 [vain_attach token])).2.2.1 fun hunnamed => ?_
    exact hunnamed (255 + 1) (vain_attach token) (by omega) (hself _ _) ⟨_, _, rfl, rfl⟩

/-- **The life of a session.** In every run that draws no value twice, the open
sessions are those that a successful `attach` has opened and no `detach` has named
since; a `detach` answers whether its session is one of them; and no two `attach`
calls open a session under the same id. -/
theorem session_lifetime {X : Crates} (hhex : Function.Injective X.hex_encode) {stream : ℕ → Nonce}
    {ops : List EngineOp} (hdistinct : (registry_after X stream some ops).entropy.Distinct) :
    (∀ session_id profile,
      (registry_after X stream some ops).session session_id = some profile ↔
        ∃ a resolver params result, Attached X stream some ops a resolver params result ∧
          result.session_id = session_id ∧ params.profile = profile ∧
          Undetached some ops a session_id) ∧
    (∀ session_id, ((registry_after X stream some ops).detach session_id).1 = true ↔
      ∃ a resolver params result, Attached X stream some ops a resolver params result ∧
        result.session_id = session_id ∧ Undetached some ops a session_id) ∧
    ∀ a a' resolver resolver' params params' result result',
      Attached X stream some ops a resolver params result →
      Attached X stream some ops a' resolver' params' result' →
      result.session_id = result'.session_id → a = a' := by
  refine ⟨fun session_id profile => session_open_iff hhex hdistinct, ?_,
    fun a a' r r' p p' res res' h h' heq => attached_injective hhex hdistinct h h' heq⟩
  intro session_id
  rw [detach_iff]
  constructor
  · rintro ⟨profile, hsome⟩
    obtain ⟨a, resolver, params, result, hatt, hid, -, hun⟩ :=
      (session_open_iff hhex hdistinct).mp hsome
    exact ⟨a, resolver, params, result, hatt, hid, hun⟩
  · rintro ⟨a, resolver, params, result, hatt, hid, hun⟩
    exact ⟨params.profile,
      (session_open_iff hhex hdistinct).mpr ⟨a, resolver, params, result, hatt, hid, rfl, hun⟩⟩

/-- What is remembered is outstanding, -/
theorem remember_pending_self (X : Crates) (reg : EngineSessionRegistry) (key : SigningPublicKey)
    (did : String) : (reg.remember X key did).pending[(reg.offer X).session_candidate]?
      = some { nonce := reg.entropy.stream reg.entropy.drawn, advertised_key := key,
               profile_did := did } := ExtHashMap.getElem?_insert_self

theorem first_remembered_size (X : Crates) (stream : ℕ → Nonce) (key : SigningPublicKey)
    (did : String) : ((EngineSessionRegistry.new stream).remember X key did).pending.size ≤ 1 :=
  ExtHashMap.size_insert_le

/-- and while there is room, nothing goes for it. -/
theorem remember_pending_of_ne {X : Crates} {reg : EngineSessionRegistry} {token : String}
    (key : SigningPublicKey) (did : String) (hroom : reg.pending.size < MAX_PENDING_CANDIDATES)
    (hne : (reg.offer X).session_candidate ≠ token) :
    (reg.remember X key did).pending[token]? = reg.pending[token]? := by
  have hkept : (EngineSessionRegistry.evict reg.pending reg.candidate_order).1 = reg.pending := by
    unfold EngineSessionRegistry.evict
    split
    · rfl
    · rw [if_neg (Nat.not_le.mpr hroom)]
  unfold EngineSessionRegistry.remember
  simp only
  rw [hkept, ExtHashMap.getElem?_insert, if_neg (by simpa [EngineSessionRegistry.offer, offered] using hne)]

/-- What `attach` takes is gone, and nothing else. -/
theorem open_session_pending_of_ne {X : Crates} {reg : EngineSessionRegistry} {token taken : String}
    (profile : ProfileAttachment) (hne : taken ≠ token) :
    ((reg.without taken).open_session X profile).pending[token]? = reg.pending[token]? := by
  show (reg.pending.erase taken)[token]? = reg.pending[token]?
  rw [ExtHashMap.getElem?_erase, if_neg (by simpa using hne)]

/-- An `attach` is admitted if what is outstanding is of its own handshake. -/
theorem attach_admitted {X : Crates} (hX : X.Faithful) {reg : EngineSessionRegistry}
    {candidate : String} {nonce : Nonce} {key : SigningPublicKey} {profile : ProfileAttachment}
    {signature : Signature} {resolver : DidSigningKeyResolver}
    (hpending : reg.pending[candidate]? = some ⟨nonce, key, profile.did⟩)
    (hpublished : resolver profile.did = some key)
    (hverify : verify_signature X key (challenge_message nonce.val profile.did) signature = true) :
    reg.attach X resolver ⟨candidate, X.base64_encode signature.as_bytes, profile⟩
      = (.ok { session_id := X.hex_encode (reg.entropy.stream reg.entropy.drawn).val,
               engine_capabilities := ENGINE_CAPABILITIES },
          (reg.without candidate).open_session X profile) := by
  rcases reg.attach_cases X resolver ⟨candidate, X.base64_encode signature.as_bytes, profile⟩ with
    ⟨hnone, -⟩ | ⟨pending, hsome, hverdict⟩
  · rw [hpending] at hnone
    cases hnone
  · rw [hpending] at hsome
    obtain rfl := Option.some.inj hsome
    rcases hverdict with ⟨hrefused, -⟩ | ⟨-, hattach⟩
    · exact absurd ⟨rfl, hpublished, signature, decode_signature_eq_ok.mpr (hX.base64 _), hverify⟩
        hrefused
    · exact hattach

/-- The `attach` that belongs to the first `begin`. -/
theorem first_attach {X : Crates} (hX : X.Faithful) {stream : ℕ → Nonce} {key : SigningPublicKey}
    {profile : ProfileAttachment} {signature : Signature} {resolver : DidSigningKeyResolver}
    (hpublished : resolver profile.did = some key)
    (hverify : verify_signature X key (challenge_message (stream 0).val profile.did) signature = true) :
    (((EngineSessionRegistry.new stream).remember X key profile.did).attach X resolver
      ⟨(offered X stream 0).session_candidate, X.base64_encode signature.as_bytes, profile⟩).1
        = .ok { session_id := X.hex_encode (stream 2).val,
                engine_capabilities := ENGINE_CAPABILITIES } :=
  congrArg Prod.fst (attach_admitted hX
    (remember_pending_self X (.new stream) key profile.did) hpublished hverify)

/-- It opens a session in every run that starts with the two. -/
theorem first_attached {X : Crates} (hX : X.Faithful) {stream : ℕ → Nonce} {key : SigningPublicKey}
    {profile : ProfileAttachment} {signature : Signature} {resolver : DidSigningKeyResolver}
    (hpublished : resolver profile.did = some key)
    (hverify : verify_signature X key (challenge_message (stream 0).val profile.did) signature = true)
    (ops : List EngineOp) :
    Attached X stream some (.begin ⟨profile.did, key.to_hex X⟩ :: .attach resolver
        ⟨(offered X stream 0).session_candidate, X.base64_encode signature.as_bytes, profile⟩ :: ops)
      1 resolver
      ⟨(offered X stream 0).session_candidate, X.base64_encode signature.as_bytes, profile⟩
      { session_id := X.hex_encode (stream 2).val, engine_capabilities := ENGINE_CAPABILITIES } := by
  refine ⟨_, rfl, rfl, ?_⟩
  show (((EngineSessionRegistry.new stream).begin X ⟨profile.did, key.to_hex X⟩).2.attach X resolver
    _).1 = _
  rw [first_begin hX]
  exact first_attach hX hpublished hverify

/-- A handshake that has just succeeded. -/
theorem session_lifetime_open : ∃ session_id,
    (registry_after Reference.crates Reference.stream some
      [.begin ⟨"did", Reference.key.to_hex Reference.crates⟩,
        .attach (fun _ => some Reference.key) ⟨Reference.crates.hex_encode (Reference.stream 1).val,
          Reference.crates.base64_encode (Reference.sign
            (challenge_message (Reference.stream 0).val "did")).as_bytes, ⟨"did", [], ""⟩⟩]).session
      session_id = some ⟨"did", [], ""⟩ := by
  let m := challenge_message (Reference.stream 0).val "did"
  let begin : BeginParams := ⟨"did", Reference.key.to_hex Reference.crates⟩
  let attach : AttachParams := ⟨Reference.crates.hex_encode (Reference.stream 1).val,
    Reference.crates.base64_encode (Reference.sign m).as_bytes, ⟨"did", [], ""⟩⟩
  let ops : List EngineOp := [.begin begin, .attach (fun _ => some Reference.key) attach]
  have hdistinct : (registry_after Reference.crates Reference.stream some ops).entropy.Distinct := by
    have hle := drawn_le Reference.crates Reference.stream some ops
    exact Reference.distinct (stream_after _ _ _ _) (hle.trans (by decide))
  have hattached := @first_attached _ Reference.faithful Reference.stream Reference.key
    ⟨"did", [], ""⟩ (Reference.sign m) (fun _ => some Reference.key) rfl
    (Reference.verify_signature_iff.mpr ⟨by decide, rfl⟩) []
  have hun : ∀ session_id, Undetached some ops 1 session_id := by
    intro session_id j l hj hl
    rw [List.getElem?_eq_none (by exact hj)] at hl
    cases hl
  exact ⟨_, ((session_lifetime Reference.faithful.hex_injective hdistinct).1 _ _).mpr
    ⟨1, _, attach, _, hattached, rfl, rfl, hun _⟩⟩

/-! ## The two counters -/

namespace EngineOut

/-- A `begin` that succeeds. -/
def begins : EngineOut → Bool
  | .begin (.ok _) => true
  | _ => false

/-- An `attach` that takes a candidate, whatever it does with it. -/
def takes : EngineOut → Bool
  | .attach (.ok _) => true
  | .attach (.error e) => decide (e ≠ .UnknownCandidate)
  | _ => false

/-- An `attach` that opens a session. -/
def opens : EngineOut → Bool
  | .attach (.ok _) => true
  | _ => false

/-- A `detach` that closes one. -/
def closes : EngineOut → Bool
  | .detach removed => removed
  | _ => false

end EngineOut

/-- One step of the abstract machine and its two sizes. -/
theorem Handshakes.Step.sizes {X : Crates} {s s' : Handshakes} {op : EngineOp} {out : EngineOut}
    (hstep : Handshakes.Step X s (op, out) s') :
    s'.sessions.keys.card + (if out.closes then 1 else 0)
        = s.sessions.keys.card + (if out.opens then 1 else 0) ∧
      s'.outstanding.entries.length + (if out.takes then 1 else 0)
        = min MAX_PENDING_CANDIDATES
          (s.outstanding.entries.length + if out.begins then 1 else 0) := by
  have hbounded := s.outstanding.bounded
  have hsame : s.outstanding.entries.length
      = min MAX_PENDING_CANDIDATES s.outstanding.entries.length := (Nat.min_eq_right hbounded).symm
  cases hstep with
  | begin_refused key => exact ⟨rfl, hsame⟩
  | begin_ok nonce token parsed fresh => exact ⟨rfl, Fifo.length_push _ _ _ fresh⟩
  | attach_unknown unknown => exact ⟨rfl, hsame⟩
  | @attach_refused resolver params pending e found refused known =>
    have htakes : (EngineOut.attach (.error e)).takes = true := decide_eq_true known
    refine ⟨rfl, ?_⟩
    rw [htakes, if_pos rfl]
    exact (Fifo.length_remove found).trans hsame
  | @attach_ok resolver params pending session_id found admitted fresh =>
    refine ⟨?_, (Fifo.length_remove found).trans hsame⟩
    show (s.sessions.insert session_id params.profile).keys.card + 0 = s.sessions.keys.card + 1
    have hkeys : (s.sessions.insert session_id params.profile).keys
        = insert session_id s.sessions.keys := by
      ext id
      rw [Finmap.mem_keys, Finmap.mem_insert, Finset.mem_insert, Finmap.mem_keys]
    rw [hkeys, Finset.card_insert_of_notMem (by rwa [Finmap.mem_keys])]
  | @detach session_id removed answer =>
    refine ⟨?_, hsame⟩
    show (s.sessions.erase session_id).keys.card + (if removed then 1 else 0) = s.sessions.keys.card + 0
    rw [Finmap.keys_erase]
    cases removed with
    | true =>
      have hmem : session_id ∈ s.sessions.keys := Finmap.mem_keys.mpr (answer.mp rfl)
      exact Finset.card_erase_add_one hmem
    | false =>
      have hnot : session_id ∉ s.sessions.keys := by
        rw [Finmap.mem_keys]
        exact fun hmem => Bool.false_ne_true (answer.mpr hmem)
      rw [Finset.erase_eq_of_notMem hnot]
      rfl

/-- What the sizes say of the calls so far. -/
structure Handshakes.Counted (s : Handshakes) (ls : List (EngineOp × EngineOut)) : Prop where
  sessions : s.sessions.keys.card + ls.countP (fun l => l.2.closes) = ls.countP (fun l => l.2.opens)
  outstanding : s.outstanding.entries.length + ls.countP (fun l => l.2.takes)
    ≤ ls.countP (fun l => l.2.begins)
  tight : ls.countP (fun l => l.2.begins) ≤ MAX_PENDING_CANDIDATES →
    s.outstanding.entries.length + ls.countP (fun l => l.2.takes) = ls.countP (fun l => l.2.begins)

theorem Handshakes.Step.counted {X : Crates} {s s' : Handshakes} {op : EngineOp} {out : EngineOut}
    (hstep : Handshakes.Step X s (op, out) s') {ls : List (EngineOp × EngineOut)}
    (h : s.Counted ls) : s'.Counted (ls ++ [(op, out)]) := by
  obtain ⟨hopen, hle, heq⟩ := h
  obtain ⟨hsessions, houtstanding⟩ := hstep.sizes
  refine ⟨?_, ?_, ?_⟩
  all_goals simp only [List.countP_append, List.countP_singleton]
  · omega
  · omega
  · intro hfew
    have hearlier := heq (by omega)
    omega

/-- **The counters add up.** In every run that draws no value twice,
`open_sessions` is the number of sessions opened less the number closed, and
`pending_candidates` never exceeds the candidates issued less those taken, and
equals it as long as no more than `MAX_PENDING_CANDIDATES` have been issued. -/
theorem engine_counters {X : Crates} (hhex : Function.Injective X.hex_encode) {stream : ℕ → Nonce}
    {ls : List (EngineOp × EngineOut)} {reg : EngineSessionRegistry}
    (hrun : Machine.Run (EngineStep X) (EngineSessionRegistry.new stream) ls reg)
    (hdistinct : reg.entropy.Distinct) :
    reg.open_sessions + ls.countP (fun l => l.2.closes) = ls.countP (fun l => l.2.opens) ∧
    reg.pending_candidates + ls.countP (fun l => l.2.takes) ≤ ls.countP (fun l => l.2.begins) ∧
    (ls.countP (fun l => l.2.begins) ≤ MAX_PENDING_CANDIDATES →
      reg.pending_candidates + ls.countP (fun l => l.2.takes) = ls.countP (fun l => l.2.begins)) := by
  have hinv : reg.entropy.Distinct → Drawn X reg ∧ ∃ s, Simulates reg s ∧ s.Counted ls := by
    refine hrun.invariant (I := fun ls reg => reg.entropy.Distinct →
      Drawn X reg ∧ ∃ s, Simulates reg s ∧ s.Counted ls) ?_ ?_
    · intro _
      refine ⟨⟨fun token h => ?_, fun id h => ?_⟩, .start, Simulates.start stream,
        rfl, le_rfl, fun _ => rfl⟩
      · simp [EngineSessionRegistry.new] at h
      · simp [EngineSessionRegistry.new] at h
    · intro ls reg l reg' _ ih hstep hdistinct'
      have happly : (l.1.apply X reg).2 = reg' := by rw [hstep]
      obtain ⟨hdrawn, s, hsim, hcounted⟩ :=
        ih (distinct_of_apply (by rw [happly]; exact hdistinct'))
      obtain ⟨hdrawn', s', hs, hsim'⟩ := refines_step hhex hstep hdistinct' hdrawn hsim
      exact ⟨hdrawn', s', hsim', hs.counted hcounted⟩
  obtain ⟨-, s, hsim, hcounted⟩ := hinv hdistinct
  rw [hsim.open_sessions, hsim.pending_candidates]
  exact ⟨hcounted.sessions, hcounted.outstanding, hcounted.tight⟩

/-- A call after a history, with what it answers there. -/
theorem engine_step_after {X : Crates} {stream : ℕ → Nonce} (ops : List EngineOp) (op : EngineOp)
    (out : EngineOut) (h : (op.apply X (registry_after X stream some ops)).1 = out) :
    EngineStep X (registry_after X stream some ops) (op, out)
      (registry_after X stream some (ops ++ [op])) := by
  rw [registry_after_snoc]
  exact Prod.ext h rfl

/-- A session is opened and closed, and a second candidate is left outstanding. -/
theorem engine_counters_handshake : ∃ begun attached begun' reg,
    Machine.Run (EngineStep Reference.crates) (EngineSessionRegistry.new Reference.stream)
      [(.begin ⟨"did", Reference.key.to_hex Reference.crates⟩, .begin (.ok begun)),
        (.attach (fun _ => some Reference.key) ⟨Reference.crates.hex_encode (Reference.stream 1).val,
          Reference.crates.base64_encode (Reference.sign
            (challenge_message (Reference.stream 0).val "did")).as_bytes, ⟨"did", [], ""⟩⟩,
          .attach (.ok attached)),
        (.begin ⟨"did", Reference.key.to_hex Reference.crates⟩, .begin (.ok begun')),
        (.detach attached.session_id, .detach true)] reg ∧
    reg.open_sessions = 0 ∧ reg.pending_candidates = 1 := by
  let begin : BeginParams := ⟨"did", Reference.key.to_hex Reference.crates⟩
  let attach : AttachParams := ⟨Reference.crates.hex_encode (Reference.stream 1).val,
    Reference.crates.base64_encode (Reference.sign
      (challenge_message (Reference.stream 0).val "did")).as_bytes, ⟨"did", [], ""⟩⟩
  let resolver : DidSigningKeyResolver := fun _ => some Reference.key
  let opened : List EngineOp := [.begin begin, .attach resolver attach, .begin begin]
  let session_id := Reference.crates.hex_encode (Reference.stream 2).val
  have hdistinct : ∀ ops : List EngineOp, ops.length ≤ 4 →
      (registry_after Reference.crates Reference.stream some ops).entropy.Distinct := by
    intro ops hops
    have hle := drawn_le Reference.crates Reference.stream some ops
    exact Reference.distinct (stream_after _ _ _ _) (hle.trans (by omega))
  have hattached := @first_attached _ Reference.faithful Reference.stream Reference.key
    ⟨"did", [], ""⟩ (Reference.sign (challenge_message (Reference.stream 0).val "did")) resolver rfl
    (Reference.verify_signature_iff.mpr ⟨by decide, rfl⟩)
  -- what the four calls answer
  have hbegin : ∀ reg : EngineSessionRegistry, ∃ result,
      (reg.begin Reference.crates begin).1 = .ok result := by
    intro reg
    rw [begin_ok_iff]
    show (SigningPublicKey.from_hex _ (Reference.key.to_hex Reference.crates)).isSome = true
    rw [SigningPublicKey.from_hex_to_hex Reference.faithful]
    rfl
  obtain ⟨begun, hbegun⟩ := hbegin (registry_after Reference.crates Reference.stream some [])
  obtain ⟨begun', hbegun'⟩ := hbegin (registry_after Reference.crates Reference.stream some
    [.begin begin, .attach resolver attach])
  obtain ⟨l, hl, hview, hattach⟩ := hattached []
  obtain rfl := Option.some.inj hl
  have hdetach : ((registry_after Reference.crates Reference.stream some opened).detach session_id).1
      = true := by
    refine (detach_iff _ _).mpr ⟨_, (session_open_iff Reference.faithful.hex_injective
      (hdistinct opened (by simp [opened]))).mpr
      ⟨1, resolver, attach, _, hattached [.begin begin], rfl, rfl, ?_⟩⟩
    intro j l hj hl hview
    obtain rfl := Option.some.inj hview
    have hmem := List.mem_of_getElem? hl
    simp [opened] at hmem
  have hrun := (((Machine.Run.start.step
    (engine_step_after [] (.begin begin) (.begin (.ok begun)) (congrArg EngineOut.begin hbegun))).step
    (engine_step_after [.begin begin] (.attach resolver attach) (.attach (.ok _))
      (congrArg EngineOut.attach hattach))).step
    (engine_step_after [.begin begin, .attach resolver attach] (.begin begin) (.begin (.ok begun'))
      (congrArg EngineOut.begin hbegun'))).step
    (engine_step_after opened (.detach session_id) (.detach true)
      (congrArg EngineOut.detach hdetach))
  obtain ⟨hopen, -, hpending⟩ := engine_counters Reference.faithful.hex_injective hrun
    (hdistinct _ (by simp [opened]))
  simp only [List.nil_append, List.cons_append] at hopen hpending
  simp only [List.countP_cons, List.countP_nil, EngineOut.begins, EngineOut.takes, EngineOut.opens,
    EngineOut.closes] at hopen hpending
  refine ⟨begun, _, begun', _, hrun, ?_, ?_⟩
  · simpa using hopen
  · simpa [MAX_PENDING_CANDIDATES] using hpending

end DigIpc
