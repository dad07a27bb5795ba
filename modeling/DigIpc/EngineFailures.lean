/-
What a refused call leaves behind, and what a named candidate can still do.

The first half is about one call at a reached state: a refusal of `begin`, or an
`attach` that finds nothing, is no step at all; any other refusal of `attach`
takes exactly the candidate it names. That the *whole* occurrence leaves the
queue needs the queue to hold each token once, so the states are those of runs
that draw no value twice, and the invariant is the one of `EngineFifo`.

The second half is about runs. A token is the second draw of the `begin` that
issues it, so under distinct draws no two `begin`s issue the same token
(`begun_injective`). A pending entry has an origin that no `attach` has named
since; once its only possible origin has been named, there is no entry.
-/
import DigIpc.EngineFifo

set_option autoImplicit false

open Std KeyedFifo

namespace DigIpc

section Draws

variable {X : Crates} {stream : ℕ → Nonce} {ℓ : Type} {view : ℓ → Option EngineOp}

/-! ## Draws along a history -/

theorem advance_entropy (reg : EngineSessionRegistry) (l : ℓ) :
    (advance X view reg l).entropy.stream = reg.entropy.stream ∧
      reg.entropy.drawn ≤ (advance X view reg l).entropy.drawn := by
  unfold advance
  cases view l with
  | none => exact ⟨rfl, le_rfl⟩
  | some op =>
    obtain ⟨hstream, hle, -⟩ := apply_entropy X reg op
    exact ⟨hstream, hle⟩

variable (X stream view) in
theorem stream_after (ls : List ℓ) : (registry_after X stream view ls).entropy.stream = stream := by
  induction ls using List.reverseRecOn with
  | nil => rfl
  | append_singleton ls l ih =>
    rw [registry_after_snoc, (advance_entropy _ l).1]
    exact ih

variable (X stream view) in
/-- What is drawn stays drawn. -/
theorem drawn_take_le (ls : List ℓ) : ∀ n : ℕ,
    (registry_after X stream view (ls.take n)).entropy.drawn
      ≤ (registry_after X stream view ls).entropy.drawn := by
  induction ls using List.reverseRecOn with
  | nil =>
    intro n
    rw [List.take_nil]
  | append_singleton ls l ih =>
    intro n
    by_cases hn : n ≤ ls.length
    · rw [List.take_append_of_le_length hn, registry_after_snoc]
      exact (ih n).trans (advance_entropy _ l).2
    · rw [List.take_of_length_le (by rw [List.length_append, List.length_singleton]; omega)]

variable (X stream view) in
/-- A call draws at most twice. -/
theorem drawn_le (ls : List ℓ) :
    (registry_after X stream view ls).entropy.drawn ≤ 2 * ls.length := by
  induction ls using List.reverseRecOn with
  | nil => exact le_rfl
  | append_singleton ls l ih =>
    have hstep : (advance X view (registry_after X stream view ls) l).entropy.drawn
        ≤ (registry_after X stream view ls).entropy.drawn + 2 := by
      unfold advance
      cases view l with
      | none => exact Nat.le_add_right _ 2
      | some op => exact (apply_entropy X _ op).2.2
    rw [registry_after_snoc, List.length_append, List.length_singleton]
    omega

/-- A history whose draws are distinct was distinct all along. -/
theorem distinct_take {ls : List ℓ} (hdistinct : (registry_after X stream view ls).entropy.Distinct)
    (n : ℕ) : (registry_after X stream view (ls.take n)).entropy.Distinct := by
  have hle := drawn_take_le X stream view ls n
  intro i j hi hj heq
  rw [stream_after] at heq
  exact hdistinct i j (by omega) (by omega) (by rw [stream_after]; exact heq)

/-- Under distinct draws the registry holds a bounded FIFO, all of it drawn. -/
theorem simulates_after (hhex : Function.Injective X.hex_encode) (ls : List ℓ)
    (hdistinct : (registry_after X stream view ls).entropy.Distinct) :
    Drawn X (registry_after X stream view ls) ∧
      ∃ s, Simulates (registry_after X stream view ls) s := by
  induction ls using List.reverseRecOn with
  | nil =>
    refine ⟨⟨fun token h => ?_, fun id h => ?_⟩, .start, Simulates.start stream⟩
    · simp [EngineSessionRegistry.new] at h
    · simp [EngineSessionRegistry.new] at h
  | append_singleton ls l ih =>
    have hbefore := distinct_take hdistinct ls.length
    rw [List.take_left] at hbefore
    obtain ⟨hdrawn, s, hsim⟩ := ih hbefore
    rw [registry_after_snoc] at hdistinct ⊢
    unfold advance at hdistinct ⊢
    cases hview : view l with
    | none => exact ⟨hdrawn, s, hsim⟩
    | some op =>
      rw [hview] at hdistinct
      have hstep : EngineStep X (registry_after X stream view ls)
          (op, (op.apply X (registry_after X stream view ls)).1)
          (op.apply X (registry_after X stream view ls)).2 := rfl
      obtain ⟨hdrawn', s', -, hsim'⟩ := refines_step hhex hstep hdistinct hdrawn hsim
      exact ⟨hdrawn', s', hsim'⟩

/-! ## The two draws of a `begin` -/

/-- A successful `begin` draws its nonce and its token. -/
theorem Begun.draws {ls : List ℓ} {b : ℕ} {params : BeginParams} {result : BeginResult}
    (h : Begun X stream view ls b params result) :
    begin_nonce X stream view ls b
        = stream (registry_after X stream view (ls.take b)).entropy.drawn ∧
      result.session_candidate = X.hex_encode
        (stream ((registry_after X stream view (ls.take b)).entropy.drawn + 1)).val ∧
      (registry_after X stream view (ls.take b)).entropy.drawn + 2
        ≤ (registry_after X stream view (ls.take (b + 1))).entropy.drawn := by
  obtain ⟨l, hl, hv, hr⟩ := h
  have hstream := stream_after X stream view (ls.take b)
  have htake : ls.take (b + 1) = ls.take b ++ [l] := by
    rw [List.take_add_one, hl]
    rfl
  have hnonce : begin_nonce X stream view ls b
      = stream (registry_after X stream view (ls.take b)).entropy.drawn := by
    unfold begin_nonce SessionEntropy.fill_nonce
    rw [hstream]
  rcases (registry_after X stream view (ls.take b)).begin_cases X params with ⟨-, hb⟩ | ⟨key, -, hb⟩
  · rw [hb] at hr
    cases hr
  · rw [htake, registry_after_snoc]
    unfold advance
    rw [hv]
    simp only [EngineOp.apply]
    rw [hb] at hr ⊢
    cases hr
    refine ⟨hnonce, ?_, le_rfl⟩
    rw [hstream]

/-- Two `begin`s at different positions draw different values. -/
theorem begun_apart {ls : List ℓ} {b b' : ℕ} {params params' : BeginParams}
    {result result' : BeginResult} (h : Begun X stream view ls b params result)
    (h' : Begun X stream view ls b' params' result') (hlt : b < b') :
    (registry_after X stream view (ls.take b)).entropy.drawn + 2
        ≤ (registry_after X stream view (ls.take b')).entropy.drawn ∧
      (registry_after X stream view (ls.take b')).entropy.drawn + 2
        ≤ (registry_after X stream view ls).entropy.drawn := by
  obtain ⟨-, -, hdraws⟩ := h.draws
  obtain ⟨-, -, hdraws'⟩ := h'.draws
  have hmono := drawn_take_le X stream view (ls.take b') (b + 1)
  rw [List.take_take, Nat.min_eq_left (by omega)] at hmono
  have hend := drawn_take_le X stream view ls (b' + 1)
  omega

/-- Distinct draws are at distinct places of the stream. -/
theorem draws_injective {ls : List ℓ}
    (hdistinct : (registry_after X stream view ls).entropy.Distinct) {i j : ℕ}
    (heq : stream i = stream j) (hi : i < (registry_after X stream view ls).entropy.drawn)
    (hj : j < (registry_after X stream view ls).entropy.drawn) : i = j :=
  hdistinct i j hi hj (by rw [stream_after]; exact heq)

/-- The draws of a `begin` are its own: no other draws the same nonce (`k = 0`)
or the same token (`k = 1`). -/
theorem begun_eq_of_draw {ls : List ℓ}
    (hdistinct : (registry_after X stream view ls).entropy.Distinct) {b b' : ℕ}
    {params params' : BeginParams} {result result' : BeginResult}
    (h : Begun X stream view ls b params result) (h' : Begun X stream view ls b' params' result')
    {k : ℕ} (hk : k < 2)
    (heq : stream ((registry_after X stream view (ls.take b)).entropy.drawn + k)
      = stream ((registry_after X stream view (ls.take b')).entropy.drawn + k)) : b = b' := by
  rcases Nat.lt_trichotomy b b' with hlt | hsame | hgt
  · obtain ⟨hle, hle'⟩ := begun_apart h h' hlt
    have hidx := draws_injective hdistinct heq (by omega) (by omega)
    omega
  · exact hsame
  · obtain ⟨hle, hle'⟩ := begun_apart h' h hgt
    have hidx := draws_injective hdistinct heq (by omega) (by omega)
    omega

/-- **No token is issued twice.** -/
theorem begun_injective (hhex : Function.Injective X.hex_encode) {ls : List ℓ}
    (hdistinct : (registry_after X stream view ls).entropy.Distinct) {b b' : ℕ}
    {params params' : BeginParams} {result result' : BeginResult}
    (h : Begun X stream view ls b params result) (h' : Begun X stream view ls b' params' result')
    (heq : result.session_candidate = result'.session_candidate) : b = b' := by
  rw [h.draws.2.1, h'.draws.2.1] at heq
  exact begun_eq_of_draw hdistinct h h' Nat.one_lt_two (Subtype.ext (hhex heq))

/-- **No nonce is challenged twice.** -/
theorem begin_nonce_injective {ls : List ℓ}
    (hdistinct : (registry_after X stream view ls).entropy.Distinct) {b b' : ℕ}
    {params params' : BeginParams} {result result' : BeginResult}
    (h : Begun X stream view ls b params result) (h' : Begun X stream view ls b' params' result')
    (heq : begin_nonce X stream view ls b = begin_nonce X stream view ls b') : b = b' := by
  rw [h.draws.1, h'.draws.1] at heq
  exact begun_eq_of_draw hdistinct h h' Nat.zero_lt_two heq

/-- **A candidate once named is gone for good.** Its entry could only come from
the one `begin` that issued the token, and an `attach` has named it since. -/
theorem named_is_unknown (hhex : Function.Injective X.hex_encode) {ls : List ℓ}
    (hdistinct : (registry_after X stream view ls).entropy.Distinct) {b a n : ℕ}
    {params : BeginParams} {result : BeginResult} {l : ℓ}
    (hbegun : Begun X stream view ls b params result) (hba : b < a) (han : a < n) (hl : ls[a]? = some l)
    (hnames : AttachNames view result.session_candidate l) :
    (registry_after X stream view (ls.take n)).pending[result.session_candidate]? = none := by
  rw [← Option.not_isSome_iff_eq_none, Option.isSome_iff_exists]
  rintro ⟨p, hp⟩
  obtain ⟨b', horigin⟩ := pending_origin _ hp
  obtain ⟨params', result', key, hbegun', htok, -⟩ := horigin.made
  -- no two `begin`s issue the token, so the origin is the `begin` at `b`
  have hsame : b = b' := begun_injective hhex hdistinct hbegun hbegun'.take htok.symm
  rw [← hsame] at horigin
  exact horigin.untouched a l hba (by rw [List.getElem?_take_of_lt han]; exact hl) hnames

end Draws

/-! ## Refusals -/

/-- **A refusal is atomic, but for the candidate it names.** At every state
reached by a run that draws no value twice: a refused `begin` and an `attach`
that finds no candidate change nothing at all; any other refused `attach`
removes the candidate it names from the map and from the queue, and leaves the
other candidates, their order, the sessions and the entropy alone. And once an
`attach` has named a token that a `begin` issued, every later `attach` naming it
is refused as unknown. -/
theorem engine_failures_atomic {X : Crates} (hhex : Function.Injective X.hex_encode)
    {stream : ℕ → Nonce} {ops : List EngineOp}
    (hdistinct : (registry_after X stream some ops).entropy.Distinct) :
    let reg := registry_after X stream some ops
    (∀ params e, (reg.begin X params).1 = .error e → (reg.begin X params).2 = reg) ∧
    (∀ resolver params, (reg.attach X resolver params).1 = .error .UnknownCandidate →
      (reg.attach X resolver params).2 = reg) ∧
    (∀ resolver params e, (reg.attach X resolver params).1 = .error e → e ≠ .UnknownCandidate →
      let reg' := (reg.attach X resolver params).2
      params.session_candidate ∈ reg.pending ∧ params.session_candidate ∈ reg.candidate_order ∧
      (∀ token : String, reg'.pending[token]?
        = if token = params.session_candidate then none else reg.pending[token]?) ∧
      reg'.candidate_order = reg.candidate_order.filter (fun token => token ≠ params.session_candidate) ∧
      reg'.sessions = reg.sessions ∧ reg'.entropy = reg.entropy) ∧
    ∀ b a a' params result resolver aparams resolver' aparams',
      Begun X stream some ops b params result → b < a → a < a' →
      ops[a]? = some (.attach resolver aparams) →
      aparams.session_candidate = result.session_candidate →
      ops[a']? = some (.attach resolver' aparams') →
      aparams'.session_candidate = result.session_candidate →
      ((registry_after X stream some (ops.take a')).attach X resolver' aparams').1
        = .error .UnknownCandidate := by
  intro reg
  refine ⟨?_, ?_, ?_, ?_⟩
  · intro params e herr
    rcases reg.begin_cases X params with ⟨-, hb⟩ | ⟨key, -, hb⟩
    · rw [hb]
    · rw [hb] at herr
      cases herr
  · intro resolver params herr
    rcases reg.attach_cases X resolver params with ⟨-, ha⟩ | ⟨pending, -, ⟨-, e, hne, ha⟩ | ⟨-, ha⟩⟩
    · rw [ha]
    · rw [ha] at herr
      exact absurd (Except.error.inj herr) hne
    · rw [ha] at herr
      cases herr
  · intro resolver params e herr hknown
    rcases reg.attach_cases X resolver params with
      ⟨-, ha⟩ | ⟨pending, hsome, ⟨-, e', -, ha⟩ | ⟨-, ha⟩⟩
    · rw [ha] at herr
      exact absurd (Except.error.inj herr).symm hknown
    · rw [ha]
      -- the queue is what the map holds, each token once, so that erasing it is filtering it out
      obtain ⟨-, s, hsim⟩ := simulates_after hhex ops hdistinct
      have horder : reg.candidate_order = s.outstanding.keys := hsim.outstanding.order_eq
      have hnodup : reg.candidate_order.Nodup := by
        rw [horder]
        exact s.outstanding.nodup
      have hmem : params.session_candidate ∈ reg.pending := by
        rw [ExtHashMap.mem_iff_isSome_getElem?, hsome]
        rfl
      have hqueued : params.session_candidate ∈ reg.candidate_order := by
        have hlookup := hsim.outstanding.entries params.session_candidate
        rw [horder]
        by_contra hnot
        rw [Fifo.lookup_eq_none.mpr hnot] at hlookup
        rw [hsome] at hlookup
        cases hlookup
      refine ⟨hmem, hqueued, fun token => ?_, ?_, rfl, rfl⟩
      · show (reg.pending.erase params.session_candidate)[token]? = _
        rw [ExtHashMap.getElem?_erase]
        by_cases heq : token = params.session_candidate
        · rw [if_pos heq, if_pos (by simpa using heq.symm)]
        · rw [if_neg heq, if_neg (by simpa using Ne.symm heq)]
      · show reg.candidate_order.erase params.session_candidate = _
        rw [hnodup.erase_eq_filter]
        refine List.filter_congr fun token _ => ?_
        by_cases heq : token = params.session_candidate <;> simp [heq]
    · rw [ha] at herr
      cases herr
  · intro b a a' params result resolver aparams resolver' aparams' hbegun hba haa' hl htok _ htok'
    -- whatever became of the first `attach`, the token is gone
    have hnone := named_is_unknown hhex hdistinct hbegun hba haa' hl ⟨resolver, aparams, rfl, htok⟩
    rw [← htok'] at hnone
    rcases (registry_after X stream some (ops.take a')).attach_cases X resolver' aparams' with
      ⟨-, ha⟩ | ⟨pending, hsome, -⟩
    · rw [ha]
    · rw [hnone] at hsome
      cases hsome

/-- A candidate is issued, named with a wrong DID, and named again. -/
theorem engine_failures_atomic_replay :
    ((registry_after Reference.crates Reference.stream some
        [EngineOp.begin ⟨"did:a", Reference.key.to_hex Reference.crates⟩,
          .attach (fun _ => none)
            ⟨Reference.crates.hex_encode (Reference.stream 1).val, "", ⟨"did:b", [], ""⟩⟩]).attach
      Reference.crates (fun _ => some Reference.key)
      ⟨Reference.crates.hex_encode (Reference.stream 1).val, "", ⟨"did:a", [], ""⟩⟩).1
        = .error .UnknownCandidate := by
  let params : BeginParams := ⟨"did:a", Reference.key.to_hex Reference.crates⟩
  let naming : EngineOp := .attach (fun _ => none)
    ⟨Reference.crates.hex_encode (Reference.stream 1).val, "", ⟨"did:b", [], ""⟩⟩
  let again : EngineOp := .attach (fun _ => some Reference.key)
    ⟨Reference.crates.hex_encode (Reference.stream 1).val, "", ⟨"did:a", [], ""⟩⟩
  let ops : List EngineOp := [.begin params, naming, again]
  have hdistinct : (registry_after Reference.crates Reference.stream some ops).entropy.Distinct := by
    have hle := drawn_le Reference.crates Reference.stream some ops
    have hlen : 2 * ops.length = 6 := rfl
    exact Reference.distinct (stream_after _ _ _ ops) (by omega)
  have hbegun : Begun Reference.crates Reference.stream some ops 0 params
      { nonce_b64 := Reference.crates.base64_encode (Reference.stream 0).val,
        session_candidate := Reference.crates.hex_encode (Reference.stream 1).val } := by
    refine ⟨.begin params, rfl, rfl, ?_⟩
    rcases (EngineSessionRegistry.new Reference.stream).begin_cases Reference.crates params with
      ⟨hnone, -⟩ | ⟨key, -, hb⟩
    · rw [SigningPublicKey.from_hex_to_hex Reference.faithful] at hnone
      cases hnone
    · exact congrArg Prod.fst hb
  obtain ⟨-, -, -, hreplay⟩ := engine_failures_atomic Reference.faithful.hex_injective hdistinct
  exact hreplay 0 1 2 params _ _ _ _ _ hbegun Nat.zero_lt_one Nat.one_lt_two rfl rfl rfl rfl

end DigIpc
