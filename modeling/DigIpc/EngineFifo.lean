/-
The registry refines a bounded FIFO.

What the engine's bookkeeping is for is said by `Handshakes`: a FIFO of at most
`MAX_PENDING_CANDIDATES` outstanding handshakes and a finite map of sessions.
`Handshakes.Step` is the abstract machine, one constructor for each thing a call
can do. The registry spreads the FIFO over a hash map and a queue of keys and
updates the two in three places; `refines_step` checks each place against its
rule in `KeyedFifo`, and `engine_refines_bounded_fifo` is the run lemma.

The rules of insertion ask for a fresh key. Freshness is not checked by the
code: it comes from the entropy, so the invariant remembers that every token and
every id is a value already drawn (`Drawn`), and the run is assumed to draw no
value twice.
-/
import DigIpc.EngineHistory
import DigIpc.KeyedFifo
import DigIpc.Machine
import DigIpc.Reference
import Mathlib.Data.Finmap

set_option autoImplicit false

open Std KeyedFifo

namespace DigIpc

open EngineSessionRegistry (Admits)

instance : NeZero MAX_PENDING_CANDIDATES := ⟨by decide⟩

/-! ## The abstract machine -/

/-- What the engine keeps: the outstanding handshakes in the order of their
`begin`, and the open sessions. -/
structure Handshakes where
  outstanding : Fifo MAX_PENDING_CANDIDATES String PendingCandidate
  sessions : Finmap fun _ : String => ProfileAttachment

namespace Handshakes

/-- Nothing outstanding, nothing open. -/
def start : Handshakes := ⟨Fifo.empty, ∅⟩

/-- One call and its result. -/
inductive Step (X : Crates) : Handshakes → EngineOp × EngineOut → Handshakes → Prop
  /-- A malformed key is refused and changes nothing. -/
  | begin_refused {s : Handshakes} {params : BeginParams}
      (key : SigningPublicKey.from_hex X params.signing_pubkey_hex = none) :
      Step X s (.begin params, .begin (.error (.Malformed "signing_pubkey_hex"))) s
  /-- A successful `begin` appends one entry, dropping the head of a full FIFO. -/
  | begin_ok {s : Handshakes} {params : BeginParams} {key : SigningPublicKey} (nonce : Nonce)
      (token : String) (parsed : SigningPublicKey.from_hex X params.signing_pubkey_hex = some key)
      (fresh : token ∉ s.outstanding.keys) :
      Step X s
        (.begin params, .begin (.ok
          { nonce_b64 := X.base64_encode nonce.val, session_candidate := token }))
        { s with
          outstanding := s.outstanding.push token
            { nonce, advertised_key := key, profile_did := params.profile_did } fresh }
  /-- An `attach` naming nothing outstanding changes nothing. -/
  | attach_unknown {s : Handshakes} {resolver : DidSigningKeyResolver} {params : AttachParams}
      (unknown : params.session_candidate ∉ s.outstanding.keys) :
      Step X s (.attach resolver params, .attach (.error .UnknownCandidate)) s
  /-- A refused `attach` removes the entry it names, and nothing else. -/
  | attach_refused {s : Handshakes} {resolver : DidSigningKeyResolver} {params : AttachParams}
      {pending : PendingCandidate} {e : AttachError}
      (found : s.outstanding.lookup params.session_candidate = some pending)
      (refused : ¬ Admits X resolver pending params) (known : e ≠ .UnknownCandidate) :
      Step X s (.attach resolver params, .attach (.error e))
        { s with outstanding := s.outstanding.remove params.session_candidate }
  /-- An admitted `attach` removes the entry it names and adds one binding,
  overwriting none. -/
  | attach_ok {s : Handshakes} {resolver : DidSigningKeyResolver} {params : AttachParams}
      {pending : PendingCandidate} (session_id : String)
      (found : s.outstanding.lookup params.session_candidate = some pending)
      (admitted : Admits X resolver pending params) (fresh : session_id ∉ s.sessions) :
      Step X s
        (.attach resolver params, .attach (.ok
          { session_id, engine_capabilities := ENGINE_CAPABILITIES }))
        { outstanding := s.outstanding.remove params.session_candidate
          sessions := s.sessions.insert session_id params.profile }
  /-- `detach` removes one binding and says whether it was there. -/
  | detach {s : Handshakes} {session_id : String} {removed : Bool}
      (answer : removed = true ↔ session_id ∈ s.sessions) :
      Step X s (.detach session_id, .detach removed)
        { s with sessions := s.sessions.erase session_id }

end Handshakes

/-! ## The simulation relation -/

/-- The registry holds what the abstract machine keeps. -/
structure Simulates (reg : EngineSessionRegistry) (s : Handshakes) : Prop where
  outstanding : Represents reg.pending reg.candidate_order s.outstanding
  sessions : ∀ session_id : String, reg.sessions[session_id]? = s.sessions.lookup session_id

namespace Simulates

variable {reg : EngineSessionRegistry} {s : Handshakes}

theorem start (stream : ℕ → Nonce) : Simulates (EngineSessionRegistry.new stream) .start :=
  ⟨Represents.empty, fun _ => by
    rw [Handshakes.start, Finmap.lookup_empty, EngineSessionRegistry.new]
    exact ExtHashMap.getElem?_empty⟩

theorem pending_candidates (h : Simulates reg s) :
    reg.pending_candidates = s.outstanding.entries.length := h.outstanding.size

theorem open_sessions (h : Simulates reg s) : reg.open_sessions = s.sessions.keys.card := by
  refine size_eq_card fun session_id => ?_
  rw [h.sessions, Finmap.mem_keys, Finmap.lookup_isSome]

/-- The loop of `evict_if_full` makes room for one entry. -/
theorem evict (h : Simulates reg s) :
    Represents (EngineSessionRegistry.evict reg.pending reg.candidate_order).1
      (EngineSessionRegistry.evict reg.pending reg.candidate_order).2
      s.outstanding.make_room := by
  have hrep := h.outstanding
  rcases horder : reg.candidate_order with _ | ⟨oldest, rest⟩
  · -- an empty queue: nothing is outstanding, so there is room
    rw [horder] at hrep
    have hsize : reg.pending.size < MAX_PENDING_CANDIDATES := by
      have hlen : s.outstanding.keys.length = 0 := by rw [← hrep.order_eq]; rfl
      rw [Fifo.keys, List.length_map] at hlen
      rw [hrep.size, hlen]
      decide
    rw [hrep.room hsize]
    exact hrep
  · rw [horder] at hrep
    rw [EngineSessionRegistry.evict]
    by_cases hfull : MAX_PENDING_CANDIDATES ≤ reg.pending.size
    · -- one entry goes, and the loop stops: there is room now
      have hpop := hrep.pop hfull
      have hspare : ¬ MAX_PENDING_CANDIDATES ≤ (reg.pending.erase oldest).size := by
        rw [hpop.size]
        exact Nat.not_le.mpr s.outstanding.length_make_room
      have hstop : EngineSessionRegistry.evict (reg.pending.erase oldest) rest
          = (reg.pending.erase oldest, rest) := by
        rcases rest with _ | ⟨next, rest⟩
        · rfl
        · rw [EngineSessionRegistry.evict, if_neg hspare]
      rw [if_pos hfull, hstop]
      exact hpop
    · rw [if_neg hfull, hrep.room (Nat.not_le.mp hfull)]
      exact hrep

end Simulates

/-! ## Freshness -/

/-- Every token and every session id is the encoding of a value drawn. -/
structure Drawn (X : Crates) (reg : EngineSessionRegistry) : Prop where
  tokens : ∀ token, reg.pending[token]?.isSome →
    ∃ i < reg.entropy.drawn, token = X.hex_encode (reg.entropy.stream i).val
  ids : ∀ session_id, reg.sessions[session_id]?.isSome →
    ∃ i < reg.entropy.drawn, session_id = X.hex_encode (reg.entropy.stream i).val

/-- What is drawn next encodes to something new. -/
theorem encode_next_ne {X : Crates} (hhex : Function.Injective X.hex_encode)
    {entropy : SessionEntropy} (hdistinct : entropy.Distinct) {i j : ℕ} (hij : i < j)
    (hj : j < entropy.drawn) :
    X.hex_encode (entropy.stream i).val ≠ X.hex_encode (entropy.stream j).val := by
  intro heq
  have hval : entropy.stream i = entropy.stream j := Subtype.ext (hhex heq)
  have := hdistinct i j (by omega) hj hval
  omega

/-- A call draws from the one stream, at most twice. -/
theorem apply_entropy (X : Crates) (reg : EngineSessionRegistry) (op : EngineOp) :
    (op.apply X reg).2.entropy.stream = reg.entropy.stream ∧
      reg.entropy.drawn ≤ (op.apply X reg).2.entropy.drawn ∧
      (op.apply X reg).2.entropy.drawn ≤ reg.entropy.drawn + 2 := by
  cases op with
  | begin params =>
      simp only [EngineOp.apply]
      rcases reg.begin_cases X params with ⟨-, hb⟩ | ⟨key, -, hb⟩
      · rw [hb]; exact ⟨rfl, le_rfl, Nat.le_add_right _ 2⟩
      · rw [hb]; exact ⟨rfl, Nat.le_add_right _ 2, le_rfl⟩
  | attach resolver params =>
      simp only [EngineOp.apply]
      rcases reg.attach_cases X resolver params with ⟨-, ha⟩ | ⟨pending, -, ⟨-, e, -, ha⟩ | ⟨-, ha⟩⟩
      · rw [ha]; exact ⟨rfl, le_rfl, Nat.le_add_right _ 2⟩
      · rw [ha]; exact ⟨rfl, le_rfl, Nat.le_add_right _ 2⟩
      · rw [ha]; exact ⟨rfl, Nat.le_add_right _ 1, Nat.le_succ _⟩
  | detach session_id => exact ⟨rfl, le_rfl, Nat.le_add_right _ 2⟩

/-- Distinct draws were distinct before the last call. -/
theorem distinct_of_apply {X : Crates} {reg : EngineSessionRegistry} {op : EngineOp}
    (h : (op.apply X reg).2.entropy.Distinct) : reg.entropy.Distinct := by
  obtain ⟨hstream, hle, -⟩ := apply_entropy X reg op
  intro i j hi hj heq
  exact h i j (by omega) (by omega) (by rw [hstream]; exact heq)

/-! ## One call -/

/-- A call on the registry, with its result. -/
def EngineStep (X : Crates) (reg : EngineSessionRegistry) (l : EngineOp × EngineOut)
    (reg' : EngineSessionRegistry) : Prop := l.1.apply X reg = (l.2, reg')

section Step

variable {X : Crates} {reg : EngineSessionRegistry} {s : Handshakes}

theorem refines_begin (hhex : Function.Injective X.hex_encode) {params : BeginParams}
    (hdistinct : (reg.begin X params).2.entropy.Distinct) (hdrawn : Drawn X reg)
    (hsim : Simulates reg s) :
    Drawn X (reg.begin X params).2 ∧
      ∃ s', Handshakes.Step X s (.begin params, .begin (reg.begin X params).1) s' ∧
        Simulates (reg.begin X params).2 s' := by
  rcases reg.begin_cases X params with ⟨hkey, hb⟩ | ⟨key, hkey, hb⟩
  · rw [hb]
    exact ⟨hdrawn, s, .begin_refused hkey, hsim⟩
  · rw [hb] at hdistinct ⊢
    -- the token is the second draw, and older than it are all tokens outstanding
    have hfresh : X.hex_encode (reg.entropy.stream (reg.entropy.drawn + 1)).val
        ∉ s.outstanding.keys := by
      intro hmem
      have hsome : reg.pending[X.hex_encode
          (reg.entropy.stream (reg.entropy.drawn + 1)).val]?.isSome := by
        rw [hsim.outstanding.entries, Option.isSome_iff_ne_none, ne_eq, Fifo.lookup_eq_none, not_not]
        exact hmem
      obtain ⟨i, hi, heq⟩ := hdrawn.tokens _ hsome
      exact encode_next_ne hhex hdistinct (i := i) (j := reg.entropy.drawn + 1) (by omega)
        (Nat.lt_succ_self _) heq.symm
    refine ⟨⟨?_, ?_⟩, _, .begin_ok _ _ hkey hfresh, ⟨hsim.evict.insert _ hfresh, hsim.sessions⟩⟩
    · intro token htoken
      simp only [EngineSessionRegistry.remember, ExtHashMap.getElem?_insert] at htoken
      by_cases hnew : X.hex_encode (reg.entropy.stream (reg.entropy.drawn + 1)).val = token
      · exact ⟨reg.entropy.drawn + 1, Nat.lt_succ_self _, hnew.symm⟩
      · rw [if_neg (by simpa using hnew)] at htoken
        obtain ⟨p, hp⟩ := Option.isSome_iff_exists.mp htoken
        have hold := evict_getElem? _ hp
        obtain ⟨i, hi, heq⟩ := hdrawn.tokens token (by rw [hold]; rfl)
        exact ⟨i, Nat.lt_add_right 2 hi, heq⟩
    · intro session_id hid
      obtain ⟨i, hi, heq⟩ := hdrawn.ids session_id hid
      exact ⟨i, Nat.lt_add_right 2 hi, heq⟩

/-- Taking a candidate keeps both halves and what is known of the draws. -/
theorem simulates_without (hdrawn : Drawn X reg) (hsim : Simulates reg s) (token : String) :
    Drawn X (reg.without token) ∧
      Simulates (reg.without token) { s with outstanding := s.outstanding.remove token } := by
  refine ⟨⟨fun token' htoken => ?_, hdrawn.ids⟩, hsim.outstanding.erase token, hsim.sessions⟩
  simp only [EngineSessionRegistry.without, ExtHashMap.getElem?_erase] at htoken
  by_cases heq : token = token'
  · rw [if_pos (by simpa using heq)] at htoken
    cases htoken
  · rw [if_neg (by simpa using heq)] at htoken
    exact hdrawn.tokens token' htoken

theorem refines_attach (hhex : Function.Injective X.hex_encode) {resolver : DidSigningKeyResolver}
    {params : AttachParams} (hdistinct : (reg.attach X resolver params).2.entropy.Distinct)
    (hdrawn : Drawn X reg) (hsim : Simulates reg s) :
    Drawn X (reg.attach X resolver params).2 ∧
      ∃ s', Handshakes.Step X s
          (.attach resolver params, .attach (reg.attach X resolver params).1) s' ∧
        Simulates (reg.attach X resolver params).2 s' := by
  have hlookup := hsim.outstanding.entries params.session_candidate
  rcases reg.attach_cases X resolver params with
    ⟨hnone, ha⟩ | ⟨pending, hsome, ⟨hno, e, hne, ha⟩ | ⟨hadm, ha⟩⟩
  · rw [ha]
    rw [hnone] at hlookup
    exact ⟨hdrawn, s, .attach_unknown (Fifo.lookup_eq_none.mp hlookup.symm), hsim⟩
  · rw [ha]
    rw [hsome] at hlookup
    obtain ⟨hdrawn', hsim'⟩ := simulates_without hdrawn hsim params.session_candidate
    exact ⟨hdrawn', _, .attach_refused hlookup.symm hno hne, hsim'⟩
  · rw [ha] at hdistinct ⊢
    rw [hsome] at hlookup
    obtain ⟨hdrawn', hsim'⟩ := simulates_without hdrawn hsim params.session_candidate
    -- the id comes from a draw after all those that named a session
    have hfresh : X.hex_encode (reg.entropy.stream reg.entropy.drawn).val ∉ s.sessions := by
      intro hmem
      have hid : reg.sessions[X.hex_encode (reg.entropy.stream reg.entropy.drawn).val]?.isSome := by
        rw [hsim.sessions]; exact Finmap.lookup_isSome.mpr hmem
      obtain ⟨i, hi, heq⟩ := hdrawn.ids _ hid
      exact encode_next_ne hhex hdistinct (i := i) (j := reg.entropy.drawn) hi
        (Nat.lt_succ_self _) heq.symm
    refine ⟨⟨?_, ?_⟩, _, .attach_ok _ hlookup.symm hadm hfresh, ⟨hsim'.outstanding, ?_⟩⟩
    · intro token htoken
      obtain ⟨i, hi, heq⟩ := hdrawn'.tokens token htoken
      exact ⟨i, Nat.lt_succ_of_lt hi, heq⟩
    · intro session_id hid
      simp only [EngineSessionRegistry.open_session, EngineSessionRegistry.without,
        ExtHashMap.getElem?_insert] at hid
      by_cases hnew : X.hex_encode (reg.entropy.stream reg.entropy.drawn).val = session_id
      · exact ⟨reg.entropy.drawn, Nat.lt_succ_self _, hnew.symm⟩
      · rw [if_neg (by simpa using hnew)] at hid
        obtain ⟨i, hi, heq⟩ := hdrawn.ids session_id hid
        exact ⟨i, Nat.lt_succ_of_lt hi, heq⟩
    · intro session_id
      simp only [EngineSessionRegistry.open_session, EngineSessionRegistry.without,
        ExtHashMap.getElem?_insert]
      by_cases hnew : X.hex_encode (reg.entropy.stream reg.entropy.drawn).val = session_id
      · rw [if_pos (by simpa using hnew), ← hnew, Finmap.lookup_insert]
      · rw [if_neg (by simpa using hnew), Finmap.lookup_insert_of_ne _ (Ne.symm hnew)]
        exact hsim.sessions session_id

theorem refines_detach (hdrawn : Drawn X reg) (hsim : Simulates reg s) (session_id : String) :
    Drawn X (reg.detach session_id).2 ∧
      ∃ s', Handshakes.Step X s (.detach session_id, .detach (reg.detach session_id).1) s' ∧
        Simulates (reg.detach session_id).2 s' := by
  have hanswer : (reg.detach session_id).1 = true ↔ session_id ∈ s.sessions := by
    rw [← Finmap.lookup_isSome, ← hsim.sessions]
    exact (ExtHashMap.contains_eq_isSome_getElem?).congr_left
  refine ⟨⟨hdrawn.tokens, fun id hid => ?_⟩, _, .detach hanswer, hsim.outstanding, fun id => ?_⟩
  · simp only [EngineSessionRegistry.detach, ExtHashMap.getElem?_erase] at hid
    by_cases heq : session_id = id
    · rw [if_pos (by simpa using heq)] at hid
      cases hid
    · rw [if_neg (by simpa using heq)] at hid
      exact hdrawn.ids id hid
  · simp only [EngineSessionRegistry.detach, ExtHashMap.getElem?_erase]
    by_cases heq : session_id = id
    · rw [if_pos (by simpa using heq), ← heq, Finmap.lookup_erase]
    · rw [if_neg (by simpa using heq), Finmap.lookup_erase_ne (Ne.symm heq)]
      exact hsim.sessions id

/-- **Each call is a step of the abstract machine**, with the same result. -/
theorem refines_step (hhex : Function.Injective X.hex_encode) {reg' : EngineSessionRegistry}
    {l : EngineOp × EngineOut} (hstep : EngineStep X reg l reg')
    (hdistinct : reg'.entropy.Distinct) (hdrawn : Drawn X reg) (hsim : Simulates reg s) :
    Drawn X reg' ∧ ∃ s', Handshakes.Step X s l s' ∧ Simulates reg' s' := by
  obtain ⟨op, out⟩ := l
  cases op with
  | begin params => cases hstep; exact refines_begin hhex hdistinct hdrawn hsim
  | attach resolver params => cases hstep; exact refines_attach hhex hdistinct hdrawn hsim
  | detach session_id => cases hstep; exact refines_detach hdrawn hsim session_id

end Step

/-! ## Whole runs -/

/-- **The registry refines the bounded FIFO.** Every run of calls on a new
registry that draws no value twice is, results included, a run of the abstract
machine, and the registry it reaches holds the abstract state: the queue is the
list of keys of the pending map, each once and in the order of their `begin`,
and the two counters are the two sizes. -/
theorem engine_refines_bounded_fifo {X : Crates} (hhex : Function.Injective X.hex_encode)
    {stream : ℕ → Nonce} {ls : List (EngineOp × EngineOut)} {reg : EngineSessionRegistry}
    (hrun : Machine.Run (EngineStep X) (EngineSessionRegistry.new stream) ls reg)
    (hdistinct : reg.entropy.Distinct) :
    ∃ s, Machine.Run (Handshakes.Step X) .start ls s ∧ Simulates reg s ∧
      reg.candidate_order = s.outstanding.keys ∧ reg.candidate_order.Nodup ∧
      (∀ token, token ∈ reg.candidate_order ↔ token ∈ reg.pending) ∧
      reg.pending_candidates = s.outstanding.entries.length ∧
      reg.open_sessions = s.sessions.keys.card := by
  have hinv : reg.entropy.Distinct →
      Drawn X reg ∧ ∃ s, Machine.Run (Handshakes.Step X) .start ls s ∧ Simulates reg s := by
    refine hrun.invariant (I := fun ls reg => reg.entropy.Distinct → Drawn X reg ∧
      ∃ s, Machine.Run (Handshakes.Step X) .start ls s ∧ Simulates reg s) ?_ ?_
    · intro _
      refine ⟨⟨fun token h => ?_, fun id h => ?_⟩, .start, .start, Simulates.start stream⟩
      · simp [EngineSessionRegistry.new] at h
      · simp [EngineSessionRegistry.new] at h
    · intro ls reg l reg' _ ih hstep hdistinct'
      have happly : (l.1.apply X reg).2 = reg' := by rw [hstep]
      -- what is drawn later does not matter to what was drawn before
      have hbefore : reg.entropy.Distinct := distinct_of_apply (by rw [happly]; exact hdistinct')
      obtain ⟨hdrawn, s, hs, hsim⟩ := ih hbefore
      obtain ⟨hdrawn', s', hs', hsim'⟩ := refines_step hhex hstep hdistinct' hdrawn hsim
      exact ⟨hdrawn', s', hs.step hs', hsim'⟩
  obtain ⟨-, s, hs, hsim⟩ := hinv hdistinct
  have horder := hsim.outstanding.order_eq
  refine ⟨s, hs, hsim, horder, horder ▸ s.outstanding.nodup, fun token => ?_,
    hsim.pending_candidates, hsim.open_sessions⟩
  rw [ExtHashMap.mem_iff_isSome_getElem?, hsim.outstanding.entries, Option.isSome_iff_ne_none,
    ne_eq, Fifo.lookup_eq_none, not_not, horder]

/-- A handshake is begun, attached with a wrong DID, and so consumed. -/
theorem engine_refines_bounded_fifo_refusal :
    ∃ reg s out out', Machine.Run (EngineStep Reference.crates)
        (EngineSessionRegistry.new Reference.stream)
        [(.begin ⟨"did:a", Reference.key.to_hex Reference.crates⟩, out),
          (.attach (fun _ => none) ⟨Reference.crates.hex_encode (Reference.stream 1).val, "",
            ⟨"did:b", [], ""⟩⟩, out')] reg ∧
      out' = .attach (.error .KeyMismatch) ∧ Simulates reg s ∧
      reg.pending_candidates = s.outstanding.entries.length := by
  let reg₀ := EngineSessionRegistry.new Reference.stream
  let op : EngineOp := .begin ⟨"did:a", Reference.key.to_hex Reference.crates⟩
  let reg₁ := (op.apply Reference.crates reg₀).2
  let op' : EngineOp := .attach (fun _ => none)
    ⟨Reference.crates.hex_encode (Reference.stream 1).val, "", ⟨"did:b", [], ""⟩⟩
  have hrun₁ : Machine.Run (EngineStep Reference.crates) reg₀
      ([] ++ [(op, (op.apply Reference.crates reg₀).1)]) reg₁ := .step .start rfl
  have hrun : Machine.Run (EngineStep Reference.crates) reg₀
      ([] ++ [(op, (op.apply Reference.crates reg₀).1)]
        ++ [(op', (op'.apply Reference.crates reg₁).1)])
      (op'.apply Reference.crates reg₁).2 := .step hrun₁ rfl
  have hdistinct : (op'.apply Reference.crates reg₁).2.entropy.Distinct := by
    obtain ⟨hs₁, -, hd₁⟩ := apply_entropy Reference.crates reg₀ op
    obtain ⟨hs₂, -, hd₂⟩ := apply_entropy Reference.crates reg₁ op'
    have hstart : reg₁.entropy.drawn ≤ 0 + 2 := hd₁
    exact Reference.distinct (hs₂.trans hs₁) (by omega)
  obtain ⟨s, -, hsim, -, -, -, hsize, -⟩ := engine_refines_bounded_fifo Reference.faithful.hex_injective hrun
    hdistinct
  refine ⟨_, s, _, _, hrun, ?_, hsim, hsize⟩
  -- the candidate is found, and the DID is the first thing checked
  have hbegin : reg₁ = reg₀.remember Reference.crates Reference.key "did:a" := by
    show (reg₀.begin Reference.crates _).2 = _
    rcases reg₀.begin_cases Reference.crates ⟨"did:a", Reference.key.to_hex Reference.crates⟩ with
      ⟨hnone, -⟩ | ⟨key, hkey, hb⟩
    · rw [SigningPublicKey.from_hex_to_hex Reference.faithful] at hnone
      cases hnone
    · rw [SigningPublicKey.from_hex_to_hex Reference.faithful] at hkey
      cases hkey
      rw [hb]
  have hfound : reg₁.pending[Reference.crates.hex_encode (Reference.stream 1).val]?
      = some { nonce := Reference.stream 0, advertised_key := Reference.key,
               profile_did := "did:a" } := by
    rw [hbegin]
    exact ExtHashMap.getElem?_insert_self
  show EngineOut.attach (reg₁.attach Reference.crates _ _).1 = _
  simp only [EngineSessionRegistry.attach, EngineSessionRegistry.take_candidate, hfound]
  rfl

end DigIpc
