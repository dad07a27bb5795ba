/-
The cap on outstanding handshakes, for every source of entropy.

`EngineFifo` needs the tokens to be fresh: only then are the queue and the map
the same set. Here nothing is assumed of the draws. A repeated token is in the
queue twice and in the map once; `take_candidate` removes its first occurrence
and leaves the other, which is then stale; popping it erases what a later
`begin` put under the same token. What survives all of that is weaker: every
token in the map occurs *somewhere* in the queue (`Queued`). It is enough,
because a queue popped to its end then means an empty map, so the loop of
`evict_if_full` makes room before it runs out.
-/
import DigIpc.EngineHistory
import Mathlib.Logic.Relation

set_option autoImplicit false

open Std

namespace DigIpc

/-! ## The loop of `evict_if_full` -/

/-- Every key of the map occurs in the queue. -/
def Queued {κ ν : Type} [BEq κ] [Hashable κ] [EquivBEq κ] [LawfulHashable κ]
    (pending : ExtHashMap κ ν) (order : List κ) : Prop :=
  ∀ token, token ∈ pending → token ∈ order

/-- One turn of the loop: the map is full, and the queue gives up its head. -/
inductive EvictTurn : ExtHashMap String PendingCandidate × List String →
    ExtHashMap String PendingCandidate × List String → Prop
  | pop {pending : ExtHashMap String PendingCandidate} (oldest : String) (rest : List String)
      (full : MAX_PENDING_CANDIDATES ≤ pending.size) :
      EvictTurn (pending, oldest :: rest) (pending.erase oldest, rest)

/-- A turn keeps the tokens queued: the one it pops leaves the map too. -/
theorem EvictTurn.queued {s t : ExtHashMap String PendingCandidate × List String}
    (hturn : EvictTurn s t) (hqueued : Queued s.1 s.2) : Queued t.1 t.2 := by
  cases hturn with
  | pop oldest rest full =>
    intro token htoken
    obtain ⟨hne, hmem⟩ := ExtHashMap.mem_erase.mp htoken
    have horder := hqueued token hmem
    rcases List.mem_cons.mp horder with rfl | hrest
    · simp at hne
    · exact hrest

theorem queued_of_turns {s t : ExtHashMap String PendingCandidate × List String}
    (hturns : Relation.ReflTransGen EvictTurn s t) (hqueued : Queued s.1 s.2) : Queued t.1 t.2 := by
  induction hturns with
  | refl => exact hqueued
  | tail _ hturn ih => exact hturn.queued ih

/-- With its tokens queued, a map with an empty queue is empty: there is room. -/
theorem Queued.room {pending : ExtHashMap String PendingCandidate} (hqueued : Queued pending []) :
    pending.size < MAX_PENDING_CANDIDATES := by
  have hempty : pending = ∅ := by
    refine ExtHashMap.ext_getElem? fun token => ?_
    have hnot : token ∉ pending := fun hmem => List.not_mem_nil (hqueued token hmem)
    rw [ExtHashMap.getElem?_eq_none hnot, ExtHashMap.getElem?_empty]
  rw [hempty, ExtHashMap.size_empty]
  decide

/-- The loop takes turns, and stops. -/
theorem evict_turns (order : List String) : ∀ pending : ExtHashMap String PendingCandidate,
    Relation.ReflTransGen EvictTurn (pending, order) (EngineSessionRegistry.evict pending order) := by
  induction order with
  | nil => exact fun pending => .refl
  | cons oldest rest ih =>
    intro pending
    rw [EngineSessionRegistry.evict]
    by_cases hfull : MAX_PENDING_CANDIDATES ≤ pending.size
    · rw [if_pos hfull]
      exact (ih (pending.erase oldest)).head (.pop oldest rest hfull)
    · rw [if_neg hfull]

/-- **The loop makes room**, when the tokens are queued. -/
theorem evict_room (order : List String) : ∀ {pending : ExtHashMap String PendingCandidate},
    Queued pending order →
      (EngineSessionRegistry.evict pending order).1.size < MAX_PENDING_CANDIDATES := by
  induction order with
  | nil => exact fun hqueued => hqueued.room
  | cons oldest rest ih =>
    intro pending hqueued
    rw [EngineSessionRegistry.evict]
    by_cases hfull : MAX_PENDING_CANDIDATES ≤ pending.size
    · rw [if_pos hfull]
      exact ih ((EvictTurn.pop oldest rest hfull).queued hqueued)
    · rw [if_neg hfull]
      exact Nat.not_le.mp hfull

/-! ## The invariant -/

/-- At most the cap, and every token queued. -/
structure Capped (reg : EngineSessionRegistry) : Prop where
  size : reg.pending.size ≤ MAX_PENDING_CANDIDATES
  queued : Queued reg.pending reg.candidate_order

theorem Capped.new (stream : ℕ → Nonce) : Capped (EngineSessionRegistry.new stream) where
  size := Nat.zero_le _
  queued := by
    intro token htoken
    exact absurd htoken ExtHashMap.not_mem_empty

/-- Remembering one more handshake, after making room for it. -/
theorem Capped.remember {X : Crates} {reg : EngineSessionRegistry} (h : Capped reg)
    (key : SigningPublicKey) (did : String) : Capped (reg.remember X key did) where
  size := by
    have hroom := evict_room _ h.queued
    have hinsert := ExtHashMap.size_insert_le (m := (EngineSessionRegistry.evict reg.pending
      reg.candidate_order).1) (k := X.hex_encode (reg.entropy.stream (reg.entropy.drawn + 1)).val)
      (v := { nonce := reg.entropy.stream reg.entropy.drawn, advertised_key := key,
              profile_did := did })
    exact hinsert.trans hroom
  queued := by
    intro token htoken
    have hqueued := queued_of_turns (evict_turns reg.candidate_order reg.pending) h.queued
    rcases ExtHashMap.mem_insert.mp htoken with hnew | hold
    · rw [← eq_of_beq hnew]
      exact List.mem_append_right _ (List.mem_singleton.mpr rfl)
    · exact List.mem_append_left _ (hqueued token hold)

/-- Taking a candidate: its first occurrence leaves the queue, the others stay. -/
theorem Capped.without {reg : EngineSessionRegistry} (h : Capped reg) (token : String) :
    Capped (reg.without token) where
  size := ExtHashMap.size_erase_le.trans h.size
  queued := by
    intro token' htoken'
    obtain ⟨hne, hmem⟩ := ExtHashMap.mem_erase.mp htoken'
    have hne' : token' ≠ token := by
      rintro rfl
      simp at hne
    exact (List.mem_erase_of_ne hne').mpr (h.queued token' hmem)

/-- **Every call keeps the cap.** -/
theorem Capped.apply {X : Crates} {reg : EngineSessionRegistry} (h : Capped reg) (op : EngineOp) :
    Capped (op.apply X reg).2 := by
  cases op with
  | begin params =>
    simp only [EngineOp.apply]
    rcases reg.begin_cases X params with ⟨-, hb⟩ | ⟨key, -, hb⟩
    · rw [hb]
      exact h
    · rw [hb]
      exact h.remember key params.profile_did
  | attach resolver params =>
    simp only [EngineOp.apply]
    rcases reg.attach_cases X resolver params with ⟨-, ha⟩ | ⟨pending, -, ⟨-, e, -, ha⟩ | ⟨-, ha⟩⟩
    · rw [ha]
      exact h
    · rw [ha]
      exact h.without params.session_candidate
    · rw [ha]
      have hwithout := h.without params.session_candidate
      exact ⟨hwithout.size, hwithout.queued⟩
  | detach session_id => exact ⟨h.size, h.queued⟩

theorem capped_after (X : Crates) (stream : ℕ → Nonce) (ops : List EngineOp) :
    Capped (registry_after X stream some ops) := by
  induction ops using List.reverseRecOn with
  | nil => exact Capped.new stream
  | append_singleton ops op ih =>
    rw [registry_after_snoc]
    exact ih.apply op

/-! ## The cap -/

/-- **The cap holds for every source of entropy.** After any run of calls, the
map holds at most `MAX_PENDING_CANDIDATES` entries and every token in it occurs
in the queue. So `evict_if_full` ends with room, on its way never meets a full
map with an empty queue, and the candidate that a successful `begin` returns is
outstanding right after it. -/
theorem pending_candidates_capped (X : Crates) (stream : ℕ → Nonce) (ops : List EngineOp) :
    let reg := registry_after X stream some ops
    reg.pending_candidates ≤ MAX_PENDING_CANDIDATES ∧
    (∀ token, token ∈ reg.pending → token ∈ reg.candidate_order) ∧
    reg.evict_if_full.pending_candidates < MAX_PENDING_CANDIDATES ∧
    (∀ pending order, Relation.ReflTransGen EvictTurn (reg.pending, reg.candidate_order)
        (pending, order) → MAX_PENDING_CANDIDATES ≤ pending.size → order ≠ []) ∧
    ∀ params result, (reg.begin X params).1 = .ok result →
      result.session_candidate ∈ (reg.begin X params).2.pending := by
  intro reg
  have hcapped : Capped reg := capped_after X stream ops
  refine ⟨hcapped.size, hcapped.queued, evict_room _ hcapped.queued, ?_, ?_⟩
  · intro pending order hturns hfull hempty
    have hqueued := queued_of_turns hturns hcapped.queued
    rw [hempty] at hqueued
    exact Nat.not_lt.mpr hfull hqueued.room
  · intro params result hok
    rcases reg.begin_cases X params with ⟨-, hb⟩ | ⟨key, -, hb⟩
    · rw [hb] at hok
      cases hok
    · rw [hb] at hok ⊢
      cases hok
      exact ExtHashMap.mem_insert_self

end DigIpc
