/-
Bounded FIFOs with keys: a library for a collection that admits at the back,
evicts at the front when full, and gives up any entry when asked for its key.

`Fifo cap κ ν` is the abstract object: a list of entries, oldest first, that
carries the proofs that its keys are distinct and that it is not longer than
`cap`. `Represents` relates it to the usual implementation, a hash map beside a
queue of keys, and has one rule for each operation; that the two halves of the
implementation are updated together is exactly what each rule asks for.

`Fifo.Followed` is the argument about eviction: an entry is evicted by the next
admission exactly when it is followed by `cap - 1` younger ones.
-/
import Mathlib.Algebra.GroupWithZero.Nat
import Mathlib.Data.List.Nodup
import Mathlib.Data.Finset.Card
import Std.Data.ExtHashMap.Lemmas

set_option autoImplicit false

open Std

namespace KeyedFifo

variable {κ ν : Type} {cap : ℕ}

/-! ## The abstract object -/

/-- Entries with distinct keys, oldest first, at most `cap` of them. -/
structure Fifo (cap : ℕ) (κ ν : Type) where
  entries : List (κ × ν)
  nodup : (entries.map Prod.fst).Nodup
  bounded : entries.length ≤ cap

namespace Fifo

/-- The keys, oldest first. -/
def keys (L : Fifo cap κ ν) : List κ := L.entries.map Prod.fst

/-- No entries. -/
def empty : Fifo cap κ ν := ⟨[], List.nodup_nil, Nat.zero_le _⟩

/-- Drop the oldest entry if there is no room for another. -/
def make_room (L : Fifo cap κ ν) : Fifo cap κ ν where
  entries := if cap ≤ L.entries.length then L.entries.tail else L.entries
  nodup := by
    by_cases hfull : cap ≤ L.entries.length
    · rw [if_pos hfull, List.map_tail]; exact L.nodup.tail
    · rw [if_neg hfull]; exact L.nodup
  bounded := by
    have := L.bounded
    by_cases hfull : cap ≤ L.entries.length
    · rw [if_pos hfull, List.length_tail]; omega
    · rw [if_neg hfull]; exact this

theorem make_room_full {L : Fifo cap κ ν} (hfull : cap ≤ L.entries.length) :
    L.make_room.entries = L.entries.tail := if_pos hfull

theorem make_room_spare {L : Fifo cap κ ν} (hspare : ¬ cap ≤ L.entries.length) :
    L.make_room.entries = L.entries := if_neg hspare

theorem length_make_room [NeZero cap] (L : Fifo cap κ ν) : L.make_room.entries.length < cap := by
  have hpos : 0 < cap := Nat.pos_of_ne_zero (NeZero.ne cap)
  have hle := L.bounded
  by_cases hfull : cap ≤ L.entries.length
  · rw [make_room_full hfull, List.length_tail]; omega
  · rw [make_room_spare hfull]; omega

theorem make_room_suffix (L : Fifo cap κ ν) : L.make_room.entries <:+ L.entries := by
  by_cases hfull : cap ≤ L.entries.length
  · rw [make_room_full hfull]; exact List.tail_suffix _
  · rw [make_room_spare hfull]

theorem mem_keys_of_make_room {L : Fifo cap κ ν} {k : κ} (h : k ∈ L.make_room.keys) :
    k ∈ L.keys :=
  (L.make_room_suffix.map Prod.fst).subset h

/-- Admit a new entry at the back, evicting the oldest if full. -/
def push [NeZero cap] (L : Fifo cap κ ν) (k : κ) (v : ν) (fresh : k ∉ L.keys) :
    Fifo cap κ ν where
  entries := L.make_room.entries ++ [(k, v)]
  nodup := by
    rw [List.map_append, List.map_singleton]
    refine List.Nodup.append L.make_room.nodup (List.nodup_singleton k) ?_
    intro a ha hk
    rw [List.mem_singleton.mp hk] at ha
    exact fresh (mem_keys_of_make_room ha)
  bounded := by
    have := L.length_make_room
    rw [List.length_append, List.length_singleton]
    omega

theorem keys_push [NeZero cap] (L : Fifo cap κ ν) (k : κ) (v : ν) (fresh : k ∉ L.keys) :
    (L.push k v fresh).keys = L.make_room.keys ++ [k] := by
  unfold keys push
  rw [List.map_append, List.map_singleton]

theorem length_push [NeZero cap] (L : Fifo cap κ ν) (k : κ) (v : ν) (fresh : k ∉ L.keys) :
    (L.push k v fresh).entries.length = min cap (L.entries.length + 1) := by
  have hbounded := L.bounded
  show (L.make_room.entries ++ [(k, v)]).length = _
  rw [List.length_append, List.length_singleton]
  by_cases hfull : cap ≤ L.entries.length
  · have hpos : 0 < cap := Nat.pos_of_ne_zero (NeZero.ne cap)
    rw [make_room_full hfull, List.length_tail]
    omega
  · rw [make_room_spare hfull]
    omega

/-! ## Who is evicted, and when -/

/-- `v` is held under `k`, and `ks` are the younger keys, oldest first. -/
def Followed (L : Fifo cap κ ν) (k : κ) (v : ν) (ks : List κ) : Prop :=
  ∃ older younger, L.entries = older ++ (k, v) :: younger ∧ younger.map Prod.fst = ks

theorem Followed.mem_keys {L : Fifo cap κ ν} {k : κ} {v : ν} {ks : List κ} (h : L.Followed k v ks) :
    k ∈ L.keys := by
  obtain ⟨older, younger, heq, -⟩ := h
  unfold keys
  rw [heq, List.map_append, List.map_cons]
  exact List.mem_append_right _ List.mem_cons_self

/-- What was just admitted is the youngest. -/
theorem followed_push_self [NeZero cap] (L : Fifo cap κ ν) (k : κ) (v : ν) (fresh : k ∉ L.keys) :
    (L.push k v fresh).Followed k v [] :=
  ⟨L.make_room.entries, [], rfl, rfl⟩

/-- **Eviction takes `cap` admissions.** An entry with fewer than `cap - 1`
younger ones survives the next admission. -/
theorem Followed.push [NeZero cap] {L : Fifo cap κ ν} {k : κ} {v : ν} {ks : List κ}
    (h : L.Followed k v ks) (hroom : ks.length + 1 < cap) (k' : κ) (v' : ν) (fresh : k' ∉ L.keys) :
    (L.push k' v' fresh).Followed k v (ks ++ [k']) := by
  obtain ⟨older, younger, heq, hkeys⟩ := h
  have hlen : younger.length = ks.length := by rw [← hkeys, List.length_map]
  have hkeep : ∃ older', L.make_room.entries = older' ++ (k, v) :: younger := by
    by_cases hfull : cap ≤ L.entries.length
    · -- something older is there to be evicted instead
      rw [make_room_full hfull]
      rw [heq, List.length_append, List.length_cons] at hfull
      rcases older with _ | ⟨a, older⟩
      · simp only [List.length_nil] at hfull; omega
      · exact ⟨older, by rw [heq]; rfl⟩
    · rw [make_room_spare hfull]
      exact ⟨older, heq⟩
  obtain ⟨older', hroom'⟩ := hkeep
  refine ⟨older', younger ++ [(k', v')], ?_, ?_⟩
  · show L.make_room.entries ++ [(k', v')] = _
    rw [hroom', List.append_assoc, List.cons_append]
  · rw [List.map_append, hkeys, List.map_singleton]

/-- **And no more.** An entry with `cap - 1` younger ones is the one evicted. -/
theorem Followed.evicted [NeZero cap] {L : Fifo cap κ ν} {k : κ} {v : ν} {ks : List κ}
    (h : L.Followed k v ks) (hfull : cap ≤ ks.length + 1) (k' : κ) (v' : ν) (fresh : k' ∉ L.keys) :
    k ∉ (L.push k' v' fresh).keys := by
  have hne : k ≠ k' := by
    rintro rfl
    exact fresh h.mem_keys
  have hnodup := L.nodup
  have hbounded := L.bounded
  obtain ⟨older, younger, heq, hkeys⟩ := h
  have hlen : younger.length = ks.length := by rw [← hkeys, List.length_map]
  -- there is no room for anything older
  obtain rfl : older = [] := by
    rw [heq, List.length_append, List.length_cons] at hbounded
    exact List.eq_nil_of_length_eq_zero (by omega)
  rw [List.nil_append] at heq
  have hcap : cap ≤ L.entries.length := by rw [heq, List.length_cons]; omega
  rw [heq, List.map_cons, List.nodup_cons] at hnodup
  rw [keys_push, keys, make_room_full hcap, heq, List.tail_cons, List.mem_append,
    List.mem_singleton]
  rintro (hmem | hmem)
  · exact hnodup.1 hmem
  · exact hne hmem

/-! ## Looking up and removing -/

variable [DecidableEq κ]

/-- The entry under a key. -/
def lookup (L : Fifo cap κ ν) (k : κ) : Option ν := L.entries.lookup k

/-- Remove the entry under a key. -/
def remove (L : Fifo cap κ ν) (k : κ) : Fifo cap κ ν where
  entries := L.entries.filter fun e => e.1 ≠ k
  nodup := L.nodup.sublist (List.filter_sublist.map _)
  bounded := (List.length_filter_le _ _).trans L.bounded

theorem lookup_eq_none {L : Fifo cap κ ν} {k : κ} : L.lookup k = none ↔ k ∉ L.keys := by
  unfold lookup keys
  rw [List.lookup_eq_none_iff]
  constructor
  · intro h hk
    obtain ⟨e, he, rfl⟩ := List.mem_map.mp hk
    simpa using h e he
  · intro h e he
    rw [bne_iff_ne]
    rintro rfl
    exact h (List.mem_map_of_mem he)

/-- With distinct keys, the entry found is the entry there is. -/
theorem lookup_of_mem {l : List (κ × ν)} (hnd : (l.map Prod.fst).Nodup) {k : κ} {v : ν}
    (h : (k, v) ∈ l) : l.lookup k = some v := by
  induction l with
  | nil => cases h
  | cons e l ih =>
      obtain ⟨hnot, hnd⟩ := List.nodup_cons.mp hnd
      rcases List.mem_cons.mp h with rfl | h
      · exact List.lookup_cons_self
      · have hne : k ≠ e.1 := by
          rintro rfl
          exact hnot (List.mem_map.mpr ⟨_, h, rfl⟩)
        rw [List.lookup_cons, beq_false_of_ne hne]
        exact ih hnd h

theorem mem_of_lookup {l : List (κ × ν)} {k : κ} {v : ν} (h : l.lookup k = some v) :
    (k, v) ∈ l := by
  obtain ⟨l₁, l₂, rfl, -⟩ := List.lookup_eq_some_iff.mp h
  exact List.mem_append_right _ List.mem_cons_self

theorem lookup_eq_some {L : Fifo cap κ ν} {k : κ} {v : ν} :
    L.lookup k = some v ↔ (k, v) ∈ L.entries :=
  ⟨mem_of_lookup, lookup_of_mem L.nodup⟩

/-- With distinct keys, removing the key at the head leaves the tail. -/
theorem filter_head {l : List (κ × ν)} (hnd : (l.map Prod.fst).Nodup) {k : κ} {ks : List κ}
    (hkeys : k :: ks = l.map Prod.fst) : (l.filter fun e => e.1 ≠ k) = l.tail := by
  rcases l with _ | ⟨e, l⟩
  · cases hkeys
  · obtain ⟨rfl, rfl⟩ := List.cons.inj hkeys
    have hnot := (List.nodup_cons.mp hnd).1
    rw [List.filter_cons_of_neg (by simp), List.tail_cons, List.filter_eq_self]
    intro a ha
    have hne : a.1 ≠ e.1 := by
      intro heq
      exact hnot (heq ▸ List.mem_map_of_mem ha)
    simpa using hne

theorem keys_remove (L : Fifo cap κ ν) (k : κ) : (L.remove k).keys = L.keys.erase k := by
  have hnd : L.keys.Nodup := L.nodup
  rw [hnd.erase_eq_filter]
  unfold keys remove
  rw [List.filter_map]
  congr 1
  refine List.filter_congr fun e _ => ?_
  by_cases heq : e.1 = k <;> simp [heq]

theorem length_remove {L : Fifo cap κ ν} {k : κ} {v : ν} (h : L.lookup k = some v) :
    (L.remove k).entries.length + 1 = L.entries.length := by
  have hmem : k ∈ L.keys := by
    by_contra hnot
    rw [lookup_eq_none.mpr hnot] at h
    cases h
  have hkeys := congrArg List.length (L.keys_remove k)
  have hpos := List.length_pos_of_mem hmem
  rw [List.length_erase_of_mem hmem] at hkeys
  unfold keys at hkeys hpos
  rw [List.length_map] at hkeys hpos
  rw [List.length_map] at hkeys
  omega

theorem lookup_remove (L : Fifo cap κ ν) (k k' : κ) :
    (L.remove k).lookup k' = if k = k' then none else L.lookup k' := by
  by_cases heq : k = k'
  · subst heq
    rw [if_pos rfl, lookup_eq_none, keys_remove]
    exact List.Nodup.not_mem_erase L.nodup
  · rw [if_neg heq]
    ext v
    rw [lookup_eq_some, lookup_eq_some, remove, List.mem_filter]
    constructor
    · intro h; exact h.1
    · intro h; exact ⟨h, by simpa using Ne.symm heq⟩

theorem lookup_push [NeZero cap] (L : Fifo cap κ ν) (k : κ) (v : ν) (fresh : k ∉ L.keys) (k' : κ) :
    (L.push k v fresh).lookup k' = if k = k' then some v else L.make_room.lookup k' := by
  by_cases heq : k = k'
  · subst heq
    rw [if_pos rfl, lookup_eq_some]
    exact List.mem_append_right _ (List.mem_singleton.mpr rfl)
  · rw [if_neg heq]
    ext w
    rw [lookup_eq_some, lookup_eq_some, push, List.mem_append, List.mem_singleton]
    constructor
    · rintro (h | h)
      · exact h
      · exact absurd (congrArg Prod.fst h).symm heq
    · intro h; exact Or.inl h

theorem Followed.lookup {L : Fifo cap κ ν} {k : κ} {v : ν} {ks : List κ} (h : L.Followed k v ks) :
    L.lookup k = some v := by
  obtain ⟨older, younger, heq, -⟩ := h
  rw [lookup_eq_some, heq]
  exact List.mem_append_right _ List.mem_cons_self

/-- Removing another entry takes it out of the queue behind this one. -/
theorem Followed.remove {L : Fifo cap κ ν} {k : κ} {v : ν} {ks : List κ} (h : L.Followed k v ks)
    {k' : κ} (hne : k' ≠ k) : (L.remove k').Followed k v (ks.filter fun y => y ≠ k') := by
  obtain ⟨older, younger, heq, hkeys⟩ := h
  refine ⟨older.filter fun e => e.1 ≠ k', younger.filter fun e => e.1 ≠ k', ?_, ?_⟩
  · have hkeep : (fun e : κ × ν => decide (e.1 ≠ k')) (k, v) = true := by simpa using hne.symm
    show L.entries.filter _ = _
    rw [heq, List.filter_append]
    exact congrArg _ (List.filter_cons_of_pos hkeep)
  · rw [← hkeys, List.filter_map]
    rfl

end Fifo

/-! ## A hash map beside a queue of keys -/

section Representation

variable [DecidableEq κ] [Hashable κ]

/-- A hash map counts its keys. -/
theorem size_eq_card {K : Finset κ} : ∀ {map : ExtHashMap κ ν},
    (∀ k, map[k]?.isSome ↔ k ∈ K) → map.size = K.card := by
  induction K using Finset.induction_on with
  | empty =>
      intro map h
      have hempty : map = ∅ := by
        refine ExtHashMap.ext_getElem? fun k => ?_
        have hk : ¬ map[k]?.isSome := by rw [h]; exact Finset.notMem_empty k
        rw [Option.not_isSome_iff_eq_none.mp hk, ExtHashMap.getElem?_empty]
      rw [hempty, ExtHashMap.size_empty, Finset.card_empty]
  | insert a K ha ih =>
      intro map h
      have herase : (map.erase a).size = K.card := by
        refine ih fun k => ?_
        rw [ExtHashMap.getElem?_erase]
        by_cases hak : a = k
        · subst hak
          simp only [BEq.rfl, if_true, Option.isSome_none, Bool.false_eq_true, false_iff]
          exact ha
        · rw [if_neg (by simpa using hak), h, Finset.mem_insert]
          exact ⟨fun hk => hk.resolve_left (Ne.symm hak), Or.inr⟩
      have hmem : a ∈ map := by
        rw [ExtHashMap.mem_iff_isSome_getElem?, h]
        exact Finset.mem_insert_self a K
      have hpos : map.size ≠ 0 := by
        intro h0
        rw [ExtHashMap.eq_empty_iff_size_eq_zero.mpr h0] at hmem
        exact absurd hmem ExtHashMap.not_mem_empty
      rw [ExtHashMap.size_erase, if_pos hmem] at herase
      rw [Finset.card_insert_of_notMem ha]
      omega

/-- The map and the queue hold the same entries in the same order as `L`. -/
structure Represents (map : ExtHashMap κ ν) (order : List κ) (L : Fifo cap κ ν) : Prop where
  order_eq : order = L.keys
  entries : ∀ k, map[k]? = L.lookup k

namespace Represents

variable {map : ExtHashMap κ ν} {order : List κ} {L : Fifo cap κ ν}

theorem empty : Represents (∅ : ExtHashMap κ ν) [] (Fifo.empty : Fifo cap κ ν) :=
  ⟨rfl, fun _ => ExtHashMap.getElem?_empty⟩

theorem size (h : Represents map order L) : map.size = L.entries.length := by
  have hcard : L.keys.toFinset.card = L.entries.length := by
    have hnd : L.keys.Nodup := L.nodup
    rw [List.toFinset_card_of_nodup hnd]
    exact List.length_map _
  rw [← hcard]
  refine size_eq_card fun k => ?_
  rw [h.entries, List.mem_toFinset, Option.isSome_iff_ne_none, ne_eq, Fifo.lookup_eq_none, not_not]

/-- Taking a key out of both halves removes its entry. -/
theorem erase (h : Represents map order L) (k : κ) :
    Represents (map.erase k) (order.erase k) (L.remove k) := by
  refine ⟨?_, fun k' => ?_⟩
  · rw [h.order_eq, Fifo.keys_remove]
  · rw [ExtHashMap.getElem?_erase, Fifo.lookup_remove, h.entries]
    simp only [beq_iff_eq]

/-- Popping the queue and erasing what it held makes room in a full FIFO. -/
theorem pop {oldest : κ} {rest : List κ} (h : Represents map (oldest :: rest) L)
    (hfull : cap ≤ map.size) : Represents (map.erase oldest) rest L.make_room := by
  have hkeys : oldest :: rest = L.keys := h.order_eq
  rw [h.size] at hfull
  have hroom : L.make_room.entries = (L.remove oldest).entries := by
    rw [Fifo.make_room_full hfull]
    exact (Fifo.filter_head L.nodup hkeys).symm
  refine ⟨?_, fun k => ?_⟩
  · have herase := Fifo.keys_remove L oldest
    rw [← hkeys, List.erase_cons_head] at herase
    rw [← herase]
    unfold Fifo.keys
    rw [hroom]
  · have hk := (h.erase oldest).entries k
    rw [hk]
    unfold Fifo.lookup
    rw [hroom]

/-- With room to spare, nothing needs evicting. -/
theorem room (h : Represents map order L) (hroom : map.size < cap) : L.make_room = L := by
  rw [h.size] at hroom
  unfold Fifo.make_room
  cases L
  simp only [Fifo.mk.injEq]
  exact if_neg (by simpa using hroom)

/-- Inserting into the map and appending to the queue admits an entry, once
there is room. -/
theorem insert [NeZero cap] (h : Represents map order L.make_room) {k : κ} (v : ν)
    (fresh : k ∉ L.keys) : Represents (map.insert k v) (order ++ [k]) (L.push k v fresh) := by
  refine ⟨?_, fun k' => ?_⟩
  · rw [h.order_eq, Fifo.keys_push]
  · rw [ExtHashMap.getElem?_insert, Fifo.lookup_push, h.entries]
    simp only [beq_iff_eq]

end Represents

end Representation

end KeyedFifo
