/-
Labelled machines: a library for systems that take one labelled step after
another.

A system is a step relation `step s l t`; its labels say what happened, so the
list of labels of a run is the run's history. Everything below is about runs
from a fixed start state. `Run.invariant` packages the one induction that
safety arguments need, and `Run.simulated` the one that relates two machines;
`Run.at` and `Run.split` give back the states in the middle of a run, so a
statement about a history can speak about the moment at which one of its labels
happened.
-/
import Mathlib.Data.List.Basic

set_option autoImplicit false

namespace Machine

variable {σ ℓ : Type*}

/-- `Run step s₀ ls s`: from `s₀` the machine performs the steps labelled `ls`,
oldest first, and arrives at `s`. -/
inductive Run (step : σ → ℓ → σ → Prop) (s₀ : σ) : List ℓ → σ → Prop
  | start : Run step s₀ [] s₀
  | step {ls : List ℓ} {s t : σ} {l : ℓ} :
      Run step s₀ ls s → step s l t → Run step s₀ (ls ++ [l]) t

variable {step : σ → ℓ → σ → Prop} {s₀ : σ}

/-- **The invariant rule.** A property of histories and states that holds at the
start and is preserved by every step out of a reached state holds of every run. -/
theorem Run.invariant {I : List ℓ → σ → Prop} (h0 : I [] s₀)
    (hstep : ∀ ls s l t, Run step s₀ ls s → I ls s → step s l t → I (ls ++ [l]) t)
    {ls : List ℓ} {s : σ} (h : Run step s₀ ls s) : I ls s := by
  induction h with
  | start => exact h0
  | step hrun hs ih => exact hstep _ _ _ _ hrun ih hs

/-- **The simulation rule.** If whatever the machine does is something that
another machine does too, or nothing that is seen, then every run of the one is,
as far as it is seen, a run of the other. `P` is what is known of the labels. -/
theorem Run.simulated {τ ℓ' : Type*} {step' : τ → ℓ' → τ → Prop} {t₀ : τ} {view : ℓ → Option ℓ'}
    {P : ℓ → Prop} {R : σ → τ → Prop} (h0 : R s₀ t₀)
    (hstep : ∀ ls s l s' t, Run step' t₀ ls t → R s t → step s l s' → P l →
      (view l = none ∧ R s' t) ∨ ∃ l' t', view l = some l' ∧ step' t l' t' ∧ R s' t')
    {ls : List ℓ} {s : σ} (h : Run step s₀ ls s) (hP : ∀ l ∈ ls, P l) :
    ∃ t, Run step' t₀ (ls.filterMap view) t ∧ R s t := by
  induction h with
  | start => exact ⟨t₀, .start, h0⟩
  | @step ls s s' l hrun hs ih =>
      obtain ⟨t, ht, hR⟩ := ih fun l hl => hP l (List.mem_append_left _ hl)
      rw [List.filterMap_append]
      rcases hstep _ s l s' t ht hR hs (hP l (by simp)) with ⟨hview, hR'⟩ | ⟨l', t', hview, ht', hR'⟩
      · rw [List.filterMap_cons_none hview, List.filterMap_nil, List.append_nil]
        exact ⟨t, ht, hR'⟩
      · rw [List.filterMap_cons_some hview, List.filterMap_nil]
        exact ⟨t', ht.step ht', hR'⟩

/-- A run whose history is a concatenation passes through a state at the seam. -/
theorem Run.split {ls : List ℓ} {t : σ} (h : Run step s₀ ls t) :
    ∀ {pre post : List ℓ}, ls = pre ++ post →
      ∃ s, Run step s₀ pre s ∧ Run step s post t := by
  induction h with
  | start =>
      intro pre post heq
      obtain ⟨rfl, rfl⟩ : pre = [] ∧ post = [] := by simpa using heq
      exact ⟨s₀, .start, .start⟩
  | @step ls s t l hrun hs ih =>
      intro pre post heq
      rcases List.eq_nil_or_concat post with rfl | ⟨post, l', rfl⟩
      · obtain rfl : pre = ls ++ [l] := by simpa using heq.symm
        exact ⟨t, hrun.step hs, .start⟩
      · obtain ⟨rfl, rfl⟩ : ls = pre ++ post ∧ l = l' := by
          rw [List.concat_eq_append, ← List.append_assoc] at heq
          simpa using List.append_inj' heq rfl
        obtain ⟨u, hu, hut⟩ := ih rfl
        exact ⟨u, hu, by simpa using hut.step hs⟩

/-- The step at which a label of the history happened. -/
theorem Run.at {ls : List ℓ} {t : σ} (h : Run step s₀ ls t) {i : ℕ} {l : ℓ}
    (hl : ls[i]? = some l) :
    ∃ s s', Run step s₀ (ls.take i) s ∧ step s l s' ∧ Run step s₀ (ls.take (i + 1)) s' := by
  obtain ⟨hi, hget⟩ := List.getElem?_eq_some_iff.mp hl
  have htake : ls.take (i + 1) = ls.take i ++ [l] := by
    rw [List.take_add_one, List.getElem?_eq_getElem hi, hget]; rfl
  obtain ⟨s', hs', -⟩ := h.split (List.take_append_drop (i + 1) ls).symm
  rw [htake] at hs'
  generalize hpre : ls.take i ++ [l] = pre at hs'
  cases hs' with
  | start => simp at hpre
  | step hrun hs =>
      obtain ⟨hls, hlab⟩ := List.append_inj' hpre rfl
      obtain rfl : l = _ := by simpa using hlab
      rw [← hls] at hrun
      exact ⟨_, _, hrun, hs, by rw [htake]; exact hrun.step hs⟩

/-! ## Positions in a history that grows -/

theorem getElem?_snoc {ls : List ℓ} {l l' : ℓ} {j : ℕ} (h : (ls ++ [l'])[j]? = some l) :
    (j < ls.length ∧ ls[j]? = some l) ∨ (j = ls.length ∧ l' = l) := by
  rcases Nat.lt_trichotomy j ls.length with hj | rfl | hj
  · rw [List.getElem?_append_left hj] at h
    exact Or.inl ⟨hj, h⟩
  · exact Or.inr ⟨rfl, by simpa using h⟩
  · rw [List.getElem?_append_right (by omega)] at h
    have : j - ls.length ≠ 0 := by omega
    rw [List.getElem?_eq_none (by simp only [List.length_singleton]; omega)] at h
    cases h

theorem getElem?_snoc_of_some {ls : List ℓ} {l : ℓ} {j : ℕ} (h : ls[j]? = some l) (l' : ℓ) :
    (ls ++ [l'])[j]? = some l ∧ (ls ++ [l']).take j = ls.take j := by
  have hj : j < ls.length := (List.getElem?_eq_some_iff.mp h).1
  exact ⟨by rw [List.getElem?_append_left hj, h], List.take_append_of_le_length (Nat.le_of_lt hj)⟩

end Machine
