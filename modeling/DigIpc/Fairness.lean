/-
Infinite executions of a labelled machine: a library for what must happen.

`Machine.Run` is about what cannot go wrong in finitely many steps. That something
does happen can only be said of executions that go on for ever, and only under an
assumption on the order of steps: a class of labels is treated fairly if it cannot
stay enabled without being taken (`Execution.WeaklyFair`). The rule to use it is
`WeaklyFair.progress`: `WeaklyFair.taken` is its simple case, and
`WeaklyFair.variant` is for classes that have to be taken several times.
`Run.extend` makes executions out of finite runs, so that the assumption can be
shown to be satisfiable.
-/
import DigIpc.Machine

set_option autoImplicit false

namespace Machine

variable {σ ℓ : Type*}

/-- An execution that never ends. -/
structure Execution (step : σ → ℓ → σ → Prop) (s₀ : σ) where
  state : ℕ → σ
  label : ℕ → ℓ
  start : state 0 = s₀
  steps : ∀ n, step (state n) (label n) (state (n + 1))

/-- A step with a label of this class is possible. -/
def Enabled (step : σ → ℓ → σ → Prop) (A : ℓ → Prop) (s : σ) : Prop := ∃ l t, A l ∧ step s l t

variable {step : σ → ℓ → σ → Prop} {s₀ : σ}

namespace Execution

/-- The first `n` labels. -/
def history (e : Execution step s₀) (n : ℕ) : List ℓ := (List.range n).map e.label

@[simp] theorem length_history (e : Execution step s₀) (n : ℕ) : (e.history n).length = n := by
  simp [history]

theorem history_succ (e : Execution step s₀) (n : ℕ) :
    e.history (n + 1) = e.history n ++ [e.label n] := by
  simp [history, List.range_succ]

theorem take_history (e : Execution step s₀) (k n : ℕ) :
    (e.history n).take k = e.history (min k n) := by
  simp [history, ← List.map_take, List.take_range]

theorem getElem?_history (e : Execution step s₀) {k n : ℕ} (hk : k < n) :
    (e.history n)[k]? = some (e.label k) := by
  simp [history, hk]

/-- Every beginning of an execution is a run. -/
theorem run (e : Execution step s₀) (n : ℕ) : Run step s₀ (e.history n) (e.state n) := by
  induction n with
  | zero =>
      rw [e.start]
      exact .start
  | succ n ih =>
      rw [e.history_succ]
      exact ih.step (e.steps n)

/-- A class of labels that stays enabled is taken. -/
def WeaklyFair (e : Execution step s₀) (A : ℓ → Prop) : Prop :=
  ∀ n, (∀ m, n ≤ m → Enabled step A (e.state m)) → ∃ m, n ≤ m ∧ A (e.label m)

/-- **The rule of progress.** While `I` lasts, the class is enabled, and a step
outside the class keeps `I` or reaches `G`. Then the class is taken while `I`
lasts, or `G` is reached. -/
theorem WeaklyFair.progress {e : Execution step s₀} {A : ℓ → Prop} (hfair : e.WeaklyFair A)
    {I G : ℕ → Prop} (henabled : ∀ n, I n → Enabled step A (e.state n))
    (hkeeps : ∀ n, I n → ¬ A (e.label n) → I (n + 1) ∨ G (n + 1)) {n : ℕ} (hn : I n) :
    ∃ m, n ≤ m ∧ (I m ∧ A (e.label m) ∨ G m) := by
  by_contra hnever
  push Not at hnever
  have hlasts : ∀ m, n ≤ m → I m := by
    intro m hm
    induction hm with
    | refl => exact hn
    | @step m hm ih =>
        rcases hkeeps m ih ((hnever m hm).1 ih) with hI | hG
        · exact hI
        · exact absurd hG (hnever (m + 1) (Nat.le_succ_of_le hm)).2
  obtain ⟨m, hm, hA⟩ := hfair n fun m hm => henabled m (hlasts m hm)
  exact (hnever m hm).1 (hlasts m hm) hA

/-- The rule when nothing outside the class ends `I`. -/
theorem WeaklyFair.taken {e : Execution step s₀} {A : ℓ → Prop} (hfair : e.WeaklyFair A)
    {I : ℕ → Prop} (henabled : ∀ n, I n → Enabled step A (e.state n))
    (hkeeps : ∀ n, I n → ¬ A (e.label n) → I (n + 1)) {n : ℕ} (hn : I n) :
    ∃ m, n ≤ m ∧ I m ∧ A (e.label m) := by
  obtain ⟨m, hm, htaken | hfalse⟩ := hfair.progress (G := fun _ => False) henabled
    (fun n hI hA => Or.inl (hkeeps n hI hA)) hn
  · exact ⟨m, hm, htaken⟩
  · exact hfalse.elim

/-- **The rule of progress with a variant.** While `I` lasts and `G` is not
reached, the class is enabled and no step makes the rank greater; a step of the
class makes it smaller. Then `G` is reached. -/
theorem WeaklyFair.variant {e : Execution step s₀} {A : ℓ → Prop} (hfair : e.WeaklyFair A)
    {I G : ℕ → Prop} (rank : ℕ → ℕ) (henabled : ∀ n, I n → Enabled step A (e.state n))
    (hkeeps : ∀ n, I n → ¬ A (e.label n) → (I (n + 1) ∧ rank (n + 1) ≤ rank n) ∨ G (n + 1))
    (hfalls : ∀ n, I n → A (e.label n) → (I (n + 1) ∧ rank (n + 1) < rank n) ∨ G (n + 1)) :
    ∀ (r n : ℕ), rank n ≤ r → I n → ∃ m, n ≤ m ∧ G m := by
  intro r
  induction r using Nat.strongRecOn with
  | ind r ih =>
      intro n hr hn
      have hbounded : ∀ m, I m ∧ rank m ≤ r → ¬ A (e.label m) →
          (I (m + 1) ∧ rank (m + 1) ≤ r) ∨ G (m + 1) := by
        rintro m ⟨hI, hm⟩ hA
        rcases hkeeps m hI hA with ⟨hI', hle⟩ | hG
        · exact Or.inl ⟨hI', Nat.le_trans hle hm⟩
        · exact Or.inr hG
      obtain ⟨m, hnm, ⟨⟨hI, hm⟩, hA⟩ | hG⟩ :=
        hfair.progress (fun m hI => henabled m hI.1) hbounded ⟨hn, hr⟩
      · rcases hfalls m hI hA with ⟨hI', hlt⟩ | hG
        · obtain ⟨m', hm', hG⟩ := ih _ (Nat.lt_of_lt_of_le hlt hm) (m + 1) (Nat.le_refl _) hI'
          exact ⟨m', by omega, hG⟩
        · exact ⟨m + 1, by omega, hG⟩
      · exact ⟨m, hnm, hG⟩

/-- One step more at the beginning. -/
def cons {s t : σ} {l : ℓ} (hstep : step s l t) (e : Execution step t) : Execution step s where
  state n := match n with
    | 0 => s
    | n + 1 => e.state n
  label n := match n with
    | 0 => l
    | n + 1 => e.label n
  start := rfl
  steps n := match n with
    | 0 => by
        show step s l (e.state 0)
        rw [e.start]
        exact hstep
    | n + 1 => e.steps n

end Execution

/-- **A run followed by an execution** is an execution. -/
theorem Run.extend {ls : List ℓ} {s : σ} (hrun : Run step s₀ ls s) (e : Execution step s) :
    ∃ e' : Execution step s₀, (∀ n, e'.state (ls.length + n) = e.state n) ∧
      (∀ n, e'.label (ls.length + n) = e.label n) ∧ e'.history ls.length = ls := by
  induction hrun with
  | start => exact ⟨e, fun n => by simp, fun n => by simp, rfl⟩
  | @step ls s t l hrun hstep ih =>
      obtain ⟨e', hstate, hlabel, hhistory⟩ := ih (e.cons hstep)
      have hlength : ∀ n, (ls ++ [l]).length + n = ls.length + (n + 1) := by
        intro n
        rw [List.length_append, List.length_singleton]
        omega
      refine ⟨e', fun n => ?_, fun n => ?_, ?_⟩
      · rw [hlength, hstate]
        rfl
      · rw [hlength, hlabel]
        rfl
      · have hlast : e'.label ls.length = l := hlabel 0
        rw [List.length_append, List.length_singleton, e'.history_succ, hhistory, hlast]

end Machine
