/-
Interactive programs: a library for code that talks to an environment it does
not control.

A blocking procedure that sends, receives, asks a policy or calls a signer is
modelled as the tree of everything it may do: at each node it performs one
*action* and goes on with whatever *reply* the environment gives. Nothing is
said here about what the actions are; a development instantiates `E` with its
own actions and `A e` with the type of the replies to `e`.

Two views of a program are connected below. `Run p tr q` is the operational
one: `p` performs the events `tr` and is left at `q`. `Proc.wp` is the
logical one: a weakest precondition over *histories*, with a rely condition on
what the environment may reply and a guarantee on what the program may do. The
bridge is `Run.sound`: along every run whose replies keep the rely, every event
keeps the guarantee, and the residual program still satisfies its `wp` at the
extended history. The last part is what a concurrent system needs: the `wp` of
the residual program is an invariant of the whole system, whatever the other
parties do between two events.
-/
import Mathlib.Data.List.Induction

set_option autoImplicit false

namespace Interaction

variable {E : Type} {A : E → Type} {α β : Type}

/-- An action together with the reply it got. -/
abbrev Event (E : Type) (A : E → Type) : Type := (e : E) × A e

/-- The events so far, oldest first. -/
abbrev History (E : Type) (A : E → Type) : Type := List (Event E A)

/-- The tree of an interactive program: finished with a value, or performing an
action and continuing with the reply. Being inductive, it has no infinite
branch: a program of this type performs finitely many actions whatever it is
told. -/
inductive Proc (E : Type) (A : E → Type) (α : Type) : Type
  | ret (a : α) : Proc E A α
  | vis (e : E) (k : A e → Proc E A α) : Proc E A α

namespace Proc

/-- Sequential composition: graft `f` onto every leaf. -/
def bind : Proc E A α → (α → Proc E A β) → Proc E A β
  | ret a, f => f a
  | vis e k, f => vis e fun r => (k r).bind f

/-- One action, returning its reply. -/
def perform (e : E) : Proc E A (A e) := vis e ret

@[simp] theorem ret_bind (a : α) (f : α → Proc E A β) : (ret a).bind f = f a := rfl

@[simp] theorem vis_bind (e : E) (k : A e → Proc E A α) (f : α → Proc E A β) :
    (vis e k).bind f = vis e fun r => (k r).bind f := rfl

/-! ## Running a program -/

/-- `Run p tr q`: the program `p` performs the events `tr`, in order, and `q`
is what is left of it. Every prefix of a run is a run, so this covers programs
that are still in progress. -/
inductive Run : Proc E A α → History E A → Proc E A α → Prop
  | nil (p : Proc E A α) : Run p [] p
  | cons {e : E} {k : A e → Proc E A α} {r : A e} {tr : History E A} {q : Proc E A α} :
      Run (k r) tr q → Run (vis e k) (⟨e, r⟩ :: tr) q

/-- What a program is, from its first event. -/
theorem Run.cons_inv {p q : Proc E A α} {e : E} {r : A e} {tr : History E A}
    (h : Run p (⟨e, r⟩ :: tr) q) : ∃ k, p = vis e k ∧ Run (k r) tr q := by
  cases h with
  | cons h => exact ⟨_, rfl, h⟩

/-- Runs compose. -/
theorem Run.trans {p q s : Proc E A α} {tr tr' : History E A}
    (h : Run p tr q) (h' : Run q tr' s) : Run p (tr ++ tr') s := by
  induction h with
  | nil => exact h'
  | cons _ ih => exact Run.cons (ih h')

/-- A run passes through the program that is left after its first part. -/
theorem Run.append_inv {p q : Proc E A α} {tr' : History E A} {tr : History E A}
    (h : Run p (tr ++ tr') q) : ∃ m, Run p tr m ∧ Run m tr' q := by
  induction tr generalizing p with
  | nil => exact ⟨p, Run.nil p, h⟩
  | cons e tr ih =>
    obtain ⟨k, rfl, hrest⟩ := h.cons_inv
    obtain ⟨m, hm, hq⟩ := ih hrest
    exact ⟨m, Run.cons hm, hq⟩

/-- One more event at the end of a run. -/
theorem Run.snoc {p : Proc E A α} {tr : History E A} {e : E} {k : A e → Proc E A α}
    (h : Run p tr (vis e k)) (r : A e) : Run p (tr ++ [⟨e, r⟩]) (k r) :=
  h.trans (Run.cons (Run.nil _))

/-- A run of the first part of a sequence. -/
theorem Run.bind_left {p q : Proc E A α} {tr : History E A} (h : Run p tr q)
    (f : α → Proc E A β) : Run (p.bind f) tr (q.bind f) := by
  induction h with
  | nil => exact Run.nil _
  | cons _ ih => exact Run.cons ih

/-- A run of a sequence: the first part to its end, then the second. -/
theorem Run.bind {p : Proc E A α} {a : α} {f : α → Proc E A β} {q : Proc E A β}
    {tr tr' : History E A} (h : Run p tr (ret a)) (h' : Run (f a) tr' q) :
    Run (p.bind f) (tr ++ tr') q :=
  (h.bind_left f).trans h'

/-! ## Rely and guarantee

A condition on an event may look at the events before it, so both the rely and
the guarantee take the history at which the event happens. -/

/-- The type of rely and guarantee conditions. -/
abbrev Cond (E : Type) (A : E → Type) : Type := History E A → Event E A → Prop

/-- Every event of `tr`, performed from history `h` on, satisfies `P` at the
history at which it happens. -/
def Along (P : Cond E A) : History E A → History E A → Prop
  | _, [] => True
  | h, e :: tr => P h e ∧ Along P (h ++ [e]) tr

theorem along_iff {P : Cond E A} (tr : History E A) : ∀ h : History E A,
    Along P h tr ↔ ∀ pre e post, tr = pre ++ e :: post → P (h ++ pre) e := by
  induction tr with
  | nil => intro h; simp [Along]
  | cons e tr ih =>
      intro h
      rw [Along, ih]
      constructor
      · rintro ⟨he, htr⟩ pre e' post heq
        rcases pre with _ | ⟨a, pre⟩
        · obtain ⟨rfl, rfl⟩ : e = e' ∧ tr = post := by simpa using heq
          simpa using he
        · obtain ⟨rfl, rfl⟩ : e = a ∧ tr = pre ++ e' :: post := by simpa using heq
          simpa using htr pre e' post rfl
      · intro hall
        refine ⟨by simpa using hall [] e tr rfl, fun pre e' post heq => ?_⟩
        simpa using hall (e :: pre) e' post (by rw [heq]; rfl)

theorem along_append {P : Cond E A} (tr tr' : History E A) : ∀ h : History E A,
    Along P h (tr ++ tr') ↔ Along P h tr ∧ Along P (h ++ tr) tr' := by
  induction tr with
  | nil => intro h; simp [Along]
  | cons e tr ih =>
      intro h
      simp only [List.cons_append, Along, ih, List.append_assoc, and_assoc,
        List.nil_append]

theorem Along.mono {P P' : Cond E A} (hPP : ∀ h e, P h e → P' h e) {tr : History E A} :
    ∀ {h : History E A}, Along P h tr → Along P' h tr := by
  induction tr with
  | nil => intro h _; trivial
  | cons e tr ih => exact fun ⟨he, htr⟩ => ⟨hPP _ _ he, ih htr⟩

/-- **Weakest precondition over histories.** From history `h` on, and as long
as every reply keeps the rely `R`, every event keeps the guarantee `G`, and if
the program finishes with `a` at history `h'` then `Q a h'`. -/
def wp (R G : Cond E A) : Proc E A α → (α → History E A → Prop) → History E A → Prop
  | ret a, Q, h => Q a h
  | vis e k, Q, h => ∀ r, R h ⟨e, r⟩ → G h ⟨e, r⟩ ∧ wp R G (k r) Q (h ++ [⟨e, r⟩])

variable {R G : Cond E A}

@[simp] theorem wp_ret (a : α) (Q : α → History E A → Prop) (h : History E A) :
    wp R G (ret a) Q h ↔ Q a h := Iff.rfl

theorem wp_vis (e : E) (k : A e → Proc E A α) (Q : α → History E A → Prop)
    (h : History E A) :
    wp R G (vis e k) Q h
      ↔ ∀ r, R h ⟨e, r⟩ → G h ⟨e, r⟩ ∧ wp R G (k r) Q (h ++ [⟨e, r⟩]) := Iff.rfl

/-- The rule of sequential composition. -/
theorem wp_bind (p : Proc E A α) (f : α → Proc E A β) (Q : β → History E A → Prop) :
    ∀ h, wp R G (p.bind f) Q h ↔ wp R G p (fun a h' => wp R G (f a) Q h') h := by
  induction p with
  | ret a => exact fun h => Iff.rfl
  | vis e k ih =>
      intro h
      rw [vis_bind, wp_vis, wp_vis]
      exact forall_congr' fun r => imp_congr_right fun _ => and_congr_right fun _ => ih r _

/-- The rule of consequence. -/
theorem wp_mono {R' G' : Cond E A} {p : Proc E A α} {Q Q' : α → History E A → Prop}
    (hR : ∀ h e, R' h e → R h e) (hG : ∀ h e, G h e → G' h e)
    (hQ : ∀ a h, Q a h → Q' a h) : ∀ {h}, wp R G p Q h → wp R' G' p Q' h := by
  induction p with
  | ret a => exact fun hp => hQ _ _ hp
  | vis e k ih => exact fun hp r hr => ⟨hG _ _ (hp r (hR _ _ hr)).1, ih r (hp r (hR _ _ hr)).2⟩

/-- Weakening the postcondition alone. -/
theorem wp_post {p : Proc E A α} {Q Q' : α → History E A → Prop} {h : History E A}
    (hp : wp R G p Q h) (hQ : ∀ a h, Q a h → Q' a h) : wp R G p Q' h :=
  wp_mono (fun _ _ => id) (fun _ _ => id) hQ hp

/-- **The invariant rule.** A property of histories that every guaranteed event
under the rely preserves may be added to the postcondition. -/
theorem wp_invariant {I : History E A → Prop}
    (hI : ∀ h e, I h → R h e → G h e → I (h ++ [e])) {p : Proc E A α}
    {Q : α → History E A → Prop} :
    ∀ {h}, I h → wp R G p Q h → wp R G p (fun a h' => I h' ∧ Q a h') h := by
  induction p with
  | ret a => exact fun h0 hp => ⟨h0, hp⟩
  | vis e k ih =>
      intro h h0 hp r hr
      obtain ⟨hg, hk⟩ := hp r hr
      exact ⟨hg, ih r (hI h _ h0 hr hg) hk⟩

/-- The history `h'` continues `h`, with events that keep `P`. -/
def Since (P : Cond E A) (h h' : History E A) : Prop := ∃ tr, h' = h ++ tr ∧ Along P h tr

theorem Since.refl {P : Cond E A} (h : History E A) : Since P h h :=
  ⟨[], (List.append_nil h).symm, trivial⟩

theorem Since.snoc {P : Cond E A} {h h' : History E A} {e : Event E A} (hs : Since P h h')
    (he : P h' e) : Since P h (h' ++ [e]) := by
  obtain ⟨tr, rfl, htr⟩ := hs
  refine ⟨tr ++ [e], List.append_assoc h tr [e], ?_⟩
  rw [along_append]
  exact ⟨htr, he, trivial⟩

/-- The last event of a continuation kept `P`, unless there is none. -/
theorem Since.last {P : Cond E A} {h h' : History E A} {e : Event E A}
    (hs : Since P h (h' ++ [e])) : h' ++ [e] = h ∨ Since P h h' ∧ P h' e := by
  obtain ⟨tr, htr, halong⟩ := hs
  rcases List.eq_nil_or_concat tr with rfl | ⟨tr, e', rfl⟩
  · rw [List.append_nil] at htr
    exact Or.inl htr
  · rw [List.concat_eq_append, ← List.append_assoc] at htr
    obtain ⟨rfl, hlast⟩ := List.append_inj' htr rfl
    obtain rfl : e = e' := List.head_eq_of_cons_eq hlast
    rw [List.concat_eq_append, along_append] at halong
    exact Or.inr ⟨⟨tr, rfl, halong.1⟩, halong.2.1⟩

/-- **Induction along a continuation**, one event at its end. -/
theorem Since.induction {P : Cond E A} {I : History E A → Prop} {h h' : History E A}
    (hs : Since P h h') (h0 : I h)
    (hstep : ∀ h' e, Since P h h' → I h' → P h' e → I (h' ++ [e])) : I h' := by
  obtain ⟨tr, rfl, htr⟩ := hs
  induction tr using List.reverseRecOn with
  | nil => rwa [List.append_nil]
  | append_singleton tr e ih =>
      rw [along_append] at htr
      obtain ⟨htr, he, -⟩ := htr
      rw [← List.append_assoc]
      exact hstep _ e ⟨tr, rfl, htr⟩ (ih htr) he

/-- The events so far kept the guarantee: this may be assumed of every event,
and at the end. -/
theorem wp_since {p : Proc E A α} {Q : α → History E A → Prop} {h : History E A}
    (hp : wp R G p Q h) :
    wp R (fun h' e => Since G h h' ∧ G h' e) p (fun a h' => Since G h h' ∧ Q a h') h := by
  have hgen : ∀ (p : Proc E A α) (h' : History E A), Since G h h' → wp R G p Q h' →
      wp R (fun h' e => Since G h h' ∧ G h' e) p (fun a h' => Since G h h' ∧ Q a h') h' := by
    intro p
    induction p with
    | ret a => exact fun h' hs hp => ⟨hs, hp⟩
    | vis e k ih =>
        intro h' hs hp r hr
        obtain ⟨hg, hk⟩ := hp r hr
        exact ⟨⟨hs, hg⟩, ih r _ (hs.snoc hg) hk⟩
  exact hgen p h (Since.refl h) hp

/-- **Soundness.** Along a run whose replies keep the rely, the guarantee holds
of every event, and what is left of the program satisfies its `wp` at the
history reached. -/
theorem Run.sound {p q : Proc E A α} {tr : History E A} (hrun : Run p tr q)
    {Q : α → History E A → Prop} :
    ∀ {h}, wp R G p Q h → Along R h tr → Along G h tr ∧ wp R G q Q (h ++ tr) := by
  induction hrun with
  | nil => intro h hp _; exact ⟨trivial, by simpa using hp⟩
  | cons _ ih =>
      intro h hp hR
      obtain ⟨hg, hk⟩ := hp _ hR.1
      obtain ⟨hG, hq⟩ := ih hk hR.2
      exact ⟨⟨hg, hG⟩, by simpa using hq⟩

/-- Soundness at a finished run: the postcondition holds. -/
theorem Run.sound_ret {p : Proc E A α} {a : α} {tr : History E A}
    (hrun : Run p tr (ret a)) {Q : α → History E A → Prop} {h : History E A}
    (hp : wp R G p Q h) (hR : Along R h tr) : Q a (h ++ tr) :=
  (hrun.sound hp hR).2

/-! ## Environments -/

/-- A run against an environment that replies to `e` at history `h` with
`env h e`: what happens from `h` on, and the value in the end. -/
def exec (env : History E A → (e : E) → A e) : Proc E A α → History E A → History E A × α
  | ret a, _ => ([], a)
  | vis e k, h =>
    let rest := exec env (k (env h e)) (h ++ [⟨e, env h e⟩])
    (⟨e, env h e⟩ :: rest.1, rest.2)

/-- Every environment makes a run, to the end of the program. -/
theorem run_exec (env : History E A → (e : E) → A e) (p : Proc E A α) :
    ∀ h, Run p (exec env p h).1 (ret (exec env p h).2) := by
  induction p with
  | ret a => exact fun h => Run.nil _
  | vis e k ih => exact fun h => Run.cons (ih _ _)

/-- All the replies in it are the environment's. -/
theorem along_exec (env : History E A → (e : E) → A e) (p : Proc E A α) :
    ∀ h, Along (fun h e => e.2 = env h e.1) h (exec env p h).1 := by
  induction p with
  | ret a => exact fun h => trivial
  | vis e k ih => exact fun h => ⟨rfl, ih _ _⟩

/-- A run to the end whose replies are the environment's is its run. -/
theorem exec_of_run {env : History E A → (e : E) → A e} {p q : Proc E A α} {tr : History E A}
    (hrun : Run p tr q) : ∀ {a : α} {h : History E A}, q = ret a →
      Along (fun h e => e.2 = env h e.1) h tr → exec env p h = (tr, a) := by
  induction hrun with
  | nil p =>
      rintro a h rfl -
      rfl
  | @cons e k r tr q _ ih =>
      intro a h hq halong
      obtain ⟨hr, halong⟩ := halong
      have hreply : r = env h e := hr
      subst hreply
      rw [exec, ih hq halong]

/-- **Soundness against an environment** that keeps the rely. -/
theorem wp_exec {env : History E A → (e : E) → A e} {p : Proc E A α}
    {Q : α → History E A → Prop} {h : History E A} (hp : wp R G p Q h)
    (henv : ∀ h e, R h ⟨e, env h e⟩) : Q (exec env p h).2 (h ++ (exec env p h).1) := by
  refine (run_exec env p h).sound_ret hp ((along_exec env p h).mono ?_)
  rintro h' ⟨e, r⟩ hr
  have hreply : r = env h' e := hr
  rw [hreply]
  exact henv h' e

end Proc

end Interaction
