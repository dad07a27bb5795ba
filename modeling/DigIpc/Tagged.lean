/-
Tagged encodings: a library for byte formats that start with a purpose tag.

Two byte strings are *apart* when neither is a prefix of the other. Apartness of
two tags survives whatever is appended to either, which is the whole of domain
separation: messages under apart tags are not equal, and neither is the start of
the other, whatever their contents.
-/
import Mathlib.Data.List.Infix

set_option autoImplicit false

namespace Tagged

variable {α : Type*}

/-- Neither list is a prefix of the other (in particular they differ). -/
def Apart (s t : List α) : Prop := ¬ s <+: t ∧ ¬ t <+: s

theorem Apart.ne {s t : List α} (h : Apart s t) : s ≠ t := by
  rintro rfl
  exact h.1 (List.prefix_refl _)

theorem Apart.symm {s t : List α} (h : Apart s t) : Apart t s := ⟨h.2, h.1⟩

/-- Prefixes of one list are comparable, so a comparison of two extensions is a
comparison of what they extend. -/
theorem comparable_of_append {s t x y : List α} (h : s ++ x <+: t ++ y) : s <+: t ∨ t <+: s :=
  List.prefix_or_prefix_of_prefix ((List.prefix_append s x).trans h) (List.prefix_append t y)

/-- **Domain separation.** What follows apart tags does not matter. -/
theorem Apart.append {s t : List α} (h : Apart s t) (x y : List α) :
    Apart (s ++ x) (t ++ y) := by
  constructor
  · intro hxy
    exact (comparable_of_append hxy).elim h.1 h.2
  · intro hyx
    exact (comparable_of_append hyx).elim h.2 h.1

/-- Lists that differ at a position both have are apart. -/
theorem Apart.of_getElem?_ne {s t : List α} {i : ℕ} {a b : α} (hs : s[i]? = some a)
    (ht : t[i]? = some b) (hab : a ≠ b) : Apart s t := by
  have hdiff : ∀ {u v : List α} {c d : α}, u[i]? = some c → v[i]? = some d → c ≠ d → ¬ u <+: v := by
    rintro u v c d hu hv hcd ⟨w, rfl⟩
    have hi : i < u.length := (List.getElem?_eq_some_iff.mp hu).1
    rw [List.getElem?_append_left hi, hu] at hv
    exact hcd (Option.some.inj hv)
  exact ⟨hdiff hs ht hab, hdiff ht hs hab.symm⟩

end Tagged
