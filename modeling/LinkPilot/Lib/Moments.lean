import Mathlib.Data.List.Basic

/-!
# Moments of a run

A trail lists the states that something shared has been in, the first one at moment zero.  What a
concurrent call returns is justified by the state of some moment while the call was running.

* `Within` — a property held at some moment of an interval.
* `Within.append`, `Within.extend`, `Within.imp`, `within_last` — its rules as the trail grows.
-/

set_option autoImplicit false

namespace Moments

variable {α : Type} {trail : List α} {a b c : Nat} {P Q : α → Prop}

/-- `P` held at a moment from `a` to `b`. -/
def Within (trail : List α) (a b : Nat) (P : α → Prop) : Prop :=
  ∃ k s, a ≤ k ∧ k ≤ b ∧ trail[k]? = some s ∧ P s

namespace Within

theorem append (h : Within trail a b P) (more : List α) : Within (trail ++ more) a b P := by
  obtain ⟨k, s, hak, hkb, hs, hP⟩ := h
  have hk := (List.getElem?_eq_some_iff.mp hs).1
  exact ⟨k, s, hak, hkb, by rw [List.getElem?_append_left hk, hs], hP⟩

theorem extend (h : Within trail a b P) (hbc : b ≤ c) : Within trail a c P := by
  obtain ⟨k, s, hak, hkb, hs, hP⟩ := h
  exact ⟨k, s, hak, Nat.le_trans hkb hbc, hs, hP⟩

theorem imp (h : Within trail a b P) (hPQ : ∀ s, P s → Q s) : Within trail a b Q := by
  obtain ⟨k, s, hak, hkb, hs, hP⟩ := h
  exact ⟨k, s, hak, hkb, hs, hPQ s hP⟩

end Within

/-- The last moment. -/
theorem within_last {s : α} (ha : a ≤ trail.length) (hP : P s) :
    Within (trail ++ [s]) a trail.length P :=
  ⟨trail.length, s, ha, Nat.le_refl _, List.getElem?_concat_length, hP⟩

end Moments
