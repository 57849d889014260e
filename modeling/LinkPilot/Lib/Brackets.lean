import Mathlib.Data.List.Basic

/-!
# Balanced texts

Texts in which every bracket is closed, for a pair of bracket symbols: a counter of the open ones
never has to go below zero and comes back to zero.

* `Balanced.append`, `Balanced.bracket`, `Balanced.intercalate` — how balanced texts are put together.
* `Balanced.eq_of_close` — a balanced text is told by the bracket that closes it.
-/

set_option autoImplicit false

namespace Brackets

variable {α : Type} [DecidableEq α]

/-- The brackets that are open behind a text, from those that are open before it; none if one is
closed that is not open. -/
def scan (l r : α) : Nat → List α → Option Nat
  | n, [] => some n
  | n, a :: s =>
    if a = l then scan l r (n + 1) s
    else if a = r then if n = 0 then none else scan l r (n - 1) s
    else scan l r n s

/-- Nothing is open behind the text that was not open before it. -/
def Balanced (l r : α) (s : List α) : Prop := ∀ n, scan l r n s = some n

variable {l r : α} {s t : List α}

theorem scan_append (n : Nat) (s t : List α) :
    scan l r n (s ++ t) = (scan l r n s).bind fun m => scan l r m t := by
  induction s generalizing n with
  | nil => rfl
  | cons a s ih =>
    simp only [List.cons_append, scan]
    split
    · exact ih (n + 1)
    · split
      · split
        · rfl
        · exact ih (n - 1)
      · exact ih n

/-- A text without brackets. -/
theorem balanced_of_not_mem (hl : l ∉ s) (hr : r ∉ s) : Balanced l r s := by
  intro n
  induction s with
  | nil => rfl
  | cons a s ih =>
    rw [List.mem_cons, not_or] at hl hr
    rw [scan, if_neg (Ne.symm hl.1), if_neg (Ne.symm hr.1)]
    exact ih hl.2 hr.2

theorem Balanced.append (hs : Balanced l r s) (ht : Balanced l r t) : Balanced l r (s ++ t) := by
  intro n
  rw [scan_append, hs n, Option.bind_some, ht n]

/-- A balanced text in brackets. -/
theorem Balanced.bracket (hne : l ≠ r) (hs : Balanced l r s) : Balanced l r (l :: (s ++ [r])) := by
  intro n
  rw [scan, if_pos rfl, scan_append, hs (n + 1), Option.bind_some]
  simp [scan, Ne.symm hne]

theorem Balanced.intercalate {sep : List α} (hsep : Balanced l r sep) {ts : List (List α)}
    (hts : ∀ t ∈ ts, Balanced l r t) : Balanced l r (sep.intercalate ts) := by
  match ts with
  | [] => exact fun n => rfl
  | [t] =>
    rw [List.intercalate_singleton]
    exact hts t List.mem_cons_self
  | t :: t' :: ts =>
    rw [List.forall_mem_cons] at hts
    rw [List.intercalate_cons_cons]
    exact (hts.1.append hsep).append (Balanced.intercalate hsep hts.2)

/-- **A balanced text ends before the first bracket that it does not open.** -/
theorem Balanced.eq_of_close (hne : l ≠ r) (hs : Balanced l r s) (ht : Balanced l r t)
    {u v : List α} (h : s ++ r :: u = t ++ r :: v) : s = t := by
  -- a text that goes on behind such a bracket closes it
  have hlonger : ∀ {s c : List α}, Balanced l r s → ¬ Balanced l r (s ++ r :: c) := by
    intro s c hs hlong
    have hscan := hlong 0
    rw [scan_append, hs 0, Option.bind_some, scan, if_neg (Ne.symm hne), if_pos rfl,
      if_pos rfl] at hscan
    cases hscan
  rcases List.append_eq_append_iff.mp h with ⟨c, rfl, hc⟩ | ⟨c, rfl, hc⟩
  · cases c with
    | nil => rw [List.append_nil]
    | cons a c =>
      rw [List.cons_append, List.cons.injEq] at hc
      rw [← hc.1] at ht
      exact absurd ht (hlonger hs)
  · cases c with
    | nil => rw [List.append_nil]
    | cons a c =>
      rw [List.cons_append, List.cons.injEq] at hc
      rw [← hc.1] at hs
      exact absurd hs (hlonger ht)

end Brackets
