import Mathlib.Data.List.Infix

/-!
# Substrings

The first occurrence of a word in a text, and the replacement of all of them from left to right.

* `cut_eq_none_iff`, `append_of_cut` — where a text is cut.
* `cut_append`, `cut_skip` — a word that begins with a mark it does not repeat is found behind
  whatever it does not occur in.
* `occurrences_induct` — induction along the occurrences, as `replace` walks them.
-/

set_option autoImplicit false

namespace Substrings

variable {α : Type}

/-! ## Words that begin with a mark -/

section Mark

variable {m : α} {b w x s : List α}

/-- An occurrence does not start in a text without the mark. -/
theorem not_prefix_of_not_mem (hw : w ≠ []) (hm : m ∉ w) (s : List α) : ¬ m :: b <+: w ++ s := by
  obtain ⟨a, w, rfl⟩ := List.exists_cons_of_ne_nil hw
  rw [List.cons_append, List.cons_prefix_cons]
  rintro ⟨rfl, -⟩
  exact hm List.mem_cons_self

theorem infix_append_of_not_mem (hm : m ∉ w) : m :: b <:+: w ++ s ↔ m :: b <:+: s := by
  induction w with
  | nil => rfl
  | cons a w ih =>
    rw [List.mem_cons, not_or] at hm
    rw [List.cons_append, List.infix_cons_iff, ih hm.2, List.cons_prefix_cons]
    simp [hm.1]

/-- A word without the mark ends before the mark. -/
theorem prefix_of_prefix_append (hb : m ∉ b) (h : b <+: x ++ m :: s) : b <+: x := by
  rcases List.prefix_or_prefix_of_prefix h (List.prefix_append x (m :: s)) with hx | ⟨c, rfl⟩
  · exact hx
  · cases c with
    | nil => simp
    | cons a c =>
      rw [List.prefix_append_right_inj, List.cons_prefix_cons] at h
      rw [h.1] at hb
      simp at hb

/-- Behind the last mark a word can occur only there. -/
theorem infix_mark_iff (hw : m ∉ w) : m :: b <:+: m :: w ↔ b <+: w := by
  have hnone : ¬ m :: b <:+: w := fun h => hw (h.subset List.mem_cons_self)
  rw [List.infix_cons_iff, List.cons_prefix_cons]
  simp [hnone]

end Mark

variable [DecidableEq α]

/-! ## The first occurrence -/

/-- What is before and what is behind the first occurrence of `p`. -/
def cut (p : List α) : List α → Option (List α × List α)
  | [] => if p = [] then some ([], []) else none
  | a :: s =>
    if p <+: a :: s then some ([], (a :: s).drop p.length)
    else (cut p s).map fun parts => (a :: parts.1, parts.2)

variable {p s x y : List α}

theorem cut_of_starts (h : p <+: s) : cut p s = some ([], s.drop p.length) := by
  cases s with
  | nil => simp [cut, List.prefix_nil.mp h]
  | cons a s => rw [cut, if_pos h]

theorem cut_eq_none_iff : cut p s = none ↔ ¬ p <:+: s := by
  induction s with
  | nil => simp [cut]
  | cons a s ih =>
    rw [List.infix_cons_iff, not_or, ← ih, cut]
    split
    · rename_i h
      simp [h]
    · rename_i h
      simp [h]

/-- The text again. -/
theorem append_of_cut (h : cut p s = some (x, y)) : s = x ++ (p ++ y) := by
  induction s generalizing x with
  | nil =>
    rw [cut] at h
    split at h
    · rename_i hnil
      cases h
      simp [hnil]
    · cases h
  | cons a s ih =>
    rw [cut] at h
    split at h
    · rename_i hstarts
      obtain ⟨rest, hrest⟩ := hstarts
      cases h
      rw [← hrest, List.drop_left, List.nil_append]
    · obtain ⟨⟨x', y'⟩, hcut, heq⟩ := Option.map_eq_some_iff.mp h
      cases heq
      rw [List.cons_append, ← ih hcut]

/-! ### Behind a text without an occurrence -/

/-- Behind a text in which no occurrence can start. -/
theorem cut_skip_of_apart (hx : ∀ z ∈ x.tails, z ≠ [] → ¬ (p <+: z ∨ z <+: p)) (s : List α) :
    cut p (x ++ s) = (cut p s).map fun parts => (x ++ parts.1, parts.2) := by
  induction x with
  | nil => simp
  | cons a x ih =>
    rw [List.tails_cons, List.forall_mem_cons] at hx
    have hnot : ¬ p <+: a :: (x ++ s) := fun h =>
      hx.1 (List.cons_ne_nil a x)
        (List.prefix_or_prefix_of_prefix h (List.prefix_append (a :: x) s))
    rw [List.cons_append, cut, if_neg hnot, ih hx.2, Option.map_map]
    rfl

section Mark

variable {m : α} {b : List α}

/-- Behind a text that the word does not occur in, and before a mark, the search goes on. -/
theorem cut_skip (hb : m ∉ b) (hx : ¬ m :: b <:+: x) (s : List α) :
    cut (m :: b) (x ++ m :: s) =
      (cut (m :: b) (m :: s)).map fun parts => (x ++ parts.1, parts.2) := by
  induction x with
  | nil => simp
  | cons a x ih =>
    rw [List.infix_cons_iff, not_or] at hx
    have hnot : ¬ m :: b <+: a :: (x ++ m :: s) := by
      rw [List.cons_prefix_cons]
      rintro ⟨rfl, hstarts⟩
      exact hx.1 (List.cons_prefix_cons.mpr ⟨rfl, prefix_of_prefix_append hb hstarts⟩)
    rw [List.cons_append, cut, if_neg hnot, ih hx.2, Option.map_map]
    rfl

/-- **The first occurrence**, behind a text that the word does not occur in. -/
theorem cut_append (hb : m ∉ b) (hx : ¬ m :: b <:+: x) (y : List α) :
    cut (m :: b) (x ++ (m :: b ++ y)) = some (x, y) := by
  have hcut : cut (m :: b) (m :: (b ++ y)) = some ([], y) := by
    have hstarts : m :: b <+: m :: (b ++ y) := List.prefix_append (m :: b) y
    rw [cut_of_starts hstarts, List.length_cons, List.drop_succ_cons, List.drop_left]
  rw [List.cons_append, cut_skip hb hx, hcut, Option.map_some, List.append_nil]

theorem infix_append_mark (hb : m ∉ b) :
    m :: b <:+: x ++ m :: s ↔ m :: b <:+: x ∨ m :: b <:+: m :: s := by
  refine ⟨fun h => ?_, ?_⟩
  · by_contra hnot
    rw [not_or] at hnot
    have hcut := cut_skip hb hnot.1 s
    rw [cut_eq_none_iff.mpr hnot.2, Option.map_none, cut_eq_none_iff] at hcut
    exact hcut h
  · rintro (h | h)
    · exact List.infix_append_of_infix_left h
    · exact List.infix_append_of_infix_right h

end Mark

/-! ## Replacement -/

/-- The text behind the next `n` symbols with the occurrences of `p` replaced. -/
def replaceFrom (p r : List α) : Nat → List α → List α
  | _, [] => []
  | 0, a :: s =>
    if p <+: a :: s then r ++ replaceFrom p r (p.length - 1) s else a :: replaceFrom p r 0 s
  | n + 1, _ :: s => replaceFrom p r n s

/-- The occurrences of `p`, which is not empty, replaced by `r` from left to right. -/
def replace (p r s : List α) : List α := replaceFrom p r 0 s

variable {r : List α}

theorem replaceFrom_eq (p r : List α) (n : Nat) (s : List α) :
    replaceFrom p r n s = replace p r (s.drop n) := by
  induction n generalizing s with
  | zero => rfl
  | succ n ih =>
    cases s with
    | nil => rfl
    | cons a s => exact ih s

@[simp] theorem replace_nil : replace p r [] = [] := rfl

theorem replace_cons {a : α} (h : ¬ p <+: a :: s) : replace p r (a :: s) = a :: replace p r s := by
  rw [replace, replaceFrom, if_neg h]
  rfl

theorem replace_append (hp : p ≠ []) (s : List α) : replace p r (p ++ s) = r ++ replace p r s := by
  obtain ⟨a, p, rfl⟩ := List.exists_cons_of_ne_nil hp
  have hstarts : a :: p <+: a :: (p ++ s) := List.prefix_append (a :: p) s
  rw [List.cons_append, replace, replaceFrom, if_pos hstarts, replaceFrom_eq, List.length_cons,
    Nat.add_sub_cancel, List.drop_left]

/-- **Induction along the occurrences of a word**: nothing, an occurrence, or a symbol where none
starts. -/
theorem occurrences_induct (hp : p ≠ []) {motive : List α → Prop} (nil : motive [])
    (occurrence : ∀ s, motive s → motive (p ++ s))
    (cons : ∀ a s, ¬ p <+: a :: s → motive s → motive (a :: s)) (s : List α) : motive s := by
  induction hn : s.length using Nat.strong_induction_on generalizing s with
  | _ n ih =>
    subst hn
    by_cases hstarts : p <+: s
    · obtain ⟨s, rfl⟩ := hstarts
      have hlength := List.length_pos_of_ne_nil hp
      exact occurrence s (ih s.length (by rw [List.length_append]; omega) s rfl)
    · cases s with
      | nil => exact nil
      | cons a s => exact cons a s hstarts (ih s.length (by simp) s rfl)

theorem replace_of_not_occurs (h : ¬ p <:+: s) : replace p r s = s := by
  induction s with
  | nil => rfl
  | cons a s ih =>
    rw [List.infix_cons_iff, not_or] at h
    rw [replace_cons h.1, ih h.2]

theorem length_replace_le (hr : r.length ≤ p.length) (hp : p ≠ []) (s : List α) :
    (replace p r s).length ≤ s.length := by
  induction s using occurrences_induct hp with
  | nil => exact Nat.le_refl 0
  | occurrence s ih =>
    rw [replace_append hp, List.length_append, List.length_append]
    omega
  | cons a s h ih =>
    rw [replace_cons h, List.length_cons, List.length_cons]
    omega

theorem length_replace_lt (hr : r.length < p.length) (h : p <:+: s) :
    (replace p r s).length < s.length := by
  have hp : p ≠ [] := by
    rintro rfl
    exact absurd hr (Nat.not_lt_zero _)
  induction s using occurrences_induct hp with
  | nil => exact absurd (List.infix_nil.mp h) hp
  | occurrence s ih =>
    have hle := length_replace_le hr.le hp s
    rw [replace_append hp, List.length_append, List.length_append]
    omega
  | cons a s hnot ih =>
    rw [List.infix_cons_iff, or_iff_right hnot] at h
    rw [replace_cons hnot, List.length_cons, List.length_cons]
    exact Nat.succ_lt_succ (ih h)

/-- A text in which no occurrence starts, whatever is behind it. -/
theorem replace_append_of_not_prefix {w : List α} (h : ∀ x y s, w = x ++ y → y ≠ [] →
    ¬ p <+: y ++ s) (s : List α) : replace p r (w ++ s) = w ++ replace p r s := by
  induction w with
  | nil => rfl
  | cons a w ih =>
    have hnot : ¬ p <+: a :: (w ++ s) := h [] (a :: w) s rfl (by simp)
    rw [List.cons_append, replace_cons hnot, ih, List.cons_append]
    intro x y s hw hy
    exact h (a :: x) y s (by rw [hw, List.cons_append]) hy

end Substrings
