/-!
# Stable sorting

When two orders sort a list alike.

* `mergeSort_cons` — where the first element of a list goes.
* `mergeSort_eq_iff` — two orders sort a list alike exactly when they compare every two of its
  elements alike, the earlier with the later.
-/

set_option autoImplicit false

namespace StableSort

variable {α : Type} {le le' : α → α → Bool}

/-- An order that a list can be sorted by. -/
structure TotalPreorder (le : α → α → Bool) : Prop where
  trans : ∀ a b c, le a b = true → le b c = true → le a c = true
  total : ∀ a b, (le a b || le b a) = true

theorem mergeSort_of_length_le_one {l : List α} (h : l.length ≤ 1) : l.mergeSort le = l := by
  match l, h with
  | [], _ => exact List.mergeSort_nil
  | [a], _ => exact List.mergeSort_singleton a

/-- The first element goes behind the smaller ones, and before its equals. -/
theorem mergeSort_cons (h : TotalPreorder le) (a : α) (l : List α) :
    (a :: l).mergeSort le =
      ((l.mergeSort le).takeWhile fun b => !le a b) ++
        a :: (l.mergeSort le).dropWhile fun b => !le a b := by
  obtain ⟨l₁, l₂, hcons, hl, hfirst⟩ := List.mergeSort_cons h.trans h.total a l
  have hsorted := List.pairwise_mergeSort h.trans h.total (a :: l)
  rw [hcons, List.pairwise_append, List.pairwise_cons] at hsorted
  have hrest : ∀ b ∈ l₂, le a b = true := hsorted.2.1.1
  have htake : l₂.takeWhile (fun b => !le a b) = [] := by
    cases l₂ with
    | nil => rfl
    | cons b l₂ => simp [hrest b (List.mem_cons_self ..)]
  have hdrop : l₂.dropWhile (fun b => !le a b) = l₂ := by
    cases l₂ with
    | nil => rfl
    | cons b l₂ => simp [hrest b (List.mem_cons_self ..)]
  rw [hcons, hl, List.takeWhile_append_of_pos hfirst, List.dropWhile_append_of_pos hfirst, htake,
    hdrop, List.append_nil]

/-- Two tests that agree on a list cut it at the same place. -/
theorem takeWhile_congr {p q : α → Bool} {l : List α} (h : ∀ b ∈ l, p b = q b) :
    l.takeWhile p = l.takeWhile q ∧ l.dropWhile p = l.dropWhile q := by
  induction l with
  | nil => exact ⟨rfl, rfl⟩
  | cons b l ih =>
    obtain ⟨ht, hd⟩ := ih fun c hc => h c (List.mem_cons_of_mem b hc)
    rw [List.takeWhile_cons, List.takeWhile_cons, List.dropWhile_cons, List.dropWhile_cons,
      h b (List.mem_cons_self ..), ht, hd]
    exact ⟨rfl, rfl⟩

theorem mergeSort_congr (h : TotalPreorder le) (h' : TotalPreorder le') (l : List α)
    (hle : ∀ a b, [a, b].Sublist l → le a b = le' a b) : l.mergeSort le = l.mergeSort le' := by
  induction l with
  | nil => rw [List.mergeSort_nil, List.mergeSort_nil]
  | cons a l ih =>
    have ih := ih fun b c hbc => hle b c (hbc.cons a)
    have hcut : ∀ b ∈ l.mergeSort le', (!le a b) = !le' a b := by
      intro b hb
      rw [hle a b (((List.singleton_sublist).mpr (List.mem_mergeSort.mp hb)).cons_cons a)]
    rw [mergeSort_cons h, mergeSort_cons h', ih, (takeWhile_congr hcut).1, (takeWhile_congr hcut).2]

theorem le_of_mergeSort_eq (h : TotalPreorder le) (h' : TotalPreorder le') {l : List α}
    (heq : l.mergeSort le = l.mergeSort le') {a b : α} (hab : [a, b].Sublist l)
    (hle : le a b = true) : le' a b = true := by
  have hsorted := List.pairwise_mergeSort h'.trans h'.total l
  rw [← heq] at hsorted
  have hpair := hsorted.sublist (List.pair_sublist_mergeSort h.trans h.total hle hab)
  simpa using hpair

/-- Two orders sort a list alike iff they agree on every two elements of it, in their places. -/
theorem mergeSort_eq_iff (h : TotalPreorder le) (h' : TotalPreorder le') (l : List α) :
    l.mergeSort le = l.mergeSort le' ↔ ∀ a b, [a, b].Sublist l → le a b = le' a b := by
  constructor
  · intro heq a b hab
    rw [Bool.eq_iff_iff]
    exact ⟨le_of_mergeSort_eq h h' heq hab, le_of_mergeSort_eq h' h heq.symm hab⟩
  · exact mergeSort_congr h h' l

end StableSort
