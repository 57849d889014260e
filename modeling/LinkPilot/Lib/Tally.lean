import Mathlib.Data.List.Induction
import Mathlib.Data.List.Nodup
import Mathlib.Data.List.Perm.Basic

/-!
# Tallies and stable sorts

A hash map that is filled from a list, entry by entry, as the list of its entries; and what a stable
sort of the entries of such a map can depend on.

* `nodup_group`, `mem_group_iff` — the keys of the map are distinct, and an entry holds the fold of
  the elements with its key.
* `sort_perm`, `sort_ne_of_tie` — a stable sort does not depend on the order of its input, unless
  two different elements tie.
-/

set_option autoImplicit false

namespace Tally

universe u v w

/-! ## Maps filled from a list -/

section Group

variable {α : Type u} {κ : Type v} {ν : Type w} [DecidableEq κ]

/-- `f` applied to the value of the key, which is `start` when the map does not have the key. -/
def upsert (k : κ) (start : ν) (f : ν → ν) : List (κ × ν) → List (κ × ν)
  | [] => [(k, f start)]
  | (k', v) :: m => if k' = k then (k', f v) :: m else (k', v) :: upsert k start f m

/-- The map of a list. -/
def group (key : α → κ) (start : ν) (f : ν → α → ν) (l : List α) : List (κ × ν) :=
  l.foldl (fun m a => upsert (key a) start (fun v => f v a) m) []

/-- The elements with a key, in their order. -/
def withKey (key : α → κ) (k : κ) (l : List α) : List α := l.filter fun a => key a = k

theorem mem_keys_upsert {k k' : κ} {start : ν} {f : ν → ν} {m : List (κ × ν)} :
    k' ∈ (upsert k start f m).map Prod.fst ↔ k' = k ∨ k' ∈ m.map Prod.fst := by
  induction m with
  | nil => simp [upsert]
  | cons e m ih =>
    obtain ⟨k'', v⟩ := e
    rw [upsert]
    split
    · rename_i heq
      subst heq
      simp
    · simp only [List.map_cons, List.mem_cons, ih]
      exact or_left_comm

theorem nodup_upsert {k : κ} {start : ν} {f : ν → ν} {m : List (κ × ν)}
    (h : (m.map Prod.fst).Nodup) : ((upsert k start f m).map Prod.fst).Nodup := by
  induction m with
  | nil => simp [upsert]
  | cons e m ih =>
    obtain ⟨k', v⟩ := e
    rw [List.map_cons, List.nodup_cons] at h
    rw [upsert]
    split
    · rw [List.map_cons, List.nodup_cons]
      exact h
    · rename_i hne
      rw [List.map_cons, List.nodup_cons, mem_keys_upsert]
      exact ⟨not_or.mpr ⟨hne, h.1⟩, ih h.2⟩

theorem lookup_upsert {k k' : κ} {start : ν} {f : ν → ν} {m : List (κ × ν)} :
    (upsert k start f m).lookup k' =
      if k' = k then some (f ((m.lookup k).getD start)) else m.lookup k' := by
  have hbeq : ∀ {a b : κ}, a ≠ b → (a == b) = false := fun h => beq_eq_false_iff_ne.mpr h
  induction m with
  | nil =>
    rw [upsert, List.lookup_cons, List.lookup_nil, List.lookup_nil]
    by_cases heq : k' = k
    · simp [heq]
    · simp [heq, hbeq heq]
  | cons e m ih =>
    obtain ⟨k'', v⟩ := e
    rw [upsert]
    by_cases hkey : k'' = k
    · subst hkey
      rw [if_pos rfl]
      by_cases heq : k' = k''
      · simp [heq]
      · simp [List.lookup_cons, heq, hbeq heq]
    · have hkey' : k ≠ k'' := fun h => hkey h.symm
      rw [if_neg hkey]
      simp only [List.lookup_cons, ih]
      by_cases heq : k' = k''
      · subst heq
        simp [hkey]
      · simp [hbeq heq, hbeq hkey']

/-- With distinct keys an entry is what its key is looked up as. -/
theorem mem_iff_lookup {k : κ} {v : ν} {m : List (κ × ν)} (h : (m.map Prod.fst).Nodup) :
    (k, v) ∈ m ↔ m.lookup k = some v := by
  induction m with
  | nil => simp
  | cons e m ih =>
    obtain ⟨k', v'⟩ := e
    rw [List.map_cons, List.nodup_cons] at h
    rw [List.mem_cons, ih h.2, List.lookup_cons]
    by_cases heq : k = k'
    · subst heq
      have hnone : m.lookup k ≠ some v := by
        intro hv
        exact h.1 (List.mem_map.mpr ⟨(k, v), (ih h.2).mpr hv, rfl⟩)
      simp [hnone, eq_comm]
    · have hbeq : (k == k') = false := beq_eq_false_iff_ne.mpr heq
      simp [heq, hbeq]

variable (key : α → κ) (start : ν) (f : ν → α → ν)

theorem group_append_singleton (l : List α) (a : α) :
    group key start f (l ++ [a]) = upsert (key a) start (fun v => f v a) (group key start f l) := by
  unfold group
  rw [List.foldl_append]
  rfl

theorem nodup_group (l : List α) : ((group key start f l).map Prod.fst).Nodup := by
  induction l using List.reverseRecOn with
  | nil => exact List.nodup_nil
  | append_singleton l a ih =>
    rw [group_append_singleton]
    exact nodup_upsert ih

theorem lookup_group (l : List α) (k : κ) :
    (group key start f l).lookup k =
      if withKey key k l = [] then none else some ((withKey key k l).foldl f start) := by
  induction l using List.reverseRecOn with
  | nil => rfl
  | append_singleton l a ih =>
    rw [group_append_singleton, lookup_upsert]
    unfold withKey at ih ⊢
    rw [List.filter_append, List.foldl_append]
    by_cases hkey : key a = k
    · subst hkey
      rw [if_pos rfl, ih, List.filter_cons_of_pos (by simp), List.filter_nil,
        if_neg (List.append_ne_nil_of_right_ne_nil _ (List.cons_ne_nil _ _))]
      split
      · rename_i hempty
        rw [hempty]
        rfl
      · rfl
    · have hkey' : ¬ k = key a := fun h => hkey h.symm
      rw [if_neg hkey', ih, List.filter_cons_of_neg (by simp [hkey]), List.filter_nil,
        List.append_nil]
      rfl

/-- **The entries** of the map of a list. -/
theorem mem_group_iff {l : List α} {k : κ} {v : ν} :
    (k, v) ∈ group key start f l ↔
      withKey key k l ≠ [] ∧ v = (withKey key k l).foldl f start := by
  rw [mem_iff_lookup (nodup_group key start f l), lookup_group]
  split
  · rename_i hempty
    exact iff_of_false nofun fun h => h.1 hempty
  · rename_i hne
    rw [Option.some.injEq]
    exact ⟨fun h => ⟨hne, h.symm⟩, fun h => h.2.symm⟩

theorem withKey_perm {l l' : List α} (h : l.Perm l') (k : κ) :
    (withKey key k l).Perm (withKey key k l') := h.filter _

/-- Elements with two different keys are counted together under a key that both refine. -/
theorem length_withKey_add_le {ι : Type*} [DecidableEq ι] {coarse : α → ι} {c : ι} {k k' : κ}
    (hne : k ≠ k') (hk : ∀ a, key a = k → coarse a = c) (hk' : ∀ a, key a = k' → coarse a = c)
    (l : List α) :
    (withKey key k l).length + (withKey key k' l).length ≤ (withKey coarse c l).length := by
  induction l with
  | nil => simp [withKey]
  | cons a l ih =>
    simp only [withKey, List.filter_cons] at ih ⊢
    by_cases ha : key a = k
    · have hother : key a ≠ k' := fun h => hne (ha.symm.trans h)
      simp [ha, hne, hk a ha]
      omega
    · by_cases ha' : key a = k'
      · simp [ha', hne.symm, hk' a ha']
        omega
      · simp only [ha, ha', decide_false, Bool.false_eq_true, if_false]
        split
        · rw [List.length_cons]
          omega
        · exact ih

theorem length_withKey_le_of_refines {ι : Type*} [DecidableEq ι] {coarse : α → ι} {c : ι} {k : κ}
    (hk : ∀ a, key a = k → coarse a = c) (l : List α) :
    (withKey key k l).length ≤ (withKey coarse c l).length := by
  refine (List.monotone_filter_right l fun a ha => ?_).length_le
  exact decide_eq_true (hk a (of_decide_eq_true ha))

theorem length_withKey_le (k : κ) (l : List α) : (withKey key k l).length ≤ l.length :=
  List.length_filter_le _ l

end Group

/-! ## Stable sorts -/

section StableSort

variable {α : Type u} {le : α → α → Bool} {l l' : List α}

/-- Without ties the order of the input does not matter. -/
theorem sort_perm (trans : ∀ a b c, le a b = true → le b c = true → le a c = true)
    (total : ∀ a b, (le a b || le b a) = true) (h : l.Perm l')
    (hties : ∀ a ∈ l, ∀ b ∈ l, le a b = true → le b a = true → a = b) :
    l.mergeSort le = l'.mergeSort le := by
  have hperm : (l.mergeSort le).Perm (l'.mergeSort le) :=
    (List.mergeSort_perm l le).trans (h.trans (List.mergeSort_perm l' le).symm)
  refine hperm.eq_of_pairwise (fun a b ha hb => ?_) (List.pairwise_mergeSort trans total l)
    (List.pairwise_mergeSort trans total l')
  exact hties a (List.mem_mergeSort.mp ha) b (h.mem_iff.mpr (List.mem_mergeSort.mp hb))

/-- In a list of distinct elements two of them stand in one order. -/
theorem not_sublist_swap {a b : α} (hne : a ≠ b) (hnodup : l.Nodup)
    (hab : List.Sublist [a, b] l) : ¬ List.Sublist [b, a] l := by
  induction l with
  | nil => cases hab
  | cons c l ih =>
    rw [List.nodup_cons] at hnodup
    intro hba
    cases hab with
    | cons _ hab =>
      cases hba with
      | cons _ hba => exact ih hnodup.2 hab hba
      | cons_cons _ hba => exact hnodup.1 (hab.subset (by simp))
    | cons_cons _ hab =>
      cases hba with
      | cons _ hba => exact hnodup.1 (hba.subset (by simp))
      | cons_cons _ hba => exact hne rfl

/-- A stable sort leaves two elements that tie in the order of the input. -/
theorem sort_ne_of_tie (trans : ∀ a b c, le a b = true → le b c = true → le a c = true)
    (total : ∀ a b, (le a b || le b a) = true) (hnodup : l.Nodup) {a b : α} (hne : a ≠ b)
    (hab : le a b = true) (hba : le b a = true) (h : List.Sublist [a, b] l)
    (h' : List.Sublist [b, a] l') : l.mergeSort le ≠ l'.mergeSort le := by
  intro heq
  have hsorted := List.pair_sublist_mergeSort trans total hab h
  have hsorted' := List.pair_sublist_mergeSort trans total hba h'
  rw [← heq] at hsorted'
  have hdistinct : (l.mergeSort le).Nodup := (List.mergeSort_perm l le).nodup_iff.mpr hnodup
  exact not_sublist_swap hne hdistinct hsorted hsorted'

end StableSort

end Tally
