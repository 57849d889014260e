/-!
# Interleavings of partial steps

A system is a partial step function `step : σ → α → Option σ`; `none` says that the action is
not enabled in the state.  An interleaving of several threads is a list of actions, each naming
the thread that moves.

* `run` — execute a list of actions (for concrete traces).
* `Exec step G` — executions in which every step meets the condition `G` in the state it is
  taken from; `Exec step (fun _ _ => True)` is every execution (`exec_iff_run`).
* `Exec.invariant` — the invariant rule.
* `Exec.forall_prefix`, `Exec.forall_steps` — from an invariant to every state passed and every step
  taken.
* `Exec.throughout_iff` — the steps that keep a property, and no others.
* `Exec.or_of_break` — where an execution ends that once did not meet a condition.
-/

set_option autoImplicit false

namespace Interleaving

universe u v

variable {σ : Type u} {α : Type v} {step : σ → α → Option σ} {G H : σ → α → Prop}

/-- Execute a list of actions; `none` when one of them is not enabled. -/
def run (step : σ → α → Option σ) : σ → List α → Option σ
  | s, [] => some s
  | s, a :: as =>
    match step s a with
    | none => none
    | some t => run step t as

/-- Executions whose every step meets `G`. -/
inductive Exec (step : σ → α → Option σ) (G : σ → α → Prop) : σ → List α → σ → Prop
  | nil (s : σ) : Exec step G s [] s
  | cons {s t u : σ} {a : α} {as : List α} (hG : G s a) (hs : step s a = some t)
      (h : Exec step G t as u) : Exec step G s (a :: as) u

namespace Exec

theorem run_eq {s t : σ} {as : List α} (h : Exec step G s as t) : run step s as = some t := by
  induction h with
  | nil s => rfl
  | cons _ hs _ ih => simp only [run, hs, ih]

theorem append {s t u : σ} {as bs : List α} (h : Exec step G s as t) (h' : Exec step G t bs u) :
    Exec step G s (as ++ bs) u := by
  induction h with
  | nil s => exact h'
  | cons hG hs _ ih => exact .cons hG hs (ih h')

theorem mono {s t : σ} {as : List α} (hGH : ∀ s a, G s a → H s a) (h : Exec step G s as t) :
    Exec step H s as t := by
  induction h with
  | nil s => exact .nil s
  | cons hG hs _ ih => exact .cons (hGH _ _ hG) hs ih

/-- **Invariant rule**: what every step preserves holds at the end of every execution. -/
theorem invariant {I : σ → Prop} (hI : ∀ s a t, I s → G s a → step s a = some t → I t)
    {s t : σ} {as : List α} (h : Exec step G s as t) (hs : I s) : I t := by
  induction h with
  | nil s => exact hs
  | cons hG hst _ ih => exact ih (hI _ _ _ hs hG hst)

/-- An invariant holds in every state that an execution passes through. -/
theorem forall_prefix {I : σ → Prop} (hI : ∀ s a t, I s → G s a → step s a = some t → I t)
    {s t : σ} {as : List α} (h : Exec step G s as t) (hs : I s) :
    ∀ pre u, pre <+: as → run step s pre = some u → I u := by
  induction h with
  | nil s =>
    intro pre u hpre hu
    rw [List.prefix_nil.mp hpre] at hu
    cases hu
    exact hs
  | cons hG hst _ ih =>
    intro pre u hpre hu
    rcases List.prefix_cons_iff.mp hpre with rfl | ⟨pre', rfl, hpre'⟩
    · cases hu
      exact hs
    · simp only [run, hst] at hu
      exact ih (hI _ _ _ hs hG hst) pre' u hpre' hu

/-- What an invariant gives for a step holds of every step that an execution takes. -/
theorem forall_steps {I : σ → Prop} {P : σ → α → Prop}
    (hI : ∀ s a t, I s → G s a → step s a = some t → I t)
    (hP : ∀ s a t, I s → G s a → step s a = some t → P s a)
    {s t : σ} {as : List α} (h : Exec step G s as t) (hs : I s) :
    Exec step (fun s a => G s a ∧ P s a) s as t := by
  induction h with
  | nil s => exact .nil s
  | cons hG hst _ ih => exact .cons ⟨hG, hP _ _ _ hs hG hst⟩ hst (ih (hI _ _ _ hs hG hst))

/-- **A property kept throughout.** When the invariant `I` gives `P`, a step that meets `G` keeps
`I`, and one that does not ends outside `P`, then an execution stays in `P` exactly when its every
step meets `G`. -/
theorem throughout_iff {I P : σ → Prop} (hP : ∀ s, I s → P s)
    (hkeep : ∀ s a t, I s → H s a → G s a → step s a = some t → I t)
    (hbreak : ∀ s a t, I s → H s a → step s a = some t → P t → G s a)
    {s t : σ} {as : List α} (h : Exec step H s as t) (hs : I s) :
    (∀ pre u, pre <+: as → run step s pre = some u → P u) ↔ Exec step G s as t := by
  induction h with
  | nil s =>
    refine ⟨fun _ => .nil s, ?_⟩
    intro _ pre u hpre hu
    rw [List.prefix_nil.mp hpre] at hu
    cases hu
    exact hP s hs
  | @cons s t u a as hH hst h ih =>
    constructor
    · intro hall
      have hG : G s a := hbreak s a t hs hH hst <| hall [a] t ⟨as, rfl⟩ (by simp only [run, hst])
      have hI : I t := hkeep s a t hs hH hG hst
      refine .cons hG hst ((ih hI).mp fun pre v hpre hv => ?_)
      exact hall (a :: pre) v (List.cons_prefix_cons.mpr ⟨rfl, hpre⟩) (by simp only [run, hst, hv])
    · intro hexec
      cases hexec with
      | cons hG hst' hexec =>
        rw [hst, Option.some.injEq] at hst'
        subst hst'
        have hI : I t := hkeep s a t hs hH hG hst
        intro pre v hpre hv
        rcases List.prefix_cons_iff.mp hpre with rfl | ⟨pre', rfl, hpre'⟩
        · cases hv
          exact hP s hs
        · simp only [run, hst] at hv
          exact (ih hI).mpr hexec pre' v hpre' hv

/-- An execution whose steps do not all meet `G` ends in `J`, when a step that does not leads to
`J` and `J` is never left. -/
theorem or_of_break {I J : σ → Prop} (hI : ∀ s a t, I s → H s a → step s a = some t → I t)
    (hbreak : ∀ s a t, I s → ¬ G s a → step s a = some t → J t)
    (hkeep : ∀ s a t, I s → J s → step s a = some t → J t)
    {s t : σ} {as : List α} (h : Exec step H s as t) (hs : I s) :
    Exec step G s as t ∨ J t := by
  have hstay : ∀ {s t : σ} {as : List α}, Exec step H s as t → I s → J s → J t := by
    intro s t as h hs hJ
    exact (h.invariant (I := fun s => I s ∧ J s)
      (fun s a t hIJ hH hst => ⟨hI s a t hIJ.1 hH hst, hkeep s a t hIJ.1 hIJ.2 hst⟩) ⟨hs, hJ⟩).2
  induction h with
  | nil s => exact .inl (.nil s)
  | @cons s t u a as hH hst h ih =>
    have ht : I t := hI s a t hs hH hst
    by_cases hG : G s a
    · exact (ih ht).imp_left fun hexec => .cons hG hst hexec
    · exact .inr (hstay h ht (hbreak s a t hs hG hst))

end Exec

theorem run_append {s : σ} (as bs : List α) :
    run step s (as ++ bs) = (run step s as).bind fun t => run step t bs := by
  induction as generalizing s with
  | nil => rfl
  | cons a as ih =>
    simp only [List.cons_append, run]
    cases step s a with
    | none => rfl
    | some t => exact ih

/-- A run whose actions meet `G` in every state is an execution. -/
theorem Exec.of_run {s t : σ} {as : List α} (hG : ∀ s, ∀ a ∈ as, G s a)
    (h : run step s as = some t) : Exec step G s as t := by
  induction as generalizing s with
  | nil =>
    simp only [run, Option.some.injEq] at h
    subst h
    exact .nil s
  | cons a as ih =>
    simp only [run] at h
    split at h
    · cases h
    · rename_i t' hs
      exact .cons (hG s a List.mem_cons_self) hs
        (ih (fun s b hb => hG s b (List.mem_cons_of_mem _ hb)) h)

/-- A run with one action whose condition depends on the state it is taken in. -/
theorem Exec.of_run_split {s u : σ} {a : α} {pre post : List α}
    (hpre : ∀ s, ∀ b ∈ pre, G s b) (hpost : ∀ s, ∀ b ∈ post, G s b)
    (ha : ∀ t, run step s pre = some t → G t a)
    (h : run step s (pre ++ a :: post) = some u) : Exec step G s (pre ++ a :: post) u := by
  rw [run_append, Option.bind_eq_some_iff] at h
  obtain ⟨t, ht, h⟩ := h
  simp only [run] at h
  split at h
  · cases h
  · rename_i t' hs
    exact (Exec.of_run hpre ht).append (.cons (ha t ht) hs (Exec.of_run hpost h))

/-- Every run is an execution under the condition that excludes nothing. -/
theorem exec_iff_run {s t : σ} {as : List α} :
    Exec step (fun _ _ => True) s as t ↔ run step s as = some t :=
  ⟨Exec.run_eq, Exec.of_run fun _ _ _ => trivial⟩

end Interleaving
