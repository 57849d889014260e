import LinkPilot.Lib.Interleaving

/-!
# Calls under one mutex

Threads call procedures on a shared state.  A call takes the mutex first, then makes one move after
the other, and releases the mutex when it has none left.  The moves of one call are never mixed with
those of another one.

* `Reach` — how far a call has come on the state it found.
* `Atomic` — a meaning of whole calls.
* `Serial.step` — **the calls are atomic.** The state stays what the finished calls make of the
  first one, in the order in which they took the mutex, and what the call inside has done on top.
* `Reach.returns` — a call that can come to its end returns, if nothing stops its thread.
-/

set_option autoImplicit false

namespace Mutex

open Interleaving

variable {ι κ τ σ : Type}

/-- Procedures: where a call starts, and its next move, if it has one. -/
structure Procs (κ τ σ : Type) where
  start : κ → τ
  move : τ → σ → Option (τ × σ)

/-- The shared state, the call that holds the mutex, and the calls that have returned. -/
structure State (ι κ τ σ : Type) where
  shared : σ
  inside : Option (ι × κ × τ)
  returned : List κ

/-- What a thread does. -/
inductive Event (ι κ : Type) where
  | lock (thread : ι) (call : κ)
  | move (thread : ι)
  | unlock (thread : ι)

variable [DecidableEq ι] (P : Procs κ τ σ)

def step (s : State ι κ τ σ) : Event ι κ → Option (State ι κ τ σ)
  | .lock i c =>
    match s.inside with
    | none => some { s with inside := some (i, c, P.start c) }
    | some _ => none
  | .move i =>
    match s.inside with
    | none => none
    | some (j, c, t) =>
      if i = j then
        (P.move t s.shared).map fun r => { s with shared := r.2, inside := some (j, c, r.1) }
      else none
  | .unlock i =>
    match s.inside with
    | none => none
    | some (j, c, t) =>
      if i = j then
        match P.move t s.shared with
        | none => some { s with inside := none, returned := s.returned ++ [c] }
        | some _ => none
      else none

/-- The moves of a call so far. -/
inductive Reach (c : κ) (s : σ) : τ → σ → Prop
  | start : Reach c s (P.start c) s
  | move {t t' : τ} {u u' : σ} (h : Reach c s t u) (hmove : P.move t u = some (t', u')) :
    Reach c s t' u'

/-- The effect of a call that has no move left. -/
def Atomic (call : κ → σ → σ) : Prop :=
  ∀ c s t u, Reach P c s t u → P.move t u = none → u = call c s

/-- The finished calls, one after the other. -/
def run (call : κ → σ → σ) (s : σ) (calls : List κ) : σ := calls.foldl (fun u c => call c u) s

/-- What the state is made of. -/
def Serial (call : κ → σ → σ) (s : σ) (st : State ι κ τ σ) : Prop :=
  match st.inside with
  | none => st.shared = run call s st.returned
  | some (_, c, t) => Reach P c (run call s st.returned) t st.shared

variable {P} {call : κ → σ → σ} {s : σ}

/-- What a thread can do. -/
theorem step_cases {st st' : State ι κ τ σ} {e : Event ι κ} (h : step P st e = some st') :
    (∃ i c, e = .lock i c ∧ st.inside = none ∧
      st' = { st with inside := some (i, c, P.start c) }) ∨
    (∃ i c t t' u', e = .move i ∧ st.inside = some (i, c, t) ∧
      P.move t st.shared = some (t', u') ∧
      st' = { st with shared := u', inside := some (i, c, t') }) ∨
    ∃ i c t, e = .unlock i ∧ st.inside = some (i, c, t) ∧ P.move t st.shared = none ∧
      st' = { st with inside := none, returned := st.returned ++ [c] } := by
  cases e with
  | lock i c =>
    simp only [step] at h
    split at h
    · rename_i hinside
      cases h
      exact .inl ⟨i, c, rfl, hinside, rfl⟩
    · cases h
  | move i =>
    simp only [step] at h
    split at h
    · cases h
    · rename_i j c t hinside
      split at h
      · rename_i hij
        subst hij
        obtain ⟨⟨t', u'⟩, hmove, heq⟩ := Option.map_eq_some_iff.mp h
        exact .inr (.inl ⟨i, c, t, t', u', rfl, hinside, hmove, heq.symm⟩)
      · cases h
  | unlock i =>
    simp only [step] at h
    split at h
    · cases h
    · rename_i j c t hinside
      split at h
      · rename_i hij
        subst hij
        split at h
        · rename_i hmove
          cases h
          exact .inr (.inr ⟨i, c, t, rfl, hinside, hmove, rfl⟩)
        · cases h
      · cases h

/-- **The calls are atomic.** -/
theorem Serial.step (hcall : Atomic P call) {st st' : State ι κ τ σ} {e : Event ι κ}
    (h : Serial P call s st) (hstep : Mutex.step P st e = some st') : Serial P call s st' := by
  rcases step_cases hstep with ⟨i, c, rfl, hinside, rfl⟩ |
    ⟨i, c, t, t', u', rfl, hinside, hmove, rfl⟩ | ⟨i, c, t, rfl, hinside, hmove, rfl⟩
  · rw [Serial, hinside] at h
    show Reach P c (run call s st.returned) (P.start c) st.shared
    rw [← h]
    exact .start
  · rw [Serial, hinside] at h
    exact Reach.move h hmove
  · rw [Serial, hinside] at h
    show st.shared = run call s (st.returned ++ [c])
    rw [run, List.foldl_append]
    exact hcall c _ t st.shared h hmove

/-! ## Calls that return -/

section Returns

variable {G : State ι κ τ σ → Event ι κ → Prop} {c : κ} {t t' : τ} {u u' : σ} (i : ι)
  (returned : List κ)

theorem step_move (h : P.move t u = some (t', u')) :
    step P ⟨u, some (i, c, t), returned⟩ (.move i) = some ⟨u', some (i, c, t'), returned⟩ := by
  simp [step, h]

theorem step_unlock (h : P.move t u = none) :
    step P ⟨u, some (i, c, t), returned⟩ (.unlock i) = some ⟨u, none, returned ++ [c]⟩ := by
  simp [step, h]

/-- The thread that has the mutex makes the moves of its call. -/
theorem Reach.exec (h : Reach P c s t u) (hlock : G ⟨s, none, returned⟩ (.lock i c))
    (hmove : ∀ st, G st (.move i)) :
    ∃ es, Exec (step P) G ⟨s, none, returned⟩ es ⟨u, some (i, c, t), returned⟩ := by
  induction h with
  | start => exact ⟨[.lock i c], .cons hlock rfl (.nil _)⟩
  | move _ hnext ih =>
    obtain ⟨es, hes⟩ := ih
    exact ⟨es ++ [.move i], hes.append (.cons (hmove _) (step_move i returned hnext) (.nil _))⟩

/-- **Calls return.** -/
theorem Reach.returns (h : Reach P c s t u) (hend : P.move t u = none)
    (hlock : G ⟨s, none, returned⟩ (.lock i c)) (hmove : ∀ st, G st (.move i))
    (hunlock : ∀ st, G st (.unlock i)) :
    ∃ es, Exec (step P) G ⟨s, none, returned⟩ es ⟨u, none, returned ++ [c]⟩ := by
  obtain ⟨es, hes⟩ := h.exec i returned hlock hmove
  exact ⟨es ++ [.unlock i],
    hes.append (.cons (hunlock _) (step_unlock i returned hend) (.nil _))⟩

end Returns

end Mutex
