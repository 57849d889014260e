import Mathlib.Data.List.Basic

/-!
# Whole-value read-modify-write

A register holds a value.  An operation reads the value, computes a new one by an edit that may
fail, and writes the new value back as a whole.  Values are compared through `key`, the part of
them that edits act on.

* `serial` — the edits of a list of operations, one after the other.
* `IsSerial` — a value is, up to `key`, what some operations make of the start value one after
  the other.
* `IsSerial.publish` — writing back keeps this when the register still carries what was read.
-/

set_option autoImplicit false

namespace ReadModifyWrite

universe u v w x

variable {ι : Type u} {V : Type v} {K : Type w} {E : Type x}

/-- Apply the edits of `is` one after the other. -/
def serial (edits : ι → V → Except E V) : List ι → V → Except E V
  | [], v => .ok v
  | i :: is, v =>
    match edits i v with
    | .error e => .error e
    | .ok v' => serial edits is v'

/-- The edit sees and changes nothing but the key. -/
def Respects (key : V → K) (f : V → Except E V) : Prop :=
  ∀ v v', key v = key v' → (f v).map key = (f v').map key

/-- Up to the key, `v` is what the operations of `order` make of `start`. -/
def IsSerial (key : V → K) (edits : ι → V → Except E V) (start : V) (order : List ι) (v : V) :
    Prop :=
  ∃ v', serial edits order start = .ok v' ∧ key v' = key v

variable {key : V → K} {edits : ι → V → Except E V}

theorem serial_concat {order : List ι} {i : ι} {start v : V}
    (h : serial edits order start = .ok v) :
    serial edits (order ++ [i]) start = edits i v := by
  induction order generalizing start with
  | nil =>
    simp only [serial, Except.ok.injEq] at h
    subst h
    simp only [List.nil_append, serial]
    cases edits i start <;> rfl
  | cons j order ih =>
    rw [List.cons_append]
    simp only [serial] at h ⊢
    split at h
    · cases h
    · exact ih h

theorem isSerial_nil (start : V) : IsSerial key edits start [] start := ⟨start, rfl, rfl⟩

theorem IsSerial.congr {start v v' : V} {order : List ι} (h : IsSerial key edits start order v)
    (hk : key v' = key v) : IsSerial key edits start order v' := by
  obtain ⟨u, hu, hkey⟩ := h
  exact ⟨u, hu, hkey.trans hk.symm⟩

/-- **Publish**: an operation that read `snapshot` writes `new` over `v`.  When the register still
carries what was read, the new value is serial with that operation last. -/
theorem IsSerial.publish {start v snapshot new : V} {order : List ι} {i : ι}
    (h : IsSerial key edits start order v) (hi : Respects key (edits i))
    (hread : key snapshot = key v) (hedit : edits i snapshot = .ok new) :
    IsSerial key edits start (order ++ [i]) new := by
  obtain ⟨u, hu, hkey⟩ := h
  have hmap := hi u snapshot (hkey.trans hread.symm)
  rw [hedit] at hmap
  cases hiu : edits i u with
  | error e =>
    rw [hiu] at hmap
    cases hmap
  | ok u' =>
    rw [hiu] at hmap
    exact ⟨u', (serial_concat hu).trans hiu, Except.ok.inj hmap⟩

end ReadModifyWrite
