import LinkPilot.Lib.Interleaving
import Mathlib.Data.List.Basic
import Mathlib.Logic.Function.Basic

/-!
# Write a temp file, rename it over the target

Several writers replace one target file.  Each opens the one temp path truncated, writes its text
in chunks at its own offset, and renames the temp path over the target.  Directory entries point
to files; a writer keeps the file it opened, whatever happens to the entries.

* `Disk` — the two entries and the files, with the system calls.
* `step` — the writers, one system call at a time.
* `Whole` — the target holds its first content or the complete text of the writer that renamed last.
* `Inv`, `inv_step` — when a writer opens the temp path only while no other is writing, the target
  stays whole and every rename succeeds.
-/

set_option autoImplicit false

namespace TempRename

open Interleaving

variable {β : Type}

/-! ## Files -/

/-- The entries of the temp path and of the target, and the files by number. -/
structure Disk (β : Type) where
  files : Nat → List β
  next : Nat
  temp : Option Nat
  target : Option Nat

/-- A file after a write of `chunk` at `off`; a gap is filled. -/
def splice (fill : β) (file : List β) (off : Nat) (chunk : List β) : List β :=
  file.take off ++ List.replicate (off - file.length) fill ++ chunk ++
    file.drop (off + chunk.length)

namespace Disk

/-- `open` with create and truncate: the file, and the disk after it. -/
def openTemp (d : Disk β) : Nat × Disk β :=
  match d.temp with
  | some i => (i, { d with files := Function.update d.files i [] })
  | none =>
    (d.next, { d with
      files := Function.update d.files d.next []
      next := d.next + 1
      temp := some d.next })

def write (d : Disk β) (fill : β) (i off : Nat) (chunk : List β) : Disk β :=
  { d with files := Function.update d.files i (splice fill (d.files i) off chunk) }

/-- `rename` of the temp path over the target; `none`: there is no such entry. -/
def rename (d : Disk β) : Option (Disk β) :=
  match d.temp with
  | some i => some { d with temp := none, target := some i }
  | none => none

/-- What a reader of the target path gets. -/
def content (d : Disk β) : Option (List β) := d.target.map d.files

/-- The entries point to files that exist, and not to the same one. -/
structure WellFormed (d : Disk β) : Prop where
  temp : ∀ i, d.temp = some i → i < d.next
  target : ∀ i, d.target = some i → i < d.next
  apart : ∀ i, d.temp = some i → d.target ≠ some i

end Disk

/-- Appending at the end of a file. -/
theorem splice_end (fill : β) (file chunk : List β) :
    splice fill file file.length chunk = file ++ chunk := by
  simp [splice]

/-! ## Writers -/

/-- Where a writer stands; `tempGone`: its rename found no temp file. -/
inductive Phase (β : Type) where
  | idle
  | writing (file off : Nat) (text : List β)
  | published (text : List β)
  | failed
  | tempGone
  deriving DecidableEq

def Phase.Writing : Phase β → Prop
  | writing _ _ _ => True
  | _ => False

/-- `publisher` is the writer that renamed last. -/
structure World (β : Type) where
  disk : Disk β
  phases : Nat → Phase β
  publisher : Option Nat

inductive Action (β : Type) where
  | open (w : Nat) (text : List β)
  | write (w n : Nat)
  | fail (w : Nat)
  | rename (w : Nat)

def World.setPhase (s : World β) (w : Nat) (phase : Phase β) : Nat → Phase β :=
  Function.update s.phases w phase

def step (fill : β) (s : World β) : Action β → Option (World β)
  | .open w text =>
    match s.phases w with
    | .idle =>
      some { s with
        disk := s.disk.openTemp.2
        phases := s.setPhase w (.writing s.disk.openTemp.1 0 text) }
    | _ => none
  | .write w n =>
    match s.phases w with
    | .writing i off text =>
      if 0 < n ∧ off + n ≤ text.length then
        some { s with
          disk := s.disk.write fill i off ((text.drop off).take n)
          phases := s.setPhase w (.writing i (off + n) text) }
      else none
    | _ => none
  | .fail w =>
    match s.phases w with
    | .idle => some { s with phases := s.setPhase w .failed }
    | .writing _ _ _ => some { s with phases := s.setPhase w .failed }
    | _ => none
  | .rename w =>
    match s.phases w with
    | .writing _ off text =>
      if off = text.length then
        match s.disk.rename with
        | some d => some ⟨d, s.setPhase w (.published text), some w⟩
        | none => some { s with phases := s.setPhase w .tempGone }
      else none
    | _ => none

structure Start (s : World β) : Prop where
  disk : s.disk.WellFormed
  phases : ∀ w, s.phases w = .idle
  publisher : s.publisher = none

/-- The condition on a step: the temp path is opened only while no writer is writing. -/
def Alone (s : World β) : Action β → Prop
  | .open _ _ => ∀ v, ¬ (s.phases v).Writing
  | _ => True

/-- The target holds its first content, or the complete text of the writer that renamed last. -/
def Whole (first : Option (List β)) (s : World β) : Prop :=
  match s.publisher with
  | none => s.disk.content = first
  | some w => ∃ text, s.phases w = .published text ∧ s.disk.content = some text

/-! ## The invariant -/

structure Inv (first : Option (List β)) (s : World β) : Prop where
  disk : s.disk.WellFormed
  single : ∀ v w, (s.phases v).Writing → (s.phases w).Writing → v = w
  writing : ∀ w i off text, s.phases w = .writing i off text →
    s.disk.temp = some i ∧ s.disk.files i = text.take off ∧ off ≤ text.length
  whole : Whole first s
  present : ∀ w, s.phases w ≠ .tempGone

section Proofs

variable {fill : β} {first : Option (List β)} {s t : World β} {w : Nat}

theorem setPhase_apply (s : World β) (w v : Nat) (phase : Phase β) :
    s.setPhase w phase v = if v = w then phase else s.phases v := by
  simp [World.setPhase, Function.update_apply]

theorem inv_start (h : Start s) : Inv s.disk.content s where
  disk := h.disk
  single v w hv := by
    rw [h.phases v] at hv
    exact hv.elim
  writing w i off text hw := by
    rw [h.phases w] at hw
    cases hw
  whole := by
    unfold Whole
    rw [h.publisher]
  present w hw := by
    rw [h.phases w] at hw
    cases hw

/-- A writer that has not published does not count for what the target holds. -/
theorem whole_setPhase {phase : Phase β} {d : Disk β} (h : Whole first s)
    (hw : ∀ text, s.phases w ≠ .published text) (hd : d.content = s.disk.content) :
    Whole first { s with disk := d, phases := s.setPhase w phase } := by
  cases hp : s.publisher with
  | none =>
    simp only [Whole, hp] at h ⊢
    rw [hd, h]
  | some v =>
    simp only [Whole, hp] at h ⊢
    obtain ⟨text, hv, hc⟩ := h
    refine ⟨text, ?_, hd.trans hc⟩
    rw [setPhase_apply, if_neg]
    · exact hv
    · rintro rfl
      exact hw text hv

/-- A step that ends the writing of `w` or leaves it idle. -/
theorem inv_quit {phase : Phase β} (h : Inv first s) (hw : ∀ text, s.phases w ≠ .published text)
    (hphase : ¬ phase.Writing) (hgone : phase ≠ .tempGone) :
    Inv first { s with phases := s.setPhase w phase } where
  disk := h.disk
  single u v hu hv := by
    have hu : (s.setPhase w phase u).Writing := hu
    have hv : (s.setPhase w phase v).Writing := hv
    rw [setPhase_apply] at hu hv
    split at hu
    · exact absurd hu hphase
    · split at hv
      · exact absurd hv hphase
      · exact h.single u v hu hv
  writing v i off text hv := by
    have hv : s.setPhase w phase v = .writing i off text := hv
    rw [setPhase_apply] at hv
    split at hv
    · rw [hv] at hphase
      exact absurd trivial hphase
    · exact h.writing v i off text hv
  whole := whole_setPhase h.whole hw rfl
  present v hv := by
    have hv : s.setPhase w phase v = .tempGone := hv
    rw [setPhase_apply] at hv
    split at hv
    · exact hgone hv
    · exact h.present v hv

/-- The writer `w` writes on, to the temp file, which is no other entry's file. -/
theorem inv_writes {i off : Nat} {text : List β} {d : Disk β} (h : Inv first s)
    (hothers : ∀ v, v ≠ w → ¬ (s.phases v).Writing) (hw : ∀ text, s.phases w ≠ .published text)
    (hd : d.WellFormed) (hcontent : d.content = s.disk.content) (htemp : d.temp = some i)
    (hfile : d.files i = text.take off) (hoff : off ≤ text.length) :
    Inv first { s with disk := d, phases := s.setPhase w (.writing i off text) } where
  disk := hd
  single u v hu hv := by
    have honly : ∀ u, (s.setPhase w (.writing i off text) u).Writing → u = w := by
      intro u hu
      rw [setPhase_apply] at hu
      split at hu
      · assumption
      · rename_i hne
        exact absurd hu (hothers u hne)
    rw [honly u hu, honly v hv]
  writing v i' off' text' hv := by
    have hv : s.setPhase w (.writing i off text) v = .writing i' off' text' := hv
    rw [setPhase_apply] at hv
    split at hv
    · cases hv
      exact ⟨htemp, hfile, hoff⟩
    · rename_i hne
      exact absurd (by rw [hv]; trivial) (hothers v hne)
  whole := whole_setPhase h.whole hw hcontent
  present v hv := by
    have hv : s.setPhase w (.writing i off text) v = .tempGone := hv
    rw [setPhase_apply] at hv
    split at hv
    · cases hv
    · exact h.present v hv

/-- A change of a file that the target does not point to. -/
theorem content_update {d : Disk β} {i : Nat} {file : List β} (h : d.target ≠ some i) :
    ({ d with files := Function.update d.files i file } : Disk β).content = d.content := by
  unfold Disk.content
  cases ht : d.target with
  | none => rfl
  | some j =>
    have hij : j ≠ i := by
      rintro rfl
      exact h ht
    simp only [Option.map_some, Function.update_of_ne hij]

theorem inv_open {text : List β} (h : Inv first s) (hw : s.phases w = .idle)
    (halone : ∀ v, ¬ (s.phases v).Writing) :
    Inv first { s with
      disk := s.disk.openTemp.2
      phases := s.setPhase w (.writing s.disk.openTemp.1 0 text) } := by
  have hnew : ∀ text, s.phases w ≠ .published text := by
    rintro text hc
    rw [hw] at hc
    cases hc
  unfold Disk.openTemp
  split
  · rename_i i htemp
    have happart : s.disk.target ≠ some i := h.disk.apart i htemp
    exact inv_writes h (fun v _ => halone v) hnew ⟨h.disk.temp, h.disk.target, h.disk.apart⟩
      (content_update happart) htemp (Function.update_self ..) (Nat.zero_le _)
  · rename_i htemp
    have hfresh : s.disk.target ≠ some s.disk.next := by
      intro hc
      have := h.disk.target _ hc
      omega
    refine inv_writes h (fun v _ => halone v) hnew ⟨?_, ?_, ?_⟩ ?_ rfl (Function.update_self ..)
      (Nat.zero_le _)
    · rintro i hi
      cases hi
      show s.disk.next < s.disk.next + 1
      omega
    · intro i hi
      have := h.disk.target i hi
      show i < s.disk.next + 1
      omega
    · rintro i hi
      cases hi
      exact hfresh
    · exact content_update (d := s.disk) hfresh

theorem inv_write {i off n : Nat} {text : List β} (h : Inv first s)
    (hw : s.phases w = .writing i off text) (hn : off + n ≤ text.length) :
    Inv first { s with
      disk := s.disk.write fill i off ((text.drop off).take n)
      phases := s.setPhase w (.writing i (off + n) text) } := by
  obtain ⟨htemp, hfile, hoff⟩ := h.writing w i off text hw
  have hothers : ∀ v, v ≠ w → ¬ (s.phases v).Writing := by
    intro v hne hv
    exact hne (h.single v w hv (by rw [hw]; trivial))
  refine inv_writes h hothers ?_ ⟨h.disk.temp, h.disk.target, h.disk.apart⟩
    (content_update (h.disk.apart i htemp)) htemp ?_ hn
  · intro text' hc
    rw [hw] at hc
    cases hc
  · show Function.update s.disk.files i _ i = _
    have hlen : (text.take off).length = off := by
      rw [List.length_take]
      omega
    have hend := splice_end fill (text.take off) ((text.drop off).take n)
    rw [hlen] at hend
    rw [Function.update_self, hfile, hend, List.take_add]

theorem inv_rename {i : Nat} {text : List β} {d : Disk β} (h : Inv first s)
    (hw : s.phases w = .writing i text.length text) (hd : s.disk.rename = some d) :
    Inv first ⟨d, s.setPhase w (.published text), some w⟩ := by
  obtain ⟨htemp, hfile, -⟩ := h.writing w i _ text hw
  have hothers : ∀ v, v ≠ w → ¬ (s.phases v).Writing := by
    intro v hne hv
    exact hne (h.single v w hv (by rw [hw]; trivial))
  have honly : ∀ v, ¬ (s.setPhase w (.published text) v).Writing := by
    intro v hv
    rw [setPhase_apply] at hv
    split at hv
    · exact hv
    · rename_i hne
      exact hothers v hne hv
  unfold Disk.rename at hd
  rw [htemp] at hd
  cases hd
  refine ⟨⟨?_, ?_, ?_⟩, ?_, ?_, ?_, ?_⟩
  · rintro j hj
    cases hj
  · rintro j hj
    cases hj
    exact h.disk.temp i htemp
  · rintro j hj
    cases hj
  · exact fun u _ hu => absurd hu (honly u)
  · intro v j off text' hv
    refine absurd ?_ (honly v)
    have hv : s.setPhase w (.published text) v = .writing j off text' := hv
    rw [hv]
    trivial
  · refine ⟨text, ?_, ?_⟩
    · show s.setPhase w (.published text) w = _
      rw [setPhase_apply, if_pos rfl]
    · show some (s.disk.files i) = some text
      rw [hfile, List.take_length]
  · intro v hv
    have hv : s.setPhase w (.published text) v = .tempGone := hv
    rw [setPhase_apply] at hv
    split at hv
    · cases hv
    · exact h.present v hv

theorem inv_step {a : Action β} (h : Inv first s) (hG : Alone s a) (hs : step fill s a = some t) :
    Inv first t := by
  cases a with
  | «open» w text =>
    simp only [step] at hs
    split at hs
    · rename_i hw
      cases hs
      exact inv_open h hw hG
    · cases hs
  | write w n =>
    simp only [step] at hs
    split at hs
    · rename_i i off text hw
      split at hs
      · rename_i hn
        cases hs
        exact inv_write h hw hn.2
      · cases hs
    · cases hs
  | fail w =>
    simp only [step] at hs
    split at hs
    · rename_i hw
      cases hs
      exact inv_quit h (fun text hc => by rw [hw] at hc; cases hc) id nofun
    · rename_i hw
      cases hs
      exact inv_quit h (fun text hc => by rw [hw] at hc; cases hc) id nofun
    · cases hs
  | rename w =>
    simp only [step] at hs
    split at hs
    · rename_i i off text hw
      split at hs
      · rename_i hoff
        subst hoff
        split at hs
        · rename_i d hd
          cases hs
          exact inv_rename h hw hd
        · rename_i hd
          -- the temp entry is the writer's own file
          unfold Disk.rename at hd
          rw [(h.writing w i _ text hw).1] at hd
          cases hd
      · cases hs
    · cases hs

/-- A step moves one writer, which keeps the text it opened the temp path with. -/
theorem phases_of_step {a : Action β} (hs : step fill s a = some t) :
    ∃ v phase, t.phases = s.setPhase v phase ∧
      ((∃ i text, a = .open v text ∧ phase = .writing i 0 text) ∨
        (∃ i off off' text, s.phases v = .writing i off text ∧ phase = .writing i off' text) ∨
        (∃ i off text, s.phases v = .writing i off text ∧ phase = .published text) ∨
        phase = .failed ∨ phase = .tempGone) := by
  cases a with
  | «open» v text =>
    simp only [step] at hs
    split at hs
    · cases hs
      exact ⟨v, _, rfl, .inl ⟨_, text, rfl, rfl⟩⟩
    · cases hs
  | write v n =>
    simp only [step] at hs
    split at hs
    · rename_i i off text hv
      split at hs
      · cases hs
        exact ⟨v, _, rfl, .inr (.inl ⟨i, off, off + n, text, hv, rfl⟩)⟩
      · cases hs
    · cases hs
  | fail v =>
    simp only [step] at hs
    split at hs
    · cases hs
      exact ⟨v, _, rfl, .inr (.inr (.inr (.inl rfl)))⟩
    · cases hs
      exact ⟨v, _, rfl, .inr (.inr (.inr (.inl rfl)))⟩
    · cases hs
  | rename v =>
    simp only [step] at hs
    split at hs
    · rename_i i off text hv
      split at hs
      · split at hs
        · cases hs
          exact ⟨v, _, rfl, .inr (.inr (.inl ⟨i, off, text, hv, rfl⟩))⟩
        · cases hs
          exact ⟨v, _, rfl, .inr (.inr (.inr (.inr rfl)))⟩
      · cases hs
    · cases hs

/-- A writer that is writing was writing the same text, or has just opened the temp path. -/
theorem writing_of_step {a : Action β} {i off : Nat} {text : List β}
    (hs : step fill s a = some t) (hw : t.phases w = .writing i off text) :
    (∃ j off', s.phases w = .writing j off' text) ∨ a = .open w text := by
  obtain ⟨v, phase, hphases, hcases⟩ := phases_of_step hs
  rw [hphases, setPhase_apply] at hw
  split at hw
  · rename_i heq
    subst heq
    subst hw
    rcases hcases with ⟨j, text', rfl, hp⟩ | ⟨j, off', off'', text', hv, hp⟩ | ⟨_, _, _, _, hp⟩ |
      hp | hp
    · cases hp
      exact .inr rfl
    · cases hp
      exact .inl ⟨i, off', hv⟩
    · cases hp
    · cases hp
    · cases hp
  · exact .inl ⟨i, off, hw⟩

/-- What a writer has published is the text it was writing. -/
theorem published_of_step {a : Action β} {text : List β} (hs : step fill s a = some t)
    (hw : t.phases w = .published text) :
    s.phases w = .published text ∨ ∃ i off, s.phases w = .writing i off text := by
  obtain ⟨v, phase, hphases, hcases⟩ := phases_of_step hs
  rw [hphases, setPhase_apply] at hw
  split at hw
  · rename_i heq
    subst heq
    subst hw
    rcases hcases with ⟨_, _, _, hp⟩ | ⟨_, _, _, _, _, hp⟩ | ⟨i, off, text', hv, hp⟩ | hp | hp
    · cases hp
    · cases hp
    · cases hp
      exact .inr ⟨i, off, hv⟩
    · cases hp
    · cases hp
  · exact .inl hw

/-- A rename that succeeds makes its writer the publisher. -/
theorem publisher_of_rename (hs : step fill s (.rename w) = some t)
    (hgone : t.phases w ≠ .tempGone) : t.publisher = some w := by
  simp only [step] at hs
  split at hs
  · split at hs
    · split at hs
      · cases hs
        rfl
      · cases hs
        refine absurd ?_ hgone
        show s.setPhase w .tempGone w = _
        rw [setPhase_apply, if_pos rfl]
    · cases hs
  · cases hs

end Proofs

end TempRename
