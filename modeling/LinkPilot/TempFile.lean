import LinkPilot.Lib.TempRename
import LinkPilot.Store

/-!
# The config file under concurrent writers

Interleavings of `ConfigStore::persist` calls of any number of store instances on one path, after
`crates/core/src/config/store.rs`.  Every instance, in whatever process, writes the same
`config.json.tmp`: `std::fs::write` opens it truncated and writes the text in chunks, then
`std::fs::rename` moves it over the config path.

Principal results:

* `config_never_torn` — in every run in which a persist opens the temp file only while no other is
  writing it, the config path always holds its first content or the complete text of the persist
  that renamed last, and every persist that renames publishes its own text.
* `publishes_truncated` — a persist that opens the temp file between the last write of another and
  its rename: the other publishes an empty file, and its own rename fails.
-/

set_option autoImplicit false

namespace LinkPilot.TempFile

open Interleaving

/-- A `persist` call: its store instance, and the writer and token that it stamps. -/
structure PersistCall where
  inst : Nat
  writer : WriterId
  token : Uuid

/-- The memory of the instances, the JSON that each call has serialized, and the files. -/
structure World where
  states : Nat → State
  texts : Nat → Option (List UInt8)
  files : TempRename.World UInt8

inductive Action where
  | install (i : Nat) (doc : ConfigDocument)
  | stamp (p : Nat)
  | openTemp (p : Nat)
  | write (p n : Nat)
  | fail (p : Nat)
  | rename (p : Nat)

/-- What a reader of the config path gets. -/
def World.config (w : World) : Option (List UInt8) := w.files.disk.content

section Model

variable (codec : Codec (List UInt8)) (calls : Nat → PersistCall)

/-- The state that a call leaves in memory. -/
def stamped (w : World) (p : Nat) : State :=
  (w.states (calls p).inst).stamp (calls p).writer (calls p).token

def onFiles (w : World) (a : TempRename.Action UInt8) : Option World :=
  (TempRename.step 0 w.files a).map fun f => { w with files := f }

def step (w : World) : Action → Option World
  | .install i doc => some { w with states := Function.update w.states i ((w.states i).install doc) }
  | .stamp p =>
    match w.texts p, w.files.phases p with
    | none, .idle =>
      some { w with
        states := Function.update w.states (calls p).inst (stamped calls w p)
        texts := Function.update w.texts p
          (some (codec.toStringPretty (stamped calls w p).doc)) }
    | _, _ => none
  | .openTemp p =>
    match w.texts p with
    | some json => onFiles w (.open p json)
    | none => none
  | .write p n => onFiles w (.write p n)
  | .fail p => onFiles w (.fail p)
  | .rename p => onFiles w (.rename p)

/-- No call has begun. -/
structure Start (w : World) : Prop where
  texts : ∀ p, w.texts p = none
  files : TempRename.Start w.files

/-- The condition on a step: a persist opens the temp file only while no persist is writing it. -/
def OpensAlone (w : World) : Action → Prop
  | .openTemp _ => ∀ q, ¬ (w.files.phases q).Writing
  | _ => True

/-- The text is the one that the call serialized: some document, under the call's own stamp. -/
def IsTextOf (p : Nat) (json : List UInt8) : Prop :=
  ∃ s : State, json = codec.toStringPretty (s.stamp (calls p).writer (calls p).token).doc

/-- The call has returned Ok, and the config path holds the text that it serialized. -/
def Published (w : World) (p : Nat) : Prop :=
  ∃ json, IsTextOf codec calls p json ∧ w.texts p = some json ∧
    w.files.phases p = .published json ∧ w.config = some json

/-- The config path holds its first content, or what the persist that renamed last published. -/
def NotTorn (first : Option (List UInt8)) (w : World) : Prop :=
  match w.files.publisher with
  | none => w.config = first
  | some p => Published codec calls w p

/-- A rename publishes the text of its own call. -/
def PublishesOwn (w : World) : Action → Prop
  | .rename p => ∀ w', step codec calls w (.rename p) = some w' → Published codec calls w' p
  | _ => True

/-- The files are whole, every text in the files is its call's, and so is every text in memory. -/
structure Inv (first : Option (List UInt8)) (w : World) : Prop where
  files : TempRename.Inv first w.files
  writing : ∀ p i off json, w.files.phases p = .writing i off json → w.texts p = some json
  published : ∀ p json, w.files.phases p = .published json → w.texts p = some json
  texts : ∀ p json, w.texts p = some json → IsTextOf codec calls p json

end Model

section Proofs

variable {codec : Codec (List UInt8)} {calls : Nat → PersistCall}
  {first : Option (List UInt8)} {w w' : World} {p : Nat}

theorem inv_start (h : Start w) : Inv codec calls w.config w where
  files := TempRename.inv_start h.files
  writing p i off json hp := by
    rw [h.files.phases p] at hp
    cases hp
  published p json hp := by
    rw [h.files.phases p] at hp
    cases hp
  texts p json hp := by
    rw [h.texts p] at hp
    cases hp

theorem onFiles_eq {a : TempRename.Action UInt8} (h : onFiles w a = some w') :
    ∃ f, TempRename.step 0 w.files a = some f ∧ w' = { w with files := f } := by
  obtain ⟨f, hf, rfl⟩ := Option.map_eq_some_iff.mp h
  exact ⟨f, hf, rfl⟩

/-- A call's texts stay those that it serialized when its phase comes from one that had them. -/
theorem inv_files {a : TempRename.Action UInt8} (h : Inv codec calls first w)
    (hG : TempRename.Alone w.files a)
    (hopen : ∀ p json, a = .open p json → w.texts p = some json)
    (hs : onFiles w a = some w') : Inv codec calls first w' := by
  obtain ⟨f, hf, rfl⟩ := onFiles_eq hs
  refine ⟨TempRename.inv_step h.files hG hf, ?_, ?_, h.texts⟩
  · intro p i off json hp
    have hp : f.phases p = .writing i off json := hp
    rcases TempRename.writing_of_step hf hp with ⟨j, off', hold⟩ | rfl
    · exact h.writing p j off' json hold
    · exact hopen p json rfl
  · intro p json hp
    have hp : f.phases p = .published json := hp
    rcases TempRename.published_of_step hf hp with hold | ⟨i, off, hold⟩
    · exact h.published p json hold
    · exact h.writing p i off json hold

theorem inv_stamp (h : Inv codec calls first w) (htext : w.texts p = none)
    (hidle : w.files.phases p = .idle) :
    Inv codec calls first { w with
      states := Function.update w.states (calls p).inst (stamped calls w p)
      texts := Function.update w.texts p
        (some (codec.toStringPretty (stamped calls w p).doc)) } where
  files := h.files
  writing q i off json hq := by
    have hne : q ≠ p := by
      rintro rfl
      rw [hidle] at hq
      cases hq
    show Function.update w.texts p _ q = _
    rw [Function.update_of_ne hne]
    exact h.writing q i off json hq
  published q json hq := by
    have hne : q ≠ p := by
      rintro rfl
      rw [hidle] at hq
      cases hq
    show Function.update w.texts p _ q = _
    rw [Function.update_of_ne hne]
    exact h.published q json hq
  texts q json hq := by
    have hq : Function.update w.texts p _ q = some json := hq
    rw [Function.update_apply] at hq
    split at hq
    · rename_i hqp
      cases hq
      subst hqp
      exact ⟨w.states (calls q).inst, rfl⟩
    · exact h.texts q json hq

theorem inv_step {a : Action} (h : Inv codec calls first w) (hG : OpensAlone w a)
    (hs : step codec calls w a = some w') : Inv codec calls first w' := by
  cases a with
  | install i doc =>
    cases hs
    exact ⟨h.files, h.writing, h.published, h.texts⟩
  | stamp p =>
    simp only [step] at hs
    split at hs
    · rename_i htext hidle
      cases hs
      exact inv_stamp h htext hidle
    · cases hs
  | openTemp p =>
    simp only [step] at hs
    split at hs
    · rename_i json htext
      refine inv_files (a := .open p json) h hG ?_ hs
      rintro q json' hq
      cases hq
      exact htext
    · cases hs
  | write p n => exact inv_files (a := .write p n) h trivial nofun hs
  | fail p => exact inv_files (a := .fail p) h trivial nofun hs
  | rename p => exact inv_files (a := .rename p) h trivial nofun hs

/-- The publisher has published. -/
theorem published_of_publisher (h : Inv codec calls first w) (hp : w.files.publisher = some p) :
    Published codec calls w p := by
  have hwhole := h.files.whole
  simp only [TempRename.Whole, hp] at hwhole
  obtain ⟨json, hphase, hcontent⟩ := hwhole
  have htext := h.published p json hphase
  exact ⟨json, h.texts p json htext, htext, hphase, hcontent⟩

theorem notTorn_of_inv (h : Inv codec calls first w) : NotTorn codec calls first w := by
  unfold NotTorn
  split
  · rename_i hp
    have hwhole := h.files.whole
    simp only [TempRename.Whole, hp] at hwhole
    exact hwhole
  · rename_i p hp
    exact published_of_publisher h hp

theorem publishesOwn_of_inv {a : Action} (h : Inv codec calls first w) (hG : OpensAlone w a) :
    PublishesOwn codec calls w a := by
  cases a with
  | rename p =>
    intro w' hs
    have hinv : Inv codec calls first w' := inv_step h hG hs
    obtain ⟨f, hf, rfl⟩ := onFiles_eq hs
    exact published_of_publisher hinv (TempRename.publisher_of_rename hf (hinv.files.present p))
  | _ => trivial

end Proofs

/-- **The config file is never torn.** In every run in which a persist opens the temp file only
while no persist is writing it, the config path holds at every moment its first content or the
complete text of the persist that renamed last, and every rename succeeds and publishes the text
of its own call. -/
theorem config_never_torn (codec : Codec (List UInt8)) (calls : Nat → PersistCall) {w w' : World}
    {as : List Action} (h0 : Start w) (h : Exec (step codec calls) OpensAlone w as w') :
    (∀ pre u, pre <+: as → run (step codec calls) w pre = some u →
        NotTorn codec calls w.config u) ∧
      Exec (step codec calls) (fun u a => OpensAlone u a ∧ PublishesOwn codec calls u a) w as w' := by
  have hstep : ∀ s a t, Inv codec calls w.config s → OpensAlone s a →
      step codec calls s a = some t → Inv codec calls w.config t :=
    fun _ _ _ hI hG hs => inv_step hI hG hs
  refine ⟨fun pre u hpre hu => notTorn_of_inv ?_, ?_⟩
  · exact h.forall_prefix hstep (inv_start h0) pre u hpre hu
  · exact h.forall_steps hstep (fun _ _ _ hI hG _ => publishesOwn_of_inv hI hG) (inv_start h0)

/-! ## Two persists -/

/-- What `persist` of the call `p` does when no other call comes in between. -/
def persistAlone (p n : Nat) : List Action := [.stamp p, .openTemp p, .write p n, .rename p]

/-- Stands for the serializer: all it shows of a document is who wrote it. -/
def writerCodec : Codec (List UInt8) where
  toStringPretty d :=
    match d.metaBlock.lastWriter with
    | some .gui => [0x7b, 0x67, 0x7d]
    | _ => [0x7b, 0x63, 0x7d]
  parse _ := none

/-- The GUI and an `lpt` run on the same path. -/
def guiAndLpt : Nat → PersistCall
  | 0 => ⟨0, .gui, 1#128⟩
  | p => ⟨p, .cli, 2#128⟩

/-- A config file from before, and no temp file. -/
def settled : World where
  states _ := ⟨.withDefault (.new "chrome"), none⟩
  texts _ := none
  files := ⟨⟨fun _ => [0x7b, 0x7d], 1, none, some 0⟩, fun _ => .idle, none⟩

theorem settled_start : Start settled where
  texts _ := rfl
  files := by
    refine ⟨⟨nofun, ?_, nofun⟩, fun _ => rfl, rfl⟩
    intro i hi
    cases hi
    exact Nat.one_pos

theorem config_never_torn_twice :
    ∃ w, run (step writerCodec guiAndLpt) settled (persistAlone 0 3 ++ persistAlone 1 3) = some w ∧
      w.config = some [0x7b, 0x63, 0x7d] ∧
      NotTorn writerCodec guiAndLpt settled.config w := by
  have hexec : ∃ w, Exec (step writerCodec guiAndLpt) OpensAlone settled
      (persistAlone 0 3 ++ persistAlone 1 3) w ∧ w.config = some [0x7b, 0x63, 0x7d] := by
    refine ⟨_, .cons trivial rfl <| .cons (fun _ h => h) rfl <| .cons trivial rfl <|
      .cons trivial rfl <| .cons trivial rfl <| .cons ?_ rfl <| .cons trivial rfl <|
      .cons trivial rfl <| .nil _, rfl⟩
    intro p hp
    match p with
    | 0 => exact hp
    | _ + 1 => exact hp
  obtain ⟨w, hexec, hconfig⟩ := hexec
  refine ⟨w, hexec.run_eq, hconfig, ?_⟩
  exact (config_never_torn writerCodec guiAndLpt settled_start hexec).1 _ w
    (List.prefix_refl _) hexec.run_eq

/-- `lpt` opens the temp file after the GUI's last write and before its rename. -/
def opensBeforeRename : List Action :=
  [.stamp 0, .openTemp 0, .write 0 3, .stamp 1, .openTemp 1, .rename 0]

/-- The GUI's persist returns Ok with an empty config file; `lpt` then writes into the config file
itself, and its own rename finds no temp file. -/
theorem publishes_truncated :
    (∃ w, run (step writerCodec guiAndLpt) settled opensBeforeRename = some w ∧
      w.files.phases 0 = .published [0x7b, 0x67, 0x7d] ∧ w.config = some [] ∧
      ¬ NotTorn writerCodec guiAndLpt settled.config w) ∧
      ∃ w, run (step writerCodec guiAndLpt) settled
          (opensBeforeRename ++ [.write 1 1, .write 1 2, .rename 1]) = some w ∧
        w.files.phases 1 = .tempGone := by
  refine ⟨⟨_, rfl, rfl, rfl, ?_⟩, ⟨_, rfl, rfl⟩⟩
  rintro ⟨json, -, -, hphase, hconfig⟩
  cases hphase
  cases hconfig

end LinkPilot.TempFile
