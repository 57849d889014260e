import LinkPilot.Edits
import LinkPilot.Store
import LinkPilot.Lib.Interleaving
import LinkPilot.Lib.ReadModifyWrite
import Mathlib.Logic.Function.Basic

/-!
# Two processes, one config file

The desktop process and any number of `lpt` processes edit the same file.  Each operation reads a
snapshot, applies its edit and publishes the whole document: a GUI command reads the store's
memory, the rules page's drag-reorder the page's last refresh, an `lpt` subcommand the file.
The watcher of the desktop process reloads its memory from the file.

The file is taken as the document it holds.  `order` is ghost: the operations in the order of
their publishing.

Principal results:

* `published_on_read_serializes` — in every run in which each operation publishes over the body
  it read, the file holds what the edits of the acknowledged operations make of the first
  document, one after the other.
* `stale_snapshot_loses_rule` — a rule added by `lpt rules add` and acknowledged is overwritten
  by a GUI command that had read memory before.
-/

set_option autoImplicit false

namespace LinkPilot.LostUpdates

open Interleaving ReadModifyWrite

inductive Phase where
  | idle
  | read (snapshot : ConfigDocument)
  | edited (snapshot doc : ConfigDocument)
  | ok
  | err (message : String)

structure World where
  disk : ConfigDocument
  gui : State
  page : ConfigDocument
  phases : Nat → Phase
  order : List Nat

inductive Action where
  | read (i : Nat)
  | edit (i : Nat)
  | publish (i : Nat) (token : Uuid)
  | reload
  | refresh

/-- The document an operation reads. -/
def World.snapshot (w : World) : Edit → ConfigDocument
  | .gui _ => w.gui.doc
  | .reorder _ => w.page
  | .lpt _ => w.disk

/-- `ConfigStore::replace` in the process of the operation.  An `lpt` process has a store of its
own, which ends with it. -/
def World.replace (w : World) (e : Edit) (doc : ConfigDocument) (token : Uuid) : World :=
  match e with
  | .lpt _ => { w with disk := ((⟨doc, none⟩ : State).stamp .cli token).doc }
  | _ =>
    let gui := (w.gui.install doc).stamp .gui token
    { w with gui := gui, disk := gui.doc }

def World.setPhase (w : World) (i : Nat) (p : Phase) : Nat → Phase :=
  Function.update w.phases i p

variable (ops : Nat → Edit)

def step (w : World) : Action → Option World
  | .read i =>
    match w.phases i with
    | .idle => some { w with phases := w.setPhase i (.read (w.snapshot (ops i))) }
    | _ => none
  | .edit i =>
    match w.phases i with
    | .read snapshot =>
      match (ops i).apply snapshot with
      | .error e => some { w with phases := w.setPhase i (.err e) }
      | .ok doc => some { w with phases := w.setPhase i (.edited snapshot doc) }
    | _ => none
  | .publish i token =>
    match w.phases i with
    | .edited _ doc =>
      some { w.replace (ops i) doc token with
        phases := w.setPhase i .ok
        order := w.order ++ [i] }
    | _ => none
  | .reload => some { w with gui := w.gui.onDisk w.disk }
  | .refresh => some { w with page := w.gui.doc }

/-- Nothing has been read yet; memory and page may be behind the file. -/
structure Start (w : World) : Prop where
  phases : ∀ i, w.phases i = .idle
  order : w.order = []

/-- The condition on a step: an operation publishes while the file still holds, up to `meta`, what
the operation read. -/
def PublishedOnRead (w : World) : Action → Prop
  | .publish i _ =>
    ∀ snapshot doc, w.phases i = .edited snapshot doc → snapshot.body = w.disk.body
  | _ => True

/-- The edits respect the body. -/
theorem apply_respects (e : Edit) :
    Respects ConfigDocument.body (fun d => e.apply d) := by
  intro d d' h
  show (e.apply d).map _ = (e.apply d').map _
  rw [ConfigDocument.eq_withMeta_of_body_eq h, e.apply_withMeta]
  cases e.apply d' <;> rfl

@[simp] theorem replace_disk_body (w : World) (e : Edit) (doc : ConfigDocument) (token : Uuid) :
    (w.replace e doc token).disk.body = doc.body := by
  cases e <;> rfl

theorem setPhase_apply (w : World) (i j : Nat) (p : Phase) :
    w.setPhase i p j = if j = i then p else w.phases j := by
  simp [World.setPhase, Function.update_apply]

/-- The order lists the acknowledged operations, each once, and the file is what their edits make
of `start` in that order. -/
structure Inv (start : ConfigDocument) (w : World) : Prop where
  nodup : w.order.Nodup
  acked : ∀ i, i ∈ w.order ↔ w.phases i = .ok
  edited : ∀ i snapshot doc, w.phases i = .edited snapshot doc → (ops i).apply snapshot = .ok doc
  serial : IsSerial ConfigDocument.body (fun i d => (ops i).apply d) start w.order w.disk

section Inv

variable {ops} {start : ConfigDocument} {w w' : World}

theorem inv_start (h : Start w) : Inv ops w.disk w where
  nodup := by rw [h.order]; exact .nil
  acked i := by simp [h.order, h.phases i]
  edited i snapshot doc hp := by rw [h.phases i] at hp; cases hp
  serial := by rw [h.order]; exact isSerial_nil _

/-- A step of one operation that neither publishes nor had published. -/
theorem inv_setPhase {i : Nat} {p : Phase} (h : Inv ops start w) (hold : w.phases i ≠ .ok)
    (hnew : p ≠ .ok) (hp : ∀ snapshot doc, p = .edited snapshot doc →
      (ops i).apply snapshot = .ok doc) :
    Inv ops start { w with phases := w.setPhase i p } where
  nodup := h.nodup
  acked j := by
    show j ∈ w.order ↔ w.setPhase i p j = .ok
    rw [setPhase_apply, h.acked j]
    split
    · rename_i hj
      subst hj
      exact ⟨fun h => absurd h hold, fun h => absurd h hnew⟩
    · rfl
  edited j snapshot doc hj := by
    have hset : w.setPhase i p j = .edited snapshot doc := hj
    rw [setPhase_apply] at hset
    split at hset
    · rename_i hji
      rw [hji]
      exact hp snapshot doc hset
    · exact h.edited j snapshot doc hset
  serial := h.serial

theorem inv_publish {i : Nat} {token : Uuid} {snapshot doc : ConfigDocument}
    (h : Inv ops start w) (hi : w.phases i = .edited snapshot doc)
    (hread : snapshot.body = w.disk.body) :
    Inv ops start { w.replace (ops i) doc token with
      phases := w.setPhase i .ok
      order := w.order ++ [i] } where
  nodup := by
    have hnot : i ∉ w.order := by
      rw [h.acked i, hi]
      intro hc
      cases hc
    show (w.order ++ [i]).Nodup
    rw [List.nodup_append]
    refine ⟨h.nodup, by simp, ?_⟩
    intro a ha b hb
    rw [List.mem_singleton] at hb
    subst hb
    rintro rfl
    exact hnot ha
  acked j := by
    show j ∈ w.order ++ [i] ↔ w.setPhase i .ok j = .ok
    rw [setPhase_apply, List.mem_append, List.mem_singleton, h.acked j]
    split
    · rename_i hj
      exact ⟨fun _ => rfl, fun _ => .inr hj⟩
    · rename_i hj
      exact ⟨fun h => h.resolve_right hj, .inl⟩
  edited j snapshot' doc' hj := by
    have hset : w.setPhase i .ok j = .edited snapshot' doc' := hj
    rw [setPhase_apply] at hset
    split at hset
    · cases hset
    · exact h.edited j snapshot' doc' hset
  serial := by
    have hpub := h.serial.publish (i := i) (apply_respects (ops i)) hread
      (h.edited i snapshot doc hi)
    exact hpub.congr (replace_disk_body w (ops i) doc token)

theorem inv_step {a : Action} (h : Inv ops start w) (hG : PublishedOnRead w a)
    (hs : step ops w a = some w') : Inv ops start w' := by
  cases a with
  | read i =>
    simp only [step] at hs
    split at hs
    · rename_i hi
      cases hs
      exact inv_setPhase h (by rw [hi]; intro hc; cases hc) (by intro hc; cases hc)
        (by intro _ _ hc; cases hc)
    · cases hs
  | edit i =>
    simp only [step] at hs
    split at hs
    · rename_i snapshot hi
      have hold : w.phases i ≠ .ok := by
        rw [hi]
        intro hc
        cases hc
      split at hs
      · cases hs
        exact inv_setPhase h hold (by intro hc; cases hc) (by intro _ _ hc; cases hc)
      · rename_i doc hdoc
        cases hs
        refine inv_setPhase h hold (by intro hc; cases hc) ?_
        intro s d hsd
        cases hsd
        exact hdoc
    · cases hs
  | publish i token =>
    simp only [step] at hs
    split at hs
    · rename_i snapshot doc hi
      cases hs
      exact inv_publish h hi (hG snapshot doc hi)
    · cases hs
  | reload =>
    cases hs
    exact ⟨h.nodup, h.acked, h.edited, h.serial⟩
  | refresh =>
    cases hs
    exact ⟨h.nodup, h.acked, h.edited, h.serial⟩

end Inv

/-- **No lost updates.** In every run in which each operation publishes over the body it read, the
acknowledged operations have an order such that the file holds, up to `meta`, what their edits
make of the first document one after the other. -/
theorem published_on_read_serializes {w w' : World} {as : List Action} (h0 : Start w)
    (h : Exec (step ops) PublishedOnRead w as w') :
    ∃ order : List Nat, order.Nodup ∧ (∀ i, i ∈ order ↔ w'.phases i = .ok) ∧
      ∃ d, serial (fun i d => (ops i).apply d) order w.disk = .ok d ∧ d.body = w'.disk.body := by
  have hinv : Inv ops w.disk w' :=
    h.invariant (I := Inv ops w.disk) (fun _ _ _ hi hG hs => inv_step hi hG hs) (inv_start h0)
  exact ⟨w'.order, hinv.nodup, hinv.acked, hinv.serial⟩

/-! ## A GUI command and an `lpt` run -/

/-- A desktop process whose memory and page agree with the file. -/
def synced (d : ConfigDocument) : World :=
  ⟨d, ⟨d, d.metaBlock.lastWriterToken⟩, d, fun _ => .idle, []⟩

def blockRule : Rule := ⟨5#128, true, .always, .block, .gui, none, none⟩

/-- Operation 0 is `lpt rules add`, operation 1 the tray's smart-routing switch. -/
def addAndSwitch : Nat → Edit
  | 0 => .lpt (.rulesAdd blockRule)
  | _ => .gui (.setSmartRouting false)

/-- The switch is flipped after the watcher has reloaded the added rule. -/
def reloaded : List Action :=
  [.read 0, .edit 0, .publish 0 1#128, .reload, .read 1, .edit 1, .publish 1 2#128]

theorem published_on_read_serializes_reloaded :
    ∃ w, run (step addAndSwitch) (synced (.withDefault (.new "chrome"))) reloaded = some w ∧
      ∃ order : List Nat, order.Nodup ∧ (∀ i, i ∈ order ↔ w.phases i = .ok) ∧
        ∃ d, serial (fun i d => (addAndSwitch i).apply d) order
            (synced (.withDefault (.new "chrome"))).disk = .ok d ∧ d.body = w.disk.body := by
  have hexec : ∃ w, Exec (step addAndSwitch) PublishedOnRead
      (synced (.withDefault (.new "chrome"))) reloaded w := by
    refine ⟨_, .cons trivial rfl <| .cons trivial rfl <| .cons ?_ rfl <| .cons trivial rfl <|
      .cons trivial rfl <| .cons trivial rfl <| .cons ?_ rfl <| .nil _⟩
    · intro snapshot doc h
      cases h
      rfl
    · intro snapshot doc h
      cases h
      rfl
  obtain ⟨w, h⟩ := hexec
  exact ⟨w, h.run_eq, published_on_read_serializes addAndSwitch ⟨fun _ => rfl, rfl⟩ h⟩

/-- The switch reads memory before the rule is added and publishes after. -/
def stale : List Action :=
  [.read 1, .read 0, .edit 0, .publish 0 1#128, .edit 1, .publish 1 2#128]

/-- Both operations return Ok and the added rule is gone: in either serial order the file would
hold it. -/
theorem stale_snapshot_loses_rule :
    ∃ w, run (step addAndSwitch) (synced (.withDefault (.new "chrome"))) stale = some w ∧
      w.phases 0 = .ok ∧ w.phases 1 = .ok ∧ w.disk.rules.length = 0 ∧
      ∀ order, order = [0, 1] ∨ order = [1, 0] →
        ∃ d, serial (fun i d => (addAndSwitch i).apply d) order
            (synced (.withDefault (.new "chrome"))).disk = .ok d ∧
          d.rules.length = 1 ∧ d.body ≠ w.disk.body := by
  refine ⟨_, rfl, rfl, rfl, rfl, ?_⟩
  rintro order (rfl | rfl)
  · refine ⟨_, rfl, rfl, fun h => ?_⟩
    have hlen := congrArg (fun d => d.rules.length) h
    cases hlen
  · refine ⟨_, rfl, rfl, fun h => ?_⟩
    have hlen := congrArg (fun d => d.rules.length) h
    cases hlen

end LinkPilot.LostUpdates
