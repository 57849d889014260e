import LinkPilot.Lib.Interleaving
import Mathlib.Logic.Function.Basic

/-!
# Starting and stopping daemons

Interleavings of the startup and shutdown steps of any number of daemon processes, after `main` of
`crates/headless-daemon/src/main.rs`, `serve`, `run` and `ServerHandle::drop` of
`crates/ipc/src/server.rs`, the pid file functions of `crates/core/src/daemon.rs`, and the setup
of the desktop app, which hosts a daemon of its own when its probe finds none.

Every process has a main thread and, from `serve` on, a listener task.  The socket path refers to
the listener that bound it last, if it has not been unlinked since, whether or not that listener
still runs.  The listener unlinks the path before it binds and when it is told to stop; the main
thread unlinks it before `serve` and once more when the handle is dropped.

The probe is a ping with a timeout, and a daemon that does not answer in time is taken for none.  A
step on a file may fail; all but the bind go on after it.

Principal results:

* `single_owner` — in every run in which a daemon is started only while every other is serving or
  gone, with a probe that is answered and a pid file that is written, at most one listener runs, and
  the socket path and the pid file are those of the headless daemon that has completed its startup.
* `two_daemons_serve` — two daemons that both probe before either binds; a daemon that is started
  while another is still shutting down, or does not answer; a pid file that cannot be written.
-/

set_option autoImplicit false

namespace LinkPilot.Lifecycle

open Interleaving

inductive Kind where
  | headless
  | gui
  deriving DecidableEq, Repr

/-- Where the main thread stands.  `refused` has found a daemon: the headless process has exited,
the desktop app goes on as a client. -/
inductive Main where
  | idle
  | refused
  | probed
  | pidStale
  | pidCleaned
  | pidWritten
  | socketRemoved
  | running
  | stopping
  | unlinked
  | tornDown
  | exited
  deriving DecidableEq, Repr

/-- Where the listener task stands: `removed` has unlinked the path and not yet bound it. -/
inductive Listener where
  | none
  | spawned
  | removed
  | listening
  | failed
  | closed
  deriving DecidableEq, Repr

/-- There is no listener task, not yet or not any more. -/
def Listener.Off : Listener → Prop
  | none => True
  | closed => True
  | _ => False

/-- The process is a daemon: it has passed its probe and not exited. -/
def Main.Live : Main → Prop
  | idle => False
  | refused => False
  | exited => False
  | _ => True

/-- Before `serve`, or after the runtime is gone. -/
def Main.Offline : Main → Prop
  | probed => True
  | pidStale => True
  | pidCleaned => True
  | pidWritten => True
  | socketRemoved => True
  | tornDown => True
  | _ => False

/-- The time between writing the pid file and removing it, when the process is headless. -/
def Main.HasPid : Main → Prop
  | pidWritten => True
  | socketRemoved => True
  | running => True
  | stopping => True
  | unlinked => True
  | tornDown => True
  | _ => False

/-- `process_is_alive` of the pid of a daemon process. -/
def Main.processAlive (kind : Kind) : Main → Bool
  | idle => false
  | exited => false
  | refused => kind == .gui
  | _ => true

structure World where
  main : Nat → Main
  listener : Nat → Listener
  socket : Option Nat
  pidFile : Option Nat

/-- The steps of process `d`.  `ok` says that the file could be written or removed. -/
inductive Action where
  | probe (d : Nat) (answered : Bool)
  | checkPid (d : Nat) (stale : Bool)
  | removeStale (d : Nat) (ok : Bool)
  | writePid (d : Nat) (ok : Bool)
  | removeSocket (d : Nat) (ok : Bool)
  | serve (d : Nat)
  | unlinkOld (d : Nat) (ok : Bool)
  | bind (d : Nat)
  | failListener (d : Nat)
  | signal (d : Nat)
  | unlinkListener (d : Nat) (ok : Bool)
  | unlinkHandle (d : Nat) (ok : Bool)
  | tearDown (d : Nat)
  | removePid (d : Nat) (ok : Bool)
  | crash (d : Nat)
  deriving DecidableEq, Repr

namespace World

def setMain (w : World) (d : Nat) (m : Main) : Nat → Main := Function.update w.main d m

def setListener (w : World) (d : Nat) (l : Listener) : Nat → Listener :=
  Function.update w.listener d l

/-- There is a listener at the path, which can answer a probe. -/
def answers (w : World) : Bool :=
  match w.socket with
  | some e => w.listener e == .listening
  | none => false

/-- The pid file names a process that is gone. -/
def pidIsStale (kind : Nat → Kind) (w : World) : Bool :=
  w.pidFile.any fun e => !(w.main e).processAlive (kind e)

/-- The socket path after a removal. -/
def unlinked (w : World) (ok : Bool) : Option Nat := if ok then none else w.socket

/-- The pid file after a removal. -/
def pidRemoved (w : World) (ok : Bool) : Option Nat := if ok then none else w.pidFile

/-- Startup is complete and shutdown has not begun. -/
def Complete (w : World) (d : Nat) : Prop := w.main d = .running ∧ w.listener d = .listening

/-- Between its probe and the end of its startup, or in its shutdown. -/
def InTransit (w : World) (d : Nat) : Prop := (w.main d).Live ∧ ¬ w.Complete d

end World

variable (kind : Nat → Kind)

def step (w : World) : Action → Option World
  | .probe d answered =>
    -- `send` gives up after a while
    if w.main d = .idle ∧ (answered = true → w.answers = true) then
      some { w with main := w.setMain d (if answered then .refused else .probed) }
    else none
  | .checkPid d stale =>
    if w.main d = .probed ∧ kind d = .headless ∧ (stale = true → w.pidIsStale kind = true) then
      some { w with main := w.setMain d (if stale then .pidStale else .pidCleaned) }
    else none
  | .removeStale d ok =>
    if w.main d = .pidStale then
      some { w with main := w.setMain d .pidCleaned, pidFile := w.pidRemoved ok }
    else none
  | .writePid d ok =>
    if w.main d = .pidCleaned then
      some { w with
        main := w.setMain d .pidWritten
        pidFile := if ok then some d else w.pidFile }
    else none
  | .removeSocket d ok =>
    if w.main d = .pidWritten then
      some { w with main := w.setMain d .socketRemoved, socket := w.unlinked ok }
    else none
  | .serve d =>
    if w.main d = .socketRemoved ∨ (w.main d = .probed ∧ kind d = .gui) then
      some { w with main := w.setMain d .running, listener := w.setListener d .spawned }
    else none
  | .unlinkOld d ok =>
    if w.listener d = .spawned then
      some { w with listener := w.setListener d .removed, socket := w.unlinked ok }
    else none
  | .bind d =>
    if w.listener d = .removed then
      match w.socket with
      -- the path exists
      | some _ => some { w with listener := w.setListener d .failed }
      | none => some { w with listener := w.setListener d .listening, socket := some d }
    else none
  | .failListener d =>
    -- `create_dir_all` or the bind itself
    if w.listener d = .spawned ∨ w.listener d = .removed then
      some { w with listener := w.setListener d .failed }
    else none
  | .signal d =>
    if w.main d = .running then some { w with main := w.setMain d .stopping } else none
  | .unlinkListener d ok =>
    if w.listener d = .listening ∧ (w.main d = .stopping ∨ w.main d = .unlinked) then
      some { w with listener := w.setListener d .closed, socket := w.unlinked ok }
    else none
  | .unlinkHandle d ok =>
    if w.main d = .stopping then
      some { w with main := w.setMain d .unlinked, socket := w.unlinked ok }
    else none
  | .tearDown d =>
    -- the runtime goes away, and the listener task with it
    if w.main d = .unlinked then
      some { w with main := w.setMain d .tornDown, listener := w.setListener d .closed }
    else none
  | .removePid d ok =>
    if w.main d = .tornDown then
      some { w with
        main := w.setMain d .exited
        pidFile := if kind d = .headless then w.pidRemoved ok else w.pidFile }
    else none
  | .crash d =>
    if (w.main d).processAlive (kind d) = true then
      some { w with main := w.setMain d .exited, listener := w.setListener d .closed }
    else none

/-- No process has started; a dead daemon may have left its files. -/
structure Start (w : World) : Prop where
  main : ∀ d, w.main d = .idle
  listener : ∀ d, w.listener d = .none

/-- The condition on a step: a daemon is started only while no other is starting up or shutting
down, whoever serves answers its probe, and it can write its pid file. -/
def Orderly (w : World) : Action → Prop
  | .probe _ answered => (∀ e, ¬ w.InTransit e) ∧ (w.answers = true → answered = true)
  | .writePid _ ok => ok = true
  | _ => True

/-- At most one listener runs, and a headless daemon that has completed its startup and not begun
its shutdown has the socket path and the pid file. -/
structure SingleOwner (w : World) : Prop where
  serving : ∀ d e, w.listener d = .listening → w.listener e = .listening → d = e
  socket : ∀ d, kind d = .headless → w.Complete d → w.socket = some d
  pidFile : ∀ d, kind d = .headless → w.Complete d → w.pidFile = some d

/-! ## The invariant -/

structure Inv (w : World) : Prop where
  one : ∀ d e, (w.main d).Live → (w.main e).Live → d = e
  gone : ∀ d, ¬ (w.main d).Live → (w.listener d).Off
  offline : ∀ d, (w.main d).Offline → (w.listener d).Off
  pidFile : ∀ d, kind d = .headless → (w.main d).HasPid → w.pidFile = some d
  bound : ∀ d, w.Complete d → w.socket = some d

section Proofs

variable {kind : Nat → Kind} {w w' : World} {d : Nat}

theorem Main.Offline.live {m : Main} (h : m.Offline) : m.Live := by
  cases m <;> trivial

theorem Main.HasPid.live {m : Main} (h : m.HasPid) : m.Live := by
  cases m <;> trivial

theorem inv_start (h : Start w) : Inv kind w := by
  have hidle : ∀ d, ¬ (w.main d).Live := by
    intro d hd
    rw [h.main d] at hd
    exact hd
  have hoff : ∀ d, (w.listener d).Off := by
    intro d
    rw [h.listener d]
    trivial
  refine ⟨fun d e hd => absurd hd (hidle d), fun d _ => hoff d, fun d _ => hoff d,
    fun d _ hd => absurd hd.live (hidle d), ?_⟩
  rintro d ⟨hd, -⟩
  rw [h.main d] at hd
  cases hd

theorem setMain_self (w : World) (d : Nat) (m : Main) : w.setMain d m d = m :=
  Function.update_self ..

theorem setMain_of_ne {e : Nat} (w : World) (m : Main) (h : e ≠ d) : w.setMain d m e = w.main e :=
  Function.update_of_ne h ..

theorem setListener_self (w : World) (d : Nat) (l : Listener) : w.setListener d l d = l :=
  Function.update_self ..

theorem setListener_of_ne {e : Nat} (w : World) (l : Listener) (h : e ≠ d) :
    w.setListener d l e = w.listener e :=
  Function.update_of_ne h ..

/-- A step of `d` while no other process is a daemon: only what it does to `d` counts. -/
theorem inv_moved {m : Main} {l : Listener} (h : Inv kind w)
    (hothers : ∀ e, e ≠ d → ¬ (w.main e).Live)
    (hmain : ∀ e, e ≠ d → w'.main e = w.main e)
    (hlistener : ∀ e, e ≠ d → w'.listener e = w.listener e)
    (hm : w'.main d = m) (hl : w'.listener d = l)
    (hoff : ¬ m.Live ∨ m.Offline → l.Off)
    (hpid : kind d = .headless → m.HasPid → w'.pidFile = some d)
    (hbound : m = .running → l = .listening → w'.socket = some d) : Inv kind w' := by
  subst hm hl
  have hlive : ∀ e, (w'.main e).Live → e = d := by
    intro e he
    refine Classical.byContradiction fun hne => ?_
    rw [hmain e hne] at he
    exact hothers e hne he
  refine ⟨fun e f he hf => (hlive e he).trans (hlive f hf).symm, ?_, ?_, ?_, ?_⟩
  · intro e he
    by_cases hed : e = d
    · subst hed
      exact hoff (.inl he)
    · rw [hlistener e hed]
      exact h.gone e (hothers e hed)
  · intro e he
    obtain rfl := hlive e he.live
    exact hoff (.inr he)
  · intro e hk he
    obtain rfl := hlive e he.live
    exact hpid hk he
  · intro e he
    have hlive' : (w'.main e).Live := by
      rw [he.1]
      trivial
    obtain rfl := hlive e hlive'
    exact hbound he.1 he.2

/-- A step of a process that is not a daemon and does not become one. -/
theorem inv_bystander {m : Main} {listener : Nat → Listener} (h : Inv kind w)
    (hbefore : ¬ (w.main d).Live) (hafter : ¬ m.Live) (hoff : (listener d).Off)
    (hothers : ∀ e, e ≠ d → listener e = w.listener e) :
    Inv kind { w with main := w.setMain d m, listener := listener } := by
  have hlive : ∀ e, (w.setMain d m e).Live → e ≠ d ∧ w.setMain d m e = w.main e := by
    intro e he
    by_cases hed : e = d
    · subst hed
      rw [setMain_self] at he
      exact absurd he hafter
    · exact ⟨hed, setMain_of_ne w _ hed⟩
  refine ⟨?_, ?_, ?_, ?_, ?_⟩
  · intro e f he hf
    exact h.one e f ((hlive e he).2 ▸ he) ((hlive f hf).2 ▸ hf)
  · intro e he
    by_cases hed : e = d
    · subst hed
      exact hoff
    · have he : ¬ (w.setMain d m e).Live := he
      rw [setMain_of_ne w _ hed] at he
      show (listener e).Off
      rw [hothers e hed]
      exact h.gone e he
  · intro e he
    obtain ⟨hed, hsame⟩ := hlive e (Main.Offline.live he)
    show (listener e).Off
    rw [hothers e hed]
    exact h.offline e (hsame ▸ he)
  · intro e hk he
    exact h.pidFile e hk ((hlive e (Main.HasPid.live he)).2 ▸ he)
  · rintro e ⟨hm, hl⟩
    have hm : w.setMain d m e = .running := hm
    obtain ⟨hed, hsame⟩ := hlive e (by rw [hm]; trivial)
    exact h.bound e ⟨hsame.symm.trans hm, (hothers e hed).symm.trans hl⟩

/-- A daemon that serves answers probes. -/
theorem answers_of_complete (h : Inv kind w) (hd : w.Complete d) : w.answers = true := by
  unfold World.answers
  rw [h.bound d hd]
  simp [hd.2]

theorem others_gone (h : Inv kind w) (hd : (w.main d).Live) :
    ∀ e, e ≠ d → ¬ (w.main e).Live := fun e hne he => hne (h.one e d he hd)

/-- The listener of a daemon is its task: it is there only while the process is. -/
theorem live_of_listener (h : Inv kind w) (hon : ¬ (w.listener d).Off) : (w.main d).Live :=
  Classical.byContradiction fun hlive => hon (h.gone d hlive)

/-- A step of the main thread while there is no listener. -/
theorem inv_offline {m : Main} {socket pidFile : Option Nat} (h : Inv kind w)
    (hothers : ∀ e, e ≠ d → ¬ (w.main e).Live) (hoff : (w.listener d).Off)
    (hm : m ≠ .running) (hpid : kind d = .headless → m.HasPid → pidFile = some d) :
    Inv kind ⟨w.setMain d m, w.listener, socket, pidFile⟩ := by
  exact inv_moved h hothers (fun _ he => setMain_of_ne w _ he) (fun _ _ => rfl)
    (setMain_self w d m) rfl (fun _ => hoff) hpid fun hr => absurd hr hm

/-- A step of a main thread that is starting up, or has torn its listener down. -/
theorem inv_transit {m : Main} {socket pidFile : Option Nat} (h : Inv kind w)
    (hoffline : (w.main d).Offline) (hm : m ≠ .running)
    (hpid : kind d = .headless → m.HasPid → pidFile = some d) :
    Inv kind ⟨w.setMain d m, w.listener, socket, pidFile⟩ :=
  inv_offline h (others_gone h hoffline.live) (h.offline d hoffline) hm hpid

/-- A step of the main thread while there is a listener. -/
theorem inv_shutdown {m : Main} {socket pidFile : Option Nat} (h : Inv kind w)
    (hlive : (w.main d).Live) (hm : m.Live) (honline : ¬ m.Offline) (hnotRunning : m ≠ .running)
    (hpid : kind d = .headless → m.HasPid → pidFile = some d) :
    Inv kind ⟨w.setMain d m, w.listener, socket, pidFile⟩ :=
  inv_moved h (others_gone h hlive) (fun _ he => setMain_of_ne w _ he) (fun _ _ => rfl)
    (setMain_self w d m) rfl (fun ho => ho.elim (fun hn => absurd hm hn) (fun ho => absurd ho honline))
    hpid fun hr => absurd hr hnotRunning

/-- A step of the listener task. -/
theorem inv_listener {l : Listener} {socket : Option Nat} (h : Inv kind w)
    (hon : ¬ (w.listener d).Off) (hbound : l = .listening → socket = some d) :
    Inv kind ⟨w.main, w.setListener d l, socket, w.pidFile⟩ := by
  have hlive := live_of_listener h hon
  refine inv_moved h (others_gone h hlive) (fun _ _ => rfl)
    (fun _ he => setListener_of_ne w _ he) rfl (setListener_self w d l) ?_ (h.pidFile d)
    fun _ => hbound
  rintro (hn | ho)
  · exact absurd hlive hn
  · exact absurd (h.offline d ho) hon

theorem inv_step {a : Action} (h : Inv kind w) (hG : Orderly w a)
    (hs : step kind w a = some w') : Inv kind w' := by
  cases a with
  | probe d answered =>
    simp only [step] at hs
    split at hs
    · rename_i hguard
      cases hs
      have hnot : ¬ (w.main d).Live := by
        rw [hguard.1]
        exact id
      cases answered with
      | true => exact inv_bystander h hnot id (h.gone d hnot) fun _ _ => rfl
      | false =>
        -- nobody is in transit, and whoever served would have answered
        have hothers : ∀ e, e ≠ d → ¬ (w.main e).Live := by
          intro e _ he
          exact hG.1 e ⟨he, fun hc => Bool.noConfusion (hG.2 (answers_of_complete h hc))⟩
        exact inv_offline h hothers (h.gone d hnot) nofun fun _ hp => hp.elim
    · cases hs
  | checkPid d stale =>
    simp only [step] at hs
    split at hs
    · rename_i hm
      cases hs
      have hoffline : (w.main d).Offline := by
        rw [hm.1]
        trivial
      cases stale with
      | true => exact inv_transit h hoffline nofun fun _ hp => hp.elim
      | false => exact inv_transit h hoffline nofun fun _ hp => hp.elim
    · cases hs
  | removeStale d ok =>
    simp only [step] at hs
    split at hs
    · rename_i hm
      cases hs
      exact inv_transit h (by rw [hm]; trivial) nofun fun _ hp => hp.elim
    · cases hs
  | writePid d ok =>
    simp only [step] at hs
    split at hs
    · rename_i hm
      cases hs
      refine inv_transit h (by rw [hm]; trivial) nofun fun _ _ => ?_
      rw [show ok = true from hG, if_pos rfl]
    · cases hs
  | removeSocket d ok =>
    simp only [step] at hs
    split at hs
    · rename_i hm
      cases hs
      exact inv_transit h (by rw [hm]; trivial) nofun
        fun hk _ => h.pidFile d hk (by rw [hm]; trivial)
    · cases hs
  | serve d =>
    simp only [step] at hs
    split at hs
    · rename_i hm
      cases hs
      have hlive : (w.main d).Live := by
        rcases hm with hm | hm
        · rw [hm]
          trivial
        · rw [hm.1]
          trivial
      refine inv_moved h (others_gone h hlive) (fun _ he => setMain_of_ne w _ he)
        (fun _ he => setListener_of_ne w _ he) (setMain_self w d _) (setListener_self w d _)
        (fun ho => ho.elim (fun hn => absurd trivial hn) False.elim) ?_ nofun
      intro hk _
      rcases hm with hm | hm
      · exact h.pidFile d hk (by rw [hm]; trivial)
      · rw [hm.2] at hk
        cases hk
    · cases hs
  | unlinkOld d ok =>
    simp only [step] at hs
    split at hs
    · rename_i hl
      cases hs
      exact inv_listener h (by rw [hl]; exact id) nofun
    · cases hs
  | bind d =>
    simp only [step] at hs
    split at hs
    · rename_i hl
      split at hs
      · cases hs
        exact inv_listener h (by rw [hl]; exact id) nofun
      · cases hs
        exact inv_listener h (by rw [hl]; exact id) fun _ => rfl
    · cases hs
  | failListener d =>
    simp only [step] at hs
    split at hs
    · rename_i hl
      cases hs
      exact inv_listener h (by rcases hl with hl | hl <;> rw [hl] <;> exact id) nofun
    · cases hs
  | signal d =>
    simp only [step] at hs
    split at hs
    · rename_i hm
      cases hs
      exact inv_shutdown h (by rw [hm]; trivial) trivial id nofun
        fun hk _ => h.pidFile d hk (by rw [hm]; trivial)
    · cases hs
  | unlinkListener d ok =>
    simp only [step] at hs
    split at hs
    · rename_i hl
      cases hs
      exact inv_listener h (by rw [hl.1]; exact id) nofun
    · cases hs
  | unlinkHandle d ok =>
    simp only [step] at hs
    split at hs
    · rename_i hm
      cases hs
      exact inv_shutdown h (by rw [hm]; trivial) trivial id nofun
        fun hk _ => h.pidFile d hk (by rw [hm]; trivial)
    · cases hs
  | tearDown d =>
    simp only [step] at hs
    split at hs
    · rename_i hm
      cases hs
      exact inv_moved h (others_gone h (by rw [hm]; trivial)) (fun _ he => setMain_of_ne w _ he)
        (fun _ he => setListener_of_ne w _ he) (setMain_self w d _) (setListener_self w d _)
        (fun _ => trivial) (fun hk _ => h.pidFile d hk (by rw [hm]; trivial)) nofun
    · cases hs
  | removePid d ok =>
    simp only [step] at hs
    split at hs
    · rename_i hm
      cases hs
      exact inv_transit h (by rw [hm]; trivial) nofun fun _ hp => hp.elim
    · cases hs
  | crash d =>
    simp only [step] at hs
    split at hs
    · cases hs
      by_cases hlive : (w.main d).Live
      · exact inv_moved h (others_gone h hlive) (fun _ he => setMain_of_ne w _ he)
          (fun _ he => setListener_of_ne w _ he) (setMain_self w d _) (setListener_self w d _)
          (fun _ => trivial) (fun _ hp => hp.elim) nofun
      · refine inv_bystander h hlive id ?_ fun _ he => setListener_of_ne w _ he
        rw [setListener_self]
        trivial
    · cases hs

theorem singleOwner_of_inv (h : Inv kind w) : SingleOwner kind w where
  serving d e hd he :=
    h.one d e (live_of_listener h (by rw [hd]; exact id)) (live_of_listener h (by rw [he]; exact id))
  socket d _ hd := h.bound d hd
  pidFile d hk hd := h.pidFile d hk (by rw [hd.1]; trivial)

end Proofs

/-- **Single daemon ownership.** In every run in which a daemon is started only while no other is
starting up or shutting down, in which a daemon that serves answers probes and pid files can be
written, in every state at most one listener runs, and a headless daemon that has completed its
startup and not begun its shutdown has the socket path and the pid file. -/
theorem single_owner (kind : Nat → Kind) {w w' : World} {as : List Action} (h0 : Start w)
    (h : Exec (step kind) Orderly w as w') :
    ∀ pre u, pre <+: as → run (step kind) w pre = some u → SingleOwner kind u := by
  intro pre u hpre hu
  exact singleOwner_of_inv
    (h.forall_prefix (fun _ _ _ hI hG hs => inv_step hI hG hs) (inv_start h0) pre u hpre hu)

/-! ## Two daemons -/

/-- A dead daemon has left its socket file and its pid file. -/
def leftovers : World := ⟨fun _ => .idle, fun _ => .none, some 9, some 9⟩

theorem leftovers_start : Start leftovers := ⟨fun _ => rfl, fun _ => rfl⟩

/-- The startup of a headless daemon after its probe, from the write of its pid file on. -/
def startup (d : Nat) : List Action :=
  [.writePid d true, .removeSocket d true, .serve d, .unlinkOld d true, .bind d]

def shutdown (d : Nat) : List Action :=
  [.signal d, .unlinkListener d true, .unlinkHandle d true, .tearDown d, .removePid d true]

/-- The first daemon finds the files that were left. -/
def first : List Action :=
  [.probe 0 false, .checkPid 0 true, .removeStale 0 true]

/-- The second daemon after its probe: there is no file that names a dead process. -/
def second : List Action := .checkPid 1 false :: startup 1

/-- A daemon starts, stops, and another starts. -/
def restartedAfterExit : List Action :=
  first ++ startup 0 ++ shutdown 0 ++ .probe 1 false :: second

theorem noneInTransit {w : World} (h0 : ¬ (w.main 0).Live) (hs : ∀ e, ¬ (w.main (e + 1)).Live) :
    ∀ e, ¬ w.InTransit e
  | 0 => fun he => h0 he.1
  | e + 1 => fun he => hs e he.1

theorem single_owner_restart :
    ∃ w, run (step fun _ => .headless) leftovers restartedAfterExit = some w ∧ w.Complete 1 ∧
      SingleOwner (fun _ => .headless) w := by
  have hexec : ∃ w, Exec (step fun _ => .headless) Orderly leftovers restartedAfterExit w ∧
      w.Complete 1 := by
    exact ⟨_, .cons ⟨fun _ he => he.1, nofun⟩ rfl <| .cons trivial rfl <| .cons trivial rfl <|
      .cons rfl rfl <| .cons trivial rfl <| .cons trivial rfl <| .cons trivial rfl <|
      .cons trivial rfl <| .cons trivial rfl <| .cons trivial rfl <| .cons trivial rfl <|
      .cons trivial rfl <| .cons trivial rfl <|
      .cons ⟨noneInTransit id fun _ => id, Bool.noConfusion⟩ rfl <|
      .cons trivial rfl <| .cons rfl rfl <| .cons trivial rfl <| .cons trivial rfl <|
      .cons trivial rfl <| .cons trivial rfl <| .nil _, rfl, rfl⟩
  obtain ⟨w, hexec, hcomplete⟩ := hexec
  exact ⟨w, hexec.run_eq, hcomplete,
    single_owner _ leftovers_start hexec _ w (List.prefix_refl _) hexec.run_eq⟩

/-- Both probe before either binds. -/
def probeTogether : List Action :=
  [.probe 1 false] ++ first ++ startup 0 ++ second

/-- Two daemons serve, and only the second has the socket path and the pid file. -/
theorem probeTogether_serve :
    ∃ w, run (step fun _ => .headless) leftovers probeTogether = some w ∧ w.Complete 0 ∧
      w.Complete 1 ∧ w.socket = some 1 ∧ w.pidFile = some 1 ∧
      ¬ SingleOwner (fun _ => .headless) w := by
  refine ⟨_, rfl, ⟨rfl, rfl⟩, ⟨rfl, rfl⟩, rfl, rfl, fun h => ?_⟩
  cases h.serving 0 1 rfl rfl

/-- Daemon 1 is started when the socket of daemon 0 is closed, and daemon 0 goes on shutting
down. -/
def restartedTooEarly : List Action :=
  first ++ startup 0 ++ [.signal 0, .unlinkListener 0 true] ++ .probe 1 false :: second ++
    [.unlinkHandle 0 true, .tearDown 0, .removePid 0 true]

/-- A daemon loses its socket path and its pid file to the shutdown of the one before it. -/
theorem restartedTooEarly_lost :
    ∃ w, run (step fun _ => .headless) leftovers restartedTooEarly = some w ∧ w.Complete 1 ∧
      w.socket = none ∧ w.pidFile = none ∧ ¬ SingleOwner (fun _ => .headless) w := by
  refine ⟨_, rfl, ⟨rfl, rfl⟩, rfl, rfl, fun h => ?_⟩
  cases h.socket 1 rfl ⟨rfl, rfl⟩

/-- Daemon 0 serves, but does not answer the probe of daemon 1 in time. -/
def probedInVain : List Action := first ++ startup 0 ++ .probe 1 false :: second

/-- A daemon that is only slow is taken for none. -/
theorem probedInVain_serve :
    ∃ w, run (step fun _ => .headless) leftovers probedInVain = some w ∧ w.Complete 0 ∧
      w.Complete 1 ∧ ¬ SingleOwner (fun _ => .headless) w := by
  refine ⟨_, rfl, ⟨rfl, rfl⟩, ⟨rfl, rfl⟩, fun h => ?_⟩
  cases h.serving 0 1 rfl rfl

/-- Daemon 0 cannot write its pid file. -/
def noPidFile : List Action :=
  first ++ [.writePid 0 false, .removeSocket 0 true, .serve 0, .unlinkOld 0 true, .bind 0]

theorem noPidFile_serves :
    ∃ w, run (step fun _ => .headless) leftovers noPidFile = some w ∧ w.Complete 0 ∧
      w.pidFile = none ∧ ¬ SingleOwner (fun _ => .headless) w := by
  refine ⟨_, rfl, ⟨rfl, rfl⟩, rfl, fun h => ?_⟩
  cases h.pidFile 0 rfl ⟨rfl, rfl⟩

/-- **Two daemons**, and one without its files, in each of these ways. -/
theorem two_daemons_serve :
    (∃ w, run (step fun _ => .headless) leftovers probeTogether = some w ∧ w.Complete 0 ∧
      w.Complete 1 ∧ w.socket = some 1 ∧ w.pidFile = some 1 ∧
      ¬ SingleOwner (fun _ => .headless) w) ∧
    (∃ w, run (step fun _ => .headless) leftovers restartedTooEarly = some w ∧ w.Complete 1 ∧
      w.socket = none ∧ w.pidFile = none ∧ ¬ SingleOwner (fun _ => .headless) w) ∧
    (∃ w, run (step fun _ => .headless) leftovers probedInVain = some w ∧ w.Complete 0 ∧
      w.Complete 1 ∧ ¬ SingleOwner (fun _ => .headless) w) ∧
    ∃ w, run (step fun _ => .headless) leftovers noPidFile = some w ∧ w.Complete 0 ∧
      w.pidFile = none ∧ ¬ SingleOwner (fun _ => .headless) w :=
  ⟨probeTogether_serve, restartedTooEarly_lost, probedInVain_serve, noPidFile_serves⟩

end LinkPilot.Lifecycle
