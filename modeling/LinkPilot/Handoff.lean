import LinkPilot.Lib.Interleaving
import Mathlib.Logic.Function.Basic

/-!
# The update handoff

Interleavings of `prepare_and_spawn` calls, the update workers they spawn (`run_worker`), and the
death of GUI processes, after `crates/updater/src/lib.rs`.

Each call `j` runs in the GUI process `gui j` and has one job: its workspace, its worker, the
outcomes of the two `allowed()` checks, and whether `active.json` was written for it.  The install
lock is an exclusive `flock`, released by its holder or by the holder's death; a workspace goes
away when the call returns anything but `Ok(true)`, and stays when the process dies first.

Principal results:

* `handoff_safe` — in every run in which no GUI process dies between a worker's parent check and
  the record or the refusal of its handoff, a worker swaps only after the GUI process is gone and
  for a job that passed both checks and was recorded, and never for a call that refused; at most
  one worker is past the lock.
* `refused_job_installed` — a GUI process that dies after the second check said no and before the
  worker is killed: the worker installs the update.
-/

set_option autoImplicit false

namespace LinkPilot.Handoff

open Interleaving

/-! ## One job -/

/-- A return other than `Ok(true)`: `Ok(false)` or `Err`. -/
inductive Refusal where
  | okFalse
  | err
  deriving DecidableEq, Repr

/-- Where a `prepare_and_spawn` call stands.  `failing` is about to kill the worker, or not, and
to return. -/
inductive Prep where
  | idle
  | staging
  | staged
  | allowed1
  | spawned
  | readySeen
  | allowed2
  | failing (kill : Bool) (r : Refusal)
  | recorded
  | handedOver
  | refused (r : Refusal)
  deriving DecidableEq, Repr

/-- Where a worker stands: `checked` is past `load_job` and the parent check, `guiGone` past
`wait_exit`, `locked` past `Lock::acquire`, `verified` past `verify_app`. -/
inductive Worker where
  | none
  | started
  | checked
  | ready
  | guiGone
  | locked
  | verified
  | swapped
  | exited
  | killed
  deriving DecidableEq, Repr

namespace Prep

/-- The call holds the install lock, as long as its process lives. -/
def holds : Prep → Bool
  | idle => false
  | handedOver => false
  | refused _ => false
  | _ => true

/-- The handoff is recorded in `active.json`. -/
def Cleared : Prep → Prop
  | recorded => True
  | handedOver => True
  | _ => False

def Refused : Prep → Prop
  | refused _ => True
  | _ => False

/-- The first check has said yes. -/
def PastFirst : Prep → Prop
  | allowed1 => True
  | spawned => True
  | readySeen => True
  | allowed2 => True
  | recorded => True
  | handedOver => True
  | _ => False

/-- The second check has said yes. -/
def PastSecond : Prep → Prop
  | allowed2 => True
  | recorded => True
  | handedOver => True
  | _ => False

end Prep

namespace Worker

/-- Past `Lock::acquire`, and not yet done. -/
def holds : Worker → Bool
  | locked => true
  | verified => true
  | swapped => true
  | _ => false

/-- `kill(pid, 0) == 0`: a worker that ended by itself stays a zombie of its parent. -/
def alive (guiAlive : Bool) : Worker → Bool
  | none => false
  | killed => false
  | exited => guiAlive
  | _ => true

def running : Worker → Bool
  | none => false
  | killed => false
  | exited => false
  | _ => true

/-- Past the parent check and running. -/
def PastCheck : Worker → Prop
  | checked => True
  | ready => True
  | guiGone => True
  | locked => True
  | verified => True
  | swapped => True
  | _ => False

/-- Past `wait_exit` and running. -/
def PastExit : Worker → Prop
  | guiGone => True
  | locked => True
  | verified => True
  | swapped => True
  | _ => False

def PastVerify : Worker → Prop
  | verified => True
  | swapped => True
  | _ => False

end Worker

structure Job where
  prep : Prep
  worker : Worker
  workspace : Bool
  readyFile : Bool
  first : Option Bool
  second : Option Bool
  recorded : Bool

def Job.new : Job := ⟨.idle, .none, false, false, none, none, false⟩

inductive JobAction where
  | acquire
  | stage
  | failStage
  | allow1 (answer : Bool)
  | spawn
  | seeReady
  | giveUp
  | tryWaitError
  | allow2 (answer : Bool)
  | record (ok : Bool)
  | finish
  | handOver
  | check
  | writeReady
  | waitExit
  | waitTimeout
  | lock
  | verify (ok : Bool)
  | swap
  | done
  | crash
  deriving DecidableEq, Repr

/-- The call returns without a handoff: the workspace is dropped. -/
def Job.refuse (job : Job) (r : Refusal) : Job :=
  { job with prep := .refused r, workspace := false }

/-- A step of the call, in a living process. -/
def Job.prepNext (canLock : Bool) (job : Job) : JobAction → Option Job
  | .acquire =>
    if job.prep = .idle then
      some (if canLock then { job with prep := .staging } else job.refuse .err)
    else none
  | .stage =>
    if job.prep = .staging then some { job with prep := .staged, workspace := true } else none
  | .failStage =>
    if job.prep = .staging ∨ job.prep = .staged ∨ job.prep = .allowed1 then
      some (job.refuse .err)
    else none
  | .allow1 answer =>
    if job.prep = .staged then
      let job := { job with first := some answer }
      some (if answer then { job with prep := .allowed1 } else job.refuse .okFalse)
    else none
  | .spawn =>
    if job.prep = .allowed1 then some { job with prep := .spawned, worker := .started } else none
  | .seeReady =>
    if job.prep = .spawned ∧ job.readyFile = true then some { job with prep := .readySeen }
    else none
  | .giveUp => if job.prep = .spawned then some { job with prep := .failing true .err } else none
  | .tryWaitError =>
    -- `child.try_wait()?` returns without killing the worker
    if job.prep = .spawned then some { job with prep := .failing false .err } else none
  | .allow2 answer =>
    if job.prep = .readySeen then
      some { job with
        second := some answer
        prep := if answer then .allowed2 else .failing true .okFalse }
    else none
  | .record ok =>
    if job.prep = .allowed2 then
      some (if ok then { job with prep := .recorded, recorded := true }
        else { job with prep := .failing true .err })
    else none
  | .finish =>
    match job.prep with
    | .failing kill r =>
      some { job.refuse r with
        worker := if kill && job.worker.running then .killed else job.worker }
    | _ => none
  | .handOver => if job.prep = .recorded then some { job with prep := .handedOver } else none
  | _ => none

/-- A step of the worker. -/
def Job.workerNext (alive canLock : Bool) (job : Job) : JobAction → Option Job
  | .check =>
    if job.worker = .started then
      some { job with worker := if alive && job.workspace then .checked else .exited }
    else none
  | .writeReady =>
    if job.worker = .checked then
      some (if job.workspace then { job with worker := .ready, readyFile := true }
        else { job with worker := .exited })
    else none
  | .waitExit =>
    if job.worker = .ready ∧ alive = false then some { job with worker := .guiGone } else none
  | .waitTimeout =>
    if job.worker = .ready then some { job with worker := .exited } else none
  | .lock =>
    if job.worker = .guiGone then
      some { job with worker := if canLock then .locked else .exited }
    else none
  | .verify ok =>
    if job.worker = .locked then
      some { job with worker := if ok && job.workspace then .verified else .exited }
    else none
  | .swap => if job.worker = .verified then some { job with worker := .swapped } else none
  | .done => if job.worker = .swapped then some { job with worker := .exited } else none
  | .crash => if job.worker.running = true then some { job with worker := .exited } else none
  | _ => none

/-! ## All jobs -/

inductive Holder where
  | prep (j : Nat)
  | worker (j : Nat)
  deriving DecidableEq, Repr

structure World where
  alive : Nat → Bool
  jobs : Nat → Job
  lock : Option Holder
  active : Option Nat

inductive Action where
  | prep (j : Nat) (a : JobAction)
  | worker (j : Nat) (a : JobAction)
  | die (g : Nat)
  deriving DecidableEq, Repr

variable (gui : Nat → Nat)

/-- Nobody holds the lock, and `active.json` names no living process other than `self`. -/
def World.canLock (w : World) (self : Option Nat) : Bool :=
  w.lock.isNone &&
    match w.active with
    | none => true
    | some k => self == some k || !(w.jobs k).worker.alive (w.alive (gui k))

/-- The lock after the call `j` has moved: taken when it now holds it and nobody did. -/
def lockAfterPrep (lock : Option Holder) (j : Nat) (job : Job) : Option Holder :=
  if job.prep.holds then (if lock.isNone then some (.prep j) else lock)
  else if lock = some (.prep j) then none
  else lock

/-- The lock after the worker `j` has moved. -/
def lockAfterWorker (lock : Option Holder) (j : Nat) (job : Job) : Option Holder :=
  if job.worker.holds then (if lock.isNone then some (.worker j) else lock)
  else if lock = some (.worker j) then none
  else lock

def step (w : World) : Action → Option World
  | .prep j a =>
    if w.alive (gui j) = true then
      match (w.jobs j).prepNext (w.canLock gui none) a with
      | none => none
      | some job =>
        some { w with
          jobs := Function.update w.jobs j job
          lock := lockAfterPrep w.lock j job
          active := if a = .record true then some j else w.active }
    else none
  | .worker j a =>
    match (w.jobs j).workerNext (w.alive (gui j)) (w.canLock gui (some j)) a with
    | none => none
    | some job =>
      some { w with
        jobs := Function.update w.jobs j job
        lock := lockAfterWorker w.lock j job }
  | .die g =>
    some { w with
      alive := Function.update w.alive g false
      lock :=
        match w.lock with
        | some (.prep j) => if gui j = g then none else w.lock
        | _ => w.lock }

structure Start (w : World) : Prop where
  jobs : ∀ j, w.jobs j = Job.new
  lock : w.lock = none

/-- The condition on a step: when a GUI process dies, each worker of its that is past the parent
check belongs to a call that has recorded its handoff or has returned. -/
def DiesSettled (w : World) : Action → Prop
  | .die g => ∀ j, gui j = g → (w.jobs j).worker.PastCheck →
    (w.jobs j).prep.Cleared ∨ (w.jobs j).prep.Refused
  | _ => True

/-- A swap comes after the death of the GUI process, for a job that passed both checks and was
recorded, and whose call has not refused. -/
def SwapsSafely (w : World) : Action → Prop
  | .worker j .swap =>
    w.alive (gui j) = false ∧ (w.jobs j).first = some true ∧ (w.jobs j).second = some true ∧
      (w.jobs j).recorded = true ∧ ¬ (w.jobs j).prep.Refused
  | _ => True

/-! ## Invariants of one job -/

structure JobInv (alive : Bool) (job : Job) : Prop where
  first : job.prep.PastFirst → job.first = some true
  second : job.prep.PastSecond → job.second = some true
  recorded : job.prep.Cleared → job.recorded = true
  refused : job.prep.Refused → job.workspace = false
  pastExit : job.worker.PastExit → alive = false
  orphan : alive = false → job.worker.PastCheck → job.prep.Cleared ∨ job.workspace = false
  pastVerify : job.worker.PastVerify → job.prep.Cleared

section JobInv

variable {alive canLock : Bool} {job job' : Job} {a : JobAction}

theorem jobInv_new (alive : Bool) : JobInv alive Job.new := by
  refine ⟨?_, ?_, ?_, ?_, ?_, ?_, ?_⟩
  · exact fun h => h.elim
  · exact fun h => h.elim
  · exact fun h => h.elim
  · exact fun h => h.elim
  · exact fun h => h.elim
  · exact fun _ h => h.elim
  · exact fun h => h.elim

theorem PastVerify.pastExit {w : Worker} (h : w.PastVerify) : w.PastExit := by
  cases w with
  | verified => trivial
  | swapped => trivial
  | _ => exact h.elim

/-- The worker of a living process is not past `wait_exit`. -/
theorem not_pastExit (h : JobInv true job) : ¬ job.worker.PastExit :=
  fun hw => nomatch h.pastExit hw

/-- In a living process the worker's clauses hold of any call state, as long as the worker stays
where it is or is killed. -/
theorem jobInv_prep {prep : Prep} {workspace readyFile recorded : Bool} {first second : Option Bool}
    {worker : Worker} (h : JobInv true job)
    (hworker : worker = job.worker ∨ worker = .killed ∨ worker = .started)
    (h1 : prep.PastFirst → first = some true) (h2 : prep.PastSecond → second = some true)
    (h3 : prep.Cleared → recorded = true) (h4 : prep.Refused → workspace = false) :
    JobInv true ⟨prep, worker, workspace, readyFile, first, second, recorded⟩ := by
  have hexit : ¬ worker.PastExit := by
    intro hw
    rcases hworker with hold | hold | hold
    · rw [hold] at hw
      exact not_pastExit h hw
    · rw [hold] at hw
      exact hw.elim
    · rw [hold] at hw
      exact hw.elim
  refine ⟨h1, h2, h3, h4, fun hw => absurd hw hexit, ?_, fun hw => ?_⟩
  · intro hc
    cases hc
  · exact absurd (PastVerify.pastExit hw) hexit

theorem Prep.PastSecond.pastFirst {p : Prep} (h : p.PastSecond) : p.PastFirst := by
  cases p with
  | allowed2 => trivial
  | recorded => trivial
  | handedOver => trivial
  | _ => exact h.elim

theorem Prep.Cleared.pastFirst {p : Prep} (h : p.Cleared) : p.PastFirst := by
  cases p with
  | recorded => trivial
  | handedOver => trivial
  | _ => exact h.elim

/-- A call that moves to where nothing is known of it. -/
theorem jobInv_neutral {prep : Prep} {workspace readyFile recorded : Bool}
    {first second : Option Bool} (h : JobInv true job) (hfirst : ¬ prep.PastFirst)
    (hrefused : ¬ prep.Refused) :
    JobInv true ⟨prep, job.worker, workspace, readyFile, first, second, recorded⟩ :=
  jobInv_prep h (.inl rfl) (fun hp => absurd hp hfirst) (fun hp => absurd hp.pastFirst hfirst)
    (fun hp => absurd hp.pastFirst hfirst) (fun hp => absurd hp hrefused)

theorem jobInv_refuse (r : Refusal) (h : JobInv true job) : JobInv true (job.refuse r) :=
  jobInv_prep h (.inl rfl) (fun h => h.elim) (fun h => h.elim) (fun h => h.elim) (fun _ => rfl)

theorem jobInv_prepNext (h : JobInv true job) (hn : job.prepNext canLock a = some job') :
    JobInv true job' := by
  cases a with
  | acquire =>
    simp only [Job.prepNext] at hn
    split at hn
    · cases hn
      split
      · exact jobInv_neutral h id id
      · exact jobInv_refuse _ h
    · cases hn
  | stage =>
    simp only [Job.prepNext] at hn
    split at hn
    · cases hn
      exact jobInv_neutral h id id
    · cases hn
  | failStage =>
    simp only [Job.prepNext] at hn
    split at hn
    · cases hn
      exact jobInv_refuse _ h
    · cases hn
  | allow1 answer =>
    simp only [Job.prepNext] at hn
    split at hn
    · cases hn
      cases answer
      · exact jobInv_prep h (.inl rfl) (fun h => h.elim) (fun h => h.elim) (fun h => h.elim)
          (fun _ => rfl)
      · exact jobInv_prep h (.inl rfl) (fun _ => rfl) (fun h => h.elim) (fun h => h.elim)
          (fun h => h.elim)
    · cases hn
  | spawn =>
    simp only [Job.prepNext] at hn
    split at hn
    · rename_i hp
      cases hn
      exact jobInv_prep h (.inr (.inr rfl)) (fun _ => h.first (by rw [hp]; trivial))
        (fun h => h.elim) (fun h => h.elim) (fun h => h.elim)
    · cases hn
  | seeReady =>
    simp only [Job.prepNext] at hn
    split at hn
    · rename_i hp
      cases hn
      exact jobInv_prep h (.inl rfl) (fun _ => h.first (by rw [hp.1]; trivial))
        (fun h => h.elim) (fun h => h.elim) (fun h => h.elim)
    · cases hn
  | giveUp =>
    simp only [Job.prepNext] at hn
    split at hn
    · cases hn
      exact jobInv_neutral h id id
    · cases hn
  | tryWaitError =>
    simp only [Job.prepNext] at hn
    split at hn
    · cases hn
      exact jobInv_neutral h id id
    · cases hn
  | allow2 answer =>
    simp only [Job.prepNext] at hn
    split at hn
    · rename_i hp
      cases hn
      cases answer
      · exact jobInv_neutral h id id
      · exact jobInv_prep h (.inl rfl) (fun _ => h.first (by rw [hp]; trivial)) (fun _ => rfl)
          (fun h => h.elim) (fun h => h.elim)
    · cases hn
  | record ok =>
    simp only [Job.prepNext] at hn
    split at hn
    · rename_i hp
      cases hn
      cases ok
      · exact jobInv_neutral h id id
      · exact jobInv_prep h (.inl rfl) (fun _ => h.first (by rw [hp]; trivial))
          (fun _ => h.second (by rw [hp]; trivial)) (fun _ => rfl) (fun h => h.elim)
    · cases hn
  | finish =>
    simp only [Job.prepNext] at hn
    split at hn
    · rename_i kill r hp
      cases hn
      refine jobInv_prep h ?_ (fun h => h.elim) (fun h => h.elim) (fun h => h.elim) (fun _ => rfl)
      split
      · exact .inr (.inl rfl)
      · exact .inl rfl
    · cases hn
  | handOver =>
    simp only [Job.prepNext] at hn
    split at hn
    · rename_i hp
      cases hn
      exact jobInv_prep h (.inl rfl) (fun _ => h.first (by rw [hp]; trivial))
        (fun _ => h.second (by rw [hp]; trivial)) (fun _ => h.recorded (by rw [hp]; trivial))
        (fun h => h.elim)
    · cases hn
  | _ => cases hn

/-- A step of the worker that keeps its clauses. -/
theorem jobInv_worker {worker : Worker} {readyFile : Bool} (h : JobInv alive job)
    (h1 : worker.PastExit → alive = false)
    (h2 : alive = false → worker.PastCheck → job.prep.Cleared ∨ job.workspace = false)
    (h3 : worker.PastVerify → job.prep.Cleared) :
    JobInv alive { job with worker := worker, readyFile := readyFile } :=
  ⟨h.first, h.second, h.recorded, h.refused, h1, h2, h3⟩

theorem jobInv_exited {readyFile : Bool} (h : JobInv alive job) :
    JobInv alive { job with worker := .exited, readyFile := readyFile } :=
  jobInv_worker h (fun h => h.elim) (fun _ h => h.elim) (fun h => h.elim)

theorem jobInv_workerNext (h : JobInv alive job)
    (hn : job.workerNext alive canLock a = some job') : JobInv alive job' := by
  cases a with
  | check =>
    simp only [Job.workerNext] at hn
    split at hn
    · cases hn
      split
      · rename_i hc
        refine jobInv_worker h (fun h => h.elim) ?_ (fun h => h.elim)
        intro hdead
        rw [hdead] at hc
        cases hc
      · exact jobInv_exited h
    · cases hn
  | writeReady =>
    simp only [Job.workerNext] at hn
    split at hn
    · rename_i hw
      cases hn
      split
      · exact jobInv_worker h (fun h => h.elim)
          (fun hdead _ => h.orphan hdead (by rw [hw]; trivial)) (fun h => h.elim)
      · exact jobInv_exited h
    · cases hn
  | waitExit =>
    simp only [Job.workerNext] at hn
    split at hn
    · rename_i hw
      cases hn
      exact jobInv_worker h (fun _ => hw.2)
        (fun hdead _ => h.orphan hdead (by rw [hw.1]; trivial)) (fun h => h.elim)
    · cases hn
  | waitTimeout =>
    simp only [Job.workerNext] at hn
    split at hn
    · cases hn
      exact jobInv_exited h
    · cases hn
  | lock =>
    simp only [Job.workerNext] at hn
    split at hn
    · rename_i hw
      cases hn
      split
      · exact jobInv_worker h (fun _ => h.pastExit (by rw [hw]; trivial))
          (fun hdead _ => h.orphan hdead (by rw [hw]; trivial)) (fun h => h.elim)
      · exact jobInv_exited h
    · cases hn
  | verify ok =>
    simp only [Job.workerNext] at hn
    split at hn
    · rename_i hw
      cases hn
      split
      · rename_i hok
        -- the candidate is in a workspace that was never dropped
        have hdead : alive = false := h.pastExit (by rw [hw]; trivial)
        have hcleared : job.prep.Cleared := by
          rcases h.orphan hdead (by rw [hw]; trivial) with hc | hgone
          · exact hc
          · rw [hgone, Bool.and_false] at hok
            cases hok
        exact jobInv_worker h (fun _ => hdead) (fun _ _ => .inl hcleared) (fun _ => hcleared)
      · exact jobInv_exited h
    · cases hn
  | swap =>
    simp only [Job.workerNext] at hn
    split at hn
    · rename_i hw
      cases hn
      exact jobInv_worker h (fun _ => h.pastExit (by rw [hw]; trivial))
        (fun hdead _ => h.orphan hdead (by rw [hw]; trivial))
        (fun _ => h.pastVerify (by rw [hw]; trivial))
    · cases hn
  | done =>
    simp only [Job.workerNext] at hn
    split at hn
    · cases hn
      exact jobInv_exited h
    · cases hn
  | crash =>
    simp only [Job.workerNext] at hn
    split at hn
    · cases hn
      exact jobInv_exited h
    · cases hn
  | _ => cases hn

/-- The process dies with its handoffs settled. -/
theorem jobInv_die (h : JobInv alive job)
    (hG : job.worker.PastCheck → job.prep.Cleared ∨ job.prep.Refused) : JobInv false job := by
  refine ⟨h.first, h.second, h.recorded, h.refused, fun _ => rfl, ?_, h.pastVerify⟩
  intro _ hw
  rcases hG hw with hc | hr
  · exact .inl hc
  · exact .inr (h.refused hr)

end JobInv

/-! ## The lock -/

section Lock

variable {alive canLock : Bool} {job job' : Job} {a : JobAction}

/-- A call never moves its worker past the lock. -/
theorem prepNext_holds (hn : job.prepNext canLock a = some job') (h : job'.worker.holds = true) :
    job.worker.holds = true := by
  cases a with
  | finish =>
    simp only [Job.prepNext] at hn
    split at hn
    · rename_i kill r hp
      cases hn
      simp only at h
      split at h
      · cases h
      · exact h
    · cases hn
  | acquire =>
    simp only [Job.prepNext] at hn
    split at hn
    · cases hn
      split at h
      · exact h
      · exact h
    · cases hn
  | allow1 answer =>
    simp only [Job.prepNext] at hn
    split at hn
    · cases hn
      cases answer <;> exact h
    · cases hn
  | record ok =>
    simp only [Job.prepNext] at hn
    split at hn
    · cases hn
      cases ok <;> exact h
    · cases hn
  | spawn =>
    simp only [Job.prepNext] at hn
    split at hn
    · cases hn
      cases h
    · cases hn
  | stage | failStage | seeReady | giveUp | tryWaitError | allow2 answer | handOver =>
    simp only [Job.prepNext] at hn
    split at hn
    · cases hn
      exact h
    · cases hn
  | _ => cases hn

/-- A worker past the lock was past it before, or could take it. -/
theorem workerNext_holds (hn : job.workerNext alive canLock a = some job')
    (h : job'.worker.holds = true) : job.worker.holds = true ∨ canLock = true := by
  cases a with
  | check =>
    simp only [Job.workerNext] at hn
    split at hn
    · cases hn
      simp only at h
      split at h <;> cases h
    · cases hn
  | writeReady =>
    simp only [Job.workerNext] at hn
    split at hn
    · cases hn
      split at h <;> cases h
    · cases hn
  | lock =>
    simp only [Job.workerNext] at hn
    split at hn
    · cases hn
      simp only at h
      split at h
      · rename_i hc
        exact .inr hc
      · cases h
    · cases hn
  | verify ok =>
    simp only [Job.workerNext] at hn
    split at hn
    · rename_i hw
      exact .inl (by rw [hw]; rfl)
    · cases hn
  | swap =>
    simp only [Job.workerNext] at hn
    split at hn
    · rename_i hw
      exact .inl (by rw [hw]; rfl)
    · cases hn
  | waitExit | waitTimeout | done | crash =>
    simp only [Job.workerNext] at hn
    split at hn
    · cases hn
      cases h
    · cases hn
  | _ => cases hn

theorem lockAfterPrep_worker {lock : Option Holder} {j k : Nat} (h : lock = some (.worker k)) :
    lockAfterPrep lock j job = some (.worker k) := by
  unfold lockAfterPrep
  rw [h]
  split
  · rfl
  · rw [if_neg (by intro hc; cases hc)]

theorem lockAfterWorker_other {lock : Option Holder} {j k : Nat} (hne : k ≠ j)
    (h : lock = some (.worker k)) : lockAfterWorker lock j job = some (.worker k) := by
  unfold lockAfterWorker
  rw [h]
  split
  · rfl
  · rw [if_neg]
    intro hc
    cases hc
    exact hne rfl

theorem lockAfterWorker_self {lock : Option Holder} {j : Nat} (hholds : job.worker.holds = true)
    (h : lock = none ∨ lock = some (.worker j)) :
    lockAfterWorker lock j job = some (.worker j) := by
  unfold lockAfterWorker
  rw [if_pos hholds]
  rcases h with rfl | rfl <;> rfl

end Lock

/-! ## Runs -/

/-- Every job keeps its clauses, and a worker past the lock is its holder. -/
structure Inv (w : World) : Prop where
  jobs : ∀ j, JobInv (w.alive (gui j)) (w.jobs j)
  lock : ∀ j, (w.jobs j).worker.holds = true → w.lock = some (.worker j)

section Runs

variable {gui} {w w' : World}

theorem inv_start (h : Start w) : Inv gui w where
  jobs j := by rw [h.jobs j]; exact jobInv_new _
  lock j hj := by rw [h.jobs j] at hj; cases hj

theorem jobs_update {j : Nat} {job : Job} (h : Inv gui w)
    (hj : JobInv (w.alive (gui j)) job) :
    ∀ k, JobInv (w.alive (gui k)) (Function.update w.jobs j job k) := by
  intro k
  by_cases hk : k = j
  · subst hk
    rw [Function.update_self]
    exact hj
  · rw [Function.update_of_ne hk]
    exact h.jobs k

theorem inv_prep {j : Nat} {a : JobAction} (h : Inv gui w)
    (hs : step gui w (.prep j a) = some w') : Inv gui w' := by
  simp only [step] at hs
  split at hs
  · rename_i halive
    split at hs
    · cases hs
    · rename_i job hn
      cases hs
      have hj := h.jobs j
      rw [halive] at hj
      refine ⟨jobs_update h (by rw [halive]; exact jobInv_prepNext hj hn), ?_⟩
      intro k hk
      have hk : (Function.update w.jobs j job k).worker.holds = true := hk
      refine lockAfterPrep_worker (h.lock k ?_)
      by_cases hkj : k = j
      · subst hkj
        rw [Function.update_self] at hk
        exact prepNext_holds hn hk
      · rw [Function.update_of_ne hkj] at hk
        exact hk
  · cases hs

theorem inv_worker {j : Nat} {a : JobAction} (h : Inv gui w)
    (hs : step gui w (.worker j a) = some w') : Inv gui w' := by
  simp only [step] at hs
  split at hs
  · cases hs
  · rename_i job hn
    cases hs
    refine ⟨jobs_update h (jobInv_workerNext (h.jobs j) hn), ?_⟩
    intro k hk
    have hk : (Function.update w.jobs j job k).worker.holds = true := hk
    by_cases hkj : k = j
    · subst hkj
      rw [Function.update_self] at hk
      refine lockAfterWorker_self hk ?_
      rcases workerNext_holds hn hk with hold | hcan
      · exact .inr (h.lock k hold)
      · unfold World.canLock at hcan
        exact .inl (Option.isNone_iff_eq_none.mp (Bool.and_eq_true_iff.mp hcan).1)
    · rw [Function.update_of_ne hkj] at hk
      exact lockAfterWorker_other hkj (h.lock k hk)

theorem inv_die {g : Nat} (h : Inv gui w) (hG : DiesSettled gui w (.die g))
    (hs : step gui w (.die g) = some w') : Inv gui w' := by
  cases hs
  constructor
  · intro j
    show JobInv (Function.update w.alive g false (gui j)) (w.jobs j)
    by_cases hj : gui j = g
    · rw [hj, Function.update_self]
      exact jobInv_die (h.jobs j) (hG j hj)
    · rw [Function.update_of_ne hj]
      exact h.jobs j
  · intro j hj
    have hlock : w.lock = some (.worker j) := h.lock j hj
    simp only [hlock]

theorem inv_step {a : Action} (h : Inv gui w) (hG : DiesSettled gui w a)
    (hs : step gui w a = some w') : Inv gui w' := by
  cases a with
  | prep j a => exact inv_prep h hs
  | worker j a => exact inv_worker h hs
  | die g => exact inv_die h hG hs

/-- From the invariant, a swap is safe. -/
theorem swapsSafely_of_inv {a : Action} (h : Inv gui w) (hs : step gui w a = some w') :
    SwapsSafely gui w a := by
  cases a with
  | worker j a =>
    cases a with
    | swap =>
      have hj := h.jobs j
      have hverified : (w.jobs j).worker = .verified := by
        simp only [step, Job.workerNext] at hs
        split at hs
        · cases hs
        · rename_i hn
          split at hn
          · assumption
          · cases hn
      have hcleared : (w.jobs j).prep.Cleared := hj.pastVerify (by rw [hverified]; trivial)
      refine ⟨hj.pastExit (by rw [hverified]; trivial), ?_⟩
      cases hp : (w.jobs j).prep with
      | recorded | handedOver =>
        refine ⟨hj.first (by rw [hp]; trivial), hj.second (by rw [hp]; trivial),
          hj.recorded hcleared, fun h => h⟩
      | _ =>
        rw [hp] at hcleared
        exact hcleared.elim
    | _ => trivial
  | _ => trivial

end Runs

/-- **Handoff safety.** In every run in which each GUI process dies with its handoffs settled, every
swap comes after the death of the GUI process and for a job that passed both checks and was
recorded, never for a call that refused; and at most one worker is past the lock. -/
theorem handoff_safe {w w' : World} {as : List Action} (h0 : Start w)
    (h : Exec (step gui) (DiesSettled gui) w as w') :
    Exec (step gui) (fun w a => DiesSettled gui w a ∧ SwapsSafely gui w a) w as w' ∧
      ∀ i j, (w'.jobs i).worker.holds = true → (w'.jobs j).worker.holds = true → i = j := by
  refine ⟨h.forall_steps (I := Inv gui) (fun _ _ _ hi hG hs => inv_step hi hG hs)
    (fun _ _ _ hi _ hs => swapsSafely_of_inv hi hs) (inv_start h0), ?_⟩
  intro i j hi hj
  have hinv : Inv gui w' :=
    h.invariant (I := Inv gui) (fun _ _ _ hi hG hs => inv_step hi hG hs) (inv_start h0)
  have hlock := (hinv.lock i hi).symm.trans (hinv.lock j hj)
  cases hlock
  rfl

/-! ## One update -/

/-- Every GUI process runs and nothing has been prepared. -/
def fresh : World := ⟨fun _ => true, fun _ => Job.new, none, none⟩

theorem fresh_start : Start fresh := ⟨fun _ => rfl, rfl⟩

/-- A prepared handoff, up to the return of `Ok(true)`. -/
def preparation : List Action :=
  [.prep 0 .acquire, .prep 0 .stage, .prep 0 (.allow1 true), .prep 0 .spawn, .worker 0 .check,
    .worker 0 .writeReady, .prep 0 .seeReady, .prep 0 (.allow2 true), .prep 0 (.record true),
    .prep 0 .handOver]

/-- The worker's part after the GUI has exited. -/
def installation : List Action :=
  [.worker 0 .waitExit, .worker 0 .lock, .worker 0 (.verify true), .worker 0 .swap]

theorem handoff_safe_handover :
    ∃ w, run (step id) fresh (preparation ++ .die 0 :: installation) = some w ∧
      Exec (step id) (fun w a => DiesSettled id w a ∧ SwapsSafely id w a) fresh
        (preparation ++ .die 0 :: installation) w ∧
      ∀ i j, (w.jobs i).worker.holds = true → (w.jobs j).worker.holds = true → i = j := by
  have hrun : (run (step id) fresh (preparation ++ .die 0 :: installation)).isSome = true := by
    decide +kernel
  have hprep : (run (step id) fresh preparation).all
      (fun w => (w.jobs 0).prep = .handedOver) = true := by
    decide +kernel
  obtain ⟨w, hw⟩ := Option.isSome_iff_exists.mp hrun
  have hexec : Exec (step id) (DiesSettled id) fresh (preparation ++ .die 0 :: installation) w := by
    refine .of_run_split ?_ ?_ ?_ hw
    · intro s b hb
      simp only [preparation, List.mem_cons, List.not_mem_nil, or_false] at hb
      rcases hb with rfl | rfl | rfl | rfl | rfl | rfl | rfl | rfl | rfl | rfl <;> trivial
    · intro s b hb
      simp only [installation, List.mem_cons, List.not_mem_nil, or_false] at hb
      rcases hb with rfl | rfl | rfl | rfl <;> trivial
    · intro t ht j hj _
      rw [ht] at hprep
      have hover : (t.jobs 0).prep = .handedOver := by simpa using hprep
      obtain rfl : j = 0 := hj
      rw [hover]
      exact .inl trivial
  exact ⟨w, hw, handoff_safe id fresh_start hexec⟩

/-- The GUI process dies after the second check said no and before the worker is killed. -/
def diesBeforeKill : List Action :=
  [.prep 0 .acquire, .prep 0 .stage, .prep 0 (.allow1 true), .prep 0 .spawn, .worker 0 .check,
    .worker 0 .writeReady, .prep 0 .seeReady, .prep 0 (.allow2 false), .die 0] ++ installation

/-- The worker installs the update that the second check refused; nothing was recorded in
`active.json`. -/
theorem refused_job_installed :
    ∃ w, run (step id) fresh diesBeforeKill = some w ∧ (w.jobs 0).worker = .swapped ∧
      (w.jobs 0).second = some false ∧ (w.jobs 0).recorded = false ∧ w.active = none := by
  have hrun : (run (step id) fresh diesBeforeKill).any (fun w =>
      (w.jobs 0).worker = .swapped ∧ (w.jobs 0).second = some false ∧
        (w.jobs 0).recorded = false ∧ w.active = none) = true := by
    decide +kernel
  obtain ⟨w, hw, hp⟩ := (Option.any_eq_true _ _).mp hrun
  exact ⟨w, hw, by simpa using hp⟩

end LinkPilot.Handoff
