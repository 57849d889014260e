import LinkPilot.Transact

/-!
# The update worker

Model of `run_worker` of `crates/updater/src/lib.rs` after its job was validated, with
`wait_exit`, `owned_daemon` and `daemon_load`.  As in the model of `transact`, which it calls,
every step that can fail takes its outcome from a script, and a run returns what the source
returns together with the log of what it did to the bundles, the daemon and the app.

The old GUI process is alive up to some moment and never again: its pid is not given out anew.

Principal results:

* `services_restored` — a worker whose old GUI never exits does nothing; otherwise it leaves
  exactly one GUI of its own running and the bundle's daemon loaded, when the rollback swap, the
  last launch and the last daemon start do not fail, and it never touches another daemon.
* `services_not_restored` — a daemon that does not start again stays unloaded; a worker that
  cannot write its ready file starts nothing.
-/

set_option autoImplicit false

namespace LinkPilot.Worker

open Transact

/-! ## The script -/

/-- What the worker uses of the job. -/
structure WorkerJob extends Transact.Job where
  target : String
  oldPid : Nat

/-- `LaunchAgentStatus`, as far as the updater reads it. -/
structure LaunchAgentStatus where
  loaded : Bool
  pid : Option Nat
  execPath : Option String

/-- A process that is watched: the check that first finds it gone, and the check at which the
watcher gives up. -/
structure Watch where
  exits : Option Nat
  deadline : Nat

/-- What the steps of one `daemon_load` return.  `polls` are the turns of the wait for a started
daemon: the status, and whether its pid is alive. -/
structure DaemonScript where
  status : Except Error LaunchAgentStatus
  plistPath : Except Error Unit
  launchctl : Except Error Unit
  exit : Watch
  polls : Nat → Except Error Bool
  deadline : Nat

/-- The outcomes of the steps of `run_worker`. -/
structure Script where
  writeReady : Except Error Unit
  oldGui : Watch
  lock : Except Error Unit
  verifyApp : Except Error Unit
  newer : Except Error Unit
  daemonStatus : Except Error LaunchAgentStatus
  stopDaemon : DaemonScript
  restoreDaemon : DaemonScript
  transaction : Transact.Script
  startDaemon : DaemonScript
  stopFailedDaemon : DaemonScript
  restartDaemon : DaemonScript
  startApp : Except Error Nat
  writeOutcome : Except Error Unit
  removeWorkspace : Except Error Unit

/-! ## The code -/

/-- `kill(pid, 0) == 0` at the given check. -/
def Watch.alive (w : Watch) (check : Nat) : Bool :=
  match w.exits with
  | none => true
  | some n => check < n

/-- `wait_exit`, from one check on, with `remaining` checks before it gives up. -/
def waitExit (pid : Nat) (w : Watch) (check remaining : Nat) : Except Error Unit :=
  if w.alive check then
    match remaining with
    | 0 => .error ["Process " ++ toString pid ++ " did not exit; update cancelled"]
    | remaining + 1 => waitExit pid w (check + 1) remaining
  else .ok ()

/-- `daemon_belongs_to`. -/
def daemonBelongsTo (target : String) (status : LaunchAgentStatus) : Bool :=
  status.loaded && status.execPath == some (target ++ "/Contents/MacOS/linkpilot-daemon")

/-- `owned_daemon`. -/
def ownedDaemon (target : String) (status : Except Error LaunchAgentStatus) :
    Except Error Bool :=
  status.map (daemonBelongsTo target)

/-- The wait of `daemon_load(true)`. -/
def awaitDaemon (polls : Nat → Except Error Bool) (n remaining : Nat) : Except Error Unit :=
  match polls n with
  | .error e => .error e
  | .ok true => .ok ()
  | .ok false =>
    match remaining with
    | 0 => .error ["Updated daemon did not start"]
    | remaining + 1 => awaitDaemon polls (n + 1) remaining

/-- `daemon_load`. -/
def daemonLoad (load : Bool) (d : DaemonScript) : Except Error Unit := do
  let previousPid ← if load then pure none else d.status.map LaunchAgentStatus.pid
  d.plistPath
  d.launchctl
  if load then awaitDaemon d.polls 0 d.deadline
  else
    match previousPid with
    | some pid => waitExit pid d.exit 0 d.exit.deadline
    | none => pure ()

def isDaemon : Event → Bool
  | .startDaemon _ => true
  | .stopDaemon _ => true
  | _ => false

/-- `transact` with the closures that `run_worker` passes: they do nothing for a daemon that is
not the bundle's. -/
def transactWith (job : WorkerJob) (s : Script) (daemon : Bool) :
    Except Error Unit × List Event :=
  if daemon then
    transact job.toJob { s.transaction with
      startDaemon := daemonLoad true s.startDaemon
      stopDaemon := daemonLoad false s.stopFailedDaemon
      restartDaemon := daemonLoad true s.restartDaemon }
  else
    let run := transact job.toJob { s.transaction with
      startDaemon := .ok ()
      stopDaemon := .ok ()
      restartDaemon := .ok () }
    (run.1, run.2.filter fun e => !isDaemon e)

/-- The outcome of the closure of `run_worker`: its result, `transaction_started`, and its log. -/
structure Attempt where
  result : Except Error Unit
  transactionStarted : Bool
  log : List Event

/-- From the stop of the daemon on. -/
def attemptSwap (job : WorkerJob) (s : Script) (daemon : Bool) : Attempt :=
  if daemon then
    match daemonLoad false s.stopDaemon with
    | .error error =>
      match daemonLoad true s.restoreDaemon with
      | .error e =>
        ⟨.error ("restoring daemon after stop failure" :: e), false,
          [.stopDaemon false, .startDaemon false]⟩
      | .ok () => ⟨.error error, false, [.stopDaemon false, .startDaemon true]⟩
    | .ok () =>
      let run := transactWith job s daemon
      ⟨run.1, true, .stopDaemon true :: run.2⟩
  else
    let run := transactWith job s daemon
    ⟨run.1, true, run.2⟩

/-- The steps before the daemon is stopped. -/
def prepared (job : WorkerJob) (s : Script) : Except Error Bool := do
  waitExit job.oldPid s.oldGui 0 s.oldGui.deadline
  s.lock
  s.verifyApp
  s.newer
  ownedDaemon job.target s.daemonStatus

def attempt (job : WorkerJob) (s : Script) : Attempt :=
  match prepared job s with
  | .error e => ⟨.error e, false, []⟩
  | .ok daemon => attemptSwap job s daemon

/-- `outcome.json`. -/
structure OutcomeFile where
  version : String
  error : Option String

/-- What a run of the worker returns, what it did, and the outcome file it tried to write. -/
structure Run where
  result : Except Error Unit
  log : List Event
  outcome : Option OutcomeFile

/-- The check that `run_worker` makes of the old GUI after a failure. -/
def Script.lastCheck (s : Script) : Nat := s.oldGui.deadline + 1

/-- From the write of the outcome on. -/
def report (job : WorkerJob) (s : Script) (result : Except Error Unit) (log : List Event) : Run :=
  let error : Option String :=
    match result with
    | .error e => some (render e)
    | .ok () => none
  let returned : Except Error Unit :=
    match s.writeOutcome, result with
    | .error e, _ => .error e
    | .ok (), .ok () => s.removeWorkspace
    | .ok (), .error e => .error e
  ⟨returned, log, some ⟨job.version, error⟩⟩

/-- `run_worker`, after `load_job` and the parent check. -/
def runWorker (job : WorkerJob) (s : Script) : Run :=
  match s.writeReady with
  | .error e => ⟨.error e, [], none⟩
  | .ok () =>
    let a := attempt job s
    match a.result, a.transactionStarted, s.oldGui.alive s.lastCheck with
    | .error error, false, false =>
      match s.startApp with
      | .error e => report job s (.error e) (a.log ++ [.startApp false none])
      | .ok pid => report job s (.error error) (a.log ++ [.startApp false (some pid)])
    | result, _, _ => report job s result a.log

/-! ## What is left running -/

/-- The old GUI is gone when the worker looks for the last time. -/
def Script.GuiExits (s : Script) : Prop := s.oldGui.alive s.lastCheck = false

def launches (log : List Event) : Nat :=
  log.countP fun
    | .startApp _ (some _) => true
    | _ => false

def reaps (log : List Event) : Nat :=
  log.countP fun
    | .wait true => true
    | _ => false

/-- Of the GUI processes that the worker started, all but one were waited for. -/
def OneGuiLeft (log : List Event) : Prop := launches log = reaps log + 1

/-- Whether the last launch of the app succeeded. -/
def lastLaunch (log : List Event) : Option Bool :=
  (log.filterMap fun
    | .startApp _ pid => some pid.isSome
    | _ => none).getLast?

/-- Whether the last start of the daemon succeeded. -/
def lastStart (log : List Event) : Option Bool :=
  (log.filterMap fun
    | .startDaemon ok => some ok
    | _ => none).getLast?

/-- The last daemon action that succeeded: `true` for a start. -/
def lastDaemon (log : List Event) : Option Bool :=
  (log.filterMap fun
    | .startDaemon true => some true
    | .stopDaemon true => some false
    | _ => none).getLast?

/-- The daemon was left alone, or the last action on it that succeeded is a start. -/
def DaemonRestored (log : List Event) : Prop :=
  (∀ e ∈ log, isDaemon e = false) ∨ lastDaemon log = some true

/-! ## What a transaction can log -/

/-- A failed installation. -/
inductive Tried : List Event → Prop
  | daemon : Tried [.startDaemon false]
  | app : Tried [.startDaemon true, .startApp true none]
  | health (pid : Nat) (kill : Bool) :
    Tried [.startDaemon true, .startApp true (some pid), .health false, .kill kill, .wait true]

/-- The way back. -/
inductive Back : List Event → Prop
  | failed (stop : Bool) : Back [.stopDaemon stop, .swapBack false]
  | done (stop start : Bool) (app : Option Nat) :
    Back [.stopDaemon stop, .swapBack true, .startDaemon start, .startApp false app]

inductive Logs : List Event → Prop
  | failedSwap (start : Bool) (app : Option Nat) :
    Logs [.swap false, .startDaemon start, .startApp false app]
  | installed (pid : Nat) :
    Logs [.swap true, .startDaemon true, .startApp true (some pid), .health true]
  | notReaped (pid : Nat) (kill : Bool) :
    Logs [.swap true, .startDaemon true, .startApp true (some pid), .health false, .kill kill,
      .wait false]
  | rolledBack {tried back : List Event} (htried : Tried tried) (hback : Back back) :
    Logs (.swap true :: tried ++ back)

section Transaction

variable {job : Transact.Job} {s : Transact.Script}

theorem rollback_back (error : Error) : Back (rollback job s error).2 := by
  unfold rollback
  split
  · exact .failed _
  · split
    · exact .done _ _ _
    · exact .done _ _ _
    · exact .done _ _ _
    · exact .done _ _ _

/-- Every log of a transaction is one of these. -/
theorem transact_logs (job : Transact.Job) (s : Transact.Script) : Logs (transact job s).2 := by
  cases hswap : s.swap with
  | error e =>
    simp only [transact, hswap, failedSwap]
    split
    · exact .failedSwap _ _
    · exact .failedSwap _ _
    · exact .failedSwap _ _
  | ok u =>
    cases hdaemon : s.startDaemon with
    | error e =>
      simp only [transact, install, hswap, hdaemon]
      exact .rolledBack .daemon (rollback_back e)
    | ok u' =>
      cases happ : s.startApp with
      | error e =>
        simp only [transact, install, hswap, hdaemon, happ]
        exact .rolledBack .app (rollback_back e)
      | ok pid =>
        rcases hhealth : awaitHealth job pid s.polls 0 s.deadline with ⟨result, exited⟩
        cases result with
        | ok u'' =>
          simp only [transact, install, hswap, hdaemon, happ, hhealth]
          exact .installed pid
        | error e =>
          cases hwait : s.waitFor ⟨pid, exited⟩ with
          | error e' =>
            simp only [transact, install, hswap, hdaemon, happ, hhealth, hwait]
            exact .notReaped pid _
          | ok u'' =>
            simp only [transact, install, hswap, hdaemon, happ, hhealth, hwait]
            exact .rolledBack (.health pid _) (rollback_back e)

/-- A transaction leaves one GUI, unless its child or the rollback is stuck or the last launch
failed; so does what remains of its log without the daemon. -/
theorem oneGui_of_logs {log : List Event} (h : Logs log) (hback : .swapBack false ∉ log)
    (hwait : .wait false ∉ log) (hlaunch : lastLaunch log ≠ some false) :
    OneGuiLeft log := by
  cases h with
  | failedSwap start app =>
    cases app with
    | none => exact absurd rfl hlaunch
    | some pid => rfl
  | installed pid => rfl
  | notReaped pid kill => exact absurd (by simp) hwait
  | rolledBack htried hback' =>
    cases hback' with
    | failed stop => exact absurd (by simp) hback
    | done stop start app =>
      cases app with
      | none =>
        refine absurd ?_ hlaunch
        cases htried <;> rfl
      | some pid => cases htried <;> rfl

/-- A transaction ends with the daemon started, unless the rollback is stuck or the last start
failed. -/
theorem daemon_of_logs {log : List Event} (h : Logs log) (hback : .swapBack false ∉ log)
    (hstart : lastStart log ≠ some false) : lastDaemon log = some true := by
  cases h with
  | failedSwap start app =>
    cases start with
    | false => exact absurd rfl hstart
    | true => rfl
  | installed pid => rfl
  | notReaped pid kill => rfl
  | rolledBack htried hback' =>
    cases hback' with
    | failed stop => exact absurd (by simp) hback
    | done stop start app =>
      cases start with
      | false =>
        refine absurd ?_ hstart
        cases htried <;> rfl
      | true =>
        cases stop <;> cases htried <;> rfl

end Transaction

/-! ## Logs without the daemon -/

def noDaemon (log : List Event) : List Event := log.filter fun e => !isDaemon e

section NoDaemon

variable {log : List Event}

theorem mem_noDaemon {e : Event} : e ∈ noDaemon log ↔ e ∈ log ∧ isDaemon e = false := by
  simp [noDaemon]

/-- What is counted or collected of a log and never of the daemon. -/
theorem filterMap_noDaemon {γ : Type} {f : Event → Option γ}
    (hf : ∀ e, isDaemon e = true → f e = none) : (noDaemon log).filterMap f = log.filterMap f := by
  unfold noDaemon
  rw [List.filterMap_filter]
  congr 1
  funext e
  cases he : isDaemon e with
  | false => rfl
  | true => rw [hf e he]; rfl

theorem countP_noDaemon {f : Event → Bool} (hf : ∀ e, isDaemon e = true → f e = false) :
    (noDaemon log).countP f = log.countP f := by
  unfold noDaemon
  rw [List.countP_filter]
  congr 1
  funext e
  cases he : isDaemon e with
  | false => simp
  | true => simp [hf e he]

theorem lastLaunch_noDaemon : lastLaunch (noDaemon log) = lastLaunch log := by
  unfold lastLaunch
  rw [filterMap_noDaemon]
  intro e he
  cases e <;> first | rfl | cases he

theorem oneGuiLeft_noDaemon : OneGuiLeft (noDaemon log) ↔ OneGuiLeft log := by
  unfold OneGuiLeft launches reaps
  rw [countP_noDaemon, countP_noDaemon]
  · intro e he
    cases e <;> first | rfl | cases he
  · intro e he
    cases e <;> first | rfl | cases he

end NoDaemon

/-! ## The old GUI -/

section Run

variable {job : WorkerJob} {s : Script} {w : Watch}

theorem alive_mono {k m : Nat} (hle : k ≤ m) (h : w.alive k = false) : w.alive m = false := by
  unfold Watch.alive at h ⊢
  split
  · rename_i hn
    rw [hn] at h
    cases h
  · rename_i n hn
    rw [hn] at h
    simp only [decide_eq_false_iff_not] at h ⊢
    omega

/-- A wait that ends well has found the process gone. -/
theorem waitExit_ok {pid check remaining : Nat} (h : waitExit pid w check remaining = .ok ()) :
    w.alive (check + remaining) = false := by
  induction remaining generalizing check with
  | zero =>
    unfold waitExit at h
    split at h
    · cases h
    · rename_i halive
      simpa using halive
  | succ remaining ih =>
    unfold waitExit at h
    split at h
    · have := ih h
      rwa [show check + (remaining + 1) = check + 1 + remaining by omega]
    · rename_i halive
      exact alive_mono (k := check) (by omega) (by simpa using halive)

theorem ok_of_bind {γ δ : Type} {x : Except Error γ} {f : γ → Except Error δ} {d : δ}
    (h : x >>= f = .ok d) : ∃ c, x = .ok c ∧ f c = .ok d := by
  cases x with
  | error e => cases h
  | ok c => exact ⟨c, rfl, h⟩

/-- A worker that got as far as the daemon has seen the old GUI gone. -/
theorem guiExits_of_prepared {daemon : Bool} (h : prepared job s = .ok daemon) :
    s.GuiExits ∧ ownedDaemon job.target s.daemonStatus = .ok daemon := by
  unfold prepared at h
  obtain ⟨u, hwait, h⟩ := ok_of_bind h
  obtain ⟨u1, -, h⟩ := ok_of_bind h
  obtain ⟨u2, -, h⟩ := ok_of_bind h
  obtain ⟨u3, -, h⟩ := ok_of_bind h
  refine ⟨alive_mono ?_ (waitExit_ok hwait), h⟩
  show 0 + s.oldGui.deadline ≤ s.oldGui.deadline + 1
  omega

theorem transactWith_logs (job : WorkerJob) (s : Script) (daemon : Bool) :
    ∃ log, Logs log ∧ (transactWith job s daemon).2 = if daemon then log else noDaemon log := by
  cases daemon with
  | false => exact ⟨_, transact_logs job.toJob _, rfl⟩
  | true => exact ⟨_, transact_logs job.toJob _, rfl⟩

/-- How far the closure of `run_worker` gets. -/
theorem attempt_cases (job : WorkerJob) (s : Script) :
    (∃ e, attempt job s = ⟨.error e, false, []⟩) ∨
      (∃ e start, s.GuiExits ∧ ownedDaemon job.target s.daemonStatus = .ok true ∧
        attempt job s = ⟨.error e, false, [.stopDaemon false, .startDaemon start]⟩) ∨
      ∃ daemon result log, s.GuiExits ∧ ownedDaemon job.target s.daemonStatus = .ok daemon ∧
        Logs log ∧ attempt job s =
          ⟨result, true, if daemon then .stopDaemon true :: log else noDaemon log⟩ := by
  unfold attempt
  split
  · rename_i e he
    exact .inl ⟨e, rfl⟩
  · rename_i daemon hprepared
    obtain ⟨hexits, howned⟩ := guiExits_of_prepared hprepared
    unfold attemptSwap
    obtain ⟨log, hlogs, hlog⟩ := transactWith_logs job s daemon
    cases daemon with
    | false =>
      refine .inr (.inr ⟨false, (transactWith job s false).1, log, hexits, howned, hlogs, ?_⟩)
      simp only [Bool.false_eq_true, ↓reduceIte] at hlog ⊢
      rw [hlog]
    | true =>
      simp only [↓reduceIte] at hlog ⊢
      split
      · split
        · exact .inr (.inl ⟨_, false, hexits, howned, rfl⟩)
        · exact .inr (.inl ⟨_, true, hexits, howned, rfl⟩)
      · exact .inr (.inr ⟨true, _, log, hexits, howned, hlogs, by rw [hlog]; rfl⟩)

theorem report_log (result : Except Error Unit) (log : List Event) :
    (report job s result log).log = log := rfl

/-- Every log of the worker. -/
theorem runWorker_log (job : WorkerJob) (s : Script) :
    ((s.writeReady ≠ .ok () ∨ ¬ s.GuiExits) ∧ (runWorker job s).log = []) ∨
      (∃ app, s.GuiExits ∧ (runWorker job s).log = [.startApp false app]) ∨
      (∃ start app, s.GuiExits ∧ ownedDaemon job.target s.daemonStatus = .ok true ∧
        (runWorker job s).log = [.stopDaemon false, .startDaemon start, .startApp false app]) ∨
      ∃ daemon log, s.GuiExits ∧ ownedDaemon job.target s.daemonStatus = .ok daemon ∧
        Logs log ∧ (runWorker job s).log =
          if daemon then .stopDaemon true :: log else noDaemon log := by
  cases hready : s.writeReady with
  | error e =>
    refine .inl ⟨.inl nofun, ?_⟩
    simp only [runWorker, hready]
  | ok u =>
    rcases attempt_cases job s with ⟨e, ha⟩ | ⟨e, start, hexits, howned, ha⟩ |
      ⟨daemon, result, log, hexits, howned, hlogs, ha⟩
    · cases halive : s.oldGui.alive s.lastCheck with
      | true =>
        refine .inl ⟨.inr ?_, ?_⟩
        · unfold Script.GuiExits
          rw [halive]
          simp
        · simp only [runWorker, hready, ha, halive, report_log]
      | false =>
        refine .inr (.inl ?_)
        cases happ : s.startApp with
        | error e' =>
          exact ⟨none, halive, by simp only [runWorker, hready, ha, halive, happ, report_log,
            List.nil_append]⟩
        | ok pid =>
          exact ⟨some pid, halive, by simp only [runWorker, hready, ha, halive, happ, report_log,
            List.nil_append]⟩
    · have halive : s.oldGui.alive s.lastCheck = false := hexits
      cases happ : s.startApp with
      | error e' =>
        refine .inr (.inr (.inl ⟨start, none, hexits, howned, ?_⟩))
        simp only [runWorker, hready, ha, halive, happ, report_log, List.cons_append,
          List.nil_append]
      | ok pid =>
        refine .inr (.inr (.inl ⟨start, some pid, hexits, howned, ?_⟩))
        simp only [runWorker, hready, ha, halive, happ, report_log, List.cons_append,
          List.nil_append]
    · refine .inr (.inr (.inr ⟨daemon, log, hexits, howned, hlogs, ?_⟩))
      simp only [runWorker, hready, ha, report_log]

/-! ## Services after the update -/

/-- One GUI, in a run whose old GUI exits. -/
theorem oneGui_of_exits (hready : s.writeReady = .ok ()) (hexits : s.GuiExits)
    (hback : .swapBack false ∉ (runWorker job s).log) (hwait : .wait false ∉ (runWorker job s).log)
    (hlaunch : lastLaunch (runWorker job s).log ≠ some false) :
    OneGuiLeft (runWorker job s).log := by
  rcases runWorker_log job s with ⟨hno | hno, -⟩ | ⟨app, -, hlog⟩ | ⟨start, app, -, -, hlog⟩ |
    ⟨daemon, log, -, -, hlogs, hlog⟩
  · exact absurd hready hno
  · exact absurd hexits hno
  · rw [hlog] at hlaunch ⊢
    cases app with
    | none => exact absurd rfl hlaunch
    | some pid => rfl
  · rw [hlog] at hlaunch ⊢
    cases app with
    | none => exact absurd rfl hlaunch
    | some pid => rfl
  · have hsame : noDaemon (runWorker job s).log = noDaemon log := by
      rw [hlog]
      cases daemon with
      | true => rfl
      | false => simp [noDaemon]
    rw [← oneGuiLeft_noDaemon, hsame, oneGuiLeft_noDaemon]
    refine oneGui_of_logs hlogs ?_ ?_ ?_
    · intro hmem
      exact hback (mem_noDaemon.mp (hsame ▸ mem_noDaemon.mpr ⟨hmem, rfl⟩)).1
    · intro hmem
      exact hwait (mem_noDaemon.mp (hsame ▸ mem_noDaemon.mpr ⟨hmem, rfl⟩)).1
    · rw [← lastLaunch_noDaemon, hsame, lastLaunch_noDaemon] at hlaunch
      exact hlaunch

/-- The daemon was not touched, or was started last. -/
theorem daemonRestored_of_start (hback : .swapBack false ∉ (runWorker job s).log)
    (hstart : lastStart (runWorker job s).log ≠ some false) :
    DaemonRestored (runWorker job s).log := by
  rcases runWorker_log job s with ⟨-, hlog⟩ | ⟨app, -, hlog⟩ | ⟨start, app, -, -, hlog⟩ |
    ⟨daemon, log, -, -, hlogs, hlog⟩
  · rw [hlog]
    exact .inl nofun
  · rw [hlog]
    refine .inl ?_
    intro e he
    rw [List.mem_singleton.mp he]
    rfl
  · rw [hlog] at hstart ⊢
    cases start with
    | false => exact absurd rfl hstart
    | true => exact .inr rfl
  · cases daemon with
    | false =>
      rw [hlog]
      exact .inl fun e he => (mem_noDaemon.mp he).2
    | true =>
      rw [hlog] at hback hstart ⊢
      simp only [↓reduceIte] at hback hstart ⊢
      have hlast : lastDaemon log = some true :=
        daemon_of_logs hlogs (fun hmem => hback (List.mem_cons_of_mem _ hmem)) hstart
      refine .inr ?_
      unfold lastDaemon at hlast ⊢
      simp only [List.filterMap_cons, List.getLast?_cons, hlast, Option.getD_some]

end Run

/-- **Services after an update attempt.** A worker whose old GUI never exits starts, stops and
swaps nothing.  A worker that has written its ready file and whose old GUI exits leaves exactly
one GUI of its own running, unless the rollback swap or the last launch of the app failed; the
bundle's daemon is left alone or started last, unless the rollback swap or the last start of the
daemon failed; and a daemon that is not the bundle's is not touched. -/
theorem services_restored (job : WorkerJob) (s : Script) :
    (¬ s.GuiExits → (runWorker job s).log = []) ∧
      (s.GuiExits → s.writeReady = .ok () → .swapBack false ∉ (runWorker job s).log →
        .wait false ∉ (runWorker job s).log → lastLaunch (runWorker job s).log ≠ some false →
        OneGuiLeft (runWorker job s).log) ∧
      (.swapBack false ∉ (runWorker job s).log → lastStart (runWorker job s).log ≠ some false →
        DaemonRestored (runWorker job s).log) ∧
      (ownedDaemon job.target s.daemonStatus ≠ .ok true →
        ∀ e ∈ (runWorker job s).log, isDaemon e = false) := by
  refine ⟨?_, fun hexits hready hback hwait hlaunch =>
    oneGui_of_exits hready hexits hback hwait hlaunch, daemonRestored_of_start, ?_⟩
  · intro hexits
    rcases runWorker_log job s with ⟨-, hlog⟩ | ⟨-, h, -⟩ | ⟨-, -, h, -⟩ | ⟨-, -, h, -⟩
    · exact hlog
    · exact absurd h hexits
    · exact absurd h hexits
    · exact absurd h hexits
  · intro howned
    rcases runWorker_log job s with ⟨-, hlog⟩ | ⟨app, -, hlog⟩ | ⟨start, app, -, h, hlog⟩ |
      ⟨daemon, log, -, h, -, hlog⟩
    · rw [hlog]
      exact nofun
    · rw [hlog]
      intro e he
      rw [List.mem_singleton.mp he]
      rfl
    · exact absurd h howned
    · cases daemon with
      | true => exact absurd h howned
      | false =>
        rw [hlog]
        exact fun e he => (mem_noDaemon.mp he).2

/-! ## Two updates -/

def job : WorkerJob :=
  ⟨⟨"/Applications/.linkpilot-update-x/candidate.app", "0.5.12", "t"⟩,
    "/Applications/LinkPilot.app", 400⟩

/-- The bundle's daemon, as process 77. -/
def loadedDaemon : LaunchAgentStatus :=
  ⟨true, some 77, some "/Applications/LinkPilot.app/Contents/MacOS/linkpilot-daemon"⟩

/-- A `daemon_load` that succeeds either way. -/
def daemonGoes : DaemonScript :=
  ⟨.ok loadedDaemon, .ok (), .ok (), ⟨some 1, 100⟩, fun _ => .ok true, 50⟩

/-- A `daemon_load(true)` whose daemon is never seen alive. -/
def daemonStays : DaemonScript := { daemonGoes with polls := fun _ => .ok false, deadline := 50 }

/-- The old GUI exits, the new app does not confirm its start, and all else succeeds. -/
def unconfirmed : Script where
  writeReady := .ok ()
  oldGui := ⟨some 3, 300⟩
  lock := .ok ()
  verifyApp := .ok ()
  newer := .ok ()
  daemonStatus := .ok loadedDaemon
  stopDaemon := daemonGoes
  restoreDaemon := daemonGoes
  transaction := { reapedElsewhere with polls := fun _ => ⟨.ok true, none⟩, wait := .ok () }
  startDaemon := daemonGoes
  stopFailedDaemon := daemonGoes
  restartDaemon := daemonGoes
  startApp := .ok 503
  writeOutcome := .ok ()
  removeWorkspace := .ok ()

theorem services_restored_rollback :
    OneGuiLeft (runWorker job unconfirmed).log ∧ DaemonRestored (runWorker job unconfirmed).log :=
  ⟨(services_restored job unconfirmed).2.1 rfl rfl (by decide) (by decide) (by decide),
    (services_restored job unconfirmed).2.2.1 (by decide) (by decide)⟩

/-- The updated daemon is not seen to start, neither in the new bundle nor in the previous one. -/
def daemonDown : Script :=
  { unconfirmed with startDaemon := daemonStays, restartDaemon := daemonStays }

/-- The worker cannot write its ready file. -/
def notReady : Script := { unconfirmed with writeReady := .error ["No space left on device"] }

/-- The rollback swap and every launch succeed, and the last daemon action that succeeded is the
stop; a worker that fails to write its ready file starts nothing, whether or not the GUI exits. -/
theorem services_not_restored :
    ((runWorker job daemonDown).log =
        [.stopDaemon true, .swap true, .startDaemon false, .stopDaemon true, .swapBack true,
          .startDaemon false, .startApp false (some 502)] ∧
      ¬ DaemonRestored (runWorker job daemonDown).log) ∧
      notReady.GuiExits ∧ (runWorker job notReady).log = [] ∧
      ¬ OneGuiLeft (runWorker job notReady).log := by
  have hlog : (runWorker job daemonDown).log =
      [.stopDaemon true, .swap true, .startDaemon false, .stopDaemon true, .swapBack true,
        .startDaemon false, .startApp false (some 502)] := rfl
  refine ⟨⟨hlog, ?_⟩, rfl, rfl, nofun⟩
  rw [hlog]
  rintro (h | h)
  · exact nomatch h (.stopDaemon true) List.mem_cons_self
  · exact absurd h (by decide)

end LinkPilot.Worker
