import LinkPilot.Staging
import LinkPilot.Lib.Interleaving

/-!
# Updates over time

The installed app over any number of updates: preparations by the running app, workers that got a
job, what they put on record after they gave up the lock, and whatever is installed by hand, in any
order.

The lock and `active.json` let no preparation and no second worker between the steps of a worker
that has the lock, so a preparation is one step.  A worker's steps are taken one by one: it may die
before each, and anything may be installed by hand between its look at the installed version, its
swap and its swap back.

Principal results:

* `installed_versions` — the installed version changes by hand, by a worker whose job was cleared by
  a preparation and checked again, to the newer stable version of the job, or back by such a worker;
  a worker that is done has put back what it took out unless its child's receipt was accepted or the
  way back failed; from a time with no worker under way and without installations by hand the
  version is never an older one; and an automatic attempt at a version whose failure is on record
  does nothing.
-/

set_option autoImplicit false

namespace LinkPilot.UpdateRuns

open Interleaving Paths Transact UpdateJob Worker VersionOrder Staging

/-! ## Runs -/

/-- One call of `prepare_and_spawn`. -/
structure Preparation where
  updates : Path
  version : String
  automatic : Bool
  pid : UInt32
  lock : Except Error Unit
  writeOutcome : Except Error Unit
  script : Staging.Script

/-- One run of a worker: what it finds at the candidate's path and of the target's version, and
the outcomes of its other steps. -/
structure Work where
  job : UpdateJob.Job
  candidateVersion : String
  candidate : AppChecks
  installedVersion : Except Error String
  script : Worker.Script

/-- A worker that has the lock: the version that was installed when it looked, the version that is
at the candidate's path, the version that its last exchange took out, and the steps it has taken and
will take. -/
structure Busy where
  work : Work
  found : String
  candidate : String
  took : Option String
  done : List Transact.Event
  rest : List Transact.Event

/-- What is installed, what is on record, the jobs that workers were started for, the worker that
has the lock, and the outcomes that workers are about to put on record. -/
structure World where
  installed : String
  outcome : Option OutcomeFile
  jobs : List UpdateJob.Job
  busy : Option Busy
  reports : List OutcomeFile

inductive Action where
  | prepare (p : Preparation)
  /-- A worker takes its job, and the lock if it can. -/
  | start (k : Work)
  /-- The worker that has the lock takes its next step. -/
  | act
  | finish
  | die
  | report (i : Nat)
  | replace (version : String)

/-- What the worker uses of the job. -/
def toWorker (job : UpdateJob.Job) : WorkerJob :=
  ⟨job.toTransact, job.target.text, job.oldPid.toNat⟩

def spawned (log : List Staging.Event) : List UpdateJob.Job :=
  log.filterMap fun
    | .spawn job _ => some job
    | _ => none

/-- A version that is read is the one that is there. -/
def reads (read : Except Error String) (version : String) : Prop :=
  ∀ v, read = .ok v → v = version

instance (read : Except Error String) (version : String) : Decidable (reads read version) :=
  match read with
  | .error _ => isTrue nofun
  | .ok v =>
    if h : v = version then isTrue fun _ hv => by cases hv; exact h
    else isFalse fun hreads => h (hreads v rfl)

/-- The steps that exchange what is at the target and at the candidate's path. -/
def exchanges : Transact.Event → Bool
  | .swap true => true
  | .swapBack true => true
  | _ => false

/-- The next step of the worker that has the lock. -/
def World.act (w : World) (b : Busy) (e : Transact.Event) (rest : List Transact.Event) : World :=
  let b := { b with done := b.done ++ [e], rest := rest }
  if exchanges e then
    { w with
      installed := b.candidate
      busy := some { b with candidate := w.installed, took := some w.installed } }
  else { w with busy := some b }

section System

variable (semver : Semver) (cpu : UInt32) (fs : FileSystem)

def Preparation.run (p : Preparation) (outcome : Option OutcomeFile) : Attempted :=
  prepareAndSpawn semver cpu fs p.lock p.writeOutcome outcome p.updates p.version p.automatic p.pid
    p.script

/-- The worker's script, with its checks of the candidate and of the installed version. -/
def Work.checked (k : Work) : Worker.Script :=
  { k.script with
    verifyApp := verifyApp cpu k.candidate k.job.version
    newer := k.installedVersion.bind (newerThan semver k.job.version) }

def Work.run (k : Work) : Worker.Run := runWorker (toWorker k.job) (k.checked semver cpu)

def step (w : World) : Action → Option World
  | .prepare p =>
    if reads p.script.installedVersion w.installed ∧ (p.lock.isOk && w.busy.isSome) = false then
      let a := p.run semver cpu fs w.outcome
      some { w with outcome := a.outcome, jobs := w.jobs ++ spawned a.log }
    else none
  | .start k =>
    if k.job ∈ w.jobs ∧ reads k.installedVersion w.installed ∧
        reads k.candidate.bundleVersion k.candidateVersion then
      let r := k.run semver cpu
      let jobs := w.jobs.erase k.job
      match k.script.lock, w.busy with
      | .error _, _ => some { w with jobs := jobs, reports := w.reports ++ r.outcome.toList }
      | .ok (), none =>
        some { w with
          jobs := jobs
          busy := some ⟨k, w.installed, k.candidateVersion, none, [], r.log⟩ }
      | .ok (), some _ => none
    else none
  | .act =>
    w.busy.bind fun b =>
      match b.rest with
      | [] => none
      | e :: rest => some (w.act b e rest)
  | .finish =>
    w.busy.bind fun b =>
      match b.rest with
      | [] =>
        some { w with
          busy := none
          reports := w.reports ++ (b.work.run semver cpu).outcome.toList }
      | _ :: _ => none
  | .die => w.busy.map fun _ => { w with busy := none }
  | .report i =>
    w.reports[i]?.map fun o => { w with outcome := some o, reports := w.reports.eraseIdx i }
  | .replace version => some { w with installed := version }

end System

/-! ## A worker's log -/

section Logs

variable {job : WorkerJob} {s : Worker.Script} {daemon : Bool}

/-- A worker that got past its checks found the candidate verified and newer. -/
theorem prepared_checks (h : prepared job s = .ok daemon) :
    s.verifyApp = .ok () ∧ s.newer = .ok () := by
  unfold prepared at h
  obtain ⟨_, -, h⟩ := ok_of_bind h
  obtain ⟨_, -, h⟩ := ok_of_bind h
  obtain ⟨_, hverify, h⟩ := ok_of_bind h
  obtain ⟨_, hnewer, -⟩ := ok_of_bind h
  exact ⟨hverify, hnewer⟩

/-- What the closure of `run_worker` did: nothing to the bundles, or its transaction. -/
theorem attempt_exchanges (job : WorkerJob) (s : Worker.Script) :
    ((attempt job s).transactionStarted = false ∧
        ∀ e ∈ (attempt job s).log, exchanges e = false) ∨
      (attempt job s).transactionStarted = true ∧ ∃ daemon, prepared job s = .ok daemon ∧
        (attempt job s).log = (if daemon then [.stopDaemon true] else []) ++
          (transactWith job s daemon).2 := by
  unfold attempt
  cases hprepared : prepared job s with
  | error e => exact .inl ⟨rfl, nofun⟩
  | ok daemon =>
    dsimp only
    unfold attemptSwap
    cases daemon with
    | false => exact .inr ⟨rfl, false, rfl, rfl⟩
    | true =>
      rw [if_pos rfl]
      split
      · split <;> exact .inl ⟨rfl, by simp [exchanges]⟩
      · exact .inr ⟨rfl, true, rfl, rfl⟩

/-- Behind its closure the worker starts the app at most, and not after a transaction. -/
theorem runWorker_attempt (job : WorkerJob) (s : Worker.Script) :
    (runWorker job s).log = [] ∨ ∃ tail, (∀ e ∈ tail, exchanges e = false) ∧
      (runWorker job s).log = (attempt job s).log ++ tail ∧
      ((attempt job s).transactionStarted = true → tail = []) := by
  unfold runWorker
  split
  · exact .inl rfl
  · right
    dsimp only
    split
    · rename_i hstarted _
      have hnot : ¬ (attempt job s).transactionStarted = true := by simp [hstarted]
      split
      · exact ⟨[.startApp false none], by simp [exchanges], rfl, fun h => absurd h hnot⟩
      · rename_i pid _
        exact ⟨[.startApp false (some pid)], by simp [exchanges], rfl, fun h => absurd h hnot⟩
    · exact ⟨[], nofun, (List.append_nil _).symm, fun _ => rfl⟩

/-- **A worker exchanges bundles only in its transaction**, which it comes to with its checks
passed. -/
theorem transacted_of_exchange {e : Transact.Event} (he : exchanges e = true)
    (hmem : e ∈ (runWorker job s).log) :
    ∃ daemon, prepared job s = .ok daemon ∧
      (runWorker job s).log = (if daemon then [.stopDaemon true] else []) ++
        (transactWith job s daemon).2 := by
  rcases runWorker_attempt job s with hnil | ⟨tail, htail, hlog, hstarted⟩
  · rw [hnil] at hmem
    cases hmem
  · rcases attempt_exchanges job s with ⟨-, hnone⟩ | ⟨hstart, daemon, hprepared, hattempt⟩
    · rw [hlog, List.mem_append] at hmem
      rcases hmem with hmem | hmem
      · exact absurd he (by simp [hnone e hmem])
      · exact absurd he (by simp [htail e hmem])
    · rw [hstarted hstart, List.append_nil, hattempt] at hlog
      exact ⟨daemon, hprepared, hlog⟩

/-- The daemon is no bundle. -/
theorem filter_noDaemon (log : List Transact.Event) :
    (noDaemon log).filter exchanges = log.filter exchanges := by
  unfold noDaemon
  rw [List.filter_filter]
  refine List.filter_congr fun e _ => ?_
  cases e with
  | swap ok | swapBack ok | startDaemon ok | stopDaemon ok | health ok | kill ok | wait ok =>
    cases ok <;> rfl
  | startApp health pid => rfl

/-- A transaction exchanges the bundles once, or twice, or not at all. -/
theorem exchanges_of_logs {log : List Transact.Event} (h : Logs log) :
    log.filter exchanges <+: [.swap true, .swapBack true] := by
  cases h with
  | failedSwap start app => exact ⟨_, rfl⟩
  | installed pid => exact ⟨_, rfl⟩
  | notReaped pid kill => exact ⟨_, rfl⟩
  | rolledBack htried hback => cases htried <;> cases hback <;> exact ⟨_, rfl⟩

theorem exchanges_of_worker (job : WorkerJob) (s : Worker.Script) :
    (runWorker job s).log.filter exchanges <+: [.swap true, .swapBack true] := by
  rcases runWorker_log job s with ⟨-, hlog⟩ | ⟨app, -, hlog⟩ | ⟨start, app, -, -, hlog⟩ |
    ⟨daemon, log, -, -, hlogs, hlog⟩
  · exact ⟨[.swap true, .swapBack true], by rw [hlog]; rfl⟩
  · exact ⟨[.swap true, .swapBack true], by rw [hlog]; rfl⟩
  · exact ⟨[.swap true, .swapBack true], by rw [hlog]; rfl⟩
  · have hsame : (runWorker job s).log.filter exchanges = log.filter exchanges := by
      rw [hlog]
      cases daemon with
      | true => rfl
      | false => exact filter_noDaemon log
    rw [hsame]
    exact exchanges_of_logs hlogs

/-- The way of a transaction's child whose bundle stays: its receipt was read, or it was neither
found ready nor seen to exit and could not be waited for. -/
def Stays (job : Transact.Job) (s : Transact.Script) : Prop :=
  ∃ pid, s.startApp = .ok pid ∧
    (ReceiptRead job s pid ∨ s.HealthLost job pid ∧ ∃ e, s.wait = .error e)

/-- An exchange is taken back, unless that fails or the child stays. -/
theorem settled_of_transact {job : Transact.Job} {s : Transact.Script}
    (hswap : .swap true ∈ (transact job s).2) :
    .swapBack true ∈ (transact job s).2 ∨ .swapBack false ∈ (transact job s).2 ∨ Stays job s := by
  by_cases hlost : s.ChildNotReaped job
  · obtain ⟨-, -, ⟨pid, hpid, hhealth⟩, hwait⟩ := hlost
    exact .inr (.inr ⟨pid, hpid, .inr ⟨hhealth, hwait⟩⟩)
  · have hatomic := atomic_of_reaped hlost
    have hlogs := transact_logs job s
    cases hresult : (transact job s).1 with
    | ok u =>
      obtain ⟨-, pid, hpid, hread⟩ := hatomic.ok hresult
      exact .inr (.inr ⟨pid, hpid, .inl hread⟩)
    | error e =>
      rcases hatomic.error e hresult with hold | ⟨hback, -, -⟩
      · generalize (transact job s).2 = log at hswap hlogs hold ⊢
        cases hlogs with
        | failedSwap start app => simp at hswap
        | installed pid => cases hold
        | notReaped pid kill => cases hold
        | rolledBack htried hback =>
          cases hback with
          | failed stop => exact .inr (.inl (by simp))
          | done stop start app => exact .inl (by simp)
      · exact .inr (.inl hback)

theorem settled_of_transactWith (hswap : .swap true ∈ (transactWith job s daemon).2) :
    .swapBack true ∈ (transactWith job s daemon).2 ∨
      .swapBack false ∈ (transactWith job s daemon).2 ∨ Stays job.toJob s.transaction := by
  cases daemon with
  | true => exact settled_of_transact hswap
  | false =>
    rcases settled_of_transact (mem_noDaemon.mp hswap).1 with hback | hback | hstays
    · exact .inl (mem_noDaemon.mpr ⟨hback, rfl⟩)
    · exact .inr (.inl (mem_noDaemon.mpr ⟨hback, rfl⟩))
    · exact .inr (.inr hstays)

theorem settled_of_worker (hswap : .swap true ∈ (runWorker job s).log) :
    .swapBack true ∈ (runWorker job s).log ∨ .swapBack false ∈ (runWorker job s).log ∨
      Stays job.toJob s.transaction := by
  obtain ⟨daemon, -, hlog⟩ := transacted_of_exchange rfl hswap
  rw [hlog] at hswap ⊢
  have hmem : ∀ e, exchanges e = true ∨ e = .swapBack false →
      (e ∈ (if daemon then [.stopDaemon true] else []) ++ (transactWith job s daemon).2 ↔
        e ∈ (transactWith job s daemon).2) := by
    intro e he
    cases daemon with
    | false => rfl
    | true =>
      rw [if_pos rfl, List.singleton_append, List.mem_cons, or_iff_right]
      rintro rfl
      rcases he with he | he <;> cases he
  rw [hmem _ (.inl rfl)] at hswap
  rw [hmem _ (.inl rfl), hmem _ (.inr rfl)]
  exact settled_of_transactWith hswap

end Logs

/-! ## Over a run -/

/-- The job was cleared by a preparation among the actions. -/
def Staged (semver : Semver) (cpu : UInt32) (fs : FileSystem) (as : List Action)
    (job : UpdateJob.Job) : Prop :=
  ∃ p, .prepare p ∈ as ∧ Cleared semver cpu fs p.updates p.version p.pid p.script job

/-- The order of the `semver` crate: a stable version after the other. -/
def Newer (semver : Semver) (version current : String) : Prop :=
  ∃ next running, semver.parse version = .ok next ∧ semver.parse current = .ok running ∧
    next.pre = "" ∧ semver.lt running next

def SameOrNewer (semver : Semver) (version current : String) : Prop :=
  version = current ∨ Newer semver version current

/-- A worker installs the version of its job, which was cleared before: it found the candidate
verified and newer than what was installed when it looked. -/
structure Installs (semver : Semver) (cpu : UInt32) (fs : FileSystem) (as : List Action)
    (w' : World) (b : Busy) : Prop where
  staged : Staged semver cpu fs as b.work.job
  version : w'.installed = b.work.job.version
  verified : Verified cpu b.work.candidate b.work.job.version
  newer : Newer semver b.work.job.version b.found

/-- The orders of identifiers are transitive, as those of the crate are. -/
structure Ordered (semver : Semver) : Prop where
  pre : ∀ a b c, semver.preLt a b = true → semver.preLt b c = true → semver.preLt a c = true
  build : ∀ a b c, semver.buildLt a b = true → semver.buildLt b c = true → semver.buildLt a c = true

/-- No worker was started yet. -/
structure Start (w : World) : Prop where
  jobs : w.jobs = []
  busy : w.busy = none

/-- A worker that has the lock takes the steps of its run.  It exchanges bundles only after its
checks, and what it took out last is at the candidate's path. -/
structure Working (semver : Semver) (cpu : UInt32) (fs : FileSystem) (as : List Action) (b : Busy) :
    Prop where
  staged : Staged semver cpu fs as b.work.job
  log : b.done ++ b.rest = (b.work.run semver cpu).log
  checked : ∀ e ∈ (b.work.run semver cpu).log, exchanges e = true →
    Verified cpu b.work.candidate b.work.job.version ∧ Newer semver b.work.job.version b.found ∧
      b.work.candidateVersion = b.work.job.version
  before : b.done.filter exchanges = [] → b.candidate = b.work.candidateVersion
  after : b.done.filter exchanges ≠ [] → b.took = some b.candidate

/-- What holds in every state. -/
structure Inv (semver : Semver) (cpu : UInt32) (fs : FileSystem) (as : List Action) (w : World) :
    Prop where
  jobs : ∀ job ∈ w.jobs, Staged semver cpu fs as job
  busy : ∀ b, w.busy = some b → Working semver cpu fs as b

section Order

variable {semver : Semver}

theorem lt_trans (ho : Ordered semver) {u v x : Version} (h : semver.lt u v) (h' : semver.lt v x) :
    semver.lt u x := by
  have hpre := ho.pre u.pre v.pre x.pre
  have hbuild := ho.build u.build v.build x.build
  unfold Semver.lt at *
  grind

theorem newer_trans (ho : Ordered semver) {u v x : String} (h : Newer semver v u)
    (h' : Newer semver x v) : Newer semver x u := by
  obtain ⟨next, running, hnext, hrunning, -, hlt⟩ := h
  obtain ⟨last, next', hlast, hnext', hpre, hlt'⟩ := h'
  rw [hnext] at hnext'
  cases hnext'
  exact ⟨last, running, hlast, hrunning, hpre, lt_trans ho hlt hlt'⟩

theorem sameOrNewer_of_newer (ho : Ordered semver) {u v x : String} (h : SameOrNewer semver v u)
    (h' : Newer semver x v) : SameOrNewer semver x u := by
  rcases h with rfl | h
  · exact .inr h'
  · exact .inr (newer_trans ho h h')

end Order

section Runs

variable {semver : Semver} {cpu : UInt32} {fs : FileSystem} {as bs : List Action} {a : Action}
  {w₀ w w' : World} {b : Busy} {e : Transact.Event} {rest : List Transact.Event}

theorem mem_spawned {log : List Staging.Event} {job : UpdateJob.Job} :
    job ∈ spawned log ↔ ∃ pid, .spawn job pid ∈ log := by
  unfold spawned
  rw [List.mem_filterMap]
  constructor
  · rintro ⟨e, he, hjob⟩
    cases e <;> simp_all
    exact ⟨_, he⟩
  · rintro ⟨pid, h⟩
    exact ⟨_, h, rfl⟩

/-- A preparation starts workers only as `prepare` does. -/
theorem cleared_of_preparation {p : Preparation} {outcome : Option OutcomeFile}
    {job : UpdateJob.Job} (h : job ∈ spawned (p.run semver cpu fs outcome).log) :
    Cleared semver cpu fs p.updates p.version p.pid p.script job := by
  obtain ⟨pid, hspawn⟩ := mem_spawned.mp h
  have hdisciplined :=
    disciplined_of_shape (@prepare_shape semver cpu fs p.updates p.version p.pid p.script)
  unfold Preparation.run prepareAndSpawn at hspawn
  split at hspawn
  · cases hspawn
  · split at hspawn
    · cases hspawn
    · split at hspawn
      · rename_i r log hprepare
        rw [hprepare] at hdisciplined
        exact hdisciplined.cleared job pid hspawn
      · rename_i e log hprepare
        rw [hprepare] at hdisciplined
        split at hspawn
        · exact hdisciplined.cleared job pid hspawn
        · exact hdisciplined.cleared job pid hspawn

/-- What a worker has found that gets as far as an exchange. -/
theorem checked_of_exchange {k : Work} {installed : String}
    (hinstalled : reads k.installedVersion installed)
    (hcandidate : reads k.candidate.bundleVersion k.candidateVersion)
    (hmem : e ∈ (k.run semver cpu).log) (he : exchanges e = true) :
    Verified cpu k.candidate k.job.version ∧ Newer semver k.job.version installed ∧
      k.candidateVersion = k.job.version := by
  obtain ⟨daemon, hprepared, -⟩ := transacted_of_exchange he hmem
  obtain ⟨hverify, hnewer⟩ := prepared_checks hprepared
  have hverified : Verified cpu k.candidate k.job.version := verifyApp_ok_iff.mp hverify
  obtain ⟨current, hread, hnewer⟩ := bind_ok_iff.mp hnewer
  rw [hinstalled current hread] at hnewer
  exact ⟨hverified, newer_ok_iff.mp (newerThan_ok_iff.mp hnewer),
    (hcandidate _ hverified.bundleVersion).symm⟩

/-- Every step, with what it rests on. -/
inductive Moves (semver : Semver) (cpu : UInt32) (fs : FileSystem) (w : World) :
    Action → World → Prop
  | prepare (p : Preparation) :
    Moves semver cpu fs w (.prepare p)
      { w with
        outcome := (p.run semver cpu fs w.outcome).outcome
        jobs := w.jobs ++ spawned (p.run semver cpu fs w.outcome).log }
  | refused (k : Work) (reports : List OutcomeFile) :
    Moves semver cpu fs w (.start k) { w with jobs := w.jobs.erase k.job, reports := reports }
  | start (k : Work) (hjob : k.job ∈ w.jobs) (hinstalled : reads k.installedVersion w.installed)
    (hcandidate : reads k.candidate.bundleVersion k.candidateVersion) :
    Moves semver cpu fs w (.start k)
      { w with
        jobs := w.jobs.erase k.job
        busy := some ⟨k, w.installed, k.candidateVersion, none, [], (k.run semver cpu).log⟩ }
  | act (b : Busy) (e : Transact.Event) (rest : List Transact.Event) (hb : w.busy = some b)
    (hrest : b.rest = e :: rest) : Moves semver cpu fs w .act (w.act b e rest)
  | finish (b : Busy) (reports : List OutcomeFile) (hb : w.busy = some b) (hrest : b.rest = []) :
    Moves semver cpu fs w .finish { w with busy := none, reports := reports }
  | die : Moves semver cpu fs w .die { w with busy := none }
  | report (i : Nat) (o : OutcomeFile) (reports : List OutcomeFile) :
    Moves semver cpu fs w (.report i) { w with outcome := some o, reports := reports }
  | replace (version : String) :
    Moves semver cpu fs w (.replace version) { w with installed := version }

theorem moves_of_step (hs : step semver cpu fs w a = some w') : Moves semver cpu fs w a w' := by
  cases a with
  | prepare p =>
    simp only [step, Option.ite_none_right_eq_some, Option.some.injEq] at hs
    obtain ⟨-, rfl⟩ := hs
    exact .prepare p
  | start k =>
    simp only [step, Option.ite_none_right_eq_some] at hs
    obtain ⟨⟨hjob, hinstalled, hcandidate⟩, hs⟩ := hs
    split at hs
    · cases hs
      exact .refused k _
    · cases hs
      exact .start k hjob hinstalled hcandidate
    · cases hs
  | act =>
    simp only [step, Option.bind_eq_some_iff] at hs
    obtain ⟨b, hb, hs⟩ := hs
    split at hs
    · cases hs
    · rename_i e rest hrest
      cases hs
      exact .act b e rest hb hrest
  | finish =>
    simp only [step, Option.bind_eq_some_iff] at hs
    obtain ⟨b, hb, hs⟩ := hs
    split at hs
    · rename_i hrest
      cases hs
      exact .finish b _ hb hrest
    · cases hs
  | die =>
    simp only [step, Option.map_eq_some_iff] at hs
    obtain ⟨b, -, rfl⟩ := hs
    exact .die
  | report i =>
    simp only [step, Option.map_eq_some_iff] at hs
    obtain ⟨o, -, rfl⟩ := hs
    exact .report i o _
  | replace version =>
    cases hs
    exact .replace version

/-- **A step of the worker** that has the lock. -/
theorem working_act (h : Working semver cpu fs as b) (hrest : b.rest = e :: rest) {b' : Busy}
    (hb' : (w.act b e rest).busy = some b') : Working semver cpu fs as b' := by
  have hlog : (b.done ++ [e]) ++ rest = (b.work.run semver cpu).log := by
    rw [← h.log, hrest, List.append_assoc, List.singleton_append]
  cases he : exchanges e with
  | true =>
    simp only [World.act, he, ↓reduceIte, Option.some.injEq] at hb'
    subst hb'
    exact {
      staged := h.staged
      log := hlog
      checked := h.checked
      before := by simp [he]
      after := fun _ => rfl }
  | false =>
    simp only [World.act, he, Bool.false_eq_true, ↓reduceIte, Option.some.injEq] at hb'
    subst hb'
    have hfilter : (b.done ++ [e]).filter exchanges = b.done.filter exchanges := by simp [he]
    exact {
      staged := h.staged
      log := hlog
      checked := h.checked
      before := fun hnone => h.before (hfilter ▸ hnone)
      after := fun hsome => h.after (hfilter ▸ hsome) }

/-- **A step.** -/
theorem inv_step (h : Inv semver cpu fs as w) (ha : a ∈ as) (hm : Moves semver cpu fs w a w') :
    Inv semver cpu fs as w' := by
  have herase : ∀ k : Work, ∀ job ∈ w.jobs.erase k.job, Staged semver cpu fs as job :=
    fun k job hmem => h.jobs job (List.mem_of_mem_erase hmem)
  cases hm with
  | prepare p =>
    refine ⟨fun job hjob => ?_, h.busy⟩
    rcases List.mem_append.mp hjob with hjob | hjob
    · exact h.jobs job hjob
    · exact ⟨p, ha, cleared_of_preparation hjob⟩
  | refused k reports => exact ⟨herase k, h.busy⟩
  | start k hjob hinstalled hcandidate =>
    refine ⟨herase k, fun b hb => ?_⟩
    obtain rfl := Option.some.inj hb
    exact {
      staged := h.jobs k.job hjob
      log := rfl
      checked := fun e hmem he => checked_of_exchange hinstalled hcandidate hmem he
      before := fun _ => rfl
      after := fun hsome => absurd rfl hsome }
  | act b e rest hb hrest =>
    refine ⟨?_, fun b' hb' => working_act (h.busy b hb) hrest hb'⟩
    unfold World.act
    dsimp only
    split
    · exact h.jobs
    · exact h.jobs
  | finish | die => exact ⟨h.jobs, by simp⟩
  | report i o reports => exact ⟨h.jobs, h.busy⟩
  | replace version => exact ⟨h.jobs, h.busy⟩

theorem inv_run (h0 : Start w₀) (h : run (step semver cpu fs) w₀ as = some w) :
    Inv semver cpu fs as w := by
  refine (Exec.of_run (G := fun _ a => a ∈ as) (fun _ _ ha => ha) h).invariant
    (fun _ _ _ hI ha hs => inv_step hI ha (moves_of_step hs)) ⟨?_, ?_⟩
  · simp [h0.jobs]
  · simp [h0.busy]

/-- **What a step of the worker changes** about the installed version. -/
theorem installed_act (h : Working semver cpu fs as b) (hrest : b.rest = e :: rest) :
    (w.act b e rest).installed = w.installed ∨
      e = .swap true ∧ Installs semver cpu fs as (w.act b e rest) b ∨
      e = .swapBack true ∧ b.took = some (w.act b e rest).installed := by
  cases he : exchanges e with
  | false => exact .inl (by simp [World.act, he])
  | true =>
    have hinstalled : (w.act b e rest).installed = b.candidate := by simp [World.act, he]
    obtain ⟨tail, htail⟩ := exchanges_of_worker (toWorker b.work.job) (b.work.checked semver cpu)
    have hlog : (runWorker (toWorker b.work.job) (b.work.checked semver cpu)).log =
        b.done ++ e :: rest := by rw [← hrest, h.log]; rfl
    rw [hlog, List.filter_append, List.filter_cons_of_pos he] at htail
    have hmem : e ∈ (b.work.run semver cpu).log := by rw [← h.log, hrest]; simp
    cases hdone : b.done.filter exchanges with
    | nil =>
      rw [hdone, List.nil_append, List.cons_append, List.cons.injEq] at htail
      obtain ⟨hverified, hnewer, hversion⟩ := h.checked e hmem he
      refine .inr (.inl ⟨htail.1, h.staged, ?_, hverified, hnewer⟩)
      rw [hinstalled, h.before hdone, hversion]
    | cons x xs =>
      have htook : b.took = some (w.act b e rest).installed := by
        rw [hinstalled]
        exact h.after (by simp [hdone])
      rw [hdone] at htail
      refine .inr (.inr ⟨?_, htook⟩)
      cases xs with
      | nil =>
        simp only [List.cons_append, List.nil_append, List.cons.injEq] at htail
        exact htail.2.1
      | cons y ys => simp at htail

/-- **What a step can change** about the installed version. -/
theorem installed_step (h : Inv semver cpu fs as w) (hm : Moves semver cpu fs w a w') :
    w'.installed = w.installed ∨ a = .replace w'.installed ∨
      a = .act ∧ ∃ b e rest, w.busy = some b ∧ b.rest = e :: rest ∧
        (e = .swap true ∧ Installs semver cpu fs as w' b ∨
          e = .swapBack true ∧ b.took = some w'.installed) := by
  cases hm with
  | act b e rest hb hrest =>
    rcases installed_act (h.busy b hb) hrest with hsame | hchange
    · exact .inl hsame
    · exact .inr (.inr ⟨rfl, b, e, rest, hb, hrest, hchange⟩)
  | replace version => exact .inr (.inl rfl)
  | prepare | refused | start | finish | die | report => exact .inl rfl

/-- A worker that is done has taken all its steps. -/
theorem finish_settled (h : Inv semver cpu fs as w) (hb : w.busy = some b)
    (hm : Moves semver cpu fs w .finish w') (hswap : .swap true ∈ b.done) :
    .swapBack true ∈ b.done ∨ .swapBack false ∈ b.done ∨
      Stays b.work.job.toTransact b.work.script.transaction := by
  cases hm with
  | finish b' reports hb' hrest =>
    obtain rfl := Option.some.inj (hb.symm.trans hb')
    have hlog := (h.busy b hb).log
    rw [hrest, List.append_nil] at hlog
    rw [hlog] at hswap ⊢
    exact settled_of_worker hswap

/-- An automatic attempt at a version whose failure is on record. -/
theorem paused {p : Preparation} {error : String} (hauto : p.automatic = true)
    (hfailed : lastFailure w.outcome p.version = some error)
    (hs : step semver cpu fs w (.prepare p) = some w') : w' = w := by
  simp only [step] at hs
  split at hs
  · cases hs
    unfold Preparation.run prepareAndSpawn
    simp only [hauto, ↓reduceIte, hfailed]
    cases p.lock <;> simp [spawned]
  · cases hs

theorem Staged.mono {job : UpdateJob.Job} (h : Staged semver cpu fs as job) (hsub : as ⊆ bs) :
    Staged semver cpu fs bs job := by
  obtain ⟨p, hp, hcleared⟩ := h
  exact ⟨p, hsub hp, hcleared⟩

/-- What is installed, and what a worker will exchange it for, is no older than `start`. -/
structure NoOlder (semver : Semver) (start : String) (w : World) : Prop where
  installed : SameOrNewer semver w.installed start
  candidate : ∀ b, w.busy = some b → (∃ e ∈ b.rest, exchanges e = true) →
    SameOrNewer semver b.candidate start

/-- **A step that installs nothing by hand** leaves nothing older. -/
theorem noOlder_step (ho : Ordered semver) {start : String} (h : NoOlder semver start w)
    (ha : ∀ version, a ≠ .replace version) (hm : Moves semver cpu fs w a w') :
    NoOlder semver start w' := by
  cases hm with
  | prepare p => exact ⟨h.installed, h.candidate⟩
  | refused k reports => exact ⟨h.installed, h.candidate⟩
  | start k hjob hinstalled hcandidate =>
    refine ⟨h.installed, fun b hb hexchange => ?_⟩
    obtain rfl := Option.some.inj hb
    obtain ⟨e, hmem, he⟩ := hexchange
    obtain ⟨-, hnewer, hversion⟩ := checked_of_exchange hinstalled hcandidate hmem he
    show SameOrNewer semver k.candidateVersion start
    rw [hversion]
    exact sameOrNewer_of_newer ho h.installed hnewer
  | act b e rest hb hrest =>
    have hcandidate := h.candidate b hb
    rw [hrest] at hcandidate
    cases he : exchanges e with
    | true =>
      simp only [World.act, he, ↓reduceIte]
      refine ⟨hcandidate ⟨e, List.mem_cons_self, he⟩, fun b' hb' _ => ?_⟩
      obtain rfl := Option.some.inj hb'
      exact h.installed
    | false =>
      simp only [World.act, he, Bool.false_eq_true, ↓reduceIte]
      refine ⟨h.installed, fun b' hb' hexchange => ?_⟩
      obtain rfl := Option.some.inj hb'
      obtain ⟨e', hmem, he'⟩ := hexchange
      exact hcandidate ⟨e', List.mem_cons_of_mem e hmem, he'⟩
  | finish | die => exact ⟨h.installed, by simp⟩
  | report i o reports => exact ⟨h.installed, h.candidate⟩
  | replace version => exact absurd rfl (ha version)

/-- **The installed version over time.** In every state of every run: a step changes the installed
version only if it is installed by hand, or by a worker's exchange that `Installs` its job's, or by
the worker's way back, to what it took out; a worker that is done went back, or could not, or its
child `Stays`; while no worker is under way and nothing is installed by hand from there on, the
version stays or is a newer one; and an automatic attempt at a version whose failure is on record
changes nothing. -/
theorem installed_versions (ho : Ordered semver) (h0 : Start w₀)
    (h : run (step semver cpu fs) w₀ as = some w) :
    (∀ a w', step semver cpu fs w a = some w' →
      w'.installed = w.installed ∨ a = .replace w'.installed ∨
        a = .act ∧ ∃ b e rest, w.busy = some b ∧ b.rest = e :: rest ∧
          (e = .swap true ∧ Installs semver cpu fs as w' b ∨
            e = .swapBack true ∧ b.took = some w'.installed)) ∧
    (∀ b w', w.busy = some b → step semver cpu fs w .finish = some w' → .swap true ∈ b.done →
      .swapBack true ∈ b.done ∨ .swapBack false ∈ b.done ∨
        Stays b.work.job.toTransact b.work.script.transaction) ∧
    (w.busy = none → ∀ bs w', (∀ version, .replace version ∉ bs) →
      run (step semver cpu fs) w bs = some w' → SameOrNewer semver w'.installed w.installed) ∧
    ∀ p error w', p.automatic = true → lastFailure w.outcome p.version = some error →
      step semver cpu fs w (.prepare p) = some w' → w' = w := by
  have hinv := inv_run h0 h
  refine ⟨fun a w' hs => installed_step hinv (moves_of_step hs),
    fun b w' hb hs hswap => finish_settled hinv hb (moves_of_step hs) hswap, ?_,
    fun p error w' hauto hfailed hs => paused hauto hfailed hs⟩
  intro hidle bs w' hhand hrun
  have hexec := Exec.of_run (G := fun _ a => ∀ version, a ≠ .replace version)
    (fun _ a ha version heq => hhand version (by rwa [← heq])) hrun
  have hstart : NoOlder semver w.installed w := by
    refine ⟨.inl rfl, fun b hb => ?_⟩
    rw [hidle] at hb
    cases hb
  exact (hexec.invariant (fun _ _ _ hI ha hs => noOlder_step ho hI ha (moves_of_step hs))
    hstart).installed

end Runs

/-! ### An update that goes through -/

theorem releases_ordered : Ordered releases := by
  constructor
  · intro a b c h h'
    simp only [releases, decide_eq_true_eq] at *
    exact absurd h.2 h'.1
  · intro a b c h h'
    simp only [releases, decide_eq_true_eq] at *
    exact absurd h'.1 h.2

def accepted : Except Error Assessment :=
  .ok ⟨true, "accepted\nsource=Notarized Developer ID\n".toList⟩

/-- A signed and notarized bundle for Apple silicon. -/
def release : AppChecks where
  codesign := .ok ()
  spctl := accepted
  bundleId := .ok APP_ID
  bundleVersion := .ok "0.5.12"
  header := .ok [0xcf, 0xfa, 0xed, 0xfe, 0x0c, 0, 0, 1]

def samplePreparation : Preparation where
  updates := updatesFolder
  version := "0.5.12"
  automatic := true
  pid := 400
  lock := .ok ()
  writeOutcome := .ok ()
  script := {
    currentExe := .ok sampleJob.executable
    installedVersion := .ok "0.5.11"
    installedId := .ok APP_ID
    image := ⟨.ok (), accepted⟩
    makeWorkspace := .ok sampleDrawn
    setPermissions := .ok ()
    token := sampleToken
    makeMount := .ok ()
    attach := .ok ()
    attached := true
    copyCandidate := .ok ()
    candidate := release
    detach := .ok ()
    allowed := true
    copyHelper := .ok ()
    writeJob := .ok ()
    openLog := .ok ()
    spawn := .ok 401
    polls := fun _ => ⟨true, .ok false⟩
    deadline := 100
    allowedAgain := true
    kill := .ok ()
    wait := .ok ()
    recordActive := .ok () }

/-- The new app confirms its start in the first poll. -/
def sampleWork : Work where
  job := sampleJob
  candidateVersion := "0.5.12"
  candidate := release
  installedVersion := .ok "0.5.11"
  script := { unconfirmed with
    transaction := { reapedElsewhere with
      polls := fun _ => ⟨.ok false, some ⟨sampleToken, "0.5.12", 501⟩⟩ } }

def before : World := ⟨"0.5.11", none, [], none, []⟩

/-- The update is prepared, and a worker has the lock and has stopped the daemon. -/
def handedOver : List Action := [.prepare samplePreparation, .start sampleWork, .act]

/-- The worker swaps the bundles, starts the daemon and the app, finds it ready and is done. -/
def exchanged : List Action := [.act, .act, .act, .act, .finish]

/-- The next step is the swap. -/
def underWay : World :=
  ⟨"0.5.11", none, [],
    some ⟨sampleWork, "0.5.11", "0.5.12", none, [.stopDaemon true],
      [.swap true, .startDaemon true, .startApp true (some 501), .health true]⟩, []⟩

theorem run_handedOver :
    run (step releases MachO.CPU_TYPE_ARM64 sampleFiles) before handedOver = some underWay := rfl

theorem installed_versions_update :
    (∃ (w' : World) (job : UpdateJob.Job),
        step releases MachO.CPU_TYPE_ARM64 sampleFiles underWay .act = some w' ∧
        Staged releases MachO.CPU_TYPE_ARM64 sampleFiles handedOver job ∧
        w'.installed = job.version) ∧
      ∃ w, run (step releases MachO.CPU_TYPE_ARM64 sampleFiles) before (handedOver ++ exchanged) =
          some w ∧ w.installed = "0.5.12" ∧ SameOrNewer releases w.installed "0.5.11" := by
  constructor
  · obtain ⟨hstep, -⟩ := installed_versions releases_ordered ⟨rfl, rfl⟩ run_handedOver
    refine ⟨_, sampleJob, rfl, ?_⟩
    rcases hstep .act _ rfl with hsame | hhand | ⟨-, b, e, rest, hb, -, ⟨-, hinstalls⟩ | ⟨-, htook⟩⟩
    · exact absurd hsame (by decide)
    · cases hhand
    · cases hb
      exact ⟨hinstalls.staged, hinstalls.version⟩
    · cases hb
      cases htook
  · obtain ⟨-, -, hnewer, -⟩ := @installed_versions releases MachO.CPU_TYPE_ARM64 sampleFiles []
      before before releases_ordered ⟨rfl, rfl⟩ rfl
    have hnohand : ∀ version, .replace version ∉ handedOver ++ exchanged := by
      simp [handedOver, exchanged]
    exact ⟨_, rfl, rfl, hnewer rfl _ _ hnohand rfl⟩

end LinkPilot.UpdateRuns
