import LinkPilot.UpdateJob
import LinkPilot.MachO
import LinkPilot.Lib.Texts
import LinkPilot.VersionOrder
import LinkPilot.Worker

/-!
# The preparation of an update

Model of `prepare_and_spawn` and `prepare` of `crates/updater/src/lib.rs`, with `verify_app`,
`verify_dmg`, `assess_notarized`, `create_workspace` and `last_failure`.  As in the model of the
worker, every step that can fail takes its outcome from a script, and a run returns what the source
returns together with the log of what it did to the volume, the workspace and the worker.

A failed `hdiutil attach` may leave a volume attached; a `hdiutil detach` that succeeds leaves none.
Neither `kill` nor `wait` fails on a worker whose exit has been seen.

Principal results:

* `prepare_disciplined` — in every run, a workspace is removed only while no volume is attached in
  it or is named in the error, a worker is started only for an image and a candidate that passed
  every check, and a worker that is not handed the update is killed and waited for, unless asking
  whether it has exited failed.
-/

set_option autoImplicit false

namespace LinkPilot.Staging

open Paths Transact UpdateJob Worker VersionOrder

/-! ## The script -/

/-- What `spctl` returned. -/
structure Assessment where
  success : Bool
  stderr : List Char

/-- The outcomes of the steps of `verify_dmg`. -/
structure ImageChecks where
  codesign : Except Error Unit
  spctl : Except Error Assessment

/-- The outcomes of the steps of `verify_app`; `header` is what the start of the executable was
read as. -/
structure AppChecks where
  codesign : Except Error Unit
  spctl : Except Error Assessment
  bundleId : Except Error String
  bundleVersion : Except Error String
  header : Except Error (List UInt8)

/-- One turn of the wait for the worker: whether its ready file is there, and whether it has
exited. -/
structure ReadyPoll where
  ready : Bool
  tryWait : Except Error Bool

/-- The outcomes of the steps of `prepare`.  `attached` says whether there is a volume at the mount
point after the attempt to attach the image. -/
structure Script where
  currentExe : Except Error Path
  installedVersion : Except Error String
  installedId : Except Error String
  image : ImageChecks
  makeWorkspace : Except Error Drawn
  setPermissions : Except Error Unit
  token : String
  makeMount : Except Error Unit
  attach : Except Error Unit
  attached : Bool
  copyCandidate : Except Error Unit
  candidate : AppChecks
  detach : Except Error Unit
  allowed : Bool
  copyHelper : Except Error Unit
  writeJob : Except Error Unit
  openLog : Except Error Unit
  spawn : Except Error UInt32
  polls : Nat → ReadyPoll
  deadline : Nat
  allowedAgain : Bool
  kill : Except Error Unit
  wait : Except Error Unit
  recordActive : Except Error Unit

inductive Event where
  | makeWorkspace
  | attach (attached : Bool)
  | detach (ok : Bool)
  | spawn (job : UpdateJob.Job) (pid : UInt32)
  | kill (ok : Bool)
  | wait (ok : Bool)
  | recordActive (pid : UInt32)
  | keepWorkspace
  | removeWorkspace
  deriving DecidableEq

abbrev Run := Except Error Bool × List Event

/-! ## The checks -/

def APP_ID : String := "app.linkpilot.desktop"

/-- `assess_notarized`. -/
def assessNotarized (spctl : Except Error Assessment) : Except Error Unit := do
  let output ← spctl
  bailIf (!output.success ||
      !(Texts.strLines output.stderr).any fun line =>
        Texts.trim line == "source=Notarized Developer ID".toList)
    ["Apple notarization assessment failed: " ++ .ofList (Texts.trim output.stderr)]

/-- `verify_dmg`. -/
def verifyDmg (c : ImageChecks) : Except Error Unit := do
  c.codesign
  assessNotarized c.spctl

def mismatch : Error := ["The signed application identity or version does not match the update"]

/-- The answer of `macho_has_cpu`; it never panics. -/
def hasCpu (header : List UInt8) (cpu : UInt32) : Bool :=
  match MachO.machoHasCpu header cpu with
  | .ok found => found
  | .error _ => false

/-- `verify_app`. -/
def verifyApp (cpu : UInt32) (c : AppChecks) (version : String) : Except Error Unit := do
  c.codesign
  assessNotarized c.spctl
  let id ← c.bundleId
  bailIf (id != APP_ID) mismatch
  let found ← c.bundleVersion
  bailIf (found != version) mismatch
  let header ← c.header
  bailIf (!hasCpu header cpu) ["Update does not support this Mac's architecture"]

/-- `newer(..)?`. -/
def newerThan (semver : Semver) (version current : String) : Except Error Unit :=
  (newer semver version current).mapError fun e => [e]

/-! ## The code -/

section Code

variable (semver : Semver) (cpu : UInt32) (fs : FileSystem)

/-- How the wait for the ready file ends. -/
inductive ReadyEnd where
  | ready
  | notReady (exited : Bool)
  | failed (e : Error)

/-- The wait for the ready file, from poll `n` on, with `remaining` polls before the deadline. -/
def awaitReady (polls : Nat → ReadyPoll) (n remaining : Nat) : ReadyEnd :=
  if (polls n).ready then .ready
  else
    match (polls n).tryWait with
    | .error e => .failed e
    | .ok true => .notReady true
    | .ok false =>
      match remaining with
      | 0 => .notReady false
      | remaining + 1 => awaitReady polls (n + 1) remaining

/-- From the wait for the worker on. -/
def handOver (s : Script) (pid : UInt32) : Run :=
  match awaitReady s.polls 0 s.deadline with
  -- `try_wait()?` returns with the worker running
  | .failed e => (.error e, [])
  | .notReady exited =>
    (.error ["Update worker did not start; the installed application is unchanged"],
      [.kill (exited || s.kill.isOk), .wait (exited || s.wait.isOk)])
  | .ready =>
    if s.allowedAgain then
      match s.recordActive with
      | .error e => (.error e, [.kill s.kill.isOk, .wait s.wait.isOk])
      | .ok () => (.ok true, [.recordActive pid])
    else
      match s.wait with
      | .error e => (.error e, [.kill s.kill.isOk, .wait false])
      | .ok () => (.ok false, [.kill s.kill.isOk, .wait true])

/-- From the first question whether the update is allowed on. -/
def launch (s : Script) (job : UpdateJob.Job) : Run :=
  if s.allowed then
    match (do s.copyHelper; s.writeJob; s.openLog : Except Error Unit) with
    | .error e => (.error e, [])
    | .ok () =>
      match s.spawn with
      | .error e => (.error ("starting update worker" :: e), [])
      | .ok pid =>
        let r := handOver s pid
        (r.1, .spawn job pid :: r.2)
  else (.ok false, [])

/-- The closure `staged`. -/
def stage (s : Script) (version : String) : Except Error Unit := do
  s.attach
  s.copyCandidate
  verifyApp cpu s.candidate version

/-- What becomes of the workspace when `prepare` returns. -/
def dropWorkspace (result : Except Error Bool) : Event :=
  match result with
  | .ok true => .keepWorkspace
  | _ => .removeWorkspace

/-- From the mount point on. -/
def inWorkspace (s : Script) (version : String) (job : UpdateJob.Job) : Run :=
  match s.makeMount with
  | .error e => (.error e, [.removeWorkspace])
  | .ok () =>
    let staged := stage cpu s version
    match s.detach with
    | .error _ =>
      (.error ["Could not detach update volume; staging retained at " ++ job.workspace.text],
        [.attach s.attached, .detach false, .keepWorkspace])
    | .ok () =>
      match staged with
      | .error e => (.error e, [.attach s.attached, .detach true, .removeWorkspace])
      | .ok () =>
        let r := launch s job
        (r.1, [.attach s.attached, .detach true] ++ r.2 ++ [dropWorkspace r.1])

/-- The steps before the workspace: they find the target. -/
def preflight (s : Script) (version : String) : Except Error Path := do
  let _ ← (semver.parse version).mapError fun e => ([e] : Error)
  let exe ← s.currentExe
  let target ← appRoot fs exe
  let installed ← s.installedVersion
  newerThan semver version installed
  let id ← s.installedId
  bailIf (id != APP_ID) ["External updates are unavailable for this edition"]
  verifyDmg s.image
  return target

/-- `create_workspace`, up to its permissions. -/
def createWorkspace (s : Script) (target : Path) : Except Error Path :=
  match target.parent with
  | none => .error ["missing app parent"]
  | some folder =>
    match s.makeWorkspace with
    | .error e =>
      .error ("App folder is not writable; open the downloaded installer to upgrade manually" :: e)
    | .ok drawn => .ok (folder.join (workspaceName drawn))

/-- `prepare`, of the process `pid`. -/
def prepare (updates : Path) (version : String) (pid : UInt32) (s : Script) : Run :=
  match preflight semver fs s version with
  | .error e => (.error e, [])
  | .ok target =>
    match createWorkspace s target with
    | .error e => (.error e, [])
    | .ok workspace =>
      match (do s.setPermissions; fs.canonicalize updates : Except Error Path) with
      | .error e => (.error e, [.makeWorkspace, .removeWorkspace])
      | .ok updates =>
        let r := inWorkspace cpu s version ⟨target, workspace, updates, version, s.token, pid⟩
        (r.1, .makeWorkspace :: r.2)

/-- `last_failure`, of what `outcome.json` is read as. -/
def lastFailure (outcome : Option OutcomeFile) (version : String) : Option String :=
  outcome.bind fun o => if o.version = version then o.error else none

/-- What `prepare_and_spawn` returns, what it did, and the outcome that it leaves on record. -/
structure Attempted where
  result : Except Error Bool
  log : List Event
  outcome : Option OutcomeFile

/-- `prepare_and_spawn`. -/
def prepareAndSpawn (lock writeOutcome : Except Error Unit) (outcome : Option OutcomeFile)
    (updates : Path) (version : String) (automatic : Bool) (pid : UInt32) (s : Script) : Attempted :=
  match lock with
  | .error e => ⟨.error e, [], outcome⟩
  | .ok () =>
    match if automatic then lastFailure outcome version else none with
    | some error => ⟨.error ["Automatic retry paused for " ++ version ++ ": " ++ error], [], outcome⟩
    | none =>
      match prepare semver cpu fs updates version pid s with
      | (.ok handedOff, log) => ⟨.ok handedOff, log, outcome⟩
      | (.error error, log) =>
        match writeOutcome with
        | .error e => ⟨.error e, log, outcome⟩
        | .ok () => ⟨.error error, log, some ⟨version, some (render error)⟩⟩

end Code

/-! ## What is checked -/

/-- Apple's assessment names the source. -/
def Notarized (spctl : Except Error Assessment) : Prop :=
  ∃ a, spctl = .ok a ∧ a.success = true ∧
    ∃ line ∈ Texts.strLines a.stderr, Texts.trim line = "source=Notarized Developer ID".toList

/-- A bundle of the app in the version, signed and notarized, that runs on the CPU. -/
structure Verified (cpu : UInt32) (c : AppChecks) (version : String) : Prop where
  codesign : c.codesign = .ok ()
  notarized : Notarized c.spctl
  bundleId : c.bundleId = .ok APP_ID
  bundleVersion : c.bundleVersion = .ok version
  header : ∃ header, c.header = .ok header ∧ MachO.HoldsCpu header cpu

/-- What has been found when a worker is started for the job. -/
structure Cleared (semver : Semver) (cpu : UInt32) (fs : FileSystem) (updates : Path)
    (version : String) (pid : UInt32) (s : Script) (job : UpdateJob.Job) : Prop where
  newer : ∃ installed, s.installedVersion = .ok installed ∧ newer semver version installed = .ok ()
  installedId : s.installedId = .ok APP_ID
  image : s.image.codesign = .ok () ∧ Notarized s.image.spctl
  candidate : Verified cpu s.candidate version
  detached : s.detach = .ok ()
  allowed : s.allowed = true
  written : s.setPermissions = .ok () ∧ s.writeJob = .ok ()
  job : ∃ drawn, s.makeWorkspace = .ok drawn ∧
    newJob fs s.currentExe updates drawn version s.token pid = .ok job

section Checks

variable {semver : Semver} {cpu : UInt32} {fs : FileSystem} {version : String} {s : Script}

theorem assessNotarized_ok_iff {spctl : Except Error Assessment} {u : Unit} :
    assessNotarized spctl = .ok u ↔ Notarized spctl := by
  simp only [assessNotarized, bind_ok_iff, bailIf_ok_iff, Notarized, Bool.or_eq_false_iff,
    Bool.not_eq_false', List.any_eq_true, beq_iff_eq]

theorem hasCpu_iff {header : List UInt8} : hasCpu header cpu = true ↔ MachO.HoldsCpu header cpu := by
  obtain ⟨found, hfound, hiff⟩ := MachO.machoHasCpu_iff header cpu
  rw [← hiff, hasCpu, hfound]

theorem verifyApp_ok_iff {c : AppChecks} {u : Unit} :
    verifyApp cpu c version = .ok u ↔ Verified cpu c version := by
  simp only [verifyApp, bind_ok_iff, bailIf_ok_iff, assessNotarized_ok_iff, bne_eq_false_iff_eq,
    Bool.not_eq_false', hasCpu_iff]
  constructor
  · rintro ⟨_, hsign, -, hnotarized, id, hid, -, rfl, found, hfound, -, rfl, hheader⟩
    exact ⟨hsign, hnotarized, hid, hfound, hheader⟩
  · intro h
    exact ⟨(), h.codesign, (), h.notarized, _, h.bundleId, (), rfl, _, h.bundleVersion, (), rfl,
      h.header⟩

theorem newerThan_ok_iff {current : String} {u : Unit} :
    newerThan semver version current = .ok u ↔ newer semver version current = .ok () := by
  unfold newerThan
  cases newer semver version current with
  | error e => exact ⟨nofun, nofun⟩
  | ok u' => exact ⟨fun _ => rfl, fun _ => rfl⟩

end Checks

/-! ## What a run can log -/

/-- The workspace that a run makes: a new folder beside the target. -/
def Script.Makes (fs : FileSystem) (s : Script) (workspace : Path) : Prop :=
  ∃ exe target folder drawn, s.currentExe = .ok exe ∧ appRoot fs exe = .ok target ∧
    target.parent = some folder ∧ s.makeWorkspace = .ok drawn ∧
    workspace = folder.join (workspaceName drawn)

/-- Every way in which `prepare` returns: the workspace is one of `W`, and a worker is started for a
job of `P` only. -/
inductive Shape (W : Path → Prop) (P : UpdateJob.Job → Prop) (lost : Prop) :
    Except Error Bool → List Event → Prop
  | early (e : Error) : Shape W P lost (.error e) []
  | unused (e : Error) : Shape W P lost (.error e) [.makeWorkspace, .removeWorkspace]
  | retained (e : Error) (workspace : Path) (attached : Bool) (hmade : W workspace)
    (hnames : Transact.Names e workspace.text) :
    Shape W P lost (.error e) [.makeWorkspace, .attach attached, .detach false, .keepWorkspace]
  | refused (r : Except Error Bool) (attached : Bool) (hr : r ≠ .ok true) :
    Shape W P lost r [.makeWorkspace, .attach attached, .detach true, .removeWorkspace]
  | left (e : Error) (attached : Bool) (job : UpdateJob.Job) (pid : UInt32) (hjob : P job)
    (hlost : lost) :
    Shape W P lost (.error e)
      [.makeWorkspace, .attach attached, .detach true, .spawn job pid, .removeWorkspace]
  | killed (r : Except Error Bool) (attached : Bool) (job : UpdateJob.Job) (pid : UInt32)
    (kill wait : Bool) (hjob : P job) (hr : r ≠ .ok true) :
    Shape W P lost r [.makeWorkspace, .attach attached, .detach true, .spawn job pid, .kill kill,
      .wait wait, .removeWorkspace]
  | handedOff (attached : Bool) (job : UpdateJob.Job) (pid : UInt32) (hjob : P job) :
    Shape W P lost (.ok true) [.makeWorkspace, .attach attached, .detach true, .spawn job pid,
      .recordActive pid, .keepWorkspace]

/-- Asking whether the started worker has exited fails before it is ready. -/
def Script.LosesWorker (s : Script) : Prop := ∃ e, awaitReady s.polls 0 s.deadline = .failed e

section Shapes

variable {semver : Semver} {cpu : UInt32} {fs : FileSystem} {updates : Path} {version : String}
  {pid : UInt32} {s : Script} {job : UpdateJob.Job} {W : Path → Prop} {P : UpdateJob.Job → Prop}

theorem launch_shape (attached : Bool) (hjob : s.allowed = true → s.writeJob = .ok () → P job) :
    Shape W P s.LosesWorker (launch s job).1
      (.makeWorkspace :: ([.attach attached, .detach true] ++ (launch s job).2 ++
        [dropWorkspace (launch s job).1])) := by
  unfold launch
  cases hallowed : s.allowed with
  | false => exact .refused _ _ nofun
  | true =>
    simp only [↓reduceIte]
    split
    · exact .refused _ _ nofun
    · rename_i hready
      obtain ⟨_, -, hready⟩ := bind_ok_iff.mp hready
      obtain ⟨_, hwrite, -⟩ := bind_ok_iff.mp hready
      have hP := hjob hallowed hwrite
      split
      · exact .refused _ _ nofun
      · unfold handOver
        split
        · rename_i e hlost
          exact .left _ _ _ _ hP ⟨e, hlost⟩
        · exact .killed _ _ _ _ _ _ hP nofun
        · cases s.allowedAgain with
          | true =>
            simp only [↓reduceIte]
            split
            · exact .killed _ _ _ _ _ _ hP nofun
            · exact .handedOff _ _ _ hP
          | false =>
            simp only [Bool.false_eq_true, ↓reduceIte]
            split
            · exact .killed _ _ _ _ _ _ hP nofun
            · exact .killed _ _ _ _ _ _ hP nofun

theorem inWorkspace_shape (hmade : W job.workspace) (hjob : s.detach = .ok () →
      Verified cpu s.candidate version → s.allowed = true → s.writeJob = .ok () → P job) :
    Shape W P s.LosesWorker (inWorkspace cpu s version job).1
      (.makeWorkspace :: (inWorkspace cpu s version job).2) := by
  unfold inWorkspace
  split
  · exact .unused _
  · split
    · exact .retained _ job.workspace _ hmade
        ⟨_, List.mem_cons_self, "Could not detach update volume; staging retained at ", "", by simp⟩
    · rename_i hdetach
      dsimp only
      split
      · exact .refused _ _ nofun
      · rename_i hstaged
        obtain ⟨_, -, hstaged⟩ := bind_ok_iff.mp hstaged
        obtain ⟨_, -, hverified⟩ := bind_ok_iff.mp hstaged
        exact launch_shape _ fun hallowed hwrite =>
          hjob hdetach (verifyApp_ok_iff.mp hverified) hallowed hwrite

theorem prepare_shape :
    Shape (s.Makes fs) (Cleared semver cpu fs updates version pid s) s.LosesWorker
      (prepare semver cpu fs updates version pid s).1
      (prepare semver cpu fs updates version pid s).2 := by
  unfold prepare
  split
  · exact .early _
  · rename_i target hpreflight
    simp only [preflight, bind_ok_iff, bailIf_ok_iff, newerThan_ok_iff, bne_eq_false_iff_eq]
      at hpreflight
    obtain ⟨_, -, exe, hexe, root, hroot, installed, hinstalled, -, hnewer, id, hid, -, rfl, _,
      himage, heq⟩ := hpreflight
    cases heq
    simp only [verifyDmg, bind_ok_iff, assessNotarized_ok_iff] at himage
    obtain ⟨_, hsign, hnotarized⟩ := himage
    split
    · exact .early _
    · rename_i workspace hworkspace
      split
      · exact .unused _
      · rename_i updates' hupdates
        obtain ⟨_, hpermissions, hupdates⟩ := bind_ok_iff.mp hupdates
        unfold createWorkspace at hworkspace
        split at hworkspace
        · cases hworkspace
        · rename_i folder hfolder
          split at hworkspace
          · cases hworkspace
          · rename_i drawn hdrawn
            cases hworkspace
            refine inWorkspace_shape ⟨exe, target, folder, drawn, hexe, hroot, hfolder, hdrawn, rfl⟩
              fun hdetach hverified hallowed hwrite => ?_
            have hnew : newJob fs s.currentExe updates drawn version s.token pid =
                .ok ⟨target, folder.join (workspaceName drawn), updates', version, s.token, pid⟩ := by
              rw [newJob, hexe]
              show (appRoot fs exe >>= _) = _
              rw [hroot]
              show (match target.parent with | none => _ | some folder => _) = _
              rw [hfolder]
              show (fs.canonicalize updates >>= _) = _
              rw [hupdates]
              rfl
            exact {
              newer := ⟨installed, hinstalled, hnewer⟩
              installedId := hid
              image := ⟨hsign, hnotarized⟩
              candidate := hverified
              detached := hdetach
              allowed := hallowed
              written := ⟨hpermissions, hwrite⟩
              job := ⟨drawn, hdrawn, hnew⟩ }

end Shapes

/-! ## Discipline -/

/-- Whether a volume is attached at the mount point after a log. -/
def attachedAfter (log : List Event) : Bool :=
  log.foldl (fun attached e =>
    match e with
    | .attach attached => attached
    | .detach true => false
    | _ => attached) false

structure Disciplined (semver : Semver) (cpu : UInt32) (fs : FileSystem) (updates : Path)
    (version : String) (pid : UInt32) (s : Script) (r : Run) : Prop where
  removal : ∀ before after, r.2 = before ++ .removeWorkspace :: after →
    attachedAfter before = false ∧ after = []
  once : r.2.count .makeWorkspace = r.2.count .removeWorkspace + r.2.count .keepWorkspace
  kept : .keepWorkspace ∈ r.2 → r.1 = .ok true ∨
    .detach false ∈ r.2 ∧ ∃ e workspace, s.Makes fs workspace ∧ r.1 = .error e ∧
      Transact.Names e workspace.text
  cleared : ∀ job worker, .spawn job worker ∈ r.2 →
    Cleared semver cpu fs updates version pid s job
  handedOff : r.1 = .ok true ↔ ∃ job worker, .spawn job worker ∈ r.2 ∧ .recordActive worker ∈ r.2
  stopped : r.1 ≠ .ok true → ∀ job worker, .spawn job worker ∈ r.2 →
    s.LosesWorker ∨ ∃ killed waited, .kill killed ∈ r.2 ∧ .wait waited ∈ r.2

/-- A workspace is removed last, with no volume attached. -/
theorem removal_of_shape {W : Path → Prop} {P : UpdateJob.Job → Prop} {lost : Prop}
    {r : Except Error Bool} {log : List Event} (h : Shape W P lost r log) :
    .removeWorkspace ∉ log ∨ ∃ front, log = front ++ [.removeWorkspace] ∧
      .removeWorkspace ∉ front ∧ attachedAfter front = false := by
  cases h with
  | early e => exact .inl (by simp)
  | unused e => exact .inr ⟨[.makeWorkspace], rfl, by simp, rfl⟩
  | retained e workspace attached hmade hnames => exact .inl (by simp)
  | refused r attached hr =>
    exact .inr ⟨[.makeWorkspace, .attach attached, .detach true], rfl, by simp, rfl⟩
  | left e attached job pid hjob hlost =>
    exact .inr ⟨[.makeWorkspace, .attach attached, .detach true, .spawn job pid], rfl, by simp, rfl⟩
  | killed r attached job pid kill wait hjob hr =>
    exact .inr ⟨[.makeWorkspace, .attach attached, .detach true, .spawn job pid, .kill kill,
      .wait wait], rfl, by simp, rfl⟩
  | handedOff attached job pid hjob => exact .inl (by simp)

theorem disciplined_of_shape {semver : Semver} {cpu : UInt32} {fs : FileSystem} {updates : Path}
    {version : String} {pid : UInt32} {s : Script} {r : Except Error Bool} {log : List Event}
    (h : Shape (s.Makes fs) (Cleared semver cpu fs updates version pid s) s.LosesWorker r log) :
    Disciplined semver cpu fs updates version pid s (r, log) where
  removal before after hlog := by
    dsimp only at hlog
    rcases removal_of_shape h with hnot | ⟨front, hfront, hnot, hdetached⟩
    · exact absurd (by simp [hlog]) hnot
    · rw [hfront] at hlog
      obtain ⟨rfl, -, rfl⟩ := (List.append_cons_inj_of_notMem hnot List.not_mem_nil).mp hlog
      exact ⟨hdetached, rfl⟩
  once := by
    cases h <;> simp
  kept := by
    intro hkept
    cases h with
    | retained e workspace attached hmade hnames =>
      exact .inr ⟨by simp, e, workspace, hmade, rfl, hnames⟩
    | handedOff attached job pid hjob => exact .inl rfl
    | _ => simp at hkept
  cleared job worker hspawn := by
    cases h with
    | left e attached job' pid hjob hlost =>
      simp at hspawn
      exact hspawn.1 ▸ hjob
    | killed r attached job' pid kill wait hjob hr =>
      simp at hspawn
      exact hspawn.1 ▸ hjob
    | handedOff attached job' pid hjob =>
      simp at hspawn
      exact hspawn.1 ▸ hjob
    | _ => simp at hspawn
  handedOff := by
    cases h with
    | handedOff attached job pid hjob => exact ⟨fun _ => ⟨job, pid, by simp, by simp⟩, fun _ => rfl⟩
    | refused r attached hr => exact ⟨fun h => absurd h hr, by simp⟩
    | killed r attached job pid kill wait hjob hr => exact ⟨fun h => absurd h hr, by simp⟩
    | _ => simp
  stopped hr job worker hspawn := by
    cases h with
    | left e attached job' pid hjob hlost => exact .inl hlost
    | killed r attached job' pid kill wait hjob hr => exact .inr ⟨kill, wait, by simp, by simp⟩
    | handedOff attached job' pid hjob => exact absurd rfl hr
    | _ => simp at hspawn

end LinkPilot.Staging
