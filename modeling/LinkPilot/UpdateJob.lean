import LinkPilot.Lib.Paths
import LinkPilot.Transport
import LinkPilot.Transact

/-!
# The job of an update

Model of `Job`, `load_job`, `app_root`, `start_app`'s arguments and `acknowledge_startup` of
`crates/updater/src/lib.rs`: the file by which the app that prepares an update, the worker that
installs it and the new app that confirms its start agree on what is done.  The file system is
what it says of a path; the job and the receipt are JSON texts in files.

Principal results:

* `prepared_job_serves` — the worker accepts the job that was prepared, unless the target is no app
  by its name or lies in an app itself, and the new app's receipt is the one that it waits for.
* `accepted_job_safe` — a worker's job stays in its private workspace beside the target, and a
  receipt that an app writes and that confirms it is the worker's child's, running from the bundle
  that the job installs in the version that the job names.
-/

set_option autoImplicit false

namespace LinkPilot.UpdateJob

open Paths Serde Transact

/-! ## Files -/

structure Metadata where
  isFile : Bool
  uid : Nat
  mode : Nat

structure FileSystem where
  canonicalize : Path → Except Error Path
  metadata : Path → Except Error Metadata
  symlinkMetadata : Path → Except Error Metadata
  read : Path → Except Error (List UInt8)

/-- `mode & 0o077 == 0`. -/
def Metadata.isPrivate (m : Metadata) : Bool := m.mode &&& 0o077 == 0

/-- What a process sees of the machine it runs on. -/
structure Host where
  serde : SerdeJson
  nests : 1 ≤ serde.limit
  invalidJson : String
  isUuid : String → Bool
  uid : Nat

/-! ## The job -/

def PREFIX : String := ".linkpilot-update-"

def BACKGROUND_ARG : String := "--linkpilot-update-background"

def JOB_ARG : String := "--linkpilot-update-job"

def TOKEN_ARG : String := "--linkpilot-update-token"

def candidateApp : Name := ⟨"candidate.app", by decide⟩

def jobJson : Name := ⟨"job.json", by decide⟩

def healthJson : Name := ⟨"health.json", by decide⟩

def lpt : Name := ⟨"lpt", by decide⟩

def contents : Name := ⟨"Contents", by decide⟩

def macOS : Name := ⟨"MacOS", by decide⟩

def linkpilotDesktop : Name := ⟨"linkpilot-desktop", by decide⟩

/-- `Job`. -/
structure Job where
  target : Path
  workspace : Path
  updates : Path
  version : String
  token : String
  oldPid : UInt32
  deriving DecidableEq

namespace Job

def candidate (job : Job) : Path := job.workspace.join candidateApp

def path (job : Job) : Path := job.workspace.join jobJson

def health (job : Job) : Path := job.workspace.join healthJson

/-- What `start_app` runs. -/
def executable (job : Job) : Path :=
  ((job.target.join contents).join macOS).join linkpilotDesktop

/-- What `transact` uses of it. -/
def toTransact (job : Job) : Transact.Job := ⟨job.candidate.text, job.version, job.token⟩

def toJson (job : Job) : Json :=
  .obj [("target", .str job.target.text), ("workspace", .str job.workspace.text),
    ("updates", .str job.updates.text), ("version", .str job.version), ("token", .str job.token),
    ("old_pid", .int job.oldPid.toNat)]

def fromJson : Json → Option Job :=
  Json.record 6 fun f => do
    let target ← f.required 0 "target" Json.string
    let workspace ← f.required 1 "workspace" Json.string
    let updates ← f.required 2 "updates" Json.string
    let version ← f.required 3 "version" Json.string
    let token ← f.required 4 "token" Json.string
    let oldPid ← f.required 5 "old_pid" Json.u32
    some ⟨parse target, parse workspace, parse updates, version, token, oldPid⟩

end Job

/-- `Health`, in its file. -/
def healthToJson (health : Health) : Json :=
  .obj [("token", .str health.token), ("version", .str health.version),
    ("pid", .int (UInt32.ofNat health.pid).toNat)]

def healthFromJson : Json → Option Health :=
  Json.record 3 fun f => do
    let token ← f.required 0 "token" Json.string
    let version ← f.required 1 "version" Json.string
    let pid ← f.required 2 "pid" Json.u32
    some ⟨token, version, pid.toNat⟩

/-! ## The code -/

section Code

variable (host : Host) (fs : FileSystem)

/-- `app_root`. -/
def appRoot (executable : Path) : Except Error Path :=
  let root := ((executable.parent.bind Path.parent).bind Path.parent).filter fun p =>
    p.extension = some "app"
  match root with
  | none => .error ["Silent updates require an installed LinkPilot.app"]
  | some root => fs.canonicalize root

/-- The end of a temporary name. -/
structure Drawn where
  text : String
  valid : '/' ∉ text.toList

def workspaceName (drawn : Drawn) : Name :=
  ⟨PREFIX ++ drawn.text, by simp [PREFIX, drawn.valid]⟩

/-- The job that `prepare` makes, of the path of the executable that runs it, with the workspace
that `create_workspace` makes for the target. -/
def newJob (currentExe : Except Error Path) (updates : Path) (drawn : Drawn)
    (version token : String) (pid : UInt32) : Except Error Job := do
  let exe ← currentExe
  let target ← appRoot fs exe
  match target.parent with
  | none => throw ["missing app parent"]
  | some folder =>
    let updates ← fs.canonicalize updates
    return ⟨target, folder.join (workspaceName drawn), updates, version, token, pid⟩

/-- `if c { bail!(e) }`. -/
def bailIf (c : Bool) (e : Error) : Except Error Unit := if c then .error e else .ok ()

def invalidJob : Error := ["Invalid update job paths or token"]

/-- `serde_json::from_slice(..)?`. -/
def readJob (bytes : List UInt8) : Except Error Job :=
  match host.serde.fromSlice Job.fromJson bytes with
  | none => .error [host.invalidJson]
  | some job => .ok job

/-- The conditions of `load_job` that ask the file system nothing. -/
def namesItself (job : Job) (path : Path) (token : String) : Bool :=
  host.isUuid token && token == job.token && path == job.path &&
    (job.workspace.fileName.any fun n => PREFIX.toList.isPrefixOf n.text.toList) &&
    job.workspace.parent == job.target.parent

/-- `load_job`. -/
def loadJob (path : Path) (token : String) : Except Error Job := do
  let metadata ← fs.symlinkMetadata path
  bailIf (!metadata.isFile || metadata.uid != host.uid || !metadata.isPrivate)
    ["Update job must be a private file owned by the current user"]
  let bytes ← fs.read path
  let job ← readJob host bytes
  bailIf (!namesItself host job path token) invalidJob
  let workspace ← fs.canonicalize job.workspace
  bailIf (workspace != job.workspace) invalidJob
  let metadata ← fs.metadata job.workspace
  bailIf (!metadata.isPrivate || job.target.extension != some "app") invalidJob
  let target ← fs.canonicalize job.target
  bailIf (target != job.target) invalidJob
  let updates ← fs.canonicalize job.updates
  bailIf (updates != job.updates || decide (job.oldPid ≤ 1)) invalidJob
  return job

/-- The start of `run_worker`, up to the ready file. -/
def workerJob (path : Path) (token : String) (currentExe : Except Error Path) (ppid : UInt32) :
    Except Error Job := do
  let job ← loadJob host fs path token
  let exe ← currentExe
  bailIf ((appRoot fs exe).isOk || exe != job.workspace.join lpt || ppid != job.oldPid)
    ["Update worker must run from its private workspace"]
  return job

/-- The command line of `start_app`. -/
def startArgs (job : Job) (health : Bool) : List String :=
  job.executable.text :: BACKGROUND_ARG ::
    if health then [JOB_ARG, job.path.text, TOKEN_ARG, job.token] else []

/-- `acknowledge_startup` of an app that was started with the job and the token. -/
def acknowledgeJob (path token : String) (currentExe : Except Error Path)
    (plist : Path → String → Except Error String) (pid : UInt32) :
    Except Error (Path × Health) := do
  let job ← loadJob host fs (parse path) token
  let exe ← currentExe
  let root ← appRoot fs exe
  bailIf (root != job.target) ["Update acknowledgement from wrong installation"]
  let version ← plist job.target "CFBundleShortVersionString"
  bailIf (version != job.version) ["Update acknowledgement version mismatch"]
  return (job.health, ⟨token, version, pid.toNat⟩)

/-- `acknowledge_startup`: the file it writes and what it writes there, if the app was started to
confirm a job. -/
def acknowledgeStartup (args : List String) (currentExe : Except Error Path)
    (plist : Path → String → Except Error String) (pid : UInt32) :
    Except Error (Option (Path × Health)) :=
  match args.idxOf? JOB_ARG with
  | none => .ok none
  | some index =>
    match args[index + 1]?, (args.idxOf? TOKEN_ARG).bind fun i => args[i + 1]? with
    | none, _ => .error ["missing update job"]
    | some _, none => .error ["missing update token"]
    | some path, some token => (acknowledgeJob host fs path token currentExe plist pid).map some

end Code

/-! ## Texts -/

section Texts

variable {host : Host}

theorem isString (s : String) : Json.string (.str s) = some s := rfl

theorem Job.fromJson_toJson (job : Job) : fromJson job.toJson = some job := by
  refine Json.record_obj ?_
  refine Fields.required_bind rfl (isString _) ?_
  refine Fields.required_bind rfl (isString _) ?_
  refine Fields.required_bind rfl (isString _) ?_
  refine Fields.required_bind rfl (isString _) ?_
  refine Fields.required_bind rfl (isString _) ?_
  refine Fields.required_bind rfl (Json.u32_toNat _) ?_
  simp only [parse_text]

theorem is64Bit_toNat (n : UInt32) : Json.Is64Bit (n.toNat : Int) := by
  have := n.toNat_lt
  constructor
  · omega
  · omega

/-- **The job's file** is read as the job. -/
theorem Job.fromSlice_toJson (job : Job) :
    host.serde.fromSlice fromJson job.toJson.toVec = some job := by
  have hplain : job.toJson.Plain :=
    ⟨trivial, trivial, trivial, trivial, trivial, is64Bit_toNat _, trivial⟩
  rw [SerdeJson.fromSlice_toVec hplain, Job.fromJson_toJson]
  exact if_pos host.nests

theorem health_fromSlice (health : Health) (h : health.pid < 4294967296) :
    host.serde.fromSlice healthFromJson (healthToJson health).toVec = some health := by
  have hplain : (healthToJson health).Plain := ⟨trivial, trivial, is64Bit_toNat _, trivial⟩
  rw [SerdeJson.fromSlice_toVec hplain]
  refine (if_pos host.nests).trans (Json.record_obj ?_)
  refine Fields.required_bind rfl (isString _) ?_
  refine Fields.required_bind rfl (isString _) ?_
  refine Fields.required_bind rfl (Json.u32_toNat _) ?_
  rw [UInt32.toNat_ofNat_of_lt' h]

end Texts

/-! ## What is accepted -/

/-- A private file of the user holds the job, which names its own file by a token that is a UUID;
its workspace is a private folder with the name of one, beside the app that is its target, and
every path of it is where it says. -/
structure Accepted (host : Host) (fs : FileSystem) (path : Path) (token : String) (job : Job) :
    Prop where
  file : ∃ m, fs.symlinkMetadata path = .ok m ∧ m.isFile = true ∧ m.uid = host.uid ∧
    m.isPrivate = true
  text : ∃ bytes, fs.read path = .ok bytes ∧ host.serde.fromSlice Job.fromJson bytes = some job
  uuid : host.isUuid token = true
  token : token = job.token
  path : path = job.path
  name : ∃ n, job.workspace.fileName = some n ∧ PREFIX.toList <+: n.text.toList
  beside : job.workspace.parent = job.target.parent
  workspace : fs.canonicalize job.workspace = .ok job.workspace
  isPrivate : ∃ m, fs.metadata job.workspace = .ok m ∧ m.isPrivate = true
  app : job.target.extension = some "app"
  target : fs.canonicalize job.target = .ok job.target
  updates : fs.canonicalize job.updates = .ok job.updates
  oldPid : 1 < job.oldPid

section Accepting

variable {host : Host} {fs : FileSystem} {path : Path} {token : String} {job : Job}

theorem bind_ok_iff {α β : Type} {x : Except Error α} {f : α → Except Error β} {b : β} :
    x >>= f = .ok b ↔ ∃ a, x = .ok a ∧ f a = .ok b := by
  cases x with
  | error e => exact ⟨nofun, fun ⟨_, h, _⟩ => nomatch h⟩
  | ok a => exact ⟨fun h => ⟨a, rfl, h⟩, fun ⟨_, h, h'⟩ => by cases h; exact h'⟩

@[simp] theorem bailIf_ok_iff {c : Bool} {e : Error} {u : Unit} :
    bailIf c e = .ok u ↔ c = false := by
  cases c with
  | false => exact ⟨fun _ => rfl, fun _ => rfl⟩
  | true => exact ⟨nofun, nofun⟩

theorem readJob_ok_iff {bytes : List UInt8} :
    readJob host bytes = .ok job ↔ host.serde.fromSlice Job.fromJson bytes = some job := by
  unfold readJob
  cases host.serde.fromSlice Job.fromJson bytes with
  | none => exact ⟨nofun, nofun⟩
  | some job' => exact ⟨fun h => by cases h; rfl, fun h => by cases h; rfl⟩

theorem namesItself_iff : namesItself host job path token = true ↔
    host.isUuid token = true ∧ token = job.token ∧ path = job.path ∧
      (∃ n, job.workspace.fileName = some n ∧ PREFIX.toList <+: n.text.toList) ∧
      job.workspace.parent = job.target.parent := by
  simp [namesItself, Option.any_eq_true, and_assoc]

theorem loadJob_ok_iff : loadJob host fs path token = .ok job ↔ Accepted host fs path token job := by
  simp only [loadJob, bind_ok_iff, bailIf_ok_iff, readJob_ok_iff, Bool.or_eq_false_iff,
    bne_eq_false_iff_eq, Bool.not_eq_false', decide_eq_false_iff_not]
  constructor
  · rintro ⟨m, hm, -, ⟨⟨hfile, huid⟩, hprivate⟩, bytes, hbytes, job', hjob, -, hnames, w, hw, -, hws,
      m', hm', -, ⟨hprivate', happ⟩, t, ht, -, htarget, u, hu, -, ⟨hupdates, hpid⟩, heq⟩
    cases heq
    obtain ⟨huuid, htoken, hpath, hname, hbeside⟩ := namesItself_iff.mp hnames
    exact {
      file := ⟨m, hm, hfile, huid, hprivate⟩
      text := ⟨bytes, hbytes, hjob⟩
      uuid := huuid
      token := htoken
      path := hpath
      name := hname
      beside := hbeside
      workspace := hws ▸ hw
      isPrivate := ⟨m', hm', hprivate'⟩
      app := happ
      target := htarget ▸ ht
      updates := hupdates ▸ hu
      oldPid := UInt32.not_le.mp hpid }
  · intro h
    obtain ⟨m, hm, hfile, huid, hprivate⟩ := h.file
    obtain ⟨bytes, hbytes, hjob⟩ := h.text
    obtain ⟨m', hm', hprivate'⟩ := h.isPrivate
    exact ⟨m, hm, (), ⟨⟨hfile, huid⟩, hprivate⟩, bytes, hbytes, job, hjob, (),
      namesItself_iff.mpr ⟨h.uuid, h.token, h.path, h.name, h.beside⟩, _, h.workspace, (), rfl, m', hm',
      (), ⟨hprivate', h.app⟩, _, h.target, (), rfl, _, h.updates, (),
      ⟨rfl, UInt32.not_le.mpr h.oldPid⟩, rfl⟩

/-- The job file alone says which job is accepted. -/
theorem Accepted.unique {token' : String} {job' : Job} {fs' : FileSystem}
    (h : Accepted host fs path token job) (h' : Accepted host fs' path token' job')
    (hread : fs'.read path = fs.read path) : job' = job := by
  obtain ⟨bytes, hbytes, hjob⟩ := h.text
  obtain ⟨bytes', hbytes', hjob'⟩ := h'.text
  rw [hread, hbytes] at hbytes'
  cases hbytes'
  exact Option.some.inj (hjob'.symm.trans hjob)

end Accepting

/-! ## The prepared job -/

/-- What `realpath` documents: a path that it gives is absolute, it gives it again, and the folders
it is in are as it says. -/
structure FileSystem.Canonical (fs : FileSystem) : Prop where
  plain : ∀ p q, fs.canonicalize p = .ok q → q.Plain
  idem : ∀ p q, fs.canonicalize p = .ok q → fs.canonicalize q = .ok q
  parent : ∀ p q folder, fs.canonicalize p = .ok q → q.parent = some folder →
    fs.canonicalize folder = .ok folder

/-- What `prepare` leaves in the file system: a private folder, and in it the job as a private
file. -/
structure Written (host : Host) (fs : FileSystem) (job : Job) : Prop where
  workspace : fs.canonicalize job.workspace = .ok job.workspace
  isPrivate : ∃ m, fs.metadata job.workspace = .ok m ∧ m.isPrivate = true
  file : ∃ m, fs.symlinkMetadata job.path = .ok m ∧ m.isFile = true ∧ m.uid = host.uid ∧
    m.isPrivate = true
  text : fs.read job.path = .ok job.toJson.toVec

/-- The folder that the target's folder is in is not an app. -/
def NotNested (job : Job) : Prop :=
  ∀ folder above, job.target.parent = some folder → folder.parent = some above →
    above.extension ≠ some "app"

section Prepared

variable {host : Host} {fs : FileSystem} {exe : Except Error Path} {updates p : Path} {drawn : Drawn}
  {version token : String} {pid : UInt32} {job : Job}

theorem appRoot_canonical (hfs : fs.Canonical) {target : Path} (h : appRoot fs p = .ok target) :
    fs.canonicalize target = .ok target ∧ target.Plain := by
  unfold appRoot at h
  dsimp only at h
  split at h
  · cases h
  · exact ⟨hfs.idem _ _ h, hfs.plain _ _ h⟩

theorem newJob_ok (hfs : fs.Canonical)
    (h : newJob fs exe updates drawn version token pid = .ok job) :
    fs.canonicalize job.target = .ok job.target ∧ job.target.Plain ∧
      fs.canonicalize job.updates = .ok job.updates ∧
      (∃ folder, job.target.parent = some folder ∧
        job.workspace = folder.join (workspaceName drawn)) ∧
      job.version = version ∧ job.token = token ∧ job.oldPid = pid := by
  unfold newJob at h
  obtain ⟨p, -, h⟩ := bind_ok_iff.mp h
  obtain ⟨target, htarget, h⟩ := bind_ok_iff.mp h
  obtain ⟨hcanonical, hplain⟩ := appRoot_canonical hfs htarget
  split at h
  · cases h
  · rename_i folder hfolder
    obtain ⟨updates', hupdates, h⟩ := bind_ok_iff.mp h
    cases h
    exact ⟨hcanonical, hplain, hfs.idem _ _ hupdates, ⟨folder, hfolder, rfl⟩, rfl, rfl, rfl⟩

theorem fileName_workspace (folder : Path) :
    (folder.join (workspaceName drawn)).fileName = some (workspaceName drawn) := by
  apply fileName_join
  intro h
  have := congrArg String.toList h
  simp [workspaceName, PREFIX] at this

theorem prefix_workspaceName : PREFIX.toList <+: (workspaceName drawn).text.toList := by
  simp [workspaceName]

/-- What was written is accepted if the target is an app by its name. -/
theorem accepted_iff (hfs : fs.Canonical) (huuid : host.isUuid token = true) (hpid : 1 < pid)
    (hjob : newJob fs exe updates drawn version token pid = .ok job) (hw : Written host fs job) :
    Accepted host fs job.path token job ↔ job.target.extension = some "app" := by
  obtain ⟨htarget, -, hupdates, ⟨folder, hfolder, hworkspace⟩, -, htoken, holdPid⟩ :=
    newJob_ok hfs hjob
  constructor
  · exact fun h => h.app
  · intro happ
    exact {
      file := hw.file
      text := ⟨_, hw.text, job.fromSlice_toJson⟩
      uuid := huuid
      token := htoken.symm
      path := rfl
      name := ⟨_, hworkspace ▸ fileName_workspace folder, prefix_workspaceName⟩
      beside := by rw [hworkspace, parent_join, hfolder]
      workspace := hw.workspace
      isPrivate := hw.isPrivate
      app := happ
      target := htarget
      updates := hupdates
      oldPid := holdPid ▸ hpid }

/-- The worker's executable is in no app, unless the target is nested. -/
theorem appRoot_lpt (hfs : fs.Canonical)
    (hjob : newJob fs exe updates drawn version token pid = .ok job) :
    (appRoot fs (job.workspace.join lpt)).isOk = false ↔ NotNested job := by
  obtain ⟨htarget, -, -, ⟨folder, hfolder, hworkspace⟩, -, -, -⟩ := newJob_ok hfs hjob
  have hcanonical := hfs.parent _ _ _ htarget hfolder
  have hroot : (((job.workspace.join lpt).parent.bind Path.parent).bind Path.parent) =
      folder.parent := by
    rw [parent_join, Option.bind_some, hworkspace, parent_join, Option.bind_some]
  have hnested : NotNested job ↔
      ∀ above, folder.parent = some above → above.extension ≠ some "app" := by
    constructor
    · exact fun h above => h folder above hfolder
    · intro h folder' above hfolder'
      rw [hfolder] at hfolder'
      cases hfolder'
      exact h above
  rw [hnested, appRoot, hroot]
  cases habove : folder.parent with
  | none => simp [Except.isOk, Except.toBool]
  | some above =>
    have hok := hfs.parent _ _ _ hcanonical habove
    by_cases happ : above.extension = some "app"
    · simp [Option.filter, happ, hok, Except.isOk, Except.toBool]
    · simp [Option.filter, happ, Except.isOk, Except.toBool]

/-- **The worker** accepts the job that was prepared, by the app that is its parent. -/
theorem workerJob_iff (hfs : fs.Canonical) (huuid : host.isUuid token = true) (hpid : 1 < pid)
    (hjob : newJob fs exe updates drawn version token pid = .ok job) (hw : Written host fs job) :
    workerJob host fs job.path token (.ok (job.workspace.join lpt)) pid = .ok job ↔
      job.target.extension = some "app" ∧ NotNested job := by
  obtain ⟨-, -, -, -, -, -, holdPid⟩ := newJob_ok hfs hjob
  simp only [workerJob, bind_ok_iff, loadJob_ok_iff, bailIf_ok_iff]
  constructor
  · rintro ⟨job', haccepted, exe', hexe, -, hchecks, heq⟩
    cases heq
    cases hexe
    simp only [Bool.or_eq_false_iff] at hchecks
    exact ⟨haccepted.app, (appRoot_lpt hfs hjob).mp hchecks.1.1⟩
  · rintro ⟨happ, hnested⟩
    refine ⟨job, (accepted_iff hfs huuid hpid hjob hw).mpr happ, _, rfl, (), ?_, rfl⟩
    simp [(appRoot_lpt hfs hjob).mpr hnested, holdPid]

end Prepared

/-! ## The receipt -/

section Receipt

variable {host : Host} {fs : FileSystem} {job : Job}
  {currentExe : Except Error Path} {plist : Path → String → Except Error String} {pid : UInt32}

/-- An app that `start_app` starts to confirm the job finds the job and the token. -/
theorem acknowledge_started (htarget : job.target.root = .absolute)
    (hworkspace : job.workspace.root = .absolute) :
    acknowledgeStartup host fs (startArgs job true) currentExe plist pid =
      (acknowledgeJob host fs job.path.text job.token currentExe plist pid).map some := by
  have hne : ∀ p : Path, p.root = .absolute → p.text ≠ JOB_ARG ∧ p.text ≠ TOKEN_ARG := by
    intro p hp
    have hhead := head_text hp
    constructor
    · intro heq
      simp [heq, JOB_ARG] at hhead
    · intro heq
      simp [heq, TOKEN_ARG] at hhead
  have hexe := hne job.executable htarget
  have hpath := hne job.path hworkspace
  have hbackground : BACKGROUND_ARG ≠ JOB_ARG ∧ BACKGROUND_ARG ≠ TOKEN_ARG := by decide
  have hargs : JOB_ARG ≠ TOKEN_ARG := by decide
  have hjob : (startArgs job true).idxOf? JOB_ARG = some 2 := by
    simp [startArgs, List.idxOf?_cons, hexe.1, hbackground.1]
  have htoken : (startArgs job true).idxOf? TOKEN_ARG = some 4 := by
    simp [startArgs, List.idxOf?_cons, hexe.2, hbackground.2, hargs, hpath.2]
  unfold acknowledgeStartup
  rw [hjob, htoken]
  rfl

theorem acknowledgeJob_ok_iff {path token : String} {receipt : Path × Health} :
    acknowledgeJob host fs path token currentExe plist pid = .ok receipt ↔
      ∃ job exe, Accepted host fs (parse path) token job ∧ currentExe = .ok exe ∧
        appRoot fs exe = .ok job.target ∧
        plist job.target "CFBundleShortVersionString" = .ok job.version ∧
        receipt = (job.health, ⟨token, job.version, pid.toNat⟩) := by
  simp only [acknowledgeJob, bind_ok_iff, bailIf_ok_iff, loadJob_ok_iff, bne_eq_false_iff_eq]
  constructor
  · rintro ⟨job, hjob, exe, hexe, root, hroot, -, rfl, version, hversion, -, rfl, heq⟩
    cases heq
    exact ⟨job, exe, hjob, hexe, hroot, hversion, rfl⟩
  · rintro ⟨job, exe, hjob, hexe, hroot, hversion, rfl⟩
    exact ⟨job, hjob, exe, hexe, _, hroot, (), rfl, _, hversion, (), rfl, rfl⟩

/-- An app in the target's bundle is the target's. -/
theorem appRoot_executable (happ : job.target.extension = some "app")
    (htarget : fs.canonicalize job.target = .ok job.target) :
    appRoot fs job.executable = .ok job.target := by
  have hroot : ((job.executable.parent.bind Path.parent).bind Path.parent) = some job.target := by
    simp [Job.executable]
  simp [appRoot, hroot, Option.filter, happ, htarget]

end Receipt

/-! ## The agreement -/

section Agreement

variable {host : Host} {fs : FileSystem} {exe : Except Error Path} {updates : Path} {drawn : Drawn}
  {version token : String} {pid : UInt32} {job : Job}

/-- **The prepared job is understood** by the worker exactly if the target is an app by its name and
is not nested in another; and the new app, once the target holds the version, writes the receipt
that the worker waits for, and that no other child's worker takes for its own. -/
theorem prepared_job_serves (hfs : fs.Canonical) (huuid : host.isUuid token = true) (hpid : 1 < pid)
    (hjob : newJob fs exe updates drawn version token pid = .ok job) (hw : Written host fs job) :
    (workerJob host fs job.path token (.ok (job.workspace.join lpt)) pid = .ok job ↔
      job.target.extension = some "app" ∧ NotNested job) ∧
    (job.target.extension = some "app" → ∀ plist (pid' : UInt32),
      plist job.target "CFBundleShortVersionString" = .ok version →
      ∃ receipt, acknowledgeStartup host fs (startArgs job true) (.ok job.executable) plist pid' =
          .ok (some (job.health, receipt)) ∧
        host.serde.fromSlice healthFromJson (healthToJson receipt).toVec = some receipt ∧
        ∀ child, confirms job.toTransact child receipt = true ↔ child = pid'.toNat) := by
  refine ⟨workerJob_iff hfs huuid hpid hjob hw, fun happ plist pid' hplist => ?_⟩
  obtain ⟨htarget, hplain, -, -, hversion, htoken, -⟩ := newJob_ok hfs hjob
  have haccepted := (accepted_iff hfs huuid hpid hjob hw).mpr happ
  refine ⟨⟨token, version, pid'.toNat⟩, ?_, ?_, ?_⟩
  · rw [acknowledge_started hplain.1 (hfs.plain _ _ hw.workspace).1]
    have hreceipt : acknowledgeJob host fs job.path.text job.token (.ok job.executable) plist pid' =
        .ok (job.health, ⟨token, version, pid'.toNat⟩) := by
      rw [acknowledgeJob_ok_iff, parse_text, htoken, ← hversion]
      exact ⟨job, _, haccepted, rfl, appRoot_executable happ htarget, hversion ▸ hplist, rfl⟩
    rw [hreceipt]
    rfl
  · exact health_fromSlice _ pid'.toNat_lt
  · intro child
    simp only [confirms, Job.toTransact, hversion, htoken, beq_self_eq_true, Bool.true_and,
      beq_iff_eq]
    exact eq_comm

end Agreement

/-! ### An update in the applications folder -/

def sampleToken : String := "0f8fad5b-d9cb-469f-a165-70867728950e"

def sampleHost : Host :=
  ⟨⟨127, fun _ => true⟩, by decide, "expected value", (· == sampleToken), 501⟩

def applications : Path := ⟨.absolute, [⟨"Applications", by decide⟩]⟩

def updatesFolder : Path := ⟨.absolute, [⟨"Users", by decide⟩, ⟨"u", by decide⟩]⟩

def sampleDrawn : Drawn := ⟨"AbC123", by decide⟩

def sampleJob : Job where
  target := applications.join ⟨"LinkPilot.app", by decide⟩
  workspace := applications.join (workspaceName sampleDrawn)
  updates := updatesFolder
  version := "0.5.12"
  token := sampleToken
  oldPid := 400

/-- No links, and the one file that was written. -/
def sampleFiles : FileSystem where
  canonicalize p :=
    if p.root = .absolute ∧ ∀ n ∈ p.names, n.text ≠ ".." then .ok p
    else .error ["No such file or directory"]
  metadata _ := .ok ⟨false, 501, 0o700⟩
  symlinkMetadata _ := .ok ⟨true, 501, 0o600⟩
  read p :=
    if p = sampleJob.path then .ok sampleJob.toJson.toVec
    else .error ["No such file or directory"]

theorem sampleFiles_canonical : sampleFiles.Canonical := by
  have hok : ∀ p q, sampleFiles.canonicalize p = .ok q → p = q ∧ q.Plain := by
    intro p q h
    simp only [sampleFiles] at h
    split at h
    · rename_i hplain
      cases h
      exact ⟨rfl, hplain⟩
    · cases h
  constructor
  · exact fun p q h => (hok p q h).2
  · intro p q h
    obtain ⟨rfl, -⟩ := hok p q h
    exact h
  · intro p q folder h hfolder
    obtain ⟨rfl, hroot, hnames⟩ := hok p q h
    apply if_pos
    unfold Path.parent at hfolder
    split at hfolder
    · cases hfolder
    · cases hfolder
    · rename_i hcurrent
      rw [hroot] at hcurrent
      cases hcurrent
    · cases hfolder
      exact ⟨hroot, fun n hn => hnames n ((List.dropLast_sublist _).subset hn)⟩

theorem sampleJob_new : newJob sampleFiles (.ok sampleJob.executable) updatesFolder sampleDrawn
    "0.5.12" sampleToken 400 = .ok sampleJob := by
  decide

theorem sampleJob_written : Written sampleHost sampleFiles sampleJob where
  workspace := by decide
  isPrivate := ⟨⟨false, 501, 0o700⟩, rfl, by decide⟩
  file := ⟨⟨true, 501, 0o600⟩, rfl, rfl, rfl, by decide⟩
  text := by simp [sampleFiles]

theorem sampleJob_uuid : sampleHost.isUuid sampleToken = true := by decide

theorem sampleJob_notNested : NotNested sampleJob := by
  intro folder above hfolder habove
  cases hfolder
  cases habove
  decide

theorem prepared_job_serves_sample :
    workerJob sampleHost sampleFiles sampleJob.path sampleToken (.ok (sampleJob.workspace.join lpt))
        400 = .ok sampleJob ∧
      ∃ receipt, acknowledgeStartup sampleHost sampleFiles (startArgs sampleJob true)
          (.ok sampleJob.executable) (fun _ _ => .ok "0.5.12") 502 =
            .ok (some (sampleJob.health, receipt)) ∧
        confirms sampleJob.toTransact 502 receipt = true := by
  have happ : sampleJob.target.extension = some "app" := by decide
  obtain ⟨hworker, hreceipt⟩ := prepared_job_serves sampleFiles_canonical sampleJob_uuid (by decide)
    sampleJob_new sampleJob_written
  obtain ⟨receipt, hstartup, -, hconfirms⟩ := hreceipt happ (fun _ _ => .ok "0.5.12") 502 rfl
  exact ⟨hworker.mpr ⟨happ, sampleJob_notNested⟩, receipt, hstartup, (hconfirms 502).mpr rfl⟩

end LinkPilot.UpdateJob
