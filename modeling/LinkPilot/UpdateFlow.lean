import LinkPilot.Downloads

/-!
# The update runner

Model of `createUpdateRunner` of `apps/desktop/src/lib/update-flow.ts`, an asynchronous function
with an await at every dependency it asks.  JavaScript runs it on one thread: what happens between
two awaits is one step, and calls of the runner and settling promises come in any order between the
steps.  A run keeps a log of what it asked for, of what it got, and of the states that it emitted.

Principal results:

* `resume_at` — from one await to the next, the log has the shape that the await stands for.
* `update_runner_safe` — in every state of every run of the system: at most one run is in flight,
  every installation is justified by what its run has done before, a run that is over has ended in
  a final state, and the runner accepts a new call.
-/

set_option autoImplicit false

namespace LinkPilot.UpdateFlow

open Interleaving

/-! ## Logs -/

section Log

variable {α : Type}

/-- Each element of `log`, which comes after `before`, is allowed by what comes before it. -/
def EachAllowed (P : List α → α → Prop) (before : List α) : List α → Prop
  | [] => True
  | e :: log => P before e ∧ EachAllowed P (before ++ [e]) log

theorem eachAllowed_append {P : List α → α → Prop} {before l m : List α} :
    EachAllowed P before (l ++ m) ↔ EachAllowed P before l ∧ EachAllowed P (before ++ l) m := by
  induction l generalizing before with
  | nil => simp [EachAllowed]
  | cons e l ih => simp [EachAllowed, ih, and_assoc]

theorem EachAllowed.split {P : List α → α → Prop} {log : List α} (h : EachAllowed P [] log)
    {before after : List α} {e : α} (hlog : log = before ++ e :: after) : P before e := by
  rw [hlog, eachAllowed_append] at h
  simpa using h.2.1

end Log

/-! ## The runner -/

structure UpdateAssetMeta where
  name : String
  downloadUrl : String
  size : Option Nat
  sha256 : Option String
  deriving DecidableEq, Repr

structure UpdateCheckResult where
  currentVersion : String
  latestVersion : String
  releaseUrl : String
  asset : UpdateAssetMeta
  releaseName : Option String
  publishedAt : Option String
  available : Bool
  checkedAt : Nat
  installError : Option String
  deriving DecidableEq, Repr

/-- `UpdateCheckState`, as far as the runner emits it. -/
inductive UpdateCheckState where
  | checking
  | upToDate (result : UpdateCheckResult)
  | downloading (result : UpdateCheckResult)
  | installing (result : UpdateCheckResult)
  | downloaded (result : UpdateCheckResult) (download : UpdateDownload)
  | error (error : String) (checkedAt : Nat) (result : Option UpdateCheckResult)
      (download : Option UpdateDownload)
  deriving DecidableEq, Repr

/-- The calls of the runner that there are: `run(true)`, `run()` and `run(false, true)`. -/
inductive Kind where
  | automatic
  | manual
  | manualInstall
  deriving DecidableEq, Repr

/-- The argument `automatic`. -/
def Kind.isAutomatic : Kind → Bool
  | .automatic => true
  | _ => false

/-- The argument `install`. -/
def Kind.isInstall : Kind → Bool
  | .manualInstall => true
  | _ => false

/-- A dependency that is asked, with its arguments. -/
inductive Dependency where
  | enabled
  | currentVersion
  | check (version : String)
  | download (result : UpdateCheckResult)
  | install (version : String) (automatic : Bool)
  deriving DecidableEq, Repr

/-- What a promise settles with; a rejection with the string that `String` makes of it. -/
inductive Outcome where
  | enabled (value : Bool)
  | currentVersion (version : String)
  | check (result : UpdateCheckResult)
  | download (download : UpdateDownload)
  | install (installed : Bool)
  | rejected (error : String)
  deriving DecidableEq, Repr

inductive Event where
  | asked (dependency : Dependency)
  | settled (outcome : Outcome)
  | emitted (state : UpdateCheckState)
  deriving DecidableEq, Repr

/-- The awaits of the runner, with the variables that are set by then. -/
inductive Await where
  | enabled
  | currentVersion
  | check
  | download (result : UpdateCheckResult)
  | enabledAgain (result : UpdateCheckResult) (download : UpdateDownload)
  | install (result : UpdateCheckResult) (download : UpdateDownload)
  deriving DecidableEq, Repr

/-- A string that counts as true: not `null` and not empty. -/
def truthy (s : Option String) : Bool := s.any fun s => s ≠ ""

/-- `String(new Error(message))`. -/
def errorString (message : String) : String :=
  if message = "" then "Error" else "Error: " ++ message

/-- What the runner does until its next await; `none`: its promise is settled. -/
abbrev Segment := List Event × Option Await

/-- The `catch` clause. -/
def caught (error : String) (now : Nat) (result : Option UpdateCheckResult)
    (download : Option UpdateDownload) : Segment :=
  ([.emitted (.error error now result download)], none)

/-- `deps.state({ status: "checking" })` and what follows. -/
def startChecking : Segment := ([.emitted .checking, .asked .currentVersion], some .currentVersion)

def startInstalling (kind : Kind) (result : UpdateCheckResult) (download : UpdateDownload) :
    Segment :=
  ([.emitted (.installing result), .asked (.install result.latestVersion kind.isAutomatic)],
    some (.install result download))

def keepDownload (result : UpdateCheckResult) (download : UpdateDownload) : Segment :=
  ([.emitted (.downloaded result download)], none)

/-- Up to the first await. -/
def begin (kind : Kind) : Segment :=
  if kind.isAutomatic then ([.asked .enabled], some .enabled) else startChecking

/-- On from an await whose promise has settled; `none`: such an outcome it does not have. -/
def resume (checksumMissing : String) (now : Nat) (kind : Kind) : Await → Outcome → Option Segment
  | .enabled, .enabled value => some (if value then startChecking else ([], none))
  | .enabled, .rejected e => some (caught e now none none)
  | .currentVersion, .currentVersion version => some ([.asked (.check version)], some .check)
  | .currentVersion, .rejected e => some (caught e now none none)
  | .check, .check result => some <|
    if !result.available then ([.emitted (.upToDate result)], none)
    else if kind.isAutomatic && truthy result.installError then
      caught (errorString (result.installError.getD "")) now (some result) none
    else if !truthy result.asset.sha256 then
      caught (errorString checksumMissing) now (some result) none
    else ([.emitted (.downloading result), .asked (.download result)], some (.download result))
  | .check, .rejected e => some (caught e now none none)
  | .download result, .download download => some <|
    if kind.isAutomatic then ([.asked .enabled], some (.enabledAgain result download))
    else if kind.isInstall then startInstalling kind result download
    else keepDownload result download
  | .download result, .rejected e => some (caught e now (some result) none)
  | .enabledAgain result download, .enabled value => some <|
    if value || kind.isInstall then startInstalling kind result download
    else keepDownload result download
  | .enabledAgain result download, .rejected e => some (caught e now (some result) (some download))
  | .install result download, .install installed => some <|
    if installed then ([], none) else keepDownload result download
  | .install result download, .rejected e => some (caught e now (some result) (some download))
  | _, _ => none

/-! ## Calls and runs -/

/-- `settled`: the callback of `finally` is still to run. -/
inductive Stage where
  | awaiting (await : Await)
  | settled
  | done
  deriving DecidableEq, Repr

structure Run where
  kind : Kind
  stage : Stage
  log : List Event

/-- A run goes on with a segment. -/
def Run.extend (kind : Kind) (log : List Event) (segment : Segment) : Run where
  kind := kind
  stage := segment.2.elim .settled .awaiting
  log := log ++ segment.1

/-- `running` is the run whose promise the variable holds, and `answers` the run whose promise each
call was given. -/
structure World where
  running : Option Nat
  runs : Nat → Option Run
  next : Nat
  answers : List (Kind × Nat)

inductive Action where
  | call (kind : Kind)
  | settle (r : Nat) (outcome : Outcome) (now : Nat)
  | clear (r : Nat)

/-- Nothing has been called. -/
def World.fresh : World := ⟨none, fun _ => none, 0, []⟩

/-- A call that begins a run. -/
def World.beginRun (w : World) (kind : Kind) : World where
  running := some w.next
  runs := Function.update w.runs w.next (some (.extend kind [] (begin kind)))
  next := w.next + 1
  answers := w.answers ++ [(kind, w.next)]

def step (checksumMissing : String) (w : World) : Action → Option World
  | .call kind =>
    match w.running with
    | some r => some { w with answers := w.answers ++ [(kind, r)] }
    | none => some (w.beginRun kind)
  | .settle r outcome now =>
    match w.runs r with
    | some ⟨kind, .awaiting await, log⟩ =>
      (resume checksumMissing now kind await outcome).map fun segment =>
        { w with
          runs := Function.update w.runs r
            (some (.extend kind (log ++ [.settled outcome]) segment)) }
    | _ => none
  | .clear r =>
    match w.runs r with
    | some ⟨kind, .settled, log⟩ =>
      some { w with running := none, runs := Function.update w.runs r (some ⟨kind, .done, log⟩) }
    | _ => none

/-- The run has begun and is not over. -/
def InFlight (w : World) (r : Nat) : Prop := ∃ run, w.runs r = some run ∧ run.stage ≠ .done

/-! ## What a run may do -/

/-- An installation is called only by a run that may install, of the result that it has checked and
downloaded; an automatic run was enabled at its start and again after the download. -/
def Justified (kind : Kind) (before : List Event) : Event → Prop
  | .asked (.install version automatic) =>
    kind ≠ .manual ∧ automatic = kind.isAutomatic ∧ ∃ result download,
      result.latestVersion = version ∧ result.available = true ∧
        truthy result.asset.sha256 = true ∧
        [.settled (.check result), .asked (.download result),
          .settled (.download download)].Sublist before ∧
        (kind = .automatic →
          truthy result.installError = false ∧
            [.asked .enabled, .settled (.enabled true)] <+: before ∧
            [.settled (.download download), .asked .enabled,
              .settled (.enabled true)].Sublist before)
  | _ => True

/-- The last state that was emitted. -/
def lastState (log : List Event) : Option UpdateCheckState :=
  (log.filterMap fun
    | .emitted state => some state
    | _ => none).getLast?

/-- A log that ends with a final state, with an installation that went through, or without any
state since automatic mode is off. -/
def EndsWell (kind : Kind) (log : List Event) : Prop :=
  match lastState log with
  | none => kind = .automatic ∧ log.getLast? = some (.settled (.enabled false))
  | some (.upToDate _) => True
  | some (.downloaded _ _) => True
  | some (.error _ _ _ _) => True
  | some (.installing _) => log.getLast? = some (.settled (.install true))
  | some _ => False

/-- What the promise of an await can settle with. -/
def Await.Accepts : Await → Outcome → Prop
  | _, .rejected _ => True
  | .enabled, .enabled _ => True
  | .currentVersion, .currentVersion _ => True
  | .check, .check _ => True
  | .download _, .download _ => True
  | .enabledAgain _ _, .enabled _ => True
  | .install _ _, .install _ => True
  | _, _ => False

/-- The action lets the run `r` go on, with these outcomes at its awaits. -/
def Drives (outcomes : Await → Outcome) (r : Nat) : Action → Prop
  | .call _ => False
  | .settle s outcome _ => s = r ∧ ∃ await, outcome = outcomes await
  | .clear s => s = r

/-- What holds in every state.  A call made while a run is in flight is given its promise and starts
nothing; `lands`: whatever the outcomes are, a run in flight comes to its end. -/
structure Safe (checksumMissing : String) (w : World) : Prop where
  single : ∀ r s, InFlight w r → InFlight w s → r = s
  justified : ∀ r run, w.runs r = some run → ∀ before event after,
    run.log = before ++ event :: after → Justified run.kind before event
  joins : ∀ r, InFlight w r → ∀ kind,
    step checksumMissing w (.call kind) = some { w with answers := w.answers ++ [(kind, r)] }
  ends : ∀ r run, w.runs r = some run → run.stage = .done → EndsWell run.kind run.log
  accepts : (∀ r, ¬ InFlight w r) → ∀ kind,
    step checksumMissing w (.call kind) = some (w.beginRun kind)
  lands : ∀ r, InFlight w r → ∀ outcomes : Await → Outcome,
    (∀ a : Await, a.Accepts (outcomes a)) →
    ∃ as w', run (step checksumMissing) w as = some w' ∧ (∀ a ∈ as, Drives outcomes r a) ∧
      ∀ s, ¬ InFlight w' s

/-! ## The shapes of a log -/

/-- A result that a run of this kind downloads. -/
structure Installable (kind : Kind) (result : UpdateCheckResult) : Prop where
  available : result.available = true
  sha256 : truthy result.asset.sha256 = true
  noError : kind = .automatic → truthy result.installError = false

def Kind.opening : Kind → List Event
  | .automatic => [.asked .enabled, .settled (.enabled true)]
  | _ => []

def versionLog (kind : Kind) : List Event :=
  kind.opening ++ [.emitted .checking, .asked .currentVersion]

def checkLog (kind : Kind) (version : String) : List Event :=
  versionLog kind ++ [.settled (.currentVersion version), .asked (.check version)]

def resultLog (kind : Kind) (version : String) (result : UpdateCheckResult) : List Event :=
  checkLog kind version ++ [.settled (.check result)]

def downloadLog (kind : Kind) (version : String) (result : UpdateCheckResult) : List Event :=
  resultLog kind version result ++ [.emitted (.downloading result), .asked (.download result)]

def downloadedLog (kind : Kind) (version : String) (result : UpdateCheckResult)
    (download : UpdateDownload) : List Event :=
  downloadLog kind version result ++ [.settled (.download download)]

/-- The question whether updates are still enabled, when it was answered with yes. -/
def Kind.again : Kind → List Event
  | .automatic => [.asked .enabled, .settled (.enabled true)]
  | _ => []

def installLog (kind : Kind) (version : String) (result : UpdateCheckResult)
    (download : UpdateDownload) : List Event :=
  downloadedLog kind version result download ++ kind.again ++
    [.emitted (.installing result), .asked (.install result.latestVersion kind.isAutomatic)]

/-- The log of a run that is at an await. -/
inductive At (kind : Kind) : Await → List Event → Prop
  | enabled (hkind : kind = .automatic) : At kind .enabled [.asked .enabled]
  | currentVersion : At kind .currentVersion (versionLog kind)
  | check (version : String) : At kind .check (checkLog kind version)
  | download (version : String) {result : UpdateCheckResult} (h : Installable kind result) :
    At kind (.download result) (downloadLog kind version result)
  | enabledAgain (version : String) {result : UpdateCheckResult} (download : UpdateDownload)
    (hkind : kind = .automatic) (h : Installable kind result) :
    At kind (.enabledAgain result download)
      (downloadedLog kind version result download ++ [.asked .enabled])
  | install (version : String) {result : UpdateCheckResult} (download : UpdateDownload)
    (hkind : kind ≠ .manual) (h : Installable kind result) :
    At kind (.install result download) (installLog kind version result download)

/-- The log of a run whose promise has settled. -/
inductive Ended (kind : Kind) : List Event → Prop
  | off (hkind : kind = .automatic) : Ended kind [.asked .enabled, .settled (.enabled false)]
  | caught {await : Await} {log : List Event} (h : At kind await log) (outcome : Outcome)
    (error : String) (now : Nat) (result : Option UpdateCheckResult)
    (download : Option UpdateDownload) :
    Ended kind (log ++ [.settled outcome, .emitted (.error error now result download)])
  | upToDate {log : List Event} (h : At kind .check log) (result : UpdateCheckResult) :
    Ended kind (log ++ [.settled (.check result), .emitted (.upToDate result)])
  | kept {await : Await} {log : List Event} (h : At kind await log) (outcome : Outcome)
    (result : UpdateCheckResult) (download : UpdateDownload) :
    Ended kind (log ++ [.settled outcome, .emitted (.downloaded result download)])
  | installed {result : UpdateCheckResult} {download : UpdateDownload} {log : List Event}
    (h : At kind (.install result download) log) : Ended kind (log ++ [.settled (.install true)])

/-- What is said of a segment's end: the next await, or that the promise settled. -/
def Shape (kind : Kind) (log : List Event) : Option Await → Prop
  | some await => At kind await log
  | none => Ended kind log

section Shapes

variable {kind : Kind} {await : Await} {log : List Event}

theorem begin_at (kind : Kind) : Shape kind (begin kind).1 (begin kind).2 := by
  cases kind with
  | automatic => exact .enabled rfl
  | manual => exact At.currentVersion
  | manualInstall => exact At.currentVersion

/-- The log of the runs that install, as they begin to. -/
theorem startInstalling_at {result : UpdateCheckResult} (version : String)
    (download : UpdateDownload) (hkind : kind ≠ .manual) (h : Installable kind result) :
    Shape kind
      (downloadedLog kind version result download ++ kind.again ++
        (startInstalling kind result download).1)
      (startInstalling kind result download).2 :=
  At.install version download hkind h

/-- **From await to await.** -/
theorem resume_at {checksumMissing : String} {now : Nat} {outcome : Outcome} {segment : Segment}
    (h : At kind await log) (hresume : resume checksumMissing now kind await outcome = some segment) :
    Shape kind (log ++ [.settled outcome] ++ segment.1) segment.2 := by
  have hcaught : ∀ error result download, segment = caught error now result download →
      Shape kind (log ++ [.settled outcome] ++ segment.1) segment.2 := by
    rintro error result download rfl
    rw [List.append_assoc]
    exact .caught h outcome error now result download
  have hkept : ∀ result download, segment = keepDownload result download →
      Shape kind (log ++ [.settled outcome] ++ segment.1) segment.2 := by
    rintro result download rfl
    rw [List.append_assoc]
    exact .kept h outcome result download
  cases outcome with
  | rejected e => cases h <;> cases hresume <;> exact hcaught _ _ _ rfl
  | enabled value =>
    cases h with
    | enabled hkind =>
      cases hresume
      subst hkind
      cases value with
      | true => exact At.currentVersion
      | false => exact Ended.off rfl
    | enabledAgain version download hkind h =>
      cases hresume
      subst hkind
      cases value with
      | true =>
        have hat := startInstalling_at version download (by decide) h
        simpa [Kind.again] using hat
      | false => exact hkept _ _ rfl
    | _ => cases hresume
  | currentVersion version =>
    cases h with
    | currentVersion =>
      cases hresume
      rw [List.append_assoc]
      exact At.check version
    | _ => cases hresume
  | check result =>
    cases h with
    | check version =>
      simp only [resume, Option.some.injEq] at hresume
      split at hresume
      · subst hresume
        rw [List.append_assoc]
        exact Ended.upToDate (.check version) result
      · rename_i havailable
        split at hresume
        · exact hcaught _ _ _ hresume.symm
        · rename_i herror
          split at hresume
          · exact hcaught _ _ _ hresume.symm
          · rename_i hsha
            subst hresume
            refine At.download version ⟨by simpa using havailable, by simpa using hsha, ?_⟩
            rintro rfl
            simpa [Kind.isAutomatic] using herror
    | _ => cases hresume
  | download download =>
    cases h with
    | download version h =>
      simp only [resume, Option.some.injEq] at hresume
      cases kind with
      | automatic =>
        cases hresume
        exact At.enabledAgain version download rfl h
      | manual => exact hkept _ _ hresume.symm
      | manualInstall =>
        cases hresume
        exact At.install version download (by decide) h
    | _ => cases hresume
  | install installed =>
    cases h with
    | install version download hkind h =>
      simp only [resume, Option.some.injEq] at hresume
      split at hresume
      · rename_i htrue
        subst hresume
        subst htrue
        rw [List.append_nil]
        exact Ended.installed (.install version download hkind h)
      · exact hkept _ _ hresume.symm
    | _ => cases hresume

end Shapes

/-! ## What the shapes say -/

section Logs

variable {kind : Kind} {await : Await} {log : List Event}

/-- Nothing is installed by these. -/
theorem eachAllowed_downloadLog (kind : Kind) (version : String) (result : UpdateCheckResult) :
    EachAllowed (Justified kind) [] (downloadLog kind version result) := by
  cases kind <;> simp [downloadLog, resultLog, checkLog, versionLog, Kind.opening, EachAllowed,
    Justified]

theorem eachAllowed_downloadedLog (kind : Kind) (version : String) (result : UpdateCheckResult)
    (download : UpdateDownload) :
    EachAllowed (Justified kind) [] (downloadedLog kind version result download) :=
  eachAllowed_append.mpr ⟨eachAllowed_downloadLog kind version result, trivial, trivial⟩

/-- What a run has done when it begins to install justifies it. -/
theorem justified_install {version : String} {result : UpdateCheckResult}
    {download : UpdateDownload} (hkind : kind ≠ .manual) (h : Installable kind result) :
    Justified kind
      (downloadedLog kind version result download ++ kind.again ++ [.emitted (.installing result)])
      (.asked (.install result.latestVersion kind.isAutomatic)) := by
  have hdone : [.settled (.check result), .asked (.download result),
      .settled (.download download)].Sublist
        (downloadedLog kind version result download ++ kind.again ++
          [.emitted (.installing result)]) := by
    have htail : [Event.settled (.check result), .asked (.download result),
        .settled (.download download)].Sublist
          ([.settled (.check result)] ++ [.emitted (.downloading result),
            .asked (.download result)] ++ [.settled (.download download)]) := by
      simp
    refine List.Sublist.trans ?_ (List.sublist_append_left _ _)
    refine List.Sublist.trans ?_ (List.sublist_append_left _ _)
    simp only [downloadedLog, downloadLog, resultLog, List.append_assoc]
    simp only [List.append_assoc] at htail
    exact htail.trans (List.sublist_append_right _ _)
  refine ⟨hkind, rfl, result, download, rfl, h.available, h.sha256, hdone, ?_⟩
  rintro rfl
  refine ⟨h.noError rfl, ?_, ?_⟩
  · simp [downloadedLog, downloadLog, resultLog, checkLog, versionLog, Kind.opening]
  · have htail : [Event.settled (.download download), .asked .enabled,
        .settled (.enabled true)].Sublist
          ([.settled (.download download)] ++ Kind.automatic.again) := List.Sublist.refl _
    refine List.Sublist.trans ?_ (List.sublist_append_left _ _)
    simp only [downloadedLog, List.append_assoc]
    exact htail.trans (List.sublist_append_right _ _)

/-- **Installations are justified.** -/
theorem At.justified (h : At kind await log) : EachAllowed (Justified kind) [] log := by
  cases h with
  | enabled hkind => exact ⟨trivial, trivial⟩
  | currentVersion => cases kind <;> simp [versionLog, Kind.opening, EachAllowed, Justified]
  | check version =>
    cases kind <;> simp [checkLog, versionLog, Kind.opening, EachAllowed, Justified]
  | download version h => exact eachAllowed_downloadLog kind version _
  | enabledAgain version download hkind h =>
    exact eachAllowed_append.mpr
      ⟨eachAllowed_downloadedLog kind version _ download, trivial, trivial⟩
  | install version download hkind h =>
    have hagain : ∀ before, EachAllowed (Justified kind) before kind.again := by
      cases kind <;> simp [Kind.again, EachAllowed, Justified]
    refine eachAllowed_append.mpr ⟨eachAllowed_append.mpr
      ⟨eachAllowed_downloadedLog kind version _ download, hagain _⟩, trivial, ?_, trivial⟩
    exact justified_install hkind h

theorem Ended.justified (h : Ended kind log) : EachAllowed (Justified kind) [] log := by
  cases h with
  | off hkind => exact ⟨trivial, trivial, trivial⟩
  | caught h => exact eachAllowed_append.mpr ⟨h.justified, trivial, trivial, trivial⟩
  | upToDate h => exact eachAllowed_append.mpr ⟨h.justified, trivial, trivial, trivial⟩
  | kept h => exact eachAllowed_append.mpr ⟨h.justified, trivial, trivial, trivial⟩
  | installed h => exact eachAllowed_append.mpr ⟨h.justified, trivial, trivial⟩

theorem lastState_emitted (log : List Event) (outcome : Outcome) (state : UpdateCheckState) :
    lastState (log ++ [.settled outcome, .emitted state]) = some state := by
  simp [lastState]

/-- **Runs end in a final state.** -/
theorem Ended.endsWell (h : Ended kind log) : EndsWell kind log := by
  cases h with
  | off hkind => exact ⟨hkind, rfl⟩
  | caught h outcome error now result download =>
    simp only [EndsWell, lastState_emitted]
  | upToDate h result => simp only [EndsWell, lastState_emitted]
  | kept h outcome result download => simp only [EndsWell, lastState_emitted]
  | @installed result download _ h =>
    cases h with
    | install version download hkind h =>
      have hlast : lastState (installLog kind version result download ++
          [.settled (.install true)]) = some (.installing result) := by
        simp [lastState, installLog]
      simp only [EndsWell, hlast]
      simp

end Logs

/-! ## The system -/

/-- The log of a run has the shape that its stage stands for. -/
def Run.Ok (run : Run) : Prop :=
  match run.stage with
  | .awaiting await => At run.kind await run.log
  | _ => Ended run.kind run.log

structure Inv (w : World) : Prop where
  runs : ∀ r run, w.runs r = some run → run.Ok
  begun : ∀ r, w.next ≤ r → w.runs r = none
  running : ∀ r, w.running = some r ↔ InFlight w r

section System

variable {checksumMissing : String} {w w' : World}

theorem Run.ok_extend {kind : Kind} {log : List Event} {segment : Segment}
    (h : Shape kind (log ++ segment.1) segment.2) : (Run.extend kind log segment).Ok := by
  obtain ⟨events, next⟩ := segment
  cases next <;> exact h

theorem Run.extend_stage (kind : Kind) (log : List Event) (segment : Segment) :
    (Run.extend kind log segment).stage ≠ .done := by
  obtain ⟨events, next⟩ := segment
  cases next <;> simp [Run.extend]

theorem Run.Ok.justified {run : Run} (h : run.Ok) :
    EachAllowed (Justified run.kind) [] run.log := by
  unfold Run.Ok at h
  split at h
  · exact h.justified
  · exact h.justified

theorem inv_fresh : Inv World.fresh where
  runs _ _ := nofun
  begun _ _ := rfl
  running r := by
    refine ⟨nofun, ?_⟩
    rintro ⟨run, hrun, -⟩
    cases hrun

/-- One run in flight changes and stays in flight. -/
theorem inv_update {r : Nat} {run run' : Run} (h : Inv w) (hr : w.runs r = some run)
    (hstage : run.stage ≠ .done) (hok : run'.Ok) (hstage' : run'.stage ≠ .done) :
    Inv { w with runs := Function.update w.runs r (some run') } where
  runs s run₀ hs := by
    have hs : Function.update w.runs r (some run') s = some run₀ := hs
    rw [Function.update_apply] at hs
    split at hs
    · cases hs
      exact hok
    · exact h.runs s run₀ hs
  begun s hs := by
    show Function.update w.runs r (some run') s = none
    rw [Function.update_of_ne, h.begun s hs]
    rintro rfl
    rw [h.begun s hs] at hr
    cases hr
  running s := by
    rw [show (World.running { w with runs := _ } = some s ↔ _) from h.running s]
    simp only [InFlight, Function.update_apply]
    by_cases hsr : s = r
    · subst hsr
      simp [hr, hstage, hstage']
    · simp [hsr]

/-- A call that finds no run begins one. -/
theorem inv_beginRun (h : Inv w) (hidle : w.running = none) (kind : Kind) :
    Inv (w.beginRun kind) := by
  have hnone : ∀ r, ¬ InFlight w r := by
    intro r hr
    rw [(h.running r).mpr hr] at hidle
    cases hidle
  refine ⟨?_, ?_, ?_⟩
  · intro r run hr
    simp only [World.beginRun, Function.update_apply] at hr
    split at hr
    · cases hr
      exact Run.ok_extend (begin_at kind)
    · exact h.runs r run hr
  · intro r hr
    have hlt : w.next < r := hr
    simp only [World.beginRun, Function.update_apply]
    rw [if_neg (by omega)]
    apply h.begun
    omega
  · intro r
    simp only [World.beginRun, InFlight, Function.update_apply, Option.some.injEq]
    constructor
    · rintro rfl
      exact ⟨_, if_pos rfl, Run.extend_stage _ _ _⟩
    · rintro ⟨run, hrun, hstage⟩
      split at hrun
      · rename_i heq
        exact heq.symm
      · exact absurd ⟨run, hrun, hstage⟩ (hnone r)

/-- The callback of `finally`: the run in flight is over, and there is no other. -/
theorem inv_clear {r : Nat} {kind : Kind} {log : List Event} (h : Inv w)
    (hr : w.runs r = some ⟨kind, .settled, log⟩) :
    Inv { w with running := none, runs := Function.update w.runs r (some ⟨kind, .done, log⟩) } := by
  have hended : Ended kind log := h.runs r _ hr
  have hrunning : w.running = some r := by
    apply (h.running r).mpr
    exact ⟨_, hr, nofun⟩
  refine ⟨?_, ?_, ?_⟩
  · intro s run hrun
    have hrun : Function.update w.runs r _ s = some run := hrun
    rw [Function.update_apply] at hrun
    split at hrun
    · cases hrun
      exact hended
    · exact h.runs s run hrun
  · intro s hle
    show Function.update w.runs r _ s = none
    rw [Function.update_of_ne, h.begun s hle]
    rintro rfl
    rw [h.begun s hle] at hr
    cases hr
  · intro s
    refine ⟨nofun, ?_⟩
    rintro ⟨run, hrun, hstage⟩
    have hrun : Function.update w.runs r _ s = some run := hrun
    rw [Function.update_apply] at hrun
    split at hrun
    · cases hrun
      exact absurd rfl hstage
    · rename_i hne
      have hs := (h.running s).mpr ⟨run, hrun, hstage⟩
      rw [hrunning] at hs
      cases hs
      exact absurd rfl hne

theorem inv_step {a : Action} (h : Inv w) (hs : step checksumMissing w a = some w') : Inv w' := by
  cases a with
  | call kind =>
    simp only [step] at hs
    split at hs
    · cases hs
      exact ⟨h.runs, h.begun, h.running⟩
    · rename_i hidle
      cases hs
      exact inv_beginRun h hidle kind
  | settle r outcome now =>
    simp only [step] at hs
    split at hs
    · rename_i kind await log hr
      obtain ⟨segment, hresume, rfl⟩ := Option.map_eq_some_iff.mp hs
      have hat : At kind await log := h.runs r _ hr
      exact inv_update h hr nofun (Run.ok_extend (resume_at hat hresume))
        (Run.extend_stage _ _ _)
    · cases hs
  | clear r =>
    simp only [step] at hs
    split at hs
    · rename_i kind log hr
      cases hs
      exact inv_clear h hr
    · cases hs

/-! ### Coming to an end -/

/-- How many awaits there can be from here on. -/
def Await.remaining : Await → Nat
  | enabled => 6
  | currentVersion => 5
  | check => 4
  | download _ => 3
  | enabledAgain _ _ => 2
  | install _ _ => 1

theorem resume_rejected (now : Nat) (kind : Kind) (await : Await) (e : String) :
    ∃ result download, resume checksumMissing now kind await (.rejected e) =
      some (caught e now result download) := by
  cases await <;> exact ⟨_, _, rfl⟩

/-- A promise that settles takes its run on to a later await or to its end. -/
theorem resume_accepts (checksumMissing : String) (now : Nat) (kind : Kind) {await : Await}
    {outcome : Outcome} (h : await.Accepts outcome) :
    ∃ segment, resume checksumMissing now kind await outcome = some segment ∧
      ∀ next, segment.2 = some next → next.remaining < await.remaining := by
  cases outcome with
  | rejected e =>
    obtain ⟨result, download, hresume⟩ := resume_rejected now kind await e
    refine ⟨_, hresume, ?_⟩
    intro next hnext
    cases hnext
  | enabled value =>
    cases await with
    | enabled =>
      refine ⟨_, rfl, ?_⟩
      cases value <;> simp [startChecking, Await.remaining]
    | enabledAgain result download =>
      refine ⟨_, rfl, ?_⟩
      split <;> simp [startInstalling, keepDownload, Await.remaining]
    | _ => exact h.elim
  | currentVersion version =>
    cases await with
    | currentVersion =>
      exact ⟨_, rfl, by simp [Await.remaining]⟩
    | _ => exact h.elim
  | check result =>
    cases await with
    | check =>
      refine ⟨_, rfl, ?_⟩
      repeat' split
      all_goals simp [caught, Await.remaining]
    | _ => exact h.elim
  | download download =>
    cases await with
    | download result =>
      refine ⟨_, rfl, ?_⟩
      repeat' split
      all_goals simp [startInstalling, keepDownload, Await.remaining]
    | _ => exact h.elim
  | install installed =>
    cases await with
    | install result download =>
      refine ⟨_, rfl, ?_⟩
      cases installed <;> simp [keepDownload]
    | _ => exact h.elim

/-- The last step of a run; no other is in flight. -/
theorem lands_of_settled {r : Nat} {kind : Kind} {log : List Event} (h : Inv w)
    (hr : w.runs r = some ⟨kind, .settled, log⟩) (outcomes : Await → Outcome) :
    ∃ as w', run (step checksumMissing) w as = some w' ∧ (∀ a ∈ as, Drives outcomes r a) ∧
      ∀ s, ¬ InFlight w' s := by
  obtain ⟨w', hclear, hidle⟩ : ∃ w', step checksumMissing w (.clear r) = some w' ∧
      w'.running = none := by
    simp only [step, hr]
    exact ⟨_, rfl, rfl⟩
  refine ⟨[.clear r], w', by simp only [run, hclear], by simp [Drives], fun s hs => ?_⟩
  have hrunning := ((inv_step h hclear).running s).mpr hs
  rw [hidle] at hrunning
  cases hrunning

theorem lands_of_awaiting {r : Nat} (outcomes : Await → Outcome)
    (houtcomes : ∀ a : Await, a.Accepts (outcomes a)) (n : Nat) :
    ∀ {w : World} {kind : Kind} {await : Await} {log : List Event}, Inv w →
      w.runs r = some ⟨kind, .awaiting await, log⟩ → await.remaining ≤ n →
      ∃ as w', run (step checksumMissing) w as = some w' ∧ (∀ a ∈ as, Drives outcomes r a) ∧
        ∀ s, ¬ InFlight w' s := by
  induction n with
  | zero =>
    intro w kind await log _ _ hle
    cases await <;> simp [Await.remaining] at hle
  | succ n ih =>
    intro w kind await log h hr hle
    obtain ⟨⟨events, next⟩, hresume, hless⟩ :=
      resume_accepts checksumMissing 0 kind (houtcomes await)
    have hsettle : step checksumMissing w (.settle r (outcomes await) 0) = some { w with
        runs := Function.update w.runs r
          (some (.extend kind (log ++ [.settled (outcomes await)]) (events, next))) } := by
      simp only [step, hr, hresume, Option.map_some]
    have hdrives : Drives outcomes r (.settle r (outcomes await) 0) := ⟨rfl, await, rfl⟩
    have hrest : ∃ as w', run (step checksumMissing) { w with
        runs := Function.update w.runs r
          (some (.extend kind (log ++ [.settled (outcomes await)]) (events, next))) } as =
        some w' ∧ (∀ a ∈ as, Drives outcomes r a) ∧ ∀ s, ¬ InFlight w' s := by
      cases next with
      | none => exact lands_of_settled (inv_step h hsettle) (Function.update_self ..) outcomes
      | some next =>
        have hlt := hless next rfl
        exact ih (inv_step h hsettle) (Function.update_self ..) (by omega)
    obtain ⟨as, w', hrun, has, hnone⟩ := hrest
    refine ⟨.settle r (outcomes await) 0 :: as, w', ?_, ?_, hnone⟩
    · simp only [run, hsettle, hrun]
    · intro a ha
      rcases List.mem_cons.mp ha with rfl | ha
      · exact hdrives
      · exact has a ha

theorem safe_of_inv (h : Inv w) : Safe checksumMissing w where
  single r s hr hs := by
    have hrunning := (h.running r).mpr hr
    rw [(h.running s).mpr hs] at hrunning
    cases hrunning
    rfl
  justified r run hr before event after hlog := (h.runs r run hr).justified.split hlog
  joins r hr kind := by
    simp only [step, (h.running r).mpr hr]
  ends r run hr hover := by
    have hok := h.runs r run hr
    simp only [Run.Ok, hover] at hok
    exact hok.endsWell
  accepts hnone kind := by
    cases hrunning : w.running with
    | none => simp only [step, hrunning]
    | some r => exact absurd ((h.running r).mp hrunning) (hnone r)
  lands r hr outcomes houtcomes := by
    obtain ⟨⟨kind, stage, log⟩, hrun, hstage⟩ := hr
    cases stage with
    | awaiting await =>
      exact lands_of_awaiting outcomes houtcomes await.remaining h hrun (Nat.le_refl _)
    | settled => exact lands_of_settled h hrun outcomes
    | done => exact absurd rfl hstage

end System

/-- **The update runner is safe.** Whatever calls there are, whatever the dependencies settle with,
and in whatever order, every state has the properties of `Safe`. -/
theorem update_runner_safe (checksumMissing : String) {as : List Action} {w : World}
    (h : run (step checksumMissing) .fresh as = some w) : Safe checksumMissing w :=
  safe_of_inv <| (exec_iff_run.mpr h).invariant (fun _ _ _ hI _ hs => inv_step hI hs) inv_fresh

def newRelease : UpdateCheckResult where
  currentVersion := "0.5.11"
  latestVersion := "0.5.12"
  releaseUrl := "https://github.com/jackerjay/LinkPilot/releases/tag/v0.5.12"
  asset := ⟨"update.dmg", "https://github.com/jackerjay/LinkPilot/releases/download/v0.5.12/update.dmg",
    none, some Downloads.abcHash⟩
  releaseName := none
  publishedAt := none
  available := true
  checkedAt := 0
  installError := none

def cachedDownload : UpdateDownload := ⟨"0.5.12", "update.dmg", "/cache/update.dmg", true, 3⟩

/-- An automatic run up to its installation, with a manual check while it goes on. -/
def automaticInstall : List Action :=
  [.call .automatic, .settle 0 (.enabled true) 0, .settle 0 (.currentVersion "0.5.11") 0,
    .call .manual, .settle 0 (.check newRelease) 0, .settle 0 (.download cachedDownload) 0,
    .settle 0 (.enabled true) 0, .settle 0 (.install true) 0, .clear 0]

theorem update_runner_safe_automatic :
    ∃ w, run (step "checksum missing") .fresh automaticInstall = some w ∧
      w.answers = [(.automatic, 0), (.manual, 0)] ∧
      (w.runs 0).map Run.stage = some .done ∧ Safe "checksum missing" w :=
  ⟨_, rfl, rfl, rfl, @update_runner_safe "checksum missing" automaticInstall _ rfl⟩

end LinkPilot.UpdateFlow
