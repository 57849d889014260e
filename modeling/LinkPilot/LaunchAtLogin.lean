import LinkPilot.Migration

/-!
# Launch at login: the LaunchAgent and the config

Model of `set_launch_at_login`, `config_replace` and `import_config` (direct edition) over the two
places that say whether the app starts at login: the plist of `MacAutostart`
(`crates/platform-mac/src/autostart.rs`) and `settings.launch_at_login`, in memory and on disk.

* `setLaunchAtLogin_spec` — what a call can do that does not stop between the plist and the config.
* `launchAtLogin_agrees` — in a run of such calls plist and config agree after each command exactly
  when `config_replace` and `import_config` carry the value that the plist has.
* `replace_disagrees` — they write a document with any other value, and leave the plist alone.
-/

set_option autoImplicit false

namespace LinkPilot.LaunchAtLogin

open Interleaving Serde

/-! ## The LaunchAgent -/

/-- The step of `MacAutostart::set_enabled` that fails, with its error.  A failing
`std::fs::write` may have created the file before. -/
inductive AutostartFault where
  | home
  | removeFile (e : String)
  | currentExe (e : String)
  | createDirAll (e : String)
  | write (created : Bool) (e : String)

/-- `MacAutostart::set_enabled`: the result, and whether the plist exists after it.  Removing a
plist that does not exist is no failure. -/
def setEnabled (plist on : Bool) (fault : Option AutostartFault) : Except String Unit × Bool :=
  match fault, on with
  | some .home, _ => (.error "HOME not set", plist)
  | some (.removeFile e), false => (.error ("io error: " ++ e), plist)
  | some (.currentExe e), true => (.error ("io error: " ++ e), plist)
  | some (.createDirAll e), true => (.error ("io error: " ++ e), plist)
  | some (.write created e), true => (.error ("io error: " ++ e), plist || created)
  | _, on => (.ok (), on)

theorem setEnabled_ok {plist on : Bool} {fault : Option AutostartFault}
    (h : (setEnabled plist on fault).1 = .ok ()) : setEnabled plist on fault = (.ok (), on) := by
  unfold setEnabled at h ⊢
  split <;> first | rfl | (simp only [reduceCtorEq] at h)

/-! ## The commands -/

/-- The plist (`true`: it exists) and the config store of the GUI. -/
structure Desktop where
  plist : Bool
  store : ConfigStore Json

/-- A command with the outcome of each of its steps.  A file to import is `none` when it cannot be
read or is not JSON. -/
inductive Command where
  | setLaunchAtLogin (enabled : Bool) (autostart : Option AutostartFault) (token : Uuid)
      (fault : Option Fault)
  | configReplace (doc : ConfigDocument) (token : Uuid) (fault : Option Fault)
  | importConfig (raw : Option Json) (token : Uuid) (fault : Option Fault)

inductive CommandError where
  | platform (e : String)
  | reading
  | importing (e : ImportError ConfigError)
  | config (e : ConfigError)

/-- `replace_config`. -/
def replaceConfig (limit : Nat) (plist : Bool) (store : ConfigStore Json) (doc : ConfigDocument)
    (token : Uuid) (fault : Option Fault) : Except CommandError Unit × Desktop :=
  match store.replace (jsonCodec limit) doc .gui token fault with
  | (.error e, store) => (.error (.config e), ⟨plist, store⟩)
  | (.ok (), store) => (.ok (), ⟨plist, store⟩)

/-- A command from its call to its return. -/
def Command.exec (limit : Nat) (d : Desktop) : Command → Except CommandError Unit × Desktop
  | .setLaunchAtLogin enabled autostart token fault =>
    let (outcome, plist) := setEnabled d.plist enabled autostart
    match LinkPilot.setLaunchAtLogin outcome enabled d.store.document with
    | .error e => (.error (.platform e), { d with plist := plist })
    | .ok doc => replaceConfig limit plist d.store doc token fault
  | .configReplace doc token fault => replaceConfig limit d.plist d.store doc token fault
  | .importConfig none _ _ => (.error .reading, d)
  | .importConfig (some raw) token fault =>
    match LinkPilot.importConfig limit d.store raw token fault with
    | (.error e, store) => (.error (.importing e), { d with store := store })
    | (.ok (), store) => (.ok (), { d with store := store })

def step (limit : Nat) (d : Desktop) (c : Command) : Option Desktop := some (c.exec limit d).2

/-! ## Agreement -/

/-- The document in the config file. -/
def diskDocument (store : ConfigStore Json) : Option ConfigDocument :=
  store.file.bind ConfigDocument.fromJson

/-- The plist exists iff `launch_at_login` is true, in memory and on disk. -/
structure Agrees (d : Desktop) : Prop where
  memory : d.store.document.settings.launchAtLogin = d.plist
  disk : ∃ saved, diskDocument d.store = some saved ∧ saved.settings.launchAtLogin = d.plist

/-- A `set_launch_at_login` does not stop between its two stores: if its plist step creates or
removes the plist, both of its steps succeed. -/
def Completes (d : Desktop) : Command → Prop
  | .setLaunchAtLogin enabled autostart _ fault =>
    (setEnabled d.plist enabled autostart).2 = d.plist ∨
      ((setEnabled d.plist enabled autostart).1 = .ok () ∧ fault = none)
  | _ => True

/-- The document that `config_replace` or `import_config` takes. -/
def Command.document? (limit : Nat) : Command → Option ConfigDocument
  | .setLaunchAtLogin .. => none
  | .configReplace doc _ _ => some doc
  | .importConfig raw _ _ => raw.bind (Json.fromStr limit ConfigDocument.fromJson)

/-- A document that the command takes carries the value that the plist has. -/
def Carries (limit : Nat) (d : Desktop) (c : Command) : Prop :=
  ∀ doc, c.document? limit = some doc → doc.settings.launchAtLogin = d.plist

/-- `config_replace` and `import_config` leave the plist alone, and a `set_launch_at_login` that
returns Ok ends in agreement, whatever was before. -/
def Settles (limit : Nat) (d : Desktop) : Command → Prop
  | .setLaunchAtLogin enabled autostart token fault =>
    ((Command.setLaunchAtLogin enabled autostart token fault).exec limit d).1 = .ok () →
      ((Command.setLaunchAtLogin enabled autostart token fault).exec limit d).2.plist = enabled ∧
        Agrees ((Command.setLaunchAtLogin enabled autostart token fault).exec limit d).2
  | c => (c.exec limit d).2.plist = d.plist

section Replace

variable {limit : Nat} {plist : Bool} {store : ConfigStore Json} {doc : ConfigDocument}
  {token : Uuid} {fault : Option Fault}

/-- `replace` installs the document in memory before anything can fail. -/
theorem replace_settings :
    (store.replace (jsonCodec limit) doc .gui token fault).2.document.settings = doc.settings := by
  cases fault with
  | none => rfl
  | some f =>
    unfold ConfigStore.replace
    rw [ConfigStore.persist_fault]
    by_cases hf : f = .createDir
    · rw [if_pos hf]
      rfl
    · rw [if_neg hf]
      rfl

/-- The file keeps its text unless every step succeeds. -/
theorem replace_disk (limit : Nat) (store : ConfigStore Json) (doc : ConfigDocument)
    (token : Uuid) (fault : Option Fault) :
    (fault = none ∧ ∃ saved, saved.settings = doc.settings ∧
        diskDocument (store.replace (jsonCodec limit) doc .gui token fault).2 = some saved) ∨
      (fault ≠ none ∧
        diskDocument (store.replace (jsonCodec limit) doc .gui token fault).2 =
          diskDocument store) := by
  cases fault with
  | none =>
    refine .inl ⟨rfl, doc.withMeta ⟨some token, some .gui⟩, rfl, ?_⟩
    show (some (doc.withMeta _).toJson).bind ConfigDocument.fromJson = _
    rw [Option.bind_some, ConfigDocument.fromJson_toJson]
  | some f =>
    refine .inr ⟨nofun, ?_⟩
    unfold diskDocument ConfigStore.replace
    rw [ConfigStore.persist_fault_file]

theorem replaceConfig_snd :
    (replaceConfig limit plist store doc token fault).2 =
      ⟨plist, (store.replace (jsonCodec limit) doc .gui token fault).2⟩ := by
  unfold replaceConfig
  split
  · rename_i h
    rw [h]
  · rename_i h
    rw [h]

end Replace

/-! ## One command -/

section Step

variable {limit : Nat} {d : Desktop}

theorem exec_setLaunchAtLogin_error {enabled plist : Bool} {autostart : Option AutostartFault}
    {e : String} (h : setEnabled d.plist enabled autostart = (.error e, plist)) (token : Uuid)
    (fault : Option Fault) :
    (Command.setLaunchAtLogin enabled autostart token fault).exec limit d =
      (.error (.platform e), { d with plist := plist }) := by
  simp only [Command.exec, h, LinkPilot.setLaunchAtLogin]

theorem exec_setLaunchAtLogin_ok {enabled : Bool} {autostart : Option AutostartFault}
    (h : (setEnabled d.plist enabled autostart).1 = .ok ()) (limit : Nat) (token : Uuid)
    (fault : Option Fault) :
    ∃ doc, doc.settings.launchAtLogin = enabled ∧
      (Command.setLaunchAtLogin enabled autostart token fault).exec limit d =
        replaceConfig limit enabled d.store doc token fault := by
  refine ⟨_, ?_, by simp only [Command.exec, setEnabled_ok h, LinkPilot.setLaunchAtLogin]; rfl⟩
  rfl

/-- The two commands that take a document: a document that cannot be read changes nothing. -/
theorem exec_document (limit : Nat) (d : Desktop) {c : Command}
    (hc : ∀ e a t f, c ≠ .setLaunchAtLogin e a t f) :
    (c.document? limit = none ∧ (c.exec limit d).2 = d) ∨
      ∃ doc token fault, c.document? limit = some doc ∧
        (c.exec limit d).2 =
          ⟨d.plist, (d.store.replace (jsonCodec limit) doc .gui token fault).2⟩ := by
  cases c with
  | setLaunchAtLogin e a t f => exact absurd rfl (hc e a t f)
  | configReplace doc token fault => exact .inr ⟨doc, token, fault, rfl, replaceConfig_snd⟩
  | importConfig raw token fault =>
    cases raw with
    | none => exact .inl ⟨rfl, rfl⟩
    | some raw =>
      simp only [Command.exec, Command.document?, LinkPilot.importConfig, Option.bind_some]
      cases Json.fromStr limit ConfigDocument.fromJson raw with
      | none => exact .inl ⟨rfl, rfl⟩
      | some doc =>
        refine .inr ⟨doc, token, fault, rfl, ?_⟩
        dsimp only
        cases d.store.replace (jsonCodec limit) doc .gui token fault with
        | mk result store => cases result <;> rfl

theorem exec_document_plist {c : Command} (hc : ∀ e a t f, c ≠ .setLaunchAtLogin e a t f) :
    (c.exec limit d).2.plist = d.plist := by
  rcases exec_document limit d hc with ⟨-, h⟩ | ⟨doc, token, fault, -, h⟩
  · rw [h]
  · rw [h]

/-- What is written agrees, when it carries the value of the plist and the file either is written
or carried that value before. -/
theorem agrees_replace {plist : Bool} {doc : ConfigDocument} {token : Uuid} {fault : Option Fault}
    (hdoc : doc.settings.launchAtLogin = plist)
    (hdisk : fault = none ∨
      ∃ saved, diskDocument d.store = some saved ∧ saved.settings.launchAtLogin = plist) :
    Agrees ⟨plist, (d.store.replace (jsonCodec limit) doc .gui token fault).2⟩ := by
  refine ⟨?_, ?_⟩
  · show (ConfigStore.document _).settings.launchAtLogin = plist
    rw [replace_settings, hdoc]
  · rcases replace_disk limit d.store doc token fault with ⟨-, saved, hsettings, hsaved⟩ | ⟨hfault, hkept⟩
    · exact ⟨saved, hsaved, by rw [hsettings, hdoc]⟩
    · obtain ⟨saved, hsaved, hflag⟩ := hdisk.resolve_left hfault
      exact ⟨saved, hkept.trans hsaved, hflag⟩

/-- **The dedicated command**: one that does not stop between its stores keeps the agreement. -/
theorem setLaunchAtLogin_spec {enabled : Bool} {autostart : Option AutostartFault} {token : Uuid}
    {fault : Option Fault} (hI : Agrees d)
    (hcompletes : Completes d (.setLaunchAtLogin enabled autostart token fault)) :
    Agrees ((Command.setLaunchAtLogin enabled autostart token fault).exec limit d).2 := by
  rcases h : setEnabled d.plist enabled autostart with ⟨outcome, plist⟩
  cases outcome with
  | error e =>
    have hplist : plist = d.plist := by
      rcases hcompletes with hsame | ⟨hok, -⟩
      · rwa [h] at hsame
      · rw [h] at hok
        cases hok
    rw [exec_setLaunchAtLogin_error h, hplist]
    exact hI
  | ok u =>
    have hok : (setEnabled d.plist enabled autostart).1 = .ok () := by rw [h]
    have hplist : plist = enabled := by
      have := setEnabled_ok hok
      rw [h] at this
      exact congrArg Prod.snd this
    obtain ⟨doc, hdoc, hexec⟩ := exec_setLaunchAtLogin_ok hok limit token fault
    rw [hexec, replaceConfig_snd]
    refine agrees_replace hdoc ?_
    rcases hcompletes with hsame | ⟨-, hfault⟩
    · have hsame : enabled = d.plist := by
        rw [h] at hsame
        exact hplist.symm.trans hsame
      rw [hsame]
      exact .inr hI.disk
    · exact .inl hfault

theorem settles (limit : Nat) (d : Desktop) (c : Command) : Settles limit d c := by
  cases c with
  | setLaunchAtLogin enabled autostart token fault =>
    unfold Settles
    rintro hresult
    rcases h : setEnabled d.plist enabled autostart with ⟨outcome, plist⟩
    cases outcome with
    | error e =>
      rw [exec_setLaunchAtLogin_error h] at hresult
      cases hresult
    | ok u =>
      have hok : (setEnabled d.plist enabled autostart).1 = .ok () := by rw [h]
      obtain ⟨doc, hdoc, hexec⟩ := exec_setLaunchAtLogin_ok hok limit token fault
      have hfault : fault = none := by
        rw [hexec] at hresult
        cases fault with
        | none => rfl
        | some f =>
          rw [replaceConfig, ConfigStore.replace, ConfigStore.persist_fault] at hresult
          cases hresult
      rw [hexec, replaceConfig_snd]
      exact ⟨rfl, agrees_replace hdoc (.inl hfault)⟩
  | configReplace doc token fault =>
    exact exec_document_plist (c := .configReplace doc token fault) fun _ _ _ _ h => by cases h
  | importConfig raw token fault =>
    exact exec_document_plist (c := .importConfig raw token fault) fun _ _ _ _ h => by cases h

end Step

/-! ## Runs -/

section Runs

variable {limit : Nat} {d t : Desktop} {c : Command}

theorem agrees_step (hI : Agrees d) (hcompletes : Completes d c) (hcarries : Carries limit d c)
    (hs : step limit d c = some t) : Agrees t := by
  cases hs
  by_cases hc : ∀ e a t f, c ≠ .setLaunchAtLogin e a t f
  · rcases exec_document limit d hc with ⟨-, h⟩ | ⟨doc, token, fault, hdoc, h⟩
    · rw [h]
      exact hI
    · rw [h]
      exact agrees_replace (hcarries doc hdoc) (.inr hI.disk)
  · push Not at hc
    obtain ⟨enabled, autostart, token, fault, rfl⟩ := hc
    exact setLaunchAtLogin_spec hI hcompletes

theorem carries_of_agrees (hs : step limit d c = some t) (h : Agrees t) : Carries limit d c := by
  cases hs
  intro doc hdoc
  have hc : ∀ e a t f, c ≠ .setLaunchAtLogin e a t f := by
    rintro e a t f rfl
    cases hdoc
  rcases exec_document limit d hc with ⟨hnone, -⟩ | ⟨doc', _, _, hdoc', heq⟩
  · rw [hnone] at hdoc
    cases hdoc
  · rw [hdoc', Option.some.injEq] at hdoc
    subst hdoc
    have hmemory := h.memory
    rw [heq] at hmemory
    exact replace_settings ▸ hmemory

/-- **Launch at login.**  In every run whose `set_launch_at_login` calls do not stop between the
LaunchAgent and the config, plist and config agree after each command exactly when every document
that `config_replace` or `import_config` takes carries the value that the plist has at that moment.
Neither of these touches the plist, and a `set_launch_at_login` that returns Ok ends in agreement
from wherever it starts. -/
theorem launchAtLogin_agrees (limit : Nat) {d d' : Desktop} {cs : List Command} (h0 : Agrees d)
    (h : Exec (step limit) Completes d cs d') :
    ((∀ pre u, pre <+: cs → run (step limit) d pre = some u → Agrees u) ↔
        Exec (step limit) (Carries limit) d cs d') ∧
      Exec (step limit) (fun u c => Completes u c ∧ Settles limit u c) d cs d' := by
  constructor
  · exact h.throughout_iff (I := Agrees) (fun _ hI => hI)
      (fun _ _ _ hI hH hG hs => agrees_step hI hH hG hs)
      (fun _ _ _ _ _ hs hP => carries_of_agrees hs hP) h0
  · exact h.forall_steps (I := fun _ => True) (fun _ _ _ _ _ _ => trivial)
      (fun u c _ _ _ _ => settles limit u c) trivial

end Runs

/-! ## A document that is replaced -/

/-- The default document with the setting at `launch`. -/
def launchDocument (launch : Bool) : ConfigDocument :=
  let doc := ConfigDocument.withDefault (.new "chrome")
  { doc with settings := { doc.settings with launchAtLogin := launch } }

/-- No plist, and the default document as it was saved. -/
def disabled : Desktop where
  plist := false
  store := ⟨⟨launchDocument false, none⟩, some (launchDocument false).toJson⟩

theorem disabled_agrees : Agrees disabled :=
  ⟨rfl, launchDocument false, (launchDocument false).fromJson_toJson, rfl⟩

/-- Switched on, a document with the value replaced, and a failing attempt to switch it off. -/
def switchedOn : List Command :=
  [.setLaunchAtLogin true none 1#128 none,
    .configReplace (launchDocument true) 2#128 (some .rename),
    .setLaunchAtLogin false (some (.removeFile "permission denied")) 3#128 none]

theorem launchAtLogin_agrees_switchedOn :
    ∃ d, run (step 127) disabled switchedOn = some d ∧ d.plist = true ∧
      ∀ pre u, pre <+: switchedOn → run (step 127) disabled pre = some u → Agrees u := by
  have hset : ∀ u enabled autostart token fault,
      Carries 127 u (.setLaunchAtLogin enabled autostart token fault) := by
    intro u enabled autostart token fault doc hdoc
    cases hdoc
  have hexec : ∃ d, Exec (step 127) (fun u c => Completes u c ∧ Carries 127 u c) disabled
      switchedOn d ∧ d.plist = true := by
    refine ⟨_, .cons ⟨.inr ⟨rfl, rfl⟩, hset _ _ _ _ _⟩ rfl <| .cons ⟨trivial, ?_⟩ rfl <|
      .cons ⟨.inl rfl, hset _ _ _ _ _⟩ rfl <| .nil _, rfl⟩
    intro doc hdoc
    cases hdoc
    rfl
  obtain ⟨d, hexec, hplist⟩ := hexec
  have hcompletes : Exec (step 127) Completes disabled switchedOn d := hexec.mono fun _ _ h => h.1
  have hcarries : Exec (step 127) (Carries 127) disabled switchedOn d :=
    hexec.mono fun _ _ h => h.2
  exact ⟨d, hexec.run_eq, hplist,
    (launchAtLogin_agrees 127 disabled_agrees hcompletes).1.mpr hcarries⟩

/-- A `config_replace` that switches the setting on: it returns Ok, memory and file say that the
app starts at login, and there is no plist. -/
theorem replace_disagrees :
    let (result, d) := (Command.configReplace (launchDocument true) 1#128 none).exec 128 disabled
    Agrees disabled ∧ result = .ok () ∧ d.plist = false ∧
      d.store.document.settings.launchAtLogin = true ∧
      (diskDocument d.store).map (·.settings.launchAtLogin) = some true ∧ ¬ Agrees d := by
  refine ⟨disabled_agrees, rfl, rfl, rfl, ?_, fun h => absurd h.memory nofun⟩
  show ((some (ConfigDocument.toJson _)).bind ConfigDocument.fromJson).map _ = some true
  rw [Option.bind_some, ConfigDocument.fromJson_toJson]
  rfl

end LinkPilot.LaunchAtLogin
