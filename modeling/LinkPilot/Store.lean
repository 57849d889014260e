import LinkPilot.Config

/-!
# The configuration store, one caller at a time

Model of `crates/core/src/config/store.rs`: the in-memory `State`, `persist` and `replace` with
the steps at which they can fail, `load_or_init`, and the file watcher's `handle_disk_change`.

The JSON text of a document and its parser (`serde_json` and `parse_with_priority_migration`)
enter as a `Codec`; `Codec.Decodes` says that a text the store wrote, when it parses at all,
parses to the document it was written from.

Principal results:

* `replace_error_unchanged_iff` — a failed `replace` leaves memory, token and file as they were
  only when it fails before stamping and was given the document already in memory.
* `converges_iff` — after an external edit the watcher's run makes memory agree with the file,
  and reports an echo only for the store's own text, unless the file carries the remembered
  token without being that text.
-/

set_option autoImplicit false

namespace LinkPilot

/-! ## Texts -/

/-- Serializer and parser of the config file.  `parse` also says whether a legacy `priority`
field was migrated. -/
structure Codec (Text : Type) where
  toStringPretty : ConfigDocument → Text
  parse : Text → Option (ConfigDocument × Bool)

/-- What parses of the texts the store writes, parses to the document written. -/
def Codec.Decodes {Text : Type} (codec : Codec Text) : Prop :=
  ∀ d d' migrated, codec.parse (codec.toStringPretty d) = some (d', migrated) →
    d' = d ∧ migrated = false

/-- The document a text parses to. -/
def Codec.docOf {Text : Type} (codec : Codec Text) (raw : Text) : Option ConfigDocument :=
  (codec.parse raw).map Prod.fst

/-- What the store writes of this document, under whatever `meta`, parses back. -/
def Codec.ReadsBack {Text : Type} (codec : Codec Text) (d : ConfigDocument) : Prop :=
  ∀ m, codec.parse (codec.toStringPretty (d.withMeta m)) = some (d.withMeta m, false)

theorem Codec.ReadsBack.docOf {Text : Type} {codec : Codec Text} {d e : ConfigDocument}
    (h : codec.ReadsBack d) (he : e.body = d.body) :
    codec.docOf (codec.toStringPretty e) = some e := by
  rw [ConfigDocument.eq_withMeta_of_body_eq he, Codec.docOf, h]
  rfl

/-- The texts a config file can hold, as far as the parser tells them apart. -/
inductive FileText where
  | saved (doc : ConfigDocument)
  | legacy (doc : ConfigDocument)
  | malformed (text : String)

/-- The parser on these texts. -/
def fileCodec : Codec FileText where
  toStringPretty := .saved
  parse
    | .saved doc => some (doc, false)
    | .legacy doc => some (doc, true)
    | .malformed _ => none

theorem fileCodec_decodes : fileCodec.Decodes := by
  intro d d' migrated h
  simp only [fileCodec, Option.some.injEq, Prod.mk.injEq] at h
  exact ⟨h.1.symm, h.2.symm⟩

theorem fileCodec_readsBack (d : ConfigDocument) : fileCodec.ReadsBack d := fun _ => rfl

/-! ## State -/

inductive ChangeOrigin where
  | echo
  | external
  deriving DecidableEq, Repr

/-- What the store's mutex guards. -/
structure State where
  doc : ConfigDocument
  lastWriterToken : Option Uuid

namespace State

/-- `guard.doc = doc` of `replace`. -/
def install (s : State) (doc : ConfigDocument) : State := { s with doc := doc }

/-- The locked part of `persist`, up to serializing. -/
def stamp (s : State) (writer : WriterId) (token : Uuid) : State where
  doc := s.doc.withMeta ⟨some token, some writer⟩
  lastWriterToken := some token

/-- The comparison of tokens in `handle_disk_change`. -/
def origin (s : State) (parsed : ConfigDocument) : ChangeOrigin :=
  match parsed.metaBlock.lastWriterToken, s.lastWriterToken with
  | some disk, some remembered => if disk = remembered then .echo else .external
  | _, _ => .external

/-- The locked part of `handle_disk_change`. -/
def onDisk (s : State) (parsed : ConfigDocument) : State :=
  match s.origin parsed with
  | .echo => s
  | .external => ⟨parsed, parsed.metaBlock.lastWriterToken⟩

@[simp] theorem stamp_doc_token (s : State) (writer : WriterId) (token : Uuid) :
    (s.stamp writer token).doc.metaBlock.lastWriterToken = some token := rfl

theorem origin_eq_echo_iff {s : State} {parsed : ConfigDocument} :
    s.origin parsed = .echo ↔
      ∃ token, parsed.metaBlock.lastWriterToken = some token ∧ s.lastWriterToken = some token := by
  unfold origin
  split
  · rename_i disk remembered hd hr
    split
    · rename_i h
      exact ⟨fun _ => ⟨disk, hd, by rw [hr, h]⟩, fun _ => rfl⟩
    · rename_i h
      constructor
      · intro h'
        cases h'
      rintro ⟨token, h1, h2⟩
      rw [hd] at h1
      rw [hr] at h2
      cases h1
      cases h2
      exact absurd rfl h
  · rename_i h
    constructor
    · intro h'
      cases h'
    rintro ⟨token, h1, h2⟩
    exact absurd h2 (h token token h1)

theorem origin_eq_external_of_ne {s : State} {parsed : ConfigDocument}
    (h : s.origin parsed ≠ .echo) : s.origin parsed = .external := by
  cases ho : s.origin parsed with
  | echo => exact absurd ho h
  | external => rfl

@[simp] theorem onDisk_echo {s : State} {parsed : ConfigDocument} (h : s.origin parsed = .echo) :
    s.onDisk parsed = s := by
  simp only [onDisk, h]

@[simp] theorem onDisk_external {s : State} {parsed : ConfigDocument}
    (h : s.origin parsed ≠ .echo) :
    s.onDisk parsed = ⟨parsed, parsed.metaBlock.lastWriterToken⟩ := by
  simp only [onDisk, origin_eq_external_of_ne h]

end State

/-! ## The store -/

inductive ConfigError where
  | io
  | serde
  deriving DecidableEq, Repr

/-- The step of `persist` that fails. -/
inductive Fault where
  | createDir
  | serialize
  | writeTmp
  | rename
  deriving DecidableEq, Repr

def Fault.error : Fault → ConfigError
  | .serialize => .serde
  | _ => .io

/-- The store of one process, and the file at its path (`none`: no file). -/
structure ConfigStore (Text : Type) where
  state : State
  file : Option Text

namespace ConfigStore

variable {Text : Type} (codec : Codec Text)

/-- `ConfigStore::document`. -/
def document (store : ConfigStore Text) : ConfigDocument := store.state.doc

/-- `ConfigStore::persist`.  The temp file is written and renamed as one publish; `fault` is the
step that fails, if one does. -/
def persist (store : ConfigStore Text) (writer : WriterId) (token : Uuid)
    (fault : Option Fault) : Except ConfigError Unit × ConfigStore Text :=
  if fault = some .createDir then (.error (Fault.error .createDir), store)
  else
    let stamped : ConfigStore Text := { store with state := store.state.stamp writer token }
    let json := codec.toStringPretty stamped.state.doc
    match fault with
    | some f => (.error f.error, stamped)
    | none => (.ok (), { stamped with file := some json })

/-- `ConfigStore::replace`. -/
def replace (store : ConfigStore Text) (doc : ConfigDocument) (writer : WriterId) (token : Uuid)
    (fault : Option Fault) : Except ConfigError Unit × ConfigStore Text :=
  persist codec { store with state := store.state.install doc } writer token fault

/-- `ConfigStore::load_or_init` on the file at the path; the flag says that the file was just
created.  `ids` are the fresh rule ids of the demo document. -/
def loadOrInit (file : Option Text) (ids : Fin 4 → RuleId) (token : Uuid)
    (fault : Option Fault) : Except ConfigError (ConfigStore Text × Bool) :=
  match file with
  | some raw =>
    match codec.parse raw with
    | none => .error .serde
    | some (doc, migrated) =>
      let store : ConfigStore Text := ⟨⟨doc, doc.metaBlock.lastWriterToken⟩, some raw⟩
      if migrated then
        match persist codec store .cli token fault with
        | (.error e, _) => .error e
        | (.ok (), store) => .ok (store, false)
      else .ok (store, false)
  | none =>
    match persist codec ⟨⟨ConfigDocument.demo ids, none⟩, none⟩ .cli token fault with
    | (.error e, _) => .error e
    | (.ok (), store) => .ok (store, true)

/-- `handle_disk_change`: the origin is reported only when the file was read and parsed. -/
def handleDiskChange (store : ConfigStore Text) : Option ChangeOrigin × ConfigStore Text :=
  match store.file with
  | none => (none, store)
  | some raw =>
    match codec.parse raw with
    | none => (none, store)
    | some (parsed, _) =>
      (some (store.state.origin parsed), { store with state := store.state.onDisk parsed })

variable {codec}

/-! ## What `persist` and `replace` do -/

theorem persist_ok (store : ConfigStore Text) (writer : WriterId) (token : Uuid) :
    persist codec store writer token none =
      (.ok (), ⟨store.state.stamp writer token,
        some (codec.toStringPretty (store.state.stamp writer token).doc)⟩) := rfl

/-- Everything a failing `persist` can do: nothing, or stamp memory. -/
theorem persist_fault (store : ConfigStore Text) (writer : WriterId) (token : Uuid) (f : Fault) :
    persist codec store writer token (some f) =
      (.error f.error,
        if f = .createDir then store
        else { store with state := store.state.stamp writer token }) := by
  cases f <;> rfl

/-- A failing `persist` leaves the file alone. -/
theorem persist_fault_file (store : ConfigStore Text) (writer : WriterId) (token : Uuid)
    (f : Fault) : (persist codec store writer token (some f)).2.file = store.file := by
  rw [persist_fault]
  split <;> rfl

/-- A `persist` that returns Ok wrote the document it left in memory. -/
theorem persist_ok_file {store store' : ConfigStore Text} {writer : WriterId} {token : Uuid}
    {fault : Option Fault} (h : persist codec store writer token fault = (.ok (), store')) :
    store'.file = some (codec.toStringPretty store'.state.doc) := by
  cases fault with
  | none =>
    rw [persist_ok] at h
    cases h
    rfl
  | some f =>
    rw [persist_fault] at h
    cases h

/-! ## Failed writes -/

/-- The store is as it was: document, remembered token and file. -/
structure Unchanged (store store' : ConfigStore Text) : Prop where
  document : store'.document = store.document
  token : store'.state.lastWriterToken = store.state.lastWriterToken
  file : store'.file = store.file

/-- **Failed writes.** A `replace` that fails at step `f` leaves the store as it was exactly when
`f` comes before the stamping and the document is the one already in memory. -/
theorem replace_error_unchanged_iff (store : ConfigStore Text) (doc : ConfigDocument)
    (writer : WriterId) (token : Uuid) (f : Fault)
    (hfresh : store.state.lastWriterToken ≠ some token) :
    ((replace codec store doc writer token (some f)).1 = .error f.error ∧
      Unchanged store (replace codec store doc writer token (some f)).2) ↔
      f = .createDir ∧ doc = store.document := by
  unfold replace
  rw [persist_fault]
  by_cases hf : f = .createDir
  · subst hf
    refine ⟨fun h => ⟨rfl, h.2.document⟩, ?_⟩
    rintro ⟨-, rfl⟩
    exact ⟨rfl, rfl, rfl, rfl⟩
  · rw [if_neg hf]
    constructor
    · intro h
      exact absurd h.2.token.symm hfresh
    · intro h
      exact absurd h.1 hf

/-- A store that holds the document `d`, just saved by the GUI with the given token. -/
def savedStore (d : ConfigDocument) (token : Uuid) : ConfigStore FileText :=
  (replace fileCodec ⟨⟨d, none⟩, none⟩ d .gui token none).2

theorem replace_error_unchanged_iff_rename :
    let store := savedStore (.withDefault (.new "chrome")) 1#128
    store.state.lastWriterToken ≠ some 2#128 ∧
      (((replace fileCodec store (.withDefault (.new "arc")) .gui 2#128 (some .rename)).1 =
          .error Fault.rename.error ∧
        Unchanged store
          (replace fileCodec store (.withDefault (.new "arc")) .gui 2#128 (some .rename)).2) ↔
        Fault.rename = .createDir ∧ ConfigDocument.withDefault (.new "arc") = store.document) :=
  have hfresh : (savedStore (.withDefault (.new "chrome")) 1#128).state.lastWriterToken ≠
      some 2#128 := by decide
  ⟨hfresh, replace_error_unchanged_iff _ _ _ _ _ hfresh⟩

/-- A GUI command whose rename fails: it reports an error, and the router of this process has
already switched to the new default browser while the file keeps the old one. -/
theorem failed_replace_changes_routing :
    let store := savedStore (.withDefault (.new "chrome")) 1#128
    let result := replace fileCodec store (.withDefault (.new "arc")) .gui 2#128 (some .rename)
    result.1 = .error .io ∧ store.document.defaultTarget.browser = "chrome" ∧
      result.2.document.defaultTarget.browser = "arc" ∧
      result.2.state.lastWriterToken ≠ store.state.lastWriterToken ∧
      result.2.file = store.file := by
  refine ⟨rfl, rfl, rfl, ?_, rfl⟩
  decide

/-! ## Convergence of the watcher -/

/-- What the store last wrote, after an operation with the given result. -/
def wrote (lastWritten : Option Text) :
    Except ConfigError Unit × ConfigStore Text → Option Text
  | (.ok (), store) => store.file
  | (.error _, _) => lastWritten

variable (codec)

/-- The states of a store, each with the text this store last wrote, if it wrote one: it is loaded,
replaces and persists with or without a failure, and runs the watcher; anyone may write the
file. -/
inductive Reached : ConfigStore Text → Option Text → Prop
  | loaded {raw : Text} {doc : ConfigDocument} {store : ConfigStore Text} {created : Bool}
      (ids : Fin 4 → RuleId) (token : Uuid) (fault : Option Fault)
      (hp : codec.parse raw = some (doc, false))
      (h : loadOrInit codec (some raw) ids token fault = .ok (store, created)) :
      Reached store none
  | migrated {raw : Text} {doc : ConfigDocument} {store : ConfigStore Text} {created : Bool}
      (ids : Fin 4 → RuleId) (token : Uuid) (fault : Option Fault)
      (hp : codec.parse raw = some (doc, true))
      (h : loadOrInit codec (some raw) ids token fault = .ok (store, created)) :
      Reached store store.file
  | created {store : ConfigStore Text} {created : Bool}
      (ids : Fin 4 → RuleId) (token : Uuid) (fault : Option Fault)
      (h : loadOrInit codec none ids token fault = .ok (store, created)) :
      Reached store store.file
  | replace {store : ConfigStore Text} {lastWritten : Option Text} (doc : ConfigDocument)
      (writer : WriterId) (token : Uuid) (fault : Option Fault) (h : Reached store lastWritten) :
      Reached (replace codec store doc writer token fault).2
        (wrote lastWritten (ConfigStore.replace codec store doc writer token fault))
  | persist {store : ConfigStore Text} {lastWritten : Option Text}
      (writer : WriterId) (token : Uuid) (fault : Option Fault) (h : Reached store lastWritten) :
      Reached (persist codec store writer token fault).2
        (wrote lastWritten (ConfigStore.persist codec store writer token fault))
  | handleDiskChange {store : ConfigStore Text} {lastWritten : Option Text}
      (h : Reached store lastWritten) :
      Reached (handleDiskChange codec store).2 lastWritten
  | external {store : ConfigStore Text} {lastWritten : Option Text} (file : Option Text)
      (h : Reached store lastWritten) : Reached { store with file := file } lastWritten

variable {codec}

/-- A text is the serialization of some document. -/
def Encoded (codec : Codec Text) (raw : Text) : Prop := ∃ d, raw = codec.toStringPretty d

theorem wrote_encoded {store : ConfigStore Text} {lastWritten : Option Text} {writer : WriterId}
    {token : Uuid} {fault : Option Fault}
    (hw : ∀ raw, lastWritten = some raw → Encoded codec raw) :
    ∀ raw, wrote lastWritten (persist codec store writer token fault) = some raw →
      Encoded codec raw := by
  intro raw h
  cases hp : persist codec store writer token fault with
  | mk result store' =>
    rw [hp] at h
    cases result with
    | error e => exact hw raw h
    | ok u =>
      have hfile : store'.file = some raw := h
      rw [persist_ok_file hp, Option.some.injEq] at hfile
      exact ⟨_, hfile.symm⟩

/-- A `load_or_init` that persists leaves a file it wrote. -/
theorem loadOrInit_persisted {file : Option Text} {ids : Fin 4 → RuleId} {token : Uuid}
    {fault : Option Fault} {store : ConfigStore Text} {created : Bool}
    (hp : ∀ raw doc, file = some raw → codec.parse raw ≠ some (doc, false))
    (h : loadOrInit codec file ids token fault = .ok (store, created)) :
    store.file = some (codec.toStringPretty store.state.doc) := by
  unfold loadOrInit at h
  split at h
  · rename_i raw
    split at h
    · cases h
    · rename_i doc migrated hparse
      cases migrated
      · exact absurd hparse (hp raw doc rfl)
      · simp only [if_true] at h
        split at h
        · cases h
        · rename_i hpersist
          cases h
          exact persist_ok_file hpersist
  · split at h
    · cases h
    · rename_i hpersist
      cases h
      exact persist_ok_file hpersist

/-- Over any run, what the store last wrote is the text of a document. -/
theorem Reached.lastWritten_encoded {store : ConfigStore Text} {lastWritten : Option Text}
    (h : Reached codec store lastWritten) :
    ∀ raw, lastWritten = some raw → Encoded codec raw := by
  induction h with
  | loaded ids token fault hp h =>
    intro raw hraw
    cases hraw
  | migrated ids token fault hp h =>
    intro raw hraw
    rw [loadOrInit_persisted (by rintro _ doc ⟨⟩; rw [hp]; simp) h, Option.some.injEq] at hraw
    exact ⟨_, hraw.symm⟩
  | created ids token fault h =>
    intro raw hraw
    rw [loadOrInit_persisted (by rintro _ _ ⟨⟩) h, Option.some.injEq] at hraw
    exact ⟨_, hraw.symm⟩
  | replace doc writer token fault h ih => exact wrote_encoded ih
  | persist writer token fault h ih => exact wrote_encoded ih
  | handleDiskChange h ih => exact ih
  | external file h ih => exact ih

/-- What the watcher's run on the text `raw`, which parses to `parsed`, is meant to do: memory
agrees with the file, and the origin is an echo only for the text the store last wrote. -/
structure Converges (codec : Codec Text) (store : ConfigStore Text) (lastWritten : Option Text)
    (raw : Text) (parsed : ConfigDocument) : Prop where
  agrees : (handleDiskChange codec { store with file := some raw }).2.document = parsed
  echo : (handleDiskChange codec { store with file := some raw }).1 = some .echo →
    lastWritten = some raw

/-- **Watcher convergence.** In every reached state, after anyone writes a parseable text the
watcher converges exactly when the text does not carry the remembered token, or is the text the
store last wrote and also what memory would be saved as now. -/
theorem converges_iff (hc : codec.Decodes) {store : ConfigStore Text} {lastWritten : Option Text}
    (hr : Reached codec store lastWritten) {raw : Text} {parsed : ConfigDocument} {migrated : Bool}
    (hp : codec.parse raw = some (parsed, migrated)) :
    Converges codec store lastWritten raw parsed ↔
      (∀ token, parsed.metaBlock.lastWriterToken = some token →
        store.state.lastWriterToken ≠ some token) ∨
      (lastWritten = some raw ∧ raw = codec.toStringPretty store.document) := by
  have hrun : handleDiskChange codec { store with file := some raw } =
      (some (store.state.origin parsed),
        ⟨store.state.onDisk parsed, some raw⟩) := by
    simp only [handleDiskChange, hp]
  by_cases ho : store.state.origin parsed = .echo
  · have hdoc : (handleDiskChange codec { store with file := some raw }).2.document =
        store.document := by
      rw [hrun]
      simp [document, ho]
    obtain ⟨token, h1, h2⟩ := State.origin_eq_echo_iff.mp ho
    constructor
    · intro h
      right
      have hw : lastWritten = some raw := h.echo (by rw [hrun, ho])
      obtain ⟨w, hraw⟩ := hr.lastWritten_encoded raw hw
      have hparsed : parsed = w := (hc w parsed migrated (hraw ▸ hp)).1
      have hmem : store.document = parsed := hdoc ▸ h.agrees
      exact ⟨hw, by rw [hmem, hparsed]; exact hraw⟩
    · rintro (h | ⟨hw, hraw⟩)
      · exact absurd h2 (h token h1)
      · exact ⟨hdoc.trans (hc _ parsed migrated (hraw ▸ hp)).1.symm, fun _ => hw⟩
  · have hdoc : (handleDiskChange codec { store with file := some raw }).2.document = parsed := by
      rw [hrun]
      simp [document, ho]
    constructor
    · intro _
      left
      intro token h1 h2
      exact ho (State.origin_eq_echo_iff.mpr ⟨token, h1, h2⟩)
    · intro _
      refine ⟨hdoc, fun h => ?_⟩
      rw [hrun, Option.some.injEq] at h
      exact absurd h ho

/-- The store of a first launch: the demo document, created and saved. -/
def firstLaunch (ids : Fin 4 → RuleId) (token : Uuid) : ConfigStore FileText :=
  (persist fileCodec ⟨⟨.demo ids, none⟩, none⟩ .cli token none).2

theorem firstLaunch_reached (ids : Fin 4 → RuleId) (token : Uuid) :
    Reached fileCodec (firstLaunch ids token) (firstLaunch ids token).file := by
  have hload : ConfigStore.loadOrInit fileCodec none ids token none =
      .ok (firstLaunch ids token, true) := rfl
  exact .created ids token none hload

/-- The text an editor leaves that empties the rule list and keeps the `meta` block. -/
def rulesRemoved (store : ConfigStore FileText) : ConfigDocument :=
  { store.document with rules := [] }

theorem converges_iff_firstLaunch :
    let store := firstLaunch (fun _ => 0#128) 7#128
    Converges fileCodec store store.file (.saved (rulesRemoved store)) (rulesRemoved store) ↔
      (∀ token, (rulesRemoved store).metaBlock.lastWriterToken = some token →
        store.state.lastWriterToken ≠ some token) ∨
      (store.file = some (.saved (rulesRemoved store)) ∧
        FileText.saved (rulesRemoved store) = fileCodec.toStringPretty store.document) := by
  intro store
  have hparse : fileCodec.parse (.saved (rulesRemoved store)) = some (rulesRemoved store, false) :=
    rfl
  exact converges_iff fileCodec_decodes (firstLaunch_reached _ _) hparse

/-- An editor empties the rule list and keeps the `meta` block: the watcher takes the edit for an
echo, and memory keeps the four demo rules that are no longer on disk. -/
theorem edit_keeping_meta_is_echo :
    let store := firstLaunch (fun _ => 0#128) 7#128
    let raw := FileText.saved (rulesRemoved store)
    let run := handleDiskChange fileCodec { store with file := some raw }
    Reached fileCodec store store.file ∧
      fileCodec.parse raw = some (rulesRemoved store, false) ∧
      run.1 = some .echo ∧ run.2.document.rules.length = 4 ∧
      (rulesRemoved store).rules.length = 0 ∧
      ¬ Converges fileCodec store store.file raw (rulesRemoved store) := by
  refine ⟨firstLaunch_reached _ _, rfl, by decide, rfl, rfl, fun h => ?_⟩
  have hlen : (rulesRemoved (firstLaunch (fun _ => 0#128) 7#128)).rules.length = 4 := by
    rw [← h.agrees]
    rfl
  cases hlen

end ConfigStore

end LinkPilot
