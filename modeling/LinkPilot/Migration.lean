import LinkPilot.ConfigJson
import LinkPilot.Daemon
import Mathlib.Data.List.Zip

/-!
# Legacy priorities

Model of `parse_with_priority_migration` (`crates/core/src/config/store.rs`) and of the five places
that read a config JSON: `load_or_init` and the watcher, which go through it, and
`lpt config import` (`crates/cli/src/main.rs`), the GUI's `import_config`
(`apps/desktop/src-tauri/src/commands/mod.rs`) and `ConfigReplace`, which do not.

`limit` is how deep `serde_json` reads, 127 by default; a text is given by its tokens.

Principal results:

* `jsonCodec_decodes` — what the store writes, when it parses at all, parses to what was written.
* `jsonCodec_readsBack_iff` — it parses unless a matcher is nested too deep.
* `parse_obj` — a legacy config is read with its rules in descending order of priority.
* `priority_agrees_iff` — the five places agree exactly when the rules already stand in that order.
-/

set_option autoImplicit false

namespace LinkPilot

open Serde

/-! ## The migration -/

/-- A missing priority counts as 0. -/
def priorityOf (rule : Json) : Int := ((rule.entry "priority").bind Json.asI64).getD 0

def hasPriority (rule : Json) : Bool := (rule.entry "priority").isSome

/-- Stable sort by `priority` descending; then the field is removed. -/
def migrateRules (rules : List Json) : List Json :=
  (rules.mergeSort fun a b => decide (priorityOf b ≤ priorityOf a)).map
    fun r => r.removeEntry "priority"

/-- The migration of a value tree, and whether it did anything. -/
def migrate (value : Json) : Json × Bool :=
  match value.entry "rules" with
  | some (.arr rules) =>
    if rules.any hasPriority then (value.setEntry "rules" (.arr (migrateRules rules)), true)
    else (value, false)
  | _ => (value, false)

/-- `parse_with_priority_migration`. -/
def parseWithPriorityMigration (limit : Nat) (raw : Json) : Option (ConfigDocument × Bool) :=
  (Json.fromStr limit (fun j => some j.toValue) raw).bind fun value =>
    let (value, migrated) := migrate value
    (ConfigDocument.fromJson value).map fun doc => (doc, migrated)

/-- Serializer and parser of the config file. -/
def jsonCodec (limit : Nat) : Codec Json := ⟨ConfigDocument.toJson, parseWithPriorityMigration limit⟩

/-! ## What the migration does -/

/-- The elements that the rules of a document are read from. -/
def ruleElems (raw : Json) : List Json :=
  match raw.fields.bind fun f => f.get 2 "rules" with
  | some (some (.arr elems)) => elems
  | _ => []

def legacyPriorities (raw : Json) : List Int := (ruleElems raw).map fun r => priorityOf r.toValue

def higherFirst {α : Type} (a b : Int × α) : Bool := decide (b.1 ≤ a.1)

/-- The stable sort of the rules by the given priorities, descending. -/
def byPriority (priorities : List Int) (rules : List Rule) : List Rule :=
  ((priorities.zip rules).mergeSort higherFirst).map Prod.snd

theorem Rule.fromJson_removeEntry (j : Json) :
    Rule.fromJson (j.removeEntry "priority") = Rule.fromJson j := by
  cases j with
  | obj entries =>
    simp [Rule.fromJson, Json.removeEntry, Json.record, Json.fields, Fields.read, Fields.required,
      Fields.defaulted, Fields.get_removeEntry_of_ne]
  | _ => rfl

theorem mapM_eq_some_iff {α β : Type} {f : α → Option β} {as : List α} {bs : List β} :
    as.mapM f = some bs ↔ as.map f = bs.map some := by
  induction as generalizing bs with
  | nil =>
    cases bs <;> simp
  | cons a as ih =>
    simp only [List.mapM_cons, Option.bind_eq_bind, Option.bind_eq_some_iff, List.map_cons]
    constructor
    · rintro ⟨b, hb, bs', hbs', hcons⟩
      cases hcons
      rw [hb, List.map_cons, ih.mp hbs']
    · intro h
      cases bs with
      | nil => cases h
      | cons b bs =>
        obtain ⟨hb, hbs⟩ := List.cons.inj h
        exact ⟨b, hb, bs, ih.mpr hbs, rfl⟩

/-- A rule's priority, and what is read of the rule. -/
def readRule (value : Json) : Int × Option Rule := (priorityOf value, Rule.fromJson value)

/-- The sorted rules are read as the rules that were read, sorted. -/
theorem mapM_migrateRules {values : List Json} {rules : List Rule}
    (h : values.mapM Rule.fromJson = some rules) :
    (migrateRules values).mapM Rule.fromJson =
      some (byPriority (values.map priorityOf) rules) := by
  have hread : values.map Rule.fromJson = rules.map some := mapM_eq_some_iff.mp h
  have hpairs : values.map readRule =
      ((values.map priorityOf).zip rules).map (Prod.map id some) := by
    rw [← List.zip_map_right, ← hread]
    exact List.zip_map'.symm
  have hvalues : (values.mergeSort fun a b => decide (priorityOf b ≤ priorityOf a)).map readRule =
      (values.map readRule).mergeSort higherFirst := List.map_mergeSort fun _ _ _ _ => rfl
  have hrules : (((values.map priorityOf).zip rules).mergeSort higherFirst).map
        (Prod.map id some) =
      (((values.map priorityOf).zip rules).map (Prod.map id some)).mergeSort higherFirst :=
    List.map_mergeSort fun _ _ _ _ => rfl
  refine mapM_eq_some_iff.mpr ?_
  calc (migrateRules values).map Rule.fromJson
      = (values.mergeSort fun a b => decide (priorityOf b ≤ priorityOf a)).map Rule.fromJson := by
        rw [migrateRules, List.map_map]
        exact List.map_congr_left fun v _ => Rule.fromJson_removeEntry v
    _ = ((values.mergeSort fun a b => decide (priorityOf b ≤ priorityOf a)).map readRule).map
          Prod.snd := by
        rw [List.map_map]
        rfl
    _ = (byPriority (values.map priorityOf) rules).map some := by
        rw [hvalues, hpairs, ← hrules, byPriority, List.map_map, List.map_map]
        rfl

/-- Where the rules of a document are read from. -/
theorem ConfigDocument.get_rules {raw : Json} {f : Fields} {doc : ConfigDocument}
    (hf : raw.fields = some f) (h : fromJson raw = some doc) :
    f.get 2 "rules" = some none ∧ doc.rules = [] ∨
      ∃ elems, f.get 2 "rules" = some (some (.arr elems)) ∧
        elems.mapM Rule.fromJson = some doc.rules := by
  obtain ⟨f', hf', h⟩ := Option.bind_eq_some_iff.mp h
  obtain ⟨version, -, h⟩ := Option.bind_eq_some_iff.mp (Fields.read_eq_some h)
  obtain ⟨defaultTarget, -, h⟩ := Option.bind_eq_some_iff.mp h
  obtain ⟨rules, hrules, h⟩ := Option.bind_eq_some_iff.mp h
  obtain ⟨workspaces, -, h⟩ := Option.bind_eq_some_iff.mp h
  obtain ⟨customBrowsers, -, h⟩ := Option.bind_eq_some_iff.mp h
  obtain ⟨settings, -, h⟩ := Option.bind_eq_some_iff.mp h
  obtain ⟨metaBlock, -, h⟩ := Option.bind_eq_some_iff.mp h
  cases h
  cases hf.symm.trans hf'
  obtain ⟨o, ho, hrules⟩ := Option.bind_eq_some_iff.mp hrules
  cases o with
  | none =>
    cases hrules
    exact .inl ⟨ho, rfl⟩
  | some j =>
    cases j with
    | arr elems => exact .inr ⟨elems, ho, hrules⟩
    | _ => cases hrules

theorem ConfigDocument.mapM_ruleElems {raw : Json} {doc : ConfigDocument}
    (h : fromJson raw = some doc) : (ruleElems raw).mapM Rule.fromJson = some doc.rules := by
  obtain ⟨f, hf, -⟩ := Option.bind_eq_some_iff.mp h
  unfold ruleElems
  rw [hf, Option.bind_some]
  rcases get_rules hf h with ⟨hget, hrules⟩ | ⟨elems, hget, hrules⟩
  · rw [hget, hrules]
    rfl
  · rw [hget]
    exact hrules

/-- Other rules in the place of those that were read. -/
theorem ConfigDocument.fromJson_setEntry {entries : List (String × Json)} {j : Json}
    {values : List Json} {rules : List Rule} {doc : ConfigDocument}
    (h : fromJson (.obj entries) = some doc)
    (hj : (Fields.named entries).get 2 "rules" = some (some j))
    (hrules : values.mapM Rule.fromJson = some rules) :
    fromJson ((Json.obj entries).setEntry "rules" (.arr values)) =
      some { doc with rules := rules } := by
  have hother : ∀ {i : Nat} {key : String}, key ≠ "rules" →
      (Fields.named (entries.map fun e => if e.1 == "rules" then (e.1, .arr values) else e)).get
          i key =
        (Fields.named entries).get i key := Fields.get_setEntry_of_ne
  obtain ⟨version, hversion, h⟩ := Option.bind_eq_some_iff.mp h
  obtain ⟨defaultTarget, htarget, h⟩ := Option.bind_eq_some_iff.mp h
  obtain ⟨_, -, h⟩ := Option.bind_eq_some_iff.mp h
  obtain ⟨workspaces, hworkspaces, h⟩ := Option.bind_eq_some_iff.mp h
  obtain ⟨customBrowsers, hbrowsers, h⟩ := Option.bind_eq_some_iff.mp h
  obtain ⟨settings, hsettings, h⟩ := Option.bind_eq_some_iff.mp h
  obtain ⟨metaBlock, hmeta, h⟩ := Option.bind_eq_some_iff.mp h
  cases h
  refine Option.bind_eq_some_iff.mpr
    ⟨version, (Fields.defaulted_congr (hother (by decide))).trans hversion, ?_⟩
  refine Option.bind_eq_some_iff.mpr
    ⟨defaultTarget, (Fields.required_congr (hother (by decide))).trans htarget, ?_⟩
  refine Option.bind_eq_some_iff.mpr ⟨rules, ?_, ?_⟩
  · unfold Fields.defaulted
    rw [Fields.get_setEntry_self hj]
    exact hrules
  refine Option.bind_eq_some_iff.mpr
    ⟨workspaces, (Fields.defaulted_congr (hother (by decide))).trans hworkspaces, ?_⟩
  refine Option.bind_eq_some_iff.mpr
    ⟨customBrowsers, (Fields.defaulted_congr (hother (by decide))).trans hbrowsers, ?_⟩
  refine Option.bind_eq_some_iff.mpr
    ⟨settings, (Fields.defaulted_congr (hother (by decide))).trans hsettings, ?_⟩
  exact Option.bind_eq_some_iff.mpr
    ⟨metaBlock, (Fields.defaulted_congr (hother (by decide))).trans hmeta, rfl⟩

theorem length_of_mapM {α β : Type} {f : α → Option β} {as : List α} {bs : List β}
    (h : as.mapM f = some bs) : as.length = bs.length := by
  have := congrArg List.length (mapM_eq_some_iff.mp h)
  simpa using this

theorem length_legacyPriorities {raw : Json} {doc : ConfigDocument}
    (h : ConfigDocument.fromJson raw = some doc) :
    (legacyPriorities raw).length = doc.rules.length := by
  rw [legacyPriorities, List.length_map]
  exact length_of_mapM (ConfigDocument.mapM_ruleElems h)

def Descending (priorities : List Int) : Prop := priorities.Pairwise fun a b => b ≤ a

theorem descending_of_zero {priorities : List Int} (h : ∀ p ∈ priorities, p = 0) :
    Descending priorities := by
  refine List.Pairwise.imp_of_mem ?_ (List.pairwise_of_forall fun _ _ => trivial)
  intro a b ha hb _
  rw [h a ha, h b hb]

/-- Rules that stand in descending order of priority stay where they are. -/
theorem byPriority_of_descending {priorities : List Int} {rules : List Rule}
    (hlen : priorities.length = rules.length) (h : Descending priorities) :
    byPriority priorities rules = rules := by
  have hpairs : (priorities.zip rules).Pairwise fun a b => higherFirst a b := by
    have hfst : ((priorities.zip rules).map Prod.fst).Pairwise fun a b => b ≤ a := by
      rw [List.map_fst_zip (by omega)]
      exact h
    exact (List.pairwise_map.mp hfst).imp fun hle => decide_eq_true hle
  rw [byPriority, List.mergeSort_of_pairwise hpairs, List.map_snd_zip (by omega)]

theorem eq_of_map_eq {α β : Type} {f : α → β} {l l' : List α} (hperm : l'.Perm l)
    (hnodup : (l.map f).Nodup) (h : l'.map f = l.map f) : l' = l := by
  refine List.ext_getElem hperm.length_eq fun i hi hi' => ?_
  have hf : f l'[i] = f l[i] := by
    have := congrArg (fun l => l[i]?) h
    simpa [hi, hi'] using this
  exact List.inj_on_of_nodup_map hnodup (hperm.mem_iff.mp (List.getElem_mem hi))
    (List.getElem_mem hi') hf

/-- Rules that are all different stay where they are only in descending order of priority. -/
theorem descending_of_byPriority {priorities : List Int} {rules : List Rule}
    (hlen : priorities.length = rules.length) (hnodup : rules.Nodup)
    (h : byPriority priorities rules = rules) : Descending priorities := by
  have hsnd : (priorities.zip rules).map Prod.snd = rules := List.map_snd_zip (by omega)
  have hsame : (priorities.zip rules).mergeSort higherFirst = priorities.zip rules :=
    eq_of_map_eq (List.mergeSort_perm _ _) (by rwa [hsnd]) (h.trans hsnd.symm)
  have hsorted : ((priorities.zip rules).mergeSort higherFirst).Pairwise
      fun a b => higherFirst a b := by
    refine List.pairwise_mergeSort ?_ ?_ _
    · intro a b c hab hbc
      simp only [higherFirst, decide_eq_true_eq] at hab hbc ⊢
      omega
    · intro a b
      simp only [higherFirst, Bool.or_eq_true, decide_eq_true_eq]
      omega
  rw [hsame] at hsorted
  have hfst : ((priorities.zip rules).map Prod.fst).Pairwise fun a b => b ≤ a :=
    List.pairwise_map.mpr (hsorted.imp fun hle => of_decide_eq_true hle)
  rwa [List.map_fst_zip (by omega)] at hfst

theorem priorityOf_of_not_hasPriority {value : Json} (h : hasPriority value = false) :
    priorityOf value = 0 := by
  unfold hasPriority at h
  unfold priorityOf
  rw [Option.isSome_eq_false_iff, Option.isNone_iff_eq_none] at h
  rw [h]
  rfl

/-- **The migration.** A config object is read with its rules in descending order of priority,
and all else as it is. -/
theorem parse_obj {limit : Nat} {entries : List (String × Json)} {doc : ConfigDocument}
    (hdepth : (Json.obj entries).depth ≤ limit)
    (h : ConfigDocument.fromJson (.obj entries) = some doc) :
    parseWithPriorityMigration limit (.obj entries) =
      some ({ doc with rules := byPriority (legacyPriorities (.obj entries)) doc.rules },
        (ruleElems (.obj entries)).any fun r => hasPriority r.toValue) := by
  have hvalue : ConfigDocument.fromJson (Json.obj entries).toValue = some doc :=
    ConfigDocument.stable _ _ h
  have hlen := length_legacyPriorities h
  unfold parseWithPriorityMigration Json.fromStr
  rw [if_pos hdepth, Option.bind_some]
  rcases @ConfigDocument.get_rules _ (.named entries) _ rfl h with
    ⟨hget, hnil⟩ | ⟨elems, hget, hrules⟩
  · have hentry : (Json.obj entries).toValue.entry "rules" = none :=
      Json.entry_of_get (Fields.get_toValue hget)
    have helems : ruleElems (.obj entries) = [] := by
      simp only [ruleElems, Json.fields, Option.bind_some, hget]
    have hsame : byPriority (legacyPriorities (.obj entries)) doc.rules = doc.rules := by
      rw [hnil]
      simp [byPriority]
    simp only [migrate, hentry, hvalue, Option.map_some, helems, hsame, List.any_nil]
  · have hentry : (Json.obj entries).toValue.entry "rules" =
        some (.arr (Json.valueElems elems)) := Json.entry_of_get (Fields.get_toValue hget)
    have helems : ruleElems (.obj entries) = elems := by
      simp only [ruleElems, Json.fields, Option.bind_some, hget]
    have hany : (Json.valueElems elems).any hasPriority =
        elems.any fun r => hasPriority r.toValue := by
      rw [Json.valueElems_eq_map, List.any_map]
      rfl
    simp only [migrate, hentry, helems, hany]
    split
    · rename_i hsome
      have hmigrated := mapM_migrateRules (Json.mapM_toValue Rule.stable hrules)
      have hset := ConfigDocument.fromJson_setEntry hvalue (Fields.get_toValue hget) hmigrated
      have hpriorities : (Json.valueElems elems).map priorityOf = legacyPriorities (.obj entries) := by
        rw [legacyPriorities, helems, Json.valueElems_eq_map, List.map_map]
        rfl
      show (ConfigDocument.fromJson ((Json.obj _).setEntry "rules" _)).map _ = _
      rw [hset, hpriorities, hsome]
      rfl
    · rename_i hnone
      have hzero : ∀ p ∈ legacyPriorities (.obj entries), p = 0 := by
        intro p hp
        rw [legacyPriorities, helems] at hp
        obtain ⟨r, hr, rfl⟩ := List.mem_map.mp hp
        refine priorityOf_of_not_hasPriority ?_
        simpa using fun hpriority => hnone (List.any_eq_true.mpr ⟨r, hr, hpriority⟩)
      rw [byPriority_of_descending hlen (descending_of_zero hzero)]
      simp [hvalue, hnone]

/-- A config given as an array has no `rules` entry to migrate. -/
theorem parse_arr {limit : Nat} {elems : List Json} {doc : ConfigDocument}
    (hdepth : (Json.arr elems).depth ≤ limit)
    (h : ConfigDocument.fromJson (.arr elems) = some doc) :
    parseWithPriorityMigration limit (.arr elems) = some (doc, false) := by
  have hvalue : ConfigDocument.fromJson (Json.arr elems).toValue = some doc :=
    ConfigDocument.stable _ _ h
  unfold parseWithPriorityMigration Json.fromStr
  rw [if_pos hdepth, Option.bind_some]
  show (ConfigDocument.fromJson (Json.arr elems).toValue).map _ = _
  rw [hvalue]
  rfl

/-- The migration nests nothing deeper. -/
theorem depth_migrate_le (value : Json) : (migrate value).1.depth ≤ value.depth := by
  unfold migrate
  split
  · rename_i rules hentry
    split
    · have hdepth := Json.depth_of_entry hentry
      have hrules : (Json.arr (migrateRules rules)).depth ≤ (Json.arr rules).depth := by
        refine Json.depth_arr_le_iff.mpr fun j hj => ?_
        obtain ⟨r, hr, rfl⟩ := List.mem_map.mp hj
        have hmem : r ∈ rules := List.mem_mergeSort.mp hr
        exact Nat.le_trans (r.depth_removeEntry_le "priority")
          (Json.depthElems_le_iff.mp (Nat.le_refl _) r hmem)
      obtain ⟨n, hn⟩ : ∃ n, value.depth = n + 1 := ⟨value.depth - 1, by omega⟩
      rw [hn]
      exact Json.depth_setEntry_le (by omega) (by omega)
    · exact Nat.le_refl _
  · exact Nat.le_refl _

/-- A loaded file leaves room for the matchers that are in it. -/
theorem nesting_of_parse {limit : Nat} {raw : Json} {d : ConfigDocument} {migrated : Bool}
    (h : parseWithPriorityMigration limit raw = some (d, migrated)) :
    ∀ r ∈ d.rules, r.when.nesting + 3 ≤ limit := by
  obtain ⟨value, hvalue, h⟩ := Option.bind_eq_some_iff.mp h
  obtain ⟨hdepth, hvalue⟩ := Json.fromStr_eq_some_iff.mp hvalue
  cases hvalue
  obtain ⟨d', hd', hpair⟩ := Option.map_eq_some_iff.mp h
  cases hpair
  intro r hr
  have hle := Nat.le_trans (ConfigDocument.nesting_le hd' r hr) (depth_migrate_le raw.toValue)
  have := raw.depth_toValue_le
  omega

/-! ## Reading back what was written -/

theorem Rule.hasPriority_toJson (r : Rule) : hasPriority r.toJson.toValue = false := by
  obtain ⟨entries, hentries⟩ : ∃ entries, r.toJson = .obj entries := ⟨_, rfl⟩
  have hget : (Fields.named entries).get 0 "priority" = some none := by
    cases hentries
    simp [Fields.get]
  have hentry : r.toJson.toValue.entry "priority" = none := by
    rw [hentries]
    exact Json.entry_of_get (Fields.get_toValue hget)
  rw [hasPriority, hentry]
  rfl

/-- **What is written is read back** without a migration, unless it is nested too deep. -/
theorem parse_toJson (limit : Nat) (d : ConfigDocument) :
    parseWithPriorityMigration limit d.toJson =
      if d.toJson.depth ≤ limit then some (d, false) else none := by
  split
  · rename_i hdepth
    have helems : ruleElems d.toJson = d.rules.map Rule.toJson := by
      simp [ruleElems, ConfigDocument.toJson, Json.fields, Fields.get]
    have hlen := length_legacyPriorities d.fromJson_toJson
    have hdescending : Descending (legacyPriorities d.toJson) := by
      refine descending_of_zero fun p hp => ?_
      rw [legacyPriorities, helems] at hp
      obtain ⟨j, hj, rfl⟩ := List.mem_map.mp hp
      obtain ⟨r, -, rfl⟩ := List.mem_map.mp hj
      exact priorityOf_of_not_hasPriority r.hasPriority_toJson
    have hparse := parse_obj hdepth d.fromJson_toJson
    have hany : ((ruleElems d.toJson).any fun r => hasPriority r.toValue) = false := by
      rw [helems, List.any_map]
      exact List.any_eq_false.mpr fun r _ => by simp [r.hasPriority_toJson]
    refine hparse.trans ?_
    show some ({ d with rules := byPriority (legacyPriorities d.toJson) d.rules },
      (ruleElems d.toJson).any fun r => hasPriority r.toValue) = _
    rw [byPriority_of_descending hlen hdescending, hany]
  · rename_i hdepth
    unfold parseWithPriorityMigration Json.fromStr
    rw [if_neg hdepth]
    rfl

theorem jsonCodec_decodes (limit : Nat) : (jsonCodec limit).Decodes := by
  intro d d' migrated h
  have h : parseWithPriorityMigration limit d.toJson = some (d', migrated) := h
  rw [parse_toJson] at h
  split at h
  · cases h
    exact ⟨rfl, rfl⟩
  · cases h

theorem jsonCodec_readsBack_iff {limit : Nat} (hlimit : 5 ≤ limit) {d : ConfigDocument} :
    (jsonCodec limit).ReadsBack d ↔ ∀ r ∈ d.rules, r.when.nesting + 3 ≤ limit := by
  have hdepth : ∀ m, (d.withMeta m).toJson.depth ≤ limit ↔
      ∀ r ∈ d.rules, r.when.nesting + 3 ≤ limit := by
    intro m
    have := @ConfigDocument.depth_toJson_le_iff (d.withMeta m) (limit - 5)
    rwa [show limit - 5 + 5 = limit by omega] at this
  constructor
  · intro h
    have hmeta := h d.metaBlock
    refine (hdepth d.metaBlock).mp ?_
    by_contra hdeep
    have hparse := parse_toJson limit (d.withMeta d.metaBlock)
    rw [if_neg hdeep] at hparse
    exact absurd (hmeta.symm.trans hparse) nofun
  · intro h m
    exact (parse_toJson limit _).trans (if_pos ((hdepth m).mpr h))

/-! ## The five places -/

/-- Why an import reports an error: its source does not parse, or it fails later on. -/
inductive ImportError (ε : Type) where
  | parsing
  | later (e : ε)

/-- `run_config_import`, on the text of the file to import: the result, and the config file it
leaves. -/
def runConfigImport (limit : Nat) (file : Option Json) (env : LptEnv) (src : Json) :
    Except (ImportError LptError) Unit × Option Json :=
  match Json.fromStr limit ConfigDocument.fromJson src with
  | none => (.error .parsing, file)
  | some doc =>
    match configImport (jsonCodec limit) file env doc with
    | (.error e, file) => (.error (.later e), file)
    | (.ok (), file) => (.ok (), file)

/-- The GUI's `import_config`, on the text of the file to import (direct edition). -/
def importConfig (limit : Nat) (store : ConfigStore Json) (raw : Json) (token : Uuid)
    (fault : Option Fault) : Except (ImportError ConfigError) Unit × ConfigStore Json :=
  match Json.fromStr limit ConfigDocument.fromJson raw with
  | none => (.error .parsing, store)
  | some doc =>
    match ConfigStore.replace (jsonCodec limit) store doc .gui token fault with
    | (.error e, store) => (.error (.later e), store)
    | (.ok (), store) => (.ok (), store)

/-- `Request` as JSON, the variant `ConfigReplace`. -/
def Request.configReplaceFromJson (j : Json) : Option Request :=
  (j.tagged "type").bind fun (type, f) =>
    if type = "config-replace" then
      f.read 3 fun f => do
        let requestId ← f.required 0 "request_id" Json.string
        let doc ← f.required 1 "doc" ConfigDocument.fromJson
        let writer ← f.required 2 "writer" (Json.unitVariant WriterId.names)
        some (.configReplace requestId doc writer)
    else none

/-- The frame of a `ConfigReplace` with the given JSON as its document. -/
def configReplaceFrame (requestId : String) (raw : Json) (writer : WriterId) : Json :=
  .obj [("type", .str "config-replace"), ("request_id", .str requestId), ("doc", raw),
    ("writer", Json.variantName WriterId.names writer)]

/-- One of the places that take a config JSON, with what it finds there. -/
inductive Ingress where
  | loadOrInit (ids : Fin 4 → RuleId) (token : Uuid) (fault : Option Fault)
  | watcher (store : ConfigStore Json)
  | lptConfigImport (file : Option Json) (env : LptEnv)
  | guiImportConfig (store : ConfigStore Json) (token : Uuid) (fault : Option Fault)
  | ipcConfigReplace (host : Host) (rt : DaemonRuntime Json) (now : Nat) (token : Uuid)
      (fault : Option Fault) (requestId : String) (writer : WriterId)

/-- The document that the place ends up with, when it takes the JSON. -/
def Ingress.settle (limit : Nat) (raw : Json) : Ingress → Option ConfigDocument
  | .loadOrInit ids token fault =>
    match ConfigStore.loadOrInit (jsonCodec limit) (some raw) ids token fault with
    | .error _ => none
    | .ok (store, _) => some store.document
  | .watcher store =>
    match ConfigStore.handleDiskChange (jsonCodec limit) { store with file := some raw } with
    | (some .external, store) => some store.document
    | _ => none
  | .lptConfigImport file env =>
    match runConfigImport limit file env raw with
    | (.error _, _) => none
    | (.ok (), file) => file.bind (jsonCodec limit).docOf
  | .guiImportConfig store token fault =>
    match importConfig limit store raw token fault with
    | (.error _, _) => none
    | (.ok (), store) => some store.document
  | .ipcConfigReplace host rt now token fault requestId writer =>
    match Json.fromStr limit Request.configReplaceFromJson
        (configReplaceFrame requestId raw writer) with
    | none => none
    | some request =>
      match rt.handle (jsonCodec limit) host now token fault request with
      | (.ack _, rt, _) => some rt.config.document
      | _ => none

section Settle

-- The equations of `settle`, computed once for the lemmas of this section.
attribute [local simp] Ingress.settle

variable {limit : Nat} {raw : Json} {doc d : ConfigDocument}

theorem replace_ok {store store' : ConfigStore Json} {writer : WriterId} {token : Uuid}
    {fault : Option Fault}
    (h : ConfigStore.replace (jsonCodec limit) store doc writer token fault = (.ok (), store')) :
    store'.document = doc.withMeta ⟨some token, some writer⟩ ∧
      store'.file = some store'.document.toJson := by
  have hfile := ConfigStore.persist_ok_file h
  unfold ConfigStore.replace at h
  cases fault with
  | none =>
    cases h
    exact ⟨rfl, hfile⟩
  | some f =>
    rw [ConfigStore.persist_fault] at h
    cases h

theorem settle_loadOrInit {ids : Fin 4 → RuleId} {token : Uuid} {fault : Option Fault}
    {migrated : Bool} (hparse : parseWithPriorityMigration limit raw = some (doc, migrated))
    (h : (Ingress.loadOrInit ids token fault).settle limit raw = some d) :
    d.body = doc.body := by
  have hparse : (jsonCodec limit).parse raw = some (doc, migrated) := hparse
  simp only [Ingress.settle, ConfigStore.loadOrInit, hparse] at h
  cases migrated with
  | false =>
    cases h
    rfl
  | true =>
    cases fault with
    | none =>
      cases h
      rfl
    | some f =>
      simp only [↓reduceIte, ConfigStore.persist_fault] at h
      cases h

theorem settle_watcher {store : ConfigStore Json} {migrated : Bool}
    (hparse : parseWithPriorityMigration limit raw = some (doc, migrated))
    (h : (Ingress.watcher store).settle limit raw = some d) : d.body = doc.body := by
  have hparse : (jsonCodec limit).parse raw = some (doc, migrated) := hparse
  simp only [Ingress.settle, ConfigStore.handleDiskChange, hparse] at h
  split at h
  · rename_i hexternal
    cases h
    obtain ⟨horigin, rfl⟩ := Prod.mk.inj hexternal
    have hne : store.state.origin doc ≠ .echo := by
      intro hecho
      rw [Option.some.inj horigin] at hecho
      cases hecho
    simp only [ConfigStore.document, State.onDisk_external hne]
  · cases h

/-- A command that takes a whole document loads the live one and leaves the other. -/
theorem rewriteFile_ok {file file' : Option Json} {env : LptEnv} {writer : WriterId}
    (h : rewriteFile (jsonCodec limit) file env writer (fun _ => .ok doc) = (.ok (), file')) :
    (∃ store, loadStore (jsonCodec limit) file env = .ok store) ∧
      file' = some (doc.withMeta ⟨some env.token, some writer⟩).toJson := by
  unfold rewriteFile at h
  split at h
  · cases h
  · rename_i store hload
    simp only at h
    split at h
    · cases h
    · rename_i store' hreplace
      cases h
      obtain ⟨hdocument, hfile⟩ := replace_ok hreplace
      exact ⟨⟨store, hload⟩, by rw [hfile, hdocument]⟩

theorem settle_lptConfigImport {file : Option Json} {env : LptEnv}
    (hdoc : Json.fromStr limit ConfigDocument.fromJson raw = some doc)
    (h : (Ingress.lptConfigImport file env).settle limit raw = some d) : d.body = doc.body := by
  simp only [Ingress.settle, runConfigImport, hdoc] at h
  split at h
  · cases h
  · rename_i file' hrun
    split at hrun
    · cases hrun
    · rename_i file'' himport
      cases hrun
      rw [(rewriteFile_ok himport).2, Option.bind_some, Codec.docOf] at h
      obtain ⟨⟨d', migrated⟩, hd', rfl⟩ := Option.map_eq_some_iff.mp h
      rw [(jsonCodec_decodes limit _ _ _ hd').1]
      rfl

theorem settle_guiImportConfig {store : ConfigStore Json} {token : Uuid} {fault : Option Fault}
    (hdoc : Json.fromStr limit ConfigDocument.fromJson raw = some doc)
    (h : (Ingress.guiImportConfig store token fault).settle limit raw = some d) :
    d.body = doc.body := by
  simp only [Ingress.settle, importConfig, hdoc] at h
  split at h
  · cases h
  · rename_i store' himport
    cases h
    split at himport
    · cases himport
    · rename_i hreplace
      cases himport
      rw [(replace_ok hreplace).1]
      rfl

theorem settle_ipcConfigReplace {host : Host} {rt : DaemonRuntime Json} {now : Nat} {token : Uuid}
    {fault : Option Fault} {requestId : String} {writer : WriterId}
    (hdoc : ConfigDocument.fromJson raw = some doc)
    (h : (Ingress.ipcConfigReplace host rt now token fault requestId writer).settle limit raw =
      some d) : d.body = doc.body := by
  have hrequest : Request.configReplaceFromJson (configReplaceFrame requestId raw writer) =
      some (.configReplace requestId doc writer) := by
    simp [Request.configReplaceFromJson, configReplaceFrame, Json.tagged, Fields.read,
      Fields.required, Fields.get, Json.string, hdoc, WriterId.read_names]
  simp only [Ingress.settle] at h
  split at h
  · cases h
  · rename_i request hframe
    cases (Json.fromStr_eq_some_iff.mp hframe).2.symm.trans hrequest
    simp only [DaemonRuntime.handle] at h
    split at h
    · rename_i hack
      cases h
      split at hack
      · rename_i hreplace
        cases hack
        rw [(replace_ok hreplace).1]
        rfl
      · cases hack
    · cases h

theorem loadOrInit_settles {migrated : Bool} (ids : Fin 4 → RuleId) (token : Uuid)
    (hparse : parseWithPriorityMigration limit raw = some (doc, migrated)) :
    ∃ d, (Ingress.loadOrInit ids token none).settle limit raw = some d ∧ d.body = doc.body := by
  have hparse : (jsonCodec limit).parse raw = some (doc, migrated) := hparse
  simp only [Ingress.settle, ConfigStore.loadOrInit, hparse]
  cases migrated <;> exact ⟨_, rfl, rfl⟩

theorem guiImportConfig_settles (store : ConfigStore Json) (token : Uuid)
    (hdoc : Json.fromStr limit ConfigDocument.fromJson raw = some doc) :
    (Ingress.guiImportConfig store token none).settle limit raw =
      some (doc.withMeta ⟨some token, some .gui⟩) := by
  simp only [Ingress.settle, importConfig, hdoc]
  rfl

theorem lptConfigImport_settles {env : LptEnv} (hload : env.loadFault = none)
    (hfault : env.fault = none)
    (hdoc : Json.fromStr limit ConfigDocument.fromJson raw = some doc)
    (hread : (jsonCodec limit).ReadsBack doc) :
    (Ingress.lptConfigImport none env).settle limit raw =
      some (doc.withMeta ⟨some env.token, some .cli⟩) := by
  have himport : configImport (jsonCodec limit) none env doc =
      (.ok (), some (doc.withMeta ⟨some env.token, some .cli⟩).toJson) := by
    unfold configImport rewriteFile loadStore ConfigStore.loadOrInit
    rw [hload, hfault]
    rfl
  simp only [Ingress.settle, runConfigImport, hdoc, himport]
  exact hread.docOf rfl

end Settle

/-- A place that takes the JSON ends up with its rules in descending order of priority and all else
as it is, and what is saved of that needs no migration. -/
def Ingress.Sorts (limit : Nat) (raw : Json) (doc : ConfigDocument) (i : Ingress) : Prop :=
  ∀ d, i.settle limit raw = some d →
    d.body = { doc with rules := byPriority (legacyPriorities raw) doc.rules }.body ∧
      (jsonCodec limit).ReadsBack d

theorem parse_eq_some {limit : Nat} {raw : Json} {doc : ConfigDocument} {rules : List Rule}
    (hobj : ∃ entries, raw = .obj entries) (hdepth : raw.depth ≤ limit)
    (hdoc : ConfigDocument.fromJson raw = some doc)
    (hrules : byPriority (legacyPriorities raw) doc.rules = rules) :
    ∃ migrated, parseWithPriorityMigration limit raw =
      some ({ doc with rules := rules }, migrated) := by
  obtain ⟨entries, rfl⟩ := hobj
  subst hrules
  exact ⟨_, parse_obj hdepth hdoc⟩

/-- Where the rules already stand in order, every place ends up with the document as it is. -/
theorem settle_of_sorted {limit : Nat} {raw : Json} {doc d : ConfigDocument} {i : Ingress}
    (hdepth : raw.depth ≤ limit) (hdoc : ConfigDocument.fromJson raw = some doc)
    (hsorted : byPriority (legacyPriorities raw) doc.rules = doc.rules)
    (h : i.settle limit raw = some d) : d.body = doc.body := by
  have hread := Json.fromStr_eq_some_iff.mpr ⟨hdepth, hdoc⟩
  obtain ⟨migrated, hparse⟩ : ∃ migrated,
      parseWithPriorityMigration limit raw = some (doc, migrated) := by
    cases raw with
    | obj entries => exact parse_eq_some ⟨_, rfl⟩ hdepth hdoc hsorted
    | arr elems => exact ⟨_, parse_arr hdepth hdoc⟩
    | _ => cases hdoc
  cases i with
  | loadOrInit ids token fault => exact settle_loadOrInit hparse h
  | watcher store => exact settle_watcher hparse h
  | lptConfigImport file env => exact settle_lptConfigImport hread h
  | guiImportConfig store token fault => exact settle_guiImportConfig hread h
  | ipcConfigReplace host rt now token fault requestId writer =>
    exact settle_ipcConfigReplace hdoc h

/-- **Legacy priorities.** The five places agree on the rules in descending order of priority
exactly when the rules already stand in that order, or some of them are equal and the order makes
no difference. -/
theorem priority_agrees_iff {limit : Nat} (hlimit : 5 ≤ limit) {raw : Json} {doc : ConfigDocument}
    (hdepth : raw.depth ≤ limit) (hdoc : ConfigDocument.fromJson raw = some doc) :
    (∀ i : Ingress, i.Sorts limit raw doc) ↔
      Descending (legacyPriorities raw) ∨
        ¬ doc.rules.Nodup ∧ byPriority (legacyPriorities raw) doc.rules = doc.rules := by
  have hlen := length_legacyPriorities hdoc
  have hsorted_iff : byPriority (legacyPriorities raw) doc.rules = doc.rules ↔
      Descending (legacyPriorities raw) ∨
        ¬ doc.rules.Nodup ∧ byPriority (legacyPriorities raw) doc.rules = doc.rules := by
    constructor
    · intro h
      by_cases hnodup : doc.rules.Nodup
      · exact .inl (descending_of_byPriority hlen hnodup h)
      · exact .inr ⟨hnodup, h⟩
    · rintro (h | ⟨-, h⟩)
      · exact byPriority_of_descending hlen h
      · exact h
  rw [← hsorted_iff]
  constructor
  · intro h
    -- the GUI's import takes the JSON as it is
    have hread := Json.fromStr_eq_some_iff.mpr ⟨hdepth, hdoc⟩
    have hbody := (h _ _ (guiImportConfig_settles ⟨⟨doc, none⟩, none⟩ 0#128 hread)).1
    exact (congrArg ConfigDocument.rules hbody).symm
  · intro hsorted i d hd
    have hbody := settle_of_sorted hdepth hdoc hsorted hd
    rw [hsorted]
    refine ⟨hbody, (jsonCodec_readsBack_iff hlimit).mpr ?_⟩
    have hrules : d.body.rules = doc.body.rules := by rw [hbody]
    show ∀ r ∈ d.body.rules, _
    rw [hrules]
    intro r hr
    exact Nat.le_trans (ConfigDocument.nesting_le hdoc r hr) hdepth

/-! ## A config of an old version -/

/-- A rule as old versions wrote it. -/
def legacyRule (id : RuleId) (kind : String) (priority : Option Int) : Json :=
  .obj ([("id", Uuid.toJson id), ("when", .obj [("op", .str "always")]),
    ("then", .obj [("kind", .str kind)])] ++
      match priority with
      | none => []
      | some p => [("priority", .int p)])

def legacyConfig (rules : List Json) : Json :=
  .obj [("default_target", .obj [("browser", .str "chrome")]), ("rules", .arr rules)]

def currentRule (id : RuleId) (action : Action) : Rule :=
  ⟨id, true, .always, action, .gui, none, none⟩

def currentConfig (rules : List Rule) : ConfigDocument :=
  { ConfigDocument.withDefault (.new "chrome") with rules := rules }

/-- The rule with the higher priority comes first. -/
def inOrder : Json := legacyConfig [legacyRule 1#128 "block" (some 5), legacyRule 2#128 "ask" none]

/-- The rule with the higher priority comes last. -/
def outOfOrder : Json :=
  legacyConfig [legacyRule 1#128 "block" none, legacyRule 2#128 "ask" (some 10)]

theorem priority_agrees_iff_inOrder :
    (Ingress.loadOrInit (fun _ => 0#128) 8#128 none).Sorts 127 inOrder
        (currentConfig [currentRule 1#128 .block, currentRule 2#128 .ask]) ∧
      (Ingress.lptConfigImport none ⟨fun _ => 0#128, 8#128, none, 9#128, none⟩).Sorts 127 inOrder
        (currentConfig [currentRule 1#128 .block, currentRule 2#128 .ask]) := by
  have hdescending : Descending (legacyPriorities inOrder) := by
    unfold Descending
    decide +kernel
  have hdoc : ConfigDocument.fromJson inOrder =
      some (currentConfig [currentRule 1#128 .block, currentRule 2#128 .ask]) := rfl
  have hdepth : inOrder.depth ≤ 127 := by decide +kernel
  have hagree := (priority_agrees_iff (by decide) hdepth hdoc).mpr (.inl hdescending)
  exact ⟨hagree _, hagree _⟩

/-- `load_or_init` puts rule 2 first; the imports keep it last. -/
theorem import_keeps_file_order :
    (∀ ids token, ∃ d, (Ingress.loadOrInit ids token none).settle 127 outOfOrder = some d ∧
        d.rules = [currentRule 2#128 .ask, currentRule 1#128 .block]) ∧
      (∃ d, (Ingress.lptConfigImport none ⟨fun _ => 0#128, 8#128, none, 9#128, none⟩).settle 127
          outOfOrder = some d ∧
        d.rules = [currentRule 1#128 .block, currentRule 2#128 .ask]) ∧
      ∀ store token, ∃ d, (Ingress.guiImportConfig store token none).settle 127 outOfOrder =
        some d ∧ d.rules = [currentRule 1#128 .block, currentRule 2#128 .ask] := by
  have hdoc : ConfigDocument.fromJson outOfOrder =
      some (currentConfig [currentRule 1#128 .block, currentRule 2#128 .ask]) := rfl
  have hdepth : outOfOrder.depth ≤ 127 := by decide +kernel
  have hread := Json.fromStr_eq_some_iff.mpr ⟨hdepth, hdoc⟩
  have hpriorities : legacyPriorities outOfOrder = [0, 10] := by decide +kernel
  obtain ⟨migrated, hparse⟩ := @parse_eq_some 127 outOfOrder _
    [currentRule 2#128 .ask, currentRule 1#128 .block] ⟨_, rfl⟩ hdepth hdoc (by
      rw [hpriorities]
      simp [currentConfig, byPriority, higherFirst, List.mergeSort])
  refine ⟨fun ids token => ?_, ?_, fun store token => ?_⟩
  · obtain ⟨d, hsettle, hbody⟩ := loadOrInit_settles ids token hparse
    exact ⟨d, hsettle, congrArg ConfigDocument.rules hbody⟩
  · refine ⟨_, lptConfigImport_settles rfl rfl hread ?_, rfl⟩
    exact (jsonCodec_readsBack_iff (by decide)).mpr (by decide)
  · exact ⟨_, guiImportConfig_settles store token hread, rfl⟩

end LinkPilot
