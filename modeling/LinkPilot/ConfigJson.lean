import LinkPilot.Edits
import LinkPilot.Lib.Json
import Mathlib.Data.List.Induction
import Mathlib.Data.Nat.Digits.Defs

/-!
# The configuration document as JSON

What `serde` derives for the types of `crates/core/src/browser.rs`, `rules.rs` and
`config/mod.rs`: names of fields and variants, defaults, tags.  Unknown fields are ignored, a
field that is there twice is refused, and a record may also be read from an array.

Principal results:

* `ConfigDocument.fromJson_toJson` — a document is read back from what is written of it.
* `ConfigDocument.depth_toJson_le_iff` — only matchers make a document nested deep.
* `ConfigDocument.nesting_le` — a document that was read was nested as deep as its matchers are.
-/

set_option autoImplicit false

namespace LinkPilot

open Serde

/-! ## UUIDs -/

/-- A hexadecimal digit of either case. -/
def hexValue (c : Char) : Option Nat :=
  if '0' ≤ c ∧ c ≤ '9' then some (c.toNat - '0'.toNat)
  else if 'a' ≤ c ∧ c ≤ 'f' then some (c.toNat - 'a'.toNat + 10)
  else if 'A' ≤ c ∧ c ≤ 'F' then some (c.toNat - 'A'.toNat + 10)
  else none

/-- 32 hexadecimal digits. -/
def parseSimple (cs : List Char) : Option Uuid :=
  (cs.mapM hexValue).map fun digits =>
    BitVec.ofNat 128 (digits.foldl (fun n digit => n * 16 + digit) 0)

/-- 36 characters, grouped 8-4-4-4-12. -/
def parseHyphenated (cs : List Char) : Option Uuid :=
  if cs[8]? = some '-' ∧ cs[13]? = some '-' ∧ cs[18]? = some '-' ∧ cs[23]? = some '-' then
    parseSimple (cs.take 8 ++ (cs.drop 9).take 4 ++ (cs.drop 14).take 4 ++ (cs.drop 19).take 4 ++
      cs.drop 24)
  else none

/-- `Uuid::parse_str`: simple, hyphenated, braced, or as a URN. -/
def parseUuid (s : String) : Option Uuid :=
  let cs := s.toList
  if cs.length = 32 then parseSimple cs
  else if cs.length = 36 then parseHyphenated cs
  else if cs.length = 38 ∧ cs.head? = some '{' ∧ cs.getLast? = some '}' then
    parseHyphenated ((cs.drop 1).take 36)
  else if cs.length = 45 ∧ cs.take 9 = "urn:uuid:".toList then parseHyphenated (cs.drop 9)
  else none

theorem hexValue_digitChar_all : ∀ d, d < 16 → hexValue (Nat.digitChar d) = some d := by decide

theorem hexValue_digitChar {d : Nat} (h : d < 16) : hexValue (Nat.digitChar d) = some d :=
  hexValue_digitChar_all d h

/-- The last digit, and the digits of the rest. -/
theorem hexDigits_succ (n count : Nat) :
    hexDigits n (count + 1) = hexDigits (n / 16) count ++ [Nat.digitChar (n % 16)] := by
  unfold hexDigits
  rw [List.range_succ, List.map_append]
  congr 1
  · refine List.map_congr_left fun i hi => ?_
    have hlt : i < count := List.mem_range.mp hi
    have hpow : 16 ^ (count + 1 - 1 - i) = 16 * 16 ^ (count - 1 - i) := by
      rw [← Nat.pow_succ', show count + 1 - 1 - i = (count - 1 - i).succ by omega]
    rw [hpow, Nat.div_div_eq_div_mul]
  · simp

theorem read_hexDigits (n count : Nat) :
    ∃ digits, (hexDigits n count).mapM hexValue = some digits ∧
      digits.foldl (fun n digit => n * 16 + digit) 0 = n % 16 ^ count := by
  induction count generalizing n with
  | zero => exact ⟨[], rfl, by simp [Nat.mod_one]⟩
  | succ count ih =>
    obtain ⟨digits, hdigits, hfold⟩ := ih (n / 16)
    refine ⟨digits ++ [n % 16], ?_, ?_⟩
    · have hlast := hexValue_digitChar (d := n % 16) (Nat.mod_lt _ (by omega))
      rw [hexDigits_succ, List.mapM_append, hdigits]
      simp [hlast]
    · rw [List.foldl_append, hfold]
      simp only [List.foldl_cons, List.foldl_nil]
      rw [Nat.pow_succ', Nat.mod_mul]
      omega

theorem parseSimple_hexDigits (id : Uuid) : parseSimple (hexDigits id.toNat 32) = some id := by
  obtain ⟨digits, hdigits, hfold⟩ := read_hexDigits id.toNat 32
  have hlt : id.toNat < 16 ^ 32 := id.isLt
  unfold parseSimple
  rw [hdigits, Option.map_some, hfold, Nat.mod_eq_of_lt hlt, BitVec.ofNat_toNat, BitVec.setWidth_eq]

/-- `Uuid::to_string` as a string. -/
def uuidText (id : Uuid) : String := String.ofList (uuidChars id)

theorem parseUuid_uuidText (id : Uuid) : parseUuid (uuidText id) = some id := by
  have hlen : (uuidChars id).length = 36 := rfl
  have hgroups : parseHyphenated (uuidChars id) = parseSimple (hexDigits id.toNat 32) := rfl
  unfold parseUuid uuidText
  simp only [String.toList_ofList, hlen, hgroups, parseSimple_hexDigits]
  rfl

def Uuid.toJson (id : Uuid) : Json := .str (uuidText id)

def Uuid.fromJson (j : Json) : Option Uuid := j.string.bind parseUuid

theorem Uuid.fromJson_toJson (id : Uuid) : Uuid.fromJson (Uuid.toJson id) = some id := by
  simp only [Uuid.fromJson, Uuid.toJson, Json.string, Option.bind_some, parseUuid_uuidText]

theorem Uuid.stable : Json.Stable Uuid.fromJson := Json.Stable.string.bind _

attribute [local simp] Json.record Json.fields Fields.read Fields.required Fields.optional
  Fields.defaulted Fields.get

/-! ## Optional values -/

theorem optionString (o : Option String) :
    Json.option Json.string (.ofOption .str o) = some o := by
  have hread : ∀ s : String, Json.string (.str s) = some s := fun _ => rfl
  exact Json.option_ofOption hread rfl o

theorem depth_optionString (o : Option String) : (Json.ofOption Json.str o).depth = 0 := by
  cases o <;> rfl

/-! ## `browser.rs` -/

namespace BrowserTarget

def toJson (t : BrowserTarget) : Json :=
  .obj [("browser", .str t.browser), ("profile", .ofOption .str t.profile),
    ("workspace", .ofOption .str t.workspace), ("incognito", .bool t.incognito),
    ("new_window", .bool t.newWindow)]

def fromJson : Json → Option BrowserTarget :=
  Json.record 5 fun f => do
    let browser ← f.required 0 "browser" Json.string
    let profile ← f.optional 1 "profile" Json.string
    let workspace ← f.optional 2 "workspace" Json.string
    let incognito ← f.defaulted 3 "incognito" false Json.boolean
    let newWindow ← f.defaulted 4 "new_window" false Json.boolean
    some ⟨browser, profile, workspace, incognito, newWindow⟩

theorem fromJson_toJson (t : BrowserTarget) : fromJson t.toJson = some t := by
  refine Json.record_obj ?_
  refine Fields.required_bind rfl rfl ?_
  refine Fields.optional_bind rfl (optionString _) ?_
  refine Fields.optional_bind rfl (optionString _) ?_
  refine Fields.defaulted_bind rfl rfl ?_
  exact Fields.defaulted_bind rfl rfl rfl

theorem stable : Json.Stable fromJson := by
  refine Json.Stable.record ?_
  refine (Fields.Stable.required Json.Stable.string).bind fun _ => ?_
  refine (Fields.Stable.optional Json.Stable.string).bind fun _ => ?_
  refine (Fields.Stable.optional Json.Stable.string).bind fun _ => ?_
  refine (Fields.Stable.defaulted Json.Stable.boolean).bind fun _ => ?_
  refine (Fields.Stable.defaulted Json.Stable.boolean).bind fun _ => ?_
  exact Fields.Stable.pure _

theorem depth_toJson (t : BrowserTarget) : t.toJson.depth = 1 := by
  simp [toJson, Json.depth, Json.depthEntries, depth_optionString]

end BrowserTarget

def BrowserKind.names : List (String × BrowserKind) :=
  [("chromium", .chromium), ("firefox", .firefox), ("safari", .safari), ("arc", .arc),
    ("unknown", .unknown)]

theorem BrowserKind.read_names (k : BrowserKind) :
    Json.unitVariant names (Json.variantName names k) = some k := by
  cases k <;> rfl

namespace InstalledBrowser

def toJson (b : InstalledBrowser) : Json :=
  .obj [("id", .str b.id), ("display_name", .str b.displayName),
    ("kind", Json.variantName BrowserKind.names b.kind), ("executable", .str b.executable),
    ("platform_app_id", .ofOption .str b.platformAppId),
    ("profile_root", .ofOption .str b.profileRoot)]

def fromJson : Json → Option InstalledBrowser :=
  Json.record 6 fun f => do
    let id ← f.required 0 "id" Json.string
    let displayName ← f.required 1 "display_name" Json.string
    let kind ← f.required 2 "kind" (Json.unitVariant BrowserKind.names)
    let executable ← f.required 3 "executable" Json.string
    let platformAppId ← f.optional 4 "platform_app_id" Json.string
    let profileRoot ← f.optional 5 "profile_root" Json.string
    some ⟨id, displayName, kind, executable, platformAppId, profileRoot⟩

theorem fromJson_toJson (b : InstalledBrowser) : fromJson b.toJson = some b := by
  refine Json.record_obj ?_
  refine Fields.required_bind rfl rfl ?_
  refine Fields.required_bind rfl rfl ?_
  refine Fields.required_bind rfl (BrowserKind.read_names _) ?_
  refine Fields.required_bind rfl rfl ?_
  refine Fields.optional_bind rfl (optionString _) ?_
  exact Fields.optional_bind rfl (optionString _) rfl

theorem stable : Json.Stable fromJson := by
  refine Json.Stable.record ?_
  refine (Fields.Stable.required Json.Stable.string).bind fun _ => ?_
  refine (Fields.Stable.required Json.Stable.string).bind fun _ => ?_
  refine (Fields.Stable.required (Json.Stable.unitVariant _)).bind fun _ => ?_
  refine (Fields.Stable.required Json.Stable.string).bind fun _ => ?_
  refine (Fields.Stable.optional Json.Stable.string).bind fun _ => ?_
  refine (Fields.Stable.optional Json.Stable.string).bind fun _ => ?_
  exact Fields.Stable.pure _

theorem depth_toJson (b : InstalledBrowser) : b.toJson.depth = 1 := by
  simp [toJson, Json.variantName, Json.depth, Json.depthEntries, depth_optionString]

end InstalledBrowser

/-! ## `rules.rs` -/

def RuleSource.names : List (String × RuleSource) :=
  [("gui", .gui), ("file", .file), ("ts-compiled", .tsCompiled)]

theorem RuleSource.read_names (s : RuleSource) :
    Json.unitVariant names (Json.variantName names s) = some s := by
  cases s <;> rfl

namespace MatcherTree

mutual

def toJson : MatcherTree → Json
  | .always => .obj [("op", .str "always")]
  | .all of => .obj [("op", .str "all"), ("of", .arr (toJsonAll of))]
  | .any of => .obj [("op", .str "any"), ("of", .arr (toJsonAll of))]
  | .not of => .obj [("op", .str "not"), ("of", of.toJson)]
  | .urlHost pattern => .obj [("op", .str "url-host"), ("pattern", .str pattern)]
  | .urlPath pattern => .obj [("op", .str "url-path"), ("pattern", .str pattern)]
  | .sourceApp name bundleId =>
    .obj [("op", .str "source-app"), ("name", .str name), ("bundle_id", .ofOption .str bundleId)]
  | .sourceBrowser browser => .obj [("op", .str "source-browser"), ("browser", .str browser)]
  | .sourceProfile profile => .obj [("op", .str "source-profile"), ("profile", .str profile)]

def toJsonAll : List MatcherTree → List Json
  | [] => []
  | m :: ms => m.toJson :: toJsonAll ms

end

/-- The fields of the variant `op`; `dec` reads a nested matcher. -/
def fromFields (dec : Json → Option MatcherTree) (op : String) (f : Fields) : Option MatcherTree :=
  match op with
  | "always" => f.read 0 fun _ => some .always
  | "all" => f.read 1 fun f => (f.required 0 "of" (Json.vec dec)).map .all
  | "any" => f.read 1 fun f => (f.required 0 "of" (Json.vec dec)).map .any
  | "not" => f.read 1 fun f => (f.required 0 "of" dec).map .not
  | "url-host" => f.read 1 fun f => (f.required 0 "pattern" Json.string).map .urlHost
  | "url-path" => f.read 1 fun f => (f.required 0 "pattern" Json.string).map .urlPath
  | "source-app" => f.read 2 fun f => do
    let name ← f.required 0 "name" Json.string
    let bundleId ← f.defaulted 1 "bundle_id" none (Json.option Json.string)
    some (.sourceApp name bundleId)
  | "source-browser" => f.read 1 fun f => (f.required 0 "browser" Json.string).map .sourceBrowser
  | "source-profile" => f.read 1 fun f => (f.required 0 "profile" Json.string).map .sourceProfile
  | _ => none

/-- The decoder on values nested at most `n` deep. -/
def decode : Nat → Json → Option MatcherTree
  | 0, _ => none
  | n + 1, j => (j.tagged "op").bind fun (op, f) => fromFields (decode n) op f

def fromJson (j : Json) : Option MatcherTree := decode j.depth j

mutual

/-- How deep the matcher's JSON is nested. -/
def nesting : MatcherTree → Nat
  | .all of => nestingAll of + 2
  | .any of => nestingAll of + 2
  | .not of => of.nesting + 1
  | _ => 1

def nestingAll : List MatcherTree → Nat
  | [] => 0
  | m :: ms => max m.nesting (nestingAll ms)

end

theorem nestingAll_le_iff {ms : List MatcherTree} {n : Nat} :
    nestingAll ms ≤ n ↔ ∀ m ∈ ms, m.nesting ≤ n := by
  induction ms with
  | nil => simp [nestingAll]
  | cons m ms ih => simp [nestingAll, ih]

theorem nesting_pos (m : MatcherTree) : 1 ≤ m.nesting := by
  cases m <;> simp [nesting]

mutual

theorem depth_toJson : ∀ m : MatcherTree, m.toJson.depth = m.nesting
  | .all of => by simp [toJson, nesting, Json.depth, Json.depthEntries, depth_toJsonAll of]
  | .any of => by simp [toJson, nesting, Json.depth, Json.depthEntries, depth_toJsonAll of]
  | .not of => by simp [toJson, nesting, Json.depth, Json.depthEntries, depth_toJson of]
  | .sourceApp name bundleId => by
    simp [toJson, nesting, Json.depth, Json.depthEntries, depth_optionString]
  | .always | .urlHost _ | .urlPath _ | .sourceBrowser _ | .sourceProfile _ => rfl

theorem depth_toJsonAll : ∀ ms : List MatcherTree, Json.depthElems (toJsonAll ms) = nestingAll ms
  | [] => rfl
  | m :: ms => by simp [toJsonAll, nestingAll, Json.depthElems, depth_toJson m, depth_toJsonAll ms]

end

mutual

theorem decode_toJson : ∀ (m : MatcherTree) (n : Nat), m.nesting ≤ n → decode n m.toJson = some m
  | m, 0, h => absurd (Nat.le_trans m.nesting_pos h) (by decide)
  | .all of, n + 1, h => by
    have hof := mapM_decode of n (by simp only [nesting] at h; omega)
    simp [decode, toJson, Json.tagged, fromFields, Json.vec, hof]
  | .any of, n + 1, h => by
    have hof := mapM_decode of n (by simp only [nesting] at h; omega)
    simp [decode, toJson, Json.tagged, fromFields, Json.vec, hof]
  | .not of, n + 1, h => by
    have hof := decode_toJson of n (by simp only [nesting] at h; omega)
    simp [decode, toJson, Json.tagged, fromFields, hof]
  | .sourceApp name bundleId, n + 1, h => by
    simp [decode, toJson, Json.tagged, fromFields, Json.string, optionString]
  | .always, _ + 1, _ | .urlHost _, _ + 1, _ | .urlPath _, _ + 1, _
  | .sourceBrowser _, _ + 1, _ | .sourceProfile _, _ + 1, _ => rfl

theorem mapM_decode : ∀ (ms : List MatcherTree) (n : Nat), nestingAll ms ≤ n →
    (toJsonAll ms).mapM (decode n) = some ms
  | [], _, _ => rfl
  | m :: ms, n, h => by
    simp only [nestingAll, Nat.max_le] at h
    rw [toJsonAll, List.mapM_cons, decode_toJson m n h.1, mapM_decode ms n h.2]
    rfl

end

theorem stable_fromFields {dec : Json → Option MatcherTree} (h : Json.Stable dec) (op : String) :
    Fields.Stable (fromFields dec op) := by
  unfold fromFields
  split
  · exact Fields.Stable.read (Fields.Stable.pure _)
  · exact ((Fields.Stable.required h.vec).map _).read
  · exact ((Fields.Stable.required h.vec).map _).read
  · exact ((Fields.Stable.required h).map _).read
  · exact ((Fields.Stable.required Json.Stable.string).map _).read
  · exact ((Fields.Stable.required Json.Stable.string).map _).read
  · refine Fields.Stable.read ?_
    refine (Fields.Stable.required Json.Stable.string).bind fun name => ?_
    exact (Fields.Stable.defaulted Json.Stable.string.option).bind fun _ => Fields.Stable.pure _
  · exact ((Fields.Stable.required Json.Stable.string).map _).read
  · exact ((Fields.Stable.required Json.Stable.string).map _).read
  · exact nofun

theorem stable_decode (n : Nat) : Json.Stable (decode n) := by
  induction n with
  | zero => exact nofun
  | succ n ih =>
    intro j m h
    obtain ⟨⟨op, f⟩, htag, h⟩ := Option.bind_eq_some_iff.mp h
    unfold decode
    rw [Json.tagged_toValue htag]
    exact stable_fromFields ih op f m h

/-- Another decoder of nested matchers may do, as far as it is asked. -/
theorem fromFields_imp {dec dec' : Json → Option MatcherTree} {op : String} {f : Fields}
    {m : MatcherTree} (himp : ∀ j, j.depth ≤ f.depth → ∀ m, dec j = some m → dec' j = some m)
    (h : fromFields dec op f = some m) : fromFields dec' op f = some m := by
  have hvec : ∀ (j : Json) (ms : List MatcherTree), j.depth ≤ f.depth →
      Json.vec dec j = some ms → Json.vec dec' j = some ms := by
    intro j ms hj
    exact Json.vec_imp fun j' hj' => himp j' (by omega)
  have hall : ∀ ms, f.required 0 "of" (Json.vec dec) = some ms →
      f.required 0 "of" (Json.vec dec') = some ms :=
    fun ms => Fields.required_imp fun j hj => hvec j ms hj
  unfold fromFields at h
  split at h
  · exact h
  · show f.read 1 (fun f => (f.required 0 "of" (Json.vec dec')).map MatcherTree.all) = some m
    refine Fields.read_imp (fun h => ?_) h
    obtain ⟨ms, hms, rfl⟩ := Option.map_eq_some_iff.mp h
    exact Option.map_eq_some_iff.mpr ⟨ms, hall ms hms, rfl⟩
  · show f.read 1 (fun f => (f.required 0 "of" (Json.vec dec')).map MatcherTree.any) = some m
    refine Fields.read_imp (fun h => ?_) h
    obtain ⟨ms, hms, rfl⟩ := Option.map_eq_some_iff.mp h
    exact Option.map_eq_some_iff.mpr ⟨ms, hall ms hms, rfl⟩
  · show f.read 1 (fun f => (f.required 0 "of" dec').map MatcherTree.not) = some m
    refine Fields.read_imp (fun h => ?_) h
    obtain ⟨m', hm', rfl⟩ := Option.map_eq_some_iff.mp h
    exact Option.map_eq_some_iff.mpr
      ⟨m', Fields.required_imp (fun j hj => himp j hj m') hm', rfl⟩
  · exact h
  · exact h
  · exact h
  · exact h
  · exact h
  · cases h

/-- A value no deeper than the fuel needs no more of it. -/
theorem decode_of_depth_le {n : Nat} {j : Json} {m : MatcherTree} (h : decode n j = some m) :
    ∀ k, j.depth ≤ k → decode k j = some m := by
  induction n generalizing j m with
  | zero => cases h
  | succ n ih =>
    intro k hk
    obtain ⟨⟨op, f⟩, htag, h⟩ := Option.bind_eq_some_iff.mp h
    have hdepth := Json.tagged_depth htag
    cases k with
    | zero => omega
    | succ k =>
      unfold decode
      rw [htag]
      exact fromFields_imp (fun j' hj' m' h' => ih h' k (by omega)) h

theorem fromJson_toJson (m : MatcherTree) : fromJson m.toJson = some m :=
  decode_toJson m _ (by rw [depth_toJson])

theorem stable : Json.Stable fromJson := by
  intro j m h
  exact decode_of_depth_le (stable_decode _ j m h) _ (Nat.le_refl _)

theorem nesting_le_fromFields {dec : Json → Option MatcherTree} {op : String} {f : Fields}
    {m : MatcherTree} (hdec : ∀ j m, dec j = some m → m.nesting ≤ j.depth)
    (h : fromFields dec op f = some m) : m.nesting ≤ f.depth + 1 := by
  have hall : ∀ ms, f.required 0 "of" (Json.vec dec) = some ms → nestingAll ms + 1 ≤ f.depth := by
    intro ms hms
    obtain ⟨j, hj, hdepth⟩ := Fields.required_eq_some hms
    have hpos : 1 ≤ j.depth := by
      cases j with
      | arr elems => exact Nat.le_add_left _ _
      | _ => cases hj
    have : nestingAll ms ≤ j.depth - 1 := by
      refine nestingAll_le_iff.mpr fun m hm => ?_
      obtain ⟨j', hj', hlt⟩ := Json.vec_eq_some hj m hm
      have := hdec j' m hj'
      omega
    omega
  unfold fromFields at h
  split at h
  · cases Fields.read_eq_some h
    simp [nesting]
  · obtain ⟨ms, hms, rfl⟩ := Option.map_eq_some_iff.mp (Fields.read_eq_some h)
    have := hall ms hms
    simp only [nesting]
    omega
  · obtain ⟨ms, hms, rfl⟩ := Option.map_eq_some_iff.mp (Fields.read_eq_some h)
    have := hall ms hms
    simp only [nesting]
    omega
  · obtain ⟨m', hm', rfl⟩ := Option.map_eq_some_iff.mp (Fields.read_eq_some h)
    obtain ⟨j, hj, hdepth⟩ := Fields.required_eq_some hm'
    have := hdec j m' hj
    simp only [nesting]
    omega
  · obtain ⟨_, -, rfl⟩ := Option.map_eq_some_iff.mp (Fields.read_eq_some h)
    simp [nesting]
  · obtain ⟨_, -, rfl⟩ := Option.map_eq_some_iff.mp (Fields.read_eq_some h)
    simp [nesting]
  · obtain ⟨name, -, h⟩ := Option.bind_eq_some_iff.mp (Fields.read_eq_some h)
    obtain ⟨bundleId, -, h⟩ := Option.bind_eq_some_iff.mp h
    cases h
    simp [nesting]
  · obtain ⟨_, -, rfl⟩ := Option.map_eq_some_iff.mp (Fields.read_eq_some h)
    simp [nesting]
  · obtain ⟨_, -, rfl⟩ := Option.map_eq_some_iff.mp (Fields.read_eq_some h)
    simp [nesting]
  · cases h

/-- A matcher is nested no deeper than what it was read from. -/
theorem nesting_le_depth {j : Json} {m : MatcherTree} (h : fromJson j = some m) :
    m.nesting ≤ j.depth := by
  have hdecode : ∀ n j m, decode n j = some m → m.nesting ≤ j.depth := by
    intro n
    induction n with
    | zero => exact nofun
    | succ n ih =>
      intro j m h
      obtain ⟨⟨op, f⟩, htag, h⟩ := Option.bind_eq_some_iff.mp h
      have := Json.tagged_depth htag
      have := nesting_le_fromFields ih h
      omega
  exact hdecode _ j m h

end MatcherTree

namespace Action

def toJson : Action → Json
  | .openWith target => .obj [("kind", .str "open"), ("target", target.toJson)]
  | .keepSource => .obj [("kind", .str "keep-source")]
  | .ask => .obj [("kind", .str "ask")]
  | .block => .obj [("kind", .str "block")]

def fromFields (kind : String) (f : Fields) : Option Action :=
  match kind with
  | "open" => f.read 1 fun f => (f.required 0 "target" BrowserTarget.fromJson).map .openWith
  | "keep-source" => f.read 0 fun _ => some .keepSource
  | "ask" => f.read 0 fun _ => some .ask
  | "block" => f.read 0 fun _ => some .block
  | _ => none

def fromJson (j : Json) : Option Action :=
  (j.tagged "kind").bind fun (kind, f) => fromFields kind f

theorem fromJson_toJson (a : Action) : fromJson a.toJson = some a := by
  cases a with
  | openWith target =>
    simp [fromJson, toJson, Json.tagged, fromFields, BrowserTarget.fromJson_toJson]
  | _ => rfl

theorem stable_fromFields (kind : String) : Fields.Stable (fromFields kind) := by
  unfold fromFields
  split
  · exact ((Fields.Stable.required BrowserTarget.stable).map _).read
  · exact (Fields.Stable.pure _).read
  · exact (Fields.Stable.pure _).read
  · exact (Fields.Stable.pure _).read
  · exact nofun

theorem stable : Json.Stable fromJson := by
  intro j a h
  obtain ⟨⟨kind, f⟩, htag, h⟩ := Option.bind_eq_some_iff.mp h
  unfold fromJson
  rw [Json.tagged_toValue htag]
  exact stable_fromFields kind f a h

theorem depth_toJson_le (a : Action) : a.toJson.depth ≤ 2 := by
  cases a <;> simp [toJson, Json.depth, Json.depthEntries, BrowserTarget.depth_toJson]

end Action

namespace Rule

def toJson (r : Rule) : Json :=
  .obj [("id", Uuid.toJson r.id), ("enabled", .bool r.enabled), ("when", r.when.toJson),
    ("then", r.action.toJson), ("source", Json.variantName RuleSource.names r.source),
    ("note", .ofOption .str r.note), ("workspace_id", .ofOption .str r.workspaceId)]

def fromJson : Json → Option Rule :=
  Json.record 7 fun f => do
    let id ← f.required 0 "id" Uuid.fromJson
    let enabled ← f.defaulted 1 "enabled" true Json.boolean
    let when ← f.required 2 "when" MatcherTree.fromJson
    let action ← f.required 3 "then" Action.fromJson
    let source ← f.defaulted 4 "source" .gui (Json.unitVariant RuleSource.names)
    let note ← f.defaulted 5 "note" none (Json.option Json.string)
    let workspaceId ← f.defaulted 6 "workspace_id" none (Json.option Json.string)
    some ⟨id, enabled, when, action, source, note, workspaceId⟩

theorem fromJson_toJson (r : Rule) : fromJson r.toJson = some r := by
  refine Json.record_obj ?_
  refine Fields.required_bind rfl (Uuid.fromJson_toJson _) ?_
  refine Fields.defaulted_bind rfl rfl ?_
  refine Fields.required_bind rfl (MatcherTree.fromJson_toJson _) ?_
  refine Fields.required_bind rfl (Action.fromJson_toJson _) ?_
  refine Fields.defaulted_bind rfl (RuleSource.read_names _) ?_
  refine Fields.defaulted_bind rfl (optionString _) ?_
  exact Fields.defaulted_bind rfl (optionString _) rfl

theorem stable : Json.Stable fromJson := by
  refine Json.Stable.record ?_
  refine (Fields.Stable.required Uuid.stable).bind fun _ => ?_
  refine (Fields.Stable.defaulted Json.Stable.boolean).bind fun _ => ?_
  refine (Fields.Stable.required MatcherTree.stable).bind fun _ => ?_
  refine (Fields.Stable.required Action.stable).bind fun _ => ?_
  refine (Fields.Stable.defaulted (Json.Stable.unitVariant _)).bind fun _ => ?_
  refine (Fields.Stable.defaulted Json.Stable.string.option).bind fun _ => ?_
  refine (Fields.Stable.defaulted Json.Stable.string.option).bind fun _ => ?_
  exact Fields.Stable.pure _

theorem depth_toJson_le_iff {r : Rule} {n : Nat} :
    r.toJson.depth ≤ n + 3 ↔ r.when.nesting ≤ n + 2 := by
  have haction := Action.depth_toJson_le r.action
  have hid : (Uuid.toJson r.id).depth = 0 := rfl
  simp [toJson, Json.variantName, Json.depth, Json.depthEntries, depth_optionString,
    MatcherTree.depth_toJson, hid]
  omega

/-- A rule is nested one deeper than its matcher. -/
theorem nesting_lt_depth {j : Json} {r : Rule} (h : fromJson j = some r) :
    r.when.nesting < j.depth := by
  obtain ⟨f, h, hdepth⟩ := Json.record_eq_some h
  obtain ⟨id, -, h⟩ := Option.bind_eq_some_iff.mp h
  obtain ⟨enabled, -, h⟩ := Option.bind_eq_some_iff.mp h
  obtain ⟨when, hwhen, h⟩ := Option.bind_eq_some_iff.mp h
  obtain ⟨action, -, h⟩ := Option.bind_eq_some_iff.mp h
  obtain ⟨source, -, h⟩ := Option.bind_eq_some_iff.mp h
  obtain ⟨note, -, h⟩ := Option.bind_eq_some_iff.mp h
  obtain ⟨workspaceId, -, h⟩ := Option.bind_eq_some_iff.mp h
  cases h
  obtain ⟨j', hj', hle⟩ := Fields.required_eq_some hwhen
  have := MatcherTree.nesting_le_depth hj'
  show when.nesting < j.depth
  omega

end Rule

/-! ## `config/mod.rs` -/

namespace Workspace

def toJson (w : Workspace) : Json :=
  .obj [("id", .str w.id), ("display_name", .str w.displayName),
    ("description", .ofOption .str w.description), ("enabled", .bool w.enabled)]

def fromJson : Json → Option Workspace :=
  Json.record 4 fun f => do
    let id ← f.required 0 "id" Json.string
    let displayName ← f.required 1 "display_name" Json.string
    let description ← f.defaulted 2 "description" none (Json.option Json.string)
    let enabled ← f.defaulted 3 "enabled" true Json.boolean
    some ⟨id, displayName, description, enabled⟩

theorem fromJson_toJson (w : Workspace) : fromJson w.toJson = some w := by
  refine Json.record_obj ?_
  refine Fields.required_bind rfl rfl ?_
  refine Fields.required_bind rfl rfl ?_
  refine Fields.defaulted_bind rfl (optionString _) ?_
  exact Fields.defaulted_bind rfl rfl rfl

theorem stable : Json.Stable fromJson := by
  refine Json.Stable.record ?_
  refine (Fields.Stable.required Json.Stable.string).bind fun _ => ?_
  refine (Fields.Stable.required Json.Stable.string).bind fun _ => ?_
  refine (Fields.Stable.defaulted Json.Stable.string.option).bind fun _ => ?_
  refine (Fields.Stable.defaulted Json.Stable.boolean).bind fun _ => ?_
  exact Fields.Stable.pure _

theorem depth_toJson (w : Workspace) : w.toJson.depth = 1 := by
  simp [toJson, Json.depth, Json.depthEntries, depth_optionString]

end Workspace

def PickerStyle.names : List (String × PickerStyle) :=
  [("frosted", .frosted), ("bezel", .bezel), ("crown", .crown)]

theorem PickerStyle.read_names (p : PickerStyle) :
    Json.unitVariant names (Json.variantName names p) = some p := by
  cases p <;> rfl

def AskQuickOpenModifier.names : List (String × AskQuickOpenModifier) :=
  [("off", .off), ("command", .command), ("option", .option), ("control", .control),
    ("shift", .shift)]

theorem AskQuickOpenModifier.read_names (a : AskQuickOpenModifier) :
    Json.unitVariant names (Json.variantName names a) = some a := by
  cases a <;> rfl

def LanguagePref.names : List (String × LanguagePref) :=
  [("system", .system), ("en", .en), ("zh-CN", .zhCn), ("zh-TW", .zhTw), ("ja-JP", .jaJp)]

theorem LanguagePref.read_names (l : LanguagePref) :
    Json.unitVariant names (Json.variantName names l) = some l := by
  cases l <;> rfl

namespace ProfileOrders

def toJson (m : ProfileOrders) : Json :=
  .obj (m.entries.map fun e => (e.1, .arr (e.2.map .str)))

/-- Entries are inserted in the order they are read in. -/
def ofEntries (es : List (String × List String)) : ProfileOrders :=
  es.foldl (fun m e => m.insert e.1 e.2) empty

def fromJson (j : Json) : Option ProfileOrders :=
  (Json.mapEntries (Json.vec Json.string) j).map ofEntries

theorem mem_insert {m : ProfileOrders} {key : String} {value : List String}
    {e : String × List String} :
    e ∈ (m.insert key value).entries ↔ e = (key, value) ∨ e ∈ m.entries ∧ e.1 ≠ key := by
  unfold insert insertEntries
  simp only [List.mem_append, List.mem_filter, List.mem_cons, decide_eq_true_eq]
  constructor
  · rintro (⟨hmem, hlt⟩ | rfl | ⟨hmem, hlt⟩)
    · exact .inr ⟨hmem, ne_of_lt hlt⟩
    · exact .inl rfl
    · exact .inr ⟨hmem, ne_of_gt hlt⟩
  · rintro (rfl | ⟨hmem, hne⟩)
    · exact .inr (.inl rfl)
    · rcases lt_or_gt_of_ne hne with hlt | hgt
      · exact .inl ⟨hmem, hlt⟩
      · exact .inr (.inr ⟨hmem, hgt⟩)

theorem nodup_keys (m : ProfileOrders) : (m.entries.map Prod.fst).Nodup :=
  List.pairwise_map.mpr (m.sorted.imp fun h => ne_of_lt h)

theorem ext_mem {m m' : ProfileOrders} (h : ∀ e, e ∈ m.entries ↔ e ∈ m'.entries) : m = m' := by
  have hperm : m.entries.Perm m'.entries :=
    (List.perm_ext_iff_of_nodup m.nodup_keys.of_map m'.nodup_keys.of_map).mpr h
  have hentries : m.entries = m'.entries := by
    refine hperm.eq_of_pairwise ?_ m.sorted m'.sorted
    intro a b _ _ hab hba
    exact absurd (lt_trans hab hba) (lt_irrefl _)
  cases m
  cases m'
  cases hentries
  rfl

/-- Of values inserted under one key the last is kept. -/
theorem mem_foldl_insert (es : List (String × List String)) (m : ProfileOrders)
    (e : String × List String) :
    e ∈ (es.foldl (fun m e => m.insert e.1 e.2) m).entries ↔
      (es.filter fun e' => e'.1 == e.1).getLast? = some e ∨
        e ∈ m.entries ∧ es.filter (fun e' => e'.1 == e.1) = [] := by
  induction es using List.reverseRecOn with
  | nil => simp
  | append_singleton es x ih =>
    rw [List.foldl_append, List.filter_append]
    simp only [List.foldl_cons, List.foldl_nil]
    rw [mem_insert, ih]
    by_cases hx : x.1 = e.1
    · have hone : [x].filter (fun e' => e'.1 == e.1) = [x] := by simp [hx]
      rw [hone, List.getLast?_concat]
      constructor
      · rintro (rfl | ⟨-, hne⟩)
        · exact .inl rfl
        · exact absurd hx.symm hne
      · rintro (h | ⟨-, h⟩)
        · cases h
          exact .inl rfl
        · exact absurd h (by simp)
    · have hne : e.1 ≠ x.1 := fun h => hx h.symm
      have hnot : e ≠ (x.1, x.2) := by
        rintro rfl
        exact hx rfl
      simp [hx, hnot, hne]

theorem ofEntries_lastOnly (es : List (String × List String)) :
    ofEntries (Json.lastOnly es) = ofEntries es := by
  refine ext_mem fun e => ?_
  unfold ofEntries
  rw [mem_foldl_insert, mem_foldl_insert, Json.filter_lastOnly]
  cases (es.filter fun e' => e'.1 == e.1).getLast? <;> simp [empty]

theorem ofEntries_entries (m : ProfileOrders) : ofEntries m.entries = m := by
  refine ext_mem fun e => ?_
  unfold ofEntries
  rw [mem_foldl_insert]
  constructor
  · rintro (hlast | ⟨hmem, -⟩)
    · exact (List.mem_filter.mp (List.mem_of_getLast? hlast)).1
    · cases hmem
  · intro hmem
    have hfilter : e ∈ m.entries.filter fun e' => e'.1 == e.1 :=
      List.mem_filter.mpr ⟨hmem, beq_self_eq_true _⟩
    cases hlast : (m.entries.filter fun e' => e'.1 == e.1).getLast? with
    | none =>
      rw [List.getLast?_eq_none_iff.mp hlast] at hfilter
      cases hfilter
    | some e' =>
      obtain ⟨hmem', hkey⟩ := List.mem_filter.mp (List.mem_of_getLast? hlast)
      have hsame : e' = e :=
        List.inj_on_of_nodup_map m.nodup_keys hmem' hmem (by simpa using hkey)
      rw [hsame]
      exact .inl rfl

theorem fromJson_toJson (m : ProfileOrders) : fromJson m.toJson = some m := by
  have hids : ∀ ids : List String, Json.vec Json.string (.arr (ids.map .str)) = some ids :=
    fun ids => Json.vec_map fun _ _ => rfl
  have hentries : Json.mapEntries (Json.vec Json.string) m.toJson = some m.entries :=
    @Json.mapEntries_map _ (fun ids => .arr (ids.map .str)) _ m.entries hids
  unfold fromJson
  rw [hentries, Option.map_some, ofEntries_entries]

theorem stable : Json.Stable fromJson := by
  intro j m h
  obtain ⟨es, hes, rfl⟩ := Option.map_eq_some_iff.mp h
  unfold fromJson
  rw [Json.mapEntries_toValue Json.Stable.string.vec hes, Option.map_some, ofEntries_lastOnly]

theorem depth_toJson_le (m : ProfileOrders) : m.toJson.depth ≤ 2 := by
  unfold toJson
  refine Json.depth_obj_le_iff.mpr fun e he => ?_
  obtain ⟨e', -, rfl⟩ := List.mem_map.mp he
  refine Json.depth_arr_le_iff.mpr fun j hj => ?_
  obtain ⟨id, -, rfl⟩ := List.mem_map.mp hj
  exact Nat.le_refl _

end ProfileOrders

namespace Settings

def toJson (s : Settings) : Json :=
  .obj [("launch_at_login", .bool s.launchAtLogin),
    ("history_retention_days", .ofOption (fun n => .int n.toNat) s.historyRetentionDays),
    ("record_query_strings", .bool s.recordQueryStrings),
    ("auto_check_updates", .bool s.autoCheckUpdates),
    ("smart_routing_enabled", .bool s.smartRoutingEnabled),
    ("picker_style", Json.variantName PickerStyle.names s.pickerStyle),
    ("ask_quick_open_modifier",
      Json.variantName AskQuickOpenModifier.names s.askQuickOpenModifier),
    ("profile_orders", s.profileOrders.toJson),
    ("disabled_browsers", .arr (s.disabledBrowsers.map .str)),
    ("language", Json.variantName LanguagePref.names s.language),
    ("behavior_log_enabled", .bool s.behaviorLogEnabled),
    ("behavior_log_retention_days",
      .ofOption (fun n => .int n.toNat) s.behaviorLogRetentionDays)]

def fromJson : Json → Option Settings :=
  Json.record 12 fun f => do
    let launchAtLogin ← f.defaulted 0 "launch_at_login" false Json.boolean
    let historyRetentionDays ←
      f.defaulted 1 "history_retention_days" none (Json.option Json.u32)
    let recordQueryStrings ← f.defaulted 2 "record_query_strings" false Json.boolean
    let autoCheckUpdates ← f.defaulted 3 "auto_check_updates" true Json.boolean
    let smartRoutingEnabled ← f.defaulted 4 "smart_routing_enabled" true Json.boolean
    let pickerStyle ←
      f.defaulted 5 "picker_style" .frosted (Json.unitVariant PickerStyle.names)
    let askQuickOpenModifier ←
      f.defaulted 6 "ask_quick_open_modifier" .command
        (Json.unitVariant AskQuickOpenModifier.names)
    let profileOrders ← f.defaulted 7 "profile_orders" .empty ProfileOrders.fromJson
    let disabledBrowsers ← f.defaulted 8 "disabled_browsers" [] (Json.vec Json.string)
    let language ← f.defaulted 9 "language" .system (Json.unitVariant LanguagePref.names)
    let behaviorLogEnabled ← f.defaulted 10 "behavior_log_enabled" true Json.boolean
    let behaviorLogRetentionDays ←
      f.defaulted 11 "behavior_log_retention_days" (some 90) (Json.option Json.u32)
    some ⟨launchAtLogin, historyRetentionDays, recordQueryStrings, autoCheckUpdates,
      smartRoutingEnabled, pickerStyle, askQuickOpenModifier, profileOrders, disabledBrowsers,
      language, behaviorLogEnabled, behaviorLogRetentionDays⟩

theorem optionU32 (o : Option UInt32) :
    Json.option Json.u32 (.ofOption (fun n => .int n.toNat) o) = some o := by
  refine Json.option_ofOption ?_ rfl o
  exact Json.u32_toNat

theorem disabledBrowsers_read (ids : List String) :
    Json.vec Json.string (.arr (ids.map .str)) = some ids :=
  Json.vec_map fun _ _ => rfl

theorem fromJson_toJson (s : Settings) : fromJson s.toJson = some s := by
  refine Json.record_obj ?_
  refine Fields.defaulted_bind rfl rfl ?_
  refine Fields.defaulted_bind rfl (optionU32 _) ?_
  refine Fields.defaulted_bind rfl rfl ?_
  refine Fields.defaulted_bind rfl rfl ?_
  refine Fields.defaulted_bind rfl rfl ?_
  refine Fields.defaulted_bind rfl (PickerStyle.read_names _) ?_
  refine Fields.defaulted_bind rfl (AskQuickOpenModifier.read_names _) ?_
  refine Fields.defaulted_bind rfl (ProfileOrders.fromJson_toJson _) ?_
  refine Fields.defaulted_bind rfl (disabledBrowsers_read _) ?_
  refine Fields.defaulted_bind rfl (LanguagePref.read_names _) ?_
  refine Fields.defaulted_bind rfl rfl ?_
  exact Fields.defaulted_bind rfl (optionU32 _) rfl

theorem stable : Json.Stable fromJson := by
  refine Json.Stable.record ?_
  refine (Fields.Stable.defaulted Json.Stable.boolean).bind fun _ => ?_
  refine (Fields.Stable.defaulted Json.Stable.u32.option).bind fun _ => ?_
  refine (Fields.Stable.defaulted Json.Stable.boolean).bind fun _ => ?_
  refine (Fields.Stable.defaulted Json.Stable.boolean).bind fun _ => ?_
  refine (Fields.Stable.defaulted Json.Stable.boolean).bind fun _ => ?_
  refine (Fields.Stable.defaulted (Json.Stable.unitVariant _)).bind fun _ => ?_
  refine (Fields.Stable.defaulted (Json.Stable.unitVariant _)).bind fun _ => ?_
  refine (Fields.Stable.defaulted ProfileOrders.stable).bind fun _ => ?_
  refine (Fields.Stable.defaulted Json.Stable.string.vec).bind fun _ => ?_
  refine (Fields.Stable.defaulted (Json.Stable.unitVariant _)).bind fun _ => ?_
  refine (Fields.Stable.defaulted Json.Stable.boolean).bind fun _ => ?_
  refine (Fields.Stable.defaulted Json.Stable.u32.option).bind fun _ => ?_
  exact Fields.Stable.pure _

theorem depth_toJson_le (s : Settings) : s.toJson.depth ≤ 3 := by
  have horders := ProfileOrders.depth_toJson_le s.profileOrders
  have hdisabled : (Json.arr (s.disabledBrowsers.map .str)).depth ≤ 1 := by
    refine Json.depth_arr_le_iff.mpr fun j hj => ?_
    obtain ⟨id, -, rfl⟩ := List.mem_map.mp hj
    exact Nat.le_refl _
  have hdays : ∀ o : Option UInt32, (Json.ofOption (fun n => .int n.toNat) o).depth = 0 := by
    intro o
    cases o <;> rfl
  have hname : ∀ s : String, (Json.str s).depth = 0 := fun _ => rfl
  have hbool : ∀ b : Bool, (Json.bool b).depth = 0 := fun _ => rfl
  show (Json.obj _).depth ≤ 2 + 1
  rw [Json.depth_obj_le_iff]
  simp only [List.forall_mem_cons, Json.variantName, hdays, hname, hbool]
  refine ⟨?_, ?_, ?_, ?_, ?_, ?_, ?_, horders, Nat.le_succ_of_le hdisabled, ?_, ?_, ?_, nofun⟩
  all_goals exact Nat.zero_le _

end Settings

def WriterId.names : List (String × WriterId) :=
  [("gui", .gui), ("file", .file), ("cli", .cli), ("ts-compiled", .tsCompiled)]

theorem WriterId.read_names (w : WriterId) :
    Json.unitVariant names (Json.variantName names w) = some w := by
  cases w <;> rfl

namespace Meta

def toJson (m : Meta) : Json :=
  .obj [("last_writer_token", .ofOption Uuid.toJson m.lastWriterToken),
    ("last_writer", .ofOption (Json.variantName WriterId.names) m.lastWriter)]

def fromJson : Json → Option Meta :=
  Json.record 2 fun f => do
    let lastWriterToken ← f.defaulted 0 "last_writer_token" none (Json.option Uuid.fromJson)
    let lastWriter ←
      f.defaulted 1 "last_writer" none (Json.option (Json.unitVariant WriterId.names))
    some ⟨lastWriterToken, lastWriter⟩

theorem fromJson_toJson (m : Meta) : fromJson m.toJson = some m := by
  have htoken : Json.option Uuid.fromJson (.ofOption Uuid.toJson m.lastWriterToken) =
      some m.lastWriterToken := Json.option_ofOption Uuid.fromJson_toJson rfl _
  have hwriter : Json.option (Json.unitVariant WriterId.names)
      (.ofOption (Json.variantName WriterId.names) m.lastWriter) = some m.lastWriter :=
    Json.option_ofOption WriterId.read_names rfl _
  refine Json.record_obj ?_
  refine Fields.defaulted_bind rfl htoken ?_
  exact Fields.defaulted_bind rfl hwriter rfl

theorem stable : Json.Stable fromJson := by
  refine Json.Stable.record ?_
  refine (Fields.Stable.defaulted Uuid.stable.option).bind fun _ => ?_
  refine (Fields.Stable.defaulted (Json.Stable.unitVariant _).option).bind fun _ => ?_
  exact Fields.Stable.pure _

theorem depth_toJson (m : Meta) : m.toJson.depth = 1 := by
  obtain ⟨token, writer⟩ := m
  cases token <;> cases writer <;> rfl

end Meta

namespace ConfigDocument

def toJson (d : ConfigDocument) : Json :=
  .obj [("version", .int d.version.toNat), ("default_target", d.defaultTarget.toJson),
    ("rules", .arr (d.rules.map Rule.toJson)),
    ("workspaces", .arr (d.workspaces.map Workspace.toJson)),
    ("custom_browsers", .arr (d.customBrowsers.map InstalledBrowser.toJson)),
    ("settings", d.settings.toJson), ("meta", d.metaBlock.toJson)]

def fromJson : Json → Option ConfigDocument :=
  Json.record 7 fun f => do
    let version ← f.defaulted 0 "version" SCHEMA_VERSION Json.u32
    let defaultTarget ← f.required 1 "default_target" BrowserTarget.fromJson
    let rules ← f.defaulted 2 "rules" [] (Json.vec Rule.fromJson)
    let workspaces ← f.defaulted 3 "workspaces" [] (Json.vec Workspace.fromJson)
    let customBrowsers ← f.defaulted 4 "custom_browsers" [] (Json.vec InstalledBrowser.fromJson)
    let settings ← f.defaulted 5 "settings" .default Settings.fromJson
    let metaBlock ← f.defaulted 6 "meta" .default Meta.fromJson
    some ⟨version, defaultTarget, rules, workspaces, customBrowsers, settings, metaBlock⟩

/-- **Round trip.** A document is read back from what is written of it. -/
theorem fromJson_toJson (d : ConfigDocument) : fromJson d.toJson = some d := by
  have hrules : Json.vec Rule.fromJson (.arr (d.rules.map Rule.toJson)) = some d.rules :=
    Json.vec_map fun r _ => r.fromJson_toJson
  have hworkspaces : Json.vec Workspace.fromJson (.arr (d.workspaces.map Workspace.toJson)) =
      some d.workspaces := Json.vec_map fun w _ => w.fromJson_toJson
  have hbrowsers : Json.vec InstalledBrowser.fromJson
      (.arr (d.customBrowsers.map InstalledBrowser.toJson)) = some d.customBrowsers :=
    Json.vec_map fun b _ => b.fromJson_toJson
  refine Json.record_obj ?_
  refine Fields.defaulted_bind rfl (Json.u32_toNat _) ?_
  refine Fields.required_bind rfl (BrowserTarget.fromJson_toJson _) ?_
  refine Fields.defaulted_bind rfl hrules ?_
  refine Fields.defaulted_bind rfl hworkspaces ?_
  refine Fields.defaulted_bind rfl hbrowsers ?_
  refine Fields.defaulted_bind rfl (Settings.fromJson_toJson _) ?_
  exact Fields.defaulted_bind rfl (Meta.fromJson_toJson _) rfl

theorem stable : Json.Stable fromJson := by
  refine Json.Stable.record ?_
  refine (Fields.Stable.defaulted Json.Stable.u32).bind fun _ => ?_
  refine (Fields.Stable.required BrowserTarget.stable).bind fun _ => ?_
  refine (Fields.Stable.defaulted Rule.stable.vec).bind fun _ => ?_
  refine (Fields.Stable.defaulted Workspace.stable.vec).bind fun _ => ?_
  refine (Fields.Stable.defaulted InstalledBrowser.stable.vec).bind fun _ => ?_
  refine (Fields.Stable.defaulted Settings.stable).bind fun _ => ?_
  refine (Fields.Stable.defaulted Meta.stable).bind fun _ => ?_
  exact Fields.Stable.pure _

/-- **Nesting.** Only matchers make a document nested deep: each by three more than its own. -/
theorem depth_toJson_le_iff {d : ConfigDocument} {n : Nat} :
    d.toJson.depth ≤ n + 5 ↔ ∀ r ∈ d.rules, r.when.nesting + 3 ≤ n + 5 := by
  have htarget := BrowserTarget.depth_toJson d.defaultTarget
  have hsettings := Settings.depth_toJson_le d.settings
  have hmeta := Meta.depth_toJson d.metaBlock
  have hworkspaces : (Json.arr (d.workspaces.map Workspace.toJson)).depth ≤ 1 + 1 := by
    refine Json.depth_arr_le_iff.mpr fun j hj => ?_
    obtain ⟨w, -, rfl⟩ := List.mem_map.mp hj
    rw [w.depth_toJson]
  have hbrowsers : (Json.arr (d.customBrowsers.map InstalledBrowser.toJson)).depth ≤ 1 + 1 := by
    refine Json.depth_arr_le_iff.mpr fun j hj => ?_
    obtain ⟨b, -, rfl⟩ := List.mem_map.mp hj
    rw [b.depth_toJson]
  have hrules : (Json.arr (d.rules.map Rule.toJson)).depth ≤ n + 4 ↔
      ∀ r ∈ d.rules, r.when.nesting + 3 ≤ n + 5 := by
    rw [Json.depth_arr_le_iff, List.forall_mem_map]
    refine forall_congr' fun r => forall_congr' fun _ => ?_
    rw [Rule.depth_toJson_le_iff]
    omega
  have hversion : (Json.int d.version.toNat).depth = 0 := rfl
  show (Json.obj _).depth ≤ n + 4 + 1 ↔ _
  rw [Json.depth_obj_le_iff, ← hrules]
  simp only [List.forall_mem_cons]
  constructor
  · rintro ⟨-, -, h, -⟩
    exact h
  · intro h
    exact ⟨by omega, by omega, h, by omega, by omega, by omega, by omega, nofun⟩

/-- **Nesting of what was read.** A document is nested three deeper than each of its matchers. -/
theorem nesting_le {j : Json} {d : ConfigDocument} (h : fromJson j = some d) :
    ∀ r ∈ d.rules, r.when.nesting + 3 ≤ j.depth := by
  obtain ⟨f, h, hdepth⟩ := Json.record_eq_some h
  obtain ⟨version, -, h⟩ := Option.bind_eq_some_iff.mp h
  obtain ⟨defaultTarget, -, h⟩ := Option.bind_eq_some_iff.mp h
  obtain ⟨rules, hrules, h⟩ := Option.bind_eq_some_iff.mp h
  obtain ⟨workspaces, -, h⟩ := Option.bind_eq_some_iff.mp h
  obtain ⟨customBrowsers, -, h⟩ := Option.bind_eq_some_iff.mp h
  obtain ⟨settings, -, h⟩ := Option.bind_eq_some_iff.mp h
  obtain ⟨metaBlock, -, h⟩ := Option.bind_eq_some_iff.mp h
  cases h
  intro r hr
  rcases Fields.defaulted_eq_some hrules with rfl | ⟨j', hj', hle⟩
  · cases hr
  · obtain ⟨j'', hj'', hlt⟩ := Json.vec_eq_some hj' r hr
    have := Rule.nesting_lt_depth hj''
    omega

end ConfigDocument

end LinkPilot
