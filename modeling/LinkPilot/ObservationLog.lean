import LinkPilot.Observations
import LinkPilot.Transport
import LinkPilot.Lib.Texts
import LinkPilot.Lib.JsonLines

/-!
# The log of observations

`record` and `list_observations` of `crates/core/src/observations.rs`.  The log is a file of bytes
with a line for every observation.  `BufReader::lines` refuses a line that is no UTF-8, and the loop
hands its error on; a line that is text and no observation is skipped.

* `listObservations_eq` — what is listed of a log that is UTF-8, and of one that is not.
* `parseLine_append` — what becomes of an observation that is written behind a cut off line.
* `complete_iff` — in which runs of appends the list is complete.
-/

set_option autoImplicit false

namespace LinkPilot.Observations

open Serde

/-! ## The texts -/

/-- A field with `skip_serializing_if = "Option::is_none"`. -/
def present {α : Type} (key : String) (enc : α → Json) (o : Option α) : List (String × Json) :=
  o.toList.map fun a => (key, enc a)

theorem present_bind {α β : Type} {f : Fields} {i : Nat} {key : String} {enc : α → Json}
    {dec : Json → Option (Option α)} {o : Option α} {next : Option α → Option β} {r : Option β}
    (hget : f.get i key = some (o.map enc)) (hdec : ∀ a, dec (enc a) = some (some a))
    (h : next o = r) : (f.defaulted i key none dec).bind next = r := by
  cases o with
  | none => exact Fields.missing_bind hget h
  | some a => exact Fields.defaulted_bind hget (hdec a) h

namespace ObservedSourceApp

def toJson (a : ObservedSourceApp) : Json :=
  .obj (("name", .str a.name) :: present "bundle_id" .str a.bundleId)

def fromJson : Json → Option ObservedSourceApp :=
  Json.record 2 fun f => do
    let name ← f.required 0 "name" Json.string
    let bundleId ← f.defaulted 1 "bundle_id" none (Json.option Json.string)
    some ⟨name, bundleId⟩

theorem fromJson_toJson (a : ObservedSourceApp) : fromJson a.toJson = some a := by
  obtain ⟨name, bundleId⟩ := a
  refine Json.record_obj ?_
  refine Fields.required_bind (j := .str name) (by cases bundleId <;> rfl) rfl ?_
  exact present_bind (o := bundleId) (by cases bundleId <;> rfl) (fun _ => rfl) rfl

theorem plain_toJson (a : ObservedSourceApp) : a.toJson.Plain := by
  obtain ⟨name, bundleId⟩ := a
  cases bundleId with
  | none => exact ⟨trivial, trivial⟩
  | some id => exact ⟨trivial, trivial, trivial⟩

theorem depth_toJson (a : ObservedSourceApp) : a.toJson.depth = 1 := by
  obtain ⟨name, bundleId⟩ := a
  cases bundleId <;> rfl

end ObservedSourceApp

namespace Observation

def toJson (o : Observation) : Json :=
  .obj (("timestamp_ms", u64Json o.timestampMs) :: ("host", .str o.host) ::
    (present "source_app" ObservedSourceApp.toJson o.sourceApp ++
      ("browser_id", .str o.browserId) :: present "profile_id" .str o.profileId))

def fromJson : Json → Option Observation :=
  Json.record 5 fun f => do
    let timestampMs ← f.required 0 "timestamp_ms" u64
    let host ← f.required 1 "host" Json.string
    let sourceApp ← f.defaulted 2 "source_app" none (Json.option ObservedSourceApp.fromJson)
    let browserId ← f.required 3 "browser_id" Json.string
    let profileId ← f.defaulted 4 "profile_id" none (Json.option Json.string)
    some ⟨timestampMs, host, sourceApp, browserId, profileId⟩

/-- The observation with its time as the `u64` that it is. -/
def wrap (o : Observation) : Observation :=
  { o with timestampMs := o.timestampMs % 18446744073709551616 }

theorem sourceApp_toJson (a : ObservedSourceApp) :
    Json.option ObservedSourceApp.fromJson a.toJson = some (some a) :=
  congrArg (Option.map some) a.fromJson_toJson

theorem fromJson_toJson (o : Observation) : fromJson o.toJson = some o.wrap := by
  obtain ⟨timestampMs, host, sourceApp, browserId, profileId⟩ := o
  refine Json.record_obj ?_
  refine Fields.required_bind (by cases sourceApp <;> cases profileId <;> rfl) (u64_u64Json _) ?_
  refine Fields.required_bind (j := .str host) (by cases sourceApp <;> cases profileId <;> rfl) rfl ?_
  refine present_bind (o := sourceApp) (by cases sourceApp <;> cases profileId <;> rfl) sourceApp_toJson ?_
  refine Fields.required_bind (j := .str browserId) (by cases sourceApp <;> cases profileId <;> rfl)
    rfl ?_
  exact present_bind (o := profileId) (by cases sourceApp <;> cases profileId <;> rfl) (fun _ => rfl) rfl

theorem plain_toJson (o : Observation) : o.toJson.Plain := by
  obtain ⟨timestampMs, host, sourceApp, browserId, profileId⟩ := o
  have htime := plain_u64Json timestampMs
  have hprofile : Json.PlainEntries (present "profile_id" .str profileId) := by
    cases profileId with
    | none => trivial
    | some id => exact ⟨trivial, trivial⟩
  cases sourceApp with
  | none => exact ⟨htime, trivial, trivial, hprofile⟩
  | some a => exact ⟨htime, trivial, a.plain_toJson, trivial, hprofile⟩

theorem depth_toJson (o : Observation) : o.toJson.depth ≤ 2 := by
  obtain ⟨timestampMs, host, sourceApp, browserId, profileId⟩ := o
  cases sourceApp <;> cases profileId <;>
    simp [toJson, present, Json.depth, Json.depthEntries, u64Json, ObservedSourceApp.depth_toJson]

end Observation

/-! ## The file -/

/-- `MS_PER_DAY`. -/
def msPerDay : Nat := 86400000

/-- `io::Error`: bytes that are no UTF-8, or what the system answered. -/
inductive IoError where
  | invalidData
  | os (code : Nat)
  deriving DecidableEq, Repr

/-- An observation with a time that is a `u64`. -/
abbrev Recorded : Type := { o : Observation // o.timestampMs < 18446744073709551616 }

theorem Recorded.fromJson_toJson (o : Recorded) : Observation.fromJson o.val.toJson = some o.val := by
  rw [o.val.fromJson_toJson, Observation.wrap, Nat.mod_eq_of_lt o.property]

/-- `BufReader::lines`; `none` for a line that is no UTF-8.  A line that was closed loses a carriage
return before its end. -/
def bufLines (log : List UInt8) : List (Option (List Char)) :=
  (Lines.closed 10 log).map (fun l => (Json.fromUtf8 l).map (Lines.chomp '\r')) ++
    (Lines.openLine 10 log).map Json.fromUtf8

section Log

variable (serde : SerdeJson)

/-- `serde_json::from_str`. -/
def fromText (line : List Char) : Option Observation :=
  (Json.tokensOf serde.finite line).bind (Json.fromStr serde.limit Observation.fromJson)

/-- The loop of `list_observations`. -/
def collect : List (Option (List Char)) → Except IoError (List Observation)
  | [] => .ok []
  | none :: _ => .error .invalidData
  | some line :: ls =>
    if Texts.trim line = [] then collect ls
    else
      match fromText serde line with
      | some o => (collect ls).map (o :: ·)
      | none => collect ls

/-- `list_observations`, for the answer of the system when the file cannot be opened, and for the
file. -/
def listObservations (denied : Option IoError) (log : Option (List UInt8)) :
    Except IoError (List Observation) :=
  match denied, log with
  | some e, _ => .error e
  | none, none => .ok []
  | none, some bytes => collect serde (bufLines bytes)

/-- The observation of a line. -/
def parseLine (line : List UInt8) : Option Observation := serde.fromSlice Observation.fromJson line

/-- The observations of the lines that are one. -/
def observationsOf (log : List UInt8) : List Observation :=
  (Lines.lines 10 log).filterMap (parseLine serde)

variable {serde}

theorem parseLine_eq (line : List UInt8) :
    parseLine serde line = (Json.fromUtf8 line).bind (fromText serde) := by
  unfold parseLine SerdeJson.fromSlice Json.tokens fromText
  cases Json.fromUtf8 line <;> rfl

/-- A line that is white space is no observation. -/
theorem fromText_of_trim {line : List Char} (h : Texts.trim line = []) :
    fromText serde line = none := by
  have hblank : line.dropWhile Texts.isWhitespace = [] := by
    have hrev := List.reverse_eq_nil_iff.mp h
    cases hline : line.dropWhile Texts.isWhitespace with
    | nil => rfl
    | cons c cs =>
      rw [List.dropWhile_eq_nil_iff, hline] at hrev
      have hc : Texts.isWhitespace c = true := hrev c (by simp)
      have hhead := List.head_dropWhile_not Texts.isWhitespace (l := line)
        (by rw [hline]; exact List.cons_ne_nil _ _)
      simp only [hline, List.head_cons] at hhead
      rw [hc] at hhead
      cases hhead
  unfold fromText
  cases hread : Json.tokensOf serde.finite line with
  | none => rfl
  | some j =>
    obtain ⟨c, hmem, hc⟩ := Json.tokensOf_head hread
    have hws : Texts.isWhitespace c = true := List.dropWhile_eq_nil_iff.mp hblank c hmem
    rcases hc with hc | hdigit
    · simp only [List.mem_cons, List.not_mem_nil, or_false] at hc
      rcases hc with rfl | rfl | rfl | rfl | rfl | rfl | rfl <;> cases hws
    · rw [Texts.not_isWhitespace_of_isDigit hdigit] at hws
      cases hws

theorem fromText_chomp (line : List Char) :
    fromText serde (Lines.chomp '\r' line) = fromText serde line := by
  unfold Lines.chomp
  split
  · rename_i hlast
    obtain ⟨front, rfl⟩ := List.getLast?_eq_some_iff.mp hlast
    rw [List.dropLast_concat]
    unfold fromText
    rw [Json.tokensOf_append_blank front (by decide)]
  · rfl

theorem collect_eq (ls : List (Option (List Char))) :
    collect serde ls =
      if ls.all Option.isSome then .ok (ls.filterMap fun l => l.bind (fromText serde))
      else .error .invalidData := by
  induction ls with
  | nil => rfl
  | cons l ls ih =>
    cases l with
    | none => rfl
    | some line =>
      rw [collect, ih]
      by_cases htrim : Texts.trim line = []
      · have hnone : fromText serde line = none := fromText_of_trim htrim
        simp [htrim, hnone]
      · cases hline : fromText serde line with
        | none => simp [htrim, hline]
        | some o =>
          rw [if_neg htrim]
          by_cases hall : ls.all Option.isSome
          · simp [hall, hline, Except.map]
          · simp [hall, Except.map]

/-- A text is UTF-8 if its lines are. -/
theorem isSome_fromUtf8_lines (log : List UInt8) :
    (Lines.lines 10 log).all (fun l => (Json.fromUtf8 l).isSome) = (Json.fromUtf8 log).isSome := by
  have hjoin : ∀ (ls : List (List UInt8)) (t : List UInt8),
      (Json.fromUtf8 (Lines.join 10 ls ++ t)).isSome =
        (ls.all (fun l => (Json.fromUtf8 l).isSome) && (Json.fromUtf8 t).isSome) := by
    intro ls t
    induction ls with
    | nil => rfl
    | cons l ls ih =>
      have htext : Lines.join 10 (l :: ls) ++ t = l ++ 10 :: (Lines.join 10 ls ++ t) := by
        simp [Lines.join, List.flatMap_cons]
      rw [htext, Json.fromUtf8_append_cons (by decide), List.all_cons, Bool.and_assoc, ← ih]
      cases Json.fromUtf8 l with
      | none => rfl
      | some cs => cases Json.fromUtf8 (Lines.join 10 ls ++ t) <;> rfl
  rw [← congrArg (fun bytes => (Json.fromUtf8 bytes).isSome)
    (@Lines.join_closed_append_torn UInt8 _ 10 log), hjoin, Lines.lines, List.all_append,
    Lines.openLine]
  split
  · rename_i htorn
    rw [htorn]
    rfl
  · simp

/-- **What is listed.** -/
theorem listObservations_eq (log : List UInt8) :
    listObservations serde none (some log) =
      if (Json.fromUtf8 log).isSome then .ok (observationsOf serde log) else .error .invalidData := by
  have hall : (bufLines log).all Option.isSome = (Json.fromUtf8 log).isSome := by
    rw [← isSome_fromUtf8_lines, bufLines, Lines.lines, List.all_append, List.all_append,
      List.all_map, List.all_map]
    simp [Function.comp_def]
  have hread : (bufLines log).filterMap (fun l => l.bind (fromText serde)) =
      observationsOf serde log := by
    unfold bufLines observationsOf Lines.lines
    rw [List.filterMap_append, List.filterMap_append, List.filterMap_map, List.filterMap_map]
    congr 1
    · refine List.filterMap_congr fun l _ => ?_
      show ((Json.fromUtf8 l).map (Lines.chomp '\r')).bind (fromText serde) = parseLine serde l
      rw [parseLine_eq]
      cases Json.fromUtf8 l with
      | none => rfl
      | some cs => exact fromText_chomp cs
    · exact List.filterMap_congr fun l _ => (parseLine_eq l).symm
  show collect serde (bufLines log) = _
  rw [collect_eq, hall, hread]

end Log

/-! ## Appends -/

/-- One call of `record`: the observation, and how many bytes of its line were written when the call
failed, or when the process died in it. -/
structure Append where
  obs : Recorded
  cut : Option Nat

/-- `writeln!(f, "\x7bline\x7d")`. -/
def Recorded.line (o : Recorded) : List UInt8 := o.val.toJson.toVec ++ [10]

def Append.bytes (a : Append) : List UInt8 :=
  match a.cut with
  | none => a.obs.line
  | some n => a.obs.line.take n

/-- The log after the calls. -/
def appended (log : List UInt8) (calls : List Append) : List UInt8 :=
  log ++ calls.flatMap Append.bytes

/-- Nothing but the white space of JSON. -/
def blank (line : List UInt8) : Bool :=
  (Json.fromUtf8 line).any fun ws => (ws.dropWhile Json.isWhitespace).isEmpty

/-- The log is listed, and so is every observation that a call wrote: behind those of the log as it
was, and in front of the later ones. -/
def Complete (serde : SerdeJson) (log : List UInt8) (calls : List Append) : Prop :=
  listObservations serde none (some (appended log calls)) =
      .ok (observationsOf serde (appended log calls)) ∧
    ∀ pre a post, calls = pre ++ a :: post → a.cut = none →
      listObservations serde none (some (appended log calls)) =
        .ok (observationsOf serde (appended log pre) ++
          a.obs.val :: observationsOf serde (post.flatMap Append.bytes))

section Record

variable {serde : SerdeJson}

theorem parseLine_of_blank {line : List UInt8} (h : blank line = true) :
    parseLine serde line = none := by
  rw [parseLine_eq]
  unfold blank at h
  cases hline : Json.fromUtf8 line with
  | none => rfl
  | some ws =>
    rw [hline, Option.any_some, List.isEmpty_iff] at h
    have hnone := @Json.tokensOf_append_blank serde.finite [] _ h
    rw [List.nil_append] at hnone
    rw [Option.bind_some, fromText, hnone]
    rfl

/-- **Behind a cut off line.** -/
theorem parseLine_append (hlimit : 2 ≤ serde.limit) (torn : List UInt8) (o : Recorded) :
    parseLine serde (torn ++ o.val.toJson.toVec) = if blank torn then some o.val else none := by
  have hkey : Json.Key "timestamp_ms" := fun rest => ⟨_, _, rfl, by decide⟩
  have htokens : ∀ ts, Json.tokensOf serde.finite (ts ++ o.val.toJson.render) =
      if ts.dropWhile Json.isWhitespace = [] then some o.val.toJson else none := fun ts =>
    Json.tokensOf_append_object ts hkey o.val.plain_toJson
  rw [parseLine_eq]
  unfold Json.toVec
  obtain ⟨cs, hcs⟩ : ∃ cs, o.val.toJson.render = '{' :: cs := ⟨_, rfl⟩
  rw [hcs, Json.fromUtf8_append_text torn (by decide), ← hcs]
  unfold blank
  cases Json.fromUtf8 torn with
  | none => rfl
  | some ts =>
    show fromText serde (ts ++ o.val.toJson.render) = _
    unfold fromText
    rw [htokens]
    simp only [Option.any_some, List.isEmpty_iff]
    split
    · rw [Option.bind_some, Json.fromStr, if_pos (Nat.le_trans o.val.depth_toJson hlimit),
        o.fromJson_toJson]
    · rfl

theorem observationsOf_eq (log : List UInt8) : observationsOf serde log =
    (Lines.closed 10 log).filterMap (parseLine serde) ++ (parseLine serde (Lines.torn 10 log)).toList := by
  unfold observationsOf Lines.lines Lines.openLine
  rw [List.filterMap_append]
  split
  · rename_i htorn
    rw [htorn]
    rfl
  · rw [List.filterMap_cons, List.filterMap_nil]
    cases parseLine serde (Lines.torn 10 log) <;> rfl

theorem observationsOf_append_line (hlimit : 2 ≤ serde.limit) (log : List UInt8) (o : Recorded)
    (rest : List UInt8) : observationsOf serde (log ++ (o.line ++ rest)) =
      (Lines.closed 10 log).filterMap (parseLine serde) ++
        ((if blank (Lines.torn 10 log) then [o.val] else []) ++ observationsOf serde rest) := by
  have hline : 10 ∉ o.val.toJson.toVec := Json.not_mem_toVec o.val.plain_toJson
  have htext : o.line ++ rest = o.val.toJson.toVec ++ 10 :: rest := by
    rw [Recorded.line, List.append_assoc]
    rfl
  unfold observationsOf
  rw [htext, Lines.lines_append_line hline, List.filterMap_append, List.filterMap_cons,
    parseLine_append hlimit]
  split
  · rename_i hnone
    split at hnone
    · cases hnone
    · rename_i hblank
      rw [if_neg hblank]
      rfl
  · rename_i hsome
    split at hsome
    · rename_i hblank
      cases hsome
      rw [if_pos hblank]
      rfl
    · cases hsome

theorem appended_append (log : List UInt8) (pre post : List Append) (a : Append) :
    appended log (pre ++ a :: post) =
      appended log pre ++ (a.bytes ++ post.flatMap Append.bytes) := by
  simp [appended, List.flatMap_append, List.flatMap_cons]

/-- **When the log is read as it was written.** -/
theorem complete_iff (hlimit : 2 ≤ serde.limit) (log : List UInt8) (calls : List Append) :
    Complete serde log calls ↔
      (Json.fromUtf8 (appended log calls)).isSome = true ∧
        ∀ pre a post, calls = pre ++ a :: post → a.cut = none →
          blank (Lines.torn 10 (appended log pre)) = true := by
  have hlist := @listObservations_eq serde (appended log calls)
  have hcall : ∀ pre a post, calls = pre ++ a :: post → a.cut = none →
      observationsOf serde (appended log calls) =
        (Lines.closed 10 (appended log pre)).filterMap (parseLine serde) ++
          ((if blank (Lines.torn 10 (appended log pre)) then [a.obs.val] else []) ++
            observationsOf serde (post.flatMap Append.bytes)) := by
    intro pre a post hcalls hcut
    have hbytes : a.bytes = a.obs.line := by rw [Append.bytes, hcut]
    rw [hcalls, appended_append, hbytes, observationsOf_append_line hlimit]
  constructor
  · rintro ⟨hok, hkept⟩
    have hutf8 : (Json.fromUtf8 (appended log calls)).isSome = true := by
      rw [hlist] at hok
      split at hok
      · assumption
      · cases hok
    refine ⟨hutf8, fun pre a post hcalls hcut => ?_⟩
    have hlisted := hkept pre a post hcalls hcut
    rw [hok] at hlisted
    have heq := Except.ok.inj hlisted
    rw [hcall pre a post hcalls hcut, observationsOf_eq (appended log pre)] at heq
    by_contra hblank
    have hlength := congrArg List.length heq
    simp only [if_neg hblank, List.nil_append, List.length_append, List.length_cons] at hlength
    omega
  · rintro ⟨hutf8, hblank⟩
    rw [if_pos hutf8] at hlist
    refine ⟨hlist, fun pre a post hcalls hcut => ?_⟩
    have htorn := hblank pre a post hcalls hcut
    rw [hlist, hcall pre a post hcalls hcut, if_pos htorn, observationsOf_eq (appended log pre),
      parseLine_of_blank htorn, Option.toList_none, List.append_nil]
    rfl

end Record

def someReader : SerdeJson := ⟨127, fun _ => true⟩

/-- A pick of Arc for `github.com`. -/
def somePick : Recorded := ⟨⟨1, "github.com", none, "company.thebrowser.Browser", none⟩, by decide⟩

theorem complete_somePick : Complete someReader [] [⟨somePick, none⟩] := by
  refine (complete_iff (by decide) [] [⟨somePick, none⟩]).mpr ⟨by decide, fun pre a post h _ => ?_⟩
  cases pre with
  | nil => decide
  | cons b pre => cases pre <;> cases h

/-- A line of one byte that is no UTF-8, and a line that was cut off behind its first four bytes. -/
theorem not_complete : ¬ Complete someReader [0xff, 0x0a] [] ∧
    ¬ Complete someReader [] [⟨somePick, some 4⟩, ⟨somePick, none⟩] := by
  constructor
  · rintro ⟨hlisted, -⟩
    have hbytes : Json.fromUtf8 (appended [0xff, 0x0a] []) = none := by decide
    rw [listObservations_eq, hbytes] at hlisted
    cases hlisted
  · rintro ⟨-, hkept⟩
    have hlisted := hkept [⟨somePick, some 4⟩] ⟨somePick, none⟩ [] rfl rfl
    have hcut : appended [] [⟨somePick, some 4⟩] = [123, 34, 116, 105] := by decide
    have hread := @observationsOf_append_line someReader (by decide)
      [123, 34, 116, 105] somePick []
    rw [show Lines.closed 10 ([123, 34, 116, 105] : List UInt8) = [] by decide,
      if_neg (by decide)] at hread
    rw [listObservations_eq, show appended [] [⟨somePick, some 4⟩, ⟨somePick, none⟩] =
      [123, 34, 116, 105] ++ (somePick.line ++ []) by rw [← hcut]; rfl, hread] at hlisted
    split at hlisted
    · have hlength := congrArg List.length (Except.ok.inj hlisted)
      simp only [List.filterMap_nil, List.flatMap_nil, List.length_append, List.length_cons,
        List.length_nil] at hlength
      omega
    · cases hlisted

end LinkPilot.Observations
