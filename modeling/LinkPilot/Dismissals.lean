import LinkPilot.ObservationLog

/-!
# Dismissals

`dismiss`, `active_dismissals` and `list_suggestions` of `crates/core/src/observations.rs`.  The file
of the dismissals is what its text is to `serde_json`; every call reads the clock twice, for its own
entry and for the pruning.

* `Muting.update` — one call keeps the entries at the last dismissal of each tuple.
* `mem_activeDismissals_iff` — after any calls a tuple is muted for thirty days from its last
  dismissal, and no longer.
* `dismissals_last` — what that means for the list of suggestions.
-/

set_option autoImplicit false

namespace LinkPilot.Observations

open Serde

/-- `DISMISSAL_TTL_DAYS`. -/
def dismissalTtlDays : Nat := 30

/-- `DISMISSAL_TTL_DAYS * MS_PER_DAY`. -/
def dismissalTtl : Nat := dismissalTtlDays * msPerDay

/-- `DismissedSuggestion`. -/
structure DismissedSuggestion where
  host : String
  browserId : String
  profileId : Option String
  dismissedAtMs : UInt64
  deriving DecidableEq, Repr

/-- The tuple that an entry mutes. -/
def DismissedSuggestion.pick (e : DismissedSuggestion) : Pick := (e.host, e.browserId, e.profileId)

/-- `DismissedFile`. -/
structure DismissedFile where
  entries : List DismissedSuggestion
  deriving DecidableEq, Repr

/-! ## The text -/

namespace DismissedSuggestion

def toJson (e : DismissedSuggestion) : Json :=
  .obj (("host", .str e.host) :: ("browser_id", .str e.browserId) ::
    (present "profile_id" .str e.profileId ++ [("dismissed_at_ms", u64Json e.dismissedAtMs.toNat)]))

def fromJson : Json → Option DismissedSuggestion :=
  Json.record 4 fun f => do
    let host ← f.required 0 "host" Json.string
    let browserId ← f.required 1 "browser_id" Json.string
    let profileId ← f.defaulted 2 "profile_id" none (Json.option Json.string)
    let dismissedAtMs ← f.required 3 "dismissed_at_ms" u64
    some ⟨host, browserId, profileId, .ofNat dismissedAtMs⟩

theorem fromJson_toJson (e : DismissedSuggestion) : fromJson e.toJson = some e := by
  obtain ⟨host, browserId, profileId, dismissedAtMs⟩ := e
  refine Json.record_obj ?_
  refine Fields.required_bind (j := .str host) (by cases profileId <;> rfl) rfl ?_
  refine Fields.required_bind (j := .str browserId) (by cases profileId <;> rfl) rfl ?_
  refine present_bind (o := profileId) (by cases profileId <;> rfl) (fun _ => rfl) ?_
  refine Fields.required_bind (by cases profileId <;> rfl) (u64_u64Json _) ?_
  rw [Nat.mod_eq_of_lt dismissedAtMs.toNat_lt, UInt64.ofNat_toNat]

theorem depth_toJson (e : DismissedSuggestion) : e.toJson.depth = 1 := by
  obtain ⟨host, browserId, profileId, dismissedAtMs⟩ := e
  cases profileId <;> simp [toJson, present, Json.depth, Json.depthEntries, u64Json]

end DismissedSuggestion

namespace DismissedFile

def toJson (f : DismissedFile) : Json :=
  .obj [("entries", .arr (f.entries.map DismissedSuggestion.toJson))]

def fromJson : Json → Option DismissedFile :=
  Json.record 1 fun f => do
    let entries ← f.defaulted 0 "entries" [] (Json.vec DismissedSuggestion.fromJson)
    some ⟨entries⟩

theorem fromJson_toJson (f : DismissedFile) : fromJson f.toJson = some f := by
  refine Json.record_obj ?_
  exact Fields.defaulted_bind rfl (Json.vec_map fun e _ => e.fromJson_toJson) rfl

theorem depth_toJson (f : DismissedFile) : f.toJson.depth ≤ 3 := by
  have helems : Json.depthElems (f.entries.map DismissedSuggestion.toJson) ≤ 1 := by
    refine Json.depthElems_le_iff.mpr fun j hj => ?_
    obtain ⟨e, -, rfl⟩ := List.mem_map.mp hj
    exact Nat.le_of_eq e.depth_toJson
  simp only [toJson, Json.depth, Json.depthEntries]
  omega

end DismissedFile

/-! ## The calls -/

/-- What the file of the dismissals holds: bytes that are no UTF-8, a text that is no JSON, or a
value. -/
inductive DismissedText where
  | bytes
  | text
  | json (value : Json)

/-- A call of `dismiss`: its tuple, the two readings of the clock, and what fails. -/
structure Dismissal where
  host : String
  browserId : String
  profileId : Option String
  pushedAt : UInt64
  prunedAt : UInt64
  denied : Option IoError
  write : Option IoError

def Dismissal.pick (d : Dismissal) : Pick := (d.host, d.browserId, d.profileId)

/-- The entry of a call. -/
def Dismissal.entry (d : Dismissal) : DismissedSuggestion :=
  ⟨d.host, d.browserId, d.profileId, d.pushedAt⟩

/-- What `dismiss` makes of the entries: those of the tuple give way to a new one, and then what is
past its term goes. -/
def Dismissal.update (d : Dismissal) (entries : List DismissedSuggestion) :
    List DismissedSuggestion :=
  let others := entries.filter fun e =>
    !(e.host == d.host && e.browserId == d.browserId && e.profileId == d.profileId)
  let cutoff := d.prunedAt.toNat - dismissalTtl
  (others ++ [d.entry]).filter fun e => cutoff ≤ e.dismissedAtMs.toNat

section Calls

variable (serde : SerdeJson)

/-- `load_dismissed`. -/
def loadDismissed (denied : Option IoError) (file : Option DismissedText) :
    Except IoError DismissedFile :=
  match denied, file with
  | some e, _ => .error e
  | none, none => .ok ⟨[]⟩
  | none, some .bytes => .error .invalidData
  | none, some .text => .ok ⟨[]⟩
  | none, some (.json value) =>
    .ok ((Json.fromStr serde.limit DismissedFile.fromJson value).getD ⟨[]⟩)

/-- `dismiss`. -/
def dismiss (d : Dismissal) (file : Option DismissedText) :
    Except IoError Unit × Option DismissedText :=
  match loadDismissed serde d.denied file with
  | .error e => (.error e, file)
  | .ok f =>
    match d.write with
    | some e => (.error e, file)
    | none => (.ok (), some (.json (DismissedFile.toJson ⟨d.update f.entries⟩)))

/-- The file after the calls. -/
def dismissAll (file : Option DismissedText) (ds : List Dismissal) : Option DismissedText :=
  ds.foldl (fun file d => (dismiss serde d file).2) file

/-- `active_dismissals`. -/
def activeDismissals (entries : List DismissedSuggestion) (now : UInt64) : List Pick :=
  let cutoff := now.toNat - dismissalTtl
  (entries.filter fun e => cutoff ≤ e.dismissedAtMs.toNat).map DismissedSuggestion.pick

/-- `list_suggestions`, for the observations that were listed. -/
def listSuggestions {K : Type} [LinearOrder K] (quot : Nat → Nat → K) (minConfidence : K)
    (order : IterationOrder (Pick × Nat × Nat)) (observations : Except IoError (List Observation))
    (denied : Option IoError) (file : Option DismissedText) (now : UInt64) :
    Except IoError (List (Suggestion K)) :=
  match observations with
  | .error e => .error e
  | .ok observations =>
    match loadDismissed serde denied file with
    | .error e => .error e
    | .ok dismissed =>
      .ok (aggregate quot minConfidence order (activeDismissals dismissed.entries now) observations)

end Calls

/-! ## What the calls leave -/

/-- The readings of the clock. -/
def readings (ds : List Dismissal) : List UInt64 := ds.flatMap fun d => [d.pushedAt, d.prunedAt]

/-- Nothing fails in the call. -/
def Dismissal.applied (d : Dismissal) : Bool := d.denied.isNone && d.write.isNone

/-- The time of the last dismissal of a tuple. -/
def lastDismissal (ds : List Dismissal) (k : Pick) : Option UInt64 :=
  ((ds.filter fun d => d.applied && d.pick == k).getLast?).map Dismissal.pushedAt

/-- The tuple is muted: it is at most thirty days since its last dismissal. -/
def Muted (ds : List Dismissal) (now : UInt64) (k : Pick) : Prop :=
  ∃ t, lastDismissal ds k = some t ∧ now.toNat ≤ t.toNat + dismissalTtl

/-- The entries of the file after some calls. -/
structure Muting (ds : List Dismissal) (entries : List DismissedSuggestion) : Prop where
  nodup : (entries.map DismissedSuggestion.pick).Nodup
  last : ∀ e ∈ entries, lastDismissal ds e.pick = some e.dismissedAtMs
  complete : ∀ k t, lastDismissal ds k = some t → (∃ e ∈ entries, e.pick = k) ∨
    ∃ r ∈ readings ds, t.toNat + dismissalTtl < r.toNat

theorem lastDismissal_append (ds : List Dismissal) (d : Dismissal) (k : Pick) :
    lastDismissal (ds ++ [d]) k =
      if d.applied = true ∧ d.pick = k then some d.pushedAt else lastDismissal ds k := by
  unfold lastDismissal
  rw [List.filter_append]
  by_cases h : d.applied = true ∧ d.pick = k
  · rw [if_pos h, List.filter_cons_of_pos (by simp [h.1, h.2]), List.filter_nil,
      List.getLast?_concat]
    rfl
  · rw [if_neg h, List.filter_cons_of_neg (by simpa using h), List.filter_nil, List.append_nil]

theorem mem_readings_append {ds : List Dismissal} {d : Dismissal} {r : UInt64} :
    r ∈ readings (ds ++ [d]) ↔ r ∈ readings ds ∨ r = d.pushedAt ∨ r = d.prunedAt := by
  simp [readings]

/-- A call that fails. -/
theorem Muting.failed {ds : List Dismissal} {entries : List DismissedSuggestion} {d : Dismissal}
    (h : Muting ds entries) (hd : d.applied = false) : Muting (ds ++ [d]) entries := by
  have hlast : ∀ k, lastDismissal (ds ++ [d]) k = lastDismissal ds k := by
    intro k
    rw [lastDismissal_append, if_neg (by simp [hd])]
  refine ⟨h.nodup, fun e he => (hlast _).trans (h.last e he), fun k t ht => ?_⟩
  rw [hlast] at ht
  refine (h.complete k t ht).imp_right ?_
  rintro ⟨r, hr, hlt⟩
  exact ⟨r, mem_readings_append.mpr (.inl hr), hlt⟩

theorem Dismissal.others_iff (d : Dismissal) (e : DismissedSuggestion) :
    (!(e.host == d.host && e.browserId == d.browserId && e.profileId == d.profileId)) = true ↔
      e.pick ≠ d.pick := by
  rw [Bool.not_eq_true', ← Bool.not_eq_true]
  simp [DismissedSuggestion.pick, Dismissal.pick, Prod.ext_iff, and_assoc]

theorem Dismissal.mem_update_iff {d : Dismissal} {entries : List DismissedSuggestion}
    {e : DismissedSuggestion} : e ∈ d.update entries ↔
      ((e ∈ entries ∧ e.pick ≠ d.pick) ∨ e = d.entry) ∧
        d.prunedAt.toNat - dismissalTtl ≤ e.dismissedAtMs.toNat := by
  unfold Dismissal.update
  rw [List.mem_filter, List.mem_append, List.mem_filter, d.others_iff, List.mem_singleton,
    decide_eq_true_iff]

theorem Dismissal.nodup_update {d : Dismissal} {entries : List DismissedSuggestion}
    (h : (entries.map DismissedSuggestion.pick).Nodup) :
    ((d.update entries).map DismissedSuggestion.pick).Nodup := by
  refine (List.filter_sublist.map _).nodup ?_
  rw [List.map_append, List.nodup_append]
  refine ⟨(List.filter_sublist.map _).nodup h, List.nodup_singleton _, ?_⟩
  intro a ha b hb
  obtain ⟨e, he, rfl⟩ := List.mem_map.mp ha
  rw [List.mem_singleton.mp hb]
  exact (d.others_iff e).mp (List.mem_filter.mp he).2

/-- **One call.**  Its entry replaces that of its tuple, and what is pruned is over. -/
theorem Muting.update {ds : List Dismissal} {entries : List DismissedSuggestion} {d : Dismissal}
    (h : Muting ds entries) (hd : d.applied = true) : Muting (ds ++ [d]) (d.update entries) := by
  have hlast : ∀ k, lastDismissal (ds ++ [d]) k =
      if d.pick = k then some d.pushedAt else lastDismissal ds k := by
    intro k
    rw [lastDismissal_append]
    simp [hd]
  have hpruned : ∀ t : UInt64, d.prunedAt.toNat - dismissalTtl ≤ t.toNat ∨
      ∃ r ∈ readings (ds ++ [d]), t.toNat + dismissalTtl < r.toNat := by
    intro t
    rw [Nat.sub_le_iff_le_add]
    refine (Nat.lt_or_ge (t.toNat + dismissalTtl) d.prunedAt.toNat).symm.imp_right fun hlt => ?_
    exact ⟨d.prunedAt, mem_readings_append.mpr (.inr (.inr rfl)), hlt⟩
  refine ⟨Dismissal.nodup_update h.nodup, fun e he => ?_, fun k t ht => ?_⟩
  · rw [hlast]
    rcases (Dismissal.mem_update_iff.mp he).1 with ⟨hmem, hne⟩ | rfl
    · rw [if_neg (Ne.symm hne)]
      exact h.last e hmem
    · exact if_pos rfl
  · rw [hlast] at ht
    split at ht
    · rename_i hk
      cases ht
      refine (hpruned d.pushedAt).imp_left fun hle => ?_
      exact ⟨d.entry, Dismissal.mem_update_iff.mpr ⟨.inr rfl, hle⟩, hk⟩
    · rename_i hk
      rcases h.complete k t ht with ⟨e, he, rfl⟩ | ⟨r, hr, hlt⟩
      · have htime : e.dismissedAtMs = t := Option.some.inj ((h.last e he).symm.trans ht)
        refine (hpruned t).imp_left fun hle => ?_
        rw [← htime] at hle
        exact ⟨e, Dismissal.mem_update_iff.mpr ⟨.inl ⟨he, Ne.symm hk⟩, hle⟩, rfl⟩
      · exact .inr ⟨r, mem_readings_append.mpr (.inl hr), hlt⟩

/-- **Muted tuples.** -/
theorem Muting.mem_active {ds : List Dismissal} {entries : List DismissedSuggestion}
    (h : Muting ds entries) {now : UInt64} (hnow : ∀ r ∈ readings ds, r ≤ now) (k : Pick) :
    k ∈ activeDismissals entries now ↔ Muted ds now k := by
  unfold activeDismissals Muted
  rw [List.mem_map]
  constructor
  · rintro ⟨e, he, rfl⟩
    obtain ⟨hmem, hle⟩ := List.mem_filter.mp he
    exact ⟨e.dismissedAtMs, h.last e hmem, Nat.sub_le_iff_le_add.mp (of_decide_eq_true hle)⟩
  · rintro ⟨t, ht, hle⟩
    rcases h.complete k t ht with ⟨e, he, rfl⟩ | ⟨r, hr, hlt⟩
    · have htime : e.dismissedAtMs = t := Option.some.inj ((h.last e he).symm.trans ht)
      refine ⟨e, List.mem_filter.mpr ⟨he, decide_eq_true ?_⟩, rfl⟩
      rw [htime]
      exact Nat.sub_le_iff_le_add.mpr hle
    · have hr := UInt64.le_iff_toNat_le.mp (hnow r hr)
      exact absurd hlt (Nat.not_lt.mpr (Nat.le_trans hr hle))

section Runs

variable {serde : SerdeJson}

/-- The entries that the file is read as. -/
def entriesOf (serde : SerdeJson) (file : Option DismissedText) : List DismissedSuggestion :=
  match loadDismissed serde none file with
  | .ok f => f.entries
  | .error _ => []

theorem loadDismissed_written (hlimit : 3 ≤ serde.limit) (f : DismissedFile) :
    loadDismissed serde none (some (.json f.toJson)) = .ok f := by
  have hread : Json.fromStr serde.limit DismissedFile.fromJson f.toJson = some f := by
    rw [Json.fromStr, if_pos (Nat.le_trans f.depth_toJson hlimit), f.fromJson_toJson]
  rw [loadDismissed, hread]
  rfl

/-- A file that was never written, or one that `dismiss` has written. -/
def Ours (file : Option DismissedText) : Prop :=
  file = none ∨ ∃ f : DismissedFile, file = some (.json f.toJson)

theorem Ours.load (hlimit : 3 ≤ serde.limit) {file : Option DismissedText} (h : Ours file) :
    loadDismissed serde none file = .ok ⟨entriesOf serde file⟩ := by
  rcases h with rfl | ⟨f, rfl⟩
  · rfl
  · rw [entriesOf, loadDismissed_written hlimit]

/-- What a call does to a file of its own. -/
theorem dismiss_eq (hlimit : 3 ≤ serde.limit) {file : Option DismissedText} (h : Ours file)
    (d : Dismissal) : (d.applied = true ∧ dismiss serde d file =
        (.ok (), some (.json (DismissedFile.toJson ⟨d.update (entriesOf serde file)⟩)))) ∨
      d.applied = false ∧ ∃ e, dismiss serde d file = (.error e, file) := by
  obtain ⟨host, browserId, profileId, pushedAt, prunedAt, denied, write⟩ := d
  unfold dismiss
  cases denied with
  | some e => exact .inr ⟨rfl, e, rfl⟩
  | none =>
    simp only [h.load hlimit]
    cases write with
    | some e => exact .inr ⟨rfl, e, rfl⟩
    | none => exact .inl ⟨rfl, rfl⟩

theorem dismissAll_append (file : Option DismissedText) (ds : List Dismissal) (d : Dismissal) :
    dismissAll serde file (ds ++ [d]) = (dismiss serde d (dismissAll serde file ds)).2 :=
  List.foldl_append

/-- The file after any calls. -/
theorem muting_dismissAll (hlimit : 3 ≤ serde.limit) (ds : List Dismissal) :
    Ours (dismissAll serde none ds) ∧ Muting ds (entriesOf serde (dismissAll serde none ds)) := by
  induction ds using List.reverseRecOn with
  | nil => exact ⟨.inl rfl, ⟨List.nodup_nil, by simp [dismissAll, entriesOf, loadDismissed],
      fun k t ht => by cases ht⟩⟩
  | append_singleton ds d ih =>
    obtain ⟨hours, hmuting⟩ := ih
    rw [dismissAll_append]
    rcases dismiss_eq hlimit hours d with ⟨hd, heq⟩ | ⟨hd, e, heq⟩
    · rw [heq]
      refine ⟨.inr ⟨_, rfl⟩, ?_⟩
      rw [entriesOf, loadDismissed_written hlimit]
      exact hmuting.update hd
    · rw [heq]
      exact ⟨hours, hmuting.failed hd⟩

theorem qualifies_iff {K : Type} [LinearOrder K] {quot : Nat → Nat → K} {minConfidence : K}
    {dismissed : List Pick} {observations : List Observation} {k : Pick} :
    Qualifies quot minConfidence dismissed observations k ↔
      Qualifies quot minConfidence [] observations k ∧ k ∉ dismissed :=
  ⟨fun h => ⟨⟨h.repeated, h.counted, h.confident, List.not_mem_nil⟩, h.active⟩,
    fun ⟨h, hk⟩ => ⟨h.repeated, h.counted, h.confident, hk⟩⟩

/-- The list without the muted tuples. -/
theorem mem_aggregate_muted {K : Type} [LinearOrder K] {quot : Nat → Nat → K} {minConfidence : K}
    {order : IterationOrder (Pick × Nat × Nat)} {dismissed : List Pick}
    {observations : List Observation} {s : Suggestion K} :
    s ∈ aggregate quot minConfidence order dismissed observations ↔
      s ∈ aggregate quot minConfidence order [] observations ∧ s.pick ∉ dismissed := by
  rw [mem_aggregate_iff, mem_aggregate_iff]
  constructor
  · rintro ⟨k, hk, rfl⟩
    obtain ⟨hk, hactive⟩ := qualifies_iff.mp hk
    exact ⟨⟨k, hk, rfl⟩, hactive⟩
  · rintro ⟨⟨k, hk, rfl⟩, hactive⟩
    exact ⟨k, qualifies_iff.mpr ⟨hk, hactive⟩, rfl⟩

/-- **A dismissal lasts thirty days.**  After any calls, each of which succeeds unless a step of its
fails, the file has one entry for a tuple at most, and from then on the tuples that are muted are
the ones whose last dismissal is at most thirty days ago. -/
theorem dismissals_last (hlimit : 3 ≤ serde.limit) (ds : List Dismissal) :
    ((entriesOf serde (dismissAll serde none ds)).map DismissedSuggestion.pick).Nodup ∧
      (∀ pre d post, ds = pre ++ d :: post →
        ((dismiss serde d (dismissAll serde none pre)).1 = .ok () ↔ d.applied = true)) ∧
      ∀ now, (∀ r ∈ readings ds, r ≤ now) →
        (∀ k, k ∈ activeDismissals (entriesOf serde (dismissAll serde none ds)) now ↔
          Muted ds now k) ∧
        ∀ (K : Type) [LinearOrder K] (quot : Nat → Nat → K) (minConfidence : K)
          (order : IterationOrder (Pick × Nat × Nat)) (observations : List Observation),
          ∃ suggestions, listSuggestions serde quot minConfidence order (.ok observations) none
              (dismissAll serde none ds) now = .ok suggestions ∧
            ∀ s, s ∈ suggestions ↔
              s ∈ aggregate quot minConfidence order [] observations ∧ ¬ Muted ds now s.pick := by
  obtain ⟨hours, hmuting⟩ := muting_dismissAll hlimit ds
  refine ⟨hmuting.nodup, fun pre d post _ => ?_, fun now hnow => ?_⟩
  · rcases dismiss_eq hlimit (muting_dismissAll hlimit pre).1 d with ⟨hd, heq⟩ | ⟨hd, e, heq⟩
    · rw [heq]
      exact iff_of_true rfl hd
    · rw [heq, hd]
      exact iff_of_false (fun h => by cases h) Bool.false_ne_true
  · have hactive := hmuting.mem_active hnow
    refine ⟨hactive, fun K _ quot minConfidence order observations => ?_⟩
    refine ⟨_, by rw [listSuggestions, hours.load hlimit], fun s => ?_⟩
    rw [mem_aggregate_muted, hactive]

end Runs

/-- Arc is dismissed for `github.com`, and Safari after it. -/
def someDismissals : List Dismissal :=
  [⟨"github.com", "company.thebrowser.Browser", none, 5, 6, none, none⟩,
    ⟨"github.com", "com.apple.Safari", none, 2592000004, 2592000005, none, none⟩]

/-- The first of them is in the last millisecond of its term. -/
theorem dismissals_last_someDismissals :
    ("github.com", "company.thebrowser.Browser", none) ∈ activeDismissals
      (entriesOf someReader (dismissAll someReader none someDismissals)) 2592000005 := by
  have hnow : (readings someDismissals).all (fun r => decide (r ≤ 2592000005)) = true := by decide
  have hread : ∀ r ∈ readings someDismissals, r ≤ 2592000005 :=
    fun r hr => of_decide_eq_true (List.all_eq_true.mp hnow r hr)
  exact (((dismissals_last (by decide) someDismissals).2.2 2592000005 hread).1 _).mpr
    ⟨5, by decide, by decide⟩

end LinkPilot.Observations
