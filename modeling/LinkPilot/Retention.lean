import LinkPilot.ObservationLog
import LinkPilot.Lib.Mutex

/-!
# Retention

`retain_within` of `crates/core/src/observations.rs`.  It lists the log, and rewrites it when an
observation is too old: with the observations that it has read, in its own spelling.

* `retainWithin_fresh`, `retainWithin_error` — when nothing is too old, and when the call fails, the
  log stays as it is.
* `removes_iff` — when a call takes the old observations out and leaves every other line.
* `recorded_kept` — no observation is lost to a call that runs beside its `record`.
* `exec_call` — a call that takes the free mutex can return, with its whole effect.
-/

set_option autoImplicit false

namespace LinkPilot.Observations

open Serde Interleaving

/-- `now_ms().saturating_sub(u64::from(days) * MS_PER_DAY)`; the product is below `2 ^ 64`. -/
def cutoff (days : UInt32) (now : Nat) : Nat := now - days.toNat * msPerDay

/-- The steps that can fail: opening the log, and those of `write_atomic`. -/
structure Faults where
  denied : Option IoError
  write : Option IoError

/-- `write_atomic`.  The rename is the last step, so a failure leaves the file. -/
def writeAtomic (fault : Option IoError) (contents : List UInt8) (file : Option (List UInt8)) :
    Except IoError Unit × Option (List UInt8) :=
  match fault with
  | some e => (.error e, file)
  | none => (.ok (), some contents)

/-- The bytes that are written for observations. -/
def encode (observations : List Observation) : List UInt8 :=
  observations.flatMap fun o => o.toJson.toVec ++ [10]

section Retain

variable (serde : SerdeJson)

/-- `retain_within` as far as `write_atomic`: the bytes to write, if there are any. -/
def rewritten (days : Option UInt32) (now : Nat) (denied : Option IoError)
    (log : Option (List UInt8)) : Except IoError (Option (List UInt8)) :=
  match days with
  | none => .ok none
  | some days =>
    match listObservations serde denied log with
    | .error e => .error e
    | .ok observations =>
      let kept := observations.filter fun o => cutoff days now ≤ o.timestampMs
      if kept.length = observations.length then .ok none else .ok (some (encode kept))

/-- `retain_within`. -/
def retainWithin (days : Option UInt32) (now : Nat) (faults : Faults) (log : Option (List UInt8)) :
    Except IoError Unit × Option (List UInt8) :=
  match rewritten serde days now faults.denied log with
  | .error e => (.error e, log)
  | .ok none => (.ok (), log)
  | .ok (some buf) => writeAtomic faults.write buf log

/-! ## What a call should do -/

/-- The lines of the log; there are none when there is no file. -/
def linesOf (log : Option (List UInt8)) : List (List UInt8) := Lines.lines 10 (log.getD [])

/-- A line that is an observation from before the cutoff. -/
def tooOld (days : Option UInt32) (now : Nat) (line : List UInt8) : Bool :=
  match days with
  | none => false
  | some days => (parseLine serde line).any fun o => o.timestampMs < cutoff days now

/-- What is too old is taken out, and nothing else happens. -/
structure Removes (days : Option UInt32) (now : Nat) (faults : Faults) (log : Option (List UInt8)) :
    Prop where
  lines : (retainWithin serde days now faults log).1 = .ok () →
    linesOf (retainWithin serde days now faults log).2 =
      (linesOf log).filter fun l => !tooOld serde days now l
  again : (retainWithin serde days now faults log).1 = .ok () → ∀ faults',
    (retainWithin serde days now faults' (retainWithin serde days now faults log).2).2 =
      (retainWithin serde days now faults log).2
  error : ∀ e, (retainWithin serde days now faults log).1 = .error e →
    (retainWithin serde days now faults log).2 = log

/-- The line is what `record` writes for its observation. -/
def Written (line : List UInt8) : Prop :=
  ∃ o, parseLine serde line = some o ∧ line = o.toJson.toVec

/-- The log cannot be read. -/
def Unreadable (denied : Option IoError) (log : Option (List UInt8)) : Prop :=
  denied.isSome = true ∨ (Json.fromUtf8 (log.getD [])).isSome = false

/-- The call fails, or nothing is too old, or every line that stays is one that `record` writes. -/
def Spares (days : Option UInt32) (now : Nat) (faults : Faults) (log : Option (List UInt8)) : Prop :=
  Unreadable faults.denied log ∨ faults.write.isSome = true ∨
    (∀ l ∈ linesOf log, tooOld serde days now l = false) ∨
    ∀ l ∈ linesOf log, tooOld serde days now l = false → Written serde l

variable {serde} {days : Option UInt32} {now : Nat} {faults : Faults} {log : Option (List UInt8)}

theorem listObservations_getD (log : Option (List UInt8)) :
    listObservations serde none log =
      if (Json.fromUtf8 (log.getD [])).isSome then .ok (observationsOf serde (log.getD []))
      else .error .invalidData := by
  cases log with
  | none => exact (@listObservations_eq serde []).symm ▸ rfl
  | some bytes => exact listObservations_eq bytes

/-- The observations that stay. -/
def keptOf (serde : SerdeJson) (d : UInt32) (now : Nat) (log : Option (List UInt8)) :
    List Observation :=
  (observationsOf serde (log.getD [])).filter fun o => cutoff d now ≤ o.timestampMs

theorem length_filter_iff {ls : List (List UInt8)} {c : Nat} :
    ((ls.filterMap (parseLine serde)).filter fun o => c ≤ o.timestampMs).length =
        (ls.filterMap (parseLine serde)).length ↔
      ∀ l ∈ ls, ((parseLine serde l).any fun o => o.timestampMs < c) = false := by
  rw [List.length_filter_eq_length_iff]
  constructor
  · intro h l hl
    cases hline : parseLine serde l with
    | none => rfl
    | some o =>
      have hc := of_decide_eq_true (h o (List.mem_filterMap.mpr ⟨l, hl, hline⟩))
      exact decide_eq_false (Nat.not_lt.mpr hc)
  · intro h o ho
    obtain ⟨l, hl, hline⟩ := List.mem_filterMap.mp ho
    have hold := h l hl
    rw [hline] at hold
    exact decide_eq_true (Nat.not_lt.mp (of_decide_eq_false hold))

theorem length_keptOf_iff {d : UInt32} :
    (keptOf serde d now log).length = (observationsOf serde (log.getD [])).length ↔
      ∀ l ∈ linesOf log, tooOld serde (some d) now l = false :=
  length_filter_iff

theorem rewritten_cases (d : UInt32) (now : Nat) (denied : Option IoError)
    (log : Option (List UInt8)) :
    ((∃ e, rewritten serde (some d) now denied log = .error e) ∧ Unreadable denied log) ∨
      (rewritten serde (some d) now denied log = .ok none ∧
        ∀ l ∈ linesOf log, tooOld serde (some d) now l = false) ∨
      (rewritten serde (some d) now denied log = .ok (some (encode (keptOf serde d now log))) ∧
        ¬ Unreadable denied log ∧ ¬ ∀ l ∈ linesOf log, tooOld serde (some d) now l = false) := by
  cases denied with
  | some e => exact .inl ⟨⟨e, rfl⟩, .inl rfl⟩
  | none =>
    unfold rewritten Unreadable
    rw [listObservations_getD]
    by_cases hutf8 : (Json.fromUtf8 (log.getD [])).isSome = true
    · simp only [if_pos hutf8]
      have hreadable : ¬ ((none : Option IoError).isSome = true ∨
          (Json.fromUtf8 (log.getD [])).isSome = false) := by
        simp [hutf8]
      by_cases hlength : (keptOf serde d now log).length = (observationsOf serde (log.getD [])).length
      · exact .inr (.inl ⟨if_pos hlength, length_keptOf_iff.mp hlength⟩)
      · exact .inr (.inr ⟨if_neg hlength, hreadable, fun h => hlength (length_keptOf_iff.mpr h)⟩)
    · simp only [if_neg hutf8]
      exact .inl ⟨⟨_, rfl⟩, .inr (Bool.eq_false_iff.mpr hutf8)⟩

theorem split_encode (os : List Observation) :
    Lines.split 10 (encode os) = (os.map fun o => o.toJson.toVec, []) := by
  have hline : ∀ l ∈ os.map fun o => o.toJson.toVec, 10 ∉ l := by
    intro l hl
    obtain ⟨o, -, rfl⟩ := List.mem_map.mp hl
    exact Json.not_mem_toVec o.plain_toJson
  have hjoin : encode os = Lines.join 10 (os.map fun o => o.toJson.toVec) ++ [] := by
    simp [encode, Lines.join, List.flatMap_map]
  rw [hjoin, Lines.split_join hline]
  exact congrArg (·, []) (List.append_nil _)

theorem lines_encode (os : List Observation) :
    Lines.lines 10 (encode os) = os.map fun o => o.toJson.toVec := by
  unfold Lines.lines Lines.openLine Lines.closed Lines.torn
  rw [split_encode]
  exact List.append_nil _

/-- The time of an observation that was read is a `u64`. -/
theorem timestamp_lt {line : List UInt8} {o : Observation} (h : parseLine serde line = some o) :
    o.timestampMs < 18446744073709551616 := by
  obtain ⟨j, -, hj⟩ := Option.bind_eq_some_iff.mp h
  obtain ⟨-, hdec⟩ := Json.fromStr_eq_some_iff.mp hj
  obtain ⟨f, -, hf⟩ := Option.bind_eq_some_iff.mp hdec
  have hf := Fields.read_eq_some hf
  obtain ⟨t, ht, hf⟩ := Option.bind_eq_some_iff.mp hf
  obtain ⟨o', -, ht⟩ := Option.bind_eq_some_iff.mp ht
  obtain ⟨j', -, ht⟩ := Option.bind_eq_some_iff.mp ht
  have hlt : t < 18446744073709551616 := by
    unfold u64 at ht
    split at ht
    · split at ht
      · cases ht
        assumption
      · cases ht
    · cases ht
  simp only [Option.bind_eq_bind, Option.bind_eq_some_iff] at hf
  obtain ⟨host, -, app, -, browser, -, profile, -, ho⟩ := hf
  cases ho
  exact hlt

theorem parseLine_recorded (hlimit : 2 ≤ serde.limit) (o : Recorded) :
    parseLine serde o.val.toJson.toVec = some o.val :=
  (parseLine_append hlimit [] o).trans (if_pos (by decide))

theorem parseLine_toVec (hlimit : 2 ≤ serde.limit) {line : List UInt8} {o : Observation}
    (h : parseLine serde line = some o) : parseLine serde o.toJson.toVec = some o :=
  parseLine_recorded hlimit ⟨o, timestamp_lt h⟩

theorem length_map_filter_le (ms : List (List UInt8)) (c : Nat) :
    (((ms.filterMap (parseLine serde)).filter fun o => c ≤ o.timestampMs).map
      fun o => o.toJson.toVec).length ≤
      (ms.filter fun l => !(parseLine serde l).any fun o => o.timestampMs < c).length := by
  induction ms with
  | nil => exact Nat.le_refl _
  | cons l ms ih =>
    rw [List.length_map] at ih ⊢
    cases hl : parseLine serde l with
    | none =>
      rw [List.filterMap_cons_none hl, List.filter_cons, hl]
      exact Nat.le_succ_of_le ih
    | some o =>
      rw [List.filterMap_cons_some hl, List.filter_cons, List.filter_cons, hl]
      by_cases hc : c ≤ o.timestampMs
      · have hlt : ¬ o.timestampMs < c := Nat.not_lt.mpr hc
        simpa [hc, hlt] using ih
      · have hlt : o.timestampMs < c := Nat.not_le.mp hc
        simpa [hc, hlt] using ih

/-- The lines that stay are the ones that are written iff they are written so. -/
theorem filter_eq_map_iff {ls : List (List UInt8)} {c : Nat} :
    (ls.filter fun l => !(parseLine serde l).any fun o => o.timestampMs < c) =
        (((ls.filterMap (parseLine serde)).filter fun o => c ≤ o.timestampMs).map
          fun o => o.toJson.toVec) ↔
      ∀ l ∈ ls, ((parseLine serde l).any fun o => o.timestampMs < c) = false → Written serde l := by
  induction ls with
  | nil => simp
  | cons l ls ih =>
    rw [List.forall_mem_cons, ← ih, List.filter_cons]
    cases hl : parseLine serde l with
    | none =>
      rw [List.filterMap_cons_none hl]
      constructor
      · intro h
        have hle := @length_map_filter_le serde ls c
        rw [← h] at hle
        simp at hle
      · rintro ⟨hwritten, -⟩
        obtain ⟨o, ho, -⟩ := hwritten rfl
        rw [hl] at ho
        cases ho
    | some o =>
      rw [List.filterMap_cons_some hl, List.filter_cons]
      by_cases hc : c ≤ o.timestampMs
      · have hlt : ¬ o.timestampMs < c := Nat.not_lt.mpr hc
        simp only [Option.any_some, hc, hlt, decide_true, decide_false, Bool.not_false, if_true,
          List.map_cons, List.cons.injEq, forall_const]
        refine and_congr_left fun _ => ⟨fun h => ⟨o, hl, h⟩, ?_⟩
        rintro ⟨o', ho', h⟩
        rw [hl] at ho'
        cases ho'
        exact h
      · have hlt : o.timestampMs < c := Nat.not_le.mp hc
        simp [hc, hlt]

theorem not_tooOld_encode (hlimit : 2 ≤ serde.limit) {d : UInt32} :
    ∀ l ∈ linesOf (some (encode (keptOf serde d now log))), tooOld serde (some d) now l = false := by
  intro l hl
  rw [linesOf, Option.getD_some, lines_encode] at hl
  obtain ⟨o, ho, rfl⟩ := List.mem_map.mp hl
  obtain ⟨hread, hkept⟩ := List.mem_filter.mp ho
  obtain ⟨l', -, hl'⟩ := List.mem_filterMap.mp hread
  show (parseLine serde o.toJson.toVec).any _ = false
  rw [parseLine_toVec hlimit hl', Option.any_some]
  exact decide_eq_false (Nat.not_lt.mpr (of_decide_eq_true hkept))

/-- **What a call does.** -/
theorem retainWithin_cases (days : Option UInt32) (now : Nat) (faults : Faults)
    (log : Option (List UInt8)) :
    (∃ e, retainWithin serde days now faults log = (.error e, log) ∧
        (Unreadable faults.denied log ∨ faults.write.isSome = true)) ∨
      (retainWithin serde days now faults log = (.ok (), log) ∧
        ∀ l ∈ linesOf log, tooOld serde days now l = false) ∨
      (∃ d, days = some d ∧
        retainWithin serde days now faults log = (.ok (), some (encode (keptOf serde d now log))) ∧
        ¬ Unreadable faults.denied log ∧ faults.write = none ∧
        ¬ ∀ l ∈ linesOf log, tooOld serde days now l = false) := by
  unfold retainWithin
  cases days with
  | none => exact .inr (.inl ⟨rfl, fun _ _ => rfl⟩)
  | some d =>
    rcases @rewritten_cases serde d now faults.denied log with
      ⟨⟨e, he⟩, hcause⟩ | ⟨hnone, hfresh⟩ | ⟨hsome, hreadable, hold⟩
    · exact .inl ⟨e, by rw [he], .inl hcause⟩
    · exact .inr (.inl ⟨by rw [hnone], hfresh⟩)
    · rw [hsome]
      cases hwrite : faults.write with
      | some e => exact .inl ⟨e, rfl, .inr rfl⟩
      | none => exact .inr (.inr ⟨d, rfl, rfl, hreadable, rfl, hold⟩)

/-- A log without old lines is left as it is. -/
theorem retainWithin_fresh (h : ∀ l ∈ linesOf log, tooOld serde days now l = false)
    (faults : Faults) : (retainWithin serde days now faults log).2 = log := by
  rcases @retainWithin_cases serde days now faults log with
    ⟨e, heq, -⟩ | ⟨heq, -⟩ | ⟨d, -, -, -, -, hold⟩
  · rw [heq]
  · rw [heq]
  · exact absurd h hold

/-- A failed call leaves the log as it is. -/
theorem retainWithin_error {e : IoError} (h : (retainWithin serde days now faults log).1 = .error e) :
    (retainWithin serde days now faults log).2 = log := by
  rcases @retainWithin_cases serde days now faults log with
    ⟨e', heq, -⟩ | ⟨heq, -⟩ | ⟨d, -, heq, -⟩
  · rw [heq]
  · rw [heq]
  · rw [heq] at h
    cases h

/-- A second call at the same time does nothing. -/
theorem retainWithin_again (hlimit : 2 ≤ serde.limit) (faults' : Faults)
    (h : (retainWithin serde days now faults log).1 = .ok ()) :
    (retainWithin serde days now faults' (retainWithin serde days now faults log).2).2 =
      (retainWithin serde days now faults log).2 := by
  rcases @retainWithin_cases serde days now faults log with
    ⟨e, heq, -⟩ | ⟨heq, hfresh⟩ | ⟨d, rfl, heq, -⟩
  · rw [heq] at h
    cases h
  · rw [heq]
    exact retainWithin_fresh hfresh faults'
  · rw [heq]
    exact retainWithin_fresh (not_tooOld_encode hlimit) faults'

theorem linesOf_encode_iff {d : UInt32} :
    (linesOf (some (encode (keptOf serde d now log))) =
        (linesOf log).filter fun l => !tooOld serde (some d) now l) ↔
      ∀ l ∈ linesOf log, tooOld serde (some d) now l = false → Written serde l := by
  rw [linesOf, Option.getD_some, lines_encode, eq_comm]
  exact filter_eq_map_iff

/-- **When retention removes what is too old, and nothing else.** -/
theorem removes_iff (hlimit : 2 ≤ serde.limit) (days : Option UInt32) (now : Nat)
    (faults : Faults) (log : Option (List UInt8)) :
    Removes serde days now faults log ↔ Spares serde days now faults log := by
  have hrest : Removes serde days now faults log ↔
      ((retainWithin serde days now faults log).1 = .ok () →
        linesOf (retainWithin serde days now faults log).2 =
          (linesOf log).filter fun l => !tooOld serde days now l) :=
    ⟨Removes.lines, fun h => ⟨h, fun hok faults' => retainWithin_again hlimit faults' hok,
      fun _ => retainWithin_error⟩⟩
  rw [hrest]
  rcases @retainWithin_cases serde days now faults log with
    ⟨e, heq, hcause⟩ | ⟨heq, hfresh⟩ | ⟨d, rfl, heq, hreadable, hwrite, hold⟩
  · rw [heq]
    refine iff_of_true (fun h => by cases h) ?_
    rcases hcause with hread | hwrite
    exacts [.inl hread, .inr (.inl hwrite)]
  · rw [heq]
    refine iff_of_true (fun _ => ?_) (.inr (.inr (.inl hfresh)))
    exact (List.filter_eq_self.mpr fun l hl => by rw [hfresh l hl]; rfl).symm
  · rw [heq]
    have hspares : Spares serde (some d) now faults log ↔
        ∀ l ∈ linesOf log, tooOld serde (some d) now l = false → Written serde l := by
      unfold Spares
      simp [hreadable, hwrite, hold]
    rw [hspares, ← linesOf_encode_iff]
    simp only [forall_const]

end Retain

/-! ## Calls side by side -/

/-- A call of `record` or of `retain_within`. -/
inductive Call where
  | record (append : Append)
  | retain (days : Option UInt32) (now : Nat) (faults : Faults)

/-- Where a call is that holds the mutex. -/
inductive Point where
  | openLog (line : List UInt8)
  | append (rest : List UInt8)
  | list (days : Option UInt32) (now : Nat) (faults : Faults)
  | install (fault : Option IoError) (buf : List UInt8)
  | finished

/-- The moves of a call.  A line is appended byte by byte; a rewrite replaces the log at once. -/
def moveOf (serde : SerdeJson) : Point → Option (List UInt8) → Option (Point × Option (List UInt8))
  | .openLog line, log => some (.append line, some (log.getD []))
  | .append [], _ => none
  | .append (b :: rest), log => some (.append rest, some (log.getD [] ++ [b]))
  | .list days now faults, log =>
    match rewritten serde days now faults.denied log with
    | .ok (some buf) => some (.install faults.write buf, log)
    | _ => some (.finished, log)
  | .install fault buf, log => some (.finished, (writeAtomic fault buf log).2)
  | .finished, _ => none

def procs (serde : SerdeJson) : Mutex.Procs Call Point (Option (List UInt8)) where
  start
    | .record a => .openLog a.bytes
    | .retain days now faults => .list days now faults
  move := moveOf serde

/-- What a whole call makes of the log. -/
def Call.effect (serde : SerdeJson) : Call → Option (List UInt8) → Option (List UInt8)
  | .record a, log => some (log.getD [] ++ a.bytes)
  | .retain days now faults, log => (retainWithin serde days now faults log).2

/-- The observations that a call may take away: the old ones. -/
def Call.spares : Call → Observation → Bool
  | .retain (some days) now _, o => cutoff days now ≤ o.timestampMs
  | _, _ => true

/-- The observation of a `record` that has returned `Ok`. -/
def Call.adds : Call → List Observation
  | .record ⟨o, none⟩ => [o.val]
  | _ => []

/-- The observations that the calls should leave: those that were recorded, without those that were
too old for a later call. -/
def survivors (calls : List Call) : List Observation :=
  calls.foldl (fun os c => os.filter c.spares ++ c.adds) []

/-- The log of a state. -/
abbrev LogState (ι : Type) : Type := Mutex.State ι Call Point (Option (List UInt8))

/-- A `record` starts on a line of its own. -/
def OwnLine {ι : Type} (s : LogState ι) : Mutex.Event ι Call → Prop
  | .lock _ (.record _) => blank (Lines.torn 10 (s.shared.getD [])) = true
  | _ => True

/-- What the call inside may have taken away already. -/
def LogState.spares {ι : Type} (s : LogState ι) (o : Observation) : Bool :=
  match s.inside with
  | none => true
  | some (_, c, _) => c.spares o

section Calls

variable {serde : SerdeJson} {log log' : Option (List UInt8)}

/-- How far a `record` is. -/
theorem reach_record {a : Append} {p : Point} (h : Mutex.Reach (procs serde) (.record a) log p log') :
    (p = .openLog a.bytes ∧ log' = log) ∨
      ∃ front rest, p = .append rest ∧ a.bytes = front ++ rest ∧
        log' = some (log.getD [] ++ front) := by
  generalize hc : Call.record a = c at h
  induction h with
  | start =>
    subst hc
    exact .inl ⟨rfl, rfl⟩
  | move _ hmove ih =>
    rcases ih with ⟨rfl, rfl⟩ | ⟨front, rest, rfl, hbytes, rfl⟩
    · cases hmove
      exact .inr ⟨[], a.bytes, rfl, rfl, by rw [List.append_nil]⟩
    · cases rest with
      | nil => cases hmove
      | cons b rest =>
        cases hmove
        refine .inr ⟨front ++ [b], rest, rfl, ?_, ?_⟩
        · rw [hbytes, List.append_assoc]
          rfl
        · rw [Option.getD_some, List.append_assoc]

/-- How far a `retain_within` is. -/
theorem reach_retain {days : Option UInt32} {now : Nat} {faults : Faults} {p : Point}
    (h : Mutex.Reach (procs serde) (.retain days now faults) log p log') :
    (p = .list days now faults ∧ log' = log) ∨
      (∃ buf, p = .install faults.write buf ∧ log' = log ∧
        rewritten serde days now faults.denied log = .ok (some buf)) ∨
      (p = .finished ∧ log' = (retainWithin serde days now faults log).2) := by
  generalize hc : Call.retain days now faults = c at h
  induction h with
  | start =>
    subst hc
    exact .inl ⟨rfl, rfl⟩
  | move _ hmove ih =>
    rcases ih with ⟨rfl, rfl⟩ | ⟨buf, rfl, rfl, hbuf⟩ | ⟨rfl, rfl⟩
    · simp only [procs, moveOf] at hmove
      unfold retainWithin
      split at hmove
      · rename_i buf hbuf
        cases hmove
        exact .inr (.inl ⟨buf, rfl, rfl, hbuf⟩)
      · rename_i hnone
        cases hmove
        refine .inr (.inr ⟨rfl, ?_⟩)
        split
        · rfl
        · rfl
        · rename_i buf hbuf
          exact absurd hbuf (hnone buf)
    · cases hmove
      refine .inr (.inr ⟨rfl, ?_⟩)
      rw [retainWithin, hbuf]
    · cases hmove

/-- A call that has no move left has had its whole effect. -/
theorem atomic_effect : Mutex.Atomic (procs serde) (Call.effect serde) := by
  intro c s p u h hmove
  cases c with
  | record a =>
    rcases reach_record h with ⟨rfl, -⟩ | ⟨front, rest, rfl, hbytes, rfl⟩
    · cases hmove
    · cases rest with
      | nil => rw [Call.effect, hbytes, List.append_nil]
      | cons b rest => cases hmove
  | retain days now faults =>
    rcases reach_retain h with ⟨rfl, -⟩ | ⟨buf, rfl, -, -⟩ | ⟨-, rfl⟩
    · simp only [procs, moveOf] at hmove
      split at hmove <;> cases hmove
    · cases hmove
    · rfl

/-- The observations of the lines that are closed. -/
def closedOf (serde : SerdeJson) (log : Option (List UInt8)) : List Observation :=
  (Lines.closed 10 (log.getD [])).filterMap (parseLine serde)

theorem closedOf_sublist (log : Option (List UInt8)) :
    (closedOf serde log).Sublist (observationsOf serde (log.getD [])) := by
  rw [observationsOf_eq]
  exact List.sublist_append_left _ _

theorem closed_append (xs ys : List UInt8) :
    Lines.closed 10 (xs ++ ys) = Lines.closed 10 xs ++ Lines.closed 10 (Lines.torn 10 xs ++ ys) :=
  congrArg Prod.fst (Lines.split_append xs ys)

theorem closedOf_append (log : Option (List UInt8)) (bytes : List UInt8) :
    (closedOf serde log).Sublist (closedOf serde (some (log.getD [] ++ bytes))) := by
  unfold closedOf
  rw [Option.getD_some, closed_append, List.filterMap_append]
  exact List.sublist_append_left _ _

theorem closedOf_record (hlimit : 2 ≤ serde.limit) (o : Recorded)
    (h : blank (Lines.torn 10 (log.getD [])) = true) :
    closedOf serde (some (log.getD [] ++ o.line)) = closedOf serde log ++ [o.val] := by
  have hline : 10 ∉ Lines.torn 10 (log.getD []) ++ o.val.toJson.toVec :=
    List.not_mem_append (Lines.not_mem_torn _) (Json.not_mem_toVec o.val.plain_toJson)
  have hsplit : Lines.closed 10 (Lines.torn 10 (log.getD []) ++ o.line) =
      [Lines.torn 10 (log.getD []) ++ o.val.toJson.toVec] := by
    rw [Recorded.line, ← List.append_assoc]
    exact congrArg Prod.fst (Lines.split_line hline [])
  unfold closedOf
  rw [Option.getD_some, closed_append, hsplit, List.filterMap_append, List.filterMap_cons,
    parseLine_append hlimit, if_pos h]
  rfl

theorem closedOf_encode (hlimit : 2 ≤ serde.limit) {d : UInt32} {now : Nat} :
    closedOf serde (some (encode (keptOf serde d now log))) = keptOf serde d now log := by
  have hread : ∀ o ∈ keptOf serde d now log, parseLine serde o.toJson.toVec = some o := by
    intro o ho
    obtain ⟨l, -, hl⟩ := List.mem_filterMap.mp (List.mem_filter.mp ho).1
    exact parseLine_toVec hlimit hl
  unfold closedOf Lines.closed
  rw [Option.getD_some, split_encode, List.filterMap_map]
  exact (List.filterMap_congr hread).trans List.filterMap_some

/-- **What a whole call leaves of the observations.** -/
theorem sublist_effect (hlimit : 2 ≤ serde.limit) {os : List Observation} {c : Call}
    (hos : os.Sublist (closedOf serde log))
    (hown : ∀ a, c = .record a → blank (Lines.torn 10 (log.getD [])) = true) :
    (os.filter c.spares ++ c.adds).Sublist (closedOf serde (c.effect serde log)) := by
  cases c with
  | record a =>
    have hfilter : os.filter (Call.record a).spares = os := List.filter_eq_self.mpr fun _ _ => rfl
    obtain ⟨o, cut⟩ := a
    rw [hfilter]
    cases cut with
    | none =>
      have hread := closedOf_record hlimit o (hown _ rfl)
      show (os ++ [o.val]).Sublist (closedOf serde (some (log.getD [] ++ o.line)))
      rw [hread]
      exact hos.append (List.Sublist.refl _)
    | some n =>
      show (os ++ []).Sublist _
      rw [List.append_nil]
      exact hos.trans (closedOf_append log _)
  | retain days now faults =>
    show (os.filter _ ++ []).Sublist (closedOf serde (retainWithin serde days now faults log).2)
    rw [List.append_nil]
    rcases @retainWithin_cases serde days now faults log with
      ⟨e, heq, -⟩ | ⟨heq, -⟩ | ⟨d, rfl, heq, -⟩
    · rw [heq]
      exact List.filter_sublist.trans hos
    · rw [heq]
      exact List.filter_sublist.trans hos
    · rw [heq]
      show (os.filter _).Sublist (closedOf serde (some (encode (keptOf serde d now log))))
      rw [closedOf_encode hlimit]
      exact (hos.trans (closedOf_sublist log)).filter _

/-- What holds of the calls that have returned, and of the one inside. -/
def Kept {ι : Type} (serde : SerdeJson) (log : Option (List UInt8)) (s : LogState ι) : Prop :=
  Mutex.Serial (procs serde) (Call.effect serde) log s ∧
    (survivors s.returned).Sublist
      (closedOf serde (Mutex.run (Call.effect serde) log s.returned)) ∧
    ∀ i a p, s.inside = some (i, .record a, p) →
      blank (Lines.torn 10 ((Mutex.run (Call.effect serde) log s.returned).getD [])) = true

theorem Kept.step {ι : Type} [DecidableEq ι] (hlimit : 2 ≤ serde.limit) {s s' : LogState ι}
    {e : Mutex.Event ι Call} (h : Kept serde log s) (hown : OwnLine s e)
    (hstep : Mutex.step (procs serde) s e = some s') : Kept serde log s' := by
  obtain ⟨hserial, hkept, hblank⟩ := h
  refine ⟨hserial.step atomic_effect hstep, ?_⟩
  rcases Mutex.step_cases hstep with ⟨i, c, rfl, hinside, rfl⟩ |
    ⟨i, c, p, p', log', rfl, hinside, -, rfl⟩ | ⟨i, c, p, rfl, hinside, -, rfl⟩
  · rw [Mutex.Serial, hinside] at hserial
    refine ⟨hkept, fun j a p hj => ?_⟩
    cases hj
    rw [← hserial]
    exact hown
  · refine ⟨hkept, fun j a q hj => ?_⟩
    cases hj
    exact hblank i a p hinside
  · refine ⟨?_, fun j a q hj => by cases hj⟩
    show (survivors (s.returned ++ [c])).Sublist
      (closedOf serde (Mutex.run (Call.effect serde) log (s.returned ++ [c])))
    rw [survivors, List.foldl_append, Mutex.run, List.foldl_append]
    refine sublist_effect hlimit hkept fun a ha => ?_
    subst ha
    exact hblank i a p hinside

/-- **No observation is lost to a call beside its `record`.**  In every interleaving of calls under
the mutex the log has what was recorded and is not too old for a later call. -/
theorem recorded_kept {ι : Type} [DecidableEq ι] (hlimit : 2 ≤ serde.limit)
    {es : List (Mutex.Event ι Call)} {s : LogState ι}
    (h : Exec (Mutex.step (procs serde)) OwnLine ⟨log, none, []⟩ es s) :
    ((survivors s.returned).filter s.spares).Sublist (observationsOf serde (s.shared.getD [])) := by
  have hstart : Kept serde log (⟨log, none, []⟩ : LogState ι) :=
    ⟨rfl, List.nil_sublist _, fun _ _ _ hi => by cases hi⟩
  obtain ⟨hserial, hkept, hinside⟩ := h.invariant (I := Kept serde log)
    (fun _ _ _ hI hown hstep => hI.step hlimit hown hstep) hstart
  refine List.Sublist.trans ?_ (closedOf_sublist s.shared)
  obtain ⟨shared, inside, returned⟩ := s
  cases inside with
  | none =>
    have hshared : shared = Mutex.run (Call.effect serde) log returned := hserial
    rw [hshared]
    exact List.filter_sublist.trans hkept
  | some r =>
    obtain ⟨i, c, p⟩ := r
    have hreach : Mutex.Reach (procs serde) c (Mutex.run (Call.effect serde) log returned) p shared :=
      hserial
    cases c with
    | record a =>
      refine List.filter_sublist.trans (hkept.trans ?_)
      rcases reach_record hreach with ⟨-, hshared⟩ | ⟨front, rest, -, -, hshared⟩
      · exact hshared ▸ List.Sublist.refl _
      · exact hshared ▸ closedOf_append _ front
    | retain days now faults =>
      rcases reach_retain hreach with ⟨-, hshared⟩ | ⟨buf, -, hshared, -⟩ | ⟨-, hshared⟩
      · exact hshared ▸ List.filter_sublist.trans hkept
      · exact hshared ▸ List.filter_sublist.trans hkept
      · have heffect := sublist_effect hlimit (c := .retain days now faults) hkept
          (fun a ha => by cases ha)
        rw [show (Call.retain days now faults).adds = [] from rfl, List.append_nil] at heffect
        exact hshared ▸ heffect

/-! ### Calls that return -/

/-- Byte by byte to the end of the line. -/
theorem reach_appended {c : Call} {rest : List UInt8} : ∀ {bytes : List UInt8},
    Mutex.Reach (procs serde) c log (.append rest) (some bytes) →
      Mutex.Reach (procs serde) c log (.append []) (some (bytes ++ rest)) := by
  induction rest with
  | nil =>
    intro bytes h
    rwa [List.append_nil]
  | cons b rest ih =>
    intro bytes h
    rw [List.append_cons]
    exact ih (.move h rfl)

/-- Every call comes to its end. -/
theorem reach_end (c : Call) (log : Option (List UInt8)) :
    ∃ p log', Mutex.Reach (procs serde) c log p log' ∧ (procs serde).move p log' = none := by
  cases c with
  | record a => exact ⟨_, _, reach_appended (.move .start rfl), rfl⟩
  | retain days now faults =>
    cases hbuf : rewritten serde days now faults.denied log with
    | error e =>
      refine ⟨.finished, log, .move .start ?_, rfl⟩
      simp [procs, moveOf, hbuf]
    | ok buf =>
      cases buf with
      | none =>
        refine ⟨.finished, log, .move .start ?_, rfl⟩
        simp [procs, moveOf, hbuf]
      | some buf =>
        refine ⟨.finished, _,
          .move (t := .install faults.write buf) (u := log) (.move .start ?_) rfl, rfl⟩
        simp [procs, moveOf, hbuf]

/-- A call that takes the free mutex can return, and then has had its whole effect. -/
theorem exec_call {ι : Type} [DecidableEq ι] (i : ι) (c : Call) (returned : List Call)
    (hown : ∀ a, c = .record a → blank (Lines.torn 10 (log.getD [])) = true) :
    ∃ es, Exec (Mutex.step (procs serde)) OwnLine (⟨log, none, returned⟩ : LogState ι) es
      ⟨c.effect serde log, none, returned ++ [c]⟩ := by
  obtain ⟨p, log', hreach, hend⟩ := @reach_end serde c log
  have heffect : log' = c.effect serde log := atomic_effect c log p log' hreach hend
  subst heffect
  refine hreach.returns i returned hend ?_ (fun _ => trivial) fun _ => trivial
  cases c with
  | record a => exact hown a rfl
  | retain => trivial

end Calls

/-- **Retention.**  When a call takes out what is too old and nothing else, and that it loses nothing
to the calls beside it. -/
theorem retention {serde : SerdeJson} (hlimit : 2 ≤ serde.limit) :
    (∀ days now faults log,
      Removes serde days now faults log ↔ Spares serde days now faults log) ∧
    ∀ (ι : Type) [DecidableEq ι] (log : Option (List UInt8)) (es : List (Mutex.Event ι Call))
      (s : LogState ι), Exec (Mutex.step (procs serde)) OwnLine ⟨log, none, []⟩ es s →
        ((survivors s.returned).filter s.spares).Sublist
          (observationsOf serde (s.shared.getD [])) :=
  ⟨removes_iff hlimit, fun _ _ _ _ _ h => recorded_kept hlimit h⟩

/-- A pick on the last day that is kept. -/
def laterPick : Recorded :=
  ⟨⟨1000000000000, "github.com", none, "com.google.Chrome", none⟩, by decide⟩

theorem linesOf_append_line (o o' : Recorded) :
    linesOf (some (o.line ++ o'.line)) = [o.val.toJson.toVec, o'.val.toJson.toVec] := by
  have h := @Lines.lines_join _ _ 10 [o.val.toJson.toVec, o'.val.toJson.toVec] (by
    simp [Json.not_mem_toVec o.val.plain_toJson, Json.not_mem_toVec o'.val.plain_toJson])
  simpa [Lines.join, linesOf, Recorded.line] using h

/-- A day of retention takes the old pick out of the log, and not the one that another thread has
recorded before. -/
theorem retention_laterPick :
    Removes someReader (some 1) 1000000000000 ⟨none, none⟩
        (some (somePick.line ++ laterPick.line)) ∧
      ∃ (es : List (Mutex.Event Bool Call)) (s : LogState Bool),
        Exec (Mutex.step (procs someReader)) OwnLine ⟨some somePick.line, none, []⟩ es s ∧
          s.returned = [.record ⟨laterPick, none⟩, .retain (some 1) 1000000000000 ⟨none, none⟩] ∧
          laterPick.val ∈ observationsOf someReader (s.shared.getD []) := by
  obtain ⟨hremoves, hkept⟩ := @retention someReader (by decide)
  constructor
  · refine (hremoves _ _ _ _).mpr (.inr (.inr (.inr fun l hl _ => ?_)))
    rw [linesOf_append_line] at hl
    rcases List.mem_pair.mp hl with rfl | rfl
    · exact ⟨somePick.val, parseLine_recorded (by decide) somePick, rfl⟩
    · exact ⟨laterPick.val, parseLine_recorded (by decide) laterPick, rfl⟩
  · obtain ⟨es, hrecord⟩ := @exec_call someReader (some somePick.line) Bool _ true
      (.record ⟨laterPick, none⟩) [] (fun _ _ => by decide +kernel)
    obtain ⟨es', hretain⟩ := @exec_call someReader _ Bool _ false
      (.retain (some 1) 1000000000000 ⟨none, none⟩) [.record ⟨laterPick, none⟩] nofun
    have hrun := hrecord.append hretain
    refine ⟨_, _, hrun, rfl, (hkept Bool _ _ _ hrun).subset ?_⟩
    decide

/-- A line that is no observation, in front of one that is too old. -/
theorem not_removes :
    ¬ Removes someReader (some 1) 1000000000000 ⟨none, none⟩ (some ([120, 10] ++ somePick.line)) := by
  rw [removes_iff (by decide)]
  have hlines : linesOf (some ([120, 10] ++ somePick.line)) = [[120], somePick.val.toJson.toVec] := by
    have h := Lines.lines_append_line (Json.not_mem_toVec somePick.val.plain_toJson) [120, 10] []
    exact h
  have hread : parseLine someReader somePick.val.toJson.toVec = some somePick.val :=
    parseLine_recorded (by decide) somePick
  have hnone : parseLine someReader [120] = none := by decide
  rintro ((hdenied | hutf8) | hwrite | hfresh | hwritten)
  · cases hdenied
  · exact absurd hutf8 (by decide)
  · cases hwrite
  · have hold := hfresh somePick.val.toJson.toVec (by rw [hlines]; simp)
    rw [tooOld, hread] at hold
    exact absurd hold (by decide)
  · have hx := hwritten [120] (by rw [hlines]; simp) (by rw [tooOld, hnone]; rfl)
    obtain ⟨o, ho, -⟩ := hx
    rw [hnone] at ho
    cases ho

end LinkPilot.Observations
