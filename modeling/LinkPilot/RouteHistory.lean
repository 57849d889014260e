import LinkPilot.Daemon
import Mathlib.Data.List.Induction

/-!
# The ring buffer of the history

`crates/core/src/history.rs`: the records that are kept, by the capacity.

* `inner_log` — a buffer that can hold a record keeps the last ones.
* `inner_log_zero` — a buffer without room keeps them all: it is full only while it is empty.
* `bounded_iff` — when the history is bounded, and read newest first.
-/

set_option autoImplicit false

namespace LinkPilot

namespace RouteHistory

/-- `RouteHistory::len`. -/
def len (h : RouteHistory) : Nat := h.inner.length

/-- A record is logged behind the last `capacity - 1` ones. -/
theorem inner_log {h : RouteHistory} (hcapacity : 0 < h.capacity) {records : List RouteRecord}
    (hinner : h.inner = records.drop (records.length - h.capacity)) (r : RouteRecord) :
    (h.log r).inner = (records ++ [r]).drop (records.length + 1 - h.capacity) := by
  have hlength : h.inner.length = min records.length h.capacity := by
    simp [hinner]
    omega
  simp only [RouteHistory.log]
  by_cases hfull : h.inner.length = h.capacity
  · have hle : records.length + 1 - h.capacity ≤ records.length := by omega
    rw [if_pos hfull, List.drop_append_of_le_length hle, hinner, List.drop_drop]
    congr 2
    omega
  · have hnone : records.length + 1 - h.capacity = 0 := by omega
    have hzero : records.length - h.capacity = 0 := by omega
    rw [if_neg hfull, hnone, List.drop_zero, hinner, hzero, List.drop_zero]

theorem inner_log_zero {h : RouteHistory} (hcapacity : h.capacity = 0) (r : RouteRecord) :
    (h.log r).inner = h.inner ++ [r] := by
  simp only [RouteHistory.log]
  split
  · rename_i hfull
    -- what is evicted from an empty buffer is nothing
    rw [hcapacity, List.length_eq_zero_iff] at hfull
    rw [hfull]
    rfl
  · rfl

/-- The history after the records were logged. -/
def logAll (capacity : Nat) (records : List RouteRecord) : RouteHistory :=
  records.foldl RouteHistory.log (withCapacity capacity)

theorem logAll_append (capacity : Nat) (records : List RouteRecord) (r : RouteRecord) :
    logAll capacity (records ++ [r]) = (logAll capacity records).log r :=
  List.foldl_append

theorem capacity_logAll (capacity : Nat) (records : List RouteRecord) :
    (logAll capacity records).capacity = capacity := by
  induction records using List.reverseRecOn with
  | nil => rfl
  | append_singleton records r ih =>
    rw [logAll_append]
    exact ih

theorem inner_logAll {capacity : Nat} (h : 0 < capacity) (records : List RouteRecord) :
    (logAll capacity records).inner = records.drop (records.length - capacity) := by
  induction records using List.reverseRecOn with
  | nil => exact List.drop_nil.symm
  | append_singleton records r ih =>
    have hcapacity := capacity_logAll capacity records
    have hlog := @inner_log (logAll capacity records) (by rwa [hcapacity]) records
      (by rwa [hcapacity]) r
    rw [logAll_append, hlog, hcapacity, List.length_append]
    rfl

theorem inner_logAll_zero (records : List RouteRecord) : (logAll 0 records).inner = records := by
  induction records using List.reverseRecOn with
  | nil => rfl
  | append_singleton records r ih =>
    rw [logAll_append, inner_log_zero (capacity_logAll 0 records), ih]

/-- At most `capacity` records, and the last of them first. -/
def Bounded (capacity : Nat) (records : List RouteRecord) : Prop :=
  (logAll capacity records).len ≤ capacity ∧
    ∀ limit, (logAll capacity records).recent limit =
      records.reverse.take (min limit (min capacity records.length))

theorem bounded_of_pos {capacity : Nat} (h : 0 < capacity) (records : List RouteRecord) :
    Bounded capacity records := by
  unfold Bounded len recent
  rw [inner_logAll h]
  refine ⟨by rw [List.length_drop]; omega, fun limit => ?_⟩
  rw [List.reverse_drop, List.take_take]
  congr 1
  omega

/-- **A bounded log, newest first.** -/
theorem bounded_iff (capacity : Nat) (records : List RouteRecord) :
    Bounded capacity records ↔ 0 < capacity ∨ records = [] := by
  constructor
  · rintro ⟨hlen, -⟩
    rcases Nat.eq_zero_or_pos capacity with rfl | hpos
    · rw [len, inner_logAll_zero, Nat.le_zero, List.length_eq_zero_iff] at hlen
      exact .inr hlen
    · exact .inl hpos
  · rintro (hpos | rfl)
    · exact bounded_of_pos hpos records
    · exact ⟨Nat.zero_le _, fun limit => by simp [recent, logAll, withCapacity]⟩

/-- One record in a history of capacity zero. -/
theorem not_bounded_zero : ¬ Bounded 0 [⟨1, ⟨"https://example.com", ⟨.system, none, none, none, none⟩,
    none, none⟩, .allow "test", none, none⟩] := by
  rintro ⟨hlen, -⟩
  rw [len, inner_logAll_zero] at hlen
  exact absurd hlen (by decide)

end RouteHistory

end LinkPilot
