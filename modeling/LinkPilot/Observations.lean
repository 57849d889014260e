import LinkPilot.Lib.Tally
import Mathlib.Data.Rat.Lemmas
import Mathlib.Data.Prod.Lex
import Mathlib.Order.Bounds.Basic
import Mathlib.Tactic.Linarith

/-!
# Suggestions from what was picked

`aggregate` of `crates/core/src/observations.rs`.  The counters are `u32`, a `HashMap` is iterated in
an order of its own, and the arithmetic of `f32` is a parameter: the quotient of two counters and
the least confidence, in any linear order.

* `mem_aggregate_iff` — which suggestions there are, whatever the order of the log and of the map.
* `aggregate_independent_iff` — their order depends on neither iff no two of them tie.
* `aggregate_exact` — with exact quotients: the thresholds, one suggestion a host, its numbers and
  the order of the list.
-/

set_option autoImplicit false

namespace LinkPilot.Observations

open Tally

/-- `ObservedSourceApp`. -/
structure ObservedSourceApp where
  name : String
  bundleId : Option String
  deriving DecidableEq, Repr

/-- `Observation`. -/
structure Observation where
  timestampMs : Nat
  host : String
  sourceApp : Option ObservedSourceApp
  browserId : String
  profileId : Option String
  deriving DecidableEq, Repr

/-- What was picked for which host: the key of the map, and of a dismissal. -/
abbrev Pick := String × String × Option String

/-- The key of an observation. -/
def Observation.pick (o : Observation) : Pick := (o.host, o.browserId, o.profileId)

/-- `Suggestion`, with the numbers that stand for `f32`. -/
structure Suggestion (K : Type) where
  host : String
  browserId : String
  profileId : Option String
  observationCount : Nat
  confidence : K
  lastObservedMs : Nat
  deriving DecidableEq, Repr

/-- The key a suggestion was made for. -/
def Suggestion.pick {K : Type} (s : Suggestion K) : Pick := (s.host, s.browserId, s.profileId)

/-- `MIN_OBSERVATIONS`. -/
def minObservations : Nat := 3

/-- An order in which a hash map is iterated: some order of its entries. -/
structure IterationOrder (α : Type) where
  run : List α → List α
  perm : ∀ l, (run l).Perm l

/-- The entries for which `p` holds come first. -/
def IterationOrder.front {α : Type} (p : α → Bool) : IterationOrder α where
  run l := l.filter p ++ l.filter fun a => !p a
  perm l := List.filter_append_perm p l

theorem IterationOrder.sublist_front {α : Type} {p : α → Bool} {l : List α} {a b : α} (ha : a ∈ l)
    (hb : b ∈ l) (hpa : p a = true) (hpb : p b = false) :
    List.Sublist [a, b] ((IterationOrder.front p).run l) := by
  have hfirst : a ∈ l.filter p := List.mem_filter.mpr ⟨ha, hpa⟩
  have hrest : b ∈ l.filter fun a => !p a := List.mem_filter.mpr ⟨hb, by rw [hpb]; rfl⟩
  exact (List.singleton_sublist.mpr hfirst).append (List.singleton_sublist.mpr hrest)

/-- `+= 1` on a `u32` of the release build. -/
def increment (n : Nat) : Nat := (n + 1) % 2 ^ 32

/-- What one observation does to the entry of its key in `picks`. -/
def addPick (entry : Nat × Nat) (o : Observation) : Nat × Nat :=
  (increment entry.1, max entry.2 o.timestampMs)

/-- `picks`, in the order of first occurrence. -/
def picks (observations : List Observation) : List (Pick × Nat × Nat) :=
  group Observation.pick (0, 0) addPick observations

/-- `totals`. -/
def totals (observations : List Observation) : List (String × Nat) :=
  group Observation.host 0 (fun n _ => increment n) observations

section Aggregate

variable {K : Type} [LinearOrder K] (quot : Nat → Nat → K) (minConfidence : K)

/-- The closure of `filter_map`. -/
def suggest (totals : List (String × Nat)) (dismissed : List Pick) (entry : Pick × Nat × Nat) :
    Option (Suggestion K) :=
  let ((host, browserId, profileId), (count, last)) := entry
  if count < minObservations then none
  else
    let total := (totals.lookup host).getD 0
    if total = 0 then none
    else
      let confidence := quot count total
      if confidence < minConfidence then none
      else if dismissed.contains (host, browserId, profileId) then none
      else some
        { host := host
          browserId := browserId
          profileId := profileId
          observationCount := count
          confidence := confidence
          lastObservedMs := last }

/-- The comparison of `sort_by`.  A confidence is a quotient of positive numbers, so `partial_cmp`
always answers. -/
def compareSuggestions (a b : Suggestion K) : Ordering :=
  (compare b.confidence a.confidence).then
    ((compare b.observationCount a.observationCount).then
      (compare b.lastObservedMs a.lastObservedMs))

/-- `a` may stand before `b`. -/
def ranks (a b : Suggestion K) : Bool := (compareSuggestions a b).isLE

/-- `out` before it is sorted. -/
def candidates (order : IterationOrder (Pick × Nat × Nat)) (dismissed : List Pick)
    (observations : List Observation) : List (Suggestion K) :=
  (order.run (picks observations)).filterMap
    (suggest quot minConfidence (totals observations) dismissed)

/-- `aggregate`. -/
def aggregate (order : IterationOrder (Pick × Nat × Nat)) (dismissed : List Pick)
    (observations : List Observation) : List (Suggestion K) :=
  if observations.isEmpty then []
  else (candidates quot minConfidence order dismissed observations).mergeSort ranks

end Aggregate

/-! ## The two maps -/

/-- The observations of a key. -/
def picksOf (observations : List Observation) (k : Pick) : List Observation :=
  withKey Observation.pick k observations

/-- The observations of a host. -/
def visitsOf (observations : List Observation) (host : String) : List Observation :=
  withKey Observation.host host observations

/-- The counter of a key. -/
def countOf (observations : List Observation) (k : Pick) : Nat :=
  (picksOf observations k).length % 2 ^ 32

/-- The counter of a host. -/
def totalOf (observations : List Observation) (host : String) : Nat :=
  (visitsOf observations host).length % 2 ^ 32

/-- The latest observation of a key. -/
def lastOf (observations : List Observation) (k : Pick) : Nat :=
  ((picksOf observations k).map Observation.timestampMs).foldl max 0

theorem foldl_increment {α : Type} (l : List α) (n : Nat) :
    l.foldl (fun m _ => increment m) n % 2 ^ 32 = (n + l.length) % 2 ^ 32 := by
  induction l generalizing n with
  | nil => rfl
  | cons a l ih =>
    rw [List.foldl_cons, ih, List.length_cons, increment]
    omega

theorem foldl_increment_zero {α : Type} (l : List α) :
    l.foldl (fun m _ => increment m) 0 = l.length % 2 ^ 32 := by
  have hmod := foldl_increment l 0
  rw [Nat.zero_add] at hmod
  rw [← hmod, Nat.mod_eq_of_lt]
  -- every counter is a `u32`
  induction l using List.reverseRecOn with
  | nil => exact Nat.two_pow_pos 32
  | append_singleton l a _ =>
    rw [List.foldl_append]
    exact Nat.mod_lt _ (Nat.two_pow_pos 32)

theorem foldl_addPick (l : List Observation) (n t : Nat) :
    l.foldl addPick (n, t) =
      (l.foldl (fun m _ => increment m) n, (l.map Observation.timestampMs).foldl max t) := by
  induction l generalizing n t with
  | nil => rfl
  | cons o l ih =>
    rw [List.foldl_cons, addPick, ih]
    rfl

theorem mem_picks_iff {observations : List Observation} {k : Pick} {count last : Nat} :
    (k, count, last) ∈ picks observations ↔
      picksOf observations k ≠ [] ∧ count = countOf observations k ∧
        last = lastOf observations k := by
  unfold picks countOf lastOf picksOf
  rw [mem_group_iff, foldl_addPick, foldl_increment_zero, Prod.mk.injEq]

theorem lookup_totals (observations : List Observation) (host : String) :
    ((totals observations).lookup host).getD 0 = totalOf observations host := by
  unfold totals totalOf visitsOf
  rw [lookup_group, foldl_increment_zero]
  split
  · rename_i hempty
    rw [hempty]
    rfl
  · rfl

theorem countOf_perm {l l' : List Observation} (h : l.Perm l') (k : Pick) :
    countOf l k = countOf l' k := by
  unfold countOf picksOf
  rw [(withKey_perm _ h k).length_eq]

theorem totalOf_perm {l l' : List Observation} (h : l.Perm l') (host : String) :
    totalOf l host = totalOf l' host := by
  unfold totalOf visitsOf
  rw [(withKey_perm _ h host).length_eq]

theorem lastOf_perm {l l' : List Observation} (h : l.Perm l') (k : Pick) :
    lastOf l k = lastOf l' k := by
  unfold lastOf picksOf
  exact ((withKey_perm _ h k).map _).foldl_op_eq

/-! ## Which suggestions there are -/

section Candidates

variable {K : Type} (quot : Nat → Nat → K) (minConfidence : K)
variable (dismissed : List Pick) (observations : List Observation)

/-- The suggestion for a key. -/
def suggestionOf (k : Pick) : Suggestion K where
  host := k.1
  browserId := k.2.1
  profileId := k.2.2
  observationCount := countOf observations k
  confidence := quot (countOf observations k) (totalOf observations k.1)
  lastObservedMs := lastOf observations k

@[simp]
theorem suggestionOf_pick (k : Pick) : (suggestionOf quot observations k).pick = k := rfl

variable [LinearOrder K]

/-- The conditions under which a key is suggested. -/
structure Qualifies (k : Pick) : Prop where
  repeated : minObservations ≤ countOf observations k
  counted : totalOf observations k.1 ≠ 0
  confident : minConfidence ≤ quot (countOf observations k) (totalOf observations k.1)
  active : k ∉ dismissed

theorem suggest_eq_some_iff {totals : List (String × Nat)} {k : Pick} {count last : Nat}
    {s : Suggestion K} :
    suggest quot minConfidence totals dismissed (k, count, last) = some s ↔
      minObservations ≤ count ∧ (totals.lookup k.1).getD 0 ≠ 0 ∧
        minConfidence ≤ quot count ((totals.lookup k.1).getD 0) ∧ k ∉ dismissed ∧
        s = ⟨k.1, k.2.1, k.2.2, count, quot count ((totals.lookup k.1).getD 0), last⟩ := by
  obtain ⟨host, browserId, profileId⟩ := k
  simp only [suggest]
  by_cases hcount : count < minObservations
  · simp [hcount, Nat.not_le.mpr hcount]
  by_cases htotal : (totals.lookup host).getD 0 = 0
  · simp [hcount, htotal]
  by_cases hconf : quot count ((totals.lookup host).getD 0) < minConfidence
  · simp [hcount, htotal, hconf, not_le.mpr hconf]
  by_cases hmuted : (host, browserId, profileId) ∈ dismissed
  · simp [hcount, htotal, hconf, hmuted]
  · simp [hcount, htotal, hconf, hmuted, Nat.not_lt.mp hcount, not_lt.mp hconf, eq_comm]

variable {quot minConfidence dismissed observations} in
theorem Qualifies.mem_picks {k : Pick}
    (h : Qualifies quot minConfidence dismissed observations k) :
    (k, countOf observations k, lastOf observations k) ∈ picks observations := by
  rw [mem_picks_iff]
  refine ⟨fun hempty => ?_, rfl, rfl⟩
  have hrepeated := h.repeated
  rw [countOf, hempty] at hrepeated
  exact absurd hrepeated (by decide)

variable {quot minConfidence dismissed observations} in
theorem Qualifies.suggest_eq {k : Pick}
    (h : Qualifies quot minConfidence dismissed observations k) :
    suggest quot minConfidence (totals observations) dismissed
        (k, countOf observations k, lastOf observations k) =
      some (suggestionOf quot observations k) := by
  rw [suggest_eq_some_iff, lookup_totals]
  exact ⟨h.repeated, h.counted, h.confident, h.active, rfl⟩

variable (order : IterationOrder (Pick × Nat × Nat))

theorem mem_candidates_iff {s : Suggestion K} :
    s ∈ candidates quot minConfidence order dismissed observations ↔
      ∃ k, Qualifies quot minConfidence dismissed observations k ∧
        s = suggestionOf quot observations k := by
  unfold candidates
  rw [List.mem_filterMap]
  constructor
  · rintro ⟨⟨k, count, last⟩, hmem, hs⟩
    obtain ⟨-, rfl, rfl⟩ := mem_picks_iff.mp ((order.perm _).mem_iff.mp hmem)
    rw [suggest_eq_some_iff, lookup_totals] at hs
    obtain ⟨hcount, htotal, hconf, hmuted, rfl⟩ := hs
    exact ⟨k, ⟨hcount, htotal, hconf, hmuted⟩, rfl⟩
  · rintro ⟨k, h, rfl⟩
    exact ⟨_, (order.perm _).mem_iff.mpr h.mem_picks, h.suggest_eq⟩

theorem suggest_pick {totals : List (String × Nat)} {entry : Pick × Nat × Nat}
    {s : Suggestion K} (h : suggest quot minConfidence totals dismissed entry = some s) :
    s.pick = entry.1 := by
  obtain ⟨k, count, last⟩ := entry
  rw [suggest_eq_some_iff] at h
  obtain ⟨-, -, -, -, rfl⟩ := h
  rfl

theorem nodup_candidates :
    (candidates quot minConfidence order dismissed observations).Nodup := by
  have hkeys : (order.run (picks observations)).Pairwise fun e e' => e.1 ≠ e'.1 := by
    rw [((order.perm _).pairwise_iff fun h => h.symm)]
    exact List.pairwise_map.mp (nodup_group _ _ _ observations)
  refine List.Pairwise.filterMap _ (fun e e' hne s hs s' hs' heq => hne ?_) hkeys
  rw [← suggest_pick quot minConfidence dismissed hs,
    ← suggest_pick quot minConfidence dismissed hs', heq]

theorem aggregate_eq :
    aggregate quot minConfidence order dismissed observations =
      (candidates quot minConfidence order dismissed observations).mergeSort ranks := by
  unfold aggregate
  split
  · rename_i hempty
    rw [List.isEmpty_iff.mp hempty]
    have hnil : order.run (picks []) = [] := List.perm_nil.mp (order.perm [])
    rw [candidates, hnil, List.filterMap_nil, List.mergeSort_nil]
  · rfl

/-- **Which suggestions** there are. -/
theorem mem_aggregate_iff {s : Suggestion K} :
    s ∈ aggregate quot minConfidence order dismissed observations ↔
      ∃ k, Qualifies quot minConfidence dismissed observations k ∧
        s = suggestionOf quot observations k := by
  rw [aggregate_eq, List.mem_mergeSort, mem_candidates_iff]

end Candidates

/-! ## The order of the suggestions -/

section Ranking

variable {K : Type}

/-- What the list is sorted by, the greatest first. -/
def rankKey (s : Suggestion K) : K ×ₗ ℕ ×ₗ ℕ :=
  toLex (s.confidence, toLex (s.observationCount, s.lastObservedMs))

variable [LinearOrder K]

theorem ranks_iff {a b : Suggestion K} : ranks a b = true ↔ rankKey b ≤ rankKey a := by
  unfold ranks compareSuggestions rankKey
  rw [Ordering.isLE_then_iff_or, Ordering.isLE_then_iff_or, compare_lt_iff_lt, compare_eq_iff_eq,
    compare_lt_iff_lt, compare_eq_iff_eq, ← Ordering.ne_gt_iff_isLE, ← ne_eq, compare_le_iff_le,
    Prod.Lex.toLex_le_toLex, Prod.Lex.toLex_le_toLex]

theorem ranks_trans (a b c : Suggestion K) (hab : ranks a b = true) (hbc : ranks b c = true) :
    ranks a c = true := by
  rw [ranks_iff] at hab hbc ⊢
  exact le_trans hbc hab

theorem ranks_total (a b : Suggestion K) : (ranks a b || ranks b a) = true := by
  rw [Bool.or_eq_true, ranks_iff, ranks_iff]
  exact le_total _ _

end Ranking

/-! ## Independence of the log's and the map's order -/

section Independence

variable {K : Type} {quot : Nat → Nat → K}

theorem rankKey_suggestionOf_eq_iff {observations : List Observation} {k k' : Pick} :
    rankKey (suggestionOf quot observations k) = rankKey (suggestionOf quot observations k') ↔
      quot (countOf observations k) (totalOf observations k.1) =
          quot (countOf observations k') (totalOf observations k'.1) ∧
        countOf observations k = countOf observations k' ∧
        lastOf observations k = lastOf observations k' := by
  unfold rankKey suggestionOf
  rw [toLex_inj, Prod.mk.injEq, toLex_inj, Prod.mk.injEq]

theorem suggestionOf_perm {observations observations' : List Observation}
    (hperm : observations.Perm observations') (k : Pick) :
    suggestionOf quot observations k = suggestionOf quot observations' k := by
  unfold suggestionOf
  rw [countOf_perm hperm, totalOf_perm hperm, lastOf_perm hperm]

variable [LinearOrder K] (quot) (minConfidence : K)
variable (dismissed : List Pick) (observations : List Observation)

/-- Two different keys that are suggested differ in confidence, count or latest observation. -/
def NoTies : Prop :=
  ∀ k k', Qualifies quot minConfidence dismissed observations k →
    Qualifies quot minConfidence dismissed observations k' → k ≠ k' →
    quot (countOf observations k) (totalOf observations k.1) ≠
        quot (countOf observations k') (totalOf observations k'.1) ∨
      countOf observations k ≠ countOf observations k' ∨
      lastOf observations k ≠ lastOf observations k'

variable {quot minConfidence dismissed observations}

theorem NoTies.eq (h : NoTies quot minConfidence dismissed observations) {k k' : Pick}
    (hk : Qualifies quot minConfidence dismissed observations k)
    (hk' : Qualifies quot minConfidence dismissed observations k')
    (heq : rankKey (suggestionOf quot observations k) =
      rankKey (suggestionOf quot observations k')) : k = k' := by
  by_contra hne
  obtain ⟨hconf, hcount, hlast⟩ := rankKey_suggestionOf_eq_iff.mp heq
  rcases h k k' hk hk' hne with hne | hne | hne
  · exact hne hconf
  · exact hne hcount
  · exact hne hlast

theorem Qualifies.perm {observations' : List Observation} {k : Pick}
    (hperm : observations.Perm observations')
    (h : Qualifies quot minConfidence dismissed observations k) :
    Qualifies quot minConfidence dismissed observations' k where
  repeated := countOf_perm hperm k ▸ h.repeated
  counted := totalOf_perm hperm k.1 ▸ h.counted
  confident := countOf_perm hperm k ▸ totalOf_perm hperm k.1 ▸ h.confident
  active := h.active

/-- The candidates are the same in every run, up to their order. -/
theorem candidates_perm {observations' : List Observation}
    (hperm : observations.Perm observations') (order order' : IterationOrder (Pick × Nat × Nat)) :
    (candidates quot minConfidence order dismissed observations).Perm
      (candidates quot minConfidence order' dismissed observations') := by
  rw [List.perm_ext_iff_of_nodup (nodup_candidates _ _ _ _ _) (nodup_candidates _ _ _ _ _)]
  intro s
  rw [mem_candidates_iff, mem_candidates_iff]
  constructor
  · rintro ⟨k, hk, rfl⟩
    exact ⟨k, hk.perm hperm, suggestionOf_perm hperm k⟩
  · rintro ⟨k, hk, rfl⟩
    exact ⟨k, hk.perm hperm.symm, suggestionOf_perm hperm.symm k⟩

theorem aggregate_eq_of_noTies (h : NoTies quot minConfidence dismissed observations)
    {observations' : List Observation} (hperm : observations.Perm observations')
    (order order' : IterationOrder (Pick × Nat × Nat)) :
    aggregate quot minConfidence order dismissed observations =
      aggregate quot minConfidence order' dismissed observations' := by
  rw [aggregate_eq, aggregate_eq]
  refine sort_perm ranks_trans ranks_total (candidates_perm hperm order order') ?_
  intro a ha b hb hab hba
  obtain ⟨k, hk, rfl⟩ := (mem_candidates_iff ..).mp ha
  obtain ⟨k', hk', rfl⟩ := (mem_candidates_iff ..).mp hb
  rw [ranks_iff] at hab hba
  rw [h.eq hk hk' (le_antisymm hba hab)]

/-- The key's suggestion comes before another when its entry does. -/
theorem Qualifies.sublist_front {k k' : Pick}
    (h : Qualifies quot minConfidence dismissed observations k)
    (h' : Qualifies quot minConfidence dismissed observations k') (hne : k' ≠ k) :
    List.Sublist [suggestionOf quot observations k, suggestionOf quot observations k']
      (candidates quot minConfidence (IterationOrder.front fun e => decide (e.1 = k)) dismissed
        observations) := by
  have hentries : List.Sublist [(k, countOf observations k, lastOf observations k),
      (k', countOf observations k', lastOf observations k')]
      ((IterationOrder.front fun e => decide (e.1 = k)).run (picks observations)) :=
    IterationOrder.sublist_front h.mem_picks h'.mem_picks (decide_eq_true rfl) (decide_eq_false hne)
  have hsub := hentries.filterMap (suggest quot minConfidence (totals observations) dismissed)
  rw [List.filterMap_cons_some h.suggest_eq, List.filterMap_cons_some h'.suggest_eq,
    List.filterMap_nil] at hsub
  exact hsub

/-- **The same list in every run** iff no two suggestions tie: the log may be permuted and the map
iterated in any order. -/
theorem aggregate_independent_iff :
    (∀ observations', observations.Perm observations' →
      ∀ order order' : IterationOrder (Pick × Nat × Nat),
        aggregate quot minConfidence order dismissed observations =
          aggregate quot minConfidence order' dismissed observations') ↔
      NoTies quot minConfidence dismissed observations := by
  constructor
  · intro h k k' hk hk' hne
    by_contra htie
    simp only [not_or, not_not] at htie
    -- each of the two is put in front once
    have hsame := h observations (List.Perm.refl _)
      (IterationOrder.front fun e => decide (e.1 = k))
      (IterationOrder.front fun e => decide (e.1 = k'))
    rw [aggregate_eq, aggregate_eq] at hsame
    have hkey : rankKey (suggestionOf quot observations k) =
        rankKey (suggestionOf quot observations k') := rankKey_suggestionOf_eq_iff.mpr htie
    have hdistinct : suggestionOf quot observations k ≠ suggestionOf quot observations k' :=
      fun heq => hne (congrArg Suggestion.pick heq)
    exact sort_ne_of_tie ranks_trans ranks_total (nodup_candidates _ _ _ _ _) hdistinct
      (ranks_iff.mpr hkey.ge) (ranks_iff.mpr hkey.le) (hk.sublist_front hk' hne.symm)
      (hk'.sublist_front hk hne) hsame
  · intro h observations' hperm order order'
    exact aggregate_eq_of_noTies h hperm order order'

end Independence

/-- The quotient that `f32` approximates. -/
def exactQuot (n m : Nat) : ℚ := n / m

/-- `MIN_CONFIDENCE`. -/
def exactMinConfidence : ℚ := 7 / 10

/-- `arc` picked for the host at the times 1, 2 and 3. -/
def threePicks (host : String) : List Observation :=
  [⟨1, host, none, "arc", none⟩, ⟨2, host, none, "arc", none⟩, ⟨3, host, none, "arc", none⟩]

/-- The suggestion made from it. -/
def unanimous (host : String) : Suggestion ℚ := ⟨host, "arc", none, 3, 1, 3⟩

/-- Two hosts with the same numbers: one list of observations, two lists of suggestions. -/
theorem aggregate_of_tie :
    aggregate exactQuot exactMinConfidence
        (IterationOrder.front fun e => decide (e.1.1 = "a.com")) []
        (threePicks "a.com" ++ threePicks "b.com") = [unanimous "a.com", unanimous "b.com"] ∧
      aggregate exactQuot exactMinConfidence
        (IterationOrder.front fun e => decide (e.1.1 = "b.com")) []
        (threePicks "a.com" ++ threePicks "b.com") = [unanimous "b.com", unanimous "a.com"] := by
  have hranks : ∀ host host', ranks (unanimous host) (unanimous host') = true :=
    fun _ _ => ranks_iff.mpr (le_refl _)
  rw [aggregate_eq, aggregate_eq]
  constructor
  · have hcand : candidates exactQuot exactMinConfidence
        (IterationOrder.front fun e => decide (e.1.1 = "a.com")) []
        (threePicks "a.com" ++ threePicks "b.com") = [unanimous "a.com", unanimous "b.com"] := by
      decide +kernel
    rw [hcand]
    exact List.mergeSort_of_pairwise (List.pairwise_pair.mpr (hranks _ _))
  · have hcand : candidates exactQuot exactMinConfidence
        (IterationOrder.front fun e => decide (e.1.1 = "b.com")) []
        (threePicks "a.com" ++ threePicks "b.com") = [unanimous "b.com", unanimous "a.com"] := by
      decide +kernel
    rw [hcand]
    exact List.mergeSort_of_pairwise (List.pairwise_pair.mpr (hranks _ _))

/-! ## Exact quotients -/

section Exact

variable {dismissed : List Pick} {observations : List Observation}

theorem countOf_eq (hlen : observations.length < 2 ^ 32) (k : Pick) :
    countOf observations k = (picksOf observations k).length := by
  have hle := length_withKey_le Observation.pick k observations
  exact Nat.mod_eq_of_lt (by unfold picksOf; omega)

theorem totalOf_eq (hlen : observations.length < 2 ^ 32) (host : String) :
    totalOf observations host = (visitsOf observations host).length := by
  have hle := length_withKey_le Observation.host host observations
  exact Nat.mod_eq_of_lt (by unfold visitsOf; omega)

theorem host_of_pick {k : Pick} (o : Observation) (h : o.pick = k) : o.host = k.1 :=
  congrArg Prod.fst h

theorem picks_le_visits (observations : List Observation) (k : Pick) :
    (picksOf observations k).length ≤ (visitsOf observations k.1).length :=
  length_withKey_le_of_refines _ host_of_pick observations

theorem picks_add_le_visits (observations : List Observation) {k k' : Pick} (hne : k ≠ k')
    (hhost : k'.1 = k.1) :
    (picksOf observations k).length + (picksOf observations k').length ≤
      (visitsOf observations k.1).length :=
  length_withKey_add_le _ hne host_of_pick (fun o h => (host_of_pick o h).trans hhost) observations

theorem minConfidence_le_iff {n m : Nat} (hm : m ≠ 0) :
    exactMinConfidence ≤ exactQuot n m ↔ 7 * m ≤ 10 * n := by
  have hpos : (0 : ℚ) < m := by exact_mod_cast Nat.pos_of_ne_zero hm
  unfold exactMinConfidence exactQuot
  rw [div_le_div_iff₀ (by norm_num) hpos]
  constructor
  · intro h
    have hcast : 7 * m ≤ n * 10 := by exact_mod_cast h
    omega
  · intro h
    have hcast : 7 * m ≤ n * 10 := by omega
    exact_mod_cast hcast

theorem qualifies_exact_iff (hlen : observations.length < 2 ^ 32) (k : Pick) :
    Qualifies exactQuot exactMinConfidence dismissed observations k ↔
      3 ≤ (picksOf observations k).length ∧
        7 * (visitsOf observations k.1).length ≤ 10 * (picksOf observations k).length ∧
        k ∉ dismissed := by
  have hcount := countOf_eq hlen k
  have htotal := totalOf_eq hlen k.1
  have hle := picks_le_visits observations k
  constructor
  · intro h
    have hrepeated := h.repeated
    have hconfident := h.confident
    rw [hcount] at hrepeated
    rw [minConfidence_le_iff h.counted, hcount, htotal] at hconfident
    exact ⟨hrepeated, hconfident, h.active⟩
  · rintro ⟨hrepeated, hconfident, hactive⟩
    have hcounted : totalOf observations k.1 ≠ 0 := by omega
    refine ⟨hcount ▸ hrepeated, hcounted, ?_, hactive⟩
    rw [minConfidence_le_iff hcounted, hcount, htotal]
    exact hconfident

/-- A share of seven tenths is held by one key of a host. -/
theorem qualifies_host_unique (hlen : observations.length < 2 ^ 32) {k k' : Pick}
    (h : Qualifies exactQuot exactMinConfidence dismissed observations k)
    (h' : Qualifies exactQuot exactMinConfidence dismissed observations k')
    (hhost : k'.1 = k.1) : k = k' := by
  by_contra hne
  obtain ⟨hrepeated, hshare, -⟩ := (qualifies_exact_iff hlen k).mp h
  obtain ⟨-, hshare', -⟩ := (qualifies_exact_iff hlen k').mp h'
  have hsum := picks_add_le_visits observations hne hhost
  rw [hhost] at hshare'
  omega

theorem isGreatest_lastOf {k : Pick} (hne : picksOf observations k ≠ []) :
    IsGreatest {t | ∃ o ∈ picksOf observations k, o.timestampMs = t} (lastOf observations k) := by
  unfold lastOf
  cases hmax : ((picksOf observations k).map Observation.timestampMs).max? with
  | none =>
    rw [List.max?_eq_none_iff, List.map_eq_nil_iff] at hmax
    exact absurd hmax hne
  | some t =>
    rw [List.foldl_max, hmax, Option.getD_some, Nat.zero_max]
    rw [List.max?_eq_some_iff] at hmax
    refine ⟨List.mem_map.mp hmax.1, ?_⟩
    rintro t' ⟨o, ho, rfl⟩
    exact hmax.2 _ (List.mem_map_of_mem ho)

theorem nodup_hosts (hlen : observations.length < 2 ^ 32)
    (order : IterationOrder (Pick × Nat × Nat)) :
    ((aggregate exactQuot exactMinConfidence order dismissed observations).map
      Suggestion.host).Nodup := by
  refine List.Nodup.map_on ?_ ?_
  · intro s hs s' hs' hhost
    obtain ⟨k, hk, rfl⟩ := (mem_aggregate_iff ..).mp hs
    obtain ⟨k', hk', rfl⟩ := (mem_aggregate_iff ..).mp hs'
    rw [qualifies_host_unique hlen hk hk' hhost.symm]
  · rw [aggregate_eq, (List.mergeSort_perm _ _).nodup_iff]
    exact nodup_candidates _ _ _ _ _

theorem pairwise_aggregate {K : Type} [LinearOrder K] (quot : Nat → Nat → K) (minConfidence : K)
    (order : IterationOrder (Pick × Nat × Nat)) :
    (aggregate quot minConfidence order dismissed observations).Pairwise
      fun s s' => rankKey s' ≤ rankKey s := by
  rw [aggregate_eq]
  exact (List.pairwise_mergeSort ranks_trans ranks_total _).imp ranks_iff.mp

/-- **Aggregation is exact**: who is suggested, with which numbers, in which order. -/
theorem aggregate_exact (dismissed : List Pick) (observations : List Observation)
    (order : IterationOrder (Pick × Nat × Nat)) (hlen : observations.length < 2 ^ 32) :
    let out := aggregate exactQuot exactMinConfidence order dismissed observations
    (∀ k, (∃ s ∈ out, s.pick = k) ↔
      3 ≤ (picksOf observations k).length ∧
        7 * (visitsOf observations k.1).length ≤ 10 * (picksOf observations k).length ∧
        k ∉ dismissed) ∧
    (out.map Suggestion.host).Nodup ∧
    (∀ s ∈ out, s.observationCount = (picksOf observations s.pick).length ∧
      s.confidence = exactQuot (picksOf observations s.pick).length
        (visitsOf observations s.host).length ∧
      IsGreatest {t | ∃ o ∈ picksOf observations s.pick, o.timestampMs = t} s.lastObservedMs) ∧
    out.Pairwise fun s s' => rankKey s' ≤ rankKey s := by
  intro out
  refine ⟨fun k => ?_, nodup_hosts hlen order, fun s hs => ?_, pairwise_aggregate _ _ _⟩
  · rw [← qualifies_exact_iff hlen k]
    constructor
    · rintro ⟨s, hs, rfl⟩
      obtain ⟨k, hk, rfl⟩ := (mem_aggregate_iff ..).mp hs
      exact hk
    · intro hk
      exact ⟨_, (mem_aggregate_iff ..).mpr ⟨k, hk, rfl⟩, rfl⟩
  · obtain ⟨k, hk, rfl⟩ := (mem_aggregate_iff ..).mp hs
    have hne : picksOf observations k ≠ [] := by
      intro hempty
      have hrepeated := ((qualifies_exact_iff hlen k).mp hk).1
      rw [hempty] at hrepeated
      exact absurd hrepeated (by decide)
    refine ⟨countOf_eq hlen k, ?_, isGreatest_lastOf hne⟩
    show exactQuot (countOf observations k) (totalOf observations k.1) = _
    rw [countOf_eq hlen, totalOf_eq hlen]
    rfl

theorem aggregate_exact_threePicks :
    ∃ s ∈ aggregate exactQuot exactMinConfidence (IterationOrder.front fun _ => true) []
      (threePicks "a.com"), s.pick = ("a.com", "arc", none) :=
  ((aggregate_exact [] (threePicks "a.com") _ (by decide)).1 _).mpr (by decide)

end Exact

end LinkPilot.Observations
