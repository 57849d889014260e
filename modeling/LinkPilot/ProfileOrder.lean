import LinkPilot.Edits
import LinkPilot.FirefoxProfiles
import LinkPilot.Lib.StableSort
import Mathlib.Data.List.Nodup

/-!
# The order of a browser's profiles

`apply_profile_order` of `crates/core/src/browser.rs`, with the order that `set_profile_order` stores.

* `shows_takeInOrder` — what a saved order shows, and where.
* `takeInOrder_eraseDups` — dropping the repeated ids of an order changes nothing.
* `applyProfileOrder_spec` — the whole of it.
-/

set_option autoImplicit false

namespace LinkPilot

/-- `BTreeMap::get`. -/
def ProfileOrders.get (m : ProfileOrders) (key : String) : Option (List String) :=
  (m.entries.find? fun e => e.1 == key).map Prod.snd

/-! ## `browser.rs` -/

/-- `profiles.into_iter().map(|p| (p.id.clone(), p)).collect()`: of profiles that share an id the
map keeps the last. -/
def collectById (profiles : List BrowserProfile) : List BrowserProfile :=
  profiles.foldl (fun m p => (m.filter fun q => q.id != p.id) ++ [p]) []

/-- The loop over the saved order. -/
def takeInOrder : List String → List BrowserProfile → List BrowserProfile
  | [], _ => []
  | id :: order, m =>
    match m.find? fun p => p.id == id with
    | some p => p :: takeInOrder order (m.filter fun q => q.id != id)
    | none => takeInOrder order m

/-- The comparison of the default sort. -/
def compareDefault (a b : BrowserProfile) : Ordering :=
  (compare b.isDefault a.isDefault).then (compare a.displayName b.displayName)

def sortDefault (profiles : List BrowserProfile) : List BrowserProfile :=
  profiles.mergeSort fun a b => (compareDefault a b).isLE

/-- `apply_profile_order`. -/
def applyProfileOrder (profiles : List BrowserProfile) (order : Option (List String)) :
    List BrowserProfile :=
  match order with
  | none | some [] => sortDefault profiles
  | some order => takeInOrder order (collectById profiles)

/-! ## The default sort -/

/-- Default profiles come first, then names in their order. -/
def DefaultFirst (le : String → String → Prop) (a b : BrowserProfile) : Prop :=
  (a.isDefault = true ∧ b.isDefault = false) ∨
    (a.isDefault = b.isDefault ∧ le a.displayName b.displayName)

/-- A comparison that puts default profiles first can be sorted by. -/
theorem preorder_of_defaultFirst {le : String → String → Prop}
    {before : BrowserProfile → BrowserProfile → Bool}
    (hbefore : ∀ a b, before a b = true ↔ DefaultFirst le a b)
    (htrans : ∀ a b c, le a b → le b c → le a c) (htotal : ∀ a b, le a b ∨ le b a) :
    StableSort.TotalPreorder before where
  trans a b c hab hbc := by
    rw [hbefore] at hab hbc ⊢
    rcases hab with ⟨ha, hb⟩ | ⟨ha, hab⟩ <;> rcases hbc with ⟨hb', hc⟩ | ⟨hb', hbc⟩
    · exact .inl ⟨ha, hc⟩
    · exact .inl ⟨ha, hb' ▸ hb⟩
    · exact .inl ⟨ha.trans hb', hc⟩
    · exact .inr ⟨ha.trans hb', htrans _ _ _ hab hbc⟩
  total a b := by
    rw [Bool.or_eq_true, hbefore, hbefore]
    unfold DefaultFirst
    cases a.isDefault <;> cases b.isDefault <;> simp [htotal]

/-- Default profiles come first, then names in alphabetical order. -/
def Before (a b : BrowserProfile) : Prop := DefaultFirst (· ≤ ·) a b

theorem compare_isLE_iff {a b : String} : (compare a b).isLE = true ↔ a ≤ b :=
  isLE_compareOfLessAndEq le_antisymm not_le le_total

theorem compareDefault_isLE_iff {a b : BrowserProfile} :
    (compareDefault a b).isLE = true ↔ Before a b := by
  unfold compareDefault Before DefaultFirst
  cases a.isDefault <;> cases b.isDefault <;>
    simp [compare_isLE_iff, show compare true false = Ordering.gt from rfl,
      show compare false true = Ordering.lt from rfl, Ordering.then]

theorem sortDefault_preorder :
    StableSort.TotalPreorder fun a b => (compareDefault a b).isLE :=
  preorder_of_defaultFirst (fun _ _ => compareDefault_isLE_iff) (fun _ _ _ => le_trans) le_total

/-- A stable sort by `Before`. -/
structure DefaultSorted (profiles out : List BrowserProfile) : Prop where
  perm : out.Perm profiles
  sorted : out.Pairwise Before
  stable : ∀ c : List BrowserProfile, c.Sublist profiles → c.Pairwise Before → c.Sublist out

theorem defaultSorted_sortDefault (profiles : List BrowserProfile) :
    DefaultSorted profiles (sortDefault profiles) where
  perm := List.mergeSort_perm ..
  sorted :=
    (List.pairwise_mergeSort sortDefault_preorder.trans sortDefault_preorder.total profiles).imp
      fun h => compareDefault_isLE_iff.mp h
  stable _ hc hsorted :=
    List.sublist_mergeSort sortDefault_preorder.trans sortDefault_preorder.total
      (hsorted.imp fun h => compareDefault_isLE_iff.mpr h) hc

/-! ## A saved order -/

theorem collectById_of_nodup {profiles : List BrowserProfile}
    (hids : (profiles.map BrowserProfile.id).Nodup) : collectById profiles = profiles := by
  induction profiles using List.reverseRecOn with
  | nil => rfl
  | append_singleton profiles p ih =>
    rw [List.map_append, List.nodup_append] at hids
    obtain ⟨hfront, -, hp⟩ := hids
    have hne : ∀ q ∈ profiles, (q.id != p.id) = true := by
      intro q hq
      simpa using hp q.id (List.mem_map_of_mem hq) p.id (by simp)
    have hcollect : collectById (profiles ++ [p]) =
        ((collectById profiles).filter fun q => q.id != p.id) ++ [p] := by
      unfold collectById
      rw [List.foldl_append]
      rfl
    rw [hcollect, ih hfront, List.filter_eq_self.mpr hne]

/-- An id is taken out of the map at its first occurrence, and later occurrences find nothing. -/
theorem takeInOrder_filter {id : String} {m : List BrowserProfile} (hm : ∀ p ∈ m, p.id ≠ id)
    (order : List String) :
    takeInOrder (order.filter fun id' => id' != id) m = takeInOrder order m := by
  induction order generalizing m with
  | nil => rfl
  | cons id' order ih =>
    by_cases h : id' = id
    · subst h
      have hnone : m.find? (fun p => p.id == id') = none := by
        rw [List.find?_eq_none]
        intro p hp
        simpa using hm p hp
      rw [List.filter_cons_of_neg (by simp), ih hm]
      simp only [takeInOrder, hnone]
    · rw [List.filter_cons_of_pos (by simpa using h)]
      unfold takeInOrder
      rw [ih hm]
      split
      · rw [ih]
        intro p hp
        exact hm p (List.mem_filter.mp hp).1
      · rfl

theorem takeInOrder_eraseDups (order : List String) (m : List BrowserProfile) :
    takeInOrder order.eraseDups m = takeInOrder order m := by
  match order with
  | [] => rfl
  | id :: order =>
    have ih := takeInOrder_eraseDups (order.filter fun id' => id' != id)
    rw [List.eraseDups_cons, show (fun id' => !id' == id) = fun id' => id' != id from rfl]
    unfold takeInOrder
    split
    · rw [ih, takeInOrder_filter]
      intro p hp
      simpa using (List.mem_filter.mp hp).2
    · rename_i hfind
      rw [ih, takeInOrder_filter]
      intro p hp
      simpa using List.find?_eq_none.mp hfind p hp
termination_by order.length
decreasing_by
  exact Nat.lt_succ_of_le (List.length_filter_le _ _)

/-- What a saved order shows: each profile that it names, once, where its id first occurs. -/
structure Shows (profiles : List BrowserProfile) (order : List String)
    (out : List BrowserProfile) : Prop where
  mem : ∀ p, p ∈ out ↔ p ∈ profiles ∧ p.id ∈ order
  once : (out.map BrowserProfile.id).Nodup
  ordered : out.Pairwise fun p q => order.idxOf p.id < order.idxOf q.id

/-- An id in front that nothing shown has changes no relative place. -/
theorem ordered_cons {id : String} {order : List String} {out : List BrowserProfile}
    (h : out.Pairwise fun p q => order.idxOf p.id < order.idxOf q.id)
    (hid : ∀ p ∈ out, p.id ≠ id) :
    out.Pairwise fun p q => (id :: order).idxOf p.id < (id :: order).idxOf q.id := by
  refine h.imp_of_mem ?_
  intro p q hp hq hlt
  rw [List.idxOf_cons_ne order (hid p hp).symm, List.idxOf_cons_ne order (hid q hq).symm]
  exact Nat.succ_lt_succ hlt

/-- The first id finds a profile. -/
theorem Shows.found {m out : List BrowserProfile} {id : String} {order : List String}
    {q : BrowserProfile} (h : Shows (m.filter fun p => p.id != id) order out)
    (hids : (m.map BrowserProfile.id).Nodup) (hqm : q ∈ m) (hq : q.id = id) :
    Shows m (id :: order) (q :: out) := by
  have hne : ∀ p ∈ out, p.id ≠ id := by
    intro p hp
    simpa using (List.mem_filter.mp ((h.mem p).mp hp).1).2
  constructor
  · intro p
    rw [List.mem_cons, h.mem, List.mem_filter, List.mem_cons, bne_iff_ne]
    constructor
    · rintro (rfl | ⟨⟨hp, -⟩, horder⟩)
      · exact ⟨hqm, .inl hq⟩
      · exact ⟨hp, .inr horder⟩
    · rintro ⟨hp, hpid⟩
      by_cases hpq : p.id = id
      · exact .inl (List.inj_on_of_nodup_map hids hp hqm (hpq.trans hq.symm))
      · exact .inr ⟨⟨hp, hpq⟩, hpid.resolve_left hpq⟩
  · rw [List.map_cons, List.nodup_cons]
    refine ⟨fun hmem => ?_, h.once⟩
    obtain ⟨p, hp, hpq⟩ := List.mem_map.mp hmem
    exact hne p hp (hpq.trans hq)
  · refine List.pairwise_cons.mpr ⟨fun p hp => ?_, ordered_cons h.ordered hne⟩
    rw [hq, List.idxOf_cons_self, List.idxOf_cons_ne order (hne p hp).symm]
    exact Nat.succ_pos _

/-- The first id finds none. -/
theorem Shows.missed {m out : List BrowserProfile} {id : String} {order : List String}
    (h : Shows m order out) (hne : ∀ p ∈ m, p.id ≠ id) : Shows m (id :: order) out := by
  refine ⟨fun p => ?_, h.once, ordered_cons h.ordered fun p hp => hne p ((h.mem p).mp hp).1⟩
  rw [h.mem, List.mem_cons]
  exact ⟨fun ⟨hp, horder⟩ => ⟨hp, .inr horder⟩,
    fun ⟨hp, horder⟩ => ⟨hp, horder.resolve_left (hne p hp)⟩⟩

theorem shows_takeInOrder {m : List BrowserProfile} (hids : (m.map BrowserProfile.id).Nodup)
    (order : List String) : Shows m order (takeInOrder order m) := by
  induction order generalizing m with
  | nil => exact ⟨fun p => by simp [takeInOrder], .nil, .nil⟩
  | cons id order ih =>
    cases hfind : m.find? fun p => p.id == id with
    | some q =>
      have hrest := ih (m := m.filter fun p => p.id != id)
        (hids.sublist ((List.filter_sublist).map _))
      simp only [takeInOrder, hfind]
      exact hrest.found hids (List.mem_of_find?_eq_some hfind) (by simpa using List.find?_some hfind)
    | none =>
      simp only [takeInOrder, hfind]
      exact (ih hids).missed (by simpa using hfind)

/-! ## What `set_profile_order` stores -/

theorem ProfileOrders.get_insert_self (m : ProfileOrders) (key : String) (value : List String) :
    (m.insert key value).get key = some value := by
  have hsmaller : (m.entries.filter fun e => decide (e.1 < key)).find? (fun e => e.1 == key) =
      none := by
    rw [List.find?_eq_none]
    intro e he
    have hlt : e.1 < key := by simpa using (List.mem_filter.mp he).2
    simpa using hlt.ne
  unfold get insert insertEntries
  rw [List.find?_append, hsmaller]
  simp

theorem ProfileOrders.get_remove_self (m : ProfileOrders) (key : String) :
    (m.remove key).get key = none := by
  unfold get remove
  rw [Option.map_eq_none_iff, List.find?_eq_none]
  intro e he
  simpa using (List.mem_filter.mp he).2

/-- What is stored for a browser after `set_profile_order`. -/
theorem get_setProfileOrder (browser : String) (ids : List String) (doc : ConfigDocument) :
    (setProfileOrder browser ids doc).settings.profileOrders.get browser =
      if ids.isEmpty then none else some ids.eraseDups := by
  unfold setProfileOrder
  by_cases h : ids.isEmpty
  · simp only [h, if_true]
    exact ProfileOrders.get_remove_self ..
  · simp only [h]
    exact ProfileOrders.get_insert_self ..

theorem applyProfileOrder_of_ne_nil {order : List String} (h : order ≠ [])
    (profiles : List BrowserProfile) :
    applyProfileOrder profiles (some order) = takeInOrder order (collectById profiles) := by
  cases order with
  | nil => exact absurd rfl h
  | cons id order => rfl

theorem applyProfileOrder_stored (profiles : List BrowserProfile) (browser : String)
    (ids : List String) (doc : ConfigDocument) :
    applyProfileOrder profiles
        ((setProfileOrder browser ids doc).settings.profileOrders.get browser) =
      applyProfileOrder profiles (some ids) := by
  rw [get_setProfileOrder]
  cases ids with
  | nil => rfl
  | cons id ids =>
    have hne : (id :: ids).eraseDups ≠ [] := by
      rw [List.eraseDups_cons]
      exact List.cons_ne_nil _ _
    rw [if_neg (by simp), applyProfileOrder_of_ne_nil hne, takeInOrder_eraseDups]
    rfl

/-- The order of the profiles, and that it is the same through the stored order. -/
theorem applyProfileOrder_spec (profiles : List BrowserProfile)
    (hids : (profiles.map BrowserProfile.id).Nodup) :
    (∀ order, order ≠ [] → Shows profiles order (applyProfileOrder profiles (some order))) ∧
      (∀ order : Option (List String), order = none ∨ order = some [] →
        DefaultSorted profiles (applyProfileOrder profiles order)) ∧
      ∀ (browser : String) (ids : List String) (doc : ConfigDocument),
        applyProfileOrder profiles
            ((setProfileOrder browser ids doc).settings.profileOrders.get browser) =
          applyProfileOrder profiles (some ids) := by
  refine ⟨fun order hne => ?_, fun order horder => ?_, applyProfileOrder_stored profiles⟩
  · rw [applyProfileOrder_of_ne_nil hne, collectById_of_nodup hids]
    exact shows_takeInOrder hids order
  · rcases horder with rfl | rfl
    · exact defaultSorted_sortDefault profiles
    · exact defaultSorted_sortDefault profiles

/-- Three detected profiles. -/
def detected : List BrowserProfile :=
  [⟨"Profile 2", "Work", none, none, none, false⟩, ⟨"Default", "Personal", none, none, none, true⟩,
    ⟨"Profile 1", "Side", none, none, none, false⟩]

theorem applyProfileOrder_spec_detected :
    (detected.map BrowserProfile.id).Nodup ∧
      Shows detected ["Profile 1", "Profile 9", "Default", "Profile 1"]
        (applyProfileOrder detected (some ["Profile 1", "Profile 9", "Default", "Profile 1"])) ∧
      DefaultSorted detected (applyProfileOrder detected none) :=
  ⟨by decide, (applyProfileOrder_spec detected (by decide)).1 _ (by simp),
    (applyProfileOrder_spec detected (by decide)).2.1 _ (.inl rfl)⟩

example :
    (applyProfileOrder detected (some ["Profile 1", "Profile 9", "Default", "Profile 1"])).map
      BrowserProfile.id = ["Profile 1", "Default"] := by
  decide

end LinkPilot
