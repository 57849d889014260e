import LinkPilot.ProfileOrder

/-!
# The profile order editor

`initialDraftFromSaved`, `sortProfilesDefault` and `save` of `ProfileOrderEditor.tsx`, beside what the
picker shows.

* `sortProfilesDefault_eq_iff` — when the two default sorts agree.
* `takeInOrder_map_id` — an order made of the profiles that are shown shows them.
* `agrees_iff` — when the editor shows what the picker shows, and saving it changes nothing.
-/

set_option autoImplicit false

namespace LinkPilot

/-! ## `ProfileOrderEditor.tsx` -/

/-- `String.prototype.localeCompare`, in the locale of the user. -/
structure Collation where
  localeCompare : String → String → Int
  trans : ∀ a b c, localeCompare a b ≤ 0 → localeCompare b c ≤ 0 → localeCompare a c ≤ 0
  total : ∀ a b, localeCompare a b ≤ 0 ∨ localeCompare b a ≤ 0

namespace Collation

/-- The comparison of `sortProfilesDefault`. -/
def compareProfiles (collation : Collation) (a b : BrowserProfile) : Int :=
  let flags := b.isDefault.toInt - a.isDefault.toInt
  if flags = 0 then collation.localeCompare a.displayName b.displayName else flags

end Collation

def sortProfilesDefault (collation : Collation) (raw : List BrowserProfile) :
    List BrowserProfile :=
  raw.mergeSort fun a b => decide (collation.compareProfiles a b ≤ 0)

structure InitialDraft where
  profiles : List BrowserProfile
  clearOnSave : Bool
  deriving DecidableEq, Repr

/-- The draft without a saved order. -/
def defaultDraft (collation : Collation) (raw : List BrowserProfile) : InitialDraft :=
  ⟨sortProfilesDefault collation raw, true⟩

/-- `initialDraftFromSaved`.  The map and the loop are those of `apply_profile_order`. -/
def initialDraftFromSaved (collation : Collation) (raw : List BrowserProfile)
    (saved : Option (List String)) : InitialDraft :=
  match saved with
  | none | some [] => defaultDraft collation raw
  | some saved =>
    let profiles := takeInOrder saved (collectById raw)
    if profiles.length ≥ 2 then ⟨profiles, false⟩ else defaultDraft collation raw

/-- `save`: the error text, or the document with the order of the draft. -/
def saveDraft (browser : String) (draft : InitialDraft) (doc : ConfigDocument) :
    Except String ConfigDocument :=
  if draft.profiles.length < 1 then .error "profileOrder.keepOne"
  else
    .ok (setProfileOrder browser
      (if draft.clearOnSave then [] else draft.profiles.map BrowserProfile.id) doc)

/-! ## The two default sorts -/

variable {collation : Collation} {raw : List BrowserProfile}

theorem compareProfiles_le_iff {a b : BrowserProfile} :
    collation.compareProfiles a b ≤ 0 ↔
      DefaultFirst (fun x y => collation.localeCompare x y ≤ 0) a b := by
  unfold Collation.compareProfiles DefaultFirst
  cases a.isDefault <;> cases b.isDefault <;> simp

theorem compareProfiles_preorder :
    StableSort.TotalPreorder fun a b => decide (collation.compareProfiles a b ≤ 0) :=
  preorder_of_defaultFirst (fun _ _ => decide_eq_true_iff.trans compareProfiles_le_iff)
    collation.trans collation.total

/-- The collation puts the names in the places that their characters put them in, as far as the
default sort compares them. -/
def SameNames (collation : Collation) (raw : List BrowserProfile) : Prop :=
  ∀ p q, [p, q].Sublist raw → p.isDefault = q.isDefault →
    (collation.localeCompare p.displayName q.displayName ≤ 0 ↔ p.displayName ≤ q.displayName)

theorem sortProfilesDefault_eq_iff :
    sortProfilesDefault collation raw = sortDefault raw ↔ SameNames collation raw := by
  unfold sortProfilesDefault sortDefault SameNames
  rw [StableSort.mergeSort_eq_iff compareProfiles_preorder sortDefault_preorder]
  refine forall₂_congr fun p q => imp_congr_right fun _ => ?_
  rw [Bool.eq_iff_iff, decide_eq_true_iff, compareProfiles_le_iff, compareDefault_isLE_iff]
  unfold Before DefaultFirst
  cases p.isDefault <;> cases q.isDefault <;> simp

/-! ## The draft as an order -/

theorem takeInOrder_map_id {m out : List BrowserProfile}
    (hm : (m.map BrowserProfile.id).Nodup) (hout : (out.map BrowserProfile.id).Nodup)
    (hsub : ∀ p ∈ out, p ∈ m) : takeInOrder (out.map BrowserProfile.id) m = out := by
  induction out generalizing m with
  | nil => rfl
  | cons p out ih =>
    have hpm := hsub p (List.mem_cons_self ..)
    rw [List.map_cons, List.nodup_cons] at hout
    rw [List.map_cons]
    unfold takeInOrder
    split
    · rename_i q hfind
      have hq : q.id = p.id := by simpa using List.find?_some hfind
      obtain rfl := List.inj_on_of_nodup_map hm (List.mem_of_find?_eq_some hfind) hpm hq
      rw [ih (hm.sublist ((List.filter_sublist).map _)) hout.2]
      intro p hp
      have hne : p.id ≠ q.id := fun h => hout.1 (h ▸ List.mem_map_of_mem hp)
      exact List.mem_filter.mpr ⟨hsub p (List.mem_cons_of_mem q hp), by simpa using hne⟩
    · rename_i hfind
      exact absurd (List.find?_eq_none.mp hfind p hpm) (by simp)

theorem Shows.perm {profiles out : List BrowserProfile} {order : List String}
    (h : Shows profiles order out) (hids : (profiles.map BrowserProfile.id).Nodup) :
    out.Perm (profiles.filter fun p => order.contains p.id) := by
  rw [List.perm_ext_iff_of_nodup h.once.of_map ((hids.of_map).filter _)]
  intro p
  rw [h.mem, List.mem_filter, List.contains_iff_mem]

/-! ## The editor and the picker -/

/-- The order that is stored for a browser. -/
def savedOrder (browser : String) (doc : ConfigDocument) : Option (List String) :=
  doc.settings.profileOrders.get browser

/-- The editor opens with what the picker shows, and saving its draft as it is keeps that. -/
structure Agrees (collation : Collation) (browser : String) (raw : List BrowserProfile)
    (doc : ConfigDocument) : Prop where
  shown : (initialDraftFromSaved collation raw (savedOrder browser doc)).profiles =
    applyProfileOrder raw (savedOrder browser doc)
  kept : ∀ doc', saveDraft browser (initialDraftFromSaved collation raw (savedOrder browser doc))
      doc = .ok doc' →
    applyProfileOrder raw (savedOrder browser doc') = applyProfileOrder raw (savedOrder browser doc)

/-- The saved order shows two profiles, or every profile of at most one; without a saved order, the
two default sorts agree. -/
def Agreeable (collation : Collation) (raw : List BrowserProfile) : Option (List String) → Prop
  | none | some [] => SameNames collation raw
  | some saved =>
    2 ≤ (raw.filter fun p => saved.contains p.id).length ∨
      (raw.length ≤ 1 ∧ ∀ p ∈ raw, p.id ∈ saved)

theorem initialDraft_of_ne_nil {saved : List String} (h : saved ≠ []) :
    initialDraftFromSaved collation raw (some saved) =
      if 2 ≤ (takeInOrder saved (collectById raw)).length then
        ⟨takeInOrder saved (collectById raw), false⟩
      else defaultDraft collation raw := by
  cases saved with
  | nil => exact absurd rfl h
  | cons id saved => rfl

/-- What the picker shows once the draft is saved. -/
theorem applyProfileOrder_saveDraft {browser : String} {draft : InitialDraft}
    {doc doc' : ConfigDocument} (h : saveDraft browser draft doc = .ok doc') :
    applyProfileOrder raw (savedOrder browser doc') =
      applyProfileOrder raw
        (some (if draft.clearOnSave then [] else draft.profiles.map BrowserProfile.id)) := by
  unfold saveDraft at h
  split at h
  · cases h
  · cases h
    exact applyProfileOrder_stored raw browser _ doc

/-- Where the draft is the default one, saving it goes back to the default sort. -/
theorem agrees_of_default {browser : String} {doc : ConfigDocument}
    (hdraft : initialDraftFromSaved collation raw (savedOrder browser doc) =
      defaultDraft collation raw)
    (hshown : sortProfilesDefault collation raw = applyProfileOrder raw (savedOrder browser doc))
    (hkept : sortDefault raw = applyProfileOrder raw (savedOrder browser doc)) :
    Agrees collation browser raw doc where
  shown := by
    rw [hdraft]
    exact hshown
  kept doc' h := by
    rw [hdraft] at h
    rw [applyProfileOrder_saveDraft h]
    exact hkept

theorem agrees_unsaved_iff {browser : String} {doc : ConfigDocument}
    (hsaved : savedOrder browser doc = none ∨ savedOrder browser doc = some []) :
    Agrees collation browser raw doc ↔ SameNames collation raw := by
  have hdraft : initialDraftFromSaved collation raw (savedOrder browser doc) =
      defaultDraft collation raw := by
    rcases hsaved with h | h <;> rw [h] <;> rfl
  have hpicker : applyProfileOrder raw (savedOrder browser doc) = sortDefault raw := by
    rcases hsaved with h | h <;> rw [h] <;> rfl
  rw [← sortProfilesDefault_eq_iff]
  constructor
  · intro h
    have hshown := h.shown
    rwa [hdraft, hpicker] at hshown
  · intro h
    exact agrees_of_default hdraft (h.trans hpicker.symm) hpicker.symm

/-- An order that shows two profiles or more is edited as it is. -/
theorem agrees_of_two {browser : String} {doc : ConfigDocument} {saved : List String}
    (hids : (raw.map BrowserProfile.id).Nodup) (hsaved : savedOrder browser doc = some saved)
    (hne : saved ≠ []) (htwo : 2 ≤ (takeInOrder saved raw).length) :
    Agrees collation browser raw doc := by
  have hshows := shows_takeInOrder hids saved
  have hdraft : initialDraftFromSaved collation raw (some saved) =
      ⟨takeInOrder saved raw, false⟩ := by
    rw [initialDraft_of_ne_nil hne, collectById_of_nodup hids, if_pos htwo]
  have hpicker : applyProfileOrder raw (some saved) = takeInOrder saved raw := by
    rw [applyProfileOrder_of_ne_nil hne, collectById_of_nodup hids]
  constructor
  · rw [hsaved, hdraft, hpicker]
  · intro doc' h
    rw [applyProfileOrder_saveDraft h, hsaved, hdraft, hpicker]
    have hids_ne : (takeInOrder saved raw).map BrowserProfile.id ≠ [] := by
      intro h
      rw [List.map_eq_nil_iff.mp h] at htwo
      simp at htwo
    rw [if_neg Bool.false_ne_true, applyProfileOrder_of_ne_nil hids_ne, collectById_of_nodup hids]
    exact takeInOrder_map_id hids hshows.once fun p hp => ((hshows.mem p).mp hp).1

/-- An order that shows fewer is dropped for the default one. -/
theorem agrees_fewer_iff {browser : String} {doc : ConfigDocument} {saved : List String}
    (hids : (raw.map BrowserProfile.id).Nodup) (hsaved : savedOrder browser doc = some saved)
    (hne : saved ≠ []) (hfewer : ¬ 2 ≤ (takeInOrder saved raw).length) :
    Agrees collation browser raw doc ↔ raw.length ≤ 1 ∧ ∀ p ∈ raw, p.id ∈ saved := by
  have hshows := shows_takeInOrder hids saved
  have hdraft : initialDraftFromSaved collation raw (savedOrder browser doc) =
      defaultDraft collation raw := by
    rw [hsaved, initialDraft_of_ne_nil hne, collectById_of_nodup hids, if_neg hfewer]
  have hpicker : applyProfileOrder raw (savedOrder browser doc) = takeInOrder saved raw := by
    rw [hsaved, applyProfileOrder_of_ne_nil hne, collectById_of_nodup hids]
  constructor
  · intro h
    have hshown := h.shown
    rw [hdraft, hpicker] at hshown
    have hperm : (takeInOrder saved raw).Perm raw := hshown ▸ List.mergeSort_perm ..
    constructor
    · rw [← hperm.length_eq]
      omega
    · intro p hp
      exact ((hshows.mem p).mp (hperm.mem_iff.mpr hp)).2
  · rintro ⟨hlen, hall⟩
    have hsame : takeInOrder saved raw = raw := by
      have hperm := hshows.perm hids
      rw [List.filter_eq_self.mpr fun p hp => List.contains_iff_mem.mpr (hall p hp)] at hperm
      match raw, hlen with
      | [], _ => exact hperm.eq_nil
      | [p], _ => exact List.perm_singleton.mp hperm
    have hraw := hpicker.trans hsame
    exact agrees_of_default hdraft ((StableSort.mergeSort_of_length_le_one hlen).trans hraw.symm)
      ((StableSort.mergeSort_of_length_le_one hlen).trans hraw.symm)

/-- The editor agrees with the picker exactly on these. -/
theorem agrees_iff (collation : Collation) (browser : String) (raw : List BrowserProfile)
    (doc : ConfigDocument) (hids : (raw.map BrowserProfile.id).Nodup) :
    Agrees collation browser raw doc ↔ Agreeable collation raw (savedOrder browser doc) := by
  cases hsaved : savedOrder browser doc with
  | none => exact agrees_unsaved_iff (.inl hsaved)
  | some saved =>
    cases saved with
    | nil => exact agrees_unsaved_iff (.inr hsaved)
    | cons id saved =>
      have hlen := ((shows_takeInOrder hids (id :: saved)).perm hids).length_eq
      show _ ↔ 2 ≤ (raw.filter _).length ∨ _
      rw [← hlen]
      by_cases htwo : 2 ≤ (takeInOrder (id :: saved) raw).length
      · exact iff_of_true (agrees_of_two hids hsaved (by simp) htwo) (.inl htwo)
      · rw [or_iff_right htwo]
        exact agrees_fewer_iff hids hsaved (by simp) htwo

def compareCharacters (a b : String) : Int :=
  if a ≤ b then if b ≤ a then 0 else -1 else 1

theorem compareCharacters_le_iff {a b : String} : compareCharacters a b ≤ 0 ↔ a ≤ b := by
  unfold compareCharacters
  by_cases hab : a ≤ b
  · by_cases hba : b ≤ a <;> simp [hab, hba]
  · simp [hab]

/-- The collation that orders strings by their characters. -/
def Collation.byCharacter : Collation where
  localeCompare := compareCharacters
  trans a b c hab hbc := by
    rw [compareCharacters_le_iff] at hab hbc ⊢
    exact hab.trans hbc
  total a b := by
    rw [compareCharacters_le_iff, compareCharacters_le_iff]
    exact le_total a b

/-- A work profile beside the default one. -/
def twoProfiles : List BrowserProfile :=
  [⟨"Default", "Personal", none, none, none, true⟩, ⟨"Profile 1", "Work", none, none, none, false⟩]

/-- The default profile was taken off the wheel. -/
def oneVisible : ConfigDocument :=
  setProfileOrder "chrome" ["Profile 1"] (.withDefault (.new "chrome"))

/-- Two of three profiles are on the wheel. -/
def twoVisible : ConfigDocument :=
  setProfileOrder "chrome" ["Profile 1", "Default"] (.withDefault (.new "chrome"))

theorem agrees_iff_detected :
    (detected.map BrowserProfile.id).Nodup ∧
      Agrees .byCharacter "chrome" detected twoVisible :=
  ⟨by decide, (agrees_iff .byCharacter "chrome" detected twoVisible (by decide)).mpr
    (.inl (by decide))⟩

/-- The picker shows the work profile alone.  The editor shows both, and saving it as it is brings
the default profile back. -/
theorem not_agrees :
    (twoProfiles.map BrowserProfile.id).Nodup ∧
      ¬ Agrees .byCharacter "chrome" twoProfiles oneVisible := by
  refine ⟨by decide, fun h => ?_⟩
  have hlen := congrArg List.length h.shown
  rw [show savedOrder "chrome" oneVisible = some ["Profile 1"] from rfl] at hlen
  rw [show (initialDraftFromSaved .byCharacter twoProfiles (some ["Profile 1"])).profiles =
    sortProfilesDefault .byCharacter twoProfiles from rfl, sortProfilesDefault,
    List.length_mergeSort] at hlen
  exact absurd hlen (by decide)

end LinkPilot
