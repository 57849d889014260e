import LinkPilot.Launcher
import Mathlib.Data.List.Induction

/-!
# Listed and launchable browsers

Model of `merged_browsers` of `apps/desktop/src-tauri/src/commands/mod.rs`, against what
`plan_open_target` takes for installed and what the launcher resolves an id to.

Principal results:

* `filter_mergedBrowsers` — the merged entries of an id: the custom entry in force, then the
  detected entries of the id behind the first.
* `listed_launchable_iff` — every listed browser is launchable exactly when no custom entry in force
  says anything new about where its browser is.
* `custom_never_opens` — a custom browser is listed and a rule for it asks; an override is listed
  and the old executable is started.
-/

set_option autoImplicit false

namespace LinkPilot

/-! ## Upserts, key by key -/

section Upsert

variable {α κ : Type} [DecidableEq κ] (key : α → κ)

theorem filter_upsert_key (x : α) (l : List α) (k : κ) :
    (upsert key x l).filter (key · = k) =
      if key x = k then x :: (l.filter (key · = k)).tail else l.filter (key · = k) := by
  induction l with
  | nil => by_cases hx : key x = k <;> simp [upsert, hx]
  | cons y ys ih =>
    by_cases hy : key y = key x
    · by_cases hx : key x = k <;> simp [upsert, hy, hx]
    · by_cases hx : key x = k
      · have hyk : key y ≠ k := hx ▸ hy
        simp [upsert, hyk, ih, hx]
      · simp [upsert, hy, List.filter_cons, ih, hx]

/-- The last of the entries with a key. -/
def inForce (entries : List α) (k : κ) : Option α :=
  (entries.filter (key · = k)).getLast?

/-- After the upserts of `entries`, the entry in force of each key stands before what was behind the
first of its key. -/
theorem filter_foldl_upsert (entries base : List α) (k : κ) :
    (entries.foldl (fun l x => upsert key x l) base).filter (key · = k) =
      (inForce key entries k).elim (base.filter (key · = k))
        fun x => x :: (base.filter (key · = k)).tail := by
  induction entries using List.reverseRecOn with
  | nil => simp [inForce]
  | append_singleton entries x ih =>
    rw [List.foldl_append, List.foldl_cons, List.foldl_nil, filter_upsert_key, ih]
    by_cases hx : key x = k
    · have hlast : inForce key (entries ++ [x]) k = some x := by simp [inForce, hx]
      rw [if_pos hx, hlast]
      cases inForce key entries k <;> simp
    · have hlast : inForce key (entries ++ [x]) k = inForce key entries k := by simp [inForce, hx]
      rw [if_neg hx, hlast]

end Upsert

/-! ## `merged_browsers` -/

/-- `installed_browsers().unwrap_or_default()`. -/
def detectedBrowsers (inventory : Except String (List InstalledBrowser)) : List InstalledBrowser :=
  match inventory with
  | .ok browsers => browsers
  | .error _ => []

/-- `merged_browsers`. -/
def mergedBrowsers (inventory : Except String (List InstalledBrowser)) (doc : ConfigDocument) :
    List InstalledBrowser :=
  doc.customBrowsers.foldl (fun detected custom => upsert InstalledBrowser.id custom detected)
    (detectedBrowsers inventory)

/-! ## Where a browser is -/

/-- Every target that names the listed browser is planned as it is, and the launcher starts a
browser with the listed executable and app id for it. -/
structure Launchable (inventory : Except String (List InstalledBrowser)) (b : InstalledBrowser) :
    Prop where
  planned : ∀ target defaultTarget : BrowserTarget, target.browser = b.id →
    planOpenTarget target defaultTarget (installedBrowserIds inventory) = .primary
  resolved : ∀ (target : BrowserTarget) (url : String), target.browser = b.id →
    ∃ p, (MacUrlLauncher.openUrl inventory (fun _ => .ok ()) target url).started = some p ∧
      p.browser.executable = b.executable ∧ p.browser.platformAppId = b.platformAppId

/-- The first browser with the id of `b` is where `b` is. -/
def RepeatsFirst (detected : List InstalledBrowser) (b : InstalledBrowser) : Prop :=
  ∃ first, detected.find? (·.id = b.id) = some first ∧
    first.executable = b.executable ∧ first.platformAppId = b.platformAppId

section Launchable

variable {inventory : Except String (List InstalledBrowser)} {b : InstalledBrowser}

theorem installedBrowserIds_eq :
    installedBrowserIds inventory = (detectedBrowsers inventory).map InstalledBrowser.id := by
  cases inventory <;> rfl

/-- The launcher looks its browser up among the detected ones. -/
theorem openUrl_started {target : BrowserTarget} {url : String} :
    (MacUrlLauncher.openUrl inventory (fun _ => .ok ()) target url).started =
      ((detectedBrowsers inventory).find? (·.id = target.browser)).map fun browser =>
        ⟨browser, commandFor browser target url⟩ := by
  cases inventory with
  | error e => rfl
  | ok browsers =>
    simp only [MacUrlLauncher.openUrl, detectedBrowsers]
    cases browsers.find? (·.id = target.browser) <;> simp

theorem launchable_iff :
    Launchable inventory b ↔ RepeatsFirst (detectedBrowsers inventory) b := by
  constructor
  · intro h
    obtain ⟨p, hstarted, hexe, happ⟩ := h.resolved (BrowserTarget.new b.id) "" rfl
    rw [openUrl_started, Option.map_eq_some_iff] at hstarted
    obtain ⟨first, hfirst, rfl⟩ := hstarted
    exact ⟨first, hfirst, hexe, happ⟩
  · rintro ⟨first, hfirst, hexe, happ⟩
    constructor
    · intro target defaultTarget htarget
      have hmem : target.browser ∈ installedBrowserIds inventory := by
        rw [htarget, installedBrowserIds_eq]
        exact List.mem_map.mpr ⟨first, List.mem_of_find?_eq_some hfirst,
          by simpa using List.find?_some hfirst⟩
      simp [planOpenTarget, hmem]
    · intro target url htarget
      refine ⟨⟨first, commandFor first target url⟩, ?_, hexe, happ⟩
      rw [openUrl_started, htarget, hfirst, Option.map_some]

variable (inventory) in
theorem filter_mergedBrowsers (doc : ConfigDocument) (id : BrowserId) :
    (mergedBrowsers inventory doc).filter (·.id = id) =
      (inForce InstalledBrowser.id doc.customBrowsers id).elim
        ((detectedBrowsers inventory).filter (·.id = id))
        fun custom => custom :: ((detectedBrowsers inventory).filter (·.id = id)).tail :=
  filter_foldl_upsert InstalledBrowser.id doc.customBrowsers (detectedBrowsers inventory) id

theorem mem_mergedBrowsers {doc : ConfigDocument} (h : b ∈ mergedBrowsers inventory doc) :
    inForce InstalledBrowser.id doc.customBrowsers b.id = some b ∨
      b ∈ detectedBrowsers inventory := by
  have hmem : b ∈ (mergedBrowsers inventory doc).filter (·.id = b.id) := by simp [h]
  rw [filter_mergedBrowsers] at hmem
  cases hforce : inForce InstalledBrowser.id doc.customBrowsers b.id with
  | none =>
    rw [hforce] at hmem
    exact .inr (List.mem_filter.mp hmem).1
  | some custom =>
    rw [hforce] at hmem
    rcases List.mem_cons.mp hmem with rfl | htail
    · exact .inl rfl
    · exact .inr (List.mem_filter.mp (List.mem_of_mem_tail htail)).1

theorem inForce_mem_mergedBrowsers {doc : ConfigDocument} {id : BrowserId}
    (h : inForce InstalledBrowser.id doc.customBrowsers id = some b) :
    b ∈ mergedBrowsers inventory doc := by
  have hmem : b ∈ (mergedBrowsers inventory doc).filter (·.id = id) := by
    simp [filter_mergedBrowsers, h]
  exact (List.mem_filter.mp hmem).1

/-- A detected browser that a custom entry has replaced was the first with its id. -/
theorem detected_merged_or_first (doc : ConfigDocument) (h : b ∈ detectedBrowsers inventory) :
    b ∈ mergedBrowsers inventory doc ∨
      (detectedBrowsers inventory).find? (·.id = b.id) = some b := by
  have hmem : b ∈ (detectedBrowsers inventory).filter (·.id = b.id) := by simp [h]
  have hmerged := filter_mergedBrowsers inventory doc b.id
  cases hforce : inForce InstalledBrowser.id doc.customBrowsers b.id with
  | none =>
    rw [hforce, Option.elim_none] at hmerged
    rw [← hmerged] at hmem
    exact .inl (List.mem_filter.mp hmem).1
  | some custom =>
    rw [hforce, Option.elim_some] at hmerged
    rw [← List.head?_filter]
    cases hfilter : (detectedBrowsers inventory).filter (·.id = b.id) with
    | nil => simp [hfilter] at hmem
    | cons first rest =>
      rw [hfilter] at hmem hmerged
      rcases List.mem_cons.mp hmem with rfl | hrest
      · exact .inr rfl
      · have hbehind : b ∈ custom :: (first :: rest).tail := List.mem_cons_of_mem _ hrest
        rw [← hmerged] at hbehind
        exact .inl (List.mem_filter.mp hbehind).1

end Launchable

/-- **Listed browsers.** Every browser of `merged_browsers` is planned as installed and resolved to
the listed executable and app id exactly when every custom entry in force, and every detected
browser, repeats what the first detected browser with its id has there. -/
theorem listed_launchable_iff (inventory : Except String (List InstalledBrowser))
    (doc : ConfigDocument) :
    (∀ b ∈ mergedBrowsers inventory doc, Launchable inventory b) ↔
      (∀ id custom, inForce InstalledBrowser.id doc.customBrowsers id = some custom →
        RepeatsFirst (detectedBrowsers inventory) custom) ∧
      ∀ b ∈ detectedBrowsers inventory, RepeatsFirst (detectedBrowsers inventory) b := by
  simp only [launchable_iff]
  constructor
  · intro h
    refine ⟨fun id custom hforce => h custom (inForce_mem_mergedBrowsers hforce), fun b hb => ?_⟩
    rcases detected_merged_or_first doc hb with hmerged | hfirst
    · exact h b hmerged
    · exact ⟨b, hfirst, rfl, rfl⟩
  · rintro ⟨hcustom, hdetected⟩ b hb
    rcases mem_mergedBrowsers hb with hforce | hmem
    · exact hcustom b.id b hforce
    · exact hdetected b hmem

/-! ### A custom browser and an override -/

/-- Safari, as detected. -/
def safariInventory : Except String (List InstalledBrowser) :=
  .ok [⟨"safari", "Safari", .safari, "/Applications/Safari.app", none, none⟩]

/-- The user has added Zen, and moved Safari. -/
def customDocument : ConfigDocument :=
  { ConfigDocument.withDefault (BrowserTarget.new "safari") with
    customBrowsers :=
      [⟨"zen", "Zen", .firefox, "/Applications/Zen.app", none, none⟩,
        ⟨"safari", "Safari", .safari, "/Preview/Safari.app", none, none⟩] }

/-- Both entries are listed. A target that names Zen falls to the default, and one that names Safari
starts the detected executable. -/
theorem custom_never_opens :
    mergedBrowsers safariInventory customDocument = customDocument.customBrowsers.reverse ∧
    planOpenTarget (BrowserTarget.new "zen") customDocument.defaultTarget
      (installedBrowserIds safariInventory) = .default ∧
    (MacUrlLauncher.openUrl safariInventory (fun _ => .ok ()) (BrowserTarget.new "safari")
      "https://a.com").started.map (·.browser.executable) = some "/Applications/Safari.app" ∧
    ¬ ∀ b ∈ mergedBrowsers safariInventory customDocument, Launchable safariInventory b := by
  refine ⟨by decide, by decide, by decide, fun h => ?_⟩
  have hzen := h ⟨"zen", "Zen", .firefox, "/Applications/Zen.app", none, none⟩ (by decide)
  have hplan := hzen.planned (BrowserTarget.new "zen") (BrowserTarget.new "safari") rfl
  exact absurd hplan (by decide)

end LinkPilot
