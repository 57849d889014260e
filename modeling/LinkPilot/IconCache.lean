import LinkPilot.Lib.Texts
import Mathlib.Data.List.Forall2
import Mathlib.Data.List.Induction

/-!
# The icon cache

Model of `crates/platform-mac/src/app_icon.rs`.  The icon of an application is rendered once and
kept in a file that is named after what the application was looked up by.

The key rewrites every character outside of ASCII letters, digits, `-` and `.` to `_`, so that names
of one length in another script are one key.

The machine is a parameter: what Spotlight answers, which files exist, and what `plutil` and `sips`
make of the icon of a bundle.

Principal results:

* `sanitize_eq_iff` — which texts are rewritten to the same one.
* `cachePath_ne_iff` — when two lookups have different files.
* `shown_own` — over every run of lookups that are apart whenever they are for different
  applications, an icon that is shown is that of the application.
* `icons_apart_iff` — both.
* `cjk_names_collide` — two applications with names of two Chinese characters.
-/

set_option autoImplicit false

namespace LinkPilot.IconCache

/-! ## `app_icon.rs` -/

/-- The characters that `sanitize` keeps. -/
def kept (c : Char) : Bool := c.isAlphanum || c == '-' || c == '.'

def sanitize (s : List Char) : List Char := s.map fun c => if kept c then c else '_'

/-- The arguments of `ensure_png`. -/
structure IconLookup where
  bundleId : Option String
  appPath : Option String
  name : Option String
  size : UInt32
  deriving DecidableEq, Repr

/-- `cache_key`. -/
def cacheKey (bundleId appPath name : Option String) : List Char :=
  match bundleId, appPath, name with
  | some b, _, _ => sanitize b.toList
  | none, some p, _ => sanitize p.toList
  | none, none, some n => "name-".toList ++ sanitize n.toList
  | none, none, none => "unknown".toList

/-- `cache_dir()?.join(format!("{key}-{size}.png"))`. -/
def IconLookup.cachePath (dir : String) (l : IconLookup) : String :=
  dir ++ "/" ++ String.ofList (cacheKey l.bundleId l.appPath l.name) ++ "-" ++
    toString l.size.toNat ++ ".png"

/-- The machine that the lookups run on. -/
structure Mac (Png : Type) where
  /-- The output of `mdfind`, if it could be run and succeeded. -/
  mdfind : String → Except String String
  fileExists : String → Bool
  home : Option String
  /-- `locate_icns` and `convert_icns_to_png`, of a bundle and for a size. -/
  render : String → UInt32 → Except String Png

/-- `Path::join`. -/
def joinPath (dir name : String) : String :=
  if name.toList.head? = some '/' then name else dir ++ "/" ++ name

section Machine

variable {Png : Type} (mac : Mac Png)

/-- `resolve_app_path`. -/
def resolveAppPath (bundleId : String) : Except String String :=
  let query := "kMDItemCFBundleIdentifier == '" ++ String.ofList (bundleId.toList.filter (· ≠ '\'')) ++ "'"
  match mac.mdfind query with
  | .error e => .error e
  | .ok stdout =>
    match Texts.strLines stdout.toList with
    | [] => .error ("no app found for bundle id " ++ bundleId)
    | first :: _ => .ok (String.ofList first)

/-- `mdfind_first`. -/
def mdfindFirst (query : String) : Option String :=
  match mac.mdfind query with
  | .error _ => none
  | .ok stdout =>
    let lines := Texts.strLines stdout.toList
    ((lines.find? fun l => "/Applications/".toList.isPrefixOf l).or lines.head?).map String.ofList

/-- `resolve_app_path_by_name`. -/
def resolveAppPathByName (name : String) : Except String String :=
  let primary := joinPath "/Applications" (name ++ ".app")
  let userPath := mac.home.map fun home => joinPath (joinPath home "Applications") (name ++ ".app")
  let safe := String.ofList (name.toList.filter (· ≠ '"'))
  let byMeta := "(kMDItemContentType == 'com.apple.application-bundle') && " ++
    "((kMDItemDisplayName == \"" ++ safe ++ "\") || (kMDItemCFBundleName == \"" ++ safe ++ "\"))"
  if mac.fileExists primary then .ok primary
  else
    match userPath.filter mac.fileExists with
    | some path => .ok path
    | none =>
      match mdfindFirst mac ("kMDItemFSName == \"" ++ name ++ ".app\"") with
      | some path => .ok path
      | none =>
        match mdfindFirst mac byMeta with
        | some path => .ok path
        | none => .error ("no app found for name " ++ name)

/-- The application that `ensure_png` resolves. -/
def resolved (l : IconLookup) : Except String String :=
  match l.bundleId, l.appPath, l.name with
  | _, some p, _ => .ok p
  | some bid, none, _ => resolveAppPath mac bid
  | none, none, some n => resolveAppPathByName mac n
  | none, none, none => .error "ensure_png: need bundle_id, app_path, or name"

/-- The files of the cache, by their paths: a volume that folds the case of file names has fewer
files than paths. -/
abbrev Cache (Png : Type) := String → Option Png

/-- `ensure_png`, and the cache behind it. -/
def ensurePng (dir : String) (cache : Cache Png) (l : IconLookup) : Except String String × Cache Png :=
  let out := l.cachePath dir
  if (cache out).isSome then (.ok out, cache)
  else
    match resolved mac l with
    | .error e => (.error e, cache)
    | .ok app =>
      match mac.render app l.size with
      | .error e => (.error e, cache)
      | .ok png => (.ok out, Function.update cache out (some png))

/-- The icon that the caller reads from the file. -/
def shown (dir : String) (cache : Cache Png) (l : IconLookup) : Option Png :=
  match ensurePng mac dir cache l with
  | (.ok out, cache) => cache out
  | (.error _, _) => none

/-- The cache after the lookups. -/
def cacheAfter (dir : String) (lookups : List IconLookup) : Cache Png :=
  lookups.foldl (fun cache l => (ensurePng mac dir cache l).2) fun _ => none

/-- The lookups are for two applications. -/
def DifferentApps (a b : IconLookup) : Prop :=
  ∃ p q, resolved mac a = .ok p ∧ resolved mac b = .ok q ∧ p ≠ q

end Machine

/-! ## Keys -/

/-- What the key is made of. -/
def keyText (l : IconLookup) : List Char :=
  match l.bundleId, l.appPath, l.name with
  | some b, _, _ => b.toList
  | none, some p, _ => p.toList
  | none, none, some n => "name-".toList ++ n.toList
  | none, none, none => "unknown".toList

/-- One character, or two that are not kept. -/
def Alike (c d : Char) : Prop := c = d ∨ kept c = false ∧ kept d = false

instance (c d : Char) : Decidable (Alike c d) := inferInstanceAs (Decidable (_ ∨ _))

/-- The sizes differ, or the texts of the keys do in their length or at a place where one of them has
an ASCII letter, a digit, a `-` or a `.`. -/
def Apart (a b : IconLookup) : Prop :=
  a.size ≠ b.size ∨ ¬ List.Forall₂ Alike (keyText a) (keyText b)

section Keys

theorem sanitize_eq_iff (s t : List Char) : sanitize s = sanitize t ↔ List.Forall₂ Alike s t := by
  have hchar : ∀ c d : Char, (if kept c then c else '_') = (if kept d then d else '_') ↔
      Alike c d := by
    have hunderscore : kept '_' = false := by decide
    intro c d
    unfold Alike
    constructor
    · intro h
      by_cases hc : kept c = true
      · by_cases hd : kept d = true
        · rw [if_pos hc, if_pos hd] at h
          exact .inl h
        · rw [if_pos hc, if_neg hd] at h
          rw [h, hunderscore] at hc
          cases hc
      · by_cases hd : kept d = true
        · rw [if_neg hc, if_pos hd] at h
          rw [← h, hunderscore] at hd
          cases hd
        · exact .inr ⟨by simpa using hc, by simpa using hd⟩
    · rintro (rfl | ⟨hc, hd⟩)
      · rfl
      · rw [hc, hd]
        rfl
  unfold sanitize
  induction s generalizing t with
  | nil =>
    cases t with
    | nil => simp
    | cons d t => simp
  | cons c s ih =>
    cases t with
    | nil => simp
    | cons d t =>
      rw [List.map_cons, List.map_cons, List.cons.injEq, hchar, List.forall₂_cons]
      exact and_congr_right fun _ => ih t

/-- The key is the sanitized text. -/
theorem cacheKey_eq (l : IconLookup) :
    cacheKey l.bundleId l.appPath l.name = sanitize (keyText l) := by
  obtain ⟨bundleId, appPath, name, size⟩ := l
  cases bundleId with
  | some b => rfl
  | none =>
    cases appPath with
    | some p => rfl
    | none =>
      cases name with
      | some n =>
        show "name-".toList ++ sanitize n.toList = sanitize ("name-".toList ++ n.toList)
        rw [sanitize, sanitize, List.map_append]
        rfl
      | none => rfl

/-- What is behind the last `-`, and what is before it. -/
theorem append_cons_inj {α : Type} {x y d e : List α} {a : α} (hd : a ∉ d) (he : a ∉ e)
    (h : x ++ a :: d = y ++ a :: e) : x = y ∧ d = e := by
  rcases List.append_eq_append_iff.mp h with ⟨c, rfl, hc⟩ | ⟨c, rfl, hc⟩
  · cases c with
    | nil => exact ⟨by simp, by simpa using hc⟩
    | cons b c =>
      rw [List.cons_append, List.cons.injEq] at hc
      rw [hc.2] at hd
      simp at hd
  · cases c with
    | nil => exact ⟨by simp, by simpa using hc.symm⟩
    | cons b c =>
      rw [List.cons_append, List.cons.injEq] at hc
      rw [hc.2] at he
      simp at he

theorem cachePath_eq_iff (dir : String) (a b : IconLookup) :
    a.cachePath dir = b.cachePath dir ↔
      a.size = b.size ∧ List.Forall₂ Alike (keyText a) (keyText b) := by
  have hdash : ∀ n : Nat, '-' ∉ (Nat.repr n).toList := by
    intro n h
    have hdigit : '-'.isDigit = true := by
      apply @Nat.isDigit_of_mem_toDigits 10 n '-' (by decide) (by decide)
      simpa [Nat.repr] using h
    exact absurd hdigit (by decide)
  rw [← sanitize_eq_iff, ← cacheKey_eq, ← cacheKey_eq]
  constructor
  · intro h
    have hlist := congrArg String.toList h
    simp only [IconLookup.cachePath, String.toList_append, String.toList_ofList, List.append_assoc,
      List.append_cancel_left_eq] at hlist
    have htail : cacheKey a.bundleId a.appPath a.name ++ '-' :: (toString a.size.toNat).toList =
        cacheKey b.bundleId b.appPath b.name ++ '-' :: (toString b.size.toNat).toList := by
      apply @List.append_cancel_right _ _ ".png".toList
      simpa using hlist
    obtain ⟨hkey, hsize⟩ := append_cons_inj (hdash _) (hdash _) htail
    have hnumber := congrArg (fun ds => Nat.ofDigitChars 10 ds 0) hsize
    simp only [Nat.repr, String.toList_ofList] at hnumber
    rw [Nat.ofDigitChars_toDigits (by decide) (by decide),
      Nat.ofDigitChars_toDigits (by decide) (by decide)] at hnumber
    exact ⟨UInt32.toNat_inj.mp hnumber, hkey⟩
  · rintro ⟨hsize, hkey⟩
    rw [IconLookup.cachePath, IconLookup.cachePath, hsize, hkey]

/-- Two lookups have different files exactly when their sizes differ, or what they are keyed by
differs in length or at a place where one has a character that is kept. -/
theorem cachePath_ne_iff (dir : String) (a b : IconLookup) :
    a.cachePath dir ≠ b.cachePath dir ↔ Apart a b := by
  rw [Ne, cachePath_eq_iff, not_and_or, Apart]

end Keys

/-! ## Runs of lookups -/

section Runs

variable {Png : Type} {mac : Mac Png} {dir : String} {cache : Cache Png} {l : IconLookup}
  {lookups : List IconLookup}

/-- The file of each of the lookups holds the icon of its application, or nothing. -/
def Own (mac : Mac Png) (dir : String) (cache : Cache Png) (l : IconLookup) : Prop :=
  ∀ png, cache (l.cachePath dir) = some png →
    ∃ app, resolved mac l = .ok app ∧ mac.render app l.size = .ok png

/-- **What a lookup does**: the file is there, there is none, or the icon of the application is put
where it was missing. -/
theorem ensurePng_cases (mac : Mac Png) (dir : String) (cache : Cache Png) (l : IconLookup) :
    (∃ png, cache (l.cachePath dir) = some png ∧
      ensurePng mac dir cache l = (.ok (l.cachePath dir), cache)) ∨
    (∃ e, ensurePng mac dir cache l = (.error e, cache)) ∨
    ∃ app png, resolved mac l = .ok app ∧ mac.render app l.size = .ok png ∧
      ensurePng mac dir cache l =
        (.ok (l.cachePath dir), Function.update cache (l.cachePath dir) (some png)) := by
  cases hfile : cache (l.cachePath dir) with
  | some png => exact .inl ⟨png, rfl, by simp [ensurePng, hfile]⟩
  | none =>
    cases hresolved : resolved mac l with
    | error e => exact .inr (.inl ⟨e, by simp [ensurePng, hfile, hresolved]⟩)
    | ok app =>
      cases hrender : mac.render app l.size with
      | error e => exact .inr (.inl ⟨e, by simp [ensurePng, hfile, hresolved, hrender]⟩)
      | ok png =>
        exact .inr (.inr ⟨app, png, rfl, hrender, by simp [ensurePng, hfile, hresolved, hrender]⟩)

/-- A lookup leaves the file of another one that it is apart from, or that is for its application. -/
theorem Own.ensurePng {b : IconLookup} (hb : Own mac dir cache b)
    (hresolves : ∃ app, resolved mac b = .ok app)
    (hapart : DifferentApps mac l b → Apart l b) :
    Own mac dir (ensurePng mac dir cache l).2 b := by
  rcases ensurePng_cases mac dir cache l with ⟨png, -, heq⟩ | ⟨e, heq⟩ | ⟨app, png, happ, hrender, heq⟩
  · rw [heq]
    exact hb
  · rw [heq]
    exact hb
  · rw [heq]
    obtain ⟨app', happ'⟩ := hresolves
    intro png' hfile
    change Function.update cache (l.cachePath dir) (some png) (b.cachePath dir) = some png' at hfile
    by_cases hpath : b.cachePath dir = l.cachePath dir
    · have hsame : app = app' := by
        by_contra hne
        exact (cachePath_ne_iff dir l b).mpr (hapart ⟨app, app', happ, happ', hne⟩) hpath.symm
      have hsize := ((cachePath_eq_iff dir b l).mp hpath).1
      rw [hpath, Function.update_self, Option.some.injEq] at hfile
      subst hfile hsame
      exact ⟨app, happ', by rw [hsize]; exact hrender⟩
    · rw [Function.update_of_ne hpath] at hfile
      exact hb png' hfile

/-- The file of a lookup after any lookups that are apart from it whenever they are for another
application. -/
theorem own_cacheAfter (hresolves : ∃ app, resolved mac l = .ok app)
    (hapart : ∀ a ∈ lookups, DifferentApps mac a l → Apart a l) :
    Own mac dir (cacheAfter mac dir lookups) l := by
  induction lookups using List.reverseRecOn with
  | nil => exact fun png h => by cases h
  | append_singleton lookups a ih =>
    have hbefore := ih fun a ha => hapart a (by simp [ha])
    rw [cacheAfter, List.foldl_append]
    exact hbefore.ensurePng hresolves (hapart a (by simp))

/-- **An icon that is shown is that of the application**, over every such run. -/
theorem shown_own (hresolves : ∃ app, resolved mac l = .ok app)
    (hapart : ∀ a ∈ lookups, DifferentApps mac a l → Apart a l) {png : Png}
    (hshown : shown mac dir (cacheAfter mac dir lookups) l = some png) :
    ∃ app, resolved mac l = .ok app ∧ mac.render app l.size = .ok png := by
  have hown := @own_cacheAfter _ _ dir _ _ hresolves hapart
  unfold shown at hshown
  rcases ensurePng_cases mac dir (cacheAfter mac dir lookups) l with ⟨png', hfile, heq⟩ | ⟨e, heq⟩ |
    ⟨app, png', happ, hrender, heq⟩
  · simp only [heq, hfile, Option.some.injEq] at hshown
    subst hshown
    exact hown png' hfile
  · simp only [heq, reduceCtorEq] at hshown
  · simp only [heq, Function.update_self, Option.some.injEq] at hshown
    subst hshown
    exact ⟨app, happ, hrender⟩

/-- **Two lookups have different files exactly when they are apart**, and where those for different
applications are, no icon of one application is shown for another. -/
theorem icons_apart_iff (mac : Mac Png) (dir : String) :
    (∀ a b : IconLookup, a.cachePath dir ≠ b.cachePath dir ↔ Apart a b) ∧
      ∀ lookups l, (∃ app, resolved mac l = .ok app) →
        (∀ a ∈ lookups, DifferentApps mac a l → Apart a l) →
        ∀ png, shown mac dir (cacheAfter mac dir lookups) l = some png →
          ∃ app, resolved mac l = .ok app ∧ mac.render app l.size = .ok png :=
  ⟨cachePath_ne_iff dir, fun _ _ hresolves hapart _ hshown => shown_own hresolves hapart hshown⟩

end Runs

/-- A machine with two applications that are known by name; an icon is that of its bundle. -/
def chineseApps : Mac String where
  mdfind _ := .ok ""
  fileExists path := path ∈ ["/Applications/飞书.app", "/Applications/微信.app"]
  home := none
  render app _ := .ok app

def feishu : IconLookup := ⟨none, none, some "飞书", 64⟩

def weChat : IconLookup := ⟨none, none, some "微信", 64⟩

def iconsDir : String := "/Users/me/Library/Application Support/LinkPilot/icons"

/-- The icon of the first application is shown for the second one. -/
theorem cjk_names_collide :
    DifferentApps chineseApps feishu weChat ∧
      feishu.cachePath iconsDir = weChat.cachePath iconsDir ∧
      shown chineseApps iconsDir (cacheAfter chineseApps iconsDir [feishu]) weChat =
        some "/Applications/飞书.app" := by
  have hpath : feishu.cachePath iconsDir = weChat.cachePath iconsDir := by
    rw [cachePath_eq_iff]
    exact ⟨rfl, by decide⟩
  have hfeishu : resolved chineseApps feishu = .ok "/Applications/飞书.app" := by decide
  have hwechat : resolved chineseApps weChat = .ok "/Applications/微信.app" := by decide
  have hcache : cacheAfter chineseApps iconsDir [feishu] =
      Function.update (fun _ => none) (feishu.cachePath iconsDir)
        (some "/Applications/飞书.app") := by
    simp only [cacheAfter, List.foldl_cons, List.foldl_nil, ensurePng, hfeishu]
    rfl
  refine ⟨⟨_, _, hfeishu, hwechat, by decide⟩, hpath, ?_⟩
  simp only [shown, ensurePng, hcache, hpath, Function.update_self, Option.isSome_some, ↓reduceIte]

end LinkPilot.IconCache
