import LinkPilot.Launcher
import LinkPilot.Lib.Texts

/-!
# Firefox profiles

`parse_firefox_profiles` of `crates/core/src/inventory.rs`, and what the launcher passes to Firefox
for a profile that was listed.

* `parse_eq_sections` — the profiles are those of the sections, each read on its own.
* `parse_render` — the profiles that were written are read back.
* `selectsExactly_iff` — which profiles `-P` selects by the id they were listed under.
-/

set_option autoImplicit false

namespace LinkPilot

/-- `BrowserProfile`. -/
structure BrowserProfile where
  id : String
  displayName : String
  avatarUrl : Option String
  email : Option String
  accentColor : Option String
  isDefault : Bool
  deriving DecidableEq, Repr

namespace Firefox

open Texts (trim isWhitespace strLines trim_eq_self_iff map_trim_strLines)

/-! ## `inventory.rs` -/

/-- `ACCENT_PALETTE`. -/
def accentPalette : List String :=
  ["#4285F4", "#34A853", "#EA4335", "#FBBC04", "#9C27B0", "#FF6D00", "#00ACC1", "#43A047", "#5E35B1",
    "#6E6E73", "#E91E63", "#3F51B5"]

/-- `accent_for`: FNV-1a of 32 bits. -/
def accentFor (id : String) : String :=
  let hash : UInt32 := (id.toList.flatMap String.utf8EncodeChar).foldl
    (fun hash b => (hash ^^^ b.toUInt32) * 0x01000193) 0x811c9dc5
  accentPalette.get ⟨hash.toNat % accentPalette.length, Nat.mod_lt _ (by decide)⟩

/-- What the parser carries from line to line. -/
structure IniState where
  out : List BrowserProfile
  currentName : Option String
  currentPath : Option String
  currentDefault : Bool

/-- The profile of a section with a name and a path. -/
def profileOf (name path : String) (isDefault : Bool) : BrowserProfile where
  id := path
  displayName := name
  avatarUrl := none
  email := none
  accentColor := some (accentFor path)
  isDefault := isDefault

/-- `flush`. -/
def IniState.flush (s : IniState) : List BrowserProfile :=
  match s.currentName, s.currentPath with
  | some name, some path => s.out ++ [profileOf name path s.currentDefault]
  | _, _ => s.out

/-- `line.starts_with('[') && line.ends_with(']')`. -/
def isHeader (line : List Char) : Bool := line.head? == some '[' && line.getLast? == some ']'

/-- `line.strip_prefix(key)`. -/
def stripKey (key : String) (line : List Char) : Option String :=
  (key.toList.isPrefixOf? line).map String.ofList

/-- The body of the loop, for a line that is trimmed. -/
def IniState.line (s : IniState) (line : List Char) : IniState :=
  if isHeader line then ⟨s.flush, none, none, false⟩
  else
    match stripKey "Name=" line with
    | some rest => { s with currentName := some rest }
    | none =>
      match stripKey "Path=" line with
      | some rest => { s with currentPath := some rest }
      | none =>
        match stripKey "Default=" line with
        | some rest => { s with currentDefault := trim rest.toList == ['1'] }
        | none => s

/-- `parse_firefox_profiles`, for the text of the file. -/
def parseFirefoxProfiles (raw : String) : List BrowserProfile :=
  ((strLines raw.toList).foldl (fun (s : IniState) line => s.line (trim line))
    ⟨[], none, none, false⟩).flush

/-! ## Sections -/

/-- The value of the last line with the key. -/
def valueOf (key : String) (lines : List (List Char)) : Option String :=
  (lines.filterMap (stripKey key)).getLast?

/-- The last `Default` line says `1`. -/
def defaultOf (lines : List (List Char)) : Bool :=
  (valueOf "Default=" lines).any fun rest => trim rest.toList == ['1']

/-- The profile of a section: it takes a name and a path. -/
def sectionProfile (lines : List (List Char)) : Option BrowserProfile :=
  (valueOf "Name=" lines).bind fun name =>
    (valueOf "Path=" lines).map fun path => profileOf name path (defaultOf lines)

/-- The lines between the headers; the first section is what stands before any header. -/
def sections (raw : String) : List (List (List Char)) :=
  ((strLines raw.toList).map trim).splitOnP isHeader

theorem valueOf_append (key : String) (lines : List (List Char)) (line : List Char) :
    valueOf key (lines ++ [line]) = (stripKey key line).or (valueOf key lines) := by
  unfold valueOf
  rw [List.filterMap_append]
  cases hline : stripKey key line with
  | none => simp [hline]
  | some rest => simp [hline]

theorem stripKey_eq_some {key : String} {line : List Char} {rest : String}
    (h : stripKey key line = some rest) : line = key.toList ++ rest.toList := by
  obtain ⟨r, hr, rfl⟩ := Option.map_eq_some_iff.mp h
  rw [String.toList_ofList]
  exact (List.isPrefixOf?_eq_some_iff_append_eq.mp hr).symm

/-- A line has one key at most. -/
theorem stripKey_name {line : List Char} {rest : String} (h : stripKey "Name=" line = some rest) :
    stripKey "Path=" line = none ∧ stripKey "Default=" line = none := by
  rw [stripKey_eq_some h]
  exact ⟨rfl, rfl⟩

theorem stripKey_path {line : List Char} {rest : String} (h : stripKey "Path=" line = some rest) :
    stripKey "Default=" line = none := by
  rw [stripKey_eq_some h]
  rfl

/-- The parser within a section: what it has pushed, and what it has read of the section. -/
def IniState.within (out : List BrowserProfile) (seen : List (List Char)) : IniState :=
  ⟨out, valueOf "Name=" seen, valueOf "Path=" seen, defaultOf seen⟩

theorem IniState.flush_within (out : List BrowserProfile) (seen : List (List Char)) :
    (within out seen).flush = out ++ (sectionProfile seen).toList := by
  unfold within flush sectionProfile
  cases valueOf "Name=" seen with
  | none => simp
  | some name => cases valueOf "Path=" seen <;> simp

theorem IniState.line_header {line : List Char} (h : isHeader line = true)
    (out : List BrowserProfile) (seen : List (List Char)) :
    (within out seen).line line = within (out ++ (sectionProfile seen).toList) [] := by
  rw [IniState.line, if_pos h, flush_within]
  rfl

theorem IniState.line_other {line : List Char} (h : isHeader line = false)
    (out : List BrowserProfile) (seen : List (List Char)) :
    (within out seen).line line = within out (seen ++ [line]) := by
  rw [IniState.line, if_neg (Bool.eq_false_iff.mp h)]
  unfold within defaultOf
  rw [valueOf_append, valueOf_append, valueOf_append]
  cases hname : stripKey "Name=" line with
  | some rest =>
    obtain ⟨hpath, hdefault⟩ := stripKey_name hname
    simp [hpath, hdefault]
  | none =>
    cases hpath : stripKey "Path=" line with
    | some rest => simp [stripKey_path hpath]
    | none => cases hdefault : stripKey "Default=" line <;> simp

theorem filterMap_singleton {α β : Type} (f : α → Option β) (a : α) :
    [a].filterMap f = (f a).toList := by
  rw [List.filterMap_cons, List.filterMap_nil]
  cases f a <;> rfl

/-- The loop from within a section. -/
theorem foldl_line (lines : List (List Char)) (out : List BrowserProfile)
    (seen : List (List Char)) :
    (lines.foldl (fun (s : IniState) line => s.line (trim line)) (IniState.within out seen)).flush =
      out ++ (((lines.map trim).splitOnP isHeader).modifyHead (seen ++ ·)).filterMap
        sectionProfile := by
  induction lines generalizing out seen with
  | nil =>
    rw [List.map_nil, List.splitOnP_nil, List.modifyHead_cons, List.append_nil,
      filterMap_singleton]
    exact IniState.flush_within out seen
  | cons line lines ih =>
    rw [List.foldl_cons, List.map_cons, List.splitOnP_cons_eq_if_modifyHead]
    cases hheader : isHeader (trim line) with
    | true =>
      rw [IniState.line_header hheader, ih, if_pos rfl, List.modifyHead_cons, List.append_nil,
        List.filterMap_cons]
      have hid : (([] : List (List Char)) ++ ·) = id := rfl
      rw [hid, List.modifyHead_id, id, List.append_assoc]
      cases sectionProfile seen <;> rfl
    | false =>
      have hcons : (seen ++ [trim line] ++ ·) = (seen ++ ·) ∘ List.cons (trim line) := by
        funext rest
        simp
      rw [IniState.line_other hheader, ih, if_neg Bool.false_ne_true, List.modifyHead_modifyHead,
        hcons]

/-- **The profiles are those of the sections.** -/
theorem parse_eq_sections (raw : String) :
    parseFirefoxProfiles raw = (sections raw).filterMap sectionProfile := by
  have hloop := foldl_line (strLines raw.toList) [] []
  have hid : (([] : List (List Char)) ++ ·) = id := rfl
  rw [hid, List.modifyHead_id, List.nil_append] at hloop
  exact hloop

/-! ## What was written -/

/-- A text without white space at its ends, and without a line break. -/
def Trimmed (text : String) : Prop := trim text.toList = text.toList ∧ '\n' ∉ text.toList

instance (text : String) : Decidable (Trimmed text) := inferInstanceAs (Decidable (_ ∧ _))

/-- A profile that can be written. -/
structure IniProfile where
  name : String
  path : String
  isDefault : Bool
  name_trimmed : Trimmed name
  path_trimmed : Trimmed path

/-- The lines below the header of a profile. -/
def IniProfile.body (p : IniProfile) : List (List Char) :=
  ("Name=".toList ++ p.name.toList) :: "IsRelative=1".toList :: ("Path=".toList ++ p.path.toList) ::
    ((if p.isDefault then ["Default=1".toList] else []) ++ [[]])

/-- The lines of the profiles from number `n` on. -/
def iniLines : Nat → List IniProfile → List (List Char)
  | _, [] => []
  | n, p :: ps =>
    ("[Profile".toList ++ Nat.toDigits 10 n ++ [']']) :: (p.body ++ iniLines (n + 1) ps)

/-- `profiles.ini`. -/
def renderIni (ps : List IniProfile) : String := .ofList (Lines.join '\n' (iniLines 0 ps))

/-- A line that the parser reads as it was written. -/
def Clean (line : List Char) : Prop := trim line = line ∧ '\n' ∉ line

instance (line : List Char) : Decidable (Clean line) := inferInstanceAs (Decidable (_ ∧ _))

theorem clean_append {key : List Char} {text : String} (hkey : Clean key)
    (hlast : ∃ c, key.getLast? = some c ∧ isWhitespace c = false) (htext : Trimmed text) :
    Clean (key ++ text.toList) := by
  obtain ⟨c, hc, hws⟩ := hlast
  obtain ⟨hhead, -⟩ := trim_eq_self_iff.mp hkey.1
  obtain ⟨-, hback⟩ := trim_eq_self_iff.mp htext.1
  refine ⟨trim_eq_self_iff.mpr ⟨fun d hd => ?_, fun d hd => ?_⟩,
    List.not_mem_append hkey.2 htext.2⟩
  · rw [List.head?_append] at hd
    cases key with
    | nil => cases hc
    | cons e key => exact hhead d hd
  · rw [List.getLast?_append, hc] at hd
    cases hlast : text.toList.getLast? with
    | none =>
      rw [hlast] at hd
      cases hd
      exact hws
    | some e =>
      rw [hlast] at hd
      cases hd
      exact hback _ hlast

theorem clean_header (n : Nat) : Clean ("[Profile".toList ++ Nat.toDigits 10 n ++ [']']) := by
  have hdigits : '\n' ∉ Nat.toDigits 10 n := fun hmem =>
    absurd (Nat.isDigit_of_mem_toDigits (by decide) (by decide) hmem) (by decide)
  refine ⟨trim_eq_self_iff.mpr ⟨fun c hc => ?_, fun c hc => ?_⟩, ?_⟩
  · cases hc
    decide
  · rw [List.getLast?_concat] at hc
    cases hc
    decide
  · exact List.not_mem_append (List.not_mem_append (by decide) hdigits) (by decide)

theorem isHeader_header (n : Nat) :
    isHeader ("[Profile".toList ++ Nat.toDigits 10 n ++ [']']) = true := by
  rw [isHeader, List.getLast?_concat]
  rfl

theorem IniProfile.clean_body (p : IniProfile) :
    ∀ l ∈ p.body, Clean l ∧ isHeader l = false := by
  have hname : Clean ("Name=".toList ++ p.name.toList) :=
    clean_append (by decide) ⟨'=', rfl, by decide⟩ p.name_trimmed
  have hpath : Clean ("Path=".toList ++ p.path.toList) :=
    clean_append (by decide) ⟨'=', rfl, by decide⟩ p.path_trimmed
  intro l hl
  unfold body at hl
  simp only [List.mem_cons, List.mem_append, List.not_mem_nil, or_false] at hl
  rcases hl with rfl | rfl | rfl | hl | rfl
  · exact ⟨hname, rfl⟩
  · exact ⟨by decide, rfl⟩
  · exact ⟨hpath, rfl⟩
  · split at hl
    · cases List.mem_singleton.mp hl
      exact ⟨by decide, rfl⟩
    · cases hl
  · exact ⟨by decide, rfl⟩

theorem clean_iniLines (ps : List IniProfile) (n : Nat) : ∀ l ∈ iniLines n ps, Clean l := by
  induction ps generalizing n with
  | nil => simp [iniLines]
  | cons p ps ih =>
    rw [iniLines, List.forall_mem_cons]
    refine ⟨clean_header n, fun l hl => ?_⟩
    rcases List.mem_append.mp hl with hl | hl
    · exact (p.clean_body l hl).1
    · exact ih (n + 1) l hl

theorem splitOnP_append {α : Type} {p : α → Bool} {xs : List α} (h : ∀ x ∈ xs, p x = false)
    (ys : List α) : (xs ++ ys).splitOnP p = (ys.splitOnP p).modifyHead (xs ++ ·) := by
  induction xs with
  | nil =>
    have hid : (([] : List α) ++ ·) = id := rfl
    rw [hid, List.modifyHead_id]
    rfl
  | cons x xs ih =>
    obtain ⟨hx, hxs⟩ := List.forall_mem_cons.mp h
    rw [List.cons_append, List.splitOnP_cons_eq_if_modifyHead, hx, if_neg Bool.false_ne_true,
      ih hxs, List.modifyHead_modifyHead]
    rfl

theorem splitOnP_iniLines (ps : List IniProfile) (n : Nat) :
    (iniLines n ps).splitOnP isHeader = [] :: ps.map IniProfile.body := by
  induction ps generalizing n with
  | nil => rfl
  | cons p ps ih =>
    rw [iniLines, List.splitOnP_cons_eq_if_modifyHead, isHeader_header, if_pos rfl,
      splitOnP_append fun l hl => (p.clean_body l hl).2, ih]
    simp

/-- What is read of the lines of a profile. -/
theorem IniProfile.sectionProfile_body (p : IniProfile) :
    sectionProfile p.body = some (profileOf p.name p.path p.isDefault) := by
  have hname : valueOf "Name=" p.body = some (String.ofList p.name.toList) := by
    cases h : p.isDefault <;> rw [body, h] <;> rfl
  have hpath : valueOf "Path=" p.body = some (String.ofList p.path.toList) := by
    cases h : p.isDefault <;> rw [body, h] <;> rfl
  have hdefault : defaultOf p.body = p.isDefault := by
    cases h : p.isDefault <;> rw [body, h] <;> rfl
  rw [sectionProfile, hname, hpath, hdefault, String.ofList_toList, String.ofList_toList]
  rfl

/-- **The profiles that were written.** -/
theorem parse_render (ps : List IniProfile) : parseFirefoxProfiles (renderIni ps) =
    ps.map fun p => profileOf p.name p.path p.isDefault := by
  have hclean := clean_iniLines ps 0
  have hlines : sections (renderIni ps) = [] :: ps.map IniProfile.body := by
    have hjoin := Lines.lines_join fun l hl => (hclean l hl).2
    have htrim : (iniLines 0 ps).map trim = iniLines 0 ps :=
      (List.map_congr_left fun l hl => (hclean l hl).1).trans (List.map_id _)
    rw [sections, map_trim_strLines, renderIni, String.toList_ofList, hjoin, htrim, splitOnP_iniLines]
  have hnone : sectionProfile [] = none := rfl
  rw [parse_eq_sections, hlines, List.filterMap_cons_none hnone, List.filterMap_map]
  exact (List.filterMap_congr fun p _ => p.sectionProfile_body).trans
    (congrFun List.filterMap_eq_map ps)

/-- **`profiles.ini`.**  Every section is read on its own, and what was written is read back. -/
theorem parseFirefoxProfiles_spec :
    (∀ raw, parseFirefoxProfiles raw = (sections raw).filterMap sectionProfile) ∧
      ∀ ps : List IniProfile, parseFirefoxProfiles (renderIni ps) =
        ps.map fun p => profileOf p.name p.path p.isDefault :=
  ⟨parse_eq_sections, parse_render⟩

/-! ## Launching -/

/-- The name that is given with `-P`. -/
def profileArg : List String → Option String
  | "-P" :: name :: _ => some name
  | _ => none

/-- Of the profiles that were listed, the command selects `p` and no other one. -/
def SelectsExactly (profiles : List BrowserProfile) (cmd : Command) (p : BrowserProfile) : Prop :=
  ∃ name, profileArg cmd.args = some name ∧ ∀ q ∈ profiles, q.displayName = name ↔ q = p

/-- `target.profile = Some(profile_id)`, for the profile that was picked. -/
def pickTarget (target : BrowserTarget) (p : BrowserProfile) : BrowserTarget :=
  { target with profile := some p.id }

/-- Firefox gets the id of the profile with `-P`. -/
theorem profileArg_commandFor {browser : InstalledBrowser} (h : browser.kind = .firefox)
    (target : BrowserTarget) (p : BrowserProfile) (url : String) :
    profileArg (commandFor browser (pickTarget target p) url).args = some p.id := by
  unfold commandFor
  rw [h]
  rfl

/-- The profile is named after its path, and no other section with a path has that name. -/
def OwnName (raw : String) (p : BrowserProfile) : Prop :=
  p.displayName = p.id ∧ ∀ lines ∈ sections raw, valueOf "Name=" lines = some p.id →
    ∀ path, valueOf "Path=" lines = some path → profileOf p.id path (defaultOf lines) = p

theorem mem_parse_iff {raw : String} {p : BrowserProfile} :
    p ∈ parseFirefoxProfiles raw ↔ ∃ lines ∈ sections raw, ∃ name path,
      valueOf "Name=" lines = some name ∧ valueOf "Path=" lines = some path ∧
        profileOf name path (defaultOf lines) = p := by
  rw [parse_eq_sections, List.mem_filterMap]
  refine exists_congr fun lines => and_congr_right fun _ => ?_
  unfold sectionProfile
  simp only [Option.bind_eq_some_iff, Option.map_eq_some_iff]
  constructor
  · rintro ⟨name, hname, path, hpath, hp⟩
    exact ⟨name, path, hname, hpath, hp⟩
  · rintro ⟨name, path, hname, hpath, hp⟩
    exact ⟨name, hname, path, hpath, hp⟩

/-- **Which profiles are selected** by the id that they were listed under. -/
theorem selectsExactly_iff {raw : String} {p : BrowserProfile} (hp : p ∈ parseFirefoxProfiles raw)
    {browser : InstalledBrowser} (hkind : browser.kind = .firefox) (target : BrowserTarget)
    (url : String) :
    SelectsExactly (parseFirefoxProfiles raw) (commandFor browser (pickTarget target p) url) p ↔
      OwnName raw p := by
  unfold SelectsExactly OwnName
  rw [profileArg_commandFor hkind]
  constructor
  · rintro ⟨name, hname, hselects⟩
    cases hname
    refine ⟨(hselects p hp).mpr rfl, fun lines hlines hname path hpath => ?_⟩
    exact (hselects _ (mem_parse_iff.mpr ⟨lines, hlines, p.id, path, hname, hpath, rfl⟩)).mp rfl
  · rintro ⟨hself, honly⟩
    refine ⟨p.id, rfl, fun q hq => ⟨fun hq' => ?_, ?_⟩⟩
    · obtain ⟨lines, hlines, name, path, hname, hpath, rfl⟩ := mem_parse_iff.mp hq
      have hq' : name = p.id := hq'
      subst hq'
      exact honly lines hlines hname path hpath
    · rintro rfl
      exact hself

def firefox : InstalledBrowser :=
  ⟨"firefox", "Firefox", .firefox, "/Applications/Firefox.app/Contents/MacOS/firefox",
    some "org.mozilla.firefox", none⟩

/-- A profile that was renamed to its path. -/
def ownProfile : IniProfile := ⟨"work", "work", false, by decide, by decide⟩

theorem selectsExactly_ownProfile :
    SelectsExactly (parseFirefoxProfiles (renderIni [ownProfile]))
      (commandFor firefox (pickTarget (.new "firefox") (profileOf "work" "work" false))
        "https://github.com/") (profileOf "work" "work" false) := by
  have hlisted := parse_render [ownProfile]
  have hp : profileOf "work" "work" false ∈ parseFirefoxProfiles (renderIni [ownProfile]) := by
    rw [hlisted]
    exact List.mem_cons_self
  refine (selectsExactly_iff hp rfl _ _).mpr ⟨rfl, fun lines hlines hname path hpath => ?_⟩
  have hmem := mem_parse_iff.mpr ⟨lines, hlines, _, path, hname, hpath, rfl⟩
  rw [hlisted] at hmem
  exact List.mem_singleton.mp hmem

/-- The profile of a new installation. -/
def releaseProfile : IniProfile :=
  ⟨"default-release", "Profiles/1a2b3c4d.default-release", true, by decide, by decide⟩

theorem not_selectsExactly :
    profileOf releaseProfile.name releaseProfile.path true ∈
        parseFirefoxProfiles (renderIni [releaseProfile]) ∧
      ¬ SelectsExactly (parseFirefoxProfiles (renderIni [releaseProfile]))
        (commandFor firefox
          (pickTarget (.new "firefox") (profileOf releaseProfile.name releaseProfile.path true))
          "https://github.com/") (profileOf releaseProfile.name releaseProfile.path true) := by
  have hp : profileOf releaseProfile.name releaseProfile.path true ∈
      parseFirefoxProfiles (renderIni [releaseProfile]) := by
    rw [parse_render]
    exact List.mem_cons_self
  refine ⟨hp, ?_⟩
  rintro ⟨name, hname, hselects⟩
  rw [profileArg_commandFor rfl] at hname
  cases hname
  exact absurd ((hselects _ hp).mpr rfl) (by decide)

end Firefox

end LinkPilot
