import LinkPilot.Signals
import Mathlib.Data.List.GetD

/-!
# Two comparisons of versions

The update check offers a release by `compare_versions`
(`apps/desktop/src-tauri/src/commands/mod.rs`), the installer accepts it by `newer`
(`crates/updater/src/lib.rs`).  The `semver` crate is a parameter.

* `compareVersions_pos_iff` — the loop finds the first number in which two versions differ.
* `versionParts_text` — of a semver version the check reads the three numbers, those that are no
  `u32` as zero, and nothing else.
* `comparators_agree_iff` — where the two comparisons agree.
* `comparators_disagree` — a prerelease is not offered its release, and a prerelease that is offered
  cannot be installed.
-/

set_option autoImplicit false

namespace LinkPilot.VersionOrder

open Texts (trim isWhitespace)
open Signals (parseU32 u32Max)

/-! ## The update check -/

/-- `normalize_version`. -/
def normalizeVersion (v : String) : String :=
  match trim v.toList with
  | 'v' :: stripped => String.ofList stripped
  | 'V' :: stripped => String.ofList stripped
  | trimmed => String.ofList trimmed

/-- `version_parts`. -/
def versionParts (version : String) : List Nat :=
  let normalized := normalizeVersion version
  let core := normalized.toList.takeWhile fun c => c ≠ '+' && c ≠ '-'
  (core.splitOn '.').map fun part => (parseU32 part).getD 0

/-- The loop of `compare_versions`, over the indices that are left. -/
def compareParts (a b : List Nat) : List Nat → Int
  | [] => 0
  | i :: is =>
    let diff : Int := a.getD i 0 - b.getD i 0
    if diff ≠ 0 then diff.sign else compareParts a b is

/-- `compare_versions`. -/
def compareVersions (left right : String) : Int :=
  let a := versionParts left
  let b := versionParts right
  compareParts a b (List.range (max a.length b.length))

/-- The first number in which the two differ is greater on the left; what is missing is zero. -/
def Exceeds (a b : List Nat) : Prop :=
  ∃ i, b.getD i 0 < a.getD i 0 ∧ ∀ j, j < i → a.getD j 0 = b.getD j 0

theorem compareParts_pos_iff (a b : List Nat) (start len : Nat) :
    0 < compareParts a b (List.range' start len) ↔
      ∃ i, start ≤ i ∧ i < start + len ∧ b.getD i 0 < a.getD i 0 ∧
        ∀ j, start ≤ j → j < i → a.getD j 0 = b.getD j 0 := by
  induction len generalizing start with
  | zero =>
    simp only [List.range'_zero, compareParts, Int.lt_irrefl, false_iff]
    rintro ⟨i, hstart, hi, -⟩
    omega
  | succ len ih =>
    rw [List.range'_succ, compareParts]
    by_cases hdiff : (a.getD start 0 : Int) - b.getD start 0 = 0
    · have heq : a.getD start 0 = b.getD start 0 := by omega
      rw [if_neg (not_not_intro hdiff), ih]
      constructor
      · rintro ⟨i, hi, hlt, hgt, hsame⟩
        refine ⟨i, by omega, by omega, hgt, fun j hj hji => ?_⟩
        by_cases hjs : j = start
        · rw [hjs, heq]
        · exact hsame j (by omega) hji
      · rintro ⟨i, hi, hlt, hgt, hsame⟩
        have hne : i ≠ start := by
          rintro rfl
          omega
        exact ⟨i, by omega, by omega, hgt, fun j hj => hsame j (by omega)⟩
    · rw [if_pos hdiff, Int.sign_pos_iff]
      constructor
      · intro hpos
        exact ⟨start, (Nat.le_refl _), by omega, by omega, fun j hj hji => by omega⟩
      · rintro ⟨i, hi, -, hgt, hsame⟩
        by_cases his : i = start
        · subst his
          omega
        · have := hsame start (Nat.le_refl _) (by omega)
          omega

/-- **The update check** reports the first difference of the parts. -/
theorem compareVersions_pos_iff (left right : String) :
    0 < compareVersions left right ↔ Exceeds (versionParts left) (versionParts right) := by
  simp only [compareVersions, Exceeds, List.range_eq_range', compareParts_pos_iff]
  constructor
  · rintro ⟨i, -, -, hgt, hsame⟩
    exact ⟨i, hgt, fun j => hsame j (Nat.zero_le j)⟩
  · rintro ⟨i, hgt, hsame⟩
    refine ⟨i, Nat.zero_le i, ?_, hgt, fun j _ => hsame j⟩
    -- past the end of both lists there is no difference
    by_contra hlen
    have hend : (versionParts left).length ≤ i := by omega
    rw [List.getD_eq_default _ _ hend] at hgt
    omega

/-! ## The installer -/

/-- `semver::Version`. -/
structure Version where
  major : Nat
  minor : Nat
  patch : Nat
  pre : String
  build : String
  deriving DecidableEq

/-- What the `semver` crate offers: its parser and the orders of its identifiers. -/
structure Semver where
  parse : String → Except String Version
  preLt : String → String → Bool
  buildLt : String → String → Bool

/-- The derived order of `Version`, field after field. -/
def Semver.lt (semver : Semver) (v w : Version) : Prop :=
  v.major < w.major ∨ v.major = w.major ∧
    (v.minor < w.minor ∨ v.minor = w.minor ∧
      (v.patch < w.patch ∨ v.patch = w.patch ∧
        (semver.preLt v.pre w.pre = true ∨ v.pre = w.pre ∧ semver.buildLt v.build w.build = true)))

instance (semver : Semver) (v w : Version) : Decidable (semver.lt v w) :=
  inferInstanceAs (Decidable (_ ∨ _))

/-- `newer`.  The order is total, so that `next <= current` fails where `current < next`. -/
def newer (semver : Semver) (version current : String) : Except String Unit :=
  match semver.parse version with
  | .error e => .error e
  | .ok next =>
    if next.pre ≠ "" then .error "Only a newer stable release can be installed"
    else
      match semver.parse current with
      | .error e => .error e
      | .ok running =>
        if semver.lt running next then .ok ()
        else .error "Only a newer stable release can be installed"

/-- The text of a version. -/
def Version.text (v : Version) : String :=
  toString v.major ++ "." ++ toString v.minor ++ "." ++ toString v.patch ++
    (if v.pre = "" then "" else "-" ++ v.pre) ++ (if v.build = "" then "" else "+" ++ v.build)

/-- A character of a prerelease or of build metadata. -/
def isIdentifierChar (c : Char) : Bool := c.isAlphanum || c == '-' || c == '.'

/-- What the crate documents: a text that parses is the text of its version, and a prerelease comes
before its release. -/
structure Semver.Documented (semver : Semver) : Prop where
  text : ∀ text v, semver.parse text = .ok v →
    text = v.text ∧ ∀ c ∈ v.pre.toList ++ v.build.toList, isIdentifierChar c = true
  release : ∀ pre, semver.preLt pre "" = true ↔ pre ≠ ""

theorem newer_ok_iff {semver : Semver} {version current : String} :
    newer semver version current = .ok () ↔
      ∃ next running, semver.parse version = .ok next ∧ semver.parse current = .ok running ∧
        next.pre = "" ∧ semver.lt running next := by
  unfold newer
  constructor
  · intro h
    split at h
    · cases h
    · rename_i next hnext
      split at h
      · cases h
      · rename_i hpre
        split at h
        · cases h
        · rename_i running hrunning
          split at h
          · rename_i hlt
            exact ⟨next, running, hnext, hrunning, not_not.mp hpre, hlt⟩
          · cases h
  · rintro ⟨next, running, hnext, hrunning, hpre, hlt⟩
    simp only [hnext, hrunning, hpre, hlt, ne_eq, not_true_eq_false, if_false, if_true]

/-! ## What the update check reads of a version -/

/-- A number as the update check reads it. -/
def asU32 (n : Nat) : Nat := if n ≤ u32Max then n else 0

def Version.numbers (v : Version) : List Nat := [v.major, v.minor, v.patch]

/-- The characters before the prerelease and the build metadata, and the others. -/
def Version.core (v : Version) : List Char :=
  ['.'].intercalate (v.numbers.map (Nat.toDigits 10))

def Version.tail (v : Version) : List Char :=
  (if v.pre = "" then [] else '-' :: v.pre.toList) ++
    (if v.build = "" then [] else '+' :: v.build.toList)

theorem Version.toList_text (v : Version) : v.text.toList = v.core ++ v.tail := by
  unfold text core tail numbers
  split <;> split <;> simp [List.intercalate, List.intersperse]

theorem isDigit_of_mem_toDigits {n : Nat} {c : Char} (h : c ∈ Nat.toDigits 10 n) :
    c.isDigit = true :=
  Nat.isDigit_of_mem_toDigits (by decide) (by decide) h

theorem isDigit_of_mem_core {v : Version} {c : Char} (h : c ∈ v.core) :
    c.isDigit = true ∨ c = '.' := by
  simp only [Version.core, Version.numbers, List.map_cons, List.map_nil, List.intercalate,
    List.intersperse, List.flatten_cons, List.flatten_nil, List.append_nil, List.mem_append,
    List.mem_singleton] at h
  rcases h with h | h | h | h | h
  · exact .inl (isDigit_of_mem_toDigits h)
  · exact .inr h
  · exact .inl (isDigit_of_mem_toDigits h)
  · exact .inr h
  · exact .inl (isDigit_of_mem_toDigits h)

theorem not_isWhitespace_of_isIdentifierChar {c : Char} (h : isIdentifierChar c = true) :
    isWhitespace c = false := by
  have hkinds : ((((decide (65 ≤ c.val ∧ c.val ≤ 90) ||
      (decide (97 ≤ c.val) && decide (c.val ≤ 122))) ||
      (decide (48 ≤ c.val) && decide (c.val ≤ 57))) || c == '-') || c == '.') = true := h
  simp only [Bool.or_eq_true, Bool.and_eq_true, decide_eq_true_eq, beq_iff_eq,
    UInt32.le_iff_toNat_le] at hkinds
  have hrange : 0x21 ≤ c.toNat ∧ c.toNat ≤ 0x7e := by
    rcases hkinds with ((((⟨hlo, hhi⟩ | ⟨hlo, hhi⟩) | ⟨hlo, hhi⟩) | rfl) | rfl)
    · exact ⟨Nat.le_trans (by decide) hlo, Nat.le_trans hhi (by decide)⟩
    · exact ⟨Nat.le_trans (by decide) hlo, Nat.le_trans hhi (by decide)⟩
    · exact ⟨Nat.le_trans (by decide) hlo, Nat.le_trans hhi (by decide)⟩
    · decide
    · decide
  exact Texts.not_isWhitespace_of_graphic hrange.1 hrange.2

/-- The text of a version begins with a digit. -/
theorem exists_digit_text (v : Version) :
    ∃ c cs, v.text.toList = c :: cs ∧ c.isDigit = true := by
  have htext : ∃ rest, v.text.toList = Nat.toDigits 10 v.major ++ rest := by
    rw [v.toList_text]
    exact ⟨_, List.append_assoc _ _ _⟩
  obtain ⟨rest, htext⟩ := htext
  obtain ⟨c, cs, hc⟩ := List.exists_cons_of_ne_nil (@Nat.toDigits_ne_nil v.major 10)
  refine ⟨c, cs ++ rest, by rw [htext, hc]; rfl, ?_⟩
  exact isDigit_of_mem_toDigits (n := v.major) (hc ▸ List.mem_cons_self)

section Text

variable {v : Version}
  (hchars : ∀ c ∈ v.pre.toList ++ v.build.toList, isIdentifierChar c = true)

include hchars

theorem not_isWhitespace_of_mem_text {c : Char} (h : c ∈ v.text.toList) :
    isWhitespace c = false := by
  rw [v.toList_text, List.mem_append] at h
  rcases h with h | h
  · rcases isDigit_of_mem_core h with hdigit | rfl
    · exact Texts.not_isWhitespace_of_isDigit hdigit
    · decide
  · have hpart : ∀ part : String, (∀ c ∈ part.toList, isIdentifierChar c = true) →
        ∀ d, isWhitespace d = false → c ∈ (if part = "" then [] else d :: part.toList) →
          isWhitespace c = false := by
      intro part hpart d hd hc
      split at hc
      · cases hc
      · rcases List.mem_cons.mp hc with rfl | hc
        · exact hd
        · exact not_isWhitespace_of_isIdentifierChar (hpart c hc)
    rcases List.mem_append.mp h with h | h
    · exact hpart v.pre (fun c hc => hchars c (List.mem_append_left _ hc)) _ (by decide) h
    · exact hpart v.build (fun c hc => hchars c (List.mem_append_right _ hc)) _ (by decide) h

theorem normalizeVersion_text : normalizeVersion v.text = v.text := by
  obtain ⟨c, cs, htext, hdigit⟩ := exists_digit_text v
  have htrim : trim v.text.toList = v.text.toList :=
    Texts.trim_eq_self fun c hc => not_isWhitespace_of_mem_text hchars hc
  unfold normalizeVersion
  rw [htrim]
  split
  · rename_i hv
    rw [htext] at hv
    cases hv
    exact absurd hdigit (by decide)
  · rename_i hv
    rw [htext] at hv
    cases hv
    exact absurd hdigit (by decide)
  · exact String.ofList_toList

/-- **What the update check reads** of a semver version. -/
theorem versionParts_text : versionParts v.text = v.numbers.map asU32 := by
  have hcore : v.text.toList.takeWhile (fun c => c ≠ '+' && c ≠ '-') = v.core := by
    rw [v.toList_text, List.takeWhile_append_of_pos]
    · have htail : v.tail = [] ∨ ∃ cs, v.tail = '-' :: cs ∨ v.tail = '+' :: cs := by
        unfold Version.tail
        split <;> split <;> simp
      rcases htail with htail | ⟨cs, htail | htail⟩ <;> rw [htail] <;> simp
    · intro c hc
      rcases isDigit_of_mem_core hc with hdigit | rfl
      · have hplus : c ≠ '+' := by
          rintro rfl
          exact absurd hdigit (by decide)
        have hminus : c ≠ '-' := by
          rintro rfl
          exact absurd hdigit (by decide)
        simp [hplus, hminus]
      · decide
  have hsplit : v.core.splitOn '.' = v.numbers.map (Nat.toDigits 10) := by
    refine List.splitOn_intercalate '.' ?_ (by simp [Version.numbers])
    intro digits hdigits hdot
    obtain ⟨n, -, rfl⟩ := List.mem_map.mp hdigits
    exact absurd (isDigit_of_mem_toDigits hdot) (by decide)
  simp only [versionParts, normalizeVersion_text hchars, hcore, hsplit, List.map_map]
  refine List.map_congr_left fun n _ => ?_
  simp only [Function.comp_apply, Signals.parseU32_toDigits, asU32]
  split <;> rfl

end Text

/-! ## Where the comparisons agree -/

theorem exceeds_triple {a b c x y z : Nat} :
    Exceeds [a, b, c] [x, y, z] ↔ x < a ∨ x = a ∧ (y < b ∨ y = b ∧ z < c) := by
  constructor
  · rintro ⟨i, hgt, hsame⟩
    match i with
    | 0 => exact .inl hgt
    | 1 => exact .inr ⟨(hsame 0 (by omega)).symm, .inl hgt⟩
    | 2 => exact .inr ⟨(hsame 0 (by omega)).symm, .inr ⟨(hsame 1 (by omega)).symm, hgt⟩⟩
    | i + 3 => exact absurd hgt (Nat.lt_irrefl 0)
  · rintro (hgt | ⟨rfl, hgt | ⟨rfl, hgt⟩⟩)
    · exact ⟨0, hgt, nofun⟩
    · refine ⟨1, hgt, fun j hj => ?_⟩
      obtain rfl : j = 0 := by omega
      rfl
    · refine ⟨2, hgt, fun j hj => ?_⟩
      obtain rfl | rfl : j = 0 ∨ j = 1 := by omega
      · rfl
      · rfl

theorem not_exceeds_self (a : List Nat) : ¬ Exceeds a a := by
  rintro ⟨i, hgt, -⟩
  exact Nat.lt_irrefl _ hgt

/-- The order of the crate: the numbers, and for equal ones the prerelease and the build. -/
theorem Semver.lt_iff {semver : Semver} {v w : Version} :
    semver.lt v w ↔ Exceeds w.numbers v.numbers ∨ w.numbers = v.numbers ∧
      (semver.preLt v.pre w.pre = true ∨
        v.pre = w.pre ∧ semver.buildLt v.build w.build = true) := by
  simp only [lt, Version.numbers, exceeds_triple, List.cons.injEq, and_true]
  grind

/-- What the installer compares: a stable version with a version. -/
structure Comparable (semver : Semver) (latest current : String) (next running : Version) :
    Prop where
  latest : semver.parse latest = .ok next
  stable : next.pre = ""
  current : semver.parse current = .ok running

/-- Of two versions with the same numbers the running one is no prerelease and has no earlier build
metadata, and two with different numbers keep their order when a number that is no `u32` is read as
zero.  If the installer has nothing to compare, the parts are in no order to offer the release. -/
structure InAgreement (semver : Semver) (latest current : String) : Prop where
  same : ∀ next running, Comparable semver latest current next running →
    next.numbers = running.numbers →
      running.pre = "" ∧ semver.buildLt running.build next.build = false
  apart : ∀ next running, Comparable semver latest current next running →
    next.numbers ≠ running.numbers →
      (Exceeds (next.numbers.map asU32) (running.numbers.map asU32) ↔
        Exceeds next.numbers running.numbers)
  other : (∀ next running, ¬ Comparable semver latest current next running) →
    ¬ Exceeds (versionParts latest) (versionParts current)

section Agreement

variable {semver : Semver} {latest current : String} {next running : Version}

theorem newer_ok_iff_lt (h : Comparable semver latest current next running) :
    newer semver latest current = .ok () ↔ semver.lt running next := by
  rw [newer_ok_iff]
  constructor
  · rintro ⟨next', running', hnext, hrunning, -, hlt⟩
    rw [h.latest] at hnext
    rw [h.current] at hrunning
    cases hnext
    cases hrunning
    exact hlt
  · intro hlt
    exact ⟨next, running, h.latest, h.current, h.stable, hlt⟩

theorem available_iff (hsemver : semver.Documented)
    (h : Comparable semver latest current next running) :
    0 < compareVersions latest current ↔
      Exceeds (next.numbers.map asU32) (running.numbers.map asU32) := by
  obtain ⟨hnext, hnextChars⟩ := hsemver.text latest next h.latest
  obtain ⟨hrunning, hrunningChars⟩ := hsemver.text current running h.current
  rw [compareVersions_pos_iff, hnext, hrunning, versionParts_text hnextChars,
    versionParts_text hrunningChars]

/-- Of comparable versions: what the two comparisons make of them. -/
theorem agree_iff_of_comparable (hsemver : semver.Documented)
    (h : Comparable semver latest current next running) :
    (0 < compareVersions latest current ↔ newer semver latest current = .ok ()) ↔
      (next.numbers = running.numbers →
          running.pre = "" ∧ semver.buildLt running.build next.build = false) ∧
        (next.numbers ≠ running.numbers →
          (Exceeds (next.numbers.map asU32) (running.numbers.map asU32) ↔
            Exceeds next.numbers running.numbers)) := by
  rw [available_iff hsemver h, newer_ok_iff_lt h, Semver.lt_iff, h.stable, hsemver.release]
  by_cases hsame : next.numbers = running.numbers
  · have hnone : ¬ Exceeds (running.numbers.map asU32) (running.numbers.map asU32) :=
      not_exceeds_self _
    have hnone' : ¬ Exceeds running.numbers running.numbers := not_exceeds_self _
    simp only [hsame, hnone, hnone', false_iff, false_or, true_and, not_or, not_and, ne_eq,
      not_true_eq_false, false_imp_iff, and_true, true_imp_iff, not_not, Bool.not_eq_true]
    constructor
    · rintro ⟨hpre, hbuild⟩
      exact ⟨hpre, hbuild hpre⟩
    · rintro ⟨hpre, hbuild⟩
      exact ⟨hpre, fun _ => hbuild⟩
  · simp only [hsame, false_and, or_false, false_imp_iff, true_and, ne_eq, not_false_eq_true,
      true_imp_iff]

/-- **Version comparators.** For a release tag and a running version, both normalized, the update
check reports an update exactly when the installer accepts it, if and only if they are in
agreement. -/
theorem comparators_agree_iff (hsemver : semver.Documented) (tag running : String) :
    (0 < compareVersions (normalizeVersion tag) (normalizeVersion running) ↔
        newer semver (normalizeVersion tag) (normalizeVersion running) = .ok ()) ↔
      InAgreement semver (normalizeVersion tag) (normalizeVersion running) := by
  by_cases hcomparable : ∃ v w,
      Comparable semver (normalizeVersion tag) (normalizeVersion running) v w
  · obtain ⟨v, w, h⟩ := hcomparable
    have hunique : ∀ v' w', Comparable semver (normalizeVersion tag) (normalizeVersion running)
        v' w' → v' = v ∧ w' = w := by
      intro v' w' h'
      exact ⟨Except.ok.inj (h'.latest.symm.trans h.latest),
        Except.ok.inj (h'.current.symm.trans h.current)⟩
    rw [agree_iff_of_comparable hsemver h]
    constructor
    · rintro ⟨hsame, hapart⟩
      refine ⟨?_, ?_, fun hnone => absurd h (hnone v w)⟩
      · intro v' w' h'
        obtain ⟨rfl, rfl⟩ := hunique v' w' h'
        exact hsame
      · intro v' w' h'
        obtain ⟨rfl, rfl⟩ := hunique v' w' h'
        exact hapart
    · intro hagree
      exact ⟨hagree.same v w h, hagree.apart v w h⟩
  · have hrejected : newer semver (normalizeVersion tag) (normalizeVersion running) ≠ .ok () := by
      intro hok
      obtain ⟨v, w, hv, hw, hpre, -⟩ := newer_ok_iff.mp hok
      exact hcomparable ⟨v, w, hv, hpre, hw⟩
    push Not at hcomparable
    rw [compareVersions_pos_iff]
    constructor
    · intro hagree
      refine ⟨fun v w h => absurd h (hcomparable v w), fun v w h => absurd h (hcomparable v w),
        fun _ hexceeds => hrejected (hagree.mp hexceeds)⟩
    · intro hagree
      exact iff_of_false (hagree.other hcomparable) hrejected

end Agreement

/-! ## A prerelease -/

/-- The crate on two releases and a prerelease. -/
def releases : Semver where
  parse text :=
    if text = "0.5.11" then .ok ⟨0, 5, 11, "", ""⟩
    else if text = "0.5.12" then .ok ⟨0, 5, 12, "", ""⟩
    else if text = "0.5.12-beta.1" then .ok ⟨0, 5, 12, "beta.1", ""⟩
    else .error "unexpected character"
  preLt pre other := decide (pre ≠ "" ∧ other = "")
  buildLt build other := decide (build = "" ∧ other ≠ "")

theorem releases_documented : releases.Documented where
  text := by
    intro text v h
    simp only [releases] at h
    split at h
    · cases h
      rename_i htext
      exact ⟨htext.trans (by decide), List.all_eq_true.mp (by decide)⟩
    · split at h
      · cases h
        rename_i htext
        exact ⟨htext.trans (by decide), List.all_eq_true.mp (by decide)⟩
      · split at h
        · cases h
          rename_i htext
          exact ⟨htext.trans (by decide), List.all_eq_true.mp (by decide)⟩
        · cases h
  release := by
    intro pre
    simp [releases]

theorem comparators_agree_iff_release :
    releases.Documented ∧
      ((0 < compareVersions (normalizeVersion "v0.5.12") (normalizeVersion "0.5.11") ↔
          newer releases (normalizeVersion "v0.5.12") (normalizeVersion "0.5.11") = .ok ()) ↔
        InAgreement releases (normalizeVersion "v0.5.12") (normalizeVersion "0.5.11")) :=
  ⟨releases_documented, comparators_agree_iff releases_documented "v0.5.12" "0.5.11"⟩

/-- The installer would take 0.5.12 over the running 0.5.12-beta.1, but the check does not offer it;
to 0.5.11 the check offers 0.5.12-beta.1, which the installer rejects. -/
theorem comparators_disagree :
    (¬ 0 < compareVersions (normalizeVersion "v0.5.12") (normalizeVersion "0.5.12-beta.1") ∧
        newer releases (normalizeVersion "v0.5.12") (normalizeVersion "0.5.12-beta.1") = .ok ()) ∧
      (0 < compareVersions (normalizeVersion "v0.5.12-beta.1") (normalizeVersion "0.5.11") ∧
        newer releases (normalizeVersion "v0.5.12-beta.1") (normalizeVersion "0.5.11") ≠
          .ok ()) := by
  have hrelease : normalizeVersion "v0.5.12" = "0.5.12" := by decide
  have hbeta : normalizeVersion "v0.5.12-beta.1" = "0.5.12-beta.1" := by decide
  have hrunning : normalizeVersion "0.5.12-beta.1" = "0.5.12-beta.1" := by decide
  have hold : normalizeVersion "0.5.11" = "0.5.11" := by decide
  rw [hrelease, hbeta, hrunning, hold]
  refine ⟨⟨by decide, rfl⟩, by decide, nofun⟩

end LinkPilot.VersionOrder
