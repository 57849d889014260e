import LinkPilot.Lib.Texts
import LinkPilot.UpdateDownload

/-!
# The checksum of an asset

Model of `parse_checksum_for_asset` of `apps/desktop/src-tauri/src/commands/mod.rs`, which looks up
the hash of a release asset in `checksums.txt`.  The loop skips the lines it does not understand,
except for a line of one word: there the second `parts.next()?` ends the search.

Principal results:

* `readLine_cases` — what one line does to the loop.
* `parseLines_found`, `parseLines_none` — what the loop returns, by what stands before the first
  line of the asset.
* `looksUp_iff` — the lookup is right exactly when no line of one word stands before the first line
  of the asset.
* `looksUp_render` — a file as `shasum` writes it is looked up right.
-/

set_option autoImplicit false

namespace LinkPilot.Checksums

open Texts (trim isWhitespace strLines trim_eq_self_iff)

/-! ## The lookup -/

/-- `line.splitn(2, char::is_whitespace)`: the first part, and the second one if there is one. -/
def splitOnce (line : List Char) : List Char × Option (List Char) :=
  (line.takeWhile fun c => !isWhitespace c, (line.dropWhile fun c => !isWhitespace c).tail?)

/-- `to_ascii_lowercase`. -/
def lower (s : List Char) : List Char := s.map Char.toLower

/-- `path.rsplit('/').next()`. -/
def baseName (path : List Char) : List Char := (path.reverse.takeWhile (· ≠ '/')).reverse

/-- `rest.trim_start_matches('*').trim()`. -/
def plainPath (rest : List Char) : List Char := trim (rest.dropWhile (· = '*'))

/-- `hex.len() != 64 || !hex.chars().all(..)`, the other way. -/
def isHash (hex : List Char) : Bool := hex.length == 64 && hex.all isAsciiHexdigit

/-- How an iteration of the loop ends. -/
inductive LineResult where
  | next
  | stop
  | found (hash : List Char)
  deriving DecidableEq, Repr

/-- One iteration of the loop of `parse_checksum_for_asset`. -/
def readLine (target raw : List Char) : LineResult :=
  let line := trim raw
  if line = [] ∨ line.head? = some '#' then .next
  else
    match splitOnce line with
    | (_, none) => .stop
    | (hex, some rest) =>
      if !isHash hex then .next
      else if lower (baseName (plainPath (trim rest))) = target then .found (lower hex)
      else .next

/-- The loop. -/
def parseLines (target : List Char) : List (List Char) → Option (List Char)
  | [] => none
  | raw :: lines =>
    match readLine target raw with
    | .next => parseLines target lines
    | .stop => none
    | .found hash => some hash

/-- `parse_checksum_for_asset`. -/
def parseChecksumForAsset (content assetName : String) : Option String :=
  (parseLines (lower assetName.toList) (strLines content.toList)).map String.ofList

/-! ## What is looked up -/

/-- A line for the asset: 64 hex digits, white space and a path with that base name, up to the white
space around the line and the path, the `*`s before the path and the case of ASCII letters. -/
structure ChecksumLine (assetName raw hex : List Char) : Prop where
  hash : isHash hex = true
  form : ∃ gap path, trim raw = hex ++ (gap ++ path) ∧ gap ≠ [] ∧ gap.all isWhitespace = true ∧
    (∃ c, path.head? = some c ∧ isWhitespace c = false) ∧
    lower (baseName (plainPath path)) = lower assetName

/-- The line is one for the asset. -/
def Names (assetName raw : List Char) : Prop := ∃ hex, ChecksumLine assetName raw hex

/-- The result is the hash of the first line for the asset, and nothing if there is no such line. -/
structure LooksUp (content assetName : String) (result : Option String) : Prop where
  some_iff : ∀ hash, result = some hash ↔ ∃ before raw after hex,
    strLines content.toList = before ++ raw :: after ∧
    (∀ l ∈ before, ¬ Names assetName.toList l) ∧ ChecksumLine assetName.toList raw hex ∧
    hash = String.ofList (lower hex)
  none_iff : result = none ↔ ∀ raw ∈ strLines content.toList, ¬ Names assetName.toList raw

/-- A line of one word that is no comment. -/
def OneWord (raw : List Char) : Prop :=
  trim raw ≠ [] ∧ (trim raw).head? ≠ some '#' ∧ ∀ c ∈ trim raw, isWhitespace c = false

section Line

variable {assetName raw hex rest : List Char}

theorem not_isWhitespace_of_isAsciiHexdigit {c : Char} (h : isAsciiHexdigit c = true) :
    isWhitespace c = false ∧ c ≠ '#' := by
  have hrange : c.toNat ∈ List.range' 0x30 10 ∨ c.toNat ∈ List.range' 0x41 6 ∨
      c.toNat ∈ List.range' 0x61 6 := by
    simp only [isAsciiHexdigit, Char.isDigit, Bool.or_eq_true, Bool.and_eq_true,
      decide_eq_true_eq, Char.le_def, UInt32.le_iff_toNat_le] at h
    simp only [List.mem_range'_1]
    change ((48 ≤ c.toNat ∧ c.toNat ≤ 57) ∨ 97 ≤ c.toNat ∧ c.toNat ≤ 102) ∨
      65 ≤ c.toNat ∧ c.toNat ≤ 70 at h
    omega
  constructor
  · simp only [List.mem_range'_1] at hrange
    unfold isWhitespace
    simp only [Bool.or_eq_false_iff, Bool.and_eq_false_iff, decide_eq_false_iff_not, beq_eq_false_iff_ne]
    omega
  · rintro rfl
    revert hrange
    decide

/-- The characters of a hash. -/
theorem isHash_iff : isHash hex = true ↔ hex.length = 64 ∧ ∀ c ∈ hex, isAsciiHexdigit c = true := by
  simp [isHash]

/-- A hash and white space behind it. -/
theorem splitOnce_append (hhex : ∀ c ∈ hex, isWhitespace c = false) {c : Char}
    (hc : isWhitespace c = true) (rest : List Char) :
    splitOnce (hex ++ c :: rest) = (hex, some rest) := by
  have hall : ∀ a ∈ hex, (!isWhitespace a) = true := fun a ha => by simp [hhex a ha]
  simp [splitOnce, List.takeWhile_append_of_pos hall, List.dropWhile_append_of_pos hall, hc]

theorem splitOnce_none (h : ∀ c ∈ hex, isWhitespace c = false) : splitOnce hex = (hex, none) := by
  have hall : ∀ a ∈ hex, (!isWhitespace a) = true := fun a ha => by simp [h a ha]
  simp [splitOnce, List.takeWhile_eq_self_iff.mpr hall, List.dropWhile_eq_nil_iff.mpr hall]

/-- A line is one word, or a word, white space and the rest. -/
theorem splitOnce_cases (line : List Char) :
    ((∀ c ∈ line, isWhitespace c = false) ∧ splitOnce line = (line, none)) ∨
    ∃ word c rest, line = word ++ c :: rest ∧ (∀ a ∈ word, isWhitespace a = false) ∧
      isWhitespace c = true ∧ splitOnce line = (word, some rest) := by
  by_cases h : ∀ c ∈ line, isWhitespace c = false
  · exact .inl ⟨h, splitOnce_none h⟩
  · have hne : line.dropWhile (fun c => !isWhitespace c) ≠ [] := by
      rw [Ne, List.dropWhile_eq_nil_iff]
      intro hall
      exact h fun c hc => by simpa using hall c hc
    obtain ⟨c, rest, hdrop⟩ := List.exists_cons_of_ne_nil hne
    have hc : isWhitespace c = true := by
      have hhead := List.head_dropWhile_not (fun c => !isWhitespace c) hne
      simpa [hdrop] using hhead
    have hword : ∀ a ∈ line.takeWhile (fun c => !isWhitespace c), isWhitespace a = false := by
      intro a ha
      simpa using List.mem_takeWhile_imp ha
    refine .inr ⟨_, c, rest, ?_, hword, hc, ?_⟩
    · rw [← hdrop, List.takeWhile_append_dropWhile]
    · simp [splitOnce, hdrop]

/-- The characters at both ends of a trimmed line. -/
theorem trim_trim (raw : List Char) : trim (trim raw) = trim raw := by
  rw [trim_eq_self_iff]
  have hstarts : trim raw <+: raw.dropWhile isWhitespace := List.rdropWhile_prefix isWhitespace _
  constructor
  · intro c hc
    obtain ⟨back, hback⟩ := hstarts
    have hhead : (raw.dropWhile isWhitespace).head? = some c := by
      rw [← hback, List.head?_append, hc]
      rfl
    have hne : raw.dropWhile isWhitespace ≠ [] := by
      intro h
      simp [h] at hhead
    have hnot := List.head_dropWhile_not isWhitespace hne
    rw [List.head?_eq_some_head hne, Option.some.injEq] at hhead
    rw [← hhead]
    simpa using hnot
  · intro c hc
    have hne : trim raw ≠ [] := by
      intro h
      simp [h] at hc
    have hnot := List.rdropWhile_last_not isWhitespace (raw.dropWhile isWhitespace) hne
    rw [List.getLast?_eq_some_getLast hne, Option.some.injEq] at hc
    rw [← hc]
    exact Bool.eq_false_iff.mpr hnot

/-- A text that does not end in white space is trimmed at its front only. -/
theorem trim_eq_dropWhile (h : ∀ c, rest.getLast? = some c → isWhitespace c = false) :
    trim rest = rest.dropWhile isWhitespace := by
  show (rest.dropWhile isWhitespace).rdropWhile isWhitespace = _
  rw [List.rdropWhile_eq_self_iff]
  intro hne hlast
  obtain ⟨front, hfront⟩ := List.dropWhile_suffix (l := rest) isWhitespace
  have hend : rest.getLast? = (rest.dropWhile isWhitespace).getLast? := by
    nth_rewrite 1 [← hfront]
    exact List.getLast?_append_of_ne_nil _ hne
  rw [List.getLast?_eq_some_getLast hne] at hend
  rw [h _ hend] at hlast
  cases hlast

theorem checksumLine_iff {target : List Char} (htarget : target = lower assetName) {word : List Char}
    {c : Char} (hline : trim raw = word ++ c :: rest) (hword : ∀ a ∈ word, isWhitespace a = false)
    (hc : isWhitespace c = true) :
    ChecksumLine assetName raw hex ↔
      hex = word ∧ isHash hex = true ∧ lower (baseName (plainPath (trim rest))) = target := by
  have hlast : ∀ d, (c :: rest).getLast? = some d → isWhitespace d = false := by
    intro d hd
    have htrim := (trim_eq_self_iff.mp (trim_trim raw)).2 d
    rw [hline, List.getLast?_append_of_ne_nil _ (by simp)] at htrim
    exact htrim hd
  have hne : rest ≠ [] := by
    rintro rfl
    have := hlast c rfl
    rw [hc] at this
    cases this
  have htrim : trim rest = rest.dropWhile isWhitespace := by
    apply trim_eq_dropWhile
    intro d hd
    apply hlast d
    rwa [List.getLast?_cons_of_ne_nil hne]
  constructor
  · rintro ⟨hhash, gap, path, hform, hgap, hblank, ⟨d, hd, hpath⟩, hbase⟩
    have hhex : ∀ a ∈ hex, isWhitespace a = false := fun a ha =>
      (not_isWhitespace_of_isAsciiHexdigit ((isHash_iff.mp hhash).2 a ha)).1
    obtain ⟨g, gap, rfl⟩ := List.exists_cons_of_ne_nil hgap
    rw [List.all_cons, Bool.and_eq_true] at hblank
    have hsplit := splitOnce_append hhex hblank.1 (gap ++ path)
    have hsplit' := splitOnce_append hword hc rest
    rw [← hline, hform, List.cons_append, hsplit, Prod.mk.injEq, Option.some.injEq] at hsplit'
    obtain ⟨rfl, rfl⟩ := hsplit'
    refine ⟨rfl, hhash, ?_⟩
    obtain ⟨path, rfl⟩ : ∃ path', path = d :: path' := by
      cases path with
      | nil => cases hd
      | cons a path =>
        cases hd
        exact ⟨path, rfl⟩
    rw [htarget, ← hbase, htrim, List.dropWhile_append_of_pos (List.all_eq_true.mp hblank.2),
      List.dropWhile_cons_of_neg (by simp [hpath])]
  · rintro ⟨rfl, hhash, hbase⟩
    refine ⟨hhash, c :: rest.takeWhile isWhitespace, rest.dropWhile isWhitespace, ?_, by simp, ?_,
      ?_, ?_⟩
    · rw [hline, List.cons_append, List.takeWhile_append_dropWhile]
    · rw [List.all_cons, hc, Bool.true_and, List.all_eq_true]
      exact fun a ha => List.mem_takeWhile_imp ha
    · have hdrop : rest.dropWhile isWhitespace ≠ [] := by
        rw [Ne, List.dropWhile_eq_nil_iff]
        intro hall
        have hend := List.getLast?_eq_some_getLast hne
        have hnot := hlast (rest.getLast hne) (by rwa [List.getLast?_cons_of_ne_nil hne])
        rw [hall _ (List.getLast_mem hne)] at hnot
        cases hnot
      refine ⟨_, List.head?_eq_some_head hdrop, ?_⟩
      simpa using List.head_dropWhile_not isWhitespace hdrop
    · rw [← htrim, hbase, htarget]

/-! ### One line -/

/-- A line of one word names nothing, and no other line stops the loop. -/
theorem readLine_cases (assetName raw : List Char) :
    (readLine (lower assetName) raw = .stop ∧ OneWord raw ∧ ¬ Names assetName raw) ∨
    (readLine (lower assetName) raw = .next ∧ ¬ OneWord raw ∧ ¬ Names assetName raw) ∨
    ∃ hex, readLine (lower assetName) raw = .found (lower hex) ∧ ¬ OneWord raw ∧
      ∀ hex', ChecksumLine assetName raw hex' ↔ hex' = hex := by
  by_cases hskip : trim raw = [] ∨ (trim raw).head? = some '#'
  · refine .inr (.inl ⟨by simp [readLine, hskip], fun h => hskip.elim h.1 h.2.1, ?_⟩)
    rintro ⟨hex, hhash, gap, path, hform, -, -, -, -⟩
    obtain ⟨hlength, hdigits⟩ := isHash_iff.mp hhash
    obtain ⟨a, hex, rfl⟩ := List.exists_cons_of_length_pos (by omega : 0 < hex.length)
    rw [hform] at hskip
    rcases hskip with hnil | hcomment
    · cases hnil
    · cases hcomment
      exact (not_isWhitespace_of_isAsciiHexdigit (hdigits _ List.mem_cons_self)).2 rfl
  · have hnot : ¬ (trim raw = [] ∨ (trim raw).head? = some '#') := hskip
    rw [not_or] at hnot
    rcases splitOnce_cases (trim raw) with ⟨hblank, hsplit⟩ | ⟨word, c, rest, hline, hword, hc, hsplit⟩
    · refine .inl ⟨by simp [readLine, hskip, hsplit], ⟨hnot.1, hnot.2, hblank⟩, ?_⟩
      rintro ⟨hex, -, gap, path, hform, hgap, hall, -, -⟩
      obtain ⟨g, gap, rfl⟩ := List.exists_cons_of_ne_nil hgap
      rw [List.all_cons, Bool.and_eq_true] at hall
      have := hblank g (by simp [hform])
      rw [hall.1] at this
      cases this
    · have hiff := fun hex => @checksumLine_iff assetName raw hex rest _ rfl word c hline hword hc
      have hwords : ¬ OneWord raw := by
        rintro ⟨-, -, hblank⟩
        have := hblank c (by simp [hline])
        rw [hc] at this
        cases this
      by_cases hfound : isHash word = true ∧
          lower (baseName (plainPath (trim rest))) = lower assetName
      · refine .inr (.inr ⟨word, by simp [readLine, hskip, hsplit, hfound], hwords, ?_⟩)
        intro hex
        rw [hiff hex]
        constructor
        · rintro ⟨rfl, -⟩
          rfl
        · rintro rfl
          exact ⟨rfl, hfound⟩
      · refine .inr (.inl ⟨?_, hwords, ?_⟩)
        · by_cases hhash : isHash word = true
          · have hbase : ¬ lower (baseName (plainPath (trim rest))) = lower assetName :=
              fun h => hfound ⟨hhash, h⟩
            simp [readLine, hskip, hsplit, hhash, hbase]
          · simp [readLine, hskip, hsplit, hhash]
        · rintro ⟨hex, hline'⟩
          obtain ⟨rfl, hhash, hbase⟩ := (hiff hex).mp hline'
          exact hfound ⟨hhash, hbase⟩

end Line

/-! ### The loop -/

section Loop

variable {assetName raw hex : List Char} {before after lines : List (List Char)}

/-- A line for the asset that only lines without one and without a single word stand before. -/
theorem parseLines_found (hbefore : ∀ l ∈ before, ¬ Names assetName l)
    (hwords : ∀ l ∈ before, ¬ OneWord l) (hline : ChecksumLine assetName raw hex) :
    parseLines (lower assetName) (before ++ raw :: after) = some (lower hex) := by
  induction before with
  | nil =>
    rcases readLine_cases assetName raw with ⟨-, -, hnot⟩ | ⟨-, -, hnot⟩ | ⟨hex', hread, -, hiff⟩
    · exact absurd ⟨hex, hline⟩ hnot
    · exact absurd ⟨hex, hline⟩ hnot
    · rw [(hiff hex).mp hline]
      simp only [List.nil_append, parseLines, hread]
  | cons l before ih =>
    rw [List.forall_mem_cons] at hbefore hwords
    rcases readLine_cases assetName l with ⟨-, hword, -⟩ | ⟨hread, -, -⟩ | ⟨hex', -, -, hiff⟩
    · exact absurd hword hwords.1
    · rw [List.cons_append, parseLines, hread]
      exact ih hbefore.2 hwords.2
    · exact absurd ⟨hex', (hiff hex').mpr rfl⟩ hbefore.1

/-- No line for the asset, or a line of one word before the first. -/
theorem parseLines_none (hbefore : ∀ l ∈ before, ¬ Names assetName l)
    (hstop : after = [] ∨ ∃ l ∈ before, OneWord l) :
    parseLines (lower assetName) (before ++ after) = none := by
  induction before with
  | nil =>
    rcases hstop with rfl | ⟨l, hl, -⟩
    · rfl
    · cases hl
  | cons l before ih =>
    rw [List.forall_mem_cons] at hbefore
    rcases readLine_cases assetName l with ⟨hread, -, -⟩ | ⟨hread, hword, -⟩ | ⟨hex', -, -, hiff⟩
    · simp only [List.cons_append, parseLines, hread]
    · rw [List.cons_append, parseLines, hread]
      apply ih hbefore.2
      rcases hstop with hnil | ⟨l', hl', hword'⟩
      · exact .inl hnil
      · rcases List.mem_cons.mp hl' with rfl | hl'
        · exact absurd hword' hword
        · exact .inr ⟨l', hl', hword'⟩
    · exact absurd ⟨hex', (hiff hex').mpr rfl⟩ hbefore.1

theorem exists_first (assetName : List Char) (lines : List (List Char)) :
    (∀ l ∈ lines, ¬ Names assetName l) ∨ ∃ before raw after hex, lines = before ++ raw :: after ∧
      (∀ l ∈ before, ¬ Names assetName l) ∧ ChecksumLine assetName raw hex := by
  induction lines with
  | nil => exact .inl fun l hl => by cases hl
  | cons l lines ih =>
    by_cases hl : Names assetName l
    · obtain ⟨hex, hline⟩ := hl
      exact .inr ⟨[], l, lines, hex, rfl, fun l hl => (by cases hl), hline⟩
    · rcases ih with hnone | ⟨before, raw, after, hex, rfl, hbefore, hline⟩
      · exact .inl (List.forall_mem_cons.mpr ⟨hl, hnone⟩)
      · exact .inr ⟨l :: before, raw, after, hex, rfl, List.forall_mem_cons.mpr ⟨hl, hbefore⟩, hline⟩

end Loop

/-- No line of one word stands before the first line for the asset. -/
def FirstReached (content assetName : String) : Prop :=
  ∀ before raw after, strLines content.toList = before ++ raw :: after →
    (∀ l ∈ before, ¬ Names assetName.toList l) → Names assetName.toList raw →
      ∀ l ∈ before, ¬ OneWord l

/-- **The lookup is right exactly when no line of one word stands before the first line for the
asset.** -/
theorem looksUp_iff (content assetName : String) :
    LooksUp content assetName (parseChecksumForAsset content assetName) ↔
      FirstReached content assetName := by
  constructor
  · intro h before raw after hlines hbefore hraw l hl hword
    have hnone : parseChecksumForAsset content assetName = none := by
      rw [parseChecksumForAsset, hlines, parseLines_none hbefore (.inr ⟨l, hl, hword⟩)]
      rfl
    exact h.none_iff.mp hnone raw (by simp [hlines]) hraw
  · intro h
    have hfound : ∀ before raw after hex, strLines content.toList = before ++ raw :: after →
        (∀ l ∈ before, ¬ Names assetName.toList l) → ChecksumLine assetName.toList raw hex →
        parseChecksumForAsset content assetName = some (String.ofList (lower hex)) := by
      intro before raw after hex hlines hbefore hline
      have hwords := h before raw after hlines hbefore ⟨hex, hline⟩
      rw [parseChecksumForAsset, hlines, parseLines_found hbefore hwords hline]
      rfl
    rcases exists_first assetName.toList (strLines content.toList) with hnone | ⟨before, raw, after,
      hex, hlines, hbefore, hline⟩
    · have hresult : parseChecksumForAsset content assetName = none := by
        have hparse := parseLines_none hnone (.inl rfl)
        rw [List.append_nil] at hparse
        rw [parseChecksumForAsset, hparse]
        rfl
      refine ⟨fun hash => ?_, iff_of_true hresult hnone⟩
      rw [hresult]
      refine ⟨fun heq => (by cases heq), ?_⟩
      rintro ⟨before, raw, after, hex, hlines, -, hline, -⟩
      exact absurd ⟨hex, hline⟩ (hnone raw (by simp [hlines]))
    · have hresult := hfound before raw after hex hlines hbefore hline
      refine ⟨fun hash => ⟨fun heq => ?_, ?_⟩, ?_⟩
      · rw [hresult, Option.some.injEq] at heq
        exact ⟨before, raw, after, hex, hlines, hbefore, hline, heq.symm⟩
      · rintro ⟨before', raw', after', hex', hlines', hbefore', hline', rfl⟩
        exact hfound before' raw' after' hex' hlines' hbefore' hline'
      · rw [hresult]
        refine iff_of_false (by simp) fun hnone => ?_
        exact hnone raw (by simp [hlines]) ⟨hex, hline⟩

/-- A checksum under a heading of one word. -/
def withHeading : String :=
  "SHA256SUMS\n" ++ String.ofList (List.replicate 64 '0') ++ "  LinkPilot_0.5.12_aarch64.dmg\n"

/-- The heading ends the search. -/
theorem not_looksUp_withHeading :
    parseChecksumForAsset withHeading "LinkPilot_0.5.12_aarch64.dmg" = none ∧
      ¬ LooksUp withHeading "LinkPilot_0.5.12_aarch64.dmg"
        (parseChecksumForAsset withHeading "LinkPilot_0.5.12_aarch64.dmg") := by
  have hnone : parseChecksumForAsset withHeading "LinkPilot_0.5.12_aarch64.dmg" = none := by
    decide
  refine ⟨hnone, fun h => ?_⟩
  have hmem : List.replicate 64 '0' ++ "  LinkPilot_0.5.12_aarch64.dmg".toList ∈
      strLines withHeading.toList := by decide
  apply h.none_iff.mp hnone _ hmem
  refine ⟨List.replicate 64 '0', by decide, "  ".toList, "LinkPilot_0.5.12_aarch64.dmg".toList,
    by decide, by decide, by decide, ⟨'L', by decide, by decide⟩, by decide⟩

/-! ## The files of the release workflow -/

/-- A line of `shasum -a 256`. -/
def shasumLine (file : List Char × List Char) : List Char := file.1 ++ (' ' :: ' ' :: file.2)

/-- Trimming keeps the white space between two words. -/
theorem mem_trim {front back : List Char} {c : Char} (hfront : ∃ a ∈ front, isWhitespace a = false)
    (hback : ∃ a ∈ back, isWhitespace a = false) : c ∈ trim (front ++ c :: back) := by
  have hne : front.dropWhile isWhitespace ≠ [] := by
    rw [Ne, List.dropWhile_eq_nil_iff]
    obtain ⟨a, ha, hnot⟩ := hfront
    intro hall
    rw [hall a ha] at hnot
    cases hnot
  have hne' : back.reverse.dropWhile isWhitespace ≠ [] := by
    rw [Ne, List.dropWhile_eq_nil_iff]
    obtain ⟨a, ha, hnot⟩ := hback
    intro hall
    rw [hall a (List.mem_reverse.mpr ha)] at hnot
    cases hnot
  have hempty : (front.dropWhile isWhitespace).isEmpty = false := by simpa using hne
  have hempty' : (back.reverse.dropWhile isWhitespace).isEmpty = false := by simpa using hne'
  simp [trim, List.dropWhile_append, hempty, hempty', List.append_assoc]

/-- **The checksums that `shasum` writes are looked up right**, whatever the asset. -/
theorem looksUp_render (files : List (List Char × List Char)) (assetName : String)
    (hclean : ∀ f ∈ files, '\n' ∉ shasumLine f)
    (hwords : ∀ f ∈ files, (∃ a ∈ f.1, isWhitespace a = false) ∧
      ∃ a ∈ f.2, isWhitespace a = false) :
    LooksUp (String.ofList (Lines.join '\n' (files.map shasumLine))) assetName
      (parseChecksumForAsset (String.ofList (Lines.join '\n' (files.map shasumLine))) assetName) := by
  rw [looksUp_iff]
  intro before raw after hlines _ _ l hl hword
  have hmem : trim l ∈ (files.map shasumLine).map trim := by
    have hjoin := @Lines.lines_join Char _ '\n' (files.map shasumLine)
      (List.forall_mem_map.mpr hclean)
    rw [← hjoin, ← Texts.map_trim_strLines, ← String.toList_ofList (l := Lines.join _ _), hlines]
    exact List.mem_map_of_mem (by simp [hl])
  obtain ⟨line, hline, htrim⟩ := List.mem_map.mp hmem
  obtain ⟨f, hf, rfl⟩ := List.mem_map.mp hline
  have hspace : ' ' ∈ trim (shasumLine f) := by
    apply mem_trim (hwords f hf).1
    obtain ⟨a, ha, hnot⟩ := (hwords f hf).2
    exact ⟨a, List.mem_cons_of_mem _ ha, hnot⟩
  rw [htrim] at hspace
  have := hword.2.2 ' ' hspace
  revert this
  decide

end LinkPilot.Checksums
