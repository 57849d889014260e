import LinkPilot.Lib.Lines
import Mathlib.Data.List.DropRight
import Mathlib.Data.List.Induction

/-!
# White space and lines of texts

`trim` and `lines` of a Rust `str`, on lists of characters.

* `trim_eq_self_iff` — the texts that are trimmed.
* `map_trim_strLines` — the trimmed lines do not tell how lines end.
-/

set_option autoImplicit false

namespace Texts

/-- The characters that `str::trim` removes. -/
def isWhitespace (c : Char) : Bool :=
  (0x09 ≤ c.toNat && c.toNat ≤ 0x0d) || c.toNat == 0x20 || c.toNat == 0x85 || c.toNat == 0xa0 ||
    c.toNat == 0x1680 || (0x2000 ≤ c.toNat && c.toNat ≤ 0x200a) || c.toNat == 0x2028 ||
    c.toNat == 0x2029 || c.toNat == 0x202f || c.toNat == 0x205f || c.toNat == 0x3000

/-- `str::trim`. -/
def trim (cs : List Char) : List Char :=
  ((cs.dropWhile isWhitespace).reverse.dropWhile isWhitespace).reverse

/-- `str::lines`. -/
def strLines (raw : List Char) : List (List Char) :=
  (Lines.closed '\n' raw).map (Lines.chomp '\r') ++ Lines.openLine '\n' raw

theorem not_isWhitespace_of_graphic {c : Char} (hlo : 0x21 ≤ c.toNat) (hhi : c.toNat ≤ 0x7e) :
    isWhitespace c = false := by
  simp only [isWhitespace, Bool.or_eq_false_iff, Bool.and_eq_false_iff, beq_eq_false_iff_ne,
    decide_eq_false_iff_not]
  omega

theorem not_isWhitespace_of_isDigit {c : Char} (h : c.isDigit = true) : isWhitespace c = false := by
  simp only [Char.isDigit, Bool.and_eq_true, decide_eq_true_eq, ge_iff_le, UInt32.le_iff_toNat_le]
    at h
  have hc : 48 ≤ c.toNat ∧ c.toNat ≤ 57 := h
  exact not_isWhitespace_of_graphic (by omega) (by omega)

theorem trim_eq_self {cs : List Char} (h : ∀ c ∈ cs, isWhitespace c = false) : trim cs = cs := by
  have hdrop : ∀ ds : List Char, (∀ c ∈ ds, isWhitespace c = false) →
      ds.dropWhile isWhitespace = ds := by
    intro ds hds
    cases ds with
    | nil => rfl
    | cons d ds =>
      rw [List.dropWhile_cons_of_neg]
      rw [hds d List.mem_cons_self]
      exact Bool.false_ne_true
  unfold trim
  rw [hdrop cs h, hdrop cs.reverse fun c hc => h c (List.mem_reverse.mp hc), List.reverse_reverse]

theorem trim_of_digits {cs : List Char} (h : ∀ c ∈ cs, c.isDigit = true) : trim cs = cs :=
  trim_eq_self fun c hc => not_isWhitespace_of_isDigit (h c hc)

theorem trim_eq_self_iff {cs : List Char} : trim cs = cs ↔
    (∀ c, cs.head? = some c → isWhitespace c = false) ∧
      ∀ c, cs.getLast? = some c → isWhitespace c = false := by
  have hfront : cs.dropWhile isWhitespace = cs ↔
      ∀ c, cs.head? = some c → isWhitespace c = false := by
    cases cs with
    | nil => simp
    | cons c cs => rw [List.dropWhile_eq_self_iff]; simp
  have hback : cs.rdropWhile isWhitespace = cs ↔
      ∀ c, cs.getLast? = some c → isWhitespace c = false := by
    induction cs using List.reverseRecOn with
    | nil => simp
    | append_singleton cs c => simp
  rw [← hfront, ← hback]
  constructor
  · intro h
    have hprefix : cs <+: cs.dropWhile isWhitespace := by
      nth_rewrite 1 [← h]
      exact List.rdropWhile_prefix isWhitespace _
    have hsame : cs.dropWhile isWhitespace = cs :=
      (List.dropWhile_suffix _).eq_of_length_le hprefix.length_le
    refine ⟨hsame, ?_⟩
    nth_rewrite 1 [← hsame]
    exact h
  · rintro ⟨hf, hb⟩
    show (cs.dropWhile isWhitespace).rdropWhile isWhitespace = cs
    rw [hf, hb]

theorem trim_chomp (line : List Char) : trim (Lines.chomp '\r' line) = trim line := by
  unfold Lines.chomp
  split
  · rename_i hlast
    obtain ⟨front, rfl⟩ := List.getLast?_eq_some_iff.mp hlast
    rw [List.dropLast_concat]
    show (front.dropWhile isWhitespace).rdropWhile isWhitespace =
      ((front ++ ['\r']).dropWhile isWhitespace).rdropWhile isWhitespace
    rw [List.dropWhile_append]
    split
    · rename_i hempty
      rw [List.isEmpty_iff.mp hempty]
      rfl
    · rw [List.rdropWhile_concat_pos _ _ _ (by decide)]
  · rfl

/-- Trimmed, a carriage return at the end of a line makes no difference. -/
theorem map_trim_strLines (raw : List Char) :
    (strLines raw).map trim = (Lines.lines '\n' raw).map trim := by
  rw [strLines, Lines.lines, List.map_append, List.map_append, List.map_map]
  exact congrArg (· ++ _) (List.map_congr_left fun l _ => trim_chomp l)

end Texts
