import Mathlib.Data.List.Basic

/-!
# A reader of XML

Well-formedness of the element of an XML 1.0 document and of what may stand around it, as a
deterministic reader of characters with a stack of open elements.  The prolog is not read, and there
are no entities but the five predefined ones, as in documents whose type declares none.

* `Reader.step`, `Reader.run`, `read` — the reader; it tells the elements and their text.
* `Reader.run_append` — reading in two parts.
* `Reader.length_chars_le` — no text is longer than what it is read from.
* `Reader.length_chars_lt` — a text with markup is shorter.
* `Reader.run_text_iff` — what is read as it stands.
* `Reader.run_endTag` — the end of an element.
* `Reader.text_of_run_markup` — where an end of the document can be read that closes no comment,
  section or instruction.
-/

set_option autoImplicit false

namespace Xml

/-! ## Characters -/

def inRanges (ranges : List (Nat × Nat)) (c : Char) : Bool :=
  ranges.any fun r => r.1 ≤ c.toNat && c.toNat ≤ r.2

/-- `Char`. -/
def isChar (c : Char) : Bool :=
  inRanges [(0x9, 0xA), (0xD, 0xD), (0x20, 0xD7FF), (0xE000, 0xFFFD), (0x10000, 0x10FFFF)] c

/-- `S`. -/
def isSpace (c : Char) : Bool := c == ' ' || c == '\t' || c == '\r' || c == '\n'

/-- `NameStartChar`. -/
def isNameStart (c : Char) : Bool :=
  c == ':' || c == '_' || c.isAlpha ||
    inRanges [(0xC0, 0xD6), (0xD8, 0xF6), (0xF8, 0x2FF), (0x370, 0x37D), (0x37F, 0x1FFF),
      (0x200C, 0x200D), (0x2070, 0x218F), (0x2C00, 0x2FEF), (0x3001, 0xD7FF), (0xF900, 0xFDCF),
      (0xFDF0, 0xFFFD), (0x10000, 0xEFFFF)] c

/-- `NameChar`. -/
def isNameChar (c : Char) : Bool :=
  isNameStart c || c == '-' || c == '.' || c.isDigit ||
    inRanges [(0xB7, 0xB7), (0x300, 0x36F), (0x203F, 0x2040)] c

/-- The digit of a character reference. -/
def digitValue (c : Char) : Option Nat :=
  if c.isDigit then some (c.toNat - '0'.toNat)
  else if 'a' ≤ c ∧ c ≤ 'f' then some (c.toNat - 'a'.toNat + 10)
  else if 'A' ≤ c ∧ c ≤ 'F' then some (c.toNat - 'A'.toNat + 10)
  else none

def charRef (base : Nat) (digits : List Char) : Option Char := do
  let values ← digits.mapM digitValue
  let n := values.foldl (fun n d => n * base + d) 0
  if values.isEmpty || values.any (base ≤ ·) || !decide n.isValidChar || !isChar (Char.ofNat n) then
    none
  else some (Char.ofNat n)

/-- What is referred to between `&` and `;`. -/
def entity : List Char → Option Char
  | '#' :: 'x' :: digits => charRef 16 digits
  | '#' :: digits => charRef 10 digits
  | name =>
    if name = "lt".toList then some '<'
    else if name = "gt".toList then some '>'
    else if name = "amp".toList then some '&'
    else if name = "apos".toList then some '\''
    else if name = "quot".toList then some '"'
    else none

/-- The line ends of a document, each as one line feed. -/
def normalizeEndsFrom (afterReturn : Bool) : List Char → List Char
  | [] => []
  | c :: s =>
    if c = '\r' then '\n' :: normalizeEndsFrom true s
    else if c = '\n' ∧ afterReturn then normalizeEndsFrom false s
    else c :: normalizeEndsFrom false s

def normalizeEnds (s : List Char) : List Char := normalizeEndsFrom false s

/-- Text of an element that is read as it stands. -/
structure Plain (s : List Char) : Prop where
  noTag : '<' ∉ s
  noReference : '&' ∉ s
  noReturn : '\r' ∉ s
  chars : ∀ c ∈ s, isChar c = true
  noClose : ¬ "]]>".toList <:+: s

/-- Text without a character of markup. -/
theorem plain_of_all {s : List Char} (h : (s.all fun c => isChar c && c != '<' && c != '&' &&
    c != '\r' && c != '>') = true) : Plain s ∧ '>' ∉ s := by
  simp only [List.all_eq_true, Bool.and_eq_true, bne_iff_ne] at h
  have hclose : '>' ∉ s := fun hc => (h _ hc).2 rfl
  refine ⟨⟨?_, ?_, ?_, ?_, ?_⟩, hclose⟩
  · exact fun hc => (h _ hc).1.1.1.2 rfl
  · exact fun hc => (h _ hc).1.1.2 rfl
  · exact fun hc => (h _ hc).1.2 rfl
  · exact fun c hc => (h c hc).1.1.1.1
  · exact fun hmark => hclose (hmark.subset (by decide))

theorem Plain.append {s t : List Char} (hs : Plain s) (ht : Plain t) (hclose : '>' ∉ t) :
    Plain (s ++ t) := by
  refine ⟨?_, ?_, ?_, ?_, ?_⟩
  · exact fun h => (List.mem_append.mp h).elim hs.noTag ht.noTag
  · exact fun h => (List.mem_append.mp h).elim hs.noReference ht.noReference
  · exact fun h => (List.mem_append.mp h).elim hs.noReturn ht.noReturn
  · exact List.forall_mem_append.mpr ⟨hs.chars, ht.chars⟩
  · rintro ⟨front, back, h⟩
    have hmark : "]]>".toList = "]]".toList ++ ['>'] := by decide
    rw [hmark] at h
    rcases List.append_eq_append_iff.mp h with ⟨c, rfl, -⟩ | ⟨c, hc, rfl⟩
    · exact hs.noClose ⟨front, c, by rw [hmark]⟩
    · -- the last character of the mark is in `s`
      rw [List.mem_append, not_or] at hclose
      cases hlast : c.getLast? with
      | none =>
        rw [List.getLast?_eq_none_iff.mp hlast, List.append_nil] at hc
        exact hs.noClose ⟨front, [], by rw [hmark, hc, List.append_nil]⟩
      | some d =>
        have hd : (front ++ ("]]".toList ++ ['>'])).getLast? = some d := by
          rw [hc, List.getLast?_append, hlast]
          rfl
        have hd' : d = '>' := by simpa using hd.symm
        exact hclose.1 (hd' ▸ List.mem_of_getLast? hlast)

/-! ## Start tags -/

/-- A start tag, as far as it is read: its name and those of its attributes. -/
structure Tag where
  name : List Char
  attributes : List (List Char)
  deriving DecidableEq, Repr

inductive TagMode where
  /-- In the name of the tag. -/
  | name
  /-- Behind the name or a value, or behind white space there. -/
  | between (space : Bool)
  | attributeName (name : List Char)
  | beforeEq
  | beforeValue
  | value (quote : Char)
  | reference (quote : Char) (name : List Char)
  /-- Behind the `/` of an empty element. -/
  | slash
  deriving DecidableEq, Repr

inductive TagStep where
  | more (tag : Tag) (mode : TagMode)
  | opened
  | empty
  deriving DecidableEq, Repr

namespace Tag

def stepBetween (t : Tag) (space : Bool) (c : Char) : Option TagStep :=
  if isSpace c then some (.more t (.between true))
  else if c = '>' then some .opened
  else if c = '/' then some (.more t .slash)
  else if space && isNameStart c then some (.more t (.attributeName [c]))
  else none

/-- Behind the name of an attribute; no two have the same. -/
def stepNamed (t : Tag) (name : List Char) (c : Char) : Option TagStep :=
  if t.attributes.any fun a => decide (a = name) then none
  else if c = '=' then some (.more { t with attributes := name :: t.attributes } .beforeValue)
  else if isSpace c then some (.more { t with attributes := name :: t.attributes } .beforeEq)
  else none

def step (t : Tag) (c : Char) : TagMode → Option TagStep
  | .name =>
    if isNameChar c then some (.more { t with name := t.name ++ [c] } .name)
    else t.stepBetween false c
  | .between space => t.stepBetween space c
  | .attributeName name =>
    if isNameChar c then some (.more t (.attributeName (name ++ [c]))) else t.stepNamed name c
  | .beforeEq =>
    if c = '=' then some (.more t .beforeValue)
    else if isSpace c then some (.more t .beforeEq) else none
  | .beforeValue =>
    if c = '"' ∨ c = '\'' then some (.more t (.value c))
    else if isSpace c then some (.more t .beforeValue) else none
  | .value quote =>
    if c = '<' then none
    else if c = quote then some (.more t (.between false))
    else if c = '&' then some (.more t (.reference quote []))
    else some (.more t (.value quote))
  | .reference quote name =>
    if c = ';' then (entity name).map fun _ => .more t (.value quote)
    else if isNameChar c || c == '#' then some (.more t (.reference quote (name ++ [c])))
    else none
  | .slash => if c = '>' then some .empty else none

end Tag

/-! ## Documents -/

/-- What a document tells: elements, and their text. -/
inductive Event where
  | opened (name : List Char)
  | closed
  | text (c : Char)
  deriving DecidableEq, Repr

inductive Mode where
  /-- In the text of an element or around the root, behind as many `]`, up to two. -/
  | text (brackets : Nat)
  | reference (name : List Char)
  /-- Behind `<`. -/
  | markup
  /-- Behind `<!` and what is read of `--` or `[CDATA[`. -/
  | bang (read : List Char)
  /-- In a comment, behind as many `-`. -/
  | comment (hyphens : Nat)
  /-- In a section, behind as many `]`, up to two. -/
  | cdata (brackets : Nat)
  /-- In the target of an instruction. -/
  | target (name : List Char)
  | targetEnd
  | instruction (question : Bool)
  | endTag (name : List Char) (space : Bool)
  | tag (t : Tag) (mode : TagMode)
  deriving DecidableEq, Repr

/-- A document as far as it is read: the open elements, the innermost first, and whether there was a
root. -/
structure Reader where
  stack : List (List Char)
  rooted : Bool
  mode : Mode
  deriving DecidableEq, Repr

namespace Reader

/-- On to a mode, without text. -/
def goto (r : Reader) (mode : Mode) : Option (Reader × List Event) := some ({ r with mode }, [])

def stepText (r : Reader) (brackets : Nat) (c : Char) : Option (Reader × List Event) :=
  if c = '<' then r.goto .markup
  else if r.stack = [] then if isSpace c then r.goto (.text 0) else none
  else if c = '&' then r.goto (.reference [])
  else if c = '>' ∧ brackets = 2 then none
  else
    some ({ r with mode := .text (if c = ']' then min (brackets + 1) 2 else 0) }, [.text c])

def stepReference (r : Reader) (name : List Char) (c : Char) : Option (Reader × List Event) :=
  if c = ';' then (entity name).map fun d => ({ r with mode := .text 0 }, [.text d])
  else if isNameChar c || c == '#' then r.goto (.reference (name ++ [c]))
  else none

def stepMarkup (r : Reader) (c : Char) : Option (Reader × List Event) :=
  if c = '/' then if r.stack = [] then none else r.goto (.endTag [] false)
  else if c = '!' then r.goto (.bang [])
  else if c = '?' then r.goto (.target [])
  else if isNameStart c ∧ ¬ (r.stack = [] ∧ r.rooted) then r.goto (.tag ⟨[c], []⟩ .name)
  else none

def stepBang (r : Reader) (read : List Char) : Option (Reader × List Event) :=
  if read = "--".toList then r.goto (.comment 0)
  else if read = "[CDATA[".toList then if r.stack = [] then none else r.goto (.cdata 0)
  else if read <+: "--".toList ∨ read <+: "[CDATA[".toList then r.goto (.bang read)
  else none

/-- There is no `--` in a comment. -/
def stepComment (r : Reader) (hyphens : Nat) (c : Char) : Option (Reader × List Event) :=
  if hyphens = 2 then if c = '>' then r.goto (.text 0) else none
  else r.goto (.comment (if c = '-' then hyphens + 1 else 0))

def stepCdata (r : Reader) (brackets : Nat) (c : Char) : Option (Reader × List Event) :=
  if c = ']' then if brackets = 2 then some (r, [.text c]) else r.goto (.cdata (brackets + 1))
  else if c = '>' ∧ brackets = 2 then r.goto (.text 0)
  else some ({ r with mode := .cdata 0 }, (List.replicate brackets ']' ++ [c]).map .text)

/-- The target of an instruction is a name other than `xml`. -/
def stepTarget (r : Reader) (name : List Char) (c : Char) : Option (Reader × List Event) :=
  if (if name = [] then isNameStart c else isNameChar c) then r.goto (.target (name ++ [c]))
  else if name = [] ∨ name.map Char.toLower = "xml".toList then none
  else if isSpace c then r.goto (.instruction false)
  else if c = '?' then r.goto .targetEnd
  else none

def stepEndTag (r : Reader) (name : List Char) (space : Bool) (c : Char) :
    Option (Reader × List Event) :=
  if c = '>' then
    if r.stack.head? = some name then
      some ({ r with stack := r.stack.tail, mode := .text 0 }, [.closed])
    else none
  else if isSpace c then if name = [] then none else r.goto (.endTag name true)
  else if !space && isNameChar c then r.goto (.endTag (name ++ [c]) false)
  else none

def stepTag (r : Reader) (t : Tag) : TagStep → Reader × List Event
  | .more t' mode => ({ r with mode := .tag t' mode }, [])
  | .opened => (⟨t.name :: r.stack, true, .text 0⟩, [.opened t.name])
  | .empty => (⟨r.stack, true, .text 0⟩, [.opened t.name, .closed])

def stepMode (r : Reader) (c : Char) : Option (Reader × List Event) :=
  match r.mode with
  | .text brackets => r.stepText brackets c
  | .reference name => r.stepReference name c
  | .markup => r.stepMarkup c
  | .bang read => r.stepBang (read ++ [c])
  | .comment hyphens => r.stepComment hyphens c
  | .cdata brackets => r.stepCdata brackets c
  | .target name => r.stepTarget name c
  | .targetEnd => if c = '>' then r.goto (.text 0) else none
  | .instruction question =>
    if c = '>' ∧ question then r.goto (.text 0) else r.goto (.instruction (c == '?'))
  | .endTag name space => r.stepEndTag name space c
  | .tag t mode => (t.step c mode).map (r.stepTag t)

/-- One character of a document. -/
def step (r : Reader) (c : Char) : Option (Reader × List Event) :=
  if isChar c then r.stepMode c else none

def run (r : Reader) : List Char → Option (Reader × List Event)
  | [] => some (r, [])
  | c :: s => (r.step c).bind fun p => (p.1.run s).map fun q => (q.1, p.2 ++ q.2)

/-- In text behind the root. -/
def finished (r : Reader) : Bool :=
  r.stack.isEmpty && r.rooted && (match r.mode with | .text _ => true | _ => false)

end Reader

def start : Reader := ⟨[], false, .text 0⟩

/-- The elements and the text of a document, if it is well-formed. -/
def read (s : List Char) : Option (List Event) :=
  (start.run (normalizeEnds s)).bind fun p => if p.1.finished then some p.2 else none

/-! ## The length of a text -/

/-- The text of events. -/
def chars : List Event → List Char
  | [] => []
  | .text c :: es => c :: chars es
  | _ :: es => chars es

@[simp] theorem chars_append (es es' : List Event) : chars (es ++ es') = chars es ++ chars es' := by
  induction es with
  | nil => rfl
  | cons e es ih => cases e <;> simp [chars, ih]

@[simp] theorem chars_map_text (s : List Char) : chars (s.map .text) = s := by
  induction s with
  | nil => rfl
  | cons c s ih => rw [List.map_cons, chars, ih]

/-- What is read and not yet known to be text. -/
def Mode.pending : Mode → Nat
  | .cdata brackets => brackets
  | _ => 0

namespace Reader

variable {r r' r'' : Reader} {es es' : List Event} {c : Char} {s u v : List Char}

theorem run_cons (r : Reader) (c : Char) (s : List Char) :
    r.run (c :: s) = (r.step c).bind fun p => (p.1.run s).map fun q => (q.1, p.2 ++ q.2) := rfl

theorem run_cons_iff : r.run (c :: s) = some (r'', es) ↔
    ∃ r' es₁ es₂, r.step c = some (r', es₁) ∧ r'.run s = some (r'', es₂) ∧ es = es₁ ++ es₂ := by
  simp only [run_cons, Option.bind_eq_some_iff, Option.map_eq_some_iff, Prod.exists, Prod.mk.injEq]
  constructor
  · rintro ⟨r', es₁, hstep, q, es₂, hrun, rfl, rfl⟩
    exact ⟨r', es₁, es₂, hstep, hrun, rfl⟩
  · rintro ⟨r', es₁, es₂, hstep, hrun, rfl⟩
    exact ⟨r', es₁, hstep, r'', es₂, hrun, rfl, rfl⟩

theorem run_append_iff : r.run (u ++ v) = some (r'', es) ↔
    ∃ r' es₁ es₂, r.run u = some (r', es₁) ∧ r'.run v = some (r'', es₂) ∧ es = es₁ ++ es₂ := by
  induction u generalizing r es with
  | nil => simp [run]
  | cons c u ih =>
    rw [List.cons_append, run_cons_iff]
    constructor
    · rintro ⟨r₁, es₁, es₂, hstep, hrun, rfl⟩
      obtain ⟨r₂, es₃, es₄, hu, hv, rfl⟩ := ih.mp hrun
      exact ⟨r₂, es₁ ++ es₃, es₄, run_cons_iff.mpr ⟨r₁, es₁, es₃, hstep, hu, rfl⟩, hv,
        (List.append_assoc _ _ _).symm⟩
    · rintro ⟨r₂, es₁, es₂, hu, hv, rfl⟩
      obtain ⟨r₁, es₃, es₄, hstep, hrun, rfl⟩ := run_cons_iff.mp hu
      exact ⟨r₁, es₃, es₄ ++ es₂, hstep, ih.mpr ⟨r₂, es₄, es₂, hrun, hv, rfl⟩,
        List.append_assoc _ _ _⟩

/-- **Reading in two parts.** -/
theorem run_append (hu : r.run u = some (r', es)) (v : List Char) :
    r.run (u ++ v) = (r'.run v).map fun q => (q.1, es ++ q.2) := by
  cases hv : r'.run v with
  | none =>
    rw [Option.map_none, Option.eq_none_iff_forall_ne_some]
    rintro ⟨r'', es'⟩ hrun
    obtain ⟨r₁, es₁, es₂, hu', hv', -⟩ := run_append_iff.mp hrun
    rw [hu] at hu'
    cases hu'
    rw [hv] at hv'
    cases hv'
  | some q => exact run_append_iff.mpr ⟨r', es, q.2, hu, hv, rfl⟩

theorem step_eq_some {p : Reader × List Event} :
    r.step c = some p ↔ isChar c = true ∧ r.stepMode c = some p := by
  rw [step, Option.ite_none_right_eq_some]

/-- A character is no more than one of text, with what was pending. -/
theorem length_chars_step (h : r.step c = some (r', es)) :
    (chars es).length + r'.mode.pending ≤ r.mode.pending + 1 := by
  replace h := (step_eq_some.mp h).2
  unfold stepMode at h
  cases hmode : r.mode with
  | text brackets =>
    simp only [hmode, stepText, goto] at h
    split_ifs at h <;> cases h <;> simp [chars, Mode.pending]
  | reference name =>
    simp only [hmode, stepReference, goto] at h
    split_ifs at h
    · obtain ⟨d, -, hd⟩ := Option.map_eq_some_iff.mp h
      cases hd
      simp [chars, Mode.pending]
    · cases h
      simp [chars, Mode.pending]
  | markup =>
    simp only [hmode, stepMarkup, goto] at h
    split_ifs at h <;> cases h <;> simp [chars, Mode.pending]
  | bang read =>
    simp only [hmode, stepBang, goto] at h
    split_ifs at h <;> cases h <;> simp [chars, Mode.pending]
  | comment hyphens =>
    simp only [hmode, stepComment, goto] at h
    split_ifs at h <;> cases h <;> simp [chars, Mode.pending]
  | cdata brackets =>
    simp only [hmode, stepCdata, goto] at h
    split_ifs at h with hbracket htwo hclose
    · cases h
      simp [chars, Mode.pending, hmode]
      omega
    · cases h
      simp [chars, Mode.pending]
    · cases h
      simp [chars, Mode.pending]
    · cases h
      simp only [chars_map_text, Mode.pending, List.length_append, List.length_replicate,
        List.length_singleton]
      omega
  | target name =>
    simp only [hmode, stepTarget, goto] at h
    split_ifs at h <;> cases h <;> simp [chars, Mode.pending]
  | targetEnd =>
    simp only [hmode, goto] at h
    split_ifs at h
    cases h
    simp [chars, Mode.pending]
  | instruction question =>
    simp only [hmode, goto] at h
    split_ifs at h <;> cases h <;> simp [chars, Mode.pending]
  | endTag name space =>
    simp only [hmode, stepEndTag, goto] at h
    split_ifs at h <;> cases h <;> simp [chars, Mode.pending]
  | tag t mode =>
    simp only [hmode] at h
    obtain ⟨result, -, hresult⟩ := Option.map_eq_some_iff.mp h
    cases result <;> cases hresult <;> simp [chars, Mode.pending]

/-- **No text is longer than what it is read from.** -/
theorem length_chars_le (h : r.run u = some (r', es)) :
    (chars es).length + r'.mode.pending ≤ r.mode.pending + u.length := by
  induction u generalizing r es with
  | nil =>
    cases h
    simp [chars]
  | cons c u ih =>
    obtain ⟨r₁, es₁, es₂, hstep, hrun, rfl⟩ := run_cons_iff.mp h
    have hone := length_chars_step hstep
    have hrest := ih hrun
    rw [chars_append, List.length_append, List.length_cons]
    omega

/-! ### Text -/

theorem stepMode_text {brackets : Nat} (hmode : r.mode = .text brackets) :
    r.stepMode c = r.stepText brackets c := by
  rw [stepMode, hmode]

/-- A character that starts no markup leaves the reader in text. -/
theorem step_text {brackets : Nat} (hmode : r.mode = .text brackets) (hlt : c ≠ '<') (hamp : c ≠ '&')
    (h : r.step c = some (r', es)) :
    (∃ k, r' = { r with mode := .text k }) ∧ (chars es).length ≤ 1 := by
  replace h := (step_eq_some.mp h).2
  rw [stepMode_text hmode] at h
  simp only [stepText, goto, hlt, hamp, if_false] at h
  split_ifs at h <;> (cases h; exact ⟨⟨_, rfl⟩, by simp [chars]⟩)

/-- **A text with markup is shorter than what it is read from.** -/
theorem length_chars_lt {brackets : Nat} (hmode : r.mode = .text brackets)
    (hmarkup : '<' ∈ u ∨ '&' ∈ u) (h : r.run u = some (r', es)) : (chars es).length < u.length := by
  induction u generalizing r brackets es with
  | nil => simp at hmarkup
  | cons c u ih =>
    obtain ⟨r₁, es₁, es₂, hstep, hrun, rfl⟩ := run_cons_iff.mp h
    rw [chars_append, List.length_append, List.length_cons]
    by_cases hc : c = '<' ∨ c = '&'
    · -- the character itself is lost
      have hlost : r₁.mode.pending = 0 ∧ es₁ = [] := by
        replace hstep := (step_eq_some.mp hstep).2
        rw [stepMode_text hmode] at hstep
        rcases hc with rfl | rfl
        · cases hstep
          exact ⟨rfl, rfl⟩
        · simp only [stepText, goto] at hstep
          split_ifs at hstep
          · contradiction
          · contradiction
          · cases hstep
            exact ⟨rfl, rfl⟩
      have hrest := length_chars_le hrun
      rw [hlost.2]
      simp only [chars, List.length_nil]
      omega
    · rw [not_or] at hc
      have hmarkup' : '<' ∈ u ∨ '&' ∈ u := by
        rcases hmarkup with h | h
        · exact .inl ((List.mem_cons.mp h).resolve_left (Ne.symm hc.1))
        · exact .inr ((List.mem_cons.mp h).resolve_left (Ne.symm hc.2))
      obtain ⟨⟨k, hr₁⟩, hone⟩ := step_text hmode hc.1 hc.2 hstep
      have hmode₁ : r₁.mode = .text k := by rw [hr₁]
      have hrest := ih hmode₁ hmarkup' hrun
      omega

/-- The brackets that the reader is behind at the end of a text. -/
def bracketsAfter (brackets : Nat) (s : List Char) : Nat :=
  s.foldl (fun k c => if c = ']' then min (k + 1) 2 else 0) brackets

section Plain

variable {stack : List (List Char)} {rooted : Bool} {brackets : Nat}

theorem step_plain (hstack : stack ≠ []) (hlt : c ≠ '<') (hamp : c ≠ '&') :
    step ⟨stack, rooted, .text brackets⟩ c =
      if isChar c = true ∧ ¬ (c = '>' ∧ brackets = 2) then
        some (⟨stack, rooted, .text (if c = ']' then min (brackets + 1) 2 else 0)⟩, [.text c])
      else none := by
  simp only [step, stepMode, stepText, hlt, hamp, hstack, if_false]
  split_ifs <;> first | rfl | tauto

/-- Behind brackets a text goes on to `]]>` through the next character only. -/
theorem infix_replicate_cons (hbrackets : brackets ≤ 2) :
    "]]>".toList <:+: List.replicate brackets ']' ++ c :: u ↔ (c = '>' ∧ brackets = 2) ∨
      "]]>".toList <:+: List.replicate (if c = ']' then min (brackets + 1) 2 else 0) ']' ++ u := by
  have hmark : "]]>".toList = [']', ']', '>'] := by decide
  rw [hmark]
  have hcases : brackets = 0 ∨ brackets = 1 ∨ brackets = 2 := by omega
  by_cases hc : c = ']'
  · subst hc
    rcases hcases with rfl | rfl | rfl <;> simp [List.infix_cons_iff, List.replicate]
  · by_cases hclose : c = '>'
    · subst hclose
      rcases hcases with rfl | rfl | rfl <;> simp [List.infix_cons_iff, List.replicate]
    · rcases hcases with rfl | rfl | rfl <;>
        simp [List.infix_cons_iff, List.replicate, hc, hclose, Ne.symm hc, Ne.symm hclose]

/-- **What is read as it stands.** -/
theorem run_text_iff (hstack : stack ≠ []) (hbrackets : brackets ≤ 2) (hlt : '<' ∉ u)
    (hamp : '&' ∉ u) : run ⟨stack, rooted, .text brackets⟩ u = some (r', es) ↔
      ((∀ c ∈ u, isChar c = true) ∧ ¬ "]]>".toList <:+: List.replicate brackets ']' ++ u) ∧
        r' = ⟨stack, rooted, .text (bracketsAfter brackets u)⟩ ∧ es = u.map .text := by
  induction u generalizing brackets r' es with
  | nil =>
    have hnone : ¬ "]]>".toList <:+: List.replicate brackets ']' ++ [] := by
      intro h
      have hmem : '>' ∈ List.replicate brackets ']' ++ [] := h.subset (by decide)
      simp at hmem
    constructor
    · intro h
      cases h
      exact ⟨⟨List.forall_mem_nil _, hnone⟩, rfl, rfl⟩
    · rintro ⟨-, rfl, rfl⟩
      rfl
  | cons c u ih =>
    rw [List.mem_cons, not_or] at hlt hamp
    rw [run_cons, step_plain hstack (Ne.symm hlt.1) (Ne.symm hamp.1),
      infix_replicate_cons hbrackets, List.forall_mem_cons]
    by_cases hc : isChar c = true ∧ ¬ (c = '>' ∧ brackets = 2)
    · have hle : (if c = ']' then min (brackets + 1) 2 else 0) ≤ 2 := by split <;> omega
      rw [if_pos hc, Option.bind_some, Option.map_eq_some_iff]
      constructor
      · rintro ⟨⟨r'', es'⟩, hrun, heq⟩
        obtain ⟨⟨hchars, hclose⟩, hr'', hes'⟩ := (@ih r'' es' _ hle hlt.2 hamp.2).mp hrun
        cases heq
        rw [hr'', hes']
        exact ⟨⟨⟨hc.1, hchars⟩, not_or.mpr ⟨hc.2, hclose⟩⟩, rfl, rfl⟩
      · rintro ⟨⟨⟨-, hchars⟩, hclose⟩, rfl, rfl⟩
        rw [not_or] at hclose
        exact ⟨_, (ih hle hlt.2 hamp.2).mpr ⟨⟨hchars, hclose.2⟩, rfl, rfl⟩, rfl⟩
    · rw [if_neg hc, Option.bind_none]
      constructor
      · intro h
        cases h
      · rintro ⟨⟨⟨hchar, -⟩, hclose⟩, -, -⟩
        exact absurd ⟨hchar, (not_or.mp hclose).1⟩ hc

/-- **Plain text**, up to markup. -/
theorem run_plain (hstack : stack ≠ []) (hu : Plain u) (v : List Char) :
    run ⟨stack, rooted, .text 0⟩ (u ++ '<' :: v) =
      (run ⟨stack, rooted, .text 0⟩ ('<' :: v)).map fun q => (q.1, u.map .text ++ q.2) := by
  have hrun : run ⟨stack, rooted, .text 0⟩ u =
      some (⟨stack, rooted, .text (bracketsAfter 0 u)⟩, u.map .text) :=
    (run_text_iff hstack (by omega) hu.noTag hu.noReference).mpr
      ⟨⟨hu.chars, hu.noClose⟩, rfl, rfl⟩
  rw [run_append hrun]
  rfl

end Plain

/-! ### The end of a document -/

/-- Each `>` of the text is behind another character than `-`, `]` and `?`, so that it ends no
comment, section or instruction; `armed` tells whether the character before the text is one. -/
def closesNothing (armed : Bool) : List Char → Bool
  | [] => true
  | c :: s => !(armed && c == '>') && closesNothing (c == '-' || c == ']' || c == '?') s

/-- In a comment, a section or an instruction, with as much as `armed` says of its end read. -/
def Enclosed (armed : Bool) : Mode → Prop
  | .comment hyphens => hyphens < 2 ∨ armed = true
  | .cdata brackets => brackets < 2 ∨ armed = true
  | .instruction question => question = false ∨ armed = true
  | _ => False

theorem enclosed_step {armed : Bool} (hmode : Enclosed armed r.mode) (hc : ¬ (armed = true ∧ c = '>'))
    (h : r.step c = some (r', es)) : Enclosed (c == '-' || c == ']' || c == '?') r'.mode := by
  replace h := (step_eq_some.mp h).2
  unfold stepMode at h
  revert hmode
  cases hm : r.mode with
  | comment hyphens =>
    intro hmode
    simp only [hm, stepComment, goto] at h
    split_ifs at h with htwo hclose hdash
    · exact absurd ⟨hmode.resolve_left (by omega), hclose⟩ hc
    · cases h
      exact .inr (by simp [hdash])
    · cases h
      exact .inl (by omega)
  | cdata brackets =>
    intro hmode
    simp only [hm, stepCdata, goto] at h
    split_ifs at h with hbracket htwo hclose
    · cases h
      rw [hm]
      exact .inr (by simp [hbracket])
    · cases h
      exact .inr (by simp [hbracket])
    · exact absurd ⟨hmode.resolve_left (by omega), hclose.1⟩ hc
    · cases h
      exact .inl (by omega)
  | instruction question =>
    intro hmode
    simp only [hm, goto] at h
    split_ifs at h with hclose
    · exact absurd ⟨hmode.resolve_left (by simp [hclose.2]), hclose.1⟩ hc
    · cases h
      by_cases hq : c = '?'
      · exact .inr (by simp [hq])
      · exact .inl (by simp [hq])
  | text brackets => exact False.elim
  | reference name => exact False.elim
  | markup => exact False.elim
  | bang read => exact False.elim
  | target name => exact False.elim
  | targetEnd => exact False.elim
  | endTag name space => exact False.elim
  | tag t mode => exact False.elim

theorem enclosed_run {armed : Bool} (hmode : Enclosed armed r.mode)
    (hs : closesNothing armed s = true) (h : r.run s = some (r', es)) : ∃ a, Enclosed a r'.mode := by
  induction s generalizing r armed es with
  | nil =>
    cases h
    exact ⟨armed, hmode⟩
  | cons c s ih =>
    obtain ⟨r₁, es₁, es₂, hstep, hrun, -⟩ := run_cons_iff.mp h
    rw [closesNothing, Bool.and_eq_true, Bool.not_eq_true', Bool.and_eq_false_iff] at hs
    refine ih (enclosed_step hmode ?_ hstep) hs.2 hrun
    rintro ⟨harmed, rfl⟩
    rcases hs.1 with h | h
    · rw [harmed] at h
      cases h
    · cases h

theorem not_finished_of_enclosed {armed : Bool} (h : Enclosed armed r.mode) :
    r.finished = false := by
  unfold finished
  cases hm : r.mode <;> rw [hm] at h <;> first | exact absurd h id | simp

theorem tag_step_lt (t : Tag) (mode : TagMode) : t.step '<' mode = none := by
  have hname : isNameStart '<' = false := by decide
  have hchar : isNameChar '<' = false := by decide
  have hspace : isSpace '<' = false := by decide
  have hbetween : ∀ space, t.stepBetween space '<' = none := by
    intro space
    simp [Tag.stepBetween, hname, hspace]
  have hnamed : ∀ name, t.stepNamed name '<' = none := by
    intro name
    simp [Tag.stepNamed, hspace]
  cases mode with
  | name => simp [Tag.step, hchar, hbetween]
  | between space => exact hbetween space
  | attributeName name => simp [Tag.step, hchar, hnamed]
  | beforeEq => simp [Tag.step, hspace]
  | beforeValue => simp [Tag.step, hspace]
  | value quote => rfl
  | reference quote name => simp [Tag.step, hchar]
  | slash => rfl

theorem stepBang_lt (read : List Char) : r.stepBang (read ++ ['<']) = none := by
  have hstarts : ∀ w : List Char, '<' ∉ w → ¬ read ++ ['<'] <+: w := fun w hw h =>
    hw (h.subset (List.mem_append_right _ List.mem_cons_self))
  have heq : ∀ w : List Char, '<' ∉ w → read ++ ['<'] ≠ w := by
    intro w hw h
    exact hstarts w hw (h ▸ List.prefix_refl _)
  have hcomment : '<' ∉ "--".toList := by decide
  have hcdata : '<' ∉ "[CDATA[".toList := by decide
  rw [stepBang, if_neg (heq _ hcomment), if_neg (heq _ hcdata),
    if_neg (not_or.mpr ⟨hstarts _ hcomment, hstarts _ hcdata⟩)]

/-- Inside of other markup there is no `<`. -/
theorem mode_of_step_lt (h : r.step '<' = some (r', es)) :
    (∃ k, r.mode = .text k) ∨ Enclosed true r.mode := by
  have hname : isNameStart '<' = false := by decide
  have hchar : isNameChar '<' = false := by decide
  have hspace : isSpace '<' = false := by decide
  replace h := (step_eq_some.mp h).2
  unfold stepMode at h
  cases hm : r.mode with
  | text brackets => exact .inl ⟨brackets, rfl⟩
  | comment hyphens => exact .inr (.inr rfl)
  | cdata brackets => exact .inr (.inr rfl)
  | instruction question => exact .inr (.inr rfl)
  | reference name => simp [hm, stepReference, hchar] at h
  | markup => simp [hm, stepMarkup, hname] at h
  | bang read => simp [hm, stepBang_lt] at h
  | target name => simp [hm, stepTarget, hname, hchar, hspace] at h
  | targetEnd => simp [hm] at h
  | endTag name space => simp [hm, stepEndTag, hchar, hspace] at h
  | tag t mode => simp [hm, tag_step_lt] at h

/-- **A text that starts with markup and closes nothing else** is at the end of a document in text
only. -/
theorem text_of_run_markup (h : r.run ('<' :: s) = some (r', es)) (hfinished : r'.finished = true)
    (hs : closesNothing true ('<' :: s) = true) : ∃ k, r.mode = .text k := by
  obtain ⟨r₁, es₁, es₂, hstep, -, -⟩ := run_cons_iff.mp h
  refine (mode_of_step_lt hstep).resolve_right fun hmode => ?_
  obtain ⟨armed, hend⟩ := enclosed_run hmode hs h
  rw [not_finished_of_enclosed hend] at hfinished
  cases hfinished

/-! ### End tags -/

/-- Characters that a name may hold. -/
def inName (name : List Char) : Bool := name.all fun c => isChar c && isNameChar c

theorem isSpace_of_isNameChar (h : isNameChar c = true) : isSpace c = false := by
  by_contra hspace
  rw [Bool.not_eq_false] at hspace
  simp only [isSpace, Bool.or_eq_true, beq_iff_eq] at hspace
  rcases hspace with ((rfl | rfl) | rfl) | rfl <;> exact absurd h (by decide)

theorem run_endName {stack : List (List Char)} {rooted : Bool} {name : List Char}
    (hname : inName name = true) (front s : List Char) :
    run ⟨stack, rooted, .endTag front false⟩ (name ++ s) =
      run ⟨stack, rooted, .endTag (front ++ name) false⟩ s := by
  induction name generalizing front with
  | nil => rw [List.nil_append, List.append_nil]
  | cons c name ih =>
    rw [inName, List.all_cons, Bool.and_eq_true, Bool.and_eq_true] at hname
    obtain ⟨⟨hchar, hc⟩, htail⟩ := hname
    have hne : c ≠ '>' := by
      rintro rfl
      exact absurd hc (by decide)
    have hstep : step ⟨stack, rooted, .endTag front false⟩ c =
        some (⟨stack, rooted, .endTag (front ++ [c]) false⟩, []) := by
      simp only [step, stepMode, stepEndTag, hchar, hne, isSpace_of_isNameChar hc, hc, goto]
      rfl
    rw [List.cons_append, run_cons, hstep, Option.bind_some, ih htail, List.append_assoc]
    show (run _ s).map (fun q => (q.1, q.2)) = run _ s
    exact Option.map_id'

/-- **The end of an element** is that of the innermost open one. -/
theorem run_endTag {name : List Char} (hname : inName name = true)
    {k : Nat} (hmode : r.mode = .text k)
    (h : r.run ('<' :: '/' :: (name ++ '>' :: s)) = some (r', es)) :
    r.stack = name :: r.stack.tail ∧ ∃ es', run ⟨r.stack.tail, r.rooted, .text 0⟩ s = some (r', es') ∧
      es = .closed :: es' := by
  obtain ⟨r₁, es₁, es₂, hlt, hrest, rfl⟩ := run_cons_iff.mp h
  replace hlt := (step_eq_some.mp hlt).2
  rw [stepMode_text hmode] at hlt
  cases hlt
  obtain ⟨r₂, es₃, es₄, hslash, hname', rfl⟩ := run_cons_iff.mp hrest
  replace hslash := (step_eq_some.mp hslash).2
  simp only [stepMode, stepMarkup, goto, if_true] at hslash
  split_ifs at hslash with hstack
  cases hslash
  rw [run_endName hname, List.nil_append] at hname'
  obtain ⟨r₃, es₅, es₆, hclose, hrun, rfl⟩ := run_cons_iff.mp hname'
  replace hclose := (step_eq_some.mp hclose).2
  simp only [stepMode, stepEndTag, if_true] at hclose
  split_ifs at hclose with hhead
  cases hclose
  exact ⟨(List.cons_head?_tail hhead).symm, es₆, hrun, rfl⟩

/-- An end tag and the line end behind it. -/
theorem run_endLine {name : List Char} (hname : inName name = true)
    {k : Nat} (hmode : r.mode = .text k)
    (h : r.run ('<' :: '/' :: (name ++ '>' :: '\n' :: s)) = some (r', es)) :
    r.stack = name :: r.stack.tail ∧
      ∃ es', run ⟨r.stack.tail, r.rooted, .text 0⟩ s = some (r', es') := by
  obtain ⟨hstack, es', hrun, -⟩ := run_endTag hname hmode h
  obtain ⟨r₁, es₁, es₂, hstep, hrest, -⟩ := run_cons_iff.mp hrun
  have hr₁ : r₁ = ⟨r.stack.tail, r.rooted, .text 0⟩ := by
    replace hstep := (step_eq_some.mp hstep).2
    simp only [stepMode, stepText, goto] at hstep
    split_ifs at hstep <;> first | contradiction | (cases hstep; rfl)
  rw [hr₁] at hrest
  exact ⟨hstack, es₂, hrest⟩

end Reader

/-! ## Line ends -/

section Normalize

variable {s u v : List Char} {afterReturn : Bool}

theorem normalizeEnds_append_of_not_mem (hu : '\r' ∉ u) (v : List Char) :
    normalizeEnds (u ++ v) = u ++ normalizeEnds v := by
  induction u with
  | nil => rfl
  | cons c u ih =>
    rw [List.mem_cons, not_or] at hu
    have hc : ¬ (c = '\n' ∧ false = true) := fun h => Bool.false_ne_true h.2
    rw [List.cons_append, normalizeEnds, normalizeEndsFrom, if_neg (Ne.symm hu.1), if_neg hc]
    exact congrArg (List.cons c) (ih hu.2)

theorem normalizeEndsFrom_append (hv : v.head? ≠ some '\n') (u : List Char) :
    normalizeEndsFrom afterReturn (u ++ v) = normalizeEndsFrom afterReturn u ++ normalizeEnds v := by
  induction u generalizing afterReturn with
  | nil =>
    cases v with
    | nil => rfl
    | cons c v =>
      have hc : c ≠ '\n' := fun h => hv (congrArg some h)
      simp [normalizeEnds, normalizeEndsFrom, hc]
  | cons c u ih =>
    rw [List.cons_append, normalizeEndsFrom, normalizeEndsFrom, ih, ih]
    split_ifs <;> rfl

theorem length_normalizeEndsFrom_le (s : List Char) :
    (normalizeEndsFrom afterReturn s).length ≤ s.length := by
  induction s generalizing afterReturn with
  | nil => exact Nat.le_refl _
  | cons c s ih =>
    rw [normalizeEndsFrom]
    split_ifs
    · exact Nat.succ_le_succ ih
    · exact Nat.le_succ_of_le ih
    · exact Nat.succ_le_succ ih

theorem return_not_mem_normalizeEndsFrom (s : List Char) : '\r' ∉ normalizeEndsFrom afterReturn s := by
  induction s generalizing afterReturn with
  | nil => exact List.not_mem_nil
  | cons c s ih =>
    rw [normalizeEndsFrom]
    split_ifs with hreturn
    · rw [List.mem_cons, not_or]
      exact ⟨by decide, ih⟩
    · exact ih
    · rw [List.mem_cons, not_or]
      exact ⟨Ne.symm hreturn, ih⟩

theorem normalizeEnds_eq_self_iff : normalizeEnds s = s ↔ '\r' ∉ s := by
  constructor
  · intro h
    rw [← h]
    exact return_not_mem_normalizeEndsFrom s
  · intro h
    have happend : normalizeEnds (s ++ []) = s ++ [] := normalizeEnds_append_of_not_mem h []
    rwa [List.append_nil] at happend

end Normalize

end Xml
