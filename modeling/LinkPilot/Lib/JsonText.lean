import LinkPilot.Lib.Json
import Mathlib.Data.String.Basic
import Mathlib.Data.List.DropRight

/-!
# JSON texts

The compact text of a JSON value, and a reader of JSON texts that hands the tokens to a decoder.
Bytes are UTF-8; a number that is not an integer of 64 bits is kept as its text.

Principal results:

* `value_succ_iff`, `elems_succ_iff`, `entries_succ_iff` — what is read in a step.
* `value_render` — the reader gets back the value that was written, and stops behind it.
* `tokens_toVec` — so it does on the bytes of a whole text.
-/

set_option autoImplicit false

namespace Serde

namespace Json

/-! ## Writing -/

/-- The digits of an integer. -/
def renderInt (n : Int) : List Char :=
  if n < 0 then '-' :: Nat.toDigits 10 n.natAbs else Nat.toDigits 10 n.natAbs

/-- A character of a string. -/
def escape (c : Char) : List Char :=
  if c = '"' then ['\\', '"']
  else if c = '\\' then ['\\', '\\']
  else if c = '\x08' then ['\\', 'b']
  else if c = '\t' then ['\\', 't']
  else if c = '\n' then ['\\', 'n']
  else if c = '\x0c' then ['\\', 'f']
  else if c = '\r' then ['\\', 'r']
  else if c.toNat < 0x20 then
    ['\\', 'u', '0', '0', Nat.digitChar (c.toNat / 16), Nat.digitChar (c.toNat % 16)]
  else [c]

def renderString (s : String) : List Char := '"' :: s.toList.flatMap escape ++ ['"']

mutual

/-- The compact text. -/
def render : Json → List Char
  | .null => ['n', 'u', 'l', 'l']
  | .bool true => ['t', 'r', 'u', 'e']
  | .bool false => ['f', 'a', 'l', 's', 'e']
  | .int n => renderInt n
  | .float text => text.toList
  | .str s => renderString s
  | .arr elems => '[' :: renderElems elems
  | .obj entries => '{' :: renderEntries entries

/-- The elements and the closing bracket. -/
def renderElems : List Json → List Char
  | [] => [']']
  | [j] => j.render ++ [']']
  | j :: js => j.render ++ ',' :: renderElems js

/-- The entries and the closing brace. -/
def renderEntries : List (String × Json) → List Char
  | [] => ['}']
  | [(k, j)] => renderString k ++ ':' :: j.render ++ ['}']
  | (k, j) :: es => renderString k ++ ':' :: j.render ++ ',' :: renderEntries es

end

/-! ## Reading -/

def isWhitespace (c : Char) : Bool := c == ' ' || c == '\n' || c == '\t' || c == '\r'

/-- One character, and the string that follows it. -/
def push (c : Char) (rest : Option (List Char × List Char)) : Option (List Char × List Char) :=
  rest.map fun r => (c :: r.1, r.2)

/-- The value of a hexadecimal digit. -/
def hexDigit (c : Char) : Option Nat :=
  if '0' ≤ c ∧ c ≤ '9' then some (c.toNat - '0'.toNat)
  else if 'a' ≤ c ∧ c ≤ 'f' then some (c.toNat - 'a'.toNat + 10)
  else if 'A' ≤ c ∧ c ≤ 'F' then some (c.toNat - 'A'.toNat + 10)
  else none

/-- The four digits of a `\u` escape. -/
def hex4 (a b c d : Char) : Option Nat := do
  some (4096 * (← hexDigit a) + 256 * (← hexDigit b) + 16 * (← hexDigit c) + (← hexDigit d))

/-- An escape of one character. -/
def unescape (c : Char) : Option Char :=
  if c = '"' then some '"'
  else if c = '\\' then some '\\'
  else if c = '/' then some '/'
  else if c = 'b' then some '\x08'
  else if c = 'f' then some '\x0c'
  else if c = 'n' then some '\n'
  else if c = 'r' then some '\r'
  else if c = 't' then some '\t'
  else none

/-- What is left of a string behind its opening quote.  Two escapes of surrogates are one
character, and one alone is refused. -/
def string? : List Char → Option (List Char × List Char)
  | [] => none
  | c :: cs =>
    if c = '"' then some ([], cs)
    else if c = '\\' then
      match cs with
      | 'u' :: a :: b :: c :: d :: cs =>
        match hex4 a b c d with
        | none => none
        | some high =>
          if 0xD800 ≤ high ∧ high < 0xDC00 then
            match cs with
            | '\\' :: 'u' :: a :: b :: c :: d :: cs =>
              match hex4 a b c d with
              | none => none
              | some low =>
                if 0xDC00 ≤ low ∧ low < 0xE000 then
                  push (.ofNat (0x10000 + 0x400 * (high - 0xD800) + (low - 0xDC00))) (string? cs)
                else none
            | _ => none
          else if 0xDC00 ≤ high ∧ high < 0xE000 then none
          else push (.ofNat high) (string? cs)
      | e :: cs =>
        match unescape e with
        | none => none
        | some c => push c (string? cs)
      | [] => none
    else if c.toNat < 0x20 then none
    else push c (string? cs)

/-- The digits behind a decimal point, with the point. -/
def fraction : List Char → Option (List Char × List Char)
  | '.' :: cs =>
    let digits := cs.takeWhile Char.isDigit
    if digits = [] then none else some ('.' :: digits, cs.dropWhile Char.isDigit)
  | cs => some ([], cs)

/-- An exponent, with its letter and its sign. -/
def exponent : List Char → Option (List Char × List Char)
  | [] => some ([], [])
  | e :: cs =>
    if e = 'e' ∨ e = 'E' then
      let (sign, cs) :=
        match cs with
        | '+' :: cs => (['+'], cs)
        | '-' :: cs => (['-'], cs)
        | cs => ([], cs)
      let digits := cs.takeWhile Char.isDigit
      if digits = [] then none else some (e :: sign ++ digits, cs.dropWhile Char.isDigit)
    else some ([], e :: cs)

/-- Integers of `i64` and of `u64`. -/
def Is64Bit (n : Int) : Prop := -9223372036854775808 ≤ n ∧ n < 18446744073709551616

instance (n : Int) : Decidable (Is64Bit n) := inferInstanceAs (Decidable (_ ∧ _))

/-- The value of a number's text: `minus`, its digits, and what follows them.  `finite` tells
whether a text that is not an integer of 64 bits is in the range of a float. -/
def numberOf (finite : String → Bool) (minus : Bool) (digits behind : List Char) : Option Json :=
  let magnitude := Nat.ofDigitChars 10 digits 0
  let n : Int := if minus then -magnitude else magnitude
  let text := String.ofList ((if minus then ['-'] else []) ++ digits ++ behind)
  -- a negative zero is a float
  if behind = [] ∧ Is64Bit n ∧ ¬ (minus ∧ magnitude = 0) then some (.int n)
  else if finite text then some (.float text)
  else none

/-- A number behind its sign; no leading zeros. -/
def magnitude? (finite : String → Bool) (minus : Bool) (cs : List Char) :
    Option (Json × List Char) := do
  let digits := cs.takeWhile Char.isDigit
  if digits = [] ∨ digits.head? = some '0' ∧ digits ≠ ['0'] then none
  else
    let (frac, cs) ← fraction (cs.dropWhile Char.isDigit)
    let (exp, cs) ← exponent cs
    let j ← numberOf finite minus digits (frac ++ exp)
    some (j, cs)

def number? (finite : String → Bool) : List Char → Option (Json × List Char)
  | '-' :: cs => magnitude? finite true cs
  | cs => magnitude? finite false cs

mutual

/-- A value and what follows it. -/
def value (finite : String → Bool) : Nat → List Char → Option (Json × List Char)
  | 0, _ => none
  | fuel + 1, cs =>
    match cs.dropWhile isWhitespace with
    | 'n' :: 'u' :: 'l' :: 'l' :: cs => some (.null, cs)
    | 't' :: 'r' :: 'u' :: 'e' :: cs => some (.bool true, cs)
    | 'f' :: 'a' :: 'l' :: 's' :: 'e' :: cs => some (.bool false, cs)
    | '"' :: cs => (string? cs).map fun r => (.str (.ofList r.1), r.2)
    | '[' :: cs =>
      match cs.dropWhile isWhitespace with
      | ']' :: cs => some (.arr [], cs)
      | cs => (elems finite fuel cs).map fun r => (.arr r.1, r.2)
    | '{' :: cs =>
      match cs.dropWhile isWhitespace with
      | '}' :: cs => some (.obj [], cs)
      | cs => (entries finite fuel cs).map fun r => (.obj r.1, r.2)
    | cs => number? finite cs

/-- At least one element, up to the closing bracket. -/
def elems (finite : String → Bool) : Nat → List Char → Option (List Json × List Char)
  | 0, _ => none
  | fuel + 1, cs =>
    match value finite fuel cs with
    | none => none
    | some (j, cs) =>
      match cs.dropWhile isWhitespace with
      | ',' :: cs => (elems finite fuel cs).map fun r => (j :: r.1, r.2)
      | ']' :: cs => some ([j], cs)
      | _ => none

/-- At least one entry, up to the closing brace. -/
def entries (finite : String → Bool) : Nat → List Char → Option (List (String × Json) × List Char)
  | 0, _ => none
  | fuel + 1, cs =>
    match cs.dropWhile isWhitespace with
    | '"' :: cs =>
      match string? cs with
      | none => none
      | some (k, cs) =>
        match cs.dropWhile isWhitespace with
        | ':' :: cs =>
          match value finite fuel cs with
          | none => none
          | some (j, cs) =>
            match cs.dropWhile isWhitespace with
            | ',' :: cs => (entries finite fuel cs).map fun r => ((.ofList k, j) :: r.1, r.2)
            | '}' :: cs => some ([(.ofList k, j)], cs)
            | _ => none
        | _ => none
    | _ => none

end

/-- The tokens of a whole text.  Between two calls that consume nothing one consumes a character,
so the fuel is enough. -/
def tokensOf (finite : String → Bool) (cs : List Char) : Option Json :=
  match value finite (2 * cs.length + 2) cs with
  | some (j, cs) => if cs.dropWhile isWhitespace = [] then some j else none
  | none => none

/-! ## Bytes -/

def toUtf8 (cs : List Char) : List UInt8 := cs.flatMap String.utf8EncodeChar

def fromUtf8 (bytes : List UInt8) : Option (List Char) :=
  (String.fromUTF8? bytes.toByteArray).map String.toList

/-- The compact text as bytes. -/
def toVec (j : Json) : List UInt8 := toUtf8 j.render

/-- The tokens of a text given as bytes. -/
def tokens (finite : String → Bool) (bytes : List UInt8) : Option Json :=
  (fromUtf8 bytes).bind (tokensOf finite)

/-! ## Strings -/

theorem hexDigit_digitChar : ∀ d, d < 16 → hexDigit (Nat.digitChar d) = some d := by decide

theorem hex4_control {n : Nat} (h : n < 0x20) :
    hex4 '0' '0' (Nat.digitChar (n / 16)) (Nat.digitChar (n % 16)) = some n := by
  have hzero : hexDigit '0' = some 0 := rfl
  simp only [hex4, hzero, hexDigit_digitChar (n / 16) (by omega),
    hexDigit_digitChar (n % 16) (by omega), Option.bind_eq_bind, Option.bind_some]
  exact congrArg some (by omega)

/-- An escaped character is read as itself. -/
theorem string?_escape (c : Char) (cs : List Char) :
    string? (escape c ++ cs) = push c (string? cs) := by
  unfold escape
  split
  · subst c
    rfl
  split
  · subst c
    rfl
  split
  · subst c
    rfl
  split
  · subst c
    rfl
  split
  · subst c
    rfl
  split
  · subst c
    rfl
  split
  · subst c
    rfl
  split
  · rename_i hcontrol
    have hhigh : ¬ (0xD800 ≤ c.toNat ∧ c.toNat < 0xDC00) := by omega
    have hlow : ¬ (0xDC00 ≤ c.toNat ∧ c.toNat < 0xE000) := by omega
    simp only [List.cons_append, List.nil_append]
    rw [string?.eq_def]
    simp only [Char.reduceEq, ↓reduceIte, hex4_control hcontrol, hhigh, hlow, Char.ofNat_toNat]
  · rename_i hquote hslash _ _ _ _ _ hcontrol
    simp only [List.cons_append, List.nil_append]
    rw [string?.eq_def]
    simp only [hquote, hslash, hcontrol, ↓reduceIte]

theorem string?_flatMap_escape (cs rest : List Char) :
    string? (cs.flatMap escape ++ '"' :: rest) = some (cs, rest) := by
  induction cs with
  | nil =>
    rw [List.flatMap_nil, List.nil_append, string?.eq_def]
    rfl
  | cons c cs ih =>
    rw [List.flatMap_cons, List.append_assoc, string?_escape, ih]
    rfl

/-! ## Numbers -/

/-- What may follow a value: nothing that a number goes on with. -/
def Ends : List Char → Prop
  | [] => True
  | c :: _ => c = ',' ∨ c = ']' ∨ c = '}'

theorem takeWhile_digits {digits rest : List Char} (hdigits : ∀ c ∈ digits, c.isDigit = true)
    (hrest : Ends rest) : (digits ++ rest).takeWhile Char.isDigit = digits ∧
      (digits ++ rest).dropWhile Char.isDigit = rest := by
  have hstop : rest.takeWhile Char.isDigit = [] ∧ rest.dropWhile Char.isDigit = rest := by
    cases rest with
    | nil => exact ⟨rfl, rfl⟩
    | cons c rest => rcases hrest with rfl | rfl | rfl <;> exact ⟨rfl, rfl⟩
  rw [List.takeWhile_append_of_pos hdigits, List.dropWhile_append_of_pos hdigits, hstop.1, hstop.2,
    List.append_nil]
  exact ⟨rfl, rfl⟩

theorem fraction_of_ends {rest : List Char} (h : Ends rest) : fraction rest = some ([], rest) := by
  cases rest with
  | nil => rfl
  | cons c rest => rcases h with rfl | rfl | rfl <;> rfl

theorem exponent_of_ends {rest : List Char} (h : Ends rest) : exponent rest = some ([], rest) := by
  cases rest with
  | nil => rfl
  | cons c rest => rcases h with rfl | rfl | rfl <;> rfl

/-- The digits of a number start with a zero only if it is zero. -/
theorem toDigits_head {n : Nat} (h : (Nat.toDigits 10 n).head? = some '0') :
    Nat.toDigits 10 n = ['0'] := by
  induction n using Nat.strongRecOn with
  | ind n ih =>
    rcases Nat.lt_or_ge n 10 with hn | hn
    · rw [Nat.toDigits_of_lt_base hn] at h ⊢
      simpa using h
    · rw [Nat.toDigits_of_base_le (by decide) hn] at h
      have hne : Nat.toDigits 10 (n / 10) ≠ [] := Nat.toDigits_ne_nil
      rw [List.head?_append_of_ne_nil _ hne] at h
      -- the digits of a positive number denote it, so they are not those of zero
      have hzero := ih (n / 10) (by omega) h
      have hvalue := @Nat.ofDigitChars_ten_toDigits (n / 10)
      rw [hzero] at hvalue
      have : (0 : Nat) = n / 10 := hvalue
      omega

theorem magnitude?_toDigits {finite : String → Bool} {minus : Bool} {n : Nat} {rest : List Char}
    (h : Ends rest) (hint : Is64Bit (if minus then -n else n)) (hzero : ¬ (minus ∧ n = 0)) :
    magnitude? finite minus (Nat.toDigits 10 n ++ rest) =
      some (.int (if minus then -n else n), rest) := by
  have hdigits : ∀ c ∈ Nat.toDigits 10 n, c.isDigit = true := fun c hc =>
    Nat.isDigit_of_mem_toDigits (by decide) (by decide) hc
  obtain ⟨htake, hdrop⟩ := takeWhile_digits hdigits h
  have hfirst : ¬ (Nat.toDigits 10 n = [] ∨
      (Nat.toDigits 10 n).head? = some '0' ∧ Nat.toDigits 10 n ≠ ['0']) := by
    rintro (hnil | ⟨hhead, hne⟩)
    · exact Nat.toDigits_ne_nil hnil
    · exact hne (toDigits_head hhead)
  have hnumber : numberOf finite minus (Nat.toDigits 10 n) [] =
      some (.int (if minus then -n else n)) := by
    unfold numberOf
    rw [Nat.ofDigitChars_ten_toDigits, if_pos ⟨rfl, hint, hzero⟩]
  simp only [magnitude?, htake, hdrop, hfirst, ↓reduceIte, fraction_of_ends h, exponent_of_ends h,
    Option.bind_eq_bind, Option.bind_some, List.append_nil, hnumber]

theorem number?_renderInt {finite : String → Bool} {n : Int} {rest : List Char} (h : Ends rest)
    (hint : Is64Bit n) : number? finite (renderInt n ++ rest) = some (.int n, rest) := by
  unfold renderInt
  split
  · rename_i hneg
    have habs : -(n.natAbs : Int) = n := by omega
    have hread := @magnitude?_toDigits finite true n.natAbs rest h
      (by simpa only [↓reduceIte, habs] using hint) (by omega)
    simpa only [number?, List.cons_append, ↓reduceIte, habs] using hread
  · rename_i hnonneg
    have habs : (n.natAbs : Int) = n := by omega
    have hread := @magnitude?_toDigits finite false n.natAbs rest h
      (by simpa only [Bool.false_eq_true, ↓reduceIte, habs] using hint) nofun
    simp only [Bool.false_eq_true, ↓reduceIte, habs] at hread
    have hnumber : ∀ cs, cs.head? ≠ some '-' → number? finite cs = magnitude? finite false cs := by
      intro cs hcs
      unfold number?
      split
      · exact absurd rfl hcs
      · rfl
    have hhead : (Nat.toDigits 10 n.natAbs ++ rest).head? ≠ some '-' := by
      rw [List.head?_append_of_ne_nil _ Nat.toDigits_ne_nil]
      intro hminus
      have hdigit : '-'.isDigit = true := Nat.isDigit_of_mem_toDigits (by decide) (by decide)
        (List.mem_of_head? hminus)
      exact absurd hdigit (by decide)
    rw [hnumber _ hhead, hread]

/-! ## Values -/

mutual

/-- No floats, and integers of 64 bits only. -/
def Plain : Json → Prop
  | .int n => Is64Bit n
  | .float _ => False
  | .arr elems => PlainElems elems
  | .obj entries => PlainEntries entries
  | _ => True

def PlainElems : List Json → Prop
  | [] => True
  | j :: js => j.Plain ∧ PlainElems js

def PlainEntries : List (String × Json) → Prop
  | [] => True
  | (_, j) :: es => j.Plain ∧ PlainEntries es

end

theorem plainElems_iff {elems : List Json} : PlainElems elems ↔ ∀ j ∈ elems, j.Plain := by
  induction elems with
  | nil => simp [PlainElems]
  | cons j js ih => simp [PlainElems, ih]

/-- A character that a value may start with. -/
def Starts (c : Char) : Prop := isWhitespace c = false ∧ c ≠ ']' ∧ c ≠ '}'

instance (c : Char) : Decidable (Starts c) := inferInstanceAs (Decidable (_ ∧ _))

/-- A property that none of the four characters has. -/
theorem isWhitespace_eq_false {p : Char → Prop} (h : ¬ p ' ' ∧ ¬ p '\n' ∧ ¬ p '\t' ∧ ¬ p '\r')
    {c : Char} (hc : p c) : isWhitespace c = false := by
  obtain ⟨hspace, hnewline, htab, hreturn⟩ := h
  cases hws : isWhitespace c with
  | false => rfl
  | true =>
    simp only [isWhitespace, Bool.or_eq_true, beq_iff_eq] at hws
    rcases hws with ((rfl | rfl) | rfl) | rfl
    exacts [absurd hc hspace, absurd hc hnewline, absurd hc htab, absurd hc hreturn]

theorem starts_of_isDigit {c : Char} (h : c.isDigit = true) : Starts c := by
  refine ⟨isWhitespace_eq_false (p := fun c => c.isDigit = true) (by decide) h, ?_, ?_⟩
  · rintro rfl
    exact absurd h (by decide)
  · rintro rfl
    exact absurd h (by decide)

theorem renderInt_cons (n : Int) : ∃ c cs, renderInt n = c :: cs ∧ (c = '-' ∨ c.isDigit = true) := by
  unfold renderInt
  split
  · exact ⟨_, _, rfl, .inl rfl⟩
  · cases hdigits : Nat.toDigits 10 n.natAbs with
    | nil => exact absurd hdigits Nat.toDigits_ne_nil
    | cons c cs =>
      refine ⟨c, cs, rfl, .inr ?_⟩
      have hmem : c ∈ Nat.toDigits 10 n.natAbs := by
        rw [hdigits]
        exact List.mem_cons_self
      exact Nat.isDigit_of_mem_toDigits (by decide) (by decide) hmem

theorem render_cons {j : Json} (h : j.Plain) : ∃ c cs, j.render = c :: cs ∧ Starts c := by
  cases j with
  | float text => cases h
  | int n =>
    obtain ⟨c, cs, hcs, rfl | hdigit⟩ := renderInt_cons n
    · exact ⟨_, cs, hcs, by decide⟩
    · exact ⟨c, cs, hcs, starts_of_isDigit hdigit⟩
  | bool b => cases b <;> exact ⟨_, _, rfl, by decide⟩
  | _ => exact ⟨_, _, rfl, by decide⟩

theorem dropWhile_of_starts {c : Char} {cs : List Char} (h : Starts c) :
    (c :: cs).dropWhile isWhitespace = c :: cs := by
  rw [List.dropWhile_cons, h.1]
  rfl

/-- A number is read where no other value can start. -/
theorem value_number {finite : String → Bool} {fuel : Nat} {c : Char} {cs : List Char}
    (h : c = '-' ∨ c.isDigit = true) :
    value finite (fuel + 1) (c :: cs) = number? finite (c :: cs) := by
  have hstarts : Starts c := by
    rcases h with rfl | h
    · decide
    · exact starts_of_isDigit h
  rw [value, dropWhile_of_starts hstarts]
  split
  all_goals first
    | rfl
    | (rename_i heq; cases heq; rcases h with h | h <;> exact absurd h (by decide))

/-! ## What a reader does -/

theorem number?_head {finite : String → Bool} {c : Char} {cs : List Char} {r : Json × List Char}
    (h : number? finite (c :: cs) = some r) : c = '-' ∨ c.isDigit = true := by
  by_cases hc : c = '-'
  · exact .inl hc
  · cases hdigit : c.isDigit with
    | true => exact .inr rfl
    | false =>
      unfold number? at h
      split at h
      · rename_i heq
        exact absurd (List.cons.inj heq).1 hc
      · unfold magnitude? at h
        simp [hdigit] at h

section Steps

variable {finite : String → Bool} {fuel : Nat}

theorem value_dropWhile (fuel : Nat) (cs : List Char) :
    value finite fuel (cs.dropWhile isWhitespace) = value finite fuel cs := by
  cases fuel with
  | zero => rfl
  | succ fuel => rw [value, value, List.dropWhile_idempotent]

theorem elems_dropWhile (fuel : Nat) (cs : List Char) :
    elems finite fuel (cs.dropWhile isWhitespace) = elems finite fuel cs := by
  cases fuel with
  | zero => rfl
  | succ fuel => rw [elems, elems, value_dropWhile]

theorem entries_dropWhile (fuel : Nat) (cs : List Char) :
    entries finite fuel (cs.dropWhile isWhitespace) = entries finite fuel cs := by
  cases fuel with
  | zero => rfl
  | succ fuel => rw [entries, entries, List.dropWhile_idempotent]

/-- The values that are words. -/
inductive Word : List Char → Json → Prop
  | null : Word ['n', 'u', 'l', 'l'] .null
  | yes : Word ['t', 'r', 'u', 'e'] (.bool true)
  | no : Word ['f', 'a', 'l', 's', 'e'] (.bool false)

/-- What is read of a value that starts here. -/
inductive ValueStep (finite : String → Bool) (fuel : Nat) : List Char → Json → List Char → Prop
  | word {text : List Char} {j : Json} (h : Word text j) (rest : List Char) :
    ValueStep finite fuel (text ++ rest) j rest
  | str {cs s rest : List Char} (h : string? cs = some (s, rest)) :
    ValueStep finite fuel ('"' :: cs) (.str (.ofList s)) rest
  | emptyArr {cs rest : List Char} (h : cs.dropWhile isWhitespace = ']' :: rest) :
    ValueStep finite fuel ('[' :: cs) (.arr []) rest
  | arr {cs rest : List Char} {js : List Json} (h : elems finite fuel cs = some (js, rest)) :
    ValueStep finite fuel ('[' :: cs) (.arr js) rest
  | emptyObj {cs rest : List Char} (h : cs.dropWhile isWhitespace = '}' :: rest) :
    ValueStep finite fuel ('{' :: cs) (.obj []) rest
  | obj {cs rest : List Char} {es : List (String × Json)}
    (h : entries finite fuel cs = some (es, rest)) : ValueStep finite fuel ('{' :: cs) (.obj es) rest
  | number {c : Char} {cs rest : List Char} {j : Json}
    (h : number? finite (c :: cs) = some (j, rest)) : ValueStep finite fuel (c :: cs) j rest

theorem valueStep_of_value {cs rest : List Char} {j : Json}
    (h : value finite (fuel + 1) cs = some (j, rest)) :
    ValueStep finite fuel (cs.dropWhile isWhitespace) j rest := by
  rw [value] at h
  split at h
  · rename_i hcs
    cases h
    exact hcs ▸ .word .null _
  · rename_i hcs
    cases h
    exact hcs ▸ .word .yes _
  · rename_i hcs
    cases h
    exact hcs ▸ .word .no _
  · rename_i hcs
    obtain ⟨r, hr, heq⟩ := Option.map_eq_some_iff.mp h
    cases heq
    exact hcs ▸ .str hr
  · rename_i hcs
    split at h
    · rename_i hclose
      cases h
      exact hcs ▸ .emptyArr hclose
    · rw [elems_dropWhile] at h
      obtain ⟨r, hr, heq⟩ := Option.map_eq_some_iff.mp h
      cases heq
      exact hcs ▸ .arr hr
  · rename_i hcs
    split at h
    · rename_i hclose
      cases h
      exact hcs ▸ .emptyObj hclose
    · rw [entries_dropWhile] at h
      obtain ⟨r, hr, heq⟩ := Option.map_eq_some_iff.mp h
      cases heq
      exact hcs ▸ .obj hr
  · cases hcs : cs.dropWhile isWhitespace with
    | nil =>
      rw [hcs] at h
      cases h
    | cons c cs =>
      rw [hcs] at h
      exact .number h

/-- The characters that a value can start with. -/
theorem ValueStep.head {cs rest : List Char} {j : Json} (h : ValueStep finite fuel cs j rest) :
    ∃ c ds, cs = c :: ds ∧ (c ∈ ['n', 't', 'f', '"', '[', '{', '-'] ∨ c.isDigit = true) := by
  cases h with
  | word h rest => cases h <;> exact ⟨_, _, rfl, .inl (by decide)⟩
  | number h =>
    refine ⟨_, _, rfl, ?_⟩
    rcases number?_head h with rfl | hdigit
    · exact .inl (by decide)
    · exact .inr hdigit
  | _ => exact ⟨_, _, rfl, .inl (by decide)⟩

theorem value_head {cs : List Char} {r : Json × List Char} (h : value finite fuel cs = some r) :
    ∃ c ds, cs.dropWhile isWhitespace = c :: ds ∧
      (c ∈ ['n', 't', 'f', '"', '[', '{', '-'] ∨ c.isDigit = true) := by
  cases fuel with
  | zero => cases h
  | succ fuel => exact (valueStep_of_value h).head

theorem not_close_of_elems {cs es : List Char} {r : List Json × List Char}
    (h : elems finite fuel cs = some r) : cs.dropWhile isWhitespace ≠ ']' :: es := by
  intro hclose
  cases fuel with
  | zero => cases h
  | succ fuel =>
    rw [elems] at h
    split at h
    · cases h
    · rename_i hj
      obtain ⟨c, ds, hcs, hc⟩ := value_head hj
      rw [hclose] at hcs
      cases hcs
      exact absurd hc (by decide)

theorem not_close_of_entries {cs es : List Char} {r : List (String × Json) × List Char}
    (h : entries finite fuel cs = some r) : cs.dropWhile isWhitespace ≠ '}' :: es := by
  intro hclose
  cases fuel with
  | zero => cases h
  | succ fuel =>
    rw [entries, hclose] at h
    cases h

/-- **Values.** -/
theorem value_succ_iff {cs rest : List Char} {j : Json} :
    value finite (fuel + 1) cs = some (j, rest) ↔
      ValueStep finite fuel (cs.dropWhile isWhitespace) j rest := by
  refine ⟨valueStep_of_value, fun h => ?_⟩
  generalize hcs : cs.dropWhile isWhitespace = ds at h
  cases h with
  | word h rest =>
    rw [value, hcs]
    cases h <;> rfl
  | str h =>
    rw [value, hcs]
    simp only [h, Option.map_some]
  | emptyArr h =>
    rw [value, hcs]
    simp only [h]
  | arr h =>
    rw [value, hcs]
    simp only
    split
    · rename_i hclose
      exact absurd hclose (not_close_of_elems h)
    · rw [elems_dropWhile, h]
      rfl
  | emptyObj h =>
    rw [value, hcs]
    simp only [h]
  | obj h =>
    rw [value, hcs]
    simp only
    split
    · rename_i hclose
      exact absurd hclose (not_close_of_entries h)
    · rw [entries_dropWhile, h]
      rfl
  | number h => rw [← value_dropWhile, hcs, value_number (number?_head h), h]

/-- What is read of elements. -/
inductive ElemsStep (finite : String → Bool) (fuel : Nat) (cs : List Char) :
    List Json → List Char → Prop
  | last {j : Json} {ds rest : List Char} (hj : value finite fuel cs = some (j, ds))
    (hclose : ds.dropWhile isWhitespace = ']' :: rest) : ElemsStep finite fuel cs [j] rest
  | more {j : Json} {js : List Json} {ds es rest : List Char}
    (hj : value finite fuel cs = some (j, ds)) (hcomma : ds.dropWhile isWhitespace = ',' :: es)
    (h : elems finite fuel es = some (js, rest)) : ElemsStep finite fuel cs (j :: js) rest

theorem elems_succ_iff {cs rest : List Char} {js : List Json} :
    elems finite (fuel + 1) cs = some (js, rest) ↔ ElemsStep finite fuel cs js rest := by
  constructor
  · intro h
    rw [elems] at h
    split at h
    · cases h
    · rename_i hj
      split at h
      · rename_i hcomma
        obtain ⟨r, hr, heq⟩ := Option.map_eq_some_iff.mp h
        cases heq
        exact .more hj hcomma hr
      · rename_i hclose
        cases h
        exact .last hj hclose
      · cases h
  · rintro (⟨hj, hclose⟩ | ⟨hj, hcomma, h⟩)
    · rw [elems, hj]
      simp only [hclose]
    · rw [elems, hj]
      simp only [hcomma, h, Option.map_some]

/-- What is read of an entry. -/
inductive EntryStep (finite : String → Bool) (fuel : Nat) (cs : List Char) :
    String → Json → List Char → Prop
  | mk {k ds fs gs rest : List Char} {j : Json} (hquote : cs.dropWhile isWhitespace = '"' :: ds)
    (hk : string? ds = some (k, fs)) (hcolon : fs.dropWhile isWhitespace = ':' :: gs)
    (hj : value finite fuel gs = some (j, rest)) : EntryStep finite fuel cs (.ofList k) j rest

/-- What is read of entries. -/
inductive EntriesStep (finite : String → Bool) (fuel : Nat) (cs : List Char) :
    List (String × Json) → List Char → Prop
  | last {k : String} {j : Json} {ds rest : List Char} (he : EntryStep finite fuel cs k j ds)
    (hclose : ds.dropWhile isWhitespace = '}' :: rest) : EntriesStep finite fuel cs [(k, j)] rest
  | more {k : String} {j : Json} {es : List (String × Json)} {ds fs rest : List Char}
    (he : EntryStep finite fuel cs k j ds) (hcomma : ds.dropWhile isWhitespace = ',' :: fs)
    (h : entries finite fuel fs = some (es, rest)) : EntriesStep finite fuel cs ((k, j) :: es) rest

theorem entries_succ_iff {cs rest : List Char} {es : List (String × Json)} :
    entries finite (fuel + 1) cs = some (es, rest) ↔ EntriesStep finite fuel cs es rest := by
  constructor
  · intro h
    rw [entries] at h
    split at h
    · rename_i hquote
      split at h
      · cases h
      · rename_i hk
        split at h
        · rename_i hcolon
          split at h
          · cases h
          · rename_i hj
            split at h
            · rename_i hcomma
              obtain ⟨r, hr, heq⟩ := Option.map_eq_some_iff.mp h
              cases heq
              exact .more ⟨hquote, hk, hcolon, hj⟩ hcomma hr
            · rename_i hclose
              cases h
              exact .last ⟨hquote, hk, hcolon, hj⟩ hclose
            · cases h
        · cases h
    · cases h
  · rintro (⟨⟨hquote, hk, hcolon, hj⟩, hclose⟩ | ⟨⟨hquote, hk, hcolon, hj⟩, hcomma, h⟩)
    · rw [entries, hquote]
      simp only [hk, hcolon, hj, hclose]
    · rw [entries, hquote]
      simp only [hk, hcolon, hj, hcomma, h, Option.map_some]

/-- A value that starts with its first character. -/
theorem value_of_step {c : Char} {cs rest : List Char} {j : Json} (hc : Starts c)
    (h : ValueStep finite fuel (c :: cs) j rest) :
    value finite (fuel + 1) (c :: cs) = some (j, rest) := by
  rw [value_succ_iff, dropWhile_of_starts hc]
  exact h

end Steps

/-! ## Numbers out of range -/

section Mono

variable {finite finite' : String → Bool}

theorem numberOf_mono (h : ∀ t, finite t = true → finite' t = true) {minus : Bool}
    {digits behind : List Char} {j : Json} (hj : numberOf finite minus digits behind = some j) :
    numberOf finite' minus digits behind = some j := by
  have hfloat : ∀ text : String, (if finite text then some (float text) else none) = some j →
      (if finite' text then some (float text) else none) = some j := by
    intro text hj
    split at hj
    · rename_i hfinite
      rw [if_pos (h _ hfinite), hj]
    · cases hj
  unfold numberOf at hj ⊢
  by_cases hint : behind = [] ∧
      Is64Bit (if minus then -Nat.ofDigitChars 10 digits 0 else Nat.ofDigitChars 10 digits 0) ∧
      ¬ (minus ∧ Nat.ofDigitChars 10 digits 0 = 0)
  · rw [if_pos hint] at hj ⊢
    exact hj
  · rw [if_neg hint] at hj ⊢
    exact hfloat _ hj

theorem number?_mono (h : ∀ t, finite t = true → finite' t = true) {cs : List Char}
    {r : Json × List Char} (hr : number? finite cs = some r) : number? finite' cs = some r := by
  have hmagnitude : ∀ minus cs, magnitude? finite minus cs = some r →
      magnitude? finite' minus cs = some r := by
    intro minus cs hr
    unfold magnitude? at hr ⊢
    simp only at hr ⊢
    split at hr
    · cases hr
    · rename_i hdigits
      rw [if_neg hdigits]
      simp only [Option.bind_eq_bind, Option.bind_eq_some_iff] at hr ⊢
      obtain ⟨frac, hfrac, exp, hexp, j, hj, hr⟩ := hr
      exact ⟨frac, hfrac, exp, hexp, j, numberOf_mono h hj, hr⟩
  unfold number? at hr ⊢
  split at hr
  · exact hmagnitude _ _ hr
  · exact hmagnitude _ _ hr

theorem ValueStep.mono (h : ∀ t, finite t = true → finite' t = true) {fuel : Nat}
    (helems : ∀ cs r, elems finite fuel cs = some r → elems finite' fuel cs = some r)
    (hentries : ∀ cs r, entries finite fuel cs = some r → entries finite' fuel cs = some r)
    {cs : List Char} {j : Json} {rest : List Char} (hstep : ValueStep finite fuel cs j rest) :
    ValueStep finite' fuel cs j rest := by
  cases hstep with
  | word hword rest => exact .word hword rest
  | str hs => exact .str hs
  | emptyArr hclose => exact .emptyArr hclose
  | arr hjs => exact .arr (helems _ _ hjs)
  | emptyObj hclose => exact .emptyObj hclose
  | obj hes => exact .obj (hentries _ _ hes)
  | number hj => exact .number (number?_mono h hj)

theorem EntryStep.mono {fuel : Nat}
    (hvalue : ∀ cs r, value finite fuel cs = some r → value finite' fuel cs = some r)
    {cs : List Char} {k : String} {j : Json} {rest : List Char}
    (hstep : EntryStep finite fuel cs k j rest) : EntryStep finite' fuel cs k j rest := by
  obtain ⟨hquote, hk, hcolon, hj⟩ := hstep
  exact ⟨hquote, hk, hcolon, hvalue _ _ hj⟩

/-- A text that is read is read alike when more numbers are in range. -/
theorem value_mono (h : ∀ t, finite t = true → finite' t = true) (fuel : Nat) :
    (∀ cs r, value finite fuel cs = some r → value finite' fuel cs = some r) ∧
      (∀ cs r, elems finite fuel cs = some r → elems finite' fuel cs = some r) ∧
      (∀ cs r, entries finite fuel cs = some r → entries finite' fuel cs = some r) := by
  induction fuel with
  | zero => exact ⟨nofun, nofun, nofun⟩
  | succ fuel ih =>
    obtain ⟨hvalue, helems, hentries⟩ := ih
    refine ⟨fun cs ⟨j, rest⟩ hr => ?_, fun cs ⟨js, rest⟩ hr => ?_, fun cs ⟨es, rest⟩ hr => ?_⟩
    · exact value_succ_iff.mpr ((value_succ_iff.mp hr).mono h helems hentries)
    · rcases elems_succ_iff.mp hr with ⟨hj, hclose⟩ | ⟨hj, hcomma, hjs⟩
      · exact elems_succ_iff.mpr (.last (hvalue _ _ hj) hclose)
      · exact elems_succ_iff.mpr (.more (hvalue _ _ hj) hcomma (helems _ _ hjs))
    · rcases entries_succ_iff.mp hr with ⟨he, hclose⟩ | ⟨he, hcomma, hes⟩
      · exact entries_succ_iff.mpr (.last (he.mono hvalue) hclose)
      · exact entries_succ_iff.mpr (.more (he.mono hvalue) hcomma (hentries _ _ hes))

theorem tokens_mono (h : ∀ t, finite t = true → finite' t = true) {bytes : List UInt8} {j : Json}
    (hj : tokens finite bytes = some j) : tokens finite' bytes = some j := by
  unfold tokens at hj ⊢
  obtain ⟨cs, hcs, hj⟩ := Option.bind_eq_some_iff.mp hj
  rw [hcs, Option.bind_some]
  unfold tokensOf at hj ⊢
  split at hj
  · rename_i hvalue
    rw [(value_mono h _).1 _ _ hvalue]
    exact hj
  · cases hj

end Mono

/-! ## Reading back -/

theorem string?_renderString (s : String) (rest : List Char) :
    string? (s.toList.flatMap escape ++ '"' :: rest) = some (s.toList, rest) :=
  string?_flatMap_escape s.toList rest

theorem value_string {finite : String → Bool} {fuel : Nat} (s : String) (rest : List Char) :
    value finite (fuel + 1) (renderString s ++ rest) = some (.str s, rest) := by
  have hread := string?_renderString s rest
  have hstep : ValueStep finite fuel ('"' :: (s.toList.flatMap escape ++ '"' :: rest))
      (.str (.ofList s.toList)) rest := .str hread
  rw [String.ofList_toList] at hstep
  unfold renderString
  simp only [List.cons_append, List.append_assoc, List.nil_append]
  exact value_of_step (by decide) hstep

/-- A closing bracket is not white space. -/
theorem dropWhile_close {c : Char} (h : c = ']' ∨ c = '}') (rest : List Char) :
    (c :: rest).dropWhile isWhitespace = c :: rest := by
  rcases h with rfl | rfl <;> rfl

theorem entryStep_render {finite : String → Bool} {fuel : Nat} (k : String) {j : Json}
    {cs rest : List Char} (hj : value finite fuel cs = some (j, rest)) :
    EntryStep finite fuel (renderString k ++ ':' :: cs) k j rest := by
  have hstep : EntryStep finite fuel ('"' :: (k.toList.flatMap escape ++ '"' :: ':' :: cs))
      (.ofList k.toList) j rest :=
    ⟨dropWhile_of_starts (by decide), string?_renderString k _, dropWhile_of_starts (by decide), hj⟩
  rw [String.ofList_toList] at hstep
  simpa [renderString] using hstep

mutual

/-- **Reading what was written.** The value is read back, and what follows it is left. -/
theorem value_render (finite : String → Bool) : ∀ (j : Json) (n : Nat) (rest : List Char),
    j.Plain → 2 * j.render.length ≤ n → Ends rest →
      value finite n (j.render ++ rest) = some (j, rest)
  | j, 0, rest, hplain, hn, _ => by
    obtain ⟨c, cs, hcs, -⟩ := render_cons hplain
    rw [hcs, List.length_cons] at hn
    omega
  | .null, n + 1, rest, _, _, _ => value_of_step (by decide) (.word .null rest)
  | .bool true, n + 1, rest, _, _, _ => value_of_step (by decide) (.word .yes rest)
  | .bool false, n + 1, rest, _, _, _ => value_of_step (by decide) (.word .no rest)
  | .int i, n + 1, rest, hplain, _, hends => by
    obtain ⟨c, cs, hcs, hc⟩ := renderInt_cons i
    have hread := @number?_renderInt finite i rest hends hplain
    rw [hcs, List.cons_append] at hread
    simp only [render, hcs, List.cons_append]
    rw [value_number hc, hread]
  | .float _, n + 1, rest, hplain, _, _ => hplain.elim
  | .str s, n + 1, rest, _, _, _ => value_string s rest
  | .arr [], n + 1, rest, _, _, _ =>
    value_of_step (by decide) (.emptyArr (dropWhile_close (.inl rfl) rest))
  | .arr (j :: js), n + 1, rest, hplain, hn, _ => by
    simp only [render, List.length_cons] at hn
    exact value_of_step (by decide) (.arr (elems_render finite j js n rest hplain (by omega)))
  | .obj [], n + 1, rest, _, _, _ =>
    value_of_step (by decide) (.emptyObj (dropWhile_close (.inr rfl) rest))
  | .obj (e :: es), n + 1, rest, hplain, hn, _ => by
    simp only [render, List.length_cons] at hn
    exact value_of_step (by decide) (.obj (entries_render finite e es n rest hplain (by omega)))

theorem elems_render (finite : String → Bool) : ∀ (j : Json) (js : List Json) (n : Nat)
    (rest : List Char), PlainElems (j :: js) → 2 * (renderElems (j :: js)).length + 1 ≤ n →
      elems finite n (renderElems (j :: js) ++ rest) = some (j :: js, rest)
  | j, js, 0, rest, _, hn => by omega
  | j, [], n + 1, rest, hplain, hn => by
    simp only [renderElems, List.length_append, List.length_cons, List.length_nil] at hn
    have hj := value_render finite j n (']' :: rest) hplain.1 (by omega) (.inr (.inl rfl))
    simp only [renderElems, List.append_assoc, List.cons_append, List.nil_append]
    exact elems_succ_iff.mpr (.last hj (dropWhile_close (.inl rfl) rest))
  | j, j' :: js, n + 1, rest, hplain, hn => by
    simp only [renderElems, List.length_append, List.length_cons] at hn
    have hj := value_render finite j n (',' :: (renderElems (j' :: js) ++ rest)) hplain.1
      (by omega) (.inl rfl)
    have hjs := elems_render finite j' js n rest hplain.2 (by omega)
    simp only [renderElems, List.append_assoc, List.cons_append]
    exact elems_succ_iff.mpr (.more hj (dropWhile_of_starts (by decide)) hjs)

theorem entries_render (finite : String → Bool) : ∀ (e : String × Json)
    (es : List (String × Json)) (n : Nat) (rest : List Char), PlainEntries (e :: es) →
      2 * (renderEntries (e :: es)).length + 1 ≤ n →
      entries finite n (renderEntries (e :: es) ++ rest) = some (e :: es, rest)
  | e, es, 0, rest, _, hn => by omega
  | (k, j), [], n + 1, rest, hplain, hn => by
    simp only [renderEntries, renderString, List.length_append, List.length_cons,
      List.length_nil] at hn
    have hj := value_render finite j n ('}' :: rest) hplain.1 (by omega) (.inr (.inr rfl))
    simp only [renderEntries, List.append_assoc, List.cons_append, List.nil_append]
    exact entries_succ_iff.mpr (.last (entryStep_render k hj) (dropWhile_close (.inr rfl) rest))
  | (k, j), e' :: es, n + 1, rest, hplain, hn => by
    simp only [renderEntries, renderString, List.length_append, List.length_cons,
      List.length_nil] at hn
    have hj := value_render finite j n (',' :: (renderEntries (e' :: es) ++ rest)) hplain.1
      (by omega) (.inl rfl)
    have hes := entries_render finite e' es n rest hplain.2 (by omega)
    simp only [renderEntries, List.append_assoc, List.cons_append]
    exact entries_succ_iff.mpr
      (.more (entryStep_render k hj) (dropWhile_of_starts (by decide)) hes)

end

theorem tokensOf_render (finite : String → Bool) {j : Json} (h : j.Plain) :
    tokensOf finite j.render = some j := by
  have hread := value_render finite j (2 * j.render.length + 2) [] h (by omega) trivial
  rw [List.append_nil] at hread
  simp only [tokensOf, hread]
  rfl

/-! ## Texts as bytes -/

theorem fromUtf8_toUtf8 (cs : List Char) : fromUtf8 (toUtf8 cs) = some cs := by
  have hbytes : (toUtf8 cs).toByteArray = (String.ofList cs).toByteArray := by
    rw [String.toByteArray_ofList]
    rfl
  unfold fromUtf8
  rw [hbytes, String.fromUTF8?, dif_pos (String.ofList cs).isValidUTF8]
  exact congrArg some String.toList_ofList

/-- **Texts.** The tokens of a text that was written are the value's. -/
theorem tokens_toVec (finite : String → Bool) {j : Json} (h : j.Plain) :
    tokens finite j.toVec = some j := by
  unfold tokens toVec
  rw [fromUtf8_toUtf8, Option.bind_some, tokensOf_render finite h]

/-- A text has at least one byte for a character. -/
theorem length_le_toUtf8 (cs : List Char) : cs.length ≤ (toUtf8 cs).length := by
  induction cs with
  | nil => exact Nat.le_refl _
  | cons c cs ih =>
    have hone : 0 < (String.utf8EncodeChar c).length := by
      rw [String.length_utf8EncodeChar]
      exact c.utf8Size_pos
    simp only [toUtf8, List.flatMap_cons, List.length_append, List.length_cons] at ih ⊢
    omega

/-! ## Lengths -/

theorem length_le_renderString (s : String) : s.toList.length ≤ (renderString s).length := by
  have hchars : ∀ cs : List Char, cs.length ≤ (cs.flatMap escape).length := by
    intro cs
    induction cs with
    | nil => exact Nat.le_refl _
    | cons c cs ih =>
      have hone : 0 < (escape c).length := by
        unfold escape
        repeat' split
        all_goals exact Nat.zero_lt_succ _
      simp only [List.flatMap_cons, List.length_append, List.length_cons]
      omega
  have := hchars s.toList
  simp only [renderString, List.cons_append, List.length_cons, List.length_append]
  omega

theorem length_renderEntries {e : String × Json} {entries : List (String × Json)}
    (h : e ∈ entries) : e.2.render.length ≤ (renderEntries entries).length := by
  induction entries with
  | nil => cases h
  | cons e' es ih =>
    obtain ⟨k, j⟩ := e'
    rcases List.mem_cons.mp h with rfl | h
    · cases es <;>
      · simp only [renderEntries, List.length_append, List.length_cons]
        omega
    · have := ih h
      cases es with
      | nil => cases h
      | cons e'' es =>
        simp only [renderEntries, List.length_append, List.length_cons] at this ⊢
        omega

/-- The text of an object is as long as that of each of its values. -/
theorem length_render_entry {e : String × Json} {entries : List (String × Json)}
    (h : e ∈ entries) : e.2.render.length ≤ (obj entries).render.length := by
  have := length_renderEntries h
  simp only [render, List.length_cons]
  omega

theorem length_render_le_toVec (j : Json) : j.render.length ≤ j.toVec.length :=
  length_le_toUtf8 j.render

end Json

end Serde
