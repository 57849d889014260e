import LinkPilot.Lib.JsonText

/-!
# What `JSON.stringify` writes

A JavaScript string is a list of UTF-16 code units, which need not come in pairs; `JSON.stringify`
escapes a unit of a pair that stands alone.  The strings of a value are of any type whose code
units are known.

* `quote_utf16` — of a Unicode text it writes what `serde_json` writes.
* `stringify_utf16` — so it does of a value with such strings.
-/

set_option autoImplicit false

namespace JavaScript

open Serde

/-! ## Strings -/

/-- A string: code units, whatever they are. -/
abbrev JsString := List UInt16

def IsHigh (u : UInt16) : Prop := 0xD800 ≤ u.toNat ∧ u.toNat < 0xDC00

def IsLow (u : UInt16) : Prop := 0xDC00 ≤ u.toNat ∧ u.toNat < 0xE000

instance (u : UInt16) : Decidable (IsHigh u) := inferInstanceAs (Decidable (_ ∧ _))

instance (u : UInt16) : Decidable (IsLow u) := inferInstanceAs (Decidable (_ ∧ _))

/-- The code units of a character. -/
def utf16Char (c : Char) : List UInt16 :=
  if c.toNat < 0x10000 then [.ofNat c.toNat]
  else
    [.ofNat (0xD800 + (c.toNat - 0x10000) / 0x400), .ofNat (0xDC00 + (c.toNat - 0x10000) % 0x400)]

/-- The string of a Unicode text. -/
def utf16 (s : String) : JsString := s.toList.flatMap utf16Char

/-- `UnicodeEscape`. -/
def unicodeEscape (u : UInt16) : List Char :=
  ['\\', 'u', Nat.digitChar (u.toNat / 4096), Nat.digitChar (u.toNat / 256 % 16),
    Nat.digitChar (u.toNat / 16 % 16), Nat.digitChar (u.toNat % 16)]

/-- A code unit that is no half of a pair. -/
def quoteUnit (u : UInt16) : List Char :=
  if IsHigh u ∨ IsLow u then unicodeEscape u else Json.escape (.ofNat u.toNat)

/-- `QuoteJSONString` between the quotes. -/
def quoteUnits : JsString → List Char
  | [] => []
  | [u] => quoteUnit u
  | u :: v :: us =>
    if IsHigh u ∧ IsLow v then
      .ofNat (0x10000 + 0x400 * (u.toNat - 0xD800) + (v.toNat - 0xDC00)) :: quoteUnits us
    else quoteUnit u ++ quoteUnits (v :: us)

/-- `QuoteJSONString`. -/
def quote (s : JsString) : List Char := '"' :: quoteUnits s ++ ['"']

theorem quoteUnits_cons {u : UInt16} (h : ¬ IsHigh u) (us : JsString) :
    quoteUnits (u :: us) = quoteUnit u ++ quoteUnits us := by
  cases us with
  | nil => simp [quoteUnits]
  | cons v us => rw [quoteUnits, if_neg fun hpair => h hpair.1]

theorem toNat_valid (c : Char) : c.toNat < 0xD800 ∨ 0xDFFF < c.toNat ∧ c.toNat < 0x110000 :=
  c.valid

theorem escape_of_large {c : Char} (h : 0x10000 ≤ c.toNat) : Json.escape c = [c] := by
  have hne : ∀ d : Char, d.toNat < 0x10000 → c ≠ d := by
    rintro d hd rfl
    omega
  unfold Json.escape
  rw [if_neg (hne _ (by decide)), if_neg (hne _ (by decide)), if_neg (hne _ (by decide)),
    if_neg (hne _ (by decide)), if_neg (hne _ (by decide)), if_neg (hne _ (by decide)),
    if_neg (hne _ (by decide)), if_neg (by omega)]

theorem quoteUnits_utf16Char (c : Char) (us : JsString) :
    quoteUnits (utf16Char c ++ us) = Json.escape c ++ quoteUnits us := by
  have hvalid := toNat_valid c
  have hsize : UInt16.size = 0x10000 := rfl
  unfold utf16Char
  by_cases hsmall : c.toNat < 0x10000
  · have hunit : (UInt16.ofNat c.toNat).toNat = c.toNat := UInt16.toNat_ofNat_of_lt' hsmall
    rw [if_pos hsmall, List.singleton_append, quoteUnits_cons (by unfold IsHigh; omega), quoteUnit,
      if_neg (by unfold IsHigh IsLow; omega), hunit, Char.ofNat_toNat]
  · have hhigh : (UInt16.ofNat (0xD800 + (c.toNat - 0x10000) / 0x400)).toNat =
        0xD800 + (c.toNat - 0x10000) / 0x400 := UInt16.toNat_ofNat_of_lt' (by omega)
    have hlow : (UInt16.ofNat (0xDC00 + (c.toNat - 0x10000) % 0x400)).toNat =
        0xDC00 + (c.toNat - 0x10000) % 0x400 := UInt16.toNat_ofNat_of_lt' (by omega)
    have hpair : 0x10000 + 0x400 * (0xD800 + (c.toNat - 0x10000) / 0x400 - 0xD800) +
        (0xDC00 + (c.toNat - 0x10000) % 0x400 - 0xDC00) = c.toNat := by omega
    rw [if_neg hsmall, List.cons_append, List.singleton_append, quoteUnits,
      if_pos (by unfold IsHigh IsLow; omega), hhigh, hlow, hpair, Char.ofNat_toNat,
      escape_of_large (by omega), List.singleton_append]

/-- **Unicode texts** are quoted alike. -/
theorem quote_utf16 (s : String) : quote (utf16 s) = Json.renderString s := by
  have hunits : ∀ cs : List Char,
      quoteUnits (cs.flatMap utf16Char) = cs.flatMap Json.escape := by
    intro cs
    induction cs with
    | nil => rfl
    | cons c cs ih => rw [List.flatMap_cons, List.flatMap_cons, quoteUnits_utf16Char, ih]
  unfold quote utf16 Json.renderString
  rw [hunits]

/-! ## Values -/

/-- A value that is written as JSON.  Numbers are integers; `name` is a string that the program
itself has, `str` one that it was given. -/
inductive Value (S : Type) where
  | null
  | bool (b : Bool)
  | num (n : Int)
  | name (s : String)
  | str (s : S)
  | arr (elems : List (Value S))
  | obj (entries : List (String × Value S))

namespace Value

section Stringify

variable {S : Type} (units : S → JsString)

mutual

/-- `JSON.stringify`. -/
def stringify : Value S → List Char
  | .null => ['n', 'u', 'l', 'l']
  | .bool true => ['t', 'r', 'u', 'e']
  | .bool false => ['f', 'a', 'l', 's', 'e']
  | .num n => Json.renderInt n
  | .name s => quote (utf16 s)
  | .str s => quote (units s)
  | .arr elems => '[' :: stringifyElems elems
  | .obj entries => '{' :: stringifyEntries entries

def stringifyElems : List (Value S) → List Char
  | [] => [']']
  | [v] => stringify v ++ [']']
  | v :: vs => stringify v ++ ',' :: stringifyElems vs

def stringifyEntries : List (String × Value S) → List Char
  | [] => ['}']
  | [(k, v)] => quote (utf16 k) ++ ':' :: stringify v ++ ['}']
  | (k, v) :: es => quote (utf16 k) ++ ':' :: stringify v ++ ',' :: stringifyEntries es

end

end Stringify

/-- `?? null`. -/
def orNull {S : Type} : Option S → Value S
  | none => .null
  | some s => .str s

mutual

/-- The JSON that a value with Unicode texts stands for. -/
def toJson : Value String → Json
  | .null => .null
  | .bool b => .bool b
  | .num n => .int n
  | .name s => .str s
  | .str s => .str s
  | .arr elems => .arr (toJsonElems elems)
  | .obj entries => .obj (toJsonEntries entries)

def toJsonElems : List (Value String) → List Json
  | [] => []
  | v :: vs => toJson v :: toJsonElems vs

def toJsonEntries : List (String × Value String) → List (String × Json)
  | [] => []
  | (k, v) :: es => (k, toJson v) :: toJsonEntries es

end

@[simp]
theorem toJson_orNull (o : Option String) : (orNull o).toJson = .ofOption .str o := by
  cases o <;> rfl

theorem toJsonElems_eq_map (vs : List (Value String)) : toJsonElems vs = vs.map toJson := by
  induction vs with
  | nil => rfl
  | cons v vs ih => rw [List.map_cons, toJsonElems, ih]

theorem toJsonEntries_eq_map (es : List (String × Value String)) :
    toJsonEntries es = es.map fun e => (e.1, toJson e.2) := by
  induction es with
  | nil => rfl
  | cons e es ih => rw [List.map_cons, toJsonEntries, ih]

mutual

/-- **Values with Unicode texts** are written as `serde_json` writes them. -/
theorem stringify_utf16 : ∀ v : Value String, stringify utf16 v = v.toJson.render
  | .null => by simp [stringify, toJson, Json.render]
  | .bool true => by simp [stringify, toJson, Json.render]
  | .bool false => by simp [stringify, toJson, Json.render]
  | .num n => by simp [stringify, toJson, Json.render]
  | .name s => by simp [stringify, toJson, Json.render, quote_utf16]
  | .str s => by simp [stringify, toJson, Json.render, quote_utf16]
  | .arr elems => by simp [stringify, toJson, Json.render, stringifyElems_utf16 elems]
  | .obj entries => by simp [stringify, toJson, Json.render, stringifyEntries_utf16 entries]

theorem stringifyElems_utf16 : ∀ vs : List (Value String),
    stringifyElems utf16 vs = Json.renderElems (toJsonElems vs)
  | [] => by simp [stringifyElems, toJsonElems, Json.renderElems]
  | [v] => by simp [stringifyElems, toJsonElems, Json.renderElems, stringify_utf16 v]
  | v :: w :: vs => by
    have htail := stringifyElems_utf16 (w :: vs)
    simp only [toJsonElems] at htail
    simp only [stringifyElems, toJsonElems, Json.renderElems, stringify_utf16 v, htail]

theorem stringifyEntries_utf16 : ∀ es : List (String × Value String),
    stringifyEntries utf16 es = Json.renderEntries (toJsonEntries es)
  | [] => by simp [stringifyEntries, toJsonEntries, Json.renderEntries]
  | [(k, v)] => by
    simp [stringifyEntries, toJsonEntries, Json.renderEntries, quote_utf16, stringify_utf16 v]
  | (k, v) :: e :: es => by
    have htail := stringifyEntries_utf16 (e :: es)
    simp only [toJsonEntries] at htail
    simp only [stringifyEntries, toJsonEntries, Json.renderEntries, quote_utf16, stringify_utf16 v,
      htail]

end

end Value

end JavaScript
