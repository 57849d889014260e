import LinkPilot.Transport
import Mathlib.Data.List.Basic

/-!
# The architecture check of an update

Model of `macho_has_cpu` of `crates/updater/src/lib.rs`.  The updater reads the first 1024 bytes of
the executable of a candidate and asks whether it runs on this Mac.

The headers are those of Mach-O: `mach_header_64`, or a table of `fat_arch` or `fat_arch_64` behind
its count, in either byte order.  An indexing or an `unwrap` that the code would panic at is an
error of the model.

Principal results:

* `word_cases` — reading a word never panics, and what is read lies within the bytes.
* `machoHasCpu_iff` — on every byte string, the answer is whether the header holds the CPU type in a
  field that lies within the bytes.
* `machoHasCpu_spec` — and of a header of at most 32 architectures the first 1024 bytes are enough.
* `cut_entry` — the rest of the entry may be missing.
-/

set_option autoImplicit false

namespace LinkPilot.MachO

/-! ## The check -/

/-- Where the code would panic. -/
inductive Panic where
  | indexOutOfBounds (len index : Nat)
  | unwrapOnErr
  deriving DecidableEq, Repr

/-- `bytes[i]`. -/
def index (bytes : List UInt8) (i : Nat) : Except Panic UInt8 :=
  match bytes[i]? with
  | some b => .ok b
  | none => .error (.indexOutOfBounds bytes.length i)

/-- `header.get(offset..offset + 4)`. -/
def getFour (header : List UInt8) (offset : Nat) : Option (List UInt8) :=
  if offset + 4 ≤ header.length then some ((header.drop offset).take 4) else none

/-- The conversion of a slice to an array of four, and of that to a `u32`. -/
def fromBytes (little : Bool) : List UInt8 → Except Panic Nat
  | [a, b, c, d] => .ok (if little then fromBeBytes d c b a else fromBeBytes a b c d)
  | _ => .error .unwrapOnErr

/-- The closure `word`. -/
def word (header : List UInt8) (offset : Nat) (little : Bool) : Except Panic (Option Nat) :=
  match getFour header offset with
  | none => .ok none
  | some bytes => (fromBytes little bytes).map some

/-- The arm of the universal binaries. -/
def fatHasCpu (header magic : List UInt8) (cpu : UInt32) : Except Panic Bool := do
  let little := (← index magic 0) != 0xca
  let stride := if (← index magic 0) == 0xbf || (← index magic 3) == 0xbf then 32 else 20
  match (← word header 4 little).filter fun count => count ≤ 32 with
  | none => return false
  | some count => (List.range count).anyM fun i => do
    return (← word header (8 + i * stride) little) == some cpu.toNat

/-- `macho_has_cpu`. -/
def machoHasCpu (header : List UInt8) (cpu : UInt32) : Except Panic Bool :=
  match getFour header 0 with
  | none => .ok false
  | some magic =>
    if magic = [0xcf, 0xfa, 0xed, 0xfe] then (word header 4 true).map (· == some cpu.toNat)
    else if magic = [0xfe, 0xed, 0xfa, 0xcf] then (word header 4 false).map (· == some cpu.toNat)
    else if magic = [0xca, 0xfe, 0xba, 0xbe] ∨ magic = [0xca, 0xfe, 0xba, 0xbf] ∨
        magic = [0xbe, 0xba, 0xfe, 0xca] ∨ magic = [0xbf, 0xba, 0xfe, 0xca] then
      fatHasCpu header magic cpu
    else .ok false

/-! ## The headers of executables -/

inductive ByteOrder where
  | little
  | big
  deriving DecidableEq, Repr

/-- A `u32` in a byte order. -/
def ByteOrder.u32 (n : Nat) : ByteOrder → List UInt8
  | little => (toBeBytes n).reverse
  | big => toBeBytes n

def ByteOrder.isLittle (order : ByteOrder) : Bool := order == .little

/-- The two tables of a universal binary. -/
inductive Table where
  | fat
  | fat64
  deriving DecidableEq, Repr

/-- The size of `fat_arch` and of `fat_arch_64`. -/
def Table.stride : Table → Nat
  | fat => 20
  | fat64 => 32

/-- `FAT_MAGIC` and `FAT_MAGIC_64`. -/
def Table.magic (order : ByteOrder) : Table → List UInt8
  | fat => order.u32 0xcafebabe
  | fat64 => order.u32 0xcafebabf

/-- `MH_MAGIC_64`. -/
def thinMagic (order : ByteOrder) : List UInt8 := order.u32 0xfeedfacf

/-- A record that starts with a CPU type: its other fields are any bytes of their length. -/
structure Arch (size : Nat) where
  cputype : UInt32
  fields : List UInt8
  length_fields : fields.length + 4 = size

def Arch.bytes {size : Nat} (order : ByteOrder) (arch : Arch size) : List UInt8 :=
  order.u32 arch.cputype.toNat ++ arch.fields

/-- The header of an executable: `mach_header_64` is its magic number and 28 bytes. -/
inductive Header where
  | thin (order : ByteOrder) (arch : Arch 28)
  | fat (table : Table) (order : ByteOrder) (archs : List (Arch table.stride))

def Header.cputypes : Header → List UInt32
  | thin _ arch => [arch.cputype]
  | fat _ _ archs => archs.map Arch.cputype

def Header.bytes : Header → List UInt8
  | thin order arch => thinMagic order ++ arch.bytes order
  | fat table order archs =>
    table.magic order ++ (order.u32 archs.length ++ archs.flatMap (Arch.bytes order))

/-- The bytes start as a table does, and `i` entries in there is one for that CPU type. -/
def EntryAt (bytes : List UInt8) (table : Table) (order : ByteOrder) (i : Nat) (cpu : UInt32)
    (rest : List UInt8) : Prop :=
  ∃ count ≤ 32, i < count ∧ ∃ before, before.length = i * table.stride ∧
    bytes = table.magic order ++ (order.u32 count ++ (before ++ (order.u32 cpu.toNat ++ rest)))

/-- A header that the bytes start with has the CPU type in a field that lies within the bytes. -/
def HoldsCpu (bytes : List UInt8) (cpu : UInt32) : Prop :=
  (∃ order rest, bytes = thinMagic order ++ (order.u32 cpu.toNat ++ rest)) ∨
    ∃ table order i rest, EntryAt bytes table order i cpu rest

/-- The same, with the whole record within the bytes. -/
def HoldsRecord (bytes : List UInt8) (cpu : UInt32) : Prop :=
  (∃ order rest, 24 ≤ rest.length ∧ bytes = thinMagic order ++ (order.u32 cpu.toNat ++ rest)) ∨
    ∃ table order i rest, table.stride ≤ rest.length + 4 ∧ EntryAt bytes table order i cpu rest

/-! ## Words -/

section Words

variable {header pre post : List UInt8} {offset n : Nat} {order : ByteOrder} {cpu : UInt32}

@[simp] theorem length_u32 (order : ByteOrder) (n : Nat) : (order.u32 n).length = 4 := by
  cases order <;> rfl

theorem exists_four {l : List UInt8} (h : l.length = 4) : ∃ a b c d, l = [a, b, c, d] := by
  match l, h with
  | [a, b, c, d], _ => exact ⟨a, b, c, d, rfl⟩

theorem toBeBytes_fromBeBytes (a b c d : UInt8) :
    toBeBytes (fromBeBytes a b c d) = [a, b, c, d] ∧ fromBeBytes a b c d < 4294967296 := by
  have ha := a.toNat_lt
  have hb := b.toNat_lt
  have hc := c.toNat_lt
  have hd := d.toNat_lt
  simp only [toBeBytes, fromBeBytes, List.cons.injEq, and_true, ← UInt8.toNat_inj,
    UInt8.toNat_ofNat']
  omega

/-- A slice of four bytes is the `u32` that is written as it. -/
theorem fromBytes_u32 {l : List UInt8} (h : l.length = 4) (order : ByteOrder) :
    ∃ n < 4294967296, fromBytes order.isLittle l = .ok n ∧ l = order.u32 n := by
  obtain ⟨a, b, c, d, rfl⟩ := exists_four h
  cases order with
  | little =>
    have hbytes := toBeBytes_fromBeBytes d c b a
    refine ⟨fromBeBytes d c b a, hbytes.2, rfl, ?_⟩
    rw [ByteOrder.u32, hbytes.1]
    rfl
  | big =>
    have hbytes := toBeBytes_fromBeBytes a b c d
    exact ⟨fromBeBytes a b c d, hbytes.2, rfl, hbytes.1.symm⟩

theorem u32_inj {m n : Nat} (hm : m < 4294967296) (hn : n < 4294967296)
    (h : order.u32 m = order.u32 n) : m = n := by
  have hbytes : toBeBytes m = toBeBytes n := by
    cases order with
    | little => exact List.reverse_inj.mp h
    | big => exact h
  have heq := fromBeBytes_toBeBytes hm
  simp only [toBeBytes, List.cons.injEq, and_true] at hbytes
  obtain ⟨h1, h2, h3, h4⟩ := hbytes
  rw [h1, h2, h3, h4, fromBeBytes_toBeBytes hn] at heq
  exact heq.symm

/-- **A word that is read lies within the bytes**, and reading never panics. -/
theorem word_cases (header : List UInt8) (offset : Nat) (order : ByteOrder) :
    (header.length < offset + 4 ∧ word header offset order.isLittle = .ok none) ∨
    ∃ pre n post, n < 4294967296 ∧ pre.length = offset ∧ header = pre ++ (order.u32 n ++ post) ∧
      word header offset order.isLittle = .ok (some n) := by
  by_cases hle : offset + 4 ≤ header.length
  · have hlength : ((header.drop offset).take 4).length = 4 := by
      simp
      omega
    obtain ⟨n, hn, hok, hbytes⟩ := fromBytes_u32 hlength order
    refine .inr ⟨header.take offset, n, (header.drop offset).drop 4, hn, ?_, ?_, ?_⟩
    · simp
      omega
    · rw [← hbytes, List.take_append_drop, List.take_append_drop]
    · simp [word, getFour, hle, hok, Except.map]
  · exact .inl ⟨by omega, by simp [word, getFour, hle]⟩

/-- A word that is read is the one that stands there. -/
theorem word_eq_iff (hn : n < 4294967296) : word header offset order.isLittle = .ok (some n) ↔
    ∃ pre post, pre.length = offset ∧ header = pre ++ (order.u32 n ++ post) := by
  rcases word_cases header offset order with ⟨hlt, hnone⟩ | ⟨pre, m, post, hm, hpre, heq, hword⟩
  · rw [hnone]
    refine ⟨fun h => (by cases h), ?_⟩
    rintro ⟨pre, post, hpre, rfl⟩
    simp only [List.length_append, length_u32] at hlt
    omega
  · rw [hword]
    constructor
    · intro h
      cases h
      exact ⟨pre, post, hpre, heq⟩
    · rintro ⟨pre', post', hpre', heq'⟩
      rw [heq] at heq'
      obtain ⟨-, htail⟩ := List.append_inj heq' (hpre.trans hpre'.symm)
      obtain ⟨hu32, -⟩ := List.append_inj htail (by simp)
      rw [u32_inj hm hn hu32]

/-- What stands in front only moves the words. -/
theorem word_shift (pre post : List UInt8) (offset : Nat) (little : Bool) :
    word (pre ++ post) (pre.length + offset) little = word post offset little := by
  have hle : pre.length + offset + 4 ≤ (pre ++ post).length ↔ offset + 4 ≤ post.length := by
    rw [List.length_append]
    omega
  simp only [word, getFour, hle, List.drop_length_add_append]

/-- The word that the bytes start with. -/
theorem word_zero_iff (hn : n < 4294967296) : word header 0 order.isLittle = .ok (some n) ↔
    ∃ post, header = order.u32 n ++ post := by
  rw [word_eq_iff hn]
  constructor
  · rintro ⟨pre, post, hpre, rfl⟩
    exact ⟨post, by rw [List.length_eq_zero_iff.mp hpre, List.nil_append]⟩
  · rintro ⟨post, rfl⟩
    exact ⟨[], post, rfl, rfl⟩

end Words

/-! ## The answer on every byte string -/

section Answer

variable {bytes tail : List UInt8} {cpu : UInt32} {order : ByteOrder} {table : Table}

theorem u32_cputype_lt (cpu : UInt32) : cpu.toNat < 4294967296 := cpu.toNat_lt

theorem anyM_ok {f : Nat → Except Panic Bool} {g : Nat → Bool} {l : List Nat}
    (h : ∀ i ∈ l, f i = .ok (g i)) : l.anyM f = .ok (l.any g) := by
  induction l with
  | nil => rfl
  | cons i l ih =>
    rw [List.forall_mem_cons] at h
    rw [List.anyM, h.1, List.any_cons]
    cases hg : g i with
    | true => rfl
    | false => exact ih h.2

/-- A comparison with a word never panics. -/
theorem word_beq (header : List UInt8) (offset : Nat) (order : ByteOrder) (cpu : UInt32) :
    ∃ found, (word header offset order.isLittle).map (· == some cpu.toNat) = .ok found ∧
      (found = true ↔ word header offset order.isLittle = .ok (some cpu.toNat)) := by
  rcases word_cases header offset order with ⟨-, hnone⟩ | ⟨pre, n, post, -, -, -, hword⟩
  · exact ⟨false, by rw [hnone]; rfl, by rw [hnone]; simp⟩
  · refine ⟨n == cpu.toNat, by rw [hword]; rfl, ?_⟩
    rw [hword]
    simp

/-- **The scan of a table**: it never panics, and only entries below the count are asked. -/
theorem fatHasCpu_magic (header : List UInt8) (table : Table) (order : ByteOrder) (cpu : UInt32) :
    ∃ found, fatHasCpu header (table.magic order) cpu = .ok found ∧
      (found = true ↔ ∃ count ≤ 32, word header 4 order.isLittle = .ok (some count) ∧
        ∃ i < count, word header (8 + i * table.stride) order.isLittle = .ok (some cpu.toNat)) := by
  have hmagic : fatHasCpu header (table.magic order) cpu = (do
      match (← word header 4 order.isLittle).filter fun count => count ≤ 32 with
      | none => return false
      | some count => (List.range count).anyM fun i =>
        (word header (8 + i * table.stride) order.isLittle).map (· == some cpu.toNat)) := by
    cases table <;> cases order <;> rfl
  rw [hmagic]
  rcases word_cases header 4 order with ⟨-, hnone⟩ | ⟨pre, count, post, -, -, -, hword⟩
  · rw [hnone]
    exact ⟨false, rfl, by simp⟩
  · rw [hword]
    by_cases hcount : count ≤ 32
    · choose g hg using fun i => word_beq header (8 + i * table.stride) order cpu
      refine ⟨(List.range count).any g, ?_, ?_⟩
      · have hfilter : (some count).filter (fun count => count ≤ 32) = some count := by
          simp [Option.filter, hcount]
        simp only [bind, Except.bind, hfilter]
        exact anyM_ok fun i _ => (hg i).1
      · rw [List.any_eq_true]
        constructor
        · rintro ⟨i, hi, hfound⟩
          exact ⟨count, hcount, rfl, i, List.mem_range.mp hi, (hg i).2.mp hfound⟩
        · rintro ⟨count', -, heq, i, hi, hcpu⟩
          cases heq
          exact ⟨i, List.mem_range.mpr hi, (hg i).2.mpr hcpu⟩
    · have hfilter : (some count).filter (fun count => count ≤ 32) = none := by
        simp [Option.filter, hcount]
      refine ⟨false, by simp only [bind, Except.bind, hfilter]; rfl, ?_⟩
      constructor
      · intro h
        cases h
      · rintro ⟨count', hle, heq, -⟩
        cases heq
        exact absurd hle hcount

theorem length_thinMagic (order : ByteOrder) : (thinMagic order).length = 4 := length_u32 order _

theorem length_magic (table : Table) (order : ByteOrder) : (table.magic order).length = 4 := by
  cases table <;> exact length_u32 order _

/-- The six magic numbers are different. -/
theorem thinMagic_inj {order order' : ByteOrder} (h : thinMagic order = thinMagic order') :
    order = order' := by
  revert h
  cases order <;> cases order' <;> decide

theorem magic_inj {table table' : Table} {order order' : ByteOrder}
    (h : table.magic order = table'.magic order') : table = table' ∧ order = order' := by
  revert h
  cases table <;> cases table' <;> cases order <;> cases order' <;> decide

theorem thinMagic_ne_magic (table : Table) (order order' : ByteOrder) :
    thinMagic order ≠ table.magic order' := by
  cases table <;> cases order <;> cases order' <;> decide

theorem holdsCpu_thin : HoldsCpu (thinMagic order ++ tail) cpu ↔
    ∃ rest, tail = order.u32 cpu.toNat ++ rest := by
  constructor
  · rintro (⟨order', rest, heq⟩ | ⟨table, order', i, rest, count, -, -, before, -, heq⟩)
    · obtain ⟨hmagic, htail⟩ := List.append_inj heq (by simp only [length_thinMagic])
      cases thinMagic_inj hmagic
      exact ⟨rest, htail⟩
    · have hmagic := (List.append_inj heq (by simp only [length_thinMagic, length_magic])).1
      exact absurd hmagic (thinMagic_ne_magic table order order')
  · rintro ⟨rest, rfl⟩
    exact .inl ⟨order, rest, rfl⟩

theorem holdsCpu_fat : HoldsCpu (table.magic order ++ tail) cpu ↔
    ∃ count ≤ 32, ∃ i < count, ∃ before rest, before.length = i * table.stride ∧
      tail = order.u32 count ++ (before ++ (order.u32 cpu.toNat ++ rest)) := by
  constructor
  · rintro (⟨order', rest, heq⟩ | ⟨table', order', i, rest, count, hcount, hi, before, hbefore, heq⟩)
    · have hmagic := (List.append_inj heq (by simp only [length_thinMagic, length_magic])).1
      exact absurd hmagic.symm (thinMagic_ne_magic table order' order)
    · obtain ⟨hmagic, htail⟩ := List.append_inj heq (by simp only [length_magic])
      obtain ⟨rfl, rfl⟩ := magic_inj hmagic
      exact ⟨count, hcount, i, hi, before, rest, hbefore, htail⟩
  · rintro ⟨count, hcount, i, hi, before, rest, hbefore, rfl⟩
    exact .inr ⟨table, order, i, rest, count, hcount, hi, before, hbefore, rfl⟩

/-- The words of a table, in terms of what is behind its magic number. -/
theorem word_table_iff {count : Nat} (hcount : count ≤ 32) (i : Nat) :
    (word (table.magic order ++ tail) 4 order.isLittle = .ok (some count) ∧
      word (table.magic order ++ tail) (8 + i * table.stride) order.isLittle =
        .ok (some cpu.toNat)) ↔
    ∃ before rest, before.length = i * table.stride ∧
      tail = order.u32 count ++ (before ++ (order.u32 cpu.toNat ++ rest)) := by
  have hmagic := length_magic table order
  have hfour := word_shift (table.magic order) tail 0 order.isLittle
  have hentry := word_shift (table.magic order) tail (4 + i * table.stride) order.isLittle
  rw [hmagic, Nat.add_zero] at hfour
  rw [hmagic, ← Nat.add_assoc] at hentry
  rw [hfour, hentry, word_zero_iff (by omega)]
  constructor
  · rintro ⟨⟨tail, rfl⟩, hcpu⟩
    have hshift := word_shift (order.u32 count) tail (i * table.stride) order.isLittle
    rw [length_u32] at hshift
    rw [hshift, word_eq_iff (u32_cputype_lt cpu)] at hcpu
    obtain ⟨before, rest, hbefore, rfl⟩ := hcpu
    exact ⟨before, rest, hbefore, rfl⟩
  · rintro ⟨before, rest, hbefore, rfl⟩
    refine ⟨⟨_, rfl⟩, ?_⟩
    rw [word_eq_iff (u32_cputype_lt cpu)]
    exact ⟨order.u32 count ++ before, rest, by simp [hbefore], by simp⟩

/-- **The check on every byte string**: it never panics, and it answers whether a header that the
bytes start with has the CPU type in a field within them. -/
theorem machoHasCpu_iff (bytes : List UInt8) (cpu : UInt32) :
    ∃ found, machoHasCpu bytes cpu = .ok found ∧ (found = true ↔ HoldsCpu bytes cpu) := by
  by_cases hlength : bytes.length < 4
  · have hnone : getFour bytes 0 = none := if_neg (by omega)
    refine ⟨false, by rw [machoHasCpu, hnone], ?_⟩
    constructor
    · intro h
      cases h
    · rintro (⟨order, rest, rfl⟩ | ⟨table, order, i, rest, count, -, -, before, -, rfl⟩)
      · simp only [List.length_append, length_thinMagic] at hlength
        omega
      · simp only [List.length_append, length_magic] at hlength
        omega
  · obtain ⟨magic, tail, hmagic, rfl⟩ : ∃ magic tail, magic.length = 4 ∧ bytes = magic ++ tail :=
      ⟨bytes.take 4, bytes.drop 4, by simp; omega, (List.take_append_drop 4 bytes).symm⟩
    have hfour : getFour (magic ++ tail) 0 = some magic := by
      simp [getFour, hmagic, List.take_left' hmagic]
    by_cases hthin : ∃ order, magic = thinMagic order
    · obtain ⟨order, rfl⟩ := hthin
      obtain ⟨found, hfound, hword⟩ := word_beq (thinMagic order ++ tail) 4 order cpu
      refine ⟨found, ?_, ?_⟩
      · rw [← hfound, machoHasCpu, hfour]
        cases order <;> rfl
      · have hshift := word_shift (thinMagic order) tail 0 order.isLittle
        rw [length_thinMagic, Nat.add_zero] at hshift
        rw [hword, holdsCpu_thin, hshift, word_zero_iff (u32_cputype_lt cpu)]
    · by_cases hfat : ∃ table order, magic = Table.magic order table
      · obtain ⟨table, order, rfl⟩ := hfat
        obtain ⟨found, hfound, hwords⟩ :=
          fatHasCpu_magic (table.magic order ++ tail) table order cpu
        refine ⟨found, ?_, ?_⟩
        · rw [← hfound, machoHasCpu, hfour]
          cases table <;> cases order <;> rfl
        · rw [hwords, holdsCpu_fat]
          constructor
          · rintro ⟨count, hcount, hword, i, hi, hcpu⟩
            exact ⟨count, hcount, i, hi, (word_table_iff hcount i).mp ⟨hword, hcpu⟩⟩
          · rintro ⟨count, hcount, i, hi, hbytes⟩
            obtain ⟨hword, hcpu⟩ := (word_table_iff hcount i).mpr hbytes
            exact ⟨count, hcount, hword, i, hi, hcpu⟩
      · -- none of the six magic numbers
        refine ⟨false, ?_, ?_⟩
        · rw [machoHasCpu, hfour]
          have hle : magic ≠ [0xcf, 0xfa, 0xed, 0xfe] := fun h => hthin ⟨.little, h⟩
          have hbe : magic ≠ [0xfe, 0xed, 0xfa, 0xcf] := fun h => hthin ⟨.big, h⟩
          have h1 : magic ≠ [0xca, 0xfe, 0xba, 0xbe] := fun h => hfat ⟨.fat, .big, h⟩
          have h2 : magic ≠ [0xca, 0xfe, 0xba, 0xbf] := fun h => hfat ⟨.fat64, .big, h⟩
          have h3 : magic ≠ [0xbe, 0xba, 0xfe, 0xca] := fun h => hfat ⟨.fat, .little, h⟩
          have h4 : magic ≠ [0xbf, 0xba, 0xfe, 0xca] := fun h => hfat ⟨.fat64, .little, h⟩
          simp [hle, hbe, h1, h2, h3, h4]
        · constructor
          · intro h
            cases h
          · rintro (⟨order, rest, heq⟩ | ⟨table, order, i, rest, count, -, -, before, -, heq⟩)
            · have h := (List.append_inj heq (by rw [hmagic, length_thinMagic])).1
              exact absurd ⟨order, h⟩ hthin
            · have h := (List.append_inj heq (by rw [hmagic, length_magic])).1
              exact absurd ⟨table, order, h⟩ hfat

end Answer

/-! ## Headers that were read -/

section Headers

variable {bytes rest : List UInt8} {cpu : UInt32} {order : ByteOrder} {size i : Nat}

theorem length_bytes (order : ByteOrder) (arch : Arch size) : (arch.bytes order).length = size := by
  have := arch.length_fields
  simp only [Arch.bytes, List.length_append, length_u32]
  omega

theorem length_entries (order : ByteOrder) (archs : List (Arch size)) :
    (archs.flatMap (Arch.bytes order)).length = archs.length * size := by
  induction archs with
  | nil => simp
  | cons arch archs ih =>
    rw [List.flatMap_cons, List.length_append, length_bytes, ih, List.length_cons, Nat.succ_mul,
      Nat.add_comm]

/-- Some way into the table stands an entry. -/
theorem cputype_of_entries {archs : List (Arch size)} {before body : List UInt8}
    (hi : i < archs.length) (hbefore : before.length = i * size)
    (h : archs.flatMap (Arch.bytes order) ++ body =
      before ++ (order.u32 cpu.toNat ++ rest)) : cpu ∈ archs.map Arch.cputype := by
  obtain ⟨front, arch, back, rfl, rfl⟩ : ∃ front arch back, archs = front ++ arch :: back ∧
      front.length = i :=
    ⟨archs.take i, archs[i], archs.drop (i + 1), by simp, by simp; omega⟩
  rw [List.flatMap_append, List.flatMap_cons, Arch.bytes, List.append_assoc] at h
  obtain ⟨-, htail⟩ := List.append_inj h (by rw [length_entries, hbefore])
  simp only [List.append_assoc] at htail
  obtain ⟨hu32, -⟩ := List.append_inj htail (by simp)
  have hcpu := u32_inj (u32_cputype_lt arch.cputype) (u32_cputype_lt cpu) hu32
  rw [UInt32.toNat_inj] at hcpu
  simp [hcpu]

theorem HoldsCpu.append (h : HoldsCpu bytes cpu) (more : List UInt8) :
    HoldsCpu (bytes ++ more) cpu := by
  rcases h with ⟨order, rest, rfl⟩ | ⟨table, order, i, rest, count, hcount, hi, before, hbefore, rfl⟩
  · exact .inl ⟨order, rest ++ more, by simp⟩
  · exact .inr ⟨table, order, i, rest ++ more, count, hcount, hi, before, hbefore, by simp⟩

/-- A header that is followed by anything has only the CPU types of its list. -/
theorem mem_cputypes {h : Header} (hle : h.cputypes.length ≤ 32) {body : List UInt8}
    (hcpu : HoldsCpu (h.bytes ++ body) cpu) : cpu ∈ h.cputypes := by
  cases h with
  | thin order arch =>
    rw [Header.bytes, List.append_assoc, holdsCpu_thin] at hcpu
    obtain ⟨rest, heq⟩ := hcpu
    rw [Arch.bytes, List.append_assoc] at heq
    obtain ⟨hu32, -⟩ := List.append_inj heq (by simp)
    have := u32_inj (u32_cputype_lt arch.cputype) (u32_cputype_lt cpu) hu32
    rw [UInt32.toNat_inj] at this
    simp [Header.cputypes, this]
  | fat table order archs =>
    rw [Header.bytes, List.append_assoc, List.append_assoc, holdsCpu_fat] at hcpu
    obtain ⟨count, hcount, i, hi, before, rest, hbefore, heq⟩ := hcpu
    obtain ⟨hu32, hentries⟩ := List.append_inj heq (by simp)
    rw [Header.cputypes, List.length_map] at hle
    rw [← u32_inj (by omega) (by omega) hu32] at hi
    exact cputype_of_entries hi hbefore hentries

/-- The first 1024 bytes hold the CPU type of each of at most 32 architectures, if not the whole
entry of the last one. -/
theorem holdsCpu_take {h : Header} (hle : h.cputypes.length ≤ 32) (hcpu : cpu ∈ h.cputypes)
    (body : List UInt8) : HoldsCpu ((h.bytes ++ body).take 1024) cpu := by
  cases h with
  | thin order arch =>
    rw [Header.cputypes, List.mem_singleton] at hcpu
    subst hcpu
    rw [Header.bytes, Arch.bytes, List.append_assoc, List.append_assoc, List.take_append,
      List.take_append, List.take_of_length_le (by rw [length_thinMagic]; omega),
      List.take_of_length_le (by rw [length_thinMagic, length_u32]; omega)]
    exact .inl ⟨order, _, rfl⟩
  | fat table order archs =>
    rw [Header.cputypes, List.length_map] at hle
    obtain ⟨arch, harch, rfl⟩ := List.mem_map.mp hcpu
    obtain ⟨front, back, rfl⟩ := List.append_of_mem harch
    have hlength : front.length + 1 ≤ 32 := by
      rw [List.length_append, List.length_cons] at hle
      omega
    have hstride : table.stride ≤ 32 := by cases table <;> decide
    have hfront : (front.flatMap (Arch.bytes order)).length ≤ 31 * 32 := by
      rw [length_entries]
      exact Nat.mul_le_mul (by omega) hstride
    rw [Header.bytes, List.flatMap_append, List.flatMap_cons, Arch.bytes]
    simp only [List.append_assoc]
    -- the type ends at most 8 + 31 * 32 + 4 bytes in
    rw [List.take_append, List.take_append, List.take_append, List.take_append,
      List.take_of_length_le (by rw [length_magic]; omega),
      List.take_of_length_le (by rw [length_magic, length_u32]; omega),
      List.take_of_length_le (by rw [length_magic, length_u32]; omega),
      List.take_of_length_le (by rw [length_magic, length_u32, length_u32]; omega)]
    refine .inr ⟨table, order, front.length, _, _, hle, ?_, _, length_entries order front, rfl⟩
    rw [List.length_append, List.length_cons]
    omega

/-- **The check, on the first 1024 bytes of an executable and on whatever else it may get.** -/
theorem machoHasCpu_spec (cpu : UInt32) :
    (∀ h : Header, h.cputypes.length ≤ 32 → ∀ body,
      machoHasCpu ((h.bytes ++ body).take 1024) cpu = .ok (decide (cpu ∈ h.cputypes))) ∧
    ∀ bytes, ∃ found, machoHasCpu bytes cpu = .ok found ∧
      (found = true ↔ HoldsCpu bytes cpu) := by
  refine ⟨fun h hle body => ?_, fun bytes => machoHasCpu_iff bytes cpu⟩
  obtain ⟨found, hfound, hiff⟩ := machoHasCpu_iff ((h.bytes ++ body).take 1024) cpu
  rw [hfound, Except.ok.injEq, Bool.eq_iff_iff, hiff, decide_eq_true_iff]
  constructor
  · intro hcpu
    have happend := hcpu.append ((h.bytes ++ body).drop 1024)
    rw [List.take_append_drop] at happend
    exact mem_cputypes hle happend
  · intro hcpu
    exact holdsCpu_take hle hcpu body

end Headers

def CPU_TYPE_ARM64 : UInt32 := 0x0100000c

def CPU_TYPE_X86_64 : UInt32 := 0x01000007

/-- A universal binary of the two. -/
def universal : Header :=
  .fat .fat .big [⟨CPU_TYPE_X86_64, List.replicate 16 0, rfl⟩, ⟨CPU_TYPE_ARM64, List.replicate 16 0, rfl⟩]

theorem machoHasCpu_universal : universal.cputypes.length ≤ 32 ∧
    machoHasCpu ((universal.bytes ++ List.replicate 2000 0).take 1024) CPU_TYPE_ARM64 = .ok true :=
  ⟨by decide, (machoHasCpu_spec CPU_TYPE_ARM64).1 universal (by decide) (List.replicate 2000 0)⟩

/-- A table of one entry that is cut behind the CPU type. -/
def cutEntry : List UInt8 := [0xca, 0xfe, 0xba, 0xbe, 0, 0, 0, 1, 1, 0, 0, 0x0c]

/-- The 32-bit header of an Intel executable, in little-endian order. -/
def thin32 : List UInt8 := [0xce, 0xfa, 0xed, 0xfe, 7, 0, 0, 0] ++ List.replicate 20 0

/-- An entry that is cut off counts, and a 32-bit header does not. -/
theorem cut_entry :
    (machoHasCpu cutEntry CPU_TYPE_ARM64 = .ok true ∧ ¬ HoldsRecord cutEntry CPU_TYPE_ARM64) ∧
      machoHasCpu thin32 7 = .ok false := by
  refine ⟨⟨by decide, ?_⟩, by decide⟩
  rintro (⟨order, rest, hrest, heq⟩ | ⟨table, order, i, rest, hrest, count, -, -, before, -, heq⟩)
  · have hlength := congrArg List.length heq
    rw [List.length_append, List.length_append, length_thinMagic, length_u32] at hlength
    have : cutEntry.length = 12 := rfl
    omega
  · have hlength := congrArg List.length heq
    simp only [List.length_append, length_magic, length_u32] at hlength
    have : cutEntry.length = 12 := rfl
    have : 20 ≤ table.stride := by cases table <;> decide
    omega

end LinkPilot.MachO
