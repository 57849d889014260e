import Mathlib.Data.List.Basic

/-!
# Chains of two connectives

Operands joined by two connectives, as they stand in a text without brackets: `a ∧ b ∨ c`.  A
chain can be grouped in many ways; two of them let one connective bind tighter than the other
throughout, and every other grouping lies between these two.

* `below_value_glue` — joining two chains moves the value in one direction.
* `below_value_glueAll` — the same for a list of chains.
* `text_runs` — the grouped chain has the text of the chain.
* `text_inj` — a text whose operands can be told from what follows them is the text of one chain.
-/

set_option autoImplicit false

/-- Operands joined by conjunctions (`true`) and disjunctions (`false`). -/
structure Chain (α : Type) where
  first : α
  rest : List (Bool × α)
  deriving DecidableEq, Repr

namespace Chain

variable {α β : Type}

def single (a : α) : Chain α := ⟨a, []⟩

/-- Two chains, joined by a connective. -/
def glue (op : Bool) (x y : Chain α) : Chain α := ⟨x.first, x.rest ++ (op, y.first) :: y.rest⟩

/-- The chains of a list, joined by a connective; the default stands for the empty list. -/
def glueAll (op : Bool) (default : Chain α) : List (Chain α) → Chain α
  | [] => default
  | [x] => x
  | x :: y :: xs => glue op x (glueAll op default (y :: xs))

def map (f : α → β) (x : Chain α) : Chain β := ⟨f x.first, x.rest.map fun p => (p.1, f p.2)⟩

def operands (x : Chain α) : List α := x.first :: x.rest.map Prod.snd

/-- The run of operands joined by `inner` that a chain starts with, and the later runs. -/
def runsFrom (inner : Bool) : α → List (Bool × α) → List α × List (List α)
  | a, [] => ([a], [])
  | a, (op, b) :: rest =>
    if op = inner then (a :: (runsFrom inner b rest).1, (runsFrom inner b rest).2)
    else ([a], (runsFrom inner b rest).1 :: (runsFrom inner b rest).2)

/-- The runs of operands that `inner` joins. -/
def runs (inner : Bool) (x : Chain α) : List (List α) :=
  (runsFrom inner x.first x.rest).1 :: (runsFrom inner x.first x.rest).2

theorem operands_glue (op : Bool) (x y : Chain α) :
    (glue op x y).operands = x.operands ++ y.operands := by
  simp [glue, operands]

theorem mem_operands_glueAll {op : Bool} {d : Chain α} {xs : List (Chain α)} (hne : xs ≠ []) {a : α}
    (h : a ∈ (glueAll op d xs).operands) : ∃ x ∈ xs, a ∈ x.operands := by
  match xs with
  | [] => exact absurd rfl hne
  | [x] => exact ⟨x, List.mem_cons_self, h⟩
  | x :: y :: xs =>
    rw [glueAll, operands_glue, List.mem_append] at h
    rcases h with h | h
    · exact ⟨x, List.mem_cons_self, h⟩
    · obtain ⟨z, hz, ha⟩ := mem_operands_glueAll (List.cons_ne_nil y xs) h
      exact ⟨z, List.mem_cons_of_mem x hz, ha⟩

@[simp] theorem operands_map (f : α → β) (x : Chain α) : (x.map f).operands = x.operands.map f := by
  simp [operands, map]

theorem map_glue (f : α → β) (op : Bool) (x y : Chain α) :
    (glue op x y).map f = glue op (x.map f) (y.map f) := by
  simp [glue, map]

theorem map_glueAll (f : α → β) (op : Bool) (d : Chain α) (xs : List (Chain α)) :
    (glueAll op d xs).map f = glueAll op (d.map f) (xs.map (map f)) := by
  match xs with
  | [] => rfl
  | [x] => rfl
  | x :: y :: xs =>
    rw [glueAll, map_glue, map_glueAll f op d (y :: xs)]
    rfl

/-- The default of an empty list does not matter. -/
theorem glueAll_default {op : Bool} {xs : List (Chain α)} (hne : xs ≠ [])
    (d d' : Chain α) : glueAll op d xs = glueAll op d' xs := by
  match xs with
  | [] => exact absurd rfl hne
  | [x] => rfl
  | x :: y :: xs =>
    rw [glueAll, glueAll, glueAll_default (List.cons_ne_nil y xs) d d']

theorem runsFrom_map (f : α → β) (inner : Bool) (a : α) (rest : List (Bool × α)) :
    runsFrom inner (f a) (rest.map fun p => (p.1, f p.2)) =
      ((runsFrom inner a rest).1.map f, (runsFrom inner a rest).2.map (List.map f)) := by
  induction rest generalizing a with
  | nil => rfl
  | cons p rest ih =>
    simp only [List.map_cons, runsFrom, ih]
    split <;> rfl

theorem runs_map (f : α → β) (inner : Bool) (x : Chain α) :
    (x.map f).runs inner = (x.runs inner).map (List.map f) := by
  simp only [runs, map, runsFrom_map, List.map_cons]

/-- Every run has an operand. -/
theorem runs_ne_nil (inner : Bool) (x : Chain α) :
    x.runs inner ≠ [] ∧ ∀ run ∈ x.runs inner, run ≠ [] := by
  have hrest : ∀ (rest : List (Bool × α)) a, (runsFrom inner a rest).1 ≠ [] ∧
      ∀ run ∈ (runsFrom inner a rest).2, run ≠ [] := by
    intro rest
    induction rest with
    | nil => exact fun a => ⟨by simp [runsFrom], by simp [runsFrom]⟩
    | cons p rest ih =>
      intro a
      rw [runsFrom]
      split
      · exact ⟨by simp, (ih p.2).2⟩
      · exact ⟨by simp, List.forall_mem_cons.mpr (ih p.2)⟩
  exact ⟨by simp [runs], List.forall_mem_cons.mpr (hrest x.rest x.first)⟩

theorem mem_operands_of_mem_runs {inner : Bool} {x : Chain α} {run : List α} {a : α}
    (hrun : run ∈ x.runs inner) (ha : a ∈ run) : a ∈ x.operands := by
  have hrest : ∀ (rest : List (Bool × α)) first,
      (runsFrom inner first rest).1 ++ (runsFrom inner first rest).2.flatten =
        first :: rest.map Prod.snd := by
    intro rest
    induction rest with
    | nil => exact fun first => rfl
    | cons p rest ih =>
      intro first
      rw [runsFrom]
      split
      · rw [List.cons_append, ih, List.map_cons]
      · rw [List.flatten_cons, List.singleton_append, ih, List.map_cons]
  have hmem : a ∈ (x.runs inner).flatten := List.mem_flatten.mpr ⟨run, hrun, ha⟩
  rwa [runs, List.flatten_cons, hrest] at hmem

/-! ## Values -/

/-- What a connective makes of two values, and of a list of them. -/
def join (op a b : Bool) : Bool := if op then a && b else a || b

def fold (op : Bool) (vs : List Bool) : Bool := if op then vs.all id else vs.any id

/-- The value when `inner` binds tighter. -/
def value (inner : Bool) (x : Chain Bool) : Bool := fold (!inner) ((x.runs inner).map (fold inner))

/-- The direction in which the grouping with `inner` is extreme: upwards for conjunctions. -/
def Below (inner v w : Bool) : Prop := if inner then v = true → w = true else w = true → v = true

instance (inner v w : Bool) : Decidable (Below inner v w) :=
  match inner with
  | true => inferInstanceAs (Decidable (v = true → w = true))
  | false => inferInstanceAs (Decidable (w = true → v = true))

theorem Below.refl (inner v : Bool) : Below inner v v := by
  cases inner <;> exact id

theorem Below.trans {inner u v w : Bool} (h : Below inner u v) (h' : Below inner v w) :
    Below inner u w := by
  revert h h'
  cases inner <;> cases u <;> cases v <;> cases w <;> decide

theorem Below.not {inner v w : Bool} (h : Below (!inner) v w) : Below inner (!v) (!w) := by
  revert h
  cases inner <;> cases v <;> cases w <;> decide

theorem Below.join {inner op a b c d : Bool} (h : Below inner a c) (h' : Below inner b d) :
    Below inner (join op a b) (join op c d) := by
  revert h h'
  cases inner <;> cases op <;> cases a <;> cases b <;> cases c <;> cases d <;> decide

theorem fold_cons (op v : Bool) (vs : List Bool) : fold op (v :: vs) = join op v (fold op vs) := by
  cases op <;> rfl

@[simp] theorem fold_singleton (op v : Bool) : fold op [v] = v := by
  cases op <;> cases v <;> rfl

theorem fold_nil (op : Bool) : fold op [] = op := by
  cases op <;> rfl

theorem join_identity (op v : Bool) : join op v op = v := by
  cases op <;> cases v <;> rfl

theorem fold_append (op : Bool) (vs ws : List Bool) :
    fold op (vs ++ ws) = join op (fold op vs) (fold op ws) := by
  cases op <;> simp [fold, join]

/-- The values of the first run and of the later ones. -/
theorem value_eq (inner : Bool) (x : Chain Bool) :
    value inner x = join (!inner) (fold inner (runsFrom inner x.first x.rest).1)
      (fold (!inner) ((runsFrom inner x.first x.rest).2.map (fold inner))) := by
  rw [value, runs, List.map_cons, fold_cons]

/-- The connective that binds less separates the runs. -/
theorem runs_glue (inner : Bool) (x y : Chain α) :
    (glue (!inner) x y).runs inner = x.runs inner ++ y.runs inner := by
  have hrest : ∀ (rest : List (Bool × α)) a,
      runsFrom inner a (rest ++ (!inner, y.first) :: y.rest) =
        ((runsFrom inner a rest).1, (runsFrom inner a rest).2 ++ y.runs inner) := by
    intro rest
    induction rest with
    | nil => simp [runsFrom, runs]
    | cons p rest ih =>
      intro a
      simp only [List.cons_append, runsFrom, ih]
      split <;> rfl
  simp only [runs, glue, hrest, List.cons_append]

/-- **Joining two chains by the connective that binds tighter**: the value is that of both joined, or
further in its direction.  The induction is on the first chain, and carries the same for the runs
behind its first one. -/
theorem below_value_glue_inner (inner : Bool) (x y : Chain Bool) :
    Below inner (join inner (value inner x) (value inner y)) (value inner (glue inner x y)) := by
  have hrest : ∀ (rest : List (Bool × Bool)) a,
      let first := fold inner (runsFrom inner a rest).1
      let later := fold (!inner) ((runsFrom inner a rest).2.map (fold inner))
      let glued := runsFrom inner a (rest ++ (inner, y.first) :: y.rest)
      Below inner (join inner (join (!inner) first later) (value inner y))
          (join (!inner) (fold inner glued.1) (fold (!inner) (glued.2.map (fold inner)))) ∧
        Below inner (join inner later (value inner y))
          (fold (!inner) (glued.2.map (fold inner))) := by
    intro rest
    induction rest with
    | nil =>
      intro a
      simp only [List.nil_append, runsFrom, ↓reduceIte, fold_cons, fold_nil, List.map_nil, value_eq]
      generalize fold inner (runsFrom inner y.first y.rest).1 = c
      generalize fold (!inner) ((runsFrom inner y.first y.rest).2.map (fold inner)) = d
      revert inner a c d
      decide
    | cons p rest ih =>
      intro a
      obtain ⟨hfirst, hlater⟩ := ih p.2
      simp only [List.cons_append, runsFrom]
      by_cases hop : p.1 = inner
      · simp only [hop, ↓reduceIte, fold_cons]
        revert hfirst hlater
        generalize fold inner (runsFrom inner p.2 rest).1 = c
        generalize fold (!inner) ((runsFrom inner p.2 rest).2.map (fold inner)) = d
        generalize value inner y = v
        generalize fold inner (runsFrom inner p.2 (rest ++ (inner, y.first) :: y.rest)).1 = c'
        generalize fold (!inner)
          ((runsFrom inner p.2 (rest ++ (inner, y.first) :: y.rest)).2.map (fold inner)) = d'
        clear hop ih
        revert inner a c d v c' d'
        decide
      · simp only [hop, ↓reduceIte, fold_cons, fold_nil, List.map_cons]
        refine ⟨?_, hfirst⟩
        revert hfirst
        generalize join (!inner) (fold inner (runsFrom inner p.2 rest).1)
          (fold (!inner) ((runsFrom inner p.2 rest).2.map (fold inner))) = d
        generalize value inner y = v
        generalize join (!inner) (fold inner (runsFrom inner p.2 (rest ++ (inner, y.first) :: y.rest)).1)
          (fold (!inner)
            ((runsFrom inner p.2 (rest ++ (inner, y.first) :: y.rest)).2.map (fold inner))) = d'
        clear hop hlater ih
        revert inner a d v d'
        decide
  have hglue := (hrest x.rest x.first).1
  rw [← value_eq] at hglue
  rw [value_eq inner (glue inner x y)]
  exact hglue

/-- **Joining two chains.** -/
theorem below_value_glue (inner op : Bool) (x y : Chain Bool) :
    Below inner (join op (value inner x) (value inner y)) (value inner (glue op x y)) := by
  by_cases hop : op = inner
  · rw [hop]
    exact below_value_glue_inner inner x y
  · have hnot : op = !inner := Bool.eq_not.mpr hop
    have hvalue : value inner (glue (!inner) x y) =
        join (!inner) (value inner x) (value inner y) := by
      rw [value, runs_glue, List.map_append, fold_append]
      rfl
    rw [hnot, hvalue]
    exact Below.refl inner _

/-- Joining the chains of a list. -/
theorem below_value_glueAll (inner op : Bool) (d : Chain Bool) {xs : List (Chain Bool)}
    (hne : xs ≠ []) :
    Below inner (fold op (xs.map (value inner))) (value inner (glueAll op d xs)) := by
  match xs with
  | [] => exact absurd rfl hne
  | [x] =>
    rw [List.map_singleton, fold_singleton]
    exact Below.refl inner _
  | x :: y :: xs =>
    have htail := below_value_glueAll inner op d (List.cons_ne_nil y xs)
    rw [List.map_cons, fold_cons]
    exact ((Below.refl inner _).join htail).trans (below_value_glue inner op x _)

/-- Only one connective is used. -/
def Uniform (op : Bool) (x : Chain α) : Prop := ∀ p ∈ x.rest, p.1 = op

theorem Uniform.glue {op : Bool} {x y : Chain α} (hx : Uniform op x) (hy : Uniform op y) :
    Uniform op (glue op x y) := by
  intro p hp
  rcases List.mem_append.mp hp with hp | hp
  · exact hx p hp
  · rcases List.mem_cons.mp hp with rfl | hp
    · rfl
    · exact hy p hp

theorem Uniform.glueAll {op : Bool} {d : Chain α} {xs : List (Chain α)} (hne : xs ≠ [])
    (hxs : ∀ x ∈ xs, Uniform op x) : Uniform op (glueAll op d xs) := by
  match xs with
  | [] => exact absurd rfl hne
  | [x] => exact hxs x List.mem_cons_self
  | x :: y :: xs =>
    rw [List.forall_mem_cons] at hxs
    exact hxs.1.glue (Uniform.glueAll (List.cons_ne_nil y xs) hxs.2)

/-- Then no run is behind the first one. -/
theorem runsFrom_uniform {inner : Bool} {rest : List (Bool × α)} (h : ∀ p ∈ rest, p.1 = inner) (a : α) :
    (runsFrom inner a rest).2 = [] := by
  induction rest generalizing a with
  | nil => rfl
  | cons p rest ih =>
    rw [List.forall_mem_cons] at h
    rw [runsFrom, if_pos h.1]
    exact ih h.2 p.2

/-- **With one connective the grouping does not matter.** -/
theorem Uniform.value_eq {op : Bool} {x : Chain Bool} (hx : Uniform op x) (inner : Bool) :
    value inner x = fold op x.operands := by
  have hrest : ∀ (rest : List (Bool × Bool)) a, (∀ p ∈ rest, p.1 = op) →
      join (!inner) (fold inner (runsFrom inner a rest).1)
        (fold (!inner) ((runsFrom inner a rest).2.map (fold inner))) =
        fold op (a :: rest.map Prod.snd) := by
    intro rest
    induction rest with
    | nil =>
      intro a _
      simp only [runsFrom, List.map_nil, fold_singleton, fold_nil]
      exact join_identity (!inner) a
    | cons p rest ih =>
      intro a hall
      rw [List.forall_mem_cons] at hall
      rw [fold_cons, List.map_cons, ← ih p.2 hall.2]
      by_cases hop : op = inner
      · -- one run
        subst hop
        simp only [runsFrom, hall.1, ↓reduceIte, runsFrom_uniform hall.2, List.map_nil, fold_nil,
          fold_cons, join_identity]
      · -- each operand is a run
        have hnot : op = !inner := Bool.eq_not.mpr hop
        simp only [runsFrom, hall.1, hop, ↓reduceIte, List.map_cons, fold_cons, fold_nil,
          join_identity]
        rw [hnot]
  rw [Chain.value_eq]
  exact hrest x.rest x.first hx

/-! ## Texts -/

section Text

variable (sep : Bool → List β)

/-- The text of a chain of texts, with a separator for each connective. -/
def text (x : Chain (List β)) : List β := x.first ++ x.rest.flatMap fun p => sep p.1 ++ p.2

theorem text_glue (op : Bool) (x y : Chain (List β)) :
    (glue op x y).text sep = x.text sep ++ (sep op ++ y.text sep) := by
  simp [text, glue]

theorem text_glueAll (op : Bool) (d : Chain (List β)) {xs : List (Chain (List β))} (hne : xs ≠ []) :
    (glueAll op d xs).text sep = (sep op).intercalate (xs.map (text sep)) := by
  match xs with
  | [] => exact absurd rfl hne
  | [x] => rw [List.map_singleton, List.intercalate_singleton, glueAll]
  | x :: y :: xs =>
    rw [glueAll, text_glue, text_glueAll op d (List.cons_ne_nil y xs)]
    simp only [List.map_cons, List.intercalate_cons_cons, List.append_assoc]

theorem length_le_text {x : Chain (List β)} {a : List β} (h : a ∈ x.operands) :
    a.length ≤ (x.text sep).length := by
  rw [text, List.length_append]
  rcases List.mem_cons.mp h with rfl | h
  · omega
  · obtain ⟨p, hp, rfl⟩ := List.mem_map.mp h
    obtain ⟨front, back, hrest⟩ := List.append_of_mem hp
    rw [hrest, List.flatMap_append, List.flatMap_cons]
    simp only [List.length_append]
    omega

/-- **The text of the grouped chain** is that of the chain. -/
theorem text_runs (inner : Bool) (x : Chain (List β)) :
    (sep (!inner)).intercalate ((x.runs inner).map (sep inner).intercalate) = x.text sep := by
  have hrest : ∀ (rest : List (Bool × List β)) a,
      (sep (!inner)).intercalate ((runsFrom inner a rest).1 :: (runsFrom inner a rest).2 |>.map
        (sep inner).intercalate) = a ++ rest.flatMap fun p => sep p.1 ++ p.2 := by
    intro rest
    induction rest with
    | nil => simp [runsFrom]
    | cons p rest ih =>
      intro a
      have hne : (runsFrom inner p.2 rest).1 ≠ [] :=
        (runs_ne_nil inner ⟨p.2, rest⟩).2 _ List.mem_cons_self
      rw [List.flatMap_cons, List.append_assoc, ← ih p.2]
      by_cases hop : p.1 = inner
      · simp only [runsFrom, hop, ↓reduceIte, List.map_cons]
        rw [List.intercalate_cons_of_ne_nil hne]
        cases (runsFrom inner p.2 rest).2 with
        | nil => simp
        | cons run runs => simp [List.intercalate_cons_cons]
      · have hnot : p.1 = !inner := Bool.eq_not.mpr hop
        simp only [runsFrom, hop, ↓reduceIte, List.map_cons, List.intercalate_singleton]
        rw [List.intercalate_cons_cons, hnot]
        simp only [List.append_assoc]
  exact hrest x.rest x.first

/-- What may follow an operand: nothing, or a separator. -/
def Follows (s : List β) : Prop := s = [] ∨ ∃ op t, s = sep op ++ t

/-- The text behind the first operand. -/
def restText (rest : List (Bool × List β)) : List β := rest.flatMap fun p => sep p.1 ++ p.2

theorem follows_restText (rest : List (Bool × List β)) : Follows sep (restText sep rest) := by
  cases rest with
  | nil => exact .inl rfl
  | cons p rest =>
    refine .inr ⟨p.1, p.2 ++ restText sep rest, ?_⟩
    rw [restText, List.flatMap_cons, List.append_assoc]
    rfl

variable {sep}

theorem restText_inj (hempty : ∀ op, sep op ≠ [])
    (hsep : ∀ op op' s s', sep op ++ s = sep op' ++ s' → op = op') {rest rest' : List (Bool × List β)}
    {a b : List β} (hoperands : ∀ c ∈ a :: rest.map Prod.snd, ∀ d ∈ b :: rest'.map Prod.snd, ∀ s s',
      Follows sep s → Follows sep s' → c ++ s = d ++ s' → c = d)
    (h : a ++ restText sep rest = b ++ restText sep rest') : a = b ∧ rest = rest' := by
  induction rest generalizing rest' a b with
  | nil =>
    have hab : a = b := hoperands a List.mem_cons_self b List.mem_cons_self _ _
      (follows_restText sep []) (follows_restText sep rest') h
    subst hab
    refine ⟨rfl, ?_⟩
    cases rest' with
    | nil => rfl
    | cons p rest' =>
      have hnil : sep p.1 ++ p.2 ++ restText sep rest' = [] := (List.append_cancel_left h).symm
      rw [List.append_assoc, List.append_eq_nil_iff] at hnil
      exact absurd hnil.1 (hempty p.1)
  | cons p rest ih =>
    have hab : a = b := hoperands a List.mem_cons_self b List.mem_cons_self _ _
      (follows_restText sep (p :: rest)) (follows_restText sep rest') h
    subst hab
    refine ⟨rfl, ?_⟩
    obtain ⟨op, c⟩ := p
    have htail : sep op ++ c ++ restText sep rest = restText sep rest' := List.append_cancel_left h
    cases rest' with
    | nil =>
      rw [List.append_assoc] at htail
      exact absurd (List.append_eq_nil_iff.mp htail).1 (hempty op)
    | cons p' rest' =>
      obtain ⟨op', c'⟩ := p'
      have hcons : sep op ++ (c ++ restText sep rest) = sep op' ++ (c' ++ restText sep rest') := by
        rw [← List.append_assoc, htail, ← List.append_assoc]
        rfl
      have hop := hsep op op' _ _ hcons
      subst hop
      obtain ⟨hc, hrest⟩ := ih (fun d hd d' hd' => hoperands d (List.mem_cons_of_mem a hd) d'
        (List.mem_cons_of_mem a hd')) (List.append_cancel_left hcons)
      exact congr (congrArg List.cons (congrArg (Prod.mk op) hc)) hrest

/-- **A text is the text of one chain**, if the separators are told apart, and each operand is told
from any other by what a text starts with, up to what may follow it. -/
theorem text_inj (hempty : ∀ op, sep op ≠ [])
    (hsep : ∀ op op' s s', sep op ++ s = sep op' ++ s' → op = op') {x y : Chain (List β)}
    (hoperands : ∀ a ∈ x.operands, ∀ b ∈ y.operands, ∀ s s', Follows sep s → Follows sep s' →
      a ++ s = b ++ s' → a = b) (h : x.text sep = y.text sep) : x = y := by
  obtain ⟨hfirst, hrest⟩ := restText_inj hempty hsep hoperands h
  exact congr (congrArg Chain.mk hfirst) hrest

/-- Chains whose operands are told apart by a function. -/
theorem map_inj {α γ : Type} {f : α → γ} {x y : Chain α}
    (hf : ∀ a ∈ x.operands, ∀ b ∈ y.operands, f a = f b → a = b) (h : x.map f = y.map f) : x = y := by
  obtain ⟨a, rest⟩ := x
  obtain ⟨b, rest'⟩ := y
  simp only [map, Chain.mk.injEq] at h
  obtain ⟨hfirst, hrests⟩ := h
  obtain rfl := hf a List.mem_cons_self b List.mem_cons_self hfirst
  congr 1
  have htail : ∀ c ∈ rest.map Prod.snd, ∀ d ∈ rest'.map Prod.snd, f c = f d → c = d :=
    fun c hc d hd => hf c (List.mem_cons_of_mem a hc) d (List.mem_cons_of_mem a hd)
  clear hf hfirst
  induction rest generalizing rest' with
  | nil => exact (List.map_eq_nil_iff.mp hrests.symm).symm
  | cons p rest ih =>
    cases rest' with
    | nil => cases hrests
    | cons p' rest' =>
      simp only [List.map_cons, List.cons.injEq, Prod.mk.injEq] at hrests
      obtain ⟨⟨hop, hp⟩, hrests⟩ := hrests
      have hsnd := htail p.2 (by simp) p'.2 (by simp) hp
      rw [Prod.ext hop hsnd, ih rest' hrests fun c hc d hd =>
        htail c (List.mem_cons_of_mem _ hc) d (List.mem_cons_of_mem _ hd)]

end Text

end Chain
