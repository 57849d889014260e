import Mathlib.Data.List.Basic

/-!
# Lines

A text cut at a separator: the lines that are closed by one, and what is behind the last of them.

* `split_append` — what is appended goes on with the open line.
* `split_line` — a line that is written with its separator is cut off again.
* `lines_join`, `lines_append_line` — the lines of a text that was put together from lines.
-/

set_option autoImplicit false

namespace Lines

variable {α : Type} [DecidableEq α]

/-- The closed lines without their separators, and the open line. -/
def split (sep : α) : List α → List (List α) × List α
  | [] => ([], [])
  | a :: as =>
    if a = sep then ([] :: (split sep as).1, (split sep as).2)
    else
      match split sep as with
      | ([], last) => ([], a :: last)
      | (l :: ls, last) => ((a :: l) :: ls, last)

/-- The closed lines. -/
def closed (sep : α) (text : List α) : List (List α) := (split sep text).1

/-- The open line; none when it is empty. -/
def torn (sep : α) (text : List α) : List α := (split sep text).2

/-- The line that a text ends with, unless the text ends with a separator. -/
def openLine (sep : α) (text : List α) : List (List α) :=
  if torn sep text = [] then [] else [torn sep text]

def lines (sep : α) (text : List α) : List (List α) := closed sep text ++ openLine sep text

/-- The lines, each with a separator behind it. -/
def join (sep : α) (ls : List (List α)) : List α := ls.flatMap fun l => l ++ [sep]

/-- A line without the `c` that it ends with. -/
def chomp (c : α) (l : List α) : List α := if l.getLast? = some c then l.dropLast else l

variable {sep : α}

theorem split_sep (as : List α) :
    split sep (sep :: as) = ([] :: closed sep as, torn sep as) := by
  rw [split, if_pos rfl]
  rfl

/-- A line, its separator and a text. -/
theorem split_line {l : List α} (h : sep ∉ l) (as : List α) :
    split sep (l ++ sep :: as) = (l :: closed sep as, torn sep as) := by
  induction l with
  | nil => exact split_sep as
  | cons a l ih =>
    rw [List.mem_cons, not_or] at h
    rw [List.cons_append, split, if_neg (Ne.symm h.1), ih h.2]

theorem not_mem_torn (text : List α) : sep ∉ torn sep text := by
  induction text with
  | nil => exact List.not_mem_nil
  | cons a as ih =>
    unfold torn at ih ⊢
    rw [split]
    split
    · exact ih
    · rename_i hne
      cases hsplit : split sep as with
      | mk ls last =>
        rw [hsplit] at ih
        cases ls with
        | nil => exact List.not_mem_cons_of_ne_of_not_mem (Ne.symm hne) ih
        | cons l ls => exact ih

/-- What is appended to a text goes on with its open line. -/
theorem split_append (xs ys : List α) :
    split sep (xs ++ ys) =
      (closed sep xs ++ closed sep (torn sep xs ++ ys), torn sep (torn sep xs ++ ys)) := by
  induction xs with
  | nil => rfl
  | cons a xs ih =>
    have hnot := @not_mem_torn α _ sep xs
    unfold closed torn at ih hnot ⊢
    rw [List.cons_append, split, ih, split]
    split
    · rfl
    · rename_i hne
      cases hsplit : split sep xs with
      | mk ls last =>
        cases ls with
        | nil =>
          show _ = ([] ++ (split sep (a :: (last ++ ys))).1, (split sep (a :: (last ++ ys))).2)
          rw [split, if_neg hne]
          rfl
        | cons l ls => rfl

/-- The text again. -/
theorem join_closed_append_torn (text : List α) :
    join sep (closed sep text) ++ torn sep text = text := by
  induction text with
  | nil => rfl
  | cons a as ih =>
    unfold closed torn at ih ⊢
    rw [split]
    split
    · rename_i heq
      subst heq
      show a :: (join a _ ++ _) = _
      rw [ih]
    · cases hsplit : split sep as with
      | mk ls last =>
        rw [hsplit] at ih
        cases ls with
        | nil => exact congrArg (a :: ·) ih
        | cons l ls => exact congrArg (a :: ·) ih

theorem split_join {ls : List (List α)} (h : ∀ l ∈ ls, sep ∉ l) (as : List α) :
    split sep (join sep ls ++ as) = (ls ++ closed sep as, torn sep as) := by
  induction ls with
  | nil => rfl
  | cons l ls ih =>
    have hl : sep ∉ l := h l List.mem_cons_self
    have ih := ih fun l' hl' => h l' (List.mem_cons_of_mem _ hl')
    have htext : join sep (l :: ls) ++ as = l ++ sep :: (join sep ls ++ as) := by
      simp [join, List.flatMap_cons]
    rw [htext, split_line hl, closed, torn, ih]
    rfl

/-- Lines that were written with their separators. -/
theorem lines_join {ls : List (List α)} (h : ∀ l ∈ ls, sep ∉ l) : lines sep (join sep ls) = ls := by
  have hsplit := split_join h []
  rw [List.append_nil] at hsplit
  unfold lines openLine closed torn
  rw [hsplit]
  show (ls ++ []) ++ [] = ls
  rw [List.append_nil, List.append_nil]

/-- A line appended with its separator, and what was appended later. -/
theorem lines_append_line {l : List α} (h : sep ∉ l) (text as : List α) :
    lines sep (text ++ (l ++ sep :: as)) =
      closed sep text ++ (torn sep text ++ l) :: lines sep as := by
  have hnot : sep ∉ torn sep text ++ l :=
    List.not_mem_append (not_mem_torn text) h
  have hsplit := @split_append α _ sep text (l ++ sep :: as)
  have hline := split_line hnot as
  rw [List.append_assoc] at hline
  unfold closed torn at hsplit hline
  unfold lines openLine closed torn
  rw [hsplit, hline]
  show closed sep text ++ _ :: closed sep as ++ (if torn sep as = [] then [] else [torn sep as]) = _
  rw [List.append_assoc]
  rfl

end Lines
