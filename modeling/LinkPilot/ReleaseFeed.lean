import LinkPilot.Lib.Substrings
import Mathlib.Data.List.Basic

/-!
# The feed of releases

Model of `parse_release_atom_meta`, `extract_xml_text` and `decode_xml_entities` of
`apps/desktop/src-tauri/src/commands/mod.rs`, which read the title of a release from the
`releases.atom` of GitHub.

The entities are decoded by one whole-text replacement after the other, `&amp;` first: what that
leaves of an escaped `&lt;` is an entity to the next replacement.

Principal results:

* `Escaped.replace` — a pass decodes its entity in an escaped text, and acts on the text as on any.
* `decode_escape` — decoding the escaping of a text is decoding the five other entities in it.
* `parse_text` — what is read of a feed with an entry for the tag.
* `decode_escape_iff` — a title comes back exactly when none of the five entities is written in it.
-/

set_option autoImplicit false

namespace LinkPilot.ReleaseFeed

open Substrings

/-! ## `commands/mod.rs` -/

/-- `decode_xml_entities`. -/
def decodeXmlEntities (input : List Char) : List Char :=
  if '&' ∉ input then input
  else
    replace "&#39;".toList ['\'']
      (replace "&apos;".toList ['\'']
        (replace "&quot;".toList ['"']
          (replace "&gt;".toList ['>']
            (replace "&lt;".toList ['<']
              (replace "&amp;".toList ['&'] input)))))

/-- `extract_xml_text`. -/
def extractXmlText (block tag : List Char) : Option (List Char) :=
  match cut ('<' :: (tag ++ ['>'])) block with
  | none => none
  | some (_, behind) => (cut ('<' :: '/' :: (tag ++ ['>'])) behind).map Prod.fst

/-- What is read of an entry: the title and the time. -/
def entryMeta (entry : List Char) : Option String × Option String :=
  (((extractXmlText entry "title".toList).map decodeXmlEntities).map String.ofList,
    ((extractXmlText entry "updated".toList).map decodeXmlEntities).map String.ofList)

def entryOpen : List Char := "<entry>".toList

def entryClose : List Char := "</entry>".toList

/-- The loop of `parse_release_atom_meta`, on the text behind the cursor. -/
def parseEntries (marker atom : List Char) : Option (Option String × Option String) :=
  match _hopen : cut entryOpen atom with
  | none => none
  | some (_, behind) =>
    match _hclose : cut entryClose (entryOpen ++ behind) with
    | none => none
    | some (entry, rest) => if marker <:+: entry then some (entryMeta entry) else parseEntries marker rest
termination_by atom.length
decreasing_by
  have hatom := congrArg List.length (append_of_cut _hopen)
  have hentry := congrArg List.length (append_of_cut _hclose)
  have hlength : entryClose.length = 8 := rfl
  simp only [List.length_append] at hatom hentry
  omega

/-- `format!("/releases/tag/{tag}\"")`. -/
def hrefMarker (tag : String) : List Char := "/releases/tag/".toList ++ tag.toList ++ ['"']

/-- `parse_release_atom_meta`. -/
def parseReleaseAtomMeta (atom tag : String) : Option (Option String × Option String) :=
  parseEntries (hrefMarker tag) atom.toList

/-! ## Escaping -/

/-- The two ways to write an apostrophe. -/
inductive Apostrophe where
  | named
  | numeric
  deriving DecidableEq, Repr

def Apostrophe.entity : Apostrophe → List Char
  | named => "&apos;".toList
  | numeric => "&#39;".toList

def escapeChar (apostrophe : Apostrophe) : Char → List Char
  | '&' => "&amp;".toList
  | '<' => "&lt;".toList
  | '>' => "&gt;".toList
  | '"' => "&quot;".toList
  | '\'' => apostrophe.entity
  | c => [c]

/-- The XML escaping of a text. -/
def escape (apostrophe : Apostrophe) (t : List Char) : List Char := t.flatMap (escapeChar apostrophe)

/-- The replacements after that of `&amp;`, in their order. -/
def laterEntities : List (List Char × Char) :=
  [("&lt;".toList, '<'), ("&gt;".toList, '>'), ("&quot;".toList, '"'), ("&apos;".toList, '\''),
    ("&#39;".toList, '\'')]

/-- One replacement after the other. -/
def decodeAll (entities : List (List Char × Char)) (t : List Char) : List Char :=
  entities.foldl (fun t e => replace e.1 [e.2] t) t

/-- None of the five entities is written in the text. -/
def EntityFree (t : List Char) : Prop := ∀ e ∈ laterEntities, ¬ e.1 <:+: t

/-- The first text is the second one with some characters written as entities of the table. -/
inductive Escaped (table : List (List Char × Char)) : List Char → List Char → Prop
  | nil : Escaped table [] []
  | keep {u v : List Char} (c : Char) (h : Escaped table u v) : Escaped table (c :: u) (c :: v)
  | entity {u v : List Char} {e : List Char × Char} (he : e ∈ table) (h : Escaped table u v) :
    Escaped table (e.1 ++ u) (e.2 :: v)

/-- A table of entities: each is an `&` and a word without one, none is the beginning of another, and
none is written with a character that has one. -/
structure IsTable (table : List (List Char × Char)) : Prop where
  marked : ∀ e ∈ table, ∃ w, e.1 = '&' :: w ∧ '&' ∉ w
  apart : ∀ e ∈ table, ∀ f ∈ table, e.1 <+: f.1 → e = f
  literal : ∀ e ∈ table, ∀ f ∈ table, e.2 ∉ f.1

section Escaped

variable {table : List (List Char × Char)} {u v w : List Char} {e : List Char × Char}

theorem isTable_laterEntities : IsTable laterEntities := by
  refine ⟨fun e he => ?_, by decide, by decide⟩
  have hhead : ∀ e ∈ laterEntities, e.1.head? = some '&' ∧ '&' ∉ e.1.tail := by decide
  obtain ⟨hhead, htail⟩ := hhead e he
  refine ⟨e.1.tail, ?_, htail⟩
  rw [List.eq_cons_of_mem_head? hhead]
  rfl

theorem Escaped.eq (h : Escaped [] u v) : u = v := by
  induction h with
  | nil => rfl
  | keep c _ ih => rw [ih]
  | entity he => cases he

/-- A word of literal characters stands as it is. -/
theorem Escaped.append_literal (hw : ∀ c ∈ w, ∀ e ∈ table, c ≠ e.2) (h : Escaped table u (w ++ v)) :
    ∃ u', u = w ++ u' ∧ Escaped table u' v := by
  induction w generalizing u with
  | nil => exact ⟨u, rfl, h⟩
  | cons c w ih =>
    rw [List.forall_mem_cons] at hw
    cases h with
    | keep _ h =>
      obtain ⟨u', rfl, hu'⟩ := ih hw.2 h
      exact ⟨u', rfl, hu'⟩
    | entity he _ => exact absurd rfl (hw.1 _ he)

/-- A word without an `&` that the escaped text starts with is in the text. -/
theorem Escaped.prefix_of_prefix (htable : IsTable table) (hw : '&' ∉ w) (h : Escaped table u v)
    (hu : w <+: u) : w <+: v := by
  induction w generalizing u v with
  | nil => exact List.nil_prefix
  | cons c w ih =>
    rw [List.mem_cons, not_or] at hw
    cases h with
    | nil => exact absurd (List.prefix_nil.mp hu) (by simp)
    | keep d h =>
      rw [List.cons_prefix_cons] at hu ⊢
      exact ⟨hu.1, ih hw.2 h hu.2⟩
    | @entity u v e he _ =>
      obtain ⟨b, hb, -⟩ := htable.marked e he
      rw [hb, List.cons_append, List.cons_prefix_cons] at hu
      exact absurd hu.1.symm hw.1

/-- An entity holds no occurrence of another one. -/
theorem replace_entity {p f b b' : List Char} (hp : p = '&' :: b) (hf : f = '&' :: b')
    (hnot : '&' ∉ b') (hpf : ¬ p <+: f) (hfp : ¬ f <+: p) (r s : List Char) :
    replace p r (f ++ s) = f ++ replace p r s := by
  apply replace_append_of_not_prefix
  intro x y s hxy hy hstarts
  cases x with
  | nil =>
    rw [List.nil_append] at hxy
    rw [← hxy] at hstarts
    exact (List.prefix_or_prefix_of_prefix hstarts (List.prefix_append f s)).elim hpf hfp
  | cons a x =>
    rw [hf, List.cons_append, List.cons.injEq] at hxy
    have hmem : '&' ∉ y := fun h => hnot (by rw [hxy.2]; exact List.mem_append_right x h)
    rw [hp] at hstarts
    exact not_prefix_of_not_mem hy hmem s hstarts

/-- **A pass over an escaped text.**  Induction along the occurrences in the text itself: there the
escaped text has one too, and elsewhere it has one only where this entity was put in. -/
theorem Escaped.replace (htable : IsTable table) (he : e ∈ table) (h : Escaped table u v) :
    Escaped (table.filter (· ≠ e)) (replace e.1 [e.2] u) (replace e.1 [e.2] v) := by
  obtain ⟨b, hb, hnot⟩ := htable.marked e he
  have hp : e.1 ≠ [] := by simp [hb]
  induction v using occurrences_induct hp generalizing u with
  | nil =>
    cases h
    exact .nil
  | occurrence v ih =>
    obtain ⟨u, rfl, hu⟩ := h.append_literal fun c hc f hf heq =>
      htable.literal f hf e he (heq ▸ hc)
    rw [replace_append hp, replace_append hp]
    exact .keep e.2 (ih hu)
  | cons a v hv ih =>
    rw [replace_cons hv]
    cases h with
    | @keep u _ _ h =>
      have hu : ¬ e.1 <+: a :: u := by
        intro hstarts
        rw [hb, List.cons_prefix_cons] at hstarts
        apply hv
        rw [hb, List.cons_prefix_cons]
        exact ⟨hstarts.1, h.prefix_of_prefix htable hnot hstarts.2⟩
      rw [replace_cons hu]
      exact .keep a (ih h)
    | @entity u _ f hf h =>
      by_cases hfe : f = e
      · subst hfe
        rw [replace_append hp]
        exact .keep f.2 (ih h)
      · obtain ⟨b', hb', hnot'⟩ := htable.marked f hf
        rw [replace_entity hb hb' hnot' (fun h => hfe (htable.apart e he f hf h).symm)
          (fun h => hfe (htable.apart f hf e he h))]
        exact .entity (by simp [hf, hfe]) (ih h)

theorem IsTable.filter (h : IsTable table) (p : List Char × Char → Bool) :
    IsTable (table.filter p) := by
  obtain ⟨hmarked, hapart, hliteral⟩ := h
  have hsub : ∀ e ∈ table.filter p, e ∈ table := fun e he => (List.mem_filter.mp he).1
  exact ⟨fun e he => hmarked e (hsub e he), fun e he f hf => hapart e (hsub e he) f (hsub f hf),
    fun e he f hf => hliteral e (hsub e he) f (hsub f hf)⟩

/-- All the passes. -/
theorem Escaped.decodeAll (hnodup : table.Nodup) (htable : IsTable table) (h : Escaped table u v) :
    decodeAll table u = decodeAll table v := by
  induction table generalizing u v with
  | nil => rw [h.eq]
  | cons e table ih =>
    rw [List.nodup_cons] at hnodup
    have hfilter : (e :: table).filter (· ≠ e) = table := by
      rw [List.filter_cons_of_neg (by simp), List.filter_eq_self]
      intro f hf
      simp only [decide_eq_true_eq]
      rintro rfl
      exact hnodup.1 hf
    have hpass := h.replace htable List.mem_cons_self
    have hrest := htable.filter (· ≠ e)
    rw [hfilter] at hpass hrest
    exact ih hnodup.2 hrest hpass

/-- Passes that change nothing. -/
theorem decodeAll_eq_self_iff (hlength : ∀ e ∈ table, 1 < e.1.length) (t : List Char) :
    decodeAll table t = t ↔ ∀ e ∈ table, ¬ e.1 <:+: t := by
  have hle : ∀ (table : List (List Char × Char)) t, (∀ e ∈ table, 1 < e.1.length) →
      (decodeAll table t).length ≤ t.length := by
    intro table
    induction table with
    | nil => exact fun t _ => Nat.le_refl _
    | cons e table ih =>
      intro t hlength
      rw [List.forall_mem_cons] at hlength
      have hne : e.1 ≠ [] := List.ne_nil_of_length_pos (by omega)
      exact (ih _ hlength.2).trans (@length_replace_le _ _ e.1 [e.2] hlength.1.le hne t)
  induction table with
  | nil => simp [decodeAll]
  | cons e table ih =>
    rw [List.forall_mem_cons] at hlength ⊢
    by_cases hoccurs : e.1 <:+: t
    · refine iff_of_false (fun h => ?_) fun h => h.1 hoccurs
      -- one pass shortens the text, and no other makes it longer
      have hlt := @length_replace_lt _ _ e.1 t [e.2] hlength.1 hoccurs
      have hrest := hle table (replace e.1 [e.2] t) hlength.2
      have heq : (decodeAll table (replace e.1 [e.2] t)).length = t.length := congrArg List.length h
      omega
    · show decodeAll table (replace e.1 [e.2] t) = t ↔ _
      rw [replace_of_not_occurs hoccurs]
      exact ⟨fun h => ⟨hoccurs, (ih hlength.2).mp h⟩, fun h => (ih hlength.2).mpr h.2⟩

end Escaped

section Decode

variable {apostrophe : Apostrophe} {t : List Char}

theorem decodeXmlEntities_eq (input : List Char) :
    decodeXmlEntities input = decodeAll (("&amp;".toList, '&') :: laterEntities) input := by
  unfold decodeXmlEntities
  split
  · rename_i hnot
    symm
    rw [decodeAll_eq_self_iff (by decide)]
    intro e he hoccurs
    have hmark : ∀ e ∈ ("&amp;".toList, '&') :: laterEntities, '&' ∈ e.1 := by decide
    exact hnot (hoccurs.subset (hmark e he))
  · rfl

theorem escapeChar_cases (apostrophe : Apostrophe) (c : Char) :
    (c = '&' ∧ escapeChar apostrophe c = "&amp;".toList) ∨
    (∃ e ∈ laterEntities, e.2 = c ∧ escapeChar apostrophe c = e.1) ∨
    c ≠ '&' ∧ c ≠ '<' ∧ escapeChar apostrophe c = [c] := by
  unfold escapeChar
  split
  · exact .inl ⟨rfl, rfl⟩
  · exact .inr (.inl ⟨("&lt;".toList, '<'), by decide, rfl, rfl⟩)
  · exact .inr (.inl ⟨("&gt;".toList, '>'), by decide, rfl, rfl⟩)
  · exact .inr (.inl ⟨("&quot;".toList, '"'), by decide, rfl, rfl⟩)
  · cases apostrophe with
    | named => exact .inr (.inl ⟨("&apos;".toList, '\''), by decide, rfl, rfl⟩)
    | numeric => exact .inr (.inl ⟨("&#39;".toList, '\''), by decide, rfl, rfl⟩)
  · rename_i hamp hlt _ _ _
    exact .inr (.inr ⟨hamp, hlt, rfl⟩)

/-- The first pass leaves the other entities, and the `&`s of the text. -/
theorem escaped_replace_escape (apostrophe : Apostrophe) (t : List Char) :
    Escaped laterEntities (replace "&amp;".toList ['&'] (escape apostrophe t)) t := by
  induction t with
  | nil => exact .nil
  | cons c t ih =>
    have hcons : escape apostrophe (c :: t) = escapeChar apostrophe c ++ escape apostrophe t := by
      simp [escape]
    rw [hcons]
    rcases escapeChar_cases apostrophe c with ⟨rfl, h⟩ | ⟨e, he, rfl, h⟩ | ⟨hamp, -, h⟩
    · rw [h, replace_append (by decide)]
      exact .keep '&' ih
    · have hapart : ∀ e ∈ laterEntities, ¬ "&amp;".toList <+: e.1 ∧ ¬ e.1 <+: "&amp;".toList := by
        decide
      obtain ⟨b, hb, hnot⟩ := isTable_laterEntities.marked e he
      rw [h, @replace_entity "&amp;".toList e.1 "amp;".toList b rfl hb hnot (hapart e he).1
        (hapart e he).2]
      exact .entity he ih
    · have hnot : ¬ "&amp;".toList <+: c :: escape apostrophe t :=
        @not_prefix_of_not_mem _ '&' "amp;".toList [c] (by simp) (by simpa using Ne.symm hamp) _
      rw [h, List.singleton_append, replace_cons hnot]
      exact .keep c ih

/-- **What decoding makes of an escaped text**: the text with the five other entities decoded. -/
theorem decode_escape (apostrophe : Apostrophe) (t : List Char) :
    decodeXmlEntities (escape apostrophe t) = decodeAll laterEntities t := by
  rw [decodeXmlEntities_eq]
  exact (escaped_replace_escape apostrophe t).decodeAll (by decide) isTable_laterEntities

theorem decode_escape_eq_self_iff :
    decodeXmlEntities (escape apostrophe t) = t ↔ EntityFree t := by
  rw [decode_escape]
  exact decodeAll_eq_self_iff (by decide) t

theorem not_mem_escape : '<' ∉ escape apostrophe t := by
  unfold escape
  rw [List.mem_flatMap]
  rintro ⟨c, -, hc⟩
  rcases escapeChar_cases apostrophe c with ⟨-, h⟩ | ⟨e, he, -, h⟩ | ⟨-, hlt, h⟩
  · rw [h] at hc
    revert hc
    decide
  · rw [h] at hc
    have : ∀ e ∈ laterEntities, '<' ∉ e.1 := by decide
    exact this e he hc
  · rw [h, List.mem_singleton] at hc
    exact hlt hc.symm

end Decode

/-! ## Feeds -/

def titleOpen : List Char := "<title>".toList

def titleClose : List Char := "</title>".toList

/-- A feed around the title of its entry for a tag: the entries in front of that one, each with the
text before it, and what is before the entry, in it around the title, and behind it. -/
structure Feed (tag : String) where
  others : List (List Char × List Char)
  gap : List Char
  head : List Char
  foot : List Char
  rest : List Char
  others_gap : ∀ o ∈ others, ¬ entryOpen <:+: o.1
  others_body : ∀ o ∈ others, ¬ entryClose <:+: o.2 ∧ ¬ hrefMarker tag <:+: o.2
  gap_ok : ¬ entryOpen <:+: gap
  head_ok : ¬ entryClose <:+: head ∧ ¬ titleOpen <:+: head
  foot_ok : ¬ entryClose <:+: foot
  linked : hrefMarker tag <:+: head ∨ hrefMarker tag <:+: foot

/-- An entry of a feed, behind some text and in front of more. -/
def entryText (gap body rest : List Char) : List Char :=
  gap ++ (entryOpen ++ (body ++ (entryClose ++ rest)))

/-- The entry of the tag. -/
def Feed.body {tag : String} (f : Feed tag) (title : List Char) : List Char :=
  f.head ++ (titleOpen ++ (title ++ (titleClose ++ f.foot)))

def Feed.text {tag : String} (f : Feed tag) (title : List Char) : List Char :=
  f.others.foldr (fun o rest => entryText o.1 o.2 rest) (entryText f.gap (f.body title) f.rest)

section Feeds

variable {tag : String} {title body gap : List Char}

/-- A tag that is not the one that is looked for. -/
theorem infix_tag {b w : List Char} (s : List Char) (hw : '<' ∉ w)
    (hbw : ¬ b <+: w) (hwb : ¬ w <+: b) :
    '<' :: b <:+: '<' :: w ++ s ↔ '<' :: b <:+: s := by
  have hne : ¬ '<' :: b <+: '<' :: (w ++ s) := by
    rw [List.cons_prefix_cons]
    rintro ⟨-, h⟩
    exact (List.prefix_or_prefix_of_prefix h (List.prefix_append w s)).elim hbw hwb
  rw [List.cons_append, List.infix_cons_iff, or_iff_right hne, infix_append_of_not_mem hw]

/-- **One round of the loop.** -/
theorem parseEntries_entryText (marker : List Char) (hgap : ¬ entryOpen <:+: gap)
    (hbody : ¬ entryClose <:+: body) (rest : List Char) :
    parseEntries marker (entryText gap body rest) =
      if marker <:+: entryOpen ++ body then some (entryMeta (entryOpen ++ body))
      else parseEntries marker rest := by
  have hopen : cut entryOpen (entryText gap body rest) = some (gap, body ++ (entryClose ++ rest)) :=
    @cut_append _ _ gap '<' "entry>".toList (by decide) hgap _
  have hnot : ¬ entryClose <:+: entryOpen ++ body := by
    have htag := @infix_tag "/entry>".toList "entry>".toList body (by decide) (by decide) (by decide)
    exact fun h => hbody (htag.mp h)
  have hclose : cut entryClose (entryOpen ++ (body ++ (entryClose ++ rest))) =
      some (entryOpen ++ body, rest) := by
    rw [← List.append_assoc]
    exact @cut_append _ _ (entryOpen ++ body) '<' "/entry>".toList (by decide) hnot _
  rw [parseEntries]
  split
  · rename_i h
    rw [hopen] at h
    cases h
  · rename_i h
    rw [hopen] at h
    cases h
    split
    · rename_i h
      rw [hclose] at h
      cases h
    · rename_i h
      rw [hclose] at h
      cases h
      rfl

/-- The title of the entry, and that the entry ends where it does. -/
theorem Feed.entry (f : Feed tag) (htitle : '<' ∉ title) :
    ¬ entryClose <:+: f.body title ∧ hrefMarker tag <:+: entryOpen ++ f.body title ∧
      extractXmlText (entryOpen ++ f.body title) "title".toList = some title := by
  refine ⟨?_, ?_, ?_⟩
  · have hopen := @infix_tag "/entry>".toList "title>".toList (title ++ (titleClose ++ f.foot))
      (by decide) (by decide) (by decide)
    have hclose := @infix_tag "/entry>".toList "/title>".toList f.foot (by decide) (by decide)
      (by decide)
    intro h
    rcases (@infix_append_mark _ _ _ f.head '<' "/entry>".toList (by decide)).mp h with h | h
    · exact f.head_ok.1 h
    · exact f.foot_ok (hclose.mp ((infix_append_of_not_mem htitle).mp (hopen.mp h)))
  · rcases f.linked with h | h
    · exact List.infix_append_of_infix_right (List.infix_append_of_infix_left h)
    · refine List.infix_append_of_infix_right (List.infix_append_of_infix_right ?_)
      refine List.infix_append_of_infix_right (List.infix_append_of_infix_right ?_)
      exact List.infix_append_of_infix_right h
  · have hnot : ¬ titleOpen <:+: entryOpen ++ f.head := by
      have htag := @infix_tag "title>".toList "entry>".toList f.head (by decide) (by decide)
        (by decide)
      exact fun h => f.head_ok.2 (htag.mp h)
    have hopen : cut titleOpen (entryOpen ++ f.body title) =
        some (entryOpen ++ f.head, title ++ (titleClose ++ f.foot)) := by
      rw [Feed.body, ← List.append_assoc]
      exact @cut_append _ _ (entryOpen ++ f.head) '<' "title>".toList (by decide) hnot _
    have hclose : cut titleClose (title ++ (titleClose ++ f.foot)) = some (title, f.foot) := by
      apply @cut_append _ _ title '<' "/title>".toList (by decide)
      exact fun h => htitle (h.subset List.mem_cons_self)
    have htags : '<' :: ("title".toList ++ ['>']) = titleOpen ∧
        '<' :: '/' :: ("title".toList ++ ['>']) = titleClose := by decide
    rw [extractXmlText, htags.1, htags.2, hopen]
    simp only [hclose, Option.map_some]

/-- **The name that is read of a feed**: the title of the entry for the tag, decoded. -/
theorem parse_text (f : Feed tag) (htitle : '<' ∉ title) :
    (parseReleaseAtomMeta (String.ofList (f.text title)) tag).bind Prod.fst =
      some (String.ofList (decodeXmlEntities title)) := by
  have hothers : ∀ (others : List (List Char × List Char)) (rest : List Char),
      (∀ o ∈ others, ¬ entryOpen <:+: o.1) →
      (∀ o ∈ others, ¬ entryClose <:+: o.2 ∧ ¬ hrefMarker tag <:+: o.2) →
      parseEntries (hrefMarker tag)
          (others.foldr (fun o rest => entryText o.1 o.2 rest) rest) =
        parseEntries (hrefMarker tag) rest := by
    intro others rest
    induction others with
    | nil => exact fun _ _ => rfl
    | cons o others ih =>
      intro hgap hbody
      rw [List.forall_mem_cons] at hgap hbody
      -- the marker starts with a slash, and the tag of an entry has none
      have hmarker : ¬ hrefMarker tag <:+: entryOpen ++ o.2 := by
        intro h
        apply hbody.1.2
        exact (@infix_append_of_not_mem _ '/' ("releases/tag/".toList ++ tag.toList ++ ['"'])
          entryOpen o.2 (by decide)).mp h
      rw [List.foldr_cons, parseEntries_entryText _ hgap.1 hbody.1.1, if_neg hmarker]
      exact ih hgap.2 hbody.2
  obtain ⟨hclose, hlinked, hextract⟩ := f.entry htitle
  rw [parseReleaseAtomMeta, String.toList_ofList, Feed.text, hothers _ _ f.others_gap f.others_body,
    parseEntries_entryText _ f.gap_ok hclose, if_pos hlinked, Option.bind_some, entryMeta, hextract]
  rfl

end Feeds

/-- **An escaped text is decoded to the text exactly when none of the five entities is written in
it**, and so is the title of a release read from the feed. -/
theorem decode_escape_iff (apostrophe : Apostrophe) (t : List Char) :
    (decodeXmlEntities (escape apostrophe t) = t ↔ EntityFree t) ∧
      ∀ (tag : String) (f : Feed tag),
        (parseReleaseAtomMeta (String.ofList (f.text (escape apostrophe t))) tag).bind Prod.fst =
          some (String.ofList t) ↔ EntityFree t := by
  refine ⟨decode_escape_eq_self_iff, fun tag f => ?_⟩
  rw [parse_text f not_mem_escape, Option.some.injEq, String.ofList_inj]
  exact decode_escape_eq_self_iff

/-- A feed of one release. -/
def oneRelease : Feed "v1" where
  others := []
  gap := "<feed>".toList
  head := "<link href=\"https://github.com/jackerjay/LinkPilot/releases/tag/v1\"/>".toList
  foot := "<updated>2026-01-01T00:00:00Z</updated>".toList
  rest := "</feed>".toList
  others_gap := fun o ho => by cases ho
  others_body := fun o ho => by cases ho
  gap_ok := by decide
  head_ok := by decide +kernel
  foot_ok := by decide
  linked := .inl ⟨"<link href=\"https://github.com/jackerjay/LinkPilot".toList, "/>".toList, by decide⟩

/-- A title that names the entity of the less-than sign. -/
theorem escaped_entity_is_decoded :
    decodeXmlEntities (escape .named "Escape &lt; in titles".toList) =
        "Escape < in titles".toList ∧
      (parseReleaseAtomMeta
          (String.ofList (oneRelease.text (escape .named "Escape &lt; in titles".toList)))
          "v1").bind Prod.fst ≠ some (String.ofList "Escape &lt; in titles".toList) := by
  have hdecode : decodeXmlEntities (escape .named "Escape &lt; in titles".toList) =
      "Escape < in titles".toList := by decide
  refine ⟨hdecode, ?_⟩
  rw [parse_text oneRelease not_mem_escape, hdecode]
  decide

end LinkPilot.ReleaseFeed
