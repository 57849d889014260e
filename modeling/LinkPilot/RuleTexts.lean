import LinkPilot.Routing
import LinkPilot.Lib.Brackets
import LinkPilot.Lib.Chains

/-!
# The descriptions of rules

Model of `describe_when` of `crates/cli/src/main.rs`, which prints the matcher of a rule for
`lpt rules list`.  `Not` puts its operand in brackets; `All` and `Any` join theirs without, so that
a text only tells the chain of operands, not how it was grouped.

`regroup true` and `regroup false` are the two extreme trees with the text of a tree: the one lets
`AND` bind tighter and the other `OR`, and under each `NOT` they change places.

Principal results:

* `describeWhen_regroup` — both have the text of the tree.
* `below_matched_regroup` — the tree lies between them, on every context.
* `operands_eq_of_describe` — trees with one text have the same operands.
* `unambiguous_iff` — the trees with the text of a tree match what it does exactly when the two
  readings of the text agree on every context.
* `reading_unmixed` — so they do for a text that does not mix connectives.
* `brackets_are_missing` — two rules that are listed alike.
-/

set_option autoImplicit false

namespace LinkPilot.RuleTexts

/-! ## `describe_when` -/

/-- The separators of `All` and `Any`. -/
def sep (op : Bool) : List Char := if op then " AND ".toList else " OR ".toList

mutual

/-- `describe_when`. -/
def describeWhen : MatcherTree → List Char
  | .always => "always".toList
  | .urlHost pattern => "host ".toList ++ pattern.toList
  | .urlPath pattern => "path ".toList ++ pattern.toList
  | .sourceApp name _ => "from app ".toList ++ name.toList
  | .sourceBrowser browser => "from browser ".toList ++ browser.toList
  | .sourceProfile profile => "from profile ".toList ++ profile.toList
  | .all of => (sep true).intercalate (describeAll of)
  | .any of => (sep false).intercalate (describeAll of)
  | .not of => "NOT (".toList ++ (describeWhen of ++ [')'])

/-- `of.iter().map(describe_when)`. -/
def describeAll : List MatcherTree → List (List Char)
  | [] => []
  | t :: ts => describeWhen t :: describeAll ts

end

/-! ## Trees -/

/-- A leaf string that is not empty and has no spaces or parentheses. -/
def word (s : String) : Bool :=
  !s.toList.isEmpty && s.toList.all fun c => c != ' ' && c != '(' && c != ')'

mutual

/-- The leaf strings of the tree are words, its lists are not empty, and no application is matched by
its bundle id. -/
def describable : MatcherTree → Bool
  | .always => true
  | .urlHost pattern => word pattern
  | .urlPath pattern => word pattern
  | .sourceApp name bundleId => word name && bundleId.isNone
  | .sourceBrowser browser => word browser
  | .sourceProfile profile => word profile
  | .all of => !of.isEmpty && describableAll of
  | .any of => !of.isEmpty && describableAll of
  | .not of => describable of

def describableAll : List MatcherTree → Bool
  | [] => true
  | t :: ts => describable t && describableAll ts

end

/-- `All` or `Any`. -/
def node (op : Bool) (of : List MatcherTree) : MatcherTree := if op then .all of else .any of

/-- A chain of operands, grouped so that `inner` binds tighter. -/
def assemble (inner : Bool) (x : Chain MatcherTree) : MatcherTree :=
  node (!inner) ((x.runs inner).map (node inner))

mutual

/-- The operands that the text of a tree is a chain of; what is in the brackets of a `NOT` is
regrouped the other way. -/
def operands (inner : Bool) : MatcherTree → Chain MatcherTree
  | .all of => Chain.glueAll true (.single (.all [])) (operandsAll inner of)
  | .any of => Chain.glueAll false (.single (.any [])) (operandsAll inner of)
  | .not of => .single (.not (assemble (!inner) (operands (!inner) of)))
  | t => .single t

def operandsAll (inner : Bool) : List MatcherTree → List (Chain MatcherTree)
  | [] => []
  | t :: ts => operands inner t :: operandsAll inner ts

end

/-- A tree without trees in it. -/
def isLeaf : MatcherTree → Bool
  | .all _ | .any _ | .not _ => false
  | _ => true

/-- The tree with the text of `t` in which `AND` (or `OR`) binds tighter, under an even number of
`NOT`s. -/
def regroup (inner : Bool) (t : MatcherTree) : MatcherTree := assemble inner (operands inner t)

section Trees

variable {inner op : Bool} {t : MatcherTree} {of : List MatcherTree}

theorem describeAll_eq (of : List MatcherTree) : describeAll of = of.map describeWhen := by
  induction of with
  | nil => rfl
  | cons t ts ih => rw [describeAll, ih, List.map_cons]

theorem describableAll_iff : describableAll of = true ↔ ∀ t ∈ of, describable t = true := by
  induction of with
  | nil => simp [describableAll]
  | cons t ts ih => rw [describableAll, Bool.and_eq_true, ih, List.forall_mem_cons]

theorem operandsAll_eq (inner : Bool) (of : List MatcherTree) :
    operandsAll inner of = of.map (operands inner) := by
  induction of with
  | nil => rfl
  | cons t ts ih => rw [operandsAll, ih, List.map_cons]

@[simp] theorem describeWhen_node (op : Bool) (of : List MatcherTree) :
    describeWhen (node op of) = (sep op).intercalate (of.map describeWhen) := by
  rw [← describeAll_eq]
  cases op
  · rfl
  · rfl

theorem describable_node : describable (node op of) = true ↔
    of ≠ [] ∧ ∀ t ∈ of, describable t = true := by
  rw [← describableAll_iff]
  cases op <;> simp [node, describable]

theorem operands_node (inner op : Bool) (of : List MatcherTree) : ∃ default,
    operands inner (node op of) = Chain.glueAll op default (of.map (operands inner)) := by
  rw [← operandsAll_eq]
  cases op
  · exact ⟨_, rfl⟩
  · exact ⟨_, rfl⟩

/-- **Induction over a tree**, with one case for both lists. -/
theorem tree_induct {motive : MatcherTree → Prop}
    (leaf : ∀ t, isLeaf t = true → motive t)
    (node : ∀ op of, (∀ t ∈ of, motive t) → motive (node op of))
    (not : ∀ of, motive of → motive (.not of)) (t : MatcherTree) : motive t := by
  refine @MatcherTree.rec motive (fun of => ∀ t ∈ of, motive t) ?_ (fun of ih => node true of ih)
    (fun of ih => node false of ih) (fun of ih => not of ih) ?_ ?_ ?_ ?_ ?_ ?_ ?_ t
  · exact leaf .always rfl
  · exact fun pattern => leaf (.urlHost pattern) rfl
  · exact fun pattern => leaf (.urlPath pattern) rfl
  · exact fun name bundleId => leaf (.sourceApp name bundleId) rfl
  · exact fun browser => leaf (.sourceBrowser browser) rfl
  · exact fun profile => leaf (.sourceProfile profile) rfl
  · intro t ht
    cases ht
  · exact fun t ts iht ihts => List.forall_mem_cons.mpr ⟨iht, ihts⟩

theorem operands_leaf (h : isLeaf t = true) (inner : Bool) : operands inner t = .single t := by
  cases t <;> first | rfl | cases h

/-! ### Regrouped trees -/

theorem describeWhen_assemble (inner : Bool) (x : Chain MatcherTree) :
    describeWhen (assemble inner x) = (x.map describeWhen).text sep := by
  rw [assemble, describeWhen_node, List.map_map, ← Chain.text_runs sep inner, Chain.runs_map,
    List.map_map]
  congr 1
  exact List.map_congr_left fun run _ => describeWhen_node inner run

/-- The text of a tree is that of its operands. -/
theorem text_operands (inner : Bool) (ht : describable t = true) :
    ((operands inner t).map describeWhen).text sep = describeWhen t := by
  induction t using tree_induct generalizing inner with
  | leaf t hleaf =>
    rw [operands_leaf hleaf]
    exact List.append_nil _
  | node op of ih =>
    obtain ⟨hne, hall⟩ := describable_node.mp ht
    obtain ⟨d, hoperands⟩ := operands_node inner op of
    rw [hoperands, Chain.map_glueAll, Chain.text_glueAll sep op _ (by simpa using hne),
      describeWhen_node, List.map_map, List.map_map]
    congr 1
    exact List.map_congr_left fun t ht => ih t ht inner (hall t ht)
  | not of ih =>
    have htext := ih (!inner) ht
    rw [← describeWhen_assemble] at htext
    show "NOT (".toList ++ (describeWhen (assemble (!inner) (operands (!inner) of)) ++ [')']) ++ [] =
      describeWhen (.not of)
    rw [htext, List.append_nil]
    rfl

/-- **The extreme trees have the text of the tree.** -/
theorem describeWhen_regroup (inner : Bool) (ht : describable t = true) :
    describeWhen (regroup inner t) = describeWhen t := by
  rw [regroup, describeWhen_assemble, text_operands inner ht]

theorem describable_assemble {x : Chain MatcherTree}
    (h : ∀ l ∈ x.operands, describable l = true) : describable (assemble inner x) = true := by
  obtain ⟨hne, hruns⟩ := x.runs_ne_nil inner
  refine describable_node.mpr ⟨by simpa using hne, ?_⟩
  rw [List.forall_mem_map]
  intro run hrun
  exact describable_node.mpr ⟨hruns run hrun, fun l hl => h l (Chain.mem_operands_of_mem_runs hrun hl)⟩

/-- An operand is a leaf, or a `NOT` of a tree regrouped the other way. -/
theorem operand_cases (ht : describable t = true) {l : MatcherTree}
    (hl : l ∈ (operands inner t).operands) : describable l = true ∧
      (isLeaf l = true ∨ ∃ d, describable d = true ∧ l = .not (regroup (!inner) d)) := by
  induction t using tree_induct generalizing inner l with
  | leaf t hleaf =>
    rw [operands_leaf hleaf] at hl
    obtain rfl : l = t := List.mem_singleton.mp hl
    exact ⟨ht, .inl hleaf⟩
  | node op of ih =>
    obtain ⟨hne, hall⟩ := describable_node.mp ht
    obtain ⟨d, hoperands⟩ := operands_node inner op of
    rw [hoperands] at hl
    obtain ⟨x, hx, hl⟩ := Chain.mem_operands_glueAll (by simpa using hne) hl
    obtain ⟨t, ht, rfl⟩ := List.mem_map.mp hx
    exact ih t ht (hall t ht) hl
  | not of ih =>
    obtain rfl : l = .not (regroup (!inner) of) := List.mem_singleton.mp hl
    refine ⟨describable_assemble fun l hl => ?_, .inr ⟨of, ht, rfl⟩⟩
    exact (ih ht hl).1

theorem describable_regroup (inner : Bool) (ht : describable t = true) :
    describable (regroup inner t) = true :=
  describable_assemble fun _ hl => (operand_cases ht hl).1

end Trees

/-! ## Reading a text -/

/-- What the text of an operand starts with, and the rest. -/
def keyword : MatcherTree → List Char
  | .always => "always".toList
  | .urlHost _ => "host ".toList
  | .urlPath _ => "path ".toList
  | .sourceApp _ _ => "from app ".toList
  | .sourceBrowser _ => "from browser ".toList
  | .sourceProfile _ => "from profile ".toList
  | .not _ => "NOT (".toList
  | .all _ | .any _ => []

def content : MatcherTree → List Char
  | .urlHost s | .urlPath s | .sourceApp s _ | .sourceBrowser s | .sourceProfile s => s.toList
  | .not of => describeWhen of ++ [')']
  | _ => []

def leafKeywords : List (List Char) :=
  ["always".toList, "host ".toList, "path ".toList, "from app ".toList, "from browser ".toList,
    "from profile ".toList]

def notKeyword : List Char := "NOT (".toList

theorem describeWhen_not (of : MatcherTree) :
    describeWhen (.not of) = notKeyword ++ (describeWhen of ++ [')']) := rfl

/-- An operand of a text. -/
def IsOperand (l : MatcherTree) : Prop := isLeaf l = true ∨ ∃ of, l = .not of

section Texts

open Brackets

variable {l l' t t' : MatcherTree}

theorem describeWhen_leaf (h : isLeaf l = true) :
    describeWhen l = keyword l ++ content l ∧ keyword l ∈ leafKeywords := by
  cases l with
  | always => exact ⟨(List.append_nil _).symm, List.mem_of_getElem? (i := 0) rfl⟩
  | all of => cases h
  | any of => cases h
  | not of => cases h
  | urlHost s => exact ⟨rfl, List.mem_of_getElem? (i := 1) rfl⟩
  | urlPath s => exact ⟨rfl, List.mem_of_getElem? (i := 2) rfl⟩
  | sourceApp s b => exact ⟨rfl, List.mem_of_getElem? (i := 3) rfl⟩
  | sourceBrowser s => exact ⟨rfl, List.mem_of_getElem? (i := 4) rfl⟩
  | sourceProfile s => exact ⟨rfl, List.mem_of_getElem? (i := 5) rfl⟩

theorem describeWhen_operand (h : IsOperand l) :
    describeWhen l = keyword l ++ content l ∧ keyword l ∈ leafKeywords ++ [notKeyword] := by
  rcases h with h | ⟨of, rfl⟩
  · exact ⟨(describeWhen_leaf h).1, List.mem_append_left _ (describeWhen_leaf h).2⟩
  · exact ⟨rfl, List.mem_append_right _ List.mem_cons_self⟩

theorem word_iff {s : String} : word s = true ↔
    s.toList ≠ [] ∧ ' ' ∉ s.toList ∧ '(' ∉ s.toList ∧ ')' ∉ s.toList := by
  unfold word
  simp only [Bool.and_eq_true, Bool.not_eq_true', List.isEmpty_eq_false_iff, List.all_eq_true,
    bne_iff_ne, ne_eq]
  refine and_congr_right fun _ => ⟨fun h => ⟨fun hc => ?_, fun hc => ?_, fun hc => ?_⟩, ?_⟩
  · exact (h _ hc).1.1 rfl
  · exact (h _ hc).1.2 rfl
  · exact (h _ hc).2 rfl
  · rintro ⟨h1, h2, h3⟩ c hc
    refine ⟨⟨?_, ?_⟩, ?_⟩
    · rintro rfl
      exact h1 hc
    · rintro rfl
      exact h2 hc
    · rintro rfl
      exact h3 hc

/-- What is behind the keyword of a leaf. -/
theorem content_leaf (h : isLeaf l = true) (hl : describable l = true) :
    ' ' ∉ content l ∧ '(' ∉ content l ∧ ')' ∉ content l := by
  cases l with
  | always => exact ⟨List.not_mem_nil, List.not_mem_nil, List.not_mem_nil⟩
  | all of => cases h
  | any of => cases h
  | not of => cases h
  | urlHost s => exact (word_iff.mp hl).2
  | urlPath s => exact (word_iff.mp hl).2
  | sourceApp s b => exact (word_iff.mp (Bool.and_eq_true_iff.mp hl).1).2
  | sourceBrowser s => exact (word_iff.mp hl).2
  | sourceProfile s => exact (word_iff.mp hl).2

/-- Every bracket of a description is closed. -/
theorem balanced_describeWhen (ht : describable t = true) : Balanced '(' ')' (describeWhen t) := by
  induction t using tree_induct with
  | leaf t hleaf =>
    obtain ⟨htext, hkeyword⟩ := describeWhen_leaf hleaf
    obtain ⟨-, hopen, hclose⟩ := content_leaf hleaf ht
    have hplain : ∀ k ∈ leafKeywords, '(' ∉ k ∧ ')' ∉ k := by decide
    rw [htext]
    exact (balanced_of_not_mem (hplain _ hkeyword).1 (hplain _ hkeyword).2).append
      (balanced_of_not_mem hopen hclose)
  | node op of ih =>
    obtain ⟨-, hall⟩ := describable_node.mp ht
    rw [describeWhen_node]
    apply Balanced.intercalate
    · cases op <;> exact balanced_of_not_mem (by decide) (by decide)
    · rw [List.forall_mem_map]
      exact fun t ht => ih t ht (hall t ht)
  | not of ih =>
    have hbracket := (ih ht).bracket (by decide : '(' ≠ ')')
    have hnot : Balanced '(' ')' "NOT ".toList := balanced_of_not_mem (by decide) (by decide)
    exact hnot.append hbracket

/-- **An operand is told by what a text starts with**, up to what may follow it. -/
theorem operand_text_inj (hl : IsOperand l) (hl' : IsOperand l') (hdesc : describable l = true)
    (hdesc' : describable l' = true) {s s' : List Char} (hs : Chain.Follows sep s)
    (hs' : Chain.Follows sep s') (h : describeWhen l ++ s = describeWhen l' ++ s') :
    keyword l = keyword l' ∧ content l = content l' := by
  obtain ⟨htext, hkeyword⟩ := describeWhen_operand hl
  obtain ⟨htext', hkeyword'⟩ := describeWhen_operand hl'
  rw [htext, htext', List.append_assoc, List.append_assoc] at h
  have hapart : ∀ k ∈ leafKeywords ++ [notKeyword], ∀ k' ∈ leafKeywords ++ [notKeyword],
      k <+: k' → k = k' := by decide
  have hnot : notKeyword ∉ leafKeywords := by decide
  have hkeys : keyword l = keyword l' := by
    rcases List.prefix_or_prefix_of_prefix (List.prefix_append _ _)
      (h ▸ List.prefix_append (keyword l') _) with hstarts | hstarts
    · exact hapart _ hkeyword _ hkeyword' hstarts
    · exact (hapart _ hkeyword' _ hkeyword hstarts).symm
  refine ⟨hkeys, ?_⟩
  rw [hkeys] at h
  have hcontent := List.append_cancel_left h
  have hspace : ∀ {s}, Chain.Follows sep s → ∀ c, s.head? = some c → (c != ' ') = false := by
    rintro s (rfl | ⟨op, t, rfl⟩) c hc
    · cases hc
    · cases op <;> (cases hc; rfl)
  have hword : ∀ {w s : List Char}, ' ' ∉ w → Chain.Follows sep s →
      (w ++ s).takeWhile (· != ' ') = w := by
    intro w s hw hs
    rw [List.takeWhile_append_of_pos fun c hc => by
      rw [bne_iff_ne]
      rintro rfl
      exact hw hc]
    cases s with
    | nil => simp
    | cons c s => simp [hspace hs c rfl]
  rcases hl with hleaf | ⟨of, rfl⟩
  · rcases hl' with hleaf' | ⟨of', rfl⟩
    · -- both are words
      rw [← hword (content_leaf hleaf hdesc).1 hs, hcontent,
        hword (content_leaf hleaf' hdesc').1 hs']
    · have hmem := (describeWhen_leaf hleaf).2
      rw [hkeys] at hmem
      exact absurd hmem hnot
  · rcases hl' with hleaf' | ⟨of', rfl⟩
    · have hmem := (describeWhen_leaf hleaf').2
      rw [← hkeys] at hmem
      exact absurd hmem hnot
    · -- both end where their bracket is closed
      have hclose : describeWhen of ++ ')' :: s = describeWhen of' ++ ')' :: s' := by
        simpa [content] using hcontent
      have hbalanced : Balanced '(' ')' (describeWhen of) := balanced_describeWhen hdesc
      have hbalanced' : Balanced '(' ')' (describeWhen of') := balanced_describeWhen hdesc'
      have hof := hbalanced.eq_of_close (by decide) hbalanced' hclose
      rw [content, content, hof]

/-- The leaf of a keyword. -/
def leafOf (key rest : List Char) : MatcherTree :=
  if key = "host ".toList then .urlHost (String.ofList rest)
  else if key = "path ".toList then .urlPath (String.ofList rest)
  else if key = "from app ".toList then .sourceApp (String.ofList rest) none
  else if key = "from browser ".toList then .sourceBrowser (String.ofList rest)
  else if key = "from profile ".toList then .sourceProfile (String.ofList rest)
  else .always

theorem leafOf_eq (hleaf : isLeaf l = true) (hdesc : describable l = true) :
    leafOf (keyword l) (content l) = l := by
  cases l with
  | always => rfl
  | all of => cases hleaf
  | any of => cases hleaf
  | not of => cases hleaf
  | urlHost s => exact congrArg MatcherTree.urlHost String.ofList_toList
  | urlPath s => exact congrArg MatcherTree.urlPath String.ofList_toList
  | sourceApp s b =>
    obtain rfl := Option.isNone_iff_eq_none.mp (Bool.and_eq_true_iff.mp hdesc).2
    exact congrArg (MatcherTree.sourceApp · none) String.ofList_toList
  | sourceBrowser s => exact congrArg MatcherTree.sourceBrowser String.ofList_toList
  | sourceProfile s => exact congrArg MatcherTree.sourceProfile String.ofList_toList

theorem isOperand_of_cases {inner : Bool} (h : isLeaf l = true ∨ ∃ d, describable d = true ∧
    l = .not (regroup inner d)) : IsOperand l := by
  rcases h with h | ⟨d, -, h⟩
  · exact .inl h
  · exact .inr ⟨_, h⟩

/-- **A text tells the operands.** The induction is on the length of the text: what is in the brackets
of a `NOT` has a shorter one. -/
theorem operands_eq_of_describe (inner : Bool) (ht : describable t = true)
    (ht' : describable t' = true) (h : describeWhen t = describeWhen t') :
    operands inner t = operands inner t' := by
  obtain ⟨n, hn⟩ : ∃ n, (describeWhen t).length = n := ⟨_, rfl⟩
  induction n using Nat.strong_induction_on generalizing inner t t' with
  | _ n ih =>
    have hempty : ∀ op, sep op ≠ [] := by decide
    have hsep : ∀ op op' s s', sep op ++ s = sep op' ++ s' → op = op' := by
      intro op op' s s' h
      cases op <;> cases op' <;> first | rfl | cases h
    have htext := (text_operands inner ht).trans (h.trans (text_operands inner ht').symm)
    have hmap : (operands inner t).map describeWhen = (operands inner t').map describeWhen := by
      refine Chain.text_inj hempty hsep (fun a ha b hb s s' hs hs' heq => ?_) htext
      rw [Chain.operands_map] at ha hb
      obtain ⟨l, hl, rfl⟩ := List.mem_map.mp ha
      obtain ⟨l', hl', rfl⟩ := List.mem_map.mp hb
      obtain ⟨hdesc, hcases⟩ := operand_cases ht hl
      obtain ⟨hdesc', hcases'⟩ := operand_cases ht' hl'
      have hop := isOperand_of_cases hcases
      have hop' := isOperand_of_cases hcases'
      obtain ⟨hkeys, hcontent⟩ := operand_text_inj hop hop' hdesc hdesc' hs hs' heq
      rw [(describeWhen_operand hop).1, (describeWhen_operand hop').1, hkeys, hcontent]
    refine Chain.map_inj (fun l hl l' hl' heq => ?_) hmap
    obtain ⟨hdesc, hcases⟩ := operand_cases ht hl
    obtain ⟨hdesc', hcases'⟩ := operand_cases ht' hl'
    have hnil : describeWhen l ++ [] = describeWhen l' ++ [] := by rw [heq]
    obtain ⟨hkeys, hcontent⟩ := operand_text_inj (isOperand_of_cases hcases)
      (isOperand_of_cases hcases') hdesc hdesc' (.inl rfl) (.inl rfl) hnil
    have hnot : notKeyword ∉ leafKeywords := by decide
    rcases hcases with hleaf | ⟨d, hd, rfl⟩
    · rcases hcases' with hleaf' | ⟨d', hd', rfl⟩
      · rw [← leafOf_eq hleaf hdesc, ← leafOf_eq hleaf' hdesc', hkeys, hcontent]
      · have hmem := (describeWhen_leaf hleaf).2
        rw [hkeys] at hmem
        exact absurd hmem hnot
    · rcases hcases' with hleaf' | ⟨d', hd', rfl⟩
      · have hmem := (describeWhen_leaf hleaf').2
        rw [← hkeys] at hmem
        exact absurd hmem hnot
      · have hof : describeWhen d = describeWhen d' := by
          have hclosed : describeWhen (regroup (!inner) d) ++ [')'] =
              describeWhen (regroup (!inner) d') ++ [')'] := hcontent
          rw [← describeWhen_regroup (!inner) hd, ← describeWhen_regroup (!inner) hd']
          exact List.append_cancel_right hclosed
        have hshorter : (describeWhen d).length < n := by
          have hlong : describeWhen (.not (regroup (!inner) d)) ∈
              ((operands inner t).map describeWhen).operands := by
            rw [Chain.operands_map]
            exact List.mem_map_of_mem hl
          have hle := Chain.length_le_text sep hlong
          rw [text_operands inner ht, describeWhen_not, describeWhen_regroup (!inner) hd,
            List.length_append, List.length_append, List.length_singleton] at hle
          omega
        rw [regroup, regroup, ih _ hshorter (!inner) hd hd' hof rfl]

end Texts

/-! ## Matching -/

section Matching

variable {urlParse : String → Option Url} {ctx : RoutingContext} {inner op : Bool} {t : MatcherTree}

/-- The tree matches the context. -/
def matched (urlParse : String → Option Url) (ctx : RoutingContext) (t : MatcherTree) : Bool :=
  (evalTree urlParse ctx t).matched

theorem evalTrees_eq (of : List MatcherTree) :
    evalTrees urlParse ctx of = of.map (evalTree urlParse ctx) := by
  induction of with
  | nil => rfl
  | cons t ts ih => rw [evalTrees, ih, List.map_cons]

theorem matched_node {of : List MatcherTree} (hne : of ≠ []) :
    matched urlParse ctx (node op of) = Chain.fold op (of.map (matched urlParse ctx)) := by
  cases op with
  | false =>
    show (evalTrees urlParse ctx of).any MatcherEval.matched = _
    rw [evalTrees_eq, List.any_map]
    simp only [Chain.fold, Bool.false_eq_true, ↓reduceIte, List.any_map]
    rfl
  | true =>
    show (!(evalTrees urlParse ctx of).isEmpty && (evalTrees urlParse ctx of).all MatcherEval.matched) =
      _
    rw [evalTrees_eq, List.all_map, List.isEmpty_map, List.isEmpty_eq_false_iff.mpr hne]
    simp only [Chain.fold, ↓reduceIte, List.all_map, Bool.not_false, Bool.true_and]
    rfl

theorem matched_assemble (inner : Bool) (x : Chain MatcherTree) :
    matched urlParse ctx (assemble inner x) = Chain.value inner (x.map (matched urlParse ctx)) := by
  obtain ⟨hne, hruns⟩ := x.runs_ne_nil inner
  rw [assemble, matched_node (by simpa using hne), List.map_map, Chain.value, Chain.runs_map,
    List.map_map]
  congr 1
  exact List.map_congr_left fun run hrun => matched_node (hruns run hrun)

theorem below_fold {α : Type} {f g : α → Bool} {of : List α}
    (h : ∀ a ∈ of, Chain.Below inner (f a) (g a)) :
    Chain.Below inner (Chain.fold op (of.map f)) (Chain.fold op (of.map g)) := by
  induction of with
  | nil => exact Chain.Below.refl inner _
  | cons a of ih =>
    rw [List.forall_mem_cons] at h
    rw [List.map_cons, List.map_cons, Chain.fold_cons, Chain.fold_cons]
    exact h.1.join (ih h.2)

/-- **A tree lies between its extreme trees**, on every context. -/
theorem below_matched_regroup (inner : Bool) (ht : describable t = true) :
    Chain.Below inner (matched urlParse ctx t) (matched urlParse ctx (regroup inner t)) := by
  rw [regroup, matched_assemble]
  induction t using tree_induct generalizing inner with
  | leaf t hleaf =>
    rw [operands_leaf hleaf]
    have hvalue : Chain.value inner ((Chain.single t).map (matched urlParse ctx)) =
        matched urlParse ctx t := by
      simp [Chain.value, Chain.single, Chain.map, Chain.runs, Chain.runsFrom]
    rw [hvalue]
    exact Chain.Below.refl inner _
  | node op of ih =>
    obtain ⟨hne, hall⟩ := describable_node.mp ht
    obtain ⟨d, hoperands⟩ := operands_node inner op of
    have hfold := @below_fold inner op _ (matched urlParse ctx)
      (fun t => Chain.value inner ((operands inner t).map (matched urlParse ctx))) of
      fun t ht => ih t ht inner (hall t ht)
    have hglue := @Chain.below_value_glueAll inner op (d.map (matched urlParse ctx))
      (of.map fun t => (operands inner t).map (matched urlParse ctx)) (by simpa using hne)
    rw [List.map_map] at hglue
    rw [hoperands, Chain.map_glueAll, List.map_map, matched_node hne]
    exact hfold.trans hglue
  | not of ih =>
    have hvalue : Chain.value inner ((operands inner (.not of)).map (matched urlParse ctx)) =
        !matched urlParse ctx (regroup (!inner) of) := by
      simp [Chain.value, operands, Chain.single, Chain.map, Chain.runs, Chain.runsFrom, matched,
        evalTree, regroup, MatcherEval.matched]
    rw [hvalue, regroup, matched_assemble]
    exact Chain.Below.not (ih (!inner) ht)

end Matching

/-! ## Readings of a text -/

/-- What the matchers of the leaves say. -/
def leafMatches (urlParse : String → Option Url) (ctx : RoutingContext) : MatcherTree → Bool
  | .always => true
  | .urlHost pattern => matchHost urlParse pattern ctx.url
  | .urlPath pattern => matchPath urlParse pattern ctx.url
  | .sourceApp name bundleId => matchSourceApp name bundleId ctx.source
  | .sourceBrowser browser =>
    (ctx.source.browser.map fun b => eqIgnoreAsciiCase b browser).getD false
  | .sourceProfile profile => (ctx.source.profile.map fun p => p == profile).getD false
  | .all _ | .any _ | .not _ => false

mutual

/-- The values of the operands of a text, if `inner` binds tighter. -/
def readOperands (inner : Bool) (leaf : MatcherTree → Bool) : MatcherTree → Chain Bool
  | .all of => Chain.glueAll true (.single true) (readAll inner leaf of)
  | .any of => Chain.glueAll false (.single false) (readAll inner leaf of)
  | .not of => .single (!Chain.value (!inner) (readOperands (!inner) leaf of))
  | t => .single (leaf t)

def readAll (inner : Bool) (leaf : MatcherTree → Bool) : List MatcherTree → List (Chain Bool)
  | [] => []
  | t :: ts => readOperands inner leaf t :: readAll inner leaf ts

end

/-- What the text of a tree says of leaves, if `AND` binds tighter than `OR` (or the other way), and
the other way in the brackets of a `NOT`. -/
def reading (inner : Bool) (leaf : MatcherTree → Bool) (t : MatcherTree) : Bool :=
  Chain.value inner (readOperands inner leaf t)

mutual

/-- Outside of the brackets of `NOT`s, and in each of these, a text has no two connectives. -/
def unmixed (op : Bool) : MatcherTree → Bool
  | .all of => (op || of.length ≤ 1) && unmixedAll op of
  | .any of => (!op || of.length ≤ 1) && unmixedAll op of
  | .not of => unmixed true of || unmixed false of
  | _ => true

def unmixedAll (op : Bool) : List MatcherTree → Bool
  | [] => true
  | t :: ts => unmixed op t && unmixedAll op ts

end

section Readings

variable {urlParse : String → Option Url} {ctx : RoutingContext} {inner op : Bool} {t : MatcherTree}
  {leaf : MatcherTree → Bool}

theorem readAll_eq (inner : Bool) (leaf : MatcherTree → Bool) (of : List MatcherTree) :
    readAll inner leaf of = of.map (readOperands inner leaf) := by
  induction of with
  | nil => rfl
  | cons t ts ih => rw [readAll, ih, List.map_cons]

theorem readOperands_node (inner op : Bool) (leaf : MatcherTree → Bool) (of : List MatcherTree) :
    ∃ default, readOperands inner leaf (node op of) =
      Chain.glueAll op default (of.map (readOperands inner leaf)) := by
  rw [← readAll_eq]
  cases op
  · exact ⟨_, rfl⟩
  · exact ⟨_, rfl⟩

theorem readOperands_leaf (h : isLeaf t = true) (inner : Bool) (leaf : MatcherTree → Bool) :
    readOperands inner leaf t = .single (leaf t) := by
  cases t <;> first | rfl | cases h

theorem leafMatches_eq (h : isLeaf t = true) :
    leafMatches urlParse ctx t = matched urlParse ctx t := by
  cases t <;> first | rfl | cases h

theorem matched_not (of : MatcherTree) :
    matched urlParse ctx (.not of) = !matched urlParse ctx of := rfl

theorem readOperands_eq (inner : Bool) (ht : describable t = true) :
    readOperands inner (leafMatches urlParse ctx) t =
      (operands inner t).map (matched urlParse ctx) := by
  induction t using tree_induct generalizing inner with
  | leaf t hleaf =>
    rw [operands_leaf hleaf, readOperands_leaf hleaf, leafMatches_eq hleaf]
    rfl
  | node op of ih =>
    obtain ⟨hne, hall⟩ := describable_node.mp ht
    obtain ⟨d, hoperands⟩ := operands_node inner op of
    obtain ⟨d', hread⟩ := readOperands_node inner op (leafMatches urlParse ctx) of
    rw [hoperands, hread, Chain.map_glueAll, List.map_map,
      Chain.glueAll_default (by simpa using hne) d' (d.map (matched urlParse ctx))]
    congr 1
    exact List.map_congr_left fun t ht => ih t ht inner (hall t ht)
  | not of ih =>
    have hof := ih (!inner) ht
    show Chain.single (!Chain.value (!inner) (readOperands (!inner) (leafMatches urlParse ctx) of)) =
      Chain.single (matched urlParse ctx (.not (assemble (!inner) (operands (!inner) of))))
    rw [hof, matched_not, matched_assemble]

/-- A reading is what the tree regrouped so matches. -/
theorem reading_eq (inner : Bool) (ht : describable t = true) :
    reading inner (leafMatches urlParse ctx) t = matched urlParse ctx (regroup inner t) := by
  rw [reading, readOperands_eq inner ht, regroup, matched_assemble]

theorem unmixedAll_iff {of : List MatcherTree} :
    unmixedAll op of = true ↔ ∀ t ∈ of, unmixed op t = true := by
  induction of with
  | nil => simp [unmixedAll]
  | cons t ts ih => rw [unmixedAll, Bool.and_eq_true, ih, List.forall_mem_cons]

theorem unmixed_node {op' : Bool} {of : List MatcherTree} : unmixed op (node op' of) = true ↔
    (op' = op ∨ of.length ≤ 1) ∧ ∀ t ∈ of, unmixed op t = true := by
  rw [← unmixedAll_iff]
  cases op <;> cases op' <;> simp [node, unmixed]

/-- **A text that does not mix connectives** has one reading, with one connective. -/
theorem readOperands_unmixed (ht : describable t = true) (h : unmixed op t = true) :
    readOperands true leaf t = readOperands false leaf t ∧
      (readOperands true leaf t).Uniform op := by
  induction t using tree_induct generalizing op with
  | leaf t hleaf =>
    rw [readOperands_leaf hleaf, readOperands_leaf hleaf]
    exact ⟨rfl, List.forall_mem_nil _⟩
  | node op' of ih =>
    obtain ⟨hne, hall⟩ := describable_node.mp ht
    obtain ⟨hop, hunmixed⟩ := unmixed_node.mp h
    obtain ⟨d, hread⟩ := readOperands_node true op' leaf of
    obtain ⟨d', hread'⟩ := readOperands_node false op' leaf of
    have hsame : of.map (readOperands true leaf) = of.map (readOperands false leaf) :=
      List.map_congr_left fun t ht => (ih t ht (hall t ht) (hunmixed t ht)).1
    have huniform : ∀ x ∈ of.map (readOperands true leaf), x.Uniform op := by
      rw [List.forall_mem_map]
      exact fun t ht => (ih t ht (hall t ht) (hunmixed t ht)).2
    have hne' : of.map (readOperands true leaf) ≠ [] := by simpa using hne
    constructor
    · rw [hread, hread', ← hsame]
      exact Chain.glueAll_default hne' d d'
    · rw [hread]
      rcases hop with rfl | hone
      · exact Chain.Uniform.glueAll hne' huniform
      · -- a list of one adds no connective
        obtain ⟨t, rfl⟩ := List.length_eq_one_iff.mp
          (le_antisymm hone (List.length_pos_iff.mpr hne))
        exact huniform _ List.mem_cons_self
  | not of ih =>
    rw [unmixed, Bool.or_eq_true] at h
    refine ⟨?_, List.forall_mem_nil _⟩
    have hof : Chain.value false (readOperands false leaf of) =
        Chain.value true (readOperands true leaf of) := by
      rcases h with h | h
      · obtain ⟨hsame, huniform⟩ := ih ht h
        rw [← hsame, huniform.value_eq, huniform.value_eq]
      · obtain ⟨hsame, huniform⟩ := ih ht h
        rw [← hsame, huniform.value_eq, huniform.value_eq]
    show Chain.single (!Chain.value false (readOperands false leaf of)) =
      Chain.single (!Chain.value true (readOperands true leaf of))
    rw [hof]

theorem reading_unmixed (ht : describable t = true) (h : unmixed op t = true)
    (leaf : MatcherTree → Bool) : reading true leaf t = reading false leaf t := by
  obtain ⟨hsame, huniform⟩ := @readOperands_unmixed op t leaf ht h
  rw [reading, reading, ← hsame, huniform.value_eq, huniform.value_eq]

/-- A tree is squeezed between its readings. -/
theorem matched_eq_of_readings (ht : describable t = true)
    (h : reading true (leafMatches urlParse ctx) t = reading false (leafMatches urlParse ctx) t) :
    matched urlParse ctx t = reading true (leafMatches urlParse ctx) t := by
  have hupper : matched urlParse ctx t = true →
      matched urlParse ctx (regroup true t) = true := below_matched_regroup true ht
  have hlower : matched urlParse ctx (regroup false t) = true →
      matched urlParse ctx t = true := below_matched_regroup false ht
  rw [← reading_eq true ht] at hupper
  rw [← reading_eq false ht, ← h] at hlower
  exact Bool.eq_iff_iff.mpr ⟨hupper, hlower⟩

/-- **When a description tells which contexts a rule matches**: exactly when its text says the same of
every context whether `AND` or `OR` binds tighter. -/
theorem unambiguous_iff (urlParse : String → Option Url) (t : MatcherTree)
    (ht : describable t = true) :
    (∀ t', describable t' = true → describeWhen t' = describeWhen t →
        ∀ ctx, matched urlParse ctx t' = matched urlParse ctx t) ↔
      ∀ ctx, reading true (leafMatches urlParse ctx) t =
        reading false (leafMatches urlParse ctx) t := by
  constructor
  · intro h ctx
    have hupper := h _ (describable_regroup true ht) (describeWhen_regroup true ht) ctx
    have hlower := h _ (describable_regroup false ht) (describeWhen_regroup false ht) ctx
    rw [reading_eq true ht, reading_eq false ht, hupper, hlower]
  · intro h t' ht' htext ctx
    have hreading : ∀ inner, reading inner (leafMatches urlParse ctx) t' =
        reading inner (leafMatches urlParse ctx) t := by
      intro inner
      rw [reading, reading, readOperands_eq inner ht', readOperands_eq inner ht,
        operands_eq_of_describe inner ht' ht htext]
    have hsame : reading true (leafMatches urlParse ctx) t' =
        reading false (leafMatches urlParse ctx) t' := by
      rw [hreading, hreading, h ctx]
    rw [matched_eq_of_readings ht' hsame, matched_eq_of_readings ht (h ctx), hreading]

/-- The rule for Slack and Mail in the profile Work. -/
def workChat : MatcherTree :=
  .all [.sourceProfile "Work", .any [.sourceApp "Slack" none, .sourceApp "Mail" none]]

/-- The rule for Slack in the profile Work, and for Mail. -/
def workSlack : MatcherTree :=
  .any [.all [.sourceProfile "Work", .sourceApp "Slack" none], .sourceApp "Mail" none]

/-- A link that Mail opens, of no profile. -/
def fromMail : RoutingContext where
  url := "https://example.com/"
  source := ⟨.system, some "Mail", none, none, none⟩
  navigation := none
  environment := none

/-- The rule for Slack in the profile Work, unless Mail opens the link. -/
def workSlackOnly : MatcherTree :=
  .all [.sourceProfile "Work", .sourceApp "Slack" none, .not (.sourceApp "Mail" none)]

/-- The text of `workSlackOnly` says which contexts it matches, and that of `workSlack` does not. -/
theorem unambiguous_workSlackOnly :
    (∀ t', describable t' = true → describeWhen t' = describeWhen workSlackOnly →
      ∀ ctx, matched (fun _ => none) ctx t' = matched (fun _ => none) ctx workSlackOnly) ∧
    ¬ ∀ t', describable t' = true → describeWhen t' = describeWhen workSlack →
      ∀ ctx, matched (fun _ => none) ctx t' = matched (fun _ => none) ctx workSlack := by
  constructor
  · refine (unambiguous_iff _ workSlackOnly (by decide)).mpr fun ctx => ?_
    exact @reading_unmixed true workSlackOnly (by decide) (by decide) _
  · refine (unambiguous_iff _ workSlack (by decide)).not.mpr fun h => ?_
    -- the two readings of a link that Mail opens
    exact absurd (h fromMail) (by decide)

/-- **Two rules that are listed alike**, as `from profile Work AND from app Slack OR from app Mail`,
since `All` and `Any` put no brackets around their operands. -/
theorem brackets_are_missing :
    describable workChat = true ∧ describable workSlack = true ∧
      describeWhen workChat = describeWhen workSlack ∧
      describeWhen workChat =
        "from profile Work AND from app Slack OR from app Mail".toList ∧
      matched (fun _ => none) fromMail workChat = false ∧
      matched (fun _ => none) fromMail workSlack = true := by
  refine ⟨by decide, by decide, by decide, by decide, by decide, by decide⟩

end Readings

end LinkPilot.RuleTexts
