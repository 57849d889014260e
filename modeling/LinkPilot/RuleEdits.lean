import LinkPilot.Explain
import Mathlib.Data.List.InsertIdx
import Mathlib.Data.List.Nodup
import Mathlib.Data.List.Perm.Basic

/-!
# Editing a rule that does not fire

What the rule edits of the GUI (`rule_delete`, `rule_upsert`) and of `lpt rules` (`delete`,
`disable`, `move`) leave alone: the router sees the rules that fire, in their order, and nothing
else of the rule list.

Principal results:

* `sameRoute_of_filter` — two rule lists with the same firing rules route alike.
* `moved_of_rulesMove` — a move takes one rule out of the list and puts it back elsewhere.
* `rule_edits_local` — for a document with unique rule ids, no edit of a rule that does not fire
  changes a decision or an explanation; a move keeps the order of the other rules, and up and down
  undo each other.
-/

set_option autoImplicit false

namespace LinkPilot

/-! ## Lists -/

section Lists

variable {α κ : Type} [DecidableEq κ] {p : α → Bool} {l : List α}

theorem filter_insertIdx {a : α} (ha : p a = false) (n : Nat) :
    (l.insertIdx n a).filter p = l.filter p := by
  induction n generalizing l with
  | zero => simp [ha]
  | succ n ih =>
    cases l with
    | nil => rfl
    | cons b l => simp only [List.insertIdx_succ_cons, List.filter_cons, ih]

theorem filter_eraseIdx {a : α} {i : Nat} (hi : l[i]? = some a) (ha : p a = false) :
    (l.eraseIdx i).filter p = l.filter p := by
  induction l generalizing i with
  | nil => rfl
  | cons b l ih =>
    cases i with
    | zero =>
      cases hi
      simp [ha]
    | succ i => simp only [List.eraseIdx_cons_succ, List.filter_cons, ih hi]

theorem filter_upsert {key : α → κ} {x : α} (hx : p x = false) (hmem : ∃ y ∈ l, key y = key x)
    (h : ∀ y ∈ l, key y = key x → p y = false) : (upsert key x l).filter p = l.filter p := by
  induction l with
  | nil => simp at hmem
  | cons y l ih =>
    unfold upsert
    split
    · rename_i hy
      simp [hx, h y List.mem_cons_self hy]
    · rename_i hy
      obtain ⟨z, hz, hzx⟩ := hmem
      have hzl : z ∈ l := (List.mem_cons.mp hz).resolve_left (by rintro rfl; exact hy hzx)
      simp only [List.filter_cons, ih ⟨z, hzl, hzx⟩ fun w hw => h w (List.mem_cons_of_mem _ hw)]

theorem updateFirst_of_mem {key : α → κ} {k : κ} {f : α → α} (hmem : ∃ y ∈ l, key y = k)
    (h : ∀ y ∈ l, key y = k → p y = false ∧ p (f y) = false) :
    ∃ l', updateFirst key k f l = some l' ∧ l'.filter p = l.filter p := by
  induction l with
  | nil => simp at hmem
  | cons y l ih =>
    unfold updateFirst
    split
    · rename_i hy
      exact ⟨_, rfl, by simp [h y List.mem_cons_self hy]⟩
    · rename_i hy
      obtain ⟨z, hz, hzk⟩ := hmem
      have hzl : z ∈ l := (List.mem_cons.mp hz).resolve_left (by rintro rfl; exact hy hzk)
      obtain ⟨l', hl', hfilter⟩ := ih ⟨z, hzl, hzk⟩ fun w hw => h w (List.mem_cons_of_mem _ hw)
      exact ⟨y :: l', by rw [hl']; rfl, by simp only [List.filter_cons, hfilter]⟩

end Lists

/-- One element is somewhere else, and all others are as they were. -/
def Moved {α : Type} (l l' : List α) (x : α) (i j : Nat) : Prop :=
  l[i]? = some x ∧ l'[j]? = some x ∧ l'.eraseIdx j = l.eraseIdx i

theorem Moved.perm {α : Type} {l l' : List α} {x : α} {i j : Nat} (h : Moved l l' x i j) :
    l'.Perm l := by
  obtain ⟨hi, hj, herase⟩ := h
  obtain ⟨hi', rfl⟩ := List.getElem?_eq_some_iff.mp hi
  obtain ⟨hj', heq⟩ := List.getElem?_eq_some_iff.mp hj
  have hperm := (List.getElem_cons_eraseIdx_perm hj').symm
  rw [heq, herase] at hperm
  exact hperm.trans (List.getElem_cons_eraseIdx_perm hi')

theorem Moved.symm {α : Type} {l l' : List α} {x : α} {i j : Nat} (h : Moved l l' x i j) :
    Moved l' l x j i :=
  ⟨h.2.1, h.1, h.2.2.symm⟩

/-- The element goes back to where it came from. -/
theorem Moved.insertIdx {α : Type} {l l' : List α} {x : α} {i j : Nat} (h : Moved l l' x i j) :
    (l'.eraseIdx j).insertIdx i x = l := by
  obtain ⟨hi, -, herase⟩ := h
  obtain ⟨hi', rfl⟩ := List.getElem?_eq_some_iff.mp hi
  rw [herase, List.insertIdx_eraseIdx_getElem hi']

/-! ## Routes -/

section Routes

variable (urlParse : String → Option Url) (ctx : RoutingContext)

/-- The two documents decide alike, and explain alike, whatever the shortcut. -/
def SameRoute (doc doc' : ConfigDocument) : Prop :=
  ∀ pressed, evaluateExplainedWithAskShortcut urlParse doc' ctx pressed =
    evaluateExplainedWithAskShortcut urlParse doc ctx pressed

variable {urlParse} {ctx} {doc doc' : ConfigDocument}

/-- Documents with the same firing rules route alike. -/
theorem sameRoute_of_filter
    (hsmart : doc'.settings.smartRoutingEnabled = doc.settings.smartRoutingEnabled)
    (hdefault : doc'.defaultTarget = doc.defaultTarget)
    (h : doc'.rules.filter (fires urlParse doc' ctx) = doc.rules.filter (fires urlParse doc ctx)) :
    SameRoute urlParse ctx doc doc' := by
  intro pressed
  unfold evaluateExplainedWithAskShortcut
  rw [hsmart, hdefault]
  split
  · rfl
  · rw [← evaluateRules_filter, ← evaluateRules_filter urlParse pressed doc.rules, h]
    refine evaluateRules_congr urlParse hdefault (fun r hr => ⟨?_, rfl⟩) none
    -- a rule that is left fires in both documents
    rw [(List.mem_filter.mp hr).2]
    rw [← h] at hr
    exact (List.mem_filter.mp hr).2

theorem sameRoute_of_rules {rules : List Rule}
    (h : rules.filter (fires urlParse doc ctx) = doc.rules.filter (fires urlParse doc ctx)) :
    SameRoute urlParse ctx doc { doc with rules := rules } :=
  sameRoute_of_filter rfl rfl h

end Routes

/-! ## The rule of a prefix -/

section Find

variable {doc doc' : ConfigDocument} {r : Rule} {idPrefix : String} {i : Nat}

theorem findRule_eq_ok :
    findRule doc idPrefix = .ok r ↔
      (doc.rules.filter fun q => idPrefix.toList.isPrefixOf (uuidChars q.id)) = [r] := by
  unfold findRule
  split
  · rename_i h
    simp [h]
  · rename_i q h
    simp [h]
  · rename_i h1 h2
    simp only [reduceCtorEq, false_iff]
    exact h2 r

theorem findRule_perm (hperm : doc'.rules.Perm doc.rules) (h : findRule doc idPrefix = .ok r) :
    findRule doc' idPrefix = .ok r := by
  rw [findRule_eq_ok] at h ⊢
  have := hperm.filter fun q => idPrefix.toList.isPrefixOf (uuidChars q.id)
  rw [h] at this
  exact List.perm_singleton.mp this

theorem eq_of_id (hunique : (doc.rules.map Rule.id).Nodup) (hr : r ∈ doc.rules) {q : Rule}
    (hq : q ∈ doc.rules) (h : q.id = r.id) : q = r :=
  List.inj_on_of_nodup_map hunique hq hr h

theorem findIdx_id (hunique : (doc.rules.map Rule.id).Nodup) (hi : doc.rules[i]? = some r) :
    doc.rules.findIdx (fun q => q.id == r.id) = i := by
  obtain ⟨hlt, rfl⟩ := List.getElem?_eq_some_iff.mp hi
  rw [List.findIdx_eq hlt]
  refine ⟨by simp, fun j hj => ?_⟩
  have hne := List.nodup_iff_getElem?_ne_getElem?.mp hunique j i hj (by simpa using hlt)
  simpa [List.getElem?_eq_getElem hlt, List.getElem?_eq_getElem (Nat.lt_trans hj hlt)] using hne

end Find

/-! ## Moves -/

section Moves

variable {doc doc' : ConfigDocument} {r : Rule} {idPrefix : String} {i : Nat}

theorem MovePosition.target_lt (pos : MovePosition) {len : Nat} (h : i < len) :
    pos.target i len < len := by
  cases pos <;> simp only [target] <;> omega

/-- Where the rule stays in its place, taking it out and putting it back changes nothing. -/
theorem moveTo_eq {rules : List Rule} (hi : rules[i]? = some r) (target : Nat) :
    moveTo rules r i target = (rules.eraseIdx i).insertIdx target r := by
  unfold moveTo
  split
  · rfl
  · rename_i h
    have htarget : target = i := by simpa using h
    obtain ⟨hlt, rfl⟩ := List.getElem?_eq_some_iff.mp hi
    rw [htarget, List.insertIdx_eraseIdx_getElem hlt]

theorem moved_moveTo {rules : List Rule} (hi : rules[i]? = some r) {target : Nat}
    (htarget : target < rules.length) : Moved rules (moveTo rules r i target) r i target := by
  have hlt := (List.getElem?_eq_some_iff.mp hi).1
  rw [moveTo_eq hi]
  refine ⟨hi, ?_, List.eraseIdx_insertIdx_self r⟩
  rw [List.getElem?_insertIdx_self, if_pos (by rw [List.length_eraseIdx_of_lt hlt]; omega)]

/-- **A move** takes one rule out of the list and puts it back at its target. -/
theorem moved_of_rulesMove {pos : MovePosition} (h : rulesMove idPrefix pos doc = .ok doc') :
    doc' = { doc with rules := doc'.rules } ∧
      ∃ x i, Moved doc.rules doc'.rules x i (pos.target i doc.rules.length) := by
  unfold rulesMove at h
  split at h
  · cases h
  · simp only at h
    split at h
    · cases h
    · rename_i x hx
      cases h
      have hlt := (List.getElem?_eq_some_iff.mp hx).1
      exact ⟨rfl, x, _, moved_moveTo hx (pos.target_lt hlt)⟩

theorem rulesMove_eq (hunique : (doc.rules.map Rule.id).Nodup)
    (hfind : findRule doc idPrefix = .ok r) (hi : doc.rules[i]? = some r) (pos : MovePosition) :
    rulesMove idPrefix pos doc =
      .ok { doc with rules := moveTo doc.rules r i (pos.target i doc.rules.length) } := by
  unfold rulesMove
  simp only [hfind, findIdx_id hunique hi, hi]

/-- The two positions undo each other on the document. -/
def MovesBack (idPrefix : String) (pos back : MovePosition) (doc : ConfigDocument) : Prop :=
  ∃ doc', rulesMove idPrefix pos doc = .ok doc' ∧ rulesMove idPrefix back doc' = .ok doc

theorem movesBack (hunique : (doc.rules.map Rule.id).Nodup)
    (hfind : findRule doc idPrefix = .ok r) (hi : doc.rules[i]? = some r) {pos back : MovePosition}
    (hback : back.target (pos.target i doc.rules.length) doc.rules.length = i) :
    MovesBack idPrefix pos back doc := by
  have hlt := (List.getElem?_eq_some_iff.mp hi).1
  have hmoved := moved_moveTo hi (pos.target_lt hlt)
  have hperm := hmoved.perm
  refine ⟨_, rulesMove_eq hunique hfind hi pos, ?_⟩
  rw [rulesMove_eq ((hperm.map Rule.id).nodup_iff.mpr hunique) (findRule_perm hperm hfind)
    hmoved.2.1]
  simp only [moveTo_eq hmoved.2.1, hperm.length_eq, hback, hmoved.insertIdx]

end Moves

/-! ## Edits -/

section Edits

variable (urlParse : String → Option Url) (ctx : RoutingContext) (doc : ConfigDocument) (r : Rule)

/-- Deleting the rule, disabling it, giving it another action or note, and moving it, in the GUI and
with `lpt`. -/
structure LocalEdits : Prop where
  ruleDelete : SameRoute urlParse ctx doc (ruleDelete r.id doc)
  ruleDisable : SameRoute urlParse ctx doc (ruleUpsert { r with enabled := false } doc)
  ruleChange : ∀ action note,
    SameRoute urlParse ctx doc (ruleUpsert { r with action := action, note := note } doc)
  rulesDelete : ∀ idPrefix, findRule doc idPrefix = .ok r →
    ∃ doc', rulesDelete idPrefix doc = .ok doc' ∧ SameRoute urlParse ctx doc doc'
  rulesDisable : ∀ idPrefix, findRule doc idPrefix = .ok r →
    ∃ doc', rulesSetEnabled idPrefix false doc = .ok doc' ∧ SameRoute urlParse ctx doc doc'
  rulesMove : ∀ idPrefix pos, findRule doc idPrefix = .ok r →
    ∃ doc', rulesMove idPrefix pos doc = .ok doc' ∧ SameRoute urlParse ctx doc doc'

variable {urlParse} {ctx} {doc} {r}

theorem sameRoute_delete (hunique : (doc.rules.map Rule.id).Nodup) (hr : r ∈ doc.rules)
    (hfires : fires urlParse doc ctx r = false) :
    SameRoute urlParse ctx doc { doc with rules := doc.rules.filter fun q => q.id != r.id } := by
  refine sameRoute_of_rules ?_
  rw [List.filter_filter]
  refine List.filter_congr fun q hq => ?_
  by_cases hid : q.id = r.id
  · rw [eq_of_id hunique hr hq hid, hfires, Bool.false_and]
  · simp [hid]

/-- A rule put in the place of one that does not fire, and that does not fire itself. -/
theorem sameRoute_upsert (hunique : (doc.rules.map Rule.id).Nodup) (hr : r ∈ doc.rules)
    (hfires : fires urlParse doc ctx r = false) {rule : Rule} (hid : rule.id = r.id)
    (hrule : fires urlParse doc ctx rule = false) :
    SameRoute urlParse ctx doc (ruleUpsert rule doc) := by
  refine sameRoute_of_rules (filter_upsert hrule ⟨r, hr, hid.symm⟩ fun q hq hqid => ?_)
  rw [eq_of_id hunique hr hq (hqid.trans hid)]
  exact hfires

theorem fires_disabled (r : Rule) :
    fires urlParse doc ctx { r with enabled := false } = false := rfl

theorem localEdits (hunique : (doc.rules.map Rule.id).Nodup) (hr : r ∈ doc.rules)
    (hfires : fires urlParse doc ctx r = false) : LocalEdits urlParse ctx doc r where
  ruleDelete := sameRoute_delete hunique hr hfires
  ruleDisable := sameRoute_upsert hunique hr hfires rfl (fires_disabled r)
  ruleChange _ _ := sameRoute_upsert hunique hr hfires rfl hfires
  rulesDelete idPrefix hfind := by
    refine ⟨_, ?_, sameRoute_delete hunique hr hfires⟩
    unfold LinkPilot.rulesDelete
    rw [hfind]
  rulesDisable idPrefix hfind := by
    have hsame : ∀ q ∈ doc.rules, q.id = r.id → fires urlParse doc ctx q = false ∧
        fires urlParse doc ctx { q with enabled := false } = false := by
      intro q hq hid
      rw [eq_of_id hunique hr hq hid]
      exact ⟨hfires, fires_disabled r⟩
    obtain ⟨rules, hupdate, hfilter⟩ := updateFirst_of_mem ⟨r, hr, rfl⟩ hsame
    refine ⟨{ doc with rules := rules }, ?_, sameRoute_of_rules hfilter⟩
    unfold rulesSetEnabled
    simp only [hfind, hupdate]
  rulesMove idPrefix pos hfind := by
    obtain ⟨i, hi⟩ := List.mem_iff_getElem?.mp hr
    refine ⟨_, rulesMove_eq hunique hfind hi pos, sameRoute_of_rules ?_⟩
    rw [moveTo_eq hi, filter_insertIdx hfires, filter_eraseIdx hi hfires]

end Edits

/-- **Locality of rule edits.** A move takes one rule to another place and leaves all others in
their order.  With unique rule ids, no edit of a rule that does not fire changes what the router
returns, and away from the ends of the list up and down undo each other. -/
theorem rule_edits_local (urlParse : String → Option Url) (doc : ConfigDocument) :
    (∀ idPrefix pos doc', rulesMove idPrefix pos doc = .ok doc' →
      doc' = { doc with rules := doc'.rules } ∧ doc'.rules.Perm doc.rules ∧
        ∃ x i j, Moved doc.rules doc'.rules x i j) ∧
      ((doc.rules.map Rule.id).Nodup →
        (∀ r ∈ doc.rules, ∀ ctx, ¬ Fires urlParse doc ctx r → LocalEdits urlParse ctx doc r) ∧
          ∀ idPrefix r i, findRule doc idPrefix = .ok r → doc.rules[i]? = some r →
            (i ≠ 0 → MovesBack idPrefix .up .down doc) ∧
              (i + 1 ≠ doc.rules.length → MovesBack idPrefix .down .up doc)) := by
  refine ⟨fun idPrefix pos doc' h => ?_, fun hunique => ⟨fun r hr ctx hfires => ?_, ?_⟩⟩
  · obtain ⟨heq, x, i, hmoved⟩ := moved_of_rulesMove h
    exact ⟨heq, hmoved.perm, x, i, _, hmoved⟩
  · exact localEdits hunique hr (Bool.eq_false_iff.mpr (mt fires_iff.mp hfires))
  · intro idPrefix r i hfind hi
    have hlt := (List.getElem?_eq_some_iff.mp hi).1
    refine ⟨fun h0 => movesBack hunique hfind hi ?_, fun hlast => movesBack hunique hfind hi ?_⟩
    · simp only [MovePosition.target]
      omega
    · simp only [MovePosition.target]
      omega

theorem rule_edits_local_lark :
    (∃ r ∈ larkDocument.rules, r.id = 1 ∧ LocalEdits (fun _ => none)
        ⟨"https://example.com", ⟨.cli, none, none, none, none⟩, none, none⟩ larkDocument r) ∧
      MovesBack "00000000-0000-0000-0000-000000000002" .up .down larkDocument := by
  have h := (rule_edits_local (fun _ => none) larkDocument).2 (by decide)
  refine ⟨⟨_, List.mem_cons_self, rfl, h.1 _ List.mem_cons_self _ ?_⟩, ?_⟩
  · exact mt fires_iff.mpr (by decide)
  · exact (h.2 _ _ 1 rfl rfl).1 (by decide)

end LinkPilot
