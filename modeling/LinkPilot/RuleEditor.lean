import LinkPilot.Learning
import LinkPilot.RuleTexts
import Mathlib.Logic.Relation

/-!
# The rule editor

Model of `apps/desktop/src/components/RuleEditor.tsx` with its `TargetEditor.tsx`, in the direct
edition: the draft of a new rule, what each control makes of it, and the issues that keep it from
being saved.  A control is one step; the profiles that `TargetEditor` offers are those that it got
last.

Principal results:

* `reaches_iff` — the matchers that the controls can produce, from any matcher.
* `drafts_iff` — the rules that a new draft can become.
* `validate_eq_nil_iff`, `means_iff_holds` — what has no issues: such a matcher is evaluated as it
  reads.
* `saved_rule_decides` — so a new rule that can be saved decides the URLs that it means and that no
  earlier rule decides, and changes nothing else.
-/

set_option autoImplicit false

namespace LinkPilot.RuleEditor

open RuleTexts (node tree_induct isLeaf)

/-! ## `RuleEditor.tsx` -/

/-- `MatcherTree["op"]`. -/
inductive Op where
  | always
  | all
  | any
  | not
  | urlHost
  | urlPath
  | sourceApp
  | sourceBrowser
  | sourceProfile
  deriving DecidableEq, Repr

def Op.text : Op → String
  | always => "always"
  | all => "all"
  | any => "any"
  | not => "not"
  | urlHost => "url-host"
  | urlPath => "url-path"
  | sourceApp => "source-app"
  | sourceBrowser => "source-browser"
  | sourceProfile => "source-profile"

def op : MatcherTree → Op
  | .always => .always
  | .all _ => .all
  | .any _ => .any
  | .not _ => .not
  | .urlHost _ => .urlHost
  | .urlPath _ => .urlPath
  | .sourceApp _ _ => .sourceApp
  | .sourceBrowser _ => .sourceBrowser
  | .sourceProfile _ => .sourceProfile

/-- `EMPTY_MATCHER`. -/
def EMPTY_MATCHER : MatcherTree := .urlHost ""

/-- `matcherFromOp`. -/
def matcherFromOp : Op → MatcherTree
  | .always => .always
  | .all => .all [EMPTY_MATCHER]
  | .any => .any [EMPTY_MATCHER]
  | .not => .not EMPTY_MATCHER
  | .urlHost => .urlHost ""
  | .urlPath => .urlPath ""
  | .sourceApp => .sourceApp "" none
  | .sourceBrowser => .sourceBrowser ""
  | .sourceProfile => .sourceProfile ""

/-- `s || null`. -/
def orNull (s : String) : Option String := if s = "" then none else some s

/-- What the user does in a `MatcherEditor`. -/
inductive MatcherEdit where
  | setOp (op : Op)
  | typePattern (s : String)
  | typeName (s : String)
  | pickApp (name bundleId : String)
  | pickBrowser (b : BrowserId)
  | typeProfile (s : String)
  | removeChild (i : Nat)
  | addChild
  | child (i : Nat) (e : MatcherEdit)
  | inner (e : MatcherEdit)
  deriving Repr

/-- What the edit makes of the matcher, where it is offered.  A `Select` reports no value that it has
already. -/
def MatcherEdit.apply (browsers : List BrowserId) : MatcherEdit → MatcherTree → Option MatcherTree
  | .setOp o, m => if o = op m then none else some (matcherFromOp o)
  | .typePattern s, .urlHost _ => some (.urlHost s)
  | .typePattern s, .urlPath _ => some (.urlPath s)
  | .typeName s, .sourceApp _ _ => some (.sourceApp s none)
  | .pickApp name bundleId, .sourceApp _ _ => some (.sourceApp name (orNull bundleId))
  | .pickBrowser b, .sourceBrowser b' =>
    if b ∈ browsers ∧ b ≠ b' ∧ b ≠ "" then some (.sourceBrowser b) else none
  | .typeProfile s, .sourceProfile _ => some (.sourceProfile s)
  | .removeChild i, .all of => if i < of.length then some (.all (of.eraseIdx i)) else none
  | .removeChild i, .any of => if i < of.length then some (.any (of.eraseIdx i)) else none
  | .addChild, .all of => some (.all (of ++ [EMPTY_MATCHER]))
  | .addChild, .any of => some (.any (of ++ [EMPTY_MATCHER]))
  | .child i e, .all of =>
    of[i]?.bind fun c => (e.apply browsers c).map fun next => .all (of.set i next)
  | .child i e, .any of =>
    of[i]?.bind fun c => (e.apply browsers c).map fun next => .any (of.set i next)
  | .inner e, .not of => (e.apply browsers of).map .not
  | _, _ => none

/-- A step of the matcher. -/
def MatcherStep (browsers : List BrowserId) (m m' : MatcherTree) : Prop :=
  ∃ e : MatcherEdit, e.apply browsers m = some m'

/-- `Action["kind"]`. -/
inductive ActionKind where
  | openWith
  | keepSource
  | ask
  | block
  deriving DecidableEq, Repr

def kind : Action → ActionKind
  | .openWith _ => .openWith
  | .keepSource => .keepSource
  | .ask => .ask
  | .block => .block

/-- `setKind`. -/
def actionFromKind : ActionKind → Action
  | .openWith => .openWith (BrowserTarget.new "")
  | .keepSource => .keepSource
  | .ask => .ask
  | .block => .block

/-- What the editor finds around it: the browsers, the workspaces, and what `list_profiles` answers
when it does. -/
structure Choices where
  browsers : List BrowserId
  workspaces : List String
  profiles : BrowserId → List String

/-- The editor: the draft, and the profiles that `TargetEditor` offers. -/
structure Session where
  draft : Rule
  profiles : List String

inductive Edit where
  | setEnabled (v : Bool)
  | editWhen (e : MatcherEdit)
  | setKind (k : ActionKind)
  | pickBrowser (b : BrowserId)
  | pickProfile (p : String)
  | setIncognito (v : Bool)
  /-- The answer to the last `list_profiles`. -/
  | profilesArrive (ok : Bool)
  | setWorkspace (v : String)
  | typeNote (s : String)

/-- `NO_WORKSPACE`. -/
def NO_WORKSPACE : String := "__none__"

/-- The value of "any profile". -/
def anyProfile : String := "__any"

namespace Session

variable (c : Choices) (s : Session)

def setAction (action : Action) : Session := { s with draft := { s.draft with action := action } }

/-- The change that a control of `TargetEditor` makes, while there is one. -/
def onTarget (f : BrowserTarget → Option BrowserTarget) : Option Session :=
  match s.draft.action with
  | .openWith target => (f target).map fun next => s.setAction (.openWith next)
  | _ => none

/-- The answer of `list_profiles` to the effect of the present browser. -/
def profilesArrive (ok : Bool) : Option Session :=
  match s.draft.action with
  | .openWith target =>
    some { s with profiles := if ok && target.browser ≠ "" then c.profiles target.browser else [] }
  | _ => none

def step : Edit → Option Session
  | .setEnabled v => some { s with draft := { s.draft with enabled := v } }
  | .editWhen e =>
    (e.apply c.browsers s.draft.when).map fun m => { s with draft := { s.draft with when := m } }
  | .setKind k =>
    if k = kind s.draft.action then none
    else some { s.setAction (actionFromKind k) with profiles := [] }
  | .pickBrowser b =>
    s.onTarget fun target =>
      if b ∈ c.browsers ∧ b ≠ target.browser ∧ b ≠ "" then
        some { target with browser := b, profile := none }
      else none
  | .pickProfile p =>
    s.onTarget fun target =>
      if target.browser = "" ∨ target.profile.getD anyProfile = p then none
      else if p = anyProfile then some { target with profile := none }
      else if p ∈ s.profiles then some { target with profile := some p }
      else none
  | .setIncognito v => s.onTarget fun target => some { target with incognito := v }
  | .profilesArrive ok => s.profilesArrive c ok
  | .setWorkspace v =>
    if v = NO_WORKSPACE then some { s with draft := { s.draft with workspaceId := none } }
    else if v ∈ c.workspaces then some { s with draft := { s.draft with workspaceId := some v } }
    else none
  | .typeNote t => some { s with draft := { s.draft with note := orNull t } }

end Session

/-- A step of the editor. -/
def SessionStep (c : Choices) (s s' : Session) : Prop := ∃ e : Edit, s.step c e = some s'

/-- `newRule`. -/
def newRule (id : RuleId) : Rule where
  id := id
  enabled := true
  when := EMPTY_MATCHER
  action := .openWith (BrowserTarget.new "")
  source := .gui
  note := none
  workspaceId := none

/-- The editor for a new rule. -/
def opened (id : RuleId) : Session := ⟨newRule id, []⟩

/-! ### `validate` -/

/-- A message: its key, and the `op` that it names. -/
structure Issue where
  key : String
  op : Option Op
  deriving DecidableEq, Repr

/-- The white space and line terminators that `trim` removes. -/
def isJsSpace (c : Char) : Bool :=
  c ∈ ['\t', '\x0b', '\x0c', ' ', '\u00a0', '\u1680', '\u202f', '\u205f', '\u3000', '\ufeff', '\n',
    '\r', '\u2028', '\u2029'] || ('\u2000' ≤ c && c ≤ '\u200a')

/-- `s.trim() === ""`. -/
def blank (s : String) : Bool := s.toList.all isJsSpace

def issueIf (faulty : Bool) (key : String) (op : Option Op) : List Issue :=
  if faulty then [⟨key, op⟩] else []

mutual

/-- `collectMatcherIssues`. -/
def collectMatcherIssues : MatcherTree → List Issue
  | .always => []
  | .all of =>
    issueIf of.isEmpty "validation.needsChild" (some .all) ++ collectAll of
  | .any of =>
    issueIf of.isEmpty "validation.needsChild" (some .any) ++ collectAll of
  | .not of => collectMatcherIssues of
  | .urlHost pattern => issueIf (blank pattern) "validation.patternEmpty" (some .urlHost)
  | .urlPath pattern => issueIf (blank pattern) "validation.patternEmpty" (some .urlPath)
  | .sourceApp name _ => issueIf (blank name) "validation.sourceAppEmpty" none
  | .sourceBrowser browser => issueIf (blank browser) "validation.sourceBrowserEmpty" none
  | .sourceProfile profile => issueIf (blank profile) "validation.sourceProfileEmpty" none

def collectAll : List MatcherTree → List Issue
  | [] => []
  | m :: of => collectMatcherIssues m ++ collectAll of

end

/-- `collectActionIssues`. -/
def collectActionIssues : Action → List Issue
  | .openWith target => issueIf (blank target.browser) "validation.openTargetMissing" none
  | _ => []

/-- `validate`. -/
def validate (rule : Rule) : List Issue :=
  collectMatcherIssues rule.when ++ collectActionIssues rule.action

/-! ## What the controls can produce -/

section Matchers

variable {browsers : List BrowserId} {m m' : MatcherTree}

/-- No bundle id is empty, and every browser is one of the list or not chosen yet. -/
inductive Authorable (browsers : List BrowserId) : MatcherTree → Prop
  | always : Authorable browsers .always
  | all {of : List MatcherTree} (h : ∀ m ∈ of, Authorable browsers m) : Authorable browsers (.all of)
  | any {of : List MatcherTree} (h : ∀ m ∈ of, Authorable browsers m) : Authorable browsers (.any of)
  | not {of : MatcherTree} (h : Authorable browsers of) : Authorable browsers (.not of)
  | urlHost (pattern : String) : Authorable browsers (.urlHost pattern)
  | urlPath (pattern : String) : Authorable browsers (.urlPath pattern)
  | sourceApp (name : String) {bundleId : Option String} (h : bundleId ≠ some "") :
    Authorable browsers (.sourceApp name bundleId)
  | sourceBrowser {b : BrowserId} (h : b = "" ∨ b ∈ browsers) : Authorable browsers (.sourceBrowser b)
  | sourceProfile (profile : String) : Authorable browsers (.sourceProfile profile)

theorem authorable_node {op : Bool} {of : List MatcherTree} :
    Authorable browsers (node op of) ↔ ∀ m ∈ of, Authorable browsers m := by
  cases op with
  | false =>
    refine ⟨fun h => ?_, .any⟩
    cases h with
    | any h => exact h
  | true =>
    refine ⟨fun h => ?_, .all⟩
    cases h with
    | all h => exact h

theorem authorable_empty : Authorable browsers EMPTY_MATCHER := .urlHost ""

theorem authorable_matcherFromOp (o : Op) : Authorable browsers (matcherFromOp o) := by
  have hone : ∀ m ∈ [EMPTY_MATCHER], Authorable browsers m := by
    intro m hm
    rw [List.mem_singleton.mp hm]
    exact authorable_empty
  cases o with
  | always => exact .always
  | all => exact .all hone
  | any => exact .any hone
  | not => exact .not authorable_empty
  | urlHost => exact .urlHost ""
  | urlPath => exact .urlPath ""
  | sourceApp => exact .sourceApp "" nofun
  | sourceBrowser => exact .sourceBrowser (.inl rfl)
  | sourceProfile => exact .sourceProfile ""

theorem op_matcherFromOp (o : Op) : op (matcherFromOp o) = o := by
  cases o <;> rfl

theorem orNull_ne (s : String) : orNull s ≠ some "" := by
  unfold orNull
  split
  · exact nofun
  · rename_i h
    intro heq
    exact h (Option.some.inj heq)

theorem apply_child (i : Nat) (e : MatcherEdit) (op : Bool) (of : List MatcherTree) :
    (MatcherEdit.child i e).apply browsers (node op of) =
      of[i]?.bind fun c => (e.apply browsers c).map fun next => node op (of.set i next) := by
  cases op <;> rfl

theorem apply_addChild (op : Bool) (of : List MatcherTree) :
    MatcherEdit.addChild.apply browsers (node op of) = some (node op (of ++ [EMPTY_MATCHER])) := by
  cases op <;> rfl

theorem apply_removeChild (i : Nat) (op : Bool) (of : List MatcherTree) :
    (MatcherEdit.removeChild i).apply browsers (node op of) =
      if i < of.length then some (node op (of.eraseIdx i)) else none := by
  cases op <;> rfl

/-- An edit of a list of matchers keeps it authorable. -/
theorem authorable_group (op : Bool) {of : List MatcherTree} {e : MatcherEdit}
    (he : (∃ i, e = .removeChild i) ∨ e = .addChild ∨ ∃ i inner, e = .child i inner ∧
      ∀ c c', Authorable browsers c → inner.apply browsers c = some c' → Authorable browsers c')
    (h : Authorable browsers (node op of)) (happly : e.apply browsers (node op of) = some m') :
    Authorable browsers m' := by
  have hof := authorable_node.mp h
  rcases he with ⟨i, rfl⟩ | rfl | ⟨i, inner, rfl, hinner⟩
  · rw [apply_removeChild] at happly
    split at happly
    · cases happly
      exact authorable_node.mpr fun m hm => hof m (List.mem_of_mem_eraseIdx hm)
    · cases happly
  · rw [apply_addChild] at happly
    cases happly
    refine authorable_node.mpr fun m hm => ?_
    rcases List.mem_append.mp hm with hold | hnew
    · exact hof m hold
    · rw [List.mem_singleton.mp hnew]
      exact authorable_empty
  · rw [apply_child] at happly
    obtain ⟨c, hc, happly⟩ := Option.bind_eq_some_iff.mp happly
    obtain ⟨next, hnext, rfl⟩ := Option.map_eq_some_iff.mp happly
    refine authorable_node.mpr fun m hm => ?_
    rcases List.mem_or_eq_of_mem_set hm with hold | rfl
    · exact hof m hold
    · exact hinner c m (hof c (List.mem_of_getElem? hc)) hnext

/-- **An edit**, at any place of the matcher. -/
theorem authorable_apply {e : MatcherEdit} (h : Authorable browsers m)
    (happly : e.apply browsers m = some m') : Authorable browsers m' := by
  induction e generalizing m m' with
  | setOp o =>
    unfold MatcherEdit.apply at happly
    split at happly
    · cases happly
    · cases happly
      exact authorable_matcherFromOp o
  | typePattern s =>
    cases m with
    | urlHost => cases happly; exact .urlHost s
    | urlPath => cases happly; exact .urlPath s
    | _ => cases happly
  | typeName s =>
    cases m with
    | sourceApp => cases happly; exact .sourceApp s nofun
    | _ => cases happly
  | pickApp name bundleId =>
    cases m with
    | sourceApp => cases happly; exact .sourceApp name (orNull_ne bundleId)
    | _ => cases happly
  | pickBrowser b =>
    cases m with
    | sourceBrowser =>
      simp only [MatcherEdit.apply] at happly
      split at happly
      · rename_i hb
        cases happly
        exact .sourceBrowser (.inr hb.1)
      · cases happly
    | _ => cases happly
  | typeProfile s =>
    cases m with
    | sourceProfile => cases happly; exact .sourceProfile s
    | _ => cases happly
  | removeChild i =>
    cases m with
    | all of => exact authorable_group true (.inl ⟨i, rfl⟩) h happly
    | any of => exact authorable_group false (.inl ⟨i, rfl⟩) h happly
    | _ => cases happly
  | addChild =>
    cases m with
    | all of => exact authorable_group true (.inr (.inl rfl)) h happly
    | any of => exact authorable_group false (.inr (.inl rfl)) h happly
    | _ => cases happly
  | child i e ih =>
    have hchild := fun c c' hc happly => @ih c c' hc happly
    cases m with
    | all of => exact authorable_group true (.inr (.inr ⟨i, e, rfl, hchild⟩)) h happly
    | any of => exact authorable_group false (.inr (.inr ⟨i, e, rfl, hchild⟩)) h happly
    | _ => cases happly
  | inner e ih =>
    cases m with
    | not of =>
      obtain ⟨next, hnext, rfl⟩ := Option.map_eq_some_iff.mp happly
      cases h with
      | not h => exact .not (ih h hnext)
    | _ => cases happly

/-- What a sequence of edits leads to. -/
abbrev Reaches (browsers : List BrowserId) : MatcherTree → MatcherTree → Prop :=
  Relation.ReflTransGen (MatcherStep browsers)

theorem reaches_setOp {o : Op} (h : o ≠ op m) : Reaches browsers m (matcherFromOp o) :=
  .single ⟨.setOp o, by simp [MatcherEdit.apply, h]⟩

/-- Every kind of matcher can be begun anew, through another kind if need be. -/
theorem reaches_matcherFromOp (m : MatcherTree) (o : Op) : Reaches browsers m (matcherFromOp o) := by
  by_cases h : o = op m
  · obtain ⟨other, hother⟩ : ∃ other, other ≠ o := by
      by_cases halways : o = .always
      · exact ⟨.not, by rw [halways]; decide⟩
      · exact ⟨.always, Ne.symm halways⟩
    have haway : Reaches browsers m (matcherFromOp other) := reaches_setOp (h ▸ hother)
    refine haway.trans (reaches_setOp ?_)
    rw [op_matcherFromOp]
    exact Ne.symm hother
  · exact reaches_setOp h

/-- Edits of the last child. -/
theorem reaches_lastChild (op : Bool) (done : List MatcherTree) {c c' : MatcherTree}
    (h : Reaches browsers c c') :
    Reaches browsers (node op (done ++ [c])) (node op (done ++ [c'])) := by
  refine Relation.ReflTransGen.lift (fun c => node op (done ++ [c])) ?_ _ _ h
  rintro c c' ⟨e, he⟩
  refine ⟨.child done.length e, ?_⟩
  rw [apply_child]
  simp [he]

/-- A list of matchers, one child after the other. -/
theorem reaches_group (op : Bool) {of : List MatcherTree}
    (h : ∀ m ∈ of, Reaches browsers EMPTY_MATCHER m) :
    Reaches browsers (node op []) (node op of) := by
  induction of using List.reverseRecOn with
  | nil => exact .refl
  | append_singleton done m ih =>
    have hdone := ih fun m hm => h m (List.mem_append_left _ hm)
    have hadd : MatcherStep browsers (node op done) (node op (done ++ [EMPTY_MATCHER])) :=
      ⟨.addChild, apply_addChild op done⟩
    have hlast := reaches_lastChild op done (h m (List.mem_append_right _ List.mem_cons_self))
    exact (hdone.tail hadd).trans hlast

theorem reaches_node (m : MatcherTree) (op : Bool) {of : List MatcherTree}
    (h : ∀ m ∈ of, Reaches browsers EMPTY_MATCHER m) : Reaches browsers m (node op of) := by
  have hone : Reaches browsers m (node op [EMPTY_MATCHER]) := by
    cases op with
    | false => exact reaches_matcherFromOp m .any
    | true => exact reaches_matcherFromOp m .all
  have hnone : MatcherStep browsers (node op [EMPTY_MATCHER]) (node op []) :=
    ⟨.removeChild 0, by rw [apply_removeChild]; rfl⟩
  exact (hone.tail hnone).trans (reaches_group op h)

/-- Every authorable matcher can be produced, from whatever there is. -/
theorem reaches_of_authorable (h : Authorable browsers m) (m₀ : MatcherTree) :
    Reaches browsers m₀ m := by
  have hleaf : ∀ (o : Op) {m : MatcherTree}, MatcherStep browsers (matcherFromOp o) m →
      Reaches browsers m₀ m := fun o _ hstep => (reaches_matcherFromOp m₀ o).tail hstep
  induction h generalizing m₀ with
  | always => exact reaches_matcherFromOp m₀ .always
  | @all of _ ih =>
    exact reaches_node m₀ true fun m hm => ih m hm EMPTY_MATCHER fun o _ hstep =>
      (reaches_matcherFromOp EMPTY_MATCHER o).tail hstep
  | @any of _ ih =>
    exact reaches_node m₀ false fun m hm => ih m hm EMPTY_MATCHER fun o _ hstep =>
      (reaches_matcherFromOp EMPTY_MATCHER o).tail hstep
  | @not of _ ih =>
    have hinner := ih EMPTY_MATCHER fun o _ hstep =>
      (reaches_matcherFromOp EMPTY_MATCHER o).tail hstep
    refine (reaches_matcherFromOp m₀ .not).trans
      (Relation.ReflTransGen.lift MatcherTree.not ?_ _ _ hinner)
    rintro c c' ⟨e, he⟩
    exact ⟨.inner e, by simp [MatcherEdit.apply, he]⟩
  | urlHost pattern => exact hleaf .urlHost ⟨.typePattern pattern, rfl⟩
  | urlPath pattern => exact hleaf .urlPath ⟨.typePattern pattern, rfl⟩
  | @sourceApp name bundleId hbundle =>
    cases bundleId with
    | none => exact hleaf .sourceApp ⟨.typeName name, rfl⟩
    | some b =>
      have hb : b ≠ "" := fun heq => hbundle (by rw [heq])
      exact hleaf .sourceApp ⟨.pickApp name b, by simp [MatcherEdit.apply, matcherFromOp, orNull, hb]⟩
  | @sourceBrowser b hb =>
    by_cases hnone : b = ""
    · rw [hnone]
      exact reaches_matcherFromOp m₀ .sourceBrowser
    · have hlisted := hb.resolve_left hnone
      exact hleaf .sourceBrowser
        ⟨.pickBrowser b, by simp [MatcherEdit.apply, matcherFromOp, hlisted, hnone]⟩
  | sourceProfile profile => exact hleaf .sourceProfile ⟨.typeProfile profile, rfl⟩

/-- **The matchers of the editor.** -/
theorem reaches_iff {m₀ : MatcherTree} (h₀ : Authorable browsers m₀) :
    Reaches browsers m₀ m ↔ Authorable browsers m := by
  refine ⟨fun h => ?_, fun h => reaches_of_authorable h m₀⟩
  induction h with
  | refl => exact h₀
  | tail _ hstep ih =>
    obtain ⟨e, he⟩ := hstep
    exact authorable_apply ih he

end Matchers

section Drafts

variable {c : Choices} {id : RuleId} {s s' : Session} {r : Rule}

/-- Some browser of the list has the profile. -/
def Listed (c : Choices) (p : String) : Prop := ∃ b ∈ c.browsers, b ≠ "" ∧ p ∈ c.profiles b

/-- A target as the editor makes them.  Its profile may be another browser's: the list of the browser
before stands until the new one arrives. -/
structure TargetDrafted (c : Choices) (t : BrowserTarget) : Prop where
  browser : t.browser = "" ∨ t.browser ∈ c.browsers
  profile : ∀ p, t.profile = some p → t.browser ≠ "" ∧ p ≠ anyProfile ∧ Listed c p
  workspace : t.workspace = none
  newWindow : t.newWindow = false

/-- A rule as the editor makes them, with the id that it began with. -/
structure Drafted (c : Choices) (id : RuleId) (r : Rule) : Prop where
  id : r.id = id
  source : r.source = .gui
  when : Authorable c.browsers r.when
  action : ∀ t, r.action = .openWith t → TargetDrafted c t
  workspace : ∀ w, r.workspaceId = some w → w ∈ c.workspaces ∧ w ≠ NO_WORKSPACE
  note : r.note ≠ some ""

/-- What holds of the editor at all times. -/
structure Inv (c : Choices) (id : RuleId) (s : Session) : Prop where
  draft : Drafted c id s.draft
  profiles : ∀ p ∈ s.profiles, Listed c p

theorem targetDrafted_new : TargetDrafted c (BrowserTarget.new "") :=
  ⟨.inl rfl, fun _ h => (nomatch h), rfl, rfl⟩

theorem inv_opened : Inv c id (opened id) where
  draft :=
    { id := rfl
      source := rfl
      when := authorable_empty
      action := fun t ht => by
        cases ht
        exact targetDrafted_new
      workspace := fun _ h => (nomatch h)
      note := fun h => (nomatch h) }
  profiles := fun _ h => (nomatch h)

/-- Another action. -/
theorem inv_setAction {action : Action} {profiles : List String} (h : Inv c id s)
    (haction : ∀ t, action = .openWith t → TargetDrafted c t)
    (hprofiles : ∀ p ∈ profiles, Listed c p) :
    Inv c id { s.setAction action with profiles := profiles } :=
  ⟨{ h.draft with action := haction }, hprofiles⟩

theorem inv_onTarget {f : BrowserTarget → Option BrowserTarget} (h : Inv c id s)
    (hf : ∀ t t', TargetDrafted c t → f t = some t' → TargetDrafted c t')
    (hstep : s.onTarget f = some s') : Inv c id s' := by
  unfold Session.onTarget at hstep
  split at hstep
  · rename_i target htarget
    obtain ⟨next, hnext, rfl⟩ := Option.map_eq_some_iff.mp hstep
    refine inv_setAction h (fun t ht => ?_) h.profiles
    cases ht
    exact hf target next (h.draft.action target htarget) hnext
  · cases hstep

/-- **A step** of the editor. -/
theorem inv_step (h : Inv c id s) (hstep : SessionStep c s s') : Inv c id s' := by
  obtain ⟨e, he⟩ := hstep
  cases e with
  | setEnabled v =>
    cases he
    exact ⟨{ h.draft with }, h.profiles⟩
  | editWhen e =>
    obtain ⟨m, hm, rfl⟩ := Option.map_eq_some_iff.mp he
    exact ⟨{ h.draft with when := authorable_apply h.draft.when hm }, h.profiles⟩
  | setKind k =>
    simp only [Session.step] at he
    split at he
    · cases he
    · cases he
      refine inv_setAction h (fun t ht => ?_) fun _ hp => (nomatch hp)
      cases k with
      | openWith =>
        cases ht
        exact targetDrafted_new
      | _ => cases ht
  | pickBrowser b =>
    refine inv_onTarget h (fun t t' ht happly => ?_) he
    split at happly
    · rename_i hb
      cases happly
      exact ⟨.inr hb.1, fun _ hp => (nomatch hp), ht.workspace, ht.newWindow⟩
    · cases happly
  | pickProfile p =>
    refine inv_onTarget h (fun t t' ht happly => ?_) he
    split at happly
    · cases happly
    · rename_i hbrowser
      split at happly
      · cases happly
        exact ⟨ht.browser, fun _ hp => (nomatch hp), ht.workspace, ht.newWindow⟩
      · rename_i hany
        split at happly
        · rename_i hlisted
          cases happly
          refine ⟨ht.browser, fun q hq => ?_, ht.workspace, ht.newWindow⟩
          cases hq
          exact ⟨fun hempty => hbrowser (.inl hempty), hany, h.profiles p hlisted⟩
        · cases happly
  | setIncognito v =>
    refine inv_onTarget h (fun t t' ht happly => ?_) he
    cases happly
    exact ⟨ht.browser, ht.profile, ht.workspace, ht.newWindow⟩
  | profilesArrive ok =>
    simp only [Session.step, Session.profilesArrive] at he
    split at he
    · rename_i target htarget
      cases he
      refine ⟨h.draft, fun p hp => ?_⟩
      simp only at hp
      split at hp
      · rename_i hok
        have hb : target.browser ≠ "" := by simpa using (Bool.and_eq_true_iff.mp hok).2
        have hlisted := (h.draft.action target htarget).browser.resolve_left hb
        exact ⟨target.browser, hlisted, hb, hp⟩
      · cases hp
    · cases he
  | setWorkspace v =>
    simp only [Session.step] at he
    split at he
    · cases he
      exact ⟨{ h.draft with workspace := fun _ hw => (nomatch hw) }, h.profiles⟩
    · rename_i hsome
      split at he
      · rename_i hmem
        cases he
        refine ⟨{ h.draft with workspace := fun w hw => ?_ }, h.profiles⟩
        cases hw
        exact ⟨hmem, hsome⟩
      · cases he
  | typeNote t =>
    cases he
    exact ⟨{ h.draft with note := orNull_ne t }, h.profiles⟩

abbrev Leads (c : Choices) : Session → Session → Prop := Relation.ReflTransGen (SessionStep c)

theorem leads_setKind {k : ActionKind} (h : k ≠ kind s.draft.action) :
    SessionStep c s { s.setAction (actionFromKind k) with profiles := [] } :=
  ⟨.setKind k, by simp [Session.step, h]⟩

theorem kind_actionFromKind (k : ActionKind) : kind (actionFromKind k) = k := by
  cases k <;> rfl

/-- Every kind of action can be begun anew. -/
theorem leads_actionFromKind (s : Session) (k : ActionKind) :
    Leads c s { s.setAction (actionFromKind k) with profiles := [] } := by
  by_cases h : k = kind s.draft.action
  · obtain ⟨other, hother⟩ : ∃ other, other ≠ k := by
      by_cases hask : k = .ask
      · exact ⟨.block, by rw [hask]; decide⟩
      · exact ⟨.ask, Ne.symm hask⟩
    have haway := @leads_setKind c s other (h ▸ hother)
    refine .tail (.single haway) (leads_setKind ?_)
    show k ≠ kind (actionFromKind other)
    rw [kind_actionFromKind]
    exact Ne.symm hother
  · exact .single (leads_setKind h)

/-- Another browser is picked, for which no profile has been. -/
theorem leads_pickBrowser {b b' : BrowserId} (draft : Rule) (p : Option String)
    (profiles : List String) (hmem : b ∈ c.browsers) (hne : b ≠ b') (hsome : b ≠ "") :
    Leads c ⟨{ draft with action := .openWith ⟨b', p, none, false, false⟩ }, profiles⟩
      ⟨{ draft with action := .openWith ⟨b, none, none, false, false⟩ }, profiles⟩ :=
  .single ⟨.pickBrowser b, by
    simp [Session.step, Session.onTarget, Session.setAction, hmem, hne, hsome]⟩

/-- From a fresh target, the browser and the profile of any other. -/
theorem leads_profile {t : BrowserTarget} (ht : TargetDrafted c t) (draft : Rule) :
    ∃ profiles, Leads c ⟨{ draft with action := .openWith (BrowserTarget.new "") }, []⟩
      ⟨{ draft with action := .openWith { t with incognito := false } }, profiles⟩ := by
  obtain ⟨browser, profile, workspace, incognito, newWindow⟩ := t
  obtain ⟨hbrowser, hprofile, rfl, rfl⟩ := ht
  simp only at hbrowser hprofile
  cases profile with
  | none =>
    by_cases hempty : browser = ""
    · subst hempty
      exact ⟨[], .refl⟩
    · have hmem := hbrowser.resolve_left hempty
      exact ⟨[], leads_pickBrowser draft none [] hmem hempty hempty⟩
  | some p =>
    obtain ⟨hsome, hany, b, hb, hne, hp⟩ := hprofile p rfl
    have hmem := hbrowser.resolve_left hsome
    refine ⟨c.profiles b, ?_⟩
    -- the list of the browser `b`, which is the target's or stands until the target's arrives
    have hload : Leads c ⟨{ draft with action := .openWith (BrowserTarget.new "") }, []⟩
        ⟨{ draft with action := .openWith ⟨b, none, none, false, false⟩ }, c.profiles b⟩ := by
      refine (leads_pickBrowser draft none [] hb hne hne).tail ⟨.profilesArrive true, ?_⟩
      simp [Session.step, Session.profilesArrive, hne]
    have hturn : Leads c
        ⟨{ draft with action := .openWith ⟨b, none, none, false, false⟩ }, c.profiles b⟩
        ⟨{ draft with action := .openWith ⟨browser, none, none, false, false⟩ }, c.profiles b⟩ := by
      by_cases hsame : browser = b
      · rw [hsame]
      · exact leads_pickBrowser draft none (c.profiles b) hmem hsame hsome
    refine (hload.trans hturn).tail ⟨.pickProfile p, ?_⟩
    simp [Session.step, Session.onTarget, Session.setAction, hsome, Ne.symm hany, hany, hp]

/-- Every action can be produced, from whatever there is. -/
theorem leads_action (s : Session) {action : Action}
    (h : ∀ t, action = .openWith t → TargetDrafted c t) :
    ∃ profiles, Leads c s ⟨{ s.draft with action := action }, profiles⟩ := by
  cases action with
  | openWith t =>
    obtain ⟨profiles, hprofile⟩ := leads_profile (h t rfl) s.draft
    refine ⟨profiles, ((leads_actionFromKind s .openWith).trans hprofile).tail
      ⟨.setIncognito t.incognito, ?_⟩⟩
    simp [Session.step, Session.onTarget, Session.setAction]
  | keepSource => exact ⟨[], leads_actionFromKind s .keepSource⟩
  | ask => exact ⟨[], leads_actionFromKind s .ask⟩
  | block => exact ⟨[], leads_actionFromKind s .block⟩

theorem leads_when (s : Session) {m : MatcherTree} (h : Authorable c.browsers m) :
    Leads c s { s with draft := { s.draft with when := m } } := by
  have hlift := Relation.ReflTransGen.lift (p := SessionStep c)
    (fun m => { s with draft := { s.draft with when := m } }) (r := MatcherStep c.browsers) ?_ _ _
    (reaches_of_authorable h s.draft.when)
  · exact hlift
  · rintro m m' ⟨e, he⟩
    exact ⟨.editWhen e, by simp [Session.step, he]⟩

theorem orNull_getD {o : Option String} (h : o ≠ some "") : orNull (o.getD "") = o := by
  cases o with
  | none => rfl
  | some s =>
    have hs : s ≠ "" := fun heq => h (by rw [heq])
    simp [orNull, hs]

/-- **The rules of the editor.** -/
theorem drafts_iff (c : Choices) (id : RuleId) (r : Rule) :
    (∃ s, Leads c (opened id) s ∧ s.draft = r) ↔ Drafted c id r := by
  constructor
  · rintro ⟨s, hs, rfl⟩
    have hinv : Inv c id s := by
      induction hs with
      | refl => exact inv_opened
      | tail _ hstep ih => exact inv_step ih hstep
    exact hinv.draft
  · intro h
    obtain ⟨rid, enabled, when, action, source, note, workspaceId⟩ := r
    obtain ⟨rfl, rfl, hwhen, haction, hworkspace, hnote⟩ := h
    obtain ⟨profiles, hdone⟩ := leads_action (opened rid) haction
    have hwhen := hdone.trans (leads_when _ hwhen)
    have henabled := hwhen.tail ⟨.setEnabled enabled, rfl⟩
    have hnoted := henabled.tail ⟨.typeNote (note.getD ""), rfl⟩
    refine ⟨⟨⟨rid, enabled, when, action, .gui, note, workspaceId⟩, profiles⟩,
      hnoted.tail ⟨.setWorkspace (workspaceId.getD NO_WORKSPACE), ?_⟩, rfl⟩
    cases workspaceId with
    | none => simp [Session.step, opened, newRule, orNull_getD hnote]
    | some w =>
      obtain ⟨hmem, hne⟩ := hworkspace w rfl
      simp [Session.step, opened, newRule, orNull_getD hnote, hmem, hne]

end Drafts

/-! ## What has no issues -/

/-- Every group has a matcher, and no field is blank. -/
inductive Filled : MatcherTree → Prop
  | always : Filled .always
  | all {of : List MatcherTree} (hne : of ≠ []) (h : ∀ m ∈ of, Filled m) : Filled (.all of)
  | any {of : List MatcherTree} (hne : of ≠ []) (h : ∀ m ∈ of, Filled m) : Filled (.any of)
  | not {of : MatcherTree} (h : Filled of) : Filled (.not of)
  | urlHost {pattern : String} (h : blank pattern = false) : Filled (.urlHost pattern)
  | urlPath {pattern : String} (h : blank pattern = false) : Filled (.urlPath pattern)
  | sourceApp {name : String} (h : blank name = false) (bundleId : Option String) :
    Filled (.sourceApp name bundleId)
  | sourceBrowser {b : BrowserId} (h : blank b = false) : Filled (.sourceBrowser b)
  | sourceProfile {profile : String} (h : blank profile = false) : Filled (.sourceProfile profile)

@[simp] theorem issueIf_eq_nil {faulty : Bool} {key : String} {op : Option Op} :
    issueIf faulty key op = [] ↔ faulty = false := by
  cases faulty <;> simp [issueIf]

theorem collectAll_eq_nil {of : List MatcherTree} :
    collectAll of = [] ↔ ∀ m ∈ of, collectMatcherIssues m = [] := by
  induction of with
  | nil => simp [collectAll]
  | cons m of ih => rw [collectAll, List.append_eq_nil_iff, ih, List.forall_mem_cons]

theorem collect_node {op : Bool} {of : List MatcherTree} :
    collectMatcherIssues (node op of) = [] ↔ of ≠ [] ∧ ∀ m ∈ of, collectMatcherIssues m = [] := by
  rw [← collectAll_eq_nil]
  cases op <;> simp [node, collectMatcherIssues]

theorem collect_eq_nil_of_filled {m : MatcherTree} (h : Filled m) : collectMatcherIssues m = [] := by
  induction h with
  | always => rfl
  | all hne _ ih => exact (@collect_node true _).mpr ⟨hne, ih⟩
  | any hne _ ih => exact (@collect_node false _).mpr ⟨hne, ih⟩
  | not _ ih => exact ih
  | urlHost h | urlPath h | sourceApp h | sourceBrowser h | sourceProfile h =>
    exact issueIf_eq_nil.mpr h

theorem filled_of_leaf {m : MatcherTree} (hleaf : isLeaf m = true)
    (h : collectMatcherIssues m = []) : Filled m := by
  cases m with
  | always => exact .always
  | urlHost => exact .urlHost (issueIf_eq_nil.mp h)
  | urlPath => exact .urlPath (issueIf_eq_nil.mp h)
  | sourceApp _ bundleId => exact .sourceApp (issueIf_eq_nil.mp h) bundleId
  | sourceBrowser => exact .sourceBrowser (issueIf_eq_nil.mp h)
  | sourceProfile => exact .sourceProfile (issueIf_eq_nil.mp h)
  | _ => cases hleaf

theorem filled_of_collect (m : MatcherTree) (h : collectMatcherIssues m = []) : Filled m := by
  induction m using tree_induct with
  | leaf m hleaf => exact filled_of_leaf hleaf h
  | node op of ih =>
    obtain ⟨hne, hof⟩ := collect_node.mp h
    cases op with
    | false => exact .any hne fun m hm => ih m hm (hof m hm)
    | true => exact .all hne fun m hm => ih m hm (hof m hm)
  | not of ih => exact .not (ih h)

/-- A target whose browser has been picked. -/
def Targeted (action : Action) : Prop :=
  ∀ target, action = .openWith target → blank target.browser = false

/-- **What can be saved.** -/
theorem validate_eq_nil_iff {r : Rule} :
    validate r = [] ↔ Filled r.when ∧ Targeted r.action := by
  unfold validate Targeted
  rw [List.append_eq_nil_iff]
  refine and_congr ⟨filled_of_collect _, collect_eq_nil_of_filled⟩ ?_
  cases r.action <;> simp [collectActionIssues]

section Meaning

variable (urlParse : String → Option Url) (ctx : RoutingContext)

mutual

/-- How a matcher reads: every one, some one, not. -/
def Means : MatcherTree → Prop
  | .all of => AllMean of
  | .any of => AnyMeans of
  | .not of => ¬ Means of
  | m => m.Holds urlParse ctx

def AllMean : List MatcherTree → Prop
  | [] => True
  | m :: of => Means m ∧ AllMean of

def AnyMeans : List MatcherTree → Prop
  | [] => False
  | m :: of => Means m ∨ AnyMeans of

end

variable {urlParse} {ctx}

theorem allMean_iff {of : List MatcherTree}
    (h : ∀ m ∈ of, (Means urlParse ctx m ↔ m.Holds urlParse ctx)) :
    AllMean urlParse ctx of ↔ MatcherTree.AllHold urlParse ctx of := by
  induction of with
  | nil => exact Iff.rfl
  | cons m of ih =>
    obtain ⟨hm, hof⟩ := List.forall_mem_cons.mp h
    exact and_congr hm (ih hof)

theorem anyMeans_iff {of : List MatcherTree}
    (h : ∀ m ∈ of, (Means urlParse ctx m ↔ m.Holds urlParse ctx)) :
    AnyMeans urlParse ctx of ↔ MatcherTree.AnyHolds urlParse ctx of := by
  induction of with
  | nil => exact Iff.rfl
  | cons m of ih =>
    obtain ⟨hm, hof⟩ := List.forall_mem_cons.mp h
    exact or_congr hm (ih hof)

/-- The router reads a filled matcher as it reads: only of an empty group, which would always hold,
does it say no. -/
theorem means_iff_holds {m : MatcherTree} (h : Filled m) :
    Means urlParse ctx m ↔ m.Holds urlParse ctx := by
  induction h with
  | @all of hne _ ih =>
    simp only [Means, MatcherTree.Holds, ne_eq, hne, not_false_eq_true, true_and]
    exact allMean_iff ih
  | any _ _ ih => exact anyMeans_iff ih
  | not _ ih => exact not_congr ih
  | _ => simp only [Means]

end Meaning

/-- What saving the rule has done to the routes of the document `doc`, which became `doc'`. -/
structure Saved (urlParse : String → Option Url) (doc doc' : ConfigDocument) (r : Rule) : Prop where
  /-- The URLs that an earlier rule decides. -/
  earlier : ∀ ctx a, firstMatch urlParse doc ctx = some a →
    evaluateExplained urlParse doc' ctx = evaluateExplained urlParse doc ctx
  /-- The URLs that the rule does not mean, or all while it is off. -/
  quiet : ∀ ctx, ¬ (eligible doc r = true ∧ Means urlParse ctx r.when) → SameRoute urlParse ctx doc doc'
  /-- The others. -/
  decides : ∀ ctx pressed, doc.settings.smartRoutingEnabled = true →
    firstMatch urlParse doc ctx = none → eligible doc r = true → Means urlParse ctx r.when →
    (evaluateExplainedWithAskShortcut urlParse doc' ctx pressed).SameUpToReason
      (explainRule urlParse ctx r)

open Learning (withRules upsert_of_fresh firstMatch_withRules released_withRules evaluate_released)

theorem fires_iff_means {urlParse : String → Option Url} {doc : ConfigDocument} {ctx : RoutingContext}
    {r : Rule} (h : Filled r.when) : fires urlParse doc ctx r = true ↔
      eligible doc r = true ∧ Means urlParse ctx r.when := by
  rw [fires, Bool.and_eq_true, evalTree_matched_iff, means_iff_holds h]

/-- **A new rule that can be saved.** -/
theorem saved_rule_decides (urlParse : String → Option Url) {doc : ConfigDocument} {r : Rule}
    (hvalid : validate r = []) (hfresh : r.id ∉ doc.rules.map Rule.id) :
    Saved urlParse doc (ruleUpsert r doc) r := by
  have hfilled := (validate_eq_nil_iff.mp hvalid).1
  have hdoc : ruleUpsert r doc = withRules [r] doc := by
    unfold ruleUpsert withRules
    rw [upsert_of_fresh hfresh]
  rw [hdoc]
  refine ⟨fun ctx a ha => released_withRules _ ha, fun ctx hnot => ?_, fun ctx pressed hs hnone
    heligible hmeans => ?_⟩
  · have hquiet : fires urlParse doc ctx r = false := by
      rw [← Bool.not_eq_true, fires_iff_means hfilled]
      exact hnot
    refine sameRoute_of_filter rfl rfl ?_
    show (doc.rules ++ [r]).filter (fires urlParse doc ctx) = _
    rw [List.filter_append, List.filter_singleton, hquiet]
    simp
  · have hfires : fires urlParse doc ctx r = true :=
      (fires_iff_means hfilled).mpr ⟨heligible, hmeans⟩
    have hs' : (withRules [r] doc).settings.smartRoutingEnabled = true := hs
    have hfirst : firstMatch urlParse (withRules [r] doc) ctx = some r := by
      rw [firstMatch_withRules, hnone, List.find?_singleton, hfires]
      rfl
    cases pressed with
    | false =>
      show (evaluateExplained urlParse (withRules [r] doc) ctx).SameUpToReason _
      rw [evaluate_released hs', hfirst]
      exact ⟨rfl, rfl⟩
    | true =>
      cases hask : r.action.isAsk with
      | false =>
        rw [shortcut_noop urlParse fun a ha => ?_]
        · show (evaluateExplained urlParse (withRules [r] doc) ctx).SameUpToReason _
          rw [evaluate_released hs', hfirst]
          exact ⟨rfl, rfl⟩
        · cases hfirst.symm.trans ha
          exact hask
      | true =>
        have hno : firstNonAsk urlParse (withRules [r] doc) ctx = none := by
          refine List.find?_eq_none.mpr fun a ha => ?_
          rcases List.mem_append.mp ha with hold | hnew
          · have hquiet := List.find?_eq_none.mp hnone a hold
            show ¬ (fires urlParse doc ctx a && !a.action.isAsk) = true
            simp [hquiet]
          · rw [List.mem_singleton.mp hnew, hask]
            simp
        rw [shortcut_keeps_ask urlParse hs' hfirst hno]
        exact noLaterRule_same _

/-- A draft that opens one host in Arc. -/
def gitHubDraft : Rule :=
  { newRule 1#128 with when := .urlHost "github.com", action := .openWith (.new "arc") }

/-- The hosts of two URLs. -/
def hostsParse : String → Option Url
  | "https://github.com/" => some ⟨some "github.com", "/"⟩
  | "https://example.com/" => some ⟨some "example.com", "/"⟩
  | _ => none

/-- An earlier rule blocks another host. -/
def blocksExample : ConfigDocument :=
  { ConfigDocument.withDefault (.new "system") with
    rules := [{ newRule 2#128 with when := .urlHost "example.com", action := .block }] }

def fromSystem (url : String) : RoutingContext :=
  ⟨url, ⟨.system, none, none, none, none⟩, none, none⟩

/-- The draft opens its host behind the rule that stood there, which goes on blocking its own. -/
theorem saved_rule_decides_gitHub :
    (∀ pressed, (evaluateExplainedWithAskShortcut hostsParse (ruleUpsert gitHubDraft blocksExample)
      (fromSystem "https://github.com/") pressed).SameUpToReason
        (explainRule hostsParse (fromSystem "https://github.com/") gitHubDraft)) ∧
    evaluateExplained hostsParse (ruleUpsert gitHubDraft blocksExample)
        (fromSystem "https://example.com/") =
      evaluateExplained hostsParse blocksExample (fromSystem "https://example.com/") := by
  have hsaved : Saved hostsParse blocksExample (ruleUpsert gitHubDraft blocksExample) gitHubDraft :=
    saved_rule_decides hostsParse (by decide) (by decide)
  constructor
  · obtain ⟨heligible, hmeans⟩ := (@fires_iff_means hostsParse blocksExample
      (fromSystem "https://github.com/") gitHubDraft (.urlHost (by decide))).mp (by decide)
    intro pressed
    exact hsaved.decides _ pressed (by decide) (by decide) heligible hmeans
  · have hblocks : (firstMatch hostsParse blocksExample
        (fromSystem "https://example.com/")).isSome = true := by decide
    obtain ⟨a, ha⟩ := Option.isSome_iff_exists.mp hblocks
    exact hsaved.earlier _ a ha

end LinkPilot.RuleEditor
