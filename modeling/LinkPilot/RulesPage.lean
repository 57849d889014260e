import LinkPilot.RuleEditor
import LinkPilot.WorkspaceGate
import LinkPilot.Lib.Interleaving
import Mathlib.Data.List.DropRight
import Mathlib.Data.List.Forall2

/-!
# The rules page

Model of `apps/desktop/src/pages/rules.tsx`: the drag-to-reorder handlers of the rule rows with the
page's document, filter and drag reference, and the handlers that organise rules — copying a compiled
rule, moving a rule to another workspace, creating, renaming and removing workspaces.

`onDragEnd` clears the visuals alone, so a drag that ends elsewhere leaves its rule in the drag
reference.

Principal results:

* `drop_moves_dragged` — in every run of the page, what a drop commits is the page's document with
  one rule moved next to the row it was dropped on: the rule held since its drag.  Only URLs are
  routed otherwise that this rule and one it passes both match.
* `organising_keeps_routes` — no organising handler changes a route.
-/

set_option autoImplicit false

namespace LinkPilot.RulesPage

open Interleaving
open Learning (withRules upsert_of_fresh firstMatch_withRules sameRoute_of_first)
open RuleEditor (isJsSpace)

/-! ## Drag and drop -/

/-- What the handlers read: the document, the filter and `draggedIdRef`. -/
structure Page where
  doc : ConfigDocument
  filter : String
  dragged : Option RuleId

namespace Page

/-- `visibleRules`. -/
def visibleRules (p : Page) : List Rule :=
  p.doc.rules.filter fun r =>
    if p.filter = "all" then true
    else if p.filter = "ungrouped" then r.workspaceId.getD "" = ""
    else r.workspaceId = some p.filter

/-- A row is shown for the rule. -/
def Shows (p : Page) (id : RuleId) : Prop := id ∈ p.visibleRules.map Rule.id

instance (p : Page) (id : RuleId) : Decidable (p.Shows id) :=
  inferInstanceAs (Decidable (id ∈ p.visibleRules.map Rule.id))

end Page

/-- `reordered` in `onDrop`; `none` where the dragged rule is gone. -/
def dropOrder (ids : List RuleId) (source target : RuleId) (after : Bool) : Option (List RuleId) :=
  if source ∈ ids then
    let reordered := ids.eraseIdx (ids.idxOf source)
    let insertAt := reordered.idxOf target
    some (reordered.insertIdx (if after then insertAt + 1 else insertAt) source)
  else none

/-- `onDrop` of the row of `target`, with the pointer in its lower half or not: the ids that it hands
to `commitReorder`. -/
def Page.onDrop (p : Page) (target : RuleId) (after : Bool) : Option (List RuleId) :=
  match p.dragged with
  | none => none
  | some source =>
    if source = target then none else dropOrder (p.doc.rules.map Rule.id) source target after

inductive Event where
  /-- `refresh` has read the document. -/
  | refresh (doc : ConfigDocument)
  | setFilter (filter : String)
  | dragStart (id : RuleId)
  | dragEnd
  | drop (target : RuleId) (after : Bool)

/-- A handler of the page.  All five of a row's are there only while the row is shown. -/
def step (p : Page) : Event → Option Page
  | .refresh doc => some { p with doc := doc }
  | .setFilter filter => some { p with filter := filter }
  | .dragStart id =>
    if p.Shows id then
      some (if p.filter = "all" then { p with dragged := some id } else p)
    else none
  | .dragEnd => some p
  | .drop target _ => if p.Shows target then some { p with dragged := none } else none

/-! ### One element moved -/

section Lists

variable {α : Type} {l l' : List α} {x : α} {i j : Nat}

theorem insertIdx_append (a b : List α) (x : α) :
    (a ++ b).insertIdx a.length x = a ++ x :: b := by
  induction a with
  | nil => rfl
  | cons c a ih => simp [ih]

/-- Element `x` comes before element `y`. -/
def Before (l : List α) (x y : α) : Prop := [x, y].Sublist l

/-- The two come in one order in the first list and in the other in the second. -/
def Passes (l l' : List α) (x y : α) : Prop :=
  Before l x y ∧ Before l' y x ∨ Before l y x ∧ Before l' x y

/-- A list cut at two places. -/
theorem exists_cuts {e : List α} (hij : i ≤ j) (hj : j ≤ e.length) :
    ∃ a b c : List α, e = a ++ (b ++ c) ∧ a.length = i ∧ (a ++ b).length = j := by
  refine ⟨e.take i, (e.drop i).take (j - i), (e.drop i).drop (j - i), ?_, ?_, ?_⟩
  · rw [List.take_append_drop, List.take_append_drop]
  · simp
    omega
  · simp
    omega

/-- A move goes down, or up, over the elements `b`. -/
theorem moved_split (h : Moved l l' x i j) : ∃ a b c : List α,
    l = a ++ x :: (b ++ c) ∧ l' = a ++ (b ++ x :: c) ∨
      l = a ++ (b ++ x :: c) ∧ l' = a ++ x :: (b ++ c) := by
  have hl := h.insertIdx
  have hl' := h.symm.insertIdx
  have herase := h.2.2
  have hi := (List.getElem?_eq_some_iff.mp h.1).1
  have hj := (List.getElem?_eq_some_iff.mp h.2.1).1
  have hleni := List.length_eraseIdx_of_lt hi
  have hlenj := List.length_eraseIdx_of_lt hj
  rw [herase] at hl hlenj
  generalize l.eraseIdx i = e at hl hl' hleni hlenj
  rcases Nat.le_total i j with hij | hji
  · obtain ⟨a, b, c, rfl, rfl, rfl⟩ := exists_cuts (e := e) hij (by omega)
    refine ⟨a, b, c, .inl ⟨?_, ?_⟩⟩
    · rw [← hl, insertIdx_append]
    · rw [← hl', ← List.append_assoc, insertIdx_append, List.append_assoc]
  · obtain ⟨a, b, c, rfl, rfl, rfl⟩ := exists_cuts (e := e) hji (by omega)
    refine ⟨a, b, c, .inr ⟨?_, ?_⟩⟩
    · rw [← hl, ← List.append_assoc, insertIdx_append, List.append_assoc]
    · rw [← hl', insertIdx_append]

theorem before_append {a b : List α} {y : α} (h : y ∈ b) (c : List α) :
    Before (a ++ x :: (b ++ c)) x y := by
  have hy : [y].Sublist (b ++ c) := List.singleton_sublist.mpr (List.mem_append_left c h)
  exact (hy.cons_cons x).trans (List.sublist_append_right a _)

theorem before_append_last {a b : List α} {y : α} (h : y ∈ b) (c : List α) :
    Before (a ++ (b ++ x :: c)) y x := by
  have hx : [x].Sublist (x :: c) := (List.nil_sublist c).cons_cons x
  have hy : ([y] ++ [x]).Sublist (b ++ x :: c) := (List.singleton_sublist.mpr h).append hx
  exact hy.trans (List.sublist_append_right a _)

/-- A filter sees the move only where it keeps the element and one that it passes. -/
theorem filter_of_moved {p : α → Bool} (h : Moved l l' x i j)
    (hp : p x = true → ∀ y, Passes l l' x y → p y = false) : l'.filter p = l.filter p := by
  obtain ⟨a, b, c, hsplit⟩ := moved_split h
  have hover : p x = true → b.filter p = [] := by
    intro hx
    rw [List.filter_eq_nil_iff]
    intro y hy
    have hpasses : Passes l l' x y := by
      rcases hsplit with ⟨rfl, rfl⟩ | ⟨rfl, rfl⟩
      · exact .inl ⟨before_append hy c, before_append_last hy c⟩
      · exact .inr ⟨before_append_last hy c, before_append hy c⟩
    simp [hp hx y hpasses]
  rcases hsplit with ⟨rfl, rfl⟩ | ⟨rfl, rfl⟩
  · cases hx : p x with
    | false => simp [hx]
    | true => simp [hx, hover hx]
  · cases hx : p x with
    | false => simp [hx]
    | true => simp [hx, hover hx]

end Lists

/-! ### What a drop commits -/

section Drop

variable {doc : ConfigDocument} {r t : Rule} {u v pre post rs : List Rule} {after : Bool}

theorem byId_eq (hunique : (doc.rules.map Rule.id).Nodup) (hr : r ∈ doc.rules) :
    byId doc.rules r.id = some r := by
  have hsome : (byId doc.rules r.id).isSome = true := by
    unfold byId
    rw [List.find?_isSome]
    exact ⟨r, List.mem_reverse.mpr hr, by simp⟩
  obtain ⟨q, hq⟩ := Option.isSome_iff_exists.mp hsome
  have hmem : q ∈ doc.rules := List.mem_reverse.mp (List.mem_of_find?_eq_some hq)
  have hid : q.id = r.id := by simpa using List.find?_some hq
  rw [hq, eq_of_id hunique hr hmem hid]

theorem mapM_byId (hunique : (doc.rules.map Rule.id).Nodup) (h : ∀ r ∈ rs, r ∈ doc.rules) :
    (rs.map Rule.id).mapM (byId doc.rules) = some rs := by
  induction rs with
  | nil => rfl
  | cons r rs ih =>
    obtain ⟨hr, hrs⟩ := List.forall_mem_cons.mp h
    simp [byId_eq hunique hr, ih hrs]

theorem commitReorder_eq (hunique : (doc.rules.map Rule.id).Nodup) (h : ∀ r ∈ rs, r ∈ doc.rules) :
    commitReorder (rs.map Rule.id) doc = .ok { doc with rules := rs } := by
  unfold commitReorder
  rw [mapM_byId hunique h]

/-- The rule next to the row that it was dropped on. -/
def nextTo (r t : Rule) (after : Bool) : List Rule := if after then [t, r] else [r, t]

theorem dropOrder_eq (hsource : r.id ∉ u.map Rule.id) (htarget : t.id ∉ pre.map Rule.id)
    (h : u ++ v = pre ++ t :: post) :
    dropOrder ((u ++ r :: v).map Rule.id) r.id t.id after =
      some ((pre ++ nextTo r t after ++ post).map Rule.id) := by
  have hidx : ((u ++ r :: v).map Rule.id).idxOf r.id = (u.map Rule.id).length := by
    rw [List.map_append, List.idxOf_append_of_notMem hsource, List.map_cons, List.idxOf_cons_self,
      Nat.add_zero]
  have herase : ((u ++ r :: v).map Rule.id).eraseIdx (u.map Rule.id).length =
      (pre ++ t :: post).map Rule.id := by
    rw [← h]
    simp [List.eraseIdx_append_of_length_le]
  have hinsert : ((pre ++ t :: post).map Rule.id).idxOf t.id = (pre.map Rule.id).length := by
    rw [List.map_append, List.idxOf_append_of_notMem htarget, List.map_cons, List.idxOf_cons_self,
      Nat.add_zero]
  unfold dropOrder
  rw [if_pos (by simp)]
  simp only [hidx, herase, hinsert]
  cases after with
  | false =>
    have happend := insertIdx_append (pre.map Rule.id) ((t :: post).map Rule.id) r.id
    simpa [nextTo] using happend
  | true =>
    have happend := insertIdx_append ((pre ++ [t]).map Rule.id) (post.map Rule.id) r.id
    simpa [nextTo] using happend

/-- The rule has moved from between the one pair of lists to next to the row. -/
theorem moved_nextTo (h : u ++ v = pre ++ t :: post) :
    ∃ i j, Moved (u ++ r :: v) (pre ++ nextTo r t after ++ post) r i j := by
  cases after with
  | false =>
    refine ⟨u.length, pre.length, ?_, ?_, ?_⟩
    · simp
    · simp [nextTo]
    · simp [nextTo, List.eraseIdx_append_of_length_le, h]
  | true =>
    refine ⟨u.length, (pre ++ [t]).length, ?_, ?_, ?_⟩
    · simp
    · simp [nextTo]
    · simp [nextTo, List.eraseIdx_append_of_length_le, h]

/-- What a drop does to the document: `r` has moved next to `t`. -/
structure Dropped (doc doc' : ConfigDocument) (r t : Rule) (after : Bool) : Prop where
  frame : doc' = { doc with rules := doc'.rules }
  moved : ∃ i j, Moved doc.rules doc'.rules r i j
  next : nextTo r t after <:+: doc'.rules
  /-- The URLs that `r` does not match, or none of the rules that it has passed. -/
  routes : ∀ (urlParse : String → Option Url) (ctx : RoutingContext),
    (fires urlParse doc ctx r = true →
      ∀ q, Passes doc.rules doc'.rules r q → fires urlParse doc ctx q = false) →
    SameRoute urlParse ctx doc doc'

theorem dropped_of_onDrop {p : Page} {target : RuleId} {ids : List RuleId}
    (hunique : (p.doc.rules.map Rule.id).Nodup) (ht : t ∈ p.doc.rules) (htarget : t.id = target)
    (h : p.onDrop target after = some ids) :
    ∃ r ∈ p.doc.rules, p.dragged = some r.id ∧
      ∃ doc', commitReorder ids p.doc = .ok doc' ∧ Dropped p.doc doc' r t after := by
  subst htarget
  unfold Page.onDrop at h
  split at h
  · cases h
  · rename_i source hsource
    split at h
    · cases h
    · rename_i hne
      have hmem : source ∈ p.doc.rules.map Rule.id := by
        by_contra hgone
        simp [dropOrder, hgone] at h
      obtain ⟨r, hr, rfl⟩ := List.mem_map.mp hmem
      obtain ⟨u, v, huv⟩ := List.append_of_mem hr
      have hnotu : r.id ∉ u.map Rule.id := by
        rw [huv, List.map_append, List.map_cons, List.nodup_middle, List.nodup_cons,
          List.mem_append, not_or] at hunique
        exact hunique.1.1
      have hrest : t ∈ u ++ v := by
        rw [huv, List.mem_append, List.mem_cons] at ht
        rcases ht with htu | rfl | htv
        · exact List.mem_append_left v htu
        · exact absurd rfl hne
        · exact List.mem_append_right u htv
      obtain ⟨pre, post, hsplit⟩ := List.append_of_mem hrest
      have hnotpre : t.id ∉ pre.map Rule.id := by
        have hsub : ((u ++ v).map Rule.id).Nodup := by
          rw [huv, List.map_append, List.map_cons, List.nodup_middle] at hunique
          rw [List.map_append]
          exact hunique.of_cons
        rw [hsplit, List.map_append, List.map_cons, List.nodup_middle, List.nodup_cons,
          List.mem_append, not_or] at hsub
        exact hsub.1.1
      rw [huv, dropOrder_eq hnotu hnotpre hsplit, Option.some.injEq] at h
      obtain ⟨i, j, hmoved⟩ : ∃ i j, Moved p.doc.rules (pre ++ nextTo r t after ++ post) r i j := by
        rw [huv]
        exact moved_nextTo hsplit
      have hmem' : ∀ q ∈ pre ++ nextTo r t after ++ post, q ∈ p.doc.rules := fun q hq =>
        hmoved.perm.mem_iff.mp hq
      refine ⟨r, hr, hsource, { p.doc with rules := pre ++ nextTo r t after ++ post }, ?_, rfl,
        ⟨i, j, hmoved⟩, ⟨pre, post, rfl⟩, ?_⟩
      · rw [← h]
        exact commitReorder_eq hunique hmem'
      · intro urlParse ctx hpassed
        exact sameRoute_of_rules (filter_of_moved hmoved hpassed)

end Drop

/-! ### Runs -/

section Runs

variable {p₀ p q p' : Page} {es : List Event} {e : Event} {id : RuleId}

/-- A step that leaves the rule in the drag reference. -/
def Holds (id : RuleId) (p : Page) : Event → Prop
  | .dragStart id' => p.filter = "all" → id' = id
  | .drop _ _ => False
  | _ => True

/-- The drag of the rule began in the run, and the rule has been held since. -/
def DraggedIn (p₀ : Page) (es : List Event) (id : RuleId) (p : Page) : Prop :=
  ∃ (before since : List Event) (q : Page), es = before ++ .dragStart id :: since ∧
    run step p₀ before = some q ∧ q.filter = "all" ∧ q.Shows id ∧
    Exec step (Holds id) { q with dragged := some id } since p

theorem DraggedIn.extend (h : DraggedIn p₀ es id q) (hholds : Holds id q e)
    (hstep : step q e = some p) : DraggedIn p₀ (es ++ [e]) id p := by
  obtain ⟨before, since, s, rfl, hrun, hall, hshows, hexec⟩ := h
  exact ⟨before, since ++ [e], s, by simp, hrun, hall, hshows,
    hexec.append (.cons hholds hstep (.nil p))⟩

theorem draggedIn_of_run (h0 : p₀.dragged = none) (h : run step p₀ es = some p)
    (hid : p.dragged = some id) : DraggedIn p₀ es id p := by
  induction es using List.reverseRecOn generalizing p with
  | nil =>
    cases h
    rw [h0] at hid
    cases hid
  | append_singleton es e ih =>
    rw [run_append, Option.bind_eq_some_iff] at h
    obtain ⟨q, hq, hlast⟩ := h
    have hstep : step q e = some p := by
      simp only [run] at hlast
      split at hlast
      · cases hlast
      · rename_i hs
        rw [hs, hlast]
    cases e with
    | refresh doc =>
      cases hstep
      exact (ih hq hid).extend trivial rfl
    | setFilter filter =>
      cases hstep
      exact (ih hq hid).extend trivial rfl
    | dragEnd =>
      cases hstep
      exact (ih hq hid).extend trivial rfl
    | dragStart id' =>
      have hstep' := hstep
      simp only [step] at hstep'
      split at hstep'
      · rename_i hshows
        split at hstep'
        · rename_i hall
          cases hstep'
          cases hid
          exact ⟨es, [], q, rfl, hq, hall, hshows, .nil _⟩
        · rename_i hfiltered
          cases hstep'
          exact (ih hq hid).extend (fun hall => absurd hall hfiltered) hstep
      · cases hstep'
    | drop target after =>
      simp only [step] at hstep
      split at hstep
      · cases hstep
        cases hid
      · cases hstep

theorem DraggedIn.dragged (h : DraggedIn p₀ es id p) : p.dragged = some id := by
  obtain ⟨before, since, q, -, -, -, -, hexec⟩ := h
  refine hexec.invariant (I := fun s => s.dragged = some id) (fun s e s' hs hholds hstep => ?_) rfl
  cases e with
  | refresh doc =>
    cases hstep
    exact hs
  | setFilter filter =>
    cases hstep
    exact hs
  | dragEnd =>
    cases hstep
    exact hs
  | dragStart id' =>
    simp only [step] at hstep
    split at hstep
    · split at hstep
      · rename_i hall
        cases hstep
        rw [hholds hall]
      · cases hstep
        exact hs
    · cases hstep
  | drop target after => exact hholds.elim

/-- **Drag to reorder**, in any run of the page. -/
theorem drop_moves_dragged {target : RuleId} {after : Bool} (h0 : p₀.dragged = none)
    (hrun : run step p₀ es = some p) (hdrop : step p (.drop target after) = some p')
    (hunique : (p.doc.rules.map Rule.id).Nodup) :
    (∀ ids, p.onDrop target after = some ids →
      ∃ r ∈ p.doc.rules, ∃ t ∈ p.doc.rules, t.id = target ∧ DraggedIn p₀ es r.id p ∧
        ∃ doc', commitReorder ids p.doc = .ok doc' ∧ Dropped p.doc doc' r t after) ∧
      (p.onDrop target after = none →
        ∀ r ∈ p.doc.rules, DraggedIn p₀ es r.id p → r.id = target) := by
  constructor
  · intro ids hcommit
    have hshows : p.Shows target := by
      by_contra hnot
      simp [step, hnot] at hdrop
    obtain ⟨t, ht, htarget⟩ := List.mem_map.mp hshows
    obtain ⟨r, hr, hdragged, doc', hdoc', hdropped⟩ :=
      dropped_of_onDrop hunique (List.mem_of_mem_filter ht) htarget hcommit
    exact ⟨r, hr, t, List.mem_of_mem_filter ht, htarget, draggedIn_of_run h0 hrun hdragged, doc',
      hdoc', hdropped⟩
  · intro hnone r hr hdrag
    by_contra hne
    simp [Page.onDrop, hdrag.dragged, hne, dropOrder, List.mem_map_of_mem hr] at hnone

/-- An Ask for one host, made by the compiler, and a block of everything else. -/
def askThenBlock : ConfigDocument :=
  { ConfigDocument.withDefault (.new "chrome") with
    rules := [⟨1#128, true, .urlHost "github.com", .ask, .tsCompiled, none, none⟩,
      ⟨2#128, true, .always, .block, .gui, none, none⟩] }

/-- The drag of the first rule ended elsewhere; what is dropped on the second row moves it all the
same. -/
theorem drop_moves_dragged_ended :
    run step ⟨askThenBlock, "all", none⟩ [.dragStart 1#128, .dragEnd] =
        some ⟨askThenBlock, "all", some 1#128⟩ ∧
      ∃ (r t : Rule) (doc' : ConfigDocument), t.id = 2#128 ∧
        commitReorder [2#128, 1#128] askThenBlock = .ok doc' ∧ Dropped askThenBlock doc' r t true := by
  have hrun : run step ⟨askThenBlock, "all", none⟩ [.dragStart 1#128, .dragEnd] =
      some ⟨askThenBlock, "all", some 1#128⟩ := rfl
  have hdrop : step ⟨askThenBlock, "all", some 1#128⟩ (.drop 2#128 true) =
      some ⟨askThenBlock, "all", none⟩ := rfl
  obtain ⟨r, -, t, -, ht, -, doc', hdoc', hdropped⟩ :=
    (drop_moves_dragged rfl hrun hdrop (by decide)).1 [2#128, 1#128] rfl
  exact ⟨hrun, r, t, doc', ht, hdoc', hdropped⟩

end Runs

/-! ## Organising rules -/

/-- `trim`. -/
def trim (s : String) : String := .ofList ((s.toList.dropWhile isJsSpace).rdropWhile isJsSpace)

/-- `moveRuleToWorkspace`. -/
def moveRuleToWorkspace (rule : Rule) (workspaceId : Option String) : Option GuiCommand :=
  if rule.workspaceId = workspaceId then none
  else some (.ruleUpsert { rule with workspaceId := workspaceId })

/-- `commitCreate`, with the id it draws. -/
def commitCreate (draftName : String) (id : String) : Option GuiCommand :=
  if trim draftName = "" then none
  else some (.workspaceUpsert ⟨id, trim draftName, none, true⟩)

/-- `commitRename`. -/
def commitRename (ws : Workspace) (renameValue : String) : Option GuiCommand :=
  if trim renameValue = "" ∨ trim renameValue = ws.displayName then none
  else some (.workspaceUpsert { ws with displayName := trim renameValue })

/-- `remove`. -/
def remove (ws : Workspace) : Option GuiCommand := some (.workspaceDelete ws.id)

/-- A handler that organises rules, and the row it belongs to. -/
inductive Organise where
  | copyRuleToGui (rule : Rule) (id : RuleId) (note : String)
  | moveRuleToWorkspace (rule : Rule) (workspaceId : Option String)
  | commitCreate (draftName : String) (id : String)
  | commitRename (ws : Workspace) (renameValue : String)
  | remove (ws : Workspace)

/-- The command that it sends. -/
def Organise.command : Organise → Option GuiCommand
  | .copyRuleToGui rule id note =>
    (LinkPilot.copyRuleToGui (fun _ => note) id rule).map .ruleUpsert
  | .moveRuleToWorkspace rule workspaceId => RulesPage.moveRuleToWorkspace rule workspaceId
  | .commitCreate draftName id => RulesPage.commitCreate draftName id
  | .commitRename ws renameValue => RulesPage.commitRename ws renameValue
  | .remove ws => RulesPage.remove ws

/-- The row is as in the document and the drawn id is new.  A rule moves between workspaces that are
both on or both off, and a workspace that is removed is on. -/
def Organise.Fits (doc : ConfigDocument) : Organise → Prop
  | .copyRuleToGui rule id _ => rule ∈ doc.rules ∧ id ∉ doc.rules.map Rule.id
  | .moveRuleToWorkspace rule workspaceId =>
    rule ∈ doc.rules ∧ workspaceEnabled doc workspaceId = workspaceEnabled doc rule.workspaceId
  | .commitCreate _ id => id ∉ doc.workspaces.map Workspace.id
  | .commitRename ws _ => ws ∈ doc.workspaces
  | .remove ws => ws ∈ doc.workspaces ∧ ws.enabled = true

section Routes

variable {urlParse : String → Option Url} {ctx : RoutingContext} {doc doc' : ConfigDocument}
  {r r' : Rule} {w : Workspace}

/-- In the place of the rule, the other fires when it does and decides as it does. -/
structure Stands (urlParse : String → Option Url) (ctx : RoutingContext) (doc doc' : ConfigDocument)
    (r r' : Rule) : Prop where
  fires : fires urlParse doc' ctx r' = LinkPilot.fires urlParse doc ctx r
  explain : explainRule urlParse ctx r' = explainRule urlParse ctx r
  isAsk : r'.action.isAsk = r.action.isAsk

theorem evaluateRules_stands {pressed : Bool} {rules rules' : List Rule}
    (hdefault : doc'.defaultTarget = doc.defaultTarget)
    (h : List.Forall₂ (Stands urlParse ctx doc doc') rules rules') (skipped : Option Explained) :
    evaluateRules urlParse doc' ctx pressed rules' skipped =
      evaluateRules urlParse doc ctx pressed rules skipped := by
  induction h generalizing skipped with
  | nil => cases skipped <;> simp only [evaluateRules, hdefault]
  | cons hr _ ih =>
    rw [evaluateRules_cons, evaluateRules_cons, hr.fires, hr.explain, hr.isAsk]
    simp only [ih]

/-- Rule lists that stand for each other route alike. -/
theorem sameRoute_of_stands
    (hsmart : doc'.settings.smartRoutingEnabled = doc.settings.smartRoutingEnabled)
    (hdefault : doc'.defaultTarget = doc.defaultTarget)
    (h : List.Forall₂ (Stands urlParse ctx doc doc') doc.rules doc'.rules) :
    SameRoute urlParse ctx doc doc' := by
  intro pressed
  unfold evaluateExplainedWithAskShortcut
  rw [hsmart, hdefault]
  split
  · rfl
  · exact evaluateRules_stands hdefault h none

theorem forall₂_upsert {α κ : Type} [DecidableEq κ] {R : α → α → Prop} {key : α → κ} {x : α}
    {l : List α} (hmem : ∃ y ∈ l, key y = key x) (hkey : ∀ y ∈ l, key y = key x → R y x)
    (hrefl : ∀ y ∈ l, R y y) : List.Forall₂ R l (upsert key x l) := by
  induction l with
  | nil => simp at hmem
  | cons y l ih =>
    obtain ⟨hy, hl⟩ := List.forall_mem_cons.mp hrefl
    unfold upsert
    split
    · rename_i hyx
      exact .cons (hkey y List.mem_cons_self hyx) (List.forall₂_same.mpr hl)
    · rename_i hyx
      obtain ⟨z, hz, hzx⟩ := hmem
      have hzl : z ∈ l := (List.mem_cons.mp hz).resolve_left fun heq => hyx (heq ▸ hzx)
      exact .cons hy (ih ⟨z, hzl, hzx⟩ (fun q hq => hkey q (List.mem_cons_of_mem y hq)) hl)

/-- An upsert is found under its key, and everything else as before. -/
theorem find?_upsert {α κ : Type} [DecidableEq κ] {key : α → κ} {x : α} {l : List α} (k : κ) :
    (upsert key x l).find? (fun y => key y == k) =
      if key x = k then some x else l.find? fun y => key y == k := by
  induction l with
  | nil =>
    by_cases hx : key x = k
    · simp [upsert, hx]
    · simp [upsert, hx]
  | cons y l ih =>
    unfold upsert
    split
    · rename_i hy
      by_cases hx : key x = k
      · simp [hx]
      · simp [hx, hy]
    · rename_i hy
      rw [List.find?_cons, ih, List.find?_cons]
      cases hyk : key y == k with
      | true =>
        have hx : key x ≠ k := fun hx => hy ((beq_iff_eq.mp hyk).trans hx.symm)
        simp [hx]
      | false => rfl

theorem workspaceEnabled_upsert (w : Workspace) (ref : Option String) :
    workspaceEnabled (workspaceUpsert w doc) ref =
      if ref = some w.id then w.enabled else workspaceEnabled doc ref := by
  cases ref with
  | none => rfl
  | some wsId =>
    simp only [workspaceEnabled, workspaceUpsert, find?_upsert, Option.some.injEq]
    by_cases hid : w.id = wsId
    · simp [hid]
    · simp [hid, Ne.symm hid]

/-- A workspace that has the switch of the one with its id, or is on where there was none. -/
theorem sameRoute_workspaceUpsert (h : w.enabled = workspaceEnabled doc (some w.id)) :
    SameRoute urlParse ctx doc (workspaceUpsert w doc) := by
  refine sameRoute_of_filter rfl rfl (List.filter_congr fun r _ => ?_)
  have hsame : workspaceEnabled (workspaceUpsert w doc) r.workspaceId =
      workspaceEnabled doc r.workspaceId := by
    rw [workspaceEnabled_upsert]
    split
    · rename_i href
      rw [href, h]
    · rfl
  simp only [fires, eligible, hsame]

theorem workspaceEnabled_of_mem (hunique : (doc.workspaces.map Workspace.id).Nodup)
    (hw : w ∈ doc.workspaces) : workspaceEnabled doc (some w.id) = w.enabled := by
  have hsome : (doc.workspaces.find? fun v => v.id == w.id).isSome = true :=
    List.find?_isSome.mpr ⟨w, hw, by simp⟩
  obtain ⟨v, hv⟩ := Option.isSome_iff_exists.mp hsome
  have hid : v.id = w.id := by simpa using List.find?_some hv
  rw [workspaceEnabled, hv, eq_of_workspaceId hunique hw (List.mem_of_find?_eq_some hv) hid]
  rfl

theorem workspaceEnabled_of_fresh {id : String} (h : id ∉ doc.workspaces.map Workspace.id) :
    workspaceEnabled doc (some id) = true := by
  have hnone : (doc.workspaces.find? fun w => w.id == id) = none := by
    rw [List.find?_eq_none]
    intro w hw hid
    exact h (List.mem_map.mpr ⟨w, hw, by simpa using hid⟩)
  rw [workspaceEnabled, hnone]
  rfl

/-- A rule in the place of one that it equals but for the workspace, with the same switch. -/
theorem sameRoute_regroup (hunique : (doc.rules.map Rule.id).Nodup) (hr : r ∈ doc.rules)
    {workspaceId : Option String}
    (h : workspaceEnabled doc workspaceId = workspaceEnabled doc r.workspaceId) :
    SameRoute urlParse ctx doc (ruleUpsert { r with workspaceId := workspaceId } doc) := by
  refine sameRoute_of_stands rfl rfl ?_
  refine forall₂_upsert ⟨r, hr, rfl⟩ (fun q hq hid => ?_) fun q _ => ⟨rfl, rfl, rfl⟩
  rw [eq_of_id hunique hr hq hid]
  refine ⟨?_, rfl, rfl⟩
  show (r.enabled && workspaceEnabled doc workspaceId && _) = _
  rw [h]
  rfl

/-- A copy of a rule behind all others. -/
theorem sameRoute_copy (hr : r ∈ doc.rules) {copy : Rule} (hfresh : copy.id ∉ doc.rules.map Rule.id)
    (haction : copy.action = r.action)
    (hfires : fires urlParse doc ctx copy = fires urlParse doc ctx r) :
    SameRoute urlParse ctx doc (ruleUpsert copy doc) := by
  have hdoc : ruleUpsert copy doc = withRules [copy] doc := by
    unfold ruleUpsert withRules
    rw [upsert_of_fresh hfresh]
  rw [hdoc]
  cases hf : fires urlParse doc ctx r with
  | false =>
    refine sameRoute_of_rules ?_
    rw [List.filter_append, List.filter_singleton, hfires, hf]
    simp
  | true =>
    -- the rule itself comes first, whether an Ask or not
    have hfirst : (firstMatch urlParse doc ctx).isSome = true :=
      List.find?_isSome.mpr ⟨r, hr, hf⟩
    refine sameRoute_of_first rfl rfl ?_ ?_
    · rw [firstMatch_withRules]
      exact Option.or_of_isSome hfirst
    · show (doc.rules ++ [copy]).find? (fun q => fires urlParse doc ctx q && !q.action.isAsk) = _
      rw [List.find?_append]
      cases hask : r.action.isAsk with
      | false =>
        refine Option.or_of_isSome (List.find?_isSome.mpr ⟨r, hr, ?_⟩)
        simp [hf, hask]
      | true =>
        have hnone : [copy].find? (fun q => fires urlParse doc ctx q && !q.action.isAsk) = none := by
          simp [haction, hask]
        rw [hnone, Option.or_none]
        rfl

theorem sameRoute_trans {doc'' : ConfigDocument} (h : SameRoute urlParse ctx doc doc')
    (h' : SameRoute urlParse ctx doc' doc'') : SameRoute urlParse ctx doc doc'' :=
  fun pressed => (h' pressed).trans (h pressed)

/-- The rules of a removed workspace that was on stay on without it. -/
theorem sameRoute_remove (hunique : (doc.workspaces.map Workspace.id).Nodup)
    (hw : w ∈ doc.workspaces) (hon : w.enabled = true) :
    SameRoute urlParse ctx doc (workspaceDelete w.id doc) := by
  refine sameRoute_trans ?_ ((deletes hunique).route ctx)
  refine sameRoute_of_stands rfl rfl ?_
  rw [List.forall₂_map_right_iff, List.forall₂_same]
  intro r _
  unfold ungroup
  split
  · rename_i hgroup
    refine ⟨?_, rfl, rfl⟩
    have hswitch : workspaceEnabled doc r.workspaceId = true := by
      rw [hgroup, workspaceEnabled_of_mem hunique hw, hon]
    show (r.enabled && true && _) = (r.enabled && workspaceEnabled doc r.workspaceId && _)
    rw [hswitch]
  · exact ⟨rfl, rfl, rfl⟩

end Routes

/-- **Organising** changes no route. -/
theorem organising_keeps_routes {doc : ConfigDocument} {o : Organise} {c : GuiCommand}
    (hrules : (doc.rules.map Rule.id).Nodup) (hworkspaces : (doc.workspaces.map Workspace.id).Nodup)
    (hfits : o.Fits doc) (hc : o.command = some c) :
    ∃ doc', c.apply doc = .ok doc' ∧
      ∀ (urlParse : String → Option Url) (ctx : RoutingContext), SameRoute urlParse ctx doc doc' := by
  cases o with
  | copyRuleToGui rule id note =>
    obtain ⟨hr, hfresh⟩ := hfits
    simp only [Organise.command, LinkPilot.copyRuleToGui] at hc
    split at hc
    · cases hc
    · cases hc
      exact ⟨_, rfl, fun urlParse ctx => sameRoute_copy hr hfresh rfl rfl⟩
  | moveRuleToWorkspace rule workspaceId =>
    obtain ⟨hr, hswitch⟩ := hfits
    simp only [Organise.command, moveRuleToWorkspace] at hc
    split at hc
    · cases hc
    · cases hc
      exact ⟨_, rfl, fun urlParse ctx => sameRoute_regroup hrules hr hswitch⟩
  | commitCreate draftName id =>
    simp only [Organise.command, commitCreate] at hc
    split at hc
    · cases hc
    · cases hc
      exact ⟨_, rfl, fun urlParse ctx =>
        sameRoute_workspaceUpsert (workspaceEnabled_of_fresh hfits).symm⟩
  | commitRename ws renameValue =>
    simp only [Organise.command, commitRename] at hc
    split at hc
    · cases hc
    · cases hc
      exact ⟨_, rfl, fun urlParse ctx =>
        sameRoute_workspaceUpsert (workspaceEnabled_of_mem hworkspaces hfits).symm⟩
  | remove ws =>
    obtain ⟨hw, hon⟩ := hfits
    cases hc
    exact ⟨_, rfl, fun urlParse ctx => sameRoute_remove hworkspaces hw hon⟩

/-- The Ask of the compiler is copied. -/
theorem organising_keeps_routes_copy :
    ∃ doc', GuiCommand.apply askThenBlock (.ruleUpsert
        ⟨3#128, true, .urlHost "github.com", .ask, .gui, some "Copied", none⟩) = .ok doc' ∧
      ∀ (urlParse : String → Option Url) (ctx : RoutingContext),
        SameRoute urlParse ctx askThenBlock doc' := by
  have hfits : (Organise.copyRuleToGui ⟨1#128, true, .urlHost "github.com", .ask, .tsCompiled, none,
      none⟩ 3#128 "Copied").Fits askThenBlock := ⟨List.mem_cons_self, by decide⟩
  exact organising_keeps_routes (by decide) (by decide) hfits rfl

end LinkPilot.RulesPage
