import LinkPilot.RuleEdits

/-!
# The workspace switch

The switch of a workspace (`workspace_set_enabled`, `lpt workspaces enable / disable`) and its
deletion (`workspace_delete`, `lpt workspaces delete`), by what the router makes of the document
afterwards.

Principal results:

* `fires_setEnabled` — with a workspace off, the rules that fire are those that fire with it on and
  are not in it.
* `workspace_gate` — a workspace that is off counts as one without rules, turning it on again brings
  everything back, and its deletion ungroups its rules and touches nothing else.
-/

set_option autoImplicit false

namespace LinkPilot

/-! ## The first element with a key -/

section UpdateFirst

variable {α κ : Type} [DecidableEq κ] {key : α → κ} {k : κ} {f : α → α} {l l' : List α}

theorem find?_updateFirst (h : updateFirst key k f l = some l') (hf : ∀ y, key (f y) = key y)
    (id : κ) :
    (l'.find? fun y => key y == id) =
      if id = k then (l.find? fun y => key y == k).map f else l.find? fun y => key y == id := by
  induction l generalizing l' with
  | nil => cases h
  | cons y l ih =>
    unfold updateFirst at h
    split at h
    · rename_i hy
      cases h
      by_cases hid : id = k
      · simp [hf, hy, hid]
      · have hne : (k == id) = false := by simpa using fun hk : k = id => hid hk.symm
        simp [hf, hy, hid, hne]
    · rename_i hy
      obtain ⟨l'', hl'', rfl⟩ := Option.map_eq_some_iff.mp h
      have hk : (key y == k) = false := by simpa using hy
      rw [List.find?_cons, ih hl'', List.find?_cons, List.find?_cons, hk]
      by_cases hid : id = k
      · simp [hid, hk]
      · simp [hid]

theorem updateFirst_updateFirst {g : α → α} (h : updateFirst key k f l = some l')
    (hf : ∀ y, key (f y) = key y) :
    updateFirst key k g l' = updateFirst key k (fun y => g (f y)) l := by
  induction l generalizing l' with
  | nil => cases h
  | cons y l ih =>
    unfold updateFirst at h
    split at h
    · rename_i hy
      cases h
      simp [updateFirst, hf, hy]
    · rename_i hy
      obtain ⟨l'', hl'', rfl⟩ := Option.map_eq_some_iff.mp h
      simp [updateFirst, hy, ih hl'']

theorem updateFirst_isSome (h : ∃ y ∈ l, key y = k) : ∃ l', updateFirst key k f l = some l' := by
  obtain ⟨l', hl', -⟩ := updateFirst_of_mem (p := fun _ => false) (f := f) h (by simp)
  exact ⟨l', hl'⟩

theorem updateFirst_self (hmem : ∃ y ∈ l, key y = k) (h : ∀ y ∈ l, key y = k → f y = y) :
    updateFirst key k f l = some l := by
  induction l with
  | nil => simp at hmem
  | cons y l ih =>
    unfold updateFirst
    split
    · rename_i hy
      rw [h y List.mem_cons_self hy]
    · rename_i hy
      obtain ⟨z, hz, hzk⟩ := hmem
      have hzl : z ∈ l := (List.mem_cons.mp hz).resolve_left (by rintro rfl; exact hy hzk)
      rw [ih ⟨z, hzl, hzk⟩ fun w hw => h w (List.mem_cons_of_mem _ hw)]
      rfl

end UpdateFirst

/-! ## The switch -/

section Gate

variable {urlParse : String → Option Url} {ctx : RoutingContext} {doc off on : ConfigDocument}
  {w : Workspace} {id : String} {enabled : Bool}

/-- The `lpt` command does what the GUI command does. -/
theorem workspacesSetEnabled_eq : workspacesSetEnabled = workspaceSetEnabled := rfl

theorem workspaceSetEnabled_eq_ok :
    workspaceSetEnabled id enabled doc = .ok on ↔
      ∃ ws, updateFirst Workspace.id id (fun w => { w with enabled := enabled }) doc.workspaces =
        some ws ∧ on = { doc with workspaces := ws } := by
  unfold workspaceSetEnabled
  cases updateFirst Workspace.id id (fun w => { w with enabled := enabled }) doc.workspaces with
  | none => simp
  | some ws => simp [eq_comm]

/-- The rules of the workspace get its switch; all others keep theirs. -/
theorem workspaceEnabled_setEnabled (hw : ∃ w ∈ doc.workspaces, w.id = id)
    (h : workspaceSetEnabled id enabled doc = .ok on) (ref : Option String) :
    workspaceEnabled on ref = if ref = some id then enabled else workspaceEnabled doc ref := by
  obtain ⟨ws, hws, rfl⟩ := workspaceSetEnabled_eq_ok.mp h
  cases ref with
  | none => rfl
  | some wsId =>
    have hfind := find?_updateFirst hws (fun _ => rfl) wsId
    simp only [workspaceEnabled, hfind, Option.some.injEq]
    by_cases hid : wsId = id
    · obtain ⟨w, hmem, hwid⟩ := hw
      obtain ⟨v, hv⟩ := Option.isSome_iff_exists.mp
        (List.find?_isSome.mpr ⟨w, hmem, by simpa using hwid⟩ :
          (doc.workspaces.find? fun w => w.id == id).isSome = true)
      rw [if_pos hid, if_pos hid, hv]
      rfl
    · rw [if_neg hid, if_neg hid]

/-- With the workspace off, those rules fire that fire with it on and are not in it. -/
theorem fires_setEnabled (hw : ∃ w ∈ doc.workspaces, w.id = id)
    (hoff : workspaceSetEnabled id false doc = .ok off)
    (hon : workspaceSetEnabled id true doc = .ok on) (r : Rule) :
    fires urlParse off ctx r = (fires urlParse on ctx r && decide (r.workspaceId ≠ some id)) := by
  simp only [fires, eligible, workspaceEnabled_setEnabled hw hoff, workspaceEnabled_setEnabled hw hon]
  by_cases hr : r.workspaceId = some id
  · simp [hr]
  · simp [hr]

/-- What a switch does: off, the workspace is one without rules; on again, everything is as it is
with the workspace on. -/
structure Gates (urlParse : String → Option Url) (doc : ConfigDocument) (w : Workspace)
    (setEnabled : String → Bool → ConfigDocument → Except String ConfigDocument)
    (off on : ConfigDocument) : Prop where
  switchOff : setEnabled w.id false doc = .ok off
  switchOn : setEnabled w.id true doc = .ok on
  gate : ∀ ctx, SameRoute urlParse ctx
    { on with rules := on.rules.filter fun r => r.workspaceId ≠ some w.id } off
  rules : off.rules = doc.rules ∧ on.rules = doc.rules
  back : setEnabled w.id true off = .ok on
  restored : w.enabled = true → on = doc

/-- What a deletion leaves: the route of the document with those rules ungrouped, every other rule
in its place, every other workspace, and no rule of the deleted one. -/
structure Deletes (urlParse : String → Option Url) (doc : ConfigDocument) (w : Workspace)
    (after : ConfigDocument) : Prop where
  route : ∀ ctx, SameRoute urlParse ctx { doc with rules := doc.rules.map (ungroup w.id) } after
  frame : after = { doc with rules := after.rules, workspaces := after.workspaces }
  others : ∀ (i : Nat) (r : Rule), doc.rules[i]? = some r → r.workspaceId ≠ some w.id →
    after.rules[i]? = some r
  ungrouped : ∀ (i : Nat) (r : Rule), doc.rules[i]? = some r → r.workspaceId = some w.id →
    after.rules[i]? = some { r with workspaceId := none }
  length : after.rules.length = doc.rules.length
  workspaces : ∀ pre post, doc.workspaces = pre ++ w :: post → after.workspaces = pre ++ post
  noRule : ∀ r ∈ after.rules, r.workspaceId ≠ some w.id

theorem eq_of_workspaceId (hunique : (doc.workspaces.map Workspace.id).Nodup)
    (hw : w ∈ doc.workspaces) {v : Workspace} (hv : v ∈ doc.workspaces) (h : v.id = w.id) : v = w :=
  List.inj_on_of_nodup_map hunique hv hw h

theorem gates (hunique : (doc.workspaces.map Workspace.id).Nodup) (hw : w ∈ doc.workspaces) :
    ∃ off on, Gates urlParse doc w workspaceSetEnabled off on := by
  have hmem : ∃ v ∈ doc.workspaces, v.id = w.id := ⟨w, hw, rfl⟩
  obtain ⟨wsOff, hoff⟩ := updateFirst_isSome (f := fun w => { w with enabled := false }) hmem
  obtain ⟨wsOn, hon⟩ := updateFirst_isSome (f := fun w => { w with enabled := true }) hmem
  have hoff' := workspaceSetEnabled_eq_ok.mpr ⟨wsOff, hoff, rfl⟩
  have hon' := workspaceSetEnabled_eq_ok.mpr ⟨wsOn, hon, rfl⟩
  refine ⟨_, _, hoff', hon', fun ctx => ?_, ⟨rfl, rfl⟩, ?_, fun henabled => ?_⟩
  · refine sameRoute_of_filter rfl rfl ?_
    simp only [List.filter_filter]
    exact List.filter_congr fun r _ => fires_setEnabled hmem hoff' hon' r
  · rw [workspaceSetEnabled_eq_ok]
    exact ⟨wsOn, (updateFirst_updateFirst hoff fun _ => rfl).trans hon, rfl⟩
  · have hself := updateFirst_self (f := fun w => { w with enabled := true }) hmem fun v hv hid => by
      rw [eq_of_workspaceId hunique hw hv hid, ← henabled]
    rw [hself] at hon
    cases hon
    rfl

theorem workspacesDelete_eq (hw : w ∈ doc.workspaces) :
    workspacesDelete w.id doc = .ok (workspaceDelete w.id doc) := by
  unfold workspacesDelete workspaceDelete
  refine if_neg fun hlen => ?_
  have hall := List.length_filter_eq_length_iff.mp hlen w hw
  simp at hall

theorem ungroup_workspaceId (id : String) (r : Rule) : (ungroup id r).workspaceId ≠ some id := by
  unfold ungroup
  split
  · simp
  · assumption

theorem workspaceEnabled_filter {ref : Option String} (h : ref ≠ some id) {rules : List Rule} :
    workspaceEnabled
        { doc with workspaces := doc.workspaces.filter fun w => w.id != id, rules := rules } ref =
      workspaceEnabled doc ref := by
  cases ref with
  | none => rfl
  | some wsId =>
    have hne : wsId ≠ id := fun heq => h (by rw [heq])
    simp only [workspaceEnabled, List.find?_filter]
    congr 3
    funext w
    by_cases hid : w.id = wsId
    · simp [hid, hne]
    · simp [hid]

theorem deletes (hunique : (doc.workspaces.map Workspace.id).Nodup) :
    Deletes urlParse doc w (workspaceDelete w.id doc) where
  route ctx := by
    refine sameRoute_of_filter rfl rfl (List.filter_congr fun r hr => ?_)
    obtain ⟨q, -, rfl⟩ := List.mem_map.mp hr
    simp only [fires, eligible, workspaceDelete]
    rw [workspaceEnabled_filter (ungroup_workspaceId w.id q)]
    rfl
  frame := rfl
  others i r hi hr := by
    simp only [workspaceDelete, List.getElem?_map, hi, Option.map_some, ungroup, if_neg hr]
  ungrouped i r hi hr := by
    simp only [workspaceDelete, List.getElem?_map, hi, Option.map_some, ungroup, if_pos hr]
  length := List.length_map _
  workspaces pre post h := by
    simp only [workspaceDelete, h] at hunique ⊢
    rw [List.map_append, List.map_cons, List.nodup_middle, List.nodup_cons] at hunique
    have hne : ∀ v, v ∈ pre ++ post → v.id ≠ w.id := by
      intro v hv heq
      exact hunique.1 (by rw [← List.map_append]; exact List.mem_map.mpr ⟨v, hv, heq⟩)
    rw [List.filter_append, List.filter_cons_of_neg (by simp), ← List.filter_append]
    exact List.filter_eq_self.mpr fun v hv => by simpa using hne v hv
  noRule r hr := by
    obtain ⟨q, -, rfl⟩ := List.mem_map.mp hr
    exact ungroup_workspaceId w.id q

end Gate

/-- **The workspace gate**, for the switches and the deletions of the GUI and of `lpt`. -/
theorem workspace_gate {doc : ConfigDocument} {w : Workspace}
    (hunique : (doc.workspaces.map Workspace.id).Nodup) (hw : w ∈ doc.workspaces)
    (urlParse : String → Option Url) :
    (∃ off on, Gates urlParse doc w workspaceSetEnabled off on) ∧
      (∃ off on, Gates urlParse doc w workspacesSetEnabled off on) ∧
      Deletes urlParse doc w (workspaceDelete w.id doc) ∧
      ∃ after, workspacesDelete w.id doc = .ok after ∧ Deletes urlParse doc w after :=
  ⟨gates hunique hw, by rw [workspacesSetEnabled_eq]; exact gates hunique hw, deletes hunique,
    _, workspacesDelete_eq hw, deletes hunique⟩

/-- `larkDocument` with its first rule in a workspace. -/
def workDocument : ConfigDocument :=
  { larkDocument with
    rules := larkDocument.rules.map fun r =>
      if r.id = 1 then { r with workspaceId := some "work" } else r
    workspaces := [⟨"work", "Work", none, true⟩, ⟨"home", "Home", none, false⟩] }

theorem workspace_gate_work :
    (∃ off on, Gates (fun _ => none) workDocument ⟨"work", "Work", none, true⟩ workspaceSetEnabled
      off on) ∧
      Deletes (fun _ => none) workDocument ⟨"work", "Work", none, true⟩
        (workspaceDelete "work" workDocument) :=
  have h := workspace_gate (by decide) List.mem_cons_self fun _ => none
  ⟨h.1, h.2.2.1⟩

end LinkPilot
