import LinkPilot.Picker

/-!
# The picker slot

Who holds `session` and `pending` when `show_picker` calls return.  The cleanup of a call that
waited clears both; a call whose window build fails returns between the claim and the cleanup.

Principal results:

* `slot_released_iff` — every call gives the slot back by the time it returns exactly when no
  window build fails for the call that holds the slot; then, once all calls have returned, the
  slot is free, the updater sees no ask, and the next ask opens its window.
* `leak_stays` — a slot left behind by a failed build is never freed again: every later ask is
  refused.
-/

set_option autoImplicit false

namespace LinkPilot.Picker

open Interleaving

/-- `pending.lock().map(|p| p.is_none())`, as the updater asks. -/
def noPendingAsk (w : World) : Bool := w.pending.isNone

/-- Half of the slot, or all of it, is the call's. -/
def HoldsSlot (w : World) (a : Nat) : Prop := w.session = some a ∨ w.pending = some a

/-- Only calls that have not returned hold the slot. -/
def SlotHeld (w : World) : Prop := ∀ a, HoldsSlot w a → (w.pcs a).Active

/-- No call is between its claim and its return. -/
def AllReturned (w : World) : Prop := ∀ a, ¬ (w.pcs a).Active

/-- An action of the window, or of the main thread for it. -/
def Action.FromWindow : Action → Prop
  | .fetch => True
  | .pick _ => True
  | .cancel => True
  | .userClose => True
  | .deliver _ => True
  | _ => False

/-- The condition on a step: no window build fails for the call that holds the slot. -/
def FailsOutsideSlot (w : World) : Action → Prop
  | .build a => w.window = none ∨ ¬ HoldsSlot w a
  | .buildFail a => ¬ HoldsSlot w a
  | _ => True

/-- `SlotHeld`, and a call that has cleared `session` does not get it back. -/
structure SlotInv (w : World) : Prop where
  held : SlotHeld w
  cleared : ∀ a r, w.pcs a = .sessionCleared r → w.session ≠ some a

section Slot

variable {w w' : World} {a : Nat}

theorem slotInv_start (h : Start w) : SlotInv w where
  held a ha := by
    rcases ha with ha | ha
    · rw [h.session] at ha
      cases ha
    · rw [h.pending] at ha
      cases ha
  cleared a r hr := by
    rw [h.pcs a] at hr
    cases hr

/-- A step that moves no call and at most empties the slot. -/
theorem slotInv_keep (h : SlotInv w) (hpcs : w'.pcs = w.pcs) (hsession : w'.session = w.session)
    (hpending : w'.pending = w.pending ∨ w'.pending = none) : SlotInv w' where
  held b hb := by
    rw [hpcs]
    rcases hb with hb | hb
    · exact h.held b (.inl (hsession ▸ hb))
    · rcases hpending with hp | hp
      · exact h.held b (.inr (hp ▸ hb))
      · rw [hp] at hb
        cases hb
  cleared b r hr := by
    rw [hpcs] at hr
    rw [hsession]
    exact h.cleared b r hr

/-- A step that moves the call `a` to `pc` and at most empties the slot. -/
theorem slotInv_move {pc : Pc} (h : SlotInv w) (hpcs : w'.pcs = w.setPc a pc)
    (hsession : w'.session = w.session ∨ w'.session = none)
    (hpending : w'.pending = w.pending ∨ w'.pending = none)
    (hreturn : ¬ pc.Active → ¬ HoldsSlot w' a)
    (hclear : ∀ r, pc = .sessionCleared r → w'.session ≠ some a) : SlotInv w' where
  held b hb := by
    rw [hpcs, setPc_apply]
    split
    · rename_i hba
      subst hba
      exact Classical.byContradiction fun hpc => hreturn hpc hb
    · refine h.held b ?_
      rcases hb with hb | hb
      · rcases hsession with hs | hs
        · exact .inl (hs ▸ hb)
        · rw [hs] at hb
          cases hb
      · rcases hpending with hp | hp
        · exact .inr (hp ▸ hb)
        · rw [hp] at hb
          cases hb
  cleared b r hr := by
    rw [hpcs, setPc_apply] at hr
    split at hr
    · rename_i hba
      subst hba
      exact hclear r hr
    · rcases hsession with hs | hs
      · rw [hs]
        exact h.cleared b r hr
      · rw [hs]
        intro hc
        cases hc

theorem slotInv_claim (w : World) (a : Nat) : SlotInv (w.afterClaim a) where
  held b hb := by
    have hb : some a = some b ∨ some a = some b := hb
    have hba : a = b := Option.some.inj (hb.elim id id)
    show (w.setPc a .claimed b).Active
    rw [setPc_apply, if_pos hba.symm]
    trivial
  cleared b r hr := by
    have hr : w.setPc a .claimed b = .sessionCleared r := hr
    rw [setPc_apply] at hr
    split at hr
    · cases hr
    · rename_i hba
      intro hc
      exact hba (Option.some.inj hc).symm

/-- Resolving takes the sender out of the slot, if there is one. -/
theorem resolve_slot (w : World) (m : Resolve) :
    (w.resolve m).pcs = w.pcs ∧ (w.resolve m).session = w.session ∧
      ((w.resolve m).pending = w.pending ∨ (w.resolve m).pending = none) := by
  unfold World.resolve
  split
  · exact ⟨rfl, rfl, .inl rfl⟩
  · exact ⟨rfl, rfl, .inr rfl⟩

theorem afterDeliver_slot (w : World) (k : Nat) (m : Resolve) :
    (w.afterDeliver k m).pcs = w.pcs ∧ (w.afterDeliver k m).session = w.session ∧
      ((w.afterDeliver k m).pending = w.pending ∨ (w.afterDeliver k m).pending = none) := by
  have hresolve := resolve_slot { w with inflight := w.inflight.eraseIdx k } m
  unfold World.afterDeliver
  simp only
  split
  · split
    · exact ⟨rfl, rfl, .inl rfl⟩
    · split
      · exact hresolve
      · exact ⟨rfl, rfl, .inl rfl⟩
  · exact hresolve

theorem step_buildFail (h : step w (.buildFail a) = some w') :
    w.pcs a = .leftoverClosed ∧ w' = { w with pcs := w.setPc a (.returned .buildFailed) } := by
  simp only [step] at h
  split at h
  · rename_i hpc
    cases h
    exact ⟨hpc, rfl⟩
  · cases h

theorem step_build_taken (h : step w (.build a) = some w') (hwin : w.window ≠ none) :
    w' = { w with pcs := w.setPc a (.returned .buildFailed) } := by
  simp only [step] at h
  split at h
  · split at h
    · cases h
      rfl
    · rename_i hnone
      exact absurd hnone hwin
  · cases h

theorem step_disconnect_eq (h : step w (.disconnect a) = some w') :
    w.pcs a = .waiting ∧ w' = { w with pcs := w.setPc a (.woken .disconnected) } := by
  refine ⟨(step_disconnect h).1, ?_⟩
  simp only [step] at h
  split at h
  · split at h
    · cases h
    · cases h
      rfl
  · cases h

/-- The window's own actions and the main thread's move no call, and empty the slot at most. -/
theorem step_window {act : Action} (h : step w act = some w') (hact : act.FromWindow) :
    w'.pcs = w.pcs ∧ w'.session = w.session ∧
      (w'.pending = w.pending ∨ w'.pending = none) := by
  cases act with
  | deliver k =>
    simp only [step] at h
    split at h
    · rename_i m hm
      cases h
      exact afterDeliver_slot w k m
    · cases h
  | fetch =>
    simp only [step] at h
    split at h
    · cases h
      exact ⟨rfl, rfl, .inl rfl⟩
    · cases h
  | pick p =>
    simp only [step] at h
    split at h
    · cases h
      exact ⟨rfl, rfl, .inl rfl⟩
    · cases h
  | cancel =>
    simp only [step] at h
    split at h
    · cases h
      exact ⟨rfl, rfl, .inl rfl⟩
    · cases h
  | userClose =>
    simp only [step] at h
    split at h
    · cases h
      exact ⟨rfl, rfl, .inl rfl⟩
    · cases h
  | _ => exact hact.elim

/-- A call that goes on, and leaves `session` alone. -/
theorem slotInv_active {pc : Pc} (h : SlotInv w) (hpcs : w'.pcs = w.setPc a pc)
    (hsession : w'.session = w.session) (hpending : w'.pending = w.pending) (hact : pc.Active)
    (hclear : ∀ r, pc ≠ .sessionCleared r) : SlotInv w' :=
  slotInv_move h hpcs (.inl hsession) (.inl hpending) (fun hn => absurd hact hn)
    fun r hr => absurd hr (hclear r)

theorem slotInv_buildFailed (h : SlotInv w) (hfree : ¬ HoldsSlot w a) :
    SlotInv { w with pcs := w.setPc a (.returned .buildFailed) } :=
  slotInv_move h rfl (.inl rfl) (.inl rfl) (fun _ => hfree) fun r hr => by cases hr

theorem slotInv_step {act : Action} (h : SlotInv w) (hG : FailsOutsideSlot w act)
    (hs : step w act = some w') : SlotInv w' := by
  cases act with
  | claim b =>
    obtain hrefused | ⟨-, rfl⟩ := step_claim hs
    · subst hrefused
      have hidle : w.pcs b = .idle := by
        simp only [step] at hs
        split at hs
        · assumption
        · cases hs
      refine slotInv_move h rfl (.inl rfl) (.inl rfl) ?_ fun r hr => by cases hr
      intro _ hb
      have hactive := h.held b hb
      rw [hidle] at hactive
      cases hactive
    · exact slotInv_claim w b
  | closeLeftover b =>
    obtain ⟨-, rfl⟩ := step_closeLeftover hs
    exact slotInv_active h rfl rfl rfl trivial fun r hr => by cases hr
  | build b =>
    by_cases hwin : w.window = none
    · obtain rfl := (step_build hs).2 hwin
      exact slotInv_active h rfl rfl rfl trivial fun r hr => by cases hr
    · obtain rfl := step_build_taken hs hwin
      exact slotInv_buildFailed h (hG.resolve_left hwin)
  | buildFail b =>
    obtain ⟨-, rfl⟩ := step_buildFail hs
    exact slotInv_buildFailed h hG
  | wake b =>
    obtain ⟨-, m, -, rfl⟩ := step_wake hs
    exact slotInv_active h rfl rfl rfl trivial fun r hr => by cases hr
  | timeout b =>
    obtain ⟨-, rfl⟩ := step_timeout hs
    exact slotInv_active h rfl rfl rfl trivial fun r hr => by cases hr
  | disconnect b =>
    obtain ⟨-, rfl⟩ := step_disconnect_eq hs
    exact slotInv_active h rfl rfl rfl trivial fun r hr => by cases hr
  | closeWindow b =>
    obtain ⟨r, -, rfl⟩ := step_closeWindow hs
    exact slotInv_active h rfl rfl rfl trivial fun r hr => by cases hr
  | clearSession b =>
    obtain ⟨r, -, rfl⟩ := step_clearSession hs
    refine slotInv_move h rfl (.inr rfl) (.inl rfl) (fun hn => absurd trivial hn) ?_
    intro _ _ hc
    cases hc
  | clearPending b =>
    obtain ⟨r, hpc, rfl⟩ := step_clearPending hs
    refine slotInv_move h rfl (.inl rfl) (.inr rfl) ?_ fun r' hr => by cases hr
    rintro - (hsession | hpending)
    · exact h.cleared b r hpc hsession
    · cases hpending
  | fetch =>
    obtain ⟨h1, h2, h3⟩ := step_window hs trivial
    exact slotInv_keep h h1 h2 h3
  | pick p =>
    obtain ⟨h1, h2, h3⟩ := step_window hs trivial
    exact slotInv_keep h h1 h2 h3
  | cancel =>
    obtain ⟨h1, h2, h3⟩ := step_window hs trivial
    exact slotInv_keep h h1 h2 h3
  | userClose =>
    obtain ⟨h1, h2, h3⟩ := step_window hs trivial
    exact slotInv_keep h h1 h2 h3
  | deliver k =>
    obtain ⟨h1, h2, h3⟩ := step_window hs trivial
    exact slotInv_keep h h1 h2 h3

/-- The failed build of the call that holds the slot leaves the slot with a call that returned. -/
theorem failsOutsideSlot_of_held {act : Action} (hs : step w act = some w') (h' : SlotHeld w') :
    FailsOutsideSlot w act := by
  -- after a failed build of `b`
  have hfail : ∀ b, w' = { w with pcs := w.setPc b (.returned .buildFailed) } →
      ¬ HoldsSlot w b := by
    rintro b rfl hb
    have hactive : (w.setPc b (.returned .buildFailed) b).Active := h' b hb
    rw [setPc_apply, if_pos rfl] at hactive
    cases hactive
  cases act with
  | build b =>
    by_cases hwin : w.window = none
    · exact .inl hwin
    · exact .inr (hfail b (step_build_taken hs hwin))
  | buildFail b => exact hfail b (step_buildFail hs).2
  | _ => trivial

/-! ## When all calls have returned -/

theorem slot_free (h : SlotHeld w) (hall : AllReturned w) :
    w.session = none ∧ w.pending = none := by
  constructor
  · cases hs : w.session with
    | none => rfl
    | some b => exact absurd (h b (.inl hs)) (hall b)
  · cases hp : w.pending with
    | none => rfl
    | some b => exact absurd (h b (.inr hp)) (hall b)

/-- An ask that finds the slot free can bring its window up; a leftover window is closed first. -/
theorem ask_opens {b : Nat} (hp : w.pending = none) (hb : w.pcs b = .idle) :
    ∃ bs v, run step w bs = some v ∧ v.pcs b = .waiting := by
  have hclaim : step w (.claim b) = some (w.afterClaim b) := by simp only [step, hb, hp]
  have hpc : ∀ pc, w.setPc b pc b = pc := fun pc => by rw [setPc_apply, if_pos rfl]
  cases hwin : w.window with
  | none =>
    refine ⟨[.claim b, .closeLeftover b, .build b], ?_⟩
    simp only [run, hclaim]
    simp [step, World.afterClaim, World.requestClose, World.setPc, hwin]
  | some win =>
    refine ⟨[.claim b, .closeLeftover b, .deliver w.inflight.length, .build b], ?_⟩
    simp only [run, hclaim]
    simp [step, World.afterClaim, World.requestClose, World.setPc, World.afterDeliver,
      World.resolve, hwin]

end Slot

/-- **The slot is given back.** In every state of a run only calls that have not returned hold the
slot, exactly when in that run no window build fails for the call that holds it.  In such a run,
when all calls have returned, `session` and `pending` are both empty, the updater sees no pending
ask, and the next ask can bring its window up. -/
theorem slot_released_iff {w w' : World} {as : List Action} (h0 : Start w)
    (h : run step w as = some w') :
    ((∀ pre u, pre <+: as → run step w pre = some u → SlotHeld u) ↔
        Exec step FailsOutsideSlot w as w') ∧
      (Exec step FailsOutsideSlot w as w' → AllReturned w' →
        w'.session = none ∧ w'.pending = none ∧ noPendingAsk w' = true ∧
          ∀ b, w'.pcs b = .idle → ∃ bs v, run step w' bs = some v ∧ v.pcs b = .waiting) := by
  refine ⟨Exec.throughout_iff (I := SlotInv) (fun _ hI => hI.held)
    (fun _ _ _ hI _ hG hs => slotInv_step hI hG hs)
    (fun _ _ _ _ _ hs hP => failsOutsideSlot_of_held hs hP) (exec_iff_run.mpr h)
    (slotInv_start h0), ?_⟩
  intro hexec hall
  have hinv : SlotInv w' :=
    hexec.invariant (fun _ _ _ hI hG hs => slotInv_step hI hG hs) (slotInv_start h0)
  obtain ⟨hsession, hpending⟩ := slot_free hinv.held hall
  refine ⟨hsession, hpending, ?_, fun b hb => ask_opens hpending hb⟩
  unfold noPendingAsk
  rw [hpending]
  rfl

/-! ## The slot that stays taken -/

/-- The slot is taken, and nothing is left that could free it. -/
structure Leaked (w : World) : Prop where
  pending : w.pending ≠ none
  asks : AllReturned w
  window : w.window = none
  inflight : w.inflight = []

theorem leaked_step {w w' : World} {act : Action} (h : Leaked w) (hs : step w act = some w') :
    Leaked w' := by
  have hidle : ∀ {b : Nat} {pc : Pc}, w.pcs b = pc → ¬ pc.Active := fun hb hact =>
    h.asks _ (hb ▸ hact)
  cases act with
  | claim b =>
    obtain rfl | ⟨hp, -⟩ := step_claim hs
    · refine ⟨h.pending, fun c hc => ?_, h.window, h.inflight⟩
      have hc : (w.setPc b .refused c).Active := hc
      rw [setPc_apply] at hc
      split at hc
      · cases hc
      · exact h.asks c hc
    · exact absurd hp h.pending
  | closeLeftover b => exact absurd trivial (hidle (step_closeLeftover hs).1)
  | build b => exact absurd trivial (hidle (step_build hs).1)
  | buildFail b => exact absurd trivial (hidle (step_buildFail hs).1)
  | wake b => exact absurd trivial (hidle (step_wake hs).1)
  | timeout b => exact absurd trivial (hidle (step_timeout hs).1)
  | disconnect b => exact absurd trivial (hidle (step_disconnect hs).1)
  | closeWindow b =>
    obtain ⟨r, hb, -⟩ := step_closeWindow hs
    exact absurd trivial (hidle hb)
  | clearSession b =>
    obtain ⟨r, hb, -⟩ := step_clearSession hs
    exact absurd trivial (hidle hb)
  | clearPending b =>
    obtain ⟨r, hb, -⟩ := step_clearPending hs
    exact absurd trivial (hidle hb)
  | fetch => simp only [step, h.window, reduceCtorEq] at hs
  | pick p => simp only [step, h.window, reduceCtorEq] at hs
  | cancel => simp only [step, h.window, reduceCtorEq] at hs
  | userClose => simp only [step, h.window, reduceCtorEq] at hs
  | deliver k => simp [step, h.inflight] at hs

/-- **A leak lasts.** Once the slot is taken with every call returned and no window left, it stays
taken in every run: every later ask is refused and the updater never sees the picker idle. -/
theorem leak_stays {w w' : World} {as : List Action} (h : Leaked w)
    (hrun : run step w as = some w') :
    noPendingAsk w' = false ∧
      ∀ b, w'.pcs b = .idle → step w' (.claim b) = some { w' with pcs := w'.setPc b .refused } := by
  have hleak : Leaked w' :=
    (exec_iff_run.mpr hrun).invariant (fun _ _ _ hI _ hs => leaked_step hI hs) h
  cases hp : w'.pending with
  | none => exact absurd hp hleak.pending
  | some c =>
    constructor
    · unfold noPendingAsk
      rw [hp]
      rfl
    · intro b hb
      simp only [step, hb, hp]

/-- Ask 0 is cancelled and cleaned up. -/
def askCancelled : List Action :=
  [.claim 0, .closeLeftover 0, .build 0, .cancel, .deliver 0, .wake 0, .closeWindow 0,
    .clearSession 0, .clearPending 0]

theorem slot_released_cancelled :
    ∃ w, run step idle askCancelled = some w ∧ w.session = none ∧ w.pending = none ∧
      noPendingAsk w = true ∧
      ∀ b, w.pcs b = .idle → ∃ bs v, run step w bs = some v ∧ v.pcs b = .waiting := by
  have hexec : ∃ w, Exec step FailsOutsideSlot idle askCancelled w ∧ AllReturned w := by
    refine ⟨_, .cons trivial rfl <| .cons trivial rfl <| .cons (.inl rfl) rfl <|
      .cons trivial rfl <| .cons trivial rfl <| .cons trivial rfl <| .cons trivial rfl <|
      .cons trivial rfl <| .cons trivial rfl <| .nil _, ?_⟩
    intro a ha
    match a with
    | 0 => exact ha
    | _ + 1 => exact ha
  obtain ⟨w, hexec, hall⟩ := hexec
  exact ⟨w, hexec.run_eq, (slot_released_iff idle_start hexec.run_eq).2 hexec hall⟩

/-- The build of the first window fails: the call returns with the slot still its own, and the
next ask is refused. -/
theorem failed_build_keeps_slot :
    ∃ w, run step idle [.claim 0, .closeLeftover 0, .buildFail 0, .claim 1] = some w ∧
      w.pcs 0 = .returned .buildFailed ∧ AllReturned w ∧ w.session = some 0 ∧
      w.pending = some 0 ∧ w.pcs 1 = .refused ∧ ¬ SlotHeld w := by
  refine ⟨_, rfl, rfl, ?_, rfl, rfl, rfl, fun h => h 0 (.inl rfl)⟩
  intro a ha
  match a with
  | 0 => exact ha
  | 1 => exact ha
  | _ + 2 => exact ha

end LinkPilot.Picker
