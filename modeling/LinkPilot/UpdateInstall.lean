import LinkPilot.PickerSlot
import LinkPilot.Handoff

/-!
# Updates and pending asks

Interleavings of asks with `update_install` of `apps/desktop/src-tauri/src/commands/mod.rs`: the
picker of one desktop process together with the update handoffs of all processes.  The calls of
this process answer both `allowed()` checks from the settings and from `pending`; after a handoff
the command returns to the async runtime, which exits the process in a step of its own.

Principal results:

* `exit_drops_no_ask` — in every run in which the second check that says yes finds no ask on its
  way, and no ask claims the slot between that check and the exit, the process exits only when
  every ask has given the slot back and every pick has been passed on.
* `exit_drops_claimed_ask`, `exit_drops_picked_ask` — an ask that claims the slot after the check,
  and a pick that was taken out of `pending` just before it, are lost to the exit.
-/

set_option autoImplicit false

namespace LinkPilot.UpdateInstall

open Interleaving

/-- The desktop process: its picker, the `auto_check_updates` setting, which asks have had their
answer passed on by the caller of `show_picker`, and the update handoffs it takes part in. -/
structure World where
  picker : Picker.World
  autoCheck : Bool
  served : Nat → Bool
  handoff : Handoff.World

inductive Action where
  | ask (a : Picker.Action)
  | serve (a : Nat)
  | setAutoCheck (b : Bool)
  | handoff (a : Handoff.Action)
  | exit (j : Nat)

section Model

variable (gui : Nat → Nat) (self : Nat) (automatic : Nat → Bool)

/-- `!request.automatic || config.document().settings.auto_check_updates`. -/
def World.wanted (w : World) (j : Nat) : Bool := !automatic j || w.autoCheck

/-- The closure `allowed` that `update_install` passes. -/
def World.allowed (w : World) (j : Nat) : Bool :=
  w.wanted automatic j && Picker.noPendingAsk w.picker

/-- How the command lets a call of its own go on: it does not begin an automatic update that the
settings refuse, and each check gets the answer of `allowed`. -/
def World.lets (w : World) (j : Nat) : Handoff.JobAction → Bool
  | .acquire => w.wanted automatic j
  | .allow1 answer => answer == w.allowed automatic j
  | .allow2 answer => answer == w.allowed automatic j
  | _ => true

def World.handoffTo (w : World) (a : Handoff.Action) : Option World :=
  (Handoff.step gui w.handoff a).map fun h => { w with handoff := h }

def step (w : World) : Action → Option World
  | .ask a =>
    if w.handoff.alive self then (Picker.step w.picker a).map fun p => { w with picker := p }
    else none
  | .serve a =>
    match w.handoff.alive self, w.picker.pcs a with
    | true, .returned _ => some { w with served := Function.update w.served a true }
    | _, _ => none
  | .setAutoCheck b => some { w with autoCheck := b }
  | .handoff (.prep j a) =>
    if gui j = self ∧ w.lets automatic j a = false then none else w.handoffTo gui (.prep j a)
  | .handoff a => w.handoffTo gui a
  | .exit j =>
    -- `Ok(true)` has come back through the join handle
    if gui j = self ∧ w.handoff.alive self = true ∧ (w.handoff.jobs j).prep = .handedOver then
      w.handoffTo gui (.die self)
    else none

/-- A pick, which the caller has to open. -/
def picked : Picker.Outcome → Bool
  | .message m => m.picked.isSome
  | _ => false

/-- The ask holds the slot, or was picked and not yet passed on. -/
def OnItsWay (w : World) (a : Nat) : Prop :=
  (w.picker.pcs a).Active ∨ ∃ r, w.picker.pcs a = .returned r ∧ picked r ∧ w.served a = false

structure Start (w : World) : Prop where
  picker : Picker.Start w.picker
  handoff : Handoff.Start w.handoff

/-- A call of this process is between a second check that said yes and the exit. -/
def Leaving (w : World) : Prop := ∃ j, gui j = self ∧ (w.handoff.jobs j).prep.PastSecond

/-- The condition on a step: the second check of this process says yes only when no ask is on its
way, and no ask claims the free slot between that check and the exit. -/
def AsksApart (w : World) : Action → Prop
  | .ask (.claim _) => w.picker.pending = none → ¬ Leaving gui self w
  | .handoff (.prep j (.allow2 true)) => gui j = self → ∀ a, ¬ OnItsWay w a
  | _ => True

/-- The process exits for an update only when no ask is lost by it. -/
def DropsNoAsk (w : World) : Action → Prop
  | .exit _ => ∀ a, ¬ OnItsWay w a
  | _ => True

/-- While the process is leaving, no ask is on its way. -/
def Settled (w : World) : Prop := Leaving gui self w → ∀ a, ¬ OnItsWay w a

end Model

/-! ## What the steps are -/

section Steps

variable {w w' : Picker.World}

/-- A picker step leaves a call that is not under way where it is, or has it refused, unless the
call claims the slot. -/
theorem pcs_of_not_active {act : Picker.Action} {a : Nat} (hs : Picker.step w act = some w')
    (ha : ¬ (w.pcs a).Active) :
    w'.pcs a = w.pcs a ∨ w'.pcs a = .refused ∨ (act = .claim a ∧ w.pending = none) := by
  -- the step moves the call `b`, which is under way
  have hmove : ∀ {b : Nat} {pc : Picker.Pc}, (w.pcs b).Active → w'.pcs = w.setPc b pc →
      w'.pcs a = w.pcs a := by
    intro b pc hb hpcs
    rw [hpcs, Picker.setPc_apply, if_neg]
    rintro rfl
    exact ha hb
  cases act with
  | claim b =>
    obtain rfl | ⟨hp, rfl⟩ := Picker.step_claim hs
    · show w.setPc b .refused a = _ ∨ w.setPc b .refused a = _ ∨ _
      rw [Picker.setPc_apply]
      split
      · exact .inr (.inl rfl)
      · exact .inl rfl
    · by_cases hab : a = b
      · subst hab
        exact .inr (.inr ⟨rfl, hp⟩)
      · refine .inl ?_
        show w.setPc b .claimed a = _
        rw [Picker.setPc_apply, if_neg hab]
  | closeLeftover b =>
    obtain ⟨hb, rfl⟩ := Picker.step_closeLeftover hs
    exact .inl (hmove (b := b) (by rw [hb]; trivial) rfl)
  | build b =>
    have hb : (w.pcs b).Active := by
      rw [(Picker.step_build hs).1]
      trivial
    by_cases hwin : w.window = none
    · obtain rfl := (Picker.step_build hs).2 hwin
      exact .inl (hmove hb rfl)
    · obtain rfl := Picker.step_build_taken hs hwin
      exact .inl (hmove hb rfl)
  | buildFail b =>
    obtain ⟨hb, rfl⟩ := Picker.step_buildFail hs
    exact .inl (hmove (b := b) (by rw [hb]; trivial) rfl)
  | wake b =>
    obtain ⟨hb, m, -, rfl⟩ := Picker.step_wake hs
    exact .inl (hmove (b := b) (by rw [hb]; trivial) rfl)
  | timeout b =>
    obtain ⟨hb, rfl⟩ := Picker.step_timeout hs
    exact .inl (hmove (b := b) (by rw [hb]; trivial) rfl)
  | disconnect b =>
    obtain ⟨hb, rfl⟩ := Picker.step_disconnect_eq hs
    exact .inl (hmove (b := b) (by rw [hb]; trivial) rfl)
  | closeWindow b =>
    obtain ⟨r, hb, rfl⟩ := Picker.step_closeWindow hs
    exact .inl (hmove (b := b) (by rw [hb]; trivial) rfl)
  | clearSession b =>
    obtain ⟨r, hb, rfl⟩ := Picker.step_clearSession hs
    exact .inl (hmove (b := b) (by rw [hb]; trivial) rfl)
  | clearPending b =>
    obtain ⟨r, hb, rfl⟩ := Picker.step_clearPending hs
    exact .inl (hmove (b := b) (by rw [hb]; trivial) rfl)
  | fetch => exact .inl (congrFun (Picker.step_window hs trivial).1 a)
  | pick p => exact .inl (congrFun (Picker.step_window hs trivial).1 a)
  | cancel => exact .inl (congrFun (Picker.step_window hs trivial).1 a)
  | userClose => exact .inl (congrFun (Picker.step_window hs trivial).1 a)
  | deliver k => exact .inl (congrFun (Picker.step_window hs trivial).1 a)

/-- A call gets past the second check only by its answer. -/
theorem pastSecond_of_prepNext {canLock : Bool} {job job' : Handoff.Job} {a : Handoff.JobAction}
    (hn : job.prepNext canLock a = some job') (h : job'.prep.PastSecond) :
    job.prep.PastSecond ∨ a = .allow2 true := by
  cases a with
  | acquire =>
    simp only [Handoff.Job.prepNext] at hn
    split at hn
    · cases hn
      split at h <;> exact h.elim
    · cases hn
  | allow1 answer =>
    simp only [Handoff.Job.prepNext] at hn
    split at hn
    · cases hn
      split at h <;> exact h.elim
    · cases hn
  | allow2 answer =>
    simp only [Handoff.Job.prepNext] at hn
    split at hn
    · cases hn
      cases answer
      · exact h.elim
      · exact .inr rfl
    · cases hn
  | record ok =>
    simp only [Handoff.Job.prepNext] at hn
    split at hn
    · rename_i hp
      exact .inl (by rw [hp]; trivial)
    · cases hn
  | finish =>
    simp only [Handoff.Job.prepNext] at hn
    split at hn
    · cases hn
      exact h.elim
    · cases hn
  | handOver =>
    simp only [Handoff.Job.prepNext] at hn
    split at hn
    · rename_i hp
      exact .inl (by rw [hp]; trivial)
    · cases hn
  | stage | failStage | spawn | seeReady | giveUp | tryWaitError =>
    simp only [Handoff.Job.prepNext] at hn
    split at hn
    · cases hn
      exact h.elim
    · cases hn
  | _ => cases hn

/-- The worker does not move its call. -/
theorem prep_of_workerNext {alive canLock : Bool} {job job' : Handoff.Job} {a : Handoff.JobAction}
    (hn : job.workerNext alive canLock a = some job') : job'.prep = job.prep := by
  cases a with
  | writeReady =>
    simp only [Handoff.Job.workerNext] at hn
    split at hn
    · cases hn
      split <;> rfl
    · cases hn
  | check | waitExit | waitTimeout | lock | verify ok | swap | done | crash =>
    simp only [Handoff.Job.workerNext] at hn
    split at hn
    · cases hn
      rfl
    · cases hn
  | _ => cases hn

/-- Of the handoff steps only a second check that says yes takes a call past it. -/
theorem pastSecond_of_step {gui : Nat → Nat} {h h' : Handoff.World} {a : Handoff.Action} {j : Nat}
    (hs : Handoff.step gui h a = some h') (hj : (h'.jobs j).prep.PastSecond) :
    (h.jobs j).prep.PastSecond ∨ a = .prep j (.allow2 true) := by
  cases a with
  | prep k a =>
    simp only [Handoff.step] at hs
    split at hs
    · split at hs
      · cases hs
      · rename_i job hn
        cases hs
        have hk : (Function.update h.jobs k job j).prep.PastSecond := hj
        rw [Function.update_apply] at hk
        split at hk
        · rename_i hjk
          subst hjk
          exact (pastSecond_of_prepNext hn hk).imp_right fun ha => by rw [ha]
        · exact .inl hk
    · cases hs
  | worker k a =>
    simp only [Handoff.step] at hs
    split at hs
    · cases hs
    · rename_i job hn
      cases hs
      have hk : (Function.update h.jobs k job j).prep.PastSecond := hj
      rw [Function.update_apply] at hk
      split at hk
      · rename_i hjk
        subst hjk
        rw [prep_of_workerNext hn] at hk
        exact .inl hk
      · exact .inl hk
  | die g =>
    cases hs
    exact .inl hj

end Steps

/-! ## The invariant -/

section Settled

variable {gui : Nat → Nat} {self : Nat} {automatic : Nat → Bool} {w w' : World}

theorem settled_start (h : Start w) : Settled gui self w := by
  rintro ⟨j, -, hj⟩
  rw [h.handoff.jobs j] at hj
  exact hj.elim

theorem handoffTo_eq {a : Handoff.Action} (h : w.handoffTo gui a = some w') :
    ∃ hw, Handoff.step gui w.handoff a = some hw ∧ w' = { w with handoff := hw } := by
  obtain ⟨hw, hs, rfl⟩ := Option.map_eq_some_iff.mp h
  exact ⟨hw, hs, rfl⟩

/-- A handoff step that is not a yes of the second check of this process. -/
theorem settled_handoff {a : Handoff.Action} (h : Settled gui self w)
    (hyes : ∀ j, a = .prep j (.allow2 true) → gui j = self → ∀ b, ¬ OnItsWay w b)
    (hs : w.handoffTo gui a = some w') : Settled gui self w' := by
  obtain ⟨hw, hstep, rfl⟩ := handoffTo_eq hs
  rintro ⟨j, hself, hj⟩
  rcases pastSecond_of_step hstep hj with hj | rfl
  · exact h ⟨j, hself, hj⟩
  · exact hyes j rfl hself

theorem settled_ask {act : Picker.Action} {p : Picker.World} (h : Settled gui self w)
    (hG : AsksApart gui self w (.ask act)) (hs : Picker.step w.picker act = some p) :
    Settled gui self { w with picker := p } := by
  intro hleaving a
  have hidle := h hleaving a
  have hactive : ¬ (w.picker.pcs a).Active := fun ha => hidle (.inl ha)
  have hpcs : p.pcs a = w.picker.pcs a ∨ p.pcs a = .refused := by
    rcases pcs_of_not_active hs hactive with hpc | hpc | ⟨rfl, hpending⟩
    · exact .inl hpc
    · exact .inr hpc
    · exact absurd hleaving (hG hpending)
  rintro (ha | ⟨r, hr, hpick, hserved⟩)
  · have ha : (p.pcs a).Active := ha
    rcases hpcs with hpc | hpc
    · exact hactive (hpc ▸ ha)
    · rw [hpc] at ha
      exact ha.elim
  · have hr : p.pcs a = .returned r := hr
    rcases hpcs with hpc | hpc
    · exact hidle (.inr ⟨r, hpc ▸ hr, hpick, hserved⟩)
    · rw [hpc] at hr
      cases hr

theorem settled_serve {b : Nat} (h : Settled gui self w) :
    Settled gui self { w with served := Function.update w.served b true } := by
  intro hleaving a
  rintro (ha | ⟨r, hr, hpick, hserved⟩)
  · exact h hleaving a (.inl ha)
  · have hserved : Function.update w.served b true a = false := hserved
    rw [Function.update_apply] at hserved
    split at hserved
    · cases hserved
    · exact h hleaving a (.inr ⟨r, hr, hpick, hserved⟩)

theorem settled_step {act : Action} (h : Settled gui self w) (hG : AsksApart gui self w act)
    (hs : step gui self automatic w act = some w') : Settled gui self w' := by
  cases act with
  | ask a =>
    simp only [step] at hs
    split at hs
    · obtain ⟨p, hp, rfl⟩ := Option.map_eq_some_iff.mp hs
      exact settled_ask h hG hp
    · cases hs
  | serve a =>
    simp only [step] at hs
    split at hs
    · cases hs
      exact settled_serve h
    · cases hs
  | setAutoCheck b =>
    cases hs
    exact h
  | handoff a =>
    have hyes : ∀ j, a = .prep j (.allow2 true) → gui j = self → ∀ b, ¬ OnItsWay w b := by
      rintro j rfl
      exact hG
    cases a with
    | prep j a =>
      simp only [step] at hs
      split at hs
      · cases hs
      · exact settled_handoff h hyes hs
    | worker j a => exact settled_handoff h hyes hs
    | die g => exact settled_handoff h hyes hs
  | exit j =>
    simp only [step] at hs
    split at hs
    · refine settled_handoff h ?_ hs
      intro k hk
      cases hk
    · cases hs

/-- An exit comes from a call that is past its second check. -/
theorem leaving_of_exit {j : Nat} (hs : step gui self automatic w (.exit j) = some w') :
    Leaving gui self w := by
  simp only [step] at hs
  split at hs
  · rename_i hj
    refine ⟨j, hj.1, ?_⟩
    rw [hj.2.2]
    trivial
  · cases hs

end Settled

/-- **Updates and asks.** In every run in which the second check says yes only when no ask is on
its way, and no ask claims the slot between that check and the exit, the process exits for an
update only when no ask holds the slot and every pick has been passed on. -/
theorem exit_drops_no_ask (gui : Nat → Nat) (self : Nat) (automatic : Nat → Bool) {w w' : World}
    {as : List Action} (h0 : Start w)
    (h : Exec (step gui self automatic) (AsksApart gui self) w as w') :
    Exec (step gui self automatic) (fun w a => AsksApart gui self w a ∧ DropsNoAsk w a) w as w' := by
  refine h.forall_steps (I := Settled gui self) (fun _ _ _ hI hG hs => settled_step hI hG hs) ?_
    (settled_start h0)
  intro s act t hI _ hs
  cases act with
  | exit j => exact hI (leaving_of_exit hs)
  | _ => trivial

/-! ## One update -/

/-- A desktop process with an idle picker and nothing prepared. -/
def fresh : World := ⟨Picker.idle, true, fun _ => false, Handoff.fresh⟩

theorem fresh_start : Start fresh := ⟨Picker.idle_start, Handoff.fresh_start⟩

/-- The picker pick of ask 0 is passed on, then a call goes through both checks. -/
def askServed : List Action :=
  [.ask (.claim 0), .ask (.closeLeftover 0), .ask (.build 0), .ask .fetch,
    .ask (.pick Picker.arc), .ask (.deliver 0), .ask (.wake 0), .ask (.closeWindow 0),
    .ask (.clearSession 0), .ask (.clearPending 0), .serve 0]

def handover : List Action := Handoff.preparation.map .handoff

theorem exit_drops_no_ask_served :
    ∃ w, Exec (step id 0 fun _ => false) (fun w a => AsksApart id 0 w a ∧ DropsNoAsk w a) fresh
      (askServed ++ handover ++ [.exit 0]) w := by
  have hexec : ∃ w, Exec (step id 0 fun _ => false) (AsksApart id 0) fresh
      (askServed ++ handover ++ [.exit 0]) w := by
    refine ⟨_, .cons (fun _ ⟨j, _, hj⟩ => hj) rfl <| .cons trivial rfl <| .cons trivial rfl <|
      .cons trivial rfl <| .cons trivial rfl <| .cons trivial rfl <| .cons trivial rfl <|
      .cons trivial rfl <| .cons trivial rfl <| .cons trivial rfl <| .cons trivial rfl <|
      .cons trivial rfl <| .cons trivial rfl <| .cons trivial rfl <| .cons trivial rfl <|
      .cons trivial rfl <| .cons trivial rfl <| .cons trivial rfl <| .cons ?_ rfl <|
      .cons trivial rfl <| .cons trivial rfl <| .cons trivial rfl <| .nil _⟩
    intro _ a
    match a with
    | 0 =>
      rintro (ha | ⟨r, hr, hpick, hserved⟩)
      · exact ha
      · cases hserved
    | _ + 1 =>
      rintro (ha | ⟨r, hr, hpick, hserved⟩)
      · exact ha
      · cases hr
  obtain ⟨w, h⟩ := hexec
  exact ⟨w, exit_drops_no_ask id 0 (fun _ => false) fresh_start h⟩

/-- Ask 0 claims the slot after the second check, while `active.json` is written. -/
def claimedWhileLeaving : List Action :=
  handover.take 8 ++ [.ask (.claim 0), .ask (.closeLeftover 0), .ask (.build 0), .ask .fetch] ++
    handover.drop 8

/-- The process exits while the user is being asked. -/
theorem exit_drops_claimed_ask :
    ∃ w w', run (step id 0 fun _ => true) fresh claimedWhileLeaving = some w ∧
      step id 0 (fun _ => true) w (.exit 0) = some w' ∧ w'.handoff.alive 0 = false ∧
      w.picker.pcs 0 = .waiting ∧ w.picker.session = some 0 ∧ w.picker.pending = some 0 ∧
      ¬ DropsNoAsk w (.exit 0) :=
  ⟨_, _, rfl, rfl, rfl, rfl, rfl, rfl, fun h => h 0 (.inl trivial)⟩

/-- Ask 0 is picked just before the second check, which finds `pending` empty. -/
def pickedBeforeCheck : List Action :=
  handover.take 7 ++ [.ask (.claim 0), .ask (.closeLeftover 0), .ask (.build 0), .ask .fetch,
    .ask (.pick Picker.arc), .ask (.deliver 0)] ++ handover.drop 7

/-- The process exits before the pick is passed on. -/
theorem exit_drops_picked_ask :
    ∃ w w', run (step id 0 fun _ => true) fresh pickedBeforeCheck = some w ∧
      step id 0 (fun _ => true) w (.exit 0) = some w' ∧ w.picker.session = some 0 ∧
      w.picker.inbox 0 = some ⟨0, some Picker.arc, false⟩ ∧ ¬ DropsNoAsk w (.exit 0) :=
  ⟨_, _, rfl, rfl, rfl, rfl, fun h => h 0 (.inl trivial)⟩

end LinkPilot.UpdateInstall
