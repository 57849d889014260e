import LinkPilot.Lib.Interleaving
import Mathlib.Data.List.Basic
import Mathlib.Logic.Function.Basic

/-!
# The browser picker

Interleavings of `show_picker` calls (*asks*) with the picker window, after
`apps/desktop/src-tauri/src/picker.rs` and the `CloseRequested` handler of `lib.rs`.

An ask claims the slot (`session` and `pending` under both locks), closes a leftover window and
builds its own, waits on its channel, and then, in three separate steps, closes the window, clears
`session` and clears `pending`.  A `picker_resolve` call is in flight from the moment the window
makes it until the main thread runs it; closing a window puts a `CloseRequested` event in flight,
whose handler calls `picker_resolve(None)`.  The sender of an ask lives in `pending`: taking or
overwriting it drops it.

Principal results:

* `claims_apart_isolated` — in every run in which an ask claims the free slot only when nothing of
  an earlier ask is left, each pick reaches the ask whose session the window showed, each cleanup
  touches only its own session, sender and window, and each ask ends by its own pick, its own
  cancel or its own timeout.
* `cleanup_disconnects_next_ask` — an ask that claims the slot after the pick and before the
  cleanup of the previous one loses its session and its sender to that cleanup.
-/

set_option autoImplicit false

namespace LinkPilot.Picker

open Interleaving

/-- `PickerPick`. -/
structure PickerPick where
  browserId : String
  profileId : Option String
  deriving DecidableEq, Repr

/-- A `picker_resolve` call in flight: from a command of the window, or from its
`CloseRequested` event.  `origin` is the ask whose session the window displayed (for a pick), or
whose window it was (for a cancel). -/
structure Resolve where
  origin : Nat
  picked : Option PickerPick
  closeEvent : Bool
  deriving DecidableEq, Repr

/-- How the wait of an ask ended; `buildFailed` is the early return before the wait. -/
inductive Outcome where
  | message (m : Resolve)
  | timeout
  | disconnected
  | buildFailed
  deriving DecidableEq, Repr

/-- Its own pick, its own cancel or its own timeout. -/
def Outcome.Own (a : Nat) : Outcome → Prop
  | message m => m.origin = a
  | timeout => True
  | disconnected => False
  | buildFailed => False

/-- Where a `show_picker` call stands. -/
inductive Pc where
  | idle
  | refused
  | claimed
  | leftoverClosed
  | waiting
  | woken (r : Outcome)
  | windowClosed (r : Outcome)
  | sessionCleared (r : Outcome)
  | returned (r : Outcome)
  deriving DecidableEq, Repr

namespace Pc

/-- The call has claimed the slot and has not returned. -/
def Active : Pc → Prop
  | idle => False
  | refused => False
  | returned _ => False
  | _ => True

/-- The call has claimed the slot and has not built its window. -/
def Unbuilt : Pc → Prop
  | claimed => True
  | leftoverClosed => True
  | _ => False

/-- The call has claimed the slot and its wait has not ended. -/
def Listening : Pc → Prop
  | claimed => True
  | leftoverClosed => True
  | waiting => True
  | _ => False

def outcome? : Pc → Option Outcome
  | woken r => some r
  | windowClosed r => some r
  | sessionCleared r => some r
  | returned r => some r
  | _ => none

theorem Listening.active {pc : Pc} (h : pc.Listening) : pc.Active := by
  cases pc <;> trivial

end Pc

/-- The window with the label `picker`: the ask that built it, and the ask whose session
`picker_session` gave it. -/
structure Window where
  builtBy : Nat
  shows : Option Nat
  deriving DecidableEq, Repr

structure World where
  session : Option Nat
  pending : Option Nat
  window : Option Window
  inflight : List Resolve
  pcs : Nat → Pc
  inbox : Nat → Option Resolve

inductive Action where
  | claim (a : Nat)
  | closeLeftover (a : Nat)
  | build (a : Nat)
  | buildFail (a : Nat)
  | fetch
  | pick (p : PickerPick)
  | cancel
  | userClose
  | deliver (k : Nat)
  | wake (a : Nat)
  | timeout (a : Nat)
  | disconnect (a : Nat)
  | closeWindow (a : Nat)
  | clearSession (a : Nat)
  | clearPending (a : Nat)

namespace World

def setPc (w : World) (a : Nat) (pc : Pc) : Nat → Pc := Function.update w.pcs a pc

/-- `win.close()`: a `CloseRequested` event, if there is a window. -/
def requestClose (w : World) : List Resolve :=
  match w.window with
  | none => w.inflight
  | some win => w.inflight ++ [⟨win.builtBy, none, true⟩]

/-- `picker_resolve`: take the sender and send. -/
def resolve (w : World) (m : Resolve) : World :=
  match w.pending with
  | none => w
  | some b => { w with pending := none, inbox := Function.update w.inbox b (some m) }

/-- The slot is claimed: a new channel, its sender in `pending`. -/
def afterClaim (w : World) (a : Nat) : World :=
  { w with
    session := some a
    pending := some a
    pcs := w.setPc a .claimed
    inbox := Function.update w.inbox a none }

/-- The main thread runs a resolve call.  A close event is for the window of its ask: it resolves
and destroys that window, and does nothing once the window is gone. -/
def afterDeliver (w : World) (k : Nat) (m : Resolve) : World :=
  let w := { w with inflight := w.inflight.eraseIdx k }
  if m.closeEvent then
    match w.window with
    | none => w
    | some win => if win.builtBy = m.origin then { w.resolve m with window := none } else w
  else w.resolve m

end World

def step (w : World) : Action → Option World
  | .claim a =>
    match w.pcs a with
    | .idle =>
      match w.pending with
      | some _ => some { w with pcs := w.setPc a .refused }
      | none => some (w.afterClaim a)
    | _ => none
  | .closeLeftover a =>
    match w.pcs a with
    | .claimed => some { w with inflight := w.requestClose, pcs := w.setPc a .leftoverClosed }
    | _ => none
  | .build a =>
    match w.pcs a with
    | .leftoverClosed =>
      match w.window with
      -- the label is still taken
      | some _ => some { w with pcs := w.setPc a (.returned .buildFailed) }
      | none => some { w with window := some ⟨a, none⟩, pcs := w.setPc a .waiting }
    | _ => none
  | .buildFail a =>
    match w.pcs a with
    | .leftoverClosed => some { w with pcs := w.setPc a (.returned .buildFailed) }
    | _ => none
  | .fetch =>
    match w.window with
    | some win => some { w with window := some { win with shows := w.session } }
    | none => none
  | .pick p =>
    match w.window with
    | some ⟨_, some s⟩ => some { w with inflight := w.inflight ++ [⟨s, some p, false⟩] }
    | _ => none
  | .cancel =>
    match w.window with
    | some win => some { w with inflight := w.inflight ++ [⟨win.builtBy, none, false⟩] }
    | none => none
  | .userClose =>
    match w.window with
    | some _ => some { w with inflight := w.requestClose }
    | none => none
  | .deliver k =>
    match w.inflight[k]? with
    | some m => some (w.afterDeliver k m)
    | none => none
  | .wake a =>
    match w.pcs a, w.inbox a with
    | .waiting, some m => some { w with pcs := w.setPc a (.woken (.message m)) }
    | _, _ => none
  | .timeout a =>
    match w.pcs a, w.inbox a with
    | .waiting, none => some { w with pcs := w.setPc a (.woken .timeout) }
    | _, _ => none
  | .disconnect a =>
    match w.pcs a, w.inbox a with
    | .waiting, none =>
      if w.pending = some a then none else some { w with pcs := w.setPc a (.woken .disconnected) }
    | _, _ => none
  | .closeWindow a =>
    match w.pcs a with
    | .woken r => some { w with inflight := w.requestClose, pcs := w.setPc a (.windowClosed r) }
    | _ => none
  | .clearSession a =>
    match w.pcs a with
    | .windowClosed r => some { w with session := none, pcs := w.setPc a (.sessionCleared r) }
    | _ => none
  | .clearPending a =>
    match w.pcs a with
    | .sessionCleared r => some { w with pending := none, pcs := w.setPc a (.returned r) }
    | _ => none

structure Start (w : World) : Prop where
  session : w.session = none
  pending : w.pending = none
  window : w.window = none
  inflight : w.inflight = []
  pcs : ∀ a, w.pcs a = .idle
  inbox : ∀ a, w.inbox a = none

/-- Nothing of an earlier ask is left. -/
structure Quiet (w : World) : Prop where
  asks : ∀ a, ¬ (w.pcs a).Active
  window : w.window = none
  inflight : w.inflight = []

/-- The condition on a step: the free slot is claimed only when nothing of an earlier ask is left,
and window builds do not fail. -/
def ClaimsApart (w : World) : Action → Prop
  | .claim _ => w.pending = none → Quiet w
  | .buildFail _ => False
  | _ => True

/-- What a step may do to asks: a resolve call reaches only the ask it comes from, a cleanup only
its own window, session and sender, no build finds the label taken, and no wait ends for lack of
a sender. -/
def Isolated (w : World) : Action → Prop
  | .deliver k => ∀ m b, w.inflight[k]? = some m → w.pending = some b → m.origin = b
  | .build _ => w.window = none
  | .disconnect _ => False
  | .closeWindow a => ∀ win, w.window = some win → win.builtBy = a
  | .clearSession a => w.session = none ∨ w.session = some a
  | .clearPending a => w.pending = none ∨ w.pending = some a
  | _ => True

/-! ## What the steps of an ask are -/

section Steps

-- The equations of `step`, computed once for the lemmas of this section.
attribute [local simp] step

variable {w w' : World} {a : Nat}

theorem step_claim (h : step w (.claim a) = some w') :
    (w' = { w with pcs := w.setPc a .refused }) ∨ (w.pending = none ∧ w' = w.afterClaim a) := by
  simp only [step] at h
  split at h
  · split at h
    · cases h
      exact .inl rfl
    · rename_i hp
      cases h
      exact .inr ⟨hp, rfl⟩
  · cases h

theorem step_closeLeftover (h : step w (.closeLeftover a) = some w') :
    w.pcs a = .claimed ∧
      w' = { w with inflight := w.requestClose, pcs := w.setPc a .leftoverClosed } := by
  simp only [step] at h
  split at h
  · rename_i hpc
    cases h
    exact ⟨hpc, rfl⟩
  · cases h

theorem step_build (h : step w (.build a) = some w') :
    w.pcs a = .leftoverClosed ∧
      (w.window = none →
        w' = { w with window := some ⟨a, none⟩, pcs := w.setPc a .waiting }) := by
  simp only [step] at h
  split at h
  · rename_i hpc
    refine ⟨hpc, fun hnone => ?_⟩
    rw [hnone] at h
    cases h
    rfl
  · cases h

theorem step_wake (h : step w (.wake a) = some w') :
    w.pcs a = .waiting ∧ ∃ m, w.inbox a = some m ∧
      w' = { w with pcs := w.setPc a (.woken (.message m)) } := by
  simp only [step] at h
  split at h
  · rename_i m hpc hm
    cases h
    exact ⟨hpc, m, hm, rfl⟩
  · cases h

theorem step_timeout (h : step w (.timeout a) = some w') :
    w.pcs a = .waiting ∧ w' = { w with pcs := w.setPc a (.woken .timeout) } := by
  simp only [step] at h
  split at h
  · rename_i hpc hm
    cases h
    exact ⟨hpc, rfl⟩
  · cases h

theorem step_disconnect (h : step w (.disconnect a) = some w') :
    w.pcs a = .waiting ∧ w.inbox a = none ∧ w.pending ≠ some a := by
  simp only [step] at h
  split at h
  · rename_i hpc hm
    split at h
    · cases h
    · rename_i hp
      exact ⟨hpc, hm, hp⟩
  · cases h

theorem step_closeWindow (h : step w (.closeWindow a) = some w') :
    ∃ r, w.pcs a = .woken r ∧
      w' = { w with inflight := w.requestClose, pcs := w.setPc a (.windowClosed r) } := by
  simp only [step] at h
  split at h
  · rename_i r hpc
    cases h
    exact ⟨r, hpc, rfl⟩
  · cases h

theorem step_clearSession (h : step w (.clearSession a) = some w') :
    ∃ r, w.pcs a = .windowClosed r ∧
      w' = { w with session := none, pcs := w.setPc a (.sessionCleared r) } := by
  simp only [step] at h
  split at h
  · rename_i r hpc
    cases h
    exact ⟨r, hpc, rfl⟩
  · cases h

theorem step_clearPending (h : step w (.clearPending a) = some w') :
    ∃ r, w.pcs a = .sessionCleared r ∧
      w' = { w with pending := none, pcs := w.setPc a (.returned r) } := by
  simp only [step] at h
  split at h
  · rename_i r hpc
    cases h
    exact ⟨r, hpc, rfl⟩
  · cases h

end Steps

/-! ## One ask at a time -/

/-- Everything around belongs to the ask `a`. -/
structure Owned (a : Nat) (w : World) : Prop where
  others : ∀ b, (w.pcs b).Active → b = a
  session : w.session = none ∨ w.session = some a
  pending : w.pending = none ∨ w.pending = some a
  window : ∀ win, w.window = some win → win.builtBy = a ∧ (win.shows = none ∨ win.shows = some a)
  inflight : ∀ m ∈ w.inflight, m.origin = a
  unbuilt : (w.pcs a).Unbuilt → w.window = none
  inbox : ∀ b m, w.inbox b = some m → m.origin = b
  listening : (w.pcs a).Listening → w.inbox a = none → w.pending = some a
  outcomes : ∀ b r, (w.pcs b).outcome? = some r → r.Own b

section Owned

variable {a : Nat} {w w' : World}

theorem setPc_apply (w : World) (a b : Nat) (pc : Pc) :
    w.setPc a pc b = if b = a then pc else w.pcs b := by
  simp [World.setPc, Function.update_apply]

theorem owned_start (h : Start w) : Owned 0 w where
  others b hb := by rw [h.pcs b] at hb; cases hb
  session := .inl h.session
  pending := .inl h.pending
  window win hw := by rw [h.window] at hw; cases hw
  inflight m hm := by rw [h.inflight] at hm; cases hm
  unbuilt _ := h.window
  inbox b m hm := by rw [h.inbox b] at hm; cases hm
  listening hl := by rw [h.pcs 0] at hl; cases hl
  outcomes b r hr := by rw [h.pcs b] at hr; cases hr

/-- The owner moves on to `pc`, perhaps with other things in flight. -/
theorem owned_setPc (pc : Pc) {inflight : List Resolve} (h : Owned a w)
    (hin : ∀ m ∈ inflight, m.origin = a) (hunbuilt : pc.Unbuilt → w.window = none)
    (hlisten : pc.Listening → (w.pcs a).Listening) (hout : ∀ r, pc.outcome? = some r → r.Own a) :
    Owned a { w with inflight := inflight, pcs := w.setPc a pc } where
  others b hb := by
    have hb : (w.setPc a pc b).Active := hb
    rw [setPc_apply] at hb
    split at hb
    · assumption
    · exact h.others b hb
  session := h.session
  pending := h.pending
  window := h.window
  inflight := hin
  unbuilt hu := by
    have hu : (w.setPc a pc a).Unbuilt := hu
    rw [setPc_apply, if_pos rfl] at hu
    exact hunbuilt hu
  inbox := h.inbox
  listening hl hi := by
    have hl : (w.setPc a pc a).Listening := hl
    rw [setPc_apply, if_pos rfl] at hl
    exact h.listening (hlisten hl) hi
  outcomes b r hr := by
    have hr : (w.setPc a pc b).outcome? = some r := hr
    rw [setPc_apply] at hr
    split at hr
    · rename_i hb
      rw [hb]
      exact hout r hr
    · exact h.outcomes b r hr

theorem requestClose_origin (h : Owned a w) : ∀ m ∈ w.requestClose, m.origin = a := by
  intro m hm
  unfold World.requestClose at hm
  split at hm
  · exact h.inflight m hm
  · rename_i win hw
    rcases List.mem_append.mp hm with hm | hm
    · exact h.inflight m hm
    · rw [List.mem_singleton] at hm
      rw [hm]
      exact (h.window win hw).1

theorem append_origin (h : Owned a w) {m : Resolve} (hm : m.origin = a) :
    ∀ m' ∈ w.inflight ++ [m], m'.origin = a := by
  intro m' hm'
  rcases List.mem_append.mp hm' with hm' | hm'
  · exact h.inflight m' hm'
  · rw [List.mem_singleton] at hm'
    rw [hm']
    exact hm

theorem owned_inflight {inflight : List Resolve} (h : Owned a w)
    (hin : ∀ m ∈ inflight, m.origin = a) : Owned a { w with inflight := inflight } :=
  ⟨h.others, h.session, h.pending, h.window, hin, h.unbuilt, h.inbox, h.listening, h.outcomes⟩

theorem owned_refused {b : Nat} (h : Owned a w) :
    Owned a { w with pcs := w.setPc b .refused } where
  others c hc := by
    have hc : (w.setPc b .refused c).Active := hc
    rw [setPc_apply] at hc
    split at hc
    · cases hc
    · exact h.others c hc
  session := h.session
  pending := h.pending
  window := h.window
  inflight := h.inflight
  unbuilt hu := by
    have hu : (w.setPc b .refused a).Unbuilt := hu
    rw [setPc_apply] at hu
    split at hu
    · cases hu
    · exact h.unbuilt hu
  inbox := h.inbox
  listening hl hi := by
    have hl : (w.setPc b .refused a).Listening := hl
    rw [setPc_apply] at hl
    split at hl
    · cases hl
    · exact h.listening hl hi
  outcomes c r hr := by
    have hr : (w.setPc b .refused c).outcome? = some r := hr
    rw [setPc_apply] at hr
    split at hr
    · cases hr
    · exact h.outcomes c r hr

/-- The slot passes to `b` when nothing of an earlier ask is left. -/
theorem owned_claim {b : Nat} (h : Owned a w) (hq : Quiet w) : Owned b (w.afterClaim b) where
  others c hc := by
    have hc : (w.setPc b .claimed c).Active := hc
    rw [setPc_apply] at hc
    split at hc
    · assumption
    · exact absurd hc (hq.asks c)
  session := .inr rfl
  pending := .inr rfl
  window win hw := by
    have hw : w.window = some win := hw
    rw [hq.window] at hw
    cases hw
  inflight m hm := by
    have hm : m ∈ w.inflight := hm
    rw [hq.inflight] at hm
    cases hm
  unbuilt _ := hq.window
  inbox c m hm := by
    have hm : Function.update w.inbox b none c = some m := hm
    rw [Function.update_apply] at hm
    split at hm
    · cases hm
    · exact h.inbox c m hm
  listening _ _ := rfl
  outcomes c r hr := by
    have hr : (w.setPc b .claimed c).outcome? = some r := hr
    rw [setPc_apply] at hr
    split at hr
    · cases hr
    · exact h.outcomes c r hr

theorem owned_resolve {m : Resolve} (h : Owned a w) (hm : m.origin = a) :
    Owned a (w.resolve m) := by
  unfold World.resolve
  rcases h.pending with hp | hp
  · rw [hp]
    exact h
  · rw [hp]
    refine ⟨h.others, h.session, .inl rfl, h.window, h.inflight, h.unbuilt, ?_, ?_, h.outcomes⟩
    · intro b m' hm'
      have hm' : Function.update w.inbox a (some m) b = some m' := hm'
      rw [Function.update_apply] at hm'
      split at hm'
      · rename_i hb
        cases hm'
        rw [hb]
        exact hm
      · exact h.inbox b m' hm'
    · intro _ hi
      have hi : Function.update w.inbox a (some m) a = none := hi
      rw [Function.update_self] at hi
      cases hi

theorem owned_noWindow (h : Owned a w) : Owned a { w with window := none } :=
  ⟨h.others, h.session, h.pending, (fun win hw => by cases hw), h.inflight, fun _ => rfl, h.inbox,
    h.listening, h.outcomes⟩

theorem owned_deliver {k : Nat} {m : Resolve} (h : Owned a w) (hk : w.inflight[k]? = some m) :
    Owned a (w.afterDeliver k m) := by
  have hm : m.origin = a := h.inflight m (List.mem_of_getElem? hk)
  have herase : Owned a { w with inflight := w.inflight.eraseIdx k } :=
    owned_inflight h fun m' hm' => h.inflight m' (List.mem_of_mem_eraseIdx hm')
  unfold World.afterDeliver
  simp only
  split
  · split
    · exact herase
    · split
      · exact owned_noWindow (owned_resolve herase hm)
      · exact herase
  · exact owned_resolve herase hm

/-- An ask that is under way is the owner. -/
theorem Owned.eq_of_active {b : Nat} {pc : Pc} (h : Owned a w) (hb : w.pcs b = pc)
    (hact : pc.Active) : b = a :=
  h.others b (by rw [hb]; exact hact)

/-- A step leaves everything with its owner, or passes it to the ask that claims. -/
theorem owned_step {act : Action} (h : Owned a w) (hG : ClaimsApart w act)
    (hs : step w act = some w') : ∃ b, Owned b w' := by
  cases act with
  | claim b =>
    obtain rfl | ⟨hp, rfl⟩ := step_claim hs
    · exact ⟨a, owned_refused h⟩
    · exact ⟨b, owned_claim h (hG hp)⟩
  | closeLeftover b =>
    obtain ⟨hb, rfl⟩ := step_closeLeftover hs
    obtain rfl := h.eq_of_active hb trivial
    refine ⟨b, owned_setPc _ h (requestClose_origin h) ?_ ?_ ?_⟩
    · exact fun _ => h.unbuilt (by rw [hb]; trivial)
    · intro _
      rw [hb]
      trivial
    · intro r hr
      cases hr
  | build b =>
    obtain ⟨hb, hbuilt⟩ := step_build hs
    obtain rfl := h.eq_of_active hb trivial
    obtain rfl := hbuilt (h.unbuilt (by rw [hb]; trivial))
    have hset := owned_setPc .waiting h h.inflight (fun hu => by cases hu)
      (fun _ => by rw [hb]; trivial) (fun r hr => by cases hr)
    refine ⟨b, hset.others, hset.session, hset.pending, ?_, hset.inflight, ?_, hset.inbox,
      hset.listening, hset.outcomes⟩
    · intro win hw
      cases hw
      exact ⟨rfl, .inl rfl⟩
    · intro hu
      have hu : (w.setPc b .waiting b).Unbuilt := hu
      rw [setPc_apply, if_pos rfl] at hu
      cases hu
  | buildFail b => exact absurd hG id
  | fetch =>
    simp only [step] at hs
    split at hs
    · rename_i win hw
      cases hs
      refine ⟨a, h.others, h.session, h.pending, ?_, h.inflight, ?_, h.inbox, h.listening,
        h.outcomes⟩
      · intro win' hw'
        cases hw'
        exact ⟨(h.window win hw).1, h.session⟩
      · intro hu
        rw [h.unbuilt hu] at hw
        cases hw
    · cases hs
  | pick p =>
    simp only [step] at hs
    split at hs
    · rename_i builtBy s hw
      cases hs
      have hs : some s = some a := (h.window _ hw).2.resolve_left (by intro hc; cases hc)
      exact ⟨a, owned_inflight h (append_origin h (Option.some.inj hs))⟩
    · cases hs
  | cancel =>
    simp only [step] at hs
    split at hs
    · rename_i win hw
      cases hs
      exact ⟨a, owned_inflight h (append_origin h (h.window win hw).1)⟩
    · cases hs
  | userClose =>
    simp only [step] at hs
    split at hs
    · cases hs
      exact ⟨a, owned_inflight h (requestClose_origin h)⟩
    · cases hs
  | deliver k =>
    simp only [step] at hs
    split at hs
    · rename_i m hk
      cases hs
      exact ⟨a, owned_deliver h hk⟩
    · cases hs
  | wake b =>
    obtain ⟨hb, m, hm, rfl⟩ := step_wake hs
    obtain rfl := h.eq_of_active hb trivial
    refine ⟨b, owned_setPc _ h h.inflight (fun hu => by cases hu) (fun hl => by cases hl) ?_⟩
    intro r hr
    cases hr
    exact h.inbox b m hm
  | timeout b =>
    obtain ⟨hb, rfl⟩ := step_timeout hs
    obtain rfl := h.eq_of_active hb trivial
    refine ⟨b, owned_setPc _ h h.inflight (fun hu => by cases hu) (fun hl => by cases hl) ?_⟩
    intro r hr
    cases hr
    trivial
  | disconnect b =>
    obtain ⟨hb, hm, hp⟩ := step_disconnect hs
    obtain rfl := h.eq_of_active hb trivial
    exact absurd (h.listening (by rw [hb]; trivial) hm) hp
  | closeWindow b =>
    obtain ⟨r, hb, rfl⟩ := step_closeWindow hs
    obtain rfl := h.eq_of_active hb trivial
    refine ⟨b, owned_setPc _ h (requestClose_origin h) (fun hu => by cases hu)
      (fun hl => by cases hl) ?_⟩
    intro r' hr
    exact h.outcomes b r' (by rw [hb]; exact hr)
  | clearSession b =>
    obtain ⟨r, hb, rfl⟩ := step_clearSession hs
    obtain rfl := h.eq_of_active hb trivial
    have hset := owned_setPc (.sessionCleared r) h h.inflight (fun hu => by cases hu)
      (fun hl => by cases hl) (fun r' hr => h.outcomes b r' (by rw [hb]; exact hr))
    exact ⟨b, hset.others, .inl rfl, hset.pending, hset.window, hset.inflight, hset.unbuilt,
      hset.inbox, hset.listening, hset.outcomes⟩
  | clearPending b =>
    obtain ⟨r, hb, rfl⟩ := step_clearPending hs
    obtain rfl := h.eq_of_active hb trivial
    have hset := owned_setPc (.returned r) h h.inflight (fun hu => by cases hu)
      (fun hl => by cases hl) (fun r' hr => h.outcomes b r' (by rw [hb]; exact hr))
    refine ⟨b, hset.others, hset.session, .inl rfl, hset.window, hset.inflight, hset.unbuilt,
      hset.inbox, ?_, hset.outcomes⟩
    intro hl
    have hl : (w.setPc b (.returned r) b).Listening := hl
    rw [setPc_apply, if_pos rfl] at hl
    cases hl

/-- When everything around belongs to one ask, the next step is isolated. -/
theorem isolated_of_owned {act : Action} (h : Owned a w) (hs : step w act = some w') :
    Isolated w act := by
  cases act with
  | deliver k =>
    intro m b hk hb
    have hm := h.inflight m (List.mem_of_getElem? hk)
    rcases h.pending with hp | hp
    · rw [hp] at hb
      cases hb
    · rw [hp] at hb
      cases hb
      exact hm
  | build b =>
    have hb := (step_build hs).1
    obtain rfl := h.eq_of_active hb trivial
    exact h.unbuilt (by rw [hb]; trivial)
  | disconnect b =>
    obtain ⟨hb, hm, hp⟩ := step_disconnect hs
    obtain rfl := h.eq_of_active hb trivial
    exact absurd (h.listening (by rw [hb]; trivial) hm) hp
  | closeWindow b =>
    obtain ⟨r, hb, -⟩ := step_closeWindow hs
    obtain rfl := h.eq_of_active hb trivial
    exact fun win hw => (h.window win hw).1
  | clearSession b =>
    obtain ⟨r, hb, -⟩ := step_clearSession hs
    obtain rfl := h.eq_of_active hb trivial
    exact h.session
  | clearPending b =>
    obtain ⟨r, hb, -⟩ := step_clearPending hs
    obtain rfl := h.eq_of_active hb trivial
    exact h.pending
  | _ => trivial

end Owned

/-- **Picker isolation.** In every run in which the free slot is claimed only when nothing of an
earlier ask is left and no window build fails, every step is isolated, and every ask that has
stopped waiting did so by its own pick, its own cancel or its own timeout. -/
theorem claims_apart_isolated {w w' : World} {as : List Action} (h0 : Start w)
    (h : Exec step ClaimsApart w as w') :
    Exec step (fun w act => ClaimsApart w act ∧ Isolated w act) w as w' ∧
      ∀ a r, (w'.pcs a).outcome? = some r → r.Own a := by
  have hstep : ∀ s a t, (∃ b, Owned b s) → ClaimsApart s a → step s a = some t →
      ∃ b, Owned b t := fun _ _ _ ⟨_, hb⟩ hG hs => owned_step hb hG hs
  refine ⟨h.forall_steps hstep (fun _ _ _ ⟨_, hb⟩ _ hs => isolated_of_owned hb hs)
    ⟨0, owned_start h0⟩, ?_⟩
  obtain ⟨b, hb⟩ := h.invariant hstep ⟨0, owned_start h0⟩
  exact hb.outcomes

/-! ## Two asks -/

def idle : World := ⟨none, none, none, [], fun _ => .idle, fun _ => none⟩

theorem idle_start : Start idle := ⟨rfl, rfl, rfl, rfl, fun _ => rfl, fun _ => rfl⟩

def arc : PickerPick := ⟨"arc", none⟩

/-- Ask 0 is picked and cleaned up, then ask 1 claims the slot and is cancelled. -/
def oneAfterTheOther : List Action :=
  [.claim 0, .closeLeftover 0, .build 0, .fetch, .pick arc, .deliver 0, .wake 0, .closeWindow 0,
    .clearSession 0, .clearPending 0, .deliver 0,
    .claim 1, .closeLeftover 1, .build 1, .fetch, .cancel, .deliver 0, .wake 1]

theorem claims_apart_isolated_twice :
    ∃ w, run step idle oneAfterTheOther = some w ∧
      Exec step (fun w act => ClaimsApart w act ∧ Isolated w act) idle oneAfterTheOther w ∧
      ∀ a r, (w.pcs a).outcome? = some r → r.Own a := by
  have hexec : ∃ w, Exec step ClaimsApart idle oneAfterTheOther w := by
    refine ⟨_, .cons (fun _ => ⟨fun _ h => h, rfl, rfl⟩) rfl <| .cons trivial rfl <|
      .cons trivial rfl <| .cons trivial rfl <| .cons trivial rfl <| .cons trivial rfl <|
      .cons trivial rfl <| .cons trivial rfl <| .cons trivial rfl <| .cons trivial rfl <|
      .cons trivial rfl <| .cons (fun _ => ⟨?_, rfl, rfl⟩) rfl <| .cons trivial rfl <|
      .cons trivial rfl <| .cons trivial rfl <| .cons trivial rfl <| .cons trivial rfl <|
      .cons trivial rfl <| .nil _⟩
    intro a ha
    match a with
    | 0 => exact ha
    | _ + 1 => exact ha
  obtain ⟨w, h⟩ := hexec
  exact ⟨w, h.run_eq, claims_apart_isolated idle_start h⟩

/-- Ask 1 claims the slot after the pick for ask 0 and before its cleanup. -/
def claimedDuringCleanup : List Action :=
  [.claim 0, .closeLeftover 0, .build 0, .fetch, .pick arc, .deliver 0, .wake 0, .closeWindow 0,
    .deliver 0, .claim 1, .clearSession 0, .clearPending 0, .closeLeftover 1, .build 1, .fetch,
    .disconnect 1]

/-- The cleanup of ask 0 clears the session of ask 1 and drops its sender: the window of ask 1
shows nothing and its wait ends at once, by no pick, cancel or timeout of its own. -/
theorem cleanup_disconnects_next_ask :
    ∃ w, run step idle claimedDuringCleanup = some w ∧
      w.window = some ⟨1, none⟩ ∧ w.pcs 1 = .woken .disconnected ∧
      ¬ Outcome.Own 1 .disconnected :=
  ⟨_, rfl, rfl, rfl, fun h => h⟩

end LinkPilot.Picker
