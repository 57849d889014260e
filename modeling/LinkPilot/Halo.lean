import LinkPilot.Ask

/-!
# The picker window

Model of `HaloShell` of `apps/desktop/src/picker/halo/HaloShell.tsx`: the tiles, the wheel that opens
over a browser while ⌥ is held, and the ways to launch a profile from it.  The listeners close over
what was rendered last, so `shown` and `state` are two views; React renders at moments of its own,
and a render includes its effects.  Which sector a point aims at, and where the tiles are, is a
parameter.

Principal results:

* `window_reports` — whatever happens in the window, each pick it reports is a profile of the choice it
  names, or the choice has none; at most one pick has a profile; and a launch finds its profile in
  every run in which no pointer move comes between entering a tile and the render after it.
* `ask_opens_offered` — so an ask opens a target that was offered, with a profile that was visible.
-/

set_option autoImplicit false

namespace LinkPilot.Halo

open Picker (PickerPick)

/-! ## `HaloShell.tsx` -/

inductive KeyName where
  | escape
  | enter
  | space
  | alt
  | other
  deriving DecidableEq, Repr

/-- `e.code`; the digits are `Digit1` to `Digit9`, counted from zero. -/
inductive Code where
  | digit (index : Fin 9)
  | keyC
  | keyX
  | altLeft
  | altRight
  | other
  deriving DecidableEq, Repr

/-- A `KeyboardEvent`. -/
structure Key where
  key : KeyName
  code : Code
  altKey : Bool
  metaKey : Bool
  ctrlKey : Bool
  shiftKey : Bool
  deriving DecidableEq, Repr

/-- `isSummonKeyRelease`. -/
def Key.isSummonKeyRelease (e : Key) : Bool :=
  decide (e.key = .alt) || decide (e.code = .altLeft) || decide (e.code = .altRight) || !e.altKey

def Key.plain (e : Key) : Bool := !e.metaKey && !e.ctrlKey && !e.altKey && !e.shiftKey

/-- The geometry of the wheel: `profileIndexFromPoint`, and the zone in which a click counts.
`index_lt` is assumed of the former, which rounds `t * count` down for a `t` below one. -/
structure Wheel (Point Rect : Type) where
  profileIndexFromPoint : Point → Rect → Nat → Option Nat
  index_lt : ∀ {point rect count i}, profileIndexFromPoint point rect count = some i → i < count
  inZone : Point → Rect → Bool

/-- The state of the component, without what is only shown. -/
structure View (Rect : Type) where
  optDown : Bool
  hoveredTile : Option Nat
  hoveredProfile : Option Nat
  tileRect : Option Rect
  launching : Bool

/-- The component: the view that was rendered last, the state that the next render shows, the refs,
the picks whose timers run, the cuts that wait for the clipboard, and what was reported. -/
structure Shell (Point Rect : Type) where
  shown : View Rect
  state : View Rect
  launchStarted : Bool
  lastPointer : Option Point
  timers : List PickerPick
  cuts : Nat
  /-- A launch was started without a profile: the toast cannot be rendered. -/
  broken : Bool
  mounted : Bool
  reported : List (Option PickerPick)

inductive Event (Point Rect : Type) where
  | keyDown (e : Key)
  | keyUp (e : Key)
  | blur
  | pointerMove (point : Point)
  | enterTile (i : Nat) (point : Point)
  | click (point : Point) (tile : Option Nat)
  | cutButton
  | relayout (rect : Option Rect)
  | render (rect : Option Rect)
  | clipboardDone
  | timeout

section Shell

variable {Point Rect : Type} (wheel : Wheel Point Rect) (choices : List PickerChoice)

/-- `browser`. -/
def View.browser (v : View Rect) : Option PickerChoice := v.hoveredTile.bind fun i => choices[i]?

def multi (b : PickerChoice) : Bool := decide (1 < b.profiles.length)

/-- The browser and the rectangle of the wheel, while it is open (`showWheel`). -/
def View.openWheel (v : View Rect) : Option (PickerChoice × Rect) :=
  match v.browser choices, v.tileRect with
  | some b, some rect =>
    if v.optDown && multi b && !v.launching then some (b, rect) else none
  | _, _ => none

namespace Shell

variable (s : Shell Point Rect)

def report (r : Option PickerPick) : Shell Point Rect := { s with reported := s.reported ++ [r] }

def setLaunching (launching : Bool) : Shell Point Rect :=
  { s with state := { s.state with launching := launching } }

/-- `launch`; a profile that is not there is `undefined`. -/
def launch (b : PickerChoice) (p : Option PickerProfile) : Shell Point Rect :=
  if s.launchStarted then s
  else
    match p with
    | some p =>
      { s.setLaunching true with
        launchStarted := true
        timers := s.timers ++ [⟨b.id, some p.id⟩] }
    | none => { s.setLaunching true with launchStarted := true, broken := true }

/-- `onKey`. -/
def onKey (e : Key) : Shell Point Rect :=
  if e.key = .escape then
    if s.shown.launching then s.setLaunching false
    else if s.shown.hoveredProfile.isSome then
      { s with state := { s.state with hoveredProfile := none } }
    else s.report none
  else if e.code = .keyC ∧ e.plain then s
  else if e.code = .keyX ∧ e.plain then { s with cuts := s.cuts + 1 }
  else
    match s.shown.openWheel choices with
    | none => s
    | some (b, _) =>
      match e.code with
      | .digit index => if index < b.profiles.length then s.launch b b.profiles[index]? else s
      | _ =>
        if e.key = .enter ∨ e.key = .space then
          s.launch b b.profiles[s.shown.hoveredProfile.getD 0]?
        else s

/-- `onDown` of `useModKey`, then `onKey`. -/
def keyDown (e : Key) : Shell Point Rect :=
  let s := if e.altKey then { s with state := { s.state with optDown := true } } else s
  s.onKey choices e

/-- `onKeyUp`. -/
def release (e : Key) : Shell Point Rect :=
  if e.isSummonKeyRelease && !s.launchStarted then
    match s.shown.openWheel choices with
    | none => s
    | some (b, rect) =>
      let aimedProfile :=
        match s.lastPointer with
        | some point => wheel.profileIndexFromPoint point rect b.profiles.length
        | none => s.shown.hoveredProfile
      match aimedProfile with
      | none => s
      | some i => s.launch b b.profiles[i]?
  else s

def letGo : Shell Point Rect := { s with state := { s.state with optDown := false } }

/-- `onKeyUp`, which captures, then `onUp` of `useModKey`. -/
def keyUp (e : Key) : Shell Point Rect :=
  let s := s.release wheel choices e
  if e.altKey then s else s.letGo

/-- `onMove`, which listens while the wheel is open. -/
def pointerMove (point : Point) : Shell Point Rect :=
  match s.shown.openWheel choices with
  | none => s
  | some (b, rect) =>
    { s with
      lastPointer := some point
      state := { s.state with
        hoveredProfile := wheel.profileIndexFromPoint point rect b.profiles.length } }

/-- `onMouseEnter` of a tile. -/
def enterTile (i : Nat) (point : Point) : Shell Point Rect :=
  { s with
    lastPointer := some point
    state := { s.state with hoveredTile := some i, hoveredProfile := none } }

/-- `onClick` of a tile. -/
def clickTile (c : PickerChoice) : Shell Point Rect :=
  if s.shown.optDown && multi c then s
  else
    match (c.profiles.find? fun p => decide (some p.id = c.defaultProfileId)).or
      c.profiles.head? with
    | some p => s.launch c (some p)
    | none => { s.setLaunching true with timers := s.timers ++ [⟨c.id, none⟩] }

/-- The click on the wheel that a click is, if it is one. -/
def wheelClick (point : Point) : Option (PickerChoice × Nat) :=
  match s.shown.openWheel choices, s.shown.hoveredProfile with
  | some (b, rect), some i => if wheel.inZone point rect then some (b, i) else none
  | _, _ => none

/-- `onClick`, which captures, and else the tile's. -/
def click (point : Point) (tile : Option Nat) : Shell Point Rect :=
  match s.wheelClick wheel choices point with
  | some (b, i) => s.launch b b.profiles[i]?
  | none =>
    match tile.bind fun i => choices[i]? with
    | some c => s.clickTile c
    | none => s

/-- `measure`, for a browser with a wheel. -/
def measure (rect : Option Rect) : Shell Point Rect :=
  { s with state := { s.state with tileRect := rect.or s.state.tileRect } }

/-- The effects of a render whose browser is another one than before. -/
def followBrowser (rect : Option Rect) : Shell Point Rect :=
  match s.shown.browser choices with
  | some b => if multi b then s.measure rect else
    { s with state := { s.state with tileRect := none } }
  | none => { s with state := { s.state with tileRect := none } }

/-- A render of the state, and its effects. -/
def render (rect : Option Rect) : Shell Point Rect :=
  if s.broken then { s with mounted := false }
  else
    let old := s.shown
    let s := { s with shown := s.state }
    let s := if old.hoveredTile = s.shown.hoveredTile then s else s.followBrowser choices rect
    match s.shown.openWheel choices with
    | some _ => s
    | none => { s with state := { s.state with hoveredProfile := none } }

/-- `measure` on scrolling and resizing. -/
def relayout (rect : Option Rect) : Shell Point Rect :=
  match s.shown.browser choices with
  | some b => if multi b then s.measure rect else s
  | none => s

/-- What happens in a window that is still painted. -/
def handle : Event Point Rect → Shell Point Rect
  | .keyDown e => s.keyDown choices e
  | .keyUp e => s.keyUp wheel choices e
  | .blur => s.letGo
  | .pointerMove point => s.pointerMove wheel choices point
  | .enterTile i point => s.enterTile i point
  | .click point tile => s.click wheel choices point tile
  | .cutButton => { s with cuts := s.cuts + 1 }
  | .relayout rect => s.relayout choices rect
  | .render rect => s.render choices rect
  | .clipboardDone | .timeout => s

/-- A step of the window: an event, the end of a cut's write to the clipboard, which cancels, or the
timer of a launch. -/
def step (e : Event Point Rect) : Shell Point Rect :=
  match e with
  | .clipboardDone =>
    match s.cuts with
    | 0 => s
    | cuts + 1 => { s with cuts := cuts, reported := s.reported ++ [none] }
  | .timeout =>
    match s.timers with
    | [] => s
    | pick :: timers => { s with timers := timers, reported := s.reported ++ [some pick] }
  | e => if s.mounted then s.handle wheel choices e else s

/-- A freshly opened window. -/
def opened : Shell Point Rect where
  shown := ⟨false, none, none, none, false⟩
  state := ⟨false, none, none, none, false⟩
  launchStarted := false
  lastPointer := none
  timers := []
  cuts := 0
  broken := false
  mounted := true
  reported := []

/-- The window after the events. -/
def run (events : List (Event Point Rect)) : Shell Point Rect :=
  events.foldl (fun s e => s.step wheel choices e) s

end Shell

end Shell

/-! ## What a step comes to -/

/-- What the window has decided: whether a launch has started and found no profile, the picks whose
timers run, and what was reported. -/
structure Record where
  launchStarted : Bool
  broken : Bool
  timers : List PickerPick
  reported : List (Option PickerPick)

def Shell.record {Point Rect : Type} (s : Shell Point Rect) : Record :=
  ⟨s.launchStarted, s.broken, s.timers, s.reported⟩

/-- What a step does to the record; a launch misses its profile only where the view is `stale`. -/
inductive Recorded (choices : List PickerChoice) (stale : Prop) (r : Record) : Record → Prop
  | quiet : Recorded choices stale r r
  | cancel : Recorded choices stale r { r with reported := r.reported ++ [none] }
  | launch {b : PickerChoice} {p : PickerProfile} (hb : b ∈ choices) (hp : p ∈ b.profiles)
    (hfirst : r.launchStarted = false) :
    Recorded choices stale r
      { r with launchStarted := true, timers := r.timers ++ [⟨b.id, some p.id⟩] }
  | miss (hstale : stale) (hfirst : r.launchStarted = false) :
    Recorded choices stale r { r with launchStarted := true, broken := true }
  | bare {c : PickerChoice} (hc : c ∈ choices) (hnone : c.profiles = []) :
    Recorded choices stale r { r with timers := r.timers ++ [⟨c.id, none⟩] }
  | fire {pick : PickerPick} {timers : List PickerPick} (hnext : r.timers = pick :: timers) :
    Recorded choices stale r { r with timers := timers, reported := r.reported ++ [some pick] }

/-- The hovered profile is one of the hovered browser. -/
def HoverOk {Rect : Type} (choices : List PickerChoice) (v : View Rect) : Prop :=
  ∀ i, v.hoveredProfile = some i → ∃ b, v.browser choices = some b ∧ i < b.profiles.length

section Steps

variable {Point Rect : Type} {wheel : Wheel Point Rect} {choices : List PickerChoice}
  {s : Shell Point Rect}

/-- The wheel is open over the hovered browser, which has several profiles. -/
theorem openWheel_eq_some {v : View Rect} {b : PickerChoice} {rect : Rect}
    (h : v.openWheel choices = some (b, rect)) :
    v.browser choices = some b ∧ b ∈ choices ∧ 1 < b.profiles.length := by
  unfold View.openWheel at h
  split at h
  · rename_i b' rect' hb hrect
    split at h
    · rename_i hopen
      cases h
      obtain ⟨i, -, hi⟩ := Option.bind_eq_some_iff.mp hb
      simp only [multi, Bool.and_eq_true, decide_eq_true_eq] at hopen
      exact ⟨hb, List.mem_of_getElem? hi, hopen.1.2⟩
    · cases h
  · cases h

/-- Unless the view is stale, what is hovered is there. -/
theorem hovered_lt {v : View Rect} {b : PickerChoice} {rect : Rect} {i : Nat}
    (hopen : v.openWheel choices = some (b, rect)) (hi : v.hoveredProfile = some i) :
    i < b.profiles.length ∨ ¬ HoverOk choices v := by
  by_cases hok : HoverOk choices v
  · obtain ⟨b', hb', hlt⟩ := hok i hi
    cases (openWheel_eq_some hopen).1.symm.trans hb'
    exact .inl hlt
  · exact .inr hok

theorem recorded_launch {stale : Prop} {b : PickerChoice} (hb : b ∈ choices)
    {p : Option PickerProfile} (hp : ∀ q, p = some q → q ∈ b.profiles)
    (hnone : p = none → stale) : Recorded choices stale s.record (s.launch b p).record := by
  unfold Shell.launch
  cases hstarted : s.launchStarted with
  | true =>
    rw [if_pos rfl]
    exact .quiet
  | false =>
    rw [if_neg Bool.false_ne_true]
    cases p with
    | some q => exact .launch hb (hp q rfl) hstarted
    | none => exact .miss (hnone rfl) hstarted

/-- A launch of the profile at some place. -/
theorem recorded_launch_at {stale : Prop} {b : PickerChoice} (hb : b ∈ choices) {i : Nat}
    (hi : i < b.profiles.length ∨ stale) :
    Recorded choices stale s.record (s.launch b b.profiles[i]?).record := by
  refine recorded_launch hb (fun _ hq => List.mem_of_getElem? hq) fun hnone => ?_
  rcases hi with hlt | hstale
  · have := List.getElem?_eq_none_iff.mp hnone
    omega
  · exact hstale

theorem recorded_onKey (e : Key) :
    Recorded choices (¬ HoverOk choices s.shown) s.record (s.onKey choices e).record := by
  unfold Shell.onKey
  split
  · split
    · exact .quiet
    · split
      · exact .quiet
      · exact .cancel
  split
  · exact .quiet
  split
  · exact .quiet
  split
  · exact .quiet
  · rename_i b rect hopen
    obtain ⟨-, hb, hmulti⟩ := openWheel_eq_some hopen
    split
    · split
      · rename_i hlt
        exact recorded_launch_at hb (.inl hlt)
      · exact .quiet
    · split
      · cases hhovered : s.shown.hoveredProfile with
        | some i => exact recorded_launch_at hb (hovered_lt hopen hhovered)
        | none => exact recorded_launch_at hb (.inl (by simp only [Option.getD_none]; omega))
      · exact .quiet

theorem recorded_keyDown (e : Key) :
    Recorded choices (¬ HoverOk choices s.shown) s.record (s.keyDown choices e).record := by
  unfold Shell.keyDown
  by_cases halt : e.altKey = true
  · simp only [if_pos halt]
    exact @recorded_onKey _ _ choices
      { s with state := { s.state with optDown := true } } e
  · simp only [if_neg halt]
    exact recorded_onKey e

theorem recorded_release (e : Key) :
    Recorded choices (¬ HoverOk choices s.shown) s.record (s.release wheel choices e).record := by
  unfold Shell.release
  split
  · split
    · exact .quiet
    · rename_i b rect hopen
      obtain ⟨-, hb, -⟩ := openWheel_eq_some hopen
      simp only
      split
      · exact .quiet
      · rename_i i haimed
        split at haimed
        · exact recorded_launch_at hb (.inl (wheel.index_lt haimed))
        · exact recorded_launch_at hb (hovered_lt hopen haimed)
  · exact .quiet

theorem recorded_keyUp (e : Key) :
    Recorded choices (¬ HoverOk choices s.shown) s.record (s.keyUp wheel choices e).record := by
  have hrelease := @recorded_release _ _ wheel choices s e
  unfold Shell.keyUp
  simp only
  split
  · exact hrelease
  · exact hrelease

theorem recorded_clickTile {c : PickerChoice} (hc : c ∈ choices) :
    Recorded choices (¬ HoverOk choices s.shown) s.record (s.clickTile c).record := by
  unfold Shell.clickTile
  split
  · exact .quiet
  · cases hdefault : (c.profiles.find? fun p => decide (some p.id = c.defaultProfileId)).or
        c.profiles.head? with
    | some p =>
      refine recorded_launch hc (fun q hq => ?_) nofun
      cases hq
      rcases Option.or_eq_some_iff.mp hdefault with hfound | ⟨-, hhead⟩
      · exact List.mem_of_find?_eq_some hfound
      · exact List.mem_of_head? hhead
    | none =>
      have hnone : c.profiles = [] := List.head?_eq_none_iff.mp (Option.or_eq_none_iff.mp hdefault).2
      exact .bare hc hnone

theorem recorded_click (point : Point) (tile : Option Nat) :
    Recorded choices (¬ HoverOk choices s.shown) s.record (s.click wheel choices point tile).record := by
  unfold Shell.click
  split
  · rename_i b i hclick
    unfold Shell.wheelClick at hclick
    split at hclick
    · rename_i b' rect i' hopen hhovered
      split at hclick
      · cases hclick
        exact recorded_launch_at (openWheel_eq_some hopen).2.1 (hovered_lt hopen hhovered)
      · cases hclick
    · cases hclick
  · split
    · rename_i c hc
      obtain ⟨i, -, hi⟩ := Option.bind_eq_some_iff.mp hc
      exact recorded_clickTile (List.mem_of_getElem? hi)
    · exact .quiet

theorem record_render (rect : Option Rect) : (s.render choices rect).record = s.record := by
  have hfollow : ∀ s : Shell Point Rect, (s.followBrowser choices rect).record = s.record := by
    intro s
    unfold Shell.followBrowser
    split
    · split <;> rfl
    · rfl
  unfold Shell.render
  split
  · rfl
  · simp only
    split <;> split <;> first | rfl | exact hfollow _

/-- **One step.** -/
theorem recorded_step (e : Event Point Rect) :
    Recorded choices (¬ HoverOk choices s.shown) s.record (s.step wheel choices e).record := by
  have hhandle : ∀ e, Recorded choices (¬ HoverOk choices s.shown) s.record (s.handle wheel choices e).record := by
    intro e
    cases e with
    | keyDown e => exact recorded_keyDown e
    | keyUp e => exact recorded_keyUp e
    | click point tile => exact recorded_click point tile
    | render rect =>
      show Recorded choices (¬ HoverOk choices s.shown) s.record (s.render choices rect).record
      rw [record_render]
      exact .quiet
    | pointerMove point =>
      show Recorded choices (¬ HoverOk choices s.shown) s.record (s.pointerMove wheel choices point).record
      unfold Shell.pointerMove
      split <;> exact .quiet
    | relayout rect =>
      show Recorded choices (¬ HoverOk choices s.shown) s.record (s.relayout choices rect).record
      unfold Shell.relayout
      split
      · split <;> exact .quiet
      · exact .quiet
    | _ => exact .quiet
  cases e with
  | clipboardDone =>
    unfold Shell.step
    simp only
    split
    · exact .quiet
    · exact .cancel
  | timeout =>
    unfold Shell.step
    simp only
    split
    · exact .quiet
    · rename_i hnext
      exact .fire hnext
  | _ =>
    unfold Shell.step
    simp only
    split
    · exact hhandle _
    · exact .quiet

/-! ### The hovered profile -/

/-- No pointer move is handled between entering a tile and the render after it. -/
def SettledAt (s : Shell Point Rect) : Event Point Rect → Prop
  | .pointerMove _ => s.shown.hoveredTile = s.state.hoveredTile
  | _ => True

/-- What is hovered is there, as it was rendered and as it will be. -/
def Hovers (choices : List PickerChoice) (s : Shell Point Rect) : Prop :=
  HoverOk choices s.shown ∧ HoverOk choices s.state

theorem hoverOk_none {v : View Rect} (h : v.hoveredProfile = none) : HoverOk choices v := by
  intro i hi
  cases h.symm.trans hi

/-- A step that leaves the view and what is hovered alone. -/
theorem Hovers.of_eq {s' : Shell Point Rect} (h : Hovers choices s) (hshown : s'.shown = s.shown)
    (htile : s'.state.hoveredTile = s.state.hoveredTile)
    (hprofile : s'.state.hoveredProfile = s.state.hoveredProfile ∨
      s'.state.hoveredProfile = none) : Hovers choices s' := by
  refine ⟨by rw [hshown]; exact h.1, fun i hi => ?_⟩
  rcases hprofile with hsame | hnone
  · obtain ⟨b, hb, hlt⟩ := h.2 i (hsame.symm.trans hi)
    refine ⟨b, ?_, hlt⟩
    unfold View.browser at hb ⊢
    rwa [htile]
  · cases hnone.symm.trans hi

theorem hovers_launch (h : Hovers choices s) (b : PickerChoice) (p : Option PickerProfile) :
    Hovers choices (s.launch b p) := by
  unfold Shell.launch
  split
  · exact h
  · cases p <;> exact h.of_eq rfl rfl (.inl rfl)

theorem hovers_onKey (h : Hovers choices s) (e : Key) : Hovers choices (s.onKey choices e) := by
  unfold Shell.onKey
  split
  · split
    · exact h.of_eq rfl rfl (.inl rfl)
    · split
      · exact h.of_eq rfl rfl (.inr rfl)
      · exact h
  split
  · exact h
  split
  · exact h
  split
  · exact h
  · split
    · split
      · exact hovers_launch h _ _
      · exact h
    · split
      · exact hovers_launch h _ _
      · exact h

theorem hovers_keyDown (h : Hovers choices s) (e : Key) :
    Hovers choices (s.keyDown choices e) := by
  unfold Shell.keyDown
  simp only
  split
  · have hdown : Hovers choices { s with state := { s.state with optDown := true } } :=
      h.of_eq rfl rfl (.inl rfl)
    exact hovers_onKey hdown e
  · exact hovers_onKey h e

theorem hovers_keyUp (h : Hovers choices s) (e : Key) :
    Hovers choices (s.keyUp wheel choices e) := by
  have hrelease : Hovers choices (s.release wheel choices e) := by
    unfold Shell.release
    split
    · split
      · exact h
      · simp only
        split
        · exact h
        · exact hovers_launch h _ _
    · exact h
  unfold Shell.keyUp
  simp only
  split
  · exact hrelease
  · exact hrelease.of_eq rfl rfl (.inl rfl)

theorem hovers_click (h : Hovers choices s) (point : Point) (tile : Option Nat) :
    Hovers choices (s.click wheel choices point tile) := by
  unfold Shell.click
  split
  · exact hovers_launch h _ _
  · split
    · unfold Shell.clickTile
      split
      · exact h
      · split
        · exact hovers_launch h _ _
        · exact h.of_eq rfl rfl (.inl rfl)
    · exact h

theorem hovers_render (h : Hovers choices s) (rect : Option Rect) :
    Hovers choices (s.render choices rect) := by
  have hfollow : ∀ {s : Shell Point Rect}, Hovers choices s →
      Hovers choices (s.followBrowser choices rect) := by
    intro s h
    unfold Shell.followBrowser
    split
    · split <;> exact h.of_eq rfl rfl (.inl rfl)
    · exact h.of_eq rfl rfl (.inl rfl)
  have hboth : Hovers choices { s with shown := s.state } := ⟨h.2, h.2⟩
  have hafter : Hovers choices
      (if s.shown.hoveredTile = s.state.hoveredTile then { s with shown := s.state }
      else Shell.followBrowser choices { s with shown := s.state } rect) := by
    split
    · exact hboth
    · exact hfollow hboth
  unfold Shell.render
  split
  · exact h
  · simp only
    split
    · exact hafter
    · exact hafter.of_eq rfl rfl (.inr rfl)

/-- A move hovers a profile of the rendered browser, which is the present one. -/
theorem hovers_pointerMove (h : Hovers choices s)
    (hsettled : s.shown.hoveredTile = s.state.hoveredTile) (point : Point) :
    Hovers choices (s.pointerMove wheel choices point) := by
  unfold Shell.pointerMove
  split
  · exact h
  · rename_i b rect hopen
    refine ⟨h.1, fun i hi => ⟨b, ?_, wheel.index_lt hi⟩⟩
    have hbrowser := (openWheel_eq_some hopen).1
    unfold View.browser at hbrowser ⊢
    rwa [hsettled] at hbrowser

theorem hovers_handle {e : Event Point Rect} (h : Hovers choices s) (hsettled : SettledAt s e) :
    Hovers choices (s.handle wheel choices e) := by
  cases e with
  | keyDown e => exact hovers_keyDown h e
  | keyUp e => exact hovers_keyUp h e
  | pointerMove point => exact hovers_pointerMove h hsettled point
  | enterTile i point => exact ⟨h.1, hoverOk_none rfl⟩
  | click point tile => exact hovers_click h point tile
  | render rect => exact hovers_render h rect
  | relayout rect =>
    show Hovers choices (s.relayout choices rect)
    unfold Shell.relayout
    split
    · split
      · exact h.of_eq rfl rfl (.inl rfl)
      · exact h
    · exact h
  | blur => exact h.of_eq rfl rfl (.inl rfl)
  | _ => exact h

theorem hovers_step {e : Event Point Rect} (h : Hovers choices s) (hsettled : SettledAt s e) :
    Hovers choices (s.step wheel choices e) := by
  have hhandle := @hovers_handle _ _ wheel choices s e h hsettled
  cases e with
  | clipboardDone =>
    unfold Shell.step
    simp only
    split <;> exact h
  | timeout =>
    unfold Shell.step
    simp only
    split <;> exact h
  | _ =>
    unfold Shell.step
    simp only
    split
    · exact hhandle
    · exact h

end Steps

/-! ## Whole runs -/

/-- The picks of the window, those whose timers run behind those that were reported. -/
def Record.picks (r : Record) : List PickerPick := r.reported.filterMap id ++ r.timers

/-- A profile of the choice it names, or none where the choice has none. -/
def Offered (choices : List PickerChoice) (pick : PickerPick) : Prop :=
  ∃ c ∈ choices, pick.browserId = c.id ∧
    ((∃ p ∈ c.profiles, pick.profileId = some p.id) ∨
      c.profiles = [] ∧ pick.profileId = none)

/-- The picks that name a profile. -/
def Record.launches (r : Record) : List PickerPick := r.picks.filter fun p => p.profileId.isSome

/-- What holds of the record at all times. -/
structure RecordOk (choices : List PickerChoice) (r : Record) : Prop where
  offered : ∀ pick ∈ r.picks, Offered choices pick
  launches : r.launches.length = if r.launchStarted && !r.broken then 1 else 0
  broken : r.broken = true → r.launchStarted = true

section Runs

variable {Point Rect : Type} {wheel : Wheel Point Rect} {choices : List PickerChoice} {stale : Prop}
  {r r' : Record}

theorem recordOk_of_picks (h : RecordOk choices r) (hpicks : r'.picks = r.picks)
    (hstarted : r'.launchStarted = r.launchStarted) (hbroken : r'.broken = r.broken) :
    RecordOk choices r' where
  offered := by
    rw [hpicks]
    exact h.offered
  launches := by
    rw [Record.launches, hpicks, hstarted, hbroken]
    exact h.launches
  broken := by
    rw [hstarted, hbroken]
    exact h.broken

theorem recordOk_step (h : RecordOk choices r) (hr : Recorded choices stale r r') :
    RecordOk choices r' := by
  cases hr with
  | quiet => exact h
  | cancel => exact recordOk_of_picks h (by simp [Record.picks]) rfl rfl
  | fire hnext => exact recordOk_of_picks h (by simp [Record.picks, hnext]) rfl rfl
  | @launch b p hb hp hfirst =>
    have hpicks : Record.picks { r with
        launchStarted := true, timers := r.timers ++ [⟨b.id, some p.id⟩] } =
          r.picks ++ [⟨b.id, some p.id⟩] := by
      simp [Record.picks]
    have hwhole : r.broken = false := by
      cases hbroken : r.broken with
      | false => rfl
      | true => cases hfirst.symm.trans (h.broken hbroken)
    have hnone : r.launches.length = 0 := by
      rw [h.launches, hfirst]
      rfl
    refine ⟨fun pick hpick => ?_, ?_, fun _ => rfl⟩
    · rw [hpicks] at hpick
      rcases List.mem_append.mp hpick with hold | hnew
      · exact h.offered pick hold
      · cases List.mem_singleton.mp hnew
        exact ⟨b, hb, rfl, .inl ⟨p, hp, rfl⟩⟩
    · unfold Record.launches at hnone ⊢
      rw [hpicks, List.filter_append, List.length_append, hnone]
      simp [hwhole]
  | miss hstale hfirst =>
    have hnone : r.launches.length = 0 := by
      rw [h.launches, hfirst]
      rfl
    exact ⟨h.offered, hnone, fun _ => rfl⟩
  | @bare c hc hprofiles =>
    have hpicks : Record.picks { r with timers := r.timers ++ [⟨c.id, none⟩] } =
        r.picks ++ [⟨c.id, none⟩] := by
      simp [Record.picks]
    refine ⟨fun pick hpick => ?_, ?_, h.broken⟩
    · rw [hpicks] at hpick
      rcases List.mem_append.mp hpick with hold | hnew
      · exact h.offered pick hold
      · cases List.mem_singleton.mp hnew
        exact ⟨c, hc, rfl, .inr ⟨hprofiles, rfl⟩⟩
    · have hlaunches := h.launches
      unfold Record.launches at hlaunches ⊢
      rw [hpicks, List.filter_append, List.length_append, hlaunches]
      simp

/-- The condition on a run. -/
def Settled (wheel : Wheel Point Rect) (choices : List PickerChoice) (s : Shell Point Rect) :
    List (Event Point Rect) → Prop
  | [] => True
  | e :: events => SettledAt s e ∧ Settled wheel choices (s.step wheel choices e) events

theorem recordOk_run (events : List (Event Point Rect)) {s : Shell Point Rect}
    (h : RecordOk choices s.record) : RecordOk choices (s.run wheel choices events).record := by
  induction events generalizing s with
  | nil => exact h
  | cons e events ih => exact ih (recordOk_step h (recorded_step e))

theorem recordOk_opened (wheel : Wheel Point Rect) (choices : List PickerChoice)
    (events : List (Event Point Rect)) :
    RecordOk choices (Shell.opened.run wheel choices events).record := by
  have hopened : RecordOk choices (Shell.opened : Shell Point Rect).record :=
    ⟨fun pick hpick => (nomatch hpick), rfl, fun hbroken => (nomatch hbroken)⟩
  exact recordOk_run events hopened

/-- A run that is settled launches nothing that is not there. -/
theorem unbroken_run {events : List (Event Point Rect)} {s : Shell Point Rect}
    (h : Hovers choices s) (hbroken : s.broken = false)
    (hsettled : Settled wheel choices s events) :
    (s.run wheel choices events).broken = false := by
  induction events generalizing s with
  | nil => exact hbroken
  | cons e events ih =>
    obtain ⟨hnow, hlater⟩ := hsettled
    refine ih (hovers_step h hnow) ?_ hlater
    have hstep := @recorded_step _ _ wheel choices s e
    generalize hrecord : (s.step wheel choices e).record = r at hstep
    show (s.step wheel choices e).record.broken = false
    rw [hrecord]
    cases hstep with
    | miss hstale => exact absurd h.1 hstale
    | _ => exact hbroken

/-- **What the window reports.** In every run of it: each pick is a profile of the choice that it
names, or that choice has none; at most one pick has a profile, and exactly one from the moment on at
which a launch has found its profile; and a launch finds it unless a pointer move came between
entering a tile and the render after it. -/
theorem window_reports (wheel : Wheel Point Rect) (choices : List PickerChoice)
    (events : List (Event Point Rect)) :
    let s := Shell.opened.run wheel choices events
    (∀ pick ∈ s.record.picks, Offered choices pick) ∧
      s.record.launches.length = (if s.launchStarted && !s.broken then 1 else 0) ∧
      (Settled wheel choices Shell.opened events → s.broken = false) := by
  have hrun := recordOk_opened wheel choices events
  refine ⟨hrun.offered, hrun.launches, fun hsettled => ?_⟩
  exact unbroken_run ⟨hoverOk_none rfl, hoverOk_none rfl⟩ rfl hsettled

end Runs

/-- A wheel that always aims at the second profile. -/
def secondWheel : Wheel Unit Unit where
  profileIndexFromPoint _ _ count := if 1 < count then some 1 else none
  index_lt h := by
    split at h
    · cases h
      assumption
    · cases h
  inZone _ _ := true

def chromeChoice : PickerChoice :=
  ⟨"chrome", "Google Chrome", none, none,
    [⟨"Default", "Personal", none, none, true⟩, ⟨"Profile 1", "Work", none, none, false⟩],
    some "Default"⟩

/-- ⌥ is held over the tile, the pointer aims, and ⌥ is let go; Escape does not take the pick back. -/
example :
    let alt (down : Bool) : Key := ⟨.alt, .altLeft, down, false, false, false⟩
    ((Shell.opened : Shell Unit Unit).run secondWheel [chromeChoice]
      [.enterTile 0 (), .render (some ()), .keyDown (alt true), .render none, .render none,
        .pointerMove (), .render none, .keyUp (alt false), .render none,
        .keyDown ⟨.escape, .other, false, false, false, false⟩, .timeout]).reported =
      [some ⟨"chrome", some "Profile 1"⟩] := by
  decide

/-! ## The ask -/

section AskFlow

variable {Point Rect : Type} {wheel : Wheel Point Rect} {inventory : Inventory}
  {settings : Settings} {candidates : List BrowserTarget} {t : BrowserTarget}

/-- What `show_picker` returns: the first message that its channel gets, if any comes in time. -/
def firstReport (wheel : Wheel Point Rect) (events : List (Event Point Rect))
    (choices : List PickerChoice) : Option PickerPick :=
  (Shell.opened.run wheel choices events).reported.head?.join

theorem offered_of_firstReport {events : List (Event Point Rect)} {choices : List PickerChoice}
    {pick : PickerPick} (h : firstReport wheel events choices = some pick) :
    Offered choices pick := by
  refine (recordOk_opened wheel choices events).offered pick (List.mem_append_left _ ?_)
  refine List.mem_filterMap.mpr ⟨some pick, ?_, rfl⟩
  exact List.mem_of_head? (Option.join_eq_some_iff.mp h)

/-- With a saved order the window shows no other profiles. -/
theorem mem_order_of_takeInOrder {order : List String} {m : List BrowserProfile}
    {p : BrowserProfile} (h : p ∈ takeInOrder order m) : p.id ∈ order := by
  induction order generalizing m with
  | nil => cases h
  | cons id order ih =>
    unfold takeInOrder at h
    split at h
    · rename_i q hq
      rcases List.mem_cons.mp h with rfl | h
      · have := List.find?_some hq
        simp only [beq_iff_eq] at this
        rw [this]
        exact List.mem_cons_self
      · exact List.mem_cons_of_mem _ (ih h)
    · exact List.mem_cons_of_mem _ (ih h)

theorem mem_order_of_visible {orders : ProfileOrders} {browser : BrowserId} {order : List String}
    {p : PickerProfile} (horder : orders.get browser = some order) (hne : order ≠ [])
    (hp : p ∈ visibleProfiles inventory orders browser) : p.id ∈ order := by
  unfold visibleProfiles at hp
  rw [horder] at hp
  obtain ⟨q, hq, rfl⟩ := List.mem_map.mp hp
  rw [applyProfileOrder_of_ne_nil hne] at hq
  exact mem_order_of_takeInOrder hq

/-- What an ask opens: a target that was offered, with a profile that was visible.  `last` is the
target whose flags it has. -/
structure OpensOffered (inventory : Inventory) (settings : Settings) (candidates : List BrowserTarget)
    (installed : List InstalledBrowser) (t last : BrowserTarget) : Prop where
  offered : last ∈ rawSource installed candidates
  flags : t = { last with profile := t.profile }
  hidden : t.browser ∈ settings.disabledBrowsers →
    ∀ t' ∈ rawSource installed candidates, t'.browser ∈ settings.disabledBrowsers
  profile : (∃ p ∈ visibleProfiles inventory settings.profileOrders t.browser,
      t.profile = some p.id) ∨
    visibleProfiles inventory settings.profileOrders t.browser = [] ∧ t.profile = last.profile
  ordered : ∀ order, settings.profileOrders.get t.browser = some order → order ≠ [] →
    t.profile = last.profile ∨ ∃ id ∈ order, t.profile = some id

theorem resolves_offered {events : List (Event Point Rect)}
    (h : resolveAsk inventory settings candidates
      (fun choices _ => firstReport wheel events choices) = some t) :
    ∃ installed last, inventory.installed = .ok installed ∧
      OpensOffered inventory settings candidates installed t last := by
  obtain ⟨installed, picked, hinstalled, hpicked, hbrowser, before, last, after, hsource, hafter,
    hlast, ht⟩ := resolveAsk_spec h
  have hmem : last ∈ askSource installed candidates settings.disabledBrowsers := by
    rw [hsource]
    exact List.mem_append_right _ List.mem_cons_self
  have hflags : t = { last with profile := t.profile } := by
    rw [ht]
  obtain ⟨c, hc, hid, hprofiles⟩ := offered_of_firstReport hpicked
  obtain ⟨target, -, rfl⟩ := List.mem_map.mp hc
  have hsame : target.browser = t.browser := by
    rw [hbrowser, hid]
    rfl
  have hprofile : t.profile = picked.profileId.or last.profile := by
    rw [ht]
  have hvisible : (∃ p ∈ visibleProfiles inventory settings.profileOrders t.browser,
      t.profile = some p.id) ∨
      visibleProfiles inventory settings.profileOrders t.browser = [] ∧
        t.profile = last.profile := by
    rw [← hsame]
    rcases hprofiles with ⟨p, hp, hpick⟩ | ⟨hnone, hpick⟩
    · exact .inl ⟨p, hp, by rw [hprofile, hpick]; rfl⟩
    · exact .inr ⟨hnone, by rw [hprofile, hpick]; rfl⟩
  refine ⟨installed, last, hinstalled, askSource_subset last hmem, hflags, fun hhidden => ?_,
    hvisible, fun order horder hne => ?_⟩
  · rw [← hlast] at hhidden
    exact hidden_of_askSource hmem hhidden
  · rcases hvisible with ⟨p, hp, hpick⟩ | ⟨-, hpick⟩
    · exact .inr ⟨p.id, mem_order_of_visible horder hne hp, hpick⟩
    · exact .inl hpick

/-- **An ask.** Whatever the user does in the window, and whenever it renders: what the ask opens
first and logs is a target that was offered, hidden only if all were, with a profile that the window
showed for its browser; and what it opens besides is the default target. -/
theorem ask_opens_offered (desktop : Desktop) (inventory : Inventory) (settings : Settings)
    (hostOf : String → Option String) (now : Nat) (request : AskRequest)
    (wheel : Wheel Point Rect) (events : List (Event Point Rect)) :
    let run := runAsk desktop inventory settings hostOf now request
      fun choices _ => firstReport wheel events choices
    (run.target = none ∧ run.observations = [] ∧ run.calls = []) ∨
      ∃ t installed last, run.target = some t ∧ inventory.installed = .ok installed ∧
        OpensOffered inventory settings request.candidates installed t last ∧
        CarriedOut settings hostOf request run t := by
  intro run
  obtain ⟨hresolved, hnothing, hcarried⟩ := runAsk_spec (rfl : _ = run)
  cases htarget : run.target with
  | none =>
    obtain ⟨hobservations, hcalls⟩ := hnothing htarget
    exact .inl ⟨rfl, hobservations, hcalls⟩
  | some t =>
    obtain ⟨installed, last, hinstalled, hoffered⟩ :=
      resolves_offered (hresolved.symm.trans htarget)
    exact .inr ⟨t, installed, last, rfl, hinstalled, hoffered, hcarried t htarget⟩

end AskFlow

end LinkPilot.Halo
