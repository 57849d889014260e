import LinkPilot.HistoryPrivacy
import Mathlib.Data.List.Chain
import Mathlib.Data.List.Induction

/-!
# The ring of foreground applications

Model of `crates/platform-mac/src/opener.rs`.  A thread polls the frontmost application every
750 ms and keeps the last ones in a ring; `detect` answers from it when a URL comes in, since
LinkPilot itself is frontmost by then.

`push_unique` takes an application for the one at the back of the ring when their bundle ids agree
and refreshes the time of that entry only.  Two applications without a bundle id agree in it.

Principal results:

* `ring_ok` — the invariant of the ring, over every run of polls.
* `detect_ring` — `detect` answers the back of the ring, while it is fresh.
* `tracks_iff` — the ring tracks the last application in every state of a run exactly when no two
  successive ones share the bundle id under two names.
* `dispatchSystemUrl_detect` — a URL is then routed as coming from that application.
-/

set_option autoImplicit false

namespace LinkPilot.Opener

/-! ## The poller -/

/-- `STALE_AFTER`, in nanoseconds. -/
def STALE_AFTER : Nat := 30 * 1000000000

def RING_CAPACITY : Nat := 8

structure RecentApp where
  seen : Nat
  name : String
  bundleId : Option String
  pid : Option Int
  deriving DecidableEq, Repr

/-- What `NSWorkspace` tells of the frontmost application. -/
structure Frontmost where
  localizedName : Option String
  bundleIdentifier : Option String
  deriving DecidableEq, Repr

/-- `OpenerApp` with all its fields. -/
structure DetectedApp extends OpenerApp where
  executable : Option String
  pid : Option Int
  deriving DecidableEq, Repr

/-- `read_frontmost`. -/
def readFrontmost (now : Nat) (frontmost : Option Frontmost) : Option RecentApp :=
  frontmost.map fun app => ⟨now, app.localizedName.getD "", app.bundleIdentifier, none⟩

/-- The entry that is refreshed instead of pushed. -/
def RecentApp.isDup (last app : RecentApp) : Bool :=
  last.bundleId == app.bundleId && last.pid == app.pid

/-- `push_unique`, on the ring from its front to its back. -/
def pushUnique (ring : List RecentApp) (app : RecentApp) : List RecentApp :=
  match ring.getLast? with
  | some last =>
    if last.isDup app then ring.dropLast ++ [{ last with seen := app.seen }]
    else (if ring.length = RING_CAPACITY then ring.tail else ring) ++ [app]
  | none => (if ring.length = RING_CAPACITY then ring.tail else ring) ++ [app]

def isSelf (ownBundleId : String) (app : RecentApp) : Bool := app.bundleId.any (· == ownBundleId)

/-- One round of the loop, at a time. -/
structure Poll where
  time : Nat
  frontmost : Option Frontmost
  deriving DecidableEq, Repr

def Poll.app (p : Poll) : Option RecentApp := readFrontmost p.time p.frontmost

/-- The body of `poll_loop`. -/
def poll (ownBundleId : String) (ring : List RecentApp) (p : Poll) : List RecentApp :=
  match p.app with
  | none => ring
  | some app => if isSelf ownBundleId app then ring else pushUnique ring app

/-- The ring after the polls. -/
def ringAfter (ownBundleId : String) (polls : List Poll) : List RecentApp :=
  polls.foldl (poll ownBundleId) []

/-- `now.duration_since(seen) < STALE_AFTER`; the duration saturates at zero. -/
def fresh (now : Nat) (app : RecentApp) : Bool := now - app.seen < STALE_AFTER

/-- `MacOpenerDetector::detect`. -/
def detect (now : Nat) (ring : List RecentApp) : Option DetectedApp :=
  (ring.reverse.find? (fresh now)).map fun recent =>
    ⟨⟨recent.name, recent.bundleId⟩, none, recent.pid⟩

/-! ## What the ring is for -/

/-- The applications other than LinkPilot that were polled, the last one at the end. -/
def others (ownBundleId : String) (polls : List Poll) : List RecentApp :=
  (polls.filterMap Poll.app).filter fun app => !isSelf ownBundleId app

/-- The last application other than LinkPilot, if its poll was less than 30 seconds ago. -/
def lastOpener (ownBundleId : String) (polls : List Poll) (now : Nat) : Option OpenerApp :=
  ((others ownBundleId polls).getLast?.filter (fresh now)).map fun app => ⟨app.name, app.bundleId⟩

/-- The invariant of the ring. -/
structure RingOk (ownBundleId : String) (ring : List RecentApp) : Prop where
  length_le : ring.length ≤ RING_CAPACITY
  sorted : ring.Pairwise fun a b => a.seen ≤ b.seen
  notSelf : ∀ app ∈ ring, app.bundleId ≠ some ownBundleId

/-- The ring in order, and `detect` answering the last opener at whatever time. -/
structure Tracks (ownBundleId : String) (polls : List Poll) : Prop where
  ring : RingOk ownBundleId (ringAfter ownBundleId polls)
  detect : ∀ now, (detect now (ringAfter ownBundleId polls)).map DetectedApp.toOpenerApp =
    lastOpener ownBundleId polls now

section Ring

variable {ownBundleId : String} {ring : List RecentApp} {polls : List Poll} {p : Poll}
  {app last : RecentApp}

theorem isSelf_iff : isSelf ownBundleId app = true ↔ app.bundleId = some ownBundleId := by
  unfold isSelf
  cases app.bundleId <;> simp

theorem pid_of_app (h : p.app = some app) : app.pid = none ∧ app.seen = p.time := by
  unfold Poll.app readFrontmost at h
  obtain ⟨front, -, rfl⟩ := Option.map_eq_some_iff.mp h
  exact ⟨rfl, rfl⟩

/-! ### One poll -/

/-- **What pushing an application does to the ring.** -/
theorem pushUnique_cases (ring : List RecentApp) (app : RecentApp) :
    (∃ init last, ring = init ++ [last] ∧ last.isDup app = true ∧
      pushUnique ring app = init ++ [{ last with seen := app.seen }]) ∨
    (ring.getLast?.all fun last => !last.isDup app) ∧
      ∃ kept, kept.Sublist ring ∧ (ring.length ≤ RING_CAPACITY → kept.length < RING_CAPACITY) ∧
        pushUnique ring app = kept ++ [app] := by
  have hkept : (if ring.length = RING_CAPACITY then ring.tail else ring).Sublist ring ∧
      (ring.length ≤ RING_CAPACITY →
        (if ring.length = RING_CAPACITY then ring.tail else ring).length < RING_CAPACITY) := by
    split
    · exact ⟨List.tail_sublist ring, by simp [RING_CAPACITY] at *; omega⟩
    · exact ⟨.refl ring, by omega⟩
  rcases List.eq_nil_or_concat' ring with rfl | ⟨init, last, rfl⟩
  · exact .inr ⟨rfl, _, hkept.1, hkept.2, rfl⟩
  · by_cases hdup : last.isDup app = true
    · refine .inl ⟨init, last, rfl, hdup, ?_⟩
      simp [pushUnique, hdup]
    · refine .inr ⟨by simp [hdup], _, hkept.1, hkept.2, ?_⟩
      simp [pushUnique, hdup]

theorem RingOk.pushUnique (h : RingOk ownBundleId ring) (hself : app.bundleId ≠ some ownBundleId)
    (hseen : ∀ a ∈ ring, a.seen ≤ app.seen) : RingOk ownBundleId (pushUnique ring app) := by
  obtain ⟨hlength, hsorted, hown⟩ := h
  rcases pushUnique_cases ring app with ⟨init, last, rfl, hdup, heq⟩ | ⟨-, kept, hsub, hlen, heq⟩
  · rw [heq]
    rw [List.pairwise_append] at hsorted
    refine ⟨by simpa using hlength, List.pairwise_append.mpr ⟨hsorted.1, by simp, ?_⟩, ?_⟩
    · intro a ha b hb
      rw [List.mem_singleton] at hb
      subst hb
      exact hseen a (by simp [ha])
    · intro a ha
      rcases List.mem_append.mp ha with ha | ha
      · exact hown a (by simp [ha])
      · rw [List.mem_singleton] at ha
        subst ha
        exact hown last (by simp)
  · rw [heq]
    refine ⟨?_, List.pairwise_append.mpr ⟨hsorted.sublist hsub, by simp, ?_⟩, ?_⟩
    · rw [List.length_append]
      exact hlen hlength
    · intro a ha b hb
      rw [List.mem_singleton] at hb
      subst hb
      exact hseen a (hsub.subset ha)
    · intro a ha
      rcases List.mem_append.mp ha with ha | ha
      · exact hown a (hsub.subset ha)
      · rw [List.mem_singleton] at ha
        exact ha ▸ hself

/-- Entries are as old as before, or as the application that is pushed. -/
theorem seen_of_mem_pushUnique {a : RecentApp} (h : a ∈ pushUnique ring app) :
    (∃ b ∈ ring, a.seen = b.seen) ∨ a.seen = app.seen := by
  rcases pushUnique_cases ring app with ⟨init, last, rfl, -, heq⟩ | ⟨-, kept, hsub, -, heq⟩
  · rw [heq, List.mem_append, List.mem_singleton] at h
    rcases h with h | rfl
    · exact .inl ⟨a, by simp [h], rfl⟩
    · exact .inr rfl
  · rw [heq, List.mem_append, List.mem_singleton] at h
    rcases h with h | rfl
    · exact .inl ⟨a, hsub.subset h, rfl⟩
    · exact .inr rfl

/-- The back of the ring after a push. -/
theorem getLast?_pushUnique :
    (pushUnique ring app).getLast? = some
      (match ring.getLast? with
        | some last => if last.isDup app then { last with seen := app.seen } else app
        | none => app) := by
  rcases pushUnique_cases ring app with ⟨init, last, rfl, hdup, heq⟩ | ⟨hdup, kept, -, -, heq⟩
  · simp [heq, hdup]
  · rw [heq, List.getLast?_concat]
    cases hlast : ring.getLast? with
    | none => rfl
    | some last =>
      simp only [hlast, Option.all_some, Bool.not_eq_true'] at hdup
      simp [hdup]

/-! ### Runs of polls -/

theorem ringAfter_append (ownBundleId : String) (polls : List Poll) (p : Poll) :
    ringAfter ownBundleId (polls ++ [p]) = poll ownBundleId (ringAfter ownBundleId polls) p :=
  List.foldl_append

/-- A poll of LinkPilot or of nothing leaves the ring and the openers; another one is pushed. -/
theorem poll_cases (ownBundleId : String) (polls : List Poll) (p : Poll) :
    (ringAfter ownBundleId (polls ++ [p]) = ringAfter ownBundleId polls ∧
      others ownBundleId (polls ++ [p]) = others ownBundleId polls) ∨
    ∃ app, p.app = some app ∧ app.bundleId ≠ some ownBundleId ∧
      ringAfter ownBundleId (polls ++ [p]) = pushUnique (ringAfter ownBundleId polls) app ∧
      others ownBundleId (polls ++ [p]) = others ownBundleId polls ++ [app] := by
  rw [ringAfter_append]
  cases happ : p.app with
  | none => exact .inl ⟨by simp [poll, happ], by simp [others, happ]⟩
  | some app =>
    by_cases hself : isSelf ownBundleId app = true
    · exact .inl ⟨by simp [poll, happ, hself], by simp [others, happ, hself]⟩
    · refine .inr ⟨app, rfl, mt isSelf_iff.mpr hself, ?_, ?_⟩
      · simp [poll, happ, hself]
      · simp [others, happ, hself]

theorem seen_of_mem_ringAfter (h : app ∈ ringAfter ownBundleId polls) :
    ∃ p ∈ polls, app.seen = p.time := by
  induction polls using List.reverseRecOn generalizing app with
  | nil => cases h
  | append_singleton polls p ih =>
    rcases poll_cases ownBundleId polls p with ⟨hring, -⟩ | ⟨new, happ, -, hring, -⟩
    · rw [hring] at h
      obtain ⟨q, hq, heq⟩ := ih h
      exact ⟨q, by simp [hq], heq⟩
    · rw [hring] at h
      rcases seen_of_mem_pushUnique h with ⟨b, hb, heq⟩ | heq
      · obtain ⟨q, hq, hseen⟩ := ih hb
        exact ⟨q, by simp [hq], heq.trans hseen⟩
      · exact ⟨p, by simp, heq.trans (pid_of_app happ).2⟩

/-- **The ring is in order after every run of polls at nondecreasing times.** -/
theorem ring_ok (ownBundleId : String) (hsorted : polls.Pairwise fun p q => p.time ≤ q.time) :
    RingOk ownBundleId (ringAfter ownBundleId polls) := by
  induction polls using List.reverseRecOn with
  | nil => exact ⟨Nat.zero_le _, .nil, fun a ha => by cases ha⟩
  | append_singleton polls p ih =>
    obtain ⟨hbefore, -, hle⟩ := List.pairwise_append.mp hsorted
    rcases poll_cases ownBundleId polls p with ⟨hring, -⟩ | ⟨app, happ, hself, hring, -⟩
    · rw [hring]
      exact ih hbefore
    · rw [hring]
      apply (ih hbefore).pushUnique hself
      intro a ha
      obtain ⟨q, hq, hseen⟩ := seen_of_mem_ringAfter ha
      rw [hseen, (pid_of_app happ).2]
      exact hle q hq p (by simp)

/-- **`detect` answers the back of the ring**: when that is stale, the rest is. -/
theorem detect_ring (hsorted : ring.Pairwise fun a b => a.seen ≤ b.seen) (now : Nat) :
    detect now ring = (ring.getLast?.filter (fresh now)).map fun recent =>
      ⟨⟨recent.name, recent.bundleId⟩, none, recent.pid⟩ := by
  unfold detect
  congr 1
  rcases List.eq_nil_or_concat' ring with rfl | ⟨init, last, rfl⟩
  · rfl
  · rw [List.getLast?_concat, List.reverse_append, List.reverse_singleton, List.singleton_append,
      List.find?_cons]
    cases hlast : fresh now last with
    | true => simp [Option.filter, hlast]
    | false =>
      have hstale : ∀ a ∈ init.reverse, ¬ fresh now a = true := by
        intro a ha
        have hle : a.seen ≤ last.seen :=
          (List.pairwise_append.mp hsorted).2.2 a (List.mem_reverse.mp ha) last (by simp)
        simp only [fresh, decide_eq_false_iff_not, decide_eq_true_eq] at *
        omega
      simp [Option.filter, hlast, List.find?_eq_none.mpr hstale]

/-! ### Names under one bundle id -/

/-- Successive openers with one bundle id, or without one, have one name. -/
def NamesKept (ownBundleId : String) (polls : List Poll) : Prop :=
  (others ownBundleId polls).IsChain fun a b => a.bundleId = b.bundleId → a.name = b.name

theorem pid_of_mem_others (h : app ∈ others ownBundleId polls) : app.pid = none := by
  obtain ⟨p, -, happ⟩ := List.mem_filterMap.mp (List.mem_filter.mp h).1
  exact (pid_of_app happ).1

/-- As long as names are kept, the back of the ring is the last opener. -/
theorem getLast?_ringAfter (h : NamesKept ownBundleId polls) :
    (ringAfter ownBundleId polls).getLast? = (others ownBundleId polls).getLast? := by
  induction polls using List.reverseRecOn with
  | nil => rfl
  | append_singleton polls p ih =>
    rcases poll_cases ownBundleId polls p with ⟨hring, hothers⟩ | ⟨app, happ, -, hring, hothers⟩
    · rw [hring, hothers]
      rw [NamesKept, hothers] at h
      exact ih h
    · rw [NamesKept, hothers, List.isChain_append] at h
      obtain ⟨hbefore, -, hlink⟩ := h
      rw [hring, hothers, getLast?_pushUnique, ih hbefore, List.getLast?_concat]
      cases hlast : (others ownBundleId polls).getLast? with
      | none => rfl
      | some last =>
        have hname := hlink last hlast app rfl
        have hpid : last.pid = app.pid := by
          rw [pid_of_mem_others (List.mem_of_getLast? hlast), (pid_of_app happ).1]
        by_cases hdup : last.isDup app = true
        · have hbundle : last.bundleId = app.bundleId := by
            simp only [RecentApp.isDup, Bool.and_eq_true, beq_iff_eq] at hdup
            exact hdup.1
          cases last
          cases app
          simp_all
        · simp [hdup]

theorem namesKept_of_tracks (h : ∀ before, before <+: polls → Tracks ownBundleId before) :
    NamesKept ownBundleId polls := by
  induction polls using List.reverseRecOn with
  | nil => exact .nil
  | append_singleton polls p ih =>
    have hbefore : NamesKept ownBundleId polls :=
      ih fun before hpre => h before (hpre.trans (List.prefix_append polls [p]))
    rcases poll_cases ownBundleId polls p with ⟨-, hothers⟩ | ⟨app, happ, -, hring, hothers⟩
    · rw [NamesKept, hothers]
      exact hbefore
    · rw [NamesKept, hothers, List.isChain_append]
      refine ⟨hbefore, .singleton app, ?_⟩
      intro last hlast b hb hbundle
      obtain rfl : app = b := by simpa using hb
      rw [Option.mem_def] at hlast
      have hpid : last.pid = app.pid := by
        rw [pid_of_mem_others (List.mem_of_getLast? hlast), (pid_of_app happ).1]
      have hdup : last.isDup app = true := by simp [RecentApp.isDup, hbundle, hpid]
      -- asked at the time of the poll, the ring answers under the name it had
      have htracks := h (polls ++ [p]) (List.prefix_refl _)
      have hanswer := htracks.detect app.seen
      rw [detect_ring htracks.ring.sorted, hring, getLast?_pushUnique, getLast?_ringAfter hbefore,
        hlast, lastOpener, hothers, List.getLast?_concat] at hanswer
      have hfresh : ∀ a : RecentApp, a.seen = app.seen → fresh app.seen a = true := by
        intro a ha
        simp [fresh, ha, STALE_AFTER]
      simpa [Option.filter, hdup, hfresh] using congrArg (Option.map OpenerApp.name) hanswer

/-- **The ring tracks the opener in every state of a run exactly when successive openers that share
a bundle id, or have none, share the name.** -/
theorem tracks_iff (ownBundleId : String) (polls : List Poll)
    (hsorted : polls.Pairwise fun p q => p.time ≤ q.time) :
    (∀ before, before <+: polls → Tracks ownBundleId before) ↔ NamesKept ownBundleId polls := by
  refine ⟨namesKept_of_tracks, fun hnames before hpre => ?_⟩
  have hring := ring_ok ownBundleId (hsorted.sublist hpre.sublist)
  have hkept : NamesKept ownBundleId before := by
    obtain ⟨rest, rfl⟩ := hpre
    rw [NamesKept, others, List.filterMap_append, List.filter_append] at hnames
    exact (List.isChain_append.mp hnames).1
  refine ⟨hring, fun now => ?_⟩
  rw [detect_ring hring.sorted, getLast?_ringAfter hkept, lastOpener, Option.map_map]
  rfl

end Ring

instance (ownBundleId : String) (polls : List Poll) : Decidable (NamesKept ownBundleId polls) :=
  inferInstanceAs (Decidable (List.IsChain _ _))

/-- Slack, then LinkPilot on top of it, then nothing. -/
def clickInSlack : List Poll :=
  [⟨0, some ⟨some "Slack", some "com.tinyspeck.slackmacgap"⟩⟩,
    ⟨750000000, some ⟨some "LinkPilot", some "app.linkpilot.desktop"⟩⟩, ⟨1500000000, none⟩]

theorem tracks_clickInSlack : NamesKept "app.linkpilot.desktop" clickInSlack ∧
    ((∀ before, before <+: clickInSlack → Tracks "app.linkpilot.desktop" before) ↔
      NamesKept "app.linkpilot.desktop" clickInSlack) :=
  ⟨by decide, tracks_iff "app.linkpilot.desktop" clickInSlack (by decide)⟩

/-- Two programs that run outside of a bundle, one after the other. -/
def bundleless : List Poll :=
  [⟨0, some ⟨some "python3", none⟩⟩, ⟨750000000, some ⟨some "java", none⟩⟩]

/-- The second program is taken for the first one. -/
theorem not_tracks_bundleless :
    (bundleless.Pairwise fun p q => p.time ≤ q.time) ∧
      (detect 750000000 (ringAfter "app.linkpilot.desktop" bundleless)).map (·.name) =
        some "python3" ∧
      ¬ Tracks "app.linkpilot.desktop" bundleless := by
  refine ⟨by decide, by decide, fun h => ?_⟩
  exact absurd (h.detect 750000000) (by decide)

/-- A URL is routed and logged as coming from the last opener. -/
theorem dispatchSystemUrl_detect (urlParse : String → Option Url) (doc : ConfigDocument)
    (pressed : Bool) {ownBundleId : String} {polls : List Poll} (h : Tracks ownBundleId polls)
    (now : Nat) (url : String) (history : RouteHistory) :
    dispatchSystemUrl urlParse doc pressed now
        ((detect now (ringAfter ownBundleId polls)).map DetectedApp.toOpenerApp) url history =
      dispatchSystemUrl urlParse doc pressed now (lastOpener ownBundleId polls now) url history := by
  rw [h.detect now]

end LinkPilot.Opener
