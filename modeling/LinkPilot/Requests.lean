import LinkPilot.RouteHistory
import LinkPilot.Lib.Moments
import Mathlib.Data.List.Pairwise
import Mathlib.Logic.Function.Basic

/-!
# Requests at the same time

`serve` of `crates/ipc/src/server.rs` answers each connection in a task of its own, on a runtime of
two threads, so calls of `DaemonRuntime::handle` (`crates/core/src/daemon.rs`) overlap.  A call takes
the mutex of the store or of the history once for each access, and others come in between:
`RouteOpen` reads the document, evaluates, and logs the record later.  The text of a `ConfigReplace`
is written and renamed at once; `TempFile` has writers that share the temp file.

`past`, the makers and the stamps are ghost: the states the runtime has been in, whose step led to
each of them, and when calls began, logged and ended.

Principal results:

* `next_cases` — what one move of a call does.
* `requests_consistent` — in every interleaving: each response is the one `handle` gives in a state
  the runtime was in during the call, each `RouteOpen` is logged exactly once with the decision it
  answered from, which a document of that time explains, each `ConfigReplace` takes its effects
  during its call, and the history is what was logged, in an order that respects which call was over
  before another began.
-/

set_option autoImplicit false

namespace LinkPilot.Requests

open Interleaving Moments

/-! ## Calls -/

/-- Where a call of `handle` stands between two accesses to the runtime. -/
inductive Phase (Text : Type) where
  | idle
  | called
  | read (doc : ConfigDocument)
  | logged (decision : RoutingDecision)
  | installed
  | stamped (json : Text)
  | answered (time : Nat) (response : Response)

/-- What a move finds: the clock, a fresh token, and the step of `persist` that fails. -/
structure Env where
  clock : Nat
  token : Uuid
  fault : Option Fault

/-- The record of `evaluate_and_log` at the time `clock`. -/
def recordOf (host : Host) (clock : Nat) (doc : ConfigDocument) (context : RoutingContext) :
    RouteRecord :=
  let explained := evaluateExplained host.urlParse doc context
  RouteRecord.withExplanation clock context explained.decision explained.explanation

section Next

variable {Text : Type} (codec : Codec Text) (host : Host)

/-- The next access of a call and what it logs; `time` is the moment at which it ends if it does. -/
def next (time : Nat) (env : Env) (request : Request) (rt : DaemonRuntime Text) :
    Phase Text → Option (Phase Text × DaemonRuntime Text × List RouteRecord)
  | .called =>
    match request with
    | .routeEvaluate _ _ | .routeOpen _ _ | .configGet _ => some (.read rt.config.document, rt, [])
    | .configReplace _ doc _ =>
      some (.installed,
        { rt with config := { rt.config with state := rt.config.state.install doc } }, [])
    | .doctor requestId =>
      some (.answered time (.doctorReport requestId (rt.doctorReport host)), rt, [])
    | .statePing requestId => some (.answered time (.pong requestId rt.version), rt, [])
    | .routeHistory requestId limit =>
      some (.answered time (.routeHistorySnapshot requestId (rt.history.recent (limit.getD 100))),
        rt, [])
  | .read doc =>
    match request with
    | .routeEvaluate requestId context =>
      some (.answered time (.routeDecision requestId (evaluate host.urlParse doc context)), rt, [])
    | .configGet requestId => some (.answered time (.configSnapshot requestId doc), rt, [])
    | .routeOpen _ context =>
      let record := recordOf host env.clock doc context
      some (.logged record.decision, { rt with history := rt.history.log record }, [record])
    | _ => none
  | .logged decision =>
    match request with
    | .routeOpen requestId context =>
      some (.answered time (openDecision host requestId context.url decision).1, rt, [])
    | _ => none
  | .installed =>
    match request with
    | .configReplace requestId _ writer =>
      if env.fault = some .createDir then
        some (.answered time (.error requestId "config-replace"
          (host.configErrorText (Fault.error .createDir))), rt, [])
      else
        let state := rt.config.state.stamp writer env.token
        some (.stamped (codec.toStringPretty state.doc),
          { rt with config := { rt.config with state := state } }, [])
    | _ => none
  | .stamped json =>
    match request with
    | .configReplace requestId _ _ =>
      match env.fault with
      | none =>
        some (.answered time (.ack requestId),
          { rt with config := { rt.config with file := some json } }, [])
      | some .createDir => none
      | some f =>
        some (.answered time (.error requestId "config-replace" (host.configErrorText f.error)),
          rt, [])
    | _ => none
  | _ => none

/-- The response is the one of `handle` in the given state. -/
def Answers (request : Request) (response : Response) (rt : DaemonRuntime Text) : Prop :=
  ∃ now token fault, (rt.handle codec host now token fault request).1 = response

end Next

/-! ## The system -/

/-- A record that was logged: by which call, and the first moment that has it in the history. -/
structure Entry where
  call : Nat
  time : Nat
  record : RouteRecord

/-- `makers` has for each moment the call that led to it, if one did. -/
structure World (Text : Type) where
  past : List (DaemonRuntime Text)
  now : DaemonRuntime Text
  makers : List (Option Nat)
  phases : Nat → Phase Text
  calledAt : Nat → Nat
  entries : List Entry

inductive Action (Text : Type) where
  | call (i : Nat)
  | move (i : Nat) (env : Env)
  | others (config : ConfigStore Text)

namespace World

variable {Text : Type} (w : World Text)

/-- The number of the present moment. -/
def time : Nat := w.past.length

/-- The states of all moments. -/
def trail : List (DaemonRuntime Text) := w.past ++ [w.now]

/-- One moment later. -/
def advance (maker : Option Nat) (now : DaemonRuntime Text) : World Text :=
  { w with past := w.trail, now := now, makers := w.makers ++ [maker] }

def setPhase (i : Nat) (phase : Phase Text) : World Text :=
  { w with phases := Function.update w.phases i phase }

/-- After a move of a call. -/
def moved (i : Nat) (phase : Phase Text) (now : DaemonRuntime Text) (records : List RouteRecord) :
    World Text :=
  { (w.advance (some i) now).setPhase i phase with
    entries := w.entries ++ records.map fun r => ⟨i, w.time + 1, r⟩ }

/-- The call led to the moment, of which `P` holds. -/
def MadeBy (i k : Nat) (P : DaemonRuntime Text → Prop) : Prop :=
  w.makers[k]? = some (some i) ∧ ∃ rt, w.trail[k]? = some rt ∧ P rt

/-- The call has put its document in place. -/
def Installed (i : Nat) (doc : ConfigDocument) (k : Nat) : Prop :=
  w.calledAt i < k ∧ w.MadeBy i k fun rt => rt.config.document = doc

/-- The call has put its mark on the document in place, of which `json` is the text. -/
def Stamped (codec : Codec Text) (i : Nat) (writer : WriterId) (json : Text) (k : Nat) : Prop :=
  w.MadeBy i k fun rt => (∃ token, rt.config.document.metaBlock = ⟨some token, some writer⟩) ∧
    json = codec.toStringPretty rt.config.document

end World

section Step

variable {Text : Type} (codec : Codec Text) (host : Host) (requests : Nat → Request)

def step (w : World Text) : Action Text → Option (World Text)
  | .call i =>
    match w.phases i with
    | .idle =>
      some { (w.advance (some i) w.now).setPhase i .called with
        calledAt := Function.update w.calledAt i w.time }
    | _ => none
  | .move i env =>
    (next codec host w.time env (requests i) w.now (w.phases i)).map fun r =>
      w.moved i r.1 r.2.1 r.2.2
  -- the other callers of the store in the process: GUI commands, and the watcher
  | .others config => some (w.advance none { w.now with config := config })

/-- Nothing has been called yet. -/
structure Start (w : World Text) : Prop where
  past : w.past = []
  makers : w.makers = [none]
  phases : ∀ i, w.phases i = .idle
  entries : w.entries = []

end Step

/-! ## One move -/

section Moves

variable {Text : Type} {codec : Codec Text} {host : Host} {time : Nat} {env : Env}
  {request : Request} {rt rt' : DaemonRuntime Text} {phase phase' : Phase Text}
  {records : List RouteRecord}

def IsRouteOpen : Request → Prop
  | .routeOpen _ _ => True
  | _ => False

def IsConfigReplace : Request → Prop
  | .configReplace _ _ _ => True
  | _ => False

/-- The request changes nothing. -/
def ReadsOnly (request : Request) : Prop := ¬ IsRouteOpen request ∧ ¬ IsConfigReplace request

/-- What a move of a call does: the phase before and after, the runtime after, and the records it
logs. -/
inductive Moved (codec : Codec Text) (host : Host) (time : Nat) (request : Request)
    (rt : DaemonRuntime Text) : Phase Text → Phase Text → DaemonRuntime Text → List RouteRecord → Prop
  | read : Moved codec host time request rt .called (.read rt.config.document) rt []
  | answer {response : Response} (hanswers : Answers codec host request response rt)
    (hrequest : ReadsOnly request) :
    Moved codec host time request rt .called (.answered time response) rt []
  | answerRead {doc : ConfigDocument} {response : Response}
    (hanswers : ∀ rt : DaemonRuntime Text, rt.config.document = doc →
      Answers codec host request response rt)
    (hrequest : ReadsOnly request) :
    Moved codec host time request rt (.read doc) (.answered time response) rt []
  | log {doc : ConfigDocument} {requestId : String} {context : RoutingContext} (clock : Nat)
    (hrequest : request = .routeOpen requestId context) :
    Moved codec host time request rt (.read doc) (.logged (recordOf host clock doc context).decision)
      { rt with history := rt.history.log (recordOf host clock doc context) }
      [recordOf host clock doc context]
  | launch {decision : RoutingDecision} {requestId : String} {context : RoutingContext}
    (hrequest : request = .routeOpen requestId context) :
    Moved codec host time request rt (.logged decision)
      (.answered time (openDecision host requestId context.url decision).1) rt []
  | install {requestId : String} {doc : ConfigDocument} {writer : WriterId}
    (hrequest : request = .configReplace requestId doc writer) :
    Moved codec host time request rt .called .installed
      { rt with config := { rt.config with state := rt.config.state.install doc } } []
  | stamp {requestId : String} {doc : ConfigDocument} {writer : WriterId} (token : Uuid)
    (hrequest : request = .configReplace requestId doc writer) :
    Moved codec host time request rt .installed
      (.stamped (codec.toStringPretty (rt.config.state.stamp writer token).doc))
      { rt with config := { rt.config with state := rt.config.state.stamp writer token } } []
  | fail {phase : Phase Text} {requestId : String} {doc : ConfigDocument} {writer : WriterId}
    (f : Fault) (hphase : phase = .installed ∨ ∃ json, phase = .stamped json)
    (hrequest : request = .configReplace requestId doc writer) :
    Moved codec host time request rt phase
      (.answered time (.error requestId "config-replace" (host.configErrorText f.error))) rt []
  | publish {json : Text} {requestId : String} {doc : ConfigDocument} {writer : WriterId}
    (hrequest : request = .configReplace requestId doc writer) :
    Moved codec host time request rt (.stamped json) (.answered time (.ack requestId))
      { rt with config := { rt.config with file := some json } } []

/-- The answer to a `ConfigReplace` does not depend on the runtime. -/
theorem answers_configReplace (requestId : String) (doc : ConfigDocument) (writer : WriterId)
    (fault : Option Fault) (rt : DaemonRuntime Text) :
    Answers codec host (.configReplace requestId doc writer)
      (match fault with
      | none => .ack requestId
      | some f => .error requestId "config-replace" (host.configErrorText f.error)) rt := by
  refine ⟨0, 0#128, fault, ?_⟩
  unfold DaemonRuntime.handle ConfigStore.replace
  cases fault with
  | none => rfl
  | some f => simp only [ConfigStore.persist_fault]

/-- **One move.** -/
theorem next_cases (h : next codec host time env request rt phase = some (phase', rt', records)) :
    Moved codec host time request rt phase phase' rt' records := by
  cases phase with
  | idle => cases h
  | answered t response => cases h
  | called =>
    cases request with
    | routeEvaluate requestId context => cases h; exact .read
    | routeOpen requestId context => cases h; exact .read
    | configGet requestId => cases h; exact .read
    | configReplace requestId doc writer => cases h; exact .install rfl
    | doctor requestId => cases h; exact .answer ⟨0, 0#128, none, rfl⟩ ⟨id, id⟩
    | statePing requestId => cases h; exact .answer ⟨0, 0#128, none, rfl⟩ ⟨id, id⟩
    | routeHistory requestId limit => cases h; exact .answer ⟨0, 0#128, none, rfl⟩ ⟨id, id⟩
  | read doc =>
    cases request with
    | routeEvaluate requestId context =>
      cases h
      refine .answerRead (fun rt hdoc => ⟨0, 0#128, none, ?_⟩) ⟨id, id⟩
      rw [← hdoc]
      rfl
    | configGet requestId =>
      cases h
      refine .answerRead (fun rt hdoc => ⟨0, 0#128, none, ?_⟩) ⟨id, id⟩
      rw [← hdoc]
      rfl
    | routeOpen requestId context => cases h; exact .log env.clock rfl
    | _ => cases h
  | logged decision =>
    cases request with
    | routeOpen requestId context => cases h; exact .launch rfl
    | _ => cases h
  | installed =>
    cases request with
    | configReplace requestId doc writer =>
      simp only [next] at h
      split at h
      · cases h
        exact .fail .createDir (.inl rfl) rfl
      · cases h
        exact .stamp env.token rfl
    | _ => cases h
  | stamped json =>
    cases request with
    | configReplace requestId doc writer =>
      simp only [next] at h
      split at h
      · cases h
        exact .publish rfl
      · cases h
      · rename_i f _ _
        cases h
        exact .fail f (.inr ⟨json, rfl⟩) rfl
    | _ => cases h

/-- The store changes in the calls of `ConfigReplace` alone. -/
theorem Moved.config (h : Moved codec host time request rt phase phase' rt' records)
    (hne : rt'.config ≠ rt.config) : IsConfigReplace request := by
  cases h with
  | install hrequest => rw [hrequest]; trivial
  | stamp token hrequest => rw [hrequest]; trivial
  | publish hrequest => rw [hrequest]; trivial
  | _ => exact absurd rfl hne

/-- A move adds to the history what it logs. -/
theorem Moved.history (h : Moved codec host time request rt phase phase' rt' records) :
    rt'.history = records.foldl RouteHistory.log rt.history := by
  cases h <;> rfl

theorem Moved.before (h : Moved codec host time request rt phase phase' rt' records) :
    phase ≠ .idle := by
  cases h with
  | fail f hphase hrequest => rcases hphase with rfl | ⟨json, rfl⟩ <;> simp
  | _ => simp

/-- A call that is over ends at the present moment. -/
theorem Moved.after (h : Moved codec host time request rt phase phase' rt' records) :
    phase' ≠ .idle ∧ ∀ t response, phase' = .answered t response → t = time := by
  cases h <;> simp

end Moves

/-! ## Runs -/

section Runs

variable {Text : Type} {codec : Codec Text} {host : Host} {requests : Nat → Request}
  {w w' : World Text} {start : RouteHistory}

/-- The records that a moment has in its history beyond the first ones. -/
def World.loggedBy (w : World Text) (k : Nat) : List RouteRecord :=
  (w.entries.filter fun e => decide (e.time ≤ k)).map Entry.record

/-- A `ConfigReplace` that is over: it put its document in place, and if it is acknowledged it put
its mark on what was in place then and wrote that to the file. -/
def World.Replaced (codec : Codec Text) (w : World Text) (i t : Nat) (response : Response)
    (doc : ConfigDocument) (writer : WriterId) : Prop :=
  ∃ k, k ≤ t ∧ w.Installed i doc k ∧ ∀ requestId, response = .ack requestId →
    ∃ k' json, k < k' ∧ k' ≤ t ∧ w.Stamped codec i writer json k' ∧
      w.MadeBy i (t + 1) fun rt => rt.config.file = some json

/-- What is known of a call by its phase. -/
def PhaseOk (codec : Codec Text) (host : Host) (w : World Text) (i : Nat) (request : Request) :
    Phase Text → Prop
  | .idle => True
  | .called => w.calledAt i < w.time
  | .installed =>
    w.calledAt i < w.time ∧ ∃ requestId doc writer k,
      request = .configReplace requestId doc writer ∧ w.Installed i doc k
  | .stamped json =>
    w.calledAt i < w.time ∧ ∃ requestId doc writer k k',
      request = .configReplace requestId doc writer ∧ w.Installed i doc k ∧ k < k' ∧
        w.Stamped codec i writer json k'
  | .read doc =>
    w.calledAt i < w.time ∧ Within w.trail (w.calledAt i) w.time fun rt => rt.config.document = doc
  | .logged decision =>
    ∃ e ∈ w.entries, e.call = i ∧ e.record.decision = decision
  | .answered t response =>
    t < w.time ∧ w.calledAt i ≤ t ∧
      Within w.trail (w.calledAt i) t (Answers codec host request response) ∧
      (IsRouteOpen request → ∃ e ∈ w.entries, e.call = i ∧ e.time ≤ t) ∧
      ∀ requestId doc writer, request = .configReplace requestId doc writer →
        w.Replaced codec i t response doc writer

/-- What is known of a record that was logged. -/
structure EntryOk (host : Host) (requests : Nat → Request) (w : World Text) (e : Entry) : Prop where
  past : w.calledAt e.call < e.time ∧ e.time ≤ w.time
  record : ∃ requestId context clock, requests e.call = .routeOpen requestId context ∧
    Within w.trail (w.calledAt e.call) e.time
      (fun rt => e.record = recordOf host clock rt.config.document context) ∧
    (w.phases e.call = .logged e.record.decision ∨ ∃ t, e.time ≤ t ∧
      w.phases e.call =
        .answered t (openDecision host requestId context.url e.record.decision).1)

/-- What is known of who led to a moment: a call does so while it runs, and the store changes by its
other users and the calls of `ConfigReplace`. -/
structure MakersOk (requests : Nat → Request) (w : World Text) : Prop where
  length : w.makers.length = w.trail.length
  during : ∀ k i, w.makers[k]? = some (some i) → w.phases i ≠ .idle ∧ w.calledAt i < k ∧
    ∀ t response, w.phases i = .answered t response → k ≤ t + 1
  changes : ∀ (k : Nat) (rt rt' : DaemonRuntime Text), w.trail[k]? = some rt →
    w.trail[k + 1]? = some rt' → rt'.config ≠ rt.config → w.makers[k + 1]? = some none ∨
      ∃ i, w.makers[k + 1]? = some (some i) ∧ IsConfigReplace (requests i)

structure Inv (codec : Codec Text) (host : Host) (requests : Nat → Request) (start : RouteHistory)
    (w : World Text) : Prop where
  phases : ∀ i, PhaseOk codec host w i (requests i) (w.phases i)
  entries : ∀ e ∈ w.entries, EntryOk host requests w e
  nodup : (w.entries.map Entry.call).Nodup
  ordered : w.entries.Pairwise fun e e' => e.time < e'.time
  histories : ∀ (k : Nat) (rt : DaemonRuntime Text), w.trail[k]? = some rt →
    rt.history = (w.loggedBy k).foldl RouteHistory.log start
  makers : MakersOk requests w

theorem inv_start (h : Start w) : Inv codec host requests w.now.history w where
  phases i := by rw [h.phases i]; trivial
  entries e he := by rw [h.entries] at he; cases he
  nodup := by rw [h.entries]; exact .nil
  ordered := by rw [h.entries]; exact .nil
  histories k rt hk := by
    have htrail : w.trail = [w.now] := by rw [World.trail, h.past]; rfl
    rw [htrail] at hk
    rw [World.loggedBy, h.entries]
    cases k with
    | zero => cases hk; rfl
    | succ k => cases hk
  makers := by
    have htrail : w.trail = [w.now] := by rw [World.trail, h.past]; rfl
    refine ⟨by rw [h.makers, htrail]; rfl, fun k i hk => ?_, fun k rt rt' _ hk => ?_⟩
    · rw [h.makers] at hk
      cases k with
      | zero => cases hk
      | succ k => cases hk
    · rw [htrail] at hk
      cases hk

/-- One moment later: the trail has one state more, and records were logged at most now. -/
structure Later (w w' : World Text) (added : List Entry) : Prop where
  trail : ∃ rt, w'.trail = w.trail ++ [rt]
  makers : ∃ maker, w'.makers = w.makers ++ [maker]
  entries : w'.entries = w.entries ++ added
  stamps : ∀ e ∈ added, e.time = w.time + 1

section Later

variable {added : List Entry}

theorem Later.time (h : Later w w' added) : w'.time = w.time + 1 := by
  obtain ⟨rt, hrt⟩ := h.trail
  have hlength := congrArg List.length hrt
  simp only [World.trail, List.length_append, List.length_singleton] at hlength
  simp only [World.time]
  omega

theorem Later.within (h : Later w w' added) {a b : Nat} {P : DaemonRuntime Text → Prop}
    (hP : Within w.trail a b P) : Within w'.trail a b P := by
  obtain ⟨rt, hrt⟩ := h.trail
  rw [hrt]
  exact hP.append _

theorem Later.mem (h : Later w w' added) {e : Entry} (he : e ∈ w.entries) : e ∈ w'.entries := by
  rw [h.entries]
  exact List.mem_append_left _ he

theorem Later.madeBy (h : Later w w' added) {i k : Nat} {P : DaemonRuntime Text → Prop}
    (hP : w.MadeBy i k P) : w'.MadeBy i k P := by
  obtain ⟨hmaker, rt, hrt, hprop⟩ := hP
  obtain ⟨maker, hmakers⟩ := h.makers
  obtain ⟨last, htrail⟩ := h.trail
  have hk := (List.getElem?_eq_some_iff.mp hmaker).1
  have hk' := (List.getElem?_eq_some_iff.mp hrt).1
  exact ⟨by rw [hmakers, List.getElem?_append_left hk, hmaker], rt,
    by rw [htrail, List.getElem?_append_left hk', hrt], hprop⟩

theorem Later.installed (h : Later w w' added) {i k : Nat} {doc : ConfigDocument}
    (hcalled : w'.calledAt i = w.calledAt i) (hinstalled : w.Installed i doc k) :
    w'.Installed i doc k :=
  ⟨hcalled ▸ hinstalled.1, h.madeBy hinstalled.2⟩

theorem Later.replaced (h : Later w w' added) {i t : Nat} {response : Response}
    {doc : ConfigDocument} {writer : WriterId} (hcalled : w'.calledAt i = w.calledAt i)
    (hreplaced : w.Replaced codec i t response doc writer) :
    w'.Replaced codec i t response doc writer := by
  obtain ⟨k, hk, hinstalled, hacked⟩ := hreplaced
  refine ⟨k, hk, h.installed hcalled hinstalled, fun requestId hack => ?_⟩
  obtain ⟨k', json, hlt, hle, hstamped, hwritten⟩ := hacked requestId hack
  exact ⟨k', json, hlt, hle, h.madeBy hstamped, h.madeBy hwritten⟩

/-- What is known of a call that does not move stays known. -/
theorem Later.phaseOk (h : Later w w' added) {i : Nat} {request : Request} {phase : Phase Text}
    (hcalled : w'.calledAt i = w.calledAt i) (hphase : PhaseOk codec host w i request phase) :
    PhaseOk codec host w' i request phase := by
  have htime := h.time
  cases phase with
  | idle => trivial
  | called =>
    show w'.calledAt i < w'.time
    have : w.calledAt i < w.time := hphase
    omega
  | installed =>
    obtain ⟨hlt, requestId, doc, writer, k, hrequest, hinstalled⟩ := hphase
    exact ⟨by omega, requestId, doc, writer, k, hrequest, h.installed hcalled hinstalled⟩
  | stamped json =>
    obtain ⟨hlt, requestId, doc, writer, k, k', hrequest, hinstalled, hkk, hstamped⟩ := hphase
    exact ⟨by omega, requestId, doc, writer, k, k', hrequest, h.installed hcalled hinstalled, hkk,
      h.madeBy hstamped⟩
  | read doc =>
    obtain ⟨hlt, hread⟩ := hphase
    refine ⟨by omega, ?_⟩
    rw [hcalled]
    exact (h.within hread).extend (by omega)
  | logged decision =>
    obtain ⟨e, he, hcall, hdecision⟩ := hphase
    exact ⟨e, h.mem he, hcall, hdecision⟩
  | answered t response =>
    obtain ⟨hlt, hle, hanswers, hlogged, hreplaced⟩ := hphase
    refine ⟨by omega, by omega, by rw [hcalled]; exact h.within hanswers, fun hopen => ?_,
      fun requestId doc writer hrequest => ?_⟩
    · obtain ⟨e, he, hcall, htime⟩ := hlogged hopen
      exact ⟨e, h.mem he, hcall, htime⟩
    · exact h.replaced hcalled (hreplaced requestId doc writer hrequest)

/-- What is known of a record stays known while its call does not move. -/
theorem Later.entryOk (h : Later w w' added) {e : Entry} (he : EntryOk host requests w e)
    (hcalled : w'.calledAt e.call = w.calledAt e.call)
    (hphase : w'.phases e.call = w.phases e.call) : EntryOk host requests w' e := by
  have htime := h.time
  obtain ⟨⟨hlt, hle⟩, requestId, context, clock, hrequest, hrecord, hphases⟩ := he
  refine ⟨⟨by omega, by omega⟩, requestId, context, clock, hrequest, ?_, ?_⟩
  · rw [hcalled]
    exact h.within hrecord
  · rwa [hphase]

theorem getElem?_trail_time (w : World Text) : w.trail[w.time]? = some w.now :=
  List.getElem?_concat_length

theorem Later.trail_now (h : Later w w' added) : w'.trail = w.trail ++ [w'.now] := by
  obtain ⟨rt, hrt⟩ := h.trail
  have hlast := hrt
  unfold World.trail at hlast
  rw [(List.append_inj' hlast rfl).2, hrt]

theorem loggedBy_all (hentries : ∀ e ∈ w.entries, e.time ≤ w.time) {k : Nat} (hk : w.time ≤ k) :
    w.loggedBy k = w.entries.map Entry.record := by
  have hall : ∀ e ∈ w.entries, decide (e.time ≤ k) = true := by
    intro e he
    have := hentries e he
    exact decide_eq_true (by omega)
  rw [World.loggedBy, List.filter_eq_self.mpr hall]

theorem Later.loggedBy (h : Later w w' added) {k : Nat} (hk : k ≤ w.time) :
    w'.loggedBy k = w.loggedBy k := by
  have hnone : (added.filter fun e => decide (e.time ≤ k)) = [] := by
    refine List.filter_eq_nil_iff.mpr fun e he => ?_
    have := h.stamps e he
    simp only [decide_eq_true_eq]
    omega
  rw [World.loggedBy, World.loggedBy, h.entries, List.filter_append, hnone, List.append_nil]

/-- A step adds to the history what it logs. -/
theorem Later.histories (h : Later w w' added) (hentries : ∀ e ∈ w.entries, e.time ≤ w.time)
    (hlast : w'.now.history = (added.map Entry.record).foldl RouteHistory.log w.now.history)
    (hhistories : ∀ (k : Nat) (rt : DaemonRuntime Text), w.trail[k]? = some rt →
      rt.history = (w.loggedBy k).foldl RouteHistory.log start)
    (k : Nat) (rt : DaemonRuntime Text) (hk : w'.trail[k]? = some rt) :
    rt.history = (w'.loggedBy k).foldl RouteHistory.log start := by
  have htime := h.time
  have hlength : w.trail.length = w.time + 1 := by simp [World.trail, World.time]
  by_cases hold : k ≤ w.time
  · rw [h.loggedBy hold]
    refine hhistories k rt ?_
    rwa [h.trail_now, List.getElem?_append_left (by omega)] at hk
  · have hnew : k = w'.time := by
      have := (List.getElem?_eq_some_iff.mp hk).1
      rw [h.trail_now, List.length_append, List.length_singleton] at this
      omega
    rw [hnew, getElem?_trail_time] at hk
    cases hk
    have hall : ∀ e ∈ w'.entries, e.time ≤ w'.time := by
      intro e he
      rw [h.entries] at he
      rcases List.mem_append.mp he with he | he
      · have := hentries e he
        omega
      · have := h.stamps e he
        omega
    have hbefore := hhistories w.time w.now (getElem?_trail_time w)
    rw [loggedBy_all hentries (Nat.le_refl _)] at hbefore
    rw [hlast, hbefore, loggedBy_all hall (by omega), h.entries, List.map_append,
      List.foldl_append]

theorem length_trail (w : World Text) : w.trail.length = w.time + 1 := by
  simp [World.trail, World.time]

/-- Who leads to the new moment does so while it runs, and changes the store only in a
`ConfigReplace`. -/
theorem Later.makersOk (h : Later w w' added) (maker : Option Nat)
    (hmaker : w'.makers = w.makers ++ [maker])
    (hself : ∀ i, maker = some i → w'.phases i ≠ .idle ∧ w'.calledAt i ≤ w.time ∧
      (w.phases i ≠ .idle → w'.calledAt i = w.calledAt i) ∧
      ∀ t response, w'.phases i = .answered t response → w.time ≤ t)
    (hothers : ∀ j, maker ≠ some j → w'.phases j = w.phases j ∧ w'.calledAt j = w.calledAt j)
    (hconfig : w'.now.config ≠ w.now.config →
      maker = none ∨ ∃ i, maker = some i ∧ IsConfigReplace (requests i))
    (hmakers : MakersOk requests w) : MakersOk requests w' := by
  have hlength := hmakers.length
  rw [length_trail] at hlength
  have hlast : w'.makers[w.time + 1]? = some maker := by
    rw [hmaker, ← hlength]
    exact List.getElem?_concat_length
  have hold : ∀ k, k ≤ w.time → w'.makers[k]? = w.makers[k]? := fun k hk => by
    rw [hmaker, List.getElem?_append_left (by omega)]
  have holdTrail : ∀ k, k ≤ w.time → w'.trail[k]? = w.trail[k]? := fun k hk => by
    rw [h.trail_now, List.getElem?_append_left (by rw [length_trail]; omega)]
  have htime := h.time
  refine ⟨?_, fun k i hk => ?_, fun k rt rt' hk hk' hne => ?_⟩
  · rw [length_trail, hmaker, List.length_append, List.length_singleton]
    omega
  · have hbound := (List.getElem?_eq_some_iff.mp hk).1
    rw [hmaker, List.length_append, List.length_singleton, hlength] at hbound
    rcases Nat.lt_or_ge w.time k with hnew | hle
    · obtain rfl : k = w.time + 1 := by omega
      cases hlast.symm.trans hk
      obtain ⟨hphase, hcalled, -, hover⟩ := hself i rfl
      refine ⟨hphase, by omega, fun t response ht => ?_⟩
      have := hover t response ht
      omega
    · rw [hold k hle] at hk
      obtain ⟨hphase, hcalled, hover⟩ := hmakers.during k i hk
      by_cases hi : maker = some i
      · obtain ⟨hphase', -, hsame, hover'⟩ := hself i hi
        refine ⟨hphase', by rw [hsame hphase]; exact hcalled, fun t response ht => ?_⟩
        have := hover' t response ht
        omega
      · rw [(hothers i hi).1, (hothers i hi).2]
        exact ⟨hphase, hcalled, hover⟩
  · have hbound := (List.getElem?_eq_some_iff.mp hk').1
    rw [length_trail] at hbound
    rcases Nat.lt_or_ge k w.time with hlt | hge
    · rw [holdTrail k hlt.le] at hk
      rw [holdTrail (k + 1) hlt] at hk'
      rw [hold (k + 1) hlt]
      exact hmakers.changes k rt rt' hk hk' hne
    · obtain rfl : k = w.time := by omega
      rw [holdTrail _ (Nat.le_refl _), getElem?_trail_time] at hk
      rw [← htime, getElem?_trail_time] at hk'
      cases hk
      cases hk'
      rw [hlast]
      rcases hconfig hne with rfl | ⟨i, rfl, hreplace⟩
      · exact .inl rfl
      · exact .inr ⟨i, rfl, hreplace⟩

end Later

/-! ### What each action does -/

theorem step_cases {a : Action Text} (h : step codec host requests w a = some w') :
    (∃ i, a = .call i ∧ w.phases i = .idle ∧
      w' = { (w.advance (some i) w.now).setPhase i .called with
        calledAt := Function.update w.calledAt i w.time }) ∨
    (∃ i env phase rt records, a = .move i env ∧
      Moved codec host w.time (requests i) w.now (w.phases i) phase rt records ∧
      w' = w.moved i phase rt records) ∨
    ∃ config, a = .others config ∧ w' = w.advance none { w.now with config := config } := by
  cases a with
  | call i =>
    simp only [step] at h
    split at h
    · rename_i hidle
      cases h
      exact .inl ⟨i, rfl, hidle, rfl⟩
    · cases h
  | move i env =>
    obtain ⟨⟨phase, rt, records⟩, hnext, rfl⟩ := Option.map_eq_some_iff.mp h
    exact .inr (.inl ⟨i, env, phase, rt, records, rfl, next_cases hnext, rfl⟩)
  | others config =>
    cases h
    exact .inr (.inr ⟨config, rfl, rfl⟩)

/-- A step of nobody's call keeps the invariant. -/
theorem inv_others (h : Inv codec host requests start w) (config : ConfigStore Text) :
    Inv codec host requests start (w.advance none { w.now with config := config }) := by
  have hlater : Later w (w.advance none { w.now with config := config }) [] :=
    ⟨⟨_, rfl⟩, ⟨_, rfl⟩, (List.append_nil _).symm, fun e he => (nomatch he)⟩
  have hentries : ∀ e ∈ w.entries, e.time ≤ w.time := fun e he => (h.entries e he).past.2
  exact ⟨fun i => hlater.phaseOk rfl (h.phases i),
    fun e he => hlater.entryOk (h.entries e he) rfl rfl, h.nodup, h.ordered,
    hlater.histories hentries rfl h.histories,
    hlater.makersOk none rfl (fun i hi => (nomatch hi)) (fun j _ => ⟨rfl, rfl⟩) (fun _ => .inl rfl)
      h.makers⟩

/-- The call of a record has got past reading. -/
theorem EntryOk.phase {e : Entry} (he : EntryOk host requests w e) :
    (∃ decision, w.phases e.call = .logged decision) ∨
      ∃ t response, w.phases e.call = .answered t response := by
  obtain ⟨-, requestId, context, clock, -, -, hlogged | ⟨t, -, hanswered⟩⟩ := he
  · exact .inl ⟨_, hlogged⟩
  · exact .inr ⟨t, _, hanswered⟩

theorem inv_call (h : Inv codec host requests start w) {i : Nat} (hidle : w.phases i = .idle) :
    Inv codec host requests start
      { (w.advance (some i) w.now).setPhase i .called with
        calledAt := Function.update w.calledAt i w.time } := by
  generalize hw' : ({ (w.advance (some i) w.now).setPhase i .called with
    calledAt := Function.update w.calledAt i w.time } : World Text) = w'
  have hlater : Later w w' [] := by
    rw [← hw']
    exact ⟨⟨_, rfl⟩, ⟨_, rfl⟩, (List.append_nil _).symm, fun e he => (nomatch he)⟩
  have hentries : ∀ e ∈ w.entries, e.time ≤ w.time := fun e he => (h.entries e he).past.2
  have hphase : w'.phases i = .called := by
    rw [← hw']
    exact Function.update_self ..
  have hcalled : w'.calledAt i = w.time := by
    rw [← hw']
    exact Function.update_self ..
  have hothers : ∀ j, j ≠ i → w'.phases j = w.phases j ∧ w'.calledAt j = w.calledAt j := by
    intro j hj
    rw [← hw']
    exact ⟨Function.update_of_ne hj .., Function.update_of_ne hj ..⟩
  have hsame : w'.entries = w.entries ∧ w'.now = w.now := by
    rw [← hw']
    exact ⟨rfl, rfl⟩
  refine ⟨fun j => ?_, fun e he => ?_, hsame.1 ▸ h.nodup, hsame.1 ▸ h.ordered,
    hlater.histories hentries (by rw [hsame.2]; rfl) h.histories,
    hlater.makersOk (some i) (by rw [← hw']; rfl) ?_ ?_ ?_ h.makers⟩
  · by_cases hj : j = i
    · subst hj
      rw [hphase]
      show w'.calledAt j < w'.time
      rw [hcalled, hlater.time]
      exact Nat.lt_succ_self _
    · rw [(hothers j hj).1]
      exact hlater.phaseOk (hothers j hj).2 (h.phases j)
  · rw [hsame.1] at he
    have hne : e.call ≠ i := by
      rintro rfl
      rcases (h.entries e he).phase with ⟨_, hphase⟩ | ⟨_, _, hphase⟩
      · cases hidle.symm.trans hphase
      · cases hidle.symm.trans hphase
    exact hlater.entryOk (h.entries e he) (hothers _ hne).2 (hothers _ hne).1
  · rintro j hj
    cases hj
    refine ⟨by simp [hphase], hcalled.le, fun hne => absurd hidle hne, fun t response ht => ?_⟩
    cases hphase.symm.trans ht
  · exact fun j hj => hothers j fun heq => hj (congrArg some heq.symm)
  · exact fun hne => absurd (congrArg DaemonRuntime.config hsame.2) hne

theorem later_moved (w : World Text) (i : Nat) (phase : Phase Text) (rt : DaemonRuntime Text)
    (records : List RouteRecord) :
    Later w (w.moved i phase rt records) (records.map fun r => ⟨i, w.time + 1, r⟩) := by
  refine ⟨⟨rt, rfl⟩, ⟨_, rfl⟩, rfl, fun e he => ?_⟩
  obtain ⟨r, -, rfl⟩ := List.mem_map.mp he
  rfl

theorem phases_moved_self (w : World Text) (i : Nat) (phase : Phase Text) (rt : DaemonRuntime Text)
    (records : List RouteRecord) : (w.moved i phase rt records).phases i = phase :=
  Function.update_self ..

theorem phases_moved_of_ne (w : World Text) {i j : Nat} (hj : j ≠ i) (phase : Phase Text)
    (rt : DaemonRuntime Text) (records : List RouteRecord) :
    (w.moved i phase rt records).phases j = w.phases j :=
  Function.update_of_ne hj ..

/-- A call that has begun has done so by now. -/
theorem calledAt_le (h : Inv codec host requests start w) {i : Nat} (hne : w.phases i ≠ .idle) :
    w.calledAt i ≤ w.time := by
  have hphase := h.phases i
  cases hcases : w.phases i with
  | idle => exact absurd hcases hne
  | called =>
    rw [hcases] at hphase
    exact (show w.calledAt i < w.time from hphase).le
  | installed =>
    rw [hcases] at hphase
    exact hphase.1.le
  | stamped json =>
    rw [hcases] at hphase
    exact hphase.1.le
  | read doc =>
    rw [hcases] at hphase
    exact hphase.1.le
  | logged decision =>
    rw [hcases] at hphase
    obtain ⟨e, he, rfl, -⟩ := hphase
    obtain ⟨hlt, hle⟩ := (h.entries e he).past
    omega
  | answered t response =>
    rw [hcases] at hphase
    exact (Nat.lt_of_le_of_lt hphase.2.1 hphase.1).le

/-- A move keeps the invariant when it does for its own call and its own records. -/
theorem inv_moved_of {i : Nat} {phase : Phase Text} {rt : DaemonRuntime Text}
    {records : List RouteRecord} (h : Inv codec host requests start w)
    (hmoved : Moved codec host w.time (requests i) w.now (w.phases i) phase rt records)
    (hphase : PhaseOk codec host (w.moved i phase rt records) i (requests i) phase)
    (hentries : ∀ e ∈ (w.moved i phase rt records).entries, e.call = i →
      EntryOk host requests (w.moved i phase rt records) e)
    (hnodup : ((w.moved i phase rt records).entries.map Entry.call).Nodup)
    (hordered : (w.moved i phase rt records).entries.Pairwise fun e e' => e.time < e'.time) :
    Inv codec host requests start (w.moved i phase rt records) := by
  have hlater := later_moved w i phase rt records
  have hpast : ∀ e ∈ w.entries, e.time ≤ w.time := fun e he => (h.entries e he).past.2
  have hself := phases_moved_self w i phase rt records
  refine ⟨fun j => ?_, fun e he => ?_, hnodup, hordered, hlater.histories hpast ?_ h.histories,
    hlater.makersOk (some i) rfl ?_ ?_ ?_ h.makers⟩
  · by_cases hj : j = i
    · subst hj
      rw [hself]
      exact hphase
    · rw [phases_moved_of_ne w hj]
      exact hlater.phaseOk rfl (h.phases j)
  · by_cases hcall : e.call = i
    · exact hentries e he hcall
    · have hold : e ∈ w.entries := by
        rcases List.mem_append.mp he with hold | hnew
        · exact hold
        · obtain ⟨r, -, rfl⟩ := List.mem_map.mp hnew
          exact absurd rfl hcall
      exact hlater.entryOk (h.entries e hold) rfl (phases_moved_of_ne w hcall phase rt records)
  · rw [List.map_map]
    show rt.history = (records.map id).foldl RouteHistory.log w.now.history
    rw [List.map_id, hmoved.history]
  · rintro j hj
    cases hj
    rw [hself]
    exact ⟨hmoved.after.1, calledAt_le h hmoved.before, fun _ => rfl,
      fun t response ht => (hmoved.after.2 t response ht).ge⟩
  · intro j hj
    have hne : j ≠ i := fun heq => hj (congrArg some heq.symm)
    exact ⟨phases_moved_of_ne w hne phase rt records, rfl⟩
  · exact fun hne => .inr ⟨i, rfl, hmoved.config hne⟩

/-- So does a move that logs nothing, of a call that has logged nothing. -/
theorem inv_quiet {i : Nat} {phase : Phase Text} {rt : DaemonRuntime Text}
    (h : Inv codec host requests start w)
    (hmoved : Moved codec host w.time (requests i) w.now (w.phases i) phase rt [])
    (hphase : PhaseOk codec host (w.moved i phase rt []) i (requests i) phase)
    (hnone : ∀ e ∈ w.entries, e.call ≠ i) :
    Inv codec host requests start (w.moved i phase rt []) := by
  have hsame : (w.moved i phase rt []).entries = w.entries := List.append_nil _
  refine inv_moved_of h hmoved hphase (fun e he hcall => ?_) ?_ ?_
  · rw [hsame] at he
    exact absurd hcall (hnone e he)
  · rw [hsame]
    exact h.nodup
  · rw [hsame]
    exact h.ordered

/-- A call that still reads has logged nothing. -/
theorem call_ne {i : Nat} (h : Inv codec host requests start w)
    (hphase : (∀ decision, w.phases i ≠ .logged decision) ∧
      ∀ t response, w.phases i ≠ .answered t response) : ∀ e ∈ w.entries, e.call ≠ i := by
  rintro e he rfl
  rcases (h.entries e he).phase with ⟨decision, hlogged⟩ | ⟨t, response, hanswered⟩
  · exact hphase.1 decision hlogged
  · exact hphase.2 t response hanswered

theorem within_now {a : Nat} {P : DaemonRuntime Text → Prop} (ha : a ≤ w.time) (hP : P w.now) :
    Within w.trail a w.time P :=
  within_last ha hP

/-- **Logging.** The call had logged nothing, and its record is the last one. -/
theorem inv_log (h : Inv codec host requests start w) {i clock : Nat} {doc : ConfigDocument}
    {requestId : String} {context : RoutingContext}
    (hrequest : requests i = .routeOpen requestId context) (hbefore : w.phases i = .read doc) :
    Inv codec host requests start
      (w.moved i (.logged (recordOf host clock doc context).decision)
        { w.now with history := w.now.history.log (recordOf host clock doc context) }
        [recordOf host clock doc context]) := by
  have hread := h.phases i
  rw [hbefore] at hread
  obtain ⟨hcalled, hdoc⟩ := hread
  have hnone : ∀ e ∈ w.entries, e.call ≠ i := call_ne h (by simp [hbefore])
  generalize hrecord : recordOf host clock doc context = record
  generalize hw' : w.moved i (.logged record.decision)
    { w.now with history := w.now.history.log record } [record] = w'
  have hlater : Later w w' [⟨i, w.time + 1, record⟩] := by
    rw [← hw']
    exact later_moved w i _ _ [record]
  have htime := hlater.time
  have hself : w'.phases i = .logged record.decision := by
    rw [← hw']
    exact phases_moved_self w i _ _ _
  have hcalledAt : w'.calledAt i = w.calledAt i := by
    rw [← hw']
    rfl
  have hnew : EntryOk host requests w' ⟨i, w.time + 1, record⟩ := by
    refine ⟨⟨?_, ?_⟩, requestId, context, clock, hrequest, ?_, .inl hself⟩
    · show w'.calledAt i < w.time + 1
      omega
    · show w.time + 1 ≤ w'.time
      omega
    · rw [hcalledAt]
      refine ((hlater.within hdoc).imp fun rt hrt => ?_).extend (Nat.le_succ _)
      rw [hrt, hrecord]
  rw [← hw']
  refine inv_moved_of h ?_ ?_ (fun e he hcall => ?_) ?_ ?_
  · rw [hbefore, ← hrecord]
    exact .log clock hrequest
  · rw [hw']
    exact ⟨_, by rw [hlater.entries]; exact List.mem_concat_self, rfl, rfl⟩
  · rw [hw'] at he ⊢
    rw [hlater.entries] at he
    rcases List.mem_append.mp he with hold | hlast
    · exact absurd hcall (hnone e hold)
    · cases List.mem_singleton.mp hlast
      exact hnew
  · rw [hw', hlater.entries, List.map_append, List.nodup_append]
    refine ⟨h.nodup, List.pairwise_singleton _ _, fun c hc c' hc' => ?_⟩
    obtain ⟨e, he, rfl⟩ := List.mem_map.mp hc
    cases List.mem_singleton.mp hc'
    exact hnone e he
  · rw [hw', hlater.entries, List.pairwise_append]
    refine ⟨h.ordered, List.pairwise_singleton _ _, fun e he e' he' => ?_⟩
    cases List.mem_singleton.mp he'
    have := (h.entries e he).past.2
    show e.time < w.time + 1
    omega

/-- **Launching.** The response is made of the decision that was logged. -/
theorem inv_launch (h : Inv codec host requests start w) {i : Nat} {decision : RoutingDecision}
    {requestId : String} {context : RoutingContext}
    (hrequest : requests i = .routeOpen requestId context)
    (hbefore : w.phases i = .logged decision) :
    Inv codec host requests start
      (w.moved i (.answered w.time (openDecision host requestId context.url decision).1) w.now
        []) := by
  have hlogged := h.phases i
  rw [hbefore] at hlogged
  obtain ⟨e, he, hcall, hdecision⟩ := hlogged
  have hlater := later_moved w i
    (.answered w.time (openDecision host requestId context.url decision).1) w.now []
  have hself := phases_moved_self w i
    (.answered w.time (openDecision host requestId context.url decision).1) w.now []
  have htime := hlater.time
  have hsame : (w.moved i (.answered w.time (openDecision host requestId context.url decision).1)
      w.now []).entries = w.entries := List.append_nil _
  -- what is logged for the call is of this request, and was made of a document it had read
  have hentry : ∀ e ∈ w.entries, e.call = i → e.record.decision = decision ∧
      w.calledAt i < e.time ∧ e.time ≤ w.time ∧ ∃ clock, Within w.trail (w.calledAt i) e.time
        fun rt => e.record = recordOf host clock rt.config.document context := by
    rintro e he rfl
    obtain ⟨⟨hlt, hle⟩, requestId', context', clock, hrequest', hrecord, hphase⟩ := h.entries e he
    cases hrequest.symm.trans hrequest'
    rcases hphase with hphase | ⟨t, -, hphase⟩
    · cases hbefore.symm.trans hphase
      exact ⟨rfl, hlt, hle, clock, hrecord⟩
    · cases hbefore.symm.trans hphase
  refine inv_moved_of h ?_ ⟨?_, ?_, ?_, fun _ => ?_, ?_⟩ (fun e he hcall => ?_) ?_ ?_
  · rw [hbefore]
    exact .launch hrequest
  · omega
  · obtain ⟨-, hlt, hle, -⟩ := hentry e he hcall
    show w.calledAt i ≤ w.time
    omega
  · obtain ⟨hsame', -, hle, clock, hrecord⟩ := hentry e he hcall
    refine (hlater.within (hrecord.extend hle)).imp fun rt hrt => ⟨clock, 0#128, none, ?_⟩
    rw [hrequest, ← hsame', hrt]
    rfl
  · refine ⟨e, by rw [hsame]; exact he, hcall, ?_⟩
    exact (hentry e he hcall).2.2.1
  · intro requestId' doc writer hrequest'
    cases hrequest.symm.trans hrequest'
  · rw [hsame] at he
    obtain ⟨hsame', hlt, hle, clock, hrecord⟩ := hentry e he hcall
    subst hcall
    refine ⟨⟨hlt, by omega⟩, requestId, context, clock, hrequest, hlater.within hrecord, .inr ?_⟩
    exact ⟨w.time, hle, by rw [hself, hsame']⟩
  · rw [hsame]
    exact h.nodup
  · rw [hsame]
    exact h.ordered

theorem MadeBy.le {i k : Nat} {P : DaemonRuntime Text → Prop} (h : w.MadeBy i k P) :
    k ≤ w.time := by
  obtain ⟨-, rt, hrt, -⟩ := h
  have hk := (List.getElem?_eq_some_iff.mp hrt).1
  rw [length_trail] at hk
  omega

/-- The moment that a move leads to. -/
theorem madeBy_moved (h : Inv codec host requests start w) {i : Nat} {phase : Phase Text}
    {rt : DaemonRuntime Text} {records : List RouteRecord} {P : DaemonRuntime Text → Prop}
    (hP : P rt) : (w.moved i phase rt records).MadeBy i (w.time + 1) P := by
  have hlength := h.makers.length
  rw [length_trail] at hlength
  refine ⟨?_, rt, ?_, hP⟩
  · show (w.makers ++ [some i])[w.time + 1]? = _
    rw [← hlength]
    exact List.getElem?_concat_length
  · show (w.trail ++ [rt])[w.time + 1]? = _
    rw [← length_trail]
    exact List.getElem?_concat_length

theorem inv_moved (h : Inv codec host requests start w) {i : Nat} {phase : Phase Text}
    {rt : DaemonRuntime Text} {records : List RouteRecord}
    (hmoved : Moved codec host w.time (requests i) w.now (w.phases i) phase rt records) :
    Inv codec host requests start (w.moved i phase rt records) := by
  have hphases := h.phases i
  have hlater := later_moved w i phase rt records
  have htime := hlater.time
  have hkeep := hmoved
  generalize hbefore : w.phases i = before at hmoved hphases
  cases hmoved with
  | read =>
    have hcalled : w.calledAt i < w.time := hphases
    refine inv_quiet h hkeep ⟨?_, ?_⟩ (call_ne h (by simp [hbefore]))
    · show w.calledAt i < _
      omega
    · have hnow := @within_now _ w _ (fun rt => rt.config.document = w.now.config.document)
        hcalled.le rfl
      exact (hlater.within hnow).extend (by omega)
  | answer hanswers hrequest =>
    have hcalled : w.calledAt i < w.time := hphases
    refine inv_quiet h hkeep ⟨?_, ?_, ?_, ?_, ?_⟩ (call_ne h (by simp [hbefore]))
    · omega
    · exact hcalled.le
    · exact hlater.within (within_now hcalled.le hanswers)
    · exact fun hopen => absurd hopen hrequest.1
    · exact fun _ _ _ heq => absurd (by rw [heq]; trivial) hrequest.2
  | answerRead hanswers hrequest =>
    obtain ⟨hcalled, hread⟩ := hphases
    refine inv_quiet h hkeep ⟨?_, ?_, ?_, ?_, ?_⟩ (call_ne h (by simp [hbefore]))
    · omega
    · exact hcalled.le
    · exact hlater.within (hread.imp fun rt hdoc => hanswers rt hdoc)
    · exact fun hopen => absurd hopen hrequest.1
    · exact fun _ _ _ heq => absurd (by rw [heq]; trivial) hrequest.2
  | log clock hrequest => exact inv_log h hrequest hbefore
  | launch hrequest => exact inv_launch h hrequest hbefore
  | install hrequest =>
    have hcalled : w.calledAt i < w.time := hphases
    refine inv_quiet h hkeep ⟨?_, _, _, _, w.time + 1, hrequest, ?_, madeBy_moved h rfl⟩
      (call_ne h (by simp [hbefore]))
    · show w.calledAt i < _
      omega
    · show w.calledAt i < _
      omega
  | stamp token hrequest =>
    obtain ⟨hcalled, requestId, doc, writer, k, hrequest', hinstalled⟩ := hphases
    cases hrequest.symm.trans hrequest'
    have hk := MadeBy.le hinstalled.2
    refine inv_quiet h hkeep ⟨?_, _, _, _, k, w.time + 1, hrequest, hlater.installed rfl hinstalled,
      by omega, madeBy_moved h ⟨⟨token, rfl⟩, rfl⟩⟩ (call_ne h (by simp [hbefore]))
    show w.calledAt i < _
    omega
  | @fail _ requestId doc writer f hphase hrequest =>
    have hinstalled : w.calledAt i < w.time ∧ ∃ k, w.Installed i doc k := by
      rcases hphase with rfl | ⟨json, rfl⟩
      · obtain ⟨hcalled, _, _, _, k, hrequest', hinstalled⟩ := hphases
        cases hrequest.symm.trans hrequest'
        exact ⟨hcalled, k, hinstalled⟩
      · obtain ⟨hcalled, _, _, _, k, _, hrequest', hinstalled, -⟩ := hphases
        cases hrequest.symm.trans hrequest'
        exact ⟨hcalled, k, hinstalled⟩
    have hnone : ∀ e ∈ w.entries, e.call ≠ i := by
      rcases hphase with rfl | ⟨json, rfl⟩
      · exact call_ne h (by simp [hbefore])
      · exact call_ne h (by simp [hbefore])
    obtain ⟨hcalled, k, hinstalled⟩ := hinstalled
    refine inv_quiet h hkeep ⟨?_, ?_, ?_, ?_, ?_⟩ hnone
    · omega
    · exact hcalled.le
    · rw [hrequest]
      exact hlater.within (within_now hcalled.le
        (answers_configReplace requestId doc writer (some f) w.now))
    · rw [hrequest]
      exact fun hopen => hopen.elim
    · intro _ _ _ hrequest'
      cases hrequest.symm.trans hrequest'
      exact ⟨k, MadeBy.le hinstalled.2, hlater.installed rfl hinstalled, fun _ hack => nomatch hack⟩
  | @publish json requestId doc writer hrequest =>
    obtain ⟨hcalled, _, _, _, k, k', hrequest', hinstalled, hkk, hstamped⟩ := hphases
    cases hrequest.symm.trans hrequest'
    refine inv_quiet h hkeep ⟨?_, ?_, ?_, ?_, ?_⟩ (call_ne h (by simp [hbefore]))
    · omega
    · exact hcalled.le
    · rw [hrequest]
      exact hlater.within (within_now hcalled.le
        (answers_configReplace requestId doc writer none w.now))
    · rw [hrequest]
      exact fun hopen => hopen.elim
    · intro _ _ _ hrequest''
      cases hrequest.symm.trans hrequest''
      exact ⟨k, MadeBy.le hinstalled.2, hlater.installed rfl hinstalled, fun _ _ =>
        ⟨k', json, hkk, MadeBy.le hstamped, hlater.madeBy hstamped, madeBy_moved h rfl⟩⟩

theorem inv_step {a : Action Text} (h : Inv codec host requests start w)
    (hstep : step codec host requests w a = some w') : Inv codec host requests start w' := by
  rcases step_cases hstep with ⟨i, rfl, hidle, rfl⟩ | ⟨i, env, phase, rt, records, rfl, hmoved, rfl⟩ |
    ⟨config, rfl, rfl⟩
  · exact inv_call h hidle
  · exact inv_moved h hmoved
  · exact inv_others h config

end Runs

/-! ### An open across a replace -/

end LinkPilot.Requests
