import LinkPilot.Store
import LinkPilot.Lib.Interleaving
import Mathlib.Logic.Function.Basic

/-!
# One store, many writers and watcher runs

Interleavings of `ConfigStore::replace` calls and runs of `handle_disk_change` on one store.
`replace` releases the mutex between installing the document and stamping it, and publishes the
file after releasing it again; the watcher reads the file before taking the mutex.

The steps of a call are `install`, `stamp` (which also serializes) and `publish`; those of a
watcher run are `read`, `parse` and `lock`.  `installed`, `count` and `diskVersion` are ghost: the
documents in the order of their installation, and which of them the file holds.

Principal results:

* `orderly_writes_settle` — in every run whose steps are `Orderly`, no acknowledged write is
  reverted on disk, and once all calls and watcher runs are done memory and file hold the
  document installed last.
* `later_write_reverted` — two acknowledged writes whose publishes cross: both memory and file
  end on the document of the earlier one.
-/

set_option autoImplicit false

namespace LinkPilot.StoreRace

open Interleaving

variable {Text : Type}

/-! ## State -/

/-- Where a `replace` call stands.  `pos` is the position of its installation among all
installations; `version` is the number of installations before its stamping. -/
inductive Pc (Text : Type) where
  | idle
  | installed (pos : Nat)
  | stamped (pos : Nat) (json : Text) (version : Nat)
  | ok (pos : Nat)

namespace Pc

def pos? : Pc Text → Option Nat
  | idle => none
  | installed pos => some pos
  | stamped pos _ _ => some pos
  | ok pos => some pos

def json? : Pc Text → Option Text
  | stamped _ json _ => some json
  | _ => none

/-- The call has started and has not returned. -/
def InFlight : Pc Text → Prop
  | installed _ => True
  | stamped _ _ _ => True
  | _ => False

end Pc

structure Call (Text : Type) where
  doc : ConfigDocument
  writer : WriterId
  pc : Pc Text

/-- Where a run of `handle_disk_change` stands. -/
inductive Watcher (Text : Type) where
  | idle
  | pending
  | read (raw : Text)
  | parsed (raw : Text) (doc : ConfigDocument)

def Watcher.raw? : Watcher Text → Option Text
  | read raw => some raw
  | parsed raw _ => some raw
  | _ => none

structure World (Text : Type) where
  mem : State
  disk : Text
  calls : Nat → Call Text
  watchers : Nat → Watcher Text
  installed : Nat → ConfigDocument
  count : Nat
  diskVersion : Nat
  issued : List Uuid

namespace World

def setPc (w : World Text) (i : Nat) (pc : Pc Text) : Nat → Call Text :=
  Function.update w.calls i { w.calls i with pc := pc }

def setWatcher (w : World Text) (k : Nat) (r : Watcher Text) : Nat → Watcher Text :=
  Function.update w.watchers k r

/-- The document installed last. -/
def lastInstalled (w : World Text) : ConfigDocument := w.installed w.count

/-- The watcher run is going to read the file, or holds what the file holds. -/
def Fresh (w : World Text) (k : Nat) : Prop :=
  match w.watchers k with
  | .idle => False
  | .pending => True
  | .read raw => raw = w.disk
  | .parsed raw _ => raw = w.disk

/-- No call and no watcher run is under way. -/
def Quiescent (w : World Text) : Prop :=
  (∀ i, ¬ (w.calls i).pc.InFlight) ∧ ∀ k, w.watchers k = .idle

/-- A text that is on disk, about to be published, or held by a watcher run. -/
def Circulates (w : World Text) (raw : Text) : Prop :=
  raw = w.disk ∨ (∃ i, (w.calls i).pc.json? = some raw) ∨ ∃ k, (w.watchers k).raw? = some raw

@[simp] theorem setPc_doc (w : World Text) (i j : Nat) (pc : Pc Text) :
    (w.setPc i pc j).doc = (w.calls j).doc := by
  by_cases h : j = i
  · subst h
    simp [setPc]
  · simp [setPc, h]

theorem setPc_pc (w : World Text) (i j : Nat) (pc : Pc Text) :
    (w.setPc i pc j).pc = if j = i then pc else (w.calls j).pc := by
  by_cases h : j = i
  · subst h
    simp [setPc]
  · simp [setPc, h]

theorem setWatcher_apply (w : World Text) (k j : Nat) (r : Watcher Text) :
    w.setWatcher k r j = if j = k then r else w.watchers j := by
  simp [setWatcher, Function.update_apply]

end World

/-! ## Steps -/

inductive Action where
  | install (i : Nat)
  | stamp (i : Nat) (token : Uuid)
  | publish (i k : Nat)
  | notify (k : Nat)
  | read (k : Nat)
  | parse (k : Nat)
  | lock (k : Nat)

variable (codec : Codec Text)

namespace World

/-- `guard.doc = doc`. -/
def afterInstall (w : World Text) (i : Nat) : World Text :=
  { w with
    mem := w.mem.install (w.calls i).doc
    calls := w.setPc i (.installed (w.count + 1))
    installed := Function.update w.installed (w.count + 1) (w.calls i).doc
    count := w.count + 1 }

/-- The locked part of `persist`. -/
def afterStamp (w : World Text) (i pos : Nat) (token : Uuid) : World Text :=
  let mem := w.mem.stamp (w.calls i).writer token
  { w with
    mem := mem
    calls := w.setPc i (.stamped pos (codec.toStringPretty mem.doc) w.count)
    issued := token :: w.issued }

/-- Write and rename, which also queue a notification. -/
def afterPublish (w : World Text) (i k pos : Nat) (json : Text) (version : Nat) : World Text :=
  { w with
    disk := json
    diskVersion := version
    calls := w.setPc i (.ok pos)
    watchers := w.setWatcher k .pending }

/-- A step of the watcher run `k` alone. -/
def afterWatcher (w : World Text) (k : Nat) (r : Watcher Text) : World Text :=
  { w with watchers := w.setWatcher k r }

/-- The locked part of `handle_disk_change`. -/
def afterLock (w : World Text) (k : Nat) (doc : ConfigDocument) : World Text :=
  { w with mem := w.mem.onDisk doc, watchers := w.setWatcher k .idle }

end World

/-- One step.  A token is never issued twice. -/
def step (w : World Text) : Action → Option (World Text)
  | .install i =>
    match (w.calls i).pc with
    | .idle => some (w.afterInstall i)
    | _ => none
  | .stamp i token =>
    match (w.calls i).pc with
    | .installed pos => if token ∈ w.issued then none else some (w.afterStamp codec i pos token)
    | _ => none
  | .publish i k =>
    match (w.calls i).pc, w.watchers k with
    | .stamped pos json version, .idle => some (w.afterPublish i k pos json version)
    | _, _ => none
  | .notify k =>
    match w.watchers k with
    | .idle => some (w.afterWatcher k .pending)
    | _ => none
  | .read k =>
    match w.watchers k with
    | .pending => some (w.afterWatcher k (.read w.disk))
    | _ => none
  | .parse k =>
    match w.watchers k with
    | .read raw =>
      match codec.docOf raw with
      | none => some (w.afterWatcher k .idle)
      | some doc => some (w.afterWatcher k (.parsed raw doc))
    | _ => none
  | .lock k =>
    match w.watchers k with
    | .parsed _ doc => some (w.afterLock k doc)
    | _ => none

/-- A store as loaded: nothing under way, memory holds what the file holds. -/
structure Start (w : World Text) : Prop where
  calls : ∀ i, (w.calls i).pc = .idle
  watchers : ∀ k, w.watchers k = .idle
  disk : codec.docOf w.disk = some w.mem.doc
  token : w.mem.lastWriterToken = w.mem.doc.metaBlock.lastWriterToken
  installed : w.installed 0 = w.mem.doc
  count : w.count = 0
  diskVersion : w.diskVersion = 0
  issued : ∀ token, w.mem.lastWriterToken = some token → token ∈ w.issued
  readsBack : codec.ReadsBack w.mem.doc
  calls_readsBack : ∀ i, codec.ReadsBack (w.calls i).doc

/-- The condition on a step: a call stamps while memory still holds the document installed last;
files are published in the order of the versions they hold; and a watcher run that installs what
it read either read what the file still holds, or is followed by one that will. -/
def Orderly (w : World Text) : Action → Prop
  | .stamp _ _ => w.mem.doc.body = w.lastInstalled.body
  | .publish i _ =>
    ∀ pos json version, (w.calls i).pc = .stamped pos json version → w.diskVersion ≤ version
  | .lock k =>
    ∀ raw doc, w.watchers k = .parsed raw doc → w.mem.origin doc = .external →
      raw = w.disk ∨ ∃ k', k' ≠ k ∧ w.Fresh k'
  | _ => True

/-! ## What the steps are -/

section Steps

-- The equations of `step`, computed once for the lemmas of this section.
attribute [local simp] step

variable {codec} {w w' : World Text}

theorem step_install {i : Nat} (h : step codec w (.install i) = some w') :
    (w.calls i).pc = .idle ∧ w' = w.afterInstall i := by
  simp only [step] at h
  split at h
  · rename_i hpc
    cases h
    exact ⟨hpc, rfl⟩
  · cases h

theorem step_stamp {i : Nat} {token : Uuid} (h : step codec w (.stamp i token) = some w') :
    ∃ pos, (w.calls i).pc = .installed pos ∧ token ∉ w.issued ∧
      w' = w.afterStamp codec i pos token := by
  simp only [step] at h
  split at h
  · rename_i pos hpc
    split at h
    · cases h
    · rename_i ht
      cases h
      exact ⟨pos, hpc, ht, rfl⟩
  · cases h

theorem step_publish {i k : Nat} (h : step codec w (.publish i k) = some w') :
    ∃ pos json version, (w.calls i).pc = .stamped pos json version ∧ w.watchers k = .idle ∧
      w' = w.afterPublish i k pos json version := by
  simp only [step] at h
  split at h
  · rename_i pos json version hpc hk
    cases h
    exact ⟨pos, json, version, hpc, hk, rfl⟩
  · cases h

theorem step_notify {k : Nat} (h : step codec w (.notify k) = some w') :
    w.watchers k = .idle ∧ w' = w.afterWatcher k .pending := by
  simp only [step] at h
  split at h
  · rename_i hk
    cases h
    exact ⟨hk, rfl⟩
  · cases h

theorem step_read {k : Nat} (h : step codec w (.read k) = some w') :
    w.watchers k = .pending ∧ w' = w.afterWatcher k (.read w.disk) := by
  simp only [step] at h
  split at h
  · rename_i hk
    cases h
    exact ⟨hk, rfl⟩
  · cases h

theorem step_parse {k : Nat} (h : step codec w (.parse k) = some w') :
    ∃ raw, w.watchers k = .read raw ∧
      ((codec.docOf raw = none ∧ w' = w.afterWatcher k .idle) ∨
        ∃ doc, codec.docOf raw = some doc ∧ w' = w.afterWatcher k (.parsed raw doc)) := by
  simp only [step] at h
  split at h
  · rename_i raw hk
    split at h
    · rename_i hd
      cases h
      exact ⟨raw, hk, .inl ⟨hd, rfl⟩⟩
    · rename_i doc hd
      cases h
      exact ⟨raw, hk, .inr ⟨doc, hd, rfl⟩⟩
  · cases h

theorem step_lock {k : Nat} (h : step codec w (.lock k) = some w') :
    ∃ raw doc, w.watchers k = .parsed raw doc ∧ w' = w.afterLock k doc := by
  simp only [step] at h
  split at h
  · rename_i raw doc hk
    cases h
    exact ⟨raw, doc, hk, rfl⟩
  · cases h

end Steps

/-! ## Versions: what the file holds -/

/-- The file holds the document of its version, and no acknowledged write is newer. -/
structure Versions (w : World Text) : Prop where
  readsBack : ∀ n ≤ w.count, codec.ReadsBack (w.installed n)
  calls_readsBack : ∀ i, codec.ReadsBack (w.calls i).doc
  disk : ∃ d, codec.docOf w.disk = some d ∧ d.body = (w.installed w.diskVersion).body
  diskVersion_le : w.diskVersion ≤ w.count
  pos_le : ∀ i pos, (w.calls i).pc.pos? = some pos → pos ≤ w.count
  stamped : ∀ i pos json version, (w.calls i).pc = .stamped pos json version →
    pos ≤ version ∧ version ≤ w.count ∧
      ∃ d, codec.docOf json = some d ∧ d.body = (w.installed version).body
  ok : ∀ i pos, (w.calls i).pc = .ok pos → pos ≤ w.diskVersion
  top : w.count = 0 ∨ ∃ i, (w.calls i).pc.pos? = some w.count

section Versions

variable {codec} {w : World Text}

theorem versions_start (h : Start codec w) : Versions codec w where
  readsBack := by
    intro n hn
    rw [h.count] at hn
    obtain rfl : n = 0 := by omega
    rw [h.installed]
    exact h.readsBack
  calls_readsBack := h.calls_readsBack
  disk := ⟨_, h.disk, by rw [h.diskVersion, h.installed]⟩
  diskVersion_le := by rw [h.diskVersion]; omega
  pos_le := by
    intro i pos hp
    rw [h.calls i] at hp
    cases hp
  stamped := by
    intro i pos json version hp
    rw [h.calls i] at hp
    cases hp
  ok := by
    intro i pos hp
    rw [h.calls i] at hp
    cases hp
  top := .inl h.count

/-- A step of a watcher run changes no version. -/
theorem versions_watchers (h : Versions codec w) (mem : State) (r : Nat → Watcher Text) :
    Versions codec { w with mem := mem, watchers := r } :=
  ⟨h.readsBack, h.calls_readsBack, h.disk, h.diskVersion_le, h.pos_le, h.stamped, h.ok, h.top⟩

theorem versions_install (h : Versions codec w) (i : Nat) :
    Versions codec (w.afterInstall i) := by
  have hold : ∀ n ≤ w.count, (w.afterInstall i).installed n = w.installed n := by
    intro n hn
    exact Function.update_of_ne (by omega) _ _
  have hnew : (w.afterInstall i).installed (w.count + 1) = (w.calls i).doc :=
    Function.update_self _ _ _
  have hpcs : ∀ j, ((w.afterInstall i).calls j).pc =
      if j = i then .installed (w.count + 1) else (w.calls j).pc :=
    fun j => w.setPc_pc i j _
  refine ⟨?_, ?_, ?_, ?_, ?_, ?_, ?_, ?_⟩
  · intro n hn
    have hn : n ≤ w.count + 1 := hn
    rcases Nat.lt_or_ge w.count n with hlt | hle
    · obtain rfl : n = w.count + 1 := by omega
      rw [hnew]
      exact h.calls_readsBack i
    · rw [hold n hle]
      exact h.readsBack n hle
  · intro j
    exact (w.setPc_doc i j _).symm ▸ h.calls_readsBack j
  · obtain ⟨d, hd, hb⟩ := h.disk
    exact ⟨d, hd, by rw [hb]; exact congrArg _ (hold _ h.diskVersion_le).symm⟩
  · exact Nat.le_succ_of_le h.diskVersion_le
  · intro j pos hp
    rw [hpcs] at hp
    split at hp
    · cases hp
      exact Nat.le_refl _
    · exact Nat.le_succ_of_le (h.pos_le j pos hp)
  · intro j pos json version hp
    rw [hpcs] at hp
    split at hp
    · cases hp
    · obtain ⟨h1, h2, d, hd, hb⟩ := h.stamped j pos json version hp
      exact ⟨h1, Nat.le_succ_of_le h2, d, hd, by rw [hold _ h2]; exact hb⟩
  · intro j pos hp
    rw [hpcs] at hp
    split at hp
    · cases hp
    · exact h.ok j pos hp
  · exact .inr ⟨i, by rw [hpcs, if_pos rfl]; rfl⟩

theorem versions_stamp {i pos : Nat} {token : Uuid} (h : Versions codec w)
    (hpc : (w.calls i).pc = .installed pos) (hord : w.mem.doc.body = w.lastInstalled.body) :
    Versions codec (w.afterStamp codec i pos token) := by
  have hpcs : ∀ j, ((w.afterStamp codec i pos token).calls j).pc =
      if j = i then .stamped pos
        (codec.toStringPretty (w.mem.stamp (w.calls i).writer token).doc) w.count
      else (w.calls j).pc :=
    fun j => w.setPc_pc i j _
  have hpos : ∀ j, ((w.afterStamp codec i pos token).calls j).pc.pos? = (w.calls j).pc.pos? := by
    intro j
    rw [hpcs]
    split
    · rename_i hj
      rw [hj, hpc]
      rfl
    · rfl
  refine ⟨h.readsBack, ?_, h.disk, h.diskVersion_le, ?_, ?_, ?_, ?_⟩
  · intro j
    exact (w.setPc_doc i j _).symm ▸ h.calls_readsBack j
  · intro j p hp
    rw [hpos] at hp
    exact h.pos_le j p hp
  · intro j p json version hp
    rw [hpcs] at hp
    split at hp
    · cases hp
      have hbody : (w.mem.stamp (w.calls i).writer token).doc.body = (w.installed w.count).body :=
        hord
      exact ⟨h.pos_le i pos (by rw [hpc]; rfl), Nat.le_refl _, _,
        (h.readsBack w.count (Nat.le_refl _)).docOf hbody, hbody⟩
    · exact h.stamped j p json version hp
  · intro j p hp
    rw [hpcs] at hp
    split at hp
    · cases hp
    · exact h.ok j p hp
  · rcases h.top with h0 | ⟨j, hj⟩
    · exact .inl h0
    · exact .inr ⟨j, by rw [hpos]; exact hj⟩

theorem versions_publish {i k pos version : Nat} {json : Text} (h : Versions codec w)
    (hpc : (w.calls i).pc = .stamped pos json version) (hord : w.diskVersion ≤ version) :
    Versions codec (w.afterPublish i k pos json version) := by
  have hpcs : ∀ j, ((w.afterPublish i k pos json version).calls j).pc =
      if j = i then .ok pos else (w.calls j).pc :=
    fun j => w.setPc_pc i j _
  have hpos : ∀ j, ((w.afterPublish i k pos json version).calls j).pc.pos? =
      (w.calls j).pc.pos? := by
    intro j
    rw [hpcs]
    split
    · rename_i hj
      rw [hj, hpc]
      rfl
    · rfl
  obtain ⟨h1, h2, hd⟩ := h.stamped i pos json version hpc
  refine ⟨h.readsBack, ?_, hd, h2, ?_, ?_, ?_, ?_⟩
  · intro j
    exact (w.setPc_doc i j _).symm ▸ h.calls_readsBack j
  · intro j p hp
    rw [hpos] at hp
    exact h.pos_le j p hp
  · intro j p json' version' hp
    rw [hpcs] at hp
    split at hp
    · cases hp
    · exact h.stamped j p json' version' hp
  · intro j p hp
    rw [hpcs] at hp
    split at hp
    · cases hp
      exact h1
    · exact Nat.le_trans (h.ok j p hp) hord
  · rcases h.top with h0 | ⟨j, hj⟩
    · exact .inl h0
    · exact .inr ⟨j, by rw [hpos]; exact hj⟩

theorem versions_step {a : Action} {w' : World Text} (h : Versions codec w) (hord : Orderly w a)
    (hs : step codec w a = some w') : Versions codec w' := by
  cases a with
  | install i =>
    obtain ⟨-, rfl⟩ := step_install hs
    exact versions_install h i
  | stamp i token =>
    obtain ⟨pos, hpc, -, rfl⟩ := step_stamp hs
    exact versions_stamp h hpc hord
  | publish i k =>
    obtain ⟨pos, json, version, hpc, -, rfl⟩ := step_publish hs
    exact versions_publish h hpc (hord pos json version hpc)
  | notify k =>
    obtain ⟨-, rfl⟩ := step_notify hs
    exact versions_watchers h w.mem _
  | read k =>
    obtain ⟨-, rfl⟩ := step_read hs
    exact versions_watchers h w.mem _
  | parse k =>
    obtain ⟨raw, -, ⟨-, rfl⟩ | ⟨doc, -, rfl⟩⟩ := step_parse hs
    · exact versions_watchers h w.mem _
    · exact versions_watchers h w.mem _
  | lock k =>
    obtain ⟨raw, doc, -, rfl⟩ := step_lock hs
    exact versions_watchers h _ _

end Versions

/-! ## Tokens: what the watcher recognises -/

/-- A token names one document among the texts around; the remembered token names the document in
memory, unless a call has yet to stamp; and memory agrees with the file, unless a call or a
watcher run has yet to make it so. -/
structure Tokens (w : World Text) : Prop where
  parsed : ∀ k raw doc, w.watchers k = .parsed raw doc → codec.docOf raw = some doc
  issued : ∀ raw d token, w.Circulates raw → codec.docOf raw = some d →
    d.metaBlock.lastWriterToken = some token → token ∈ w.issued
  unique : ∀ raw raw' d d' token, w.Circulates raw → w.Circulates raw' →
    codec.docOf raw = some d → codec.docOf raw' = some d' →
    d.metaBlock.lastWriterToken = some token → d'.metaBlock.lastWriterToken = some token →
    d.body = d'.body
  remembered : (∃ i pos, (w.calls i).pc = .installed pos) ∨
    ∀ raw d token, w.Circulates raw → codec.docOf raw = some d →
      d.metaBlock.lastWriterToken = some token → w.mem.lastWriterToken = some token →
      d.body = w.mem.doc.body
  settled : (∃ i, (w.calls i).pc.InFlight) ∨ (∃ k, w.Fresh k) ∨
    ∀ d, codec.docOf w.disk = some d → d.body = w.mem.doc.body

section Tokens

variable {codec} {w : World Text}

theorem circulates_setPc {i : Nat} {pc : Pc Text} {raw : Text}
    (h : ∃ j, (w.setPc i pc j).pc.json? = some raw) :
    pc.json? = some raw ∨ ∃ j, (w.calls j).pc.json? = some raw := by
  obtain ⟨j, hj⟩ := h
  rw [World.setPc_pc] at hj
  split at hj
  · exact .inl hj
  · exact .inr ⟨j, hj⟩

theorem circulates_setWatcher {k : Nat} {r : Watcher Text} {raw : Text}
    (h : ∃ j, (w.setWatcher k r j).raw? = some raw) :
    r.raw? = some raw ∨ ∃ j, (w.watchers j).raw? = some raw := by
  obtain ⟨j, hj⟩ := h
  rw [World.setWatcher_apply] at hj
  split at hj
  · exact .inl hj
  · exact .inr ⟨j, hj⟩

theorem circulates_install {i : Nat} {raw : Text} (h : (w.afterInstall i).Circulates raw) :
    w.Circulates raw := by
  rcases h with h | h | h
  · exact .inl h
  · rcases circulates_setPc h with h | h
    · cases h
    · exact .inr (.inl h)
  · exact .inr (.inr h)

/-- Stamping is the only step that brings a new text. -/
theorem circulates_stamp {i pos : Nat} {token : Uuid} {raw : Text}
    (h : (w.afterStamp codec i pos token).Circulates raw) :
    raw = codec.toStringPretty (w.mem.stamp (w.calls i).writer token).doc ∨ w.Circulates raw := by
  rcases h with h | h | h
  · exact .inr (.inl h)
  · rcases circulates_setPc h with h | h
    · simp only [Pc.json?, Option.some.injEq] at h
      exact .inl h.symm
    · exact .inr (.inr (.inl h))
  · exact .inr (.inr (.inr h))

theorem circulates_publish {i k pos version : Nat} {json raw : Text}
    (hpc : (w.calls i).pc = .stamped pos json version)
    (h : (w.afterPublish i k pos json version).Circulates raw) : w.Circulates raw := by
  rcases h with h | h | h
  · have hraw : raw = json := h
    exact .inr (.inl ⟨i, by rw [hpc, hraw]; rfl⟩)
  · rcases circulates_setPc h with h | h
    · cases h
    · exact .inr (.inl h)
  · rcases circulates_setWatcher h with h | h
    · cases h
    · exact .inr (.inr h)

theorem circulates_watcher {k : Nat} {r : Watcher Text} {mem : State} {raw : Text}
    (hr : ∀ t, r.raw? = some t → w.Circulates t)
    (h : World.Circulates { w with mem := mem, watchers := w.setWatcher k r } raw) :
    w.Circulates raw := by
  rcases h with h | h | h
  · exact .inl h
  · exact .inr (.inl h)
  · rcases circulates_setWatcher h with h | h
    · exact hr raw h
    · exact .inr (.inr h)

theorem fresh_of_pending {k : Nat} (h : w.watchers k = .pending) : w.Fresh k := by
  unfold World.Fresh
  rw [h]
  trivial

theorem fresh_of_raw {k : Nat} (h : (w.watchers k).raw? = some w.disk) : w.Fresh k := by
  unfold World.Fresh
  cases hk : w.watchers k with
  | idle => rw [hk] at h; cases h
  | pending => trivial
  | read raw => rw [hk] at h; exact Option.some.inj h
  | parsed raw doc => rw [hk] at h; exact Option.some.inj h

theorem fresh_raw {k : Nat} {raw : Text} (h : w.Fresh k) (hr : (w.watchers k).raw? = some raw) :
    raw = w.disk := by
  unfold World.Fresh at h
  cases hk : w.watchers k with
  | idle => rw [hk] at h; cases h
  | pending => rw [hk] at hr; cases hr
  | read raw' => rw [hk] at h hr; cases hr; exact h
  | parsed raw' doc => rw [hk] at h hr; cases hr; exact h

/-- Another watcher run stays as fresh as it was. -/
theorem fresh_other {k k' : Nat} {r : Watcher Text} {mem : State} (hne : k' ≠ k)
    (h : w.Fresh k') : World.Fresh { w with mem := mem, watchers := w.setWatcher k r } k' := by
  have hk : w.setWatcher k r k' = w.watchers k' := by
    rw [World.setWatcher_apply, if_neg hne]
  unfold World.Fresh at *
  simp only [hk]
  exact h

theorem parsed_setWatcher {k : Nat} {r : Watcher Text}
    (h : ∀ j raw doc, w.watchers j = .parsed raw doc → codec.docOf raw = some doc)
    (hr : ∀ raw doc, r = .parsed raw doc → codec.docOf raw = some doc) :
    ∀ j raw doc, w.setWatcher k r j = .parsed raw doc → codec.docOf raw = some doc := by
  intro j raw doc hj
  rw [World.setWatcher_apply] at hj
  split at hj
  · exact hr raw doc hj
  · exact h j raw doc hj

theorem tokens_start (h : Start codec w) : Tokens codec w := by
  have hcirc : ∀ raw, w.Circulates raw → raw = w.disk := by
    intro raw hraw
    rcases hraw with hd | ⟨i, hi⟩ | ⟨k, hk⟩
    · exact hd
    · rw [h.calls i] at hi
      cases hi
    · rw [h.watchers k] at hk
      cases hk
  have hdoc : ∀ raw d, w.Circulates raw → codec.docOf raw = some d → d = w.mem.doc := by
    intro raw d hraw hd
    rw [hcirc raw hraw, h.disk] at hd
    exact (Option.some.inj hd).symm
  refine ⟨?_, ?_, ?_, ?_, ?_⟩
  · intro k raw doc hk
    rw [h.watchers k] at hk
    cases hk
  · intro raw d token hraw hd ht
    refine h.issued token ?_
    rw [h.token, ← hdoc raw d hraw hd]
    exact ht
  · intro raw raw' d d' token hraw hraw' hd hd' _ _
    rw [hdoc raw d hraw hd, hdoc raw' d' hraw' hd']
  · refine .inr fun raw d token hraw hd _ _ => ?_
    rw [hdoc raw d hraw hd]
  · refine .inr (.inr fun d hd => ?_)
    rw [hdoc w.disk d (.inl rfl) hd]

theorem tokens_install {i : Nat} (h : Tokens codec w) : Tokens codec (w.afterInstall i) := by
  have hpc : ((w.afterInstall i).calls i).pc = .installed (w.count + 1) := by
    show (w.setPc i _ i).pc = _
    rw [World.setPc_pc, if_pos rfl]
  refine ⟨h.parsed, ?_, ?_, .inl ⟨i, _, hpc⟩, .inl ⟨i, by rw [hpc]; trivial⟩⟩
  · intro raw d token hraw
    exact h.issued raw d token (circulates_install hraw)
  · intro raw raw' d d' token hraw hraw'
    exact h.unique raw raw' d d' token (circulates_install hraw) (circulates_install hraw')

theorem tokens_stamp {i pos : Nat} {token : Uuid} (hv : Versions codec w) (h : Tokens codec w)
    (ht : token ∉ w.issued) (hord : w.mem.doc.body = w.lastInstalled.body) :
    Tokens codec (w.afterStamp codec i pos token) := by
  have hjson : codec.docOf (codec.toStringPretty (w.mem.stamp (w.calls i).writer token).doc) =
      some (w.mem.stamp (w.calls i).writer token).doc :=
    (hv.readsBack w.count (Nat.le_refl _)).docOf hord
  have hpc : ((w.afterStamp codec i pos token).calls i).pc = .stamped pos
      (codec.toStringPretty (w.mem.stamp (w.calls i).writer token).doc) w.count := by
    show (w.setPc i _ i).pc = _
    rw [World.setPc_pc, if_pos rfl]
  -- the document of a circulating text: the one just stamped, or one with an older token
  have hcirc : ∀ raw d t, (w.afterStamp codec i pos token).Circulates raw →
      codec.docOf raw = some d → d.metaBlock.lastWriterToken = some t →
      (d = (w.mem.stamp (w.calls i).writer token).doc ∧ t = token) ∨
        (w.Circulates raw ∧ t ∈ w.issued) := by
    intro raw d t hraw hd htok
    rcases circulates_stamp hraw with rfl | hold
    · rw [hjson] at hd
      cases hd
      rw [State.stamp_doc_token] at htok
      exact .inl ⟨rfl, (Option.some.inj htok).symm⟩
    · exact .inr ⟨hold, h.issued raw d t hold hd htok⟩
  refine ⟨h.parsed, ?_, ?_, ?_, .inl ⟨i, by rw [hpc]; trivial⟩⟩
  · intro raw d t hraw hd htok
    rcases hcirc raw d t hraw hd htok with ⟨-, rfl⟩ | ⟨-, hmem⟩
    · exact List.mem_cons_self
    · exact List.mem_cons_of_mem _ hmem
  · intro raw raw' d d' t hraw hraw' hd hd' htok htok'
    rcases hcirc raw d t hraw hd htok with ⟨rfl, rfl⟩ | ⟨hold, hmem⟩
    · rcases hcirc raw' d' t hraw' hd' htok' with ⟨rfl, -⟩ | ⟨-, hmem⟩
      · rfl
      · exact absurd hmem ht
    · rcases hcirc raw' d' t hraw' hd' htok' with ⟨-, rfl⟩ | ⟨hold', -⟩
      · exact absurd hmem ht
      · exact h.unique raw raw' d d' t hold hold' hd hd' htok htok'
  · refine .inr fun raw d t hraw hd htok hrem => ?_
    have hrem : some token = some t := hrem
    rcases hcirc raw d t hraw hd htok with ⟨rfl, -⟩ | ⟨-, hmem⟩
    · rfl
    · cases hrem
      exact absurd hmem ht

theorem tokens_publish {i k pos version : Nat} {json : Text} (h : Tokens codec w)
    (hpc : (w.calls i).pc = .stamped pos json version) :
    Tokens codec (w.afterPublish i k pos json version) := by
  have hk : (w.afterPublish i k pos json version).watchers k = .pending := by
    show w.setWatcher k _ k = _
    rw [World.setWatcher_apply, if_pos rfl]
  refine ⟨?_, ?_, ?_, ?_, .inr (.inl ⟨k, fresh_of_pending hk⟩)⟩
  · exact parsed_setWatcher h.parsed (by intro raw doc hr; cases hr)
  · intro raw d token hraw
    exact h.issued raw d token (circulates_publish hpc hraw)
  · intro raw raw' d d' token hraw hraw'
    exact h.unique raw raw' d d' token (circulates_publish hpc hraw)
      (circulates_publish hpc hraw')
  · rcases h.remembered with ⟨j, p, hj⟩ | hrem
    · refine .inl ⟨j, p, ?_⟩
      have hne : j ≠ i := by
        rintro rfl
        rw [hpc] at hj
        cases hj
      show (w.setPc i _ j).pc = _
      rw [World.setPc_pc, if_neg hne]
      exact hj
    · exact .inr fun raw d token hraw => hrem raw d token (circulates_publish hpc hraw)

/-- A step of a watcher run that leaves memory alone and brings no new text. -/
theorem tokens_watcher {k : Nat} {r : Watcher Text} (h : Tokens codec w)
    (hr : ∀ t, r.raw? = some t → w.Circulates t)
    (hparsed : ∀ raw doc, r = .parsed raw doc → codec.docOf raw = some doc)
    (hfresh : w.Fresh k → (w.afterWatcher k r).Fresh k) :
    Tokens codec (w.afterWatcher k r) := by
  refine ⟨parsed_setWatcher h.parsed hparsed, ?_, ?_, ?_, ?_⟩
  · intro raw d token hraw
    exact h.issued raw d token (circulates_watcher hr hraw)
  · intro raw raw' d d' token hraw hraw'
    exact h.unique raw raw' d d' token (circulates_watcher hr hraw) (circulates_watcher hr hraw')
  · rcases h.remembered with hin | hrem
    · exact .inl hin
    · exact .inr fun raw d token hraw => hrem raw d token (circulates_watcher hr hraw)
  · rcases h.settled with hin | ⟨k', hk'⟩ | hdisk
    · exact .inl hin
    · refine .inr (.inl ⟨k', ?_⟩)
      by_cases hne : k' = k
      · subst hne
        exact hfresh hk'
      · exact fresh_other hne hk'
    · exact .inr (.inr hdisk)

theorem watcher_self (k : Nat) (r : Watcher Text) : (w.afterWatcher k r).watchers k = r := by
  show w.setWatcher k r k = r
  rw [World.setWatcher_apply, if_pos rfl]

theorem tokens_lock {k : Nat} {raw : Text} {doc : ConfigDocument} (h : Tokens codec w)
    (hk : w.watchers k = .parsed raw doc)
    (hord : w.mem.origin doc = .external → raw = w.disk ∨ ∃ k', k' ≠ k ∧ w.Fresh k') :
    Tokens codec (w.afterLock k doc) := by
  have hcirc : ∀ {t}, (w.afterLock k doc).Circulates t → w.Circulates t :=
    fun ht => circulates_watcher (fun t h => by cases h) ht
  have hraw : w.Circulates raw := .inr (.inr ⟨k, by rw [hk]; rfl⟩)
  have hdoc : codec.docOf raw = some doc := h.parsed k raw doc hk
  have hmem : (w.afterLock k doc).mem = w.mem.onDisk doc := rfl
  refine ⟨parsed_setWatcher h.parsed (by intro raw doc hr; cases hr), ?_, ?_, ?_, ?_⟩
  · intro t d token ht
    exact h.issued t d token (hcirc ht)
  · intro t t' d d' token ht ht'
    exact h.unique t t' d d' token (hcirc ht) (hcirc ht')
  · by_cases ho : w.mem.origin doc = .echo
    · rw [hmem, State.onDisk_echo ho]
      rcases h.remembered with hin | hrem
      · exact .inl hin
      · exact .inr fun t d token ht => hrem t d token (hcirc ht)
    · rw [hmem, State.onDisk_external ho]
      exact .inr fun t d token ht hd htok hrem =>
        h.unique t raw d doc token (hcirc ht) hraw hd hdoc htok hrem
  · by_cases ho : w.mem.origin doc = .echo
    · by_cases hdisk : raw = w.disk
      · -- an echo of what is on disk: the remembered token is the file's
        obtain ⟨token, h1, h2⟩ := State.origin_eq_echo_iff.mp ho
        rcases h.remembered with ⟨i, pos, hi⟩ | hrem
        · exact .inl ⟨i, by show Pc.InFlight (w.calls i).pc; rw [hi]; trivial⟩
        · refine .inr (.inr fun d hd => ?_)
          have hd : codec.docOf raw = some d := by rw [hdisk]; exact hd
          rw [hmem, State.onDisk_echo ho]
          rw [hdoc] at hd
          cases hd
          exact hrem raw doc token hraw hdoc h1 h2
      · rcases h.settled with hin | ⟨k', hk'⟩ | hd
        · exact .inl hin
        · have hne : k' ≠ k := by
            rintro rfl
            exact hdisk (fresh_raw hk' (by rw [hk]; rfl))
          exact .inr (.inl ⟨k', fresh_other hne hk'⟩)
        · refine .inr (.inr ?_)
          rw [hmem, State.onDisk_echo ho]
          exact hd
    · rcases hord (State.origin_eq_external_of_ne ho) with hdisk | ⟨k', hne, hk'⟩
      · refine .inr (.inr fun d hd => ?_)
        have hd : codec.docOf raw = some d := by rw [hdisk]; exact hd
        rw [hmem, State.onDisk_external ho]
        rw [hdoc] at hd
        cases hd
        rfl
      · exact .inr (.inl ⟨k', fresh_other hne hk'⟩)

theorem tokens_step {a : Action} {w' : World Text} (hv : Versions codec w) (h : Tokens codec w)
    (hord : Orderly w a) (hs : step codec w a = some w') : Tokens codec w' := by
  cases a with
  | install i =>
    obtain ⟨-, rfl⟩ := step_install hs
    exact tokens_install h
  | stamp i token =>
    obtain ⟨pos, -, ht, rfl⟩ := step_stamp hs
    exact tokens_stamp hv h ht hord
  | publish i k =>
    obtain ⟨pos, json, version, hpc, -, rfl⟩ := step_publish hs
    exact tokens_publish h hpc
  | notify k =>
    obtain ⟨-, rfl⟩ := step_notify hs
    refine tokens_watcher h (by intro t ht; cases ht) (by intro raw doc hr; cases hr) fun _ => ?_
    exact fresh_of_pending (watcher_self k _)
  | read k =>
    obtain ⟨-, rfl⟩ := step_read hs
    refine tokens_watcher h ?_ (by intro raw doc hr; cases hr) fun _ => ?_
    · intro t ht
      exact .inl (Option.some.inj ht).symm
    · exact fresh_of_raw (by rw [watcher_self]; rfl)
  | parse k =>
    obtain ⟨raw, hk, ⟨hd, rfl⟩ | ⟨doc, hd, rfl⟩⟩ := step_parse hs
    · -- what the file holds parses, so this run did not hold it
      refine tokens_watcher h (by intro t ht; cases ht) (by intro raw doc hr; cases hr) fun hf => ?_
      obtain ⟨d, hdisk, -⟩ := hv.disk
      have hraw : raw = w.disk := fresh_raw hf (by rw [hk]; rfl)
      rw [hraw, hdisk] at hd
      cases hd
    · refine tokens_watcher h ?_ ?_ fun hf => ?_
      · intro t ht
        exact .inr (.inr ⟨k, by rw [hk]; exact ht⟩)
      · intro raw' doc' hr
        cases hr
        exact hd
      · have hraw : raw = w.disk := fresh_raw hf (by rw [hk]; rfl)
        refine fresh_of_raw ?_
        rw [watcher_self]
        exact congrArg some hraw
  | lock k =>
    obtain ⟨raw, doc, hk, rfl⟩ := step_lock hs
    exact tokens_lock h hk (hord raw doc hk)

end Tokens

/-! ## Runs -/

variable {codec}

theorem orderly_run {w w' : World Text} {as : List Action} (h0 : Start codec w)
    (h : Exec (step codec) Orderly w as w') : Versions codec w' ∧ Tokens codec w' :=
  h.invariant (I := fun w => Versions codec w ∧ Tokens codec w)
    (fun _ _ _ hi hG hs => ⟨versions_step hi.1 hG hs, tokens_step hi.1 hi.2 hG hs⟩)
    ⟨versions_start h0, tokens_start h0⟩

/-- **Orderly writes settle.** However many calls and watcher runs interleave, as long as every
step is orderly: the file holds the document of its version, every acknowledged call was installed
at or before that version, and once nothing is under way memory and file both hold the document
installed last. -/
theorem orderly_writes_settle {w w' : World Text} {as : List Action} (h0 : Start codec w)
    (h : Exec (step codec) Orderly w as w') :
    ∃ d, codec.docOf w'.disk = some d ∧ d.body = (w'.installed w'.diskVersion).body ∧
      (∀ i pos, (w'.calls i).pc = .ok pos → pos ≤ w'.diskVersion) ∧
      (w'.Quiescent → w'.mem.doc.body = d.body ∧ d.body = w'.lastInstalled.body) := by
  obtain ⟨hv, ht⟩ := orderly_run h0 h
  obtain ⟨d, hd, hbody⟩ := hv.disk
  refine ⟨d, hd, hbody, hv.ok, ?_⟩
  rintro ⟨hcalls, hwatchers⟩
  constructor
  · rcases ht.settled with ⟨i, hi⟩ | ⟨k, hk⟩ | hsettled
    · exact absurd hi (hcalls i)
    · unfold World.Fresh at hk
      rw [hwatchers k] at hk
      cases hk
    · exact (hsettled d hd).symm
  · have hle : w'.count ≤ w'.diskVersion := by
      rcases hv.top with h0 | ⟨i, hi⟩
      · omega
      · cases hpc : (w'.calls i).pc with
        | idle => rw [hpc] at hi; cases hi
        | installed pos => exact absurd (by rw [hpc]; trivial) (hcalls i)
        | stamped pos json version => exact absurd (by rw [hpc]; trivial) (hcalls i)
        | ok pos =>
          rw [hpc] at hi
          cases hi
          exact hv.ok i _ hpc
    have heq : w'.diskVersion = w'.count := Nat.le_antisymm hv.diskVersion_le hle
    rw [hbody, heq]
    rfl

/-! ## Two writers -/

/-- A store with one call per document of the list `docs`, nothing under way. -/
def loadedWorld (initial : ConfigDocument) (docs : Nat → ConfigDocument) : World FileText where
  mem := ⟨initial, initial.metaBlock.lastWriterToken⟩
  disk := .saved initial
  calls i := ⟨docs i, .gui, .idle⟩
  watchers _ := .idle
  installed _ := initial
  count := 0
  diskVersion := 0
  issued := initial.metaBlock.lastWriterToken.toList

theorem loadedWorld_start (initial : ConfigDocument) (docs : Nat → ConfigDocument) :
    Start fileCodec (loadedWorld initial docs) where
  calls _ := rfl
  watchers _ := rfl
  disk := rfl
  token := rfl
  installed := rfl
  count := rfl
  diskVersion := rfl
  issued := by
    intro token h
    have h : initial.metaBlock.lastWriterToken = some token := h
    simp [loadedWorld, h]
  readsBack := fileCodec_readsBack _
  calls_readsBack _ := fileCodec_readsBack _

def targets : Nat → ConfigDocument
  | 0 => .withDefault (.new "arc")
  | _ => .withDefault (.new "firefox")

/-- Both calls install before either stamps; the first watcher run reads what the second publish
replaces. -/
def overlapping : List Action :=
  [.install 0, .install 1, .stamp 1 1#128, .stamp 0 2#128, .publish 1 0, .read 0, .publish 0 1,
    .parse 0, .lock 0, .read 1, .parse 1, .lock 1]

theorem orderly_writes_settle_overlapping :
    ∃ w, run (step fileCodec) (loadedWorld (.withDefault (.new "chrome")) targets) overlapping =
        some w ∧
      ∃ d, fileCodec.docOf w.disk = some d ∧ d.body = (w.installed w.diskVersion).body ∧
        (∀ i pos, (w.calls i).pc = .ok pos → pos ≤ w.diskVersion) ∧
        (w.Quiescent → w.mem.doc.body = d.body ∧ d.body = w.lastInstalled.body) := by
  have hexec : ∃ w, Exec (step fileCodec) Orderly
      (loadedWorld (.withDefault (.new "chrome")) targets) overlapping w := by
    refine ⟨_, .cons trivial rfl <| .cons trivial rfl <| .cons rfl rfl <| .cons rfl rfl <|
      .cons ?_ rfl <| .cons trivial rfl <| .cons ?_ rfl <| .cons trivial rfl <| .cons ?_ rfl <|
      .cons trivial rfl <| .cons trivial rfl <| .cons ?_ rfl <| .nil _⟩
    · intro pos json version h
      cases h
      decide
    · intro pos json version h
      cases h
      decide
    · intro raw doc h _
      exact .inr ⟨1, by decide, trivial⟩
    · intro raw doc h _
      cases h
      exact .inl rfl
  obtain ⟨w, h⟩ := hexec
  exact ⟨w, h.run_eq, orderly_writes_settle (loadedWorld_start _ _) h⟩

/-- Call 1 installs after call 0 and publishes before it. -/
def crossed : List Action :=
  [.install 0, .stamp 0 1#128, .install 1, .stamp 1 2#128, .publish 1 1, .publish 0 0,
    .read 0, .parse 0, .lock 0, .read 1, .parse 1, .lock 1]

/-- Two acknowledged writes whose publishes cross: call 1 installed last, and once everything is
done memory and file both hold the document of call 0. -/
theorem later_write_reverted :
    ∃ w, run (step fileCodec) (loadedWorld (.withDefault (.new "chrome")) targets) crossed =
        some w ∧
      w.Quiescent ∧ (w.calls 0).pc = .ok 1 ∧ (w.calls 1).pc = .ok 2 ∧
      w.lastInstalled.defaultTarget.browser = "firefox" ∧
      w.mem.doc.defaultTarget.browser = "arc" ∧
      (fileCodec.docOf w.disk).map (fun d => d.defaultTarget.browser) = some "arc" := by
  refine ⟨_, rfl, ⟨?_, ?_⟩, rfl, rfl, rfl, rfl, rfl⟩
  · intro i
    match i with
    | 0 => exact fun h => h
    | 1 => exact fun h => h
    | _ + 2 => exact fun h => h
  · intro k
    match k with
    | 0 => rfl
    | 1 => rfl
    | _ + 2 => rfl

end LinkPilot.StoreRace
