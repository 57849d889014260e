import LinkPilot.Lib.TempRename
import LinkPilot.UpdateDownload

/-!
# Concurrent downloads of one asset

Interleavings of any number of `update_download` calls for one asset name, after `update_download`
and `download_update_asset` of `apps/desktop/src-tauri/src/commands/mod.rs`.  The temp path is made
of the asset name alone, so all calls share it: each removes it, has curl write it, hashes it and
renames it over the destination.  Curl opens the path when its first bytes arrive and then writes
to the file that it opened.

Principal results:

* `inv_step` — what every phase of a call may rely on, as long as the calls keep apart.
* `downloads_verified` — in every run whose steps keep apart, a call returns Ok on the hash that it
  required, the destination never holds bytes that no call has verified, and a call that fails has
  not changed it.
* `unverified_bytes_installed` — a second call starts its download between the verification of the
  first and its rename.
-/

set_option autoImplicit false

namespace LinkPilot.Downloads

open Interleaving
open TempRename (Disk)

/-- A call that has passed the checks of `update_download`, and the hash that it requires. -/
structure DownloadCall (assetName : String) where
  request : UpdateDownloadRequest
  expected : String
  named : safeUpdateAssetName request.assetName = .ok assetName
  hashed : normalizeExpectedSha256 request.expectedSha256 = .ok (some expected)

/-- Where a call stands.  A curl that has received nothing has no open file. -/
inductive Phase where
  | idle
  | statted (bytes : Nat)
  | reusing (bytes : Nat)
  | fetching
  | emptied
  | curling (file : Option (Nat × Nat))
  | fetched
  | verified
  | discarding (error : String)
  | renamed
  | returned (download : UpdateDownload)
  | failed (error : String)
  deriving DecidableEq

/-- From the removal of the temp file until the call has returned. -/
def Phase.Loading : Phase → Prop
  | emptied => True
  | curling _ => True
  | fetched => True
  | verified => True
  | discarding _ => True
  | renamed => True
  | _ => False

/-- Its own file is at the destination. -/
def Phase.Installed : Phase → Prop
  | renamed => True
  | returned _ => True
  | _ => False

/-- `verified` are the contents that some call has hashed and found to be what it required, and
`changed` the calls that have changed the destination. -/
structure World where
  disk : Disk UInt8
  phases : Nat → Phase
  verified : List (List UInt8)
  changed : Nat → Bool

inductive Action where
  | stat (p : Nat) (fault : Bool)
  | hashCached (p : Nat) (fault : Option String)
  | removeTemp (p : Nat) (fault : Option String)
  | startCurl (p : Nat) (fault : Option String)
  | openTemp (p : Nat)
  | write (p : Nat) (chunk : List UInt8)
  | exitCurl (p : Nat) (status : Option String)
  | hashTemp (p : Nat) (fault : Option String)
  | discard (p : Nat) (removed : Bool)
  | rename (p : Nat) (fault : Option String)
  | finish (p : Nat) (fault : Option String)

/-- `std::fs::remove_file` of the temp path, when it exists. -/
def removeTemp (d : Disk UInt8) : Disk UInt8 := { d with temp := none }

/-- What a reader of the temp path gets. -/
def tempContent (d : Disk UInt8) : Option (List UInt8) := d.temp.map d.files

namespace World

def content (w : World) : Option (List UInt8) := w.disk.content

/-- The call `p` goes on to a phase and leaves the files so. -/
def move (w : World) (p : Nat) (d : Disk UInt8) (phase : Phase) : World where
  disk := d
  phases := Function.update w.phases p phase
  verified := w.verified
  changed :=
    if d.target = w.disk.target ∧ d.content = w.disk.content then w.changed
    else Function.update w.changed p true

def note (w : World) (text : List UInt8) : World := { w with verified := text :: w.verified }

end World

section Model

variable (sha256 : List UInt8 → String) (updatesDir : String) {assetName : String}
  (calls : Nat → DownloadCall assetName)

/-- `sha256_of_file`, of a file that has this content; it cannot succeed without one. -/
def sha256OfFile (file : Option (List UInt8)) (fault : Option String) :
    Option (Except String String) :=
  match fault, file with
  | some e, _ => some (.error e)
  | none, some text => some (.ok (sha256 text))
  | none, none => none

/-- `updates_dir.join(&asset_name)`. -/
def destination (updatesDir assetName : String) : String := updatesDir ++ "/" ++ assetName

/-- What `p` returns. -/
def updateDownloadOf (p : Nat) (alreadyDownloaded : Bool) (bytes : Nat) : UpdateDownload where
  version := (calls p).request.version
  assetName := assetName
  path := destination updatesDir assetName
  alreadyDownloaded := alreadyDownloaded
  bytes := bytes

def step (w : World) : Action → Option World
  | .stat p fault =>
    match w.phases p with
    | .idle =>
      match w.content, fault with
      | some text, false => some (w.move p w.disk (.statted text.length))
      | _, _ => some (w.move p w.disk .fetching)
    | _ => none
  | .hashCached p fault =>
    match w.phases p with
    | .statted bytes =>
      match sha256OfFile sha256 w.content fault with
      | none => none
      | some actual =>
        match reusableBytes (calls p).request (calls p).expected (some (bytes, actual)) with
        | some bytes => some (w.move p w.disk (.reusing bytes))
        | none => some (w.move p w.disk .fetching)
    | _ => none
  | .removeTemp p fault =>
    match w.phases p, fault with
    | .fetching, none => some (w.move p (removeTemp w.disk) .emptied)
    | .fetching, some e =>
      some (w.move p w.disk (.failed ("removing " ++ downloadPath updatesDir assetName ++ ": " ++ e)))
    | _, _ => none
  | .startCurl p fault =>
    match w.phases p, fault with
    | .emptied, none => some (w.move p w.disk (.curling none))
    | .emptied, some e => some (w.move p w.disk (.failed ("starting curl: " ++ e)))
    | _, _ => none
  | .openTemp p =>
    match w.phases p with
    | .curling none =>
      some (w.move p w.disk.openTemp.2 (.curling (some (w.disk.openTemp.1, 0))))
    | _ => none
  | .write p chunk =>
    match w.phases p with
    | .curling (some (i, off)) =>
      some (w.move p (w.disk.write 0 i off chunk) (.curling (some (i, off + chunk.length))))
    | _ => none
  | .exitCurl p status =>
    match w.phases p, status with
    | .curling _, none => some (w.move p w.disk .fetched)
    | .curling _, some s => some (w.move p w.disk (.discarding ("curl exited with " ++ s)))
    | _, _ => none
  | .hashTemp p fault =>
    match w.phases p with
    | .fetched =>
      match sha256OfFile sha256 (tempContent w.disk) fault with
      | none => none
      | some (.error e) =>
        some (w.move p w.disk (.discarding ("hashing downloaded file failed: " ++ e)))
      | some (.ok actual) =>
        if actual = (calls p).expected then
          some ((w.note ((tempContent w.disk).getD [])).move p w.disk .verified)
        else
          some (w.move p w.disk (.discarding
            ("checksum mismatch: expected " ++ (calls p).expected ++ ", got " ++ actual)))
    | _ => none
  | .discard p removed =>
    match w.phases p with
    | .discarding e => some (w.move p (if removed then removeTemp w.disk else w.disk) (.failed e))
    | _ => none
  | .rename p fault =>
    match w.phases p, fault with
    | .verified, none => w.disk.rename.map fun d => w.move p d .renamed
    | .verified, some e =>
      some (w.move p w.disk (.failed
        ("moving update to " ++ destination updatesDir assetName ++ ": " ++ e)))
    | _, _ => none
  | .finish p fault =>
    match w.phases p, fault with
    | .reusing bytes, _ =>
      some (w.move p w.disk (.returned (updateDownloadOf updatesDir calls p true bytes)))
    | .renamed, none => w.content.map fun text =>
      w.move p w.disk (.returned (updateDownloadOf updatesDir calls p false text.length))
    | .renamed, some e =>
      some (w.move p w.disk (.failed
        ("reading " ++ destination updatesDir assetName ++ ": " ++ e)))
    | _, _ => none

/-- No call has begun; a file may be at either path. -/
structure Start (w : World) : Prop where
  disk : w.disk.WellFormed
  phases : ∀ p, w.phases p = .idle
  changed : ∀ p, w.changed p = false

/-- The condition on a step: a call starts its download only while no other is between that and its
return; it renames only while every call that has accepted the file at the destination requires the
same hash; and the file that it has renamed can be looked at. -/
def Apart (w : World) : Action → Prop
  | .removeTemp _ none => ∀ q, ¬ (w.phases q).Loading
  | .rename p none =>
    ∀ q bytes, w.phases q = .reusing bytes → (calls q).expected = (calls p).expected
  | .finish p (some _) => w.phases p ≠ .renamed
  | _ => True

/-- The destination holds a file whose hash is the one that `p` requires. -/
def HoldsExpected (d : Disk UInt8) (p : Nat) : Prop :=
  ∃ text, d.content = some text ∧ sha256 text = (calls p).expected

/-- The destination holds its first content, or bytes that a call has verified. -/
def NoneUnverified (first : Option (List UInt8)) (w : World) : Prop :=
  w.content = first ∨ ∃ text ∈ w.verified, w.content = some text

/-- A call that has returned Err has not changed the destination. -/
def FailedUnchanged (w : World) : Prop := ∀ p e, w.phases p = .failed e → w.changed p = false

/-- A call that the step makes return Ok has the hash that it required at the destination. -/
def ReturnsVerified (w : World) (a : Action) : Prop :=
  ∀ w' p download, step sha256 updatesDir calls w a = some w' →
    (∀ download, w.phases p ≠ .returned download) → w'.phases p = .returned download →
    HoldsExpected sha256 calls w'.disk p

/-! ## The invariant -/

/-- What a call in the given phase relies on. -/
def PhaseOk (d : Disk UInt8) (verified : List (List UInt8)) (p : Nat) : Phase → Prop
  | .curling (some (i, _)) => d.temp = some i
  | .verified =>
    ∃ text ∈ verified, tempContent d = some text ∧ sha256 text = (calls p).expected
  | .reusing _ => HoldsExpected sha256 calls d p
  | .renamed => HoldsExpected sha256 calls d p
  | _ => True

structure Inv (first : Option (List UInt8)) (w : World) : Prop where
  disk : w.disk.WellFormed
  single : ∀ p q, (w.phases p).Loading → (w.phases q).Loading → p = q
  phases : ∀ p, PhaseOk sha256 calls w.disk w.verified p (w.phases p)
  unverified : NoneUnverified first w
  changed : ∀ p, w.changed p = true → (w.phases p).Installed

end Model

section Proofs

variable {sha256 : List UInt8 → String} {updatesDir assetName : String}
  {calls : Nat → DownloadCall assetName} {first : Option (List UInt8)} {w w' : World} {p : Nat}

theorem move_phases (w : World) (p q : Nat) (d : Disk UInt8) (phase : Phase) :
    (w.move p d phase).phases q = if q = p then phase else w.phases q := by
  simp [World.move, Function.update_apply]

theorem inv_start (h : Start w) : Inv sha256 calls w.content w where
  disk := h.disk
  single p q hp := by
    rw [h.phases p] at hp
    exact hp.elim
  phases p := by
    rw [h.phases p]
    trivial
  unverified := .inl rfl
  changed p hp := by
    rw [h.changed p] at hp
    cases hp

/-- A loading call is the only one. -/
theorem Inv.alone (h : Inv sha256 calls first w) (hp : (w.phases p).Loading) :
    ∀ q, q ≠ p → ¬ (w.phases q).Loading := by
  intro q hne hq
  exact hne (h.single q p hq hp)

/-- Among the phases of a call that is not loading, only what the destination holds matters. -/
theorem PhaseOk.of_content {d d' : Disk UInt8} {vs : List (List UInt8)} {phase : Phase}
    (h : PhaseOk sha256 calls d vs p phase) (hphase : ¬ phase.Loading)
    (hcontent : d'.content = d.content) : PhaseOk sha256 calls d' vs p phase := by
  cases phase with
  | reusing bytes =>
    obtain ⟨text, htext, hhash⟩ := h
    exact ⟨text, hcontent.trans htext, hhash⟩
  | curling file => exact absurd trivial hphase
  | verified => exact absurd trivial hphase
  | renamed => exact absurd trivial hphase
  | _ => trivial

/-- Both parts of `single`, when one call moves. -/
theorem single_move {d : Disk UInt8} {phase : Phase} (h : Inv sha256 calls first w)
    (hone : phase.Loading → ∀ q, q ≠ p → ¬ (w.phases q).Loading) (u v : Nat)
    (hu : ((w.move p d phase).phases u).Loading) (hv : ((w.move p d phase).phases v).Loading) :
    u = v := by
  rw [move_phases] at hu hv
  split at hu
  · rename_i hup
    split at hv
    · rename_i hvp
      rw [hup, hvp]
    · rename_i hvp
      exact absurd hv (hone hu v hvp)
  · rename_i hup
    split at hv
    · exact absurd hu (hone hv u hup)
    · exact h.single u v hu hv

/-- A step that leaves the destination alone; it may touch the temp file when no other call is
loading. -/
theorem inv_move {d : Disk UInt8} {phase : Phase} (h : Inv sha256 calls first w)
    (hdisk : d.WellFormed) (htarget : d.target = w.disk.target)
    (hcontent : d.content = w.disk.content)
    (hfree : d = w.disk ∨ ∀ q, q ≠ p → ¬ (w.phases q).Loading)
    (hone : phase.Loading → ∀ q, q ≠ p → ¬ (w.phases q).Loading)
    (hok : PhaseOk sha256 calls d w.verified p phase)
    (hchanged : (w.phases p).Installed → phase.Installed) :
    Inv sha256 calls first (w.move p d phase) where
  disk := hdisk
  single := single_move h hone
  phases q := by
    rw [move_phases]
    split
    · rename_i hq
      rw [hq]
      exact hok
    · rename_i hq
      rcases hfree with rfl | hfree
      · exact h.phases q
      · exact (h.phases q).of_content (hfree q hq) hcontent
  unverified := by
    rcases h.unverified with hfirst | ⟨text, htext, hverified⟩
    · exact .inl (hcontent.trans hfirst)
    · exact .inr ⟨text, htext, hcontent.trans hverified⟩
  changed q hq := by
    have hsame : (w.move p d phase).changed = w.changed := if_pos ⟨htarget, hcontent⟩
    rw [hsame] at hq
    rw [move_phases]
    split
    · rename_i hqp
      subst hqp
      exact hchanged (h.changed q hq)
    · exact h.changed q hq

/-- A step that touches no file. -/
theorem inv_stay {old phase : Phase} (h : Inv sha256 calls first w) (hp : w.phases p = old)
    (hload : phase.Loading → old.Loading) (hchanged : old.Installed → phase.Installed)
    (hok : PhaseOk sha256 calls w.disk w.verified p phase) :
    Inv sha256 calls first (w.move p w.disk phase) := by
  subst hp
  exact inv_move h h.disk rfl rfl (.inl rfl) (fun hphase => h.alone (hload hphase)) hok hchanged

/-- A step of a loading call on the temp file. -/
theorem inv_temp {old phase : Phase} {d : Disk UInt8} (h : Inv sha256 calls first w)
    (hp : w.phases p = old) (hload : old.Loading) (hchanged : old.Installed → phase.Installed)
    (hdisk : d.WellFormed) (htarget : d.target = w.disk.target)
    (hcontent : d.content = w.disk.content) (hok : PhaseOk sha256 calls d w.verified p phase) :
    Inv sha256 calls first (w.move p d phase) := by
  subst hp
  exact inv_move h hdisk htarget hcontent (.inr (h.alone hload)) (fun _ => h.alone hload) hok
    hchanged

theorem inv_note (h : Inv sha256 calls first w) (text : List UInt8) :
    Inv sha256 calls first (w.note text) where
  disk := h.disk
  single := h.single
  phases p := by
    have hp := h.phases p
    show PhaseOk sha256 calls w.disk (text :: w.verified) p (w.phases p)
    cases hphase : w.phases p with
    | verified =>
      rw [hphase] at hp
      obtain ⟨text', hmem, hrest⟩ := hp
      exact ⟨text', List.mem_cons_of_mem _ hmem, hrest⟩
    | curling file =>
      rw [hphase] at hp
      cases file <;> exact hp
    | _ =>
      rw [hphase] at hp
      exact hp
  unverified := by
    rcases h.unverified with hfirst | ⟨text', hmem, hcontent⟩
    · exact .inl hfirst
    · exact .inr ⟨text', List.mem_cons_of_mem _ hmem, hcontent⟩
  changed := h.changed

/-! ### The files -/

theorem wellFormed_removeTemp {d : Disk UInt8} (h : d.WellFormed) : (removeTemp d).WellFormed :=
  ⟨nofun, h.target, nofun⟩

/-- Curl opens a file that is not the one at the destination. -/
theorem openTemp_apart {d : Disk UInt8} (h : d.WellFormed) :
    d.openTemp.2.WellFormed ∧ d.openTemp.2.target = d.target ∧
      d.openTemp.2.content = d.content ∧ d.openTemp.2.temp = some d.openTemp.1 := by
  unfold Disk.openTemp
  split
  · rename_i i htemp
    exact ⟨⟨h.temp, h.target, h.apart⟩, rfl, TempRename.content_update (h.apart i htemp), htemp⟩
  · rename_i htemp
    have hfresh : d.target ≠ some d.next := by
      intro hc
      have := h.target _ hc
      omega
    refine ⟨⟨?_, ?_, ?_⟩, rfl, TempRename.content_update (d := d) hfresh, rfl⟩
    · rintro i hi
      cases hi
      exact Nat.lt_succ_self _
    · intro i hi
      exact Nat.lt_succ_of_lt (h.target i hi)
    · rintro i hi
      cases hi
      exact hfresh

theorem sha256OfFile_ok {file : Option (List UInt8)} {fault : Option String} {actual : String}
    (h : sha256OfFile sha256 file fault = some (.ok actual)) :
    ∃ text, file = some text ∧ sha256 text = actual := by
  unfold sha256OfFile at h
  split at h
  · cases h
  · cases h
    exact ⟨_, rfl, rfl⟩
  · cases h

/-- A file is used again only if its hash is the required one. -/
theorem reusableBytes_some {request : UpdateDownloadRequest} {expected : String} {bytes bytes' : Nat}
    {actual : Except String String}
    (h : reusableBytes request expected (some (bytes, actual)) = some bytes') :
    actual = .ok expected := by
  cases actual with
  | error e => cases h
  | ok actual =>
    simp only [reusableBytes] at h
    split at h
    · rename_i hall
      simp only [Bool.and_eq_true, beq_iff_eq] at hall
      rw [hall.2]
    · cases h

/-! ### Steps -/

/-- The verified temp file comes to the destination. -/
theorem inv_rename {d : Disk UInt8} (h : Inv sha256 calls first w) (hp : w.phases p = .verified)
    (hsame : ∀ q bytes, w.phases q = .reusing bytes → (calls q).expected = (calls p).expected)
    (hd : w.disk.rename = some d) : Inv sha256 calls first (w.move p d .renamed) := by
  have hloading : (w.phases p).Loading := by
    rw [hp]
    trivial
  have halone := h.alone hloading
  have hok := h.phases p
  rw [hp] at hok
  obtain ⟨text, hverified, htext, hhash⟩ := hok
  unfold Disk.rename at hd
  split at hd
  · rename_i i htemp
    cases hd
    have hcontent : ({ w.disk with temp := none, target := some i } : Disk UInt8).content =
        some text := by
      simpa [tempContent, htemp, Disk.content] using htext
    refine ⟨⟨?_, ?_, ?_⟩, single_move h fun _ => halone, ?_, ?_, ?_⟩
    · intro j hj
      cases hj
    · rintro j hj
      cases hj
      exact h.disk.temp i htemp
    · intro j hj
      cases hj
    · intro q
      rw [move_phases]
      split
      · rename_i hq
        rw [hq]
        exact ⟨text, hcontent, hhash⟩
      · rename_i hq
        have hqok := h.phases q
        have hqload := halone q hq
        cases hphase : w.phases q with
        | reusing bytes => exact ⟨text, hcontent, by rw [hhash, hsame q bytes hphase]⟩
        | curling file =>
          rw [hphase] at hqload
          exact absurd trivial hqload
        | verified =>
          rw [hphase] at hqload
          exact absurd trivial hqload
        | renamed =>
          rw [hphase] at hqload
          exact absurd trivial hqload
        | _ => trivial
    · exact .inr ⟨text, hverified, hcontent⟩
    · intro q hq
      rw [move_phases]
      split
      · trivial
      · rename_i hne
        refine h.changed q ?_
        simp only [World.move] at hq
        split at hq
        · exact hq
        · rwa [Function.update_of_ne hne] at hq
  · cases hd

theorem inv_step {a : Action} (h : Inv sha256 calls first w) (hG : Apart calls w a)
    (hs : step sha256 updatesDir calls w a = some w') : Inv sha256 calls first w' := by
  cases a with
  | stat p fault =>
    simp only [step] at hs
    split at hs
    · rename_i hp
      split at hs
      · cases hs
        exact inv_stay h hp False.elim False.elim trivial
      · cases hs
        exact inv_stay h hp False.elim False.elim trivial
    · cases hs
  | hashCached p fault =>
    simp only [step] at hs
    split at hs
    · rename_i bytes hp
      split at hs
      · cases hs
      · rename_i actual hactual
        split at hs
        · rename_i bytes' hreuse
          cases hs
          rw [reusableBytes_some hreuse] at hactual
          exact inv_stay h hp False.elim False.elim (sha256OfFile_ok hactual)
        · cases hs
          exact inv_stay h hp False.elim False.elim trivial
    · cases hs
  | removeTemp p fault =>
    simp only [step] at hs
    split at hs
    · rename_i hp
      cases hs
      refine inv_move h (wellFormed_removeTemp h.disk) rfl rfl (.inr fun q _ => hG q)
        (fun _ q _ => hG q) trivial ?_
      rw [hp]
      exact False.elim
    · rename_i hp
      cases hs
      exact inv_stay h hp False.elim False.elim trivial
    · cases hs
  | startCurl p fault =>
    simp only [step] at hs
    split at hs
    · rename_i hp
      cases hs
      exact inv_stay h hp (fun _ => trivial) False.elim trivial
    · rename_i hp
      cases hs
      exact inv_stay h hp False.elim False.elim trivial
    · cases hs
  | openTemp p =>
    simp only [step] at hs
    split at hs
    · rename_i hp
      cases hs
      obtain ⟨hdisk, htarget, hcontent, htemp⟩ := openTemp_apart h.disk
      exact inv_temp h hp trivial False.elim hdisk htarget hcontent htemp
    · cases hs
  | write p chunk =>
    simp only [step] at hs
    split at hs
    · rename_i i off hp
      cases hs
      have htemp : w.disk.temp = some i := by
        have hok := h.phases p
        rw [hp] at hok
        exact hok
      exact inv_temp h hp trivial False.elim ⟨h.disk.temp, h.disk.target, h.disk.apart⟩ rfl
        (TempRename.content_update (h.disk.apart i htemp)) htemp
    · cases hs
  | exitCurl p status =>
    simp only [step] at hs
    split at hs
    · rename_i hp
      cases hs
      exact inv_stay h hp (fun _ => trivial) False.elim trivial
    · rename_i hp
      cases hs
      exact inv_stay h hp (fun _ => trivial) False.elim trivial
    · cases hs
  | hashTemp p fault =>
    simp only [step] at hs
    split at hs
    · rename_i hp
      split at hs
      · cases hs
      · cases hs
        exact inv_stay h hp (fun _ => trivial) False.elim trivial
      · rename_i actual hactual
        obtain ⟨text, htext, hhash⟩ := sha256OfFile_ok hactual
        split at hs
        · rename_i hexpected
          cases hs
          refine inv_stay (inv_note h _) hp (fun _ => trivial) False.elim ?_
          exact ⟨text, by simp [World.note, htext], htext, hhash.trans hexpected⟩
        · cases hs
          exact inv_stay h hp (fun _ => trivial) False.elim trivial
    · cases hs
  | discard p removed =>
    simp only [step] at hs
    split at hs
    · rename_i e hp
      cases hs
      split
      · exact inv_temp h hp trivial False.elim (wellFormed_removeTemp h.disk) rfl rfl trivial
      · exact inv_stay h hp False.elim False.elim trivial
    · cases hs
  | rename p fault =>
    simp only [step] at hs
    split at hs
    · rename_i hp
      obtain ⟨d, hd, rfl⟩ := Option.map_eq_some_iff.mp hs
      exact inv_rename h hp hG hd
    · rename_i hp
      cases hs
      exact inv_stay h hp False.elim False.elim trivial
    · cases hs
  | finish p fault =>
    simp only [step] at hs
    split at hs
    · rename_i hp
      cases hs
      exact inv_stay h hp False.elim (fun _ => trivial) trivial
    · rename_i hp
      obtain ⟨text, -, rfl⟩ := Option.map_eq_some_iff.mp hs
      exact inv_stay h hp False.elim (fun _ => trivial) trivial
    · rename_i hp
      exact absurd hp hG
    · cases hs

/-- A step moves one call, and makes it return only after it has reused the file or renamed its
own. -/
theorem moved_of_step {a : Action} (hs : step sha256 updatesDir calls w a = some w') :
    ∃ q d phase, w'.phases = Function.update w.phases q phase ∧ w'.disk = d ∧
      ∀ download, phase = .returned download →
        d = w.disk ∧ ((∃ bytes, w.phases q = .reusing bytes) ∨ w.phases q = .renamed) := by
  cases a with
  | finish p fault =>
    simp only [step] at hs
    split at hs
    · rename_i hp
      cases hs
      exact ⟨p, _, _, rfl, rfl, fun _ _ => ⟨rfl, .inl ⟨_, hp⟩⟩⟩
    · rename_i hp
      obtain ⟨text, -, rfl⟩ := Option.map_eq_some_iff.mp hs
      exact ⟨p, _, _, rfl, rfl, fun _ _ => ⟨rfl, .inr hp⟩⟩
    · cases hs
      exact ⟨p, _, _, rfl, rfl, nofun⟩
    · cases hs
  | rename p fault =>
    simp only [step] at hs
    split at hs
    · obtain ⟨d, -, rfl⟩ := Option.map_eq_some_iff.mp hs
      exact ⟨p, _, _, rfl, rfl, nofun⟩
    · cases hs
      exact ⟨p, _, _, rfl, rfl, nofun⟩
    · cases hs
  | hashTemp p fault | hashCached p fault =>
    simp only [step] at hs
    repeat' split at hs
    all_goals first
      | cases hs
        done
      | cases hs
        exact ⟨p, _, _, rfl, rfl, nofun⟩
  | stat p fault | removeTemp p fault | startCurl p fault | openTemp p | write p chunk
  | exitCurl p status | discard p removed =>
    simp only [step] at hs
    repeat' split at hs
    all_goals first
      | cases hs
        done
      | cases hs
        exact ⟨p, _, _, rfl, rfl, nofun⟩

/-- What a call relied on before it returned still holds. -/
theorem returnsVerified_of_inv {a : Action} (h : Inv sha256 calls first w) :
    ReturnsVerified sha256 updatesDir calls w a := by
  intro w' p download hs hbefore hafter
  obtain ⟨q, d, phase, hphases, rfl, hreturned⟩ := moved_of_step hs
  rw [hphases, Function.update_apply] at hafter
  split at hafter
  · rename_i hq
    subst hq
    obtain ⟨hd, hphase⟩ := hreturned download hafter
    rw [hd]
    have hok := h.phases p
    rcases hphase with ⟨bytes, hp⟩ | hp
    · rw [hp] at hok
      exact hok
    · rw [hp] at hok
      exact hok
  · exact absurd hafter (hbefore download)

theorem failedUnchanged_of_inv (h : Inv sha256 calls first w) : FailedUnchanged w := by
  intro p e hp
  cases hc : w.changed p with
  | false => rfl
  | true =>
    have hinstalled := h.changed p hc
    rw [hp] at hinstalled
    exact hinstalled.elim

end Proofs

/-- **Downloads keep what they promise.** In every run whose steps keep apart, the destination holds
at every moment its first content or bytes that a call has verified, no call that has failed has
changed it, and a call that returns Ok does so while the destination holds a file of the hash that
the call required. -/
theorem downloads_verified (sha256 : List UInt8 → String) (updatesDir : String)
    {assetName : String} (calls : Nat → DownloadCall assetName) {w w' : World} {as : List Action}
    (h0 : Start w) (h : Exec (step sha256 updatesDir calls) (Apart calls) w as w') :
    (∀ pre u, pre <+: as → run (step sha256 updatesDir calls) w pre = some u →
        NoneUnverified w.content u ∧ FailedUnchanged u) ∧
      Exec (step sha256 updatesDir calls)
        (fun u a => Apart calls u a ∧ ReturnsVerified sha256 updatesDir calls u a) w as w' := by
  have hstep : ∀ s a t, Inv sha256 calls w.content s → Apart calls s a →
      step sha256 updatesDir calls s a = some t → Inv sha256 calls w.content t :=
    fun _ _ _ hI hG hs => inv_step hI hG hs
  constructor
  · intro pre u hpre hu
    have hinv := h.forall_prefix hstep (inv_start h0) pre u hpre hu
    exact ⟨hinv.unverified, failedUnchanged_of_inv hinv⟩
  · exact h.forall_steps hstep (fun _ _ _ hI _ _ => returnsVerified_of_inv hI) (inv_start h0)

/-! ## Two downloads -/

/-- The release is three bytes long, and `abcHash` its SHA-256. -/
def release : List UInt8 := [0x61, 0x62, 0x63]

def abcHash : String := "ba7816bf8f01cfea414140de5dae2223b00361a396177a9cb410ff61f20015ad"

def aHash : String := "ca978112ca1bbdcafac231b39a23dc4da786eff8147c4e72b9807785afee48bb"

/-- SHA-256 of the release and of its first byte. -/
def knownSha256 (text : List UInt8) : String :=
  if text = release then abcHash else if text = [0x61] then aHash else ""

def releaseRequest : UpdateDownloadRequest where
  url := releaseUrl
  version := "1"
  assetName := "LinkPilot.dmg"
  expectedBytes := some 3
  expectedSha256 := some abcHash

/-- A hash in lower case is the hash that is required. -/
theorem normalizeExpectedSha256_lower {hash : String} (hlength : hash.toList.length = 64)
    (hlower : ∀ c ∈ hash.toList,
      Texts.isWhitespace c = false ∧ isAsciiHexdigit c = true ∧ c.toLower = c) :
    normalizeExpectedSha256 (some hash) = .ok (some hash) := by
  have htrim : Texts.trim hash.toList = hash.toList :=
    Texts.trim_eq_self fun c hc => (hlower c hc).1
  have hhex : hash.toList.all isAsciiHexdigit = true :=
    List.all_eq_true.mpr fun c hc => (hlower c hc).2.1
  have hmap : hash.toList.map Char.toLower = hash.toList := by
    conv => rhs; rw [← List.map_id hash.toList]
    exact List.map_congr_left fun c hc => (hlower c hc).2.2
  have hne : hash.toList ≠ [] := by
    intro hnil
    rw [hnil] at hlength
    cases hlength
  simp [normalizeExpectedSha256, htrim, hhex, hmap, hlength, hne]

/-- Every call asks for the release. -/
def releaseCalls (_ : Nat) : DownloadCall "LinkPilot.dmg" where
  request := releaseRequest
  expected := abcHash
  named := by
    simp only [releaseRequest, safeUpdateAssetName, String.reduceToList]
    decide
  hashed := by
    refine normalizeExpectedSha256_lower ?_ (UrlGrammar.forall_of_all ?_) <;>
      simp only [abcHash, String.reduceToList] <;> decide

/-- No file at either path. -/
def untouched : World := ⟨⟨fun _ => [], 0, none, none⟩, fun _ => .idle, [], fun _ => false⟩

theorem untouched_start : Start untouched := ⟨⟨nofun, nofun, nofun⟩, fun _ => rfl, fun _ => rfl⟩

/-- A download up to its verification. -/
def download (p : Nat) : List Action :=
  [.stat p false, .removeTemp p none, .startCurl p none, .openTemp p, .write p [0x61, 0x62],
    .write p [0x63], .exitCurl p none, .hashTemp p none]

/-- The second call finds the file of the first and takes it. -/
def oneAfterTheOther : List Action :=
  download 0 ++ [.rename 0 none, .finish 0 none, .stat 1 false, .hashCached 1 none, .finish 1 none]

theorem downloads_verified_again :
    ∃ w, run (step knownSha256 "/updates" releaseCalls) untouched oneAfterTheOther = some w ∧
      w.content = some release ∧
      w.phases 1 = .returned ⟨"1", "LinkPilot.dmg", "/updates/LinkPilot.dmg", true, 3⟩ ∧
      NoneUnverified none w ∧ FailedUnchanged w := by
  have hexec : ∃ w, Exec (step knownSha256 "/updates" releaseCalls) (Apart releaseCalls) untouched
      oneAfterTheOther w ∧ w.content = some release ∧
      w.phases 1 = .returned ⟨"1", "LinkPilot.dmg", "/updates/LinkPilot.dmg", true, 3⟩ := by
    refine ⟨_, .cons trivial rfl <| .cons (fun q => ?_) rfl <| .cons trivial rfl <|
      .cons trivial rfl <| .cons trivial rfl <| .cons trivial rfl <| .cons trivial rfl <|
      .cons trivial rfl <| .cons (fun _ _ _ => rfl) rfl <| .cons trivial rfl <|
      .cons trivial rfl <| .cons trivial rfl <| .cons trivial rfl <| .nil _, rfl, rfl⟩
    match q with
    | 0 => exact id
    | _ + 1 => exact id
  obtain ⟨w, hexec, hcontent, hphase⟩ := hexec
  refine ⟨w, hexec.run_eq, hcontent, hphase, ?_⟩
  exact (downloads_verified knownSha256 "/updates" releaseCalls untouched_start hexec).1 _ w
    (List.prefix_refl _) hexec.run_eq

/-- The second call starts its download after the first has verified the temp file. -/
def startsBeforeRename : List Action :=
  download 0 ++ [.stat 1 false, .removeTemp 1 none, .startCurl 1 none, .openTemp 1,
    .write 1 [0x61], .rename 0 none]

/-- The first call moves the first byte of the second one's download to the destination, where no
call has verified it, and returns Ok with a file whose hash is not the one that it required. -/
theorem unverified_bytes_installed :
    ∃ w, run (step knownSha256 "/updates" releaseCalls) untouched startsBeforeRename = some w ∧
      w.content = some [0x61] ∧ ¬ NoneUnverified untouched.content w ∧
      ∃ w', step knownSha256 "/updates" releaseCalls w (.finish 0 none) = some w' ∧
        w'.phases 0 = .returned ⟨"1", "LinkPilot.dmg", "/updates/LinkPilot.dmg", false, 1⟩ ∧
        ¬ HoldsExpected knownSha256 releaseCalls w'.disk 0 := by
  refine ⟨_, rfl, rfl, ?_, _, rfl, rfl, ?_⟩
  · rintro (hfirst | ⟨text, hverified, hcontent⟩)
    · cases hfirst
    · cases hcontent
      cases hverified with
      | tail _ h => cases h
  · rintro ⟨text, hcontent, hhash⟩
    cases hcontent
    exact absurd hhash (by decide)

end LinkPilot.Downloads
