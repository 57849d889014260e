import Mathlib.Data.List.Basic

/-!
# The update transaction

Model of `transact`, `await_health` and `swap` of `crates/updater/src/lib.rs`.  Every step that
can fail takes its outcome from a `Script`; a run returns what `transact` returns and the log of
the steps it took.  `swap` exchanges the two bundles atomically or changes nothing.

An error is its chain of contexts, outermost first, as `anyhow` keeps it; `{error:#}` joins the
chain.

Principal results:

* `atomic_iff` — the transaction ends on the new bundle after a receipt of its own child, or on
  the previous bundle, unless the child that has to be replaced cannot be waited for.
* `diskAfter_safe` — in no run is the target absent or the previous bundle lost.
-/

set_option autoImplicit false

namespace LinkPilot.Transact

/-! ## Steps and their outcomes -/

abbrev Error := List String

/-- `format!("{error:#}")`. -/
def render (e : Error) : String := ": ".intercalate e

/-- One of the contexts mentions the path. -/
def Names (e : Error) (path : String) : Prop := ∃ c ∈ e, ∃ pre post, c = pre ++ path ++ post

/-- What `transact` uses of the job. -/
structure Job where
  candidate : String
  version : String
  token : String

/-- `Health`: the receipt that the new app writes. -/
structure Health where
  token : String
  version : String
  pid : Nat
  deriving DecidableEq, Repr

/-- One turn of the loop of `await_health`: whether the child has exited, and the receipt, if
the file is there and parses. -/
structure Poll where
  tryWait : Except Error Bool
  receipt : Option Health

/-- The handle of a started child.  Once `try_wait` has seen the exit, the handle keeps the status.
-/
structure Child where
  pid : Nat
  exited : Bool

/-- The outcome of every step.  `polls` are the turns of the health wait, of which number
`deadline` is the first past the deadline; `wait` is what waiting for a child returns whose exit was
not seen before. -/
structure Script where
  swap : Except Error Unit
  startDaemon : Except Error Unit
  startApp : Except Error Nat
  polls : Nat → Poll
  deadline : Nat
  kill : Except Error Unit
  wait : Except Error Unit
  stopDaemon : Except Error Unit
  swapBack : Except Error Unit
  restartDaemon : Except Error Unit
  restartApp : Except Error Nat

inductive Event where
  | swap (ok : Bool)
  | swapBack (ok : Bool)
  | startDaemon (ok : Bool)
  | stopDaemon (ok : Bool)
  | startApp (health : Bool) (pid : Option Nat)
  | health (ok : Bool)
  | kill (ok : Bool)
  | wait (ok : Bool)
  deriving DecidableEq, Repr

/-! ## Bundles -/

inductive Bundle where
  | old
  | new
  deriving DecidableEq, Repr

/-- What is at the target and at the candidate path. -/
structure Disk where
  target : Option Bundle
  candidate : Option Bundle
  deriving DecidableEq, Repr

def Disk.staged : Disk := ⟨some .old, some .new⟩

def Disk.installed : Disk := ⟨some .new, some .old⟩

/-- `renamex_np(RENAME_SWAP)`. -/
def Disk.exchange (d : Disk) : Disk := ⟨d.candidate, d.target⟩

def Disk.after (d : Disk) : Event → Disk
  | .swap true => d.exchange
  | .swapBack true => d.exchange
  | _ => d

/-- The bundles after a log that starts from the staged job. -/
def diskAfter (log : List Event) : Disk := log.foldl Disk.after .staged

/-- There is a bundle at the target, and the previous one is somewhere. -/
def Disk.Safe (d : Disk) : Prop :=
  d.target ≠ none ∧ (d.target = some .old ∨ d.candidate = some .old)

/-! ## The code -/

/-- The receipt is this job's and names the child. -/
def confirms (job : Job) (pid : Nat) (h : Health) : Bool :=
  h.token == job.token && h.version == job.version && h.pid == pid

/-- `await_health`, from poll `n` on, with `remaining` polls before the deadline; and whether it
has seen the child exit. -/
def awaitHealth (job : Job) (pid : Nat) (polls : Nat → Poll) (n remaining : Nat) :
    Except Error Unit × Bool :=
  match (polls n).tryWait with
  | .error e => (.error e, false)
  | .ok true => (.error ["Updated LinkPilot exited before becoming ready"], true)
  | .ok false =>
    if (polls n).receipt.any (confirms job pid) then (.ok (), false)
    else
      match remaining with
      | 0 => (.error ["Updated LinkPilot did not confirm startup"], false)
      | remaining + 1 => awaitHealth job pid polls (n + 1) remaining

/-- The closure `installed`, the child it leaves in `child`, and its log. -/
def install (job : Job) (s : Script) : Except Error Unit × Option Child × List Event :=
  match s.startDaemon with
  | .error e => (.error e, none, [.startDaemon false])
  | .ok () =>
    match s.startApp with
    | .error e => (.error e, none, [.startDaemon true, .startApp true none])
    | .ok pid =>
      match awaitHealth job pid s.polls 0 s.deadline with
      | (.error e, exited) =>
        (.error e, some ⟨pid, exited⟩,
          [.startDaemon true, .startApp true (some pid), .health false])
      | (.ok (), exited) =>
        (.ok (), some ⟨pid, exited⟩, [.startDaemon true, .startApp true (some pid), .health true])

/-- `child.wait()`. -/
def Script.waitFor (s : Script) (child : Child) : Except Error Unit :=
  if child.exited then .ok () else s.wait

/-- From `stop_daemon()` to the end. -/
def rollback (job : Job) (s : Script) (error : Error) : Except Error Unit × List Event :=
  match s.swapBack with
  | .error e =>
    (.error ((render error ++ "; rollback failed; previous app retained at " ++ job.candidate) ::
        e),
      [.stopDaemon s.stopDaemon.isOk, .swapBack false])
  | .ok () =>
    let log : List Event := [.stopDaemon s.stopDaemon.isOk, .swapBack true,
      .startDaemon s.restartDaemon.isOk, .startApp false s.restartApp.toOption]
    match s.restartDaemon, s.restartApp, s.stopDaemon with
    | .error e, _, _ =>
      (.error ("previous application restored; restarting its daemon failed" :: e), log)
    | .ok _, .error e, _ => (.error ("restarting previous application" :: e), log)
    | .ok _, .ok _, .error e =>
      (.error ("previous version restored, but stopping the failed daemon reported an error" ::
        e), log)
    | .ok _, .ok _, .ok _ => (.error [render error ++ "; previous version restored"], log)

/-- The branch in which the first swap failed. -/
def failedSwap (s : Script) (error : Error) : Except Error Unit × List Event :=
  let log : List Event := [.swap false, .startDaemon s.startDaemon.isOk,
    .startApp false s.restartApp.toOption]
  match s.startDaemon, s.restartApp with
  | .error e, _ => (.error ("restoring daemon after failed swap" :: e), log)
  | .ok _, .error e => (.error ("restarting unchanged application" :: e), log)
  | .ok _, .ok _ => (.error error, log)

/-- `transact`. -/
def transact (job : Job) (s : Script) : Except Error Unit × List Event :=
  match s.swap with
  | .error e => failedSwap s e
  | .ok () =>
    match install job s with
    | (.ok (), _, log) => (.ok (), .swap true :: log)
    | (.error error, none, log) =>
      let r := rollback job s error
      (r.1, .swap true :: log ++ r.2)
    | (.error error, some child, log) =>
      match s.waitFor child with
      -- `child.wait()?` returns before the swap back
      | .error e => (.error e, .swap true :: log ++ [.kill s.kill.isOk, .wait false])
      | .ok () =>
        let r := rollback job s error
        (r.1, .swap true :: log ++ [.kill s.kill.isOk, .wait true] ++ r.2)

/-! ## What the update is for -/

/-- A receipt of this job for this child was read in a poll before the deadline, which found the
child running as all before it did. -/
def ReceiptRead (job : Job) (s : Script) (pid : Nat) : Prop :=
  ∃ n h, n ≤ s.deadline ∧ (∀ m ≤ n, (s.polls m).tryWait = .ok false) ∧
    (s.polls n).receipt = some h ∧ h.token = job.token ∧ h.version = job.version ∧ h.pid = pid

structure Atomic (job : Job) (s : Script) : Prop where
  ok : (transact job s).1 = .ok () →
    diskAfter (transact job s).2 = .installed ∧
      ∃ pid, s.startApp = .ok pid ∧ ReceiptRead job s pid
  error : ∀ e, (transact job s).1 = .error e →
    (diskAfter (transact job s).2).target = some .old ∨
      (.swapBack false ∈ (transact job s).2 ∧ Names e job.candidate ∧
        (diskAfter (transact job s).2).candidate = some .old)
  safe : ∀ log, log <+: (transact job s).2 → (diskAfter log).Safe

/-- A poll that finds the child running and no receipt of it. -/
def Poll.Unready (job : Job) (pid : Nat) (p : Poll) : Prop :=
  p.tryWait = .ok false ∧ p.receipt.any (confirms job pid) = false

/-- The health wait ends with neither a receipt nor an exit: a `try_wait` fails, or the deadline
passes. -/
def Script.HealthLost (job : Job) (pid : Nat) (s : Script) : Prop :=
  (∃ n ≤ s.deadline, (∃ e, (s.polls n).tryWait = .error e) ∧
    ∀ m < n, (s.polls m).Unready job pid) ∨
  ∀ m ≤ s.deadline, (s.polls m).Unready job pid

/-- The child of the installed bundle was started, it was neither found ready nor seen to exit, and
the wait for it fails. -/
def Script.ChildNotReaped (job : Job) (s : Script) : Prop :=
  s.swap = .ok () ∧ s.startDaemon = .ok () ∧
    (∃ pid, s.startApp = .ok pid ∧ s.HealthLost job pid) ∧ ∃ e, s.wait = .error e

section Proofs

variable {job : Job} {s : Script}

theorem after_cases {d : Disk} (h : d = .staged ∨ d = .installed) (e : Event) :
    d.after e = .staged ∨ d.after e = .installed := by
  rcases h with rfl | rfl
  · unfold Disk.after
    split
    · exact .inr rfl
    · exact .inr rfl
    · exact .inl rfl
  · unfold Disk.after
    split
    · exact .inl rfl
    · exact .inl rfl
    · exact .inr rfl

/-- After any log the bundles are as staged or exchanged. -/
theorem diskAfter_cases (log : List Event) :
    diskAfter log = .staged ∨ diskAfter log = .installed := by
  unfold diskAfter
  suffices ∀ d : Disk, d = .staged ∨ d = .installed →
      log.foldl Disk.after d = .staged ∨ log.foldl Disk.after d = .installed from
    this _ (.inl rfl)
  induction log with
  | nil => exact fun d h => h
  | cons e log ih =>
    intro d h
    rw [List.foldl_cons]
    exact ih _ (after_cases h e)

/-- **The target is never absent and the previous bundle never lost.** -/
theorem diskAfter_safe (log : List Event) : (diskAfter log).Safe := by
  rcases diskAfter_cases log with h | h
  · rw [h]
    exact ⟨by decide, .inl rfl⟩
  · rw [h]
    exact ⟨by decide, .inr rfl⟩

theorem diskAfter_append (log log' : List Event) :
    diskAfter (log ++ log') = log'.foldl Disk.after (diskAfter log) := by
  unfold diskAfter
  rw [List.foldl_append]

theorem receiptRead_of_poll {pid n : Nat} (hle : n ≤ s.deadline)
    (hrun : ∀ m < n + 1, (s.polls m).tryWait = .ok false)
    (hc : (s.polls n).receipt.any (confirms job pid) = true) : ReceiptRead job s pid := by
  cases hr : (s.polls n).receipt with
  | none =>
    rw [hr] at hc
    cases hc
  | some r =>
    rw [hr] at hc
    simp only [Option.any_some, confirms, Bool.and_eq_true, beq_iff_eq] at hc
    exact ⟨n, r, hle, fun m hm => hrun m (by omega), hr, hc.1.1, hc.1.2, hc.2⟩

/-- A health wait that succeeds has read a receipt of the running child. -/
theorem awaitHealth_ok {pid : Nat} {n remaining : Nat} (hle : n + remaining ≤ s.deadline)
    (hbefore : ∀ m < n, (s.polls m).tryWait = .ok false)
    (h : (awaitHealth job pid s.polls n remaining).1 = .ok ()) : ReceiptRead job s pid := by
  induction remaining generalizing n with
  | zero =>
    unfold awaitHealth at h
    split at h
    · simp at h
    · simp at h
    · rename_i hrun
      have hall : ∀ m < n + 1, (s.polls m).tryWait = .ok false :=
        Nat.forall_lt_succ_right.mpr ⟨hbefore, hrun⟩
      split at h
      · rename_i hc
        exact receiptRead_of_poll (by omega) hall hc
      · simp at h
  | succ remaining ih =>
    unfold awaitHealth at h
    split at h
    · simp at h
    · simp at h
    · rename_i hrun
      have hall : ∀ m < n + 1, (s.polls m).tryWait = .ok false :=
        Nat.forall_lt_succ_right.mpr ⟨hbefore, hrun⟩
      split at h
      · rename_i hc
        exact receiptRead_of_poll (by omega) hall hc
      · exact ih (by omega) hall h

/-- A wait whose next poll sees an exit or a receipt is not lost. -/
theorem not_lost_of_poll {polls : Nat → Poll} {pid n remaining : Nat} {exited : Bool}
    (hrun : (polls n).tryWait = .ok exited) (hnot : ¬ (polls n).Unready job pid) :
    ¬ ((∃ k ≤ remaining, (∃ e, (polls (n + k)).tryWait = .error e) ∧
        ∀ m < k, (polls (n + m)).Unready job pid) ∨
      ∀ m ≤ remaining, (polls (n + m)).Unready job pid) := by
  rintro (⟨k, -, ⟨e, he⟩, hbefore⟩ | hall)
  · cases k with
    | zero => cases hrun.symm.trans he
    | succ k => exact hnot (hbefore 0 (Nat.succ_pos k))
  · exact hnot (hall 0 (Nat.zero_le remaining))

/-- When a health wait from poll `n` on ends with neither a receipt nor an exit. -/
theorem awaitHealth_lost_iff {polls : Nat → Poll} {pid n remaining : Nat} :
    (∃ e, awaitHealth job pid polls n remaining = (.error e, false)) ↔
      (∃ k ≤ remaining, (∃ e, (polls (n + k)).tryWait = .error e) ∧
        ∀ m < k, (polls (n + m)).Unready job pid) ∨
      ∀ m ≤ remaining, (polls (n + m)).Unready job pid := by
  fun_induction awaitHealth job pid polls n remaining with
  | case1 remaining n e htry =>
    exact ⟨fun _ => .inl ⟨0, Nat.zero_le _, ⟨e, htry⟩, by omega⟩, fun _ => ⟨e, rfl⟩⟩
  | case2 remaining n htry =>
    exact iff_of_false (by simp) (not_lost_of_poll htry (by simp [Poll.Unready, htry]))
  | case3 remaining n htry hc =>
    exact iff_of_false (by simp) (not_lost_of_poll htry (by simp [Poll.Unready, hc]))
  | case4 n htry hc =>
    refine ⟨fun _ => .inr fun m hm => ?_, fun _ => ⟨_, rfl⟩⟩
    obtain rfl : m = 0 := by omega
    exact ⟨htry, by simpa using hc⟩
  | case5 n htry hc remaining ih =>
    have hunready : (polls n).Unready job pid := ⟨htry, by simpa using hc⟩
    have hshift : ∀ m, n + (m + 1) = n + 1 + m := fun m => by omega
    rw [ih]
    refine or_congr ⟨?_, ?_⟩ ⟨?_, ?_⟩
    · rintro ⟨k, hk, he, hbefore⟩
      refine ⟨k + 1, by omega, by rwa [hshift], fun m hm => ?_⟩
      cases m with
      | zero => exact hunready
      | succ m => rw [hshift]; exact hbefore m (by omega)
    · rintro ⟨k, hk, ⟨e, he⟩, hbefore⟩
      cases k with
      | zero => cases htry.symm.trans he
      | succ k =>
        refine ⟨k, by omega, ⟨e, by rwa [← hshift]⟩, fun m hm => ?_⟩
        rw [← hshift]
        exact hbefore (m + 1) (by omega)
    · intro hall m hm
      cases m with
      | zero => exact hunready
      | succ m => rw [hshift]; exact hall m (by omega)
    · intro hall m hm
      rw [← hshift]
      exact hall (m + 1) (by omega)

theorem healthLost_iff {pid : Nat} : s.HealthLost job pid ↔
    ∃ e, awaitHealth job pid s.polls 0 s.deadline = (.error e, false) := by
  simp only [awaitHealth_lost_iff, Script.HealthLost, Nat.zero_add]

/-- Installing swaps nothing. -/
theorem install_log (job : Job) (s : Script) (d : Disk) :
    (install job s).2.2.foldl Disk.after d = d := by
  unfold install
  split
  · rfl
  · split
    · rfl
    · split <;> rfl

theorem install_ok {child : Option Child} {log : List Event}
    (h : install job s = (.ok (), child, log)) :
    ∃ pid, s.startApp = .ok pid ∧ ReceiptRead job s pid := by
  unfold install at h
  split at h
  · cases h
  · split at h
    · cases h
    · rename_i pid hpid
      split at h
      · cases h
      · rename_i exited hhealth
        refine ⟨pid, hpid, @awaitHealth_ok _ _ _ 0 s.deadline (by omega) (fun m hm => by omega) ?_⟩
        rw [hhealth]

/-- A failed installation leaves a child that was not seen to exit exactly when its health wait was
lost. -/
theorem install_running_iff :
    (∃ e pid log, install job s = (.error e, some ⟨pid, false⟩, log)) ↔
      s.startDaemon = .ok () ∧ ∃ pid, s.startApp = .ok pid ∧ s.HealthLost job pid := by
  simp only [healthLost_iff]
  unfold install
  constructor
  · rintro ⟨e, pid, log, h⟩
    split at h
    · cases h
    · rename_i hd
      split at h
      · cases h
      · rename_i hpid
        split at h
        · rename_i he
          cases h
          exact ⟨hd, pid, hpid, e, he⟩
        · cases h
  · rintro ⟨hd, pid, hpid, e, he⟩
    rw [hd, hpid]
    simp only [he]
    exact ⟨e, pid, _, rfl⟩

/-- A rollback always returns an error; it brings the previous bundle back, or else the swap back
failed and the error says where the bundle is. -/
theorem rollback_spec (job : Job) (s : Script) (error : Error) :
    ∃ e, (rollback job s error).1 = .error e ∧
      (((rollback job s error).2.foldl Disk.after .installed).target = some .old ∨
        (.swapBack false ∈ (rollback job s error).2 ∧ Names e job.candidate ∧
          ((rollback job s error).2.foldl Disk.after .installed).candidate = some .old)) := by
  unfold rollback
  split
  · rename_i e he
    refine ⟨_, rfl, .inr ⟨by simp, ?_, rfl⟩⟩
    refine ⟨_, List.mem_cons_self,
      render error ++ "; rollback failed; previous app retained at ", "", ?_⟩
    rw [String.append_empty]
  · split
    · exact ⟨_, rfl, .inl rfl⟩
    · exact ⟨_, rfl, .inl rfl⟩
    · exact ⟨_, rfl, .inl rfl⟩
    · exact ⟨_, rfl, .inl rfl⟩

theorem failedSwap_spec (error : Error) :
    ∃ e, (failedSwap s error).1 = .error e ∧ diskAfter (failedSwap s error).2 = .staged := by
  unfold failedSwap
  split
  · exact ⟨_, rfl, rfl⟩
  · exact ⟨_, rfl, rfl⟩
  · exact ⟨_, rfl, rfl⟩

/-- A log that goes through the installed bundle and then through `tail`. -/
theorem diskAfter_installed {log mid : List Event} (tail : List Event)
    (hlog : ∀ d : Disk, log.foldl Disk.after d = d)
    (hmid : ∀ d : Disk, mid.foldl Disk.after d = d) :
    diskAfter (.swap true :: log ++ mid ++ tail) = tail.foldl Disk.after .installed := by
  rw [diskAfter_append, diskAfter_append]
  have hstart : diskAfter (.swap true :: log) = .installed := by
    unfold diskAfter
    rw [List.foldl_cons, hlog]
    rfl
  rw [hstart, hmid]

/-- The transaction is atomic when its child was waited for, or did not have to be. -/
theorem atomic_of_reaped (h : ¬ s.ChildNotReaped job) : Atomic job s := by
  -- a run that ends in a rollback
  have hroll : ∀ (error : Error) (log mid : List Event),
      transact job s = ((rollback job s error).1, .swap true :: log ++ mid ++
        (rollback job s error).2) →
      (∀ d : Disk, log.foldl Disk.after d = d) → (∀ d : Disk, mid.foldl Disk.after d = d) →
      Atomic job s := by
    intro error log mid hrun hlog hmid
    obtain ⟨e', he', hspec⟩ := rollback_spec job s error
    refine ⟨?_, ?_, fun log _ => diskAfter_safe log⟩
    · intro hok
      rw [hrun, he'] at hok
      cases hok
    · intro e he
      rw [hrun, he'] at he
      cases he
      rw [hrun]
      simp only [diskAfter_installed _ hlog hmid]
      rcases hspec with hold | ⟨hmem, hnames, hold⟩
      · exact .inl hold
      · exact .inr ⟨List.mem_append_right _ hmem, hnames, hold⟩
  have hlog := fun d => install_log job s d
  cases hswap : s.swap with
  | error e =>
    obtain ⟨e', he', hdisk⟩ := failedSwap_spec (s := s) e
    have hrun : transact job s = failedSwap s e := by simp only [transact, hswap]
    refine ⟨?_, ?_, fun log _ => diskAfter_safe log⟩
    · intro hok
      rw [hrun, he'] at hok
      cases hok
    · intro _ _
      rw [hrun, hdisk]
      exact .inl rfl
  | ok u =>
    rcases hinst : install job s with ⟨result, child, log⟩
    rw [hinst] at hlog
    cases result with
    | ok u' =>
      have hrun : transact job s = (.ok (), .swap true :: log) := by
        simp only [transact, hswap, hinst]
      refine ⟨?_, ?_, fun log _ => diskAfter_safe log⟩
      · intro _
        rw [hrun]
        refine ⟨?_, install_ok hinst⟩
        have hnil : ∀ d : Disk, [].foldl Disk.after d = d := fun _ => rfl
        have := diskAfter_installed [] hlog hnil
        simpa using this
      · intro e he
        rw [hrun] at he
        cases he
    | error error =>
      cases child with
      | none =>
        refine hroll error log [] ?_ hlog fun _ => rfl
        simp only [transact, hswap, hinst, List.append_nil]
      | some child =>
        cases hwait : s.waitFor child with
        | ok u'' =>
          refine hroll error log [.kill s.kill.isOk, .wait true] ?_ hlog fun _ => rfl
          simp only [transact, hswap, hinst, hwait]
        | error e =>
          obtain ⟨pid, exited⟩ := child
          cases exited with
          | true => cases hwait
          | false =>
            obtain ⟨hd, hchild⟩ := install_running_iff.mp ⟨error, pid, log, hinst⟩
            exact absurd ⟨hswap, hd, hchild, e, hwait⟩ h

/-- A child that cannot be waited for leaves the new bundle in place under an error. -/
theorem not_atomic_of_notReaped (h : s.ChildNotReaped job) : ¬ Atomic job s := by
  obtain ⟨hswap, hd, hchild, e, hwait⟩ := h
  obtain ⟨error, pid, log, hinst⟩ := install_running_iff.mpr ⟨hd, hchild⟩
  have hlog := fun d => install_log job s d
  rw [hinst] at hlog
  have hrun : transact job s =
      (.error e, .swap true :: log ++ [.kill s.kill.isOk, .wait false]) := by
    simp only [transact, hswap, hinst, Script.waitFor, hwait, Bool.false_eq_true, if_false]
  have hdisk : diskAfter (transact job s).2 = .installed := by
    rw [hrun]
    have hmid : ∀ d : Disk, [.kill s.kill.isOk, .wait false].foldl Disk.after d = d :=
      fun _ => rfl
    have := diskAfter_installed [] hlog hmid
    simpa using this
  have hnoback : .swapBack false ∉ (transact job s).2 := by
    have hlogs : log = [.startDaemon true, .startApp true (some pid), .health false] := by
      unfold install at hinst
      split at hinst
      · cases hinst
      · split at hinst
        · cases hinst
        · split at hinst
          · cases hinst
            rfl
          · cases hinst
    rw [hrun, hlogs]
    simp
  intro hatomic
  rcases hatomic.error e (by rw [hrun]) with hold | ⟨hmem, -, -⟩
  · rw [hdisk] at hold
    cases hold
  · exact hnoback hmem

/-- **Update transaction.** It is atomic exactly when no started child is left that was neither
found ready nor seen to exit and that cannot be waited for. -/
theorem atomic_iff (job : Job) (s : Script) : Atomic job s ↔ ¬ s.ChildNotReaped job :=
  ⟨fun h hc => not_atomic_of_notReaped hc h, atomic_of_reaped⟩

/-- The new app has been reaped by somebody else when its exit is looked for. -/
def reapedElsewhere : Script where
  swap := .ok ()
  startDaemon := .ok ()
  startApp := .ok 501
  polls _ := ⟨.error ["No child processes (os error 10)"], none⟩
  deadline := 300
  kill := .ok ()
  wait := .error ["No child processes (os error 10)"]
  stopDaemon := .ok ()
  swapBack := .ok ()
  restartDaemon := .ok ()
  restartApp := .ok 502

/-- The transaction returns an error that names no path, the target holds the new bundle, and no
swap back was tried. -/
theorem unreaped_child_keeps_new_bundle :
    let job : Job := ⟨"/Applications/.linkpilot-update-x/candidate.app", "0.5.12", "t"⟩
    transact job reapedElsewhere =
        (.error ["No child processes (os error 10)"],
          [.swap true, .startDaemon true, .startApp true (some 501), .health false, .kill true,
            .wait false]) ∧
      diskAfter (transact job reapedElsewhere).2 = .installed ∧ ¬ Atomic job reapedElsewhere := by
  refine ⟨rfl, rfl, fun h => ?_⟩
  rcases h.error _ rfl with hold | ⟨hmem, -, -⟩
  · cases hold
  · revert hmem
    decide

end Proofs

end LinkPilot.Transact
