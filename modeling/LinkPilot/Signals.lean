import LinkPilot.Lib.Texts

/-!
# Signals to the daemon

Model of `read_pid_file` of `crates/core/src/daemon.rs`, and of `terminate_daemon` and the commands
`lpt daemon stop`, `restart` and `uninstall` of `crates/cli/src/main.rs`.  A command reads the pid
file into a `u32`, casts it to `i32` and hands it to `kill(2)`, which takes zero and negative
numbers for process groups.

Principal results:

* `signals_safely_iff` — a command signals at most the live daemon that wrote the file exactly
  when it does not get as far as the kill, or the number it read names that daemon or nothing.
* `stop_signals_running_daemon` — a file that a running daemon wrote names it.
* `stop_signals_others` — a file that holds `0`, `4294967295` or the pid of a process that came
  after the daemon.
-/

set_option autoImplicit false

namespace LinkPilot.Signals

open Texts

/-- `i32::MAX`. -/
def i32Max : Nat := 2147483647

/-- `u32::MAX`. -/
def u32Max : Nat := 4294967295

/-! ## The pid file -/

/-- One more decimal digit, unless the number overflows. -/
def pushDigit (n : Nat) (c : Char) : Option Nat :=
  if c.isDigit then
    let m := n * 10 + (c.toNat - '0'.toNat)
    if m ≤ u32Max then some m else none
  else none

/-- `str::parse::<u32>`: an optional `+`, then at least one digit. -/
def parseU32 : List Char → Option Nat
  | [] => none
  | ['+'] => none
  | '+' :: cs => cs.foldlM pushDigit 0
  | cs => cs.foldlM pushDigit 0

/-- What is at the path of the pid file. -/
inductive PidFile where
  | missing
  | unreadable (error : String)
  | text (s : String)

/-- `read_pid_file`. -/
def readPidFile : PidFile → Except String (Option Nat)
  | .missing => .ok none
  | .unreadable error => .error error
  | .text s => .ok (parseU32 (trim s.toList))

/-- What `write_pid_file` leaves. -/
def writePidFile (pid : Nat) : PidFile := .text (toString pid)

section PidFile

theorem pushDigit_le {n m : Nat} {c : Char} (h : pushDigit n c = some m) : m ≤ u32Max := by
  unfold pushDigit at h
  split at h
  · simp only at h
    split at h
    · cases h
      assumption
    · cases h
  · cases h

theorem foldlM_pushDigit_le {cs : List Char} {n m : Nat} (hn : n ≤ u32Max)
    (h : cs.foldlM pushDigit n = some m) : m ≤ u32Max := by
  induction cs generalizing n with
  | nil =>
    cases h
    exact hn
  | cons c cs ih =>
    rw [List.foldlM_cons] at h
    obtain ⟨k, hk, h⟩ := Option.bind_eq_some_iff.mp h
    exact ih (pushDigit_le hk) h

/-- A number that is read is a `u32`. -/
theorem parseU32_le {cs : List Char} {n : Nat} (h : parseU32 cs = some n) : n ≤ u32Max := by
  unfold parseU32 at h
  split at h
  · cases h
  · cases h
  · exact foldlM_pushDigit_le (Nat.zero_le _) h
  · exact foldlM_pushDigit_le (Nat.zero_le _) h

theorem readPidFile_le {file : PidFile} {n : Nat} (h : readPidFile file = .ok (some n)) :
    n ≤ u32Max := by
  unfold readPidFile at h
  split at h
  · cases h
  · cases h
  · exact parseU32_le (Except.ok.inj h)

theorem pushDigit_digitChar {n d : Nat} (hd : d < 10) :
    pushDigit n d.digitChar = if n * 10 + d ≤ u32Max then some (n * 10 + d) else none := by
  have hdigit : d.digitChar.isDigit = true := by simp [hd]
  have hsub : d.digitChar.toNat - '0'.toNat = d := Nat.toNat_digitChar_sub_48_of_lt_ten hd
  simp only [pushDigit, hdigit, ↓reduceIte, hsub]

theorem foldlM_toDigits (n : Nat) :
    (Nat.toDigits 10 n).foldlM pushDigit 0 = if n ≤ u32Max then some n else none := by
  induction n using Nat.strongRecOn with
  | _ n ih =>
    by_cases hn : n < 10
    · rw [Nat.toDigits_of_lt_base hn]
      have hpush := @pushDigit_digitChar 0 n hn
      simpa using hpush
    · have hdiv : n / 10 < n := by omega
      rw [Nat.toDigits_of_base_le (by decide) (by omega), List.foldlM_append, ih (n / 10) hdiv]
      by_cases hle : n / 10 ≤ u32Max
      · have hpush := @pushDigit_digitChar (n / 10) (n % 10) (Nat.mod_lt n (by decide))
        have hn : n / 10 * 10 + n % 10 = n := by omega
        rw [hn] at hpush
        rw [if_pos hle]
        simpa using hpush
      · rw [if_neg hle, if_neg (by omega)]
        rfl

/-- Decimal digits are read as their number, unless it is too large. -/
theorem parseU32_toDigits (n : Nat) :
    parseU32 (Nat.toDigits 10 n) = if n ≤ u32Max then some n else none := by
  have hdigits : ∀ c ∈ Nat.toDigits 10 n, c.isDigit = true := fun c hc =>
    Nat.isDigit_of_mem_toDigits (by decide) (by decide) hc
  unfold parseU32
  split
  · rename_i hnil
    exact absurd hnil Nat.toDigits_ne_nil
  · rename_i hplus
    rw [hplus] at hdigits
    exact absurd (hdigits '+' List.mem_cons_self) (by decide)
  · rename_i cs _ hplus
    rw [hplus] at hdigits
    exact absurd (hdigits '+' List.mem_cons_self) (by decide)
  · exact foldlM_toDigits n

/-- A pid file that a daemon wrote reads back as its pid. -/
theorem readPidFile_write {pid : Nat} (hle : pid ≤ u32Max) :
    readPidFile (writePidFile pid) = .ok (some pid) := by
  have hdigits : ∀ c ∈ Nat.toDigits 10 pid, c.isDigit = true := fun c hc =>
    Nat.isDigit_of_mem_toDigits (by decide) (by decide) hc
  show Except.ok (parseU32 (trim pid.repr.toList)) = _
  rw [Nat.toList_repr, trim_of_digits hdigits, parseU32_toDigits, if_pos hle]

end PidFile

/-! ## Processes -/

structure Proc where
  group : Nat
  permitted : Bool

/-- The processes by pid, among them `lpt` itself; `permitted` are those that it may signal. -/
structure ProcessTable where
  procs : Nat → Option Proc
  self : Nat
  selfProc : Proc
  self_mem : procs self = some selfProc
  self_permitted : selfProc.permitted = true
  pid_range : ∀ p proc, procs p = some proc → 1 ≤ p ∧ p ≤ i32Max

/-- `kill(2)` with this number signals the process: a positive number is a pid, zero the caller's
own group, `-1` everything but the caller, and any other negative number a group. -/
def ProcessTable.Reaches (t : ProcessTable) (n : Int) (p : Nat) : Prop :=
  ∃ proc, t.procs p = some proc ∧ proc.permitted = true ∧
    if 0 < n then (p : Int) = n
    else if n = 0 then proc.group = t.selfProc.group
    else if n = -1 then p ≠ t.self
    else (proc.group : Int) = -n

def ProcessTable.Signalable (t : ProcessTable) (p : Nat) : Prop :=
  ∃ proc, t.procs p = some proc ∧ proc.permitted = true

/-- `pid as i32`. -/
def asI32 (pid : Nat) : Int := if pid ≤ i32Max then (pid : Int) else (pid : Int) - 4294967296

/-! ## The commands -/

inductive Command where
  | stop
  | restart
  | uninstall
  deriving DecidableEq, Repr

inductive Errno where
  | esrch
  | other (text : String)

/-- What a command finds: the snapshot, and what its calls return. -/
structure Env where
  running : Bool
  pidFile : PidFile
  agentLoaded : Bool
  pidFilePath : String
  sigterm : Option Errno
  socketReleased : Bool
  unload : Except String Unit
  start : Except String String

inductive Effect where
  | kill (n : Int)
  | unload
  | clearPidFile
  | start
  deriving DecidableEq

/-- What a command prints or returns, and what it did. -/
structure Run where
  result : Except String String
  effects : List Effect

/-- `snap.pid`. -/
def Env.pid (env : Env) : Option Nat := (readPidFile env.pidFile).toOption.join

/-- `terminate_daemon`. -/
def terminateDaemon (env : Env) (pid : Nat) : Except String Unit × List Effect :=
  match env.sigterm with
  | none => (.ok (), [.kill (asI32 pid)])
  | some .esrch => (.ok (), [.kill (asI32 pid)])
  | some (.other text) =>
    (.error ("SIGTERM to pid " ++ toString pid ++ " failed: " ++ text), [.kill (asI32 pid)])

/-- `run_daemon_stop`. -/
def runDaemonStop (env : Env) : Run :=
  if env.agentLoaded then
    ⟨.error ("daemon is managed by launchd — run `lpt daemon uninstall` first " ++
      "(otherwise launchd would re-spawn it immediately)"), []⟩
  else
    match env.pid with
    | none =>
      if env.running then
        ⟨.error ("daemon socket responds but no PID file at " ++ env.pidFilePath ++
          " — can't safely SIGTERM. Find the process manually with " ++
          "`pgrep -fl linkpilot-daemon` and `kill` it."), []⟩
      else ⟨.ok "daemon not running.", [.clearPidFile]⟩
    | some pid =>
      match terminateDaemon env pid with
      | (.error e, effects) => ⟨.error e, effects⟩
      | (.ok (), effects) =>
        if env.socketReleased then
          ⟨.ok ("daemon stopped (was pid " ++ toString pid ++ ")"), effects ++ [.clearPidFile]⟩
        else ⟨.error "SIGTERM sent but daemon didn't release the socket", effects⟩

/-- `run_daemon_restart`. -/
def runDaemonRestart (env : Env) : Run :=
  match runDaemonStop env with
  | ⟨.error e, effects⟩ => ⟨.error e, effects⟩
  | ⟨.ok _, effects⟩ => ⟨env.start, effects ++ [.start]⟩

/-- `run_daemon_uninstall`. -/
def runDaemonUninstall (env : Env) : Run :=
  match env.unload with
  | .error e => ⟨.error ("uninstall LaunchAgent: " ++ e), [.unload]⟩
  | .ok () =>
    let killed : List Effect :=
      match env.pid with
      | some pid => (terminateDaemon env pid).2
      | none => []
    ⟨.ok "daemon LaunchAgent uninstalled", .unload :: killed ++ [.clearPidFile]⟩

def run (env : Env) : Command → Run
  | .stop => runDaemonStop env
  | .restart => runDaemonRestart env
  | .uninstall => runDaemonUninstall env

/-! ## Whom a command signals -/

/-- The branch in which the command goes on to the kill. -/
def Command.GoesOn (env : Env) : Command → Prop
  | .stop => env.agentLoaded = false
  | .restart => env.agentLoaded = false
  | .uninstall => env.unload = .ok ()

/-- The number names the daemon, or nothing that `lpt` may signal. -/
structure NamesDaemon (t : ProcessTable) (daemon : Option Nat) (pid : Nat) : Prop where
  positive : pid ≠ 0
  process : pid ≤ i32Max → t.Signalable pid → daemon = some pid
  everyone : pid = u32Max → ∀ p, t.Signalable p → p = t.self
  group : i32Max < pid → pid < u32Max → ∀ p proc, t.procs p = some proc → proc.permitted = true →
    proc.group + pid ≠ 4294967296

/-- Whatever the command signals is one process, by its own positive pid, and the daemon. -/
structure SignalsSafely (t : ProcessTable) (daemon : Option Nat) (effects : List Effect) :
    Prop where
  single : ∀ n m p q, .kill n ∈ effects → .kill m ∈ effects → t.Reaches n p → t.Reaches m q → p = q
  process : ∀ n p, .kill n ∈ effects → t.Reaches n p → n = (p : Int) ∧ 0 < p ∧ p ≤ i32Max
  daemon : ∀ n p, .kill n ∈ effects → t.Reaches n p → daemon = some p

section Proofs

variable {t : ProcessTable} {daemon : Option Nat} {env : Env} {cmd : Command}

theorem Env.pid_le {pid : Nat} (h : env.pid = some pid) : pid ≤ u32Max := by
  unfold Env.pid at h
  cases hread : readPidFile env.pidFile with
  | error e =>
    rw [hread] at h
    cases h
  | ok r =>
    rw [hread] at h
    have hr : r = some pid := h
    exact readPidFile_le (hr ▸ hread)

theorem terminateDaemon_effects (env : Env) (pid : Nat) :
    (terminateDaemon env pid).2 = [.kill (asI32 pid)] := by
  unfold terminateDaemon
  split <;> rfl

theorem kill_mem_stop {n : Int} :
    .kill n ∈ (runDaemonStop env).effects ↔
      env.agentLoaded = false ∧ ∃ pid, env.pid = some pid ∧ n = asI32 pid := by
  unfold runDaemonStop
  cases env.agentLoaded with
  | true => simp
  | false =>
    cases env.pid with
    | none =>
      simp only [Bool.false_eq_true, ↓reduceIte]
      split <;> simp
    | some pid =>
      have heffects := terminateDaemon_effects env pid
      simp only [Bool.false_eq_true, ↓reduceIte]
      split
      · rename_i e effects hrun
        rw [hrun] at heffects
        subst heffects
        simp
      · rename_i effects hrun
        rw [hrun] at heffects
        subst heffects
        split <;> simp

theorem kill_mem_restart {n : Int} :
    .kill n ∈ (runDaemonRestart env).effects ↔ .kill n ∈ (runDaemonStop env).effects := by
  unfold runDaemonRestart
  split
  · rename_i hstop
    rw [hstop]
  · rename_i hstop
    rw [hstop]
    simp

theorem kill_mem_uninstall {n : Int} :
    .kill n ∈ (runDaemonUninstall env).effects ↔
      env.unload = .ok () ∧ ∃ pid, env.pid = some pid ∧ n = asI32 pid := by
  unfold runDaemonUninstall
  cases env.unload with
  | error e => simp
  | ok u =>
    cases env.pid with
    | none => simp
    | some pid => simp [terminateDaemon_effects]

/-- The only kill of a command is of the number in the pid file. -/
theorem kill_mem {n : Int} :
    .kill n ∈ (run env cmd).effects ↔
      cmd.GoesOn env ∧ ∃ pid, env.pid = some pid ∧ n = asI32 pid := by
  cases cmd with
  | stop => exact kill_mem_stop
  | restart => exact kill_mem_restart.trans kill_mem_stop
  | uninstall => exact kill_mem_uninstall

theorem asI32_small {pid : Nat} (h : pid ≤ i32Max) : asI32 pid = (pid : Int) := if_pos h

theorem asI32_large {pid : Nat} (h : ¬ pid ≤ i32Max) : asI32 pid = (pid : Int) - 4294967296 :=
  if_neg h

/-- What `kill` makes of the number after the cast. -/
theorem reaches_iff {pid p : Nat} (hle : pid ≤ u32Max) :
    t.Reaches (asI32 pid) p ↔ ∃ proc, t.procs p = some proc ∧ proc.permitted = true ∧
      ((pid ≠ 0 ∧ pid ≤ i32Max ∧ p = pid) ∨ (pid = 0 ∧ proc.group = t.selfProc.group) ∨
        (pid = u32Max ∧ p ≠ t.self) ∨
        (i32Max < pid ∧ pid < u32Max ∧ proc.group + pid = 4294967296)) := by
  unfold ProcessTable.Reaches
  refine exists_congr fun proc => and_congr_right fun _ => and_congr_right fun _ => ?_
  by_cases hsmall : pid ≤ i32Max
  · rw [asI32_small hsmall]
    simp only [i32Max, u32Max] at hsmall ⊢
    split
    · omega
    · rw [if_pos (by omega)]
      omega
  · rw [asI32_large hsmall]
    simp only [i32Max, u32Max] at hle hsmall ⊢
    rw [if_neg (by omega), if_neg (by omega)]
    split <;> omega

theorem namesDaemon_of_safely {pid : Nat} (hpid : env.pid = some pid) (hgo : cmd.GoesOn env)
    (h : SignalsSafely t daemon (run env cmd).effects) : NamesDaemon t daemon pid := by
  have hle : pid ≤ u32Max := Env.pid_le hpid
  have hkill : .kill (asI32 pid) ∈ (run env cmd).effects := kill_mem.mpr ⟨hgo, pid, hpid, rfl⟩
  -- the number itself cannot be zero or negative where it reaches something
  have hpos : ∀ p, t.Reaches (asI32 pid) p → pid ≠ 0 ∧ pid ≤ i32Max := by
    intro p hp
    obtain ⟨heq, hp0, hpmax⟩ := h.process _ p hkill hp
    by_cases hsmall : pid ≤ i32Max
    · rw [asI32_small hsmall] at heq
      omega
    · rw [asI32_large hsmall] at heq
      simp only [u32Max] at hle
      omega
  refine ⟨?_, ?_, ?_, ?_⟩
  · rintro rfl
    have hself : t.Reaches (asI32 0) t.self :=
      (reaches_iff hle).mpr ⟨t.selfProc, t.self_mem, t.self_permitted, .inr (.inl ⟨rfl, rfl⟩)⟩
    exact (hpos _ hself).1 rfl
  · rintro hsmall ⟨proc, hproc, hperm⟩
    have hp0 : pid ≠ 0 := by
      rintro rfl
      have := (t.pid_range 0 proc hproc).1
      omega
    exact h.daemon _ pid hkill ((reaches_iff hle).mpr
      ⟨proc, hproc, hperm, .inl ⟨hp0, hsmall, rfl⟩⟩)
  · rintro hall p ⟨proc, hproc, hperm⟩
    refine Classical.byContradiction fun hne => ?_
    have := (hpos p ((reaches_iff hle).mpr
      ⟨proc, hproc, hperm, .inr (.inr (.inl ⟨hall, hne⟩))⟩)).2
    simp only [i32Max, u32Max] at this hall
    omega
  · intro hlow hhigh p proc hproc hperm hgroup
    have := (hpos p ((reaches_iff hle).mpr
      ⟨proc, hproc, hperm, .inr (.inr (.inr ⟨hlow, hhigh, hgroup⟩))⟩)).2
    omega

theorem reaches_of_namesDaemon {pid p : Nat} (hle : pid ≤ u32Max)
    (h : NamesDaemon t daemon pid) (hp : t.Reaches (asI32 pid) p) :
    p = pid ∧ pid ≠ 0 ∧ pid ≤ i32Max ∧ daemon = some pid := by
  obtain ⟨proc, hproc, hperm, hcase⟩ := (reaches_iff hle).mp hp
  rcases hcase with ⟨h0, hsmall, rfl⟩ | ⟨h0, -⟩ | ⟨hall, hne⟩ | ⟨hlow, hhigh, hgroup⟩
  · exact ⟨rfl, h0, hsmall, h.process hsmall ⟨proc, hproc, hperm⟩⟩
  · exact absurd h0 h.positive
  · exact absurd (h.everyone hall p ⟨proc, hproc, hperm⟩) hne
  · exact absurd hgroup (h.group hlow hhigh p proc hproc hperm)

theorem safely_of_namesDaemon
    (h : cmd.GoesOn env → ∀ pid, env.pid = some pid → NamesDaemon t daemon pid) :
    SignalsSafely t daemon (run env cmd).effects := by
  have hnames : ∀ n p, .kill n ∈ (run env cmd).effects → t.Reaches n p →
      ∃ pid, env.pid = some pid ∧ n = asI32 pid ∧ p = pid ∧ pid ≠ 0 ∧ pid ≤ i32Max ∧
        daemon = some pid := by
    intro n p hkill hp
    obtain ⟨hgo, pid, hpid, rfl⟩ := kill_mem.mp hkill
    exact ⟨pid, hpid, rfl, reaches_of_namesDaemon (Env.pid_le hpid) (h hgo pid hpid) hp⟩
  refine ⟨?_, ?_, ?_⟩
  · intro n m p q hn hm hp hq
    obtain ⟨pid, hpid, -, rfl, -⟩ := hnames n p hn hp
    obtain ⟨pid', hpid', -, rfl, -⟩ := hnames m q hm hq
    rw [hpid] at hpid'
    exact Option.some.inj hpid'
  · intro n p hn hp
    obtain ⟨pid, -, rfl, rfl, h0, hsmall, -⟩ := hnames n p hn hp
    exact ⟨asI32_small hsmall, by omega, hsmall⟩
  · intro n p hn hp
    obtain ⟨pid, -, -, rfl, -, -, hdaemon⟩ := hnames n p hn hp
    exact hdaemon

end Proofs

/-- **Signal safety.** A command signals, if anything, exactly the live daemon that wrote the pid
file, by its positive pid, if and only if it does not go on to the kill or the number in the file
names that daemon or nothing. -/
theorem signals_safely_iff (t : ProcessTable) (daemon : Option Nat) (env : Env) (cmd : Command) :
    SignalsSafely t daemon (run env cmd).effects ↔
      (cmd.GoesOn env → ∀ pid, env.pid = some pid → NamesDaemon t daemon pid) :=
  ⟨fun h hgo _ hpid => namesDaemon_of_safely hpid hgo h, safely_of_namesDaemon⟩

/-- **The usual case.** When the file is the one that the running daemon wrote, the commands
signal nothing but this daemon. -/
theorem running_daemon_signalled {t : ProcessTable} {pid : Nat} {env : Env} (cmd : Command)
    (hfile : env.pidFile = writePidFile pid) (hpid : 1 ≤ pid ∧ pid ≤ i32Max) :
    SignalsSafely t (some pid) (run env cmd).effects := by
  have hmax : pid ≤ u32Max := Nat.le_trans hpid.2 (by decide)
  have hread : env.pid = some pid := by
    unfold Env.pid
    rw [hfile, readPidFile_write hmax]
    rfl
  refine safely_of_namesDaemon fun _ pid' hpid' => ?_
  rw [hread] at hpid'
  cases hpid'
  refine ⟨by omega, fun _ _ => rfl, ?_, ?_⟩
  · intro hall
    simp only [i32Max, u32Max] at hall hpid
    omega
  · intro hlow
    omega

/-! ## Other processes -/

/-- `lpt` is process 700, in one group with process 701; process 512 is something else. -/
def shell : ProcessTable where
  procs
    | 512 => some ⟨512, true⟩
    | 700 => some ⟨700, true⟩
    | 701 => some ⟨700, true⟩
    | _ => none
  self := 700
  selfProc := ⟨700, true⟩
  self_mem := rfl
  self_permitted := rfl
  pid_range := by
    intro p proc hp
    split at hp
    · decide
    · decide
    · decide
    · cases hp

/-- No daemon runs; the file is left over. -/
def leftover (text : String) : Env where
  running := false
  pidFile := .text text
  agentLoaded := false
  pidFilePath := "linkpilot-daemon.pid"
  sigterm := none
  socketReleased := true
  unload := .ok ()
  start := .ok "daemon started"

/-- `0` signals the group of `lpt`, `4294967295` every other process of the user, and the pid of a
dead daemon whatever process has it now. -/
theorem stop_signals_others :
    (shell.Reaches (asI32 0) 700 ∧ shell.Reaches (asI32 0) 701 ∧
        ¬ SignalsSafely shell none (run (leftover "0\n") .stop).effects) ∧
      (asI32 4294967295 = -1 ∧ shell.Reaches (-1) 512 ∧ shell.Reaches (-1) 701 ∧
        ¬ SignalsSafely shell none (run (leftover "4294967295") .restart).effects) ∧
      shell.Reaches (asI32 512) 512 ∧
      ¬ SignalsSafely shell none (run (leftover "512") .uninstall).effects := by
  have h0 : shell.Reaches (asI32 0) 701 := ⟨⟨700, true⟩, rfl, rfl, rfl⟩
  have hall : shell.Reaches (-1) 512 := ⟨⟨512, true⟩, rfl, rfl, by decide⟩
  have hstale : shell.Reaches (asI32 512) 512 := ⟨⟨512, true⟩, rfl, rfl, rfl⟩
  refine ⟨⟨⟨⟨700, true⟩, rfl, rfl, rfl⟩, h0, ?_⟩,
    ⟨rfl, hall, ⟨⟨700, true⟩, rfl, rfl, by decide⟩, ?_⟩, hstale, ?_⟩
  · intro h
    cases h.daemon _ _ (kill_mem.mpr ⟨rfl, 0, rfl, rfl⟩) h0
  · intro h
    cases h.daemon _ _ (kill_mem.mpr ⟨rfl, 4294967295, rfl, rfl⟩) hall
  · intro h
    cases h.daemon _ _ (kill_mem.mpr ⟨rfl, 512, rfl, rfl⟩) hstale

end LinkPilot.Signals
