import LinkPilot.Lib.Lines
import LinkPilot.Lib.Substrings
import LinkPilot.Lib.Xml

/-!
# The property lists of the LaunchAgents

Model of the templates of `crates/platform-mac/src/launch_agent.rs` and `autostart.rs`, of
`read_exec_path_from_plist`, and of what a property list says is run.  The templates insert the paths
as they are; what becomes of them is told by a reader of XML, which starts behind the fixed prolog.

Principal results:

* `runs_login_iff` — the executable at login has to be plain text.
* `runs_daemon_iff` — then the log directory has to bring the reader back to where it is inserted.
* `logsFit_of_plain` — every plain one does.
* `readExecPathFromPlist_daemon` — the reader of the updater finds a plain executable.
* `plists_iff` — all of it.
* `ampersand_is_not_escaped` — a path that breaks both property lists.
-/

set_option autoImplicit false

namespace LinkPilot.Plists

open Xml

/-! ## The templates -/

def lines (ls : List String) : List Char := Lines.join '\n' (ls.map String.toList)

/-- The XML declaration and the document type, which declares no entities. -/
def plistProlog : List Char :=
  lines ["<?xml version=\"1.0\" encoding=\"UTF-8\"?>",
    "<!DOCTYPE plist PUBLIC \"-//Apple//DTD PLIST 1.0//EN\" " ++
      "\"http://www.apple.com/DTDs/PropertyList-1.0.dtd\">"]

/-- Both templates up to the executable. -/
def beforeExe (label : String) : List Char :=
  lines ["<plist version=\"1.0\">", "<dict>", "    <key>Label</key>"] ++ "    <string>".toList ++
    label.toList ++
    lines ["</string>", "    <key>ProgramArguments</key>", "    <array>"] ++
    "        <string>".toList

def DAEMON_LABEL : String := "app.linkpilot.daemon"

/-- The label of the LaunchAgent that opens LinkPilot. -/
def DEFAULT_BUNDLE_ID : String := "app.linkpilot.desktop"

/-- Behind the executable of the daemon, up to the first log file. -/
def daemonMiddle : List Char :=
  lines ["</string>", "        <string>--serve</string>", "    </array>", "    <key>RunAtLoad</key>",
    "    <true/>", "    <key>KeepAlive</key>", "    <false/>", "    <key>ProcessType</key>",
    "    <string>Background</string>", "    <key>StandardOutPath</key>"] ++ "    <string>".toList

def betweenLogs : List Char :=
  lines ["</string>", "    <key>StandardErrorPath</key>"] ++ "    <string>".toList

def daemonEnd : List Char := lines ["</string>", "</dict>", "</plist>"]

/-- Behind the executable that is opened at login. -/
def loginEnd : List Char :=
  lines ["</string>", "        <string>--launch-at-login</string>", "    </array>",
    "    <key>RunAtLoad</key>", "    <true/>", "    <key>ProcessType</key>",
    "    <string>Interactive</string>", "    <key>KeepAlive</key>", "    <false/>", "</dict>",
    "</plist>"]

/-- `Path::join` with a relative path. -/
def joinPath (dir : List Char) (name : String) : List Char :=
  if dir = [] then name.toList
  else if dir.getLast? = some '/' then dir ++ name.toList
  else dir ++ '/' :: name.toList

/-- What is inserted for the log directory. -/
def logsPart (logs : List Char) : List Char :=
  joinPath logs "daemon.out.log" ++ betweenLogs ++ joinPath logs "daemon.err.log"

/-- The text that `install_daemon` writes. -/
def daemonPlist (exe logs : List Char) : List Char :=
  plistProlog ++ (beforeExe DAEMON_LABEL ++ (exe ++ (daemonMiddle ++ (logsPart logs ++ daemonEnd))))

/-- `launch_agent_plist`. -/
def launchAgentPlist (label : String) (exe : List Char) : List Char :=
  plistProlog ++ (beforeExe label ++ (exe ++ loginEnd))

def argumentsKey : List Char := "<key>ProgramArguments</key>".toList

/-- `read_exec_path_from_plist`, of the text of the file. -/
def readExecPathFromPlist (body : List Char) : Option (List Char) := do
  let (_, rest) ← Substrings.cut argumentsKey body
  let (arr, _) ← Substrings.cut "</array>".toList (argumentsKey ++ rest)
  let (_, after) ← Substrings.cut "<string>".toList arr
  let (raw, _) ← Substrings.cut "</string>".toList after
  if raw = [] then none else some raw

/-! ## Property lists -/

/-- The element behind white space, if it has the name. -/
def enter (name : String) : List Event → Option (List Event)
  | .text c :: es => if isSpace c then enter name es else none
  | .opened n :: es => if n = name.toList then some es else none
  | _ => none

/-- The text of the element that the events are in, and what is behind it. -/
def elementText : List Event → Option (List Char × List Event)
  | .text c :: es => (elementText es).map fun p => (c :: p.1, p.2)
  | .closed :: es => some ([], es)
  | _ => none

/-- What is behind the first key with the name. -/
def afterKey (name : String) : List Event → Option (List Event)
  | [] => none
  | .opened n :: es =>
    match elementText es with
    | some (text, rest) =>
      if n = "key".toList ∧ text = name.toList then some rest else afterKey name es
    | none => afterKey name es
  | _ :: es => afterKey name es

/-- The first string of `ProgramArguments`. -/
def firstArgument (es : List Event) : Option (List Char) := do
  let es ← enter "plist" es
  let es ← enter "dict" es
  let es ← afterKey "ProgramArguments" es
  let es ← enter "array" es
  let es ← enter "string" es
  let (text, _) ← elementText es
  some text

/-- The property list is well-formed, and runs the executable. -/
def Runs (plist exe : List Char) : Prop :=
  plistProlog <+: plist ∧
    ∃ es, read (plist.drop plistProlog.length) = some es ∧ firstArgument es = some exe

/-! ## The fixed text -/

section Fixed

/-- In the text of open elements with these names, behind as many `]`. -/
def inside (stack : List String) (brackets : Nat) : Reader :=
  ⟨stack.map String.toList, true, .text brackets⟩

/-- In the string of the executable. -/
def inExe (brackets : Nat) : Reader := inside ["string", "array", "dict", "plist"] brackets

/-- In the string of a log file. -/
def inLog (brackets : Nat) : Reader := inside ["string", "dict", "plist"] brackets

def behindAll : Reader := inside [] 0

def textEvents (s : String) : List Event := s.toList.map .text

def elementEvents (name text : String) : List Event :=
  .opened name.toList :: (textEvents text ++ [.closed])

/-- What both templates tell up to the executable. -/
def headEvents (label : String) : List Event :=
  .opened "plist".toList :: (textEvents "\n" ++ .opened "dict".toList :: (textEvents "\n    " ++
    elementEvents "key" "Label" ++ textEvents "\n    " ++ elementEvents "string" label ++
    textEvents "\n    " ++ elementEvents "key" "ProgramArguments" ++ textEvents "\n    " ++
    .opened "array".toList :: (textEvents "\n        " ++ [.opened "string".toList])))

variable {label : String}

theorem run_beforeExe (h : label = DAEMON_LABEL ∨ label = DEFAULT_BUNDLE_ID) :
    '\r' ∉ beforeExe label ∧ start.run (beforeExe label) = some (inExe 0, headEvents label) := by
  rcases h with rfl | rfl
  · decide +kernel
  · decide +kernel

theorem firstArgument_head (h : label = DAEMON_LABEL ∨ label = DEFAULT_BUNDLE_ID)
    (es : List Event) :
    firstArgument (headEvents label ++ es) = (elementText es).map Prod.fst := by
  have hhead : firstArgument (headEvents label ++ es) =
      (elementText es).bind fun p => some p.1 := by
    rcases h with rfl | rfl
    · rfl
    · rfl
  rw [hhead]
  cases elementText es <;> rfl

/-- Fixed text that ends a string and leads a reader on. -/
structure Leads (r : Reader) (u : List Char) (r' : Reader) : Prop where
  endsString : "</string>".toList <+: u
  noReturn : '\r' ∉ u
  closes : Reader.closesNothing true u = true
  run : ∃ es, r.run u = some (r', .closed :: es)

variable {r r' : Reader} {u : List Char}

/-- `Leads`, as the reader computes it. -/
def leadsTo (r : Reader) (u : List Char) (r' : Reader) : Bool :=
  decide (("</string>".toList <+: u ∧ '\r' ∉ u ∧ Reader.closesNothing true u = true) ∧
    (r.run u).map (fun q => (q.1, q.2.head?)) = some (r', some .closed))

theorem leads_of_run (h : leadsTo r u r' = true) : Leads r u r' := by
  obtain ⟨⟨hends, hreturn, hcloses⟩, hmap⟩ := of_decide_eq_true h
  obtain ⟨⟨r'', es⟩, hrun, heq⟩ := Option.map_eq_some_iff.mp hmap
  obtain ⟨rfl, hhead⟩ := Prod.mk.inj heq
  obtain ⟨es', rfl⟩ := List.head?_eq_some_iff.mp hhead
  exact ⟨hends, hreturn, hcloses, es', hrun⟩

theorem Leads.shape (h : Leads r u r') :
    ∃ w, u = '<' :: '/' :: ("string".toList ++ '>' :: w) := by
  obtain ⟨w, rfl⟩ := h.endsString
  have hend : "</string>".toList = '<' :: '/' :: ("string".toList ++ ['>']) := by decide
  exact ⟨w, by simp [hend]⟩

theorem Leads.head (h : Leads r u r') (v : List Char) : (u ++ v).head? = some '<' := by
  obtain ⟨w, rfl⟩ := h.shape
  rfl

/-- The reader goes through each text between and behind the strings. -/
theorem leadsTo_fixed :
    leadsTo (inExe 0) daemonMiddle (inLog 0) = true ∧
      leadsTo (inLog 0) betweenLogs (inLog 0) = true ∧
      leadsTo (inLog 0) daemonEnd behindAll = true ∧
      leadsTo (inExe 0) loginEnd behindAll = true := by
  decide +kernel

theorem leads_daemonMiddle : Leads (inExe 0) daemonMiddle (inLog 0) :=
  leads_of_run leadsTo_fixed.1

theorem leads_betweenLogs : Leads (inLog 0) betweenLogs (inLog 0) :=
  leads_of_run leadsTo_fixed.2.1

theorem leads_daemonEnd : Leads (inLog 0) daemonEnd behindAll :=
  leads_of_run leadsTo_fixed.2.2.1

theorem leads_loginEnd : Leads (inExe 0) loginEnd behindAll :=
  leads_of_run leadsTo_fixed.2.2.2

end Fixed

/-! ## The executable -/

section Executable

variable {exe logs t : List Char} {es es' rest : List Event} {label : String}

/-- The text of an element is no longer than that of all that is read before an end tag. -/
theorem length_elementText (h : elementText (es ++ .closed :: es') = some (t, rest)) :
    t.length ≤ (chars es).length := by
  induction es generalizing t with
  | nil =>
    cases h
    exact Nat.zero_le _
  | cons e es ih =>
    cases e with
    | opened name => cases h
    | closed =>
      cases h
      exact Nat.zero_le _
    | text c =>
      obtain ⟨⟨t', rest'⟩, htail, heq⟩ := Option.map_eq_some_iff.mp h
      cases heq
      exact Nat.succ_le_succ (ih htail)

theorem elementText_text (s : List Char) (es : List Event) :
    elementText (s.map .text ++ .closed :: es) = some (s, es) := by
  induction s with
  | nil => rfl
  | cons c s ih =>
    rw [List.map_cons, List.cons_append, elementText, ih]
    rfl

/-- Reading a property list that starts as both do. -/
theorem runs_iff (h : label = DAEMON_LABEL ∨ label = DEFAULT_BUNDLE_ID) {v : List Char}
    (hv : v.head? = some '<') (s : List Char) :
    Runs (plistProlog ++ (beforeExe label ++ (s ++ v))) t ↔
      ∃ r es, (inExe 0).run (normalizeEnds s ++ normalizeEnds v) =
          some (r, es) ∧ r.finished = true ∧ (elementText es).map Prod.fst = some t := by
  obtain ⟨hreturn, hhead⟩ := run_beforeExe h
  have hne : v.head? ≠ some '\n' := by
    rw [hv]
    decide
  have hnormal : normalizeEnds (beforeExe label ++ (s ++ v)) =
      beforeExe label ++ (normalizeEnds s ++ normalizeEnds v) := by
    rw [normalizeEnds_append_of_not_mem hreturn, normalizeEnds, normalizeEndsFrom_append hne]
    rfl
  rw [Runs, List.drop_left, Xml.read, hnormal, Reader.run_append hhead]
  constructor
  · rintro ⟨-, es, hread, hfirst⟩
    obtain ⟨q, hrun, hend⟩ := Option.bind_eq_some_iff.mp hread
    obtain ⟨⟨r, es'⟩, hrest, rfl⟩ := Option.map_eq_some_iff.mp hrun
    obtain ⟨hfinished, heq⟩ := Option.ite_none_right_eq_some.mp hend
    cases heq
    rw [firstArgument_head h] at hfirst
    exact ⟨r, es', hrest, hfinished, hfirst⟩
  · rintro ⟨r, es, hrun, hfinished, hfirst⟩
    refine ⟨List.prefix_append _ _, headEvents label ++ es, ?_, ?_⟩
    · rw [hrun, Option.map_some, Option.bind_some, if_pos hfinished]
    · rw [firstArgument_head h, hfirst]

/-- **What an executable at login has to be.** -/
theorem plain_of_runs_login (h : Runs (launchAgentPlist DEFAULT_BUNDLE_ID exe) exe) :
    Plain exe := by
  have hleads := leads_loginEnd
  have hhead := hleads.head []
  rw [List.append_nil] at hhead
  obtain ⟨r, es, hrun, hfinished, hfirst⟩ := (runs_iff (.inr rfl) hhead exe).mp h
  rw [normalizeEnds_eq_self_iff.mpr hleads.noReturn] at hrun
  obtain ⟨r', es₁, es₂, hexe, hend, rfl⟩ := Reader.run_append_iff.mp hrun
  -- what follows is read in text only, and starts with the end of a string
  obtain ⟨w, hw⟩ := hleads.shape
  have hcloses := hleads.closes
  rw [hw] at hend hcloses
  obtain ⟨k, hmode⟩ := Reader.text_of_run_markup hend hfinished hcloses
  obtain ⟨-, es₃, -, rfl⟩ := Reader.run_endTag (by decide +kernel) hmode hend
  obtain ⟨⟨t, rest⟩, htext, rfl⟩ := Option.map_eq_some_iff.mp hfirst
  have hlong := length_elementText htext
  have hshort := @length_normalizeEndsFrom_le false t
  have hplain : '<' ∉ normalizeEnds t ∧ '&' ∉ normalizeEnds t := by
    rw [← not_or]
    intro hmarkup
    have hlt := Reader.length_chars_lt rfl hmarkup hexe
    rw [normalizeEnds] at hlt
    omega
  obtain ⟨⟨hchars, hclose⟩, -, rfl⟩ :=
    (Reader.run_text_iff (by decide) (by omega) hplain.1 hplain.2).mp hexe
  rw [elementText_text, Option.some.injEq, Prod.mk.injEq] at htext
  rw [htext.1] at hplain hchars hclose
  exact ⟨hplain.1, hplain.2, normalizeEnds_eq_self_iff.mp htext.1, hchars, hclose⟩

/-- A plain executable is what a property list runs, if that goes on with the end of the string. -/
theorem runs_iff_of_plain (h : label = DAEMON_LABEL ∨ label = DEFAULT_BUNDLE_ID) (hexe : Plain exe)
    {r : Reader} {u : List Char} (hleads : Leads (inExe 0) u r) (v : List Char) :
    Runs (plistProlog ++ (beforeExe label ++ (exe ++ (u ++ v)))) exe ↔
      ∃ r' es', r.run (normalizeEnds v) = some (r', es') ∧ r'.finished = true := by
  have hhead := hleads.head v
  have hreturn := hleads.noReturn
  obtain ⟨es, hrun⟩ := hleads.run
  obtain ⟨w, rfl⟩ := hleads.shape
  have hexe' : normalizeEnds exe = exe := normalizeEnds_eq_self_iff.mpr hexe.noReturn
  have hplain : ∀ s, (inExe 0).run (exe ++ '<' :: s) =
      ((inExe 0).run ('<' :: s)).map fun q => (q.1, exe.map .text ++ q.2) := fun s =>
    Reader.run_plain (by decide) hexe s
  have hrest := Reader.run_append hrun (normalizeEnds v)
  rw [List.cons_append] at hrest
  rw [runs_iff h hhead, normalizeEnds_append_of_not_mem hreturn, hexe', List.cons_append, hplain, hrest]
  constructor
  · rintro ⟨r', es', hmap, hfinished, -⟩
    obtain ⟨q, hq, heq⟩ := Option.map_eq_some_iff.mp hmap
    obtain ⟨⟨r'', es''⟩, hv, rfl⟩ := Option.map_eq_some_iff.mp hq
    cases heq
    exact ⟨r'', es'', hv, hfinished⟩
  · rintro ⟨r', es', hv, hfinished⟩
    refine ⟨r', exe.map .text ++ (.closed :: es ++ es'), ?_, hfinished, ?_⟩
    · rw [hv, Option.map_some, Option.map_some]
    · rw [List.cons_append, elementText_text, Option.map_some]

/-- **What an executable at login may be.** -/
theorem runs_login_iff : Runs (launchAgentPlist DEFAULT_BUNDLE_ID exe) exe ↔ Plain exe := by
  refine ⟨plain_of_runs_login, fun hexe => ?_⟩
  have hiff := runs_iff_of_plain (.inr rfl) hexe leads_loginEnd []
  rw [List.append_nil] at hiff
  exact hiff.mpr ⟨behindAll, [], rfl, rfl⟩

/-- The log directory takes a reader of XML from inside of the first of its strings back to inside of
one, with what is between its two places. -/
def LogsFit (logs : List Char) : Prop :=
  ∃ k es, (inLog 0).run (normalizeEnds (logsPart logs)) =
    some (inLog k, es)

/-- The end of the property list of the daemon is read inside of a string only. -/
theorem reader_of_daemonEnd {r r' : Reader} (h : r.run daemonEnd = some (r', es))
    (hfinished : r'.finished = true) :
    ∃ k, r = inLog k := by
  have hend : daemonEnd = '<' :: '/' :: ("string".toList ++ '>' :: '\n' ::
      ('<' :: '/' :: ("dict".toList ++ '>' :: '\n' ::
        ('<' :: '/' :: ("plist".toList ++ '>' :: '\n' :: []))))) := by
    decide +kernel
  have hcloses := leads_daemonEnd.closes
  rw [hend] at h hcloses
  obtain ⟨k, hmode⟩ := Reader.text_of_run_markup h hfinished hcloses
  obtain ⟨hstring, es₁, h₁⟩ := Reader.run_endLine (by decide +kernel) hmode h
  obtain ⟨hdict, es₂, h₂⟩ := Reader.run_endLine (by decide +kernel) rfl h₁
  obtain ⟨hplist, es₃, h₃⟩ := Reader.run_endLine (by decide +kernel) rfl h₂
  cases h₃
  obtain ⟨stack, rooted, mode⟩ := r
  simp only [Reader.finished, Bool.and_true, Bool.and_eq_true, List.isEmpty_iff] at hfinished
  simp only at hstring hdict hplist hmode
  rw [hfinished.1] at hplist
  rw [hplist] at hdict
  rw [hdict] at hstring
  refine ⟨k, ?_⟩
  rw [hstring, hfinished.2, hmode]
  rfl

/-- A reader in text is inside of a log file's string however many brackets it is behind. -/
theorem Leads.run_brackets {r' : Reader} {u : List Char} (h : Leads (inLog 0) u r') (k : Nat) :
    ∃ es, (inLog k).run u = some (r', es) := by
  obtain ⟨es, hrun⟩ := h.run
  obtain ⟨w, rfl⟩ := h.shape
  exact ⟨_, hrun⟩

theorem runs_daemon_iff (hexe : Plain exe) :
    Runs (daemonPlist exe logs) exe ↔ LogsFit logs := by
  have hend : daemonEnd.head? ≠ some '\n' := by
    have hhead := leads_daemonEnd.head []
    rw [List.append_nil] at hhead
    rw [hhead]
    decide
  have hnormal : normalizeEnds (logsPart logs ++ daemonEnd) =
      normalizeEnds (logsPart logs) ++ daemonEnd := by
    rw [normalizeEnds, normalizeEndsFrom_append hend,
      normalizeEnds_eq_self_iff.mpr leads_daemonEnd.noReturn]
    rfl
  rw [daemonPlist, runs_iff_of_plain (.inl rfl) hexe leads_daemonMiddle, hnormal]
  constructor
  · rintro ⟨r, es', h, hfinished⟩
    obtain ⟨r', es₁, es₂, hlogs, htail, -⟩ := Reader.run_append_iff.mp h
    obtain ⟨k, rfl⟩ := reader_of_daemonEnd htail hfinished
    exact ⟨k, es₁, hlogs⟩
  · rintro ⟨k, es', hlogs⟩
    obtain ⟨es'', htail⟩ := leads_daemonEnd.run_brackets k
    refine ⟨behindAll, es' ++ es'', ?_, rfl⟩
    rw [Reader.run_append hlogs, htail, Option.map_some]

/-- Where `read_exec_path_from_plist` looks for the executable. -/
theorem readExecPathFromPlist_eq {front gap mid : List Char}
    (hfront : ∀ z ∈ front.tails, z ≠ [] → ¬ (argumentsKey <+: z ∨ z <+: argumentsKey))
    (hstring : ¬ '<' :: "string>".toList <:+: argumentsKey ++ gap)
    (harray : ¬ '<' :: "/array>".toList <:+: argumentsKey ++ gap)
    (hmid : ¬ '<' :: "/array>".toList <:+: '<' :: ("/string>".toList ++ mid)) (hexe : '<' ∉ exe)
    (back : List Char) :
    readExecPathFromPlist (front ++ (argumentsKey ++ (gap ++ ("<string>".toList ++ (exe ++
      ("</string>".toList ++ (mid ++ ("</array>".toList ++ back)))))))) =
        if exe = [] then none else some exe := by
  have hstring' : "<string>".toList = '<' :: "string>".toList := by decide
  have hend' : "</string>".toList = '<' :: "/string>".toList := by decide
  have harray' : "</array>".toList = '<' :: "/array>".toList := by decide
  have hnoString : '<' ∉ "string>".toList := by decide
  have hnoEnd : '<' ∉ "/string>".toList := by decide
  have hnoArray : '<' ∉ "/array>".toList := by decide
  -- the array ends behind the fixed arguments
  have hbefore : ¬ '<' :: "/array>".toList <:+: argumentsKey ++ gap ++
      '<' :: ("string>".toList ++ exe ++ '<' :: ("/string>".toList ++ mid)) := by
    have hword : '<' ∉ "string>".toList ++ exe := by
      rw [List.mem_append, not_or]
      exact ⟨hnoString, hexe⟩
    rw [Substrings.infix_append_mark hnoArray, ← List.cons_append,
      Substrings.infix_append_mark hnoArray, Substrings.infix_mark_iff hword]
    rintro (h | h | h)
    · exact harray h
    · have hslash : "/array>".toList.head? = some '/' := by decide
      obtain ⟨w, hw⟩ := List.head?_eq_some_iff.mp hslash
      rw [hw] at h
      cases (List.cons_prefix_cons.mp h).1
    · exact hmid h
  have hnoExe : ¬ '<' :: "/string>".toList <:+: exe := fun h => hexe (h.subset List.mem_cons_self)
  have hcutKey : ∀ y, Substrings.cut argumentsKey (front ++ (argumentsKey ++ y)) =
      some (front, y) := by
    intro y
    rw [Substrings.cut_skip_of_apart hfront, Substrings.cut_of_starts (List.prefix_append _ _),
      List.drop_left, Option.map_some, List.append_nil]
  have hcutArray := Substrings.cut_append hnoArray hbefore back
  have hcutString := Substrings.cut_append hnoString hstring
    (exe ++ '<' :: ("/string>".toList ++ mid))
  have hcutEnd := Substrings.cut_append hnoEnd hnoExe mid
  simp only [List.append_assoc, List.cons_append] at hcutArray hcutString hcutEnd
  unfold readExecPathFromPlist
  rw [hcutKey, hstring', hend', harray']
  simp only [List.cons_append, Option.bind_eq_bind, Option.bind_some]
  rw [hcutArray, Option.bind_some, hcutString, Option.bind_some, hcutEnd, Option.bind_some]

/-- **The reader of the updater** finds every executable without a `<`, unless it is empty. -/
theorem readExecPathFromPlist_daemon (hexe : '<' ∉ exe) (logs : List Char) :
    readExecPathFromPlist (daemonPlist exe logs) = if exe = [] then none else some exe := by
  have hhead : beforeExe DAEMON_LABEL =
      lines ["<plist version=\"1.0\">", "<dict>", "    <key>Label</key>",
        "    <string>app.linkpilot.daemon</string>"] ++ "    ".toList ++ (argumentsKey ++
          ("\n    <array>\n        ".toList ++ "<string>".toList)) := by
    decide +kernel
  obtain ⟨back, hmiddle⟩ : ∃ back, daemonMiddle = "</string>".toList ++
      ("\n        <string>--serve</string>\n    ".toList ++ ("</array>".toList ++ back)) :=
    ⟨daemonMiddle.drop 55, by decide +kernel⟩
  have hfront : ∀ z ∈ (plistProlog ++ (lines ["<plist version=\"1.0\">", "<dict>",
      "    <key>Label</key>", "    <string>app.linkpilot.daemon</string>"] ++
        "    ".toList)).tails, z ≠ [] → ¬ (argumentsKey <+: z ∨ z <+: argumentsKey) := by
    decide +kernel
  have hread := @readExecPathFromPlist_eq exe _ "\n    <array>\n        ".toList
    "\n        <string>--serve</string>\n    ".toList hfront (by decide +kernel) (by decide +kernel)
    (by decide +kernel) hexe (back ++ (logsPart logs ++ daemonEnd))
  rw [daemonPlist, hhead, hmiddle]
  simpa only [List.append_assoc] using hread

theorem plain_joinPath (hlogs : Plain logs) {name : String} (hname : Plain name.toList)
    (hclose : '>' ∉ name.toList) : Plain (joinPath logs name) := by
  have hslash : Plain ['/'] := (plain_of_all (by decide)).1
  unfold joinPath
  split_ifs
  · exact hname
  · exact hlogs.append hname hclose
  · have hboth : Plain ('/' :: name.toList) := hslash.append hname hclose
    exact hlogs.append hboth (by simpa using hclose)

/-- A plain log directory is read as it stands. -/
theorem logsFit_of_plain (hlogs : Plain logs) : LogsFit logs := by
  obtain ⟨hname, hclose⟩ : Plain "daemon.out.log".toList ∧ '>' ∉ "daemon.out.log".toList :=
    plain_of_all (by decide)
  obtain ⟨hname', hclose'⟩ : Plain "daemon.err.log".toList ∧ '>' ∉ "daemon.err.log".toList :=
    plain_of_all (by decide)
  have hout := plain_joinPath hlogs hname hclose
  have herr := plain_joinPath hlogs hname' hclose'
  obtain ⟨es, hbetween⟩ := leads_betweenLogs.run
  have hreturn : '\r' ∉ logsPart logs := by
    simp only [logsPart, List.mem_append, not_or]
    exact ⟨⟨hout.noReturn, leads_betweenLogs.noReturn⟩, herr.noReturn⟩
  obtain ⟨w, hw⟩ := leads_betweenLogs.shape
  have hlast : (inLog 0).run (joinPath logs "daemon.err.log") =
      some (inLog (Reader.bracketsAfter 0 (joinPath logs "daemon.err.log")),
          (joinPath logs "daemon.err.log").map .text) :=
    (Reader.run_text_iff (by decide) (by omega) herr.noTag herr.noReference).mpr
      ⟨⟨herr.chars, herr.noClose⟩, rfl, rfl⟩
  have hfirst : ∀ s, (inLog 0).run (joinPath logs "daemon.out.log" ++ '<' :: s) =
      ((inLog 0).run ('<' :: s)).map
        fun q => (q.1, (joinPath logs "daemon.out.log").map .text ++ q.2) := fun s =>
    Reader.run_plain (by decide) hout s
  have hrest := Reader.run_append hbetween (joinPath logs "daemon.err.log")
  rw [hw, List.cons_append, hlast, Option.map_some] at hrest
  refine ⟨Reader.bracketsAfter 0 (joinPath logs "daemon.err.log"),
    (joinPath logs "daemon.out.log").map .text ++
      (.closed :: es ++ (joinPath logs "daemon.err.log").map .text), ?_⟩
  rw [normalizeEnds_eq_self_iff.mpr hreturn, logsPart, hw, List.append_assoc, List.cons_append,
    hfirst, hrest, Option.map_some]

/-- **When the property lists run what they are to run**: exactly when the executable is plain and not
empty, and the log directory keeps the elements that it is inserted in. -/
theorem plists_iff (exe logs : List Char) :
    (Runs (daemonPlist exe logs) exe ∧ Runs (launchAgentPlist DEFAULT_BUNDLE_ID exe) exe ∧
        readExecPathFromPlist (daemonPlist exe logs) = some exe) ↔
      exe ≠ [] ∧ Plain exe ∧ LogsFit logs := by
  constructor
  · rintro ⟨hdaemon, hlogin, hread⟩
    have hexe := runs_login_iff.mp hlogin
    refine ⟨?_, hexe, (runs_daemon_iff hexe).mp hdaemon⟩
    rintro rfl
    rw [readExecPathFromPlist_daemon hexe.noTag, if_pos rfl] at hread
    cases hread
  · rintro ⟨hne, hexe, hlogs⟩
    refine ⟨(runs_daemon_iff hexe).mpr hlogs, runs_login_iff.mpr hexe, ?_⟩
    rw [readExecPathFromPlist_daemon hexe.noTag, if_neg hne]

def researchExe : List Char :=
  "/Applications/R&D/LinkPilot.app/Contents/MacOS/linkpilot-daemon".toList

/-- **A path with an ampersand**: neither property list is well-formed, and the reader of the updater
finds the path in the file all the same. -/
theorem ampersand_is_not_escaped :
    ¬ Runs (daemonPlist researchExe "/Users/me/Library/Logs/LinkPilot".toList) researchExe ∧
      ¬ Runs (launchAgentPlist DEFAULT_BUNDLE_ID researchExe) researchExe ∧
      readExecPathFromPlist (daemonPlist researchExe "/Users/me/Library/Logs/LinkPilot".toList) =
        some researchExe := by
  refine ⟨?_, fun h => ?_, ?_⟩
  · -- the reference does not end
    rw [daemonPlist, runs_iff (.inl rfl) (leads_daemonMiddle.head _)]
    rintro ⟨r, es, hrun, -, -⟩
    obtain ⟨r', es', -, hexe, -⟩ := Reader.run_append_iff.mp hrun
    have hnone : (inExe 0).run (normalizeEnds researchExe) = none := by decide +kernel
    rw [hnone] at hexe
    cases hexe
  · exact absurd (runs_login_iff.mp h).noReference (by decide +kernel)
  · rw [readExecPathFromPlist_daemon (by decide +kernel), if_neg (by decide +kernel)]

end Executable

end LinkPilot.Plists
