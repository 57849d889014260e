import LinkPilot.Routing

/-!
# Glob patterns

`glob_match` and `match_host` of `crates/core/src/routing.rs`: the documented forms of a pattern, and
capital letters in a pattern for hosts.

* `globChars_iff_names` — what a pattern matches.
* `follows_iff` — the form that is documented and never matches: a leading `*` without a dot.
* `matchHost_lower_iff`, `host_case` — which capital letters in a pattern change nothing.
-/

set_option autoImplicit false

namespace LinkPilot

/-! ## What a pattern matches -/

/-- `glob_match`, as a relation. -/
inductive Names : List Char → List Char → Prop
  | apex (rest : List Char) : Names ('*' :: '.' :: rest) rest
  | below (rest front : List Char) : Names ('*' :: '.' :: rest) (front ++ '.' :: rest)
  | start {text : List Char} (more : List Char) (h : ∀ rest, text ++ ['*'] ≠ '*' :: '.' :: rest) :
    Names (text ++ ['*']) (text ++ more)
  | same {pattern : List Char} (h : ∀ rest, pattern ≠ '*' :: '.' :: rest)
    (hlast : pattern.getLast? ≠ some '*') : Names pattern pattern

theorem globChars_apex (rest value : List Char) :
    globChars ('*' :: '.' :: rest) value = true ↔ value = rest ∨ ('.' :: rest) <:+ value := by
  simp [globChars]

theorem globChars_start {text : List Char} (h : ∀ rest, text ++ ['*'] ≠ '*' :: '.' :: rest)
    (value : List Char) : globChars (text ++ ['*']) value = true ↔ text <+: value := by
  unfold globChars
  split
  · rename_i rest heq
    exact absurd heq (h rest)
  · rw [List.getLast?_concat, List.dropLast_concat]
    exact List.isPrefixOf_iff_prefix

theorem globChars_same {pattern : List Char} (h : ∀ rest, pattern ≠ '*' :: '.' :: rest)
    (hlast : pattern.getLast? ≠ some '*') (value : List Char) :
    globChars pattern value = true ↔ pattern = value := by
  unfold globChars
  split
  · exact absurd rfl (h _)
  · split
    · rename_i hstar
      exact absurd hstar hlast
    · exact beq_iff_eq

/-- The three kinds of patterns. -/
theorem pattern_cases (pattern : List Char) :
    (∃ rest, pattern = '*' :: '.' :: rest) ∨
      (∃ text, pattern = text ++ ['*'] ∧ ∀ rest, text ++ ['*'] ≠ '*' :: '.' :: rest) ∨
      (∀ rest, pattern ≠ '*' :: '.' :: rest) ∧ pattern.getLast? ≠ some '*' := by
  by_cases hapex : ∃ rest, pattern = '*' :: '.' :: rest
  · exact .inl hapex
  · have hnot : ∀ rest, pattern ≠ '*' :: '.' :: rest := fun rest h => hapex ⟨rest, h⟩
    by_cases hlast : pattern.getLast? = some '*'
    · obtain ⟨text, rfl⟩ := List.getLast?_eq_some_iff.mp hlast
      exact .inr (.inl ⟨text, rfl, hnot⟩)
    · exact .inr (.inr ⟨hnot, hlast⟩)

/-- **What a pattern matches.** -/
theorem globChars_iff_names (pattern value : List Char) :
    globChars pattern value = true ↔ Names pattern value := by
  constructor
  · intro h
    rcases pattern_cases pattern with ⟨rest, rfl⟩ | ⟨text, rfl, hnot⟩ | ⟨hnot, hlast⟩
    · rcases (globChars_apex rest value).mp h with rfl | ⟨front, rfl⟩
      · exact .apex value
      · exact .below rest front
    · obtain ⟨more, rfl⟩ := (globChars_start hnot value).mp h
      exact .start more hnot
    · rw [← (globChars_same hnot hlast value).mp h]
      exact .same hnot hlast
  · intro h
    cases h with
    | apex => exact (globChars_apex _ _).mpr (.inl rfl)
    | below rest front => exact (globChars_apex rest _).mpr (.inr ⟨front, rfl⟩)
    | start more hnot => exact (globChars_start hnot _).mpr ⟨more, rfl⟩
    | same hnot hlast => exact (globChars_same hnot hlast _).mpr rfl

/-! ## The documented forms -/

/-- The documented forms: `*.` and a domain, a `*` in front of a text, a `*` behind it, no `*`. -/
inductive Form where
  | domain (rest : List Char)
  | leading (text : List Char)
  | trailing (text : List Char)
  | plain (text : List Char)
  deriving DecidableEq

/-- The form of a pattern, if it has one. -/
def formOf (pattern : List Char) : Option Form :=
  match pattern with
  | '*' :: '.' :: rest => some (.domain rest)
  | '*' :: text => if '*' ∈ text then none else some (.leading text)
  | _ =>
    if '*' ∉ pattern then some (.plain pattern)
    else if pattern.getLast? = some '*' ∧ '*' ∉ pattern.dropLast then some (.trailing pattern.dropLast)
    else none

/-- What the form means. -/
def Form.Means (value : List Char) : Form → Prop
  | .domain rest => value = rest ∨ ('.' :: rest) <:+ value
  | .leading text => text <:+ value
  | .trailing text => text <+: value
  | .plain text => value = text

/-- The pattern is matched as its form is documented. -/
def Follows (pattern value : String) : Prop :=
  ∀ form, formOf pattern.toList = some form →
    (globMatch pattern value = true ↔ form.Means value.toList)

/-- A `*` in front of a text that has none, and the value ends with the text. -/
def LeadingStar (pattern value : String) : Prop :=
  ∃ text, pattern.toList = '*' :: text ∧ text ≠ [] ∧ '*' ∉ text ∧ text.head? ≠ some '.' ∧
    text <:+ value.toList ∧ value ≠ pattern

/-- A pattern with a leading `*` and no dot behind it matches itself only. -/
theorem globChars_leading {text : List Char} (hne : text ≠ []) (hstar : '*' ∉ text)
    (hdot : text.head? ≠ some '.') (value : List Char) :
    globChars ('*' :: text) value = true ↔ '*' :: text = value := by
  refine globChars_same (fun rest heq => ?_) (fun hlast => ?_) value
  · rw [(List.cons.inj heq).2] at hdot
    exact hdot rfl
  · rw [List.getLast?_cons_of_ne_nil hne] at hlast
    exact hstar (List.mem_of_getLast? hlast)

theorem formOf_leading {text : List Char} (hdot : text.head? ≠ some '.') :
    formOf ('*' :: text) = if '*' ∈ text then none else some (.leading text) := by
  unfold formOf
  split
  · rename_i heq
    rw [(List.cons.inj heq).2] at hdot
    exact absurd rfl hdot
  · rename_i heq
    rw [(List.cons.inj heq).2]
  · rename_i hnot
    exact absurd rfl (hnot text)

theorem formOf_other {pattern : List Char} (h : pattern.head? ≠ some '*') :
    formOf pattern =
      if '*' ∉ pattern then some (.plain pattern)
      else if pattern.getLast? = some '*' ∧ '*' ∉ pattern.dropLast then
        some (.trailing pattern.dropLast)
      else none := by
  unfold formOf
  split
  · exact absurd rfl h
  · exact absurd rfl h
  · rfl

/-- A pattern that does not start with a `*` is matched as documented. -/
theorem means_of_other {pattern value : List Char} {form : Form} (h : pattern.head? ≠ some '*')
    (hform : formOf pattern = some form) : globChars pattern value = true ↔ form.Means value := by
  have hnot : ∀ rest, pattern ≠ '*' :: '.' :: rest := by
    rintro rest rfl
    exact h rfl
  rw [formOf_other h] at hform
  split at hform
  · rename_i hstar
    cases hform
    rw [globChars_same hnot (fun hlast => hstar (List.mem_of_getLast? hlast)), Form.Means, eq_comm]
  · split at hform
    · rename_i hlast
      cases hform
      obtain ⟨text, rfl⟩ := List.getLast?_eq_some_iff.mp hlast.1
      rw [globChars_start hnot, List.dropLast_concat]
      exact Iff.rfl
    · cases hform

/-- A leading `*` is read as its form where the text behind it is empty or the value shows no
difference. -/
theorem means_of_leading {text : List Char} (hstar : '*' ∉ text) (hdot : text.head? ≠ some '.')
    (value : List Char) : (globChars ('*' :: text) value = true ↔ text <:+ value) ↔
      ¬ (text ≠ [] ∧ text <:+ value ∧ value ≠ '*' :: text) := by
  by_cases hne : text = []
  · subst hne
    exact iff_of_true (iff_of_true rfl List.nil_suffix) fun h => h.1 rfl
  · rw [globChars_leading hne hstar hdot]
    constructor
    · rintro h ⟨-, hsuffix, hvalue⟩
      exact hvalue (h.mpr hsuffix).symm
    · intro h
      refine ⟨?_, fun hsuffix => ?_⟩
      · rintro rfl
        exact List.suffix_cons '*' text
      · by_contra hvalue
        exact h ⟨hne, hsuffix, fun heq => hvalue heq.symm⟩

/-- **The documented forms.** -/
theorem follows_iff (pattern value : String) :
    Follows pattern value ↔ ¬ LeadingStar pattern value := by
  unfold Follows LeadingStar globMatch
  rw [ne_eq, ← String.toList_inj]
  generalize value.toList = v
  generalize pattern.toList = p
  by_cases hhead : p.head? = some '*'
  · obtain ⟨text, rfl⟩ := List.head?_eq_some_iff.mp hhead
    simp only [List.cons.injEq, true_and, exists_eq_left']
    by_cases hdot : text.head? = some '.'
    · obtain ⟨rest, rfl⟩ := List.head?_eq_some_iff.mp hdot
      refine iff_of_true (fun form hform => ?_) fun h => h.2.2.1 rfl
      cases hform
      exact globChars_apex rest v
    · rw [formOf_leading hdot]
      by_cases hstar : '*' ∈ text
      · refine iff_of_true (fun form hform => ?_) fun h => h.2.1 hstar
        rw [if_pos hstar] at hform
        cases hform
      · have hleading := means_of_leading hstar hdot v
        rw [if_neg hstar]
        constructor
        · rintro h ⟨hne, -, -, hsuffix, hvalue⟩
          exact hleading.mp (h _ rfl) ⟨hne, hsuffix, hvalue⟩
        · intro h form hform
          cases hform
          exact hleading.mpr fun ⟨hne, hsuffix, hvalue⟩ => h ⟨hne, hstar, hdot, hsuffix, hvalue⟩
  · refine iff_of_true (fun form hform => means_of_other hhead hform) ?_
    rintro ⟨text, rfl, -⟩
    exact hhead rfl

/-- A leading `*` without a dot. -/
theorem not_follows : ¬ Follows "*hub.com" "github.com" := by
  intro h
  have hmatch := (h (.leading "hub.com".toList) (by decide)).mpr
    (show "hub.com".toList <:+ "github.com".toList by decide)
  exact absurd hmatch (by decide)

/-! ## Capital letters -/

/-- `str::to_ascii_lowercase`. -/
def toAsciiLowercase (s : String) : String := .ofList (s.toList.map Char.toLower)

mutual

/-- The patterns for hosts in lowercase. -/
def MatcherTree.lowerHosts : MatcherTree → MatcherTree
  | .all of => .all (lowerAll of)
  | .any of => .any (lowerAll of)
  | .not of => .not of.lowerHosts
  | .urlHost pattern => .urlHost (toAsciiLowercase pattern)
  | t => t

def MatcherTree.lowerAll : List MatcherTree → List MatcherTree
  | [] => []
  | t :: ts => t.lowerHosts :: lowerAll ts

end

mutual

/-- The patterns for hosts. -/
def MatcherTree.hostPatterns : MatcherTree → List String
  | .all of => hostPatternsAll of
  | .any of => hostPatternsAll of
  | .not of => of.hostPatterns
  | .urlHost pattern => [pattern]
  | _ => []

def MatcherTree.hostPatternsAll : List MatcherTree → List String
  | [] => []
  | t :: ts => t.hostPatterns ++ hostPatternsAll ts

end

def Rule.lowerHosts (r : Rule) : Rule := { r with when := r.when.lowerHosts }

def ConfigDocument.lowerHosts (doc : ConfigDocument) : ConfigDocument :=
  { doc with rules := doc.rules.map Rule.lowerHosts }

section Case

variable (urlParse : String → Option Url)

/-- The parser has put the host of the URL in lowercase, as it does for `http` and `https`. -/
def LowerHost (url : String) : Prop :=
  ∀ parsed host, urlParse url = some parsed → parsed.hostStr = some host →
    toAsciiLowercase host = host

/-- The pattern has no capital letter, or it does not name the host of the URL in lowercase either. -/
def CaseSafe (url pattern : String) : Prop :=
  toAsciiLowercase pattern = pattern ∨
    ∀ parsed host, urlParse url = some parsed → parsed.hostStr = some host →
      ¬ Names (toAsciiLowercase pattern).toList host.toList

variable {urlParse}

theorem toAsciiLowercase_eq_iff {s : String} :
    toAsciiLowercase s = s ↔ ∀ c ∈ s.toList, c.toLower = c := by
  have hid : s.toList.map id = s.toList := List.map_id _
  rw [toAsciiLowercase, ← String.toList_inj, String.toList_ofList]
  nth_rewrite 2 [← hid]
  exact List.map_inj_left

/-- What names a text in lowercase is in lowercase. -/
theorem Names.lower {pattern value : List Char} (h : Names pattern value)
    (hvalue : ∀ c ∈ value, c.toLower = c) : ∀ c ∈ pattern, c.toLower = c := by
  have hstar : '*'.toLower = '*' := by decide
  have hdot : '.'.toLower = '.' := by decide
  cases h with
  | apex => simpa [hstar, hdot] using hvalue
  | below rest front =>
    have hrest : ∀ c ∈ '.' :: rest, c.toLower = c := fun c hc =>
      hvalue c (List.mem_append_right _ hc)
    exact List.forall_mem_cons.mpr ⟨hstar, hrest⟩
  | start more hnot =>
    rename_i text
    intro c hc
    rcases List.mem_append.mp hc with hc | hc
    · exact hvalue c (List.mem_append_left _ hc)
    · rw [List.mem_singleton.mp hc]
      exact hstar
  | same => exact hvalue

theorem matchHost_iff {url pattern : String} :
    matchHost urlParse pattern url = true ↔
      ∃ parsed host, urlParse url = some parsed ∧ parsed.hostStr = some host ∧
        Names pattern.toList host.toList := by
  unfold matchHost
  split
  · rename_i hparse
    simp [hparse]
  · rename_i parsed hparse
    split
    · rename_i hhost
      simp [hparse, hhost]
    · rename_i host hhost
      rw [globMatch, globChars_iff_names]
      simp [hparse, hhost]

/-- A pattern with a capital letter names no host. -/
theorem matchHost_of_capital {url pattern : String} (hurl : LowerHost urlParse url)
    (h : toAsciiLowercase pattern ≠ pattern) : matchHost urlParse pattern url = false := by
  refine Bool.eq_false_iff.mpr fun hmatch => h ?_
  obtain ⟨parsed, host, hparse, hhost, hnames⟩ := matchHost_iff.mp hmatch
  have hlower := toAsciiLowercase_eq_iff.mp (hurl parsed host hparse hhost)
  exact toAsciiLowercase_eq_iff.mpr (hnames.lower hlower)

/-- **Capital letters in a pattern.** -/
theorem matchHost_lower_iff {url : String} (hurl : LowerHost urlParse url) (pattern : String) :
    matchHost urlParse pattern url = matchHost urlParse (toAsciiLowercase pattern) url ↔
      CaseSafe urlParse url pattern := by
  unfold CaseSafe
  by_cases hlower : toAsciiLowercase pattern = pattern
  · exact iff_of_true (by rw [hlower]) (.inl hlower)
  · rw [matchHost_of_capital hurl hlower, or_iff_right hlower, eq_comm, ← Bool.not_eq_true,
      matchHost_iff]
    simp only [not_exists, not_and]

theorem all_matched (es : List MatcherEval) :
    es.all MatcherEval.matched = (es.map MatcherEval.matched).all id := by
  rw [List.all_map]
  rfl

theorem any_matched (es : List MatcherEval) :
    es.any MatcherEval.matched = (es.map MatcherEval.matched).any id := by
  rw [List.any_map]
  rfl

theorem isEmpty_matched (es : List MatcherEval) :
    es.isEmpty = (es.map MatcherEval.matched).isEmpty := List.isEmpty_map.symm

mutual

/-- A tree whose patterns for hosts are safe. -/
theorem matched_lowerHosts {ctx : RoutingContext} (hurl : LowerHost urlParse ctx.url) :
    ∀ t : MatcherTree, (∀ p ∈ t.hostPatterns, CaseSafe urlParse ctx.url p) →
      (evalTree urlParse ctx t.lowerHosts).matched = (evalTree urlParse ctx t).matched
  | .all of, h => by
    have hof := map_matched_lowerAll hurl of h
    simp only [MatcherTree.lowerHosts, evalTree, MatcherEval.matched, all_matched, hof,
      isEmpty_matched]
  | .any of, h => by
    have hof := map_matched_lowerAll hurl of h
    simp only [MatcherTree.lowerHosts, evalTree, MatcherEval.matched, any_matched, hof]
  | .not of, h => by
    show (!(evalTree urlParse ctx of.lowerHosts).matched) = !(evalTree urlParse ctx of).matched
    rw [matched_lowerHosts hurl of h]
  | .urlHost p, h => ((matchHost_lower_iff hurl p).mpr (h p List.mem_cons_self)).symm
  | .always, _ | .urlPath _, _ | .sourceApp _ _, _ | .sourceBrowser _, _ | .sourceProfile _, _ => rfl

theorem map_matched_lowerAll {ctx : RoutingContext} (hurl : LowerHost urlParse ctx.url) :
    ∀ ts : List MatcherTree, (∀ p ∈ MatcherTree.hostPatternsAll ts, CaseSafe urlParse ctx.url p) →
      (evalTrees urlParse ctx (MatcherTree.lowerAll ts)).map MatcherEval.matched =
        (evalTrees urlParse ctx ts).map MatcherEval.matched
  | [], _ => rfl
  | t :: ts, h => by
    have ht := matched_lowerHosts hurl t fun p hp => h p (List.mem_append_left _ hp)
    have hts := map_matched_lowerAll hurl ts fun p hp => h p (List.mem_append_right _ hp)
    simp only [MatcherTree.lowerAll, evalTrees, List.map_cons, ht, hts]

end

variable {doc : ConfigDocument} {ctx : RoutingContext}

theorem fires_lowerHosts (hurl : LowerHost urlParse ctx.url) {r : Rule}
    (h : ∀ p ∈ r.when.hostPatterns, CaseSafe urlParse ctx.url p) :
    fires urlParse doc.lowerHosts ctx r.lowerHosts = fires urlParse doc ctx r :=
  congrArg (eligible doc r && ·) (matched_lowerHosts hurl r.when h)

/-- The loop decides alike on both spellings. -/
theorem evaluateRules_lowerHosts (hurl : LowerHost urlParse ctx.url) (pressed : Bool)
    {rules : List Rule} (h : ∀ r ∈ rules, ∀ p ∈ r.when.hostPatterns, CaseSafe urlParse ctx.url p)
    {skipped skipped' : Option Explained}
    (hskipped : skipped'.map Explained.decision = skipped.map Explained.decision) :
    (evaluateRules urlParse doc.lowerHosts ctx pressed (rules.map Rule.lowerHosts) skipped').decision =
      (evaluateRules urlParse doc ctx pressed rules skipped).decision := by
  induction rules generalizing skipped skipped' with
  | nil =>
    cases skipped with
    | none =>
      rw [Option.map_none, Option.map_eq_none_iff] at hskipped
      subst hskipped
      rfl
    | some e =>
      obtain ⟨e', rfl, hdecision⟩ := Option.map_eq_some_iff.mp hskipped
      rw [List.map_nil, evaluateRules, evaluateRules, hdecision]
      split
      · rfl
      · exact hdecision
  | cons r rules ih =>
    obtain ⟨hr, hrules⟩ := List.forall_mem_cons.mp h
    have hsome : skipped'.isSome = skipped.isSome := by
      rw [← Option.isSome_map (f := Explained.decision), hskipped, Option.isSome_map]
    rw [List.map_cons, evaluateRules_cons, evaluateRules_cons, fires_lowerHosts hurl hr, hsome]
    split
    · show Explained.decision (if pressed && r.action.isAsk then _ else _) = _
      split
      · refine ih hrules ?_
        cases skipped with
        | none =>
          rw [Option.map_none, Option.map_eq_none_iff] at hskipped
          subst hskipped
          rfl
        | some e =>
          obtain ⟨e', rfl, hdecision⟩ := Option.map_eq_some_iff.mp hskipped
          exact congrArg some hdecision
      · split <;> rfl
    · exact ih hrules hskipped

/-- **Host rules and capital letters.** -/
theorem host_case {url : String} (hurl : LowerHost urlParse url) :
    (∀ pattern, matchHost urlParse pattern url =
        matchHost urlParse (toAsciiLowercase pattern) url ↔ CaseSafe urlParse url pattern) ∧
      ∀ (doc : ConfigDocument) (ctx : RoutingContext) (pressed : Bool), ctx.url = url →
        (∀ r ∈ doc.rules, ∀ p ∈ r.when.hostPatterns, CaseSafe urlParse url p) →
        (evaluateExplainedWithAskShortcut urlParse doc.lowerHosts ctx pressed).decision =
          (evaluateExplainedWithAskShortcut urlParse doc ctx pressed).decision := by
  refine ⟨matchHost_lower_iff hurl, ?_⟩
  rintro doc ctx pressed rfl h
  unfold evaluateExplainedWithAskShortcut
  show Explained.decision (if !doc.settings.smartRoutingEnabled then _ else _) = _
  split
  · rfl
  · exact evaluateRules_lowerHosts hurl pressed h rfl

end Case

/-- A parser that knows one URL. -/
def gitHubParse : String → Option Url := fun _ => some ⟨some "github.com", "/"⟩

theorem lowerHost_gitHub : LowerHost gitHubParse "https://github.com/" := by
  intro parsed host hparse hhost
  cases hparse
  cases hhost
  decide

def hostRule (pattern : String) : Rule :=
  ⟨0, true, .urlHost pattern, .block, .gui, none, none⟩

def gitHubContext : RoutingContext :=
  ⟨"https://github.com/", ⟨.system, none, none, none, none⟩, none, none⟩

/-- One rule, and Arc for the rest. -/
def hostDocument (pattern : String) : ConfigDocument :=
  { ConfigDocument.withDefault (BrowserTarget.new "arc") with rules := [hostRule pattern] }

theorem host_case_gitHub :
    matchHost gitHubParse "github.*" "https://github.com/" =
        matchHost gitHubParse (toAsciiLowercase "github.*") "https://github.com/" ∧
      (evaluateExplainedWithAskShortcut gitHubParse (hostDocument "GitLab.com").lowerHosts
          gitHubContext false).decision =
        (evaluateExplainedWithAskShortcut gitHubParse (hostDocument "GitLab.com") gitHubContext
          false).decision := by
  obtain ⟨hmatch, hevaluate⟩ := host_case lowerHost_gitHub
  refine ⟨(hmatch _).mpr (.inl (by decide)), hevaluate _ _ _ rfl fun r hr p hp => ?_⟩
  cases List.mem_singleton.mp hr
  cases List.mem_singleton.mp hp
  refine .inr fun parsed host hparse hhost hnames => ?_
  cases hparse
  cases hhost
  exact absurd ((globChars_iff_names _ _).mpr hnames) (by decide)

/-- `GitHub.com` in a rule. -/
theorem not_host_case :
    matchHost gitHubParse "GitHub.com" "https://github.com/" ≠
        matchHost gitHubParse (toAsciiLowercase "GitHub.com") "https://github.com/" ∧
      evaluate gitHubParse (hostDocument "GitHub.com").lowerHosts gitHubContext ≠
        evaluate gitHubParse (hostDocument "GitHub.com") gitHubContext := by
  decide

end LinkPilot
