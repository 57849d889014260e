import Mathlib.Data.List.DropRight
import Mathlib.Data.List.Induction

/-!
# Two readings of a URL

The generic syntax of RFC 3986, as a grammar, and the URL parser of the WHATWG standard for `https`,
as a function. Both cut the path into segments and resolve the dot segments; they differ in what
cuts the authority and the path, in what counts as a dot segment, and in what is dropped from the
text before.

Principal results:

* `serialize_append_prefix_iff` — the text of a path begins with the text of other segments and a
  slash exactly when its segments begin with these and there are more.
* `resolve_prefix` — segments at the front of one resolved path are at the front of the other.
* `clean_reads` — without backslashes, tabs and newlines before the query, the WHATWG parser cuts
  the text where the grammar cuts it.
* `parse_reads` — on such a text without percent-encoded dots, what the parser says of the host and
  of the front of the path holds in the grammar's reading.
-/

set_option autoImplicit false

namespace UrlGrammar

abbrev Text := List Char

/-- A condition on all characters of a text, checked character by character. -/
theorem forall_of_all {p : Char → Prop} [DecidablePred p] {cs : Text}
    (h : cs.all (fun c => decide (p c)) = true) : ∀ c ∈ cs, p c := by
  simpa using h

/-! ## Segments -/

/-- The text cut at the separators: the segments before the last one, and the last one. -/
def segments (sep : Char → Bool) : Text → List Text × Text
  | [] => ([], [])
  | c :: cs =>
    match segments sep cs with
    | ([], last) => if sep c then ([[]], last) else ([], c :: last)
    | (seg :: segs, last) =>
      if sep c then ([] :: seg :: segs, last) else ((c :: seg) :: segs, last)

section Segments

variable {sep : Char → Bool}

theorem segments_concat (cs : Text) (c : Char) :
    segments sep (cs ++ [c]) =
      if sep c then ((segments sep cs).1 ++ [(segments sep cs).2], [])
      else ((segments sep cs).1, (segments sep cs).2 ++ [c]) := by
  induction cs with
  | nil => cases hc : sep c <;> simp [segments, hc]
  | cons d cs ih =>
    rw [List.cons_append, segments, ih]
    cases hcs : segments sep cs with
    | mk inits last =>
      cases hc : sep c <;> cases hd : sep d <;> cases inits <;> simp [segments, hcs, hd]

theorem segments_congr {sep' : Char → Bool} :
    ∀ {cs : Text}, (∀ c ∈ cs, sep c = sep' c) → segments sep cs = segments sep' cs
  | [], _ => rfl
  | c :: cs, h => by
    have htail := segments_congr fun d hd => h d (List.mem_cons_of_mem c hd)
    simp only [segments, htail, h c List.mem_cons_self]

/-- Dropping characters that are no separators from the end shortens the last segment. -/
theorem segments_rdropWhile {blank : Char → Bool} (h : ∀ c, blank c = true → sep c = false)
    (cs : Text) :
    segments sep (cs.rdropWhile blank) =
      ((segments sep cs).1, (segments sep cs).2.rdropWhile blank) := by
  induction cs using List.reverseRecOn with
  | nil => simp [segments]
  | append_singleton cs c ih =>
    rw [segments_concat]
    by_cases hc : blank c = true
    · rw [List.rdropWhile_concat_pos _ _ _ hc, ih]
      simp [h c hc, hc]
    · rw [List.rdropWhile_concat_neg _ _ _ hc, segments_concat]
      cases sep c <;> simp [hc]

theorem sep_of_mem_segments {seg : Text} {c : Char} (hc : c ∈ seg) :
    ∀ {cs : Text}, seg ∈ (segments sep cs).1 ++ [(segments sep cs).2] → sep c = false := by
  intro cs
  induction cs using List.reverseRecOn generalizing seg with
  | nil =>
    intro h
    simp [segments] at h
    simp [h] at hc
  | append_singleton cs d ih =>
    intro h
    rw [segments_concat] at h
    cases hd : sep d with
    | true =>
      simp only [hd, if_true, List.append_assoc] at h
      rw [← List.append_assoc, List.mem_append] at h
      rcases h with h | h
      · exact ih hc h
      · simp at h
        simp [h] at hc
    | false =>
      simp [hd] at h
      rcases h with h | h
      · exact ih hc (by simp [h])
      · rw [h, List.mem_append, List.mem_singleton] at hc
        rcases hc with hc | rfl
        · exact ih hc (by simp)
        · exact hd

end Segments

/-! ## Dot segments -/

inductive Dots where
  | plain
  | single
  | double
  deriving DecidableEq, Repr

section Resolve

variable (dots : Text → Dots)

/-- A segment with more behind it. -/
def push (kept : List Text) (seg : Text) : List Text :=
  match dots seg with
  | .plain => kept ++ [seg]
  | .single => kept
  | .double => kept.dropLast

/-- The last segment; a dot segment leaves an empty one. -/
def finish (kept : List Text) (last : Text) : List Text :=
  match dots last with
  | .plain => kept ++ [last]
  | .single => kept ++ [[]]
  | .double => kept.dropLast ++ [[]]

/-- The segments without the dot segments. -/
def resolve (path : List Text × Text) : List Text :=
  finish dots (path.1.foldl (push dots) []) path.2

variable {dots}

theorem mem_push {kept : List Text} {seg s : Text} (h : s ∈ push dots kept seg) :
    s ∈ kept ∨ s = seg := by
  unfold push at h
  split at h
  · simpa using h
  · exact .inl h
  · exact .inl (List.dropLast_subset kept h)

theorem mem_foldl_push :
    ∀ {inits kept : List Text} {s : Text}, s ∈ inits.foldl (push dots) kept → s ∈ kept ∨ s ∈ inits
  | [], _, _, h => .inl h
  | seg :: inits, kept, s, h => by
    have htail : s ∈ inits.foldl (push dots) (push dots kept seg) := h
    rcases mem_foldl_push htail with hpush | hinits
    · rcases mem_push hpush with hkept | rfl
      · exact .inl hkept
      · exact .inr List.mem_cons_self
    · exact .inr (List.mem_cons_of_mem _ hinits)

/-- Resolving makes no segment but an empty one. -/
theorem mem_resolve {path : List Text × Text} {s : Text} (h : s ∈ resolve dots path) :
    s ∈ path.1 ++ [path.2] ∨ s = [] := by
  have hfold : ∀ s ∈ path.1.foldl (push dots) [], s ∈ path.1 := by
    intro s hs
    simpa using mem_foldl_push hs
  unfold resolve finish at h
  split at h
  · rcases List.mem_append.mp h with hs | hs
    · exact .inl (List.mem_append_left _ (hfold s hs))
    · exact .inl (List.mem_append_right _ hs)
  · rcases List.mem_append.mp h with hs | hs
    · exact .inl (List.mem_append_left _ (hfold s hs))
    · exact .inr (List.mem_singleton.mp hs)
  · rcases List.mem_append.mp h with hs | hs
    · exact .inl (List.mem_append_left _ (hfold s (List.dropLast_subset _ hs)))
    · exact .inr (List.mem_singleton.mp hs)

theorem foldl_push_congr {dots' : Text → Dots} :
    ∀ {inits : List Text} (kept : List Text), (∀ seg ∈ inits, dots seg = dots' seg) →
      inits.foldl (push dots) kept = inits.foldl (push dots') kept
  | [], _, _ => rfl
  | seg :: inits, kept, h => by
    have hseg : push dots kept seg = push dots' kept seg := by
      simp only [push, h seg List.mem_cons_self]
    simp only [List.foldl_cons, hseg]
    exact foldl_push_congr _ fun s hs => h s (List.mem_cons_of_mem _ hs)

variable (dots) in
/-- What the last segment leaves of the segments before it. -/
def leave (kept : List Text) (last : Text) : List Text :=
  if dots last = .double then kept.dropLast else kept

variable (dots) in
theorem finish_eq (kept : List Text) (last : Text) :
    ∃ s, finish dots kept last = leave dots kept last ++ [s] := by
  unfold finish leave
  cases dots last with
  | plain => exact ⟨last, rfl⟩
  | single => exact ⟨[], rfl⟩
  | double => exact ⟨[], rfl⟩

theorem prefix_of_lt_concat {qs xs : List Text} {x : Text} (h : qs <+: xs ++ [x])
    (hlength : qs.length < (xs ++ [x]).length) : qs <+: xs := by
  rcases List.prefix_concat_iff.mp h with rfl | h
  · omega
  · exact h

/-- Segments at the front of one resolved path, with more behind them, are at the front of another
one if the two paths agree up to the last segment and the other one goes up no further there. -/
theorem resolve_prefix {dots' : Text → Dots} {inits qs : List Text} {last last' : Text}
    (hinits : ∀ seg ∈ inits, dots seg = dots' seg)
    (hlast : dots' last' = .double → dots last = .double)
    (hqs : qs <+: resolve dots (inits, last))
    (hlength : qs.length < (resolve dots (inits, last)).length) :
    qs <+: resolve dots' (inits, last') ∧ qs.length < (resolve dots' (inits, last')).length := by
  obtain ⟨s, hs⟩ := finish_eq dots (inits.foldl (push dots) []) last
  obtain ⟨s', hs'⟩ := finish_eq dots' (inits.foldl (push dots') []) last'
  simp only [resolve] at hqs hlength ⊢
  rw [hs] at hqs hlength
  rw [hs', ← foldl_push_congr [] hinits]
  have hkept := prefix_of_lt_concat hqs hlength
  have hleave : leave dots (inits.foldl (push dots) []) last <+:
      leave dots' (inits.foldl (push dots) []) last' := by
    unfold leave
    by_cases hdouble : dots' last' = .double
    · simp [hdouble, hlast hdouble]
    · rw [if_neg hdouble]
      split
      · exact List.dropLast_prefix _
      · exact List.prefix_refl _
  have hfront := hkept.trans hleave
  refine ⟨hfront.trans (List.prefix_append _ _), ?_⟩
  have hle := hfront.length_le
  simp
  omega

end Resolve

/-! ## The text of a path -/

/-- The segments, with a slash before each. -/
def serialize (segs : List Text) : Text := segs.flatMap ('/' :: ·)

theorem slash_or_nil (segs : List Text) :
    serialize segs = [] ∨ ∃ rest, serialize segs = '/' :: rest := by
  cases segs with
  | nil => exact .inl rfl
  | cons seg segs => exact .inr ⟨seg ++ serialize segs, by simp [serialize]⟩

/-- Two texts that are cut by slashes begin with the same segment. -/
theorem cut_prefix_iff (rest : Text) {rest' : Text} (hrest' : rest' = [] ∨ ∃ r, rest' = '/' :: r) :
    ∀ {q seg : Text}, '/' ∉ q → '/' ∉ seg →
      (q ++ '/' :: rest <+: seg ++ rest' ↔ q = seg ∧ '/' :: rest <+: rest')
  | [], [], _, _ => by simp
  | [], d :: seg, _, hs => by
    have hd : ¬ '/' = d := by
      rintro rfl
      simp at hs
    simp [List.cons_prefix_cons, hd]
  | c :: q, [], hq, _ => by
    rcases hrest' with rfl | ⟨r, rfl⟩
    · simp
    · have hc : ¬ c = '/' := by
        rintro rfl
        simp at hq
      simp [List.cons_prefix_cons, hc]
  | c :: q, d :: seg, hq, hs => by
    simp only [List.mem_cons, not_or] at hq hs
    have ih := cut_prefix_iff rest hrest' hq.2 hs.2
    simp [List.cons_prefix_cons, ih, and_assoc]

/-- A path text begins with that of `qs` and a slash exactly when its segments begin with `qs` and
there are more. -/
theorem serialize_append_prefix_iff :
    ∀ {qs segs : List Text}, (∀ q ∈ qs, '/' ∉ q) → (∀ seg ∈ segs, '/' ∉ seg) →
      (serialize qs ++ ['/'] <+: serialize segs ↔ qs <+: segs ∧ qs.length < segs.length)
  | [], [], _, _ => by simp [serialize]
  | [], seg :: segs, _, _ => by simp [serialize]
  | q :: qs, [], _, _ => by simp [serialize]
  | q :: qs, seg :: segs, hq, hs => by
    have ih := serialize_append_prefix_iff (fun q' hq' => hq q' (List.mem_cons_of_mem _ hq'))
      fun s hs' => hs s (List.mem_cons_of_mem _ hs')
    obtain ⟨rest, hrest⟩ : ∃ rest, serialize qs ++ ['/'] = '/' :: rest := by
      rcases slash_or_nil qs with h | ⟨rest, h⟩
      · exact ⟨[], by rw [h]; rfl⟩
      · exact ⟨rest ++ ['/'], by rw [h]; rfl⟩
    have hcut := cut_prefix_iff rest (slash_or_nil segs) (hq q List.mem_cons_self)
      (hs seg List.mem_cons_self)
    rw [← hrest, ih] at hcut
    have hqtext : serialize (q :: qs) ++ ['/'] = '/' :: (q ++ (serialize qs ++ ['/'])) := by
      simp [serialize]
    have hstext : serialize (seg :: segs) = '/' :: (seg ++ serialize segs) := by
      simp [serialize]
    rw [hqtext, hstext, List.cons_prefix_cons, hcut]
    simp [List.cons_prefix_cons, and_assoc]

/-! ## RFC 3986 -/

def isSchemeChar (c : Char) : Bool := c.isAlphanum || c == '+' || c == '-' || c == '.'

/-- A letter, and then letters, digits, `+`, `-` and `.`. -/
def IsScheme (scheme : Text) : Prop :=
  (∃ c cs, scheme = c :: cs ∧ c.isAlpha = true) ∧ ∀ c ∈ scheme, isSchemeChar c = true

/-- Nothing, or a query or fragment. -/
def QueryOrEnd (rest : Text) : Prop := rest = [] ∨ ∃ c r, rest = c :: r ∧ (c = '?' ∨ c = '#')

/-- `raw` is a URI with an authority: the authority ends at the first `/`, `?` or `#`, and the path
at the first `?` or `#`. -/
structure Rfc3986 (raw scheme authority path : Text) : Prop where
  split : ∃ rest, raw = scheme ++ ':' :: '/' :: '/' :: (authority ++ (path ++ rest)) ∧ QueryOrEnd rest
  isScheme : IsScheme scheme
  authorityChars : ∀ c ∈ authority, c ≠ '/' ∧ c ≠ '?' ∧ c ≠ '#'
  isPath : path = [] ∨ ∃ p, path = '/' :: p
  pathChars : ∀ c ∈ path, c ≠ '?' ∧ c ≠ '#'

/-- What is behind the last `@`. -/
def afterUserinfo (authority : Text) : Text := authority.rtakeWhile (· != '@')

/-- Up to the colon before the port; a colon in brackets is part of the host. -/
def takeHost : Bool → Text → Text
  | _, [] => []
  | bracketed, c :: cs =>
    if c = ':' ∧ bracketed = false then []
    else c :: takeHost (c == '[' || (bracketed && c != ']')) cs

/-- The host of an authority. -/
def hostOf (authority : Text) : Text := takeHost false (afterUserinfo authority)

/-- Dot segments of RFC 3986. -/
def literalDots (seg : Text) : Dots :=
  if seg = ['.'] then .single else if seg = ['.', '.'] then .double else .plain

/-- The path with its dot segments removed. -/
def removeDotSegments (path : Text) : Text :=
  serialize (resolve literalDots (segments (· == '/') (path.drop 1)))

/-! ## The WHATWG parser -/

/-- A C0 control or a space. -/
def isBlank (c : Char) : Bool := c ≤ ' '

def isTabOrNewline (c : Char) : Bool := c == '\t' || c == '\n' || c == '\r'

def clean (input : Text) : Text :=
  ((input.dropWhile isBlank).rdropWhile isBlank).filter (!isTabOrNewline ·)

/-- A backslash is a slash in the special schemes. -/
def isSlash (c : Char) : Bool := c == '/' || c == '\\'

def endsAuthority (c : Char) : Bool := isSlash c || c == '?' || c == '#'

def startsQuery (c : Char) : Bool := c == '?' || c == '#'

/-- Dot segments of the WHATWG standard: a dot may be percent-encoded. -/
def encodedDots (seg : Text) : Dots :=
  let lower := seg.map Char.toLower
  if lower ∈ [".", "%2e"].map String.toList then .single
  else if lower ∈ ["..", ".%2e", "%2e.", "%2e%2e"].map String.toList then .double
  else .plain

/-- The path percent-encode set. -/
def inPathSet (c : Char) : Bool :=
  c < ' ' || '~' < c || c ∈ [' ', '"', '#', '<', '>', '?', '^', '`', '{', '}']

/-- A character of a path segment in the output. -/
def encodeChar (c : Char) : Text :=
  if inPathSet c then
    (String.utf8EncodeChar c).flatMap fun b =>
      ['%', (b.toNat / 16).digitChar.toUpper, (b.toNat % 16).digitChar.toUpper]
  else [c]

def validPort : Text → Bool
  | ':' :: digits =>
    digits.all Char.isDigit && digits.foldl (fun n c => 10 * n + (c.toNat - 48)) 0 ≤ 65535
  | port => port.isEmpty

/-- Host and path of an `https` URL, for a given host parser. -/
def parseHttps (hostParser : Text → Option Text) (input : Text) : Option (Text × Text) :=
  let s := clean input
  let scheme := s.takeWhile isSchemeChar
  match s.dropWhile isSchemeChar with
  | ':' :: rest =>
    if scheme.map Char.toLower = "https".toList then
      let body := rest.dropWhile isSlash
      let authority := body.takeWhile (!endsAuthority ·)
      let path := (body.dropWhile (!endsAuthority ·)).takeWhile (!startsQuery ·)
      let hostPort := afterUserinfo authority
      let host := takeHost false hostPort
      if host.isEmpty || !validPort (hostPort.drop host.length) then none
      else
        (hostParser host).map fun domain =>
          (domain, serialize ((resolve encodedDots (segments isSlash (path.drop 1))).map
            (List.flatMap encodeChar)))
    else none
  | _ => none

/-! ## Where the parser cuts -/

theorem cut_at {q : Char → Bool} {xs ys : Text} (hx : ∀ c ∈ xs, q c = true)
    (hy : ys = [] ∨ ∃ c r, ys = c :: r ∧ q c = false) :
    (xs ++ ys).takeWhile q = xs ∧ (xs ++ ys).dropWhile q = ys := by
  rw [List.takeWhile_append_of_pos hx, List.dropWhile_append_of_pos hx]
  rcases hy with rfl | ⟨c, r, rfl, hc⟩
  · simp
  · simp [hc]

theorem QueryOrEnd.stops {rest : Text} (h : QueryOrEnd rest) {q : Char → Bool}
    (hquery : q '?' = false) (hfragment : q '#' = false) :
    rest = [] ∨ ∃ c r, rest = c :: r ∧ q c = false := by
  rcases h with h | ⟨c, r, h, rfl | rfl⟩
  · exact .inl h
  · exact .inr ⟨_, r, h, hquery⟩
  · exact .inr ⟨_, r, h, hfragment⟩

theorem QueryOrEnd.path_stops {path rest : Text} (h : QueryOrEnd rest)
    (hpath : path = [] ∨ ∃ p, path = '/' :: p) {q : Char → Bool} (hslash : q '/' = false)
    (hquery : q '?' = false) (hfragment : q '#' = false) :
    path ++ rest = [] ∨ ∃ c r, path ++ rest = c :: r ∧ q c = false := by
  rcases hpath with rfl | ⟨p, rfl⟩
  · exact h.stops hquery hfragment
  · exact .inr ⟨'/', p ++ rest, rfl, hslash⟩

/-- The scheme ends at the first colon. -/
theorem cut_scheme {scheme : Text} (h : IsScheme scheme) (tail : Text) :
    (scheme ++ ':' :: tail).takeWhile isSchemeChar = scheme ∧
      (scheme ++ ':' :: tail).dropWhile isSchemeChar = ':' :: tail :=
  cut_at h.2 (.inr ⟨':', tail, rfl, rfl⟩)

/-- The grammar cuts a text in one way. -/
theorem Rfc3986.unique {raw scheme authority path : Text} (h : Rfc3986 raw scheme authority path) :
    scheme = raw.takeWhile isSchemeChar ∧
      authority = ((raw.dropWhile isSchemeChar).drop 3).takeWhile
        (fun c => c != '/' && !startsQuery c) ∧
      path = (((raw.dropWhile isSchemeChar).drop 3).dropWhile
        (fun c => c != '/' && !startsQuery c)).takeWhile (!startsQuery ·) := by
  obtain ⟨rest, hraw, hrest⟩ := h.split
  obtain ⟨htake, hdrop⟩ := cut_scheme h.isScheme ('/' :: '/' :: (authority ++ (path ++ rest)))
  have hauthorityChars : ∀ c ∈ authority, (c != '/' && !startsQuery c) = true := by
    intro c hc
    simp [startsQuery, h.authorityChars c hc]
  have hpathChars : ∀ c ∈ path, (!startsQuery c) = true := by
    intro c hc
    simp [startsQuery, h.pathChars c hc]
  obtain ⟨hauthority, hafter⟩ := cut_at hauthorityChars (hrest.path_stops h.isPath rfl rfl rfl)
  obtain ⟨hpath, -⟩ := cut_at hpathChars (hrest.stops rfl rfl)
  rw [hraw, htake, hdrop]
  simp only [List.drop_succ_cons, List.drop_zero, hauthority, hafter, hpath, and_self]

/-- A cleaned text in the three parts that the grammar has behind `scheme://`. -/
structure CleanParts (authority path rest : Text) : Prop where
  authorityChars : ∀ c ∈ authority, endsAuthority c = false
  isPath : path = [] ∨ ∃ p, path = '/' :: p
  pathChars : ∀ c ∈ path, startsQuery c = false
  isRest : QueryOrEnd rest
  noSlash : authority ≠ [] ∨ path = []

theorem CleanParts.cut {authority path rest : Text} (h : CleanParts authority path rest) :
    ('/' :: '/' :: (authority ++ (path ++ rest))).dropWhile isSlash = authority ++ (path ++ rest) ∧
      (authority ++ (path ++ rest)).takeWhile (!endsAuthority ·) = authority ∧
      ((authority ++ (path ++ rest)).dropWhile (!endsAuthority ·)).takeWhile (!startsQuery ·) =
        path := by
  have hauthorityChars : ∀ c ∈ authority, (!endsAuthority c) = true := by
    intro c hc
    simp [h.authorityChars c hc]
  have hpathChars : ∀ c ∈ path, (!startsQuery c) = true := by
    intro c hc
    simp [h.pathChars c hc]
  obtain ⟨hauthority, hafter⟩ := cut_at hauthorityChars (h.isRest.path_stops h.isPath rfl rfl rfl)
  obtain ⟨hpath, -⟩ := cut_at hpathChars (h.isRest.stops rfl rfl)
  refine ⟨?_, hauthority, by rw [hafter, hpath]⟩
  have hslash : isSlash '/' = true := rfl
  rw [List.dropWhile_cons_of_pos hslash, List.dropWhile_cons_of_pos hslash]
  rcases hcases : authority with _ | ⟨c, cs⟩
  · have hempty := h.noSlash.resolve_left (not_not_intro hcases)
    rcases h.isRest with hrest | ⟨c, r, hrest, hc⟩
    · simp [hempty, hrest]
    · rcases hc with rfl | rfl <;> simp [hempty, hrest, isSlash]
  · have hc : isSlash c = false := by
      have hends := h.authorityChars c (by simp [hcases])
      simp [endsAuthority] at hends
      exact hends.1.1
    simp [hc]

/-! ## Cleaning -/

theorem rdropWhile_append_cons {blank : Char → Bool} {c : Char} (hc : blank c = false)
    (xs ys : Text) : (xs ++ c :: ys).rdropWhile blank = xs ++ c :: ys.rdropWhile blank := by
  induction ys using List.reverseRecOn with
  | nil =>
    simp only [List.rdropWhile_nil]
    exact List.rdropWhile_concat_neg _ _ _ (by simp [hc])
  | append_singleton ys d ih =>
    have hassoc : xs ++ c :: (ys ++ [d]) = (xs ++ c :: ys) ++ [d] := by simp
    rw [hassoc]
    by_cases hd : blank d = true
    · rw [List.rdropWhile_concat_pos _ _ _ hd, List.rdropWhile_concat_pos _ _ _ hd, ih]
    · rw [List.rdropWhile_concat_neg _ _ _ hd, List.rdropWhile_concat_neg _ _ _ hd, hassoc]

theorem isBlank_of_isAlpha {c : Char} (h : c.isAlpha = true) : isBlank c = false := by
  have hletter : c.isUpper = true ∨ c.isLower = true := by
    have hor : (c.isUpper || c.isLower) = true := h
    simpa using hor
  have hge : ' '.val < c.val := by
    rcases hletter with h | h
    · have hupper : 65 ≤ c.val ∧ c.val ≤ 90 := of_decide_eq_true h
      exact Nat.lt_of_lt_of_le (by decide) hupper.1
    · have hlower : (decide (97 ≤ c.val) && decide (c.val ≤ 122)) = true := h
      rw [Bool.and_eq_true, decide_eq_true_eq] at hlower
      exact Nat.lt_of_lt_of_le (by decide) hlower.1
  exact decide_eq_false fun hle => absurd hle (Char.not_le.mpr hge)

theorem not_tab_of_isSchemeChar {c : Char} (h : isSchemeChar c = true) :
    isTabOrNewline c = false := by
  by_contra htab
  simp only [isTabOrNewline, Bool.not_eq_false, Bool.or_eq_true, beq_iff_eq] at htab
  rcases htab with (rfl | rfl) | rfl <;> exact absurd h (by decide)

theorem filter_not_tab {xs : Text} (h : ∀ c ∈ xs, isTabOrNewline c = false) :
    xs.filter (!isTabOrNewline ·) = xs :=
  List.filter_eq_self.mpr fun c hc => by simp [h c hc]

/-- A text with a scheme keeps everything up to a character that is not blank. -/
theorem clean_scheme {scheme tail : Text} (h : IsScheme scheme) :
    clean (scheme ++ ':' :: '/' :: '/' :: tail) =
      scheme ++ ':' :: '/' :: '/' :: (tail.rdropWhile isBlank).filter (!isTabOrNewline ·) := by
  obtain ⟨⟨c, cs, rfl, hc⟩, hchars⟩ := h
  have hlead : (c :: cs ++ ':' :: '/' :: '/' :: tail).dropWhile isBlank =
      (c :: cs ++ [':', '/']) ++ '/' :: tail := by
    rw [List.cons_append, List.dropWhile_cons_of_neg (by simp [isBlank_of_isAlpha hc])]
    simp
  have hslash : isBlank '/' = false := rfl
  have hscheme := filter_not_tab fun d hd => not_tab_of_isSchemeChar (hchars d hd)
  unfold clean
  rw [hlead, rdropWhile_append_cons hslash, List.filter_append, List.filter_append, hscheme]
  simp [isTabOrNewline]

/-- Cleaning leaves the authority of a straight text as it is, and the path up to blanks at the end
of the text. -/
theorem clean_reads {raw scheme authority path : Text} (h : Rfc3986 raw scheme authority path)
    (hchars : ∀ c ∈ authority ++ path, c ≠ '\\' ∧ isTabOrNewline c = false)
    (hne : authority ≠ []) :
    ∃ authority' path' rest,
      clean raw = scheme ++ ':' :: '/' :: '/' :: (authority' ++ (path' ++ rest)) ∧
      CleanParts authority' path' rest ∧
      ((path = [] ∧ path' = []) ∨
        (authority' = authority ∧ ∃ p, path = '/' :: p ∧
          (path' = '/' :: p ∨ path' = '/' :: p.rdropWhile isBlank))) := by
  obtain ⟨rest, hraw, hrest⟩ := h.split
  have hauthority : ∀ c ∈ authority, endsAuthority c = false := by
    intro c hc
    have hends := h.authorityChars c hc
    have hback := (hchars c (List.mem_append_left _ hc)).1
    simp [endsAuthority, isSlash, hends, hback]
  have hpath : ∀ c ∈ path, startsQuery c = false := by
    intro c hc
    have hends := h.pathChars c hc
    simp [startsQuery, hends]
  have htabs : ∀ xs : Text, (∀ c ∈ xs, c ∈ authority ++ path) →
      xs.filter (!isTabOrNewline ·) = xs := fun xs hxs =>
    filter_not_tab fun c hc => (hchars c (hxs c hc)).2
  rw [hraw, clean_scheme h.isScheme]
  rcases hrest with rfl | ⟨c, r, rfl, hc⟩
  · rcases h.isPath with rfl | ⟨p, rfl⟩
    · -- nothing behind the authority
      have hsub : ∀ c ∈ authority.rdropWhile isBlank, c ∈ authority :=
        fun c hc => (List.rdropWhile_prefix isBlank authority).subset hc
      refine ⟨authority.rdropWhile isBlank, [], [], ?_, ?_, .inl ⟨rfl, rfl⟩⟩
      · simp [htabs _ fun c hc => List.mem_append_left _ (hsub c hc)]
      · exact ⟨fun c hc => hauthority c (hsub c hc), .inl rfl, by simp, .inl rfl, .inr rfl⟩
    · have hsub : ∀ c ∈ '/' :: p.rdropWhile isBlank, c ∈ '/' :: p := by
        intro c hc
        rcases List.mem_cons.mp hc with rfl | hc
        · exact List.mem_cons_self
        · exact List.mem_cons_of_mem _ ((List.rdropWhile_prefix isBlank p).subset hc)
      have hslash : isBlank '/' = false := rfl
      refine ⟨authority, '/' :: p.rdropWhile isBlank, [], ?_, ?_, .inr ⟨rfl, p, rfl, .inr rfl⟩⟩
      · rw [List.append_nil, rdropWhile_append_cons hslash, List.append_nil]
        rw [htabs]
        intro c hc
        rcases List.mem_append.mp hc with hc | hc
        · exact List.mem_append_left _ hc
        · exact List.mem_append_right _ (hsub c hc)
      · exact ⟨hauthority, .inr ⟨_, rfl⟩, fun c hc => hpath c (hsub c hc), .inl rfl, .inl hne⟩
  · have hblank : isBlank c = false := by rcases hc with rfl | rfl <;> rfl
    have htab : isTabOrNewline c = false := by rcases hc with rfl | rfl <;> rfl
    have hclean : ((authority ++ (path ++ c :: r)).rdropWhile isBlank).filter (!isTabOrNewline ·) =
        authority ++ (path ++ c :: (r.rdropWhile isBlank).filter (!isTabOrNewline ·)) := by
      rw [← List.append_assoc, rdropWhile_append_cons hblank, List.filter_append,
        htabs _ fun c hc => hc, List.filter_cons_of_pos (by simp [htab]), List.append_assoc]
    refine ⟨authority, path, c :: (r.rdropWhile isBlank).filter (!isTabOrNewline ·),
      by rw [hclean], ⟨hauthority, h.isPath, hpath, .inr ⟨c, _, rfl, hc⟩, .inl hne⟩, ?_⟩
    rcases h.isPath with rfl | ⟨p, rfl⟩
    · exact .inl ⟨rfl, rfl⟩
    · exact .inr ⟨rfl, p, rfl, .inl rfl⟩

/-! ## Where the readings agree -/

/-- The path that the parser makes of a path text. -/
def parsedPath (path : Text) : Text :=
  serialize ((resolve encodedDots (segments isSlash (path.drop 1))).map (List.flatMap encodeChar))

/-- Of a text in its parts, the parser takes the host from the authority. -/
theorem parseHttps_parts {hostParser : Text → Option Text} {input scheme authority path rest : Text}
    {domain text : Text} (hscheme : IsScheme scheme) (hparts : CleanParts authority path rest)
    (hclean : clean input = scheme ++ ':' :: '/' :: '/' :: (authority ++ (path ++ rest)))
    (h : parseHttps hostParser input = some (domain, text)) :
    hostParser (hostOf authority) = some domain ∧ text = parsedPath path := by
  obtain ⟨htake, hdrop⟩ := cut_scheme hscheme ('/' :: '/' :: (authority ++ (path ++ rest)))
  obtain ⟨hbody, hauthority, hpath⟩ := hparts.cut
  unfold parseHttps at h
  simp only [hclean, htake, hdrop, hbody, hauthority, hpath] at h
  split at h
  · split at h
    · cases h
    · rw [Option.map_eq_some_iff] at h
      obtain ⟨d, hd, heq⟩ := h
      cases heq
      exact ⟨hd, rfl⟩
  · cases h

theorem percent_or_self (c : Char) : encodeChar c = [c] ∨ '%' ∈ encodeChar c := by
  unfold encodeChar
  split
  · right
    obtain ⟨b, bs, hbytes⟩ := List.exists_cons_of_ne_nil (String.utf8EncodeChar_ne_nil (c := c))
    simp [hbytes]
  · exact .inl rfl

/-- A segment that is encoded without a percent sign is what it was. -/
theorem eq_of_encode {q : Text} (hq : '%' ∉ q) :
    ∀ {seg : Text}, seg.flatMap encodeChar = q → seg = q := by
  intro seg
  induction seg generalizing q with
  | nil => simp
  | cons c cs ih =>
    intro h
    rw [List.flatMap_cons] at h
    rcases percent_or_self c with hc | hc
    · subst h
      rw [hc] at hq ⊢
      have htail : '%' ∉ cs.flatMap encodeChar := fun hmem => hq (List.mem_append_right _ hmem)
      rw [List.singleton_append, ← ih htail rfl]
    · exact absurd (h ▸ List.mem_append_left _ hc) hq

theorem hexDigit_ne_slash {n : Nat} (h : n < 16) : (n.digitChar).toUpper ≠ '/' := by
  have hall : ∀ m : Fin 16, (m.val.digitChar).toUpper ≠ '/' := by decide
  exact hall ⟨n, h⟩

theorem slash_of_encodeChar {c : Char} (h : '/' ∈ encodeChar c) : c = '/' := by
  unfold encodeChar at h
  split at h
  · rw [List.mem_flatMap] at h
    obtain ⟨b, -, hb⟩ := h
    have hlt : b.toNat < 256 := b.toNat_lt
    simp only [List.mem_cons, List.not_mem_nil, or_false] at hb
    rcases hb with hb | hb | hb
    · cases hb
    · exact absurd hb.symm (hexDigit_ne_slash (by omega))
    · exact absurd hb.symm (hexDigit_ne_slash (by omega))
  · simpa [eq_comm] using h

theorem prefix_of_map {qs segs : List Text} {f : Text → Text}
    (hf : ∀ q ∈ qs, ∀ seg, f seg = q → seg = q) (h : qs <+: segs.map f) : qs <+: segs := by
  induction qs generalizing segs with
  | nil => exact List.nil_prefix
  | cons q qs ih =>
    cases segs with
    | nil => simp at h
    | cons seg segs =>
      rw [List.map_cons, List.cons_prefix_cons] at h
      rw [List.cons_prefix_cons]
      exact ⟨(hf q List.mem_cons_self seg h.1.symm).symm,
        ih (fun q' hq' => hf q' (List.mem_cons_of_mem _ hq')) h.2⟩

/-- Letters, hyphens and dots only. -/
def PlainHost (host : Text) : Prop := ∀ c ∈ host, c.isAlpha = true ∨ c = '-' ∨ c = '.'

/-- A host parser that puts plain hosts into lower case, where it takes them. -/
def KeepsPlainHosts (hostParser : Text → Option Text) : Prop :=
  ∀ host domain, PlainHost host → hostParser host = some domain → domain = host.map Char.toLower

/-- Nothing in the authority and the path is read differently by the two: no backslash, tab or
newline, and no percent-encoded dot segment before the last segment. -/
structure Straight (authority path : Text) : Prop where
  chars : ∀ c ∈ authority ++ path, c ≠ '\\' ∧ isTabOrNewline c = false
  dots : ∀ seg ∈ (segments (· == '/') (path.drop 1)).1, encodedDots seg = literalDots seg

section Agree

variable {qs : List Text}

theorem mem_resolve_noSlash {dots : Text → Dots} {p : Text} {seg : Text}
    (h : seg ∈ resolve dots (segments (· == '/') p)) : '/' ∉ seg := by
  intro hslash
  rcases mem_resolve h with hseg | rfl
  · have hsep := sep_of_mem_segments hslash hseg
    simp at hsep
  · simp at hslash

/-- A backslash-free path is cut alike by both, up to blanks at its end. -/
theorem segments_isSlash {p p' : Text} (hchars : ∀ c ∈ p, c ≠ '\\')
    (hp' : p' = p ∨ p' = p.rdropWhile isBlank) :
    ∃ last, segments isSlash p' = ((segments (· == '/') p).1, last) ∧
      (literalDots (segments (· == '/') p).2 = .double → encodedDots last = .double) := by
  have hcut : ∀ cs : Text, (∀ c ∈ cs, c ∈ p) → segments isSlash cs = segments (· == '/') cs :=
    fun cs hcs => segments_congr fun c hc => by simp [isSlash, hchars c (hcs c hc)]
  have hdouble : ∀ seg : Text, literalDots seg = .double → seg = ['.', '.'] := by
    intro seg h
    unfold literalDots at h
    split at h
    · cases h
    · split at h
      · assumption
      · cases h
  rcases hp' with rfl | rfl
  · refine ⟨(segments (· == '/') p').2, hcut p' fun c hc => hc, fun h => ?_⟩
    rw [hdouble _ h]
    decide
  · have hblank : ∀ c, isBlank c = true → (c == '/') = false := by
      intro c hc
      by_contra hslash
      simp at hslash
      subst hslash
      exact absurd hc (by decide)
    refine ⟨(segments (· == '/') p).2.rdropWhile isBlank, ?_, fun h => ?_⟩
    · rw [hcut _ fun c hc => (List.rdropWhile_prefix isBlank p).subset hc,
        segments_rdropWhile hblank]
    · rw [hdouble _ h]
      decide

/-- What the parsed path of a straight text begins with, the literal one begins with. -/
theorem removeDotSegments_prefix {p p' : Text} (hslash : ∀ q ∈ qs, '/' ∉ q)
    (hpercent : ∀ q ∈ qs, '%' ∉ q) (hchars : ∀ c ∈ p, c ≠ '\\')
    (hdots : ∀ seg ∈ (segments (· == '/') p).1, encodedDots seg = literalDots seg)
    (hp' : p' = p ∨ p' = p.rdropWhile isBlank)
    (h : serialize qs ++ ['/'] <+: parsedPath ('/' :: p')) :
    serialize qs ++ ['/'] <+: removeDotSegments ('/' :: p) := by
  obtain ⟨last, hsegs, hdouble⟩ := segments_isSlash hchars hp'
  have hencoded : ∀ seg ∈ (resolve encodedDots (segments isSlash p')).map (List.flatMap encodeChar),
      '/' ∉ seg := by
    intro seg hseg hmem
    obtain ⟨raw, hraw, rfl⟩ := List.mem_map.mp hseg
    obtain ⟨c, hc, hslash⟩ := List.mem_flatMap.mp hmem
    rw [slash_of_encodeChar hslash] at hc
    rcases mem_resolve hraw with hraw | rfl
    · have hsep := sep_of_mem_segments hc hraw
      exact absurd hsep (by decide)
    · simp at hc
  simp only [parsedPath, List.drop_one, List.tail_cons] at h
  obtain ⟨hfront, hlength⟩ := (serialize_append_prefix_iff hslash hencoded).mp h
  rw [List.length_map] at hlength
  have hplain := prefix_of_map (fun q hq seg => eq_of_encode (hpercent q hq)) hfront
  rw [hsegs] at hplain hlength
  obtain ⟨hliteral, hmore⟩ := resolve_prefix hdots hdouble hplain hlength
  simp only [removeDotSegments, List.drop_one, List.tail_cons]
  exact (serialize_append_prefix_iff hslash fun seg hseg => mem_resolve_noSlash hseg).mpr
    ⟨hliteral, hmore⟩

/-- **Agreement.** A straight text with a plain host that the parser takes as an `https` URL is read
by the grammar with the same host, up to case, and its path begins with every plain prefix that the
parsed path begins with. -/
theorem parse_reads {hostParser : Text → Option Text} {raw scheme authority path domain text : Text}
    (hhost : KeepsPlainHosts hostParser) (hreads : Rfc3986 raw scheme authority path)
    (hne : hostOf authority ≠ []) (hplain : PlainHost (hostOf authority))
    (hstraight : Straight authority path) (hparse : parseHttps hostParser raw = some (domain, text))
    (hqs : qs ≠ []) (hslash : ∀ q ∈ qs, '/' ∉ q) (hpercent : ∀ q ∈ qs, '%' ∉ q)
    (hstarts : serialize qs ++ ['/'] <+: text) :
    (hostOf authority).map Char.toLower = domain ∧
      serialize qs ++ ['/'] <+: removeDotSegments path := by
  have hauthority : authority ≠ [] := by
    rintro rfl
    exact hne rfl
  obtain ⟨authority', path', rest, hclean, hparts, hcases⟩ :=
    clean_reads hreads hstraight.chars hauthority
  obtain ⟨hdomain, rfl⟩ := parseHttps_parts hreads.isScheme hparts hclean hparse
  rcases hcases with ⟨rfl, rfl⟩ | ⟨rfl, p, rfl, hpath'⟩
  · -- the parsed path is a slash
    have hroot : parsedPath [] = serialize [[]] := rfl
    have hnil : ∀ seg ∈ ([[]] : List Text), '/' ∉ seg := by simp
    rw [hroot, serialize_append_prefix_iff hslash hnil] at hstarts
    have hzero : qs.length = 0 := by simpa using hstarts.2
    exact absurd (List.length_eq_zero_iff.mp hzero) hqs
  · refine ⟨(hhost _ _ hplain hdomain).symm, ?_⟩
    obtain ⟨p', rfl⟩ : ∃ p', path' = '/' :: p' := by
      rcases hpath' with rfl | rfl <;> exact ⟨_, rfl⟩
    have hp' : p' = p ∨ p' = p.rdropWhile isBlank := by simpa using hpath'
    refine removeDotSegments_prefix hslash hpercent ?_ hstraight.dots hp' hstarts
    exact fun c hc => (hstraight.chars c (List.mem_append_right _ (List.mem_cons_of_mem _ hc))).1

end Agree

end UrlGrammar
