import LinkPilot.Lib.JsonText
import LinkPilot.Lib.Lines

/-!
# JSON texts line by line

What a reader of JSON texts makes of a text that goes on behind the point where another was cut off,
and how UTF-8 is cut at a byte that is a character of its own.

* `fromUtf8_append_cons` — bytes are a text iff they are on both sides of such a byte.
* `Seam.cut` — what is read in front of a seam is read without what is behind it.
* `tokensOf_append_blank`, `tokensOf_append_object` — white space and objects are seams.
* `not_mem_render` — a text is one line.
-/

set_option autoImplicit false

namespace Serde

namespace Json

/-! ## UTF-8 -/

theorem toUtf8_append (xs ys : List Char) : toUtf8 (xs ++ ys) = toUtf8 xs ++ toUtf8 ys :=
  List.flatMap_append

theorem fromUtf8_eq_some_iff {bytes : List UInt8} {cs : List Char} :
    fromUtf8 bytes = some cs ↔ bytes = toUtf8 cs := by
  constructor
  · intro h
    unfold fromUtf8 String.fromUTF8? at h
    split at h
    · rename_i hvalid
      have hcs : (String.fromUTF8 bytes.toByteArray hvalid).toList = cs := Option.some.inj h
      have hbytes : bytes.toByteArray = cs.utf8Encode := by
        rw [← String.toByteArray_ofList, ← hcs, String.ofList_toList]
        rfl
      have hlist := congrArg (fun b => b.data.toList) hbytes
      simpa [List.utf8Encode, toUtf8] using hlist
    · cases h
  · rintro rfl
    exact fromUtf8_toUtf8 cs

theorem encode_of_small {c : Char} (h : c.toNat < 0x80) :
    String.utf8EncodeChar c = [.ofNat c.toNat] :=
  if_pos (Nat.lt_succ_iff.mp h)

theorem encode_of_large {c : Char} (h : ¬ c.toNat < 0x80) :
    ∀ y ∈ String.utf8EncodeChar c, 0x80 ≤ y.toNat := by
  have hne : ¬ c.val.toNat ≤ 0x7f := fun hle => h (Nat.lt_succ_of_le hle)
  unfold String.utf8EncodeChar
  rw [if_neg hne]
  repeat' split
  all_goals
    simp only [List.forall_mem_cons, List.not_mem_nil, false_imp_iff, implies_true,
      UInt8.toNat_ofNat', and_true]
    omega

/-- A byte below `0x80` is a character of its own: the text is cut there. -/
theorem toUtf8_eq_append_cons {cs : List Char} {a b : List UInt8} {x : UInt8}
    (hx : x.toNat < 0x80) (h : toUtf8 cs = a ++ x :: b) :
    ∃ ca cb, cs = ca ++ .ofNat x.toNat :: cb ∧ a = toUtf8 ca ∧ b = toUtf8 cb := by
  induction cs generalizing a with
  | nil =>
    have hnil : a ++ x :: b = [] := h.symm
    exact absurd (List.append_eq_nil_iff.mp hnil).2 (List.cons_ne_nil _ _)
  | cons c cs ih =>
    have hcons : String.utf8EncodeChar c ++ toUtf8 cs = a ++ x :: b := h
    rcases List.append_eq_append_iff.mp hcons with ⟨mid, ha, hrest⟩ | ⟨mid, henc, hrest⟩
    · -- the byte is behind the first character
      obtain ⟨ca, cb, rfl, rfl, rfl⟩ := ih hrest
      exact ⟨c :: ca, cb, rfl, ha, rfl⟩
    · cases mid with
      | nil =>
        obtain ⟨ca, cb, rfl, hca, rfl⟩ := ih (a := []) hrest.symm
        refine ⟨c :: ca, cb, rfl, ?_, rfl⟩
        rw [List.append_nil] at henc
        show a = String.utf8EncodeChar c ++ toUtf8 ca
        rw [← hca, List.append_nil, henc]
      | cons y mid =>
        obtain ⟨rfl, rfl⟩ := List.cons.inj hrest
        by_cases hc : c.toNat < 0x80
        · rw [encode_of_small hc] at henc
          obtain ⟨rfl, hmid⟩ := List.append_eq_singleton_iff.mp henc.symm |>.resolve_right
            (fun hbad => by cases hbad.2)
          cases hmid
          have hc' : c = .ofNat (UInt8.ofNat c.toNat).toNat := by
            rw [UInt8.toNat_ofNat', Nat.mod_eq_of_lt (Nat.lt_trans hc (by decide)), Char.ofNat_toNat]
          exact ⟨[], cs, by rw [← hc']; rfl, rfl, rfl⟩
        · have hmem : x ∈ String.utf8EncodeChar c := by
            rw [henc]
            exact List.mem_append_right _ List.mem_cons_self
          exact absurd (encode_of_large hc x hmem) (Nat.not_le.mpr hx)

theorem fromUtf8_append_cons {a b : List UInt8} {x : UInt8} (hx : x.toNat < 0x80) :
    fromUtf8 (a ++ x :: b) =
      (fromUtf8 a).bind fun ca => (fromUtf8 b).map fun cb => ca ++ .ofNat x.toNat :: cb := by
  have hencode : toUtf8 [.ofNat x.toNat] = [x] := by
    have hvalid : x.toNat.isValidChar := .inl (Nat.lt_trans hx (by decide))
    have hchar : (Char.ofNat x.toNat).toNat = x.toNat := by
      unfold Char.ofNat
      rw [dif_pos hvalid]
      rfl
    have hsmall : (Char.ofNat x.toNat).toNat < 0x80 := by
      rw [hchar]
      exact hx
    show String.utf8EncodeChar _ ++ [] = _
    rw [List.append_nil, encode_of_small hsmall, hchar, UInt8.ofNat_toNat]
  refine Option.ext fun cs => ?_
  simp only [Option.bind_eq_some_iff, Option.map_eq_some_iff, fromUtf8_eq_some_iff]
  constructor
  · intro h
    obtain ⟨ca, cb, rfl, rfl, rfl⟩ := toUtf8_eq_append_cons hx h.symm
    exact ⟨ca, rfl, cb, rfl, rfl⟩
  · rintro ⟨ca, rfl, cb, rfl, rfl⟩
    rw [toUtf8_append, ← @List.singleton_append _ (Char.ofNat x.toNat), toUtf8_append, hencode]
    rfl

/-- Bytes with a text behind them that starts with a byte of its own. -/
theorem fromUtf8_append_text (a : List UInt8) {c : Char} (hc : c.toNat < 0x80) (cs : List Char) :
    fromUtf8 (a ++ toUtf8 (c :: cs)) = (fromUtf8 a).map fun ca => ca ++ c :: cs := by
  have hbyte : (UInt8.ofNat c.toNat).toNat = c.toNat := by
    rw [UInt8.toNat_ofNat', Nat.mod_eq_of_lt (Nat.lt_trans hc (by decide))]
  have hchar : Char.ofNat (UInt8.ofNat c.toNat).toNat = c := by
    rw [hbyte, Char.ofNat_toNat]
  have htext : toUtf8 (c :: cs) = UInt8.ofNat c.toNat :: toUtf8 cs := by
    show String.utf8EncodeChar c ++ toUtf8 cs = _
    rw [encode_of_small hc]
    rfl
  rw [htext, fromUtf8_append_cons (by rw [hbyte]; exact hc), fromUtf8_toUtf8, hchar]
  cases fromUtf8 a <;> rfl

/-! ## Where a text goes on -/

/-- A beginning that shares no character with the tail's head lies in front of the tail. -/
theorem cut_append {xs tail front cs : List Char} (h : xs ++ tail = front ++ cs)
    (hfront : ∀ c ∈ front, tail.head? ≠ some c) : ∃ r, xs = front ++ r ∧ cs = r ++ tail := by
  rcases List.append_eq_append_iff.mp h with ⟨mid, rfl, htail⟩ | ⟨mid, rfl, rfl⟩
  · cases mid with
    | nil => exact ⟨[], by rw [List.append_nil, List.append_nil], htail.symm⟩
    | cons c mid =>
      have hc : c ∈ xs ++ c :: mid := List.mem_append_right _ List.mem_cons_self
      rw [htail] at hfront
      exact absurd rfl (hfront c hc)
  · exact ⟨mid, rfl, rfl⟩

/-- A character that does not open a tail. -/
def Inner (c : Char) : Prop := isWhitespace c = false ∧ c ≠ '{'

instance (c : Char) : Decidable (Inner c) := inferInstanceAs (Decidable (_ ∧ _))

theorem inner_of_all {word : List Char} (h : word.all (fun c => decide (Inner c)) = true) :
    ∀ c ∈ word, Inner c := fun c hc => of_decide_eq_true (List.all_eq_true.mp h c hc)

/-- A tail starts with white space or with an object. -/
def Opens (tail : List Char) : Prop := ∀ c, tail.head? = some c → ¬ Inner c

theorem Opens.cut {xs tail front cs : List Char} (htail : Opens tail)
    (h : xs ++ tail = front ++ cs) (hfront : ∀ c ∈ front, Inner c) :
    ∃ r, xs = front ++ r ∧ cs = r ++ tail :=
  cut_append h fun c hc hhead => htail c hhead (hfront c hc)

theorem inner_of_hexDigit {c : Char} {n : Nat} (h : hexDigit c = some n) : Inner c := by
  refine ⟨isWhitespace_eq_false (p := fun c => hexDigit c ≠ none) (by decide) (by simp [h]), ?_⟩
  rintro rfl
  cases h

theorem inner_of_unescape {c e : Char} (h : unescape e = some c) : Inner e := by
  refine ⟨isWhitespace_eq_false (p := fun e => unescape e ≠ none) (by decide) (by simp [h]), ?_⟩
  rintro rfl
  cases h

theorem inner_of_hex4 {a b c d : Char} {n : Nat} (h : hex4 a b c d = some n) :
    ∀ x ∈ [a, b, c, d], Inner x := by
  unfold hex4 at h
  simp only [Option.bind_eq_bind, Option.bind_eq_some_iff] at h
  obtain ⟨na, ha, nb, hb, nc, hc, nd, hd, -⟩ := h
  simp only [List.mem_cons, List.not_mem_nil, or_false]
  rintro x (rfl | rfl | rfl | rfl)
  exacts [inner_of_hexDigit ha, inner_of_hexDigit hb, inner_of_hexDigit hc, inner_of_hexDigit hd]

/-- A character of a string as it is written: `c` and `more` are read as `x`. -/
structure Token (c : Char) (more : List Char) (x : Char) : Prop where
  inner : ∀ y ∈ more, Inner y
  read : ∀ cs, string? (c :: (more ++ cs)) = push x (string? cs)

theorem token_plain {c : Char} (hquote : c ≠ '"') (hslash : c ≠ '\\') (hcontrol : ¬ c.toNat < 0x20) :
    Token c [] c where
  inner _ hy := (List.not_mem_nil hy).elim
  read cs := by
    rw [List.nil_append, string?.eq_def]
    simp only [if_neg hquote, if_neg hslash, if_neg hcontrol]

theorem token_escape {e x : Char} (hx : unescape e = some x) : Token '\\' [e] x where
  inner y hy := by
    rw [List.mem_singleton.mp hy]
    exact inner_of_unescape hx
  read cs := by
    have hu : e ≠ 'u' := by
      rintro rfl
      cases hx
    simp only [List.cons_append, List.nil_append]
    rw [string?]
    · simp [hx]
    · exact fun _ _ _ _ _ he => absurd he hu

theorem token_unicode {a b c d : Char} {n : Nat} (hn : hex4 a b c d = some n)
    (hhigh : ¬ (0xD800 ≤ n ∧ n < 0xDC00)) (hlow : ¬ (0xDC00 ≤ n ∧ n < 0xE000)) :
    Token '\\' ['u', a, b, c, d] (.ofNat n) where
  inner y hy := by
    rcases List.mem_cons.mp hy with rfl | hy
    · decide
    · exact inner_of_hex4 hn y hy
  read cs := by
    simp only [List.cons_append, List.nil_append]
    rw [string?]
    simp only [hn, if_neg hhigh, if_neg hlow]
    rfl

theorem token_surrogates {a b c d a' b' c' d' : Char} {high low : Nat}
    (hhigh : hex4 a b c d = some high) (hlow : hex4 a' b' c' d' = some low)
    (hsurrogate : 0xD800 ≤ high ∧ high < 0xDC00) (hpair : 0xDC00 ≤ low ∧ low < 0xE000) :
    Token '\\' ['u', a, b, c, d, '\\', 'u', a', b', c', d']
      (.ofNat (0x10000 + 0x400 * (high - 0xD800) + (low - 0xDC00))) where
  inner y hy := by
    have hy : y = 'u' ∨ y ∈ [a, b, c, d] ∨ y = '\\' ∨ y = 'u' ∨ y ∈ [a', b', c', d'] := by
      simp only [List.mem_cons, List.not_mem_nil, or_false] at hy ⊢
      tauto
    rcases hy with rfl | hy | rfl | rfl | hy
    · decide
    · exact inner_of_hex4 hhigh y hy
    · decide
    · decide
    · exact inner_of_hex4 hlow y hy
  read cs := by
    simp only [List.cons_append, List.nil_append]
    rw [string?]
    simp only [hhigh, if_pos hsurrogate, hlow, if_pos hpair]
    rfl

/-- The escape behind a backslash. -/
theorem escape_token {cs : List Char} {r : List Char × List Char} (h : string? ('\\' :: cs) = some r) :
    ∃ more x ds, cs = more ++ ds ∧ Token '\\' more x := by
  unfold string? at h
  rw [if_neg (by decide), if_pos rfl] at h
  split at h
  · split at h
    · cases h
    · rename_i hhigh
      split at h
      · rename_i hsurrogate
        split at h
        · split at h
          · cases h
          · rename_i hlow
            split at h
            · rename_i hpair
              exact ⟨_, _, _, rfl, token_surrogates hhigh hlow hsurrogate hpair⟩
            · cases h
        · cases h
      · rename_i hsurrogate
        split at h
        · cases h
        · rename_i hlow
          exact ⟨_, _, _, rfl, token_unicode hhigh hsurrogate hlow⟩
  · split at h
    · cases h
    · rename_i hx
      exact ⟨_, _, _, rfl, token_escape hx⟩
  · cases h

/-- A string ends with a quote, or it goes on with a character. -/
theorem string?_token {c : Char} {cs : List Char} {r : List Char × List Char}
    (h : string? (c :: cs) = some r) :
    (c = '"' ∧ r = ([], cs)) ∨
      ∃ more x ds, cs = more ++ ds ∧ push x (string? ds) = some r ∧ Token c more x := by
  by_cases hquote : c = '"'
  · subst hquote
    rw [string?.eq_def] at h
    cases h
    exact .inl ⟨rfl, rfl⟩
  · refine .inr ?_
    have htoken : ∃ more x ds, cs = more ++ ds ∧ Token c more x := by
      by_cases hslash : c = '\\'
      · subst hslash
        exact escape_token h
      · refine ⟨[], c, cs, rfl, token_plain hquote hslash fun hcontrol => ?_⟩
        rw [string?.eq_def] at h
        simp only [if_neg hquote, if_neg hslash, if_pos hcontrol] at h
        cases h
    obtain ⟨more, x, ds, rfl, ht⟩ := htoken
    exact ⟨more, x, ds, rfl, (ht.read ds).symm.trans h, ht⟩

section Cut

variable {finite : String → Bool} {tail : List Char}

theorem push_eq_some_iff {c : Char} {o : Option (List Char × List Char)} {r : List Char × List Char} :
    push c o = some r ↔ ∃ s, o = some (s, r.2) ∧ r.1 = c :: s := by
  unfold push
  rw [Option.map_eq_some_iff]
  constructor
  · rintro ⟨⟨s, rest⟩, ho, rfl⟩
    exact ⟨s, ho, rfl⟩
  · rintro ⟨s, ho, hr⟩
    exact ⟨_, ho, by rw [← hr]⟩

/-- A string ends in front of the tail, or the tail goes on with it. -/
theorem string?_cut (htail : Opens tail) {xs s rest : List Char}
    (h : string? (xs ++ tail) = some (s, rest)) :
    (∃ r, rest = r ++ tail ∧ string? xs = some (s, r)) ∨ ∃ s', string? tail = some (s', rest) := by
  induction hn : xs.length using Nat.strong_induction_on generalizing xs s with
  | _ n ih =>
    cases xs with
    | nil => exact .inr ⟨s, h⟩
    | cons c xs =>
      rcases string?_token h with ⟨rfl, hr⟩ | ⟨more, x, ds, hmore, hpush, htoken⟩
      · cases hr
        exact .inl ⟨xs, rfl, by rw [string?.eq_def]; rfl⟩
      · obtain ⟨r, rfl, rfl⟩ := htail.cut hmore htoken.inner
        obtain ⟨s', hs', hcons⟩ := push_eq_some_iff.mp hpush
        have hlt : r.length < n := by
          rw [← hn, List.length_cons, List.length_append]
          omega
        refine (ih _ hlt hs' rfl).imp_left ?_
        rintro ⟨r', hr', hs'⟩
        exact ⟨r', hr', by rw [htoken.read]; exact push_eq_some_iff.mpr ⟨s', hs', hcons⟩⟩

/-- What a reader has read in front of the tail. -/
def before {α : Type} (tail : List Char) (r : α × List Char) : α × List Char := (r.1, r.2 ++ tail)

theorem span_cut {p : Char → Bool} (hp : ∀ c, tail.head? = some c → p c = false) (xs : List Char) :
    (xs ++ tail).takeWhile p = xs.takeWhile p ∧ (xs ++ tail).dropWhile p = xs.dropWhile p ++ tail := by
  induction xs with
  | nil =>
    cases tail with
    | nil => exact ⟨rfl, rfl⟩
    | cons c cs =>
      have hc := hp c rfl
      simp [hc]
  | cons c xs ih =>
    rw [List.cons_append, List.takeWhile_cons, List.takeWhile_cons, List.dropWhile_cons,
      List.dropWhile_cons, ih.1, ih.2]
    split
    · exact ⟨rfl, rfl⟩
    · exact ⟨rfl, rfl⟩

theorem Opens.not_isDigit (htail : Opens tail) (c : Char) (hc : tail.head? = some c) :
    c.isDigit = false := by
  cases hdigit : c.isDigit with
  | false => rfl
  | true =>
    refine absurd ⟨(starts_of_isDigit hdigit).1, ?_⟩ (htail c hc)
    rintro rfl
    cases hdigit

theorem Opens.head_ne (htail : Opens tail) {c : Char} (hc : Inner c) (cs : List Char) :
    tail ≠ c :: cs := by
  rintro rfl
  exact htail c rfl hc

theorem fraction_cut (htail : Opens tail) (xs : List Char) :
    fraction (xs ++ tail) = (fraction xs).map (before tail) := by
  cases xs with
  | nil =>
    have hpoint : ∀ cs, tail = '.' :: cs → False := fun cs => htail.head_ne (by decide) cs
    rw [List.nil_append]
    unfold fraction
    split
    · exact (hpoint _ rfl).elim
    · rfl
  | cons c xs =>
    by_cases hpoint : c = '.'
    · subst hpoint
      obtain ⟨htake, hdrop⟩ := span_cut htail.not_isDigit xs
      simp only [List.cons_append, fraction, htake, hdrop]
      split <;> rfl
    · have hread : ∀ ys, fraction (c :: ys) = some ([], c :: ys) := fun ys => by
        unfold fraction
        split
        · rename_i heq
          exact absurd (List.cons.inj heq).1 hpoint
        · rfl
      rw [List.cons_append, hread, hread]
      rfl

/-- The digits of an exponent behind its letter and sign. -/
def exponentDigits (e : Char) (sign cs : List Char) : Option (List Char × List Char) :=
  if cs.takeWhile Char.isDigit = [] then none
  else some (e :: sign ++ cs.takeWhile Char.isDigit, cs.dropWhile Char.isDigit)

theorem exponent_plus {e : Char} (he : e = 'e' ∨ e = 'E') (cs : List Char) :
    exponent (e :: '+' :: cs) = exponentDigits e ['+'] cs := by
  rw [exponent.eq_def]
  exact if_pos he

theorem exponent_minus {e : Char} (he : e = 'e' ∨ e = 'E') (cs : List Char) :
    exponent (e :: '-' :: cs) = exponentDigits e ['-'] cs := by
  rw [exponent.eq_def]
  exact if_pos he

theorem exponent_unsigned {e : Char} (he : e = 'e' ∨ e = 'E') {cs : List Char}
    (hplus : cs.head? ≠ some '+') (hminus : cs.head? ≠ some '-') :
    exponent (e :: cs) = exponentDigits e [] cs := by
  rw [exponent.eq_def]
  simp only [if_pos he]
  split
  · exact absurd rfl hplus
  · exact absurd rfl hminus
  · rfl

theorem exponentDigits_cut (htail : Opens tail) (e : Char) (sign xs : List Char) :
    exponentDigits e sign (xs ++ tail) = (exponentDigits e sign xs).map (before tail) := by
  obtain ⟨htake, hdrop⟩ := span_cut htail.not_isDigit xs
  unfold exponentDigits
  rw [htake, hdrop]
  split <;> rfl

theorem exponent_cut (htail : Opens tail) (xs : List Char) :
    exponent (xs ++ tail) = (exponent xs).map (before tail) := by
  have hletter : ∀ {e : Char} {cs : List Char}, ¬ (e = 'e' ∨ e = 'E') →
      exponent (e :: cs) = some ([], e :: cs) := fun he => by
    rw [exponent.eq_def]
    exact if_neg he
  cases xs with
  | nil =>
    cases tail with
    | nil => rfl
    | cons c cs =>
      have hc : ¬ (c = 'e' ∨ c = 'E') := by
        rintro (rfl | rfl) <;> exact htail _ rfl (by decide)
      exact hletter hc
  | cons e xs =>
    rw [List.cons_append]
    by_cases he : e = 'e' ∨ e = 'E'
    · by_cases hplus : (xs ++ tail).head? = some '+'
      · obtain ⟨ds, hds⟩ := List.head?_eq_some_iff.mp hplus
        obtain ⟨r, rfl, rfl⟩ := htail.cut (show xs ++ tail = ['+'] ++ ds from hds)
          (inner_of_all (by decide))
        exact (exponent_plus he _).trans
          ((exponentDigits_cut htail e _ r).trans (congrArg _ (exponent_plus he r).symm))
      · by_cases hminus : (xs ++ tail).head? = some '-'
        · obtain ⟨ds, hds⟩ := List.head?_eq_some_iff.mp hminus
          obtain ⟨r, rfl, rfl⟩ := htail.cut (show xs ++ tail = ['-'] ++ ds from hds)
            (inner_of_all (by decide))
          exact (exponent_minus he _).trans
            ((exponentDigits_cut htail e _ r).trans (congrArg _ (exponent_minus he r).symm))
        · have hxs : ∀ c, (xs ++ tail).head? ≠ some c → xs.head? ≠ some c := fun c hne hxs =>
            hne (by rw [List.head?_append, hxs]; rfl)
          rw [exponent_unsigned he hplus hminus, exponentDigits_cut htail,
            exponent_unsigned he (hxs _ hplus) (hxs _ hminus)]
    · rw [hletter he, hletter he]
      rfl

theorem magnitude?_cut (htail : Opens tail) (minus : Bool) (xs : List Char) :
    magnitude? finite minus (xs ++ tail) = (magnitude? finite minus xs).map (before tail) := by
  obtain ⟨htake, hdrop⟩ := span_cut htail.not_isDigit xs
  unfold magnitude?
  simp only [htake, hdrop]
  split
  · rfl
  · rw [fraction_cut htail]
    cases fraction (xs.dropWhile Char.isDigit) with
    | none => rfl
    | some frac =>
      obtain ⟨frac, cs⟩ := frac
      simp only [Option.map_some, before, Option.bind_eq_bind, Option.bind_some]
      rw [exponent_cut htail]
      cases exponent cs with
      | none => rfl
      | some exp =>
        obtain ⟨exp, cs⟩ := exp
        simp only [Option.map_some, before, Option.bind_some]
        cases numberOf finite minus (xs.takeWhile Char.isDigit) (frac ++ exp) <;> rfl

/-- A number ends in front of the tail. -/
theorem number?_cut (htail : Opens tail) (xs : List Char) :
    number? finite (xs ++ tail) = (number? finite xs).map (before tail) := by
  cases xs with
  | nil =>
    have hminus : ∀ cs, tail = '-' :: cs → False := fun cs => htail.head_ne (by decide) cs
    have hempty := @magnitude?_cut finite tail htail false []
    rw [List.nil_append] at hempty ⊢
    unfold number?
    split
    · exact (hminus _ rfl).elim
    · exact hempty
  | cons c xs =>
    by_cases hc : c = '-'
    · subst hc
      exact magnitude?_cut htail true xs
    · have hread : ∀ ys, number? finite (c :: ys) = magnitude? finite false (c :: ys) := fun ys => by
        unfold number?
        split
        · rename_i heq
          exact absurd (List.cons.inj heq).1 hc
        · rfl
      rw [List.cons_append, hread, hread]
      exact magnitude?_cut htail false (c :: xs)

/-! ## Values in front of a tail -/

/-- Nothing that is open can go on here. -/
def Stuck (rest : List Char) : Prop :=
  ∀ c ∈ [',', ':', ']', '}'], (rest.dropWhile isWhitespace).head? ≠ some c

/-- A tail that no open value can be finished with: white space, or an object behind which, and
behind whose first string, nothing goes on. -/
structure Seam (finite : String → Bool) (tail : List Char) : Prop where
  blank : tail.dropWhile isWhitespace = [] ∨ ∃ cs, tail = '{' :: cs
  string : ∀ s rest, string? tail = some (s, rest) → Stuck rest
  value : ∀ fuel j rest, value finite fuel tail = some (j, rest) → Stuck rest

theorem Seam.opens (h : Seam finite tail) : Opens tail := by
  intro c hc hinner
  obtain ⟨cs, rfl⟩ := List.head?_eq_some_iff.mp hc
  rcases h.blank with hblank | ⟨ds, hds⟩
  · rw [List.dropWhile_cons, hinner.1] at hblank
    cases hblank
  · exact hinner.2 (List.cons.inj hds).1

theorem dropWhile_append_blank {p : Char → Bool} {xs : List Char} (h : xs.dropWhile p = [])
    (tail : List Char) : (xs ++ tail).dropWhile p = tail.dropWhile p := by
  rw [List.dropWhile_append, h]
  rfl

theorem dropWhile_append_cons {p : Char → Bool} {xs ds : List Char} {c : Char}
    (h : xs.dropWhile p = c :: ds) (tail : List Char) :
    (xs ++ tail).dropWhile p = c :: (ds ++ tail) := by
  rw [List.dropWhile_append, h]
  rfl

/-- A character behind white space, if it is not the one the tail starts with. -/
theorem Seam.peek (h : Seam finite tail) {xs ds : List Char} {c : Char}
    (hc : (xs ++ tail).dropWhile isWhitespace = c :: ds) (hne : c ≠ '{') :
    ∃ r, xs.dropWhile isWhitespace = c :: r ∧ ds = r ++ tail := by
  cases hxs : xs.dropWhile isWhitespace with
  | nil =>
    rw [dropWhile_append_blank hxs] at hc
    rcases h.blank with hblank | ⟨es, rfl⟩
    · rw [hblank] at hc
      cases hc
    · cases hc
      exact absurd rfl hne
  | cons d r =>
    rw [dropWhile_append_cons hxs] at hc
    cases hc
    exact ⟨r, rfl, rfl⟩

/-- What a reader of a value can do in front of a seam: it ends there, or the tail goes on with a
string, or the tail is where the value starts. -/
def ValueCut (finite : String → Bool) (tail : List Char) (fuel : Nat) : Prop :=
  ∀ xs j rest, value finite fuel (xs ++ tail) = some (j, rest) →
    (∃ r, rest = r ++ tail ∧ value finite fuel xs = some (j, r)) ∨
      Stuck rest ∧ ((∃ s, string? tail = some (s, rest)) ∨
        xs.dropWhile isWhitespace = [] ∧ value finite fuel tail = some (j, rest))

def ElemsCut (finite : String → Bool) (tail : List Char) (fuel : Nat) : Prop :=
  ∀ xs js rest, elems finite fuel (xs ++ tail) = some (js, rest) →
    ∃ r, rest = r ++ tail ∧ elems finite fuel xs = some (js, r)

def EntriesCut (finite : String → Bool) (tail : List Char) (fuel : Nat) : Prop :=
  ∀ xs es rest, entries finite fuel (xs ++ tail) = some (es, rest) →
    ∃ r, rest = r ++ tail ∧ entries finite fuel xs = some (es, r)

theorem Stuck.ne {rest : List Char} (h : Stuck rest) {c : Char} (hc : c ∈ [',', ':', ']', '}'])
    (cs : List Char) : rest.dropWhile isWhitespace ≠ c :: cs := fun heq =>
  h c hc (congrArg List.head? heq)

/-- Behind a stuck value there is no further element, and no bracket. -/
theorem Seam.elemsCut (h : Seam finite tail) {fuel : Nat} (hvalue : ValueCut finite tail fuel)
    (helems : ElemsCut finite tail fuel) : ElemsCut finite tail (fuel + 1) := by
  intro xs js rest hread
  cases elems_succ_iff.mp hread with
  | last hj hclose =>
    rcases hvalue xs _ _ hj with ⟨r, rfl, hr⟩ | ⟨hstuck, -⟩
    · obtain ⟨r', hr', rfl⟩ := h.peek hclose (by decide)
      exact ⟨r', rfl, elems_succ_iff.mpr (.last hr hr')⟩
    · exact absurd hclose (hstuck.ne (by decide) _)
  | more hj hcomma hjs =>
    rcases hvalue xs _ _ hj with ⟨r, rfl, hr⟩ | ⟨hstuck, -⟩
    · obtain ⟨r', hr', rfl⟩ := h.peek hcomma (by decide)
      obtain ⟨r'', rfl, hr''⟩ := helems r' _ _ hjs
      exact ⟨r'', rfl, elems_succ_iff.mpr (.more hr hr' hr'')⟩
    · exact absurd hcomma (hstuck.ne (by decide) _)

theorem Seam.entryCut (h : Seam finite tail) {fuel : Nat} (hvalue : ValueCut finite tail fuel)
    {xs : List Char} {k : String} {j : Json} {rest : List Char}
    (hread : EntryStep finite fuel (xs ++ tail) k j rest) :
    (∃ r, rest = r ++ tail ∧ EntryStep finite fuel xs k j r) ∨ Stuck rest := by
  obtain ⟨hquote, hk, hcolon, hj⟩ := hread
  obtain ⟨r, hr, rfl⟩ := h.peek hquote (by decide)
  rcases string?_cut h.opens hk with ⟨r₁, rfl, hr₁⟩ | ⟨s, hs⟩
  · obtain ⟨r₂, hr₂, rfl⟩ := h.peek hcolon (by decide)
    rcases hvalue r₂ _ _ hj with ⟨r₃, rfl, hr₃⟩ | ⟨hstuck, -⟩
    · exact .inl ⟨r₃, rfl, hr, hr₁, hr₂, hr₃⟩
    · exact .inr hstuck
  · exact absurd hcolon ((h.string _ _ hs).ne (by decide) _)

theorem Seam.entriesCut (h : Seam finite tail) {fuel : Nat} (hvalue : ValueCut finite tail fuel)
    (hentries : EntriesCut finite tail fuel) : EntriesCut finite tail (fuel + 1) := by
  intro xs es rest hread
  cases entries_succ_iff.mp hread with
  | last he hclose =>
    rcases h.entryCut hvalue he with ⟨r, rfl, hr⟩ | hstuck
    · obtain ⟨r', hr', rfl⟩ := h.peek hclose (by decide)
      exact ⟨r', rfl, entries_succ_iff.mpr (.last hr hr')⟩
    · exact absurd hclose (hstuck.ne (by decide) _)
  | more he hcomma hes =>
    rcases h.entryCut hvalue he with ⟨r, rfl, hr⟩ | hstuck
    · obtain ⟨r', hr', rfl⟩ := h.peek hcomma (by decide)
      obtain ⟨r'', rfl, hr''⟩ := hentries r' _ _ hes
      exact ⟨r'', rfl, entries_succ_iff.mpr (.more hr hr' hr'')⟩
    · exact absurd hcomma (hstuck.ne (by decide) _)

theorem inner_of_word {text : List Char} {j : Json} (h : Word text j) : ∀ c ∈ text, Inner c := by
  cases h <;> exact inner_of_all (by decide)

/-- A value that starts in front of the tail. -/
theorem Seam.stepCut (h : Seam finite tail) {fuel : Nat} (helems : ElemsCut finite tail fuel)
    (hentries : EntriesCut finite tail fuel) {c : Char} {cs : List Char} {j : Json}
    {rest : List Char} (hread : ValueStep finite fuel (c :: (cs ++ tail)) j rest) :
    (∃ r, rest = r ++ tail ∧ ValueStep finite fuel (c :: cs) j r) ∨
      Stuck rest ∧ ∃ s, string? tail = some (s, rest) := by
  generalize hds : c :: (cs ++ tail) = ds at hread
  cases hread with
  | @word text _ hword rest =>
    have heq : (c :: cs) ++ tail = text ++ rest := hds
    obtain ⟨r, hr, rfl⟩ := h.opens.cut heq (inner_of_word hword)
    exact .inl ⟨r, rfl, hr ▸ .word hword r⟩
  | str hs =>
    cases hds
    rcases string?_cut h.opens hs with ⟨r, rfl, hr⟩ | ⟨s, hs'⟩
    · exact .inl ⟨r, rfl, .str hr⟩
    · exact .inr ⟨h.string _ _ hs', s, hs'⟩
  | emptyArr hclose =>
    cases hds
    obtain ⟨r, hr, rfl⟩ := h.peek hclose (by decide)
    exact .inl ⟨r, rfl, .emptyArr hr⟩
  | arr hjs =>
    cases hds
    obtain ⟨r, rfl, hr⟩ := helems cs _ _ hjs
    exact .inl ⟨r, rfl, .arr hr⟩
  | emptyObj hclose =>
    cases hds
    obtain ⟨r, hr, rfl⟩ := h.peek hclose (by decide)
    exact .inl ⟨r, rfl, .emptyObj hr⟩
  | obj hes =>
    cases hds
    obtain ⟨r, rfl, hr⟩ := hentries cs _ _ hes
    exact .inl ⟨r, rfl, .obj hr⟩
  | number hj =>
    cases hds
    have hcut := @number?_cut finite tail h.opens (c :: cs)
    rw [List.cons_append, hj] at hcut
    obtain ⟨⟨j', r⟩, hr, heq⟩ := Option.map_eq_some_iff.mp hcut.symm
    cases heq
    exact .inl ⟨r, rfl, .number hr⟩

theorem Seam.valueCut (h : Seam finite tail) {fuel : Nat} (helems : ElemsCut finite tail fuel)
    (hentries : EntriesCut finite tail fuel) : ValueCut finite tail (fuel + 1) := by
  intro xs j rest hread
  cases hxs : xs.dropWhile isWhitespace with
  | nil =>
    rw [← value_dropWhile, dropWhile_append_blank hxs, value_dropWhile] at hread
    exact .inr ⟨h.value _ _ _ hread, .inr ⟨rfl, hread⟩⟩
  | cons c cs =>
    have hstep := value_succ_iff.mp hread
    rw [dropWhile_append_cons hxs] at hstep
    rcases h.stepCut helems hentries hstep with ⟨r, rfl, hr⟩ | ⟨hstuck, hs⟩
    · exact .inl ⟨r, rfl, value_succ_iff.mpr (hxs ▸ hr)⟩
    · exact .inr ⟨hstuck, .inl hs⟩

/-- **Reading across a seam.** -/
theorem Seam.cut (h : Seam finite tail) (fuel : Nat) :
    ValueCut finite tail fuel ∧ ElemsCut finite tail fuel ∧ EntriesCut finite tail fuel := by
  induction fuel with
  | zero => exact ⟨nofun, nofun, nofun⟩
  | succ fuel ih =>
    obtain ⟨hvalue, helems, hentries⟩ := ih
    exact ⟨h.valueCut helems hentries, h.elemsCut hvalue helems, h.entriesCut hvalue hentries⟩

end Cut

/-! ## Fuel -/

theorem length_string? {cs s rest : List Char} (h : string? cs = some (s, rest)) :
    rest.length < cs.length := by
  induction hn : cs.length using Nat.strong_induction_on generalizing cs s with
  | _ n ih =>
    cases cs with
    | nil => cases h
    | cons c cs =>
      rw [List.length_cons] at hn
      rcases string?_token h with ⟨-, hr⟩ | ⟨more, x, ds, rfl, hpush, -⟩
      · cases hr
        omega
      · obtain ⟨s', hs', -⟩ := push_eq_some_iff.mp hpush
        rw [List.length_append] at hn
        have hlt := ih ds.length (by omega) hs' rfl
        omega

theorem length_fraction {cs digits rest : List Char} (h : fraction cs = some (digits, rest)) :
    rest.length ≤ cs.length := by
  unfold fraction at h
  split at h
  · rename_i cs
    simp only at h
    split at h
    · cases h
    · cases h
      have := List.length_dropWhile_le Char.isDigit cs
      rw [List.length_cons]
      omega
  · cases h
    exact Nat.le_refl _

theorem length_exponent {cs digits rest : List Char} (h : exponent cs = some (digits, rest)) :
    rest.length ≤ cs.length := by
  have hdigits : ∀ {e sign cs}, exponentDigits e sign cs = some (digits, rest) →
      rest.length ≤ cs.length := by
    intro e sign cs h
    unfold exponentDigits at h
    split at h
    · cases h
    · cases h
      exact List.length_dropWhile_le _ _
  cases cs with
  | nil =>
    cases h
    exact Nat.le_refl _
  | cons e cs =>
    by_cases he : e = 'e' ∨ e = 'E'
    · by_cases hplus : cs.head? = some '+'
      · obtain ⟨ds, rfl⟩ := List.head?_eq_some_iff.mp hplus
        rw [exponent_plus he] at h
        have := hdigits h
        simp only [List.length_cons]
        omega
      · by_cases hminus : cs.head? = some '-'
        · obtain ⟨ds, rfl⟩ := List.head?_eq_some_iff.mp hminus
          rw [exponent_minus he] at h
          have := hdigits h
          simp only [List.length_cons]
          omega
        · rw [exponent_unsigned he hplus hminus] at h
          have := hdigits h
          rw [List.length_cons]
          omega
    · rw [exponent.eq_def] at h
      simp only [if_neg he] at h
      cases h
      exact Nat.le_refl _

theorem length_number? {finite : String → Bool} {cs rest : List Char} {j : Json}
    (h : number? finite cs = some (j, rest)) : rest.length < cs.length := by
  have hmagnitude : ∀ {minus ds}, magnitude? finite minus ds = some (j, rest) →
      rest.length < ds.length := by
    intro minus ds h
    unfold magnitude? at h
    simp only at h
    split at h
    · cases h
    · rename_i hdigits
      simp only [Option.bind_eq_bind, Option.bind_eq_some_iff] at h
      obtain ⟨⟨frac, cs₁⟩, hfrac, ⟨exp, cs₂⟩, hexp, j', -, hr⟩ := h
      cases hr
      have hle₁ : cs₁.length ≤ (ds.dropWhile Char.isDigit).length := length_fraction hfrac
      have hle₂ : cs₂.length ≤ cs₁.length := length_exponent hexp
      have hsplit := congrArg List.length (List.takeWhile_append_dropWhile (p := Char.isDigit) (l := ds))
      rw [List.length_append] at hsplit
      have hpos : 0 < (ds.takeWhile Char.isDigit).length :=
        List.length_pos_iff.mpr fun hnil => hdigits (.inl hnil)
      show cs₂.length < ds.length
      omega
  unfold number? at h
  split at h
  · have := hmagnitude h
    rw [List.length_cons]
    omega
  · exact hmagnitude h

section Fuel

variable {finite : String → Bool}

/-- What was read took a character, and is read with two units of fuel for each. -/
def ValueFuel (finite : String → Bool) (n : Nat) : Prop :=
  ∀ cs j rest, value finite n cs = some (j, rest) → rest.length < cs.length ∧
    ∀ m, 2 * cs.length ≤ m + 2 * rest.length → value finite m cs = some (j, rest)

def ElemsFuel (finite : String → Bool) (n : Nat) : Prop :=
  ∀ cs js rest, elems finite n cs = some (js, rest) → rest.length < cs.length ∧
    ∀ m, 2 * cs.length + 1 ≤ m + 2 * rest.length → elems finite m cs = some (js, rest)

def EntriesFuel (finite : String → Bool) (n : Nat) : Prop :=
  ∀ cs es rest, entries finite n cs = some (es, rest) → rest.length < cs.length ∧
    ∀ m, 2 * cs.length + 1 ≤ m + 2 * rest.length → entries finite m cs = some (es, rest)

theorem length_of_dropWhile {p : Char → Bool} {cs ds : List Char} {c : Char}
    (h : cs.dropWhile p = c :: ds) : ds.length < cs.length := by
  have hle := List.length_dropWhile_le p cs
  rw [h, List.length_cons] at hle
  exact hle

theorem elemsFuel_succ {n : Nat} (hvalue : ValueFuel finite n) (helems : ElemsFuel finite n) :
    ElemsFuel finite (n + 1) := by
  intro cs js rest h
  cases elems_succ_iff.mp h with
  | last hj hclose =>
    obtain ⟨hlt, hread⟩ := hvalue cs _ _ hj
    have hrest := length_of_dropWhile hclose
    refine ⟨by omega, fun m hm => ?_⟩
    cases m with
    | zero => omega
    | succ m => exact elems_succ_iff.mpr (.last (hread m (by omega)) hclose)
  | more hj hcomma hjs =>
    obtain ⟨hlt, hread⟩ := hvalue cs _ _ hj
    have hes := length_of_dropWhile hcomma
    obtain ⟨hlt', hread'⟩ := helems _ _ _ hjs
    refine ⟨by omega, fun m hm => ?_⟩
    cases m with
    | zero => omega
    | succ m => exact elems_succ_iff.mpr (.more (hread m (by omega)) hcomma (hread' m (by omega)))

theorem entryFuel {n : Nat} (hvalue : ValueFuel finite n) {cs : List Char} {k : String} {j : Json}
    {rest : List Char} (h : EntryStep finite n cs k j rest) : rest.length < cs.length ∧
      ∀ m, 2 * cs.length ≤ m + 2 * rest.length → EntryStep finite m cs k j rest := by
  obtain ⟨hquote, hk, hcolon, hj⟩ := h
  have hds := length_of_dropWhile hquote
  have hfs := length_string? hk
  have hgs := length_of_dropWhile hcolon
  obtain ⟨hlt, hread⟩ := hvalue _ _ _ hj
  exact ⟨by omega, fun m hm => ⟨hquote, hk, hcolon, hread m (by omega)⟩⟩

theorem entriesFuel_succ {n : Nat} (hvalue : ValueFuel finite n)
    (hentries : EntriesFuel finite n) : EntriesFuel finite (n + 1) := by
  intro cs es rest h
  cases entries_succ_iff.mp h with
  | last he hclose =>
    obtain ⟨hlt, hread⟩ := entryFuel hvalue he
    have hrest := length_of_dropWhile hclose
    refine ⟨by omega, fun m hm => ?_⟩
    cases m with
    | zero => omega
    | succ m => exact entries_succ_iff.mpr (.last (hread m (by omega)) hclose)
  | more he hcomma hes =>
    obtain ⟨hlt, hread⟩ := entryFuel hvalue he
    have hfs := length_of_dropWhile hcomma
    obtain ⟨hlt', hread'⟩ := hentries _ _ _ hes
    refine ⟨by omega, fun m hm => ?_⟩
    cases m with
    | zero => omega
    | succ m =>
      exact entries_succ_iff.mpr (.more (hread m (by omega)) hcomma (hread' m (by omega)))

theorem stepFuel {n : Nat} (helems : ElemsFuel finite n) (hentries : EntriesFuel finite n)
    {cs : List Char} {j : Json} {rest : List Char} (h : ValueStep finite n cs j rest) :
    rest.length < cs.length ∧
      ∀ m, 2 * cs.length ≤ m + 1 + 2 * rest.length → ValueStep finite m cs j rest := by
  cases h with
  | @word text _ hword rest =>
    have hpos : 0 < text.length := by cases hword <;> decide
    refine ⟨?_, fun m _ => .word hword rest⟩
    rw [List.length_append]
    omega
  | str hs =>
    have hlt := length_string? hs
    exact ⟨Nat.lt_succ_of_lt hlt, fun m _ => .str hs⟩
  | emptyArr hclose =>
    exact ⟨Nat.lt_succ_of_lt (length_of_dropWhile hclose), fun m _ => .emptyArr hclose⟩
  | arr hjs =>
    obtain ⟨hlt, hread⟩ := helems _ _ _ hjs
    refine ⟨Nat.lt_succ_of_lt hlt, fun m hm => .arr (hread m ?_)⟩
    rw [List.length_cons] at hm
    omega
  | emptyObj hclose =>
    exact ⟨Nat.lt_succ_of_lt (length_of_dropWhile hclose), fun m _ => .emptyObj hclose⟩
  | obj hes =>
    obtain ⟨hlt, hread⟩ := hentries _ _ _ hes
    refine ⟨Nat.lt_succ_of_lt hlt, fun m hm => .obj (hread m ?_)⟩
    rw [List.length_cons] at hm
    omega
  | number hj => exact ⟨length_number? hj, fun m _ => .number hj⟩

theorem valueFuel_succ {n : Nat} (helems : ElemsFuel finite n) (hentries : EntriesFuel finite n) :
    ValueFuel finite (n + 1) := by
  intro cs j rest h
  obtain ⟨hlt, hread⟩ := stepFuel helems hentries (value_succ_iff.mp h)
  have hle := List.length_dropWhile_le isWhitespace cs
  refine ⟨by omega, fun m hm => ?_⟩
  cases m with
  | zero => omega
  | succ m => exact value_succ_iff.mpr (hread m (by omega))

/-- **The fuel is enough.** -/
theorem value_fuel (n : Nat) :
    ValueFuel finite n ∧ ElemsFuel finite n ∧ EntriesFuel finite n := by
  induction n with
  | zero => exact ⟨nofun, nofun, nofun⟩
  | succ n ih =>
    obtain ⟨hvalue, helems, hentries⟩ := ih
    exact ⟨valueFuel_succ helems hentries, elemsFuel_succ hvalue helems,
      entriesFuel_succ hvalue hentries⟩

/-- More fuel than enough reads nothing else. -/
theorem value_of_enough {cs : List Char} {m n : Nat} (hm : 2 * cs.length ≤ m)
    (hn : 2 * cs.length ≤ n) : value finite m cs = value finite n cs := by
  refine Option.ext fun r => ?_
  constructor
  · intro h
    exact ((value_fuel m).1 cs r.1 r.2 h).2 n (by omega)
  · intro h
    exact ((value_fuel n).1 cs r.1 r.2 h).2 m (by omega)

end Fuel

/-! ## Reading on -/

section Append

variable {finite : String → Bool} {tail : List Char}

theorem string?_append {cs s r : List Char} (h : string? cs = some (s, r)) (tail : List Char) :
    string? (cs ++ tail) = some (s, r ++ tail) := by
  induction hn : cs.length using Nat.strong_induction_on generalizing cs s with
  | _ n ih =>
    cases cs with
    | nil => cases h
    | cons c cs =>
      rw [List.length_cons] at hn
      rcases string?_token h with ⟨rfl, hr⟩ | ⟨more, x, ds, rfl, hpush, htoken⟩
      · cases hr
        rw [List.cons_append, string?.eq_def]
        rfl
      · obtain ⟨s', hs', hcons⟩ := push_eq_some_iff.mp hpush
        rw [List.length_append] at hn
        have hds := ih ds.length (by omega) hs' rfl
        rw [List.cons_append, List.append_assoc, htoken.read]
        exact push_eq_some_iff.mpr ⟨s', hds, hcons⟩

/-- What was read is read when the text goes on. -/
theorem ValueStep.append (htail : Opens tail) {fuel : Nat}
    (helems : ∀ cs js r, elems finite fuel cs = some (js, r) →
      elems finite fuel (cs ++ tail) = some (js, r ++ tail))
    (hentries : ∀ cs es r, entries finite fuel cs = some (es, r) →
      entries finite fuel (cs ++ tail) = some (es, r ++ tail))
    {cs : List Char} {j : Json} {r : List Char} (h : ValueStep finite fuel cs j r) :
    ValueStep finite fuel (cs ++ tail) j (r ++ tail) := by
  cases h with
  | word hword r =>
    rw [List.append_assoc]
    exact .word hword _
  | str hs => exact .str (string?_append hs tail)
  | emptyArr hclose => exact .emptyArr (dropWhile_append_cons hclose tail)
  | arr hjs => exact .arr (helems _ _ _ hjs)
  | emptyObj hclose => exact .emptyObj (dropWhile_append_cons hclose tail)
  | obj hes => exact .obj (hentries _ _ _ hes)
  | @number c ds _ _ hj =>
    have hcut := @number?_cut finite tail htail (c :: ds)
    rw [hj] at hcut
    exact .number hcut

theorem EntryStep.append {fuel : Nat}
    (hvalue : ∀ cs j r, value finite fuel cs = some (j, r) →
      value finite fuel (cs ++ tail) = some (j, r ++ tail))
    {cs : List Char} {k : String} {j : Json} {r : List Char} (h : EntryStep finite fuel cs k j r) :
    EntryStep finite fuel (cs ++ tail) k j (r ++ tail) := by
  obtain ⟨hquote, hk, hcolon, hj⟩ := h
  exact ⟨dropWhile_append_cons hquote tail, string?_append hk tail,
    dropWhile_append_cons hcolon tail, hvalue _ _ _ hj⟩

theorem value_append (htail : Opens tail) (fuel : Nat) :
    (∀ cs j r, value finite fuel cs = some (j, r) →
        value finite fuel (cs ++ tail) = some (j, r ++ tail)) ∧
      (∀ cs js r, elems finite fuel cs = some (js, r) →
        elems finite fuel (cs ++ tail) = some (js, r ++ tail)) ∧
      ∀ cs es r, entries finite fuel cs = some (es, r) →
        entries finite fuel (cs ++ tail) = some (es, r ++ tail) := by
  induction fuel with
  | zero => exact ⟨nofun, nofun, nofun⟩
  | succ fuel ih =>
    obtain ⟨hvalue, helems, hentries⟩ := ih
    refine ⟨fun cs j r h => ?_, fun cs js r h => ?_, fun cs es r h => ?_⟩
    · have hstep := value_succ_iff.mp h
      obtain ⟨c, ds, hcs, -⟩ := hstep.head
      rw [value_succ_iff, dropWhile_append_cons hcs, ← List.cons_append, ← hcs]
      exact hstep.append htail helems hentries
    · rcases elems_succ_iff.mp h with ⟨hj, hclose⟩ | ⟨hj, hcomma, hjs⟩
      · exact elems_succ_iff.mpr (.last (hvalue _ _ _ hj) (dropWhile_append_cons hclose tail))
      · exact elems_succ_iff.mpr
          (.more (hvalue _ _ _ hj) (dropWhile_append_cons hcomma tail) (helems _ _ _ hjs))
    · rcases entries_succ_iff.mp h with ⟨he, hclose⟩ | ⟨he, hcomma, hes⟩
      · exact entries_succ_iff.mpr (.last (he.append hvalue) (dropWhile_append_cons hclose tail))
      · exact entries_succ_iff.mpr
          (.more (he.append hvalue) (dropWhile_append_cons hcomma tail) (hentries _ _ _ hes))

end Append

/-! ## Seams -/

section Seams

variable {finite : String → Bool}

theorem string?_blank {ws : List Char} (h : ws.dropWhile isWhitespace = []) : string? ws = none := by
  induction ws with
  | nil => rfl
  | cons c ws ih =>
    rw [List.dropWhile_cons] at h
    split at h
    · rename_i hc
      have hquote : ¬ c = '"' := by
        rintro rfl
        cases hc
      have hslash : ¬ c = '\\' := by
        rintro rfl
        cases hc
      rw [string?.eq_def]
      simp only [if_neg hquote, if_neg hslash]
      split
      · rfl
      · rw [ih h]
        rfl
    · cases h

theorem value_blank {ws : List Char} (h : ws.dropWhile isWhitespace = []) (fuel : Nat) :
    value finite fuel ws = none := by
  rw [← value_dropWhile, h]
  cases fuel <;> rfl

/-- White space behind a text. -/
theorem seam_blank {ws : List Char} (h : ws.dropWhile isWhitespace = []) : Seam finite ws where
  blank := .inl h
  string s rest hs := by
    rw [string?_blank h] at hs
    cases hs
  value fuel j rest hj := by
    rw [value_blank h] at hj
    cases hj

theorem tokensOf_eq_some_iff {cs : List Char} {fuel : Nat} (hfuel : 2 * cs.length ≤ fuel)
    {j : Json} : tokensOf finite cs = some j ↔
      ∃ rest, value finite fuel cs = some (j, rest) ∧ rest.dropWhile isWhitespace = [] := by
  unfold tokensOf
  rw [@value_of_enough finite cs _ fuel (by omega) hfuel]
  cases value finite fuel cs with
  | none => simp
  | some r =>
    obtain ⟨j', rest⟩ := r
    constructor
    · intro h
      simp only at h
      split at h
      · rename_i hrest
        cases h
        exact ⟨rest, rfl, hrest⟩
      · cases h
    · rintro ⟨rest', h, hrest⟩
      cases h
      exact if_pos hrest

theorem dropWhile_append_eq_nil {p : Char → Bool} {xs ys : List Char}
    (h : (xs ++ ys).dropWhile p = []) : xs.dropWhile p = [] ∧ ys.dropWhile p = [] := by
  rw [List.dropWhile_append] at h
  split at h
  · rename_i hxs
    exact ⟨List.isEmpty_iff.mp hxs, h⟩
  · exact ⟨(List.append_eq_nil_iff.mp h).1, by rw [(List.append_eq_nil_iff.mp h).2]; rfl⟩

/-- White space behind a text changes nothing. -/
theorem tokensOf_append_blank (cs : List Char) {ws : List Char}
    (h : ws.dropWhile isWhitespace = []) : tokensOf finite (cs ++ ws) = tokensOf finite cs := by
  have hseam : Seam finite ws := seam_blank h
  have hlen : 2 * cs.length ≤ 2 * (cs ++ ws).length := by
    rw [List.length_append]
    omega
  refine Option.ext fun j => ?_
  rw [tokensOf_eq_some_iff (Nat.le_refl (2 * (cs ++ ws).length)), tokensOf_eq_some_iff hlen]
  constructor
  · rintro ⟨rest, hread, hrest⟩
    rcases (hseam.cut _).1 cs j rest hread with ⟨r, rfl, hr⟩ | ⟨-, ⟨s, hs⟩ | ⟨-, hj⟩⟩
    · exact ⟨r, hr, (dropWhile_append_eq_nil hrest).1⟩
    · rw [string?_blank h] at hs
      cases hs
    · rw [value_blank h] at hj
      cases hj
  · rintro ⟨rest, hread, hrest⟩
    refine ⟨rest ++ ws, (value_append hseam.opens _).1 cs j rest hread, ?_⟩
    rw [dropWhile_append_blank hrest, h]

theorem tokensOf_blank_append {ws : List Char} (h : ws.dropWhile isWhitespace = [])
    (cs : List Char) : tokensOf finite (ws ++ cs) = tokensOf finite cs := by
  have hlen : 2 * cs.length ≤ 2 * (ws ++ cs).length := by
    rw [List.length_append]
    omega
  refine Option.ext fun j => ?_
  rw [tokensOf_eq_some_iff (Nat.le_refl (2 * (ws ++ cs).length)), tokensOf_eq_some_iff hlen]
  have hsame : ∀ fuel, value finite fuel (ws ++ cs) = value finite fuel cs := fun fuel => by
    rw [← value_dropWhile, dropWhile_append_blank h, value_dropWhile]
  rw [hsame]

/-- A key whose text goes on behind its quote with a character that nothing goes on with. -/
def Key (k : String) : Prop :=
  ∀ rest, ∃ c cs, string? ('{' :: (renderString k ++ rest)) = some (['{'], c :: cs) ∧
    Starts c ∧ c ≠ ',' ∧ c ≠ ':'

theorem Key.stuck {c : Char} {cs : List Char} (h : Starts c ∧ c ≠ ',' ∧ c ≠ ':') :
    Stuck (c :: cs) := by
  intro d hd hhead
  rw [dropWhile_of_starts h.1] at hhead
  cases hhead
  have hd : c = ',' ∨ c = ':' ∨ c = ']' ∨ c = '}' := by
    simpa using hd
  rcases hd with rfl | rfl | rfl | rfl
  exacts [h.2.1 rfl, h.2.2 rfl, h.1.2.1 rfl, h.1.2.2 rfl]

theorem render_obj_cons (k : String) (j : Json) (es : List (String × Json)) :
    ∃ rest, (obj ((k, j) :: es)).render = '{' :: (renderString k ++ rest) := by
  cases es with
  | nil => exact ⟨':' :: j.render ++ ['}'], by simp [render, renderEntries]⟩
  | cons e es =>
    exact ⟨':' :: j.render ++ ',' :: renderEntries (e :: es), by simp [render, renderEntries]⟩

/-- An object behind a text. -/
theorem seam_object {k : String} {j : Json} {es : List (String × Json)} (hk : Key k)
    (hplain : (obj ((k, j) :: es)).Plain) : Seam finite (obj ((k, j) :: es)).render := by
  obtain ⟨rest, hrest⟩ := render_obj_cons k j es
  obtain ⟨c, cs, hstring, hc⟩ := hk rest
  refine ⟨.inr ⟨_, hrest⟩, fun s r hs => ?_, fun fuel j' r hj => ?_⟩
  · rw [hrest, hstring] at hs
    cases hs
    exact Key.stuck hc
  · have hread := value_render finite (obj ((k, j) :: es)) _ [] hplain (Nat.le_refl _) trivial
    rw [List.append_nil] at hread
    have hmore := ((value_fuel fuel).1 _ _ _ hj).2 (2 * (obj ((k, j) :: es)).render.length) (by omega)
    rw [hread] at hmore
    cases hmore
    intro d _ hd
    cases hd

/-- **A text that was cut off, and an object behind it.** -/
theorem tokensOf_append_object (torn : List Char) {k : String} {j : Json}
    {es : List (String × Json)} (hk : Key k) (hplain : (obj ((k, j) :: es)).Plain) :
    tokensOf finite (torn ++ (obj ((k, j) :: es)).render) =
      if torn.dropWhile isWhitespace = [] then some (obj ((k, j) :: es)) else none := by
  split
  · rename_i hblank
    rw [tokensOf_blank_append hblank, tokensOf_render finite hplain]
  · rename_i hblank
    have hseam : Seam finite (obj ((k, j) :: es)).render := seam_object hk hplain
    have htail : (obj ((k, j) :: es)).render.dropWhile isWhitespace ≠ [] := by
      show List.dropWhile isWhitespace ('{' :: _) ≠ []
      rw [dropWhile_of_starts (by decide)]
      exact List.cons_ne_nil _ _
    refine Option.eq_none_iff_forall_ne_some.mpr fun j' hj' => ?_
    obtain ⟨rest, hread, hrest⟩ := (tokensOf_eq_some_iff (Nat.le_refl _)).mp hj'
    rcases (hseam.cut _).1 torn j' rest hread with ⟨r, rfl, -⟩ | ⟨-, ⟨s, hs⟩ | ⟨htorn, -⟩⟩
    · exact htail (dropWhile_append_eq_nil hrest).2
    · -- the string that was open ends at the first quote of the object
      obtain ⟨more, hmore⟩ := render_obj_cons k j es
      obtain ⟨c, cs, hstring, hc⟩ := hk more
      rw [hmore, hstring] at hs
      cases hs
      rw [dropWhile_of_starts hc.1] at hrest
      cases hrest
    · exact hblank htorn

end Seams

theorem tokensOf_head {finite : String → Bool} {cs : List Char} {j : Json}
    (h : tokensOf finite cs = some j) :
    ∃ c ∈ cs, c ∈ ['n', 't', 'f', '"', '[', '{', '-'] ∨ c.isDigit = true := by
  obtain ⟨rest, hread, -⟩ := (tokensOf_eq_some_iff (Nat.le_refl _)).mp h
  obtain ⟨c, ds, hcs, hc⟩ := value_head hread
  refine ⟨c, (List.dropWhile_sublist isWhitespace).subset ?_, hc⟩
  rw [hcs]
  exact List.mem_cons_self

/-! ## A text is one line -/

theorem not_mem_renderInt (n : Int) : '\n' ∉ renderInt n := by
  have hdigits : ∀ m : Nat, '\n' ∉ Nat.toDigits 10 m := fun m hm =>
    absurd (Nat.isDigit_of_mem_toDigits (by decide) (by decide) hm) (by decide)
  unfold renderInt
  split
  all_goals simp [hdigits]

theorem digitChar_ne_newline : ∀ d, d < 16 → '\n' ≠ Nat.digitChar d := by decide

theorem not_mem_escape (c : Char) : '\n' ∉ escape c := by
  intro h
  unfold escape at h
  split at h
  · exact absurd h (by decide)
  split at h
  · exact absurd h (by decide)
  split at h
  · exact absurd h (by decide)
  split at h
  · exact absurd h (by decide)
  split at h
  · exact absurd h (by decide)
  rename_i hnewline
  split at h
  · exact absurd h (by decide)
  split at h
  · exact absurd h (by decide)
  split at h
  · rename_i hcontrol
    have hhigh := digitChar_ne_newline (c.toNat / 16) (by omega)
    have hlow := digitChar_ne_newline (c.toNat % 16) (by omega)
    simp only [List.mem_cons, hhigh, hlow, List.not_mem_nil, or_false] at h
    exact absurd h (by decide)
  · exact hnewline (List.mem_singleton.mp h).symm

theorem not_mem_renderString (s : String) : '\n' ∉ renderString s := by
  simp [renderString, not_mem_escape]

mutual

/-- A text is one line. -/
theorem not_mem_render : ∀ j : Json, j.Plain → '\n' ∉ j.render
  | .null, _ | .bool true, _ | .bool false, _ => by decide
  | .int n, _ => not_mem_renderInt n
  | .float _, h => h.elim
  | .str s, _ => not_mem_renderString s
  | .arr elems, h => List.not_mem_cons_of_ne_of_not_mem (by decide) (not_mem_renderElems elems h)
  | .obj entries, h => List.not_mem_cons_of_ne_of_not_mem (by decide) (not_mem_renderEntries entries h)

theorem not_mem_renderElems : ∀ js : List Json, PlainElems js → '\n' ∉ renderElems js
  | [], _ => by decide
  | [j], h => by simp [renderElems, not_mem_render j h.1]
  | j :: j' :: js, h => by
    simp [renderElems, not_mem_render j h.1, not_mem_renderElems (j' :: js) h.2]

theorem not_mem_renderEntries : ∀ es : List (String × Json), PlainEntries es → '\n' ∉ renderEntries es
  | [], _ => by decide
  | [(k, j)], h => by simp [renderEntries, not_mem_renderString, not_mem_render j h.1]
  | (k, j) :: e :: es, h => by
    simp [renderEntries, not_mem_renderString, not_mem_render j h.1, not_mem_renderEntries (e :: es) h.2]

end

theorem not_mem_toVec {j : Json} (h : j.Plain) : 10 ∉ j.toVec := by
  intro hmem
  obtain ⟨a, b, hab⟩ := List.append_of_mem hmem
  obtain ⟨ca, cb, hcs, -, -⟩ := toUtf8_eq_append_cons (by decide) hab
  refine not_mem_render j h ?_
  rw [hcs]
  exact List.mem_append_right _ List.mem_cons_self

end Json

end Serde
