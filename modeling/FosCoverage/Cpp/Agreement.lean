import FosCoverage.Cpp.Lexer
import Mathlib.Data.List.Find

/-!
# The two lexers agree

`tokenize` reads a whole text and `tokenizeLines` the same text line by line, with its own order of
the cases and a state that it carries from line to line.  When no line ends in a backslash and no
literal or raw string is open at the end of a line, they find the same tokens
(`flatMap_tokenizeLines`).

What both search for has no line end in it, so it is found in a line exactly as in the text that the
line begins: the lemmas on a text with a `Separator` behind it say so for each of the searches, from
`isPrefixOf_append` to `word_append`, and a line end is one.  `scan_agrees` is the induction over one
line, and `lexLines_agrees` the one over the lines.
-/

set_option autoImplicit false

namespace FosCoverage.CppLexer

open Text

/-! ## What is found in a line is found in the text -/

/-- What follows a line: nothing, or a line end and more. -/
def LineEnd (rest : List Char) : Prop := rest = [] ∨ ∃ t, rest = '\n' :: t

/-- What follows a piece of text: nothing, or one character and more. -/
def EndsAt (d : Char) (rest : List Char) : Prop := rest = [] ∨ ∃ t, rest = d :: t

/-- A space that is in no word, operator or raw prefix. -/
structure Separator (d : Char) : Prop where
  space : isSpace d = true
  identStart : isIdentStart d = false
  identChar : isIdentChar d = false
  digit : Char.isDigit d = false
  hexDigit : isHexDigit d = false
  dot : d ≠ '.'
  zero : d ≠ '0'
  hexMark : (d == 'x' || d == 'X') = false
  operators : ∀ o ∈ operators, d ∉ o
  rawPrefixes : ∀ p ∈ rawPrefixes, d ∉ p
  paren : d ∉ ['(']
  quote : d ∉ [')', '"']

theorem separator_newline : Separator '\n' := by constructor <;> decide

theorem separator_space : Separator ' ' := by constructor <;> decide

section Append

variable {d : Char} {p s rest : List Char} {P : Char → Bool}

theorem isPrefixOf_append (hp : d ∉ p) (hr : EndsAt d rest) :
    p.isPrefixOf (s ++ rest) = p.isPrefixOf s := by
  induction p generalizing s with
  | nil => cases s <;> simp [List.isPrefixOf]
  | cons c p ih =>
    obtain ⟨hc, hp⟩ := not_or.1 fun h => hp (List.mem_cons.2 h)
    cases s with
    | nil =>
      rcases hr with rfl | ⟨t, rfl⟩
      · rfl
      · simp [List.isPrefixOf, Ne.symm hc]
    | cons e s => rw [List.cons_append, List.isPrefixOf, List.isPrefixOf, ih hp]

theorem takeWhile_append_endsAt (hP : P d = false) (hr : EndsAt d rest) :
    (s ++ rest).takeWhile P = s.takeWhile P := by
  induction s with
  | nil =>
    rcases hr with rfl | ⟨t, rfl⟩
    · rfl
    · simp [hP]
  | cons c s ih => rw [List.cons_append, List.takeWhile_cons, List.takeWhile_cons, ih]

theorem dropWhile_append_endsAt (hP : P d = false) (hr : EndsAt d rest) :
    (s ++ rest).dropWhile P = s.dropWhile P ++ rest := by
  induction s with
  | nil =>
    rcases hr with rfl | ⟨t, rfl⟩
    · rfl
    · simp [hP]
  | cons c s ih =>
    rw [List.cons_append, List.dropWhile_cons, List.dropWhile_cons, ih]
    split <;> rfl

/-- A pattern that is in the line is cut out there. -/
theorem cut_append_of_some (hp : d ∉ p) (hr : EndsAt d rest) {a b : List Char}
    (h : cut p s = some (a, b)) : cut p (s ++ rest) = some (a, b ++ rest) := by
  induction s generalizing a with
  | nil =>
    rw [cut] at h
    split at h
    · next hnil =>
      obtain ⟨rfl, rfl⟩ := Prod.mk.inj (Option.some.inj h)
      subst hnil
      cases rest with
      | nil => rfl
      | cons c cs => simp [cut, List.isPrefixOf]
    · cases h
  | cons c s ih =>
    rw [cut] at h
    rw [List.cons_append, cut, ← List.cons_append, isPrefixOf_append hp hr]
    split at h
    · next hpre =>
      obtain ⟨rfl, rfl⟩ := Prod.mk.inj (Option.some.inj h)
      have hlen := (List.isPrefixOf_iff_prefix.1 hpre).length_le
      rw [if_pos hpre, List.drop_append_of_le_length hlen]
    · next hpre =>
      obtain ⟨⟨a', b'⟩, hcut, heq⟩ := Option.map_eq_some_iff.1 h
      obtain ⟨rfl, rfl⟩ := Prod.mk.inj heq
      rw [if_neg hpre, ih hcut]
      rfl

/-- A pattern that is not in the line is cut out of what follows. -/
theorem cut_append_of_none (hp : d ∉ p) {t : List Char} (h : cut p s = none) :
    cut p (s ++ d :: t) = (cut p t).map fun q => (s ++ d :: q.1, q.2) := by
  induction s with
  | nil =>
    rw [cut] at h
    split at h
    · cases h
    · next hne =>
      obtain ⟨c, p, rfl⟩ := List.exists_cons_of_ne_nil hne
      have hc : c ≠ d := fun heq => hp (heq ▸ List.mem_cons_self)
      rw [List.nil_append, cut, if_neg (by simp [List.isPrefixOf, hc])]
      rfl
  | cons c s ih =>
    rw [cut] at h
    split at h
    · cases h
    · next hpre =>
      rw [Option.map_eq_none_iff] at h
      rw [List.cons_append, cut, ← List.cons_append, isPrefixOf_append hp (.inr ⟨t, rfl⟩),
        if_neg hpre, ih h, Option.map_map]
      rfl

/-- What is cut is the text. -/
theorem append_of_cut {a b : List Char} (h : cut p s = some (a, b)) : a ++ (p ++ b) = s := by
  induction s generalizing a with
  | nil =>
    rw [cut] at h
    split at h
    · next hnil =>
      obtain ⟨rfl, rfl⟩ := Prod.mk.inj (Option.some.inj h)
      simp [hnil]
    · cases h
  | cons c s ih =>
    rw [cut] at h
    split at h
    · next hpre =>
      obtain ⟨rfl, rfl⟩ := Prod.mk.inj (Option.some.inj h)
      exact List.prefix_iff_eq_append.1 (List.isPrefixOf_iff_prefix.1 hpre)
    · obtain ⟨⟨a', b'⟩, hcut, heq⟩ := Option.map_eq_some_iff.1 h
      obtain ⟨rfl, rfl⟩ := Prod.mk.inj heq
      rw [List.cons_append, ih hcut]

/-- What is behind a pattern with a character is behind the first character of the text. -/
theorem suffix_of_cut {c : Char} {a b : List Char} (hp : p ≠ [])
    (h : cut p (c :: s) = some (a, b)) : b <:+ s := by
  obtain ⟨d, p, rfl⟩ := List.exists_cons_of_ne_nil hp
  have happ := append_of_cut h
  cases a with
  | nil =>
    rw [List.nil_append, List.cons_append] at happ
    exact ⟨p, (List.cons.inj happ).2⟩
  | cons e a =>
    rw [List.cons_append] at happ
    exact ⟨a ++ d :: p, by rw [← (List.cons.inj happ).2, List.append_assoc]⟩

theorem suffix_cut_getD (s : List Char) : ((cut p s).map Prod.snd).getD [] <:+ s := by
  cases h : cut p s with
  | none => exact List.nil_suffix
  | some q => exact ⟨q.1 ++ p, by rw [List.append_assoc]; exact append_of_cut h⟩

end Append

/-! ## Words -/

section Words

variable {d : Char} {s rest : List Char}

/-- What is found at the start of a line, with the rest of the text behind it. -/
abbrev withRest (rest : List Char) :
    Option (List Char × List Char) → Option (List Char × List Char) :=
  Option.map fun w => (w.1, w.2 ++ rest)

theorem any_head?_append {P : Char → Bool} (hP : P d = false) (hr : EndsAt d rest) :
    (s ++ rest).head?.any P = s.head?.any P := by
  cases s with
  | nil =>
    rcases hr with rfl | ⟨t, rfl⟩
    · rfl
    · simp [hP]
  | cons c s => rfl

theorem decimal_append (hd : Separator d) (hr : EndsAt d rest) :
    number.decimal (s ++ rest) = withRest rest (number.decimal s) := by
  rw [number.decimal, number.decimal, any_head?_append hd.digit hr,
    dropWhile_append_endsAt hd.digit hr, takeWhile_append_endsAt hd.digit hr]
  split
  · cases hdrop : s.dropWhile Char.isDigit with
    | nil =>
      rcases hr with rfl | ⟨t, rfl⟩
      · rfl
      · simp [hd.dot]
    | cons c cs =>
      by_cases hc : c = '.'
      · subst hc
        simp only [List.cons_append, withRest, Option.map_some]
        rw [takeWhile_append_endsAt hd.digit hr, dropWhile_append_endsAt hd.digit hr]
      · simp [hc]
  · rfl

theorem number_append (hd : Separator d) (hr : EndsAt d rest) :
    number (s ++ rest) = withRest rest (number s) := by
  have hdec := decimal_append (s := s) hd hr
  unfold number
  obtain _ | ⟨c, _ | ⟨x, cs⟩⟩ := s
  · rcases hr with rfl | ⟨t, rfl⟩
    · rfl
    · simp only [List.nil_append] at hdec ⊢
      split
      · next heq => exact absurd (List.cons.inj heq).1 hd.zero
      · exact hdec
  · rcases hr with rfl | ⟨t, rfl⟩
    · simpa using hdec
    · by_cases hc : c = '0'
      · subst hc
        simp only [List.cons_append, List.nil_append, hd.hexMark, Bool.false_and] at hdec ⊢
        exact hdec
      · simp only [List.cons_append, List.nil_append] at hdec ⊢
        split <;> simp_all
  · by_cases hc : c = '0'
    · subst hc
      simp only [List.cons_append] at hdec ⊢
      rw [any_head?_append hd.hexDigit hr]
      split
      · simp only [withRest, Option.map_some, takeWhile_append_endsAt hd.hexDigit hr,
          dropWhile_append_endsAt hd.hexDigit hr]
      · exact hdec
    · simp only [List.cons_append] at hdec ⊢
      split <;> simp_all

/-- **A word of the line is a word of the text.** -/
theorem word_append (hd : Separator d) (hr : EndsAt d rest) :
    word (s ++ rest) = withRest rest (word s) := by
  have hfind : (operators.find? fun o => o.isPrefixOf (s ++ rest)) =
      operators.find? fun o => o.isPrefixOf s :=
    List.find?_congr fun o ho => isPrefixOf_append (hd.operators o ho) hr
  rw [word, word, any_head?_append hd.identStart hr, number_append hd hr, hfind]
  split
  · simp only [withRest, Option.map_some, takeWhile_append_endsAt hd.identChar hr,
      dropWhile_append_endsAt hd.identChar hr]
  · cases hn : number s with
    | some w => rfl
    | none =>
      simp only [withRest, Option.map_none]
      cases ho : operators.find? fun o => o.isPrefixOf s with
      | none => rfl
      | some o =>
        have hpre := List.find?_some ho
        have hlen := (List.isPrefixOf_iff_prefix.1 hpre).length_le
        simp only [Option.map_some, List.drop_append_of_le_length hlen]

end Words

/-! ## Raw strings -/

section Raw

variable {d : Char} {s rest : List Char}

theorem rawPrefixAt_append (hd : Separator d) (hr : EndsAt d rest) :
    rawPrefixAt (s ++ rest) = rawPrefixAt s := by
  exact List.find?_congr fun p hp => isPrefixOf_append (hd.rawPrefixes p hp) hr

theorem length_of_rawPrefixAt {p : List Char} (h : rawPrefixAt s = some p) :
    p.length ≤ s.length := by
  unfold rawPrefixAt at h
  have hpre := List.find?_some h
  exact (List.isPrefixOf_iff_prefix.1 hpre).length_le

/-- A parenthesis behind the line cannot open a raw string: the delimiter would have a space. -/
theorem rawDelimiter_append (hd : Separator d) (hr : EndsAt d rest) :
    rawDelimiter (s ++ rest) = withRest rest (rawDelimiter s) := by
  have hp := hd.paren
  unfold rawDelimiter
  cases hcut : cut ['('] s with
  | some q =>
    obtain ⟨delimiter, body⟩ := q
    rw [cut_append_of_some hp hr hcut]
    simp only
    split <;> rfl
  | none =>
    rcases hr with rfl | ⟨t, rfl⟩
    · rw [List.append_nil, hcut]
      rfl
    · rw [cut_append_of_none hp hcut]
      cases cut ['('] t with
      | none => rfl
      | some q =>
        simp only [Option.map_some]
        rw [if_neg]
        · rfl
        · simp [hd.space]

/-- The delimiter has no space. -/
theorem not_mem_of_rawDelimiter (hd : Separator d) {delimiter body : List Char}
    (h : rawDelimiter s = some (delimiter, body)) : d ∉ delimiter := by
  unfold rawDelimiter at h
  split at h
  · split at h
    · next hok =>
      obtain ⟨rfl, -⟩ := Prod.mk.inj (Option.some.inj h)
      intro hmem
      simp only [Bool.not_eq_true', List.any_eq_false] at hok
      exact hok.2 d hmem (by simp [hd.space])
    · cases h
  · cases h

theorem not_mem_rawClosing (hd : Separator d) {delimiter : List Char} (h : d ∉ delimiter) :
    d ∉ rawClosing delimiter := by
  have hquote := hd.quote
  simp only [List.mem_cons, List.not_mem_nil, or_false, not_or] at hquote
  simp [rawClosing, h, hquote]

theorem suffix_of_rawDelimiter {delimiter body : List Char}
    (h : rawDelimiter s = some (delimiter, body)) : body <:+ s := by
  unfold rawDelimiter at h
  split at h
  · next hcut =>
    split at h
    · obtain ⟨rfl, rfl⟩ := Prod.mk.inj (Option.some.inj h)
      exact ⟨_ ++ ['('], by rw [List.append_assoc]; exact append_of_cut hcut⟩
    · cases h
  · cases h

/-- A raw string opens behind its first character. -/
theorem suffix_of_openRaw {c : Char} {cs p delimiter body : List Char}
    (hp : rawPrefixAt (c :: cs) = some p)
    (hd : rawDelimiter ((c :: cs).drop p.length) = some (delimiter, body)) : body <:+ cs := by
  have hpos : ∀ q ∈ rawPrefixes, q ≠ [] := by decide
  obtain ⟨d, p, rfl⟩ := List.exists_cons_of_ne_nil (hpos p (List.mem_of_find?_eq_some hp))
  rw [List.length_cons, List.drop_succ_cons] at hd
  exact (suffix_of_rawDelimiter hd).trans (List.drop_suffix _ _)

/-- A raw string of the line is a raw string of the text, when it is closed in the line. -/
theorem rawString_append (hsep : Separator d) {p delimiter body content rest' : List Char}
    (hr : EndsAt d rest) (hp : rawPrefixAt s = some p)
    (hd : rawDelimiter (s.drop p.length) = some (delimiter, body))
    (hc : cut (rawClosing delimiter) body = some (content, rest')) :
    rawString (s ++ rest) =
      some (p ++ delimiter ++ '(' :: content ++ rawClosing delimiter, rest' ++ rest) := by
  have hlen := length_of_rawPrefixAt hp
  have hclosing := cut_append_of_some
    (not_mem_rawClosing hsep (not_mem_of_rawDelimiter hsep hd)) hr hc
  rw [rawString, rawPrefixAt_append hsep hr, hp, Option.bind_eq_bind, Option.bind_some,
    List.drop_append_of_le_length hlen, rawDelimiter_append hsep hr, hd]
  simp only [withRest, Option.map_some, Option.bind_eq_bind, Option.bind_some, hclosing]
  rfl

/-- No raw string begins in the line when none opens there. -/
theorem rawString_append_none (hd : Separator d) (hr : EndsAt d rest)
    (h : (rawPrefixAt s).bind (fun p => (rawDelimiter (s.drop p.length)).map fun d => (p, d)) =
      none) : rawString (s ++ rest) = none := by
  rw [rawString, rawPrefixAt_append hd hr]
  cases hp : rawPrefixAt s with
  | none => rfl
  | some p =>
    have hlen := length_of_rawPrefixAt hp
    rw [hp, Option.bind_some, Option.map_eq_none_iff] at h
    rw [Option.bind_eq_bind, Option.bind_some, List.drop_append_of_le_length hlen,
      rawDelimiter_append hd hr, h]
    rfl

end Raw

/-! ## Each step goes on -/

theorem suffix_literal (mark : Char) (s : List Char) : (literal mark s).2 <:+ s := by
  fun_induction literal mark s with
  | case1 => exact List.nil_suffix
  | case2 => exact List.nil_suffix
  | case3 c cs l rest heq ih =>
    rw [heq] at ih
    exact ih.trans ⟨['\\', c], rfl⟩
  | case4 => exact List.suffix_cons _ _
  | case5 =>
    rename_i heq ih
    rw [heq] at ih
    exact ih.trans (List.suffix_cons _ _)

theorem suffix_of_number {c : Char} {cs w rest : List Char}
    (h : number (c :: cs) = some (w, rest)) : rest <:+ cs := by
  have hdec : ∀ {c : Char} {cs w rest : List Char}, number.decimal (c :: cs) = some (w, rest) →
      rest <:+ cs := by
    intro c cs w rest h
    rw [number.decimal] at h
    split at h
    · next hdigit =>
      have hc : c.isDigit = true := by simpa using hdigit
      rw [List.dropWhile_cons_of_pos hc] at h
      have hsuf := List.dropWhile_suffix Char.isDigit (l := cs)
      split at h
      · next cs' heq =>
        obtain ⟨-, rfl⟩ := Prod.mk.inj (Option.some.inj h)
        rw [heq] at hsuf
        exact (List.dropWhile_suffix _).trans ((List.suffix_cons _ _).trans hsuf)
      · obtain ⟨-, rfl⟩ := Prod.mk.inj (Option.some.inj h)
        exact hsuf
    · cases h
  unfold number at h
  split at h
  · next x cs' heq =>
    obtain ⟨rfl, rfl⟩ := List.cons.inj heq
    split at h
    · obtain ⟨-, rfl⟩ := Prod.mk.inj (Option.some.inj h)
      exact (List.dropWhile_suffix _).trans (List.suffix_cons _ _)
    · exact hdec h
  · exact hdec h

theorem suffix_of_word {c : Char} {cs w rest : List Char} (h : word (c :: cs) = some (w, rest)) :
    rest <:+ cs := by
  unfold word at h
  split at h
  · next hstart =>
    have hc : isIdentChar c = true := by
      simp only [List.head?_cons, Option.any_some, isIdentStart, Bool.or_eq_true] at hstart
      simp only [isIdentChar, Char.isAlphanum, Bool.or_eq_true]
      tauto
    obtain ⟨-, rfl⟩ := Prod.mk.inj (Option.some.inj h)
    rw [List.dropWhile_cons_of_pos hc]
    exact List.dropWhile_suffix _
  · split at h
    · next hn =>
      obtain rfl := Option.some.inj h
      exact suffix_of_number hn
    · obtain ⟨o, ho, heq⟩ := Option.map_eq_some_iff.1 h
      obtain ⟨-, rfl⟩ := Prod.mk.inj heq
      have hpos : ∀ o ∈ operators, o ≠ [] := by decide
      obtain ⟨d, o, rfl⟩ := List.exists_cons_of_ne_nil (hpos o (List.mem_of_find?_eq_some ho))
      rw [List.length_cons, List.drop_succ_cons]
      exact List.drop_suffix _ _

theorem rawClosing_ne_nil (delimiter : List Char) : rawClosing delimiter ≠ [] := by
  simp [rawClosing]

theorem suffix_of_rawString {c : Char} {cs w rest : List Char}
    (h : rawString (c :: cs) = some (w, rest)) : rest <:+ cs := by
  simp only [rawString, Option.bind_eq_bind, Option.bind_eq_some_iff] at h
  obtain ⟨p, hp, ⟨delimiter, body⟩, hd, ⟨content, rest'⟩, hc, heq⟩ := h
  obtain ⟨-, rfl⟩ := Prod.mk.inj (Option.some.inj heq)
  refine List.IsSuffix.trans ?_ (suffix_of_openRaw hp hd)
  exact ⟨content ++ rawClosing delimiter, by rw [List.append_assoc]; exact append_of_cut hc⟩

theorem suffix_lexStep (c : Char) (cs : List Char) : (lexStep c cs).2 <:+ cs := by
  unfold lexStep
  split
  · exact List.suffix_rfl
  split
  · exact (suffix_cut_getD _).trans (List.drop_suffix _ _)
  split
  · exact (suffix_cut_getD _).trans (List.drop_suffix _ _)
  split
  · exact suffix_literal c cs
  split
  · next h => exact suffix_of_rawString h
  · split
    · next h => exact suffix_of_word h
    · exact List.suffix_rfl

theorem suffix_codeStep (spliced : Bool) (c : Char) (cs : List Char) :
    (codeStep spliced c cs).rest <:+ cs := by
  unfold codeStep
  split
  · exact List.suffix_rfl
  split
  · exact List.nil_suffix
  split
  · exact List.drop_suffix _ _
  split
  · next h =>
    obtain ⟨p, hp, hd⟩ := Option.bind_eq_some_iff.1 h
    obtain ⟨d, hd, heq⟩ := Option.map_eq_some_iff.1 hd
    obtain ⟨rfl, rfl⟩ := Prod.mk.inj heq
    exact suffix_of_openRaw hp hd
  split
  · exact List.suffix_rfl
  split
  · next h => exact suffix_of_word h
  · split
    · exact List.nil_suffix
    · exact List.suffix_rfl

theorem suffix_quoteStep (spliced : Bool) (mark : Char) (read : List Char) (c : Char)
    (cs : List Char) : (quoteStep spliced mark read c cs).rest <:+ cs := by
  unfold quoteStep
  split
  · split
    · exact List.suffix_cons _ _
    · split <;> exact List.nil_suffix
  · split <;> exact List.suffix_rfl

/-- A step of the line lexer leaves an end of the line. -/
theorem suffix_lineStep (spliced : Bool) (c : Char) (cs : List Char) (st : LexState) :
    (lineStep spliced c cs st).rest <:+ cs := by
  cases st with
  | code => exact suffix_codeStep spliced c cs
  | quote mark read => exact suffix_quoteStep spliced mark read c cs
  | blockComment =>
    rw [lineStep]
    split
    · next h => exact suffix_of_cut (by simp) h
    · exact List.nil_suffix
  | raw delimiter read =>
    rw [lineStep]
    split
    · next h => exact suffix_of_cut (rawClosing_ne_nil _) h
    · exact List.nil_suffix

theorem tokensWithin_cons (n : Nat) (c : Char) (cs : List Char) :
    tokensWithin (n + 1) (c :: cs) = ((lexStep c cs).1.map String.ofList).toList ++
      tokensWithin n (lexStep c cs).2 := by
  rcases hstep : lexStep c cs with ⟨token, rest⟩
  simp only [tokensWithin, hstep]

/-- Fuel for the whole text is enough. -/
theorem tokensWithin_eq {n : Nat} {s : List Char} (h : s.length ≤ n) :
    tokensWithin n s = tokensWithin s.length s := by
  induction n using Nat.strong_induction_on generalizing s with
  | _ n ih =>
    cases s with
    | nil => cases n <;> rfl
    | cons c cs =>
      obtain _ | n := n
      · simp at h
      · have hstep := (suffix_lexStep c cs).length_le
        rw [List.length_cons] at h
        rw [List.length_cons, tokensWithin_cons, tokensWithin_cons,
          ih n (Nat.lt_succ_self n) (by omega), ih cs.length (by omega) hstep]

theorem lexWithin_cons (spliced : Bool) (n : Nat) (st : LexState) (c : Char) (cs : List Char) :
    lexWithin spliced (n + 1) st (c :: cs) =
      ⟨((lineStep spliced c cs st).token.map String.ofList).toList ++
          (lexWithin spliced n (lineStep spliced c cs st).state
            (lineStep spliced c cs st).rest).tokens,
        (lexWithin spliced n (lineStep spliced c cs st).state
          (lineStep spliced c cs st).rest).state,
        (lineStep spliced c cs st).spliced ||
          (lexWithin spliced n (lineStep spliced c cs st).state
            (lineStep spliced c cs st).rest).spliced⟩ := rfl

/-- Fuel for the whole line is enough. -/
theorem lexWithin_eq {spliced : Bool} {n : Nat} {st : LexState} {s : List Char}
    (h : s.length ≤ n) : lexWithin spliced n st s = lexWithin spliced s.length st s := by
  induction n using Nat.strong_induction_on generalizing st s with
  | _ n ih =>
    cases s with
    | nil => cases n <;> rfl
    | cons c cs =>
      obtain _ | n := n
      · simp at h
      · have hstep := (suffix_lineStep spliced c cs st).length_le
        rw [List.length_cons] at h
        rw [List.length_cons, lexWithin_cons, lexWithin_cons,
          ih n (Nat.lt_succ_self n) (by omega), ih cs.length (by omega) hstep]

/-! ## One line -/

/-- Nothing but a block comment is open. -/
def LexState.Calm (st : LexState) : Prop := st = .code ∨ st = .blockComment

/-- The text from where a block comment ends, if one is open. -/
def resume (st : LexState) (s : List Char) : List Char :=
  if st = .blockComment then ((cut ['*', '/'] s).map Prod.snd).getD [] else s

/-- A text in one line that does not end in a backslash. -/
structure Plain (s : List Char) : Prop where
  oneLine : '\n' ∉ s
  last : s.getLast? ≠ some '\\'

theorem Plain.suffix {s t : List Char} (h : Plain s) (ht : t <:+ s) : Plain t := by
  refine ⟨fun hn => h.oneLine (ht.subset hn), fun hlast => h.last ?_⟩
  obtain ⟨a, rfl⟩ := ht
  rw [List.getLast?_append, hlast]
  rfl

/-- The scan of a line that does not end in a splice. -/
abbrev scan (st : LexState) (s : List Char) : LexedLine := lexWithin false s.length st s

/-- The tokens of a text whose splices are joined. -/
abbrev tokensOf (s : List Char) : List String := tokensWithin s.length s

theorem scan_cons (st : LexState) (c : Char) (cs : List Char) :
    scan st (c :: cs) =
      ⟨((lineStep false c cs st).token.map String.ofList).toList ++
          (scan (lineStep false c cs st).state (lineStep false c cs st).rest).tokens,
        (scan (lineStep false c cs st).state (lineStep false c cs st).rest).state,
        (lineStep false c cs st).spliced ||
          (scan (lineStep false c cs st).state (lineStep false c cs st).rest).spliced⟩ := by
  rw [scan, List.length_cons, lexWithin_cons,
    lexWithin_eq (suffix_lineStep false c cs st).length_le]

theorem tokensOf_cons (c : Char) (cs : List Char) :
    tokensOf (c :: cs) = ((lexStep c cs).1.map String.ofList).toList ++
      tokensOf (lexStep c cs).2 := by
  rw [tokensOf, List.length_cons, tokensWithin_cons,
    tokensWithin_eq (suffix_lexStep c cs).length_le]

theorem literal_cons {mark c : Char} {cs : List Char} (hc : c ≠ '\\') :
    literal mark (c :: cs) =
      if c = mark then ([c], cs) else (c :: (literal mark cs).1, (literal mark cs).2) := by
  rw [literal]
  · exact fun h => absurd h hc
  · exact fun d ds h => absurd h hc

/-- **A literal that the line closes is read alike.** -/
theorem scan_quote {mark : Char} {s : List Char} (hs : Plain s) {read : List Char}
    (hcalm : (scan (.quote mark read) s).state.Calm) :
    ∃ l rest, rest <:+ s ∧ (∀ more, literal mark (s ++ more) = (l, rest ++ more)) ∧
      (scan (.quote mark read) s).tokens = String.ofList (read ++ l) :: (scan .code rest).tokens ∧
      (scan (.quote mark read) s).state = (scan .code rest).state := by
  induction hn : s.length using Nat.strong_induction_on generalizing s read with
  | _ n ih =>
    cases s with
    | nil => exact absurd hcalm (by rintro (h | h) <;> cases h)
    | cons c cs =>
      by_cases hc : c = '\\'
      · -- an escape takes the next character, which is in the line
        subst hc
        obtain _ | ⟨d, cs⟩ := cs
        · exact absurd rfl hs.last
        · have hstep : lineStep false '\\' (d :: cs) (.quote mark read) =
              ⟨none, .quote mark (read ++ ['\\', d]), cs, false⟩ := rfl
          rw [scan_cons, hstep] at hcalm ⊢
          have hsuf : cs <:+ '\\' :: d :: cs := ⟨['\\', d], rfl⟩
          obtain ⟨l, rest, hrest, hlit, htok, hst⟩ :=
            ih cs.length (by simp at hn; omega) (hs.suffix hsuf) hcalm rfl
          refine ⟨'\\' :: d :: l, rest, hrest.trans hsuf, fun more => ?_, ?_, hst⟩
          · rw [List.cons_append, List.cons_append, literal, hlit]
          · rw [htok]
            simp
      · by_cases hm : c = mark
        · have hstep : lineStep false c cs (.quote mark read) =
              ⟨some (read ++ [c]), .code, cs, false⟩ := by
            rw [lineStep, quoteStep.eq_def, if_neg hc, if_pos hm]
          rw [scan_cons, hstep]
          refine ⟨[c], cs, List.suffix_cons _ _, fun more => ?_, rfl, rfl⟩
          rw [List.cons_append, literal_cons hc, if_pos hm]
        · have hstep : lineStep false c cs (.quote mark read) =
              ⟨none, .quote mark (read ++ [c]), cs, false⟩ := by
            rw [lineStep, quoteStep.eq_def, if_neg hc, if_neg hm]
          rw [scan_cons, hstep] at hcalm ⊢
          obtain ⟨l, rest, hrest, hlit, htok, hst⟩ :=
            ih cs.length (by simp at hn; omega) (hs.suffix (List.suffix_cons _ _)) hcalm rfl
          refine ⟨c :: l, rest, hrest.trans (List.suffix_cons _ _), fun more => ?_, ?_, hst⟩
          · rw [List.cons_append, literal_cons hc, if_neg hm, hlit]
          · rw [htok]
            simp

/-- A raw string that the line closes is closed by the next step. -/
theorem scan_raw {delimiter read s : List Char}
    (hcalm : (scan (.raw delimiter read) s).state.Calm) :
    ∃ content rest, cut (rawClosing delimiter) s = some (content, rest) ∧
      (scan (.raw delimiter read) s).tokens =
        String.ofList (read ++ content ++ rawClosing delimiter) :: (scan .code rest).tokens ∧
      (scan (.raw delimiter read) s).state = (scan .code rest).state := by
  cases s with
  | nil => exact absurd hcalm (by rintro (h | h) <;> cases h)
  | cons c cs =>
    cases hcut : cut (rawClosing delimiter) (c :: cs) with
    | none =>
      have hstep : lineStep false c cs (.raw delimiter read) =
          ⟨none, .raw delimiter (read ++ c :: cs), [], false⟩ := by
        rw [lineStep, hcut]
      rw [scan_cons, hstep] at hcalm
      exact absurd hcalm (by rintro (h | h) <;> cases h)
    | some q =>
      obtain ⟨content, rest⟩ := q
      have hstep : lineStep false c cs (.raw delimiter read) =
          ⟨some (read ++ content ++ rawClosing delimiter), .code, rest, false⟩ := by
        rw [lineStep, hcut]
      rw [scan_cons, hstep]
      exact ⟨content, rest, rfl, rfl, rfl⟩

section Resume

variable {s rest : List Char}

theorem resume_code (s : List Char) : resume .code s = s := if_neg (by decide)

theorem resume_blockComment (s : List Char) :
    resume .blockComment s = ((cut ['*', '/'] s).map Prod.snd).getD [] := if_pos rfl

/-- A line end does not close a comment. -/
theorem resume_blockComment_newline (t : List Char) :
    resume .blockComment ('\n' :: t) = resume .blockComment t := by
  have hcut : cut ['*', '/'] ('\n' :: t) =
      (cut ['*', '/'] t).map fun q => ([] ++ '\n' :: q.1, q.2) :=
    cut_append_of_none (s := []) (by decide) rfl
  rw [resume_blockComment, resume_blockComment, hcut, Option.map_map]
  rfl

/-- A line that does not close the comment leaves it to what follows. -/
theorem resume_append_of_none (hr : LineEnd rest) (h : cut ['*', '/'] s = none) :
    resume .blockComment (s ++ rest) = resume .blockComment rest := by
  rcases hr with rfl | ⟨t, rfl⟩
  · rw [List.append_nil, resume_blockComment, h]
    rfl
  · rw [resume_blockComment_newline, resume_blockComment, resume_blockComment,
      cut_append_of_none (by decide) h, Option.map_map]
    rfl

/-- A line comment ends with its line. -/
theorem cut_newline (h : '\n' ∉ s) : cut ['\n'] s = none ∧
    ∀ t, cut ['\n'] (s ++ '\n' :: t) = some (s, t) := by
  induction s with
  | nil => exact ⟨rfl, fun t => by simp [cut, List.isPrefixOf]⟩
  | cons c s ih =>
    obtain ⟨hc, hs⟩ := not_or.1 fun hmem => h (List.mem_cons.2 hmem)
    obtain ⟨hnone, hsome⟩ := ih hs
    have hpre : ∀ l, ¬ ['\n'].isPrefixOf (c :: l) = true := fun l => by simp [List.isPrefixOf, hc]
    refine ⟨by rw [cut, if_neg (hpre s), hnone]; rfl, fun t => ?_⟩
    rw [List.cons_append, cut, if_neg (hpre _), hsome]
    rfl

/-- A line end alone yields nothing, in code and in a comment. -/
theorem tokensOf_newline (t : List Char) : tokensOf ('\n' :: t) = tokensOf t := by
  rw [tokensOf_cons]
  rfl

end Resume

/-- The character that begins a raw prefix is not a quote. -/
theorem not_quote_of_rawPrefixAt {c : Char} {cs p : List Char}
    (h : rawPrefixAt (c :: cs) = some p) : ¬ (c = '"' ∨ c = '\'') := by
  have hall : ∀ q ∈ rawPrefixes, q ≠ [] ∧ q.head? ≠ some '"' ∧ q.head? ≠ some '\'' := by decide
  obtain ⟨hne, h1, h2⟩ := hall p (List.mem_of_find?_eq_some h)
  unfold rawPrefixAt at h
  have hpre := List.find?_some h
  obtain ⟨d, p, rfl⟩ := List.exists_cons_of_ne_nil hne
  simp only [List.isPrefixOf, Bool.and_eq_true, beq_iff_eq] at hpre
  rintro (rfl | rfl)
  · exact h1 (by rw [List.head?_cons, hpre.1])
  · exact h2 (by rw [List.head?_cons, hpre.1])

/-! ## The cases of a step -/

/-- The scan of a line, if it ends calmly, finds the tokens of the text that the line begins. -/
def Agrees (rest : List Char) (st : LexState) (s : List Char) : Prop :=
  (scan st s).state.Calm → tokensOf (resume st (s ++ rest)) =
    (scan st s).tokens ++ tokensOf (resume (scan st s).state rest)

section Cases

variable {c : Char} {cs rest r : List Char} {o : Option (List Char)}

/-- The same token, and the same rest. -/
theorem agrees_step (hcode : codeStep false c cs = ⟨o, .code, r, false⟩)
    (hlex : lexStep c (cs ++ rest) = (o, r ++ rest)) (h : Agrees rest .code r) :
    Agrees rest .code (c :: cs) := by
  intro hcalm
  have hstep : lineStep false c cs .code = ⟨o, .code, r, false⟩ := hcode
  rw [scan_cons, hstep] at hcalm ⊢
  have hr := h hcalm
  rw [resume_code] at hr
  rw [resume_code, List.cons_append, tokensOf_cons, hlex, List.append_assoc, ← hr]

theorem isPrefixOf_cons_append {p : List Char} (hp : '\n' ∉ p) (hr : LineEnd rest) :
    p.isPrefixOf (c :: (cs ++ rest)) = p.isPrefixOf (c :: cs) := by
  rw [← List.cons_append, isPrefixOf_append hp hr]

/-- A line comment. -/
theorem agrees_lineComment (hr : LineEnd rest) (hs : '\n' ∉ cs) (hsp : ¬ isSpace c = true)
    (hline : ['/', '/'].isPrefixOf (c :: cs) = true) : Agrees rest .code (c :: cs) := by
  intro hcalm
  have hstep : lineStep false c cs .code = ⟨none, .code, [], false⟩ := by
    rw [lineStep, codeStep, if_neg hsp, if_pos hline]
  obtain ⟨d, cs, rfl⟩ : ∃ d cs', cs = d :: cs' := by
    cases cs with
    | nil => simp [List.isPrefixOf] at hline
    | cons d cs => exact ⟨d, cs, rfl⟩
  have hcs : '\n' ∉ cs := fun h => hs (List.mem_cons_of_mem _ h)
  have hlex : lexStep c (d :: cs ++ rest) =
      (none, ((cut ['\n'] (cs ++ rest)).map Prod.snd).getD []) := by
    rw [lexStep, if_neg hsp, if_pos (by rw [isPrefixOf_cons_append (by decide) hr, hline])]
    rfl
  rw [scan_cons, hstep, resume_code, List.cons_append, tokensOf_cons, hlex]
  change tokensOf _ = tokensOf (resume .code rest)
  rw [resume_code]
  rcases hr with rfl | ⟨t, rfl⟩
  · rw [List.append_nil, (cut_newline hcs).1]
    rfl
  · rw [(cut_newline hcs).2, tokensOf_newline]
    rfl

/-- The start of a block comment. -/
theorem agrees_blockStart (hr : LineEnd rest) (hsp : ¬ isSpace c = true)
    (hline : ¬ ['/', '/'].isPrefixOf (c :: cs) = true)
    (hblock : ['/', '*'].isPrefixOf (c :: cs) = true) (h : Agrees rest .blockComment (cs.drop 1)) :
    Agrees rest .code (c :: cs) := by
  intro hcalm
  have hstep : lineStep false c cs .code = ⟨none, .blockComment, cs.drop 1, false⟩ := by
    rw [lineStep, codeStep, if_neg hsp, if_neg hline, if_pos hblock]
  rw [scan_cons, hstep] at hcalm ⊢
  obtain ⟨d, cs, rfl⟩ : ∃ d cs', cs = d :: cs' := by
    cases cs with
    | nil => simp [List.isPrefixOf] at hblock
    | cons d cs => exact ⟨d, cs, rfl⟩
  have hlex : lexStep c (d :: cs ++ rest) = (none, resume .blockComment (cs ++ rest)) := by
    rw [lexStep, if_neg hsp, if_neg (by rwa [isPrefixOf_cons_append (by decide) hr]),
      if_pos (by rw [isPrefixOf_cons_append (by decide) hr, hblock]), resume_blockComment]
    rfl
  rw [resume_code, List.cons_append, tokensOf_cons, hlex]
  exact h hcalm

/-- A block comment that was open already. -/
theorem agrees_inBlock (hr : LineEnd rest) (h : ∀ r, r <:+ cs → Agrees rest .code r) :
    Agrees rest .blockComment (c :: cs) := by
  intro hcalm
  cases hcut : cut ['*', '/'] (c :: cs) with
  | none =>
    have hstep : lineStep false c cs .blockComment = ⟨none, .blockComment, [], false⟩ := by
      rw [lineStep, hcut]
    rw [scan_cons, hstep, resume_append_of_none hr hcut]
    rfl
  | some q =>
    obtain ⟨a, b⟩ := q
    have hstep : lineStep false c cs .blockComment = ⟨none, .code, b, false⟩ := by
      rw [lineStep, hcut]
    rw [scan_cons, hstep] at hcalm ⊢
    have hb := h b (suffix_of_cut (by decide) hcut) hcalm
    rw [resume_code] at hb
    rw [resume_blockComment, cut_append_of_some (by decide) hr hcut]
    exact hb

/-- A raw string. -/
theorem agrees_raw (hr : LineEnd rest) (hsp : ¬ isSpace c = true)
    (hline : ¬ ['/', '/'].isPrefixOf (c :: cs) = true)
    (hblock : ¬ ['/', '*'].isPrefixOf (c :: cs) = true) {p delimiter body : List Char}
    (hp : rawPrefixAt (c :: cs) = some p)
    (hd : rawDelimiter ((c :: cs).drop p.length) = some (delimiter, body))
    (h : ∀ r, r <:+ cs → Agrees rest .code r) : Agrees rest .code (c :: cs) := by
  intro hcalm
  have hopen : (rawPrefixAt (c :: cs)).bind (fun openPrefix =>
      (rawDelimiter ((c :: cs).drop openPrefix.length)).map fun d => (openPrefix, d)) =
        some (p, delimiter, body) := by
    rw [hp, Option.bind_some, hd]
    rfl
  have hstep : lineStep false c cs .code =
      ⟨none, .raw delimiter (p ++ delimiter ++ ['(']), body, false⟩ := by
    rw [lineStep, codeStep, if_neg hsp, if_neg hline, if_neg hblock, hopen]
  rw [scan_cons, hstep] at hcalm ⊢
  dsimp only at hcalm ⊢
  obtain ⟨content, r, hcut, htok, hst⟩ := scan_raw hcalm
  have hsuf : r <:+ cs := by
    refine List.IsSuffix.trans ?_ (suffix_of_openRaw hp hd)
    exact ⟨content ++ rawClosing delimiter, by rw [List.append_assoc]; exact append_of_cut hcut⟩
  have hlex : lexStep c (cs ++ rest) =
      (some (p ++ delimiter ++ '(' :: content ++ rawClosing delimiter), r ++ rest) := by
    rw [lexStep, if_neg hsp, if_neg (by rwa [isPrefixOf_cons_append (by decide) hr]),
      if_neg (by rwa [isPrefixOf_cons_append (by decide) hr]),
      if_neg (not_quote_of_rawPrefixAt hp), ← List.cons_append, rawString_append separator_newline hr hp hd hcut]
  have hr' := h r hsuf (hst ▸ hcalm)
  rw [resume_code] at hr'
  have htoken : p ++ delimiter ++ ['('] ++ content ++ rawClosing delimiter =
      p ++ delimiter ++ '(' :: content ++ rawClosing delimiter := by simp
  rw [resume_code, List.cons_append, tokensOf_cons, hlex, hr', htok, hst, htoken]
  rfl

/-- A literal. -/
theorem agrees_quote (hr : LineEnd rest) (hs : Plain (c :: cs)) (hsp : ¬ isSpace c = true)
    (hline : ¬ ['/', '/'].isPrefixOf (c :: cs) = true)
    (hblock : ¬ ['/', '*'].isPrefixOf (c :: cs) = true)
    (hopen : (rawPrefixAt (c :: cs)).bind (fun openPrefix =>
      (rawDelimiter ((c :: cs).drop openPrefix.length)).map fun d => (openPrefix, d)) = none)
    (hquote : c = '"' ∨ c = '\'') (h : ∀ r, r <:+ cs → Agrees rest .code r) :
    Agrees rest .code (c :: cs) := by
  intro hcalm
  have hstep : lineStep false c cs .code = ⟨none, .quote c [c], cs, false⟩ := by
    rw [lineStep, codeStep, if_neg hsp, if_neg hline, if_neg hblock, hopen]
    exact if_pos hquote
  rw [scan_cons, hstep] at hcalm ⊢
  dsimp only at hcalm ⊢
  obtain ⟨l, r, hsuf, hlit, htok, hst⟩ := scan_quote (hs.suffix (List.suffix_cons _ _)) hcalm
  have hlex : lexStep c (cs ++ rest) = (some (c :: l), r ++ rest) := by
    rw [lexStep, if_neg hsp, if_neg (by rwa [isPrefixOf_cons_append (by decide) hr]),
      if_neg (by rwa [isPrefixOf_cons_append (by decide) hr]), if_pos hquote, hlit]
  have hr' := h r hsuf (hst ▸ hcalm)
  rw [resume_code] at hr'
  rw [resume_code, List.cons_append, tokensOf_cons, hlex, hr', htok, hst]
  rfl

/-- A step at a word or a single character does not depend on what is behind the line. -/
theorem lexStep_word (hr : LineEnd rest) (hsp : ¬ isSpace c = true)
    (hline : ¬ ['/', '/'].isPrefixOf (c :: cs) = true)
    (hblock : ¬ ['/', '*'].isPrefixOf (c :: cs) = true)
    (hopen : (rawPrefixAt (c :: cs)).bind (fun openPrefix =>
      (rawDelimiter ((c :: cs).drop openPrefix.length)).map fun d => (openPrefix, d)) = none)
    (hquote : ¬ (c = '"' ∨ c = '\'')) :
    lexStep c (cs ++ rest) = match withRest rest (word (c :: cs)) with
      | some (token, r) => (some token, r)
      | none => (some [c], cs ++ rest) := by
  rw [lexStep, if_neg hsp, if_neg (by rwa [isPrefixOf_cons_append (by decide) hr]),
    if_neg (by rwa [isPrefixOf_cons_append (by decide) hr]), if_neg hquote, ← List.cons_append,
    rawString_append_none separator_newline hr hopen]
  exact congrArg (fun w => match w with
    | some (token, r) => (some token, r)
    | none => (some [c], cs ++ rest)) (word_append separator_newline hr)

/-- A word, or a single character. -/
theorem agrees_word (hr : LineEnd rest) (hsp : ¬ isSpace c = true)
    (hline : ¬ ['/', '/'].isPrefixOf (c :: cs) = true)
    (hblock : ¬ ['/', '*'].isPrefixOf (c :: cs) = true)
    (hopen : (rawPrefixAt (c :: cs)).bind (fun openPrefix =>
      (rawDelimiter ((c :: cs).drop openPrefix.length)).map fun d => (openPrefix, d)) = none)
    (hquote : ¬ (c = '"' ∨ c = '\'')) (h : ∀ r, r <:+ cs → Agrees rest .code r) :
    Agrees rest .code (c :: cs) := by
  have hlex := lexStep_word hr hsp hline hblock hopen hquote
  cases hw : word (c :: cs) with
  | some w =>
    obtain ⟨token, r⟩ := w
    refine agrees_step (o := some token) ?_ (by rw [hlex, hw]; rfl) (h r (suffix_of_word hw))
    rw [codeStep, if_neg hsp, if_neg hline, if_neg hblock, hopen]
    simp only [if_neg hquote, hw]
  | none =>
    refine agrees_step (o := some [c]) ?_ (by rw [hlex, hw]; rfl) (h cs List.suffix_rfl)
    rw [codeStep, if_neg hsp, if_neg hline, if_neg hblock, hopen]
    simp only [if_neg hquote, hw]
    exact if_neg (by simp)

end Cases

/-- **The scan of a line and the text that the line begins agree.** -/
theorem scan_agrees {st : LexState} {s rest : List Char} (hst : st.Calm) (hs : Plain s)
    (hr : LineEnd rest) : Agrees rest st s := by
  induction hn : s.length using Nat.strong_induction_on generalizing s st with
  | _ n ih =>
    cases s with
    | nil => exact fun _ => rfl
    | cons c cs =>
      have hsuf : ∀ {st' : LexState} {r : List Char}, st'.Calm → r <:+ cs → Agrees rest st' r := by
        intro st' r hst' hsuf
        have hlen := hsuf.length_le
        rw [List.length_cons] at hn
        exact ih r.length (by omega) hst' (hs.suffix (hsuf.trans (List.suffix_cons _ _))) rfl
      have hcode : ∀ r, r <:+ cs → Agrees rest .code r := fun _ => hsuf (.inl rfl)
      rcases hst with rfl | rfl
      · by_cases hsp : isSpace c = true
        · refine agrees_step (o := none) ?_ ?_ (hcode cs List.suffix_rfl)
          · rw [codeStep, if_pos hsp]
          · rw [lexStep, if_pos hsp]
        by_cases hline : ['/', '/'].isPrefixOf (c :: cs) = true
        · exact agrees_lineComment hr (fun h => hs.oneLine (List.mem_cons_of_mem _ h)) hsp hline
        by_cases hblock : ['/', '*'].isPrefixOf (c :: cs) = true
        · exact agrees_blockStart hr hsp hline hblock (hsuf (.inr rfl) (List.drop_suffix _ _))
        cases hopen : (rawPrefixAt (c :: cs)).bind (fun openPrefix =>
            (rawDelimiter ((c :: cs).drop openPrefix.length)).map fun d => (openPrefix, d)) with
        | some q =>
          obtain ⟨p, hp, hd⟩ := Option.bind_eq_some_iff.1 hopen
          obtain ⟨d, hd, -⟩ := Option.map_eq_some_iff.1 hd
          exact agrees_raw hr hsp hline hblock hp hd hcode
        | none =>
          by_cases hquote : c = '"' ∨ c = '\''
          · exact agrees_quote hr hs hsp hline hblock hopen hquote hcode
          · exact agrees_word hr hsp hline hblock hopen hquote hcode
      · exact agrees_inBlock hr hcode

/-! ## All lines -/

section Lines

variable {text line t : List Char}

/-- A text is one line, or a line and a line end before the others. -/
theorem splitLines_cases (text : List Char) : ('\n' ∉ text ∧ splitLines text = [text]) ∨
    ∃ line t, text = line ++ '\n' :: t ∧ '\n' ∉ line ∧ splitLines text = line :: splitLines t := by
  by_cases h : '\n' ∈ text
  · obtain ⟨line, t, rfl, hline⟩ := List.eq_append_cons_of_mem h
    exact .inr ⟨line, t, rfl, hline, List.splitOn_append_cons_self_of_not_mem hline t⟩
  · exact .inl ⟨h, List.splitOn_eq_singleton h⟩

theorem joinSplices_cons {c : Char} {s : List Char} (h : c = '\\' → s.head? ≠ some '\n') :
    joinSplices (c :: s) = c :: joinSplices s := by
  rw [joinSplices]
  rintro cs rfl rfl
  exact h rfl rfl

/-- A line that does not end in a backslash stays as it is. -/
theorem joinSplices_append (h : Plain line) (rest : List Char) :
    joinSplices (line ++ rest) = line ++ joinSplices rest := by
  induction line with
  | nil => rfl
  | cons c cs ih =>
    rw [List.cons_append, joinSplices_cons, ih (h.suffix (List.suffix_cons _ _)), List.cons_append]
    rintro rfl
    cases cs with
    | nil => exact absurd rfl h.last
    | cons d cs =>
      rw [List.cons_append, List.head?_cons]
      intro hd
      exact h.oneLine (by simp [Option.some.inj hd])

/-- **No line of the text ends in a backslash.** -/
def Unspliced (text : List Char) : Prop := ∀ line ∈ splitLines text, line.getLast? ≠ some '\\'

/-- Such a text has no splices to join. -/
theorem joinSplices_eq (h : Unspliced text) : joinSplices text = text := by
  induction hn : text.length using Nat.strong_induction_on generalizing text with
  | _ n ih =>
    rw [Unspliced] at h
    rcases splitLines_cases text with ⟨hone, hsplit⟩ | ⟨line, t, rfl, hone, hsplit⟩
    · rw [hsplit] at h
      have hjoin := joinSplices_append ⟨hone, h text List.mem_cons_self⟩ []
      rwa [joinSplices, List.append_nil] at hjoin
    · rw [hsplit] at h
      obtain ⟨hline, ht⟩ := List.forall_mem_cons.1 h
      rw [joinSplices_append ⟨hone, hline⟩, joinSplices_cons fun h => absurd h (by decide),
        ih t.length (by simp at hn; omega) ht rfl]

theorem hasLineSplice_eq (h : line.getLast? ≠ some '\\') : hasLineSplice line = false := by
  rw [hasLineSplice]
  cases hrev : line.reverse with
  | nil => rfl
  | cons c cs =>
    have hc : c ≠ '\\' := by
      rintro rfl
      rw [← List.head?_reverse, hrev] at h
      exact h rfl
    rw [List.takeWhile_cons_of_neg (by simpa using hc)]
    rfl

theorem resume_newline {st : LexState} (hst : st.Calm) (t : List Char) :
    tokensOf (resume st ('\n' :: t)) = tokensOf (resume st t) := by
  rcases hst with rfl | rfl
  · rw [resume_code, resume_code, tokensOf_newline]
  · rw [resume_blockComment_newline]

theorem resume_nil {st : LexState} (hst : st.Calm) : tokensOf (resume st []) = [] := by
  rcases hst with rfl | rfl <;> rfl

/-- The lines from a state on find the tokens of the text from there on. -/
theorem lexLines_agrees {st : LexState} (hst : st.Calm) (hs : Unspliced text)
    (hcalm : ∀ lexed ∈ lexLines st (splitLines text), lexed.state.Calm) :
    (lexLines st (splitLines text)).flatMap LexedLine.tokens = tokensOf (resume st text) := by
  induction hn : text.length using Nat.strong_induction_on generalizing text st with
  | _ n ih =>
    rw [Unspliced] at hs
    rcases splitLines_cases text with ⟨hone, hsplit⟩ | ⟨line, t, rfl, hone, hsplit⟩
    · rw [hsplit] at hs hcalm ⊢
      have hlast := hs text List.mem_cons_self
      have hcalm' := hcalm _ List.mem_cons_self
      rw [lexLine, hasLineSplice_eq hlast] at hcalm'
      have hagree := scan_agrees hst ⟨hone, hlast⟩ (.inl rfl : LineEnd []) hcalm'
      rw [List.append_nil, resume_nil hcalm', List.append_nil] at hagree
      rw [lexLines, lexLines, List.flatMap_cons, List.flatMap_nil, List.append_nil, lexLine,
        hasLineSplice_eq hlast, hagree]
    · rw [hsplit] at hs hcalm ⊢
      obtain ⟨hlast, ht⟩ := List.forall_mem_cons.1 hs
      rw [lexLines, lexLine, hasLineSplice_eq hlast] at hcalm ⊢
      obtain ⟨hcalm', htcalm⟩ := List.forall_mem_cons.1 hcalm
      rw [scan_agrees hst ⟨hone, hlast⟩ (.inr ⟨t, rfl⟩) hcalm', resume_newline hcalm',
        List.flatMap_cons, ih t.length (by simp at hn; omega) hcalm' ht htcalm rfl]

/-- **The tokens of the lines are the tokens of the text**, when no line ends in a backslash and no
literal and no raw string is open at the end of a line.  Block comments may go on for any number of
lines. -/
theorem flatMap_tokenizeLines (hs : Unspliced (newlines text))
    (hcalm : ∀ lexed ∈ tokenizeLines (splitLines (newlines text)), lexed.state.Calm) :
    (tokenizeLines (splitLines (newlines text))).flatMap LexedLine.tokens = tokenize text := by
  rw [tokenize, joinSplices_eq hs, tokenizeLines, lexLines_agrees (.inl rfl) hs hcalm, resume_code]

end Lines

/-- A comment over three lines between code, and one that is never closed. -/
theorem flatMap_tokenizeLines_sample :
    (tokenizeLines (splitLines (newlines "a /* b\n\"c\n*/ d=1;\r\nR\"x(q)x\" /* e".toList))).flatMap
      LexedLine.tokens = ["a", "d", "=", "1", ";", "R\"x(q)x\""] :=
  (flatMap_tokenizeLines (by simp only [Unspliced]; decide +kernel)
    (by simp only [LexState.Calm]; decide +kernel)).trans (by decide +kernel)

end FosCoverage.CppLexer
