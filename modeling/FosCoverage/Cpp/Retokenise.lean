import FosCoverage.Cpp.Agreement
import FosCoverage.Cpp.Parser
import Mathlib.Data.List.Chain
import Mathlib.Data.List.TakeWhile

/-!
# Tokens that are joined and read again

Tokens are kept as one text with a space between two of them, and the text is read again.

* A token is `Closed` when it is read as itself before a space and at the end, and `Terminal` when it
  is at the end.  Every token of a text is closed, but for a literal without its second quote, which is
  the last one (`closed_of_lexStep`, with a lemma for each class of tokens).
* `tokensOf_join` reads such tokens again when they are joined, and `rejoins_tokensOf` says that the
  tokens of a text are such.
* The joined text has a line end only where a token has one, so nothing in it is a splice when the
  text had none (`Smooth`, `smooth_join`).
-/

set_option autoImplicit false

namespace FosCoverage

namespace CppLexer

open Text CppSourceAnalyzer

/-! ## Closed tokens -/

/-- The text is one token, with a space or nothing behind it. -/
def Closed (t : List Char) : Prop :=
  ∃ c cs, t = c :: cs ∧ ∀ rest, EndsAt ' ' rest → lexStep c (cs ++ rest) = (some t, rest)

/-- The text is one token, with nothing behind it. -/
def Terminal (t : List Char) : Prop := ∃ c cs, t = c :: cs ∧ lexStep c cs = (some t, [])

theorem Closed.terminal {t : List Char} (h : Closed t) : Terminal t := by
  obtain ⟨c, cs, rfl, hlex⟩ := h
  refine ⟨c, cs, rfl, ?_⟩
  have hend := hlex [] (.inl rfl)
  rwa [List.append_nil] at hend

section Literal

variable {mark : Char} {s l r : List Char}

/-- A literal that is closed is read alike, whatever follows; one that is not is the rest of the
text. -/
theorem literal_closed (h : literal mark s = (l, r)) :
    (l.getLast? = some mark ∧ ∀ rest, literal mark (l ++ rest) = (l, rest)) ∨ (l = s ∧ r = []) := by
  fun_induction literal mark s generalizing l r with
  | case1 =>
    obtain ⟨rfl, rfl⟩ := Prod.mk.inj h
    exact .inr ⟨rfl, rfl⟩
  | case2 =>
    obtain ⟨rfl, rfl⟩ := Prod.mk.inj h
    exact .inr ⟨rfl, rfl⟩
  | case3 c cs l' rest' heq ih =>
    obtain ⟨rfl, rfl⟩ := Prod.mk.inj h
    rcases ih heq with ⟨hlast, hclosed⟩ | ⟨rfl, rfl⟩
    · refine .inl ⟨by simp [List.getLast?_cons, hlast], fun rest => ?_⟩
      rw [List.cons_append, List.cons_append, literal, hclosed]
    · exact .inr ⟨rfl, rfl⟩
  | case4 cs hlast hpair =>
    obtain ⟨rfl, rfl⟩ := Prod.mk.inj h
    refine .inl ⟨rfl, fun rest => ?_⟩
    by_cases hc : mark = '\\'
    · subst hc
      cases cs with
      | nil => exact absurd rfl (hlast rfl)
      | cons d ds => exact absurd rfl (hpair d ds rfl)
    · rw [List.cons_append, literal_cons hc, if_pos rfl, List.nil_append]
  | case5 =>
    rename_i c cs hlast hpair hne l' rest' heq ih
    obtain ⟨rfl, rfl⟩ := Prod.mk.inj h
    have hc : c ≠ '\\' := by
      rintro rfl
      cases cs with
      | nil => exact hlast rfl rfl
      | cons d ds => exact hpair d ds rfl rfl
    rcases ih heq with ⟨hlast, hclosed⟩ | ⟨rfl, rfl⟩
    · refine .inl ⟨by simp [List.getLast?_cons, hlast], fun rest => ?_⟩
      rw [List.cons_append, literal_cons hc, if_neg hne, hclosed]
    · exact .inr ⟨rfl, rfl⟩

theorem append_of_literal (h : literal mark s = (l, r)) : l ++ r = s := by
  fun_induction literal mark s generalizing l r with
  | case1 =>
    obtain ⟨rfl, rfl⟩ := Prod.mk.inj h
    rfl
  | case2 =>
    obtain ⟨rfl, rfl⟩ := Prod.mk.inj h
    rfl
  | case3 c cs l' rest' heq ih =>
    obtain ⟨rfl, rfl⟩ := Prod.mk.inj h
    rw [List.cons_append, List.cons_append, ih heq]
  | case4 cs hlast hpair =>
    obtain ⟨rfl, rfl⟩ := Prod.mk.inj h
    rfl
  | case5 =>
    rename_i c cs hlast hpair hne l' rest' heq ih
    obtain ⟨rfl, rfl⟩ := Prod.mk.inj h
    rw [List.cons_append, ih heq]

/-- A literal that begins with one of the two quotes. -/
theorem lexStep_quote {c : Char} (hc : c = '"' ∨ c = '\'') (cs : List Char) :
    lexStep c cs = (some (c :: (literal c cs).1), (literal c cs).2) := by
  have hspace : ¬ isSpace c = true := by rcases hc with rfl | rfl <;> decide
  have hslash : c ≠ '/' := by rcases hc with rfl | rfl <;> decide
  have hcomment : ∀ d, ¬ ['/', d].isPrefixOf (c :: cs) = true := fun d => by
    simp [List.isPrefixOf, Ne.symm hslash]
  rw [lexStep, if_neg hspace, if_neg (hcomment '/'), if_neg (hcomment '*'), if_pos hc]

end Literal

section Word

variable {s t r : List Char} {c : Char}

theorem takeWhile_takeWhile_self (P : Char → Bool) (s : List Char) :
    (s.takeWhile P).takeWhile P = s.takeWhile P ∧ (s.takeWhile P).dropWhile P = [] :=
  ⟨List.takeWhile_eq_self_iff.2 fun _ => List.mem_takeWhile_imp,
    List.dropWhile_eq_nil_iff.2 fun _ => List.mem_takeWhile_imp⟩

theorem head?_takeWhile_any {P : Char → Bool} (h : s.head?.any P = true) :
    (s.takeWhile P).head?.any P = true := by
  cases s with
  | nil => cases h
  | cons c s =>
    have hc : P c = true := h
    rw [List.takeWhile_cons_of_pos hc]
    exact h

/-- No space and no quote is in the text. -/
abbrev Solid (t : List Char) : Prop := ∀ x ∈ t, isSpace x = false ∧ x ≠ '"'

theorem solid_wordChar {c : Char} (h : c.isAlphanum = true) : isSpace c = false ∧ c ≠ '"' := by
  constructor
  · rw [Bool.eq_false_iff]
    intro hspace
    have hno : c.isAlphanum = false := WordTable.asciiOnly.space c hspace
    rw [h] at hno
    cases hno
  · rintro rfl
    exact absurd h (by decide)

theorem solid_digit {c : Char} (h : c.isDigit = true) : isSpace c = false ∧ c ≠ '"' :=
  solid_wordChar (by rw [Char.isAlphanum, h, Bool.or_true])

theorem solid_hexDigit {c : Char} (h : isHexDigit c = true) : isSpace c = false ∧ c ≠ '"' := by
  refine solid_wordChar ?_
  simp only [isHexDigit, Bool.or_eq_true, Bool.and_eq_true, decide_eq_true_eq] at h
  rw [isAlphanum_iff]
  rcases h with (h | ⟨hlow, hhigh⟩) | ⟨hlow, hhigh⟩
  · exact .inr (Char.isDigit_iff_toNat.1 h)
  · exact .inl (.inr ⟨hlow, le_trans (UInt32.le_iff_toNat_le.1 hhigh) (by decide)⟩)
  · exact .inl (.inl ⟨hlow, le_trans (UInt32.le_iff_toNat_le.1 hhigh) (by decide)⟩)

theorem solid_identChar {c : Char} (h : isIdentChar c = true) : isSpace c = false ∧ c ≠ '"' := by
  rw [isIdentChar, Bool.or_eq_true, beq_iff_eq] at h
  rcases h with h | rfl
  · exact solid_wordChar h
  · decide

/-- A number without the mark of a hexadecimal one is decimal. -/
theorem number_eq_decimal (h : ∀ x cs, s = '0' :: x :: cs → (x == 'x' || x == 'X') = false) :
    number s = number.decimal s := by
  unfold number
  split
  · next x cs => rw [h x cs rfl, Bool.false_and, if_neg Bool.false_ne_true]
  · rfl

theorem decimal_self (h : number.decimal s = some (t, r)) :
    t ++ r = s ∧ number t = some (t, []) ∧ t.head?.any Char.isDigit = true ∧ Solid t := by
  have hmark : ∀ x, Char.isDigit x = true ∨ x = '.' → (x == 'x' || x == 'X') = false := by
    intro x hx
    rw [Bool.or_eq_false_iff, beq_eq_false_iff_ne, beq_eq_false_iff_ne]
    constructor <;> rintro rfl <;> exact absurd hx (by decide)
  have hdigits : ∀ {s : List Char}, ∀ x ∈ s.takeWhile Char.isDigit, x.isDigit = true :=
    fun _ hx => List.mem_takeWhile_imp hx
  rw [number.decimal] at h
  split at h
  · next hhead =>
    have hsplit := List.takeWhile_append_dropWhile (p := Char.isDigit) (l := s)
    have hhead' := head?_takeWhile_any hhead
    generalize hds : s.takeWhile Char.isDigit = ds at h hsplit hhead'
    have hds' : ∀ x ∈ ds, x.isDigit = true := by
      rw [← hds]
      exact hdigits
    split at h
    · next cs hdrop =>
      obtain ⟨rfl, rfl⟩ := Prod.mk.inj (Option.some.inj h)
      have hfirst : (ds ++ '.' :: cs.takeWhile Char.isDigit).head?.any Char.isDigit = true := by
        cases ds with
        | nil => cases hhead'
        | cons d ds => exact hhead'
      refine ⟨?_, ?_, hfirst, ?_⟩
      · rw [List.append_assoc, List.cons_append, List.takeWhile_append_dropWhile, ← hdrop, hsplit]
      · rw [number_eq_decimal, number.decimal, if_pos hfirst]
        · rw [List.dropWhile_append_of_pos hds', List.takeWhile_append_of_pos hds']
          simp [takeWhile_takeWhile_self, Char.isDigit]
        · intro x xs heq
          refine hmark x ?_
          cases ds with
          | nil => cases hhead'
          | cons d ds =>
            cases ds with
            | nil =>
              obtain ⟨-, heq⟩ := List.cons.inj heq
              exact .inr (List.cons.inj heq).1.symm
            | cons e ds =>
              obtain ⟨-, heq⟩ := List.cons.inj heq
              exact .inl (by rw [← (List.cons.inj heq).1]; exact hds' e (by simp))
      · intro x hx
        rcases List.mem_append.1 hx with hx | hx
        · exact solid_digit (hds' x hx)
        · rcases List.mem_cons.1 hx with rfl | hx
          · decide
          · exact solid_digit (hdigits x hx)
    · obtain ⟨rfl, rfl⟩ := Prod.mk.inj (Option.some.inj h)
      refine ⟨hsplit, ?_, hhead', fun x hx => solid_digit (hds' x hx)⟩
      rw [number_eq_decimal, number.decimal, if_pos hhead']
      · rw [List.dropWhile_eq_nil_iff.2 hds', List.takeWhile_eq_self_iff.2 hds']
      · intro x xs heq
        exact hmark x (.inl (hds' x (by rw [heq]; simp)))
  · cases h

theorem number_self (h : number s = some (t, r)) :
    t ++ r = s ∧ number t = some (t, []) ∧ t.head?.any Char.isDigit = true ∧ Solid t := by
  unfold number at h
  split at h
  · next x cs =>
    split at h
    · next hmark =>
      obtain ⟨rfl, rfl⟩ := Prod.mk.inj (Option.some.inj h)
      rw [Bool.and_eq_true] at hmark
      refine ⟨by rw [List.cons_append, List.cons_append, List.takeWhile_append_dropWhile], ?_, rfl,
        ?_⟩
      · simp only [number, hmark.1, head?_takeWhile_any hmark.2, Bool.and_self, if_true,
          takeWhile_takeWhile_self]
      · intro y hy
        rcases List.mem_cons.1 hy with rfl | hy
        · decide
        rcases List.mem_cons.1 hy with rfl | hy
        · have hx := hmark.1
          rw [Bool.or_eq_true, beq_iff_eq, beq_iff_eq] at hx
          rcases hx with rfl | rfl <;> decide
        · exact solid_hexDigit (List.mem_takeWhile_imp hy)
    · exact decimal_self h
  · exact decimal_self h

/-- **A word is read as itself.** -/
theorem word_self (h : word s = some (t, r)) :
    t ++ r = s ∧ word t = some (t, []) ∧ t ≠ [] ∧ Solid t := by
  unfold word at h
  split at h
  · next hstart =>
    obtain ⟨rfl, rfl⟩ := Prod.mk.inj (Option.some.inj h)
    have hident : ∀ c, isIdentStart c = true → isIdentChar c = true := by
      intro c hc
      simp only [isIdentStart, Bool.or_eq_true] at hc
      simp only [isIdentChar, Char.isAlphanum, Bool.or_eq_true]
      tauto
    have hhead : (s.takeWhile isIdentChar).head?.any isIdentStart = true := by
      cases s with
      | nil => cases hstart
      | cons c s =>
        rw [List.takeWhile_cons_of_pos (hident c hstart)]
        exact hstart
    refine ⟨List.takeWhile_append_dropWhile, ?_, ?_, fun x hx =>
      solid_identChar (List.mem_takeWhile_imp hx)⟩
    · rw [word, if_pos hhead, (takeWhile_takeWhile_self _ _).1, (takeWhile_takeWhile_self _ _).2]
    · intro hnil
      rw [hnil] at hhead
      cases hhead
  · have hdigit : ∀ c, Char.isDigit c = true → isIdentStart c = false := by
      intro c hc
      rw [Bool.eq_false_iff]
      intro hstart
      simp only [isIdentStart, Bool.or_eq_true, beq_iff_eq] at hstart
      rw [Char.isDigit_iff_toNat] at hc
      change 48 ≤ c.toNat ∧ c.toNat ≤ 57 at hc
      rcases hstart with hstart | rfl
      · rw [isAlpha_iff] at hstart
        omega
      · exact absurd hc.2 (by decide)
    split at h
    · next w hnumber =>
      obtain rfl := Option.some.inj h
      obtain ⟨happ, hself, hhead, hsolid⟩ := number_self hnumber
      refine ⟨happ, ?_, ?_, hsolid⟩
      · cases t with
        | nil => cases hhead
        | cons c t => rw [word, if_neg (by simpa using hdigit c hhead), hself]
      · rintro rfl
        cases hhead
    · obtain ⟨o, ho, heq⟩ := Option.map_eq_some_iff.1 h
      obtain ⟨rfl, rfl⟩ := Prod.mk.inj heq
      have hself : ∀ o ∈ operators, word o = some (o, []) ∧ o ≠ [] ∧
          o.all (fun x => decide (isSpace x = false ∧ x ≠ '"')) = true := by decide
      obtain ⟨hword, hne, hsolid⟩ := hself o (List.mem_of_find?_eq_some ho)
      refine ⟨?_, hword, hne, forall_mem_of_all hsolid⟩
      have hprefix := List.find?_some ho
      exact List.prefix_iff_eq_append.1 (List.isPrefixOf_iff_prefix.1 hprefix)

end Word

section Step

variable {s t r : List Char} {c : Char} {cs : List Char}

/-- The text is behind the spaces, the comments and the literals. -/
structure InCode (c : Char) (cs : List Char) : Prop where
  space : ¬ isSpace c = true
  line : ¬ ['/', '/'].isPrefixOf (c :: cs) = true
  block : ¬ ['/', '*'].isPrefixOf (c :: cs) = true
  quote : ¬ (c = '"' ∨ c = '\'')

theorem InCode.lexStep_eq (h : InCode c cs) :
    lexStep c cs = match rawString (c :: cs) with
      | some (token, rest) => (some token, rest)
      | none =>
        match word (c :: cs) with
        | some (token, rest) => (some token, rest)
        | none => (some [c], cs) := by
  rw [lexStep, if_neg h.space, if_neg h.line, if_neg h.block]
  exact if_neg h.quote

/-- The classes of tokens. -/
theorem token_cases (h : lexStep c cs = (some t, r)) :
    ((c = '"' ∨ c = '\'') ∧ t = c :: (literal c cs).1 ∧ r = (literal c cs).2) ∨
      InCode c cs ∧ (rawString (c :: cs) = some (t, r) ∨ word (c :: cs) = some (t, r) ∨
        (word (c :: cs) = none ∧ t = [c] ∧ r = cs)) := by
  by_cases hspace : isSpace c = true
  · rw [lexStep, if_pos hspace] at h
    cases h
  by_cases hline : ['/', '/'].isPrefixOf (c :: cs) = true
  · rw [lexStep, if_neg hspace, if_pos hline] at h
    cases h
  by_cases hblock : ['/', '*'].isPrefixOf (c :: cs) = true
  · rw [lexStep, if_neg hspace, if_neg hline, if_pos hblock] at h
    cases h
  by_cases hquote : c = '"' ∨ c = '\''
  · rw [lexStep_quote hquote] at h
    obtain ⟨ht, rfl⟩ := Prod.mk.inj h
    exact .inl ⟨hquote, (Option.some.inj ht).symm, rfl⟩
  · have hcode : InCode c cs := ⟨hspace, hline, hblock, hquote⟩
    refine .inr ⟨hcode, ?_⟩
    rw [hcode.lexStep_eq] at h
    split at h
    · next hraw =>
      obtain ⟨ht, rfl⟩ := Prod.mk.inj h
      exact .inl (Option.some.inj ht ▸ hraw)
    · split at h
      · next hword =>
        obtain ⟨ht, rfl⟩ := Prod.mk.inj h
        exact .inr (.inl (Option.some.inj ht ▸ hword))
      · next hword =>
        obtain ⟨ht, rfl⟩ := Prod.mk.inj h
        exact .inr (.inr ⟨hword, (Option.some.inj ht).symm, rfl⟩)

/-- A short pattern is at the start of a text when it is at the start of a long one with the same
beginning. -/
theorem isPrefixOf_of_prefix {p rest : List Char} (hlen : p.length ≤ t.length) (ht : t <+: s) :
    p.isPrefixOf (t ++ rest) = p.isPrefixOf s := by
  rw [Bool.eq_iff_iff, List.isPrefixOf_iff_prefix, List.isPrefixOf_iff_prefix]
  constructor
  · exact fun hp => (List.prefix_of_prefix_length_le hp (List.prefix_append t rest) hlen).trans ht
  · exact fun hp => (List.prefix_of_prefix_length_le hp ht hlen).trans (List.prefix_append t rest)

/-- The first occurrence of a pattern does not depend on what is behind it. -/
theorem cut_replace {p a b : List Char} (hp : p ≠ []) (h : cut p s = some (a, b))
    (b' : List Char) : cut p (a ++ (p ++ b')) = some (a, b') := by
  induction s generalizing a with
  | nil =>
    rw [cut, if_neg hp] at h
    cases h
  | cons c s ih =>
    rw [cut] at h
    split at h
    · next hpre =>
      obtain ⟨rfl, rfl⟩ := Prod.mk.inj (Option.some.inj h)
      obtain ⟨d, p, rfl⟩ := List.exists_cons_of_ne_nil hp
      rw [List.nil_append, List.cons_append, cut, if_pos, ← List.cons_append,
        List.drop_left]
      rw [← List.cons_append, List.isPrefixOf_iff_prefix]
      exact List.prefix_append _ _
    · next hpre =>
      obtain ⟨⟨a', b₀⟩, hcut, heq⟩ := Option.map_eq_some_iff.1 h
      obtain ⟨rfl, rfl⟩ := Prod.mk.inj heq
      have happ : c :: (a' ++ p) <+: c :: s :=
        ⟨b₀, by rw [List.cons_append, List.append_assoc, append_of_cut hcut]⟩
      rw [List.cons_append, cut, if_neg, ih hcut]
      · rfl
      · rw [← List.append_assoc, ← List.cons_append,
          isPrefixOf_of_prefix (by simp; omega) happ]
        exact hpre

/-- The parts of a raw string. -/
theorem parts_of_rawString (h : rawString s = some (t, r)) :
    ∃ p delimiter body content, rawPrefixAt s = some p ∧
      rawDelimiter (s.drop p.length) = some (delimiter, body) ∧
      cut (rawClosing delimiter) body = some (content, r) ∧
      t = p ++ delimiter ++ '(' :: content ++ rawClosing delimiter := by
  simp only [rawString, Option.bind_eq_bind, Option.bind_eq_some_iff] at h
  obtain ⟨p, hp, ⟨delimiter, body⟩, hd, ⟨content, r'⟩, hc, heq⟩ := h
  dsimp only at hc heq
  obtain ⟨rfl, rfl⟩ := Prod.mk.inj (Option.some.inj heq)
  exact ⟨p, delimiter, body, content, hp, hd, hc, rfl⟩

theorem cut_of_rawDelimiter {delimiter body : List Char}
    (h : rawDelimiter s = some (delimiter, body)) : cut ['('] s = some (delimiter, body) ∧
      delimiter.length ≤ 16 ∧
        !(delimiter.any fun c => isSpace c || c ∈ ['(', ')', '\\', '"']) := by
  unfold rawDelimiter at h
  split at h
  · next hcut =>
    split at h
    · next hok =>
      obtain ⟨rfl, rfl⟩ := Prod.mk.inj (Option.some.inj h)
      exact ⟨hcut, hok⟩
    · cases h
  · cases h

/-- What opens a raw string is the start of the text. -/
theorem append_of_openRaw {p delimiter body : List Char} (hp : rawPrefixAt s = some p)
    (hd : rawDelimiter (s.drop p.length) = some (delimiter, body)) :
    p ++ delimiter ++ '(' :: body = s := by
  have hprefix := List.find?_some hp
  rw [List.isPrefixOf_iff_prefix, List.prefix_iff_eq_append] at hprefix
  rw [← hprefix, List.append_assoc, ← append_of_cut (cut_of_rawDelimiter hd).1]
  rfl

theorem append_of_rawString (h : rawString s = some (t, r)) : t ++ r = s := by
  obtain ⟨p, delimiter, body, content, hp, hd, hc, rfl⟩ := parts_of_rawString h
  rw [← append_of_openRaw hp hd, ← append_of_cut hc]
  simp

/-- **A raw string is read alike**, whatever follows. -/
theorem closed_of_rawString (hcode : InCode c cs) (h : rawString (c :: cs) = some (t, r)) :
    Closed t := by
  have hsplit := append_of_rawString h
  obtain ⟨p, delimiter, body, content, hp, hd, hc, rfl⟩ := parts_of_rawString h
  have hmem : p ∈ rawPrefixes := List.mem_of_find?_eq_some hp
  obtain ⟨hcutDelimiter, hok⟩ := cut_of_rawDelimiter hd
  have hlong : 5 ≤ (p ++ delimiter ++ '(' :: content ++ rawClosing delimiter).length := by
    have hlen : ∀ p ∈ rawPrefixes, 2 ≤ p.length := by decide
    have := hlen p hmem
    simp only [rawClosing, List.length_append, List.length_cons, List.length_nil]
    omega
  generalize htoken : p ++ delimiter ++ '(' :: content ++ rawClosing delimiter = token at *
  have hstart : token <+: c :: cs := ⟨r, hsplit⟩
  have hreread : ∀ rest, rawString (token ++ rest) = some (token, rest) := by
    intro rest
    have hpre : rawPrefixAt (token ++ rest) = some p := by
      rw [← hp, rawPrefixAt, rawPrefixAt]
      refine List.find?_congr fun q hq => isPrefixOf_of_prefix ?_ hstart
      have hshort : ∀ q ∈ rawPrefixes, q.length ≤ 4 := by decide
      exact (hshort q hq).trans (by omega)
    have hdrop : (token ++ rest).drop p.length =
        delimiter ++ (['('] ++ (content ++ (rawClosing delimiter ++ rest))) := by
      rw [← htoken]
      simp
    have hdelimiter : rawDelimiter ((token ++ rest).drop p.length) =
        some (delimiter, content ++ (rawClosing delimiter ++ rest)) := by
      rw [rawDelimiter, hdrop, cut_replace (by simp) hcutDelimiter]
      simp only
      rw [if_pos hok]
    rw [rawString, hpre, Option.bind_eq_bind, Option.bind_some, hdelimiter]
    simp only [Option.bind_eq_bind, Option.bind_some]
    rw [cut_replace (rawClosing_ne_nil _) hc]
    simp [← htoken]
  have hne : token ≠ [] := by
    intro hnil
    rw [hnil] at hlong
    exact absurd hlong (by decide)
  obtain ⟨d, token, rfl⟩ := List.exists_cons_of_ne_nil hne
  obtain rfl : d = c := (List.cons_prefix_cons.1 hstart).1
  refine ⟨d, token, rfl, fun rest _ => ?_⟩
  have hcomment : ∀ x, ['/', x].isPrefixOf (d :: (token ++ rest)) = ['/', x].isPrefixOf (d :: cs) :=
    fun x => by
      rw [← List.cons_append]
      refine isPrefixOf_of_prefix ?_ hstart
      rw [List.length_cons, List.length_singleton]
      omega
  have hcode' : InCode d (token ++ rest) :=
    ⟨hcode.space, by rw [hcomment]; exact hcode.line, by rw [hcomment]; exact hcode.block,
      hcode.quote⟩
  rw [hcode'.lexStep_eq, ← List.cons_append, hreread rest]

/-- **A word is read alike** before a space. -/
theorem closed_of_word (hcode : InCode c cs) (h : word (c :: cs) = some (t, r)) : Closed t := by
  obtain ⟨happ, hself, hne, hsolid⟩ := word_self h
  obtain ⟨d, t, rfl⟩ := List.exists_cons_of_ne_nil hne
  have hstart : d :: t <+: c :: cs := ⟨r, happ⟩
  obtain rfl : d = c := (List.cons_prefix_cons.1 hstart).1
  refine ⟨d, t, rfl, fun rest hr => ?_⟩
  have hcomment : ∀ x, ' ' ∉ ['/', x] → ¬ ['/', x].isPrefixOf (d :: cs) = true →
      ¬ ['/', x].isPrefixOf (d :: (t ++ rest)) = true := by
    intro x hx hno hyes
    rw [← List.cons_append, isPrefixOf_append hx hr] at hyes
    refine hno (List.isPrefixOf_iff_prefix.2 ?_)
    exact (List.isPrefixOf_iff_prefix.1 hyes).trans hstart
  have hraw : rawString (d :: t ++ rest) = none := by
    have hprefix : rawPrefixAt (d :: t) = none := by
      refine List.find?_eq_none.2 fun p hp hpre => ?_
      have hquotes : ∀ p ∈ rawPrefixes, '"' ∈ p := by decide
      refine (hsolid '"' ?_).2 rfl
      exact (List.isPrefixOf_iff_prefix.1 hpre).subset (hquotes p hp)
    rw [rawString, rawPrefixAt_append separator_space hr, hprefix]
    rfl
  have hcode' : InCode d (t ++ rest) :=
    ⟨hcode.space, hcomment '/' (by decide) hcode.line, hcomment '*' (by decide) hcode.block,
      hcode.quote⟩
  rw [hcode'.lexStep_eq, ← List.cons_append, hraw, word_append separator_space hr, hself]
  rfl

/-- **A character that begins no word is read alike** before a space. -/
theorem closed_singleton (hcode : InCode c cs) (h : word (c :: cs) = none) : Closed [c] := by
  refine ⟨c, [], rfl, fun rest hr => ?_⟩
  have hlong : ∀ {p : List Char}, ' ' ∉ p → 2 ≤ p.length →
      ¬ p.isPrefixOf (c :: rest) = true := by
    intro p hp hlen hpre
    rw [← List.singleton_append, isPrefixOf_append hp hr] at hpre
    have := (List.isPrefixOf_iff_prefix.1 hpre).length_le
    rw [List.length_singleton] at this
    omega
  have hraw : rawString ([c] ++ rest) = none := by
    have hprefix : rawPrefixAt ([c] ++ rest) = none := by
      refine List.find?_eq_none.2 fun p hp => ?_
      have hlen : ∀ p ∈ rawPrefixes, 2 ≤ p.length := by decide
      exact hlong (separator_space.rawPrefixes p hp) (hlen p hp)
    rw [rawString, hprefix]
    rfl
  have hword : word [c] = none := by
    have hstart : ¬ isIdentStart c = true := by
      intro hc
      rw [word, if_pos (by simpa using hc)] at h
      cases h
    have hnumber : number (c :: cs) = none := by
      rw [word, if_neg (by simpa using hstart)] at h
      cases hn : number (c :: cs) with
      | none => rfl
      | some w =>
        rw [hn] at h
        cases h
    have hdigit : ¬ c.isDigit = true := by
      intro hc
      have hsome : ∀ s : List Char, number.decimal (c :: s) ≠ none := by
        intro s
        rw [number.decimal, if_pos (by simpa using hc)]
        split <;> simp
      unfold number at hnumber
      split at hnumber
      · next heq =>
        split at hnumber
        · cases hnumber
        · exact hsome _ (by rw [(List.cons.inj heq).1]; exact hnumber)
      · exact hsome _ hnumber
    have hdecimal : number [c] = none := by
      rw [number_eq_decimal (by simp), number.decimal, if_neg (by simpa using hdigit)]
    rw [word, if_neg (by simpa using hstart), hdecimal, Option.map_eq_none_iff]
    refine List.find?_eq_none.2 fun o ho hpre => ?_
    have hlen : ∀ o ∈ operators, 2 ≤ o.length := by decide
    have := (List.isPrefixOf_iff_prefix.1 hpre).length_le
    have := hlen o ho
    rw [List.length_singleton] at *
    omega
  have happ : word ([c] ++ rest) = none := by
    rw [word_append separator_space hr, hword]
    rfl
  rw [List.singleton_append] at hraw happ
  have hcode' : InCode c rest :=
    ⟨hcode.space, hlong (by decide) (by decide), hlong (by decide) (by decide), hcode.quote⟩
  rw [List.nil_append, hcode'.lexStep_eq, hraw, happ]

/-- **Every token is closed**, but for a literal that is the rest of the text. -/
theorem closed_of_lexStep (h : lexStep c cs = (some t, r)) :
    Closed t ∨ (t = c :: cs ∧ r = []) := by
  rcases token_cases h with ⟨hquote, rfl, rfl⟩ | ⟨hcode, hraw | hword | ⟨hword, rfl, rfl⟩⟩
  · rcases literal_closed (Prod.mk.eta (p := literal c cs)).symm with ⟨-, hclosed⟩ | ⟨hl, hr⟩
    · refine .inl ⟨c, _, rfl, fun rest _ => ?_⟩
      rw [lexStep_quote hquote, hclosed]
    · exact .inr ⟨by rw [hl], hr⟩
  · exact .inl (closed_of_rawString hcode hraw)
  · exact .inl (closed_of_word hcode hword)
  · exact .inl (closed_singleton hcode hword)

/-- A token is the start of the text. -/
theorem append_of_lexStep (h : lexStep c cs = (some t, r)) : t ++ r = c :: cs := by
  rcases token_cases h with ⟨hquote, rfl, rfl⟩ | ⟨hcode, hraw | hword | ⟨hword, rfl, rfl⟩⟩
  · rw [List.cons_append, append_of_literal (Prod.mk.eta (p := literal c cs)).symm]
  · exact append_of_rawString hraw
  · exact (word_self hword).1
  · rfl

/-- A token does not end in a space, but for a literal that is the rest of the text. -/
theorem getLast?_of_lexStep (h : lexStep c cs = (some t, r)) :
    (∃ d, t.getLast? = some d ∧ isSpace d = false) ∨ (t = c :: cs ∧ r = []) := by
  rcases token_cases h with ⟨hquote, rfl, rfl⟩ | ⟨hcode, hraw | hword | ⟨hword, rfl, rfl⟩⟩
  · rcases literal_closed (Prod.mk.eta (p := literal c cs)).symm with ⟨hlast, -⟩ | ⟨hl, hr⟩
    · refine .inl ⟨c, by simp [List.getLast?_cons, hlast], ?_⟩
      rcases hquote with rfl | rfl <;> decide
    · exact .inr ⟨by rw [hl], hr⟩
  · obtain ⟨p, delimiter, body, content, -, -, -, rfl⟩ := parts_of_rawString hraw
    exact .inl ⟨'"', by simp [rawClosing, List.getLast?_cons], by decide⟩
  · obtain ⟨-, -, hne, hsolid⟩ := word_self hword
    exact .inl ⟨_, List.getLast?_eq_some_getLast hne, (hsolid _ (List.getLast_mem hne)).1⟩
  · exact .inl ⟨c, rfl, Bool.eq_false_iff.2 hcode.space⟩

end Step

/-! ## Joined tokens -/

/-- Every token but the last one is closed, and the last one is terminal. -/
def Rejoins : List String → Prop
  | [] => True
  | [t] => Terminal t.toList
  | t :: ts => Closed t.toList ∧ Rejoins ts

theorem Rejoins.cons {t : String} {ts : List String} (ht : Closed t.toList) (h : Rejoins ts) :
    Rejoins (t :: ts) := by
  cases ts with
  | nil => exact ht.terminal
  | cons t' ts => exact ⟨ht, h⟩

theorem rejoins_of_closed {ts : List String} (h : ∀ t ∈ ts, Closed t.toList) : Rejoins ts := by
  induction ts with
  | nil => trivial
  | cons t ts ih =>
    exact Rejoins.cons (h t List.mem_cons_self) (ih fun t' ht' => h t' (List.mem_cons_of_mem t ht'))

theorem tokensOf_space (s : List Char) : tokensOf (' ' :: s) = tokensOf s := by
  rw [tokensOf_cons, lexStep, if_pos (by decide)]
  rfl

theorem join_cons_cons (t t' : String) (ts : List String) :
    (join (t :: t' :: ts)).toList = t.toList ++ ' ' :: (join (t' :: ts)).toList := by
  rw [join, String.intercalate_cons_cons, String.toList_append, String.toList_append]
  simp [join]

/-- **Tokens that are joined are read again.** -/
theorem tokensOf_join {ts : List String} (h : Rejoins ts) : tokensOf (join ts).toList = ts := by
  induction ts with
  | nil => rfl
  | cons t ts ih =>
    cases ts with
    | nil =>
      obtain ⟨c, cs, ht, hlex⟩ := h
      rw [join, String.intercalate_singleton, ht, tokensOf_cons, hlex, Option.map_some,
        String.ofList_toList]
      rfl
    | cons t' ts =>
      obtain ⟨⟨c, cs, ht, hlex⟩, hts⟩ := h
      rw [join_cons_cons, ht, List.cons_append, tokensOf_cons, hlex _ (.inr ⟨_, rfl⟩),
        tokensOf_space, ih hts]
      simp

/-- The tokens of a text can be joined. -/
theorem rejoins_tokensOf (s : List Char) : Rejoins (tokensOf s) := by
  induction hn : s.length using Nat.strong_induction_on generalizing s with
  | _ n ih =>
    cases s with
    | nil => trivial
    | cons c cs =>
      have hrest : (lexStep c cs).2.length < n := by
        have hle := (suffix_lexStep c cs).length_le
        rw [List.length_cons] at hn
        omega
      have hih := ih _ hrest (lexStep c cs).2 rfl
      rw [tokensOf_cons]
      cases hstep : lexStep c cs with
      | mk o r =>
        rw [hstep] at hih
        cases o with
        | none => exact hih
        | some t =>
          rcases closed_of_lexStep hstep with hclosed | ⟨ht, hr⟩
          · exact Rejoins.cons (by rwa [String.toList_ofList]) hih
          · -- a literal without its second quote is the last token
            have hlast : Terminal t := ⟨c, cs, ht, hr ▸ hstep⟩
            rw [hr]
            change Terminal (String.ofList t).toList
            rwa [String.toList_ofList]

/-! ## Line ends -/

/-- No backslash stands directly before a line end. -/
def Unbroken (text : List Char) : Prop := text.IsChain fun a b => a = '\\' → b ≠ '\n' ∧ b ≠ '\r'

/-- A text with normalised line ends and without a splice. -/
structure Smooth (s : List Char) : Prop where
  noReturn : '\r' ∉ s
  noSplice : s.IsChain fun a b => a = '\\' → b ≠ '\n'

namespace Smooth

variable {s t : List Char}

theorem piece (h : Smooth s) (ht : t <:+: s) : Smooth t := by
  obtain ⟨a, b, rfl⟩ := ht
  exact ⟨fun hr => h.noReturn (by simp [hr]), h.noSplice.left_of_append.right_of_append⟩

theorem of_flat (h : ∀ c ∈ s, c ≠ '\n' ∧ c ≠ '\r') : Smooth s := by
  refine ⟨fun hr => (h _ hr).2 rfl, ?_⟩
  induction s with
  | nil => exact .nil
  | cons c s ih =>
    refine List.isChain_cons.2 ⟨fun d hd _ => ?_, ih fun x hx => h x (List.mem_cons_of_mem c hx)⟩
    exact (h d (List.mem_cons_of_mem c (List.mem_of_mem_head? hd))).1

theorem cons {c : Char} (hr : c ≠ '\r') (hc : c = '\\' → s.head? ≠ some '\n') (h : Smooth s) :
    Smooth (c :: s) := by
  refine ⟨?_, List.isChain_cons.2 ⟨fun d hd heq hn => hc heq (hn ▸ hd), h.noSplice⟩⟩
  rw [List.mem_cons, not_or]
  exact ⟨hr.symm, h.noReturn⟩

theorem append_space (hs : Smooth s) (ht : Smooth t) : Smooth (s ++ ' ' :: t) := by
  have hspace : Smooth (' ' :: t) := ht.cons (by decide) fun h => absurd h (by decide)
  refine ⟨?_, hs.noSplice.append hspace.noSplice fun x _ y hy _ => ?_⟩
  · rw [List.mem_append, not_or]
    exact ⟨hs.noReturn, hspace.noReturn⟩
  · rintro rfl
    exact absurd (Option.some.inj hy) (by decide)

theorem newlines_eq (h : Smooth s) : newlines s = s := by
  induction s using newlines.induct with
  | case1 cs => exact absurd List.mem_cons_self h.noReturn
  | case2 cs => exact absurd List.mem_cons_self h.noReturn
  | case3 c cs h₁ h₂ ih =>
    rw [newlines, ih (h.piece (List.suffix_cons c cs).isInfix)]
    · exact h₁
    · exact h₂
  | case4 => rfl

theorem joinSplices_eq (h : Smooth s) : joinSplices s = s := by
  induction s with
  | nil => rfl
  | cons c s ih =>
    rw [joinSplices_cons, ih (h.piece (List.suffix_cons c s).isInfix)]
    intro hc hn
    exact (List.isChain_cons.1 h.noSplice).1 _ hn hc rfl

theorem tokenize_eq (h : Smooth s) : tokenize s = tokensOf s := by
  rw [tokenize, h.newlines_eq, h.joinSplices_eq]

end Smooth

theorem smooth_newlines {text : List Char} (h : Unbroken text) : Smooth (newlines text) := by
  induction text using newlines.induct with
  | case1 cs ih =>
    rw [newlines]
    exact (ih (h.suffix ⟨['\r', '\n'], rfl⟩)).cons (by decide) fun h => absurd h (by decide)
  | case2 cs hcs ih =>
    rw [newlines]
    · exact (ih (h.suffix (List.suffix_cons _ cs))).cons (by decide) fun h => absurd h (by decide)
    · exact hcs
  | case3 c cs h₁ h₂ ih =>
    rw [newlines]
    · refine (ih (h.suffix (List.suffix_cons c cs))).cons h₂ fun hc hn => ?_
      have hhead : cs.head? = some '\n' ∨ cs.head? = some '\r' := by
        cases cs using newlines.fun_cases with
        | case1 => exact .inr rfl
        | case2 => exact .inr rfl
        | case3 d ds h₃ h₄ =>
          rw [newlines] at hn
          · exact .inl hn
          · exact h₃
          · exact h₄
        | case4 => cases hn
      rcases hhead with hhead | hhead
      · exact ((List.isChain_cons.1 h).1 _ hhead hc).1 rfl
      · exact ((List.isChain_cons.1 h).1 _ hhead hc).2 rfl
    · exact h₁
    · exact h₂
  | case4 => exact ⟨List.not_mem_nil, .nil⟩

/-! ## The tokens of a text -/

/-- A token is a piece of the text. -/
theorem isInfix_of_mem_tokensOf {s : List Char} : ∀ t ∈ tokensOf s, t.toList <:+: s := by
  induction hn : s.length using Nat.strong_induction_on generalizing s with
  | _ n ih =>
    intro t ht
    cases s with
    | nil => cases ht
    | cons c cs =>
      have hsuf := suffix_lexStep c cs
      have hrest : (lexStep c cs).2.length < n := by
        have hle := hsuf.length_le
        rw [List.length_cons] at hn
        omega
      rw [tokensOf_cons, List.mem_append] at ht
      rcases ht with ht | ht
      · cases hstep : lexStep c cs with
        | mk o r =>
          rw [hstep] at ht
          cases o with
          | none => cases ht
          | some token =>
            obtain rfl : t = String.ofList token := by simpa using ht
            rw [String.toList_ofList, ← append_of_lexStep hstep]
            exact (List.prefix_append token r).isInfix
      · exact (ih _ hrest rfl t ht).trans (hsuf.trans (List.suffix_cons c cs)).isInfix

theorem smooth_join {ts : List String} (h : ∀ t ∈ ts, Smooth t.toList) :
    Smooth (join ts).toList := by
  induction ts with
  | nil => exact ⟨List.not_mem_nil, .nil⟩
  | cons t ts ih =>
    obtain ⟨ht, hts⟩ := List.forall_mem_cons.1 h
    cases ts with
    | nil => rwa [join, String.intercalate_singleton]
    | cons t' ts =>
      rw [join_cons_cons]
      exact ht.append_space (ih hts)

/-- `d` is made of the tokens, and it is read as these. -/
def Rereads (d : String) (tokens : List String) : Prop :=
  d = join tokens ∧ tokenize d.toList = tokens

theorem rereads_join {ts : List String} (h : Rejoins ts) (hs : ∀ t ∈ ts, Smooth t.toList) :
    Rereads (join ts) ts := by
  refine ⟨rfl, ?_⟩
  rw [(smooth_join hs).tokenize_eq, tokensOf_join h]

/-- The tokens of a text without splices are read again. -/
theorem rereads_tokensOf {s : List Char} (h : Smooth s) :
    Rereads (join (tokensOf s)) (tokensOf s) :=
  rereads_join (rejoins_tokensOf s) fun t ht => h.piece (isInfix_of_mem_tokensOf t ht)

end CppLexer

end FosCoverage
