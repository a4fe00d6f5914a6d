import FosCoverage.Cpp.Renumber
import FosCoverage.Cpp.Retokenise

/-!
# The contexts that are kept

The inheritance engine keeps the conditions around a line as joined tokens, and reads these texts again
when it looks for the names in them.

* `closed_of_fresh` and `closed_of_mem_tail` say which tokens of a line are closed: all that begin in
  the line, so all but the first one.
* A control header begins with a word, which is closed too (`rereads_header`), and what is kept of a
  directive is its kind and the tokens of its expression (`rereads_conditionOf`).
* `tokenize_join` is the result: **the tokens of a text, joined with spaces, have the same tokens**, and
  every context that the analysis of the text keeps is read as the tokens that it was made from, when
  no backslash stands directly before a line end.
-/

set_option autoImplicit false

namespace FosCoverage

namespace CppLexer

open Text CppSourceAnalyzer

/-! ## The tokens of a line -/

/-- What is open in a line began in the line: what closes it makes a closed token. -/
def LexState.Fresh (s : List Char) : LexState → Prop
  | .code => True
  | .blockComment => True
  | .raw delimiter read => ∀ content rest, cut (rawClosing delimiter) s = some (content, rest) →
      Closed (read ++ content ++ rawClosing delimiter)
  | .quote mark read => s = [] ∨ (mark = '"' ∨ mark = '\'') ∧ ∃ l, read = mark :: l ∧
      ∀ more, literal mark (l ++ more) = (l ++ (literal mark more).1, (literal mark more).2)

/-- All that is read of what is open satisfies `P`. -/
def LexState.Within (P : Char → Prop) : LexState → Prop
  | .code => True
  | .blockComment => True
  | .raw _ read => ∀ c ∈ read, P c
  | .quote _ read => ∀ c ∈ read, P c

/-- What a step of the line lexer yields is closed. -/
def LineStep.Fresh (step : LineStep) : Prop :=
  (∀ t, step.token = some t → Closed t) ∧ step.state.Fresh step.rest

/-- All that a step of the line lexer reads satisfies `P`. -/
def LineStep.Within (P : Char → Prop) (step : LineStep) : Prop :=
  (∀ t, step.token = some t → ∀ c ∈ t, P c) ∧ step.state.Within P

section Line

variable {spliced : Bool} {c mark : Char} {cs read : List Char} {st : LexState} {P : Char → Prop}

theorem quoteStep_fresh (h : LexState.Fresh (c :: cs) (.quote mark read)) :
    (quoteStep spliced mark read c cs).Fresh := by
  obtain h | ⟨hmark, l, rfl, hl⟩ := h
  · cases h
  have hne : mark ≠ '\\' := by rcases hmark with rfl | rfl <;> decide
  unfold quoteStep
  split
  · next hc =>
    subst hc
    split
    · next d rest =>
      refine ⟨fun t ht => (by cases ht), .inr ⟨hmark, l ++ ['\\', d], rfl, fun more => ?_⟩⟩
      rw [List.append_assoc, hl]
      simp [literal]
    · split
      · exact ⟨fun t ht => (by cases ht), .inl rfl⟩
      · exact ⟨fun t ht => (by cases ht), .inl rfl⟩
  · next hc =>
    split
    · next heq =>
      subst heq
      refine ⟨fun t ht => ?_, trivial⟩
      obtain rfl := Option.some.inj ht
      refine ⟨c, l ++ [c], rfl, fun rest _ => ?_⟩
      rw [lexStep_quote hmark, List.append_assoc, hl, List.singleton_append, literal_cons hc,
        if_pos rfl]
      rfl
    · next hdiff =>
      refine ⟨fun t ht => (by cases ht), .inr ⟨hmark, l ++ [c], rfl, fun more => ?_⟩⟩
      rw [List.append_assoc, hl, List.singleton_append, literal_cons hc, if_neg hdiff]
      simp

theorem codeStep_fresh : (codeStep spliced c cs).Fresh := by
  unfold codeStep
  split
  · exact ⟨fun t ht => (by cases ht), trivial⟩
  next hspace =>
  split
  · exact ⟨fun t ht => (by cases ht), trivial⟩
  next hline =>
  split
  · exact ⟨fun t ht => (by cases ht), trivial⟩
  next hblock =>
  split
  · next p delimiter rest h =>
    obtain ⟨p', hp, hd⟩ := Option.bind_eq_some_iff.1 h
    obtain ⟨d, hd, heq⟩ := Option.map_eq_some_iff.1 hd
    obtain ⟨rfl, rfl⟩ := Prod.mk.inj heq
    refine ⟨fun t ht => (by cases ht), fun content rest' hc => ?_⟩
    have hraw : rawString (c :: cs) =
        some (p' ++ delimiter ++ '(' :: content ++ rawClosing delimiter, rest') := by
      rw [rawString, hp, Option.bind_eq_bind, Option.bind_some, hd]
      simp only [Option.bind_eq_bind, Option.bind_some, hc]
      rfl
    have hclosed := closed_of_rawString ⟨hspace, hline, hblock, not_quote_of_rawPrefixAt hp⟩ hraw
    rw [List.append_assoc _ ['('], List.singleton_append]
    exact hclosed
  split
  · next hquote =>
    exact ⟨fun t ht => (by cases ht), .inr ⟨hquote, [], rfl, fun more => by simp⟩⟩
  next hquote =>
  have hcode : InCode c cs := ⟨hspace, hline, hblock, hquote⟩
  split
  · next hword =>
    refine ⟨fun t ht => ?_, trivial⟩
    obtain rfl := Option.some.inj ht
    exact closed_of_word hcode hword
  · next hword =>
    split
    · exact ⟨fun t ht => (by cases ht), trivial⟩
    · refine ⟨fun t ht => ?_, trivial⟩
      obtain rfl := Option.some.inj ht
      exact closed_singleton hcode hword

theorem lineStep_fresh (h : st.Fresh (c :: cs)) : (lineStep spliced c cs st).Fresh := by
  cases st with
  | code => exact codeStep_fresh
  | quote mark read => exact quoteStep_fresh h
  | blockComment =>
    rw [lineStep]
    split <;> exact ⟨fun t ht => (by cases ht), trivial⟩
  | raw delimiter read =>
    rw [lineStep]
    split
    · next hcut =>
      refine ⟨fun t ht => ?_, trivial⟩
      obtain rfl := Option.some.inj ht
      exact h _ _ hcut
    · refine ⟨fun t ht => (by cases ht), fun content rest hc => ?_⟩
      rw [cut, if_neg (rawClosing_ne_nil delimiter)] at hc
      cases hc

/-- The lexer is back in code behind a token. -/
theorem state_of_token {t : List Char} :
    (lineStep spliced c cs st).token = some t → (lineStep spliced c cs st).state = .code := by
  cases st with
  | code =>
    rw [lineStep, codeStep]
    repeat' split
    all_goals
      intro h
      first | rfl | cases h
  | quote mark read =>
    change (quoteStep spliced mark read c cs).token = some t →
      (quoteStep spliced mark read c cs).state = .code
    unfold quoteStep
    repeat' split
    all_goals
      intro h
      first | rfl | cases h
  | blockComment =>
    rw [lineStep]
    split
    · exact fun h => by cases h
    · exact fun h => by cases h
  | raw delimiter read =>
    rw [lineStep]
    split
    · exact fun _ => rfl
    · exact fun h => (by cases h)

/-- **The tokens that begin in the line are closed.** -/
theorem closed_of_fresh {fuel : Nat} {s : List Char} (h : st.Fresh s) :
    ∀ t ∈ (lexWithin spliced fuel st s).tokens, Closed t.toList := by
  induction fuel generalizing st s with
  | zero => exact fun t ht => (by cases ht)
  | succ fuel ih =>
    cases s with
    | nil => exact fun t ht => (by cases ht)
    | cons c cs =>
      intro t ht
      obtain ⟨htoken, hstate⟩ : (lineStep spliced c cs st).Fresh := lineStep_fresh h
      rw [lexWithin_cons, List.mem_append] at ht
      rcases ht with ht | ht
      · obtain ⟨token, heq, rfl⟩ := Option.map_eq_some_iff.1 (Option.mem_toList.1 ht)
        rw [String.toList_ofList]
        exact htoken token heq
      · exact ih hstate t ht

/-- All tokens of a line but the first one begin in the line. -/
theorem closed_of_mem_tail {fuel : Nat} {s : List Char} :
    ∀ t ∈ (lexWithin spliced fuel st s).tokens.tail, Closed t.toList := by
  induction fuel generalizing st s with
  | zero => exact fun t ht => (by cases ht)
  | succ fuel ih =>
    cases s with
    | nil => exact fun t ht => (by cases ht)
    | cons c cs =>
      intro t ht
      rw [lexWithin_cons] at ht
      cases htoken : (lineStep spliced c cs st).token with
      | none =>
        rw [htoken] at ht
        exact ih t ht
      | some token =>
        rw [htoken] at ht
        rw [state_of_token htoken] at ht
        have hfresh : LexState.Fresh (lineStep spliced c cs st).rest .code := trivial
        exact closed_of_fresh hfresh t ht

theorem quoteStep_within (h : ∀ x ∈ read, P x) (hs : ∀ x ∈ c :: cs, P x) :
    (quoteStep spliced mark read c cs).Within P := by
  obtain ⟨hc, hcs⟩ := List.forall_mem_cons.1 hs
  have hread : ∀ l, (∀ x ∈ l, P x) → ∀ x ∈ read ++ l, P x :=
    fun l hl x hx => (List.mem_append.1 hx).elim (h x) (hl x)
  have hone : ∀ x ∈ [c], P x := by simpa using hc
  unfold quoteStep
  split
  · split
    · refine ⟨fun t ht => (by cases ht), hread _ ?_⟩
      simpa using ⟨hc, (List.forall_mem_cons.1 hcs).1⟩
    · split
      · exact ⟨fun t ht => (by cases ht), h⟩
      · exact ⟨fun t ht => (by cases ht), hread _ hone⟩
  · split
    · refine ⟨fun t ht => ?_, trivial⟩
      obtain rfl := Option.some.inj ht
      exact hread _ hone
    · exact ⟨fun t ht => (by cases ht), hread _ hone⟩

theorem codeStep_within (hs : ∀ x ∈ c :: cs, P x) : (codeStep spliced c cs).Within P := by
  unfold codeStep
  split
  · exact ⟨fun t ht => (by cases ht), trivial⟩
  split
  · exact ⟨fun t ht => (by cases ht), trivial⟩
  split
  · exact ⟨fun t ht => (by cases ht), trivial⟩
  split
  · next p delimiter rest h =>
    obtain ⟨p', hp, hd⟩ := Option.bind_eq_some_iff.1 h
    obtain ⟨d, hd, heq⟩ := Option.map_eq_some_iff.1 hd
    obtain ⟨rfl, rfl⟩ := Prod.mk.inj heq
    refine ⟨fun t ht => (by cases ht), fun x hx => hs x ?_⟩
    rw [← append_of_openRaw hp hd, ← List.singleton_append, ← List.append_assoc]
    exact List.mem_append_left _ hx
  split
  · refine ⟨fun t ht => (by cases ht), fun x hx => hs x ?_⟩
    rw [List.mem_singleton.1 hx]
    exact List.mem_cons_self
  split
  · next hword =>
    refine ⟨fun t ht => ?_, trivial⟩
    obtain rfl := Option.some.inj ht
    rw [← (word_self hword).1] at hs
    exact fun x hx => hs x (List.mem_append_left _ hx)
  · split
    · exact ⟨fun t ht => (by cases ht), trivial⟩
    · refine ⟨fun t ht x hx => hs x ?_, trivial⟩
      obtain rfl := Option.some.inj ht
      rw [List.mem_singleton.1 hx]
      exact List.mem_cons_self

theorem lineStep_within (h : st.Within P) (hs : ∀ x ∈ c :: cs, P x) :
    (lineStep spliced c cs st).Within P := by
  cases st with
  | code => exact codeStep_within hs
  | quote mark read => exact quoteStep_within h hs
  | blockComment =>
    rw [lineStep]
    split <;> exact ⟨fun t ht => (by cases ht), trivial⟩
  | raw delimiter read =>
    rw [lineStep]
    split
    · next hcut =>
      refine ⟨fun t ht x hx => ?_, trivial⟩
      obtain rfl := Option.some.inj ht
      rw [List.append_assoc, List.mem_append] at hx
      rcases hx with hx | hx
      · exact h x hx
      · rw [← append_of_cut hcut, ← List.append_assoc] at hs
        exact hs x (List.mem_append_left _ hx)
    · refine ⟨fun t ht => (by cases ht), fun x hx => ?_⟩
      exact (List.mem_append.1 hx).elim (h x) (hs x)

/-- Nothing is in a token that was not in the lines. -/
theorem lexWithin_within {fuel : Nat} {s : List Char} (h : st.Within P) (hs : ∀ x ∈ s, P x) :
    (∀ t ∈ (lexWithin spliced fuel st s).tokens, ∀ x ∈ t.toList, P x) ∧
      (lexWithin spliced fuel st s).state.Within P := by
  induction fuel generalizing st s with
  | zero => exact ⟨fun t ht => (by cases ht), h⟩
  | succ fuel ih =>
    cases s with
    | nil => exact ⟨fun t ht => (by cases ht), h⟩
    | cons c cs =>
      obtain ⟨htoken, hstate⟩ : (lineStep spliced c cs st).Within P := lineStep_within h hs
      have hrest := suffix_lineStep spliced c cs st
      obtain ⟨htokens, hlast⟩ :=
        ih hstate fun x hx => hs x (List.mem_cons_of_mem c (hrest.subset hx))
      rw [lexWithin_cons]
      refine ⟨fun t ht => ?_, hlast⟩
      rcases List.mem_append.1 ht with ht | ht
      · obtain ⟨token, heq, rfl⟩ := Option.map_eq_some_iff.1 (Option.mem_toList.1 ht)
        rw [String.toList_ofList]
        exact htoken token heq
      · exact htokens t ht

end Line

/-! ## The lines of a text -/

/-- No line ends in the text. -/
abbrev Flat (s : List Char) : Prop := ∀ c ∈ s, c ≠ '\n' ∧ c ≠ '\r'

/-- The tokens of a line that begin in it are closed, and no token has a line end. -/
structure LexedLine.Clean (l : LexedLine) : Prop where
  closed : ∀ t ∈ l.tokens.tail, Closed t.toList
  flat : ∀ t ∈ l.tokens, Flat t.toList

section Lines

variable {s : List Char} {st : LexState} {lines : List (List Char)}

theorem flat_of_mem_splitLines (h : '\r' ∉ s) : ∀ line ∈ splitLines s, Flat line := by
  have hflat : ∀ {l : List Char}, '\n' ∉ l → '\r' ∉ l → Flat l := fun hn hr c hc =>
    ⟨fun heq => hn (heq ▸ hc), fun heq => hr (heq ▸ hc)⟩
  induction hn : s.length using Nat.strong_induction_on generalizing s with
  | _ n ih =>
    intro line hline
    rcases splitLines_cases s with ⟨hone, hsplit⟩ | ⟨first, t, rfl, hone, hsplit⟩
    · rw [hsplit, List.mem_singleton] at hline
      subst hline
      exact hflat hone h
    · rw [hsplit, List.mem_cons] at hline
      rcases hline with rfl | hline
      · exact hflat hone fun hr => h (List.mem_append_left _ hr)
      · exact ih t.length (by simp at hn; omega)
          (fun hr => h (List.mem_append_right _ (List.mem_cons_of_mem _ hr))) rfl line hline

/-- Only the last line of a text without splices can end in a backslash. -/
theorem unspliced_splitLines (h : Smooth s) :
    (splitLines s).IsChain fun line _ => line.getLast? ≠ some '\\' := by
  induction hn : s.length using Nat.strong_induction_on generalizing s with
  | _ n ih =>
    rcases splitLines_cases s with ⟨hone, hsplit⟩ | ⟨first, t, rfl, hone, hsplit⟩
    · rw [hsplit]
      exact .singleton _
    · rw [hsplit]
      refine List.isChain_cons.2 ⟨fun _ _ hlast => ?_, ?_⟩
      · exact (List.isChain_append.1 h.noSplice).2.2 _ hlast '\n' rfl rfl rfl
      · have ht : Smooth t := h.piece ⟨first ++ ['\n'], [], by simp⟩
        exact ih t.length (by simp at hn; omega) ht rfl

theorem unspliced_lexLines (h : lines.IsChain fun line _ => line.getLast? ≠ some '\\') :
    (lexLines st lines).IsChain fun l _ => l.spliced = false := by
  induction lines generalizing st with
  | nil => exact .nil
  | cons line lines ih =>
    obtain ⟨hline, hlines⟩ := List.isChain_cons.1 h
    refine List.isChain_cons.2 ⟨fun l hl => ?_, ih hlines⟩
    cases lines with
    | nil => cases hl
    | cons line' lines => exact lexLine_unspliced st (hasLineSplice_eq (hline line' rfl))

theorem clean_lexLines (hst : st.Within fun c => c ≠ '\n' ∧ c ≠ '\r')
    (h : ∀ line ∈ lines, Flat line) : ∀ l ∈ lexLines st lines, l.Clean := by
  induction lines generalizing st with
  | nil => exact fun l hl => (by cases hl)
  | cons line lines ih =>
    obtain ⟨hline, hlines⟩ := List.forall_mem_cons.1 h
    have hlexed : (∀ t ∈ (lexLine st line).tokens, Flat t.toList) ∧
        (lexLine st line).state.Within fun c => c ≠ '\n' ∧ c ≠ '\r' :=
      lexWithin_within hst hline
    exact List.forall_mem_cons.2 ⟨⟨closed_of_mem_tail, hlexed.1⟩, ih hlexed.2 hlines⟩

/-- Without splices a group is one line. -/
theorem tokens_of_group {ls : List (Nat × LexedLine)}
    (h : ls.IsChain fun l _ => l.2.spliced = false) :
    ∀ g ∈ lineGroups ls, ∃ l ∈ ls, g.tokens = l.2.tokens := by
  have hfrom : ∀ (current : LineGroup) (spliced : Bool) (ls : List (Nat × LexedLine)),
      (ls ≠ [] → spliced = false) → ls.IsChain (fun l _ => l.2.spliced = false) →
      ∀ g ∈ groupFrom current spliced ls, g = current ∨ ∃ l ∈ ls, g.tokens = l.2.tokens := by
    intro current spliced ls
    induction ls generalizing current spliced with
    | nil =>
      intro _ _ g hg
      exact .inl (List.mem_singleton.1 hg)
    | cons l ls ih =>
      intro hspliced hchain g hg
      obtain ⟨hl, hls⟩ := List.isChain_cons.1 hchain
      rw [groupFrom, hspliced (List.cons_ne_nil _ _), if_neg Bool.false_ne_true,
        List.mem_cons] at hg
      rcases hg with hg | hg
      · exact .inl hg
      · have hlast : ls ≠ [] → l.2.spliced = false := fun hne =>
          hl _ (List.head?_eq_some_head hne)
        rcases ih _ _ hlast hls g hg with rfl | ⟨l', hl', heq⟩
        · exact .inr ⟨l, List.mem_cons_self, rfl⟩
        · exact .inr ⟨l', List.mem_cons_of_mem l hl', heq⟩
  cases ls with
  | nil => exact fun g hg => (by cases hg)
  | cons l ls =>
    intro g hg
    obtain ⟨hl, hls⟩ := List.isChain_cons.1 h
    have hlast : ls ≠ [] → l.2.spliced = false := fun hne => hl _ (List.head?_eq_some_head hne)
    rcases hfrom _ _ _ hlast hls g hg with rfl | ⟨l', hl', heq⟩
    · exact ⟨l, List.mem_cons_self, rfl⟩
    · exact ⟨l', List.mem_cons_of_mem l hl', heq⟩

theorem mem_of_mem_enumerate {α : Type} {n : Nat} {l : List α} {e : Nat × α}
    (h : e ∈ enumerate n l) : e.2 ∈ l := by
  induction l generalizing n with
  | nil => cases h
  | cons a l ih =>
    rcases List.mem_cons.1 h with rfl | h
    · exact List.mem_cons_self
    · exact List.mem_cons_of_mem a (ih h)

theorem isChain_enumerate {α : Type} {P : α → Prop} {n : Nat} {l : List α}
    (h : l.IsChain fun a _ => P a) : (enumerate n l).IsChain fun e _ => P e.2 := by
  induction l generalizing n with
  | nil => exact .nil
  | cons a l ih =>
    obtain ⟨ha, hl⟩ := List.isChain_cons.1 h
    refine List.isChain_cons.2 ⟨fun e he => ?_, ih hl⟩
    cases l with
    | nil => cases he
    | cons b l => exact ha b rfl

/-- A logical line has no line end. -/
theorem flat_of_mem_logicalLines {ls : List (Nat × List Char)} (h : ∀ l ∈ ls, Flat l.2) :
    ∀ l ∈ logicalLines ls, Flat l.text := by
  have hfrom : ∀ (current : LogicalLine) (ls : List (Nat × List Char)), Flat current.text →
      (∀ l ∈ ls, Flat l.2) → ∀ l ∈ logicalFrom current ls, Flat l.text := by
    intro current ls
    induction ls generalizing current with
    | nil =>
      intro hcurrent _ l hl
      rw [List.mem_singleton.1 hl]
      exact hcurrent
    | cons line ls ih =>
      intro hcurrent hls l hl
      obtain ⟨hline, hls⟩ := List.forall_mem_cons.1 hls
      rw [logicalFrom] at hl
      split at hl
      · refine ih _ (fun c hc => ?_) hls l hl
        rcases List.mem_append.1 hc with hc | hc
        · exact hcurrent c (List.dropLast_subset _ hc)
        · exact hline c hc
      · rcases List.mem_cons.1 hl with rfl | hl
        · exact hcurrent
        · exact ih _ hline hls l hl
  cases ls with
  | nil => exact fun l hl => (by cases hl)
  | cons l ls =>
    obtain ⟨hl, hls⟩ := List.forall_mem_cons.1 h
    exact hfrom _ _ hl hls

end Lines

/-! ## Control headers -/

section Headers

variable {Q : String → Prop}

/-- An identifier is closed. -/
theorem closed_identifier {c : Char} {cs : List Char} (h : isIdentStart c = true)
    (hcs : ∀ x ∈ cs, isIdentChar x = true) : Closed (c :: cs) := by
  have hc : isIdentChar c = true := by
    simp only [isIdentStart, Bool.or_eq_true] at h
    simp only [isIdentChar, Char.isAlphanum, Bool.or_eq_true]
    tauto
  have hslash : ∀ x, ¬ ['/', x].isPrefixOf (c :: cs) = true := by
    intro x hx
    rw [List.isPrefixOf, Bool.and_eq_true, beq_iff_eq] at hx
    exact absurd (hx.1 ▸ h) (by decide)
  have hquote : ¬ (c = '"' ∨ c = '\'') := by
    rintro (rfl | rfl) <;> exact absurd h (by decide)
  have hall : ∀ x ∈ c :: cs, isIdentChar x = true := List.forall_mem_cons.2 ⟨hc, hcs⟩
  refine closed_of_word (r := [])
    ⟨Bool.eq_false_iff.1 (solid_identChar hc).1, hslash '/', hslash '*', hquote⟩ ?_
  rw [word, if_pos (by simpa using h), List.takeWhile_eq_self_iff.2 hall,
    List.dropWhile_eq_nil_iff.2 hall]

/-- The conditional directives. -/
def directives : List String := ["if", "ifdef", "ifndef", "elif", "else", "endif"]

theorem closed_keyword {t : String} (h : t ∈ controlWords ++ directives) :
    Closed t.toList ∧ Flat t.toList := by
  have hall : ∀ t ∈ controlWords ++ directives,
      t.toList.head?.any isIdentStart = true ∧ t.toList.all isIdentChar = true ∧
        t.toList.all (fun c => decide (c ≠ '\n' ∧ c ≠ '\r')) = true := by decide +kernel
  obtain ⟨hhead, hident, hflat⟩ := hall t h
  have hchars : ∀ x ∈ t.toList, isIdentChar x = true := List.all_eq_true.1 hident
  refine ⟨?_, forall_mem_of_all hflat⟩
  cases ht : t.toList with
  | nil =>
    rw [ht] at hhead
    cases hhead
  | cons c cs =>
    rw [ht] at hhead hchars
    exact closed_identifier hhead fun x hx => hchars x (List.mem_cons_of_mem c hx)

theorem append_closeParens (depth : Nat) (ts : List String) :
    (closeParens depth ts).1 ++ (closeParens depth ts).2 = ts := by
  fun_induction closeParens depth ts <;> simp_all

/-- A header begins with its word, and what is behind the header is the rest of the tokens. -/
theorem controlHeader_cases (t : String) (rest : List String) :
    ∃ header, (controlHeader t rest).1 = t :: header ∧
      header ++ (controlHeader t rest).2 = rest := by
  unfold controlHeader
  split
  · exact ⟨[], rfl, rfl⟩
  split
  · refine ⟨rest.takeWhile (· ≠ ":") ++ (rest.dropWhile (· ≠ ":")).take 1, rfl, ?_⟩
    rw [List.append_assoc, List.take_append_drop, List.takeWhile_append_dropWhile]
  split
  · exact ⟨_, rfl, append_closeParens 0 rest⟩
  · exact ⟨[], rfl, rfl⟩

/-- Every header that the state holds satisfies `Q`. -/
structure GroupState.Holds (Q : String → Prop) (st : GroupState) : Prop where
  active : ∀ b ∈ st.blocks.active, Q b.2
  lineContext : ∀ d ∈ st.lineContext, Q d
  pending : ∀ d ∈ st.pending, Q d

theorem GroupState.Holds.header {st : GroupState} (h : GroupState.Holds Q st) {d : String}
    (hd : Q d) : GroupState.Holds Q (st.header d) := by
  have hone : ∀ l : List String, (∀ d ∈ l, Q d) → ∀ d' ∈ l ++ [d], Q d' := by
    intro l hl d' hd'
    rcases List.mem_append.1 hd' with hd' | hd'
    · exact hl d' hd'
    · rw [List.mem_singleton.1 hd']
      exact hd
  refine ⟨h.active, ?_, hone _ h.pending⟩
  unfold GroupState.header
  dsimp only
  split
  · exact h.lineContext
  · exact hone _ h.lineContext

theorem GroupState.Holds.token {st : GroupState} (h : GroupState.Holds Q st) (t : String) :
    GroupState.Holds Q (st.token t) := by
  unfold GroupState.token
  split
  · refine ⟨fun b hb => ?_, h.lineContext, fun d hd => (by cases hd)⟩
    rcases List.mem_append.1 hb with hb | hb
    · exact h.active b hb
    · obtain ⟨d, hd, rfl⟩ := List.mem_map.1 hb
      exact h.pending d hd
  split
  · exact ⟨fun b hb => h.active b (List.mem_of_mem_filter hb), h.lineContext, h.pending⟩
  · exact h

/-- The headers of the tokens satisfy `Q`. -/
def HeadersIn (Q : String → Prop) (tokens : List String) : Prop :=
  ∀ t rest, t :: rest <:+ tokens → t ∈ controlWords → Q (join (controlHeader t rest).1)

theorem controlTokens_holds {fuel : Nat} {previous : Option String} {tokens : List String}
    {st : GroupState} (h : HeadersIn Q tokens) (hst : GroupState.Holds Q st) :
    GroupState.Holds Q (controlTokens fuel previous tokens st) := by
  induction fuel generalizing previous tokens st with
  | zero => exact hst
  | succ fuel ih =>
    cases tokens with
    | nil => exact hst
    | cons t ts =>
      rw [controlTokens]
      split
      · next hword =>
        obtain ⟨header, -, happ⟩ := controlHeader_cases t ts
        have hsuf : (controlHeader t ts).2 <:+ t :: ts :=
          List.IsSuffix.trans ⟨header, happ⟩ (List.suffix_cons t ts)
        exact ih (fun t' rest hrest => h t' rest (hrest.trans hsuf))
          (hst.header (h t ts List.suffix_rfl hword.1))
      · exact ih (fun t' rest hrest => h t' rest (hrest.trans (List.suffix_cons t ts)))
          (hst.token t)

theorem controlGroups_holds {blocks : ControlState} {groups : List LineGroup}
    (h : ∀ g ∈ groups, HeadersIn Q g.tokens) (hblocks : ∀ b ∈ blocks.active, Q b.2) :
    ∀ e ∈ controlGroups blocks groups, ∀ d ∈ e.2, Q d := by
  induction groups generalizing blocks with
  | nil => exact fun e he => (by cases he)
  | cons g groups ih =>
    obtain ⟨hg, hgroups⟩ := List.forall_mem_cons.1 h
    have hstart : GroupState.Holds Q ⟨blocks, blocks.active.map Prod.snd, []⟩ := by
      refine ⟨hblocks, fun d hd => ?_, fun d hd => (by cases hd)⟩
      obtain ⟨b, hb, rfl⟩ := List.mem_map.1 hd
      exact hblocks b hb
    have hgroup : GroupState.Holds Q (controlGroup blocks g) := controlTokens_holds hg hstart
    intro e he
    rw [controlGroups, List.mem_append] at he
    rcases he with he | he
    · obtain ⟨n, -, rfl⟩ := List.mem_map.1 he
      exact hgroup.lineContext
    · exact ih hgroups hgroup.active e he

/-- **A control header of a line is read again.** -/
theorem rereads_header {l : LexedLine} (hl : l.Clean) :
    HeadersIn (fun d => ∃ tokens, tokens <:+: l.tokens ∧ Rereads d tokens) l.tokens := by
  rintro t rest ⟨front, hfront⟩ hword
  obtain ⟨header, hheader, happ⟩ := controlHeader_cases t rest
  have hrest : ∀ t' ∈ header, t' ∈ l.tokens.tail := by
    intro t' ht'
    have hmem : t' ∈ rest := happ ▸ List.mem_append_left _ ht'
    rw [← hfront]
    cases front with
    | nil => exact hmem
    | cons f front => exact List.mem_append_right front (List.mem_cons_of_mem t hmem)
  have hclosed : ∀ t' ∈ t :: header, Closed t'.toList :=
    List.forall_mem_cons.2 ⟨(closed_keyword (List.mem_append_left _ hword)).1,
      fun t' ht' => hl.closed t' (hrest t' ht')⟩
  have hpiece : t :: header <:+: l.tokens :=
    ⟨front, (controlHeader t rest).2, by rw [List.append_assoc, List.cons_append, happ, hfront]⟩
  rw [hheader]
  exact ⟨t :: header, hpiece, rereads_join (rejoins_of_closed hclosed) fun t' ht' =>
    Smooth.of_flat (hl.flat t' (hpiece.subset ht'))⟩

end Headers

/-! ## Conditions of the preprocessor -/

section Conditions

variable {u : WordTable}

theorem strip_eq_self {s : List Char} {c d : Char} (hc : s.head? = some c) (hcs : isSpace c = false)
    (hd : s.getLast? = some d) (hds : isSpace d = false) : strip s = s := by
  have hfront : s.dropWhile isSpace = s := by
    cases s with
    | nil => rfl
    | cons a s =>
      obtain rfl := Option.some.inj hc
      rw [List.dropWhile_cons_of_neg (by simp [hcs])]
  rw [strip, hfront, rstrip]
  have hback : s.reverse.dropWhile isSpace = s.reverse := by
    rw [← List.head?_reverse] at hd
    cases hr : s.reverse with
    | nil => rfl
    | cons a r =>
      rw [hr] at hd
      obtain rfl := Option.some.inj hd
      rw [List.dropWhile_cons_of_neg (by simp [hds])]
  rw [hback, List.reverse_reverse]

theorem strip_append_space (s : List Char) : strip (s ++ [' ']) = strip s := by
  have hback : ∀ t : List Char, rstrip (t ++ [' ']) = rstrip t := by
    intro t
    rw [rstrip, List.reverse_append, List.reverse_singleton, List.singleton_append,
      List.dropWhile_cons_of_pos (by decide), rstrip]
  rw [strip, strip, List.dropWhile_append]
  split
  · next hempty =>
    rw [List.isEmpty_iff] at hempty
    rw [hempty]
    rfl
  · exact hback _

theorem getLast?_strip {s : List Char} {d : Char} (h : (strip s).getLast? = some d) :
    isSpace d = false := by
  rw [strip, rstrip, List.getLast?_reverse] at h
  have := List.head?_dropWhile_not isSpace (s.dropWhile isSpace).reverse
  rw [h] at this
  simpa using this

/-- The joined tokens do not end in a space when the text does not. -/
theorem getLast?_join_tokensOf {s : List Char} {d : Char} (hd : s.getLast? = some d)
    (hs : isSpace d = false) : tokensOf s = [] ∨
      ∃ e, (join (tokensOf s)).toList.getLast? = some e ∧ isSpace e = false := by
  induction hn : s.length using Nat.strong_induction_on generalizing s with
  | _ n ih =>
    cases s with
    | nil => exact .inl rfl
    | cons c cs =>
      have hsuf := suffix_lexStep c cs
      have hlen : (lexStep c cs).2.length < n := by
        have hle := hsuf.length_le
        rw [List.length_cons] at hn
        omega
      have hrest : tokensOf (lexStep c cs).2 = [] ∨
          ∃ e, (join (tokensOf (lexStep c cs).2)).toList.getLast? = some e ∧
            isSpace e = false := by
        by_cases hnil : (lexStep c cs).2 = []
        · exact .inl (by rw [hnil]; rfl)
        · refine ih _ hlen ?_ rfl
          obtain ⟨front, hfront⟩ := hsuf.trans (List.suffix_cons c cs)
          rw [← hfront, List.getLast?_append_of_ne_nil _ hnil] at hd
          exact hd
      rw [tokensOf_cons]
      cases hstep : lexStep c cs with
      | mk o r =>
        rw [hstep] at hrest
        cases o with
        | none => exact hrest
        | some t =>
          refine .inr ?_
          change ∃ e, (join (String.ofList t :: tokensOf r)).toList.getLast? = some e ∧ _
          rcases hrest with hnil | ⟨e, he, hes⟩
          · rw [show tokensOf r = [] from hnil, join, String.intercalate_singleton,
              String.toList_ofList]
            rcases getLast?_of_lexStep hstep with hlast | ⟨rfl, -⟩
            · exact hlast
            · exact ⟨d, hd, hs⟩
          · refine ⟨e, ?_, hes⟩
            cases hr : tokensOf r with
            | nil =>
              rw [show tokensOf r = [] from hr] at he
              cases he
            | cons t' ts =>
              rw [show tokensOf r = t' :: ts from hr] at he
              rw [join_cons_cons, List.getLast?_append, List.getLast?_cons, he]
              rfl

theorem strip_subset (s : List Char) : strip s ⊆ s := by
  intro c hc
  rw [strip, rstrip, List.mem_reverse] at hc
  have hback := (List.dropWhile_sublist _).subset hc
  exact (List.dropWhile_sublist _).subset (List.mem_reverse.1 hback)

theorem directive_spec {text expression : List Char} {kind : String}
    (h : directive u text = some (kind, expression)) :
    kind ∈ directives ∧ expression ⊆ text ∧ ∃ s, expression = strip s := by
  unfold directive at h
  split at h
  · next s heq =>
    dsimp only at h
    split at h
    · next hkind =>
      obtain ⟨rfl, rfl⟩ := Prod.mk.inj (Option.some.inj h)
      refine ⟨hkind, fun c hc => strip_subset text ?_, _, rfl⟩
      rw [heq]
      refine List.mem_cons_of_mem _ (strip_subset s ?_)
      exact (List.dropWhile_sublist _).subset (strip_subset _ hc)
    · cases h
  · cases h

/-- What is kept of a directive is its kind and the tokens of its expression. -/
theorem conditionOf_eq {expression : List Char} {kind : String} (hkind : kind ∈ directives)
    (hs : Smooth expression) (hlast : ∃ s, expression = strip s) :
    conditionOf kind expression = join (kind :: tokenize expression) := by
  have hall : ∀ t ∈ directives, t.toList.head?.any (fun c => !isSpace c) = true ∧
      t.toList.getLast?.any (fun c => !isSpace c) = true := by decide +kernel
  obtain ⟨hhead, hend⟩ := hall kind hkind
  obtain ⟨c, hc, hcs⟩ := (Option.any_eq_true _ _).1 hhead
  obtain ⟨d, hd, hds⟩ := (Option.any_eq_true _ _).1 hend
  rw [Bool.not_eq_true'] at hcs hds
  have hcases : tokensOf expression = [] ∨
      ∃ e, (join (tokensOf expression)).toList.getLast? = some e ∧ isSpace e = false := by
    obtain ⟨s, rfl⟩ := hlast
    cases hl : (strip s).getLast? with
    | none =>
      rw [List.getLast?_eq_none_iff] at hl
      exact .inl (by rw [hl]; rfl)
    | some e => exact getLast?_join_tokensOf hl (getLast?_strip hl)
  rw [conditionOf, hs.tokenize_eq]
  cases hts : tokensOf expression with
  | nil =>
    have htext : (kind ++ " " ++ join []).toList = kind.toList ++ [' '] := by simp [join]
    rw [htext, strip_append_space, strip_eq_self hc hcs hd hds, String.ofList_toList, join,
      String.intercalate_singleton]
  | cons t ts =>
    obtain hnil | ⟨e, he, hes⟩ := hcases
    · cases hnil.symm.trans hts
    have htext : (kind ++ " " ++ join (t :: ts)).toList = (join (kind :: t :: ts)).toList := by
      rw [join_cons_cons]
      simp
    have hfirst : (join (kind :: t :: ts)).toList.head? = some c := by
      rw [join_cons_cons, List.head?_append, hc]
      rfl
    have hend : (join (kind :: t :: ts)).toList.getLast? = some e := by
      rw [show tokensOf expression = t :: ts from hts] at he
      rw [join_cons_cons, List.getLast?_append, List.getLast?_cons, he]
      rfl
    rw [htext, strip_eq_self hfirst hcs hend hes, String.ofList_toList]

/-- **A condition that the preprocessor keeps is read again.** -/
theorem rereads_conditionOf {text expression : List Char} {kind : String} (htext : Flat text)
    (h : directive u text = some (kind, expression)) :
    Rereads (conditionOf kind expression) (kind :: tokenize expression) := by
  obtain ⟨hkind, hsub, hlast⟩ := directive_spec h
  have hs : Smooth expression := Smooth.of_flat fun c hc => htext c (hsub hc)
  obtain ⟨hclosed, hflat⟩ := closed_keyword (List.mem_append_right controlWords hkind)
  rw [conditionOf_eq hkind hs hlast]
  refine rereads_join ?_ (List.forall_mem_cons.2 ⟨Smooth.of_flat hflat, fun t ht => ?_⟩)
  · rw [hs.tokenize_eq]
    exact Rejoins.cons hclosed (rejoins_tokensOf expression)
  · rw [hs.tokenize_eq] at ht
    exact hs.piece (isInfix_of_mem_tokensOf t ht)

end Conditions

/-! ## The texts that are kept -/

/-- Every condition on the stack satisfies `Q`. -/
theorem preprocessorFrom_holds {u : WordTable} {Q : String → Prop} {stack : List String}
    {ls : List LogicalLine} (hstack : ∀ d ∈ stack, Q d)
    (h : ∀ l ∈ ls, ∀ kind expression, directive u l.text = some (kind, expression) →
      Q (conditionOf kind expression)) :
    ∀ e ∈ preprocessorFrom u stack ls, ∀ d ∈ e.2, Q d := by
  induction ls generalizing stack with
  | nil => exact fun e he => (by cases he)
  | cons l ls ih =>
    obtain ⟨hl, hls⟩ := List.forall_mem_cons.1 h
    have hconcat : ∀ {stack : List String} {d : String}, (∀ d ∈ stack, Q d) → Q d →
        ∀ d' ∈ stack ++ [d], Q d' := by
      intro stack d hstack hd d' hd'
      rcases List.mem_append.1 hd' with hd' | hd'
      · exact hstack d' hd'
      · rwa [List.mem_singleton.1 hd']
    have hnext : ∀ d ∈ preprocessorStep u stack l.text, Q d := by
      have hpop : ∀ d ∈ stack.dropLast, Q d := fun d hd => hstack d (List.dropLast_subset _ hd)
      unfold preprocessorStep
      split
      · exact hstack
      · next kind expression hdirective =>
        have hcondition := hl kind expression hdirective
        split
        · exact hpop
        split
        · split
          · exact hstack
          · exact hconcat hpop hcondition
        · exact hconcat hstack hcondition
    intro e he
    rw [preprocessorFrom, List.mem_append] at he
    rcases he with he | he
    · obtain ⟨n, -, rfl⟩ := List.mem_map.1 he
      exact hstack
    · exact ih hnext hls e he

section Analysis

variable {text : List Char} (u : WordTable) (path : String)

/-- **Every control context is read as the tokens of its header.** -/
theorem rereads_controls (h : Unbroken text) :
    ∀ e ∈ (analyze u text path).controls, ∀ d ∈ e.2,
      ∃ line ∈ tokenizeLines (splitLines (newlines text)), ∃ tokens,
        tokens <:+: line.tokens ∧ Rereads d tokens := by
  unfold analyze
  split
  · have hs := smooth_newlines h
    have hclean : ∀ l ∈ tokenizeLines (splitLines (newlines text)), l.Clean :=
      clean_lexLines trivial (flat_of_mem_splitLines hs.noReturn)
    have hchain : (enumerate 1 (tokenizeLines (splitLines (newlines text)))).IsChain
        fun l _ => l.2.spliced = false :=
      isChain_enumerate (unspliced_lexLines (unspliced_splitLines hs))
    refine controlGroups_holds (fun g hg => ?_) (fun b hb => (by cases hb))
    obtain ⟨l, hl, hgroup⟩ := tokens_of_group hchain g hg
    have hmem := mem_of_mem_enumerate hl
    rw [hgroup]
    intro t rest hsuf hword
    obtain ⟨tokens, hpiece, hreads⟩ := rereads_header (hclean l.2 hmem) t rest hsuf hword
    exact ⟨l.2, hmem, tokens, hpiece, hreads⟩
  · exact fun e he => (by cases he)

/-- **Every preprocessor context is read as the kind and the expression of its directive.** -/
theorem rereads_preprocessor (h : Unbroken text) :
    ∀ e ∈ (analyze u text path).preprocessor, ∀ d ∈ e.2,
      ∃ line ∈ logicalLines (numberedLines text), ∃ kind expression,
        directive u line.text = some (kind, expression) ∧
          Rereads d (kind :: tokenize expression) := by
  unfold analyze
  split
  · have hflat : ∀ l ∈ logicalLines (numberedLines text), Flat l.text :=
      flat_of_mem_logicalLines fun l hl =>
        flat_of_mem_splitLines (smooth_newlines h).noReturn l.2 (mem_of_mem_enumerate hl)
    refine preprocessorFrom_holds (fun d hd => (by cases hd)) fun l hl kind expression hd => ?_
    exact ⟨l, hl, kind, expression, hd, rereads_conditionOf (hflat l hl) hd⟩
  · exact fun e he => (by cases he)

end Analysis

/-- **Tokens that are joined and read again are the same tokens**, for a text without a backslash
directly before a line end, and for every context that the analysis of the text keeps: a control
context is made of tokens of a line and read as these, a preprocessor context of the kind of a
directive and the tokens of its expression. -/
theorem tokenize_join {text : List Char} (h : Unbroken text) :
    tokenize (join (tokenize text)).toList = tokenize text ∧
      ∀ (u : WordTable) (path : String),
        (∀ e ∈ (analyze u text path).controls, ∀ d ∈ e.2,
          ∃ line ∈ tokenizeLines (splitLines (newlines text)), ∃ tokens,
            tokens <:+: line.tokens ∧ Rereads d tokens) ∧
        ∀ e ∈ (analyze u text path).preprocessor, ∀ d ∈ e.2,
          ∃ line ∈ logicalLines (numberedLines text), ∃ kind expression,
            directive u line.text = some (kind, expression) ∧
              Rereads d (kind :: tokenize expression) := by
  have hs := smooth_newlines h
  refine ⟨?_, fun u path => ⟨rereads_controls u path h, rereads_preprocessor u path h⟩⟩
  have heq : tokenize text = tokensOf (newlines text) := by rw [tokenize, hs.joinSplices_eq]
  rw [heq]
  exact (rereads_tokensOf hs).2

/-- A text with a comment in the header, a raw string and a literal that is not closed. -/
def openLiteral : List Char := "#if A/*x*/>0x1F\nif(R\"(a)\"[i++]) f('b ".toList

theorem tokenize_join_openLiteral :
    tokenize (join (tokenize openLiteral)).toList = tokenize openLiteral :=
  (tokenize_join (by unfold Unbroken; decide)).1

end CppLexer

end FosCoverage
