import FosCoverage.Cpp.Controls
import Mathlib.Data.List.TakeWhile

/-!
# Statements and the headers around them

The bodies of C and C++ functions as trees of statements, and what of their control headers the
scan of `_control_context` shows on a line, whatever the line breaks are.

* `Body` are statements in order, with the blocks in them; `Body.placed` are their tokens, each with
  the headers around it: those of the blocks it is in, the conditions of the ifs before an `else`,
  and the `case` labels it stands under.
* `LaidOut` says that a file is such a body in any layout.  The lines of the layout split the tokens
  of the body at arbitrary places.
* `placedItems` reads the headers and braces of a line off the statements.  `itemsWithin_placed` is
  that the scan reads the same: of a header that starts on a line it takes as much as stands on this
  line.  So a line shows `visible`, and `changed_control_blocks_iff` says when two lines with
  different headers around them are told apart.
* `mem_visible`: a header that is read whole on the line of its opening brace is shown by all lines of
  the block.
-/

set_option autoImplicit false

namespace FosCoverage

open Text CppLexer CppSourceAnalyzer

/-! ## Statements -/

/-- A control header. -/
inductive Header
  /-- `if (condition)` and the like; `constexpr` may stand behind the word. -/
  | test (word : String) (marker condition : List String)
  /-- `else` -/
  | orElse
  /-- `case value:` -/
  | caseLabel (value : List String)
  /-- `default:` -/
  | defaultLabel
  deriving DecidableEq, Repr

/-- The tokens of a header. -/
def Header.tokens : Header → List String
  | test word marker condition => word :: (marker ++ "(" :: (condition ++ [")"]))
  | orElse => ["else"]
  | caseLabel value => "case" :: (value ++ [":"])
  | defaultLabel => ["default", ":"]

/-- As much of a header as counts for one in a context. -/
def Header.read : Header → List String
  | test word [] condition => word :: "(" :: (condition ++ [")"])
  | test word (_ :: _) _ => [word]
  | orElse => ["else"]
  | caseLabel value => "case" :: (value.takeWhile (· ≠ ":") ++ [":"])
  | defaultLabel => []

/-- Whether the header is the condition of an `if`. -/
def Header.isIf : Header → Bool
  | test word _ _ => word = "if"
  | _ => false

/-- Statements, one behind the other. -/
inductive Body
  /-- No statement. -/
  | nil
  /-- A statement without a block. -/
  | plain (tokens : List String) (rest : Body)
  /-- Labels of a `switch` for what is behind them. -/
  | labels (labels : List Header) (rest : Body)
  /-- A block: of a function or a class behind its head, or one on its own. -/
  | block (lead : List String) (inner rest : Body)
  /-- A block behind control headers, which is that of an `else if` behind two. -/
  | control (headers : List Header) (inner rest : Body)

/-- A token of a file with the header that starts there and the headers around it, outermost
first. -/
structure Placed where
  /-- The token. -/
  text : String
  /-- The header. -/
  starts : Option Header
  /-- The headers around it. -/
  around : List Header
  deriving DecidableEq, Repr

/-- Tokens of which none starts a header. -/
def place (around : List Header) (texts : List String) : List Placed :=
  texts.map (⟨·, none, around⟩)

/-- The tokens of a header. -/
def Header.place (around : List Header) (h : Header) : List Placed :=
  match h.tokens with
  | [] => []
  | t :: ts => ⟨t, some h, around⟩ :: FosCoverage.place around ts

/-- The tokens of statements between blocks with the headers `outer`, behind ifs with the conditions
`chain` and under `labels`. -/
def Body.placed (outer chain labels : List Header) : Body → List Placed
  | nil => []
  | plain tokens rest => place (outer ++ labels) tokens ++ rest.placed outer [] labels
  | .labels ls rest => ls.flatMap (Header.place outer) ++ rest.placed outer [] ls
  | block lead inner rest =>
    let around := outer ++ labels
    place around (lead ++ ["\x7b"]) ++ inner.placed around [] [] ++ place around ["\x7d"] ++
      rest.placed outer [] labels
  | control headers inner rest =>
    let before := if headers.head? = some .orElse then chain else []
    let around := outer ++ labels ++ before ++ headers
    headers.flatMap (Header.place (outer ++ labels ++ before)) ++ place around ["\x7b"] ++
      inner.placed around [] [] ++ place around ["\x7d"] ++
      rest.placed outer (before ++ headers.filter Header.isIf) labels

/-! ## Well formed statements -/

/-- A token that is no brace and starts no header. -/
def Ordinary (t : String) : Prop := t ∉ controlWords ∧ t ≠ "\x7b" ∧ t ≠ "\x7d"

instance (t : String) : Decidable (Ordinary t) := inferInstanceAs (Decidable (_ ∧ _))

/-- The parentheses of the tokens are matched, behind some open ones. -/
def Matched : Nat → List String → Prop
  | depth, [] => depth = 0
  | depth, t :: ts =>
    if t = "(" then Matched (depth + 1) ts
    else if t = ")" then 0 < depth ∧ Matched (depth - 1) ts
    else Matched depth ts

instance decidableMatched : (depth : Nat) → (tokens : List String) → Decidable (Matched depth tokens)
  | depth, [] => inferInstanceAs (Decidable (depth = 0))
  | depth, t :: ts =>
    have := decidableMatched (depth + 1) ts
    have := decidableMatched (depth - 1) ts
    have := decidableMatched depth ts
    inferInstanceAs (Decidable (if t = "(" then Matched (depth + 1) ts
      else if t = ")" then 0 < depth ∧ Matched (depth - 1) ts else Matched depth ts))

/-- A header that can stand in a file. -/
def Header.Ok : Header → Prop
  | test word marker condition => word ∈ ["if", "for", "while", "switch", "catch"] ∧
    marker.head? ≠ some "(" ∧ (∀ t ∈ marker ++ condition, t ∉ controlWords) ∧ Matched 0 condition
  | caseLabel value => ∀ t ∈ value, t ∉ controlWords
  | orElse => True
  | defaultLabel => True

instance : (h : Header) → Decidable h.Ok
  | .test _ _ _ => inferInstanceAs (Decidable (_ ∧ _ ∧ _ ∧ _))
  | .caseLabel value => inferInstanceAs (Decidable (∀ t ∈ value, _))
  | .orElse => isTrue trivial
  | .defaultLabel => isTrue trivial

/-- Whether the headers are those of one block: a condition, `else`, or both. -/
def startBlock : List Header → Bool
  | [.test _ _ _] => true
  | [.orElse] => true
  | [.orElse, .test word _ _] => word = "if"
  | _ => false

/-- Whether the header is a label. -/
def Header.isLabel : Header → Bool
  | caseLabel _ => true
  | defaultLabel => true
  | _ => false

/-- Whether there is no statement. -/
def Body.isNil : Body → Bool
  | nil => true
  | _ => false

/-- Well formed statements: one that others stand behind ends with a semicolon, or with the colon of
a label. -/
def Body.Ok : Body → Prop
  | nil => True
  | plain tokens rest => (∀ t ∈ tokens, Ordinary t) ∧
    (rest.isNil = true ∨ tokens.getLast? = some ";" ∨ tokens.getLast? = some ":") ∧ rest.Ok
  | .labels ls rest => (∀ h ∈ ls, h.isLabel = true ∧ h.Ok) ∧ rest.Ok
  | block lead inner rest => (∀ t ∈ lead, Ordinary t) ∧ inner.Ok ∧ rest.Ok
  | control headers inner rest =>
    startBlock headers = true ∧ (∀ h ∈ headers, h.Ok) ∧ inner.Ok ∧ rest.Ok

instance Body.decidableOk : (b : Body) → Decidable b.Ok
  | nil => isTrue trivial
  | plain _ rest =>
    have := rest.decidableOk
    inferInstanceAs (Decidable (_ ∧ _ ∧ rest.Ok))
  | labels _ rest =>
    have := rest.decidableOk
    inferInstanceAs (Decidable (_ ∧ rest.Ok))
  | block _ inner rest =>
    have := inner.decidableOk
    have := rest.decidableOk
    inferInstanceAs (Decidable (_ ∧ inner.Ok ∧ rest.Ok))
  | control _ inner rest =>
    have := inner.decidableOk
    have := rest.decidableOk
    inferInstanceAs (Decidable (_ ∧ _ ∧ inner.Ok ∧ rest.Ok))

/-! ## Layouts -/

/-- The headers and braces of a line behind some tokens that have been read.  Of a header that goes on
behind the line it is what stands on the line. -/
def placedFrom : Nat → List Placed → List ControlItem
  | _, [] => []
  | skip + 1, _ :: ts => placedFrom skip ts
  | 0, t :: ts =>
    match t.starts with
    | some h =>
      if h.read = [] then placedFrom 0 ts
      else .header (join (((t :: ts).map Placed.text).take h.read.length)) ::
        placedFrom (h.read.length - 1) ts
    | none =>
      (if t.text = "\x7b" then [.opening] else if t.text = "\x7d" then [.closing] else []) ++
        placedFrom 0 ts

/-- The headers and braces of a line. -/
def placedItems (line : List Placed) : List ControlItem := placedFrom 0 line

/-- **A file of well formed statements**: its logical lines, in which comments are no tokens, split
the tokens of the statements in any way. -/
structure LaidOut (file : String × List Char) (lines : List (List Placed)) : Prop where
  /-- The file is analysed. -/
  supported : supported file.1 = true
  /-- The tokens of the lines. -/
  tokens : (logicalGroups file.2).map LineGroup.tokens = lines.map (·.map Placed.text)
  /-- The statements. -/
  body : ∃ b : Body, b.Ok ∧ lines.flatten = b.placed [] [] []

section Layout

variable (file : String × List Char) (lines : List (List Placed))

/-- The physical lines of each logical line, with what is read off the statements there. -/
def layoutItems : List (List Nat × List ControlItem) :=
  ((logicalGroups file.2).map LineGroup.lines).zip (lines.map placedItems)

/-- The headers that a physical line shows. -/
def visible (n : Nat) : List String := shownFrom [] 0 n (layoutItems file lines)

/-- The tokens of a physical line, together with those it is spliced to. -/
def tokensAt (n : Nat) : List Placed :=
  ((((logicalGroups file.2).map LineGroup.lines).zip lines).find? fun line => n ∈ line.1).elim []
    Prod.snd

end Layout

/-- The tokens of some header around a token of the line are other ones than for its counterpart. -/
def ChangedAround (tokens tokens' : List Placed) : Prop :=
  ∃ (i : Nat) (t t' : Placed), tokens[i]? = some t ∧ tokens'[i]? = some t' ∧
    t.around.map Header.tokens ≠ t'.around.map Header.tokens

/-! ## The scan of a line -/

section Scan

theorem closeParens_matched {condition : List String} {depth : Nat} (h : Matched depth condition)
    {line tail : List String} (hline : line <+: condition ++ ")" :: tail) :
    closeParens (depth + 1) line =
      (line.take (condition.length + 1), line.drop (condition.length + 1)) := by
  induction condition generalizing depth line with
  | nil =>
    obtain rfl : depth = 0 := h
    cases line with
    | nil => rfl
    | cons t ts =>
      obtain ⟨rfl, -⟩ := List.cons_prefix_cons.1 hline
      rfl
  | cons c condition ih =>
    cases line with
    | nil => rfl
    | cons t ts =>
      obtain ⟨rfl, hts⟩ := List.cons_prefix_cons.1 hline
      rw [Matched] at h
      rw [closeParens, List.length_cons, List.take_succ_cons, List.drop_succ_cons]
      split_ifs at h ⊢ with hopen hclose hone
      · rw [ih h hts]
      · omega
      · obtain ⟨hpos, h⟩ := h
        obtain ⟨d, rfl⟩ := Nat.exists_eq_add_of_lt hpos
        rw [show 0 + d + 1 + 1 - 1 = d + 1 by omega, ih (by simpa using h) hts]
      · rw [ih h hts]

theorem upTo_colon {value : List String} (h : ∀ t ∈ value, t ≠ ":") {line tail : List String}
    (hline : line <+: value ++ ":" :: tail) :
    line.takeWhile (· ≠ ":") ++ (line.dropWhile (· ≠ ":")).take 1 = line.take (value.length + 1) ∧
      (line.dropWhile (· ≠ ":")).drop 1 = line.drop (value.length + 1) := by
  induction value generalizing line with
  | nil =>
    cases line with
    | nil => exact ⟨rfl, rfl⟩
    | cons t ts =>
      obtain ⟨rfl, -⟩ := List.cons_prefix_cons.1 hline
      simp
  | cons c value ih =>
    obtain ⟨hc, hvalue⟩ := List.forall_mem_cons.1 h
    cases line with
    | nil => exact ⟨rfl, rfl⟩
    | cons t ts =>
      obtain ⟨rfl, hts⟩ := List.cons_prefix_cons.1 hline
      obtain ⟨htake, hdrop⟩ := ih hvalue hts
      rw [List.takeWhile_cons_of_pos (by simpa using hc),
        List.dropWhile_cons_of_pos (by simpa using hc), List.length_cons, List.take_succ_cons,
        List.drop_succ_cons, List.cons_append, htake, hdrop]
      exact ⟨rfl, rfl⟩

theorem exists_append_colon (value : List String) :
    ∃ others, value ++ [":"] = value.takeWhile (· ≠ ":") ++ ":" :: others := by
  induction value with
  | nil => exact ⟨[], rfl⟩
  | cons t value ih =>
    by_cases ht : t = ":"
    · subst ht
      exact ⟨value ++ [":"], rfl⟩
    · obtain ⟨others, h⟩ := ih
      refine ⟨others, ?_⟩
      rw [List.takeWhile_cons_of_pos (by simpa using ht), List.cons_append, h, List.cons_append]

/-- **How a header is read**: its word is a control word, what is read of it is a beginning of its
tokens, and of a line that ends within the header all tokens are. -/
theorem Header.Ok.reads {h : Header} (hok : h.Ok) (hread : h.read ≠ []) :
    ∃ word more others, h.read = word :: more ∧ h.tokens = word :: (more ++ others) ∧
      word ∈ controlWords ∧ (∀ t ∈ more ++ others, t ∉ controlWords) ∧
      ∀ {line tail : List String}, line <+: more ++ others ++ tail →
        controlHeader word line = (word :: line.take more.length, line.drop more.length) := by
  cases h with
  | defaultLabel => exact absurd rfl hread
  | orElse => exact ⟨"else", [], [], rfl, rfl, by decide, fun _ ht => (nomatch ht), fun _ => rfl⟩
  | caseLabel value =>
    obtain ⟨others, hothers⟩ := exists_append_colon value
    have hsplit : value ++ [":"] = value.takeWhile (· ≠ ":") ++ [":"] ++ others := by
      rw [hothers, List.append_assoc, List.singleton_append]
    refine ⟨"case", value.takeWhile (· ≠ ":") ++ [":"], others, rfl, congrArg _ hsplit, by decide,
      ?_, ?_⟩
    · intro t ht
      rw [← hsplit, List.mem_append, List.mem_singleton] at ht
      rcases ht with ht | rfl
      · exact hok t ht
      · decide
    · intro line tail hline
      rw [List.append_assoc, List.append_assoc, List.singleton_append] at hline
      have hcolon : ∀ t ∈ value.takeWhile (· ≠ ":"), t ≠ ":" := fun t ht => by
        simpa using List.mem_takeWhile_imp ht
      obtain ⟨htake, hdrop⟩ := upTo_colon hcolon hline
      rw [controlHeader, if_neg (by decide), if_pos rfl, List.cons_append, htake, hdrop,
        List.length_append, List.length_singleton]
  | test word marker condition =>
    obtain ⟨hword, hmarker, hwords, hmatched⟩ := hok
    have hcontrol : word ∈ controlWords := by
      revert hword
      simp only [List.mem_cons, List.not_mem_nil, or_false]
      rintro (rfl | rfl | rfl | rfl | rfl) <;> decide
    have hother : word ∉ ["else", "do"] ∧ word ≠ "case" := by
      revert hword
      simp only [List.mem_cons, List.not_mem_nil, or_false]
      rintro (rfl | rfl | rfl | rfl | rfl) <;> decide
    have hparens : ∀ t ∈ "(" :: (condition ++ [")"]), t ∈ condition ∨ t ∉ controlWords := by
      intro t ht
      simp only [List.mem_cons, List.mem_append, List.not_mem_nil, or_false] at ht
      rcases ht with rfl | ht | rfl
      · exact .inr (by decide)
      · exact .inl ht
      · exact .inr (by decide)
    cases marker with
    | nil =>
      refine ⟨word, "(" :: (condition ++ [")"]), [], rfl, by rw [List.append_nil]; rfl, hcontrol,
        ?_, ?_⟩
      · intro t ht
        rw [List.append_nil] at ht
        exact (hparens t ht).elim (hwords t) id
      · intro line tail hline
        rw [controlHeader, if_neg hother.1, if_neg hother.2]
        cases line with
        | nil => rfl
        | cons t line =>
          rw [List.append_nil, List.cons_append, List.append_assoc, List.singleton_append] at hline
          obtain ⟨rfl, hrest⟩ := List.cons_prefix_cons.1 hline
          rw [List.head?_cons, if_pos rfl, closeParens, if_pos rfl,
            closeParens_matched hmatched hrest]
          simp
    | cons m marker =>
      refine ⟨word, [], m :: marker ++ "(" :: (condition ++ [")"]), rfl, rfl, hcontrol, ?_, ?_⟩
      · intro t ht
        rw [List.nil_append, List.mem_append] at ht
        rcases ht with ht | ht
        · exact hwords t (List.mem_append_left _ ht)
        · exact (hparens t ht).elim (fun ht => hwords t (List.mem_append_right _ ht)) id
      · intro line tail hline
        rw [controlHeader, if_neg hother.1, if_neg hother.2]
        cases line with
        | nil => rfl
        | cons t line =>
          obtain ⟨rfl, -⟩ := List.cons_prefix_cons.1 hline
          exact if_neg hmarker

/-- Only `default` is not read. -/
theorem Header.read_eq_nil {h : Header} (hread : h.read = []) : h = .defaultLabel := by
  cases h with
  | test _ marker _ => cases marker <;> cases hread
  | orElse => cases hread
  | caseLabel _ => cases hread
  | defaultLabel => rfl

/-- A header has a word, and behind it no control word. -/
theorem Header.Ok.tokens_eq {h : Header} (hok : h.Ok) :
    ∃ word rest, h.tokens = word :: rest ∧ ∀ t ∈ rest, t ∉ controlWords := by
  by_cases hread : h.read = []
  · rw [Header.read_eq_nil hread]
    exact ⟨"default", [":"], rfl, by decide⟩
  · obtain ⟨word, more, others, -, htokens, -, hwords, -⟩ := hok.reads hread
    exact ⟨word, more ++ others, htokens, hwords⟩

/-- **What the scan needs of the tokens behind `previous`**: a control word stands only where a
header starts, and a header only where a statement can. -/
inductive Spelled : Option String → List Placed → Prop
  /-- No tokens. -/
  | nil {previous : Option String} : Spelled previous []
  /-- A token that starts no header. -/
  | plain {previous : Option String} {t : Placed} {ts : List Placed} (hstarts : t.starts = none)
    (hword : t.text ∉ controlWords) (h : Spelled (some t.text) ts) : Spelled previous (t :: ts)
  /-- A header. -/
  | header {previous : Option String} {h : Header} {around : List Header} {ts : List Placed}
    (hok : h.Ok) (hstart : controlStart previous = true) (hrest : Spelled h.tokens.getLast? ts) :
    Spelled previous (h.place around ++ ts)

namespace Spelled

variable {previous : Option String} {ts : List Placed}

/-- A statement can start a line. -/
theorem restart (h : Spelled previous ts) : Spelled none ts := by
  cases h with
  | nil => exact .nil
  | plain hstarts hword h => exact .plain hstarts hword h
  | header hok _ hrest => exact .header hok rfl hrest

theorem of_place {around : List Header} {texts : List String}
    (hwords : ∀ t ∈ texts, t ∉ controlWords) (h : Spelled (texts.getLast?.or previous) ts) :
    Spelled previous (place around texts ++ ts) := by
  induction texts generalizing previous with
  | nil => exact h
  | cons t texts ih =>
    obtain ⟨ht, htexts⟩ := List.forall_mem_cons.1 hwords
    refine .plain rfl ht (ih htexts ?_)
    rw [List.getLast?_cons] at h
    cases hlast : texts.getLast? <;> simpa [hlast] using h

theorem single {around : List Header} {t : String} (ht : t ∉ controlWords)
    (h : Spelled (some t) ts) : Spelled previous (place around [t] ++ ts) :=
  .plain rfl ht h

theorem tail {t : Placed} (h : Spelled previous (t :: ts)) : ∃ p, Spelled p ts := by
  generalize hl : t :: ts = l at h
  cases h with
  | nil => cases hl
  | plain _ _ h =>
    obtain ⟨-, rfl⟩ := List.cons.inj hl
    exact ⟨_, h⟩
  | @header _ hd around ts' hok _ hrest =>
    obtain ⟨word, more, htokens, hmore⟩ := hok.tokens_eq
    rw [Header.place, htokens] at hl
    obtain ⟨-, rfl⟩ := List.cons.inj hl
    refine ⟨some word, of_place hmore ?_⟩
    rw [htokens, List.getLast?_cons] at hrest
    cases hlast : more.getLast? <;> simpa [hlast] using hrest

theorem drop {a : List Placed} (h : Spelled previous (a ++ ts)) : ∃ p, Spelled p ts := by
  induction a generalizing previous with
  | nil => exact ⟨previous, h⟩
  | cons t a ih =>
    obtain ⟨p, h⟩ := h.tail
    exact ih h

end Spelled

@[simp] theorem text_place (around : List Header) (texts : List String) :
    (place around texts).map Placed.text = texts := by
  rw [place, List.map_map]
  exact List.map_id texts

theorem place_append (around : List Header) (texts texts' : List String) :
    place around (texts ++ texts') = place around texts ++ place around texts' := List.map_append

theorem placedFrom_eq (skip : Nat) (ts : List Placed) :
    placedFrom skip ts = placedItems (ts.drop skip) := by
  induction ts generalizing skip with
  | nil => rw [List.drop_nil, placedItems, placedFrom, placedFrom]
  | cons t ts ih =>
    cases skip with
    | zero => rfl
    | succ skip => rw [placedFrom, ih, List.drop_succ_cons]

theorem itemsWithin_nil (fuel : Nat) (previous : Option String) :
    itemsWithin fuel previous [] = [] := by
  cases fuel <;> rfl

/-- **The scan of a line** reads the headers and braces off the statements. -/
theorem itemsWithin_placed {fuel : Nat} {previous : Option String} {line rest : List Placed}
    (hfuel : line.length ≤ fuel) (h : Spelled previous (line ++ rest)) :
    itemsWithin fuel previous (line.map Placed.text) = placedItems line := by
  induction fuel generalizing previous line with
  | zero =>
    obtain rfl := List.eq_nil_of_length_eq_zero (Nat.le_zero.1 hfuel)
    rfl
  | succ fuel ih =>
    cases line with
    | nil => rfl
    | cons t line =>
      have hshort : line.length ≤ fuel := Nat.le_of_succ_le_succ hfuel
      rw [List.map_cons, itemsWithin, placedItems, placedFrom]
      generalize hl : t :: line ++ rest = l at h
      cases h with
      | nil => cases hl
      | plain hstarts hword h =>
        obtain ⟨rfl, rfl⟩ := List.cons.inj hl
        rw [if_neg fun hboth => hword hboth.1, hstarts, ih hshort h]
        rfl
      | @header _ hd around ts hok hstart hrest =>
        by_cases hread : hd.read = []
        · obtain rfl := Header.read_eq_nil hread
          obtain ⟨rfl, hline⟩ := List.cons.inj hl
          have hcolon : Spelled (some "default") (line ++ rest) := by
            change line ++ rest = _ at hline
            rw [hline]
            exact Spelled.single (by decide) hrest
          dsimp only
          rw [if_neg fun hboth => absurd hboth.1 (by decide), ih hshort hcolon]
          rfl
        · obtain ⟨word, more, others, hreadEq, htokens, hword, hwords, hreads⟩ := hok.reads hread
          rw [Header.place, htokens] at hl
          obtain ⟨rfl, hline⟩ := List.cons.inj hl
          change line ++ rest = place around (more ++ others) ++ ts at hline
          have hprefix : line.map Placed.text <+: more ++ others ++ ts.map Placed.text := by
            refine ⟨rest.map Placed.text, ?_⟩
            rw [← List.map_append, hline, List.map_append, text_place]
          rw [place_append, List.append_assoc] at hline
          dsimp only
          rw [if_pos ⟨hword, hstart⟩, hreads hprefix, if_neg hread, hreadEq, placedFrom_eq,
            List.length_cons, List.map_cons, List.take_succ_cons, Nat.add_sub_cancel]
          congr 1
          by_cases hlong : more.length ≤ line.length
          · -- what is read of the header is on the line
            have hread : (line.map Placed.text).take more.length = more := by
              have htexts := congrArg (fun l => (l.map Placed.text).take more.length) hline
              rwa [List.map_append, List.take_append_of_le_length (by rwa [List.length_map]),
                List.map_append, text_place, List.take_left] at htexts
            have hbehind : line.drop more.length ++ rest = place around others ++ ts := by
              rw [← List.drop_append_of_le_length hlong, hline, List.drop_left' (by simp [place])]
            have hlast : hd.tokens.getLast? = others.getLast?.or (word :: more).getLast? := by
              rw [htokens, ← List.cons_append, List.getLast?_append]
            dsimp only
            rw [hread, ← List.map_drop]
            refine ih (by rw [List.length_drop]; omega) ?_
            rw [hbehind]
            refine .of_place (fun t ht => hwords t (List.mem_append_right _ ht)) ?_
            rwa [← hlast]
          · rw [List.drop_eq_nil_of_le (by rw [List.length_map]; omega),
              List.drop_eq_nil_of_le (by omega), itemsWithin_nil]
            rfl

/-- The lines of a layout. -/
theorem map_lineItems {previous : Option String} {lines : List (List Placed)}
    (h : Spelled previous lines.flatten) :
    lines.map (fun line => lineItems (line.map Placed.text)) = lines.map placedItems := by
  induction lines generalizing previous with
  | nil => rfl
  | cons line lines ih =>
    rw [List.flatten_cons] at h
    obtain ⟨p, hrest⟩ := h.drop
    rw [List.map_cons, List.map_cons, ih hrest, lineItems, List.length_map,
      itemsWithin_placed le_rfl h.restart]

end Scan

/-! ## The scan of a file -/

section File

variable {previous : Option String} {ts : List Placed}

theorem spelled_labels {ls : List Header} (hls : ∀ h ∈ ls, h.isLabel = true ∧ h.Ok)
    (hstart : controlStart previous = true) (hts : ∀ q, controlStart q = true → Spelled q ts)
    (outer : List Header) : Spelled previous (ls.flatMap (Header.place outer) ++ ts) := by
  induction ls generalizing previous with
  | nil => exact hts previous hstart
  | cons h ls ih =>
    obtain ⟨⟨hlabel, hok⟩, hls⟩ := List.forall_mem_cons.1 hls
    have hlast : h.tokens.getLast? = some ":" := by
      cases h with
      | caseLabel value => rw [Header.tokens, ← List.cons_append, List.getLast?_concat]
      | defaultLabel => rfl
      | test _ _ _ | orElse => cases hlabel
    rw [List.flatMap_cons, List.append_assoc]
    refine .header hok hstart (ih hls ?_)
    rw [hlast]
    rfl

theorem spelled_block {headers : List Header} (hblock : startBlock headers = true)
    (hok : ∀ h ∈ headers, h.Ok) (hstart : controlStart previous = true)
    (hts : ∀ q, Spelled q ts) (around : List Header) :
    Spelled previous (headers.flatMap (Header.place around) ++ ts) := by
  unfold startBlock at hblock
  split at hblock
  · rw [List.flatMap_singleton]
    exact .header (hok _ (List.mem_singleton_self _)) hstart (hts _)
  · rw [List.flatMap_singleton]
    exact .header trivial hstart (hts _)
  · rw [List.flatMap_cons, List.flatMap_singleton, List.append_assoc]
    exact .header trivial hstart (.header (hok _ (by simp)) rfl (hts _))
  · cases hblock

/-- **A control word of well formed statements stands where a statement can start.** -/
theorem Body.Ok.spelled {b : Body} (hok : b.Ok) {outer chain labels : List Header}
    (hstart : controlStart previous = true ∨ b.isNil = true) (hts : ∀ q, Spelled q ts) :
    Spelled previous (b.placed outer chain labels ++ ts) := by
  induction b generalizing outer chain labels previous ts with
  | nil => exact hts previous
  | plain tokens rest ih =>
    obtain ⟨htokens, hlast, hrest⟩ := hok
    rw [Body.placed, List.append_assoc]
    refine .of_place (fun t ht => (htokens t ht).1) (ih hrest ?_ hts)
    rcases hlast with hnil | hlast | hlast
    · exact .inr hnil
    · rw [hlast]
      exact .inl rfl
    · rw [hlast]
      exact .inl rfl
  | labels ls rest ih =>
    rw [Body.placed, List.append_assoc]
    exact spelled_labels hok.1 (hstart.resolve_right Bool.false_ne_true)
      (fun q hq => ih hok.2 (.inl hq) hts) outer
  | block lead inner rest ihInner ihRest =>
    obtain ⟨hlead, hinner, hrest⟩ := hok
    have hopening : ∀ t ∈ lead ++ ["\x7b"], t ∉ controlWords := by
      intro t ht
      rcases List.mem_append.1 ht with ht | ht
      · exact (hlead t ht).1
      · rw [List.mem_singleton.1 ht]
        decide
    simp only [Body.placed, List.append_assoc]
    refine .of_place hopening ?_
    rw [List.getLast?_concat]
    exact ihInner hinner (.inl rfl) fun q =>
      .single (by decide) (ihRest hrest (.inl rfl) hts)
  | control headers inner rest ihInner ihRest =>
    obtain ⟨hblock, hheaders, hinner, hrest⟩ := hok
    simp only [Body.placed, List.append_assoc]
    refine spelled_block hblock hheaders (hstart.resolve_right Bool.false_ne_true)
      (fun q => .single (by decide) ?_) _
    exact ihInner hinner (.inl rfl) fun q =>
      .single (by decide) (ihRest hrest (.inl rfl) hts)

/-- **What a line of well formed statements shows**, in any layout. -/
theorem LaidOut.shown_eq {file : String × List Char} {lines : List (List Placed)}
    (h : LaidOut file lines) (n : Nat) : shown file n = visible file lines n := by
  obtain ⟨b, hok, hflat⟩ := h.body
  have hspelled : Spelled none lines.flatten := by
    have hall : Spelled none (b.placed [] [] [] ++ []) := hok.spelled (.inl rfl) fun _ => .nil
    rwa [List.append_nil, ← hflat] at hall
  have hitems : (logicalGroups file.2).map (fun g => lineItems g.tokens) =
      lines.map placedItems := by
    rw [← map_lineItems hspelled]
    have htokens := congrArg (List.map lineItems) h.tokens
    rwa [List.map_map, List.map_map] at htokens
  rw [shown, if_pos h.supported, visible, layoutItems, ← hitems, List.zip_map']

end File

/-! ## Headers that are shown -/

section Shown

/-- The items of logical lines, each with the number of its line. -/
def numberedItems (k : Nat) : List (List Nat × List ControlItem) → List (Nat × ControlItem)
  | [] => []
  | g :: gs => g.2.map (k, ·) ++ numberedItems (k + 1) gs

theorem numberedItems_append (k : Nat) (gs gs' : List (List Nat × List ControlItem)) :
    numberedItems k (gs ++ gs') = numberedItems k gs ++ numberedItems (k + gs.length) gs' := by
  induction gs generalizing k with
  | nil => rfl
  | cons g gs ih =>
    have hcount : k + 1 + gs.length = k + (g :: gs).length := by
      rw [List.length_cons]
      omega
    rw [List.cons_append, numberedItems, ih, numberedItems, List.append_assoc, hcount]

theorem snd_numberedItems (k : Nat) (gs : List (List Nat × List ControlItem)) :
    (numberedItems k gs).map Prod.snd = gs.flatMap Prod.snd := by
  induction gs generalizing k with
  | nil => rfl
  | cons g gs ih =>
    rw [numberedItems, List.map_append, ih, List.flatMap_cons, List.map_map]
    exact congrArg (· ++ _) (List.map_id g.2)

variable {n : Nat} {gs : List (List Nat × List ControlItem)}

theorem shownFrom_append (h : ∀ g ∈ gs, n ∉ g.1) (before : List (Nat × ControlItem)) (k : Nat)
    (gs' : List (List Nat × List ControlItem)) :
    shownFrom before k n (gs ++ gs') =
      shownFrom (before ++ numberedItems k gs) (k + gs.length) n gs' := by
  induction gs generalizing before k with
  | nil =>
    rw [numberedItems, List.append_nil]
    rfl
  | cons g gs ih =>
    obtain ⟨hg, hgs⟩ := List.forall_mem_cons.1 h
    have hcount : k + 1 + gs.length = k + (g :: gs).length := by
      rw [List.length_cons]
      omega
    rw [List.cons_append, shownFrom, if_neg hg, ih hgs, numberedItems, List.append_assoc, hcount]

theorem mem_addNew {l texts : List String} {text : String} :
    text ∈ addNew l texts ↔ text ∈ l ∨ text ∈ texts := by
  unfold addNew
  induction texts generalizing l with
  | nil => simp
  | cons t texts ih =>
    rw [List.foldl_cons, ih]
    by_cases ht : t ∈ l
    · rw [if_pos ht, List.mem_cons]
      constructor
      · exact Or.imp_right .inr
      · rintro (h | rfl | h)
        · exact .inl h
        · exact .inl ht
        · exact .inr h
    · rw [if_neg ht, List.mem_append, List.mem_singleton, List.mem_cons, or_assoc]

/-- A header is one of the block whose brace is opened behind it on the line. -/
theorem mem_headersOnLine {before rest : List (Nat × ControlItem)} {k : Nat} {text : String}
    (h : ∀ x ∈ rest, x.1 = k ∧ x.2 ≠ .opening) :
    text ∈ headersOnLine (before ++ (k, .header text) :: rest) k := by
  unfold headersOnLine
  have hrest : ∀ x ∈ rest.reverse, decide (x.1 = k ∧ x.2 ≠ .opening) = true :=
    fun x hx => decide_eq_true (h x (List.mem_reverse.1 hx))
  rw [List.reverse_append, List.reverse_cons, List.append_assoc,
    List.takeWhile_append_of_pos hrest, List.singleton_append,
    List.takeWhile_cons_of_pos (by simp)]
  exact List.mem_filterMap.2 ⟨(k, .header text), by simp, rfl⟩

/-- A header is shown by the lines of its block. -/
theorem mem_shownFrom {pre mid post : List (List Nat × List ControlItem)} {ns ns' : List Nat}
    {items a b c : List ControlItem} {text : String} (hb : ControlItem.opening ∉ b)
    (hbefore : ∀ g ∈ pre ++ (ns, a ++ .header text :: b ++ .opening :: c) :: mid, n ∉ g.1)
    (hn : n ∈ ns') (hopen : Nesting.excess ControlItem.mark (c ++ mid.flatMap Prod.snd) = 0) :
    text ∈ shownFrom [] 0 n
      (pre ++ (ns, a ++ .header text :: b ++ .opening :: c) :: mid ++ (ns', items) :: post) := by
  rw [shownFrom_append hbefore, shownFrom, if_pos hn, mem_addNew, numberedItems_append,
    numberedItems, List.map_append, List.map_cons, List.map_append, List.map_cons, List.nil_append,
    Nat.zero_add]
  generalize pre.length = k
  refine .inl (List.mem_flatten.2 ⟨headersOnLine (numberedItems 0 pre ++ (a.map (k, ·) ++
    (k, .header text) :: b.map (k, ·))) k, ?_, ?_⟩)
  · have hclosed : Nesting.excess (fun x : Nat × ControlItem => x.2.mark)
        (c.map (k, ·) ++ numberedItems (k + 1) mid) = 0 := by
      rw [← hopen, ← Nesting.excess_map ControlItem.mark Prod.snd, List.map_append,
        snd_numberedItems, List.map_map]
      exact congrArg (fun l => Nesting.excess _ (l ++ _)) (List.map_id c)
    have hmem : headersOnLine (numberedItems 0 pre ++ (a.map (k, ·) ++
          (k, .header text) :: b.map (k, ·))) k ∈
        Nesting.unclosed (fun x : Nat × ControlItem => x.2.mark)
          (fun before x => headersOnLine before x.1)
          ((numberedItems 0 pre ++ (a.map (k, ·) ++ (k, .header text) :: b.map (k, ·))) ++
            (k, .opening) :: (c.map (k, ·) ++ numberedItems (k + 1) mid)) :=
      Nesting.mem_unclosed rfl hclosed
    simpa only [openHeaders, List.append_assoc, List.cons_append] using hmem
  · rw [← List.append_assoc]
    refine mem_headersOnLine fun x hx => ?_
    obtain ⟨item, hitem, rfl⟩ := List.mem_map.1 hx
    exact ⟨rfl, fun h => hb (h ▸ hitem)⟩

/-- What is read of each header among the tokens stands among them. -/
def WholeHeaders (l : List Placed) : Prop :=
  ∀ (i : Nat) (t : Placed) (h : Header), l[i]? = some t → t.starts = some h →
    i + h.read.length ≤ l.length

/-- The items of tokens with whole headers come first. -/
theorem placedFrom_append {a : List Placed} (ha : WholeHeaders a) {skip : Nat}
    (hskip : skip ≤ a.length) (ts : List Placed) :
    placedFrom skip (a ++ ts) = placedFrom skip a ++ placedItems ts := by
  induction a generalizing skip with
  | nil =>
    obtain rfl : skip = 0 := Nat.le_zero.1 hskip
    rfl
  | cons t a ih =>
    have htail : WholeHeaders a := fun i t' h ht' hstarts => by
      have := ha (i + 1) t' h ht' hstarts
      rw [List.length_cons] at this
      omega
    rw [List.cons_append]
    cases skip with
    | succ skip => rw [placedFrom, placedFrom, ih htail (Nat.le_of_succ_le_succ hskip)]
    | zero =>
      rw [placedFrom, placedFrom]
      cases hstarts : t.starts with
      | none =>
        dsimp only
        rw [ih htail (Nat.zero_le _), List.append_assoc]
      | some h =>
        have hwhole := ha 0 t h rfl hstarts
        rw [List.length_cons] at hwhole
        have htexts : ((t :: (a ++ ts)).map Placed.text).take h.read.length =
            ((t :: a).map Placed.text).take h.read.length := by
          rw [← List.cons_append, List.map_append]
          exact List.take_append_of_le_length (by rw [List.length_map, List.length_cons]; omega)
        dsimp only
        rw [ih htail (Nat.zero_le _), ih htail (show h.read.length - 1 ≤ a.length by omega), htexts]
        split
        · rfl
        · rfl

theorem placedItems_append {a : List Placed} (ha : WholeHeaders a) (ts : List Placed) :
    placedItems (a ++ ts) = placedItems a ++ placedItems ts :=
  placedFrom_append ha (Nat.zero_le _) ts

/-- Tokens without an opening brace open nothing. -/
theorem opening_not_mem_placedFrom {a : List Placed} (h : ∀ t ∈ a, t.text ≠ "\x7b") (skip : Nat) :
    ControlItem.opening ∉ placedFrom skip a := by
  induction a generalizing skip with
  | nil => cases skip <;> exact List.not_mem_nil
  | cons t a ih =>
    obtain ⟨ht, ha⟩ := List.forall_mem_cons.1 h
    cases skip with
    | succ skip => exact ih ha skip
    | zero =>
      rw [placedFrom]
      cases t.starts with
      | none =>
        dsimp only
        rw [if_neg ht, List.mem_append, not_or]
        refine ⟨?_, ih ha 0⟩
        split <;> simp
      | some h =>
        dsimp only
        split
        · exact ih ha 0
        · rw [List.mem_cons, not_or]
          exact ⟨nofun, ih ha _⟩

/-- A header that is read whole on a line. -/
theorem placedItems_header {h : Header} {t : Placed} {more : List Placed}
    (hstarts : t.starts = some h) (hread : (t :: more).map Placed.text = h.read)
    (ts : List Placed) :
    placedItems (t :: more ++ ts) = .header (join h.read) :: placedItems ts := by
  have hlength : h.read.length = more.length + 1 := by
    rw [← hread, List.length_map, List.length_cons]
  have htake : ((t :: more ++ ts).map Placed.text).take h.read.length = h.read := by
    rw [List.map_append, hread, List.take_left]
  have hne : h.read ≠ [] := by
    rw [← hread]
    exact List.cons_ne_nil _ _
  rw [List.cons_append] at htake ⊢
  rw [placedItems, placedFrom, hstarts]
  dsimp only
  rw [if_neg hne, htake, placedFrom_eq, hlength, Nat.add_sub_cancel, List.drop_left]

/-- **A header that is read whole on the line of its opening brace** is shown by every line behind it
at which the block is open. -/
theorem mem_visible {file : String × List Char} {lines : List (List Placed)} {h : Header}
    {t brace : Placed} {a more b c : List Placed} (hstarts : t.starts = some h)
    (hread : (t :: more).map Placed.text = h.read) (ha : WholeHeaders a) (hb : WholeHeaders b)
    (hbraces : ∀ t ∈ b, t.text ≠ "\x7b") (hbrace : brace.starts = none ∧ brace.text = "\x7b")
    {pre mid post : List (List Nat × List ControlItem)} {ns ns' : List Nat}
    {items : List ControlItem}
    (hlayout : layoutItems file lines = pre ++
      (ns, placedItems (a ++ (t :: more ++ (b ++ brace :: c)))) :: mid ++ (ns', items) :: post)
    (hpre : ∀ g ∈ pre, n ∉ g.1) (hns : n ∉ ns) (hmid : ∀ g ∈ mid, n ∉ g.1) (hn : n ∈ ns')
    (hopen : Nesting.excess ControlItem.mark (placedItems c ++ mid.flatMap Prod.snd) = 0) :
    join h.read ∈ visible file lines n := by
  have hopens : placedItems (brace :: c) = .opening :: placedItems c := by
    rw [placedItems, placedFrom, hbrace.1, hbrace.2]
    rfl
  have hline : placedItems (a ++ (t :: more ++ (b ++ brace :: c))) =
      placedItems a ++ .header (join h.read) :: placedItems b ++ .opening :: placedItems c := by
    rw [placedItems_append ha, placedItems_header hstarts hread, placedItems_append hb, hopens,
      List.append_assoc, List.cons_append]
  rw [visible, hlayout, hline]
  refine mem_shownFrom (opening_not_mem_placedFrom hbraces 0) (fun g hg => ?_) hn hopen
  rcases List.mem_append.1 hg with hg | hg
  · exact hpre g hg
  · rcases List.mem_cons.1 hg with rfl | hg
    · exact hns
    · exact hmid g hg

end Shown

/-! ## The comparison -/

/-- **When a changed control context stops a line**, for files of well formed statements in any
layout: a line with other headers around it is told apart, and does not pass, exactly when the headers
that the two lines show differ. -/
theorem changed_control_blocks_iff (u : WordTable) (fingerprint : List String → String)
    (old new : SourceUniverse) {file file' : String × List Char}
    {lines lines' : List (List Placed)} (h : LaidOut file lines) (h' : LaidOut file' lines')
    (text text' : List Char) (m n : Nat) :
    (ChangedAround (tokensAt file lines m) (tokensAt file' lines' n) →
      (old.side u file text m).controls ≠ (new.side u file' text' n).controls ∧
        compareLine u fingerprint (old.side u file text m) (new.side u file' text' n) ≠ none) ↔
    (ChangedAround (tokensAt file lines m) (tokensAt file' lines' n) →
      visible file lines m ≠ visible file' lines' n) := by
  rw [controls_eq_shown, controls_eq_shown, h.shown_eq, h'.shown_eq]
  refine forall_congr' fun _ => ⟨fun hboth => hboth.1, fun hne => ⟨hne, fun hpass => hne ?_⟩⟩
  have hcontrols := (compareLine_eq_none_iff.1 hpass).1.controls
  rwa [controls_eq_shown, controls_eq_shown, h.shown_eq, h'.shown_eq] at hcontrols

namespace Sample

/-- A function with a conditional block. -/
def conditional (condition : String) : Body :=
  .block ["void", "f", "(", ")"]
    (.control [.test "if" [] [condition]] (.plain ["x", "(", ")", ";"] .nil) .nil) .nil

/-- Its brace is on the line of the header. -/
def braceBeside (condition : String) : String × List Char :=
  ("a.cpp", ("void f() \x7b\n  if (" ++ condition ++ ") \x7b\n    x();\n  \x7d\n\x7d").toList)

/-- Its brace is on the next line. -/
def braceBelow (condition : String) : String × List Char :=
  ("a.cpp", ("void f() \x7b\n  if (" ++ condition ++ ")\n  \x7b\n    x();\n  \x7d\n\x7d").toList)

/-- The statements cut into lines of some lengths. -/
def cutLines (lengths : List Nat) (tokens : List Placed) : List (List Placed) :=
  match lengths with
  | [] => []
  | n :: lengths => tokens.take n :: cutLines lengths (tokens.drop n)

/-- The lines of `braceBeside`. -/
def linesBeside (condition : String) : List (List Placed) :=
  cutLines [5, 5, 4, 1, 1] ((conditional condition).placed [] [] [])

/-- The lines of `braceBelow`. -/
def linesBelow (condition : String) : List (List Placed) :=
  cutLines [5, 4, 1, 4, 1, 1] ((conditional condition).placed [] [] [])

/-- A commit with one file. -/
def commitOf (file : String × List Char) : SourceUniverse := ⟨[file], by simp⟩

theorem laidOut_braceBeside :
    LaidOut (braceBeside "a") (linesBeside "a") ∧ LaidOut (braceBeside "b") (linesBeside "b") :=
  ⟨⟨rfl, by decide +kernel, conditional "a", by decide +kernel, by decide +kernel⟩,
    ⟨rfl, by decide +kernel, conditional "b", by decide +kernel, by decide +kernel⟩⟩

theorem laidOut_braceBelow :
    LaidOut (braceBelow "a") (linesBelow "a") ∧ LaidOut (braceBelow "b") (linesBelow "b") :=
  ⟨⟨rfl, by decide +kernel, conditional "a", by decide +kernel, by decide +kernel⟩,
    ⟨rfl, by decide +kernel, conditional "b", by decide +kernel, by decide +kernel⟩⟩

end Sample

/-- A changed condition whose brace is on its line stops the line of the block. -/
theorem changed_control_blocks_sample :
    let side := fun condition => (Sample.commitOf (Sample.braceBeside condition)).side .asciiOnly
      (Sample.braceBeside condition) "    x();".toList 3
    (side "a").controls ≠ (side "b").controls ∧
      compareLine .asciiOnly CppSourceAnalyzer.join (side "a") (side "b") ≠ none := by
  have hiff := changed_control_blocks_iff .asciiOnly CppSourceAnalyzer.join
    (Sample.commitOf (Sample.braceBeside "a")) (Sample.commitOf (Sample.braceBeside "b"))
    Sample.laidOut_braceBeside.1 Sample.laidOut_braceBeside.2 "    x();".toList "    x();".toList 3 3
  refine hiff.2 (fun _ => by decide +kernel) ⟨0, _, _, rfl, rfl, by decide +kernel⟩

/-- **The condition around a line is another one, and the line passes**: the brace is on the next
line. -/
theorem brace_on_next_line_is_missed :
    let file := Sample.braceBelow
    let lines := Sample.linesBelow
    let side := fun condition => (Sample.commitOf (file condition)).side .asciiOnly (file condition)
      "    x();".toList 4
    LaidOut (file "a") (lines "a") ∧ LaidOut (file "b") (lines "b") ∧
      ChangedAround (tokensAt (file "a") (lines "a") 4) (tokensAt (file "b") (lines "b") 4) ∧
      (side "a").controls = (side "b").controls ∧
      compareLine .asciiOnly CppSourceAnalyzer.join (side "a") (side "b") = none :=
  ⟨Sample.laidOut_braceBelow.1, Sample.laidOut_braceBelow.2,
    ⟨0, _, _, rfl, rfl, by decide +kernel⟩, by decide +kernel, by decide +kernel⟩

end FosCoverage
