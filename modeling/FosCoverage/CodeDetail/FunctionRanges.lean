import FosCoverage.CodeDetail.BlockPartition
import FosCoverage.Lib.Json
import FosCoverage.Lib.Outcome
import Mathlib.Data.List.Sort

/-!
# Which function a line is in

The functions of a page are the known ones, when they are sound, or else those that a scan of the
source finds; a sweep over the lines gives each the name of the function under a pointer.

* `validatedKnownFunctionRanges` keeps the outermost of the known ranges and refuses ranges that
  cross (`outermostOf_spec`).  It raises what `int` raises, where that is an `OverflowError`
  (`validatedKnownFunctionRanges_isOk_iff`).
* `extractCFunctionRanges` goes over the lines in four states.  `scanLine_cases` says what one line
  can do to the functions that are found; `Scanned` is what it keeps: **the functions are in order
  and of lines that were read**, and so are the lines at which the next one may start.
* `functionSweep_eq` says that the pointer finds the function of every line, by the same lemma about
  the pointer as the regions of a page.
-/

set_option autoImplicit false

namespace FosCoverage.SourceReader

open Text Regex Regex.Pattern Relational CodeDetail

/-! ## Known ranges -/

/-- What the conversions make of the values in a known range. -/
structure PyValues (V : Type) where
  /-- `int(value)` -/
  toInt : V → Except NumberError Int
  /-- `str(value)`, none for `None`. -/
  toStr : V → Option (List Char)

/-- An element of `known_function_ranges`. -/
inductive KnownRange (V : Type)
  /-- A `FunctionRange`. -/
  | range (fn : CodeDetail.FunctionRange)
  /-- A dictionary; its keys may be missing. -/
  | dict (startLine endLine name : Option V)
  /-- A list or a tuple. -/
  | sequence (values : List V)
  /-- Anything else. -/
  | other

section Known

variable {V : Type} (values : PyValues V)

/-- `int(value)` of a key that may be missing: `None` is no number. -/
def PyValues.intOf : Option V → Except NumberError Int
  | some value => values.toInt value
  | none => .error .typeError

/-- The lines and the name of a known range, none where there is nothing to read them from. -/
def KnownRange.fields :
    KnownRange V → Except NumberError (Option (Int × Int × Option (List Char)))
  | .range fn => return some (fn.startLine, fn.endLine, fn.name)
  | .dict startLine endLine name => do
    let first ← values.intOf startLine
    let last ← values.intOf endLine
    return some (first, last, name.bind values.toStr)
  | .sequence (startLine :: endLine :: rest) => do
    let first ← values.toInt startLine
    let last ← values.toInt endLine
    return some (first, last, rest.head?.bind values.toStr)
  | .sequence _ => return none
  | .other => return none

/-- The range, when its lines are some of the file. -/
def checkedRange (totalLines : Int) (raw : KnownRange V) :
    Except NumberError (Option CodeDetail.FunctionRange) :=
  match raw.fields values with
  | .ok (some (first, last, name)) =>
    if first < 1 ∨ last < first ∨ totalLines < last then .ok none
    else .ok (some (.make first last name))
  | .ok none => .ok none
  -- an `OverflowError` is neither a `TypeError` nor a `ValueError`
  | .error .overflowError => .error .overflowError
  | .error .typeError => .ok none
  | .error .valueError => .ok none

/-- `ranges`: the loop ends at the first range that is refused. -/
def checkedRanges (totalLines : Int) :
    List (KnownRange V) → Except NumberError (Option (List CodeDetail.FunctionRange))
  | [] => .ok (some [])
  | raw :: known => do
    match ← checkedRange values totalLines raw with
    | none => return none
    | some item => return (← checkedRanges totalLines known).map (item :: ·)

/-- `deduped`: one range for each pair of lines, with a name if one of them has. -/
def dedupe (deduped : Keyed (Int × Int) CodeDetail.FunctionRange)
    (item : CodeDetail.FunctionRange) : Keyed (Int × Int) CodeDetail.FunctionRange :=
  match deduped.get? (item.startLine, item.endLine) with
  | none => deduped.put (item.startLine, item.endLine) item
  | some previous =>
    if ¬ truthy previous.name ∧ truthy item.name then
      deduped.put (item.startLine, item.endLine) item
    else deduped

/-- The order of the sort key `(start_line, -end_line)`. -/
def outerLe (f g : CodeDetail.FunctionRange) : Prop :=
  f.startLine < g.startLine ∨ f.startLine = g.startLine ∧ g.endLine ≤ f.endLine

instance : DecidableRel outerLe := fun _ _ => inferInstanceAs (Decidable (_ ∨ _ ∧ _))

instance : Std.Total outerLe where
  total f g := by
    simp only [outerLe]
    omega

instance : IsTrans CodeDetail.FunctionRange outerLe where
  trans f g k h h' := by
    simp only [outerLe] at h h' ⊢
    omega

/-- The range is inside the other. -/
def Inside (item existing : CodeDetail.FunctionRange) : Prop :=
  existing.startLine ≤ item.startLine ∧ item.endLine ≤ existing.endLine

instance : DecidableRel Inside := fun _ _ => inferInstanceAs (Decidable (_ ∧ _))

/-- The ranges cross. -/
def Crosses (item existing : CodeDetail.FunctionRange) : Prop :=
  (item.startLine < existing.startLine ∧ existing.startLine ≤ item.endLine ∧
      item.endLine < existing.endLine) ∨
    (existing.startLine < item.startLine ∧ item.startLine ≤ existing.endLine ∧
      existing.endLine < item.endLine)

instance : DecidableRel Crosses := fun _ _ => inferInstanceAs (Decidable (_ ∨ _))

/-- `is_nested`: none when the range crosses another. -/
def isNested (item : CodeDetail.FunctionRange) : List CodeDetail.FunctionRange → Option Bool
  | [] => some false
  | existing :: rest =>
    if Inside item existing then some true
    else if Crosses item existing then none
    else isNested item rest

/-- The loop over the ordered ranges. -/
def outermostFrom : List CodeDetail.FunctionRange → List CodeDetail.FunctionRange →
    Option (List CodeDetail.FunctionRange)
  | outermost, [] => some outermost
  | outermost, item :: rest => do
    let nested ← isNested item outermost
    outermostFrom (if nested then outermost else outermost ++ [item]) rest

/-- The outermost of the ranges, none where two of them cross. -/
def outermostOf (ranges : List CodeDetail.FunctionRange) :
    Option (List CodeDetail.FunctionRange) :=
  if ranges = [] then none
  else do
    let deduped := ranges.foldl dedupe .empty
    let ordered := (deduped.rows.map Prod.snd).insertionSort outerLe
    let outermost ← outermostFrom [] ordered
    if outermost = [] then none else some outermost

/-- `_validated_known_function_ranges` -/
def validatedKnownFunctionRanges (known : List (KnownRange V)) (totalLines : Int) :
    Except NumberError (Option (List CodeDetail.FunctionRange)) :=
  if known = [] then return none
  else return (← checkedRanges values totalLines known).bind outermostOf

end Known

/-! ## The scan of the source -/

/-- What a place in a line is in. -/
inductive LexMode
  | code
  | comment
  | literal (quote : Char)

/-- The structural text of a line, without comments and literals, and whether a comment goes on
behind it.  A literal ends with the line. -/
def cleanLine : LexMode → List Char → Bool × List Char
  | .comment, [] => (true, [])
  | .comment, '*' :: '/' :: cs => cleanLine .code cs
  | .comment, _ :: cs => cleanLine .comment cs
  | .code, [] => (false, [])
  | .code, '/' :: '*' :: cs => cleanLine .comment cs
  | .code, '/' :: '/' :: _ => (false, [])
  | .code, c :: cs =>
    if c = '"' ∨ c = '\'' then cleanLine (.literal c) cs
    else
      let (inBlockComment, cleaned) := cleanLine .code cs
      (inBlockComment, c :: cleaned)
  | .literal _, [] => (false, [])
  | .literal _, ['\\'] => (false, [])
  | .literal quote, '\\' :: _ :: cs => cleanLine (.literal quote) cs
  | .literal quote, c :: cs =>
    if c = quote then cleanLine .code cs else cleanLine (.literal quote) cs

example : cleanLine .code "f(\"\x7d\\\"\", '\x7b'); /* \x7d */ g(); // h".toList =
    (false, "f(, );  g(); ".toList) := by decide +kernel

/-- The signature of a function that may have a body. -/
structure Signature where
  /-- `sig_start_line` -/
  startLine : Int
  /-- `current_fn_name` -/
  name : List Char

/-- `state`, with the variables that it reads. -/
inductive ScanState
  /-- `SEEKING` -/
  | seeking (candidatePrefixLines : List (Int × List Char))
  /-- `IN_SIGNATURE` -/
  | inSignature (sig : Signature) (sigTextBuffer : List (List Char)) (parenDepth : Int)
  /-- `WAITING_FOR_BODY` -/
  | waitingForBody (sig : Signature)
  /-- `IN_BODY` -/
  | inBody (sig : Signature) (braceDepth : Int)

/-- The variables of the loop over the lines. -/
structure Scan where
  /-- `functions` -/
  functions : List CodeDetail.FunctionRange
  /-- `in_block_comment` -/
  inBlockComment : Bool
  /-- `state` -/
  state : ScanState

/-- `text.count(open) - text.count(close)` -/
def balance (opening closing : Char) (text : List Char) : Int :=
  (text.count opening : Int) - text.count closing

/-- `text[text.rfind(c):]`, the last character when there is none. -/
def fromLast (c : Char) (text : List Char) : List Char :=
  if c ∈ text then c :: (text.reverse.takeWhile (· ≠ c)).reverse
  else text.drop (text.length - 1)

/-- `" ".join` -/
def joinSpaces (texts : List (List Char)) : List Char := [' '].intercalate texts

/-- `^(typedef|struct|enum|union|using|namespace|return|goto|break|continue)\b` -/
def noSignatureRe : Pattern :=
  cat [start, oneOf (["typedef", "struct", "enum", "union", "using", "namespace", "return", "goto",
    "break", "continue"].map lit), boundary]

section Scan

variable (u : WordTable)

/-- The body of a function opens on a line, and may end on it. -/
def openBody (functions : List CodeDetail.FunctionRange) (sig : Signature) (lineNo : Int)
    (cleanText : List Char) : List CodeDetail.FunctionRange × ScanState :=
  let braceDepth := balance '\x7b' '\x7d' cleanText
  if braceDepth ≤ 0 then
    (functions ++ [.make sig.startLine lineNo (some sig.name)], .seeking [])
  else (functions, .inBody sig braceDepth)

/-- The end of a parameter list, with the text behind it. -/
def afterSignature (functions : List CodeDetail.FunctionRange) (sig : Signature) (lineNo : Int)
    (cleanText afterParen : List Char) : List CodeDetail.FunctionRange × ScanState :=
  if ';' ∈ afterParen then (functions, .seeking [])
  else if '\x7b' ∈ afterParen then openBody functions sig lineNo cleanText
  else (functions, .waitingForBody sig)

/-- A line in `SEEKING`. -/
def seekLine (functions : List CodeDetail.FunctionRange) (prefixLines : List (Int × List Char))
    (lineNo : Int) (cleanText : List Char) : List CodeDetail.FunctionRange × ScanState :=
  if cleanText = [] then (functions, .seeking prefixLines)
  else if cleanText.head? = some '#' then (functions, .seeking [])
  else if '(' ∈ cleanText then
    let head := strip (cleanText.takeWhile (· ≠ '('))
    if prefixMatch u noSignatureRe head ∨ isControlFlowText u head then (functions, .seeking [])
    else
      let texts := prefixLines.map Prod.snd ++ [cleanText]
      let combined := extractFunctionNameFromSignature u (joinSpaces texts)
      let name := if combined ≠ [] then combined else extractFunctionNameFromSignature u cleanText
      if name = [] then (functions, .seeking [])
      else
        let sig : Signature := ⟨(prefixLines.head?.map Prod.fst).getD lineNo, name⟩
        let parenDepth := balance '(' ')' cleanText
        if 0 < parenDepth then (functions, .inSignature sig texts parenDepth)
        else afterSignature functions sig lineNo cleanText (fromLast ')' cleanText)
  else if ';' ∈ cleanText ∨ '\x7b' ∈ cleanText ∨ '\x7d' ∈ cleanText ∨
      cleanText.getLast? = some ':' ∨ isControlFlowText u cleanText then
    (functions, .seeking [])
  else match prefixLines.getLast? with
    | none => (functions, .seeking [(lineNo, cleanText)])
    | some before =>
      if lineNo - before.1 ≤ 2 then (functions, .seeking (prefixLines ++ [(lineNo, cleanText)]))
      else (functions, .seeking [(lineNo, cleanText)])

/-- A line in any state. -/
def scanText (functions : List CodeDetail.FunctionRange) (state : ScanState) (lineNo : Int)
    (cleanText : List Char) : List CodeDetail.FunctionRange × ScanState :=
  match state with
  | .seeking prefixLines => seekLine u functions prefixLines lineNo cleanText
  | .inSignature sig sigTextBuffer parenDepth =>
    if cleanText.head? = some '#' then (functions, .inSignature sig sigTextBuffer parenDepth)
    else
      let sigTextBuffer := sigTextBuffer ++ [cleanText]
      let parenDepth := parenDepth + balance '(' ')' cleanText
      if parenDepth ≤ 0 then
        let name := if sig.name = [] then
          extractFunctionNameFromSignature u (joinSpaces sigTextBuffer) else sig.name
        afterSignature functions ⟨sig.startLine, name⟩ lineNo cleanText
          (if ')' ∈ cleanText then fromLast ')' cleanText else cleanText)
      else (functions, .inSignature sig sigTextBuffer parenDepth)
  | .waitingForBody sig =>
    if cleanText = [] ∨ cleanText.head? = some '#' then (functions, .waitingForBody sig)
    else if ';' ∈ cleanText ∧ '\x7b' ∉ cleanText then (functions, .seeking [])
    else if '\x7b' ∈ cleanText then openBody functions sig lineNo cleanText
    else if 30 < lineNo - sig.startLine then (functions, .seeking [])
    else (functions, .waitingForBody sig)
  | .inBody sig braceDepth =>
    let braceDepth := braceDepth + balance '\x7b' '\x7d' cleanText
    if braceDepth ≤ 0 then
      (functions ++ [.make sig.startLine lineNo (some sig.name)], .seeking [])
    else (functions, .inBody sig braceDepth)

/-- One line. -/
def scanLine (s : Scan) (item : RawLine) : Scan :=
  let (inBlockComment, cleaned) :=
    cleanLine (if s.inBlockComment then .comment else .code) item.codeText
  let (functions, state) := scanText u s.functions s.state item.lineNo (strip cleaned)
  ⟨functions, inBlockComment, state⟩

/-- `extract_c_function_ranges` -/
def extractCFunctionRanges (rawLines : List RawLine) : List CodeDetail.FunctionRange :=
  let s := rawLines.foldl (scanLine u) ⟨[], false, .seeking []⟩
  match s.state, rawLines.getLast? with
  | .inBody sig _, some last =>
    s.functions ++ [.make sig.startLine last.lineNo (some sig.name)]
  | _, _ => s.functions

end Scan

/-! ## The sweep -/

/-- `function_name` of each line: not set, or a name that may be `None`. -/
def functionSweep : List CodeDetail.FunctionRange → List RawLine →
    List (Option (Option (List Char)))
  | _, [] => []
  | fns, item :: items =>
    let fns := advance item.lineNo fns
    let name := match fns with
      | fn :: _ => if fn.contains item.lineNo then some fn.name else none
      | [] => none
    name :: functionSweep fns items

/-- `max((item["line_no"] for item in raw_lines), default=0)` -/
def lastLineNo (rawLines : List RawLine) : Int := ((rawLines.map RawLine.lineNo).max?).getD 0

/-- `function_ranges` of a page: the known ranges, or those of the scan. -/
def functionRangesOf {V : Type} (u : WordTable) (values : PyValues V)
    (known : Option (List (KnownRange V))) (rawLines : List RawLine) :
    Except NumberError (List CodeDetail.FunctionRange) := do
  let functionRanges ← known.elim (pure none) fun known =>
    validatedKnownFunctionRanges values known (lastLineNo rawLines)
  return functionRanges.getD (extractCFunctionRanges u rawLines)

/-! ## What is known is in order -/

section Known

variable {V : Type} {values : PyValues V} {total : Int}

/-- **The range that a known range gives**: its ends are numbers, and lines of the file. -/
def Gives (values : PyValues V) (total : Int) (raw : KnownRange V) (f : CodeDetail.FunctionRange) :
    Prop :=
  ∃ first last name, raw.fields values = .ok (some (first, last, name)) ∧ 1 ≤ first ∧
    first ≤ last ∧ last ≤ total ∧ f = .make first last name

/-- Ranges that are given have lines. -/
theorem lines_of_gives {known : List (KnownRange V)} {ranges : List CodeDetail.FunctionRange}
    (h : List.Forall₂ (Gives values total) known ranges) :
    ∀ f ∈ ranges, f.startLine ≤ f.endLine := by
  induction h with
  | nil => exact fun f hf => (nomatch hf)
  | cons hraw _ ih =>
    refine List.forall_mem_cons.2 ⟨?_, ih⟩
    obtain ⟨first, last, name, -, -, hle, -, rfl⟩ := hraw
    exact hle

theorem checkedRange_eq_some {raw : KnownRange V} {f : CodeDetail.FunctionRange} :
    checkedRange values total raw = .ok (some f) ↔ Gives values total raw f := by
  unfold checkedRange Gives
  generalize raw.fields values = fields
  match fields with
  | .ok (some (first, last, name)) =>
    dsimp only
    split
    · next hlines =>
      simp only [Except.ok.injEq, reduceCtorEq, false_iff]
      rintro ⟨_, _, _, hfields, hone, hle, htotal, -⟩
      cases hfields
      omega
    · next hlines =>
      simp only [Except.ok.injEq, Option.some.injEq, Prod.mk.injEq]
      constructor
      · rintro rfl
        exact ⟨first, last, name, ⟨rfl, rfl, rfl⟩, by omega, by omega, by omega, rfl⟩
      · rintro ⟨_, _, _, ⟨rfl, rfl, rfl⟩, -, -, -, rfl⟩
        rfl
  | .ok none => simp
  | .error .overflowError => simp
  | .error .typeError => simp
  | .error .valueError => simp

/-- The values that the loop makes a number of, in this order. -/
def KnownRange.ends : KnownRange V → List (Option V)
  | .range _ => []
  | .dict startLine endLine _ => [startLine, endLine]
  | .sequence (startLine :: endLine :: _) => [some startLine, some endLine]
  | .sequence _ => []
  | .other => []

/-- **A number of the known range is too large for `int`**, and the ones before it are not. -/
def Overflows (values : PyValues V) (raw : KnownRange V) : Prop :=
  ∃ before value after, raw.ends = before ++ value :: after ∧
    (∀ v ∈ before, ∃ n, values.intOf v = .ok n) ∧ values.intOf value = .error .overflowError

/-- Of two values the first overflows, or the second does behind a number. -/
theorem ends_overflow {a b : Option V} :
    (∃ before value after, [a, b] = before ++ value :: after ∧
        (∀ v ∈ before, ∃ n, values.intOf v = .ok n) ∧
        values.intOf value = .error .overflowError) ↔
      values.intOf a = .error .overflowError ∨
        (∃ n, values.intOf a = .ok n) ∧ values.intOf b = .error .overflowError := by
  constructor
  · rintro ⟨before, value, after, heq, hbefore, hvalue⟩
    rcases before with - | ⟨v, - | ⟨w, before⟩⟩
    · obtain ⟨rfl, -⟩ := List.cons.inj heq
      exact .inl hvalue
    · obtain ⟨rfl, htail⟩ := List.cons.inj heq
      obtain ⟨rfl, -⟩ := List.cons.inj htail
      exact .inr ⟨hbefore _ List.mem_cons_self, hvalue⟩
    · simp at heq
  · rintro (ha | ⟨ha, hb⟩)
    · exact ⟨[], a, [b], rfl, fun _ hv => (nomatch hv), ha⟩
    · exact ⟨[a], b, [], rfl, List.forall_mem_singleton.2 ha, hb⟩

theorem fields_overflow {raw : KnownRange V} :
    raw.fields values = .error .overflowError ↔ Overflows values raw := by
  unfold Overflows
  cases raw with
  | range fn => simp [KnownRange.fields, KnownRange.ends, pure, Except.pure]
  | other => simp [KnownRange.fields, KnownRange.ends, pure, Except.pure]
  | dict startLine endLine name =>
    rw [KnownRange.ends, ends_overflow]
    simp [KnownRange.fields, Outcome.bind_eq_error, pure, Except.pure]
  | sequence items =>
    match items with
    | startLine :: endLine :: rest =>
      rw [KnownRange.ends, ends_overflow]
      simp [KnownRange.fields, PyValues.intOf, Outcome.bind_eq_error, pure, Except.pure]
    | [_] => simp [KnownRange.fields, KnownRange.ends, pure, Except.pure]
    | [] => simp [KnownRange.fields, KnownRange.ends, pure, Except.pure]

theorem checkedRange_isOk {raw : KnownRange V} :
    (∃ out, checkedRange values total raw = .ok out) ↔ ¬ Overflows values raw := by
  rw [← fields_overflow]
  unfold checkedRange
  split
  · split <;> simp [*]
  all_goals simp [*]

/-- **No known range overflows**, as far as the ranges before it are read. -/
def Converts (values : PyValues V) (total : Int) (known : List (KnownRange V)) : Prop :=
  ∀ before raw after, known = before ++ raw :: after →
    (∀ r ∈ before, ∃ f, Gives values total r f) → ¬ Overflows values raw

theorem converts_cons {raw : KnownRange V} {known : List (KnownRange V)} :
    Converts values total (raw :: known) ↔ ¬ Overflows values raw ∧
      ((∃ f, Gives values total raw f) → Converts values total known) := by
  constructor
  · intro h
    refine ⟨h [] raw known rfl fun _ hr => (nomatch hr), fun hgives before next after heq hb => ?_⟩
    exact h (raw :: before) next after (by rw [heq, List.cons_append])
      (List.forall_mem_cons.2 ⟨hgives, hb⟩)
  · rintro ⟨hraw, hrest⟩ before next after heq hb
    cases before with
    | nil =>
      obtain ⟨rfl, -⟩ := List.cons.inj heq
      exact hraw
    | cons r before =>
      obtain ⟨rfl, htail⟩ := List.cons.inj heq
      obtain ⟨hgives, hb⟩ := List.forall_mem_cons.1 hb
      exact hrest hgives before next after htail hb

theorem checkedRanges_cons_isOk {raw : KnownRange V} {known : List (KnownRange V)} :
    (∃ out, checkedRanges values total (raw :: known) = .ok out) ↔
      (∃ out, checkedRange values total raw = .ok out) ∧
        ((∃ f, checkedRange values total raw = .ok (some f)) →
          ∃ out, checkedRanges values total known = .ok out) := by
  rw [checkedRanges]
  cases hraw : checkedRange values total raw with
  | error e => simp
  | ok out =>
    cases out with
    | none => simp [pure, Except.pure]
    | some item => simp [Outcome.map_isOk]

/-- **The loop over the known ranges ends, exactly where none that it comes to overflows.** -/
theorem checkedRanges_isOk {known : List (KnownRange V)} :
    (∃ out, checkedRanges values total known = .ok out) ↔ Converts values total known := by
  induction known with
  | nil =>
    refine iff_of_true ⟨some [], rfl⟩ fun before raw after heq => ?_
    simp at heq
  | cons raw known ih =>
    rw [checkedRanges_cons_isOk, converts_cons, checkedRange_isOk, ih]
    simp only [checkedRange_eq_some]

/-- Ranges that are all read are the ranges that are given. -/
theorem checkedRanges_eq_some {known : List (KnownRange V)} {ranges : List CodeDetail.FunctionRange}
    (h : checkedRanges values total known = .ok (some ranges)) :
    List.Forall₂ (Gives values total) known ranges := by
  induction known generalizing ranges with
  | nil =>
    obtain rfl : [] = ranges := by simpa [checkedRanges] using h
    exact .nil
  | cons raw known ih =>
    rw [checkedRanges, Outcome.bind_eq_ok] at h
    obtain ⟨out, hraw, h⟩ := h
    cases out with
    | none => simp [pure, Except.pure] at h
    | some item =>
      obtain ⟨rest, hrest, h⟩ := Outcome.bind_eq_ok.1 h
      cases rest with
      | none => simp [pure, Except.pure] at h
      | some rest =>
        obtain rfl : item :: rest = ranges := by simpa [pure, Except.pure] using h
        exact .cons (checkedRange_eq_some.1 hraw) (ih hrest)

/-- The table has one of the ranges for each pair of lines. -/
structure Deduped (ranges : List CodeDetail.FunctionRange)
    (t : Keyed (Int × Int) CodeDetail.FunctionRange) : Prop where
  /-- They are some of the ranges, under their lines. -/
  mem : ∀ k f, t.get? k = some f → f ∈ ranges ∧ k = (f.startLine, f.endLine)
  /-- None is without. -/
  all : ∀ f ∈ ranges, ∃ g, t.get? (f.startLine, f.endLine) = some g

theorem Deduped.put {ranges : List CodeDetail.FunctionRange}
    {t : Keyed (Int × Int) CodeDetail.FunctionRange} (h : Deduped ranges t) (item : CodeDetail.FunctionRange) :
    Deduped (ranges ++ [item]) (t.put (item.startLine, item.endLine) item) := by
  constructor
  · intro k f hk
    rw [Keyed.get?_put] at hk
    split at hk
    · next heq =>
      obtain rfl := Option.some.inj hk
      exact ⟨by simp, heq⟩
    · exact ⟨List.mem_append_left _ (h.mem k f hk).1, (h.mem k f hk).2⟩
  · intro f hf
    rw [Keyed.get?_put]
    split
    · exact ⟨item, rfl⟩
    · next hne =>
      rcases List.mem_append.1 hf with hf | hf
      · exact h.all f hf
      · rw [List.mem_singleton.1 hf] at hne
        exact absurd rfl hne

theorem Deduped.dedupe {ranges : List CodeDetail.FunctionRange}
    {t : Keyed (Int × Int) CodeDetail.FunctionRange} (h : Deduped ranges t) (item : CodeDetail.FunctionRange) :
    Deduped (ranges ++ [item]) (dedupe t item) := by
  unfold SourceReader.dedupe
  cases hget : t.get? (item.startLine, item.endLine) with
  | none => exact h.put item
  | some previous =>
    dsimp only
    split
    · exact h.put item
    · refine ⟨fun k f hk => ⟨List.mem_append_left _ (h.mem k f hk).1, (h.mem k f hk).2⟩, ?_⟩
      intro f hf
      rcases List.mem_append.1 hf with hf | hf
      · exact h.all f hf
      · rw [List.mem_singleton.1 hf]
        exact ⟨previous, hget⟩

theorem deduped_foldl (ranges : List CodeDetail.FunctionRange) :
    Deduped ranges (ranges.foldl dedupe .empty) := by
  have hrun : ∀ (rest done : List CodeDetail.FunctionRange)
      (t : Keyed (Int × Int) CodeDetail.FunctionRange),
      Deduped done t → Deduped (done ++ rest) (rest.foldl dedupe t) := by
    intro rest
    induction rest with
    | nil =>
      intro done t h
      rwa [List.append_nil]
    | cons item rest ih =>
      intro done t h
      have := ih (done ++ [item]) (SourceReader.dedupe t item) (h.dedupe item)
      rwa [List.append_assoc] at this
  exact hrun ranges [] .empty ⟨fun _ _ hk => (nomatch hk), fun _ hf => (nomatch hf)⟩

theorem isNested_true {item : CodeDetail.FunctionRange} {outermost : List CodeDetail.FunctionRange}
    (h : isNested item outermost = some true) : ∃ g ∈ outermost, Inside item g := by
  induction outermost with
  | nil => cases h
  | cons g rest ih =>
    rw [isNested] at h
    split at h
    · next hinside => exact ⟨g, List.mem_cons_self, hinside⟩
    · split at h
      · cases h
      · obtain ⟨g', hg', hinside⟩ := ih h
        exact ⟨g', List.mem_cons_of_mem _ hg', hinside⟩

theorem isNested_false {item : CodeDetail.FunctionRange} {outermost : List CodeDetail.FunctionRange}
    (h : isNested item outermost = some false) :
    ∀ g ∈ outermost, ¬ Inside item g ∧ ¬ Crosses item g := by
  induction outermost with
  | nil => exact fun g hg => (nomatch hg)
  | cons g rest ih =>
    rw [isNested] at h
    split at h
    · cases h
    · next hinside =>
      split at h
      · cases h
      · next hcrosses => exact List.forall_mem_cons.2 ⟨⟨hinside, hcrosses⟩, ih h⟩

/-- **The outermost of some ranges**: in order, and each range is inside one. -/
structure Outermost (ranges outermost : List CodeDetail.FunctionRange) : Prop where
  /-- They are in order. -/
  inOrder : InOrder outermost
  /-- They are some of the ranges. -/
  mem : ∀ g ∈ outermost, g ∈ ranges
  /-- Each range is inside one. -/
  covers : ∀ f ∈ ranges, ∃ g ∈ outermost, Inside f g

/-- A range that starts no earlier than the others is nested, or stands behind them. -/
theorem Outermost.step {ranges outermost : List CodeDetail.FunctionRange}
    (h : Outermost ranges outermost)
    {item : CodeDetail.FunctionRange} (hlater : ∀ f ∈ ranges, outerLe f item)
    (hitem : item.startLine ≤ item.endLine) {nested : Bool}
    (hnested : isNested item outermost = some nested) :
    Outermost (ranges ++ [item]) (if nested then outermost else outermost ++ [item]) := by
  cases nested with
  | true =>
    refine ⟨h.inOrder, fun g hg => List.mem_append_left _ (h.mem g hg), fun f hf => ?_⟩
    rcases List.mem_append.1 hf with hf | hf
    · exact h.covers f hf
    · rw [List.mem_singleton.1 hf]
      exact isNested_true hnested
  | false =>
    have hbehind : ∀ g ∈ outermost, g.endLine < item.startLine := by
      intro g hg
      obtain ⟨hinside, hcrosses⟩ := isNested_false hnested g hg
      have hle := hlater g (h.mem g hg)
      simp only [Inside, Crosses, outerLe] at hinside hcrosses hle
      omega
    refine ⟨h.inOrder.concat hitem hbehind, fun g hg => ?_, fun f hf => ?_⟩
    · rcases List.mem_append.1 hg with hg | hg
      · exact List.mem_append_left _ (h.mem g hg)
      · exact List.mem_append_right _ hg
    · rcases List.mem_append.1 hf with hf | hf
      · obtain ⟨g, hg, hinside⟩ := h.covers f hf
        exact ⟨g, List.mem_append_left _ hg, hinside⟩
      · rw [List.mem_singleton.1 hf]
        exact ⟨item, by simp, Int.le_refl _, Int.le_refl _⟩

/-- **The loop over ordered ranges keeps the outermost.** -/
theorem outermostFrom_outermost {rest ranges outermost out : List CodeDetail.FunctionRange}
    (h : Outermost ranges outermost) (hsorted : (ranges ++ rest).Pairwise outerLe)
    (hlines : ∀ f ∈ rest, f.startLine ≤ f.endLine)
    (hout : outermostFrom outermost rest = some out) : Outermost (ranges ++ rest) out := by
  induction rest generalizing ranges outermost with
  | nil =>
    obtain rfl := Option.some.inj hout
    rwa [List.append_nil]
  | cons item rest ih =>
    rw [List.forall_mem_cons] at hlines
    obtain ⟨nested, hnested, hout⟩ := Option.bind_eq_some_iff.1 hout
    have hlater : ∀ f ∈ ranges, outerLe f item := fun f hf =>
      (List.pairwise_append.1 hsorted).2.2 f hf item List.mem_cons_self
    have hstep := h.step hlater hlines.1 hnested
    have := ih hstep (by rwa [List.append_assoc]) hlines.2 hout
    rwa [List.append_assoc] at this

/-- **The outermost of the ranges are in order**, they are some of the ranges, and every range is
inside exactly one. -/
theorem outermostOf_spec {ranges out : List CodeDetail.FunctionRange}
    (hlines : ∀ f ∈ ranges, f.startLine ≤ f.endLine) (h : outermostOf ranges = some out) :
    InOrder out ∧ (∀ g ∈ out, g ∈ ranges) ∧ ∀ f ∈ ranges, ∃! g, g ∈ out ∧ Inside f g := by
  unfold outermostOf at h
  split at h
  · cases h
  obtain ⟨out', hout, h⟩ := Option.bind_eq_some_iff.1 h
  split at h
  · cases h
  obtain rfl := Option.some.inj h
  have hdeduped := deduped_foldl ranges
  generalize ranges.foldl dedupe .empty = t at hdeduped hout
  -- what is sorted are the values of the table
  have hvalue : ∀ {f : CodeDetail.FunctionRange}, f ∈ (t.rows.map Prod.snd).insertionSort outerLe ↔
      t.get? (f.startLine, f.endLine) = some f := by
    intro f
    rw [List.mem_insertionSort, List.mem_map]
    constructor
    · rintro ⟨⟨k, f'⟩, hr, rfl⟩
      have hget := Keyed.get?_eq_some_iff.2 hr
      rw [(hdeduped.mem k f' hget).2] at hget
      exact hget
    · exact fun hget => ⟨_, Keyed.get?_eq_some_iff.1 hget, rfl⟩
  have hempty : Outermost [] [] :=
    ⟨⟨fun _ hf => (nomatch hf), .nil⟩, fun _ hg => (nomatch hg), fun _ hf => (nomatch hf)⟩
  have houtermost := outermostFrom_outermost hempty
    (List.pairwise_insertionSort outerLe (t.rows.map Prod.snd))
    (fun f hf => hlines f (hdeduped.mem _ f (hvalue.1 hf)).1) hout
  refine ⟨houtermost.inOrder,
    fun g hg => (hdeduped.mem _ g (hvalue.1 (houtermost.mem g hg))).1, fun f hf => ?_⟩
  obtain ⟨f', hf'⟩ := hdeduped.all f hf
  obtain ⟨-, hkey⟩ := hdeduped.mem _ f' hf'
  obtain ⟨hstart, hend⟩ := Prod.mk.inj hkey
  obtain ⟨g, hg, hinside⟩ := houtermost.covers f' (hvalue.2 (by rw [← hkey]; exact hf'))
  have hfg : Inside f g := ⟨hstart ▸ hinside.1, hend ▸ hinside.2⟩
  refine ⟨g, ⟨hg, hfg⟩, fun g' ⟨hg', hfg'⟩ => ?_⟩
  have hf := hlines f hf
  refine houtermost.inOrder.eq_of_contains hg' hg (?_ : g'.contains f.startLine = true) ?_
  · rw [CodeDetail.FunctionRange.contains_iff]
    exact ⟨hfg'.1, hf.trans hfg'.2⟩
  · rw [CodeDetail.FunctionRange.contains_iff]
    exact ⟨hfg.1, hf.trans hfg.2⟩

/-- **What the known ranges may be made of**: they are all read, and the answer is the outermost of
them, in order, such that each of them is inside exactly one. -/
def Validated (values : PyValues V) (known : List (KnownRange V)) (total : Int)
    (out : List CodeDetail.FunctionRange) : Prop :=
  ∃ ranges, List.Forall₂ (Gives values total) known ranges ∧ InOrder out ∧
    (∀ g ∈ out, g ∈ ranges) ∧ ∀ f ∈ ranges, ∃! g, g ∈ out ∧ Inside f g

/-- **Known ranges that are accepted are validated.** -/
theorem validatedKnownFunctionRanges_spec {known : List (KnownRange V)}
    {out : List CodeDetail.FunctionRange}
    (h : validatedKnownFunctionRanges values known total = .ok (some out)) :
    Validated values known total out := by
  unfold validatedKnownFunctionRanges at h
  split at h
  · simp [pure, Except.pure] at h
  obtain ⟨read, hread, h⟩ := Outcome.bind_eq_ok.1 h
  obtain ⟨ranges, rfl, hout⟩ := Option.bind_eq_some_iff.1 (Outcome.pure_eq_ok.1 h)
  have hgives := checkedRanges_eq_some hread
  exact ⟨ranges, hgives, outermostOf_spec (lines_of_gives hgives) hout⟩

/-- **The known ranges are accepted or refused, exactly where none overflows.** -/
theorem validatedKnownFunctionRanges_isOk_iff {known : List (KnownRange V)} :
    (∃ out, validatedKnownFunctionRanges values known total = .ok out) ↔
      Converts values total known := by
  rw [← checkedRanges_isOk]
  unfold validatedKnownFunctionRanges
  split
  · next hnil =>
    subst hnil
    exact iff_of_true ⟨none, rfl⟩ ⟨some [], rfl⟩
  · simp [Outcome.map_isOk]

end Known

/-! ## What is found is in order -/

/-- The lines at which the function that is looked at may start. -/
def ScanState.starts : ScanState → List Int
  | .seeking prefixLines => prefixLines.map Prod.fst
  | .inSignature sig _ _ => [sig.startLine]
  | .waitingForBody sig => [sig.startLine]
  | .inBody sig _ => [sig.startLine]

/-- **What a line can do**: it finds no function, and the next one may start where it might have
before or at the line; or it ends a function that starts at such a place, and the search begins
again. -/
def Moves (functions : List CodeDetail.FunctionRange) (starts : List Int) (lineNo : Int)
    (after : List CodeDetail.FunctionRange × ScanState) : Prop :=
  (after.1 = functions ∧ ∀ n ∈ after.2.starts, n ∈ starts ∨ n = lineNo) ∨
    ∃ n name, (n ∈ starts ∨ n = lineNo) ∧
      after.1 = functions ++ [.make n lineNo (some name)] ∧ after.2.starts = []

section Moves

variable {u : WordTable} {functions : List CodeDetail.FunctionRange} {starts : List Int}
  {lineNo : Int} {sig : Signature}

theorem moves_forget : Moves functions starts lineNo (functions, .seeking []) :=
  .inl ⟨rfl, fun _ hn => (nomatch hn)⟩

/-- A state whose function starts at a place where it may. -/
theorem moves_keep {state : ScanState} (h : ∀ n ∈ state.starts, n ∈ starts ∨ n = lineNo) :
    Moves functions starts lineNo (functions, state) :=
  .inl ⟨rfl, h⟩

theorem openBody_moves (h : sig.startLine ∈ starts ∨ sig.startLine = lineNo)
    (cleanText : List Char) :
    Moves functions starts lineNo (openBody functions sig lineNo cleanText) := by
  unfold openBody
  dsimp only
  split
  · exact .inr ⟨sig.startLine, sig.name, h, rfl, rfl⟩
  · exact moves_keep (List.forall_mem_singleton.2 h)

theorem afterSignature_moves (h : sig.startLine ∈ starts ∨ sig.startLine = lineNo)
    (cleanText afterParen : List Char) :
    Moves functions starts lineNo
      (afterSignature functions sig lineNo cleanText afterParen) := by
  unfold afterSignature
  split
  · exact moves_forget
  · split
    · exact openBody_moves h cleanText
    · exact moves_keep (List.forall_mem_singleton.2 h)

theorem seekLine_moves (prefixLines : List (Int × List Char)) (cleanText : List Char) :
    Moves functions (prefixLines.map Prod.fst) lineNo
      (seekLine u functions prefixLines lineNo cleanText) := by
  have hhere : Moves functions (prefixLines.map Prod.fst) lineNo
      (functions, .seeking [(lineNo, cleanText)]) :=
    moves_keep (List.forall_mem_singleton.2 (.inr rfl))
  -- a signature starts at the first of the lines before it, or at the line
  have hstart : (prefixLines.head?.map Prod.fst).getD lineNo ∈ prefixLines.map Prod.fst ∨
      (prefixLines.head?.map Prod.fst).getD lineNo = lineNo := by
    cases prefixLines with
    | nil => exact .inr rfl
    | cons before rest => exact .inl List.mem_cons_self
  unfold seekLine
  split
  · exact moves_keep fun n hn => .inl hn
  split
  · exact moves_forget
  split
  · extract_lets head
    split
    · exact moves_forget
    · split
      · exact moves_forget
      · split
        · exact moves_keep (List.forall_mem_singleton.2 hstart)
        · refine afterSignature_moves ?_ _ _
          exact hstart
  split
  · exact moves_forget
  · split
    · exact hhere
    · split
      · refine moves_keep fun n hn => ?_
        obtain ⟨before, hbefore, rfl⟩ := List.mem_map.1 hn
        rcases List.mem_append.1 hbefore with hbefore | hbefore
        · exact .inl (List.mem_map_of_mem hbefore)
        · rw [List.mem_singleton.1 hbefore]
          exact .inr rfl
      · exact hhere

/-- **Every state does no more than that.** -/
theorem scanText_moves (state : ScanState) (cleanText : List Char) :
    Moves functions state.starts lineNo (scanText u functions state lineNo cleanText) := by
  cases state with
  | seeking prefixLines => exact seekLine_moves prefixLines cleanText
  | inSignature sig sigTextBuffer parenDepth =>
    have hsig : sig.startLine ∈ [sig.startLine] ∨ sig.startLine = lineNo :=
      .inl List.mem_cons_self
    unfold scanText
    dsimp only
    split
    · exact moves_keep fun n hn => .inl hn
    · split
      · refine afterSignature_moves ?_ _ _
        exact hsig
      · exact moves_keep fun n hn => .inl hn
  | waitingForBody sig =>
    have hsig : sig.startLine ∈ [sig.startLine] ∨ sig.startLine = lineNo :=
      .inl List.mem_cons_self
    unfold scanText
    dsimp only
    split
    · exact moves_keep fun n hn => .inl hn
    · split
      · exact moves_forget
      · split
        · exact openBody_moves hsig cleanText
        · split
          · exact moves_forget
          · exact moves_keep fun n hn => .inl hn
  | inBody sig braceDepth =>
    unfold scanText
    dsimp only
    split
    · exact .inr ⟨sig.startLine, sig.name, .inl List.mem_cons_self, rfl, rfl⟩
    · exact moves_keep fun n hn => .inl hn

end Moves

/-- **What has been found of the lines so far.** -/
structure Scanned (done : List Int) (functions : List CodeDetail.FunctionRange)
    (state : ScanState) : Prop where
  /-- The functions are in order. -/
  inOrder : InOrder functions
  /-- They start and end at lines that were read. -/
  lines : ∀ f ∈ functions, f.startLine ∈ done ∧ f.endLine ∈ done
  /-- The next one starts at a line that was read, behind all of them. -/
  starts : ∀ n ∈ state.starts, n ∈ done ∧ ∀ f ∈ functions, f.endLine < n

namespace Scanned

variable {done : List Int} {functions : List CodeDetail.FunctionRange} {state : ScanState}
  {lineNo : Int}

/-- A function that ends at the line comes behind the others. -/
theorem close (h : Scanned done functions state) (hlater : ∀ n ∈ done, n < lineNo) {n : Int}
    (hn : n ∈ state.starts ∨ n = lineNo) (name : Option (List Char)) :
    Scanned (done ++ [lineNo]) (functions ++ [.make n lineNo name]) (.seeking []) := by
  have hbehind : n ∈ done ++ [lineNo] ∧ n ≤ lineNo ∧ ∀ f ∈ functions, f.endLine < n := by
    rcases hn with hn | rfl
    · obtain ⟨hdone, hapart⟩ := h.starts n hn
      exact ⟨List.mem_append_left _ hdone, (hlater n hdone).le, hapart⟩
    · exact ⟨by simp, Int.le_refl _, fun f hf => hlater _ (h.lines f hf).2⟩
  obtain ⟨hmem, hle, hapart⟩ := hbehind
  refine ⟨h.inOrder.concat hle hapart, fun f hf => ?_, fun n hn => (nomatch hn)⟩
  rcases List.mem_append.1 hf with hf | hf
  · exact ⟨List.mem_append_left _ (h.lines f hf).1, List.mem_append_left _ (h.lines f hf).2⟩
  · rw [List.mem_singleton.1 hf]
    exact ⟨hmem, by simp [CodeDetail.FunctionRange.make]⟩

/-- **One line more.** -/
theorem step (h : Scanned done functions state) (hlater : ∀ n ∈ done, n < lineNo)
    {after : List CodeDetail.FunctionRange × ScanState}
    (hafter : Moves functions state.starts lineNo after) :
    Scanned (done ++ [lineNo]) after.1 after.2 := by
  obtain ⟨functions', state'⟩ := after
  rcases hafter with ⟨rfl, hstarts⟩ | ⟨n, name, hn, rfl, hnone⟩
  · refine ⟨h.inOrder, fun f hf => ⟨List.mem_append_left _ (h.lines f hf).1,
      List.mem_append_left _ (h.lines f hf).2⟩, fun n hn => ?_⟩
    rcases hstarts n hn with hn | rfl
    · exact ⟨List.mem_append_left _ (h.starts n hn).1, (h.starts n hn).2⟩
    · exact ⟨by simp, fun f hf => hlater _ (h.lines f hf).2⟩
  · have hclose := h.close hlater hn (some name)
    exact ⟨hclose.inOrder, hclose.lines, fun n hn => by
      rw [hnone] at hn
      cases hn⟩

end Scanned

section Extract

variable {u : WordTable} {items : List RawLine}

/-- **All lines.** -/
theorem scanned_foldl {done : List Int} {s : Scan} (h : Scanned done s.functions s.state)
    (hasc : Ascending items) (hlater : ∀ n ∈ done, ∀ k ∈ items, n < k.lineNo) :
    Scanned (done ++ items.map RawLine.lineNo) (items.foldl (scanLine u) s).functions
      (items.foldl (scanLine u) s).state := by
  induction items generalizing done s with
  | nil =>
    rw [List.map_nil, List.append_nil]
    exact h
  | cons item items ih =>
    obtain ⟨hfirst, hrest⟩ := List.pairwise_cons.1 hasc
    have hstep : Scanned (done ++ [item.lineNo]) (scanLine u s item).functions
        (scanLine u s item).state :=
      h.step (fun n hn => hlater n hn item List.mem_cons_self) (scanText_moves s.state _)
    have hnext : ∀ n ∈ done ++ [item.lineNo], ∀ k ∈ items, n < k.lineNo := by
      intro n hn k hk
      rcases List.mem_append.1 hn with hn | hn
      · exact hlater n hn k (List.mem_cons_of_mem _ hk)
      · rw [List.mem_singleton.1 hn]
        exact hfirst k hk
    have := ih hstep hrest hnext
    rwa [List.append_assoc] at this

/-- **The functions that the scan finds are in order, and of the given lines.** -/
theorem extractCFunctionRanges_spec (hasc : Ascending items) :
    InOrder (extractCFunctionRanges u items) ∧
      ∀ f ∈ extractCFunctionRanges u items,
        f.startLine ∈ items.map RawLine.lineNo ∧ f.endLine ∈ items.map RawLine.lineNo := by
  have hempty : Scanned [] [] (.seeking []) :=
    ⟨⟨fun _ hf => (nomatch hf), .nil⟩, fun _ hf => (nomatch hf), fun _ hn => (nomatch hn)⟩
  have hscan := scanned_foldl (u := u) (s := ⟨[], false, .seeking []⟩) hempty hasc
    (fun _ hn => (nomatch hn))
  rw [List.nil_append] at hscan
  unfold extractCFunctionRanges
  dsimp only
  generalize items.foldl (scanLine u) ⟨[], false, .seeking []⟩ = s at hscan
  obtain ⟨functions, inBlockComment, state⟩ := s
  split
  · next sig depth last hstate hlast =>
    -- the last function ends with the lines
    obtain rfl : state = .inBody sig depth := hstate
    obtain ⟨front, rfl⟩ := List.getLast?_eq_some_iff.1 hlast
    obtain ⟨hmem, hapart⟩ := hscan.starts sig.startLine List.mem_cons_self
    have hlastMem : last.lineNo ∈ (front ++ [last]).map RawLine.lineNo :=
      List.mem_map_of_mem (by simp)
    have hle : sig.startLine ≤ last.lineNo := by
      obtain ⟨k, hk, heq⟩ := List.mem_map.1 hmem
      rw [← heq]
      rcases List.mem_append.1 hk with hk | hk
      · exact ((List.pairwise_append.1 hasc).2.2 k hk last List.mem_cons_self).le
      · rw [List.mem_singleton.1 hk]
    refine ⟨hscan.inOrder.concat hle hapart, fun f hf => ?_⟩
    rcases List.mem_append.1 hf with hf | hf
    · exact hscan.lines f hf
    · rw [List.mem_singleton.1 hf]
      exact ⟨hmem, hlastMem⟩
  · exact ⟨hscan.inOrder, hscan.lines⟩

end Extract

/-! ## What a line is in -/

/-- The names of the records are those that the sweep sets. -/
theorem functionNames_eq (fns : List CodeDetail.FunctionRange) (items : List RawLine) :
    functionNames fns items =
      (functionSweep fns items).map fun set => (set.bind id).getD [] := by
  induction items generalizing fns with
  | nil => rfl
  | cons item items ih =>
    rw [functionNames, functionSweep, List.map_cons, ih]
    congr 1
    cases advance item.lineNo fns with
    | nil => rfl
    | cons fn rest => cases hin : fn.contains item.lineNo <;> simp [hin]

/-- **The pointer finds the function of each line.** -/
theorem functionSweep_eq {fns : List CodeDetail.FunctionRange} {items : List RawLine}
    (h : InOrder fns) (hasc : Ascending items) :
    functionSweep fns items = items.map fun item =>
      (fns.find? fun fn => fn.contains item.lineNo).map CodeDetail.FunctionRange.name := by
  induction items generalizing fns with
  | nil => rfl
  | cons item items ih =>
    obtain ⟨hlater, hrest⟩ := List.pairwise_cons.1 hasc
    obtain ⟨passed, heq, hpassed, htail⟩ := exists_advance item.lineNo h
    -- what the pointer has passed has neither this line nor a later one
    have hnone : ∀ {line : Int}, item.lineNo ≤ line →
        fns.find? (fun fn => fn.contains line) =
          (advance item.lineNo fns).find? fun fn => fn.contains line := by
      intro line hle
      have hpassed : passed.find? (fun fn => fn.contains line) = none := by
        rw [List.find?_eq_none]
        intro f hf
        have := hpassed f hf
        rw [CodeDetail.FunctionRange.contains_iff]
        omega
      conv_lhs => rw [heq]
      rw [List.find?_append, hpassed, Option.none_or]
    have hadvanced : InOrder (advance item.lineNo fns) := by
      rw [heq] at h
      exact ⟨fun f hf => h.nonempty f (List.mem_append_right _ hf),
        (List.pairwise_append.1 h.apart).2.1⟩
    rw [functionSweep, List.map_cons]
    congr 1
    · rw [hnone (Int.le_refl _)]
      generalize advance item.lineNo fns = rest at htail
      cases rest with
      | nil => rfl
      | cons f rest =>
        rw [List.find?_cons]
        cases hf : f.contains item.lineNo with
        | true => simp only [hf, if_true, Option.map_some]
        | false =>
          have hbehind : rest.find? (fun fn => fn.contains item.lineNo) = none := by
            rw [List.find?_eq_none]
            intro g hg
            have := htail g hg
            rw [CodeDetail.FunctionRange.contains_iff]
            omega
          simp only [hf, hbehind, Option.map_none]
          rfl
    · rw [ih hadvanced hrest]
      refine List.map_congr_left fun k hk => ?_
      rw [hnone (hlater k hk).le]

section Attributed

variable {V : Type} {u : WordTable} {values : PyValues V} {items : List RawLine}
  {fns : List CodeDetail.FunctionRange}

theorem functionRangesOf_inOrder {known : Option (List (KnownRange V))} (hasc : Ascending items)
    (h : functionRangesOf u values known items = .ok fns) : InOrder fns := by
  obtain ⟨out, hout, h⟩ := Outcome.bind_eq_ok.1 h
  obtain rfl := Outcome.pure_eq_ok.1 h
  cases out with
  | none => exact (extractCFunctionRanges_spec hasc).1
  | some out =>
    cases known with
    | none => cases hout
    | some known =>
      obtain ⟨-, -, horder, -⟩ := validatedKnownFunctionRanges_spec hout
      exact horder

/-- **A line gets the name of the function that contains it**, and nothing if none does. -/
def Named (fns : List CodeDetail.FunctionRange) (items : List RawLine)
    (names : List (Option (Option (List Char)))) : Prop :=
  names.length = items.length ∧ ∀ p ∈ items.zip names,
    (∀ fn ∈ fns, fn.contains p.1.lineNo = true → p.2 = some fn.name) ∧
      ((∀ fn ∈ fns, fn.contains p.1.lineNo = false) → p.2 = none)

theorem functionSweep_named (h : InOrder fns) (hasc : Ascending items) :
    Named fns items (functionSweep (fns.insertionSort CodeDetail.FunctionRange.le) items) := by
  have hsort : fns.insertionSort CodeDetail.FunctionRange.le = fns := by
    refine List.Pairwise.insertionSort_eq (h.apart.imp_of_mem fun {f g} hf _ hlt => ?_)
    have := h.nonempty f hf
    exact .inl (by omega)
  rw [hsort, functionSweep_eq h hasc]
  refine ⟨List.length_map _, fun p hp => ?_⟩
  rw [List.zip_map_right, List.mem_map] at hp
  obtain ⟨⟨item, item'⟩, hmem, rfl⟩ := hp
  obtain rfl : item = item' := by
    rw [List.mem_iff_getElem] at hmem
    obtain ⟨i, hi, heq⟩ := hmem
    rw [List.getElem_zip] at heq
    exact (Prod.mk.inj heq).1.symm.trans (Prod.mk.inj heq).2
  refine ⟨fun fn hfn hcontains => ?_, fun hnone => ?_⟩
  · change (fns.find? fun fn => fn.contains item.lineNo).map CodeDetail.FunctionRange.name = _
    cases hfind : fns.find? fun fn => fn.contains item.lineNo with
    | none => exact absurd hcontains (by simpa using List.find?_eq_none.1 hfind fn hfn)
    | some fn' =>
      rw [h.eq_of_contains (List.mem_of_find?_eq_some hfind) hfn
        (by simpa using List.find?_some hfind) hcontains]
      rfl
  · change (fns.find? fun fn => fn.contains item.lineNo).map CodeDetail.FunctionRange.name = _
    have hfind : fns.find? (fun fn => fn.contains item.lineNo) = none :=
      List.find?_eq_none.2 fun fn hfn => Bool.not_eq_true _ ▸ hnone fn hfn
    rw [hfind]
    rfl

/-- **A line is in one function at most, and gets its name.** -/
structure Attributed (u : WordTable) (values : PyValues V) (known : List (KnownRange V))
    (items : List RawLine) : Prop where
  /-- The known ranges are refused, or in order with each of them inside exactly one. -/
  validated : ∃ out, validatedKnownFunctionRanges values known (lastLineNo items) = .ok out ∧
    ∀ fns, out = some fns → Validated values known (lastLineNo items) fns
  /-- The scan finds functions in order, of the given lines. -/
  scan : InOrder (extractCFunctionRanges u items) ∧ ∀ f ∈ extractCFunctionRanges u items,
    f.startLine ∈ items.map RawLine.lineNo ∧ f.endLine ∈ items.map RawLine.lineNo
  /-- The sweep over either gives each line the name of its function. -/
  sweep : ∃ fns, functionRangesOf u values (some known) items = .ok fns ∧
    Named fns items (functionSweep (fns.insertionSort CodeDetail.FunctionRange.le) items)

/-- **The attribution is unique, exactly where no known range overflows.** -/
theorem function_attribution_unique_iff (u : WordTable) (values : PyValues V)
    (known : List (KnownRange V)) (hasc : Ascending items) :
    Attributed u values known items ↔ Converts values (lastLineNo items) known := by
  rw [← validatedKnownFunctionRanges_isOk_iff]
  constructor
  · intro h
    obtain ⟨out, hout, -⟩ := h.validated
    exact ⟨out, hout⟩
  · rintro ⟨out, hout⟩
    refine ⟨⟨out, hout, fun fns hfns => ?_⟩, extractCFunctionRanges_spec hasc, ?_⟩
    · exact validatedKnownFunctionRanges_spec (hfns ▸ hout)
    · have hfns : functionRangesOf u values (some known) items =
          .ok (out.getD (extractCFunctionRanges u items)) := by
        simp [functionRangesOf, hout, pure, Except.pure]
      exact ⟨_, hfns, functionSweep_named (functionRangesOf_inOrder hasc hfns) hasc⟩

/-- A function of four lines. -/
def sampleFunction : List RawLine :=
  [⟨1, "int f(int a) \x7b".toList, [], .ignored, false, []⟩,
    ⟨2, "return a;".toList, [], .uncovered, false, []⟩, ⟨3, ['\x7d'], [], .ignored, false, []⟩,
    ⟨4, "int x;".toList, [], .ignored, false, []⟩]

/-- Numbers that may be infinite. -/
def sampleNumbers : PyValues (Option Int) where
  toInt := fun
    | some n => .ok n
    | none => .error .overflowError
  toStr := fun _ => none

/-- A function that is known twice, once as a range inside the other. -/
theorem function_attribution_unique_iff_sample :
    Attributed .asciiOnly sampleNumbers
      [.dict (some (some 1)) (some (some 3)) none, .sequence [some 2, some 2]] sampleFunction :=
  (function_attribution_unique_iff _ _ _ (by unfold Ascending; decide +kernel)).2
    (validatedKnownFunctionRanges_isOk_iff.1
      ⟨some [.make 1 3 none], by decide +kernel⟩)

/-- **A known range from infinity on is not refused.** -/
theorem infinite_range_raises :
    ¬ Attributed .asciiOnly sampleNumbers [.sequence [none, some 5]] sampleFunction := by
  intro h
  obtain ⟨out, hout, -⟩ := h.validated
  cases hout

end Attributed

example : extractCFunctionRanges .asciiOnly
    [⟨1, "int f(int a)".toList, [], .ignored, false, []⟩, ⟨2, ['\x7b'], [], .ignored, false, []⟩,
      ⟨3, "\x7d int g;".toList, [], .ignored, false, []⟩] = [⟨1, 3, some ['f']⟩] := by decide +kernel

end FosCoverage.SourceReader
