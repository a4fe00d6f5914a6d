import FosCoverage.Lib.LastWrite
import FosCoverage.Lib.Outcome
import FosCoverage.Lib.Table
import FosCoverage.Lib.Text

/-!
# Reading LCOV

`app/incremental/lcov.py` on a decoded text.

* `parseFunctionRecords` reads the function records of one section, in the older format (`FN`) or,
  when there is one record of it, in the newer one (`FNL`, `FNA`).
* `readLine` is one turn of the loop of `iter_info_records`.  A section ends at `end_of_record` or
  at the next `SF`; the one that is open at the end of the text is never yielded and remains in
  `Reader.current`.
* `iterInfoRecords` are the records in the order of the text, `parseInfo` is the dictionary of them
  by path, in which a later section of a path replaces an earlier one.

The digits beyond ASCII are a parameter: `str.isdigit` accepts more characters than `int` reads.
-/

set_option autoImplicit false

namespace FosCoverage

open Relational

namespace Lcov

/-! ## Numbers -/

/-- The characters of `str.isdigit` and the values `int` gives them. -/
structure DigitTable where
  /-- `str.isdigit` -/
  isDigit : Char → Bool
  /-- The value of a decimal digit; a superscript is a digit without one. -/
  value : Char → Option Nat
  /-- The ASCII part. -/
  ascii : ∀ c, c.toNat < 128 → isDigit c = c.isDigit ∧
    value c = if c.isDigit then some (c.toNat - '0'.toNat) else none

/-- The smallest table. -/
def DigitTable.asciiOnly : DigitTable where
  isDigit := Char.isDigit
  value := fun c => if c.isDigit then some (c.toNat - '0'.toNat) else none
  ascii := fun _ _ => ⟨rfl, rfl⟩

/-- What the readers raise. -/
inductive LcovError
  /-- `int` of a text it does not read. -/
  | invalidLiteral (text : String)
  /-- No repository, or more than one, has the path. -/
  | notUnique (path : String)
  /-- The path is absolute or has a colon. -/
  | notNamespaced (path : String)
  deriving DecidableEq, Repr

/-- The text of the exception. -/
def LcovError.message : LcovError → String
  | invalidLiteral text => "invalid literal for int() with base 10: '" ++ text ++ "'"
  | notUnique path => "LCOV path cannot be assigned uniquely to a repository: " ++ path
  | notNamespaced path => "LCOV path is not safely namespaced by one repository: " ++ path

variable (digits : DigitTable)

/-- `str.isdigit` -/
def isdigit (s : List Char) : Bool := s ≠ [] ∧ s.all digits.isDigit

/-- `int` of a text that is all digits. -/
def int (s : List Char) : Except LcovError Nat :=
  s.foldlM (fun n c =>
    match digits.value c with
    | some d => .ok (10 * n + d)
    | none => .error (.invalidLiteral (String.ofList s))) 0

/-- `split(separator, count)` -/
def splitMax (separator : Char) : Nat → List Char → List (List Char)
  | 0, s => [s]
  | count + 1, s =>
    match Text.cut [separator] s with
    | none => [s]
    | some (before, behind) => before :: splitMax separator count behind

/-! ## Functions of a section -/

/-- A function record. -/
structure FunctionRecord where
  /-- `start_line` -/
  startLine : Nat
  /-- `end_line`, when the record has one. -/
  endLine : Option Nat
  /-- `name` -/
  name : String
  deriving DecidableEq, Repr

/-- `_legacy_fn` -/
def legacyFn (location : List (List Char)) (name : List Char) :
    Except LcovError (Option FunctionRecord) :=
  match location with
  | [start] =>
    if isdigit digits start then do
      pure (some ⟨← int digits start, none, String.ofList name⟩)
    else pure none
  | [start, stop] =>
    if isdigit digits start && isdigit digits stop then do
      pure (some ⟨← int digits start, some (← int digits stop), String.ofList name⟩)
    else pure none
  | _ => pure none

/-- What `parse_function_records` keeps between two lines. -/
structure FunctionState where
  /-- `legacy` -/
  legacy : List FunctionRecord
  /-- `modern_ranges` -/
  modernRanges : Keyed Nat FunctionRecord
  /-- `modern_names` with `modern_counts` -/
  modernNames : Keyed Nat (Nat × String)
  /-- `modern_seen` -/
  modernSeen : Bool
  /-- `modern_invalid` -/
  modernInvalid : Bool

/-- A record of the newer format that cannot be read. -/
def FunctionState.invalid (s : FunctionState) : FunctionState :=
  { s with modernSeen := true, modernInvalid := true }

/-- `FN:` -/
def readFn (s : FunctionState) (payload : List Char) : Except LcovError FunctionState := do
  let item ←
    match splitMax ',' 2 payload with
    | [start, name] => legacyFn digits [start] name
    | [start, stop, name] => legacyFn digits [start, stop] name
    | _ => pure none
  pure { s with legacy := s.legacy ++ item.toList }

/-- A range of the newer format with its index. -/
def putRange (s : FunctionState) (index start : Nat) (stop : Option Nat) : FunctionState :=
  let candidate : FunctionRecord := ⟨start, stop, ""⟩
  let ill := start < 1 ∨ (∃ n ∈ stop, n < start) ∨ ∃ known ∈ s.modernRanges.get? index,
    known ≠ candidate
  { s with
    modernSeen := true
    modernInvalid := s.modernInvalid || decide ill
    modernRanges := s.modernRanges.put index candidate }

/-- `FNL:` -/
def readFnl (s : FunctionState) (payload : List Char) : Except LcovError FunctionState :=
  match payload.splitOn ',' with
  | [index, start] =>
    if isdigit digits index && isdigit digits start then do
      pure (putRange s (← int digits index) (← int digits start) none)
    else pure s.invalid
  | [index, start, stop] =>
    if isdigit digits index && isdigit digits start && isdigit digits stop then do
      pure (putRange s (← int digits index) (← int digits start) (some (← int digits stop)))
    else pure s.invalid
  | _ => pure s.invalid

/-- `FNA:` -/
def readFna (s : FunctionState) (payload : List Char) : Except LcovError FunctionState :=
  match splitMax ',' 2 payload with
  | [index, count, name] =>
    if isdigit digits index && isdigit digits count then do
      let index ← int digits index
      let candidate := (← int digits count, String.ofList name)
      let ill := ∃ known ∈ s.modernNames.get? index, known ≠ candidate
      pure { s with
        modernSeen := true
        modernInvalid := s.modernInvalid || decide ill
        modernNames := s.modernNames.put index candidate }
    else pure s.invalid
  | _ => pure s.invalid

/-- One turn of the loop of `parse_function_records`. -/
def readFunctionLine (s : FunctionState) (raw : List Char) : Except LcovError FunctionState :=
  if "FN:".toList.isPrefixOf raw then readFn digits s (raw.drop 3)
  else if "FNL:".toList.isPrefixOf raw then readFnl digits s (raw.drop 4)
  else if "FNA:".toList.isPrefixOf raw then readFna digits s (raw.drop 4)
  else pure s

/-- `parse_function_records`: the functions, and whether the newer format is there but unusable. -/
def parseFunctionRecords (lines : List (List Char)) :
    Except LcovError (List FunctionRecord × Bool) := do
  let s ← lines.foldlM (readFunctionLine digits) ⟨[], Keyed.empty, Keyed.empty, false, false⟩
  if s.modernSeen then
    let ranges := (s.modernRanges.rows.insertionSort fun a b => a.1 ≤ b.1).map fun r =>
      { r.2 with name := ((s.modernNames.get? r.1).map Prod.snd).getD "" }
    let incomplete := s.modernRanges.rows.any fun r =>
      (s.modernNames.get? r.1).isNone || r.2.endLine.all fun stop => stop < r.2.startLine
    let unplaced := s.modernNames.rows.any fun r => (s.modernRanges.get? r.1).isNone
    pure (ranges, s.modernInvalid || incomplete || unplaced || ranges.isEmpty)
  else pure (s.legacy, false)

/-! ## Sections -/

/-- A record of `iter_info_records`. -/
structure InfoRecord where
  /-- `file_path` -/
  filePath : String
  /-- `lines`: the execution count of a line. -/
  lines : Keyed Nat Nat
  /-- `function_ranges` -/
  functionRanges : List FunctionRecord
  /-- `function_range_fallback` -/
  functionRangeFallback : Bool

/-- `current` with `function_lines`: a section that is not closed yet. -/
structure Section where
  /-- `file_path` -/
  filePath : String
  /-- `lines` -/
  lines : Keyed Nat Nat
  /-- `function_lines` -/
  functionLines : List (List Char)

/-- The record of a section that is closed. -/
def Section.close (s : Section) : Except LcovError InfoRecord := do
  let (ranges, fallback) ← parseFunctionRecords digits s.functionLines
  pure ⟨s.filePath, s.lines, ranges, fallback || ranges.any fun r => r.endLine.isNone⟩

/-- The generator between two lines. -/
structure Reader where
  /-- The records yielded so far. -/
  records : List InfoRecord
  /-- `current` -/
  current : Option Section

/-- Yields the open section, if there is one. -/
def Reader.flush (r : Reader) : Except LcovError Reader :=
  match r.current with
  | none => pure ⟨r.records, none⟩
  | some s => do pure ⟨r.records ++ [← s.close digits], none⟩

/-- `DA:` -/
def readDa (s : Section) (payload : List Char) : Except LcovError Section :=
  match payload.splitOn ',' with
  | line :: count :: _ =>
    if isdigit digits line && isdigit digits count then do
      pure { s with lines := s.lines.put (← int digits line) (← int digits count) }
    else pure s
  | _ => pure s

/-- One turn of the loop of `iter_info_records`. -/
def readLine (r : Reader) (line : List Char) : Except LcovError Reader :=
  if line = "end_of_record".toList then r.flush digits
  else if "SF:".toList.isPrefixOf line then do
    let r ← r.flush digits
    pure ⟨r.records, some ⟨String.ofList (line.drop 3), Keyed.empty, []⟩⟩
  else
    match r.current with
    | none => pure r
    | some s =>
      if "DA:".toList.isPrefixOf line then do
        pure ⟨r.records, some (← readDa digits s (line.drop 3))⟩
      else if "FN:".toList.isPrefixOf line || "FNL:".toList.isPrefixOf line ||
          "FNA:".toList.isPrefixOf line then
        pure ⟨r.records, some { s with functionLines := s.functionLines ++ [line] }⟩
      else pure r

/-- The whole text.  Reading translates every line end, so no line keeps one. -/
def readInfo (text : List Char) : Except LcovError Reader :=
  (Text.splitLines (Text.newlines text)).foldlM (readLine digits) ⟨[], none⟩

/-- `iter_info_records` -/
def iterInfoRecords (text : List Char) : Except LcovError (List InfoRecord) :=
  (readInfo digits text).map Reader.records

/-! ## What the sections of a text are -/

/-- The line ends a section. -/
def closes (line : List Char) : Bool :=
  line = "end_of_record".toList || "SF:".toList.isPrefixOf line

/-- A section of the path is open behind these lines. -/
def OpenAt (lines : List (List Char)) (path : String) : Prop :=
  ∃ before sf between, lines = before ++ sf :: between ∧ "SF:".toList.isPrefixOf sf = true ∧
    String.ofList (sf.drop 3) = path ∧ ∀ l ∈ between, closes l = false

/-- The line is a `DA` record with two numeric fields, of line `n`. -/
def IsDa (line : List Char) (n : Nat) : Prop :=
  "DA:".toList.isPrefixOf line = true ∧ ∃ number count rest,
    (line.drop 3).splitOn ',' = number :: count :: rest ∧ isdigit digits number = true ∧
      isdigit digits count = true ∧ int digits number = .ok n

/-- **Some section of the path has a `DA` record of the line.** -/
def Declared (lines : List (List Char)) (path : String) (n : Nat) : Prop :=
  ∃ before da behind, lines = before ++ da :: behind ∧ OpenAt before path ∧ IsDa digits da n

theorem openAt_concat {lines : List (List Char)} {l : List Char} {path : String} :
    OpenAt (lines ++ [l]) path ↔
      ("SF:".toList.isPrefixOf l = true ∧ String.ofList (l.drop 3) = path) ∨
        (closes l = false ∧ OpenAt lines path) := by
  constructor
  · rintro ⟨before, sf, between, he, hsf, hpath, hbetween⟩
    rcases between.eq_nil_or_concat with rfl | ⟨between, b, rfl⟩
    · obtain ⟨rfl, hlast⟩ := List.append_inj' he rfl
      obtain rfl := List.head_eq_of_cons_eq hlast
      exact .inl ⟨hsf, hpath⟩
    · have hsplit : lines ++ [l] = (before ++ sf :: between) ++ [b] := by simpa using he
      obtain ⟨rfl, hlast⟩ := List.append_inj' hsplit rfl
      obtain rfl := List.head_eq_of_cons_eq hlast
      refine .inr ⟨hbetween l (by simp), before, sf, between, rfl, hsf, hpath, fun x hx => ?_⟩
      exact hbetween x (by simp [hx])
  · rintro (⟨hsf, hpath⟩ | ⟨hopen, before, sf, between, rfl, hsf, hpath, hbetween⟩)
    · exact ⟨lines, l, [], rfl, hsf, hpath, fun x hx => absurd hx List.not_mem_nil⟩
    · refine ⟨before, sf, between ++ [l], by simp, hsf, hpath, fun x hx => ?_⟩
      rcases List.mem_append.1 hx with hx | hx
      · exact hbetween x hx
      · rw [List.mem_singleton.1 hx]
        exact hopen

theorem declared_concat {lines : List (List Char)} {l : List Char} {path : String} {n : Nat} :
    Declared digits (lines ++ [l]) path n ↔
      Declared digits lines path n ∨ (OpenAt lines path ∧ IsDa digits l n) := by
  constructor
  · rintro ⟨before, da, behind, he, hopen, hda⟩
    rcases behind.eq_nil_or_concat with rfl | ⟨behind, b, rfl⟩
    · obtain ⟨rfl, hlast⟩ := List.append_inj' he rfl
      obtain rfl := List.head_eq_of_cons_eq hlast
      exact .inr ⟨hopen, hda⟩
    · have hsplit : lines ++ [l] = (before ++ da :: behind) ++ [b] := by simpa using he
      obtain ⟨rfl, -⟩ := List.append_inj' hsplit rfl
      exact .inl ⟨before, da, behind, rfl, hopen, hda⟩
  · rintro (⟨before, da, behind, rfl, hopen, hda⟩ | ⟨hopen, hda⟩)
    · exact ⟨before, da, behind ++ [l], by simp, hopen, hda⟩
    · exact ⟨lines, l, [], rfl, hopen, hda⟩

/-! ## The reader sees the sections -/

/-- The open section is one of the path. -/
def Reader.IsOpen (r : Reader) (path : String) : Prop := ∃ s, r.current = some s ∧ s.filePath = path

/-- A record of the path counts the line. -/
def Reader.Yields (r : Reader) (path : String) (n : Nat) : Prop :=
  ∃ record ∈ r.records, record.filePath = path ∧ (record.lines.get? n).isSome = true

/-- The open section is one of the path and counts the line. -/
def Reader.Holds (r : Reader) (path : String) (n : Nat) : Prop :=
  ∃ s, r.current = some s ∧ s.filePath = path ∧ (s.lines.get? n).isSome = true

variable {digits}

theorem flush_ok {r r' : Reader} (h : r.flush digits = .ok r') :
    r'.current = none ∧ ∀ path n, r'.Yields path n ↔ r.Yields path n ∨ r.Holds path n := by
  obtain ⟨records, current⟩ := r
  cases current with
  | none =>
    obtain rfl := Outcome.pure_eq_ok.1 h
    exact ⟨rfl, fun path n => by simp [Reader.Yields, Reader.Holds]⟩
  | some s =>
    simp only [Reader.flush, Outcome.bind_eq_ok, Outcome.pure_eq_ok] at h
    obtain ⟨record, hrecord, rfl⟩ := h
    simp only [Section.close, Outcome.bind_eq_ok, Outcome.pure_eq_ok, Prod.exists] at hrecord
    obtain ⟨_, _, _, rfl⟩ := hrecord
    refine ⟨rfl, fun path n => ?_⟩
    simp only [Reader.Yields, Reader.Holds, List.mem_append, List.mem_singleton, or_and_right,
      exists_or, exists_eq_left, Option.some.injEq, exists_eq_left']

/-- `DA:` counts the line it names, and no other. -/
theorem readDa_ok {s s' : Section} {line : List Char}
    (hstart : "DA:".toList.isPrefixOf line = true)
    (h : readDa digits s (line.drop 3) = .ok s') : s'.filePath = s.filePath ∧
      ∀ n, (s'.lines.get? n).isSome = true ↔
        (s.lines.get? n).isSome = true ∨ IsDa digits line n := by
  unfold readDa at h
  split at h
  · rename_i number count rest hsplit
    split at h
    · rename_i hdigits
      simp only [Bool.and_eq_true] at hdigits
      simp only [Outcome.bind_eq_ok, Outcome.pure_eq_ok] at h
      obtain ⟨k, hk, c, hc, rfl⟩ := h
      refine ⟨rfl, fun n => ?_⟩
      have hda : IsDa digits line n ↔ n = k := by
        constructor
        · rintro ⟨_, number', count', rest', hsplit', _, _, hn⟩
          rw [hsplit] at hsplit'
          obtain ⟨rfl, _⟩ := List.cons.inj hsplit'
          exact Except.ok.inj (hn.symm.trans hk)
        · rintro rfl
          exact ⟨hstart, number, count, rest, hsplit, hdigits.1, hdigits.2, hk⟩
      rw [hda, Keyed.get?_put]
      by_cases hn : n = k <;> simp [hn]
    · rename_i hdigits
      obtain rfl := Outcome.pure_eq_ok.1 h
      refine ⟨rfl, fun n => ⟨.inl, fun h => h.resolve_right ?_⟩⟩
      rintro ⟨_, number', count', rest', hsplit', hnumber, hcount, _⟩
      rw [hsplit] at hsplit'
      simp only [List.cons.injEq] at hsplit'
      obtain ⟨rfl, rfl, _⟩ := hsplit'
      exact hdigits (by rw [hnumber, hcount]; rfl)
  · rename_i hsplit
    obtain rfl := Outcome.pure_eq_ok.1 h
    refine ⟨rfl, fun n => ⟨.inl, fun h => h.resolve_right ?_⟩⟩
    rintro ⟨_, number', count', rest', hsplit', _⟩
    exact hsplit number' count' rest' hsplit'

/-- A line does not start in two ways. -/
theorem isPrefixOf_head {a b : Char} {s t line : List Char} (hne : a ≠ b)
    (h : (a :: s).isPrefixOf line = true) : (b :: t).isPrefixOf line = false := by
  cases line with
  | nil => rfl
  | cons c cs =>
    simp only [List.isPrefixOf, Bool.and_eq_true, beq_iff_eq] at h
    simp only [List.isPrefixOf, Bool.and_eq_false_iff, beq_eq_false_iff_ne]
    exact .inl fun hb => hne (h.1.trans hb.symm)

/-- **One line of the text.** -/
theorem readLine_ok {r r' : Reader} {line : List Char} (h : readLine digits r line = .ok r') :
    (∀ path, r'.IsOpen path ↔
      ("SF:".toList.isPrefixOf line = true ∧ String.ofList (line.drop 3) = path) ∨
        (closes line = false ∧ r.IsOpen path)) ∧
    ∀ path n, (r'.Yields path n ∨ r'.Holds path n) ↔
      (r.Yields path n ∨ r.Holds path n) ∨ (r.IsOpen path ∧ IsDa digits line n) := by
  unfold readLine at h
  split at h
  · -- the end of a section
    rename_i hend
    subst hend
    obtain ⟨hnone, hyields⟩ := flush_ok h
    refine ⟨fun path => ?_, fun path n => ?_⟩
    · simp only [Reader.IsOpen, hnone]
      exact iff_of_false (by simp) (by rintro (⟨h, _⟩ | ⟨h, _⟩) <;> exact absurd h (by decide))
    · have hholds : ¬ r'.Holds path n := by simp [Reader.Holds, hnone]
      have hda : ¬ IsDa digits "end_of_record".toList n := fun h => absurd h.1 (by decide)
      simp only [hyields, hholds, hda, and_false, or_false]
  · rename_i hend
    split at h
    · -- the start of the next one
      rename_i hsf
      simp only [Outcome.bind_eq_ok, Outcome.pure_eq_ok] at h
      obtain ⟨mid, hmid, rfl⟩ := h
      obtain ⟨_, hyields⟩ := flush_ok hmid
      refine ⟨fun path => ?_, fun path n => ?_⟩
      · have hcloses : closes line = true := by simp only [closes, hsf, Bool.or_true]
        constructor
        · rintro ⟨s, hs, rfl⟩
          obtain rfl := Option.some.inj hs
          exact .inl ⟨hsf, rfl⟩
        · rintro (⟨_, hpath⟩ | ⟨hopen, _⟩)
          · exact ⟨_, rfl, hpath⟩
          · rw [hcloses] at hopen
            cases hopen
      · have hda : ¬ IsDa digits line n := by
          intro h
          have := isPrefixOf_head (a := 'S') (b := 'D') (s := ['F', ':']) (t := ['A', ':'])
            (by decide) hsf
          exact Bool.false_ne_true (this.symm.trans h.1)
        have hrecords : (⟨mid.records, some ⟨String.ofList (line.drop 3), Keyed.empty, []⟩⟩ :
            Reader).Yields path n ↔ mid.Yields path n := Iff.rfl
        have hholds : ¬ (⟨mid.records, some ⟨String.ofList (line.drop 3), Keyed.empty, []⟩⟩ :
            Reader).Holds path n := by simp [Reader.Holds]
        simp only [hrecords, hholds, hda, hyields, and_false, or_false]
    · rename_i hsf
      have hcloses : closes line = false := by
        rw [closes, decide_eq_false hend, Bool.false_or]
        exact Bool.eq_false_iff.2 hsf
      have hopen : ∀ path, (("SF:".toList.isPrefixOf line = true ∧
          String.ofList (line.drop 3) = path) ∨ (closes line = false ∧ r.IsOpen path)) ↔
          r.IsOpen path :=
        fun path => ⟨fun h => h.elim (fun h => absurd h.1 hsf) And.right,
          fun h => .inr ⟨hcloses, h⟩⟩
      simp only [hopen]
      split at h
      · rename_i hnone
        obtain rfl := Outcome.pure_eq_ok.1 h
        have hclosed : ∀ path, ¬ r.IsOpen path := by simp [Reader.IsOpen, hnone]
        exact ⟨fun _ => Iff.rfl, fun path n => by simp only [hclosed, false_and, or_false]⟩
      · rename_i s hs
        have hsame : ∀ (s' : Section), s'.filePath = s.filePath → ∀ path,
            (⟨r.records, some s'⟩ : Reader).IsOpen path ↔ r.IsOpen path := by
          intro s' hs' path
          simp [Reader.IsOpen, hs, hs']
        split at h
        · rename_i hda
          simp only [Outcome.bind_eq_ok, Outcome.pure_eq_ok] at h
          obtain ⟨s', hs', rfl⟩ := h
          obtain ⟨hpath, hlines⟩ := readDa_ok hda hs'
          refine ⟨hsame s' hpath, fun path n => ?_⟩
          simp only [Reader.Yields, Reader.Holds, Reader.IsOpen, hs, Option.some.injEq,
            exists_eq_left', hpath, hlines]
          rw [and_or_left, or_assoc]
        · rename_i hda
          have hother : ∀ n, ¬ IsDa digits line n := fun n h => hda h.1
          split at h
          · obtain rfl := Outcome.pure_eq_ok.1 h
            refine ⟨hsame _ rfl, fun path n => ?_⟩
            simp only [Reader.Yields, Reader.Holds, hs, hother, Option.some.injEq, exists_eq_left',
              and_false, or_false]
          · obtain rfl := Outcome.pure_eq_ok.1 h
            exact ⟨fun _ => Iff.rfl, fun path n => by simp only [hother, and_false, or_false]⟩

/-- **The whole text**: what the reader has seen is what the sections declare. -/
theorem foldlM_readLine_ok {lines : List (List Char)} {r : Reader}
    (h : lines.foldlM (readLine digits) ⟨[], none⟩ = .ok r) :
    (∀ path, r.IsOpen path ↔ OpenAt lines path) ∧
    ∀ path n, (r.Yields path n ∨ r.Holds path n) ↔ Declared digits lines path n := by
  induction lines using List.reverseRecOn generalizing r with
  | nil =>
    obtain rfl := Outcome.pure_eq_ok.1 h
    refine ⟨fun path => iff_of_false (by simp [Reader.IsOpen]) ?_,
      fun path n => iff_of_false (by simp [Reader.Yields, Reader.Holds]) ?_⟩
    · rintro ⟨before, sf, between, he, _⟩
      simp at he
    · rintro ⟨before, da, behind, he, _⟩
      simp at he
  | append_singleton lines line ih =>
    simp only [List.foldlM_append, List.foldlM_cons, List.foldlM_nil, Outcome.bind_eq_ok,
      Outcome.pure_eq_ok] at h
    obtain ⟨mid, hmid, r₁, hline, rfl⟩ := h
    obtain ⟨hopen, hdeclared⟩ := ih hmid
    obtain ⟨hopen', hdeclared'⟩ := readLine_ok hline
    exact ⟨fun path => by rw [hopen', openAt_concat, hopen],
      fun path n => by rw [hdeclared', declared_concat, hdeclared, hopen]⟩

variable (digits)

/-! ## Records -/

/-- The dictionary of some records by path. -/
def byPath (records : List InfoRecord) : List InfoRecord :=
  records.foldl (LastWrite.set InfoRecord.filePath) []

/-- `parse_info` -/
def parseInfo (text : List Char) : Except LcovError (List InfoRecord) :=
  (iterInfoRecords digits text).map byPath

end Lcov

end FosCoverage
