import FosCoverage.Lib.Json
import FosCoverage.Lib.LastWrite
import FosCoverage.Lib.Outcome
import FosCoverage.Cpp.Functions

/-!
# The two parsers

An analysis comes from `CppSourceAnalyzer.analyze` or from an external helper, whose JSON answer
`_canonicalize_analysis` turns into the same structure or refuses.

* `ParsedAnalysis` is an analysis with the two facts about it as a whole: whether the file is
  supported and whether the parser was uncertain of it.
* `canonicalizeAnalysis` is the conversion, with its checks in order and their messages.
* `AcceptedAnalysis` is an analysis one of the two parsers has returned.
* `parse_marked`: the analyser marks every function of a file it is uncertain of.
  `canonicalizeAnalysis` takes the marks of the functions and the flag of the file from different
  keys of the answer.

The `lines` and `tokens` of an analysis are checked and not kept, since no comparison reads them.
-/

set_option autoImplicit false

namespace FosCoverage

open Text Outcome CppLexer CppSourceAnalyzer

/-! ## Analyses with their flags -/

/-- An analysis and what its parser says about it as a whole. -/
structure ParsedAnalysis extends SourceAnalysis where
  /-- `supported` -/
  supported : Bool
  /-- `uncertain` -/
  uncertain : Bool
  deriving DecidableEq, Repr

/-- The parser was uncertain of the file or does not support it. -/
def ParsedAnalysis.Flagged (a : ParsedAnalysis) : Prop := a.uncertain = true ∨ a.supported = false

instance (a : ParsedAnalysis) : Decidable a.Flagged := inferInstanceAs (Decidable (_ ∨ _))

/-- The flags of the file show in its functions: those of an uncertain file are marked, and a file
that is not supported has none. -/
def ParsedAnalysis.Marked (a : ParsedAnalysis) : Prop :=
  (a.uncertain = true → ∀ f ∈ a.functions, f.uncertain = true) ∧
    (a.supported = false → a.functions = [])

/-- `CppSourceAnalyzer.analyze` with the flags. -/
def parse (u : WordTable) (text : List Char) (path : String) : ParsedAnalysis :=
  { analyze u text path with
    supported := CppSourceAnalyzer.supported path
    uncertain := CppSourceAnalyzer.supported path &&
      CppLexer.uncertain (tokenizeLines (splitLines (newlines text))) }

/-! ## The answer of a helper -/

/-- What `_canonicalize_analysis` raises. -/
inductive AnalysisError
  /-- `ParserAdapterError` -/
  | adapter (message : String)
  /-- Any other exception, of a number or of something that cannot be iterated over. -/
  | number (e : NumberError)
  deriving DecidableEq, Repr

/-- `int(value)` where `TypeError` and `ValueError` are caught. -/
def intOr (message : String) : Except NumberError Int → Except AnalysisError Int
  | .ok n => .ok n
  | .error .overflowError => .error (.number .overflowError)
  | .error _ => .error (.adapter message)

/-- A loop over the value, or over nothing where it counts as false. -/
def elements (value : Json) : Except AnalysisError (List Json) :=
  if value.truthy then value.iterate.mapError .number else .ok []

/-- The object a check asks for. -/
def asObject (message : String) : Json → Except AnalysisError (List (String × Json))
  | .object entries => .ok entries
  | _ => .error (.adapter message)

section Canonicalize

variable (t : UnicodeTables)

/-- `_as_tuple` -/
def asTuple (value : Json) (fieldName : String) (allowString : Bool) :
    Except AnalysisError (List String) :=
  match value with
  | .null => .ok []
  | .text s =>
    if allowString then .ok ((words s.toList).map String.ofList)
    else .error (.adapter (fieldName ++ " must be an array"))
  | .array items => .ok (items.map (Json.str t))
  | _ => .error (.adapter (fieldName ++ " must be an array"))

/-- A line number, from one. -/
def lineNumber (notNumeric invalid : String) (number : Except NumberError Int) :
    Except AnalysisError Nat := do
  let n ← intOr notNumeric number
  require (.adapter invalid) (1 ≤ n)
  pure n.toNat

/-- What `_line_map` makes of the value of one line. -/
def itemTexts : Json → List String
  | .array items => items.map (Json.str t)
  | .null => []
  | item => [item.str t]

/-- `_line_map` -/
def lineMap (value : Json) (fieldName : String) :
    Except AnalysisError (List (Nat × List String)) :=
  match value with
  | .null => .ok []
  | _ => do
    let entries ← asObject (fieldName ++ " must be an object keyed by line number") value
    let lines ← entries.mapM fun e => do
      let n ← lineNumber (fieldName ++ " contains a non-numeric line")
        (fieldName ++ " contains an invalid line") ((Json.text e.1).toInt t)
      pure (n, itemTexts t e.2)
    pure (lines.foldl (LastWrite.set Prod.fst) [])

/-- One entry of `_definition_map`. -/
def definitionEntry (fieldName key : String) (item : Json) :
    Except AnalysisError (String × Definition) :=
  let label := fieldName ++ " definition '" ++ key ++ "'"
  match item with
  | .array [line, tokens] => do
    let n ← lineNumber (label ++ " has an invalid line") (label ++ " has an invalid line")
      (line.toInt t)
    let tokens ← asTuple t tokens (label ++ " tokens") true
    pure (key, ⟨n, tokens⟩)
  | _ => .error (.adapter (label ++ " must contain line and tokens"))

/-- `_definition_map` -/
def definitionMap (value : Json) (fieldName : String) :
    Except AnalysisError (List (String × Definition)) :=
  match value with
  | .null => .ok []
  | _ => do
    let entries ← asObject (fieldName ++ " must be an object keyed by definition name") value
    let definitions ← entries.mapM fun e => definitionEntry t fieldName e.1 e.2
    pure (definitions.foldl (LastWrite.set Prod.fst) [])

/-- Where the identity of a function is read: in its own object, if there is one. -/
def identityPayload (item : List (String × Json)) : List (String × Json) :=
  match Json.get item "identity" with
  | .object entries => entries
  | _ => item

/-- The identity of a function. -/
def functionIdentity (path : String) (payload : List (String × Json)) :
    Except AnalysisError FunctionIdentity := do
  let scope ← asTuple t (Json.get payload "scope") "function scope" true
  let parameters ← asTuple t (Json.get payload "parameters") "function parameters" true
  let qualifiers ← asTuple t (Json.get payload "qualifiers") "function qualifiers" true
  let trailing ← asTuple t (Json.get payload "trailing_return") "function trailing_return" true
  pure ⟨((Json.get payload "path").or (.text path)).str t, scope,
    (Json.get payload "name").str t, parameters, qualifiers, trailing⟩

/-- One entry of `functions`. -/
def functionRange (path : String) (entry : Json) : Except AnalysisError FunctionRange := do
  let item ← asObject "function entry must be an object" entry
  let payload := identityPayload item
  require (.adapter "function identity name is required")
    ((Json.get payload "name").truthy = true)
  let startLine ← intOr "function range must have integer start/end lines"
    ((Json.get item "start_line").toInt t)
  let endLine ← intOr "function range must have integer start/end lines"
    ((Json.get item "end_line").toInt t)
  require (.adapter "function range is invalid") (1 ≤ startLine ∧ startLine ≤ endLine)
  let identity ← functionIdentity t path payload
  let bodyTokens ← asTuple t (Json.get item "body_tokens") "function body_tokens" true
  pure ⟨identity, startLine.toNat, endLine.toNat, bodyTokens,
    (Json.getD item "uncertain" (.bool false)).truthy⟩

/-- `_canonicalize_analysis` -/
def canonicalizeAnalysis (answer : Json) (path : String) :
    Except AnalysisError ParsedAnalysis := do
  let payload ← asObject "parser analysis must be an object" answer
  let entries ← elements (Json.get payload "functions")
  let functions ← entries.mapM (functionRange t path)
  let controls ← lineMap t (Json.get payload "controls") "controls"
  let preprocessor ← lineMap t (Json.get payload "preprocessor") "preprocessor"
  let macros ← definitionMap t (Json.get payload "macros") "macros"
  let constants ← definitionMap t (Json.get payload "constants") "constants"
  let calls ← lineMap t (Json.get payload "calls") "calls"
  let _ ← elements (Json.get payload "lines")
  let _ ← elements (Json.get payload "tokens")
  pure {
    functions, controls, preprocessor, macros, constants, calls
    path := ((Json.get payload "path").or (.text path)).str t
    supported := (Json.getD payload "supported" (.bool true)).truthy
    uncertain := (Json.getD payload "uncertain" (.bool false)).truthy }

end Canonicalize

/-- An analysis one of the parsers has returned. -/
inductive Accepted (t : UnicodeTables) (u : WordTable) : ParsedAnalysis → Prop
  /-- The analyser of the repository, on any text. -/
  | builtin (text : List Char) (path : String) : Accepted t u (parse u text path)
  /-- A helper, with any answer that is accepted. -/
  | external (answer : Json) (path : String) (a : ParsedAnalysis)
      (h : canonicalizeAnalysis t answer path = .ok a) : Accepted t u a

/-- An analysis with the parser it comes from. -/
structure AcceptedAnalysis (t : UnicodeTables) (u : WordTable) where
  /-- The analysis. -/
  analysis : ParsedAnalysis
  /-- One of the parsers has returned it. -/
  accepted : Accepted t u analysis

/-! ## The marks of the functions -/

/-- A property of every function a closing brace completes is one of every function found. -/
theorem functions_forall {file : FileTokens} {P : FunctionRange → Prop}
    (h : ∀ index scopeStack brace f, file.functionOf index scopeStack brace = some f → P f) :
    ∀ f ∈ functions file, P f := by
  intro f hf
  have hmem := (List.mem_insertionSort _).1 (mem_of_mem_unique hf)
  rw [foldl_functionLine] at hmem
  exact scan_functions_forall h _ _ (fun g hg => absurd hg List.not_mem_nil) f hmem

/-- **The analyser marks every function of a file it is uncertain of**, and finds none in a file it
does not support. -/
theorem parse_marked (u : WordTable) (text : List Char) (path : String) :
    (parse u text path).Marked := by
  unfold ParsedAnalysis.Marked parse
  constructor
  · intro huncertain
    rw [Bool.and_eq_true] at huncertain
    obtain ⟨hsupported, huncertain⟩ := huncertain
    intro f hf
    have hf : f ∈ (analyze u text path).functions := hf
    unfold analyze analyzeLines at hf
    rw [if_pos hsupported] at hf
    refine functions_forall (P := fun f => f.uncertain = true) ?_ f hf
    intro index scopeStack brace g hg
    rw [FileTokens.functionOf, Option.map_eq_some_iff] at hg
    obtain ⟨identity, _, rfl⟩ := hg
    change (_ || _) = true
    rw [huncertain, Bool.true_or]
  · intro hsupported
    have hsupported : CppSourceAnalyzer.supported path = false := hsupported
    change (analyze u text path).functions = []
    unfold analyze
    rw [if_neg (by rw [hsupported]; exact Bool.false_ne_true)]

end FosCoverage
