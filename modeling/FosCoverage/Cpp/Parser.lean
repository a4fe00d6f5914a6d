import Mathlib.Data.List.Sort
import FosCoverage.Cpp.Lexer

/-!
# The C++ source analyser

`CppSourceAnalyzer`: what the inheritance engine knows about one source file.  There is no grammar;
each fact is read off the tokens of the lines.

* `functions` matches braces and recovers the header of each block from the tokens before it.
* `controlContext` says under which control headers each line stands, `preprocessorContext` under
  which conditional groups.
* `definitions` collects the macros and constants of the file, `calls` the names each line calls.

Lines are numbered from one, and every function takes the lines with their numbers.
-/

set_option autoImplicit false

namespace FosCoverage

open Text

/-- `FunctionIdentity` -/
structure FunctionIdentity where
  /-- The file. -/
  path : String
  /-- Enclosing namespaces and classes. -/
  scope : List String
  /-- The name. -/
  name : String
  /-- The tokens of the parameter list. -/
  parameters : List String
  /-- The tokens behind the parameter list. -/
  qualifiers : List String
  /-- The tokens of a trailing return type. -/
  trailingReturn : List String
  deriving DecidableEq, Repr

/-- `FunctionRange` -/
structure FunctionRange where
  /-- Which function it is. -/
  identity : FunctionIdentity
  /-- The line of the opening brace. -/
  startLine : Nat
  /-- The line of the closing brace. -/
  endLine : Nat
  /-- The tokens of the lines behind the first one. -/
  bodyTokens : List String
  /-- The header or the file was not understood. -/
  uncertain : Bool
  deriving DecidableEq, Repr

/-- `canonical()` in the order in which it is compared. -/
def FunctionIdentity.canonical (f : FunctionIdentity) : List (List String) :=
  [[f.path], f.scope, [f.name], f.parameters, f.qualifiers, f.trailingReturn]

/-- The order of the result: by first line, last line and identity. -/
def FunctionRange.le (f g : FunctionRange) : Prop :=
  f.startLine < g.startLine ∨ f.startLine = g.startLine ∧ (f.endLine < g.endLine ∨
    f.endLine = g.endLine ∧ ¬ g.identity.canonical < f.identity.canonical)

instance FunctionRange.decidableLe : DecidableRel FunctionRange.le :=
  fun _ _ => inferInstanceAs (Decidable (_ ∨ _ ∧ (_ ∨ _ ∧ ¬ _)))

/-- The same function at the same place. -/
def FunctionRange.same (f g : FunctionRange) : Bool :=
  f.identity = g.identity ∧ f.startLine = g.startLine ∧ f.endLine = g.endLine

/-- A definition of a macro or a constant: its line and the tokens of its value. -/
structure Definition where
  /-- The line. -/
  line : Nat
  /-- Parameters and value. -/
  tokens : List String
  deriving DecidableEq, Repr

namespace CppSourceAnalyzer

open CppLexer

/-- `CONTROL_WORDS` -/
def controlWords : List String := ["if", "else", "for", "while", "switch", "case", "catch", "do"]

/-! ## Functions -/

/-- The tokens before and behind the last occurrence of one. -/
def splitLast (t : String) (tokens : List String) : Option (List String × List String) :=
  match tokens.reverse.dropWhile (· ≠ t) with
  | [] => none
  | _ :: front => some (front.reverse, (tokens.reverse.takeWhile (· ≠ t)).reverse)

/-- `_identity_from_tokens`.  The last opening parenthesis counts, so the first closing one behind it
ends the parameters. -/
def identityFromTokens (tokens : List String) (path : String) (scopePrefix : List String) :
    Option FunctionIdentity := do
  let (front, rest) ← splitLast "(" tokens
  if ")" ∉ rest ∨ front = [] then none
  let named := (front.reverse.dropWhile fun t => t ∈ ["*", "&", "&&", "::"]).reverse
  let name ← named.getLast?
  if name ∈ controlWords ∨ name ∈ ["function", "sizeof", "return"] then none
  if "[" ∈ front ∨ "#" ∈ front then none
  let before := named.dropLast
  let scopes := (before.zip before.tail).filterMap fun p =>
    if p.1 = "namespace" ∨ p.1 = "class" then some p.2 else none
  let behind := (rest.dropWhile (· ≠ ")")).tail
  pure ⟨path, scopePrefix ++ scopes, name, rest.takeWhile (· ≠ ")"),
    behind.takeWhile (· ≠ "->"), (behind.dropWhile (· ≠ "->")).tail⟩

/-- `" ".join` -/
def join (tokens : List String) : String := " ".intercalate tokens

/-- `_looks_uncertain` -/
def looksUncertain (text : String) : Bool :=
  (words text.toList).any fun w => String.ofList w ∈ ["<", ">", "operator", "->*"]

/-- The token behind the first occurrence of a keyword. -/
def tokenAfter (keyword : String) (header : List String) : Option String :=
  (header.dropWhile (· ≠ keyword)).tail.head?

/-- The namespace or class a header opens. -/
def scopeName (header : List String) : Option String :=
  if "namespace" ∈ header then tokenAfter "namespace" header
  else if "class" ∈ header then tokenAfter "class" header
  else if "struct" ∈ header then tokenAfter "struct" header
  else none

/-- A brace that has not been closed yet: `brace_starts`, `brace_headers` and `brace_scope` at its
depth. -/
structure OpenBrace where
  /-- The line of the brace. -/
  start : Nat
  /-- The tokens before it. -/
  header : List String
  /-- The namespace or class it opens. -/
  scope : Option String
  deriving DecidableEq, Repr

/-- The state of the scan for functions.  The depth is the number of open braces. -/
structure HeaderState where
  /-- The functions found so far. -/
  functions : List FunctionRange
  /-- The open braces, innermost first. -/
  opened : List OpenBrace
  /-- `scope_stack` -/
  scopeStack : List String
  /-- The tokens since the last brace or semicolon. -/
  pending : List String
  deriving DecidableEq, Repr

/-- What the scan looks up: the file, its lines, and whether the lexer was sure of them. -/
structure FileTokens where
  /-- The file. -/
  path : String
  /-- The tokens of the lines. -/
  lines : List (Nat × List String)
  /-- `lexer_uncertain` -/
  uncertain : Bool

/-- The tokens of the lines behind `start` up to `index`. -/
def FileTokens.body (file : FileTokens) (start index : Nat) : List String :=
  (file.lines.filter fun l => start < l.1 ∧ l.1 ≤ index).flatMap Prod.snd

/-- The function a closing brace completes, if its header is one of a function. -/
def FileTokens.functionOf (file : FileTokens) (index : Nat) (scopeStack : List String)
    (brace : OpenBrace) : Option FunctionRange :=
  (identityFromTokens brace.header file.path scopeStack).map fun identity =>
    ⟨identity, brace.start, index, file.body brace.start index,
      file.uncertain || looksUncertain (join brace.header)⟩

/-- An opening brace. -/
def HeaderState.openBrace (st : HeaderState) (index : Nat) (before : List String) : HeaderState :=
  let header := if st.pending = [] then before else st.pending
  { st with
    opened := ⟨index, header, scopeName header⟩ :: st.opened
    scopeStack := st.scopeStack ++ (scopeName header).toList
    pending := [] }

/-- A closing brace. -/
def HeaderState.closeBrace (st : HeaderState) (file : FileTokens) (index : Nat) : HeaderState :=
  match st.opened with
  | [] => { st with pending := [] }
  | brace :: opened =>
    { functions := st.functions ++ (file.functionOf index st.scopeStack brace).toList
      opened := opened
      scopeStack := if brace.scope.isSome ∧ st.scopeStack.getLast? = brace.scope then
        st.scopeStack.dropLast else st.scopeStack
      pending := [] }

/-- One token of the line `index`, with the tokens before it on that line. -/
def functionToken (file : FileTokens) (index : Nat) (st : HeaderState) (before : List String)
    (token : String) : HeaderState :=
  if token = "\x7b" then st.openBrace index before
  else if token = "\x7d" then st.closeBrace file index
  else if token = ";" then { st with pending := [] }
  else { st with pending := st.pending ++ [token] }

/-- The rest of a line, behind the tokens `before`. -/
def functionTokens (file : FileTokens) (index : Nat) (st : HeaderState) (before : List String) :
    List String → HeaderState
  | [] => st
  | token :: tokens =>
    functionTokens file index (functionToken file index st before token) (before ++ [token]) tokens

/-- One line.  A directive is no part of a header. -/
def functionLine (file : FileTokens) (st : HeaderState) (line : Nat × List String) : HeaderState :=
  if "#" ∈ line.2 then
    { functionTokens file line.1 { st with pending := [] } [] line.2 with pending := [] }
  else functionTokens file line.1 st [] line.2

/-- The first of each group of equal elements. -/
def unique : List FunctionRange → List FunctionRange
  | [] => []
  | f :: fs => f :: (unique fs).filter fun g => !f.same g

/-- `_functions` -/
def functions (file : FileTokens) : List FunctionRange :=
  unique ((file.lines.foldl (functionLine file) ⟨[], [], [], []⟩).functions.insertionSort
    FunctionRange.le)

/-! ## Control context -/

/-- Tokens of physical lines that are joined by splices, with the numbers of the lines. -/
structure LineGroup where
  /-- The physical lines. -/
  lines : List Nat
  /-- Their tokens. -/
  tokens : List String
  deriving DecidableEq, Repr

/-- The groups from one that has been read in part; `spliced` says whether its last line is. -/
def groupFrom (current : LineGroup) (spliced : Bool) : List (Nat × LexedLine) → List LineGroup
  | [] => [current]
  | (n, line) :: lines =>
    if spliced then groupFrom ⟨current.lines ++ [n], current.tokens ++ line.tokens⟩ line.spliced lines
    else current :: groupFrom ⟨[n], line.tokens⟩ line.spliced lines

/-- The groups of a file. -/
def lineGroups : List (Nat × LexedLine) → List LineGroup
  | [] => []
  | (n, line) :: lines => groupFrom ⟨[n], line.tokens⟩ line.spliced lines

/-- `_control_start`: where a statement can start, given the token before. -/
def controlStart : Option String → Bool
  | none => true
  | some t => t ∈ ["\x7b", "\x7d", ";", ":", "else", "do"]

/-- The tokens up to the parenthesis that closes `depth` open ones, and the rest. -/
def closeParens : Nat → List String → List String × List String
  | _, [] => ([], [])
  | depth, t :: ts =>
    if t = "(" then (t :: (closeParens (depth + 1) ts).1, (closeParens (depth + 1) ts).2)
    else if t = ")" then
      if depth = 1 then ([t], ts)
      else (t :: (closeParens (depth - 1) ts).1, (closeParens (depth - 1) ts).2)
    else (t :: (closeParens depth ts).1, (closeParens depth ts).2)

/-- `_control_descriptor`: the tokens of the header that starts with a control word, and the rest. -/
def controlHeader (token : String) (rest : List String) : List String × List String :=
  if token ∈ ["else", "do"] then ([token], rest)
  else if token = "case" then
    (token :: rest.takeWhile (· ≠ ":") ++ (rest.dropWhile (· ≠ ":")).take 1,
      (rest.dropWhile (· ≠ ":")).drop 1)
  else if rest.head? = some "(" then (token :: (closeParens 0 rest).1, (closeParens 0 rest).2)
  else ([token], rest)

/-- The state of the scan for control headers. -/
structure ControlState where
  /-- The headers of the open blocks, with the depth of each block. -/
  active : List (Nat × String)
  /-- `brace_depth` -/
  depth : Nat
  deriving DecidableEq, Repr

/-- The part of the state that belongs to one group. -/
structure GroupState where
  /-- The blocks. -/
  blocks : ControlState
  /-- The context of the lines of the group. -/
  lineContext : List String
  /-- The headers that wait for their brace. -/
  pending : List String
  deriving DecidableEq, Repr

/-- A control header. -/
def GroupState.header (st : GroupState) (descriptor : String) : GroupState :=
  { st with
    lineContext := if descriptor ∈ st.lineContext then st.lineContext
      else st.lineContext ++ [descriptor]
    pending := st.pending ++ [descriptor] }

/-- Any other token. -/
def GroupState.token (st : GroupState) (t : String) : GroupState :=
  if t = "\x7b" then
    { st with
      blocks := ⟨st.blocks.active ++ st.pending.map (st.blocks.depth + 1, ·), st.blocks.depth + 1⟩
      pending := [] }
  else if t = "\x7d" then
    { st with
      blocks := ⟨st.blocks.active.filter fun b => b.1 < st.blocks.depth, st.blocks.depth - 1⟩ }
  else st

/-- The tokens of a group behind the token `previous`. -/
def controlTokens : Nat → Option String → List String → GroupState → GroupState
  | 0, _, _, st => st
  | _ + 1, _, [], st => st
  | fuel + 1, previous, t :: ts, st =>
    if t ∈ controlWords ∧ controlStart previous then
      let (header, rest) := controlHeader t ts
      controlTokens fuel header.getLast? rest (st.header (join header))
    else controlTokens fuel (some t) ts (st.token t)

/-- One group: the blocks behind it and the context of its lines. -/
def controlGroup (blocks : ControlState) (group : LineGroup) : GroupState :=
  controlTokens group.tokens.length none group.tokens ⟨blocks, blocks.active.map Prod.snd, []⟩

/-- The context of every line of the groups. -/
def controlGroups : ControlState → List LineGroup → List (Nat × List String)
  | _, [] => []
  | blocks, group :: groups =>
    group.lines.map (·, (controlGroup blocks group).lineContext) ++
      controlGroups (controlGroup blocks group).blocks groups

/-- `_control_context` -/
def controlContext (lines : List (Nat × LexedLine)) : List (Nat × List String) :=
  controlGroups ⟨[], 0⟩ (lineGroups lines)

/-! ## Preprocessor context -/

section Words

variable (u : WordTable)

/-- The kind of a conditional directive and its expression, without spaces around it. -/
def directive (text : List Char) : Option (String × List Char) :=
  match strip text with
  | '#' :: s =>
    let s := strip s
    let kind := String.ofList (s.takeWhile u.isWord)
    if kind ∈ ["if", "ifdef", "ifndef", "elif", "else", "endif"] then
      some (kind, strip (s.dropWhile u.isWord))
    else none
  | _ => none

/-- What the stack keeps of a directive. -/
def conditionOf (kind : String) (expression : List Char) : String :=
  String.ofList (strip (kind ++ " " ++ join (tokenize expression)).toList)

/-- One logical line: what it does to the stack, innermost group last. -/
def preprocessorStep (stack : List String) (text : List Char) : List String :=
  match directive u text with
  | none => stack
  | some (kind, expression) =>
    if kind = "endif" then stack.dropLast
    else if kind = "elif" ∨ kind = "else" then
      if stack = [] then stack else stack.dropLast ++ [conditionOf kind expression]
    else stack ++ [conditionOf kind expression]

/-- The context of every physical line. -/
def preprocessorFrom : List String → List LogicalLine → List (Nat × List String)
  | _, [] => []
  | stack, line :: lines =>
    line.lines.map (·, stack) ++ preprocessorFrom (preprocessorStep u stack line.text) lines

/-- `_preprocessor_context` -/
def preprocessorContext (lines : List (Nat × List Char)) : List (Nat × List String) :=
  preprocessorFrom u [] (logicalLines lines)

/-! ## Definitions -/

/-- A fixed text at the start. -/
def afterText (pattern s : List Char) : Option (List Char) :=
  if pattern.isPrefixOf s then some (s.drop pattern.length) else none

/-- `\s+` -/
def afterSpaces (s : List Char) : Option (List Char) :=
  if s.head?.any isSpace then some (s.dropWhile isSpace) else none

/-- `[A-Za-z_]\w*` -/
def identifier (s : List Char) : Option (String × List Char) :=
  if s.head?.any isIdentStart then
    some (String.ofList (s.takeWhile u.isWord), s.dropWhile u.isWord)
  else none

/-- A `#define`: the name and the tokens of parameters and value. -/
def macroOf (line : List Char) : Option (String × List String) := do
  let s ← afterText ['#'] (line.dropWhile isSpace)
  let s ← afterText "define".toList (s.dropWhile isSpace)
  let s ← afterSpaces s
  let (name, value) ← identifier u s
  pure (name, tokenize value)

/-- A `const` or `constexpr` definition of the recognised form. -/
def constantOf (line : List Char) : Option (String × List String) := do
  let s := line.dropWhile isSpace
  let s ← ((afterText "constexpr".toList s).bind afterSpaces).or
    ((afterText "const".toList s).bind afterSpaces)
  if !(s.head?.any fun c => isIdentStart c || c == ':') then none
  let s ← afterSpaces (s.dropWhile fun c => u.isWord c || c ∈ [':', '<', '>'])
  let (name, s) ← identifier u s
  let s ← afterText ['='] (s.dropWhile isSpace)
  let value := rstrip (s.dropWhile isSpace)
  pure (name, tokenize (if value.getLast? = some ';' then value.dropLast else value))

/-- `dict[name] = value` -/
def put (d : List (String × Definition)) (name : String) (value : Definition) :
    List (String × Definition) :=
  if (d.lookup name).isSome then d.map fun e => if e.1 = name then (name, value) else e
  else d ++ [(name, value)]

/-- The definitions of one kind in the order of the lines; a later one of a name replaces the
earlier one. -/
def definitions (recognise : List Char → Option (String × List String))
    (lines : List LogicalLine) : List (String × Definition) :=
  lines.foldl (fun d line =>
    match recognise line.text with
    | some (name, tokens) => put d name ⟨line.startLine, tokens⟩
    | none => d) []

/-! ## Calls -/

/-- `^[A-Za-z_]\w*$` -/
def isName (token : String) : Bool :=
  token.toList.head?.any isIdentStart && token.toList.all u.isWord

/-- The names a line calls. -/
def callsOf : List String → List String
  | t :: next :: ts =>
    (if isName u t ∧ next = "(" ∧ t ∉ controlWords then [t] else []) ++ callsOf (next :: ts)
  | _ => []

end Words

end CppSourceAnalyzer

/-! ## The analysis of a file -/

/-- What `analyze` returns. -/
structure SourceAnalysis where
  /-- The functions. -/
  functions : List FunctionRange
  /-- The control context of each line. -/
  controls : List (Nat × List String)
  /-- The preprocessor context of each line. -/
  preprocessor : List (Nat × List String)
  /-- The macros, by name. -/
  macros : List (String × Definition)
  /-- The constants, by name. -/
  constants : List (String × Definition)
  /-- The names each line calls. -/
  calls : List (Nat × List String)
  /-- The file. -/
  path : String
  deriving DecidableEq, Repr

namespace CppSourceAnalyzer

open CppLexer

/-- `SUPPORTED_EXTENSIONS` -/
def supportedExtensions : List String :=
  ["c", "cc", "cpp", "cxx", "h", "hh", "hpp", "hxx"]

/-- A path without an extension is analysed too. -/
def supported (path : String) : Bool :=
  !path.toList.contains '.' ||
    String.ofList ((path.toList.reverse.takeWhile (· ≠ '.')).reverse.map Char.toLower) ∈
      supportedExtensions

/-- The analysis of the lines of a supported file. -/
def analyzeLines (u : WordTable) (path : String) (lines : List (List Char)) :
    SourceAnalysis :=
  let numbered := enumerate 1 lines
  let lexed := tokenizeLines lines
  let numberedTokens := enumerate 1 (lexed.map LexedLine.tokens)
  { functions := functions ⟨path, numberedTokens, uncertain lexed⟩
    controls := controlContext (enumerate 1 lexed)
    preprocessor := preprocessorContext u numbered
    macros := definitions (macroOf u) (logicalLines numbered)
    constants := definitions (constantOf u) (logicalLines numbered)
    calls := numberedTokens.map fun l => (l.1, callsOf u l.2)
    path := path }

/-- `analyze` -/
def analyze (u : WordTable) (text : List Char) (path : String) : SourceAnalysis :=
  if supported path then analyzeLines u path (splitLines (newlines text))
  else ⟨[], [], [], [], [], [], ""⟩

/-- The lines of a text with their numbers. -/
def numberedLines (text : List Char) : List (Nat × List Char) :=
  enumerate 1 (splitLines (newlines text))

/-- `function_for_line` -/
def functionForLine (analysis : SourceAnalysis) (line : Nat) : Option FunctionRange :=
  match analysis.functions.filter fun f => f.startLine ≤ line ∧ line ≤ f.endLine with
  | [f] => some f
  | _ => none

end CppSourceAnalyzer

end FosCoverage
