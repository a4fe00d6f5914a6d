import FosCoverage.Lib.Text

/-!
# The C++ lexer

`CppLexer` of the normaliser, which feeds every later stage of the source analysis.

* `tokenize` reads a piece of text on its own: spliced lines are joined, comments dropped, literals
  and raw strings kept as one token each.
* `tokenizeLines` reads a whole file line by line and carries an open comment, literal or raw string
  from one line to the next (`LexState`).  Besides the tokens of each line it says which lines end in
  a splice and whether something was still open at the end.
* `logicalLines` joins spliced lines without reading tokens.

Both lexers consume at least one character a step, so the length of the text is enough fuel.  In the
code the state of the line lexer is a dictionary of which at most one entry is set, which is what the
constructors of `LexState` say.
-/

set_option autoImplicit false

namespace FosCoverage

namespace CppLexer

open Text

/-! ## Characters and words -/

/-- First character of `IDENTIFIER`. -/
def isIdentStart (c : Char) : Bool := c.isAlpha || c == '_'

/-- Any further character of `IDENTIFIER`. -/
def isIdentChar (c : Char) : Bool := c.isAlphanum || c == '_'

/-- `[0-9A-Fa-f]` -/
def isHexDigit (c : Char) : Bool :=
  c.isDigit || ('a' ≤ c && c ≤ 'f') || ('A' ≤ c && c ≤ 'F')

/-- `RAW_PREFIXES` -/
def rawPrefixes : List (List Char) :=
  ["u8R\"".toList, "uR\"".toList, "UR\"".toList, "LR\"".toList, "R\"".toList]

/-- `_raw_prefix_at` -/
def rawPrefixAt (s : List Char) : Option (List Char) := rawPrefixes.find? fun p => p.isPrefixOf s

/-- The operators of more than one character. -/
def operators : List (List Char) :=
  ["::".toList, "->".toList, "++".toList, "--".toList, "&&".toList, "||".toList, "==".toList,
    "!=".toList, "<=".toList, ">=".toList, "+=".toList, "-=".toList, "*=".toList, "/=".toList,
    "<<".toList, ">>".toList, "##".toList, "...".toList, "?.".toList]

/-- A hexadecimal or decimal number at the start of the text. -/
def number (s : List Char) : Option (List Char × List Char) :=
  match s with
  | '0' :: x :: cs =>
    if (x == 'x' || x == 'X') && cs.head?.any isHexDigit then
      some ('0' :: x :: cs.takeWhile isHexDigit, cs.dropWhile isHexDigit)
    else decimal ('0' :: x :: cs)
  | _ => decimal s
where
  /-- `[0-9]+(?:\.[0-9]*)?` -/
  decimal (s : List Char) : Option (List Char × List Char) :=
    if s.head?.any Char.isDigit then
      match s.dropWhile Char.isDigit with
      | '.' :: cs => some (s.takeWhile Char.isDigit ++ '.' :: cs.takeWhile Char.isDigit,
          cs.dropWhile Char.isDigit)
      | rest => some (s.takeWhile Char.isDigit, rest)
    else none

/-- An identifier, a number or an operator at the start of the text. -/
def word (s : List Char) : Option (List Char × List Char) :=
  if s.head?.any isIdentStart then some (s.takeWhile isIdentChar, s.dropWhile isIdentChar)
  else match number s with
    | some w => some w
    | none => (operators.find? fun o => o.isPrefixOf s).map fun o => (o, s.drop o.length)

/-- The delimiter of a raw string and what follows the parenthesis, behind a raw prefix. -/
def rawDelimiter (s : List Char) : Option (List Char × List Char) :=
  match cut ['('] s with
  | some (delimiter, rest) =>
    if delimiter.length ≤ 16 ∧ !(delimiter.any fun c => isSpace c || c ∈ ['(', ')', '\\', '"']) then
      some (delimiter, rest)
    else none
  | none => none

/-- What ends a raw string. -/
def rawClosing (delimiter : List Char) : List Char := ')' :: delimiter ++ ['"']

/-! ## One piece of text -/

/-- The rest of a literal, up to its closing quote or the end of the text. -/
def literal (quote : Char) : List Char → List Char × List Char
  | [] => ([], [])
  | ['\\'] => (['\\'], [])
  | '\\' :: c :: cs => let (l, rest) := literal quote cs; ('\\' :: c :: l, rest)
  | c :: cs =>
    if c = quote then ([c], cs) else let (l, rest) := literal quote cs; (c :: l, rest)

/-- A raw string at the start of the text. -/
def rawString (s : List Char) : Option (List Char × List Char) := do
  let openPrefix ← rawPrefixAt s
  let (delimiter, body) ← rawDelimiter (s.drop openPrefix.length)
  let (content, rest) ← cut (rawClosing delimiter) body
  pure (openPrefix ++ delimiter ++ '(' :: content ++ rawClosing delimiter, rest)

/-- One step of `tokenize` at a character: a token or none, and the text behind. -/
def lexStep (c : Char) (cs : List Char) : Option (List Char) × List Char :=
  if isSpace c then (none, cs)
  else if ['/', '/'].isPrefixOf (c :: cs) then
    (none, ((cut ['\n'] (cs.drop 1)).map Prod.snd).getD [])
  else if ['/', '*'].isPrefixOf (c :: cs) then
    (none, ((cut ['*', '/'] (cs.drop 1)).map Prod.snd).getD [])
  else if c = '"' ∨ c = '\'' then
    let (l, rest) := literal c cs
    (some (c :: l), rest)
  else match rawString (c :: cs) with
    | some (token, rest) => (some token, rest)
    | none =>
      match word (c :: cs) with
      | some (token, rest) => (some token, rest)
      | none => (some [c], cs)

/-- The loop of `tokenize`. -/
def tokensWithin : Nat → List Char → List String
  | 0, _ => []
  | _ + 1, [] => []
  | fuel + 1, c :: cs =>
    let (token, rest) := lexStep c cs
    (token.map String.ofList).toList ++ tokensWithin fuel rest

/-- `text.replace("\\\n", "")` -/
def joinSplices : List Char → List Char
  | '\\' :: '\n' :: cs => joinSplices cs
  | c :: cs => c :: joinSplices cs
  | [] => []

/-- `tokenize` -/
def tokenize (text : List Char) : List String :=
  let text := joinSplices (newlines text)
  tokensWithin text.length text

/-! ## Logical lines -/

/-- `_has_line_splice`: an odd number of backslashes ends the line. -/
def hasLineSplice (line : List Char) : Bool :=
  (line.reverse.takeWhile fun c => c = '\\').length % 2 = 1

/-- `enumerate(…, n)` -/
def enumerate {α : Type} : Nat → List α → List (Nat × α)
  | _, [] => []
  | n, a :: as => (n, a) :: enumerate (n + 1) as

/-- One logical line: its text and the physical lines it was joined from, `start_line` to
`end_line`. -/
structure LogicalLine where
  /-- The numbers of the physical lines. -/
  lines : List Nat
  /-- The text. -/
  text : List Char
  deriving DecidableEq, Repr

/-- `start_line` -/
def LogicalLine.startLine (l : LogicalLine) : Nat := l.lines.headD 0

/-- The logical lines from one that has been read in part. -/
def logicalFrom (current : LogicalLine) : List (Nat × List Char) → List LogicalLine
  | [] => [current]
  | (n, line) :: lines =>
    if hasLineSplice current.text then
      logicalFrom ⟨current.lines ++ [n], current.text.dropLast ++ line⟩ lines
    else current :: logicalFrom ⟨[n], line⟩ lines

/-- `_logical_lines` of numbered lines. -/
def logicalLines : List (Nat × List Char) → List LogicalLine
  | [] => []
  | (n, line) :: lines => logicalFrom ⟨[n], line⟩ lines

/-! ## Line by line -/

/-- What is open between two physical lines. -/
inductive LexState
  /-- Nothing. -/
  | code
  /-- A block comment. -/
  | blockComment
  /-- A raw string with its delimiter, read so far. -/
  | raw (delimiter read : List Char)
  /-- A literal with its quote, read so far. -/
  | quote (mark : Char) (read : List Char)
  deriving DecidableEq, Repr

/-- What a step of the line lexer yields. -/
structure LineStep where
  /-- The token, if one was completed. -/
  token : Option (List Char)
  /-- The state behind it. -/
  state : LexState
  /-- The rest of the line. -/
  rest : List Char
  /-- The step was on the splice of the line. -/
  spliced : Bool

/-- One step in code. -/
def codeStep (spliced : Bool) (c : Char) (cs : List Char) : LineStep :=
  if isSpace c then ⟨none, .code, cs, false⟩
  else if ['/', '/'].isPrefixOf (c :: cs) then ⟨none, .code, [], false⟩
  else if ['/', '*'].isPrefixOf (c :: cs) then ⟨none, .blockComment, cs.drop 1, false⟩
  else match (rawPrefixAt (c :: cs)).bind fun openPrefix =>
      (rawDelimiter ((c :: cs).drop openPrefix.length)).map fun d => (openPrefix, d) with
    | some (openPrefix, delimiter, rest) =>
      ⟨none, .raw delimiter (openPrefix ++ delimiter ++ ['(']), rest, false⟩
    | none =>
      if c = '"' ∨ c = '\'' then ⟨none, .quote c [c], cs, false⟩
      else match word (c :: cs) with
        | some (token, rest) => ⟨some token, .code, rest, false⟩
        | none =>
          if c = '\\' ∧ cs = [] ∧ spliced then ⟨none, .code, [], true⟩
          else ⟨some [c], .code, cs, false⟩

/-- One step inside a literal.  The backslash of a splice is dropped. -/
def quoteStep (spliced : Bool) (mark : Char) (read : List Char) (c : Char) (cs : List Char) :
    LineStep :=
  if c = '\\' then
    match cs with
    | d :: rest => ⟨none, .quote mark (read ++ [c, d]), rest, false⟩
    | [] =>
      if spliced then ⟨none, .quote mark read, [], true⟩
      else ⟨none, .quote mark (read ++ [c]), [], false⟩
  else if c = mark then ⟨some (read ++ [c]), .code, cs, false⟩
  else ⟨none, .quote mark (read ++ [c]), cs, false⟩

/-- One step of `tokenize_lines` at a character of a line that ends in a splice or does not. -/
def lineStep (spliced : Bool) (c : Char) (cs : List Char) : LexState → LineStep
  | .blockComment =>
    match cut ['*', '/'] (c :: cs) with
    | some (_, rest) => ⟨none, .code, rest, false⟩
    | none => ⟨none, .blockComment, [], false⟩
  | .raw delimiter read =>
    match cut (rawClosing delimiter) (c :: cs) with
    | some (content, rest) =>
      ⟨some (read ++ content ++ rawClosing delimiter), .code, rest, false⟩
    | none => ⟨none, .raw delimiter (read ++ c :: cs), [], false⟩
  | .quote mark read => quoteStep spliced mark read c cs
  | .code => codeStep spliced c cs

/-- The tokens of one line, the state behind it, and whether its splice was read as one. -/
structure LexedLine where
  /-- The tokens. -/
  tokens : List String
  /-- The state behind the line. -/
  state : LexState
  /-- The line is in `last_line_splices`. -/
  spliced : Bool
  deriving DecidableEq, Repr

/-- The loop over one line. -/
def lexWithin (spliced : Bool) : Nat → LexState → List Char → LexedLine
  | 0, st, _ => ⟨[], st, false⟩
  | _ + 1, st, [] => ⟨[], st, false⟩
  | fuel + 1, st, c :: cs =>
    let step := lineStep spliced c cs st
    let lexed := lexWithin spliced fuel step.state step.rest
    ⟨(step.token.map String.ofList).toList ++ lexed.tokens, lexed.state,
      step.spliced || lexed.spliced⟩

/-- One physical line. -/
def lexLine (st : LexState) (line : List Char) : LexedLine :=
  lexWithin (hasLineSplice line) line.length st line

/-- `tokenize_lines` from a state on: every line with what it yields. -/
def lexLines : LexState → List (List Char) → List LexedLine
  | _, [] => []
  | st, line :: lines => lexLine st line :: lexLines (lexLine st line).state lines

/-- `tokenize_lines` -/
def tokenizeLines (lines : List (List Char)) : List LexedLine := lexLines .code lines

/-- `last_lines_uncertain`: something is open at the end. -/
def uncertain (lexed : List LexedLine) : Bool :=
  (lexed.getLast?.map LexedLine.state).getD .code ≠ .code

end CppLexer

end FosCoverage
