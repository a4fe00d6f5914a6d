import FosCoverage.Lib.Regex

/-!
# What the text of a source line is

The predicates of `app/code_detail/source_reader.py` that decide which uncovered lines form a block:
control flow, the entry of a function, a jump, and a statement that is simple enough to join the
lines before it.  They are regular expressions over the text of one line.
-/

set_option autoImplicit false

namespace FosCoverage.SourceReader

open Text Regex Regex.Pattern

variable (u : WordTable)

/-- One of some whole words. -/
def wordOf (names : List String) : Pattern := cat [boundary, oneOf (names.map lit), boundary]

/-- `CONTROL_FLOW_RE` -/
def controlFlowRe : Pattern :=
  wordOf ["if", "else", "for", "while", "do", "switch", "case", "default", "catch"]

/-- `is_control_flow_text` -/
def isControlFlowText (codeText : List Char) : Bool := search u controlFlowRe codeText

/-- `/\*.*?\*/` -/
def blockCommentRe : Pattern := cat [lit "/*", star true any, lit "*/"]

/-- `//.*$` -/
def lineCommentRe : Pattern := cat [lit "//", many any, stop]

/-- The two substitutions that leave the comments out of a text. -/
def withoutComments (codeText : List Char) : List Char :=
  strip (delete u lineCommentRe (strip (delete u blockCommentRe codeText)))

/-- `[A-Za-z_]` -/
def isLetter (c : Char) : Bool := c.isAlpha || c = '_'

/-- `[~A-Za-z_]\w*(?:<[^>]*>)?` -/
def nameRe : Pattern :=
  cat [char fun c => c = '~' || isLetter c, many (word u),
    opt (cat [lit "<", many (char (· ≠ '>')), lit ">"])]

/-- `\s*::\s*` -/
def scopeRe : Pattern := cat [many space, lit "::", many space]

/-- The group of the search for an operator. -/
def operatorRe : Pattern :=
  cat [many (cat [nameRe u, scopeRe]), lit "operator", many space,
    oneOf [lit "()", lit "[]", lit "->", lit "++", lit "--",
      many1 (char fun c => !isSpace c && c ≠ '(')]]

/-- The group of the search for a qualified name. -/
def qualifiedRe : Pattern := cat [nameRe u, many (cat [scopeRe, nameRe u])]

/-- The texts that are left out of a signature: attributes of three kinds, and what follows
`template` at its start. -/
def attributeRes : List Pattern :=
  [cat [lit "__attribute__", many space, lit "((", star true any, lit "))"],
    cat [lit "__declspec", many space, lit "(", many (char (· ≠ ')')), lit ")"],
    cat [lit "[[", star true any, lit "]]"]]

/-- `^template\s*<.*?>\s*` -/
def templateRe : Pattern :=
  cat [start, lit "template", many space, lit "<", star true any, lit ">", many space]

/-- The keywords that are no name of a function. -/
def keywords : List String :=
  ["if", "for", "while", "switch", "catch", "do", "return", "sizeof", "typeof", "alignas",
    "decltype", "static_assert", "typedef", "struct", "class", "enum", "union", "namespace",
    "using"]

/-- `extract_function_name_from_signature` -/
def extractFunctionNameFromSignature (sigText : List Char) : List Char :=
  let plain := strip (attributeRes.foldl (fun s r => delete u r s) (withoutComments u sigText))
  let sig := delete u templateRe plain
  match searchGroup u (operatorRe u) (cat [many space, lit "("]) sig with
  | some rawOp => rawOp.filter fun c => !isSpace c
  | none =>
    if '(' ∈ sig then
      let before := strip (sig.takeWhile (· ≠ '('))
      if before = [] then []
      else match searchGroup u (qualifiedRe u) (cat [many space, stop]) before with
        | some name =>
          let name := name.filter fun c => !isSpace c
          if String.ofList name ∈ keywords then [] else name
        | none => []
    else []

/-- `^(typedef|struct|enum|union|using|namespace|return)\b` -/
def declarationRe : Pattern :=
  cat [start,
    oneOf (["typedef", "struct", "enum", "union", "using", "namespace", "return"].map lit), boundary]

/-- `is_function_entry_text` -/
def isFunctionEntryText (codeText : List Char) : Bool :=
  let text := withoutComments u codeText
  if text = [] ∨ text.getLast? = some ';' ∨ isControlFlowText u text then false
  else if prefixMatch u declarationRe text then false
  else extractFunctionNameFromSignature u text ≠ []

/-- What is before the first `//` that is in no literal, if there is one.  The flags are
`in_single`, `in_double` and `escaped`. -/
def beforeComment (inSingle inDouble escaped : Bool) : List Char → Option (List Char)
  | [] => none
  | c :: cs =>
    let more := fun single double esc => (beforeComment single double esc cs).map (c :: ·)
    if escaped then more inSingle inDouble false
    else if c = '\\' then more inSingle inDouble true
    else if c = '\'' ∧ !inDouble then more (!inSingle) inDouble false
    else if c = '"' ∧ !inSingle then more inSingle (!inDouble) false
    else if !inSingle ∧ !inDouble ∧ c = '/' ∧ cs.head? = some '/' then some []
    else more inSingle inDouble false

/-- `strip_line_comment` -/
def stripLineComment (text : List Char) : List Char :=
  match beforeComment false false false text with
  | some s => rstrip s
  | none => text

/-- `is_jump_text` -/
def isJumpText (codeText : List Char) : Bool :=
  search u (wordOf ["return", "goto", "break", "continue", "throw"]) codeText

/-- `^[{}]+;?$` -/
def bracesRe : Pattern :=
  cat [start, many1 (char fun c => c = '\x7b' || c = '\x7d'), opt (lit ";"), stop]

/-- `[A-Za-z_]\w*` -/
def identifierRe : Pattern := cat [char isLetter, many (word u)]

/-- `^(case\b.*:|default\s*:|[A-Za-z_]\w*\s*:)$` -/
def labelRe : Pattern :=
  cat [start, oneOf [cat [lit "case", boundary, many any, lit ":"],
    cat [lit "default", many space, lit ":"], cat [identifierRe u, many space, lit ":"]], stop]

/-- `(^|[^=!<>])=([^=]|$)` -/
def assignRe : Pattern :=
  cat [oneOf [start, char fun c => c ∉ ['=', '!', '<', '>']], lit "=",
    oneOf [char (· ≠ '='), stop]]

/-- `(\+=|-=|\*=|/=|%=|&=|\|=|\^=|<<=|>>=)` -/
def updateRe : Pattern :=
  oneOf (["+=", "-=", "*=", "/=", "%=", "&=", "|=", "^=", "<<=", ">>="].map lit)

/-- The pattern of a declaration of one name. -/
def simpleDeclarationRe : Pattern :=
  cat [start,
    many1 (oneOf ((["const", "static", "volatile", "register", "unsigned", "signed"].map fun w =>
        cat [lit w, many1 space]) ++
      (["struct", "enum", "union"].map fun w =>
        cat [lit w, many1 space, many1 (word u), many1 space]) ++
      [cat [identifierRe u, many1 space]])),
    many (char fun c => c = '*' || isSpace c), identifierRe u,
    opt (cat [many space, lit "=", many space, many1 (char (· ≠ ';'))]), many space, lit ";", stop]

/-- `is_simple_auto_group_text` -/
def isSimpleAutoGroupText (codeText : List Char) : Bool :=
  let text := strip (delete u blockCommentRe (stripLineComment codeText))
  if text = [] ∨ isControlFlowText u text ∨ isFunctionEntryText u text ∨ isJumpText u text then
    false
  else if prefixMatch u bracesRe text ∨ prefixMatch u (labelRe u) text then false
  else if text.getLast? ≠ some ';' then false
  else
    search u assignRe text || search u updateRe text || prefixMatch u (simpleDeclarationRe u) text

example : isFunctionEntryText .asciiOnly "static int ns::get(int a) \x7b".toList = true ∧
    isSimpleAutoGroupText .asciiOnly "unsigned int *p = q;".toList = true ∧
    isSimpleAutoGroupText .asciiOnly "return x;".toList = false := by decide +kernel

end FosCoverage.SourceReader
