import FosCoverage.Lib.Text

/-!
# JSON values in a dynamic language

What `json.loads` returns, and what a program gets that treats such a value as a truth value, a
number, a text or something to iterate over.

* `Json.truthy`, `Json.toInt`, `Json.str` and `Json.iterate` are `bool`, `int`, `str` and `for`.
* `Json.get` and `Json.getD` read a key of an object.
* A float is opaque: `PyFloat` has what the four conversions make of it.

The entries of an object are those of the dictionary, in order; no two of them share a key.
`UnicodeTables` stands for the classes of characters the conversions of texts look up.
-/

set_option autoImplicit false

/-- Decimal digits and printable characters, of which only the ASCII part is spelled out. -/
structure UnicodeTables where
  /-- The value of a decimal digit. -/
  digit : Char → Option Nat
  /-- `str.isprintable` -/
  isPrintable : Char → Bool
  /-- The ASCII digits. -/
  digit_ascii : ∀ c, c.toNat < 128 → digit c = if c.isDigit then some (c.toNat - 48) else none
  /-- The ASCII characters without the control characters. -/
  printable_ascii : ∀ c, c.toNat < 128 → isPrintable c = decide (32 ≤ c.toNat ∧ c.toNat < 127)

/-- The smallest tables. -/
def UnicodeTables.asciiOnly : UnicodeTables where
  digit c := if c.isDigit then some (c.toNat - 48) else none
  isPrintable c := 32 ≤ c.toNat ∧ c.toNat < 127
  digit_ascii := fun _ _ => rfl
  printable_ascii := fun _ _ => rfl

/-- Why `int` refuses a value. -/
inductive NumberError
  /-- `TypeError` -/
  | typeError
  /-- `ValueError` -/
  | valueError
  /-- `OverflowError` -/
  | overflowError
  deriving DecidableEq, Repr

/-- A floating point number as the conversions see it. -/
structure PyFloat where
  /-- `str(f)` -/
  text : String
  /-- `bool(f)` -/
  nonzero : Bool
  /-- `int(f)`, which an infinity and a value that is no number do not have. -/
  whole : Except NumberError Int

/-- A value `json.loads` returns. -/
inductive Json
  /-- `None` -/
  | null
  /-- A truth value. -/
  | bool (b : Bool)
  /-- A whole number. -/
  | int (n : Int)
  /-- Another number. -/
  | float (f : PyFloat)
  /-- A text. -/
  | text (s : String)
  /-- A list. -/
  | array (items : List Json)
  /-- A dictionary. -/
  | object (entries : List (String × Json))

namespace Json

open Text

/-! ## Truth values, numbers, iteration -/

/-- `bool(value)` -/
def truthy : Json → Bool
  | null => false
  | bool b => b
  | int n => n ≠ 0
  | float f => f.nonzero
  | text s => s ≠ ""
  | array items => !items.isEmpty
  | object entries => !entries.isEmpty

/-- `value.get(key, default)` -/
def getD (entries : List (String × Json)) (key : String) (default : Json) : Json :=
  (entries.lookup key).getD default

/-- `value.get(key)` -/
def get (entries : List (String × Json)) (key : String) : Json := getD entries key null

/-- `a or b` -/
def or (a b : Json) : Json := if a.truthy then a else b

section Digits

variable (t : UnicodeTables)

/-- Digits with single underscores between them, behind digits of the value `value`; `afterDigit`
says whether the character before was one. -/
def digitsFrom : Nat → Bool → List Char → Option Nat
  | value, afterDigit, [] => if afterDigit then some value else none
  | value, afterDigit, c :: cs =>
    if c = '_' then (if afterDigit then digitsFrom value false cs else none)
    else (t.digit c).bind fun d => digitsFrom (10 * value + d) true cs

/-- `int(text)` -/
def intOfText (s : List Char) : Option Int :=
  match strip s with
  | '+' :: cs => (digitsFrom t 0 false cs).map fun n => (n : Int)
  | '-' :: cs => (digitsFrom t 0 false cs).map fun n => -(n : Int)
  | cs => (digitsFrom t 0 false cs).map fun n => (n : Int)

/-- `int(value)` -/
def toInt : Json → Except NumberError Int
  | null => .error .typeError
  | bool b => .ok (if b then 1 else 0)
  | int n => .ok n
  | float f => f.whole
  | text s =>
    match intOfText t s.toList with
    | some n => .ok n
    | none => .error .valueError
  | array _ => .error .typeError
  | object _ => .error .typeError

end Digits

/-- What a loop over the value runs through: the elements of a list, the characters of a text, the
keys of a dictionary. -/
def iterate : Json → Except NumberError (List Json)
  | text s => .ok (s.toList.map fun c => text (String.ofList [c]))
  | array items => .ok items
  | object entries => .ok (entries.map fun e => text e.1)
  | _ => .error .typeError

/-! ## Texts -/

section Repr

variable (t : UnicodeTables)

/-- A number in base 16 with at least `width` digits. -/
def hex (width n : Nat) : List Char :=
  List.replicate (width - (Nat.toDigits 16 n).length) '0' ++ Nat.toDigits 16 n

/-- A character of a text in quotes. -/
def reprChar (quote c : Char) : List Char :=
  if c = quote ∨ c = '\\' then ['\\', c]
  else if c = '\t' then ['\\', 't']
  else if c = '\n' then ['\\', 'n']
  else if c = '\r' then ['\\', 'r']
  else if t.isPrintable c then [c]
  else if c.toNat < 256 then '\\' :: 'x' :: hex 2 c.toNat
  else if c.toNat < 65536 then '\\' :: 'u' :: hex 4 c.toNat
  else '\\' :: 'U' :: hex 8 c.toNat

/-- `repr(text)`.  A text with single quotes but no double ones stands in double quotes. -/
def reprText (s : String) : String :=
  let quote := if s.toList.contains '\'' && !s.toList.contains '"' then '"' else '\''
  String.ofList (quote :: s.toList.flatMap (reprChar t quote) ++ [quote])

mutual

/-- `repr(value)` -/
def repr : Json → String
  | null => "None"
  | bool b => if b then "True" else "False"
  | int n => toString n
  | float f => f.text
  | text s => reprText t s
  | array items => "[" ++ ", ".intercalate (reprItems items) ++ "]"
  | object entries => "\x7b" ++ ", ".intercalate (reprEntries entries) ++ "\x7d"

/-- The elements of a list. -/
def reprItems : List Json → List String
  | [] => []
  | item :: items => repr item :: reprItems items

/-- The entries of a dictionary. -/
def reprEntries : List (String × Json) → List String
  | [] => []
  | (key, value) :: entries => (reprText t key ++ ": " ++ repr value) :: reprEntries entries

end

/-- `str(value)` -/
def str : Json → String
  | text s => s
  | value => value.repr t

end Repr

end Json
