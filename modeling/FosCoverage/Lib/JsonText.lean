import Mathlib.Data.Char
import Mathlib.Data.List.Lex
import Mathlib.Data.List.Sort
import FosCoverage.Lib.Json
import FosCoverage.Lib.Table

/-!
# JSON as text

`json.dumps` with `sort_keys` and the separators `,` and `:`, and `json.loads`.

* `Json.dumps` writes ASCII: every other character is escaped, one outside of the basic plane as a
  pair of surrogates (`escapeChar`).
* `JsonText.loads` reads a value with white space around it and nothing behind it.  A key that is
  repeated has its last value, at the place of its first.  The reader is followed for a number of
  calls that the length of the text suffices for, since each of them takes a character.
* A text with half a pair of surrogates is refused; it has no characters here.
* `Reads` says that a text is a value wherever it stands, and `Reads.int`, `Reads.text` and
  `Reads.object` that of what `dumps` writes.

`floats` makes a number out of the text of a number that is not whole.
-/

set_option autoImplicit false

/-! ## Writing -/

namespace JsonText

/-- The characters with a letter of their own behind the backslash, as they are written. -/
def shortEscapes : List (Char × Char) :=
  [('"', '"'), ('\\', '\\'), ('\n', 'n'), ('\r', 'r'), ('\t', 't'), ('\x0c', 'f'), ('\x08', 'b')]

/-- Four digits in base 16 behind `\u`. -/
def escapeUnit (n : Nat) : List Char :=
  ['\\', 'u', Nat.digitChar (n / 4096 % 16), Nat.digitChar (n / 256 % 16),
    Nat.digitChar (n / 16 % 16), Nat.digitChar (n % 16)]

/-- The two surrogates of a character outside of the basic plane. -/
def surrogates (n : Nat) : Nat × Nat :=
  (0xD800 + (n - 0x10000) / 1024, 0xDC00 + (n - 0x10000) % 1024)

/-- A character of a text. -/
def escapeChar (c : Char) : List Char :=
  match shortEscapes.lookup c with
  | some letter => ['\\', letter]
  | none =>
    if 32 ≤ c.toNat ∧ c.toNat ≤ 126 then [c]
    else if c.toNat < 0x10000 then escapeUnit c.toNat
    else escapeUnit (surrogates c.toNat).1 ++ escapeUnit (surrogates c.toNat).2

/-- A text in quotes. -/
def quoted (s : List Char) : List Char := '"' :: s.flatMap escapeChar ++ ['"']

/-- A whole number. -/
def decimal (n : Int) : List Char :=
  if n < 0 then '-' :: Nat.toDigits 10 n.natAbs else Nat.toDigits 10 n.natAbs

/-- A number that is not whole, or no number. -/
def floatText (text : String) : String :=
  ([("nan", "NaN"), ("inf", "Infinity"), ("-inf", "-Infinity")].lookup text).getD text

/-- Parts with commas between them. -/
def commas : List (List Char) → List Char
  | [] => []
  | [p] => p
  | p :: q :: ps => p ++ ',' :: commas (q :: ps)

/-- The entries of an object in the order of their keys. -/
def sortKeys {β : Type} (entries : List (String × β)) : List (String × β) :=
  entries.insertionSort fun a b => a.1.toList ≤ b.1.toList

end JsonText

namespace Json

open JsonText

mutual

/-- `json.dumps(value, sort_keys=True, separators=(",", ":"))` -/
def dumps : Json → List Char
  | null => "null".toList
  | bool b => if b then "true".toList else "false".toList
  | int n => decimal n
  | float f => (floatText f.text).toList
  | text s => quoted s.toList
  | array items => '[' :: commas (dumpItems items) ++ [']']
  | object entries =>
    '\x7b' :: commas ((sortKeys (dumpEntries entries)).map fun e =>
      quoted e.1.toList ++ ':' :: e.2) ++ ['\x7d']

/-- The elements of a list. -/
def dumpItems : List Json → List (List Char)
  | [] => []
  | item :: items => dumps item :: dumpItems items

/-- The values of a dictionary, each with its key. -/
def dumpEntries : List (String × Json) → List (String × List Char)
  | [] => []
  | (key, value) :: entries => (key, dumps value) :: dumpEntries entries

end

theorem dumpEntries_eq_map (entries : List (String × Json)) :
    dumpEntries entries = entries.map fun e => (e.1, dumps e.2) := by
  induction entries with
  | nil => rfl
  | cons e entries ih => rw [dumpEntries, ih, List.map_cons]

end Json

namespace JsonText

/-! ## Reading texts -/

/-- White space between the tokens. -/
def isSpace (c : Char) : Bool := c == ' ' || c == '\t' || c == '\n' || c == '\r'

/-- The text behind the white space. -/
def skipSpace (cs : List Char) : List Char := cs.dropWhile isSpace

/-- The value of a digit in base 16. -/
def hexDigit (c : Char) : Option Nat :=
  if c.isDigit then some (c.toNat - 48)
  else if 97 ≤ c.toNat ∧ c.toNat ≤ 102 then some (c.toNat - 87)
  else if 65 ≤ c.toNat ∧ c.toNat ≤ 70 then some (c.toNat - 55)
  else none

/-- Four digits in base 16. -/
def hexUnit (a b c d : Char) : Option Nat := do
  let a ← hexDigit a
  let b ← hexDigit b
  let c ← hexDigit c
  let d ← hexDigit d
  pure (((a * 16 + b) * 16 + c) * 16 + d)

/-- What the letter behind a backslash stands for. -/
def unescape (e : Char) : Option Nat :=
  if e = '/' then some 47
  else (shortEscapes.find? fun p => p.2 = e).map fun p => p.1.toNat

/-- The code units of a text up to its closing quote, and what is behind it. -/
def units : List Char → Option (List Nat × List Char)
  | [] => none
  | c :: cs =>
    if c = '"' then some ([], cs)
    else if c = '\\' then
      match cs with
      | [] => none
      | e :: cs =>
        if e = 'u' then
          match cs with
          | h₁ :: h₂ :: h₃ :: h₄ :: cs => do
            let u ← hexUnit h₁ h₂ h₃ h₄
            let (us, rest) ← units cs
            pure (u :: us, rest)
          | _ => none
        else do
          let u ← unescape e
          let (us, rest) ← units cs
          pure (u :: us, rest)
    else if c.toNat < 32 then none
    else do
      let (us, rest) ← units cs
      pure (c.toNat :: us, rest)

/-- The first half of a pair. -/
def isHigh (u : Nat) : Bool := 0xD800 ≤ u && u < 0xDC00

/-- The second half of a pair. -/
def isLow (u : Nat) : Bool := 0xDC00 ≤ u && u < 0xE000

/-- The characters of the code units; `none` when half of a pair is missing. -/
def joinUnits : List Nat → Option (List Char)
  | [] => some []
  | u :: us =>
    if isHigh u then
      match us with
      | [] => none
      | v :: us =>
        if isLow v then
          (joinUnits us).map
            (Char.ofNat (0x10000 + (u - 0xD800) * 1024 + (v - 0xDC00)) :: ·)
        else none
    else if isLow u then none
    else (joinUnits us).map (Char.ofNat u :: ·)

/-- A text behind its opening quote. -/
def string (cs : List Char) : Option (String × List Char) := do
  let (us, rest) ← units cs
  let cs ← joinUnits us
  pure (String.ofList cs, rest)

/-! ## Reading numbers -/

/-- A sign and the digits of a whole number; a leading zero is the only digit. -/
def whole (cs : List Char) : Option (List Char × List Char) :=
  match cs with
  | [] => none
  | c :: rest =>
    if c = '0' then some (['0'], rest)
    else if c.isDigit then some (cs.takeWhile Char.isDigit, cs.dropWhile Char.isDigit)
    else none

/-- The fraction of a number, which is no fraction without a digit. -/
def fraction : List Char → List Char × List Char
  | '.' :: cs =>
    if cs.takeWhile Char.isDigit = [] then ([], '.' :: cs)
    else ('.' :: cs.takeWhile Char.isDigit, cs.dropWhile Char.isDigit)
  | cs => ([], cs)

/-- The exponent of a number, which is none without a digit. -/
def exponent : List Char → List Char × List Char
  | [] => ([], [])
  | e :: cs =>
    if e = 'e' ∨ e = 'E' then
      let signed := cs.takeWhile fun c => c = '+' ∨ c = '-'
      let sign := signed.take 1
      let digits := cs.drop sign.length
      if digits.takeWhile Char.isDigit = [] then ([], e :: cs)
      else (e :: sign ++ digits.takeWhile Char.isDigit, digits.dropWhile Char.isDigit)
    else ([], e :: cs)

variable (floats : List Char → PyFloat)

/-- A number without its sign; `negative` says that there was one. -/
def unsigned (negative : Bool) (cs : List Char) : Option (Json × List Char) := do
  let (digits, cs) ← whole cs
  let (frac, cs) := fraction cs
  let (exp, cs) := exponent cs
  let sign := if negative then ['-'] else []
  if frac = [] ∧ exp = [] then
    let n := Nat.ofDigitChars 10 digits 0
    pure (.int (if negative then -(n : Int) else n), cs)
  else pure (.float (floats (sign ++ digits ++ frac ++ exp)), cs)

/-- The words that are values. -/
def words : List (List Char × Json) :=
  [("null".toList, .null), ("true".toList, .bool true), ("false".toList, .bool false),
    ("NaN".toList, .float (floats "NaN".toList)),
    ("Infinity".toList, .float (floats "Infinity".toList)),
    ("-Infinity".toList, .float (floats "-Infinity".toList))]

/-- A word or a number. -/
def scalar (cs : List Char) : Option (Json × List Char) :=
  match (words floats).find? fun w => w.1.isPrefixOf cs with
  | some w => some (w.2, cs.drop w.1.length)
  | none =>
    match cs with
    | '-' :: cs => unsigned floats true cs
    | cs => unsigned floats false cs

/-! ## Reading values -/

/-- `entries[key] = value` of a dictionary. -/
def setEntry (entries : List (String × Json)) (key : String) (value : Json) :
    List (String × Json) :=
  if entries.any fun e => e.1 = key then
    entries.map fun e => if e.1 = key then (key, value) else e
  else entries ++ [(key, value)]

mutual

/-- A value, and what is behind it. -/
def value : Nat → List Char → Option (Json × List Char)
  | 0, _ => none
  | fuel + 1, cs =>
    match cs with
    | [] => none
    | c :: rest =>
      if c = '"' then (string rest).map fun r => (.text r.1, r.2)
      else if c = '\x7b' then
        match skipSpace rest with
        | '\x7d' :: rest => some (.object [], rest)
        | rest => (members fuel [] rest).map fun r => (.object r.1, r.2)
      else if c = '[' then
        match skipSpace rest with
        | ']' :: rest => some (.array [], rest)
        | rest => (items fuel [] rest).map fun r => (.array r.1, r.2)
      else scalar floats cs

/-- The entries of an object up to its end; some are read already. -/
def members : Nat → List (String × Json) → List Char →
    Option (List (String × Json) × List Char)
  | 0, _, _ => none
  | fuel + 1, entries, cs =>
    match cs with
    | '"' :: cs => do
      let (key, cs) ← string cs
      match skipSpace cs with
      | ':' :: cs => do
        let (v, cs) ← value fuel (skipSpace cs)
        match skipSpace cs with
        | '\x7d' :: rest => pure (setEntry entries key v, rest)
        | ',' :: cs => members fuel (setEntry entries key v) (skipSpace cs)
        | _ => none
      | _ => none
    | _ => none

/-- The elements of a list up to its end; some are read already. -/
def items : Nat → List Json → List Char → Option (List Json × List Char)
  | 0, _, _ => none
  | fuel + 1, read, cs => do
    let (v, cs) ← value fuel cs
    match skipSpace cs with
    | ']' :: rest => pure (read ++ [v], rest)
    | ',' :: cs => items fuel (read ++ [v]) (skipSpace cs)
    | _ => none

end

/-- `json.loads` -/
def loads (s : List Char) : Option Json :=
  if s.head? = some '\ufeff' then none
  else do
    let (v, rest) ← value floats (s.length + 1) (skipSpace s)
    if skipSpace rest = [] then pure v else none

/-! ## What is written is read: texts -/

theorem units_quote (rest : List Char) : units ('"' :: rest) = some ([], rest) := by
  rw [units.eq_def]
  rfl

theorem units_plain {c : Char} (hquote : c ≠ '"') (hslash : c ≠ '\\') (hc : 32 ≤ c.toNat)
    (cs : List Char) : units (c :: cs) = (units cs).map fun r => (c.toNat :: r.1, r.2) := by
  rw [units.eq_def]
  simp only [if_neg hquote, if_neg hslash, if_neg (Nat.not_lt.2 hc), Option.bind_eq_bind]
  cases units cs with
  | none => rfl
  | some r => rfl

theorem units_letter {e : Char} {u : Nat} (he : e ≠ 'u') (hu : unescape e = some u)
    (cs : List Char) : units ('\\' :: e :: cs) = (units cs).map fun r => (u :: r.1, r.2) := by
  rw [units.eq_def]
  simp only [if_neg (show ('\\' : Char) ≠ '"' by decide), if_true, if_neg he, hu,
    Option.bind_eq_bind, Option.bind_some]
  cases units cs with
  | none => rfl
  | some r => rfl

theorem hexDigit_digitChar : ∀ n < 16, hexDigit (Nat.digitChar n) = some n := by decide

theorem units_escapeUnit {n : Nat} (hn : n < 0x10000) (cs : List Char) :
    units (escapeUnit n ++ cs) = (units cs).map fun r => (n :: r.1, r.2) := by
  have hunit : hexUnit (Nat.digitChar (n / 4096 % 16)) (Nat.digitChar (n / 256 % 16))
      (Nat.digitChar (n / 16 % 16)) (Nat.digitChar (n % 16)) = some n := by
    simp only [hexUnit, hexDigit_digitChar _ (Nat.mod_lt _ (by decide : 0 < 16)),
      Option.bind_eq_bind, Option.bind_some, Option.pure_def, Option.some.injEq]
    omega
  simp only [escapeUnit, List.cons_append, List.nil_append]
  rw [units.eq_def]
  simp only [if_neg (show ('\\' : Char) ≠ '"' by decide), if_true, hunit, Option.bind_eq_bind,
    Option.bind_some]
  cases units cs with
  | none => rfl
  | some r => rfl

/-- The code units of a character. -/
def codeUnits (c : Char) : List Nat :=
  if c.toNat < 0x10000 then [c.toNat] else [(surrogates c.toNat).1, (surrogates c.toNat).2]

theorem unescape_shortEscapes : ∀ p ∈ shortEscapes,
    p.2 ≠ 'u' ∧ unescape p.2 = some p.1.toNat ∧ p.1.toNat < 0x10000 := by decide

theorem toNat_lt_max (c : Char) : c.toNat < 0x110000 := by
  rcases c.valid with h | h
  · exact Nat.lt_trans h (by decide)
  · exact h.2

/-- A character is read as its code units. -/
theorem units_escapeChar (c : Char) (cs : List Char) :
    units (escapeChar c ++ cs) = (units cs).map fun r => (codeUnits c ++ r.1, r.2) := by
  unfold escapeChar codeUnits
  split
  · rename_i letter hl
    obtain ⟨hu, hletter, hsmall⟩ := unescape_shortEscapes _ (Relational.mem_of_lookup hl)
    rw [List.cons_append, List.cons_append, List.nil_append, units_letter hu hletter,
      if_pos hsmall]
    rfl
  · rename_i hl
    split
    · rename_i hprint
      have hquote : c ≠ '"' := by
        rintro rfl
        exact absurd hl (by decide)
      have hslash : c ≠ '\\' := by
        rintro rfl
        exact absurd hl (by decide)
      rw [List.cons_append, List.nil_append, units_plain hquote hslash hprint.1,
        if_pos (by omega)]
      rfl
    · split
      · rename_i hsmall
        rw [units_escapeUnit hsmall]
        rfl
      · have hmax := toNat_lt_max c
        rw [List.append_assoc, units_escapeUnit (by simp only [surrogates]; omega),
          units_escapeUnit (by simp only [surrogates]; omega), Option.map_map]
        rfl

theorem units_escaped (s rest : List Char) :
    units (s.flatMap escapeChar ++ '"' :: rest) = some (s.flatMap codeUnits, rest) := by
  induction s with
  | nil => exact units_quote rest
  | cons c s ih =>
    rw [List.flatMap_cons, List.append_assoc, units_escapeChar, ih]
    rfl

/-- A character of the basic plane is no half of a pair. -/
theorem not_surrogate (c : Char) : isHigh c.toNat = false ∧ isLow c.toNat = false := by
  have hvalid : c.toNat < 0xD800 ∨ (0xDFFF < c.toNat ∧ c.toNat < 0x110000) := c.valid
  simp only [isHigh, isLow, Bool.and_eq_false_iff, decide_eq_false_iff_not]
  omega

/-- The code units of a text are joined to its characters. -/
theorem joinUnits_codeUnits (s : List Char) : joinUnits (s.flatMap codeUnits) = some s := by
  induction s with
  | nil => rfl
  | cons c s ih =>
    rw [List.flatMap_cons, codeUnits]
    split
    · rw [List.cons_append, List.nil_append, joinUnits.eq_def]
      simp only [(not_surrogate c).1, (not_surrogate c).2, Bool.false_eq_true, if_false, ih,
        Option.map_some, Char.ofNat_toNat]
    · have hmax := toNat_lt_max c
      have hhigh : isHigh (surrogates c.toNat).1 = true := by
        rw [isHigh, surrogates, Bool.and_eq_true, decide_eq_true_eq, decide_eq_true_eq]
        omega
      have hlow : isLow (surrogates c.toNat).2 = true := by
        rw [isLow, surrogates, Bool.and_eq_true, decide_eq_true_eq, decide_eq_true_eq]
        omega
      have hjoin : 0x10000 + ((surrogates c.toNat).1 - 0xD800) * 1024 +
          ((surrogates c.toNat).2 - 0xDC00) = c.toNat := by
        simp only [surrogates]
        omega
      rw [List.cons_append, List.cons_append, List.nil_append, joinUnits.eq_def]
      simp only [hhigh, hlow, if_true, hjoin, ih, Option.map_some, Char.ofNat_toNat]

theorem string_quoted (s : String) (rest : List Char) :
    string (s.toList.flatMap escapeChar ++ '"' :: rest) = some (s, rest) := by
  rw [string, units_escaped]
  simp only [Option.bind_eq_bind, Option.bind_some, joinUnits_codeUnits, Option.pure_def,
    String.ofList_toList]

/-! ## What is written is read: numbers -/

/-- Nothing a number goes on with. -/
def Ended (rest : List Char) : Prop :=
  ∀ c ∈ rest.head?, c.isDigit = false ∧ c ≠ '.' ∧ c ≠ 'e' ∧ c ≠ 'E'

theorem Ended.nil : Ended [] := fun _ h => nomatch h

theorem Ended.cons {c : Char} (hd : c.isDigit = false) (hc : c ≠ '.' ∧ c ≠ 'e' ∧ c ≠ 'E')
    (cs : List Char) : Ended (c :: cs) := by
  rintro _ ⟨⟩
  exact ⟨hd, hc⟩

/-- A number that is not zero has no leading zero. -/
theorem head_toDigits {n : Nat} (hn : n ≠ 0) :
    ∃ c cs, Nat.toDigits 10 n = c :: cs ∧ c ≠ '0' := by
  induction n using Nat.strong_induction_on with
  | _ n ih =>
    rcases Nat.lt_or_ge n 10 with hlt | hge
    · have hdigit : ∀ d < 10, d ≠ 0 → Nat.digitChar d ≠ '0' := by decide
      exact ⟨_, [], Nat.toDigits_of_lt_base hlt, hdigit n hlt hn⟩
    · obtain ⟨c, cs, hcs, hc⟩ := ih (n / 10) (by omega) (by omega)
      refine ⟨c, cs ++ [(n % 10).digitChar], ?_, hc⟩
      rw [Nat.toDigits_of_base_le (by decide) hge, hcs, List.cons_append]

theorem isDigit_toDigits {n : Nat} {c : Char} (h : c ∈ Nat.toDigits 10 n) : c.isDigit = true :=
  Nat.isDigit_of_mem_toDigits (by decide) (by decide) h

section Numbers

variable {rest : List Char} (h : Ended rest)

include h

theorem takeWhile_digits : rest.takeWhile Char.isDigit = [] := by
  cases rest with
  | nil => rfl
  | cons c cs => rw [List.takeWhile_cons_of_neg (by simp [(h c rfl).1])]

theorem dropWhile_digits : rest.dropWhile Char.isDigit = rest := by
  cases rest with
  | nil => rfl
  | cons c cs => rw [List.dropWhile_cons_of_neg (by simp [(h c rfl).1])]

theorem whole_toDigits (n : Nat) :
    whole (Nat.toDigits 10 n ++ rest) = some (Nat.toDigits 10 n, rest) := by
  by_cases hn : n = 0
  · subst hn
    rfl
  · obtain ⟨c, cs, hcs, hc⟩ := head_toDigits hn
    have hall : ∀ d ∈ c :: cs, d.isDigit = true := by
      rw [← hcs]
      exact fun d => isDigit_toDigits
    have htake : ((c :: cs) ++ rest).takeWhile Char.isDigit = c :: cs := by
      rw [List.takeWhile_append_of_pos hall, takeWhile_digits h, List.append_nil]
    have hdrop : ((c :: cs) ++ rest).dropWhile Char.isDigit = rest := by
      rw [List.dropWhile_append_of_pos hall, dropWhile_digits h]
    rw [List.cons_append] at htake hdrop
    rw [hcs, List.cons_append, whole, if_neg hc, if_pos (hall c List.mem_cons_self), htake, hdrop]

theorem fraction_ended : fraction rest = ([], rest) := by
  unfold fraction
  split
  · exact absurd rfl (h '.' rfl).2.1
  · rfl

theorem exponent_ended : exponent rest = ([], rest) := by
  cases rest with
  | nil => rfl
  | cons c cs =>
    rw [exponent, if_neg]
    exact not_or.2 (h c rfl).2.2

variable (floats : List Char → PyFloat)

theorem unsigned_toDigits (negative : Bool) (n : Nat) :
    unsigned floats negative (Nat.toDigits 10 n ++ rest) =
      some (.int (if negative then -(n : Int) else n), rest) := by
  rw [unsigned, whole_toDigits h]
  simp only [Option.bind_eq_bind, Option.bind_some, fraction_ended h, exponent_ended h, and_self,
    if_true, Nat.ofDigitChars_ten_toDigits, Option.pure_def]

omit h in
/-- No word begins like a number. -/
theorem words_head : ∀ w ∈ words floats,
    ∃ c d cs, w.1 = c :: d :: cs ∧ c.isDigit = false ∧ (c = '-' → d.isDigit = false) := by
  intro w hw
  simp only [words, List.mem_cons, List.not_mem_nil, or_false] at hw
  rcases hw with rfl | rfl | rfl | rfl | rfl | rfl
  · exact ⟨'n', 'u', _, rfl, by decide, by decide⟩
  · exact ⟨'t', 'r', _, rfl, by decide, by decide⟩
  · exact ⟨'f', 'a', _, rfl, by decide, by decide⟩
  · exact ⟨'N', 'a', _, rfl, by decide, by decide⟩
  · exact ⟨'I', 'n', _, rfl, by decide, by decide⟩
  · exact ⟨'-', 'I', _, rfl, by decide, by decide⟩

omit h in
theorem find?_words (c : Char) (cs : List Char)
    (hc : c.isDigit = true ∨ c = '-' ∧ ∀ d ∈ cs.head?, d.isDigit = true) :
    ((words floats).find? fun w => w.1.isPrefixOf (c :: cs)) = none := by
  rw [List.find?_eq_none]
  intro w hw hpre
  obtain ⟨a, b, tail, hw, ha, hb⟩ := words_head floats w hw
  rw [hw, List.isPrefixOf_iff_prefix, List.cons_prefix_cons] at hpre
  obtain ⟨rfl, hpre⟩ := hpre
  rcases hc with hc | ⟨hc, hd⟩
  · exact absurd hc (by simp [ha])
  · obtain ⟨t, rfl⟩ := hpre
    exact absurd (hd b rfl) (by simp [hb hc])

theorem scalar_decimal (n : Int) : scalar floats (decimal n ++ rest) = some (.int n, rest) := by
  obtain ⟨c, cs, hcs⟩ := List.exists_cons_of_ne_nil (Nat.toDigits_ne_nil (n := n.natAbs) (b := 10))
  have hdigit : c.isDigit = true := isDigit_toDigits (n := n.natAbs) (by rw [hcs]; simp)
  unfold decimal
  split
  · rename_i hn
    have hfind := find?_words floats '-' (Nat.toDigits 10 n.natAbs ++ rest)
      (.inr ⟨rfl, by rw [hcs]; rintro _ ⟨⟩; exact hdigit⟩)
    have hn : -(n.natAbs : Int) = n := by omega
    rw [List.cons_append, scalar, hfind]
    simp only [unsigned_toDigits h, if_true, hn]
  · rename_i hn
    have hfind := find?_words floats c (cs ++ rest) (.inl hdigit)
    have hval := unsigned_toDigits h floats false n.natAbs
    rw [hcs, List.cons_append] at hval ⊢
    have hminus : c ≠ '-' := by
      rintro rfl
      exact absurd hdigit (by decide)
    have hn : (n.natAbs : Int) = n := by omega
    unfold scalar
    simp only [hfind]
    split
    · rename_i hcons
      exact absurd (List.cons.inj hcons).1 hminus
    · rw [hval, if_neg (by decide), hn]

end Numbers

/-! ## What is written is read: values -/

variable {floats}

/-- The text is the value wherever it stands. -/
structure Reads (floats : List Char → PyFloat) (v : Json) (s : List Char) : Prop where
  /-- The text begins with a character that is neither white space nor a byte order mark. -/
  starts : ∃ c cs, s = c :: cs ∧ isSpace c = false ∧ c ≠ '\ufeff'
  /-- The value is read off the text. -/
  value : ∀ fuel rest, s.length < fuel → Ended rest →
    value floats fuel (s ++ rest) = some (v, rest)

/-- No white space stands before the text. -/
theorem Reads.skipSpace {v : Json} {s : List Char} (h : Reads floats v s) (rest : List Char) :
    skipSpace (s ++ rest) = s ++ rest := by
  obtain ⟨c, cs, rfl, hc, -⟩ := h.starts
  rw [JsonText.skipSpace, List.cons_append, List.dropWhile_cons_of_neg (by simp [hc])]

/-- **A document that is a value.** -/
theorem Reads.loads {v : Json} {s : List Char} (h : Reads floats v s) :
    loads floats s = some v := by
  have hread := h.value (s.length + 1) [] (Nat.lt_succ_self _) Ended.nil
  have hskip := h.skipSpace []
  obtain ⟨c, cs, rfl, -, hc⟩ := h.starts
  rw [List.append_nil] at hread hskip
  rw [JsonText.loads, if_neg (by simpa using hc), hskip, hread]
  rfl

theorem Reads.text (s : String) : Reads floats (.text s) (quoted s.toList) where
  starts := ⟨'"', _, rfl, by decide, by decide⟩
  value := by
    intro fuel rest hfuel _
    obtain ⟨fuel, rfl⟩ : ∃ f, fuel = f + 1 := ⟨fuel - 1, by omega⟩
    rw [quoted, List.cons_append, List.cons_append, List.append_assoc, List.cons_append,
      List.nil_append, JsonText.value]
    simp only [if_true, string_quoted, Option.map_some]

theorem Reads.int (n : Int) : Reads floats (.int n) (decimal n) := by
  obtain ⟨c, cs, hcs⟩ := List.exists_cons_of_ne_nil (Nat.toDigits_ne_nil (n := n.natAbs) (b := 10))
  have hdigit : c.isDigit = true := isDigit_toDigits (n := n.natAbs) (by rw [hcs]; simp)
  obtain ⟨a, as, ha, hstart⟩ : ∃ a as, decimal n = a :: as ∧ (a = '-' ∨ a.isDigit = true) := by
    unfold decimal
    split
    · exact ⟨'-', _, rfl, .inl rfl⟩
    · exact ⟨c, cs, hcs, .inr hdigit⟩
  have hne : ∀ b : Char, b ≠ '-' → b.isDigit = false → a ≠ b := by
    rintro b hb hd rfl
    rcases hstart with rfl | hstart
    · exact hb rfl
    · exact absurd hstart (by simp [hd])
  constructor
  case starts =>
    refine ⟨a, as, ha, ?_, hne _ (by decide) (by decide)⟩
    simp [isSpace, hne _ (show (' ' : Char) ≠ '-' by decide) (by decide),
      hne _ (show ('\t' : Char) ≠ '-' by decide) (by decide),
      hne _ (show ('\n' : Char) ≠ '-' by decide) (by decide),
      hne _ (show ('\r' : Char) ≠ '-' by decide) (by decide)]
  case value =>
    intro fuel rest hfuel hrest
    obtain ⟨fuel, rfl⟩ : ∃ f, fuel = f + 1 := ⟨fuel - 1, by omega⟩
    have hscalar := scalar_decimal hrest floats n
    rw [ha, List.cons_append] at hscalar ⊢
    rw [JsonText.value]
    simp only [if_neg (hne '"' (by decide) (by decide)), if_neg (hne '\x7b' (by decide) (by decide)),
      if_neg (hne '[' (by decide) (by decide)), hscalar]

/-! ## What is written is read: objects -/

theorem skipSpace_cons {c : Char} (hc : isSpace c = false) (cs : List Char) :
    skipSpace (c :: cs) = c :: cs := by
  rw [skipSpace, List.dropWhile_cons_of_neg (by simp [hc])]

/-- A key that is not there is added. -/
theorem setEntry_of_not_mem {entries : List (String × Json)} {key : String}
    (h : key ∉ entries.map Prod.fst) (v : Json) :
    setEntry entries key v = entries ++ [(key, v)] := by
  rw [setEntry, if_neg]
  rintro hany
  obtain ⟨e, he, hkey⟩ := List.any_eq_true.1 hany
  exact h (List.mem_map.2 ⟨e, he, by simpa using hkey⟩)

/-- An entry of an object. -/
def entry (e : String × Json) : List Char := quoted e.1.toList ++ ':' :: e.2.dumps

/-- One entry is read. -/
theorem members_entry {fuel : Nat} {e : String × Json} (hr : Reads floats e.2 e.2.dumps)
    (hfuel : (entry e).length ≤ fuel) (entries : List (String × Json)) {c : Char}
    (hc : isSpace c = false) {rest : List Char} (hended : Ended (c :: rest)) :
    members floats (fuel + 1) entries (entry e ++ c :: rest) =
      match c :: rest with
      | '\x7d' :: rest => some (setEntry entries e.1 e.2, rest)
      | ',' :: cs => members floats fuel (setEntry entries e.1 e.2) (skipSpace cs)
      | _ => none := by
  have hlen : e.2.dumps.length < fuel := by
    simp only [entry, quoted, List.length_append, List.length_cons, List.cons_append] at hfuel
    omega
  have hval := hr.value fuel (c :: rest) hlen hended
  rw [entry, quoted]
  simp only [List.cons_append, List.append_assoc, List.nil_append]
  rw [members]
  simp only [string_quoted, Option.bind_eq_bind, Option.bind_some,
    skipSpace_cons (show isSpace ':' = false by decide), hr.skipSpace, hval, skipSpace_cons hc]
  split <;> rfl

/-- The entries of an object are read up to its end. -/
theorem members_commas {e : String × Json} {es entries : List (String × Json)} {fuel : Nat}
    (hr : ∀ x ∈ e :: es, Reads floats x.2 x.2.dumps)
    (hn : (entries.map Prod.fst ++ (e :: es).map Prod.fst).Nodup)
    (hfuel : (commas ((e :: es).map entry)).length < fuel) (rest : List Char) :
    members floats fuel entries (commas ((e :: es).map entry) ++ '\x7d' :: rest) =
      some (entries ++ e :: es, rest) := by
  induction es generalizing e entries fuel with
  | nil =>
    obtain ⟨fuel, rfl⟩ : ∃ f, fuel = f + 1 := ⟨fuel - 1, by omega⟩
    have hkey : e.1 ∉ entries.map Prod.fst := by
      intro h
      exact (List.nodup_append.1 hn).2.2 _ h _ (by simp) rfl
    have hlen : (entry e).length ≤ fuel := Nat.lt_succ_iff.1 hfuel
    rw [List.map_singleton, commas,
      members_entry (hr e List.mem_cons_self) hlen entries (by decide)
        (Ended.cons (by decide) (by decide) rest)]
    simp only [setEntry_of_not_mem hkey]
  | cons e' es ih =>
    obtain ⟨fuel, rfl⟩ : ∃ f, fuel = f + 1 := ⟨fuel - 1, by omega⟩
    have hkey : e.1 ∉ entries.map Prod.fst := by
      intro h
      exact (List.nodup_append.1 hn).2.2 _ h _ (by simp) rfl
    simp only [List.map_cons, commas, List.length_append, List.length_cons] at hfuel
    have hnext : skipSpace (commas ((e' :: es).map entry) ++ '\x7d' :: rest) =
        commas ((e' :: es).map entry) ++ '\x7d' :: rest := by
      cases es with
      | nil => exact skipSpace_cons (by decide) _
      | cons e'' es => exact skipSpace_cons (by decide) _
    have hn' : ((entries ++ [e]).map Prod.fst ++ (e' :: es).map Prod.fst).Nodup := by
      simpa using hn
    have htail := @ih e' (entries ++ [e]) fuel
      (fun x hx => hr x (List.mem_cons_of_mem e hx)) hn' (by rw [List.map_cons]; omega)
    rw [List.map_cons, List.map_cons, commas, List.append_assoc, List.cons_append,
      members_entry (hr e List.mem_cons_self) (by omega) entries (by decide)
        (Ended.cons (by decide) (by decide) _)]
    rw [List.map_cons] at hnext htail
    simp only [setEntry_of_not_mem hkey, hnext, htail, List.append_assoc, List.cons_append,
      List.nil_append]

/-- The text of an object has its entries in the order of their keys. -/
theorem dumps_object (entries : List (String × Json)) : (Json.object entries).dumps =
    '\x7b' :: commas ((sortKeys entries).map entry) ++ ['\x7d'] := by
  have hsort : sortKeys (Json.dumpEntries entries) =
      (sortKeys entries).map fun e => (e.1, e.2.dumps) := by
    rw [Json.dumpEntries_eq_map, sortKeys, sortKeys]
    exact (List.map_insertionSort (fun a b : String × Json => a.1.toList ≤ b.1.toList)
      (fun a b : String × List Char => a.1.toList ≤ b.1.toList) (fun e => (e.1, e.2.dumps)) _
      fun _ _ _ _ => Iff.rfl).symm
  rw [Json.dumps, hsort, List.map_map]
  rfl

theorem perm_sortKeys {β : Type} (entries : List (String × β)) :
    (sortKeys entries).Perm entries := List.perm_insertionSort _ _

/-- **An object without repeated keys is read with its entries in the order of their keys.** -/
theorem Reads.object {entries : List (String × Json)} (hn : (entries.map Prod.fst).Nodup)
    (hr : ∀ e ∈ entries, Reads floats e.2 e.2.dumps) :
    Reads floats (.object (sortKeys entries)) (Json.object entries).dumps := by
  rw [dumps_object]
  have hn' : ((sortKeys entries).map Prod.fst).Nodup :=
    ((perm_sortKeys entries).map Prod.fst).nodup_iff.2 hn
  have hr' : ∀ e ∈ sortKeys entries, Reads floats e.2 e.2.dumps :=
    fun e he => hr e ((perm_sortKeys entries).mem_iff.1 he)
  generalize sortKeys entries = sorted at hn' hr'
  constructor
  case starts => exact ⟨'\x7b', _, rfl, by decide, by decide⟩
  case value =>
    intro fuel rest hfuel _
    obtain ⟨fuel, rfl⟩ : ∃ f, fuel = f + 1 := ⟨fuel - 1, by omega⟩
    rw [List.cons_append, List.cons_append, List.append_assoc, List.cons_append, List.nil_append,
      JsonText.value]
    simp only [if_neg (show ('\x7b' : Char) ≠ '"' by decide), if_true]
    cases sorted with
    | nil => rfl
    | cons e es =>
      have hlen : (commas ((e :: es).map entry)).length < fuel := by
        simp only [List.cons_append, List.length_cons, List.length_append, List.length_nil] at hfuel
        omega
      have hmembers := @members_commas floats e es [] fuel hr' (by simpa using hn') hlen rest
      obtain ⟨cs, hcs⟩ : ∃ cs, commas ((e :: es).map entry) ++ '\x7d' :: rest = '"' :: cs := by
        cases es with
        | nil => exact ⟨_, rfl⟩
        | cons e' es => exact ⟨_, rfl⟩
      rw [hcs] at hmembers ⊢
      rw [skipSpace_cons (by decide)]
      change (members floats fuel [] ('"' :: cs)).map _ = _
      rw [hmembers]
      rfl

/-- What an object is looked up for does not depend on the order of its entries. -/
theorem lookup_sortKeys {entries : List (String × Json)} (hn : (entries.map Prod.fst).Nodup)
    (key : String) : (sortKeys entries).lookup key = entries.lookup key := by
  have hn' : ((sortKeys entries).map Prod.fst).Nodup :=
    ((perm_sortKeys entries).map Prod.fst).nodup_iff.2 hn
  apply Option.ext
  intro v
  rw [Relational.lookup_eq_some_iff hn',
    Relational.lookup_eq_some_iff hn, (perm_sortKeys entries).mem_iff]

end JsonText
