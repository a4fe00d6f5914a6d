import FosCoverage.Lib.Text

/-!
# Regular expressions that backtrack

The patterns of `re`, without lookaround and back references, and the three searches that are made
with them.  A match is not only a language here: which of the possible ends is taken depends on the
order in which the alternatives are tried, so `ends` lists them in that order and the first one is
the match.

* `Pattern.star` is greedy or lazy (`*` and `*?`).
* `$` stands at the end of the text and before a line end that is the last character.
* `prefixMatch`, `search` and `delete` are `re.match`, `re.search` and `re.sub` with nothing for the
  matches; `searchGroup` gives the text of a group at the start of the pattern.
-/

set_option autoImplicit false

namespace Regex

open Text

/-- A place in a text: what is before it, the nearest character first, and what is behind. -/
structure Cursor where
  before : List Char
  after : List Char

/-- The patterns. -/
inductive Pattern where
  /-- Nothing, which is always there. -/
  | empty
  /-- A character of a class. -/
  | char (p : Char → Bool)
  /-- One after the other. -/
  | seq (r s : Pattern)
  /-- The first if it leads to a match, else the second. -/
  | alt (r s : Pattern)
  /-- Any number of times: many first, or few first. -/
  | star (few : Bool) (r : Pattern)
  /-- `^` -/
  | start
  /-- `$` -/
  | stop
  /-- `\b` -/
  | boundary

namespace Pattern

/-- A word, letter by letter. -/
def lit (s : String) : Pattern := s.toList.foldr (fun c r => seq (char (· = c)) r) empty

/-- One after the other. -/
def cat (rs : List Pattern) : Pattern := rs.foldr seq empty

/-- One of the alternatives, tried in order. -/
def oneOf : List Pattern → Pattern
  | [] => char fun _ => false
  | [r] => r
  | r :: rs => alt r (oneOf rs)

/-- `r*` -/
def many (r : Pattern) : Pattern := star false r

/-- `r+` -/
def many1 (r : Pattern) : Pattern := seq r (star false r)

/-- `r?` -/
def opt (r : Pattern) : Pattern := alt r empty

/-- `.` -/
def any : Pattern := char (· ≠ '\n')

/-- `\s` -/
def space : Pattern := char isSpace

/-- `\w` -/
def word (u : WordTable) : Pattern := char u.isWord

end Pattern

/-- Repeat a step that goes on in the text. -/
def iterate (few : Bool) (step : Cursor → List Cursor) : Nat → Cursor → List Cursor
  | 0, c => [c]
  | n + 1, c =>
    let more := ((step c).filter fun d => d.after.length < c.after.length).flatMap
      (iterate few step n)
    if few then c :: more else more ++ [c]

/-- The character before the place, or the one behind it, is a letter of a word. -/
def isWordAt (u : WordTable) (cs : List Char) : Bool := (cs.head?.map u.isWord).getD false

/-- The ends of the matches that begin at a place, the preferred one first. -/
def ends (u : WordTable) : Pattern → Cursor → List Cursor
  | .empty, c => [c]
  | .char p, c =>
    match c.after with
    | x :: rest => if p x then [⟨x :: c.before, rest⟩] else []
    | [] => []
  | .seq r s, c => (ends u r c).flatMap (ends u s)
  | .alt r s, c => ends u r c ++ ends u s c
  | .star few r, c => iterate few (ends u r) c.after.length c
  | .start, c => if c.before = [] then [c] else []
  | .stop, c => if c.after = [] ∨ c.after = ['\n'] then [c] else []
  | .boundary, c => if isWordAt u c.before ≠ isWordAt u c.after then [c] else []

/-- `re.match`: the pattern begins the text. -/
def prefixMatch (u : WordTable) (r : Pattern) (s : List Char) : Bool := ends u r ⟨[], s⟩ ≠ []

/-- The places of a text, in order. -/
def placesFrom (before : List Char) : List Char → List Cursor
  | [] => [⟨before, []⟩]
  | c :: cs => ⟨before, c :: cs⟩ :: placesFrom (c :: before) cs

/-- `re.search`: the pattern is somewhere in the text. -/
def search (u : WordTable) (r : Pattern) (s : List Char) : Bool :=
  (placesFrom [] s).any fun c => ends u r c ≠ []

/-- The text of the group in the first match of a group and what follows it. -/
def searchGroup (u : WordTable) (group rest : Pattern) (s : List Char) : Option (List Char) :=
  (placesFrom [] s).findSome? fun c =>
    ((ends u group c).find? fun d => ends u rest d ≠ []).map fun d =>
      c.after.take (c.after.length - d.after.length)

/-- The end of the match that begins at a place, if it takes a character. -/
def nonemptyMatch (u : WordTable) (r : Pattern) (c : Cursor) : Option Cursor :=
  (ends u r c).head?.filter fun d => d.after.length < c.after.length

/-- Leave out the matches from a place on. -/
def deleteFrom (u : WordTable) (r : Pattern) : Nat → Cursor → List Char
  | 0, c => c.after
  | n + 1, c =>
    match nonemptyMatch u r c, c.after with
    | some d, _ => deleteFrom u r n d
    | none, x :: rest => x :: deleteFrom u r n ⟨x :: c.before, rest⟩
    | none, [] => []

/-- `re.sub(pattern, "", text)`. -/
def delete (u : WordTable) (r : Pattern) (s : List Char) : List Char :=
  deleteFrom u r s.length ⟨[], s⟩

end Regex
