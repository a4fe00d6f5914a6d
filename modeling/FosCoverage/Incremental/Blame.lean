import FosCoverage.Import.Lcov
import FosCoverage.Incremental.GitText
import Mathlib.Data.List.DropRight

/-!
# Owners read from blame

`parse_porcelain` goes over the lines of `git blame --line-porcelain` and tells the start of an
entry, its fields, its end and the line itself apart by how a line starts.  What it calls a line is
what `str.splitlines` does, which cuts a text of the entry at more than line feeds; and a `boundary`
line is remembered until the next path line, also when it stands outside an entry.

* `Exact` is what the reader is for: one record an entry, in order, with the entry's commit, line
  number, author, address and boundary flag.
* `BlameEntry.extraLines` are the lines that are cut out of the fields of an entry, `openLines`
  those of them that are read before one closes the record, and `carryAfter` is what the line itself
  leaves for the next entry.
* `Intact` says of an entry that these change nothing that counts, and `readsExactly_iff` that **this is
  exactly when blame is read exactly**, for every list of entries.

The reader's state is followed through `Shadow`, what the state is with only the fields that count;
a line that starts no entry acts on that alone (`readLine_shadow`).
-/

set_option autoImplicit false

namespace FosCoverage

open Relational Git Lcov

namespace Blame

variable (digits : DigitTable)

/-! ## The reader -/

/-- A record of `parse_porcelain`. -/
structure Record where
  /-- The commit. -/
  commit : List Char
  /-- The line's number in the commit. -/
  originalLine : Int
  /-- The line's number in the file. -/
  finalLine : Int
  /-- Whether the commit is a boundary. -/
  boundary : Bool
  /-- The author. -/
  author : List Char
  /-- The author's address. -/
  authorMail : List Char
  /-- The author's time. -/
  authorTime : List Char
  /-- The author's time zone. -/
  authorTz : List Char
  /-- The path in the commit. -/
  filename : List Char
  /-- The line. -/
  lineText : List Char

/-- `ValueError` of `int`. -/
structure InvalidLiteral where
  /-- The text. -/
  text : List Char

/-- The text of the exception. -/
def InvalidLiteral.message (e : InvalidLiteral) : String :=
  "invalid literal for int() with base 10: '" ++ String.ofList e.text ++ "'"

/-- `int` of a text without spaces: a sign, and digits with single underscores between them. -/
def int (s : List Char) : Except InvalidLiteral Int :=
  let (negative, body) : Bool × List Char :=
    match s with
    | '-' :: rest => (true, rest)
    | '+' :: rest => (false, rest)
    | _ => (false, s)
  let parts := body.splitOn '_'
  if parts.all fun p => p ≠ [] && p.all fun c => (digits.value c).isSome then
    let n := parts.flatten.foldl (fun n c => 10 * n + (digits.value c).getD 0) 0
    .ok (if negative then -(n : Int) else n)
  else .error ⟨s⟩

/-- A character of which `lower` is a hexadecimal digit. -/
def isHexDigit (c : Char) : Bool := c.isDigit || ('a' ≤ c && c ≤ 'f') || ('A' ≤ c && c ≤ 'F')

/-- `lstrip("^")` -/
def stripCaret (s : List Char) : List Char := s.dropWhile (· == '^')

/-- `_looks_like_sha` -/
def looksLikeSha (value : List Char) : Bool :=
  [7, 8, 40].contains (stripCaret value).length && (stripCaret value).all isHexDigit

/-- One of `<` and `>`. -/
def isAngle (c : Char) : Bool := c == '<' || c == '>'

/-- `strip("<>")` -/
def stripAngles (s : List Char) : List Char := (s.dropWhile isAngle).rdropWhile isAngle

/-- The variables of `parse_porcelain`. -/
structure Reader where
  /-- `records` -/
  records : List Record
  /-- `current` -/
  current : Option Record
  /-- `pending_boundary` -/
  pendingBoundary : Bool

/-- The start of the loop. -/
def Reader.start : Reader := ⟨[], none, false⟩

/-- The record a line with a commit starts. -/
def newRecord (sha : List Char) (originalLine finalLine : Int) : Record where
  commit := stripCaret sha
  originalLine := originalLine
  finalLine := finalLine
  boundary := "^".toList.isPrefixOf sha
  author := []
  authorMail := []
  authorTime := []
  authorTz := []
  filename := []
  lineText := []

/-- A field of the record. -/
def Record.field (r : Record) (line : List Char) : Record :=
  if "author ".toList.isPrefixOf line then { r with author := line.drop 7 }
  else if "author-mail ".toList.isPrefixOf line then
    { r with authorMail := stripAngles (line.drop 12) }
  else if "author-time ".toList.isPrefixOf line then { r with authorTime := line.drop 12 }
  else if "author-tz ".toList.isPrefixOf line then { r with authorTz := line.drop 10 }
  else r

/-- A line that is neither a mark nor a path nor the line itself. -/
def readFields (s : Reader) (line : List Char) : Except InvalidLiteral Reader :=
  match Text.words line with
  | sha :: original :: final :: _ =>
    if looksLikeSha sha then do
      let originalLine ← int digits original
      let finalLine ← int digits final
      pure { s with
        records := s.records ++ s.current.toList
        current := some (newRecord sha originalLine finalLine) }
    else pure { s with current := s.current.map (·.field line) }
  | _ => pure { s with current := s.current.map (·.field line) }

/-- One turn of the loop. -/
def readLine (s : Reader) (line : List Char) : Except InvalidLiteral Reader :=
  if "boundary".toList.isPrefixOf line then
    pure { s with
      pendingBoundary := true
      current := s.current.map fun r => { r with boundary := true } }
  else if "filename ".toList.isPrefixOf line then
    match s.current with
    | some r =>
      pure ⟨s.records ++ [{ r with
        filename := line.drop 9, boundary := r.boundary || s.pendingBoundary }], none, false⟩
    | none => pure { s with pendingBoundary := false }
  else if "\t".toList.isPrefixOf line then
    pure { s with current := s.current.map fun r => { r with lineText := line.drop 1 } }
  else readFields digits s line

/-- `parse_porcelain` -/
def parsePorcelain (text : List Char) : Except InvalidLiteral (List Record) := do
  let s ← (Text.splitlines text).foldlM (readLine digits) Reader.start
  pure (s.records ++ s.current.toList)

/-- `owner_by_line`, of the records of a file. -/
def ownerByLine (records : List Record) : Keyed Int Record :=
  records.foldl (fun owners r => owners.put r.finalLine r) Keyed.empty

/-! ## What the reader is for -/

/-- What counts of a record. -/
structure View where
  /-- The commit. -/
  commit : List Char
  /-- The line. -/
  finalLine : Int
  /-- The author. -/
  author : List Char
  /-- The address. -/
  authorMail : List Char
  /-- The boundary flag. -/
  boundary : Bool
  deriving DecidableEq, Repr

/-- What counts of a record that was read. -/
def Record.view (r : Record) : View := ⟨r.commit, r.finalLine, r.author, r.authorMail, r.boundary⟩

/-- What counts of a printed entry. -/
def view (e : BlameEntry) : View :=
  ⟨hex e.commit, e.finalLine, e.author, e.authorMail, e.boundary⟩

/-- Every entry is read as it is, and nothing else is read. -/
def Exact (entries : List BlameEntry) : Prop :=
  ∃ records, parsePorcelain digits (porcelain entries) = .ok records ∧
    records.map Record.view = entries.map view

/-! ## When it is read so -/

/-- Whether a line is taken for the start of an entry. -/
def isHeader (line : List Char) : Bool :=
  !"boundary".toList.isPrefixOf line && !"filename ".toList.isPrefixOf line
    && !"\t".toList.isPrefixOf line &&
    match Text.words line with
    | sha :: _ :: _ :: _ => looksLikeSha sha
    | _ => false

/-- Whether a line closes the record. -/
def closes (line : List Char) : Bool := "filename ".toList.isPrefixOf line

/-- Whether a line marks a boundary. -/
def marks (line : List Char) : Bool := "boundary".toList.isPrefixOf line

/-- What some lines leave of an author. -/
def lastAuthor (author : List Char) (lines : List (List Char)) : List Char :=
  lines.foldl (fun a l => if "author ".toList.isPrefixOf l then l.drop 7 else a) author

/-- What some lines leave of an address. -/
def lastMail (mail : List Char) (lines : List (List Char)) : List Char :=
  lines.foldl (fun m l => if "author-mail ".toList.isPrefixOf l then stripAngles (l.drop 12) else m)
    mail

/-- What a line does to a boundary that is remembered. -/
def carry (pending : Bool) (line : List Char) : Bool :=
  if marks line then true else if closes line then false else pending

section Entry

variable (e : BlameEntry)

/-- The lines that are cut out of the fields. -/
def extraLines : List (List Char) :=
  (e.authorFields ++ e.laterFields).flatMap fun f => Text.extraLines f.2

/-- Those that are read before the record is closed. -/
def openLines : List (List Char) := (extraLines e).takeWhile fun l => !closes l

/-- Whether the line leaves a boundary for the next entry. -/
def carryAfter : Bool := (Text.extraLines e.content).foldl carry false

/-- What is cut out of the entry changes nothing that counts, behind an entry that may have left a
boundary. -/
structure Intact (pending : Bool) : Prop where
  /-- The commit has a length the reader knows. -/
  commit : looksLikeSha (hex e.commit) = true
  /-- The author is on one line. -/
  author : Text.NoBreak e.author
  /-- The address is on one line. -/
  mail : Text.NoBreak e.authorMail
  /-- It has no further angle brackets around it. -/
  angles : stripAngles e.authorMail = e.authorMail
  /-- No line that was cut out is taken for the start of an entry. -/
  noHeader : ∀ l ∈ extraLines e ++ Text.extraLines e.content, isHeader l = false
  /-- None replaces the author. -/
  sameAuthor : lastAuthor e.author (openLines e) = e.author
  /-- None replaces the address. -/
  sameMail : lastMail e.authorMail (openLines e) = e.authorMail
  /-- A boundary is read where there is one: its line is read before the record is closed, or
  another makes up for it. -/
  marked : e.boundary = true →
    (∀ l ∈ extraLines e, closes l = false) ∨ pending = true ∨ ∃ l ∈ openLines e, marks l = true
  /-- And only there. -/
  unmarked : e.boundary = false → pending = false ∧ ∀ l ∈ openLines e, marks l = false

end Entry

/-- All entries are intact, each behind what the one before left. -/
def AllIntact (pending : Bool) : List BlameEntry → Prop
  | [] => True
  | e :: es => Intact e pending ∧ AllIntact (carryAfter e) es

/-! ## What a line does -/

/-- The reader's state with only what counts. -/
structure Shadow where
  /-- The records. -/
  records : List View
  /-- The record that is open. -/
  current : Option View
  /-- The boundary that is remembered. -/
  pending : Bool

/-- What counts of a state. -/
def Reader.shadow (s : Reader) : Shadow :=
  ⟨s.records.map Record.view, s.current.map Record.view, s.pendingBoundary⟩

/-- What a line says about the author. -/
def View.hear (v : View) (line : List Char) : View :=
  if "author ".toList.isPrefixOf line then { v with author := line.drop 7 }
  else if "author-mail ".toList.isPrefixOf line then
    { v with authorMail := stripAngles (line.drop 12) }
  else v

/-- What a line does that starts no entry. -/
def Shadow.react (sh : Shadow) (line : List Char) : Shadow :=
  if marks line then
    { sh with pending := true, current := sh.current.map fun v => { v with boundary := true } }
  else if closes line then
    match sh.current with
    | some v => ⟨sh.records ++ [{ v with boundary := v.boundary || sh.pending }], none, false⟩
    | none => { sh with pending := false }
  else { sh with current := sh.current.map (·.hear line) }

theorem view_field (r : Record) (line : List Char) : (r.field line).view = r.view.hear line := by
  unfold Record.field View.hear
  split
  · rfl
  · split
    · rfl
    · split
      · rfl
      · split <;> rfl

theorem shadow_field (s : Reader) (line : List Char) :
    ({ s with current := s.current.map (·.field line) } : Reader).shadow
      = { s.shadow with current := s.shadow.current.map (·.hear line) } := by
  cases hc : s.current with
  | none => simp [Reader.shadow, hc]
  | some r => simp [Reader.shadow, hc, view_field]

/-- **A line that starts no entry** acts on what counts alone. -/
theorem readLine_shadow {s : Reader} {line : List Char} (h : isHeader line = false) :
    ∃ s', readLine digits s line = .ok s' ∧ s'.shadow = s.shadow.react line := by
  unfold readLine Shadow.react marks closes
  split
  · refine ⟨_, rfl, ?_⟩
    cases hc : s.current with
    | none => simp [Reader.shadow, hc]
    | some r => simp [Reader.shadow, hc, Record.view]
  · rename_i hmarks
    split
    · cases hc : s.current with
      | none => exact ⟨_, rfl, by simp [Reader.shadow, hc]⟩
      | some r => exact ⟨_, rfl, by simp [Reader.shadow, hc, Record.view]⟩
    · rename_i hcloses
      split
      · rename_i htab
        refine ⟨_, rfl, ?_⟩
        have hauthor : "author ".toList.isPrefixOf line = false :=
          isPrefixOf_head (show '\t' ≠ 'a' by decide) htab
        have hmail : "author-mail ".toList.isPrefixOf line = false :=
          isPrefixOf_head (show '\t' ≠ 'a' by decide) htab
        have hhear : ∀ v : View, v.hear line = v := fun v => by
          rw [View.hear, hauthor, hmail, if_neg Bool.false_ne_true, if_neg Bool.false_ne_true]
        cases hc : s.current with
        | none => simp [Reader.shadow, hc]
        | some r => simp [Reader.shadow, hc, hhear, Record.view]
      · rename_i htab
        have hsha : (match Text.words line with
            | sha :: _ :: _ :: _ => looksLikeSha sha
            | _ => false) = false := by
          simpa only [isHeader, hmarks, hcloses, htab, Bool.not_false, Bool.true_and] using h
        have hread : readFields digits s line
            = .ok { s with current := s.current.map (·.field line) } := by
          unfold readFields
          split
          · rename_i sha original final rest hw
            rw [hw] at hsha
            rw [if_neg (by rw [show looksLikeSha sha = false from hsha]; exact Bool.false_ne_true)]
            rfl
          · rfl
        exact ⟨_, hread, shadow_field s line⟩

/-- A line that starts an entry, when its numbers are numbers. -/
theorem readLine_header {s : Reader} {line sha original final : List Char}
    {rest : List (List Char)} (h : isHeader line = true)
    (hw : Text.words line = sha :: original :: final :: rest) :
    readLine digits s line = (do
      let originalLine ← int digits original
      let finalLine ← int digits final
      pure { s with
        records := s.records ++ s.current.toList
        current := some (newRecord sha originalLine finalLine) }) := by
  simp only [isHeader, Bool.and_eq_true, Bool.not_eq_true'] at h
  obtain ⟨⟨⟨hmarks, hcloses⟩, htab⟩, hsha⟩ := h
  rw [hw] at hsha
  unfold readLine readFields
  rw [hmarks, hcloses, htab, hw]
  simp only [Bool.false_eq_true, if_false, if_pos hsha]

/-! ## What the records have in common -/

/-- What every record has, whatever was printed. -/
structure View.Sound (v : View) : Prop where
  /-- The author is on one line. -/
  author : Text.NoBreak v.author
  /-- The address is on one line. -/
  mail : Text.NoBreak v.authorMail
  /-- It has no angle brackets around it. -/
  angles : stripAngles v.authorMail = v.authorMail
  /-- The commit has a length the reader knows. -/
  commit : looksLikeSha v.commit = true

/-- The records that were read and the one that is open. -/
def Shadow.all (sh : Shadow) : List View := sh.records ++ sh.current.toList

theorem stripAngles_idem (s : List Char) : stripAngles (stripAngles s) = stripAngles s := by
  have hhead : (stripAngles s).dropWhile isAngle = stripAngles s := by
    unfold stripAngles
    rw [List.dropWhile_eq_self_iff]
    intro hlen
    have hprefix := List.rdropWhile_prefix isAngle (s.dropWhile isAngle)
    have hne : s.dropWhile isAngle ≠ [] := fun hnil => by
      rw [hnil] at hlen
      simp at hlen
    have hfirst := List.head_dropWhile_not isAngle hne
    have hsame : ((s.dropWhile isAngle).rdropWhile isAngle)[0]
        = (s.dropWhile isAngle).head hne := by
      rw [List.head_eq_getElem]
      exact hprefix.getElem hlen
    rw [hsame]
    simpa using hfirst
  rw [stripAngles, hhead]
  exact List.rdropWhile_idempotent isAngle _

theorem noBreak_stripAngles {s : List Char} (h : Text.NoBreak s) :
    Text.NoBreak (stripAngles s) := fun c hc =>
  h c ((List.dropWhile_sublist isAngle).subset ((List.rdropWhile_prefix isAngle _).subset hc))

theorem noBreak_drop {s : List Char} (h : Text.NoBreak s) (n : Nat) : Text.NoBreak (s.drop n) :=
  fun c hc => h c (List.mem_of_mem_drop hc)

theorem stripCaret_idem (s : List Char) : stripCaret (stripCaret s) = stripCaret s :=
  List.dropWhile_idempotent (p := fun c => c == '^') s

theorem View.Sound.hear {v : View} (hv : v.Sound) {line : List Char} (hl : Text.NoBreak line) :
    (v.hear line).Sound := by
  unfold View.hear
  split
  · exact ⟨noBreak_drop hl 7, hv.mail, hv.angles, hv.commit⟩
  · split
    · exact ⟨hv.author, noBreak_stripAngles (noBreak_drop hl 12), stripAngles_idem _, hv.commit⟩
    · exact hv

theorem newRecord_sound {sha : List Char} (h : looksLikeSha sha = true) (o f : Int) :
    (newRecord sha o f).view.Sound := by
  refine ⟨List.forall_mem_nil _, List.forall_mem_nil _, rfl, ?_⟩
  change looksLikeSha (stripCaret sha) = true
  unfold looksLikeSha at h ⊢
  rwa [stripCaret_idem]

/-- A line that starts no entry makes no record and keeps the records sound. -/
theorem Shadow.react_sound {sh : Shadow} {line : List Char} (hl : Text.NoBreak line)
    (hs : ∀ v ∈ sh.all, v.Sound) :
    (∀ v ∈ (sh.react line).all, v.Sound) ∧ (sh.react line).all.length = sh.all.length := by
  have hcurrent : ∀ v, sh.current = some v → v.Sound := fun v hv =>
    hs v (List.mem_append_right _ (by rw [hv]; exact List.mem_singleton_self v))
  have hmap : ∀ f : View → View, (∀ v, v.Sound → (f v).Sound) → ∀ pending,
      (∀ v ∈ Shadow.all ⟨sh.records, sh.current.map f, pending⟩, v.Sound) ∧
        (Shadow.all ⟨sh.records, sh.current.map f, pending⟩).length = sh.all.length := by
    intro f hf pending
    cases hc : sh.current with
    | none => exact ⟨fun v hv => hs v (by simpa [all, hc] using hv), by simp [all, hc]⟩
    | some w =>
      refine ⟨fun v hv => ?_, by simp [all, hc]⟩
      rcases List.mem_append.1 hv with hin | hin
      · exact hs v (List.mem_append_left _ hin)
      · obtain rfl := List.mem_singleton.1 hin
        exact hf w (hcurrent w hc)
  unfold react
  split
  · exact hmap (fun v => { v with boundary := true })
      (fun v hv => ⟨hv.author, hv.mail, hv.angles, hv.commit⟩) true
  · split
    · split
      · rename_i w hw
        have hv := hcurrent w hw
        refine ⟨fun v hin => ?_, by simp [all, hw]⟩
        have hcase : v ∈ sh.records ∨ v = { w with boundary := w.boundary || sh.pending } := by
          simpa [all] using hin
        rcases hcase with hold | rfl
        · exact hs v (List.mem_append_left _ hold)
        · exact ⟨hv.author, hv.mail, hv.angles, hv.commit⟩
      · exact ⟨hs, rfl⟩
    · exact hmap _ (fun v hv => hv.hear hl) sh.pending

variable {digits} in
/-- **One line** keeps the records sound, and only the start of an entry makes one more. -/
theorem readLine_sound {s s' : Reader} {line : List Char} (h : readLine digits s line = .ok s')
    (hl : Text.NoBreak line) (hs : ∀ v ∈ s.shadow.all, v.Sound) :
    (∀ v ∈ s'.shadow.all, v.Sound) ∧
      s'.shadow.all.length = s.shadow.all.length + if isHeader line then 1 else 0 := by
  cases hheader : isHeader line with
  | true =>
    have hwords : ∃ sha original final rest,
        Text.words line = sha :: original :: final :: rest ∧ looksLikeSha sha = true := by
      have h := hheader
      simp only [isHeader, Bool.and_eq_true] at h
      have hsha := h.2
      split at hsha
      · rename_i sha o f rest hw
        exact ⟨sha, o, f, rest, hw, hsha⟩
      · cases hsha
    obtain ⟨sha, original, final, rest, hw, hsha⟩ := hwords
    rw [readLine_header digits hheader hw] at h
    cases ho : int digits original with
    | error e => rw [ho] at h; cases h
    | ok o =>
      cases hf : int digits final with
      | error e => rw [ho, hf] at h; cases h
      | ok f =>
        rw [ho, hf] at h
        obtain rfl := Except.ok.inj h
        have hall : Shadow.all (Reader.shadow
            ⟨s.records ++ s.current.toList, some (newRecord sha o f), s.pendingBoundary⟩)
              = s.shadow.all ++ [(newRecord sha o f).view] := by
          cases hc : s.current <;> simp [Shadow.all, Reader.shadow, hc]
        change (∀ v ∈ Shadow.all (Reader.shadow
            ⟨s.records ++ s.current.toList, some (newRecord sha o f), s.pendingBoundary⟩),
              v.Sound) ∧ (Shadow.all (Reader.shadow
            ⟨s.records ++ s.current.toList, some (newRecord sha o f), s.pendingBoundary⟩)).length
              = _
        rw [hall]
        refine ⟨fun v hv => ?_, by simp⟩
        rcases List.mem_append.1 hv with hin | hin
        · exact hs v hin
        · obtain rfl := List.mem_singleton.1 hin
          exact newRecord_sound hsha o f
  | false =>
    obtain ⟨s'', hs'', hshadow⟩ := readLine_shadow digits (s := s) hheader
    rw [hs''] at h
    obtain rfl := Except.ok.inj h
    rw [hshadow]
    exact s.shadow.react_sound hl hs

variable {digits} in
/-- **A whole text**: as many records as lines that start an entry, all of them sound. -/
theorem foldlM_sound {lines : List (List Char)} {s s' : Reader}
    (h : lines.foldlM (readLine digits) s = .ok s') (hl : ∀ l ∈ lines, Text.NoBreak l)
    (hs : ∀ v ∈ s.shadow.all, v.Sound) :
    (∀ v ∈ s'.shadow.all, v.Sound) ∧
      s'.shadow.all.length = s.shadow.all.length + lines.countP isHeader := by
  induction lines generalizing s with
  | nil =>
    obtain rfl := Except.ok.inj h
    exact ⟨hs, rfl⟩
  | cons l ls ih =>
    rw [List.foldlM_cons] at h
    cases hstep : readLine digits s l with
    | error e => rw [hstep] at h; cases h
    | ok mid =>
      rw [hstep] at h
      obtain ⟨hmid, hcount⟩ := readLine_sound hstep (hl l List.mem_cons_self) hs
      obtain ⟨hend, htotal⟩ := ih h (fun x hx => hl x (List.mem_cons_of_mem l hx)) hmid
      refine ⟨hend, ?_⟩
      rw [htotal, hcount, List.countP_cons]
      omega

/-! ## The printed lines -/

/-- The lines that are read of a printed line. -/
def pieces (line : List Char) : List (List Char) := Text.splitlines (line ++ ['\n'])

theorem pieces_noBreak {line : List Char} (h : Text.NoBreak line) : pieces line = [line] :=
  Text.splitlines_noBreak h

theorem flatMap_pieces {lines : List (List Char)} (h : ∀ l ∈ lines, Text.NoBreak l) :
    lines.flatMap pieces = lines := by
  induction lines with
  | nil => rfl
  | cons l ls ih =>
    rw [List.flatMap_cons, pieces_noBreak (h l List.mem_cons_self),
      ih fun x hx => h x (List.mem_cons_of_mem l hx)]
    rfl

/-- The lines that are read of an entry, behind the one that starts it. -/
def body (e : BlameEntry) : List (List Char) :=
  (e.authorFields ++ e.laterFields).flatMap (fun f => pieces (f.1 ++ f.2)) ++ e.markLines
    ++ ("filename ".toList ++ label [] e.filename) :: pieces ('\t' :: e.content)

theorem noBreak_decimal_behind {s : List Char} (n : Nat) (h : Text.NoBreak s) :
    Text.NoBreak (decimal n ++ s) := Text.noBreak_append.2 ⟨noBreak_decimal n, h⟩

theorem noBreak_header (e : BlameEntry) : Text.NoBreak e.header := by
  have hspace : ∀ {s : List Char}, Text.NoBreak s → Text.NoBreak (' ' :: s) := fun h =>
    Text.noBreak_cons.2 ⟨rfl, h⟩
  refine Text.noBreak_append.2 ⟨noBreak_hex _, hspace (noBreak_decimal_behind _
    (hspace (noBreak_decimal_behind _ ?_)))⟩
  split
  · exact List.forall_mem_nil _
  · exact hspace (noBreak_decimal _)

theorem noBreak_markLines {e : BlameEntry} {l : List Char} (h : l ∈ e.markLines) :
    Text.NoBreak l := by
  rcases List.mem_append.1 h with hb | hp
  · split at hb
    · obtain rfl := List.mem_singleton.1 hb
      decide
    · cases hb
  · unfold BlameEntry.previousLines at hp
    split at hp
    · cases hp
    · obtain rfl := List.mem_singleton.1 hp
      exact Text.noBreak_append.2 ⟨by decide, Text.noBreak_append.2 ⟨noBreak_hex _,
        Text.noBreak_cons.2 ⟨rfl, noBreak_label (List.forall_mem_nil _) _⟩⟩⟩

/-- **What the reader gets to see of a printed blame.** -/
theorem splitlines_porcelain (entries : List BlameEntry) :
    Text.splitlines (porcelain entries) = entries.flatMap fun e => e.header :: body e := by
  have hentry : ∀ e : BlameEntry, e.lines.flatMap pieces = e.header :: body e := by
    intro e
    have hname : Text.NoBreak ("filename ".toList ++ label [] e.filename) :=
      Text.noBreak_append.2 ⟨by decide, noBreak_label (List.forall_mem_nil _) _⟩
    unfold BlameEntry.lines body
    rw [List.flatMap_append, List.flatMap_append, List.flatMap_cons,
      pieces_noBreak (noBreak_header e), flatMap_pieces fun l => noBreak_markLines,
      List.flatMap_cons, pieces_noBreak hname, List.flatMap_map]
    simp
  unfold porcelain
  rw [Text.splitlines_flatMap, List.flatMap_assoc]
  exact congrArg (fun f => entries.flatMap f) (funext hentry)

/-! ### The line that starts an entry -/

theorem isSpace_digitChar (d : Fin 16) : Text.isSpace (Nat.digitChar d.val) = false := by
  revert d
  decide

theorem noSpace_hex (digits : List (Fin 16)) : ∀ c ∈ hex digits, Text.isSpace c = false := by
  intro c hc
  obtain ⟨d, -, rfl⟩ := List.mem_map.1 hc
  exact isSpace_digitChar d

theorem noSpace_decimal (n : Nat) : ∀ c ∈ decimal n, Text.isSpace c = false := by
  intro c hc
  have h := Char.isDigit_iff_toNat.1 (isDigit_decimal hc)
  change 48 ≤ c.toNat ∧ c.toNat ≤ 57 at h
  simp only [Text.isSpace, Bool.or_eq_false_iff, Bool.and_eq_false_iff, decide_eq_false_iff_not,
    beq_eq_false_iff_ne]
  omega

/-- A number is read back. -/
theorem int_decimal (n : Nat) : int digits (decimal n) = .ok n := by
  have hparts : (decimal n).splitOn '_' = [decimal n] :=
    List.splitOn_eq_singleton fun h => Nat.underscore_not_in_toDigits h
  have hall : ([decimal n].all fun p => p ≠ [] && p.all fun c => (digits.value c).isSome)
      = true := by
    have hne : decimal n ≠ [] := Nat.toDigits_ne_nil
    simp only [List.all_cons, List.all_nil, Bool.and_true, Bool.and_eq_true, decide_eq_true_eq,
      List.all_eq_true]
    exact ⟨hne, fun c hc => by rw [value_decimal digits hc]; rfl⟩
  have hsign : ∀ c ∈ decimal n, c ≠ '-' ∧ c ≠ '+' := fun c hc => by
    have h := isDigit_decimal hc
    constructor
    · rintro rfl
      exact absurd h (by decide)
    · rintro rfl
      exact absurd h (by decide)
  unfold int
  split
  rename_i negative body hmatch
  have hbody : (false, decimal n) = (negative, body) := by
    rw [← hmatch]
    split
    · rename_i rest h
      exact absurd rfl (hsign '-' (by rw [h]; exact List.mem_cons_self)).1
    · rename_i rest h
      exact absurd rfl (hsign '+' (by rw [h]; exact List.mem_cons_self)).2
    · rfl
  obtain ⟨rfl, rfl⟩ := Prod.mk.inj hbody
  simp only [hparts]
  rw [if_pos hall]
  simp [foldl_decimal digits n]

theorem words_header (e : BlameEntry) (hne : hex e.commit ≠ []) : ∃ rest,
    Text.words e.header
      = hex e.commit :: decimal e.originalLine :: decimal e.finalLine :: rest := by
  have hdecimal : ∀ n, decimal n ≠ [] := fun n => Nat.toDigits_ne_nil
  unfold BlameEntry.header
  cases e.group with
  | none =>
    refine ⟨[], ?_⟩
    rw [Text.words_space (by decide) hne (noSpace_hex _),
      Text.words_space (by decide) (hdecimal _) (noSpace_decimal _), List.append_nil,
      Text.words_single (hdecimal _) (noSpace_decimal _)]
  | some n =>
    refine ⟨[decimal n], ?_⟩
    rw [Text.words_space (by decide) hne (noSpace_hex _),
      Text.words_space (by decide) (hdecimal _) (noSpace_decimal _),
      Text.words_space (by decide) (hdecimal _) (noSpace_decimal _),
      Text.words_single (hdecimal _) (noSpace_decimal _)]

theorem stripCaret_hex (digits : List (Fin 16)) : stripCaret (hex digits) = hex digits := by
  have hcaret : ∀ d : Fin 16, (Nat.digitChar d.val == '^') = false := by decide
  unfold stripCaret
  cases digits with
  | nil => rfl
  | cons d ds =>
    rw [hex, List.map_cons, List.dropWhile_cons_of_neg]
    rw [hcaret d]
    exact Bool.false_ne_true

/-- **The line that starts an entry** is taken for one. -/
theorem isHeader_header {e : BlameEntry} (h : looksLikeSha (hex e.commit) = true) :
    isHeader e.header = true := by
  have hlength : (hex e.commit).length ∈ [7, 8, 40] := by
    have h := h
    unfold looksLikeSha at h
    rw [stripCaret_hex, Bool.and_eq_true] at h
    simpa using h.1
  have htwo : ∃ a b rest, e.commit = a :: b :: rest := by
    rcases hc : e.commit with _ | ⟨a, _ | ⟨b, rest⟩⟩
    · rw [hc] at hlength
      exact absurd hlength (by decide)
    · rw [hc] at hlength
      exact absurd hlength (by simp [hex])
    · exact ⟨a, b, rest, rfl⟩
  obtain ⟨a, b, rest, hc⟩ := htwo
  have htext : ∃ t, e.header = Nat.digitChar a.val :: Nat.digitChar b.val :: t := by
    unfold BlameEntry.header hex
    rw [hc]
    exact ⟨_, rfl⟩
  have hsecond : ∀ d : Fin 16, ('o' == Nat.digitChar d.val) = false ∧
      ('i' == Nat.digitChar d.val) = false ∧ ('\t' == Nat.digitChar d.val) = false := by decide
  obtain ⟨words, hw⟩ := words_header e (by rw [hc]; simp [hex])
  obtain ⟨t, ht⟩ := htext
  have hprefix : "boundary".toList.isPrefixOf e.header = false ∧
      "filename ".toList.isPrefixOf e.header = false ∧ "\t".toList.isPrefixOf e.header = false := by
    rw [ht, show "boundary".toList = 'b' :: 'o' :: "undary".toList from rfl,
      show "filename ".toList = 'f' :: 'i' :: "lename ".toList from rfl,
      show "\t".toList = ['\t'] from rfl]
    simp only [List.isPrefixOf, (hsecond b).1, (hsecond b).2.1, (hsecond a).2.2, Bool.false_and,
      Bool.and_false, and_self]
  rw [isHeader, hprefix.1, hprefix.2.1, hprefix.2.2, hw]
  exact h

/-- What it does. -/
theorem readLine_entry {e : BlameEntry} {s : Reader} (h : looksLikeSha (hex e.commit) = true)
    (hs : s.current = none) :
    ∃ s', readLine digits s e.header = .ok s' ∧
      s'.shadow = ⟨s.shadow.records, some ⟨hex e.commit, e.finalLine, [], [], false⟩,
        s.pendingBoundary⟩ := by
  have hne : hex e.commit ≠ [] := by
    intro hnil
    rw [hnil] at h
    exact absurd h (by decide)
  obtain ⟨rest, hw⟩ := words_header e hne
  have hread := readLine_header digits (s := s) (isHeader_header h) hw
  rw [int_decimal, int_decimal] at hread
  refine ⟨_, hread, ?_⟩
  have hcaret : "^".toList.isPrefixOf (hex e.commit) = false := by
    have hdigit : ∀ d : Fin 16, ('^' == Nat.digitChar d.val) = false := by decide
    cases hc : e.commit with
    | nil => exact absurd (by rw [hc]; rfl) hne
    | cons d ds =>
      change (('^' == Nat.digitChar d.val) && _) = false
      rw [hdigit d, Bool.false_and]
  rw [Reader.shadow]
  simp only [newRecord, hcaret, stripCaret_hex, Option.map_some, Record.view, hs,
    Option.toList_none, List.append_nil]
  rfl

/-! ### The other lines -/

/-- A line that has nothing to do with what counts. -/
structure Mute (line : List Char) : Prop where
  /-- It starts no entry. -/
  noHeader : isHeader line = false
  /-- It marks no boundary. -/
  noMark : marks line = false
  /-- It closes no record. -/
  noClose : closes line = false
  /-- It names no author. -/
  noAuthor : "author ".toList.isPrefixOf line = false
  /-- It has no address. -/
  noMail : "author-mail ".toList.isPrefixOf line = false

theorem Mute.react {line : List Char} (h : Mute line) (sh : Shadow) : sh.react line = sh := by
  have hhear : ∀ v : View, v.hear line = v := fun v => by
    rw [View.hear, h.noAuthor, h.noMail, if_neg Bool.false_ne_true, if_neg Bool.false_ne_true]
  rw [Shadow.react, h.noMark, h.noClose, if_neg Bool.false_ne_true, if_neg Bool.false_ne_true]
  have hmap : sh.current.map (·.hear line) = sh.current := by
    cases sh.current with
    | none => rfl
    | some v => rw [Option.map_some, hhear]
  rw [hmap]

/-- A word that is no commit starts no entry. -/
theorem isHeader_word (word : List Char) (hne : word ≠ [])
    (hspace : ∀ c ∈ word, Text.isSpace c = false) (hsha : looksLikeSha word = false)
    (rest : List Char) : isHeader (word ++ ' ' :: rest) = false := by
  unfold isHeader
  rw [Text.words_space (by decide) hne hspace]
  split
  · rename_i sha a b c hw
    obtain ⟨rfl, -⟩ := List.cons.inj hw
    rw [hsha, Bool.and_false]
  · rw [Bool.and_false]

/-- The names of the fields behind the author's. -/
def laterNames : List String :=
  ["author-time", "author-tz", "committer", "committer-mail", "committer-time", "committer-tz",
    "summary"]

theorem mute_later {name : String} (h : name ∈ laterNames) (rest : List Char) :
    Mute (name.toList ++ ' ' :: rest) := by
  have hword : ∀ name ∈ laterNames, name.toList ≠ [] ∧
      name.toList.all (fun c => decide (Text.isSpace c = false)) = true ∧
        looksLikeSha name.toList = false := by
    decide
  obtain ⟨hne, hspace, hsha⟩ := hword name h
  have hheader := isHeader_word _ hne (Text.forall_mem_of_all hspace) hsha rest
  unfold laterNames at h
  simp only [List.mem_cons, List.not_mem_nil, or_false] at h
  rcases h with rfl | rfl | rfl | rfl | rfl | rfl | rfl <;>
    exact ⟨hheader, rfl, rfl, rfl, rfl⟩

theorem mute_previous (rest : List Char) : Mute ("previous ".toList ++ rest) :=
  ⟨isHeader_word "previous".toList (by decide) (Text.forall_mem_of_all (by decide)) (by decide)
      rest,
    rfl, rfl, rfl, rfl⟩

theorem mute_tab (rest : List Char) : Mute ('\t' :: rest) := by
  refine ⟨?_, rfl, rfl, rfl, rfl⟩
  have htab : "\t".toList.isPrefixOf ('\t' :: rest) = true := rfl
  rw [isHeader, htab, Bool.not_true, Bool.and_false, Bool.false_and]

/-! ## One entry -/

/-- Lines that start no entry. -/
theorem foldlM_react {lines : List (List Char)} {s : Reader}
    (h : ∀ l ∈ lines, isHeader l = false) :
    ∃ s', lines.foldlM (readLine digits) s = .ok s' ∧
      s'.shadow = lines.foldl Shadow.react s.shadow := by
  induction lines generalizing s with
  | nil => exact ⟨s, rfl, rfl⟩
  | cons l ls ih =>
    obtain ⟨mid, hmid, hshadow⟩ := readLine_shadow digits (s := s)
      (h l List.mem_cons_self)
    obtain ⟨s', hs', hend⟩ := ih (s := mid) fun x hx => h x (List.mem_cons_of_mem l hx)
    refine ⟨s', ?_, by rw [hend, hshadow]; rfl⟩
    rw [List.foldlM_cons, hmid]
    exact hs'

/-- Of a field only the lines cut out of it count, when its name is mute. -/
theorem foldl_fields {fields : List (List Char × List Char)} (sh : Shadow)
    (h : ∀ f ∈ fields, Text.NoBreak f.1 ∧ ∀ rest, Mute (f.1 ++ rest)) :
    (fields.flatMap fun f => pieces (f.1 ++ f.2)).foldl Shadow.react sh
      = (fields.flatMap fun f => Text.extraLines f.2).foldl Shadow.react sh := by
  induction fields generalizing sh with
  | nil => rfl
  | cons f fs ih =>
    obtain ⟨hname, hmute⟩ := h f List.mem_cons_self
    obtain ⟨first, hfirst⟩ := Text.splitlines_behind hname f.2
    rw [List.flatMap_cons, List.flatMap_cons, List.foldl_append, List.foldl_append,
      ih _ fun g hg => h g (List.mem_cons_of_mem f hg), pieces, hfirst, List.foldl_cons,
      (hmute first).react]

theorem laterFields_mute {e : BlameEntry} {f : List Char × List Char} (h : f ∈ e.laterFields) :
    Text.NoBreak f.1 ∧ ∀ rest, Mute (f.1 ++ rest) := by
  have hnames : e.laterFields.map Prod.fst
      = laterNames.map fun name => name.toList ++ [' '] := rfl
  have hname : f.1 ∈ laterNames.map fun name => name.toList ++ [' '] := by
    rw [← hnames]
    exact List.mem_map_of_mem h
  obtain ⟨name, hin, hf⟩ := List.mem_map.1 hname
  have hwhole : ∀ name ∈ laterNames, Text.NoBreak (name.toList ++ [' ']) := by decide
  rw [← hf]
  refine ⟨hwhole name hin, fun rest => ?_⟩
  rw [List.append_assoc]
  exact mute_later hin rest

/-- Between two entries only the boundary is remembered. -/
theorem foldl_closed (records : List View) (pending : Bool) (lines : List (List Char)) :
    lines.foldl Shadow.react ⟨records, none, pending⟩
      = ⟨records, none, lines.foldl carry pending⟩ := by
  induction lines generalizing pending with
  | nil => rfl
  | cons l ls ih =>
    have hstep : Shadow.react ⟨records, none, pending⟩ l = ⟨records, none, carry pending l⟩ := by
      unfold Shadow.react carry
      split
      · rfl
      · split <;> rfl
    rw [List.foldl_cons, hstep, ih]
    rfl

theorem lastAuthor_cons (author l : List Char) (ls : List (List Char)) :
    lastAuthor author (l :: ls) = lastAuthor (lastAuthor author [l]) ls := rfl

theorem lastMail_cons (mail l : List Char) (ls : List (List Char)) :
    lastMail mail (l :: ls) = lastMail (lastMail mail [l]) ls := rfl

theorem lastAuthor_single {l : List Char} (h : "author ".toList.isPrefixOf l = false)
    (author : List Char) : lastAuthor author [l] = author :=
  if_neg (by rw [h]; exact Bool.false_ne_true)

theorem lastMail_single {l : List Char} (h : "author-mail ".toList.isPrefixOf l = false)
    (mail : List Char) : lastMail mail [l] = mail :=
  if_neg (by rw [h]; exact Bool.false_ne_true)

theorem hear_eq (v : View) (l : List Char) : v.hear l
    = ⟨v.commit, v.finalLine, lastAuthor v.author [l], lastMail v.authorMail [l], v.boundary⟩ := by
  unfold View.hear
  split
  · rename_i hauthor
    have hmail : "author-mail ".toList.isPrefixOf l = false := by
      cases hm : "author-mail ".toList.isPrefixOf l with
      | false => rfl
      | true =>
        have h₁ := List.isPrefixOf_iff_prefix.1 hauthor
        have h₂ := List.isPrefixOf_iff_prefix.1 hm
        exact absurd (List.prefix_of_prefix_length_le h₁ h₂ (by decide)) (by decide)
    rw [lastMail_single hmail, show lastAuthor v.author [l] = l.drop 7 from if_pos hauthor]
  · rename_i hauthor
    rw [lastAuthor_single (by simpa only [Bool.not_eq_true] using hauthor)]
    split
    · rename_i hmail
      rw [show lastMail v.authorMail [l] = stripAngles (l.drop 12) from if_pos hmail]
    · rename_i hmail
      rw [lastMail_single (by simpa only [Bool.not_eq_true] using hmail)]

/-- Inside an entry the last author and the last address count, and any boundary. -/
theorem foldl_open (records : List View) (v : View) (pending : Bool) {lines : List (List Char)}
    (h : ∀ l ∈ lines, closes l = false) :
    lines.foldl Shadow.react ⟨records, some v, pending⟩
      = ⟨records, some ⟨v.commit, v.finalLine, lastAuthor v.author lines,
          lastMail v.authorMail lines, v.boundary || lines.any marks⟩,
        pending || lines.any marks⟩ := by
  induction lines generalizing v pending with
  | nil =>
    rw [List.any_nil, Bool.or_false, Bool.or_false]
    rfl
  | cons l ls ih =>
    have hclose := h l List.mem_cons_self
    have hstep : Shadow.react ⟨records, some v, pending⟩ l
        = ⟨records, some ⟨v.commit, v.finalLine, lastAuthor v.author [l],
            lastMail v.authorMail [l], v.boundary || marks l⟩, pending || marks l⟩ := by
      rw [Shadow.react, hclose, if_neg Bool.false_ne_true]
      cases hmark : marks l with
      | true =>
        rw [if_pos rfl, lastAuthor_single (isPrefixOf_head (show 'b' ≠ 'a' by decide) hmark),
          lastMail_single (isPrefixOf_head (show 'b' ≠ 'a' by decide) hmark), Bool.or_true,
          Bool.or_true]
        rfl
      | false =>
        rw [if_neg Bool.false_ne_true, Bool.or_false, Bool.or_false, Option.map_some, hear_eq]
    rw [List.foldl_cons, hstep, ih _ _ fun x hx => h x (List.mem_cons_of_mem l hx),
      lastAuthor_cons v.author l ls, lastMail_cons v.authorMail l ls, List.any_cons, Bool.or_assoc,
      Bool.or_assoc]

/-- The path line closes the record, and nothing is remembered behind it. -/
theorem react_filename (sh : Shadow) (path : List Char) :
    sh.react ("filename ".toList ++ path) = match sh.current with
      | some v => ⟨sh.records ++ [{ v with boundary := v.boundary || sh.pending }], none, false⟩
      | none => { sh with pending := false } := rfl

/-- What the reader makes of an entry. -/
def readAs (pending : Bool) (e : BlameEntry) : View :=
  ⟨hex e.commit, e.finalLine, lastAuthor e.author (openLines e),
    lastMail (stripAngles e.authorMail) (openLines e),
    (pending || (openLines e).any marks) || (e.boundary && !(extraLines e).any closes)⟩

/-- The lines cut out of the fields, the marks and the path: the record is closed by the first path
line among them. -/
theorem foldl_record (records : List View) (v : View) (pending : Bool) (e : BlameEntry)
    (hv : v.boundary = false) :
    (extraLines e ++ e.markLines ++ ["filename ".toList ++ label [] e.filename]).foldl
        Shadow.react ⟨records, some v, pending⟩
      = ⟨records ++ [⟨v.commit, v.finalLine, lastAuthor v.author (openLines e),
          lastMail v.authorMail (openLines e),
          (pending || (openLines e).any marks) || (e.boundary && !(extraLines e).any closes)⟩],
        none, false⟩ := by
  have hmarkLines : ∀ sh : Shadow, e.markLines.foldl Shadow.react sh
      = if e.boundary then sh.react "boundary".toList else sh := by
    intro sh
    have hprevious : ∀ sh : Shadow, e.previousLines.foldl Shadow.react sh = sh := by
      intro sh
      unfold BlameEntry.previousLines
      split
      · rfl
      · exact (mute_previous _).react sh
    unfold BlameEntry.markLines
    rw [List.foldl_append, hprevious]
    cases e.boundary <;> rfl
  rw [List.foldl_append, List.foldl_append, hmarkLines, List.foldl_cons, List.foldl_nil,
    react_filename]
  by_cases hclosed : (extraLines e).any closes = true
  · -- a line that was cut out closes the record
    have hsplit : ∃ c rest, closes c = true ∧ extraLines e = openLines e ++ c :: rest := by
      have hne : (extraLines e).dropWhile (fun l => !closes l) ≠ [] := by
        intro hnil
        obtain ⟨c, hc, hcc⟩ := List.any_eq_true.1 hclosed
        have := List.dropWhile_eq_nil_iff.1 hnil c hc
        rw [hcc] at this
        exact absurd this (by decide)
      obtain ⟨c, rest, hcr⟩ := List.exists_cons_of_ne_nil hne
      refine ⟨c, rest, ?_, ?_⟩
      · have hhead := List.head_dropWhile_not (fun l => !closes l) hne
        simpa [hcr] using hhead
      · rw [← hcr]
        exact List.takeWhile_append_dropWhile.symm
    obtain ⟨c, rest, hc, hextra⟩ := hsplit
    have hopen : ∀ l ∈ openLines e, closes l = false := fun l hl => by
      simpa using List.mem_takeWhile_imp hl
    have hmark : marks c = false := isPrefixOf_head (show 'f' ≠ 'b' by decide) hc
    have hfold : (extraLines e).foldl Shadow.react ⟨records, some v, pending⟩
        = ⟨records ++ [⟨v.commit, v.finalLine, lastAuthor v.author (openLines e),
            lastMail v.authorMail (openLines e), pending || (openLines e).any marks⟩],
          none, rest.foldl carry false⟩ := by
      rw [hextra, List.foldl_append, foldl_open records v pending hopen, List.foldl_cons,
        Shadow.react, hmark, hc, if_neg Bool.false_ne_true, if_pos rfl]
      rw [foldl_closed]
      simp only [hv, Bool.false_or]
      rw [Bool.or_left_comm, Bool.or_self]
    rw [hfold, hclosed]
    cases e.boundary <;> simp [Shadow.react, marks]
  · have hclosed : (extraLines e).any closes = false := by simpa using hclosed
    have hnone : ∀ l ∈ extraLines e, closes l = false := fun l hl => by
      simpa using List.any_eq_false.1 hclosed l hl
    have hall : openLines e = extraLines e :=
      List.takeWhile_eq_self_iff.2 fun l hl => by simp [hnone l hl]
    rw [foldl_open records v pending hnone, hclosed, hall, hv, Bool.not_false, Bool.and_true,
      Bool.false_or]
    cases e.boundary with
    | false =>
      rw [if_neg Bool.false_ne_true, Bool.or_false]
      cases pending <;> cases (extraLines e).any marks <;> rfl
    | true =>
      rw [if_pos rfl, Bool.or_true]
      rfl

/-- The brackets that git prints come off with those that the address has itself. -/
theorem stripAngles_printed (mail : List Char) :
    stripAngles ('<' :: mail ++ ['>']) = stripAngles mail := by
  unfold stripAngles
  rw [List.cons_append, List.dropWhile_cons_of_pos (by decide), List.dropWhile_append]
  split
  · rename_i h
    rw [List.isEmpty_iff.1 h]
    rfl
  · rw [List.rdropWhile_concat_pos _ _ _ (by decide)]

/-- The author's lines. -/
theorem foldl_authorFields {e : BlameEntry} (hauthor : Text.NoBreak e.author)
    (hmail : Text.NoBreak e.authorMail) (records : List View) (v : View) (pending : Bool) :
    (e.authorFields.flatMap fun f => pieces (f.1 ++ f.2)).foldl Shadow.react
        ⟨records, some v, pending⟩
      = ⟨records, some { v with author := e.author, authorMail := stripAngles e.authorMail },
        pending⟩ := by
  have hfirst : Text.NoBreak ("author ".toList ++ e.author) :=
    Text.noBreak_append.2 ⟨by decide, hauthor⟩
  have hsecond : Text.NoBreak ("author-mail ".toList ++ ('<' :: e.authorMail ++ ['>'])) :=
    Text.noBreak_append.2 ⟨by decide,
      Text.noBreak_append.2 ⟨Text.noBreak_cons.2 ⟨rfl, hmail⟩, by decide⟩⟩
  have hpieces : (e.authorFields.flatMap fun f => pieces (f.1 ++ f.2))
      = ["author ".toList ++ e.author,
        "author-mail ".toList ++ ('<' :: e.authorMail ++ ['>'])] := by
    simp only [BlameEntry.authorFields, List.flatMap_cons, List.flatMap_nil,
      pieces_noBreak hfirst, pieces_noBreak hsecond, List.append_nil, List.singleton_append]
  have hauthorStep : ∀ v : View, Shadow.react ⟨records, some v, pending⟩
      ("author ".toList ++ e.author)
        = ⟨records, some { v with author := e.author }, pending⟩ := fun _ => rfl
  have hmailStep : ∀ v : View, Shadow.react ⟨records, some v, pending⟩
      ("author-mail ".toList ++ ('<' :: e.authorMail ++ ['>']))
        = ⟨records, some { v with authorMail := stripAngles ('<' :: e.authorMail ++ ['>']) },
          pending⟩ := fun _ => rfl
  rw [hpieces, List.foldl_cons, hauthorStep, List.foldl_cons, hmailStep, stripAngles_printed]
  rfl

/-- **One entry**: it becomes one record, behind what the entry before has left. -/
theorem foldlM_entry {e : BlameEntry} {s : Reader} (hsha : looksLikeSha (hex e.commit) = true)
    (hauthor : Text.NoBreak e.author) (hmail : Text.NoBreak e.authorMail)
    (hbody : ∀ l ∈ body e, isHeader l = false) (hs : s.current = none) :
    ∃ s', (e.header :: body e).foldlM (readLine digits) s = .ok s' ∧
      s'.shadow = ⟨s.shadow.records ++ [readAs s.pendingBoundary e], none, carryAfter e⟩ := by
  obtain ⟨mid, hmid, hstart⟩ := readLine_entry digits hsha hs
  obtain ⟨s', hs', hend⟩ := foldlM_react digits (s := mid) hbody
  refine ⟨s', by rw [List.foldlM_cons, hmid]; exact hs', ?_⟩
  rw [hend, hstart]
  have hnoExtra : e.authorFields.flatMap (fun f => Text.extraLines f.2) = [] := by
    have hangles : Text.NoBreak ('<' :: e.authorMail ++ ['>']) :=
      Text.noBreak_append.2 ⟨Text.noBreak_cons.2 ⟨rfl, hmail⟩, by decide⟩
    simp only [BlameEntry.authorFields, List.flatMap_cons, List.flatMap_nil,
      Text.extraLines_noBreak hauthor, Text.extraLines_noBreak hangles, List.append_nil]
  have hextra : extraLines e = e.laterFields.flatMap fun f => Text.extraLines f.2 := by
    rw [extraLines, List.flatMap_append, hnoExtra, List.nil_append]
  have hsplit : body e = e.authorFields.flatMap (fun f => pieces (f.1 ++ f.2))
      ++ (e.laterFields.flatMap (fun f => pieces (f.1 ++ f.2))
        ++ ((e.markLines ++ ["filename ".toList ++ label [] e.filename])
          ++ pieces ('\t' :: e.content))) := by
    simp [body]
  have hcontent : ∃ first, pieces ('\t' :: e.content)
      = ('\t' :: first) :: Text.extraLines e.content := by
    exact Text.splitlines_behind (s := ['\t']) (by decide) e.content
  obtain ⟨first, hfirst⟩ := hcontent
  rw [hsplit, List.foldl_append, foldl_authorFields hauthor hmail, List.foldl_append,
    foldl_fields _ fun f hf => laterFields_mute hf, ← hextra, List.foldl_append,
    ← List.foldl_append (l := extraLines e), ← List.append_assoc, foldl_record _ _ _ _ rfl, hfirst,
    List.foldl_cons, (mute_tab first).react, foldl_closed]
  rfl

/-! ## All entries -/

/-- Of the lines behind the one that starts an entry, only those that were cut out of a text can be
taken for the start of another. -/
theorem mem_body {e : BlameEntry} {l : List Char} (h : l ∈ body e) :
    isHeader l = false ∨ l ∈ extraLines e ++ Text.extraLines e.content := by
  have hword : ∀ rest, isHeader ("author ".toList ++ rest) = false ∧
      isHeader ("author-mail ".toList ++ rest) = false := fun rest =>
    ⟨isHeader_word "author".toList (by decide) (Text.forall_mem_of_all (by decide)) (by decide)
        rest,
      isHeader_word "author-mail".toList (by decide) (Text.forall_mem_of_all (by decide))
        (by decide) rest⟩
  have hname : ∀ f ∈ e.authorFields ++ e.laterFields,
      Text.NoBreak f.1 ∧ ∀ rest, isHeader (f.1 ++ rest) = false := by
    intro f hf
    rcases List.mem_append.1 hf with hin | hin
    · simp only [BlameEntry.authorFields, List.mem_cons, List.not_mem_nil, or_false] at hin
      rcases hin with rfl | rfl
      · exact ⟨(by decide : Text.NoBreak "author ".toList), fun rest => (hword rest).1⟩
      · exact ⟨(by decide : Text.NoBreak "author-mail ".toList), fun rest => (hword rest).2⟩
    · obtain ⟨hb, hm⟩ := laterFields_mute hin
      exact ⟨hb, fun rest => (hm rest).noHeader⟩
  unfold body at h
  rcases List.mem_append.1 h with hfields | hend
  · rcases List.mem_append.1 hfields with hfield | hmark
    · obtain ⟨f, hf, hl⟩ := List.mem_flatMap.1 hfield
      obtain ⟨hb, hheader⟩ := hname f hf
      obtain ⟨first, hfirst⟩ := Text.splitlines_behind hb f.2
      rw [pieces, hfirst] at hl
      rcases List.mem_cons.1 hl with rfl | hextra
      · exact .inl (hheader first)
      · exact .inr (List.mem_append_left _ (List.mem_flatMap.2 ⟨f, hf, hextra⟩))
    · refine .inl ?_
      rcases List.mem_append.1 hmark with hboundary | hprevious
      · split at hboundary
        · obtain rfl := List.mem_singleton.1 hboundary
          rfl
        · cases hboundary
      · unfold BlameEntry.previousLines at hprevious
        split at hprevious
        · cases hprevious
        · obtain rfl := List.mem_singleton.1 hprevious
          exact (mute_previous _).noHeader
  · rcases List.mem_cons.1 hend with rfl | hcontent
    · refine .inl ?_
      have hclose : "filename ".toList.isPrefixOf ("filename ".toList ++ label [] e.filename)
          = true := rfl
      rw [isHeader, hclose, Bool.not_true, Bool.and_false, Bool.false_and, Bool.false_and]
    · obtain ⟨first, hfirst⟩ := Text.splitlines_behind (s := ['\t']) (by decide) e.content
      rw [show pieces ('\t' :: e.content) = _ from hfirst] at hcontent
      rcases List.mem_cons.1 hcontent with rfl | hextra
      · exact .inl (mute_tab first).noHeader
      · exact .inr (List.mem_append_right _ hextra)

theorem extra_mem_body {e : BlameEntry} {l : List Char}
    (h : l ∈ extraLines e ++ Text.extraLines e.content) : l ∈ body e := by
  unfold body
  rcases List.mem_append.1 h with hin | hin
  · obtain ⟨f, hf, hl⟩ := List.mem_flatMap.1 hin
    refine List.mem_append_left _ (List.mem_append_left _ (List.mem_flatMap.2 ⟨f, hf, ?_⟩))
    have hname : Text.NoBreak f.1 := by
      rcases List.mem_append.1 hf with hf | hf
      · simp only [BlameEntry.authorFields, List.mem_cons, List.not_mem_nil, or_false] at hf
        rcases hf with rfl | rfl
        · exact (by decide : Text.NoBreak "author ".toList)
        · exact (by decide : Text.NoBreak "author-mail ".toList)
      · exact (laterFields_mute hf).1
    obtain ⟨first, hfirst⟩ := Text.splitlines_behind hname f.2
    rw [pieces, hfirst]
    exact List.mem_cons_of_mem _ hl
  · obtain ⟨first, hfirst⟩ := Text.splitlines_behind (s := ['\t']) (by decide) e.content
    refine List.mem_append_right _ (List.mem_cons_of_mem _ ?_)
    rw [show pieces ('\t' :: e.content) = _ from hfirst]
    exact List.mem_cons_of_mem _ hin

/-- What the reader makes of some entries, behind what the one before has left. -/
def readFrom (pending : Bool) : List BlameEntry → List View
  | [] => []
  | e :: es => readAs pending e :: readFrom (carryAfter e) es

/-- An entry that is read as one record. -/
structure Clean (e : BlameEntry) : Prop where
  /-- The commit has a length the reader knows. -/
  commit : looksLikeSha (hex e.commit) = true
  /-- The author is on one line. -/
  author : Text.NoBreak e.author
  /-- The address is on one line. -/
  mail : Text.NoBreak e.authorMail
  /-- It has no further angle brackets around it. -/
  angles : stripAngles e.authorMail = e.authorMail
  /-- No line that was cut out is taken for the start of an entry. -/
  noHeader : ∀ l ∈ extraLines e ++ Text.extraLines e.content, isHeader l = false

variable {digits} in
/-- **Clean entries** become one record each. -/
theorem foldlM_entries {entries : List BlameEntry} {s : Reader} (h : ∀ e ∈ entries, Clean e)
    (hs : s.current = none) :
    ∃ s', (entries.flatMap fun e => e.header :: body e).foldlM (readLine digits) s = .ok s' ∧
      s'.shadow.all = s.shadow.records ++ readFrom s.pendingBoundary entries := by
  induction entries generalizing s with
  | nil => exact ⟨s, rfl, by simp [Shadow.all, Reader.shadow, hs, readFrom]⟩
  | cons e es ih =>
    have he := h e List.mem_cons_self
    have hbody : ∀ l ∈ body e, isHeader l = false := fun l hl =>
      (mem_body hl).elim id (he.noHeader l)
    obtain ⟨mid, hmid, hshadow⟩ := foldlM_entry digits he.commit he.author he.mail
      hbody hs
    have hnone : mid.current = none := by
      have hc := congrArg Shadow.current hshadow
      exact Option.map_eq_none_iff.1 hc
    obtain ⟨s', hs', hend⟩ := ih (s := mid) (fun x hx => h x (List.mem_cons_of_mem e hx)) hnone
    refine ⟨s', ?_, ?_⟩
    · rw [List.flatMap_cons, List.foldlM_append, hmid]
      exact hs'
    · rw [hend, congrArg Shadow.records hshadow,
        show mid.pendingBoundary = carryAfter e from congrArg Shadow.pending hshadow,
        List.append_assoc]
      rfl

/-- When a clean entry is read as it is. -/
theorem readAs_eq_view {e : BlameEntry} (h : Clean e) (pending : Bool) :
    readAs pending e = view e ↔ Intact e pending := by
  unfold readAs view
  rw [h.angles, View.mk.injEq]
  constructor
  · rintro ⟨-, -, hauthor, hmail, hboundary⟩
    refine ⟨h.commit, h.author, h.mail, h.angles, h.noHeader, hauthor, hmail, ?_, ?_⟩
    · intro hb
      rw [hb, Bool.true_and, Bool.or_eq_true, Bool.or_eq_true, List.any_eq_true] at hboundary
      rcases hboundary with (hp | hm) | hc
      · exact .inr (.inl hp)
      · exact .inr (.inr hm)
      · refine .inl fun l hl => ?_
        simpa using List.any_eq_false.1 (by simpa using hc) l hl
    · intro hb
      rw [hb, Bool.false_and, Bool.or_false, Bool.or_eq_false_iff] at hboundary
      exact ⟨hboundary.1, fun l hl => by simpa using List.any_eq_false.1 hboundary.2 l hl⟩
  · intro hi
    refine ⟨rfl, rfl, hi.sameAuthor, hi.sameMail, ?_⟩
    cases hb : e.boundary with
    | false =>
      obtain ⟨hp, hm⟩ := hi.unmarked hb
      rw [hp, Bool.false_and, Bool.or_false, Bool.false_or]
      exact List.any_eq_false.2 fun l hl => by simp [hm l hl]
    | true =>
      rw [Bool.true_and, Bool.or_eq_true, Bool.or_eq_true, List.any_eq_true]
      rcases hi.marked hb with hc | hp | hm
      · refine .inr ?_
        have : (extraLines e).any closes = false :=
          List.any_eq_false.2 fun l hl => by simp [hc l hl]
        rw [this]
        rfl
      · exact .inl (.inl hp)
      · exact .inl (.inr hm)

theorem readFrom_eq_view {entries : List BlameEntry} (h : ∀ e ∈ entries, Clean e)
    (pending : Bool) : readFrom pending entries = entries.map view ↔ AllIntact pending entries := by
  induction entries generalizing pending with
  | nil => exact iff_of_true rfl trivial
  | cons e es ih =>
    rw [readFrom, List.map_cons, List.cons.injEq, readAs_eq_view (h e List.mem_cons_self),
      ih fun x hx => h x (List.mem_cons_of_mem e hx)]
    rfl

theorem AllIntact.clean {entries : List BlameEntry} {pending : Bool}
    (h : AllIntact pending entries) : ∀ e ∈ entries, Clean e := by
  induction entries generalizing pending with
  | nil => exact fun e he => nomatch he
  | cons e es ih =>
    intro x hx
    rcases List.mem_cons.1 hx with rfl | hin
    · exact ⟨h.1.commit, h.1.author, h.1.mail, h.1.angles, h.1.noHeader⟩
    · exact ih h.2 x hin

theorem countP_entries {entries : List BlameEntry}
    (h : ∀ e ∈ entries, looksLikeSha (hex e.commit) = true) :
    (entries.flatMap fun e => e.header :: body e).countP isHeader
      = entries.length + (entries.flatMap body).countP isHeader := by
  induction entries with
  | nil => rfl
  | cons e es ih =>
    rw [List.flatMap_cons, List.flatMap_cons, List.countP_append, List.countP_append,
      List.countP_cons, isHeader_header (h e List.mem_cons_self),
      ih fun x hx => h x (List.mem_cons_of_mem e hx), List.length_cons]
    simp only [if_true]
    omega

theorem parsePorcelain_eq_ok {text : List Char} {records : List Record} :
    parsePorcelain digits text = .ok records ↔ ∃ s',
      (Text.splitlines text).foldlM (readLine digits) Reader.start = .ok s' ∧
        records = s'.records ++ s'.current.toList := by
  unfold parsePorcelain
  cases h : (Text.splitlines text).foldlM (readLine digits) Reader.start with
  | error e => exact iff_of_false (fun h => nomatch h) (by rintro ⟨_, h, _⟩; cases h)
  | ok s =>
    constructor
    · intro hr
      exact ⟨s, rfl, (Except.ok.inj hr).symm⟩
    · rintro ⟨s', hs', rfl⟩
      obtain rfl := Except.ok.inj hs'
      rfl

theorem map_view_all (s : Reader) :
    (s.records ++ s.current.toList).map Record.view = s.shadow.all := by
  cases hc : s.current <;> simp [Shadow.all, Reader.shadow, hc]

/-- **When blame is read exactly.** -/
theorem readsExactly_iff (entries : List BlameEntry) :
    Exact digits entries ↔ AllIntact false entries := by
  have hrun : (∀ e ∈ entries, Clean e) →
      ∃ s', (Text.splitlines (porcelain entries)).foldlM (readLine digits) Reader.start = .ok s' ∧
        s'.shadow.all = readFrom false entries := fun h => by
    rw [splitlines_porcelain]
    exact foldlM_entries h rfl
  constructor
  · rintro ⟨records, hparse, hview⟩
    obtain ⟨s', hs', rfl⟩ := (parsePorcelain_eq_ok digits).1 hparse
    rw [map_view_all] at hview
    -- the records are sound and as many as lines that start an entry
    obtain ⟨hsound, hcount⟩ := foldlM_sound hs' (fun l => Text.noBreak_of_mem_splitlines)
      (fun v hv => nomatch hv)
    rw [hview] at hsound
    have hentry : ∀ e ∈ entries, (view e).Sound := fun e he => hsound _ (List.mem_map_of_mem he)
    rw [splitlines_porcelain, countP_entries fun e he => (hentry e he).commit, hview,
      List.length_map] at hcount
    have hzero : (entries.flatMap body).countP isHeader = 0 := by
      have hstart : Reader.start.shadow.all.length = 0 := rfl
      omega
    have hclean : ∀ e ∈ entries, Clean e := fun e he =>
      ⟨(hentry e he).commit, (hentry e he).author, (hentry e he).mail, (hentry e he).angles,
        fun l hl => by
          have hnot := List.countP_eq_zero.1 hzero l
            (List.mem_flatMap.2 ⟨e, he, extra_mem_body hl⟩)
          simpa using hnot⟩
    obtain ⟨s'', hs'', hread⟩ := hrun hclean
    rw [hs'] at hs''
    obtain rfl := Except.ok.inj hs''
    exact (readFrom_eq_view hclean false).1 (hread.symm.trans hview)
  · intro h
    obtain ⟨s', hs', hread⟩ := hrun h.clean
    refine ⟨_, (parsePorcelain_eq_ok digits).2 ⟨s', hs', rfl⟩, ?_⟩
    rw [map_view_all, hread]
    exact (readFrom_eq_view h.clean false).2 h

/-- The owners of the lines are the records when no two have one line. -/
theorem get?_ownerByLine {records : List Record} (h : (records.map Record.finalLine).Nodup)
    {r : Record} (hr : r ∈ records) : (ownerByLine records).get? r.finalLine = some r := by
  have hrows : ownerByLine records
      = (records.map fun r => (r.finalLine, r)).foldl (fun t x => t.put x.1 x.2)
        Keyed.empty := by
    rw [List.foldl_map]
    rfl
  rw [hrows]
  refine Keyed.get?_puts_of_mem Keyed.empty (r := (r.finalLine, r)) ?_
    (List.mem_map_of_mem (f := fun r => (r.finalLine, r)) hr)
  rw [List.map_map]
  exact h

variable {digits} in
/-- **Blame is read exactly if and only if all entries are intact**, and then every line of a file
has the record of its own entry as its owner. -/
theorem porcelain_spec (entries : List BlameEntry) :
    (Exact digits entries ↔ AllIntact false entries) ∧
      (AllIntact false entries → (entries.map BlameEntry.finalLine).Nodup →
        ∃ records, parsePorcelain digits (porcelain entries) = .ok records ∧
          ∀ e ∈ entries, ∃ r, (ownerByLine records).get? e.finalLine = some r ∧
            r.view = view e) := by
  refine ⟨readsExactly_iff digits entries, fun h hdistinct => ?_⟩
  obtain ⟨records, hparse, hview⟩ := (readsExactly_iff digits entries).2 h
  refine ⟨records, hparse, fun e he => ?_⟩
  have hlines : records.map Record.finalLine
      = entries.map fun e => (e.finalLine : Int) := by
    have hmap := congrArg (List.map View.finalLine) hview
    rw [List.map_map, List.map_map] at hmap
    exact hmap
  have hnodup : (records.map Record.finalLine).Nodup := by
    rw [hlines, show (entries.map fun e => (e.finalLine : Int))
      = (entries.map BlameEntry.finalLine).map Int.ofNat from (List.map_map).symm]
    exact hdistinct.map fun a b hab => Int.ofNat.inj hab
  have hmem : view e ∈ records.map Record.view := by
    rw [hview]
    exact List.mem_map_of_mem he
  obtain ⟨r, hr, hrv⟩ := List.mem_map.1 hmem
  have hline : r.finalLine = e.finalLine := congrArg View.finalLine hrv
  refine ⟨r, ?_, hrv⟩
  rw [← hline]
  exact get?_ownerByLine hnodup hr

/-- One line of a commit by one author. -/
def oneLine (commit : Fin 16) (n : Nat) (content : String) : BlameEntry where
  commit := List.replicate 40 commit
  originalLine := n
  finalLine := n
  group := some 1
  author := "A".toList
  authorMail := "a@b".toList
  authorTime := "0".toList
  authorTz := "+0000".toList
  committer := "A".toList
  committerMail := "a@b".toList
  committerTime := "0".toList
  committerTz := "+0000".toList
  summary := "s".toList
  boundary := false
  previous := none
  filename := "a.c".toList
  content := content.toList

/-- **A line marks the next one**: what stands behind its form feed is taken for a `boundary`
line. -/
theorem boundary_invented :
    ¬ ∀ entries : List BlameEntry, Exact DigitTable.asciiOnly entries := by
  intro h
  obtain ⟨records, hparse, hview⟩ := h [oneLine 1 1 "f();\x0cboundary();", oneLine 2 2 "g();"]
  have hread : ((parsePorcelain DigitTable.asciiOnly (porcelain
      [oneLine 1 1 "f();\x0cboundary();", oneLine 2 2 "g();"])).toOption.map
        fun rs => rs.map fun r => r.view.boundary) = some [false, true] := by
    decide +kernel
  rw [hparse] at hread
  have hflags : records.map (fun r => r.view.boundary) = [false, true] := Option.some.inj hread
  have hmap := congrArg (List.map View.boundary) hview
  rw [List.map_map, List.map_map] at hmap
  exact absurd (hflags.symm.trans hmap) (by decide)

end Blame

end FosCoverage
