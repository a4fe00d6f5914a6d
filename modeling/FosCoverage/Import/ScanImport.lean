import FosCoverage.Import.Lcov
import FosCoverage.Service.Project

/-!
# From LCOV records to files

The part of `app/inject/service.py` between the LCOV reader and the ingestion.

* `repositoryName` assigns a path to a repository and cuts its root off.
* `functionLookup` resolves the lines of a file to its functions with one pointer for the ascending
  lines; ranges that cannot be resolved uniquely give none at all.
* `buildFile` is one turn of `iter_files`.  The path hash is taken of the repository name and the
  path as they are stored, with a NUL between them.

`iterFiles` serves both imports: the streamed one feeds it with `iterInfoRecords`, the materialised
one (`build_files`) with the dictionary of `parseInfo`.
-/

set_option autoImplicit false

namespace FosCoverage

open Relational Lcov

namespace ScanImportService

/-! ## Paths -/

/-- `replace("\\", "/")` -/
def forwardSlashes (s : String) : String :=
  String.ofList (s.toList.map fun c => if c = '\\' then '/' else c)

/-- `rstrip("/")` -/
def rstripSlashes (s : List Char) : List Char := (s.reverse.dropWhile (· = '/')).reverse

/-- The root of a repository as paths are compared with it. -/
def rootOf (r : RepositoryInput) : List Char :=
  rstripSlashes (forwardSlashes r.repositoryPath).toList

/-- The path is the root, or below it. -/
def underRoot (path root : List Char) : Bool :=
  root ≠ [] && (path = root || (root ++ ['/']).isPrefixOf path)

/-- `_repository_name`: the repository of a path and the path within it. -/
def repositoryName (path : String) (repositories : List RepositoryInput) :
    Except LcovError (String × String) :=
  match repositories.filter fun r => underRoot path.toList (rootOf r) with
  | [r] =>
    if (rootOf r ++ ['/']).isPrefixOf path.toList then
      .ok (r.repositoryName, String.ofList (path.toList.drop ((rootOf r).length + 1)))
    else .ok (r.repositoryName, basename path)
  | _ =>
    match repositories with
    | [] => .ok ("", path)
    | [r] => if r.repositoryName ≠ "" then .ok (r.repositoryName, path) else .ok ("", path)
    | _ => .error (.notUnique path)

/-! ## Functions of a line -/

/-- A range of `_function_lookup`. -/
structure LookupRange where
  /-- The first line. -/
  start : Nat
  /-- The last line. -/
  stop : Nat
  /-- `name` -/
  name : String
  deriving DecidableEq, Repr

/-- A range that names lines. -/
def lookupRange (r : FunctionRecord) : Option LookupRange :=
  match r.endLine with
  | none => none
  | some stop => if r.startLine < 1 ∨ stop < r.startLine then none
    else some ⟨r.startLine, stop, r.name⟩

/-- `_function_lookup`: the ranges in ascending order, when all are valid and no two meet.  The sort
is stable, so the index decides last as in the source. -/
def functionLookup (ranges : List FunctionRecord) : Option (List LookupRange) := do
  let normalized := (← ranges.mapM lookupRange).insertionSort fun a b =>
    a.start < b.start ∨ a.start = b.start ∧ a.stop ≤ b.stop
  if (normalized.zip (normalized.drop 1)).any fun p => p.2.start ≤ p.1.stop then none
  else some normalized

/-- `resolve`: the function of a line, and what remains ahead of the pointer. -/
def resolve (all ahead : List LookupRange) (line : Nat) :
    Option LookupRange × List LookupRange :=
  let ahead := ahead.dropWhile fun r => r.stop < line
  match ahead with
  | [] => (none, ahead)
  | candidate :: _ =>
    if candidate.start ≤ line ∧ line ≤ candidate.stop then (some candidate, ahead)
    else
      -- `bisect_right`: the last range that starts at the line or before
      ((all.takeWhile fun r => r.start ≤ line).getLast?.filter fun r =>
        r.start ≤ line ∧ line ≤ r.stop, ahead)

/-! ## Records of a line -/

/-- `coverage_state` of an execution count. -/
def coverageState (count : Nat) : String := if count = 0 then "uncovered" else "covered"

/-- The record of a line with its function. -/
def lineRecord (line count : Nat) (function : Option LookupRange) : LineRecord where
  lineNumber := line
  lineText := some ""
  coverageState := some (coverageState count)
  blockStartLine := some ((function.map LookupRange.start).getD line)
  blockEndLine := some ((function.map LookupRange.stop).getD line)
  blockType := some (if function.isSome then "function" else "single")
  functionName := some ((function.map LookupRange.name).getD "")
  functionHash := some ""
  codeLineHash := some ""
  codeOccurrence := some 1

/-- `_iter_line_records`, with the ranges and those ahead of the pointer. -/
def lineRecords (all : Option (List LookupRange)) :
    List (Nat × Nat) → List LookupRange → List LineRecord
  | [], _ => []
  | (line, count) :: rest, ahead =>
    match all with
    | none => lineRecord line count none :: lineRecords all rest ahead
    | some ranges =>
      let (function, ahead) := resolve ranges ahead line
      lineRecord line count function :: lineRecords all rest ahead

/-- `sorted(lines.items())` -/
def sortedLines (lines : Keyed Nat Nat) : List (Nat × Nat) :=
  lines.rows.insertionSort fun a b => a.1 ≤ b.1

theorem sortedLines_perm (lines : Keyed Nat Nat) : (sortedLines lines).Perm lines.rows :=
  List.perm_insertionSort _ _

/-! ## Files -/

/-- The text of which the importer takes the path hash. -/
def identityText (repositoryName filePath : String) : String := repositoryName ++ "\x00" ++ filePath

/-- The repository and the path under which the lines of an `SF` path are stored. -/
def assigned (repositories : List RepositoryInput) (filePath : String) :
    Except LcovError (String × String) := do
  let (name, path) ← repositoryName (forwardSlashes filePath) repositories
  if path.toList.head? = some '/' ∨ ':' ∈ path.toList then .error (.notNamespaced filePath)
  else .ok (name, path)

/-- One turn of `iter_files`, with `md5` for the hexadecimal digest of a text. -/
def buildFile (md5 : String → String) (repositories : List RepositoryInput) (record : InfoRecord) :
    Except LcovError CoverageItem := do
  let (name, path) ← assigned repositories record.filePath
  let lookup := if record.functionRangeFallback then none
    else functionLookup record.functionRanges
  pure { repositoryName := name
         filePathHash := md5 (identityText name path)
         filePath := path
         sourceFileName := basename path
         lines := lineRecords lookup (sortedLines record.lines) (lookup.getD []) }

/-- `iter_files` -/
def iterFiles (md5 : String → String) (repositories : List RepositoryInput)
    (records : List InfoRecord) : Except LcovError (List CoverageItem) :=
  records.mapM (buildFile md5 repositories)

/-! ## What a file of the importer is -/

variable {md5 : String → String} {repositories : List RepositoryInput} {record : InfoRecord}
  {item : CoverageItem}

theorem buildFile_ok (h : buildFile md5 repositories record = .ok item) :
    assigned repositories record.filePath = .ok (item.repositoryName, item.filePath) ∧
      item.filePathHash = md5 (identityText item.repositoryName item.filePath) ∧
      item.sourceFileName = basename item.filePath ∧ item.chunk = none := by
  simp only [buildFile, Outcome.bind_eq_ok, Outcome.pure_eq_ok, Prod.exists] at h
  obtain ⟨name, path, hassigned, rfl⟩ := h
  exact ⟨hassigned, rfl, rfl, rfl⟩

/-- An assigned path is all a file needs. -/
theorem exists_buildFile {pair : String × String}
    (h : assigned repositories record.filePath = .ok pair) :
    ∃ item, buildFile md5 repositories record = .ok item :=
  ⟨_, by rw [buildFile, h, Outcome.ok_bind]; rfl⟩

/-- The records of the lines have the numbers and the counts of the dictionary, in order. -/
theorem map_lineRecords (all : Option (List LookupRange)) (lines : List (Nat × Nat))
    (ahead : List LookupRange) :
    (lineRecords all lines ahead).map (fun r => (r.lineNumber, r.coverageState)) =
      lines.map fun l => (l.1, some (coverageState l.2)) := by
  induction lines generalizing ahead with
  | nil => rfl
  | cons l rest ih =>
    obtain ⟨line, count⟩ := l
    cases all with
    | none => rw [lineRecords, List.map_cons, List.map_cons, ih]; rfl
    | some ranges => rw [lineRecords, List.map_cons, List.map_cons, ih]; rfl

theorem buildFile_lines (h : buildFile md5 repositories record = .ok item) :
    item.lines.map (fun r => (r.lineNumber, r.coverageState)) =
      (sortedLines record.lines).map fun l => (l.1, some (coverageState l.2)) := by
  simp only [buildFile, Outcome.bind_eq_ok, Outcome.pure_eq_ok, Prod.exists] at h
  obtain ⟨name, path, _, rfl⟩ := h
  exact map_lineRecords _ _ _

/-- The numbers of a file are the keys of the dictionary. -/
theorem lineNumbers_of_buildFile (h : buildFile md5 repositories record = .ok item) :
    item.lines.map LineRecord.lineNumber = (sortedLines record.lines).map Prod.fst := by
  have hlines := congrArg (List.map Prod.fst) (buildFile_lines h)
  rw [List.map_map, List.map_map] at hlines
  exact hlines

/-- **A file has no line number twice.** -/
theorem nodup_of_buildFile (h : buildFile md5 repositories record = .ok item) :
    (item.lines.map LineRecord.lineNumber).Nodup := by
  rw [lineNumbers_of_buildFile h]
  exact ((sortedLines_perm record.lines).map Prod.fst).nodup_iff.2 record.lines.nodup

/-- **A line has a record exactly when the section counts it.** -/
theorem exists_line_of_buildFile (h : buildFile md5 repositories record = .ok item) {n : Nat} :
    (∃ r ∈ item.lines, r.lineNumber = n) ↔ (record.lines.get? n).isSome = true := by
  rw [← List.mem_map, lineNumbers_of_buildFile h,
    ((sortedLines_perm record.lines).map Prod.fst).mem_iff, List.mem_map]
  constructor
  · rintro ⟨⟨n, count⟩, hmem, rfl⟩
    rw [Keyed.get?_eq_some_iff.2 hmem]
    rfl
  · intro h
    obtain ⟨count, hcount⟩ := Option.isSome_iff_exists.1 h
    exact ⟨(n, count), Keyed.get?_eq_some_iff.1 hcount, rfl⟩

end ScanImportService

end FosCoverage
