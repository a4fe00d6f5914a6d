import Mathlib.Data.List.Sort
import Mathlib.Data.String.Basic
import FosCoverage.Lib.Json
import FosCoverage.Lib.Outcome
import FosCoverage.Lib.Table
import FosCoverage.Repository.Project

/-!
# The report registry

`ReportRegistry` (`reports/registry.py`) with the checks of `reports/identity.py`: the files that
say in which directories the pages of a report lie.

* `validateReportId` and `validateReportMode` read an id and a mode; a `ReportId` carries the proof
  that it has the form.
* `loadEntry`, `loadAll` and `prune` read the files, read them together with the list of the format
  before, and drop the directories that are gone.
* `check` is `register` up to the first write: what the call asks for, completed from the entry
  that is there, and the errors it raises.  `store` is the rest: after the pruning it reads the
  entry anew and merges once more, by another rule.
* `resolveExactRoot` reads one directory off an entry.

A file holds any JSON value, and so does the metadata of a call: a key can be present, empty or
absent.  The file system answers as it likes at each call (`Disk`).
-/

set_option autoImplicit false

namespace FosCoverage

open Outcome Relational

namespace ReportRegistry

/-! ## Ids and modes -/

/-- What a call raises. -/
inductive RegistryError
  /-- `ValueError(message)` -/
  | value (message : String)
  /-- An exception of `int` or of a loop. -/
  | number (e : NumberError)
  deriving DecidableEq, Repr

/-- A character of `[A-Za-z0-9_-]`. -/
def isIdChar (c : Char) : Bool := c.isAlphanum || c == '_' || c == '-'

/-- `REPORT_ID_RE.match(value)` -/
def isReportId (value : List Char) : Bool :=
  1 ≤ value.length && value.length ≤ 64 && value.all isIdChar

/-- An id of the form `REPORT_ID_RE`. -/
structure ReportId where
  /-- The id. -/
  text : String
  /-- Its form. -/
  valid : isReportId text.toList = true
  deriving DecidableEq

/-- `validate_report_id` -/
def validateReportId (reportId : String) : Except RegistryError ReportId :=
  let value := Text.strip reportId.toList
  if h : isReportId value = true then
    .ok ⟨String.ofList value, by rw [String.toList_ofList]; exact h⟩
  else .error (.value "invalid report_id")

/-- `REPORT_MODES` -/
inductive ReportMode
  /-- `LEGACY_STATIC` -/
  | legacyStatic
  /-- `VNEXT_ARTIFACT_READY` -/
  | vnextArtifactReady
  deriving DecidableEq, Repr

/-- A mode as it is stored. -/
def ReportMode.text : ReportMode → String
  | .legacyStatic => "LEGACY_STATIC"
  | .vnextArtifactReady => "VNEXT_ARTIFACT_READY"

/-- `str.upper` of a character, as far as the capitals are letters of a mode.  Another letter
beyond ASCII stays: neither it nor its capital occurs in a mode. -/
def upperChar (c : Char) : List Char :=
  if c = 'ı' then ['I'] else if c = 'ſ' then ['S']
  else if c = 'ﬅ' ∨ c = 'ﬆ' then ['S', 'T'] else [c.toUpper]

/-- `validate_report_mode` -/
def validateReportMode (t : UnicodeTables) (reportMode : Json) : Except RegistryError ReportMode :=
  let value := (reportMode.or (.text ReportMode.legacyStatic.text)).str t
  let value := (Text.strip value.toList).flatMap upperChar
  if value = ReportMode.legacyStatic.text.toList then .ok .legacyStatic
  else if value = ReportMode.vnextArtifactReady.text.toList then .ok .vnextArtifactReady
  else .error (.value "invalid report_mode")

/-! ## Dictionaries -/

/-- A dictionary. -/
abbrev Dict := List (String × Json)

/-- `d[key] = value` -/
def assign (key : String) (value : Json) : Dict → Dict
  | [] => [(key, value)]
  | (k, v) :: d => if k = key then (k, value) :: d else (k, v) :: assign key value d

/-- `value is not None` -/
def isGiven : Json → Bool
  | .null => false
  | _ => true

/-- `value not in (None, "")` -/
def isFilled : Json → Bool
  | .null => false
  | .text s => s ≠ ""
  | _ => true

/-- `int(value)` -/
def int (t : UnicodeTables) (value : Json) : Except RegistryError Int :=
  (value.toInt t).mapError .number

/-! ## The file system -/

/-- The file system outside of the registry, as one call sees it. -/
structure Disk where
  /-- `os.path.realpath` -/
  realpath : String → String
  /-- `os.path.isdir` -/
  isDir : String → Bool
  /-- `os.path.islink` -/
  isLink : String → Bool
  /-- The value in `legacy_path`, where that is a file which can be read. -/
  legacy : Option Json

/-- `os.path.join(directory, name)` -/
def joinPath (directory name : String) : String :=
  if name.toList.head? = some '/' then name
  else if directory = "" ∨ directory.toList.getLast? = some '/' then directory ++ name
  else directory ++ "/" ++ name

/-- `os.path.dirname` -/
def dirname (path : String) : String :=
  let head := path.toList.reverse.dropWhile (· ≠ '/')
  if head.all (· = '/') then String.ofList head.reverse
  else String.ofList (head.dropWhile (· = '/')).reverse

/-- `os.path.join(directory, ".source_cache", report_id)` -/
def sidecarDir (directory reportId : String) : String :=
  joinPath (joinPath directory ".source_cache") reportId

/-- `_canonical_report_root` -/
def canonicalReportRoot (t : UnicodeTables) (disk : Disk) (id : ReportId) (path : Json) : String :=
  if path.truthy = false then ""
  else
    let candidate := disk.realpath (path.str t)
    if basename candidate = id.text ∧ basename (dirname candidate) = ".source_cache" then
      disk.realpath (dirname (dirname candidate))
    else if basename candidate = ".source_cache" then disk.realpath (dirname candidate)
    else candidate

/-! ## The registry -/

/-- The registry: whether its directory was made, and the value in the file of each report. -/
structure Registry where
  /-- `os.path.isdir(registry_dir)` -/
  made : Bool
  /-- The files. -/
  files : Keyed ReportId Json

/-- A registry nothing was registered in. -/
def Registry.empty : Registry := ⟨false, Keyed.empty⟩

/-- A value as `load_exact` and `load_all` return it.  They set `report_id` and `directories`. -/
structure Entry where
  /-- The keys as they were read. -/
  fields : Dict
  /-- `value["directories"]` -/
  directories : List String

/-- The dictionary of an entry whose directories are `directories`. -/
def Entry.toDict (e : Entry) (id : ReportId) (directories : List String) : Dict :=
  assign "directories" (.array (directories.map .text)) (assign "report_id" (.text id.text) e.fields)

/-- `os.path.realpath(item)` of a value, which has to be a text. -/
def realpathOf (disk : Disk) : Json → Except NumberError String
  | .text s => .ok (disk.realpath s)
  | _ => .error .typeError

/-- The body of `load_exact`: the value in a file, none where it cannot be used. -/
def readEntry (disk : Disk) (id : ReportId) : Json → Option Entry
  | .object fields =>
    match Json.get fields "report_id" with
    | .null => directories fields
    | .text s => if s = id.text then directories fields else none
    | _ => none
  | _ => none
where
  /-- `[os.path.realpath(item) for item in value.get("directories") or [] if item]` -/
  directories (fields : Dict) : Option Entry :=
    match ((Json.get fields "directories").or (.array [])).iterate >>= fun items =>
        (items.filter Json.truthy).mapM (realpathOf disk) with
    | .ok directories => some ⟨fields, directories⟩
    | .error _ => none

/-- `load_exact` of an id that is valid. -/
def Registry.loadEntry (st : Registry) (disk : Disk) (id : ReportId) : Option Entry :=
  (st.files.get? id).bind (readEntry disk id)

/-- One file of the first loop of `load_all`. -/
def addEntry (disk : Disk) (result : Keyed ReportId Entry) (r : ReportId × Json) :
    Keyed ReportId Entry :=
  match readEntry disk r.1 r.2 with
  | some e => result.put r.1 e
  | none => result

/-- The first loop of `load_all`: the files in the order of their names. -/
def Registry.registered (st : Registry) (disk : Disk) : Keyed ReportId Entry :=
  if st.made then
    (st.files.rows.insertionSort fun a b => a.1.text ++ ".json" ≤ b.1.text ++ ".json").foldl
      (addEntry disk) Keyed.empty
  else Keyed.empty

/-- `[os.path.realpath(item) for item in directories or []]`, where a text is one directory. -/
def legacyDirectories (disk : Disk) (value : Json) : Except NumberError (List String) :=
  let directories : Json := match value with
    | .text s => .array [.text s]
    | value => value
  (directories.or (.array [])).iterate >>= fun items => items.mapM (realpathOf disk)

/-- The entry of a report that only the list of the format before has. -/
def Entry.ofLegacy (directories : List String) : Entry :=
  ⟨[("sidecar_required", .bool false)], directories⟩

/-- The second loop of `load_all`: what it adds to `result`.  A value whose directories cannot be
read ends the loop. -/
def legacyEntries (disk : Disk) (result : Keyed ReportId Entry) :
    Dict → Keyed ReportId Entry → Keyed ReportId Entry
  | [], added => added
  | (key, value) :: rest, added =>
    if (result.rows ++ added.rows).any (fun r => r.1.text = key) then
      legacyEntries disk result rest added
    else
      match validateReportId key with
      | .error _ => legacyEntries disk result rest added
      | .ok id =>
        match legacyDirectories disk value with
        | .error _ => added
        | .ok directories => legacyEntries disk result rest (added.put id (.ofLegacy directories))

/-- The reports of the format before that `load_all` adds. -/
def Registry.legacy (st : Registry) (disk : Disk) : Keyed ReportId Entry :=
  match disk.legacy with
  | some (.object entries) => legacyEntries disk (st.registered disk) entries Keyed.empty
  | _ => Keyed.empty

/-- `load_all` -/
def Registry.loadAll (st : Registry) (disk : Disk) : Keyed ReportId Entry :=
  (st.legacy disk).rows.foldl (fun result r => result.put r.1 r.2) (st.registered disk)

/-- `_requires_sidecar` -/
def requiresSidecar (disk : Disk) (e : Entry) (directory : String) : Bool :=
  (Json.get e.fields "sidecar_required").truthy ||
    (e.fields.lookup "sidecar_required").isNone && disk.isDir (joinPath directory ".source_cache")

/-- The directory is there, and so is what a required sidecar has in it for `reportId`. -/
def isUsable (disk : Disk) (reportId : String) (e : Entry) (directory : String) : Bool :=
  disk.isDir directory &&
    (!requiresSidecar disk e directory || disk.isDir (sidecarDir directory reportId))

/-- The directories of an entry that `prune` keeps. -/
def Entry.kept (e : Entry) (disk : Disk) (id : ReportId) : List String :=
  e.directories.filter (isUsable disk id.text e)

/-- `prune` at one report: the registry, and the reports removed so far. -/
def pruneEntry (disk : Disk) (acc : Registry × List ReportId) (r : ReportId × Entry) :
    Registry × List ReportId :=
  let directories := r.2.kept disk r.1
  if directories ≠ [] then
    if directories ≠ r.2.directories then
      ({ acc.1 with files := acc.1.files.put r.1 (.object (r.2.toDict r.1 directories)) }, acc.2)
    else acc
  else if (acc.1.files.get? r.1).isSome then
    ({ acc.1 with files := acc.1.files.deleteWhere fun id _ => id = r.1 }, acc.2 ++ [r.1])
  else acc

/-- `prune` -/
def Registry.prune (st : Registry) (disk : Disk) : Registry × List ReportId :=
  if st.made then (st.loadAll disk).rows.foldl (pruneEntry disk) (st, []) else (st, [])

/-- `resolve_exact_root` -/
def Registry.resolveExactRoot (st : Registry) (disk : Disk) (reportId : String) :
    Except RegistryError (Option String) := do
  let id ← validateReportId reportId
  match st.loadEntry disk id with
  | none => pure none
  | some e =>
    match e.directories.filter (isUsable disk reportId e) with
    | [root] => pure (some root)
    | _ => pure none

/-! ## Registration -/

/-- The complete identity tuple is in the metadata of the call. -/
def identified (t : UnicodeTables) (metadata : Dict) (directories : List Json) :
    Except RegistryError Bool :=
  if (Json.get metadata "asset_identity").truthy then do
    let schema ← int t ((Json.get metadata "sidecar_schema").or (.int 0))
    pure (decide (0 < schema) &&
      ((Json.get metadata "report_root").truthy || !directories.isEmpty) &&
      isGiven (Json.get metadata "scan_id"))
  else pure false

/-- The mode a call asks for, and whether it does so explicitly. -/
def requestedMode (t : UnicodeTables) (metadata existing : Dict) (directories : List Json) :
    Except RegistryError (Json × Bool) :=
  let requested := Json.get metadata "report_mode"
  if isGiven requested then pure (requested, true)
  else
    let requested := Json.get existing "report_mode"
    let explicit := (Json.get existing "report_mode_explicit").truthy
    if isGiven requested && explicit then pure (requested, explicit)
    else do
      let vnext ← identified t metadata directories
      let mode := if vnext then ReportMode.vnextArtifactReady else ReportMode.legacyStatic
      pure (.text mode.text, vnext)

/-- A call that passed its checks. -/
structure Checked where
  /-- `report_id` -/
  id : ReportId
  /-- `report_mode` -/
  mode : ReportMode
  /-- `mode_explicit` -/
  explicit : Bool
  /-- `directories` -/
  directories : List String

/-- `register` up to `if not directories`. -/
def Registry.check (t : UnicodeTables) (st : Registry) (disk : Disk) (reportId : String)
    (directories : List Json) (metadata : Dict) : Except RegistryError Checked := do
  let id ← validateReportId reportId
  let existing := ((st.loadEntry disk id).map Entry.fields).getD []
  let (requested, explicit) ← requestedMode t metadata existing directories
  let mode ← validateReportMode t requested
  let root := ((Json.get metadata "report_root").or (Json.get existing "report_root")).or (.text "")
  let asset := if isFilled (Json.get metadata "asset_identity")
    then Json.get metadata "asset_identity"
    else (Json.get existing "asset_identity").or (.text "")
  let schema ← int t (if isFilled (Json.get metadata "sidecar_schema")
    then Json.get metadata "sidecar_schema"
    else (Json.get existing "sidecar_schema").or (.int 0))
  let scan := if isGiven (Json.get metadata "scan_id") then Json.get metadata "scan_id"
    else Json.get existing "scan_id"
  let directories := if directories.isEmpty && root.truthy then [root] else directories
  if mode = .vnextArtifactReady then
    require (.value "VNEXT report_root is required") (root.truthy = true ∨ directories ≠ [])
    require (.value "VNEXT asset_identity is required") (asset.truthy = true)
    require (.value "VNEXT sidecar_schema is required") (0 < schema)
    require (.value "VNEXT scan_id is required") (isGiven scan = true)
  let roots := directories.map (canonicalReportRoot t disk id)
  pure ⟨id, mode, explicit,
    (roots.filter fun path => path ≠ "" && disk.isDir path && !disk.isLink path).eraseDups⟩

/-- `set(a) == set(b)` -/
def SameSet (a b : List String) : Prop := a ⊆ b ∧ b ⊆ a

instance (a b : List String) : Decidable (SameSet a b) := inferInstanceAs (Decidable (_ ∧ _))

/-- `sorted(set(...))` over the names of repositories. -/
def repositoryNames (t : UnicodeTables) (value : Json) : Except RegistryError (List String) := do
  let items ← ((value.or (.array [])).iterate).mapError .number
  let names := items.map fun item => (item.or (.text "")).str t
  pure ((names.filter (· ≠ "")).eraseDups.insertionSort (· ≤ ·))

/-- `metadata.get(key, current.get(key, default))` -/
def merged (metadata current : Dict) (key : String) (default : Json) : Json :=
  Json.getD metadata key (Json.getD current key default)

/-- `payload` -/
def payload (t : UnicodeTables) (checked : Checked) (metadata current : Dict)
    (directories : List String) : Except RegistryError Dict := do
  let schema ← int t ((merged metadata current "sidecar_schema" (.int 0)).or (.int 0))
  let names ← repositoryNames t (merged metadata current "repository_names" (.array []))
  pure [("report_id", .text checked.id.text),
    ("directories", .array (directories.map .text)),
    ("sidecar_required", .bool (decide (checked.mode = .vnextArtifactReady) ||
      (merged metadata current "sidecar_required" (.bool false)).truthy)),
    ("report_root", merged metadata current "report_root" (.text "")),
    ("scan_id", merged metadata current "scan_id" .null),
    ("source_signature", merged metadata current "source_signature" (.text "")),
    ("report_mode", .text checked.mode.text),
    ("report_mode_explicit", .bool checked.explicit),
    ("sidecar_schema", .int schema),
    ("asset_identity", (merged metadata current "asset_identity" (.text "")).or (.text "")),
    ("repository_names", .array (names.map .text)),
    ("session_id", (merged metadata current "session_id" (.text "")).or (.text ""))]

/-- The directories the entry of a report has. -/
def Registry.existingDirectories (st : Registry) (disk : Disk) (id : ReportId) : List String :=
  (((st.loadEntry disk id).map Entry.directories).getD []).eraseDups

/-- `register` behind the pruning. -/
def Registry.store (t : UnicodeTables) (st : Registry) (disk : Disk) (checked : Checked)
    (metadata : Dict) : Except RegistryError (Option Dict) × Registry :=
  let current := ((st.loadEntry disk checked.id).map Entry.fields).getD []
  let existing := st.existingDirectories disk checked.id
  let other := existing ≠ [] ∧ ¬ SameSet existing checked.directories
  if other ∧ (Json.get metadata "replace").truthy = false then
    (.error (.value "report_id is already registered to another root"), st)
  else
    let existing := if other then [] else existing
    match payload t checked metadata current (existing ++ checked.directories).eraseDups with
    | .error e => (.error e, st)
    | .ok value => (.ok (some value), { st with files := st.files.put checked.id (.object value) })

/-- The registry as `register` finds it when it stores: the directory is there, and what is gone is
pruned. -/
def Registry.cleared (st : Registry) (disk : Disk) : Registry :=
  (({ st with made := true } : Registry).prune disk).1

/-- `register` -/
def Registry.register (t : UnicodeTables) (st : Registry) (disk : Disk) (reportId : String)
    (directories : List Json) (metadata : Dict) : Except RegistryError (Option Dict) × Registry :=
  match st.check t disk reportId directories metadata with
  | .error e => (.error e, st)
  | .ok checked =>
    if checked.directories = [] then (.ok none, st)
    else (st.cleared disk).store t disk checked metadata

end ReportRegistry

end FosCoverage
