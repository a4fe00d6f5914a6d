import FosCoverage.Repository.Project

/-!
# What the services call outside the database

The hash functions, the Git provider with its line map, and the C++ parser with its dependency
resolver are parameters of the model.  They are functions of their arguments: a commit is immutable,
and the parser and the line map are deterministic in the two texts.

* `Env.snapshot` stands for everything the engine learns about one file at two commits.  It fails
  when Git fails (the outer error), refuses with a reason code (`NON_ANCESTOR`, an exhausted
  dependency index), or returns the two texts with their mapping and the comparison of lines.
* `Env.collates` stands for the comparison of names in a query.  In Python names are compared as
  they are.
* `Env.isAncestor` stands for the verification of a commit range.
* `SourceText.compareLine` stands for `compare_line` on the two parsed files: `none` when the line
  may inherit, else the reason why it may not.
-/

set_option autoImplicit false

namespace FosCoverage

/-- `LineMapping`: from the lines of the old text to the lines of the new one. -/
structure LineMapping where
  /-- `get`: no line for an ambiguous or deleted one. -/
  get : Nat → Option Nat
  /-- Membership in `deleted`. -/
  deleted : Nat → Bool
  /-- `fingerprint` -/
  fingerprint : String

/-- The two versions of one source file, compared. -/
structure SourceText where
  /-- `old_lines` -/
  oldLines : List String
  /-- `new_lines` -/
  newLines : List String
  /-- `mapping` -/
  mapping : LineMapping
  /-- `compare_line` at two texts and two line numbers. -/
  compareLine : String → String → Nat → Nat → Option String

/-- What identifies a scan: project, input, repositories, scope and report. -/
structure ScanIdentity where
  /-- `project_name` -/
  projectName : String
  /-- `info_sha256` -/
  infoSha256 : String
  /-- `repositories` -/
  repositories : List RepositoryInput
  /-- `review_scope` -/
  reviewScope : String
  /-- `source_signature` of the report -/
  sourceSignature : String
  deriving DecidableEq, Repr

/-- The functions the services call outside the database. -/
structure Env where
  /-- `=` of two names in SQL.  The tables are `COLLATE utf8mb4_unicode_ci`, under which names that
  differ in case are equal. -/
  collates : String → String → Bool
  /-- `compute_db_file_path_hash`: MD5 of path and repository. -/
  computeDbFilePathHash : String → String → String
  /-- `_item_digest`: SHA-256 of kind, id and revision, as a number. -/
  itemDigest : String → Nat → Nat → Nat
  /-- The default `decision_run_id`: SHA-256 of the Candidate and its predecessor. -/
  decisionRunId : Nat → Option Nat → String
  /-- `ProjectService.scan_key`: SHA-256 of the identity of a scan. -/
  projectScanKey : ScanIdentity → String
  /-- `ScanImportCoordinator._scan_key`: the same with another spelling of the keys. -/
  importScanKey : ScanIdentity → String
  /-- `_estimate_json_bytes` of a file without its lines, by repository, hash, path and name. -/
  estimateBaseBytes : String → String → String → String → Nat
  /-- `_estimate_json_bytes` of a line record. -/
  estimateRecordBytes : LineRecord → Nat
  /-- `is_ancestor` of two commits of a working copy, or why Git failed. -/
  isAncestor : (repoPath oldCommit newCommit : String) → Except String Bool
  /-- The file `path` of a working copy at two commits. -/
  snapshot : (repoPath oldCommit newCommit path : String) → Except String (Except String SourceText)

end FosCoverage
