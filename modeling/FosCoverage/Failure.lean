/-!
# What the services raise

One constructor for every distinct exception the modelled functions raise, with the text of the
exception in `Failure.message`.  The coordinator reads the text back: `publish` takes the part
before the first colon as an error code and decides from it whether a Candidate is `ABORTED` or
`FAILED`, so the codes are part of the program's behaviour and not only of its log.
-/

set_option autoImplicit false

namespace FosCoverage

/-- The exceptions of the repositories and services. -/
inductive Failure
  -- projects, scans and physical facts
  | projectNameRequired
  | projectNotFound
  | scanNotFound (scanId : Nat)
  | scanNotBound
  | scanSealed (scanId : Nat)
  | notConstruction
  | sealedStatusInvalid
  | identityRequiresCommit
  | identityRequiresProvenance
  | snapshotImmutable
  | existingScanMismatch
  | repositoryNameRequired
  | repositoryRetired
  | fileIdentityRequired
  | duplicateFileIdentity
  | fileIdentityImmutable
  | fileNotFound (fileId : Nat)
  | factsSealed
  | lineNumberPositive
  | duplicateLineIdentity
  | lineFactImmutable
  -- analysis domain
  | mutationRequiresCurrentScan
  | invalidLineRange
  | lineRangeTooLarge
  | tooManyLines
  | fileIdentityNotFound
  | lineNotInScan
  | lineNumberIdentityMismatch
  | lineNotFound
  | invalidStatus (status : String)
  | staleRelationRevision
  | staleContentRevision
  | staleRejectionRevision
  | expectedRecordRevisionRequired
  | recordNotFound
  | duplicateRecordInUpdate
  | lineIdRequired
  | duplicateLineInBatch
  | analysisRecordNotFound
  | invalidBlockRange
  | blockFileScanMismatch
  | lineScanIdentityMismatch
  | blockNotFound
  | groupNotFound
  | sourceRelationNotFound
  | blockIdentityMismatch
  | blockLineRangeMismatch
  | groupIdentityMismatch
  | sourceRelationMismatch
  | blockAmbiguous
  | selectionRequired
  | selectionExceedsLimit
  | relationNotActive
  | rejectionNotActive
  | readyGateFailed (reason : String)
  -- locks, checkpoints and durable imports
  | repositoryBusy (resourceId : Nat)
  | resourceNotFound
  | lockFencingFailed
  | checkpointNotFound
  | phaseRegression
  | phaseSkip
  | staleCheckpoint
  | staleFencing
  | resourceRequired
  | infoSha256Mismatch
  | jobIdAlreadyExists
  | scanImportJobNotFound
  | importJobNotFound
  | batchSizeChanged
  | batchPolicyChanged
  | batchSequence
  | inputCountMismatch
  | countMismatch
  | domainInconsistent
  | scanNotImporting
  | importNotSealed
  | jobStateFenceFailed
  | gitAncestryFailed
  | technicalFailure (detail : String)
  -- publication and recovery
  | candidateScanNotFound
  | candidateNotBound
  | candidateNotSealed
  | currentPointerChanged
  | predecessorMismatch
  | readSetChanged
  | unsupportedHandler
  | checkpointMissing
  | importScanIdMismatch
  | importProjectIdMismatch
  | checkpointShaMismatch
  | invalidJobTransition
  | jobOwnerRequired
  | artifactNotFound
  | stagedFileMissing
  | artifactNotImmutable
  | stagedArtifactChanged
  deriving DecidableEq, Repr

/-- The text of the exception. -/
def Failure.message : Failure → String
  | .projectNameRequired => "project_name is required"
  | .projectNotFound => "project not found"
  | .scanNotFound scanId => "scan not found: " ++ toString scanId
  | .scanNotBound => "scan is not bound to project"
  | .scanSealed scanId => "scan " ++ toString scanId ++ " is sealed and immutable"
  | .notConstruction => "new scans must be created in a construction state"
  | .sealedStatusInvalid => "sealed scan status must be ready or sealed"
  | .identityRequiresCommit => "verified scan identity requires commit_sha"
  | .identityRequiresProvenance => "verified scan identity requires identity_provenance"
  | .snapshotImmutable => "repository snapshot is immutable"
  | .existingScanMismatch => "existing scan identity does not match repository snapshots"
  | .repositoryNameRequired => "repository_name is required"
  | .repositoryRetired => "REPOSITORY_RETIRED"
  | .fileIdentityRequired => "file_path and file_path_hash are required"
  | .duplicateFileIdentity => "duplicate file identity has conflicting paths"
  | .fileIdentityImmutable => "file identity is immutable"
  | .fileNotFound fileId => "file not found: " ++ toString fileId
  | .factsSealed => "scan facts are sealed and immutable"
  | .lineNumberPositive => "line_number must be positive"
  | .duplicateLineIdentity => "duplicate physical line identity in batch"
  | .lineFactImmutable => "physical line fact is immutable"
  | .mutationRequiresCurrentScan => "MUTATION_REQUIRES_CURRENT_SCAN"
  | .invalidLineRange => "invalid analysis line range"
  | .lineRangeTooLarge => "analysis line range is too large"
  | .tooManyLines => "too many analysis lines in one batch"
  | .fileIdentityNotFound => "file identity not found"
  | .lineNotInScan => "physical source line is not in scan"
  | .lineNumberIdentityMismatch => "LINE_NUMBER_IDENTITY_MISMATCH"
  | .lineNotFound => "physical source line not found"
  | .invalidStatus status => "invalid analysis status: " ++ status
  | .staleRelationRevision => "STALE_RELATION_REVISION"
  | .staleContentRevision => "STALE_CONTENT_REVISION"
  | .staleRejectionRevision => "STALE_REJECTION_REVISION"
  | .expectedRecordRevisionRequired => "EXPECTED_RECORD_REVISION_REQUIRED"
  | .recordNotFound => "analysis record not found"
  | .duplicateRecordInUpdate => "duplicate analysis record in update batch"
  | .lineIdRequired => "LINE_ID_REQUIRED"
  | .duplicateLineInBatch => "DUPLICATE_LINE_IN_BATCH"
  | .analysisRecordNotFound => "ANALYSIS_RECORD_NOT_FOUND"
  | .invalidBlockRange => "invalid analysis block range"
  | .blockFileScanMismatch => "ANALYSIS_BLOCK_FILE_SCAN_IDENTITY_MISMATCH"
  | .lineScanIdentityMismatch => "LINE_SCAN_IDENTITY_MISMATCH"
  | .blockNotFound => "ANALYSIS_BLOCK_NOT_FOUND"
  | .groupNotFound => "INHERITANCE_GROUP_NOT_FOUND"
  | .sourceRelationNotFound => "SOURCE_RELATION_NOT_FOUND"
  | .blockIdentityMismatch => "ANALYSIS_BLOCK_IDENTITY_MISMATCH"
  | .blockLineRangeMismatch => "ANALYSIS_BLOCK_LINE_RANGE_MISMATCH"
  | .groupIdentityMismatch => "INHERITANCE_GROUP_IDENTITY_MISMATCH"
  | .sourceRelationMismatch => "SOURCE_RELATION_IDENTITY_MISMATCH"
  | .blockAmbiguous => "BLOCK_AMBIGUOUS"
  | .selectionRequired => "line_id and expected_relation_revision are required"
  | .selectionExceedsLimit => "selected_line_ids exceeds limit"
  | .relationNotActive => "INHERITANCE_RELATION_NOT_ACTIVE"
  | .rejectionNotActive => "REJECTION_NOT_ACTIVE"
  | .readyGateFailed _ => "FILE_STATE_READY_GATE_FAILED"
  | .repositoryBusy resourceId =>
    "resource " ++ toString resourceId ++ " is owned by another active import"
  | .resourceNotFound => "physical repository resource not found"
  | .lockFencingFailed => "LOCK_FENCING_FAILED"
  | .checkpointNotFound => "import checkpoint not found"
  | .phaseRegression => "IMPORT_PHASE_REGRESSION"
  | .phaseSkip => "IMPORT_PHASE_SKIP"
  | .staleCheckpoint => "STALE_IMPORT_CHECKPOINT"
  | .staleFencing => "STALE_IMPORT_FENCING"
  | .resourceRequired => "physical repository resource is required"
  | .infoSha256Mismatch => "INFO_SHA256_MISMATCH"
  | .jobIdAlreadyExists => "JOB_ID_ALREADY_EXISTS"
  | .scanImportJobNotFound => "scan_import job not found"
  | .importJobNotFound => "import job not found"
  | .batchSizeChanged => "COVERAGE_IMPORT_BATCH_SIZE_CHANGED"
  | .batchPolicyChanged => "COVERAGE_IMPORT_BATCH_POLICY_CHANGED"
  | .batchSequence => "COVERAGE_IMPORT_BATCH_SEQUENCE"
  | .inputCountMismatch => "COVERAGE_IMPORT_INPUT_COUNT_MISMATCH"
  | .countMismatch => "COVERAGE_IMPORT_COUNT_MISMATCH"
  | .domainInconsistent => "ANALYSIS_DOMAIN_INCONSISTENT"
  | .scanNotImporting => "SCAN_NOT_IMPORTING"
  | .importNotSealed => "IMPORT_NOT_SEALED"
  | .jobStateFenceFailed => "JOB_STATE_FENCE_FAILED"
  | .gitAncestryFailed => "GIT_ANCESTRY_FAILED"
  | .technicalFailure detail => detail
  | .candidateScanNotFound => "candidate scan not found"
  | .candidateNotBound => "candidate scan is not bound to project"
  | .candidateNotSealed => "candidate scan is not sealed"
  | .currentPointerChanged => "CURRENT_POINTER_CHANGED"
  | .predecessorMismatch => "PREDECESSOR_MISMATCH"
  | .readSetChanged => "READ_SET_CHANGED"
  | .unsupportedHandler => "UNSUPPORTED_SCAN_IMPORT_HANDLER"
  | .checkpointMissing => "IMPORT_CHECKPOINT_MISSING"
  | .importScanIdMismatch => "IMPORT_SCAN_ID_MISMATCH"
  | .importProjectIdMismatch => "IMPORT_PROJECT_ID_MISMATCH"
  | .checkpointShaMismatch => "IMPORT_CHECKPOINT_SHA_MISMATCH"
  | .invalidJobTransition => "INVALID_JOB_TRANSITION"
  | .jobOwnerRequired => "JOB_OWNER_REQUIRED"
  | .artifactNotFound => "staged artifact not found"
  | .stagedFileMissing => "staged file not found"
  | .artifactNotImmutable => "STAGED_ARTIFACT_NOT_IMMUTABLE"
  | .stagedArtifactChanged => "STAGED_ARTIFACT_CHANGED"

/-- `str(exc).split(":", 1)[0]`: the part of the text before the first colon. -/
def Failure.errorCode (f : Failure) : String :=
  String.ofList (f.message.toList.takeWhile (· ≠ ':'))

end FosCoverage
