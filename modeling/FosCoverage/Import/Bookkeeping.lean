import FosCoverage.Import.CoordinatorSpec

/-!
# Where the batch bookkeeping raises

A worker compares its batches with its checkpoint and with its input, and raises one of five
failures when they do not fit (`Failure.bookkeeping`).  Nothing else it calls raises one of them:
neither the repositories it writes through, nor the engine, nor the ready gate, nor the publication.
So a claim about these failures is one about the four comparisons.

There is one lemma for each call, built as the call is.
-/

set_option autoImplicit false

namespace FosCoverage

open Outcome

/-- The failures of `_ingest_coverage_in_batches` about its own counters and limits. -/
def Failure.bookkeeping : Failure → Bool
  | .batchSizeChanged | .batchPolicyChanged | .batchSequence | .inputCountMismatch
  | .countMismatch => true
  | _ => false

variable {env : Env} {db : Db}

/-! ## Repositories -/

namespace ProjectRepository

theorem assertScanBuilding_avoids {scanId : Nat} :
    Avoids Failure.bookkeeping (assertScanBuilding db scanId) :=
  .bind (.orFail rfl) fun _ => .require rfl

theorem normalizeFile_avoids {seen : List FileItem} {item : FileItem} :
    Avoids Failure.bookkeeping (normalizeFile seen item) := by
  refine .bind (.require rfl) fun _ => ?_
  split
  · exact .bind (.require rfl) fun _ => .pure _
  · exact .pure _

theorem assertFileIdentity_avoids {scanId : Nat} {item : FileItem} :
    Avoids Failure.bookkeeping (assertFileIdentity db scanId item) := by
  unfold assertFileIdentity
  split
  · exact .require rfl
  · exact .pure _

theorem ensureFiles_avoids {scanId : Nat} {items : List FileItem} :
    Avoids Failure.bookkeeping (ensureFiles db scanId items) :=
  .bind assertScanBuilding_avoids fun _ => .bind (.foldlM (fun _ _ => normalizeFile_avoids) _ _)
    fun _ => .bind (.forM (fun _ => assertFileIdentity_avoids) _) fun _ => .pure _

end ProjectRepository

namespace LineIndexRepository

theorem assertLineFact_avoids {fileId : Nat} {facts : LineFacts} :
    Avoids Failure.bookkeeping (assertLineFact db fileId facts) := by
  unfold assertLineFact
  split
  · exact .require rfl
  · exact .pure _

theorem upsertLines_avoids {fileId : Nat} {records : List LineRecord} :
    Avoids Failure.bookkeeping (upsertLines db fileId records) :=
  .bind (.bind (.orFail rfl) fun _ => .bind (.orFail rfl) fun _ => .require rfl) fun _ =>
    .bind (.forM (fun _ => .require rfl) _) fun _ => .bind (.require rfl) fun _ =>
      .bind (.forM (fun _ => assertLineFact_avoids) _) fun _ => .pure _

end LineIndexRepository

namespace ProjectService

theorem ingestItem_avoids {scanId : Nat} {item : CoverageItem} :
    Avoids Failure.bookkeeping (ingestItem env scanId db item) :=
  .bind (.orFail rfl) fun _ => .foldlM (fun _ _ => LineIndexRepository.upsertLines_avoids) _ _

theorem ingestFileBatch_avoids {scanId : Nat} {batch : List CoverageItem} :
    Avoids Failure.bookkeeping (ingestFileBatch env db scanId batch) := by
  refine .bind ProjectRepository.assertScanBuilding_avoids fun _ => .ite (.pure _) ?_
  exact .bind ProjectRepository.ensureFiles_avoids fun _ =>
    .bind (.foldlM (fun _ _ => ingestItem_avoids) _ _) fun _ => .pure _

end ProjectService

namespace AnalysisDomainRepository

theorem createBlock_avoids {block : Block} :
    Avoids Failure.bookkeeping (createBlock db block) :=
  .bind (.require rfl) fun _ => .bind (.bind (.orFail rfl) fun _ => .require rfl) fun _ => .pure _

theorem validateLink_avoids {scanId : Nat} {missing : Failure} {item : LinkItem}
    (h : missing.bookkeeping = false) :
    Avoids Failure.bookkeeping (validateLink db scanId missing item) := by
  refine .bind (.orFail rfl) fun line => .bind (.orFail rfl) fun _ => .bind ?_ fun _ =>
    .bind ?_ fun _ => .bind ?_ fun _ => ?_
  · unfold validateBlock
    split
    · exact .pure _
    · exact .bind (.orFail h) fun _ => .bind (.require rfl) fun _ => .require rfl
  · unfold validateGroup
    split
    · exact .pure _
    · exact .bind (.orFail rfl) fun _ => .require rfl
  · unfold validateSource
    split
    · exact .pure _
    · exact .bind (.orFail rfl) fun _ => .require rfl
    · exact .error rfl
  · unfold validateRevision
    split
    · exact .pure _
    · exact .require rfl

theorem createLink_avoids {scanId : Nat} {item : LinkItem} :
    Avoids Failure.bookkeeping (createLink db scanId item) :=
  .bind (validateLink_avoids rfl) fun _ => .pure _

end AnalysisDomainRepository

/-! ## The engine -/

namespace PredecessorResolver

theorem resolve_avoids {env : Env} {scanId : Nat} :
    Avoids Failure.bookkeeping (resolve env db scanId) := by
  refine .bind (.orFail rfl) fun _ => ?_
  split
  · exact .pure _
  · split
    · exact .pure _
    · exact .ite (.pure _) (.pure _)

end PredecessorResolver

namespace InheritanceEngine

variable {ctx : RunContext} {st : RunState} {r : SourceRelation} {lineId : Nat} {line : LineRow}

theorem snapshotForRelation_avoids :
    Avoids Failure.bookkeeping (snapshotForRelation ctx db r) := by
  unfold snapshotForRelation
  refine .ite (.pure _) (.ite (.pure _) (.ite (.pure _) ?_))
  split
  · exact .error rfl
  · exact .pure _

theorem cloneRecord_avoids {recordId : Nat} :
    Avoids Failure.bookkeeping (cloneRecord st recordId) := by
  unfold cloneRecord
  split
  · exact .pure _
  · exact .bind (.orFail rfl) fun _ => .pure _

theorem candidateBlockForRelation_avoids {mapping : LineMapping} {recordId : Nat} :
    Avoids Failure.bookkeeping (candidateBlockForRelation ctx mapping st r line recordId) := by
  refine .bind (.require rfl) fun _ => ?_
  dsimp only
  split
  · exact .pure _
  · exact .bind AnalysisDomainRepository.createBlock_avoids fun _ => .pure _

theorem inheritRelation_avoids {mapping : LineMapping} :
    Avoids Failure.bookkeeping (inheritRelation ctx mapping st r lineId line) :=
  .bind cloneRecord_avoids fun _ => .bind candidateBlockForRelation_avoids fun _ =>
    .bind AnalysisDomainRepository.createLink_avoids fun _ => .pure _

theorem runRelation_avoids {source : SourceText} {targetFileId : Nat} :
    Avoids Failure.bookkeeping (runRelation ctx source targetFileId st r) := by
  unfold runRelation
  split
  · exact .pure _
  · split
    · exact .pure _
    · unfold persistRelationDecision
      dsimp only
      split
      · exact .pure _
      · exact .ite (.pure _) inheritRelation_avoids

theorem runFile_avoids {file : Nat × FileRow} :
    Avoids Failure.bookkeeping (runFile ctx st file) := by
  refine .ite (.pure _) ?_
  split
  · exact .pure _
  · dsimp only
    split
    · exact .pure _
    · refine .bind snapshotForRelation_avoids fun result => ?_
      cases result with
      | error _ => exact .pure _
      | ok source => exact .foldlM (fun _ _ => runRelation_avoids) _ _

theorem run_avoids {scanId : Nat} {paths : List (String × String)} :
    Avoids Failure.bookkeeping (run env db scanId paths) := by
  refine .bind PredecessorResolver.resolve_avoids fun _ => ?_
  split
  · exact .pure _
  · exact .bind (.foldlM (fun _ _ => runFile_avoids) _ _) fun _ => .pure _

end InheritanceEngine

/-! ## Checkpoints, locks and artifacts -/

namespace ImportCheckpointRepository

variable {jobId seq fence : Nat}

theorem compareAndSet_avoids {f : Checkpoint → Checkpoint} :
    Avoids Failure.bookkeeping (compareAndSet db jobId seq fence f) :=
  .bind (.orFail rfl) fun _ => .bind (.require rfl) fun _ => .pure _

theorem advance_avoids {phase : Phase} {payload : Payload} :
    Avoids Failure.bookkeeping (advance db jobId seq fence phase payload) :=
  .bind (.orFail rfl) fun _ => .bind (.require rfl) fun _ => .bind (.require rfl) fun _ =>
    compareAndSet_avoids

theorem saveBatch_avoids {payload : Payload} :
    Avoids Failure.bookkeeping (saveBatch db jobId seq fence payload) :=
  .bind (.orFail rfl) fun _ => .bind (.require rfl) fun _ => compareAndSet_avoids

end ImportCheckpointRepository

namespace RepositoryResourceLockService

variable {jobId ownerToken : Nat}

theorem assertFence_avoids {resourceId fencingToken : Nat} :
    Avoids Failure.bookkeeping (assertFence db resourceId jobId ownerToken fencingToken) :=
  .bind (.orFail rfl) fun _ => .require rfl

end RepositoryResourceLockService

namespace ImmutableArtifactStager

variable {artifactId : Nat} {observed : Observed}

theorem getDescriptor_avoids : Avoids Failure.bookkeeping (getDescriptor db artifactId observed) :=
  .bind (.orFail rfl) fun _ => .bind (.require rfl) fun _ => .bind (.require rfl) fun _ => .pure _

theorem verifyStaged_avoids {sha256 : String} :
    Avoids Failure.bookkeeping (verifyStaged db artifactId sha256 observed) :=
  .bind getDescriptor_avoids fun _ => .bind (.require rfl) fun _ => .pure _

end ImmutableArtifactStager

/-! ## Transactions of a worker -/

namespace FileStateService

theorem rebuildValidateAndMarkReadyInTransaction_avoids {projectId scanId version : Nat}
    {fileIds : Option (List Nat)} {ready : Bool} : Avoids Failure.bookkeeping
      (rebuildValidateAndMarkReadyInTransaction db projectId scanId version fileIds ready) :=
  .bind (.require rfl) fun _ => .bind (.require rfl) fun _ => .pure _

end FileStateService

namespace ScanPublicationService

theorem validate_avoids {readSet : ReadSetArg} {candidate : Nat} {predecessor : Option Nat} :
    Avoids Failure.bookkeeping (validate env db readSet candidate predecessor) := by
  unfold validate
  split
  · exact .pure _
  · refine .bind (.require rfl) fun _ => .bind (.require rfl) fun _ => ?_
    split
    · exact .require rfl
    · exact .bind (.require rfl) fun _ => .require rfl
  · exact .forM (fun _ => .bind (.require rfl) fun _ => .bind (.require rfl) fun _ =>
      .require rfl) _

theorem publishInTransaction_avoids {projectId scanId : Nat} {expected : Option (Option Nat)}
    {readSet : ReadSetArg} {fence : Db → Except Failure Unit}
    (h : ∀ d, Avoids Failure.bookkeeping (fence d)) : Avoids Failure.bookkeeping
      (publishInTransaction env db projectId scanId expected readSet fence) :=
  .bind (.orFail rfl) fun _ => .bind (.require rfl) fun _ => .bind (.require rfl) fun _ =>
    .bind (.require rfl) fun _ => .bind (.require rfl) fun _ => .bind validate_avoids fun _ =>
      .bind (h _) fun _ => .pure _

end ScanPublicationService

namespace ScanImportCoordinator

variable {jobId ownerToken fencingToken scanId : Nat}

theorem assertAllFences_avoids {c : Checkpoint} :
    Avoids Failure.bookkeeping (assertAllFences db jobId ownerToken fencingToken c) :=
  .bind (.require rfl) fun _ => .forM (fun _ => RepositoryResourceLockService.assertFence_avoids) _

theorem runPhaseOperation_avoids {target : Phase} {payload : Payload}
    {op : Db → Payload → Except Failure (Db × Payload)}
    (h : ∀ d p, Avoids Failure.bookkeeping (op d p)) : Avoids Failure.bookkeeping
      (runPhaseOperation db jobId ownerToken fencingToken target payload op) := by
  refine .bind (.orFail rfl) fun _ => .ite (.pure _) ?_
  exact .bind (.require rfl) fun _ => .bind assertAllFences_avoids fun _ => .bind (h _ _) fun _ =>
    .bind ImportCheckpointRepository.advance_avoids fun _ => .pure _

theorem noOperation_avoids {payload : Payload} :
    Avoids Failure.bookkeeping (noOperation db payload) := .pure _

theorem computeInheritance_avoids {paths : List (String × String)} {payload : Payload} :
    Avoids Failure.bookkeeping (computeInheritance env scanId paths db payload) :=
  .bind InheritanceEngine.run_avoids fun _ => .pure _

theorem verifyConsistency_avoids {payload : Payload} :
    Avoids Failure.bookkeeping (verifyConsistency jobId scanId db payload) :=
  .bind (.require rfl) fun _ => .bind (.orFail rfl) fun _ =>
    .bind FileStateService.rebuildValidateAndMarkReadyInTransaction_avoids fun _ => .pure _

theorem sealImport_avoids :
    Avoids Failure.bookkeeping (sealImport db jobId ownerToken fencingToken) :=
  .bind (.orFail rfl) fun _ => .bind assertAllFences_avoids fun _ => .bind (.orFail rfl) fun _ =>
    .bind (.require rfl) fun _ => ImportCheckpointRepository.advance_avoids

theorem publishTransaction_avoids {expected : Option Nat} {readSet : Option ReadSetArg} :
    Avoids Failure.bookkeeping (publishTransaction env db jobId expected readSet) := by
  refine .bind (.orFail rfl) fun _ => .bind (.orFail rfl) fun _ => .ite (.pure _) ?_
  refine .bind (.require rfl) fun _ => .bind (ScanPublicationService.publishInTransaction_avoids
    fun d => ?_) fun _ => ?_
  · exact .forM (fun _ => RepositoryResourceLockService.assertFence_avoids) _
  · exact .bind ImportCheckpointRepository.advance_avoids fun _ => .bind (.orFail rfl)
      fun _ => .pure _

theorem loadExecutionContext_avoids {owner fence : Option Nat} {verify : Bool}
    {observed : ImmutableArtifactStager.Observed} : Avoids Failure.bookkeeping
      (loadExecutionContext db jobId owner fence verify observed) :=
  .bind (.orFail rfl) fun _ => .bind (.require rfl) fun _ => .bind (.orFail rfl) fun _ =>
    .bind assertAllFences_avoids fun _ => .ite
      (.bind ImmutableArtifactStager.verifyStaged_avoids fun _ => .pure _)
      (.bind ImmutableArtifactStager.getDescriptor_avoids fun _ => .pure _)

theorem verifyGitSnapshot_avoids {paths : List (String × String)} {s : Snapshot} :
    Avoids Failure.bookkeeping (verifyGitSnapshot env paths s) := by
  unfold verifyGitSnapshot
  dsimp only
  refine .ite (.pure _) (.ite (.error rfl) ?_)
  split
  · exact .error rfl
  · exact .require rfl

end ScanImportCoordinator

end FosCoverage
