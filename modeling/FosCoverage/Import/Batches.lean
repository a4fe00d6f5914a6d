import FosCoverage.Service.Project

/-!
# Chunks and batches of the coverage input

The coordinator imports a stream of files in bounded transactions.  A file that is too long is split
into chunks (`iterCoverageFileChunks`), and the chunks are grouped into batches by the number of
files, of lines and of estimated bytes (`iterCoverageBatches`).  A resume produces the same batches
again, since they depend only on the input and the limits.

Putting the chunks of a file together gives its lines back (`flatMap_fileChunks_lines`), and the
batches hold exactly the chunks (`perm_flatten_iterCoverageBatches`).
-/

set_option autoImplicit false

namespace FosCoverage

open Relational

/-- The limits a batch is built with; a limit of zero is no limit. -/
structure BatchLimits where
  /-- `max_lines` -/
  maxLines : Nat
  /-- `max_est_bytes` -/
  maxEstBytes : Nat
  deriving DecidableEq, Repr

namespace ScanImportCoordinator

/-! ## Chunks of a file -/

/-- The estimated size of a chunk with the given lines. -/
def chunkBytes (env : Env) (item : CoverageItem) (lines : List LineRecord) : Nat :=
  env.estimateBaseBytes item.repositoryName item.filePathHash item.filePath item.sourceFileName +
    64 + (lines.map fun r => env.estimateRecordBytes r + 1).sum

/-- A line limit or a byte limit asks for a new chunk before the record. -/
def chunkFull (env : Env) (limits : BatchLimits) (item : CoverageItem) (lines : List LineRecord)
    (record : LineRecord) : Bool :=
  (0 < limits.maxLines ∧ limits.maxLines ≤ lines.length) ∨
    (0 < limits.maxEstBytes ∧
      limits.maxEstBytes < chunkBytes env item lines + (env.estimateRecordBytes record + 1))

/-- The line lists of the chunks of a file; a file without lines has one empty chunk. -/
def chunkLines (env : Env) (limits : BatchLimits) (item : CoverageItem) : List (List LineRecord) :=
  match Grouping.groups (chunkFull env limits item) item.lines with
  | [] => [[]]
  | groups => groups

/-- `emit`: one chunk of a file. -/
def emitChunk (env : Env) (item : CoverageItem) (first last : Bool) (lines : List LineRecord) :
    CoverageItem :=
  { item with
    lines := lines
    chunk := some ⟨if first then 1 else 0, some lines.length, some (chunkBytes env item lines),
      lines.getLast?.map LineRecord.lineNumber, last⟩ }

/-- The chunks of a file whose line lists are known: the first one counts the file, the last one
completes it. -/
def emitChunks (env : Env) (item : CoverageItem) : Bool → List (List LineRecord) → List CoverageItem
  | _, [] => []
  | first, lines :: rest =>
    emitChunk env item first rest.isEmpty lines :: emitChunks env item false rest

/-- `_iter_coverage_file_chunks` for one file.  Without limits a file is one chunk and its lines are
not counted in advance. -/
def fileChunks (env : Env) (limits : BatchLimits) (item : CoverageItem) : List CoverageItem :=
  if limits.maxLines = 0 ∧ limits.maxEstBytes = 0 then
    [{ item with chunk := some ⟨1, none, none, none, true⟩ }]
  else emitChunks env item true (chunkLines env limits item)

/-- `_iter_coverage_file_chunks` -/
def iterCoverageFileChunks (env : Env) (limits : BatchLimits) (files : List CoverageItem) :
    List CoverageItem :=
  files.flatMap (fileChunks env limits)

/-! ## Batches -/

/-- `int(metadata.get("line_count") or 0)` -/
def metaLines (item : CoverageItem) : Nat := (item.chunk.bind ChunkMeta.lineCount).getD 0

/-- `int(metadata.get("estimated_bytes") or 0)` -/
def metaBytes (item : CoverageItem) : Nat := (item.chunk.bind ChunkMeta.estimatedBytes).getD 0

/-- One of the three budgets would be exceeded. -/
def batchFull (maxFiles : Nat) (limits : BatchLimits) (batch : List CoverageItem)
    (chunk : CoverageItem) : Bool :=
  (0 < chunk.fileCountDelta ∧ max 1 maxFiles ≤ (batch.map CoverageItem.fileCountDelta).sum) ∨
    (0 < limits.maxLines ∧
      limits.maxLines < (batch.map metaLines).sum + metaLines chunk) ∨
    (0 < limits.maxEstBytes ∧
      limits.maxEstBytes < (batch.map metaBytes).sum + metaBytes chunk)

/-- `_coverage_sort_key` -/
def sortKeyLe (a b : CoverageItem) : Bool :=
  let last := fun i : CoverageItem => (i.chunk.bind ChunkMeta.lastLineNumber).getD 0
  a.repositoryName < b.repositoryName ∨ (a.repositoryName = b.repositoryName ∧
    (a.filePathHash < b.filePathHash ∨ (a.filePathHash = b.filePathHash ∧
      (a.filePath < b.filePath ∨ (a.filePath = b.filePath ∧ last a ≤ last b)))))

/-- `_iter_coverage_batches` -/
def iterCoverageBatches (env : Env) (files : List CoverageItem) (maxFiles : Nat)
    (limits : BatchLimits) : List (List CoverageItem) :=
  (Grouping.groups (batchFull maxFiles limits) (iterCoverageFileChunks env limits files)).map
    fun batch => batch.insertionSort (sortKeyLe · ·)

/-- `_consume_coverage_batch`: a replayed batch is counted and not written. -/
def consumeCoverageBatch (env : Env) (batch : List CoverageItem) : BatchResult :=
  ⟨(batch.map CoverageItem.fileCountDelta).sum,
    (batch.map fun item => match item.chunk.bind ChunkMeta.lineCount with
      | some n => n
      | none => item.lines.length).sum,
    batch.getLast?.map (ProjectService.fileIdentity env)⟩

/-! ## Nothing is lost -/

section Lossless

variable (env : Env) (limits : BatchLimits)

theorem flatten_chunkLines (item : CoverageItem) :
    (chunkLines env limits item).flatten = item.lines := by
  have h := Grouping.flatten_groups (chunkFull env limits item) item.lines
  unfold chunkLines
  split
  · rename_i hg
    rw [hg] at h
    simpa using h
  · exact h

theorem flatMap_emitChunks_lines (item : CoverageItem) (first : Bool)
    (groups : List (List LineRecord)) :
    (emitChunks env item first groups).flatMap CoverageItem.lines = groups.flatten := by
  induction groups generalizing first with
  | nil => rfl
  | cons lines rest ih => simp [emitChunks, emitChunk, ih]

/-- **The chunks of a file hold its lines, in order.** -/
theorem flatMap_fileChunks_lines (item : CoverageItem) :
    (fileChunks env limits item).flatMap CoverageItem.lines = item.lines := by
  unfold fileChunks
  split
  · simp
  · rw [flatMap_emitChunks_lines, flatten_chunkLines]

/-- The identity of a chunk is that of its file. -/
theorem normalizedItem_of_mem_fileChunks {item chunk : CoverageItem}
    (h : chunk ∈ fileChunks env limits item) :
    ProjectService.normalizedItem env chunk = ProjectService.normalizedItem env item := by
  have emitted : ∀ (first : Bool) (groups : List (List LineRecord)),
      chunk ∈ emitChunks env item first groups →
      ProjectService.normalizedItem env chunk = ProjectService.normalizedItem env item := by
    intro first groups
    induction groups generalizing first with
    | nil => intro h; cases h
    | cons lines rest ih =>
      intro h
      rcases List.mem_cons.1 h with rfl | h
      · rfl
      · exact ih false h
  unfold fileChunks at h
  split at h
  · obtain rfl := List.mem_singleton.1 h
    rfl
  · exact emitted true _ h

/-- A file is counted once, at its first chunk. -/
theorem sum_fileCountDelta_fileChunks (item : CoverageItem) :
    ((fileChunks env limits item).map CoverageItem.fileCountDelta).sum = 1 := by
  have rest : ∀ groups : List (List LineRecord),
      ((emitChunks env item false groups).map CoverageItem.fileCountDelta).sum = 0 := by
    intro groups
    induction groups with
    | nil => rfl
    | cons lines groups ih => simp [emitChunks, emitChunk, CoverageItem.fileCountDelta, ih]
  unfold fileChunks
  split
  · simp [CoverageItem.fileCountDelta]
  · have hne : chunkLines env limits item ≠ [] := by
      unfold chunkLines
      split
      · simp
      · assumption
    obtain ⟨lines, groups, hg⟩ := List.exists_cons_of_ne_nil hne
    rw [hg]
    simp [emitChunks, emitChunk, CoverageItem.fileCountDelta, rest]

/-- **The batches hold exactly the chunks.** -/
theorem perm_flatten_iterCoverageBatches (files : List CoverageItem) (maxFiles : Nat) :
    (iterCoverageBatches env files maxFiles limits).flatten.Perm
      (iterCoverageFileChunks env limits files) := by
  have h := Grouping.flatten_groups (batchFull maxFiles limits)
    (iterCoverageFileChunks env limits files)
  unfold iterCoverageBatches
  generalize Grouping.groups (batchFull maxFiles limits)
    (iterCoverageFileChunks env limits files) = groups at h
  rw [← h]
  clear h
  induction groups with
  | nil => exact List.Perm.refl _
  | cons g groups ih =>
    rw [List.map_cons, List.flatten_cons, List.flatten_cons]
    exact (List.perm_insertionSort _ g).append ih

end Lossless

end ScanImportCoordinator

end FosCoverage
