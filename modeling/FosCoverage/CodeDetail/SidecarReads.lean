import FosCoverage.CodeDetail.SidecarCaches
import FosCoverage.CodeDetail.SidecarFiles
import FosCoverage.Lib.Outcome

/-!
# Reading a sidecar

`load_lines_ranges`, `load_lines_range` and `load_full_source_context` on the files of one search
directory, with the caches of the store.

* What a read does to the caches is what `SidecarCaches` says; a payload is cached with its JSON text,
  of which a `Codec` makes the value again.
* The rows that a read hands out are those of the cache.  `get_code_lines_batch` writes the analysis of
  a line into them (`annotateRow`), so a cached chunk is its text only as long as nothing has been
  `written` into its rows.
* `Coherent` says that a cached `meta.json` was what the version with its signature holds, and a
  cached chunk what the versions in its identity hold, and that signatures tell contents.  Every read
  keeps it, whatever files are written meanwhile (`coherent_run`).
* `loadFullSourceContext` asks for windows of `MAX_TOTAL_RANGE_SPAN` lines, each of which is refused
  above `MAX_RANGE_SPAN`, and for all chunks of one at once.
-/

set_option autoImplicit false

namespace FosCoverage

namespace CodeDetail

open Relational SourceReader

/-! ## The store -/

/-- `json.dumps` and `json.loads` for the values of a format. -/
structure Codec (α : Type) where
  /-- The text of a value. -/
  dumps : α → String
  /-- The value of a text. -/
  loads : String → Option α

/-- A store: its limits and arguments, and JSON. -/
structure SidecarConfig where
  /-- The limits of the caches. -/
  limits : SidecarStore.CacheLimits
  /-- `chunk_size` -/
  chunkSize : Nat
  /-- `asset_identity` -/
  assetIdentity : String
  /-- `sha256` of the JSON text of some lines. -/
  hash : List LineDict → String
  /-- JSON of `meta.json`. -/
  metaJson : Codec Meta
  /-- JSON of a chunk. -/
  linesJson : Codec (List LineDict)
  /-- JSON of a file in the old format. -/
  legacyJson : Codec LegacyFile

/-- **JSON returns what was written**, of all that the files ever hold. -/
structure SidecarConfig.Faithful (cfg : SidecarConfig) (v : Volume) : Prop where
  /-- `meta.json` -/
  metaJson : ∀ {r f σ m}, v.metaAt r f σ = some m →
    cfg.metaJson.loads (cfg.metaJson.dumps m) = some m
  /-- Chunks. -/
  linesJson : ∀ {r f name τ lines}, v.chunkAt r f name τ = some lines →
    cfg.linesJson.loads (cfg.linesJson.dumps lines) = some lines

/-- The caches and the files that are there. -/
structure SidecarState where
  /-- The store with its budget. -/
  account : SidecarStore.Account
  /-- The versions of the files. -/
  directory : Directory
  /-- The rows of a cached chunk, or of a cached file in the old format, as they are since a reader has
  written into them; none as long as they are those of the JSON text. -/
  written : PayloadKey → Option (List LineDict)

/-- A new store. -/
def SidecarState.opened (budget : ByteBudget) (directory : Directory) : SidecarState :=
  ⟨(SidecarStore.empty, budget), directory, fun _ => none⟩

/-- The path of a file's directory; the key of its metadata has it. -/
def chunkDir (reportId filePathHash : String) : String := reportId ++ "/" ++ filePathHash

namespace SidecarState

/-- Put a payload; its rows are new objects. -/
def put (cfg : SidecarConfig) (s : SidecarState) (kind : PayloadKind) (key : PayloadKey)
    (payload : Payload) : SidecarState :=
  { s with
    account := SidecarStore.cachePutWithin cfg.limits kind key payload s.account
    written := fun k => if k = key ∧ kind ≠ .metadata then none else s.written k }

/-- Pop an entry. -/
def remove (s : SidecarState) (kind : PayloadKind) (key : PayloadKey) : SidecarState :=
  { s with account := SidecarStore.cacheRemoveLocked s.account kind key }

/-- Move an entry to the end. -/
def touch (s : SidecarState) (kind : PayloadKind) (key : PayloadKey) : SidecarState :=
  { s with account := (s.account.1.touch kind key, s.account.2) }

/-- The cached value of a key, if it has the signature. -/
def cached {α : Type} (s : SidecarState) (json : Codec α) (kind : PayloadKind) (key : PayloadKey)
    (signature : Option Signature) : Option α :=
  match (s.account.1.cache kind).get? key with
  | none => none
  | some payload => if payload.signature = signature then json.loads payload.text else none

/-- The rows of a cached payload as they are now. -/
def currentRows (cfg : SidecarConfig) (s : SidecarState) (key : PayloadKey) :
    Option (List LineDict) :=
  match key with
  | .chunk _ _ _ _ => (s.cached cfg.linesJson .chunk key none).map fun rows =>
    (s.written key).getD rows
  | .file _ _ _ => (((s.account.1.cache .legacy).get? key).bind fun payload =>
    cfg.legacyJson.loads payload.text).map fun file => (s.written key).getD file.lines

end SidecarState

/-! ## Annotations -/

/-- The record of a line in an overlay; a text that is missing is empty. -/
structure LineAnalysis where
  /-- `status` -/
  status : List Char
  /-- `reviewer` -/
  reviewer : List Char
  /-- `is_draft` -/
  isDraft : Bool
  /-- `coverage_method` -/
  coverageMethod : List Char
  /-- `uncovered_reason` -/
  uncoveredReason : List Char

/-- What `get_code_lines_batch` writes into the row of a line. -/
def annotateRow (record : Option LineAnalysis) (row : LineDict) : LineDict :=
  let filled := match record with
    | some rec => { row with
      analysisState := some (if rec.status = [] then "未确认".toList else rec.status)
      reviewer := some (if rec.reviewer = [] then row.suggestedReviewer.getD [] else rec.reviewer)
      isDraft := some rec.isDraft
      coverageMethod := some rec.coverageMethod
      uncoveredReason := some rec.uncoveredReason }
    | none => { row with
      analysisState := some "未确认".toList
      reviewer := some (row.suggestedReviewer.getD [])
      isDraft := some false }
  let fillStatus := if record.any fun rec => rec.status ≠ [] then "已填写" else "未填写"
  { filled with
    isPendingAnalysis := some (isLinePendingAnalysis (filled.coverageState.getD .covered)
      (some (filled.analysisState.getD "未确认".toList)) (filled.isDraft.getD false)
      (some fillStatus.toList)) }

/-- `get_code_lines_batch` writes the records of an overlay into the rows of a range, as far as a
cached payload has them. -/
def SidecarState.annotate (cfg : SidecarConfig) (s : SidecarState) (key : PayloadKey)
    (range : Nat × Nat) (overlay : Int → Option LineAnalysis) : SidecarState :=
  match s.currentRows cfg key with
  | none => s
  | some rows =>
    let rows := rows.map fun row =>
      if (range.1 : Int) ≤ row.number ∧ row.number ≤ (range.2 : Int) then
        annotateRow (overlay row.number) row
      else row
    { s with written := fun k => if k = key then some rows else s.written k }

section Load

variable (cfg : SidecarConfig) (reportId filePathHash : String)

/-- The key of the metadata of a file. -/
def metaKey : PayloadKey := .file (chunkDir reportId filePathHash) reportId filePathHash

/-- The key of a file in the old format. -/
def legacyKey : PayloadKey := .file reportId reportId filePathHash

/-- The key of a decoded chunk. -/
def chunkKey (i : Nat) (token : List Char) (τ : Option Signature) : PayloadKey :=
  .chunk reportId filePathHash i (effectiveIdentity token τ)

/-- `_load_chunked_metadata`, with the signature that its `_asset_identity` is made of. -/
def loadChunkedMetadata (s : SidecarState) : SidecarState × Option (Meta × Signature) :=
  match s.directory.metaFile reportId filePathHash with
  | none => (s, none)
  | some ⟨σ, content⟩ =>
    let key := metaKey reportId filePathHash
    match s.cached cfg.metaJson .metadata key (some σ) with
    | some m => (s.touch .metadata key, some (m, σ))
    | none =>
      match content with
      | none => (s.remove .metadata key, none)
      | some m =>
        -- `_validate_chunk_inventory`
        let complete := m.chunks.all fun name =>
          (s.directory.chunkFile reportId filePathHash (basename name)).isSome
        if (m.reportId ≠ "" ∧ m.reportId ≠ reportId) ∨ complete = false then
          (s.remove .metadata key, none)
        else (s.put cfg .metadata key ⟨some σ, cfg.metaJson.dumps m⟩, some (m, σ))

/-- `_load_legacy_payload` -/
def loadLegacyPayload (s : SidecarState) : SidecarState × Option LegacyFile :=
  match s.directory.legacyFile reportId filePathHash with
  | none => (s, none)
  | some ⟨σ, content⟩ =>
    let key := legacyKey reportId filePathHash
    match s.cached cfg.legacyJson .legacy key (some σ) with
    | some payload =>
      (s.touch .legacy key, some { payload with lines := (s.written key).getD payload.lines })
    | none =>
      match content with
      | none => (s.remove .legacy key, none)
      | some payload =>
        if payload.reportId ≠ reportId then (s.remove .legacy key, none)
        else (s.put cfg .legacy key ⟨some σ, cfg.legacyJson.dumps payload⟩, some payload)

/-- `_load_decoded_chunk` -/
def loadDecodedChunk (s : SidecarState) (i : Nat) (token : List Char) (name : String) :
    SidecarState × Except SidecarError (List LineDict) :=
  let version := s.directory.chunkFile reportId filePathHash name
  let key := chunkKey reportId filePathHash i token (version.map StoredFile.signature)
  match s.cached cfg.linesJson .chunk key none with
  | some lines => (s.touch .chunk key, .ok ((s.written key).getD lines))
  | none =>
    match version with
    | none => (s, .error (.missing "sidecar chunk is missing"))
    | some version =>
      match version.content with
      | none => (s, .error (.value "sidecar chunk must contain a JSON list"))
      | some lines => (s.put cfg .chunk key ⟨none, cfg.linesJson.dumps lines⟩, .ok lines)

/-- `int(meta.get("chunk_size") or self.chunk_size)` -/
def chunkSizeOf (m : Meta) : Nat := if m.chunkSize = 0 then cfg.chunkSize else m.chunkSize

/-- The name of the chunk with an index. -/
def chunkNameAt (m : Meta) (i : Nat) : String :=
  chunkName (i * chunkSizeOf cfg m) (i * chunkSizeOf cfg m + chunkSizeOf cfg m - 1)

/-- The loop over the chunks that are needed. -/
def loadChunks (m : Meta) (σ : Signature) :
    List Nat → SidecarState → SidecarState × Except SidecarError (List (Nat × List LineDict))
  | [], s => (s, .ok [])
  | i :: is, s =>
    let (s, lines) :=
      if (m.totalChunks ≠ 0 ∧ m.totalChunks ≤ i) ∨
          (m.chunks ≠ [] ∧ chunkNameAt cfg m i ∉ m.chunks.map basename) then
        (s, Except.ok [])
      else loadDecodedChunk cfg reportId filePathHash s i
        (assetToken cfg.assetIdentity m.contentHash σ) (chunkNameAt cfg m i)
    match lines with
    | .error e => (s, .error e)
    | .ok lines =>
      let (s, rest) := loadChunks m σ is s
      (s, rest.map fun decoded => (i, lines) :: decoded)

/-- The chunks of a range. -/
def chunksOf (size : Nat) (range : Nat × Nat) : List Nat :=
  List.range' ((range.1 - 1) / size) ((range.2 - 1) / size + 1 - (range.1 - 1) / size)

/-- `sorted(needed)` -/
def neededChunks (size : Nat) (ranges : List (Nat × Nat)) : List Nat :=
  (ranges.flatMap (chunksOf size)).dedup.insertionSort (· ≤ ·)

/-- The line is one of the range. -/
def inRange (range : Nat × Nat) (line : LineDict) : Bool :=
  (range.1 : Int) ≤ line.number && line.number ≤ range.2

/-- The rows of a range. -/
def rowsOf (size : Nat) (decoded : List (Nat × List LineDict)) (range : Nat × Nat) :
    List LineDict :=
  ((chunksOf size range).flatMap fun i =>
    ((decoded.lookup i).getD []).filter (inRange range)).insertionSort
      fun a b => a.number ≤ b.number

/-- `decode` of the ranges by the metadata of the file. -/
def readChunked (m : Meta) (σ : Signature) (ranges : List (Nat × Nat)) (s : SidecarState) :
    SidecarState × Except SidecarError (List (List LineDict)) :=
  let size := chunkSizeOf cfg m
  if m.totalLines ≠ 0 ∧ ∃ r ∈ ranges, m.totalLines < r.2 then
    (s, .error (.value "requested sidecar range exceeds file length"))
  else
    let needed := neededChunks size ranges
    if maxRangeChunks < needed.length then
      (s, .error (.value "requested sidecar chunk count is too large"))
    else
      let (s, decoded) := loadChunks cfg reportId filePathHash m σ needed s
      (s, decoded.map fun decoded => ranges.map (rowsOf size decoded))

/-- The rows of the ranges in a file of the old format. -/
def readLegacy (ranges : List (Nat × Nat)) (s : SidecarState) :
    SidecarState × Except SidecarError (Option (List (List LineDict))) :=
  let (s, payload) := loadLegacyPayload cfg reportId filePathHash s
  (s, .ok (payload.map fun p => ranges.map fun r => p.lines.filter (inRange r)))

/-- `load_lines_ranges` -/
def loadLinesRanges (ranges : List (Nat × Nat)) (s : SidecarState) :
    SidecarState × Except SidecarError (Option (List (List LineDict))) :=
  if ∃ r ∈ ranges, r.1 < 1 ∨ r.2 < r.1 then (s, .error (.value "invalid line range"))
  else if ranges = [] then (s, .ok (some []))
  else if maxTotalRangeSpan < (ranges.map fun r => r.2 - r.1 + 1).sum then
    (s, .error (.value "requested sidecar span is too large"))
  else if ∃ r ∈ ranges, maxRangeSpan < r.2 - r.1 + 1 then
    (s, .error (.value "requested sidecar range is too large"))
  else if usableReportId reportId = false then (s, .ok none)
  else if (s.directory.metaFile reportId filePathHash).isSome then
    match loadChunkedMetadata cfg reportId filePathHash s with
    | (s, none) => (s, .ok none)
    | (s, some (m, σ)) =>
      match readChunked cfg reportId filePathHash m σ ranges s with
      | (s, .ok rows) => (s, .ok (some rows))
      | (s, .error (.value message)) => (s, .error (.value message))
      | (s, .error (.missing _)) => readLegacy cfg reportId filePathHash ranges s
  else readLegacy cfg reportId filePathHash ranges s

/-- The windows of a loop from one line to another. -/
def windows (size : Nat) (hsize : 0 < size) (start stop : Nat) : List (Nat × Nat) :=
  if start ≤ stop then
    let last := min stop (start + size - 1)
    (start, last) :: windows size hsize (last + 1) stop
  else []
termination_by stop + 1 - start

/-- The loop over the windows: what each of them gives is appended, and where one gives nothing there
is nothing. -/
def loadWindows (load : Nat × Nat → SidecarState →
      SidecarState × Except SidecarError (Option (List LineDict))) :
    List (Nat × Nat) → SidecarState → SidecarState × Except SidecarError (Option (List LineDict))
  | [], s => (s, .ok (some []))
  | w :: ws, s =>
    match load w s with
    | (s, .error e) => (s, .error e)
    | (s, .ok none) => (s, .ok none)
    | (s, .ok (some lines)) =>
      let (s, rest) := loadWindows load ws s
      (s, rest.map fun o => o.map (lines ++ ·))

/-- The rows of one range. -/
def loadOne (range : Nat × Nat) (s : SidecarState) :
    SidecarState × Except SidecarError (Option (List LineDict)) :=
  let (s, batches) := loadLinesRanges cfg reportId filePathHash [range] s
  (s, batches.map fun o => o.map fun rows => rows.headD [])

/-- `load_lines_range` -/
def loadLinesRange (start stop : Nat) (allowLarge : Bool) (s : SidecarState) :
    SidecarState × Except SidecarError (Option (List LineDict)) :=
  if allowLarge ∧ maxRangeSpan < stop + 1 - start then
    if start < 1 ∨ stop < start ∨ maxSidecarLines < stop + 1 - start then
      (s, .error (.value "requested sidecar span is too large"))
    else
      loadWindows (loadOne cfg reportId filePathHash)
        (windows (min maxTotalRangeSpan maxRangeSpan) (by decide) start stop) s
  else loadOne cfg reportId filePathHash (start, stop) s

/-- What `load_metadata` returns, as far as it is read. -/
structure MetadataView where
  /-- `total_lines` -/
  totalLines : Nat
  /-- `content_hash` -/
  contentHash : String
  /-- `project_name` -/
  projectName : String
  /-- `file_path` -/
  filePath : String
  /-- `function_ranges` -/
  functionRanges : List FunctionRange

/-- `load_metadata` -/
def loadMetadata (s : SidecarState) : SidecarState × Option MetadataView :=
  if usableReportId reportId = false then (s, none)
  else
    match loadChunkedMetadata cfg reportId filePathHash s with
    | (s, some (m, _)) =>
      (s, some ⟨m.totalLines, m.contentHash, m.projectName, m.filePath, m.functionRanges⟩)
    | (s, none) =>
      match loadLegacyPayload cfg reportId filePathHash s with
      | (s, some p) =>
        -- the payload has no `content_hash`
        (s, some ⟨p.totalLines.getD p.lines.length, "", p.projectName, p.filePath, p.functionRanges⟩)
      | (s, none) => (s, none)

/-- `SourceContext` of what a sidecar has; its `meta.json` has no pending lines and no count. -/
def contextOf (v : MetadataView) (reportId : String) (lines : List SourceLineDTO) :
    SourceContext where
  projectName := v.projectName
  filePath := v.filePath
  lines
  functionRanges := v.functionRanges.map fun f => FunctionRange.make f.startLine f.endLine f.name
  pendingLines := []
  totalUncoveredCount := lines.countP fun line => line.coverageState = .uncovered
  confirmedCount := recount lines
  reportId

/-- `load_full_source_context` -/
def loadFullSourceContext (s : SidecarState) :
    SidecarState × Except SidecarError (Option SourceContext) :=
  match loadMetadata cfg reportId filePathHash s with
  | (s, none) => (s, .ok none)
  | (s, some v) =>
    if maxSidecarLines < v.totalLines then (s, .ok none)
    else
      match loadWindows (fun w => loadLinesRange cfg reportId filePathHash w.1 w.2 false)
          (windows maxTotalRangeSpan maxTotalRangeSpan_pos 1 v.totalLines) s with
      | (s, .error e) => (s, .error e)
      | (s, .ok none) => (s, .ok none)
      | (s, .ok (some lines)) =>
        if v.contentHash ≠ "" ∧ cfg.hash lines ≠ v.contentHash then (s, .ok none)
        else (s, .ok (some (contextOf v reportId (lines.map fromDict))))

end Load

/-! ## What the caches hold -/

section Coherence

variable {cfg : SidecarConfig} {v : Volume}

/-- **A cached text is that of what the versions that it is filed under hold.** -/
structure Coherent (cfg : SidecarConfig) (v : Volume) (s : SidecarState) : Prop where
  /-- The signatures of the files tell their contents. -/
  signed : s.directory.SignedBy v
  /-- `meta.json` -/
  metadata : ∀ r f p, (s.account.1.cache .metadata).get? (metaKey r f) = some p →
    ∃ σ m, v.metaAt r f σ = some m ∧ p = ⟨some σ, cfg.metaJson.dumps m⟩
  /-- Chunks. -/
  chunk : ∀ r f i identity p, (s.account.1.cache .chunk).get? (.chunk r f i identity) = some p →
    ∃ m σ τ lines, v.metaAt r f σ = some m ∧
      identity = effectiveIdentity (assetToken cfg.assetIdentity m.contentHash σ) (some τ) ∧
      v.chunkAt r f (chunkNameAt cfg m i) τ = some lines ∧
      p = ⟨none, cfg.linesJson.dumps lines⟩

/-- Every entry of the second store is one of the first. -/
def Fewer (a b : SidecarStore.Account) : Prop :=
  ∀ kind key p, (b.1.cache kind).get? key = some p → (a.1.cache kind).get? key = some p

namespace Fewer

open SidecarStore

variable {a b c : Account}

theorem refl (a : Account) : Fewer a a := fun _ _ _ hp => hp

theorem trans (h : Fewer a b) (h' : Fewer b c) : Fewer a c :=
  fun kind key p hp => h kind key p (h' kind key p hp)

theorem remove (a : Account) (kind : PayloadKind) (key : PayloadKey) :
    Fewer a (cacheRemoveLocked a kind key) := by
  intro kind' key' p hp
  change ((a.1.remove kind key).cache kind').get? key' = some p at hp
  rw [SidecarStore.remove, cache_setCache] at hp
  split at hp
  · next hk =>
    subst hk
    rw [SizedCache.get?_remove] at hp
    split at hp
    · cases hp
    · exact hp
  · exact hp

theorem touch (a : Account) (kind : PayloadKind) (key : PayloadKey) :
    Fewer a (a.1.touch kind key, a.2) := by
  intro kind' key' p hp
  change ((a.1.touch kind key).cache kind').get? key' = some p at hp
  rw [SidecarStore.touch, cache_setCache] at hp
  split at hp
  · next hk =>
    subst hk
    rw [SizedCache.get?_touch] at hp
    exact hp
  · exact hp

theorem evictOldest (h : evictOldestLocked a = some b) : Fewer a b := by
  obtain ⟨k, -, rfl⟩ := Option.map_eq_some_iff.1 h
  exact remove a k.1 k.2

theorem makeRoom (limits : CacheLimits) (kind : PayloadKind) (key : PayloadKey) (size : Nat)
    (a : Account) : Fewer a (makeRoomWithin limits kind key size a) := by
  have hstep : ∀ b c, Fewer a b → evictOldestLocked b = some c → Fewer a c :=
    fun b c hb hc => hb.trans (evictOldest hc)
  exact evictWhile_inv (P := Fewer a) hstep (evictWhile_inv (P := Fewer a) hstep
    (remove a kind key) _) _

theorem clear (a : Account) : Fewer a (clearCaches a) := by
  have hone : ∀ (kind : PayloadKind) (b : Account), Fewer b (clearCache kind b) := by
    intro kind b
    unfold clearCache
    generalize (b.1.cache kind).entries.rows = rows
    induction rows generalizing b with
    | nil => exact refl b
    | cons r rows ih => exact (remove b kind r.1).trans (ih _)
  exact (hone _ _).trans ((hone _ _).trans (hone _ _))

/-- A put leaves old entries and the new one. -/
theorem get?_put {limits : CacheLimits} {kind kind' : PayloadKind} {key key' : PayloadKey}
    {payload p : Payload}
    (h : ((cachePutWithin limits kind key payload a).1.cache kind').get? key' = some p) :
    (a.1.cache kind').get? key' = some p ∨ kind' = kind ∧ key' = key ∧ p = payload := by
  have hroom : Fewer a (makeRoomWithin limits kind key (estimateCacheBytes payload.text) a) :=
    makeRoom limits kind key _ a
  have habsent := absent_makeRoom limits kind key (estimateCacheBytes payload.text) a
  rcases put_cases limits kind key payload a with ⟨-, heq⟩ | ⟨-, heq | ⟨budget, -, heq⟩⟩
  · rw [heq] at h
    exact .inl h
  · rw [heq] at h
    exact .inl (hroom _ _ _ h)
  · rw [heq] at h
    change ((SidecarStore.push _ kind key payload _).cache kind').get? key' = some p at h
    rw [SidecarStore.push, dif_pos habsent, cache_setCache] at h
    split at h
    · next hk =>
      subst hk
      rw [SizedCache.get?_push] at h
      split at h
      · next hkey => exact .inr ⟨rfl, hkey, (Option.some.inj h).symm⟩
      · exact .inl (hroom _ _ _ h)
    · exact .inl (hroom _ _ _ h)

end Fewer

theorem Coherent.of_fewer {s s' : SidecarState} (h : Coherent cfg v s)
    (hd : s'.directory.SignedBy v) (hs : Fewer s.account s'.account) : Coherent cfg v s' :=
  ⟨hd, fun r f p hp => h.metadata r f p (hs _ _ _ hp),
    fun r f i identity p hp => h.chunk r f i identity p (hs _ _ _ hp)⟩

theorem coherent_opened (budget : ByteBudget) {directory : Directory}
    (h : directory.SignedBy v) : Coherent cfg v (.opened budget directory) :=
  ⟨h, fun _ _ _ hp => (nomatch hp), fun _ _ _ _ _ hp => (nomatch hp)⟩

/-- A read leaves the files alone, keeps the caches coherent and writes into no rows. -/
structure Keeps (cfg : SidecarConfig) (v : Volume) (s s' : SidecarState) : Prop where
  /-- The files. -/
  directory : s'.directory = s.directory
  /-- The caches. -/
  coherent : Coherent cfg v s → Coherent cfg v s'
  /-- The rows. -/
  written : ∀ {key}, s.written key = none → s'.written key = none

namespace Keeps

variable {s s' s'' : SidecarState}

theorem refl (s : SidecarState) : Keeps cfg v s s := ⟨rfl, id, id⟩

theorem trans (h : Keeps cfg v s s') (h' : Keeps cfg v s' s'') : Keeps cfg v s s'' :=
  ⟨h'.directory.trans h.directory, fun hc => h'.coherent (h.coherent hc),
    fun hkey => h'.written (h.written hkey)⟩

theorem remove (s : SidecarState) (kind : PayloadKind) (key : PayloadKey) :
    Keeps cfg v s (s.remove kind key) :=
  ⟨rfl, fun h => h.of_fewer h.signed (Fewer.remove s.account kind key), id⟩

theorem touch (s : SidecarState) (kind : PayloadKind) (key : PayloadKey) :
    Keeps cfg v s (s.touch kind key) :=
  ⟨rfl, fun h => h.of_fewer h.signed (Fewer.touch s.account kind key), id⟩

/-- A put makes no rows that have been written into. -/
theorem written_put {kind : PayloadKind} {key k : PayloadKey} {payload : Payload}
    (h : s.written k = none) : (s.put cfg kind key payload).written k = none := by
  unfold SidecarState.put
  dsimp only
  split
  · rfl
  · exact h

/-- `meta.json` is put as the version holds it. -/
theorem putMeta {r f : String} {σ : Signature} {m : Meta}
    (h : s.directory.metaFile r f = some ⟨σ, some m⟩) :
    Keeps cfg v s (s.put cfg .metadata (metaKey r f) ⟨some σ, cfg.metaJson.dumps m⟩) := by
  refine ⟨rfl, fun hc => ⟨hc.signed, fun r' f' p hp => ?_, fun r' f' i identity p hp => ?_⟩,
    written_put⟩
  · rcases Fewer.get?_put hp with hp | ⟨-, hkey, rfl⟩
    · exact hc.metadata r' f' p hp
    · rw [metaKey, metaKey, PayloadKey.file.injEq] at hkey
      obtain ⟨-, rfl, rfl⟩ := hkey
      exact ⟨σ, m, (hc.signed.metaFile h).symm, rfl⟩
  · rcases Fewer.get?_put hp with hp | ⟨hkind, -⟩
    · exact hc.chunk r' f' i identity p hp
    · cases hkind

/-- A chunk is put as the version holds it. -/
theorem putChunk {r f : String} {i : Nat} {σ τ : Signature} {m : Meta} {lines : List LineDict}
    (hm : v.metaAt r f σ = some m)
    (hl : s.directory.chunkFile r f (chunkNameAt cfg m i) = some ⟨τ, some lines⟩) :
    Keeps cfg v s (s.put cfg .chunk
      (chunkKey r f i (assetToken cfg.assetIdentity m.contentHash σ) (some τ))
      ⟨none, cfg.linesJson.dumps lines⟩) := by
  refine ⟨rfl, fun hc => ⟨hc.signed, fun r' f' p hp => ?_, fun r' f' i' identity p hp => ?_⟩,
    written_put⟩
  · rcases Fewer.get?_put hp with hp | ⟨hkind, -⟩
    · exact hc.metadata r' f' p hp
    · cases hkind
  · rcases Fewer.get?_put hp with hp | ⟨-, hkey, rfl⟩
    · exact hc.chunk r' f' i' identity p hp
    · rw [chunkKey, PayloadKey.chunk.injEq] at hkey
      obtain ⟨rfl, rfl, rfl, rfl⟩ := hkey
      exact ⟨m, σ, τ, lines, hm, rfl, (hc.signed.chunkFile hl).symm, rfl⟩

/-- The old format has a cache of its own. -/
theorem putLegacy (s : SidecarState) (key : PayloadKey) (payload : Payload) :
    Keeps cfg v s (s.put cfg .legacy key payload) := by
  refine ⟨rfl, fun hc => ⟨hc.signed, fun r f p hp => ?_, fun r f i identity p hp => ?_⟩,
    written_put⟩
  · rcases Fewer.get?_put hp with hp | ⟨hkind, -⟩
    · exact hc.metadata r f p hp
    · cases hkind
  · rcases Fewer.get?_put hp with hp | ⟨hkind, -⟩
    · exact hc.chunk r f i identity p hp
    · cases hkind

variable (r f : String)

/-- **Reading `meta.json`**: what is returned is what the version holds. -/
theorem loadChunkedMetadata (hf : cfg.Faithful v) (s : SidecarState) :
    Keeps cfg v s (loadChunkedMetadata cfg r f s).1 ∧ (Coherent cfg v s →
      ∀ m σ, (CodeDetail.loadChunkedMetadata cfg r f s).2 = some (m, σ) →
        s.directory.metaFile r f = some ⟨σ, some m⟩ ∧ v.metaAt r f σ = some m) := by
  unfold CodeDetail.loadChunkedMetadata
  cases hversion : s.directory.metaFile r f with
  | none => exact ⟨refl s, fun _ m σ h => (nomatch h)⟩
  | some version =>
    obtain ⟨σ, content⟩ := version
    dsimp only
    cases hcached : s.cached cfg.metaJson .metadata (metaKey r f) (some σ) with
    | some m =>
      refine ⟨touch s _ _, fun hc m' σ' h => ?_⟩
      obtain ⟨rfl, rfl⟩ := Prod.mk.inj (Option.some.inj h)
      unfold SidecarState.cached at hcached
      split at hcached
      · cases hcached
      · next p hp =>
        obtain ⟨σ', m', hm', rfl⟩ := hc.metadata r f p hp
        split at hcached
        · next hsig =>
          obtain rfl := Option.some.inj hsig
          rw [hf.metaJson hm'] at hcached
          obtain rfl := Option.some.inj hcached
          have hcontent : content = v.metaAt r f σ' := hc.signed.metaFile hversion
          rw [hcontent, hm']
          exact ⟨rfl, rfl⟩
        · cases hcached
    | none =>
      cases content with
      | none => exact ⟨remove s _ _, fun _ m σ h => (nomatch h)⟩
      | some m =>
        dsimp only
        split
        · exact ⟨remove s _ _, fun _ m σ h => (nomatch h)⟩
        · refine ⟨putMeta hversion, fun hc m' σ' h => ?_⟩
          obtain ⟨rfl, rfl⟩ := Prod.mk.inj (Option.some.inj h)
          exact ⟨rfl, (hc.signed.metaFile hversion).symm⟩

theorem loadLegacyPayload (s : SidecarState) :
    Keeps cfg v s (loadLegacyPayload cfg r f s).1 := by
  unfold CodeDetail.loadLegacyPayload
  split
  · exact refl s
  · dsimp only
    split
    · exact touch s _ _
    · split
      · exact remove s _ _
      · split
        · exact remove s _ _
        · exact putLegacy s _ _

/-- **Reading a chunk**: what is returned is what the version that is there holds, unless something has
been written into the rows of the cache. -/
theorem loadDecodedChunk (hf : cfg.Faithful v) (s : SidecarState) {m : Meta} {σ : Signature}
    (hm : v.metaAt r f σ = some m) (i : Nat) :
    Keeps cfg v s (loadDecodedChunk cfg r f s i (assetToken cfg.assetIdentity m.contentHash σ)
        (chunkNameAt cfg m i)).1 ∧
      (Coherent cfg v s → ∀ τ lines,
        s.directory.chunkFile r f (chunkNameAt cfg m i) = some ⟨τ, some lines⟩ →
        s.written (chunkKey r f i (assetToken cfg.assetIdentity m.contentHash σ) (some τ)) = none →
        (CodeDetail.loadDecodedChunk cfg r f s i (assetToken cfg.assetIdentity m.contentHash σ)
          (chunkNameAt cfg m i)).2 = .ok lines) := by
  unfold CodeDetail.loadDecodedChunk
  dsimp only
  cases hcached : s.cached cfg.linesJson .chunk (chunkKey r f i
      (assetToken cfg.assetIdentity m.contentHash σ)
      ((s.directory.chunkFile r f (chunkNameAt cfg m i)).map StoredFile.signature)) none with
  | some lines =>
    refine ⟨touch s _ _, fun hc τ lines' hversion hwritten => ?_⟩
    rw [hversion] at hcached
    unfold SidecarState.cached at hcached
    split at hcached
    · cases hcached
    · next p hp =>
      obtain ⟨m', σ', τ', lines'', hm', hidentity, hlines'', rfl⟩ := hc.chunk r f i _ p hp
      -- the identity has the signatures of both files
      obtain ⟨rfl, hττ⟩ := effectiveIdentity_inj hidentity
      obtain rfl := Option.some.inj (hm.symm.trans hm')
      obtain rfl : τ = τ' := Option.some.inj hττ
      have hlines' : some lines' = v.chunkAt r f (chunkNameAt cfg m i) τ :=
        hc.signed.chunkFile hversion
      obtain rfl := Option.some.inj (hlines'.trans hlines'')
      split at hcached
      · rw [hf.linesJson hlines''] at hcached
        obtain rfl := Option.some.inj hcached
        dsimp only
        rw [hversion, Option.map_some, hwritten, Option.getD_none]
      · cases hcached
  | none =>
    cases hversion : s.directory.chunkFile r f (chunkNameAt cfg m i) with
    | none => exact ⟨refl s, fun _ τ lines h => (nomatch h)⟩
    | some version =>
      obtain ⟨τ, content⟩ := version
      cases content with
      | none =>
        refine ⟨refl s, fun _ τ' lines h => ?_⟩
        cases Option.some.inj h
      | some lines =>
        refine ⟨putChunk hm hversion, fun _ τ' lines' h _ => ?_⟩
        obtain ⟨-, hlines⟩ := StoredFile.mk.inj (Option.some.inj h)
        exact congrArg Except.ok (Option.some.inj hlines)

theorem loadChunks (hf : cfg.Faithful v) {m : Meta} {σ : Signature}
    (hm : v.metaAt r f σ = some m) (is : List Nat) (s : SidecarState) :
    Keeps cfg v s (loadChunks cfg r f m σ is s).1 := by
  induction is generalizing s with
  | nil => exact refl s
  | cons i is ih =>
    rw [CodeDetail.loadChunks]
    split
    next s₁ lines heq =>
    have hfirst : Keeps cfg v s s₁ := by
      have hs₁ : s₁ = (if (m.totalChunks ≠ 0 ∧ m.totalChunks ≤ i) ∨
          (m.chunks ≠ [] ∧ chunkNameAt cfg m i ∉ m.chunks.map basename) then
          (s, Except.ok [])
        else CodeDetail.loadDecodedChunk cfg r f s i
          (assetToken cfg.assetIdentity m.contentHash σ) (chunkNameAt cfg m i)).1 := by
        rw [heq]
      rw [hs₁]
      split
      · exact refl s
      · exact (loadDecodedChunk r f hf s hm i).1
    cases lines with
    | error e => exact hfirst
    | ok lines => exact hfirst.trans (ih s₁)

theorem readLegacy (ranges : List (Nat × Nat)) (s : SidecarState) :
    Keeps cfg v s (readLegacy cfg r f ranges s).1 :=
  loadLegacyPayload r f s

theorem readChunked (hf : cfg.Faithful v) {m : Meta} {σ : Signature}
    (hm : v.metaAt r f σ = some m) (ranges : List (Nat × Nat)) (s : SidecarState) :
    Keeps cfg v s (readChunked cfg r f m σ ranges s).1 := by
  unfold CodeDetail.readChunked
  dsimp only
  split
  · exact refl s
  · split
    · exact refl s
    · exact loadChunks r f hf hm _ s

/-- **Reading some ranges.** -/
theorem loadLinesRanges (hf : cfg.Faithful v) (ranges : List (Nat × Nat)) (s : SidecarState)
    (hc : Coherent cfg v s) : Keeps cfg v s (loadLinesRanges cfg r f ranges s).1 := by
  unfold CodeDetail.loadLinesRanges
  obtain ⟨hmeta, hread⟩ := Keeps.loadChunkedMetadata r f hf s
  have hread := hread hc
  split
  · exact refl s
  · split
    · exact refl s
    · split
      · exact refl s
      · split
        · exact refl s
        · split
          · exact refl s
          · split
            · generalize CodeDetail.loadChunkedMetadata cfg r f s = loaded at hmeta hread ⊢
              obtain ⟨s₁, found⟩ := loaded
              cases found with
              | none => exact hmeta
              | some found =>
                obtain ⟨m, σ⟩ := found
                have hm := (hread m σ rfl).2
                have hchunked := hmeta.trans (readChunked r f hf hm ranges s₁)
                dsimp only at hchunked ⊢
                generalize CodeDetail.readChunked cfg r f m σ ranges s₁ = result at hchunked ⊢
                obtain ⟨s₂, e | rows⟩ := result
                · cases e with
                  | value message => exact hchunked
                  | missing message => exact hchunked.trans (readLegacy r f ranges s₂)
                · exact hchunked
            · exact readLegacy r f ranges s

theorem loadWindows {load : Nat × Nat → SidecarState →
      SidecarState × Except SidecarError (Option (List LineDict))}
    (hload : ∀ w s, Coherent cfg v s → Keeps cfg v s (load w s).1) (ws : List (Nat × Nat))
    (s : SidecarState) (hc : Coherent cfg v s) : Keeps cfg v s (loadWindows load ws s).1 := by
  induction ws generalizing s with
  | nil => exact refl s
  | cons w ws ih =>
    rw [CodeDetail.loadWindows]
    have hfirst := hload w s hc
    generalize load w s = result at hfirst ⊢
    obtain ⟨s₁, e | o⟩ := result
    · exact hfirst
    · cases o with
      | none => exact hfirst
      | some lines => exact hfirst.trans (ih s₁ (hfirst.coherent hc))

theorem loadLinesRange (hf : cfg.Faithful v) (start stop : Nat) (allowLarge : Bool)
    (s : SidecarState) (hc : Coherent cfg v s) :
    Keeps cfg v s (loadLinesRange cfg r f start stop allowLarge s).1 := by
  unfold CodeDetail.loadLinesRange
  split
  · split
    · exact refl s
    · exact loadWindows (fun w s hc => loadLinesRanges r f hf [w] s hc) _ s hc
  · exact loadLinesRanges r f hf [(start, stop)] s hc

theorem loadMetadata (hf : cfg.Faithful v) (s : SidecarState) :
    Keeps cfg v s (loadMetadata cfg r f s).1 := by
  unfold CodeDetail.loadMetadata
  have hmeta := (Keeps.loadChunkedMetadata (v := v) r f hf s).1
  split
  · exact refl s
  · generalize CodeDetail.loadChunkedMetadata cfg r f s = loaded at hmeta ⊢
    obtain ⟨s₁, _ | ⟨m, σ⟩⟩ := loaded
    · have hlegacy := hmeta.trans (loadLegacyPayload r f s₁)
      dsimp only at hlegacy ⊢
      generalize CodeDetail.loadLegacyPayload cfg r f s₁ = legacy at hlegacy ⊢
      obtain ⟨s₂, _ | p⟩ := legacy <;> exact hlegacy
    · exact hmeta

theorem loadFullSourceContext (hf : cfg.Faithful v) (s : SidecarState)
    (hc : Coherent cfg v s) : Keeps cfg v s (loadFullSourceContext cfg r f s).1 := by
  unfold CodeDetail.loadFullSourceContext
  have hmeta := Keeps.loadMetadata (v := v) r f hf s
  generalize CodeDetail.loadMetadata cfg r f s = loaded at hmeta ⊢
  obtain ⟨s₁, _ | view⟩ := loaded
  · exact hmeta
  · dsimp only
    split
    · exact hmeta
    · have hwindows := hmeta.trans (loadWindows
        (fun w s hc => (loadLinesRange r f hf w.1 w.2 false s hc :
          Keeps cfg v s ((fun w => CodeDetail.loadLinesRange cfg r f w.1 w.2 false) w s).1))
        (windows maxTotalRangeSpan maxTotalRangeSpan_pos 1 view.totalLines) s₁
        (hmeta.coherent hc))
      generalize CodeDetail.loadWindows _ _ s₁ = result at hwindows ⊢
      obtain ⟨s₂, e | o⟩ := result
      · exact hwindows
      · cases o with
        | none => exact hwindows
        | some lines =>
          dsimp only
          split <;> exact hwindows

end Keeps

end Coherence

/-! ## Runs -/

/-- What happens to a store. -/
inductive SidecarEvent
  /-- `load_metadata` -/
  | metadata (reportId filePathHash : String)
  /-- `load_lines_ranges` -/
  | ranges (reportId filePathHash : String) (ranges : List (Nat × Nat))
  /-- `load_lines_range` -/
  | range (reportId filePathHash : String) (start stop : Nat) (allowLarge : Bool)
  /-- `load_full_source_context` -/
  | full (reportId filePathHash : String)
  /-- `get_code_lines_batch` writes an overlay into the rows of a range that a read handed out. -/
  | annotate (key : PayloadKey) (range : Nat × Nat) (overlay : Int → Option LineAnalysis)
  /-- `clear_caches` -/
  | clear
  /-- The other caches of the process leave another budget. -/
  | others (budget : ByteBudget)
  /-- Files are written, replaced or removed. -/
  | files (directory : Directory)

/-- The event changes no file. -/
def SidecarEvent.IsRead : SidecarEvent → Prop
  | .files _ => False
  | _ => True

/-- The signatures of new files tell their contents. -/
def SidecarEvent.SignedBy (v : Volume) : SidecarEvent → Prop
  | .files directory => directory.SignedBy v
  | _ => True

/-- The event writes into no rows of the payload. -/
def SidecarEvent.Spares (key : PayloadKey) : SidecarEvent → Prop
  | .annotate key' _ _ => key' ≠ key
  | _ => True

theorem SidecarEvent.IsRead.signedBy {e : SidecarEvent} (h : e.IsRead) (v : Volume) :
    e.SignedBy v := by
  cases e with
  | files directory => exact absurd h id
  | _ => trivial

section Runs

variable (cfg : SidecarConfig)

/-- One event. -/
def handle (s : SidecarState) : SidecarEvent → SidecarState
  | .metadata r f => (loadMetadata cfg r f s).1
  | .ranges r f ranges => (loadLinesRanges cfg r f ranges s).1
  | .range r f start stop allowLarge => (loadLinesRange cfg r f start stop allowLarge s).1
  | .full r f => (loadFullSourceContext cfg r f s).1
  | .annotate key range overlay => s.annotate cfg key range overlay
  | .clear => { s with account := SidecarStore.clearCaches s.account }
  | .others budget => { s with account := (s.account.1, budget) }
  | .files directory => { s with directory }

/-- Some events, one after the other. -/
def runSidecar (s : SidecarState) (events : List SidecarEvent) : SidecarState :=
  events.foldl (handle cfg) s

variable {cfg} {v : Volume}

theorem annotate_cases (cfg : SidecarConfig) (s : SidecarState) (key : PayloadKey) (range : Nat × Nat)
    (overlay : Int → Option LineAnalysis) :
    s.annotate cfg key range overlay = s ∨ ∃ rows, s.annotate cfg key range overlay =
      { s with written := fun k => if k = key then some rows else s.written k } := by
  unfold SidecarState.annotate
  split
  · exact .inl rfl
  · exact .inr ⟨_, rfl⟩

/-- **One event keeps the caches coherent**, and the rows that it does not write into. -/
theorem keeps_handle (hf : cfg.Faithful v) {s : SidecarState} (hc : Coherent cfg v s)
    {e : SidecarEvent} (he : e.SignedBy v) : Coherent cfg v (handle cfg s e) ∧
      (e.IsRead → (handle cfg s e).directory = s.directory) ∧
      ∀ key, e.Spares key → s.written key = none → (handle cfg s e).written key = none := by
  have hkeeps : ∀ {s'}, Keeps cfg v s s' → Coherent cfg v s' ∧
      (e.IsRead → s'.directory = s.directory) ∧
      ∀ key, e.Spares key → s.written key = none → s'.written key = none :=
    fun h => ⟨h.coherent hc, fun _ => h.directory, fun _ _ => h.written⟩
  cases e with
  | metadata r f => exact hkeeps (Keeps.loadMetadata r f hf s)
  | ranges r f ranges => exact hkeeps (Keeps.loadLinesRanges r f hf ranges s hc)
  | range r f start stop allowLarge =>
    exact hkeeps (Keeps.loadLinesRange r f hf start stop allowLarge s hc)
  | full r f => exact hkeeps (Keeps.loadFullSourceContext r f hf s hc)
  | annotate key range overlay =>
    change Coherent cfg v (s.annotate cfg key range overlay) ∧ (_ → (s.annotate _ _ _ _).directory =
      _) ∧ ∀ k, key ≠ k → _ → (s.annotate _ _ _ _).written k = none
    rcases annotate_cases cfg s key range overlay with heq | ⟨rows, heq⟩
    · rw [heq]
      exact ⟨hc, fun _ => rfl, fun _ _ h => h⟩
    · rw [heq]
      exact ⟨⟨hc.signed, hc.metadata, hc.chunk⟩, fun _ => rfl, fun k hk h =>
        (if_neg hk.symm).trans h⟩
  | clear =>
    exact ⟨hc.of_fewer hc.signed (Fewer.clear s.account), fun _ => rfl, fun _ _ h => h⟩
  | others budget => exact ⟨⟨hc.signed, hc.metadata, hc.chunk⟩, fun _ => rfl, fun _ _ h => h⟩
  | files directory => exact ⟨⟨he, hc.metadata, hc.chunk⟩, fun h => absurd h id, fun _ _ h => h⟩

/-- **Every run keeps the caches coherent.** -/
theorem coherent_run (hf : cfg.Faithful v) {s : SidecarState} (hc : Coherent cfg v s)
    {events : List SidecarEvent} (h : ∀ e ∈ events, e.SignedBy v) :
    Coherent cfg v (runSidecar cfg s events) := by
  induction events generalizing s with
  | nil => exact hc
  | cons e events ih =>
    rw [List.forall_mem_cons] at h
    exact ih (keeps_handle hf hc h.1).1 h.2

/-- Rows that no event writes into are as they were read. -/
theorem written_run (hf : cfg.Faithful v) {s : SidecarState} (hc : Coherent cfg v s)
    {key : PayloadKey} (hkey : s.written key = none) {events : List SidecarEvent}
    (h : ∀ e ∈ events, e.SignedBy v ∧ e.Spares key) :
    (runSidecar cfg s events).written key = none := by
  induction events generalizing s with
  | nil => exact hkey
  | cons e events ih =>
    rw [List.forall_mem_cons] at h
    obtain ⟨hcoherent, -, hwritten⟩ := keeps_handle hf hc h.1.1
    exact ih hcoherent (hwritten key h.1.2 hkey) h.2

/-- Reads leave the files as they are. -/
theorem directory_run (hf : cfg.Faithful v) {s : SidecarState} (hc : Coherent cfg v s)
    {events : List SidecarEvent} (h : ∀ e ∈ events, e.IsRead) :
    (runSidecar cfg s events).directory = s.directory := by
  induction events generalizing s with
  | nil => rfl
  | cons e events ih =>
    rw [List.forall_mem_cons] at h
    obtain ⟨hcoherent, hdirectory, -⟩ := keeps_handle hf hc (h.1.signedBy v)
    exact (ih hcoherent h.2).trans (hdirectory h.1)

end Runs

end CodeDetail

end FosCoverage
