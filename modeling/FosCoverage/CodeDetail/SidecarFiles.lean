import FosCoverage.CodeDetail.SidecarStore
import FosCoverage.CodeDetail.SourceReader
import FosCoverage.Incremental.GitText
import FosCoverage.Repository.Project
import Mathlib.Data.List.TakeWhile

/-!
# The files of a sidecar

What `save_chunked_sidecar` writes for a source context: the lines in chunks and a `meta.json` that
says how they are cut, and the names and identities under which they are read again.

* `LineDict` is a line as it stands in a file; `fromDict_toDict` that a line is made of it again.
* `chunkName` is the name of a chunk, with the 0-based offsets of its first and last place.
* `effectiveIdentity` is what a cached chunk is filed under.  It ends with the signatures of the two
  files it was read with, which can be told from it (`effectiveIdentity_inj`).
* A `Directory` says which version of each file is there, with its signature and what it holds.  That
  files return what was written is built into it: a write leaves versions with the values written.
* A `Volume` gives each signature of a file one content.  `Directory.SignedBy` says that the versions
  have that content: no file is replaced by another one with the same modification time and size.
* `usableReportId` is the check of `_find_report_cache_dirs`.

Only the fields of a file that something reads are here.
-/

set_option autoImplicit false

namespace FosCoverage

namespace CodeDetail

open SourceReader

/-! ## Limits -/

/-- `MAX_RANGE_SPAN` -/
def maxRangeSpan : Nat := 10000

/-- `MAX_TOTAL_RANGE_SPAN` -/
def maxTotalRangeSpan : Nat := 20000

theorem maxRangeSpan_pos : 1 ≤ maxRangeSpan := by decide

theorem maxTotalRangeSpan_pos : 1 ≤ maxTotalRangeSpan := by decide

/-- `MAX_RANGE_CHUNKS` -/
def maxRangeChunks : Nat := 256

/-- `MAX_SIDECAR_LINES` -/
def maxSidecarLines : Nat := 1000000

/-! ## Lines -/

/-- A line in a file.  A key that is missing reads as `None` unless the call gives a default. -/
structure LineDict where
  lineNo : Option Int
  source : Option (List Char)
  rawHtml : Option (List Char)
  coverageState : Option CoverageState
  analysisState : Option (List Char)
  isPendingAnalysis : Option Bool
  suggestedReviewer : Option (List Char)
  reviewer : Option (List Char)
  coverageMethod : Option (List Char)
  uncoveredReason : Option (List Char)
  isDraft : Option Bool
  blockStartLine : Option Int
  blockEndLine : Option Int
  blockType : Option BlockType
  functionName : Option (List Char)
  isBlockEntry : Option Bool
  deriving DecidableEq, Repr

/-- `int(line.get("line_no") or 0)` -/
def LineDict.number (d : LineDict) : Int := d.lineNo.getD 0

/-- `to_dict` -/
def toDict (line : SourceLineDTO) : LineDict where
  lineNo := some line.lineNo
  source := some line.source
  rawHtml := some line.rawHtml
  coverageState := some line.coverageState
  analysisState := some line.analysisState
  isPendingAnalysis := some line.isPendingAnalysis
  suggestedReviewer := some line.suggestedReviewer
  reviewer := some line.reviewer
  coverageMethod := some line.coverageMethod
  uncoveredReason := some line.uncoveredReason
  isDraft := some line.isDraft
  blockStartLine := some line.blockStartLine
  blockEndLine := some line.blockEndLine
  blockType := some line.blockType
  functionName := some line.functionName
  isBlockEntry := some line.isBlockEntry

/-- `from_dict` -/
def fromDict (d : LineDict) : SourceLineDTO where
  lineNo := d.lineNo.getD 0
  source := d.source.getD []
  rawHtml := d.rawHtml.getD []
  coverageState := d.coverageState.getD .ignored
  analysisState := d.analysisState.getD "未确认".toList
  isPendingAnalysis := d.isPendingAnalysis.getD false
  suggestedReviewer := d.suggestedReviewer.getD []
  reviewer := d.reviewer.getD []
  coverageMethod := d.coverageMethod.getD []
  uncoveredReason := d.uncoveredReason.getD []
  isDraft := d.isDraft.getD false
  blockStartLine := d.blockStartLine.getD (d.lineNo.getD 0)
  blockEndLine := d.blockEndLine.getD (d.lineNo.getD 0)
  blockType := d.blockType.getD .single
  functionName := d.functionName.getD []
  isBlockEntry := d.isBlockEntry.getD false

@[simp] theorem fromDict_toDict (line : SourceLineDTO) : fromDict (toDict line) = line := rfl

@[simp] theorem number_toDict (line : SourceLineDTO) : (toDict line).number = line.lineNo := rfl

/-! ## Files -/

/-- `meta.json` -/
structure Meta where
  /-- `report_id` -/
  reportId : String
  /-- `project_name` -/
  projectName : String
  /-- `file_path` -/
  filePath : String
  /-- `total_lines`, zero when it is missing. -/
  totalLines : Nat
  /-- `function_ranges` -/
  functionRanges : List FunctionRange
  /-- `chunk_size`, zero when it is missing. -/
  chunkSize : Nat
  /-- `total_chunks`, zero when it is missing. -/
  totalChunks : Nat
  /-- `chunks`, empty when it is missing. -/
  chunks : List String
  /-- `content_hash`, empty when it is missing. -/
  contentHash : String
  deriving DecidableEq, Repr

/-- A file in the old format. -/
structure LegacyFile where
  /-- `report_id`, empty when it is missing. -/
  reportId : String
  /-- `project_name` -/
  projectName : String
  /-- `file_path` -/
  filePath : String
  /-- `total_lines`, when it is there. -/
  totalLines : Option Nat
  /-- `function_ranges` -/
  functionRanges : List FunctionRange
  /-- `lines` -/
  lines : List LineDict
  deriving DecidableEq, Repr

/-- A version of a file; none stands for a content that is not of the format. -/
structure StoredFile (α : Type) where
  /-- `_stat_signature` -/
  signature : Signature
  /-- What it holds. -/
  content : Option α
  deriving DecidableEq, Repr

/-- The versions that are there, none for a file that is missing. -/
structure Directory where
  /-- `meta.json` of a report and a file. -/
  metaFile : String → String → Option (StoredFile Meta)
  /-- A chunk of them, by its name. -/
  chunkFile : String → String → String → Option (StoredFile (List LineDict))
  /-- The file in the old format. -/
  legacyFile : String → String → Option (StoredFile LegacyFile)

/-- No files. -/
def Directory.empty : Directory := ⟨fun _ _ => none, fun _ _ _ => none, fun _ _ => none⟩

/-- A content for each signature of a file. -/
structure Volume where
  /-- `meta.json` of a report and a file. -/
  metaAt : String → String → Signature → Option Meta
  /-- A chunk of them, by its name. -/
  chunkAt : String → String → String → Signature → Option (List LineDict)

/-- **The signatures of the files tell their contents.** -/
structure Directory.SignedBy (v : Volume) (d : Directory) : Prop where
  /-- `meta.json` -/
  metaFile : ∀ {r f version}, d.metaFile r f = some version →
    version.content = v.metaAt r f version.signature
  /-- Chunks. -/
  chunkFile : ∀ {r f name version}, d.chunkFile r f name = some version →
    version.content = v.chunkAt r f name version.signature

/-- The check of `_find_report_cache_dirs`: a report with another identity has no directory. -/
def usableReportId (reportId : String) : Bool :=
  reportId ≠ "" ∧ '\\' ∉ reportId.toList ∧
    ∀ part ∈ reportId.toList.splitOn '/', part ∉ [[], ['.'], ['.', '.']]

/-! ## Names -/

/-- `{:06d}` -/
def pad6 (n : Nat) : List Char :=
  List.replicate (6 - (Git.decimal n).length) '0' ++ Git.decimal n

/-- The characters of `lines-{:06d}-{:06d}.json`. -/
def chunkNameChars (first last : Nat) : List Char :=
  ['l', 'i', 'n', 'e', 's', '-'] ++
    (pad6 first ++ '-' :: (pad6 last ++ ['.', 'j', 's', 'o', 'n']))

/-- The name of the chunk with these places. -/
def chunkName (first last : Nat) : String := String.ofList (chunkNameChars first last)

theorem isDigit_pad6 {n : Nat} {c : Char} (hc : c ∈ pad6 n) : c.isDigit = true := by
  rcases List.mem_append.1 hc with hc | hc
  · rw [(List.mem_replicate.1 hc).2]
    rfl
  · exact Git.isDigit_decimal hc

theorem pad6_inj {m n : Nat} (h : pad6 m = pad6 n) : m = n := by
  have hvalue : ∀ k, Nat.ofDigitChars 10 (pad6 k) 0 = k := by
    intro k
    rw [pad6, Nat.ofDigitChars_append, Nat.ofDigitChars_replicate_zero, Nat.mul_zero]
    exact Nat.ofDigitChars_ten_toDigits
  rw [← hvalue m, h, hvalue n]

/-- Text in front of the first occurrence of a character is told apart. -/
theorem append_cons_inj {c : Char} {s s' t t' : List Char} (hs : c ∉ s) (hs' : c ∉ s')
    (h : s ++ c :: t = s' ++ c :: t') : s = s' ∧ t = t' := by
  have hcut := congrArg (Text.cut [c]) h
  rw [Text.cut_char_append hs, Text.cut_char_append hs'] at hcut
  exact Prod.mk.inj (Option.some.inj hcut)

theorem chunkName_inj {first last first' last' : Nat}
    (h : chunkName first last = chunkName first' last') : first = first' := by
  have hdash : ∀ n, '-' ∉ pad6 n := fun n hc => absurd (isDigit_pad6 hc) (by decide)
  have hchars := congrArg String.toList h
  rw [chunkName, chunkName, String.toList_ofList, String.toList_ofList] at hchars
  have hrest := List.append_cancel_left hchars
  exact pad6_inj (append_cons_inj (hdash first) (hdash first') hrest).1

theorem slash_notMem_chunkNameChars (first last : Nat) : '/' ∉ chunkNameChars first last := by
  have hdigits : ∀ n, '/' ∉ pad6 n := fun n hc => absurd (isDigit_pad6 hc) (by decide)
  intro hc
  rcases List.mem_append.1 hc with hc | hc
  · exact absurd hc (by decide)
  · rcases List.mem_append.1 hc with hc | hc
    · exact hdigits first hc
    · rcases List.mem_cons.1 hc with hc | hc
      · exact absurd hc (by decide)
      · rcases List.mem_append.1 hc with hc | hc
        · exact hdigits last hc
        · exact absurd hc (by decide)

/-- A chunk's name has no directory. -/
theorem basename_chunkName (first last : Nat) :
    basename (chunkName first last) = chunkName first last := by
  have htake : (chunkNameChars first last).reverse.takeWhile (· ≠ '/') =
      (chunkNameChars first last).reverse := by
    refine List.takeWhile_eq_self_iff.2 fun c hc => decide_eq_true ?_
    rintro rfl
    exact slash_notMem_chunkNameChars first last (List.mem_reverse.1 hc)
  rw [basename, chunkName, String.toList_ofList, htake, List.reverse_reverse]

/-! ## Identities -/

/-- `"{}:{}".format(signature[0], signature[1])` -/
def signatureToken (s : Signature) : List Char :=
  Git.decimal s.mtimeNs ++ ':' :: Git.decimal s.size

/-- The text of a signature or of `None`. -/
def signatureText : Option Signature → List Char
  | none => "None".toList
  | some s => '(' :: (Git.decimal s.mtimeNs ++ ',' :: ' ' :: (Git.decimal s.size ++ [')']))

/-- `_asset_token` -/
def assetToken (assetIdentity contentHash : String) (signature : Signature) : List Char :=
  assetIdentity.toList ++ '|' :: (contentHash.toList ++ '|' :: signatureToken signature)

/-- `effective_identity` -/
def effectiveIdentity (token : List Char) (chunkSignature : Option Signature) : String :=
  String.ofList (token ++ '|' :: signatureText chunkSignature)

theorem decimal_inj {m n : Nat} (h : Git.decimal m = Git.decimal n) : m = n := by
  have hvalue := congrArg (Nat.ofDigitChars 10 · 0) h
  simpa only [Git.decimal, Nat.ofDigitChars_ten_toDigits] using hvalue

theorem notMem_decimal {c : Char} (hc : c.isDigit = false) (n : Nat) : c ∉ Git.decimal n := by
  intro h
  rw [Git.isDigit_decimal h] at hc
  cases hc

/-- Text behind the last occurrence of a character is told apart. -/
theorem append_cons_inj_last {c : Char} {s s' t t' : List Char} (ht : c ∉ t) (ht' : c ∉ t')
    (h : s ++ c :: t = s' ++ c :: t') : s = s' ∧ t = t' := by
  have hreverse := congrArg List.reverse h
  simp only [List.reverse_append, List.reverse_cons, List.append_assoc,
    List.singleton_append] at hreverse
  obtain ⟨hback, hfront⟩ := append_cons_inj (by rwa [List.mem_reverse]) (by rwa [List.mem_reverse])
    hreverse
  exact ⟨List.reverse_injective hfront, List.reverse_injective hback⟩

theorem signatureToken_inj {σ σ' : Signature} (h : signatureToken σ = signatureToken σ') :
    σ = σ' := by
  obtain ⟨hmtime, hsize⟩ := append_cons_inj (notMem_decimal (by decide) σ.mtimeNs)
    (notMem_decimal (by decide) σ'.mtimeNs) h
  cases σ
  cases σ'
  rw [Signature.mk.injEq]
  exact ⟨decimal_inj hmtime, decimal_inj hsize⟩

theorem bar_notMem_signatureToken (σ : Signature) : '|' ∉ signatureToken σ := by
  intro h
  rcases List.mem_append.1 h with h | h
  · exact notMem_decimal (by decide) _ h
  · rcases List.mem_cons.1 h with h | h
    · exact absurd h (by decide)
    · exact notMem_decimal (by decide) _ h

theorem signatureText_inj {τ τ' : Option Signature} (h : signatureText τ = signatureText τ') :
    τ = τ' := by
  cases τ with
  | none =>
    cases τ' with
    | none => rfl
    | some σ' => exact absurd (List.head_eq_of_cons_eq h) (by decide)
  | some σ =>
    cases τ' with
    | none => exact absurd (List.head_eq_of_cons_eq h) (by decide)
    | some σ' =>
      obtain ⟨hmtime, hrest⟩ := append_cons_inj (notMem_decimal (by decide) σ.mtimeNs)
        (notMem_decimal (by decide) σ'.mtimeNs) (List.tail_eq_of_cons_eq h)
      have hsize := List.append_cancel_right (List.tail_eq_of_cons_eq hrest)
      cases σ
      cases σ'
      rw [Option.some.injEq, Signature.mk.injEq]
      exact ⟨decimal_inj hmtime, decimal_inj hsize⟩

theorem bar_notMem_signatureText (τ : Option Signature) : '|' ∉ signatureText τ := by
  cases τ with
  | none => decide
  | some σ =>
    intro h
    rcases List.mem_cons.1 h with h | h
    · exact absurd h (by decide)
    · rcases List.mem_append.1 h with h | h
      · exact notMem_decimal (by decide) _ h
      · rcases List.mem_cons.1 h with h | h
        · exact absurd h (by decide)
        · rcases List.mem_cons.1 h with h | h
          · exact absurd h (by decide)
          · rcases List.mem_append.1 h with h | h
            · exact notMem_decimal (by decide) _ h
            · exact absurd h (by decide)

/-- **The signatures of both files are in the identity of a chunk.** -/
theorem effectiveIdentity_inj {assetIdentity contentHash contentHash' : String}
    {σ σ' : Signature} {τ τ' : Option Signature}
    (h : effectiveIdentity (assetToken assetIdentity contentHash σ) τ =
      effectiveIdentity (assetToken assetIdentity contentHash' σ') τ') : σ = σ' ∧ τ = τ' := by
  have hchars := congrArg String.toList h
  rw [effectiveIdentity, effectiveIdentity, String.toList_ofList, String.toList_ofList] at hchars
  obtain ⟨htoken, htext⟩ := append_cons_inj_last (bar_notMem_signatureText τ)
    (bar_notMem_signatureText τ') hchars
  have htoken := List.tail_eq_of_cons_eq (List.append_cancel_left htoken)
  exact ⟨signatureToken_inj (append_cons_inj_last (bar_notMem_signatureToken σ)
    (bar_notMem_signatureToken σ') htoken).2, signatureText_inj htext⟩

/-! ## Saving -/

/-- What `save_chunked_sidecar` writes. -/
structure SavedFiles where
  /-- The chunks with their names, in order. -/
  chunks : List (String × List LineDict)
  /-- `meta.json`, written last. -/
  metaFile : Meta

/-- Why a sidecar is not written or not read. -/
inductive SidecarError
  /-- `ValueError` -/
  | value (message : String)
  /-- `FileNotFoundError` -/
  | missing (message : String)
  deriving DecidableEq, Repr

/-- The chunk with an index. -/
def chunkSlice (lines : List LineDict) (size i : Nat) : List LineDict :=
  (lines.drop (i * size)).take (min (i * size + size) lines.length - i * size)

/-- `total_chunks` -/
def totalChunksOf (totalLines chunkSize : Nat) : Nat :=
  if 0 < totalLines then (totalLines + chunkSize - 1) / chunkSize else 0

/-- The chunks of some lines with their names. -/
def chunksFrom (lines : List LineDict) (chunkSize : Nat) : List (String × List LineDict) :=
  (List.range (totalChunksOf lines.length chunkSize)).map fun i =>
    (chunkName (i * chunkSize) (i * chunkSize + chunkSize - 1), chunkSlice lines chunkSize i)

/-- The files of a context, with `hash` for the digest of the lines. -/
def savedFiles (hash : List LineDict → String) (chunkSize : Nat) (reportId : String)
    (context : SourceContext) : SavedFiles :=
  let lines := context.lines.map toDict
  let chunks := chunksFrom lines chunkSize
  { chunks
    metaFile := {
      reportId
      projectName := context.projectName
      filePath := context.filePath
      totalLines := lines.length
      functionRanges := context.functionRanges
      chunkSize
      totalChunks := totalChunksOf lines.length chunkSize
      chunks := chunks.map Prod.fst
      contentHash := hash lines } }

/-- `save_chunked_sidecar`; the directory is the caller's. -/
def saveChunkedSidecar (hash : List LineDict → String) (chunkSize : Nat) (reportId : String)
    (context : SourceContext) : Except SidecarError SavedFiles :=
  if maxSidecarLines < context.lines.length then
    .error (.value "sidecar source exceeds the configured line limit")
  else if chunkSize < 1 ∨ maxRangeSpan < chunkSize then
    .error (.value "invalid sidecar chunk size")
  else .ok (savedFiles hash chunkSize reportId context)

/-- A save within the limits succeeds. -/
theorem saveChunkedSidecar_eq {hash : List LineDict → String} {chunkSize : Nat} {reportId : String}
    {context : SourceContext} (hlines : context.lines.length ≤ maxSidecarLines)
    (hsize : 1 ≤ chunkSize ∧ chunkSize ≤ maxRangeSpan) :
    saveChunkedSidecar hash chunkSize reportId context =
      .ok (savedFiles hash chunkSize reportId context) := by
  rw [saveChunkedSidecar, if_neg (Nat.not_lt.2 hlines), if_neg (by omega)]

theorem totalChunksOf_eq {totalLines chunkSize : Nat} (hsize : 1 ≤ chunkSize) :
    totalChunksOf totalLines chunkSize = (totalLines + chunkSize - 1) / chunkSize := by
  rw [totalChunksOf]
  split
  · rfl
  · exact (Nat.div_eq_of_lt (by omega)).symm

/-- **The names of the chunks differ.** -/
theorem nodup_chunksFrom (lines : List LineDict) {chunkSize : Nat} (hsize : 1 ≤ chunkSize) :
    ((chunksFrom lines chunkSize).map Prod.fst).Nodup := by
  rw [chunksFrom, List.map_map]
  refine List.nodup_range.map fun i j hij => ?_
  exact Nat.eq_of_mul_eq_mul_right hsize (chunkName_inj hij)

/-- The directory after the files are written: each has a new version, with the signature `stamp none`
for `meta.json` and `stamp (some name)` for a chunk. -/
def Directory.write (d : Directory) (reportId filePathHash : String) (files : SavedFiles)
    (stamp : Option String → Signature) : Directory where
  metaFile := fun r f =>
    if r = reportId ∧ f = filePathHash then some ⟨stamp none, some files.metaFile⟩
    else d.metaFile r f
  chunkFile := fun r f name =>
    if r = reportId ∧ f = filePathHash then
      match files.chunks.lookup name with
      | some lines => some ⟨stamp (some name), some lines⟩
      | none => d.chunkFile r f name
    else d.chunkFile r f name
  legacyFile := d.legacyFile

/-- **The new versions have the contents of their signatures.** -/
structure Volume.Records (v : Volume) (reportId filePathHash : String) (files : SavedFiles)
    (stamp : Option String → Signature) : Prop where
  /-- `meta.json` -/
  metaFile : v.metaAt reportId filePathHash (stamp none) = some files.metaFile
  /-- Every chunk. -/
  chunks : ∀ c ∈ files.chunks, v.chunkAt reportId filePathHash c.1 (stamp (some c.1)) = some c.2

theorem Directory.SignedBy.write {v : Volume} {d : Directory} (h : d.SignedBy v)
    {reportId filePathHash : String} {files : SavedFiles} {stamp : Option String → Signature}
    (hrecords : v.Records reportId filePathHash files stamp) :
    (d.write reportId filePathHash files stamp).SignedBy v where
  metaFile {r f version} hversion := by
    unfold Directory.write at hversion
    dsimp only at hversion
    split at hversion
    · next hfile =>
      obtain ⟨rfl, rfl⟩ := hfile
      obtain rfl := Option.some.inj hversion
      exact hrecords.metaFile.symm
    · exact h.metaFile hversion
  chunkFile {r f name version} hversion := by
    unfold Directory.write at hversion
    dsimp only at hversion
    split at hversion
    · next hfile =>
      obtain ⟨rfl, rfl⟩ := hfile
      split at hversion
      · next lines hlines =>
        obtain rfl := Option.some.inj hversion
        obtain ⟨before, after, hsplit, -⟩ := List.lookup_eq_some_iff.1 hlines
        exact (hrecords.chunks (name, lines) (by rw [hsplit]; simp)).symm
      · exact h.chunkFile hversion
    · exact h.chunkFile hversion

theorem lookup_of_mem {α : Type} {entries : List (String × α)}
    (h : (entries.map Prod.fst).Nodup) {c : String × α} (hc : c ∈ entries) :
    entries.lookup c.1 = some c.2 := by
  obtain ⟨before, after, rfl⟩ := List.append_of_mem hc
  refine List.lookup_eq_some_iff.2 ⟨before, after, rfl, fun b hb => ?_⟩
  rw [List.map_append, List.nodup_append] at h
  refine bne_iff_ne.2 fun heq => ?_
  exact h.2.2 b.1 (List.mem_map_of_mem hb) c.1 (by simp) heq.symm

/-- A chunk that was written is there. -/
theorem Directory.write_chunk (d : Directory) (reportId filePathHash : String) {files : SavedFiles}
    (stamp : Option String → Signature) {name : String} {lines : List LineDict}
    (h : files.chunks.lookup name = some lines) :
    (d.write reportId filePathHash files stamp).chunkFile reportId filePathHash name =
      some ⟨stamp (some name), some lines⟩ := by
  simp [write, h]

end CodeDetail

end FosCoverage
