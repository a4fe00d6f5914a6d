import FosCoverage.Import.Batches
import Mathlib.Algebra.Order.BigOperators.Group.List
import Mathlib.Algebra.Order.Group.Nat

/-!
# What the batches of an input are

The chunks and the batches are two greedy groupings with three limits between them, so what a chunk
or a batch has is a property of groups (`Grouping.forall_groups`).

* `ChunkOf` is what every chunk of a file has: its fields, its lengths, its limits.
* Two neighbouring chunks of one file never fit into one batch (`Apart`): the first line of the
  second one is what the first one had no room for.  A batch therefore has a chunk that continues a
  file in its first place only (`BatchOk`).
* Batches are sorted, so the order of the chunks of a file is theirs only because no batch has two
  of them.  `Packed` states what the batches are, with every chunk marked by the number of its file,
  and **the batches of any input under any limits are packed** (`coverage_batches_packed`).
-/

set_option autoImplicit false

namespace FosCoverage

namespace ScanImportCoordinator

/-! ## Chunks -/

/-- What every chunk of a file has. -/
structure ChunkOf (env : Env) (limits : BatchLimits) (item c : CoverageItem) : Prop where
  /-- It is the file, up to the lines and the note. -/
  fields : { item with lines := c.lines, chunk := c.chunk } = c
  /-- It counts the file or does not. -/
  counted : c.fileCountDelta ≤ 1
  /-- A line count in the note is the number of its lines. -/
  lineCount : ∀ n, c.chunk.bind ChunkMeta.lineCount = some n → n = c.lines.length
  /-- With a line limit the note has the line count. -/
  metaLines : 0 < limits.maxLines → metaLines c = c.lines.length
  /-- With a byte limit the note has the estimated size. -/
  metaBytes : 0 < limits.maxEstBytes → metaBytes c = chunkBytes env c c.lines
  /-- The line limit. -/
  lineLimit : 0 < limits.maxLines → c.lines.length ≤ limits.maxLines
  /-- The byte limit, which a single line may exceed. -/
  byteLimit : 0 < limits.maxEstBytes →
    chunkBytes env c c.lines ≤ limits.maxEstBytes ∨ c.lines.length ≤ 1

/-- A chunk that continues a file has no room in the batch of the chunk before it. -/
def Apart (limits : BatchLimits) (c c' : CoverageItem) : Prop :=
  c'.fileCountDelta = 0 →
    (0 < limits.maxLines ∧ limits.maxLines < metaLines c + metaLines c') ∨
    (0 < limits.maxEstBytes ∧ limits.maxEstBytes < metaBytes c + metaBytes c')

section Chunks

variable {env : Env} {limits : BatchLimits} {item : CoverageItem}

theorem chunkBytes_append (lines : List LineRecord) (r : LineRecord) :
    chunkBytes env item (lines ++ [r]) =
      chunkBytes env item lines + (env.estimateRecordBytes r + 1) := by
  simp only [chunkBytes, List.map_append, List.sum_append, List.map_singleton, List.sum_singleton]
  omega

theorem le_chunkBytes {lines : List LineRecord} {r : LineRecord} (h : r ∈ lines) :
    env.estimateRecordBytes r + 1 ≤ chunkBytes env item lines := by
  have hle : env.estimateRecordBytes r + 1 ≤
      (lines.map fun r => env.estimateRecordBytes r + 1).sum :=
    List.single_le_sum (fun _ _ => Nat.zero_le _) _ (List.mem_map_of_mem h)
  simp only [chunkBytes]
  omega

/-- What the line list of a chunk has. -/
structure LinesOk (env : Env) (limits : BatchLimits) (item : CoverageItem)
    (lines : List LineRecord) : Prop where
  /-- The line limit. -/
  lineLimit : 0 < limits.maxLines → lines.length ≤ limits.maxLines
  /-- The byte limit. -/
  byteLimit : 0 < limits.maxEstBytes →
    chunkBytes env item lines ≤ limits.maxEstBytes ∨ lines.length ≤ 1

theorem linesOk_of_mem {lines : List LineRecord} (h : lines ∈ chunkLines env limits item) :
    LinesOk env limits item lines := by
  have hgroups : ∀ g ∈ Grouping.groups (chunkFull env limits item) item.lines,
      LinesOk env limits item g := by
    refine Grouping.forall_groups (S := fun _ => True) (R := fun _ _ => True)
      (fun r _ => ⟨fun h => h, fun _ => .inr (Nat.le_refl 1)⟩) ?_ (fun _ _ => trivial) ?_
    · intro g a b hg _ _ hcut
      simp only [chunkFull, decide_eq_false_iff_not, not_or, not_and, not_le, not_lt] at hcut
      refine ⟨fun hpos => ?_, fun hpos => .inl ?_⟩
      · have := hcut.1 hpos
        rw [List.length_append, List.length_singleton]
        omega
      · rw [chunkBytes_append]
        exact hcut.2 hpos
    · exact (List.pairwise_of_forall fun _ _ => trivial).isChain
  rw [chunkLines] at h
  split at h
  · obtain rfl := List.mem_singleton.1 h
    exact ⟨fun _ => Nat.zero_le _, fun _ => .inr (Nat.zero_le 1)⟩
  · exact hgroups lines h

/-- The lines of the emitted chunks. -/
theorem exists_of_mem_emitChunks {first : Bool} {groups : List (List LineRecord)} {c : CoverageItem}
    (h : c ∈ emitChunks env item first groups) :
    ∃ first last, ∃ lines ∈ groups, c = emitChunk env item first last lines := by
  induction groups generalizing first with
  | nil => cases h
  | cons lines rest ih =>
    rcases List.mem_cons.1 h with rfl | h
    · exact ⟨first, rest.isEmpty, lines, List.mem_cons_self, rfl⟩
    · obtain ⟨first', last, lines', hmem, rfl⟩ := ih h
      exact ⟨first', last, lines', List.mem_cons_of_mem lines hmem, rfl⟩

/-- **What every chunk of a file has.** -/
theorem chunkOf_of_mem {c : CoverageItem} (h : c ∈ fileChunks env limits item) :
    ChunkOf env limits item c := by
  rw [fileChunks] at h
  split at h
  · rename_i hoff
    obtain rfl := List.mem_singleton.1 h
    exact ⟨rfl, Nat.le_refl 1, fun _ hn => by simp at hn, fun hpos => by omega,
      fun hpos => by omega, fun hpos => by omega, fun hpos => by omega⟩
  · obtain ⟨first, last, lines, hmem, rfl⟩ := exists_of_mem_emitChunks h
    have hok := linesOk_of_mem hmem
    refine ⟨rfl, ?_, fun n hn => ?_, fun _ => rfl, fun _ => rfl, hok.lineLimit, hok.byteLimit⟩
    · cases first
      · exact Nat.zero_le 1
      · exact Nat.le_refl 1
    · exact (Option.some.inj hn).symm

/-- Only the first chunk of a file counts it. -/
theorem fileCountDelta_emitChunks_false (groups : List (List LineRecord)) :
    ∀ c ∈ emitChunks env item false groups, c.fileCountDelta = 0 := by
  induction groups with
  | nil => exact fun c hc => absurd hc List.not_mem_nil
  | cons lines rest ih =>
    intro c hc
    rcases List.mem_cons.1 hc with rfl | hc
    · rfl
    · exact ih c hc

/-- Later chunks of a file do not count it. -/
theorem pairwise_fileChunks (item : CoverageItem) :
    (fileChunks env limits item).Pairwise fun _ c => c.fileCountDelta = 0 := by
  rw [fileChunks]
  split
  · exact List.pairwise_singleton _ _
  · cases chunkLines env limits item with
    | nil => exact List.Pairwise.nil
    | cons lines rest =>
      have hrest : ∀ c ∈ emitChunks env item false rest, c.fileCountDelta = 0 :=
        fileCountDelta_emitChunks_false rest
      exact List.pairwise_cons.2
        ⟨hrest, List.pairwise_of_forall_mem_list fun _ _ c hc => hrest c hc⟩

/-- The chunks of a file are apart. -/
theorem isChain_fileChunks (item : CoverageItem) :
    (fileChunks env limits item).IsChain (Apart limits) := by
  have emitted : ∀ (groups : List (List LineRecord)) (first : Bool),
      groups.IsChain (fun g h => ∃ b ∈ h.head?, chunkFull env limits item g b = true) →
      (emitChunks env item first groups).IsChain (Apart limits) := by
    intro groups
    induction groups with
    | nil => exact fun _ _ => List.isChain_nil
    | cons g rest ih =>
      intro first hchain
      rw [emitChunks]
      refine List.isChain_cons.2 ⟨fun c hc _ => ?_, ih false (List.isChain_cons.1 hchain).2⟩
      cases rest with
      | nil => cases hc
      | cons h tail =>
        obtain rfl : emitChunk env item false tail.isEmpty h = c := Option.some.inj hc
        obtain ⟨b, hb, hfull⟩ := (List.isChain_cons.1 hchain).1 h rfl
        have hmem : b ∈ h := List.mem_of_mem_head? hb
        have hsize : env.estimateRecordBytes _ + 1 ≤ chunkBytes env item _ := le_chunkBytes hmem
        have hlen := List.length_pos_of_mem hmem
        simp only [chunkFull, decide_eq_true_eq] at hfull
        refine hfull.imp (fun hl => ⟨hl.1, ?_⟩) fun hl => ⟨hl.1, ?_⟩
        · show limits.maxLines < g.length + h.length
          omega
        · show limits.maxEstBytes < chunkBytes env item g + chunkBytes env item h
          omega
  rw [fileChunks]
  split
  · exact List.isChain_singleton _
  · refine emitted _ true ?_
    rw [chunkLines]
    split
    · exact List.isChain_singleton _
    · exact Grouping.isChain_groups _ item.lines

end Chunks

/-! ## Batches -/

/-- A chunk with the number of its file. -/
abbrev Marked := Nat × CoverageItem

/-- The chunks of an input, with the number of their file. -/
def markedChunks (env : Env) (limits : BatchLimits) (files : List CoverageItem) : List Marked :=
  files.zipIdx.flatMap fun f => (fileChunks env limits f.1).map fun c => (f.2, c)

/-- The marks of a batch are of no use to the code. -/
def markedFull (maxFiles : Nat) (limits : BatchLimits) (batch : List Marked) (c : Marked) : Bool :=
  batchFull maxFiles limits (batch.map Prod.snd) c.2

/-- The batches, with the number of the file of every chunk. -/
def markedBatches (env : Env) (files : List CoverageItem) (maxFiles : Nat) (limits : BatchLimits) :
    List (List Marked) :=
  (Grouping.groups (markedFull maxFiles limits) (markedChunks env limits files)).map
    fun batch => batch.insertionSort fun a b => sortKeyLe a.2 b.2

/-- The chunks of one file in the order of the batches. -/
def chunksOf (batches : List (List Marked)) (i : Nat) : List CoverageItem :=
  (batches.flatten.filter fun c => c.1 = i).map Prod.snd

/-- A chunk completes its file. -/
def completes (c : CoverageItem) : Bool := c.chunk.any ChunkMeta.fileComplete

/-- What the batches of an input are, when every chunk carries the number of its file. -/
structure Packed (env : Env) (limits : BatchLimits) (maxFiles : Nat) (files : List CoverageItem)
    (batches : List (List Marked)) : Prop where
  /-- Every chunk is one of a file. -/
  known : ∀ batch ∈ batches, ∀ c ∈ batch, ∃ item, files[c.1]? = some item ∧
    { item with lines := c.2.lines, chunk := c.2.chunk } = c.2
  /-- The chunks of a file have its lines, in order. -/
  lines : ∀ i item, files[i]? = some item →
    (chunksOf batches i).flatMap CoverageItem.lines = item.lines
  /-- A file is counted once. -/
  counted : ∀ i item, files[i]? = some item →
    ((chunksOf batches i).map CoverageItem.fileCountDelta).sum = 1
  /-- Its last chunk completes it, and no other one. -/
  completed : ∀ i item, files[i]? = some item → ∃ before last,
    chunksOf batches i = before ++ [last] ∧ completes last = true ∧
    ∀ c ∈ before, completes c = false
  /-- The limit on files. -/
  newFiles : ∀ batch ∈ batches,
    (batch.map fun c => c.2.fileCountDelta).sum ≤ max 1 maxFiles
  /-- The limit on lines. -/
  lineLimit : 0 < limits.maxLines → ∀ batch ∈ batches,
    (batch.map fun c => c.2.lines.length).sum ≤ limits.maxLines
  /-- The limit on bytes, which a chunk of at most one line may exceed on its own. -/
  byteLimit : 0 < limits.maxEstBytes → ∀ batch ∈ batches,
    (batch.map fun c => chunkBytes env c.2 c.2.lines).sum ≤ limits.maxEstBytes ∨
    ∃ c, batch = [c] ∧ c.2.lines.length ≤ 1
  /-- A batch has at most one chunk of a file. -/
  distinct : ∀ batch ∈ batches, (batch.map Prod.fst).Nodup
  /-- A replay counts what is in the batch. -/
  replay : ∀ batch ∈ batches,
    (consumeCoverageBatch env (batch.map Prod.snd)).fileCount =
      (batch.map fun c => c.2.fileCountDelta).sum ∧
    (consumeCoverageBatch env (batch.map Prod.snd)).lineCount =
      (batch.map fun c => c.2.lines.length).sum

section Batches

variable {env : Env} {limits : BatchLimits} {maxFiles : Nat} {files : List CoverageItem}

theorem mem_markedChunks {c : Marked} (h : c ∈ markedChunks env limits files) :
    ∃ item, files[c.1]? = some item ∧ c.2 ∈ fileChunks env limits item := by
  obtain ⟨⟨item, i⟩, hf, hc⟩ := List.mem_flatMap.1 h
  obtain ⟨c', hc', rfl⟩ := List.mem_map.1 hc
  exact ⟨item, List.mem_zipIdx_iff_getElem?.1 hf, hc'⟩

/-- The chunk of a file that comes first counts it. -/
theorem head_fileChunks (item : CoverageItem) :
    ∃ c rest, fileChunks env limits item = c :: rest ∧ c.fileCountDelta = 1 := by
  rw [fileChunks]
  split
  · exact ⟨_, [], rfl, rfl⟩
  · cases h : chunkLines env limits item with
    | nil =>
      rw [chunkLines] at h
      split at h
      · cases h
      · contradiction
    | cons lines rest => exact ⟨_, _, rfl, rfl⟩

/-- Of two chunks of one file the later one does not count it. -/
theorem pairwise_markedChunks : (markedChunks env limits files).Pairwise fun a b =>
    a.1 = b.1 → b.2.fileCountDelta = 0 := by
  refine List.pairwise_flatMap.2 ⟨fun f _ => ?_, ?_⟩
  · have hlater : (fileChunks env limits f.1).Pairwise fun _ c => c.fileCountDelta = 0 :=
      pairwise_fileChunks f.1
    exact List.pairwise_map.2 (hlater.imp
      (S := fun _ c : CoverageItem => f.2 = f.2 → c.fileCountDelta = 0) fun h _ => h)
  · have hindices : files.zipIdx.Pairwise fun f g => f.2 ≠ g.2 := by
      have hnodup : (files.zipIdx.map Prod.snd).Nodup := by
        rw [List.zipIdx_map_snd]
        exact List.nodup_range'
      exact List.pairwise_map.1 hnodup
    refine hindices.imp fun hne a ha b hb he => absurd ?_ hne
    obtain ⟨_, _, rfl⟩ := List.mem_map.1 ha
    obtain ⟨_, _, rfl⟩ := List.mem_map.1 hb
    exact he

/-- Neighbouring chunks are apart. -/
theorem isChain_markedChunks :
    (markedChunks env limits files).IsChain fun a b => Apart limits a.2 b.2 := by
  rw [markedChunks]
  generalize 0 = k
  induction files generalizing k with
  | nil => exact List.isChain_nil
  | cons item files ih =>
    rw [List.zipIdx_cons, List.flatMap_cons]
    refine List.isChain_append.2 ⟨?_, ih (k + 1), fun a _ b hb hcont => ?_⟩
    · exact (List.isChain_map _).2 (isChain_fileChunks item)
    · exfalso
      cases files with
      | nil => cases hb
      | cons next files =>
        obtain ⟨c, rest, hc, hone⟩ :
            ∃ c rest, fileChunks env limits next = c :: rest ∧ c.fileCountDelta = 1 :=
          head_fileChunks next
        rw [List.zipIdx_cons, List.flatMap_cons, hc] at hb
        obtain rfl : (k + 1, c) = b := Option.some.inj hb
        rw [hone] at hcont
        cases hcont

/-- The chunks of a file among all chunks. -/
theorem filter_markedChunks {i : Nat} {item : CoverageItem} (h : files[i]? = some item) :
    (markedChunks env limits files).filter (fun c => c.1 = i) =
      (fileChunks env limits item).map fun c => (i, c) := by
  have own : ∀ (k : Nat) (item : CoverageItem),
      ((fileChunks env limits item).map fun c => (k, c)).filter (fun c => c.1 = k) =
        (fileChunks env limits item).map fun c => (k, c) := by
    intro k item
    refine List.filter_eq_self.2 fun c hc => ?_
    obtain ⟨_, _, rfl⟩ := List.mem_map.1 hc
    exact decide_eq_true rfl
  have other : ∀ (k n : Nat) (files : List CoverageItem), k < n →
      ((files.zipIdx n).flatMap fun f => (fileChunks env limits f.1).map fun c => (f.2, c)).filter
        (fun c => c.1 = k) = [] := by
    intro k n files hlt
    refine List.filter_eq_nil_iff.2 fun c hc => ?_
    obtain ⟨f, hf, hc⟩ := List.mem_flatMap.1 hc
    obtain ⟨_, _, rfl⟩ := List.mem_map.1 hc
    have := List.le_snd_of_mem_zipIdx hf
    simp only [decide_eq_true_eq]
    omega
  have shifted : ∀ (files : List CoverageItem) (k i : Nat), files[i]? = some item →
      ((files.zipIdx k).flatMap fun f => (fileChunks env limits f.1).map fun c => (f.2, c)).filter
        (fun c => c.1 = k + i) = (fileChunks env limits item).map fun c => (k + i, c) := by
    intro files
    induction files with
    | nil => exact fun k i h => absurd h (by simp)
    | cons first files ih =>
      intro k i h
      rw [List.zipIdx_cons, List.flatMap_cons, List.filter_append]
      cases i with
      | zero =>
        obtain rfl : first = item := by simpa using h
        rw [Nat.add_zero, own, other k (k + 1) files (Nat.lt_succ_self k), List.append_nil]
      | succ i =>
        have hfirst : ((fileChunks env limits first).map fun c => (k, c)).filter
            (fun c => c.1 = k + (i + 1)) = [] := by
          refine List.filter_eq_nil_iff.2 fun c hc => ?_
          obtain ⟨_, _, rfl⟩ := List.mem_map.1 hc
          simp only [decide_eq_true_eq]
          omega
        have hrest := ih (k + 1) i (by simpa using h)
        rw [show k + 1 + i = k + (i + 1) by omega] at hrest
        rw [hfirst, hrest, List.nil_append]
  have := shifted files 0 i h
  rwa [Nat.zero_add] at this

/-- The chunks of a file: the last one completes it, and no other one. -/
theorem completed_fileChunks (item : CoverageItem) : ∃ before last,
    fileChunks env limits item = before ++ [last] ∧ completes last = true ∧
    ∀ c ∈ before, completes c = false := by
  have emitted : ∀ (rest : List (List LineRecord)) (lines : List LineRecord) (first : Bool),
      ∃ before last, emitChunks env item first (lines :: rest) = before ++ [last] ∧
        completes last = true ∧ ∀ c ∈ before, completes c = false := by
    intro rest
    induction rest with
    | nil =>
      intro lines first
      exact ⟨[], _, rfl, rfl, fun c hc => absurd hc List.not_mem_nil⟩
    | cons next rest ih =>
      intro lines first
      obtain ⟨before, last, heq, hlast, hbefore⟩ := ih next false
      refine ⟨emitChunk env item first false lines :: before, last, ?_, hlast, ?_⟩
      · rw [emitChunks, heq]
        rfl
      · intro c hc
        rcases List.mem_cons.1 hc with rfl | hc
        · rfl
        · exact hbefore c hc
  rw [fileChunks]
  split
  · exact ⟨[], _, rfl, rfl, fun c hc => absurd hc List.not_mem_nil⟩
  · cases h : chunkLines env limits item with
    | nil =>
      rw [chunkLines] at h
      split at h
      · cases h
      · contradiction
    | cons lines rest => exact emitted rest lines true

/-- What a batch has before it is sorted. -/
structure BatchOk (env : Env) (limits : BatchLimits) (maxFiles : Nat) (batch : List Marked) :
    Prop where
  /-- The limit on files. -/
  newFiles : (batch.map fun c => c.2.fileCountDelta).sum ≤ max 1 maxFiles
  /-- The limit on lines. -/
  lineLimit : 0 < limits.maxLines →
    (batch.map fun c => metaLines c.2).sum ≤ limits.maxLines
  /-- The limit on bytes. -/
  byteLimit : 0 < limits.maxEstBytes →
    (batch.map fun c => metaBytes c.2).sum ≤ limits.maxEstBytes ∨
    ∃ c, batch = [c] ∧ c.2.lines.length ≤ 1
  /-- A chunk that continues a file comes first. -/
  continues : ∀ c ∈ batch.tail, c.2.fileCountDelta = 1

/-- **What a batch has.** -/
theorem batchOk_of_mem {batch : List Marked}
    (h : batch ∈ Grouping.groups (markedFull maxFiles limits) (markedChunks env limits files)) :
    BatchOk env limits maxFiles batch := by
  refine Grouping.forall_groups
    (S := fun c : Marked => ∃ item, ChunkOf env limits item c.2)
    (R := fun a b : Marked => Apart limits a.2 b.2) ?_ ?_ (fun c hc => ?_)
    isChain_markedChunks batch h
  · rintro c ⟨item, hc⟩
    refine ⟨?_, fun hpos => ?_, fun hpos => ?_, fun _ hmem => nomatch hmem⟩
    · have := hc.counted
      rw [List.map_singleton, List.sum_singleton]
      omega
    · rw [List.map_singleton, List.sum_singleton, hc.metaLines hpos]
      exact hc.lineLimit hpos
    · rw [List.map_singleton, List.sum_singleton, hc.metaBytes hpos]
      exact (hc.byteLimit hpos).imp id fun hone => ⟨c, rfl, hone⟩
  · rintro g a b hg ⟨item, hb⟩ hapart hcut
    -- nothing asked for a cut, so there is room for the chunk, and it starts a file
    simp only [markedFull, batchFull, decide_eq_false_iff_not, not_or, not_and, not_le, not_lt,
      List.map_map, Function.comp_def] at hcut
    obtain ⟨hfiles, hlines, hbytes⟩ := hcut
    have hcounted := hb.counted
    have hstarts : b.2.fileCountDelta = 1 := by
      by_contra hne
      have hzero : b.2.fileCountDelta = 0 := by omega
      rw [List.map_append, List.sum_append, List.map_singleton, List.sum_singleton] at hlines hbytes
      rcases hapart hzero with ⟨hpos, hover⟩ | ⟨hpos, hover⟩
      · have := hlines hpos
        omega
      · have := hbytes hpos
        omega
    refine ⟨?_, fun hpos => ?_, fun hpos => .inl ?_, fun c hc => ?_⟩
    · have hroom : ((g ++ [a]).map fun c => c.2.fileCountDelta).sum < max 1 maxFiles :=
        hfiles (by omega)
      rw [List.map_append, List.sum_append, List.map_singleton, List.sum_singleton]
      omega
    · rw [List.map_append, List.sum_append, List.map_singleton, List.sum_singleton]
      exact hlines hpos
    · rw [List.map_append, List.sum_append, List.map_singleton, List.sum_singleton]
      exact hbytes hpos
    · rw [List.tail_append_of_ne_nil (by simp)] at hc
      rcases List.mem_append.1 hc with hc | hc
      · exact hg.continues c hc
      · rw [List.mem_singleton.1 hc]
        exact hstarts
  · obtain ⟨item, _, hmem⟩ := mem_markedChunks hc
    exact ⟨item, chunkOf_of_mem hmem⟩

/-- No batch has two chunks of a file. -/
theorem nodup_of_mem {batch : List Marked}
    (h : batch ∈ Grouping.groups (markedFull maxFiles limits) (markedChunks env limits files)) :
    (batch.map Prod.fst).Nodup := by
  have hall : (markedChunks env limits files).Pairwise fun a b =>
      a.1 = b.1 → b.2.fileCountDelta = 0 := pairwise_markedChunks
  have hpair := hall.sublist (Grouping.sublist_of_mem_groups h)
  have hcont := (batchOk_of_mem h).continues
  cases batch with
  | nil => exact List.nodup_nil
  | cons c rest =>
    have hstarts : ∀ b ∈ rest, b.2.fileCountDelta ≠ 0 := fun b hb => by
      rw [hcont b hb]
      exact Nat.one_ne_zero
    rw [List.pairwise_cons] at hpair
    refine List.pairwise_map.2 (List.pairwise_cons.2 ⟨fun b hb he => ?_, ?_⟩)
    · exact hstarts b hb (hpair.1 b hb he)
    · exact hpair.2.imp_of_mem fun _ hb hcount he => hstarts _ hb (hcount he)

/-- Sorting does not move what a batch has one of. -/
theorem filter_of_perm {batch sorted : List Marked} (h : sorted.Perm batch)
    (hnodup : (batch.map Prod.fst).Nodup) (i : Nat) :
    (sorted.filter fun c => c.1 = i) = batch.filter fun c => c.1 = i := by
  have hperm : (sorted.filter fun c => c.1 = i).Perm (batch.filter fun c => c.1 = i) := h.filter _
  have hone : (batch.filter fun c => c.1 = i).length ≤ 1 := by
    have hsub : ((batch.filter fun c => c.1 = i).map Prod.fst).Nodup :=
      hnodup.sublist (List.filter_sublist.map _)
    have hrep : (batch.filter fun c => c.1 = i).map Prod.fst =
        List.replicate (batch.filter fun c => c.1 = i).length i := by
      refine List.eq_replicate_iff.2 ⟨List.length_map _, fun n hn => ?_⟩
      obtain ⟨c, hc, rfl⟩ := List.mem_map.1 hn
      exact of_decide_eq_true (List.mem_filter.1 hc).2
    rw [hrep, List.nodup_replicate] at hsub
    exact hsub
  cases hb : batch.filter fun c => c.1 = i with
  | nil =>
    rw [hb] at hperm
    exact hperm.eq_nil
  | cons c rest =>
    rw [hb, List.length_cons] at hone
    obtain rfl : rest = [] := List.eq_nil_of_length_eq_zero (by omega)
    rw [hb] at hperm
    exact List.perm_singleton.1 hperm

/-- The chunks of a file in the order of the batches are its chunks. -/
theorem chunksOf_markedBatches {i : Nat} {item : CoverageItem} (h : files[i]? = some item) :
    chunksOf (markedBatches env files maxFiles limits) i = fileChunks env limits item := by
  have sorted : ∀ groups : List (List Marked), (∀ g ∈ groups, (g.map Prod.fst).Nodup) →
      ((groups.map fun g => g.insertionSort fun a b => sortKeyLe a.2 b.2).flatten.filter
        fun c => c.1 = i) = groups.flatten.filter fun c => c.1 = i := by
    intro groups hgroups
    induction groups with
    | nil => rfl
    | cons g groups ih =>
      rw [List.map_cons, List.flatten_cons, List.flatten_cons, List.filter_append,
        List.filter_append, ih fun g' hg' => hgroups g' (List.mem_cons_of_mem g hg'),
        filter_of_perm (List.perm_insertionSort _ g) (hgroups g List.mem_cons_self)]
  rw [chunksOf, markedBatches, sorted _ fun g hg => nodup_of_mem hg, Grouping.flatten_groups,
    filter_markedChunks h, List.map_map]
  exact List.map_id _

/-- Without the marks the batches are those of the code. -/
theorem map_markedBatches : (markedBatches env files maxFiles limits).map (List.map Prod.snd) =
    iterCoverageBatches env files maxFiles limits := by
  have hchunks : (markedChunks env limits files).map Prod.snd =
      iterCoverageFileChunks env limits files := by
    rw [markedChunks, iterCoverageFileChunks, List.map_flatMap]
    have hsame : (fun f : CoverageItem × Nat =>
        ((fileChunks env limits f.1).map fun c => (f.2, c)).map Prod.snd) =
        (fileChunks env limits) ∘ Prod.fst := by
      funext f
      rw [List.map_map]
      exact List.map_id _
    rw [hsame]
    conv_rhs => rw [← List.zipIdx_map_fst 0 files]
    exact (List.flatMap_map Prod.fst (fileChunks env limits) files.zipIdx).symm
  rw [iterCoverageBatches, ← hchunks, Grouping.groups_map, markedBatches, List.map_map,
    List.map_map]
  refine List.map_congr_left fun g _ => ?_
  exact List.map_insertionSort _ _ _ _ fun a _ b _ => Iff.rfl

end Batches

/-- **The batches of an input lose and repeat nothing, and keep the three limits**: for every
input, every number of files and all limits. -/
theorem coverage_batches_packed (env : Env) (files : List CoverageItem) (maxFiles : Nat)
    (limits : BatchLimits) : ∃ batches,
      batches.map (List.map Prod.snd) = iterCoverageBatches env files maxFiles limits ∧
      Packed env limits maxFiles files batches := by
  refine ⟨markedBatches env files maxFiles limits, map_markedBatches, ?_⟩
  -- a batch is one of the groups, sorted
  have group : ∀ {P : List Marked → Prop}, (∀ g g' : List Marked, g'.Perm g → P g → P g') →
      (∀ g ∈ Grouping.groups (markedFull maxFiles limits) (markedChunks env limits files), P g) →
      ∀ batch ∈ markedBatches env files maxFiles limits, P batch := by
    intro P hperm hP batch hbatch
    obtain ⟨g, hg, rfl⟩ := List.mem_map.1 hbatch
    exact hperm g _ (List.perm_insertionSort _ g) (hP g hg)
  have sums : ∀ {f : Marked → Nat} {g g' : List Marked}, g'.Perm g →
      (g'.map f).sum = (g.map f).sum := fun h => (h.map _).sum_eq
  have chunk : ∀ batch ∈ markedBatches env files maxFiles limits, ∀ c ∈ batch,
      ∃ item, files[c.1]? = some item ∧ ChunkOf env limits item c.2 := by
    refine group (fun g g' h hg c hc => hg c (h.mem_iff.1 hc)) fun g hg c hc => ?_
    obtain ⟨item, hitem, hmem⟩ :=
      mem_markedChunks ((Grouping.sublist_of_mem_groups hg).subset hc)
    exact ⟨item, hitem, chunkOf_of_mem hmem⟩
  constructor
  case known =>
    intro batch hbatch c hc
    obtain ⟨item, hitem, hchunk⟩ := chunk batch hbatch c hc
    exact ⟨item, hitem, hchunk.fields⟩
  case lines =>
    intro i item h
    rw [chunksOf_markedBatches h, flatMap_fileChunks_lines]
  case counted =>
    intro i item h
    rw [chunksOf_markedBatches h, sum_fileCountDelta_fileChunks]
  case completed =>
    intro i item h
    rw [chunksOf_markedBatches h]
    exact completed_fileChunks item
  case newFiles =>
    refine group (fun g g' h hg => ?_) fun g hg => (batchOk_of_mem hg).newFiles
    rwa [sums h]
  case lineLimit =>
    intro hpos batch hbatch
    have hsame : (batch.map fun c => c.2.lines.length) = batch.map fun c => metaLines c.2 := by
      refine List.map_congr_left fun c hc => ?_
      obtain ⟨item, _, hchunk⟩ := chunk batch hbatch c hc
      exact (hchunk.metaLines hpos).symm
    rw [hsame]
    refine group (P := fun g => (g.map fun c => metaLines c.2).sum ≤ limits.maxLines)
      (fun g g' h hg => ?_) (fun g hg => (batchOk_of_mem hg).lineLimit hpos) batch hbatch
    rwa [sums h]
  case byteLimit =>
    intro hpos batch hbatch
    have hsame : (batch.map fun c => chunkBytes env c.2 c.2.lines) =
        batch.map fun c => metaBytes c.2 := by
      refine List.map_congr_left fun c hc => ?_
      obtain ⟨item, _, hchunk⟩ := chunk batch hbatch c hc
      exact (hchunk.metaBytes hpos).symm
    rw [hsame]
    refine group (P := fun g => (g.map fun c => metaBytes c.2).sum ≤ limits.maxEstBytes ∨
        ∃ c, g = [c] ∧ c.2.lines.length ≤ 1) (fun g g' h hg => ?_)
      (fun g hg => (batchOk_of_mem hg).byteLimit hpos) batch hbatch
    rcases hg with hg | ⟨c, rfl, hone⟩
    · exact .inl (by rwa [sums h])
    · exact .inr ⟨c, List.perm_singleton.1 h, hone⟩
  case distinct =>
    exact group (fun g g' h hg => (h.map Prod.fst).nodup_iff.2 hg) fun g hg => nodup_of_mem hg
  case replay =>
    intro batch hbatch
    refine ⟨?_, ?_⟩
    · show ((batch.map Prod.snd).map CoverageItem.fileCountDelta).sum = _
      rw [List.map_map]
      rfl
    · show ((batch.map Prod.snd).map _).sum = _
      rw [List.map_map]
      refine congrArg List.sum (List.map_congr_left fun c hc => ?_)
      obtain ⟨item, _, hchunk⟩ := chunk batch hbatch c hc
      dsimp only [Function.comp]
      split
      · next n hn => exact hchunk.lineCount n hn
      · rfl

end ScanImportCoordinator

end FosCoverage
