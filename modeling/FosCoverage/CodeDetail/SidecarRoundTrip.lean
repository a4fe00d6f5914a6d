import FosCoverage.CodeDetail.SidecarReads

/-!
# A sidecar that was saved is read back

`load_lines_ranges`, `load_lines_range` and `load_full_source_context` of the files that
`save_chunked_sidecar` wrote, at any time after the save and whatever was read before it, as long as
no reader has written into the cached rows of the files.

* A range of the lines is `sliceOf`; consecutive chunks are one stretch of the lines
  (`flatMap_chunkSlice`), and the numbered lines of a range stand together in it (`rowsOf_eq`).
* `Reads` says that the files of a save are there, the caches coherent and their rows as they were
  read; every event that spares these rows keeps it (`Reads.run`).
* `loadLinesRanges_eq` is the read of ranges: **every range that is asked for is the slice of the
  lines**, in whatever order and with whatever overlaps.
* `loadFullSourceContext_lines` says when the whole context is read back: the window that it asks for
  is refused above `MAX_RANGE_SPAN` lines and above `MAX_RANGE_CHUNKS` chunks.
-/

set_option autoImplicit false

namespace FosCoverage

namespace CodeDetail

open SourceReader

/-! ## Slices -/

/-- The lines of a range. -/
def sliceOf (lines : List LineDict) (range : Nat × Nat) : List LineDict :=
  (lines.drop (range.1 - 1)).take (range.2 + 1 - range.1)

/-- The lines are numbered from the one behind `k`. -/
def NumberedFrom (k : Nat) (lines : List LineDict) : Prop :=
  lines.map LineDict.number = (List.range' (k + 1) lines.length).map Int.ofNat

section Slices

variable {k : Nat} {lines : List LineDict} {d : LineDict}

theorem NumberedFrom.cons_iff : NumberedFrom k (d :: lines) ↔
    d.number = ((k + 1 : Nat) : Int) ∧ NumberedFrom (k + 1) lines := by
  rw [NumberedFrom, NumberedFrom, List.map_cons, List.length_cons, List.range'_succ, List.map_cons,
    List.cons.injEq]
  rfl

theorem NumberedFrom.drop (h : NumberedFrom k lines) (n : Nat) :
    NumberedFrom (k + n) (lines.drop n) := by
  induction lines generalizing k n with
  | nil => rw [List.drop_nil]; rfl
  | cons d lines ih =>
    cases n with
    | zero => exact h
    | succ n =>
      have := ih (NumberedFrom.cons_iff.1 h).2 n
      rwa [Nat.add_right_comm, Nat.add_assoc] at this

theorem NumberedFrom.take (h : NumberedFrom k lines) (n : Nat) :
    NumberedFrom k (lines.take n) := by
  induction lines generalizing k n with
  | nil => rw [List.take_nil]; rfl
  | cons d lines ih =>
    cases n with
    | zero => rfl
    | succ n =>
      rw [NumberedFrom.cons_iff] at h
      exact NumberedFrom.cons_iff.2 ⟨h.1, ih h.2 n⟩

/-- The numbered lines of a range stand together. -/
theorem NumberedFrom.filter_inRange (h : NumberedFrom k lines) (range : Nat × Nat) :
    lines.filter (inRange range) =
      (lines.drop (range.1 - 1 - k)).take (range.2 - max k (range.1 - 1)) := by
  induction lines generalizing k with
  | nil => simp
  | cons d lines ih =>
    rw [NumberedFrom.cons_iff] at h
    have hrest := ih h.2
    by_cases hd : inRange range d = true
    · have hbounds : range.1 ≤ k + 1 ∧ k + 1 ≤ range.2 := by
        simp only [inRange, Bool.and_eq_true, decide_eq_true_eq, h.1] at hd
        omega
      have hk : range.1 - 1 - k = 0 := by omega
      have hk' : range.1 - 1 - (k + 1) = 0 := by omega
      have htake : range.2 - max k (range.1 - 1) =
          range.2 - max (k + 1) (range.1 - 1) + 1 := by omega
      rw [List.filter_cons_of_pos hd, hrest, hk, hk', htake, List.drop_zero, List.drop_zero,
        List.take_succ_cons]
    · rw [List.filter_cons_of_neg hd, hrest]
      have hbounds : k + 1 < range.1 ∨ range.2 < k + 1 := by
        simp only [inRange, Bool.and_eq_true, decide_eq_true_eq, h.1] at hd
        omega
      rcases hbounds with hlow | hhigh
      · have hk : range.1 - 1 - k = range.1 - 1 - (k + 1) + 1 := by omega
        have hmax : max k (range.1 - 1) = max (k + 1) (range.1 - 1) := by omega
        rw [hk, hmax, List.drop_succ_cons]
      · have hzero : range.2 - max k (range.1 - 1) = 0 := by omega
        have hzero' : range.2 - max (k + 1) (range.1 - 1) = 0 := by omega
        rw [hzero, hzero', List.take_zero, List.take_zero]

/-- Numbered lines are in order. -/
theorem NumberedFrom.sorted (h : NumberedFrom k lines) :
    lines.Pairwise fun a b => a.number ≤ b.number := by
  rw [← List.pairwise_map (f := LineDict.number) (R := (· ≤ ·)), h, List.pairwise_map]
  exact (List.pairwise_lt_range' 1).imp fun hlt => Int.ofNat_le.2 (Nat.le_of_lt hlt)

theorem chunkSlice_eq (lines : List LineDict) (size i : Nat) :
    chunkSlice lines size i = (lines.drop (i * size)).take size := by
  rw [chunkSlice]
  by_cases hle : i * size + size ≤ lines.length
  · have : min (i * size + size) lines.length - i * size = size := by omega
    rw [this]
  · have hmin : min (i * size + size) lines.length - i * size = (lines.drop (i * size)).length := by
      rw [List.length_drop]
      omega
    rw [hmin, List.take_length, List.take_of_length_le]
    rw [List.length_drop]
    omega

/-- Consecutive chunks are a stretch of the lines. -/
theorem flatMap_chunkSlice (lines : List LineDict) (size a n : Nat) :
    (List.range' a n).flatMap (chunkSlice lines size) =
      (lines.drop (a * size)).take (n * size) := by
  induction n generalizing a with
  | zero => simp
  | succ n ih =>
    have hsize : (n + 1) * size = size + n * size := by rw [Nat.succ_mul, Nat.add_comm]
    have hstart : (a + 1) * size = a * size + size := Nat.succ_mul a size
    rw [List.range'_succ, List.flatMap_cons, ih, chunkSlice_eq, hsize, List.take_add,
      List.drop_drop, hstart]

/-- **The rows of a range are its slice**: chunks start in front of it and end behind it. -/
theorem rowsOf_eq {lines : List LineDict} (h : NumberedFrom 0 lines) {size : Nat}
    (hsize : 0 < size) {decoded : List (Nat × List LineDict)} {range : Nat × Nat}
    (hrange : 1 ≤ range.1 ∧ range.1 ≤ range.2)
    (hdecoded : ∀ i ∈ chunksOf size range, decoded.lookup i = some (chunkSlice lines size i)) :
    rowsOf size decoded range = sliceOf lines range := by
  have hflat : ((chunksOf size range).flatMap fun i =>
      ((decoded.lookup i).getD []).filter (inRange range)) =
      ((chunksOf size range).flatMap (chunkSlice lines size)).filter (inRange range) := by
    rw [List.filter_flatMap]
    refine List.flatMap_congr fun i hi => ?_
    rw [hdecoded i hi, Option.getD_some]
  have hfirst : (range.1 - 1) / size * size ≤ range.1 - 1 := Nat.div_mul_le_self _ _
  have hlast : range.2 ≤ ((range.2 - 1) / size + 1) * size := by
    have := Nat.lt_div_mul_add hsize (a := range.2 - 1)
    rw [Nat.succ_mul]
    omega
  have horder : (range.1 - 1) / size ≤ (range.2 - 1) / size :=
    Nat.div_le_div_right (by omega)
  have hstretch : ((range.2 - 1) / size + 1 - (range.1 - 1) / size) * size =
      ((range.2 - 1) / size + 1) * size - (range.1 - 1) / size * size := Nat.sub_mul _ _ _
  have hnumbered := (h.drop ((range.1 - 1) / size * size)).take
    (((range.2 - 1) / size + 1 - (range.1 - 1) / size) * size)
  have hmono : (range.1 - 1) / size * size ≤ ((range.2 - 1) / size + 1) * size :=
    Nat.mul_le_mul_right size (by omega)
  have hsort := ((hnumbered.drop (range.1 - 1 - (0 + (range.1 - 1) / size * size))).take
    (range.2 - max (0 + (range.1 - 1) / size * size) (range.1 - 1))).sorted.insertionSort_eq
  rw [rowsOf, hflat, chunksOf, flatMap_chunkSlice, hnumbered.filter_inRange, hsort, sliceOf,
    List.drop_take, List.take_take, List.drop_drop]
  congr 1
  · omega
  · congr 1
    omega

end Slices

/-! ## What a save leaves -/

/-- What `meta.json` says of the lines that were cut. -/
structure Describes (m : Meta) (reportId : String) (size : Nat) (lines : List LineDict) : Prop where
  /-- `report_id` -/
  reportId : m.reportId = reportId
  /-- `total_lines` -/
  totalLines : m.totalLines = lines.length
  /-- `chunk_size` -/
  chunkSize : m.chunkSize = size
  /-- A chunk can be cut. -/
  size_pos : 0 < size
  /-- `total_chunks` -/
  totalChunks : m.totalChunks = (lines.length + size - 1) / size
  /-- `chunks` -/
  chunks : m.chunks = (List.range m.totalChunks).map fun i =>
    chunkName (i * size) (i * size + size - 1)

namespace Describes

variable {m : Meta} {r : String} {size : Nat} {lines : List LineDict}

/-- The chunks are those that have a line. -/
theorem lt_totalChunks (h : Describes m r size lines) {i : Nat} :
    i < m.totalChunks ↔ i * size < lines.length := by
  have := h.size_pos
  rw [h.totalChunks, Nat.lt_div_iff_mul_lt this]
  omega

theorem chunkSizeOf_eq (h : Describes m r size lines) (cfg : SidecarConfig) :
    chunkSizeOf cfg m = size := by
  have := h.size_pos
  rw [chunkSizeOf, if_neg (by rw [h.chunkSize]; omega), h.chunkSize]

theorem chunkNameAt_eq (h : Describes m r size lines) (cfg : SidecarConfig) (i : Nat) :
    chunkNameAt cfg m i = chunkName (i * size) (i * size + size - 1) := by
  rw [chunkNameAt, h.chunkSizeOf_eq]

/-- The names are those of the chunks. -/
theorem mem_chunks (h : Describes m r size lines) {name : String} :
    name ∈ m.chunks ↔ ∃ i < m.totalChunks, chunkName (i * size) (i * size + size - 1) = name := by
  rw [h.chunks, List.mem_map]
  exact exists_congr fun i => by rw [List.mem_range]

/-- The chunks of a range of the lines are there. -/
theorem lt_of_mem_chunksOf (h : Describes m r size lines) {range : Nat × Nat}
    (hrange : 1 ≤ range.1 ∧ range.1 ≤ range.2 ∧ range.2 ≤ lines.length) {i : Nat}
    (hi : i ∈ chunksOf size range) : i < m.totalChunks := by
  rw [chunksOf, List.mem_range'_1] at hi
  have horder : (range.1 - 1) / size ≤ (range.2 - 1) / size := Nat.div_le_div_right (by omega)
  have hle : i * size ≤ (range.2 - 1) / size * size := Nat.mul_le_mul_right size (by omega)
  have := Nat.div_mul_le_self (range.2 - 1) size
  exact h.lt_totalChunks.2 (by omega)

end Describes

/-- **The files of a save are there, the caches coherent and the rows of the files unwritten.** -/
structure Reads (cfg : SidecarConfig) (v : Volume) (reportId filePathHash : String) (size : Nat)
    (lines : List LineDict) (m : Meta) (σ : Signature) (s : SidecarState) : Prop where
  /-- The report has a directory. -/
  usable : usableReportId reportId = true
  /-- The caches. -/
  coherent : Coherent cfg v s
  /-- `meta.json` -/
  metaFile : s.directory.metaFile reportId filePathHash = some ⟨σ, some m⟩
  /-- Every chunk. -/
  chunks : ∀ i < m.totalChunks, ∃ τ,
    s.directory.chunkFile reportId filePathHash (chunkName (i * size) (i * size + size - 1)) =
      some ⟨τ, some (chunkSlice lines size i)⟩
  /-- Their cached rows. -/
  unwritten : ∀ i τ, s.written (chunkKey reportId filePathHash i
    (assetToken cfg.assetIdentity m.contentHash σ) τ) = none

/-- **What a save writes.** -/
theorem describes_save (hash : List LineDict → String) {size : Nat} (hsize : 1 ≤ size)
    (reportId : String) (context : SourceContext) :
    Describes (savedFiles hash size reportId context).metaFile reportId size
      (context.lines.map toDict) where
  reportId := rfl
  totalLines := rfl
  chunkSize := rfl
  size_pos := hsize
  totalChunks := totalChunksOf_eq hsize
  chunks := by
    simp only [savedFiles, chunksFrom, List.map_map]
    rfl

section Reading

variable {cfg : SidecarConfig} {v : Volume} {r f : String} {size : Nat} {lines : List LineDict}
  {m : Meta} {σ : Signature} {s : SidecarState}

/-- **After a save the files are read.** -/
theorem reads_write (hr : usableReportId r = true) (hsize : 1 ≤ size) {context : SourceContext}
    {stamp : Option String → Signature}
    (hrecords : v.Records r f (savedFiles cfg.hash size r context) stamp) (hc : Coherent cfg v s)
    (hwritten : ∀ i τ, s.written (chunkKey r f i
      (assetToken cfg.assetIdentity (savedFiles cfg.hash size r context).metaFile.contentHash
        (stamp none)) τ) = none) :
    Reads cfg v r f size (context.lines.map toDict)
      (savedFiles cfg.hash size r context).metaFile (stamp none) { s with
        directory := s.directory.write r f (savedFiles cfg.hash size r context) stamp } where
  usable := hr
  coherent := ⟨hc.signed.write hrecords, hc.metadata, hc.chunk⟩
  metaFile := if_pos ⟨rfl, rfl⟩
  chunks i hi := by
    have hmem : (chunkName (i * size) (i * size + size - 1),
        chunkSlice (context.lines.map toDict) size i) ∈
          (savedFiles cfg.hash size r context).chunks :=
      List.mem_map.2 ⟨i, List.mem_range.2 hi, rfl⟩
    have hlookup := lookup_of_mem (nodup_chunksFrom (context.lines.map toDict) hsize) hmem
    exact ⟨_, s.directory.write_chunk r f stamp hlookup⟩
  unwritten := hwritten

/-- A read keeps it. -/
theorem Reads.keeps (h : Reads cfg v r f size lines m σ s) {s' : SidecarState}
    (hs : Keeps cfg v s s') : Reads cfg v r f size lines m σ s' where
  usable := h.usable
  coherent := hs.coherent h.coherent
  metaFile := by
    rw [hs.directory]
    exact h.metaFile
  chunks := by
    rw [hs.directory]
    exact h.chunks
  unwritten i τ := hs.written (h.unwritten i τ)

/-- The event writes into no cached rows of a version of the files. -/
def SidecarEvent.Leaves (cfg : SidecarConfig) (reportId filePathHash : String) (m : Meta)
    (σ : Signature) (e : SidecarEvent) : Prop :=
  ∀ i τ, e.Spares (chunkKey reportId filePathHash i
    (assetToken cfg.assetIdentity m.contentHash σ) τ)

/-- **Every run of reads that leaves the rows alone keeps it.** -/
theorem Reads.run (hf : cfg.Faithful v) (h : Reads cfg v r f size lines m σ s)
    {events : List SidecarEvent} (hreads : ∀ e ∈ events, e.IsRead ∧ e.Leaves cfg r f m σ) :
    Reads cfg v r f size lines m σ (runSidecar cfg s events) := by
  have hdirectory := directory_run hf h.coherent fun e he => (hreads e he).1
  exact {
    usable := h.usable
    coherent := coherent_run hf h.coherent fun e he => (hreads e he).1.signedBy v
    metaFile := by
      rw [hdirectory]
      exact h.metaFile
    chunks := by
      rw [hdirectory]
      exact h.chunks
    unwritten := fun i τ => written_run hf h.coherent (h.unwritten i τ) fun e he =>
      ⟨(hreads e he).1.signedBy v, (hreads e he).2 i τ⟩ }

/-- **`meta.json` is read as it was written**, from the cache or from the file. -/
theorem loadChunkedMetadata_eq (hf : cfg.Faithful v) (h : Reads cfg v r f size lines m σ s)
    (hm : Describes m r size lines) :
    ∃ s', loadChunkedMetadata cfg r f s = (s', some (m, σ)) ∧ Keeps cfg v s s' ∧
      v.metaAt r f σ = some m := by
  obtain ⟨hkeeps, hread⟩ := Keeps.loadChunkedMetadata (v := v) r f hf s
  have hsome : (loadChunkedMetadata cfg r f s).2 ≠ none := by
    unfold loadChunkedMetadata
    simp only [h.metaFile]
    have hcomplete : (m.chunks.all fun name =>
        (s.directory.chunkFile r f (basename name)).isSome) = true := by
      refine List.all_eq_true.2 fun name hname => ?_
      obtain ⟨i, hi, rfl⟩ := hm.mem_chunks.1 hname
      obtain ⟨τ, hτ⟩ := h.chunks i hi
      rw [basename_chunkName, hτ]
      rfl
    rw [if_neg (by rw [hm.reportId, hcomplete]; simp)]
    split <;> simp
  generalize loadChunkedMetadata cfg r f s = loaded at hkeeps hread hsome
  obtain ⟨s', _ | ⟨m', σ'⟩⟩ := loaded
  · exact absurd rfl hsome
  · obtain ⟨hversion, hvolume⟩ := hread h.coherent m' σ' rfl
    obtain ⟨rfl, hm'⟩ := StoredFile.mk.inj (Option.some.inj (h.metaFile.symm.trans hversion))
    obtain rfl := Option.some.inj hm'
    exact ⟨s', rfl, hkeeps, hvolume⟩

/-- **The chunks that are needed are read as they were written.** -/
theorem loadChunks_eq (hf : cfg.Faithful v) (hm : Describes m r size lines)
    (hσ : v.metaAt r f σ = some m) {is : List Nat} (his : ∀ i ∈ is, i < m.totalChunks)
    (h : Reads cfg v r f size lines m σ s) :
    ∃ s', loadChunks cfg r f m σ is s =
        (s', .ok (is.map fun i => (i, chunkSlice lines size i))) ∧ Keeps cfg v s s' := by
  induction is generalizing s with
  | nil => exact ⟨s, rfl, Keeps.refl s⟩
  | cons i is ih =>
    rw [List.forall_mem_cons] at his
    obtain ⟨τ, hτ⟩ := h.chunks i his.1
    obtain ⟨hkeeps, hread⟩ := Keeps.loadDecodedChunk r f hf s hσ i
    have hlisted : chunkNameAt cfg m i ∈ m.chunks.map basename := by
      rw [hm.chunkNameAt_eq, ← basename_chunkName]
      exact List.mem_map_of_mem (hm.mem_chunks.2 ⟨i, his.1, rfl⟩)
    rw [hm.chunkNameAt_eq] at hread
    have hlines := hread h.coherent τ _ hτ (h.unwritten i (some τ))
    rw [← hm.chunkNameAt_eq cfg] at hlines
    rw [loadChunks, if_neg (by
      rintro (⟨-, hle⟩ | ⟨-, hnot⟩)
      · omega
      · exact hnot hlisted)]
    generalize loadDecodedChunk cfg r f s i (assetToken cfg.assetIdentity m.contentHash σ)
      (chunkNameAt cfg m i) = result at hkeeps hlines
    obtain ⟨s₁, decoded⟩ := result
    obtain rfl : decoded = .ok (chunkSlice lines size i) := hlines
    obtain ⟨s₂, hrest, hkeeps'⟩ := ih his.2 (h.keeps hkeeps)
    exact ⟨s₂, by simp only [hrest, Except.map, List.map_cons], hkeeps.trans hkeeps'⟩

/-! ### Ranges -/

theorem mem_neededChunks {ranges : List (Nat × Nat)} {i : Nat} :
    i ∈ neededChunks size ranges ↔ ∃ w ∈ ranges, i ∈ chunksOf size w := by
  rw [neededChunks, List.mem_insertionSort, List.mem_dedup, List.mem_flatMap]

theorem lookup_map_mk {α : Type} {is : List Nat} {i : Nat} (hi : i ∈ is) (g : Nat → α) :
    (is.map fun i => (i, g i)).lookup i = some (g i) := by
  induction is with
  | nil => cases hi
  | cons j is ih =>
    rw [List.map_cons]
    by_cases hij : i = j
    · subst hij
      exact List.lookup_cons_self
    · rw [List.lookup_cons, beq_eq_false_iff_ne.2 hij]
      exact ih ((List.mem_cons.1 hi).resolve_left hij)

/-- The ranges are some of the lines. -/
def Within (lines : List LineDict) (ranges : List (Nat × Nat)) : Prop :=
  ∀ w ∈ ranges, 1 ≤ w.1 ∧ w.1 ≤ w.2 ∧ w.2 ≤ lines.length

/-- What the metadata gives of ranges within the lines: the slices, or a refusal. -/
theorem readChunked_eq (hf : cfg.Faithful v) (h : Reads cfg v r f size lines m σ s)
    (hm : Describes m r size lines) (hn : NumberedFrom 0 lines)
    (hσ : v.metaAt r f σ = some m) {ranges : List (Nat × Nat)}
    (hranges : Within lines ranges) :
    (readChunked cfg r f m σ ranges s).2 =
      if (neededChunks size ranges).length ≤ maxRangeChunks then
        .ok (ranges.map (sliceOf lines))
      else .error (.value "requested sidecar chunk count is too large") := by
  have hlength : ¬ (m.totalLines ≠ 0 ∧ ∃ w ∈ ranges, m.totalLines < w.2) := by
    rintro ⟨-, w, hw, hlt⟩
    have := (hranges w hw).2.2
    rw [hm.totalLines] at hlt
    omega
  have hneeded : ∀ i ∈ neededChunks size ranges, i < m.totalChunks := by
    intro i hi
    obtain ⟨w, hw, hi⟩ := mem_neededChunks.1 hi
    exact hm.lt_of_mem_chunksOf (hranges w hw) hi
  unfold readChunked
  dsimp only
  rw [if_neg hlength, hm.chunkSizeOf_eq]
  split
  · next hlt => rw [if_neg (by omega)]
  · next hle =>
    obtain ⟨s', heq, -⟩ := loadChunks_eq hf hm hσ hneeded h
    rw [if_pos (by omega), heq]
    change Except.ok _ = Except.ok _
    refine congrArg Except.ok (List.map_congr_left fun w hw => ?_)
    obtain ⟨hfirst, horder, -⟩ := hranges w hw
    exact rowsOf_eq hn hm.size_pos ⟨hfirst, horder⟩ fun i hi =>
      lookup_map_mk (mem_neededChunks.2 ⟨w, hw, hi⟩) _

/-- **Every range is the slice of the lines**, whatever was read before; a request that needs too many
chunks is refused. -/
theorem loadLinesRanges_eq (hf : cfg.Faithful v) (h : Reads cfg v r f size lines m σ s)
    (hm : Describes m r size lines) (hn : NumberedFrom 0 lines) {ranges : List (Nat × Nat)}
    (hranges : Within lines ranges) (hspan : ∀ w ∈ ranges, w.2 - w.1 + 1 ≤ maxRangeSpan)
    (htotal : (ranges.map fun w => w.2 - w.1 + 1).sum ≤ maxTotalRangeSpan) :
    (loadLinesRanges cfg r f ranges s).2 =
      if (neededChunks size ranges).length ≤ maxRangeChunks then
        .ok (some (ranges.map (sliceOf lines)))
      else .error (.value "requested sidecar chunk count is too large") := by
  have hvalid : ¬ ∃ w ∈ ranges, w.1 < 1 ∨ w.2 < w.1 := by
    rintro ⟨w, hw, hlt⟩
    have := hranges w hw
    omega
  have hspan' : ¬ ∃ w ∈ ranges, maxRangeSpan < w.2 - w.1 + 1 := by
    rintro ⟨w, hw, hlt⟩
    have := hspan w hw
    omega
  unfold loadLinesRanges
  rw [if_neg hvalid]
  by_cases hempty : ranges = []
  · subst hempty
    rfl
  · rw [if_neg hempty, if_neg (Nat.not_lt.2 htotal), if_neg hspan',
      if_neg (by simp [h.usable]), if_pos (by rw [h.metaFile]; rfl)]
    obtain ⟨s₁, heq, hkeeps, hvolume⟩ := loadChunkedMetadata_eq hf h hm
    have hread := readChunked_eq hf (h.keeps hkeeps) hm hn hvolume hranges
    rw [heq]
    dsimp only
    generalize readChunked cfg r f m σ ranges s₁ = result at hread ⊢
    obtain ⟨s₂, rows⟩ := result
    obtain rfl : rows = _ := hread
    by_cases hchunks : (neededChunks size ranges).length ≤ maxRangeChunks
    · simp only [if_pos hchunks]
    · simp only [if_neg hchunks]

/-! ### Windows -/

/-- **Windows that give what they are asked for give all of it.** -/
theorem loadWindows_eq (h : Reads cfg v r f size lines m σ s)
    {load : Nat × Nat → SidecarState →
      SidecarState × Except SidecarError (Option (List LineDict))}
    (hkeeps : ∀ w s, Coherent cfg v s → Keeps cfg v s (load w s).1)
    {give : Nat × Nat → List LineDict} {ws : List (Nat × Nat)}
    (hload : ∀ w ∈ ws, ∀ s, Reads cfg v r f size lines m σ s → (load w s).2 = .ok (some (give w))) :
    (loadWindows load ws s).2 = .ok (some (ws.flatMap give)) := by
  induction ws generalizing s with
  | nil => rfl
  | cons w ws ih =>
    rw [List.forall_mem_cons] at hload
    have hstate := h.keeps (hkeeps w s h.coherent)
    have hgive := hload.1 s h
    rw [loadWindows]
    generalize load w s = result at hstate hgive ⊢
    obtain ⟨s₁, o⟩ := result
    obtain rfl : o = .ok (some (give w)) := hgive
    have hrest := ih hstate hload.2
    dsimp only
    generalize loadWindows load ws s₁ = rest at hrest ⊢
    obtain ⟨s₂, o⟩ := rest
    obtain rfl : o = .ok (some (ws.flatMap give)) := hrest
    rfl

/-- A window that is refused ends the loop. -/
theorem loadWindows_error {load : Nat × Nat → SidecarState →
      SidecarState × Except SidecarError (Option (List LineDict))} {w : Nat × Nat}
    {ws : List (Nat × Nat)} {e : SidecarError} (h : (load w s).2 = .error e) :
    (loadWindows load (w :: ws) s).2 = .error e := by
  rw [loadWindows]
  generalize load w s = result at h ⊢
  obtain ⟨s₁, o⟩ := result
  obtain rfl : o = .error e := h
  rfl

/-- The windows stand between the two lines, each no longer than it may be. -/
theorem mem_windows {step : Nat} (hstep : 0 < step) {start stop : Nat} {w : Nat × Nat}
    (hw : w ∈ windows step hstep start stop) :
    start ≤ w.1 ∧ w.1 ≤ w.2 ∧ w.2 ≤ stop ∧ w.2 - w.1 + 1 ≤ step := by
  fun_induction windows step hstep start stop with
  | case1 start hle last ih =>
    rcases List.mem_cons.1 hw with rfl | hw
    · dsimp only [last]
      omega
    · have := ih hw
      dsimp only [last] at this
      omega
  | case2 start hlt => cases hw

/-- **The windows are all the lines between the two.** -/
theorem flatMap_windows {step : Nat} (hstep : 0 < step) {start stop : Nat} (hstart : 1 ≤ start)
    (lines : List LineDict) :
    (windows step hstep start stop).flatMap (sliceOf lines) = sliceOf lines (start, stop) := by
  fun_induction windows step hstep start stop with
  | case1 start hle last ih =>
    have hsplit : stop + 1 - start = (last + 1 - start) + (stop + 1 - (last + 1)) := by
      dsimp only [last]
      omega
    have hdrop : last + 1 - 1 = start - 1 + (last + 1 - start) := by
      dsimp only [last]
      omega
    rw [List.flatMap_cons, ih (by omega)]
    simp only [sliceOf]
    rw [hsplit, hdrop, List.take_add, List.drop_drop]
  | case2 start hlt =>
    have hzero : stop + 1 - start = 0 := by omega
    rw [List.flatMap_nil, sliceOf, hzero, List.take_zero]

/-- A single range. -/
theorem loadOne_eq (hf : cfg.Faithful v) (h : Reads cfg v r f size lines m σ s)
    (hm : Describes m r size lines) (hn : NumberedFrom 0 lines) {w : Nat × Nat}
    (hw : 1 ≤ w.1 ∧ w.1 ≤ w.2 ∧ w.2 ≤ lines.length) (hspan : w.2 - w.1 + 1 ≤ maxRangeSpan) :
    (loadOne cfg r f w s).2 =
      if (neededChunks size [w]).length ≤ maxRangeChunks then .ok (some (sliceOf lines w))
      else .error (.value "requested sidecar chunk count is too large") := by
  have htotal : ([w].map fun w => w.2 - w.1 + 1).sum ≤ maxTotalRangeSpan := by
    rw [List.map_singleton, List.sum_singleton]
    exact hspan.trans (by decide)
  have hread := loadLinesRanges_eq hf h hm hn (List.forall_mem_singleton.2 hw)
    (List.forall_mem_singleton.2 hspan) htotal
  unfold loadOne
  generalize loadLinesRanges cfg r f [w] s = result at hread ⊢
  obtain ⟨s₁, o⟩ := result
  obtain rfl : o = _ := hread
  dsimp only
  split <;> rfl

/-- A range that is too long is refused. -/
theorem loadOne_span {w : Nat × Nat} (hw : 1 ≤ w.1 ∧ w.1 ≤ w.2)
    (hspan : maxRangeSpan < w.2 - w.1 + 1) (s : SidecarState) :
    ∃ e, (loadOne cfg r f w s).2 = .error e := by
  unfold loadOne loadLinesRanges
  dsimp only
  rw [if_neg (by
    rintro ⟨v, hv, hlt⟩
    rw [List.mem_singleton] at hv
    subst hv
    omega), if_neg (List.cons_ne_nil _ _)]
  split
  · exact ⟨_, rfl⟩
  · rw [if_pos ⟨w, List.mem_singleton_self w, hspan⟩]
    exact ⟨_, rfl⟩

/-- **A long range is the slice of the lines** when no window of it needs too many chunks. -/
theorem loadLinesRange_eq (hf : cfg.Faithful v) (h : Reads cfg v r f size lines m σ s)
    (hm : Describes m r size lines) (hn : NumberedFrom 0 lines)
    (hlength : lines.length ≤ maxSidecarLines) {start stop : Nat}
    (hrange : 1 ≤ start ∧ start ≤ stop ∧ stop ≤ lines.length)
    (hchunks : ∀ w ∈ windows maxRangeSpan maxRangeSpan_pos start stop,
      (neededChunks size [w]).length ≤ maxRangeChunks) :
    (loadLinesRange cfg r f start stop true s).2 = .ok (some (sliceOf lines (start, stop))) := by
  have hwindow : ∀ w ∈ windows maxRangeSpan maxRangeSpan_pos start stop, ∀ s,
      Reads cfg v r f size lines m σ s → (loadOne cfg r f w s).2 = .ok (some (sliceOf lines w)) := by
    intro w hw s h
    have := mem_windows _ hw
    rw [loadOne_eq hf h hm hn (by omega) (by omega), if_pos (hchunks w hw)]
  unfold loadLinesRange
  split
  · rw [if_neg (by omega)]
    have hall := loadWindows_eq h
      (fun w s hc => Keeps.loadLinesRanges r f hf [w] s hc) hwindow
    rw [flatMap_windows _ hrange.1] at hall
    exact hall
  · next hsmall =>
    -- the only window is the range itself
    have hself : (start, stop) ∈ windows maxRangeSpan maxRangeSpan_pos start stop := by
      rw [windows, if_pos hrange.2.1]
      have hlast : min stop (start + maxRangeSpan - 1) = stop := by
        simp only [true_and] at hsmall
        omega
      rw [hlast]
      exact List.mem_cons_self
    exact hwindow _ hself s h

/-! ### The whole context -/

/-- The first lines are in as many chunks as it takes to cut them. -/
theorem length_neededChunks {n : Nat} (hn : 1 ≤ n) (hsize : 0 < size) :
    (neededChunks size [(1, n)]).length = (n + size - 1) / size := by
  have hcount : (n + size - 1) / size = (n - 1) / size + 1 := by
    rw [← Nat.add_div_right _ hsize]
    congr 1
    omega
  have hnodup : (chunksOf size (1, n)).Nodup := List.nodup_range'
  rw [neededChunks, List.flatMap_singleton, hnodup.dedup, List.length_insertionSort, chunksOf,
    List.length_range', hcount, Nat.sub_self, Nat.zero_div, Nat.sub_zero]

theorem loadMetadata_eq (hf : cfg.Faithful v) (h : Reads cfg v r f size lines m σ s)
    (hm : Describes m r size lines) :
    ∃ s', loadMetadata cfg r f s =
        (s', some ⟨m.totalLines, m.contentHash, m.projectName, m.filePath, m.functionRanges⟩) ∧
      Keeps cfg v s s' := by
  obtain ⟨s', heq, hkeeps, -⟩ := loadChunkedMetadata_eq hf h hm
  refine ⟨s', ?_, hkeeps⟩
  rw [loadMetadata, if_neg (by simp [h.usable]), heq]

/-- The window that the whole context begins with. -/
theorem windows_first {step : Nat} (hstep : 0 < step) {n : Nat} (hn : 1 ≤ n) :
    windows step hstep 1 n = (1, min n step) :: windows step hstep (min n step + 1) n := by
  have hlast : min n (1 + step - 1) = min n step := by omega
  rw [windows, if_pos hn]
  dsimp only
  rw [hlast]

/-- The windows that the whole context is read in. -/
def fullWindows (n : Nat) : List (Nat × Nat) := windows maxTotalRangeSpan maxTotalRangeSpan_pos 1 n

/-- The whole context is what its windows give. -/
theorem loadFullSourceContext_of_windows {v : MetadataView} {s₁ : SidecarState}
    (hmeta : loadMetadata cfg r f s = (s₁, some v)) (hlength : v.totalLines ≤ maxSidecarLines) :
    (loadFullSourceContext cfg r f s).2 =
      match (loadWindows (loadOne cfg r f) (fullWindows v.totalLines) s₁).2 with
      | .error e => .error e
      | .ok none => .ok none
      | .ok (some rows) =>
        if v.contentHash ≠ "" ∧ cfg.hash rows ≠ v.contentHash then .ok none
        else .ok (some (contextOf v r (rows.map fromDict))) := by
  have hwindow : (fun w : Nat × Nat => loadLinesRange cfg r f w.1 w.2 false) =
      loadOne cfg r f :=
    funext fun w => funext fun s => if_neg fun hlarge => Bool.false_ne_true hlarge.1
  unfold loadFullSourceContext
  rw [hmeta]
  dsimp only
  rw [if_neg (Nat.not_lt.2 hlength), hwindow]
  unfold fullWindows
  generalize loadWindows (loadOne cfg r f) _ s₁ = result
  obtain ⟨s₂, e | _ | rows⟩ := result
  · rfl
  · rfl
  · dsimp only
    split <;> rfl

/-- A single window of few chunks gives all lines. -/
theorem fullWindows_ok (hf : cfg.Faithful v) (h : Reads cfg v r f size lines m σ s)
    (hm : Describes m r size lines) (hn : NumberedFrom 0 lines)
    (hspan : lines.length ≤ maxRangeSpan) (hchunks : m.totalChunks ≤ maxRangeChunks) :
    (loadWindows (loadOne cfg r f) (fullWindows lines.length) s).2 = .ok (some lines) := by
  have hspans : maxRangeSpan ≤ maxTotalRangeSpan := by decide
  have hload : ∀ w ∈ fullWindows lines.length, ∀ s, Reads cfg v r f size lines m σ s →
      (loadOne cfg r f w s).2 = .ok (some (sliceOf lines w)) := by
    intro w hw s h
    obtain ⟨hfirst, horder, hlast, -⟩ := mem_windows _ hw
    have hpos : 1 ≤ lines.length := by omega
    have hmin : min lines.length maxTotalRangeSpan = lines.length := by omega
    obtain rfl : w = (1, lines.length) := by
      rw [fullWindows, windows_first _ hpos, hmin, windows, if_neg (by omega)] at hw
      exact List.mem_singleton.1 hw
    rw [loadOne_eq hf h hm hn ⟨le_rfl, hpos, le_rfl⟩ (by dsimp only; omega),
      length_neededChunks hpos hm.size_pos, ← hm.totalChunks, if_pos hchunks]
  rw [loadWindows_eq h (fun w s hc => Keeps.loadLinesRanges r f hf [w] s hc) hload, fullWindows,
    flatMap_windows _ le_rfl, sliceOf]
  simp

/-- The first window is refused when it is too long or needs too many chunks. -/
theorem fullWindows_error (hf : cfg.Faithful v) (h : Reads cfg v r f size lines m σ s)
    (hm : Describes m r size lines) (hn : NumberedFrom 0 lines)
    (hlarge : ¬ (lines.length ≤ maxRangeSpan ∧ m.totalChunks ≤ maxRangeChunks)) :
    ∃ e, (loadWindows (loadOne cfg r f) (fullWindows lines.length) s).2 = .error e := by
  have hspans : maxRangeSpan < maxTotalRangeSpan := by decide
  have hpos : 1 ≤ lines.length := by
    by_contra hempty
    have := hm.size_pos
    refine hlarge ⟨by omega, ?_⟩
    rw [hm.totalChunks, Nat.div_eq_of_lt (by omega)]
    exact Nat.zero_le _
  rw [fullWindows, windows_first _ hpos]
  by_cases hspan : lines.length ≤ maxRangeSpan
  · have hmin : min lines.length maxTotalRangeSpan = lines.length := by omega
    have hone := loadOne_eq (w := (1, lines.length)) hf h hm hn ⟨le_rfl, hpos, le_rfl⟩
      (by dsimp only; omega)
    rw [length_neededChunks hpos hm.size_pos, ← hm.totalChunks,
      if_neg fun hle => hlarge ⟨hspan, hle⟩] at hone
    rw [hmin]
    exact ⟨_, loadWindows_error hone⟩
  · obtain ⟨e, he⟩ : ∃ e, (loadOne cfg r f (1, min lines.length maxTotalRangeSpan) s).2 =
        .error e :=
      loadOne_span ⟨le_rfl, by dsimp only; omega⟩ (by dsimp only; omega) s
    exact ⟨e, loadWindows_error he⟩

/-- **The whole context is read back when it is one window of few chunks, and else not.** -/
theorem loadFullSourceContext_lines (hf : cfg.Faithful v) (h : Reads cfg v r f size lines m σ s)
    (hm : Describes m r size lines) (hn : NumberedFrom 0 lines)
    (hhash : m.contentHash = cfg.hash lines) (hlength : lines.length ≤ maxSidecarLines) :
    (∃ context, (loadFullSourceContext cfg r f s).2 = .ok (some context) ∧
        context.lines = lines.map fromDict) ↔
      lines.length ≤ maxRangeSpan ∧ m.totalChunks ≤ maxRangeChunks := by
  obtain ⟨s₁, hmeta, hkeeps⟩ := loadMetadata_eq hf h hm
  have h₁ := h.keeps hkeeps
  rw [loadFullSourceContext_of_windows hmeta (by rw [hm.totalLines]; exact hlength)]
  dsimp only
  rw [hm.totalLines]
  by_cases hle : lines.length ≤ maxRangeSpan ∧ m.totalChunks ≤ maxRangeChunks
  · rw [fullWindows_ok hf h₁ hm hn hle.1 hle.2]
    dsimp only
    rw [if_neg fun hne => hne.2 hhash.symm]
    exact iff_of_true ⟨_, rfl, rfl⟩ hle
  · obtain ⟨e, he⟩ := fullWindows_error hf h₁ hm hn hle
    rw [he]
    exact iff_of_false (fun ⟨_, hok, _⟩ => nomatch hok) hle

end Reading

/-! ## After a save -/

/-- The lines are numbered `1 … N`. -/
def Numbered (lines : List SourceLineDTO) : Prop :=
  lines.map (fun line => line.lineNo) = (List.range' 1 lines.length).map Int.ofNat

theorem Numbered.toDict {lines : List SourceLineDTO} (h : Numbered lines) :
    NumberedFrom 0 (lines.map toDict) := by
  rw [NumberedFrom, List.map_map, List.length_map]
  exact h

/-- A store that was opened on a directory, used, then used for reads after files were written. -/
def afterSave (cfg : SidecarConfig) (reportId filePathHash : String) (files : SavedFiles)
    (stamp : Option String → Signature) (budget : ByteBudget) (directory : Directory)
    (before reads : List SidecarEvent) : SidecarState :=
  let s := runSidecar cfg (.opened budget directory) before
  runSidecar cfg { s with directory := s.directory.write reportId filePathHash files stamp } reads

theorem reads_afterSave {cfg : SidecarConfig} {v : Volume} (hf : cfg.Faithful v) {r f : String}
    (hr : usableReportId r = true) {size : Nat} (hsize : 1 ≤ size) {context : SourceContext}
    {stamp : Option String → Signature}
    (hrecords : v.Records r f (savedFiles cfg.hash size r context) stamp)
    (budget : ByteBudget) {directory : Directory} (hd : directory.SignedBy v)
    {before reads : List SidecarEvent}
    (hbefore : ∀ e ∈ before, e.SignedBy v ∧
      e.Leaves cfg r f (savedFiles cfg.hash size r context).metaFile (stamp none))
    (hreads : ∀ e ∈ reads, e.IsRead ∧
      e.Leaves cfg r f (savedFiles cfg.hash size r context).metaFile (stamp none)) :
    Reads cfg v r f size (context.lines.map toDict) (savedFiles cfg.hash size r context).metaFile
      (stamp none) (afterSave cfg r f (savedFiles cfg.hash size r context) stamp budget directory
        before reads) := by
  have hopened := (coherent_opened budget hd : Coherent cfg v _)
  refine (reads_write hr hsize hrecords
    (coherent_run hf hopened fun e he => (hbefore e he).1) fun i τ => ?_).run hf hreads
  exact written_run hf hopened rfl fun e he => ⟨(hbefore e he).1, (hbefore e he).2 i τ⟩

/-- A report without a directory has no context. -/
theorem loadFullSourceContext_unusable {cfg : SidecarConfig} {r : String}
    (hr : usableReportId r = false) (f : String) (s : SidecarState) :
    (loadFullSourceContext cfg r f s).2 = .ok none := by
  rw [loadFullSourceContext, loadMetadata, if_pos hr]

/-! ## A store on one save -/

/-- JSON of the values of a list. -/
def Codec.ofValues {α : Type} [DecidableEq α] (values : List α) : Codec α where
  dumps v := String.ofList (List.replicate (values.idxOf v) '1')
  loads text := values[text.toList.length]?

theorem Codec.loads_ofValues {α : Type} [DecidableEq α] {values : List α} {v : α}
    (hv : v ∈ values) : (Codec.ofValues values).loads ((Codec.ofValues values).dumps v) = some v := by
  simp only [Codec.ofValues, String.toList_ofList, List.length_replicate]
  exact List.getElem?_idxOf hv

/-- A store for the values of one save. -/
def SidecarConfig.ofFiles (files : SavedFiles) : SidecarConfig where
  limits := ⟨⟨32 * 1024 * 1024, 4 * 1024 * 1024⟩, PayloadKind.maxEntries⟩
  chunkSize := 2000
  assetIdentity := ""
  hash _ := files.metaFile.contentHash
  metaJson := Codec.ofValues [files.metaFile]
  linesJson := Codec.ofValues (files.chunks.map Prod.snd)
  legacyJson := Codec.ofValues []

/-- The files of one save, whatever their signatures are. -/
def Volume.ofFiles (files : SavedFiles) : Volume where
  metaAt _ _ _ := some files.metaFile
  chunkAt _ _ name _ := files.chunks.lookup name

theorem SidecarConfig.faithful_ofFiles (files : SavedFiles) :
    (SidecarConfig.ofFiles files).Faithful (.ofFiles files) where
  metaJson h := by
    obtain rfl := Option.some.inj h
    exact Codec.loads_ofValues (List.mem_singleton_self _)
  linesJson h := by
    obtain ⟨before, after, hsplit, -⟩ := List.lookup_eq_some_iff.1 h
    exact Codec.loads_ofValues (by rw [hsplit]; simp)

theorem Volume.records_ofFiles (hash : List LineDict → String) {size : Nat} (hsize : 1 ≤ size)
    (r f : String) (context : SourceContext) (stamp : Option String → Signature) :
    (Volume.ofFiles (savedFiles hash size r context)).Records r f
      (savedFiles hash size r context) stamp where
  metaFile := rfl
  chunks _ hc := lookup_of_mem (nodup_chunksFrom (context.lines.map toDict) hsize) hc

theorem Directory.signedBy_empty (v : Volume) : Directory.empty.SignedBy v :=
  ⟨fun h => (nomatch h), fun h => (nomatch h)⟩

/-- A covered line without a text. -/
def plainLine (i : Nat) : SourceLineDTO where
  lineNo := Int.ofNat i
  source := []
  rawHtml := []
  coverageState := .covered
  analysisState := ['未', '确', '认']
  isPendingAnalysis := false
  suggestedReviewer := []
  reviewer := []
  coverageMethod := []
  uncoveredReason := []
  isDraft := false
  blockStartLine := Int.ofNat i
  blockEndLine := Int.ofNat i
  blockType := .single
  functionName := []
  isBlockEntry := false

/-- A file of covered lines. -/
def plainContext (n : Nat) : SourceContext where
  projectName := "project"
  filePath := "src/a.c"
  lines := (List.range' 1 n).map plainLine
  functionRanges := []
  pendingLines := []
  totalUncoveredCount := 0
  confirmedCount := 0
  reportId := "report"

theorem length_plainContext (n : Nat) : (plainContext n).lines.length = n := by
  rw [plainContext, List.length_map, List.length_range']

theorem numbered_plainContext (n : Nat) : Numbered (plainContext n).lines := by
  rw [Numbered, length_plainContext, plainContext, List.map_map]
  rfl

/-- **What is read after a save are slices of what was saved**: ranges in any order and with any
overlaps, and long ranges in windows, whatever was read and cached before.  For a report that has a
directory, and as long as `get_code_lines_batch` writes into none of the rows that it is handed out of
the cache; `render_lines_batch`, and its own fallback, copy them. -/
theorem saved_ranges_are_slices {cfg : SidecarConfig} {v : Volume} (hf : cfg.Faithful v) {size : Nat}
    (hsize : 1 ≤ size ∧ size ≤ maxRangeSpan) {context : SourceContext}
    (hnumbered : Numbered context.lines) (hlength : context.lines.length ≤ maxSidecarLines)
    {r : String} (hr : usableReportId r = true) (f : String) (budget : ByteBudget)
    {directory : Directory} (hd : directory.SignedBy v) :
    ∃ files, saveChunkedSidecar cfg.hash size r context = .ok files ∧
      ∀ stamp before reads, v.Records r f files stamp →
        (∀ e ∈ before, e.SignedBy v ∧ e.Leaves cfg r f files.metaFile (stamp none)) →
        (∀ e ∈ reads, e.IsRead ∧ e.Leaves cfg r f files.metaFile (stamp none)) →
        let s := afterSave cfg r f files stamp budget directory before reads
        (∀ ranges : List (Nat × Nat),
          (∀ w ∈ ranges, 1 ≤ w.1 ∧ w.1 ≤ w.2 ∧ w.2 ≤ context.lines.length) →
          (∀ w ∈ ranges, w.2 - w.1 + 1 ≤ maxRangeSpan) →
          (ranges.map fun w => w.2 - w.1 + 1).sum ≤ maxTotalRangeSpan →
          (neededChunks size ranges).length ≤ maxRangeChunks →
          (loadLinesRanges cfg r f ranges s).2 =
            .ok (some (ranges.map (sliceOf (context.lines.map toDict))))) ∧
        (∀ start stop, 1 ≤ start → start ≤ stop → stop ≤ context.lines.length →
          (∀ w ∈ windows maxRangeSpan maxRangeSpan_pos start stop,
            (neededChunks size [w]).length ≤ maxRangeChunks) →
          (loadLinesRange cfg r f start stop true s).2 =
            .ok (some (sliceOf (context.lines.map toDict) (start, stop)))) := by
  refine ⟨_, saveChunkedSidecar_eq hlength hsize,
    fun stamp before reads hrecords hbefore hreads => ?_⟩
  have hread := reads_afterSave hf hr hsize.1 hrecords budget hd hbefore hreads
  have hm := describes_save cfg.hash hsize.1 r context
  have hn := hnumbered.toDict
  refine ⟨fun ranges hranges hspan htotal hchunks => ?_, fun start stop hstart horder hstop
    hchunks => ?_⟩
  · have hwithin : Within (context.lines.map toDict) ranges := by
      intro w hw
      rw [List.length_map]
      exact hranges w hw
    rw [loadLinesRanges_eq hf hread hm hn hwithin hspan htotal, if_pos hchunks]
  · refine loadLinesRange_eq hf hread hm hn ?_ ⟨hstart, horder, ?_⟩ hchunks
    · rwa [List.length_map]
    · rwa [List.length_map]

/-- Three lines in chunks of two, with a read before and after the save. -/
theorem saved_ranges_are_slices_sample :
    let files := savedFiles (fun _ => "digest") 2 "report" (plainContext 3)
    let cfg := SidecarConfig.ofFiles files
    let s := afterSave cfg "report" "file" files (fun _ => ⟨1, 1⟩) ⟨8, 0, by decide⟩ .empty
      [.ranges "report" "file" [(1, 2)]] [.range "report" "file" 2 3 false]
    (loadLinesRanges cfg "report" "file" [(2, 3), (1, 2)] s).2 =
        .ok (some [[2, 3].map fun i => toDict (plainLine i),
          [1, 2].map fun i => toDict (plainLine i)]) ∧
      (loadLinesRange cfg "report" "file" 1 3 true s).2 =
        .ok (some ([1, 2, 3].map fun i => toDict (plainLine i))) := by
  intro files cfg s
  have hsize : 1 ≤ 2 ∧ 2 ≤ maxRangeSpan := by decide
  obtain ⟨saved, hsave, hread⟩ := saved_ranges_are_slices (SidecarConfig.faithful_ofFiles files)
    hsize (numbered_plainContext 3) (by decide) (by decide : usableReportId "report" = true) "file"
    ⟨8, 0, by decide⟩ (Directory.signedBy_empty (.ofFiles files))
  rw [saveChunkedSidecar_eq (by decide) hsize] at hsave
  obtain rfl := Except.ok.inj hsave
  obtain ⟨hranges, hrange⟩ := hread (fun _ => ⟨1, 1⟩) [.ranges "report" "file" [(1, 2)]]
    [.range "report" "file" 2 3 false]
    (Volume.records_ofFiles _ hsize.1 "report" "file" _ _)
    (List.forall_mem_singleton.2 ⟨trivial, fun _ _ => trivial⟩)
    (List.forall_mem_singleton.2 ⟨trivial, fun _ _ => trivial⟩)
  have hwindows : windows maxRangeSpan maxRangeSpan_pos 1 3 = [(1, 3)] := by
    rw [windows_first _ (by decide), windows, if_neg (by decide)]
    rfl
  refine ⟨hranges [(2, 3), (1, 2)] (by decide) (by decide) (by decide) (by decide),
    hrange 1 3 (by decide) (by decide) (by decide) fun w hw => ?_⟩
  rw [hwindows, List.mem_singleton] at hw
  subst hw
  decide

/-- What a reader of one line does to it. -/
def annotatingReads : List SidecarEvent :=
  [.ranges "report" "file" [(1, 1)],
    .annotate (chunkKey "report" "file" 0 (assetToken "" "digest" ⟨1, 1⟩) (some ⟨1, 1⟩)) (1, 1)
      fun _ => some ⟨"可覆盖".toList, [], false, [], []⟩]

/-- **A line is read back with the analysis of another read**: the rows of the cache are handed out,
and `get_code_lines_batch` writes into them. -/
theorem cached_rows_are_written_into :
    let context := plainContext 1
    let files := savedFiles (fun _ => "digest") 1 "report" context
    let cfg := SidecarConfig.ofFiles files
    let v := Volume.ofFiles files
    let s := afterSave cfg "report" "file" files (fun _ => ⟨1, 1⟩) ⟨8, 0, by decide⟩ .empty []
      annotatingReads
    Numbered context.lines ∧ context.lines.length ≤ maxSidecarLines ∧ cfg.Faithful v ∧
      saveChunkedSidecar cfg.hash 1 "report" context = .ok files ∧
      v.Records "report" "file" files (fun _ => ⟨1, 1⟩) ∧ (∀ e ∈ annotatingReads, e.IsRead) ∧
      (neededChunks 1 [(1, 1)]).length ≤ maxRangeChunks ∧
      (loadLinesRanges cfg "report" "file" [(1, 1)] s).2 ≠
        .ok (some ([(1, 1)].map (sliceOf (context.lines.map toDict)))) := by
  intro context files cfg v s
  refine ⟨numbered_plainContext 1, by decide, SidecarConfig.faithful_ofFiles files,
    saveChunkedSidecar_eq (by decide) (by decide),
    Volume.records_ofFiles _ (by decide) "report" "file" context _, ?_, by decide, ?_⟩
  · intro e he
    simp only [annotatingReads, List.mem_cons, List.not_mem_nil, or_false] at he
    rcases he with rfl | rfl <;> trivial
  · intro hread
    have hstates : ((loadLinesRanges cfg "report" "file" [(1, 1)] s).2.toOption.bind
        fun rows => rows).map (·.map (·.map LineDict.analysisState)) =
          some [[some "可覆盖".toList]] := by
      decide +kernel
    rw [hread] at hstates
    exact absurd hstates (by decide +kernel)

/-- **The whole context is read back after a save exactly when it has few enough lines and chunks, and
the report has a directory.**  The docstring of `load_full_source_context` promises a read in bounded
windows; a window has up to `MAX_TOTAL_RANGE_SPAN` lines, and `load_lines_range` without `allow_large`
refuses more than `MAX_RANGE_SPAN` of them.  Rows that a reader has written into fail the check of the
content hash. -/
theorem saved_context_is_read_iff {cfg : SidecarConfig} {v : Volume} (hf : cfg.Faithful v)
    {size : Nat} (hsize : 1 ≤ size ∧ size ≤ maxRangeSpan) {context : SourceContext}
    (hnumbered : Numbered context.lines) (hlength : context.lines.length ≤ maxSidecarLines)
    (r f : String) (budget : ByteBudget) {directory : Directory} (hd : directory.SignedBy v) :
    ∃ files, saveChunkedSidecar cfg.hash size r context = .ok files ∧
      ∀ stamp before reads, v.Records r f files stamp →
        (∀ e ∈ before, e.SignedBy v ∧ e.Leaves cfg r f files.metaFile (stamp none)) →
        (∀ e ∈ reads, e.IsRead ∧ e.Leaves cfg r f files.metaFile (stamp none)) →
        ((∃ loaded, (loadFullSourceContext cfg r f
            (afterSave cfg r f files stamp budget directory before reads)).2 =
              .ok (some loaded) ∧ loaded.lines = context.lines) ↔
          usableReportId r = true ∧ context.lines.length ≤ maxRangeSpan ∧
            (context.lines.length + size - 1) / size ≤ maxRangeChunks) := by
  refine ⟨_, saveChunkedSidecar_eq hlength hsize,
    fun stamp before reads hrecords hbefore hreads => ?_⟩
  cases hr : usableReportId r with
  | false =>
    rw [loadFullSourceContext_unusable hr]
    exact iff_of_false (fun ⟨_, hloaded, _⟩ => nomatch hloaded) fun h => Bool.false_ne_true h.1
  | true =>
    have hread := reads_afterSave hf hr hsize.1 hrecords budget hd hbefore hreads
    have hm := describes_save cfg.hash hsize.1 r context
    have hlines : (context.lines.map CodeDetail.toDict).map fromDict = context.lines := by
      rw [List.map_map]
      exact List.map_id context.lines
    have hiff := loadFullSourceContext_lines hf hread hm hnumbered.toDict rfl
      (by rwa [List.length_map])
    rw [hlines, hm.totalChunks, List.length_map] at hiff
    rw [hiff]
    exact ⟨fun h => ⟨rfl, h⟩, And.right⟩

/-- Three lines in chunks of two are read back. -/
theorem saved_context_is_read_iff_sample :
    let files := savedFiles (fun _ => "digest") 2 "report" (plainContext 3)
    let cfg := SidecarConfig.ofFiles files
    let s := afterSave cfg "report" "file" files (fun _ => ⟨1, 1⟩) ⟨8, 0, by decide⟩ .empty []
      [.metadata "report" "file"]
    ∃ loaded, (loadFullSourceContext cfg "report" "file" s).2 = .ok (some loaded) ∧
      loaded.lines = (plainContext 3).lines := by
  intro files cfg s
  have hsize : 1 ≤ 2 ∧ 2 ≤ maxRangeSpan := by decide
  obtain ⟨saved, hsave, hread⟩ := saved_context_is_read_iff
    (SidecarConfig.faithful_ofFiles files) hsize (numbered_plainContext 3) (by decide) "report"
    "file" ⟨8, 0, by decide⟩ (Directory.signedBy_empty (.ofFiles files))
  rw [saveChunkedSidecar_eq (by decide) hsize] at hsave
  obtain rfl := Except.ok.inj hsave
  exact (hread (fun _ => ⟨1, 1⟩) [] [.metadata "report" "file"]
    (Volume.records_ofFiles _ hsize.1 "report" "file" _ _) (fun _ he => nomatch he)
    (List.forall_mem_singleton.2 ⟨trivial, fun _ _ => trivial⟩)).2 (by decide)

/-- **10001 lines are saved and never read back**: the one window of them is longer than
`MAX_RANGE_SPAN`. -/
theorem full_context_refused :
    let context := plainContext 10001
    let files := savedFiles (fun _ => "digest") 2000 "report" context
    let cfg := SidecarConfig.ofFiles files
    let v := Volume.ofFiles files
    let s := afterSave cfg "report" "file" files (fun _ => ⟨1, 1⟩) ⟨8, 0, by decide⟩ .empty [] []
    Numbered context.lines ∧ context.lines.length ≤ maxSidecarLines ∧ cfg.Faithful v ∧
      saveChunkedSidecar cfg.hash 2000 "report" context = .ok files ∧
      v.Records "report" "file" files (fun _ => ⟨1, 1⟩) ∧
      ¬ ∃ loaded, (loadFullSourceContext cfg "report" "file" s).2 = .ok (some loaded) ∧
        loaded.lines = context.lines := by
  intro context files cfg v s
  have hlength : context.lines.length = 10001 := length_plainContext 10001
  have hlimit : context.lines.length ≤ maxSidecarLines := by rw [hlength]; decide
  have hsize : 1 ≤ 2000 := by decide
  have hrecords : v.Records "report" "file" files (fun _ => ⟨1, 1⟩) :=
    Volume.records_ofFiles _ hsize "report" "file" context _
  have hread := reads_afterSave (SidecarConfig.faithful_ofFiles files)
    (by decide : usableReportId "report" = true) hsize hrecords ⟨8, 0, by decide⟩
    (Directory.signedBy_empty v) (fun e (he : e ∈ []) => (nomatch he))
    (fun e (he : e ∈ []) => (nomatch he))
  have hm := describes_save cfg.hash hsize "report" context
  refine ⟨numbered_plainContext 10001, hlimit, SidecarConfig.faithful_ofFiles files,
    saveChunkedSidecar_eq hlimit (by decide), hrecords, ?_⟩
  rintro ⟨loaded, hloaded, hlines⟩
  have hspan := (loadFullSourceContext_lines (SidecarConfig.faithful_ofFiles files) hread hm
    (numbered_plainContext 10001).toDict rfl (by rwa [List.length_map])).1
    ⟨loaded, hloaded, by
      rw [hlines, List.map_map]
      exact (List.map_id context.lines).symm⟩
  rw [List.length_map, hlength] at hspan
  exact absurd hspan.1 (by decide)

end CodeDetail

end FosCoverage
