import FosCoverage.Lib.CompactJson
import FosCoverage.Lib.KWayMerge
import Mathlib.Data.List.Perm.Basic

/-!
# The digest of a multiset of records

`_CanonicalMultisetSpool`: the migration compares the records of the two databases by one digest for
each component, which must not depend on the order in which a database returns them.

* Every record is hashed.  The digests are collected up to the chunk size, sorted and written to a
  stream as bytes (`append`, `flush`); at the end the streams are read back 32 bytes at a time
  (`iterChunk`), merged and hashed (`hexdigest`).
* `Spooled` is what holds after any number of records: the streams are sorted runs of digests, and runs
  and pending digests together are those of the records.  `Spooled.append` is the step and
  `spooled_feed` the run.
* `hexdigest_feed` follows: the digest is that of all digests in ascending order, **whatever the order
  of the records and the chunk size**.
* `componentHash_eq_iff` is the converse: without a collision among the texts that are hashed, two lists
  with the same digest have the same canonical records with the same multiplicity.

SHA-256 is a parameter, a function to 32 bytes.  A record is what `_json_compact` has a text for; other
values raise there, and the spool is closed.
-/

set_option autoImplicit false

namespace FosCoverage

namespace LegacyMigration

open CompactJson

/-! ## Bytes -/

/-- A byte. -/
abbrev Byte := Fin 256

/-- `hashlib.sha256(…).digest()` -/
structure Sha256 where
  /-- The digest of a text. -/
  digest : List Byte → List Byte
  /-- It has 32 bytes. -/
  length_digest : ∀ text, (digest text).length = 32

/-- `.encode("utf-8")` -/
def utf8 (cs : List Char) : List Byte := (cs.flatMap String.utf8EncodeChar).map UInt8.toFin

/-- The two digits of a byte. -/
def hexByte (b : Byte) : List Char := [Nat.digitChar (b / 16), Nat.digitChar (b % 16)]

/-- The digits of some bytes. -/
def hexOf (bytes : List Byte) : String := String.ofList (bytes.flatMap hexByte)

/-- `_json_compact` -/
def jsonCompact (record : Value) : List Byte := utf8 record.dumps

/-! ## The spool -/

/-- `SEMANTIC_HASH_CHUNK_SIZE` -/
def semanticHashChunkSize : Int := 50000

/-- `_CanonicalMultisetSpool` -/
structure CanonicalMultisetSpool where
  /-- `chunk_size` -/
  chunkSize : Nat
  /-- `pending`: the digests that have not been written. -/
  pending : List (List Byte)
  /-- `chunks`: what has been written to each stream. -/
  chunks : List (List Byte)

namespace CanonicalMultisetSpool

/-- `__init__` -/
def new (chunkSize : Int) : CanonicalMultisetSpool :=
  ⟨(max 1 (if chunkSize = 0 then semanticHashChunkSize else chunkSize)).toNat, [], []⟩

/-- `_flush` -/
def flush (spool : CanonicalMultisetSpool) : CanonicalMultisetSpool :=
  if spool.pending = [] then spool
  else
    { spool with
      chunks := spool.chunks ++ [(spool.pending.insertionSort (· ≤ ·)).flatten]
      pending := [] }

/-- `_iter_chunk` -/
def iterChunk (stream : List Byte) : Except String (List (List Byte)) :=
  if _h : stream.take 32 = [] then .ok []
  else if (stream.take 32).length ≠ 32 then .error "semantic digest chunk ended mid-record"
  else (iterChunk (stream.drop 32)).map (stream.take 32 :: ·)
  termination_by stream.length
  decreasing_by
    have hpos : 0 < stream.length := by
      rw [List.take_eq_nil_iff, not_or] at _h
      exact List.length_pos_iff.2 _h.2
    rw [List.length_drop]
    omega

variable (sha : Sha256)

/-- `_canonical_semantic_record_digest` -/
def recordDigest (record : Value) : List Byte := sha.digest (jsonCompact record)

/-- `append` -/
def append (spool : CanonicalMultisetSpool) (record : Value) : CanonicalMultisetSpool :=
  let spool := { spool with pending := spool.pending ++ [recordDigest sha record] }
  if spool.chunkSize ≤ spool.pending.length then spool.flush else spool

/-- `hexdigest` -/
def hexdigest (spool : CanonicalMultisetSpool) : Except String String :=
  (spool.flush.chunks.mapM iterChunk).map fun streams =>
    hexOf (sha.digest (KWayMerge.mergeAll streams).flatten)

/-- The records one by one. -/
def feed (spool : CanonicalMultisetSpool) (records : List Value) : CanonicalMultisetSpool :=
  records.foldl (append sha) spool

end CanonicalMultisetSpool

open CanonicalMultisetSpool

/-- `canonical_semantic_component_hash` -/
def canonicalSemanticComponentHash (sha : Sha256) (records : List Value) (chunkSize : Int) :
    Except String String :=
  ((CanonicalMultisetSpool.new chunkSize).feed sha records).hexdigest sha

/-! ## Bytes that are read back -/

section Bytes

/-- Blocks of one length are determined by their bytes. -/
theorem flatten_inj {α : Type} {n : Nat} (hn : 0 < n) {l l' : List (List α)}
    (hl : ∀ b ∈ l, b.length = n) (hl' : ∀ b ∈ l', b.length = n) (h : l.flatten = l'.flatten) :
    l = l' := by
  have hlengths : ∀ {l : List (List α)}, (∀ b ∈ l, b.length = n) →
      l.map List.length = List.replicate l.length n :=
    fun hl => List.eq_replicate_iff.2 ⟨List.length_map _, by simpa using hl⟩
  have hcount : l.length = l'.length := by
    have hsum := congrArg List.length h
    rw [List.length_flatten, List.length_flatten, hlengths hl, hlengths hl',
      List.sum_replicate_nat, List.sum_replicate_nat] at hsum
    exact Nat.eq_of_mul_eq_mul_right hn hsum
  rw [List.eq_iff_flatten_eq, hlengths hl, hlengths hl', hcount]
  exact ⟨h, rfl⟩

theorem hexByte_inj {a b : Byte} (h : hexByte a = hexByte b) : a = b := by
  have hdigit : ∀ m < 16, ∀ n < 16, Nat.digitChar m = Nat.digitChar n → m = n := by decide
  obtain ⟨hhigh, hlow⟩ := List.cons.inj h
  have hhigh' := hdigit _ (by omega) _ (by omega) hhigh
  have hlow' := hdigit _ (by omega) _ (by omega) (List.cons.inj hlow).1
  exact Fin.ext (by omega)

theorem hexOf_inj {l l' : List Byte} (h : hexOf l = hexOf l') : l = l' := by
  have hchars := String.ofList_inj.1 h
  rw [List.flatMap_def, List.flatMap_def] at hchars
  have hmap := flatten_inj (n := 2) (by decide) (by simp [hexByte]) (by simp [hexByte]) hchars
  exact List.map_injective_iff.2 (fun _ _ => hexByte_inj) hmap

theorem utf8_inj {s t : List Char} (h : utf8 s = utf8 t) : s = t := by
  have hbytes := List.map_injective_iff.2 (fun _ _ => UInt8.toFin_inj.1) h
  have hencode : s.utf8Encode = t.utf8Encode := congrArg List.toByteArray hbytes
  have hdecode := congrArg ByteArray.utf8Decode? hencode
  rw [List.utf8Decode?_utf8Encode, List.utf8Decode?_utf8Encode] at hdecode
  exact List.toArray_inj (Option.some.inj hdecode)

theorem jsonCompact_eq_iff (v w : Value) : jsonCompact v = jsonCompact w ↔
    v.canonical = w.canonical := by
  rw [← Value.dumps_eq_iff]
  exact ⟨utf8_inj, congrArg utf8⟩

/-- **What is written is read**: a stream of whole digests. -/
theorem iterChunk_flatten {digests : List (List Byte)} (h : ∀ d ∈ digests, d.length = 32) :
    iterChunk digests.flatten = .ok digests := by
  induction digests with
  | nil =>
    rw [iterChunk]
    rfl
  | cons d digests ih =>
    obtain ⟨hd, hdigests⟩ := List.forall_mem_cons.1 h
    have htake : (d :: digests).flatten.take 32 = d := by
      rw [List.flatten_cons, ← hd, List.take_left]
    have hdrop : (d :: digests).flatten.drop 32 = digests.flatten := by
      rw [List.flatten_cons, ← hd, List.drop_left]
    have hne : d ≠ [] := by
      rintro rfl
      cases hd
    rw [iterChunk, htake, hdrop, dif_neg hne, if_neg (not_not.2 hd), ih hdigests]
    rfl

end Bytes

/-! ## The streams -/

section Streams

variable (sha : Sha256)

/-- The digests of the records in ascending order. -/
def sortedDigests (records : List Value) : List (List Byte) :=
  (records.map (recordDigest sha)).insertionSort (· ≤ ·)

/-- The streams are sorted runs of digests, and with what is pending they are the digests. -/
structure Spooled (digests : List (List Byte)) (spool : CanonicalMultisetSpool) : Prop where
  runs : ∃ runs : List (List (List Byte)), spool.chunks = runs.map List.flatten ∧
    (∀ run ∈ runs, run.Pairwise (· ≤ ·)) ∧ (runs.flatten ++ spool.pending).Perm digests

variable {sha} {digests : List (List Byte)} {spool : CanonicalMultisetSpool}

theorem Spooled.new (chunkSize : Int) : Spooled [] (CanonicalMultisetSpool.new chunkSize) :=
  ⟨[], rfl, fun _ h => (nomatch h), .refl _⟩

/-- Writing the pending digests moves them into a run of their own. -/
theorem Spooled.flush (h : Spooled digests spool) : Spooled digests spool.flush := by
  unfold CanonicalMultisetSpool.flush
  split
  · exact h
  · obtain ⟨runs, hchunks, hsorted, hperm⟩ := h
    refine ⟨runs ++ [spool.pending.insertionSort (· ≤ ·)], ?_, ?_, ?_⟩
    · rw [hchunks, List.map_append]
      rfl
    · intro run hrun
      rcases List.mem_append.1 hrun with hrun | hrun
      · exact hsorted run hrun
      · rw [List.mem_singleton.1 hrun]
        exact List.pairwise_insertionSort _ _
    · rw [List.flatten_append, List.flatten_singleton, List.append_nil]
      exact (List.Perm.append_left _ (List.perm_insertionSort _ _)).trans hperm

/-- **One more record**. -/
theorem Spooled.append (h : Spooled digests spool) (record : Value) :
    Spooled (digests ++ [recordDigest sha record]) (spool.append sha record) := by
  have hpending : Spooled (digests ++ [recordDigest sha record])
      { spool with pending := spool.pending ++ [recordDigest sha record] } := by
    obtain ⟨runs, hchunks, hsorted, hperm⟩ := h
    refine ⟨runs, hchunks, hsorted, ?_⟩
    rw [← List.append_assoc]
    exact hperm.append_right _
  unfold CanonicalMultisetSpool.append
  dsimp only
  split
  · exact hpending.flush
  · exact hpending

/-- **Any number of records**. -/
theorem spooled_feed (h : Spooled digests spool) (records : List Value) :
    Spooled (digests ++ records.map (recordDigest sha)) (spool.feed sha records) := by
  induction records generalizing digests spool with
  | nil =>
    rw [List.map_nil, List.append_nil]
    exact h
  | cons record records ih =>
    rw [List.map_cons, ← List.singleton_append, ← List.append_assoc]
    exact ih (h.append record)

theorem flush_pending (spool : CanonicalMultisetSpool) : spool.flush.pending = [] := by
  unfold CanonicalMultisetSpool.flush
  split
  · next hempty => exact hempty
  · rfl

/-- The streams of written digests are read and merged into all digests in ascending order. -/
theorem Spooled.hexdigest (h : Spooled digests spool) (hlen : ∀ d ∈ digests, d.length = 32) :
    spool.hexdigest sha =
      .ok (hexOf (sha.digest (digests.insertionSort (· ≤ ·)).flatten)) := by
  obtain ⟨runs, hchunks, hsorted, hperm⟩ := h.flush
  rw [flush_pending, List.append_nil] at hperm
  have hread : ∀ runs : List (List (List Byte)), (∀ run ∈ runs, ∀ d ∈ run, d.length = 32) →
      (runs.map List.flatten).mapM iterChunk = .ok runs := by
    intro runs hruns
    induction runs with
    | nil => rfl
    | cons run runs ih =>
      obtain ⟨hrun, hruns⟩ := List.forall_mem_cons.1 hruns
      rw [List.map_cons, List.mapM_cons, iterChunk_flatten hrun, ih hruns]
      rfl
  have hdigests : ∀ run ∈ runs, ∀ d ∈ run, d.length = 32 := fun run hrun d hd =>
    hlen d (hperm.mem_iff.1 (List.mem_flatten.2 ⟨run, hrun, hd⟩))
  rw [CanonicalMultisetSpool.hexdigest, hchunks, hread runs hdigests]
  change Except.ok (hexOf (sha.digest (KWayMerge.mergeAll runs).flatten)) = _
  rw [KWayMerge.mergeAll_eq_sort hsorted, KWayMerge.sort_eq_of_perm hperm]

/-- **The digest of some records**: that of their digests in ascending order. -/
theorem componentHash_eq (sha : Sha256) (records : List Value) (chunkSize : Int) :
    canonicalSemanticComponentHash sha records chunkSize =
      .ok (hexOf (sha.digest (sortedDigests sha records).flatten)) := by
  have hspooled : Spooled ([] ++ records.map (recordDigest sha)) _ :=
    spooled_feed (Spooled.new chunkSize) records
  rw [List.nil_append] at hspooled
  refine hspooled.hexdigest fun d hd => ?_
  obtain ⟨record, -, rfl⟩ := List.mem_map.1 hd
  exact sha.length_digest _

end Streams

/-! ## What the digest says -/

section Digest

variable (sha : Sha256) {records records' : List Value}

/-- The texts that are hashed for some records. -/
def hashedTexts (records : List Value) : List (List Byte) :=
  (sortedDigests sha records).flatten :: records.map jsonCompact

/-- No two different texts of the two computations have the same digest. -/
def NoCollision (records records' : List Value) : Prop :=
  ∀ a ∈ hashedTexts sha records ++ hashedTexts sha records',
    ∀ b ∈ hashedTexts sha records ++ hashedTexts sha records',
      sha.digest a = sha.digest b → a = b

instance (records records' : List Value) : Decidable (NoCollision sha records records') :=
  inferInstanceAs (Decidable (∀ _ ∈ _, ∀ _ ∈ _, _ → _))

/-- A function that another one determines on the elements of two lists: if the values of the one are
the same with multiplicity, so are those of the other. -/
theorem perm_map_of_determines {α β γ : Type} {f : α → β} {g : α → γ} {l l' : List α}
    (h : ∀ a ∈ l ++ l', ∀ b ∈ l ++ l', f a = f b → g a = g b)
    (hperm : (l.map f).Perm (l'.map f)) : (l.map g).Perm (l'.map g) := by
  classical
  let k : β → Option γ := fun y =>
    if hy : ∃ a ∈ l ++ l', f a = y then some (g hy.choose) else none
  have hk : ∀ a ∈ l ++ l', k (f a) = some (g a) := by
    intro a ha
    have hy : ∃ b ∈ l ++ l', f b = f a := ⟨a, ha, rfl⟩
    have hchoose := hy.choose_spec
    change (if hy : ∃ b ∈ l ++ l', f b = f a then some (g hy.choose) else none) = _
    rw [dif_pos hy, h _ hchoose.1 a ha hchoose.2]
  have hmap : ∀ m, m ⊆ l ++ l' → (m.map f).map k = (m.map g).map some := by
    intro m hm
    rw [List.map_map, List.map_map]
    exact List.map_congr_left fun a ha => hk a (hm ha)
  have hk' := hperm.map k
  rw [hmap l (List.subset_append_left l l'), hmap l' (List.subset_append_right l l')] at hk'
  exact (List.map_perm_map_iff (Option.some_injective γ)).1 hk'

/-- **Two lists have the same digest exactly when they have the same canonical records**, with
multiplicity. -/
theorem componentHash_eq_iff (h : NoCollision sha records records') (chunkSize chunkSize' : Int) :
    canonicalSemanticComponentHash sha records chunkSize =
        canonicalSemanticComponentHash sha records' chunkSize' ↔
      (records.map Value.canonical).Perm (records'.map Value.canonical) := by
  have hlen : ∀ records : List Value, ∀ d ∈ sortedDigests sha records, d.length = 32 := by
    intro records d hd
    obtain ⟨record, -, rfl⟩ := List.mem_map.1 ((List.mem_insertionSort _).1 hd)
    exact sha.length_digest _
  rw [componentHash_eq, componentHash_eq]
  constructor
  · intro heq
    have hdigest := hexOf_inj (Except.ok.inj heq)
    have hflat := h _ (List.mem_append_left _ List.mem_cons_self) _
      (List.mem_append_right _ List.mem_cons_self) hdigest
    have hsorted := flatten_inj (by decide) (hlen records) (hlen records') hflat
    have hperm : (records.map (recordDigest sha)).Perm (records'.map (recordDigest sha)) := by
      refine (List.perm_insertionSort (· ≤ ·) _).symm.trans ?_
      change (sortedDigests sha records).Perm _
      rw [hsorted]
      exact List.perm_insertionSort _ _
    refine perm_map_of_determines (fun a ha b hb hab => ?_) hperm
    have htext : ∀ r ∈ records ++ records',
        jsonCompact r ∈ hashedTexts sha records ++ hashedTexts sha records' := by
      intro r hr
      rcases List.mem_append.1 hr with hr | hr
      · exact List.mem_append_left _ (List.mem_cons_of_mem _ (List.mem_map_of_mem hr))
      · exact List.mem_append_right _ (List.mem_cons_of_mem _ (List.mem_map_of_mem hr))
    exact (jsonCompact_eq_iff a b).1 (h _ (htext a ha) _ (htext b hb) hab)
  · intro hperm
    have hdigests : (records.map (recordDigest sha)).Perm (records'.map (recordDigest sha)) := by
      refine perm_map_of_determines (fun a _ b _ hab => ?_) hperm
      rw [recordDigest, recordDigest, (jsonCompact_eq_iff a b).2 hab]
    rw [sortedDigests, sortedDigests, KWayMerge.sort_eq_of_perm hdigests]

end Digest

/-- **The digest is that of a multiset.**  It is the digest of the digests of the records in ascending
order, with multiplicity; it does not depend on the order of the records and on the chunk size; and two
lists have the same one exactly when they have the same canonical records, with multiplicity, unless
two of the texts that are hashed collide. -/
theorem multiset_digest (sha : Sha256) (records records' : List Value)
    (chunkSize chunkSize' : Int) :
    canonicalSemanticComponentHash sha records chunkSize =
        .ok (hexOf (sha.digest (sortedDigests sha records).flatten)) ∧
      (records.Perm records' → canonicalSemanticComponentHash sha records chunkSize =
        canonicalSemanticComponentHash sha records' chunkSize') ∧
      (NoCollision sha records records' →
        (canonicalSemanticComponentHash sha records chunkSize =
            canonicalSemanticComponentHash sha records' chunkSize' ↔
          (records.map Value.canonical).Perm (records'.map Value.canonical))) := by
  refine ⟨componentHash_eq sha records chunkSize, fun hperm => ?_, fun h =>
    componentHash_eq_iff sha h chunkSize chunkSize'⟩
  rw [componentHash_eq, componentHash_eq, sortedDigests, sortedDigests,
    KWayMerge.sort_eq_of_perm (hperm.map _)]

/-! ## Examples -/

/-- A record of the component `projects`. -/
def projectRecord (name : String) : Value := .dict [("project_name", .text name)]

/-- The first of the texts that are hashed for three records. -/
def firstText : List Byte := jsonCompact (projectRecord "p")

/-- The second of the texts. -/
def secondText : List Byte := jsonCompact (projectRecord "q")

/-- The SHA-256 of the first text. -/
def firstDigest : List Byte :=
  [92, 221, 20, 134, 69, 143, 37, 26, 76, 124, 37, 43, 57, 2, 88, 48, 67, 35, 180, 206, 174, 85, 167,
    207, 145, 28, 197, 173, 236, 199, 196, 81]

/-- The SHA-256 of the second text. -/
def secondDigest : List Byte :=
  [71, 255, 108, 115, 136, 207, 165, 98, 54, 21, 193, 48, 105, 8, 44, 204, 167, 104, 17, 47, 188, 52,
    160, 103, 88, 18, 129, 84, 85, 239, 224, 63]

/-- The SHA-256 of the second digest and twice the first one. -/
def lastDigest : List Byte :=
  [15, 29, 121, 221, 113, 170, 31, 192, 95, 241, 218, 48, 234, 137, 37, 80, 84, 37, 58, 206, 50, 3,
    107, 32, 67, 209, 130, 35, 111, 157, 151, 185]

/-- SHA-256 on the texts that are hashed for three records. -/
def recordedSha : Sha256 where
  digest text :=
    if text = firstText then firstDigest
    else if text = secondText then secondDigest
    else lastDigest
  length_digest text := by
    split
    · rfl
    split <;> rfl

theorem multiset_digest_projects :
    canonicalSemanticComponentHash recordedSha
        [projectRecord "p", projectRecord "q", projectRecord "p"] 2 =
      canonicalSemanticComponentHash recordedSha
        [projectRecord "p", projectRecord "p", projectRecord "q"] 1 :=
  ((multiset_digest recordedSha _ _ 2 1).2.2 (by decide +kernel)).2
    (((List.Perm.swap _ _ []).cons _).map _)

/-- What the migration keeps of the state of a project, with the time as the driver gives it. -/
def stateRecord (updatedAt : Value) : Value :=
  .dict [("target_entity_type", .text "project_state"),
    ("source_table", .text "coverage_project_state"), ("source_identity", .text "p"),
    ("legacy_created_at", .null), ("legacy_updated_at", updatedAt), ("legacy_raw_status", .null),
    ("legacy_raw_is_draft", .null), ("raw_payload_sha256", .text "")]

/-- **A time and its text have the same digest**: one driver gives the time as an object, the other one
as a text. -/
theorem times_are_texts :
    (∀ (sha : Sha256) (chunkSize chunkSize' : Int),
      canonicalSemanticComponentHash sha [stateRecord (.other "2024-05-01 10:00:00")] chunkSize =
        canonicalSemanticComponentHash sha [stateRecord (.text "2024-05-01 10:00:00")] chunkSize') ∧
      ¬ [stateRecord (.other "2024-05-01 10:00:00")].Perm
        [stateRecord (.text "2024-05-01 10:00:00")] := by
  constructor
  · intro sha chunkSize chunkSize'
    rw [componentHash_eq, componentHash_eq]
    rfl
  · intro hperm
    have heq := List.singleton_perm_singleton.1 hperm
    simp [stateRecord] at heq

end LegacyMigration

end FosCoverage
