import FosCoverage.Lib.Trace
import FosCoverage.Reports.Registry

/-!
# What the calls of the registry do to its files

* `get?_prune` is the file of one report after a pruning: as it was, gone, or written anew with the
  directories that are left.  An entry that is written anew comes from the file itself or from the
  list of the format before (`loadAll_cases`).
* `payload_complete_iff` says when the entry that `register` stores has the whole identity tuple.
  The checks of the call do not enter into it: what is stored is merged from the metadata and from
  the entry left after the pruning, key by key.
* `register_cases` are the four ends of a call.
-/

set_option autoImplicit false

namespace FosCoverage

open Outcome Relational

namespace ReportRegistry

/-! ## Dictionaries -/

theorem lookup_cons_eq (key k : String) (v : Json) (d : Dict) :
    List.lookup key ((k, v) :: d) = if key = k then some v else d.lookup key := by
  rw [List.lookup_cons]
  by_cases h : key = k
  · simp [h]
  · simp [h, beq_false_of_ne h]

@[simp] theorem lookup_assign (key key' : String) (value : Json) (d : Dict) :
    (assign key value d).lookup key' = if key' = key then some value else d.lookup key' := by
  induction d with
  | nil => exact lookup_cons_eq key' key value []
  | cons x d ih =>
    obtain ⟨k, v⟩ := x
    unfold assign
    by_cases hk : k = key
    · rw [if_pos hk, lookup_cons_eq, lookup_cons_eq, hk]
      split <;> rfl
    · rw [if_neg hk, lookup_cons_eq, lookup_cons_eq, ih]
      by_cases h : key' = k
      · rw [if_pos h, if_pos h, if_neg fun he => hk (h.symm.trans he)]
      · rw [if_neg h, if_neg h]

theorem get_assign (key key' : String) (value : Json) (d : Dict) :
    Json.get (assign key value d) key' = if key' = key then value else Json.get d key' := by
  unfold Json.get Json.getD
  rw [lookup_assign]
  split <;> rfl

/-- A key an entry is written with, other than the two that reading sets. -/
theorem get_toDict (e : Entry) (id : ReportId) (directories : List String) {key : String}
    (h : key ≠ "directories") (h' : key ≠ "report_id") :
    Json.get (e.toDict id directories) key = Json.get e.fields key := by
  rw [Entry.toDict, get_assign, if_neg h, get_assign, if_neg h']

/-! ## The directories a file names -/

/-- The texts in `value["directories"]`. -/
def recordedDirectories : Json → List String
  | .object fields =>
    match ((Json.get fields "directories").or (.array [])).iterate with
    | .ok items => items.filterMap fun item =>
        match item with
        | .text s => some s
        | _ => none
    | .error _ => []
  | _ => []

theorem recordedDirectories_array {fields : Dict} {directories : List String}
    (h : Json.get fields "directories" = .array (directories.map .text)) :
    recordedDirectories (.object fields) = directories := by
  have hiter : ((Json.array (directories.map .text)).or (.array [])).iterate
      = .ok (directories.map .text) := by
    cases directories <;> rfl
  have htexts : ∀ l : List String, ((l.map Json.text).filterMap fun item =>
      match item with
      | .text s => some s
      | _ => none) = l := by
    intro l
    induction l with
    | nil => rfl
    | cons s l ih => rw [List.map_cons, List.filterMap_cons, ih]
  simp only [recordedDirectories, h, hiter]
  exact htexts directories

@[simp] theorem recordedDirectories_toDict (e : Entry) (id : ReportId)
    (directories : List String) :
    recordedDirectories (.object (e.toDict id directories)) = directories := by
  apply recordedDirectories_array
  rw [Entry.toDict, get_assign, if_pos rfl]

/-- Reading a file keeps its keys and resolves the directories it names. -/
theorem readEntry_eq {disk : Disk} {id : ReportId} {v : Json} {e : Entry}
    (h : readEntry disk id v = some e) :
    v = .object e.fields ∧ e.directories ⊆ (recordedDirectories v).map disk.realpath := by
  cases v with
  | object fields =>
    have key : readEntry.directories disk fields = some e := by
      simp only [readEntry] at h
      split at h
      · exact h
      · split at h
        · exact h
        · cases h
      · cases h
    unfold readEntry.directories at key
    split at key
    · rename_i directories hok
      cases key
      refine ⟨rfl, fun d hd => ?_⟩
      rw [bind_eq_ok] at hok
      obtain ⟨items, hitems, hok⟩ := hok
      obtain ⟨item, hmem, hreal⟩ := exists_of_mem_mapM hok hd
      simp only [recordedDirectories, hitems]
      cases item with
      | text s =>
        cases hreal
        exact List.mem_map_of_mem (List.mem_filterMap.2 ⟨.text s, (List.mem_filter.1 hmem).1, rfl⟩)
      | _ => cases hreal
    · cases key
  | _ => cases h

theorem loadEntry_eq {st : Registry} {disk : Disk} {id : ReportId} {e : Entry}
    (h : st.loadEntry disk id = some e) : st.files.get? id = some (.object e.fields) ∧
      e.directories ⊆ (recordedDirectories (.object e.fields)).map disk.realpath := by
  obtain ⟨v, hv, he⟩ := Option.bind_eq_some_iff.1 h
  obtain ⟨rfl, hsub⟩ := readEntry_eq he
  exact ⟨hv, hsub⟩

/-! ## `load_all` -/

theorem registered_eq {st : Registry} {disk : Disk} {id : ReportId} {e : Entry}
    (h : (st.registered disk).get? id = some e) : st.loadEntry disk id = some e := by
  have key : ∀ (rows : List (ReportId × Json)) (acc : Keyed ReportId Entry),
      (rows.foldl (addEntry disk) acc).get? id = some e →
      acc.get? id = some e ∨ ∃ v, (id, v) ∈ rows ∧ readEntry disk id v = some e := by
    intro rows
    induction rows with
    | nil => exact fun acc h => Or.inl h
    | cons r rows ih =>
      intro acc h
      rw [List.foldl_cons] at h
      rcases ih _ h with h | ⟨v, hv, hread⟩
      · unfold addEntry at h
        split at h
        · rename_i e' he'
          rw [Keyed.get?_put] at h
          split at h
          · rename_i hid
            obtain rfl : e' = e := Option.some.inj h
            exact Or.inr ⟨r.2, hid ▸ List.mem_cons_self, hid ▸ he'⟩
          · exact Or.inl h
        · exact Or.inl h
      · exact Or.inr ⟨v, List.mem_cons_of_mem _ hv, hread⟩
  unfold Registry.registered at h
  split at h
  · rcases key _ _ h with h | ⟨v, hv, hread⟩
    · cases h
    · rw [List.mem_insertionSort] at hv
      exact Option.bind_eq_some_iff.2 ⟨v, Keyed.get?_eq_some_iff.2 hv, hread⟩
  · cases h

theorem legacyEntries_eq {disk : Disk} {result : Keyed ReportId Entry} {id : ReportId} {e : Entry}
    (entries : Dict) (added : Keyed ReportId Entry)
    (h : (legacyEntries disk result entries added).get? id = some e) :
    added.get? id = some e ∨ ∃ directories, e = .ofLegacy directories := by
  fun_induction legacyEntries disk result entries added with
  | case1 added => exact Or.inl h
  | case2 added key value rest hseen ih => exact ih h
  | case3 added key value rest hseen err hid ih => exact ih h
  | case4 added key value rest hseen id' hid err hdirs => exact Or.inl h
  | case5 added key value rest hseen id' hid directories hdirs ih =>
    rcases ih h with h | h
    · rw [Keyed.get?_put] at h
      split at h
      · cases h
        exact Or.inr ⟨directories, rfl⟩
      · exact Or.inl h
    · exact Or.inr h

theorem legacy_eq {st : Registry} {disk : Disk} {id : ReportId} {e : Entry}
    (h : (st.legacy disk).get? id = some e) : ∃ directories, e = .ofLegacy directories := by
  unfold Registry.legacy at h
  split at h
  · rcases legacyEntries_eq _ _ h with h | h
    · cases h
    · exact h
  · cases h

/-- An entry of `load_all` comes from the list of the format before or from the file. -/
theorem loadAll_cases {st : Registry} {disk : Disk} {id : ReportId} {e : Entry}
    (h : (st.loadAll disk).get? id = some e) : (st.legacy disk).get? id = some e ∨
      (st.legacy disk).get? id = none ∧ st.loadEntry disk id = some e := by
  unfold Registry.loadAll at h
  cases hl : (st.legacy disk).get? id with
  | some e' =>
    have := Keyed.get?_puts_of_mem (st.registered disk) (st.legacy disk).nodup
      (Keyed.get?_eq_some_iff.1 hl)
    rw [this] at h
    exact Or.inl h
  | none =>
    rw [Keyed.get?_puts_of_ne] at h
    · exact Or.inr ⟨rfl, registered_eq h⟩
    · rintro r hr rfl
      exact Keyed.get?_eq_none_iff.1 hl r.2 hr

/-! ## `prune` -/

/-- The file of a report that `load_all` lists as `e`, after the pruning. -/
def Entry.afterPrune (e : Entry) (disk : Disk) (id : ReportId) (file : Option Json) : Option Json :=
  if e.kept disk id = [] then none
  else if e.kept disk id = e.directories then file
  else some (.object (e.toDict id (e.kept disk id)))

theorem get?_pruneEntry (disk : Disk) (acc : Registry × List ReportId) (r : ReportId × Entry)
    (id : ReportId) : (pruneEntry disk acc r).1.files.get? id =
      if id = r.1 then r.2.afterPrune disk r.1 (acc.1.files.get? r.1)
      else acc.1.files.get? id := by
  unfold pruneEntry Entry.afterPrune
  by_cases hk : r.2.kept disk r.1 = []
  · rw [if_neg (not_not.2 hk), if_pos hk]
    cases hfile : acc.1.files.get? r.1 with
    | some v =>
      simp only [Option.isSome_some, if_true]
      rw [Keyed.get?_deleteWhere]
      by_cases hid : id = r.1
      · simp [hid]
      · simp only [hid, decide_false, Bool.not_false, if_false]
        cases acc.1.files.get? id <;> rfl
    | none =>
      by_cases hid : id = r.1
      · simp [hid, hfile]
      · simp [hid]
  · rw [if_pos hk, if_neg hk]
    by_cases hd : r.2.kept disk r.1 = r.2.directories
    · rw [if_neg (not_not.2 hd), if_pos hd]
      by_cases hid : id = r.1
      · rw [if_pos hid, hid]
      · rw [if_neg hid]
    · rw [if_pos hd, if_neg hd]
      dsimp only
      rw [Keyed.get?_put]

/-- The entry of `load_all`, which lists nothing where the directory was not made. -/
def Registry.listed (st : Registry) (disk : Disk) (id : ReportId) : Option Entry :=
  if st.made then (st.loadAll disk).get? id else none

/-- **The file of a report after a pruning.** -/
theorem get?_prune (st : Registry) (disk : Disk) (id : ReportId) :
    (st.prune disk).1.files.get? id = match st.listed disk id with
      | some e => e.afterPrune disk id (st.files.get? id)
      | none => st.files.get? id := by
  have skip : ∀ (rows : List (ReportId × Entry)) (acc : Registry × List ReportId),
      (∀ r ∈ rows, r.1 ≠ id) → (rows.foldl (pruneEntry disk) acc).1.files.get? id =
        acc.1.files.get? id := by
    intro rows
    induction rows with
    | nil => exact fun _ _ => rfl
    | cons r rows ih =>
      intro acc h
      rw [List.foldl_cons, ih _ fun r' hr' => h r' (List.mem_cons_of_mem _ hr'), get?_pruneEntry,
        if_neg (h r List.mem_cons_self).symm]
  have meet : ∀ (rows : List (ReportId × Entry)) (acc : Registry × List ReportId) (e : Entry),
      (rows.map Prod.fst).Nodup → (id, e) ∈ rows →
      (rows.foldl (pruneEntry disk) acc).1.files.get? id =
        e.afterPrune disk id (acc.1.files.get? id) := by
    intro rows
    induction rows with
    | nil => exact fun _ _ _ h => absurd h List.not_mem_nil
    | cons r rows ih =>
      intro acc e hn hm
      rw [List.map_cons, List.nodup_cons] at hn
      rw [List.foldl_cons]
      rcases List.mem_cons.1 hm with rfl | hm
      · rw [skip rows _ fun r' hr' he => hn.1 (List.mem_map.2 ⟨r', hr', he⟩), get?_pruneEntry,
          if_pos rfl]
      · have hne : id ≠ r.1 := fun he => hn.1 (List.mem_map.2 ⟨(id, e), hm, he⟩)
        rw [ih _ e hn.2 hm, get?_pruneEntry, if_neg hne]
  unfold Registry.prune Registry.listed
  split
  · cases hl : (st.loadAll disk).get? id with
    | some e => exact meet _ _ e (st.loadAll disk).nodup (Keyed.get?_eq_some_iff.1 hl)
    | none =>
      exact skip _ _ fun r hr he => Keyed.get?_eq_none_iff.1 hl r.2 (he ▸ hr)
  · rfl

/-- A file after a pruning is the file before, or an entry of `load_all` with fewer directories. -/
theorem prune_cases {st : Registry} {disk : Disk} {id : ReportId} {v : Json}
    (h : (st.prune disk).1.files.get? id = some v) :
    st.files.get? id = some v ∧
        (∀ e, st.listed disk id = some e → e.kept disk id = e.directories) ∨
      ∃ e, st.listed disk id = some e ∧ e.kept disk id ≠ [] ∧ e.kept disk id ≠ e.directories ∧
        v = .object (e.toDict id (e.kept disk id)) := by
  rw [get?_prune] at h
  cases hl : st.listed disk id with
  | none =>
    rw [hl] at h
    exact Or.inl ⟨h, fun e he => nomatch he⟩
  | some e =>
    rw [hl] at h
    dsimp only [Entry.afterPrune] at h
    split at h
    · cases h
    · rename_i hk
      split at h
      · rename_i hd
        refine Or.inl ⟨h, fun e' he' => ?_⟩
        cases he'
        exact hd
      · rename_i hd
        cases h
        exact Or.inr ⟨e, rfl, hk, hd, rfl⟩

theorem listed_cases {st : Registry} {disk : Disk} {id : ReportId} {e : Entry}
    (h : st.listed disk id = some e) : (st.legacy disk).get? id = some e ∨
      (st.legacy disk).get? id = none ∧ st.loadEntry disk id = some e := by
  unfold Registry.listed at h
  split at h
  · exact loadAll_cases h
  · cases h

/-! ## The identity tuple -/

/-- An entry in the VNEXT mode has an asset identity, a sidecar schema and a scan id. -/
def IsComplete : Json → Prop
  | .object fields =>
    Json.get fields "report_mode" = .text ReportMode.vnextArtifactReady.text →
      (Json.get fields "asset_identity").truthy = true ∧
      (∃ n : Int, Json.get fields "sidecar_schema" = .int n ∧ 0 < n) ∧
      isFilled (Json.get fields "scan_id") = true
  | _ => True

instance (v : Json) (s : String) : Decidable (v = .text s) :=
  match v with
  | .text s' => decidable_of_iff (s' = s) ⟨congrArg Json.text, Json.text.inj⟩
  | .null | .bool _ | .int _ | .float _ | .array _ | .object _ => isFalse nofun

instance (v : Json) : Decidable (∃ n : Int, v = .int n ∧ 0 < n) :=
  match v with
  | .int n => decidable_of_iff (0 < n)
      ⟨fun h => ⟨n, rfl, h⟩, fun ⟨_, he, h⟩ => Json.int.inj he ▸ h⟩
  | .null | .bool _ | .text _ | .float _ | .array _ | .object _ => isFalse nofun

instance decidableIsComplete : (v : Json) → Decidable (IsComplete v)
  | .object _ => inferInstanceAs (Decidable (_ → _ ∧ _ ∧ _))
  | .null | .bool _ | .int _ | .float _ | .text _ | .array _ => isTrue trivial

/-- `int(value or 0) > 0` -/
def isPositive (t : UnicodeTables) (value : Json) : Bool :=
  match int t (value.or (.int 0)) with
  | .ok n => 0 < n
  | .error _ => false

/-- A key is given with a good value, or is not given while the entry that is there has it with
one. -/
def isSupplied (good : Json → Bool) (metadata current : Dict) (key : String) : Bool :=
  ((metadata.lookup key).or (current.lookup key)).any good

/-- The identity tuple is supplied. -/
def Supplied (t : UnicodeTables) (metadata current : Dict) : Prop :=
  isSupplied Json.truthy metadata current "asset_identity" = true ∧
    isSupplied (isPositive t) metadata current "sidecar_schema" = true ∧
    isSupplied isFilled metadata current "scan_id" = true

instance (t : UnicodeTables) (metadata current : Dict) : Decidable (Supplied t metadata current) :=
  inferInstanceAs (Decidable (_ ∧ _ ∧ _))

/-- The merged value is good exactly when the key is supplied, where the default is not good. -/
theorem good_merged {good : Json → Bool} {default : Json} (h : good default = false)
    (metadata current : Dict) (key : String) :
    good (merged metadata current key default) = isSupplied good metadata current key := by
  unfold merged isSupplied Json.getD
  cases metadata.lookup key with
  | some v => rfl
  | none =>
    cases current.lookup key with
    | some v => rfl
    | none => exact h

theorem truthy_or_empty (v : Json) : (v.or (.text "")).truthy = v.truthy := by
  unfold Json.or
  split
  · rfl
  · rename_i h
    rw [Bool.not_eq_true] at h
    rw [h]
    rfl

/-- **The entry that is stored has the identity tuple exactly when the tuple is supplied.** -/
theorem payload_complete_iff {t : UnicodeTables} {checked : Checked} {metadata current : Dict}
    {directories : List String} {value : Dict}
    (h : payload t checked metadata current directories = .ok value) :
    IsComplete (.object value) ↔
      (checked.mode = .vnextArtifactReady → Supplied t metadata current) := by
  simp only [payload, bind_eq_ok, pure_eq_ok] at h
  obtain ⟨schema, hschema, names, -, rfl⟩ := h
  have hasset := good_merged (rfl : Json.truthy (.text "") = false) metadata current
    "asset_identity"
  have hpos := good_merged (rfl : isPositive t (.int 0) = false) metadata current "sidecar_schema"
  have hscan := good_merged (rfl : isFilled .null = false) metadata current "scan_id"
  have hmode : Json.text checked.mode.text = .text ReportMode.vnextArtifactReady.text ↔
      checked.mode = .vnextArtifactReady := by
    cases checked.mode <;> simp [ReportMode.text]
  have hschema' : (∃ n : Int, Json.int schema = .int n ∧ 0 < n) ↔
      isPositive t (merged metadata current "sidecar_schema" (.int 0)) = true := by
    unfold isPositive
    rw [hschema]
    simp
  simp only [IsComplete, Json.get, Json.getD, lookup_cons_eq, Supplied]
  simp only [← hasset, ← hpos, ← hscan, ← hmode, ← hschema']
  simp [truthy_or_empty]

/-- A pruning leaves complete entries. -/
theorem isComplete_prune {st : Registry} {disk : Disk}
    (h : ∀ id v, st.files.get? id = some v → IsComplete v) {id : ReportId} {v : Json}
    (hv : (st.prune disk).1.files.get? id = some v) : IsComplete v := by
  rcases prune_cases hv with ⟨hv, -⟩ | ⟨e, he, -, -, rfl⟩
  · exact h id v hv
  · simp only [IsComplete]
    rw [get_toDict _ _ _ (by decide) (by decide), get_toDict _ _ _ (by decide) (by decide),
      get_toDict _ _ _ (by decide) (by decide), get_toDict _ _ _ (by decide) (by decide)]
    rcases listed_cases he with he | ⟨-, he⟩
    · obtain ⟨directories, rfl⟩ := legacy_eq he
      intro hmode
      cases hmode
    · exact h id _ (loadEntry_eq he).1

/-! ## `register` -/

/-- The keys of the entry that the pruning leaves. -/
def Registry.currentFields (st : Registry) (disk : Disk) (id : ReportId) : Dict :=
  (((st.cleared disk).loadEntry disk id).map Entry.fields).getD []

/-- The directories of the entry that the pruning leaves. -/
def Registry.leftDirectories (st : Registry) (disk : Disk) (id : ReportId) : List String :=
  (st.cleared disk).existingDirectories disk id

/-- The call is accepted and stores `value`. -/
structure Accepted (t : UnicodeTables) (st : Registry) (disk : Disk) (reportId : String)
    (directories : List Json) (metadata : Dict) (checked : Checked) (value : Dict) : Prop where
  /-- The checks pass. -/
  check : st.check t disk reportId directories metadata = .ok checked
  /-- There is a directory. -/
  directories : checked.directories ≠ []
  /-- No other root is registered, or it is to be replaced. -/
  root : st.leftDirectories disk checked.id = [] ∨
    SameSet (st.leftDirectories disk checked.id) checked.directories ∨
    (Json.get metadata "replace").truthy = true
  /-- What is stored. -/
  payload : payload t checked metadata (st.currentFields disk checked.id)
    ((if st.leftDirectories disk checked.id ≠ [] ∧
        ¬ SameSet (st.leftDirectories disk checked.id) checked.directories then []
      else st.leftDirectories disk checked.id) ++ checked.directories).eraseDups = .ok value

/-- **The ends of a call**: it is refused before anything is written or behind the pruning, it has
no directory to register, or it stores an entry. -/
theorem register_cases (t : UnicodeTables) (st : Registry) (disk : Disk) (reportId : String)
    (directories : List Json) (metadata : Dict) :
    (∃ e, st.check t disk reportId directories metadata = .error e ∧
      st.register t disk reportId directories metadata = (.error e, st)) ∨
    (∃ checked, st.check t disk reportId directories metadata = .ok checked ∧
      checked.directories = [] ∧
      st.register t disk reportId directories metadata = (.ok none, st)) ∨
    (∃ checked e, st.check t disk reportId directories metadata = .ok checked ∧
      checked.directories ≠ [] ∧
      st.register t disk reportId directories metadata = (.error e, st.cleared disk)) ∨
    ∃ checked value, Accepted t st disk reportId directories metadata checked value ∧
      st.register t disk reportId directories metadata = (.ok (some value),
        { st.cleared disk with files := (st.cleared disk).files.put checked.id (.object value) }) := by
  unfold Registry.register
  split
  · rename_i e hcheck
    exact Or.inl ⟨e, hcheck, rfl⟩
  · rename_i checked hcheck
    split
    · rename_i hdirs
      exact Or.inr (Or.inl ⟨checked, hcheck, hdirs, rfl⟩)
    · rename_i hdirs
      refine Or.inr (Or.inr ?_)
      unfold Registry.store
      dsimp only
      split
      · exact Or.inl ⟨checked, _, hcheck, hdirs, rfl⟩
      · rename_i hroot
        split
        · exact Or.inl ⟨checked, _, hcheck, hdirs, rfl⟩
        · rename_i value hvalue
          refine Or.inr ⟨checked, value, ⟨hcheck, hdirs, ?_, hvalue⟩, rfl⟩
          rw [not_and_or, not_and_or, not_not, not_not, Bool.not_eq_false] at hroot
          rcases hroot with (h | h) | h
          · exact Or.inl h
          · exact Or.inr (Or.inl h)
          · exact Or.inr (Or.inr h)

/-- An accepted call stores what `Accepted` says. -/
theorem Accepted.register_eq {t : UnicodeTables} {st : Registry} {disk : Disk} {reportId : String}
    {directories : List Json} {metadata : Dict} {checked : Checked} {value : Dict}
    (h : Accepted t st disk reportId directories metadata checked value) :
    st.register t disk reportId directories metadata = (.ok (some value),
      { st.cleared disk with files := (st.cleared disk).files.put checked.id (.object value) }) := by
  have hroot := h.root
  have hpayload := h.payload
  unfold Registry.register
  rw [h.check]
  dsimp only
  rw [if_neg h.directories]
  unfold Registry.store
  dsimp only
  rw [if_neg]
  · split
    · rename_i e he
      exact absurd (he.symm.trans hpayload) (by simp)
    · rename_i v hv
      obtain rfl : v = value := Except.ok.inj (hv.symm.trans hpayload)
      rfl
  · rintro ⟨⟨hne, hset⟩, hreplace⟩
    rcases hroot with h | h | h
    · exact hne h
    · exact hset h
    · rw [hreplace] at h
      cases h

/-- The directories of the entry that is stored. -/
theorem Accepted.recordedDirectories_eq {t : UnicodeTables} {st : Registry} {disk : Disk}
    {reportId : String} {directories : List Json} {metadata : Dict} {checked : Checked}
    {value : Dict} (h : Accepted t st disk reportId directories metadata checked value) :
    recordedDirectories (.object value) =
      ((if st.leftDirectories disk checked.id ≠ [] ∧
          ¬ SameSet (st.leftDirectories disk checked.id) checked.directories then []
        else st.leftDirectories disk checked.id) ++ checked.directories).eraseDups := by
  have hp := h.payload
  simp only [ReportRegistry.payload, bind_eq_ok, pure_eq_ok] at hp
  obtain ⟨schema, -, names, -, rfl⟩ := hp
  exact recordedDirectories_array rfl

end ReportRegistry

end FosCoverage
