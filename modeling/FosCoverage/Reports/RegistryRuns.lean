import FosCoverage.Reports.RegistrySpec

/-!
# Runs of the registry

Calls of `register` and `prune` in any order, each against a file system of its own: directories
and sidecars come and go between two calls, and so may the list of the format before.

* A `Ledger` is a registry that also records, for each report, the directories of the registration
  its entry comes from.  A registration that finds an entry and does not replace it leaves the
  record alone; nothing the code does reads it.
* `Sound` is what every state of the registry should satisfy, `Covered` the condition on one call:
  a call that stores an entry in the VNEXT mode must supply the identity tuple.
* **`covered_iff_sound`**: along a run every call is covered exactly when every state is sound.
-/

set_option autoImplicit false

namespace FosCoverage

open Outcome Relational

namespace ReportRegistry

/-! ## Calls and the record of registrations -/

/-- A call, with the file system it meets. -/
inductive Call
  /-- `register(report_id, directories, **metadata)` -/
  | register (disk : Disk) (reportId : String) (directories : List Json) (metadata : Dict)
  /-- `prune()` -/
  | prune (disk : Disk)

/-- The registry after a call, whatever the call answers. -/
def Registry.exec (t : UnicodeTables) (st : Registry) : Call → Registry
  | .register disk reportId directories metadata =>
    (st.register t disk reportId directories metadata).2
  | .prune disk => (st.prune disk).1

/-- A registry and where its entries come from. -/
structure Ledger where
  /-- The registry. -/
  registry : Registry
  /-- The directories of the registration an entry comes from, as they resolved when the entry was
  last written. -/
  origin : ReportId → List String

/-- A registry whose entries count as registered with the directories they name. -/
def Ledger.ofRegistry (st : Registry) : Ledger :=
  ⟨st, fun id => ((st.files.get? id).map recordedDirectories).getD []⟩

/-- The record after a pruning.  An entry that is written anew resolves its directories, or it comes
from the list of the format before. -/
def prunedOrigin (st : Registry) (origin : ReportId → List String) (disk : Disk) (id : ReportId) :
    List String :=
  match st.listed disk id with
  | some e =>
    if e.kept disk id ≠ e.directories then
      match (st.legacy disk).get? id with
      | some old => old.directories
      | none => (origin id).map disk.realpath
    else origin id
  | none => origin id

/-- The record after a call that reached the pruning and stored an entry. -/
def storedOrigin (st : Registry) (origin : ReportId → List String) (disk : Disk)
    (checked : Checked) : ReportId → List String :=
  let left := st.leftDirectories disk checked.id
  Function.update origin checked.id
    (if left ≠ [] ∧ SameSet left checked.directories then (origin checked.id).map disk.realpath
    else checked.directories)

/-- The record after a call. -/
def Ledger.nextOrigin (t : UnicodeTables) (l : Ledger) : Call → ReportId → List String
  | .prune disk => prunedOrigin l.registry l.origin disk
  | .register disk reportId directories metadata =>
    match l.registry.check t disk reportId directories metadata with
    | .error _ => l.origin
    | .ok checked =>
      if checked.directories = [] then l.origin
      else
        let origin := prunedOrigin { l.registry with made := true } l.origin disk
        match (l.registry.register t disk reportId directories metadata).1 with
        | .ok _ => storedOrigin l.registry origin disk checked
        | .error _ => origin

/-- A call on the ledger. -/
def Ledger.exec (t : UnicodeTables) (l : Ledger) (c : Call) : Ledger :=
  ⟨l.registry.exec t c, l.nextOrigin t c⟩

/-! ## Sound registries -/

/-- What holds of the registry in a state. -/
structure Sound (t : UnicodeTables) (l : Ledger) : Prop where
  /-- A VNEXT entry has the identity tuple. -/
  complete : ∀ id v, l.registry.files.get? id = some v → IsComplete v
  /-- The directories of an entry come from one registration, -/
  origin : ∀ id v, l.registry.files.get? id = some v → recordedDirectories v ⊆ l.origin id
  /-- which only a call with `replace` takes the place of. -/
  replaced : ∀ disk reportId directories metadata value st,
    l.registry.register t disk reportId directories metadata = (.ok (some value), st) →
    (Json.get metadata "replace").truthy = false →
    ∀ id, validateReportId reportId = .ok id → l.registry.leftDirectories disk id = [] ∨
      SameSet (l.registry.leftDirectories disk id) (recordedDirectories (.object value))
  /-- A call that raises leaves the registry as it was or pruned. -/
  raises : ∀ disk reportId directories metadata e st,
    l.registry.register t disk reportId directories metadata = (.error e, st) →
    st = l.registry ∨ st = l.registry.cleared disk
  /-- A root is resolved where exactly one directory of the entry is there with the sidecar of the
  report, if that is required. -/
  resolves : ∀ disk (id : ReportId) root,
    l.registry.resolveExactRoot disk id.text = .ok (some root) →
    ∃ e, l.registry.loadEntry disk id = some e ∧ ∃ before after,
      e.directories = before ++ root :: after ∧
      disk.isDir root = true ∧
      (requiresSidecar disk e root = true → disk.isDir (sidecarDir root id.text) = true) ∧
      ∀ d ∈ before ++ after, ¬ (disk.isDir d = true ∧
        (requiresSidecar disk e d = true → disk.isDir (sidecarDir d id.text) = true))

/-- The condition on a call: when it stores an entry in the VNEXT mode, each key of the identity
tuple is given with a value that is not empty, or is left out while the entry left after the pruning
has it. -/
def Covered (t : UnicodeTables) (st : Registry) : Call → Prop
  | .prune _ => True
  | .register disk reportId directories metadata =>
    ∀ checked value, Accepted t st disk reportId directories metadata checked value →
      checked.mode = .vnextArtifactReady →
      Supplied t metadata (st.currentFields disk checked.id)

/-! ## One call -/

theorem Accepted.id_eq {t : UnicodeTables} {st : Registry} {disk : Disk} {reportId : String}
    {directories : List Json} {metadata : Dict} {checked : Checked} {value : Dict}
    (h : Accepted t st disk reportId directories metadata checked value) :
    validateReportId reportId = .ok checked.id := by
  have hcheck := h.check
  unfold Registry.check at hcheck
  obtain ⟨id, hid, hcheck⟩ := bind_eq_ok.1 hcheck
  obtain ⟨⟨requested, explicit⟩, -, hcheck⟩ := bind_eq_ok.1 hcheck
  obtain ⟨mode, -, hcheck⟩ := bind_eq_ok.1 hcheck
  obtain ⟨schema, -, hcheck⟩ := bind_eq_ok.1 hcheck
  dsimp only at hcheck
  split at hcheck
  · simp only [bind_eq_ok, pure_eq_ok] at hcheck
    obtain ⟨_, -, _, -, _, -, _, -, rfl⟩ := hcheck
    exact hid
  · cases hcheck
    exact hid

/-- A call stores one value at most. -/
theorem Accepted.unique {t : UnicodeTables} {st : Registry} {disk : Disk} {reportId : String}
    {directories : List Json} {metadata : Dict} {checked : Checked} {value : Dict}
    (h : Accepted t st disk reportId directories metadata checked value) {value' : Dict}
    {st' : Registry}
    (h' : st.register t disk reportId directories metadata = (.ok (some value'), st')) :
    value' = value := by
  rw [h.register_eq] at h'
  cases h'
  rfl

/-- An accepted call without `replace` names the directories that are there. -/
theorem Accepted.sameSet {t : UnicodeTables} {st : Registry} {disk : Disk} {reportId : String}
    {directories : List Json} {metadata : Dict} {checked : Checked} {value : Dict}
    (h : Accepted t st disk reportId directories metadata checked value)
    (hreplace : (Json.get metadata "replace").truthy = false) :
    st.leftDirectories disk checked.id = [] ∨
      SameSet (st.leftDirectories disk checked.id) (recordedDirectories (.object value)) := by
  rcases h.root with hroot | hroot | hroot
  · exact Or.inl hroot
  · refine Or.inr ?_
    rw [h.recordedDirectories_eq, if_neg fun hn => hn.2 hroot]
    constructor
    · intro d hd
      exact List.mem_eraseDups.2 (List.mem_append_left _ hd)
    · intro d hd
      rcases List.mem_append.1 (List.mem_eraseDups.1 hd) with hd | hd
      · exact hd
      · exact hroot.2 hd
  · rw [hreplace] at hroot
    cases hroot

/-- The entries after a pruning come from the recorded registrations. -/
theorem origin_prune {st : Registry} {origin : ReportId → List String} {disk : Disk}
    (h : ∀ id v, st.files.get? id = some v → recordedDirectories v ⊆ origin id) {id : ReportId}
    {v : Json} (hv : (st.prune disk).1.files.get? id = some v) :
    recordedDirectories v ⊆ prunedOrigin st origin disk id := by
  unfold prunedOrigin
  rcases prune_cases hv with ⟨hv, hsame⟩ | ⟨e, he, -, hne, rfl⟩
  · cases hl : st.listed disk id with
    | none => exact h id v hv
    | some e =>
      dsimp only
      rw [if_neg (not_not.2 (hsame e hl))]
      exact h id v hv
  · rw [he]
    dsimp only
    rw [if_pos hne, recordedDirectories_toDict]
    have hkept : e.kept disk id ⊆ e.directories := List.filter_subset_self _
    rcases listed_cases he with hl | ⟨hl, hload⟩
    · rw [hl]
      exact hkept
    · rw [hl]
      obtain ⟨hfile, hsub⟩ := loadEntry_eq hload
      exact fun d hd => List.map_subset _ (h id _ hfile) (hsub (hkept hd))

/-- The directories of the entry left after a pruning, as they resolve. -/
theorem leftDirectories_subset {st : Registry} {origin : ReportId → List String} {disk : Disk}
    (h : ∀ id v, (st.cleared disk).files.get? id = some v → recordedDirectories v ⊆ origin id)
    (id : ReportId) : st.leftDirectories disk id ⊆ (origin id).map disk.realpath := by
  intro d hd
  unfold Registry.leftDirectories Registry.existingDirectories at hd
  rw [List.mem_eraseDups] at hd
  cases hload : (st.cleared disk).loadEntry disk id with
  | none =>
    rw [hload] at hd
    cases hd
  | some e =>
    rw [hload] at hd
    obtain ⟨hfile, hsub⟩ := loadEntry_eq hload
    exact List.map_subset _ (h id _ hfile) (hsub hd)

/-- The entry a call stores comes from the registration that is recorded for it. -/
theorem Accepted.origin_subset {t : UnicodeTables} {st : Registry} {disk : Disk} {reportId : String}
    {directories : List Json} {metadata : Dict} {checked : Checked} {value : Dict}
    (h : Accepted t st disk reportId directories metadata checked value)
    {origin : ReportId → List String}
    (ho : ∀ id v, (st.cleared disk).files.get? id = some v → recordedDirectories v ⊆ origin id) :
    recordedDirectories (.object value) ⊆ storedOrigin st origin disk checked checked.id := by
  rw [h.recordedDirectories_eq]
  unfold storedOrigin
  rw [Function.update_self]
  intro d hd
  rw [List.mem_eraseDups, List.mem_append] at hd
  by_cases hset : st.leftDirectories disk checked.id ≠ [] ∧
      SameSet (st.leftDirectories disk checked.id) checked.directories
  · rw [if_pos hset]
    rw [if_neg fun hn => hn.2 hset.2] at hd
    apply leftDirectories_subset ho
    rcases hd with hd | hd
    · exact hd
    · exact hset.2.2 hd
  · rw [if_neg hset]
    rcases hd with hd | hd
    · split at hd
      · cases hd
      · rename_i hn
        by_cases hleft : st.leftDirectories disk checked.id = []
        · rw [hleft] at hd
          cases hd
        · exact absurd ⟨hleft, not_not.1 fun hs => hn ⟨hleft, hs⟩⟩ hset
    · exact hd

/-! ## What holds in every state -/

theorem strip_eq_self {s : List Char} (h : ∀ c ∈ s, Text.isSpace c = false) : Text.strip s = s := by
  have key : ∀ l : List Char, (∀ c ∈ l, Text.isSpace c = false) →
      l.dropWhile Text.isSpace = l := by
    intro l hl
    cases l with
    | nil => rfl
    | cons c l => rw [List.dropWhile_cons_of_neg (by rw [hl c List.mem_cons_self]; decide)]
  unfold Text.strip Text.rstrip
  rw [key s h, key s.reverse fun c hc => h c (List.mem_reverse.1 hc), List.reverse_reverse]

theorem isSpace_of_isIdChar {c : Char} (h : isIdChar c = true) : Text.isSpace c = false := by
  cases hs : Text.isSpace c with
  | false => rfl
  | true =>
    have ha := Text.WordTable.asciiOnly.space c hs
    simp only [isIdChar, Bool.or_eq_true, beq_iff_eq] at h
    rcases h with (h | rfl) | rfl
    · exact absurd h (by rw [show c.isAlphanum = false from ha]; decide)
    · exact absurd hs (by decide)
    · exact absurd hs (by decide)

/-- An id that was validated is valid. -/
theorem validateReportId_text (id : ReportId) : validateReportId id.text = .ok id := by
  have hform := id.valid
  have hstrip : Text.strip id.text.toList = id.text.toList := by
    apply strip_eq_self
    intro c hc
    simp only [isReportId, Bool.and_eq_true, List.all_eq_true] at hform
    exact isSpace_of_isIdChar (hform.2 c hc)
  unfold validateReportId
  dsimp only
  rw [dif_pos (by rw [hstrip]; exact hform)]
  cases id with
  | mk text valid =>
    dsimp only at hstrip ⊢
    congr 1
    rw [ReportId.mk.injEq, hstrip, String.ofList_toList]

theorem filter_eq_singleton {p : String → Bool} {l : List String} {a : String}
    (h : l.filter p = [a]) : ∃ before after, l = before ++ a :: after ∧ p a = true ∧
      ∀ d ∈ before ++ after, p d = false := by
  obtain ⟨before, after, rfl, hbefore, ha, hafter⟩ := List.filter_eq_cons_iff.1 h
  refine ⟨before, after, rfl, ha, fun d hd => ?_⟩
  rcases List.mem_append.1 hd with hd | hd
  · exact Bool.eq_false_iff.2 (hbefore d hd)
  · exact Bool.eq_false_iff.2 (List.filter_eq_nil_iff.1 hafter d hd)

theorem isUsable_iff {disk : Disk} {reportId : String} {e : Entry} {d : String} :
    isUsable disk reportId e d = true ↔ disk.isDir d = true ∧
      (requiresSidecar disk e d = true → disk.isDir (sidecarDir d reportId) = true) := by
  unfold isUsable
  cases disk.isDir d <;> cases requiresSidecar disk e d <;> simp

theorem resolves (st : Registry) (disk : Disk) (id : ReportId) (root : String)
    (h : st.resolveExactRoot disk id.text = .ok (some root)) :
    ∃ e, st.loadEntry disk id = some e ∧ ∃ before after,
      e.directories = before ++ root :: after ∧ disk.isDir root = true ∧
      (requiresSidecar disk e root = true → disk.isDir (sidecarDir root id.text) = true) ∧
      ∀ d ∈ before ++ after, ¬ (disk.isDir d = true ∧
        (requiresSidecar disk e d = true → disk.isDir (sidecarDir d id.text) = true)) := by
  unfold Registry.resolveExactRoot at h
  rw [validateReportId_text, ok_bind] at h
  split at h
  · cases h
  · rename_i e hload
    split at h
    · rename_i root' hfilter
      cases h
      obtain ⟨before, after, hsplit, hroot, hother⟩ := filter_eq_singleton hfilter
      obtain ⟨hdir, hsidecar⟩ := isUsable_iff.1 hroot
      refine ⟨e, hload, before, after, hsplit, hdir, hsidecar, fun d hd husable => ?_⟩
      exact absurd (hother d hd) (by rw [isUsable_iff.2 husable]; decide)
    · cases h

/-- The parts of `Sound` that no run can break. -/
theorem sound_of {t : UnicodeTables} {l : Ledger}
    (hc : ∀ id v, l.registry.files.get? id = some v → IsComplete v)
    (ho : ∀ id v, l.registry.files.get? id = some v → recordedDirectories v ⊆ l.origin id) :
    Sound t l where
  complete := hc
  origin := ho
  replaced := by
    intro disk reportId directories metadata value st hok hreplace id hid
    rcases register_cases t l.registry disk reportId directories metadata with
      ⟨_, -, h⟩ | ⟨_, -, -, h⟩ | ⟨_, _, -, -, h⟩ | ⟨checked, value', hacc, -⟩
    · rw [h] at hok
      cases hok
    · rw [h] at hok
      cases hok
    · rw [h] at hok
      cases hok
    · obtain rfl := hacc.unique hok
      obtain rfl : checked.id = id := Except.ok.inj (hacc.id_eq.symm.trans hid)
      exact hacc.sameSet hreplace
  raises := by
    intro disk reportId directories metadata e st herr
    rcases register_cases t l.registry disk reportId directories metadata with
      ⟨_, -, h⟩ | ⟨_, -, -, h⟩ | ⟨_, _, -, -, h⟩ | ⟨_, _, -, h⟩
    · rw [h] at herr
      cases herr
      exact Or.inl rfl
    · rw [h] at herr
      cases herr
    · rw [h] at herr
      cases herr
      exact Or.inr rfl
    · rw [h] at herr
      cases herr
  resolves := resolves l.registry

/-! ## Runs -/

/-- The record after each end of a call of `register`. -/
theorem nextOrigin_eq {t : UnicodeTables} {l : Ledger} {disk : Disk} {reportId : String}
    {directories : List Json} {metadata : Dict} {checked : Checked} {value : Dict}
    (h : Accepted t l.registry disk reportId directories metadata checked value) :
    l.nextOrigin t (.register disk reportId directories metadata) =
      storedOrigin l.registry (prunedOrigin { l.registry with made := true } l.origin disk) disk
        checked := by
  unfold Ledger.nextOrigin
  dsimp only
  rw [h.check, h.register_eq]
  dsimp only
  rw [if_neg h.directories]

/-- A call that stores nothing is covered. -/
theorem covered_of_nothing {t : UnicodeTables} {r : Registry} {disk : Disk} {reportId : String}
    {directories : List Json} {metadata : Dict}
    (h : ∀ value, (r.register t disk reportId directories metadata).1 ≠ .ok (some value)) :
    Covered t r (.register disk reportId directories metadata) := by
  intro checked value hacc
  exact absurd (congrArg Prod.fst hacc.register_eq) (h value)

/-- An accepted call stores its payload, and leaves a sound registry exactly when it is covered. -/
theorem sound_accepted_iff {t : UnicodeTables} {l : Ledger} {disk : Disk} {reportId : String}
    {directories : List Json} {metadata : Dict} {checked : Checked} {value : Dict}
    (hcleared : ∀ id v, (l.registry.cleared disk).files.get? id = some v → IsComplete v)
    (horigin : ∀ id v, (l.registry.cleared disk).files.get? id = some v →
      recordedDirectories v ⊆ prunedOrigin { l.registry with made := true } l.origin disk id)
    (hacc : Accepted t l.registry disk reportId directories metadata checked value) :
    Sound t (l.exec t (.register disk reportId directories metadata)) ↔
      Covered t l.registry (.register disk reportId directories metadata) := by
  have hr := hacc.register_eq
  have hexec : (l.exec t (.register disk reportId directories metadata)).registry =
      { l.registry.cleared disk with
        files := (l.registry.cleared disk).files.put checked.id (.object value) } := by
    change (l.registry.register t disk reportId directories metadata).2 = _
    rw [hr]
  have hnext := nextOrigin_eq hacc
  constructor
  · intro hs checked' value' hacc'
    obtain rfl : value = value' := (hacc'.unique hr)
    obtain rfl : checked = checked' := Except.ok.inj (hacc.check.symm.trans hacc'.check)
    refine (payload_complete_iff hacc.payload).1 (hs.complete checked.id _ ?_)
    rw [hexec, Keyed.get?_put, if_pos rfl]
  · intro hcov
    apply sound_of
    · intro id v hv
      rw [hexec, Keyed.get?_put] at hv
      split at hv
      · cases hv
        exact (payload_complete_iff hacc.payload).2 (hcov checked value hacc)
      · exact hcleared id v hv
    · intro id v hv
      rw [hexec, Keyed.get?_put] at hv
      change recordedDirectories v ⊆
        l.nextOrigin t (.register disk reportId directories metadata) id
      rw [hnext]
      split at hv
      · rename_i hid
        cases hv
        rw [hid]
        exact hacc.origin_subset horigin
      · rename_i hid
        unfold storedOrigin
        rw [Function.update_of_ne hid]
        exact horigin id v hv

/-- **One call**: where the registry is sound, it is sound after the call exactly when the call is
covered. -/
theorem sound_exec_iff {t : UnicodeTables} {l : Ledger} (h : Sound t l) (c : Call) :
    Sound t (l.exec t c) ↔ Covered t l.registry c := by
  cases c with
  | prune disk =>
    refine iff_of_true ?_ trivial
    exact sound_of (fun id v hv => isComplete_prune h.complete hv)
      fun id v hv => origin_prune h.origin hv
  | register disk reportId directories metadata =>
    -- the registry as `register` finds it when it stores
    let made : Registry := { l.registry with made := true }
    have hcomplete : ∀ id v, made.files.get? id = some v → IsComplete v := h.complete
    have hmade : ∀ id v, made.files.get? id = some v → recordedDirectories v ⊆ l.origin id :=
      h.origin
    have hcleared : ∀ id v, (l.registry.cleared disk).files.get? id = some v → IsComplete v :=
      fun id v => isComplete_prune hcomplete
    have horigin : ∀ id v, (l.registry.cleared disk).files.get? id = some v →
        recordedDirectories v ⊆ prunedOrigin made l.origin disk id :=
      fun id v => origin_prune hmade
    rcases register_cases t l.registry disk reportId directories metadata with
      ⟨e, hcheck, hr⟩ | ⟨checked, hcheck, hdirs, hr⟩ | ⟨checked, e, hcheck, hdirs, hr⟩ |
      ⟨checked, value, hacc, _⟩
    · have hexec : l.exec t (.register disk reportId directories metadata) = l := by
        unfold Ledger.exec Registry.exec Ledger.nextOrigin
        dsimp only
        rw [hr, hcheck]
      rw [hexec]
      exact iff_of_true h (covered_of_nothing (by rw [hr]; nofun))
    · have hexec : l.exec t (.register disk reportId directories metadata) = l := by
        unfold Ledger.exec Registry.exec Ledger.nextOrigin
        dsimp only
        rw [hr, hcheck]
        dsimp only
        rw [if_pos hdirs]
      rw [hexec]
      exact iff_of_true h (covered_of_nothing (by rw [hr]; nofun))
    · have hexec : l.exec t (.register disk reportId directories metadata) =
          ⟨l.registry.cleared disk, prunedOrigin made l.origin disk⟩ := by
        unfold Ledger.exec Registry.exec Ledger.nextOrigin
        dsimp only
        rw [hr, hcheck]
        dsimp only
        rw [if_neg hdirs]
      rw [hexec]
      exact iff_of_true (sound_of hcleared horigin) (covered_of_nothing (by rw [hr]; nofun))
    · exact sound_accepted_iff hcleared horigin hacc

/-- The ledger after some calls. -/
def Ledger.run (t : UnicodeTables) (start : Registry) (calls : List Call) : Ledger :=
  Trace.run (Ledger.exec t) (Ledger.ofRegistry start) calls

theorem sound_ofRegistry {t : UnicodeTables} {start : Registry}
    (h : ∀ id v, start.files.get? id = some v → IsComplete v) : Sound t (.ofRegistry start) := by
  apply sound_of h
  intro id v hv
  change recordedDirectories v ⊆ ((start.files.get? id).map recordedDirectories).getD []
  rw [show start.files.get? id = some v from hv]
  exact fun d hd => hd

/-- **The registry keeps what it promises exactly where the calls are covered.**  Every state of a
run is sound when every call meets the condition in the state it is made in, and only then. -/
theorem covered_iff_sound (t : UnicodeTables) (start : Registry)
    (h : ∀ id v, start.files.get? id = some v → IsComplete v) (calls : List Call) :
    Trace.Along (Ledger.exec t) (fun l c => Covered t l.registry c) (.ofRegistry start) calls ↔
      ∀ calls', calls' <+: calls → Sound t (Ledger.run t start calls') := by
  refine Trace.along_iff_forall_inv (I := Sound t) ?_ (sound_ofRegistry h) calls
  exact fun _ c hs => sound_exec_iff hs c

/-- A file system with one report and its sidecar. -/
def oneReport : Disk where
  realpath := id
  isDir path := path = "/out" ∨ path = "/out/.source_cache" ∨ path = "/out/.source_cache/r"
  isLink _ := false
  legacy := none

/-- The first registration of that report. -/
def firstCall : Call :=
  .register oneReport "r" [.text "/out"]
    [("report_mode", .text "VNEXT_ARTIFACT_READY"), ("report_root", .text "/out"),
      ("asset_identity", .text "build-1"), ("sidecar_schema", .int 2), ("scan_id", .int 1)]

/-- A second one, by a caller that has no asset identity and hands over an empty one. -/
def secondCall : Call :=
  .register oneReport "r" [.text "/out"]
    [("sidecar_required", .bool true), ("report_root", .text "/out"), ("scan_id", .int 2),
      ("source_signature", .text ""), ("asset_identity", .text ""), ("sidecar_schema", .int 2),
      ("report_mode", .null)]

/-- A first registration is covered: the entry is stored, and the registry is sound. -/
theorem firstCall_sound :
    Sound .asciiOnly (Ledger.run .asciiOnly .empty [firstCall, .prune oneReport]) ∧
    ((Ledger.run .asciiOnly .empty [firstCall, .prune oneReport]).registry.files.get?
      ⟨"r", by decide⟩).isSome = true := by
  constructor
  · refine (covered_iff_sound .asciiOnly .empty (fun _ _ hv => nomatch hv)
      [firstCall, .prune oneReport]).1 ⟨?_, trivial, trivial⟩ _ (List.prefix_refl _)
    exact fun _ _ _ _ => ⟨rfl, rfl, rfl⟩
  · decide +kernel

/-- The second registration passes the checks with the asset identity of the first, and stores its
own empty one. -/
theorem secondCall_unsound :
    ¬ ∀ calls, Sound .asciiOnly (Ledger.run .asciiOnly .empty calls) := by
  intro h
  have hs := h [firstCall, secondCall]
  have hstored : ((Ledger.run .asciiOnly .empty [firstCall, secondCall]).registry.files.get?
      ⟨"r", by decide⟩).any (fun v => decide (¬ IsComplete v)) = true := by
    decide +kernel
  obtain ⟨v, hv, hincomplete⟩ := (Option.any_eq_true _ _).1 hstored
  exact of_decide_eq_true hincomplete (hs.complete _ v hv)

end ReportRegistry

end FosCoverage
