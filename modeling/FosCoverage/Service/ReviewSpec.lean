import FosCoverage.Service.Save

/-!
# What a review does

The counterpart of `Service.Save` for `confirm`, `reject` and `undo`.  Each of them rewrites single
relations in place: `setLink` is the one statement they share, and

* `confirm_inv` carries a property of the domain through all lines of a `confirm`;
* `reject_ok` and `undo_ok` give the domain after a `reject` and an `undo`.
-/

set_option autoImplicit false

namespace FosCoverage

open Relational Outcome

/-- An `UPDATE` of one relation by its id. -/
def setLink (links : Table Link) (id : Nat) (f : Link → Link) : Table Link :=
  links.updateWhere (fun k _ => k = id) f

section SetLink

variable {links : Table Link} {id : Nat} {f : Link → Link}

theorem get?_setLink (k : Nat) :
    (setLink links id f).get? k = (links.get? k).map fun q => if k = id then f q else q := by
  simp [setLink]

theorem get?_setLink_of_ne {k : Nat} (h : k ≠ id) :
    (setLink links id f).get? k = links.get? k := by
  rw [get?_setLink]
  simp [h]

theorem get?_setLink_self {q : Link} (h : links.get? id = some q) :
    (setLink links id f).get? id = some (f q) := by
  rw [get?_setLink, h]
  simp

/-- The rows after the update: the updated one, and the others. -/
theorem get?_setLink_some {k : Nat} {q : Link} (h : (setLink links id f).get? k = some q) :
    (k ≠ id ∧ links.get? k = some q) ∨ (∃ q₀, k = id ∧ links.get? id = some q₀ ∧ q = f q₀) := by
  rw [get?_setLink, Option.map_eq_some_iff] at h
  obtain ⟨q₀, hq₀, rfl⟩ := h
  by_cases hk : k = id
  · subst hk
    exact .inr ⟨q₀, rfl, hq₀, by simp⟩
  · exact .inl ⟨hk, by simpa [hk] using hq₀⟩

/-- An update that keeps the line of a relation is invisible to a search for another line. -/
theorem find?_setLink {p : Nat × Link → Bool} {q : Link} (hq : links.get? id = some q)
    (h₁ : p (id, q) = false) (h₂ : p (id, f q) = false) :
    (setLink links id f).rows.find? p = links.rows.find? p := by
  refine Keyed.find?_updateWhere fun r hr hid => ?_
  obtain rfl : r.1 = id := by simpa using hid
  have : r.2 = q := Option.some.inj ((Keyed.get?_eq_some_iff.2 hr).symm.trans hq)
  obtain ⟨k, q'⟩ := r
  dsimp only at this
  subst this
  exact ⟨h₁, h₂⟩

theorem evolves_setLink (h : ∀ q, links.get? id = some q → q.relationRevision <
    (f q).relationRevision) :
    Evolves Link.relationRevision links.toKeyed (setLink links id f).toKeyed := by
  refine Evolves.updateWhere fun k q hk hp => ?_
  obtain rfl : k = id := by simpa using hp
  exact h q hk

end SetLink

/-- The row of an active relation. -/
theorem activeLink_some {db : Db} {scanId lineId k : Nat} {q : Link}
    (h : db.activeLink scanId lineId = some (k, q)) :
    db.domain.links.get? k = some q ∧ q.scanId = scanId ∧ q.lineId = lineId ∧ q.isActive = true :=
  ⟨Keyed.get?_eq_some_iff.2 (List.mem_of_find?_eq_some h), by simpa using List.find?_some h⟩

theorem activeLink_none {db : Db} {scanId lineId : Nat} (h : db.activeLink scanId lineId = none)
    {k : Nat} {q : Link} (hk : db.domain.links.get? k = some q) :
    ¬ (q.scanId = scanId ∧ q.lineId = lineId ∧ q.isActive = true) := by
  have := List.find?_eq_none.1 h _ (Keyed.get?_eq_some_iff.1 hk)
  simpa using this

namespace InheritanceReviewService

open AnalysisDomainRepository AnalysisService

/-! ## Updates of one relation -/

/-- The relation a confirm leaves. -/
def confirmed (reviewer : String) (q : Link) : Link :=
  { q with
    reviewState := .manualConfirmed
    reviewedBy := reviewer
    relationRevision := q.relationRevision + 1 }

/-- The relation a reject leaves. -/
def rejected (q : Link) : Link :=
  { q with isActive := false, relationRevision := q.relationRevision + 1 }

/-- The relation an undo leaves. -/
def restored (q : Link) : Link :=
  { q with
    isActive := true
    reviewState := .inheritedPending
    relationRevision := q.relationRevision + 1 }

/-- The rejection an undo leaves. -/
def undone (x : Rejection) : Rejection :=
  { x with
    isActive := false
    terminalReason := some .undone
    rejectionRevision := x.rejectionRevision + 1 }

theorem finish_ok (db : Db) {db₁ db' : Db} {projectId scanId : Nat} {state : ProjectState}
    {files : List Nat} (h : finish db₁ projectId scanId state files = .ok db')
    (hfacts : db₁.facts = db.facts) (himports : db₁.imports = db.imports)
    (hprojects : db₁.projects = db.projects) (hnow : db₁.now = db.now) (huuid : db₁.uuid = db.uuid)
    (hstate : ∀ q, db₁.stateOf q = db.stateOf q) :
    Mutated db projectId db' ∧ db'.domain = db₁.domain :=
  mutated_of_rebuilt (FileStateService.rebuilt_of_ok h) hfacts himports hprojects hnow huuid hstate

theorem assertCurrent_ok {db db' : Db} {projectId scanId : Nat} {state : ProjectState}
    (h : assertCurrent db projectId scanId = .ok (db', state)) :
    state = db.stateOf projectId ∧ state.currentScanId.getD 0 = scanId ∧
    (∃ states, db' = { db with states := states }) ∧ ∀ q, db'.stateOf q = db.stateOf q := by
  simp only [assertCurrent, bind_eq_ok, pure_eq_ok,
    ProjectStateRepository.lockForUpdate, Prod.mk.injEq] at h
  obtain ⟨_, hcur, rfl, rfl⟩ := h
  exact ⟨rfl, require_eq_ok.1 hcur, ProjectStateRepository.ensure_eq db projectId,
    fun q => ProjectStateRepository.stateOf_ensure db projectId q⟩

/-! ## Confirm -/

/-- One line of a confirm, in terms of the domain. -/
def ConfirmStep (db : Db) (scanId : Nat) (reviewer : String) (lineId : Nat) (db' : Db) : Prop :=
  ∃ id q, db.activeLink scanId lineId = some (id, q) ∧ reviewable q = true ∧
    db' = { db with domain.links := setLink db.domain.links id (confirmed reviewer) }

theorem confirmStep_of_ok {scanId : Nat} {reviewer : String} {expectedMap : List (Nat × Nat)}
    {default : Option Nat} {db db' : Db} {lineId : Nat}
    (h : confirmLine scanId reviewer expectedMap default db lineId = .ok db') :
    ConfirmStep db scanId reviewer lineId db' := by
  simp only [confirmLine, bind_eq_ok, require_eq_ok, orFail_eq_ok, pure_eq_ok] at h
  obtain ⟨_, _, ⟨id, q⟩, hq, _, _, _, hr, rfl⟩ := h
  exact ⟨id, q, hq, hr, rfl⟩

/-- The loop of an accepted confirm, and what happens around it. -/
theorem confirm_loop {db db' : Db} {projectId scanId : Nat} {selected : List Nat}
    {expectedMap : List (Nat × Nat)} {default : Option Nat} {reviewer : String}
    (h : confirm db projectId scanId selected expectedMap default reviewer = .ok db') :
    ∃ states domain, (selected.filter (· ≠ 0)).foldlM
        (confirmLine scanId reviewer expectedMap default) { db with states := states } =
        .ok { db with states := states, domain := domain } ∧
      db'.domain = domain ∧ Mutated db projectId db' ∧
      (db.stateOf projectId).currentScanId.getD 0 = scanId := by
  simp only [confirm, bind_eq_ok, require_eq_ok] at h
  obtain ⟨_, _, _, _, ⟨db₁, state⟩, hcur, db₂, hfold, hfin⟩ := h
  obtain ⟨rfl, hscan, ⟨states, hdb₁⟩, hstate⟩ := assertCurrent_ok hcur
  obtain rfl : db₁ = { db with states := states } := hdb₁
  have hframe : ∃ domain, db₂ = { db with states := states, domain := domain } := by
    refine foldlM_inv (s := { db with states := states })
      (fun d : Db => ∃ domain, d = { db with states := states, domain := domain }) ?_
      ⟨db.domain, rfl⟩ hfold
    rintro d lineId d' _ ⟨domain, hd⟩ hok
    obtain ⟨id, q, _, _, rfl⟩ := confirmStep_of_ok hok
    rw [hd]
    exact ⟨_, rfl⟩
  obtain ⟨domain, rfl⟩ := hframe
  obtain ⟨hmut, hdom⟩ := finish_ok db hfin rfl rfl rfl rfl rfl hstate
  exact ⟨states, domain, hfold, hdom, hmut, hscan⟩

/-- A property of the domain that every confirmed line keeps is kept by the whole confirm. -/
theorem confirm_inv {db db' : Db} {projectId scanId : Nat} {selected : List Nat}
    {expectedMap : List (Nat × Nat)} {default : Option Nat} {reviewer : String}
    (h : confirm db projectId scanId selected expectedMap default reviewer = .ok db')
    (P : Domain → Prop)
    (step : ∀ (d : Db) (lineId : Nat) (d' : Db), d.facts = db.facts → lineId ∈ selected →
      P d.domain → ConfirmStep d scanId reviewer lineId d' → P d'.domain)
    (h₀ : P db.domain) :
    P db'.domain ∧ Mutated db projectId db' ∧
      (db.stateOf projectId).currentScanId.getD 0 = scanId := by
  obtain ⟨states, domain, hfold, hdom, hmut, hscan⟩ := confirm_loop h
  have hP := foldlM_inv (s := { db with states := states })
    (fun d : Db => P d.domain ∧ d.facts = db.facts) ?_ ⟨h₀, rfl⟩ hfold
  · exact ⟨by rw [hdom]; exact hP.1, hmut, hscan⟩
  · rintro d lineId d' hl ⟨hPd, hf⟩ hok
    have hstep := confirmStep_of_ok hok
    refine ⟨step d lineId d' hf (List.mem_filter.1 hl).1 hPd hstep, ?_⟩
    obtain ⟨id, q, _, _, rfl⟩ := hstep
    exact hf

/-- What every turn establishes for its line and later turns keep holds of every selected line. -/
theorem confirm_each {db db' : Db} {projectId scanId : Nat} {selected : List Nat}
    {expectedMap : List (Nat × Nat)} {default : Option Nat} {reviewer : String}
    (h : confirm db projectId scanId selected expectedMap default reviewer = .ok db')
    (P : Domain → Prop) (Q : Nat → Domain → Prop)
    (step : ∀ (d : Db) (lineId : Nat) (d' : Db), P d.domain →
      confirmLine scanId reviewer expectedMap default d lineId = .ok d' →
      P d'.domain ∧ Q lineId d'.domain ∧ ∀ l, Q l d.domain → Q l d'.domain)
    (h₀ : P db.domain) : ∀ l ∈ selected, l ≠ 0 → Q l db'.domain := by
  obtain ⟨states, domain, hfold, hdom, _, _⟩ := confirm_loop h
  intro l hl hne
  rw [hdom]
  exact foldlM_each (s := { db with states := states }) (fun d : Db => P d.domain)
    (fun l d => Q l d.domain) (fun d lineId d' _ hd hok => step d lineId d' hd hok) h₀ hfold l
    (List.mem_filter.2 ⟨hl, by simpa using hne⟩)

/-! ## Reject and undo -/

/-- **What an accepted reject does.** -/
theorem reject_ok {db db' : Db} {projectId scanId lineId expected : Nat} {rejectedBy : String}
    (h : reject db projectId scanId lineId rejectedBy expected = .ok db') :
    ∃ id q, db.activeLink scanId lineId = some (id, q) ∧ reviewable q = true ∧
      db'.domain = { db.domain with
        rejections := db.domain.rejections.insert (rejectionOf scanId lineId id rejectedBy q)
        links := setLink db.domain.links id rejected } ∧
      Mutated db projectId db' ∧ (db.stateOf projectId).currentScanId.getD 0 = scanId ∧
      q.relationRevision = expected := by
  simp only [reject, bind_eq_ok, require_eq_ok, orFail_eq_ok] at h
  obtain ⟨⟨db₁, state⟩, hcur, ⟨id, q⟩, hq, _, hr, _, hrev, hfin⟩ := h
  obtain ⟨rfl, hscan, ⟨states, hdb₁⟩, hstate⟩ := assertCurrent_ok hcur
  obtain rfl : db₁ = { db with states := states } := hdb₁
  obtain ⟨hmut, hdom⟩ := finish_ok db hfin rfl rfl rfl rfl rfl hstate
  exact ⟨id, q, hq, hr, hdom, hmut, hscan, hrev⟩

/-- **What an accepted undo does.** -/
theorem undo_ok {db db' : Db} {projectId scanId lineId rejectionId er el : Nat}
    (h : undo db projectId scanId lineId rejectionId er el = .ok db') :
    ∃ x q, db.domain.rejections.get? rejectionId = some x ∧ x.scanId = scanId ∧
      x.lineId = lineId ∧ x.isActive = true ∧
      db.domain.links.get? x.rejectedRelationId = some q ∧ q.isActive = false ∧
      db'.domain = { db.domain with
        links := setLink db.domain.links x.rejectedRelationId restored
        rejections := db.domain.rejections.updateWhere (fun k _ => k = rejectionId) undone } ∧
      Mutated db projectId db' ∧ (db.stateOf projectId).currentScanId.getD 0 = scanId ∧
      q.relationRevision = el := by
  simp only [undo, bind_eq_ok, require_eq_ok, orFail_eq_ok] at h
  obtain ⟨⟨db₁, state⟩, hcur, x, hx, _, ⟨hs, hl, ha⟩, _, _, q, hq, _, hrev, _, hi, hfin⟩ := h
  obtain ⟨rfl, hscan, ⟨states, hdb₁⟩, hstate⟩ := assertCurrent_ok hcur
  obtain rfl : db₁ = { db with states := states } := hdb₁
  obtain ⟨hmut, hdom⟩ := finish_ok db hfin rfl rfl rfl rfl rfl hstate
  exact ⟨x, q, hx, hs, hl, ha, hq, hi, hdom, hmut, hscan, hrev⟩

end InheritanceReviewService

end FosCoverage
