import FosCoverage.Analysis.Undo
import FosCoverage.Inheritance.Relations

/-!
# What counts as analysed

The progress of a scan counts an uncovered line as confirmed by reading a join of four tables.  This
file says what the count means in terms of the history: the *verdict* of an operation on a line is
whether it makes the line count (`Mutation.verdict`), and `watch` carries the last verdict on every
line along a run.

`ProgressInv` says that the count and the last verdicts agree.  Reviews always keep it.  A save keeps
it unless it edits a record in place with a `conclusion_status` of its own: then the relation is
confirmed according to `status`, while the record says something else (`SaveAgrees`).
-/

set_option autoImplicit false

namespace FosCoverage

open Relational Outcome AnalysisDomainRepository

/-! ## Verdicts -/

/-- A non-draft save with a confirmed status. -/
def AnalysisService.Item.concludes (i : AnalysisService.Item) : Bool :=
  !i.draftFlag && confirmedStatuses.contains (i.status.getD "")

/-- What an accepted operation says about a line of a scan: nothing when it does not name the line,
else whether the line is analysed by a human act. -/
def Mutation.verdict (env : Env) (db : Db) (m : Mutation) (s l : Nat) : Option Bool :=
  match m with
  | .save _ scanId records reviewer _ | .editConfirm _ scanId records reviewer =>
    if scanId = s then
      match AnalysisService.resolveRecords env db scanId records reviewer with
      | .ok resolved => (resolved.find? fun r => r.lineId = l).map fun r => r.item.concludes
      | .error _ => none
    else none
  | .confirm _ scanId selected _ _ _ =>
    if scanId = s ∧ l ∈ selected then
      some ((readLine db s l).any fun v => confirmedStatuses.contains v.content.conclusionStatus)
    else none
  | .reject _ scanId lineId _ _ => if scanId = s ∧ lineId = l then some false else none
  | .undo _ scanId lineId _ _ _ => if scanId = s ∧ lineId = l then some false else none

/-- The verdict of an action; one that raises says nothing. -/
def Action.verdict (env : Env) (db : Db) (a : Action) (s l : Nat) : Option Bool :=
  match a with
  | .mutate m => if (m.apply env db).isOk then m.verdict env db s l else none
  | _ => none

/-- An action with the last verdict on every line. -/
def watch (env : Env) (st : Db × (Nat → Nat → Bool)) (a : Action) : Db × (Nat → Nat → Bool) :=
  (a.exec env st.1, fun s l => (a.verdict env st.1 s l).getD (st.2 s l))

/-! ## The count of one line -/

/-- A legacy row that counts when there is no relation. -/
def Analysis.concluded (a : Analysis) : Bool := confirmedStatuses.contains a.status && !a.isDraft

/-- A relation whose review is finished. -/
def Link.settled (q : Link) : Bool :=
  !decide (q.reviewState = .manualDraft ∨ q.reviewState = .inheritedPending)

/-- `_CONFIRMED_SQL` for a line of a scan. -/
def Db.confirmedLine (db : Db) (s l : Nat) : Bool :=
  match db.activeLink s l with
  | some (_, q) => confirmedStatuses.contains
      (((db.domain.records.get? q.recordId).map fun c => c.content.conclusionStatus).getD "") &&
      q.settled
  | none => (db.domain.analyses.get? l).any Analysis.concluded

theorem lineReview_confirmed (db : Db) (s l : Nat) (line : LineRow) :
    (db.lineReview s l line).confirmed = db.confirmedLine s l := by
  unfold LineReview.confirmed LineReview.status LineReview.isDraft Db.confirmedLine Db.lineReview
  cases ha : db.activeLink s l with
  | some r => rfl
  | none =>
    cases hl : db.domain.analyses.get? l with
    | some a => simp [Analysis.concluded]
    | none => simp [confirmedStatuses]

theorem confirmedLine_of_link {db : Db} {s l k : Nat} {q : Link} {c : Record}
    (hq : db.activeLink s l = some (k, q)) (hc : db.domain.records.get? q.recordId = some c) :
    db.confirmedLine s l =
      (confirmedStatuses.contains c.content.conclusionStatus && q.settled) := by
  simp [Db.confirmedLine, hq, hc]

/-- The count of a line depends on its relation, the record of that and its legacy row. -/
theorem confirmedLine_congr {db db' : Db} {s l : Nat} (hl : LinksOk db)
    (ha : db'.activeLink s l = db.activeLink s l)
    (hr : ∀ k q c, db.activeLink s l = some (k, q) → db.domain.records.get? q.recordId = some c →
      ∃ c', db'.domain.records.get? q.recordId = some c' ∧
        c'.content.conclusionStatus = c.content.conclusionStatus)
    (han : db.activeLink s l = none → db'.domain.analyses.get? l = db.domain.analyses.get? l) :
    db'.confirmedLine s l = db.confirmedLine s l := by
  cases hq : db.activeLink s l with
  | none =>
    unfold Db.confirmedLine
    rw [ha, hq, han hq]
  | some r =>
    obtain ⟨k, q⟩ := r
    obtain ⟨c, hc⟩ := Option.isSome_iff_exists.1 (hl.record k q (activeLink_some hq).1)
    obtain ⟨c', hc', hst⟩ := hr k q c hq hc
    rw [confirmedLine_of_link (ha.trans hq) hc', confirmedLine_of_link hq hc, hst]

/-! ## The invariant -/

/-- A line belongs to one scan only. -/
theorem scan_of_line {db : Db} {s s' l : Nat} (h : (lineOfScan db s l).isSome)
    (h' : (lineOfScan db s' l).isSome) : s = s' := by
  obtain ⟨line, hl⟩ := Option.isSome_iff_exists.1 h
  obtain ⟨line', hl'⟩ := Option.isSome_iff_exists.1 h'
  rw [AnalysisService.lineOfScan_eq_some] at hl hl'
  obtain ⟨h₁, file, hf, rfl⟩ := hl
  obtain ⟨h₂, file', hf', rfl⟩ := hl'
  obtain rfl : line = line' := Option.some.inj (h₁.symm.trans h₂)
  rw [Option.some.inj (hf.symm.trans hf')]

/-- A line nobody has covered. -/
def UncoveredLine (db : Db) (s l : Nat) : Prop :=
  ∃ line, lineOfScan db s l = some line ∧ isUncovered line.facts.coverageState = true

/-- The count and the last verdicts agree. -/
structure ProgressInv (db : Db) (analysed : Nat → Nat → Bool) : Prop where
  /-- Only lines of a scan have been analysed. -/
  line : ∀ s l, analysed s l = true → (lineOfScan db s l).isSome
  /-- An uncovered line counts exactly when the last verdict on it was positive. -/
  counted : ∀ s l, UncoveredLine db s l → db.confirmedLine s l = analysed s l
  /-- A legacy row belongs to a line with a relation.  One that would count on its own is hidden by
  an active relation that counts. -/
  legacy : ∀ l a, db.domain.analyses.get? l = some a →
    ∃ k q, db.domain.links.get? k = some q ∧ q.lineId = l ∧
      (UncoveredLine db q.scanId l → a.concluded = true →
        q.isActive = true ∧ q.reviewState = .manualConfirmed ∧
        db.confirmedLine q.scanId l = true)

namespace ProgressInv

variable {env : Env} {db db' : Db} {analysed : Nat → Nat → Bool}

theorem empty : ProgressInv Db.empty fun _ _ => false := by
  refine ⟨fun s l h => absurd h (by simp), ?_, fun l a h => by simp [Db.empty] at h⟩
  rintro s l ⟨line, hl, _⟩
  rw [AnalysisService.lineOfScan_eq_some] at hl
  simp [Db.empty] at hl

/-- A line that has a legacy row or a relation is not a new one. -/
theorem confirmedLine_new (h : ProgressInv db analysed) (hi : LinksOk db)
    (hfile : ∀ k f, db.facts.files.get? k = some f → db'.facts.files.get? k = some f)
    (hline : ∀ k l, db.facts.lines.get? k = some l → db'.facts.lines.get? k = some l) {s l : Nat}
    (hs : (lineOfScan db' s l).isSome) (hnew : ¬ (lineOfScan db s l).isSome) :
    db.confirmedLine s l = false := by
  have ofLink : ∀ k q, db.domain.links.get? k = some q → q.lineId = l → False := by
    rintro k q hk rfl
    obtain ⟨line, hl⟩ := Option.isSome_iff_exists.1 (hi.line k q hk)
    have hl' := lineOfScan_mono hfile hline hl
    obtain rfl := scan_of_line hs (by rw [hl']; rfl)
    exact hnew (by rw [hl]; rfl)
  have hlink : db.activeLink s l = none := by
    cases ha : db.activeLink s l with
    | none => rfl
    | some r =>
      obtain ⟨hk, _, hl, _⟩ := activeLink_some (show _ = some (r.1, r.2) from ha)
      exact absurd hl (ofLink _ _ hk)
  have hrow : db.domain.analyses.get? l = none := by
    cases ha : db.domain.analyses.get? l with
    | none => rfl
    | some a =>
      obtain ⟨k, q, hk, hl, _⟩ := h.legacy l a ha
      exact absurd hl (ofLink k q hk)
  simp [Db.confirmedLine, hlink, hrow]

/-- Facts are added and the domain is untouched. -/
theorem grow (h : ProgressInv db analysed) (hi : LinksOk db)
    (hfile : ∀ k f, db.facts.files.get? k = some f → db'.facts.files.get? k = some f)
    (hline : ∀ k l, db.facts.lines.get? k = some l → db'.facts.lines.get? k = some l)
    (hd : db'.domain = db.domain) : ProgressInv db' analysed := by
  have hconf : ∀ s l, db'.confirmedLine s l = db.confirmedLine s l := fun s l => by
    unfold Db.confirmedLine Db.activeLink
    rw [hd]
  have old : ∀ {s l}, (lineOfScan db s l).isSome → UncoveredLine db' s l →
      UncoveredLine db s l := by
    rintro s l hs ⟨line', hl', hu⟩
    obtain ⟨line, hl⟩ := Option.isSome_iff_exists.1 hs
    obtain rfl := Option.some.inj ((lineOfScan_mono hfile hline hl).symm.trans hl')
    exact ⟨line, hl, hu⟩
  constructor
  case line =>
    intro s l ha
    obtain ⟨line, hl⟩ := Option.isSome_iff_exists.1 (h.line s l ha)
    rw [lineOfScan_mono hfile hline hl]
    rfl
  case counted =>
    intro s l hu
    rw [hconf]
    by_cases hs : (lineOfScan db s l).isSome
    · exact h.counted s l (old hs hu)
    · obtain ⟨line, hl, _⟩ := hu
      rw [h.confirmedLine_new hi hfile hline (by rw [hl]; rfl) hs]
      cases ha : analysed s l with
      | false => rfl
      | true => exact absurd (h.line s l ha) hs
  case legacy =>
    intro l a ha
    rw [hd] at ha
    obtain ⟨k, q, hk, hl, himp⟩ := h.legacy l a ha
    refine ⟨k, q, by rw [hd]; exact hk, hl, fun hu hc => ?_⟩
    rw [hconf]
    exact himp (old (by rw [← hl]; exact hi.line k q hk) hu) hc

/-- A domain that is the same but for tables the count does not read. -/
theorem congr (h : ProgressInv db analysed) (hf : db'.facts = db.facts)
    (hl : db'.domain.links = db.domain.links) (hr : db'.domain.records = db.domain.records)
    (ha : db'.domain.analyses = db.domain.analyses) : ProgressInv db' analysed := by
  have hline : ∀ s l, lineOfScan db' s l = lineOfScan db s l := fun s l => by
    unfold lineOfScan
    rw [hf]
  have hun : ∀ s l, UncoveredLine db' s l = UncoveredLine db s l := fun s l => by
    unfold UncoveredLine
    rw [hline]
  have hconf : ∀ s l, db'.confirmedLine s l = db.confirmedLine s l := fun s l => by
    unfold Db.confirmedLine Db.activeLink
    rw [hl, hr, ha]
  constructor
  case line => simp only [hline]; exact h.line
  case counted => simp only [hun, hconf]; exact h.counted
  case legacy => simp only [hl, ha, hun, hconf]; exact h.legacy

/-- Reviews change relations only: those of lines with a verdict were not finished, and every other
line keeps its active relation. -/
theorem review (h : ProgressInv db analysed) (hi : LinksOk db) (hf : db'.facts = db.facts)
    (hr : db'.domain.records = db.domain.records)
    (ha : db'.domain.analyses = db.domain.analyses)
    (hsame : SameLines db.domain.links db'.domain.links) (verdict : Nat → Nat → Option Bool)
    (hv : ∀ s l, (verdict s l = none ∧ db'.activeLink s l = db.activeLink s l) ∨
      ∃ b, verdict s l = some b ∧ (b = true → (lineOfScan db s l).isSome) ∧
        (UncoveredLine db s l → db'.confirmedLine s l = b ∧
          ∀ k q, db.domain.links.get? k = some q → q.scanId = s → q.lineId = l →
            ¬ (q.isActive = true ∧ q.reviewState = .manualConfirmed))) :
    ProgressInv db' fun s l => (verdict s l).getD (analysed s l) := by
  have hline : ∀ s l, lineOfScan db' s l = lineOfScan db s l := fun s l => by
    unfold lineOfScan
    rw [hf]
  have hun : ∀ s l, UncoveredLine db' s l = UncoveredLine db s l := fun s l => by
    unfold UncoveredLine
    rw [hline]
  have hconf : ∀ {s l}, db'.activeLink s l = db.activeLink s l →
      db'.confirmedLine s l = db.confirmedLine s l := by
    intro s l hact
    exact confirmedLine_congr hi hact (fun k q c _ hc => ⟨c, by rw [hr]; exact hc, rfl⟩)
      (fun _ => by rw [ha])
  constructor
  case line =>
    intro s l hal
    rw [hline]
    rcases hv s l with ⟨hnone, _⟩ | ⟨b, hb, hsome, _⟩
    · rw [hnone] at hal
      exact h.line s l hal
    · rw [hb] at hal
      exact hsome hal
  case counted =>
    intro s l hu
    rw [hun] at hu
    rcases hv s l with ⟨hnone, hact⟩ | ⟨b, hb, _, hcount⟩
    · rw [hnone, hconf hact]
      exact h.counted s l hu
    · rw [hb]
      exact (hcount hu).1
  case legacy =>
    intro l a hal
    rw [ha] at hal
    obtain ⟨k, q, hk, rfl, himp⟩ := h.legacy l a hal
    obtain ⟨q', hq', hs, hl⟩ := hsame k q hk
    refine ⟨k, q', hq', hl, fun hu hc => ?_⟩
    rw [hs, hun] at hu
    obtain ⟨hact, hst, hcf⟩ := himp hu hc
    -- a finished relation is not the one that was reviewed
    rcases hv q.scanId q.lineId with ⟨_, hsameLink⟩ | ⟨b, _, _, hcount⟩
    · have hfind := hi.activeLink_eq hk hact
      have hk' := (activeLink_some (hsameLink.trans hfind)).1
      obtain rfl := Option.some.inj (hk'.symm.trans hq')
      exact ⟨hact, hst, by rw [hconf hsameLink]; exact hcf⟩
    · exact absurd ⟨hact, hst⟩ ((hcount hu).2 k q hk rfl rfl)

end ProgressInv

/-! ## Reviews -/

section Review

variable {env : Env} {db db' : Db} {analysed : Nat → Nat → Bool}

open InheritanceReviewService

/-- The active relation of another line than that of an updated relation. -/
theorem activeLink_setLink_of_ne {id : Nat} {q : Link} {f : Link → Link} (hf : LinksOk.Keeps f)
    (hd : db'.domain.links = setLink db.domain.links id f)
    (hq : db.domain.links.get? id = some q) {s l : Nat}
    (hne : ¬ (s = q.scanId ∧ l = q.lineId)) : db'.activeLink s l = db.activeLink s l := by
  unfold Db.activeLink
  rw [hd]
  refine find?_setLink hq ?_ ?_
  · rw [decide_eq_false_iff_not]
    exact fun hs => hne ⟨hs.1.symm, hs.2.1.symm⟩
  · rw [decide_eq_false_iff_not]
    rw [hf.scan, hf.line]
    exact fun hs => hne ⟨hs.1.symm, hs.2.1.symm⟩

/-- The one relation of a line that can be reviewed or is inactive is not a finished one. -/
theorem LinksOk.not_finished (hi : LinksOk db) {id : Nat} {q : Link}
    (hq : db.domain.links.get? id = some q) (hne : q.isActive = false ∨ reviewable q = true) :
    ∀ k q', db.domain.links.get? k = some q' → q'.scanId = q.scanId → q'.lineId = q.lineId →
      ¬ (q'.isActive = true ∧ q'.reviewState = .manualConfirmed) := by
  rintro k q' hk hs hl ⟨ha, hst⟩
  obtain rfl := hi.unique k id q' q hk hq hs hl
  obtain rfl := Option.some.inj (hk.symm.trans hq)
  rcases hne with hina | hrev
  · rw [ha] at hina
    cases hina
  · simp [reviewable, hst] at hrev

/-- **What a confirm does to every line it names, and to the others.** -/
theorem InheritanceReviewService.confirm_links {projectId scanId : Nat} {selected : List Nat}
    {expectedMap : List (Nat × Nat)} {default : Option Nat} {reviewer : String} (hi : LinksOk db)
    (h : confirm db projectId scanId selected expectedMap default reviewer = .ok db') :
    (∀ l ∈ selected, l ≠ 0 → ∃ id q, db.activeLink scanId l = some (id, q) ∧
      reviewable q = true ∧ q.relationRevision = expectedRevision expectedMap default l ∧
      db'.domain.links.get? id = some (confirmed reviewer q)) ∧
    ∀ s l, ¬ (s = scanId ∧ l ∈ selected) → db'.activeLink s l = db.activeLink s l := by
  constructor
  · -- a relation is as it was, or it is confirmed and no longer reviewable
    refine confirm_each h (fun d => ∀ k q', d.links.get? k = some q' →
      db.domain.links.get? k = some q' ∨ reviewable q' = false)
      (fun l d => ∃ id q, db.activeLink scanId l = some (id, q) ∧ reviewable q = true ∧
        q.relationRevision = expectedRevision expectedMap default l ∧
        d.links.get? id = some (confirmed reviewer q)) ?_ (fun k q' hk => .inl hk)
    intro d lineId d' hP hok
    simp only [confirmLine, bind_eq_ok, require_eq_ok, orFail_eq_ok, pure_eq_ok] at hok
    obtain ⟨_, _, ⟨id, q⟩, hact, _, hexp, _, hrev, rfl⟩ := hok
    obtain ⟨hid, hs, hl, ha⟩ := activeLink_some hact
    have horig : db.domain.links.get? id = some q := by
      rcases hP id q hid with horig | hnot
      · exact horig
      · rw [hrev] at hnot
        cases hnot
    have hdb : db.activeLink scanId lineId = some (id, q) := by
      rw [← hs, ← hl]
      exact hi.activeLink_eq horig ha
    refine ⟨?_, ⟨id, q, hdb, hrev, hexp, get?_setLink_self hid⟩, ?_⟩
    · intro k q' hk
      rcases get?_setLink_some hk with ⟨_, hold⟩ | ⟨q₀, _, _, rfl⟩
      · exact hP k q' hold
      · exact .inr rfl
    · rintro l ⟨id', q', hact', hrev', hexp', hconf⟩
      refine ⟨id', q', hact', hrev', hexp', (get?_setLink_of_ne ?_).trans hconf⟩
      rintro rfl
      obtain rfl := Option.some.inj (hconf.symm.trans hid)
      cases hrev
  · refine (confirm_inv h (fun d => ∀ s l, ¬ (s = scanId ∧ l ∈ selected) →
      ({ db with domain := d } : Db).activeLink s l = db.activeLink s l) ?_ fun _ _ _ => rfl).1
    rintro d lineId d' _ hl hP ⟨id, q, hact, _, rfl⟩ s l hne
    obtain ⟨hid, hs, hline, _⟩ := activeLink_some hact
    rw [← hP s l hne]
    refine activeLink_setLink_of_ne (keeps_confirmed reviewer) rfl hid fun hsame => hne ?_
    exact ⟨hsame.1.trans hs, by rw [hsame.2, hline]; exact hl⟩

theorem ProgressInv.confirm {projectId scanId : Nat} {selected : List Nat}
    {expectedMap : List (Nat × Nat)} {default : Option Nat} {reviewer : String}
    (h : ProgressInv db analysed) (hi : Integrity db)
    (hok : InheritanceReviewService.confirm db projectId scanId selected expectedMap default
      reviewer = .ok db') :
    ProgressInv db' fun s l => ((Mutation.confirm projectId scanId selected expectedMap default
      reviewer).verdict env db s l).getD (analysed s l) := by
  obtain ⟨hnamed, hother⟩ := confirm_links hi.toLinksOk hok
  have hframe := confirm_inv hok (fun d => d.records = db.domain.records ∧
    d.analyses = db.domain.analyses ∧ SameLines db.domain.links d.links) ?_
    ⟨rfl, rfl, fun k q hk => ⟨q, hk, rfl, rfl⟩⟩
  · obtain ⟨⟨hrec, han, hsame⟩, hmut, _⟩ := hframe
    have hi' := hi.confirm hok
    refine h.review hi.toLinksOk hmut.facts hrec han hsame _ fun s l => ?_
    by_cases hin : scanId = s ∧ l ∈ selected
    · obtain ⟨rfl, hl⟩ := hin
      refine .inr ⟨_, if_pos ⟨rfl, hl⟩, fun hb => ?_, fun hu => ?_⟩
      · obtain ⟨v, hv, _⟩ := (Option.any_eq_true _ _).1 hb
        cases hact : db.activeLink scanId l with
        | none => simp [readLine, hact] at hv
        | some r =>
          obtain ⟨hk, rfl, rfl, _⟩ := activeLink_some (show _ = some (r.1, r.2) from hact)
          exact hi.line r.1 r.2 hk
      · have hne : l ≠ 0 := by
          rintro rfl
          obtain ⟨line, hline, _⟩ := hu
          rw [AnalysisService.lineOfScan_eq_some] at hline
          simp at hline
        obtain ⟨id, q, hact, hrev, _, hq'⟩ := hnamed l hl hne
        obtain ⟨hq, rfl, rfl, ha⟩ := activeLink_some hact
        obtain ⟨c, hc⟩ := Option.isSome_iff_exists.1 (hi.record id q hq)
        refine ⟨?_, hi.not_finished hq (.inr hrev)⟩
        have hact' : db'.activeLink q.scanId q.lineId = some (id, confirmed reviewer q) :=
          hi'.activeLink_eq hq' ha
        have hc' : db'.domain.records.get? (confirmed reviewer q).recordId = some c := by
          rw [hrec]
          exact hc
        rw [readLine_eq hact hc, confirmedLine_of_link hact' hc']
        simp [viewOf, Link.settled, confirmed]
    · exact .inl ⟨if_neg hin, hother s l fun hs => hin ⟨hs.1.symm, hs.2⟩⟩
  · rintro d lineId d' _ _ ⟨h₁, h₂, h₃⟩ ⟨id, q, _, _, rfl⟩
    refine ⟨h₁, h₂, fun k q₀ hk => ?_⟩
    obtain ⟨q₁, hq₁, hs₁, hl₁⟩ := h₃ k q₀ hk
    obtain ⟨q₂, hq₂, hs₂, hl₂⟩ := SameLines.setLink id (keeps_confirmed reviewer) k q₁ hq₁
    exact ⟨q₂, hq₂, hs₂.trans hs₁, hl₂.trans hl₁⟩

theorem ProgressInv.reject {projectId scanId lineId expected : Nat} {rejectedBy : String}
    (h : ProgressInv db analysed) (hi : LinksOk db)
    (hok : InheritanceReviewService.reject db projectId scanId lineId rejectedBy expected =
      .ok db') :
    ProgressInv db' fun s l => ((Mutation.reject projectId scanId lineId rejectedBy
      expected).verdict env db s l).getD (analysed s l) := by
  obtain ⟨id, q, hact, hrev, hdom, hmut, _⟩ := reject_ok hok
  obtain ⟨hq, rfl, rfl, ha⟩ := activeLink_some hact
  refine h.review hi hmut.facts (by rw [hdom]) (by rw [hdom])
    (by rw [hdom]; exact SameLines.setLink id keeps_rejected) _ fun s l => ?_
  by_cases hin : q.scanId = s ∧ q.lineId = l
  · obtain ⟨rfl, rfl⟩ := hin
    refine .inr ⟨false, if_pos ⟨rfl, rfl⟩, fun hb => (nomatch hb), fun hu => ⟨?_, ?_⟩⟩
    · -- without a relation the legacy row is read; one that counts would have hidden behind `q`
      have hnone : db'.activeLink q.scanId q.lineId = none := by
        cases hact' : db'.activeLink q.scanId q.lineId with
        | none => rfl
        | some r =>
          obtain ⟨hk, hs, hl, hra⟩ := activeLink_some (show _ = some (r.1, r.2) from hact')
          rw [hdom] at hk
          rcases get?_setLink_some hk with ⟨hne, hold⟩ | ⟨q₀, _, _, heq⟩
          · exact absurd (hi.unique r.1 id r.2 q hold hq hs hl) hne
          · rw [heq] at hra
            cases hra
      unfold Db.confirmedLine
      rw [hnone, hdom]
      cases hrow : db.domain.analyses.get? q.lineId with
      | none => rfl
      | some a =>
        cases hc : a.concluded with
        | false => simp [hc]
        | true =>
          obtain ⟨k, q', hk, hl, himp⟩ := h.legacy _ a hrow
          have hs : q'.scanId = q.scanId := by
            refine scan_of_line (hi.line k q' hk) ?_
            rw [hl]
            exact hi.line id q hq
          obtain ⟨ha', hst, _⟩ := himp (by rw [hs]; exact hu) hc
          exact absurd ⟨ha', hst⟩ (hi.not_finished hq (.inr hrev) k q' hk hs hl)
    · exact hi.not_finished hq (.inr hrev)
  · refine .inl ⟨if_neg hin, ?_⟩
    exact activeLink_setLink_of_ne keeps_rejected (by rw [hdom]) hq
      fun hs => hin ⟨hs.1.symm, hs.2.symm⟩

theorem ProgressInv.undo {projectId scanId lineId rejectionId er el : Nat}
    (h : ProgressInv db analysed) (hi : Integrity db)
    (hok : InheritanceReviewService.undo db projectId scanId lineId rejectionId er el = .ok db') :
    ProgressInv db' fun s l => ((Mutation.undo projectId scanId lineId rejectionId er el).verdict
      env db s l).getD (analysed s l) := by
  obtain ⟨x, q, hx, rfl, rfl, _, hq, hina, hdom, hmut, _⟩ := undo_ok hok
  obtain ⟨q', hq', hs, hl⟩ := hi.rejection _ x hx
  obtain rfl := Option.some.inj (hq.symm.trans hq')
  refine h.review hi.toLinksOk hmut.facts (by rw [hdom]) (by rw [hdom])
    (by rw [hdom]; exact SameLines.setLink _ keeps_restored) _ fun s l => ?_
  by_cases hin : x.scanId = s ∧ x.lineId = l
  · obtain ⟨rfl, rfl⟩ := hin
    refine .inr ⟨false, if_pos ⟨rfl, rfl⟩, fun hb => (nomatch hb), fun hu => ⟨?_, ?_⟩⟩
    · have hlink : db'.domain.links.get? x.rejectedRelationId = some (restored q) := by
        rw [hdom]
        exact get?_setLink_self hq
      have hact := (hi.undo hok).activeLink_eq hlink rfl
      rw [show (restored q).scanId = x.scanId from hs, show (restored q).lineId = x.lineId from hl]
        at hact
      simp [Db.confirmedLine, hact, Link.settled, restored]
    · rw [← hs, ← hl]
      exact hi.not_finished hq (.inl hina)
  · refine .inl ⟨if_neg hin, ?_⟩
    refine activeLink_setLink_of_ne keeps_restored (by rw [hdom]) hq fun hsame => hin ?_
    exact ⟨hs.symm.trans hsame.1.symm, hl.symm.trans hsame.2.symm⟩

end Review

/-! ## Saves -/

/-- An operation that concludes with a confirmed status and edits its record in place leaves a
confirmed status there. -/
def SaveAgrees (env : Env) (db : Db) (scanId : Nat) (records : List AnalysisService.Item)
    (reviewer : String) : Prop :=
  ∀ resolved, AnalysisService.resolveRecords env db scanId records reviewer = .ok resolved →
    ∀ r ∈ resolved, Edits db resolved r.operationKey r.item.requestedRecordId →
      r.item.concludes = true →
      confirmedStatuses.contains r.item.editContent.conclusionStatus = true

section Save

variable {env : Env} {db db' : Db} {analysed : Nat → Nat → Bool} {scanId : Nat}
  {records : List AnalysisService.Item} {reviewer : String} {tr : AnalysisService.SaveTrace}

open AnalysisService

theorem AnalysisService.Item.settled_link (r : Resolved) (recordId : Nat) (b : Option Nat)
    (rev : Nat) : ((linkItem recordId b r).link scanId rev).settled = r.item.concludes := by
  unfold Link.settled Item.concludes
  have hstate : ((linkItem recordId b r).link scanId rev).reviewState = r.item.reviewState := rfl
  rw [hstate]
  unfold Item.reviewState
  by_cases hd : r.item.draftFlag = true
  · simp [hd]
  · by_cases hc : confirmedStatuses.contains (r.item.status.getD "") = true
    · rw [if_neg hd, if_pos hc, hc]
      simp [hd]
    · rw [if_neg hd, if_neg hc]
      rw [Bool.not_eq_true] at hc
      rw [hc]
      simp

/-- A saved line counts as the save says. -/
theorem AnalysisService.Saved.confirmedLine (h : Saved db scanId records reviewer tr)
    (hi : LinksOk db') (hd : db'.domain = tr.domain db scanId) {r : Resolved}
    (hr : r ∈ tr.resolved)
    (hagree : Edits db tr.resolved r.operationKey r.item.requestedRecordId →
      r.item.concludes = true →
      confirmedStatuses.contains r.item.editContent.conclusionStatus = true) :
    db'.confirmedLine scanId r.lineId = r.item.concludes := by
  obtain ⟨k, recordId, b, rev, c, hact, hc, hcont⟩ := h.written hi hd hr
  rw [confirmedLine_of_link hact hc, Item.settled_link]
  cases hcon : r.item.concludes with
  | false => rw [Bool.and_false]
  | true =>
    rw [Bool.and_true]
    rcases hcont with ⟨hedits, hcont⟩ | hcont
    · rw [hcont]
      exact hagree hedits hcon
    · rw [hcont]
      simp only [Item.concludes, Bool.and_eq_true] at hcon
      exact hcon.2

/-- A line of the save is found under its id. -/
theorem AnalysisService.Saved.find_resolved (h : Saved db scanId records reviewer tr)
    {r : Resolved} (hr : r ∈ tr.resolved) :
    (tr.resolved.find? fun x => x.lineId = r.lineId) = some r := by
  cases hf : tr.resolved.find? fun x => x.lineId = r.lineId with
  | none =>
    have := List.find?_eq_none.1 hf r hr
    simp at this
  | some x =>
    have hx := List.mem_of_find?_eq_some hf
    have hl : x.lineId = r.lineId := by simpa using List.find?_some hf
    rw [List.inj_on_of_nodup_map h.resolve.nodup hx hr hl]

/-- A line is named by the save, or the save has no verdict on it. -/
theorem AnalysisService.SaveTrace.names_or_not (tr : SaveTrace) (scanId s l : Nat) :
    (∃ r ∈ tr.resolved, scanId = s ∧ r.lineId = l) ∨
      (¬ (s = scanId ∧ l ∈ tr.resolved.map Resolved.lineId) ∧
        (if scanId = s then (tr.resolved.find? fun r => r.lineId = l).map
          fun r => r.item.concludes else none) = none) := by
  by_cases hin : s = scanId ∧ l ∈ tr.resolved.map Resolved.lineId
  · obtain ⟨rfl, hl⟩ := hin
    obtain ⟨r, hr, rfl⟩ := List.mem_map.1 hl
    exact .inl ⟨r, hr, rfl, rfl⟩
  · refine .inr ⟨hin, ?_⟩
    split
    · rename_i hsc
      rw [Option.map_eq_none_iff, List.find?_eq_none]
      intro r hr hl
      exact hin ⟨hsc.symm, List.mem_map.2 ⟨r, hr, by simpa using hl⟩⟩
    · rfl

/-- The analyses of the other lines stay. -/
theorem AnalysisService.Saved.analysis_of_ne (hd : db'.domain = tr.domain db scanId) {l : Nat}
    (hl : l ∉ tr.resolved.map Resolved.lineId) :
    db'.domain.analyses.get? l = db.domain.analyses.get? l := by
  rw [hd]
  refine Keyed.get?_puts_of_ne _ fun x hx he => hl ?_
  obtain ⟨r, hr, rfl⟩ := List.mem_map.1 hx
  exact List.mem_map.2 ⟨r, hr, he⟩

/-- The other lines count as before. -/
theorem AnalysisService.Saved.confirmedLine_of_ne (hs : Saved db scanId records reviewer tr)
    (hi : LinksOk db) (hd : db'.domain = tr.domain db scanId) {s l : Nat}
    (hsome : (lineOfScan db s l).isSome)
    (hout : ¬ (s = scanId ∧ l ∈ tr.resolved.map Resolved.lineId)) :
    db'.confirmedLine s l = db.confirmedLine s l := by
  refine confirmedLine_congr hi (hs.activeLink_of_ne hd hout) ?_ ?_
  · intro k q c hact hc
    obtain ⟨hk, rfl, rfl, ha⟩ := activeLink_some hact
    refine ⟨c, ?_, rfl⟩
    rw [hd]
    exact tr.get?_records_of_ne hc (hs.not_edited hi hk ha hout)
  · intro _
    refine Saved.analysis_of_ne hd fun hl => hout ⟨?_, hl⟩
    obtain ⟨r, hr, rfl⟩ := List.mem_map.1 hl
    obtain ⟨line, hrl, _⟩ := (hs.resolve.lineOk r hr).line
    exact scan_of_line hsome (by rw [hrl]; rfl)

/-- The analysis of a saved line has a link that says the same. -/
theorem AnalysisService.Saved.legacy_link (hs : Saved db scanId records reviewer tr)
    (hi' : LinksOk db') (hd : db'.domain = tr.domain db scanId) {r : Resolved}
    (hr : r ∈ tr.resolved)
    (hagree : Edits db tr.resolved r.operationKey r.item.requestedRecordId →
      r.item.concludes = true →
      confirmedStatuses.contains r.item.editContent.conclusionStatus = true) {a : Analysis}
    (ha : db'.domain.analyses.get? r.lineId = some a) :
    ∃ k q, db'.domain.links.get? k = some q ∧ q.lineId = r.lineId ∧
      (UncoveredLine db' q.scanId r.lineId → a.concluded = true →
        q.isActive = true ∧ q.reviewState = .manualConfirmed ∧
          db'.confirmedLine q.scanId r.lineId = true) := by
  have hrow : db'.domain.analyses.get? r.lineId = some r.item.analysis := by
    rw [hd]
    refine Keyed.get?_puts_of_mem _ (r := (r.lineId, r.item.analysis)) ?_
      (List.mem_map.2 ⟨r, hr, rfl⟩)
    rw [List.map_map]
    exact hs.resolve.nodup
  obtain rfl := Option.some.inj (hrow.symm.trans ha)
  obtain ⟨k, recordId, b, rev, c, hact, _⟩ := hs.written hi' hd hr
  refine ⟨k, _, (activeLink_some hact).1, rfl, fun _ hc => ⟨rfl, ?_, ?_⟩⟩
  · simp only [Analysis.concluded, Item.analysis, Bool.and_eq_true, Bool.not_eq_true'] at hc
    simp only [LinkItem.link, linkItem, Item.reviewState, hc.1, hc.2]
    simp
  · refine (hs.confirmedLine hi' hd hr hagree).trans ?_
    simpa [Item.concludes, Analysis.concluded, Item.analysis, and_comm] using hc

/-- **A save whose conclusions agree keeps the count and the verdicts together.** -/
theorem ProgressInv.saved (h : ProgressInv db analysed) (hi : LinksOk db) (hi' : LinksOk db')
    (hs : Saved db scanId records reviewer tr) (hf : db'.facts = db.facts)
    (hd : db'.domain = tr.domain db scanId)
    (hagree : ∀ r ∈ tr.resolved, Edits db tr.resolved r.operationKey r.item.requestedRecordId →
      r.item.concludes = true →
      confirmedStatuses.contains r.item.editContent.conclusionStatus = true) :
    ProgressInv db' fun s l => (if scanId = s then
      (tr.resolved.find? fun r => r.lineId = l).map fun r => r.item.concludes else none).getD
      (analysed s l) := by
  have hline : ∀ s l, lineOfScan db' s l = lineOfScan db s l := fun s l => by
    unfold lineOfScan
    rw [hf]
  have hun : ∀ s l, UncoveredLine db' s l = UncoveredLine db s l := fun s l => by
    unfold UncoveredLine
    rw [hline]
  constructor
  case line =>
    intro s l ha
    rw [hline]
    rcases tr.names_or_not scanId s l with ⟨r, hr, rfl, rfl⟩ | ⟨_, hnone⟩
    · obtain ⟨line, hrl, _⟩ := (hs.resolve.lineOk r hr).line
      rw [hrl]
      rfl
    · rw [hnone] at ha
      exact h.line s l ha
  case counted =>
    intro s l hu
    rw [hun] at hu
    rcases tr.names_or_not scanId s l with ⟨r, hr, rfl, rfl⟩ | ⟨hout, hnone⟩
    · rw [if_pos rfl, hs.find_resolved hr, hs.confirmedLine hi' hd hr (hagree r hr)]
      rfl
    · rw [hnone, ← h.counted s l hu]
      obtain ⟨line, hl, _⟩ := hu
      exact hs.confirmedLine_of_ne hi hd (by rw [hl]; rfl) hout
  case legacy =>
    intro l a ha
    by_cases hin : l ∈ tr.resolved.map Resolved.lineId
    · obtain ⟨r, hr, rfl⟩ := List.mem_map.1 hin
      exact hs.legacy_link hi' hd hr (hagree r hr) ha
    · rw [Saved.analysis_of_ne hd hin] at ha
      obtain ⟨k, q, hk, rfl, himp⟩ := h.legacy l a ha
      have hout : ¬ (q.scanId = scanId ∧ q.lineId ∈ tr.resolved.map Resolved.lineId) :=
        fun hs => hin hs.2
      refine ⟨k, q, ?_, rfl, fun hu hc => ?_⟩
      · rw [hd]
        refine get?_writeLinks_of_ne hk fun item hitem hsame => hin ?_
        rw [hsame.2]
        exact hs.link_line hitem
      · rw [hun] at hu
        obtain ⟨h₁, h₂, h₃⟩ := himp hu hc
        exact ⟨h₁, h₂, by rw [hs.confirmedLine_of_ne hi hd (hi.line k q hk) hout]; exact h₃⟩

end Save

end FosCoverage
