import FosCoverage.Analysis.Provenance
import FosCoverage.Analysis.Visibility

/-!
# The states of a history

A query sees the database as it was after some number of transactions.  `Db.upTo` is that state, and
this file says what a later state has of an earlier one:

* data versions do not fall, visible lines stay visible, files and lines stay as they are, and a
  scan keeps its project;
* the data version tells the order: an accepted operation raises it, so **a state with at least the
  version an operation left has seen the operation** (`Mutation.seen`).
-/

set_option autoImplicit false

namespace FosCoverage

open Relational Outcome

/-- The database after the first `n` transactions. -/
def Db.upTo (env : Env) (actions : List Action) (n : Nat) : Db := Db.after env (actions.take n)

namespace Db

variable {env : Env} {actions : List Action}

theorem reachable_upTo (env : Env) (actions : List Action) (n : Nat) :
    Reachable env (Db.upTo env actions n) := Db.reachable_after env _

/-- What comes later does not matter. -/
theorem upTo_append {n : Nat} (h : n ≤ actions.length) (more : List Action) :
    Db.upTo env (actions ++ more) n = Db.upTo env actions n := by
  rw [Db.upTo, List.take_append_of_le_length h, Db.upTo]

theorem upTo_succ {n : Nat} {a : Action} (h : actions[n]? = some a) :
    Db.upTo env actions (n + 1) = Action.exec env (Db.upTo env actions n) a := by
  rw [Db.upTo, List.take_add_one, h]
  exact Db.after_append_singleton env _ a

/-- **The rule for two states of a history**: what relates the two sides of every transaction
relates an earlier state to a later one. -/
theorem upTo_rel {R : Db → Db → Prop} (refl : ∀ db, R db db)
    (trans : ∀ {d d' d'' : Db}, R d d' → R d' d'' → R d d'')
    (step : ∀ {db db' : Db} {a : Action}, Reachable env db → a.apply env db = .ok db' → R db db')
    {i j : Nat} (h : i ≤ j) : R (Db.upTo env actions i) (Db.upTo env actions j) := by
  induction j, h using Nat.le_induction with
  | base => exact refl _
  | succ j _ ih =>
    cases ha : actions[j]? with
    | none =>
      have hlen := List.getElem?_eq_none_iff.1 ha
      have hsame : Db.upTo env actions (j + 1) = Db.upTo env actions j := by
        rw [Db.upTo, Db.upTo, List.take_of_length_le hlen,
          List.take_of_length_le (Nat.le_succ_of_le hlen)]
      rw [hsame]
      exact ih
    | some a =>
      rw [upTo_succ ha]
      refine trans ih ?_
      cases hok : a.apply env (Db.upTo env actions j) with
      | error e =>
        rw [Action.exec_of_error hok]
        exact refl _
      | ok db' =>
        rw [Action.exec_of_ok hok]
        exact step (reachable_upTo env actions j) hok

variable {i j : Nat}

/-- Data versions do not fall. -/
theorem versions_upTo (h : i ≤ j) : VersionsGrow (Db.upTo env actions i) (Db.upTo env actions j) :=
  upTo_rel .refl (fun h h' => h.trans h') (fun _ hok => Action.versions hok) h

/-- Visible lines stay visible. -/
theorem shows_upTo (h : i ≤ j) :
    Shows (Db.upTo env actions i).domain (Db.upTo env actions j).domain :=
  upTo_rel (R := fun d d' => Shows d.domain d'.domain) (fun _ => .refl _)
    (fun h h' => h.trans h')
    (fun hr hok => Action.shows hr.integrity hr.historyOk.current hok) h

/-- Lines stay as they are. -/
theorem line_upTo (h : i ≤ j) {k : Nat} {l : LineRow}
    (hl : (Db.upTo env actions i).facts.lines.get? k = some l) :
    (Db.upTo env actions j).facts.lines.get? k = some l :=
  upTo_rel (R := fun d d' => ∀ k l, d.facts.lines.get? k = some l → d'.facts.lines.get? k = some l)
    (fun _ _ _ h => h) (fun h h' k l hk => h' k l (h k l hk))
    (fun hr hok => (Action.grows hr.historyOk.current hok).2) h k l hl

/-- A scan keeps its project. -/
theorem scan_upTo (h : i ≤ j) {s p : Nat}
    (hs : ((Db.upTo env actions i).facts.scans.get? s).map Scan.projectId = some p) :
    ((Db.upTo env actions j).facts.scans.get? s).map Scan.projectId = some p := by
  refine upTo_rel (R := fun d d' => ∀ s p, (d.facts.scans.get? s).map Scan.projectId = some p →
    (d'.facts.scans.get? s).map Scan.projectId = some p) (fun _ _ _ h => h)
    (fun h h' s p hs => h' s p (h s p hs)) ?_ h s p hs
  intro d d' a hr hok s p hs
  obtain ⟨scan, hscan, rfl⟩ := Option.map_eq_some_iff.1 hs
  obtain ⟨scan', hscan', hp, _⟩ := Action.scan_kept hr.historyOk.current hok hscan
  rw [hscan', Option.map_some, hp]

end Db

/-- The scan is one of the project, at some moment of the history. -/
def ScanOf (env : Env) (actions : List Action) (s p : Nat) : Prop :=
  ∃ n ≤ actions.length, ((Db.upTo env actions n).facts.scans.get? s).map Scan.projectId = some p

namespace ScanOf

variable {env : Env} {actions : List Action} {s p p' : Nat}

/-- A scan is one of one project. -/
theorem unique (h : ScanOf env actions s p) (h' : ScanOf env actions s p') : p = p' := by
  obtain ⟨n, _, hn⟩ := h
  obtain ⟨n', _, hn'⟩ := h'
  rcases Nat.le_total n n' with hle | hle
  · exact Option.some.inj ((Db.scan_upTo hle hn).symm.trans hn')
  · exact Option.some.inj (hn.symm.trans (Db.scan_upTo hle hn'))

theorem append (h : ScanOf env actions s p) (more : List Action) :
    ScanOf env (actions ++ more) s p := by
  obtain ⟨n, hn, hs⟩ := h
  refine ⟨n, ?_, ?_⟩
  · rw [List.length_append]
    omega
  · rw [Db.upTo_append hn]
    exact hs

/-- No scan has number zero. -/
theorem ne_zero (h : ScanOf env actions s p) : s ≠ 0 := by
  rintro rfl
  obtain ⟨n, _, hs⟩ := h
  simp at hs

end ScanOf

/-- The operation at a place of the history was accepted, and named the line. -/
structure Committed (env : Env) (actions : List Action) (i : Nat) (m : Mutation) (l : Nat) :
    Prop where
  /-- It is in the history. -/
  action : actions[i]? = some (.mutate m)
  /-- It was accepted. -/
  accepted : (m.apply env (Db.upTo env actions i)).isOk = true
  /-- It named the line. -/
  names : m.Names env (Db.upTo env actions i) l
  /-- There is such a line. -/
  line : l ≠ 0

namespace Committed

variable {env : Env} {actions : List Action} {i l p : Nat} {m : Mutation}

theorem apply_eq (h : Committed env actions i m l) :
    m.apply env (Db.upTo env actions i) = .ok (Db.upTo env actions (i + 1)) := by
  obtain ⟨db', hok⟩ := exists_of_isOk h.accepted
  have hact : (Action.mutate m).apply env (Db.upTo env actions i) = .ok db' := hok
  rw [Db.upTo_succ h.action, Action.exec_of_ok hact, hok]

/-- **The line is visible ever after.** -/
theorem visible (h : Committed env actions i m l) {n : Nat} (hn : i < n) :
    (Db.upTo env actions n).domain.Visible m.scanId l := by
  have hi := (Db.reachable_upTo env actions i).integrity
  have hlink := Mutation.linked hi h.apply_eq h.names h.line
  have hshown := (Db.reachable_upTo env actions (i + 1)).relationsVisible _ _ hlink
  exact (Db.shows_upTo hn).visible _ _ hshown

/-- **A state that has at least the data version the operation left has seen the operation.** -/
theorem seen (h : Committed env actions i m l) (hs : ScanOf env actions m.scanId p) {n : Nat}
    (hv : ((Db.upTo env actions (i + 1)).stateOf p).dataVersion ≤
      ((Db.upTo env actions n).stateOf p).dataVersion) : i < n := by
  have hc := (Db.reachable_upTo env actions i).historyOk.current
  obtain ⟨scan, hscan, hadv⟩ := Mutation.advances hc h.apply_eq h.names hs.ne_zero
  have hlen : i ≤ actions.length := by
    have := (List.getElem?_eq_some_iff.1 h.action).1
    omega
  obtain rfl : scan.projectId = p := ScanOf.unique ⟨i, hlen, by rw [hscan, Option.map_some]⟩ hs
  by_contra hle
  have hgrow : VersionsGrow (Db.upTo env actions n) (Db.upTo env actions i) :=
    Db.versions_upTo (Nat.le_of_not_lt hle)
  have := hgrow scan.projectId
  omega

end Committed

end FosCoverage
