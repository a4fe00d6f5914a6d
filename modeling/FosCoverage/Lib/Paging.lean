import Mathlib.Data.List.Sort
import Mathlib.Data.List.Perm.Lattice
import Mathlib.Order.Defs.LinearOrder

/-!
# Reading a table in pages

A reader that must not hold a whole table asks for the rows behind a cursor, in the order of their
keys and at most `limit` of them, and goes on behind the last one it got, until a page is empty
(`pages`).  When no two rows share a key, the pages together are the rows behind the first cursor,
each of them once and whatever the limit (`flatten_pages_perm`).  A reader that stops at the first
page that is not full (`scan`) saves one query and reads the same pages.

The last section splits a table by a column: the rows with one of several values are those with the
first, those with the second, and so on (`flatMap_filter_perm`).
-/

set_option autoImplicit false

namespace Paging

universe u v w

variable {α : Type u} {κ : Type w} [LinearOrder κ]

/-- The rows behind a cursor. -/
def behind (key : α → κ) (rows : List α) (last : κ) : List α :=
  rows.filter fun r => last < key r

/-- `WHERE key > last ORDER BY key LIMIT limit` -/
def page (key : α → κ) (limit : Nat) (rows : List α) (last : κ) : List α :=
  ((behind key rows last).insertionSort fun a b => key a ≤ key b).take limit

variable {key : α → κ} {limit : Nat} {last : κ} {rows : List α}

theorem mem_behind {r : α} : r ∈ behind key rows last ↔ r ∈ rows ∧ last < key r := by
  rw [behind, List.mem_filter, decide_eq_true_eq]

theorem mem_of_mem_page {r : α} (h : r ∈ page key limit rows last) : r ∈ rows ∧ last < key r := by
  have hsorted := List.mem_of_mem_take h
  rw [List.mem_insertionSort] at hsorted
  exact mem_behind.1 hsorted

/-- Behind the last row of a page there are fewer rows. -/
theorem length_behind_lt {r : α} (h : r ∈ page key limit rows last) :
    (behind key rows (key r)).length < (behind key rows last).length := by
  obtain ⟨hr, hlt⟩ := mem_of_mem_page h
  have hsub : (behind key rows (key r)).Sublist (behind key rows last) :=
    List.monotone_filter_right rows fun a ha => by
      rw [decide_eq_true_eq] at ha ⊢
      exact hlt.trans ha
  refine lt_of_le_of_ne hsub.length_le fun he => ?_
  have hmem : r ∈ behind key rows (key r) := by
    rw [hsub.eq_of_length he]
    exact mem_behind.2 ⟨hr, hlt⟩
  exact lt_irrefl _ (mem_behind.1 hmem).2

/-- The pages behind a cursor. -/
def pages (key : α → κ) (limit : Nat) (rows : List α) (last : κ) : List (List α) :=
  match _h : page key limit rows last with
  | [] => []
  | a :: as => (a :: as) :: pages key limit rows (key ((a :: as).getLast (List.cons_ne_nil a as)))
termination_by (behind key rows last).length
decreasing_by
  have hmem : (a :: as).getLast (List.cons_ne_nil a as) ∈ page key limit rows last := by
    rw [_h]
    exact List.getLast_mem _
  exact length_behind_lt hmem

theorem pages_of_nil (h : page key limit rows last = []) : pages key limit rows last = [] := by
  rw [pages]
  split
  · rfl
  · rename_i h'
    exact nomatch h.symm.trans h'

theorem pages_of_cons {a : α} {as : List α} (h : page key limit rows last = a :: as) :
    pages key limit rows last =
      (a :: as) :: pages key limit rows (key ((a :: as).getLast (List.cons_ne_nil a as))) := by
  rw [pages]
  split
  · rename_i h'
    exact nomatch h.symm.trans h'
  · rename_i b bs h'
    obtain ⟨rfl, rfl⟩ := List.cons.inj (h.symm.trans h')
    rfl

/-- A page, and all pages, are read off the rows behind the cursor. -/
theorem pages_congr {rows' : List α} (h : behind key rows last = behind key rows' last) :
    pages key limit rows last = pages key limit rows' last := by
  fun_induction pages key limit rows last with
  | case1 last hpage =>
    rw [page, h] at hpage
    rw [pages_of_nil hpage]
  | case2 last a as hpage ih =>
    have hmem : (a :: as).getLast (List.cons_ne_nil a as) ∈ page key limit rows last := by
      rw [hpage]
      exact List.getLast_mem _
    have hlast := (mem_of_mem_page hmem).2
    have hsub : ∀ rs : List α, behind key rs (key ((a :: as).getLast (List.cons_ne_nil a as))) =
        (behind key rs last).filter
          fun r => key ((a :: as).getLast (List.cons_ne_nil a as)) < key r := by
      intro rs
      rw [behind, behind, List.filter_filter]
      refine List.filter_congr fun r _ => ?_
      by_cases hr : key ((a :: as).getLast (List.cons_ne_nil a as)) < key r
      · simp [hr, hlast.trans hr]
      · simp [hr]
    rw [page, h] at hpage
    rw [pages_of_cons hpage, ih (by rw [hsub, hsub, h])]

/-- No page is empty. -/
theorem ne_nil_of_mem_pages {p : List α} (h : p ∈ pages key limit rows last) : p ≠ [] := by
  fun_induction pages key limit rows last with
  | case1 last hpage => cases h
  | case2 last a as hpage ih =>
    rcases List.mem_cons.1 h with rfl | h
    · exact List.cons_ne_nil a as
    · exact ih h

/-- The rows behind a cursor in the order of their keys. -/
theorem pairwise_sorted (hn : (rows.map key).Nodup) (last : κ) :
    ((behind key rows last).insertionSort fun a b => key a ≤ key b).Pairwise
      fun a b => key a < key b := by
  let sorted := (behind key rows last).insertionSort fun a b => key a ≤ key b
  have hperm : sorted.Perm (behind key rows last) := List.perm_insertionSort _ _
  have hnodup : (sorted.map key).Nodup :=
    (hperm.map key).nodup_iff.2 (hn.sublist (List.filter_sublist.map key))
  have hle : sorted.Pairwise fun a b => key a ≤ key b := List.pairwise_insertionSort _ _
  exact (hle.and (List.pairwise_map.1 hnodup)).imp fun hab => lt_of_le_of_ne hab.1 hab.2

theorem pairwise_page (hn : (rows.map key).Nodup) :
    (page key limit rows last).Pairwise fun a b => key a < key b :=
  (pairwise_sorted hn last).sublist (List.take_sublist _ _)

/-- No row of a page is behind its last row. -/
theorem le_getLast (hn : (rows.map key).Nodup) {a r : α}
    (hr : (page key limit rows last).getLast? = some r) (ha : a ∈ page key limit rows last) :
    key a ≤ key r := by
  have hpage : (page key limit rows last).Pairwise fun a b => key a < key b := pairwise_page hn
  obtain ⟨pre, hpre⟩ := List.getLast?_eq_some_iff.1 hr
  rw [hpre] at ha hpage
  rcases List.mem_append.1 ha with ha | ha
  · exact le_of_lt ((List.pairwise_append.1 hpage).2.2 a ha r (List.mem_singleton_self r))
  · rw [List.mem_singleton.1 ha]

/-- The rows behind a cursor are the next page and the rows behind its last row. -/
theorem behind_perm (hn : (rows.map key).Nodup) {r : α}
    (h : (page key limit rows last).getLast? = some r) :
    (behind key rows last).Perm (page key limit rows last ++ behind key rows (key r)) := by
  let sorted := (behind key rows last).insertionSort fun a b => key a ≤ key b
  have hperm : sorted.Perm (behind key rows last) := List.perm_insertionSort _ _
  have hsplit : page key limit rows last ++ sorted.drop limit = sorted := List.take_append_drop _ _
  have hr : r ∈ page key limit rows last := List.mem_of_getLast? h
  -- the keys ascend strictly, so that the last row of the page separates it from the rest
  have hsorted : sorted.Pairwise fun a b => key a < key b := pairwise_sorted hn last
  rw [← hsplit, List.pairwise_append] at hsorted
  have hrest : (sorted.filter fun a => key r < key a) = sorted.drop limit := by
    conv_lhs => rw [← hsplit]
    rw [List.filter_append, List.filter_eq_nil_iff.2, List.filter_eq_self.2, List.nil_append]
    · exact fun a ha => decide_eq_true (hsorted.2.2 r hr a ha)
    · intro a ha
      simp only [decide_eq_true_eq]
      exact not_lt.2 (le_getLast hn h ha)
  have hlast : last < key r := (mem_of_mem_page hr).2
  have hbehind : (sorted.filter fun a => key r < key a).Perm (behind key rows (key r)) := by
    refine (hperm.filter _).trans ?_
    rw [behind, behind, List.filter_filter]
    refine List.Perm.of_eq (List.filter_congr fun a _ => ?_)
    by_cases ha : key r < key a
    · simp [ha, hlast.trans ha]
    · simp [ha]
  rw [hrest] at hbehind
  exact (hperm.symm.trans (List.Perm.of_eq hsplit.symm)).trans (hbehind.append_left _)

/-- **The pages are the rows behind the first cursor**, whatever the limit. -/
theorem flatten_pages_perm (hn : (rows.map key).Nodup) (hlimit : 0 < limit) (last : κ) :
    (pages key limit rows last).flatten.Perm (behind key rows last) := by
  fun_induction pages key limit rows last with
  | case1 last hpage =>
    have hnil : behind key rows last = [] := by
      rw [page, List.take_eq_nil_iff] at hpage
      rcases hpage with rfl | hsort
      · omega
      · have hperm := List.perm_insertionSort (fun a b => key a ≤ key b) (behind key rows last)
        rw [hsort] at hperm
        exact hperm.symm.eq_nil
    rw [hnil]
    rfl
  | case2 last a as hpage ih =>
    have hlast : (page key limit rows last).getLast? =
        some ((a :: as).getLast (List.cons_ne_nil a as)) := by
      rw [hpage, List.getLast?_eq_some_getLast]
    have hperm := behind_perm hn hlast
    rw [hpage] at hperm
    rw [List.flatten_cons]
    exact (ih.append_left _).trans hperm.symm

/-- The keys ascend from page to page. -/
theorem pairwise_flatten_pages (hn : (rows.map key).Nodup) (hlimit : 0 < limit) (last : κ) :
    (pages key limit rows last).flatten.Pairwise fun a b => key a < key b := by
  fun_induction pages key limit rows last with
  | case1 last hpage => exact List.Pairwise.nil
  | case2 last a as hpage ih =>
    have hlast : (page key limit rows last).getLast? =
        some ((a :: as).getLast (List.cons_ne_nil a as)) := by
      rw [hpage, List.getLast?_eq_some_getLast]
    rw [List.flatten_cons, List.pairwise_append]
    refine ⟨hpage ▸ pairwise_page hn, ih, fun b hb c hc => ?_⟩
    have hbehind := mem_behind.1 ((flatten_pages_perm hn hlimit _).mem_iff.1 hc)
    exact lt_of_le_of_lt (le_getLast hn hlast (hpage ▸ hb)) hbehind.2

/-- **Pages of rows that are in the order of their keys are the rows themselves.** -/
theorem flatten_pages_eq (hs : (rows.map key).Pairwise (· < ·)) (hpos : ∀ r ∈ rows, last < key r)
    (hlimit : 0 < limit) : (pages key limit rows last).flatten = rows := by
  have hbehind : behind key rows last = rows :=
    List.filter_eq_self.2 fun r hr => decide_eq_true (hpos r hr)
  have hn : (rows.map key).Nodup := hs.imp fun h => ne_of_lt h
  have hperm := flatten_pages_perm hn hlimit last
  rw [hbehind] at hperm
  exact hperm.eq_of_pairwise (fun a b _ _ hab hba => absurd (hab.trans hba) (lt_irrefl _))
    (pairwise_flatten_pages hn hlimit last) (List.pairwise_map.1 hs)

/-! ## A reader that stops at a short page -/

/-- The pages behind a cursor, up to the first that has fewer rows than the limit. -/
def scan (key : α → κ) (limit : Nat) (rows : List α) (last : κ) : List (List α) :=
  match _h : page key limit rows last with
  | [] => []
  | a :: as => (a :: as) :: if (a :: as).length < limit then [] else
      scan key limit rows (key ((a :: as).getLast (List.cons_ne_nil a as)))
termination_by (behind key rows last).length
decreasing_by
  have hmem : (a :: as).getLast (List.cons_ne_nil a as) ∈ page key limit rows last := by
    rw [_h]
    exact List.getLast_mem _
  exact length_behind_lt hmem

/-- Behind a short page there is nothing. -/
theorem page_of_short (hn : (rows.map key).Nodup) {r : α}
    (hr : (page key limit rows last).getLast? = some r)
    (hshort : (page key limit rows last).length < limit) : page key limit rows (key r) = [] := by
  have hlen := (behind_perm hn hr).length_eq
  have hall : (page key limit rows last).length = (behind key rows last).length := by
    rw [page, List.length_take, List.length_insertionSort] at hshort ⊢
    omega
  have hnil : behind key rows (key r) = [] := by
    rw [List.length_append] at hlen
    exact List.eq_nil_of_length_eq_zero (by omega)
  rw [page, hnil, List.insertionSort_nil, List.take_nil]

/-- **Stopping at a short page loses nothing.** -/
theorem scan_eq_pages (hn : (rows.map key).Nodup) (last : κ) :
    scan key limit rows last = pages key limit rows last := by
  fun_induction scan key limit rows last with
  | case1 last hpage => rw [pages_of_nil hpage]
  | case2 last a as hpage ih =>
    have hlast : (page key limit rows last).getLast? =
        some ((a :: as).getLast (List.cons_ne_nil a as)) := by
      rw [hpage, List.getLast?_eq_some_getLast]
    rw [pages_of_cons hpage]
    by_cases hshort : (a :: as).length < limit
    · rw [if_pos hshort, pages_of_nil (page_of_short hn hlast (hpage ▸ hshort))]
    · rw [if_neg hshort, ih]

/-! ## A loop over pages -/

section Loop

variable {σ : Type u} {ε : Type v} {read : σ → List α} {body : σ → List α → OptionT (Except ε) σ}

/-- `while True`: fetch the next page from the state as it is now, stop when it is empty, else
treat it and go on behind its last row.  The loop is followed for at most `fuel` pages. -/
def foldPages (key : α → κ) (limit : Nat) (read : σ → List α)
    (body : σ → List α → OptionT (Except ε) σ) : Nat → κ → σ → OptionT (Except ε) σ
  | 0, _, _ => failure
  | fuel + 1, last, s =>
    match page key limit (read s) last with
    | [] => pure s
    | a :: as => do
      let s ← body s (a :: as)
      foldPages key limit read body fuel (key ((a :: as).getLast (List.cons_ne_nil a as))) s

/-- **A loop whose body does not change the rows behind its page is a fold over the pages**, and it
ends. -/
theorem foldPages_eq_of_behind {g : σ → List α → Except ε σ} {I : σ → Prop}
    (hbody : ∀ s as, I s → body s as = OptionT.lift (g s as))
    (hkeep : ∀ s as last r s', I s → page key limit (read s) last = as → as.getLast? = some r →
      g s as = .ok s' → I s' ∧ behind key (read s') (key r) = behind key (read s) (key r))
    {fuel : Nat} {last : κ} {s : σ} (hs : I s)
    (hfuel : (behind key (read s) last).length < fuel) :
    foldPages key limit read body fuel last s =
      OptionT.lift ((pages key limit (read s) last).foldlM g s) := by
  induction fuel generalizing last s with
  | zero => omega
  | succ fuel ih =>
    rw [foldPages]
    split
    · rename_i hpage
      rw [pages_of_nil hpage]
      rfl
    · rename_i a as hpage
      have hlast : (a :: as).getLast? = some ((a :: as).getLast (List.cons_ne_nil a as)) :=
        List.getLast?_eq_some_getLast _
      have hmem : (a :: as).getLast (List.cons_ne_nil a as) ∈ page key limit (read s) last := by
        rw [hpage]
        exact List.getLast_mem _
      have hshort := length_behind_lt hmem
      rw [pages_of_cons hpage, List.foldlM_cons, hbody s _ hs]
      cases hg : g s (a :: as) with
      | error e => rfl
      | ok s' =>
        obtain ⟨hs', hbehind⟩ := hkeep s _ last _ s' hs hpage hlast hg
        have hrest : (behind key (read s')
            (key ((a :: as).getLast (List.cons_ne_nil a as)))).length < fuel := by
          rw [hbehind]
          omega
        have hloop := ih hs' hrest
        rw [pages_congr hbehind] at hloop
        exact hloop

/-- A loop whose body does not change the rows it reads. -/
theorem foldPages_eq {g : σ → List α → Except ε σ} {I : σ → Prop}
    (hbody : ∀ s as, I s → body s as = OptionT.lift (g s as))
    (hkeep : ∀ s as s', I s → g s as = .ok s' → I s' ∧ read s' = read s) {fuel : Nat} {last : κ}
    {s : σ} (hs : I s) (hfuel : (behind key (read s) last).length < fuel) :
    foldPages key limit read body fuel last s =
      OptionT.lift ((pages key limit (read s) last).foldlM g s) := by
  refine foldPages_eq_of_behind hbody (fun s as _ r s' hs _ _ hg => ?_) hs hfuel
  obtain ⟨hs', hread⟩ := hkeep s as s' hs hg
  exact ⟨hs', by rw [hread]⟩

end Loop

/-! ## Splitting by a column -/

/-- **The rows with one of the given values**, value by value. -/
theorem flatMap_filter_perm {β : Type v} [DecidableEq β] (column : α → β) {values : List β}
    (hn : values.Nodup) (rows : List α) :
    (values.flatMap fun v => rows.filter fun r => column r = v).Perm
      (rows.filter fun r => column r ∈ values) := by
  induction values with
  | nil => simp
  | cons v values ih =>
    rw [List.nodup_cons] at hn
    rw [List.flatMap_cons]
    refine ((ih hn.2).append_left _).trans ?_
    have hsplit := List.filter_append_perm (fun r => decide (column r = v))
      (rows.filter fun r => column r ∈ v :: values)
    rw [List.filter_filter, List.filter_filter] at hsplit
    refine List.Perm.trans (List.Perm.of_eq ?_) hsplit
    congr 1
    · refine List.filter_congr fun r _ => ?_
      by_cases hr : column r = v <;> simp [hr]
    · refine List.filter_congr fun r _ => ?_
      by_cases hr : column r = v
      · simp [hr, hn.1]
      · simp [hr]

end Paging
