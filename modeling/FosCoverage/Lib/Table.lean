import Mathlib.Data.List.Nodup
import Mathlib.Data.List.Basic

/-!
# Relational tables as lists of keyed rows

A table of a relational database, read as the list of its rows:

* `Keyed κ α` is a table whose primary key is chosen by the writer.  Its rows carry the proof that
  no key occurs twice, so `get?` and membership say the same thing (`Keyed.get?_eq_some_iff`).
* `Table α` is a table with an auto-increment integer key.  Its rows are in ascending order of
  their key, every key is positive and below `next`, and `next` is the key of the next insertion.
  Reading the rows front to back is therefore what `ORDER BY id` returns.
* `Table.UniqueOn` says that a column is a key; insertions of new values keep it one.
* `Evolves` compares two states of a table whose rows carry a revision number: no row is lost, no
  revision falls, and an unchanged revision means an unchanged row.

The statements of SQL the tables are written with are `updateWhere`, `deleteWhere`, `put`
(`INSERT ... ON CONFLICT DO UPDATE`), `insert` and `insertMany`; each comes with the lemma that
says what `get?` returns afterwards.
-/

set_option autoImplicit false

namespace Relational

universe u v

/-! ## Association lists -/

theorem mem_of_lookup {κ : Type u} {α : Type v} [BEq κ] [LawfulBEq κ] {l : List (κ × α)} {k : κ}
    {a : α} (h : l.lookup k = some a) : (k, a) ∈ l := by
  induction l with
  | nil => cases h
  | cons p l ih =>
    obtain ⟨k', a'⟩ := p
    rw [List.lookup_cons] at h
    split at h
    · rename_i he
      obtain rfl : k = k' := by simpa using he
      obtain rfl : a' = a := Option.some.inj h
      exact List.mem_cons_self
    · exact List.mem_cons_of_mem _ (ih h)

/-- A list that repeats no key is looked up for its members. -/
theorem lookup_eq_some_iff {κ : Type u} {α : Type v} [BEq κ] [LawfulBEq κ] {l : List (κ × α)}
    (hn : (l.map Prod.fst).Nodup) {k : κ} {a : α} : l.lookup k = some a ↔ (k, a) ∈ l := by
  refine ⟨mem_of_lookup, fun h => ?_⟩
  cases hl : l.lookup k with
  | none =>
    rw [List.lookup_eq_none_iff] at hl
    exact absurd (hl _ h) (by simp)
  | some b => rw [(Prod.mk.inj (List.inj_on_of_nodup_map hn (mem_of_lookup hl) h rfl)).2]

/-! ## Tables with a primary key -/

/-- A table with primary key `κ`: a list of rows in which no key occurs twice. -/
structure Keyed (κ : Type u) (α : Type v) where
  /-- The rows, each with its key. -/
  rows : List (κ × α)
  /-- The primary-key constraint. -/
  nodup : (rows.map Prod.fst).Nodup

namespace Keyed

variable {κ : Type u} {α : Type v}

@[ext] theorem ext' {t t' : Keyed κ α} (h : t.rows = t'.rows) : t = t' := by
  cases t
  cases t'
  cases h
  rfl

/-- The table without rows. -/
def empty : Keyed κ α := ⟨[], List.nodup_nil⟩

instance : Inhabited (Keyed κ α) := ⟨empty⟩

section Get

variable [DecidableEq κ]

/-- The row with key `k`. -/
def get? (t : Keyed κ α) (k : κ) : Option α :=
  (t.rows.find? fun r => r.1 = k).map Prod.snd

theorem get?_eq_some_iff {t : Keyed κ α} {k : κ} {a : α} :
    t.get? k = some a ↔ (k, a) ∈ t.rows := by
  unfold get?
  constructor
  · intro h
    obtain ⟨r, hr, rfl⟩ := Option.map_eq_some_iff.1 h
    have hk : r.1 = k := by simpa using List.find?_some hr
    have hm := List.mem_of_find?_eq_some hr
    rwa [← hk]
  · intro h
    cases hf : t.rows.find? fun r => r.1 = k with
    | none =>
      have := List.find?_eq_none.1 hf (k, a) h
      simp at this
    | some r =>
      have hk : r.1 = k := by simpa using List.find?_some hf
      have hm := List.mem_of_find?_eq_some hf
      have := List.inj_on_of_nodup_map t.nodup hm h hk
      simp [this]

theorem get?_eq_none_iff {t : Keyed κ α} {k : κ} :
    t.get? k = none ↔ ∀ a, (k, a) ∉ t.rows := by
  rw [Option.eq_none_iff_forall_not_mem]
  simp only [Option.mem_def, get?_eq_some_iff]

@[simp] theorem get?_empty (k : κ) : (empty : Keyed κ α).get? k = none := rfl

/-- Two tables with the same rows up to order answer every lookup alike; conversely the lookups
determine membership. -/
theorem mem_rows_iff {t : Keyed κ α} {r : κ × α} : r ∈ t.rows ↔ t.get? r.1 = some r.2 :=
  get?_eq_some_iff.symm

end Get

/-- `UPDATE ... SET ... WHERE p`. -/
def updateWhere (t : Keyed κ α) (p : κ → α → Bool) (f : α → α) : Keyed κ α where
  rows := t.rows.map fun r => (r.1, if p r.1 r.2 then f r.2 else r.2)
  nodup := by
    rw [List.map_map]
    exact t.nodup

/-- `DELETE ... WHERE p`. -/
def deleteWhere (t : Keyed κ α) (p : κ → α → Bool) : Keyed κ α where
  rows := t.rows.filter fun r => !p r.1 r.2
  nodup := (List.filter_sublist.map Prod.fst).nodup t.nodup

/-- `SELECT * ... WHERE p`, in the order of the rows. -/
def select (t : Keyed κ α) (p : κ → α → Bool) : List (κ × α) :=
  t.rows.filter fun r => p r.1 r.2

theorem mem_select {t : Keyed κ α} {p : κ → α → Bool} {r : κ × α} :
    r ∈ t.select p ↔ r ∈ t.rows ∧ p r.1 r.2 = true :=
  List.mem_filter

variable [DecidableEq κ]

@[simp] theorem get?_updateWhere (t : Keyed κ α) (p : κ → α → Bool) (f : α → α) (k : κ) :
    (t.updateWhere p f).get? k = (t.get? k).map fun a => if p k a then f a else a := by
  apply Option.ext
  intro b
  rw [get?_eq_some_iff, Option.map_eq_some_iff]
  simp only [updateWhere, List.mem_map, Prod.mk.injEq]
  constructor
  · rintro ⟨r, hr, rfl, rfl⟩
    exact ⟨r.2, get?_eq_some_iff.2 hr, rfl⟩
  · rintro ⟨a, ha, rfl⟩
    exact ⟨(k, a), get?_eq_some_iff.1 ha, rfl, rfl⟩

@[simp] theorem get?_deleteWhere (t : Keyed κ α) (p : κ → α → Bool) (k : κ) :
    (t.deleteWhere p).get? k = (t.get? k).filter fun a => !p k a := by
  apply Option.ext
  intro b
  rw [get?_eq_some_iff, Option.filter_eq_some_iff, get?_eq_some_iff]
  simp [deleteWhere]

/-- `INSERT ... ON CONFLICT (key) DO UPDATE`: replace the row with key `k`, or append it. -/
def put (t : Keyed κ α) (k : κ) (a : α) : Keyed κ α where
  rows := if (t.get? k).isSome then (t.updateWhere (fun k' _ => k' = k) fun _ => a).rows
    else t.rows ++ [(k, a)]
  nodup := by
    split
    · exact (t.updateWhere _ _).nodup
    · rename_i h
      rw [List.map_append, List.nodup_append]
      refine ⟨t.nodup, by simp, ?_⟩
      rintro k₁ h₁ k₂ h₂ rfl
      obtain ⟨r, hr, rfl⟩ := List.mem_map.1 h₁
      obtain rfl : r.1 = k := by simpa using h₂
      have : t.get? r.1 = some r.2 := get?_eq_some_iff.2 hr
      simp [this] at h

@[simp] theorem get?_put (t : Keyed κ α) (k k' : κ) (a : α) :
    (t.put k a).get? k' = if k' = k then some a else t.get? k' := by
  by_cases h : (t.get? k).isSome
  · have hrows : t.put k a = t.updateWhere (fun k' _ => k' = k) fun _ => a := by
      ext1
      simp [put, h]
    rw [hrows, get?_updateWhere]
    by_cases hk : k' = k
    · subst hk
      obtain ⟨b, hb⟩ := Option.isSome_iff_exists.1 h
      simp [hb]
    · simp [hk]
  · have hrows : (t.put k a).rows = t.rows ++ [(k, a)] := by simp [put, h]
    rw [Option.not_isSome_iff_eq_none] at h
    unfold get? at h ⊢
    rw [hrows, List.find?_append]
    by_cases hk : k' = k
    · subst hk
      rw [Option.map_eq_none_iff.1 h]
      simp
    · simp [hk, Ne.symm hk]

/-- A key none of the written rows has. -/
theorem get?_puts_of_ne {rows : List (κ × α)} (t : Keyed κ α) {k : κ} (h : ∀ r ∈ rows, r.1 ≠ k) :
    (rows.foldl (fun t r => t.put r.1 r.2) t).get? k = t.get? k := by
  induction rows generalizing t with
  | nil => rfl
  | cons r rows ih =>
    rw [List.foldl_cons, ih _ fun r' hr' => h r' (List.mem_cons_of_mem _ hr'), get?_put,
      if_neg (h r List.mem_cons_self).symm]

/-- The row written for a key. -/
theorem get?_puts_of_mem {rows : List (κ × α)} (t : Keyed κ α) {r : κ × α}
    (hn : (rows.map Prod.fst).Nodup) (hr : r ∈ rows) :
    (rows.foldl (fun t r => t.put r.1 r.2) t).get? r.1 = some r.2 := by
  induction rows generalizing t with
  | nil => cases hr
  | cons x rows ih =>
    rw [List.map_cons, List.nodup_cons] at hn
    rw [List.foldl_cons]
    rcases List.mem_cons.1 hr with rfl | hr
    · rw [get?_puts_of_ne, get?_put, if_pos rfl]
      exact fun r' hr' he => hn.1 (List.mem_map.2 ⟨r', hr', he⟩)
    · exact ih _ hn.2 hr

/-- A column has no repetition among some rows when it determines their key. -/
theorem nodup_column {β : Type} {t : Keyed κ α} {p : κ × α → Bool} {f : κ × α → β} :
    ((t.rows.filter p).map f).Nodup ↔ ∀ k k' a a', t.get? k = some a → t.get? k' = some a' →
      p (k, a) = true → p (k', a') = true → f (k, a) = f (k', a') → k = k' := by
  have hrows : (t.rows.filter p).Nodup := (List.Nodup.of_map Prod.fst t.nodup).filter p
  rw [List.nodup_map_iff_inj_on hrows]
  constructor
  · intro h k k' a a' hk hk' hp hp' hf
    exact congrArg Prod.fst (h (k, a) (List.mem_filter.2 ⟨get?_eq_some_iff.1 hk, hp⟩) (k', a')
      (List.mem_filter.2 ⟨get?_eq_some_iff.1 hk', hp'⟩) hf)
  · rintro h ⟨k, a⟩ hx ⟨k', a'⟩ hy hf
    rw [List.mem_filter] at hx hy
    have hk := get?_eq_some_iff.2 hx.1
    have hk' := get?_eq_some_iff.2 hy.1
    obtain rfl := h k k' a a' hk hk' hx.2 hy.2 hf
    rw [Option.some.inj (hk.symm.trans hk')]

/-! ### Searches a statement does not touch -/

omit [DecidableEq κ] in
/-- An update is invisible to a search that finds none of the rows it touches, neither before nor
after. -/
theorem find?_updateWhere {t : Keyed κ α} {p : κ → α → Bool} {f : α → α} {q : κ × α → Bool}
    (h : ∀ r ∈ t.rows, p r.1 r.2 = true → q r = false ∧ q (r.1, f r.2) = false) :
    (t.updateWhere p f).rows.find? q = t.rows.find? q := by
  have key : ∀ l : List (κ × α), (∀ r ∈ l, r ∈ t.rows) →
      (l.map fun r => (r.1, if p r.1 r.2 then f r.2 else r.2)).find? q = l.find? q := by
    intro l
    induction l with
    | nil => exact fun _ => rfl
    | cons r l ih =>
      intro hl
      have ih := ih fun r' hr' => hl r' (List.mem_cons_of_mem _ hr')
      rw [List.map_cons, List.find?_cons, List.find?_cons, ih]
      by_cases hp : p r.1 r.2 = true
      · have := h r (hl r List.mem_cons_self) hp
        simp [hp, this]
      · simp [hp]
  exact key t.rows fun _ hr => hr

omit [DecidableEq κ] in
/-- An update leaves a selection alone when it touches none of the selected rows and makes no row
selected. -/
theorem select_updateWhere {t : Keyed κ α} {p q : κ → α → Bool} {f : α → α}
    (h : ∀ r ∈ t.rows, p r.1 r.2 = true → q r.1 r.2 = false ∧ q r.1 (f r.2) = false) :
    (t.updateWhere p f).select q = t.select q := by
  have key : ∀ l : List (κ × α), (∀ r ∈ l, r ∈ t.rows) →
      (l.map fun r => (r.1, if p r.1 r.2 then f r.2 else r.2)).filter (fun r => q r.1 r.2)
        = l.filter fun r => q r.1 r.2 := by
    intro l
    induction l with
    | nil => exact fun _ => rfl
    | cons r l ih =>
      intro hl
      have ih := ih fun r' hr' => hl r' (List.mem_cons_of_mem _ hr')
      rw [List.map_cons, List.filter_cons, List.filter_cons, ih]
      by_cases hp : p r.1 r.2 = true
      · have := h r (hl r List.mem_cons_self) hp
        simp [hp, this]
      · simp [hp]
  exact key t.rows fun _ hr => hr

end Keyed

/-! ## Tables with an auto-increment key -/

/-- A table with an auto-increment integer key. -/
structure Table (α : Type v) extends Keyed Nat α where
  /-- The key the next inserted row receives. -/
  next : Nat
  /-- Keys start at one. -/
  next_pos : 0 < next
  /-- The rows are stored in the order of their keys. -/
  ordered : (rows.map Prod.fst).Pairwise (· < ·)
  /-- Every key of a row has been issued. -/
  issued : ∀ k ∈ rows.map Prod.fst, 0 < k ∧ k < next

namespace Table

variable {α : Type v}

theorem ext' {t t' : Table α} (h : t.rows = t'.rows) (hn : t.next = t'.next) : t = t' := by
  cases t with
  | mk k n _ _ _ =>
    cases t' with
    | mk k' n' _ _ _ =>
      obtain rfl : k = k' := Keyed.ext' h
      obtain rfl : n = n' := hn
      rfl

/-- The table without rows; the first inserted row receives key one. -/
def empty : Table α := ⟨Keyed.empty, 1, Nat.one_pos, List.Pairwise.nil, by simp [Keyed.empty]⟩

instance : Inhabited (Table α) := ⟨empty⟩

theorem get?_issued {t : Table α} {k : Nat} {a : α} (h : t.get? k = some a) :
    0 < k ∧ k < t.next :=
  t.issued k (List.mem_map_of_mem (f := Prod.fst) (Keyed.get?_eq_some_iff.1 h))

theorem get?_eq_none_of_le {t : Table α} {k : Nat} (h : t.next ≤ k) : t.get? k = none := by
  rw [Option.eq_none_iff_forall_not_mem]
  intro a ha
  have := get?_issued ha
  omega

@[simp] theorem get?_zero (t : Table α) : t.get? 0 = none := by
  rw [Option.eq_none_iff_forall_not_mem]
  intro a ha
  have := get?_issued ha
  omega

@[simp] theorem get?_empty (k : Nat) : (empty : Table α).get? k = none := rfl

/-- `INSERT`: the row is appended under the key `t.next`. -/
def insert (t : Table α) (a : α) : Table α where
  rows := t.rows ++ [(t.next, a)]
  nodup := by
    rw [List.map_append, List.nodup_append]
    refine ⟨t.nodup, by simp, ?_⟩
    intro k₁ h₁ k₂ h₂
    have := t.issued k₁ h₁
    obtain rfl : k₂ = t.next := by simpa using h₂
    omega
  next := t.next + 1
  next_pos := Nat.succ_pos _
  ordered := by
    rw [List.map_append, List.pairwise_append]
    refine ⟨t.ordered, by simp, ?_⟩
    intro k₁ h₁ k₂ h₂
    have := t.issued k₁ h₁
    obtain rfl : k₂ = t.next := by simpa using h₂
    omega
  issued := by
    intro k hk
    rw [List.map_append, List.mem_append] at hk
    rcases hk with hk | hk
    · have := t.issued k hk
      omega
    · obtain rfl : k = t.next := by simpa using hk
      exact ⟨t.next_pos, Nat.lt_succ_self _⟩

@[simp] theorem rows_insert (t : Table α) (a : α) :
    (t.insert a).rows = t.rows ++ [(t.next, a)] := rfl

@[simp] theorem next_insert (t : Table α) (a : α) : (t.insert a).next = t.next + 1 := rfl

@[simp] theorem get?_insert (t : Table α) (a : α) (k : Nat) :
    (t.insert a).get? k = if k = t.next then some a else t.get? k := by
  by_cases hk : k = t.next
  · subst hk
    rw [if_pos rfl, Keyed.get?_eq_some_iff]
    simp
  · rw [if_neg hk]
    apply Option.ext
    intro b
    simp [Keyed.get?_eq_some_iff, hk]

/-- A new row is invisible to a search that does not look for it. -/
theorem find?_insert {t : Table α} {a : α} {q : Nat × α → Bool} (h : q (t.next, a) = false) :
    (t.insert a).rows.find? q = t.rows.find? q := by
  simp [List.find?_append, h]

theorem select_insert {t : Table α} {a : α} {q : Nat → α → Bool} (h : q t.next a = false) :
    (t.insert a).select q = t.select q := by
  simp [Keyed.select, List.filter_append, h]

/-- `UPDATE ... SET ... WHERE p`. -/
def updateWhere (t : Table α) (p : Nat → α → Bool) (f : α → α) : Table α where
  toKeyed := t.toKeyed.updateWhere p f
  next := t.next
  next_pos := t.next_pos
  ordered := by
    have h : (t.toKeyed.updateWhere p f).rows.map Prod.fst = t.rows.map Prod.fst := by
      simp [Keyed.updateWhere]
    rw [h]
    exact t.ordered
  issued := by
    have h : (t.toKeyed.updateWhere p f).rows.map Prod.fst = t.rows.map Prod.fst := by
      simp [Keyed.updateWhere]
    rw [h]
    exact t.issued

@[simp] theorem toKeyed_updateWhere (t : Table α) (p : Nat → α → Bool) (f : α → α) :
    (t.updateWhere p f).toKeyed = t.toKeyed.updateWhere p f := rfl

@[simp] theorem next_updateWhere (t : Table α) (p : Nat → α → Bool) (f : α → α) :
    (t.updateWhere p f).next = t.next := rfl

/-- `DELETE ... WHERE p`.  The keys of deleted rows are not issued again. -/
def deleteWhere (t : Table α) (p : Nat → α → Bool) : Table α where
  toKeyed := t.toKeyed.deleteWhere p
  next := t.next
  next_pos := t.next_pos
  ordered := List.Pairwise.sublist (List.filter_sublist.map Prod.fst) t.ordered
  issued := fun k hk => t.issued k ((List.filter_sublist.map Prod.fst).subset hk)

@[simp] theorem toKeyed_deleteWhere (t : Table α) (p : Nat → α → Bool) :
    (t.deleteWhere p).toKeyed = t.toKeyed.deleteWhere p := rfl

/-- A multi-row `INSERT`: the rows receive consecutive keys from `t.next` on. -/
def insertMany (t : Table α) (as : List α) : Table α :=
  as.foldl insert t

/-- The keys a multi-row insertion of `n` rows hands out. -/
def newKeys (t : Table α) (n : Nat) : List Nat :=
  List.range' t.next n

@[simp] theorem insertMany_nil (t : Table α) : t.insertMany [] = t := rfl

@[simp] theorem insertMany_cons (t : Table α) (a : α) (as : List α) :
    t.insertMany (a :: as) = (t.insert a).insertMany as := rfl

@[simp] theorem next_insertMany (t : Table α) (as : List α) :
    (t.insertMany as).next = t.next + as.length := by
  induction as generalizing t with
  | nil => rfl
  | cons a as ih =>
    rw [insertMany_cons, ih, next_insert, List.length_cons]
    omega

theorem get?_insertMany (t : Table α) (as : List α) (k : Nat) :
    (t.insertMany as).get? k = if k < t.next then t.get? k else as[k - t.next]? := by
  induction as generalizing t with
  | nil =>
    by_cases hk : k < t.next
    · simp [hk]
    · simp [hk, get?_eq_none_of_le (Nat.le_of_not_lt hk)]
  | cons a as ih =>
    rw [insertMany_cons, ih, next_insert, get?_insert]
    rcases Nat.lt_trichotomy k t.next with hk | hk | hk
    · rw [if_pos (by omega), if_neg (by omega), if_pos hk]
    · subst hk
      simp
    · obtain ⟨d, rfl⟩ := Nat.exists_eq_add_of_lt hk
      rw [if_neg (by omega), if_neg (by omega), show t.next + d + 1 - t.next = d + 1 by omega,
        show t.next + d + 1 - (t.next + 1) = d by omega, List.getElem?_cons_succ]

/-- Insertions leave the rows that exist alone. -/
theorem get?_insertMany_of_some {t : Table α} {as : List α} {k : Nat} {a : α}
    (h : t.get? k = some a) : (t.insertMany as).get? k = some a := by
  rw [get?_insertMany, if_pos (get?_issued h).2, h]

theorem get?_insert_of_some {t : Table α} {k : Nat} {a b : α} (h : t.get? k = some a) :
    (t.insert b).get? k = some a := by
  have hmany : (t.insertMany [b]).get? k = some a := get?_insertMany_of_some h
  exact hmany

theorem insertMany_append (t : Table α) (as bs : List α) :
    t.insertMany (as ++ bs) = (t.insertMany as).insertMany bs := by
  simp [insertMany, List.foldl_append]

/-- New rows are invisible to a selection that wants none of them. -/
theorem select_insertMany {t : Table α} {as : List α} {q : Nat → α → Bool}
    (h : ∀ k, ∀ a ∈ as, q k a = false) : (t.insertMany as).select q = t.select q := by
  induction as generalizing t with
  | nil => rfl
  | cons a as ih =>
    rw [insertMany_cons, ih fun k b hb => h k b (List.mem_cons_of_mem _ hb),
      select_insert (h _ a List.mem_cons_self)]

/-- A row after a multi-row insertion is an old row or one of the new ones. -/
theorem get?_insertMany_cases {t : Table α} {as : List α} {k : Nat} {a : α}
    (h : (t.insertMany as).get? k = some a) : t.get? k = some a ∨ (t.next ≤ k ∧ a ∈ as) := by
  rw [get?_insertMany] at h
  split at h
  · exact .inl h
  · exact .inr ⟨by omega, List.mem_of_getElem? h⟩

/-- Every row of a multi-row insertion gets a key. -/
theorem exists_get?_insertMany {t : Table α} {as : List α} {a : α} (h : a ∈ as) :
    ∃ k, (t.insertMany as).get? k = some a := by
  obtain ⟨i, hi, rfl⟩ := List.getElem_of_mem h
  refine ⟨t.next + i, ?_⟩
  rw [get?_insertMany, if_neg (by omega), Nat.add_sub_cancel_left, List.getElem?_eq_getElem hi]

/-! ## Unique columns -/

/-- The column is a key: no two rows have the same value. -/
def UniqueOn {β : Type} (key : α → β) (t : Table α) : Prop :=
  ∀ k k' a a', t.get? k = some a → t.get? k' = some a' → key a = key a' → k = k'

/-- A check of the rows, two at a time. -/
theorem uniqueOn_of_rows {β : Type} {key : α → β} {t : Table α}
    (h : ∀ r ∈ t.rows, ∀ r' ∈ t.rows, key r.2 = key r'.2 → r.1 = r'.1) : UniqueOn key t :=
  fun _ _ _ _ hk hk' he => h _ (Keyed.get?_eq_some_iff.1 hk) _ (Keyed.get?_eq_some_iff.1 hk') he

/-- New rows with new values keep a column unique. -/
theorem UniqueOn.insertMany {β : Type} {key : α → β} {t : Table α} {as : List α}
    (h : UniqueOn key t) (hn : (as.map key).Nodup)
    (hfresh : ∀ a ∈ as, ∀ k b, t.get? k = some b → key b ≠ key a) :
    UniqueOn key (t.insertMany as) := by
  intro k k' a a' hk hk' he
  rw [get?_insertMany] at hk hk'
  split at hk <;> split at hk'
  · exact h k k' a a' hk hk' he
  · exact absurd he (hfresh a' (List.mem_of_getElem? hk') k a hk)
  · exact absurd he.symm (hfresh a (List.mem_of_getElem? hk) k' a' hk')
  · rename_i hge hge'
    obtain ⟨hi, rfl⟩ := List.getElem?_eq_some_iff.1 hk
    obtain ⟨hi', rfl⟩ := List.getElem?_eq_some_iff.1 hk'
    have hrow := List.inj_on_of_nodup_map hn (List.getElem_mem hi) (List.getElem_mem hi') he
    have hidx := (hn.of_map key).getElem_inj_iff.1 hrow
    omega

/-- A new row with a new value keeps a column unique. -/
theorem UniqueOn.insert {β : Type} {key : α → β} {t : Table α} {a : α} (h : UniqueOn key t)
    (hfresh : ∀ k b, t.get? k = some b → key b ≠ key a) : UniqueOn key (t.insert a) := by
  have hmany : UniqueOn key (t.insertMany [a]) := by
    refine h.insertMany (List.nodup_singleton _) fun b hb k c hk => ?_
    rw [List.mem_singleton.1 hb]
    exact hfresh k c hk
  exact hmany

end Table

/-! ## Rows with a revision number -/

/-- `t'` is a later state of `t`: every row of `t` is still there, its revision has not fallen, and
if the revision is the same then so is the whole row. -/
def Evolves {κ : Type u} {α : Type v} [DecidableEq κ] (rev : α → Nat) (t t' : Keyed κ α) : Prop :=
  ∀ k a, t.get? k = some a → ∃ a', t'.get? k = some a' ∧ rev a ≤ rev a' ∧ (rev a = rev a' → a = a')

namespace Evolves

variable {κ : Type u} {α : Type v} [DecidableEq κ] {rev : α → Nat} {t t' t'' : Keyed κ α}

theorem refl (t : Keyed κ α) : Evolves rev t t :=
  fun _ a h => ⟨a, h, Nat.le_refl _, fun _ => rfl⟩

theorem trans (h : Evolves rev t t') (h' : Evolves rev t' t'') : Evolves rev t t'' := by
  intro k a hk
  obtain ⟨a', ha', hle, heq⟩ := h k a hk
  obtain ⟨a'', ha'', hle', heq'⟩ := h' k a' ha'
  refine ⟨a'', ha'', Nat.le_trans hle hle', fun he => ?_⟩
  have h₁ : rev a = rev a' := by omega
  have h₂ : rev a' = rev a'' := by omega
  rw [heq h₁, heq' h₂]

/-- An update that raises the revision of every row it touches is an evolution. -/
theorem updateWhere {p : κ → α → Bool} {f : α → α}
    (hf : ∀ k a, t.get? k = some a → p k a = true → rev a < rev (f a)) :
    Evolves rev t (t.updateWhere p f) := by
  intro k a hk
  rw [Keyed.get?_updateWhere, hk]
  by_cases hp : p k a = true
  · have := hf k a hk hp
    refine ⟨f a, by simp [hp], Nat.le_of_lt this, fun he => ?_⟩
    omega
  · exact ⟨a, by simp [hp], Nat.le_refl _, fun _ => rfl⟩

theorem insertMany {t : Table α} {rev : α → Nat} (as : List α) :
    Evolves rev t.toKeyed (t.insertMany as).toKeyed :=
  fun _ a h => ⟨a, Table.get?_insertMany_of_some h, Nat.le_refl _, fun _ => rfl⟩

theorem insert {t : Table α} {rev : α → Nat} (a : α) :
    Evolves rev t.toKeyed (t.insert a).toKeyed :=
  insertMany [a]

end Evolves

end Relational
