import Mathlib.Algebra.GroupWithZero.Nat
import FosCoverage.Lib.Table

/-!
# Caches in the order of use

A cache with a size for every entry and a counter of all sizes.  The entries are the rows of a
`Keyed` table, the least recently used one first.

* `erase`, `push` and `moveToEnd` are the operations of an ordered dictionary, `oldest` is the key
  an eviction takes.  `total` sums a measure over the rows; each operation comes with what it does
  to the total.
* A `SizedCache` carries the proof that its counter is the total of the sizes, so a counter that has
  drifted cannot be built.
* `evictWhile` is the loop around an eviction.  What a step keeps the loop keeps
  (`evictWhile_inv`), and with enough fuel it stops only where the source's loop stops
  (`evictWhile_stops`).
-/

set_option autoImplicit false

namespace Relational

namespace Keyed

variable {κ α : Type} [DecidableEq κ]

/-! ## Order -/

/-- `pop(key)` -/
def erase (t : Keyed κ α) (k : κ) : Keyed κ α := t.deleteWhere fun k' _ => k' = k

/-- `d[key] = value`, then `move_to_end(key)`. -/
def push (t : Keyed κ α) (k : κ) (a : α) : Keyed κ α where
  rows := (t.erase k).rows ++ [(k, a)]
  nodup := by
    rw [List.map_append, List.nodup_append]
    refine ⟨(t.erase k).nodup, by simp, ?_⟩
    rintro k₁ h₁ k₂ h₂ rfl
    obtain ⟨r, hr, rfl⟩ := List.mem_map.1 h₁
    obtain rfl : r.1 = k := by simpa using h₂
    simpa using (List.mem_filter.1 hr).2

/-- `move_to_end(key)` -/
def moveToEnd (t : Keyed κ α) (k : κ) : Keyed κ α :=
  match t.get? k with
  | none => t
  | some a => t.push k a

/-- The key at the front. -/
def oldest (t : Keyed κ α) : Option κ := t.rows.head?.map Prod.fst

@[simp] theorem get?_erase (t : Keyed κ α) (k k' : κ) :
    (t.erase k).get? k' = if k' = k then none else t.get? k' := by
  rw [erase, get?_deleteWhere]
  by_cases h : k' = k
  · simp [h]
  · cases t.get? k' <;> simp [h]

@[simp] theorem get?_push (t : Keyed κ α) (k k' : κ) (a : α) :
    (t.push k a).get? k' = if k' = k then some a else t.get? k' := by
  have hrows : (t.push k a).get? k' = ((t.erase k).get? k').or (if k' = k then some a else none) := by
    unfold get?
    rw [show (t.push k a).rows = (t.erase k).rows ++ [(k, a)] from rfl, List.find?_append]
    by_cases h : k' = k
    · cases (t.erase k).rows.find? (fun r => r.1 = k') <;> simp [h]
    · cases (t.erase k).rows.find? (fun r => r.1 = k') <;> simp [h, Ne.symm h]
  rw [hrows, get?_erase]
  by_cases h : k' = k
  · simp [h]
  · simp [h]

@[simp] theorem get?_moveToEnd (t : Keyed κ α) (k k' : κ) :
    (t.moveToEnd k).get? k' = t.get? k' := by
  unfold moveToEnd
  split
  · rfl
  · rename_i a ha
    rw [get?_push]
    split
    · rename_i h
      rw [h, ha]
    · rfl

omit [DecidableEq κ] in
/-- Only an empty cache has no oldest entry. -/
theorem oldest_eq_none {t : Keyed κ α} (h : t.oldest = none) : t.rows = [] := by
  unfold oldest at h
  simpa using h

/-! ## Totals -/

/-- A measure summed over the rows. -/
def total (f : α → Nat) (t : Keyed κ α) : Nat := (t.rows.map fun r => f r.2).sum

omit [DecidableEq κ] in
@[simp] theorem total_empty (f : α → Nat) : (empty : Keyed κ α).total f = 0 := rfl

/-- Without the row of a key the others remain. -/
theorem sum_filter_ne {f : α → Nat} {l : List (κ × α)} {k : κ} {a : α}
    (hn : (l.map Prod.fst).Nodup) (h : (k, a) ∈ l) :
    ((l.filter fun r => !decide (r.1 = k)).map fun r => f r.2).sum + f a =
      (l.map fun r => f r.2).sum := by
  induction l with
  | nil => cases h
  | cons r l ih =>
    rw [List.map_cons, List.nodup_cons] at hn
    rcases List.mem_cons.1 h with rfl | hl
    · have hkeep : (l.filter fun r => !decide (r.1 = k)) = l := by
        rw [List.filter_eq_self]
        intro r hr
        have : r.1 ≠ k := fun he => hn.1 (List.mem_map.2 ⟨r, hr, he⟩)
        simpa using this
      simp [hkeep, Nat.add_comm]
    · have hne : r.1 ≠ k := fun he => hn.1 (he ▸ List.mem_map_of_mem (f := Prod.fst) hl)
      have := ih hn.2 hl
      simp only [List.filter_cons, hne, decide_false, Bool.not_false, if_true, List.map_cons,
        List.sum_cons]
      omega

/-- A present entry takes its measure along. -/
theorem total_erase (f : α → Nat) {t : Keyed κ α} {k : κ} {a : α} (h : t.get? k = some a) :
    (t.erase k).total f + f a = t.total f :=
  sum_filter_ne t.nodup (get?_eq_some_iff.1 h)

theorem erase_of_none {t : Keyed κ α} {k : κ} (h : t.get? k = none) : t.erase k = t := by
  refine ext' ?_
  show t.rows.filter _ = t.rows
  rw [List.filter_eq_self]
  rintro ⟨k', a⟩ hr
  have : k' ≠ k := fun he => get?_eq_none_iff.1 h a (he ▸ hr)
  simpa using this

theorem total_push (f : α → Nat) (t : Keyed κ α) (k : κ) (a : α) :
    (t.push k a).total f = (t.erase k).total f + f a := by
  simp [total, push]

@[simp] theorem total_moveToEnd (f : α → Nat) (t : Keyed κ α) (k : κ) :
    (t.moveToEnd k).total f = t.total f := by
  unfold moveToEnd
  split
  · rfl
  · rename_i a ha
    rw [total_push, total_erase f ha]

/-- The measure of one row is part of the total. -/
theorem le_total (f : α → Nat) {t : Keyed κ α} {k : κ} {a : α} (h : t.get? k = some a) :
    f a ≤ t.total f := by
  have := total_erase f h
  omega

/-- Replacing a row replaces its measure. -/
theorem total_put (f : α → Nat) {t : Keyed κ α} {k : κ} {a : α} (h : t.get? k = some a) (b : α) :
    (t.put k b).total f + f a = t.total f + f b := by
  have hrows : (t.put k b).rows = t.rows.map fun r => (r.1, if r.1 = k then b else r.2) := by
    simp [put, h, updateWhere]
  have key : ∀ l : List (κ × α), (l.map Prod.fst).Nodup → (k, a) ∈ l →
      ((l.map fun r => (r.1, if r.1 = k then b else r.2)).map fun r => f r.2).sum + f a =
        (l.map fun r => f r.2).sum + f b := by
    intro l
    induction l with
    | nil => exact fun _ h => absurd h List.not_mem_nil
    | cons r l ih =>
      intro hn hl
      rw [List.map_cons, List.nodup_cons] at hn
      rcases List.mem_cons.1 hl with rfl | hl
      · have hkeep : (l.map fun r => (r.1, if r.1 = k then b else r.2)) = l := by
          conv_rhs => rw [← List.map_id l]
          refine List.map_congr_left fun r hr => ?_
          have : r.1 ≠ k := fun he => hn.1 (List.mem_map.2 ⟨r, hr, he⟩)
          simp [this]
        rw [List.map_cons, List.map_cons, hkeep]
        simp
        omega
      · have hne : r.1 ≠ k := fun he => hn.1 (he ▸ List.mem_map_of_mem (f := Prod.fst) hl)
        have := ih hn.2 hl
        simp only [List.map_cons, List.sum_cons, if_neg hne]
        omega
  unfold total
  rw [hrows]
  exact key t.rows t.nodup (get?_eq_some_iff.1 h)

/-- A new row adds its measure. -/
theorem total_put_new (f : α → Nat) {t : Keyed κ α} {k : κ} (h : t.get? k = none) (b : α) :
    (t.put k b).total f = t.total f + f b := by
  have hrows : (t.put k b).rows = t.rows ++ [(k, b)] := by simp [put, h]
  simp [total, hrows]

theorem total_eq_zero {f : α → Nat} {t : Keyed κ α} :
    t.total f = 0 ↔ ∀ k a, t.get? k = some a → f a = 0 := by
  constructor
  · intro h k a hk
    exact Nat.le_zero.1 (h ▸ le_total f hk)
  · intro h
    rw [total, List.sum_eq_zero_iff_forall_eq_nat]
    intro n hn
    obtain ⟨r, hr, rfl⟩ := List.mem_map.1 hn
    exact h r.1 r.2 (mem_rows_iff.1 hr)

/-- The rows of some keys and the other rows make up the total. -/
theorem total_split (f : α → Nat) (t : Keyed κ α) {keys : List κ} (hn : keys.Nodup) :
    (keys.map fun k => ((t.get? k).map f).getD 0).sum +
      (t.deleteWhere fun k _ => decide (k ∈ keys)).total f = t.total f := by
  induction keys generalizing t with
  | nil =>
    have hall : (t.deleteWhere fun k _ => decide (k ∈ ([] : List κ))) = t :=
      ext' (by simp [deleteWhere])
    rw [hall, List.map_nil, List.sum_nil, Nat.zero_add]
  | cons k keys ih =>
    rw [List.nodup_cons] at hn
    have hrest : (t.deleteWhere fun k' _ => decide (k' ∈ k :: keys)) =
        (t.erase k).deleteWhere fun k' _ => decide (k' ∈ keys) := by
      refine ext' ?_
      simp only [erase, deleteWhere, List.filter_filter]
      refine List.filter_congr fun r _ => ?_
      by_cases h : r.1 = k <;> simp [h]
    have hget : (keys.map fun k' => (((t.erase k).get? k').map f).getD 0) =
        keys.map fun k' => ((t.get? k').map f).getD 0 := by
      refine List.map_congr_left fun k' hk' => ?_
      have : k' ≠ k := fun he => hn.1 (he ▸ hk')
      simp [this]
    have hih := ih (t.erase k) hn.2
    rw [hget] at hih
    rw [hrest, List.map_cons, List.sum_cons]
    cases hk : t.get? k with
    | none =>
      rw [erase_of_none hk] at hih ⊢
      simpa using hih
    | some a =>
      have := total_erase f hk
      simp only [Option.map_some, Option.getD_some]
      omega

end Keyed

/-! ## Caches with a counter -/

/-- Entries with their sizes, and the counter of all sizes. -/
structure SizedCache (κ α : Type) where
  /-- The entries, the least recently used one first. -/
  entries : Keyed κ (α × Nat)
  /-- The counter. -/
  bytes : Nat
  /-- The counter is the total of the sizes. -/
  exact : bytes = entries.total Prod.snd

namespace SizedCache

variable {κ α : Type} [DecidableEq κ]

/-- The cache without entries. -/
def empty : SizedCache κ α := ⟨Keyed.empty, 0, rfl⟩

/-- The cached value of a key. -/
def get? (c : SizedCache κ α) (k : κ) : Option α := (c.entries.get? k).map Prod.fst

/-- The number of entries. -/
def length (c : SizedCache κ α) : Nat := c.entries.rows.length

/-- The size of an entry, zero without one. -/
def sizeOf (c : SizedCache κ α) (k : κ) : Nat := ((c.entries.get? k).map Prod.snd).getD 0

/-- Drop an entry; the counter gives its size back. -/
def remove (c : SizedCache κ α) (k : κ) : SizedCache κ α where
  entries := c.entries.erase k
  bytes := c.bytes - c.sizeOf k
  exact := by
    rw [c.exact]
    unfold sizeOf
    cases h : c.entries.get? k with
    | none => rw [Keyed.erase_of_none h]; rfl
    | some e =>
      have := Keyed.total_erase Prod.snd h
      simp only [Option.map_some, Option.getD_some]
      omega

/-- Store an entry under a key that has none. -/
def push (c : SizedCache κ α) (k : κ) (a : α) (size : Nat) : SizedCache κ α where
  entries := (c.remove k).entries.push k (a, size)
  bytes := (c.remove k).bytes + size
  exact := by
    rw [(c.remove k).exact, Keyed.total_push, Keyed.erase_of_none]
    simp [remove]

/-- An entry was used. -/
def touch (c : SizedCache κ α) (k : κ) : SizedCache κ α where
  entries := c.entries.moveToEnd k
  bytes := c.bytes
  exact := by rw [c.exact, Keyed.total_moveToEnd]

theorem sizeOf_le (c : SizedCache κ α) (k : κ) : c.sizeOf k ≤ c.bytes := by
  rw [c.exact, sizeOf]
  cases h : c.entries.get? k with
  | none => exact Nat.zero_le _
  | some e => exact Keyed.le_total Prod.snd h

@[simp] theorem bytes_remove (c : SizedCache κ α) (k : κ) :
    (c.remove k).bytes = c.bytes - c.sizeOf k := rfl

@[simp] theorem bytes_touch (c : SizedCache κ α) (k : κ) : (c.touch k).bytes = c.bytes := rfl

@[simp] theorem get?_empty (k : κ) : (empty : SizedCache κ α).get? k = none := rfl

omit [DecidableEq κ] in
@[simp] theorem bytes_empty : (empty : SizedCache κ α).bytes = 0 := rfl

@[simp] theorem get?_remove (c : SizedCache κ α) (k k' : κ) :
    (c.remove k).get? k' = if k' = k then none else c.get? k' := by
  unfold get? remove
  rw [Keyed.get?_erase]
  split <;> rfl

@[simp] theorem get?_push (c : SizedCache κ α) (k k' : κ) (a : α) (size : Nat) :
    (c.push k a size).get? k' = if k' = k then some a else c.get? k' := by
  unfold get? push
  rw [Keyed.get?_push]
  split
  · rfl
  · rename_i h
    simp [remove, h]

@[simp] theorem get?_touch (c : SizedCache κ α) (k k' : κ) :
    (c.touch k).get? k' = c.get? k' := by
  simp [get?, touch]

/-- Storing under a key without an entry adds the size. -/
theorem bytes_push {c : SizedCache κ α} {k : κ} (h : c.get? k = none) (a : α) (size : Nat) :
    (c.push k a size).bytes = c.bytes + size := by
  have hs : c.sizeOf k = 0 := by
    unfold get? at h
    rw [Option.map_eq_none_iff] at h
    simp [sizeOf, h]
  show c.bytes - c.sizeOf k + size = _
  rw [hs, Nat.sub_zero]

end SizedCache

/-! ## Eviction loops -/

/-- Repeat a step while a condition holds; where no step is possible the loop ends. -/
def evictWhile {σ : Type} (cond : σ → Bool) (step : σ → Option σ) : Nat → σ → σ
  | 0, s => s
  | fuel + 1, s =>
    if cond s then
      match step s with
      | some s' => evictWhile cond step fuel s'
      | none => s
    else s

variable {σ : Type} {cond : σ → Bool} {step : σ → Option σ}

/-- Where nothing can be evicted the loop does nothing. -/
theorem evictWhile_of_none {s : σ} (h : step s = none) (fuel : Nat) :
    evictWhile cond step fuel s = s := by
  cases fuel with
  | zero => rfl
  | succ fuel =>
    rw [evictWhile, h]
    split <;> rfl

/-- Where the condition fails the loop does nothing. -/
theorem evictWhile_of_not {s : σ} (h : cond s = false) (fuel : Nat) :
    evictWhile cond step fuel s = s := by
  cases fuel with
  | zero => rfl
  | succ fuel => rw [evictWhile, h, if_neg Bool.false_ne_true]

/-- What every step under the condition keeps, the loop keeps. -/
theorem evictWhile_keeps {P : σ → Prop}
    (hstep : ∀ s s', P s → cond s = true → step s = some s' → P s') {s : σ} (h : P s)
    (fuel : Nat) : P (evictWhile cond step fuel s) := by
  induction fuel generalizing s with
  | zero => exact h
  | succ fuel ih =>
    rw [evictWhile]
    split
    · next hc =>
      cases hs : step s with
      | none => exact h
      | some s' => exact ih (hstep s s' h hc hs)
    · exact h

/-- What every step keeps, the loop keeps. -/
theorem evictWhile_inv {P : σ → Prop} (hstep : ∀ s s', P s → step s = some s' → P s') {s : σ}
    (h : P s) (fuel : Nat) : P (evictWhile cond step fuel s) :=
  evictWhile_keeps (fun s s' hs _ => hstep s s' hs) h fuel

/-- With as much fuel as there are steps the loop ends where its condition fails or nothing is left
to evict. -/
theorem evictWhile_stops (measure : σ → Nat)
    (hstep : ∀ s s', step s = some s' → measure s' < measure s) {s : σ} {fuel : Nat}
    (h : measure s ≤ fuel) :
    cond (evictWhile cond step fuel s) = false ∨ step (evictWhile cond step fuel s) = none := by
  induction fuel generalizing s with
  | zero =>
    refine .inr ?_
    cases hs : step s with
    | none => exact hs
    | some s' =>
      have := hstep s s' hs
      omega
  | succ fuel ih =>
    rw [evictWhile]
    split
    · cases hs : step s with
      | none => exact .inr hs
      | some s' =>
        have := hstep s s' hs
        exact ih (by omega)
    · rename_i hc
      exact .inl (by simpa using hc)

end Relational
