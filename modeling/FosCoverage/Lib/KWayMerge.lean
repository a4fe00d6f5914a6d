import Mathlib.Data.List.Lex
import Mathlib.Data.List.Sort

/-!
# Merging sorted streams

`heapq.merge`: the least of the first elements is taken, from the first stream that has it, until all
streams are empty.

* `pop` is one step.  It loses nothing (`pop_perm`), and on sorted streams it takes a least element
  (`pop_le`) and leaves sorted streams (`pop_sorted`).
* `mergeAll_eq_sort` follows by induction on the number of elements: **sorted streams are merged into
  what sorting all their elements gives**, so that it does not matter how the elements were
  distributed over the streams.
-/

set_option autoImplicit false

namespace KWayMerge

variable {α : Type} [LinearOrder α]

/-- A least first element, from the first stream that has it, and the streams without it. -/
def pop : List (List α) → Option (α × List (List α))
  | [] => none
  | [] :: streams => (pop streams).map fun p => (p.1, [] :: p.2)
  | (a :: as) :: streams =>
    match pop streams with
    | none => some (a, as :: streams)
    | some (b, streams') =>
      if a ≤ b then some (a, as :: streams) else some (b, (a :: as) :: streams')

/-- The first elements in the order in which they are taken. -/
def merge : Nat → List (List α) → List α
  | 0, _ => []
  | n + 1, streams =>
    match pop streams with
    | none => []
    | some (a, streams') => a :: merge n streams'

/-- `heapq.merge` -/
def mergeAll (streams : List (List α)) : List α := merge streams.flatten.length streams

/-! ## One step -/

/-- Nothing is taken when all streams are empty. -/
theorem flatten_of_pop {streams : List (List α)} (h : pop streams = none) :
    streams.flatten = [] := by
  fun_induction pop streams with
  | case1 => rfl
  | case2 streams ih => exact ih (Option.map_eq_none_iff.1 h)
  | case3 => cases h
  | case4 => cases h
  | case5 => cases h

/-- **Nothing is lost**. -/
theorem pop_perm {streams rest : List (List α)} {a : α} (h : pop streams = some (a, rest)) :
    (a :: rest.flatten).Perm streams.flatten := by
  fun_induction pop streams generalizing a rest with
  | case1 => cases h
  | case2 streams ih =>
    obtain ⟨⟨b, rest'⟩, hpop, heq⟩ := Option.map_eq_some_iff.1 h
    obtain ⟨rfl, rfl⟩ := Prod.mk.inj heq
    have hperm := ih hpop
    exact hperm
  | case3 b bs streams hpop ih =>
    obtain ⟨rfl, rfl⟩ := Prod.mk.inj (Option.some.inj h)
    exact .refl _
  | case4 b bs streams c streams' hpop hle ih =>
    obtain ⟨rfl, rfl⟩ := Prod.mk.inj (Option.some.inj h)
    exact .refl _
  | case5 b bs streams c streams' hpop hle ih =>
    obtain ⟨rfl, rfl⟩ := Prod.mk.inj (Option.some.inj h)
    rw [List.flatten_cons, List.flatten_cons]
    exact List.perm_middle.symm.trans (List.Perm.append_left _ (ih hpop))

/-- **What is taken is least**, when the streams are sorted. -/
theorem pop_le {streams rest : List (List α)} {a : α}
    (hs : ∀ s ∈ streams, s.Pairwise (· ≤ ·)) (h : pop streams = some (a, rest)) :
    ∀ b ∈ streams.flatten, a ≤ b := by
  fun_induction pop streams generalizing a rest with
  | case1 => cases h
  | case2 streams ih =>
    obtain ⟨⟨b, rest'⟩, hpop, heq⟩ := Option.map_eq_some_iff.1 h
    obtain ⟨rfl, rfl⟩ := Prod.mk.inj heq
    exact ih (List.forall_mem_cons.1 hs).2 hpop
  | case3 b bs streams hpop ih =>
    obtain ⟨rfl, rfl⟩ := Prod.mk.inj (Option.some.inj h)
    have hfirst := (List.forall_mem_cons.1 hs).1
    rw [List.flatten_cons, flatten_of_pop hpop, List.append_nil]
    exact List.forall_mem_cons.2 ⟨le_rfl, (List.pairwise_cons.1 hfirst).1⟩
  | case4 b bs streams c streams' hpop hle ih =>
    obtain ⟨rfl, rfl⟩ := Prod.mk.inj (Option.some.inj h)
    obtain ⟨hfirst, hrest⟩ := List.forall_mem_cons.1 hs
    intro d hd
    rw [List.flatten_cons, List.mem_append] at hd
    rcases hd with hd | hd
    · exact List.forall_mem_cons.2 ⟨le_rfl, (List.pairwise_cons.1 hfirst).1⟩ d hd
    · exact hle.trans (ih hrest hpop d hd)
  | case5 b bs streams c streams' hpop hle ih =>
    obtain ⟨rfl, rfl⟩ := Prod.mk.inj (Option.some.inj h)
    obtain ⟨hfirst, hrest⟩ := List.forall_mem_cons.1 hs
    intro d hd
    rw [List.flatten_cons, List.mem_append] at hd
    rcases hd with hd | hd
    · have hb := List.forall_mem_cons.2 ⟨le_rfl, (List.pairwise_cons.1 hfirst).1⟩ d hd
      exact (lt_of_not_ge hle).le.trans hb
    · exact ih hrest hpop d hd

/-- The streams stay sorted. -/
theorem pop_sorted {streams rest : List (List α)} {a : α}
    (hs : ∀ s ∈ streams, s.Pairwise (· ≤ ·)) (h : pop streams = some (a, rest)) :
    ∀ s ∈ rest, s.Pairwise (· ≤ ·) := by
  fun_induction pop streams generalizing a rest with
  | case1 => cases h
  | case2 streams ih =>
    obtain ⟨⟨b, rest'⟩, hpop, heq⟩ := Option.map_eq_some_iff.1 h
    obtain ⟨rfl, rfl⟩ := Prod.mk.inj heq
    obtain ⟨hfirst, hrest⟩ := List.forall_mem_cons.1 hs
    exact List.forall_mem_cons.2 ⟨hfirst, ih hrest hpop⟩
  | case3 b bs streams hpop ih =>
    obtain ⟨rfl, rfl⟩ := Prod.mk.inj (Option.some.inj h)
    obtain ⟨hfirst, hrest⟩ := List.forall_mem_cons.1 hs
    exact List.forall_mem_cons.2 ⟨hfirst.of_cons, hrest⟩
  | case4 b bs streams c streams' hpop hle ih =>
    obtain ⟨rfl, rfl⟩ := Prod.mk.inj (Option.some.inj h)
    obtain ⟨hfirst, hrest⟩ := List.forall_mem_cons.1 hs
    exact List.forall_mem_cons.2 ⟨hfirst.of_cons, hrest⟩
  | case5 b bs streams c streams' hpop hle ih =>
    obtain ⟨rfl, rfl⟩ := Prod.mk.inj (Option.some.inj h)
    obtain ⟨hfirst, hrest⟩ := List.forall_mem_cons.1 hs
    exact List.forall_mem_cons.2 ⟨hfirst, ih hrest hpop⟩

/-! ## All steps -/

theorem merge_perm {n : Nat} {streams : List (List α)} (hn : streams.flatten.length ≤ n) :
    (merge n streams).Perm streams.flatten := by
  induction n generalizing streams with
  | zero =>
    rw [List.length_eq_zero_iff.1 (Nat.le_zero.1 hn)]
    exact .refl _
  | succ n ih =>
    rw [merge]
    split
    · next hpop =>
      rw [flatten_of_pop hpop]
    · next a rest hpop =>
      have hperm := pop_perm hpop
      have hlen := hperm.length_eq
      rw [List.length_cons] at hlen
      exact (List.Perm.cons a (ih (by omega))).trans hperm

theorem merge_sorted {n : Nat} {streams : List (List α)} (hn : streams.flatten.length ≤ n)
    (hs : ∀ s ∈ streams, s.Pairwise (· ≤ ·)) : (merge n streams).Pairwise (· ≤ ·) := by
  induction n generalizing streams with
  | zero => exact .nil
  | succ n ih =>
    rw [merge]
    split
    · exact .nil
    · next a rest hpop =>
      have hperm := pop_perm hpop
      have hlen := hperm.length_eq
      rw [List.length_cons] at hlen
      have hrest : rest.flatten.length ≤ n := by omega
      refine List.pairwise_cons.2 ⟨fun b hb => ?_, ih hrest (pop_sorted hs hpop)⟩
      have hmem := (merge_perm hrest).mem_iff.1 hb
      exact pop_le hs hpop b (hperm.mem_iff.1 (List.mem_cons_of_mem a hmem))

/-- Two sorted lists of the same elements are the same. -/
theorem eq_of_perm {l l' : List α} (h : l.Perm l') (hl : l.Pairwise (· ≤ ·))
    (hl' : l'.Pairwise (· ≤ ·)) : l = l' :=
  List.Perm.eq_of_pairwise (fun _ _ _ _ => le_antisymm) hl hl' h

/-- **Sorted streams are merged into what sorting all their elements gives.** -/
theorem mergeAll_eq_sort {streams : List (List α)} (hs : ∀ s ∈ streams, s.Pairwise (· ≤ ·)) :
    mergeAll streams = streams.flatten.insertionSort (· ≤ ·) := by
  refine eq_of_perm ?_ (merge_sorted le_rfl hs) (List.pairwise_insertionSort _ _)
  exact (merge_perm le_rfl).trans (List.perm_insertionSort _ _).symm

/-- Sorting forgets the order. -/
theorem sort_eq_of_perm {l l' : List α} (h : l.Perm l') :
    l.insertionSort (· ≤ ·) = l'.insertionSort (· ≤ ·) :=
  eq_of_perm (((List.perm_insertionSort _ _).trans h).trans (List.perm_insertionSort _ _).symm)
    (List.pairwise_insertionSort _ _) (List.pairwise_insertionSort _ _)

end KWayMerge
