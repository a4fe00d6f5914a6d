import FosCoverage.Inheritance.LineMap
import FosCoverage.Lib.Table
import Mathlib.Data.List.Chain

/-!
# What the line map promises

* `Recovered`: the pairs inside a region are between lines with equal tokens, each of which occurs
  once on its side, and different texts; they are in order and reach every line with tokens.
* `SoundUpTo a b`: what is mapped, deleted and added after `a` old and `b` new lines.  Equal lines
  (`SoundUpTo.gap`) and a region (`SoundUpTo.window`) extend it.
* `Aligned`: the hunks of a diff without context, as the headers count.  A header names the line
  before a side that is empty.

`line_map_sound` is the result for both entry points.
-/

set_option autoImplicit false

namespace FosCoverage

namespace GitLineMapEngine

/-! ## Pairs inside a region -/

section Hunk

variable {τ : Type} [DecidableEq τ] {tokens : Line → List τ}

/-- The offsets of a key are those of the lines with its tokens. -/
def PositionsOf (tokens : Line → List τ) (lines : List Line)
    (positions : List (List τ × List Nat)) : Prop :=
  (∀ e ∈ positions, ∀ i, i ∈ e.2 ↔ ∃ x, lines[i]? = some x ∧ tokens x = e.1) ∧
    ∀ x ∈ lines, ∃ e ∈ positions, e.1 = tokens x

theorem addPosition_positionsOf {lines : List Line} {d : List (List τ × List Nat)}
    (h : PositionsOf tokens lines d) (x : Line) :
    PositionsOf tokens (lines ++ [x]) (addPosition d (tokens x) lines.length) := by
  have hget : ∀ (i : Nat) (key : List τ),
      (∃ y, (lines ++ [x])[i]? = some y ∧ tokens y = key) ↔
        (∃ y, lines[i]? = some y ∧ tokens y = key) ∨ (i = lines.length ∧ tokens x = key) := by
    intro i key
    rcases Nat.lt_trichotomy i lines.length with hi | hi | hi
    · rw [List.getElem?_append_left hi]
      exact ⟨.inl, fun h => h.elim id fun hx => absurd hx.1 (Nat.ne_of_lt hi)⟩
    · subst hi
      simp
    · have hnone : lines[i]? = none := List.getElem?_eq_none (Nat.le_of_lt hi)
      rw [hnone, List.getElem?_eq_none (by simp; omega)]
      simp [Nat.ne_of_gt hi]
  obtain ⟨hmem, hkeys⟩ := h
  rw [addPosition]
  split
  · rename_i hany
    constructor
    · intro e he i
      obtain ⟨e₀, he₀, rfl⟩ := List.mem_map.1 he
      rw [hget]
      split
      · rename_i hkey
        simp only [List.mem_append, List.mem_singleton, hmem e₀ he₀ i]
        exact or_congr_right (by simp [hkey])
      · rename_i hkey
        rw [hmem e₀ he₀ i]
        exact ⟨.inl, fun h => h.elim id fun hx => absurd hx.2.symm hkey⟩
    · intro y hy
      have hold : ∃ e ∈ d, e.1 = tokens y := by
        rcases List.mem_append.1 hy with hy | hy
        · exact hkeys y hy
        · obtain ⟨e, he, hkey⟩ := List.any_eq_true.1 hany
          rw [List.mem_singleton.1 hy]
          exact ⟨e, he, of_decide_eq_true hkey⟩
      obtain ⟨e, he, hkey⟩ := hold
      refine ⟨_, List.mem_map_of_mem he, ?_⟩
      split <;> exact hkey
  · rename_i hany
    have hnew : ∀ y ∈ lines, tokens y ≠ tokens x := by
      intro y hy heq
      obtain ⟨e, he, hkey⟩ := hkeys y hy
      exact hany (List.any_eq_true.2 ⟨e, he, decide_eq_true (hkey.trans heq)⟩)
    constructor
    · intro e he i
      rw [hget]
      rcases List.mem_append.1 he with he | he
      · rw [hmem e he i]
        refine ⟨.inl, fun h => h.elim id fun hx => absurd ?_ hany⟩
        exact List.any_eq_true.2 ⟨e, he, decide_eq_true hx.2.symm⟩
      · obtain rfl := List.mem_singleton.1 he
        rw [List.mem_singleton]
        refine ⟨fun hi => .inr ⟨hi, rfl⟩, ?_⟩
        rintro (⟨y, hy, heq⟩ | ⟨hi, -⟩)
        · exact absurd heq (hnew y (List.mem_of_getElem? hy))
        · exact hi
    · intro y hy
      rcases List.mem_append.1 hy with hy | hy
      · obtain ⟨e, he, hkey⟩ := hkeys y hy
        exact ⟨e, List.mem_append_left _ he, hkey⟩
      · rw [List.mem_singleton.1 hy]
        exact ⟨_, List.mem_append_right _ (List.mem_singleton_self _), rfl⟩

theorem positions_spec (lines : List Line) : PositionsOf tokens lines (positions tokens lines) := by
  induction lines using List.reverseRecOn with
  | nil => exact ⟨fun e he => absurd he List.not_mem_nil, fun x hx => absurd hx List.not_mem_nil⟩
  | append_singleton lines x ih =>
    have hstep : positions tokens (lines ++ [x]) =
        addPosition (positions tokens lines) (tokens x) lines.length := by
      rw [positions, List.zipIdx_append, List.foldl_append]
      simp [positions]
    rw [hstep]
    exact addPosition_positionsOf ih x

/-- What holds of the pairs of a region. -/
structure Recovered (tokens : Line → List τ) (oldLines newLines : List Line)
    (pairs : List (Nat × Nat)) : Prop where
  /-- A pair is between lines with equal tokens and different texts. -/
  pair : ∀ p ∈ pairs, ∃ x y, oldLines[p.1]? = some x ∧ newLines[p.2]? = some y ∧
    tokens x = tokens y ∧ x ≠ y
  /-- No other old line has the tokens. -/
  uniqueOld : ∀ p ∈ pairs, ∀ x y i, oldLines[p.1]? = some x → oldLines[i]? = some y →
    tokens y = tokens x → i = p.1
  /-- No other new line has the tokens. -/
  uniqueNew : ∀ p ∈ pairs, ∀ x y i, newLines[p.2]? = some x → newLines[i]? = some y →
    tokens y = tokens x → i = p.2
  /-- The pairs are in order. -/
  increasing : ∀ p ∈ pairs, ∀ q ∈ pairs, p.1 < q.1 → p.2 < q.2
  /-- Every old line with tokens is reached, if any is. -/
  coversOld : pairs ≠ [] → ∀ i x, oldLines[i]? = some x → tokens x ≠ [] → i ∈ pairs.map Prod.fst
  /-- Every new line with tokens is reached, if any is. -/
  coversNew : pairs ≠ [] → ∀ i x, newLines[i]? = some x → tokens x ≠ [] → i ∈ pairs.map Prod.snd

theorem pairOf_eq_some {oldLines newLines : List Line} {e : List τ × List Nat} {p : Nat × Nat}
    (h : pairOf tokens oldLines newLines e = some p) :
    e.2 = [p.1] ∧ (e.1, [p.2]) ∈ positions tokens newLines ∧
      oldLines[p.1]? ≠ newLines[p.2]? := by
  rw [pairOf] at h
  split at h
  · rename_i i j hold hnew
    split at h
    · rename_i hne
      obtain rfl := Option.some.inj h
      refine ⟨hold, ?_, hne⟩
      cases hlook : (positions tokens newLines).lookup e.1 with
      | none =>
        rw [hlook] at hnew
        cases hnew
      | some offsets =>
        rw [hlook] at hnew
        exact hnew ▸ Relational.mem_of_lookup hlook
    · cases h
  · cases h

theorem chain_of_not_any {R : Nat × Nat → Nat × Nat → Prop} {f : (Nat × Nat) × Nat × Nat → Bool}
    (hf : ∀ p q, f (p, q) = false → R p q) :
    ∀ {pairs : List (Nat × Nat)}, (pairs.zip pairs.tail).any f = false → pairs.IsChain R
  | [], _ => .nil
  | [p], _ => .singleton p
  | p :: q :: rest, h => by
    have hzip : ((p, q) :: (q :: rest).zip rest).any f = false := h
    rw [List.any_cons, Bool.or_eq_false_iff] at hzip
    exact .cons_cons (hf p q hzip.1) (chain_of_not_any hf hzip.2)

/-- Pairs that do not cross are in order. -/
theorem pairwise_of_not_crossing {pairs : List (Nat × Nat)} (h : crossing pairs = false) :
    pairs.Pairwise fun p q => p.1 < q.1 ∧ p.2 < q.2 := by
  rw [crossing, Bool.or_eq_false_iff] at h
  have hfst : pairs.IsChain fun p q : Nat × Nat => p.1 < q.1 :=
    chain_of_not_any (fun p q hf => Nat.lt_of_not_le (of_decide_eq_false hf)) h.1
  have hsnd : pairs.IsChain fun p q : Nat × Nat => p.2 < q.2 :=
    chain_of_not_any (fun p q hf => Nat.lt_of_not_le (of_decide_eq_false hf)) h.2
  have : IsTrans (Nat × Nat) fun p q => p.1 < q.1 := ⟨fun _ _ _ => Nat.lt_trans⟩
  have : IsTrans (Nat × Nat) fun p q => p.2 < q.2 := ⟨fun _ _ _ => Nat.lt_trans⟩
  exact hfst.pairwise.and hsnd.pairwise

omit [DecidableEq τ] in
theorem Recovered.nil (oldLines newLines : List Line) : Recovered tokens oldLines newLines [] where
  pair := fun _ hp => absurd hp List.not_mem_nil
  uniqueOld := fun _ hp => absurd hp List.not_mem_nil
  uniqueNew := fun _ hp => absurd hp List.not_mem_nil
  increasing := fun _ hp => absurd hp List.not_mem_nil
  coversOld := fun h => absurd rfl h
  coversNew := fun h => absurd rfl h

omit [DecidableEq τ] in
theorem mem_of_not_unmatched {lines : List Line} {matched : List Nat}
    (h : unmatched tokens lines matched = false) {i : Nat} {x : Line} (hx : lines[i]? = some x)
    (ht : tokens x ≠ []) : i ∈ matched := by
  by_contra hi
  rw [unmatched, List.any_eq_false] at h
  exact h (x, i) (List.mem_zipIdx_iff_getElem?.2 hx) (decide_eq_true ⟨ht, hi⟩)

/-- **The recovery inside a region.** -/
theorem recoverable_recovered (tokens : Line → List τ) (oldLines newLines : List Line) :
    Recovered tokens oldLines newLines (recoverable tokens oldLines newLines) := by
  rw [recoverable]
  generalize hall : ((positions tokens oldLines).filterMap
    (pairOf tokens oldLines newLines)).insertionSort pairLe = all
  split
  · rw [ite_self]
    exact .nil _ _
  rename_i hcross
  split
  · exact .nil _ _
  rename_i hcover
  simp only [not_or, Bool.not_eq_true] at hcover hcross
  have hmem : ∀ p ∈ all, ∃ e ∈ positions tokens oldLines,
      pairOf tokens oldLines newLines e = some p := by
    intro p hp
    rw [← hall, List.mem_insertionSort] at hp
    exact List.mem_filterMap.1 hp
  -- a pair, with the key that contributed it
  have hpair : ∀ p ∈ all, ∃ x y, oldLines[p.1]? = some x ∧ newLines[p.2]? = some y ∧
      tokens x = tokens y ∧ x ≠ y ∧
      (∀ i z, oldLines[i]? = some z → tokens z = tokens x → i = p.1) ∧
      ∀ i z, newLines[i]? = some z → tokens z = tokens x → i = p.2 := by
    intro p hp
    obtain ⟨e, he, hsome⟩ := hmem p hp
    obtain ⟨hold, hnew, hne⟩ := pairOf_eq_some hsome
    have hold' := (positions_spec oldLines).1 e he
    have hnew' := (positions_spec newLines).1 _ hnew
    rw [hold] at hold'
    obtain ⟨x, hx, htx⟩ := (hold' p.1).1 (List.mem_singleton_self _)
    obtain ⟨y, hy, hty⟩ := (hnew' p.2).1 (List.mem_singleton_self _)
    refine ⟨x, y, hx, hy, htx.trans hty.symm, fun hxy => hne ?_, ?_, ?_⟩
    · rw [hx, hy, hxy]
    · exact fun i z hz htz => List.mem_singleton.1 ((hold' i).2 ⟨z, hz, htz.trans htx⟩)
    · exact fun i z hz htz => List.mem_singleton.1 ((hnew' i).2 ⟨z, hz, htz.trans htx⟩)
  constructor
  · intro p hp
    obtain ⟨x, y, hx, hy, hxy, hne, -, -⟩ := hpair p hp
    exact ⟨x, y, hx, hy, hxy, hne⟩
  · intro p hp x y i hx hy ht
    obtain ⟨x', -, hx', -, -, -, huniq, -⟩ := hpair p hp
    obtain rfl := Option.some.inj (hx.symm.trans hx')
    exact huniq i y hy ht
  · intro p hp x y i hx hy ht
    obtain ⟨x', y', -, hy', hxy, -, -, huniq⟩ := hpair p hp
    obtain rfl := Option.some.inj (hx.symm.trans hy')
    exact huniq i y hy (ht.trans hxy.symm)
  · intro p hp q hq hlt
    have hpw := pairwise_of_not_crossing hcross
    refine List.Pairwise.forall_of_forall_of_flip (R := fun p q : Nat × Nat => p.1 < q.1 → p.2 < q.2)
      (fun _ _ h => absurd h (Nat.lt_irrefl _)) (hpw.imp fun h _ => h.2)
      (hpw.imp fun h hlt => absurd h.1 (Nat.lt_asymm hlt)) hp hq hlt
  · exact fun _ i x hx ht => mem_of_not_unmatched hcover.1 hx ht
  · exact fun _ i x hx ht => mem_of_not_unmatched hcover.2 hx ht

end Hunk

/-! ## The four results -/

/-- `mapping[i]` is `j`. -/
def Regions.Maps (m : Regions) (i j : Nat) : Prop := m.mapping.lookup i = some j

/-- A line of the old side of a region. -/
def Window.HasOld (w : Window) (i : Nat) : Prop := w.oldStart ≤ i ∧ i < w.oldStart + w.oldCount

/-- A line of the new side of a region. -/
def Window.HasNew (w : Window) (j : Nat) : Prop := w.newStart ≤ j ∧ j < w.newStart + w.newCount

section Spec

variable {τ : Type} (tokens : Line → List τ) (old new : List Line)

/-- What holds inside a region. -/
structure WindowOk (m : Regions) (w : Window) : Prop where
  /-- A mapped line has the same tokens and another text, in the same region. -/
  pair : ∀ i j, m.Maps i j → w.HasOld i → w.HasNew j ∧
    ∃ x y, old[i - 1]? = some x ∧ new[j - 1]? = some y ∧ tokens x = tokens y ∧ x ≠ y
  /-- Nothing else is mapped into the region. -/
  into : ∀ i j, m.Maps i j → w.HasNew j → w.HasOld i
  /-- If any line is mapped, every old line with tokens is, -/
  coversOld : (∃ i j, m.Maps i j ∧ w.HasOld i) → ∀ i x, w.HasOld i → old[i - 1]? = some x →
    tokens x ≠ [] → ∃ j, m.Maps i j
  /-- and to every new line with tokens. -/
  coversNew : (∃ i j, m.Maps i j ∧ w.HasOld i) → ∀ j x, w.HasNew j → new[j - 1]? = some x →
    tokens x ≠ [] → ∃ i, m.Maps i j
  /-- A line that is deleted and added again with the same text is not mapped. -/
  readded : ∀ i j x, w.HasOld i → w.HasNew j → old[i - 1]? = some x → new[j - 1]? = some x →
    (∀ k, ¬ m.Maps i k) ∧ ∀ k, ¬ m.Maps k j

/-- What a finished map promises about the regions of its diff. -/
structure Sound (windows : List Window) (m : Regions) : Prop where
  /-- The map is strictly increasing. -/
  increasing : ∀ i j i' j', m.Maps i j → m.Maps i' j' → i < i' → j < j'
  /-- `get` reads the mapping. -/
  get : ∀ n, m.get n = m.mapping.lookup n
  /-- Every old line, and no other number, is mapped or deleted, -/
  oldLines : ∀ n, (1 ≤ n ∧ n ≤ old.length) ↔ ((∃ j, m.Maps n j) ∨ n ∈ m.deleted)
  /-- not both. -/
  oldDisjoint : ∀ n, n ∈ m.deleted → ∀ j, ¬ m.Maps n j
  /-- Every new line, and no other number, is an image or added, -/
  newLines : ∀ n, (1 ≤ n ∧ n ≤ new.length) ↔ ((∃ i, m.Maps i n) ∨ n ∈ m.added)
  /-- not both. -/
  newDisjoint : ∀ n, n ∈ m.added → ∀ i, ¬ m.Maps i n
  /-- Outside the regions mapped lines are equal. -/
  outside : ∀ i j, m.Maps i j → (∀ w ∈ windows, ¬ w.HasOld i) →
    ∃ x, old[i - 1]? = some x ∧ new[j - 1]? = some x
  /-- Inside the regions. -/
  inside : ∀ w ∈ windows, WindowOk tokens old new m w

/-- The same after some lines of both sides. -/
structure SoundUpTo (windows : List Window) (m : Regions) (a b : Nat) : Prop where
  /-- The mapping is between these lines. -/
  range : ∀ i j, m.Maps i j → (1 ≤ i ∧ i ≤ a) ∧ 1 ≤ j ∧ j ≤ b
  /-- The map is strictly increasing. -/
  increasing : ∀ i j i' j', m.Maps i j → m.Maps i' j' → i < i' → j < j'
  /-- Ambiguous lines are deleted. -/
  ambiguous : ∀ n ∈ m.ambiguous, n ∈ m.deleted
  /-- Old lines. -/
  oldLines : ∀ n, (1 ≤ n ∧ n ≤ a) ↔ ((∃ j, m.Maps n j) ∨ n ∈ m.deleted)
  /-- Old lines. -/
  oldDisjoint : ∀ n, n ∈ m.deleted → ∀ j, ¬ m.Maps n j
  /-- New lines. -/
  newLines : ∀ n, (1 ≤ n ∧ n ≤ b) ↔ ((∃ i, m.Maps i n) ∨ n ∈ m.added)
  /-- New lines. -/
  newDisjoint : ∀ n, n ∈ m.added → ∀ i, ¬ m.Maps i n
  /-- Outside the regions mapped lines are equal. -/
  outside : ∀ i j, m.Maps i j → (∀ w ∈ windows, ¬ w.HasOld i) →
    ∃ x, old[i - 1]? = some x ∧ new[j - 1]? = some x
  /-- Inside the regions. -/
  inside : ∀ w ∈ windows, WindowOk tokens old new m w
  /-- The regions are among these lines. -/
  windows : ∀ w ∈ windows, w.oldStart + w.oldCount ≤ a + 1 ∧ w.newStart + w.newCount ≤ b + 1

end Spec

section Steps

variable {τ : Type} {tokens : Line → List τ} {old new : List Line} {windows : List Window}
  {m m' : Regions} {a b : Nat}

theorem SoundUpTo.sound (h : SoundUpTo tokens old new windows m old.length new.length) :
    Sound tokens old new windows m where
  increasing := h.increasing
  get := by
    intro n
    rw [Regions.get]
    split
    · rename_i hn
      have hdel : n ∈ m.deleted := hn.elim (h.ambiguous n) id
      exact (Option.eq_none_iff_forall_ne_some.2 fun j hj => h.oldDisjoint n hdel j hj).symm
    · rfl
  oldLines := h.oldLines
  oldDisjoint := h.oldDisjoint
  newLines := h.newLines
  newDisjoint := h.newDisjoint
  outside := h.outside
  inside := h.inside

theorem soundUpTo_empty : SoundUpTo tokens old new [] .empty 0 0 where
  range := nofun
  increasing := nofun
  ambiguous := nofun
  oldLines := by simp [Regions.Maps, Regions.empty]; omega
  oldDisjoint := nofun
  newLines := by simp [Regions.Maps, Regions.empty]; omega
  newDisjoint := nofun
  outside := nofun
  inside := nofun
  windows := nofun

/-- A region is left alone by what is mapped elsewhere. -/
theorem WindowOk.frame {w : Window} (h : WindowOk tokens old new m w)
    (hm : ∀ i j, m.Maps i j → m'.Maps i j)
    (hm' : ∀ i j, m'.Maps i j → w.HasOld i ∨ w.HasNew j → m.Maps i j) :
    WindowOk tokens old new m' w where
  pair := fun i j hij hi => h.pair i j (hm' i j hij (.inl hi)) hi
  into := fun i j hij hj => h.into i j (hm' i j hij (.inr hj)) hj
  coversOld := by
    rintro ⟨i, j, hij, hi⟩ k x hk hx ht
    obtain ⟨l, hl⟩ := h.coversOld ⟨i, j, hm' i j hij (.inl hi), hi⟩ k x hk hx ht
    exact ⟨l, hm k l hl⟩
  coversNew := by
    rintro ⟨i, j, hij, hi⟩ k x hk hx ht
    obtain ⟨l, hl⟩ := h.coversNew ⟨i, j, hm' i j hij (.inl hi), hi⟩ k x hk hx ht
    exact ⟨l, hm l k hl⟩
  readded := by
    intro i j x hi hj hx hy
    obtain ⟨hold, hnew⟩ := h.readded i j x hi hj hx hy
    exact ⟨fun k hk => hold k (hm' i k hk (.inl hi)), fun k hk => hnew k (hm' k j hk (.inr hj))⟩

/-- A partition of the numbers up to `a`, extended to those up to `a'`. -/
theorem partition_extend {P R Q D E : Nat → Prop} {a a' : Nat} (hle : a ≤ a')
    (h : ∀ n, (1 ≤ n ∧ n ≤ a) ↔ (P n ∨ D n)) (hd : ∀ n, D n → ¬ P n)
    (hP : ∀ n, R n ↔ (P n ∨ Q n)) (hQ : ∀ n, Q n → a < n ∧ n ≤ a')
    (hD : ∀ n, E n ↔ (D n ∨ ((a < n ∧ n ≤ a') ∧ ¬ Q n))) :
    (∀ n, (1 ≤ n ∧ n ≤ a') ↔ (R n ∨ E n)) ∧ ∀ n, E n → ¬ R n := by
  constructor
  · intro n
    rw [hP, hD]
    have hn := h n
    by_cases hq : Q n
    · have := hQ n hq
      simp only [hq, or_true, true_or, iff_true]
      omega
    · constructor
      · intro hin
        rcases Nat.lt_or_ge a n with hlt | hge
        · exact .inr (.inr ⟨⟨hlt, hin.2⟩, hq⟩)
        · exact (hn.1 ⟨hin.1, hge⟩).imp .inl .inl
      · rintro ((hp | hq') | hdel | hin)
        · have := hn.2 (.inl hp)
          omega
        · exact absurd hq' hq
        · have := hn.2 (.inr hdel)
          omega
        · omega
  · intro n hn hp
    rcases (hD n).1 hn with hn | ⟨hn, hq⟩ <;> rcases (hP n).1 hp with hp | hp
    · exact hd n hn hp
    · have := hQ n hp
      have := (h n).2 (.inr hn)
      omega
    · have := (h n).2 (.inl hp)
      omega
    · exact hq hp

/-- What a step from `a` old and `b` new lines to `a'` and `b'` adds: the pairs in `pairs`, and the
other lines as deleted or added. -/
structure Extends (pairs : Nat → Nat → Prop) (m m' : Regions) (a b a' b' : Nat) : Prop where
  /-- The mapping. -/
  maps : ∀ i j, m'.Maps i j ↔ m.Maps i j ∨ pairs i j
  /-- The pairs are between lines of the step. -/
  range : ∀ i j, pairs i j → (a < i ∧ i ≤ a') ∧ b < j ∧ j ≤ b'
  /-- The pairs are in order. -/
  increasing : ∀ i j i' j', pairs i j → pairs i' j' → i < i' → j < j'
  /-- `deleted` -/
  deleted : ∀ n, n ∈ m'.deleted ↔
    n ∈ m.deleted ∨ ((a < n ∧ n ≤ a') ∧ ∀ j, ¬ pairs n j)
  /-- `added` -/
  added : ∀ n, n ∈ m'.added ↔ n ∈ m.added ∨ ((b < n ∧ n ≤ b') ∧ ∀ i, ¬ pairs i n)
  /-- `ambiguous` -/
  ambiguous : ∀ n ∈ m'.ambiguous, n ∈ m.ambiguous ∨ n ∈ m'.deleted
  /-- Lines are passed on the old side, -/
  leOld : a ≤ a'
  /-- and on the new one. -/
  leNew : b ≤ b'

/-- **One step**: what was sound stays sound when a step adds its lines, and at most one region
whose lines are among them. -/
theorem SoundUpTo.extend (pairs : Nat → Nat → Prop) {a' b' : Nat} {region : List Window}
    (h : SoundUpTo tokens old new windows m a b) (he : Extends pairs m m' a b a' b')
    (hregion : ∀ w ∈ region, WindowOk tokens old new m' w ∧
      w.oldStart + w.oldCount ≤ a' + 1 ∧ w.newStart + w.newCount ≤ b' + 1)
    (hpairs : ∀ i j, pairs i j → (∀ w ∈ region, ¬ w.HasOld i) →
      ∃ x, old[i - 1]? = some x ∧ new[j - 1]? = some x) :
    SoundUpTo tokens old new (windows ++ region) m' a' b' := by
  have hle := he.leOld
  have hle' := he.leNew
  obtain ⟨hold, hold'⟩ := partition_extend (R := fun n => ∃ j, m'.Maps n j)
    (Q := fun n => ∃ j, pairs n j) (E := fun n => n ∈ m'.deleted) hle h.oldLines
    (fun n hn hp => hp.elim (h.oldDisjoint n hn))
    (fun n => by simp only [he.maps, exists_or]) (fun n ⟨j, hj⟩ => (he.range n j hj).1)
    (fun n => by simp only [he.deleted, not_exists])
  obtain ⟨hnew, hnew'⟩ := partition_extend (R := fun n => ∃ i, m'.Maps i n)
    (Q := fun n => ∃ i, pairs i n) (E := fun n => n ∈ m'.added) hle' h.newLines
    (fun n hn hp => hp.elim (h.newDisjoint n hn))
    (fun n => by simp only [he.maps, exists_or]) (fun n ⟨i, hi⟩ => (he.range i n hi).2)
    (fun n => by simp only [he.added, not_exists])
  constructor
  · intro i j hij
    rcases (he.maps i j).1 hij with hij | hij
    · have := h.range i j hij
      omega
    · have := he.range i j hij
      omega
  · intro i j i' j' hij hij' hlt
    rcases (he.maps i j).1 hij with hij | hij <;> rcases (he.maps i' j').1 hij' with hij' | hij'
    · exact h.increasing i j i' j' hij hij' hlt
    · have := h.range i j hij
      have := he.range i' j' hij'
      omega
    · have := h.range i' j' hij'
      have := he.range i j hij
      omega
    · exact he.increasing i j i' j' hij hij' hlt
  · intro n hn
    rcases he.ambiguous n hn with hn | hn
    · exact (he.deleted n).2 (.inl (h.ambiguous n hn))
    · exact hn
  · exact hold
  · exact fun n hn j hj => hold' n hn ⟨j, hj⟩
  · exact hnew
  · exact fun n hn i hi => hnew' n hn ⟨i, hi⟩
  · intro i j hij hno
    rcases (he.maps i j).1 hij with hij | hij
    · exact h.outside i j hij fun w hw => hno w (List.mem_append_left _ hw)
    · exact hpairs i j hij fun w hw => hno w (List.mem_append_right _ hw)
  · intro w hw
    rcases List.mem_append.1 hw with hw | hw
    · have hin := h.windows w hw
      refine (h.inside w hw).frame (fun i j hij => (he.maps i j).2 (.inl hij)) fun i j hij ht => ?_
      rcases (he.maps i j).1 hij with hij | hij
      · exact hij
      · have := he.range i j hij
        rcases ht with ht | ht
        · have := ht.2
          omega
        · have := ht.2
          omega
    · exact (hregion w hw).1
  · intro w hw
    rcases List.mem_append.1 hw with hw | hw
    · have := h.windows w hw
      omega
    · exact (hregion w hw).2

end Steps

/-! ## What the loops do -/

theorem foldl_assign {α : Type} (f g : α → Nat) (l : List α) (m : Regions) :
    l.foldl (fun m x => m.assign (f x) (g x)) m =
      { m with mapping := (l.map fun x => (f x, g x)).reverse ++ m.mapping } := by
  induction l generalizing m with
  | nil => rfl
  | cons x l ih =>
    rw [List.foldl_cons, ih, List.map_cons, List.reverse_cons, List.append_assoc]
    rfl

theorem lookup_eq_some_iff {l : List (Nat × Nat)}
    (h : ∀ p ∈ l, ∀ q ∈ l, p.1 = q.1 → p.2 = q.2) (i j : Nat) :
    l.lookup i = some j ↔ (i, j) ∈ l := by
  refine ⟨Relational.mem_of_lookup, fun hmem => ?_⟩
  cases hlook : l.lookup i with
  | none =>
    have := List.lookup_eq_none_iff.1 hlook (i, j) hmem
    simp at this
  | some k =>
    have hk := Relational.mem_of_lookup hlook
    exact congrArg some (h (i, k) hk (i, j) hmem rfl)

/-- Assignments whose keys are distinct, or at least agree. -/
theorem maps_foldl_assign {α : Type} (f g : α → Nat) (l : List α) (m : Regions)
    (hl : ∀ x ∈ l, ∀ y ∈ l, f x = f y → g x = g y) (i j : Nat) :
    (l.foldl (fun m x => m.assign (f x) (g x)) m).Maps i j ↔
      (∃ x ∈ l, f x = i ∧ g x = j) ∨ ((∀ x ∈ l, f x ≠ i) ∧ m.Maps i j) := by
  have hfun : ∀ p ∈ (l.map fun x => (f x, g x)).reverse,
      ∀ q ∈ (l.map fun x => (f x, g x)).reverse, p.1 = q.1 → p.2 = q.2 := by
    intro p hp q hq
    obtain ⟨x, hx, rfl⟩ := List.mem_map.1 (List.mem_reverse.1 hp)
    obtain ⟨y, hy, rfl⟩ := List.mem_map.1 (List.mem_reverse.1 hq)
    exact hl x hx y hy
  have hmem : ∀ k, (i, k) ∈ (l.map fun x => (f x, g x)).reverse ↔ ∃ x ∈ l, f x = i ∧ g x = k := by
    intro k
    simp only [List.mem_reverse, List.mem_map, Prod.mk.injEq]
  rw [foldl_assign, Regions.Maps, Regions.Maps, List.lookup_append]
  cases hlook : ((l.map fun x => (f x, g x)).reverse).lookup i with
  | none =>
    have hno : ∀ x ∈ l, f x ≠ i := by
      intro x hx heq
      have := List.lookup_eq_none_iff.1 hlook (i, g x) ((hmem _).2 ⟨x, hx, heq, rfl⟩)
      simp at this
    rw [Option.none_or]
    exact ⟨fun h => .inr ⟨hno, h⟩, fun h => h.elim (fun ⟨x, hx, hf, _⟩ => absurd hf (hno x hx))
      And.right⟩
  | some k =>
    rw [Option.some_or]
    have hk := (lookup_eq_some_iff hfun i k).1 hlook
    obtain ⟨x, hx, hf, hg⟩ := (hmem k).1 hk
    constructor
    · intro h
      obtain rfl := Option.some.inj h
      exact .inl ⟨x, hx, hf, hg⟩
    · rintro (⟨y, hy, hfy, rfl⟩ | ⟨hno, _⟩)
      · rw [← hg, hl x hx y hy (hf.trans hfy.symm)]
      · exact absurd hf (hno x hx)

theorem maps_assignRun (m : Regions) (a b length i j : Nat) :
    (m.assignRun a b length).Maps i j ↔
      (∃ k < length, a + k = i ∧ b + k = j) ∨ ((∀ k < length, a + k ≠ i) ∧ m.Maps i j) := by
  rw [Regions.assignRun, maps_foldl_assign _ _ _ _ fun x _ y _ h => by omega]
  simp only [List.mem_range]

section Loops

variable (f : Nat → Nat) (replaced : Bool) (matched : List Nat)

theorem foldl_delete (l : List Nat) (m : Regions) :
    ∃ gone amb, l.foldl (fun m x => if x ∈ matched then m else m.delete (f x) replaced) m =
        { m with deleted := gone ++ m.deleted, ambiguous := amb ++ m.ambiguous } ∧
      (∀ n, n ∈ gone ↔ ∃ x ∈ l, x ∉ matched ∧ f x = n) ∧ ∀ n ∈ amb, n ∈ gone := by
  induction l using List.reverseRecOn with
  | nil => exact ⟨[], [], rfl, by simp, fun _ h => h⟩
  | append_singleton l x ih =>
    obtain ⟨gone, amb, hl, hgone, hamb⟩ := ih
    rw [List.foldl_append, hl]
    by_cases hx : x ∈ matched
    · refine ⟨gone, amb, by simp [hx], fun n => ?_, hamb⟩
      rw [hgone]
      simp [or_and_right, exists_or, hx]
    · refine ⟨f x :: gone, if replaced then f x :: amb else amb, ?_, fun n => ?_, fun n hn => ?_⟩
      · cases replaced <;> simp [hx, Regions.delete]
      · rw [List.mem_cons, hgone]
        simp [or_and_right, exists_or, hx, or_comm, eq_comm]
      · cases replaced with
        | false => exact List.mem_cons_of_mem _ (hamb n hn)
        | true =>
          rcases List.mem_cons.1 hn with rfl | hn
          · exact List.mem_cons_self
          · exact List.mem_cons_of_mem _ (hamb n hn)

theorem foldl_add (l : List Nat) (m : Regions) :
    ∃ came, l.foldl (fun m x => if x ∈ matched then m else m.add (f x)) m =
        { m with added := came ++ m.added } ∧
      ∀ n, n ∈ came ↔ ∃ x ∈ l, x ∉ matched ∧ f x = n := by
  induction l using List.reverseRecOn with
  | nil => exact ⟨[], rfl, by simp⟩
  | append_singleton l x ih =>
    obtain ⟨came, hl, hcame⟩ := ih
    rw [List.foldl_append, hl]
    by_cases hx : x ∈ matched
    · refine ⟨came, by simp [hx], fun n => ?_⟩
      rw [hcame]
      simp [or_and_right, exists_or, hx]
    · refine ⟨f x :: came, by simp [hx, Regions.add], fun n => ?_⟩
      rw [List.mem_cons, hcame]
      simp [or_and_right, exists_or, hx, or_comm, eq_comm]

end Loops

/-! ## One region -/

section Region

variable {τ : Type} [DecidableEq τ] {tokens : Line → List τ}

/-- A line of a region, by its offset. -/
theorem getElem?_slice {α : Type} {l : List α} {a c k : Nat} {x : α}
    (h : ((l.drop a).take c)[k]? = some x) : k < c ∧ l[a + k]? = some x := by
  have hk : k < c := by
    have := List.length_take_le c (l.drop a)
    have := (List.getElem?_eq_some_iff.1 h).1
    omega
  rw [List.getElem?_take_of_lt hk, List.getElem?_drop] at h
  exact ⟨hk, h⟩

theorem getElem?_slice_of_lt {α : Type} (l : List α) {a c k : Nat} (h : k < c) :
    ((l.drop a).take c)[k]? = l[a + k]? := by
  rw [List.getElem?_take_of_lt h, List.getElem?_drop]

/-- What `_map_hunk` adds. -/
structure HunkAdds (pairs : List (Nat × Nat)) (oldLength newLength oldStart newStart : Nat)
    (m m' : Regions) : Prop where
  /-- The pairs are assigned. -/
  maps : ∀ i j, m'.Maps i j ↔ (∃ p ∈ pairs, oldStart + p.1 = i ∧ newStart + p.2 = j) ∨
    ((∀ p ∈ pairs, oldStart + p.1 ≠ i) ∧ m.Maps i j)
  /-- The other old lines are deleted. -/
  deleted : ∀ n, n ∈ m'.deleted ↔ n ∈ m.deleted ∨
    ∃ k < oldLength, k ∉ pairs.map Prod.fst ∧ oldStart + k = n
  /-- The other new lines are added. -/
  added : ∀ n, n ∈ m'.added ↔ n ∈ m.added ∨
    ∃ k < newLength, k ∉ pairs.map Prod.snd ∧ newStart + k = n
  /-- Only deleted lines become ambiguous. -/
  ambiguous : ∀ n ∈ m'.ambiguous, n ∈ m.ambiguous ∨ n ∈ m'.deleted

theorem mapHunk_adds (tokens : Line → List τ) (oldLines newLines : List Line)
    (oldStart newStart : Nat) (m : Regions) :
    HunkAdds (recoverable tokens oldLines newLines) oldLines.length newLines.length oldStart
      newStart m (mapHunk tokens oldLines newLines oldStart newStart m) := by
  have hrec := recoverable_recovered tokens oldLines newLines
  rw [mapHunk]
  generalize recoverable tokens oldLines newLines = pairs at hrec
  have hmaps := maps_foldl_assign (fun p : Nat × Nat => oldStart + p.1)
    (fun p => newStart + p.2) pairs m fun p hp q hq h => by
      obtain ⟨x, y, hx, hy, hxy, -⟩ := hrec.pair p hp
      obtain ⟨x', y', hx', hy', hxy', -⟩ := hrec.pair q hq
      have heq : p.1 = q.1 := Nat.add_left_cancel h
      rw [heq] at hx
      obtain rfl := Option.some.inj (hx.symm.trans hx')
      exact congrArg _ (hrec.uniqueNew q hq y' y p.2 hy' hy (hxy.symm.trans hxy'))
  have hassign := foldl_assign (fun p : Nat × Nat => oldStart + p.1)
    (fun p => newStart + p.2) pairs m
  generalize pairs.foldl (fun m p => m.assign (oldStart + p.1) (newStart + p.2)) m = m₁
    at hmaps hassign
  subst hassign
  obtain ⟨gone, amb, hgone, hmem, hamb⟩ := foldl_delete (fun k => oldStart + k)
    (decide (newLines ≠ [])) (pairs.map Prod.fst) (List.range oldLines.length)
    { m with mapping := (pairs.map fun x => (oldStart + x.1, newStart + x.2)).reverse ++ m.mapping }
  rw [hgone]
  obtain ⟨came, hcame, hmem'⟩ := foldl_add (fun k => newStart + k) (pairs.map Prod.snd)
    (List.range newLines.length) _
  rw [hcame]
  constructor
  · exact hmaps
  · intro n
    rw [List.mem_append, hmem, or_comm]
    simp only [List.mem_range]
  · intro n
    rw [List.mem_append, hmem', or_comm]
    simp only [List.mem_range]
  · intro n hn
    rcases List.mem_append.1 hn with hn | hn
    · exact .inr (List.mem_append_left _ (hamb n hn))
    · exact .inl hn

variable {old new : List Line} {windows : List Window} {m m' : Regions} {a b : Nat}

/-- The lines of a region whose offsets are not matched. -/
theorem unmatched_iff (a c : Nat) (matched : List Nat) (n : Nat) :
    (∃ k < c, k ∉ matched ∧ a + 1 + k = n) ↔ (a < n ∧ n ≤ a + c) ∧ ∀ k ∈ matched, a + 1 + k ≠ n := by
  constructor
  · rintro ⟨k, hk, hno, rfl⟩
    refine ⟨by omega, fun o ho heq => hno ?_⟩
    rwa [← Nat.add_left_cancel heq]
  · rintro ⟨hn, hno⟩
    refine ⟨n - (a + 1), by omega, fun hmem => hno _ hmem ?_, ?_⟩ <;> omega

omit [DecidableEq τ] in
/-- The region behind `a` old and `b` new lines is as the recovery leaves it. -/
theorem windowOk_of_adds {c d : Nat} {pairs : List (Nat × Nat)}
    (hrec : Recovered tokens ((old.drop a).take c) ((new.drop b).take d) pairs)
    (hmaps : ∀ i j, m'.Maps i j ↔ m.Maps i j ∨ ∃ p ∈ pairs, a + 1 + p.1 = i ∧ b + 1 + p.2 = j)
    (hrange : ∀ i j, m.Maps i j → i ≤ a ∧ j ≤ b) :
    WindowOk tokens old new m' ⟨a + 1, c, b + 1, d⟩ := by
  have hinOld : ∀ i j, m'.Maps i j → a < i →
      ∃ p ∈ pairs, a + 1 + p.1 = i ∧ b + 1 + p.2 = j := by
    intro i j hij hi
    refine ((hmaps i j).1 hij).resolve_left fun h => ?_
    have := hrange i j h
    omega
  have hinNew : ∀ i j, m'.Maps i j → b < j →
      ∃ p ∈ pairs, a + 1 + p.1 = i ∧ b + 1 + p.2 = j := by
    intro i j hij hj
    refine ((hmaps i j).1 hij).resolve_left fun h => ?_
    have := hrange i j h
    omega
  have hold : ∀ {k x}, k < c → (old[a + 1 + k - 1]? = some x ↔
      ((old.drop a).take c)[k]? = some x) := by
    intro k x hk
    rw [getElem?_slice_of_lt old hk, Nat.add_right_comm, Nat.add_sub_cancel]
  have hnew : ∀ {k x}, k < d → (new[b + 1 + k - 1]? = some x ↔
      ((new.drop b).take d)[k]? = some x) := by
    intro k x hk
    rw [getElem?_slice_of_lt new hk, Nat.add_right_comm, Nat.add_sub_cancel]
  constructor
  · intro i j hij hi
    obtain ⟨p, hp, rfl, rfl⟩ := hinOld i j hij hi.1
    obtain ⟨x, y, hx, hy, hxy, hne⟩ := hrec.pair p hp
    have hc := (getElem?_slice hx).1
    have hd := (getElem?_slice hy).1
    exact ⟨⟨Nat.le_add_right _ _, Nat.add_lt_add_left hd _⟩, x, y, (hold hc).2 hx, (hnew hd).2 hy,
      hxy, hne⟩
  · intro i j hij hj
    obtain ⟨p, hp, rfl, rfl⟩ := hinNew i j hij hj.1
    obtain ⟨x, y, hx, hy, hxy, hne⟩ := hrec.pair p hp
    exact ⟨Nat.le_add_right _ _, Nat.add_lt_add_left (getElem?_slice hx).1 _⟩
  · rintro ⟨i, j, hij, hi⟩ k x hk hx ht
    obtain ⟨p, hp, -, -⟩ := hinOld i j hij hi.1
    obtain ⟨o, rfl⟩ := Nat.exists_eq_add_of_le hk.1
    have ho : o < c := Nat.lt_of_add_lt_add_left hk.2
    obtain ⟨q, hq, rfl⟩ := List.mem_map.1
      (hrec.coversOld (List.ne_nil_of_mem hp) o x ((hold ho).1 hx) ht)
    exact ⟨_, (hmaps _ _).2 (.inr ⟨q, hq, rfl, rfl⟩)⟩
  · rintro ⟨i, j, hij, hi⟩ k x hk hx ht
    obtain ⟨p, hp, -, -⟩ := hinOld i j hij hi.1
    obtain ⟨o, rfl⟩ := Nat.exists_eq_add_of_le hk.1
    have ho : o < d := Nat.lt_of_add_lt_add_left hk.2
    obtain ⟨q, hq, rfl⟩ := List.mem_map.1
      (hrec.coversNew (List.ne_nil_of_mem hp) o x ((hnew ho).1 hx) ht)
    exact ⟨_, (hmaps _ _).2 (.inr ⟨q, hq, rfl, rfl⟩)⟩
  · intro i j x hi hj hx hy
    obtain ⟨o, rfl⟩ := Nat.exists_eq_add_of_le hi.1
    obtain ⟨o', rfl⟩ := Nat.exists_eq_add_of_le hj.1
    have hx' := (hold (Nat.lt_of_add_lt_add_left hi.2)).1 hx
    have hy' := (hnew (Nat.lt_of_add_lt_add_left hj.2)).1 hy
    constructor
    · intro k hk
      obtain ⟨p, hp, hpo, -⟩ := hinOld _ k hk hi.1
      obtain rfl : p.1 = o := Nat.add_left_cancel hpo
      obtain ⟨u, v, hu, hv, huv, hne⟩ := hrec.pair p hp
      obtain rfl := Option.some.inj (hu.symm.trans hx')
      obtain rfl := hrec.uniqueNew p hp v u o' hv hy' huv
      exact hne (Option.some.inj (hy'.symm.trans hv))
    · intro k hk
      obtain ⟨p, hp, -, hpo⟩ := hinNew k _ hk hj.1
      obtain rfl : p.2 = o' := Nat.add_left_cancel hpo
      obtain ⟨u, v, hu, hv, huv, hne⟩ := hrec.pair p hp
      obtain rfl := Option.some.inj (hv.symm.trans hy')
      obtain rfl := hrec.uniqueOld p hp u v o hu hx' huv.symm
      exact hne (Option.some.inj (hu.symm.trans hx'))

/-- **A region extends what is sound.** -/
theorem SoundUpTo.window {c d : Nat} (h : SoundUpTo tokens old new windows m a b)
    (hc : a + c ≤ old.length) (hd : b + d ≤ new.length) :
    SoundUpTo tokens old new (windows ++ [⟨a + 1, c, b + 1, d⟩])
      (mapWindow tokens old new ⟨a + 1, c, b + 1, d⟩ m) (a + c) (b + d) := by
  have hadds := mapHunk_adds tokens ((old.drop a).take c) ((new.drop b).take d) (a + 1)
    (b + 1) m
  have hrec := recoverable_recovered tokens ((old.drop a).take c) ((new.drop b).take d)
  have hlen : ((old.drop a).take c).length = c := by simp; omega
  have hlen' : ((new.drop b).take d).length = d := by simp; omega
  rw [hlen, hlen'] at hadds
  have hm' : mapWindow tokens old new ⟨a + 1, c, b + 1, d⟩ m =
      mapHunk tokens ((old.drop a).take c) ((new.drop b).take d) (a + 1) (b + 1) m := rfl
  rw [hm']
  generalize mapHunk tokens ((old.drop a).take c) ((new.drop b).take d) (a + 1) (b + 1) m = m'
    at hadds
  generalize recoverable tokens ((old.drop a).take c) ((new.drop b).take d) = pairs at hadds hrec
  have hrange : ∀ i j, m.Maps i j → i ≤ a ∧ j ≤ b := fun i j hij =>
    ⟨(h.range i j hij).1.2, (h.range i j hij).2.2⟩
  have hmaps : ∀ i j, m'.Maps i j ↔
      m.Maps i j ∨ ∃ p ∈ pairs, a + 1 + p.1 = i ∧ b + 1 + p.2 = j := by
    intro i j
    rw [hadds.maps, or_comm]
    refine or_congr_left ⟨And.right, fun hij => ⟨fun p _ hp => ?_, hij⟩⟩
    have := hrange i j hij
    omega
  have hin : ∀ p ∈ pairs, p.1 < c ∧ p.2 < d := by
    intro p hp
    obtain ⟨x, y, hx, hy, -, -⟩ := hrec.pair p hp
    exact ⟨(getElem?_slice hx).1, (getElem?_slice hy).1⟩
  refine SoundUpTo.extend (fun i j => ∃ p ∈ pairs, a + 1 + p.1 = i ∧ b + 1 + p.2 = j) h
    ⟨hmaps, ?_, ?_, ?_, ?_, hadds.ambiguous, Nat.le_add_right a c, Nat.le_add_right b d⟩ ?_ ?_
  · rintro i j ⟨p, hp, rfl, rfl⟩
    have := hin p hp
    omega
  · rintro i j i' j' ⟨p, hp, rfl, rfl⟩ ⟨q, hq, rfl, rfl⟩ hlt
    have := hrec.increasing p hp q hq (Nat.lt_of_add_lt_add_left hlt)
    omega
  · intro n
    rw [hadds.deleted, unmatched_iff]
    simp only [List.forall_mem_map, not_exists, not_and]
    exact or_congr_right (and_congr_right fun _ =>
      ⟨fun h _ p hp heq => absurd heq (h p hp), fun h p hp heq => h _ p hp heq rfl⟩)
  · intro n
    rw [hadds.added, unmatched_iff]
    simp only [List.forall_mem_map, not_exists, not_and]
    exact or_congr_right (and_congr_right fun _ =>
      ⟨fun h _ p hp _ heq => absurd heq (h p hp), fun h p hp heq => h _ p hp rfl heq⟩)
  · intro w hw
    rw [List.mem_singleton.1 hw]
    refine ⟨windowOk_of_adds hrec hmaps hrange, ?_, ?_⟩
    · show a + 1 + c ≤ a + c + 1
      omega
    · show b + 1 + d ≤ b + d + 1
      omega
  · rintro i j ⟨p, hp, rfl, rfl⟩ hno
    refine absurd ?_ (hno _ (List.mem_singleton_self _))
    exact ⟨Nat.le_add_right _ _, Nat.add_lt_add_left (hin p hp).1 _⟩

end Region

/-! ## Equal lines -/

section Gap

variable {τ : Type} {tokens : Line → List τ} {old new : List Line} {windows : List Window}
  {m m' : Regions} {a b : Nat}

/-- **Equal lines extend what is sound.** -/
theorem SoundUpTo.gap {g : Nat} (h : SoundUpTo tokens old new windows m a b)
    (hmaps : ∀ i j, m'.Maps i j ↔ m.Maps i j ∨ ∃ k < g, a + 1 + k = i ∧ b + 1 + k = j)
    (hdeleted : ∀ n, n ∈ m'.deleted ↔ n ∈ m.deleted) (hadded : ∀ n, n ∈ m'.added ↔ n ∈ m.added)
    (hambiguous : ∀ n ∈ m'.ambiguous, n ∈ m.ambiguous ∨ n ∈ m'.deleted)
    (heq : ∀ k < g, ∃ x, old[a + k]? = some x ∧ new[b + k]? = some x) :
    SoundUpTo tokens old new windows m' (a + g) (b + g) := by
  rw [← List.append_nil windows]
  refine SoundUpTo.extend (fun i j => ∃ k < g, a + 1 + k = i ∧ b + 1 + k = j) h
    ⟨hmaps, ?_, ?_, ?_, ?_, hambiguous, Nat.le_add_right a g, Nat.le_add_right b g⟩ nofun ?_
  · rintro i j ⟨k, hk, rfl, rfl⟩
    omega
  · rintro i j i' j' ⟨k, hk, rfl, rfl⟩ ⟨l, hl, rfl, rfl⟩ hlt
    omega
  · intro n
    rw [hdeleted]
    refine ⟨.inl, fun hn => hn.resolve_right fun ⟨hin, hno⟩ => ?_⟩
    exact hno _ ⟨n - (a + 1), by omega, by omega, rfl⟩
  · intro n
    rw [hadded]
    refine ⟨.inl, fun hn => hn.resolve_right fun ⟨hin, hno⟩ => ?_⟩
    exact hno _ ⟨n - (b + 1), by omega, rfl, by omega⟩
  · rintro i j ⟨k, hk, rfl, rfl⟩ -
    rw [Nat.add_right_comm a, Nat.add_right_comm b, Nat.add_sub_cancel, Nat.add_sub_cancel]
    exact heq k hk

theorem SoundUpTo.assignRun {g : Nat} (h : SoundUpTo tokens old new windows m a b)
    (heq : ∀ k < g, ∃ x, old[a + k]? = some x ∧ new[b + k]? = some x) :
    SoundUpTo tokens old new windows (m.assignRun (a + 1) (b + 1) g) (a + g) (b + g) := by
  have hrest := foldl_assign (fun k => a + 1 + k) (fun k => b + 1 + k) (List.range g) m
  refine h.gap (fun i j => ?_) (fun n => ?_) (fun n => ?_) (fun n hn => .inl ?_) heq
  · rw [maps_assignRun, or_comm]
    refine or_congr_left ⟨And.right, fun hij => ⟨fun k _ hk => ?_, hij⟩⟩
    have := h.range i j hij
    omega
  · rw [Regions.assignRun, hrest]
  · rw [Regions.assignRun, hrest]
  · rw [Regions.assignRun, hrest] at hn
    exact hn

theorem SoundUpTo.mapGap {g : Nat} (h : SoundUpTo tokens old new windows m a b)
    (heq : ∀ k < g, ∃ x, old[a + k]? = some x ∧ new[b + k]? = some x) :
    SoundUpTo tokens old new windows (mapGap (a + 1) (b + 1) (a + g + 1) (b + g + 1) m)
      (a + g) (b + g) := by
  rw [GitLineMapEngine.mapGap, if_pos (by omega)]
  have hlen : a + g + 1 - (a + 1) = g := by omega
  rw [hlen]
  exact h.assignRun heq

end Gap

/-! ## Diffs -/

/-- The header of a hunk behind `a` old and `b` new lines, of `c` and `d` lines: an empty side is
named by the line before it, and a count of one may be left out. -/
structure HunkHeader.Names (h : HunkHeader) (a b c d : Nat) : Prop where
  /-- `old_count` -/
  oldCount : h.oldCount.getD 1 = c
  /-- `new_count` -/
  newCount : h.newCount.getD 1 = d
  /-- `old_start` -/
  oldStart : h.oldStart = if c = 0 then a else a + 1
  /-- `new_start` -/
  newStart : h.newStart = if d = 0 then b else b + 1

/-- The hunks align the two texts from two positions on: up to a hunk, and behind the last one, the
lines are equal. -/
def Aligned (old new : List Line) : Nat → Nat → List HunkHeader → Prop
  | a, b, [] => old.drop a = new.drop b
  | a, b, h :: hs => ∃ g c d,
    (∀ k < g, ∃ x, old[a + k]? = some x ∧ new[b + k]? = some x) ∧ h.Names (a + g) (b + g) c d ∧
      a + g + c ≤ old.length ∧ b + g + d ≤ new.length ∧ Aligned old new (a + g + c) (b + g + d) hs

theorem HunkHeader.Names.window_eq {h : HunkHeader} {a b c d : Nat} (hn : h.Names a b c d) :
    h.window = ⟨a + 1, c, b + 1, d⟩ := by
  rw [HunkHeader.window]
  rw [hn.oldCount, hn.newCount, hn.oldStart, hn.newStart]
  rw [Window.mk.injEq]
  refine ⟨?_, rfl, ?_, rfl⟩
  · by_cases hc : c = 0 <;> simp [hc]
  · by_cases hd : d = 0 <;> simp [hd]

theorem mapHunks_sound {τ : Type} [DecidableEq τ] {tokens : Line → List τ} {old new : List Line} :
    ∀ {hs : List HunkHeader} {windows : List Window} {m : Regions} {a b : Nat},
      a ≤ old.length → b ≤ new.length → Aligned old new a b hs →
      SoundUpTo tokens old new windows m a b →
      Sound tokens old new (windows ++ hs.map HunkHeader.window)
        (mapHunks tokens old new (a + 1) (b + 1) (hs.map HunkHeader.window) m)
  | [], windows, m, a, b, ha, hb, hal, h => by
    have hlen : old.length - a = new.length - b := by
      have := congrArg List.length hal
      rwa [List.length_drop, List.length_drop] at this
    have heq : ∀ k < old.length - a, ∃ x, old[a + k]? = some x ∧ new[b + k]? = some x := by
      intro k hk
      have hget := congrArg (·[k]?) hal
      rw [List.getElem?_drop, List.getElem?_drop] at hget
      exact ⟨_, List.getElem?_eq_getElem (by omega), hget ▸ List.getElem?_eq_getElem (by omega)⟩
    have hgap := h.mapGap heq
    have hend : b + (old.length - a) = new.length := by omega
    rw [Nat.add_sub_cancel' ha, hend] at hgap
    rw [List.map_nil, List.append_nil]
    exact hgap.sound
  | hh :: hs, windows, m, a, b, ha, hb, hal, h => by
    obtain ⟨g, c, d, heq, hnames, hc, hd, hrest⟩ := hal
    have ih := mapHunks_sound hc hd hrest ((h.mapGap heq).window hc hd)
    rw [List.append_assoc, Nat.add_right_comm (a + g), Nat.add_right_comm (b + g)] at ih
    rw [List.map_cons, hnames.window_eq]
    exact ih

/-! ## Two texts -/

theorem commonPrefix_spec (old new : List Line) :
    commonPrefix old new ≤ old.length ∧ commonPrefix old new ≤ new.length ∧
      ∀ k < commonPrefix old new, ∃ x, old[k]? = some x ∧ new[k]? = some x := by
  fun_induction commonPrefix old new with
  | case1 as a bs ih =>
    obtain ⟨hold, hnew, heq⟩ := ih
    refine ⟨Nat.succ_le_succ hold, Nat.succ_le_succ hnew, fun k hk => ?_⟩
    cases k with
    | zero => exact ⟨a, rfl, rfl⟩
    | succ k => exact heq k (Nat.lt_of_succ_lt_succ hk)
  | case2 => exact ⟨Nat.zero_le _, Nat.zero_le _, nofun⟩
  | case3 => exact ⟨Nat.zero_le _, Nat.zero_le _, nofun⟩

/-- The last lines, counted from the end, behind a common prefix. -/
theorem commonSuffix_spec {old new : List Line} {p : Nat} (hp : p ≤ old.length)
    (hp' : p ≤ new.length) :
    commonPrefix (old.drop p).reverse (new.drop p).reverse ≤ old.length - p ∧
      commonPrefix (old.drop p).reverse (new.drop p).reverse ≤ new.length - p ∧
      ∀ k < commonPrefix (old.drop p).reverse (new.drop p).reverse,
        ∃ x, old[old.length - 1 - k]? = some x ∧ new[new.length - 1 - k]? = some x := by
  obtain ⟨hold, hnew, heq⟩ := commonPrefix_spec (old.drop p).reverse (new.drop p).reverse
  rw [List.length_reverse, List.length_drop] at hold hnew
  refine ⟨hold, hnew, fun k hk => ?_⟩
  obtain ⟨x, hx, hy⟩ := heq k hk
  rw [List.getElem?_reverse (by rw [List.length_drop]; omega), List.getElem?_drop,
    List.length_drop] at hx hy
  refine ⟨x, ?_, ?_⟩
  · rw [← hx]
    congr 1
    omega
  · rw [← hy]
    congr 1
    omega

section Suffix

variable {τ : Type} [DecidableEq τ] {tokens : Line → List τ} {old new : List Line} {m : Regions}
  {p s : Nat}

/-- `mapping` with the common suffix. -/
def assignSuffix (old new : List Line) (s : Nat) (m : Regions) : Regions :=
  (List.range s).foldl (fun m index => m.assign (old.length - index) (new.length - index)) m

/-- The suffix, counted from its first line. -/
theorem suffix_iff (hs : s ≤ old.length - p) (hs' : s ≤ new.length - p) (i j : Nat) :
    (∃ k ∈ List.range s, old.length - k = i ∧ new.length - k = j) ↔
      ∃ k < s, p + (old.length - s - p) + 1 + k = i ∧ p + (new.length - s - p) + 1 + k = j := by
  constructor
  · rintro ⟨k, hk, rfl, rfl⟩
    rw [List.mem_range] at hk
    exact ⟨s - 1 - k, by omega, by omega, by omega⟩
  · rintro ⟨k, hk, rfl, rfl⟩
    exact ⟨s - 1 - k, List.mem_range.2 (by omega), by omega, by omega⟩

/-- The code assigns the suffix before it maps the region in front of it, and the order does not
matter. -/
theorem SoundUpTo.suffix {windows : List Window}
    (hstart : SoundUpTo tokens old new [] m p p) (hs : s ≤ old.length - p)
    (hs' : s ≤ new.length - p)
    (heq : ∀ k < s, ∃ x, old[p + (old.length - s - p) + k]? = some x ∧
      new[p + (new.length - s - p) + k]? = some x)
    (h : SoundUpTo tokens old new windows
      (mapWindow tokens old new ⟨p + 1, old.length - s - p, p + 1, new.length - s - p⟩ m)
      (p + (old.length - s - p)) (p + (new.length - s - p))) :
    SoundUpTo tokens old new windows
      (mapWindow tokens old new ⟨p + 1, old.length - s - p, p + 1, new.length - s - p⟩
        (assignSuffix old new s m))
      (p + (old.length - s - p) + s) (p + (new.length - s - p) + s) := by
  have hrec := recoverable_recovered tokens ((old.drop p).take (old.length - s - p))
    ((new.drop p).take (new.length - s - p))
  have hadds := mapHunk_adds tokens ((old.drop p).take (old.length - s - p))
    ((new.drop p).take (new.length - s - p)) (p + 1) (p + 1) m
  have hadds' := mapHunk_adds tokens ((old.drop p).take (old.length - s - p))
    ((new.drop p).take (new.length - s - p)) (p + 1) (p + 1) (assignSuffix old new s m)
  have hwindow : ∀ m, mapWindow tokens old new
      ⟨p + 1, old.length - s - p, p + 1, new.length - s - p⟩ m =
        mapHunk tokens ((old.drop p).take (old.length - s - p))
          ((new.drop p).take (new.length - s - p)) (p + 1) (p + 1) m := fun m => rfl
  have hrest := foldl_assign (fun k => old.length - k) (fun k => new.length - k) (List.range s) m
  rw [hwindow] at h ⊢
  refine h.gap (fun i j => ?_) (fun n => ?_) (fun n => ?_) (fun n hn => ?_) heq
  · have hsuffix : (assignSuffix old new s m).Maps i j ↔ _ :=
      maps_foldl_assign (fun k => old.length - k) (fun k => new.length - k)
        (List.range s) m (fun x hx y hy h => by rw [List.mem_range] at hx hy; omega) i j
    rw [suffix_iff hs hs'] at hsuffix
    rw [hadds.maps, hadds'.maps, hsuffix]
    generalize recoverable tokens ((old.drop p).take (old.length - s - p))
      ((new.drop p).take (new.length - s - p)) = pairs at hrec
    constructor
    · rintro (hpair | ⟨hno, hsuf | ⟨-, hij⟩⟩)
      · exact .inl (.inl hpair)
      · exact .inr hsuf
      · exact .inl (.inr ⟨hno, hij⟩)
    · rintro ((hpair | ⟨hno, hij⟩) | hsuf)
      · exact .inl hpair
      · refine .inr ⟨hno, .inr ⟨fun k hk hki => ?_, hij⟩⟩
        have := (hstart.range i j hij).1
        rw [List.mem_range] at hk
        omega
      · refine .inr ⟨fun q hq hqi => ?_, .inl hsuf⟩
        obtain ⟨x, y, hx, -⟩ := hrec.pair q hq
        have := (getElem?_slice hx).1
        obtain ⟨k, hk, hki, -⟩ := hsuf
        omega
  · rw [hadds.deleted, hadds'.deleted, assignSuffix, hrest]
  · rw [hadds.added, hadds'.added, assignSuffix, hrest]
  · rcases hadds'.ambiguous n hn with hn | hn
    · rw [assignSuffix, hrest] at hn
      refine .inr ((hadds'.deleted n).2 (.inl ?_))
      rw [assignSuffix, hrest]
      exact hstart.ambiguous n hn
    · exact .inr hn

end Suffix

theorem mapText_sound {τ : Type} [DecidableEq τ] {tokens : Line → List τ}
    (oldText newText : List Char) :
    Sound tokens (splitLines oldText) (splitLines newText)
      [changedWindow (splitLines oldText) (splitLines newText)]
      (mapText tokens oldText newText) := by
  rw [mapText]
  generalize splitLines oldText = old
  generalize splitLines newText = new
  rw [changedWindow]
  obtain ⟨hp, hp', hpre⟩ := commonPrefix_spec old new
  generalize commonPrefix old new = p at hp hp' hpre
  obtain ⟨hs, hs', hsuf⟩ := commonSuffix_spec hp hp'
  generalize commonPrefix (old.drop p).reverse (new.drop p).reverse = s at hs hs' hsuf
  have hstart : SoundUpTo tokens old new [] (Regions.empty.assignRun 1 1 p) p p := by
    have hempty : SoundUpTo tokens old new [] .empty 0 0 := soundUpTo_empty
    have h := hempty.assignRun (g := p) fun k hk => by rw [Nat.zero_add]; exact hpre k hk
    rw [Nat.zero_add p] at h
    exact h
  generalize Regions.empty.assignRun 1 1 p = m at hstart
  have hmiddle := hstart.window (c := old.length - s - p) (d := new.length - s - p) (by omega)
    (by omega)
  have hfinal := hstart.suffix hs hs' (fun k hk => ?_) hmiddle
  · have hend : p + (old.length - s - p) + s = old.length := by omega
    have hend' : p + (new.length - s - p) + s = new.length := by omega
    rw [hend, hend'] at hfinal
    exact hfinal.sound
  · obtain ⟨x, hx, hy⟩ := hsuf (s - 1 - k) (by omega)
    have hold : p + (old.length - s - p) + k = old.length - 1 - (s - 1 - k) := by omega
    have hnew : p + (new.length - s - p) + k = new.length - 1 - (s - 1 - k) := by omega
    exact ⟨x, hold ▸ hx, hnew ▸ hy⟩

/-! ## Both entry points -/

theorem mem_range'_one (n length : Nat) : n ∈ List.range' 1 length ↔ 1 ≤ n ∧ n ≤ length := by
  rw [List.mem_range'_1]
  omega

/-- A diff that speaks of a rename maps nothing. -/
theorem renamed_sound {τ : Type} (tokens : Line → List τ) (oldText newText : List Char)
    (windows : List Window) :
    Sound tokens (splitLines oldText) (splitLines newText) windows
      ⟨[], [], List.range' 1 (Text.splitlines oldText).length,
        List.range' 1 (Text.splitlines newText).length⟩ where
  increasing := nofun
  get := by
    intro n
    rw [Regions.get]
    split <;> rfl
  oldLines := by
    intro n
    rw [splitLines, Text.splitlines_newlines, ← mem_range'_one]
    exact ⟨.inr, fun h => h.elim (fun ⟨_, hj⟩ => nomatch hj) id⟩
  oldDisjoint := fun _ _ _ h => nomatch h
  newLines := by
    intro n
    rw [splitLines, Text.splitlines_newlines, ← mem_range'_one]
    exact ⟨.inr, fun h => h.elim (fun ⟨_, hi⟩ => nomatch hi) id⟩
  newDisjoint := fun _ _ _ h => nomatch h
  outside := nofun
  inside := fun _ _ => {
    pair := nofun
    into := nofun
    coversOld := fun ⟨_, _, h, _⟩ => nomatch h
    coversNew := fun ⟨_, _, h, _⟩ => nomatch h
    readded := fun _ _ _ _ _ _ _ => ⟨nofun, nofun⟩ }

/-- **The line map is sound** for any lexer and any two texts: for `map_text`, and for
`map_git_text` with every diff whose hunks align the two texts. -/
theorem line_map_sound {τ : Type} [DecidableEq τ] (tokens : Line → List τ)
    (oldText newText : List Char) :
    Sound tokens (splitLines oldText) (splitLines newText)
        [changedWindow (splitLines oldText) (splitLines newText)]
        (mapText tokens oldText newText) ∧
      ∀ diff : Diff, Aligned (splitLines oldText) (splitLines newText) 0 0 diff.hunks →
        Sound tokens (splitLines oldText) (splitLines newText)
          (diff.hunks.map HunkHeader.window) (mapGitText tokens diff oldText newText) := by
  refine ⟨mapText_sound oldText newText, fun diff hal => ?_⟩
  rw [mapGitText]
  split
  · exact renamed_sound tokens oldText newText _
  · exact mapHunks_sound (Nat.zero_le _) (Nat.zero_le _) hal soundUpTo_empty

/-- The map as the engine reads it is strictly increasing. -/
theorem Sound.toMapping_increasing {τ : Type} {tokens : Line → List τ} {old new : List Line}
    {windows : List Window} {m : Regions} (h : Sound tokens old new windows m)
    (fingerprint : String) : (m.toMapping fingerprint).Increasing := by
  intro i j i' j' hij hij' hlt
  have hget : ∀ n, (m.toMapping fingerprint).get n = m.mapping.lookup n := h.get
  rw [hget] at hij hij'
  exact h.increasing i j i' j' hij hij' hlt

/-- A line is inserted behind the first one; the header names that line. -/
theorem line_map_sound_insertion :
    Sound id [['a'], ['b']] [['a'], ['x'], ['b']] [⟨2, 0, 2, 1⟩]
      (mapGitText id ⟨false, [⟨1, some 0, 2, none⟩]⟩ ['a', '\n', 'b'] ['a', '\n', 'x', '\n', 'b']) := by
  refine (line_map_sound id ['a', '\n', 'b'] ['a', '\n', 'x', '\n', 'b']).2
    ⟨false, [⟨1, some 0, 2, none⟩]⟩ ⟨1, 0, 1, fun k hk => ⟨['a'], ?_⟩, ⟨rfl, rfl, rfl, rfl⟩, ?_⟩
  · obtain rfl : k = 0 := Nat.lt_one_iff.1 hk
    decide
  · refine ⟨by decide, by decide, ?_⟩
    show List.drop _ _ = List.drop _ _
    decide

end GitLineMapEngine

end FosCoverage
