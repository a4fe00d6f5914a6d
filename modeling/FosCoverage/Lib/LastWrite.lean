import Mathlib.Data.List.Nodup
import Mathlib.Data.List.Induction
import FosCoverage.Lib.Paging

/-!
# Dictionaries filled by a loop

A loop that ends with `table[key(a)] = a` keeps, for every key, the last value written, at the
place of the first.  `LastWrite.set` is one such assignment on the list of the values.

* `LastWrite.IsLast key l a` says that `a` is the last element of `l` with its key.
* `mem_foldl_set` identifies the dictionary after the loop with those elements, and
  `IsLast.unique` and `exists_isLast` say that every key written has exactly one.
* `filed` is the dictionary of the rows with one value of a column.  The dictionaries of all values
  have every row exactly when no two rows share column and key (`flatMap_filed_perm`,
  `nodup_flatMap_filed`).
-/

set_option autoImplicit false

namespace LastWrite

universe u v

variable {α : Type u} {κ : Type v} [DecidableEq κ] (key : α → κ)

/-- `table[key(a)] = a`: the place of the first value with the key, the value of the last. -/
def set (acc : List α) (a : α) : List α :=
  if acc.any fun b => key b = key a then acc.map fun b => if key b = key a then a else b
  else acc ++ [a]

variable {key}

theorem mem_set {acc : List α} {a x : α} :
    x ∈ set key acc a ↔ (x ∈ acc ∧ key x ≠ key a) ∨ x = a := by
  unfold set
  split
  · rename_i h
    obtain ⟨b, hb, hbk⟩ := List.any_eq_true.1 h
    rw [List.mem_map]
    constructor
    · rintro ⟨c, hc, rfl⟩
      by_cases hk : key c = key a
      · exact .inr (by simp [hk])
      · exact .inl (by simp [hk, hc])
    · rintro (⟨hx, hk⟩ | rfl)
      · exact ⟨x, hx, if_neg hk⟩
      · exact ⟨b, hb, if_pos (by simpa using hbk)⟩
  · rename_i h
    have hnone : ∀ b ∈ acc, key b ≠ key a := fun b hb hk =>
      h (List.any_eq_true.2 ⟨b, hb, by simpa using hk⟩)
    rw [List.mem_append, List.mem_singleton]
    exact or_congr_left ⟨fun hx => ⟨hx, hnone x hx⟩, And.left⟩

theorem nodup_set {acc : List α} {a : α} (h : (acc.map key).Nodup) :
    ((set key acc a).map key).Nodup := by
  unfold set
  split
  · have hsame : (acc.map fun b => if key b = key a then a else b).map key = acc.map key := by
      rw [List.map_map]
      refine List.map_congr_left fun b _ => ?_
      simp only [Function.comp]
      split
      · exact (‹key b = key a›).symm
      · rfl
    rwa [hsame]
  · rename_i hany
    rw [List.map_append, List.nodup_append]
    refine ⟨h, by simp, ?_⟩
    rintro k hk k' hk' rfl
    obtain ⟨b, hb, rfl⟩ := List.mem_map.1 hk
    have : key b = key a := by simpa using hk'
    exact hany (List.any_eq_true.2 ⟨b, hb, by simpa using this⟩)

/-! ## The loop -/

/-- The element is the last of the list with its key. -/
def IsLast (key : α → κ) (l : List α) (a : α) : Prop :=
  ∃ pre post, l = pre ++ a :: post ∧ ∀ b ∈ post, key b ≠ key a

omit [DecidableEq κ] in
theorem IsLast.mem {l : List α} {a : α} (h : IsLast key l a) : a ∈ l := by
  obtain ⟨pre, post, rfl, _⟩ := h
  simp

omit [DecidableEq κ] in
theorem isLast_append_singleton {l : List α} {a x : α} :
    IsLast key (l ++ [a]) x ↔ (IsLast key l x ∧ key x ≠ key a) ∨ x = a := by
  constructor
  · rintro ⟨pre, post, he, hpost⟩
    rcases post.eq_nil_or_concat with rfl | ⟨post, b, rfl⟩
    · exact .inr (List.append_inj_right' he rfl |> List.head_eq_of_cons_eq).symm
    · have hsplit : l ++ [a] = (pre ++ x :: post) ++ [b] := by simpa using he
      obtain ⟨rfl, hab⟩ := List.append_inj' hsplit rfl
      obtain rfl : a = b := by simpa using hab
      exact .inl ⟨⟨pre, post, rfl, fun c hc => hpost c (by simp [hc])⟩,
        fun hk => hpost a (by simp) hk.symm⟩
  · rintro (⟨⟨pre, post, rfl, hpost⟩, hk⟩ | rfl)
    · refine ⟨pre, post ++ [a], by simp, fun b hb => ?_⟩
      rcases List.mem_append.1 hb with hb | hb
      · exact hpost b hb
      · rw [List.mem_singleton.1 hb]
        exact hk.symm
    · exact ⟨l, [], rfl, by simp⟩

/-- **The dictionary after the loop** has the last element of every key. -/
theorem mem_foldl_set {l : List α} {x : α} : x ∈ l.foldl (set key) [] ↔ IsLast key l x := by
  induction l using List.reverseRecOn generalizing x with
  | nil => exact ⟨fun h => (by cases h), fun h => h.mem⟩
  | append_singleton l a ih =>
    rw [List.foldl_append, List.foldl_cons, List.foldl_nil, mem_set, ih, isLast_append_singleton]

theorem nodup_foldl_set {l : List α} : ((l.foldl (set key) []).map key).Nodup := by
  induction l using List.reverseRecOn with
  | nil => exact List.nodup_nil
  | append_singleton l a ih =>
    rw [List.foldl_append, List.foldl_cons, List.foldl_nil]
    exact nodup_set ih

/-- Every key written has a last element. -/
theorem exists_isLast {l : List α} {a : α} (h : a ∈ l) : ∃ x, IsLast key l x ∧ key x = key a := by
  induction l using List.reverseRecOn with
  | nil => cases h
  | append_singleton l b ih =>
    by_cases hk : key a = key b
    · exact ⟨b, isLast_append_singleton.2 (.inr rfl), hk.symm⟩
    · have ha : a ∈ l := by
        rcases List.mem_append.1 h with h | h
        · exact h
        · exact absurd (congrArg key (List.mem_singleton.1 h)) hk
      obtain ⟨x, hx, hxk⟩ := ih ha
      exact ⟨x, isLast_append_singleton.2 (.inl ⟨hx, hxk ▸ hk⟩), hxk⟩

/-- It has one only. -/
theorem IsLast.unique {l : List α} {a b : α} (ha : IsLast key l a) (hb : IsLast key l b)
    (hk : key a = key b) : a = b :=
  List.inj_on_of_nodup_map nodup_foldl_set (mem_foldl_set.2 ha) (mem_foldl_set.2 hb) hk

omit [DecidableEq κ] in
/-- In a list sorted by a rank, the last element with a key has the highest rank of those. -/
theorem IsLast.rank_le {rank : α → Nat} {l : List α} {a b : α} (ha : IsLast key l a)
    (hs : l.Pairwise fun x y => rank x ≤ rank y) (hb : b ∈ l) (hk : key b = key a) :
    rank b ≤ rank a := by
  obtain ⟨pre, post, rfl, hpost⟩ := ha
  rw [List.pairwise_append] at hs
  rcases List.mem_append.1 hb with hb | hb
  · exact hs.2.2 b hb a (by simp)
  · rcases List.mem_cons.1 hb with rfl | hb
    · exact Nat.le_refl _
    · exact absurd hk (hpost b hb)

/-- Without a key written twice the dictionary has every element, in order. -/
theorem foldl_set_of_nodup {l : List α} (h : (l.map key).Nodup) : l.foldl (set key) [] = l := by
  induction l using List.reverseRecOn with
  | nil => rfl
  | append_singleton l a ih =>
    rw [List.map_append, List.nodup_append] at h
    rw [List.foldl_append, List.foldl_cons, List.foldl_nil, ih h.1, set, if_neg]
    intro hany
    obtain ⟨b, hb, hk⟩ := List.any_eq_true.1 hany
    exact h.2.2 (key b) (List.mem_map_of_mem hb) (key a) (by simp) (by simpa using hk)

/-! ## One dictionary for each value of a column -/

section Filed

variable {β : Type v} [DecidableEq β] (column : α → β) (key) (rows : List α)

/-- The dictionary of the rows with this value. -/
def filed (value : β) : List α :=
  (rows.filter fun r => column r = value).foldl (set key) []

variable {column key rows}

theorem mem_filed {value : β} {r : α} (h : r ∈ filed key column rows value) :
    r ∈ rows ∧ column r = value := by
  have := (mem_foldl_set.1 h).mem
  rwa [List.mem_filter, decide_eq_true_eq] at this

theorem filed_append_singleton {value : β} {r : α} :
    filed key column (rows ++ [r]) value =
      if column r = value then set key (filed key column rows value) r
      else filed key column rows value := by
  unfold filed
  rw [List.filter_append, List.foldl_append]
  by_cases h : column r = value <;> simp [h]

/-- The dictionaries of different values have no column and key in common. -/
theorem nodup_flatMap_filed {values : List β} (hn : values.Nodup) :
    ((values.flatMap (filed key column rows)).map fun r => (column r, key r)).Nodup := by
  rw [List.map_flatMap, List.nodup_flatMap]
  refine ⟨fun value _ => ?_, hn.imp fun {v w} hvw => ?_⟩
  · exact List.Nodup.of_map Prod.snd (by rw [List.map_map]; exact nodup_foldl_set)
  · intro x hx hx'
    obtain ⟨r, hr, rfl⟩ := List.mem_map.1 hx
    obtain ⟨r', hr', he⟩ := List.mem_map.1 hx'
    exact hvw ((mem_filed hr).2.symm.trans ((congrArg Prod.fst he).symm.trans (mem_filed hr').2))

/-- **No two rows share column and key, so nothing is overwritten.** -/
theorem flatMap_filed_perm {values : List β} (hn : values.Nodup)
    (hall : ∀ r ∈ rows, column r ∈ values)
    (hkeys : (rows.map fun r => (column r, key r)).Nodup) :
    (values.flatMap (filed key column rows)).Perm rows := by
  have hfiled : ∀ value, filed key column rows value = rows.filter fun r => column r = value := by
    intro value
    refine foldl_set_of_nodup ?_
    have hsub := hkeys.sublist (List.filter_sublist (p := fun r => column r = value) |>.map _)
    refine List.Nodup.of_map (fun k => (value, k)) ?_
    rw [List.map_map]
    refine (List.map_congr_left fun r hr => ?_) ▸ hsub
    rw [List.mem_filter, decide_eq_true_eq] at hr
    simp only [Function.comp, hr.2]
  rw [funext hfiled]
  refine (Paging.flatMap_filter_perm column hn rows).trans (List.Perm.of_eq ?_)
  exact List.filter_eq_self.2 fun r hr => decide_eq_true (hall r hr)

end Filed

end LastWrite
