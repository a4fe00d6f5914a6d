import Mathlib.Data.List.Chain

/-!
# Greedy grouping of a stream

A stream of items is cut into consecutive groups: the next item joins the current group unless a
condition on the group and the item asks for a cut first.  Whatever the condition, the groups are
the stream again when they are put together (`flatten_groups`), and none of them is empty
(`ne_nil_of_mem_groups`).
-/

set_option autoImplicit false

namespace Grouping

universe u

variable {α : Type u} (cut : List α → α → Bool)

/-- The groups of a stream, given the group that is being filled. -/
def groupsFrom : List α → List α → List (List α)
  | current, [] => if current.isEmpty then [] else [current]
  | current, a :: rest =>
    if !current.isEmpty && cut current a then current :: groupsFrom [a] rest
    else groupsFrom (current ++ [a]) rest

/-- The groups of a stream. -/
def groups (l : List α) : List (List α) := groupsFrom cut [] l

theorem flatten_groupsFrom (current l : List α) :
    (groupsFrom cut current l).flatten = current ++ l := by
  induction l generalizing current with
  | nil =>
    cases current with
    | nil => rfl
    | cons a as => simp [groupsFrom]
  | cons a rest ih =>
    unfold groupsFrom
    split
    · simp [ih]
    · simp [ih]

/-- **Nothing is lost, repeated or reordered.** -/
theorem flatten_groups (l : List α) : (groups cut l).flatten = l :=
  flatten_groupsFrom cut [] l

theorem ne_nil_of_mem_groupsFrom {current l g : List α} (h : g ∈ groupsFrom cut current l) :
    g ≠ [] := by
  induction l generalizing current with
  | nil =>
    cases current with
    | nil => simp [groupsFrom] at h
    | cons a as =>
      obtain rfl : g = a :: as := by simpa [groupsFrom] using h
      simp
  | cons a rest ih =>
    unfold groupsFrom at h
    split at h
    · rename_i hc
      rcases List.mem_cons.1 h with rfl | h
      · rintro rfl
        simp at hc
      · exact ih h
    · exact ih h

theorem ne_nil_of_mem_groups {l g : List α} (h : g ∈ groups cut l) : g ≠ [] :=
  ne_nil_of_mem_groupsFrom cut h

/-! ## What every group has -/

variable {cut} {S : α → Prop} {R : α → α → Prop} {P : List α → Prop}

theorem forall_groupsFrom (one : ∀ a, S a → P [a])
    (more : ∀ g a b, P (g ++ [a]) → S b → R a b → cut (g ++ [a]) b = false →
      P (g ++ [a] ++ [b]))
    {current l : List α} (hitems : ∀ a ∈ l, S a) (hchain : (current ++ l).IsChain R)
    (hp : current ≠ [] → P current) : ∀ g ∈ groupsFrom cut current l, P g := by
  induction l generalizing current with
  | nil =>
    intro g hg
    cases current with
    | nil => cases hg
    | cons a as =>
      obtain rfl : g = a :: as := List.mem_singleton.1 hg
      exact hp (List.cons_ne_nil a as)
  | cons b rest ih =>
    have hb : S b := hitems b List.mem_cons_self
    have hitems' : ∀ a ∈ rest, S a := fun a ha => hitems a (List.mem_cons_of_mem b ha)
    have hrest : ((current ++ [b]) ++ rest).IsChain R := by rwa [List.append_assoc]
    rw [groupsFrom]
    split
    · rename_i hcut
      intro g hg
      rcases List.mem_cons.1 hg with rfl | hg
      · refine hp fun he => ?_
        rw [he] at hcut
        cases hcut
      · exact ih hitems' hchain.right_of_append (fun _ => one b hb) g hg
    · rename_i hcut
      refine ih hitems' hrest fun _ => ?_
      rcases List.eq_nil_or_concat current with rfl | ⟨g, a, rfl⟩
      · exact one b hb
      · rw [List.concat_eq_append] at *
        refine more g a b (hp (by simp)) hb ?_ (by simpa using hcut)
        rw [List.append_assoc, List.singleton_append] at hchain
        exact (List.isChain_cons_cons.1 hchain.right_of_append).1

/-- **The rule for groups**: what single items have and a group keeps when it takes in an item
without a cut, all groups have.  What is known of the items and of neighbours in the stream may be
used. -/
theorem forall_groups (one : ∀ a, S a → P [a])
    (more : ∀ g a b, P (g ++ [a]) → S b → R a b → cut (g ++ [a]) b = false →
      P (g ++ [a] ++ [b]))
    {l : List α} (hitems : ∀ a ∈ l, S a) (hchain : l.IsChain R) : ∀ g ∈ groups cut l, P g :=
  forall_groupsFrom one more hitems (show ([] ++ l).IsChain R from hchain) fun h => absurd rfl h

theorem head?_groupsFrom (a : α) (current l : List α) :
    ∀ g ∈ (groupsFrom cut (a :: current) l).head?, g.head? = some a := by
  induction l generalizing current with
  | nil =>
    intro g hg
    obtain rfl : a :: current = g := Option.some.inj hg
    rfl
  | cons b rest ih =>
    intro g hg
    rw [groupsFrom] at hg
    split at hg
    · obtain rfl : a :: current = g := Option.some.inj hg
      rfl
    · exact ih (current ++ [b]) g hg

theorem isChain_groupsFrom (current l : List α) :
    (groupsFrom cut current l).IsChain fun g h => ∃ b ∈ h.head?, cut g b = true := by
  induction l generalizing current with
  | nil => cases current <;> simp [groupsFrom]
  | cons b rest ih =>
    rw [groupsFrom]
    split
    · rename_i hcut
      refine List.isChain_cons.2 ⟨fun h hh => ⟨b, ?_, ?_⟩, ih [b]⟩
      · exact head?_groupsFrom b [] rest h hh
      · exact (Bool.and_eq_true_iff.1 hcut).2
    · exact ih _

variable (cut) in
/-- **The first item of a group was cut off from the group before it.** -/
theorem isChain_groups (l : List α) :
    (groups cut l).IsChain fun g h => ∃ b ∈ h.head?, cut g b = true :=
  isChain_groupsFrom [] l

/-- A group is a part of the stream. -/
theorem sublist_of_mem_groups {l g : List α} (h : g ∈ groups cut l) : g.Sublist l := by
  rw [← flatten_groups cut l]
  exact List.sublist_flatten_of_mem h

/-- Grouping by what is known of the items. -/
theorem groupsFrom_map {β : Type u} (f : β → α) (current l : List β) :
    groupsFrom cut (current.map f) (l.map f) =
      (groupsFrom (fun g b => cut (g.map f) (f b)) current l).map (List.map f) := by
  induction l generalizing current with
  | nil => cases current <;> rfl
  | cons b rest ih =>
    rw [List.map_cons, groupsFrom, groupsFrom, List.isEmpty_map]
    split
    · rw [List.map_cons, ← ih [b], List.map_singleton]
    · rw [← ih, List.map_append, List.map_singleton]

theorem groups_map {β : Type u} (f : β → α) (l : List β) :
    groups cut (l.map f) = (groups (fun g b => cut (g.map f) (f b)) l).map (List.map f) :=
  groupsFrom_map f [] l

end Grouping
