import FosCoverage.Lib.Grouping

/-!
# Maximal runs of consecutive numbers

A run of a set of natural numbers is an interval of it, and it is maximal when the numbers next to
it are not in the set.  Two maximal runs with a common number are the same (`MaximalRun.unique`).

A strictly increasing list falls into its maximal runs when it is cut wherever a number is not the
successor of the one before it (`runs_spec`).
-/

set_option autoImplicit false

/-- The numbers from `a` to `b` are a maximal run of the set `S`. -/
structure MaximalRun (S : Nat → Prop) (a b : Nat) : Prop where
  /-- They are in the set. -/
  mem : ∀ n, a ≤ n → n ≤ b → S n
  /-- The number before is not. -/
  before : ∀ n, n + 1 = a → ¬ S n
  /-- The number behind is not. -/
  behind : ¬ S (b + 1)

namespace MaximalRun

variable {S : Nat → Prop} {a b a' b' t : Nat}

theorem le_start (h : MaximalRun S a b) (h' : MaximalRun S a' b') (ht : t ≤ b) (ht' : a' ≤ t) :
    a' ≤ a := by
  by_contra hlt
  obtain ⟨n, rfl⟩ : ∃ n, n + 1 = a' := ⟨a' - 1, by omega⟩
  exact h'.before n rfl (h.mem n (by omega) (by omega))

theorem end_le (h : MaximalRun S a b) (h' : MaximalRun S a' b') (ht : a ≤ t) (ht' : t ≤ b') :
    b ≤ b' := by
  by_contra hlt
  exact h'.behind (h.mem (b' + 1) (by omega) (by omega))

/-- **Maximal runs with a common number are the same.** -/
theorem unique (h : MaximalRun S a b) (h' : MaximalRun S a' b') (ht : a ≤ t ∧ t ≤ b)
    (ht' : a' ≤ t ∧ t ≤ b') : a = a' ∧ b = b' :=
  ⟨Nat.le_antisymm (h'.le_start h ht'.2 ht.1) (h.le_start h' ht.2 ht'.1),
    Nat.le_antisymm (h.end_le h' ht.1 ht'.2) (h'.end_le h ht'.1 ht.2)⟩

end MaximalRun

/-! ## The runs of an increasing list -/

namespace Grouping

/-- A number that does not follow the last one of the current run starts another. -/
def gap (current : List Nat) (n : Nat) : Bool := current.getLast?.map (· + 1) ≠ some n

/-- The numbers of a run are those from its first to its last one. -/
def Consecutive (g : List Nat) : Prop :=
  ∃ a b, g.head? = some a ∧ g.getLast? = some b ∧ ∀ n, n ∈ g ↔ a ≤ n ∧ n ≤ b

theorem consecutive_of_mem_runs {l g : List Nat} (h : g ∈ groups gap l) : Consecutive g := by
  refine forall_groups (S := fun _ => True) (R := fun _ _ => True) (fun a _ => ?_)
    (fun g a b hg _ _ hcut => ?_) (fun _ _ => trivial) ?_ g h
  · exact ⟨a, a, rfl, rfl, fun n => by rw [List.mem_singleton]; omega⟩
  · obtain ⟨first, last, hfirst, hlast, hmem⟩ := hg
    have hlast' : last = a := by simpa using hlast.symm
    have hb : a + 1 = b := by simpa [gap] using hcut
    have hle : first ≤ a := ((hmem a).1 (by simp)).1
    refine ⟨first, b, ?_, by simp, fun n => ?_⟩
    · rw [List.head?_append, hfirst]
      rfl
    · rw [List.mem_append, hmem, List.mem_singleton]
      omega
  · exact (List.pairwise_of_forall fun _ _ => trivial).isChain

/-- **The runs of a strictly increasing list are its maximal runs.** -/
theorem runs_spec {l g : List Nat} (hl : l.Pairwise (· < ·)) (hg : g ∈ groups gap l) :
    ∃ a b, g.head? = some a ∧ g.getLast? = some b ∧ (∀ n, n ∈ g ↔ a ≤ n ∧ n ≤ b) ∧
      MaximalRun (· ∈ l) a b := by
  obtain ⟨a, b, ha, hb, hmem⟩ := consecutive_of_mem_runs hg
  obtain ⟨before, behind, hsplit⟩ := List.append_of_mem hg
  have hflat : l = before.flatten ++ (g ++ behind.flatten) := by
    rw [← flatten_groups gap l, hsplit, List.flatten_append, List.flatten_cons]
  have hchain := isChain_groups gap l
  rw [hsplit] at hchain
  rw [hflat, List.pairwise_append, List.pairwise_append] at hl
  obtain ⟨hbefore, ⟨-, hbehind, hg'⟩, hlt⟩ := hl
  have ha' : a ∈ g := (hmem a).2 ⟨Nat.le_refl a, by
    obtain ⟨n, hn⟩ := List.exists_mem_of_ne_nil g (ne_nil_of_mem_groups gap hg)
    have := (hmem n).1 hn
    omega⟩
  have hb' : b ∈ g := List.mem_of_getLast? hb
  refine ⟨a, b, ha, hb, hmem, fun n hn hn' => ?_, fun n hn hin => ?_, fun hin => ?_⟩
  · rw [hflat]
    exact List.mem_append_right _ (List.mem_append_left _ ((hmem n).2 ⟨hn, hn'⟩))
  · have hng : n ∉ g := fun h => by
      have := (hmem n).1 h
      omega
    rw [hflat, List.mem_append, List.mem_append] at hin
    rcases hin with hin | hin | hin
    · -- the run before this one ends at a number that is not followed by `a`
      rcases List.eq_nil_or_concat before with rfl | ⟨before, h, rfl⟩
      · cases hin
      rw [List.concat_eq_append] at *
      rw [List.append_assoc] at hchain
      obtain ⟨x, hx, hcut⟩ := (List.isChain_cons_cons.1 hchain.right_of_append).1
      obtain rfl := Option.some.inj (ha.symm.trans hx)
      obtain ⟨_, m, -, hm, hmemh⟩ := consecutive_of_mem_runs (l := l) (g := h) (by simp [hsplit])
      have hmin : m ∈ h := List.mem_of_getLast? hm
      rw [List.flatten_append, List.flatten_singleton] at hin hbefore hlt
      have hma : m < a := hlt m (List.mem_append_right _ hmin) a (List.mem_append_left _ ha')
      have hnm : n ≤ m := by
        rcases List.mem_append.1 hin with hin | hin
        · exact Nat.le_of_lt ((List.pairwise_append.1 hbefore).2.2 n hin m hmin)
        · exact ((hmemh n).1 hin).2
      rw [gap, hm, decide_eq_true_iff] at hcut
      have hsucc : m + 1 = a := by omega
      exact hcut (congrArg some hsucc)
    · exact hng hin
    · have := hg' a ha' n hin
      omega
  · have hng : b + 1 ∉ g := fun h => by
      have := (hmem (b + 1)).1 h
      omega
    rw [hflat, List.mem_append, List.mem_append] at hin
    rcases hin with hin | hin | hin
    · have := hlt (b + 1) hin b (List.mem_append_left _ hb')
      omega
    · exact hng hin
    · -- the run behind this one starts at another number
      cases behind with
      | nil => cases hin
      | cons h behind =>
        obtain ⟨x, hx, hcut⟩ := (List.isChain_cons_cons.1 hchain.right_of_append).1
        obtain ⟨x', _, hx', -, hmemh⟩ := consecutive_of_mem_runs (l := l) (g := h)
          (by simp [hsplit])
        obtain rfl := Option.some.inj (hx'.symm.trans hx)
        have hxin : x' ∈ h := List.mem_of_mem_head? hx'
        rw [List.flatten_cons] at hin hbehind hg'
        have hbx : b < x' := hg' b hb' x' (List.mem_append_left _ hxin)
        have hxb : x' ≤ b + 1 := by
          rcases List.mem_append.1 hin with hin | hin
          · exact ((hmemh _).1 hin).1
          · exact Nat.le_of_lt ((List.pairwise_append.1 hbehind).2.2 x' hxin _ hin)
        rw [gap, hb, decide_eq_true_iff] at hcut
        have hsucc : b + 1 = x' := by omega
        exact hcut (congrArg some hsucc)

end Grouping
