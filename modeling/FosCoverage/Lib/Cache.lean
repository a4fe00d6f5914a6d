import Mathlib.Algebra.GroupWithZero.Nat
import Mathlib.Data.List.Basic

/-!
# A cache with a budget

Entries in the order of their age, each with a size, some of them pinned.  Room for a new entry is
made by evicting the oldest entry that is not pinned until the new one fits (`makeRoom`).

`dropped` says beforehand what has to go for a list of entries to fit: the oldest ones that are not
pinned, until the excess is covered.  Making room for the first of several new entries evicts only
what is dropped for all of them (`makeRoom_spec`).
-/

set_option autoImplicit false

namespace BoundedCache

variable {α : Type} (size : α → Nat) (pinned : α → Bool)

/-- The total size. -/
def bytes (l : List α) : Nat := (l.map size).sum

/-- Evict until `need` more bytes fit; false when only pinned entries are left. -/
def makeRoom (max need : Nat) : Nat → List α → List α × Bool
  | 0, l => (l, bytes size l + need ≤ max)
  | fuel + 1, l =>
    if bytes size l + need ≤ max then (l, true)
    else if l.all pinned then (l, false)
    else makeRoom max need fuel (l.eraseP fun a => !pinned a)

/-- The oldest entries that are not pinned, until they cover the excess. -/
def dropped : Nat → List α → List α
  | _, [] => []
  | excess, a :: l =>
    if excess = 0 then []
    else if pinned a then dropped excess l
    else a :: dropped (excess - size a) l

variable {size pinned}

@[simp] theorem bytes_cons (a : α) (l : List α) : bytes size (a :: l) = size a + bytes size l := rfl

@[simp] theorem bytes_append (l l' : List α) :
    bytes size (l ++ l') = bytes size l + bytes size l' := by
  simp [bytes]

/-- The oldest entry that can be evicted is the first that is dropped. -/
theorem dropped_eraseP {l rest : List α} {excess : Nat} (hl : l.all pinned = false)
    (he : 0 < excess) :
    ∃ a ∈ l, bytes size l = size a + bytes size (l.eraseP fun a => !pinned a) ∧
      (∀ b ∈ l, b = a ∨ b ∈ l.eraseP fun a => !pinned a) ∧
      dropped size pinned excess (l ++ rest) =
        a :: dropped size pinned (excess - size a) ((l.eraseP fun a => !pinned a) ++ rest) := by
  induction l with
  | nil => cases hl
  | cons b l ih =>
    by_cases hb : pinned b = true
    · rw [List.all_cons, hb, Bool.true_and] at hl
      obtain ⟨a, ha, hbytes, hmem, hdrop⟩ := ih hl
      have herase : (b :: l).eraseP (fun a => !pinned a) = b :: l.eraseP fun a => !pinned a := by
        rw [List.eraseP_cons_of_neg]
        simp [hb]
      rw [herase]
      refine ⟨a, List.mem_cons_of_mem _ ha, ?_, ?_, ?_⟩
      · rw [bytes_cons, bytes_cons, hbytes]
        omega
      · intro c hc
        rcases List.mem_cons.1 hc with rfl | hc
        · exact .inr List.mem_cons_self
        · exact (hmem c hc).imp id (List.mem_cons_of_mem _)
      · rw [List.cons_append, dropped, if_neg (by omega), if_pos hb, hdrop, List.cons_append]
        congr 1
        -- the excess is covered by `a` alone, or the pinned entry is skipped again
        by_cases hz : excess - size a = 0
        · rw [hz, dropped, if_pos rfl]
          cases hr : (l.eraseP fun a => !pinned a) ++ rest with
          | nil => rfl
          | cons c r => rw [dropped, if_pos rfl]
        · rw [dropped, if_neg hz, if_pos hb]
    · have herase : (b :: l).eraseP (fun a => !pinned a) = l := by
        rw [List.eraseP_cons_of_pos]
        simpa using hb
      rw [herase]
      refine ⟨b, List.mem_cons_self, rfl, fun c hc => List.mem_cons.1 hc, ?_⟩
      rw [List.cons_append, dropped, if_neg (by omega), if_neg hb]

/-- Making room only takes entries away. -/
theorem makeRoom_sublist (size : α → Nat) (pinned : α → Bool) (max need fuel : Nat) (l : List α) :
    (makeRoom size pinned max need fuel l).1.Sublist l := by
  induction fuel generalizing l with
  | zero => exact List.Sublist.refl _
  | succ fuel ih =>
    rw [makeRoom]
    split
    · exact List.Sublist.refl _
    · split
      · exact List.Sublist.refl _
      · exact (ih _).trans List.eraseP_sublist

/-- **Making room evicts only what is dropped for all that is to come.** -/
theorem makeRoom_spec {max need fuel : Nat} {l l' rest : List α}
    (hneed : need ≤ bytes size rest) (h : makeRoom size pinned max need fuel l = (l', true)) :
    l'.Sublist l ∧ bytes size l' + need ≤ max ∧
      (∀ a ∈ l, a ∈ l' ∨ a ∈ dropped size pinned (bytes size (l ++ rest) - max) (l ++ rest)) ∧
      ∀ a ∈ dropped size pinned (bytes size (l' ++ rest) - max) (l' ++ rest),
        a ∈ dropped size pinned (bytes size (l ++ rest) - max) (l ++ rest) := by
  induction fuel generalizing l with
  | zero =>
    obtain ⟨rfl, hfit⟩ := Prod.mk.inj h
    exact ⟨List.Sublist.refl _, by simpa using hfit, fun a ha => .inl ha, fun a ha => ha⟩
  | succ fuel ih =>
    rw [makeRoom] at h
    split at h
    · rename_i hfit
      obtain ⟨rfl, _⟩ := Prod.mk.inj h
      exact ⟨List.Sublist.refl _, hfit, fun a ha => .inl ha, fun a ha => ha⟩
    · rename_i hfull
      split at h
      · cases h
      · rename_i hall
        have hexcess : 0 < bytes size (l ++ rest) - max := by
          rw [bytes_append]
          omega
        obtain ⟨e, _, hbytes, hmem, hdrop⟩ :=
          dropped_eraseP (by simpa using hall) hexcess
        have hrest : bytes size ((l.eraseP fun a => !pinned a) ++ rest) - max =
            bytes size (l ++ rest) - max - size e := by
          rw [bytes_append, bytes_append, hbytes]
          omega
        obtain ⟨hsub, hfit, hkept, hfewer⟩ := ih h
        rw [hrest] at hkept hfewer
        rw [hdrop]
        refine ⟨hsub.trans List.eraseP_sublist, hfit, fun a ha => ?_, fun a ha => ?_⟩
        · rcases hmem a ha with rfl | ha
          · exact .inr List.mem_cons_self
          · exact (hkept a ha).imp id (List.mem_cons_of_mem _)
        · exact List.mem_cons_of_mem _ (hfewer a ha)

end BoundedCache
