import Mathlib.Algebra.Group.Nat.Defs
import Mathlib.Data.List.Perm.Basic

/-!
# Order-independent fingerprints

A multiset of numbers, observed one after another, summarised in constant memory by how many there
were, their sum modulo `2 ^ width` and their bitwise exclusive or.  The summary does not depend on
the order of the observations (`ofList_perm`), so two readers that enumerate the same rows in
different orders agree.
-/

set_option autoImplicit false

namespace Fingerprint

/-- The count, the sum and the exclusive or of a multiset of item digests. -/
structure DigestSum where
  /-- Number of items. -/
  count : Nat
  /-- Sum modulo `2 ^ width`. -/
  sum : Nat
  /-- Bitwise exclusive or. -/
  xor : Nat
  deriving DecidableEq, Repr

namespace DigestSum

/-- The summary of no observation. -/
def zero : DigestSum := ⟨0, 0, 0⟩

/-- One more observation. -/
def add (width : Nat) (d : DigestSum) (value : Nat) : DigestSum :=
  ⟨d.count + 1, (d.sum + value) % 2 ^ width, d.xor ^^^ value⟩

/-- The summary of a list of observations. -/
def ofList (width : Nat) (values : List Nat) : DigestSum :=
  values.foldl (add width) zero

theorem add_right_comm (width : Nat) (d : DigestSum) (a b : Nat) :
    add width (add width d a) b = add width (add width d b) a := by
  simp only [add, mk.injEq, true_and]
  constructor
  · rw [Nat.mod_add_mod, Nat.mod_add_mod, Nat.add_right_comm]
  · rw [Nat.xor_assoc, Nat.xor_comm a b, ← Nat.xor_assoc]

/-- **The order of the observations does not matter.** -/
theorem ofList_perm {width : Nat} {xs ys : List Nat} (h : xs.Perm ys) :
    ofList width xs = ofList width ys := by
  have : RightCommutative (add width) := ⟨add_right_comm width⟩
  exact h.foldl_eq zero

@[simp] theorem ofList_nil (width : Nat) : ofList width [] = zero := rfl

end DigestSum

end Fingerprint
