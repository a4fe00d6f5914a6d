import Mathlib.Data.List.Induction

/-!
# Nested blocks

A list in which some elements open a block and some close one.  Which blocks are still open at its
end can be said in two ways:

* of each opening element, that what follows closes no more blocks than it opens (`excess`,
  `unclosed`);
* by a stack that is pushed and popped along the list (`stackStep`).

`unclosed_concat` says that they agree.  What the stack keeps of a block is computed from the
opening element and all elements before it.
-/

set_option autoImplicit false

namespace Nesting

/-- What an element does. -/
inductive Mark
  /-- It opens a block. -/
  | opens
  /-- It closes the innermost open block, if there is one. -/
  | closes
  /-- Nothing. -/
  | plain
  deriving DecidableEq, Repr

variable {α β : Type} (mark : α → Mark) (load : List α → α → β)

/-- How many blocks the list closes that it did not open. -/
def excess : List α → Nat
  | [] => 0
  | x :: xs =>
    match mark x with
    | .opens => excess xs - 1
    | .closes => excess xs + 1
    | .plain => excess xs

/-- The blocks that are opened in the list, which stands behind `before`, and not closed in it. -/
def unclosedFrom (before : List α) : List α → List β
  | [] => []
  | x :: xs => (if mark x = .opens ∧ excess mark xs = 0 then [load before x] else []) ++
      unclosedFrom (before ++ [x]) xs

/-- The blocks that are open at the end of the list, outermost first. -/
def unclosed (l : List α) : List β := unclosedFrom mark load [] l

/-- What an element does to the stack of open blocks. -/
def stackStep (before : List α) (stack : List β) (x : α) : List β :=
  match mark x with
  | .opens => stack ++ [load before x]
  | .closes => stack.dropLast
  | .plain => stack

variable {mark load}

/-- A block that the rest of the list does not close is open. -/
theorem mem_unclosed {a b : List α} {x : α} (hx : mark x = .opens) (hb : excess mark b = 0) :
    load a x ∈ unclosed mark load (a ++ x :: b) := by
  have hfrom : ∀ before, load (before ++ a) x ∈ unclosedFrom mark load before (a ++ x :: b) := by
    induction a with
    | nil =>
      intro before
      rw [List.append_nil, List.nil_append, unclosedFrom, if_pos ⟨hx, hb⟩]
      exact List.mem_cons_self
    | cons y a ih =>
      intro before
      have hrest := ih (before ++ [y])
      rw [List.append_assoc, List.singleton_append] at hrest
      exact List.mem_append_right _ hrest
  exact hfrom []

/-- More elements do not close fewer blocks. -/
theorem excess_le_append (l l' : List α) : excess mark l ≤ excess mark (l ++ l') := by
  induction l with
  | nil => exact Nat.zero_le _
  | cons x l ih =>
    rw [List.cons_append, excess, excess]
    split
    · exact Nat.sub_le_sub_right ih 1
    · exact Nat.succ_le_succ ih
    · exact ih

theorem excess_map {γ : Type} (mark : α → Mark) (f : γ → α) (l : List γ) :
    excess mark (l.map f) = excess (fun x => mark (f x)) l := by
  induction l with
  | nil => rfl
  | cons x l ih => rw [List.map_cons, excess, excess, ih]

theorem excess_concat (load : List α → α → β) (before l : List α) (x : α) :
    excess mark (l ++ [x]) = match mark x with
      | .closes => if unclosedFrom mark load before l = [] then excess mark l + 1 else excess mark l
      | _ => excess mark l := by
  induction l generalizing before with
  | nil =>
    cases hx : mark x <;> simp [excess, unclosedFrom, hx]
  | cons y l ih =>
    have ih := ih (before ++ [y])
    rw [List.cons_append, excess, excess, unclosedFrom]
    cases hx : mark x with
    | opens | plain =>
      rw [hx] at ih
      rw [ih]
    | closes =>
      rw [hx] at ih
      dsimp only at ih ⊢
      cases hy : mark y with
      | closes =>
        simp only [ih, reduceCtorEq, false_and, if_false, List.nil_append]
        split <;> rfl
      | plain => simp only [ih, reduceCtorEq, false_and, if_false, List.nil_append]
      | opens =>
        simp only [ih, true_and]
        -- the new element closes the block of `y` exactly when it is the innermost open one
        by_cases hl : unclosedFrom mark load (before ++ [y]) l = []
        · by_cases he : excess mark l = 0
          · simp [hl, he]
          · simp [hl, he]
            omega
        · simp [hl]

/-- **One more element** changes the open blocks as it changes the stack. -/
theorem unclosedFrom_concat (before l : List α) (x : α) :
    unclosedFrom mark load before (l ++ [x]) =
      stackStep mark load (before ++ l) (unclosedFrom mark load before l) x := by
  induction l generalizing before with
  | nil =>
    unfold stackStep
    cases hx : mark x <;> simp [unclosedFrom, excess, hx]
  | cons y l ih =>
    rw [List.cons_append, unclosedFrom, unclosedFrom, ih, excess_concat load (before ++ [y]),
      List.append_assoc, List.singleton_append]
    unfold stackStep
    cases hx : mark x with
    | plain => rfl
    | opens => rw [List.append_assoc]
    | closes =>
      dsimp only
      by_cases hl : unclosedFrom mark load (before ++ [y]) l = []
      · rw [if_pos hl, hl, if_neg (by omega), List.dropLast_nil, List.append_nil, List.append_nil]
        split <;> rfl
      · rw [if_neg hl, List.dropLast_append_of_ne_nil hl]

/-- **The stack holds the open blocks.** -/
theorem unclosed_concat (l : List α) (x : α) :
    unclosed mark load (l ++ [x]) = stackStep mark load l (unclosed mark load l) x :=
  unclosedFrom_concat [] l x

end Nesting
