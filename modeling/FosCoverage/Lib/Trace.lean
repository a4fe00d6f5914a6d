import Mathlib.Data.List.Basic

/-!
# Runs of a total transition function

A system that executes one action after another, each in full, is a function
`exec : σ → α → σ`; a run is a left fold.  An action that is refused leaves the state alone, so
`exec` is total and every list of actions is a run.

* `Along exec P s as` says that every action of the run from `s` meets the condition `P` in the
  state it is executed in.
* `run_inv` is the invariant rule, and `run_inv_along` the same rule for a condition the steps of
  the run are known to meet.
* `along_iff_forall_inv` is the rule for a condition that is exactly what an invariant needs.
* `along_append`, `along_at` and `along_iff_forall` read the condition at one action of the run, and
  `along_iff_forall_mem` at the turn of an action that the run has once.
-/

set_option autoImplicit false

namespace Trace

universe u v

variable {σ : Type u} {α : Type v} (exec : σ → α → σ)

/-- The state a list of actions leads to. -/
def run (s : σ) (as : List α) : σ := as.foldl exec s

@[simp] theorem run_nil (s : σ) : run exec s [] = s := rfl

@[simp] theorem run_cons (s : σ) (a : α) (as : List α) :
    run exec s (a :: as) = run exec (exec s a) as := rfl

theorem run_append (s : σ) (as bs : List α) :
    run exec s (as ++ bs) = run exec (run exec s as) bs :=
  List.foldl_append

/-- Every action of the run meets `P` in the state it is executed in. -/
def Along (P : σ → α → Prop) : σ → List α → Prop
  | _, [] => True
  | s, a :: as => P s a ∧ Along P (exec s a) as

instance decidableAlong (P : σ → α → Prop) [∀ s a, Decidable (P s a)] :
    (s : σ) → (as : List α) → Decidable (Along exec P s as)
  | _, [] => isTrue trivial
  | s, a :: as =>
    have := decidableAlong P (exec s a) as
    inferInstanceAs (Decidable (P s a ∧ Along exec P (exec s a) as))

variable {exec}

/-- A weaker condition holds along the same runs. -/
theorem Along.mono {P Q : σ → α → Prop} (h : ∀ s a, P s a → Q s a) {s : σ} {as : List α}
    (hs : Along exec P s as) : Along exec Q s as := by
  induction as generalizing s with
  | nil => trivial
  | cons a as ih => exact ⟨h s a hs.1, ih hs.2⟩

theorem along_append {P : σ → α → Prop} {s : σ} {as bs : List α} :
    Along exec P s (as ++ bs) ↔ Along exec P s as ∧ Along exec P (run exec s as) bs := by
  induction as generalizing s with
  | nil => simp [Along]
  | cons a as ih => simp [Along, ih, and_assoc]

/-- The condition at one action of the run. -/
theorem along_at {P : σ → α → Prop} {s : σ} {as bs : List α} {a : α}
    (h : Along exec P s (as ++ a :: bs)) : P (run exec s as) a :=
  (along_append.1 h).2.1

/-- The condition along the run is the condition at every action. -/
theorem along_iff_forall {P : σ → α → Prop} {s : σ} {as : List α} :
    Along exec P s as ↔ ∀ pre a post, as = pre ++ a :: post → P (run exec s pre) a := by
  constructor
  · rintro h pre a post rfl
    exact along_at h
  · intro h
    induction as generalizing s with
    | nil => trivial
    | cons a as ih =>
      exact ⟨h [] a as rfl, ih fun pre b post he => h (a :: pre) b post (by rw [he]; rfl)⟩

/-- In a run without repetitions an action has one turn. -/
theorem along_iff_forall_mem [DecidableEq α] {P : σ → α → Prop} {s : σ} {as : List α}
    (h : as.Nodup) :
    Along exec P s as ↔ ∀ a ∈ as, P (run exec s (as.takeWhile (· ≠ a))) a := by
  induction as generalizing s with
  | nil => exact iff_of_true trivial fun a ha => (nomatch ha)
  | cons b as ih =>
    obtain ⟨hb, hnodup⟩ := List.nodup_cons.1 h
    rw [Along, ih hnodup, List.forall_mem_cons]
    refine and_congr (by simp) (forall₂_congr fun a ha => ?_)
    have hne : b ≠ a := fun heq => hb (heq ▸ ha)
    rw [List.takeWhile_cons_of_pos (by simpa using hne), run_cons]

/-- A condition that holds of every step in every state holds along every run. -/
theorem along_of_forall {P : σ → α → Prop} (h : ∀ s a, P s a) (s : σ) (as : List α) :
    Along exec P s as := by
  induction as generalizing s with
  | nil => trivial
  | cons a as ih => exact ⟨h s a, ih _⟩

/-- **The invariant rule** for runs whose steps meet a condition. -/
theorem run_inv_along {I : σ → Prop} {P : σ → α → Prop}
    (step : ∀ s a, I s → P s a → I (exec s a)) {s : σ} {as : List α} (hs : I s)
    (h : Along exec P s as) : I (run exec s as) := by
  induction as generalizing s with
  | nil => exact hs
  | cons a as ih => exact ih (step s a hs h.1) h.2

/-- Where a condition is exactly what a step needs to keep an invariant, it holds along a run exactly
when the invariant holds in every state of the run. -/
theorem along_iff_forall_inv {I : σ → Prop} {P : σ → α → Prop}
    (step : ∀ s a, I s → (I (exec s a) ↔ P s a)) {s : σ} (hs : I s) (as : List α) :
    Along exec P s as ↔ ∀ pre, pre <+: as → I (run exec s pre) := by
  constructor
  · rintro h pre ⟨post, rfl⟩
    exact run_inv_along (fun s a hi => (step s a hi).2) hs (along_append.1 h).1
  · intro h
    induction as generalizing s with
    | nil => trivial
    | cons a as ih =>
      have ha : I (exec s a) := h [a] ⟨as, rfl⟩
      exact ⟨(step s a hs).1 ha, ih ha fun pre hpre => h (a :: pre) (List.cons_prefix_cons.2
        ⟨rfl, hpre⟩)⟩

/-- **The invariant rule**: what every step keeps, every run keeps. -/
theorem run_inv {I : σ → Prop} (step : ∀ s a, I s → I (exec s a)) {s : σ} (hs : I s)
    (as : List α) : I (run exec s as) :=
  run_inv_along (P := fun _ _ => True) (fun s a hi _ => step s a hi) hs
    (along_of_forall (fun _ _ => trivial) s as)

/-- Conditions that agree wherever an invariant holds hold along the same runs. -/
theorem along_congr {I : σ → Prop} {P Q : σ → α → Prop} (step : ∀ s a, I s → I (exec s a))
    (h : ∀ s a, I s → (P s a ↔ Q s a)) {s : σ} (hs : I s) (as : List α) :
    Along exec P s as ↔ Along exec Q s as := by
  induction as generalizing s with
  | nil => exact Iff.rfl
  | cons a as ih => exact and_congr (h s a hs) (ih (step s a hs))

/-- A reflexive and transitive relation that every step respects relates the ends of a run. -/
theorem run_rel {R : σ → σ → Prop} (refl : ∀ s, R s s)
    (trans : ∀ {s₁ s₂ s₃}, R s₁ s₂ → R s₂ s₃ → R s₁ s₃) (step : ∀ s a, R s (exec s a))
    (s : σ) (as : List α) : R s (run exec s as) :=
  run_inv (I := R s) (fun s' a h => trans h (step s' a)) (refl s) as

end Trace
