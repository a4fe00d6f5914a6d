import Mathlib.Logic.Relation
import Mathlib.Order.Basic

/-!
# Views that a version pins

A state has a version, and a view that may only change together with it.  A step that never lowers
the version and leaves the view alone when it leaves the version alone is `Pinned`, and so is every
run of such steps: whoever finds one version twice has seen one view, whatever happened in between
(`Pinned.run`).
-/

set_option autoImplicit false

universe u v

variable {σ : Type u} {β : Type v}

/-- The version does not fall, and the view changes only with it. -/
structure Pinned (version : σ → Nat) (view : σ → β) (s s' : σ) : Prop where
  /-- The version grows. -/
  grows : version s ≤ version s'
  /-- The same version is the same view. -/
  same : version s' = version s → view s' = view s

namespace Pinned

variable {version : σ → Nat} {view : σ → β} {s s' s'' : σ}

theorem refl (s : σ) : Pinned version view s s := ⟨Nat.le_refl _, fun _ => rfl⟩

/-- A step that leaves the view alone. -/
theorem of_view (hgrows : version s ≤ version s') (hview : view s' = view s) :
    Pinned version view s s' := ⟨hgrows, fun _ => hview⟩

/-- A step that shows in the version. -/
theorem of_lt (hlt : version s < version s') : Pinned version view s s' :=
  ⟨Nat.le_of_lt hlt, fun he => absurd he (Nat.ne_of_gt hlt)⟩

theorem trans (h : Pinned version view s s') (h' : Pinned version view s' s'') :
    Pinned version view s s'' := by
  refine ⟨Nat.le_trans h.grows h'.grows, fun he => ?_⟩
  have hfirst : version s' = version s :=
    Nat.le_antisymm (he ▸ h'.grows) h.grows
  rw [h'.same (he.trans hfirst.symm), h.same hfirst]

/-- **A run of pinned steps is pinned.** -/
theorem run {R : σ → σ → Prop} {I : σ → Prop}
    (step : ∀ s s', I s → R s s' → I s' ∧ Pinned version view s s')
    (h : Relation.ReflTransGen R s s') (hI : I s) : I s' ∧ Pinned version view s s' := by
  induction h with
  | refl => exact ⟨hI, .refl s⟩
  | tail _ hstep ih =>
    obtain ⟨hI', hpinned⟩ := step _ _ ih.1 hstep
    exact ⟨hI', ih.2.trans hpinned⟩

end Pinned
