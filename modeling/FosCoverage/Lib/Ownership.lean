import Mathlib.Data.List.Nodup

/-!
# Tokens that are held at places

Threads hand tokens (jobs, connections, buffers) to each other: a token is taken from one place and
put at another, and no place copies it.

* `Located holds t o` says where a token is: at one place and no other, or nowhere.  Every token of a
  system has a location (`Owned`), and a step that moves one token keeps it so (`Owned.move`, with
  `Owned.transfer`, `Owned.release` and `Owned.acquire` for the ways to move one).
* Different places have different tokens (`Owned.eq_of_holds`), so places that hold one token at most
  can be counted by their tokens (`Owned.nodup_filterMap`).
-/

set_option autoImplicit false

namespace Ownership

universe u v w

variable {P : Type u} {T : Type v}

/-- The token is at the one place, or nowhere. -/
def Located (holds : P → T → Prop) (t : T) : Option P → Prop
  | some p => ∀ q, holds q t ↔ q = p
  | none => ∀ q, ¬ holds q t

/-- Every token has a location that satisfies a condition. -/
def Owned (holds : P → T → Prop) (fits : T → Option P → Prop) : Prop :=
  ∀ t, ∃ o, Located holds t o ∧ fits t o

variable {holds holds' : P → T → Prop} {fits fits' : T → Option P → Prop} {t : T} {o : Option P}
  {p q : P}

/-- A token that is held is at that place. -/
theorem Located.eq_some (h : Located holds t o) (hp : holds p t) : o = some p := by
  cases o with
  | none => exact absurd hp (h p)
  | some q => rw [(h p).1 hp]

/-- Nobody else has moved it. -/
theorem Located.congr (h : Located holds t o) (hsame : ∀ p, holds' p t ↔ holds p t) :
    Located holds' t o := by
  cases o with
  | none => exact fun q hq => h q ((hsame q).1 hq)
  | some p => exact fun q => (hsame q).trans (h q)

/-- A held token fits its place. -/
theorem Owned.at_place (h : Owned holds fits) (hp : holds p t) :
    Located holds t (some p) ∧ fits t (some p) := by
  obtain ⟨o, hlocated, hfits⟩ := h t
  obtain rfl := hlocated.eq_some hp
  exact ⟨hlocated, hfits⟩

/-- **A step that moves one token**: it has its new location, and the others are where they were. -/
theorem Owned.move (h : Owned holds fits) (t : T) (o : Option P)
    (hothers : ∀ x, x ≠ t → ∀ p, holds' p x ↔ holds p x)
    (hfits : ∀ x, x ≠ t → ∀ o, fits x o → fits' x o) (hlocated : Located holds' t o)
    (hfit : fits' t o) : Owned holds' fits' := by
  intro x
  by_cases hx : x = t
  · subst hx
    exact ⟨o, hlocated, hfit⟩
  · obtain ⟨o', hlocated', hfits'⟩ := h x
    exact ⟨o', hlocated'.congr (hothers x hx), hfits x hx o' hfits'⟩

/-- A token goes from one place to another. -/
theorem Owned.transfer (h : Owned holds fits) (hp : holds p t)
    (hothers : ∀ x, x ≠ t → ∀ r, holds' r x ↔ holds r x)
    (hfits : ∀ x, x ≠ t → ∀ o, fits x o → fits' x o)
    (ht : ∀ r, holds' r t ↔ r = q ∨ (r ≠ p ∧ holds r t)) (hfit : fits' t (some q)) :
    Owned holds' fits' := by
  obtain ⟨hlocated, -⟩ := h.at_place hp
  refine h.move t (some q) hothers hfits (fun r => ?_) hfit
  rw [ht, hlocated r]
  exact or_iff_left fun hr => hr.1 hr.2

/-- A token is given up. -/
theorem Owned.release (h : Owned holds fits) (hp : holds p t)
    (hothers : ∀ x, x ≠ t → ∀ r, holds' r x ↔ holds r x)
    (hfits : ∀ x, x ≠ t → ∀ o, fits x o → fits' x o)
    (ht : ∀ r, holds' r t → r ≠ p ∧ holds r t) (hfit : fits' t none) : Owned holds' fits' := by
  obtain ⟨hlocated, -⟩ := h.at_place hp
  refine h.move t none hothers hfits (fun r hr => ?_) hfit
  obtain ⟨hne, hr⟩ := ht r hr
  exact hne ((hlocated r).1 hr)

/-- A token that nobody has is put at a place. -/
theorem Owned.acquire (h : Owned holds fits) (hnew : ∀ p, ¬ fits t (some p))
    (hothers : ∀ x, x ≠ t → ∀ r, holds' r x ↔ holds r x)
    (hfits : ∀ x, x ≠ t → ∀ o, fits x o → fits' x o)
    (ht : ∀ r, holds' r t → r = q ∨ holds r t) (hq : holds' q t) (hfit : fits' t (some q)) :
    Owned holds' fits' := by
  obtain ⟨o, hlocated, hfits₀⟩ := h t
  cases o with
  | some p => exact absurd hfits₀ (hnew p)
  | none =>
    refine h.move t (some q) hothers hfits (fun r => ⟨fun hr => ?_, fun hr => hr ▸ hq⟩) hfit
    exact (ht r hr).resolve_right (hlocated r)

/-- **A step that moves nothing.** -/
theorem Owned.stay (h : Owned holds fits) (hsame : ∀ x p, holds' p x ↔ holds p x)
    (hfits : ∀ x o, fits x o → fits' x o) : Owned holds' fits' := by
  intro x
  obtain ⟨o, hlocated, hfit⟩ := h x
  exact ⟨o, hlocated.congr (hsame x), hfits x o hfit⟩

/-- A token is at one place. -/
theorem Owned.eq_of_holds (h : Owned holds fits) (hp : holds p t) (hq : holds q t) : p = q := by
  obtain ⟨o, hlocated, -⟩ := h t
  exact Option.some.inj ((hlocated.eq_some hp).symm.trans (hlocated.eq_some hq))

/-- **The tokens of different places differ.** -/
theorem Owned.nodup_filterMap {ι : Type w} {place : ι → P} {token : ι → Option T}
    (h : Owned holds fits) (hplace : Function.Injective place)
    (htoken : ∀ i t, token i = some t → holds (place i) t) {is : List ι} (his : is.Nodup) :
    (is.filterMap token).Nodup :=
  his.filterMap fun i j t hi hj => hplace (h.eq_of_holds (htoken i t hi) (htoken j t hj))

end Ownership
