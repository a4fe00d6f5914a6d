import Mathlib.Logic.Basic

/-!
# Computations that keep their state when they raise

An object whose methods change its fields and may raise in the middle is a function from the state
to a result and the state that is left: what was changed before the exception stays changed.

* `raise`, `read`, `update` and `attempt` are the basic computations; `attempt` is `try` with a
  handler for every exception.
* `Ensures P x Q E` says that from a state in `P` the computation returns into `Q` or raises into
  `E`.  There is one rule for each way to build a computation, so a proof about a method follows
  its text.
-/

set_option autoImplicit false

universe u v w

/-- A computation that returns or raises, and leaves a state either way. -/
def Stateful (ε : Type u) (σ : Type v) (α : Type w) : Type (max u v w) := σ → Except ε α × σ

namespace Stateful

variable {ε : Type u} {σ : Type v} {α β : Type w}

/-- Return a value. -/
def ret (a : α) : Stateful ε σ α := fun s => (.ok a, s)

/-- One computation after the other. -/
def andThen (x : Stateful ε σ α) (f : α → Stateful ε σ β) : Stateful ε σ β := fun s =>
  match x s with
  | (.ok a, s') => f a s'
  | (.error e, s') => (.error e, s')

instance : Monad (Stateful ε σ) where
  pure := ret
  bind := andThen

/-- Raise an exception. -/
def raise (e : ε) : Stateful ε σ α := fun s => (.error e, s)

/-- Read the state. -/
def read : Stateful ε σ σ := fun s => (.ok s, s)

/-- Change the state. -/
def update (f : σ → σ) : Stateful ε σ PUnit := fun s => (.ok ⟨⟩, f s)

/-- Raise unless a condition holds. -/
def check (e : ε) (c : Prop) [Decidable c] : Stateful ε σ PUnit :=
  if c then ret ⟨⟩ else raise e

/-- `try`, with a handler for every exception. -/
def attempt (x : Stateful ε σ α) (handler : ε → Stateful ε σ α) : Stateful ε σ α := fun s =>
  match x s with
  | (.ok a, s') => (.ok a, s')
  | (.error e, s') => handler e s'

/-! ## What a computation ensures -/

/-- From a state in `P` the computation returns into `Q` or raises into `E`. -/
def Ensures (P : σ → Prop) (x : Stateful ε σ α) (Q : α → σ → Prop) (E : ε → σ → Prop) : Prop :=
  ∀ s, P s → (∀ a s', x s = (.ok a, s') → Q a s') ∧ ∀ e s', x s = (.error e, s') → E e s'

namespace Ensures

variable {P P' : σ → Prop} {x : Stateful ε σ α} {Q Q' : α → σ → Prop} {E E' : ε → σ → Prop}

theorem conseq (h : Ensures P x Q E) (hp : ∀ s, P' s → P s) (hq : ∀ a s, Q a s → Q' a s)
    (he : ∀ e s, E e s → E' e s) : Ensures P' x Q' E' := fun s hs =>
  ⟨fun a s' hx => hq a s' ((h s (hp s hs)).1 a s' hx),
    fun e s' hx => he e s' ((h s (hp s hs)).2 e s' hx)⟩

/-- What holds of either exit holds of the state that is left. -/
theorem final {R : σ → Prop} (h : Ensures P x (fun _ => R) (fun _ => R)) {s : σ} (hs : P s) :
    R (x s).2 := by
  rcases hx : x s with ⟨e | a, s'⟩
  · exact (h s hs).2 e s' hx
  · exact (h s hs).1 a s' hx

theorem pure {a : α} (h : ∀ s, P s → Q a s) :
    Ensures P (Pure.pure a : Stateful ε σ α) Q E := by
  intro s hs
  refine ⟨fun b s' hx => ?_, fun e s' hx => nomatch hx⟩
  obtain ⟨hb, rfl⟩ := Prod.mk.inj hx
  obtain rfl := Except.ok.inj hb
  exact h s hs

theorem raise {e : ε} (h : ∀ s, P s → E e s) :
    Ensures P (Stateful.raise e : Stateful ε σ α) Q E := by
  intro s hs
  refine ⟨fun b s' hx => (nomatch hx), fun e' s' hx => ?_⟩
  obtain ⟨he, rfl⟩ := Prod.mk.inj hx
  obtain rfl := Except.error.inj he
  exact h s hs

theorem bind {f : α → Stateful ε σ β} {R : β → σ → Prop} (hx : Ensures P x Q E)
    (hf : ∀ a, Ensures (Q a) (f a) R E) : Ensures P (x >>= f) R E := by
  intro s hs
  obtain ⟨hok, herr⟩ := hx s hs
  have hrun : (x >>= f) s = match x s with
      | (.ok a, s') => f a s'
      | (.error e, s') => (.error e, s') := rfl
  rcases hxs : x s with ⟨e | a, s₁⟩
  · rw [hxs] at hrun
    refine ⟨fun b s' h => (nomatch hrun.symm.trans h), fun e s' h => ?_⟩
    obtain ⟨he, rfl⟩ := Prod.mk.inj (hrun.symm.trans h)
    obtain rfl := Except.error.inj he
    exact herr _ _ hxs
  · rw [hxs] at hrun
    rw [hrun]
    exact hf a s₁ (hok a s₁ hxs)

/-- What is read is the state. -/
theorem read {Q : σ → σ → Prop} (h : ∀ s, P s → Q s s) :
    Ensures P (Stateful.read : Stateful ε σ σ) Q E := by
  intro s hs
  refine ⟨fun b s' hx => ?_, fun e s' hx => nomatch hx⟩
  obtain ⟨hb, rfl⟩ := Prod.mk.inj hx
  obtain rfl := Except.ok.inj hb
  exact h s hs

theorem update {f : σ → σ} {Q : PUnit → σ → Prop} (h : ∀ s, P s → Q ⟨⟩ (f s)) :
    Ensures P (Stateful.update f : Stateful ε σ PUnit) Q E := by
  intro s hs
  refine ⟨fun b s' hx => ?_, fun e s' hx => nomatch hx⟩
  obtain ⟨_, rfl⟩ := Prod.mk.inj hx
  exact h s hs

theorem check {e : ε} {c : Prop} [Decidable c] {Q : PUnit → σ → Prop}
    (hok : ∀ s, P s → c → Q ⟨⟩ s) (herr : ∀ s, P s → ¬ c → E e s) :
    Ensures P (Stateful.check e c : Stateful ε σ PUnit) Q E := by
  rw [Stateful.check]
  split
  · exact Ensures.pure fun s hs => hok s hs ‹_›
  · exact Ensures.raise fun s hs => herr s hs ‹_›

theorem ite {c : Prop} [Decidable c] {y : Stateful ε σ α}
    (hx : c → Ensures P x Q E) (hy : ¬ c → Ensures P y Q E) :
    Ensures P (if c then x else y) Q E := by
  split
  · exact hx ‹_›
  · exact hy ‹_›

theorem attempt {handler : ε → Stateful ε σ α} (hx : Ensures P x Q E')
    (hh : ∀ e, Ensures (E' e) (handler e) Q E) :
    Ensures P (Stateful.attempt x handler) Q E := by
  intro s hs
  obtain ⟨hok, herr⟩ := hx s hs
  have hrun : Stateful.attempt x handler s = match x s with
      | (.ok a, s') => (.ok a, s')
      | (.error e, s') => handler e s' := rfl
  rcases hxs : x s with ⟨e | a, s₁⟩
  · rw [hxs] at hrun
    rw [hrun]
    exact hh e s₁ (herr e s₁ hxs)
  · rw [hxs] at hrun
    refine ⟨fun b s' h => ?_, fun e s' h => nomatch hrun.symm.trans h⟩
    obtain ⟨hb, rfl⟩ := Prod.mk.inj (hrun.symm.trans h)
    obtain rfl := Except.ok.inj hb
    exact hok a s₁ hxs

end Ensures

end Stateful
