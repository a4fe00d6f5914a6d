import Mathlib.Data.List.Forall2

/-!
# Fallible computations

A program that may raise is modelled in `Except ε`.  This file has the few rules the proofs about
such programs use:

* `require` and `orFail` are the two guards (a condition, a row that must exist), and the simp
  lemmas `require_eq_ok` and `orFail_eq_ok` say when they pass;
* `bind_eq_ok` peels one step off a computation that succeeded;
* `foldlM_inv` and `foldlM_rel` are the loop rules: an invariant kept by every successful
  iteration holds after the loop, and a reflexive and transitive relation between the state before
  and after every iteration holds between the ends of the loop; `foldlM_progress` is the rule for a
  loop that must succeed;
* `forM_eq_ok` and `mapM_eq_ok` say when a checking or a collecting loop succeeds;
* `Avoids p x` says that `x` raises no failure in `p`, with one rule for each way to build a
  computation.
-/

set_option autoImplicit false

namespace Outcome

universe u v w

variable {ε : Type u} {α β σ : Type v}

/-- Raise `e` unless `c` holds. -/
def require (e : ε) (c : Prop) [Decidable c] : Except ε PUnit.{v + 1} :=
  if c then .ok ⟨⟩ else .error e

@[simp] theorem require_eq_ok {e : ε} {c : Prop} [Decidable c] {u : PUnit.{v + 1}} :
    require e c = .ok u ↔ c := by
  unfold require
  split <;> simp_all

theorem require_of_not {e : ε} {c : Prop} [Decidable c] (h : ¬ c) :
    (require e c : Except ε PUnit.{v + 1}) = .error e := by
  simp [require, h]

theorem require_eq_error {e e' : ε} {c : Prop} [Decidable c] :
    (require e c : Except ε PUnit.{v + 1}) = .error e' ↔ ¬ c ∧ e = e' := by
  unfold require
  split <;> simp_all

/-- The value, or raise `e` when there is none. -/
def orFail (e : ε) : Option α → Except ε α
  | some a => .ok a
  | none => .error e

@[simp] theorem orFail_some (e : ε) (a : α) : orFail e (some a) = .ok a := rfl

@[simp] theorem orFail_none (e : ε) : orFail e (none : Option α) = .error e := rfl

@[simp] theorem orFail_eq_ok {e : ε} {o : Option α} {a : α} :
    orFail e o = .ok a ↔ o = some a := by
  cases o <;> simp [orFail]

@[simp] theorem bind_eq_ok {x : Except ε α} {f : α → Except ε β} {b : β} :
    (x >>= f) = .ok b ↔ ∃ a, x = .ok a ∧ f a = .ok b := by
  cases x with
  | error e => simp [bind, Except.bind]
  | ok a => simp [bind, Except.bind]

/-- What is done with a value does not make the computation fail. -/
theorem map_isOk {x : Except ε α} {f : α → β} : (∃ b, f <$> x = .ok b) ↔ ∃ a, x = .ok a := by
  cases x with
  | error e => simp [Functor.map, Except.map]
  | ok a => simp [Functor.map, Except.map]

theorem bind_eq_error {x : Except ε α} {f : α → Except ε β} {e : ε} :
    (x >>= f) = .error e ↔ x = .error e ∨ ∃ a, x = .ok a ∧ f a = .error e := by
  cases x with
  | error e => simp [bind, Except.bind]
  | ok a => simp [bind, Except.bind]

@[simp] theorem pure_eq_ok {a b : α} : (pure a : Except ε α) = .ok b ↔ a = b := by
  simp [pure, Except.pure]

@[simp] theorem ok_bind (a : α) (f : α → Except ε β) :
    ((Except.ok a : Except ε α) >>= f) = f a := rfl

@[simp] theorem error_bind (e : ε) (f : α → Except ε β) :
    ((Except.error e : Except ε α) >>= f) = .error e := rfl

theorem map_eq_ok {x : Except ε α} {f : α → β} {b : β} :
    x.map f = .ok b ↔ ∃ a, x = .ok a ∧ f a = b := by
  cases x <;> simp [Except.map]

theorem mapError_eq_ok {ε' : Type u} {x : Except ε α} {f : ε → ε'} {a : α} :
    x.mapError f = .ok a ↔ x = .ok a := by
  cases x <;> simp [Except.mapError]

/-- A computation that is known to succeed. -/
theorem exists_of_isOk {x : Except ε α} (h : x.isOk = true) : ∃ a, x = .ok a := by
  cases x with
  | error e => cases h
  | ok a => exact ⟨a, rfl⟩

/-! ## Loops -/

/-- An invariant kept by every successful iteration holds after the loop. -/
theorem foldlM_inv {ι : Type w} {f : σ → ι → Except ε σ} (P : σ → Prop) {l : List ι}
    (step : ∀ s i s', i ∈ l → P s → f s i = .ok s' → P s') {s s' : σ} (hs : P s)
    (h : l.foldlM f s = .ok s') : P s' := by
  induction l generalizing s with
  | nil =>
    obtain rfl : s = s' := by simpa [pure, Except.pure] using h
    exact hs
  | cons i l ih =>
    rw [List.foldlM_cons, bind_eq_ok] at h
    obtain ⟨s₁, h₁, h⟩ := h
    exact ih (fun s i s' hi => step s i s' (List.mem_cons_of_mem _ hi))
      (step s i s₁ List.mem_cons_self hs h₁) h

/-- What an iteration establishes for its element and every later iteration keeps holds of every
element after the loop. -/
theorem foldlM_each {ι : Type w} {f : σ → ι → Except ε σ} (P : σ → Prop) (Q : ι → σ → Prop)
    {l : List ι}
    (step : ∀ s i s', i ∈ l → P s → f s i = .ok s' → P s' ∧ Q i s' ∧ ∀ j, Q j s → Q j s')
    {s s' : σ} (hs : P s) (h : l.foldlM f s = .ok s') : ∀ i ∈ l, Q i s' := by
  induction l generalizing s with
  | nil => exact fun i hi => absurd hi List.not_mem_nil
  | cons i l ih =>
    rw [List.foldlM_cons, bind_eq_ok] at h
    obtain ⟨s₁, h₁, h⟩ := h
    obtain ⟨hP₁, hQ₁, _⟩ := step s i s₁ List.mem_cons_self hs h₁
    have step' : ∀ s j s', j ∈ l → P s → f s j = .ok s' → P s' ∧ Q j s' ∧ ∀ k, Q k s → Q k s' :=
      fun s j s' hj => step s j s' (List.mem_cons_of_mem _ hj)
    intro j hj
    rcases List.mem_cons.1 hj with rfl | hj
    · exact (foldlM_inv (fun s => P s ∧ Q j s) (fun s k s' hk hs hok =>
        ⟨(step' s k s' hk hs.1 hok).1, (step' s k s' hk hs.1 hok).2.2 j hs.2⟩) ⟨hP₁, hQ₁⟩ h).2
    · exact ih step' hP₁ h j hj

/-- A reflexive and transitive relation that every successful iteration respects relates the two
ends of the loop. -/
theorem foldlM_rel {ι : Type w} {f : σ → ι → Except ε σ} (R : σ → σ → Prop) (refl : ∀ s, R s s)
    (trans : ∀ {s₁ s₂ s₃}, R s₁ s₂ → R s₂ s₃ → R s₁ s₃) {l : List ι}
    (step : ∀ s i s', i ∈ l → f s i = .ok s' → R s s') {s s' : σ}
    (h : l.foldlM f s = .ok s') : R s s' :=
  foldlM_inv (fun s₁ => R s s₁) (fun s₁ i s₂ hi h₁ h₂ => trans h₁ (step s₁ i s₂ hi h₂)) (refl s) h

/-- A loop succeeds when every iteration does from where the invariant holds, and keeps it. -/
theorem foldlM_progress {ι : Type w} {f : σ → ι → Except ε σ} (P : σ → Prop) {l : List ι}
    (step : ∀ s i, i ∈ l → P s → ∃ s', f s i = .ok s' ∧ P s') {s : σ} (hs : P s) :
    ∃ s', l.foldlM f s = .ok s' ∧ P s' := by
  induction l generalizing s with
  | nil => exact ⟨s, rfl, hs⟩
  | cons i l ih =>
    obtain ⟨s₁, h₁, hs₁⟩ := step s i List.mem_cons_self hs
    obtain ⟨s₂, h₂, hs₂⟩ := ih (fun s j hj => step s j (List.mem_cons_of_mem _ hj)) hs₁
    exact ⟨s₂, by rw [List.foldlM_cons, h₁, ok_bind, h₂], hs₂⟩

/-- A loop over lists of elements is the loop over the elements. -/
theorem foldlM_flatten {ι : Type w} {f : σ → ι → Except ε σ} (ls : List (List ι)) (s : σ) :
    ls.flatten.foldlM f s = ls.foldlM (fun s l => l.foldlM f s) s := by
  induction ls generalizing s with
  | nil => rfl
  | cons l ls ih =>
    rw [List.flatten_cons, List.foldlM_append, List.foldlM_cons]
    exact bind_congr ih

/-- A loop that only checks passes exactly when every check passes. -/
theorem forM_eq_ok {ι : Type w} {f : ι → Except ε PUnit.{v + 1}} {l : List ι} {u : PUnit.{v + 1}} :
    l.forM f = .ok u ↔ ∀ i ∈ l, f i = .ok ⟨⟩ := by
  induction l with
  | nil => simp [pure, Except.pure]
  | cons i l ih =>
    rw [show (i :: l).forM f = (f i >>= fun _ => l.forM f) from rfl, bind_eq_ok]
    simp only [ih, List.mem_cons, forall_eq_or_imp]
    constructor
    · rintro ⟨_, h, hl⟩
      exact ⟨h, hl⟩
    · rintro ⟨h, hl⟩
      exact ⟨_, h, hl⟩

/-- A loop that collects results has one result for every element, in order. -/
theorem mapM_eq_ok {ι : Type v} {f : ι → Except ε β} {l : List ι} {bs : List β} :
    l.mapM f = .ok bs ↔ List.Forall₂ (fun i b => f i = .ok b) l bs := by
  induction l generalizing bs with
  | nil =>
    simp only [List.mapM_nil, pure_eq_ok, List.forall₂_nil_left_iff]
    exact eq_comm
  | cons i l ih =>
    simp only [List.mapM_cons, bind_eq_ok, pure_eq_ok, ih, List.forall₂_cons_left_iff]
    constructor
    · rintro ⟨b, hb, bs', hbs, rfl⟩
      exact ⟨b, bs', hb, hbs, rfl⟩
    · rintro ⟨b, bs', hb, hbs, rfl⟩
      exact ⟨b, hb, bs', hbs, rfl⟩

/-- Every collected result comes from an element. -/
theorem exists_of_mem_mapM {ι : Type v} {f : ι → Except ε β} {l : List ι} {bs : List β}
    (h : l.mapM f = .ok bs) {b : β} (hb : b ∈ bs) : ∃ i ∈ l, f i = .ok b := by
  rw [mapM_eq_ok] at h
  induction h with
  | nil => cases hb
  | cons hi _ ih =>
    rcases List.mem_cons.1 hb with rfl | hb
    · exact ⟨_, List.mem_cons_self, hi⟩
    · obtain ⟨i, hil, hib⟩ := ih hb
      exact ⟨i, List.mem_cons_of_mem _ hil, hib⟩

/-- Every element contributes its result. -/
theorem mem_mapM_of_mem {ι : Type v} {f : ι → Except ε β} {l : List ι} {bs : List β}
    (h : l.mapM f = .ok bs) {i : ι} (hi : i ∈ l) : ∃ b ∈ bs, f i = .ok b := by
  rw [mapM_eq_ok] at h
  induction h with
  | nil => cases hi
  | cons hb _ ih =>
    rcases List.mem_cons.1 hi with rfl | hi
    · exact ⟨_, List.mem_cons_self, hb⟩
    · obtain ⟨b, hbs, hib⟩ := ih hi
      exact ⟨b, List.mem_cons_of_mem _ hbs, hib⟩

/-- A value that every step hands on is the same before and after the loop. -/
theorem map_eq_of_mapM {ι : Type v} {κ : Type w} {f : ι → Except ε β} {g : β → κ} {h : ι → κ}
    {l : List ι} {bs : List β} (hm : l.mapM f = .ok bs) (hf : ∀ i b, f i = .ok b → g b = h i) :
    bs.map g = l.map h := by
  rw [mapM_eq_ok] at hm
  induction hm with
  | nil => rfl
  | cons hi _ ih => rw [List.map_cons, List.map_cons, hf _ _ hi, ih]

/-! ## Failures that do not occur -/

/-- The computation raises no failure in `p`. -/
def Avoids (p : ε → Bool) (x : Except ε α) : Prop := ∀ e, x = .error e → p e = false

namespace Avoids

variable {p : ε → Bool}

theorem ok (a : α) : Avoids p (.ok a : Except ε α) := fun _ h => (nomatch h)

theorem pure (a : α) : Avoids p (Pure.pure a : Except ε α) := .ok a

theorem error {e : ε} (h : p e = false) : Avoids p (.error e : Except ε α) := by
  intro e' he
  cases he
  exact h

theorem require {e : ε} {c : Prop} [Decidable c] (h : p e = false) :
    Avoids p (Outcome.require.{u, v} e c) := by
  intro e' he
  obtain ⟨_, rfl⟩ := require_eq_error.1 he
  exact h

theorem orFail {e : ε} {o : Option α} (h : p e = false) : Avoids p (Outcome.orFail e o) := by
  cases o with
  | none => exact .error h
  | some a => exact .ok a

/-- What the first part returned may be used. -/
theorem bind_ok {x : Except ε α} {f : α → Except ε β} (hx : Avoids p x)
    (hf : ∀ a, x = .ok a → Avoids p (f a)) : Avoids p (x >>= f) := by
  intro e he
  rcases bind_eq_error.1 he with h | ⟨a, ha, h⟩
  · exact hx e h
  · exact hf a ha e h

theorem bind {x : Except ε α} {f : α → Except ε β} (hx : Avoids p x) (hf : ∀ a, Avoids p (f a)) :
    Avoids p (x >>= f) :=
  .bind_ok hx fun a _ => hf a

theorem map {x : Except ε α} {f : α → β} (hx : Avoids p x) : Avoids p (x.map f) := by
  cases x with
  | error e => exact .error (hx e rfl)
  | ok a => exact .ok (f a)

theorem ite {c : Prop} [Decidable c] {x y : Except ε α} (hx : Avoids p x) (hy : Avoids p y) :
    Avoids p (if c then x else y) := by
  split
  · exact hx
  · exact hy

theorem foldlM {ι : Type w} {f : σ → ι → Except ε σ} (h : ∀ s i, Avoids p (f s i)) (l : List ι)
    (s : σ) : Avoids p (l.foldlM f s) := by
  induction l generalizing s with
  | nil => exact .pure s
  | cons i l ih =>
    rw [List.foldlM_cons]
    exact .bind (h s i) ih

theorem forM {ι : Type w} {f : ι → Except ε PUnit.{v + 1}} (h : ∀ i, Avoids p (f i))
    (l : List ι) : Avoids p (l.forM f) := by
  induction l with
  | nil => exact .pure _
  | cons i l ih => exact .bind (h i) fun _ => ih

end Avoids

end Outcome
