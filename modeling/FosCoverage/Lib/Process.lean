import Mathlib.Data.List.Basic

/-!
# Processes of transactions

A worker runs a sequence of transactions against a shared state.  Between two transactions other
parties act, and the worker may crash.  A `Process` is the worker's program, a script says what
happens to it: one function on the state for every transaction, applied just before it, and a crash
where the script ends.

* `attempt f ev` runs `f` as one transaction and returns what it raised, if anything; a transaction
  that raises leaves the state alone.  `transact` raises on.  A committed transaction writes `ev`
  into the log.
* `run` executes a process and reports how it ended, the state, and the log.
* `Triple` is the proof rule: an assertion about state and log that the other parties respect is
  carried through the program, and holds at the end, at a failure and at a crash.
-/

set_option autoImplicit false

/-- A program of transactions over the state `σ`, with failures `ε` and a log of events `ω`. -/
inductive Process (σ ε ω α : Type) : Type
  /-- The program has ended with a result. -/
  | done (a : α) : Process σ ε ω α
  /-- The program has raised a failure. -/
  | raise (e : ε) : Process σ ε ω α
  /-- One transaction: the state it leaves, the events it logs and how the program goes on. -/
  | step (post : σ → σ) (events : σ → List ω) (next : σ → Process σ ε ω α) : Process σ ε ω α

namespace Process

variable {σ ε ω α β : Type}

/-- Run `p`, then what `f` makes of its result. -/
protected def bind (p : Process σ ε ω α) (f : α → Process σ ε ω β) : Process σ ε ω β :=
  match p with
  | done a => f a
  | raise e => raise e
  | step post events next => step post events fun s => (next s).bind f

instance : Monad (Process σ ε ω) where
  pure := done
  bind := Process.bind

protected theorem pure_bind (a : α) (f : α → Process σ ε ω β) :
    (pure a : Process σ ε ω α) >>= f = f a := by
  change Process.bind (done a) f = f a
  rw [Process.bind]

/-- The result of a computation that needs no transaction. -/
def ofExcept : Except ε α → Process σ ε ω α
  | .ok a => done a
  | .error e => raise e

/-- One transaction, with what it raised as the result. -/
def attempt (f : σ → Except ε (σ × α)) (events : α → List ω) : Process σ ε ω (Except ε α) :=
  step (fun s => match f s with | .ok r => r.1 | .error _ => s)
    (fun s => match f s with | .ok r => events r.2 | .error _ => [])
    (fun s => match f s with | .ok r => done (.ok r.2) | .error e => done (.error e))

/-- One transaction; what it raises ends the program. -/
def transact (f : σ → Except ε (σ × α)) (events : α → List ω) : Process σ ε ω α :=
  step (fun s => match f s with | .ok r => r.1 | .error _ => s)
    (fun s => match f s with | .ok r => events r.2 | .error _ => [])
    (fun s => match f s with | .ok r => done r.2 | .error e => raise e)

/-- A read of the shared state. -/
def observe (f : σ → Except ε α) : Process σ ε ω α :=
  transact (fun s => (f s).map fun a => (s, a)) fun _ => []

/-! ## Execution -/

/-- How a run of a process ends. -/
inductive Ending (ε α : Type) : Type
  /-- With a result. -/
  | done (a : α)
  /-- With a failure. -/
  | raised (e : ε)
  /-- The worker is gone. -/
  | crashed

/-- What a run of a process leaves. -/
structure Report (σ ε ω α : Type) where
  /-- How it ended. -/
  ending : Ending ε α
  /-- The shared state. -/
  state : σ
  /-- The events of the committed transactions. -/
  log : List ω

/-- Execute a process under a script; the rest of the script is handed on. -/
def exec : Process σ ε ω α → List (σ → σ) → σ → Report σ ε ω α × List (σ → σ)
  | done a, script, s => (⟨.done a, s, []⟩, script)
  | raise e, script, s => (⟨.raised e, s, []⟩, script)
  | step _ _ _, [], s => (⟨.crashed, s, []⟩, [])
  | step post events next, act :: script, s =>
    let r := exec (next (act s)) script (post (act s))
    ({ r.1 with log := events (act s) ++ r.1.log }, r.2)

/-- The report of a run. -/
def run (p : Process σ ε ω α) (script : List (σ → σ)) (s : σ) : Report σ ε ω α :=
  (exec p script s).1

@[simp] theorem exec_pure (a : α) (script : List (σ → σ)) (s : σ) :
    exec (pure a : Process σ ε ω α) script s = (⟨.done a, s, []⟩, script) := by
  cases script <;> rfl

@[simp] theorem exec_done (a : α) (script : List (σ → σ)) (s : σ) :
    exec (done a : Process σ ε ω α) script s = (⟨.done a, s, []⟩, script) := by
  cases script <;> rfl

@[simp] theorem exec_raise (e : ε) (script : List (σ → σ)) (s : σ) :
    exec (raise e : Process σ ε ω α) script s = (⟨.raised e, s, []⟩, script) := by
  cases script <;> rfl

/-- What is left of a script is part of it. -/
theorem exec_script_subset (p : Process σ ε ω α) (script : List (σ → σ)) (s : σ) :
    (exec p script s).2 ⊆ script := by
  induction p generalizing script s with
  | done a => simp
  | raise e => simp
  | step post events next ih =>
    cases script with
    | nil => simp [exec]
    | cons act script => exact List.subset_cons_of_subset _ (ih (act s) script (post (act s)))

/-- A run of a sequence is a run of the first part and, if that ends with a result, of the
second. -/
theorem exec_bind (p : Process σ ε ω α) (f : α → Process σ ε ω β) (script : List (σ → σ)) (s : σ) :
    exec (p >>= f) script s =
      match exec p script s with
      | (⟨.done a, s', log⟩, rest) =>
        let r := exec (f a) rest s'
        ({ r.1 with log := log ++ r.1.log }, r.2)
      | (⟨.raised e, s', log⟩, rest) => (⟨.raised e, s', log⟩, rest)
      | (⟨.crashed, s', log⟩, rest) => (⟨.crashed, s', log⟩, rest) := by
  show exec (p.bind f) script s = _
  induction p generalizing script s with
  | done a => simp [Process.bind]
  | raise e => simp [Process.bind]
  | step post events next ih =>
    cases script with
    | nil => simp [Process.bind, exec]
    | cons act script =>
      simp only [Process.bind, exec, ih]
      generalize exec (next (act s)) script (post (act s)) = r
      obtain ⟨⟨ending, s', log⟩, rest⟩ := r
      cases ending <;> simp

/-! ## Proof rule -/

/-- `Triple R P p Q E C`: when every act of the script is in `R` and `P` holds at the start, then
`Q` holds if `p` ends with a result, `E` if it raises, and `C` if it crashes.  The assertions speak
about the log, which includes what was logged before `p`, and the state. -/
def Triple (R : σ → σ → Prop) (P : List ω → σ → Prop) (p : Process σ ε ω α)
    (Q : α → List ω → σ → Prop) (E : ε → List ω → σ → Prop) (C : List ω → σ → Prop) : Prop :=
  ∀ script s log, (∀ act ∈ script, ∀ s, R s (act s)) → P log s →
    match (exec p script s).1 with
    | ⟨.done a, s', log'⟩ => Q a (log ++ log') s'
    | ⟨.raised e, s', log'⟩ => E e (log ++ log') s'
    | ⟨.crashed, s', log'⟩ => C (log ++ log') s'

namespace Triple

variable {R : σ → σ → Prop} {P : List ω → σ → Prop} {Q : α → List ω → σ → Prop}
  {E : ε → List ω → σ → Prop} {C : List ω → σ → Prop}

theorem done {a : α} (h : ∀ log s, P log s → Q a log s) :
    Triple R P (Process.done a : Process σ ε ω α) Q E C := by
  intro script s log _ hP
  simpa using h log s hP

theorem pure {a : α} (h : ∀ log s, P log s → Q a log s) :
    Triple R P (Pure.pure a : Process σ ε ω α) Q E C :=
  Triple.done h

theorem raise {e : ε} (h : ∀ log s, P log s → E e log s) :
    Triple R P (Process.raise e : Process σ ε ω α) Q E C := by
  intro script s log _ hP
  simpa using h log s hP

theorem ofExcept {x : Except ε α} (h : ∀ a, x = .ok a → ∀ log s, P log s → Q a log s)
    (hE : ∀ e, x = .error e → ∀ log s, P log s → E e log s) :
    Triple R P (Process.ofExcept x : Process σ ε ω α) Q E C := by
  cases x with
  | ok a => exact Triple.done (h a rfl)
  | error e => exact Triple.raise (hE e rfl)

theorem bind {p : Process σ ε ω α} {f : α → Process σ ε ω β} {Q' : β → List ω → σ → Prop}
    (hp : Triple R P p Q E C) (hf : ∀ a, Triple R (Q a) (f a) Q' E C) :
    Triple R P (p >>= f) Q' E C := by
  intro script s log hR hP
  have h₁ := hp script s log hR hP
  have hsub := exec_script_subset p script s
  rw [exec_bind]
  generalize exec p script s = r at h₁ hsub
  obtain ⟨⟨ending, s', log'⟩, rest⟩ := r
  cases ending with
  | raised e => exact h₁
  | crashed => exact h₁
  | done a =>
    have h₂ := hf a rest s' (log ++ log') (fun act hact => hR act (hsub hact)) h₁
    dsimp only
    generalize exec (f a) rest s' = r at h₂
    obtain ⟨⟨ending, s'', log''⟩, rest'⟩ := r
    cases ending <;> simpa [List.append_assoc] using h₂

/-- The precondition may be strengthened and the other assertions weakened. -/
theorem conseq {p : Process σ ε ω α} {P' : List ω → σ → Prop} {Q' : α → List ω → σ → Prop}
    {E' : ε → List ω → σ → Prop} {C' : List ω → σ → Prop} (h : Triple R P p Q E C)
    (hP : ∀ log s, P' log s → P log s) (hQ : ∀ a log s, Q a log s → Q' a log s)
    (hE : ∀ e log s, E e log s → E' e log s) (hC : ∀ log s, C log s → C' log s) :
    Triple R P' p Q' E' C' := by
  intro script s log hR hs
  have := h script s log hR (hP log s hs)
  generalize exec p script s = r at this
  obtain ⟨⟨ending, s', log'⟩, rest⟩ := r
  cases ending with
  | done a => exact hQ a _ _ this
  | raised e => exact hE e _ _ this
  | crashed => exact hC _ _ this

/-- A witness in the precondition may be fixed. -/
theorem exists_pre {ι : Sort*} {P : ι → List ω → σ → Prop} {p : Process σ ε ω α}
    (h : ∀ i, Triple R (P i) p Q E C) : Triple R (fun log s => ∃ i, P i log s) p Q E C := by
  intro script s log hR hP
  obtain ⟨i, hP⟩ := hP
  exact h i script s log hR hP

/-- A fact in the precondition that says nothing about log and state may be assumed. -/
theorem fact_pre {φ : Prop} {p : Process σ ε ω α} (h : φ → Triple R P p Q E C) :
    Triple R (fun log s => φ ∧ P log s) p Q E C := by
  intro script s log hR hP
  exact h hP.1 script s log hR hP.2

/-- The rule for one transaction.  The precondition is one the other parties respect; a crash
finds it as it was. -/
theorem attempt {f : σ → Except ε (σ × α)} {events : α → List ω}
    {Q' : Except ε α → List ω → σ → Prop} (hstable : ∀ log s s', R s s' → P log s → P log s')
    (hok : ∀ log s s' a, P log s → f s = .ok (s', a) → Q' (.ok a) (log ++ events a) s')
    (herr : ∀ log s e, P log s → f s = .error e → Q' (.error e) log s)
    (hC : ∀ log s, P log s → C log s) :
    Triple R P (Process.attempt f events) Q' E C := by
  intro script s log hR hP
  cases script with
  | nil => simpa [Process.attempt, exec] using hC log s hP
  | cons act script =>
    have hP' := hstable log s (act s) (hR act List.mem_cons_self s) hP
    simp only [Process.attempt, exec]
    cases hf : f (act s) with
    | ok r => simpa using hok log _ r.1 r.2 hP' hf
    | error e => simpa using herr log _ e hP' hf

theorem transact {f : σ → Except ε (σ × α)} {events : α → List ω}
    (hstable : ∀ log s s', R s s' → P log s → P log s')
    (hok : ∀ log s s' a, P log s → f s = .ok (s', a) → Q a (log ++ events a) s')
    (herr : ∀ log s e, P log s → f s = .error e → E e log s)
    (hC : ∀ log s, P log s → C log s) :
    Triple R P (Process.transact f events) Q E C := by
  intro script s log hR hP
  cases script with
  | nil => simpa [Process.transact, exec] using hC log s hP
  | cons act script =>
    have hP' := hstable log s (act s) (hR act List.mem_cons_self s) hP
    simp only [Process.transact, exec]
    cases hf : f (act s) with
    | ok r => simpa using hok log _ r.1 r.2 hP' hf
    | error e => simpa using herr log _ e hP' hf

theorem observe {f : σ → Except ε α} (hstable : ∀ log s s', R s s' → P log s → P log s')
    (hok : ∀ log s a, P log s → f s = .ok a → Q a log s)
    (herr : ∀ log s e, P log s → f s = .error e → E e log s)
    (hC : ∀ log s, P log s → C log s) :
    Triple R P (Process.observe f) Q E C := by
  refine transact hstable ?_ ?_ hC
  · intro log s s' a hP hf
    cases h : f s with
    | error e => simp [h, Except.map] at hf
    | ok b =>
      simp only [h, Except.map, Except.ok.injEq, Prod.mk.injEq] at hf
      obtain ⟨rfl, rfl⟩ := hf
      simpa using hok log s b hP h
  · intro log s e hP hf
    cases h : f s with
    | ok b => simp [h, Except.map] at hf
    | error e' =>
      obtain rfl : e' = e := by simpa [h, Except.map] using hf
      exact herr log s e' hP h

/-- The loop rule: `Q l b` is the assertion after the elements `l`, with the local state `b`. -/
theorem foldlM {ι : Type} {f : β → ι → Process σ ε ω β} (I : List ι → β → List ω → σ → Prop)
    (l : List ι) (b : β)
    (step : ∀ pre i post b, l = pre ++ i :: post →
      Triple R (I pre b) (f b i) (I (pre ++ [i])) E C) :
    Triple R (I [] b) (l.foldlM f b) (I l) E C := by
  have key : ∀ (post pre : List ι) (b : β), l = pre ++ post →
      Triple R (I pre b) (post.foldlM f b) (I l) E C := by
    intro post
    induction post with
    | nil =>
      intro pre b hl
      obtain rfl : l = pre := by simpa using hl
      exact Triple.pure fun _ _ h => h
    | cons i post ih =>
      intro pre b hl
      rw [List.foldlM_cons]
      exact Triple.bind (step pre i post b hl) fun b' => ih (pre ++ [i]) b' (by simp [hl])
  exact key l [] b rfl

end Triple

end Process
