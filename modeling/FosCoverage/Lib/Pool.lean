import FosCoverage.Lib.Process
import Mathlib.Logic.Relation

/-!
# Pools of processes

Any number of processes run over one shared state, each transaction of one of them between any
transactions of the others.  New ones are started at any time, and any one may be gone at any time.

* `Pool.Step` is one such event, `Pool.Run` any number of them.  The pool keeps the log of all
  committed transactions.
* `Keeps I p log Q` is the proof rule for one process.  `I` is an invariant of log and state that
  all parties keep; `log` is what the process knows to be the beginning of the log, and that stays
  true, since a log only grows.  `Q` is what it knows at the end.
* `Pool.Run.inv`: if every process keeps the invariant, the pool does.
-/

set_option autoImplicit false

namespace Process

variable {σ ε ω α β : Type}

/-! ## One process among others -/

/-- Every transaction of `p` keeps `I`, whatever the state is that it finds; the log it finds begins
with the one the transaction before it has left.  At the end `Q` holds. -/
def Keeps (I : List ω → σ → Prop) : Process σ ε ω α → List ω → (List ω → α → Prop) → Prop
  | done a, log, Q => Q log a
  | raise _, _, _ => True
  | step post events next, log, Q => ∀ log' s, log <+: log' → I log' s →
    I (log' ++ events s) (post s) ∧ Keeps I (next s) (log' ++ events s) Q

namespace Keeps

variable {I : List ω → σ → Prop} {log : List ω} {Q : List ω → α → Prop}

theorem done {a : α} (h : Q log a) : Keeps I (Process.done a : Process σ ε ω α) log Q := h

theorem pure {a : α} (h : Q log a) : Keeps I (Pure.pure a : Process σ ε ω α) log Q := h

theorem raise {e : ε} : Keeps I (Process.raise e : Process σ ε ω α) log Q := trivial

theorem ofExcept {x : Except ε α} (h : ∀ a, x = .ok a → Q log a) :
    Keeps I (Process.ofExcept x : Process σ ε ω α) log Q := by
  cases x with
  | ok a => exact h a rfl
  | error e => exact trivial

/-- What is known at the end may be weakened. -/
theorem imp {p : Process σ ε ω α} {Q' : List ω → α → Prop} (h : Keeps I p log Q)
    (hQ : ∀ log a, Q log a → Q' log a) : Keeps I p log Q' := by
  induction p generalizing log with
  | done a => exact hQ log a h
  | raise e => exact trivial
  | step post events next ih =>
    intro log' s hlog hI
    obtain ⟨hI', hnext⟩ := h log' s hlog hI
    exact ⟨hI', ih s hnext⟩

/-- A longer log is known as well, if the end does not mind. -/
theorem mono {p : Process σ ε ω α} {log' : List ω} (hlog : log <+: log') (h : Keeps I p log Q)
    (hQ : ∀ log log' a, log <+: log' → Q log a → Q log' a) : Keeps I p log' Q := by
  cases p with
  | done a => exact hQ log log' a hlog h
  | raise e => exact trivial
  | step post events next => exact fun log'' s hlog' hI => h log'' s (hlog.trans hlog') hI

/-- The rule for a sequence. -/
theorem bind {p : Process σ ε ω α} {f : α → Process σ ε ω β} {Q' : List ω → β → Prop}
    (h : Keeps I p log fun log a => Keeps I (f a) log Q') : Keeps I (p >>= f) log Q' := by
  show Keeps I (p.bind f) log Q'
  induction p generalizing log with
  | done a => exact h
  | raise e => exact trivial
  | step post events next ih =>
    intro log' s hlog hI
    obtain ⟨hI', hnext⟩ := h log' s hlog hI
    exact ⟨hI', ih s hnext⟩

/-- The rule for one transaction. -/
theorem transact {f : σ → Except ε (σ × α)} {events : α → List ω}
    (h : ∀ log' s s' a, log <+: log' → I log' s → f s = .ok (s', a) →
      I (log' ++ events a) s' ∧ Q (log' ++ events a) a) :
    Keeps I (Process.transact f events) log Q := by
  intro log' s hlog hI
  dsimp only
  cases hf : f s with
  | ok r =>
    obtain ⟨s', a⟩ := r
    obtain ⟨hI', hQ⟩ := h log' s s' a hlog hI hf
    exact ⟨hI', hQ⟩
  | error e => exact ⟨by rwa [List.append_nil], trivial⟩

/-- The rule for one transaction whose failure is caught. -/
theorem attempt {f : σ → Except ε (σ × α)} {events : α → List ω} {Q : List ω → Except ε α → Prop}
    (h : ∀ log' s s' a, log <+: log' → I log' s → f s = .ok (s', a) →
      I (log' ++ events a) s' ∧ Q (log' ++ events a) (.ok a))
    (herr : ∀ log' s e, log <+: log' → I log' s → f s = .error e → Q log' (.error e)) :
    Keeps I (Process.attempt f events) log Q := by
  intro log' s hlog hI
  dsimp only
  cases hf : f s with
  | ok r =>
    obtain ⟨s', a⟩ := r
    obtain ⟨hI', hQ⟩ := h log' s s' a hlog hI hf
    exact ⟨hI', hQ⟩
  | error e =>
    rw [List.append_nil]
    exact ⟨hI, herr log' s e hlog hI hf⟩

/-- The rule for a read. -/
theorem observe {f : σ → Except ε α}
    (h : ∀ log' s a, log <+: log' → I log' s → f s = .ok a → Q log' a) :
    Keeps I (Process.observe f) log Q := by
  refine transact fun log' s s' a hlog hI hf => ?_
  cases hr : f s with
  | error e => simp [hr, Except.map] at hf
  | ok b =>
    simp only [hr, Except.map, Except.ok.injEq, Prod.mk.injEq] at hf
    obtain ⟨rfl, rfl⟩ := hf
    rw [List.append_nil]
    exact ⟨hI, h log' s b hlog hI hr⟩

/-- The loop rule: `J l b log` is what is known after the elements `l`, with the local state `b`. -/
theorem foldlM {ι : Type} {f : β → ι → Process σ ε ω β} (J : List ι → β → List ω → Prop)
    (l : List ι) {b : β} {log : List ω} (h₀ : J [] b log)
    (hstep : ∀ pre i post b log, l = pre ++ i :: post → J pre b log →
      Keeps I (f b i) log fun log b => J (pre ++ [i]) b log) :
    Keeps I (l.foldlM f b) log fun log b => J l b log := by
  have key : ∀ (post pre : List ι) (b : β) (log : List ω), l = pre ++ post → J pre b log →
      Keeps I (post.foldlM f b) log fun log b => J l b log := by
    intro post
    induction post with
    | nil =>
      intro pre b log hl hJ
      obtain rfl : l = pre := by simpa using hl
      exact pure hJ
    | cons i post ih =>
      intro pre b log hl hJ
      rw [List.foldlM_cons]
      exact bind ((hstep pre i post b log hl hJ).imp fun log b hJ' =>
        ih (pre ++ [i]) b log (by simp [hl]) hJ')
  exact key l [] b log rfl h₀

end Keeps

/-! ## Pools -/

/-- Processes at some point of their execution, with the state they share and what they have
committed. -/
structure Pool (σ ε ω α : Type) where
  /-- The shared state. -/
  state : σ
  /-- The events of all committed transactions. -/
  log : List ω
  /-- The processes, each with what it still has to do. -/
  workers : List (Process σ ε ω α)

namespace Pool

/-- What happens to a pool in which processes of the kind `spawn` are started, and other parties act
on the state as `other` says. -/
inductive Step (spawn : Process σ ε ω α → Prop) (other : σ → σ → Prop) :
    Pool σ ε ω α → Pool σ ε ω α → Prop
  /-- Somebody else changes the state. -/
  | act {s s' : σ} (log : List ω) (ws : List (Process σ ε ω α)) (h : other s s') :
    Step spawn other ⟨s, log, ws⟩ ⟨s', log, ws⟩
  /-- A process is started. -/
  | start (s : σ) (log : List ω) (ws : List (Process σ ε ω α)) {p : Process σ ε ω α} (h : spawn p) :
    Step spawn other ⟨s, log, ws⟩ ⟨s, log, p :: ws⟩
  /-- A process is gone. -/
  | crash (s : σ) (log : List ω) (pre : List (Process σ ε ω α)) (p : Process σ ε ω α)
      (post : List (Process σ ε ω α)) :
    Step spawn other ⟨s, log, pre ++ p :: post⟩ ⟨s, log, pre ++ post⟩
  /-- A process takes its next transaction. -/
  | turn (s : σ) (log : List ω) (pre : List (Process σ ε ω α)) (f : σ → σ) (events : σ → List ω)
      (next : σ → Process σ ε ω α) (post : List (Process σ ε ω α)) :
    Step spawn other ⟨s, log, pre ++ .step f events next :: post⟩
      ⟨f s, log ++ events s, pre ++ next s :: post⟩

/-- Any number of events. -/
abbrev Run (spawn : Process σ ε ω α → Prop) (other : σ → σ → Prop) :
    Pool σ ε ω α → Pool σ ε ω α → Prop :=
  Relation.ReflTransGen (Step spawn other)

/-- A run of one process among acts of other parties is a run of the pool. -/
theorem run_exec {spawn : Process σ ε ω α → Prop} {other : σ → σ → Prop} {p : Process σ ε ω α}
    {script : List (σ → σ)} (hscript : ∀ act ∈ script, ∀ s, other s (act s)) (s : σ)
    (log : List ω) (ws : List (Process σ ε ω α)) :
    ∃ p', Run spawn other ⟨s, log, p :: ws⟩
      ⟨(exec p script s).1.state, log ++ (exec p script s).1.log, p' :: ws⟩ := by
  induction p generalizing script s log with
  | done a => exact ⟨.done a, by simpa using .refl⟩
  | raise e => exact ⟨.raise e, by simpa using .refl⟩
  | step post events next ih =>
    cases script with
    | nil => exact ⟨.step post events next, by simpa [exec] using .refl⟩
    | cons act script =>
      have hact : other s (act s) := hscript act List.mem_cons_self s
      obtain ⟨p', hrest⟩ := ih (act s) (fun act' hmem => hscript act' (List.mem_cons_of_mem _ hmem))
        (post (act s)) (log ++ events (act s))
      refine ⟨p', .head (.act log _ hact) (.head (.turn (act s) log [] post events next ws) ?_)⟩
      simpa [exec, List.append_assoc] using hrest

/-- The invariant holds, and every process of the pool keeps it. -/
structure Ok (I : List ω → σ → Prop) (pool : Pool σ ε ω α) : Prop where
  /-- The invariant. -/
  inv : I pool.log pool.state
  /-- The processes. -/
  keeps : ∀ p ∈ pool.workers, Keeps I p pool.log fun _ _ => True

variable {I : List ω → σ → Prop} {spawn : Process σ ε ω α → Prop} {other : σ → σ → Prop}
  {pool pool' : Pool σ ε ω α}

/-- One event keeps the invariant. -/
theorem Ok.step (h : Ok I pool) (hs : Step spawn other pool pool')
    (hspawn : ∀ p, spawn p → ∀ log, Keeps I p log fun _ _ => True)
    (hother : ∀ log s s', other s s' → I log s → I log s') : Ok I pool' := by
  cases hs with
  | act log ws hact => exact ⟨hother log _ _ hact h.inv, h.keeps⟩
  | start s log ws hp =>
    refine ⟨h.inv, fun q hq => ?_⟩
    rcases List.mem_cons.1 hq with rfl | hq
    · exact hspawn q hp log
    · exact h.keeps q hq
  | crash s log pre p post =>
    refine ⟨h.inv, fun q hq => h.keeps q ?_⟩
    rcases List.mem_append.1 hq with hq | hq
    · exact List.mem_append.2 (.inl hq)
    · exact List.mem_append.2 (.inr (List.mem_cons_of_mem p hq))
  | turn s log pre f events next post =>
    have hkeeps := h.keeps (.step f events next) (List.mem_append.2 (.inr List.mem_cons_self))
    obtain ⟨hinv, hnext⟩ := hkeeps log s (List.prefix_refl log) h.inv
    -- the log grows, which no other process minds
    have hgrow : ∀ q : Process σ ε ω α, Keeps I q log (fun _ _ => True) →
        Keeps I q (log ++ events s) fun _ _ => True := fun q hq =>
      hq.mono (List.prefix_append log (events s)) fun _ _ _ _ _ => trivial
    refine ⟨hinv, fun q hq => ?_⟩
    rcases List.mem_append.1 hq with hq | hq
    · exact hgrow q (h.keeps q (List.mem_append.2 (.inl hq)))
    · rcases List.mem_cons.1 hq with rfl | hq
      · exact hnext
      · exact hgrow q (h.keeps q (List.mem_append.2 (.inr (List.mem_cons_of_mem _ hq))))

/-- **What every process and every other party keeps, holds in every state of a run.** -/
theorem Run.inv (hrun : Run spawn other pool pool') (h : Ok I pool)
    (hspawn : ∀ p, spawn p → ∀ log, Keeps I p log fun _ _ => True)
    (hother : ∀ log s s', other s s' → I log s → I log s') : I pool'.log pool'.state := by
  have hok : Ok I pool' := by
    induction hrun with
    | refl => exact h
    | tail _ hs ih => exact ih.step hs hspawn hother
  exact hok.inv

end Pool

end Process
