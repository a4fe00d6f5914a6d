import FosCoverage.Lib.Process

/-!
# Processes that do the same in more transactions

A process may need several transactions where another one needs a single one, as when a transaction
is tried again after it was rolled back.  What the other parties do between the tries, they do before
the single transaction.

* `Merged script merged`: the second script has one act for every block of the first one.
* `Refines p q`: every run of `p` that ends is a run of `q` under a merged script, with the same
  ending, the same state and the same log.  The relation is a congruence for sequences
  (`Refines.bind`).
* `Yields p Q`: whatever the other parties do, `p` ends with a result only if `Q` holds of it.
* Undisturbed runs end (`exists_ending`), and end in one way only (`Refines.undisturbed`).
-/

set_option autoImplicit false

namespace Process

variable {σ ε ω α β : Type}

/-! ## Scripts -/

/-- Some acts one after the other. -/
def together (acts : List (σ → σ)) (s : σ) : σ := acts.foldl (fun s act => act s) s

/-- Every act of the second script is a non-empty block of the first one. -/
def Merged (script merged : List (σ → σ)) : Prop :=
  ∃ blocks : List (List (σ → σ)), (∀ b ∈ blocks, b ≠ []) ∧ blocks.flatten = script ∧
    blocks.map together = merged

namespace Merged

theorem refl (script : List (σ → σ)) : Merged script script :=
  ⟨script.map fun act => [act], by simp, by
    rw [← List.flatMap_def, List.flatMap_singleton'], by
    rw [List.map_map]
    exact List.map_id' script⟩

theorem append {s₁ s₂ m₁ m₂ : List (σ → σ)} (h₁ : Merged s₁ m₁) (h₂ : Merged s₂ m₂) :
    Merged (s₁ ++ s₂) (m₁ ++ m₂) := by
  obtain ⟨b₁, hne₁, rfl, rfl⟩ := h₁
  obtain ⟨b₂, hne₂, rfl, rfl⟩ := h₂
  refine ⟨b₁ ++ b₂, fun b hb => ?_, List.flatten_append, List.map_append⟩
  rcases List.mem_append.1 hb with hb | hb
  · exact hne₁ b hb
  · exact hne₂ b hb

/-- One more act before the first block. -/
theorem cons {script merged : List (σ → σ)} {first : σ → σ} (act : σ → σ)
    (h : Merged script (first :: merged)) :
    Merged (act :: script) ((fun s => first (act s)) :: merged) := by
  obtain ⟨blocks, hne, rfl, hm⟩ := h
  cases blocks with
  | nil => cases hm
  | cons b bs =>
    rw [List.map_cons] at hm
    obtain ⟨rfl, rfl⟩ := List.cons.inj hm
    refine ⟨(act :: b) :: bs, fun b' hb' => ?_, rfl, rfl⟩
    rcases List.mem_cons.1 hb' with rfl | hb'
    · exact List.cons_ne_nil _ _
    · exact hne b' (List.mem_cons_of_mem _ hb')

/-- Merging acts that do nothing gives acts that do nothing. -/
theorem of_idle {n : Nat} {merged : List (σ → σ)} (h : Merged (List.replicate n id) merged) :
    ∃ m, merged = List.replicate m id := by
  obtain ⟨blocks, _, hflat, rfl⟩ := h
  refine ⟨blocks.length, List.eq_replicate_iff.2 ⟨List.length_map _, fun f hf => ?_⟩⟩
  obtain ⟨b, hb, rfl⟩ := List.mem_map.1 hf
  have hidle : ∀ act ∈ b, act = id := fun act hact =>
    List.eq_of_mem_replicate (hflat ▸ List.mem_flatten.2 ⟨b, hb, hact⟩)
  clear hb hflat hf
  funext s
  unfold together
  induction b generalizing s with
  | nil => rfl
  | cons act b ih =>
    rw [List.foldl_cons, hidle act List.mem_cons_self]
    exact ih (fun a ha => hidle a (List.mem_cons_of_mem _ ha)) s

end Merged

/-! ## Runs that end -/

deriving instance DecidableEq for Ending

/-- The run did not crash. -/
def Ending.Over : Ending ε α → Prop
  | .crashed => False
  | _ => True

/-- A run that ends takes a part of the script, whatever follows it. -/
theorem exec_taken (p : Process σ ε ω α) {script rest : List (σ → σ)} {s : σ}
    {r : Report σ ε ω α} (h : exec p script s = (r, rest)) (hover : r.ending.Over) :
    ∃ taken, script = taken ++ rest ∧ ∀ rest', exec p (taken ++ rest') s = (r, rest') := by
  induction p generalizing script s r with
  | done a =>
    rw [exec_done] at h
    obtain ⟨rfl, rfl⟩ := Prod.mk.inj h
    exact ⟨[], rfl, fun rest' => exec_done a rest' s⟩
  | raise e =>
    rw [exec_raise] at h
    obtain ⟨rfl, rfl⟩ := Prod.mk.inj h
    exact ⟨[], rfl, fun rest' => exec_raise e rest' s⟩
  | step post events next ih =>
    cases script with
    | nil =>
      obtain ⟨rfl, _⟩ := Prod.mk.inj h
      exact hover.elim
    | cons act script =>
      simp only [exec, Prod.mk.injEq] at h
      obtain ⟨rfl, rfl⟩ := h
      obtain ⟨taken, htaken, hrest⟩ := ih (act s) rfl hover
      refine ⟨act :: taken, by rw [List.cons_append, ← htaken], fun rest' => ?_⟩
      rw [List.cons_append, exec, hrest rest']

/-- **Without other parties every process ends.** -/
theorem exists_ending (p : Process σ ε ω α) (s : σ) :
    ∃ n, (run p (List.replicate n id) s).ending.Over := by
  induction p generalizing s with
  | done a => exact ⟨0, trivial⟩
  | raise e => exact ⟨0, trivial⟩
  | step post events next ih =>
    obtain ⟨n, hn⟩ := ih s (post s)
    exact ⟨n + 1, hn⟩

/-! ## Results -/

/-- What holds of every result. -/
def Yields (p : Process σ ε ω α) (Q : α → Prop) : Prop :=
  ∀ script s a, (exec p script s).1.ending = .done a → Q a

namespace Yields

theorem pure {a : α} {Q : α → Prop} (h : Q a) : Yields (Pure.pure a : Process σ ε ω α) Q := by
  intro script s b hb
  rw [exec_pure] at hb
  injection hb with hb
  exact hb ▸ h

theorem ofExcept {x : Except ε α} {Q : α → Prop} (h : ∀ a, x = .ok a → Q a) :
    Yields (Process.ofExcept x : Process σ ε ω α) Q := by
  cases x with
  | ok a => exact Yields.pure (h a rfl)
  | error e =>
    intro script s b hb
    rw [Process.ofExcept, exec_raise] at hb
    cases hb

theorem raise {e : ε} {Q : α → Prop} : Yields (Process.raise e : Process σ ε ω α) Q := by
  intro script s b hb
  rw [exec_raise] at hb
  cases hb

theorem step {post : σ → σ} {events : σ → List ω} {next : σ → Process σ ε ω α} {Q : α → Prop}
    (h : ∀ s, Yields (next s) Q) : Yields (Process.step post events next) Q := by
  intro script s a ha
  cases script with
  | nil => cases ha
  | cons act script => exact h (act s) script _ a ha

theorem transact {f : σ → Except ε (σ × α)} {events : α → List ω} {Q : α → Prop}
    (h : ∀ s s' a, f s = .ok (s', a) → Q a) : Yields (Process.transact f events) Q := by
  refine Yields.step fun s => ?_
  cases hf : f s with
  | ok r => exact Yields.pure (h s r.1 r.2 hf)
  | error e => exact Yields.raise

theorem bind {p : Process σ ε ω α} {f : α → Process σ ε ω β} {Q : α → Prop} {Q' : β → Prop}
    (h : Yields p Q) (hf : ∀ a, Q a → Yields (f a) Q') : Yields (p >>= f) Q' := by
  intro script s b hb
  rw [exec_bind] at hb
  rcases hp : exec p script s with ⟨⟨ending, s', log⟩, rest⟩
  rw [hp] at hb
  cases ending with
  | raised e => cases hb
  | crashed => cases hb
  | done a => exact hf a (h script s a (by rw [hp])) rest s' b hb

theorem conseq {p : Process σ ε ω α} {Q Q' : α → Prop} (h : Yields p Q) (hQ : ∀ a, Q a → Q' a) :
    Yields p Q' := fun script s a ha => hQ a (h script s a ha)

end Yields

/-! ## Refinement -/

/-- Every run of `p` that ends is a run of `q` under a merged script. -/
def Refines (p q : Process σ ε ω α) : Prop :=
  ∀ script s r rest, exec p script s = (r, rest) → r.ending.Over →
    ∃ taken merged, script = taken ++ rest ∧ Merged taken merged ∧
      ∀ rest', exec q (merged ++ rest') s = (r, rest')

namespace Refines

theorem refl (p : Process σ ε ω α) : Refines p p := by
  intro script s r rest h hover
  obtain ⟨taken, htaken, hrest⟩ := exec_taken p h hover
  exact ⟨taken, taken, htaken, .refl taken, hrest⟩

theorem bind {p q : Process σ ε ω α} {f g : α → Process σ ε ω β} {Q : α → Prop}
    (h : Refines p q) (hQ : Yields p Q) (hf : ∀ a, Q a → Refines (f a) (g a)) :
    Refines (p >>= f) (q >>= g) := by
  intro script s r rest hexec hover
  rw [exec_bind] at hexec
  rcases hp : exec p script s with ⟨⟨ending, s', log⟩, rest₁⟩
  rw [hp] at hexec
  cases ending with
  | crashed =>
    obtain ⟨rfl, _⟩ := Prod.mk.inj hexec
    exact hover.elim
  | raised e =>
    obtain ⟨rfl, rfl⟩ := Prod.mk.inj hexec
    obtain ⟨taken, merged, htaken, hmerged, hq⟩ := h script s _ _ hp trivial
    refine ⟨taken, merged, htaken, hmerged, fun rest' => ?_⟩
    rw [exec_bind, hq rest']
  | done a =>
    obtain ⟨taken, merged, htaken, hmerged, hq⟩ := h script s _ _ hp trivial
    rcases hr : exec (f a) rest₁ s' with ⟨r', rest₂⟩
    simp only [hr, Prod.mk.injEq] at hexec
    obtain ⟨rfl, rfl⟩ := hexec
    obtain ⟨taken', merged', htaken', hmerged', hg⟩ :=
      hf a (hQ script s a (by rw [hp])) rest₁ s' r' rest₂ hr hover
    refine ⟨taken ++ taken', merged ++ merged', ?_, hmerged.append hmerged', fun rest' => ?_⟩
    · rw [htaken, htaken', List.append_assoc]
    · rw [List.append_assoc, exec_bind, hq]
      simp only [hg rest']

/-- One more transaction that leaves everything alone, before a transaction. -/
theorem skip {p : Process σ ε ω α} {post : σ → σ} {events : σ → List ω}
    {next : σ → Process σ ε ω α} (h : Refines p (step post events next)) :
    Refines (step id (fun _ => []) fun _ => p) (step post events next) := by
  intro script s r rest hexec hover
  cases script with
  | nil =>
    obtain ⟨rfl, _⟩ := Prod.mk.inj hexec
    exact hover.elim
  | cons act script =>
    have hp : exec p script (act s) = (r, rest) := by
      rw [← hexec]
      simp [exec]
    obtain ⟨taken, merged, rfl, hmerged, hq⟩ := h script (act s) r rest hp hover
    cases merged with
    | nil =>
      -- without an act the transaction would have crashed
      have hnil := hq []
      obtain ⟨rfl, _⟩ := Prod.mk.inj hnil
      exact hover.elim
    | cons first merged =>
      exact ⟨act :: taken, (fun s => first (act s)) :: merged, rfl, hmerged.cons act, hq⟩

/-- **Undisturbed runs of the two end alike.** -/
theorem undisturbed {p q : Process σ ε ω α} (h : Refines p q) {n m : Nat} {s : σ}
    (hp : (run p (List.replicate n id) s).ending.Over)
    (hq : (run q (List.replicate m id) s).ending.Over) :
    run p (List.replicate n id) s = run q (List.replicate m id) s := by
  obtain ⟨taken, merged, htaken, hmerged, hrun⟩ :=
    h _ s _ (exec p (List.replicate n id) s).2 rfl hp
  have hidle : taken = List.replicate taken.length id :=
    List.eq_replicate_iff.2 ⟨rfl, fun act hact =>
      List.eq_of_mem_replicate (htaken ▸ List.mem_append_left _ hact)⟩
  rw [hidle] at hmerged
  obtain ⟨k, rfl⟩ := hmerged.of_idle
  obtain ⟨taken', htaken', hrun'⟩ : ∃ taken', List.replicate m id =
      taken' ++ (exec q (List.replicate m id) s).2 ∧
      ∀ rest', exec q (taken' ++ rest') s = (run q (List.replicate m id) s, rest') :=
    exec_taken q rfl hq
  have h₁ := hrun (List.replicate m id)
  have h₂ : exec q (List.replicate k id ++ List.replicate m id) s =
      (run q (List.replicate m id) s,
        (exec q (List.replicate m id) s).2 ++ List.replicate k id) := by
    have hsplit : List.replicate k (id : σ → σ) ++ List.replicate m id =
        taken' ++ ((exec q (List.replicate m id) s).2 ++ List.replicate k id) := by
      rw [← List.append_assoc, ← htaken', List.replicate_append_replicate,
        List.replicate_append_replicate, Nat.add_comm]
    rw [hsplit]
    exact hrun' _
  exact (Prod.mk.inj (h₁.symm.trans h₂)).1

end Refines

end Process
