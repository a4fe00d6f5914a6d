import FosCoverage.Upgrade.Lifecycle

/-!
# What a rollback leaves behind

Over any sequence of calls and any outcomes of the commands:

* the flags know of every process that may be alive (`Known`);
* no command of a call runs without the marker that was there before the call, and a call that
  raises in `abort` leaves that marker (`Since`);
* an `abort` that returns has stopped the serving process of the candidate, and a stable process
  runs.  Its validation process is stopped **unless** the current process was preserved
  (`abort_ensures`): that exit never looks at `api_started` (`Strands`).

`rollback_safe_iff` puts this together: a run is safe exactly when no `abort` of it takes the
preserving exit over a validation process.
-/

set_option autoImplicit false

namespace FosCoverage

namespace UpgradeLifecycle

open Stateful

/-! ## The log -/

theorem Processes.after_append_singleton (log : List Event) (e : Event) :
    Processes.after (log ++ [e]) = (Processes.after log).step e := by
  rw [Processes.after, List.foldl_append]
  rfl

/-- The state after a command that ran. -/
def Lifecycle.ran (s : Lifecycle) (command : Command) (restores passed : Bool) : Lifecycle :=
  { s with log := s.log ++ [⟨command, restores, passed, s.marker⟩] }

@[simp] theorem Lifecycle.after_ran (s : Lifecycle) (command : Command) (restores passed : Bool) :
    Processes.after (s.ran command restores passed).log =
      (Processes.after s.log).step ⟨command, restores, passed, s.marker⟩ :=
  Processes.after_append_singleton s.log _

/-- What is known of the processes from the flags. -/
structure Known (s : Lifecycle) : Prop where
  /-- `api_started` -/
  validation : (Processes.after s.log).validation = true → s.apiStarted = true
  /-- `serving_api_started` -/
  serving : (Processes.after s.log).serving = true → s.servingApiStarted = true
  /-- `current_api_stop_attempted` -/
  stable : (Processes.after s.log).stable = false → s.currentApiStopAttempted = true

theorem Processes.step_validation {p : Processes} {e : Event} (h : (p.step e).validation = true) :
    p.validation = true ∨ (e.restores = false ∧ e.command = .startValidationApi) := by
  rcases e with ⟨command, restores, passed, marker⟩
  cases restores <;> cases command <;> simp_all [Processes.step]

theorem Processes.step_serving {p : Processes} {e : Event} (h : (p.step e).serving = true) :
    p.serving = true ∨ (e.restores = false ∧ e.command = .startServingApi) := by
  rcases e with ⟨command, restores, passed, marker⟩
  cases restores <;> cases command <;> simp_all [Processes.step]

theorem Processes.step_stable {p : Processes} {e : Event} (h : (p.step e).stable = false) :
    p.stable = false ∨ (e.restores = false ∧ e.command = .stopCurrentApi) := by
  rcases e with ⟨command, restores, passed, marker⟩
  cases restores <;> cases command <;> simp_all [Processes.step]

/-- A command keeps the flags right whose own flag is already set. -/
theorem Known.ran {s : Lifecycle} (hk : Known s) {command : Command} {restores : Bool}
    (hv : restores = false ∧ command = .startValidationApi → s.apiStarted = true)
    (hs : restores = false ∧ command = .startServingApi → s.servingApiStarted = true)
    (hc : restores = false ∧ command = .stopCurrentApi → s.currentApiStopAttempted = true)
    (passed : Bool) :
    Known (s.ran command restores passed) := by
  constructor
  · rw [Lifecycle.after_ran]
    exact fun h => (Processes.step_validation h).elim hk.validation hv
  · rw [Lifecycle.after_ran]
    exact fun h => (Processes.step_serving h).elim hk.serving hs
  · rw [Lifecycle.after_ran]
    exact fun h => (Processes.step_stable h).elim hk.stable hc

/-- The commands that ran since some state ran with its marker, which is still as it was. -/
structure Since (s s' : Lifecycle) : Prop where
  /-- The marker. -/
  marker : s'.marker = s.marker
  /-- The commands. -/
  log : ∃ new, s'.log = s.log ++ new ∧ ∀ e ∈ new, e.marker = s.marker

namespace Since

variable {s s' s'' : Lifecycle}

theorem refl (s : Lifecycle) : Since s s :=
  ⟨rfl, [], (List.append_nil _).symm, fun _ he => absurd he List.not_mem_nil⟩

/-- A change of flags. -/
theorem of_eq (h : Since s s') (hm : s''.marker = s'.marker) (hl : s''.log = s'.log) :
    Since s s'' := by
  refine ⟨hm.trans h.marker, ?_⟩
  rw [hl]
  exact h.log

theorem ran (h : Since s s') (command : Command) (restores passed : Bool) :
    Since s (s'.ran command restores passed) := by
  obtain ⟨new, hlog, hnew⟩ := h.log
  refine ⟨h.marker, new ++ [⟨command, restores, passed, s'.marker⟩], ?_, fun e he => ?_⟩
  · rw [← List.append_assoc, ← hlog]
    rfl
  · rcases List.mem_append.1 he with he | he
    · exact hnew e he
    · rw [List.mem_singleton.1 he]
      exact h.marker

end Since

/-- A command that has to pass. -/
theorem mustPass_ensures {P Q E : Lifecycle → Prop} {command : Command} {restores : Bool}
    {outcome : Outcome} {error : String}
    (hpass : ∀ s, P s → outcome = .passed → Q (s.ran command restores true))
    (hfail : ∀ s, P s → outcome ≠ .passed → E (s.ran command restores false))
    (hraise : ∀ s, P s → outcome ≠ .passed → E s) :
    Ensures P (mustPass command restores outcome error) (fun _ => Q) (fun _ => E) := by
  rw [mustPass]
  cases outcome with
  | passed =>
    refine Ensures.bind (Q := fun passed s => passed = true ∧ Q s) ?_ fun passed => ?_
    · exact Ensures.bind (Ensures.update (Q := fun _ s => Q s) fun s hs => hpass s hs rfl)
        fun _ => Ensures.pure fun s hs => ⟨rfl, hs⟩
    · exact Ensures.check (fun s hs _ => hs.2) fun s hs hne => absurd hs.1 hne
  | failed =>
    refine Ensures.bind (Q := fun passed s => passed = false ∧ E s) ?_ fun passed => ?_
    · exact Ensures.bind (Ensures.update (Q := fun _ s => E s)
        fun s hs => hfail s hs nofun)
        fun _ => Ensures.pure fun s hs => ⟨rfl, hs⟩
    · refine Ensures.check (fun s hs ht => ?_) fun s hs _ => hs.2
      rw [hs.1] at ht
      cases ht
  | notConfigured =>
    exact Ensures.bind (Q := fun _ _ => False)
      (Ensures.raise fun s hs => hraise s hs nofun)
      fun _ _ hs => absurd hs id
  | invalid =>
    exact Ensures.bind (Q := fun _ _ => False)
      (Ensures.raise fun s hs => hraise s hs nofun)
      fun _ _ hs => absurd hs id

/-! ## One abort -/

/-- The state after some traffic commands of an `abort` that started in `s`. -/
structure Aborting (s s' : Lifecycle) : Prop where
  /-- The marker and the commands. -/
  since : Since s s'
  /-- The processes. -/
  processes : Processes.after s'.log = Processes.after s.log
  /-- The flags for the processes. -/
  apiStarted : s'.apiStarted = s.apiStarted
  /-- The flags for the processes. -/
  servingApiStarted : s'.servingApiStarted = s.servingApiStarted
  /-- The flags for the processes. -/
  currentApiStopped : s'.currentApiStopped = s.currentApiStopped
  /-- The flags for the processes. -/
  currentApiStopAttempted : s'.currentApiStopAttempted = s.currentApiStopAttempted

/-- What a call leaves that keeps the marker. -/
structure Steady (s s' : Lifecycle) : Prop where
  /-- The marker and the commands. -/
  since : Since s s'
  /-- The flags still know of every process. -/
  known : Known s'

/-- A command that starts no process and does not stop the current one. -/
theorem Steady.ran {s s' : Lifecycle} (h : Steady s s') {command : Command} {restores : Bool}
    (hc : restores = true ∨ command ∉ [.startValidationApi, .startServingApi, .stopCurrentApi])
    (passed : Bool) : Steady s (s'.ran command restores passed) := by
  refine ⟨h.since.ran command restores passed, h.known.ran ?_ ?_ ?_ passed⟩ <;>
    rintro ⟨rfl, rfl⟩ <;> simp at hc

/-- What an `abort` that returns leaves. -/
structure Returned (s s' : Lifecycle) : Prop where
  /-- The commands. -/
  log : ∃ new, s'.log = s.log ++ new ∧ ∀ e ∈ new, e.marker = s.marker
  /-- The marker is gone. -/
  marker : s'.marker = false
  /-- The flags still know of every process. -/
  known : Known s'
  /-- A stable process runs. -/
  stable : (Processes.after s'.log).stable = true
  /-- No serving process of the candidate may be alive. -/
  serving : (Processes.after s'.log).serving = false

namespace Aborting

variable {s s' : Lifecycle}

theorem refl (s : Lifecycle) : Aborting s s := ⟨.refl s, rfl, rfl, rfl, rfl, rfl⟩

theorem known (h : Aborting s s') (hk : Known s) : Known s' := by
  constructor
  · rw [h.processes, h.apiStarted]
    exact hk.validation
  · rw [h.processes, h.servingApiStarted]
    exact hk.serving
  · rw [h.processes, h.currentApiStopAttempted]
    exact hk.stable

/-- A traffic command. -/
theorem ran (h : Aborting s s') {command : Command} (hc : command = .freezeTraffic ∨
    command = .openTraffic) (passed : Bool) : Aborting s (s'.ran command false passed) := by
  refine ⟨h.since.ran command false passed, ?_, h.apiStarted, h.servingApiStarted,
    h.currentApiStopped, h.currentApiStopAttempted⟩
  rw [Lifecycle.after_ran, ← h.processes]
  rcases hc with rfl | rfl <;> rfl

theorem closed (h : Aborting s s') : Aborting s { s' with trafficOpened := false } :=
  ⟨h.since.of_eq rfl rfl, h.processes, h.apiStarted, h.servingApiStarted, h.currentApiStopped,
    h.currentApiStopAttempted⟩

theorem steady (h : Aborting s s') (hk : Known s) : Steady s s' := ⟨h.since, h.known hk⟩

end Aborting

/-- A traffic command of an `abort`. -/
theorem traffic_ensures {s : Lifecycle} (hk : Known s) {command : Command}
    (hc : command = .freezeTraffic ∨ command = .openTraffic) (outcome : Outcome) (error : String) :
    Ensures (Aborting s) (mustPass command false outcome error) (fun _ => Aborting s)
      (fun _ => Steady s) :=
  mustPass_ensures (fun _ h _ => h.ran hc true) (fun _ h _ => (h.ran hc false).steady hk)
    fun _ h _ => h.steady hk

theorem reopenTraffic_ensures {s : Lifecycle} (hk : Known s) (o : AbortOutcomes) :
    Ensures (Aborting s) (reopenTraffic o) (fun _ => Aborting s) (fun _ => Steady s) := by
  refine Ensures.bind (Q := fun _ => Aborting s) (Ensures.read fun _ h => h) fun s₁ => ?_
  refine Ensures.ite (fun _ => ?_) fun _ => Ensures.pure fun _ h => h
  exact Ensures.bind (traffic_ensures hk (.inr rfl) _ _)
    fun _ => Ensures.update fun _ h => h.closed

theorem refreezeTraffic_ensures {s : Lifecycle} (hk : Known s) (o : AbortOutcomes) :
    Ensures (Aborting s) (refreezeTraffic o) (fun _ => Aborting s) (fun _ => Steady s) := by
  refine Ensures.bind (Q := fun _ => Aborting s) (Ensures.read fun _ h => h) fun s₁ => ?_
  refine Ensures.ite (fun _ => ?_) fun _ => Ensures.pure fun _ h => h
  exact Ensures.bind (traffic_ensures hk (.inl rfl) _ _)
    fun _ => Ensures.update fun _ h => h.closed

theorem preserveCurrent_ensures {s : Lifecycle} (hk : Known s) (hserve : s.servingApiStarted = false)
    (o : AbortOutcomes) :
    Ensures (Aborting s) (preserveCurrent o) (fun _ s' => Returned s s' ∧
      Processes.after s'.log = Processes.after s.log) (fun _ => Steady s) := by
  refine Ensures.bind (Q := fun a s' => a = s' ∧ Aborting s s')
    (Ensures.read fun _ h => ⟨rfl, h⟩) fun s₁ => ?_
  refine Ensures.bind (Q := fun _ s' => s.currentApiStopAttempted = false ∧ Aborting s s')
    (Ensures.check (fun s' h hno => ?_) fun s' h _ => h.2.steady hk) fun _ => ?_
  · obtain ⟨rfl, h⟩ := h
    rw [← h.currentApiStopAttempted]
    exact ⟨hno, h⟩
  refine Ensures.bind (Q := fun _ s' => s.currentApiStopAttempted = false ∧ Aborting s s')
    ?_ fun _ => ?_
  · intro s' hs
    obtain ⟨hok, herr⟩ := reopenTraffic_ensures hk o s' hs.2
    exact ⟨fun a s'' h => ⟨hs.1, hok a s'' h⟩, herr⟩
  refine Ensures.bind (Q := fun _ s' => Returned s s' ∧
    Processes.after s'.log = Processes.after s.log) (Ensures.update fun s' h => ?_)
    fun _ => Ensures.pure fun _ h => h
  obtain ⟨hno, h⟩ := h
  have hstable : (Processes.after s.log).stable = true := by
    rw [← Bool.not_eq_false]
    intro hv
    rw [hk.stable hv] at hno
    cases hno
  have hserving : (Processes.after s.log).serving = false := by
    rw [Bool.eq_false_iff]
    intro hv
    rw [hk.serving hv] at hserve
    cases hserve
  have hk' := h.known hk
  refine ⟨⟨h.since.log, rfl, ⟨hk'.validation, hk'.serving, hk'.stable⟩, ?_, ?_⟩, h.processes⟩
  · rw [← hstable, ← h.processes]
  · rw [← hserving, ← h.processes]

/-! ### The other exit -/

/-- The serving process is stopped. -/
structure Unserved (s s' : Lifecycle) : Prop extends Steady s s' where
  /-- No serving process may be alive. -/
  serving : (Processes.after s'.log).serving = false

/-- So is the validation process. -/
structure Unvalidated (s s' : Lifecycle) : Prop extends Unserved s s' where
  /-- No validation process may be alive. -/
  validation : (Processes.after s'.log).validation = false

theorem stopServingIfStarted_ensures (s : Lifecycle) (o : AbortOutcomes) :
    Ensures (Steady s) (stopServingIfStarted o) (fun _ => Unserved s) (fun _ => Steady s) := by
  refine Ensures.bind (Q := fun a s' => a = s' ∧ Steady s s')
    (Ensures.read fun _ h => ⟨rfl, h⟩) fun s₁ => ?_
  refine Ensures.ite (fun _ => ?_) fun hno => Ensures.pure fun s' h => ?_
  · refine Ensures.bind (Q := fun _ => Unserved s) ?_ fun _ => Ensures.update fun s' h => ?_
    · refine mustPass_ensures (fun s' h _ => ⟨h.2.ran (.inr (by decide)) true, ?_⟩)
        (fun s' h _ => h.2.ran (.inr (by decide)) false) fun _ h _ => h.2
      rw [Lifecycle.after_ran]
      exact Bool.and_false _
    · refine ⟨⟨h.since.of_eq rfl rfl, h.known.validation, fun hv => ?_, h.known.stable⟩, h.serving⟩
      rw [h.serving] at hv
      cases hv
  · obtain ⟨rfl, h⟩ := h
    refine ⟨h, ?_⟩
    rw [Bool.eq_false_iff]
    exact fun hv => hno (h.known.serving hv)

theorem stopValidationIfStarted_ensures (s : Lifecycle) (o : AbortOutcomes) :
    Ensures (Unserved s) (stopValidationIfStarted o) (fun _ => Unvalidated s)
      (fun _ => Steady s) := by
  refine Ensures.bind (Q := fun a s' => a = s' ∧ Unserved s s')
    (Ensures.read fun _ h => ⟨rfl, h⟩) fun s₁ => ?_
  refine Ensures.ite (fun _ => ?_) fun hno => Ensures.pure fun s' h => ?_
  · refine Ensures.bind (Q := fun _ => Unvalidated s) ?_ fun _ => Ensures.update fun s' h => ?_
    · refine mustPass_ensures (fun s' h _ => ?_)
        (fun s' h _ => h.2.toSteady.ran (.inr (by decide)) false) fun _ h _ => h.2.toSteady
      refine ⟨⟨h.2.toSteady.ran (.inr (by decide)) true, ?_⟩, ?_⟩
      · rw [Lifecycle.after_ran]
        exact h.2.serving
      · rw [Lifecycle.after_ran]
        exact Bool.and_false _
    · refine ⟨⟨⟨h.since.of_eq rfl rfl, fun hv => ?_, h.known.serving, h.known.stable⟩, h.serving⟩,
        h.validation⟩
      rw [h.validation] at hv
      cases hv
  · obtain ⟨rfl, h⟩ := h
    refine ⟨h, ?_⟩
    rw [Bool.eq_false_iff]
    exact fun hv => hno (h.known.validation hv)

theorem restorePrevious_ensures (s : Lifecycle) (o : AbortOutcomes) :
    Ensures (Steady s) (restorePrevious o) (fun _ s' => Returned s s' ∧
      (Processes.after s'.log).validation = false) (fun _ => Steady s) := by
  refine Ensures.bind (Q := fun _ => Steady s) (Ensures.read fun _ h => h) fun s₁ => ?_
  refine Ensures.bind (stopServingIfStarted_ensures s o) fun _ => ?_
  refine Ensures.bind (stopValidationIfStarted_ensures s o) fun _ => ?_
  refine Ensures.bind (Q := fun _ s' => Unvalidated s s' ∧ (Processes.after s'.log).stable = true)
    ?_ fun _ => ?_
  · refine mustPass_ensures (fun s' h _ => ?_)
      (fun s' h _ => h.toSteady.ran (.inl rfl) false) fun _ h _ => h.toSteady
    refine ⟨⟨⟨h.toSteady.ran (.inl rfl) true, ?_⟩, ?_⟩, ?_⟩
    · rw [Lifecycle.after_ran]
      exact h.serving
    · rw [Lifecycle.after_ran]
      exact h.validation
    · rw [Lifecycle.after_ran]
      exact Bool.or_true _
  refine Ensures.bind (Q := fun _ s' => Unvalidated s s' ∧
    (Processes.after s'.log).stable = true) (Ensures.check (fun _ h _ => h)
      fun _ h _ => h.1.toSteady) fun _ => ?_
  refine Ensures.bind (Q := fun _ s' => Returned s s' ∧
    (Processes.after s'.log).validation = false) (Ensures.update fun s' h => ?_)
    fun _ => Ensures.pure fun _ h => h
  obtain ⟨h, hstable⟩ := h
  have hknown : Known { s' with marker := false, active := false } :=
    ⟨h.known.validation, h.known.serving, h.known.stable⟩
  exact ⟨⟨h.since.log, rfl, hknown, hstable, h.serving⟩, h.validation⟩

/-! ### Both exits -/

/-- `abort` takes the preserving exit. -/
def Preserves (s : Lifecycle) : Prop := s.currentApiStopped = false ∧ s.servingApiStarted = false

/-- What an `abort` that returns leaves: with the preserving exit the processes are as before, and
with the other one no validation process is alive. -/
theorem abort_ensures {s : Lifecycle} (hk : Known s) (o : AbortOutcomes) :
    Ensures (fun s' => s' = s) (abort o)
      (fun _ s' => Returned s s' ∧
        (Preserves s → Processes.after s'.log = Processes.after s.log) ∧
        (¬ Preserves s → (Processes.after s'.log).validation = false))
      (fun _ => Steady s) := by
  refine (Ensures.bind (refreezeTraffic_ensures hk o) fun _ => ?_).conseq
    (fun s' (h : s' = s) => h ▸ Aborting.refl s) (fun _ _ h => h) fun _ _ h => h
  refine Ensures.bind (Q := fun a s' => a = s' ∧ Aborting s s')
    (Ensures.read fun _ h => ⟨rfl, h⟩) fun s₁ => Ensures.ite (fun hexit => ?_) fun hexit => ?_
  · have hpres : Preserves s₁ := by simpa [Preserves] using hexit
    intro s' hs'
    obtain ⟨rfl, h⟩ := hs'
    obtain ⟨hok, herr⟩ := preserveCurrent_ensures hk (h.servingApiStarted ▸ hpres.2) o s₁ h
    refine ⟨fun a s'' hr => ?_, herr⟩
    obtain ⟨hret, hproc⟩ := hok a s'' hr
    refine ⟨hret, fun _ => hproc, fun hno => absurd ?_ hno⟩
    exact ⟨h.currentApiStopped ▸ hpres.1, h.servingApiStarted ▸ hpres.2⟩
  · have hpres : ¬ Preserves s₁ := by simpa [Preserves] using hexit
    intro s' hs'
    obtain ⟨rfl, h⟩ := hs'
    obtain ⟨hok, herr⟩ := restorePrevious_ensures s o s₁ (h.steady hk)
    refine ⟨fun a s'' hr => ?_, herr⟩
    obtain ⟨hret, hval⟩ := hok a s'' hr
    refine ⟨hret, fun hp => absurd ?_ hpres, fun _ => hval⟩
    exact ⟨h.currentApiStopped.trans hp.1, h.servingApiStarted.trans hp.2⟩

/-! ### When the preserving exit is left -/

/-- What the preserving exit checks: no stop of the current process was attempted, opened traffic is
frozen again, and frozen traffic is opened. -/
def Reopens (s : Lifecycle) (o : AbortOutcomes) : Prop :=
  s.currentApiStopAttempted = false ∧
    (s.trafficOpened = true → o.command .freezeTraffic = .passed) ∧
    (s.active = true ∨ s.marker = true → o.command .openTraffic = .passed)

/-- Some traffic commands ran. -/
def Rerouted (s s' : Lifecycle) : Prop :=
  ∃ opened log, s' = { s with trafficOpened := opened, log := log }

theorem refreezeTraffic_returns (s : Lifecycle) (o : AbortOutcomes) :
    Ensures (fun s' => s' = s) (refreezeTraffic o)
      (fun _ s' => Rerouted s s' ∧ (s.trafficOpened = true → o.command .freezeTraffic = .passed))
      (fun _ _ => ¬ Reopens s o) := by
  refine Ensures.bind (Q := fun a s' => a = s ∧ s' = s) (Ensures.read fun _ h => ⟨h, h⟩)
    fun s₁ => Ensures.ite (fun hopen => ?_) fun hopen => Ensures.pure fun s' h => ?_
  · refine Ensures.bind (Q := fun _ s' => Rerouted s s' ∧ o.command .freezeTraffic = .passed)
      (mustPass_ensures (fun s' h hpass => ?_) (fun s' h hne hre => ?_) fun s' h hne hre => ?_)
      fun _ => Ensures.update fun s' h => ?_
    · exact ⟨⟨_, _, by rw [h.2]; rfl⟩, hpass⟩
    · exact hne (hre.2.1 (h.1 ▸ hopen))
    · exact hne (hre.2.1 (h.1 ▸ hopen))
    · obtain ⟨⟨opened, log, rfl⟩, hpass⟩ := h
      exact ⟨⟨_, _, rfl⟩, fun _ => hpass⟩
  · exact ⟨⟨s'.trafficOpened, s'.log, by rw [h.2]⟩, fun ho => absurd (h.1 ▸ ho) hopen⟩

theorem reopenTraffic_returns (s : Lifecycle) (o : AbortOutcomes) :
    Ensures (Rerouted s) (reopenTraffic o)
      (fun _ _ => s.active = true ∨ s.marker = true → o.command .openTraffic = .passed)
      (fun _ _ => ¬ Reopens s o) := by
  refine Ensures.bind (Q := fun a _ => Rerouted s a) (Ensures.read fun _ h => h)
    fun s₁ => Ensures.ite (fun hopen => ?_) fun hopen => Ensures.pure fun s' h => ?_
  · refine Ensures.bind (Q := fun _ _ => o.command .openTraffic = .passed)
      (mustPass_ensures (fun s' h hpass => hpass) (fun s' h hne hre => ?_)
        fun s' h hne hre => ?_) fun _ => Ensures.update fun s' h _ => h
    all_goals
      obtain ⟨opened, log, rfl⟩ := h
      exact hne (hre.2.2 hopen)
  · obtain ⟨opened, log, rfl⟩ := h
    exact fun ho => absurd ho hopen

theorem abort_returns {s : Lifecycle} (hp : Preserves s) (o : AbortOutcomes) :
    Ensures (fun s' => s' = s) (abort o) (fun _ _ => Reopens s o) (fun _ _ => ¬ Reopens s o) := by
  refine Ensures.bind (refreezeTraffic_returns s o) fun _ => ?_
  refine Ensures.bind (Q := fun a s' => Rerouted s a ∧ Rerouted s s' ∧
    (s.trafficOpened = true → o.command .freezeTraffic = .passed))
    (Ensures.read fun _ h => ⟨h.1, h⟩) fun s₁ => Ensures.ite (fun _ => ?_) fun hexit => ?_
  · refine Ensures.bind (Q := fun a s' => Rerouted s a ∧ Rerouted s s' ∧
      (s.trafficOpened = true → o.command .freezeTraffic = .passed))
      (Ensures.read fun _ h => ⟨h.2.1, h.2⟩) fun s₂ => ?_
    refine Ensures.bind (Q := fun _ s' => Rerouted s s' ∧ s.currentApiStopAttempted = false ∧
      (s.trafficOpened = true → o.command .freezeTraffic = .passed))
      (Ensures.check (fun s' h hno => ?_) fun s' h hno hre => ?_) fun _ => ?_
    · obtain ⟨⟨opened, log, rfl⟩, h⟩ := h
      exact ⟨h.1, hno, h.2⟩
    · obtain ⟨⟨opened, log, rfl⟩, h⟩ := h
      exact hno hre.1
    refine Ensures.bind (Q := fun _ _ => Reopens s o) (fun s' h => ?_)
      fun _ => Ensures.bind (Q := fun _ _ => Reopens s o) (Ensures.update fun _ h => h)
        fun _ => Ensures.pure fun _ h => h
    obtain ⟨hok, herr⟩ := reopenTraffic_returns s o s' h.1
    exact ⟨fun a s'' hr => ⟨h.2.1, h.2.2, hok a s'' hr⟩, herr⟩
  · intro s' h
    obtain ⟨opened, log, rfl⟩ := h.1
    simp [hp.1, hp.2] at hexit

/-- `abort` takes the preserving exit, returns, and a validation process may be alive. -/
def Strands (s : Lifecycle) (o : AbortOutcomes) : Prop :=
  Preserves s ∧ Reopens s o ∧ (Processes.after s.log).validation = true

/-- An `abort` that returns leaves a validation process alive exactly when it strands one. -/
theorem abort_validation {s : Lifecycle} (hk : Known s) (o : AbortOutcomes) :
    Strands s o ↔ ∃ r s', abort o s = (.ok r, s') ∧
      (Processes.after s'.log).validation = true := by
  constructor
  · rintro ⟨hp, hre, hval⟩
    rcases hrun : abort o s with ⟨e | r, s'⟩
    · exact absurd hre ((abort_returns hp o s rfl).2 e s' hrun)
    · obtain ⟨_, hsame, _⟩ := (abort_ensures hk o s rfl).1 r s' hrun
      exact ⟨r, s', rfl, by rw [hsame hp, hval]⟩
  · rintro ⟨r, s', hrun, hval⟩
    obtain ⟨_, hsame, hno⟩ := (abort_ensures hk o s rfl).1 r s' hrun
    have hp : Preserves s := by
      by_contra hp
      rw [hno hp] at hval
      cases hval
    exact ⟨hp, (abort_returns hp o s rfl).1 r s' hrun, by rw [← hsame hp, hval]⟩

/-! ## One call -/

/-- What a call leaves that takes the marker away: the commands ran with it. -/
structure Thawed (s s' : Lifecycle) : Prop where
  /-- The commands. -/
  log : ∃ new, s'.log = s.log ++ new ∧ ∀ e ∈ new, e.marker = s.marker
  /-- The flags still know of every process. -/
  known : Known s'

theorem Steady.of_eq {s s' : Lifecycle} (hk : Known s) (h : s' = s) : Steady s s' := by
  subst h
  exact ⟨.refl s', hk⟩

/-- A flag that is set before the command. -/
theorem Steady.flag {s s' : Lifecycle} (hk : Known s) (hm : s'.marker = s.marker)
    (hl : s'.log = s.log) (hv : s.apiStarted = true → s'.apiStarted = true)
    (hs : s.servingApiStarted = true → s'.servingApiStarted = true)
    (hc : s.currentApiStopAttempted = true → s'.currentApiStopAttempted = true) : Steady s s' := by
  refine ⟨(Since.refl s).of_eq hm hl, ?_, ?_, ?_⟩
  · rw [hl]
    exact fun h => hv (hk.validation h)
  · rw [hl]
    exact fun h => hs (hk.serving h)
  · rw [hl]
    exact fun h => hc (hk.stable h)

/-- A command that has to pass, and the flag that is set after it. -/
theorem mustPass_update_ensures {s : Lifecycle} {P : Lifecycle → Prop} {command : Command}
    {outcome : Outcome} {error : String} {f : Lifecycle → Lifecycle} (hp : ∀ s', P s' → Steady s s')
    (hran : ∀ s' passed, P s' → Steady s (s'.ran command false passed))
    (hset : ∀ s', P s' → Steady s (f (s'.ran command false true))) :
    Ensures P (mustPass command false outcome error >>= fun _ => update f) (fun _ => Steady s)
      (fun _ => Steady s) :=
  Ensures.bind (Q := fun _ s' => Steady s (f s'))
    (mustPass_ensures (fun s' h _ => hset s' h) (fun s' h _ => hran s' false h) fun s' h _ => hp s' h)
    fun _ => Ensures.update fun _ h => h

theorem startValidationApi_ensures {s : Lifecycle} (hk : Known s) (outcome : Outcome) :
    Ensures (fun s' => s' = s) (startValidationApi outcome) (fun _ => Steady s)
      (fun _ => Steady s) := by
  have hran : ∀ s' passed, Steady s s' ∧ s'.apiStarted = true →
      Steady s (s'.ran .startValidationApi false passed) := by
    rintro s' passed ⟨h, hflag⟩
    refine ⟨h.since.ran _ _ _, h.known.ran (fun _ => hflag) ?_ ?_ passed⟩
    all_goals exact fun hc => nomatch hc.2
  refine Ensures.bind (Q := fun _ s' => Steady s s' ∧ s'.apiStarted = true)
    (Ensures.update fun s' h => ?_) fun _ => mustPass_ensures (fun s' h _ => hran s' true h)
      (fun s' h _ => hran s' false h) fun _ h _ => h.1
  subst h
  exact ⟨Steady.flag hk rfl rfl (fun _ => rfl) id id, rfl⟩

theorem startServingApi_ensures {s : Lifecycle} (hk : Known s) (outcome : Outcome) :
    Ensures (fun s' => s' = s) (startServingApi outcome) (fun _ => Steady s)
      (fun _ => Steady s) := by
  have hran : ∀ s' passed, Steady s s' ∧ s'.servingApiStarted = true →
      Steady s (s'.ran .startServingApi false passed) := by
    rintro s' passed ⟨h, hflag⟩
    refine ⟨h.since.ran _ _ _, h.known.ran ?_ (fun _ => hflag) ?_ passed⟩
    all_goals exact fun hc => nomatch hc.2
  refine Ensures.bind (Q := fun _ s' => Steady s s' ∧ s'.servingApiStarted = true)
    (Ensures.update fun s' h => ?_) fun _ => mustPass_ensures (fun s' h _ => hran s' true h)
      (fun s' h _ => hran s' false h) fun _ h _ => h.1
  subst h
  exact ⟨Steady.flag hk rfl rfl id (fun _ => rfl) id, rfl⟩

theorem stopCurrentApi_ensures {s : Lifecycle} (hk : Known s) (managed : Bool) (outcome : Outcome) :
    Ensures (fun s' => s' = s) (stopCurrentApi managed outcome) (fun _ => Steady s)
      (fun _ => Steady s) := by
  have hran : ∀ s' passed, Steady s s' ∧ s'.currentApiStopAttempted = true →
      Steady s (s'.ran .stopCurrentApi false passed) := by
    rintro s' passed ⟨h, hflag⟩
    refine ⟨h.since.ran _ _ _, h.known.ran ?_ ?_ (fun _ => hflag) passed⟩
    all_goals exact fun hc => nomatch hc.2
  refine Ensures.bind (Q := fun _ s' => Steady s s' ∧ s'.currentApiStopAttempted = true)
    (Ensures.update fun s' h => ?_) fun _ => mustPass_update_ensures (fun _ h => h.1) hran
      fun s' h => ?_
  · subst h
    exact ⟨Steady.flag hk rfl rfl id id fun _ => rfl, rfl⟩
  · have hs := hran s' true h
    exact ⟨hs.since.of_eq rfl rfl, hs.known.validation, hs.known.serving, hs.known.stable⟩

theorem stopValidationApi_ensures {s : Lifecycle} (hk : Known s) (outcome : Outcome) :
    Ensures (fun s' => s' = s) (stopValidationApi outcome) (fun _ => Steady s)
      (fun _ => Steady s) := by
  refine mustPass_update_ensures (fun _ h => Steady.of_eq hk h)
    (fun s' passed h => (Steady.of_eq hk h).ran (.inr (by decide)) passed) fun s' h => ?_
  have hs : Steady s (s'.ran .stopValidationApi false true) :=
    (Steady.of_eq hk h).ran (.inr (by decide)) true
  refine ⟨hs.since.of_eq rfl rfl, fun hv => ?_, hs.known.serving, hs.known.stable⟩
  -- the stop passed, so no validation process is alive and the flag may go
  rw [Lifecycle.after_ran] at hv
  exact absurd (Bool.and_eq_true_iff.1 hv).2 Bool.false_ne_true

theorem stopServingApi_ensures {s : Lifecycle} (hk : Known s) (outcome : Outcome) :
    Ensures (fun s' => s' = s) (stopServingApi outcome) (fun _ => Steady s)
      (fun _ => Steady s) := by
  refine mustPass_update_ensures (fun _ h => Steady.of_eq hk h)
    (fun s' passed h => (Steady.of_eq hk h).ran (.inr (by decide)) passed) fun s' h => ?_
  have hs : Steady s (s'.ran .stopServingApi false true) :=
    (Steady.of_eq hk h).ran (.inr (by decide)) true
  refine ⟨hs.since.of_eq rfl rfl, hs.known.validation, fun hv => ?_, hs.known.stable⟩
  rw [Lifecycle.after_ran] at hv
  exact absurd (Bool.and_eq_true_iff.1 hv).2 Bool.false_ne_true

theorem openTraffic_ensures {s : Lifecycle} (hk : Known s) (outcome : Outcome) :
    Ensures (fun s' => s' = s) (openTraffic outcome) (fun _ => Steady s) (fun _ => Steady s) := by
  refine mustPass_update_ensures (fun _ h => Steady.of_eq hk h)
    (fun s' passed h => (Steady.of_eq hk h).ran (.inr (by decide)) passed) fun s' h => ?_
  have hs : Steady s (s'.ran .openTraffic false true) :=
    (Steady.of_eq hk h).ran (.inr (by decide)) true
  exact ⟨hs.since.of_eq rfl rfl, hs.known.validation, hs.known.serving, hs.known.stable⟩

theorem finalizeTrafficOpen_ensures {s : Lifecycle} (hk : Known s) :
    Ensures (fun s' => s' = s) finalizeTrafficOpen (fun _ => Thawed s) (fun _ => Steady s) := by
  refine Ensures.bind (Q := fun _ s' => s' = s) (Ensures.read fun _ h => h) fun s₁ => ?_
  refine Ensures.bind (Q := fun _ s' => s' = s) (Ensures.check (fun _ h _ => h)
    fun s' h _ => Steady.of_eq hk h) fun _ => Ensures.update fun s' h => ?_
  subst h
  exact ⟨(Since.refl s').log, hk.validation, hk.serving, hk.stable⟩

/-! ## Runs -/

/-- What is promised of one call, in a state of a run and with whether writes are frozen there. -/
structure SafeCall (st : Lifecycle × Bool) (c : Call) : Prop where
  /-- While writes are frozen the marker is there before the call, -/
  before : st.2 = true → st.1.marker = true
  /-- while its commands run, -/
  during : st.2 = true → ∃ new, (c.method st.1).2.log = st.1.log ++ new ∧
    ∀ e ∈ new, e.marker = true
  /-- and after it. -/
  after : (exec st c).2 = true → (exec st c).1.marker = true
  /-- An `abort` that returns leaves a stable process and no process of the candidate. -/
  returned : ∀ s o, c.aborting st.1 = some (s, o) → ∀ r s', abort o s = (.ok r, s') →
    Processes.after s'.log = ⟨false, false, true⟩
  /-- An `abort` that raises leaves the marker there was. -/
  raised : ∀ s o, c.aborting st.1 = some (s, o) → ∀ e s', abort o s = (.error e, s') →
    s.marker = true → s'.marker = true

/-- The `abort` a call runs, if any, does not strand a validation process. -/
def StopsValidation (st : Lifecycle × Bool) (c : Call) : Prop :=
  ∀ s o, c.aborting st.1 = some (s, o) → ¬ Strands s o

/-- The flags know of every process, and while writes are frozen the marker is there. -/
def RunOk (st : Lifecycle × Bool) : Prop := Known st.1 ∧ (st.2 = true → st.1.marker = true)

theorem init_runOk (marker : Bool) : RunOk (init marker, false) :=
  ⟨⟨nofun, nofun, nofun⟩, nofun⟩

/-- The state in which a `freeze` whose command failed aborts. -/
def Lifecycle.freezing (s : Lifecycle) : Lifecycle :=
  ({ s with marker := true, active := true } : Lifecycle).ran .freezeTraffic false false

theorem Known.freezing {s : Lifecycle} (hk : Known s) (passed : Bool) :
    Known (({ s with marker := true, active := true } : Lifecycle).ran
      .freezeTraffic false passed) := by
  have hk' : Known { s with marker := true, active := true } :=
    ⟨hk.validation, hk.serving, hk.stable⟩
  refine hk'.ran ?_ ?_ ?_ passed
  all_goals exact fun hc => nomatch hc.2

/-- A `freeze` whose command failed raises after its `abort`. -/
theorem freeze_failed (s : Lifecycle) (o : AbortOutcomes) :
    (freeze .failed o s).1.isOk = false ∧ (freeze .failed o s).2 = (abort o s.freezing).2 := by
  have hrun : freeze .failed o s =
      Stateful.andThen (abort o) (fun _ => raise "freeze_traffic failed") s.freezing := rfl
  rcases hab : abort o s.freezing with ⟨e | r, s'⟩
  · rw [hrun, Stateful.andThen, hab]
    exact ⟨rfl, rfl⟩
  · rw [hrun, Stateful.andThen, hab]
    exact ⟨rfl, rfl⟩

theorem aborting_known {s s₁ : Lifecycle} {c : Call} {o : AbortOutcomes} (hk : Known s)
    (hc : c.aborting s = some (s₁, o)) : Known s₁ := by
  cases c with
  | abort o' =>
    cases hc
    exact hk
  | freeze outcome o' =>
    cases outcome with
    | failed =>
      cases hc
      exact hk.freezing false
    | passed => cases hc
    | notConfigured => cases hc
    | invalid => cases hc
  | _ => cases hc

/-- What a call leaves: the flags know of every process, the commands ran with the marker if it was
there, and what is still frozen after it has its marker. -/
structure Leaves (st : Lifecycle × Bool) (c : Call) : Prop where
  /-- The flags. -/
  known : Known (c.method st.1).2
  /-- The commands. -/
  log : st.1.marker = true → ∃ new, (c.method st.1).2.log = st.1.log ++ new ∧
    ∀ e ∈ new, e.marker = true
  /-- The marker. -/
  marker : (st.2 = true → st.1.marker = true) → (exec st c).2 = true →
    (c.method st.1).2.marker = true

/-- A call that keeps the marker. -/
theorem Leaves.of_steady {st : Lifecycle × Bool} {c : Call} (hs : Steady st.1 (c.method st.1).2)
    (hf : (exec st c).2 = true → st.2 = true) : Leaves st c := by
  obtain ⟨new, hlog, hnew⟩ := hs.since.log
  refine ⟨hs.known, fun hm => ⟨new, hlog, fun e he => (hnew e he).trans hm⟩, fun hm he => ?_⟩
  exact hs.since.marker.trans (hm (hf he))

/-- A call that takes the marker away after its commands, and ends the freeze. -/
theorem Leaves.of_log {st : Lifecycle × Bool} {c : Call} (hk : Known (c.method st.1).2)
    (hl : ∃ new, (c.method st.1).2.log = st.1.log ++ new ∧ ∀ e ∈ new, e.marker = st.1.marker)
    (hf : (exec st c).2 = false) : Leaves st c := by
  obtain ⟨new, hlog, hnew⟩ := hl
  refine ⟨hk, fun hm => ⟨new, hlog, fun e he => (hnew e he).trans hm⟩, fun _ he => ?_⟩
  rw [hf] at he
  cases he

theorem leaves_finalizeTrafficOpen {st : Lifecycle × Bool} (hk : Known st.1) :
    Leaves st .finalizeTrafficOpen := by
  obtain ⟨hok, herr⟩ := finalizeTrafficOpen_ensures hk st.1 rfl
  rcases hrun : finalizeTrafficOpen st.1 with ⟨e | r, s'⟩
  · have hstate : (Call.finalizeTrafficOpen.method st.1).2 = s' := congrArg Prod.snd hrun
    exact .of_steady (hstate ▸ herr e s' hrun) fun hf => (Bool.and_eq_true_iff.1 hf).1
  · have hrun' : Call.finalizeTrafficOpen.method st.1 = (.ok r, s') := hrun
    have hthawed := hok r s' hrun
    refine .of_log (by rw [hrun']; exact hthawed.known) (by rw [hrun']; exact hthawed.log) ?_
    simp [exec, Call.returns, hrun', Except.isOk, Except.toBool]

theorem leaves_abort {st : Lifecycle × Bool} (hk : Known st.1) (o : AbortOutcomes) :
    Leaves st (.abort o) := by
  obtain ⟨hok, herr⟩ := abort_ensures hk o st.1 rfl
  have hmethod : (Call.abort o).method st.1 =
      Stateful.andThen (UpgradeLifecycle.abort o) (fun _ => ret ()) st.1 := rfl
  rcases hrun : UpgradeLifecycle.abort o st.1 with ⟨e | r, s'⟩
  · have hrun' : (Call.abort o).method st.1 = (.error e, s') := by
      rw [hmethod, Stateful.andThen, hrun]
    refine .of_steady ?_ fun hf => (Bool.and_eq_true_iff.1 hf).1
    rw [hrun']
    exact herr e s' hrun
  · have hrun' : (Call.abort o).method st.1 = (.ok (), s') := by
      rw [hmethod, Stateful.andThen, hrun]
      rfl
    have hret := (hok r s' hrun).1
    refine .of_log (by rw [hrun']; exact hret.known) (by rw [hrun']; exact hret.log) ?_
    simp [exec, Call.returns, hrun', Except.isOk, Except.toBool]

theorem leaves_freeze {st : Lifecycle × Bool} (hk : Known st.1) (outcome : Outcome)
    (o : AbortOutcomes) : Leaves st (.freeze outcome o) := by
  cases outcome with
  | passed => exact ⟨hk.freezing true, fun _ => ⟨[_], rfl, by simp⟩, fun _ _ => rfl⟩
  | failed =>
    obtain ⟨hraise, hstate⟩ := freeze_failed st.1 o
    obtain ⟨hok, herr⟩ := abort_ensures (hk.freezing false : Known st.1.freezing) o st.1.freezing rfl
    -- the failed command comes before those of the `abort`
    have hlog : ∀ s' : Lifecycle, (∃ new, s'.log = st.1.freezing.log ++ new ∧
        ∀ e ∈ new, e.marker = st.1.freezing.marker) →
        ∃ new, s'.log = st.1.log ++ new ∧ ∀ e ∈ new, e.marker = true := by
      rintro s' ⟨new, hlog, hnew⟩
      refine ⟨⟨.freezeTraffic, false, false, true⟩ :: new, hlog.trans (by simp [Lifecycle.freezing,
        Lifecycle.ran]), fun e he => ?_⟩
      rcases List.mem_cons.1 he with rfl | he
      · rfl
      · exact hnew e he
    rcases hrun : UpgradeLifecycle.abort o st.1.freezing with ⟨e | r, s'⟩
    · have hs := herr e s' hrun
      rw [hrun] at hstate
      refine ⟨hstate ▸ hs.known, fun _ => hlog _ (hstate ▸ hs.since.log), fun _ _ => ?_⟩
      exact hstate ▸ hs.since.marker
    · have hs := (hok r s' hrun).1
      rw [hrun] at hstate
      refine ⟨hstate ▸ hs.known, fun _ => hlog _ (hstate ▸ hs.log), fun _ he => ?_⟩
      have haborted : (Call.freeze .failed o).aborted st.1 = true :=
        congrArg (fun p => p.1.isOk) hrun
      have hreturns : (Call.freeze .failed o).returns st.1 = false := hraise
      simp [exec, haborted, hreturns] at he
  | notConfigured =>
    exact ⟨⟨hk.validation, hk.serving, hk.stable⟩, fun _ => ⟨[], (List.append_nil _).symm, nofun⟩,
      fun _ _ => rfl⟩
  | invalid =>
    exact ⟨⟨hk.validation, hk.serving, hk.stable⟩, fun _ => ⟨[], (List.append_nil _).symm, nofun⟩,
      fun _ _ => rfl⟩

theorem leaves {st : Lifecycle × Bool} (hk : Known st.1) (c : Call) : Leaves st c := by
  cases c with
  | freeze outcome o => exact leaves_freeze hk outcome o
  | finalizeTrafficOpen => exact leaves_finalizeTrafficOpen hk
  | abort o => exact leaves_abort hk o
  | startValidationApi outcome =>
    exact .of_steady ((startValidationApi_ensures hk outcome).final rfl) id
  | stopValidationApi outcome =>
    exact .of_steady ((stopValidationApi_ensures hk outcome).final rfl) id
  | stopCurrentApi managed outcome =>
    exact .of_steady ((stopCurrentApi_ensures hk managed outcome).final rfl) id
  | startServingApi outcome =>
    exact .of_steady ((startServingApi_ensures hk outcome).final rfl) id
  | stopServingApi outcome =>
    exact .of_steady ((stopServingApi_ensures hk outcome).final rfl) id
  | openTraffic outcome => exact .of_steady ((openTraffic_ensures hk outcome).final rfl) id

theorem exec_runOk (st : Lifecycle × Bool) (c : Call) (h : RunOk st) : RunOk (exec st c) :=
  ⟨(leaves h.1 c).known, (leaves h.1 c).marker h.2⟩

/-- **A run is safe exactly when none of its aborts preserves the current process over a validation
process that may be alive**: while writes are frozen the marker is there before, during and after
every call, an `abort` that raises leaves it there, and one that returns leaves a stable process
and no process of the candidate. -/
theorem rollback_safe_iff (marker : Bool) (calls : List Call) :
    Trace.Along exec SafeCall (init marker, false) calls ↔
      Trace.Along exec StopsValidation (init marker, false) calls := by
  refine Trace.along_congr exec_runOk (fun st c h => ?_) (init_runOk marker) calls
  have hl := leaves h.1 c
  constructor
  · intro hsafe s o hc hstrands
    obtain ⟨r, s', hrun, hval⟩ := (abort_validation (aborting_known h.1 hc) o).1 hstrands
    rw [hsafe.returned s o hc r s' hrun] at hval
    cases hval
  · intro hstop
    refine ⟨h.2, fun hf => hl.log (h.2 hf), hl.marker h.2, ?_, ?_⟩
    · intro s o hc r s' hrun
      have hk := aborting_known h.1 hc
      obtain ⟨hret, -, -⟩ := (abort_ensures hk o s rfl).1 r s' hrun
      have hval : (Processes.after s'.log).validation = false := by
        rw [Bool.eq_false_iff]
        exact fun hv => hstop s o hc ((abort_validation hk o).2 ⟨r, s', hrun, hv⟩)
      rcases hp : Processes.after s'.log with ⟨validation, serving, stable⟩
      rw [hp] at hval
      have hserving := hret.serving
      have hstable := hret.stable
      rw [hp] at hserving hstable
      rw [Processes.mk.injEq]
      exact ⟨hval, hserving, hstable⟩
    · intro s o hc e s' hrun hm
      exact ((abort_ensures (aborting_known h.1 hc) o s rfl).2 e s' hrun).since.marker.trans hm

namespace Sample

/-- Every command passes. -/
def passing : AbortOutcomes := ⟨fun _ => .passed, false, false⟩

/-- Writes are frozen, the candidate is started for validation, and the upgrade is given up. -/
def givenUp : List Call := [.freeze .passed passing, .startValidationApi .passed, .abort passing]

end Sample

/-- The `abort` returns, and nothing ever stopped the validation process. -/
theorem givenUp_leaves_candidate :
    (Trace.run exec (init false, false) Sample.givenUp).1.log.map (fun e => e.command.name) =
        ["freeze_traffic", "start_validation_api", "open_traffic"] ∧
      ¬ Trace.Along exec SafeCall (init false, false) Sample.givenUp := by
  refine ⟨by decide +kernel, fun h => ?_⟩
  have hsafe := (h.2.2.1).returned _ _ rfl ⟨true, false, ""⟩ _ rfl
  exact absurd hsafe (by decide +kernel)

end UpgradeLifecycle

end FosCoverage
