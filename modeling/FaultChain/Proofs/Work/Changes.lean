import FaultChain.Proofs.Work.Batch

/-!
# What a batch changes

A batch changes the state only by the steps of its tasks and by what happens outside of it. Where
each of these is a permitted change, so is the whole batch, in whatever order they come.

* `Job.Steps`: a job whose steps are permitted changes.
* `Job.steps_bind`: one job after another.
* `Scheduler.runBatch_changes`: a whole batch.
-/

namespace FaultChain

variable {σ α β : Type} {R : σ → σ → Prop}

namespace Job

/-- Each step of a job is a change that `R` permits, whatever the others do in between. -/
def Steps (R : σ → σ → Prop) : Job σ α → Prop
  | .done _ => True
  | .step act next => ∀ s, R s (act s) ∧ (next s).Steps R

theorem steps_pure (a : α) : (pure a : Job σ α).Steps R := trivial

theorem steps_atomic {f : σ → α × σ} (h : ∀ s, R s (f s).2) : (atomic f).Steps R :=
  fun s => ⟨h s, trivial⟩

theorem steps_look (hrefl : ∀ s, R s s) (f : σ → α) : (look f).Steps R :=
  steps_atomic hrefl

theorem steps_bind {j : Job σ α} {k : α → Job σ β} (hj : j.Steps R) (hk : ∀ a, (k a).Steps R) :
    (j >>= k).Steps R := by
  change (j.bind k).Steps R
  induction j with
  | done a => exact hk a
  | step act next ih =>
    intro s
    exact ⟨(hj s).1, ih s (hj s).2⟩

end Job

namespace Batch

variable {d : Dispatch σ α} {s₀ : σ} {tasks : List (Task σ α)} {b : Batch σ α}

/-- A batch of tasks under way: the state has changed as permitted since it was `s₀`, and what is
left of the running tasks goes on like that. -/
structure Changed (R : σ → σ → Prop) (s₀ : σ) (tasks : List (Task σ α)) (b : Batch σ α) : Prop where
  world : R s₀ b.world
  tasks_eq : b.tasks.map (·.1) = tasks
  rests : ∀ (i : Nat) t rest, b.tasks[i]? = some (t, .running rest) → rest.Steps R

namespace Changed

theorem mem (h : Changed R s₀ tasks b) {i : Nat} {t : Task σ α} {st : TaskState σ α}
    (hat : b.tasks[i]? = some (t, st)) : t ∈ tasks := by
  rw [← h.tasks_eq]
  exact List.mem_map_of_mem (List.mem_of_getElem? hat)

/-- One task gets further. -/
theorem rests_put (h : Changed R s₀ tasks b) (i : Nat) {st : TaskState σ α}
    (hst : ∀ rest, st = .running rest → rest.Steps R) (j : Nat) (t : Task σ α)
    (rest : Job σ (TaskEnd α)) (hat : (b.put i st).tasks[j]? = some (t, .running rest)) :
    rest.Steps R := by
  rw [getElem?_put] at hat
  rcases Option.map_eq_some_iff.mp hat with ⟨⟨t', st'⟩, hold, heq⟩
  split at heq
  · cases heq
    exact hst rest rfl
  · cases heq
    exact h.rests j t rest hold

theorem moves (htrans : ∀ ⦃s s' s''⦄, R s s' → R s' s'' → R s s'') (h : Changed R s₀ tasks b)
    (hbody : ∀ t ∈ tasks, ∀ s, R s₀ s → d.stop s = none → t.body.Steps R) {b' : Batch σ α}
    (hmove : Moves d b b') : Changed R s₀ tasks b' := by
  have htasks : b'.tasks.map (·.1) = tasks := hmove.tasks_eq.trans h.tasks_eq
  -- Tasks act when they advance only; the relation is transitive, so the world stays related.
  cases hmove with
  | idle => exact h
  | refused => exact ⟨h.world, htasks, h.rests_put _ nofun⟩
  | cleared => exact ⟨h.world, htasks, h.rests_put _ nofun⟩
  | admitted => exact ⟨h.world, htasks, h.rests_put _ nofun⟩
  | turned => exact ⟨h.world, htasks, h.rests_put _ nofun⟩
  | finished => exact ⟨h.world, htasks, h.rests_put _ nofun⟩
  | started hat hgo =>
    refine ⟨h.world, htasks, h.rests_put _ ?_⟩
    rintro rest ⟨⟩
    exact hbody _ (h.mem hat) b.world h.world hgo
  | advanced hat =>
    rcases h.rests _ _ _ hat b.world with ⟨hact, hnext⟩
    refine ⟨htrans h.world hact, htasks, h.rests_put _ ?_⟩
    rintro rest ⟨⟩
    exact hnext

end Changed
end Batch

/-- A batch changes the state as permitted if all that happens outside of it does, and the body of
each task that may be started. -/
theorem Scheduler.runBatch_changes (hrefl : ∀ s, R s s)
    (htrans : ∀ ⦃s s' s''⦄, R s s' → R s' s'' → R s s'') (s : Scheduler)
    {stop : σ → Option Failure} (fallback : String → Failure → α)
    {events : List (BatchEvent (σ → σ))} {s₀ : σ} {tasks : List (Task σ α)}
    (hout : ∀ change, .outside change ∈ events → ∀ s', R s' (change s'))
    (hbody : ∀ t ∈ tasks, ∀ s', R s₀ s' → stop s' = none → t.body.Steps R) :
    R s₀ (s.runBatch stop fallback events s₀ tasks).1.world := by
  let d : Dispatch σ α := { limit := s.limit, stop := stop, fallback := fallback }
  let b := ((s.prepare s₀ tasks).runEvents d events).complete d
  have hmoment : Batch.Moment d events (s.prepare s₀ tasks) b := Batch.moment_complete _ _
  have hchanged : Batch.Changed R s₀ tasks b := by
    refine hmoment.induction (P := Batch.Changed R s₀ tasks) ?_ ?_ ?_
    · refine ⟨hrefl s₀, by simp [prepare, Function.comp_def], ?_⟩
      -- No task has been started.
      intro i t rest hat
      simp only [prepare, List.getElem?_map] at hat
      rcases Option.map_eq_some_iff.mp hat with ⟨t', -, heq⟩
      cases heq
    · intro b₁ b₂ _ _ hmove h
      exact h.moves htrans hbody hmove
    · intro b₁ change hmem _ _ h
      exact ⟨htrans h.world (hout change hmem b₁.world), h.tasks_eq, h.rests⟩
  exact hchanged.world

end FaultChain
