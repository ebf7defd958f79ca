import Mathlib.Data.List.Chain
import FaultChain.Work.Job

/-!
# How jobs end

A job comes to its end step by step, and others may change the state before each of its steps.

* `Job.Ends`: the states the steps start from, and what the job gives.
* `Job.ends_run`: a job with nothing in between.
* `Job.Reaches`: how far a job has come after some steps.
* `Job.Takes`: the same with the states that the steps end in.
* `Job.takes_bind_iff`: one job after another.
-/

namespace FaultChain
namespace Job

variable {σ α β : Type}

/-- A job comes to its end with steps from the given states, one state a step. -/
inductive Ends : Job σ α → List σ → α → Prop where
  | done (a : α) : Ends (.done a) [] a
  | step {act : σ → σ} {next : σ → Job σ α} {s : σ} {ss : List σ} {a : α}
      (hrest : Ends (next s) ss a) : Ends (.step act next) (s :: ss) a

/-- The states the steps of a job start from if nothing happens in between. -/
def states : Job σ α → σ → List σ
  | .done _, _ => []
  | .step act next, s => s :: (next s).states (act s)

theorem ends_run (j : Job σ α) (s : σ) : j.Ends (j.states s) (j.run s).1 := by
  induction j generalizing s with
  | done a => exact .done a
  | step act next ih => exact .step (ih s (act s))

/-- What is left of a job after steps from the given states. -/
inductive Reaches (j : Job σ α) : List σ → Job σ α → Prop where
  | refl : Reaches j [] j
  | step {act : σ → σ} {next : σ → Job σ α} {ss : List σ} (h : Reaches j ss (.step act next))
      (s : σ) : Reaches j (ss ++ [s]) (next s)

theorem Reaches.ends {j rest : Job σ α} {ss ss' : List σ} {a : α} (h : j.Reaches ss rest)
    (hrest : rest.Ends ss' a) : j.Ends (ss ++ ss') a := by
  induction h generalizing ss' with
  | refl => exact hrest
  | step h s ih => simpa using ih (.step hrest)

/-! ## Steps -/

/-- A job comes to its end with the given steps, each with the state it starts from and the one it
ends in. Others may change the state between two of them. -/
inductive Takes : Job σ α → List (σ × σ) → α → Prop where
  | done (a : α) : Takes (.done a) [] a
  | step {act : σ → σ} {next : σ → Job σ α} {s : σ} {ps : List (σ × σ)} {a : α}
      (hrest : Takes (next s) ps a) : Takes (.step act next) ((s, act s) :: ps) a

theorem Ends.exists_takes {j : Job σ α} {ss : List σ} {a : α} (h : j.Ends ss a) :
    ∃ ps, j.Takes ps a ∧ ss = ps.map (·.1) := by
  induction h with
  | done a => exact ⟨[], .done a, rfl⟩
  | step _ ih =>
    obtain ⟨ps, htakes, rfl⟩ := ih
    exact ⟨_ :: ps, .step htakes, rfl⟩

theorem takes_pure_iff {a b : α} {ps : List (σ × σ)} :
    Takes (pure a : Job σ α) ps b ↔ ps = [] ∧ b = a := by
  constructor
  · intro h
    cases h
    exact ⟨rfl, rfl⟩
  · rintro ⟨rfl, rfl⟩
    exact .done b

theorem takes_atomic_iff {f : σ → α × σ} {ps : List (σ × σ)} {a : α} :
    Takes (atomic f) ps a ↔ ∃ s, ps = [(s, (f s).2)] ∧ a = (f s).1 := by
  constructor
  · intro h
    cases h with
    | step hrest =>
      cases hrest
      exact ⟨_, rfl, rfl⟩
  · rintro ⟨s, rfl, rfl⟩
    exact .step (.done _)

theorem takes_look_iff {f : σ → α} {ps : List (σ × σ)} {a : α} :
    Takes (look f) ps a ↔ ∃ s, ps = [(s, s)] ∧ a = f s :=
  takes_atomic_iff

theorem takes_bind_iff {j : Job σ α} {k : α → Job σ β} {ps : List (σ × σ)} {b : β} :
    Takes (j >>= k) ps b ↔ ∃ a ps₁ ps₂, ps = ps₁ ++ ps₂ ∧ Takes j ps₁ a ∧ Takes (k a) ps₂ b := by
  change Takes (j.bind k) ps b ↔ _
  constructor
  · intro h
    induction j generalizing ps with
    | done a => exact ⟨a, [], ps, rfl, .done a, h⟩
    | step act next ih =>
      cases h with
      | step hrest =>
        obtain ⟨a, ps₁, ps₂, rfl, hj, hk⟩ := ih _ hrest
        exact ⟨a, _ :: ps₁, ps₂, rfl, .step hj, hk⟩
  · rintro ⟨a, ps₁, ps₂, rfl, hj, hk⟩
    induction hj with
    | done => exact hk
    | step hrest ih => exact .step (ih hk)

/-- The steps of a job if nothing happens in between. -/
def steps : Job σ α → σ → List (σ × σ)
  | .done _, _ => []
  | .step act next, s => (s, act s) :: (next s).steps (act s)

theorem takes_run (j : Job σ α) (s : σ) : j.Takes (j.steps s) (j.run s).1 := by
  induction j generalizing s with
  | done a => exact .done a
  | step act next ih => exact .step (ih s (act s))

/-- With nothing in between, every step starts where the one before ended. -/
theorem isChain_steps (j : Job σ α) (s : σ) : (j.steps s).IsChain fun p q => q.1 = p.2 := by
  induction j generalizing s with
  | done a => exact .nil
  | step act next ih =>
    have hrest := ih s (act s)
    simp only [steps]
    cases hnext : next s with
    | done a => exact .singleton _
    | step act' next' =>
      rw [hnext] at hrest
      exact .cons_cons rfl hrest

end Job
end FaultChain
