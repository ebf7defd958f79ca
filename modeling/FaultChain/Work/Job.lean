/-!
# Jobs

A job is a computation on a shared state in atomic steps; between two steps other jobs may change the
state.

* `Job.atomic`: a job of one step.
* `Job.run`: runs a job with nothing in between.
-/

namespace FaultChain

inductive Job (σ α : Type) where
  | done (a : α)
  | step (act : σ → σ) (next : σ → Job σ α)

namespace Job

variable {σ α β : Type}

def atomic (f : σ → α × σ) : Job σ α := .step (fun s => (f s).2) (fun s => .done (f s).1)

def look (f : σ → α) : Job σ α := atomic fun s => (f s, s)

/-- One job after another. -/
def bind : Job σ α → (α → Job σ β) → Job σ β
  | .done a, k => k a
  | .step act next, k => .step act fun s => (next s).bind k

instance : Monad (Job σ) where
  pure := .done
  bind := Job.bind

/-- Runs a job with nothing in between. -/
def run : Job σ α → σ → α × σ
  | .done a, s => (a, s)
  | .step act next, s => (next s).run (act s)

@[simp] theorem run_pure (a : α) (s : σ) : (pure a : Job σ α).run s = (a, s) := rfl

@[simp] theorem run_atomic (f : σ → α × σ) (s : σ) : (atomic f).run s = f s := rfl

@[simp] theorem run_bind (j : Job σ α) (k : α → Job σ β) (s : σ) :
    (j >>= k).run s = (k (j.run s).1).run (j.run s).2 := by
  change (j.bind k).run s = _
  induction j generalizing s with
  | done a => rfl
  | step act next ih => exact ih s (act s)

end Job
end FaultChain
