import Mathlib.Algebra.Ring.Nat
import FaultChain.Campaign.Basic
import FaultChain.Proofs.Work.Batch
import FaultChain.Proofs.Work.Job

/-!
# The course of a batch

What becomes of the tasks of a batch, however the steps of the dispatcher and the workers and what
happens outside come after one another.

* `Batch.course`: the moments of a batch, each with what happens then.
* `Batch.TaskMoves`: what an event can do to one task; `Batch.step_task` is the inversion.
* `Batch.Story`: what a task has been through; `Batch.story_runEvents` keeps it along a course.
* `Batch.InBounds`: slots and counters, which every step keeps within their bounds.
* `Scheduler.call_stories`: the same for a whole call of a scheduler.
* `Scheduler.callAll_disciplined`: the main statement, for the runs of backends.
-/

namespace FaultChain

variable {σ α : Type}

/-- Whether the body of the task runs. -/
def TaskState.isRunning : TaskState σ α → Bool
  | .running _ => true
  | _ => false

def TaskState.isFinished : TaskState σ α → Bool
  | .finished _ => true
  | _ => false

namespace Batch

variable {d : Dispatch σ α} {b : Batch σ α} {i : Nat} {t : Task σ α}

/-! ## Moments -/

/-- The moments of a batch, each with what happens then. -/
def course (d : Dispatch σ α) (b : Batch σ α) :
    List (BatchEvent (σ → σ)) → List (Batch σ α × BatchEvent (σ → σ))
  | [] => []
  | ev :: evs => (b, ev) :: course d (b.step d ev) evs

theorem course_append (d : Dispatch σ α) (b : Batch σ α) (evs evs' : List (BatchEvent (σ → σ))) :
    course d b (evs ++ evs') = course d b evs ++ course d (b.runEvents d evs) evs' := by
  induction evs generalizing b with
  | nil => rfl
  | cons ev evs ih => exact congrArg ((b, ev) :: ·) (ih _)

/-- What holds at the start and is kept by every event holds at all moments of a course and at its
end. -/
theorem course_induction {P : Batch σ α → Prop} (hmove : ∀ b b', P b → Moves d b b' → P b')
    (hout : ∀ (b : Batch σ α) (change : σ → σ), P b → P { b with world := change b.world })
    {b : Batch σ α} (hb : P b) (evs : List (BatchEvent (σ → σ))) :
    (∀ m ∈ course d b evs, P m.1) ∧ P (b.runEvents d evs) := by
  induction evs generalizing b with
  | nil => exact ⟨by simp [course], hb⟩
  | cons ev evs ih =>
    -- Events from outside change the world only, all others are moves.
    have hstep : P (b.step d ev) := by
      cases ev with
      | outside change => exact hout b change hb
      | look => exact hmove _ _ hb (step_moves trivial)
      | admission => exact hmove _ _ hb (step_moves trivial)
      | start j => exact hmove _ _ hb (step_moves trivial)
      | advance j => exact hmove _ _ hb (step_moves trivial)
    refine ⟨?_, (ih hstep).2⟩
    intro m hm
    rcases List.mem_cons.mp hm with rfl | hm
    · exact hb
    · exact (ih hstep).1 m hm

/-- Whether the body of a task runs. -/
def isRunning (b : Batch σ α) (i : Nat) : Bool := b.tasks[i]?.any (·.2.isRunning)

/-- How many bodies run. -/
def running (b : Batch σ α) : Nat := b.tasks.countP (·.2.isRunning)

/-- Whether the body of a task is started at a moment. -/
def starts (d : Dispatch σ α) (i : Nat) (m : Batch σ α × BatchEvent (σ → σ)) : Bool :=
  !m.1.isRunning i && (m.1.step d m.2).isRunning i

/-- Whether the body of a task makes a step at a moment. -/
def takesTurn (i : Nat) (m : Batch σ α × BatchEvent (σ → σ)) : Bool :=
  match m.2, m.1.tasks[i]? with
  | .advance j, some (_, .running (.step _ _)) => j == i
  | _, _ => false

/-- The states of the world in which the body of a task makes its steps. -/
def turns (i : Nat) (ms : List (Batch σ α × BatchEvent (σ → σ))) : List σ :=
  (ms.filter (takesTurn i)).map (·.1.world)

/-- At a moment it is checked whether a task may be started: the dispatcher looks at it, or it has
its slot and its worker begins. -/
def Checks (i : Nat) (m : Batch σ α × BatchEvent (σ → σ)) : Prop :=
  (m.2 = .look ∧ m.1.cleared? = none ∧ m.1.waiting? = some i) ∨
    (m.2 = .start i ∧ ∃ t, m.1.tasks[i]? = some (t, .admitted))

/-! ## One task -/

/-- What an event can do to one task. -/
inductive TaskMoves (d : Dispatch σ α) (i : Nat) (t : Task σ α)
    (m : Batch σ α × BatchEvent (σ → σ)) : TaskState σ α → TaskState σ α → Prop where
  | same {st : TaskState σ α} (hcheck : ¬Checks i m) (hturn : takesTurn i m = false) :
      TaskMoves d i t m st st
  | refused {st : TaskState σ α} {why : Failure} (hst : st = .waiting ∨ st = .admitted)
      (hcheck : Checks i m) (hturn : takesTurn i m = false) (hstop : d.stop m.1.world = some why) :
      TaskMoves d i t m st (.finished (d.fallback t.name (.notDispatched why)))
  | cleared (hturn : takesTurn i m = false) (hgo : d.stop m.1.world = none) :
      TaskMoves d i t m .waiting .cleared
  | admitted (hcheck : ¬Checks i m) (hturn : takesTurn i m = false) :
      TaskMoves d i t m .cleared .admitted
  | started (hturn : takesTurn i m = false) (hgo : d.stop m.1.world = none) :
      TaskMoves d i t m .admitted (.running t.body)
  | advanced {act : σ → σ} {next : σ → Job σ (TaskEnd α)} (hcheck : ¬Checks i m)
      (hturn : takesTurn i m = true) :
      TaskMoves d i t m (.running (.step act next)) (.running (next m.1.world))
  | ended {e : TaskEnd α} (hcheck : ¬Checks i m) (hturn : takesTurn i m = false) :
      TaskMoves d i t m (.running (.done e)) (.finished (settle d t.name e))

theorem takesTurn_of_ne {ev : BatchEvent (σ → σ)} (h : ev ≠ .advance i) :
    takesTurn i (b, ev) = false := by
  cases ev with
  | advance j =>
    have hne : j ≠ i := fun hji => h (by rw [hji])
    unfold takesTurn
    split
    · rename_i heq _
      cases heq
      simpa using hne
    · rfl
  | look => rfl
  | admission => rfl
  | start j => rfl
  | outside change => rfl

theorem not_checks {ev : BatchEvent (σ → σ)} (hlook : ev ≠ .look) (hstart : ev ≠ .start i) :
    ¬Checks i (b, ev) := by
  rintro (⟨rfl, -, -⟩ | ⟨rfl, -⟩)
  · exact hlook rfl
  · exact hstart rfl

theorem not_admitted {st : TaskState σ α} (hat : b.tasks[i]? = some (t, st))
    (hst : st ≠ .admitted) : ¬Checks i (b, .start i) := by
  rintro (⟨hev, -, -⟩ | ⟨-, t', hat'⟩)
  · cases hev
  · cases hat.symm.trans hat'
    exact hst rfl

/-- What the dispatcher does to one task when it looks at the next. -/
theorem step_task_look {st : TaskState σ α} (hat : b.tasks[i]? = some (t, st)) :
    ∃ st', (b.step d .look).tasks[i]? = some (t, st') ∧ TaskMoves d i t (b, .look) st st' := by
  have hturn : takesTurn i (b, .look) = false := takesTurn_of_ne nofun
  cases hcleared : b.cleared? with
  | some j =>
    refine ⟨st, by simpa [step, hcleared] using hat, .same ?_ hturn⟩
    rintro (⟨-, hnone, -⟩ | ⟨hev, -⟩)
    · cases hcleared.symm.trans hnone
    · cases hev
  | none =>
    cases hwaiting : b.waiting? with
    | none =>
      refine ⟨st, by simpa [step, hcleared, hwaiting] using hat, .same ?_ hturn⟩
      rintro (⟨-, -, hi⟩ | ⟨hev, -⟩)
      · cases hwaiting.symm.trans hi
      · cases hev
    | some k =>
      rcases waiting?_eq_some hwaiting with ⟨⟨t', hk⟩, -⟩
      -- Only the task that is looked at is checked; the others stay as they are.
      by_cases hki : k = i
      · subst hki
        cases hat.symm.trans hk
        have hcheck : Checks k (b, .look) := Or.inl ⟨rfl, hcleared, hwaiting⟩
        cases hstop : d.stop b.world with
        | some why =>
          refine ⟨_, ?_, .refused (Or.inl rfl) hcheck hturn hstop⟩
          simpa [step, hcleared, hwaiting, hk, hstop, refuse, finish]
            using getElem?_put_self hk (.finished (d.fallback t.name (.notDispatched why)))
        | none =>
          refine ⟨_, ?_, .cleared hturn hstop⟩
          simpa [step, hcleared, hwaiting, hk, hstop] using getElem?_put_self hk _
      · have hcheck : ¬Checks i (b, .look) := by
          rintro (⟨-, -, hi⟩ | ⟨hev, -⟩)
          · exact hki (Option.some.inj (hwaiting.symm.trans hi))
          · cases hev
        refine ⟨st, ?_, .same hcheck hturn⟩
        cases hstop : d.stop b.world with
        | some why =>
          simpa [step, hcleared, hwaiting, hk, hstop, refuse, finish]
            using (getElem?_put_of_ne b hki _).trans hat
        | none =>
          simpa [step, hcleared, hwaiting, hk, hstop] using (getElem?_put_of_ne b hki _).trans hat

theorem step_task_admission {st : TaskState σ α} (hat : b.tasks[i]? = some (t, st)) :
    ∃ st', (b.step d .admission).tasks[i]? = some (t, st') ∧
      TaskMoves d i t (b, .admission) st st' := by
  have hturn : takesTurn i (b, .admission) = false := takesTurn_of_ne nofun
  have hcheck : ¬Checks i (b, .admission) := not_checks nofun nofun
  cases hcleared : b.cleared? with
  | none => exact ⟨st, by simpa [step, hcleared] using hat, .same hcheck hturn⟩
  | some k =>
    by_cases hfree : b.active < d.limit
    · have hstep : b.step d .admission = b.put k .admitted := by simp [step, hcleared, hfree]
      rcases cleared?_eq_some hcleared with ⟨t', hk⟩
      rw [hstep]
      -- The dispatcher admits one task, this one or another.
      by_cases hki : k = i
      · subst hki
        cases hat.symm.trans hk
        exact ⟨_, getElem?_put_self hk _, .admitted hcheck hturn⟩
      · exact ⟨st, (getElem?_put_of_ne b hki _).trans hat, .same hcheck hturn⟩
    · exact ⟨st, by simpa [step, hcleared, hfree] using hat, .same hcheck hturn⟩

/-- What a worker does to one task when it starts its own. -/
theorem step_task_start {st : TaskState σ α} (hat : b.tasks[i]? = some (t, st)) (k : Nat) :
    ∃ st', (b.step d (.start k)).tasks[i]? = some (t, st') ∧
      TaskMoves d i t (b, .start k) st st' := by
  have hturn : takesTurn i (b, .start k) = false := takesTurn_of_ne (by simp)
  by_cases hki : k = i
  · subst hki
    cases st with
    | admitted =>
      have hcheck : Checks k (b, .start k) := Or.inr ⟨rfl, t, hat⟩
      cases hstop : d.stop b.world with
      | some why =>
        refine ⟨_, ?_, .refused (Or.inr rfl) hcheck hturn hstop⟩
        simpa [step, hat, hstop, refuse, finish]
          using getElem?_put_self hat (.finished (d.fallback t.name (.notDispatched why)))
      | none =>
        refine ⟨_, ?_, .started hturn hstop⟩
        simpa [step, hat, hstop] using getElem?_put_self hat _
    | waiting => exact ⟨_, by simp [step, hat], .same (not_admitted hat (by simp)) hturn⟩
    | cleared => exact ⟨_, by simp [step, hat], .same (not_admitted hat (by simp)) hturn⟩
    | running rest => exact ⟨_, by simp [step, hat], .same (not_admitted hat (by simp)) hturn⟩
    | finished a => exact ⟨_, by simp [step, hat], .same (not_admitted hat (by simp)) hturn⟩
  -- A worker that starts another task does not look for this one.
  · have hcheck : ¬Checks i (b, .start k) := by
      refine not_checks (by simp) fun hev => hki ?_
      cases hev
      rfl
    refine ⟨st, ?_, .same hcheck hturn⟩
    simp only [step]
    split
    · split
      · exact (getElem?_put_of_ne b hki _).trans hat
      · exact (getElem?_put_of_ne b hki _).trans hat
    · exact hat

/-- What a step of a running task does to one task. -/
theorem step_task_advance {st : TaskState σ α} (hat : b.tasks[i]? = some (t, st)) (k : Nat) :
    ∃ st', (b.step d (.advance k)).tasks[i]? = some (t, st') ∧
      TaskMoves d i t (b, .advance k) st st' := by
  have hcheck : ¬Checks i (b, .advance k) := not_checks nofun nofun
  by_cases hki : k = i
  · subst hki
    cases st with
    | running rest =>
      cases rest with
      | done e =>
        refine ⟨_, ?_, .ended hcheck (by simp [takesTurn, hat])⟩
        simpa [step, hat, finish] using getElem?_put_self hat (.finished (settle d t.name e))
      | step act next =>
        refine ⟨_, ?_, .advanced hcheck (by simp [takesTurn, hat])⟩
        simpa [step, hat] using getElem?_put_self hat (.running (next b.world))
    | waiting => exact ⟨_, by simp [step, hat], .same hcheck (by simp [takesTurn, hat])⟩
    | cleared => exact ⟨_, by simp [step, hat], .same hcheck (by simp [takesTurn, hat])⟩
    | admitted => exact ⟨_, by simp [step, hat], .same hcheck (by simp [takesTurn, hat])⟩
    | finished a => exact ⟨_, by simp [step, hat], .same hcheck (by simp [takesTurn, hat])⟩
  -- The turn is that of another task.
  · have hturn : takesTurn i (b, .advance k) = false := by
      refine takesTurn_of_ne fun hev => hki ?_
      cases hev
      rfl
    refine ⟨st, ?_, .same hcheck hturn⟩
    simp only [step]
    split
    · exact (getElem?_put_of_ne b hki _).trans hat
    · exact (getElem?_put_of_ne b hki _).trans hat
    · exact hat

theorem step_task {st : TaskState σ α} (hat : b.tasks[i]? = some (t, st))
    (ev : BatchEvent (σ → σ)) :
    ∃ st', (b.step d ev).tasks[i]? = some (t, st') ∧ TaskMoves d i t (b, ev) st st' := by
  cases ev with
  | look => exact step_task_look hat
  | admission => exact step_task_admission hat
  | start k => exact step_task_start hat k
  | advance k => exact step_task_advance hat k
  | outside change =>
    exact ⟨st, hat, .same (not_checks nofun nofun) (takesTurn_of_ne nofun)⟩

/-! ## What a task has been through -/

/-- Whenever it was checked, the task was allowed to start. -/
def Allowed (d : Dispatch σ α) (i : Nat) (ms : List (Batch σ α × BatchEvent (σ → σ))) : Prop :=
  ∀ m ∈ ms, Checks i m → d.stop m.1.world = none

/-- The body was started once and came to its end by its own steps. -/
structure Ran (d : Dispatch σ α) (i : Nat) (t : Task σ α)
    (ms : List (Batch σ α × BatchEvent (σ → σ))) (a : α) : Prop where
  starts_eq : ms.countP (starts d i) = 1
  allowed : Allowed d i ms
  ends : ∃ e, t.body.Ends (turns i ms) e ∧ a = settle d t.name e

/-- The body was never started, as a check found that no further task may be started. -/
structure Refused (d : Dispatch σ α) (i : Nat) (t : Task σ α)
    (ms : List (Batch σ α × BatchEvent (σ → σ))) (a : α) : Prop where
  starts_eq : ms.countP (starts d i) = 0
  turns_eq : turns i ms = []
  checked : ∃ m ∈ ms, Checks i m ∧ ∃ why, d.stop m.1.world = some why
  result_eq : ∀ m ∈ ms, Checks i m → ∀ why, d.stop m.1.world = some why →
    a = d.fallback t.name (.notDispatched why)

/-- What a task has been through when it is so far. -/
def Story (d : Dispatch σ α) (i : Nat) (t : Task σ α)
    (ms : List (Batch σ α × BatchEvent (σ → σ))) : TaskState σ α → Prop
  | .running rest =>
    ms.countP (starts d i) = 1 ∧ Allowed d i ms ∧ t.body.Reaches (turns i ms) rest
  | .finished a => Ran d i t ms a ∨ Refused d i t ms a
  | _ => ms.countP (starts d i) = 0 ∧ turns i ms = [] ∧ Allowed d i ms

theorem turns_append (i : Nat) (ms : List (Batch σ α × BatchEvent (σ → σ)))
    (m : Batch σ α × BatchEvent (σ → σ)) :
    turns i (ms ++ [m]) = turns i ms ++ if takesTurn i m then [m.1.world] else [] := by
  cases h : takesTurn i m <;> simp [turns, h]

theorem turns_append_of_false (ms : List (Batch σ α × BatchEvent (σ → σ)))
    {m : Batch σ α × BatchEvent (σ → σ)} (h : takesTurn i m = false) :
    turns i (ms ++ [m]) = turns i ms := by
  simp [turns_append, h]

theorem starts_eq {st st' : TaskState σ α} {ev : BatchEvent (σ → σ)}
    (hat : b.tasks[i]? = some (t, st)) (hat' : (b.step d ev).tasks[i]? = some (t, st')) :
    starts d i (b, ev) = (!st.isRunning && st'.isRunning) := by
  simp [starts, isRunning, hat, hat']

theorem Allowed.append {ms : List (Batch σ α × BatchEvent (σ → σ))}
    {m : Batch σ α × BatchEvent (σ → σ)} (h : Allowed d i ms)
    (hm : Checks i m → d.stop m.1.world = none) : Allowed d i (ms ++ [m]) := by
  intro m' hm'
  rcases List.mem_append.mp hm' with hm' | hm'
  · exact h m' hm'
  · rw [List.mem_singleton] at hm'
    rw [hm']
    exact hm

section Stories

variable {ms : List (Batch σ α × BatchEvent (σ → σ))} {m : Batch σ α × BatchEvent (σ → σ)}

theorem countP_append_of_false (ms : List (Batch σ α × BatchEvent (σ → σ)))
    (h : starts d i m = false) :
    (ms ++ [m]).countP (starts d i) = ms.countP (starts d i) := by
  simp [List.countP_append, h]

/-- Nothing happens to the task. -/
theorem Story.same {st : TaskState σ α} (h : Story d i t ms st) (hstart : starts d i m = false)
    (hturn : takesTurn i m = false) (hcheck : ¬Checks i m) : Story d i t (ms ++ [m]) st := by
  have hcount := countP_append_of_false ms hstart
  have hturns := turns_append_of_false ms hturn
  -- The moment adds neither a start nor a turn nor a look to the task's story.
  have hallowed : Allowed d i ms → Allowed d i (ms ++ [m]) := fun hall =>
    hall.append fun hc => absurd hc hcheck
  cases st with
  | running rest => exact ⟨hcount.trans h.1, hallowed h.2.1, hturns ▸ h.2.2⟩
  | finished a =>
    rcases h with hran | hrefused
    · exact Or.inl ⟨hcount.trans hran.starts_eq, hallowed hran.allowed, hturns ▸ hran.ends⟩
    · rcases hrefused.checked with ⟨m', hm', hwhy⟩
      refine Or.inr ⟨hcount.trans hrefused.starts_eq, hturns.trans hrefused.turns_eq,
        ⟨m', by simp [hm'], hwhy⟩, ?_⟩
      intro m'' hm'' hc why hstop
      rcases List.mem_append.mp hm'' with hm'' | hm''
      · exact hrefused.result_eq m'' hm'' hc why hstop
      · rw [List.mem_singleton] at hm''
        exact absurd (hm'' ▸ hc) hcheck
  | waiting => exact ⟨hcount.trans h.1, hturns.trans h.2.1, hallowed h.2.2⟩
  | cleared => exact ⟨hcount.trans h.1, hturns.trans h.2.1, hallowed h.2.2⟩
  | admitted => exact ⟨hcount.trans h.1, hturns.trans h.2.1, hallowed h.2.2⟩

/-- What a task has been through, with one more event. -/
theorem Story.step {st st' : TaskState σ α} (h : Story d i t ms st)
    (hstart : starts d i m = (!st.isRunning && st'.isRunning))
    (hmove : TaskMoves d i t m st st') : Story d i t (ms ++ [m]) st' := by
  cases hmove with
  | same hcheck hturn =>
    exact h.same (hstart.trans (by cases st.isRunning <;> rfl)) hturn hcheck
  | refused hst hcheck hturn hstop =>
    rename_i why
    have hbefore : ms.countP (starts d i) = 0 ∧ turns i ms = [] ∧ Allowed d i ms := by
      rcases hst with rfl | rfl
      · exact h
      · exact h
    have hstart' : starts d i m = false := hstart.trans (by simp [TaskState.isRunning])
    refine Or.inr ⟨(countP_append_of_false _ hstart').trans hbefore.1,
      (turns_append_of_false _ hturn).trans hbefore.2.1, ⟨m, by simp, hcheck, why, hstop⟩, ?_⟩
    -- All earlier checks let the task go on, so this one is the only one that can refuse it.
    intro m' hm' hc why' hstop'
    rcases List.mem_append.mp hm' with hm' | hm'
    · cases (hbefore.2.2 m' hm' hc).symm.trans hstop'
    · rw [List.mem_singleton] at hm'
      subst hm'
      cases hstop.symm.trans hstop'
      rfl
  | cleared hturn hgo =>
    exact ⟨(countP_append_of_false _ hstart).trans h.1, (turns_append_of_false _ hturn).trans h.2.1,
      h.2.2.append fun _ => hgo⟩
  | admitted hcheck hturn =>
    exact ⟨(countP_append_of_false _ hstart).trans h.1, (turns_append_of_false _ hturn).trans h.2.1,
      h.2.2.append fun hc => absurd hc hcheck⟩
  | started hturn hgo =>
    -- The body has made no step yet, and this is the one event that starts it.
    have hstart' : starts d i m = true := hstart
    refine ⟨by simp [List.countP_append, hstart', h.1], h.2.2.append fun _ => hgo, ?_⟩
    rw [turns_append_of_false _ hturn, h.2.1]
    exact .refl
  | advanced hcheck hturn =>
    refine ⟨(countP_append_of_false _ hstart).trans h.1,
      h.2.1.append fun hc => absurd hc hcheck, ?_⟩
    rw [turns_append, hturn]
    exact h.2.2.step _
  | ended hcheck hturn =>
    refine Or.inl ⟨(countP_append_of_false _ hstart).trans h.1,
      h.2.1.append fun hc => absurd hc hcheck, _, ?_, rfl⟩
    rw [turns_append_of_false _ hturn]
    simpa using h.2.2.ends (.done _)

end Stories

/-- What a task of a batch has been through at the end of a course. -/
theorem story_runEvents (evs : List (BatchEvent (σ → σ)))
    (hat : b.tasks[i]? = some (t, .waiting)) :
    ∃ st, (b.runEvents d evs).tasks[i]? = some (t, st) ∧ Story d i t (course d b evs) st := by
  induction evs using List.reverseRecOn with
  | nil => exact ⟨.waiting, hat, by simp [Story, course, turns, Allowed]⟩
  | append_singleton evs ev ih =>
    -- The story of the course so far goes on with what the last event does to the task.
    rcases ih with ⟨st, hst, hstory⟩
    rcases step_task (d := d) hst ev with ⟨st', hst', hmove⟩
    have hrun : b.runEvents d (evs ++ [ev]) = (b.runEvents d evs).step d ev := by
      simp [runEvents]
    have hcourse : course d b (evs ++ [ev]) = course d b evs ++ [(b.runEvents d evs, ev)] := by
      rw [course_append]
      rfl
    rw [hrun, hcourse]
    exact ⟨st', hst', hstory.step (starts_eq hst hst') hmove⟩

/-! ## Slots and counters -/

theorem tasks_put {st : TaskState σ α} (hat : b.tasks[i]? = some (t, st)) (s : TaskState σ α) :
    (b.put i s).tasks = b.tasks.set i (t, s) := by
  apply List.ext_getElem?
  intro j
  rw [getElem?_put, List.getElem?_set]
  by_cases hij : i = j
  · subst hij
    rw [hat, if_pos rfl, if_pos (List.getElem?_eq_some_iff.mp hat).1]
    simp
  · simp [hij]

theorem countP_put {st : TaskState σ α} (hat : b.tasks[i]? = some (t, st)) (s : TaskState σ α)
    (p : TaskState σ α → Bool) :
    (b.put i s).tasks.countP (p ·.2) + (p st).toNat = b.tasks.countP (p ·.2) + (p s).toNat := by
  rcases List.getElem?_eq_some_iff.mp hat with ⟨hlt, hget⟩
  have hle : (p st).toNat ≤ b.tasks.countP (p ·.2) := by
    cases hst : p st with
    | false => exact Nat.zero_le _
    | true => exact List.countP_pos_iff.mpr ⟨(t, st), List.mem_of_getElem? hat, hst⟩
  rw [tasks_put hat, List.countP_set hlt, hget]
  cases hst : p st <;> cases hs : p s <;>
    simp only [hst, Bool.toNat_true, Bool.toNat_false, if_true, Bool.false_eq_true, if_false]
      at hle ⊢ <;> omega

/-- How many tasks are finished. -/
def finished (b : Batch σ α) : Nat := b.tasks.countP (·.2.isFinished)

/-- Slots and counters of a batch that began with so many tasks finished before. -/
structure InBounds (d : Dispatch σ α) (before size : Nat) (b : Batch σ α) : Prop where
  length_eq : b.tasks.length = size
  active_le : b.active ≤ d.limit
  submitted_eq : b.submitted = before + size
  completed_eq : b.completed = before + b.finished
  progress_length : b.progress.length = b.finished
  progress_le : ∀ p ∈ b.progress, p.1 ≤ p.2

theorem length_put (b : Batch σ α) (i : Nat) (s : TaskState σ α) :
    (b.put i s).tasks.length = b.tasks.length := by
  simp [put]

/-- A task that is not finished takes another state, with a free slot if it takes one. -/
theorem InBounds.put {before size : Nat} {st s : TaskState σ α} (h : InBounds d before size b)
    (hat : b.tasks[i]? = some (t, st)) (hst : st.isFinished = false) (hs : s.isFinished = false)
    (hslot : s.isActive = true → st.isActive = true ∨ b.active < d.limit) :
    InBounds d before size (b.put i s) := by
  have hactive : (b.put i s).active + st.isActive.toNat = b.active + s.isActive.toNat :=
    countP_put hat s TaskState.isActive
  have hfinished : (b.put i s).finished + st.isFinished.toNat =
      b.finished + s.isFinished.toNat := countP_put hat s TaskState.isFinished
  rw [hst, hs, Bool.toNat_false, Nat.add_zero, Nat.add_zero] at hfinished
  have hle := h.active_le
  refine ⟨(length_put b i s).trans h.length_eq, ?_, h.submitted_eq, ?_, ?_, h.progress_le⟩
  · cases hs' : s.isActive with
    | false =>
      rw [hs', Bool.toNat_false] at hactive
      omega
    | true =>
      rw [hs', Bool.toNat_true] at hactive
      -- A task that takes a slot had one before, or finds a free one.
      rcases hslot hs' with hst' | hfree
      · rw [hst', Bool.toNat_true] at hactive
        omega
      · omega
  · rw [hfinished]
    exact h.completed_eq
  · rw [hfinished]
    exact h.progress_length

/-- A task is finished, which is counted and reported once. -/
theorem InBounds.finish {before size : Nat} {st : TaskState σ α} (h : InBounds d before size b)
    (hat : b.tasks[i]? = some (t, st)) (hst : st.isFinished = false) (a : α) :
    InBounds d before size (b.finish i a) := by
  have hactive : (b.finish i a).active + st.isActive.toNat = b.active + 0 :=
    countP_put hat (.finished a) TaskState.isActive
  have hfinished : (b.finish i a).finished + st.isFinished.toNat = b.finished + 1 :=
    countP_put hat (.finished a) TaskState.isFinished
  rw [hst, Bool.toNat_false, Nat.add_zero] at hfinished
  -- The count in a report never passes the number of tasks, as it is one of finished tasks.
  have hsize : (b.finish i a).finished ≤ size := by
    calc (b.finish i a).finished ≤ (b.finish i a).tasks.length := List.countP_le_length
      _ = b.tasks.length := length_put b i _
      _ = size := h.length_eq
  have hcompleted := h.completed_eq
  have hle := h.active_le
  refine ⟨(length_put b i _).trans h.length_eq, by omega, h.submitted_eq, ?_, ?_, ?_⟩
  · rw [hfinished]
    change b.completed + 1 = _
    omega
  · rw [hfinished]
    simp [Batch.finish, h.progress_length]
  · intro p hp
    rcases List.mem_append.mp hp with hp | hp
    · exact h.progress_le p hp
    · rw [List.mem_singleton] at hp
      rw [hp, h.submitted_eq]
      change b.completed + 1 ≤ _
      omega

theorem InBounds.moves {before size : Nat} {b' : Batch σ α} (h : InBounds d before size b)
    (hmove : Moves d b b') : InBounds d before size b' := by
  cases hmove with
  | idle => exact h
  | refused hat _ _ => exact h.finish hat rfl _
  | cleared hat _ _ => exact h.put hat rfl rfl nofun
  | admitted hat hfree => exact h.put hat rfl rfl fun _ => Or.inr hfree
  | turned hat _ => exact h.finish hat rfl _
  | started hat _ => exact h.put hat rfl rfl fun _ => Or.inl rfl
  | finished hat => exact h.finish hat rfl _
  | advanced hat =>
    rename_i act next
    have hput := h.put (s := .running (next b.world)) hat rfl rfl fun _ => Or.inl rfl
    exact ⟨hput.1, hput.2, hput.3, hput.4, hput.5, hput.6⟩

theorem running_le_active (b : Batch σ α) : b.running ≤ b.active := by
  apply List.countP_mono_left
  intro ts _ hrun
  cases hst : ts.2 with
  | running rest => rfl
  | waiting => simp [hst, TaskState.isRunning] at hrun
  | cleared => simp [hst, TaskState.isRunning] at hrun
  | admitted => simp [hst, TaskState.isRunning] at hrun
  | finished a => simp [hst, TaskState.isRunning] at hrun

end Batch

/-! ## Batches one after another -/

/-- A call of a scheduler: the tasks, what stops it, what stands in for a missing result, and what
happens first; the rest of its course is up to the scheduler. -/
structure BatchCall (σ α : Type) where
  tasks : List (Task σ α)
  stop : σ → Option Failure
  fallback : String → Failure → α
  events : List (BatchEvent (σ → σ))

namespace Scheduler

variable {s : Scheduler}

/-- The rules of a call. -/
def rules (s : Scheduler) (c : BatchCall σ α) : Dispatch σ α :=
  { limit := s.limit, stop := c.stop, fallback := c.fallback }

/-- Makes a call. -/
def call (s : Scheduler) (world : σ) (c : BatchCall σ α) : Batch σ α × Scheduler :=
  s.runBatch c.stop c.fallback c.events world c.tasks

/-- Makes calls one after another. Gives the finished batches and the counts after them. -/
def callAll (s : Scheduler) (world : σ) : List (BatchCall σ α) → List (Batch σ α) × Scheduler
  | [] => ([], s)
  | c :: cs =>
    let (b, s) := s.call world c
    let (bs, s) := s.callAll b.world cs
    (b :: bs, s)

theorem getElem?_prepare (world : σ) (tasks : List (Task σ α)) (i : Nat) :
    (s.prepare world tasks).tasks[i]? = tasks[i]?.map fun t => (t, .waiting) := by
  simp [prepare]

theorem ordered_prepare (world : σ) (tasks : List (Task σ α)) :
    (s.prepare world tasks).Ordered := by
  intro i j t t' st _ _ hj
  rw [getElem?_prepare] at hj
  rcases Option.map_eq_some_iff.mp hj with ⟨x, -, heq⟩
  cases heq
  rfl

theorem inBounds_prepare (hcount : s.completed = s.submitted) (d : Dispatch σ α) (world : σ)
    (tasks : List (Task σ α)) :
    (s.prepare world tasks).InBounds d s.completed tasks.length := by
  have hactive : (s.prepare world tasks).active = 0 := by
    simp [Batch.active, prepare, List.countP_eq_zero, TaskState.isActive]
  have hfinished : (s.prepare world tasks).finished = 0 := by
    simp [Batch.finished, prepare, List.countP_eq_zero, TaskState.isFinished]
  exact
    { length_eq := by simp [prepare]
      active_le := by omega
      submitted_eq := by simp [prepare, hcount]
      completed_eq := by rw [hfinished]; rfl
      progress_length := by rw [hfinished]; rfl
      progress_le := fun p hp => absurd hp List.not_mem_nil }

/-- The course of a call: slots and counters stay within bounds, and all tasks are finished. -/
theorem call_course (hcount : s.completed = s.submitted) (hlimit : 0 < s.limit) (world : σ)
    (c : BatchCall σ α) :
    ∃ rest, (∀ ev ∈ rest, ev.IsInside) ∧
      (s.call world c).1 = (s.prepare world c.tasks).runEvents (s.rules c) (c.events ++ rest) ∧
      (∀ m ∈ (s.prepare world c.tasks).course (s.rules c) (c.events ++ rest),
        m.1.InBounds (s.rules c) s.completed c.tasks.length) ∧
      (s.call world c).1.InBounds (s.rules c) s.completed c.tasks.length ∧
      ∀ (i : Nat) t st, (s.call world c).1.tasks[i]? = some (t, st) → ∃ a, st = .finished a := by
  let d := s.rules c
  let b₀ := s.prepare world c.tasks
  -- What the scheduler does on its own at the end is a course of events as well.
  rcases Batch.leads_complete (d := d) (b₀.runEvents d c.events) with ⟨rest, hinside, hrest⟩
  have hend : (s.call world c).1 = b₀.runEvents d (c.events ++ rest) := by
    rw [Batch.runEvents, List.foldl_append]
    exact hrest
  have hordered : (b₀.runEvents d c.events).Ordered :=
    (Batch.course_induction (fun _ _ h hmove => h.moves hmove) (fun _ _ h => h)
      (ordered_prepare world c.tasks) c.events).2
  have hbounds := Batch.course_induction (d := d)
    (P := fun b => b.InBounds d s.completed c.tasks.length)
    (fun _ _ h hmove => h.moves hmove) (fun _ _ h => ⟨h.1, h.2, h.3, h.4, h.5, h.6⟩)
    (inBounds_prepare hcount d world c.tasks) (c.events ++ rest)
  exact ⟨rest, hinside, hend, hbounds.1, hend ▸ hbounds.2,
    Batch.complete_finished hlimit hordered⟩

/-- A call counts each of its tasks once. -/
theorem call_counts (hcount : s.completed = s.submitted) (hlimit : 0 < s.limit) (world : σ)
    (c : BatchCall σ α) :
    (s.call world c).2.completed = (s.call world c).2.submitted ∧
      (s.call world c).2.submitted = s.submitted + c.tasks.length ∧
      (s.call world c).1.progress.length = c.tasks.length ∧
      ∀ p ∈ (s.call world c).1.progress, p.1 ≤ p.2 := by
  rcases call_course hcount hlimit world c with ⟨-, -, -, -, hbounds, hdone⟩
  -- At the end of the call every task is finished, and counted as such.
  have hfinished : (s.call world c).1.finished = c.tasks.length := by
    rw [← hbounds.length_eq, Batch.finished, List.countP_eq_length]
    intro ts hts
    rcases List.getElem?_of_mem hts with ⟨i, hi⟩
    rcases hdone i ts.1 ts.2 hi with ⟨a, ha⟩
    rw [ha]
    rfl
  have hsubmitted : (s.call world c).2.submitted = s.completed + c.tasks.length :=
    hbounds.submitted_eq
  have hcompleted : (s.call world c).2.completed = s.completed + (s.call world c).1.finished :=
    hbounds.completed_eq
  refine ⟨by omega, by omega, ?_, hbounds.progress_le⟩
  rw [hbounds.progress_length, hfinished]

/-- Calls one after another count each of their tasks once. -/
theorem callAll_counts (hcount : s.completed = s.submitted) (hlimit : 0 < s.limit) (world : σ)
    (calls : List (BatchCall σ α)) :
    (s.callAll world calls).2.limit = s.limit ∧
      (s.callAll world calls).2.completed = (s.callAll world calls).2.submitted ∧
      (s.callAll world calls).2.submitted = s.submitted + (calls.map (·.tasks.length)).sum ∧
      ((s.callAll world calls).1.flatMap (·.progress)).length =
        (calls.map (·.tasks.length)).sum ∧
      ∀ p ∈ (s.callAll world calls).1.flatMap (·.progress), p.1 ≤ p.2 := by
  induction calls generalizing s world with
  | nil => exact ⟨rfl, hcount, rfl, rfl, nofun⟩
  | cons c calls ih =>
    rcases call_counts hcount hlimit world c with ⟨hcount', hsubmitted, hlength, hle⟩
    -- The next call begins with the counts that this one leaves equal.
    rcases ih (s := (s.call world c).2) hcount' hlimit (s.call world c).1.world with
      ⟨hlimit'', hcount'', hsubmitted'', hlength'', hle''⟩
    refine ⟨hlimit'', hcount'', ?_, ?_, ?_⟩
    · simp only [callAll, List.map_cons, List.sum_cons]
      omega
    · simp only [callAll, List.flatMap_cons, List.length_append, List.map_cons, List.sum_cons]
      omega
    · intro p hp
      simp only [callAll, List.flatMap_cons, List.mem_append] at hp
      rcases hp with hp | hp
      · exact hle p hp
      · exact hle'' p hp

/-- What becomes of a task of a call. -/
theorem call_task {world : σ} {c : BatchCall σ α} {evs : List (BatchEvent (σ → σ))}
    (hend : (s.call world c).1 = (s.prepare world c.tasks).runEvents (s.rules c) evs)
    (hdone : ∀ (i : Nat) t st, (s.call world c).1.tasks[i]? = some (t, st) →
      ∃ a, st = TaskState.finished a)
    {i : Nat} {t : Task σ α} (ht : c.tasks[i]? = some t) :
    ∃ a, (s.call world c).1.results[i]? = some a ∧
      (Batch.Ran (s.rules c) i t ((s.prepare world c.tasks).course (s.rules c) evs) a ∨
        Batch.Refused (s.rules c) i t ((s.prepare world c.tasks).course (s.rules c) evs) a) := by
  have hat : (s.prepare world c.tasks).tasks[i]? = some (t, .waiting) := by
    rw [getElem?_prepare, ht]
    rfl
  rcases Batch.story_runEvents (d := s.rules c) evs hat with ⟨st, hst, hstory⟩
  rw [← hend] at hst
  rcases hdone i t st hst with ⟨a, rfl⟩
  refine ⟨a, ?_, hstory⟩
  rw [Batch.getElem?_results hdone, hst]
  rfl

/-- The whole course of a call: what runs at once, and what each of its tasks has been through. -/
theorem call_stories (hcount : s.completed = s.submitted) (hlimit : 0 < s.limit) (world : σ)
    (c : BatchCall σ α) :
    let b := (s.call world c).1
    ∃ rest, (∀ ev ∈ rest, ev.IsInside) ∧
      b = (s.prepare world c.tasks).runEvents (s.rules c) (c.events ++ rest) ∧
      let ms := (s.prepare world c.tasks).course (s.rules c) (c.events ++ rest)
      (∀ m ∈ ms, m.1.running ≤ s.limit) ∧ b.running = 0 ∧
      b.results.length = c.tasks.length ∧
      ∀ (i : Nat) t, c.tasks[i]? = some t → ∃ a, b.results[i]? = some a ∧
        (Batch.Ran (s.rules c) i t ms a ∨ Batch.Refused (s.rules c) i t ms a) := by
  intro b
  rcases call_course hcount hlimit world c with ⟨rest, hinside, hend, hbounds, hbound, hdone⟩
  refine ⟨rest, hinside, hend, ?_, ?_, (Batch.length_results hdone).trans hbound.length_eq, ?_⟩
  · -- A body runs in a slot of its own.
    intro m hm
    exact Nat.le_trans m.1.running_le_active (hbounds m hm).active_le
  · -- All tasks are finished, so none of them runs.
    apply List.countP_eq_zero.mpr
    intro ts hts
    rcases List.getElem?_of_mem hts with ⟨i, hi⟩
    rcases hdone i ts.1 ts.2 hi with ⟨a, ha⟩
    simp [ha, TaskState.isRunning]
  · intro i t ht
    exact call_task hend hdone ht

/-- However the dispatcher, the workers and what happens outside take turns, and after any earlier
batches: no more bodies run at once than there are slots; a body is started at most once, and never if
a check finds that no further task may be started; in the end no body runs, and every task has the
result it has returned, or a failed one with its name that says what became of it. Every task is
counted and reported once. -/
theorem callAll_disciplined (limit : Int) (world : σ) (earlier : List (BatchCall σ Result)) :
    let bs := ((ofLimit limit).callAll world earlier).1
    let s := ((ofLimit limit).callAll world earlier).2
    (s.completed = s.submitted ∧ s.submitted = (earlier.map (·.tasks.length)).sum ∧
      (bs.flatMap (·.progress)).length = s.submitted ∧
      ∀ p ∈ bs.flatMap (·.progress), p.1 ≤ p.2) ∧
    ∀ (world' : σ) (tasks : List (Task σ Result)) (stop : σ → Option Failure)
      (events : List (BatchEvent (σ → σ))),
      let c : BatchCall σ Result :=
        { tasks := tasks, stop := stop, fallback := Campaign.failedTask, events := events }
      let d := s.rules c
      let b := (s.call world' c).1
      ∃ rest, (∀ ev ∈ rest, ev.IsInside) ∧
        b = (s.prepare world' tasks).runEvents d (events ++ rest) ∧
        let ms := (s.prepare world' tasks).course d (events ++ rest)
        (∀ m ∈ ms, (m.1.running : Int) ≤ max 1 limit) ∧ b.running = 0 ∧
        b.results.length = tasks.length ∧
        ∀ (i : Nat) t, tasks[i]? = some t →
          ms.countP (Batch.starts d i) ≤ 1 ∧
          (∀ m ∈ ms, Batch.Checks i m → ∀ why, stop m.1.world = some why →
            ms.countP (Batch.starts d i) = 0 ∧
              b.results[i]? = some { function := t.name, failure := some (.notDispatched why) }) ∧
          ((ms.countP (Batch.starts d i) = 1 ∧
              ((∃ r, t.body.Ends (Batch.turns i ms) (.returned r) ∧ b.results[i]? = some r) ∨
                (t.body.Ends (Batch.turns i ms) .nothing ∧
                  b.results[i]? = some
                    { function := t.name
                      failure := some (.other ("task " ++ t.name ++ " returned no result")) }) ∨
                ∃ why, t.body.Ends (Batch.turns i ms) (.panicked why) ∧
                  b.results[i]? = some
                    { function := t.name, failure := some (.panicked t.name why) })) ∨
            (ms.countP (Batch.starts d i) = 0 ∧ ∃ m ∈ ms, Batch.Checks i m ∧
              ∃ why, stop m.1.world = some why ∧
                b.results[i]? = some
                  { function := t.name, failure := some (.notDispatched why) })) := by
  intro bs s
  have hslots : ((ofLimit limit).limit : Int) ≤ max 1 limit := by
    unfold ofLimit
    split
    · simp only
      omega
    · simp only
      omega
  rcases callAll_counts (s := ofLimit limit) rfl (limit_ofLimit_pos limit) world earlier with
    ⟨hlimit, hcount, hsubmitted, hreports, hle⟩
  refine ⟨⟨hcount, ?_, ?_, hle⟩, ?_⟩
  · exact hsubmitted.trans (Nat.zero_add _)
  · exact hreports.trans (hsubmitted.trans (Nat.zero_add _)).symm
  · intro world' tasks stop events c d b
    have hlimit' : 0 < s.limit := hlimit ▸ limit_ofLimit_pos limit
    rcases call_stories hcount hlimit' world' c with
      ⟨rest, hinside, hend, hrunning, hnone, hlength, hstories⟩
    refine ⟨rest, hinside, hend, ?_, hnone, hlength, ?_⟩
    · intro m hm
      have hslot : m.1.running ≤ s.limit := hrunning m hm
      rw [hlimit] at hslot
      omega
    · intro i t ht
      rcases hstories i t ht with ⟨a, ha, hran | hrefused⟩
      · refine ⟨Nat.le_of_eq hran.starts_eq, ?_, Or.inl ⟨hran.starts_eq, ?_⟩⟩
        · intro m hm hcheck why hstop
          cases (hran.allowed m hm hcheck).symm.trans hstop
        · rcases hran.ends with ⟨e, hends, rfl⟩
          -- The body comes to an end in one of three ways.
          cases e with
          | returned r => exact Or.inl ⟨r, hends, ha⟩
          | nothing => exact Or.inr (Or.inl ⟨hends, ha⟩)
          | panicked why => exact Or.inr (Or.inr ⟨why, hends, ha⟩)
      · rcases hrefused.checked with ⟨m, hm, hcheck, why, hstop⟩
        refine ⟨Nat.le_trans (Nat.le_of_eq hrefused.starts_eq) (Nat.zero_le 1), ?_,
          Or.inr ⟨hrefused.starts_eq, m, hm, hcheck, why, hstop, ?_⟩⟩
        · intro m' hm' hcheck' why' hstop'
          exact ⟨hrefused.starts_eq,
            ha.trans (congrArg some (hrefused.result_eq m' hm' hcheck' why' hstop'))⟩
        · exact ha.trans (congrArg some (hrefused.result_eq m hm hcheck why hstop))

end Scheduler
end FaultChain
