import Mathlib.Data.List.Induction
import FaultChain.Work.Batch

/-!
# Batches of tasks come to an end

* `Batch.Moves`: all that one step inside a batch can do.
* `Batch.leads_complete`: finishing a batch is a sequence of such steps.
* `Batch.Moment.induction`: what is kept from one moment of a batch to the next holds at its end.
* `Batch.Ordered`: the dispatcher takes tasks in order, which every step keeps.
* `Batch.complete_finished`: when a batch is completed, all its tasks are finished.
-/

namespace FaultChain

/-- Whether an event happens inside the batch. -/
def BatchEvent.IsInside {ε : Type} : BatchEvent ε → Prop
  | .outside _ => False
  | _ => True

/-- What happens outside stands for an event of the list before. -/
theorem BatchEvent.exists_of_outside_mem_map {ε δ : Type} {f : ε → δ} {evs : List (BatchEvent ε)}
    {x : δ} (h : .outside x ∈ evs.map (·.map f)) : ∃ e, .outside e ∈ evs ∧ f e = x := by
  rcases List.mem_map.mp h with ⟨ev, hev, heq⟩
  cases ev with
  | outside e =>
    cases heq
    exact ⟨e, hev, rfl⟩
  | look => cases heq
  | admission => cases heq
  | start i => cases heq
  | advance i => cases heq

/-- There is at least one slot. -/
theorem Scheduler.limit_ofLimit_pos (n : Int) : 0 < (ofLimit n).limit := by
  unfold ofLimit
  split
  · exact Nat.one_pos
  · simp only
    omega

namespace Batch

variable {σ α : Type} {d : Dispatch σ α} {b : Batch σ α}

/-! ## One step -/

theorem getElem?_put (b : Batch σ α) (i j : Nat) (s : TaskState σ α) :
    (b.put i s).tasks[j]? = b.tasks[j]?.map fun t => if i = j then (t.1, s) else t := by
  simp only [put, List.getElem?_modify]
  rfl

theorem getElem?_put_self {i : Nat} {t : Task σ α} {st : TaskState σ α}
    (h : b.tasks[i]? = some (t, st)) (s : TaskState σ α) :
    (b.put i s).tasks[i]? = some (t, s) := by
  simp [getElem?_put, h]

theorem getElem?_put_of_ne (b : Batch σ α) {i j : Nat} (h : i ≠ j) (s : TaskState σ α) :
    (b.put i s).tasks[j]? = b.tasks[j]? := by
  simp [getElem?_put, h]

/-- What one step inside a batch can do. -/
inductive Moves (d : Dispatch σ α) (b : Batch σ α) : Batch σ α → Prop where
  | idle : Moves d b b
  /-- The dispatcher looks at the first waiting task and refuses it. -/
  | refused {i : Nat} {t : Task σ α} {why : Failure} (hat : b.tasks[i]? = some (t, .waiting))
      (hfirst : ∀ j t', j < i → b.tasks[j]? ≠ some (t', .waiting))
      (hstop : d.stop b.world = some why) : Moves d b (b.refuse d i t.name why)
  | cleared {i : Nat} {t : Task σ α} (hat : b.tasks[i]? = some (t, .waiting))
      (hfirst : ∀ j t', j < i → b.tasks[j]? ≠ some (t', .waiting))
      (hgo : d.stop b.world = none) : Moves d b (b.put i .cleared)
  | admitted {i : Nat} {t : Task σ α} (hat : b.tasks[i]? = some (t, .cleared))
      (hfree : b.active < d.limit) : Moves d b (b.put i .admitted)
  | turned {i : Nat} {t : Task σ α} {why : Failure} (hat : b.tasks[i]? = some (t, .admitted))
      (hstop : d.stop b.world = some why) : Moves d b (b.refuse d i t.name why)
  | started {i : Nat} {t : Task σ α} (hat : b.tasks[i]? = some (t, .admitted))
      (hgo : d.stop b.world = none) : Moves d b (b.put i (.running t.body))
  | finished {i : Nat} {t : Task σ α} {e : TaskEnd α}
      (hat : b.tasks[i]? = some (t, .running (.done e))) :
      Moves d b (b.finish i (settle d t.name e))
  | advanced {i : Nat} {t : Task σ α} {act : σ → σ} {next : σ → Job σ (TaskEnd α)}
      (hat : b.tasks[i]? = some (t, .running (.step act next))) :
      Moves d b { b.put i (.running (next b.world)) with world := act b.world }

/-- The first task in a state. -/
theorem first?_eq_some {p : TaskState σ α → Bool} {i : Nat} (h : b.first? p = some i) :
    (∃ t st, b.tasks[i]? = some (t, st) ∧ p st = true) ∧
      ∀ j t st, j < i → b.tasks[j]? = some (t, st) → p st = false := by
  obtain ⟨hlt, hi, hbefore⟩ := List.findIdx?_eq_some_iff_getElem.mp h
  refine ⟨⟨b.tasks[i].1, b.tasks[i].2, by simp [List.getElem?_eq_getElem hlt], hi⟩, ?_⟩
  intro j t st hj hat
  obtain ⟨hlt', heq⟩ := List.getElem?_eq_some_iff.mp hat
  simpa [heq] using hbefore j hj

theorem waiting?_eq_some {i : Nat} (h : b.waiting? = some i) :
    (∃ t, b.tasks[i]? = some (t, .waiting)) ∧
      ∀ j t, j < i → b.tasks[j]? ≠ some (t, .waiting) := by
  obtain ⟨⟨t, st, hat, hst⟩, hbefore⟩ := first?_eq_some h
  refine ⟨⟨t, ?_⟩, fun j t' hj hat' => Bool.noConfusion (hbefore j t' _ hj hat')⟩
  cases st with
  | waiting => exact hat
  | cleared => cases hst
  | admitted => cases hst
  | running => cases hst
  | finished => cases hst

theorem cleared?_eq_some {i : Nat} (h : b.cleared? = some i) :
    ∃ t, b.tasks[i]? = some (t, .cleared) := by
  obtain ⟨⟨t, st, hat, hst⟩, -⟩ := first?_eq_some h
  refine ⟨t, ?_⟩
  cases st with
  | cleared => exact hat
  | waiting => cases hst
  | admitted => cases hst
  | running => cases hst
  | finished => cases hst

theorem step_moves {ev : BatchEvent (σ → σ)} (hev : ev.IsInside) : Moves d b (b.step d ev) := by
  cases ev with
  | outside => exact hev.elim
  | look =>
    cases hcleared : b.cleared? with
    | some i => simpa [step, hcleared] using Moves.idle
    | none =>
      cases hwaiting : b.waiting? with
      | none => simpa [step, hcleared, hwaiting] using Moves.idle
      | some i =>
        obtain ⟨⟨t, hat⟩, hfirst⟩ := waiting?_eq_some hwaiting
        cases hstop : d.stop b.world with
        | some why =>
          simpa [step, hcleared, hwaiting, hat, hstop] using Moves.refused hat hfirst hstop
        | none => simpa [step, hcleared, hwaiting, hat, hstop] using Moves.cleared hat hfirst hstop
  | admission =>
    cases hcleared : b.cleared? with
    | none => simpa [step, hcleared] using Moves.idle
    | some i =>
      obtain ⟨t, hat⟩ := cleared?_eq_some hcleared
      by_cases hfree : b.active < d.limit
      · simpa [step, hcleared, hfree] using Moves.admitted hat hfree
      · simpa [step, hcleared, hfree] using Moves.idle
  | start i =>
    simp only [step]
    split
    · rename_i t hat
      cases hstop : d.stop b.world with
      | some why => exact .turned hat hstop
      | none => exact .started hat hstop
    · exact .idle
  | advance i =>
    simp only [step]
    split
    · rename_i t e hat
      exact .finished hat
    -- Of the running tasks one may be at its end, and another with an action to take.
    · rename_i t act next hat
      exact .advanced hat
    · exact .idle

/-! ## Finishing as a sequence of steps -/

/-- One batch leads to another by events inside it. -/
def Leads (d : Dispatch σ α) (b b' : Batch σ α) : Prop :=
  ∃ evs : List (BatchEvent (σ → σ)), (∀ ev ∈ evs, ev.IsInside) ∧ b' = b.runEvents d evs

theorem Leads.refl (d : Dispatch σ α) (b : Batch σ α) : Leads d b b := ⟨[], by simp, rfl⟩

theorem Leads.step {ev : BatchEvent (σ → σ)} (hev : ev.IsInside) : Leads d b (b.step d ev) :=
  ⟨[ev], by simpa using hev, rfl⟩

theorem Leads.trans {b b' b'' : Batch σ α} (h : Leads d b b') (h' : Leads d b' b'') :
    Leads d b b'' := by
  obtain ⟨evs, hevs, rfl⟩ := h
  obtain ⟨evs', hevs', rfl⟩ := h'
  refine ⟨evs ++ evs', ?_, by simp [runEvents]⟩
  intro ev hev
  rcases List.mem_append.mp hev with hev | hev
  · exact hevs ev hev
  · exact hevs' ev hev

theorem leads_exhaust (i : Nat) (job : Job σ (TaskEnd α)) (b : Batch σ α) :
    Leads d b (exhaust d i job b) := by
  induction job generalizing b with
  | done e => exact Leads.step trivial
  | step act next ih =>
    have hadvance : Leads d b (b.step d (.advance i)) := Leads.step trivial
    exact hadvance.trans (ih _ _)

theorem leads_drain (b : Batch σ α) (i : Nat) : Leads d b (drain d b i) := by
  unfold drain
  simp only
  have hstart : Leads d b (b.step d (.start i)) := Leads.step trivial
  split
  · exact hstart.trans (leads_exhaust _ _ _)
  · exact hstart

theorem leads_serve (b : Batch σ α) (i : Nat) : Leads d b (serve d b i) := by
  unfold serve
  split
  · exact Leads.refl d b
  · refine Leads.trans ⟨[.look, .admission], ?_, rfl⟩ (leads_drain _ _)
    intro ev hev
    simp only [List.mem_cons, List.not_mem_nil, or_false] at hev
    rcases hev with rfl | rfl
    · trivial
    · trivial

theorem leads_foldl {f : Batch σ α → Nat → Batch σ α} (hf : ∀ b i, Leads d b (f b i))
    (is : List Nat) (b : Batch σ α) : Leads d b (is.foldl f b) := by
  induction is generalizing b with
  | nil => exact Leads.refl d b
  | cons i is ih => exact (hf b i).trans (ih _)

/-- Finishing a batch is a sequence of steps inside it. -/
theorem leads_complete (b : Batch σ α) : Leads d b (b.complete d) :=
  (leads_foldl leads_drain _ b).trans (leads_foldl leads_serve _ _)

/-- What every step inside a batch keeps holds at its end. -/
theorem Leads.keeps {P : Batch σ α → Prop} {b b' : Batch σ α} (h : Leads d b b')
    (hstep : ∀ b b', P b → Moves d b b' → P b') (hb : P b) : P b' := by
  obtain ⟨evs, hevs, rfl⟩ := h
  induction evs generalizing b with
  | nil => exact hb
  | cons ev evs ih =>
    have hmove : Moves d b (b.step d ev) := step_moves (hevs ev (by simp))
    exact ih (hstep _ _ hb hmove) fun ev' hev' => hevs ev' (by simp [hev'])

/-! ## Moments of a batch -/

/-- A batch under way: some of the given events have happened, or all of them and then any further
steps inside it. -/
def Moment (d : Dispatch σ α) (events : List (BatchEvent (σ → σ))) (b₀ b : Batch σ α) : Prop :=
  (∃ n, b = b₀.runEvents d (events.take n)) ∨ Leads d (b₀.runEvents d events) b

theorem moment_complete (events : List (BatchEvent (σ → σ))) (b₀ : Batch σ α) :
    Moment d events b₀ ((b₀.runEvents d events).complete d) :=
  Or.inr (leads_complete _)

theorem runEvents_snoc (evs : List (BatchEvent (σ → σ))) (ev : BatchEvent (σ → σ)) :
    b.runEvents d (evs ++ [ev]) = (b.runEvents d evs).step d ev := by
  simp [runEvents]

section

variable {P : Batch σ α → Prop} {events : List (BatchEvent (σ → σ))} {b₀ : Batch σ α}

/-- What is kept from moment to moment is kept along the given events, one at a time. -/
theorem Moment.along_given (hstart : P b₀)
    (hmove : ∀ b b', Moment d events b₀ b → Moment d events b₀ b' → Moves d b b' → P b → P b')
    (hout : ∀ b change, .outside change ∈ events → Moment d events b₀ b →
      Moment d events b₀ { b with world := change b.world } → P b →
        P { b with world := change b.world }) (n : Nat) :
    P (b₀.runEvents d (events.take n)) := by
  induction n with
  | zero => exact hstart
  | succ n ih =>
    by_cases hn : n < events.length
    · have hstep : b₀.runEvents d (events.take (n + 1)) =
          (b₀.runEvents d (events.take n)).step d events[n] := by
        rw [List.take_succ_eq_append_getElem hn, runEvents_snoc]
      have hbefore : Moment d events b₀ (b₀.runEvents d (events.take n)) := Or.inl ⟨n, rfl⟩
      have hafter : Moment d events b₀ ((b₀.runEvents d (events.take n)).step d events[n]) :=
        Or.inl ⟨n + 1, hstep.symm⟩
      rw [hstep]
      -- Only what happens outside of the batch is no move of the batch itself.
      cases hev : events[n] with
      | outside change =>
        rw [hev] at hafter
        exact hout _ change (hev ▸ List.getElem_mem hn) hbefore hafter ih
      | look => exact hmove _ _ hbefore (hev ▸ hafter) (step_moves trivial) ih
      | admission => exact hmove _ _ hbefore (hev ▸ hafter) (step_moves trivial) ih
      | start i => exact hmove _ _ hbefore (hev ▸ hafter) (step_moves trivial) ih
      | advance i => exact hmove _ _ hbefore (hev ▸ hafter) (step_moves trivial) ih
    · have hsame : events.take (n + 1) = events.take n := by
        rw [List.take_of_length_le (by omega), List.take_of_length_le (by omega)]
      rw [hsame]
      exact ih

/-- What is kept from moment to moment is kept once all given events have happened. -/
theorem Moment.along_further {b : Batch σ α}
    (hmove : ∀ b b', Moment d events b₀ b → Moment d events b₀ b' → Moves d b b' → P b → P b')
    (hgiven : P (b₀.runEvents d events)) (hleads : Leads d (b₀.runEvents d events) b) : P b := by
  obtain ⟨evs, hevs, rfl⟩ := hleads
  -- The last step is taken off, so that what leads to it is a moment as well.
  induction evs using List.reverseRecOn with
  | nil => exact hgiven
  | append_singleton evs ev ih =>
    have hinside : ∀ ev' ∈ evs, ev'.IsInside := fun ev' hev' =>
      hevs ev' (List.mem_append_left _ hev')
    have hbefore : Moment d events b₀ ((b₀.runEvents d events).runEvents d evs) :=
      Or.inr ⟨evs, hinside, rfl⟩
    have hafter : Moment d events b₀ ((b₀.runEvents d events).runEvents d (evs ++ [ev])) :=
      Or.inr ⟨evs ++ [ev], hevs, rfl⟩
    have hmoves : Moves d ((b₀.runEvents d events).runEvents d evs)
        ((b₀.runEvents d events).runEvents d (evs ++ [ev])) := by
      rw [runEvents_snoc]
      exact step_moves (hevs ev (by simp))
    exact hmove _ _ hbefore hafter hmoves (ih hinside)

/-- What holds at the start of a batch and is kept from moment to moment holds at all moments. -/
theorem Moment.induction (hstart : P b₀)
    (hmove : ∀ b b', Moment d events b₀ b → Moment d events b₀ b' → Moves d b b' → P b → P b')
    (hout : ∀ b change, .outside change ∈ events → Moment d events b₀ b →
      Moment d events b₀ { b with world := change b.world } → P b →
        P { b with world := change b.world })
    {b : Batch σ α} (h : Moment d events b₀ b) : P b := by
  have hgiven := Moment.along_given hstart hmove hout
  rcases h with ⟨n, rfl⟩ | hleads
  · exact hgiven n
  · have hall : P (b₀.runEvents d events) := by simpa using hgiven events.length
    exact Moment.along_further hmove hall hleads

end

/-- A step changes how far tasks are, but not which tasks there are. -/
theorem Moves.tasks_eq {b' : Batch σ α} (h : Moves d b b') :
    b'.tasks.map (·.1) = b.tasks.map (·.1) := by
  -- Whatever a move does to a task, it only puts another state beside it.
  have hput : ∀ i s, ((b.put i s).tasks).map (·.1) = b.tasks.map (·.1) := by
    intro i s
    refine List.ext_getElem? ?_
    intro j
    rw [List.getElem?_map, List.getElem?_map, getElem?_put]
    cases b.tasks[j]? with
    | none => rfl
    | some t => by_cases hij : i = j <;> simp [hij]
  cases h with
  | idle => rfl
  | refused => exact hput _ _
  | cleared => exact hput _ _
  | admitted => exact hput _ _
  | turned => exact hput _ _
  | started => exact hput _ _
  | finished => exact hput _ _
  | advanced => exact hput _ _

theorem length_leads {b b' : Batch σ α} (h : Leads d b b') : b'.tasks.length = b.tasks.length := by
  have htasks : b'.tasks.map (·.1) = b.tasks.map (·.1) :=
    h.keeps (P := fun b' => b'.tasks.map (·.1) = b.tasks.map (·.1))
      (fun _ _ heq hmove => hmove.tasks_eq.trans heq) rfl
  simpa using congrArg List.length htasks

/-! ## The order of tasks -/

/-- Behind a waiting task there are only waiting ones. -/
def Ordered (b : Batch σ α) : Prop :=
  ∀ (i j : Nat) (t t' : Task σ α) (st : TaskState σ α), i ≤ j →
    b.tasks[i]? = some (t, .waiting) → b.tasks[j]? = some (t', st) → st = .waiting

/-- A task that is no longer waiting, with no waiting one before it. -/
theorem Ordered.put (h : Ordered b) {i : Nat} {t : Task σ α} {st s : TaskState σ α}
    (hat : b.tasks[i]? = some (t, st)) (hs : s ≠ .waiting)
    (hfirst : st = .waiting → ∀ j t', j < i → b.tasks[j]? ≠ some (t', .waiting)) :
    Ordered (b.put i s) := by
  intro j k t₁ t₂ st' hjk hj hk
  have hij : i ≠ j := by
    rintro rfl
    rw [getElem?_put_self hat] at hj
    cases hj
    exact hs rfl
  rw [getElem?_put_of_ne b hij] at hj
  by_cases hik : i = k
  · subst hik
    have hst := h j i t₁ t st hjk hj hat
    exact absurd hj (hfirst hst j t₁ (Nat.lt_of_le_of_ne hjk hij.symm))
  · rw [getElem?_put_of_ne b hik] at hk
    exact h j k t₁ t₂ st' hjk hj hk

theorem Ordered.moves {b' : Batch σ α} (h : Ordered b) (hmove : Moves d b b') : Ordered b' := by
  cases hmove with
  | idle => exact h
  | refused hat hfirst _ => exact h.put (s := .finished _) hat nofun fun _ => hfirst
  | cleared hat hfirst _ => exact h.put hat nofun fun _ => hfirst
  | admitted hat _ => exact h.put hat nofun nofun
  | turned hat _ => exact h.put (s := .finished _) hat nofun nofun
  | started hat _ => exact h.put hat nofun nofun
  | finished hat => exact h.put (s := .finished _) hat nofun nofun
  | advanced hat => exact h.put (s := .running _) hat nofun nofun

/-! ## All tasks are finished -/

/-- A task of a batch is finished in another one, and no other task differs. -/
structure FinishesOne (i : Nat) (t : Task σ α) (b b' : Batch σ α) : Prop where
  done : ∃ a, b'.tasks[i]? = some (t, .finished a)
  others : ∀ j, j ≠ i → b'.tasks[j]? = b.tasks[j]?

theorem FinishesOne.of_others {i : Nat} {t : Task σ α} {b₁ b' : Batch σ α}
    (h : FinishesOne i t b₁ b') (hsame : ∀ j, j ≠ i → b₁.tasks[j]? = b.tasks[j]?) :
    FinishesOne i t b b' where
  done := h.done
  others := fun j hj => (h.others j hj).trans (hsame j hj)

theorem FinishesOne.of_put {i : Nat} {t : Task σ α} {s : TaskState σ α} {b' : Batch σ α}
    (h : FinishesOne i t (b.put i s) b') : FinishesOne i t b b' :=
  h.of_others fun _ hj => getElem?_put_of_ne b hj.symm s

theorem finishesOne_finish {i : Nat} {t : Task σ α} {st : TaskState σ α}
    (hat : b.tasks[i]? = some (t, st)) (a : α) : FinishesOne i t b (b.finish i a) where
  done := ⟨a, getElem?_put_self hat _⟩
  others := fun _ hj => getElem?_put_of_ne b hj.symm _

/-- A running task comes to its end. The induction is on what is left of its body. -/
theorem finishesOne_exhaust {i : Nat} {t : Task σ α} (job : Job σ (TaskEnd α)) {b : Batch σ α}
    (hat : b.tasks[i]? = some (t, .running job)) : FinishesOne i t b (exhaust d i job b) := by
  induction job generalizing b with
  | done e =>
    have hstep : exhaust d i (.done e) b = b.finish i (settle d t.name e) := by
      simp [exhaust, step, hat]
    rw [hstep]
    exact finishesOne_finish hat _
  | step act next ih =>
    let b' : Batch σ α := { b.put i (.running (next b.world)) with world := act b.world }
    have hstep : exhaust d i (.step act next) b = exhaust d i (next b.world) b' := by
      simp [exhaust, step, hat, b']
    have hat' : b'.tasks[i]? = some (t, .running (next b.world)) := getElem?_put_self hat _
    rw [hstep]
    exact (ih b.world hat').of_others fun _ hj => getElem?_put_of_ne b hj.symm _

/-- A task without a slot is left alone. -/
theorem drain_of_not_active {i : Nat}
    (h : ∀ t st, b.tasks[i]? = some (t, st) → st.isActive = false) : drain d b i = b := by
  cases hat : b.tasks[i]? with
  | none => simp [drain, step, hat]
  | some ts =>
    obtain ⟨t, st⟩ := ts
    have hidle := h t st hat
    cases st with
    | waiting => simp [drain, step, hat]
    | cleared => simp [drain, step, hat]
    | finished a => simp [drain, step, hat]
    | admitted => cases hidle
    | running job => cases hidle

/-- A task with a slot comes to its end. -/
theorem finishesOne_drain {i : Nat} {t : Task σ α} {st : TaskState σ α}
    (hat : b.tasks[i]? = some (t, st)) (hactive : st.isActive = true) :
    FinishesOne i t b (drain d b i) := by
  cases st with
  | waiting => cases hactive
  | cleared => cases hactive
  | finished a => cases hactive
  | running job =>
    have hdrain : drain d b i = exhaust d i job b := by simp [drain, step, hat]
    rw [hdrain]
    exact finishesOne_exhaust job hat
  -- A worker that starts the task looks once more whether it may.
  | admitted =>
    cases hstop : d.stop b.world with
    | some why =>
      have hrefuse : drain d b i = b.refuse d i t.name why := by
        have hfin := getElem?_put_self hat
          (.finished (d.fallback t.name (.notDispatched why)))
        simp [drain, step, hat, hstop, refuse, finish, hfin]
      rw [hrefuse]
      exact finishesOne_finish hat _
    | none =>
      have hrun := getElem?_put_self hat (.running t.body)
      have hdrain : drain d b i = exhaust d i t.body (b.put i (.running t.body)) := by
        simp [drain, step, hat, hstop, hrun]
      rw [hdrain]
      exact (finishesOne_exhaust t.body hrun).of_put

/-- No task holds a slot. -/
def Quiet (b : Batch σ α) : Prop :=
  ∀ (i : Nat) (t : Task σ α) (st : TaskState σ α), b.tasks[i]? = some (t, st) →
    st.isActive = false

/-- Draining a task leaves it without a slot. -/
theorem isActive_drain {k i : Nat} {t : Task σ α} {st : TaskState σ α}
    (hat : (drain d b k).tasks[i]? = some (t, st)) :
    st.isActive = false ∨ i ≠ k ∧ b.tasks[i]? = some (t, st) := by
  by_cases hactive : ∃ t' st', b.tasks[k]? = some (t', st') ∧ st'.isActive = true
  · obtain ⟨t', st', hold, hactive⟩ := hactive
    have hfinishes := finishesOne_drain (d := d) hold hactive
    by_cases hik : i = k
    · obtain ⟨a, hdone⟩ := hfinishes.done
      subst hik
      rw [hdone] at hat
      cases hat
      exact Or.inl rfl
    · rw [hfinishes.others i hik] at hat
      exact Or.inr ⟨hik, hat⟩
  -- Without a slot the task is left as it is.
  · have hidle : ∀ t' st', b.tasks[k]? = some (t', st') → st'.isActive = false := by
      intro t' st' hold
      exact Bool.eq_false_iff.mpr fun h => hactive ⟨t', st', hold, h⟩
    rw [drain_of_not_active hidle] at hat
    by_cases hik : i = k
    · subst hik
      exact Or.inl (hidle t st hat)
    · exact Or.inr ⟨hik, hat⟩

theorem quiet_foldl_drain (is : List Nat) (b : Batch σ α)
    (h : ∀ i t st, b.tasks[i]? = some (t, st) → i ∉ is → st.isActive = false) :
    Quiet (is.foldl (drain d) b) := by
  induction is generalizing b with
  | nil => exact fun i t st hat => h i t st hat List.not_mem_nil
  | cons k is ih =>
    refine ih _ ?_
    intro i t st hat hi
    rcases isActive_drain hat with hidle | ⟨hik, hold⟩
    · exact hidle
    · exact h i t st hold (by simp [hik, hi])

theorem Quiet.put (h : Quiet b) (i : Nat) {s : TaskState σ α} (hs : s.isActive = false) :
    Quiet (b.put i s) := by
  intro j t st hat
  rw [getElem?_put] at hat
  cases hold : b.tasks[j]? with
  | none => simp [hold] at hat
  | some ts =>
    by_cases hij : i = j
    · have hst : s = st := by simpa [hold, hij] using congrArg (Option.map (·.2)) hat
      exact hst ▸ hs
    · have hts : ts = (t, st) := by simpa [hold, hij] using hat
      exact h j t st (hold.trans (congrArg some hts))

theorem Quiet.active_eq_zero (h : Quiet b) : b.active = 0 := by
  rw [active, List.countP_eq_zero]
  intro ts hts
  obtain ⟨i, hi⟩ := List.getElem?_of_mem hts
  simp [h i ts.1 ts.2 hi]

theorem first?_eq_some_of {p : TaskState σ α → Bool} {k : Nat} {t : Task σ α}
    {st : TaskState σ α} (hat : b.tasks[k]? = some (t, st)) (hst : p st = true)
    (hbefore : ∀ i t' st', i < k → b.tasks[i]? = some (t', st') → p st' = false) :
    b.first? p = some k := by
  obtain ⟨hlt, heq⟩ := List.getElem?_eq_some_iff.mp hat
  refine List.findIdx?_eq_some_iff_getElem.mpr ⟨hlt, by simpa [heq] using hst, ?_⟩
  intro i hi
  have hlt' : i < b.tasks.length := Nat.lt_trans hi hlt
  have hbefore' := hbefore i b.tasks[i].1 b.tasks[i].2 hi (by simp [List.getElem?_eq_getElem hlt'])
  simpa using hbefore'

theorem first?_eq_none_of {p : TaskState σ α → Bool}
    (h : ∀ (i : Nat) t st, b.tasks[i]? = some (t, st) → p st = false) : b.first? p = none := by
  refine List.findIdx?_eq_none_iff.mpr ?_
  intro ts hts
  obtain ⟨i, hi⟩ := List.getElem?_of_mem hts
  exact h i ts.1 ts.2 hi

/-- All tasks before a position are finished. -/
def FinishedBefore (b : Batch σ α) (k : Nat) : Prop :=
  ∀ i t st, i < k → b.tasks[i]? = some (t, st) → ∃ a, st = .finished a

section

variable {k : Nat} {t : Task σ α}

theorem FinishedBefore.cleared?_eq (hbefore : FinishedBefore b k)
    (hat : b.tasks[k]? = some (t, .cleared)) : b.cleared? = some k := by
  refine first?_eq_some_of hat rfl ?_
  intro i t' st' hi hi'
  obtain ⟨a, rfl⟩ := hbefore i t' st' hi hi'
  rfl

theorem FinishedBefore.waiting?_eq (hbefore : FinishedBefore b k)
    (hat : b.tasks[k]? = some (t, .waiting)) : b.waiting? = some k := by
  refine first?_eq_some_of hat rfl ?_
  intro i t' st' hi hi'
  obtain ⟨a, rfl⟩ := hbefore i t' st' hi hi'
  rfl

/-- The dispatcher waits with no task while only waiting tasks follow the finished ones. -/
theorem cleared?_eq_none_of (hstates : ∀ (i : Nat) (t' : Task σ α) (st' : TaskState σ α),
    b.tasks[i]? = some (t', st') → st' = .waiting ∨ ∃ a, st' = .finished a) :
    b.cleared? = none := by
  refine first?_eq_none_of ?_
  intro i t' st' hi
  rcases hstates i t' st' hi with rfl | ⟨a, rfl⟩
  · rfl
  · rfl

/-- A cleared task gets a slot, since no other task holds one, and comes to its end. -/
theorem finishesOne_admission (hlimit : 0 < d.limit) (hat : b.tasks[k]? = some (t, .cleared))
    (hquiet : Quiet b) (hbefore : FinishedBefore b k) :
    FinishesOne k t b (drain d (b.step d .admission) k) := by
  have hstep : b.step d .admission = b.put k .admitted := by
    simp [step, hbefore.cleared?_eq hat, hquiet.active_eq_zero, hlimit]
  rw [hstep]
  exact (finishesOne_drain (getElem?_put_self hat _) rfl).of_put

/-- A waiting task that the dispatcher refuses stays refused. -/
theorem finishesOne_refusal (hat : b.tasks[k]? = some (t, .waiting)) {why : Failure}
    (hlook : b.step d .look = b.refuse d k t.name why)
    (hstates : ∀ (i : Nat) (t' : Task σ α) (st' : TaskState σ α),
      b.tasks[i]? = some (t', st') → st' = .waiting ∨ ∃ a, st' = .finished a) :
    FinishesOne k t b (serve d b k) := by
  have hrefused : FinishesOne k t b (b.refuse d k t.name why) := finishesOne_finish hat _
  obtain ⟨a, hdone⟩ := hrefused.done
  -- All others wait or are finished, so nobody is left to be admitted.
  have hnone : (b.refuse d k t.name why).cleared? = none := by
    refine cleared?_eq_none_of ?_
    intro i t' st' hi
    by_cases hik : i = k
    · subst hik
      rw [hdone] at hi
      cases hi
      exact Or.inr ⟨a, rfl⟩
    · rw [hrefused.others i hik] at hi
      exact hstates i t' st' hi
  have hserve : serve d b k = b.refuse d k t.name why := by
    have hadmission : (b.refuse d k t.name why).step d .admission = b.refuse d k t.name why := by
      simp [step, hnone]
    have hdrain : drain d (b.refuse d k t.name why) k = b.refuse d k t.name why := by
      refine drain_of_not_active ?_
      intro t' st' hi
      rw [hdone] at hi
      cases hi
      rfl
    simp [serve, hat, runEvents, hlook, hadmission, hdrain]
  rw [hserve]
  exact hrefused

/-- The dispatcher's next task is taken to its end, and nothing else moves. -/
theorem finishesOne_serve (hlimit : 0 < d.limit) (hord : Ordered b) (hquiet : Quiet b)
    {st : TaskState σ α} (hat : b.tasks[k]? = some (t, st)) (hbefore : FinishedBefore b k) :
    FinishesOne k t b (serve d b k) := by
  cases st with
  | finished a =>
    have hsame : serve d b k = b := by simp [serve, hat]
    rw [hsame]
    exact ⟨⟨a, hat⟩, fun _ _ => rfl⟩
  | admitted => exact absurd (hquiet k t _ hat) nofun
  | running job => exact absurd (hquiet k t _ hat) nofun
  | cleared =>
    have hlook : b.step d .look = b := by simp [step, hbefore.cleared?_eq hat]
    have hserve : serve d b k = drain d (b.step d .admission) k := by
      simp [serve, hat, runEvents, hlook]
    rw [hserve]
    exact finishesOne_admission hlimit hat hquiet hbefore
  | waiting =>
    -- From this position on all wait, and before it all are finished.
    have hstates : ∀ (i : Nat) (t' : Task σ α) (st' : TaskState σ α),
        b.tasks[i]? = some (t', st') → st' = .waiting ∨ ∃ a, st' = .finished a := by
      intro i t' st' hi
      by_cases hik : k ≤ i
      · exact Or.inl (hord k i t t' st' hik hat hi)
      · exact Or.inr (hbefore i t' st' (Nat.lt_of_not_le hik) hi)
    have hcleared := cleared?_eq_none_of hstates
    have hwaiting := hbefore.waiting?_eq hat
    cases hstop : d.stop b.world with
    | none =>
      have hlook : b.step d .look = b.put k .cleared := by
        simp [step, hcleared, hwaiting, hat, hstop]
      have hserve : serve d b k = drain d ((b.put k .cleared).step d .admission) k := by
        simp [serve, hat, runEvents, hlook]
      have hbefore' : FinishedBefore (b.put k .cleared) k := by
        intro i t' st' hi hi'
        rw [getElem?_put_of_ne b (Nat.ne_of_gt hi)] at hi'
        exact hbefore i t' st' hi hi'
      rw [hserve]
      exact (finishesOne_admission hlimit (getElem?_put_self hat _) (hquiet.put k rfl)
        hbefore').of_put
    | some why =>
      have hlook : b.step d .look = b.refuse d k t.name why := by
        simp [step, hcleared, hwaiting, hat, hstop]
      exact finishesOne_refusal hat hlook hstates

end

/-- Serving the tasks from a position on finishes them all, if those before it are finished. -/
theorem foldl_serve_finished (hlimit : 0 < d.limit) (n k : Nat) (b : Batch σ α)
    (hlen : b.tasks.length = k + n) (hord : Ordered b) (hquiet : Quiet b)
    (hbefore : FinishedBefore b k) :
    ∀ (i : Nat) t st, ((List.range' k n).foldl (serve d) b).tasks[i]? = some (t, st) →
      ∃ a, st = .finished a := by
  -- The invariant: everything before the position is finished, and nothing holds a slot.
  induction n generalizing k b with
  | zero =>
    intro i t st hat
    have hlt : i < b.tasks.length := (List.getElem?_eq_some_iff.mp hat).1
    exact hbefore i t st (by omega) hat
  | succ n ih =>
    have hlt : k < b.tasks.length := by omega
    have hserved := finishesOne_serve hlimit hord hquiet
      (show b.tasks[k]? = some (b.tasks[k].1, b.tasks[k].2) by simp [List.getElem?_eq_getElem hlt])
      hbefore
    obtain ⟨a, hdone⟩ := hserved.done
    have hsteps := leads_serve (d := d) b k
    refine ih (k + 1) (serve d b k) ?_ (hsteps.keeps (fun _ _ h hm => h.moves hm) hord) ?_ ?_
    · rw [length_leads hsteps, hlen]
      omega
    · intro i t st hat
      by_cases hik : i = k
      · subst hik
        rw [hdone] at hat
        cases hat
        rfl
      · rw [hserved.others i hik] at hat
        exact hquiet i t st hat
    · intro i t st hi hat
      by_cases hik : i = k
      · subst hik
        rw [hdone] at hat
        cases hat
        exact ⟨a, rfl⟩
      · rw [hserved.others i hik] at hat
        exact hbefore i t st (by omega) hat

/-- When a batch is completed, all its tasks are finished. -/
theorem complete_finished (hlimit : 0 < d.limit) (hord : Ordered b) (i : Nat) (t : Task σ α)
    (st : TaskState σ α) (hat : (b.complete d).tasks[i]? = some (t, st)) :
    ∃ a, st = .finished a := by
  have hdrained := leads_foldl (leads_drain (d := d)) (List.range b.tasks.length) b
  have hquiet : Quiet ((List.range b.tasks.length).foldl (drain d) b) := by
    refine quiet_foldl_drain _ b ?_
    intro j t' st' hj hnot
    have hlt : j < b.tasks.length := (List.getElem?_eq_some_iff.mp hj).1
    exact absurd (List.mem_range.mpr hlt) hnot
  unfold complete at hat
  rw [List.range_eq_range'] at hat hdrained hquiet
  refine foldl_serve_finished hlimit b.tasks.length 0 _ ?_
    (hdrained.keeps (fun _ _ h hm => h.moves hm) hord) hquiet
    (fun _ _ _ hi => absurd hi (Nat.not_lt_zero _)) i t st hat
  rw [length_leads hdrained]
  omega

/-- The results of a batch whose tasks are all finished are in the order of the tasks. -/
theorem getElem?_results (h : ∀ (i : Nat) t st, b.tasks[i]? = some (t, st) →
    ∃ a, st = TaskState.finished a) (i : Nat) :
    b.results[i]? = b.tasks[i]?.bind (·.2.result?) := by
  unfold results
  generalize b.tasks = tasks at h
  induction tasks generalizing i with
  | nil => rfl
  | cons ts tasks ih =>
    obtain ⟨a, ha⟩ := h 0 ts.1 ts.2 rfl
    have hsome : ts.2.result? = some a := by rw [ha]; rfl
    rw [List.filterMap_cons, hsome]
    cases i with
    | zero => simp [hsome]
    | succ i =>
      simp only [List.getElem?_cons_succ]
      exact ih i fun j t st hat => h (j + 1) t st (by simpa using hat)

theorem length_results (h : ∀ (i : Nat) t st, b.tasks[i]? = some (t, st) →
    ∃ a, st = TaskState.finished a) : b.results.length = b.tasks.length := by
  -- Both lists have entries in the same places.
  have hsame : ∀ i : Nat, i < b.results.length ↔ i < b.tasks.length := by
    intro i
    have hat := getElem?_results h i
    cases hts : b.tasks[i]? with
    | none =>
      rw [hts] at hat
      simp only [List.getElem?_eq_none_iff, Option.bind_none] at hts hat
      omega
    | some ts =>
      rcases h i ts.1 ts.2 hts with ⟨a, ha⟩
      have hlt := (List.getElem?_eq_some_iff.mp hts).1
      have hlt' : i < b.results.length := by
        rw [hts, Option.bind_some, ha] at hat
        exact (List.getElem?_eq_some_iff.mp hat).1
      exact ⟨fun _ => hlt, fun _ => hlt'⟩
  have hleft := hsame b.results.length
  have hright := hsame b.tasks.length
  omega

end Batch
end FaultChain
