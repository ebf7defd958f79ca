import FaultChain.Proofs.Lists
import FaultChain.Proofs.Work.Courses

/-!
# Tasks that share a state

The tasks of a batch work on one state. They take groups from a pool and give them back, and draw
numbered tickets, each of which is handed out once. What each of them may count on is that the
others change the state in a known way only.

* `Job.Shares`: a job that plays by the rules, whatever the others do in between.
* `Job.shares_bind`: one such job after another.
* `Batch.Shared`: what holds at each moment of a batch of such jobs.
* `Scheduler.call_shares`: each task of a batch that is not refused gets what its job promises, a
  group whenever it asks for one, and tickets of its own; `Scheduler.call_shares_each` where the
  tasks are made for a list of things to be done.
-/

namespace FaultChain

variable {σ α β : Type}

/-- How a state is shared. -/
structure Sharing (σ : Type) where
  /-- What holds at every moment. -/
  inv : σ → Prop
  /-- How the state may change from one moment to a later one. -/
  rely : σ → σ → Prop
  /-- How many groups are free. -/
  free : σ → Nat
  /-- How many tickets were handed out. -/
  issued : σ → Nat

namespace Sharing

/-- Changes add up, and tickets are not taken back. -/
structure Lawful (x : Sharing σ) : Prop where
  refl : ∀ s, x.rely s s
  trans : ∀ {s s' s''}, x.rely s s' → x.rely s' s'' → x.rely s s''
  issued_le : ∀ {s s'}, x.rely s s' → x.issued s ≤ x.issued s'

end Sharing

/-- What a job has taken: the groups it holds and the tickets it has drawn. -/
structure Hand where
  groups : Nat := 0
  tickets : List Nat := []

/-- A change of the state by a job, and of what it has taken. It holds one group at most, and new
tickets are its own. -/
structure Sharing.Change (x : Sharing σ) (s s' : σ) (g g' : Hand) : Prop where
  inv : x.inv s'
  rely : x.rely s s'
  groups : x.free s' + g'.groups = x.free s + g.groups
  at_most_one : g'.groups ≤ 1
  tickets : g'.tickets = g.tickets ++ List.range' (x.issued s) (x.issued s' - x.issued s)

/-- The state changes, but not its pool and its tickets. -/
theorem Sharing.Change.of_same {x : Sharing σ} {s s' : σ} {g : Hand} (hinv : x.inv s')
    (hrely : x.rely s s') (hfree : x.free s' = x.free s) (hissued : x.issued s' = x.issued s)
    (hg : g.groups ≤ 1) : x.Change s s' g g := by
  refine ⟨hinv, hrely, by rw [hfree], hg, ?_⟩
  rw [hissued, Nat.sub_self]
  exact (List.append_nil _).symm

/-- What was taken is known from how the state has changed. -/
theorem Sharing.Change.hand_unique {x : Sharing σ} {s s' : σ} {g g₁ g₂ : Hand}
    (h₁ : x.Change s s' g g₁) (h₂ : x.Change s s' g g₂) : g₁ = g₂ := by
  have hgroups : g₁.groups = g₂.groups := by
    have := h₁.groups
    have := h₂.groups
    omega
  have htickets : g₁.tickets = g₂.tickets := h₁.tickets.trans h₂.tickets.symm
  cases g₁
  cases g₂
  cases hgroups
  cases htickets
  rfl

namespace Job

/-- A job that has taken `g`, and after whose latest step the state was `s₀`, plays by the rules,
and comes to `post`. A job without a group finds one that is free. -/
def Shares (x : Sharing σ) (post : Hand → α → σ → Prop) : Job σ α → Hand → σ → Prop
  | .done a, g, s₀ => post g a s₀
  | .step act next, g, s₀ =>
    ∀ s, x.rely s₀ s → x.inv s → (g.groups = 0 → 0 < x.free s) →
      ∃ g', x.Change s (act s) g g' ∧ (next s).Shares x post g' (act s)

section

variable {x : Sharing σ} {post : Hand → α → σ → Prop} {post' : Hand → β → σ → Prop} {g : Hand}
  {s₀ : σ}

theorem shares_pure {a : α} (h : post g a s₀) : (pure a : Job σ α).Shares x post g s₀ := h

theorem shares_atomic {f : σ → α × σ}
    (h : ∀ s, x.rely s₀ s → x.inv s → (g.groups = 0 → 0 < x.free s) →
      ∃ g', x.Change s (f s).2 g g' ∧ post g' (f s).1 (f s).2) :
    (atomic f).Shares x post g s₀ := h

/-- To look at the state changes nothing. -/
theorem shares_look (hx : x.Lawful) (hg : g.groups ≤ 1) (f : σ → α) :
    (look f).Shares x (fun g' a s => g' = g ∧ a = f s) g s₀ := by
  apply shares_atomic
  intro s _ hinv _
  exact ⟨g, .of_same hinv (hx.refl s) rfl rfl hg, rfl, rfl⟩

/-- One job after another. -/
theorem shares_bind (hx : x.Lawful) {j : Job σ α} {k : α → Job σ β}
    (hj : j.Shares x post g s₀)
    (hk : ∀ g' a s, x.rely s₀ s → post g' a s → (k a).Shares x post' g' s) :
    (j >>= k).Shares x post' g s₀ := by
  change (j.bind k).Shares x post' g s₀
  induction j generalizing g s₀ with
  | done a => exact hk g a s₀ (hx.refl s₀) hj
  | step act next ih =>
    intro s hrely hinv hgroup
    rcases hj s hrely hinv hgroup with ⟨g', hchange, hrest⟩
    refine ⟨g', hchange, ih s hrest ?_⟩
    -- What the first job comes to is seen from its last step on.
    intro g'' a s' hrely' hpost
    exact hk g'' a s' (hx.trans hrely (hx.trans hchange.rely hrely')) hpost

/-- What a job comes to may be said in a weaker way. -/
theorem shares_mono {post' : Hand → α → σ → Prop} (hx : x.Lawful) {j : Job σ α}
    (hj : j.Shares x post g s₀) (h : ∀ g' a s, x.rely s₀ s → post g' a s → post' g' a s) :
    j.Shares x post' g s₀ := by
  induction j generalizing g s₀ with
  | done a => exact h g a s₀ (hx.refl s₀) hj
  | step act next ih =>
    intro s hrely hinv hgroup
    rcases hj s hrely hinv hgroup with ⟨g', hchange, hrest⟩
    refine ⟨g', hchange, ih s hrest ?_⟩
    intro g'' a s' hrely'
    exact h g'' a s' (hx.trans hrely (hx.trans hchange.rely hrely'))

/-- What a job comes to in several respects, it comes to in all of them together. -/
theorem shares_forall {ι : Type} [Nonempty ι] {post : ι → Hand → α → σ → Prop} {j : Job σ α}
    (h : ∀ i, j.Shares x (post i) g s₀) : j.Shares x (fun g a s => ∀ i, post i g a s) g s₀ := by
  induction j generalizing g s₀ with
  | done a => exact h
  | step act next ih =>
    intro s hrely hinv hgroup
    rcases h (Classical.arbitrary ι) s hrely hinv hgroup with ⟨g', hchange, -⟩
    refine ⟨g', hchange, ih s fun i => ?_⟩
    rcases h i s hrely hinv hgroup with ⟨g'', hchange', hrest⟩
    exact hchange.hand_unique hchange' ▸ hrest

end

end Job

/-! ## What all tasks have taken -/

theorem sum_map_set {τ : Type} (f : τ → Nat) {xs : List τ} {i : Nat} {a : τ}
    (ha : xs[i]? = some a) (a' : τ) :
    ((xs.set i a').map f).sum + f a = (xs.map f).sum + f a' := by
  induction xs generalizing i with
  | nil => cases ha
  | cons y xs ih =>
    cases i with
    | zero =>
      cases ha
      simp only [List.set_cons_zero, List.map_cons, List.sum_cons]
      omega
    | succ i =>
      have hrest := ih (i := i) ha
      simp only [List.set_cons_succ, List.map_cons, List.sum_cons]
      omega

theorem perm_flatMap_set {τ υ : Type} (f : τ → List υ) {xs : List τ} {i : Nat} {a a' : τ}
    (ha : xs[i]? = some a) {new : List υ} (ha' : f a' = f a ++ new) :
    ((xs.set i a').flatMap f).Perm (xs.flatMap f ++ new) := by
  induction xs generalizing i with
  | nil => cases ha
  | cons y xs ih =>
    cases i with
    | zero =>
      cases ha
      simp only [List.set_cons_zero, List.flatMap_cons, ha', List.append_assoc]
      exact List.Perm.append_left _ List.perm_append_comm
    | succ i =>
      simp only [List.set_cons_succ, List.flatMap_cons, List.append_assoc]
      exact List.Perm.append_left _ (ih (i := i) ha)

/-- No more groups are held than there are tasks that may hold one. -/
theorem sum_groups_le {τ : Type} {p : τ → Bool} {ts : List τ} {hands : List Hand}
    (h : List.Forall₂ (fun t g => g.groups ≤ (p t).toNat) ts hands) :
    (hands.map (·.groups)).sum ≤ ts.countP p := by
  induction h with
  | nil => exact Nat.le_refl 0
  | @cons t g ts hands hle _ ih =>
    rw [List.countP_cons, List.map_cons, List.sum_cons]
    cases hp : p t <;> simp only [hp, Bool.toNat_false, Bool.toNat_true] at hle ⊢ <;> simp <;> omega

namespace Batch

variable {x : Sharing σ} {d : Dispatch σ α} {post : Task σ α → List Nat → TaskEnd α → σ → Prop}
  {s₀ : σ} {tasks : List (Task σ α)} {b : Batch σ α} {hands : List Hand}

/-- What a task comes to: it has given its group back. -/
def Promise (post : Task σ α → List Nat → TaskEnd α → σ → Prop) (t : Task σ α) (g : Hand)
    (e : TaskEnd α) (s : σ) : Prop :=
  g.groups = 0 ∧ post t g.tickets e s

/-- A task was refused, at a moment when there was a reason to stop. -/
def TurnedAway (x : Sharing σ) (d : Dispatch σ α) (s : σ) (t : Task σ α) (a : α) : Prop :=
  ∃ s' why, x.inv s' ∧ x.rely s' s ∧ d.stop s' = some why ∧
    a = d.fallback t.name (.notDispatched why)

theorem TurnedAway.rely (hx : x.Lawful) {s s' : σ} {t : Task σ α} {a : α}
    (h : TurnedAway x d s t a) (hrely : x.rely s s') : TurnedAway x d s' t a := by
  rcases h with ⟨s'', why, hinv, hrely', hstop, ha⟩
  exact ⟨s'', why, hinv, hx.trans hrely' hrely, hstop, ha⟩

/-- How far a task is goes with what it has taken. -/
def Fits (x : Sharing σ) (d : Dispatch σ α) (post : Task σ α → List Nat → TaskEnd α → σ → Prop)
    (s : σ) (t : Task σ α) : TaskState σ α → Hand → Prop
  | .running job, g => g.groups ≤ 1 ∧ ∃ s', x.rely s' s ∧ job.Shares x (Promise post t) g s'
  | .finished a, g =>
    (g = {} ∧ TurnedAway x d s t a) ∨
      ∃ e s', a = settle d t.name e ∧ x.rely s' s ∧ Promise post t g e s'
  | _, g => g = {}

theorem Fits.rely (hx : x.Lawful) {s s' : σ} {t : Task σ α} {st : TaskState σ α} {g : Hand}
    (h : Fits x d post s t st g) (hrely : x.rely s s') : Fits x d post s' t st g := by
  cases st with
  | running job =>
    rcases h with ⟨hle, s'', hrely', hshares⟩
    exact ⟨hle, s'', hx.trans hrely' hrely, hshares⟩
  | finished a =>
    rcases h with ⟨hg, hrefused⟩ | ⟨e, s'', ha, hrely', hpost⟩
    · exact Or.inl ⟨hg, hrefused.rely hx hrely⟩
    · exact Or.inr ⟨e, s'', ha, hx.trans hrely' hrely, hpost⟩
  | waiting => exact h
  | cleared => exact h
  | admitted => exact h

/-- Only an active task holds a group. -/
theorem Fits.groups_le {s : σ} {t : Task σ α} {st : TaskState σ α} {g : Hand}
    (h : Fits x d post s t st g) : g.groups ≤ st.isActive.toNat := by
  cases st with
  | running job => exact h.1
  | finished a =>
    rcases h with ⟨hg, -⟩ | ⟨e, s', -, -, hnone, -⟩
    · exact Nat.le_of_eq (congrArg Hand.groups hg)
    · exact Nat.le_of_eq hnone
  | waiting => exact Nat.le_of_eq (congrArg Hand.groups h)
  | cleared => exact Nat.le_of_eq (congrArg Hand.groups h)
  | admitted =>
    have hnone : g.groups = 0 := congrArg Hand.groups h
    omega

/-- A batch of tasks that share a state, which was `s₀` at first, and what they have taken. -/
structure Shared (x : Sharing σ) (d : Dispatch σ α)
    (post : Task σ α → List Nat → TaskEnd α → σ → Prop) (s₀ : σ) (tasks : List (Task σ α))
    (b : Batch σ α) (hands : List Hand) : Prop where
  inv : x.inv b.world
  rely : x.rely s₀ b.world
  tasks_eq : b.tasks.map (·.1) = tasks
  fits : List.Forall₂ (fun ts g => Fits x d post b.world ts.1 ts.2 g) b.tasks hands
  groups : x.free b.world + (hands.map (·.groups)).sum = x.free s₀
  tickets : (hands.flatMap (·.tickets)).Perm
    (List.range' (x.issued s₀) (x.issued b.world - x.issued s₀))

namespace Shared

theorem start (hx : x.Lawful) (s : Scheduler) (hinv : x.inv s₀) (tasks : List (Task σ α)) :
    Shared x d post s₀ tasks (s.prepare s₀ tasks) (List.replicate tasks.length {}) where
  inv := hinv
  rely := hx.refl s₀
  tasks_eq := by simp [Scheduler.prepare, Function.comp_def]
  fits := by
    change List.Forall₂ _ (tasks.map fun t => (t, TaskState.waiting)) _
    induction tasks with
    | nil => exact .nil
    | cons t tasks ih => exact .cons rfl ih
  groups := by
    change x.free s₀ + _ = _
    simp
  tickets := by
    change (_ : List Nat).Perm (List.range' (x.issued s₀) (x.issued s₀ - x.issued s₀))
    simp

/-- What a task has taken. -/
theorem hand (h : Shared x d post s₀ tasks b hands) {i : Nat} {t : Task σ α} {st : TaskState σ α}
    (hat : b.tasks[i]? = some (t, st)) :
    t ∈ tasks ∧ ∃ g, hands[i]? = some g ∧ Fits x d post b.world t st g := by
  refine ⟨?_, ?_⟩
  · rw [← h.tasks_eq]
    exact List.mem_map_of_mem (List.mem_of_getElem? hat)
  · exact exists_getElem?_of_forall₂ h.fits hat

/-- A task gets further, and changes the state as it may. -/
theorem change (hx : x.Lawful) (h : Shared x d post s₀ tasks b hands) {i : Nat} {t : Task σ α}
    {st st' : TaskState σ α} {g g' : Hand} {b' : Batch σ α} (hat : b.tasks[i]? = some (t, st))
    (hg : hands[i]? = some g) (htasks : b'.tasks = (b.put i st').tasks)
    (hchange : x.Change b.world b'.world g g') (hfits : Fits x d post b'.world t st' g') :
    Shared x d post s₀ tasks b' (hands.set i g') where
  inv := hchange.inv
  rely := hx.trans h.rely hchange.rely
  tasks_eq := by
    have hfirst : b.tasks[i]?.map (·.1) = some t := by rw [hat]; rfl
    rw [htasks, tasks_put hat, List.map_set, h.tasks_eq]
    rw [← List.getElem?_map, h.tasks_eq] at hfirst
    exact set_of_getElem? hfirst
  fits := by
    rw [htasks, tasks_put hat]
    exact forall₂_set (h.fits.imp fun _ _ hfits' => hfits'.rely hx hchange.rely) i hfits
  groups := by
    have hsum := sum_map_set (·.groups) hg g'
    have hbefore := h.groups
    have hafter := hchange.groups
    omega
  tickets := by
    -- The new tickets follow those that were handed out before.
    have hle₀ := hx.issued_le h.rely
    have hle := hx.issued_le hchange.rely
    have hnew := List.range'_append_1 (s := x.issued s₀) (m := x.issued b.world - x.issued s₀)
      (n := x.issued b'.world - x.issued b.world)
    have hsum : x.issued b.world - x.issued s₀ + (x.issued b'.world - x.issued b.world) =
        x.issued b'.world - x.issued s₀ := by omega
    rw [Nat.add_sub_cancel' hle₀, hsum] at hnew
    refine (perm_flatMap_set _ hg hchange.tickets).trans ?_
    rw [← hnew]
    exact h.tickets.append_right _

/-- A task gets further, and the state stays as it is. -/
theorem put (hx : x.Lawful) (h : Shared x d post s₀ tasks b hands) {i : Nat} {t : Task σ α}
    {st st' : TaskState σ α} {b' : Batch σ α} (hat : b.tasks[i]? = some (t, st))
    (htasks : b'.tasks = (b.put i st').tasks) (hworld : b'.world = b.world)
    (hfits : ∀ g, Fits x d post b.world t st g → Fits x d post b.world t st' g) :
    ∃ hands', Shared x d post s₀ tasks b' hands' := by
  rcases h.hand hat with ⟨-, g, hg, hold⟩
  have hle : g.groups ≤ 1 := Nat.le_trans hold.groups_le (Bool.toNat_le _)
  refine ⟨_, h.change hx hat hg htasks (.of_same ?_ ?_ ?_ ?_ hle) ?_⟩
  · exact hworld ▸ h.inv
  · exact hworld ▸ hx.refl b.world
  · rw [hworld]
  · rw [hworld]
  · exact hworld ▸ hfits g hold

/-- A running task without a group finds one that is free. -/
theorem free_pos (h : Shared x d post s₀ tasks b hands) (hactive : b.active ≤ x.free s₀) {i : Nat}
    {t : Task σ α} {job : Job σ (TaskEnd α)} {g : Hand}
    (hat : b.tasks[i]? = some (t, .running job)) (hg : hands[i]? = some g)
    (hnone : g.groups = 0) : 0 < x.free b.world := by
  -- If the task held a group there would still be enough of them.
  have hmore : List.Forall₂ (fun ts g => g.groups ≤ (TaskState.isActive ts.2).toNat)
      (b.tasks.set i (t, .running job)) (hands.set i { g with groups := 1 }) :=
    forall₂_set (h.fits.imp fun _ _ hfits => hfits.groups_le) i (Nat.le_refl 1)
  rw [set_of_getElem? hat] at hmore
  have hle : ((hands.set i { g with groups := 1 }).map (·.groups)).sum ≤ b.active :=
    sum_groups_le hmore
  have hsum := sum_map_set (·.groups) hg { g with groups := 1 }
  have hall := h.groups
  simp only [hnone] at hsum
  omega

theorem advanced (hx : x.Lawful) (h : Shared x d post s₀ tasks b hands)
    (hactive : b.active ≤ x.free s₀) {i : Nat} {t : Task σ α} {act : σ → σ}
    {next : σ → Job σ (TaskEnd α)} (hat : b.tasks[i]? = some (t, .running (.step act next))) :
    ∃ hands', Shared x d post s₀ tasks
      { b.put i (.running (next b.world)) with world := act b.world } hands' := by
  rcases h.hand hat with ⟨-, g, hg, hle, s', hrely, hshares⟩
  rcases hshares b.world hrely h.inv fun hnone => h.free_pos hactive hat hg hnone with
    ⟨g', hchange, hrest⟩
  exact ⟨_, h.change hx hat hg rfl hchange ⟨hchange.at_most_one, act b.world, hx.refl _, hrest⟩⟩

theorem moves (hx : x.Lawful) (h : Shared x d post s₀ tasks b hands)
    (hactive : b.active ≤ x.free s₀) (hbody : ∀ t ∈ tasks, ∀ s, x.rely s₀ s → x.inv s →
      t.body.Shares x (Promise post t) {} s) {b' : Batch σ α} (hmove : Moves d b b') :
    ∃ hands', Shared x d post s₀ tasks b' hands' := by
  -- Only tasks that start, end or act have anything to do with the shared part.
  cases hmove with
  | idle => exact ⟨hands, h⟩
  | refused hat _ hwhy =>
    refine h.put hx hat rfl rfl ?_
    rintro g rfl
    exact Or.inl ⟨rfl, b.world, _, h.inv, hx.refl _, hwhy, rfl⟩
  | turned hat hwhy =>
    refine h.put hx hat rfl rfl ?_
    rintro g rfl
    exact Or.inl ⟨rfl, b.world, _, h.inv, hx.refl _, hwhy, rfl⟩
  | cleared hat => exact h.put hx hat rfl rfl fun _ hfits => hfits
  | admitted hat => exact h.put hx hat rfl rfl fun _ hfits => hfits
  | started hat =>
    refine h.put hx hat rfl rfl ?_
    rintro g rfl
    exact ⟨Nat.zero_le 1, b.world, hx.refl _, hbody _ (h.hand hat).1 b.world h.rely h.inv⟩
  | finished hat =>
    refine h.put hx hat rfl rfl ?_
    rintro g ⟨-, s', hrely, hpost⟩
    exact Or.inr ⟨_, s', rfl, hrely, hpost⟩
  | advanced hat => exact h.advanced hx hactive hat

end Shared
end Batch

/-! ## Whole batches -/

namespace Batch

/-- What a task came to, unless it was refused, and the tickets it has drawn. -/
def Delivers (x : Sharing σ) (d : Dispatch σ α)
    (post : Task σ α → List Nat → TaskEnd α → σ → Prop) (s : σ) (t : Task σ α)
    (out : α × List Nat) : Prop :=
  (out.2 = [] ∧ TurnedAway x d s t out.1) ∨
    ∃ e s', out.1 = settle d t.name e ∧ x.rely s' s ∧ post t out.2 e s'

/-- Finished tasks were refused or have come to what they promised. -/
theorem delivers_of_finished {x : Sharing σ} {d : Dispatch σ α}
    {post : Task σ α → List Nat → TaskEnd α → σ → Prop} {s : σ}
    {ts : List (Task σ α × TaskState σ α)} {hands : List Hand}
    (h : List.Forall₂ (fun ts g => Fits x d post s ts.1 ts.2 g) ts hands)
    (hdone : ∀ t ∈ ts, ∃ a, t.2 = .finished a) :
    ∃ outs : List (α × List Nat), outs.map (·.1) = ts.filterMap (·.2.result?) ∧
      outs.flatMap (·.2) = hands.flatMap (·.tickets) ∧
        List.Forall₂ (Delivers x d post s) (ts.map (·.1)) outs := by
  induction h with
  | nil => exact ⟨[], rfl, rfl, .nil⟩
  | @cons ts g rest hands hfits _ ih =>
    rcases ih fun t ht => hdone t (by simp [ht]) with ⟨outs, hresults, htickets, hall⟩
    rcases ts with ⟨t, st⟩
    rcases hdone (t, st) (by simp) with ⟨a, hst⟩
    cases hst
    -- The first task was refused without tickets, or kept its promise.
    have hfirst : Delivers x d post s t (a, g.tickets) := by
      rcases hfits with ⟨rfl, hrefused⟩ | ⟨e, s', ha, hrely, -, hpost⟩
      · exact Or.inl ⟨rfl, hrefused⟩
      · exact Or.inr ⟨e, s', ha, hrely, hpost⟩
    refine ⟨(a, g.tickets) :: outs, ?_, ?_, .cons hfirst hall⟩
    · simp [TaskState.result?, hresults]
    · simp [htickets]

end Batch

/-- Each task of a batch that is not refused comes to what its job promises, and has the tickets it
has drawn for itself. -/
theorem Scheduler.call_shares {x : Sharing σ} (hx : x.Lawful)
    (post : Task σ α → List Nat → TaskEnd α → σ → Prop) {s : Scheduler} {s₀ : σ}
    {c : BatchCall σ α} (hcount : s.completed = s.submitted) (hlimit : 0 < s.limit)
    (hinv : x.inv s₀) (hfree : s.limit ≤ x.free s₀)
    (hbody : ∀ t ∈ c.tasks, ∀ s', x.rely s₀ s' → x.inv s' →
      t.body.Shares x (Batch.Promise post t) {} s')
    (hout : ∀ change, .outside change ∈ c.events → ∀ s', x.inv s' →
      x.inv (change s') ∧ x.rely s' (change s') ∧ x.free (change s') = x.free s' ∧
        x.issued (change s') = x.issued s') :
    let b := (s.call s₀ c).1
    x.inv b.world ∧ x.rely s₀ b.world ∧ ∃ outs : List (α × List Nat),
      outs.map (·.1) = b.results ∧
      (outs.flatMap (·.2)).Perm (List.range' (x.issued s₀) (x.issued b.world - x.issued s₀)) ∧
      List.Forall₂ (Batch.Delivers x (s.rules c) post b.world) c.tasks outs := by
  intro b
  let d := s.rules c
  have hmoment : Batch.Moment d c.events (s.prepare s₀ c.tasks) b := Batch.moment_complete _ _
  -- At each moment the slots are within their bounds, and so is what was taken.
  have hshared : b.InBounds d s.completed c.tasks.length ∧
      ∃ hands, Batch.Shared x d post s₀ c.tasks b hands := by
    refine hmoment.induction (P := fun b => b.InBounds d s.completed c.tasks.length ∧
      ∃ hands, Batch.Shared x d post s₀ c.tasks b hands) ?_ ?_ ?_
    · exact ⟨inBounds_prepare hcount d s₀ c.tasks, _, .start hx s hinv c.tasks⟩
    · rintro b₁ b₂ - - hmove ⟨hbounds, hands, hb⟩
      exact ⟨hbounds.moves hmove,
        hb.moves hx (Nat.le_trans hbounds.active_le hfree) hbody hmove⟩
    · rintro b₁ change hmem - - ⟨hbounds, hands, hb⟩
      rcases hout change hmem b₁.world hb.inv with ⟨hinv', hrely, hfree', hissued'⟩
      refine ⟨⟨hbounds.1, hbounds.2, hbounds.3, hbounds.4, hbounds.5, hbounds.6⟩, hands, ?_⟩
      exact
        { inv := hinv'
          rely := hx.trans hb.rely hrely
          tasks_eq := hb.tasks_eq
          fits := hb.fits.imp fun _ _ hfits => hfits.rely hx hrely
          groups := hfree' ▸ hb.groups
          tickets := hissued' ▸ hb.tickets }
  rcases hshared with ⟨-, hands, hb⟩
  rcases call_course hcount hlimit s₀ c with ⟨-, -, -, -, -, hdone⟩
  rcases Batch.delivers_of_finished hb.fits (fun ts hts => by
      rcases List.getElem?_of_mem hts with ⟨i, hi⟩
      exact hdone i ts.1 ts.2 hi) with ⟨outs, hresults, htickets, hall⟩
  rw [hb.tasks_eq] at hall
  exact ⟨hb.inv, hb.rely, outs, hresults, htickets ▸ hb.tickets, hall⟩

/-- The same where each task is made for something that is to be done, on which depends what it
comes to. -/
theorem Scheduler.call_shares_each {ι : Type} {x : Sharing σ} (hx : x.Lawful) (items : List ι)
    (task : ι → Task σ α) (post : ι → List Nat → TaskEnd α → σ → Prop) {s : Scheduler} {s₀ : σ}
    {c : BatchCall σ α} (htasks : c.tasks = items.map task) (hcount : s.completed = s.submitted)
    (hlimit : 0 < s.limit) (hinv : x.inv s₀) (hfree : s.limit ≤ x.free s₀)
    (hbody : ∀ i ∈ items, ∀ s', x.rely s₀ s' → x.inv s' →
      (task i).body.Shares x (Batch.Promise (fun _ => post i) (task i)) {} s')
    (hout : ∀ change, .outside change ∈ c.events → ∀ s', x.inv s' →
      x.inv (change s') ∧ x.rely s' (change s') ∧ x.free (change s') = x.free s' ∧
        x.issued (change s') = x.issued s') :
    let b := (s.call s₀ c).1
    x.inv b.world ∧ x.rely s₀ b.world ∧ ∃ outs : List (α × List Nat),
      outs.map (·.1) = b.results ∧
      (outs.flatMap (·.2)).Perm (List.range' (x.issued s₀) (x.issued b.world - x.issued s₀)) ∧
      List.Forall₂ (fun i => Batch.Delivers x (s.rules c) (fun _ => post i) b.world (task i)) items
        outs := by
  -- Two items may have the same task, which then comes to what is promised for both.
  let all : Task σ α → List Nat → TaskEnd α → σ → Prop := fun t ks e s' =>
    ∀ i : { i // i ∈ items ∧ task i = t }, post i ks e s'
  intro b
  have hshares := call_shares hx all hcount hlimit hinv hfree ?_ hout
  · rcases hshares with ⟨hinv', hrely', outs, hresults, htickets, hall⟩
    refine ⟨hinv', hrely', outs, hresults, htickets, ?_⟩
    rw [htasks, List.forall₂_map_left_iff] at hall
    refine (forall₂_mem hall).imp ?_
    rintro i o ⟨hdelivers, hi, -⟩
    refine hdelivers.imp id ?_
    rintro ⟨e, s', ho, hrely, hpost⟩
    exact ⟨e, s', ho, hrely, hpost ⟨i, hi, rfl⟩⟩
  · intro t ht s' hrely hs'
    rw [htasks] at ht
    rcases List.mem_map.mp ht with ⟨i, hi, rfl⟩
    have hsome : Nonempty { i' // i' ∈ items ∧ task i' = task i } := ⟨i, hi, rfl⟩
    have heach : ∀ i' : { i' // i' ∈ items ∧ task i' = task i },
        (task i).body.Shares x (Batch.Promise (fun _ => post i') (task i)) {} s' := by
      rintro ⟨i', hi', htask⟩
      have hone := hbody i' hi' s' hrely hs'
      rw [htask] at hone
      exact hone
    refine Job.shares_mono hx (Job.shares_forall heach) ?_
    intro g e s'' _ hposts
    exact ⟨(hposts ⟨i, hi, rfl⟩).1, fun i' => (hposts i').2⟩

end FaultChain
