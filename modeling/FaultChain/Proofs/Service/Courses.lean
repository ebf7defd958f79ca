import Mathlib.Data.List.Induction
import Mathlib.Data.List.Infix
import FaultChain.Proofs.Service.Steps

/-!
# The course of an analysis

An analysis is found in one state after another while a history goes on. Its stage, its finishing
time and the number of its runs are those of the states it was found in.

* `Service.course`: the states in which an analysis is found, without repetition.
* `Service.IsCourse`: the ways an analysis can go.
* `Service.Lived`: how far an analysis is after some states; `Service.lived_run` keeps it along a
  history.
* `Service.HeldSlot`: whether an analysis ever had a slot, which it needs for a run.
-/

namespace FaultChain

namespace Stage

/-- Whether the analysis is not shown as running yet. -/
def isQueued : Stage → Bool
  | .waiting => true
  | .admitted => true
  | _ => false

/-- Whether the run was started and its end is not recorded. -/
def isActive : Stage → Bool
  | .running => true
  | .returned _ => true
  | .judged _ _ => true
  | _ => false

/-- Whether the end is recorded. -/
def isEnded : Stage → Bool
  | .recorded => true
  | .over => true
  | _ => false

theorem apart_of_isQueued {stage : Stage} (h : stage.isQueued = true) :
    stage.isActive = false ∧ stage.isEnded = false := by
  cases stage <;> first | exact ⟨rfl, rfl⟩ | cases h

theorem apart_of_isActive {stage : Stage} (h : stage.isActive = true) :
    stage.isQueued = false ∧ stage.isEnded = false := by
  cases stage <;> first | exact ⟨rfl, rfl⟩ | cases h

theorem holdsSlot_of_isActive {stage : Stage} (h : stage.isActive = true) :
    stage.holdsSlot = true := by
  cases stage <;> first | rfl | cases h

end Stage

namespace Service

variable {s : Service} {id : Uuid} {a b : Analysis} {seen : List AnalysisState}

/-! ## States seen -/

/-- Notes the state of an analysis unless it was the last one noted. -/
def note (seen : List AnalysisState) : Option Analysis → List AnalysisState
  | none => seen
  | some a => if seen.getLast? = some a.state then seen else seen ++ [a.state]

/-- The states in which an analysis is found throughout a history, without repetition. -/
def course (s : Service) (id : Uuid) (events : List Event) : List AnalysisState :=
  events.inits.foldl (fun seen served => note seen ((s.run served).lookup? id)) []

theorem course_snoc (s : Service) (id : Uuid) (events : List Event) (ev : Event) :
    s.course id (events ++ [ev]) =
      note (s.course id events) ((s.run (events ++ [ev])).lookup? id) := by
  have hinits : (events ++ [ev]).inits = events.inits ++ [events ++ [ev]] := by
    simp [List.inits_append]
  rw [course, hinits, List.foldl_append]
  rfl

theorem note_of_eq (hlast : seen.getLast? = some a.state) (h : b.state = a.state) :
    note seen (some b) = seen :=
  if_pos (h ▸ hlast)

theorem note_of_ne (hlast : seen.getLast? = some a.state) (h : b.state ≠ a.state) :
    note seen (some b) = seen ++ [b.state] := by
  refine if_neg ?_
  rw [hlast]
  exact fun heq => h (Option.some.inj heq).symm

/-- The ways an analysis can go. -/
inductive IsCourse : List AnalysisState → Prop where
  | queued : IsCourse [.pending]
  | started : IsCourse [.pending, .running]
  | withdrawn : IsCourse [.pending, .canceled]
  | ended {state : AnalysisState} : state.isFinal = true → IsCourse [.pending, .running, state]

/-! ## How far an analysis is -/

theorem isFinal_verdict (result : RunEnd) (stopped : Bool) :
    (result.verdict stopped).isFinal = true := by
  unfold RunEnd.verdict
  split
  · rfl
  · split <;> rfl

/-- How far an analysis is that was found in some states. -/
inductive Lived (a : Analysis) : List AnalysisState → Prop where
  | queued : a.stage.isQueued = true → a.state = .pending → a.finished = none → a.runs = 0 →
      Lived a [.pending]
  | active : a.stage.isActive = true → a.state = .running → a.finished = none → a.runs = 1 →
      Lived a [.pending, .running]
  | withdrawn : a.stage = .over → a.state = .canceled → a.finished.isSome = true → a.runs = 0 →
      Lived a [.pending, .canceled]
  | ended : a.stage.isEnded = true → a.state.isFinal = true → a.finished.isSome = true →
      a.runs = 1 → Lived a [.pending, .running, a.state]

namespace Lived

theorem isCourse (h : Lived a seen) : IsCourse seen := by
  cases h with
  | queued => exact .queued
  | active => exact .started
  | withdrawn => exact .withdrawn
  | ended _ hfinal => exact .ended hfinal

theorem getLast? (h : Lived a seen) : seen.getLast? = some a.state := by
  cases h with
  | queued _ hstate => rw [hstate]; rfl
  | active _ hstate => rw [hstate]; rfl
  | withdrawn _ hstate => rw [hstate]; rfl
  | ended => rfl

/-- The finishing time is set exactly in the final states. -/
theorem isSome_finished (h : Lived a seen) : a.finished.isSome = a.state.isFinal := by
  cases h with
  | queued _ hstate hfinished => rw [hstate, hfinished]; rfl
  | active _ hstate hfinished => rw [hstate, hfinished]; rfl
  | withdrawn _ hstate hfinished => rw [hstate, hfinished]; rfl
  | ended _ hfinal hfinished => rw [hfinal, hfinished]

theorem runs_eq (h : Lived a seen) : a.runs = seen.count .running := by
  cases h with
  | queued _ _ _ hruns => rw [hruns]; rfl
  | active _ _ _ hruns => rw [hruns]; rfl
  | withdrawn _ _ _ hruns => rw [hruns]; rfl
  | ended _ hfinal _ hruns =>
    have hne : a.state ≠ .running := by
      intro heq
      rw [heq] at hfinal
      cases hfinal
    rw [hruns]
    simp [hne]

theorem runs_le_one (h : Lived a seen) : a.runs ≤ 1 := by
  cases h <;> omega

/-- What is shown as running has a slot. -/
theorem holdsSlot_of_running (h : Lived a seen) (hstate : a.state = .running) :
    a.stage.holdsSlot = true := by
  cases h with
  | queued _ hpending => rw [hpending] at hstate; cases hstate
  | active hstage => exact Stage.holdsSlot_of_isActive hstage
  | withdrawn _ hcanceled => rw [hcanceled] at hstate; cases hstate
  | ended _ hfinal => rw [hstate] at hfinal; cases hfinal

theorem isFinal_of_over (h : Lived a seen) (hstage : a.stage = .over) :
    a.state.isFinal = true := by
  cases h with
  | queued hq => rw [hstage] at hq; cases hq
  | active hq => rw [hstage] at hq; cases hq
  | withdrawn _ hstate => rw [hstate]; rfl
  | ended _ hfinal => exact hfinal

theorem isEnded_eq_false (h : Lived a seen) (hopen : a.finished = none) :
    a.stage.isEnded = false := by
  cases h with
  | queued hstage => exact (Stage.apart_of_isQueued hstage).2
  | active hstage => exact (Stage.apart_of_isActive hstage).2
  | withdrawn _ _ hfinished => rw [hopen] at hfinished; cases hfinished
  | ended _ _ hfinished => rw [hopen] at hfinished; cases hfinished

/-! ### By stage -/

theorem of_queued (h : Lived a seen) (hstage : a.stage.isQueued = true) :
    a.state = .pending ∧ a.finished = none ∧ a.runs = 0 ∧ seen = [.pending] := by
  cases h with
  | queued _ hstate hfinished hruns => exact ⟨hstate, hfinished, hruns, rfl⟩
  | active hactive => rw [(Stage.apart_of_isActive hactive).1] at hstage; cases hstage
  | withdrawn hover => rw [hover] at hstage; cases hstage
  | ended hended => rw [(Stage.apart_of_isQueued hstage).2] at hended; cases hended

theorem of_active (h : Lived a seen) (hstage : a.stage.isActive = true) :
    a.state = .running ∧ a.finished = none ∧ a.runs = 1 ∧ seen = [.pending, .running] := by
  cases h with
  | queued hqueued => rw [(Stage.apart_of_isQueued hqueued).1] at hstage; cases hstage
  | active _ hstate hfinished hruns => exact ⟨hstate, hfinished, hruns, rfl⟩
  | withdrawn hover => rw [hover] at hstage; cases hstage
  | ended hended => rw [(Stage.apart_of_isActive hstage).2] at hended; cases hended

theorem of_recorded (h : Lived a seen) (hstage : a.stage = .recorded) :
    a.state.isFinal = true ∧ a.finished.isSome = true ∧ a.runs = 1 ∧
      seen = [.pending, .running, a.state] := by
  cases h with
  | queued hqueued => rw [hstage] at hqueued; cases hqueued
  | active hactive => rw [hstage] at hactive; cases hactive
  | withdrawn hover => rw [hstage] at hover; cases hover
  | ended _ hfinal hfinished hruns => exact ⟨hfinal, hfinished, hruns, rfl⟩

end Lived

/-! ## Along a history -/

theorem IsNew.lived (h : IsNew a) : Lived a (note [] (some a)) := by
  have hseen : note [] (some a) = [.pending] := by simp [note, h.state]
  rw [hseen]
  exact .queued (by rw [h.stage]; rfl) h.state h.finished h.runs

theorem Lived.advance {step : Advance} (h : Lived a seen) (hstep : Advances a step b) :
    Lived b (note seen (some b)) := by
  -- The course is longer by the new state exactly if that differs from the old one.
  have hkeep : b.state = a.state → note seen (some b) = seen := note_of_eq h.getLast?
  have hgrow : b.state ≠ a.state → note seen (some b) = seen ++ [b.state] :=
    note_of_ne h.getLast?
  cases hstep with
  | admission hstage =>
    obtain ⟨hstate, hfinished, hruns, hseen⟩ := h.of_queued (by rw [hstage]; rfl)
    rw [hkeep rfl, hseen]
    exact .queued rfl hstate hfinished hruns
  | withdrawal now hstage hstopped =>
    obtain ⟨hstate, -, hruns, hseen⟩ := h.of_queued (by rw [hstage]; rfl)
    rw [hgrow (by rw [hstate]; nofun), hseen]
    exact .withdrawn rfl rfl rfl hruns
  | beginning hstage =>
    obtain ⟨hstate, hfinished, hruns, hseen⟩ := h.of_queued (by rw [hstage]; rfl)
    rw [hgrow (by rw [hstate]; nofun), hseen]
    exact .active rfl rfl hfinished (congrArg (· + 1) hruns)
  | returning result hstage =>
    obtain ⟨hstate, hfinished, hruns, hseen⟩ := h.of_active (by rw [hstage]; rfl)
    rw [hkeep rfl, hseen]
    exact .active rfl hstate hfinished hruns
  | judgment hstage =>
    obtain ⟨hstate, hfinished, hruns, hseen⟩ := h.of_active (by rw [hstage]; rfl)
    rw [hkeep rfl, hseen]
    exact .active rfl hstate hfinished hruns
  | @recording result stopped now hstage =>
    obtain ⟨hstate, -, hruns, hseen⟩ := h.of_active (by rw [hstage]; rfl)
    have hfinal := isFinal_verdict result stopped
    have hne : result.verdict stopped ≠ a.state := by
      intro heq
      rw [heq, hstate] at hfinal
      cases hfinal
    rw [hgrow hne, hseen]
    exact .ended rfl hfinal rfl hruns
  | release hstage =>
    obtain ⟨hfinal, hfinished, hruns, hseen⟩ := h.of_recorded hstage
    rw [hkeep rfl, hseen]
    exact .ended rfl hfinal hfinished hruns

/-- Being told to stop shows in no state. -/
theorem Lived.stop (h : Lived a seen) : Lived a.stop (note seen (some a.stop)) := by
  rw [note_of_eq h.getLast? (state_stop a)]
  cases h with
  | queued hstage hstate hfinished hruns =>
    exact .queued (by simpa) (by simpa) (by simpa) (by simpa)
  | active hstage hstate hfinished hruns =>
    exact .active (by simpa) (by simpa) (by simpa) (by simpa)
  | withdrawn hstage hstate hfinished hruns =>
    exact .withdrawn (by simpa) (by simpa) (by simpa) (by simpa)
  | ended hstage hfinal hfinished hruns =>
    rw [← state_stop a]
    exact .ended (by simpa) (by simpa) (by simpa) (by simpa)

theorem Lived.next (h : Lived a seen) (hnext : Next a b) : Lived b (note seen (some b)) := by
  cases hnext with
  | same => rwa [note_of_eq h.getLast? rfl]
  | stop => exact h.stop
  | advance hstep => exact h.advance hstep

/-- How what is found under an identifier fits the states seen under it. -/
def Fits (seen : List AnalysisState) : Option Analysis → Prop
  | none => seen = []
  | some a => Lived a seen

theorem Fits.step (h : Fits seen (s.lookup? id)) (ev : Event) :
    Fits (note seen ((s.step ev).lookup? id)) ((s.step ev).lookup? id) := by
  cases hbefore : s.lookup? id with
  | none =>
    rw [hbefore] at h
    have hseen : seen = [] := h
    rcases lookup?_step_of_none hbefore ev with hafter | ⟨b, hafter, hnew⟩
    · rw [hafter]
      exact hseen
    · rw [hafter, hseen]
      exact hnew.lived
  | some a =>
    rw [hbefore] at h
    have hlived : Lived a seen := h
    obtain ⟨b, hafter, hnext⟩ := lookup?_step hbefore ev
    rw [hafter]
    exact hlived.next hnext

theorem fits_run (hempty : s.analyses = []) (id : Uuid) (events : List Event) :
    Fits (s.course id events) ((s.run events).lookup? id) := by
  induction events using List.reverseRecOn with
  | nil =>
    have hnone : (s.run []).lookup? id = none := by simp [run, lookup?, hempty]
    rw [hnone]
    simp [Fits, course, note, hnone]
  | append_singleton events ev ih =>
    rw [course_snoc, run_snoc]
    exact ih.step ev

/-- Whoever is found has lived through its course. -/
theorem lived_run (hempty : s.analyses = []) {events : List Event}
    (ha : (s.run events).lookup? id = some a) : Lived a (s.course id events) := by
  have hfits := fits_run hempty id events
  rw [ha] at hfits
  exact hfits

/-! ## Final states -/

theorem Lived.isEnded_of_final (h : Lived a seen) (hfinal : a.state.isFinal = true) :
    a.stage.isEnded = true := by
  cases h with
  | queued _ hstate => rw [hstate] at hfinal; cases hfinal
  | active _ hstate => rw [hstate] at hfinal; cases hfinal
  | withdrawn hstage => rw [hstage]; rfl
  | ended hstage => exact hstage

theorem Next.state_eq (hnext : Next a b) (h : Lived a seen) (hfinal : a.state.isFinal = true) :
    b.state = a.state := by
  have hended := h.isEnded_of_final hfinal
  cases hnext with
  | same => rfl
  | stop => exact state_stop a
  | advance hstep =>
    cases hstep with
    -- The steps that change the state start before the end is recorded.
    | withdrawal now hstage => rw [hstage] at hended; cases hended
    | beginning hstage => rw [hstage] at hended; cases hended
    | recording now hstage => rw [hstage] at hended; cases hended
    | _ => rfl

/-- Final states are never left. -/
theorem state_of_final (hempty : s.analyses = []) {events : List Event}
    (ha : (s.run events).lookup? id = some a) (hfinal : a.state.isFinal = true)
    (more : List Event) :
    ∃ b, (s.run (events ++ more)).lookup? id = some b ∧ b.state = a.state := by
  induction more using List.reverseRecOn with
  | nil => exact ⟨a, by rwa [List.append_nil], rfl⟩
  | append_singleton more ev ih =>
    obtain ⟨b, hb, hstate⟩ := ih
    have hlived := lived_run hempty hb
    obtain ⟨c, hc, hnext⟩ := lookup?_step hb ev
    refine ⟨c, ?_, (hnext.state_eq hlived (hstate ▸ hfinal)).trans hstate⟩
    rwa [← List.append_assoc, run_snoc]

/-! ## Slots -/

/-- Whether an analysis had a slot at some moment of a history. -/
def HeldSlot (s : Service) (id : Uuid) (events : List Event) : Prop :=
  ∃ served, served <+: events ∧
    ∃ a, (s.run served).lookup? id = some a ∧ a.stage.holdsSlot = true

theorem HeldSlot.snoc {events : List Event} (h : HeldSlot s id events) (ev : Event) :
    HeldSlot s id (events ++ [ev]) := by
  obtain ⟨served, hpre, hheld⟩ := h
  exact ⟨served, hpre.trans (List.prefix_append _ _), hheld⟩

/-- A run is started with a slot only. -/
theorem Next.runs_eq_or (h : Next a b) : b.runs = a.runs ∨ b.stage.holdsSlot = true := by
  cases h with
  | same => exact Or.inl rfl
  | stop => exact Or.inl (runs_stop a)
  | advance hstep =>
    cases hstep with
    | beginning => exact Or.inr rfl
    | _ => exact Or.inl rfl

theorem heldSlot_of_runs (hempty : s.analyses = []) (events : List Event)
    (ha : (s.run events).lookup? id = some a) (hruns : a.runs ≠ 0) : HeldSlot s id events := by
  induction events using List.reverseRecOn generalizing a with
  | nil => simp [run, lookup?, hempty] at ha
  | append_singleton events ev ih =>
    have hafter := ha
    rw [run_snoc] at ha
    cases hbefore : (s.run events).lookup? id with
    | none =>
      rcases lookup?_step_of_none hbefore ev with hnone | ⟨b, hb, hnew⟩
      · rw [hnone] at ha
        cases ha
      · rw [hb] at ha
        cases ha
        exact absurd hnew.runs hruns
    | some b =>
      obtain ⟨c, hc, hnext⟩ := lookup?_step hbefore ev
      rw [hc] at ha
      cases ha
      -- The run was started before, or by this step, which needs a slot.
      rcases hnext.runs_eq_or with heq | hholds
      · exact (ih hbefore (heq ▸ hruns)).snoc ev
      · exact ⟨_, List.prefix_rfl, _, hafter, hholds⟩

end Service
end FaultChain
