import FaultChain.Proofs.Service.Courses

/-!
# Analyses that were told to stop

Whether an analysis was told to stop is looked up once, after its run has returned, and its end is
recorded later. In between it can still be told to stop, which then comes too late.

* `Service.Heeded`: an analysis that will end as canceled; `Service.Heeded.next` keeps it.
* `Service.cancel_heeded_iff`: when being told to stop is heeded.
-/

namespace FaultChain

/-- Whether it was looked up that the analysis had not been told to stop, which is to be recorded. -/
def Stage.isDecided : Stage → Bool
  | .judged _ stopped => !stopped
  | _ => false

theorem Stage.isDecided_iff {stage : Stage} :
    stage.isDecided = true ↔ ∃ result, stage = .judged result false := by
  cases stage <;> simp [isDecided]

namespace Service

variable {s s' : Service} {id : Uuid} {a b : Analysis} {seen : List AnalysisState}

/-- An analysis that was told to stop in time, as far as it has come. -/
def Heeded (a : Analysis) : Prop :=
  match a.stage with
  | .judged _ stopped => stopped = true
  | .recorded => a.state = .canceled
  | .over => a.state = .canceled
  | _ => a.stopped = true

/-- Before it is looked up it is never too late. -/
theorem Lived.heeded_stop (h : Lived a seen) (hopen : a.finished = none)
    (hstage : a.stage.isDecided = false) : Heeded a.stop := by
  have hstopped : a.stop.stopped = true := by simp [hopen]
  have hended : a.stage.isEnded = false := h.isEnded_eq_false hopen
  unfold Heeded
  rw [stage_stop]
  cases hs : a.stage with
  | judged result stopped =>
    cases stopped with
    | true => rfl
    | false => rw [hs] at hstage; cases hstage
  | waiting => exact hstopped
  | admitted => exact hstopped
  | running => exact hstopped
  | returned => exact hstopped
  | _ => rw [hs] at hended; cases hended

theorem Heeded.advance {step : Advance} (h : Heeded a) (hstep : Advances a step b) :
    Heeded b := by
  unfold Heeded at h
  cases hstep with
  | withdrawal => rfl
  | recording now hstage =>
    rw [hstage] at h
    have hstopped : _ = true := h
    subst hstopped
    rfl
  | admission hstage => rwa [hstage] at h
  | beginning hstage => rwa [hstage] at h
  | returning result hstage => rwa [hstage] at h
  | judgment hstage => rwa [hstage] at h
  | release hstage => rwa [hstage] at h

theorem Heeded.next (h : Heeded a) (hnext : Next a b) : Heeded b := by
  cases hnext with
  | same => exact h
  | stop =>
    unfold Heeded at h ⊢
    rw [stage_stop, state_stop]
    -- A mark that is set stays set; what was looked up and recorded is not touched.
    have hstopped : a.stopped = true → a.stop.stopped = true := by
      intro htrue
      simp [htrue]
    cases hs : a.stage <;> simp only [hs] at h ⊢ <;> first | exact h | exact hstopped h
  | advance hstep => exact h.advance hstep

theorem Heeded.run (h : Heeded a) (ha : s.lookup? id = some a) (more : List Event) :
    ∃ b, (s.run more).lookup? id = some b ∧ Heeded b := by
  induction more generalizing s a with
  | nil => exact ⟨a, ha, h⟩
  | cons ev more ih =>
    obtain ⟨b, hb, hnext⟩ := lookup?_step ha ev
    exact ih (h.next hnext) hb

/-- The state in which it ends. -/
theorem Heeded.state_eq (h : Heeded a) (hlived : Lived a seen) (hfinal : a.state.isFinal = true) :
    a.state = .canceled := by
  have hended := hlived.isEnded_of_final hfinal
  unfold Heeded at h
  cases hs : a.stage <;> simp_all [Stage.isEnded]

/-! ## Telling an analysis to stop -/

theorem cancel_eq_ok (h : s.cancel id = .ok s') :
    s' = s.step (.cancel id) ∧
      ∃ a, s.lookup? id = some a ∧ a.finished = none ∧ s'.lookup? id = some a.stop := by
  have hstep : s' = s.step (.cancel id) := by
    simp [step, h, Except.toOption]
  refine ⟨hstep, ?_⟩
  rcases cancel_cases s id with ⟨why, hwhy⟩ | ⟨a, ha, hopen, hok⟩
  · rw [h] at hwhy
    cases hwhy
  · rw [h] at hok
    cases hok
    refine ⟨a, ha, hopen, ?_⟩
    rw [modify_stop, lookup?_stop, ha]
    simp [id_of_lookup? ha]

/-- Once it was looked up, recording the end does not ask again. -/
theorem recording_of_judged {result : RunEnd} (ha : s.lookup? id = some a)
    (hstage : a.stage = .judged result false) (now : Int) :
    ∃ b, (s.run [.advance id (.recording now)]).lookup? id = some b ∧
      b.state = result.verdict false := by
  have hadvance : Advances a (.recording now)
      { a.finish result false now with stage := .recorded } := .recording now hstage
  have hstep : s.run [.advance id (.recording now)] =
      s.modify id fun _ => { a.finish result false now with stage := .recorded } := by
    simp only [run, List.foldl_cons, List.foldl_nil, step, advance, ha, Option.bind_some,
      perform?_eq_some_iff.mpr hadvance, Advance.slots?]
    rfl
  refine ⟨{ a.finish result false now with stage := .recorded }, ?_, rfl⟩
  rw [hstep, lookup?_put id ha hadvance.id_eq, if_pos rfl]

theorem verdict_false_ne_canceled (result : RunEnd) : result.verdict false ≠ .canceled := by
  unfold RunEnd.verdict
  cases result.failure <;> nofun

/-- An analysis that was told to stop ends as canceled whatever happens then, unless it was already
looked up that it had not been told: its end is recorded as if it never was. -/
theorem cancel_heeded_iff (workDir : String) (slots started : Int) (events : List Event)
    (id : Uuid) (s' : Service)
    (hcancel : ((ofSlots workDir slots started).run events).cancel id = .ok s') :
    (∀ more b, (s'.run more).lookup? id = some b → b.state.isFinal = true →
      b.state = .canceled) ↔
      ∀ a, ((ofSlots workDir slots started).run events).lookup? id = some a →
        a.stage.isDecided = false := by
  have hempty : (ofSlots workDir slots started).analyses = [] := rfl
  obtain ⟨hstep, a, ha, hopen, hstopped⟩ := cancel_eq_ok hcancel
  constructor
  · intro hall a' ha'
    obtain rfl : a = a' := Option.some.inj (ha.symm.trans ha')
    by_contra hdecided
    obtain ⟨result, hstage⟩ := Stage.isDecided_iff.mp (by simpa using hdecided)
    -- The next event is that its end is recorded.
    obtain ⟨b, hb, hstate⟩ :=
      recording_of_judged hstopped ((stage_stop a).trans hstage) 0
    have hcanceled := hall _ b hb (hstate ▸ isFinal_verdict result false)
    exact verdict_false_ne_canceled result (hstate.symm.trans hcanceled)
  · intro hstage more b hb hfinal
    have hheeded : Heeded a.stop :=
      (lived_run hempty ha).heeded_stop hopen (hstage a ha)
    obtain ⟨c, hc, hlast⟩ := hheeded.run hstopped more
    obtain rfl : c = b := Option.some.inj (hc.symm.trans hb)
    have hlater : s'.run more =
        (ofSlots workDir slots started).run (events ++ .cancel id :: more) := by
      rw [hstep, run_append]
      rfl
    rw [hlater] at hb
    exact hlast.state_eq (lived_run hempty hb) hfinal

/-- The run of an analysis has returned, and it was looked up that it had not been told to stop. -/
def decided : List Event :=
  [.submit { root := .dir [("prog.bc", .file "" false)], cwd := [] } ⟨1⟩ 5 { bitcode := "prog.bc" },
    .advance ⟨1⟩ .admission, .advance ⟨1⟩ .beginning, .advance ⟨1⟩ (.returning {}),
    .advance ⟨1⟩ .judgment]

/-- Then it is told to stop, and succeeds. -/
theorem cancel_heeded_iff_decided :
    ∃ s', ((ofSlots "runs" 1 0).run decided).cancel ⟨1⟩ = .ok s' ∧
      ((s'.run [.advance ⟨1⟩ (.recording 6)]).lookup? ⟨1⟩).map (·.state) = some .succeeded ∧
      ¬ ∀ more b, (s'.run more).lookup? ⟨1⟩ = some b → b.state.isFinal = true →
        b.state = .canceled := by
  have hok : (((ofSlots "runs" 1 0).run decided).cancel ⟨1⟩).toOption.isSome = true := by
    decide +kernel
  have hdecided : (((ofSlots "runs" 1 0).run decided).lookup? ⟨1⟩).map (·.stage.isDecided) =
      some true := by
    decide +kernel
  obtain ⟨a, ha, hstage⟩ := Option.map_eq_some_iff.mp hdecided
  cases hcancel : ((ofSlots "runs" 1 0).run decided).cancel ⟨1⟩ with
  | error why => rw [hcancel] at hok; cases hok
  | ok s' =>
    refine ⟨s', rfl, ?_, ?_⟩
    · rw [(cancel_eq_ok hcancel).1]
      decide +kernel
    · intro hall
      have hopen := (cancel_heeded_iff "runs" 1 0 decided ⟨1⟩ s' hcancel).mp hall a ha
      rw [hstage] at hopen
      cases hopen

end Service
end FaultChain
