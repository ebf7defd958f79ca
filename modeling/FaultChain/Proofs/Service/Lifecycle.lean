import Mathlib.Algebra.Ring.Nat
import FaultChain.Proofs.Lists
import FaultChain.Proofs.Service.Courses

/-!
# The life of analyses

However operations and analyses interleave, the slots taken and those that are free are as many as
the service started with, and its table holds what was accepted.

* `Service.FreshIds`: identifiers of submissions are different.
* `Service.Regular`: slots and identifiers of a table; `Service.regular_run` keeps it.
* `Service.exists_all_over`: no analysis is stuck if there are any slots.
* `Service.run_lifecycles`: the main statement.
-/

namespace FaultChain
namespace Service

variable {s : Service} {slots : Nat} {ids : List Uuid} {a b : Analysis}

/-! ## Submissions -/

/-- The identifiers that a history brings in. -/
def submitted (events : List Event) : List Uuid := events.filterMap Event.submitted?

/-- Submissions have different identifiers. -/
def FreshIds (events : List Event) : Prop := (submitted events).Nodup

/-- Whether an event is a submission that is accepted. -/
def accepts (s : Service) : Event → Bool
  | .submit files id now request => (s.submit files id now request).toOption.isSome
  | _ => false

/-- Number of accepted submissions. -/
def accepted (s : Service) : List Event → Nat
  | [] => 0
  | ev :: events => (if s.accepts ev then 1 else 0) + (s.step ev).accepted events

theorem length_step (s : Service) (ev : Event) :
    (s.step ev).analyses.length = s.analyses.length + if s.accepts ev then 1 else 0 := by
  cases ev with
  | submit files id now request =>
    rcases submit_cases s files id now request with ⟨why, h⟩ | ⟨a, -, -, h⟩
    · simp [step, accepts, h, Except.toOption]
    · simp [step, accepts, h, Except.toOption]
  | cancel id =>
    rcases cancel_cases s id with ⟨why, h⟩ | ⟨a, -, -, h⟩
    · simp [step, accepts, h, Except.toOption]
    · simp [step, accepts, h, Except.toOption, modify]
  | cancelAll => simp [step, accepts, cancelAll]
  | advance id a =>
    simp only [step, accepts, advance]
    split <;> simp [modify]

theorem length_run (s : Service) (events : List Event) :
    (s.run events).analyses.length = s.analyses.length + s.accepted events := by
  induction events generalizing s with
  | nil => rfl
  | cons ev events ih =>
    calc (s.run (ev :: events)).analyses.length
        = (s.step ev).analyses.length + (s.step ev).accepted events := ih (s.step ev)
      _ = s.analyses.length + s.accepted (ev :: events) := by
          rw [length_step, accepted]
          omega

/-! ## Counts -/

theorem total_foldl (analyses : List Analysis) (c : AnalysisCounts) :
    (analyses.foldl (fun c a => c.add a.state) c).total = c.total + analyses.length := by
  induction analyses generalizing c with
  | nil => rfl
  | cons a analyses ih =>
    have hadd : (c.add a.state).total = c.total + 1 := by
      cases a.state <;> simp only [AnalysisCounts.add, AnalysisCounts.total] <;> omega
    rw [List.foldl_cons, ih, hadd, List.length_cons]
    omega

theorem running_foldl (analyses : List Analysis) (c : AnalysisCounts) :
    (analyses.foldl (fun c a => c.add a.state) c).running =
      c.running + analyses.countP (·.state = .running) := by
  induction analyses generalizing c with
  | nil => rfl
  | cons a analyses ih =>
    have hadd : (c.add a.state).running = c.running + if a.state = .running then 1 else 0 := by
      cases a.state <;> rfl
    rw [List.foldl_cons, ih, hadd, List.countP_cons]
    simp only [decide_eq_true_eq]
    omega

theorem total_status (s : Service) : s.status.counts.total = s.analyses.length :=
  (total_foldl s.analyses {}).trans (Nat.zero_add _)

theorem running_status (s : Service) :
    s.status.counts.running = s.analyses.countP (·.state = .running) :=
  (running_foldl s.analyses {}).trans (Nat.zero_add _)

/-! ## Slots -/

/-- Slots and identifiers of a service. -/
structure Regular (slots : Nat) (ids : List Uuid) (s : Service) : Prop where
  ids_nodup : (s.analyses.map (·.id)).Nodup
  ids_subset : ∀ a ∈ s.analyses, a.id ∈ ids
  slots_eq : s.free + s.analyses.countP (·.stage.holdsSlot) = slots

theorem Regular.lookup?_eq (h : Regular slots ids s) (ha : a ∈ s.analyses) :
    s.lookup? a.id = some a := by
  have hfind := (find?_key_eq_some_iff h.ids_nodup).mpr ⟨ha, rfl⟩
  rw [← hfind]
  rfl

/-- An analysis that is found stands in one place, and only there the table changes with it. -/
theorem Regular.split (h : Regular slots ids s) (ha : a ∈ s.analyses) (b : Analysis) :
    ∃ older newer, s.analyses = older ++ a :: newer ∧
      (s.modify a.id fun _ => b).analyses = older ++ b :: newer := by
  obtain ⟨older, newer, hsplit⟩ := List.append_of_mem ha
  refine ⟨older, newer, hsplit, ?_⟩
  have hnodup := h.ids_nodup
  rw [hsplit] at hnodup
  simp only [modify, hsplit]
  exact map_replace_of_nodup hnodup b

/-- A step takes or gives back the slot that the analysis gains or loses. -/
theorem Advances.slots_eq {step : Advance} {free free' : Nat} (h : Advances a step b)
    (hfree : step.slots? free = some free') :
    free' + (if b.stage.holdsSlot then 1 else 0) = free + if a.stage.holdsSlot then 1 else 0 := by
  cases h with
  | admission hstage =>
    have hpos : free ≠ 0 ∧ free - 1 = free' := by simpa [Advance.slots?] using hfree
    simp only [hstage, Stage.holdsSlot, Bool.false_eq_true, if_true, if_false]
    omega
  | _ =>
    -- The other steps start and end at stages that agree with the change of free slots.
    cases hfree
    simp [Stage.holdsSlot, *]

theorem Regular.accept_new (h : Regular slots ids s) (hnew : IsNew a) (hfresh : a.id ∉ ids) :
    Regular slots (ids ++ [a.id]) { s with analyses := s.analyses ++ [a] } := by
  refine ⟨?_, ?_, ?_⟩
  · rw [List.map_append, List.nodup_append]
    refine ⟨h.ids_nodup, by simp, ?_⟩
    intro x hx y hy hxy
    obtain ⟨c, hc, rfl⟩ := List.mem_map.mp hx
    have hy' : y = a.id := by simpa using hy
    exact hfresh (hy' ▸ hxy ▸ h.ids_subset c hc)
  · intro c hc
    rcases List.mem_append.mp hc with hc | hc
    · exact List.mem_append_left _ (h.ids_subset c hc)
    · rw [List.mem_singleton.mp hc]
      exact List.mem_append_right _ List.mem_cons_self
  · have hnone : a.stage.holdsSlot = false := by rw [hnew.stage]; rfl
    simpa [List.countP_append, hnone] using h.slots_eq

theorem Regular.stop_told (h : Regular slots ids s) (told : Analysis → Bool) :
    Regular slots ids
      { s with analyses := s.analyses.map fun a => if told a then a.stop else a } := by
  have hsame : ∀ a : Analysis, (if told a then a.stop else a).id = a.id ∧
      (if told a then a.stop else a).stage = a.stage := by
    intro a
    split <;> simp
  refine ⟨?_, ?_, ?_⟩
  · simpa [List.map_map, Function.comp_def, hsame] using h.ids_nodup
  · intro c hc
    obtain ⟨a, ha, rfl⟩ := List.mem_map.mp hc
    rw [(hsame a).1]
    exact h.ids_subset a ha
  · simpa [List.countP_map, Function.comp_def, hsame] using h.slots_eq

theorem Regular.advance_one {step : Advance} {free : Nat} (h : Regular slots ids s)
    (ha : a ∈ s.analyses) (hadvance : Advances a step b)
    (hfree : step.slots? s.free = some free) :
    Regular slots ids { s.modify a.id (fun _ => b) with free := free } := by
  obtain ⟨older, newer, hold, hnew⟩ := h.split ha b
  have hids : (s.modify a.id fun _ => b).analyses.map (·.id) = s.analyses.map (·.id) := by
    rw [hold, hnew]
    simp [hadvance.id_eq]
  refine ⟨?_, ?_, ?_⟩
  · exact hids ▸ h.ids_nodup
  · intro c hc
    have hmem : c.id ∈ s.analyses.map (·.id) := hids ▸ List.mem_map_of_mem hc
    obtain ⟨c', hc', heq⟩ := List.mem_map.mp hmem
    exact heq ▸ h.ids_subset c' hc'
  -- Slots that the analysis takes or gives back are those it holds in its new stage.
  · have hslots := hadvance.slots_eq hfree
    have heq := h.slots_eq
    rw [hold, List.countP_append, List.countP_cons] at heq
    change free + (s.modify a.id fun _ => b).analyses.countP _ = slots
    rw [hnew, List.countP_append, List.countP_cons]
    omega

theorem Regular.mono {more : List Uuid} (h : Regular slots ids s) (hmore : ids ⊆ more) :
    Regular slots more s :=
  { h with ids_subset := fun a ha => hmore (h.ids_subset a ha) }

theorem Regular.step (h : Regular slots ids s) (ev : Event)
    (hfresh : ∀ id, ev.submitted? = some id → id ∉ ids) :
    Regular slots (ids ++ ev.submitted?.toList) (s.step ev) := by
  have hmoves := moves_step s ev
  have hmore : ids ⊆ ids ++ ev.submitted?.toList := List.subset_append_left _ _
  generalize s.step ev = s' at hmoves ⊢
  cases hmoves with
  | same => exact h.mono hmore
  | accept a hnew hid =>
    rw [hid]
    exact h.accept_new hnew (hfresh a.id hid)
  | stop told => exact (h.stop_told told).mono hmore
  | @advance id a b step free ha hadvance hfree =>
    obtain rfl : a.id = id := id_of_lookup? ha
    exact (h.advance_one (mem_of_lookup? ha) hadvance hfree).mono hmore

theorem regular_run (workDir : String) (slots started : Int) (events : List Event)
    (hfresh : FreshIds events) :
    Regular slots.toNat (submitted events) ((ofSlots workDir slots started).run events) := by
  induction events using List.reverseRecOn with
  | nil => exact ⟨List.nodup_nil, by simp [run, ofSlots], rfl⟩
  | append_singleton events ev ih =>
    have hsubmitted : submitted (events ++ [ev]) = submitted events ++ ev.submitted?.toList := by
      simp only [submitted, List.filterMap_append]
      cases h : ev.submitted? <;> simp [h]
    unfold FreshIds at hfresh ih
    rw [hsubmitted] at hfresh ⊢
    obtain ⟨hbefore, -, hcross⟩ := List.nodup_append.mp hfresh
    rw [run_snoc]
    refine (ih hbefore).step ev ?_
    intro id hid hmem
    exact hcross id hmem id (by simp [hid]) rfl

theorem Regular.countP_running_le (h : Regular slots ids s)
    (hlived : ∀ a ∈ s.analyses, ∃ seen, Lived a seen) :
    s.analyses.countP (·.state = .running) ≤ slots := by
  have hheld : s.analyses.countP (·.state = .running) ≤
      s.analyses.countP (·.stage.holdsSlot) := by
    refine List.countP_mono_left fun a ha hstate => ?_
    obtain ⟨seen, hseen⟩ := hlived a ha
    exact hseen.holdsSlot_of_running (by simpa using hstate)
  have heq := h.slots_eq
  omega

/-! ## Progress -/

/-- Number of steps until the service is done with an analysis at a stage. -/
def stepsLeft : Stage → Nat
  | .waiting => 6
  | .admitted => 5
  | .running => 4
  | .returned _ => 3
  | .judged _ _ => 2
  | .recorded => 1
  | .over => 0

/-- The same for all analyses. -/
def remaining (s : Service) : Nat := (s.analyses.map (stepsLeft ·.stage)).sum

/-- An analysis that has a slot can go on. -/
theorem exists_advances_of_holdsSlot (free : Nat) (h : a.stage.holdsSlot = true) :
    ∃ step b free', Advances a step b ∧ step.slots? free = some free' ∧
      stepsLeft b.stage < stepsLeft a.stage := by
  cases hstage : a.stage with
  | admitted => exact ⟨_, _, free, .beginning hstage, rfl, by simp [stepsLeft]⟩
  | running => exact ⟨_, _, free, .returning {} hstage, rfl, by simp [stepsLeft]⟩
  | returned result => exact ⟨_, _, free, .judgment hstage, rfl, by simp [stepsLeft]⟩
  | judged result stopped => exact ⟨_, _, free, .recording 0 hstage, rfl, by simp [stepsLeft]⟩
  | recorded => exact ⟨_, _, free + 1, .release hstage, rfl, by simp [stepsLeft]⟩
  | _ => rw [hstage] at h; cases h

/-- Either an analysis with a slot can go on, or all slots are free for one that waits. -/
theorem Regular.exists_advances (h : Regular slots ids s) (hslots : 0 < slots)
    (hopen : ∃ a ∈ s.analyses, a.stage ≠ .over) :
    ∃ a ∈ s.analyses, ∃ step b free, Advances a step b ∧ step.slots? s.free = some free ∧
      stepsLeft b.stage < stepsLeft a.stage := by
  by_cases hheld : ∃ a ∈ s.analyses, a.stage.holdsSlot = true
  · obtain ⟨a, ha, hslot⟩ := hheld
    exact ⟨a, ha, exists_advances_of_holdsSlot s.free hslot⟩
  · obtain ⟨a, ha, hstage⟩ := hopen
    have hnone : s.analyses.countP (·.stage.holdsSlot) = 0 := by
      refine List.countP_eq_zero.mpr fun b hb hslot => ?_
      exact hheld ⟨b, hb, hslot⟩
    have hfree : s.free ≠ 0 := by
      have heq := h.slots_eq
      omega
    -- An open analysis without a slot waits for one.
    have hwaiting : a.stage = .waiting := by
      have hslot : a.stage.holdsSlot ≠ true := fun hslot => hheld ⟨a, ha, hslot⟩
      cases hs : a.stage <;> simp_all [Stage.holdsSlot]
    exact ⟨a, ha, _, _, s.free - 1, .admission hwaiting, if_neg hfree, by
      simp [stepsLeft, hwaiting]⟩

theorem Regular.exists_step (h : Regular slots ids s) (hslots : 0 < slots)
    (hopen : ∃ a ∈ s.analyses, a.stage ≠ .over) :
    ∃ id step, (s.step (.advance id step)).remaining < s.remaining := by
  obtain ⟨a, ha, step, b, free, hadvance, hfree, hlt⟩ := h.exists_advances hslots hopen
  refine ⟨a.id, step, ?_⟩
  have hstep : s.step (.advance a.id step) = { s.modify a.id (fun _ => b) with free := free } := by
    simp [Service.step, advance, h.lookup?_eq ha, perform?_eq_some_iff.mpr hadvance, hfree]
  obtain ⟨older, newer, hold, hnew⟩ := h.split ha b
  have hafter : (s.step (.advance a.id step)).analyses = older ++ b :: newer := by
    rw [hstep]
    exact hnew
  simp only [remaining, hold, hafter, List.map_append, List.map_cons, List.sum_append,
    List.sum_cons]
  omega

/-- With any slots, all analyses can come to their ends by steps of their own. -/
theorem Regular.exists_all_over (h : Regular slots ids s) (hslots : 0 < slots) :
    ∃ more : List Event, (∀ ev ∈ more, ∃ id step, ev = .advance id step) ∧
      ∀ a ∈ (s.run more).analyses, a.stage = .over := by
  -- On the number of steps that are left altogether, which each step makes smaller.
  induction hn : s.remaining using Nat.strongRecOn generalizing s with
  | ind n ih =>
    by_cases hopen : ∃ a ∈ s.analyses, a.stage ≠ .over
    · obtain ⟨id, step, hlt⟩ := h.exists_step hslots hopen
      have hnext : Regular slots ids (s.step (.advance id step)) := by
        have := h.step (.advance id step) nofun
        simpa [Event.submitted?] using this
      obtain ⟨more, hmore, hover⟩ := ih _ (hn ▸ hlt) hnext rfl
      refine ⟨.advance id step :: more, ?_, hover⟩
      intro ev hev
      rcases List.mem_cons.mp hev with rfl | hev
      · exact ⟨id, step, rfl⟩
      · exact hmore ev hev
    · refine ⟨[], by simp, fun a ha => ?_⟩
      by_contra hstage
      exact hopen ⟨a, ha, hstage⟩

/-! ## Lives -/

/-- Throughout any history with different identifiers, each analysis goes from pending to running and
on to a final state, or from pending to canceled, and stays there; it has a finishing time exactly in
the final states; its run is started at most once, and not without a slot. At most as many analyses
are running as there are slots, the counts sum to the number of accepted submissions, and a rejected
one changes nothing. If there are any slots, all analyses can end. -/
theorem run_lifecycles (workDir : String) (slots started : Int) (events : List Event)
    (hfresh : FreshIds events) :
    let start := ofSlots workDir slots started
    let s := start.run events
    (∀ id a, s.lookup? id = some a →
      IsCourse (start.course id events) ∧ (start.course id events).getLast? = some a.state ∧
      (a.state.isFinal = true → ∀ more, ∃ b,
        (start.run (events ++ more)).lookup? id = some b ∧ b.state = a.state) ∧
      a.finished.isSome = a.state.isFinal ∧
      a.runs = (start.course id events).count .running ∧ a.runs ≤ 1 ∧
      (a.runs ≠ 0 → HeldSlot start id events)) ∧
    s.status.counts.running ≤ slots.toNat ∧
    s.status.counts.total = start.accepted events ∧
    (∀ files id now request why, s.submit files id now request = .error why →
      s.step (.submit files id now request) = s) ∧
    (0 < slots → ∃ more : List Event, (∀ ev ∈ more, ∃ id step, ev = .advance id step) ∧
      ∀ a ∈ (s.run more).analyses, a.state.isFinal = true) := by
  intro start s
  have hempty : start.analyses = [] := rfl
  have hregular : Regular slots.toNat (submitted events) s :=
    regular_run workDir slots started events hfresh
  refine ⟨?_, ?_, ?_, ?_, ?_⟩
  · intro id a ha
    have hlived := lived_run hempty ha
    exact ⟨hlived.isCourse, hlived.getLast?, state_of_final hempty ha, hlived.isSome_finished,
      hlived.runs_eq, hlived.runs_le_one, heldSlot_of_runs hempty events ha⟩
  · rw [running_status]
    refine hregular.countP_running_le fun a ha => ?_
    exact ⟨_, lived_run hempty (hregular.lookup?_eq ha)⟩
  · rw [total_status, length_run, hempty]
    exact Nat.zero_add _
  · intro files id now request why h
    simp [step, h, Except.toOption]
  · intro hslots
    obtain ⟨more, hmore, hover⟩ := hregular.exists_all_over (by omega)
    refine ⟨more, hmore, fun a ha => ?_⟩
    -- Steps of the analyses submit nothing, so identifiers stay different.
    have hsame : FreshIds (events ++ more) := by
      have hnone : more.filterMap Event.submitted? = [] := by
        refine List.filterMap_eq_nil_iff.mpr fun ev hev => ?_
        obtain ⟨id, step, rfl⟩ := hmore ev hev
        rfl
      simpa [FreshIds, submitted, hnone] using hfresh
    have hlater := regular_run workDir slots started (events ++ more) hsame
    have hrun : start.run (events ++ more) = s.run more := run_append start events more
    have hfound : (start.run (events ++ more)).lookup? a.id = some a :=
      hlater.lookup?_eq (by rw [← hrun] at ha; exact ha)
    exact (lived_run hempty hfound).isFinal_of_over (hover a ha)

/-! ## One slot for three analyses -/

def bitcodeFiles : FileTree := { root := .dir [("prog.bc", .file "" false)], cwd := [] }

/-- The first analysis runs to its end, the second one stops waiting, and the third one is running; a
request for a file that does not exist is rejected. -/
def sharedSlot : List Event :=
  [.submit bitcodeFiles ⟨1⟩ 5 { bitcode := "prog.bc" },
    .submit bitcodeFiles ⟨2⟩ 5 { bitcode := "prog.bc" },
    .submit bitcodeFiles ⟨3⟩ 6 { bitcode := "none.bc" },
    .submit bitcodeFiles ⟨4⟩ 6 { bitcode := "prog.bc" },
    .advance ⟨1⟩ .admission, .advance ⟨2⟩ .admission, .advance ⟨1⟩ .beginning,
    .cancel ⟨2⟩, .advance ⟨2⟩ (.withdrawal 7),
    .advance ⟨1⟩ (.returning {}), .advance ⟨1⟩ .judgment, .advance ⟨1⟩ (.recording 9),
    .advance ⟨1⟩ .release, .advance ⟨4⟩ .admission, .advance ⟨4⟩ .beginning]

theorem run_lifecycles_sharedSlot :
    let start := ofSlots "runs" 1 0
    let s := start.run sharedSlot
    FreshIds sharedSlot ∧
    start.course ⟨1⟩ sharedSlot = [.pending, .running, .succeeded] ∧
    start.course ⟨2⟩ sharedSlot = [.pending, .canceled] ∧
    start.course ⟨4⟩ sharedSlot = [.pending, .running] ∧
    (∃ a, s.lookup? ⟨1⟩ = some a ∧ a.finished.isSome = true ∧ HeldSlot start ⟨1⟩ sharedSlot) ∧
    s.status.counts.running ≤ 1 ∧ s.status.counts.total = 3 := by
  intro start s
  have hfresh : FreshIds sharedSlot := by
    unfold FreshIds
    decide
  obtain ⟨hlives, hrunning, htotal, -, -⟩ := run_lifecycles "runs" 1 0 sharedSlot hfresh
  have haccepted : start.accepted sharedSlot = 3 := by decide +kernel
  have hfirst : (s.lookup? ⟨1⟩).map (fun a => (a.state, a.runs)) = some (.succeeded, 1) := by
    decide +kernel
  obtain ⟨a, ha, hpair⟩ := Option.map_eq_some_iff.mp hfirst
  have hstate : a.state = .succeeded := congrArg Prod.fst hpair
  have hruns : a.runs = 1 := congrArg Prod.snd hpair
  obtain ⟨-, -, -, hfinished, -, -, hheld⟩ := hlives ⟨1⟩ a ha
  refine ⟨hfresh, by decide +kernel, by decide +kernel, by decide +kernel,
    ⟨a, ha, ?_, hheld (by omega)⟩, hrunning, htotal.trans haccepted⟩
  rw [hfinished, hstate]
  rfl

end Service
end FaultChain
