import FaultChain.Service.Record

/-!
# Steps of the analysis service

What an event can do to the table of analyses, and to one of them. All that is shown about histories
rests on these cases, so only this module opens the operations of the service.

* `Service.Advances`: what a step does to an analysis, with the stage it starts from.
* `Service.Moves`, `Service.moves_step`: what an event does to the service.
* `Service.Next`, `Service.lookup?_step`: what it does to the analysis found under an identifier.
-/

namespace FaultChain
namespace Service

/-! ## One analysis -/

/-- A step of an analysis and what the analysis is afterwards. -/
inductive Advances (a : Analysis) : Advance → Analysis → Prop where
  | admission : a.stage = .waiting → Advances a .admission { a with stage := .admitted }
  | withdrawal (now : Int) : a.stage = .waiting → a.stopped = true →
      Advances a (.withdrawal now) { a.finish withdrawn true now with stage := .over }
  | beginning : a.stage = .admitted →
      Advances a .beginning { a with stage := .running, state := .running, runs := a.runs + 1 }
  | returning (result : RunEnd) : a.stage = .running →
      Advances a (.returning result) { a with stage := .returned result }
  | judgment {result : RunEnd} : a.stage = .returned result →
      Advances a .judgment { a with stage := .judged result a.stopped }
  | recording {result : RunEnd} {stopped : Bool} (now : Int) : a.stage = .judged result stopped →
      Advances a (.recording now) { a.finish result stopped now with stage := .recorded }
  | release : a.stage = .recorded → Advances a .release { a with stage := .over }

theorem perform?_eq_some_iff {a b : Analysis} {step : Advance} :
    step.perform? a = some b ↔ Advances a step b := by
  constructor
  · intro h
    unfold Advance.perform? at h
    -- First the steps, and then the stages that each of them can start from.
    split at h <;> split at h <;> cases h
    · exact .admission ‹_›
    · exact .withdrawal _ ‹_› ‹_›
    · exact .beginning ‹_›
    · exact .returning _ ‹_›
    · exact .judgment ‹_›
    · exact .recording _ ‹_›
    · exact .release ‹_›
  · intro h
    cases h <;> simp_all [Advance.perform?]

theorem Advances.id_eq {a b : Analysis} {step : Advance} (h : Advances a step b) :
    b.id = a.id := by
  cases h <;> rfl

/-- Only the mark of having been told to stop changes, and only before the end is recorded. -/
theorem stop_eq (a : Analysis) : a.stop = { a with stopped := a.stopped || a.finished.isNone } := by
  unfold Analysis.stop
  cases h : a.finished with
  | none => simp
  | some now =>
    have hsame : a = { a with stopped := a.stopped || false } := by simp
    simpa [h] using hsame

@[simp] theorem id_stop (a : Analysis) : a.stop.id = a.id := by rw [stop_eq]

@[simp] theorem state_stop (a : Analysis) : a.stop.state = a.state := by rw [stop_eq]

@[simp] theorem stage_stop (a : Analysis) : a.stop.stage = a.stage := by rw [stop_eq]

@[simp] theorem runs_stop (a : Analysis) : a.stop.runs = a.runs := by rw [stop_eq]

@[simp] theorem finished_stop (a : Analysis) : a.stop.finished = a.finished := by rw [stop_eq]

@[simp] theorem stopped_stop (a : Analysis) :
    a.stop.stopped = (a.stopped || a.finished.isNone) := by rw [stop_eq]

/-- What is in the table right after a submission. -/
structure IsNew (a : Analysis) : Prop where
  state : a.state = .pending
  finished : a.finished = none
  stage : a.stage = .waiting
  stopped : a.stopped = false
  runs : a.runs = 0

/-- What an event can make of an analysis. -/
inductive Next (a : Analysis) : Analysis → Prop where
  | same : Next a a
  | stop : Next a a.stop
  | advance {step : Advance} {b : Analysis} : Advances a step b → Next a b

/-! ## The table -/

/-- The identifier that an event brings in. -/
def Event.submitted? : Event → Option Uuid
  | .submit _ id _ _ => some id
  | _ => none

/-- What an event can make of the service. -/
inductive Moves (s : Service) (ev : Event) : Service → Prop where
  | same : Moves s ev s
  | accept (a : Analysis) : IsNew a → ev.submitted? = some a.id →
      Moves s ev { s with analyses := s.analyses ++ [a] }
  | stop (told : Analysis → Bool) :
      Moves s ev { s with analyses := s.analyses.map fun a => if told a then a.stop else a }
  | advance {id : Uuid} {a b : Analysis} {step : Advance} {free : Nat} :
      s.lookup? id = some a → Advances a step b → step.slots? s.free = some free →
      Moves s ev { s.modify id (fun _ => b) with free := free }

/-- A submission is refused or adds an analysis. -/
theorem submit_cases (s : Service) (files : FileTree) (id : Uuid) (now : Int)
    (request : AnalysisRequest) :
    (∃ why, s.submit files id now request = .error why) ∨
      ∃ a, IsNew a ∧ a.id = id ∧
        s.submit files id now request = .ok { s with analyses := s.analyses ++ [a] } := by
  cases hwhy : refusal? (request.options s.workDir id) files with
  | some why => exact Or.inl ⟨why, by simp only [submit, hwhy]⟩
  | none =>
    refine Or.inr ⟨{
      id := id
      request := request
      options := request.options s.workDir id
      created := now }, ⟨rfl, rfl, rfl, rfl, rfl⟩, rfl, ?_⟩
    simp only [submit, hwhy]

/-- An analysis whose end is not recorded can be told to stop. -/
theorem cancel_cases (s : Service) (id : Uuid) :
    (∃ why, s.cancel id = .error why) ∨
      ∃ a, s.lookup? id = some a ∧ a.finished = none ∧
        s.cancel id = .ok (s.modify id Analysis.stop) := by
  unfold cancel find
  cases hlookup : s.lookup? id with
  | none => exact Or.inl ⟨_, rfl⟩
  | some a =>
    cases hfinished : a.finished with
    | some now => exact Or.inl ⟨_, by simp only [hfinished, Option.isSome_some, if_true]; rfl⟩
    | none => exact Or.inr ⟨a, rfl, hfinished, by simp [hfinished]⟩

theorem modify_stop (s : Service) (id : Uuid) :
    s.modify id Analysis.stop =
      { s with analyses := s.analyses.map fun a => if decide (a.id = id) then a.stop else a } := by
  simp [modify]

theorem moves_step (s : Service) (ev : Event) : Moves s ev (s.step ev) := by
  cases ev with
  | submit files id now request =>
    change Moves s _ ((s.submit files id now request).toOption.getD s)
    -- A refused request leaves the service as it is.
    rcases submit_cases s files id now request with ⟨why, h⟩ | ⟨a, hnew, hid, h⟩
    · rw [h]
      exact .same
    · rw [h]
      exact .accept a hnew (congrArg some hid.symm)
  | cancel id =>
    change Moves s _ ((s.cancel id).toOption.getD s)
    rcases cancel_cases s id with ⟨why, h⟩ | ⟨a, -, -, h⟩
    · rw [h]
      exact .same
    · rw [h, modify_stop]
      exact .stop (·.id = id)
  | cancelAll =>
    have hall : s.cancelAll =
        { s with analyses := s.analyses.map fun a => if (fun _ => true) a then a.stop else a } := by
      simp [cancelAll]
    change Moves s _ s.cancelAll
    rw [hall]
    exact .stop _
  | advance id a =>
    change Moves s _ (s.advance id a)
    unfold advance
    split
    · rename_i b free hb hfree
      obtain ⟨a', ha, hperform⟩ := Option.bind_eq_some_iff.mp hb
      exact .advance ha (perform?_eq_some_iff.mp hperform) hfree
    · exact .same

/-! ## Looking up -/

variable {s : Service} {id : Uuid} {a : Analysis}

theorem id_of_lookup? (h : s.lookup? id = some a) : a.id = id := by
  simpa using List.find?_some h

theorem mem_of_lookup? (h : s.lookup? id = some a) : a ∈ s.analyses := List.mem_of_find?_eq_some h

/-- Changes that keep identifiers are seen when looking up. -/
theorem find?_map_of_id (id : Uuid) (f : Analysis → Analysis) (analyses : List Analysis)
    (hf : ∀ a ∈ analyses, (f a).id = a.id) :
    (analyses.map f).find? (·.id = id) = (analyses.find? (·.id = id)).map f := by
  induction analyses with
  | nil => rfl
  | cons a analyses ih =>
    have hrest := ih fun b hb => hf b (List.mem_cons_of_mem _ hb)
    rw [List.map_cons, List.find?_cons, List.find?_cons, hf a List.mem_cons_self, hrest]
    split <;> rfl

/-- What is found once an analysis has taken a step. -/
theorem lookup?_put (id : Uuid) {id' : Uuid} {a' b : Analysis} (h : s.lookup? id' = some a')
    (hb : b.id = a'.id) :
    (s.modify id' fun _ => b).lookup? id = if id = id' then some b else s.lookup? id := by
  -- The analysis keeps its identifier, so it is found where it was found before.
  have hmap := find?_map_of_id id (fun a => if a.id = id' then b else a) s.analyses (by
    intro c _
    split
    · exact hb.trans ((id_of_lookup? h).trans (Eq.symm ‹_›))
    · rfl)
  have hfound : (s.modify id' fun _ => b).lookup? id =
      (s.lookup? id).map fun a => if a.id = id' then b else a := hmap
  rw [hfound]
  split
  · rename_i hid
    subst hid
    simp [h, id_of_lookup? h]
  · rename_i hid
    cases hlookup : s.lookup? id with
    | none => rfl
    | some a => simp [id_of_lookup? hlookup, hid]

/-- What is found once some analyses were told to stop. -/
theorem lookup?_stop (told : Analysis → Bool) :
    Service.lookup?
        { s with analyses := s.analyses.map fun a => if told a then a.stop else a } id =
      (s.lookup? id).map fun a => if told a then a.stop else a :=
  find?_map_of_id id _ s.analyses (by intro a _; split <;> simp)

/-- An event changes what is found under an identifier as it can change an analysis. -/
theorem lookup?_step (h : s.lookup? id = some a) (ev : Event) :
    ∃ b, (s.step ev).lookup? id = some b ∧ Next a b := by
  have hmoves := moves_step s ev
  generalize s.step ev = s' at hmoves ⊢
  cases hmoves with
  | same => exact ⟨a, h, .same⟩
  | accept b hb hid =>
    refine ⟨a, ?_, .same⟩
    have hfind : s.analyses.find? (·.id = id) = some a := h
    simp [lookup?, List.find?_append, hfind]
  | stop told =>
    refine ⟨if told a then a.stop else a, by rw [lookup?_stop, h]; rfl, ?_⟩
    split
    · exact .stop
    · exact .same
  | @advance id' a' b step free ha' hadvance hfree =>
    have hput := lookup?_put id ha' hadvance.id_eq
    -- The analysis that takes the step is the one looked up, or another one.
    by_cases hid : id = id'
    · subst hid
      have hsame : a' = a := Option.some.inj (ha'.symm.trans h)
      rw [if_pos rfl] at hput
      exact ⟨b, hput, .advance (hsame ▸ hadvance)⟩
    · rw [if_neg hid] at hput
      exact ⟨a, hput.trans h, .same⟩

/-- Only a submission brings in what was not found before. -/
theorem lookup?_step_of_none (h : s.lookup? id = none) (ev : Event) :
    (s.step ev).lookup? id = none ∨ ∃ b, (s.step ev).lookup? id = some b ∧ IsNew b := by
  have hfind : s.analyses.find? (·.id = id) = none := h
  have hmoves := moves_step s ev
  generalize s.step ev = s' at hmoves ⊢
  cases hmoves with
  | same => exact Or.inl h
  | accept b hb hid =>
    by_cases hbid : b.id = id
    · exact Or.inr ⟨b, by simp [lookup?, List.find?_append, hfind, hbid], hb⟩
    · exact Or.inl (by simp [lookup?, List.find?_append, hfind, hbid])
  | stop told => exact Or.inl (by rw [lookup?_stop, h]; rfl)
  | @advance id' a' b step free ha' hadvance hfree =>
    have hput := lookup?_put id ha' hadvance.id_eq
    -- Only an analysis that is found can take a step.
    have hid : id ≠ id' := by
      rintro rfl
      rw [h] at ha'
      cases ha'
    rw [if_neg hid] at hput
    exact Or.inl (hput.trans h)

/-! ## Histories -/

theorem run_append (s : Service) (events more : List Event) :
    s.run (events ++ more) = (s.run events).run more :=
  List.foldl_append

theorem run_snoc (s : Service) (events : List Event) (ev : Event) :
    s.run (events ++ [ev]) = (s.run events).step ev :=
  run_append s events [ev]

end Service
end FaultChain
