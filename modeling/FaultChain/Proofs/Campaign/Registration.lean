import FaultChain.Campaign.Basic
import FaultChain.Proofs.Registry.Accounting
import FaultChain.Proofs.Registry.MaximalTraces
import FaultChain.Proofs.Report

/-!
# Taking reports into the registry

* `Campaign.serves_register`: taking in results is a sequence of requests.
* `Campaign.sameRest_register`: it changes nothing else.
* `Registry.Acceptable`: a report that is registered, with the error it is registered as.
* `Registry.order_serveAll_files`: new acceptable reports are registered one after another.
* `Registry.handled_serveAll_files`: new reports are registered or dropped, each of them once.
-/

namespace FaultChain

/-! ## Requests -/

namespace Campaign

/-- The reports of some results, each with the function it was found from. -/
def reportsOf (rs : List Result) : List (String × String) :=
  rs.flatMap fun r => r.errorFiles.map fun report => (report, r.function)

/-- The requests to take in some reports. -/
def requests (files : FileTree) (qs : List (String × String)) : List Registry.Request :=
  qs.map fun q => .registerFile files q.1 q.2

/-- A state in which only the registry, and what is counted, differs. -/
structure Serves (s : State) (qs : List (String × String)) (s' : State) : Prop where
  world : s'.world = s.world
  phaseOne : s'.phaseOne = s.phaseOne
  registry : s'.registry = s.registry.serveAll (requests s.world.host.files qs)

theorem Serves.trans {s s' s'' : State} {qs qs' : List (String × String)} (h : Serves s qs s')
    (h' : Serves s' qs' s'') : Serves s (qs ++ qs') s'' := by
  refine ⟨h'.world.trans h.world, h'.phaseOne.trans h.phaseOne, ?_⟩
  rw [h'.registry, h.registry, h.world]
  simp [requests, Registry.serveAll]

theorem serves_registerReport (function report : String) (acc : Bool × State) :
    Serves acc.2 [(report, function)] (registerReport function acc report).2 := by
  unfold registerReport
  simp only
  cases hreg : acc.2.registry.registerFile acc.2.world.host.files report function with
  | mk answer registry =>
    have hserve : acc.2.registry.serveAll
        (requests acc.2.world.host.files [(report, function)]) = registry := by
      simp [requests, Registry.serveAll, Registry.serve, hreg]
    cases answer with
    | error f => exact ⟨rfl, rfl, hserve.symm⟩
    | ok e =>
      by_cases hp : e.isPropagated = true
      · simp only [hp, if_true]
        exact ⟨rfl, rfl, hserve.symm⟩
      · simp only [hp]
        exact ⟨rfl, rfl, hserve.symm⟩

theorem serves_foldl_registerReport (function : String) (reports : List String)
    (acc : Bool × State) :
    Serves acc.2 (reports.map fun report => (report, function))
      (reports.foldl (registerReport function) acc).2 := by
  induction reports generalizing acc with
  | nil => exact ⟨rfl, rfl, rfl⟩
  | cons report reports ih =>
    exact (serves_registerReport function report acc).trans
      (ih (registerReport function acc report))

theorem serves_registerResult (s : State) (r : Result) :
    Serves s (reportsOf [r]) (registerResult s r) := by
  have hfold := serves_foldl_registerReport r.function r.errorFiles (false, s)
  unfold registerResult reportsOf
  simp only [List.flatMap_cons, List.flatMap_nil, List.append_nil]
  split
  · exact ⟨hfold.world, hfold.phaseOne, hfold.registry⟩
  · exact hfold

/-- Taking in results is a sequence of requests. -/
theorem serves_register (s : State) (rs : List Result) :
    Serves s (reportsOf rs) (register s rs) := by
  induction rs generalizing s with
  | nil => exact ⟨rfl, rfl, rfl⟩
  | cons r rs ih =>
    have hreports : reportsOf (r :: rs) = reportsOf [r] ++ reportsOf rs := by simp [reportsOf]
    rw [hreports]
    exact (serves_registerResult s r).trans (ih (registerResult s r))

/-- A state in which only what is registered, and what is counted of it, differs. -/
def SameRest (s s' : State) : Prop :=
  ∃ registry errorRuns isolated propagated, s' = { s with
    registry := registry
    errorRuns := errorRuns
    isolated := isolated
    propagated := propagated }

theorem SameRest.refl (s : State) : SameRest s s := ⟨_, _, _, _, rfl⟩

theorem SameRest.trans {s s' s'' : State} (h : SameRest s s') (h' : SameRest s' s'') :
    SameRest s s'' := by
  rcases h with ⟨_, _, _, _, rfl⟩
  rcases h' with ⟨_, _, _, _, rfl⟩
  exact ⟨_, _, _, _, rfl⟩

theorem sameRest_registerReport (function : String) (acc : Bool × State) (report : String) :
    SameRest acc.2 (registerReport function acc report).2 := by
  unfold registerReport
  dsimp only
  split
  · exact ⟨_, _, _, _, rfl⟩
  · dsimp only
    split
    · exact ⟨_, _, _, _, rfl⟩
    · exact ⟨_, _, _, _, rfl⟩

theorem sameRest_registerResult (s : State) (r : Result) : SameRest s (registerResult s r) := by
  have hfold : ∀ (reports : List String) (acc : Bool × State),
      SameRest acc.2 (reports.foldl (registerReport r.function) acc).2 := by
    intro reports
    induction reports with
    | nil => exact fun acc => .refl acc.2
    | cons report reports ih => exact fun acc => (sameRest_registerReport _ acc report).trans (ih _)
  unfold registerResult
  dsimp only
  split
  · exact (hfold _ (false, s)).trans ⟨_, _, _, _, rfl⟩
  · exact hfold _ (false, s)

/-- Taking in results changes nothing else. -/
theorem sameRest_register (s : State) (rs : List Result) : SameRest s (register s rs) := by
  unfold register
  induction rs generalizing s with
  | nil => exact .refl s
  | cons r rs ih => exact (sameRest_registerResult s r).trans (ih _)

theorem world_register (s : State) (rs : List Result) : (register s rs).world = s.world := by
  rcases sameRest_register s rs with ⟨_, _, _, _, heq⟩
  rw [heq]

theorem deadline_register (s : State) (rs : List Result) :
    (register s rs).deadline = s.deadline := by
  rcases sameRest_register s rs with ⟨_, _, _, _, heq⟩
  rw [heq]

end Campaign

/-! ## Acceptable reports -/

namespace Registry

/-- A report, with the function it was found from, that is registered among some errors, and the
error it is registered as. -/
def Acceptable (registered : List Fault) (fns : FunctionSet) (files : FileTree)
    (q : String × String) (e : Fault) : Prop :=
  ∃ given, Report.read files q.1 q.2 fns = .ok given ∧ given.isBlacklisted = false ∧
    e.trace.frames ≠ [] ∧ Origin registered given e

theorem Acceptable.mono {registered more : List Fault} {fns : FunctionSet} {files : FileTree}
    {q : String × String} {e : Fault} (h : Acceptable registered fns files q e)
    (hsub : ∀ e ∈ registered, e ∈ more) : Acceptable more fns files q e := by
  obtain ⟨given, hread, hblack, hframes, horigin⟩ := h
  exact ⟨given, hread, hblack, hframes, horigin.mono hsub⟩

theorem Origin.report_eq {registered : List Fault} {given e : Fault}
    (h : Origin registered given e) : e.report = given.report := by
  rcases h with ⟨-, rfl⟩ | ⟨-, seed, -, -, rfl⟩
  · rfl
  · rfl

theorem Acceptable.report_eq {registered : List Fault} {fns : FunctionSet} {files : FileTree}
    {q : String × String} {e : Fault} (h : Acceptable registered fns files q e) :
    e.report = q.1 := by
  obtain ⟨given, hread, -, -, horigin⟩ := h
  exact horigin.report_eq.trans (Report.read_spec hread).2.1

/-- The trace of a report is one of its entry function. -/
theorem Acceptable.entry_eq {registered : List Fault} {fns : FunctionSet} {files : FileTree}
    {q : String × String} {e : Fault} (h : Acceptable registered fns files q e) :
    e.trace.entry = e.entry := by
  rcases h with ⟨given, hread, -, -, horigin⟩
  rcases Report.read_spec hread with ⟨-, -, hentry, htrace⟩
  rcases horigin with ⟨-, rfl⟩ | ⟨-, seed, -, -, rfl⟩
  · exact htrace.trans hentry.symm
  · exact htrace.trans hentry.symm

theorem vetted_of_origin {r : Registry} (hix : r.Indexed) {given e : Fault}
    (hblack : given.isBlacklisted = false) (hframes : e.trace.frames ≠ [])
    (h : Origin r.order given e) : r.vetted given = .ok e := by
  have hempty : e.trace.frames.isEmpty = false := by simpa using hframes
  rcases h with ⟨hp, rfl⟩ | ⟨hp, seed, hseed, hrep, rfl⟩
  · simp [vetted, assess, inherited, hblack, hp, hframes]
  · have hlookup : r.lookup given.seed = some seed :=
      (hix.lookup_eq_some_iff _ _).mpr ⟨hseed, hrep⟩
    simp only [vetted, assess, inherited, hblack, hp, hlookup, if_true, Bool.false_eq_true, if_false,
      hempty]

/-- An acceptable report that is new is registered. -/
theorem serve_of_acceptable {r : Registry} (hix : r.Indexed) {files : FileTree}
    {q : String × String} {e : Fault} (h : Acceptable r.order r.functions files q e)
    (hnew : ∀ e' ∈ r.order, e'.report ≠ q.1) :
    r.serve (.registerFile files q.1 q.2) = r.insert e := by
  obtain ⟨given, hread, hblack, hframes, horigin⟩ := h
  have hlookup : r.lookup given.report = none := by
    rw [(Report.read_spec hread).2.1]
    exact (hix.lookup_eq_none_iff _).mpr hnew
  simp [serve, registerFile, hread, register, hlookup,
    vetted_of_origin hix hblack hframes horigin]

/-- New acceptable reports are registered one after another. -/
theorem order_serveAll_files {files : FileTree} {qs : List (String × String)} {es : List Fault}
    {r : Registry} (hix : r.Indexed)
    (h : List.Forall₂ (Acceptable r.order r.functions files) qs es)
    (hnodup : (qs.map (·.1)).Nodup) (hnew : ∀ q ∈ qs, ∀ e ∈ r.order, e.report ≠ q.1) :
    let r' := r.serveAll (Campaign.requests files qs)
    r'.Indexed ∧ r'.functions = r.functions ∧ r'.mode = r.mode ∧ r'.order = r.order ++ es := by
  induction qs generalizing r es with
  | nil =>
    cases h
    exact ⟨hix, rfl, rfl, (List.append_nil _).symm⟩
  | cons q qs ih =>
    cases h with
    | @cons _ e _ es hfirst hrest =>
      obtain ⟨hq, hnodup⟩ := List.nodup_cons.mp hnodup
      have hstep := serve_of_acceptable hix hfirst (hnew q List.mem_cons_self)
      have hreport := hfirst.report_eq
      have hlookup : r.lookup e.report = none := by
        rw [hreport]
        exact (hix.lookup_eq_none_iff _).mpr (hnew q List.mem_cons_self)
      obtain ⟨_, _, _, hframes, _⟩ := hfirst
      -- What was acceptable before stays so with one more error registered.
      have hmono : ∀ e' ∈ r.order, e' ∈ (r.insert e).order := by
        intro e' he'
        rw [order_insert]
        exact List.mem_append_left _ he'
      have hnext := ih (r := r.insert e) (hix.insert hlookup hframes)
        (hrest.imp fun _ _ ha => ha.mono hmono) hnodup ?_
      · have hserve : r.serveAll (Campaign.requests files (q :: qs)) =
            (r.insert e).serveAll (Campaign.requests files qs) := by
          simp [serveAll, Campaign.requests, hstep]
        rw [hserve]
        obtain ⟨hix', hfns, hmode, horder⟩ := hnext
        refine ⟨hix', hfns, hmode, ?_⟩
        rw [horder, order_insert, List.append_assoc]
        rfl
      · intro q' hq' e' he'
        rw [order_insert] at he'
        rcases List.mem_append.mp he' with hold | hlast
        · exact hnew q' (List.mem_cons_of_mem _ hq') e' hold
        · rw [List.mem_singleton.mp hlast, hreport]
          intro heq
          exact hq (List.mem_map.mpr ⟨q', hq', heq.symm⟩)

/-! ## New reports -/

/-- What is registered of a report bears its path, and is an error of the function it was found
from. -/
theorem mem_order_registerFile {r : Registry} {files : FileTree} {path entry : String} {e : Fault}
    (he : e ∈ (r.registerFile files path entry).2.order) :
    e ∈ r.order ∨ (e.report = path ∧ e.entry = Report.normalize entry) := by
  unfold registerFile at he
  split at he
  · exact Or.inl he
  · rename_i given hread
    rcases Report.read_spec hread with ⟨-, hreport, hentry, -⟩
    rcases register_cases r given with ⟨drops, heq⟩ | ⟨e', haccepts, heq⟩
    · rw [heq] at he
      exact Or.inl he
    · rw [heq, order_insert] at he
      rcases List.mem_append.mp he with hold | hnew
      · exact Or.inl hold
      · right
        cases List.mem_singleton.mp hnew
        -- Taking over from a seed changes neither the report nor the function.
        refine ⟨haccepts.report_eq.trans hreport, Eq.trans ?_ hentry⟩
        rcases (vetted_cases haccepts.2).2 with ⟨-, rfl⟩ | ⟨-, seed, -, rfl⟩
        · rfl
        · rfl

theorem isRepeat_of_new {r : Registry} (hix : r.Indexed) {files : FileTree} {q : String × String}
    (hnew : ∀ e ∈ r.order, e.report ≠ q.1) : r.isRepeat (.registerFile files q.1 q.2) = false := by
  unfold isRepeat
  dsimp only
  split
  · rfl
  · rename_i given hread
    rw [(Report.read_spec hread).2.1, (hix.lookup_eq_none_iff _).mpr hnew]
    rfl

/-- New reports are registered or dropped, each of them once. -/
theorem handled_serveAll_files {files : FileTree} {qs : List (String × String)} {r : Registry}
    (hix : r.Indexed) (hnodup : (qs.map (·.1)).Nodup)
    (hnew : ∀ q ∈ qs, ∀ e ∈ r.order, e.report ≠ q.1) :
    let r' := r.serveAll (Campaign.requests files qs)
    r'.Indexed ∧ r'.handled = r.handled + qs.length ∧
      ∀ e ∈ r'.order, e ∈ r.order ∨
        ∃ q ∈ qs, e.report = q.1 ∧ e.entry = Report.normalize q.2 := by
  induction qs generalizing r with
  | nil => exact ⟨hix, rfl, fun e he => Or.inl he⟩
  | cons q qs ih =>
    rcases List.nodup_cons.mp hnodup with ⟨hq, hrest⟩
    have hfirst := handled_serve hix (.registerFile files q.1 q.2)
    rw [isRepeat_of_new hix (hnew q List.mem_cons_self)] at hfirst
    have horder : ∀ e ∈ (r.serve (.registerFile files q.1 q.2)).order,
        e ∈ r.order ∨ (e.report = q.1 ∧ e.entry = Report.normalize q.2) :=
      fun e he => mem_order_registerFile he
    -- The report that was just asked for is not among the others.
    have hothers : ∀ q' ∈ qs, ∀ e ∈ (r.serve (.registerFile files q.1 q.2)).order,
        e.report ≠ q'.1 := by
      intro q' hq' e he heq
      rcases horder e he with hold | ⟨hreport, -⟩
      · exact hnew q' (List.mem_cons_of_mem _ hq') e hold heq
      · exact hq (List.mem_map.mpr ⟨q', hq', (hreport.symm.trans heq).symm⟩)
    rcases ih (hix.serve (.registerFile files q.1 q.2)) hrest hothers with ⟨hix', hhandled, hall⟩
    refine ⟨hix', ?_, ?_⟩
    · change (Registry.serveAll _ _).handled = _ + (qs.length + 1)
      rw [Bool.toNat_false, Nat.add_zero] at hfirst
      rw [Nat.add_comm qs.length, ← Nat.add_assoc, ← hfirst]
      exact hhandled
    · intro e he
      rcases hall e he with hbefore | ⟨q', hq', hreport⟩
      · exact (horder e hbefore).imp id fun hreport => ⟨q, List.mem_cons_self, hreport⟩
      · exact Or.inr ⟨q', List.mem_cons_of_mem _ hq', hreport⟩

end Registry
end FaultChain
