import FaultChain.Proofs.Registry.Accounting
import FaultChain.Proofs.Report
import FaultChain.Proofs.Trace

/-!
# Reports offered to callers

An error is registered under the normalized name of the function it was found from, while the
reports to offer are looked up under the name of the callee as the call graph has it.

* `Registry.Known`: an error that is contained in an error of a caller.
* `Registry.mem_toPrepend`: the reports offered to a caller.
* `Registry.mem_order_serveAll`: errors stay registered.
* `Registry.registerFile_offered_iff`: the callees under whose names a registered report is offered.
-/

namespace FaultChain
namespace Registry

variable {r : Registry} {e : Fault}

/-! ## What is offered -/

/-- The frames of an error begin those of a registered error of a caller, and in the strict mode are
not the same. -/
def Known (r : Registry) (caller : String) (e : Fault) : Prop :=
  ∃ other ∈ r.order, other.entry = caller ∧ e.trace.frames <+: other.trace.frames ∧
    (r.mode = .strict → e.trace.frames ≠ other.trace.frames)

theorem knownTo_iff (hix : r.Indexed) {caller : String} :
    r.knownTo caller e = true ↔ r.Known caller e := by
  unfold knownTo Known
  simp only [List.any_eq_true, hix.mem_get_byEntry, Trace.isContainedIn_iff, and_assoc]

theorem mem_toPrepend (hix : r.Indexed) {caller callee report : String} (excludeKnown : Bool) :
    report ∈ r.toPrepend caller callee excludeKnown ↔
      ∃ e ∈ r.order, e.entry = callee ∧ e.report = report ∧
        (excludeKnown = true → ¬ r.Known caller e) := by
  -- Without leaving out known errors nothing is asked of them.
  have hkeep : ∀ e, (!(excludeKnown && r.knownTo caller e)) = true ↔
      (excludeKnown = true → ¬ r.Known caller e) := by
    intro e
    rw [← knownTo_iff hix]
    cases excludeKnown <;> simp
  unfold toPrepend sorted
  simp only [List.mem_mergeSort, List.mem_map, List.mem_filter, hix.mem_get_byEntry, hkeep]
  constructor
  · rintro ⟨e, ⟨⟨he, hentry⟩, hunknown⟩, hreport⟩
    exact ⟨e, he, hentry, hreport, hunknown⟩
  · rintro ⟨e, he, hentry, hreport, hunknown⟩
    exact ⟨e, ⟨⟨he, hentry⟩, hunknown⟩, hreport⟩

/-- All reports of the callee are offered if known ones are not left out. -/
theorem mem_toPrepend_iff (hix : r.Indexed) {caller callee report : String} :
    report ∈ r.toPrepend caller callee false ↔
      ∃ e ∈ r.order, e.entry = callee ∧ e.report = report := by
  rw [mem_toPrepend hix false]
  simp

/-! ## Errors stay registered -/

theorem mem_order_serve (he : e ∈ r.order) (q : Request) : e ∈ (r.serve q).order := by
  rcases serve_cases r q with ⟨drops, h⟩ | ⟨given, new, -, h⟩
  · rw [h]
    exact he
  · rw [h, order_insert]
    exact List.mem_append_left _ he

theorem mem_order_serveAll (he : e ∈ r.order) (qs : List Request) :
    e ∈ (r.serveAll qs).order := by
  induction qs generalizing r with
  | nil => exact he
  | cons q qs ih => exact ih (mem_order_serve he q)

theorem Indexed.serveAll (hix : r.Indexed) (qs : List Request) : (r.serveAll qs).Indexed := by
  induction qs generalizing r with
  | nil => exact hix
  | cons q qs ih => exact ih (hix.serve q)

/-! ## Registered reports -/

/-- A new report that is registered has the normalized name of its function. -/
theorem registerFile_spec (hix : r.Indexed) {files : FileTree} {path function : String}
    (hnew : r.lookup path = none) (h : (r.registerFile files path function).1 = .ok e) :
    e ∈ (r.registerFile files path function).2.order ∧ e.report = path ∧
      e.entry = Report.normalize function := by
  cases hread : Report.read files path function r.functions with
  | error why => simp [registerFile, hread] at h
  | ok given =>
    obtain ⟨-, hpath, hentry, -⟩ := Report.read_spec hread
    simp only [registerFile, hread] at h ⊢
    rcases register_outcome hix given with ⟨hsome, -, -⟩ | ⟨-, f, heq, -⟩ | ⟨-, heq, haccept⟩
    · rw [hpath, hnew] at hsome
      cases hsome
    · rw [heq] at h
      cases h
    · rw [heq] at h ⊢
      cases h
      refine ⟨by simp [order_insert], haccept.report_eq.trans hpath, ?_⟩
      -- What is taken over from a seed leaves the entry function alone.
      rcases (vetted_cases haccept.2).2 with ⟨-, hsame⟩ | ⟨-, seed, -, hsame⟩
      · rw [hsame, hentry]
      · rw [hsame]
        exact hentry

/-- A new report that is registered for a function is from then on, whatever else is requested,
offered to every caller under the normalized name of the function and under no other. So it is
offered under the name of the function itself if and only if that has no dot. -/
theorem registerFile_offered_iff (mode : Containment) (functions : FunctionSet)
    (before after : List Request) (files : FileTree) (path function : String) (e : Fault) :
    let r := (Registry.empty mode functions).serveAll before
    r.lookup path = none → (r.registerFile files path function).1 = .ok e →
    let r' := (r.registerFile files path function).2.serveAll after
    (∀ caller callee, path ∈ r'.toPrepend caller callee false ↔
      callee = Report.normalize function) ∧
    ∀ caller, path ∈ r'.toPrepend caller function false ↔ '.' ∉ function.toList := by
  intro r hnew hok r'
  have hix : r.Indexed := indexed_serveAll mode functions before
  obtain ⟨hmem, hreport, hentry⟩ := registerFile_spec hix hnew hok
  have hix' : r'.Indexed := (hix.serve (.registerFile files path function)).serveAll after
  have hmem' : e ∈ r'.order := mem_order_serveAll hmem after
  have hoffered : ∀ caller callee, path ∈ r'.toPrepend caller callee false ↔
      callee = Report.normalize function := by
    intro caller callee
    rw [mem_toPrepend_iff hix']
    constructor
    · rintro ⟨e', he', rfl, hsame⟩
      -- No other error has the report.
      have heq : e' = e := List.inj_on_of_nodup_map hix'.reports_nodup he' hmem'
        (hsame.trans hreport.symm)
      rw [heq, hentry]
    · rintro rfl
      exact ⟨e, hmem', hentry, hreport⟩
  refine ⟨hoffered, fun caller => ?_⟩
  rw [hoffered, eq_comm, Report.normalize_eq_self_iff]

/-! ## A function with a suffix -/

/-- One report in the working directory. -/
def suffixedFiles : FileTree :=
  { root := .dir [("test000001.ptr.err",
      .file "Error: memory error\nStack:\n\t#0 in f () at f.c:1\n" false)]
    cwd := [] }

/-- The error of the report, found from a function with a suffix. -/
def suffixedFault : Fault :=
  { report := "test000001.ptr.err"
    ktest := "test000001.ktest"
    entry := "f"
    reason := "memory error"
    location := ""
    function := "f"
    trace := { frames := [⟨"f", "f.c:1"⟩], entry := "f" }
    seed := "" }

/-- The error of a function with a suffix is offered as one of the function without it only. -/
theorem registerFile_offered_suffix :
    let r := (Registry.empty .strict ⟨[]⟩).serveAll []
    r.lookup "test000001.ptr.err" = none ∧
    (r.registerFile suffixedFiles "test000001.ptr.err" "f.1234").1 = .ok suffixedFault ∧
    let r' := (r.registerFile suffixedFiles "test000001.ptr.err" "f.1234").2.serveAll []
    "test000001.ptr.err" ∈ r'.toPrepend "g" "f" false ∧
      "test000001.ptr.err" ∉ r'.toPrepend "g" "f.1234" false := by
  have hread : ((((Registry.empty .strict ⟨[]⟩).serveAll []).registerFile suffixedFiles
      "test000001.ptr.err" "f.1234").1.toOption.map id) = some suffixedFault := by decide +kernel
  obtain ⟨e, hok, rfl⟩ := Except.exists_of_toOption_map hread
  have hoffered := registerFile_offered_iff .strict ⟨[]⟩ [] [] suffixedFiles "test000001.ptr.err"
    "f.1234" _ rfl hok
  refine ⟨rfl, hok, (hoffered.1 "g" "f").mpr (by decide +kernel), ?_⟩
  rw [hoffered.2 "g"]
  decide +kernel

end Registry
end FaultChain
