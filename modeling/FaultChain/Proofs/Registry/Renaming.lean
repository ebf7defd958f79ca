import FaultChain.Backend.OutputDir
import FaultChain.Proofs.Lists
import FaultChain.Proofs.Paths
import FaultChain.Proofs.Report
import FaultChain.Proofs.Registry.Requests

/-!
# Errors in other directories

What a registry makes of reports does not depend on the directories they are in: where the reports
are moved to other directories, all that it keeps moves along with them.

* `Fault.moved`, `Registry.moved`: an error and a registry with other directories.
* `Registry.register_moved`: registering a moved error.
* `Report.read_moved`: reading a moved report.
* `Registry.serveAll_moved`: taking in moved reports.
-/

namespace FaultChain

variable {dirs : String → String}

/-! ## Moved errors -/

/-- The error with its files in other directories. -/
def Fault.moved (dirs : String → String) (e : Fault) : Fault :=
  { e with
    report := Path.relocate dirs e.report
    ktest := Path.relocate dirs e.ktest
    seed := Path.relocate dirs e.seed }

section

variable (dirs : String → String) (e : Fault)

@[simp] theorem Fault.report_moved : (e.moved dirs).report = Path.relocate dirs e.report := rfl

@[simp] theorem Fault.seed_moved : (e.moved dirs).seed = Path.relocate dirs e.seed := rfl

@[simp] theorem Fault.entry_moved : (e.moved dirs).entry = e.entry := rfl

@[simp] theorem Fault.location_moved : (e.moved dirs).location = e.location := rfl

@[simp] theorem Fault.trace_moved : (e.moved dirs).trace = e.trace := rfl

@[simp] theorem Fault.isBlacklisted_moved : (e.moved dirs).isBlacklisted = e.isBlacklisted := rfl

end

/-- The ending of a path is that of its name. -/
theorem Path.endsWith_slash (dir : String) {name ending : String} (hending : '/' ∉ ending.toList) :
    Text.endsWith (dir ++ "/" ++ name) ending = Text.endsWith name ending := by
  rw [Bool.eq_iff_iff, Text.endsWith, Text.endsWith, List.isSuffixOf_iff_suffix,
    List.isSuffixOf_iff_suffix]
  have hchars : (dir ++ "/" ++ name).toList = (dir.toList ++ ['/']) ++ name.toList := by simp
  rw [hchars]
  constructor
  · intro h
    rcases List.suffix_or_suffix_of_suffix h (List.suffix_append _ _) with h' | ⟨front, hfront⟩
    · exact h'
    · -- A longer ending would have the slash in it.
      rw [← hfront] at h ⊢
      rcases List.eq_nil_or_concat front with rfl | ⟨front', x, rfl⟩
      · exact List.suffix_rfl
      · rcases h with ⟨rest, hrest⟩
        rw [← List.append_assoc] at hrest
        have hlast := congrArg List.getLast? (List.append_cancel_right hrest)
        have hx : x = '/' := by simpa using hlast
        exact absurd (by simp [← hfront, hx]) hending
  · exact fun h => h.trans (List.suffix_append _ _)

theorem Path.endsWith_relocate (dirs : String → String) (p : String) {ending : String}
    (hending : '/' ∉ ending.toList) :
    Text.endsWith (Path.relocate dirs p) ending = Text.endsWith p ending := by
  rcases Path.name_or_slash p with hp | ⟨dir, name, hname, rfl⟩
  · rw [Path.relocate_of_no_slash dirs hp]
  · rw [Path.relocate_slash dirs dir hname, Path.endsWith_slash _ hending,
      Path.endsWith_slash _ hending]

@[simp] theorem Fault.isPropagated_moved (e : Fault) :
    (e.moved dirs).isPropagated = e.isPropagated :=
  Path.endsWith_relocate dirs e.report (by decide)

/-! ## Moved chains -/

namespace Chain

/-- The chain with moved errors. -/
def moved (dirs : String → String) (c : Chain) : Chain :=
  { c with
    found := c.found.map (·.moved dirs)
    heads := c.heads.map (·.moved dirs) }

@[simp] theorem matches?_moved (c : Chain) (e : Fault) :
    (c.moved dirs).matches? (e.moved dirs) = c.matches? e :=
  rfl

theorem add_moved (c : Chain) (e : Fault) :
    (c.moved dirs).add (e.moved dirs) = (c.add e).moved dirs := by
  have hdepth : (c.moved dirs).depth = c.depth := rfl
  have hdepth' : (e.moved dirs).depth = e.depth := rfl
  unfold add
  rw [hdepth, hdepth']
  split
  · simp [moved]
  · split
    · simp [moved]
    · simp [moved]

end Chain

/-! ## Moved indexes -/

namespace Index

variable {κ : Type} [DecidableEq κ]

/-- The index with moved errors and other keys. -/
def moved (dirs : String → String) (keys : κ → κ) (ix : Index κ) : Index κ :=
  ⟨ix.buckets.map fun b => (keys b.1, b.2.map (·.moved dirs))⟩

theorem addTo_moved (dirs : String → String) {keys : κ → κ} (hkeys : Function.Injective keys)
    (k : κ) (e : Fault) (buckets : List (κ × List Fault)) :
    addTo (keys k) (e.moved dirs) (buckets.map fun b => (keys b.1, b.2.map (·.moved dirs))) =
      (addTo k e buckets).map fun b => (keys b.1, b.2.map (·.moved dirs)) := by
  induction buckets with
  | nil => rfl
  | cons b buckets ih =>
    rcases b with ⟨k', es⟩
    by_cases hk : k' = k
    · simp [addTo, hk]
    · have hk' : keys k' ≠ keys k := fun heq => hk (hkeys heq)
      simp [addTo, hk, hk', ih]

theorem add_moved (dirs : String → String) {keys : κ → κ} (hkeys : Function.Injective keys)
    (ix : Index κ) (k : κ) (e : Fault) :
    (ix.moved dirs keys).add (keys k) (e.moved dirs) = (ix.add k e).moved dirs keys :=
  congrArg Index.mk (addTo_moved dirs hkeys k e ix.buckets)

end Index

theorem lookup_map_injective {κ β γ : Type} [DecidableEq κ] {keys : κ → κ}
    (hkeys : Function.Injective keys) (f : β → γ) (k : κ) (table : List (κ × β)) :
    (table.map fun row => (keys row.1, f row.2)).lookup (keys k) = (table.lookup k).map f := by
  induction table with
  | nil => rfl
  | cons row table ih =>
    rcases row with ⟨k', b⟩
    by_cases hk : k = k'
    · simp [hk]
    · have hk' : keys k ≠ keys k' := fun heq => hk (hkeys heq)
      rw [List.map_cons, lookup_cons_of_ne hk', lookup_cons_of_ne hk, ih]

theorem Index.get_moved {κ : Type} [DecidableEq κ] {keys : κ → κ}
    (hkeys : Function.Injective keys) (ix : Index κ) (k : κ) :
    (ix.moved dirs keys).get (keys k) = (ix.get k).map (·.moved dirs) := by
  unfold Index.get Index.moved
  rw [lookup_map_injective hkeys]
  cases ix.buckets.lookup k with
  | none => rfl
  | some es => rfl

/-! ## Moved registries -/

namespace Registry

/-- The registry with moved errors. -/
def moved (dirs : String → String) (r : Registry) : Registry :=
  { r with
    byReport := r.byReport.map fun row => (Path.relocate dirs row.1, row.2.moved dirs)
    byEntry := r.byEntry.moved dirs id
    byLocation := r.byLocation.moved dirs id
    byHead := r.byHead.moved dirs id
    bySeed := r.bySeed.moved dirs (Path.relocate dirs)
    order := r.order.map (·.moved dirs)
    chains := r.chains.map (·.moved dirs) }

theorem empty_moved (mode : Containment) (functions : FunctionSet) :
    (empty mode functions).moved dirs = empty mode functions :=
  rfl

theorem lookup_moved (hdirs : Function.Injective dirs) (r : Registry) (report : String) :
    (r.moved dirs).lookup (Path.relocate dirs report) =
      (r.lookup report).map (·.moved dirs) :=
  lookup_map_injective (Path.relocate_injective hdirs) _ _ _

theorem addToFirst_moved (e : Fault) (cs : List Chain) :
    addToFirst (e.moved dirs) (cs.map (·.moved dirs)) =
      (addToFirst e cs).map (·.map (·.moved dirs)) := by
  induction cs with
  | nil => rfl
  | cons c cs ih =>
    simp only [List.map_cons, addToFirst, Chain.matches?_moved, Chain.add_moved, ih]
    split
    · rfl
    · cases addToFirst e cs with
      | none => rfl
      | some cs' => rfl

theorem pull_moved (hdirs : Function.Injective dirs) (candidates : List Fault)
    (acc : Chain × List String) :
    pull (acc.1.moved dirs, acc.2.map (Path.relocate dirs)) (candidates.map (·.moved dirs)) =
      ((pull acc candidates).1.moved dirs, (pull acc candidates).2.map (Path.relocate dirs)) := by
  induction candidates generalizing acc with
  | nil => rfl
  | cons e candidates ih =>
    -- Distinct directories keep reports apart, so a candidate is seen in both registries or in
    -- none.
    have hseen : (acc.2.map (Path.relocate dirs)).contains (e.moved dirs).report =
        acc.2.contains e.report := by
      rw [Bool.eq_iff_iff, List.contains_iff_mem, List.contains_iff_mem]
      exact List.mem_map_of_injective (Path.relocate_injective hdirs)
    unfold pull at ih ⊢
    rw [List.map_cons, List.foldl_cons, List.foldl_cons, ← ih]
    congr 1
    simp only [hseen, Chain.matches?_moved, Chain.add_moved]
    split
    · rfl
    · split
      · rfl
      · rfl

theorem startChain_moved (hdirs : Function.Injective dirs) (r : Registry) (e : Fault) :
    (r.moved dirs).startChain (e.moved dirs) = (r.startChain e).moved dirs := by
  -- Bucket by bucket, from any chain and any reports already seen.
  have hfold : ∀ (frames : List Frame) (acc : Chain × List String),
      frames.foldl (fun acc frame => pull acc ((r.moved dirs).byHead.get frame))
          (acc.1.moved dirs, acc.2.map (Path.relocate dirs)) =
        ((frames.foldl (fun acc frame => pull acc (r.byHead.get frame)) acc).1.moved dirs,
          (frames.foldl (fun acc frame => pull acc (r.byHead.get frame)) acc).2.map
            (Path.relocate dirs)) := by
    intro frames
    induction frames with
    | nil => exact fun _ => rfl
    | cons frame frames ih =>
      intro acc
      have hget : (r.moved dirs).byHead.get frame = (r.byHead.get frame).map (·.moved dirs) :=
        Index.get_moved Function.injective_id r.byHead frame
      rw [List.foldl_cons, List.foldl_cons, hget, pull_moved hdirs, ih]
  have hlength : (r.moved dirs).chains.length = r.chains.length := List.length_map _
  have hstart := hfold e.trace.frames (Chain.start r.chains.length e r.mode, [e.report])
  unfold startChain
  rw [hlength]
  exact congrArg Prod.fst hstart

theorem mergedChains_moved (hdirs : Function.Injective dirs) (r : Registry) (e : Fault) :
    (r.moved dirs).mergedChains (e.moved dirs) = (r.mergedChains e).map (·.moved dirs) := by
  have hfirst : addToFirst (e.moved dirs) (r.moved dirs).chains =
      (addToFirst e r.chains).map (·.map (·.moved dirs)) := addToFirst_moved e r.chains
  unfold mergedChains
  rw [hfirst, startChain_moved hdirs]
  cases addToFirst e r.chains with
  | none => simp [moved]
  | some cs => rfl

theorem index_moved (hdirs : Function.Injective dirs) (r : Registry) (e : Fault) :
    (r.moved dirs).index (e.moved dirs) = (r.index e).moved dirs := by
  have hkeys : Function.Injective (id : String → String) := Function.injective_id
  have hentry := Index.add_moved dirs hkeys r.byEntry e.entry e
  have hlocation := Index.add_moved dirs hkeys r.byLocation e.location e
  have hseed := Index.add_moved dirs (Path.relocate_injective hdirs) r.bySeed e.seed e
  have hhead : ∀ frame, (r.byHead.moved dirs id).add frame (e.moved dirs) =
      (r.byHead.add frame e).moved dirs id := fun frame =>
    Index.add_moved dirs Function.injective_id r.byHead frame e
  -- Each index takes in the moved error under the key it had, but for that of its seed.
  unfold index
  rw [Fault.isPropagated_moved, Fault.trace_moved]
  cases e.trace.head? with
  | none => cases e.isPropagated <;> simp [moved, ← hentry, ← hlocation, ← hseed]
  | some frame => cases e.isPropagated <;> simp [moved, ← hentry, ← hlocation, ← hseed, ← hhead]

theorem insert_moved (hdirs : Function.Injective dirs) (r : Registry) (e : Fault) :
    (r.moved dirs).insert (e.moved dirs) = (r.insert e).moved dirs := by
  have hchains := mergedChains_moved hdirs (r.index e) e
  unfold insert
  simp only [index_moved hdirs, hchains]
  rfl

/-! ## Moved requests -/

/-- The same answer about a moved error: the error moved, or a failure of the same kind. -/
inductive Follows (dirs : String → String) :
    Except Failure Fault → Except Failure Fault → Prop where
  | ok (e : Fault) : Follows dirs (.ok e) (.ok (e.moved dirs))
  | error {f f' : Failure} (h : DropReason.ofFailure f' = DropReason.ofFailure f) :
      Follows dirs (.error f) (.error f')

theorem Follows.of_no_seed {e : Fault} (h : e.seed = "") :
    Follows dirs (.ok e) (.ok { e with
      report := Path.relocate dirs e.report
      ktest := Path.relocate dirs e.ktest }) := by
  have hkept : Path.relocate dirs "" = "" := Path.relocate_of_no_slash dirs (by decide)
  have hsame : e.moved dirs = { e with
      report := Path.relocate dirs e.report
      ktest := Path.relocate dirs e.ktest } := by
    unfold Fault.moved
    rw [h, hkept]
  rw [← hsame]
  exact .ok e

theorem inherited_moved (hdirs : Function.Injective dirs) (r : Registry) (e : Fault) :
    Follows dirs (r.inherited e) ((r.moved dirs).inherited (e.moved dirs)) := by
  unfold inherited
  rw [Fault.isPropagated_moved, Fault.seed_moved, lookup_moved hdirs]
  cases e.isPropagated with
  | false => exact .ok e
  | true =>
    cases r.lookup e.seed with
    | none => exact .error rfl
    | some seed => exact .ok (inherit seed e)

theorem vetted_moved (hdirs : Function.Injective dirs) (r : Registry) (e : Fault) :
    Follows dirs (r.vetted e) ((r.moved dirs).vetted (e.moved dirs)) := by
  have hinherited := inherited_moved hdirs r e
  unfold vetted assess
  rw [Fault.isBlacklisted_moved]
  cases e.isBlacklisted with
  | true => exact .error rfl
  | false =>
    simp only [Bool.false_eq_true, if_false]
    -- Both registries read their seeds with one outcome, which decides the rest alike.
    generalize r.inherited e = answer at hinherited
    generalize (r.moved dirs).inherited (e.moved dirs) = answer' at hinherited
    cases hinherited with
    | error h => exact .error h
    | ok taken =>
      by_cases hframes : taken.trace.frames.isEmpty = true
      · simp only [Fault.trace_moved, hframes, if_true]
        exact .error rfl
      · simp only [Fault.trace_moved, hframes]
        exact .ok taken

theorem drop_moved (r : Registry) {f f' : Failure}
    (h : DropReason.ofFailure f' = DropReason.ofFailure f) :
    (r.moved dirs).drop f' = (r.drop f).moved dirs := by
  unfold drop
  rw [h]
  rfl

/-- Registering a moved error leaves the registry as it was left before, with moved errors. -/
theorem register_moved (hdirs : Function.Injective dirs) (r : Registry) (e : Fault) :
    ((r.moved dirs).register (e.moved dirs)).2 = (r.register e).2.moved dirs := by
  have hvetted := vetted_moved hdirs r e
  unfold register
  rw [Fault.report_moved, lookup_moved hdirs]
  cases r.lookup e.report with
  | some known => rfl
  | none =>
    simp only [Option.map_none]
    generalize r.vetted e = answer at hvetted
    generalize (r.moved dirs).vetted (e.moved dirs) = answer' at hvetted
    cases hvetted with
    | error h => exact drop_moved r h
    | ok accepted => exact insert_moved hdirs r accepted

/-- Two requests for reports that say the same, in directories that correspond. -/
def SameReport (dirs : String → String) (fns : FunctionSet) (q q' : Request) : Prop :=
  ∃ files files' path path' entry, q = .registerFile files path entry ∧
    q' = .registerFile files' path' entry ∧
      Follows dirs (Report.read files path entry fns) (Report.read files' path' entry fns)

theorem serve_moved (hdirs : Function.Injective dirs) (r : Registry) {q q' : Request}
    (h : SameReport dirs r.functions q q') :
    (r.moved dirs).serve q' = (r.serve q).moved dirs := by
  rcases h with ⟨files, files', path, path', entry, rfl, rfl, hread⟩
  change ((r.moved dirs).registerFile files' path' entry).2 =
    (r.registerFile files path entry).2.moved dirs
  have hfns : (r.moved dirs).functions = r.functions := rfl
  unfold registerFile
  rw [hfns]
  generalize Report.read files path entry r.functions = answer at hread
  generalize Report.read files' path' entry r.functions = answer' at hread
  cases hread with
  | error h => exact drop_moved r h
  | ok e => exact register_moved hdirs r e

theorem functions_serve (r : Registry) (q : Request) : (r.serve q).functions = r.functions := by
  rcases serve_cases r q with ⟨drops, h⟩ | ⟨given, e, -, h⟩
  · rw [h]
  · rw [h]
    rfl

/-- Taking in reports that say the same, in directories that correspond. -/
theorem serveAll_moved (hdirs : Function.Injective dirs) {fns : FunctionSet}
    {qs qs' : List Request} (h : List.Forall₂ (SameReport dirs fns) qs qs') (r : Registry)
    (hr : r.functions = fns) : (r.moved dirs).serveAll qs' = (r.serveAll qs).moved dirs := by
  induction h generalizing r with
  | nil => rfl
  | @cons q q' qs qs' hq hqs ih =>
    subst hr
    calc (r.moved dirs).serveAll (q' :: qs')
        = ((r.serve q).moved dirs).serveAll qs' := by
          rw [← serve_moved hdirs r hq]
          rfl
      _ = (r.serveAll (q :: qs)).moved dirs := ih (r.serve q) (functions_serve r q)

end Registry

/-! ## Moved reports -/

namespace Report

open Registry (Follows)

/-- A failure to make sense of a report. -/
def IsMalformed {α : Type} (answer : Except Failure α) : Prop :=
  ∃ why, answer = .error (.malformedArtifact why)

/-- The frames do not depend on where the report is, unless one of its lines makes no sense. -/
theorem frames_path (path path' : String) (lines : List Line) (acc : List Frame) :
    (∃ out, frames path acc lines = .ok out ∧ frames path' acc lines = .ok out) ∨
      (IsMalformed (frames path acc lines) ∧ IsMalformed (frames path' acc lines)) := by
  -- The path is only named where a line makes no sense.
  induction lines generalizing acc with
  | nil => exact Or.inl ⟨_, rfl, rfl⟩
  | cons l rest ih =>
    by_cases hinfo : l.starts "Info:" = true
    · exact Or.inl ⟨(acc.reverse, true), by simp [frames, hinfo], by simp [frames, hinfo]⟩
    · by_cases hempty : l.text.isEmpty = true
      · simpa only [frames, hinfo, hempty, Bool.false_eq_true, if_false, if_true] using ih acc
      · simp only [frames, hinfo, hempty, Bool.false_eq_true, if_false]
        cases hframe : frameOf l with
        | error why => exact Or.inr ⟨⟨_, rfl⟩, ⟨_, rfl⟩⟩
        | ok frame =>
          cases frame with
          | none => exact ih acc
          | some f => exact ih (f :: acc)

/-- What a report says, apart from where it is. -/
theorem parse_moved (dirs : String → String) {path : String} (ktest entry : String)
    (fns : FunctionSet) (text : Text.Lines)
    (hpath : Text.endsWith path Fault.propagatedEnding = false) :
    Follows dirs (parse path ktest entry fns text)
      (parse (Path.relocate dirs path) (Path.relocate dirs ktest) entry fns text) := by
  have hpath' : Text.endsWith (Path.relocate dirs path) Fault.propagatedEnding = false := by
    rw [Path.endsWith_relocate dirs path (by decide)]
    exact hpath
  -- A report that is not propagated has no seed, wherever it is.
  have hseed : ∀ reason, seedOf path reason = .ok "" := fun reason => by simp [seedOf, hpath]
  have hseed' : ∀ reason, seedOf (Path.relocate dirs path) reason = .ok "" := fun reason => by
    simp [seedOf, hpath']
  unfold parse
  split
  · exact .error rfl
  · rename_i first rest _
    split
    · exact .error rfl
    · cases location (numbered rest) with
      | error why => exact .error rfl
      | ok out =>
        rcases out with ⟨loc, body⟩
        rcases frames_path path (Path.relocate dirs path) (stackLines body) [] with
          ⟨⟨stack, closed⟩, hframes, hframes'⟩ | ⟨⟨why, hframes⟩, ⟨why', hframes'⟩⟩
        · simp only [Except.mapError, bind, Except.bind, hframes, hframes', hseed, hseed']
          by_cases hlong : (text.tooLong && !closed) = true
          · simp only [hlong, if_true]
            exact .error rfl
          · simp only [hlong]
            exact Follows.of_no_seed rfl
        · simp only [Except.mapError, bind, Except.bind, hframes, hframes']
          exact .error rfl

/-- The name of a report says what kind of error it is about. -/
theorem exists_kind {name : String} (h : OutputDir.isErrorFile name = true) :
    ∃ stem kind, name = stem ++ "." ++ kind ++ ".err" ∧ '.' ∉ kind.toList ∧ '/' ∉ kind.toList := by
  rcases List.any_eq_true.mp h with ⟨ending, hmem, hends⟩
  have hkind : ∃ kind, ending = "." ++ kind ++ ".err" ∧ '.' ∉ kind.toList ∧ '/' ∉ kind.toList := by
    simp only [OutputDir.reportEndings, List.mem_cons, List.not_mem_nil, or_false] at hmem
    rcases hmem with rfl | rfl | rfl | rfl | rfl | rfl
    · exact ⟨"ptr", by decide⟩
    · exact ⟨"free", by decide⟩
    · exact ⟨"assert", by decide⟩
    · exact ⟨"div", by decide⟩
    · exact ⟨"macke", by decide⟩
    · exact ⟨"fuzz", by decide⟩
  -- The rest of the name is left to be the stem, whatever it has in it.
  rcases hkind with ⟨kind, rfl, hchars⟩
  rcases List.isSuffixOf_iff_suffix.mp hends with ⟨stem, hstem⟩
  refine ⟨String.ofList stem, kind, ?_, hchars⟩
  apply String.toList_injective
  simp [← hstem]

/-- The test case of a report is beside it. -/
theorem ktestOf_slash (dir : String) {stem kind : String}
    (hkind : '.' ∉ kind.toList ∧ '/' ∉ kind.toList) :
    ktestOf (dir ++ "/" ++ (stem ++ "." ++ kind ++ ".err")) =
      .ok (dir ++ "/" ++ (stem ++ ".ktest")) := by
  have hktest := ktestOf_eq (dir ++ "/" ++ stem) hkind
  simpa [String.append_assoc] using hktest

/-- The same report in another directory. -/
theorem read_moved {files files' : FileTree} {dir name text : String} (entry : String)
    (fns : FunctionSet) (hname : '/' ∉ name.toList) (hreport : OutputDir.isErrorFile name = true)
    (hisolated : Text.endsWith name Fault.propagatedEnding = false)
    (hopen : files.openFile (dir ++ "/" ++ name) = .ok (some text))
    (hopen' : files'.openFile (dirs dir ++ "/" ++ name) = .ok (some text)) :
    Follows dirs (read files (dir ++ "/" ++ name) entry fns)
      (read files' (dirs dir ++ "/" ++ name) entry fns) := by
  rcases exists_kind hreport with ⟨stem, kind, rfl, hkind⟩
  -- The test case of a report is beside it, so it moves along.
  have hstem : '/' ∉ (stem ++ ".ktest").toList := by
    intro hmem
    rw [String.toList_append] at hmem
    rcases List.mem_append.mp hmem with hmem | hmem
    · exact hname (by simp [hmem])
    · exact absurd hmem (by decide)
  have hending : Text.endsWith (dir ++ "/" ++ (stem ++ "." ++ kind ++ ".err"))
      Fault.propagatedEnding = false := by
    rw [Path.endsWith_slash dir (by decide)]
    exact hisolated
  have hparse := parse_moved dirs (dir ++ "/" ++ (stem ++ ".ktest")) entry fns
    (Text.readLines Text.longLine text) hending
  rw [Path.relocate_slash dirs dir hname, Path.relocate_slash dirs dir hstem] at hparse
  unfold read
  rw [ktestOf_slash dir hkind, ktestOf_slash (dirs dir) hkind, hopen, hopen']
  exact hparse

end Report
end FaultChain
