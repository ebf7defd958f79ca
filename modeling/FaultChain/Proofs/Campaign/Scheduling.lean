import Mathlib.Logic.Equiv.Basic
import FaultChain.Campaign.Preparation
import FaultChain.Proofs.Campaign.Analyses
import FaultChain.Proofs.Campaign.Registration
import FaultChain.Symbolic.Executor

/-!
# The first phase under different schedules

Whatever number of runs may be active at once, and in whatever order the analyses of the first phase
make their steps, the registry is the same in the end, but for the names of output directories.

* `Campaign.Yields`: what the first phase leaves.
* `Campaign.Yields.exists_renaming`: how the directories of two first phases correspond.
* `Campaign.isolate_scheduling`: the main statement.
-/

namespace FaultChain
namespace Campaign

variable {c : Campaign} {site : Site} {cutoff : Host.Cutoff} {inv : Host → Prop}
  {finds : String → String → Findings}

/-! ## Renamings -/

/-- Names that are all different can be given to other such names. -/
theorem exists_perm_map {xs ys : List String} (hxs : xs.Nodup) (hys : ys.Nodup)
    (hlength : xs.length = ys.length) : ∃ dirs : Equiv.Perm String, xs.map dirs = ys := by
  induction xs generalizing ys with
  | nil => exact ⟨Equiv.refl _, (List.length_eq_zero_iff.mp hlength.symm).symm⟩
  | cons x xs ih =>
    cases ys with
    | nil => cases hlength
    | cons y ys =>
      rcases List.nodup_cons.mp hxs with ⟨hx, hxs⟩
      rcases List.nodup_cons.mp hys with ⟨hy, hys⟩
      rcases ih hxs hys (Nat.succ.inj hlength) with ⟨dirs, hdirs⟩
      -- The first name is swapped with what would have got its new name.
      refine ⟨dirs.trans (Equiv.swap (dirs x) y), ?_⟩
      have hrest : ∀ z ∈ xs, Equiv.swap (dirs x) y (dirs z) = dirs z := by
        intro z hz
        refine Equiv.swap_apply_of_ne_of_ne ?_ ?_
        · intro heq
          exact hx (dirs.injective heq ▸ hz)
        · intro heq
          exact hy (heq ▸ hdirs ▸ List.mem_map_of_mem hz)
      rw [List.map_cons, Equiv.trans_apply, Equiv.swap_apply_left, ← hdirs]
      exact congrArg (y :: ·) (List.map_congr_left hrest)

/-! ## What the first phase leaves -/

/-- The directories that were reserved. -/
def folders (w : World) : List String := w.index.runs.map (·.2.folder)

/-- What the first phase leaves: each result has the reports of its run in the directory reserved for
it, or none if no run was started, and each directory belongs to one result. -/
structure Yields (site : Site) (finds : String → String → Findings) (w : World)
    (rs : List Result) : Prop where
  numbered : w.index.Numbered site.dir
  owned : ∀ r ∈ rs, r.outDir ≠ "" → ∃ k, Owns finds r.function w k r
  none : ∀ r ∈ rs, r.outDir = "" → r.errorFiles = []
  dirs : ((rs.map (·.outDir)).filter (· ≠ "")).Perm (folders w)

theorem Owns.outDir_eq {fn : String} {w : World} {k : Nat} {r : Result} (h : Owns finds fn w k r)
    (hw : w.index.Numbered site.dir) :
    r.outDir = RunIndex.nthFolder site.dir r.kind (k + 1) ∧ (folders w)[k]? = some r.outDir := by
  rcases h.reserved with ⟨run, hrun, -, hkind, hfolder⟩
  refine ⟨?_, ?_⟩
  · rw [← hfolder, ← hkind]
    exact hw k run.1 run.2 hrun
  · rw [folders, List.getElem?_map, hrun, ← hfolder]
    rfl

theorem Owns.outDir_ne_empty {fn : String} {w : World} {k : Nat} {r : Result}
    (h : Owns finds fn w k r) (hw : w.index.Numbered site.dir) : r.outDir ≠ "" := by
  rw [(h.outDir_eq hw).1]
  exact Path.join_ne_empty _ (RunIndex.isName_place _ _ _)

/-- The results of an analysis. -/
theorem Analyzed.results {fn : String} {ks : List Nat} {rs : List Result} {w : World}
    (h : Analyzed c site finds fn ks (.returned rs) w) :
    List.Forall₂ (Owns finds fn w) ks rs ∨ (ks = [] ∧ rs = sessionResults fn []) := by
  cases hsession : c.inSession site fn with
  | true =>
    rw [analyzed_of_session hsession] at h
    rcases h with ⟨rs', heq, hall⟩
    cases heq
    exact hall
  | false =>
    rw [analyzed_of_alone hsession] at h
    rcases h with ⟨k, r, rfl, heq, -, howns⟩
    cases heq
    exact Or.inl (.cons howns .nil)

/-- The directories of the results of an analysis are those it has tickets for. -/
theorem Analyzed.dirs {fn : String} {ks : List Nat} {rs : List Result} {w : World}
    (h : Analyzed c site finds fn ks (.returned rs) w) (hw : w.index.Numbered site.dir) :
    ((rs.map (·.outDir)).filter (· ≠ "")).map some = ks.map fun k => (folders w)[k]? := by
  rcases h.results with hall | ⟨rfl, rfl⟩
  · clear h
    induction hall with
    | nil => rfl
    | cons howns _ ih =>
      simp only [List.map_cons, (howns.outDir_eq hw).2]
      rw [List.filter_cons_of_pos (by simpa using howns.outDir_ne_empty hw), List.map_cons, ih]
  · rfl

/-- A result is that of a run, or says that no run was started. -/
theorem owned_or_none_of_analyzed {w : World} {functions : List String}
    {outs : List (List Result × List Nat)}
    (hall : List.Forall₂ (fun fn o => Analyzed c site finds fn o.2 (.returned o.1) w) functions
      outs) {r : Result} (hr : r ∈ (outs.map (·.1)).flatten) :
    (∃ k, Owns finds r.function w k r) ∨ (r.outDir = "" ∧ r.errorFiles = []) := by
  rcases List.mem_flatten.mp hr with ⟨rs, hrs, hmem⟩
  rcases List.mem_map.mp hrs with ⟨o, ho, rfl⟩
  rcases exists_of_mem_forall₂ hall ho with ⟨fn, -, hanalyzed⟩
  rcases hanalyzed.results with howns | ⟨-, hnone⟩
  · rcases exists_of_mem_forall₂ howns hmem with ⟨k, -, hown⟩
    exact Or.inl ⟨k, hown.function.symm ▸ hown⟩
  · rw [hnone] at hmem
    rw [List.mem_singleton.mp hmem]
    exact Or.inr ⟨rfl, rfl⟩

/-- The directories of all results are those for which tickets were drawn. -/
theorem dirs_of_analyzed {w : World} (hw : w.index.Numbered site.dir) {functions : List String}
    {outs : List (List Result × List Nat)}
    (hall : List.Forall₂ (fun fn o => Analyzed c site finds fn o.2 (.returned o.1) w) functions
      outs) :
    (((outs.map (·.1)).flatten.map (·.outDir)).filter (· ≠ "")).map some =
      (outs.flatMap (·.2)).map fun k => (folders w)[k]? := by
  induction hall with
  | nil => rfl
  | cons hanalyzed _ ih =>
    rw [List.map_cons, List.flatten_cons, List.map_append, List.filter_append, List.map_append,
      hanalyzed.dirs hw, ih, List.flatMap_cons, List.map_append]

theorem map_range_folders (w : World) :
    ((List.range w.index.size).map fun k => (folders w)[k]?) = (folders w).map some := by
  have hlength : (folders w).length = w.index.size := List.length_map _
  rw [← hlength]
  refine List.ext_getElem (by simp) ?_
  intro k hk hk'
  rw [List.length_map] at hk'
  simp [List.getElem?_eq_getElem hk']

/-- The first phase leaves what its analyses come to. -/
theorem yields_of_analyzed {w : World} (hw : w.index.Numbered site.dir) {functions : List String}
    {outs : List (List Result × List Nat)}
    (hall : List.Forall₂ (fun fn o => Analyzed c site finds fn o.2 (.returned o.1) w) functions
      outs)
    (htickets : (outs.flatMap (·.2)).Perm (List.range w.index.size)) :
    Yields site finds w (outs.map (·.1)).flatten := by
  refine ⟨hw, ?_, ?_, ?_⟩
  · intro r hr hne
    rcases owned_or_none_of_analyzed hall hr with hown | ⟨hempty, -⟩
    · exact hown
    · exact absurd hempty hne
  · intro r hr hempty
    rcases owned_or_none_of_analyzed hall hr with ⟨k, hown⟩ | ⟨-, hnone⟩
    · exact absurd hempty (hown.outDir_ne_empty hw)
    · exact hnone
  · -- All tickets are those of the reserved directories, in some order.
    refine (List.map_perm_map_iff (Option.some_injective _)).mp ?_
    rw [dirs_of_analyzed hw hall, ← map_range_folders]
    exact htickets.map _

/-- What a result is about: its function, its backend, and whether no run was started. -/
def runKey (r : Result) : String × String × Bool := (r.function, r.kind, r.outDir == "")

theorem Analyzed.runKeys {fn : String} {ks : List Nat} {rs : List Result} {w : World}
    (h : Analyzed c site finds fn ks (.returned rs) w) (hw : w.index.Numbered site.dir)
    (hsession : c.inSession site fn = false) :
    rs.map runKey = [(fn, c.backendOf site fn, false)] := by
  rw [analyzed_of_alone hsession] at h
  rcases h with ⟨k, r, -, heq, hkind, howns⟩
  cases heq
  have hne : (r.outDir == "") = false := by simpa using howns.outDir_ne_empty hw
  simp [runKey, hkind, howns.function, hne]

theorem runKeys_of_analyzed {w : World} (hw : w.index.Numbered site.dir) {functions : List String}
    {outs : List (List Result × List Nat)}
    (hall : List.Forall₂ (fun fn o => Analyzed c site finds fn o.2 (.returned o.1) w) functions
      outs) (halone : c.options.useFlipper = false) :
    (outs.map (·.1)).flatten.map runKey =
      functions.map fun fn => (fn, c.backendOf site fn, false) := by
  induction hall with
  | nil => rfl
  | cons hanalyzed _ ih =>
    have hsession : ∀ fn, c.inSession site fn = false := fun fn => by simp [inSession, halone]
    rw [List.map_cons, List.flatten_cons, List.map_append, hanalyzed.runKeys hw (hsession _), ih]
    rfl

/-! ## Two first phases -/

section

variable {w w' : World} {rs rs' : List Result}

theorem Yields.close (h : Yields site finds w rs) (span : Span) :
    Yields site finds (w.close span) rs := by
  have hrely : (sharing site (fun _ => True) finds).rely w (w.close span) :=
    ⟨List.prefix_rfl, fun _ _ hkept => hkept⟩
  exact ⟨h.numbered, fun r hr hne => (h.owned r hr hne).imp fun _ hown => hown.rely hrely, h.none,
    h.dirs⟩

theorem Yields.nodup (h : Yields site finds w rs) : (folders w).Nodup := h.numbered.nodup

/-- Results about the same, in directories that correspond. -/
structure Matches (dirs : String → String) (r r' : Result) : Prop where
  function : r'.function = r.function
  kind : r'.kind = r.kind
  outDir : r'.outDir = dirs r.outDir

/-- Directories that correspond where there are any correspond in place. -/
theorem matches_of_dirs {dirs : String → String} (hempty : dirs "" = "")
    (hkeys : List.Forall₂ (fun r r' => runKey r = runKey r') rs rs')
    (hdirs : ((rs.map (·.outDir)).filter (· ≠ "")).map dirs =
      (rs'.map (·.outDir)).filter (· ≠ "")) :
    List.Forall₂ (Matches dirs) rs rs' := by
  induction hkeys with
  | nil => exact .nil
  | @cons r r' rs rs' hkey _ ih =>
    simp only [runKey, Prod.mk.injEq] at hkey
    rcases hkey with ⟨hfunction, hkind, hnone⟩
    -- A result without a directory takes none of those that correspond.
    by_cases hr : r.outDir = ""
    · have hr' : r'.outDir = "" := by simpa [hr] using hnone.symm
      refine .cons ⟨hfunction.symm, hkind.symm, by rw [hr, hr', hempty]⟩ (ih ?_)
      simpa [hr, hr'] using hdirs
    · have hr' : r'.outDir ≠ "" := by
        intro heq
        rw [heq] at hnone
        exact hr (by simpa using hnone)
      rw [List.map_cons, List.map_cons, List.filter_cons_of_pos (by simpa using hr),
        List.filter_cons_of_pos (by simpa using hr'), List.map_cons] at hdirs
      rcases List.cons.inj hdirs with ⟨hhead, htail⟩
      exact .cons ⟨hfunction.symm, hkind.symm, hhead.symm⟩ (ih htail)

/-- How the directories of two first phases about the same correspond. -/
theorem Yields.exists_renaming (h : Yields site finds w rs) (h' : Yields site finds w' rs')
    (hkeys : rs.map runKey = rs'.map runKey) :
    ∃ dirs : Equiv.Perm String, dirs "" = "" ∧ ((folders w).map dirs).Perm (folders w') ∧
      List.Forall₂ (Matches dirs) rs rs' := by
  have hpairs : List.Forall₂ (fun r r' => runKey r = runKey r') rs rs' := by
    have hboth : List.Forall₂ Eq (rs.map runKey) (rs'.map runKey) := by
      rw [hkeys]
      exact List.forall₂_refl _
    rwa [List.forall₂_map_left_iff, List.forall₂_map_right_iff] at hboth
  let xs := (rs.map (·.outDir)).filter (· ≠ "")
  let ys := (rs'.map (·.outDir)).filter (· ≠ "")
  have hcount : ∀ zs : List Result, ((zs.map (·.outDir)).filter (· ≠ "")).length =
      (zs.map runKey).countP (!·.2.2) := by
    intro zs
    rw [← List.countP_eq_length_filter, List.countP_map, List.countP_map]
    refine List.countP_congr ?_
    intro r _
    simp [runKey]
  have hlength : ("" :: xs).length = ("" :: ys).length := by
    have hsame : xs.length = ys.length := by rw [hcount rs, hcount rs', hkeys]
    exact congrArg Nat.succ hsame
  -- Where no run was started there is no directory, which is so in both.
  have hfresh : ∀ zs : List String, "" ∉ zs.filter (· ≠ "") := by
    intro zs hmem
    simpa using (List.mem_filter.mp hmem).2
  have hxs : ("" :: xs).Nodup := List.nodup_cons.mpr ⟨hfresh _, h.dirs.nodup_iff.mpr h.nodup⟩
  have hys : ("" :: ys).Nodup := List.nodup_cons.mpr ⟨hfresh _, h'.dirs.nodup_iff.mpr h'.nodup⟩
  -- The nth directory is given to the nth, wherever in the index the two are.
  rcases exists_perm_map hxs hys hlength with ⟨dirs, hdirs⟩
  rcases List.cons.inj hdirs with ⟨hempty, hmap⟩
  refine ⟨dirs, hempty, ?_, matches_of_dirs hempty hpairs hmap⟩
  have hmoved : ((folders w).map dirs).Perm (xs.map dirs) := h.dirs.symm.map dirs
  rw [hmap] at hmoved
  exact hmoved.trans h'.dirs

/-! ## Reports of two first phases -/

theorem Owns.path_eq {fn : String} {k : Nat} {r : Result} (h : Owns finds fn w k r)
    (hw : w.index.Numbered site.dir) {name : String} (hname : Path.IsName name) :
    Path.join [r.outDir, name] = r.outDir ++ "/" ++ name := by
  rw [(h.outDir_eq hw).1]
  exact RunIndex.join_nthFolder _ _ _ hname

/-- A report of two runs that correspond. -/
theorem sameReport (hc : Repeatable c site cutoff inv finds) {dirs : String → String}
    {fn : String} {k k' : Nat} {r r' : Result} (hmatches : Matches dirs r r')
    (hown : Owns finds fn w k r) (hown' : Owns finds fn w' k' r')
    (hw : w.index.Numbered site.dir) (hw' : w'.index.Numbered site.dir) {f : String × String}
    (hf : f ∈ finds r.kind fn) (hclear : Path.Clear (Path.join [r.outDir, f.1]))
    (hclear' : Path.Clear (Path.join [r'.outDir, f.1])) (fns : FunctionSet) :
    Registry.SameReport dirs fns
        (.registerFile w.host.files (Path.join [r.outDir, f.1]) fn)
        (.registerFile w'.host.files (Path.join [r'.outDir, f.1]) fn) ∧
      Path.join [r'.outDir, f.1] = Path.relocate dirs (Path.join [r.outDir, f.1]) := by
  rcases hc.names r.kind fn f hf with ⟨hname, hreport, hisolated⟩
  have hopen := (hown.left f hf hclear).openFile
  have hopen' := (hown'.left f (hmatches.kind.symm ▸ hf) hclear').openFile
  rw [hown.path_eq hw hname] at hopen ⊢
  rw [hown'.path_eq hw' hname, hmatches.outDir] at hopen' ⊢
  refine ⟨⟨_, _, _, _, _, rfl, rfl, ?_⟩, (Path.relocate_slash dirs _ hname.no_slash).symm⟩
  exact Report.read_moved fn fns hname.no_slash hreport hisolated hopen hopen'

/-- The reports of results that correspond. -/
theorem sameReports (hc : Repeatable c site cutoff inv finds) {dirs : Equiv.Perm String}
    (hempty : dirs "" = "") (h : Yields site finds w rs) (h' : Yields site finds w' rs')
    {r r' : Result} (hmatches : Matches dirs r r') (hr : r ∈ rs) (hr' : r' ∈ rs')
    (hclear : ∀ report ∈ r.errorFiles, Path.Clear report)
    (hclear' : ∀ report ∈ r'.errorFiles, Path.Clear report) (fns : FunctionSet) :
    List.Forall₂ (Registry.SameReport dirs fns) (requests w.host.files (reportsOf [r]))
        (requests w'.host.files (reportsOf [r'])) ∧
      r'.errorFiles = r.errorFiles.map (Path.relocate dirs) := by
  by_cases hnone : r.outDir = ""
  · -- No run was started, in both.
    have hnone' : r'.outDir = "" := by rw [hmatches.outDir, hnone, hempty]
    rw [reportsOf, reportsOf, List.flatMap_singleton, List.flatMap_singleton, h.none r hr hnone,
      h'.none r' hr' hnone']
    exact ⟨.nil, rfl⟩
  · have hsome' : r'.outDir ≠ "" := by
      rw [hmatches.outDir, ← hempty]
      exact fun heq => hnone (dirs.injective heq)
    rcases h.owned r hr hnone with ⟨k, hown⟩
    rcases h'.owned r' hr' hsome' with ⟨k', hown'⟩
    rw [hmatches.function] at hown'
    have hfiles := hown.errorFiles
    have hfiles' := hown'.errorFiles
    rw [hmatches.kind] at hfiles'
    have hall : ∀ f ∈ finds r.kind r.function, _ := fun f hf =>
      sameReport hc hmatches hown hown' h.numbered h'.numbered hf
        (hclear _ (hfiles ▸ List.mem_map_of_mem hf))
        (hclear' _ (hfiles' ▸ List.mem_map_of_mem hf)) fns
    rw [reportsOf, reportsOf, List.flatMap_singleton, List.flatMap_singleton, hfiles, hfiles',
      hmatches.function]
    simp only [requests, pathsIn, List.map_map]
    refine ⟨?_, List.map_congr_left fun f hf => (hall f hf).2⟩
    rw [List.forall₂_map_left_iff, List.forall₂_map_right_iff, List.forall₂_same]
    exact fun f hf => (hall f hf).1

/-- Taking in the reports of two first phases that correspond. -/
theorem Yields.serveAll_moved (hc : Repeatable c site cutoff inv finds) {dirs : Equiv.Perm String}
    (hempty : dirs "" = "") (h : Yields site finds w rs) (h' : Yields site finds w' rs')
    (hmatches : List.Forall₂ (Matches dirs) rs rs')
    (hclear : ∀ r ∈ rs, ∀ report ∈ r.errorFiles, Path.Clear report)
    (hclear' : ∀ r ∈ rs', ∀ report ∈ r.errorFiles, Path.Clear report) (mode : Containment)
    (fns : FunctionSet) :
    (Registry.empty mode fns).serveAll (requests w'.host.files (reportsOf rs')) =
      ((Registry.empty mode fns).serveAll (requests w.host.files (reportsOf rs))).moved dirs := by
  have hpairs : List.Forall₂ (fun r r' => List.Forall₂ (Registry.SameReport dirs fns)
      (requests w.host.files (reportsOf [r])) (requests w'.host.files (reportsOf [r']))) rs rs' := by
    refine (forall₂_mem hmatches).imp ?_
    rintro r r' ⟨hpair, hr, hr'⟩
    exact (sameReports hc hempty h h' hpair hr hr' (hclear r hr) (hclear' r' hr') fns).1
  -- The requests of all results are those of the single ones, one behind the other.
  have hall : List.Forall₂ (Registry.SameReport dirs fns)
      (requests w.host.files (reportsOf rs)) (requests w'.host.files (reportsOf rs')) := by
    clear hmatches h h' hclear hclear'
    induction hpairs with
    | nil => exact .nil
    | @cons r r' rs rs' hpair _ ih =>
      have hsplit : ∀ (files : FileTree) (r : Result) (rs : List Result),
          requests files (reportsOf (r :: rs)) =
            requests files (reportsOf [r]) ++ requests files (reportsOf rs) := by
        intro files r rs
        simp [requests, reportsOf]
      rw [hsplit, hsplit w'.host.files]
      exact List.rel_append hpair ih
  rw [← Registry.serveAll_moved dirs.injective hall _ rfl, Registry.empty_moved]

end

/-! ## The first phase -/

/-- The world in which the analyses of the first phase start, unless it fails before. -/
def prepared (c : Campaign) (site : Site) (s : State) : Except Failure Unit × World :=
  match s.world.onFiles (RunDir.copyFile site.dir.program site.dir.symMains) with
  | (.error f, w) => (.error (.within "failed to copy program image" f), w)
  | (.ok _, w) =>
    c.encapsulateAll site (s.world.host.cutoff s.deadline)
      (site.graph.encapsulable c.options.removeMain) w

theorem encapsulateAll_keeps (c : Campaign) (site : Site) (cutoff : Host.Cutoff)
    (functions : List String) (w : World) :
    (c.encapsulateAll site cutoff functions w).2.index = w.index ∧
      (c.encapsulateAll site cutoff functions w).2.pool = w.pool := by
  induction functions generalizing w with
  | nil => exact ⟨rfl, rfl⟩
  | cons fn functions ih =>
    -- A pass over the program is none of the runs that are numbered, and needs no group.
    have hpass : ∀ (p : Pass) (run : Host → Except Failure Unit × Host),
        (w.pass p run).2.index = w.index ∧ (w.pass p run).2.pool = w.pool :=
      fun _ _ => ⟨rfl, rfl⟩
    unfold encapsulateAll
    split
    · exact ih w
    · split
      · exact ⟨rfl, rfl⟩
      · simp only
        have hkeeps := hpass (.encapsulate site.dir.symMains fn site.dir.symMains)
          (c.toolchain.transform (.encapsulate site.dir.symMains fn site.dir.symMains))
        generalize w.pass _ _ = passed at hkeeps
        rcases passed with ⟨answer, w'⟩
        cases answer with
        | ok u =>
          rcases ih w' with ⟨hindex, hpool⟩
          exact ⟨hindex.trans hkeeps.1, hpool.trans hkeeps.2⟩
        | error f =>
          simp only
          split
          · exact hkeeps
          · exact hkeeps

theorem prepared_keeps (c : Campaign) (site : Site) (s : State) :
    (c.prepared site s).2.index = s.world.index ∧ (c.prepared site s).2.pool = s.world.pool := by
  unfold prepared World.onFiles
  generalize RunDir.copyFile site.dir.program site.dir.symMains s.world.host.files = copied
  rcases copied with ⟨answer, files⟩
  cases answer with
  | error f => exact ⟨rfl, rfl⟩
  | ok u => exact encapsulateAll_keeps c site _ _ _

theorem isolate_error {s : State} {f : Failure} (h : (c.prepared site s).1 = .error f) :
    (c.isolate site s).1 = .error f ∧ (c.isolate site s).2.registry = s.registry ∧
      (c.isolate site s).2.phaseOne = s.phaseOne ∧
      (c.isolate site s).2.world.index = s.world.index := by
  rw [← (prepared_keeps c site s).1]
  dsimp only [prepared, isolate] at h ⊢
  -- Both give up where the first of the two preparations fails.
  generalize s.world.onFiles (RunDir.copyFile site.dir.program site.dir.symMains) = copied at h ⊢
  rcases copied with ⟨copied, w⟩
  cases copied with
  | error f' => exact ⟨h, rfl, rfl, rfl⟩
  | ok u =>
    dsimp only at h ⊢
    generalize c.encapsulateAll site (s.world.host.cutoff s.deadline)
      (site.graph.encapsulable c.options.removeMain) w = added at h ⊢
    rcases added with ⟨added, w'⟩
    cases added with
    | error f' => exact ⟨h, rfl, rfl, rfl⟩
    | ok u' => cases h

theorem isolate_ok {s : State} (h : (c.prepared site s).1 = .ok ()) :
    ∃ span, c.isolate site s = (.ok (),
      (c.analyzeAll site (s.world.host.cutoff s.deadline)
        (site.graph.encapsulable c.options.removeMain)
        { s with
          functions := site.graph.encapsulable c.options.removeMain
          world := (c.prepared site s).2 }).close span) := by
  dsimp only [prepared, isolate] at h ⊢
  generalize s.world.onFiles (RunDir.copyFile site.dir.program site.dir.symMains) = copied at h ⊢
  rcases copied with ⟨copied, w⟩
  cases copied with
  | error f' => cases h
  | ok u =>
    dsimp only at h ⊢
    generalize c.encapsulateAll site (s.world.host.cutoff s.deadline)
      (site.graph.encapsulable c.options.removeMain) w = added at h ⊢
    rcases added with ⟨added, w'⟩
    cases added with
    | error f' => cases h
    | ok u' => exact ⟨_, rfl⟩

/-- How many runs may be active, and which groups there are, makes no difference before the first
analysis. -/
theorem encapsulateAll_schedule (c : Campaign) (site : Site) (limit : Nat)
    (interleaving : Nat → List (BatchEvent Signal)) (pool : GroupPool) (functions : List String) (w : World) :
    ({ c with limit := limit, interleaving := interleaving } : Campaign).encapsulateAll site cutoff
        functions { w with pool := pool } =
      ((c.encapsulateAll site cutoff functions w).1,
        { (c.encapsulateAll site cutoff functions w).2 with pool := pool }) := by
  induction functions generalizing w with
  | nil => rfl
  | cons fn functions ih =>
    -- Passes do not look at the groups.
    have hpass : ∀ (p : Pass) (run : Host → Except Failure Unit × Host),
        ({ w with pool := pool } : World).pass p run =
          ((w.pass p run).1, { (w.pass p run).2 with pool := pool }) := fun _ _ => rfl
    unfold encapsulateAll
    simp only [hpass, ih]
    split
    · rfl
    · split
      · rfl
      · generalize w.pass _ _ = passed
        rcases passed with ⟨answer, w'⟩
        cases answer with
        | ok u => exact ih w'
        | error f =>
          simp only
          split
          · rfl
          · rfl

theorem prepared_schedule (c : Campaign) (site : Site) (limit : Nat)
    (interleaving : Nat → List (BatchEvent Signal)) (pool : GroupPool) (s : State) :
    ({ c with limit := limit, interleaving := interleaving } : Campaign).prepared site
        { s with world := { s.world with pool := pool } } =
      ((c.prepared site s).1, { (c.prepared site s).2 with pool := pool }) := by
  unfold prepared World.onFiles
  simp only
  generalize RunDir.copyFile site.dir.program site.dir.symMains s.world.host.files = copied
  rcases copied with ⟨answer, files⟩
  cases answer with
  | error f => rfl
  | ok u => exact encapsulateAll_schedule c site limit interleaving pool _ (s.world.withFiles files)

/-- What the analyses of all functions leave. -/
theorem analyzeAll_spec (c : Campaign) (site : Site) (cutoff : Host.Cutoff)
    (functions : List String) (s : State) :
    let out := c.runBatch cutoff 0 (fun name why => [failedTask name why])
      (functions.map (c.analysisTask site)) s.world
    (c.analyzeAll site cutoff functions s).world = out.2 ∧
      (c.analyzeAll site cutoff functions s).phaseOne = out.1.flatten ∧
      (c.analyzeAll site cutoff functions s).registry =
        s.registry.serveAll (requests out.2.host.files (reportsOf out.1.flatten)) := by
  intro out
  have hserves := serves_register { s with world := out.2, phaseOne := out.1.flatten }
    out.1.flatten
  exact ⟨hserves.world, hserves.phaseOne, hserves.registry⟩

/-- What a first phase that does not fail leaves. -/
theorem isolate_yields (hc : Repeatable c site cutoff inv finds) {s : State}
    (hcutoff : s.world.host.cutoff s.deadline = cutoff)
    (hok : (c.prepared site s).1 = .ok ()) (hinv : inv (c.prepared site s).2.host)
    (hindex : s.world.index = {}) (hpool : s.world.pool = GroupPool.ofConfig c.config c.limit)
    (hsignals : ∀ signal, .outside signal ∈ c.interleaving 0 → ∀ w : World, inv w.host →
      inv (signal.apply w).host) :
    let out := c.isolate site s
    out.1 = .ok () ∧ Yields site finds out.2.world out.2.phaseOne ∧
      out.2.registry =
        s.registry.serveAll (requests out.2.world.host.files (reportsOf out.2.phaseOne)) ∧
      (c.options.useFlipper = false → out.2.phaseOne.map runKey =
        (site.graph.encapsulable c.options.removeMain).map
          fun fn => (fn, c.backendOf site fn, false)) := by
  intro out
  let functions := site.graph.encapsulable c.options.removeMain
  let s' : State := { s with functions := functions, world := (c.prepared site s).2 }
  rcases prepared_keeps c site s with ⟨hindex', hpool'⟩
  -- There is a group for every run that may be active.
  have hgroups : (Scheduler.ofLimit c.limit).limit ≤ (c.prepared site s).2.pool.free.length := by
    rw [hpool', hpool]
    simp [Scheduler.ofLimit, GroupPool.ofConfig, MemoryGroup.names]
  rcases analyses_deliver hc hinv (hindex'.trans hindex) hgroups hsignals functions with
    ⟨hnumbered, outs, hresults, htickets, hall⟩
  have hyields := yields_of_analyzed hnumbered hall htickets
  have hkeys := runKeys_of_analyzed hnumbered hall
  rw [hresults] at hyields hkeys
  rcases analyzeAll_spec c site cutoff functions s' with ⟨hworld, hphase, hregistry⟩
  rw [← hphase] at hyields hkeys hregistry
  rw [← hworld] at hregistry
  have hyields' : Yields site finds (c.analyzeAll site cutoff functions s').world
      (c.analyzeAll site cutoff functions s').phaseOne := hworld ▸ hyields
  rcases isolate_ok hok with ⟨span, hout⟩
  rw [hcutoff] at hout
  change c.isolate site s = (.ok (), (c.analyzeAll site cutoff functions s').close span) at hout
  have hsame : out = (.ok (), (c.analyzeAll site cutoff functions s').close span) := hout
  rw [hsame]
  exact ⟨rfl, hyields'.close span, hregistry, hkeys⟩

/-- The first phase comes to the same, but for the names of output directories, whatever number of
runs may be active at once and in whatever order the analyses make their steps, as long as the reports
of a run depend on its function only, none of them is about a propagated error, and sessions, if there
are any, make the same runs: the two registries are equal once the directories are renamed. In each
first phase no directory is reserved twice. -/
theorem isolate_scheduling (c : Campaign) (site : Site) (w : World) (deadline : Option Int)
    (limit : Nat) (interleaving : Nat → List (BatchEvent Signal)) (inv : Host → Prop)
    (finds : String → String → Findings)
    (hrepeat : Repeatable c site (w.host.cutoff deadline) inv finds)
    (hindex : w.index = {}) (hpool : w.pool = GroupPool.ofConfig c.config c.limit)
    (hstart : inv (c.prepared site { c.begin site w with deadline := deadline }).2.host)
    (hsignals : ∀ signal, .outside signal ∈ c.interleaving 0 ++ interleaving 0 →
      ∀ w : World, inv w.host → inv (signal.apply w).host) :
    let c' : Campaign := { c with limit := limit, interleaving := interleaving }
    let w' : World := { w with pool := GroupPool.ofConfig c.config limit }
    let out := c.isolate site { c.begin site w with deadline := deadline }
    let out' := c'.isolate site { c'.begin site w' with deadline := deadline }
    (∀ r ∈ out.2.phaseOne ++ out'.2.phaseOne, ∀ report ∈ r.errorFiles, Path.Clear report) →
    (c.options.useFlipper = true → out.2.phaseOne.map runKey = out'.2.phaseOne.map runKey) →
    out'.1 = out.1 ∧ (folders out.2.world).Nodup ∧ (folders out'.2.world).Nodup ∧
      ∃ dirs : Equiv.Perm String,
        ((folders out.2.world).map dirs).Perm (folders out'.2.world) ∧
        List.Forall₂ (fun r r' => r'.function = r.function ∧ r'.kind = r.kind ∧
          r'.outDir = dirs r.outDir ∧ r'.errorFiles = r.errorFiles.map (Path.relocate dirs))
          out.2.phaseOne out'.2.phaseOne ∧
        out'.2.registry = out.2.registry.moved dirs := by
  intro c' w' out out' hclear hsessions
  have hrepeat' : Repeatable c' site (w.host.cutoff deadline) inv finds :=
    ⟨hrepeat.calm, hrepeat.index, hrepeat.stored, hrepeat.names, hrepeat.symbolic, hrepeat.fuzz,
      hrepeat.convert⟩
  let s : State := { c.begin site w with deadline := deadline }
  let s' : State := { c'.begin site w' with deadline := deadline }
  have hprepared : c'.prepared site s' = ((c.prepared site s).1,
      { (c.prepared site s).2 with pool := GroupPool.ofConfig c.config limit }) :=
    prepared_schedule c site limit interleaving _ s
  cases hfirst : (c.prepared site s).1 with
  | error f =>
    -- Neither of them gets as far as the first analysis.
    rcases isolate_error hfirst with ⟨hanswer, hregistry, hphase, hruns⟩
    have hfirst' : (c'.prepared site s').1 = .error f := by rw [hprepared, hfirst]
    rcases isolate_error hfirst' with ⟨hanswer', hregistry', hphase', hruns'⟩
    have hempty : ∀ w₁ : World, w₁.index = w.index → folders w₁ = [] := by
      intro w₁ hsame
      rw [folders, hsame, hindex]
      rfl
    have hnone : folders out.2.world = [] := hempty _ hruns
    have hnone' : folders out'.2.world = [] := hempty _ hruns'
    refine ⟨hanswer'.trans hanswer.symm, hnone ▸ List.nodup_nil, hnone' ▸ List.nodup_nil,
      Equiv.refl _, ?_, ?_, ?_⟩
    · rw [hnone, hnone']
      exact .nil
    · rw [hphase, hphase']
      exact .nil
    · rw [hregistry, hregistry']
      rfl
  | ok u =>
    have hstart' : inv (c'.prepared site s').2.host := by
      rw [hprepared]
      exact hstart
    have hfirst' : (c'.prepared site s').1 = .ok () := by rw [hprepared, hfirst]
    rcases isolate_yields hrepeat rfl hfirst hstart hindex hpool
      (fun signal hmem => hsignals signal (List.mem_append_left _ hmem)) with
      ⟨hanswer, hyields, hregistry, hkeys⟩
    rcases isolate_yields hrepeat' rfl hfirst' hstart' hindex rfl
      (fun signal hmem => hsignals signal (List.mem_append_right _ hmem)) with
      ⟨hanswer', hyields', hregistry', hkeys'⟩
    -- Without sessions there is one run for each function, in both.
    have hboth : out.2.phaseOne.map runKey = out'.2.phaseOne.map runKey := by
      cases hflipper : c.options.useFlipper with
      | true => exact hsessions hflipper
      | false => exact (hkeys hflipper).trans (hkeys' hflipper).symm
    rcases hyields.exists_renaming hyields' hboth with ⟨dirs, hempty, hfolders, hmatches⟩
    have hcan : ∀ r ∈ out.2.phaseOne, ∀ report ∈ r.errorFiles, Path.Clear report :=
      fun r hr => hclear r (List.mem_append_left _ hr)
    have hcan' : ∀ r ∈ out'.2.phaseOne, ∀ report ∈ r.errorFiles, Path.Clear report :=
      fun r hr => hclear r (List.mem_append_right _ hr)
    refine ⟨hanswer'.trans hanswer.symm, hyields.nodup, hyields'.nodup, dirs, hfolders, ?_, ?_⟩
    · refine (forall₂_mem hmatches).imp ?_
      rintro r r' ⟨hpair, hr, hr'⟩
      exact ⟨hpair.function, hpair.kind, hpair.outDir, (sameReports hrepeat hempty hyields hyields'
        hpair hr hr' (hcan r hr) (hcan' r' hr') ⟨site.graph.functions⟩).2⟩
    · rw [hregistry, hregistry']
      exact hyields.serveAll_moved hrepeat hempty hyields' hmatches hcan hcan' _ _

/-! ## Runs that put reports into directories -/

/-- The entry of a directory with reports. -/
def reportDir (found : Findings) : Entry := .dir (found.map fun f => (f.1, .file f.2 false))

/-- The files once reports were put into a directory. -/
def putReports (found : Findings) (dir : String) (t : FileTree) : FileTree :=
  { t with root := Entry.insert (reportDir found) (t.place dir) t.root }

/-- A run that puts its reports into its directory does what is asked of it. -/
theorem leaves_putReports {t : FileTree} {d : RunDir} {found : Findings} {r : Result} {n : Nat}
    {cs : List (String × Entry)} (hnames : ∀ f ∈ found, Path.IsName f.1)
    (hnodup : (found.map (·.1)).Nodup) (hfolder : r.outDir = RunIndex.nthFolder d r.kind n)
    (hdir : t.root.at? (t.place r.outDir).dropLast = some (.dir cs))
    (hreports : r.errorFiles = pathsIn r.outDir found) :
    Leaves found r.kind r.function r.outDir t (.returned r) (putReports found r.outDir t) := by
  refine ⟨⟨r, rfl, rfl, rfl, rfl, hreports⟩, ?_, ?_⟩
  · intro f hf hclear
    refine ⟨hclear, false, ?_⟩
    have hplace : t.place (Path.join [r.outDir, f.1]) = t.place r.outDir ++ [f.1] := by
      rw [hfolder]
      exact RunIndex.place_join_nthFolder t d r.kind n (hnames f hf)
    have hne : t.place r.outDir ≠ [] := by
      rw [hfolder, RunIndex.place_nthFolder]
      exact List.append_ne_nil_of_right_ne_nil _ (List.cons_ne_nil _ _)
    have hput : (putReports found r.outDir t).root.at? (t.place r.outDir) =
        some (reportDir found) := Entry.at?_insert_of_dir hne hdir _
    have hfound : (found.map fun f => (f.1, Entry.file f.2 false)).lookup f.1 =
        some (.file f.2 false) := by
      rw [lookup_map_key, (find?_key_eq_some_iff hnodup).mpr ⟨hf, rfl⟩]
      rfl
    -- The directory is where it was put, and there is one report of each name in it.
    calc (putReports found r.outDir t).root.at? (t.place (Path.join [r.outDir, f.1]))
        = ((putReports found r.outDir t).root.at? (t.place r.outDir)).bind (·.at? [f.1]) := by
          rw [hplace, Entry.at?_append]
      _ = (reportDir found).at? [f.1] := by rw [hput, Option.bind_some]
      _ = some (.file f.2 false) := by simp [reportDir, Entry.at?, Entry.children, hfound]
  · intro p text _ hapart hheld
    rcases hheld.file with ⟨x, hfile⟩
    exact ⟨hheld.clear, x, (Entry.elsewhere_insert _ _ _).file hapart hfile⟩

end Campaign

/-! ## Two functions in either order -/

namespace Campaign.Pair

/-- One report for each function. -/
def finds (_kind function : String) : Findings :=
  [("test000001.ptr.err",
    "Error: memory error\nStack:\n\t#000000004 in " ++ function ++ " () at p.c:4\nInfo:\n")]

def result (r : SymbolicRun) : Result :=
  { Executor.blankResult r with
    errorFiles := pathsIn r.outDir (finds symbolicKind r.function) }

def campaign : Campaign :=
  { config := Config.default
    options := {}
    toolchain :=
      { extract := fun _ h => (.ok [], h)
        list := fun _ h => (.ok [], h)
        transform := fun _ h => (.ok (), h) }
    explore := fun _ r h =>
      (.returned (result r),
        { h with files := putReports (finds symbolicKind r.function) r.outDir h.files })
    limit := 1 }

/-- Both functions are started, and the second one is the first to reserve a directory. -/
def crossing : Nat → List (BatchEvent Signal) := fun _ =>
  [.look, .admission, .look, .admission, .start 0, .start 1, .advance 1, .advance 0]

def site : Site :=
  { dir := { parent := "/", root := "/r" }
    graph :=
      { nodes := [⟨"a", ["b"], [], false, false⟩, ⟨"b", [], ["a"], false, false⟩]
        topology := [⟨["b"], false⟩, ⟨["a"], false⟩] }
    start := 0
    fuzzer := campaign.fuzzer { parent := "/", root := "/r" } }

def world : World :=
  { host :=
      { files :=
          { root := .dir [("r", .dir
              [("bitcode", .dir [("program.bc", .file "BC" false)]), ("klee", .dir [])])]
            cwd := [] }
        programs := fun _ t _ => { files := t } }
    pool := GroupPool.ofConfig Config.default 1 }

/-- The host goes on, and the index of runs and their directories have a place. -/
structure Calm (h : Host) : Prop where
  goesOn : h.canceled = false
  index : h.files.Replaceable (site.dir.path "klee.json")
  dir : (h.files.root.at? ["r", "klee"]).any Entry.isDir = true

theorem cleanComponents_root : Path.cleanComponents site.dir.root = ["r"] := by
  decide +kernel

theorem place_path (t : FileTree) {name : String} (hname : Path.IsName name) :
    t.place (site.dir.path name) = ["r", name] := by
  rw [RunDir.path, t.place_join site.dir.root hname, cleanComponents_root]
  rfl

theorem place_folder (t : FileTree) (n : Nat) :
    t.place (RunIndex.nthFolder site.dir symbolicKind n) =
      ["r", "klee"] ++ [(RunIndex.place site.dir symbolicKind n).1] := by
  rw [RunIndex.place_nthFolder, cleanComponents_root]
  rfl

theorem names_finds {kind function : String} {f : String × String} (hf : f ∈ finds kind function) :
    Path.IsName f.1 ∧ OutputDir.isErrorFile f.1 = true ∧
      Text.endsWith f.1 Fault.propagatedEnding = false := by
  have hname : f.1 = "test000001.ptr.err" := congrArg Prod.fst (List.mem_singleton.mp hf)
  rw [hname]
  exact ⟨⟨by decide, by decide⟩, by decide +kernel, by decide +kernel⟩

theorem repeatable : Repeatable campaign site (world.host.cutoff none) Calm finds where
  calm h hcalm := by
    simp [Host.cutoff, Host.Cutoff.reached?, world, hcalm.goesOn]
  index h hcalm := hcalm.index
  stored h x hcalm := by
    rcases FileTree.any_isDir_iff.mp hcalm.dir with ⟨cs, hdir⟩
    exact ⟨hcalm.goesOn, (RunIndex.store_keeps hcalm.index x).2,
      FileTree.any_isDir_iff.mpr (FileTree.replaceFile_dir hcalm.index _ hdir)⟩
  names _ _ _ hf := names_finds hf
  symbolic journal run h n hcalm _ hfolder := by
    rcases FileTree.any_isDir_iff.mp hcalm.dir with ⟨cs, hdir⟩
    have hplace : h.files.place run.outDir =
        ["r", "klee"] ++ [(RunIndex.place site.dir symbolicKind n).1] := by
      rw [hfolder]
      exact place_folder h.files n
    -- A run writes into its own folder only, away from the index.
    have helse : Entry.Elsewhere (h.files.place run.outDir) h.files.root
        (putReports (finds symbolicKind run.function) run.outDir h.files).root :=
      Entry.elsewhere_insert _ _ _
    rw [hplace] at helse
    refine ⟨⟨?_, ?_, ?_⟩, ?_⟩
    · exact (Bool.or_self _).trans hcalm.goesOn
    · refine hcalm.index.elsewhere helse ?_ ?_
      · rw [place_path h.files ⟨by decide, by decide⟩]
        simp
      · have htemp : site.dir.path "klee.json" ++ ".tmp" = site.dir.path "klee.json.tmp" := by
          decide +kernel
        rw [htemp, place_path h.files ⟨by decide, by decide⟩]
        simp
    · exact FileTree.any_isDir_iff.mpr (helse.dir (by simp) hdir)
    · apply leaves_putReports (r := result run) (fun _ hf => (names_finds hf).1)
        (List.nodup_singleton _) hfolder _ rfl
      · exact cs
      · change h.files.root.at? (h.files.place run.outDir).dropLast = _
        rw [hplace, List.dropLast_concat]
        exact hdir
  fuzz run h n _ hdriver := absurd hdriver List.not_mem_nil
  convert function outDir seedDir h _ hdriver := absurd hdriver List.not_mem_nil

/-- The same campaign with two runs at once. -/
abbrev wider : Campaign := { campaign with limit := 2, interleaving := crossing }

abbrev widerWorld : World := { world with pool := GroupPool.ofConfig campaign.config (2 : Nat) }

-- What both campaigns come to is kept folded, as it is only to be evaluated by the kernel.

@[irreducible] def oneByOne : State :=
  (campaign.isolate site { campaign.begin site world with deadline := none }).2

@[irreducible] def crossed : State :=
  (wider.isolate site { wider.begin site widerWorld with deadline := none }).2

set_option maxRecDepth 100000

theorem calm_prepared :
    Calm (campaign.prepared site { campaign.begin site world with deadline := none }).2.host := by
  constructor <;> decide +kernel

theorem both_spec :
    oneByOne.phaseOne.map (·.outDir) = ["/r/klee/klee-out-1", "/r/klee/klee-out-2"] ∧
      crossed.phaseOne.map (·.outDir) = ["/r/klee/klee-out-2", "/r/klee/klee-out-1"] ∧
      oneByOne.registry.order.length = 2 ∧
      ∀ r ∈ oneByOne.phaseOne ++ crossed.phaseOne, ∀ report ∈ r.errorFiles, Path.Clear report := by
  decide +kernel

theorem isolate_scheduling_two :
    let out := campaign.isolate site { campaign.begin site world with deadline := none }
    let out' := wider.isolate site { wider.begin site widerWorld with deadline := none }
    out.2.phaseOne.map (·.outDir) = ["/r/klee/klee-out-1", "/r/klee/klee-out-2"] ∧
      out'.2.phaseOne.map (·.outDir) = ["/r/klee/klee-out-2", "/r/klee/klee-out-1"] ∧
      out.2.registry.order.length = 2 ∧
      ∃ dirs : Equiv.Perm String, out'.2.registry = out.2.registry.moved dirs := by
  rcases both_spec with ⟨hdirs, hdirs', hlength, hclear⟩
  -- The two ends are evaluated once each, and known by their names from here on.
  have hfirst : (campaign.isolate site { campaign.begin site world with deadline := none }).2 =
      oneByOne := by
    delta oneByOne
    exact rfl
  have hsecond : (wider.isolate site { wider.begin site widerWorld with deadline := none }).2 =
      crossed := by
    delta crossed
    exact rfl
  have hsame := isolate_scheduling campaign site world none 2 crossing Calm finds repeatable rfl rfl
    calm_prepared (by simp [campaign, crossing])
  dsimp only at hsame hfirst hsecond ⊢
  simp only [hfirst, hsecond] at hsame ⊢
  rcases hsame hclear (fun h => absurd h (by decide)) with ⟨-, -, -, dirs, -, -, hregistry⟩
  exact ⟨hdirs, hdirs', hlength, dirs, hregistry⟩

end Campaign.Pair
end FaultChain
