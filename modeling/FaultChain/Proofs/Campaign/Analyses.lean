import FaultChain.Proofs.Campaign.Advances
import FaultChain.Proofs.Campaign.Bookkeeping
import FaultChain.Proofs.Registry.Renaming

/-!
# Analyses that share a campaign

The analyses of the first phase share the files, the memory groups and the index of runs. Each run
has a directory of its own, so that its reports are still there when all analyses are finished.

* `Campaign.Repeatable`: what is asked of the backends.
* `Campaign.sharing`: how the analyses share a campaign.
* `Campaign.Owns`: the result of the run that has drawn a ticket.
* `Campaign.shares_analysis`: each analysis plays by the rules.
* `Campaign.analyses_deliver`: what the analyses of all functions come to.
-/

namespace FaultChain
namespace Campaign

/-! ## What is asked of the backends -/

/-- What a run finds: names and texts of its reports. -/
abbrev Findings := List (String × String)

/-- The paths of what was found in a directory. -/
def pathsIn (dir : String) (found : Findings) : List String :=
  found.map fun f => Path.join [dir, f.1]

/-- What was found is in a directory, wherever its path can be opened. -/
def Left (found : Findings) (dir : String) (files : FileTree) : Prop :=
  ∀ f ∈ found, Path.Clear (Path.join [dir, f.1]) → files.Holds (Path.join [dir, f.1]) f.2

/-- What is asked of a run in a directory: it returns with its reports in that directory, and leaves
the reports in other directories alone. -/
structure Leaves (found : Findings) (kind function dir : String) (before : FileTree)
    (e : TaskEnd Result) (after : FileTree) : Prop where
  returns : ∃ r, e = .returned r ∧ r.kind = kind ∧ r.function = function ∧ r.outDir = dir ∧
    r.errorFiles = pathsIn dir found
  left : Left found dir after
  others : ∀ {p text}, Text.endsWith p ".err" = true → ¬ before.place dir <+: before.place p →
    before.Holds p text → after.Holds p text

/-- The names and texts of the reports that a run leaves depend on its function only, and no report
is about a propagated error, as long as the host is as in `inv`, which all that is done keeps. -/
structure Repeatable (c : Campaign) (site : Site) (cutoff : Host.Cutoff) (inv : Host → Prop)
    (finds : String → String → Findings) : Prop where
  calm : ∀ h, inv h → cutoff.reached? h = none
  index : ∀ h, inv h → h.files.Replaceable (site.dir.path "klee.json")
  stored : ∀ h x, inv h → inv { h with files := (RunIndex.store x site.dir h.files).2 }
  names : ∀ kind function, ∀ f ∈ finds kind function, Path.IsName f.1 ∧
    OutputDir.isErrorFile f.1 = true ∧ Text.endsWith f.1 Fault.propagatedEnding = false
  symbolic : ∀ journal (run : SymbolicRun) h n, inv h → run.target = "" →
    run.outDir = RunIndex.nthFolder site.dir symbolicKind n →
      inv (h.becoming (c.explore journal run h).2) ∧
        Leaves (finds symbolicKind run.function) symbolicKind run.function run.outDir h.files
          (c.explore journal run h).1 (c.explore journal run h).2.files
  fuzz : ∀ (run : FuzzRun) h n, inv h → run.function ∈ site.drivers →
    run.outDir = RunIndex.nthFolder site.dir fuzzKind n →
      inv (h.becoming (site.fuzzer.run run h).2) ∧
        Leaves (finds fuzzKind run.function) fuzzKind run.function run.outDir h.files
          (.returned (site.fuzzer.run run h).1) (site.fuzzer.run run h).2.files
  convert : ∀ function outDir seedDir h, inv h → function ∈ site.drivers →
    inv (h.becoming (site.fuzzer.convertQueue function outDir seedDir h).2.2) ∧
      h.files.Keeps (site.fuzzer.convertQueue function outDir seedDir h).2.2.files

/-! ## How a campaign is shared -/

variable {c : Campaign} {site : Site} {cutoff : Host.Cutoff} {inv : Host → Prop}
  {finds : String → String → Findings}

/-- The reports of a run whose directory was reserved are there. -/
def Kept (finds : String → String → Findings) (r : RunRecord) (w : World) : Prop :=
  Left (finds r.kind r.function) r.folder w.host.files

/-- How analyses share a campaign: directories stay reserved, reports are kept, memory groups come
from the pool, and the number of a reserved directory is a ticket. -/
def sharing (site : Site) (inv : Host → Prop) (finds : String → String → Findings) :
    Sharing World where
  inv w := inv w.host ∧ w.index.Numbered site.dir
  rely w w' := w.index.runs <+: w'.index.runs ∧
    ∀ run ∈ w.index.runs, Kept finds run.2 w → Kept finds run.2 w'
  free w := w.pool.free.length
  issued w := w.index.size

theorem sharing_lawful (site : Site) (inv : Host → Prop) (finds : String → String → Findings) :
    (sharing site inv finds).Lawful where
  refl w := ⟨List.prefix_rfl, fun _ _ h => h⟩
  trans := by
    rintro w w' w'' ⟨hruns, hkept⟩ ⟨hruns', hkept'⟩
    exact ⟨hruns.trans hruns', fun run hrun h => hkept' run (hruns.subset hrun) (hkept run hrun h)⟩
  issued_le := by
    rintro w w' ⟨hruns, -⟩
    exact hruns.length_le

/-- The result of the run of `fn` that has drawn a ticket: its reports are in the directory reserved
for it. -/
structure Owns (finds : String → String → Findings) (fn : String) (w : World) (k : Nat)
    (r : Result) : Prop where
  reserved : ∃ run, w.index.runs[k]? = some run ∧ run.2.function = fn ∧ run.2.kind = r.kind ∧
    run.2.folder = r.outDir
  function : r.function = fn
  errorFiles : r.errorFiles = pathsIn r.outDir (finds r.kind fn)
  left : Left (finds r.kind fn) r.outDir w.host.files

theorem Owns.rely {fn : String} {w w' : World} {k : Nat} {r : Result}
    (h : Owns finds fn w k r) (hrely : (sharing site inv finds).rely w w') :
    Owns finds fn w' k r := by
  rcases h.reserved with ⟨run, hrun, hfunction, hkind, hfolder⟩
  refine ⟨⟨run, getElem?_of_prefix hrely.1 hrun, hfunction, hkind, hfolder⟩, h.function,
    h.errorFiles, ?_⟩
  have hkept := hrely.2 run (List.mem_of_getElem? hrun)
  unfold Kept at hkept
  rw [hfunction, hkind, hfolder] at hkept
  exact hkept h.left

/-! ## Steps of a run -/

/-- The path of a report ends as its name does. -/
theorem endsWith_err {name : String} (hname : Path.IsName name)
    (hreport : OutputDir.isErrorFile name = true) (dir : String) :
    Text.endsWith (Path.join [dir, name]) ".err" = true := by
  rcases Report.exists_kind hreport with ⟨stem, kind, heq, -⟩
  have hends := Path.join_endsWith dir hname.no_slash hname.plain
  rw [Text.endsWith, List.isSuffixOf_iff_suffix] at hends ⊢
  refine List.IsSuffix.trans ?_ hends
  rw [heq, String.toList_append]
  exact List.suffix_append _ _

theorem Left.keeps (hc : Repeatable c site cutoff inv finds) {kind function dir : String}
    {files files' : FileTree} (h : Left (finds kind function) dir files)
    (hkeeps : files.Keeps files') : Left (finds kind function) dir files' := by
  intro f hf hclear
  rcases hc.names kind function f hf with ⟨hname, hreport, -⟩
  exact hkeeps.reports (endsWith_err hname hreport dir) (h f hf hclear)

/-- A step that changes nothing but the host, and keeps all reports. -/
theorem change_host (hc : Repeatable c site cutoff inv finds) {w w' : World} {g : Hand}
    (hw : (sharing site inv finds).inv w) (hinv : inv w'.host) (hindex : w'.index = w.index)
    (hpool : w'.pool = w.pool) (hkeeps : w.host.files.Keeps w'.host.files) (hg : g.groups ≤ 1) :
    (sharing site inv finds).Change w w' g g := by
  apply Sharing.Change.of_same _ _ _ _ hg
  · exact ⟨hinv, hindex ▸ hw.2⟩
  · refine ⟨hindex ▸ List.prefix_rfl, ?_⟩
    intro run _ hkept
    exact Left.keeps hc hkept hkeeps
  · change w'.pool.free.length = _
    rw [hpool]
    rfl
  · change w'.index.size = _
    rw [hindex]
    rfl

theorem bookkeeping_sharing (hc : Repeatable c site cutoff inv finds) :
    Bookkeeping (sharing site inv finds) site.dir where
  lawful := sharing_lawful site inv finds
  runs h := h.1
  close span hw hg := change_host hc hw hw.1 rfl rfl (.refl _) hg
  reserve {w g} record hw hg := by
    have hstore := RunIndex.store_keeps (hc.index w.host hw.1) (w.index.reserve site.dir record).2
    refine ⟨⟨?_, ?_⟩, ⟨?_, ?_⟩, rfl, hg, ?_⟩
    · exact hc.stored w.host _ hw.1
    · exact hw.2.reserve record
    · exact List.prefix_append _ _
    · intro run _ hkept
      exact Left.keeps hc hkept hstore.1
    -- Reserving a directory issues one number.
    · have hone : (sharing site inv finds).issued (w.reserve site.dir record).2 -
          (sharing site inv finds).issued w = 1 := by
        simp [sharing, World.reserve, RunIndex.reserve_eq, RunIndex.size]
      rw [hone]
      rfl

/-- The result of a run of a kind of backend. -/
def OwnsAs (finds : String → String → Findings) (kind fn : String) (w : World) (k : Nat)
    (r : Result) : Prop :=
  r.kind = kind ∧ Owns finds fn w k r

/-- All runs return. -/
def Never (_ : World) (_ : Nat) : Prop := False

theorem lasting_owns (fn : String) : Lasting (sharing site inv finds) (Owns finds fn) Never where
  own hrely h := h.rely hrely
  lost _ h := h

theorem lasting_ownsAs (kind fn : String) :
    Lasting (sharing site inv finds) (OwnsAs finds kind fn) Never where
  own hrely h := ⟨h.1, h.2.rely hrely⟩
  lost _ h := h

/-- A run in the directory of a record. -/
theorem change_run (hc : Repeatable c site cutoff inv finds) {w : World} (w' : World) {g : Hand}
    (hw : (sharing site inv finds).inv w) {k : Nat} {name : String} {record : RunRecord}
    (hrecord : w.index.runs[k]? = some (name, record)) {e : TaskEnd Result} (hinv : inv w'.host)
    (hindex : w'.index = w.index) (hpool : w'.pool = w.pool) (hg : g.groups ≤ 1)
    (hleaves : Leaves (finds record.kind record.function) record.kind record.function record.folder
      w.host.files e w'.host.files) :
    (sharing site inv finds).Change w w' g g ∧
      ∃ r, e = .returned r ∧ r.kind = record.kind ∧ Owns finds record.function w' k r := by
  refine ⟨.of_same ⟨hinv, hindex ▸ hw.2⟩ ⟨hindex ▸ List.prefix_rfl, ?_⟩ ?_ ?_ hg, ?_⟩
  · intro run hrun hkept
    rcases List.getElem?_of_mem hrun with ⟨j, hj⟩
    by_cases hjk : j = k
    · -- The record itself: its reports have just been left.
      rw [hjk, hrecord] at hj
      cases hj
      exact hleaves.left
    · -- The reports of other records are not in this directory.
      intro f hf hclear
      rcases hc.names run.2.kind run.2.function f hf with ⟨hname, hreport, -⟩
      refine hleaves.others (endsWith_err hname hreport _) ?_ (hkept f hf hclear)
      rw [hw.2 k name record hrecord, hw.2 j run.1 run.2 hj]
      intro hprefix
      have hsame := RunIndex.eq_of_place_prefix hname hprefix
      omega
  · change w'.pool.free.length = _
    rw [hpool]
    rfl
  · change w'.index.size = _
    rw [hindex]
    rfl
  · rcases hleaves.returns with ⟨r, he, hkind, hfunction, hdir, herrors⟩
    refine ⟨r, he, hkind, ⟨(name, record), hindex ▸ hrecord, rfl, hkind.symm, hdir.symm⟩, hfunction,
      ?_, ?_⟩
    · rw [herrors, hkind, hdir]
    · rw [hkind, hdir]
      exact hleaves.left

/-! ## Runs -/

variable {fn : String} {w₀ : World}

theorem runsIn_symbolic (hc : Repeatable c site cutoff inv finds) {run : String → SymbolicRun}
    (hrun : ∀ dir, (run dir).function = fn ∧ (run dir).target = "" ∧ (run dir).outDir = dir) :
    RunsIn (sharing site inv finds) (functionRecord site symbolicKind fn)
      (OwnsAs finds symbolicKind fn) Never fun dir w => w.explore (run dir) c.explore := by
  intro k name dir w g hw hrecord hg
  rcases hrun dir with ⟨hfunction, htarget, houtDir⟩
  rcases hc.symbolic w.journal (run dir) w.host (k + 1) hw.1 htarget
    (houtDir.trans (hw.2 k name _ hrecord)) with ⟨hinv, hleaves⟩
  rw [hfunction, houtDir] at hleaves
  rcases change_run hc (w.explore (run dir) c.explore).2 hw hrecord hinv rfl rfl hg hleaves with
    ⟨hchange, r, he, hkind, howns⟩
  refine ⟨hchange, ?_⟩
  change Came _ _ k (c.explore w.journal (run dir) w.host).1 _
  rw [he]
  exact ⟨hkind, howns⟩

theorem runsIn_fuzz (hc : Repeatable c site cutoff inv finds) (hdriver : fn ∈ site.drivers)
    {run : String → FuzzRun} (hrun : ∀ dir, (run dir).function = fn ∧ (run dir).outDir = dir) :
    RunsIn (sharing site inv finds) (functionRecord site fuzzKind fn) (OwnsAs finds fuzzKind fn)
      Never fun dir => fuzz site (run dir) := by
  intro k name dir w g hw hrecord hg
  rcases hrun dir with ⟨hfunction, houtDir⟩
  rcases hc.fuzz (run dir) w.host (k + 1) hw.1 (hfunction ▸ hdriver)
    (houtDir.trans (hw.2 k name _ hrecord)) with ⟨hinv, hleaves⟩
  rw [hfunction, houtDir] at hleaves
  rcases change_run hc (fuzz site (run dir) w).2 hw hrecord hinv rfl rfl hg hleaves with
    ⟨hchange, r, he, hkind, howns⟩
  cases he
  exact ⟨hchange, hkind, howns⟩

/-- The kind of a run may be left open. -/
theorem RunsIn.anyKind {record : RunRecord} {kind : String}
    {run : String → World → TaskEnd Result × World}
    (h : RunsIn (sharing site inv finds) record (OwnsAs finds kind fn) Never run) :
    RunsIn (sharing site inv finds) record (Owns finds fn) Never run := by
  intro k name dir w g hw hrecord hg
  rcases h k name dir w g hw hrecord hg with ⟨hchange, hcame⟩
  refine ⟨hchange, ?_⟩
  cases he : (run dir w).1 with
  | returned r =>
    rw [he] at hcame
    exact hcame.2
  | nothing =>
    rw [he] at hcame
    exact hcame
  | panicked why =>
    rw [he] at hcame
    exact hcame

theorem sessionSteps_of_repeatable (hc : Repeatable c site cutoff inv finds)
    (hdriver : fn ∈ site.drivers) :
    SessionSteps (sharing site inv finds) c site fn (Owns finds fn) Never where
  marked _ h := ⟨h.reserved, h.function, h.errorFiles, h.left⟩
  symbolic _ hrun := (runsIn_symbolic hc hrun).anyKind
  fuzz _ hrun := (runsIn_fuzz hc hdriver hrun).anyKind
  convert outDir seedDir w g hw hg := by
    rcases hc.convert fn outDir seedDir w.host hw.1 hdriver with ⟨hinv, hkeeps⟩
    exact change_host hc hw hinv rfl rfl hkeeps hg

/-- What a session comes to: a result for each ticket drawn, or one that says that it was told to
stop before its first run. -/
def Finds (finds : String → String → Findings) (fn : String) (tickets : List Nat)
    (e : TaskEnd (List Result)) (w : World) : Prop :=
  ∃ rs, e = .returned rs ∧ (List.Forall₂ (Owns finds fn w) tickets rs ∨
    (tickets = [] ∧ rs = sessionResults fn []))

theorem Finds.of_came {tickets : List Nat} {e : TaskEnd (List Result)} {w : World}
    (h : CameInSession (Owns finds fn) Never fn tickets e w) : Finds finds fn tickets e w := by
  cases e with
  | returned rs => exact ⟨rs, rfl, h⟩
  | nothing => exact h.elim
  | panicked why =>
    rcases h with ⟨_, _, _, _, _, hnever⟩
    exact hnever.elim

/-! ## Analyses -/

/-- What a single run of a backend comes to. -/
def FindsAlone (finds : String → String → Findings) (kind fn : String) (tickets : List Nat)
    (e : TaskEnd (List Result)) (w : World) : Prop :=
  ∃ k r, tickets = [k] ∧ e = .returned [r] ∧ r.kind = kind ∧ Owns finds fn w k r

theorem FindsAlone.of_came {kind : String} {tickets : List Nat} {e : TaskEnd (List Result)}
    {w : World} (h : CameAlone (OwnsAs finds kind fn) Never tickets e w) :
    FindsAlone finds kind fn tickets e w := by
  rcases h with ⟨k, htickets, hcame⟩
  cases e with
  | returned rs =>
    rcases hcame with ⟨r, rfl, hkind, howns⟩
    exact ⟨k, r, htickets, rfl, hkind, howns⟩
  | nothing => exact hcame.elim
  | panicked why => exact hcame.elim

theorem rely_pool (w : World) (pool : GroupPool) :
    (sharing site inv finds).rely w { w with pool := pool } :=
  ⟨List.prefix_rfl, fun _ _ hkept => hkept⟩

/-- A memory group is taken, of which there is one, as nobody is told to stop. -/
theorem shares_takeGroup (hc : Repeatable c site cutoff inv finds) :
    (Job.atomic (c.takeGroup fn)).Shares (sharing site inv finds)
      (fun g' taken _ => g' = { groups := 1 } ∧ ∃ group : MemoryGroup, taken = some group) {}
      w₀ := by
  apply Job.shares_atomic
  intro w _ hw hfree
  have hpos : 0 < w.pool.free.length := hfree rfl
  have hgoing : w.host.canceled = false :=
    Host.canceled_of_not_reached (hc.calm w.host hw.1)
  cases hgroups : w.pool.free with
  | nil => simp [hgroups] at hpos
  | cons group rest =>
    simp only [takeGroup, hgoing, Bool.false_and, Bool.false_eq_true, if_false, GroupPool.acquire,
      hgroups]
    refine ⟨{ groups := 1 }, ⟨hw, rely_pool w _, ?_, Nat.le_refl 1, ?_⟩, rfl, group, rfl⟩
    · simp [sharing, hgroups]
    · simp [sharing]

/-- A memory group is taken, and given back when the job is done. -/
theorem shares_withGroup (hc : Repeatable c site cutoff inv finds)
    {job : MemoryGroup → Job World (TaskEnd (List Result))}
    {post : List Nat → TaskEnd (List Result) → World → Prop}
    (hpost : ∀ ks e w w', (sharing site inv finds).rely w w' → post ks e w → post ks e w')
    (hjob : ∀ group w, (job group).Shares (sharing site inv finds) (Holding 1 post)
      { groups := 1 } w) :
    (c.withGroup fn job).Shares (sharing site inv finds) (Holding 0 post) {} w₀ := by
  have hx := sharing_lawful site inv finds
  refine Job.shares_bind hx (shares_takeGroup hc) ?_
  rintro g' taken w - ⟨rfl, group, rfl⟩
  refine Job.shares_bind hx (hjob group w) ?_
  rintro g' e w' - ⟨hone, hdone⟩
  apply Job.shares_atomic
  intro w'' hrely hw'' _
  refine ⟨{ tickets := g'.tickets }, ⟨hw'', rely_pool w'' _, ?_, Nat.zero_le 1, ?_⟩, rfl,
    hpost _ _ _ _ (hx.trans hrely (rely_pool w'' _)) hdone⟩
  · simp [sharing, GroupPool.release, hone]
  · simp [sharing]

/-- Whether a function is analyzed in a session. -/
def inSession (c : Campaign) (site : Site) (fn : String) : Bool :=
  c.options.useFlipper && site.drivers.contains fn

/-- The backend of a function that is not analyzed in a session. -/
def backendOf (c : Campaign) (site : Site) (fn : String) : String :=
  if c.options.useFuzzer && site.drivers.contains fn then fuzzKind else symbolicKind

/-- What the analysis of a function comes to. -/
def Analyzed (c : Campaign) (site : Site) (finds : String → String → Findings) (fn : String)
    (tickets : List Nat) (e : TaskEnd (List Result)) (w : World) : Prop :=
  if c.inSession site fn then Finds finds fn tickets e w
  else FindsAlone finds (c.backendOf site fn) fn tickets e w

theorem analyzed_of_session (h : c.inSession site fn = true) :
    Analyzed c site finds fn = Finds finds fn := by
  funext ks e w
  simp [Analyzed, h]

theorem analyzed_of_alone (h : c.inSession site fn = false) :
    Analyzed c site finds fn = FindsAlone finds (c.backendOf site fn) fn := by
  funext ks e w
  simp [Analyzed, h]

theorem Finds.rely {ks : List Nat} {e : TaskEnd (List Result)} {w w' : World}
    (hrely : (sharing site inv finds).rely w w') (h : Finds finds fn ks e w) :
    Finds finds fn ks e w' := by
  rcases h with ⟨rs, he, hall | hnone⟩
  · exact ⟨rs, he, Or.inl (hall.imp fun _ _ howns => howns.rely hrely)⟩
  · exact ⟨rs, he, Or.inr hnone⟩

theorem FindsAlone.rely {kind : String} {ks : List Nat} {e : TaskEnd (List Result)} {w w' : World}
    (hrely : (sharing site inv finds).rely w w') (h : FindsAlone finds kind fn ks e w) :
    FindsAlone finds kind fn ks e w' := by
  rcases h with ⟨k, r, hks, he, hkind, howns⟩
  exact ⟨k, r, hks, he, hkind, howns.rely hrely⟩

/-- The analysis of a function plays by the rules. -/
theorem shares_analysis (hc : Repeatable c site cutoff inv finds) :
    (c.analysis site fn).Shares (sharing site inv finds)
      (Holding 0 (Analyzed c site finds fn)) {} w₀ := by
  have hmem : ∀ {b : Bool}, (b && site.drivers.contains fn) = true → fn ∈ site.drivers := by
    intro b hb
    exact List.contains_iff_mem.mp (Bool.and_eq_true_iff.mp hb).2
  have hx := sharing_lawful site inv finds
  have hb := bookkeeping_sharing hc
  unfold analysis
  -- A session of both backends, or a single run of one of them.
  cases hsession : c.options.useFlipper && site.drivers.contains fn with
  | true =>
    rw [analyzed_of_session hsession, if_pos rfl]
    refine shares_withGroup hc (fun _ _ _ _ => Finds.rely) ?_
    intro group w
    have hsteps := sessionSteps_of_repeatable hc (hmem hsession)
    exact Job.shares_mono hx (shares_session hb (lasting_owns fn) hsteps (Nat.le_refl 1))
      fun _ _ _ _ h => h.imp fun _ => Finds.of_came
  | false =>
    rw [analyzed_of_alone hsession, if_neg Bool.false_ne_true]
    unfold backendOf
    split
    · rename_i hfuzz
      refine shares_withGroup hc (fun _ _ _ _ => FindsAlone.rely) ?_
      intro group w
      have hl : Lasting (sharing site inv finds) _ _ := lasting_ownsAs fuzzKind fn
      refine Job.shares_mono hx (shares_single hb hl (Nat.le_refl 1) _ ?_)
        fun _ _ _ _ h => h.imp fun _ => FindsAlone.of_came
      exact shares_run hb (Nat.le_refl 1) (runsIn_fuzz hc (hmem hfuzz) fun dir => ⟨rfl, rfl⟩)
    · have hl : Lasting (sharing site inv finds) _ _ := lasting_ownsAs symbolicKind fn
      refine Job.shares_mono hx (shares_single hb hl (Nat.zero_le 1) _ ?_)
        fun _ _ _ _ h => h.imp fun _ => FindsAlone.of_came
      exact shares_run hb (Nat.zero_le 1) (runsIn_symbolic hc fun dir => ⟨rfl, rfl, rfl⟩)

/-! ## All analyses -/

theorem Analyzed.rely {ks : List Nat} {e : TaskEnd (List Result)} {w w' : World}
    (hrely : (sharing site inv finds).rely w w') (h : Analyzed c site finds fn ks e w) :
    Analyzed c site finds fn ks e w' := by
  cases hsession : c.inSession site fn with
  | true =>
    rw [analyzed_of_session hsession] at h ⊢
    exact h.rely hrely
  | false =>
    rw [analyzed_of_alone hsession] at h ⊢
    exact h.rely hrely

theorem Analyzed.returned {ks : List Nat} {e : TaskEnd (List Result)} {w : World}
    (h : Analyzed c site finds fn ks e w) : ∃ rs, e = .returned rs := by
  cases hsession : c.inSession site fn with
  | true =>
    rw [analyzed_of_session hsession] at h
    rcases h with ⟨rs, he, -⟩
    exact ⟨rs, he⟩
  | false =>
    rw [analyzed_of_alone hsession] at h
    rcases h with ⟨k, r, -, he, -⟩
    exact ⟨[r], he⟩

/-- The task of a function. -/
def analysisTask (c : Campaign) (site : Site) (fn : String) : Task World (List Result) :=
  { name := fn, body := c.analysis site fn }

/-- The results of the analyses of all functions, each with the tickets it has drawn. -/
theorem analyses_deliver (hc : Repeatable c site cutoff inv finds) {w : World} (hinv : inv w.host)
    (hindex : w.index = {}) (hpool : (Scheduler.ofLimit c.limit).limit ≤ w.pool.free.length)
    (hsignals : ∀ signal, .outside signal ∈ c.interleaving 0 → ∀ w : World, inv w.host →
      inv (signal.apply w).host) (functions : List String) :
    let out := c.runBatch cutoff 0 (fun name why => [failedTask name why])
      (functions.map (c.analysisTask site)) w
    out.2.index.Numbered site.dir ∧ ∃ outs : List (List Result × List Nat),
      outs.map (·.1) = out.1 ∧ (outs.flatMap (·.2)).Perm (List.range out.2.index.size) ∧
      List.Forall₂ (fun fn o => Analyzed c site finds fn o.2 (.returned o.1) out.2)
        functions outs := by
  intro out
  have hstart : (sharing site inv finds).inv w := ⟨hinv, hindex ▸ RunIndex.Numbered.empty _⟩
  have hissued : (sharing site inv finds).issued w = 0 := by
    change w.index.size = 0
    rw [hindex]
    rfl
  have hshares := runBatch_shares (sharing_lawful site inv finds) c cutoff 0 functions
    (c.analysisTask site) (fun name why => [failedTask name why]) (Analyzed c site finds) hstart
    hpool (fun fn _ _ => shares_analysis hc) ?_
  · rcases hshares with ⟨hend, -, outs, hresults, htickets, hall⟩
    rw [hissued, Nat.sub_zero, ← List.range_eq_range'] at htickets
    refine ⟨hend.2, outs, hresults, htickets, hall.imp ?_⟩
    rintro fn o (⟨-, w', why, hw', -, hstop, -⟩ | ⟨e, w', hsettle, hrely, hanalyzed⟩)
    · -- No task is refused while the host is calm.
      exact absurd ((hc.calm w'.host hw'.1).symm.trans hstop) nofun
    · rcases hanalyzed.returned with ⟨rs, rfl⟩
      rw [hsettle]
      exact hanalyzed.rely hrely
  · -- A signal changes neither files nor reservations.
    intro signal hsignal w' hw'
    have hinv' := hsignals signal hsignal w' hw'.1
    cases signal with
    | cancel => exact ⟨⟨hinv', hw'.2⟩, ⟨List.prefix_rfl, fun _ _ hkept => hkept⟩, rfl, rfl⟩
    | elapse nanos => exact ⟨⟨hinv', hw'.2⟩, ⟨List.prefix_rfl, fun _ _ hkept => hkept⟩, rfl, rfl⟩

end Campaign
end FaultChain
