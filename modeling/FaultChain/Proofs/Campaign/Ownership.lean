import Mathlib.Data.List.ReduceOption
import FaultChain.Campaign.Tools
import FaultChain.Proofs.Campaign.Advances
import FaultChain.Proofs.Campaign.Bookkeeping
import FaultChain.Proofs.Tools

/-!
# Runs own their directories

In both phases the reports of a result are in the directory that its run has reserved, and no other
result has reports there. A directory that no result refers to was reserved by a task that did not
return.

* `Campaign.Orderly`: what is asked of the tools; `Campaign.orderly_ofConfig`,
  `Campaign.labels_ofConfig` are about the configured ones.
* `Campaign.ledger`: how a campaign is shared.
* `Campaign.Booked`: results and directories belong together.
* `Campaign.runBatch_booked`: a batch of analyses or of calls.
-/

namespace FaultChain
namespace Campaign

/-! ## What is asked of the tools -/

/-- The tools leave the host tidy, and a result of the symbolic executor is one of the run it was
started for: its reports are different files in the directory of that run. It need not return. -/
structure Orderly (c : Campaign) : Prop where
  toolchain : c.toolchain.Tidy
  explore : ∀ journal (run : SymbolicRun) h, h.Tidy → (c.explore journal run h).2.Tidy ∧
    ∀ r, (c.explore journal run h).1 = .returned r → r.LiesIn run.function run.outDir

/-- The run of a record does not return. -/
def Dies (c : Campaign) (record : RunRecord) : Prop :=
  ∃ journal run h, run.function = record.starter ∧ run.outDir = record.folder ∧
    ∀ r, (c.explore journal run h).1 ≠ .returned r

/-- Configured tools are such, whatever the programs do. -/
theorem orderly_ofConfig (config : Config) (options : Options) (available : Int) :
    (ofConfig config options available).Orderly where
  toolchain := (Compiler.ofConfig config).tidy_toolchain
  explore _ run h hh := by
    rcases (Executor.ofConfig config).liesIn_run hh run with ⟨htidy, hlies⟩
    refine ⟨htidy, ?_⟩
    rintro r ⟨⟩
    exact hlies

theorem not_dies_ofConfig (config : Config) (options : Options) (available : Int)
    (record : RunRecord) : ¬ (ofConfig config options available).Dies record := by
  rintro ⟨journal, run, h, -, -, hnot⟩
  exact hnot _ rfl

/-- Configured tools say of what kind their runs are. -/
theorem labels_ofConfig (config : Config) (options : Options) (available : Int) (site : Site)
    (function : String) :
    Session.Labels ((ofConfig config options available).sessionHost site function) where
  symbolic run w r hr := by
    have hreturned : TaskEnd.returned ((Executor.ofConfig config).run run w.host).1 =
        .returned r := hr
    rw [← TaskEnd.returned.inj hreturned]
    exact Executor.kind_run _ _ _
  fuzz run w r hr := by
    have hreturned : TaskEnd.returned (site.fuzzer.run run w.host).1 = .returned r := hr
    rw [← TaskEnd.returned.inj hreturned]
    exact site.fuzzer.kind_run _ _

/-! ## How a campaign is shared -/

variable {c : Campaign} {site : Site} {n : Nat}

/-- How a campaign is shared: the host stays tidy, and the number of a reserved directory is a
ticket. Memory groups do not matter here. -/
def ledger (dir : RunDir) (n : Nat) : Sharing World where
  inv w := w.host.Tidy ∧ w.index.Numbered dir
  rely w w' := w.index.runs <+: w'.index.runs
  free _ := n
  issued w := w.index.size

theorem ledger_lawful (dir : RunDir) (n : Nat) : (ledger dir n).Lawful where
  refl _ := List.prefix_rfl
  trans h h' := h.trans h'
  issued_le h := h.length_le

/-- The run of a function that has reserved a directory does not return. -/
def Lost (c : Campaign) (fn : String) (w : World) (k : Nat) : Prop :=
  ∃ run, w.index.runs[k]? = some run ∧ run.2.starter = fn ∧ c.Dies run.2

/-- Nothing comes of a directory: its run does not return, or it is one of a session in which a run
does not return. -/
def Forgotten (c : Campaign) (fn : String) (w : World) (k : Nat) : Prop :=
  Lost c fn w k ∨ c.options.useFlipper = true ∧ (∃ k', Lost c fn w k') ∧
    ∃ run, w.index.runs[k]? = some run ∧ run.2.starter = fn

/-- A result is that of the run of a function that has reserved a directory. -/
def Filed (fn : String) (w : World) (k : Nat) (r : Result) : Prop :=
  ∃ run, w.index.runs[k]? = some run ∧ run.2.starter = fn ∧ r.LiesIn fn run.2.folder

theorem Filed.mono {fn : String} {w w' : World} {k : Nat} {r : Result} (h : Filed fn w k r)
    (hruns : w.index.runs <+: w'.index.runs) : Filed fn w' k r := by
  rcases h with ⟨run, hrun, hstarter, hlies⟩
  exact ⟨run, getElem?_of_prefix hruns hrun, hstarter, hlies⟩

theorem Lost.mono {fn : String} {w w' : World} {k : Nat} (h : Lost c fn w k)
    (hruns : w.index.runs <+: w'.index.runs) : Lost c fn w' k := by
  rcases h with ⟨run, hrun, hdies⟩
  exact ⟨run, getElem?_of_prefix hruns hrun, hdies⟩

theorem Forgotten.mono {fn : String} {w w' : World} {k : Nat} (h : Forgotten c fn w k)
    (hruns : w.index.runs <+: w'.index.runs) : Forgotten c fn w' k := by
  rcases h with hlost | ⟨hflipper, ⟨k', hlost⟩, run, hrun, hstarter⟩
  · exact Or.inl (hlost.mono hruns)
  · exact Or.inr ⟨hflipper, ⟨k', hlost.mono hruns⟩, run, getElem?_of_prefix hruns hrun, hstarter⟩

theorem lasting_ledger (fn : String) : Lasting (ledger site.dir n) (Filed fn) (Lost c fn) where
  own hruns h := h.mono hruns
  lost hruns h := h.mono hruns

/-- A step that changes nothing but the host. -/
theorem ledger_change_host {w w' : World} {g : Hand} (hw : (ledger site.dir n).inv w)
    (htidy : w'.host.Tidy) (hindex : w'.index = w.index) (hg : g.groups ≤ 1) :
    (ledger site.dir n).Change w w' g g := by
  refine .of_same ⟨htidy, hindex ▸ hw.2⟩ ?_ rfl ?_ hg
  · change w.index.runs <+: w'.index.runs
    exact hindex ▸ List.prefix_rfl
  · exact congrArg RunIndex.size hindex

theorem bookkeeping_ledger : Bookkeeping (ledger site.dir n) site.dir where
  lawful := ledger_lawful site.dir n
  runs h := h
  close _ hw hg := ledger_change_host hw hw.1 rfl hg
  reserve {w g} record hw hg := by
    refine ⟨⟨?_, ?_⟩, ?_, rfl, hg, ?_⟩
    · exact hw.1.withFiles (RunIndex.tidy_store hw.1.files _ _)
    · exact hw.2.reserve record
    · exact List.prefix_append _ _
    · have hone : (ledger site.dir n).issued (w.reserve site.dir record).2 -
          (ledger site.dir n).issued w = 1 := by
        simp [ledger, World.reserve, RunIndex.reserve_eq, RunIndex.size]
      rw [hone]
      rfl

/-! ## Runs -/

theorem runsIn_explore (hc : c.Orderly) (record : RunRecord) {run : String → SymbolicRun}
    (hrun : ∀ dir, (run dir).function = record.starter ∧ (run dir).outDir = dir) :
    RunsIn (ledger site.dir n) record (Filed record.starter) (Lost c record.starter)
      fun dir w => w.explore (run dir) c.explore := by
  intro k name dir w g hw hrecord hg
  rcases hrun dir with ⟨hfunction, houtDir⟩
  rcases hc.explore w.journal (run dir) w.host hw.1 with ⟨htidy, hlies⟩
  refine ⟨ledger_change_host hw (.becoming _ htidy) rfl hg, ?_⟩
  change Came _ _ k (c.explore w.journal (run dir) w.host).1 _
  -- Without a result the run is known to have died, and its directory is lost.
  cases he : (c.explore w.journal (run dir) w.host).1 with
  | returned r =>
    have hr := hlies r he
    rw [hfunction, houtDir] at hr
    exact ⟨_, hrecord, rfl, hr⟩
  | nothing =>
    exact ⟨_, hrecord, rfl, w.journal, run dir, w.host, hfunction, houtDir, he ▸ nofun⟩
  | panicked why =>
    exact ⟨_, hrecord, rfl, w.journal, run dir, w.host, hfunction, houtDir, he ▸ nofun⟩

theorem ledger_runsIn_fuzz {fn : String} {run : String → FuzzRun}
    (hrun : ∀ dir, (run dir).function = fn ∧ (run dir).outDir = dir) :
    RunsIn (ledger site.dir n) (functionRecord site fuzzKind fn) (Filed fn) (Lost c fn)
      fun dir => fuzz site (run dir) := by
  intro k name dir w g hw hrecord hg
  rcases hrun dir with ⟨hfunction, houtDir⟩
  rcases site.fuzzer.liesIn_run hw.1 (run dir) with ⟨htidy, hlies⟩
  rw [hfunction, houtDir] at hlies
  exact ⟨ledger_change_host hw (.becoming _ htidy) rfl hg, _, hrecord, rfl, hlies⟩

theorem sessionSteps_ledger (hc : c.Orderly) (fn : String) :
    SessionSteps (ledger site.dir n) c site fn (Filed fn) (Lost c fn) where
  marked _ h := by
    rcases h with ⟨run, hrun, hstarter, hlies⟩
    exact ⟨run, hrun, hstarter, hlies.function_eq, hlies.outDir_eq, hlies.nodup, hlies.inside⟩
  symbolic _ hrun := runsIn_explore hc _ fun dir => ⟨(hrun dir).1, (hrun dir).2.2⟩
  fuzz _ hrun := ledger_runsIn_fuzz hrun
  convert outDir seedDir _ _ hw hg := by
    have htidy := site.fuzzer.tidy_convertQueue hw.1 fn outDir seedDir
    exact ledger_change_host hw (.becoming _ htidy) rfl hg

/-! ## Tasks -/

/-- A result without a directory: no run has returned it, and it has no reports. -/
structure Bare (fn : String) (r : Result) : Prop where
  function_eq : r.function = fn
  failed : r.isFailed = true
  errorFiles_eq : r.errorFiles = []

/-- Where a result comes from: the run that has drawn a ticket, or none. -/
def Entered (fn : String) (w : World) : Option Nat → Result → Prop
  | some k, r => Filed fn w k r
  | none, r => Bare fn r

theorem Entered.mono {fn : String} {w w' : World} {o : Option Nat} {r : Result}
    (h : Entered fn w o r) (hruns : w.index.runs <+: w'.index.runs) : Entered fn w' o r := by
  cases o with
  | none => exact h
  | some k => exact Filed.mono h hruns

/-- What a task for a function comes to: a result for each ticket drawn and perhaps some without
one, or nothing for its tickets. -/
def Settles {α : Type} (c : Campaign) (view : α → List Result) (fn : String) (tickets : List Nat)
    (e : TaskEnd α) (w : World) : Prop :=
  match e with
  | .returned a => ∃ os : List (Option Nat), os.reduceOption = tickets ∧
      List.Forall₂ (Entered fn w) os (view a)
  | .nothing => ∀ k ∈ tickets, Forgotten c fn w k
  | .panicked _ => ∀ k ∈ tickets, Forgotten c fn w k

theorem Settles.mono {α : Type} {view : α → List Result} {fn : String} {tickets : List Nat}
    {e : TaskEnd α} {w w' : World} (h : Settles c view fn tickets e w)
    (hruns : w.index.runs <+: w'.index.runs) : Settles c view fn tickets e w' := by
  cases e with
  | returned a =>
    rcases h with ⟨os, htickets, hall⟩
    exact ⟨os, htickets, hall.imp fun _ _ ho => ho.mono hruns⟩
  | nothing => exact fun k hk => (h k hk).mono hruns
  | panicked why => exact fun k hk => (h k hk).mono hruns

theorem reduceOption_map_some (ks : List Nat) : (ks.map some).reduceOption = ks := by
  simp [List.reduceOption]

theorem Settles.of_filed {α : Type} {view : α → List Result} {fn : String} {ks : List Nat} {a : α}
    {w : World} (h : List.Forall₂ (Filed fn w) ks (view a)) :
    Settles c view fn ks (.returned a) w :=
  ⟨ks.map some, reduceOption_map_some ks, List.forall₂_map_left_iff.mpr h⟩

/-- A single result that says why no run was started. -/
theorem Settles.of_bare {α : Type} {view : α → List Result} {fn : String} {a : α} {r : Result}
    {w : World} (hview : view a = [r]) (h : Bare fn r) : Settles c view fn [] (.returned a) w :=
  ⟨[none], rfl, hview ▸ .cons h .nil⟩

theorem Settles.of_alone {fn : String} {tickets : List Nat} {e : TaskEnd (List Result)} {w : World}
    (h : CameAlone (Filed fn) (Lost c fn) tickets e w) : Settles c id fn tickets e w := by
  rcases h with ⟨k, rfl, hcame⟩
  cases e with
  | returned rs =>
    rcases hcame with ⟨r, rfl, hfiled⟩
    exact .of_filed (.cons hfiled .nil)
  | nothing => exact List.forall_mem_singleton.mpr (Or.inl hcame)
  | panicked why => exact List.forall_mem_singleton.mpr (Or.inl hcame)

theorem Settles.of_session {fn : String} {tickets : List Nat} {e : TaskEnd (List Result)}
    {w : World} (hflipper : c.options.useFlipper = true)
    (h : CameInSession (Filed fn) (Lost c fn) fn tickets e w) : Settles c id fn tickets e w := by
  cases e with
  | returned rs =>
    rcases h with hall | ⟨rfl, rfl⟩
    · exact .of_filed hall
    · exact .of_bare rfl ⟨rfl, rfl, rfl⟩
  | nothing => exact h.elim
  | panicked why =>
    rcases h with ⟨ks, rs, k, rfl, hall, hlost⟩
    intro k' hk'
    rcases List.mem_append.mp hk' with hbefore | hlast
    · -- The results of the runs before are left behind with their directories.
      rcases exists_of_mem_forall₂ hall.flip hbefore with ⟨r, -, run, hrun, hstarter, -⟩
      exact Or.inr ⟨hflipper, ⟨k, hlost⟩, run, hrun, hstarter⟩
    · exact Or.inl (List.mem_singleton.mp hlast ▸ hlost)

section

variable {fn : String} {w₀ : World}

/-- Taking a memory group changes nothing that matters here. -/
theorem ledger_shares_takeGroup :
    (Job.atomic (c.takeGroup fn)).Shares (ledger site.dir n) (fun g' _ _ => g' = {}) {} w₀ := by
  apply Job.shares_atomic
  intro w _ hw _
  unfold takeGroup
  split
  · exact ⟨{}, ledger_change_host hw hw.1 rfl (Nat.zero_le 1), rfl⟩
  · cases w.pool.acquire with
    | none => exact ⟨{}, ledger_change_host hw hw.1 rfl (Nat.zero_le 1), rfl⟩
    | some taken => exact ⟨{}, ledger_change_host hw hw.1 rfl (Nat.zero_le 1), rfl⟩

/-- A memory group may be taken in between, or there is none. -/
theorem shares_grouped {job : MemoryGroup → Job World (TaskEnd (List Result))}
    (hjob : ∀ group w, (job group).Shares (ledger site.dir n) (Holding 0 (Settles c id fn)) {} w) :
    (c.withGroup fn job).Shares (ledger site.dir n) (Holding 0 (Settles c id fn)) {} w₀ := by
  have hx := ledger_lawful site.dir n
  refine Job.shares_bind hx ledger_shares_takeGroup ?_
  rintro g' taken w - rfl
  cases taken with
  | none => exact Job.shares_pure ⟨rfl, .of_bare rfl ⟨rfl, rfl, rfl⟩⟩
  | some group =>
    refine Job.shares_bind hx (hjob group w) ?_
    rintro g' e w' - ⟨hnone, hsettles⟩
    apply Job.shares_atomic
    intro w'' hrely hw'' _
    have hg' : g'.groups ≤ 1 := hnone ▸ Nat.zero_le 1
    refine ⟨g', ledger_change_host hw'' hw''.1 rfl hg', hnone, ?_⟩
    exact hsettles.mono hrely

/-- The analysis of a function. -/
theorem ledger_shares_analysis (hc : c.Orderly) :
    (c.analysis site fn).Shares (ledger site.dir n) (Holding 0 (Settles c id fn)) {} w₀ := by
  have hx := ledger_lawful site.dir n
  have hb : Bookkeeping (ledger site.dir n) site.dir := bookkeeping_ledger
  have hl : Lasting (ledger site.dir n) (Filed fn) (Lost c fn) := lasting_ledger fn
  unfold analysis
  split
  -- Only sessions run several backends in turn, each in a directory of its own.
  · rename_i hsession
    have hflipper : c.options.useFlipper = true := (Bool.and_eq_true_iff.mp hsession).1
    refine shares_grouped fun group w => ?_
    exact Job.shares_mono hx
      (shares_session hb hl (sessionSteps_ledger hc fn) (Nat.zero_le 1))
      fun _ _ _ _ h => h.imp fun _ => Settles.of_session hflipper
  · split
    · refine shares_grouped fun group w => ?_
      refine Job.shares_mono hx (shares_single hb hl (Nat.zero_le 1) _ ?_)
        fun _ _ _ _ h => h.imp fun _ => Settles.of_alone
      exact shares_run hb (Nat.zero_le 1) (ledger_runsIn_fuzz fun dir => ⟨rfl, rfl⟩)
    · refine Job.shares_mono hx (shares_single hb hl (Nat.zero_le 1) _ ?_)
        fun _ _ _ _ h => h.imp fun _ => Settles.of_alone
      exact shares_run hb (Nat.zero_le 1)
        (runsIn_explore hc (functionRecord site symbolicKind fn) fun dir => ⟨rfl, rfl⟩)

theorem liesIn_forEdge {e : Edge} {dir : String} {r : Result} (h : r.LiesIn e.call.caller dir) :
    (forEdge e r).LiesIn e.call.caller dir := by
  unfold forEdge
  split
  · exact ⟨rfl, h.outDir_eq, h.nodup, h.inside⟩
  · exact h

/-- The run of a call. -/
theorem ledger_shares_edgeTask (hc : c.Orderly) (e : Edge) :
    (c.edgeTask site e).body.Shares (ledger site.dir n)
      (Holding 0 (Settles c (fun r => [forEdge e r]) e.call.caller)) {} w₀ := by
  have hx := ledger_lawful site.dir n
  have hb : Bookkeeping (ledger site.dir n) site.dir := bookkeeping_ledger
  let run : String → SymbolicRun := fun dir =>
    { image := e.image
      function := e.call.caller
      outDir := dir
      target := e.call.callee
      flags := c.options.backendFlags
      posixFlags := c.options.posixFlags
      timeout := c.options.maxTime }
  let record : RunRecord := { edgeRecord e with kind := symbolicKind }
  have hstarter : record.starter = e.call.caller := starter_edgeRecord e
  have hrun : RunsIn (ledger site.dir n) record (Filed e.call.caller) (Lost c e.call.caller)
      fun dir w => w.explore (run dir) c.explore := by
    rw [← hstarter]
    exact runsIn_explore hc record fun dir => ⟨hstarter.symm, rfl⟩
  refine Job.shares_mono hx
    (shares_traced hb (lasting_ledger e.call.caller) (Nat.zero_le 1) _
      (shares_run hb (Nat.zero_le 1) hrun)) ?_
  rintro g' out w - ⟨k, rfl, hcame⟩
  refine ⟨rfl, ?_⟩
  -- A call gives one result, of its run or in place of it.
  cases out with
  | returned r =>
    rcases hcame with ⟨run, hrun, hstarter, hlies⟩
    exact .of_filed (.cons ⟨run, hrun, hstarter, liesIn_forEdge hlies⟩ .nil)
  | nothing => exact List.forall_mem_singleton.mpr (Or.inl hcame)
  | panicked why => exact List.forall_mem_singleton.mpr (Or.inl hcame)

end

/-! ## Batches -/

/-- A directory was reserved by a task that did not return; a failed result stands for the task. -/
def Missed (c : Campaign) (w : World) (rs : List Result) (k : Nat) : Prop :=
  ∃ r ∈ rs, Forgotten c r.function w k ∧ Bare r.function r ∧ r.kind = ""

/-- Results and directories belong together: no two results have the same directory, and to each
directory belongs a result, unless the task that has reserved it did not return. -/
def Booked (c : Campaign) (w : World) (rs : List Result) (ks : List Nat) : Prop :=
  ∃ os : List (Option Nat), List.Forall₂ (fun o r => Entered r.function w o r) os rs ∧
    os.reduceOption.Subperm ks ∧ ∀ k ∈ ks, k ∈ os.reduceOption ∨ Missed c w rs k

theorem Missed.mono {w w' : World} {rs rs' : List Result} {k : Nat} (h : Missed c w rs k)
    (hruns : w.index.runs <+: w'.index.runs) (hrs : ∀ r ∈ rs, r ∈ rs') : Missed c w' rs' k := by
  rcases h with ⟨r, hr, hforgotten, hbare⟩
  exact ⟨r, hrs r hr, hforgotten.mono hruns, hbare⟩

namespace Booked

variable {w w' : World} {rs rs' : List Result} {ks ks' : List Nat}

theorem nil (w : World) : Booked c w [] [] := ⟨[], .nil, List.Subperm.refl _, nofun⟩

theorem mono (h : Booked c w rs ks) (hruns : w.index.runs <+: w'.index.runs) :
    Booked c w' rs ks := by
  rcases h with ⟨os, hall, hsub, hcomplete⟩
  refine ⟨os, hall.imp fun _ _ ho => ho.mono hruns, hsub, ?_⟩
  intro k hk
  exact (hcomplete k hk).imp id fun hmissed => hmissed.mono hruns fun _ hr => hr

theorem perm (h : Booked c w rs ks) (hks : ks.Perm ks') : Booked c w rs ks' := by
  rcases h with ⟨os, hall, hsub, hcomplete⟩
  exact ⟨os, hall, hsub.trans hks.subperm, fun k hk => hcomplete k (hks.mem_iff.mpr hk)⟩

theorem append (h : Booked c w rs ks) (h' : Booked c w rs' ks') :
    Booked c w (rs ++ rs') (ks ++ ks') := by
  rcases h with ⟨os, hall, hsub, hcomplete⟩
  rcases h' with ⟨os', hall', hsub', hcomplete'⟩
  refine ⟨os ++ os', List.rel_append hall hall', ?_, ?_⟩
  · rw [List.reduceOption_append]
    exact hsub.append hsub'
  · intro k hk
    rw [List.reduceOption_append]
    rcases List.mem_append.mp hk with hk | hk
    · exact (hcomplete k hk).imp (List.mem_append_left _) fun hmissed =>
        hmissed.mono List.prefix_rfl fun _ => List.mem_append_left _
    · exact (hcomplete' k hk).imp (List.mem_append_right _) fun hmissed =>
        hmissed.mono List.prefix_rfl fun _ => List.mem_append_right _

end Booked

theorem Entered.function_eq {fn : String} {w : World} {o : Option Nat} {r : Result}
    (h : Entered fn w o r) : r.function = fn := by
  cases o with
  | none => exact Bare.function_eq h
  | some k =>
    rcases h with ⟨run, -, -, hlies⟩
    exact hlies.function_eq

/-- A failed result stands for a task that did not return. -/
theorem Booked.of_missed {fn : String} {w : World} {r : Result} {ks : List Nat}
    (hbare : Bare fn r) (hkind : r.kind = "") (hforgotten : ∀ k ∈ ks, Forgotten c fn w k) :
    Booked c w [r] ks := by
  rw [← hbare.function_eq] at hforgotten hbare
  refine ⟨[none], .cons hbare .nil, List.nil_subperm, ?_⟩
  intro k hk
  exact Or.inr ⟨r, List.mem_singleton_self r, hforgotten k hk, hbare, hkind⟩

/-- The results of one task. -/
theorem Booked.of_delivers {α : Type} {view : α → List Result} {fn : String} {w : World}
    {d : Dispatch World α} {t : Task World α} {dir : RunDir} {n : Nat}
    (hfallback : ∀ why, ∃ r, view (d.fallback t.name why) = [r] ∧ Bare fn r ∧ r.kind = "")
    {o : α × List Nat} (h : Batch.Delivers (ledger dir n) d (fun _ => Settles c view fn) w t o) :
    Booked c w (view o.1) o.2 := by
  have hlost : ∀ why, (∀ k ∈ o.2, Forgotten c fn w k) →
      Booked c w (view (d.fallback t.name why)) o.2 := by
    intro why hforgotten
    rcases hfallback why with ⟨r, hview, hbare, hkind⟩
    rw [hview]
    exact .of_missed hbare hkind hforgotten
  rcases h with ⟨hnone, w', why, -, -, -, ho⟩ | ⟨e, w', ho, hruns, hsettles⟩
  · -- A refused task has drawn no ticket.
    rw [ho]
    exact hlost _ (hnone ▸ nofun)
  · replace hsettles := hsettles.mono hruns
    rw [ho]
    cases e with
    | returned a =>
      rcases hsettles with ⟨os, hos, hall⟩
      refine ⟨os, hall.imp fun o r ho => ?_, hos ▸ List.Subperm.refl _, fun k hk => ?_⟩
      · exact ho.function_eq.symm ▸ ho
      · exact Or.inl (hos ▸ hk)
    | nothing => exact hlost _ hsettles
    | panicked why => exact hlost _ hsettles

/-- The results of all tasks. -/
theorem Booked.of_all {ι α : Type} {view : ι → α → List Result} {w : World} {items : List ι}
    {outs : List (α × List Nat)}
    (h : List.Forall₂ (fun i o => Booked c w (view i o.1) o.2) items outs) :
    Booked c w ((items.zip (outs.map (·.1))).flatMap fun p => view p.1 p.2)
      (outs.flatMap (·.2)) := by
  induction h with
  | nil => exact .nil w
  | cons hfirst _ ih => exact hfirst.append ih

/-- The results of a batch and the directories reserved meanwhile. -/
theorem runBatch_booked (c : Campaign) (site : Site) (cutoff : Host.Cutoff) (k : Nat) {ι α : Type}
    (items : List ι) (task : ι → Task World α) (fn : ι → String) (view : ι → α → List Result)
    (fallback : String → Failure → α) {w : World}
    (hfallback : ∀ i ∈ items, ∀ why, ∃ r, view i (fallback (task i).name why) = [r] ∧
      Bare (fn i) r ∧ r.kind = "")
    (hbody : ∀ i ∈ items, ∀ w, (task i).body.Shares
      (ledger site.dir (Scheduler.ofLimit c.limit).limit)
      (Holding 0 (Settles c (view i) (fn i))) {} w)
    (htidy : w.host.Tidy) (hnumbered : w.index.Numbered site.dir) :
    let out := c.runBatch cutoff k fallback (items.map task) w
    out.2.host.Tidy ∧ out.2.index.Numbered site.dir ∧ w.index.runs <+: out.2.index.runs ∧
      out.1.length = items.length ∧
      Booked c out.2 ((items.zip out.1).flatMap fun p => view p.1 p.2)
        (List.range' w.index.size (out.2.index.size - w.index.size)) := by
  intro out
  have hshares := runBatch_shares (ledger_lawful site.dir _) c cutoff k items task fallback
    (fun i => Settles c (view i) (fn i)) ⟨htidy, hnumbered⟩ (Nat.le_refl _) hbody ?_
  · rcases hshares with ⟨⟨htidy', hnumbered'⟩, hruns, outs, hresults, htickets, hall⟩
    have hout : out.1 = outs.map (·.1) := hresults.symm
    refine ⟨htidy', hnumbered', hruns, ?_, ?_⟩
    · rw [hout, List.length_map, hall.length_eq]
    · rw [hout]
      refine Booked.perm (Booked.of_all ((forall₂_mem hall).imp ?_)) htickets
      rintro i o ⟨hdelivers, hi, -⟩
      exact .of_delivers (hfallback i hi) hdelivers
  · -- A signal changes neither files nor reservations.
    intro signal _ w' hw'
    cases signal with
    | cancel => exact ⟨⟨⟨hw'.1.files, hw'.1.programs⟩, hw'.2⟩, List.prefix_rfl, rfl, rfl⟩
    | elapse nanos => exact ⟨⟨⟨hw'.1.files, hw'.1.programs⟩, hw'.2⟩, List.prefix_rfl, rfl, rfl⟩

end Campaign
end FaultChain
