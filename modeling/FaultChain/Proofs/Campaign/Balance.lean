import FaultChain.Proofs.Campaign.EntryPoints
import FaultChain.Proofs.Campaign.Ownership
import FaultChain.Proofs.Rehearsal

/-!
# The balance of a campaign

Every report that the results of a campaign list is either registered or dropped, once, and every
call of the second phase is either run or skipped. A registered error is found in the directory of
the one run that has reported it.

Results are what is counted here. A task that does not return leaves a failed result behind, so what
a session has found by then is counted nowhere; its directories have no result.

* `Campaign.Booked.reports_nodup`: no report is listed twice.
* `Campaign.Balanced`: the books of a campaign; `Campaign.Balanced.register` keeps them.
* `Campaign.isolate_balanced`, `Campaign.propagate_balanced`: the phases.
* `Campaign.Tallies`: how the numbers of a summary add up.
* `Campaign.run_balanced`: the main statement.
* `Campaign.CutShort.report_lost`: a session that is cut short, and with it the report of a run.
-/

namespace FaultChain
namespace Campaign

variable {c : Campaign} {site : Site} {dir : RunDir} {w : World} {rs : List Result} {ks : List Nat}

/-! ## Reports -/

theorem reportsOf_append (rs rs' : List Result) :
    reportsOf (rs ++ rs') = reportsOf rs ++ reportsOf rs' :=
  List.flatMap_append

theorem fst_reportsOf (rs : List Result) :
    (reportsOf rs).map (·.1) = rs.flatMap (·.errorFiles) := by
  simp [reportsOf, List.map_flatMap, Function.comp_def]

theorem length_reportsOf (rs : List Result) :
    (reportsOf rs).length = (rs.map (·.errorFiles.length)).sum := by
  simp [reportsOf, List.length_flatMap]

/-- No path leads directly into two reserved directories. -/
theorem index_unique (hw : w.index.Numbered dir) {p : String} {k k' : Nat}
    {run run' : String × RunRecord} (hrun : w.index.runs[k]? = some run)
    (hrun' : w.index.runs[k']? = some run') (hp : Path.Inside run.2.folder p)
    (hp' : Path.Inside run'.2.folder p) : k = k' := by
  rcases hp with ⟨name, hname, rfl⟩
  rcases hp' with ⟨name', hname', heq⟩
  rw [hw k run.1 run.2 hrun, hw k' run'.1 run'.2 hrun', RunIndex.join_nthFolder dir _ _ hname,
    RunIndex.join_nthFolder dir _ _ hname'] at heq
  -- What is in front of the last slash is the directory itself.
  have hcut := congrArg (Text.cutLast '/') heq
  rw [Path.cutLast_slash _ hname.no_slash, Path.cutLast_slash _ hname'.no_slash] at hcut
  have hsame := RunIndex.nthFolder_inj (congrArg Prod.fst (Option.some.inj hcut))
  omega

/-- A listed report is in the directory of a run. -/
theorem Entered.reserved {fn : String} {o : Option Nat} {r : Result} (h : Entered fn w o r)
    {p : String} (hp : p ∈ r.errorFiles) :
    ∃ k run, o = some k ∧ w.index.runs[k]? = some run ∧ run.2.starter = r.function ∧
      Path.Inside run.2.folder p := by
  cases o with
  | none =>
    rw [Bare.errorFiles_eq h] at hp
    cases hp
  | some k =>
    rcases h with ⟨run, hrun, hstarter, hlies⟩
    exact ⟨k, run, rfl, hrun, hstarter.trans hlies.function_eq.symm, hlies.inside p hp⟩

theorem Entered.nodup {fn : String} {o : Option Nat} {r : Result} (h : Entered fn w o r) :
    r.errorFiles.Nodup := by
  cases o with
  | none =>
    rw [Bare.errorFiles_eq h]
    exact List.nodup_nil
  | some k =>
    rcases h with ⟨run, -, -, hlies⟩
    exact hlies.nodup

/-- No report is listed twice. -/
theorem Booked.reports_nodup (hw : w.index.Numbered dir) (h : Booked c w rs ks) (hks : ks.Nodup) :
    ((reportsOf rs).map (·.1)).Nodup := by
  rcases h with ⟨os, hall, ⟨taken, hperm, hsub⟩, -⟩
  have hos : os.reduceOption.Nodup := hperm.nodup_iff.mp (hks.sublist hsub)
  rw [fst_reportsOf]
  clear hperm hsub
  induction hall with
  | nil => exact List.nodup_nil
  | @cons o r os rs ho hall ih =>
    have hrest : os.reduceOption.Nodup := by
      cases o with
      | none => exact hos
      | some k => exact (List.nodup_cons.mp hos).2
    rw [List.flatMap_cons, List.nodup_append']
    refine ⟨ho.nodup, ih hrest, ?_⟩
    intro p hp hp'
    -- The report would be in the directories of two runs.
    rcases List.mem_flatMap.mp hp' with ⟨r', hr', hp'⟩
    rcases exists_of_mem_forall₂ hall hr' with ⟨o', ho', hentered⟩
    rcases ho.reserved hp with ⟨k, run, rfl, hrun, -, hinside⟩
    rcases hentered.reserved hp' with ⟨k', run', rfl, hrun', -, hinside'⟩
    cases index_unique hw hrun hrun' hinside hinside'
    exact (List.nodup_cons.mp hos).1 (List.reduceOption_mem_iff.mpr ho')

theorem Booked.reserved (h : Booked c w rs ks) {q : String × String} (hq : q ∈ reportsOf rs) :
    ∃ (k : Nat) (run : String × RunRecord), w.index.runs[k]? = some run ∧
      run.2.starter = q.2 ∧ Path.Inside run.2.folder q.1 := by
  rcases h with ⟨os, hall, -, -⟩
  rcases List.mem_flatMap.mp hq with ⟨r, hr, hq⟩
  rcases List.mem_map.mp hq with ⟨p, hp, rfl⟩
  rcases exists_of_mem_forall₂ hall hr with ⟨o, -, hentered⟩
  rcases hentered.reserved hp with ⟨k, run, -, hrun, hstarter, hinside⟩
  exact ⟨k, run, hrun, hstarter, hinside⟩

/-! ## The books -/

/-- The books of a campaign: results and directories belong together, and what was registered and
dropped are the reports of the results. -/
structure Balanced (c : Campaign) (dir : RunDir) (s : State) : Prop where
  tidy : s.world.host.Tidy
  numbered : s.world.index.Numbered dir
  booked : Booked c s.world s.results (List.range s.world.index.size)
  indexed : s.registry.Indexed
  handled : s.registry.handled = (reportsOf s.results).length
  origin : ∀ e ∈ s.registry.order, ∃ q ∈ reportsOf s.results,
    e.report = q.1 ∧ e.entry = Report.normalize q.2

/-- What does not matter to the books. -/
theorem Balanced.idle {s s' : State} (h : Balanced c dir s) (hworld : Idles s.world s'.world)
    (hregistry : s'.registry = s.registry) (hresults : s'.results = s.results) :
    Balanced c dir s' where
  tidy := hworld.tidy h.tidy
  numbered := hworld.index ▸ h.numbered
  booked := by
    rw [hresults, hworld.index]
    exact h.booked.mono (hworld.index ▸ List.prefix_rfl)
  indexed := hregistry ▸ h.indexed
  handled := by rw [hregistry, hresults, h.handled]
  origin := by
    rw [hregistry, hresults]
    exact h.origin

theorem results_register (s : State) (rs : List Result) : (register s rs).results = s.results := by
  rcases sameRest_register s rs with ⟨_, _, _, _, heq⟩
  rw [heq]
  rfl

/-- The results of a batch are taken in. -/
theorem Balanced.register {s s' : State} (h : Balanced c dir s)
    (htidy : s'.world.host.Tidy) (hnumbered : s'.world.index.Numbered dir)
    (hruns : s.world.index.runs <+: s'.world.index.runs)
    (hregistry : s'.registry = s.registry) (hresults : s'.results = s.results ++ rs)
    (hbooked : Booked c s'.world rs
      (List.range' s.world.index.size (s'.world.index.size - s.world.index.size))) :
    Balanced c dir (Campaign.register s' rs) := by
  have hle : s.world.index.size ≤ s'.world.index.size := hruns.length_le
  have hall : Booked c s'.world s'.results (List.range s'.world.index.size) := by
    have happend := List.range'_append_1 (s := 0) (m := s.world.index.size)
      (n := s'.world.index.size - s.world.index.size)
    rw [Nat.zero_add, Nat.add_sub_cancel' hle] at happend
    rw [hresults, List.range_eq_range', ← happend, ← List.range_eq_range']
    exact (h.booked.mono hruns).append hbooked
  -- The new reports differ from each other and from those of the earlier results.
  have hdifferent := hall.reports_nodup hnumbered List.nodup_range
  rw [hresults, reportsOf_append, List.map_append] at hdifferent
  rcases List.nodup_append'.mp hdifferent with ⟨-, hnodup, hdisjoint⟩
  -- None of the reports was asked for before.
  have hnew : ∀ q ∈ reportsOf rs, ∀ e ∈ s'.registry.order, e.report ≠ q.1 := by
    intro q hq e he heq
    rw [hregistry] at he
    rcases h.origin e he with ⟨q', hq', hreport, -⟩
    refine hdisjoint (List.mem_map_of_mem hq') ?_
    rw [← hreport, heq]
    exact List.mem_map_of_mem hq
  have hserves := serves_register s' rs
  rcases Registry.handled_serveAll_files (hregistry ▸ h.indexed) hnodup hnew with
    ⟨hindexed, hhandled, horigin⟩
  rw [← hserves.registry] at hindexed hhandled horigin
  have hsame := results_register s' rs
  refine ⟨?_, ?_, ?_, hindexed, ?_, ?_⟩
  · rw [world_register]
    exact htidy
  · rw [world_register]
    exact hnumbered
  · rw [world_register, hsame]
    exact hall
  · rw [hhandled, hsame, hresults, reportsOf_append, List.length_append, hregistry, h.handled]
  · intro e he
    rw [hsame, hresults, reportsOf_append]
    rcases horigin e he with hold | ⟨q, hq, hreport⟩
    · rw [hregistry] at hold
      rcases h.origin e hold with ⟨q, hq, hreport⟩
      exact ⟨q, List.mem_append_left _ hq, hreport⟩
    · exact ⟨q, List.mem_append_right _ hq, hreport⟩

/-! ## The first phase -/

theorem bare_failedTask (fn : String) (why : Failure) : Bare fn (failedTask fn why) :=
  ⟨rfl, rfl, rfl⟩

/-- The books before the first run. -/
theorem balanced_begin (p : Prepared) (htidy : p.world.host.Tidy) (hindex : p.world.index = {}) :
    Balanced c dir (c.opened p site) where
  tidy := htidy
  numbered := by
    change p.world.index.Numbered dir
    rw [hindex]
    exact RunIndex.Numbered.empty dir
  booked := by
    change Booked c p.world [] (List.range p.world.index.size)
    rw [hindex]
    exact .nil _
  indexed := Registry.Indexed.empty _ _
  handled := rfl
  origin := nofun

theorem analyzeAll_balanced (hc : c.Orderly) (cutoff : Host.Cutoff) (functions : List String)
    {s : State} (h : Balanced c site.dir s) (hone : s.phaseOne = []) (htwo : s.phaseTwo = []) :
    Balanced c site.dir (c.analyzeAll site cutoff functions s) := by
  let task : String → Task World (List Result) := fun fn =>
    { name := fn, body := c.analysis site fn }
  let out := c.runBatch cutoff 0 (fun name why => [failedTask name why]) (functions.map task)
    s.world
  rcases runBatch_booked c site cutoff 0 functions task id (fun _ => id)
      (fun name why => [failedTask name why])
      (fun fn _ why => ⟨_, rfl, bare_failedTask fn why, rfl⟩)
      (fun fn _ w => ledger_shares_analysis hc) h.tidy h.numbered with
    ⟨htidy, hnumbered, hruns, hlength, hbooked⟩
  -- Every function comes with its results, so all together are those of the batch.
  have hresults : ((functions.zip out.1).flatMap fun p => id p.2) = out.1.flatten := by
    rw [List.flatMap_def]
    exact congrArg List.flatten (List.map_snd_zip (Nat.le_of_eq hlength))
  rw [hresults] at hbooked
  have hregister : Balanced c site.dir
      (Campaign.register { s with world := out.2, phaseOne := out.1.flatten } out.1.flatten) := by
    refine h.register htidy hnumbered hruns rfl ?_ hbooked
    change out.1.flatten ++ s.phaseTwo = (s.phaseOne ++ s.phaseTwo) ++ out.1.flatten
    rw [hone, htwo, List.append_nil, List.append_nil, List.nil_append]
  exact hregister.idle ⟨rfl, id⟩ rfl rfl

/-- What the first phase leaves as it is. -/
theorem analyzeAll_rest {cutoff : Host.Cutoff} {functions : List String} {s : State} :
    let s' := c.analyzeAll site cutoff functions s
    s'.phaseTwo = s.phaseTwo ∧ s'.skippedCalls = s.skippedCalls ∧
      s'.suitableCalls = s.suitableCalls ∧ s'.deadline = s.deadline := by
  unfold analyzeAll
  dsimp only
  rcases sameRest_register { s with
      world := (c.runBatch cutoff 0 (fun name why => [failedTask name why])
        (functions.map fun f => ({ name := f, body := c.analysis site f } : Task World _))
        s.world).2
      phaseOne := _ } _ with ⟨_, _, _, _, heq⟩
  rw [heq]
  exact ⟨rfl, rfl, rfl, rfl⟩

theorem isolate_balanced (hc : c.Orderly) {s s' : State} (h : Balanced c site.dir s)
    (hone : s.phaseOne = []) (htwo : s.phaseTwo = [])
    (hout : c.isolate site s = (.ok (), s')) :
    Balanced c site.dir s' ∧ s'.phaseTwo = s.phaseTwo ∧ s'.skippedCalls = s.skippedCalls ∧
      s'.suitableCalls = s.suitableCalls ∧ s'.deadline = s.deadline := by
  -- Neither copying the image nor adding entry points touches the books.
  have hR := permits_idles hc.toolchain
  unfold isolate at hout
  dsimp only at hout
  split at hout
  · cases hout
  · rename_i w hcopied
    have hcopy : Idles s.world w := Permits.of_eq
      (hR.files s.world _ fun _ ht => RunDir.tidy_copyFile ht site.dir.program site.dir.symMains)
      hcopied
    split at hout
    · cases hout
    · rename_i w₁ hadded
      have hadd : Idles w w₁ := Permits.of_eq (hR.encapsulateAll _ _ w) hadded
      cases hout
      let fs := site.graph.encapsulable c.options.removeMain
      let s₁ : State := { s with functions := fs, world := w₁ }
      have hs₁ : Balanced c site.dir s₁ := h.idle (hR.trans hcopy hadd) rfl rfl
      have hall := analyzeAll_balanced hc (s.world.host.cutoff s.deadline) fs hs₁ hone htwo
      exact ⟨hall.idle ⟨rfl, id⟩ rfl rfl, analyzeAll_rest (s := s₁)⟩

/-! ## The second phase -/

/-- So many calls were run or skipped. -/
def Covers (s s' : State) (calls : Nat) : Prop :=
  s'.phaseTwo.length + s'.skippedCalls = s.phaseTwo.length + s.skippedCalls + calls ∧
    s'.suitableCalls = s.suitableCalls

theorem Covers.trans {s s' s'' : State} {n m : Nat} (h : Covers s s' n) (h' : Covers s' s'' m) :
    Covers s s'' (n + m) := by
  have hcount := h.1
  have hcount' := h'.1
  refine ⟨?_, h'.2.trans h.2⟩
  omega

theorem runEdges_balanced (hc : c.Orderly) (cutoff : Host.Cutoff) (k : Nat) (es : List Edge)
    {s : State} (h : Balanced c site.dir s) :
    Balanced c site.dir (c.runEdges site cutoff k es s) ∧
      Covers s (c.runEdges site cutoff k es s) es.length := by
  let out := c.runBatch cutoff (k + 1) failedTask (es.map (c.edgeTask site)) s.world
  let results := (es.zip out.1).map fun p => forEdge p.1 p.2
  rcases runBatch_booked c site cutoff (k + 1) es (c.edgeTask site) (fun e => e.call.caller)
      (fun e r => [forEdge e r]) failedTask
      (fun e _ why => ⟨_, rfl, ⟨rfl, rfl, rfl⟩, rfl⟩)
      (fun e _ w => ledger_shares_edgeTask hc e) h.tidy h.numbered with
    ⟨htidy, hnumbered, hruns, hlength, hbooked⟩
  have hresults : ((es.zip out.1).flatMap fun p => [forEdge p.1 p.2]) = results :=
    List.map_eq_flatMap.symm
  rw [hresults] at hbooked
  let s₁ : State := { s with world := out.2, phaseTwo := s.phaseTwo ++ results }
  have hregister : Balanced c site.dir (Campaign.register s₁ results) :=
    h.register htidy hnumbered hruns rfl (List.append_assoc _ _ _).symm hbooked
  refine ⟨hregister, ?_⟩
  -- There is one result for each call.
  have hcount : results.length = es.length := by
    rw [List.length_map, List.length_zip, hlength, Nat.min_self]
  change Covers s (Campaign.register s₁ results) es.length
  rcases sameRest_register s₁ results with ⟨_, _, _, _, heq⟩
  rw [heq]
  refine ⟨?_, rfl⟩
  change (s.phaseTwo ++ results).length + s.skippedCalls = _
  rw [List.length_append, hcount]
  omega

theorem length_edges_le (c : Campaign) (site : Site) (r : Registry) (batch : List Call) :
    (c.edges site r batch).length ≤ batch.length := by
  refine Nat.le_trans (List.length_filter_le _ _) ?_
  rw [List.length_map]

theorem propagateBatch_balanced (hc : c.Orderly) {cutoff : Host.Cutoff} {k : Nat}
    {batch : List Call} {s s' : State} (h : Balanced c site.dir s)
    (hout : c.propagateBatch site cutoff k batch s = (.ok (), s')) :
    Balanced c site.dir s' ∧ (s'.world.host.canceled = false → Covers s s' batch.length) := by
  have hle := length_edges_le c site s.registry batch
  let s₁ : State := { s with
    skippedCalls := s.skippedCalls + (batch.length - (c.edges site s.registry batch).length) }
  have hs₁ : Balanced c site.dir s₁ := h.idle ⟨rfl, id⟩ rfl rfl
  unfold propagateBatch at hout
  dsimp only at hout
  split at hout
  · -- No callee has anything to offer, so all calls are skipped.
    rename_i hempty
    cases hout
    refine ⟨hs₁.idle ⟨rfl, id⟩ rfl rfl, fun _ => ⟨?_, rfl⟩⟩
    have hnone : (c.edges site s.registry batch).length = 0 := by
      rw [List.isEmpty_iff.mp hempty]
      rfl
    change s.phaseTwo.length + (s.skippedCalls +
      (batch.length - (c.edges site s.registry batch).length)) = _
    omega
  · have hbuild : Idles s.world (c.buildImages site k (c.edges site s.registry batch) s.world).2 :=
      (permits_idles hc.toolchain).buildImages _ _ _
    split at hout
    · -- The batch is left out, which only happens once the campaign was told to stop.
      rename_i f w heq
      replace hbuild := Permits.of_eq hbuild heq
      split at hout
      · rename_i hcanceled
        cases hout
        refine ⟨hs₁.idle ⟨hbuild.index, hbuild.tidy⟩ rfl rfl, fun hgo => ?_⟩
        exact absurd (hcanceled.symm.trans hgo) nofun
      · cases hout
    · rename_i w heq
      replace hbuild := Permits.of_eq hbuild heq
      cases hout
      let s₂ : State := { s₁ with world := w }
      have hs₂ : Balanced c site.dir s₂ := hs₁.idle ⟨hbuild.index, hbuild.tidy⟩ rfl rfl
      rcases runEdges_balanced hc cutoff k (c.edges site s.registry batch) hs₂ with
        ⟨hrun, hcovers⟩
      refine ⟨hrun.idle ⟨rfl, id⟩ rfl rfl, fun _ => ⟨?_, hcovers.2⟩⟩
      have hcount : (c.runEdges site cutoff k (c.edges site s.registry batch) s₂).phaseTwo.length +
          (c.runEdges site cutoff k (c.edges site s.registry batch) s₂).skippedCalls =
          s.phaseTwo.length + (s.skippedCalls +
            (batch.length - (c.edges site s.registry batch).length)) +
              (c.edges site s.registry batch).length := hcovers.1
      refine hcount.trans ?_
      omega

theorem propagateAll_balanced (hc : c.Orderly) {h₀ : Host} {deadline : Option Int} {k : Nat}
    {batches : List (List Call)} {s s' : State} (h : Balanced c site.dir s)
    (hle : h₀.Precedes s.world.host)
    (hout : c.propagateAll site (h₀.cutoff deadline) k batches s = (.ok (), s')) :
    Balanced c site.dir s' ∧
      (¬ s'.world.host.IsLate deadline → Covers s s' (batches.map (·.length)).sum) := by
  induction batches generalizing k s with
  | nil =>
    cases hout
    exact ⟨h, fun _ => ⟨rfl, rfl⟩⟩
  | cons batch batches ih =>
    unfold propagateAll at hout
    split at hout
    · rename_i hreached
      cases hout
      exact ⟨h, fun hgo => absurd ((Host.reached?_isSome_iff hle).mp hreached) hgo⟩
    · split at hout
      · cases hout
      · rename_i u s₁ heq
        rcases propagateBatch_balanced hc h heq with ⟨hs₁, hfirst⟩
        have hle₁ := hle.trans
          (propagateBatch_advances (P := fun _ => True) heq hle fun _ _ => trivial).host
        have hle₂ := (propagateAll_advances (P := fun _ => True) hout hle₁
          (Or.inr fun _ _ _ _ => trivial)).host
        rcases ih hs₁ hle₁ hout with ⟨hs', hrest⟩
        refine ⟨hs', fun hgo => ?_⟩
        -- Nobody has stopped the campaign by the end, so nobody had after this batch.
        have hgo₁ : s₁.world.host.canceled = false := by
          cases hcanceled : s₁.world.host.canceled with
          | false => rfl
          | true => exact absurd (Or.inl (hle₂.canceled hcanceled)) hgo
        exact (hfirst hgo₁).trans (hrest hgo)

/-- The second phase of a campaign in which no call was looked at yet. -/
theorem propagate_balanced (hc : c.Orderly) {s s' : State} (h : Balanced c site.dir s)
    (htwo : s.phaseTwo = []) (hskipped : s.skippedCalls = 0) (hsuitable : s.suitableCalls = 0)
    (hout : c.propagate site s = (.ok (), s')) :
    Balanced c site.dir s' ∧ (¬ s'.world.host.IsLate s.deadline →
      s'.phaseTwo.length + s'.skippedCalls = s'.suitableCalls) := by
  unfold propagate at hout
  dsimp only at hout
  generalize hrun : c.propagateAll site _ 0 _ _ = out at hout
  rcases out with ⟨r, s₁⟩
  cases hout
  -- Counting calls and batches changes nothing that is balanced.
  have hstart : Balanced c site.dir { s with
      startTwo := some s.world.host.clock
      batches := (site.graph.batches c.options.removeMain).length
      suitableCalls := s.suitableCalls +
        ((site.graph.batches c.options.removeMain).map (·.length)).foldl (· + ·) 0
      totalCalls := s.totalCalls + callCount site.graph } := h.idle ⟨rfl, id⟩ rfl rfl
  rcases propagateAll_balanced hc hstart (Host.Precedes.refl _) hrun with ⟨hs₁, hcovers⟩
  refine ⟨hs₁.idle ⟨rfl, id⟩ rfl rfl, fun hgo => ?_⟩
  rcases hcovers hgo with ⟨hcount, hsame⟩
  rw [← List.sum_eq_foldl] at hsame
  change s₁.phaseTwo.length + s₁.skippedCalls = s₁.suitableCalls
  simp only [htwo, hskipped, hsuitable, List.length_nil] at hcount hsame
  omega

/-! ## The whole -/

/-- What a campaign has come to by its summary. -/
structure Tallies (c : Campaign) (w : World) (s : State) (sum : Summary) : Prop where
  /-- Each report that a result lists is registered or dropped. -/
  reports : sum.errors + ((sum.dropped.map (·.2)).sum : Nat) =
    ((s.results.map (·.errorFiles.length)).sum : Nat)
  /-- No report is listed twice. -/
  once : (s.results.flatMap (·.errorFiles)).Nodup
  /-- Each suitable call is run or skipped, unless the campaign is told to stop or has a
  deadline. -/
  calls : w.host.canceled = false → ¬ Duration.zero < c.options.runTimeout →
    sum.phaseTwoRuns + sum.skippedCalls = sum.suitableCalls
  /-- The failed functions and calls are those of the failed results. -/
  failed : ∃ names, sum.failed = some names ∧
    names.Perm ((s.results.filter (·.isFailed)).map (·.label))
  /-- The report of a registered error is in the directory of the run that has reported it, and in
  no other one. -/
  owned : ∀ e ∈ s.registry.order, ∃ (k : Nat) (run : String × RunRecord),
    w.index.runs[k]? = some run ∧ Path.Inside run.2.folder e.report ∧
    Report.normalize run.2.starter = e.entry ∧
    ∀ (k' : Nat) (run' : String × RunRecord), w.index.runs[k']? = some run' →
      Path.Inside run'.2.folder e.report → k' = k
  /-- Each directory has its result. Otherwise its run does not return, or it is one of a session
  with such a run, and a failed result stands for the task. -/
  directories : ∀ (k : Nat) (run : String × RunRecord), w.index.runs[k]? = some run →
    (∃ r ∈ s.results, r.outDir = run.2.folder ∧ r.function = run.2.starter) ∨
    (c.Dies run.2 ∨ c.options.useFlipper = true ∧
      ∃ (k' : Nat) (run' : String × RunRecord), w.index.runs[k']? = some run' ∧
        run'.2.starter = run.2.starter ∧ c.Dies run'.2) ∧
    ∃ r ∈ s.results, r.kind = "" ∧ r.isFailed = true ∧ r.errorFiles = [] ∧
      r.function = run.2.starter

theorem Balanced.tallies {s : State} (h : Balanced c site.dir s) (span : Span)
    (hcalls : s.world.host.canceled = false → ¬ Duration.zero < c.options.runTimeout →
      s.phaseTwo.length + s.skippedCalls = s.suitableCalls) :
    c.Tallies (s.world.close span) s (summary site s) where
  reports := by
    have hhandled := h.handled
    rw [length_reportsOf] at hhandled
    change (s.registry.order.length : Int) + ((s.registry.drops.toList.map (·.2)).sum : Nat) = _
    rw [Drops.sum_toList, ← hhandled]
    rfl
  once := by
    rw [← fst_reportsOf]
    exact h.booked.reports_nodup h.numbered List.nodup_range
  calls hgo htimeout := congrArg Int.ofNat (hcalls hgo htimeout)
  failed := ⟨_, rfl, List.mergeSort_perm _ _⟩
  owned e he := by
    rcases h.origin e he with ⟨q, hq, hreport, hentry⟩
    rcases h.booked.reserved hq with ⟨k, run, hrun, hstarter, hinside⟩
    rw [← hreport] at hinside
    refine ⟨k, run, hrun, hinside, by rw [hstarter, hentry], ?_⟩
    intro k' run' hrun' hinside'
    exact index_unique h.numbered hrun' hrun hinside' hinside
  directories k run hrun := by
    rcases h.booked with ⟨os, hall, -, hcomplete⟩
    have hk : k ∈ List.range s.world.index.size :=
      List.mem_range.mpr (List.getElem?_eq_some_iff.mp hrun).1
    -- Each directory is that of a result, or was forgotten with a failed one.
    rcases hcomplete k hk with hmem | ⟨r, hr, hforgotten, hbare, hkind⟩
    · left
      rcases exists_of_mem_forall₂ hall.flip (List.reduceOption_mem_iff.mp hmem) with
        ⟨r, hr, run', hrun', hstarter, hlies⟩
      cases hrun.symm.trans hrun'
      exact ⟨r, hr, hlies.outDir_eq, hstarter.symm⟩
    · right
      have hstands (hstarter : run.2.starter = r.function) : ∃ r ∈ s.results, r.kind = "" ∧
          r.isFailed = true ∧ r.errorFiles = [] ∧ r.function = run.2.starter :=
        ⟨r, hr, hkind, hbare.failed, hbare.errorFiles_eq, hstarter.symm⟩
      rcases hforgotten with ⟨run₁, hrun₁, hstarter, hdies⟩ |
        ⟨hflipper, ⟨k', run', hrun', hstarter', hdies⟩, run₁, hrun₁, hstarter⟩
      · cases hrun.symm.trans hrun₁
        exact ⟨Or.inl hdies, hstands hstarter⟩
      · cases hrun.symm.trans hrun₁
        exact ⟨Or.inr ⟨hflipper, k', run', hrun', hstarter'.trans hstarter.symm, hdies⟩,
          hstands hstarter⟩

theorem deadline_eq_none (h : Host) (htimeout : ¬ Duration.zero < c.options.runTimeout) :
    c.deadline h = none := by
  simp [deadline, htimeout]

/-- Storing the summary does not change what it sums up. -/
theorem finish_same (site : Site) (s : State) :
    (finish site s).1 = summary site s ∧ ∃ w, (finish site s).2.2 = { s with world := w } := by
  unfold finish
  dsimp only
  split
  · exact ⟨rfl, _, rfl⟩
  · exact ⟨rfl, _, rfl⟩

/-- The books at the end of a campaign. -/
theorem runPhases_balanced (hc : c.Orderly) (site : Site) {p : Prepared} (htidy : p.world.host.Tidy)
    (hindex : p.world.index = {}) :
    ((c.runPhases p site).failure = none → (c.runPhases p site).summary.isSome) ∧
      ∀ sum, (c.runPhases p site).summary = some sum → ∃ s,
        (c.runPhases p site).state = some s ∧ (c.runPhases p site).world = s.world ∧
        sum = summary site s ∧ Balanced c site.dir s ∧
        (s.world.host.canceled = false → ¬ Duration.zero < c.options.runTimeout →
          s.phaseTwo.length + s.skippedCalls = s.suitableCalls) := by
  rcases runPhases_cases c p site with
    ⟨f, s, -, hrun⟩ | ⟨s₁, hisolate, ⟨f, s, -, hrun⟩ | ⟨s₂, hpropagate, hrun⟩⟩
  · rw [hrun]
    exact ⟨(nomatch ·), fun _ => (nomatch ·)⟩
  · rw [hrun]
    exact ⟨(nomatch ·), fun _ => (nomatch ·)⟩
  · have hbegin : Balanced c site.dir (c.opened p site) := balanced_begin p htidy hindex
    rcases isolate_balanced hc hbegin rfl rfl hisolate with
      ⟨hs₁, htwo, hskipped, hsuitable, hdeadline⟩
    rcases propagate_balanced hc hs₁ htwo hskipped hsuitable hpropagate with ⟨hs₂, hcount⟩
    have hidle := (permits_idles hc.toolchain).finish site s₂
    have hlater := ((permits_advances c fun _ => False).finish site s₂).host
    rcases finish_same site s₂ with ⟨hsum, w, hsame⟩
    rw [hsame] at hidle hlater
    rw [hrun, hsame]
    refine ⟨fun _ => rfl, ?_⟩
    intro sum hsome
    refine ⟨_, rfl, rfl, ?_, hs₂.idle hidle rfl rfl, ?_⟩
    · rw [← Option.some.inj hsome, hsum]
      rfl
    · intro hgo htimeout
      refine hcount ?_
      rintro (hcanceled | hpassed)
      · rw [hlater.canceled hcanceled] at hgo
        cases hgo
      · -- Without a run timeout there is no deadline.
        rw [hdeadline, opened, deadline_eq_none _ htimeout] at hpassed
        cases hpassed

/-- With the configured tools each directory has its result. -/
theorem Tallies.directories_ofConfig {config : Config} {options : Options} {available : Int}
    {w : World} {s : State} {sum : Summary}
    (h : (ofConfig config options available).Tallies w s sum) {k : Nat} {run : String × RunRecord}
    (hrun : w.index.runs[k]? = some run) :
    ∃ r ∈ s.results, r.outDir = run.2.folder ∧ r.function = run.2.starter := by
  refine (h.directories k run hrun).resolve_right ?_
  rintro ⟨hdies | ⟨-, k', run', -, -, hdies⟩, -⟩
  · exact not_dies_ofConfig _ _ _ _ hdies
  · exact not_dies_ofConfig _ _ _ _ hdies

/-- A campaign that does not fail has a summary, and its numbers add up, whatever the tools do. -/
theorem run_balanced (c : Campaign) (h : Host) (hc : c.Orderly) (hh : h.Tidy) :
    ((c.run h).failure = none → (c.run h).summary.isSome) ∧
      ∀ sum, (c.run h).summary = some sum →
        ∃ s, (c.run h).state = some s ∧ c.Tallies (c.run h).world s sum := by
  -- A campaign that was not prepared fails without a summary.
  cases hout : (c.prepare h).outcome with
  | error f =>
    rcases run_of_unprepared hout with ⟨span, hrun⟩
    rw [hrun]
    exact ⟨(nomatch ·), fun _ => (nomatch ·)⟩
  | ok site =>
    have hprepare := (permits_idles hc.toolchain).prepare h
    have htidy : (c.prepare h).world.host.Tidy := hprepare.tidy hh
    rcases runPhases_balanced hc site htidy hprepare.index with ⟨hsome, hall⟩
    rcases run_of_prepared hout with ⟨span, hrun⟩
    rw [hrun]
    refine ⟨hsome, ?_⟩
    intro sum hsum
    rcases hall sum hsum with ⟨s, hstate, hworld, rfl, hs, hcalls⟩
    rw [hworld]
    exact ⟨s, hstate, hs.tallies span hcalls⟩

end Campaign

/-! ## A session that is cut short -/

namespace Campaign.CutShort

/-- The first run finds an error, and the third run, the second one of the symbolic executor, does
not return. -/
def script : CampaignScript :=
  { graph := [("f", {})]
    reported := [["f"]]
    runs := [("f", [
      { files := [("run.istats", "fl=p.c\nfn=f\n4 4 1\n"),
          ("f.ptr.err", "Error: e\nStack:\n#0 in f () at p.c:4\nInfo:\n")] },
      { dies := true }])] }

def tools : Script :=
  [("cc", [{ create := true }]), ("afl-target", [{ output := "f" }]),
    ("fz", [{ files := [("plot_data", "0, 1, 0, 1, 0, 0, 0%, 0, 0, 1, 1\n")] }])]

def campaign : Campaign :=
  { config :=
      { binaries := { clang := "cc", fuzzCompiler := "cc", fuzzOpt := "cc", fuzzer := "fz" } }
    options := { bitcode := "p", parentDir := ".", useFlipper := true }
    toolchain := script.toolchain
    explore := script.explore
    limit := 1 }

def host : Host := tools.host (FileTree.empty.plant "p" "" false)

/-! The phases are evaluated from where a run directory is set up that has a short name. -/

def dir : RunDir := { parent := ".", root := "r" }

def files : FileTree :=
  { root := .dir [("work", .dir [
      ("bin", .dir [("fz", .file "" true)]),
      ("r", .dir [
        ("bitcode", .dir [("program.bc", .file "" false)]),
        ("fuzz", .dir [
          ("build", .dir [("afl-target", .file "" true)]),
          ("inputdir", .dir [("x", .file "a" false)])]),
        ("klee", .dir [])])])]
    cwd := ["work"] }

def site : Site :=
  { dir := dir
    graph := { nodes := [⟨"f", [], [], false, false⟩], topology := [⟨["f"], false⟩] }
    start := 0
    fuzzer := campaign.fuzzer dir
    drivers := ["f"] }

def prepared : Prepared :=
  { world :=
      { host := { host with files := files }, pool := GroupPool.ofConfig campaign.config 1 }
    dir := some dir
    graph := some site.graph
    outcome := .ok site }

def course : Course := campaign.runPhases prepared site

/-- The report of the first run. -/
def report : String := "r/klee/klee-out-1/f.ptr.err"

theorem tidy_files : files.Tidy where
  root := by
    simp only [files, Entry.tidy_dir_iff, Path.isName_iff, List.forall_mem_cons,
      List.not_mem_nil, Entry.Tidy.file, false_implies, implies_true]
    and_intros <;> decide
  cwd := List.forall_mem_singleton.mpr (Path.isName_iff.mpr (by decide))

set_option maxRecDepth 100000 in
/-- The phases come to their end without a registered or dropped report, and the report is there. -/
theorem report_lost :
    (course.summary.map fun sum => (sum.errors, sum.dropped)) = some (0, []) ∧
      course.world.index.runs.head?.map (fun run => Path.join [run.2.folder, "f.ptr.err"]) =
        some report ∧
      (course.world.host.files.openFile report).toOption.map (·.isSome) = some true ∧
      course.world.host.canceled = false := by
  decide +kernel

theorem run_balanced_cutShort : campaign.Orderly ∧ host.Tidy ∧
    ((campaign.run host).failure = none → (campaign.run host).summary.isSome) ∧
    (∀ sum, (campaign.run host).summary = some sum →
      ∃ s, (campaign.run host).state = some s ∧ campaign.Tallies (campaign.run host).world s sum) ∧
    ∃ sum s, course.summary = some sum ∧ course.state = some s ∧
      (∀ span, campaign.Tallies (course.world.close span) s sum) ∧
      sum.errors = 0 ∧ sum.dropped = [] ∧
      (∃ run ∈ course.world.index.runs, Path.join [run.2.folder, "f.ptr.err"] = report) ∧
      (∃ text, course.world.host.files.openFile report = .ok (some text)) ∧
      course.world.host.canceled = false := by
  have hc : campaign.Orderly := script.orderly rfl rfl
  have hh : host.Tidy := tools.tidy_host (FileTree.Tidy.empty.plant "p" "" false)
  rcases run_balanced campaign host hc hh with ⟨hcomes, hall⟩
  refine ⟨hc, hh, hcomes, hall, ?_⟩
  rcases report_lost with ⟨hsum, hfirst, hthere, hgo⟩
  rcases Option.map_eq_some_iff.mp hsum with ⟨sum, hsome, hnumbers⟩
  have hprepared : prepared.world.host.Tidy := ⟨tidy_files, hh.programs⟩
  rcases (runPhases_balanced hc site hprepared rfl).2 sum hsome with
    ⟨s, hstate, hworld, rfl, hs, hcalls⟩
  rcases Option.map_eq_some_iff.mp hfirst with ⟨run, hrun, hfolder⟩
  rcases Except.exists_of_toOption_map hthere with ⟨opened, hopened, hfile⟩
  rcases Option.isSome_iff_exists.mp hfile with ⟨text, rfl⟩
  refine ⟨_, s, hsome, hstate, ?_, congrArg (·.1) hnumbers, congrArg (·.2) hnumbers,
    ⟨run, List.mem_of_head? hrun, hfolder⟩, ⟨text, hopened⟩, hgo⟩
  intro span
  rw [show course.world = s.world from hworld]
  exact hs.tallies span hcalls

end Campaign.CutShort
end FaultChain
