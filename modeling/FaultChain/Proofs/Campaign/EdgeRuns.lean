import FaultChain.Proofs.Campaign.Advances
import FaultChain.Proofs.Campaign.Images
import FaultChain.Proofs.Campaign.Registration
import FaultChain.Proofs.Work.Batch

/-!
# Runs of the calls of a batch

Once the images of a batch are built, its calls are run in any order the workers find.

* `Campaign.Obliges`: what is asked of a run.
* `Campaign.Supported`: what a batch may rely on at each of its moments.
* `Campaign.Underway`: what holds at each moment of such a batch.
* `Campaign.Supported.runBatch`: all calls are run, and no two runs leave the same report.
-/

namespace FaultChain
namespace Campaign

variable {c : Campaign} {site : Site}

/-! ## The steps of a run -/

/-- The run of a call in an output directory. -/
def edgeRun (c : Campaign) (x : Edge) (outDir : String) : SymbolicRun :=
  { image := x.image
    function := x.call.caller
    outDir := outDir
    target := x.call.callee
    flags := c.options.backendFlags
    posixFlags := c.options.posixFlags
    timeout := c.options.maxTime }

/-- What is left of the task of a call once its output directory is reserved. -/
def exploring (c : Campaign) (x : Edge) (outDir : String) : Job World (TaskEnd Result) :=
  traced "backend.targeted" (.atomic fun w => w.explore (c.edgeRun x outDir) c.explore)

/-- The span of a run that has returned. -/
def edgeSpan (r : Result) : Span :=
  Span.failing { name := "backend.targeted", attributes := r.attributes } r.failure

/-- What is left of the task once its run has returned. -/
def closing (r : Result) : Job World (TaskEnd Result) :=
  .step (·.close (edgeSpan r)) fun _ => .done (.returned r)

theorem edgeTask_body (c : Campaign) (site : Site) (x : Edge) :
    (c.edgeTask site x).body =
      .step (fun w => (w.reserve site.dir (edgeRecord x)).2)
        fun w => c.exploring x (w.reserve site.dir (edgeRecord x)).1 :=
  rfl

theorem exploring_step (c : Campaign) (x : Edge) (outDir : String) :
    ∃ next, c.exploring x outDir =
        .step (fun w => (w.explore (c.edgeRun x outDir) c.explore).2) next ∧
      ∀ w r, (w.explore (c.edgeRun x outDir) c.explore).1 = .returned r →
        next w = closing r := by
  refine ⟨_, rfl, ?_⟩
  intro w r hr
  simp only [Job.bind, hr]
  rfl

/-! ## What is asked of a run -/

/-- A report of a caller on an error of a callee that was reached through the report `seed`. -/
structure Relays (loc : Call → String) (fns : FunctionSet) (files : FileTree) (call : Call)
    (seed report : String) : Prop where
  held : ∃ text, files.Holds report text
  ending : Text.endsWith report Fault.propagatedEnding = true
  read : ∃ given l, Report.read files report call.caller fns = .ok given ∧
    given.isBlacklisted = false ∧ given.seed = seed ∧
      given.trace.frames = [⟨call.callee, l⟩, ⟨call.caller, loc call⟩]

/-- The result of a run with exactly one report for each one offered. -/
structure Found (loc : Call → String) (fns : FunctionSet) (files : FileTree) (call : Call)
    (offered : List String) (r : Result) : Prop where
  function : r.function = call.caller
  nodup : r.errorFiles.Nodup
  reports : ∃ reports, r.errorFiles.Perm reports ∧
    List.Forall₂ (Relays loc fns files call) offered reports

/-- What is asked of the run of a call: it returns a result with one new report for each one
prepended into its image, and leaves all other reports alone. -/
structure Answers (site : Site) (loc : Call → String) (fns : FunctionSet) (w : World) (x : Edge)
    (r : Result) (h : Host) : Prop where
  found : Found loc fns h.files x.call (CampaignScript.prepended w.journal x.image) r
  new : ∀ report ∈ r.errorFiles, w.host.files.root.at? (w.host.files.place report) = none
  keeps : w.host.files.Keeps h.files
  index : h.files.Replaceable (site.dir.path "klee.json")

/-- The run of a call does what is asked of it. -/
def Obliges (c : Campaign) (site : Site) (loc : Call → String) (fns : FunctionSet) (w : World)
    (x : Edge) (outDir : String) : Prop :=
  ∃ r h, c.explore w.journal (c.edgeRun x outDir) w.host = (.returned r, h) ∧
    Answers site loc fns w x r h

theorem Relays.keeps {loc : Call → String} {fns : FunctionSet} {files files' : FileTree}
    {call : Call} {seed report : String} (h : Relays loc fns files call seed report)
    (hkeeps : files.Keeps files') : Relays loc fns files' call seed report := by
  rcases h with ⟨⟨text, hheld⟩, hending, given, l, hread, hrest⟩
  have hheld' : files'.Holds report text := hkeeps.reports (Report.read_spec hread).1 hheld
  refine ⟨⟨text, hheld'⟩, hending, given, l, ?_, hrest⟩
  rw [← hread]
  exact Report.read_congr (hheld'.openFile.trans hheld.openFile.symm) _ _

theorem Found.keeps {loc : Call → String} {fns : FunctionSet} {files files' : FileTree}
    {call : Call} {offered : List String} {r : Result} (h : Found loc fns files call offered r)
    (hkeeps : files.Keeps files') : Found loc fns files' call offered r := by
  rcases h.reports with ⟨reports, hperm, hall⟩
  exact ⟨h.function, h.nodup, reports, hperm, hall.imp fun _ _ hrelays => hrelays.keeps hkeeps⟩

/-- Every report of a run relays one of those offered. -/
theorem Found.relays {loc : Call → String} {fns : FunctionSet} {files : FileTree} {call : Call}
    {offered : List String} {r : Result} (h : Found loc fns files call offered r)
    {report : String} (hreport : report ∈ r.errorFiles) :
    ∃ seed, Relays loc fns files call seed report := by
  rcases h.reports with ⟨reports, hperm, hall⟩
  rcases exists_of_mem_forall₂ hall (hperm.mem_iff.mp hreport) with ⟨seed, -, hrelays⟩
  exact ⟨seed, hrelays⟩

/-- A report of a run that is kept is there to be read. -/
theorem Found.held {loc : Call → String} {fns : FunctionSet} {files : FileTree} {call : Call}
    {offered : List String} {r : Result} (h : Found loc fns files call offered r)
    {report : String} (hreport : report ∈ r.errorFiles) :
    Text.endsWith report ".err" = true ∧ ∃ text, files.Holds report text := by
  rcases h.relays hreport with ⟨seed, hrelays⟩
  rcases hrelays.read with ⟨given, l, hread, -⟩
  exact ⟨(Report.read_spec hread).1, hrelays.held⟩

/-! ## A batch under way -/

/-- How far the task of a call is, and the result of its run if that has returned. -/
inductive Stage (c : Campaign) (site : Site) (x : Edge) :
    Option Result → TaskState World Result → Prop where
  | waiting : Stage c site x none .waiting
  | cleared : Stage c site x none .cleared
  | admitted : Stage c site x none .admitted
  | reserving {job : Job World (TaskEnd Result)} (heq : job = (c.edgeTask site x).body) :
      Stage c site x none (.running job)
  | exploring {job : Job World (TaskEnd Result)} {outDir : String}
      (heq : job = c.exploring x outDir) : Stage c site x none (.running job)
  | closing {job : Job World (TaskEnd Result)} {r : Result} (heq : job = closing r) :
      Stage c site x (some r) (.running job)
  | returning {r : Result} : Stage c site x (some r) (.running (.done (.returned r)))
  | finished {r : Result} : Stage c site x (some r) (.finished r)

/-- The rules of a batch of calls. -/
def edgeDispatch (c : Campaign) (cutoff : Host.Cutoff) : Dispatch World Result :=
  { limit := (Scheduler.ofLimit c.limit).limit
    stop := fun w => cutoff.reached? w.host
    fallback := failedTask }

/-- A batch of calls before its first step. -/
def edgeBatch (c : Campaign) (site : Site) (es : List Edge) (w : World) : Batch World Result :=
  (Scheduler.ofLimit c.limit).prepare w (es.map (c.edgeTask site))

/-- What is given to happen first in a batch of calls. -/
def edgeEvents (c : Campaign) (k : Nat) : List (BatchEvent (World → World)) :=
  (c.interleaving (k + 1)).map (·.map Signal.apply)

/-- What a batch of calls may rely on at each of its moments: nothing is told to stop, and the runs
that are about to start do what is asked of them. -/
structure Supported (c : Campaign) (site : Site) (cutoff : Host.Cutoff) (loc : Call → String)
    (fns : FunctionSet) (k : Nat) (es : List Edge) (w : World) : Prop where
  calm : ∀ b, Batch.Moment (c.edgeDispatch cutoff) (c.edgeEvents k) (c.edgeBatch site es w) b →
    cutoff.reached? b.world.host = none
  obliges : ∀ b, Batch.Moment (c.edgeDispatch cutoff) (c.edgeEvents k) (c.edgeBatch site es w) b →
    ∀ (i : Nat) x t outDir, es[i]? = some x →
      b.tasks[i]? = some (t, .running (c.exploring x outDir)) →
        Obliges c site loc fns b.world x outDir

/-- A batch of calls under way, where `found` are the results of the runs that have returned and `w`
is the world the batch started in. -/
structure Underway (c : Campaign) (site : Site) (loc : Call → String) (fns : FunctionSet)
    (es : List Edge) (w : World) (found : Nat → Option Result) (b : Batch World Result) :
    Prop where
  inOrder : b.world.InOrder site.dir
  keeps : w.host.files.Keeps b.world.host.files
  prepended : ∀ image, CampaignScript.prepended b.world.journal image =
    CampaignScript.prepended w.journal image
  length : b.tasks.length = es.length
  stages : ∀ (i : Nat) x, es[i]? = some x →
    ∃ st, b.tasks[i]? = some (c.edgeTask site x, st) ∧ Stage c site x (found i) st
  answered : ∀ (i : Nat) r, found i = some r → ∃ x, es[i]? = some x ∧
    Found loc fns b.world.host.files x.call (CampaignScript.prepended w.journal x.image) r
  apart : ∀ (i j : Nat) r r', i ≠ j → found i = some r → found j = some r' →
    List.Disjoint r.errorFiles r'.errorFiles
  new : ∀ (i : Nat) r, found i = some r → ∀ report ∈ r.errorFiles, ∀ text,
    ¬ w.host.files.Holds report text

namespace Underway

variable {loc : Call → String} {fns : FunctionSet} {es : List Edge} {w : World}
  {found : Nat → Option Result} {b : Batch World Result}

theorem start (es : List Edge) (hw : w.InOrder site.dir) :
    Underway c site loc fns es w (fun _ => none) (c.edgeBatch site es w) where
  inOrder := hw
  keeps := .refl _
  prepended := fun _ => rfl
  length := by simp [edgeBatch, Scheduler.prepare]
  stages := by
    intro i x hx
    refine ⟨.waiting, ?_, .waiting⟩
    simp [edgeBatch, Scheduler.prepare, hx]
  answered := by
    intro i r hr
    cases hr
  apart := by
    intro i j r r' hij hr
    cases hr
  new := by
    intro i r hr
    cases hr

/-- The world changes, and reports are kept. -/
theorem change (h : Underway c site loc fns es w found b) {b' : Batch World Result}
    (htasks : b'.tasks = b.tasks) (hw' : b'.world.InOrder site.dir)
    (hkeeps : b.world.host.files.Keeps b'.world.host.files)
    (hprepended : ∀ image, CampaignScript.prepended b'.world.journal image =
      CampaignScript.prepended b.world.journal image) :
    Underway c site loc fns es w found b' where
  inOrder := hw'
  keeps := h.keeps.trans hkeeps
  prepended := fun image => (hprepended image).trans (h.prepended image)
  length := htasks ▸ h.length
  stages := htasks ▸ h.stages
  answered := by
    intro i r hr
    rcases h.answered i r hr with ⟨x, hx, hfound⟩
    exact ⟨x, hx, hfound.keeps hkeeps⟩
  apart := h.apart
  new := h.new

/-- A task gets further, and what has been found stays. -/
theorem put (h : Underway c site loc fns es w found b) {i : Nat} {x : Edge}
    (hx : es[i]? = some x) {st : TaskState World Result} (hst : Stage c site x (found i) st) :
    Underway c site loc fns es w found (b.put i st) where
  inOrder := h.inOrder
  keeps := h.keeps
  prepended := h.prepended
  length := by simpa [Batch.put] using h.length
  stages := by
    intro j y hy
    rcases h.stages j y hy with ⟨st', hat, hst'⟩
    -- Only the task that is put forward has another state.
    by_cases hij : i = j
    · subst hij
      rw [hx] at hy
      cases hy
      exact ⟨st, Batch.getElem?_put_self hat st, hst⟩
    · exact ⟨st', (Batch.getElem?_put_of_ne b hij st).trans hat, hst'⟩
  answered := h.answered
  apart := h.apart
  new := h.new

/-- What has been found once one more run has returned. -/
theorem update_eq_some_iff {i j : Nat} {r r' : Result} :
    Function.update found i (some r) j = some r' ↔
      (j = i ∧ r' = r) ∨ (j ≠ i ∧ found j = some r') := by
  by_cases hij : j = i
  · subst hij
    simp [eq_comm]
  · simp [hij]

/-- A run returns with reports that nothing else has left. -/
theorem find (h : Underway c site loc fns es w found b) {i : Nat} {x : Edge}
    (hx : es[i]? = some x) {r : Result} {st : TaskState World Result}
    (hst : Stage c site x (some r) st)
    (hfound : Found loc fns b.world.host.files x.call
      (CampaignScript.prepended w.journal x.image) r)
    (hapart : ∀ (j : Nat) r', j ≠ i → found j = some r' →
      List.Disjoint r.errorFiles r'.errorFiles)
    (hnew : ∀ report ∈ r.errorFiles, ∀ text, ¬ w.host.files.Holds report text) :
    Underway c site loc fns es w (Function.update found i (some r)) (b.put i st) where
  inOrder := h.inOrder
  keeps := h.keeps
  prepended := h.prepended
  length := by simpa [Batch.put] using h.length
  stages := by
    intro j y hy
    rcases h.stages j y hy with ⟨st', hat, hst'⟩
    by_cases hij : i = j
    · subst hij
      rw [hx] at hy
      cases hy
      exact ⟨st, Batch.getElem?_put_self hat st, by simpa using hst⟩
    · have hji : j ≠ i := fun heq => hij heq.symm
      refine ⟨st', (Batch.getElem?_put_of_ne b hij st).trans hat, ?_⟩
      simpa [Function.update_of_ne hji] using hst'
  answered := by
    intro j r' hr'
    rcases update_eq_some_iff.mp hr' with ⟨rfl, rfl⟩ | ⟨-, hr'⟩
    · exact ⟨x, hx, hfound⟩
    · exact h.answered j r' hr'
  apart := by
    intro j k r₁ r₂ hjk hr₁ hr₂
    -- At most one of the two is the run that has just returned.
    rcases update_eq_some_iff.mp hr₁ with ⟨hj, rfl⟩ | ⟨hj, hold₁⟩
    · rcases update_eq_some_iff.mp hr₂ with ⟨hk, -⟩ | ⟨hk, hold₂⟩
      · exact absurd (hj.trans hk.symm) hjk
      · exact hapart k r₂ hk hold₂
    · rcases update_eq_some_iff.mp hr₂ with ⟨-, rfl⟩ | ⟨-, hold₂⟩
      · exact fun report hreport hreport' => hapart j r₁ hj hold₁ hreport' hreport
      · exact h.apart j k r₁ r₂ hjk hold₁ hold₂
  new := by
    intro j r' hr'
    rcases update_eq_some_iff.mp hr' with ⟨rfl, rfl⟩ | ⟨-, hr'⟩
    · exact hnew
    · exact h.new j r' hr'

end Underway

/-! ## One step of a batch -/

theorem reserve_spec {w : World} (hw : w.InOrder site.dir) (record : RunRecord) :
    (w.reserve site.dir record).2.InOrder site.dir ∧
      w.host.files.Keeps (w.reserve site.dir record).2.host.files ∧
      (w.reserve site.dir record).2.journal = w.journal := by
  have hstore := RunIndex.store_keeps hw.index (w.index.reserve site.dir record).2
  exact ⟨⟨hw.canceled, hw.abandoned, hstore.2⟩, hstore.1, rfl⟩

theorem explore_eq {w : World} {run : SymbolicRun} {r : Result} {h : Host}
    (heq : c.explore w.journal run w.host = (.returned r, h)) :
    w.explore run c.explore =
      (.returned r, { w with
        host := w.host.becoming h
        journal := w.journal ++ [.explored run] }) := by
  simp only [World.explore, World.onHost, World.note, heq]
  rfl

/-- No path is at once that of a report and free. -/
theorem not_holds_of_free {files : FileTree} {report text : String}
    (hfree : files.root.at? (files.place report) = none) : ¬ files.Holds report text := by
  intro hheld
  rcases hheld.file with ⟨y, hfile⟩
  rw [hfree] at hfile
  cases hfile

section

variable {cutoff : Host.Cutoff} {loc : Call → String} {fns : FunctionSet} {k : Nat}
  {es : List Edge} {w : World} {found : Nat → Option Result} {b b' : Batch World Result}

/-- The run of a call returns. -/
theorem Underway.explore (h : Underway c site loc fns es w found b) {i : Nat} {x : Edge}
    (hx : es[i]? = some x) {outDir : String} (hob : Obliges c site loc fns b.world x outDir)
    (hcalm : cutoff.reached? (b.world.explore (c.edgeRun x outDir) c.explore).2.host = none) :
    ∃ r, (b.world.explore (c.edgeRun x outDir) c.explore).1 = .returned r ∧
      Underway c site loc fns es w (Function.update found i (some r))
        { b.put i (.running (closing r)) with
          world := (b.world.explore (c.edgeRun x outDir) c.explore).2 } := by
  rcases hob with ⟨r, later, hexplore, hanswers⟩
  have heq := explore_eq hexplore
  rw [heq] at hcalm ⊢
  have hcanceled := Host.canceled_of_not_reached hcalm
  refine ⟨r, rfl, ?_⟩
  have hprepended : ∀ image,
      CampaignScript.prepended (b.world.journal ++ [.explored (c.edgeRun x outDir)]) image =
        CampaignScript.prepended b.world.journal image := prepended_explored _ _
  let w' : World := { b.world with
    host := b.world.host.becoming later
    journal := b.world.journal ++ [.explored (c.edgeRun x outDir)] }
  have hw' : w'.InOrder site.dir := ⟨hcanceled, h.inOrder.abandoned, hanswers.index⟩
  have hchanged : Underway c site loc fns es w found { b with world := w' } :=
    h.change rfl hw' hanswers.keeps hprepended
  refine hchanged.find hx (.closing rfl) ?_ ?_ ?_
  · have hfound := hanswers.found
    rw [h.prepended] at hfound
    exact hfound
  · -- What other runs have left is there, so it is not new.
    intro j r' _ hr' report hreport hreport'
    rcases h.answered j r' hr' with ⟨y, -, hfound⟩
    rcases (hfound.held hreport').2 with ⟨text, hheld⟩
    exact not_holds_of_free (hanswers.new report hreport) hheld
  · -- The same goes for what was there before the batch.
    intro report hreport text hheld
    have hending := (hanswers.found.held hreport).1
    exact not_holds_of_free (hanswers.new report hreport) (h.keeps.reports hending hheld)

/-- A task of the batch is that of a call. -/
theorem Underway.task (h : Underway c site loc fns es w found b) {i : Nat} {t : Task World Result}
    {st : TaskState World Result} (hat : b.tasks[i]? = some (t, st)) :
    ∃ x, es[i]? = some x ∧ t = c.edgeTask site x ∧ Stage c site x (found i) st := by
  have hlt : i < es.length := h.length ▸ (List.getElem?_eq_some_iff.mp hat).1
  have hx : es[i]? = some es[i] := List.getElem?_eq_getElem hlt
  rcases h.stages i es[i] hx with ⟨st', hat', hst⟩
  rw [hat] at hat'
  cases hat'
  exact ⟨es[i], hx, rfl, hst⟩

/-- A step of a running task. -/
theorem Underway.advanced (h : Underway c site loc fns es w found b)
    (hob : ∀ (i : Nat) x t outDir, es[i]? = some x →
      b.tasks[i]? = some (t, .running (c.exploring x outDir)) →
        Obliges c site loc fns b.world x outDir)
    {i : Nat} {t : Task World Result} {act : World → World}
    {next : World → Job World (TaskEnd Result)}
    (hat : b.tasks[i]? = some (t, .running (.step act next)))
    (hcalm : cutoff.reached? (act b.world).host = none) :
    ∃ found', Underway c site loc fns es w found'
      { b.put i (.running (next b.world)) with world := act b.world } := by
  rcases h.task hat with ⟨x, hx, -, hst⟩
  generalize hfi : found i = fi at hst
  -- The task reserves its directory, explores, or closes its span; only exploring finds anything.
  cases hst with
  | reserving heq =>
    rw [edgeTask_body] at heq
    cases heq
    rcases reserve_spec h.inOrder (edgeRecord x) with ⟨hw', hkeeps, -⟩
    let w' := (b.world.reserve site.dir (edgeRecord x)).2
    have hchanged : Underway c site loc fns es w found { b with world := w' } :=
      h.change rfl hw' hkeeps fun _ => rfl
    exact ⟨found, hchanged.put hx (hfi ▸ .exploring rfl)⟩
  | @exploring _ outDir heq =>
    rw [heq] at hat
    have hobliges := hob i x t outDir hx hat
    rcases exploring_step c x outDir with ⟨next', hstep, hnext⟩
    rw [hstep] at heq
    cases heq
    rcases h.explore hx hobliges hcalm with ⟨r, hreturned, hunder⟩
    rw [hnext b.world r hreturned]
    exact ⟨_, hunder⟩
  | @closing _ r heq =>
    cases heq
    have hw' : (b.world.close (edgeSpan r)).InOrder site.dir :=
      ⟨h.inOrder.canceled, h.inOrder.abandoned, h.inOrder.index⟩
    have hchanged : Underway c site loc fns es w found
        { b with world := b.world.close (edgeSpan r) } :=
      h.change rfl hw' (.refl _) fun _ => rfl
    exact ⟨found, hchanged.put hx (hfi ▸ .returning)⟩

/-- A step of a batch of calls. -/
theorem Underway.moves (h : Underway c site loc fns es w found b)
    (hcalm : cutoff.reached? b.world.host = none)
    (hcalm' : cutoff.reached? b'.world.host = none)
    (hob : ∀ (i : Nat) x t outDir, es[i]? = some x →
      b.tasks[i]? = some (t, .running (c.exploring x outDir)) →
        Obliges c site loc fns b.world x outDir)
    (hmove : Batch.Moves (c.edgeDispatch cutoff) b b') :
    ∃ found', Underway c site loc fns es w found' b' := by
  cases hmove with
  | idle => exact ⟨found, h⟩
  | refused _ _ hstop =>
    -- Nothing stops the batch, as the campaign is calm.
    have hgo := hcalm.symm.trans hstop
    cases hgo
  | turned _ hstop =>
    have hgo := hcalm.symm.trans hstop
    cases hgo
  | cleared hat =>
    rcases h.task hat with ⟨x, hx, -, hst⟩
    generalize hfi : found _ = fi at hst
    cases hst
    exact ⟨found, h.put hx (hfi ▸ .cleared)⟩
  | admitted hat =>
    rcases h.task hat with ⟨x, hx, -, hst⟩
    generalize hfi : found _ = fi at hst
    cases hst
    exact ⟨found, h.put hx (hfi ▸ .admitted)⟩
  | started hat =>
    rcases h.task hat with ⟨x, hx, rfl, hst⟩
    generalize hfi : found _ = fi at hst
    cases hst
    exact ⟨found, h.put hx (hfi ▸ .reserving rfl)⟩
  | @finished i _ _ hat =>
    rcases h.task hat with ⟨x, hx, -, hst⟩
    generalize hfi : found _ = fi at hst
    cases hst with
    | reserving heq =>
      rw [edgeTask_body] at heq
      cases heq
    | exploring heq =>
      rcases exploring_step c x _ with ⟨next, hstep, -⟩
      rw [hstep] at heq
      cases heq
    | closing heq => cases heq
    | @returning r =>
      have hput : Underway c site loc fns es w found (b.put i (.finished r)) :=
        h.put hx (hfi ▸ .finished)
      exact ⟨found, hput.change rfl h.inOrder (.refl _) fun _ => rfl⟩
  | advanced hat => exact h.advanced hob hat hcalm'

/-- Something happens outside of the batch. -/
theorem Underway.outside (h : Underway c site loc fns es w found b) {change : World → World}
    (hmem : .outside change ∈ c.edgeEvents k)
    (hcalm : cutoff.reached? (change b.world).host = none) :
    Underway c site loc fns es w found { b with world := change b.world } := by
  obtain ⟨signal, -, rfl⟩ := BatchEvent.exists_of_outside_mem_map hmem
  have hcanceled := Host.canceled_of_not_reached hcalm
  cases signal with
  | cancel => cases hcanceled
  | elapse nanos =>
    have hw' : (Signal.apply (.elapse nanos) b.world).InOrder site.dir :=
      ⟨hcanceled, h.inOrder.abandoned, h.inOrder.index⟩
    exact h.change rfl hw' (.refl _) fun _ => rfl

/-! ## A whole batch -/

/-- Nothing is told to stop before the batch either. -/
theorem Supported.calm_start (hs : Supported c site cutoff loc fns k es w) :
    cutoff.reached? w.host = none :=
  hs.calm (c.edgeBatch site es w) (Or.inl ⟨0, rfl⟩)

theorem Supported.underway (hs : Supported c site cutoff loc fns k es w)
    (hw : w.InOrder site.dir)
    (hb : Batch.Moment (c.edgeDispatch cutoff) (c.edgeEvents k) (c.edgeBatch site es w) b) :
    ∃ found, Underway c site loc fns es w found b := by
  refine hb.induction (P := fun b => ∃ found, Underway c site loc fns es w found b) ?_ ?_ ?_
  · exact ⟨_, Underway.start es hw⟩
  · rintro b b' hb hb' hmove ⟨found, h⟩
    exact h.moves (hs.calm b hb) (hs.calm b' hb') (hs.obliges b hb) hmove
  · rintro b change hmem hb hb' ⟨found, h⟩
    exact ⟨found, h.outside hmem (hs.calm _ hb')⟩

theorem ordered_runEvents (es : List Edge) (w : World) (events : List (BatchEvent (World → World)))
    (d : Dispatch World Result) : ((c.edgeBatch site es w).runEvents d events).Ordered := by
  have hall : Batch.Moment d events (c.edgeBatch site es w)
      ((c.edgeBatch site es w).runEvents d events) := Or.inr (Batch.Leads.refl _ _)
  refine hall.induction (P := Batch.Ordered) ?_ ?_ ?_
  · intro i j t t' st _ _ hj
    simp only [edgeBatch, Scheduler.prepare, List.map_map, List.getElem?_map] at hj
    rcases Option.map_eq_some_iff.mp hj with ⟨x, -, heq⟩
    cases heq
    rfl
  · intro b b' _ _ hmove h
    exact h.moves hmove
  · intro b change _ _ _ h
    exact h

/-- Once all tasks are finished, the results are those of the runs, call by call. -/
theorem Underway.results (h : Underway c site loc fns es w found b)
    (hdone : ∀ (i : Nat) t st, b.tasks[i]? = some (t, st) → ∃ r, st = TaskState.finished r) :
    b.results.length = es.length ∧ ∀ (i : Nat) r, b.results[i]? = some r → found i = some r := by
  have hlength : b.results.length = es.length := (Batch.length_results hdone).trans h.length
  refine ⟨hlength, ?_⟩
  intro i r hr
  have hlt : i < es.length := hlength ▸ (List.getElem?_eq_some_iff.mp hr).1
  rcases h.stages i es[i] (List.getElem?_eq_getElem hlt) with ⟨st, hat, hst⟩
  rcases hdone i _ st hat with ⟨r', rfl⟩
  rw [Batch.getElem?_results hdone, hat] at hr
  obtain rfl : r' = r := Option.some.inj hr
  -- A finished task has the result that its run has found.
  generalize hfi : found i = fi at hst
  cases hst
  rfl

/-- All calls of a batch are run, and no two runs leave the same report. -/
theorem Supported.runBatch (hs : Supported c site cutoff loc fns k es w)
    (hw : w.InOrder site.dir) :
    let out := c.runBatch cutoff (k + 1) failedTask (es.map (c.edgeTask site)) w
    out.2.InOrder site.dir ∧ w.host.files.Keeps out.2.host.files ∧
      cutoff.reached? out.2.host = none ∧
      List.Forall₂ (fun x r => Found loc fns out.2.host.files x.call
        (CampaignScript.prepended w.journal x.image) r) es out.1 ∧
      (out.1.Pairwise fun r r' => List.Disjoint r.errorFiles r'.errorFiles) ∧
      ∀ r ∈ out.1, ∀ report ∈ r.errorFiles, ∀ text, ¬ w.host.files.Holds report text := by
  intro out
  let d := c.edgeDispatch cutoff
  let b := ((c.edgeBatch site es w).runEvents d (c.edgeEvents k)).complete d
  have hout : out = (b.results, b.world) := rfl
  have hmoment : Batch.Moment d (c.edgeEvents k) (c.edgeBatch site es w) b :=
    Batch.moment_complete _ _
  rcases hs.underway hw hmoment with ⟨found, hunder⟩
  -- The batch is completed from a moment in which tasks are still in order.
  have hordered : ((c.edgeBatch site es w).runEvents d (c.edgeEvents k)).Ordered :=
    ordered_runEvents es w _ d
  have hdone := Batch.complete_finished (d := d) (Scheduler.limit_ofLimit_pos c.limit) hordered
  rcases hunder.results hdone with ⟨hlength, hat⟩
  rw [hout]
  refine ⟨hunder.inOrder, hunder.keeps, hs.calm b hmoment, ?_, ?_, ?_⟩
  · refine List.forall₂_iff_get.mpr ⟨hlength.symm, ?_⟩
    intro i hi hi'
    rcases hunder.answered i _ (hat i _ (List.getElem?_eq_getElem hi')) with ⟨x, hx, hfound⟩
    have hsame : es.get ⟨i, hi⟩ = x := by simpa [List.getElem?_eq_getElem hi] using hx
    rw [hsame]
    exact hfound
  · refine List.pairwise_iff_getElem.mpr ?_
    intro i j hi hj hij
    exact hunder.apart i j _ _ (Nat.ne_of_lt hij) (hat i _ (List.getElem?_eq_getElem hi))
      (hat j _ (List.getElem?_eq_getElem hj))
  · intro r hr
    rcases List.mem_iff_getElem?.mp hr with ⟨i, hi⟩
    exact hunder.new i r (hat i r hi)

end

end Campaign
end FaultChain
