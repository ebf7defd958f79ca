import FaultChain.Campaign.Isolation
import FaultChain.Proofs.Session.Sharing

/-!
# Runs with directories of their own

Every run of a backend reserves a directory first, and the number of the directory is a ticket that
no other run draws. What is asked of the backends, and what a run comes to, is left open here.

* `Campaign.Bookkeeping`: a way to share a campaign in which directories stay reserved.
* `Campaign.Came`: what a run comes to with its ticket.
* `Campaign.shares_run`, `Campaign.shares_traced`: one run.
* `Campaign.shares_session`: the runs of a session.
* `Campaign.runBatch_shares`: a batch of tasks.
-/

namespace FaultChain
namespace Campaign

variable {x : Sharing World} {c : Campaign} {site : Site}

/-- A way to share a campaign: directories stay reserved, the number of a reserved directory is a
ticket, and finished activities may be recorded. -/
structure Bookkeeping (x : Sharing World) (dir : RunDir) : Prop where
  lawful : x.Lawful
  runs : ∀ {w w'}, x.rely w w' → w.index.runs <+: w'.index.runs
  reserve : ∀ {w g} record, x.inv w → g.groups ≤ 1 →
    x.Change w (w.reserve dir record).2 g { g with tickets := g.tickets ++ [w.index.size] }
  close : ∀ {w g} span, x.inv w → g.groups ≤ 1 → x.Change w (w.close span) g g

/-- What a run comes to that has drawn a ticket: `Own` says what its result is like, and `Lost` what
is left if it does not return one. -/
def Came (Own : World → Nat → Result → Prop) (Lost : World → Nat → Prop) (k : Nat)
    (e : TaskEnd Result) (w : World) : Prop :=
  match e with
  | .returned r => Own w k r
  | .nothing => Lost w k
  | .panicked _ => Lost w k

/-- A step that runs a backend in the directory of a record. -/
def RunsIn (x : Sharing World) (record : RunRecord) (Own : World → Nat → Result → Prop)
    (Lost : World → Nat → Prop) (run : String → World → TaskEnd Result × World) : Prop :=
  ∀ k name dir w g, x.inv w → w.index.runs[k]? = some (name, { record with folder := dir }) →
    g.groups ≤ 1 →
      x.Change w (run dir w).2 g g ∧ Came Own Lost k (run dir w).1 (run dir w).2

/-- One more ticket is drawn for a run. -/
def Drew (Own : World → Nat → Result → Prop) (Lost : World → Nat → Prop) (g g' : Hand)
    (e : TaskEnd Result) (w : World) : Prop :=
  ∃ k, g' = { g with tickets := g.tickets ++ [k] } ∧ Came Own Lost k e w

/-- What holds of a ticket goes on to hold. -/
structure Lasting (x : Sharing World) (Own : World → Nat → Result → Prop)
    (Lost : World → Nat → Prop) : Prop where
  own : ∀ {w w' k r}, x.rely w w' → Own w k r → Own w' k r
  lost : ∀ {w w' k}, x.rely w w' → Lost w k → Lost w' k

section

variable {Own : World → Nat → Result → Prop} {Lost : World → Nat → Prop} {g : Hand} {w₀ : World}

theorem Came.rely (hl : Lasting x Own Lost) {k : Nat} {e : TaskEnd Result} {w w' : World}
    (hrely : x.rely w w') (h : Came Own Lost k e w) : Came Own Lost k e w' := by
  cases e with
  | returned r => exact hl.own hrely h
  | nothing => exact hl.lost hrely h
  | panicked why => exact hl.lost hrely h

/-! ## One run -/

/-- A directory is reserved, for which a ticket is drawn. -/
theorem shares_reserve (hb : Bookkeeping x site.dir) (hg : g.groups ≤ 1) (record : RunRecord) :
    (Job.atomic fun w : World => w.reserve site.dir record).Shares x
      (fun g' dir w => ∃ k name, g' = { g with tickets := g.tickets ++ [k] } ∧
        w.index.runs[k]? = some (name, { record with folder := dir })) g w₀ := by
  apply Job.shares_atomic
  intro w _ hw _
  exact ⟨_, hb.reserve record hw hg, w.index.size,
    (RunIndex.place site.dir record.kind (w.index.size + 1)).1, rfl, List.getElem?_concat_length⟩

/-- A run in a directory of its own. -/
theorem shares_run (hb : Bookkeeping x site.dir) (hg : g.groups ≤ 1) {record : RunRecord}
    {run : String → World → TaskEnd Result × World} (hrun : RunsIn x record Own Lost run) :
    (Job.atomic (fun w : World => w.reserve site.dir record) >>=
        fun dir => Job.atomic (run dir)).Shares x (Drew Own Lost g) g w₀ := by
  refine Job.shares_bind hb.lawful (shares_reserve hb hg record) ?_
  rintro g' dir w₁ - ⟨k, name, rfl, hrecord⟩
  apply Job.shares_atomic
  intro w hrely hw _
  -- The record is still in the index.
  have hrecord' := getElem?_of_prefix (hb.runs hrely) hrecord
  rcases hrun k name dir w { g with tickets := g.tickets ++ [k] } hw hrecord' hg with
    ⟨hchange, hcame⟩
  exact ⟨_, hchange, k, rfl, hcame⟩

/-- The span of something that came to its end changes nothing else. -/
theorem shares_close (hb : Bookkeeping x site.dir) (hg : g.groups ≤ 1) {α : Type} (a : α)
    (span : Span) {post : Hand → α → World → Prop}
    (hpost : ∀ w, x.rely w₀ w → post g a w) :
    (Job.atomic fun w : World => (a, w.close span)).Shares x post g w₀ := by
  apply Job.shares_atomic
  intro w hrely hw _
  have hchange := hb.close span hw hg
  exact ⟨g, hchange, hpost _ (hb.lawful.trans hrely hchange.rely)⟩

theorem shares_traced (hb : Bookkeeping x site.dir) (hl : Lasting x Own Lost) (hg : g.groups ≤ 1)
    (name : String) {run : Job World (TaskEnd Result)}
    (hrun : run.Shares x (Drew Own Lost g) g w₀) :
    (traced name run).Shares x (Drew Own Lost g) g w₀ := by
  refine Job.shares_bind hb.lawful hrun ?_
  rintro g' e w - ⟨k, rfl, hcame⟩
  have hg' : ({ g with tickets := g.tickets ++ [k] } : Hand).groups ≤ 1 := hg
  -- A run without a result is one that does not return.
  cases e with
  | returned r => exact shares_close hb hg' _ _ fun w' hrely => ⟨k, rfl, hl.own hrely hcame⟩
  | nothing => exact shares_close hb hg' _ _ fun w' hrely => ⟨k, rfl, hl.lost hrely hcame⟩
  | panicked why => exact shares_close hb hg' _ _ fun w' hrely => ⟨k, rfl, hl.lost hrely hcame⟩

/-- What a task comes to that consists of one run. -/
def CameAlone (Own : World → Nat → Result → Prop) (Lost : World → Nat → Prop)
    (tickets : List Nat) (e : TaskEnd (List Result)) (w : World) : Prop :=
  ∃ k, tickets = [k] ∧
    match e with
    | .returned rs => ∃ r, rs = [r] ∧ Own w k r
    | .nothing => Lost w k
    | .panicked _ => Lost w k

/-- With a number of groups in hand. -/
def Holding (n : Nat) {α : Type} (post : List Nat → α → World → Prop) (g : Hand) (a : α)
    (w : World) : Prop :=
  g.groups = n ∧ post g.tickets a w

theorem Holding.imp {α : Type} {n : Nat} {post post' : List Nat → α → World → Prop} {g : Hand}
    {a : α} {w : World} (h : Holding n post g a w) (himp : ∀ ks, post ks a w → post' ks a w) :
    Holding n post' g a w :=
  ⟨h.1, himp _ h.2⟩

theorem shares_single (hb : Bookkeeping x site.dir) (hl : Lasting x Own Lost) {n : Nat} (hn : n ≤ 1)
    (name : String) {run : Job World (TaskEnd Result)}
    (hrun : run.Shares x (Drew Own Lost { groups := n }) { groups := n } w₀) :
    (do
      match ← traced name run with
      | .returned r => return .returned [r]
      | .nothing => return .nothing
      | .panicked why => return .panicked why : Job World (TaskEnd (List Result))).Shares x
      (Holding n (CameAlone Own Lost)) { groups := n } w₀ := by
  refine Job.shares_bind hb.lawful (shares_traced hb hl hn name hrun) ?_
  rintro g' e w - ⟨k, rfl, hcame⟩
  cases e with
  | returned r => exact Job.shares_pure ⟨rfl, k, rfl, r, rfl, hcame⟩
  | nothing => exact Job.shares_pure ⟨rfl, k, rfl, hcame⟩
  | panicked why => exact Job.shares_pure ⟨rfl, k, rfl, hcame⟩

/-! ## Sessions -/

/-- The results of a session so far, one for each ticket drawn. -/
def Collected (Own : World → Nat → Result → Prop) (n : Nat) (g : Hand) (rs : List Result)
    (w : World) : Prop :=
  g.groups = n ∧ List.Forall₂ (Own w) g.tickets rs

/-- The latest run of a session has not returned, which leaves its results behind. -/
def Broken (Own : World → Nat → Result → Prop) (Lost : World → Nat → Prop) (n : Nat) (g : Hand)
    (w : World) : Prop :=
  g.groups = n ∧ ∃ ks rs k, g.tickets = ks ++ [k] ∧ List.Forall₂ (Own w) ks rs ∧ Lost w k

/-- The steps of a session of a function. -/
structure SessionSteps (x : Sharing World) (c : Campaign) (site : Site) (fn : String)
    (Own : World → Nat → Result → Prop) (Lost : World → Nat → Prop) : Prop where
  /-- How a run progressed does not matter. -/
  marked : ∀ {w k r} grown, Own w k r → Own w k { r with progress := grown }
  symbolic : ∀ run : String → SymbolicRun,
    (∀ dir, (run dir).function = fn ∧ (run dir).target = "" ∧ (run dir).outDir = dir) →
      RunsIn x (functionRecord site symbolicKind fn) Own Lost
        fun dir w => w.explore (run dir) c.explore
  fuzz : ∀ run : String → FuzzRun, (∀ dir, (run dir).function = fn ∧ (run dir).outDir = dir) →
    RunsIn x (functionRecord site fuzzKind fn) Own Lost fun dir => fuzz site (run dir)
  convert : ∀ outDir seedDir w g, x.inv w → g.groups ≤ 1 →
    x.Change w (w.withHost (site.fuzzer.convertQueue fn outDir seedDir w.host).2.2) g g

theorem Collected.rely (hl : Lasting x Own Lost) {n : Nat} {rs : List Result} {w w' : World}
    (h : Collected Own n g rs w) (hrely : x.rely w w') : Collected Own n g rs w' :=
  ⟨h.1, h.2.imp fun _ _ hown => hl.own hrely hown⟩

theorem Broken.rely (hl : Lasting x Own Lost) {n : Nat} {w w' : World}
    (h : Broken Own Lost n g w) (hrely : x.rely w w') : Broken Own Lost n g w' := by
  rcases h with ⟨hn, ks, rs, k, htickets, hall, hlost⟩
  exact ⟨hn, ks, rs, k, htickets, hall.imp fun _ _ hown => hl.own hrely hown, hl.lost hrely hlost⟩

variable {fn : String} {n : Nat} {group : MemoryGroup}

/-- One more run of a session. -/
theorem grows_of_drew (hl : Lasting x Own Lost) (hs : SessionSteps x c site fn Own Lost)
    {rs : List Result} {w w' : World} {g' : Hand} {e : TaskEnd Result}
    (h : Collected Own n g rs w) (hrely : x.rely w w') (hdrew : Drew Own Lost g g' e w') :
    Session.Grows (Collected Own n) (Broken Own Lost n) rs g' e w' := by
  rcases hdrew with ⟨k, rfl, hcame⟩
  have hbefore := h.rely hl hrely
  cases e with
  | returned r =>
    intro grown
    exact ⟨hbefore.1, List.rel_append hbefore.2 (.cons (hs.marked grown hcame) .nil)⟩
  | nothing => exact ⟨hbefore.1, g.tickets, rs, k, rfl, hbefore.2, hcame⟩
  | panicked why => exact ⟨hbefore.1, g.tickets, rs, k, rfl, hbefore.2, hcame⟩

theorem supported_session (hb : Bookkeeping x site.dir) (hl : Lasting x Own Lost)
    (hs : SessionSteps x c site fn Own Lost) (hn : n ≤ 1) :
    Session.Supported x (c.session site fn group) (c.sessionHost site fn) (Collected Own n)
      (Broken Own Lost n) where
  lawful := hb.lawful
  groups_le h := h.1 ▸ hn
  rely h hrely := h.rely hl hrely
  symbolic slice seedDir h :=
    Job.shares_mono hb.lawful
      (shares_run hb (h.1 ▸ hn) (hs.symbolic _ fun dir => ⟨rfl, rfl, rfl⟩))
      fun _ _ _ hrely => grows_of_drew hl hs h hrely
  fuzz inputDir h :=
    Job.shares_mono hb.lawful (shares_run hb (h.1 ▸ hn) (hs.fuzz _ fun dir => ⟨rfl, rfl⟩))
      fun _ _ _ hrely => grows_of_drew hl hs h hrely
  convert {g rs w} outDir seedDir h := by
    apply Job.shares_atomic
    intro w' hrely hw _
    -- Converting inputs changes files only.
    have hchange := hs.convert outDir seedDir w' g hw (h.1 ▸ hn)
    exact ⟨g, hchange, h.rely hl (hb.lawful.trans hrely hchange.rely)⟩

/-- What a session comes to: a result for each ticket drawn, or one that says that it was told to
stop before its first run; or its latest run has not returned. -/
def CameInSession (Own : World → Nat → Result → Prop) (Lost : World → Nat → Prop) (fn : String)
    (tickets : List Nat) (e : TaskEnd (List Result)) (w : World) : Prop :=
  match e with
  | .returned rs =>
    List.Forall₂ (Own w) tickets rs ∨ (tickets = [] ∧ rs = sessionResults fn [])
  | .nothing => False
  | .panicked _ => ∃ ks rs k, tickets = ks ++ [k] ∧ List.Forall₂ (Own w) ks rs ∧ Lost w k

theorem shares_session (hb : Bookkeeping x site.dir) (hl : Lasting x Own Lost)
    (hs : SessionSteps x c site fn Own Lost) (hn : n ≤ 1) :
    (c.sessionAnalysis site fn group).Shares x (Holding n (CameInSession Own Lost fn))
      { groups := n } w₀ := by
  have hnone : Collected Own n { groups := n } [] w₀ := ⟨rfl, .nil⟩
  refine Job.shares_bind hb.lawful
    (Session.shares_job (supported_session hb hl hs hn) c.sessionStages hnone) ?_
  intro g' out w _ hcame
  cases out with
  | error why =>
    change Broken Own Lost n g' w at hcame
    exact shares_close hb (hcame.1 ▸ hn) _ _ fun w' hrely => hcame.rely hl hrely
  | ok o =>
    change Collected Own n g' o.results w at hcame
    apply shares_close hb (hcame.1 ▸ hn)
    intro w' hrely
    have hthen := hcame.rely hl hrely
    refine ⟨hthen.1, ?_⟩
    -- Without results no ticket was drawn.
    cases hresults : o.results with
    | nil =>
      rw [hresults] at hthen
      exact Or.inr ⟨List.forall₂_nil_right_iff.mp hthen.2, rfl⟩
    | cons r rs =>
      rw [hresults] at hthen
      exact Or.inl hthen.2

end

/-! ## Batches -/

/-- A batch of a campaign, as it is handed to the scheduler. -/
def batchCall {α : Type} (c : Campaign) (cutoff : Host.Cutoff) (k : Nat)
    (fallback : String → Failure → α) (tasks : List (Task World α)) : BatchCall World α :=
  { tasks := tasks
    stop := fun w => cutoff.reached? w.host
    fallback := fallback
    events := (c.interleaving k).map (·.map Signal.apply) }

/-- The tasks of a batch share a campaign if each of them plays by the rules and no signal interferes
with them. -/
theorem runBatch_shares (hx : x.Lawful) (c : Campaign) (cutoff : Host.Cutoff) (k : Nat)
    {ι α : Type} (items : List ι) (task : ι → Task World α) (fallback : String → Failure → α)
    (post : ι → List Nat → TaskEnd α → World → Prop) {w : World} (hinv : x.inv w)
    (hfree : (Scheduler.ofLimit c.limit).limit ≤ x.free w)
    (hbody : ∀ i ∈ items, ∀ w, (task i).body.Shares x (Holding 0 (post i)) {} w)
    (hsignals : ∀ signal, .outside signal ∈ c.interleaving k → ∀ w, x.inv w →
      x.inv (signal.apply w) ∧ x.rely w (signal.apply w) ∧ x.free (signal.apply w) = x.free w ∧
        x.issued (signal.apply w) = x.issued w) :
    let call := c.batchCall cutoff k fallback (items.map task)
    let out := c.runBatch cutoff k fallback (items.map task) w
    x.inv out.2 ∧ x.rely w out.2 ∧ ∃ outs : List (α × List Nat), outs.map (·.1) = out.1 ∧
      (outs.flatMap (·.2)).Perm (List.range' (x.issued w) (x.issued out.2 - x.issued w)) ∧
      List.Forall₂ (fun i => Batch.Delivers x ((Scheduler.ofLimit c.limit).rules call)
        (fun _ => post i) out.2 (task i)) items outs := by
  intro call out
  have hshares := Scheduler.call_shares_each hx items task post (s := Scheduler.ofLimit c.limit)
    (c := call) rfl rfl (Scheduler.limit_ofLimit_pos c.limit) hinv hfree
    (fun i hi w' _ _ => hbody i hi w') ?_
  · exact hshares
  · intro change hmem w' hw'
    -- What comes from outside are the signals of the interleaving.
    obtain ⟨signal, hsignal, rfl⟩ := BatchEvent.exists_of_outside_mem_map hmem
    exact hsignals signal hsignal w' hw'

end Campaign
end FaultChain
