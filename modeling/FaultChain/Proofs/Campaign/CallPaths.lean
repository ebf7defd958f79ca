import FaultChain.Proofs.CallGraph.Paths
import FaultChain.Proofs.Campaign.Propagation

/-!
# Errors along call paths

In a graph without cycles the errors that grow from a single one are those along the call paths to
its function, unless two calls of a batch share an image.

* `Campaign.Early`: the paths whose outermost call is in one of the first batches.
* `Campaign.Follows`: the registered errors are those along early paths.
* `Campaign.Follows.handles`: a batch without shared images takes these paths one call further.
* `Campaign.Follows.misplaced`: two calls that share an image leave an error of no path.
-/

namespace FaultChain
namespace Campaign

open CallGraph (CallPath pathFrames pathTrace outermost Plain Acyclic PlacedAt)

variable {c : Campaign} {site : Site} {cutoff : Host.Cutoff} {loc : Call → String}
  {info : List (String × NodeInfo)} {b : String} {bug : Frame} {k : Nat}

/-- The outermost call of a path is in one of the first `k` batches. -/
def Early (g : CallGraph) (removeMain : Bool) (k : Nat) : List String → Prop
  | _ :: f :: _ => g.rank removeMain f < k
  | _ => True

/-- The errors registered before batch `k`: one for each early path to `b`. -/
def Follows (c : Campaign) (g : CallGraph) (b : String) (bug : Frame) (loc : Call → String)
    (k : Nat) (r : Registry) : Prop :=
  ∃ ps : List (List String), ps.Nodup ∧
    (∀ p, p ∈ ps ↔ CallPath g.nodes b p ∧ Early g c.options.removeMain k p) ∧
    (r.order.map (·.trace)).Perm (ps.map (pathTrace bug loc))

/-- Two calls of a batch that have errors of different functions to offer share an image. -/
def Clash (site : Site) (g : CallGraph) (b : String) (batch : List Call) : Prop :=
  ∃ x ∈ batch, ∃ y ∈ batch, x.callee ≠ y.callee ∧
    site.dir.edgeImage x.caller x.callee = site.dir.edgeImage y.caller y.callee ∧
    (∃ p, CallPath g.nodes b (x.callee :: p)) ∧ ∃ p, CallPath g.nodes b (y.callee :: p)

/-! ## Early paths -/

/-- All paths from a function are early once its rank is reached. -/
theorem early_of_rank (hplain : Plain (CallGraph.ofInfo info) c.options.removeMain)
    (hacyclic : Acyclic (CallGraph.ofInfo info).nodes) {p : List String}
    (h : CallPath (CallGraph.ofInfo info).nodes b p)
    (hrank : (CallGraph.ofInfo info).rank c.options.removeMain (outermost p) = k) :
    Early (CallGraph.ofInfo info) c.options.removeMain k p := by
  cases h with
  | start => trivial
  | @caller f g p hcall _ =>
    have hlt := CallGraph.rank_lt_rank hacyclic.onlyLoops
      ((hplain.mem_eligibleCallees_iff hacyclic).mpr hcall)
    exact hrank ▸ hlt

/-- What a path says of a call in batch `k`. -/
theorem rank_of_placedAt (hacyclic : Acyclic (CallGraph.ofInfo info).nodes) {call : Call}
    (h : PlacedAt (CallGraph.ofInfo info) c.options.removeMain k call) :
    (CallGraph.ofInfo info).rank c.options.removeMain call.callee = k ∧
      k < (CallGraph.ofInfo info).rank c.options.removeMain call.caller := by
  rcases (CallGraph.placedAt_iff_rank hacyclic).mp h with ⟨hcallee, rfl⟩
  exact ⟨rfl, CallGraph.rank_lt_rank hacyclic.onlyLoops hcallee⟩

section

variable {s s' : State} {batch : List Call} {call : Call} {e : Fault}

/-- Every registered error is along a path. -/
theorem Follows.exists_path (h : Follows c (CallGraph.ofInfo info) b bug loc k s.registry)
    (he : e ∈ s.registry.order) :
    ∃ p, CallPath (CallGraph.ofInfo info).nodes b p ∧
      Early (CallGraph.ofInfo info) c.options.removeMain k p ∧ e.trace = pathTrace bug loc p := by
  rcases h with ⟨ps, -, hps, hperm⟩
  have hmem : e.trace ∈ ps.map (pathTrace bug loc) :=
    hperm.mem_iff.mp (List.mem_map_of_mem he)
  rcases List.mem_map.mp hmem with ⟨p, hp, heq⟩
  rcases (hps p).mp hp with ⟨hpath, hearly⟩
  exact ⟨p, hpath, hearly, heq.symm⟩

/-- No error of a callee is known to a caller before its batch: the errors of the caller have come
by callees of smaller ranks. -/
theorem Follows.knownTo_eq_false (hplain : Plain (CallGraph.ofInfo info) c.options.removeMain)
    (hacyclic : Acyclic (CallGraph.ofInfo info).nodes) (hbug : bug.function = b)
    (hs : Settled site s) (h : Follows c (CallGraph.ofInfo info) b bug loc k s.registry)
    (hcall : PlacedAt (CallGraph.ofInfo info) c.options.removeMain k call)
    (he : e ∈ s.registry.order) (hentry : e.entry = call.callee) :
    s.registry.knownTo call.caller e = false := by
  rcases rank_of_placedAt hacyclic hcall with ⟨hrank, hcaller⟩
  rw [Bool.eq_false_iff]
  intro hknown
  rcases List.any_eq_true.mp hknown with ⟨other, hother, hcontained⟩
  rcases hs.indexed.mem_get_byEntry.mp hother with ⟨hmem, hother⟩
  rcases h.exists_path he with ⟨p, hp, -, htrace⟩
  rcases h.exists_path hmem with ⟨q, hq, hearly, htrace'⟩
  -- The callee is on the path of the other error, behind the caller.
  have hcallee : outermost p = call.callee := by
    rw [← hentry, ← hs.entries e he, htrace]
    rfl
  have houter : outermost q = call.caller := by
    rw [← hother, ← hs.entries other hmem, htrace']
    rfl
  have hprefix := Trace.prefix_of_isContainedIn hcontained
  rw [htrace, htrace'] at hprefix
  have hsuffix : p <:+ q := (hp.pathFrames_prefix_iff hq hbug).mp hprefix
  have hin : call.callee ∈ p := by
    rcases hp.cons_outermost with ⟨p', hp'⟩
    rw [hp', ← hcallee]
    exact List.mem_cons_self
  cases hq with
  | start =>
    have hsame : call.callee = b := List.mem_singleton.mp (hsuffix.subset hin)
    have hb : b = call.caller := houter
    rw [hsame, hb] at hrank
    omega
  | @caller f g q' hfg hrest =>
    rcases List.suffix_cons_iff.mp hsuffix with rfl | hsuffix'
    · have hsame : call.callee = call.caller := hcallee.symm.trans houter
      rw [hsame] at hrank
      omega
    · have hle := hrest.rank_le hplain hacyclic call.callee (hsuffix'.subset hin)
      have hlt : (CallGraph.ofInfo info).rank c.options.removeMain g < k := hearly
      have hg : outermost (g :: q') = g := rfl
      rw [hg, hrank] at hle
      omega

/-- All errors of a callee are offered in the batch of the call. -/
theorem Follows.offers_eq (hplain : Plain (CallGraph.ofInfo info) c.options.removeMain)
    (hacyclic : Acyclic (CallGraph.ofInfo info).nodes) (hbug : bug.function = b)
    (hs : Settled site s) (h : Follows c (CallGraph.ofInfo info) b bug loc k s.registry)
    (hcall : PlacedAt (CallGraph.ofInfo info) c.options.removeMain k call) :
    c.offers s.registry call = s.registry.order.filter fun e => e.trace.entry = call.callee := by
  unfold offers
  rw [hs.indexed.byEntry, List.filter_filter]
  refine List.filter_congr ?_
  intro e he
  rw [hs.entries e he]
  by_cases hentry : e.entry = call.callee
  · have hunknown := h.knownTo_eq_false hplain hacyclic hbug hs hcall he hentry
    simp [hentry, hunknown]
  · simp [hentry]

/-- The traces offered are those of the paths from the callee. -/
theorem Follows.offers_perm (hplain : Plain (CallGraph.ofInfo info) c.options.removeMain)
    (hacyclic : Acyclic (CallGraph.ofInfo info).nodes) (hbug : bug.function = b)
    (hs : Settled site s) (h : Follows c (CallGraph.ofInfo info) b bug loc k s.registry)
    (hcall : PlacedAt (CallGraph.ofInfo info) c.options.removeMain k call)
    {ps : List (List String)}
    (hperm : (s.registry.order.map (·.trace)).Perm (ps.map (pathTrace bug loc))) :
    ((c.offers s.registry call).map (·.trace)).Perm
      ((ps.filter fun p => outermost p = call.callee).map (pathTrace bug loc)) := by
  rw [h.offers_eq hplain hacyclic hbug hs hcall]
  have hfilter := hperm.filter fun t => decide (t.entry = call.callee)
  rw [List.filter_map, List.filter_map] at hfilter
  exact hfilter

/-- A call is handled in its batch exactly if its callee leads to `b`. -/
theorem Follows.offers_ne_nil_iff (hplain : Plain (CallGraph.ofInfo info) c.options.removeMain)
    (hacyclic : Acyclic (CallGraph.ofInfo info).nodes) (hbug : bug.function = b)
    (hs : Settled site s) (h : Follows c (CallGraph.ofInfo info) b bug loc k s.registry)
    (hcall : PlacedAt (CallGraph.ofInfo info) c.options.removeMain k call) :
    c.offers s.registry call ≠ [] ↔
      ∃ p, CallPath (CallGraph.ofInfo info).nodes b (call.callee :: p) := by
  have hoffers := h.offers_eq hplain hacyclic hbug hs hcall
  rcases rank_of_placedAt hacyclic hcall with ⟨hrank, -⟩
  constructor
  · intro hne
    rcases List.exists_mem_of_ne_nil _ hne with ⟨e, he⟩
    rw [hoffers, List.mem_filter] at he
    rcases h.exists_path he.1 with ⟨p, hp, -, htrace⟩
    have hentry : outermost p = call.callee := by
      have := he.2
      simpa [htrace, pathTrace] using this
    rcases hp.cons_outermost with ⟨q, hq⟩
    rw [hq, hentry] at hp
    exact ⟨q, hp⟩
  · rintro ⟨p, hp⟩ hnil
    rcases h with ⟨ps, -, hps, hperm⟩
    -- The path through the callee was completed in an earlier batch.
    have hearly := early_of_rank (c := c) hplain hacyclic hp hrank
    have hmem : pathTrace bug loc (call.callee :: p) ∈ s.registry.order.map (·.trace) :=
      hperm.mem_iff.mpr (List.mem_map_of_mem ((hps _).mpr ⟨hp, hearly⟩))
    rcases List.mem_map.mp hmem with ⟨e, he, htrace⟩
    have hin : e ∈ c.offers s.registry call := by
      rw [hoffers, List.mem_filter]
      exact ⟨he, by simp [htrace, pathTrace, outermost]⟩
    rw [hnil] at hin
    cases hin

/-! ## A batch without shared images -/

theorem carried_pathTrace {p : List String} (hp : CallPath (CallGraph.ofInfo info).nodes b p)
    (houter : outermost p = call.callee) :
    carried loc call (pathTrace bug loc p) = pathTrace bug loc (call.caller :: p) := by
  rcases hp.cons_outermost with ⟨q, hq⟩
  rw [houter] at hq
  subst hq
  rcases call with ⟨caller, callee⟩
  simp [carried, pathTrace, pathFrames, outermost]

/-- A path with a caller in front of it. -/
def extensions (ps : List (List String)) (es : List Edge) : List (List String) :=
  es.flatMap fun x =>
    (ps.filter fun p => outermost p = x.call.callee).map fun p => x.call.caller :: p

theorem mem_extensions_iff {ps : List (List String)} {es : List Edge} {p : List String} :
    p ∈ extensions ps es ↔ ∃ x ∈ es, ∃ q ∈ ps, outermost q = x.call.callee ∧
      p = x.call.caller :: q := by
  simp only [extensions, List.mem_flatMap, List.mem_map, List.mem_filter, decide_eq_true_eq]
  constructor
  · rintro ⟨x, hx, q, ⟨hq, houter⟩, rfl⟩
    exact ⟨x, hx, q, hq, houter, rfl⟩
  · rintro ⟨x, hx, q, hq, houter, rfl⟩
    exact ⟨x, hx, q, ⟨hq, houter⟩, rfl⟩

theorem nodup_extensions {ps : List (List String)} (hps : ps.Nodup) {es : List Edge}
    (hes : es.Pairwise fun x y => x.call ≠ y.call) : (extensions ps es).Nodup := by
  unfold extensions
  rw [List.nodup_flatMap]
  constructor
  · intro x _
    exact (hps.filter _).map fun p q heq => (List.cons.inj heq).2
  · refine hes.imp ?_
    intro x y hne p hp hq
    rcases List.mem_map.mp hp with ⟨p', hp', rfl⟩
    rcases List.mem_map.mp hq with ⟨q', hq', heq⟩
    rcases List.cons.inj heq with ⟨hcaller, rfl⟩
    have hx : outermost q' = x.call.callee := by simpa using (List.mem_filter.mp hp').2
    have hy : outermost q' = y.call.callee := by simpa using (List.mem_filter.mp hq').2
    -- A common extension has the caller first and leads on to the callee, so the calls agree.
    refine hne ?_
    rcases hxc : x.call with ⟨f, g⟩
    rcases hyc : y.call with ⟨f', g'⟩
    rw [hxc] at hcaller hx
    rw [hyc] at hcaller hy
    have hg : g = g' := hx.symm.trans hy
    have hf : f' = f := hcaller
    rw [hg, hf]

theorem pairwise_edges {r : Registry} (hbatch : batch.Nodup) :
    (c.edges site r batch).Pairwise fun x y => x.call ≠ y.call := by
  unfold edges
  refine List.Pairwise.filter _ (List.pairwise_map.mpr ?_)
  exact hbatch

/-- Without a clash what is in the image of a call is what its callee has to offer. -/
theorem offers_source (hplain : Plain (CallGraph.ofInfo info) c.options.removeMain)
    (hacyclic : Acyclic (CallGraph.ofInfo info).nodes) (hbug : bug.function = b)
    (hs : Settled site s) (h : Follows c (CallGraph.ofInfo info) b bug loc k s.registry)
    (hbatch : ∀ call ∈ batch, PlacedAt (CallGraph.ofInfo info) c.options.removeMain k call)
    (hclash : ¬ Clash site (CallGraph.ofInfo info) b batch) {source : String → Edge}
    (hsource : Sources (c.edges site s.registry batch) source) {x : Edge}
    (hx : x ∈ c.edges site s.registry batch) :
    c.offers s.registry (source x.image).call = c.offers s.registry x.call := by
  have hmem := hsource.mem x hx
  have himage := hsource.image x hx
  generalize source x.image = y at hmem himage
  rcases mem_edges_iff.mp hx with ⟨call, hcall, hoffers, rfl⟩
  rcases mem_edges_iff.mp hmem with ⟨call', hcall', hoffers', rfl⟩
  -- Two callees that lead to the error and share an image would be a clash.
  have hcallee : call'.callee = call.callee := by
    by_contra hne
    refine hclash ⟨call', hcall', call, hcall, hne, himage, ?_, ?_⟩
    · exact (h.offers_ne_nil_iff hplain hacyclic hbug hs (hbatch _ hcall')).mp hoffers'
    · exact (h.offers_ne_nil_iff hplain hacyclic hbug hs (hbatch _ hcall)).mp hoffers
  rw [h.offers_eq hplain hacyclic hbug hs (hbatch _ hcall),
    h.offers_eq hplain hacyclic hbug hs (hbatch _ hcall'), hcallee]

theorem Early.succ {g : CallGraph} {removeMain : Bool} {p : List String}
    (h : Early g removeMain k p) : Early g removeMain (k + 1) p := by
  rcases p with _ | ⟨f, _ | ⟨f', p⟩⟩
  · trivial
  · trivial
  · exact Nat.lt_succ_of_lt h

/-- The paths that are early after a batch are those before it, and their extensions by calls of the
batch. -/
theorem Follows.mem_extended_iff (hplain : Plain (CallGraph.ofInfo info) c.options.removeMain)
    (hacyclic : Acyclic (CallGraph.ofInfo info).nodes) (hbug : bug.function = b)
    (hs : Settled site s) (h : Follows c (CallGraph.ofInfo info) b bug loc k s.registry)
    (hbatch : ((CallGraph.ofInfo info).batches c.options.removeMain)[k]? = some batch)
    {ps : List (List String)} (hps : ∀ p, p ∈ ps ↔ CallPath (CallGraph.ofInfo info).nodes b p ∧
      Early (CallGraph.ofInfo info) c.options.removeMain k p) {p : List String} :
    p ∈ ps ∨ p ∈ extensions ps (c.edges site s.registry batch) ↔
      CallPath (CallGraph.ofInfo info).nodes b p ∧
        Early (CallGraph.ofInfo info) c.options.removeMain (k + 1) p := by
  rw [mem_extensions_iff]
  constructor
  · rintro (hp | ⟨x, hx, q, hq, houter, rfl⟩)
    · rcases (hps p).mp hp with ⟨hpath, hearly⟩
      exact ⟨hpath, hearly.succ⟩
    · rcases mem_edges_iff.mp hx with ⟨call, hcall, -, rfl⟩
      rcases (CallGraph.placedAt_iff_rank hacyclic).mp ⟨batch, hbatch, hcall⟩ with
        ⟨hcallee, hrank⟩
      have hpath := ((hps q).mp hq).1
      rcases hpath.cons_outermost with ⟨q', hq'⟩
      rw [houter] at hq'
      subst hq'
      refine ⟨.caller ((hplain.mem_eligibleCallees_iff hacyclic).mp hcallee) hpath, ?_⟩
      exact hrank ▸ Nat.lt_succ_self _
  · rintro ⟨hpath, hearly⟩
    have hpath' := hpath
    cases hpath with
    | start => exact Or.inl ((hps _).mpr ⟨hpath', trivial⟩)
    | @caller f g q hcall hrest =>
      have hle : (CallGraph.ofInfo info).rank c.options.removeMain g < k + 1 := hearly
      by_cases hlt : (CallGraph.ofInfo info).rank c.options.removeMain g < k
      · exact Or.inl ((hps _).mpr ⟨hpath', hlt⟩)
      · -- The outermost call is one of this batch, and the rest of the path was early before.
        have hrank : (CallGraph.ofInfo info).rank c.options.removeMain g = k := by omega
        have hcallee := (hplain.mem_eligibleCallees_iff hacyclic).mpr hcall
        have hplaced : PlacedAt (CallGraph.ofInfo info) c.options.removeMain k ⟨f, g⟩ :=
          (CallGraph.placedAt_iff_rank hacyclic).mpr ⟨hcallee, hrank.symm⟩
        have hoffers : c.offers s.registry ⟨f, g⟩ ≠ [] :=
          (h.offers_ne_nil_iff hplain hacyclic hbug hs hplaced).mpr ⟨q, hrest⟩
        have hmem : (⟨f, g⟩ : Call) ∈ batch := by
          rcases hplaced with ⟨batch', hbatch', hmem⟩
          rw [hbatch] at hbatch'
          cases hbatch'
          exact hmem
        refine Or.inr ⟨_, mem_edges_iff.mpr ⟨_, hmem, hoffers, rfl⟩, g :: q, ?_, rfl, rfl⟩
        exact (hps _).mpr ⟨hrest, early_of_rank hplain hacyclic hrest hrank⟩

/-- A batch without a clash takes the paths one call further. -/
theorem Follows.handles (hplain : Plain (CallGraph.ofInfo info) c.options.removeMain)
    (hacyclic : Acyclic (CallGraph.ofInfo info).nodes) (hbug : bug.function = b)
    (hs : Settled site s) (h : Follows c (CallGraph.ofInfo info) b bug loc k s.registry)
    (hbatch : ((CallGraph.ofInfo info).batches c.options.removeMain)[k]? = some batch)
    (hclash : ¬ Clash site (CallGraph.ofInfo info) b batch)
    (hhandles : Handles c site cutoff loc batch s s') :
    Follows c (CallGraph.ofInfo info) b bug loc (k + 1) s'.registry := by
  have hplaced : ∀ call ∈ batch, PlacedAt (CallGraph.ofInfo info) c.options.removeMain k call :=
    fun call hcall => ⟨batch, hbatch, hcall⟩
  have hfollows := h
  rcases h with ⟨ps, hnodup, hps, hperm⟩
  rcases hhandles.order with ⟨source, new, hsource, horder, hnew⟩
  have hes : ∀ x ∈ c.edges site s.registry batch, x.call ∈ batch := by
    intro x hx
    rcases mem_edges_iff.mp hx with ⟨call, hcall, -, rfl⟩
    exact hcall
  -- What is added are the paths with a caller of the batch in front.
  have hadded : (new.map (·.trace)).Perm
      ((extensions ps (c.edges site s.registry batch)).map (pathTrace bug loc)) := by
    refine hnew.trans ?_
    unfold extensions
    rw [List.map_flatMap]
    refine List.Perm.flatMap_left _ ?_
    intro x hx
    rw [offers_source hplain hacyclic hbug hs hfollows hplaced hclash hsource hx]
    have hoffers := (hfollows.offers_perm hplain hacyclic hbug hs (hplaced _ (hes x hx)) hperm).map
      (carried loc x.call)
    rw [List.map_map, List.map_map] at hoffers
    rw [List.map_map]
    refine hoffers.trans (List.Perm.of_eq (List.map_congr_left ?_))
    intro p hp
    rcases List.mem_filter.mp hp with ⟨hmem, houter⟩
    exact carried_pathTrace ((hps p).mp hmem).1 (by simpa using houter)
  refine ⟨ps ++ extensions ps (c.edges site s.registry batch), ?_, ?_, ?_⟩
  · rw [List.nodup_append]
    refine ⟨hnodup, nodup_extensions hnodup (pairwise_edges ?_), ?_⟩
    · exact CallGraph.nodup_of_mem_batches (List.mem_of_getElem? hbatch)
    · -- The outermost call of an older path is in an earlier batch.
      rintro p hp _ hextended rfl
      rcases mem_extensions_iff.mp hextended with ⟨x, hx, q, hq, houter, rfl⟩
      rcases ((hps q).mp hq).1.cons_outermost with ⟨q', hq'⟩
      have hearly := ((hps _).mp hp).2
      rw [hq', houter] at hearly
      have hrank := (rank_of_placedAt hacyclic (hplaced _ (hes x hx))).1
      have hlt : (CallGraph.ofInfo info).rank c.options.removeMain x.call.callee < k := hearly
      omega
  · intro p
    rw [List.mem_append]
    exact hfollows.mem_extended_iff hplain hacyclic hbug hs hbatch hps
  · rw [horder, List.map_append, List.map_append]
    exact hperm.append hadded

/-! ## A batch with shared images -/

/-- An error whose outermost frame is not one of its entry function. -/
def Misplaced (r : Registry) : Prop :=
  ∃ e ∈ r.order, e.trace.frames.getLast?.map (·.function) ≠ some e.entry

theorem Misplaced.handles (h : Misplaced s.registry)
    (hhandles : Handles c site cutoff loc batch s s') : Misplaced s'.registry := by
  rcases h with ⟨e, he, hlast⟩
  rcases hhandles.order with ⟨_, new, -, horder, -⟩
  refine ⟨e, ?_, hlast⟩
  rw [horder]
  exact List.mem_append_left _ he

/-- In a batch with a clash a caller is offered errors of a function it does not call there. -/
theorem exists_foreign_source {es : List Edge} (source : String → Edge) {x y : Edge} (hx : x ∈ es)
    (hy : y ∈ es) (himage : x.image = y.image) (hne : x.call.callee ≠ y.call.callee) :
    ∃ u ∈ es, (source u.image).call.callee ≠ u.call.callee := by
  by_cases hsame : (source x.image).call.callee = x.call.callee
  · refine ⟨y, hy, ?_⟩
    rw [← himage, hsame]
    exact hne
  · exact ⟨x, hx, hsame⟩

theorem Follows.misplaced (hplain : Plain (CallGraph.ofInfo info) c.options.removeMain)
    (hacyclic : Acyclic (CallGraph.ofInfo info).nodes) (hbug : bug.function = b)
    (hs : Settled site s) (h : Follows c (CallGraph.ofInfo info) b bug loc k s.registry)
    (hbatch : ((CallGraph.ofInfo info).batches c.options.removeMain)[k]? = some batch)
    (hclash : Clash site (CallGraph.ofInfo info) b batch)
    (hhandles : Handles c site cutoff loc batch s s') : Misplaced s'.registry := by
  have hplaced : ∀ call ∈ batch, PlacedAt (CallGraph.ofInfo info) c.options.removeMain k call :=
    fun call hcall => ⟨batch, hbatch, hcall⟩
  have hedge : ∀ call ∈ batch, (∃ p, CallPath (CallGraph.ofInfo info).nodes b (call.callee :: p)) →
      (⟨call, s.registry.toPrepend call.caller call.callee c.options.excludeKnown,
        site.dir.edgeImage call.caller call.callee⟩ : Edge) ∈ c.edges site s.registry batch := by
    intro call hcall hpath
    have hoffers := (h.offers_ne_nil_iff hplain hacyclic hbug hs (hplaced _ hcall)).mpr hpath
    exact mem_edges_iff.mpr ⟨call, hcall, hoffers, rfl⟩
  rcases hclash with ⟨x, hx, y, hy, hne, himage, hxpath, hypath⟩
  rcases hhandles.order with ⟨source, new, hsource, horder, hnew⟩
  rcases exists_foreign_source source (hedge x hx hxpath) (hedge y hy hypath) himage hne with
    ⟨u, hu, hforeign⟩
  -- An error is carried over to the caller without a frame of its own.
  rcases mem_edges_iff.mp (hsource.mem u hu) with ⟨z, hzcall, hzoffers, hzeq⟩
  rcases List.exists_mem_of_ne_nil _ hzoffers with ⟨e, he⟩
  rcases mem_edges_iff.mp hu with ⟨v, hvcall, -, hveq⟩
  rw [hzeq, hveq] at hforeign
  rcases (mem_offers_iff hs.indexed).mp he with ⟨hmem, hentry, -⟩
  have hcarried : carried loc v e.trace ∈ new.map (·.trace) := by
    refine hnew.mem_iff.mpr (List.mem_flatMap.mpr ⟨u, hu, ?_⟩)
    rw [hzeq, hveq]
    exact List.mem_map.mpr ⟨e, he, rfl⟩
  rcases List.mem_map.mp hcarried with ⟨e', he', htrace⟩
  have hmem' : e' ∈ s'.registry.order := by
    rw [horder]
    exact List.mem_append_right _ he'
  have hframes : e'.trace.frames = e.trace.frames := by
    rw [htrace, carried, hs.entries e hmem, hentry]
    simp [hforeign]
  have hentry' : e'.entry = v.caller := by
    rw [← hhandles.settled.entries e' hmem', htrace]
    rfl
  refine ⟨e', hmem', ?_⟩
  rcases h.exists_path hmem with ⟨p, hp, -, hpath⟩
  have hlast : e.trace.frames.getLast?.map (·.function) = some z.callee := by
    have houter : outermost p = z.callee := by
      rw [← hentry, ← hs.entries e hmem, hpath]
      rfl
    rw [hpath, ← houter]
    exact hp.getLast?_pathFrames hbug
  rw [hframes, hlast, hentry']
  -- The caller has a larger rank than all callees of the batch.
  intro hsame
  have hrank := (rank_of_placedAt hacyclic (hplaced z hzcall)).1
  have hlt := (rank_of_placedAt hacyclic (hplaced v hvcall)).2
  rw [Option.some.inj hsame] at hrank
  omega

end

end Campaign
end FaultChain
