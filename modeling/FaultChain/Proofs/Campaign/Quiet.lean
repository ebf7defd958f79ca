import FaultChain.Campaign.Run
import FaultChain.Proofs.Campaign.Advances
import FaultChain.Proofs.Tools

/-!
# What a campaign does between runs

Setting up, adding entry points, building images and storing a summary change a campaign by a few
kinds of steps. A relation that permits each of them holds between the beginning and the end of all
of them.

* `Campaign.Permits`: a relation that permits the steps between runs.
* `Campaign.permits_advances`, `Campaign.permits_idles`: two such relations.
* `Campaign.Permits.prepare`, `Campaign.Permits.encapsulateAll`, `Campaign.Permits.buildImages`,
  `Campaign.Permits.finish`: what they permit.
-/

namespace FaultChain
namespace Campaign

variable {c : Campaign} {site : Site} {R : World → World → Prop} {P : String → Prop}

/-- A relation that permits the steps between runs. Files and hosts are changed in a tidy way. -/
structure Permits (c : Campaign) (R : World → World → Prop) : Prop where
  refl : ∀ w, R w w
  trans : ∀ {w w' w''}, R w w' → R w' w'' → R w w''
  files : ∀ {α : Type} (w : World) (f : FileTree → α × FileTree),
    (∀ t, t.Tidy → (f t).2.Tidy) → R w (w.onFiles f).2
  host : ∀ {α : Type} (w : World) (f : Host → α × Host),
    (∀ h, h.Tidy → (f h).2.Tidy) → R w (w.onHost f).2
  close : ∀ w span, R w (w.close span)
  abandon : ∀ w given, R w (abandon w given)
  signal : ∀ w (s : Signal), R w (s.apply w)
  transform : ∀ w p, R w (w.pass p (c.toolchain.transform p)).2
  extract : ∀ w image, R w (w.pass (.extract image) (c.toolchain.extract image)).2
  list : ∀ w image, R w (w.pass (.list image) (c.toolchain.list image)).2

theorem permits_advances (c : Campaign) (P : String → Prop) : c.Permits (World.Advances P) where
  refl := .refl
  trans h h' := h.trans h'
  files w f _ := w.advances_onFiles f
  host w f _ := w.advances_onHost f
  close w span := w.advances_close span
  abandon _ _ := .of_same ⟨id, Int.le_refl _⟩ rfl rfl
  signal w s := w.advances_signal s
  transform w p := w.advances_pass p _
  extract w _ := w.advances_pass _ _
  list w _ := w.advances_pass _ _

/-- Nothing is reserved, and the host stays tidy. -/
structure Idles (w w' : World) : Prop where
  index : w'.index = w.index
  tidy : w.host.Tidy → w'.host.Tidy

theorem permits_idles (hc : c.toolchain.Tidy) : c.Permits Idles where
  refl _ := ⟨rfl, id⟩
  trans h h' := ⟨h'.index.trans h.index, fun hw => h'.tidy (h.tidy hw)⟩
  files _ _ hf := ⟨rfl, fun hw => hw.withFiles (hf _ hw.files)⟩
  host _ _ hf := ⟨rfl, fun hw => .becoming _ (hf _ hw)⟩
  close _ _ := ⟨rfl, id⟩
  abandon _ _ := ⟨rfl, fun hw => ⟨hw.files, hw.programs⟩⟩
  signal _ s := by
    cases s with
    | cancel => exact ⟨rfl, fun hw => ⟨hw.files, hw.programs⟩⟩
    | elapse nanos => exact ⟨rfl, fun hw => ⟨hw.files, hw.programs⟩⟩
  transform _ p := ⟨rfl, fun hw => .becoming _ (hc.transform p _ hw)⟩
  extract _ image := ⟨rfl, fun hw => .becoming _ (hc.extract image _ hw)⟩
  list _ image := ⟨rfl, fun hw => .becoming _ (hc.list image _ hw)⟩

/-! ## Documents -/

theorem tidy_storeAll (d : RunDir) (docs : List (String × Option Json)) {t : FileTree}
    (ht : t.Tidy) : (storeAll d docs t).2.Tidy := by
  induction docs generalizing t with
  | nil => exact ht
  | cons doc docs ih =>
    rcases doc with ⟨name, none | doc⟩
    · exact ht
    · have hstored := RunDir.tidy_replaceFile ht (d.path name) doc.pretty
      unfold storeAll
      split
      · rename_i f t₁ heq
        exact hstored.of_eq heq
      · rename_i u t₁ heq
        exact ih (hstored.of_eq heq)

theorem tidy_openDir (d : RunDir) (start : Int) {t : FileTree} (ht : t.Tidy) :
    (c.openDir d start t).2.Tidy := by
  have hcopied := RunDir.tidy_copyFile ht c.options.bitcode d.program
  unfold openDir
  split
  · rename_i f t₁ heq
    exact hcopied.of_eq heq
  · rename_i u t₁ heq
    exact tidy_storeAll d _ (hcopied.of_eq heq)

namespace Permits

/-- The same for a step that gives something else as well. -/
theorem of_eq {α : Type} {w w' : World} {out : α × World} {a : α} (h : R w out.2)
    (heq : out = (a, w')) : R w w' := by
  rw [heq] at h
  exact h

/-! ## Images -/

theorem steps_giveUp (hR : c.Permits R) (f : Failure) : (giveUp f).Steps R :=
  Job.steps_atomic fun w => hR.abandon w true

theorem steps_imageTask (hR : c.Permits R) (site : Site) (e : Edge) :
    (c.imageTask site e).body.Steps R := by
  have hpass : ∀ p : Pass, (Job.atomic fun w => w.pass p (c.toolchain.transform p)).Steps R :=
    fun p => Job.steps_atomic fun w => hR.transform w p
  refine Job.steps_bind (hpass _) ?_
  rintro (f | u)
  · exact hR.steps_giveUp f
  · refine Job.steps_bind (hpass _) ?_
    rintro (f | u)
    · exact hR.steps_giveUp f
    · exact Job.steps_pure _

theorem buildImages (hR : c.Permits R) (k : Nat) (es : List Edge) (w : World) :
    R w (c.buildImages site k es w).2 := by
  refine hR.trans (Scheduler.runBatch_changes hR.refl (fun _ _ _ => hR.trans) _ _ ?_ ?_)
    (hR.abandon _ false)
  · intro change hmem w'
    obtain ⟨s, -, rfl⟩ := BatchEvent.exists_of_outside_mem_map hmem
    exact hR.signal w' s
  · intro t ht _ _ _
    rcases List.mem_map.mp ht with ⟨e, -, rfl⟩
    exact hR.steps_imageTask site e

theorem encapsulateAll (hR : c.Permits R) (cutoff : Host.Cutoff) (fs : List String) (w : World) :
    R w (c.encapsulateAll site cutoff fs w).2 := by
  induction fs generalizing w with
  | nil => exact hR.refl w
  | cons f fs ih =>
    unfold Campaign.encapsulateAll
    split
    · exact ih w
    · split
      · exact hR.refl w
      -- Whether the pass fails or not, the world has only gone as far as permitted.
      · have hpass := hR.transform w (.encapsulate site.dir.symMains f site.dir.symMains)
        dsimp only
        split
        · rename_i u w₁ heq
          exact hR.trans (of_eq hpass heq) (ih w₁)
        · rename_i why w₁ heq
          split
          · exact of_eq hpass heq
          · exact of_eq hpass heq

/-! ## Preparation -/

theorem extractGraph (hR : c.Permits R) (image : String) (w : World) :
    R w (c.extractGraph image w).2 := by
  unfold Campaign.extractGraph
  split
  · rename_i f w₁ heq
    exact of_eq (hR.extract w image) heq
  · rename_i info w₁ heq
    have hextract := of_eq (hR.extract w image) heq
    split
    · exact hextract
    · split
      · rename_i f w₂ heq₂
        exact hR.trans hextract (of_eq (hR.list w₁ image) heq₂)
      · rename_i reported w₂ heq₂
        exact hR.trans hextract (of_eq (hR.list w₁ image) heq₂)

theorem prepareFuzzing (hR : c.Permits R) (d : RunDir) (f : Fuzzer) (w : World) :
    R w (c.prepareFuzzing d f w).2 := by
  have hprepare : ∀ image w, R w (w.onHost (f.target.prepare image)).2 :=
    fun image w => hR.host w _ fun _ hh => f.target.tidy_prepare hh image
  have hfill : ∀ w, R w (w.onHost f.target.fillInputs).2 :=
    fun w => hR.host w _ fun _ hh => f.target.tidy_fillInputs hh
  have hlist : ∀ w, R w (w.onHost f.target.drivers).2 :=
    fun w => hR.host w _ fun _ hh => f.target.tidy_drivers hh
  unfold Campaign.prepareFuzzing
  dsimp only
  split
  · rename_i why w₁ heq
    exact of_eq (hprepare _ w) heq
  · rename_i u w₁ heq
    have hprepared := of_eq (hprepare _ w) heq
    split
    · rename_i why w₂ heq₂
      exact hR.trans hprepared (of_eq (hfill w₁) heq₂)
    · rename_i u₂ w₂ heq₂
      have hfilled := hR.trans hprepared (of_eq (hfill w₁) heq₂)
      split
      · rename_i why w₃ heq₃
        exact hR.trans hfilled (of_eq (hlist w₂) heq₃)
      · rename_i drivers w₃ heq₃
        have hlisted := hR.trans hfilled (of_eq (hlist w₂) heq₃)
        -- Whether groups are set up is only looked up.
        split
        · split
          · exact hlisted
          · exact hlisted
        · exact hlisted

theorem prepareIn (hR : c.Permits R) (d : RunDir) (w : World) : R w (c.prepareIn d w).world := by
  have hopen := hR.files w (c.openDir d w.host.clock) fun _ ht => tidy_openDir d _ ht
  unfold Campaign.prepareIn
  dsimp only
  split
  · rename_i f w₁ heq
    exact of_eq hopen heq
  · rename_i u w₁ heq
    have hopened := of_eq hopen heq
    have hextract := hR.extractGraph d.program w₁
    split
    · rename_i f w₂ heq₂
      exact hR.trans hopened (of_eq hextract heq₂)
    · rename_i graph w₂ heq₂
      -- The drawing of the graph is stored as far as possible.
      have hdraw := hR.files w₂ (fun t => ((), (t.write (d.path "callgraph.dot")
        graph.drawing).toOption.getD t)) fun t ht => ht.getD fun _ h => ht.write h
      have hdrawn := hR.trans (hR.trans hopened (of_eq hextract heq₂)) hdraw
      split
      · split
        · rename_i f w₃ heq₃
          exact hR.trans hdrawn (of_eq (hR.prepareFuzzing _ _ _) heq₃)
        · rename_i drivers w₃ heq₃
          exact hR.trans hdrawn (of_eq (hR.prepareFuzzing _ _ _) heq₃)
      · exact hdrawn

theorem prepare (hR : c.Permits R) (h : Host) :
    R { host := h, pool := GroupPool.ofConfig c.config c.limit } (c.prepare h).world := by
  have hcreate := hR.files { host := h, pool := GroupPool.ofConfig c.config c.limit }
    (RunDir.create c.options.parentDir h.clock) fun _ ht => RunDir.tidy_create ht _ _
  unfold Campaign.prepare
  dsimp only
  split
  · rename_i f w heq
    exact of_eq hcreate heq
  · rename_i d w heq
    exact hR.trans (of_eq hcreate heq) (hR.prepareIn d w)

/-! ## The end -/

/-- Storing the summary. -/
theorem finish (hR : c.Permits R) (site : Site) (s : State) :
    R s.world (Campaign.finish site s).2.2.world := by
  unfold Campaign.finish
  dsimp only
  split
  · rename_i f w heq
    exact of_eq (hR.files s.world _ fun _ ht => tidy_storeAll site.dir _ ht) heq
  · rename_i u w heq
    exact hR.trans (of_eq (hR.files s.world _ fun _ ht => tidy_storeAll site.dir _ ht) heq)
      (hR.files w _ fun _ ht => RunDir.tidy_linkLast ht site.dir)

end Permits
end Campaign
end FaultChain
