import FaultChain.Campaign.Propagation
import FaultChain.Proofs.Files
import FaultChain.Proofs.Work.Sharing
import FaultChain.Rehearsal.Campaign

/-!
# The images of a batch

The images of a batch are built side by side, in any order the workers find. What a run is offered is
what was prepended into its image last, which need not be what its own call has to offer.

* `Toolchain.Reliable`: what is asked of the compiler.
* `Campaign.Filled`: an image has the reports of a call that it is the image of.
* `Campaign.buildImages_spec`: all images are built, whatever the order, and each of them is filled.
* `Campaign.Sources`: for each image a call that it is filled by.
-/

namespace FaultChain

/-! ## Hosts in order -/

/-- Nothing is given up, and the index of runs can be stored. -/
structure World.InOrder (w : World) (dir : RunDir) : Prop where
  canceled : w.host.canceled = false
  abandoned : w.host.abandoned = false
  index : w.host.files.Replaceable (dir.path "klee.json")

instance (w : World) (dir : RunDir) : Decidable (w.InOrder dir) :=
  decidable_of_iff (w.host.canceled = false ∧ w.host.abandoned = false ∧
      w.host.files.Replaceable (dir.path "klee.json"))
    ⟨fun ⟨h₁, h₂, h₃⟩ => ⟨h₁, h₂, h₃⟩, fun h => ⟨h.canceled, h.abandoned, h.index⟩⟩

/-- Passes succeed while nothing is given up. They leave the reports and the place of the index
alone. -/
structure Toolchain.Reliable (t : Toolchain) (dir : RunDir) : Prop where
  ok : ∀ (p : Pass) (h : Host), h.isStopped = false → (t.transform p h).1 = .ok ()
  canceled : ∀ (p : Pass) (h : Host), h.isStopped = false → (t.transform p h).2.canceled = false
  keeps : ∀ (p : Pass) (h : Host), h.isStopped = false → h.files.Keeps (t.transform p h).2.files
  index : ∀ (p : Pass) (h : Host), h.isStopped = false →
    h.files.Replaceable (dir.path "klee.json") →
      (t.transform p h).2.files.Replaceable (dir.path "klee.json")

namespace Campaign

variable {c : Campaign} {site : Site}

/-! ## Images -/

theorem pass_spec (ht : c.toolchain.Reliable site.dir) {w : World} (hw : w.InOrder site.dir)
    (p : Pass) :
    ∃ w', w.pass p (c.toolchain.transform p) = (.ok (), w') ∧ w'.InOrder site.dir ∧
      w.host.files.Keeps w'.host.files ∧ w'.journal = w.journal ++ [.passed p true] := by
  have hrunning : w.host.isStopped = false := by simp [Host.isStopped, hw.canceled, hw.abandoned]
  have hok := ht.ok p w.host hrunning
  refine ⟨(w.pass p (c.toolchain.transform p)).2, ?_, ⟨?_, hw.abandoned, ?_⟩,
    ht.keeps p w.host hrunning, ?_⟩
  · exact Prod.ext hok rfl
  · simp [World.pass, World.onHost, World.note, World.withHost, Host.becoming, hw.canceled,
      ht.canceled p w.host hrunning]
  · exact ht.index p w.host hrunning hw.index
  · simp [World.pass, World.onHost, World.note, World.withHost, hok, Except.toBool]

/-- An image has the reports of a call that it is the image of. -/
def Filled (es : List Edge) (journal : List Deed) (image : String) : Prop :=
  ∃ y ∈ es, y.image = image ∧ CampaignScript.prepended journal image = y.reports

theorem prepended_prepend (journal : List Deed) (source function dest image : String)
    (reports : List String) (ok : Bool) :
    CampaignScript.prepended (journal ++ [.passed (.prepend source function dest reports) ok])
      image = if dest = image then reports else CampaignScript.prepended journal image := by
  by_cases himage : dest = image
  · simp [CampaignScript.prepended, himage]
  · simp [CampaignScript.prepended, himage]

theorem prepended_mergeConstants (journal : List Deed) (source dest image : String) (ok : Bool) :
    CampaignScript.prepended (journal ++ [.passed (.mergeConstants source dest) ok]) image =
      CampaignScript.prepended journal image := by
  simp [CampaignScript.prepended]

theorem prepended_explored (journal : List Deed) (run : SymbolicRun) (image : String) :
    CampaignScript.prepended (journal ++ [.explored run]) image =
      CampaignScript.prepended journal image := by
  simp [CampaignScript.prepended]

/-- The reports of a call are prepended: its image is filled, and others stay as they are. -/
theorem Filled.prepend {es : List Edge} {x : Edge} (hx : x ∈ es) (journal : List Deed)
    (source function image : String) (ok : Bool)
    (h : x.image = image ∨ Filled es journal image) :
    Filled es (journal ++ [.passed (.prepend source function x.image x.reports) ok]) image := by
  by_cases himage : x.image = image
  · exact ⟨x, hx, himage, by rw [prepended_prepend, if_pos himage]⟩
  · rcases h.resolve_left himage with ⟨y, hy, hsame, hreports⟩
    exact ⟨y, hy, hsame, by rw [prepended_prepend, if_neg himage, hreports]⟩

theorem Filled.mergeConstants {es : List Edge} {journal : List Deed} {image : String}
    (source dest : String) (ok : Bool) (h : Filled es journal image) :
    Filled es (journal ++ [.passed (.mergeConstants source dest) ok]) image := by
  rcases h with ⟨y, hy, himage, hreports⟩
  exact ⟨y, hy, himage, by rw [prepended_mergeConstants, hreports]⟩

/-! ## Building side by side -/

/-- The images of a batch are under construction, where `files` were there before. Nothing fails
before the campaign is told to stop, and until then an image that is filled stays so. -/
def building (site : Site) (es : List Edge) (files : FileTree) (slots : Nat) : Sharing World where
  inv w := w.host.canceled = false → w.InOrder site.dir ∧ files.Keeps w.host.files
  rely w w' := w'.host.canceled = false → w.host.canceled = false ∧
    ∀ image, Filled es w.journal image → Filled es w'.journal image
  free _ := slots
  issued _ := 0

section

variable {es : List Edge} {files : FileTree} {slots : Nat}

theorem building_lawful (site : Site) (es : List Edge) (files : FileTree) (slots : Nat) :
    (building site es files slots).Lawful where
  refl _ hgo := ⟨hgo, fun _ hfilled => hfilled⟩
  trans h h' hgo := by
    rcases h' hgo with ⟨hgo', hkept'⟩
    rcases h hgo' with ⟨hgo'', hkept⟩
    exact ⟨hgo'', fun image hfilled => hkept' image (hkept image hfilled)⟩
  issued_le _ := Nat.le_refl 0

/-- A step takes nothing that is counted. -/
theorem building_change {w w' : World} (hrely : (building site es files slots).rely w w')
    (hinv : (building site es files slots).inv w') :
    (building site es files slots).Change w w' {} {} :=
  .of_same hinv hrely rfl rfl (Nat.zero_le 1)

/-- Nothing is promised of a campaign that was told to stop. -/
theorem building_change_of_canceled {w w' : World} (hstop : w'.host.canceled = true) :
    (building site es files slots).Change w w' {} {} := by
  refine building_change ?_ ?_ <;>
  · intro hgo
    rw [hstop] at hgo
    cases hgo

/-- Neither a cancellation nor the passing of time does harm. -/
theorem building_signal (signal : Signal) {w : World}
    (hinv : (building site es files slots).inv w) :
    (building site es files slots).inv (signal.apply w) ∧
      (building site es files slots).rely w (signal.apply w) := by
  cases signal with
  | cancel => exact ⟨(nomatch ·), (nomatch ·)⟩
  | elapse nanos =>
    refine ⟨fun hgo => ?_, fun hgo => ⟨hgo, fun _ hfilled => hfilled⟩⟩
    rcases hinv hgo with ⟨hin, hfiles⟩
    exact ⟨⟨hin.canceled, hin.abandoned, hin.index⟩, hfiles⟩

/-- A pass of a campaign that is not told to stop has succeeded, and the image of a call is filled
after it. -/
def Passed (es : List Edge) (x : Edge) (g : Hand) (r : Except Failure Unit) (w : World) : Prop :=
  g = {} ∧ (w.host.canceled = false → r = .ok () ∧ Filled es w.journal x.image)

/-- The same of the whole construction of its image. -/
def Built (es : List Edge) (x : Edge) (e : TaskEnd (Option Failure)) (w : World) : Prop :=
  w.host.canceled = false → e = .returned none ∧ Filled es w.journal x.image

/-- A pass that keeps images filled, and fills that of a call if it was not. -/
theorem shares_pass (ht : c.toolchain.Reliable site.dir) {x : Edge} {w : World} (p : Pass)
    (hkeeps : ∀ journal image, Filled es journal image →
      Filled es (journal ++ [.passed p true]) image)
    (hfills : (w.host.canceled = false → Filled es w.journal x.image) ∨
      ∀ journal, Filled es (journal ++ [.passed p true]) x.image) :
    (Job.atomic fun w => w.pass p (c.toolchain.transform p)).Shares
      (building site es files slots) (Passed es x) {} w := by
  apply Job.shares_atomic
  intro w' hrely hinv _
  by_cases hgo : w'.host.canceled = false
  · rcases hinv hgo with ⟨hin, hfiles⟩
    rcases pass_spec ht hin p with ⟨w₁, hpass, hin₁, hfiles₁, hjournal⟩
    rcases hrely hgo with ⟨hgo₀, hkept⟩
    rw [hpass]
    refine ⟨{}, building_change (fun _ => ⟨hgo, ?_⟩) fun _ => ⟨hin₁, hfiles.trans hfiles₁⟩, rfl,
      fun _ => ⟨rfl, ?_⟩⟩
    · rw [hjournal]
      exact hkeeps w'.journal
    · change Filled es w₁.journal x.image
      rw [hjournal]
      rcases hfills with hfilled | hfills
      · exact hkeeps _ _ (hkept _ (hfilled hgo₀))
      · exact hfills _
  · have hstop : (w'.pass p (c.toolchain.transform p)).2.host.canceled = true := by
      simp [World.pass, World.onHost, World.note, World.withHost, Host.becoming, hgo]
    refine ⟨{}, building_change_of_canceled hstop, rfl, fun hgo' => ?_⟩
    rw [hstop] at hgo'
    cases hgo'

/-- Only a campaign that was told to stop gives images up. -/
theorem shares_giveUp {x : Edge} {f : Failure} {g : Hand} {w : World}
    (h : Passed es x g (.error f) w) :
    (giveUp f).Shares (building site es files slots)
      (fun g e w => g.groups = 0 ∧ Built es x e w) g w := by
  rcases h with ⟨rfl, hpassed⟩
  apply Job.shares_atomic
  intro w' hrely _ _
  have hstop : (abandon w' true).host.canceled = true := by
    by_contra hgo
    have hgo' : w'.host.canceled = false := Bool.eq_false_iff.mpr hgo
    cases (hpassed (hrely hgo').1).1
  refine ⟨{}, building_change_of_canceled hstop, rfl, fun hgo => ?_⟩
  rw [hstop] at hgo
  cases hgo

theorem shares_imageTask (ht : c.toolchain.Reliable site.dir) {x : Edge} (hx : x ∈ es)
    (w : World) :
    (c.imageTask site x).body.Shares (building site es files slots)
      (fun g e w => g.groups = 0 ∧ Built es x e w) {} w := by
  have hlaw := building_lawful site es files slots
  -- The first pass fills the image; by the second one, whoever has filled it, it still is.
  refine Job.shares_bind hlaw (shares_pass ht _
    (fun _ image hfilled => .prepend hx _ _ _ image true (.inr hfilled))
    (.inr fun _ => .prepend hx _ _ _ _ true (.inl rfl))) ?_
  rintro g (f | u) w₁ - hpassed
  · exact shares_giveUp hpassed
  · rcases hpassed with ⟨rfl, hpassed⟩
    refine Job.shares_bind hlaw (shares_pass ht _
      (fun _ _ hfilled => .mergeConstants _ _ true hfilled) (.inl fun hgo => (hpassed hgo).2)) ?_
    rintro g (f | u) w₂ - hpassed₂
    · exact shares_giveUp hpassed₂
    · rcases hpassed₂ with ⟨rfl, hpassed₂⟩
      exact Job.shares_pure ⟨rfl, fun hgo => ⟨rfl, (hpassed₂ hgo).2⟩⟩

/-- A batch of images, as it is handed to the scheduler. -/
def imageCall (c : Campaign) (site : Site) (k : Nat) (es : List Edge) :
    BatchCall World (Option Failure) :=
  { tasks := es.map (c.imageTask site)
    stop := fun _ => none
    fallback := fun _ why => some why
    events := (c.preparing k).map (·.map Signal.apply) }

/-- All images are built and filled, in whatever order, unless the campaign was told to stop. -/
theorem buildImages_spec (ht : c.toolchain.Reliable site.dir) (k : Nat) (es : List Edge)
    {w : World} (hw : w.InOrder site.dir)
    (hgo : (c.buildImages site k es w).2.host.canceled = false) :
    ∃ w', c.buildImages site k es w = (none, w') ∧ w'.InOrder site.dir ∧
      w.host.files.Keeps w'.host.files ∧ ∀ x ∈ es, Filled es w'.journal x.image := by
  let s := Scheduler.ofLimit c.limit
  let x := building site es w.host.files s.limit
  have hshares := Scheduler.call_shares_each (building_lawful site es w.host.files s.limit) es
    (c.imageTask site) (fun e _ => Built es e) (s := s) (c := c.imageCall site k es) rfl rfl
    (Scheduler.limit_ofLimit_pos c.limit) (fun _ => ⟨hw, .refl _⟩) (Nat.le_refl s.limit)
    (fun e he w' _ _ => shares_imageTask ht he w') ?_
  · rcases hshares with ⟨hinv, -, outs, hresults, -, hall⟩
    generalize hb : (s.call w (c.imageCall site k es)).1 = b at hinv hresults hall
    have hbuilt : c.buildImages site k es w =
        (b.results.findSome? id, abandon b.world false) := by
      rw [← hb]
      rfl
    rw [hbuilt] at hgo ⊢
    rcases hinv hgo with ⟨hin, hfiles⟩
    -- No image is refused, and the construction of each came to an end before the last moment.
    have hdone : List.Forall₂ (fun e (out : Option Failure × List Nat) =>
        out.1 = none ∧ Filled es b.world.journal e.image) es outs := by
      refine hall.imp ?_
      rintro e out (⟨-, _, why, -, -, hstop, -⟩ | ⟨_, w', hout, hrely, hpost⟩)
      · cases hstop
      · rcases hrely hgo with ⟨hgo', hkept⟩
        rcases hpost hgo' with ⟨rfl, hfilled⟩
        exact ⟨hout, hkept _ hfilled⟩
    refine ⟨abandon b.world false, ?_, ⟨hin.canceled, rfl, hin.index⟩, hfiles, ?_⟩
    · refine Prod.ext (List.findSome?_eq_none_iff.mpr ?_) rfl
      intro r hr
      rw [← hresults] at hr
      rcases List.mem_map.mp hr with ⟨out, hout, rfl⟩
      rcases exists_of_mem_forall₂ hdone hout with ⟨_, -, hnone, -⟩
      exact hnone
    · intro e he
      rcases List.getElem?_of_mem he with ⟨i, hi⟩
      rcases exists_getElem?_of_forall₂ hdone hi with ⟨_, -, -, hfilled⟩
      exact hfilled
  · intro change hmem w' hinv
    obtain ⟨signal, -, rfl⟩ := BatchEvent.exists_of_outside_mem_map hmem
    rcases building_signal signal hinv with ⟨hinv', hrely⟩
    exact ⟨hinv', hrely, rfl, rfl⟩

/-! ## What is offered -/

/-- For each image that is used, a call that it is the image of. -/
structure Sources (es : List Edge) (source : String → Edge) : Prop where
  mem : ∀ x ∈ es, source x.image ∈ es
  image : ∀ x ∈ es, (source x.image).image = x.image

/-- A run is offered the reports of the call that has filled its image. -/
theorem exists_sources {journal : List Deed} (h : ∀ x ∈ es, Filled es journal x.image) :
    ∃ source, Sources es source ∧
      ∀ x ∈ es, CampaignScript.prepended journal x.image = (source x.image).reports := by
  have hsource : ∀ image, ∃ y : Edge, Filled es journal image →
      y ∈ es ∧ y.image = image ∧ CampaignScript.prepended journal image = y.reports := by
    intro image
    by_cases hfilled : Filled es journal image
    · rcases hfilled with ⟨y, hy⟩
      exact ⟨y, fun _ => hy⟩
    · exact ⟨⟨⟨"", ""⟩, [], ""⟩, fun hfilled' => absurd hfilled' hfilled⟩
  choose source hsource using hsource
  exact ⟨source, ⟨fun x hx => (hsource _ (h x hx)).1, fun x hx => (hsource _ (h x hx)).2.1⟩,
    fun x hx => (hsource _ (h x hx)).2.2⟩

end

end Campaign
end FaultChain
