import Mathlib.Data.List.Pairwise
import Mathlib.Data.List.Perm.Subperm
import FaultChain.Proofs.Registry.Chains

/-!
# Chains and maximal traces

Where registered errors with equal frames are recognized, which only the strict mode does not do, the
traces of the chains are the maximal traces of the registered errors, each of one chain. Traces count
by their frames here. The chains found therefore do not depend on the order of registration.

* `Registry.Separate`: no two chains have comparable traces.
* `Registry.IsMaximal`: frames that no registered error properly extends.
* `Registry.mem_chain_frames_iff`: chains of a registry whose chains are separate.
* `Registry.mem_order_of_registerAll`: the errors registered do not depend on the order.
* `Registry.registerAll_chains_maximal`: the main statement.
-/

namespace FaultChain

open Trace (Comparable)

namespace Registry

/-! ## Separate chains -/

/-- No two chains have comparable traces. -/
def Separate (r : Registry) : Prop :=
  r.chains.Pairwise fun c d => ¬ Comparable c.trace.frames d.trace.frames

/-- Registered errors with equal frames match each other: there are none in the strict mode. -/
def TellsApart (r : Registry) : Prop :=
  r.mode = .strict → (r.order.map (·.trace.frames)).Nodup

theorem Separate.eq_of_comparable {r : Registry} (h : r.Separate) {c d : Chain}
    (hc : c ∈ r.chains) (hd : d ∈ r.chains)
    (hcmp : Comparable c.trace.frames d.trace.frames) : c = d := by
  by_contra hne
  have hsymm : Std.Symm fun c d : Chain => ¬ Comparable c.trace.frames d.trace.frames :=
    ⟨fun _ _ h hcmp => h hcmp.symm⟩
  exact List.Pairwise.forall h hc hd hne hcmp

theorem TellsApart.of_insert {r : Registry} {e : Fault} (h : (r.insert e).TellsApart) :
    r.TellsApart ∧ (r.mode = .strict → ∀ e' ∈ r.order, e'.trace.frames ≠ e.trace.frames) := by
  have hsplit : r.mode = .strict →
      (r.order.map (·.trace.frames) ++ [e.trace.frames]).Nodup := by
    intro hm
    simpa [order_insert] using h hm
  refine ⟨fun hm => (List.nodup_append.mp (hsplit hm)).1, ?_⟩
  intro hm e' he'
  exact (List.nodup_append.mp (hsplit hm)).2.2 _ (List.mem_map_of_mem he') _ (by simp)

/-- The trace of a chain is that of a registered error. -/
theorem ChainsSound.exists_frames_eq {r : Registry} (h : r.ChainsSound) {c : Chain}
    (hc : c ∈ r.chains) : ∃ e ∈ r.order, e.trace.frames = c.trace.frames := by
  obtain ⟨e, he, htrace⟩ := (h.sound c hc).trace_found
  exact ⟨e, (h.sound c hc).found_subset e he, by rw [htrace]⟩

/-- A new error is comparable with the chains that match it, and with no other. -/
theorem ChainsSound.matches_iff {r : Registry} (h : r.ChainsSound) {e : Fault}
    (hnew : r.mode = .strict → ∀ e' ∈ r.order, e'.trace.frames ≠ e.trace.frames) {c : Chain}
    (hc : c ∈ r.chains) :
    c.matches? e = true ↔ Comparable e.trace.frames c.trace.frames := by
  refine ⟨Chain.comparable_of_matches, ?_⟩
  intro hcmp
  have hne : c.mode = .strict → e.trace.frames ≠ c.trace.frames := by
    intro hm heq
    obtain ⟨e', he', hframes⟩ := h.exists_frames_eq hc
    exact hnew ((h.modes c hc).symm.trans hm) e' he' (hframes.trans heq.symm)
  have := Trace.contained_of_comparable hcmp hne
  simpa [Chain.matches?] using this

/-- An error that no chain matches starts a chain with its own trace: an older error with a longer
one would be in a chain that matches. -/
theorem ChainsSound.frames_startChain {r : Registry} (h : r.ChainsSound) (hix : r.Indexed)
    {e : Fault} (hlookup : r.lookup e.report = none) (hframes : e.trace.frames ≠ [])
    (hnone : ∀ c ∈ r.chains, c.matches? e = false) :
    ((r.index e).startChain e).trace.frames = e.trace.frames := by
  have hhead : ∀ frame, ∀ e' ∈ (r.index e).byHead.get frame, e' ∈ r.order ++ [e] := by
    intro frame e' he'
    exact ((hix.index hlookup hframes).mem_get_byHead.mp he').1
  have hself : e ∈ r.order ++ [e] := List.mem_append_right _ (List.mem_singleton_self e)
  obtain ⟨hsound, -, -, hfound⟩ := startChain_spec (r := r.index e) hself hhead
  obtain ⟨e', he', htrace⟩ := hsound.trace_found
  -- The trace of the chain is one of its errors; an older one would be in a chain that matches.
  rcases List.mem_append.mp (hsound.found_subset e' he') with hold | hlast
  · obtain ⟨c, hc, hfound'⟩ := h.covered e' hold
    have hup : e.trace.frames <+: e'.trace.frames := htrace ▸ hsound.found_begins e hfound
    have hdown : e'.trace.frames <+: c.trace.frames := (h.sound c hc).found_begins e' hfound'
    have heq : e.trace.frames = c.trace.frames :=
      Chain.frames_eq_of_not_matches (hnone c hc) (Or.inl (hup.trans hdown))
    rw [← htrace]
    exact (heq ▸ hdown).eq_of_length_le hup.length_le
  · rw [← htrace, List.mem_singleton.mp hlast]

/-- Neither growth nor a new chain makes two chains comparable. -/
theorem Separate.insert {r : Registry} (hsep : r.Separate) (h : r.ChainsSound) (hix : r.Indexed)
    {e : Fault} (hlookup : r.lookup e.report = none) (hframes : e.trace.frames ≠ [])
    (hnew : r.mode = .strict → ∀ e' ∈ r.order, e'.trace.frames ≠ e.trace.frames) :
    (r.insert e).Separate := by
  unfold Separate
  rcases chains_insert_cases r e with ⟨older, c, newer, hold, hm, hchains⟩ | ⟨hnone, hchains⟩
  · rw [hchains]
    have hcmp := Chain.comparable_of_matches hm
    -- A chain that is comparable with the grown one was comparable with the old one: either the
    -- old trace begins both, or both begin the new trace.
    have hgrown : ∀ d : Chain, ¬ Comparable c.trace.frames d.trace.frames →
        ¬ Comparable (c.add e).trace.frames d.trace.frames := by
      intro d hd hcmp'
      rcases hcmp' with hle | hge
      · exact hd (Or.inl ((Chain.prefix_trace_add hcmp).trans hle))
      · exact hd (Comparable.of_prefixes (Chain.prefix_trace_add hcmp) hge)
    have hpair := hsep
    unfold Separate at hpair
    rw [hold, List.pairwise_append, List.pairwise_cons] at hpair
    obtain ⟨holder, ⟨hc, hnewer⟩, hcross⟩ := hpair
    rw [List.pairwise_append, List.pairwise_cons]
    refine ⟨holder, ⟨fun d hd => hgrown d (hc d hd), hnewer⟩, ?_⟩
    intro a ha b hb
    rcases List.mem_cons.mp hb with rfl | hb
    · intro hcmp'
      exact hgrown a (fun hca => hcross a ha c List.mem_cons_self hca.symm) hcmp'.symm
    · exact hcross a ha b (List.mem_cons_of_mem _ hb)
  · rw [hchains, List.pairwise_append]
    refine ⟨hsep, by simp, ?_⟩
    intro c hc d hd hcmp
    rw [List.mem_singleton.mp hd, h.frames_startChain hix hlookup hframes hnone] at hcmp
    have hmatch := (h.matches_iff hnew hc).mpr hcmp.symm
    rw [hnone c hc] at hmatch
    cases hmatch

theorem separate_serveAll (mode : Containment) (functions : FunctionSet) (qs : List Request)
    (h : ((Registry.empty mode functions).serveAll qs).TellsApart) :
    ((Registry.empty mode functions).serveAll qs).Separate := by
  -- Together with the invariants that inserting an error into separate chains relies on.
  suffices hall : ((Registry.empty mode functions).serveAll qs).Indexed ∧
      ((Registry.empty mode functions).serveAll qs).ChainsSound ∧
      (((Registry.empty mode functions).serveAll qs).TellsApart →
        ((Registry.empty mode functions).serveAll qs).Separate) from hall.2.2 h
  refine serveAll_induction
    (P := fun r => r.Indexed ∧ r.ChainsSound ∧ (r.TellsApart → r.Separate)) ?_ ?_ ?_ qs
  · exact ⟨indexed_serveAll mode functions [], chainsSound_serveAll mode functions [],
      fun _ => List.Pairwise.nil⟩
  · rintro r drops ⟨hix, hsound, hsep⟩
    exact ⟨hix.drop drops, ⟨hsound.sound, hsound.covered, hsound.ids, hsound.modes⟩, hsep⟩
  · rintro r given e ⟨hix, hsound, hsep⟩ he
    refine ⟨hix.insert he.lookup_eq_none he.frames_ne_nil,
      hsound.insert hix he.lookup_eq_none he.frames_ne_nil, ?_⟩
    intro htells
    obtain ⟨hprev, hnew⟩ := htells.of_insert
    exact (hsep hprev).insert hsound hix he.lookup_eq_none he.frames_ne_nil hnew

/-! ## Maximal traces -/

/-- Frames of a registered error that no registered error properly extends. -/
def IsMaximal (r : Registry) (frames : List Frame) : Prop :=
  (∃ e ∈ r.order, e.trace.frames = frames) ∧
    ∀ e ∈ r.order, frames <+: e.trace.frames → e.trace.frames = frames

/-- The traces of separate chains are the maximal ones. -/
theorem mem_chain_frames_iff {r : Registry} (h : r.ChainsSound) (hsep : r.Separate)
    (frames : List Frame) :
    frames ∈ r.chains.map (·.trace.frames) ↔ r.IsMaximal frames := by
  constructor
  · intro hmem
    obtain ⟨c, hc, rfl⟩ := List.mem_map.mp hmem
    refine ⟨h.exists_frames_eq hc, ?_⟩
    intro e he hpre
    obtain ⟨d, hd, hfound⟩ := h.covered e he
    have hed := (h.sound d hd).found_begins e hfound
    -- A chain with a longer error would be comparable to this one, and separate chains are not.
    have hcd : c = d := hsep.eq_of_comparable hc hd (Or.inl (hpre.trans hed))
    subst hcd
    exact hed.eq_of_length_le hpre.length_le
  · rintro ⟨⟨e, he, rfl⟩, hmax⟩
    obtain ⟨c, hc, hfound⟩ := h.covered e he
    obtain ⟨e', he', hframes⟩ := h.exists_frames_eq hc
    have hpre := (h.sound c hc).found_begins e hfound
    rw [← hframes] at hpre
    exact List.mem_map.mpr ⟨c, hc, hframes.symm.trans (hmax e' he' hpre)⟩

theorem Separate.frames_nodup {r : Registry} (h : r.Separate) :
    (r.chains.map (·.trace.frames)).Nodup := by
  refine List.pairwise_map.mpr (h.imp ?_)
  intro c d hcmp heq
  exact hcmp (Or.inl (heq ▸ List.prefix_rfl))

/-! ## Order of registration -/

/-- The registry after errors are registered one after another. -/
def registerAll (r : Registry) (es : List Fault) : Registry := r.serveAll (es.map .register)

/-- How an error comes to be registered among others: as it was given, or with what it takes over
from its registered seed. -/
def Origin (registered : List Fault) (given e : Fault) : Prop :=
  (given.isPropagated = false ∧ e = given) ∨
    (given.isPropagated = true ∧
      ∃ seed ∈ registered, seed.report = given.seed ∧ e = inherit seed given)

theorem Accepts.origin {r : Registry} (hix : r.Indexed) {given e : Fault}
    (h : r.Accepts given e) : Origin r.order given e := by
  rcases (vetted_cases h.2).2 with ⟨hp, heq⟩ | ⟨hp, seed, hseed, heq⟩
  · exact Or.inl ⟨hp, heq⟩
  · obtain ⟨hmem, hrep⟩ := (hix.lookup_eq_some_iff _ _).mp hseed
    exact Or.inr ⟨hp, seed, hmem, hrep, heq⟩

theorem Origin.mono {registered more : List Fault} {given e : Fault}
    (h : Origin registered given e) (hsub : ∀ e ∈ registered, e ∈ more) :
    Origin more given e := by
  rcases h with h | ⟨hp, seed, hseed, hrep, heq⟩
  · exact Or.inl h
  · exact Or.inr ⟨hp, seed, hsub seed hseed, hrep, heq⟩

/-- Errors registered one after another, each with its seed before it. -/
inductive Built (givens : List Fault) : List Fault → Prop where
  | nil : Built givens []
  | snoc {registered : List Fault} {given e : Fault} :
      Built givens registered → given ∈ givens → Origin registered given e →
        Built givens (registered ++ [e])

theorem Built.mono {givens more registered : List Fault} (h : Built givens registered)
    (hsub : ∀ e ∈ givens, e ∈ more) : Built more registered := by
  induction h with
  | nil => exact .nil
  | snoc _ hgiven horigin ih => exact .snoc ih (hsub _ hgiven) horigin

/-- How the registered errors look after further errors, and that at most those are registered. If
as many are registered as were given, each of them was. -/
theorem registerAll_spec (es givens : List Fault) (r : Registry) (hix : r.Indexed)
    (hbuilt : Built givens r.order) :
    let r' := r.registerAll es
    r'.Indexed ∧ Built (givens ++ es) r'.order ∧ (∀ e ∈ r.order, e ∈ r'.order) ∧
      r'.order.length ≤ r.order.length + es.length ∧
      (r'.order.length = r.order.length + es.length →
        ∀ given ∈ es, ∃ e ∈ r'.order, Origin r'.order given e) := by
  induction es generalizing givens r with
  | nil => exact ⟨hix, by simpa [registerAll, serveAll] using hbuilt, fun _ h => h,
      Nat.le_refl _, fun _ _ h => absurd h List.not_mem_nil⟩
  | cons given es ih =>
    intro r'
    have hassoc : givens ++ given :: es = (givens ++ [given]) ++ es := by simp
    -- A dropped error makes the count fall short; a registered one leaves the rest to be counted.
    rcases register_cases r given with ⟨drops, hstep⟩ | ⟨e, he, hstep⟩
    · have hr' : r' = Registry.registerAll { r with drops := drops } es := by
        rw [← hstep]
        rfl
      obtain ⟨hix', hbuilt', hsub, hle, -⟩ :=
        ih (givens ++ [given]) { r with drops := drops } (hix.drop drops)
          (hbuilt.mono fun _ h => List.mem_append_left _ h)
      rw [← hr'] at hix' hbuilt' hsub hle
      have hlen : r'.order.length ≤ r.order.length + es.length := hle
      refine ⟨hix', hassoc ▸ hbuilt', hsub, by simp only [List.length_cons]; omega, ?_⟩
      intro hall
      simp only [List.length_cons] at hall
      omega
    · have hr' : r' = Registry.registerAll (r.insert e) es := by
        rw [← hstep]
        rfl
      have hinsert : Built (givens ++ [given]) (r.insert e).order :=
        .snoc (hbuilt.mono fun _ h => List.mem_append_left _ h) (by simp) (he.origin hix)
      obtain ⟨hix', hbuilt', hsub, hle, hall⟩ :=
        ih (givens ++ [given]) (r.insert e) (hix.insert he.lookup_eq_none he.frames_ne_nil) hinsert
      rw [← hr'] at hix' hbuilt' hsub hle hall
      have hlength : (r.insert e).order.length = r.order.length + 1 := by simp [order_insert]
      have hprev : ∀ e' ∈ r.order, e' ∈ r'.order :=
        fun e' he' => hsub e' (by simp [order_insert, he'])
      refine ⟨hix', hassoc ▸ hbuilt', hprev, by simp only [List.length_cons]; omega, ?_⟩
      intro hcount given' hgiven'
      simp only [List.length_cons] at hcount
      rcases List.mem_cons.mp hgiven' with rfl | hgiven'
      · exact ⟨e, hsub e (by simp [order_insert]), (he.origin hix).mono hprev⟩
      · exact hall (by omega) given' hgiven'

/-- What was built from some errors is registered wherever all of them are. -/
theorem Built.mem_order {givens registered : List Fault} (h : Built givens registered)
    {r : Registry} (hix : r.Indexed)
    (hall : ∀ given ∈ givens, ∃ e ∈ r.order, Origin r.order given e) :
    ∀ e ∈ registered, e ∈ r.order := by
  induction h with
  | nil => exact fun _ he => absurd he List.not_mem_nil
  | @snoc registered given e _ hgiven horigin ih =>
    intro e' he'
    rcases List.mem_append.mp he' with hold | hlast
    · exact ih e' hold
    rw [List.mem_singleton.mp hlast]
    obtain ⟨f, hf, hother⟩ := hall given hgiven
    -- Both registries made the error from the same given one: as it is, or from the seed it names.
    rcases horigin with ⟨hp, rfl⟩ | ⟨hp, seed, hseed, hrep, rfl⟩
    · rcases hother with ⟨-, rfl⟩ | ⟨hp', -⟩
      · exact hf
      · rw [hp] at hp'
        cases hp'
    · rcases hother with ⟨hp', -⟩ | ⟨-, seed', hseed', hrep', rfl⟩
      · rw [hp] at hp'
        cases hp'
      · have hsame : seed' = seed :=
          List.inj_on_of_nodup_map hix.reports_nodup hseed' (ih seed hseed)
            (hrep'.trans hrep.symm)
        rw [← hsame]
        exact hf

/-- Two registries that register all of the same errors hold the same errors. -/
theorem mem_order_of_registerAll {mode : Containment} {functions : FunctionSet}
    {es es' : List Fault} (hperm : es'.Perm es)
    (hall' : ((Registry.empty mode functions).registerAll es').order.length = es'.length)
    {e : Fault} (he : e ∈ ((Registry.empty mode functions).registerAll es).order) :
    e ∈ ((Registry.empty mode functions).registerAll es').order := by
  have hempty := Indexed.empty mode functions
  obtain ⟨-, hbuilt, -, -, -⟩ := registerAll_spec es [] _ hempty .nil
  obtain ⟨hix', -, -, -, hevery⟩ := registerAll_spec es' [] _ hempty .nil
  have hcount : ((Registry.empty mode functions).registerAll es').order.length =
      (Registry.empty mode functions).order.length + es'.length := by
    rw [hall']
    exact (Nat.zero_add _).symm
  -- All of them were registered there: there are as many errors as were given.
  refine hbuilt.mem_order hix' ?_ e he
  intro given hgiven
  exact hevery hcount given (hperm.mem_iff.mpr hgiven)

theorem IsMaximal.congr {r r' : Registry} (h : ∀ e, e ∈ r.order ↔ e ∈ r'.order)
    (frames : List Frame) : r.IsMaximal frames ↔ r'.IsMaximal frames := by
  unfold IsMaximal
  simp only [h]

/-- After errors are registered in any order, the traces of the chains are pairwise incomparable and
are exactly the maximal traces of the registered errors. In the strict mode this needs errors with
different frames. Another order that also registers all errors gives the same traces and as many
chains. -/
theorem registerAll_chains_maximal (mode : Containment) (functions : FunctionSet)
    (es : List Fault)
    (hmode : mode = .strict →
      (((Registry.empty mode functions).registerAll es).order.map (·.trace.frames)).Nodup) :
    let r := (Registry.empty mode functions).registerAll es
    r.chains.Pairwise (fun c d => ¬ Comparable c.trace.frames d.trace.frames) ∧
    (∀ frames, frames ∈ r.chains.map (·.trace.frames) ↔ r.IsMaximal frames) ∧
    (r.chains.map (·.trace.frames)).Nodup ∧
    (∀ es' : List Fault, es'.Perm es →
      let r' := (Registry.empty mode functions).registerAll es'
      r.order.length = es.length → r'.order.length = es'.length →
        (∀ frames, frames ∈ r'.chains.map (·.trace.frames) ↔
          frames ∈ r.chains.map (·.trace.frames)) ∧
        r'.chains.length = r.chains.length) := by
  intro r
  have hmodes : ∀ qs, ((Registry.empty mode functions).serveAll qs).mode = mode :=
    serveAll_induction (P := fun r => r.mode = mode) rfl (fun _ _ h => h) (fun _ _ _ h _ => h)
  have htells : r.TellsApart := fun hm => hmode ((hmodes _).symm.trans hm)
  have hsound : r.ChainsSound := chainsSound_serveAll mode functions _
  have hsep : r.Separate := separate_serveAll mode functions _ htells
  refine ⟨hsep, mem_chain_frames_iff hsound hsep, hsep.frames_nodup, ?_⟩
  intro es' hperm r' hall hall'
  have hsame : ∀ e, e ∈ r'.order ↔ e ∈ r.order := fun e =>
    ⟨mem_order_of_registerAll hperm.symm hall, mem_order_of_registerAll hperm hall'⟩
  have hix : r.Indexed := indexed_serveAll mode functions _
  have hix' : r'.Indexed := indexed_serveAll mode functions _
  have horder : r'.order.Perm r.order :=
    (List.perm_ext_iff_of_nodup (List.Nodup.of_map _ hix'.reports_nodup)
      (List.Nodup.of_map _ hix.reports_nodup)).mpr hsame
  have htells' : r'.TellsApart := by
    intro hm
    exact (horder.map _).nodup_iff.mpr (hmode ((hmodes _).symm.trans hm))
  have hsound' : r'.ChainsSound := chainsSound_serveAll mode functions _
  have hsep' : r'.Separate := separate_serveAll mode functions _ htells'
  have hframes : ∀ frames, frames ∈ r'.chains.map (·.trace.frames) ↔
      frames ∈ r.chains.map (·.trace.frames) := by
    intro frames
    rw [mem_chain_frames_iff hsound hsep, mem_chain_frames_iff hsound' hsep']
    exact IsMaximal.congr hsame frames
  refine ⟨hframes, ?_⟩
  have hcount :=
    ((List.perm_ext_iff_of_nodup hsep'.frames_nodup hsep.frames_nodup).mpr hframes).length_eq
  simpa using hcount

/-- An error of `f`, one that leads to it from `g`, and an unrelated one of `h`. -/
def leafFault : Fault :=
  { report := "1.ptr.err", ktest := "1.ktest", entry := "f", reason := "overflow",
    location := "f.c:1", function := "f", trace := ⟨[⟨"f", "f.c:1"⟩], "f"⟩, seed := "" }

def callerFault : Fault :=
  { leafFault with
    report := "2.macke.err", entry := "g", seed := "1.ptr.err"
    trace := ⟨[⟨"f", "f.c:0"⟩, ⟨"g", "g.c:2"⟩], "g"⟩ }

def otherFault : Fault :=
  { leafFault with
    report := "3.div.err", entry := "h", location := "h.c:3", trace := ⟨[⟨"h", "h.c:3"⟩], "h"⟩ }

theorem registerAll_chains_maximal_caller :
    let r := (Registry.empty .strict ⟨[]⟩).registerAll [leafFault, callerFault, otherFault]
    let r' := (Registry.empty .strict ⟨[]⟩).registerAll [otherFault, leafFault, callerFault]
    (r.order.map (·.trace.frames)).Nodup ∧ r.order.length = 3 ∧ r'.order.length = 3 ∧
      r.IsMaximal [⟨"f", "f.c:1"⟩, ⟨"g", "g.c:2"⟩] ∧ r'.chains.length = r.chains.length := by
  intro r r'
  have hnodup : (r.order.map (·.trace.frames)).Nodup := by decide +kernel
  have hall : r.order.length = 3 := by decide +kernel
  have hall' : r'.order.length = 3 := by decide +kernel
  have hmem : [⟨"f", "f.c:1"⟩, ⟨"g", "g.c:2"⟩] ∈ r.chains.map (·.trace.frames) := by
    decide +kernel
  obtain ⟨-, hmax, -, horder⟩ := registerAll_chains_maximal .strict ⟨[]⟩
    [leafFault, callerFault, otherFault] (fun _ => hnodup)
  have hperm : [otherFault, leafFault, callerFault].Perm [leafFault, callerFault, otherFault] := by
    decide +kernel
  exact ⟨hnodup, hall, hall', (hmax _).mp hmem, (horder _ hperm hall hall').2⟩

end Registry
end FaultChain
