import Mathlib.Data.List.Induction
import FaultChain.Proofs.Registry.MaximalTraces

/-!
# Outgrown traces in the strict mode

The strict mode does not relate equal frames, so errors with the same frames may start several chains.
A longer error then takes over the oldest of them, and the others are left behind with a trace
that is no longer maximal. This is the only way in which the chains of a registry fail to be maximal.

* `Registry.ChainsMaximal`: no chain properly extends another one.
* `Registry.traces_insert_cases`: what an error does to the traces.
* `Registry.Tracked`: the traces are maximal, and each is that of as many chains as errors.
* `Registry.strict_chainsMaximal_iff`: the chains stay maximal unless a repeated trace is outgrown.
-/

namespace FaultChain

open Trace (Comparable)

namespace Registry

/-- No chain has a trace that begins the longer trace of another one. -/
def ChainsMaximal (r : Registry) : Prop :=
  ∀ c ∈ r.chains, ∀ d ∈ r.chains,
    c.trace.frames <+: d.trace.frames → c.trace.frames = d.trace.frames

/-- Frames that are longer than a trace which several of the registered ones share and which none
of them was longer than. -/
def Outgrows (registered : List (List Frame)) (frames : List Frame) : Prop :=
  ∃ t, t <+: frames ∧ t ≠ frames ∧ 2 ≤ registered.count t ∧ ∀ s ∈ registered, t <+: s → s = t

/-- Some error outgrew a trace that several errors before it share. -/
def Outgrown (order : List Fault) : Prop :=
  ∃ before e after, order = before ++ e :: after ∧
    Outgrows (before.map (·.trace.frames)) e.trace.frames

/-! ## Traces -/

/-- The frames of all registered errors. -/
def faultFrames (r : Registry) : List (List Frame) := r.order.map (·.trace.frames)

/-- The frames of all chains. -/
def traces (r : Registry) : List (List Frame) := r.chains.map (·.trace.frames)

theorem faultFrames_insert (r : Registry) (e : Fault) :
    (r.insert e).faultFrames = r.faultFrames ++ [e.trace.frames] := by
  simp [faultFrames, order_insert]

theorem chainsMaximal_iff (r : Registry) :
    r.ChainsMaximal ↔ ∀ s ∈ r.traces, ∀ t ∈ r.traces, s <+: t → s = t := by
  simp [ChainsMaximal, traces]

theorem mem_traces {r : Registry} {c : Chain} (hc : c ∈ r.chains) :
    c.trace.frames ∈ r.traces := List.mem_map_of_mem hc

/-- A new error of the strict mode is shorter than a trace and changes none, takes over a trace
that it is longer than, or adds its own trace. -/
theorem traces_insert_cases {r : Registry} (hix : r.Indexed) (hsound : r.ChainsSound)
    (hmode : r.mode = .strict) {e : Fault} (hlookup : r.lookup e.report = none)
    (hframes : e.trace.frames ≠ []) :
    (∃ t ∈ r.traces, e.trace.frames <+: t ∧ e.trace.frames ≠ t ∧
        (r.insert e).traces = r.traces) ∨
      (∃ older t newer, r.traces = older ++ t :: newer ∧ t <+: e.trace.frames ∧
        t ≠ e.trace.frames ∧ (r.insert e).traces = older ++ e.trace.frames :: newer) ∨
      ((∀ t ∈ r.traces, Comparable e.trace.frames t → e.trace.frames = t) ∧
        (r.insert e).traces = r.traces ++ [e.trace.frames]) := by
  rcases chains_insert_cases r e with ⟨older, c, newer, hold, hm, hchains⟩ | ⟨hnone, hchains⟩
  · have hc : c ∈ r.chains := by simp [hold]
    have hne : e.trace.frames ≠ c.trace.frames :=
      Chain.frames_ne_of_matches ((hsound.modes c hc).trans hmode) hm
    -- The chain that takes the error keeps its trace or has it replaced.
    rcases Chain.trace_add (Chain.comparable_of_matches hm) with ⟨hpre, heq⟩ | ⟨hpre, -, heq⟩
    · refine Or.inl ⟨c.trace.frames, mem_traces hc, hpre, hne, ?_⟩
      simp [traces, hold, hchains, heq]
    · refine Or.inr (Or.inl ⟨older.map (·.trace.frames), c.trace.frames,
        newer.map (·.trace.frames), ?_, hpre, hne.symm, ?_⟩)
      · simp [traces, hold]
      · simp [traces, hchains, heq]
  · refine Or.inr (Or.inr ⟨?_, ?_⟩)
    · intro t ht hcmp
      obtain ⟨c, hc, rfl⟩ := List.mem_map.mp ht
      exact Chain.frames_eq_of_not_matches (hnone c hc) hcmp
    · simp [traces, hchains, hsound.frames_startChain hix hlookup hframes hnone]

/-! ## Maximal traces -/

/-- What holds of the frames of errors and of chains as long as no trace is outgrown. -/
structure Tracked (registered traces : List (List Frame)) : Prop where
  covered : ∀ s ∈ registered, ∃ t ∈ traces, s <+: t
  subset : ∀ t ∈ traces, t ∈ registered
  maximal : ∀ s ∈ traces, ∀ t ∈ traces, s <+: t → s = t
  /-- Errors that share a trace have a chain each. -/
  count_eq : ∀ t ∈ traces, traces.count t = registered.count t

namespace Tracked

variable {registered traces older newer : List (List Frame)} {s t : List Frame}

theorem nil : Tracked [] [] where
  covered := by simp
  subset := by simp
  maximal := by simp
  count_eq := by simp

/-- Frames that a trace properly extends are those of no chain. -/
theorem not_mem_of_prefix (h : Tracked registered traces) (ht : t ∈ traces) (hs : s <+: t)
    (hne : s ≠ t) : s ∉ traces :=
  fun hmem => hne (h.maximal s hmem t ht hs)

/-- Frames that properly extend a trace are those of no error. -/
theorem count_eq_zero (h : Tracked registered traces) (ht : t ∈ traces) (hs : t <+: s)
    (hne : t ≠ s) : registered.count s = 0 := by
  refine List.count_eq_zero.mpr fun hmem => ?_
  obtain ⟨u, hu, hsu⟩ := h.covered s hmem
  have heq : t = u := h.maximal t ht u hu (hs.trans hsu)
  exact hne (hs.eq_of_length_le (heq ▸ hsu.length_le))

theorem count_snoc_of_ne (h : Tracked registered traces) (ht : t ∈ traces) (hne : t ≠ s) :
    traces.count t = (registered ++ [s]).count t := by
  rw [List.count_append, List.count_singleton, if_neg (by simpa using hne.symm), h.count_eq t ht,
    Nat.add_zero]

/-- The frames outgrown are a trace of several chains. -/
theorem outgrows_iff (h : Tracked registered traces) :
    Outgrows registered s ↔ ∃ t ∈ traces, t <+: s ∧ t ≠ s ∧ 2 ≤ traces.count t := by
  constructor
  -- A maximal trace that is registered is the trace of a chain.
  · rintro ⟨t, hpre, hne, hcount, hmax⟩
    have hmem : t ∈ registered := List.count_pos_iff.mp (by omega)
    obtain ⟨u, hu, htu⟩ := h.covered t hmem
    have hut : u = t := hmax u (h.subset u hu) htu
    rw [hut] at hu
    exact ⟨t, hu, hpre, hne, (h.count_eq t hu).symm ▸ hcount⟩
  · rintro ⟨t, ht, hpre, hne, hcount⟩
    refine ⟨t, hpre, hne, h.count_eq t ht ▸ hcount, ?_⟩
    intro u hu htu
    obtain ⟨w, hw, huw⟩ := h.covered u hu
    have htw : t = w := h.maximal t ht w hw (htu.trans huw)
    exact (htu.eq_of_length_le (htw ▸ huw.length_le)).symm

/-- A shorter error leaves the traces as they are. -/
theorem absorb (h : Tracked registered traces) (ht : t ∈ traces) (hs : s <+: t) (hne : s ≠ t) :
    Tracked (registered ++ [s]) traces where
  covered := by
    intro u hu
    rcases List.mem_append.mp hu with hu | hu
    · exact h.covered u hu
    · rw [List.mem_singleton.mp hu]
      exact ⟨t, ht, hs⟩
  subset := fun u hu => List.mem_append_left _ (h.subset u hu)
  maximal := h.maximal
  count_eq := by
    intro u hu
    refine h.count_snoc_of_ne hu ?_
    rintro rfl
    exact h.not_mem_of_prefix ht hs hne hu

/-- A trace of its own that is comparable with no other one. -/
theorem start (h : Tracked registered traces) (hs : ∀ t ∈ traces, Comparable s t → s = t) :
    Tracked (registered ++ [s]) (traces ++ [s]) where
  covered := by
    intro u hu
    rcases List.mem_append.mp hu with hu | hu
    · obtain ⟨t, ht, hut⟩ := h.covered u hu
      exact ⟨t, List.mem_append_left _ ht, hut⟩
    · exact ⟨s, by simp, List.mem_singleton.mp hu ▸ List.prefix_rfl⟩
  subset := by
    intro u hu
    rcases List.mem_append.mp hu with hu | hu
    · exact List.mem_append_left _ (h.subset u hu)
    · exact List.mem_append_right _ hu
  maximal := by
    intro u hu w hw huw
    rcases List.mem_append.mp hu with hu | hu <;> rcases List.mem_append.mp hw with hw | hw
    · exact h.maximal u hu w hw huw
    · rw [List.mem_singleton.mp hw] at huw ⊢
      exact (hs u hu (Or.inr huw)).symm
    · rw [List.mem_singleton.mp hu] at huw ⊢
      exact hs w hw (Or.inl huw)
    · rw [List.mem_singleton.mp hu, List.mem_singleton.mp hw]
  count_eq := by
    intro u hu
    rw [List.count_append, List.count_append]
    by_cases hmem : u ∈ traces
    · rw [h.count_eq u hmem]
    · have hus : u = s := by simpa [hmem] using hu
      -- An error with these frames would be in a chain that has them, too.
      have hnone : registered.count u = 0 := by
        refine List.count_eq_zero.mpr fun hreg => ?_
        obtain ⟨t, ht, hut⟩ := h.covered u hreg
        have hst : s = t := hs t ht (Or.inl (hus ▸ hut))
        exact hmem (hus.trans hst ▸ ht)
      rw [List.count_eq_zero.mpr hmem, hnone]

/-- A longer error takes over a trace that only one chain has. -/
theorem grow (h : Tracked registered (older ++ t :: newer)) (hs : t <+: s) (hne : t ≠ s)
    (honce : t ∉ older ++ newer) : Tracked (registered ++ [s]) (older ++ s :: newer) := by
  have ht : t ∈ older ++ t :: newer := by simp
  have hother : ∀ u ∈ older ++ newer, u ∈ older ++ t :: newer := by
    intro u hu
    rcases List.mem_append.mp hu with hu | hu <;> simp [hu]
  -- The other traces are comparable with the new one only if they were with the old one.
  have hapart : ∀ u ∈ older ++ newer, ¬ Comparable u s := by
    rintro u hu (hus | hsu)
    · rcases List.prefix_or_prefix_of_prefix hus hs with hut | htu
      · exact honce (h.maximal u (hother u hu) t ht hut ▸ hu)
      · exact honce (h.maximal t ht u (hother u hu) htu ▸ hu)
    · exact honce (h.maximal t ht u (hother u hu) (hs.trans hsu) ▸ hu)
  have hmem : ∀ u, u ∈ older ++ s :: newer ↔ u = s ∨ u ∈ older ++ newer := by
    intro u
    simp only [List.mem_append, List.mem_cons]
    tauto
  refine ⟨?_, ?_, ?_, ?_⟩
  · intro u hu
    rcases List.mem_append.mp hu with hu | hu
    · obtain ⟨w, hw, huw⟩ := h.covered u hu
      by_cases hwt : w = t
      · exact ⟨s, by simp, (hwt ▸ huw).trans hs⟩
      · have hw' : w ∈ older ++ newer := by simpa [hwt] using hw
        exact ⟨w, (hmem w).mpr (Or.inr hw'), huw⟩
    · exact ⟨s, by simp, List.mem_singleton.mp hu ▸ List.prefix_rfl⟩
  · intro u hu
    rcases (hmem u).mp hu with rfl | hu
    · simp
    · exact List.mem_append_left _ (h.subset u (hother u hu))
  · intro u hu w hw huw
    rcases (hmem u).mp hu with hus | hu <;> rcases (hmem w).mp hw with hws | hw
    · exact hus.trans hws.symm
    · exact absurd (Or.inr (hus ▸ huw)) (hapart w hw)
    · exact absurd (Or.inl (hws ▸ huw)) (hapart u hu)
    · exact h.maximal u (hother u hu) w (hother w hw) huw
  · intro u hu
    rcases (hmem u).mp hu with hus | hu
    · have hnew : s ∉ older ++ newer := fun hs => hapart s hs (Or.inl List.prefix_rfl)
      have hcount : (older ++ newer).count s = 0 := List.count_eq_zero.mpr hnew
      rw [List.count_append] at hcount
      rw [hus]
      rw [List.count_append, List.count_cons_self, List.count_append, List.count_singleton_self,
        h.count_eq_zero ht hs hne]
      omega
    · have hus : u ≠ s := fun hus => hapart u hu (Or.inl (hus ▸ List.prefix_rfl))
      have hut : u ≠ t := fun hut => honce (hut ▸ hu)
      rw [← h.count_snoc_of_ne (hother u hu) hus]
      simp [List.count_append, List.count_cons_of_ne hus.symm, List.count_cons_of_ne hut.symm]

end Tracked

/-! ## Registration -/

variable {r : Registry} {e : Fault}

/-- Unless a trace is outgrown, a new error keeps the traces maximal. -/
theorem Tracked.insert (h : Tracked r.faultFrames r.traces) (hix : r.Indexed)
    (hsound : r.ChainsSound) (hmode : r.mode = .strict) (hlookup : r.lookup e.report = none)
    (hframes : e.trace.frames ≠ []) (hfits : ¬ Outgrows r.faultFrames e.trace.frames) :
    Tracked (r.insert e).faultFrames (r.insert e).traces := by
  rw [faultFrames_insert]
  rcases traces_insert_cases hix hsound hmode hlookup hframes with
    ⟨t, ht, hpre, hne, hsame⟩ | ⟨older, t, newer, hold, hpre, hne, hgrown⟩ | ⟨hnone, hstarted⟩
  · rw [hsame]
    exact h.absorb ht hpre hne
  · rw [hgrown]
    -- Were the trace still that of another chain, the error would outgrow it.
    have honce : t ∉ older ++ newer := by
      intro hagain
      refine hfits (h.outgrows_iff.mpr ⟨t, by simp [hold], hpre, hne, ?_⟩)
      have hcount : 0 < (older ++ newer).count t := List.count_pos_iff.mpr hagain
      rw [List.count_append] at hcount
      rw [hold, List.count_append, List.count_cons_self]
      omega
    exact (hold ▸ h).grow hpre hne honce
  · rw [hstarted]
    exact h.start hnone

/-- An error that outgrows a trace leaves a chain behind. -/
theorem Tracked.not_chainsMaximal_insert (h : Tracked r.faultFrames r.traces) (hix : r.Indexed)
    (hsound : r.ChainsSound) (hmode : r.mode = .strict) (hlookup : r.lookup e.report = none)
    (hframes : e.trace.frames ≠ []) (hout : Outgrows r.faultFrames e.trace.frames) :
    ¬ (r.insert e).ChainsMaximal := by
  rw [chainsMaximal_iff]
  intro hmax
  obtain ⟨t, ht, hpre, hne, hcount⟩ := h.outgrows_iff.mp hout
  rcases traces_insert_cases hix hsound hmode hlookup hframes with
    ⟨u, hu, hpre', hne', -⟩ | ⟨older, u, newer, hold, hpre', hne', hgrown⟩ | ⟨hnone, -⟩
  · have heq : t = u := h.maximal t ht u hu (hpre.trans hpre')
    exact hne' (hpre'.eq_of_length_le (heq ▸ hpre.length_le))
  · -- Only one of the chains with this trace grows.
    have hu : u ∈ r.traces := by simp [hold]
    have htu : t = u := by
      rcases List.prefix_or_prefix_of_prefix hpre hpre' with htu | hut
      · exact h.maximal t ht u hu htu
      · exact (h.maximal u hu t ht hut).symm
    rw [hold, htu, List.count_append, List.count_cons_self] at hcount
    have hleft : u ∈ older ++ newer := by
      refine List.count_pos_iff.mp ?_
      rw [List.count_append]
      omega
    refine hne' (hmax u ?_ e.trace.frames ?_ hpre')
    · rw [hgrown]
      rcases List.mem_append.mp hleft with hu | hu <;> simp [hu]
    · simp [hgrown]
  · exact hne (hnone t ht (Or.inr hpre)).symm

/-! ## Sequences of requests -/

theorem outgrown_snoc {order : List Fault} :
    Outgrown (order ++ [e]) ↔
      Outgrown order ∨ Outgrows (order.map (·.trace.frames)) e.trace.frames := by
  constructor
  · rintro ⟨before, e', after, heq, hout⟩
    -- The error that outgrows is the last one, or one before it.
    rcases List.eq_nil_or_concat after with rfl | ⟨after, last, rfl⟩
    · obtain ⟨rfl, hlast⟩ := List.append_inj' heq rfl
      have hee : e = e' := by simpa using hlast
      exact Or.inr (hee ▸ hout)
    · have hassoc : order ++ [e] = (before ++ e' :: after) ++ [last] := by simp [heq]
      exact Or.inl ⟨before, e', after, (List.append_inj' hassoc rfl).1, hout⟩
  · rintro (⟨before, e', after, rfl, hout⟩ | hout)
    · exact ⟨before, e', after ++ [e], by simp, hout⟩
    · exact ⟨order, e, [], rfl, hout⟩

/-- A strict registry that has served some requests. -/
structure Strict (r : Registry) : Prop where
  indexed : r.Indexed
  sound : r.ChainsSound
  mode : r.mode = .strict
  tracked : ¬ Outgrown r.order → Tracked r.faultFrames r.traces

theorem strict_serveAll (functions : FunctionSet) (qs : List Request) :
    Strict ((Registry.empty .strict functions).serveAll qs) := by
  refine serveAll_induction (P := Strict) ?_ ?_ ?_ qs
  · exact ⟨indexed_serveAll _ _ [], chainsSound_serveAll _ _ [], rfl, fun _ => Tracked.nil⟩
  · intro r drops h
    exact ⟨h.indexed.drop drops, ⟨h.sound.sound, h.sound.covered, h.sound.ids, h.sound.modes⟩,
      h.mode, h.tracked⟩
  · intro r given e h he
    refine ⟨h.indexed.insert he.lookup_eq_none he.frames_ne_nil,
      h.sound.insert h.indexed he.lookup_eq_none he.frames_ne_nil, h.mode, ?_⟩
    intro hfits
    rw [order_insert, outgrown_snoc, not_or] at hfits
    exact (h.tracked hfits.1).insert h.indexed h.sound h.mode he.lookup_eq_none he.frames_ne_nil
      hfits.2

theorem Strict.chainsMaximal (h : Strict r) (hfits : ¬ Outgrown r.order) : r.ChainsMaximal :=
  (chainsMaximal_iff r).mpr (h.tracked hfits).maximal

/-- Traces that are outgrown stay so. -/
theorem outgrown_serve (q : Request) (h : Outgrown r.order) : Outgrown (r.serve q).order := by
  rcases serve_cases r q with ⟨drops, hserve⟩ | ⟨given, e, -, hserve⟩
  · rw [hserve]
    exact h
  · rw [hserve, order_insert]
    exact outgrown_snoc.mpr (Or.inl h)

theorem serveAll_append (r : Registry) (qs qs' : List Request) :
    r.serveAll (qs ++ qs') = (r.serveAll qs).serveAll qs' :=
  List.foldl_append

theorem outgrown_serveAll (qs : List Request) (h : Outgrown r.order) :
    Outgrown (r.serveAll qs).order := by
  induction qs generalizing r with
  | nil => exact h
  | cons q qs ih => exact ih (outgrown_serve q h)

/-- The error that outgrows a trace leaves a chain behind when it is registered. -/
theorem exists_not_chainsMaximal (functions : FunctionSet) (qs : List Request)
    (hout : Outgrown ((Registry.empty .strict functions).serveAll qs).order) :
    ∃ served, served <+: qs ∧
      ¬ ((Registry.empty .strict functions).serveAll served).ChainsMaximal := by
  induction qs using List.reverseRecOn with
  | nil =>
    obtain ⟨before, e, after, heq, -⟩ := hout
    cases before <;> cases heq
  | append_singleton qs q ih =>
    -- If it happened before the last request, an earlier stretch of requests shows it.
    have hbefore : Outgrown ((Registry.empty .strict functions).serveAll qs).order →
        ∃ served, served <+: qs ++ [q] ∧
          ¬ ((Registry.empty .strict functions).serveAll served).ChainsMaximal := by
      intro h
      obtain ⟨served, hpre, hstale⟩ := ih h
      exact ⟨served, hpre.trans (List.prefix_append _ _), hstale⟩
    have hlast : (Registry.empty .strict functions).serveAll (qs ++ [q]) =
        ((Registry.empty .strict functions).serveAll qs).serve q := serveAll_append _ _ _
    have h := strict_serveAll functions qs
    rcases serve_cases ((Registry.empty .strict functions).serveAll qs) q with
      ⟨drops, hserve⟩ | ⟨given, e, he, hserve⟩
    · rw [hlast, hserve] at hout
      exact hbefore hout
    · by_cases hold : Outgrown ((Registry.empty .strict functions).serveAll qs).order
      · exact hbefore hold
      · rw [hlast, hserve, order_insert, outgrown_snoc] at hout
        refine ⟨qs ++ [q], List.prefix_rfl, ?_⟩
        rw [hlast, hserve]
        exact (h.tracked hold).not_chainsMaximal_insert h.indexed h.sound h.mode
          he.lookup_eq_none he.frames_ne_nil (hout.resolve_left hold)

theorem Separate.chainsMaximal (h : r.Separate) : r.ChainsMaximal := by
  intro c hc d hd hpre
  rw [h.eq_of_comparable hc hd (Or.inl hpre)]

/-- The chains of a strict registry stay maximal throughout a sequence of requests exactly if no
error outgrows a trace that several errors before it share. The inclusive mode keeps them maximal in
any case. -/
theorem strict_chainsMaximal_iff (functions : FunctionSet) (qs : List Request) :
    ((∀ served, served <+: qs →
        ((Registry.empty .strict functions).serveAll served).ChainsMaximal) ↔
      ¬ Outgrown ((Registry.empty .strict functions).serveAll qs).order) ∧
    ((Registry.empty .inclusive functions).serveAll qs).ChainsMaximal := by
  refine ⟨⟨?_, ?_⟩, ?_⟩
  · intro hall hout
    obtain ⟨served, hpre, hstale⟩ := exists_not_chainsMaximal functions qs hout
    exact hstale (hall served hpre)
  -- What outgrows a trace early on is still among the errors at the end.
  · rintro hfits served ⟨rest, rfl⟩
    refine (strict_serveAll functions served).chainsMaximal fun hout => hfits ?_
    rw [serveAll_append]
    exact outgrown_serveAll rest hout
  · have hmode : ((Registry.empty .inclusive functions).serveAll qs).mode = .inclusive :=
      serveAll_induction (P := fun r => r.mode = .inclusive) rfl (fun _ _ h => h)
        (fun _ _ _ h _ => h) qs
    refine (separate_serveAll .inclusive functions qs fun hstrict => ?_).chainsMaximal
    rw [hmode] at hstrict
    cases hstrict

/-- The error of a caller takes over one of two chains and leaves the other one behind. -/
example :
    let twin := { leafFault with report := "4.ptr.err", ktest := "4.ktest" }
    let longer := { leafFault with
      report := "5.ptr.err", ktest := "5.ktest", entry := "g"
      trace := ⟨[⟨"f", "f.c:1"⟩, ⟨"g", "g.c:2"⟩], "g"⟩ }
    ((Registry.empty .strict ⟨[]⟩).registerAll [leafFault, twin, longer]).traces =
      [[⟨"f", "f.c:1"⟩, ⟨"g", "g.c:2"⟩], [⟨"f", "f.c:1"⟩]] := by
  decide +kernel

end Registry
end FaultChain
