import Mathlib.Data.Finset.Card
import FaultChain.Proofs.Registry.Requests

/-!
# Indexes of a registry

All indexes and counters of a registry can be read off the list of registered errors. A propagated
error is indexed after it has taken over from its seed, so the indexes agree for it as well.

* `Index.Faithful`: the buckets of an index are the errors of each key that occurs, none is empty and
  no key has two; adding an error keeps this.
* `Index.Faithful.size_eq`: the number of buckets is the number of distinct keys.
* `Registry.Accounted`: all indexes of a registry are faithful, and propagated errors are counted.
* `Registry.serveAll_indexes_agree`: this holds after every sequence of requests.
-/

namespace FaultChain

/-! ## Faithful indexes -/

namespace Index

variable {κ : Type} [DecidableEq κ] {ix : Index κ} {key : Fault → Option κ} {all : List Fault}

/-- The buckets of an index are the errors of each key that occurs. -/
structure Faithful (ix : Index κ) (key : Fault → Option κ) (all : List Fault) : Prop where
  lists : ix.Lists key all
  keys_nodup : ix.keys.Nodup
  filled : ∀ bucket ∈ ix.buckets, bucket.2 ≠ []

theorem map_fst_addTo (k : κ) (e : Fault) (buckets : List (κ × List Fault)) :
    (addTo k e buckets).map (·.1) =
      if k ∈ buckets.map (·.1) then buckets.map (·.1) else buckets.map (·.1) ++ [k] := by
  induction buckets with
  | nil => simp [addTo]
  | cons bucket rest ih =>
    obtain ⟨k₀, es⟩ := bucket
    by_cases h : k₀ = k
    · simp [addTo, h]
    · have hne : k ≠ k₀ := fun heq => h heq.symm
      by_cases hmem : k ∈ rest.map (·.1)
      · simpa [addTo, h, hne, hmem] using ih
      · simpa [addTo, h, hne, hmem] using ih

theorem filled_addTo {k : κ} {e : Fault} {buckets : List (κ × List Fault)}
    (h : ∀ bucket ∈ buckets, bucket.2 ≠ []) : ∀ bucket ∈ addTo k e buckets, bucket.2 ≠ [] := by
  induction buckets with
  | nil => simp [addTo]
  | cons bucket rest ih =>
    obtain ⟨hfirst, hrest⟩ := List.forall_mem_cons.mp h
    unfold addTo
    split
    · exact List.forall_mem_cons.mpr ⟨by simp, hrest⟩
    · exact List.forall_mem_cons.mpr ⟨hfirst, ih hrest⟩

namespace Faithful

theorem empty (key : Fault → Option κ) : (Index.empty : Index κ).Faithful key [] where
  lists := Lists.empty key
  keys_nodup := List.nodup_nil
  filled := fun _ hbucket => absurd hbucket List.not_mem_nil

theorem add (h : ix.Faithful key all) {e : Fault} {k : κ} (hk : key e = some k) :
    (ix.add k e).Faithful key (all ++ [e]) where
  lists := h.lists.add hk
  keys_nodup := by
    have hkeys : (ix.add k e).keys = if k ∈ ix.keys then ix.keys else ix.keys ++ [k] :=
      map_fst_addTo k e ix.buckets
    rw [hkeys]
    split
    · exact h.keys_nodup
    · rename_i hnew
      simpa using List.Nodup.concat hnew h.keys_nodup
  filled := filled_addTo h.filled

/-- An error without a key is in no bucket. -/
theorem skip (h : ix.Faithful key all) {e : Fault} (hk : key e = none) :
    ix.Faithful key (all ++ [e]) where
  lists := by
    intro k
    rw [h.lists k, List.filter_append]
    simp [hk]
  keys_nodup := h.keys_nodup
  filled := h.filled

/-- The keys are those that occur. -/
theorem mem_keys_iff (h : ix.Faithful key all) (k : κ) :
    k ∈ ix.keys ↔ ∃ e ∈ all, key e = some k := by
  have hget : k ∈ ix.keys ↔ ix.get k ≠ [] := by
    unfold get keys
    constructor
    · intro hk
      obtain ⟨⟨k', es⟩, hbucket, rfl⟩ := List.mem_map.mp hk
      -- No other bucket has the key, so the look-up ends here.
      have hlookup : ix.buckets.lookup k' = some es := by
        have hfind := (find?_key_eq_some_iff h.keys_nodup).mpr ⟨hbucket, rfl⟩
        have htable := lookup_map_key Prod.fst Prod.snd ix.buckets k'
        simpa [hfind] using htable
      rw [hlookup]
      exact h.filled _ hbucket
    · intro hne
      by_contra hk
      have hnone : ix.buckets.lookup k = none := by
        rw [List.lookup_eq_none_iff]
        intro bucket hbucket
        have : k ≠ bucket.1 := fun heq => hk (heq ▸ List.mem_map_of_mem hbucket)
        simpa using this
      simp [hnone] at hne
  rw [hget, h.lists k, ne_eq, List.filter_eq_nil_iff]
  simp

theorem size_eq (h : ix.Faithful key all) : ix.size = (all.filterMap key).toFinset.card := by
  have hkeys : ix.keys.toFinset = (all.filterMap key).toFinset := by
    ext k
    rw [List.mem_toFinset, List.mem_toFinset, h.mem_keys_iff, List.mem_filterMap]
  calc ix.size = ix.keys.length := by simp [size, keys]
    _ = ix.keys.toFinset.card := (List.toFinset_card_of_nodup h.keys_nodup).symm
    _ = (all.filterMap key).toFinset.card := by rw [hkeys]

end Faithful
end Index

/-! ## All indexes -/

namespace Registry

/-- The key of an error in the index of seeds. -/
def seedKey (e : Fault) : Option String := if e.isPropagated then some e.seed else none

/-- The indexes of a registry agree with the errors registered. -/
structure Accounted (r : Registry) : Prop where
  byEntry : r.byEntry.Faithful (fun e => some e.entry) r.order
  byLocation : r.byLocation.Faithful (fun e => some e.location) r.order
  byHead : r.byHead.Faithful (fun e => e.trace.head?) r.order
  bySeed : r.bySeed.Faithful seedKey r.order
  propagated : r.propagated = (r.order.filter (·.isPropagated)).length

namespace Accounted

variable {r : Registry}

theorem empty (mode : Containment) (functions : FunctionSet) :
    (Registry.empty mode functions).Accounted where
  byEntry := Index.Faithful.empty _
  byLocation := Index.Faithful.empty _
  byHead := Index.Faithful.empty _
  bySeed := Index.Faithful.empty _
  propagated := rfl

theorem drop (h : r.Accounted) (drops : Drops) : Accounted { r with drops := drops } :=
  ⟨h.byEntry, h.byLocation, h.byHead, h.bySeed, h.propagated⟩

theorem index (h : r.Accounted) {e : Fault} (hframes : e.trace.frames ≠ []) :
    (r.index e).Accounted where
  byEntry := h.byEntry.add rfl
  byLocation := h.byLocation.add rfl
  byHead := by
    cases hhead : e.trace.head? with
    | none => exact absurd (List.head?_eq_none_iff.mp hhead) hframes
    | some frame =>
      have hadd := h.byHead.add (e := e) hhead
      simpa [Registry.index, hhead] using hadd
  bySeed := by
    cases hp : e.isPropagated with
    | true =>
      have hadd := h.bySeed.add (e := e) (show seedKey e = some e.seed by simp [seedKey, hp])
      simpa [Registry.index, hp] using hadd
    | false =>
      have hskip := h.bySeed.skip (e := e) (by simp [seedKey, hp])
      simpa [Registry.index, hp] using hskip
  propagated := by
    cases hp : e.isPropagated with
    | true => simp [Registry.index, hp, h.propagated]
    | false => simp [Registry.index, hp, h.propagated]

theorem insert (h : r.Accounted) {e : Fault} (hframes : e.trace.frames ≠ []) :
    (r.insert e).Accounted :=
  -- Merging into the chains leaves the indexes alone.
  let hindex := h.index hframes
  ⟨hindex.byEntry, hindex.byLocation, hindex.byHead, hindex.bySeed, hindex.propagated⟩

end Accounted

theorem accounted_serveAll (mode : Containment) (functions : FunctionSet) (qs : List Request) :
    ((Registry.empty mode functions).serveAll qs).Accounted :=
  serveAll_induction (Accounted.empty mode functions) (fun _ drops h => h.drop drops)
    (fun _ _ _ h he => h.insert he.frames_ne_nil) qs

/-- After any requests the reports of the registered errors are different and lead to them, the
buckets list the errors of each key that occurs in the order they were registered, none is empty,
and the counters give the numbers of distinct reports, propagated reports, entry functions and
locations. -/
theorem serveAll_indexes_agree (mode : Containment) (functions : FunctionSet)
    (qs : List Request) :
    let r := (Registry.empty mode functions).serveAll qs
    ((r.order.map (·.report)).Nodup ∧
      ∀ report e, r.lookup report = some e ↔ e ∈ r.order ∧ e.report = report) ∧
    ((∀ entry, r.byEntry.get entry = r.order.filter (·.entry = entry)) ∧
      (∀ location, r.byLocation.get location = r.order.filter (·.location = location)) ∧
      (∀ frame, r.byHead.get frame = r.order.filter (·.trace.head? = some frame)) ∧
      ∀ seed, r.bySeed.get seed = r.order.filter fun e => e.isPropagated ∧ e.seed = seed) ∧
    ((∀ bucket ∈ r.byEntry.buckets, bucket.2 ≠ []) ∧
      (∀ bucket ∈ r.byLocation.buckets, bucket.2 ≠ []) ∧
      (∀ bucket ∈ r.byHead.buckets, bucket.2 ≠ []) ∧
      ∀ bucket ∈ r.bySeed.buckets, bucket.2 ≠ []) ∧
    r.propagated = (r.order.filter (·.isPropagated)).length ∧
    (∀ e ∈ r.order, e.trace.frames ≠ []) ∧
    (r.order.length = (r.order.map (·.report)).toFinset.card ∧
      r.propagated = ((r.order.filter (·.isPropagated)).map (·.report)).toFinset.card ∧
      r.byEntry.size = (r.order.map (·.entry)).toFinset.card ∧
      r.byLocation.size = (r.order.map (·.location)).toFinset.card) := by
  intro r
  have hix : r.Indexed := indexed_serveAll mode functions qs
  have h : r.Accounted := accounted_serveAll mode functions qs
  refine ⟨⟨hix.reports_nodup, hix.lookup_eq_some_iff⟩, ⟨?_, ?_, ?_, ?_⟩,
    ⟨h.byEntry.filled, h.byLocation.filled, h.byHead.filled, h.bySeed.filled⟩, h.propagated,
    hix.frames_ne_nil, ?_, ?_, ?_, ?_⟩
  · intro entry
    simpa using h.byEntry.lists entry
  · intro location
    simpa using h.byLocation.lists location
  · exact h.byHead.lists
  · intro seed
    rw [h.bySeed.lists seed]
    apply List.filter_congr
    intro e _
    cases hp : e.isPropagated with
    | true => simp [seedKey, hp]
    | false => simp [seedKey, hp]
  · rw [List.toFinset_card_of_nodup hix.reports_nodup, List.length_map]
  · -- The reports of some of the errors are different as well.
    have hnodup : ((r.order.filter (·.isPropagated)).map (·.report)).Nodup :=
      hix.reports_nodup.sublist (List.filter_sublist.map _)
    rw [List.toFinset_card_of_nodup hnodup, List.length_map, h.propagated]
  · simpa [List.filterMap_eq_map] using h.byEntry.size_eq
  · simpa [List.filterMap_eq_map] using h.byLocation.size_eq

end Registry
end FaultChain
