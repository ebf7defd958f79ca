import FaultChain.Registry.Basic
import FaultChain.Proofs.Lists

/-!
# Requests to a registry

A registry changes by requests to register an error or a report file. A request either counts a
dropped error at most, or inserts an error that was not registered before.

* `Registry.Request`, `Registry.serveAll`: sequences of requests.
* `Registry.serve_cases`: what one request can do.
* `Registry.serveAll_induction`: what holds of a fresh registry and is kept by every request.
* `Registry.Indexed`: the indexes list the registered errors.
-/

namespace FaultChain

/-! ## Indexes -/

namespace Index

variable {κ : Type} [DecidableEq κ]

theorem lookup_addTo (k k' : κ) (e : Fault) (buckets : List (κ × List Fault)) :
    ((addTo k e buckets).lookup k').getD [] =
      (buckets.lookup k').getD [] ++ if k' = k then [e] else [] := by
  induction buckets with
  | nil =>
    by_cases h : k' = k
    · simp [addTo, h]
    · simp [addTo, lookup_cons_of_ne h, h]
  | cons bucket rest ih =>
    rcases bucket with ⟨k₀, es⟩
    -- The bucket looked for may be this one, and this one the bucket that is added to.
    by_cases h : k' = k₀
    · subst h
      by_cases h₀ : k' = k
      · simp [addTo, h₀]
      · simp [addTo, h₀]
    · by_cases h₀ : k₀ = k
      · subst h₀
        simp [addTo, lookup_cons_of_ne h, h]
      · simpa [addTo, h₀, lookup_cons_of_ne h] using ih

theorem get_add (ix : Index κ) (k k' : κ) (e : Fault) :
    (ix.add k e).get k' = ix.get k' ++ if k' = k then [e] else [] :=
  lookup_addTo k k' e ix.buckets

/-- The buckets list the errors with a key, in order. -/
def Lists (ix : Index κ) (key : Fault → Option κ) (all : List Fault) : Prop :=
  ∀ k, ix.get k = all.filter fun e => key e = some k

theorem Lists.empty (key : Fault → Option κ) : (Index.empty : Index κ).Lists key [] :=
  fun _ => rfl

theorem Lists.add {ix : Index κ} {key : Fault → Option κ} {all : List Fault}
    (h : ix.Lists key all) {e : Fault} {k : κ} (hk : key e = some k) :
    (ix.add k e).Lists key (all ++ [e]) := by
  intro k'
  rw [get_add, h k', List.filter_append]
  by_cases heq : k' = k
  · simp [heq, hk]
  · have hne : k ≠ k' := fun hc => heq hc.symm
    simp [heq, hk, hne]

end Index

namespace Registry

/-! ## Requests -/

/-- A request to register an error or a report file. -/
inductive Request where
  | register (e : Fault)
  | registerFile (files : FileTree) (path entry : String)

/-- The registry after a request. -/
def serve (r : Registry) : Request → Registry
  | .register e => (r.register e).2
  | .registerFile files path entry => (r.registerFile files path entry).2

/-- The registry after a sequence of requests. -/
def serveAll (r : Registry) (qs : List Request) : Registry := qs.foldl serve r

/-- What a registry accepts of an error: the error as it is inserted. -/
def Accepts (r : Registry) (given e : Fault) : Prop :=
  r.lookup given.report = none ∧ r.vetted given = .ok e

/-- An accepted error is as it was given, or has taken over from its registered seed. -/
theorem vetted_cases {r : Registry} {given e : Fault} (h : r.vetted given = .ok e) :
    e.trace.frames ≠ [] ∧
      ((given.isPropagated = false ∧ e = given) ∨
        (given.isPropagated = true ∧
          ∃ seed, r.lookup given.seed = some seed ∧ e = inherit seed given)) := by
  unfold vetted assess inherited at h
  cases hblack : given.isBlacklisted with
  | true => simp [hblack] at h
  | false =>
    cases hp : given.isPropagated with
    | false =>
      simp only [hblack, hp, Bool.false_eq_true, if_false] at h
      by_cases hframes : given.trace.frames.isEmpty = true
      · simp [hframes] at h
      · simp only [hframes, Bool.false_eq_true, if_false] at h
        cases h
        exact ⟨by simpa using hframes, Or.inl ⟨rfl, rfl⟩⟩
    | true =>
      cases hs : r.lookup given.seed with
      | none => simp [hblack, hp, hs] at h
      | some seed =>
        simp only [hblack, hp, hs, Bool.false_eq_true, if_false, if_true] at h
        by_cases hframes : (inherit seed given).trace.frames.isEmpty = true
        · simp [hframes] at h
        · simp only [hframes, Bool.false_eq_true, if_false] at h
          cases h
          exact ⟨by simpa using hframes, Or.inr ⟨rfl, seed, rfl, rfl⟩⟩

theorem Accepts.report_eq {r : Registry} {given e : Fault} (h : r.Accepts given e) :
    e.report = given.report := by
  rcases (vetted_cases h.2).2 with ⟨-, rfl⟩ | ⟨-, seed, -, rfl⟩
  · rfl
  · rfl

theorem Accepts.lookup_eq_none {r : Registry} {given e : Fault} (h : r.Accepts given e) :
    r.lookup e.report = none := by
  rw [h.report_eq]
  exact h.1

theorem Accepts.frames_ne_nil {r : Registry} {given e : Fault} (h : r.Accepts given e) :
    e.trace.frames ≠ [] :=
  (vetted_cases h.2).1

theorem register_cases (r : Registry) (given : Fault) :
    (∃ drops, (r.register given).2 = { r with drops := drops }) ∨
      (∃ e, r.Accepts given e ∧ (r.register given).2 = r.insert e) := by
  unfold register
  split
  · exact Or.inl ⟨r.drops, rfl⟩
  · rename_i hnone
    split
    · exact Or.inl ⟨_, rfl⟩
    · rename_i e he
      exact Or.inr ⟨e, ⟨hnone, he⟩, rfl⟩

/-- A request counts a dropped error at most, or inserts an accepted error. -/
theorem serve_cases (r : Registry) (q : Request) :
    (∃ drops, r.serve q = { r with drops := drops }) ∨
      (∃ given e, r.Accepts given e ∧ r.serve q = r.insert e) := by
  cases q with
  | register given =>
    rcases register_cases r given with ⟨drops, h⟩ | ⟨e, he, h⟩
    · exact Or.inl ⟨drops, h⟩
    · exact Or.inr ⟨given, e, he, h⟩
  | registerFile files path entry =>
    change (∃ drops, (r.registerFile files path entry).2 = _) ∨ _
    unfold registerFile
    cases hread : Report.read files path entry r.functions with
    | error f => exact Or.inl ⟨_, rfl⟩
    | ok given =>
      rcases register_cases r given with ⟨drops, h⟩ | ⟨e, he, h⟩
      · exact Or.inl ⟨drops, h⟩
      · refine Or.inr ⟨given, e, he, ?_⟩
        simpa [serve, registerFile, hread] using h

theorem mode_serve (r : Registry) (q : Request) : (r.serve q).mode = r.mode := by
  rcases serve_cases r q with ⟨drops, h⟩ | ⟨given, e, -, h⟩
  · rw [h]
  · rw [h]
    rfl

theorem mode_serveAll (r : Registry) (qs : List Request) : (r.serveAll qs).mode = r.mode := by
  induction qs generalizing r with
  | nil => rfl
  | cons q qs ih => exact (ih (r.serve q)).trans (mode_serve r q)

/-- What holds of a fresh registry and is kept by counting and by inserting holds after every
sequence of requests. -/
theorem serveAll_induction {P : Registry → Prop} {mode : Containment} {functions : FunctionSet}
    (hempty : P (Registry.empty mode functions))
    (hdrop : ∀ r drops, P r → P { r with drops := drops })
    (hinsert : ∀ r given e, P r → r.Accepts given e → P (r.insert e)) (qs : List Request) :
    P ((Registry.empty mode functions).serveAll qs) := by
  -- From any registry with the property, as requests change it along the way.
  suffices h : ∀ r, P r → P (r.serveAll qs) from h _ hempty
  induction qs with
  | nil => exact fun r hr => hr
  | cons q qs ih =>
    intro r hr
    refine ih (r.serve q) ?_
    rcases serve_cases r q with ⟨drops, h⟩ | ⟨given, e, he, h⟩
    · rw [h]
      exact hdrop r drops hr
    · rw [h]
      exact hinsert r given e hr he

/-! ## Registered errors -/

/-- The indexes list the registered errors, whose reports are different. -/
structure Indexed (r : Registry) : Prop where
  byReport : r.byReport = r.order.map fun e => (e.report, e)
  reports_nodup : (r.order.map (·.report)).Nodup
  byEntry : r.byEntry.Lists (fun e => some e.entry) r.order
  byHead : r.byHead.Lists (fun e => e.trace.head?) r.order
  frames_ne_nil : ∀ e ∈ r.order, e.trace.frames ≠ []

namespace Indexed

variable {r : Registry}

theorem lookup_eq_find? (h : r.Indexed) (report : String) :
    r.lookup report = r.order.find? (·.report == report) := by
  unfold lookup
  rw [h.byReport, lookup_map_key]
  exact Option.map_id'

theorem lookup_eq_none_iff (h : r.Indexed) (report : String) :
    r.lookup report = none ↔ ∀ e ∈ r.order, e.report ≠ report := by
  rw [h.lookup_eq_find?]
  simp

theorem lookup_eq_some_iff (h : r.Indexed) (report : String) (e : Fault) :
    r.lookup report = some e ↔ e ∈ r.order ∧ e.report = report := by
  rw [h.lookup_eq_find?]
  exact find?_key_eq_some_iff h.reports_nodup

theorem mem_get_byHead (h : r.Indexed) {frame : Frame} {e : Fault} :
    e ∈ r.byHead.get frame ↔ e ∈ r.order ∧ e.trace.head? = some frame := by
  rw [h.byHead frame]
  simp

theorem mem_get_byEntry (h : r.Indexed) {entry : String} {e : Fault} :
    e ∈ r.byEntry.get entry ↔ e ∈ r.order ∧ e.entry = entry := by
  rw [h.byEntry entry]
  simp

theorem empty (mode : Containment) (functions : FunctionSet) :
    (Registry.empty mode functions).Indexed where
  byReport := rfl
  reports_nodup := List.nodup_nil
  byEntry := Index.Lists.empty _
  byHead := Index.Lists.empty _
  frames_ne_nil := fun _ he => absurd he List.not_mem_nil

theorem drop (h : r.Indexed) (drops : Drops) : Indexed { r with drops := drops } :=
  ⟨h.byReport, h.reports_nodup, h.byEntry, h.byHead, h.frames_ne_nil⟩

theorem index (h : r.Indexed) {e : Fault} (hnew : r.lookup e.report = none)
    (hframes : e.trace.frames ≠ []) : (r.index e).Indexed where
  byReport := by simp [Registry.index, h.byReport]
  reports_nodup := by
    -- The report is not looked up yet, so no other error has it.
    have hfresh := (h.lookup_eq_none_iff e.report).mp hnew
    have : (r.order.map (·.report) ++ [e.report]).Nodup := by
      rw [List.nodup_append]
      refine ⟨h.reports_nodup, by simp, ?_⟩
      intro x hx y hy hxy
      obtain ⟨e', he', rfl⟩ := List.mem_map.mp hx
      exact hfresh e' he' (hxy.trans (List.mem_singleton.mp hy))
    simpa [Registry.index] using this
  byEntry := h.byEntry.add rfl
  byHead := by
    cases hhead : e.trace.head? with
    | none => exact absurd (List.head?_eq_none_iff.mp hhead) hframes
    | some frame =>
      have hadd := h.byHead.add (e := e) hhead
      simpa [Registry.index, hhead] using hadd
  frames_ne_nil := by
    intro e' he'
    rcases List.mem_append.mp he' with hold | hnew'
    · exact h.frames_ne_nil e' hold
    · rw [List.mem_singleton.mp hnew']
      exact hframes

theorem insert (h : r.Indexed) {e : Fault} (hnew : r.lookup e.report = none)
    (hframes : e.trace.frames ≠ []) : (r.insert e).Indexed :=
  let hindex := h.index hnew hframes
  ⟨hindex.byReport, hindex.reports_nodup, hindex.byEntry, hindex.byHead, hindex.frames_ne_nil⟩

end Indexed

theorem order_insert (r : Registry) (e : Fault) : (r.insert e).order = r.order ++ [e] := rfl

/-- The indexes list the registered errors after every sequence of requests. -/
theorem indexed_serveAll (mode : Containment) (functions : FunctionSet) (qs : List Request) :
    ((Registry.empty mode functions).serveAll qs).Indexed :=
  serveAll_induction (Indexed.empty mode functions) (fun _ drops h => h.drop drops)
    (fun _ _ _ h he => h.insert he.lookup_eq_none he.frames_ne_nil) qs

end Registry
end FaultChain
