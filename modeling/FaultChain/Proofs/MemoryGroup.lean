import Mathlib.Data.List.Pairwise
import FaultChain.MemoryGroup
import FaultChain.Proofs.Lists
import FaultChain.Proofs.Text.Decimals

/-!
# Sharing memory groups

Whatever order the steps of calls come in, and however their bodies end, every group of a pool is
free or held by one call. So there is always room to give a group back, and no group gets lost.

* `GroupPool.Performs`: a step of a call and what it does to the pool.
* `GroupPool.Use.Moves`, `GroupPool.Use.moves_advance`: what a step does to a pool and its calls.
* `GroupPool.Use.Shared`: every group is free or held, kept by every run.
* `GroupPool.Use.Sound`: what this means for the calls.
* `GroupPool.Use.run_shares_groups`: the main statement.
-/

namespace FaultChain
namespace GroupPool

variable {p p' : GroupPool} {c c' d : GroupCall} {s : CallStep} {g : MemoryGroup}

/-! ## One call -/

/-- A step of a call, with the call and the pool afterwards. -/
inductive Performs (c : GroupCall) (p : GroupPool) : CallStep → GroupCall → GroupPool → Prop
  | cancel : Performs c p .cancel { c with canceled := true } p
  | take {g : MemoryGroup} {rest : List MemoryGroup} : c.stage = .waiting → p.free = g :: rest →
    Performs c p .take { c with stage := .running g } { p with free := rest }
  | giveUp : c.stage = .waiting → c.canceled = true →
    Performs c p .giveUp { c with stage := .refused } p
  | finish {g : MemoryGroup} (how : BodyEnd) : c.stage = .running g →
    Performs c p (.finish how) { c with stage := .leaving g how } p
  | giveBack {g : MemoryGroup} {how : BodyEnd} : c.stage = .leaving g how →
    p.free.length < p.size → Performs c p .giveBack { c with stage := .over how } (p.release g)

theorem perform?_eq_some_iff : c.perform? p s = some (c', p') ↔ Performs c p s c' p' := by
  constructor
  · intro h
    unfold GroupCall.perform? at h
    -- First the steps, and then the stages that each of them can start from.
    split at h
    · cases h
    · cases h
      exact .cancel
    · split at h
      · rename_i hstage hacquire
        unfold acquire at hacquire
        split at hacquire <;> cases hacquire
        cases h
        exact .take hstage ‹_›
      · cases h
    · split at h
      · split at h <;> cases h
        exact .giveUp ‹_› ‹_›
      · cases h
    · split at h <;> cases h
      exact .finish _ ‹_›
    · split at h
      · rename_i hstage
        unfold giveBack? at h
        split at h
        · rename_i hroom
          cases h
          exact .giveBack hstage hroom
        · cases h
      · cases h
  · intro h
    cases h <;> simp_all [GroupCall.perform?, acquire, giveBack?]

theorem Performs.caller_eq (h : Performs c p s c' p') : c'.caller = c.caller := by
  cases h <;> rfl

theorem Performs.groups_eq (h : Performs c p s c' p') : p'.groups = p.groups := by
  cases h <;> rfl

/-- A step moves a group between the free ones and the call, or it moves none. -/
theorem Performs.balanced (h : Performs c p s c' p') :
    (p'.free ++ c'.stage.group?.toList).Perm (p.free ++ c.stage.group?.toList) := by
  cases h with
  | cancel => exact List.Perm.refl _
  | take hstage hfree =>
    rw [hstage, hfree]
    simp [CallStage.group?]
  | giveUp hstage => simp [hstage, CallStage.group?]
  | finish how hstage => simp [hstage, CallStage.group?]
  | giveBack hstage => simp [hstage, CallStage.group?, release]

/-- Whether a call has had a group. -/
def CallStage.served : CallStage → Bool
  | .running _ => true
  | .leaving _ _ => true
  | .over _ => true
  | _ => false

theorem Performs.served (h : Performs c p s c' p') (hserved : c.stage.served = true) :
    c'.stage.served = true := by
  cases h with
  | cancel => exact hserved
  | take hstage => rfl
  | giveUp hstage =>
    rw [hstage] at hserved
    cases hserved
  | finish how hstage => rfl
  | giveBack hstage => rfl

theorem served_of_group? (h : c.stage.group? = some g) : c.stage.served = true := by
  cases hstage : c.stage <;> simp_all [CallStage.group?, CallStage.served]

namespace Use

variable {u u' : Use} {groups : List MemoryGroup} {how : BodyEnd}

/-! ## All calls -/

theorem call?_eq_some_iff (h : (u.calls.map (·.caller)).Nodup) {caller : Nat} :
    u.call? caller = some c ↔ c ∈ u.calls ∧ c.caller = caller :=
  find?_key_eq_some_iff h

theorem advance_of_performs (h : (u.calls.map (·.caller)).Nodup) (hc : c ∈ u.calls)
    (hperforms : Performs c u.pool s c' p') : u.advance c.caller s = u.put c' p' := by
  have hcall := (call?_eq_some_iff h).mpr ⟨hc, rfl⟩
  have hperform := perform?_eq_some_iff.mpr hperforms
  simp only [advance, hcall, hperform]

/-- A call stands in one place, and only there the calls change with it. -/
theorem calls_put (h : (u.calls.map (·.caller)).Nodup) (hc : c ∈ u.calls)
    (hcaller : c'.caller = c.caller) (pool : GroupPool) :
    ∃ before after, u.calls = before ++ c :: after ∧
      (u.put c' pool).calls = before ++ c' :: after := by
  obtain ⟨before, after, hsplit⟩ := List.append_of_mem hc
  refine ⟨before, after, hsplit, ?_⟩
  rw [hsplit] at h
  rw [put, hcaller, hsplit]
  exact map_replace_of_nodup h c'

/-- What a step can do to a pool and its calls. -/
inductive Moves (u : Use) : Use → Prop
  | same : Moves u u
  | made (caller : Nat) : caller ∉ u.calls.map (·.caller) →
    Moves u { u with calls := u.calls ++ [{ caller := caller }] }
  | step {before after : List GroupCall} {c c' : GroupCall} {s : CallStep} {p' : GroupPool} :
    u.calls = before ++ c :: after → Performs c u.pool s c' p' →
    Moves u { pool := p', calls := before ++ c' :: after }

theorem moves_advance (h : (u.calls.map (·.caller)).Nodup) (caller : Nat) (s : CallStep) :
    Moves u (u.advance caller s) := by
  cases hcall : u.call? caller with
  | none =>
    -- Only making it is possible.
    have hfresh : caller ∉ u.calls.map (·.caller) := by
      intro hmem
      obtain ⟨c, hc, hcaller⟩ := List.mem_map.mp hmem
      rw [(call?_eq_some_iff h).mpr ⟨hc, hcaller⟩] at hcall
      cases hcall
    unfold advance
    rw [hcall]
    cases s with
    | made => exact .made caller hfresh
    | _ => exact .same
  | some c =>
    obtain ⟨hc, rfl⟩ := (call?_eq_some_iff h).mp hcall
    cases hperform : c.perform? u.pool s with
    | none =>
      simp only [advance, hcall, hperform]
      exact .same
    | some after =>
      have hperforms : Performs c u.pool s after.1 after.2 := perform?_eq_some_iff.mp hperform
      obtain ⟨before, rest, hsplit, hput⟩ := calls_put h hc hperforms.caller_eq after.2
      have hmoved : u.put after.1 after.2 =
          { pool := after.2, calls := before ++ after.1 :: rest } := by rw [← hput]; rfl
      rw [advance_of_performs h hc hperforms, hmoved]
      exact .step hsplit hperforms

/-! ## Every group is free or held -/

/-- The calls of a pool have different callers, and every group is free or held by one of them. -/
structure Shared (groups : List MemoryGroup) (u : Use) : Prop where
  groups_eq : u.pool.groups = groups
  callers_nodup : (u.calls.map (·.caller)).Nodup
  once : (u.pool.free ++ u.calls.filterMap (·.stage.group?)).Perm groups

/-- One list within another can be moved to its front. -/
theorem perm_append_within {α : Type} (front before xs after : List α) :
    (front ++ (before ++ (xs ++ after))).Perm (front ++ xs ++ (before ++ after)) := by
  rw [List.append_assoc front]
  exact List.Perm.append_left front (List.perm_append_comm_assoc _ _ _)

theorem filterMap_group?_cons (before after : List GroupCall) (c : GroupCall) :
    (before ++ c :: after).filterMap (·.stage.group?) =
      before.filterMap (·.stage.group?) ++
        (c.stage.group?.toList ++ after.filterMap (·.stage.group?)) := by
  rw [List.filterMap_append, List.filterMap_cons]
  cases c.stage.group? <;> rfl

theorem Shared.moves (h : Shared groups u) (hmoves : Moves u u') : Shared groups u' := by
  cases hmoves with
  | same => exact h
  | made caller hfresh =>
    refine ⟨h.groups_eq, ?_, ?_⟩
    · rw [List.map_append, List.nodup_append]
      refine ⟨h.callers_nodup, by simp, ?_⟩
      rintro x hx y hy rfl
      obtain rfl : x = caller := by simpa using hy
      exact hfresh hx
    · simpa [List.filterMap_append, CallStage.group?] using h.once
  | @step before after c c' s p' hsplit hperforms =>
    refine ⟨hperforms.groups_eq.trans h.groups_eq, ?_, ?_⟩
    · have hnodup := h.callers_nodup
      rw [hsplit] at hnodup
      simpa [hperforms.caller_eq] using hnodup
    · have honce := h.once
      rw [hsplit, filterMap_group?_cons] at honce
      rw [filterMap_group?_cons]
      -- What the free groups and the call have together stays the same.
      have hbalanced := hperforms.balanced.append_right
        (before.filterMap (·.stage.group?) ++ after.filterMap (·.stage.group?))
      exact ((perm_append_within _ _ _ _).trans hbalanced).trans
        ((perm_append_within _ _ _ _).symm.trans honce)

theorem Shared.advance (h : Shared groups u) (caller : Nat) (s : CallStep) :
    Shared groups (u.advance caller s) :=
  h.moves (moves_advance h.callers_nodup caller s)

theorem Shared.run (h : Shared groups u) (steps : List (Nat × CallStep)) :
    Shared groups (u.run steps) := by
  induction steps generalizing u with
  | nil => exact h
  | cons step steps ih => exact ih (h.advance step.1 step.2)

/-- A call that holds a group leaves room among the free ones. -/
theorem Shared.room (h : Shared groups u) (hc : c ∈ u.calls) (hg : c.stage.group? = some g) :
    u.pool.free.length < u.pool.size := by
  have hlength := h.once.length_eq
  have hpos : 0 < (u.calls.filterMap (·.stage.group?)).length :=
    List.length_pos_of_mem (List.mem_filterMap.mpr ⟨c, hc, hg⟩)
  rw [List.length_append] at hlength
  rw [size, h.groups_eq]
  omega

/-- Giving back does not wait. -/
theorem Shared.advance_giveBack (h : Shared groups u) (hc : c ∈ u.calls)
    (hstage : c.stage = .leaving g how) :
    u.advance c.caller .giveBack = u.put { c with stage := .over how } (u.pool.release g) :=
  advance_of_performs h.callers_nodup hc
    (.giveBack hstage (h.room hc (by rw [hstage]; rfl)))

/-! ## Calls that are refused -/

theorem exists_served_advance (h : Shared groups u) (hc : c ∈ u.calls)
    (hserved : c.stage.served = true) (caller : Nat) (s : CallStep) :
    ∃ d ∈ (u.advance caller s).calls, d.caller = c.caller ∧ d.stage.served = true := by
  have hmoves := moves_advance h.callers_nodup caller s
  generalize u.advance caller s = u' at hmoves ⊢
  cases hmoves with
  | same => exact ⟨c, hc, rfl, hserved⟩
  | made caller => exact ⟨c, List.mem_append_left _ hc, rfl, hserved⟩
  | @step before after b b' s p' hsplit hperforms =>
    rw [hsplit] at hc
    rcases List.mem_append.mp hc with hc | hc
    · exact ⟨c, List.mem_append_left _ hc, rfl, hserved⟩
    · rcases List.mem_cons.mp hc with rfl | hc
      · exact ⟨b', by simp, hperforms.caller_eq, hperforms.served hserved⟩
      · exact ⟨c, by simp [hc], rfl, hserved⟩

/-- A call that has had a group has had it for good. -/
theorem exists_served_run (h : Shared groups u) (hc : c ∈ u.calls)
    (hserved : c.stage.served = true) (steps : List (Nat × CallStep)) :
    ∃ d ∈ (u.run steps).calls, d.caller = c.caller ∧ d.stage.served = true := by
  induction steps generalizing u c with
  | nil => exact ⟨c, hc, rfl, hserved⟩
  | cons step steps ih =>
    obtain ⟨d, hd, hcaller, hserved'⟩ := exists_served_advance h hc hserved step.1 step.2
    obtain ⟨e, he, hcaller', hserved''⟩ := ih (h.advance step.1 step.2) hd hserved'
    exact ⟨e, he, hcaller'.trans hcaller, hserved''⟩

/-! ## Calls that leave -/

/-- A call that does not leave gives nothing back. -/
theorem advance_giveBack_eq_self (h : (u.calls.map (·.caller)).Nodup) {caller : Nat}
    (hnone : ∀ c ∈ u.calls, c.caller = caller → ∀ g how, c.stage ≠ .leaving g how) :
    u.advance caller .giveBack = u := by
  cases hcall : u.call? caller with
  | none => simp only [advance, hcall]
  | some c =>
    obtain ⟨hc, hcaller⟩ := (call?_eq_some_iff h).mp hcall
    have hperform : c.perform? u.pool .giveBack = none := by
      refine Option.eq_none_iff_forall_ne_some.mpr fun ⟨c', p'⟩ hafter => ?_
      cases perform?_eq_some_iff.mp hafter with
      | giveBack hstage => exact hnone c hc hcaller _ _ hstage
    simp only [advance, hcall, hperform]

/-- While no body runs, a call that was to give its group back holds none, and no other call has
changed. -/
theorem Shared.of_mem_giveBack (h : Shared groups u)
    (hidle : ∀ c ∈ u.calls, ∀ g, c.stage ≠ .running g) {caller : Nat}
    (hd : d ∈ (u.advance caller .giveBack).calls) :
    (∀ g, d.stage ≠ .running g) ∧ (d.stage.group? ≠ none → d ∈ u.calls ∧ d.caller ≠ caller) := by
  -- Either this call leaves, which changes its stage only, or nothing happens at all.
  by_cases hleaving : ∃ c ∈ u.calls, c.caller = caller ∧ ∃ g how, c.stage = .leaving g how
  · obtain ⟨c, hc, rfl, g, how, hstage⟩ := hleaving
    rw [h.advance_giveBack hc hstage] at hd
    obtain ⟨e, he, rfl⟩ := List.mem_map.mp hd
    split
    · exact ⟨by simp, by simp [CallStage.group?]⟩
    · rename_i hother
      exact ⟨hidle e he, fun _ => ⟨he, hother⟩⟩
  · have hnone : ∀ c ∈ u.calls, c.caller = caller → ∀ g how, c.stage ≠ .leaving g how :=
      fun c hc hcaller g how hstage => hleaving ⟨c, hc, hcaller, g, how, hstage⟩
    rw [advance_giveBack_eq_self h.callers_nodup hnone] at hd
    refine ⟨hidle d hd, fun hgroup => ⟨hd, fun hcaller => ?_⟩⟩
    -- A call that holds a group runs or leaves; the first is excluded, the second has another
    -- caller.
    cases hstage : d.stage with
    | running g => exact hidle d hd g hstage
    | leaving g how => exact hnone d hd hcaller g how hstage
    | _ => simp [hstage, CallStage.group?] at hgroup

/-- Without a holder, every group is free. -/
theorem Shared.perm_of_unheld (h : Shared groups u)
    (hnone : ∀ c ∈ u.calls, c.stage.group? = none) : u.pool.free.Perm groups := by
  have hempty : u.calls.filterMap (·.stage.group?) = [] :=
    List.filterMap_eq_nil_iff.mpr hnone
  simpa [hempty] using h.once

/-- When no body runs, all groups are free once the calls that leave have given theirs back. -/
theorem Shared.perm_of_idle (h : Shared groups u)
    (hidle : ∀ c ∈ u.calls, ∀ g, c.stage ≠ .running g) {order : List Nat}
    (horder : ∀ c ∈ u.calls, c.stage.group? ≠ none → c.caller ∈ order) :
    (u.run (order.map (·, .giveBack))).pool.free.Perm groups := by
  induction order generalizing u with
  | nil =>
    refine h.perm_of_unheld fun c hc => ?_
    by_contra hgroup
    exact List.not_mem_nil (horder c hc hgroup)
  | cons caller order ih =>
    -- The callers that remain still name all holders.
    refine ih (h.advance caller .giveBack) (fun d hd => (h.of_mem_giveBack hidle hd).1) ?_
    intro d hd hgroup
    obtain ⟨hold, hother⟩ := (h.of_mem_giveBack hidle hd).2 hgroup
    exact (List.mem_cons.mp (horder d hold hgroup)).resolve_left hother

/-! ## Every run -/

/-- A new pool without calls. -/
def ofConfig (c : Config) (size : Int) : Use := { pool := GroupPool.ofConfig c size }

/-- What sharing a pool of `n` groups comes to. -/
structure Sound (n : Nat) (u : Use) : Prop where
  groups_nodup : u.pool.groups.Nodup
  groups_length : u.pool.groups.length = n
  /-- Every group is free or held, and only once. -/
  once : (u.pool.free ++ u.held.map (·.2)).Perm u.pool.groups
  /-- No two calls hold the same group. -/
  apart : ∀ c ∈ u.calls, ∀ d ∈ u.calls, ∀ g,
    c.stage.group? = some g → d.stage.group? = some g → c = d
  bounded : u.held.length ≤ n
  /-- A call only waits while all groups are held. -/
  handed : ∀ c ∈ u.calls, c.stage = .waiting → u.held.length < n →
    ∃ g rest, u.pool.free = g :: rest ∧
      u.advance c.caller .take = u.put { c with stage := .running g } { u.pool with free := rest }
  /-- Giving back does not wait. -/
  prompt : ∀ c ∈ u.calls, ∀ g how, c.stage = .leaving g how →
    u.advance c.caller .giveBack = u.put { c with stage := .over how } (u.pool.release g)
  /-- Without a holder, every group is free. -/
  settled : (∀ c ∈ u.calls, c.stage.group? = none) → u.pool.free.Perm u.pool.groups
  /-- When no body runs, all groups are free once the calls that leave have given theirs back. -/
  idle : (∀ c ∈ u.calls, ∀ g, c.stage ≠ .running g) → ∀ order : List Nat,
    (∀ c ∈ u.calls, c.stage.group? ≠ none → c.caller ∈ order) →
      (u.run (order.map (·, .giveBack))).pool.free.Perm u.pool.groups

theorem map_snd_held (u : Use) : u.held.map (·.2) = u.calls.filterMap (·.stage.group?) := by
  rw [held, List.map_filterMap]
  simp [Function.comp_def]

/-- Two calls that hold the same group are the same. -/
theorem Shared.eq_of_group? (h : Shared groups u) (hgroups : groups.Nodup) (hc : c ∈ u.calls)
    (hd : d ∈ u.calls) (hcg : c.stage.group? = some g) (hdg : d.stage.group? = some g) : c = d := by
  -- The held groups are different, as they are among the groups of the pool only once.
  have hheld : (u.calls.filterMap (·.stage.group?)).Nodup :=
    ((List.nodup_append.mp (h.once.nodup_iff.mpr hgroups)).2).1
  have hapart := List.pairwise_filterMap.mp hheld
  have hsymm : Std.Symm fun a b : GroupCall => ∀ x, a.stage.group? = some x →
      ∀ y, b.stage.group? = some y → x ≠ y :=
    ⟨fun _ _ hab x hx y hy hxy => hab y hy x hx hxy.symm⟩
  by_contra hne
  exact hapart.forall hc hd hne g hcg g hdg rfl

theorem Shared.sound (h : Shared groups u) (hgroups : groups.Nodup) : Sound groups.length u := by
  have honce : (u.pool.free ++ u.held.map (·.2)).Perm groups := by
    rw [map_snd_held]
    exact h.once
  have hcount : u.pool.free.length + u.held.length = groups.length := by
    simpa using honce.length_eq
  refine ⟨by rwa [h.groups_eq], by rw [h.groups_eq], by rwa [h.groups_eq],
    fun c hc d hd g => h.eq_of_group? hgroups hc hd, by omega, ?_,
    fun c hc g how hstage => h.advance_giveBack hc hstage, ?_, ?_⟩
  · -- With fewer groups held than there are, one of them is free.
    intro c hc hstage hfew
    cases hfree : u.pool.free with
    | nil =>
      rw [hfree, List.length_nil] at hcount
      omega
    | cons g rest =>
      exact ⟨g, rest, rfl, advance_of_performs h.callers_nodup hc (.take hstage hfree)⟩
  · rw [h.groups_eq]
    exact h.perm_of_unheld
  · rw [h.groups_eq]
    exact fun hidle order horder => h.perm_of_idle hidle horder

theorem indexed_injective : Function.Injective MemoryGroup.indexed := by
  intro i j h
  exact Decimal.ofNat_injective (by simpa [MemoryGroup.indexed] using h)

theorem groups_ofConfig (c : Config) (size : Int) :
    (GroupPool.ofConfig c size).groups.Nodup ∧
      (GroupPool.ofConfig c size).groups.length = if size ≤ 0 then 1 else size.toNat := by
  constructor
  · have hnames : (MemoryGroup.names (if size ≤ 0 then 1 else size.toNat)).Nodup :=
      (List.nodup_range).map indexed_injective
    refine hnames.map fun a b hab => ?_
    simpa using hab
  · simp [GroupPool.ofConfig, MemoryGroup.names]

theorem shared_ofConfig (c : Config) (size : Int) :
    Shared (GroupPool.ofConfig c size).groups (ofConfig c size) :=
  ⟨rfl, by simp [ofConfig], by simp [ofConfig, GroupPool.ofConfig]⟩

/-- However calls interleave, and however their bodies end, they share the groups of their pool: each
group is free or held by one call, giving back never waits, and what is told to stop while it waits
has never held a group. -/
theorem run_shares_groups (c : Config) (size : Int) (steps : List (Nat × CallStep)) :
    Sound (if size ≤ 0 then 1 else size.toNat) ((ofConfig c size).run steps) ∧
      ((ofConfig c size).run steps).pool.groups = (GroupPool.ofConfig c size).groups ∧
      ∀ earlier later, steps = earlier ++ later →
        ∀ x ∈ ((ofConfig c size).run steps).calls, x.stage = .refused →
          ∀ y ∈ ((ofConfig c size).run earlier).calls, y.caller = x.caller →
            y.stage.group? = none := by
  have hshared := shared_ofConfig c size
  have hrun := hshared.run steps
  obtain ⟨hnodup, hlength⟩ := groups_ofConfig c size
  refine ⟨by rw [← hlength]; exact hrun.sound hnodup, hrun.groups_eq, ?_⟩
  rintro earlier later rfl x hx hrefused y hy hcaller
  cases hgroup : y.stage.group? with
  | none => rfl
  | some g =>
    -- A call that had a group once is not refused any more.
    obtain ⟨z, hz, hzy, hserved⟩ :=
      exists_served_run (hshared.run earlier) hy (served_of_group? hgroup) later
    have hsame : z = x := by
      have hrest : (ofConfig c size).run (earlier ++ later) =
          ((ofConfig c size).run earlier).run later := List.foldl_append
      rw [← hrest] at hz
      exact List.inj_on_of_nodup_map hrun.callers_nodup hz hx (hzy.trans hcaller)
    rw [hsame, hrefused] at hserved
    cases hserved

/-- Two calls on one group: the second one stops waiting while the first one runs, and the body of
the first one panics. -/
def contended : List (Nat × CallStep) :=
  [(1, .made), (2, .made), (1, .take), (2, .cancel), (2, .giveUp),
    (1, .finish (.panicked "worker died")), (1, .giveBack)]

/-- The second call never holds the group, and the first one gives it back though its body panics. -/
theorem run_shares_groups_contended :
    ((ofConfig Config.default 1).run (contended.take 3)).pool.free = [] ∧
    ((ofConfig Config.default 1).run contended).call? 2 =
      some { caller := 2, canceled := true, stage := .refused } ∧
    (∀ y ∈ ((ofConfig Config.default 1).run (contended.take 3)).calls, y.caller = 2 →
      y.stage.group? = none) ∧
    ((ofConfig Config.default 1).run contended).pool.free.Perm
      (GroupPool.ofConfig Config.default 1).groups := by
  obtain ⟨hsound, hgroups, hrefused⟩ := run_shares_groups Config.default 1 contended
  have hcall : ((ofConfig Config.default 1).run contended).call? 2 =
      some { caller := 2, canceled := true, stage := .refused } := rfl
  have hends : ∀ c ∈ ((ofConfig Config.default 1).run contended).calls,
      c.stage.group? = none := by
    decide
  -- The second call is refused in the end, so it never held a group before.
  refine ⟨rfl, hcall, ?_, ?_⟩
  · exact hrefused (contended.take 3) (contended.drop 3) rfl _ (List.mem_of_find?_eq_some hcall) rfl
  · rw [← hgroups]
    exact hsound.settled hends

end Use
end GroupPool
end FaultChain
