import Mathlib.Data.List.Forall2
import Mathlib.Data.List.Nodup
import Mathlib.Data.List.Perm.Subperm

/-!
# Lists and tables

Facts about lists that several parts of the theory share.

* `lookup_cons_of_ne`, `lookup_map_key`: looking up a key in a table.
* `find?_key_eq_some_iff`, `map_replace_of_nodup`: finding and replacing an element by a key that no
  other element has.
* `nodup_eraseDups`: lists without what occurs twice.
* `pairwise_mergeSort_le`, `pairwise_lt_mergeSort`, `mergeSort_eraseDups_congr`: sorted lists.
* `exists_of_mem_forall₂`, `exists_getElem?_of_forall₂`, `forall₂_set`, `forall₂_mem`: lists that
  correspond.
-/

namespace FaultChain

variable {α β κ : Type} [BEq κ] [LawfulBEq κ]

/-! ## Tables -/

theorem lookup_cons_of_ne {k k' : κ} (h : k ≠ k') (b : β) (table : List (κ × β)) :
    ((k', b) :: table).lookup k = table.lookup k := by
  have hb : (k == k') = false := beq_false_of_ne h
  simp [List.lookup_cons, hb]

/-- A table with one row for each element finds the row of the first element with the key. -/
theorem lookup_map_key (key : α → κ) (f : α → β) (xs : List α) (k : κ) :
    (xs.map fun x => (key x, f x)).lookup k = (xs.find? fun x => key x == k).map f := by
  induction xs with
  | nil => rfl
  | cons x xs ih =>
    by_cases h : key x = k
    · simp [h]
    · simp [lookup_cons_of_ne (Ne.symm h), h, ih]

theorem find?_key_eq_some_iff {key : α → κ} {xs : List α} (h : (xs.map key).Nodup) {k : κ}
    {x : α} : (xs.find? fun y => key y == k) = some x ↔ x ∈ xs ∧ key x = k := by
  constructor
  · intro hfind
    exact ⟨List.mem_of_find?_eq_some hfind, by simpa using List.find?_some hfind⟩
  · rintro ⟨hmem, rfl⟩
    cases hfind : xs.find? fun y => key y == key x with
    | none =>
      have hnot := List.find?_eq_none.mp hfind x hmem
      simp at hnot
    | some y =>
      -- Whatever is found has the key of `x`, so it is `x`.
      have hmem' := List.mem_of_find?_eq_some hfind
      have hkey : key y = key x := by simpa using List.find?_some hfind
      rw [List.inj_on_of_nodup_map h hmem' hmem hkey]

/-- Where keys are different, replacing what has a key changes one place. -/
theorem map_replace_of_nodup {γ : Type} [DecidableEq γ] {key : α → γ} {before after : List α}
    {a : α} (h : ((before ++ a :: after).map key).Nodup) (b : α) :
    ((before ++ a :: after).map fun c => if key c = key a then b else c) = before ++ b :: after := by
  rw [List.map_append, List.map_cons, List.nodup_append] at h
  obtain ⟨-, hafter, hcross⟩ := h
  have hbefore : ∀ c ∈ before, key c ≠ key a := fun c hc =>
    hcross (key c) (List.mem_map_of_mem hc) (key a) List.mem_cons_self
  have hrest : ∀ c ∈ after, key c ≠ key a := by
    intro c hc heq
    exact (List.nodup_cons.mp hafter).1 (heq ▸ List.mem_map_of_mem hc)
  have hkeep : ∀ cs : List α, (∀ c ∈ cs, key c ≠ key a) →
      (cs.map fun c => if key c = key a then b else c) = cs := by
    intro cs hcs
    exact (List.map_congr_left fun c hc => if_neg (hcs c hc)).trans (List.map_id cs)
  rw [List.map_append, List.map_cons, if_pos rfl, hkeep before hbefore, hkeep after hrest]

/-! ## Lists -/

theorem nodup_eraseDups (ks : List κ) : ks.eraseDups.Nodup := by
  -- Each step leaves out all further occurrences of the first element, so the list gets shorter.
  induction hn : ks.length using Nat.strongRecOn generalizing ks with
  | ind n ih =>
    cases ks with
    | nil => simp
    | cons k rest =>
      have hlen : (rest.filter fun y => !y == k).length < n := by
        have hle := List.length_filter_le (fun y => !y == k) rest
        rw [List.length_cons] at hn
        omega
      rw [List.eraseDups_cons, List.nodup_cons, List.mem_eraseDups]
      exact ⟨by simp, ih _ hlen _ rfl⟩

theorem exists_of_mem_forall₂ {R : α → β → Prop} {as : List α} {bs : List β}
    (h : List.Forall₂ R as bs) {b : β} (hb : b ∈ bs) : ∃ a ∈ as, R a b := by
  induction h with
  | nil => cases hb
  | @cons a _ _ _ hfirst _ ih =>
    rcases List.mem_cons.mp hb with rfl | hb
    · exact ⟨a, List.mem_cons_self, hfirst⟩
    · rcases ih hb with ⟨a', ha', hR⟩
      exact ⟨a', List.mem_cons_of_mem _ ha', hR⟩

theorem exists_getElem?_of_forall₂ {R : α → β → Prop} {xs : List α} {ys : List β}
    (h : List.Forall₂ R xs ys) {i : Nat} {a : α} (ha : xs[i]? = some a) :
    ∃ b, ys[i]? = some b ∧ R a b := by
  induction h generalizing i with
  | nil => cases ha
  | cons hab hrest ih =>
    cases i with
    | zero =>
      cases ha
      exact ⟨_, rfl, hab⟩
    | succ i => exact ih ha

theorem set_of_getElem? {xs : List α} {i : Nat} {a : α} (ha : xs[i]? = some a) :
    xs.set i a = xs := by
  rcases List.getElem?_eq_some_iff.mp ha with ⟨hlt, rfl⟩
  exact List.set_getElem_self hlt

theorem forall₂_set {R : α → β → Prop} {xs : List α} {ys : List β}
    (h : List.Forall₂ R xs ys) (i : Nat) {a : α} {b : β} (hab : R a b) :
    List.Forall₂ R (xs.set i a) (ys.set i b) := by
  induction h generalizing i with
  | nil => exact .nil
  | cons hcd hrest ih =>
    cases i with
    | zero => exact .cons hab hrest
    | succ i => exact .cons hcd (ih i)

theorem forall₂_mem {R : α → β → Prop} {xs : List α} {ys : List β}
    (h : List.Forall₂ R xs ys) : List.Forall₂ (fun a b => R a b ∧ a ∈ xs ∧ b ∈ ys) xs ys := by
  induction h with
  | nil => exact .nil
  | cons hab _ ih =>
    refine .cons ⟨hab, List.mem_cons_self, List.mem_cons_self⟩ (ih.imp ?_)
    rintro a b ⟨hab', ha, hb⟩
    exact ⟨hab', List.mem_cons_of_mem _ ha, List.mem_cons_of_mem _ hb⟩

theorem getElem?_of_prefix {xs ys : List α} (h : xs <+: ys) {k : Nat} {a : α}
    (ha : xs[k]? = some a) : ys[k]? = some a := by
  rcases h with ⟨rest, rfl⟩
  rw [List.getElem?_append_left (List.getElem?_eq_some_iff.mp ha).1]
  exact ha

/-! ## Sorted lists -/

section

variable [LE α] [DecidableLE α] [Std.IsLinearOrder α]

theorem pairwise_mergeSort_le (xs : List α) : (xs.mergeSort (· ≤ ·)).Pairwise (· ≤ ·) := by
  have hsorted : (xs.mergeSort (· ≤ ·)).Pairwise fun a b => decide (a ≤ b) = true := by
    refine List.pairwise_mergeSort ?_ ?_ _
    · simpa using fun a b c => Std.le_trans
    · simpa using fun a b => Std.le_total
  simpa using hsorted

theorem pairwise_lt_mergeSort [LT α] [Std.LawfulOrderLT α] {xs : List α} (h : xs.Nodup) :
    (xs.mergeSort (· ≤ ·)).Pairwise (· < ·) := by
  have hnodup : (xs.mergeSort (· ≤ ·)).Nodup := (List.mergeSort_perm _ _).nodup_iff.mpr h
  exact ((pairwise_mergeSort_le xs).and hnodup).imp fun ⟨hle, hne⟩ => Std.lt_of_le_of_ne hle hne

/-- Sorted lists without what occurs twice are known from their elements. -/
theorem mergeSort_eraseDups_congr [BEq α] [LawfulBEq α] {xs ys : List α}
    (h : ∀ x, x ∈ xs ↔ x ∈ ys) :
    xs.eraseDups.mergeSort (· ≤ ·) = ys.eraseDups.mergeSort (· ≤ ·) := by
  refine List.Perm.eq_of_pairwise (fun _ _ _ _ => Std.le_antisymm) (pairwise_mergeSort_le _)
    (pairwise_mergeSort_le _) ?_
  have hperm : xs.eraseDups.Perm ys.eraseDups := by
    refine (List.perm_ext_iff_of_nodup (nodup_eraseDups xs) (nodup_eraseDups ys)).mpr fun x => ?_
    rw [List.mem_eraseDups, List.mem_eraseDups, h x]
  exact ((List.mergeSort_perm _ _).trans hperm).trans (List.mergeSort_perm _ _).symm

end

end FaultChain
