import Mathlib
import FaultChain.Proofs.CallGraph.Partition
import FaultChain.Proofs.Paths

/-!
# The images of calls

Each call of a batch has an image whose name is made of the names of its caller and its callee with a
hyphen between them. The images are different files unless the hyphen can be read in two ways, as
in `a-b-c`.

* `Call.joined`: the names of a call with a hyphen between them.
* `RunDir.imageName`: the name of the image of a call.
* `RunDir.edgeImage_inj`: calls have the same image exactly if their joined names are the same.
* `RunDir.edgeImages_private_iff`: the main statement.
-/

namespace FaultChain

/-! ## Joined names -/

/-- Caller and callee with a hyphen between them. -/
def Call.joined (c : Call) : String := c.caller ++ "-" ++ c.callee

theorem Call.toList_joined (c : Call) : c.joined.toList = c.caller.toList ++ '-' :: c.callee.toList := by
  simp [Call.joined]

/-- Joined names are read in one way if their first hyphen is the one between them. -/
theorem Call.eq_of_no_hyphen_caller {c c' : Call} (hc : '-' ∉ c.caller.toList)
    (hc' : '-' ∉ c'.caller.toList) (h : c.joined = c'.joined) : c = c' := by
  have hchars := congrArg String.toList h
  rw [c.toList_joined, c'.toList_joined] at hchars
  -- Up to the first hyphen the joined names are the caller.
  have hcut : ∀ {front : List Char}, '-' ∉ front → ∀ back,
      (front ++ '-' :: back).takeWhile (· != '-') = front := by
    intro front hfront back
    have hfree : ∀ x ∈ front, (x != '-') = true := by
      intro x hx
      have hne : x ≠ '-' := fun heq => hfront (heq ▸ hx)
      simpa using hne
    rw [List.takeWhile_append_of_pos hfree]
    simp
  have hcaller : c.caller.toList = c'.caller.toList := by
    rw [← hcut hc c.callee.toList, hchars, hcut hc']
  rw [hcaller, List.append_cancel_left_eq, List.cons.injEq] at hchars
  cases c
  cases c'
  rw [Call.mk.injEq]
  exact ⟨String.toList_injective hcaller, String.toList_injective hchars.2⟩

/-- Joined names are read in one way if their last hyphen is the one between them. -/
theorem Call.eq_of_no_hyphen_callee {c c' : Call} (hc : '-' ∉ c.callee.toList)
    (hc' : '-' ∉ c'.callee.toList) (h : c.joined = c'.joined) : c = c' := by
  have hcut := Text.cutLast_eq c.toList_joined hc
  rw [h, Text.cutLast_eq c'.toList_joined hc'] at hcut
  cases c
  cases c'
  simpa using Option.some.inj hcut.symm

namespace RunDir

/-! ## Images -/

/-- The name of the image of a call. -/
def imageName (c : Call) : String := "prepend-" ++ c.caller ++ "-" ++ c.callee ++ ".bc"

theorem imageName_eq (c : Call) : imageName c = "prepend-" ++ c.joined ++ ".bc" := by
  simp only [imageName, Call.joined, String.append_assoc]

/-- Names without a slash make up the name of an image that stands for itself. -/
theorem isPlain_imageName {c : Call} (hcaller : '/' ∉ c.caller.toList)
    (hcallee : '/' ∉ c.callee.toList) : Path.IsPlain (imageName c) := by
  refine Path.IsName.isPlain ⟨?_, ?_⟩
  · simp [imageName, hcaller, hcallee]
  · refine ⟨?_, ?_, ?_⟩ <;> intro heq <;> simpa [imageName] using congrArg String.toList heq

theorem bitcodeDir_ne_empty (d : RunDir) : d.bitcodeDir ≠ "" :=
  Path.join_ne_empty d.root ⟨by decide, by decide⟩

/-- Calls have the same image exactly if their joined names are the same. -/
theorem edgeImage_inj (d : RunDir) {c c' : Call} (hc : Path.IsPlain (imageName c))
    (hc' : Path.IsPlain (imageName c')) :
    d.edgeImage c.caller c.callee = d.edgeImage c'.caller c'.callee ↔ c.joined = c'.joined := by
  unfold edgeImage
  rw [← imageName, ← imageName, Path.join_left_inj d.bitcodeDir_ne_empty hc hc', imageName_eq,
    imageName_eq, String.append_left_inj, String.append_right_inj]

theorem edgeImage_ne_join (d : RunDir) {c : Call} (hc : Path.IsPlain (imageName c)) {name : String}
    (hname : Path.IsPlain name) (hstart : ¬ "prepend-".toList <+: name.toList) :
    d.edgeImage c.caller c.callee ≠ Path.join [d.bitcodeDir, name] := by
  unfold edgeImage
  rw [← imageName, ne_eq, Path.join_left_inj d.bitcodeDir_ne_empty hc hname]
  rintro rfl
  exact hstart ⟨(c.joined ++ ".bc").toList, by simp [imageName_eq]⟩

/-- Whatever order is used, the computed one or one that is reported: the images of the calls of a
batch are none of those that all calls start from. They are different files exactly if no two calls of
the batch have the same joined names, which holds if no caller, or no callee, has a hyphen in its
name. -/
theorem edgeImages_private_iff (d : RunDir) (info : List (String × NodeInfo))
    (reported : List (List String)) (removeMain : Bool) {batch : List Call}
    (hbatch : batch ∈ ((CallGraph.ofInfo info).withReported reported).batches removeMain)
    (hplain : ∀ c ∈ batch, Path.IsPlain (imageName c)) :
    (∀ c ∈ batch, d.edgeImage c.caller c.callee ≠ d.program ∧
      d.edgeImage c.caller c.callee ≠ d.symMains) ∧
    ((batch.map fun c => d.edgeImage c.caller c.callee).Nodup ↔
      ∀ c ∈ batch, ∀ c' ∈ batch, c.joined = c'.joined → c = c') ∧
    ((∀ c ∈ batch, '-' ∉ c.caller.toList) ∨ (∀ c ∈ batch, '-' ∉ c.callee.toList) →
      (batch.map fun c => d.edgeImage c.caller c.callee).Nodup) := by
  -- No call occurs twice in a batch, so only different calls can share an image.
  have hnodup : batch.Nodup :=
    (List.nodup_flatten.mp
      ((CallGraph.batches_partitioned info removeMain).2 reported).once).1 batch hbatch
  have hiff : (batch.map fun c => d.edgeImage c.caller c.callee).Nodup ↔
      ∀ c ∈ batch, ∀ c' ∈ batch, c.joined = c'.joined → c = c' := by
    rw [List.nodup_map_iff_inj_on hnodup]
    refine forall₂_congr fun c hc => forall₂_congr fun c' hc' => ?_
    rw [d.edgeImage_inj (hplain c hc) (hplain c' hc')]
  refine ⟨fun c hc => ?_, hiff, fun hhyphen => hiff.mpr fun c hc c' hc' heq => ?_⟩
  · exact ⟨d.edgeImage_ne_join (hplain c hc) (by decide) (by decide),
      d.edgeImage_ne_join (hplain c hc) (by decide) (by decide)⟩
  · rcases hhyphen with hcallers | hcallees
    · exact Call.eq_of_no_hyphen_caller (hcallers c hc) (hcallers c' hc') heq
    · exact Call.eq_of_no_hyphen_callee (hcallees c hc) (hcallees c' hc') heq

/-- A name with dots between slashes can lead to an image that is in use. -/
example : edgeImage ⟨"runs", "runs/1"⟩ "a" "c/../program" = program ⟨"runs", "runs/1"⟩ := by decide

/-- Two calls of different functions whose joined names are the same. -/
def hyphenedInfo : List (String × NodeInfo) :=
  [("a", { calls := ["b-c"] }), ("a-b", { calls := ["c"] }), ("b-c", {}), ("c", {})]

/-- Both calls are in one batch and share their image. -/
theorem edgeImages_private_iff_hyphened :
    let batch : List Call := [⟨"a", "b-c"⟩, ⟨"a-b", "c"⟩]
    let d : RunDir := { parent := "runs", root := "runs/1" }
    batch ∈ ((CallGraph.ofInfo hyphenedInfo).withReported []).batches false ∧
      (∀ c ∈ batch, Path.IsPlain (imageName c)) ∧
      (∀ c ∈ batch, d.edgeImage c.caller c.callee ≠ d.program) ∧
      ¬ (batch.map fun c => d.edgeImage c.caller c.callee).Nodup := by
  intro batch d
  have hbatches : ((CallGraph.ofInfo hyphenedInfo).withReported []).batches false = [batch] := by
    cbv
  have hbatch : batch ∈ ((CallGraph.ofInfo hyphenedInfo).withReported []).batches false := by
    rw [hbatches]
    exact List.mem_singleton_self batch
  have hslash : ∀ c ∈ batch, '/' ∉ c.caller.toList ∧ '/' ∉ c.callee.toList := by decide
  have hplain : ∀ c ∈ batch, Path.IsPlain (imageName c) :=
    fun c hc => isPlain_imageName (hslash c hc).1 (hslash c hc).2
  obtain ⟨hapart, hiff, -⟩ := edgeImages_private_iff d hyphenedInfo [] false hbatch hplain
  refine ⟨hbatch, hplain, fun c hc => (hapart c hc).1, fun hnodup => ?_⟩
  have heq := hiff.mp hnodup ⟨"a", "b-c"⟩ (by simp [batch]) ⟨"a-b", "c"⟩ (by simp [batch]) (by decide)
  exact absurd heq (by decide)

end RunDir
end FaultChain
