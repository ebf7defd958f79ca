import FaultChain.Backend.OutputDir
import FaultChain.Proofs.Paths

/-!
# Tidy files

A directory lists its entries in order, each name once, and a name stands for itself in a path. All
operations on files keep them like that.

* `Entry.Tidy`, `FileTree.Tidy`: files that are in order.
* `FileTree.tidy_walk`: wherever a path leads is tidy.
* `OutputDir.listed_errorFiles`: the reports in a directory are different files directly in it.
-/

namespace FaultChain

/-! ## Entries -/

namespace Entry

/-- Every directory lists names in order, each of which stands for itself in a path. -/
inductive Tidy : Entry → Prop where
  | file (text : String) (runnable : Bool) : Tidy (.file text runnable)
  | link (target : String) : Tidy (.link target)
  | dir {cs : List (String × Entry)} (ordered : (cs.map (·.1)).Pairwise (· < ·))
      (names : ∀ c ∈ cs, Path.IsName c.1) (below : ∀ c ∈ cs, Tidy c.2) : Tidy (.dir cs)

theorem tidy_dir_iff {cs : List (String × Entry)} : Tidy (.dir cs) ↔
    (cs.map (·.1)).Pairwise (· < ·) ∧ ∀ c ∈ cs, Path.IsName c.1 ∧ c.2.Tidy := by
  constructor
  · intro h
    cases h with
    | dir ordered names below => exact ⟨ordered, fun c hc => ⟨names c hc, below c hc⟩⟩
  · rintro ⟨hordered, hall⟩
    exact .dir hordered (fun c hc => (hall c hc).1) fun c hc => (hall c hc).2

theorem Tidy.nodup {cs : List (String × Entry)} (h : Tidy (.dir cs)) : (cs.map (·.1)).Nodup := by
  cases h with
  | dir ordered _ _ =>
    refine ordered.imp ?_
    rintro n _ hlt rfl
    exact String.lt_irrefl n hlt

theorem mem_of_lookup {cs : List (String × Entry)} {name : String} {e : Entry}
    (h : cs.lookup name = some e) : (name, e) ∈ cs := by
  induction cs with
  | nil => cases h
  | cons c cs ih =>
    rcases c with ⟨n, e'⟩
    by_cases hn : name = n
    · subst hn
      rw [List.lookup_cons_self] at h
      cases h
      exact List.mem_cons_self
    · rw [lookup_cons_of_ne hn] at h
      exact List.mem_cons_of_mem _ (ih h)

theorem Tidy.lookup {cs : List (String × Entry)} (h : Tidy (.dir cs)) {name : String} {e : Entry}
    (hat : cs.lookup name = some e) : e.Tidy := by
  cases h with
  | dir _ _ below => exact below _ (mem_of_lookup hat)

theorem mem_put {name : String} {new : Entry} {cs : List (String × Entry)} {c : String × Entry}
    (h : c ∈ put name new cs) : c = (name, new) ∨ c ∈ cs := by
  induction cs with
  | nil => exact Or.inl (List.mem_singleton.mp h)
  | cons d cs ih =>
    rcases d with ⟨n, e⟩
    unfold put at h
    split at h
    · rename_i hname
      -- Replaced in its place.
      rcases List.mem_cons.mp h with rfl | h
      · exact Or.inl (by rw [eq_of_beq hname])
      · exact Or.inr (List.mem_cons_of_mem _ h)
    · split at h
      · exact List.mem_cons.mp h
      · rcases List.mem_cons.mp h with rfl | h
        · exact Or.inr List.mem_cons_self
        · exact (ih h).imp id (List.mem_cons_of_mem _)

theorem ordered_put (name : String) (new : Entry) {cs : List (String × Entry)}
    (h : (cs.map (·.1)).Pairwise (· < ·)) : ((put name new cs).map (·.1)).Pairwise (· < ·) := by
  induction cs with
  | nil => exact List.pairwise_singleton _ _
  | cons d cs ih =>
    rcases d with ⟨n, e⟩
    rcases List.pairwise_cons.mp h with ⟨hfirst, hrest⟩
    unfold put
    split
    · exact h
    · rename_i hne
      split
      · rename_i hlt
        refine List.pairwise_cons.mpr ⟨?_, h⟩
        intro m hm
        rcases List.mem_cons.mp hm with rfl | hm
        · exact hlt
        · exact String.lt_trans hlt (hfirst m hm)
      · -- The name comes later, so the first one stays in front.
        rename_i hle
        have hlt : n < name := by
          refine Decidable.byContradiction fun hnot => hne (beq_iff_eq.mpr ?_)
          exact String.le_antisymm (String.not_lt.mp hnot) (String.not_lt.mp hle)
        refine List.pairwise_cons.mpr ⟨?_, ih hrest⟩
        intro m hm
        rcases List.mem_map.mp hm with ⟨c, hc, rfl⟩
        rcases mem_put hc with rfl | hc
        · exact hlt
        · exact hfirst _ (List.mem_map_of_mem hc)

theorem Tidy.put {name : String} {new : Entry} {cs : List (String × Entry)}
    (h : Tidy (.dir cs)) (hname : Path.IsName name) (hnew : new.Tidy) :
    Tidy (.dir (put name new cs)) := by
  cases h with
  | dir ordered names below =>
    refine .dir (ordered_put name new ordered) ?_ ?_
    · intro c hc
      rcases mem_put hc with rfl | hc
      · exact hname
      · exact names c hc
    · intro c hc
      rcases mem_put hc with rfl | hc
      · exact hnew
      · exact below c hc

theorem Tidy.insert {new : Entry} (hnew : new.Tidy) {place : List String}
    (hplace : ∀ n ∈ place, Path.IsName n) {e : Entry} (h : e.Tidy) :
    (insert new place e).Tidy := by
  induction place generalizing e with
  | nil => exact hnew
  | cons name rest ih =>
    have hname := hplace name List.mem_cons_self
    have hrest : ∀ n ∈ rest, Path.IsName n := fun n hn => hplace n (List.mem_cons_of_mem _ hn)
    cases e with
    | file => cases rest <;> exact h
    | link => cases rest <;> exact h
    | dir cs =>
      cases rest with
      | nil => exact h.put hname hnew
      | cons m rest =>
        unfold Entry.insert
        split
        · rename_i child hchild
          -- The directory on the way is put back with the change made below it.
          exact h.put hname (ih hrest (h.lookup hchild))
        · exact h

theorem Tidy.erase {place : List String} (hplace : ∀ n ∈ place, Path.IsName n) {e : Entry}
    (h : e.Tidy) : (erase place e).Tidy := by
  induction place generalizing e with
  | nil => exact h
  | cons name rest ih =>
    have hname := hplace name List.mem_cons_self
    have hrest : ∀ n ∈ rest, Path.IsName n := fun n hn => hplace n (List.mem_cons_of_mem _ hn)
    cases e with
    | file => cases rest <;> exact h
    | link => cases rest <;> exact h
    | dir cs =>
      cases rest with
      | nil =>
        cases h with
        | dir ordered names below =>
          refine .dir ?_ ?_ ?_
          -- What is left of a directory is still in order and tidy below.
          · exact ordered.sublist (List.filter_sublist.map _)
          · exact fun c hc => names c (List.mem_filter.mp hc).1
          · exact fun c hc => below c (List.mem_filter.mp hc).1
      | cons m rest =>
        unfold Entry.erase
        split
        · rename_i child hchild
          exact h.put hname (ih hrest (h.lookup hchild))
        · exact h

theorem Tidy.at? {e e' : Entry} (h : e.Tidy) {place : List String} (hat : e.at? place = some e') :
    e'.Tidy := by
  induction place generalizing e with
  | nil =>
    cases hat
    exact h
  | cons name rest ih =>
    cases e with
    | file => cases hat
    | link => cases hat
    | dir cs =>
      rw [at?_dir_cons] at hat
      rcases Option.bind_eq_some_iff.mp hat with ⟨child, hchild, hrest⟩
      exact ih (h.lookup hchild) hrest

end Entry

/-! ## Trees -/

/-- A place that is reached by a path of names, where nothing untidy is. -/
structure Spot.Tidy (spot : Spot) : Prop where
  names : ∀ n ∈ spot.path, Path.IsName n
  entry : ∀ e, spot.entry = some e → e.Tidy

namespace FileTree

/-- All directories are tidy, and the working directory has a path of names. -/
structure Tidy (t : FileTree) : Prop where
  root : t.root.Tidy
  cwd : ∀ n ∈ t.cwd, Path.IsName n

variable {t t' : FileTree}

/-- Wherever a walk leads is tidy, if this goes for what follows a link. -/
theorem tidy_walkTo {root : Entry} (hroot : root.Tidy) {follow : Bool}
    {jump : List String → List String → Except Refusal Spot}
    (hjump : ∀ done rest spot, (∀ n ∈ done, Path.IsName n) → (∀ n ∈ rest, '/' ∉ n.toList) →
      jump done rest = .ok spot → spot.Tidy)
    {names done : List String} {spot : Spot} (hdone : ∀ n ∈ done, Path.IsName n)
    (hnames : ∀ n ∈ names, '/' ∉ n.toList) (h : walkTo root follow jump done names = .ok spot) :
    spot.Tidy := by
  induction names generalizing done with
  | nil =>
    cases h
    exact ⟨hdone, fun e he => hroot.at? he⟩
  | cons name rest ih =>
    have hrest : ∀ n ∈ rest, '/' ∉ n.toList := fun n hn => hnames n (List.mem_cons_of_mem _ hn)
    unfold walkTo at h
    split at h
    · exact ih hdone hrest h
    · rename_i hhere
      split at h
      · exact ih (fun n hn => hdone n ((List.dropLast_prefix done).subset hn)) hrest h
      · rename_i hup
        -- The name is neither empty nor made of dots, so it goes on a path.
        have hname : Path.IsName name := by
          refine ⟨hnames name List.mem_cons_self, ?_, ?_, ?_⟩
          · rintro rfl
            exact hhere rfl
          · rintro rfl
            exact hhere rfl
          · rintro rfl
            exact hup rfl
        have hdeeper : ∀ n ∈ done ++ [name], Path.IsName n := by
          intro n hn
          rcases List.mem_append.mp hn with hn | hn
          · exact hdone n hn
          · exact List.mem_singleton.mp hn ▸ hname
        split at h
        · cases h
        · split at h
          · split at h
            · cases h
              exact ⟨hdeeper, nofun⟩
            · cases h
          · exact ih hdeeper hrest h
          · split at h
            · cases h
              exact ⟨hdeeper, fun _ he => by cases he; exact .file _ _⟩
            · cases h
          · split at h
            · cases h
              exact ⟨hdeeper, fun _ he => by cases he; exact .link _⟩
            · refine hjump _ _ _ ?_ ?_ h
              · intro n hn
                split at hn
                · cases hn
                · exact hdone n hn
              · intro n hn
                rcases List.mem_append.mp hn with hn | hn
                · exact Path.no_slash_of_mem_components hn
                · exact hrest n hn

theorem tidy_walk {root : Entry} (hroot : root.Tidy) {follow : Bool} (links : Nat)
    {names done : List String} {spot : Spot} (hdone : ∀ n ∈ done, Path.IsName n)
    (hnames : ∀ n ∈ names, '/' ∉ n.toList) (h : walk root follow links done names = .ok spot) :
    spot.Tidy := by
  induction links generalizing names done spot with
  | zero => exact tidy_walkTo hroot (fun _ _ _ _ _ hstop => by cases hstop) hdone hnames h
  | succ links ih =>
    refine tidy_walkTo hroot ?_ hdone hnames h
    intro done' rest spot' hdone' hrest hjump
    exact ih hdone' hrest hjump

namespace Tidy

variable {path text : String}

theorem locate (ht : t.Tidy) {follow : Bool} {spot : Spot}
    (h : t.locate follow path = .ok spot) : spot.Tidy := by
  unfold FileTree.locate at h
  split at h
  · cases h
  · split at h
    · cases h
    · split at h
      · cases h
      · refine tidy_walk ht.root maxLinks ?_ (fun n hn => Path.no_slash_of_mem_components hn) h
        intro n hn
        split at hn
        · cases hn
        · exact ht.cwd n hn

theorem entry? (ht : t.Tidy) {e : Entry} (h : t.entry? path = .ok e) : e.Tidy := by
  unfold FileTree.entry? at h
  split at h
  · cases h
  · rename_i spot hlocate
    cases h
    exact (ht.locate hlocate).entry e rfl
  · cases h

theorem store (ht : t.Tidy) {spot : Spot} (hspot : spot.Tidy) {e : Entry} (he : e.Tidy) :
    (t.store spot e).Tidy :=
  ⟨.insert he hspot.names ht.root, ht.cwd⟩

/-- What is done as far as possible. -/
theorem getD (ht : t.Tidy) {out : Except Failure FileTree} (h : ∀ t', out = .ok t' → t'.Tidy) :
    (out.toOption.getD t).Tidy := by
  cases out with
  | error f => exact ht
  | ok t' => exact h t' rfl

/-- The files that something leaves, together with what it gives. -/
theorem of_eq {α : Type} {out : α × FileTree} {a : α} (hout : out.2.Tidy) (heq : out = (a, t')) :
    t'.Tidy := by
  rw [heq] at hout
  exact hout

/-! ### Operations -/

theorem writeAs (ht : t.Tidy) {runnable : Bool} (h : t.writeAs path text runnable = .ok t') :
    t'.Tidy := by
  unfold FileTree.writeAs at h
  split at h
  · cases h
  · rename_i spot hspot
    have hthere := ht.locate hspot
    split at h
    · cases h
    · cases h
      exact ht.store hthere (.file _ _)
    · cases h
      exact ht.store hthere (.file _ _)

theorem write (ht : t.Tidy) (h : t.write path text = .ok t') : t'.Tidy := ht.writeAs h

theorem makeDir (ht : t.Tidy) (h : t.makeDir path = .ok t') : t'.Tidy := by
  unfold FileTree.makeDir at h
  split at h
  · cases h
  · rename_i spot hspot
    split at h
    · cases h
    · cases h
      exact ht.store (ht.locate hspot) (.dir .nil nofun nofun)

/-- The last one of several directories is made, or it is there. -/
theorem makeLastDir (ht : t.Tidy)
    (h : (match t.makeDir path with
      | .ok t => .ok t
      | .error f =>
        match t.linkEntry? path with
        | .ok (.dir _) => .ok t
        | _ => .error f : Except Failure FileTree) = .ok t') : t'.Tidy := by
  split at h
  · rename_i t₂ hmade
    cases h
    exact ht.makeDir hmade
  · split at h
    · cases h
      exact ht
    · cases h

theorem makeDirsFuel {fuel : Nat} (ht : t.Tidy) (h : t.makeDirsFuel path fuel = .ok t') :
    t'.Tidy := by
  induction fuel generalizing path t' with
  | zero => cases h
  | succ fuel ih =>
    unfold FileTree.makeDirsFuel at h
    split at h
    · cases h
      exact ht
    · cases h
    · -- The directory above is made first, or there is none.
      dsimp only at h
      split at h
      · exact ht.makeLastDir h
      · cases habove : t.makeDirsFuel (parentOf path) fuel with
        | error f =>
          rw [habove] at h
          cases h
        | ok t₁ =>
          rw [habove] at h
          exact makeLastDir (ih habove) h

theorem makeDirs (ht : t.Tidy) (h : t.makeDirs path = .ok t') : t'.Tidy := ht.makeDirsFuel h

theorem remove (ht : t.Tidy) (h : t.remove path = .ok t') : t'.Tidy := by
  unfold FileTree.remove at h
  split at h
  · cases h
  · rename_i spot hspot
    have herased : FileTree.Tidy { t with root := Entry.erase spot.path t.root } :=
      ⟨.erase (ht.locate hspot).names ht.root, ht.cwd⟩
    split at h
    · cases h
    · cases h
    · cases h
      exact herased

theorem link (ht : t.Tidy) {target : String} (h : t.link target path = .ok t') : t'.Tidy := by
  unfold FileTree.link at h
  split at h
  · cases h
  · rename_i spot hspot
    split at h
    · cases h
    · cases h
      exact ht.store (ht.locate hspot) (.link target)

theorem rename (ht : t.Tidy) {new : String} (h : t.rename path new = .ok t') : t'.Tidy := by
  unfold FileTree.rename at h
  dsimp only at h
  split at h
  · cases h
  · cases h
  · rename_i source dest hsource hdest
    split at h
    · cases h
    · cases h
    · rename_i e he _
      cases h
      have hfrom := ht.locate hsource
      exact ⟨.insert (hfrom.entry e he) (ht.locate hdest).names (.erase hfrom.names ht.root),
        ht.cwd⟩

/-- Files to begin with. -/
protected theorem empty : FileTree.empty.Tidy where
  root := by
    simp only [FileTree.empty, Entry.tidy_dir_iff, Path.isName_iff, List.forall_mem_cons,
      List.not_mem_nil, false_implies, implies_true]
    and_intros <;> decide
  cwd := List.forall_mem_singleton.mpr (Path.isName_iff.mpr (by decide))

theorem plant (ht : t.Tidy) (path text : String) (runnable : Bool) :
    (t.plant path text runnable).Tidy := by
  unfold FileTree.plant
  have hmade : FileTree.Tidy (if parentOf path == "" then t
      else (t.makeDirs (parentOf path)).toOption.getD t) := by
    split
    · exact ht
    · exact ht.getD fun _ h => ht.makeDirs h
  exact hmade.getD fun _ h => hmade.writeAs h

end Tidy
end FileTree

/-! ## Run directories -/

namespace RunDir

variable {t : FileTree}

theorem tidy_makeFirst {parent stamp root : String} {n tries : Nat} {t' : FileTree}
    (ht : t.Tidy) (h : makeFirst t parent stamp n tries = .ok (root, t')) : t'.Tidy := by
  induction tries generalizing n with
  | zero => cases h
  | succ tries ih =>
    unfold makeFirst at h
    dsimp only at h
    split at h
    · rename_i t₁ hmade
      cases h
      exact ht.makeDir hmade
    · exact ih h
    · cases h

theorem tidy_makeAll (ht : t.Tidy) (dirs : List String) : (makeAll dirs t).2.Tidy := by
  induction dirs generalizing t with
  | nil => exact ht
  | cons dir dirs ih =>
    unfold makeAll
    split
    · exact ht
    · rename_i t₁ hmade
      exact ih (ht.makeDirs hmade)

theorem tidy_create (ht : t.Tidy) (parent : String) (now : Int) :
    (create parent now t).2.Tidy := by
  unfold create
  split
  · exact ht
  · rename_i t₁ hparent
    have ht₁ := ht.makeDirs hparent
    dsimp only
    split
    · exact ht₁
    · rename_i root t₂ hfirst
      have ht₂ := tidy_makeFirst ht₁ hfirst
      let d : RunDir := { parent := parent, root := root }
      -- Its three directories may fail to be made, which leaves tidy files as well.
      have hall := tidy_makeAll ht₂ [d.bitcodeDir, d.symbolicDir, d.fuzzDir]
      split
      · rename_i f t₃ heq
        exact hall.of_eq heq
      · rename_i u t₃ heq
        exact hall.of_eq heq

theorem tidy_replaceFile (ht : t.Tidy) (path text : String) : (replaceFile path text t).2.Tidy := by
  unfold replaceFile
  dsimp only
  split
  · exact ht
  · rename_i t₁ hwritten
    have ht₁ := ht.write hwritten
    split
    · exact ht₁
    · rename_i t₂ hrenamed
      exact ht₁.rename hrenamed

theorem tidy_copyFile (ht : t.Tidy) (source dest : String) : (copyFile source dest t).2.Tidy := by
  unfold copyFile
  split
  · exact ht
  · split
    · exact ht
    · rename_i t₁ hwritten
      have ht₁ := ht.write hwritten
      split
      · exact ht₁
      · exact ht₁

/-- A link that may be there is removed. -/
theorem tidy_removeLink (ht : t.Tidy) {link : String}
    (hout : (match t.remove link with
      | .ok files => .ok files
      | .error f =>
        if f.isMissing then .ok t else .error (.within ("failed to remove " ++ link) f) :
      Except Failure FileTree) = .ok t') : t'.Tidy := by
  split at hout
  · rename_i t₁ hremove
    cases hout
    exact ht.remove hremove
  · split at hout
    · cases hout
      exact ht
    · cases hout

theorem tidy_linkLast (ht : t.Tidy) (d : RunDir) : (d.linkLast t).2.Tidy := by
  unfold linkLast
  dsimp only
  split
  · exact ht
  · rename_i t₁ heq
    have ht₁ : t₁.Tidy := tidy_removeLink ht heq
    split
    · exact ht₁
    · rename_i t₂ hlinked
      exact ht₁.link hlinked

end RunDir

theorem RunIndex.tidy_store {t : FileTree} (ht : t.Tidy) (x : RunIndex) (d : RunDir) :
    (x.store d t).2.Tidy :=
  RunDir.tidy_replaceFile ht _ _

/-! ## Output directories -/

/-- A path that leads directly into a directory. -/
def Path.Inside (dir p : String) : Prop := ∃ name, Path.IsName name ∧ p = Path.join [dir, name]

namespace OutputDir

variable {t : FileTree}

theorem tidy_ensure (ht : t.Tidy) (dir : String) : (ensure t dir).Tidy :=
  ht.getD fun _ h => ht.makeDirs h

theorem tidy_keepOutput (ht : t.Tidy) (dir output : String) : (keepOutput t dir output).Tidy :=
  ht.getD fun _ h => ht.write h

/-- The reports in a directory are different files directly in it. -/
theorem listed_errorFiles (ht : t.Tidy) {dir : String} {reports : List String}
    (h : errorFiles t dir = .ok reports) :
    reports.Nodup ∧ ∀ p ∈ reports, Path.Inside dir p := by
  unfold errorFiles at h
  cases hlist : t.list dir with
  | error f =>
    rw [hlist] at h
    cases h
  | ok cs =>
    have hdir : (Entry.dir cs).Tidy := by
      unfold FileTree.list at hlist
      split at hlist
      · cases hlist
      · rename_i cs' hentry
        cases hlist
        exact ht.entry? hentry
      · cases hlist
    rw [hlist] at h
    cases h
    have hnames : ∀ c ∈ cs, Path.IsName c.1 := by
      cases hdir with
      | dir _ names _ => exact names
    constructor
    · rw [(List.mergeSort_perm _ _).nodup_iff]
      apply List.Nodup.map_on
      · -- Different names make different paths.
        intro n hn m hm heq
        rcases List.mem_map.mp hn with ⟨c, hc, rfl⟩
        rcases List.mem_map.mp hm with ⟨c', hc', rfl⟩
        have hpaths := congrArg Path.names heq
        rw [Path.names_join dir (hnames c (List.mem_filter.mp hc).1),
          Path.names_join dir (hnames c' (List.mem_filter.mp hc').1)] at hpaths
        exact List.singleton_injective (List.append_cancel_left hpaths)
      · exact hdir.nodup.sublist (List.filter_sublist.map _)
    · intro p hp
      rcases List.mem_map.mp (List.mem_mergeSort.mp hp) with ⟨n, hn, rfl⟩
      rcases List.mem_map.mp hn with ⟨c, hc, rfl⟩
      exact ⟨c.1, hnames c (List.mem_filter.mp hc).1, rfl⟩

end OutputDir
end FaultChain
