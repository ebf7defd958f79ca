import Mathlib.Data.List.TakeWhile
import FaultChain.Proofs.Files
import FaultChain.Proofs.Text.Decimals

/-!
# Names in directories

Where a name in a directory leads to, and how the directory of a path is changed.

* `Path.IsName`: a name that stands for itself.
* `Path.names_join`, `Path.join_join`: a name in a directory, and one in a directory below.
* `Path.join_left_inj`: different plain paths lead to different places in a directory.
* `Path.base_slash`: the name behind the last slash is the last component.
* `Path.relocate`: a path with another directory in front of its name.
* `RunIndex.eq_of_place_prefix`: no path leads into two output directories.
* `RunIndex.Numbered`: an index that was filled by reservations.
-/

namespace FaultChain

namespace Path

/-- A name that stands for itself in a path. -/
structure IsName (name : String) : Prop where
  no_slash : '/' ∉ name.toList
  plain : name ≠ "" ∧ name ≠ "." ∧ name ≠ ".."

theorem isName_iff {name : String} :
    IsName name ↔ '/' ∉ name.toList ∧ name ≠ "" ∧ name ≠ "." ∧ name ≠ ".." :=
  ⟨fun h => ⟨h.no_slash, h.plain⟩, fun h => ⟨h.1, h.2⟩⟩

theorem IsName.components {name : String} (h : IsName name) : components name = [name] := by
  simp [Path.components, List.splitOn_eq_singleton h.no_slash]

/-! ## Clean paths -/

/-- Components that cleaning leaves as they are, the last one first. -/
structure Settled (rooted : Bool) (done : List String) : Prop where
  named : ∀ c ∈ done, c ≠ "" ∧ c ≠ "." ∧ '/' ∉ c.toList
  again : done.reverse.foldl (push rooted) [] = done

theorem Settled.nil (rooted : Bool) : Settled rooted [] := ⟨by simp, rfl⟩

theorem Settled.cons {rooted : Bool} {done : List String} {c : String} (h : Settled rooted done)
    (hnamed : c ≠ "" ∧ c ≠ "." ∧ '/' ∉ c.toList) (hpush : Path.push rooted done c = c :: done) :
    Settled rooted (c :: done) := by
  refine ⟨?_, ?_⟩
  · intro c' hc'
    rcases List.mem_cons.mp hc' with rfl | hc'
    · exact hnamed
    · exact h.named c' hc'
  · rw [List.reverse_cons, List.foldl_append, h.again]
    exact hpush

/-- Without its last component a settled path is settled, unless the component leads upwards. -/
theorem Settled.tail {rooted : Bool} {done : List String} {c : String}
    (h : Settled rooted (c :: done)) (hup : c ≠ "..") : Settled rooted done := by
  have hnamed := h.named c (by simp)
  refine ⟨fun c' hc' => h.named c' (by simp [hc']), ?_⟩
  have hagain := h.again
  rw [List.reverse_cons, List.foldl_append] at hagain
  change Path.push rooted (done.reverse.foldl (Path.push rooted) []) c = c :: done at hagain
  rw [push_of_plain ⟨hnamed.1, hnamed.2.1, hup⟩] at hagain
  exact (List.cons.inj hagain).2

theorem Settled.push {rooted : Bool} {done : List String} (h : Settled rooted done) {c : String}
    (hc : '/' ∉ c.toList) : Settled rooted (push rooted done c) := by
  by_cases hskip : c = "" ∨ c = "."
  · have hsame : Path.push rooted done c = done := by
      rcases hskip with rfl | rfl <;> simp [Path.push]
    rw [hsame]
    exact h
  · have hnamed : c ≠ "" ∧ c ≠ "." := not_or.mp hskip
    by_cases hup : c = ".."
    · subst hup
      cases done with
      | nil =>
        -- At the root there is no way up; elsewhere it is kept.
        cases rooted with
        | true => exact .nil true
        | false => exact ⟨by decide, by decide⟩
      | cons d rest =>
        by_cases hd : d = ".."
        · subst hd
          exact h.cons (by decide) (by simp [Path.push])
        · have hpop : Path.push rooted (d :: rest) ".." = rest := by simp [Path.push, hd]
          rw [hpop]
          exact h.tail hd
    · have hpush := push_of_plain ⟨hnamed.1, hnamed.2, hup⟩ rooted done
      rw [hpush]
      exact h.cons ⟨hnamed.1, hnamed.2, hc⟩ hpush

theorem not_mem_of_mem_splitOn {sep : Char} {cs piece : List Char}
    (h : piece ∈ cs.splitOn sep) : sep ∉ piece := by
  induction cs generalizing piece with
  | nil =>
    rw [List.splitOn_nil, List.mem_singleton] at h
    simp [h]
  | cons x cs ih =>
    rw [List.splitOn_cons_eq_if_modifyHead] at h
    by_cases hx : (x == sep) = true
    · rw [if_pos hx] at h
      rcases List.mem_cons.mp h with rfl | h
      · exact List.not_mem_nil
      · exact ih h
    · -- The first piece gets one character longer.
      rw [if_neg hx] at h
      cases hsplit : cs.splitOn sep with
      | nil => simp [hsplit] at h
      | cons first rest =>
        rw [hsplit] at h ih
        rcases List.mem_cons.mp h with rfl | h
        · have hne : sep ≠ x := fun heq => hx (by simp [heq])
          simpa [hne] using ih List.mem_cons_self
        · exact ih (List.mem_cons_of_mem first h)

theorem no_slash_of_mem_components {p c : String} (hc : c ∈ components p) : '/' ∉ c.toList := by
  rcases List.mem_map.mp hc with ⟨piece, hpiece, rfl⟩
  simpa using not_mem_of_mem_splitOn hpiece

theorem settled_cleanComponents (p : String) :
    Settled (isRooted p) (cleanComponents p).reverse := by
  have hfold : ∀ (cs done : List String), (∀ c ∈ cs, '/' ∉ c.toList) → Settled (isRooted p) done →
      Settled (isRooted p) (cs.foldl (push (isRooted p)) done) := by
    intro cs
    induction cs with
    | nil => exact fun _ _ h => h
    | cons c cs ih =>
      intro done hcs h
      exact ih _ (fun c' hc' => hcs c' (by simp [hc'])) (h.push (hcs c (by simp)))
  simpa [cleanComponents] using
    hfold (components p) [] (fun c hc => no_slash_of_mem_components hc) (.nil _)

theorem intercalate_ne_empty {cs : List String} (h : cs ≠ []) (hcs : ∀ c ∈ cs, c ≠ "") :
    String.intercalate "/" cs ≠ "" := by
  cases cs with
  | nil => exact absurd rfl h
  | cons c cs =>
    have hc := hcs c (by simp)
    cases cs with
    | nil => simpa using hc
    | cons c' cs => simp [String.intercalate_cons_cons, hc]

theorem clean_eq {p : String} (h : cleanComponents p ≠ []) :
    clean p = (if isRooted p then "/" else "") ++ String.intercalate "/" (cleanComponents p) := by
  have hne : String.intercalate "/" (cleanComponents p) ≠ "" :=
    intercalate_ne_empty h fun c hc =>
      ((settled_cleanComponents p).named c (by simpa using hc)).1
  unfold clean
  cases isRooted p with
  | true => rfl
  | false => simp [hne]

/-- A clean path has the components that remain. -/
theorem components_clean {p : String} (h : cleanComponents p ≠ []) :
    components (clean p) = (if isRooted p then [""] else []) ++ cleanComponents p ∧
      isRooted (clean p) = isRooted p := by
  have hnamed : ∀ c ∈ cleanComponents p, c ≠ "" ∧ c ≠ "." ∧ '/' ∉ c.toList := fun c hc =>
    (settled_cleanComponents p).named c (by simpa using hc)
  have hsplit : components (String.intercalate "/" (cleanComponents p)) = cleanComponents p := by
    unfold components
    rw [String.toList_intercalate]
    change ((['/'].intercalate _).splitOn '/').map String.ofList = _
    rw [List.splitOn_intercalate '/' ?_ (by simpa using h)]
    · simp
    · intro l hl
      rcases List.mem_map.mp hl with ⟨c, hc, rfl⟩
      exact (hnamed c hc).2.2
  rw [clean_eq h]
  generalize hbody : String.intercalate "/" (cleanComponents p) = body at hsplit
  cases hroot : isRooted p with
  | true =>
    refine ⟨?_, by simp [isRooted]⟩
    have hslash : ('/' :: body.toList).splitOn '/' = [] :: body.toList.splitOn '/' :=
      List.splitOn_append_cons_self [] _
    simpa [components, hslash] using hsplit
  | false =>
    -- A slash in front would be a component without a name.
    refine ⟨by simpa using hsplit, ?_⟩
    cases hchars : body.toList with
    | nil => simp [isRooted, hchars]
    | cons x xs =>
      have hne : x ≠ '/' := by
        rintro rfl
        have hslash : ('/' :: xs).splitOn '/' = [] :: xs.splitOn '/' :=
          List.splitOn_append_cons_self [] _
        have hempty : "" ∈ cleanComponents p := by
          rw [← hsplit, components, hchars, hslash]
          exact List.mem_cons_self
        exact (hnamed "" hempty).1 rfl
      simp [isRooted, hchars, hne]

/-! ## Names in a directory -/

theorem components_append_slash (p q : String) :
    components (p ++ "/" ++ q) = components p ++ components q := by
  unfold components
  rw [String.toList_append, String.toList_append, List.append_assoc]
  change ((p.toList ++ '/' :: q.toList).splitOn '/').map String.ofList = _
  rw [List.splitOn_append_cons_self, List.map_append]

theorem components_slash (p : String) {name : String} (hname : IsName name) :
    components (p ++ "/" ++ name) = components p ++ [name] := by
  rw [components_append_slash, hname.components]

theorem isRooted_slash {p : String} (hp : p ≠ "") (name : String) :
    isRooted (p ++ "/" ++ name) = isRooted p := by
  cases hchars : p.toList with
  | nil => exact absurd (String.toList_eq_nil_iff.mp hchars) hp
  | cons x xs => simp [isRooted, hchars]

theorem cleanComponents_slash {p name : String} (hp : p ≠ "") (hname : IsName name) :
    cleanComponents (p ++ "/" ++ name) = cleanComponents p ++ [name] := by
  simp [cleanComponents, components_slash p hname, isRooted_slash hp, push_of_plain hname.plain]

theorem join_slash {p name : String} (hp : p ≠ "") (hname : name ≠ "") :
    join [p, name] = clean (p ++ "/" ++ name) := by
  simp [join, hp, hname, String.intercalate_cons_cons]

/-- A name in a directory. -/
theorem join_eq (p : String) {name : String} (hname : IsName name) :
    ∃ q, join [p, name] = clean q ∧ cleanComponents q = cleanComponents p ++ [name] ∧
      isRooted q = isRooted p := by
  by_cases hp : p = ""
  · subst hp
    refine ⟨name, by simp [join, hname.plain.1], ?_, ?_⟩
    · simp [cleanComponents, hname.components, push_of_plain hname.plain]
      decide
    · have hhead : name.toList.head? ≠ some '/' := fun heq =>
        hname.no_slash (List.mem_of_mem_head? heq)
      simpa [isRooted] using hhead
  · exact ⟨p ++ "/" ++ name, join_slash hp hname.plain.1, cleanComponents_slash hp hname,
      isRooted_slash hp name⟩

theorem isRooted_join (p : String) {name : String} (hname : IsName name) :
    isRooted (join [p, name]) = isRooted p := by
  rcases join_eq p hname with ⟨q, hjoin, hclean, hroot⟩
  rw [hjoin, (components_clean (by simp [hclean])).2, hroot]

/-- The components of a path to a name in a directory. -/
theorem components_join (p : String) {name : String} (hname : IsName name) :
    components (join [p, name]) =
      (if isRooted p then [""] else []) ++ (cleanComponents p ++ [name]) := by
  rcases join_eq p hname with ⟨q, hjoin, hclean, hroot⟩
  rw [hjoin, (components_clean (by simp [hclean])).1, hclean, hroot]

theorem names_join (p : String) {name : String} (hname : IsName name) :
    names (join [p, name]) = cleanComponents p ++ [name] := by
  have hnamed : ∀ c ∈ cleanComponents p, c ≠ "" := fun c hc =>
    ((settled_cleanComponents p).named c (by simpa using hc)).1
  rw [names, components_join p hname, List.filter_append]
  have hfront : (if isRooted p then [""] else []).filter (· != "") = [] := by
    cases isRooted p <;> decide
  rw [hfront, List.nil_append, List.filter_eq_self]
  intro c hc
  rcases List.mem_append.mp hc with hc | hc
  · simpa using hnamed c hc
  · simpa [List.mem_singleton.mp hc] using hname.plain.1

theorem join_ne_empty (p : String) {name : String} (hname : IsName name) : join [p, name] ≠ "" := by
  intro hempty
  have hnames := names_join p hname
  rw [hempty] at hnames
  exact absurd (congrArg List.length hnames) (by simp [names, components])

/-- A clean path is not changed by a name that is joined to it. -/
theorem join_join (p : String) {dir name : String} (hdir : IsName dir) (hname : IsName name) :
    join [join [p, dir], name] = join [p, dir] ++ "/" ++ name := by
  rcases join_eq p hdir with ⟨q, hq, hclean, hroot⟩
  have hne := join_ne_empty p hdir
  -- What remains of the directory is what remained before.
  have hagain : cleanComponents (join [p, dir]) = cleanComponents q := by
    have hsettled := (settled_cleanComponents q).again
    rw [List.reverse_reverse] at hsettled
    rw [cleanComponents, components_join p hdir, isRooted_join p hdir, ← hclean, ← hroot]
    have hfront : ∀ rest : List String, ((if isRooted q then [""] else []) ++ rest).foldl
        (push (isRooted q)) [] = rest.foldl (push (isRooted q)) [] := by
      intro rest
      cases isRooted q <;> simp [push]
    rw [hfront, hsettled, List.reverse_reverse]
  have hall : cleanComponents (join [p, dir] ++ "/" ++ name) = cleanComponents q ++ [name] := by
    rw [cleanComponents_slash hne hname, hagain]
  have hcs : cleanComponents q ≠ [] := by simp [hclean]
  have hrooted : isRooted (join [p, dir] ++ "/" ++ name) = isRooted q := by
    rw [isRooted_slash hne, isRooted_join p hdir, hroot]
  calc join [join [p, dir], name]
      = clean (join [p, dir] ++ "/" ++ name) := join_slash hne hname.plain.1
    _ = (if isRooted q then "/" else "") ++ String.intercalate "/" (cleanComponents q ++ [name]) := by
        rw [clean_eq (by simp [hall]), hall, hrooted]
    _ = (if isRooted q then "/" else "") ++ String.intercalate "/" (cleanComponents q) ++ "/" ++
          name := by
        rw [String.intercalate_append_of_ne_nil hcs (by simp), String.intercalate_singleton,
          String.append_assoc, String.append_assoc, String.append_assoc]
    _ = join [p, dir] ++ "/" ++ name := by rw [hq, clean_eq hcs]

/-! ## Paths in a directory -/

/-- A path whose parts between slashes stand for themselves. -/
def IsPlain (p : String) : Prop := ∀ c ∈ components p, c ≠ "" ∧ c ≠ "." ∧ c ≠ ".."

instance (p : String) : Decidable (IsPlain p) :=
  inferInstanceAs (Decidable (∀ c ∈ components p, _))

theorem IsName.isPlain {name : String} (h : IsName name) : IsPlain name := by
  intro c hc
  rw [h.components, List.mem_singleton] at hc
  exact hc ▸ h.plain

theorem components_injective {p q : String} (h : components p = components q) : p = q := by
  have hsplit : p.toList.splitOn '/' = q.toList.splitOn '/' :=
    List.map_injective_iff.mpr (fun _ _ => String.ofList_injective) h
  apply String.toList_injective
  calc p.toList = ['/'].intercalate (p.toList.splitOn '/') := (List.intercalate_splitOn '/').symm
    _ = q.toList := by rw [hsplit, List.intercalate_splitOn]

theorem cleanComponents_append_slash {p q : String} (hp : p ≠ "") (hq : IsPlain q) :
    cleanComponents (p ++ "/" ++ q) = cleanComponents p ++ components q := by
  have hfold : ∀ (cs done : List String), (∀ c ∈ cs, c ≠ "" ∧ c ≠ "." ∧ c ≠ "..") →
      cs.foldl (push (isRooted p)) done = cs.reverse ++ done := by
    intro cs
    induction cs with
    | nil => exact fun _ _ => rfl
    | cons c cs ih =>
      intro done hcs
      obtain ⟨hc, hcs⟩ := List.forall_mem_cons.mp hcs
      rw [List.foldl_cons, push_of_plain hc, ih _ hcs]
      simp
  rw [cleanComponents, components_append_slash, isRooted_slash hp, List.foldl_append,
    hfold _ _ hq, List.reverse_append, List.reverse_reverse, cleanComponents]

/-- Different plain paths lead to different places in a directory. -/
theorem join_left_inj {p q q' : String} (hp : p ≠ "") (hq : IsPlain q) (hq' : IsPlain q') :
    join [p, q] = join [p, q'] ↔ q = q' := by
  -- A plain path keeps its components behind those of the directory, whatever that is.
  have hcomponents : ∀ {r}, IsPlain r → components (join [p, r]) =
      (if isRooted p then [""] else []) ++ (cleanComponents p ++ components r) := by
    intro r hr
    have hne : r ≠ "" := by
      rintro rfl
      exact (hr "" (by decide)).1 rfl
    have hclean := cleanComponents_append_slash hp hr
    have hsome : cleanComponents (p ++ "/" ++ r) ≠ [] := by
      rw [hclean]
      simp [components, List.splitOn_ne_nil]
    rw [join_slash hp hne, (components_clean hsome).1, hclean, isRooted_slash hp]
  refine ⟨fun heq => ?_, fun heq => heq ▸ rfl⟩
  have hsame := congrArg components heq
  rw [hcomponents hq, hcomponents hq'] at hsame
  exact components_injective (List.append_cancel_left (List.append_cancel_left hsame))

/-! ## Other directories -/

/-- The path with another directory in front of its name. -/
def relocate (dirs : String → String) (p : String) : String :=
  match Text.cutLast '/' p with
  | some (dir, name) => dirs dir ++ "/" ++ name
  | none => p

theorem cutLast_slash (dir : String) {name : String} (hname : '/' ∉ name.toList) :
    Text.cutLast '/' (dir ++ "/" ++ name) = some (dir, name) :=
  Text.cutLast_eq (by simp) hname

theorem relocate_slash (dirs : String → String) (dir : String) {name : String}
    (hname : '/' ∉ name.toList) :
    relocate dirs (dir ++ "/" ++ name) = dirs dir ++ "/" ++ name := by
  simp only [relocate, cutLast_slash dir hname]

/-- A path is a name, or has a directory in front of its name. -/
theorem name_or_slash (p : String) :
    '/' ∉ p.toList ∨ ∃ dir name, '/' ∉ name.toList ∧ p = dir ++ "/" ++ name := by
  by_cases hp : '/' ∈ p.toList
  · obtain ⟨dir, name, hchars, hname⟩ := Text.exists_last_of_mem hp
    refine Or.inr ⟨dir, name, hname, String.toList_injective ?_⟩
    simp [hchars]
  · exact Or.inl hp

theorem relocate_of_no_slash (dirs : String → String) {p : String} (hp : '/' ∉ p.toList) :
    relocate dirs p = p := by
  rw [relocate, Text.cutLast_eq_none hp]

/-- A path that is a name is its own last component. -/
theorem base_of_no_slash {name : String} (hname : '/' ∉ name.toList) (hne : name ≠ "") :
    base name = name := by
  have hcomponents : components name = [name] := by
    simp [components, List.splitOn_eq_singleton hname]
  simp [base, hne, hcomponents]

/-- The name behind the last slash is the last component. -/
theorem base_slash (dir : String) {name : String} (hname : '/' ∉ name.toList) (hne : name ≠ "") :
    base (dir ++ "/" ++ name) = name := by
  have hcomponents : components (dir ++ "/" ++ name) = components dir ++ [name] := by
    rw [components_append_slash]
    simp [components, List.splitOn_eq_singleton hname]
  have hpath : dir ++ "/" ++ name ≠ "" := by simp [hne]
  simp [base, hpath, hcomponents, hne]

/-- Different paths stay different if different directories do. -/
theorem relocate_injective {dirs : String → String} (h : Function.Injective dirs) :
    Function.Injective (relocate dirs) := by
  intro p q heq
  have hslash : ∀ dir name : String, '/' ∈ (dir ++ "/" ++ name).toList := by simp
  -- Paths without a slash stay as they are, and never meet relocated ones, which have one.
  rcases name_or_slash p with hp | ⟨dir, name, hname, rfl⟩
  · rw [relocate_of_no_slash dirs hp] at heq
    rcases name_or_slash q with hq | ⟨dir, name, hname, rfl⟩
    · rwa [relocate_of_no_slash dirs hq] at heq
    · rw [relocate_slash dirs dir hname] at heq
      exact absurd (heq ▸ hslash _ _) hp
  · rw [relocate_slash dirs dir hname] at heq
    rcases name_or_slash q with hq | ⟨dir', name', hname', rfl⟩
    · rw [relocate_of_no_slash dirs hq] at heq
      exact absurd (heq ▸ hslash _ _) hq
    · rw [relocate_slash dirs dir' hname'] at heq
      have hsame := congrArg (Text.cutLast '/') heq
      rw [cutLast_slash _ hname, cutLast_slash _ hname'] at hsame
      simp only [Option.some.injEq, Prod.mk.injEq] at hsame
      rw [h hsame.1, hsame.2]

end Path

/-! ## Places -/

namespace FileTree

/-- The place of a name in a directory. -/
theorem place_join (t : FileTree) (p : String) {name : String} (hname : Path.IsName name) :
    t.place (Path.join [p, name]) =
      (if Path.isRooted p then [] else t.cwd) ++ Path.cleanComponents p ++ [name] := by
  rw [place, Path.isRooted_join p hname, Path.names_join p hname, List.append_assoc]

theorem place_join_join (t : FileTree) (p : String) {dir name : String} (hdir : Path.IsName dir)
    (hname : Path.IsName name) :
    t.place (Path.join [Path.join [p, dir], name]) = t.place (Path.join [p, dir]) ++ [name] := by
  have hnames : Path.names (Path.join [p, dir] ++ "/" ++ name) =
      Path.names (Path.join [p, dir]) ++ [name] := by
    simp [Path.names, Path.components_slash _ hname, hname.plain.1]
  rw [Path.join_join p hdir hname, place, place, hnames,
    Path.isRooted_slash (Path.join_ne_empty p hdir), List.append_assoc]

end FileTree

/-! ## Output directories -/

namespace RunIndex

/-- The path of the nth output directory. -/
def nthFolder (d : RunDir) (kind : String) (n : Nat) : String :=
  Path.join [(place d kind n).2, (place d kind n).1]

/-- The name of the directory that output directories of a kind are in. -/
def group (kind : String) : String := if kind == fuzzKind then "fuzz" else "klee"

theorem snd_place (d : RunDir) (kind : String) (n : Nat) :
    (place d kind n).2 = Path.join [d.root, group kind] := by
  unfold place group
  split
  · rfl
  · rfl

theorem isName_group (kind : String) : Path.IsName (group kind) := by
  unfold group
  split
  · exact ⟨by decide, by decide⟩
  · exact ⟨by decide, by decide⟩

/-- A text in front of a number, as a name. -/
theorem isName_numbered {c : Char} {front : List Char} (hc : c ≠ '.') (hfront : '/' ∉ c :: front)
    (n : Nat) : Path.IsName (String.ofList (c :: front) ++ Decimal.ofNat n) := by
  have hchars : (String.ofList (c :: front) ++ Decimal.ofNat n).toList =
      c :: (front ++ Nat.toDigits 10 n) := by
    simp [Decimal.ofNat]
  refine ⟨?_, ?_⟩
  · rw [hchars]
    intro hmem
    rw [← List.cons_append] at hmem
    rcases List.mem_append.mp hmem with hmem | hmem
    · exact hfront hmem
    · exact absurd (Nat.isDigit_of_mem_toDigits (by decide) (by decide) hmem) (by decide)
  · -- The first character is none of a name of dots.
    refine ⟨?_, ?_, ?_⟩ <;> intro heq <;> rw [heq] at hchars
    · cases hchars
    · exact hc (List.cons.inj hchars).1.symm
    · exact hc (List.cons.inj hchars).1.symm

theorem isName_place (d : RunDir) (kind : String) (n : Nat) : Path.IsName (place d kind n).1 := by
  unfold place
  split
  · exact isName_numbered (c := 'f') (by decide) (by decide) n
  · exact isName_numbered (c := 'k') (by decide) (by decide) n

/-- The place of a name in an output directory. -/
theorem place_nthFolder (t : FileTree) (d : RunDir) (kind : String) (n : Nat) :
    t.place (nthFolder d kind n) =
      (if Path.isRooted d.root then [] else t.cwd) ++ Path.cleanComponents d.root ++
        [group kind, (place d kind n).1] := by
  rw [nthFolder, snd_place, t.place_join_join d.root (isName_group kind) (isName_place d kind n),
    t.place_join d.root (isName_group kind), List.append_assoc _ [group kind]]
  rfl

theorem place_join_nthFolder (t : FileTree) (d : RunDir) (kind : String) (n : Nat) {name : String}
    (hname : Path.IsName name) :
    t.place (Path.join [nthFolder d kind n, name]) = t.place (nthFolder d kind n) ++ [name] :=
  t.place_join_join _ (isName_place d kind n) hname

theorem join_nthFolder (d : RunDir) (kind : String) (n : Nat) {name : String}
    (hname : Path.IsName name) :
    Path.join [nthFolder d kind n, name] = nthFolder d kind n ++ "/" ++ name :=
  Path.join_join _ (isName_place d kind n) hname

/-- The number of an output directory is in its name. -/
theorem place_inj {d : RunDir} {kind kind' : String} {n n' : Nat}
    (hgroup : group kind = group kind') (hname : (place d kind n).1 = (place d kind' n').1) : n = n' := by
  unfold group at hgroup
  unfold place at hname
  cases hk : kind == fuzzKind <;> cases hk' : kind' == fuzzKind <;>
    simp only [hk, hk', Bool.false_eq_true, if_true, if_false] at hgroup hname
  · exact Decimal.ofNat_injective (by simpa using hname)
  · exact absurd hgroup (by decide)
  · exact absurd hgroup (by decide)
  · exact Decimal.ofNat_injective (by simpa using hname)

/-- No path leads into two output directories. -/
theorem eq_of_place_prefix {t : FileTree} {d : RunDir} {kind kind' : String} {n n' : Nat}
    {name : String} (hname : Path.IsName name)
    (h : t.place (nthFolder d kind n) <+: t.place (Path.join [nthFolder d kind' n', name])) :
    n = n' := by
  rw [place_join_nthFolder t d kind' n' hname, place_nthFolder, place_nthFolder,
    List.append_assoc _ [_, _], List.prefix_append_right_inj] at h
  rcases h with ⟨rest, heq⟩
  rw [List.cons_append, List.cons_append, List.cons_append, List.cons_append] at heq
  exact place_inj (List.cons.inj heq).1 (List.cons.inj (List.cons.inj heq).2).1

theorem nthFolder_inj {d : RunDir} {kind kind' : String} {n n' : Nat}
    (h : nthFolder d kind n = nthFolder d kind' n') : n = n' := by
  have hplace := congrArg (FileTree.place { root := .dir [], cwd := [] }) h
  rw [place_nthFolder, place_nthFolder] at hplace
  have hlast := List.append_cancel_left hplace
  exact place_inj (List.cons.inj hlast).1 (List.cons.inj (List.cons.inj hlast).2).1

/-! ## Indexes filled by reservations -/

/-- The nth run of an index has the nth output directory. -/
def Numbered (d : RunDir) (x : RunIndex) : Prop :=
  ∀ (i : Nat) name r, x.runs[i]? = some (name, r) → r.folder = nthFolder d r.kind (i + 1)

theorem Numbered.empty (d : RunDir) : Numbered d {} := by
  intro i name r h
  cases h

theorem reserve_eq (x : RunIndex) (d : RunDir) (r : RunRecord) :
    x.reserve d r = (nthFolder d r.kind (x.size + 1),
      { runs := x.runs ++ [((place d r.kind (x.size + 1)).1,
        { r with folder := nthFolder d r.kind (x.size + 1) })] }) :=
  rfl

theorem Numbered.reserve {d : RunDir} {x : RunIndex} (h : Numbered d x) (r : RunRecord) :
    Numbered d (x.reserve d r).2 := by
  rw [reserve_eq]
  intro i name r' hi
  by_cases hlt : i < x.runs.length
  · exact h i name r' (by simpa [List.getElem?_append_left hlt] using hi)
  · rw [List.getElem?_append_right (Nat.le_of_not_lt hlt)] at hi
    have hlast : i - x.runs.length = 0 := by
      have := (List.getElem?_eq_some_iff.mp hi).1
      simp only [List.length_singleton] at this
      omega
    rw [hlast] at hi
    cases hi
    have hi : i = x.size := by unfold size; omega
    rw [hi]

theorem Numbered.nodup {d : RunDir} {x : RunIndex} (h : Numbered d x) :
    (x.runs.map (·.2.folder)).Nodup := by
  refine List.pairwise_iff_getElem.mpr ?_
  intro i j hi hj hij heq
  rw [List.getElem_map, List.getElem_map] at heq
  rw [List.length_map] at hi hj
  have hfolder : ∀ k (hk : k < x.runs.length),
      x.runs[k].2.folder = nthFolder d x.runs[k].2.kind (k + 1) := fun k hk =>
    h k x.runs[k].1 x.runs[k].2 (List.getElem?_eq_getElem hk)
  rw [hfolder i hi, hfolder j hj] at heq
  have := nthFolder_inj heq
  omega

end RunIndex
end FaultChain
