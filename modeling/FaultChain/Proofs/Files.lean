import FaultChain.RunDir.Index
import FaultChain.Proofs.Lists

/-!
# Files that stay as they are

* `Entry.Elsewhere`: a change at one place of a tree leaves all other places as they are.
* `FileTree.locate_eq`: a clear path leads to the place its names say, unless there is a link.
* `FileTree.Holds`: a clear path with a file at its place, which can be read.
* `FileTree.Keeps`: every report of an earlier tree is still there in a later one.
* `RunIndex.store_keeps`: storing the index of runs keeps all reports.
-/

namespace FaultChain

/-! ## Changes at one place -/

namespace Entry

theorem lookup_put (name n : String) (new : Entry) (cs : List (String × Entry)) :
    (put name new cs).lookup n = if n = name then some new else cs.lookup n := by
  induction cs with
  | nil =>
    by_cases h : n = name
    · simp [put, h]
    · simp [put, lookup_cons_of_ne h, h]
  | cons c cs ih =>
    rcases c with ⟨m, e⟩
    unfold put
    -- Entries are kept in order, so the name is replaced, passed over, or put in front.
    by_cases hm : name = m
    · subst hm
      by_cases h : n = name
      · simp [h]
      · simp [lookup_cons_of_ne h, h]
    · have hb : (name == m) = false := beq_false_of_ne hm
      simp only [hb, Bool.false_eq_true, if_false]
      split
      · by_cases h : n = name
        · simp [h]
        · simp [lookup_cons_of_ne h, h]
      · by_cases h : n = m
        · subst h
          simp [Ne.symm hm]
        · simpa [lookup_cons_of_ne h] using ih

theorem lookup_filter_ne (name n : String) (cs : List (String × Entry)) (h : n ≠ name) :
    (cs.filter (·.1 != name)).lookup n = cs.lookup n := by
  induction cs with
  | nil => rfl
  | cons c cs ih =>
    rcases c with ⟨m, e⟩
    by_cases hm : m = name
    · subst hm
      simpa [lookup_cons_of_ne h] using ih
    · by_cases hnm : n = m
      · subst hnm
        simp [hm]
      · simpa [hm, lookup_cons_of_ne hnm] using ih

theorem at?_append (e : Entry) (p q : List String) :
    e.at? (p ++ q) = (e.at? p).bind (·.at? q) := by
  induction p generalizing e with
  | nil => rfl
  | cons name p ih =>
    simp only [List.cons_append, at?]
    cases e.children.lookup name with
    | none => rfl
    | some child => exact ih child

@[simp] theorem at?_dir_cons (cs : List (String × Entry)) (name : String) (p : List String) :
    (dir cs).at? (name :: p) = (cs.lookup name).bind (·.at? p) := by
  rw [at?, children]
  cases cs.lookup name with
  | none => rfl
  | some child => rfl

/-- Something that is still the same, or a directory that is still one. -/
def Alike (f f' : Entry) : Prop := f' = f ∨ f.isDir = true ∧ f'.isDir = true

theorem rel_alike_refl (f : Option Entry) : Option.Rel Alike f f := by
  cases f with
  | none => exact .none
  | some f => exact .some (Or.inl rfl)

/-- What is not at or below a place is still alike. -/
def Elsewhere (place : List String) (e e' : Entry) : Prop :=
  ∀ p, ¬ place <+: p → Option.Rel Alike (e.at? p) (e'.at? p)

theorem Elsewhere.refl (place : List String) (e : Entry) : Elsewhere place e e :=
  fun p _ => rel_alike_refl (e.at? p)

/-- Changing what one name of a directory stands for. -/
theorem elsewhere_dir {name : String} {rest : List String} {cs cs' : List (String × Entry)}
    (hne : ∀ n, n ≠ name → cs'.lookup n = cs.lookup n)
    (hname : rest = [] ∨ ∃ old new, cs.lookup name = some old ∧ cs'.lookup name = some new ∧
      Elsewhere rest old new) :
    Elsewhere (name :: rest) (.dir cs) (.dir cs') := by
  intro p hp
  cases p with
  | nil => exact .some (Or.inr ⟨rfl, rfl⟩)
  | cons n p =>
    rw [at?_dir_cons, at?_dir_cons]
    -- Below another name nothing differs at all.
    by_cases hn : n = name
    · subst hn
      rcases hname with rfl | ⟨old, new, hold, hnew, hrest⟩
      · exact absurd (List.prefix_append [n] p) hp
      · rw [hold, hnew]
        exact hrest p fun h => hp (List.cons_prefix_cons.mpr ⟨rfl, h⟩)
    · rw [hne n hn]
      exact rel_alike_refl _

theorem elsewhere_insert (new : Entry) (place : List String) (e : Entry) :
    Elsewhere place e (insert new place e) := by
  induction place generalizing e with
  | nil => exact fun p hp => absurd List.nil_prefix hp
  | cons name rest ih =>
    -- Only directories hold anything below them.
    cases e with
    | file => cases rest <;> exact Elsewhere.refl _ _
    | link => cases rest <;> exact Elsewhere.refl _ _
    | dir cs =>
      cases rest with
      -- The last name of the place: its entry is replaced as a whole.
      | nil => exact elsewhere_dir (fun n hn => by simp [lookup_put, hn]) (Or.inl rfl)
      | cons m rest =>
        unfold insert
        split
        · rename_i child hchild
          refine elsewhere_dir (fun n hn => by simp [lookup_put, hn]) (Or.inr ?_)
          exact ⟨child, _, hchild, by simp [lookup_put], ih child⟩
        · exact Elsewhere.refl _ _

theorem elsewhere_erase (place : List String) (e : Entry) :
    Elsewhere place e (erase place e) := by
  induction place generalizing e with
  | nil => exact Elsewhere.refl _ _
  | cons name rest ih =>
    cases e with
    | file => cases rest <;> exact Elsewhere.refl _ _
    | link => cases rest <;> exact Elsewhere.refl _ _
    | dir cs =>
      cases rest with
      -- The last name of the place: its entry is taken out.
      | nil => exact elsewhere_dir (fun n hn => lookup_filter_ne name n cs hn) (Or.inl rfl)
      | cons m rest =>
        unfold erase
        split
        · rename_i child hchild
          refine elsewhere_dir (fun n hn => by simp [lookup_put, hn]) (Or.inr ?_)
          exact ⟨child, _, hchild, by simp [lookup_put], ih child⟩
        · exact Elsewhere.refl _ _

theorem Elsewhere.file {place p : List String} {e e' : Entry} {text : String} {x : Bool}
    (h : Elsewhere place e e') (hp : ¬ place <+: p) (hf : e.at? p = some (.file text x)) :
    e'.at? p = some (.file text x) := by
  have hrel := h p hp
  rw [hf] at hrel
  generalize e'.at? p = after at hrel ⊢
  cases hrel with
  | some halike =>
    rcases halike with rfl | ⟨hdir, -⟩
    · rfl
    · cases hdir

theorem Elsewhere.dir {place p : List String} {e e' : Entry} {cs : List (String × Entry)}
    (h : Elsewhere place e e') (hp : ¬ place <+: p) (hf : e.at? p = some (.dir cs)) :
    ∃ cs', e'.at? p = some (.dir cs') := by
  have hrel := h p hp
  rw [hf] at hrel
  generalize e'.at? p = after at hrel ⊢
  cases hrel with
  | @some _ f' halike =>
    rcases halike with rfl | ⟨-, hdir⟩
    · exact ⟨cs, rfl⟩
    · cases f' with
      | dir cs' => exact ⟨cs', rfl⟩
      | file => cases hdir
      | link => cases hdir

theorem Elsewhere.none {place p : List String} {e e' : Entry} (h : Elsewhere place e e')
    (hp : ¬ place <+: p) (hf : e.at? p = Option.none) : e'.at? p = Option.none := by
  have hrel := h p hp
  rw [hf] at hrel
  generalize e'.at? p = after at hrel ⊢
  cases hrel with
  | none => rfl

theorem at?_insert_self {e new : Entry} {place : List String} {name : String}
    {cs : List (String × Entry)} (h : e.at? place = some (.dir cs)) :
    (insert new (place ++ [name]) e).at? (place ++ [name]) = some new := by
  induction place generalizing e with
  | nil =>
    cases h
    simp [insert, lookup_put, at?]
  | cons n place ih =>
    cases e with
    | file => simp [at?, children] at h
    | link => simp [at?, children] at h
    | dir cs' =>
      rw [at?_dir_cons] at h
      cases hchild : cs'.lookup n with
      | none => simp [hchild] at h
      | some child =>
        rw [hchild] at h
        -- An insertion goes on only if a name is left, which the pattern has to show.
        have hrest : place ++ [name] ≠ [] := by simp
        obtain ⟨m, rest, heq⟩ := List.exists_cons_of_ne_nil hrest
        have hinsert : insert new (n :: m :: rest) (.dir cs') =
            .dir (put n (insert new (m :: rest) child) cs') := by
          simp [insert, hchild]
        rw [List.cons_append, heq, hinsert, at?_dir_cons, lookup_put, if_pos rfl, ← heq]
        exact ih h

theorem at?_insert_of_dir {e : Entry} {place : List String} {cs : List (String × Entry)}
    (hne : place ≠ []) (hdir : e.at? place.dropLast = some (.dir cs)) (new : Entry) :
    (insert new place e).at? place = some new := by
  rcases (List.eq_nil_or_concat place).resolve_left hne with ⟨front, name, rfl⟩
  rw [List.concat_eq_append, List.dropLast_concat] at hdir
  rw [List.concat_eq_append]
  exact at?_insert_self hdir

theorem at?_erase_self {e : Entry} {place : List String} (h : place ≠ []) :
    (erase place e).at? place = none := by
  induction place generalizing e with
  | nil => exact absurd rfl h
  | cons n place ih =>
    cases e with
    | file => cases place <;> simp [erase, at?, children]
    | link => cases place <;> simp [erase, at?, children]
    | dir cs =>
      cases place with
      | nil =>
        -- Nothing of this name is left in the directory.
        have hgone : (cs.filter (·.1 != n)).lookup n = Option.none := by
          rw [List.lookup_eq_none_iff]
          intro c hc
          have hne : c.1 ≠ n := by simpa using (List.mem_filter.mp hc).2
          simpa using fun heq : n = c.1 => hne heq.symm
        rw [erase, at?_dir_cons, hgone]
        rfl
      | cons m place =>
        cases hchild : cs.lookup n with
        | none => simp [erase, hchild]
        | some child =>
          have herase : erase (n :: m :: place) (.dir cs) =
              .dir (put n (erase (m :: place) child) cs) := by
            simp [erase, hchild]
          rw [herase, at?_dir_cons, lookup_put, if_pos rfl]
          exact ih (by simp)

/-- What lies below something is in a directory. -/
theorem dir_of_at?_append {e f : Entry} {p q : List String} (hq : q ≠ [])
    (h : e.at? (p ++ q) = some f) : ∃ cs, e.at? p = some (.dir cs) := by
  rw [at?_append] at h
  cases hp : e.at? p with
  | none => simp [hp] at h
  | some g =>
    cases q with
    | nil => exact absurd rfl hq
    | cons name q =>
      cases g with
      | dir cs => exact ⟨cs, rfl⟩
      | file => simp [hp, at?, children] at h
      | link => simp [hp, at?, children] at h

end Entry

/-! ## Clear paths -/

namespace Path

/-- The names of a path, without the empty one in front of a rooted path. -/
def names (p : String) : List String := (components p).filter (· != "")

/-- A path without detours: its names are as a file system takes them. -/
structure Clear (p : String) : Prop where
  no_nul : p.toList.any (·.toNat == 0) = false
  short : p.utf8ByteSize ≤ FileTree.maxPath
  components_eq : components p = (if isRooted p then [""] else []) ++ names p
  plain : ∀ n ∈ names p, n ≠ "." ∧ n ≠ ".." ∧ n.utf8ByteSize ≤ 255
  names_ne_nil : names p ≠ []

theorem clear_iff {p : String} :
    Clear p ↔ p.toList.any (·.toNat == 0) = false ∧ p.utf8ByteSize ≤ FileTree.maxPath ∧
      components p = (if isRooted p then [""] else []) ++ names p ∧
      (∀ n ∈ names p, n ≠ "." ∧ n ≠ ".." ∧ n.utf8ByteSize ≤ 255) ∧ names p ≠ [] :=
  ⟨fun h => ⟨h.no_nul, h.short, h.components_eq, h.plain, h.names_ne_nil⟩,
    fun ⟨h₁, h₂, h₃, h₄, h₅⟩ => ⟨h₁, h₂, h₃, h₄, h₅⟩⟩

instance (p : String) : Decidable (Clear p) := decidable_of_iff _ clear_iff.symm

theorem Clear.ne_empty {p : String} (h : Clear p) : p ≠ "" := by
  rintro rfl
  exact h.names_ne_nil (by decide)

theorem splitOn_append_of_not_mem {sep : Char} {ys : List Char} (hys : sep ∉ ys)
    (xs : List Char) :
    ∃ front last, xs.splitOn sep = front ++ [last] ∧
      (xs ++ ys).splitOn sep = front ++ [last ++ ys] := by
  induction xs with
  | nil => exact ⟨[], [], rfl, by simpa using List.splitOn_eq_singleton hys⟩
  | cons x xs ih =>
    obtain ⟨front, last, hxs, hall⟩ := ih
    rw [List.cons_append, List.splitOn_cons_eq_if_modifyHead, List.splitOn_cons_eq_if_modifyHead,
      hxs, hall]
    by_cases hx : x == sep
    · exact ⟨[] :: front, last, by simp [hx], by simp [hx]⟩
    · cases front with
      | nil => exact ⟨[], x :: last, by simp [hx], by simp [hx]⟩
      | cons y front => exact ⟨(x :: y) :: front, last, by simp [hx], by simp [hx]⟩

/-- The last name of a path ends as the path does. -/
theorem Clear.last_endsWith {p ending : String} (h : Clear p)
    (hp : Text.endsWith p ending = true) (hslash : '/' ∉ ending.toList) :
    ∃ n, (names p).getLast? = some n ∧ Text.endsWith n ending = true := by
  obtain ⟨xs, hxs⟩ := List.isSuffixOf_iff_suffix.mp hp
  obtain ⟨front, last, -, hall⟩ := splitOn_append_of_not_mem hslash xs
  -- Without a slash in it, the ending is within what follows the last slash.
  have hcomponents : components p = front.map String.ofList ++
      [String.ofList (last ++ ending.toList)] := by
    simp [components, ← hxs, hall]
  refine ⟨String.ofList (last ++ ending.toList), ?_, ?_⟩
  -- A clear path ends in a name, so its last component is its last name.
  · have hlast : (components p).getLast? = (names p).getLast? := by
      rw [h.components_eq]
      simp [List.getLast?_append, List.getLast?_eq_some_getLast h.names_ne_nil]
    rw [← hlast, hcomponents]
    simp
  · rw [Text.endsWith, List.isSuffixOf_iff_suffix, String.toList_ofList]
    exact List.suffix_append _ _

theorem push_of_plain {name : String} (h : name ≠ "" ∧ name ≠ "." ∧ name ≠ "..")
    (rooted : Bool) (done : List String) : push rooted done name = name :: done := by
  simp [push, h.1, h.2.1, h.2.2]

theorem clean_endsWith {p name : String} {front : List String}
    (h : name ≠ "" ∧ name ≠ "." ∧ name ≠ "..") (hp : components p = front ++ [name]) :
    Text.endsWith (clean p) name = true := by
  -- A plain name is neither dropped nor does it drop what is in front of it.
  have hbody : ∃ ys, cleanComponents p = ys ++ [name] := by
    refine ⟨(front.foldl (push (isRooted p)) []).reverse, ?_⟩
    simp [cleanComponents, hp, push_of_plain h]
  obtain ⟨ys, hys⟩ := hbody
  have hjoined : name.toList <:+ (String.intercalate "/" (cleanComponents p)).toList := by
    rw [hys]
    cases ys with
    | nil => simp
    | cons y ys =>
      rw [String.intercalate_append_of_ne_nil (by simp) (by simp), String.intercalate_singleton,
        String.toList_append]
      exact List.suffix_append _ _
  rw [Text.endsWith, List.isSuffixOf_iff_suffix]
  unfold clean
  simp only
  split
  · rw [String.toList_append]
    exact hjoined.trans (List.suffix_append _ _)
  · split
    · rename_i hempty
      -- Only an empty path becomes a dot, and this one ends in the name.
      have hnil : (String.intercalate "/" (cleanComponents p)) = "" := by simpa using hempty
      rw [hnil] at hjoined
      have hname : name = "" := by simpa using hjoined
      exact absurd hname h.1
    · exact hjoined

/-- A path that ends in a name ends as the name does. -/
theorem join_endsWith (a : String) {name : String} (hslash : '/' ∉ name.toList)
    (h : name ≠ "" ∧ name ≠ "." ∧ name ≠ "..") : Text.endsWith (join [a, name]) name = true := by
  have hsingle : components name = [name] := by
    simp [components, List.splitOn_eq_singleton hslash]
  by_cases ha : a = ""
  · have hjoin : join [a, name] = clean name := by simp [join, ha, h.1]
    rw [hjoin]
    exact clean_endsWith h (show components name = [] ++ [name] from hsingle)
  · have hjoin : join [a, name] = clean (String.intercalate "/" [a, name]) := by
      simp [join, ha, h.1]
    -- The slash between the two parts is where the name begins.
    have hsplit : components (String.intercalate "/" [a, name]) = components a ++ [name] := by
      rw [String.intercalate_cons_cons, String.intercalate_singleton, ← hsingle]
      unfold components
      rw [String.toList_append, String.toList_append, List.append_assoc]
      change ((a.toList ++ '/' :: name.toList).splitOn '/').map String.ofList = _
      rw [List.splitOn_append_cons_self, List.map_append]
    rw [hjoin]
    exact clean_endsWith h hsplit

end Path

/-! ## Where paths lead to -/

namespace FileTree

/-- The place a clear path names. -/
def place (t : FileTree) (p : String) : List String :=
  (if Path.isRooted p then [] else t.cwd) ++ Path.names p

theorem walkTo_of_dir {root : Entry} {follow : Bool}
    {jump : List String → List String → Except Refusal Spot} {done front : List String}
    {name : String} {cs : List (String × Entry)}
    (hplain : ∀ n ∈ front ++ [name], n ≠ "" ∧ n ≠ "." ∧ n ≠ ".." ∧ n.utf8ByteSize ≤ 255)
    (hdir : root.at? (done ++ front) = some (.dir cs))
    (hlink : follow = false ∨ ∀ target, root.at? (done ++ front ++ [name]) ≠ some (.link target)) :
    walkTo root follow jump done (front ++ [name]) =
      .ok ⟨done ++ front ++ [name], root.at? (done ++ front ++ [name])⟩ := by
  induction front generalizing done with
  | nil =>
    obtain ⟨h₁, h₂, h₃, h₄⟩ := hplain name (by simp)
    have hlen : ¬ 255 < name.utf8ByteSize := Nat.not_lt.mpr h₄
    simp only [List.nil_append, List.append_nil] at hlink ⊢
    unfold walkTo
    simp only [h₁, h₂, h₃, hlen, beq_iff_eq, Bool.or_eq_true, or_self, if_false]
    -- At the last name it only matters whether it is a link to be followed.
    cases hat : root.at? (done ++ [name]) with
    | none => simp
    | some e =>
      cases e with
      | file text x => simp
      | dir cs' => simp [walkTo, hat]
      | link target =>
        rcases hlink with rfl | hlink
        · simp
        · exact absurd hat (hlink target)
  | cons n front ih =>
    obtain ⟨h₁, h₂, h₃, h₄⟩ := hplain n (by simp)
    have hlen : ¬ 255 < n.utf8ByteSize := Nat.not_lt.mpr h₄
    have hsplit : done ++ n :: front = (done ++ [n]) ++ front := by simp
    -- What is on the way to a directory is a directory.
    have hn : ∃ cs', root.at? (done ++ [n]) = some (.dir cs') := by
      cases front with
      | nil => exact ⟨cs, by simpa using hdir⟩
      | cons m front =>
        rw [hsplit] at hdir
        exact Entry.dir_of_at?_append (by simp) hdir
    obtain ⟨cs', hn⟩ := hn
    rw [hsplit] at hdir hlink ⊢
    have hrest := ih (fun m hm => hplain m (by simpa using Or.inr (by simpa using hm))) hdir hlink
    rw [List.cons_append, walkTo]
    simp only [h₁, h₂, h₃, hlen, beq_iff_eq, Bool.or_eq_true, or_self, if_false, hn]
    exact hrest

/-- A clear path leads to the place its names say. -/
theorem locate_eq {t : FileTree} {p : String} (h : Path.Clear p) {follow : Bool}
    {cs : List (String × Entry)} (hdir : t.root.at? (t.place p).dropLast = some (.dir cs))
    (hlink : follow = false ∨ ∀ target, t.root.at? (t.place p) ≠ some (.link target)) :
    t.locate follow p = .ok ⟨t.place p, t.root.at? (t.place p)⟩ := by
  obtain ⟨front, name, hnames⟩ := (List.eq_nil_or_concat (Path.names p)).resolve_left h.names_ne_nil
  have hplain : ∀ n ∈ front ++ [name],
      n ≠ "" ∧ n ≠ "." ∧ n ≠ ".." ∧ n.utf8ByteSize ≤ 255 := by
    intro n hn
    have hmem : n ∈ Path.names p := by simpa [hnames] using hn
    have hne : n ≠ "" := by simpa using (List.mem_filter.mp hmem).2
    exact ⟨hne, h.plain n hmem⟩
  have hplace : t.place p = (if Path.isRooted p then [] else t.cwd) ++ front ++ [name] := by
    simp [place, hnames]
  have hnul : ¬ (p.toList.any (·.toNat == 0)) = true := by simp [h.no_nul]
  -- The way from the root and the one from the working directory differ in their first component.
  have hwalk : ∀ jump, walkTo t.root follow jump (if Path.isRooted p then [] else t.cwd)
      (Path.components p) = .ok ⟨t.place p, t.root.at? (t.place p)⟩ := by
    intro jump
    have hsteps : walkTo t.root follow jump _ _ = _ :=
      walkTo_of_dir hplain (by simpa [hplace] using hdir) (by simpa [hplace] using hlink)
    rw [h.components_eq, hnames, hplace]
    by_cases hroot : Path.isRooted p = true
    · simp only [hroot, if_true] at hsteps ⊢
      simpa [walkTo] using hsteps
    · simp only [hroot] at hsteps ⊢
      simpa using hsteps
  unfold locate
  rw [if_neg (by simpa using h.ne_empty), if_neg hnul, if_neg (Nat.not_lt.mpr h.short)]
  exact hwalk _

theorem place_ne_nil (t : FileTree) {p : String} (h : Path.Clear p) : t.place p ≠ [] :=
  List.append_ne_nil_of_right_ne_nil _ h.names_ne_nil

/-! ## Files and reports -/

/-- A clear path with a file at its place. -/
structure Holds (t : FileTree) (p text : String) : Prop where
  clear : Path.Clear p
  file : ∃ x, t.root.at? (t.place p) = some (.file text x)

theorem exists_holds_iff {t : FileTree} {p : String} :
    (∃ text, t.Holds p text) ↔
      Path.Clear p ∧ (t.root.at? (t.place p)).any Entry.isFile = true := by
  constructor
  · rintro ⟨text, hclear, x, hfile⟩
    exact ⟨hclear, by simp [hfile, Entry.isFile]⟩
  · rintro ⟨hclear, hfile⟩
    rcases (Option.any_eq_true _ _).mp hfile with ⟨e, he, hisFile⟩
    cases e with
    | file text x => exact ⟨text, hclear, x, he⟩
    | dir cs => cases hisFile
    | link target => cases hisFile

instance (t : FileTree) (p : String) : Decidable (∃ text, t.Holds p text) :=
  decidable_of_iff _ exists_holds_iff.symm

theorem Holds.openFile {t : FileTree} {p text : String} (h : t.Holds p text) :
    t.openFile p = .ok (some text) := by
  obtain ⟨x, hfile⟩ := h.file
  obtain ⟨front, name, hplace⟩ :=
    (List.eq_nil_or_concat (t.place p)).resolve_left (t.place_ne_nil h.clear)
  have hdir : ∃ cs, t.root.at? (t.place p).dropLast = some (.dir cs) := by
    rw [hplace, List.concat_eq_append] at hfile
    rw [hplace, List.concat_eq_append, List.dropLast_concat]
    exact Entry.dir_of_at?_append (by simp) hfile
  obtain ⟨cs, hdir⟩ := hdir
  have hlocate : t.locate true p = _ :=
    locate_eq h.clear hdir (Or.inr fun target => by simp [hfile])
  simp [FileTree.openFile, entry?, hlocate, hfile]

/-- Reports that are there stay as they are. -/
structure Keeps (t t' : FileTree) : Prop where
  cwd : t'.cwd = t.cwd
  reports : ∀ {p text}, Text.endsWith p ".err" = true → t.Holds p text → t'.Holds p text

theorem Keeps.refl (t : FileTree) : t.Keeps t := ⟨rfl, fun _ h => h⟩

theorem Keeps.trans {t t' t'' : FileTree} (h : t.Keeps t') (h' : t'.Keeps t'') : t.Keeps t'' :=
  ⟨h'.cwd.trans h.cwd, fun hp hold => h'.reports hp (h.reports hp hold)⟩

theorem Keeps.place_eq {t t' : FileTree} (h : t.Keeps t') (p : String) :
    t'.place p = t.place p := by
  simp [place, h.cwd]

/-- Paths with different endings do not lead to the same place. -/
theorem place_ne_of_endings {t : FileTree} {p q a b : String} (hp : Path.Clear p)
    (hq : Path.Clear q) (hpa : Text.endsWith p a = true) (hqb : Text.endsWith q b = true)
    (ha : '/' ∉ a.toList) (hb : '/' ∉ b.toList)
    (hab : ¬ a.toList <:+ b.toList ∧ ¬ b.toList <:+ a.toList) : t.place p ≠ t.place q := by
  intro heq
  obtain ⟨n, hn, hna⟩ := hp.last_endsWith hpa ha
  obtain ⟨m, hm, hmb⟩ := hq.last_endsWith hqb hb
  have hlast : ∀ (xs ys : List String) (z : String), ys.getLast? = some z →
      (xs ++ ys).getLast? = some z := by
    intro xs ys z hz
    simp [List.getLast?_append, hz]
  -- The same place has the same last name, which cannot end in both ways.
  have hnm : some n = some m := by
    rw [← hlast _ _ n hn, ← hlast _ _ m hm]
    exact congrArg List.getLast? heq
  cases hnm
  rcases List.suffix_or_suffix_of_suffix (List.isSuffixOf_iff_suffix.mp hna)
    (List.isSuffixOf_iff_suffix.mp hmb) with h | h
  · exact hab.1 h
  · exact hab.2 h

/-- A file that can be replaced: both it and the file it is replaced by way of are directly inside
directories, and the latter is no link. -/
structure Replaceable (t : FileTree) (p : String) : Prop where
  clear : Path.Clear p
  temp_clear : Path.Clear (p ++ ".tmp")
  dir : ∃ cs, t.root.at? (t.place p).dropLast = some (.dir cs)
  temp_dir : ∃ cs, t.root.at? (t.place (p ++ ".tmp")).dropLast = some (.dir cs)
  temp_no_link : ∀ target, t.root.at? (t.place (p ++ ".tmp")) ≠ some (.link target)

theorem any_isDir_iff {e : Option Entry} : e.any Entry.isDir = true ↔ ∃ cs, e = some (.dir cs) := by
  rw [Option.any_eq_true]
  constructor
  · rintro ⟨e, rfl, hdir⟩
    cases e with
    | dir cs => exact ⟨cs, rfl⟩
    | file text x => cases hdir
    | link target => cases hdir
  · rintro ⟨cs, rfl⟩
    exact ⟨.dir cs, rfl, rfl⟩

theorem replaceable_iff {t : FileTree} {p : String} :
    t.Replaceable p ↔ Path.Clear p ∧ Path.Clear (p ++ ".tmp") ∧
      (t.root.at? (t.place p).dropLast).any Entry.isDir = true ∧
      (t.root.at? (t.place (p ++ ".tmp")).dropLast).any Entry.isDir = true ∧
      (t.root.at? (t.place (p ++ ".tmp"))).all (fun e => e.isDir || e.isFile) = true := by
  have hlink : (∀ target, t.root.at? (t.place (p ++ ".tmp")) ≠ some (.link target)) ↔
      (t.root.at? (t.place (p ++ ".tmp"))).all (fun e => e.isDir || e.isFile) = true := by
    cases t.root.at? (t.place (p ++ ".tmp")) with
    | none => simp
    | some e => cases e <;> simp [Entry.isDir, Entry.isFile]
  rw [any_isDir_iff, any_isDir_iff, ← hlink]
  exact ⟨fun h => ⟨h.clear, h.temp_clear, h.dir, h.temp_dir, h.temp_no_link⟩,
    fun ⟨h₁, h₂, h₃, h₄, h₅⟩ => ⟨h₁, h₂, h₃, h₄, h₅⟩⟩

instance (t : FileTree) (p : String) : Decidable (t.Replaceable p) :=
  decidable_of_iff _ replaceable_iff.symm

/-- What happens elsewhere does not matter to a file that can be replaced. -/
theorem Replaceable.elsewhere {t : FileTree} {p : String} (h : t.Replaceable p)
    {place : List String} {root : Entry} (helse : Entry.Elsewhere place t.root root)
    (hp : ¬ place <+: (t.place p).dropLast) (htemp : ¬ place <+: t.place (p ++ ".tmp")) :
    Replaceable { t with root := root } p := by
  rcases h.dir with ⟨cs, hdir⟩
  rcases h.temp_dir with ⟨cs', hdir'⟩
  refine ⟨h.clear, h.temp_clear, helse.dir hp hdir, helse.dir ?_ hdir', ?_⟩
  · exact fun hin => htemp (hin.trans (List.dropLast_prefix _))
  · intro target hlink
    have hrel := helse _ htemp
    change root.at? (t.place (p ++ ".tmp")) = _ at hlink
    rw [hlink] at hrel
    -- Entries in front of the change stay directories; no link can appear where there was none.
    cases hold : t.root.at? (t.place (p ++ ".tmp")) with
    | none =>
      rw [hold] at hrel
      cases hrel
    | some e =>
      rw [hold] at hrel
      cases hrel with
      | some halike =>
        rcases halike with rfl | ⟨-, hisDir⟩
        · exact h.temp_no_link target hold
        · cases hisDir

/-- A place that holds no directory is in front of none. -/
theorem not_prefix_of_dir {e f : Entry} {place p : List String}
    (hplace : ∀ cs, e.at? place ≠ some (.dir cs)) (hp : e.at? p = some f) (hne : p ≠ place) :
    ¬ place <+: p := by
  rintro ⟨rest, rfl⟩
  cases rest with
  | nil => exact hne (by simp)
  | cons name rest =>
    obtain ⟨cs, hcs⟩ := Entry.dir_of_at?_append (by simp) hp
    exact hplace cs hcs

theorem not_prefix_dropLast {place : List String} (h : place ≠ []) :
    ¬ place <+: place.dropLast := by
  intro hp
  have hle := hp.length_le
  have hpos : 0 < place.length := List.length_pos_iff.mpr h
  rw [List.length_dropLast] at hle
  omega

/-- What is put at a free place leaves all reports alone. -/
theorem keeps_insert {t : FileTree} {place : List String} (hfree : t.root.at? place = none)
    (new : Entry) : t.Keeps { t with root := Entry.insert new place t.root } := by
  refine ⟨rfl, ?_⟩
  intro p text _ hheld
  rcases hheld.file with ⟨x, hfile⟩
  have hapart : ¬ place <+: t.place p := by
    rintro ⟨rest, heq⟩
    rw [← heq, Entry.at?_append, hfree] at hfile
    cases hfile
  exact ⟨hheld.clear, x, (Entry.elsewhere_insert new place t.root).file hapart hfile⟩

/-- The other file is written unless a directory is at its place. It keeps whether it could be
run. -/
theorem write_temp_cases {t : FileTree} {p : String} (h : t.Replaceable p) (text : String) :
    let temp := t.place (p ++ ".tmp")
    (∃ f, t.write (p ++ ".tmp") text = .error f) ∨
      (∀ cs, t.root.at? temp ≠ some (.dir cs)) ∧ ∃ x, t.write (p ++ ".tmp") text =
        .ok { t with root := Entry.insert (.file text x) temp t.root } := by
  intro temp
  obtain ⟨cs, hdir⟩ := h.temp_dir
  have hwrite : t.locate true (p ++ ".tmp") = .ok ⟨temp, t.root.at? temp⟩ :=
    locate_eq h.temp_clear hdir (Or.inr h.temp_no_link)
  -- What is at the place already decides, and it is no link.
  cases hat : t.root.at? temp with
  | none => exact Or.inr ⟨nofun, false, by simp [write, writeAs, hwrite, hat, store]⟩
  | some e =>
    cases e with
    | dir cs =>
      exact Or.inl ⟨.file "open" (p ++ ".tmp") .isDirectory, by simp [write, writeAs, hwrite, hat]⟩
    | file old x => exact Or.inr ⟨nofun, x, by simp [write, writeAs, hwrite, hat, store]⟩
    | link target => exact absurd hat (h.temp_no_link target)

/-- A file is moved to another place unless a directory is there. -/
theorem rename_cases {t : FileTree} {old new : String} {e : Entry} (hold : Path.Clear old)
    (hnew : Path.Clear new) (hat : t.root.at? (t.place old) = some e)
    (hparent : ∃ cs, t.root.at? (t.place old).dropLast = some (.dir cs))
    (hparent' : ∃ cs, t.root.at? (t.place new).dropLast = some (.dir cs)) :
    (∃ f, t.rename old new = .error f) ∨
      (∀ cs, t.root.at? (t.place new) ≠ some (.dir cs)) ∧ t.rename old new =
        .ok { t with root := Entry.insert e (t.place new) (Entry.erase (t.place old) t.root) } := by
  obtain ⟨cs, hparent⟩ := hparent
  obtain ⟨cs', hparent'⟩ := hparent'
  have hsource : t.locate false old = .ok ⟨t.place old, some e⟩ :=
    hat ▸ locate_eq hold hparent (Or.inl rfl)
  have hdest : t.locate false new = .ok ⟨t.place new, t.root.at? (t.place new)⟩ :=
    locate_eq hnew hparent' (Or.inl rfl)
  -- The file that is moved is there, so only its destination decides.
  cases hat' : t.root.at? (t.place new) with
  | none =>
    rw [hat'] at hdest
    exact Or.inr ⟨nofun, by simp [rename, hsource, hdest]⟩
  | some e' =>
    rw [hat'] at hdest
    cases e' with
    | dir cs =>
      exact Or.inl ⟨.file "rename" (old ++ " " ++ new) .alreadyExists,
        by simp [rename, hsource, hdest]⟩
    | file => exact Or.inr ⟨nofun, by simp [rename, hsource, hdest]⟩
    | link => exact Or.inr ⟨nofun, by simp [rename, hsource, hdest]⟩

/-- What replacing a file can do: nothing, only write the other file, or move it into place. -/
theorem replaceFile_cases {t : FileTree} {p : String} (h : t.Replaceable p) (text : String) :
    let temp := t.place (p ++ ".tmp")
    (RunDir.replaceFile p text t).2 = t ∨
      (∀ cs, t.root.at? temp ≠ some (.dir cs)) ∧ ∃ x,
        let root := Entry.insert (.file text x) temp t.root
        (RunDir.replaceFile p text t).2 = { t with root := root } ∨
          (∀ cs, root.at? (t.place p) ≠ some (.dir cs)) ∧
            (RunDir.replaceFile p text t).2 =
              { t with root := Entry.insert (.file text x) (t.place p) (Entry.erase temp root) } := by
  intro temp
  rcases write_temp_cases h text with ⟨f, hwrite⟩ | ⟨hnodir, x, hwrite⟩
  · left
    simp [RunDir.replaceFile, hwrite]
  · refine Or.inr ⟨hnodir, x, ?_⟩
    intro root
    obtain ⟨cs, htemp⟩ := h.temp_dir
    obtain ⟨cs', hdir⟩ := h.dir
    -- The directories that both files are in are still there.
    have helse : Entry.Elsewhere temp t.root root := Entry.elsewhere_insert _ _ _
    have hne : (t.place p).dropLast ≠ temp := fun heq =>
      hnodir cs' ((congrArg t.root.at? heq).symm.trans hdir)
    have hfile : root.at? temp = some (.file text x) :=
      Entry.at?_insert_of_dir (t.place_ne_nil h.temp_clear) htemp _
    rcases rename_cases (t := { t with root := root }) h.temp_clear h.clear hfile
      (helse.dir (not_prefix_dropLast (t.place_ne_nil h.temp_clear)) htemp)
      (helse.dir (not_prefix_of_dir hnodir hdir hne) hdir) with ⟨f, hrename⟩ | ⟨hnodir', hrename⟩
    · left
      simp only [RunDir.replaceFile, hwrite]
      rw [hrename]
    · refine Or.inr ⟨hnodir', ?_⟩
      simp only [RunDir.replaceFile, hwrite]
      rw [hrename]
      rfl

theorem endsWith_temp (p : String) : Text.endsWith (p ++ ".tmp") ".tmp" = true := by
  rw [Text.endsWith, List.isSuffixOf_iff_suffix, String.toList_append]
  exact List.suffix_append _ _

/-- Replacing a file that is no report keeps all reports. -/
theorem replaceFile_keeps {t : FileTree} {p : String} (h : t.Replaceable p) (text : String)
    (hp : Text.endsWith p ".json" = true) : t.Keeps (RunDir.replaceFile p text t).2 := by
  rcases replaceFile_cases h text with hsame | ⟨hnodir, x, hafter⟩
  · rw [hsame]
    exact Keeps.refl t
  · -- A report is neither of the two files, so neither of the two places is in front of it.
    have hwrite : ∀ {q text'}, Text.endsWith q ".err" = true → t.Holds q text' →
        ¬ t.place (p ++ ".tmp") <+: t.place q ∧
          ∃ y, (Entry.insert (.file text x) (t.place (p ++ ".tmp")) t.root).at? (t.place q) =
            some (.file text' y) := by
      intro q text' hq hold
      obtain ⟨y, hy⟩ := hold.file
      have hne : t.place q ≠ t.place (p ++ ".tmp") :=
        place_ne_of_endings hold.clear h.temp_clear hq (endsWith_temp p) (by decide) (by decide)
          (by decide)
      have hapart := not_prefix_of_dir hnodir hy hne
      exact ⟨hapart, y, (Entry.elsewhere_insert _ _ _).file hapart hy⟩
    rcases hafter with hwritten | ⟨hnodir', hmoved⟩
    · rw [hwritten]
      exact ⟨rfl, fun hq hold => ⟨hold.clear, (hwrite hq hold).2⟩⟩
    · rw [hmoved]
      refine ⟨rfl, ?_⟩
      intro q text' hq hold
      obtain ⟨hapart, y, hy⟩ := hwrite hq hold
      have hne : t.place q ≠ t.place p :=
        place_ne_of_endings hold.clear h.clear hq hp (by decide) (by decide) (by decide)
      have herased := (Entry.elsewhere_erase _ _).file hapart hy
      have hapart' := not_prefix_of_dir hnodir' hy hne
      exact ⟨hold.clear, y, (Entry.elsewhere_insert _ _ _).file hapart' herased⟩

/-- Replacing a file keeps all directories. -/
theorem replaceFile_dir {t : FileTree} {p : String} (h : t.Replaceable p) (text : String)
    {place : List String} {cs : List (String × Entry)} (hdir : t.root.at? place = some (.dir cs)) :
    ∃ cs', (RunDir.replaceFile p text t).2.root.at? place = some (.dir cs') := by
  rcases replaceFile_cases h text with hsame | ⟨hnodir, x, hafter⟩
  · rw [hsame]
    exact ⟨cs, hdir⟩
  · -- No directory is put where the written file goes, or where it is moved to.
    have hne : place ≠ t.place (p ++ ".tmp") := fun heq => hnodir cs (heq ▸ hdir)
    have hapart := not_prefix_of_dir hnodir hdir hne
    rcases (Entry.elsewhere_insert (.file text x) _ t.root).dir hapart hdir with ⟨cs₁, hdir₁⟩
    rcases hafter with hwritten | ⟨hnodir', hmoved⟩
    · rw [hwritten]
      exact ⟨cs₁, hdir₁⟩
    · rw [hmoved]
      have hne' : place ≠ t.place p := fun heq => hnodir' cs₁ (heq ▸ hdir₁)
      have hapart' := not_prefix_of_dir hnodir' hdir₁ hne'
      rcases (Entry.elsewhere_erase _ _).dir hapart hdir₁ with ⟨cs₂, hdir₂⟩
      exact (Entry.elsewhere_insert _ _ _).dir hapart' hdir₂

/-- A file that was replaced can be replaced again. -/
theorem replaceFile_replaceable {t : FileTree} {p : String} (h : t.Replaceable p)
    (text : String) (hp : Text.endsWith p ".json" = true) :
    (RunDir.replaceFile p text t).2.Replaceable p := by
  have hplaces := (replaceFile_keeps h text hp).place_eq
  rcases h.dir with ⟨cs, hdir⟩
  rcases h.temp_dir with ⟨cs', htemp⟩
  refine ⟨h.clear, h.temp_clear, ?_, ?_, ?_⟩
  · rw [hplaces]
    exact replaceFile_dir h text hdir
  · rw [hplaces]
    exact replaceFile_dir h text htemp
  · rw [hplaces]
    intro target
    rcases replaceFile_cases h text with hsame | ⟨-, x, hafter⟩
    · rw [hsame]
      exact h.temp_no_link target
    · have hfile : (Entry.insert (.file text x) (t.place (p ++ ".tmp")) t.root).at?
          (t.place (p ++ ".tmp")) = some (.file text x) :=
        Entry.at?_insert_of_dir (t.place_ne_nil h.temp_clear) htemp _
      rcases hafter with hwritten | ⟨hnodir', hmoved⟩
      · rw [hwritten, hfile]
        simp
      · -- The written file is gone once it is moved.
        have hne : t.place (p ++ ".tmp") ≠ t.place p :=
          place_ne_of_endings h.temp_clear h.clear (endsWith_temp p) hp (by decide) (by decide)
            (by decide)
        have herased := Entry.at?_erase_self (t.place_ne_nil h.temp_clear)
          (e := Entry.insert (.file text x) (t.place (p ++ ".tmp")) t.root)
        have hgone := (Entry.elsewhere_insert (.file text x) (t.place p) _).none
          (not_prefix_of_dir hnodir' hfile hne) herased
        rw [hmoved, hgone]
        simp

end FileTree

/-! ## The index of runs -/

namespace RunIndex

theorem store_keeps {t : FileTree} {d : RunDir} (h : t.Replaceable (d.path "klee.json"))
    (x : RunIndex) :
    t.Keeps (x.store d t).2 ∧ (x.store d t).2.Replaceable (d.path "klee.json") := by
  have hending : Text.endsWith (d.path "klee.json") ".json" = true := by
    have hname : Text.endsWith (d.path "klee.json") "klee.json" = true :=
      Path.join_endsWith _ (by decide) (by decide)
    rw [Text.endsWith, List.isSuffixOf_iff_suffix] at hname ⊢
    exact List.IsSuffix.trans (by decide) hname
  exact ⟨FileTree.replaceFile_keeps h _ hending, FileTree.replaceFile_replaceable h _ hending⟩

end RunIndex
end FaultChain
