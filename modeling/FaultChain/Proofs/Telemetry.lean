import Mathlib.Data.List.Forall2
import FaultChain.Proofs.Lists
import FaultChain.Proofs.Text.Basic
import FaultChain.Telemetry.Exporter

/-!
# Credentials stay out of the log

The variable with the headers is logged. It is read header by header, but masked as a whole, so the
two do not look at the same pieces of it. Still, credentials that are read are never shown: what is
logged ends in front of the value of the first header, whatever comes before or after.

* `Telemetry.CarriesCredentials`: a variable that is read as headers with credentials.
* `Telemetry.SameKeys`: variables that differ in the values of headers only.
* `Telemetry.contains_of_mem_keys`: where a key is read, a search of the whole variable finds it.
* `Telemetry.mask_of_credentials`: the main statement.
-/

namespace FaultChain
namespace Telemetry

variable {s t key : String}

/-! ## Headers that are read -/

/-- A key is read from a variable exactly if one of its parts is a header of this key. -/
theorem mem_keys_headers_iff :
    key ∈ (headers s).map (·.1) ↔
      ∃ part ∈ Text.split ',' s, ∃ value, header? part = some (key, value) := by
  simp only [headers, List.mem_map, List.mem_filterMap, List.mem_eraseDups, Prod.exists]
  constructor
  · rintro ⟨k, value, ⟨_, ⟨k', v, ⟨part, hpart, hheader⟩, rfl⟩, hlookup⟩, rfl⟩
    obtain ⟨_, -, hpair⟩ := Option.map_eq_some_iff.mp hlookup
    obtain ⟨rfl, -⟩ := Prod.mk.inj hpair
    exact ⟨part, hpart, v, hheader⟩
  · rintro ⟨part, hpart, value, hheader⟩
    -- The last header of the key is the one that counts.
    have hsome : (((Text.split ',' s).filterMap header?).reverse.lookup key).isSome = true := by
      refine List.lookup_isSome_iff.mpr ⟨(key, value), ?_, by simp⟩
      exact List.mem_reverse.mpr (List.mem_filterMap.mpr ⟨part, hpart, hheader⟩)
    obtain ⟨last, hlast⟩ := Option.isSome_iff_exists.mp hsome
    exact ⟨key, last, ⟨key, ⟨key, value, ⟨part, hpart, hheader⟩, rfl⟩, by simp [hlast]⟩, rfl⟩

/-- Whether a variable is read as headers with credentials. -/
def CarriesCredentials (s : String) : Prop := "authorization" ∈ (headers s).map (·.1)

theorem header?_of_cut {part name value : String} (h : Text.cut '=' part = some (name, value)) :
    header? part =
      if Text.trim (Text.lower name) == "authorization" || isHeaderKey (Text.trim (Text.lower name))
      then some (Text.trim (Text.lower name), Text.trim value) else none := by
  simp only [header?, h]

/-- What is read as a header has an equality sign behind its key. -/
theorem exists_cut_of_header? {part value : String} (h : header? part = some (key, value)) :
    ∃ name rest, Text.cut '=' part = some (name, rest) ∧ key = Text.trim (Text.lower name) := by
  cases hcut : Text.cut '=' part with
  | none => simp [header?, hcut] at h
  | some cut =>
    obtain ⟨name, rest⟩ := cut
    rw [header?_of_cut hcut] at h
    obtain ⟨-, hpair⟩ := Option.ite_none_right_eq_some.mp h
    obtain ⟨rfl, -⟩ := Prod.mk.inj (Option.some.inj hpair)
    exact ⟨name, rest, rfl, rfl⟩

/-- A key that is read is mentioned in the variable, in some case. -/
theorem contains_of_mem_keys (h : key ∈ (headers s).map (·.1)) :
    Text.contains (Text.lower s) key = true := by
  obtain ⟨part, hpart, value, hheader⟩ := mem_keys_headers_iff.mp h
  obtain ⟨name, rest, hcut, rfl⟩ := exists_cut_of_header? hheader
  have hname : name.toList <:+: part.toList := by
    rw [(Text.cut_eq_some_iff.mp hcut).1]
    exact List.infix_append_left
  -- Lower case is taken character by character, so it makes no difference where this is done.
  have hlower : (Text.lower name).toList <:+: (Text.lower s).toList := by
    simp only [Text.lower, String.toList_map]
    exact (hname.trans (Text.infix_of_mem_split hpart)).map _
  rw [Text.contains, Text.containsChars_iff, Text.trim, String.toList_ofList]
  exact (Text.trimChars_infix _).trans hlower

/-- A variable with headers has an equality sign. -/
theorem exists_cut_of_mem_keys (h : key ∈ (headers s).map (·.1)) :
    ∃ start rest, Text.cut '=' s = some (start, rest) := by
  obtain ⟨part, hpart, value, hheader⟩ := mem_keys_headers_iff.mp h
  obtain ⟨name, rest, hcut, -⟩ := exists_cut_of_header? hheader
  have hmem : '=' ∈ s.toList := by
    apply (Text.infix_of_mem_split hpart).subset
    rw [(Text.cut_eq_some_iff.mp hcut).1]
    simp
  obtain ⟨start, rest, hs, hstart⟩ := List.eq_append_cons_of_mem hmem
  exact ⟨String.ofList start, String.ofList rest,
    Text.cut_eq_some_iff.mpr ⟨by simpa using hs, by simpa using hstart⟩⟩

/-! ## What is logged -/

/-- The text in front of the first equality sign. -/
def beforeEquals (s : String) : List Char := s.toList.takeWhile (· != '=')

theorem takeWhile_of_cut {part name value : String} (h : Text.cut '=' part = some (name, value))
    (rest : List Char) : (part.toList ++ rest).takeWhile (· != '=') = name.toList := by
  obtain ⟨hpart, hname⟩ := Text.cut_eq_some_iff.mp h
  have hbefore : ∀ c ∈ name.toList, (c != '=') = true := fun c hc =>
    bne_iff_ne.mpr fun heq => hname (heq ▸ hc)
  rw [hpart, List.append_assoc, List.takeWhile_append_of_pos hbefore]
  simp

theorem beforeEquals_of_cut {start rest : String} (h : Text.cut '=' s = some (start, rest)) :
    beforeEquals s = start.toList := by
  simpa [beforeEquals] using takeWhile_of_cut h []

/-- Whenever credentials are read, what is logged is cut off. -/
theorem CarriesCredentials.mask_eq {start rest : String} (h : CarriesCredentials s)
    (hcut : Text.cut '=' s = some (start, rest)) : mask s = start ++ "=<redacted>" := by
  rw [mask, if_pos (contains_of_mem_keys h), hcut]

/-! ## Other values -/

/-- Parts of two variables that differ in the value of a header only. -/
inductive SameKey : String → String → Prop
  | bare {part : String} (h : '=' ∉ part.toList) : SameKey part part
  | header {part part' name value value' : String} (h : Text.cut '=' part = some (name, value))
    (h' : Text.cut '=' part' = some (name, value')) : SameKey part part'

/-- Variables that differ in the values of headers only. -/
def SameKeys (s t : String) : Prop := List.Forall₂ SameKey (Text.split ',' s) (Text.split ',' t)

theorem SameKey.exists_header? {part part' value : String} (h : SameKey part part')
    (hheader : header? part = some (key, value)) : ∃ value', header? part' = some (key, value') := by
  cases h with
  | bare h => exact ⟨value, hheader⟩
  | header h h' =>
    rw [header?_of_cut h] at hheader
    obtain ⟨hvalid, hpair⟩ := Option.ite_none_right_eq_some.mp hheader
    obtain ⟨rfl, -⟩ := Prod.mk.inj (Option.some.inj hpair)
    exact ⟨_, by rw [header?_of_cut h', if_pos hvalid]⟩

/-- Variables that differ in values are read with the same keys. -/
theorem SameKeys.carriesCredentials (h : SameKeys s t) (hs : CarriesCredentials s) :
    CarriesCredentials t := by
  obtain ⟨part, hpart, value, hheader⟩ := mem_keys_headers_iff.mp hs
  obtain ⟨part', hpart', hsame⟩ := exists_of_mem_forall₂ h.flip hpart
  obtain ⟨value', hheader'⟩ := SameKey.exists_header? hsame hheader
  exact mem_keys_headers_iff.mpr ⟨part', hpart', value', hheader'⟩

/-- Joined parts begin with the first one. -/
theorem exists_intercalate_cons (p : String) (ps : List String) :
    ∃ rest, [','].intercalate ((p :: ps).map String.toList) = p.toList ++ rest := by
  cases ps with
  | nil => exact ⟨[], by simp⟩
  | cons q ps =>
    simp only [List.map_cons, List.intercalate_cons_cons, List.append_assoc]
    exact ⟨_, rfl⟩

/-- Up to the first equality sign the joined parts are the same: this sign is in the first header,
and the value of that stands behind it. -/
theorem takeWhile_intercalate_congr {ps qs : List String} (h : List.Forall₂ SameKey ps qs) :
    ([','].intercalate (ps.map String.toList)).takeWhile (· != '=') =
      ([','].intercalate (qs.map String.toList)).takeWhile (· != '=') := by
  induction h with
  | nil => rfl
  | @cons p q ps qs hsame hrest ih =>
    -- The first part decides if it is a header, and is passed over with its comma if not.
    cases hsame with
    | header hp hq =>
      obtain ⟨rest, hrest⟩ := exists_intercalate_cons p ps
      obtain ⟨rest', hrest'⟩ := exists_intercalate_cons q qs
      rw [hrest, hrest', takeWhile_of_cut hp, takeWhile_of_cut hq]
    | bare hp =>
      have hall : ∀ c ∈ p.toList ++ [','], (c != '=') = true := by
        intro c hc
        rcases List.mem_append.mp hc with hc | hc
        · exact bne_iff_ne.mpr fun heq => hp (heq ▸ hc)
        · rw [List.mem_singleton.mp hc]
          decide
      cases hrest with
      | nil => rfl
      | cons hsame' hrest' =>
        simp only [List.map_cons, List.intercalate_cons_cons] at ih ⊢
        rw [List.takeWhile_append_of_pos hall, List.takeWhile_append_of_pos hall, ih]

theorem SameKeys.beforeEquals_eq (h : SameKeys s t) : beforeEquals t = beforeEquals s := by
  have hsame := takeWhile_intercalate_congr h
  rw [Text.intercalate_split, Text.intercalate_split] at hsame
  exact hsame.symm

/-- If credentials are read from a variable, the text in front of its first equality sign is logged
and nothing behind it. So two such variables that agree up to there are logged alike, and the values
of headers make no difference. -/
theorem mask_of_credentials (h : CarriesCredentials s) :
    (∃ start rest, s = start ++ "=" ++ rest ∧ '=' ∉ start.toList ∧
      mask s = start ++ "=<redacted>") ∧
    (∀ t, CarriesCredentials t → beforeEquals t = beforeEquals s → mask t = mask s) ∧
    ∀ t, SameKeys s t → CarriesCredentials t ∧ mask t = mask s := by
  obtain ⟨start, rest, hcut⟩ := exists_cut_of_mem_keys h
  obtain ⟨hs, hstart⟩ := Text.cut_eq_some_iff.mp hcut
  have hmask := h.mask_eq hcut
  -- Only the text in front of the first equality sign is left of either.
  have hagree : ∀ t, CarriesCredentials t → beforeEquals t = beforeEquals s → mask t = mask s := by
    intro t ht hsame
    obtain ⟨start', rest', hcut'⟩ := exists_cut_of_mem_keys ht
    rw [beforeEquals_of_cut hcut, beforeEquals_of_cut hcut'] at hsame
    rw [ht.mask_eq hcut', hmask, String.toList_injective hsame]
  refine ⟨⟨start, rest, String.toList_injective (by simpa using hs), hstart, hmask⟩, hagree, ?_⟩
  intro t hsame
  have ht := hsame.carriesCredentials h
  exact ⟨ht, hagree t ht hsame.beforeEquals_eq⟩

/-- Credentials behind another header, with white space around a key in mixed case and with equality
signs in both values. -/
def sample : String := "x-team=a=b,\t AuThOrization =Basic abc=="

theorem mask_of_credentials_sample :
    CarriesCredentials sample ∧ mask sample = "x-team=<redacted>" ∧
      mask "x-team=,\t AuThOrization =" = mask sample := by
  have hsample : CarriesCredentials sample := by
    unfold CarriesCredentials
    decide +kernel
  refine ⟨hsample, by decide +kernel, ?_⟩
  -- The other variable has the same headers with other values.
  refine ((mask_of_credentials hsample).2.2 _ ?_).2
  have hsplit : Text.split ',' sample = ["x-team=a=b", "\t AuThOrization =Basic abc=="] := by
    decide +kernel
  have hsplit' : Text.split ',' "x-team=,\t AuThOrization =" =
      ["x-team=", "\t AuThOrization ="] := by
    decide +kernel
  have hteam : SameKey "x-team=a=b" "x-team=" :=
    .header (show Text.cut '=' _ = some ("x-team", "a=b") by decide +kernel)
      (show Text.cut '=' _ = some ("x-team", "") by decide +kernel)
  have hcredentials : SameKey "\t AuThOrization =Basic abc==" "\t AuThOrization =" :=
    .header (show Text.cut '=' _ = some ("\t AuThOrization ", "Basic abc==") by decide +kernel)
      (show Text.cut '=' _ = some ("\t AuThOrization ", "") by decide +kernel)
  rw [SameKeys, hsplit, hsplit']
  exact .cons hteam (.cons hcredentials .nil)

end Telemetry
end FaultChain
