import Mathlib.Data.List.Forall2
import NetlistTables.Proofs.Table.Symbols

/-!
# Header and source agree

The header numbers the primitives and their sub-pins, and the source lists them. A program that
includes the header indexes the lists with these numbers, so each number has to be the position of
what it stands for; and the lengths in the records have to be the numbers of enumerators.
-/

namespace NetlistTables.Table

open Reading

/-- Header and source agree on the sub-pins in the direction `d` of a primitive `name`, and so does
its record `r`. -/
structure PinsAgree (header source : List Item) (r : Record) (name : String) (d : Direction) :
    Prop where
  /-- The source has an array of the sub-pins, or none. -/
  array : (valuesOf (name ++ "_" ++ d.word) (arrays source)).length ≤ 1
  /-- The header has an enumeration where the source has an array, and in it every sub-pin has its
  position in the array. -/
  enumeration : valuesOf (" " ++ name ++ ": " ++ d.word ++ " ") (captioned header) =
    (valuesOf (name ++ "_" ++ d.word) (arrays source)).map fun strings =>
      strings.mapIdx fun k s => ("NETLIST_XIL_" ++ name ++ "_" ++ s, k)
  /-- The record gives the number of enumerators, which is zero if there is no enumeration. -/
  count : r.number? d.word =
    some (valuesOf (" " ++ name ++ ": " ++ d.word ++ " ") (captioned header)).flatten.length

variable {t : List Primitive} {p : Primitive}

/-- The array of the sub-pins of a direction, if there are any. -/
theorem valuesOf_symbol (h : Valid t) (hp : p ∈ t) (d : Direction) :
    valuesOf (p.name ++ "_" ++ d.word) (arrays (Source.items t)) =
      if p.pinNames d = [] then [] else [p.pinNames d] := by
  have hsymbol : p.name ++ "_" ++ d.word = p.symbol (.pins d) := String.append_assoc ..
  have hvalues := stringArrays.valuesOf_all h.names hp (.pins d)
  rw [arrays_items, hsymbol]
  refine hvalues.trans ?_
  by_cases hempty : p.pinNames d = []
  · simp [hempty, stringArrays, Primitive.strings]
  · simp [hempty, stringArrays, Primitive.strings]

/-- The enumeration of the sub-pins of a direction, if there are any. -/
theorem valuesOf_caption (h : Valid t) (hp : p ∈ t) (d : Direction) :
    valuesOf (" " ++ p.name ++ ": " ++ d.word ++ " ") (captioned (Header.items t)) =
      if p.pinNames d = [] then [] else [Header.pinMembers p (p.pinNames d)] := by
  have hcaption : " " ++ p.name ++ ": " ++ d.word ++ " " = p.caption d := by
    simp only [Primitive.caption, Direction.captionEnd, String.append_assoc]
  have hvalues := captions.valuesOf_all h.names hp d
  rw [captioned_items, hcaption]
  refine hvalues.trans ?_
  by_cases hempty : p.pinNames d = []
  · simp [hempty, captions]
  · simp [hempty, captions]

/-- An enumeration of sub-pins gives each of them its position. -/
theorem pinMembers_eq_mapIdx (p : Primitive) (names : List String) :
    Header.pinMembers p names =
      names.mapIdx fun k s => ("NETLIST_XIL_" ++ p.name ++ "_" ++ s, k) := by
  rw [Header.pinMembers, List.zipIdx_map, List.mapIdx_eq_zipIdx_map]
  rfl

theorem primitiveMembers_eq_mapIdx (t : List Primitive) :
    Header.primitiveMembers t = t.mapIdx fun i p => ("NETLIST_XIL_" ++ p.name, i) := by
  rw [Header.primitiveMembers, List.zipIdx_map, List.mapIdx_eq_zipIdx_map]
  rfl

theorem pinsAgree_items (h : Valid t) (hp : p ∈ t) (hw : p.WidthsFit) (d : Direction) :
    PinsAgree (Header.items t) (Source.items t) (Source.recordOf p) p.name d := by
  have harray := valuesOf_symbol h hp d
  have henumeration := valuesOf_caption h hp d
  have hcount : (Source.recordOf p).number? d.word = some (p.pinNames d).length :=
    number?_recordOf (h.primitives p hp) hw (.pins d)
  by_cases hempty : p.pinNames d = []
  · rw [if_pos hempty] at harray henumeration
    refine ⟨?_, ?_, ?_⟩
    · rw [harray]
      exact Nat.zero_le 1
    · rw [harray, henumeration]
      rfl
    · rw [henumeration, hcount, hempty]
      rfl
  · rw [if_neg hempty] at harray henumeration
    refine ⟨?_, ?_, ?_⟩
    · rw [harray]
      exact Nat.le_refl 1
    · rw [harray, henumeration, pinMembers_eq_mapIdx]
      rfl
    · rw [henumeration, hcount, pinMembers_eq_mapIdx, List.flatten_singleton, List.length_mapIdx]

/-- **Header and source agree.** The first enumeration in the header numbers the primitives of a
valid table, the records in the source are those of the primitives in the same order, and on the
sub-pins of each primitive the two files agree. -/
theorem header_agrees_with_source (h : validate t = .ok ()) (hw : ∀ p ∈ t, p.WidthsFit) :
    ∃ header source rs,
      readFile (file .header t) = some header ∧ readFile (file .source t) = some source ∧
      recordsOf "netlist_xilprims" source = some rs ∧
      (enumerations header).head? = some (t.mapIdx fun i p => ("NETLIST_XIL_" ++ p.name, i)) ∧
      List.Forall₂ (fun p r => r.text? "name" = some p.name ∧
        ∀ d : Direction, PinsAgree header source r p.name d) t rs := by
  have ht := validate_eq_ok_iff_valid.1 h
  refine ⟨Header.items t, Source.items t, t.map Source.recordOf, readFile_header ht,
    readFile_source ht, recordsOf_items t, ?_, ?_⟩
  · rw [← primitiveMembers_eq_mapIdx]
    rfl
  · rw [List.forall₂_map_right_iff, List.forall₂_same]
    intro p hp
    exact ⟨text?_recordOf, pinsAgree_items ht hp (hw p hp)⟩

theorem header_agrees_with_source_sample :
    (validate sample = .ok () ∧ ∀ p ∈ sample, p.WidthsFit) ∧
      ∃ header source rs,
        readFile (file .header sample) = some header ∧
        readFile (file .source sample) = some source ∧
        recordsOf "netlist_xilprims" source = some rs ∧
        (enumerations header).head? = some [("NETLIST_XIL_RAM", 0), ("NETLIST_XIL_VCC", 1)] ∧
        List.Forall₂ (fun p r => r.text? "name" = some p.name ∧
          ∀ d : Direction, PinsAgree header source r p.name d) sample rs := by
  have hw : ∀ p ∈ sample, p.WidthsFit := by decide
  exact ⟨⟨rfl, hw⟩, header_agrees_with_source rfl hw⟩

end NetlistTables.Table
