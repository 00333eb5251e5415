import NetlistTables.Proofs.Table.Enumerators

/-!
# Names that the files declare

Validation looks at the names in a table one by one, but what the files declare is put together
from them: a name is lengthened by the end for an array, or set behind the stem of the enumerators,
with another name and a number behind it. No such join leaves the grammar of identifiers, and none
lands on a reserved word, since no reserved word has one of the ends, or begins with the stem. So
whatever the files of a valid table declare can be declared (`declared_names_usable`).
-/

namespace NetlistTables

open Code Reading

/-- A bus has a sub-pin for each of its bits. -/
theorem Pin.numbered_mem_expand {p : Pin} {k : Nat} (h : 1 < p.width) (hk : k < p.width.toNat) :
    p.name ++ "_" ++ toString k ∈ p.expand := by
  rw [expand_of_lt h]
  exact List.mem_map_of_mem (f := fun k => p.name ++ "_" ++ toString k) (List.mem_range.2 hk)

namespace Primitive

/-- The symbols of the string arrays of a primitive. -/
def arraySymbols (p : Primitive) : List String :=
  [p.attributeNamesSymbol, p.attributeDefaultsSymbol, p.inputsSymbol, p.outputsSymbol]

/-- The enumerators of a primitive and of its sub-pins. -/
def enumeratorNames (p : Primitive) : List String :=
  Table.Config.standard.primitiveEnumerator p ::
    p.subPins.map (Table.Config.standard.pinEnumerator p)

/-- The names that the files declare for a primitive. -/
def declaredNames (p : Primitive) : List String := p.arraySymbols ++ p.enumeratorNames

theorem arraySymbols_eq_map (p : Primitive) : p.arraySymbols = Part.all.map p.symbol := rfl

variable {p : Primitive} {s : String}

theorem mem_subPins : s ∈ p.subPins ↔ ∃ pin ∈ p.inputs ++ p.outputs, s ∈ pin.expand := by
  rw [subPins, inputNames, outputNames, ← Pin.expandAll_append, Pin.expandAll, List.mem_flatMap]

theorem isIdentifier_of_mem_subPins (h : p.IsValid) (hs : s ∈ p.subPins) : isIdentifier s := by
  rcases List.mem_append.1 hs with hs | hs
  · exact Pin.isIdentifier_of_mem_expandAll h.inputs hs
  · exact Pin.isIdentifier_of_mem_expandAll h.outputs hs

/-- No reserved word has one of the ends of symbols. -/
theorem isName_symbol (h : p.IsValid) (a : Part) : IsName (p.symbol a) where
  isIdentifier := by
    have hall : ∀ a ∈ Part.all, a.suffix.toList.all isIdentifierTail := by decide
    exact Table.Source.isIdentifier_symbol h (hall a a.mem_all)
  notReserved := by
    have hall : ∀ a ∈ Part.all, ∀ w ∈ reservedWords, ¬ a.suffix.toList <:+ w.toList := by decide
    exact isReserved_append_of_ends (hall a a.mem_all) p.name

/-- No reserved word begins with the stem of the enumerators. -/
theorem isReserved_stem_append (s : String) :
    isReserved (Table.Config.standard.stem ++ s) = false :=
  isReserved_append_of_starts (by decide) s

theorem isName_primitiveEnumerator (h : p.IsValid) :
    IsName (Table.Config.standard.primitiveEnumerator p) where
  isIdentifier := Table.Header.isIdentifier_primitiveEnumerator h
  notReserved := by
    rw [Table.Config.primitiveEnumerator, String.append_assoc]
    exact isReserved_stem_append _

theorem isName_pinEnumerator (h : p.IsValid) (hs : s ∈ p.subPins) :
    IsName (Table.Config.standard.pinEnumerator p s) where
  isIdentifier := Table.Header.isIdentifier_pinEnumerator h (isIdentifier_of_mem_subPins h hs)
  notReserved := by
    rw [Table.Config.pinEnumerator, String.append_assoc, String.append_assoc, String.append_assoc]
    exact isReserved_stem_append _

theorem isName_of_mem_declaredNames (h : p.IsValid) (hs : s ∈ p.declaredNames) : IsName s := by
  rcases List.mem_append.1 hs with hs | hs
  · rw [arraySymbols_eq_map] at hs
    obtain ⟨a, -, rfl⟩ := List.mem_map.1 hs
    exact isName_symbol h a
  · rcases List.mem_cons.1 hs with rfl | hs
    · exact isName_primitiveEnumerator h
    · obtain ⟨pin, hpin, rfl⟩ := List.mem_map.1 hs
      exact isName_pinEnumerator h hpin

end Primitive

namespace Table

variable {t : List Primitive} {s : String}

/-- Besides the table, the source defines the string arrays of primitives. -/
theorem mem_definedSymbols_items (h : s ∈ definedSymbols (Source.items t)) :
    s = "netlist_xilprims" ∨ ∃ p ∈ t, s ∈ p.arraySymbols := by
  rw [Source.items, definedSymbols_append, definedSymbols_itemsBefore] at h
  rcases List.mem_append.1 h with h | h
  · obtain ⟨x, hx, rfl⟩ := List.mem_map.1 h
    obtain ⟨p, hp, a, -, rfl⟩ := Listing.mem_all.1 hx
    refine .inr ⟨p, hp, ?_⟩
    rw [Primitive.arraySymbols_eq_map]
    exact List.mem_map_of_mem a.mem_all
  · exact .inl (List.mem_singleton.1 h)

/-- The header enumerates the primitives and their sub-pins. -/
theorem mem_enumerators_items (h : s ∈ enumerators (Header.items t)) :
    ∃ p ∈ t, s ∈ p.enumeratorNames := by
  rw [enumerators_items, enumeratorNames, List.map_append, List.map_map, List.map_flatMap] at h
  rcases List.mem_append.1 h with h | h
  · obtain ⟨p, hp, rfl⟩ := List.mem_map.1 h
    exact ⟨p, hp, .head _⟩
  · obtain ⟨p, hp, h⟩ := List.mem_flatMap.1 h
    rw [List.map_map] at h
    exact ⟨p, hp, .tail _ h⟩

/-- **Every name that the files declare can be declared.** For each primitive of a valid table, the
symbols of its arrays and the enumerators of the primitive and of its sub-pins, those of every bit
of a bus among them, are identifiers and not reserved. What the two files of the table declare are
such names, and besides them the name of the table. -/
theorem declared_names_usable (h : validate t = .ok ()) :
    (∀ p ∈ t, (∀ s ∈ p.declaredNames, IsName s) ∧
        ∀ pin ∈ p.inputs ++ p.outputs, 1 < pin.width → ∀ k < pin.width.toNat,
          Config.standard.pinEnumerator p (pin.name ++ "_" ++ toString k) ∈ p.declaredNames) ∧
      ∃ source header,
        readFile (file .source t) = some source ∧ readFile (file .header t) = some header ∧
        ∀ s ∈ definedSymbols source ++ enumerators header,
          IsName s ∧ (s = "netlist_xilprims" ∨ ∃ p ∈ t, s ∈ p.declaredNames) := by
  have ht := validate_eq_ok_iff_valid.1 h
  have hnames : ∀ p ∈ t, ∀ s ∈ p.declaredNames, IsName s :=
    fun p hp s hs => p.isName_of_mem_declaredNames (ht.primitives p hp) hs
  refine ⟨fun p hp => ⟨hnames p hp, fun pin hpin hbus k hk => ?_⟩, Source.items t,
    Header.items t, readFile_source ht, readFile_header ht, fun s hs => ?_⟩
  · have hmem := Primitive.mem_subPins.2 ⟨pin, hpin, Pin.numbered_mem_expand hbus hk⟩
    exact List.mem_append_right _ (.tail _ (List.mem_map_of_mem hmem))
  · have hcases : s = "netlist_xilprims" ∨ ∃ p ∈ t, s ∈ p.declaredNames := by
      rcases List.mem_append.1 hs with hs | hs
      · refine (mem_definedSymbols_items hs).imp_right ?_
        rintro ⟨p, hp, hs⟩
        exact ⟨p, hp, List.mem_append_left _ hs⟩
      · obtain ⟨p, hp, hs⟩ := mem_enumerators_items hs
        exact .inr ⟨p, hp, List.mem_append_right _ hs⟩
    refine ⟨?_, hcases⟩
    rcases hcases with rfl | ⟨p, hp, hs⟩
    · exact ⟨rfl, by decide⟩
    · exact hnames p hp s hs

/-- The enumerator of the last bit of a bus. -/
theorem declared_names_usable_of_bus :
    validate sample = .ok () ∧ IsName "NETLIST_XIL_RAM_A_1" ∧
      ∃ source, readFile (file .source sample) = some source ∧
        ∀ s ∈ definedSymbols source, IsName s := by
  obtain ⟨hnames, source, header, hsource, -, hall⟩ :=
    declared_names_usable (rfl : validate sample = .ok ())
  obtain ⟨hram, hbits⟩ := hnames (sample.head (by decide)) (List.head_mem _)
  refine ⟨rfl, ?_, source, hsource, fun s hs => (hall s (List.mem_append_left _ hs)).1⟩
  exact hram _ (hbits ⟨2, "A"⟩ (.head _) (by decide) 1 (by decide))

end Table

end NetlistTables
