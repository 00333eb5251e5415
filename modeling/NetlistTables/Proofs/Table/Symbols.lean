import NetlistTables.Proofs.Table.Header
import NetlistTables.Proofs.Table.Listing
import NetlistTables.Proofs.Table.Source

/-!
# Symbols and captions

Each string array of a primitive has a symbol, and each enumeration of its sub-pins a caption; both
consist of the name of the primitive and an end for the part. No end is the end of another, so they
determine the primitive and the part (`Primitive.symbol_injective`, `Primitive.caption_injective`)
whatever the name is, and the string arrays and the enumerations are listings: `stringArrays` and
`captions`.
-/

namespace NetlistTables

open Reading

/-- Of some ends none of which ends in another, the one that a text is given can be told from the
text, and so can what it is given to. -/
theorem append_injective_of_ends {ι : Type} {e : ι → String}
    (he : ∀ {i j}, (e i).toList <:+ (e j).toList → i = j) {s u : String} {i j : ι}
    (h : s ++ e i = u ++ e j) : s = u ∧ i = j := by
  have hlist : s.toList ++ (e i).toList = u.toList ++ (e j).toList := by
    rw [← String.toList_append, h, String.toList_append]
  have hi : (e i).toList <:+ u.toList ++ (e j).toList := hlist ▸ List.suffix_append _ _
  obtain rfl : i = j := by
    rcases List.suffix_or_suffix_of_suffix hi (List.suffix_append _ _) with hij | hji
    · exact he hij
    · exact (he hji).symm
  exact ⟨String.toList_inj.1 (List.append_cancel_right hlist), rfl⟩

/-! ## The symbols of string arrays -/

namespace Reading.Part

/-- The lists that a record points to, in the order of their arrays. -/
def all : List Part := [attributeNames, attributeDefaults, pins .inputs, pins .outputs]

theorem mem_all (a : Part) : a ∈ all := by
  cases a with
  | attributeNames => simp [all]
  | attributeDefaults => simp [all]
  | pins d => cases d <;> simp [all]

/-- The end of the symbols of the arrays for a part. -/
def suffix : Part → String
  | attributeNames => "_attribute_names"
  | attributeDefaults => "_attribute_defaults"
  | pins d => "_" ++ d.word

theorem eq_of_suffix {a b : Part} (h : a.suffix.toList <:+ b.suffix.toList) : a = b := by
  have hall : ∀ a ∈ all, ∀ b ∈ all, a.suffix.toList <:+ b.suffix.toList → a = b := by decide
  exact hall a a.mem_all b b.mem_all h

end Reading.Part

namespace Primitive

variable (p : Primitive)

/-- The names of the sub-pins of a direction. -/
def pinNames : Direction → List String
  | .inputs => p.inputNames
  | .outputs => p.outputNames

/-- The strings that belong to a part of a primitive. -/
def strings : Part → List String
  | .attributeNames => p.attributes.map (·.name)
  | .attributeDefaults => p.attributes.map (·.default)
  | .pins d => p.pinNames d

/-- The symbol of the array for a part of a primitive. -/
def symbol (a : Part) : String := p.name ++ a.suffix

theorem inputNames_eq_nil_iff : p.inputNames = [] ↔ p.inputs = [] := Pin.expandAll_eq_nil_iff

theorem outputNames_eq_nil_iff : p.outputNames = [] ↔ p.outputs = [] := Pin.expandAll_eq_nil_iff

variable {p}

theorem symbol_injective {q : Primitive} {a b : Part} (h : p.symbol a = q.symbol b) :
    p.name = q.name ∧ a = b :=
  append_injective_of_ends Part.eq_of_suffix h

/-- A text that has none of the ends of symbols is no symbol. -/
theorem symbol_ne {s : String} (h : ∀ a ∈ Part.all, ¬ a.suffix.toList <:+ s.toList) (a : Part) :
    p.symbol a ≠ s := by
  rintro rfl
  refine h a a.mem_all ?_
  rw [symbol, String.toList_append]
  exact List.suffix_append _ _

theorem symbol_ne_null (a : Part) : p.symbol a ≠ "NULL" := symbol_ne (by decide) a

theorem symbol_ne_table (a : Part) : p.symbol a ≠ "netlist_xilprims" := symbol_ne (by decide) a

theorem symbol_ne_typeTag (a : Part) : p.symbol a ≠ "NETLIST_PRIMITIVE_INTERNAL" :=
  symbol_ne (by decide) a

end Primitive

/-! ## The captions of enumerations -/

namespace Reading.Direction

/-- The end of the captions for a direction. -/
def captionEnd (d : Direction) : String := ": " ++ d.word ++ " "

theorem eq_of_captionEnd {d e : Direction} (h : d.captionEnd.toList <:+ e.captionEnd.toList) :
    d = e := by
  cases d with
  | inputs =>
    cases e with
    | inputs => rfl
    | outputs => exact absurd h (by decide)
  | outputs =>
    cases e with
    | inputs => exact absurd h (by decide)
    | outputs => rfl

end Reading.Direction

namespace Primitive

/-- What the comment above the enumeration of the sub-pins of a direction says. -/
def caption (p : Primitive) (d : Direction) : String := " " ++ p.name ++ d.captionEnd

theorem caption_injective {p q : Primitive} {d e : Direction} (h : p.caption d = q.caption e) :
    p.name = q.name ∧ d = e := by
  obtain ⟨hname, hd⟩ := append_injective_of_ends Direction.eq_of_captionEnd h
  exact ⟨(String.append_right_inj _).1 hname, hd⟩

end Primitive

/-! ## The listings of a table -/

namespace Table

/-- The string arrays by their symbols. A part without strings has none. -/
def stringArrays : Listing Part (List String) where
  indices := Part.all
  has p a := p.strings a ≠ []
  key := Primitive.symbol
  value := Primitive.strings
  nodup_indices := by decide
  mem_indices := Part.mem_all
  key_injective := Primitive.symbol_injective

/-- The enumerations of sub-pins by their captions. A direction without pins has none. -/
def captions : Listing Direction (List (String × Nat)) where
  indices := [.inputs, .outputs]
  has p d := p.pinNames d ≠ []
  key := Primitive.caption
  value p d := Header.pinMembers p (p.pinNames d)
  nodup_indices := by decide
  mem_indices d := by cases d <;> simp
  key_injective := Primitive.caption_injective

/-- The item of the array for a part of a primitive, if it has one. -/
def partItems (p : Primitive) (a : Part) : List Item :=
  if p.strings a = [] then [] else [.strings (p.symbol a) (p.strings a)]

theorem arrays_partItems (p : Primitive) (a : Part) :
    arrays (partItems p a) = if stringArrays.has p a then
      [(stringArrays.key p a, stringArrays.value p a)] else [] := by
  by_cases hempty : p.strings a = []
  · simp [partItems, stringArrays, hempty, arrays]
  · simp [partItems, stringArrays, hempty, arrays]

theorem definedSymbols_partItems (p : Primitive) (a : Part) :
    definedSymbols (partItems p a) = (arrays (partItems p a)).map (·.1) := by
  rw [partItems]
  split
  · rfl
  · rfl

/-- The arrays of a primitive are those of its parts, in order. -/
theorem arrayItems_eq (p : Primitive) :
    Source.arrayItems p = Part.all.flatMap (partItems p) := by
  have hattributes : (if p.attributes = [] then [] else
      [.strings p.attributeNamesSymbol (p.attributes.map (·.name)),
        .strings p.attributeDefaultsSymbol (p.attributes.map (·.default))]) =
      partItems p .attributeNames ++ partItems p .attributeDefaults := by
    by_cases hempty : p.attributes = []
    · simp [partItems, Primitive.strings, hempty]
    · simp only [partItems, Primitive.strings, List.map_eq_nil_iff, if_neg hempty]
      rfl
  have hinputs : (if p.inputs = [] then [] else [.strings p.inputsSymbol p.inputNames]) =
      partItems p (.pins .inputs) := by
    simp only [partItems, Primitive.strings, Primitive.pinNames, p.inputNames_eq_nil_iff]
    rfl
  have houtputs : (if p.outputs = [] then [] else [.strings p.outputsSymbol p.outputNames]) =
      partItems p (.pins .outputs) := by
    simp only [partItems, Primitive.strings, Primitive.pinNames, p.outputNames_eq_nil_iff]
    rfl
  rw [Source.arrayItems, hattributes, hinputs, houtputs]
  simp [Part.all]

theorem arrays_blockItems (p : Primitive) : arrays (Source.blockItems p) = stringArrays.of p := by
  have hparts : arrays (Part.all.flatMap (partItems p)) = stringArrays.of p := by
    rw [Listing.of_eq_flatMap, arrays, List.filterMap_flatMap]
    exact List.flatMap_congr fun a _ => arrays_partItems p a
  rw [← hparts, ← arrayItems_eq]
  rfl

/-- **The arrays in the source are those of the listing**, in order. -/
theorem arrays_itemsBefore (t : List Primitive) :
    arrays (Source.itemsBefore t) = stringArrays.all t := by
  have hopening : arrays Source.openingItems = [] := rfl
  rw [Source.itemsBefore, arrays_append, hopening, List.nil_append, arrays, List.filterMap_flatMap]
  exact List.flatMap_congr fun p _ => arrays_blockItems p

theorem definedSymbols_blockItems (p : Primitive) :
    definedSymbols (Source.blockItems p) = (arrays (Source.blockItems p)).map (·.1) := by
  have hparts : definedSymbols (Part.all.flatMap (partItems p)) =
      (arrays (Part.all.flatMap (partItems p))).map (·.1) := by
    rw [definedSymbols, arrays, List.filterMap_flatMap, List.filterMap_flatMap, List.map_flatMap]
    exact List.flatMap_congr fun a _ => definedSymbols_partItems p a
  rw [← arrayItems_eq] at hparts
  exact hparts

/-- What the source defines before the table are the string arrays. -/
theorem definedSymbols_itemsBefore (t : List Primitive) :
    definedSymbols (Source.itemsBefore t) = (stringArrays.all t).map (·.1) := by
  have hopening : definedSymbols Source.openingItems = [] := rfl
  rw [Source.itemsBefore, definedSymbols_append, hopening, List.nil_append, definedSymbols,
    List.filterMap_flatMap, Listing.all, List.map_flatMap]
  refine List.flatMap_congr fun p _ => ?_
  rw [← arrays_blockItems, ← definedSymbols_blockItems, definedSymbols]

/-- The items of the enumeration of the sub-pins of a direction, if there are any. -/
def directionItems (p : Primitive) (d : Direction) : List Item :=
  if p.pinNames d = [] then [] else
    [.comment (p.caption d), .enumeration (Header.pinMembers p (p.pinNames d))]

theorem captioned_directionItems (p : Primitive) (d : Direction) (is : List Item) :
    captioned (directionItems p d ++ is) = (if captions.has p d then
      [(captions.key p d, captions.value p d)] else []) ++ captioned is := by
  by_cases hempty : p.pinNames d = []
  · simp [directionItems, captions, hempty]
  · simp [directionItems, captions, hempty, captioned]

/-- The enumerations of the sub-pins of a primitive are those of the two directions. -/
theorem blockItems_eq (p : Primitive) :
    Header.blockItems p = directionItems p .inputs ++ directionItems p .outputs := by
  have hinputs : " " ++ (p.name ++ ": inputs") ++ " " = p.caption .inputs := by
    simp only [Primitive.caption, String.append_assoc]
    rfl
  have houtputs : " " ++ (p.name ++ ": outputs") ++ " " = p.caption .outputs := by
    simp only [Primitive.caption, String.append_assoc]
    rfl
  simp only [Header.blockItems, directionItems, Primitive.pinNames, p.inputNames_eq_nil_iff,
    p.outputNames_eq_nil_iff, hinputs, houtputs]

theorem captioned_blockItems (p : Primitive) (is : List Item) :
    captioned (Header.blockItems p ++ is) = captions.of p ++ captioned is := by
  rw [blockItems_eq, List.append_assoc, captioned_directionItems, captioned_directionItems,
    ← List.append_assoc, Listing.of_eq_flatMap]
  simp [captions]

/-- **The enumerations under a comment in the header are those of the listing**, in order. -/
theorem captioned_items (t : List Primitive) : captioned (Header.items t) = captions.all t := by
  have hblocks : captioned (t.flatMap Header.blockItems ++ Header.closingItems) =
      captions.all t := by
    induction t with
    | nil => rfl
    | cons p t ih =>
      rw [List.flatMap_cons, List.append_assoc, captioned_blockItems, ih]
      rfl
  rw [Header.items, List.append_assoc]
  exact hblocks

/-! ## The records -/

/-- The table is found among the items of the source. -/
theorem recordsOf_items (t : List Primitive) :
    recordsOf "netlist_xilprims" (Source.items t) = some (t.map Source.recordOf) := by
  have hbefore : recordsOf "netlist_xilprims" (Source.itemsBefore t) = none := by
    rw [Option.eq_none_iff_forall_ne_some]
    intro rs hrs
    have hmem := mem_definedSymbols_of_recordsOf hrs
    rw [definedSymbols_itemsBefore, List.mem_map] at hmem
    obtain ⟨x, hx, hsymbol⟩ := hmem
    obtain ⟨p, -, a, -, rfl⟩ := Listing.mem_all.1 hx
    exact Primitive.symbol_ne_table a hsymbol
  rw [recordsOf] at hbefore ⊢
  rw [Source.items, List.findSome?_append, hbefore]
  rfl

/-- The arrays in the source file are those before the table. -/
theorem arrays_items (t : List Primitive) : arrays (Source.items t) = stringArrays.all t := by
  rw [Source.items, arrays_append, arrays_itemsBefore]
  exact List.append_nil _

section Record

variable {p : Primitive}

theorem text?_recordOf : (Source.recordOf p).text? "name" = some p.name := rfl

/-- What the record of a primitive names for a part. -/
def pointer (p : Primitive) (a : Part) : String :=
  if p.strings a = [] then "NULL" else p.symbol a

theorem recordOf_eq : Source.recordOf p =
    [("type", .name "NETLIST_PRIMITIVE_INTERNAL"),
      ("name", .text p.name),
      ("attribute_count", .number p.attributes.length),
      ("attribute_names", .name (pointer p .attributeNames)),
      ("default_attributes", .name (pointer p .attributeDefaults)),
      ("inputs", .number p.inputCount.toNat),
      ("input_names", .name (pointer p (.pins .inputs))),
      ("outputs", .number p.outputCount.toNat),
      ("output_names", .name (pointer p (.pins .outputs)))] := by
  have hreference {α : Type} {xs : List α} {a : Part} (h : xs = [] ↔ p.strings a = []) :
      Source.reference xs (p.symbol a) = pointer p a := by
    simp only [Source.reference, List.isEmpty_iff, pointer, h]
  rw [← hreference (a := .attributeNames) List.map_eq_nil_iff.symm,
    ← hreference (a := .attributeDefaults) List.map_eq_nil_iff.symm,
    ← hreference (a := .pins .inputs) p.inputNames_eq_nil_iff.symm,
    ← hreference (a := .pins .outputs) p.outputNames_eq_nil_iff.symm]
  rfl

/-- A record names the array of a part, or nothing if there are no strings for it. -/
theorem name?_recordOf (a : Part) : (Source.recordOf p).name? a.field = some (pointer p a) := by
  rw [recordOf_eq]
  cases a with
  | attributeNames => rfl
  | attributeDefaults => rfl
  | pins d => cases d <;> rfl

/-- The symbols in a record are the tag of its type and what it names for the parts. -/
theorem symbols_recordOf : (Source.recordOf p).symbols =
    "NETLIST_PRIMITIVE_INTERNAL" :: Part.all.map (pointer p) := by
  rw [recordOf_eq]
  rfl

/-- The lengths in a record are the numbers of the strings. -/
theorem number?_recordOf (h : p.IsValid) (hw : p.WidthsFit) (a : Part) :
    (Source.recordOf p).number? a.lengthField = some (p.strings a).length := by
  cases a with
  | attributeNames =>
    rw [Primitive.strings, List.length_map]
    rfl
  | attributeDefaults =>
    rw [Primitive.strings, List.length_map]
    rfl
  | pins d =>
    cases d with
    | inputs =>
      rw [Primitive.strings, Primitive.pinNames, ← Primitive.toNat_inputCount h hw]
      rfl
    | outputs =>
      rw [Primitive.strings, Primitive.pinNames, ← Primitive.toNat_outputCount h hw]
      rfl

/-- **Following a record leads to the strings of the primitive.** -/
theorem list?_recordOf {t : List Primitive} (h : Valid t) (hp : p ∈ t) (a : Part) :
    (Source.recordOf p).list? (stringArrays.all t) a = some (p.strings a) := by
  have hlookup : (stringArrays.all t).lookup (p.symbol a) =
      if p.strings a = [] then none else some (p.strings a) := by
    have hvalues : valuesOf (p.symbol a) (stringArrays.all t) =
        if decide (p.strings a ≠ []) then [p.strings a] else [] :=
      stringArrays.valuesOf_all h.names hp a
    rw [lookup_eq_head?_valuesOf, hvalues]
    by_cases hempty : p.strings a = []
    · simp [hempty]
    · simp [hempty]
  rw [Record.list?, name?_recordOf, Option.bind_some, pointer]
  by_cases hempty : p.strings a = []
  · simp [hempty]
  · rw [if_neg hempty, if_neg (Primitive.symbol_ne_null a), hlookup, if_neg hempty]

end Record

end Table

end NetlistTables
