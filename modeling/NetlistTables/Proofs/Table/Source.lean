import NetlistTables.Proofs.Expansion
import NetlistTables.Proofs.Table.Emitted

/-!
# What the source says

The source file of a valid table, read back as C. `Source.items` lists the items of the file, part
by part as it is built up, and `readFile_source` says that this is what a reader finds in the bytes
that an emission has stored. All that is proved of the source goes by this list.
-/

namespace NetlistTables.Table

open Code Reading

/-! ## Arrays of strings -/

namespace Source

theorem reads_stringArray {symbol : String} (h : isIdentifier symbol) (values : List String) :
    Reads (stringArray symbol values) [.strings symbol values] := by
  -- the tokens of the fragments, from the declaration to the end of the list
  have hhead : Scans .nothing ("static char *" ++ symbol).toList
      [.word "static", .word "char", .mark '*'] (.word symbol.toList) := by
    have hstart : Scans .nothing "static char *".toList
        [.word "static", .word "char", .mark '*'] .nothing := rfl
    rw [String.toList_append]
    exact hstart.append (scans_identifier h)
  have hline : '\n' ∉ ("static char *" ++ symbol).toList := by
    simp [lineFeed_notMem_of_isIdentifier h]
  have hspells := ((spells_arrayOpen hline hhead).append
    (Spells.map fun v (_ : v ∈ values) => spells_stringElement v)).append spells_blockClose
  -- and the declaration that they make up
  have hplain : Builds [.word "static", .word "char", .mark '*', .word symbol, .mark '[',
      .mark ']', .mark '='] _ := .plain rfl
  have hbraces : Builds _ [.braces (values.map fun v => [.leaf (.text v)])] :=
    .braces fun v _ => .plain (rfl : [Token.text v].all Token.isPlain)
  have helements : (values.map fun v => [Tree.leaf (.text v)]).mapM string? = some values := by
    simpa using mapM_map_eq_some (g := string?) (h := fun v => v) fun v (_ : v ∈ values) => rfl
  have hitem : Declares _ [.strings symbol values] :=
    .declaration (hplain.append hbraces) (by simp [item?, helements])
  exact ⟨_, hspells, by simpa using hitem⟩

/-- The items of the string arrays of a primitive. -/
def arrayItems (p : Primitive) : List Item :=
  (if p.attributes = [] then [] else
    [.strings p.attributeNamesSymbol (p.attributes.map (·.name)),
      .strings p.attributeDefaultsSymbol (p.attributes.map (·.default))]) ++
  (if p.inputs = [] then [] else [.strings p.inputsSymbol p.inputNames]) ++
  (if p.outputs = [] then [] else [.strings p.outputsSymbol p.outputNames])

/-- The symbols of a primitive are its name, lengthened. -/
theorem isIdentifier_symbol {p : Primitive} (h : p.IsValid) {s : String}
    (hs : s.toList.all isIdentifierTail := by decide) : isIdentifier (p.name ++ s) :=
  isIdentifier_append h.name.isIdentifier (List.all_eq_true.1 hs)

theorem reads_arrays {p : Primitive} (h : p.IsValid) : Reads (arrays p) (arrayItems p) := by
  refine .append (.append ?_ ?_) ?_
  · split
    · exact .nil
    · exact (reads_stringArray (isIdentifier_symbol h) _).append
        (reads_stringArray (isIdentifier_symbol h) _)
  · split
    · exact .nil
    · exact reads_stringArray (isIdentifier_symbol h) _
  · split
    · exact .nil
    · exact reads_stringArray (isIdentifier_symbol h) _

/-- The items of what the source holds of a primitive before the table. -/
def blockItems (p : Primitive) : List Item := .comment (" " ++ p.name ++ " ") :: arrayItems p

theorem reads_block {p : Primitive} (h : p.IsValid) :
    Reads (fragments (block p)) (blockItems p) := by
  have hstar : '*' ∉ p.name.toList := notMem_of_isIdentifier h.name.isIdentifier rfl
  have hline := lineFeed_notMem_of_isIdentifier h.name.isIdentifier
  have hblock : fragments (block p) = .blank :: .comment p.name :: arrays p := fragments_map_put _
  rw [hblock]
  exact .cons .blank (.cons (.comment hstar hline) (reads_arrays h))

/-! ## Records -/

/-- The fields of the record of a primitive but the last. -/
def leadingFields (p : Primitive) : Record :=
  [("type", .name "NETLIST_PRIMITIVE_INTERNAL"),
    ("name", .text p.name),
    ("attribute_count", .number p.attributes.length),
    ("attribute_names", .name (reference p.attributes p.attributeNamesSymbol)),
    ("default_attributes", .name (reference p.attributes p.attributeDefaultsSymbol)),
    ("inputs", .number p.inputCount.toNat),
    ("input_names", .name (reference p.inputs p.inputsSymbol)),
    ("outputs", .number p.outputCount.toNat)]

/-- The last field of the record of a primitive. -/
def lastField (p : Primitive) : String × Value :=
  ("output_names", .name (reference p.outputs p.outputsSymbol))

/-- The record of a primitive. -/
def recordOf (p : Primitive) : Record := leadingFields p ++ [lastField p]

/-- The text of a value. -/
def valueText : Value → String
  | .name s => s
  | .number n => toString n
  | .text s => "\"" ++ s ++ "\""

/-- The token of a value. -/
def valueToken : Value → Token
  | .name s => .word s
  | .number n => .number n
  | .text s => .text s

/-- The tree of a field. -/
def fieldTree (f : String × Value) : List Tree := (fieldTokens f.1 (valueToken f.2)).map .leaf

theorem builds_field (f : String × Value) :
    Builds (fieldTokens f.1 (valueToken f.2)) (fieldTree f) := by
  refine .plain ?_
  cases hf : f.2 <;> rfl

theorem field?_fieldTree (f : String × Value) : field? (fieldTree f) = some f := by
  obtain ⟨name, v⟩ := f
  cases v <;> rfl

theorem isIdentifier_reference {α : Type} (xs : List α) {s : String} (h : isIdentifier s) :
    isIdentifier (reference xs s) := by
  unfold reference
  split
  · decide
  · exact h

/-- The tokens of the record of a primitive, without the comma that follows it. -/
def recordTokens (p : Primitive) : List Token :=
  .mark '\x7b' :: ((leadingFields p).flatMap fun f =>
    fieldTokens f.1 (valueToken f.2) ++ [.mark ',']) ++
    fieldTokens (lastField p).1 (valueToken (lastField p).2) ++ [.mark '\x7d']

/-- The names of the fields of every record, in order. -/
def fieldNames : List String :=
  ["type", "name", "attribute_count", "attribute_names", "default_attributes", "inputs",
    "input_names", "outputs", "output_names"]

theorem isIdentifier_of_mem_recordOf {p : Primitive} {f : String × Value} (hf : f ∈ recordOf p) :
    isIdentifier f.1 := by
  have hnames : (recordOf p).map (·.1) = fieldNames := rfl
  have hall : ∀ name ∈ fieldNames, isIdentifier name := by decide
  exact hall _ (hnames ▸ List.mem_map_of_mem hf)

/-- What the fields of the record of a valid primitive are set to can be read back. -/
theorem isSpelling_of_mem_recordOf {p : Primitive} (h : p.IsValid) {f : String × Value}
    (hf : f ∈ recordOf p) : IsSpelling (valueText f.2) (valueToken f.2) := by
  simp only [recordOf, leadingFields, lastField, List.mem_append, List.mem_cons, List.not_mem_nil,
    or_false] at hf
  rcases hf with (rfl | rfl | rfl | rfl | rfl | rfl | rfl | rfl) | rfl
  · exact isSpelling_word (by decide)
  · exact isSpelling_text h.name.isIdentifier
  · exact isSpelling_number _
  · exact isSpelling_word (isIdentifier_reference _ (isIdentifier_symbol h))
  · exact isSpelling_word (isIdentifier_reference _ (isIdentifier_symbol h))
  · exact isSpelling_number _
  · exact isSpelling_word (isIdentifier_reference _ (isIdentifier_symbol h))
  · exact isSpelling_number _
  · exact isSpelling_word (isIdentifier_reference _ (isIdentifier_symbol h))

theorem spells_record {p : Primitive} (h : p.IsValid) :
    Spells (record .standard p) (recordTokens p ++ [.mark ',']) := by
  have hrecord : record .standard p = .elementOpen ::
      ((leadingFields p).map fun f => .field f.1 (valueText f.2) false) ++
        [.field (lastField p).1 (valueText (lastField p).2) true] ++ [.elementClose] := rfl
  have hleading : Spells ((leadingFields p).map fun f => .field f.1 (valueText f.2) false)
      ((leadingFields p).flatMap fun f => fieldTokens f.1 (valueToken f.2) ++ [.mark ',']) := by
    refine .map fun f hf => ?_
    have hmem : f ∈ recordOf p := List.mem_append_left _ hf
    exact spells_field (isIdentifier_of_mem_recordOf hmem) (isSpelling_of_mem_recordOf h hmem) false
  have hlast : Spells [.field (lastField p).1 (valueText (lastField p).2) true]
      (fieldTokens (lastField p).1 (valueToken (lastField p).2)) := by
    have hmem : lastField p ∈ recordOf p := by simp [recordOf]
    exact spells_field (isIdentifier_of_mem_recordOf hmem) (isSpelling_of_mem_recordOf h hmem) true
  have hall := ((spells_elementOpen.append hleading).append hlast).append spells_elementClose
  rw [hrecord]
  simpa [recordTokens] using hall

theorem builds_record (p : Primitive) :
    Builds (recordTokens p) [.braces ((recordOf p).map fieldTree)] := by
  rw [recordOf, List.map_append]
  exact .braces_last (fun f _ => builds_field f) (builds_field _) (by simp [fieldTree, fieldTokens])

theorem record?_braces (p : Primitive) :
    record? [.braces ((recordOf p).map fieldTree)] = some (recordOf p) := by
  rw [record?, mapM_map_eq_some fun f _ => field?_fieldTree f, List.map_id']

theorem reads_tableDefinition {t : List Primitive} (h : Valid t) :
    Reads (tableDefinition .standard t)
      [.records "netlist_primitive" "netlist_xilprims" (t.map recordOf)] := by
  have hhead : Scans .nothing "struct netlist_primitive netlist_xilprims".toList
      [.word "struct", .word "netlist_primitive"] (.word "netlist_xilprims".toList) := rfl
  have hopening := spells_blank.append (spells_blank.append (spells_arrayOpen (by decide) hhead))
  have hrecords : Spells (t.flatMap (record .standard)) _ :=
    .flatMap fun p hp => spells_record (h.primitives p hp)
  have hspells := (hopening.append hrecords).append spells_blockClose
  have hplain : Builds [.word "struct", .word "netlist_primitive", .word "netlist_xilprims",
      .mark '[', .mark ']', .mark '='] _ := .plain rfl
  have hbraces : Builds _ [.braces (t.map fun p => [.braces ((recordOf p).map fieldTree)])] :=
    .braces fun p _ => builds_record p
  have helements : (t.map fun p => [Tree.braces ((recordOf p).map fieldTree)]).mapM record? =
      some (t.map recordOf) := mapM_map_eq_some fun p _ => record?_braces p
  have hitem : Declares _ [.records "netlist_primitive" "netlist_xilprims" (t.map recordOf)] :=
    .declaration (hplain.append hbraces) (by simp [item?, helements])
  exact ⟨_, hspells, by simpa using hitem⟩

/-! ## The source file -/

/-- The items of the source before the string arrays. -/
def openingItems : List Item :=
  [.comment " Generated automatically by mk_xilprims. Do not edit manually! ",
    .directive "include <stdlib.h>", .directive "include <netlist/net.h>",
    .directive "include <netlist/xilprims.h>"]

/-- The items of the source before the table. -/
def itemsBefore (t : List Primitive) : List Item := openingItems ++ t.flatMap blockItems

/-- The items of the source file of a table. -/
def items (t : List Primitive) : List Item :=
  itemsBefore t ++ [.records "netlist_primitive" "netlist_xilprims" (t.map recordOf)]

theorem reads_opening : Reads (opening .standard) openingItems :=
  .cons (.comment (by decide) (by decide)) (.cons (.directive rfl (by decide))
    (.cons (.directive rfl (by decide)) (.directive rfl (by decide))))

theorem reads_script {t : List Primitive} (h : Valid t) :
    Reads (fragments (script .standard t)) (items t) := by
  rw [script, fragments_append, fragments_append, fragments_map_put, fragments_flatMap,
    fragments_map_put]
  exact (reads_opening.append (.flatMap fun p hp => reads_block (h.primitives p hp))).append
    (reads_tableDefinition h)

end Source

/-- **The source file of a valid table is read as its items.** -/
theorem readFile_source {t : List Primitive} (h : Valid t) :
    readFile (file .source t) = some (Source.items t) :=
  readFile_of_reads (Source.reads_script h)

end NetlistTables.Table
