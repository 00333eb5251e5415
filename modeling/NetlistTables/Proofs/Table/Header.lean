import NetlistTables.Proofs.Expansion
import NetlistTables.Proofs.Table.Emitted

/-!
# What the header says

The header file of a valid table, read back as C. `Header.items` lists the items of the file, part
by part as it is built up, and `readFile_header` says that this is what a reader finds in the bytes
that an emission has stored. All that is proved of the header goes by this list.
-/

namespace NetlistTables.Table

open Code Reading

namespace Header

/-! ## Enumerations -/

theorem reads_enumeration {names : List String} (h : ∀ s ∈ names, isIdentifier s) :
    Reads (enumeration names) [.enumeration names.zipIdx] := by
  have hmembers : names.mapIdx (fun k name => Fragment.enumerator name (some k)) =
      names.zipIdx.map fun m => .enumerator m.1 (some m.2) := by
    rw [List.mapIdx_eq_zipIdx_map]
  have hspells := (spells_enumOpen.append (Spells.map fun m (hm : m ∈ names.zipIdx) =>
    spells_enumerator (h m.1 (List.fst_mem_of_mem_zipIdx hm)) m.2)).append spells_blockClose
  have hplain : Builds [.word "enum"] _ := .plain rfl
  have hbraces : Builds _ [.braces (names.zipIdx.map fun m =>
      [.leaf (.word m.1), .leaf (.mark '='), .leaf (.number m.2)])] :=
    .braces fun m _ => .plain (rfl : [Token.word m.1, .mark '=', .number m.2].all Token.isPlain)
  have helements : (names.zipIdx.map fun m =>
      [Tree.leaf (.word m.1), .leaf (.mark '='), .leaf (.number m.2)]).mapM member? =
        some names.zipIdx := by
    simpa using mapM_map_eq_some (g := member?) (h := fun m => m)
      fun m (_ : m ∈ names.zipIdx) => rfl
  have hitem : Declares _ [.enumeration names.zipIdx] :=
    .declaration (hplain.append hbraces) (by simp [item?, helements])
  refine ⟨_, by rw [enumeration, hmembers]; exact hspells, by simpa using hitem⟩

/-- The enumerators of the sub-pins `names` of a primitive, with their values. -/
def pinMembers (p : Primitive) (names : List String) : List (String × Nat) :=
  (names.map (Config.standard.pinEnumerator p)).zipIdx

/-- The items of the enumerations of the sub-pins of a primitive. -/
def blockItems (p : Primitive) : List Item :=
  (if p.inputs = [] then [] else
    [.comment (" " ++ (p.name ++ ": inputs") ++ " "), .enumeration (pinMembers p p.inputNames)]) ++
  (if p.outputs = [] then [] else
    [.comment (" " ++ (p.name ++ ": outputs") ++ " "), .enumeration (pinMembers p p.outputNames)])

theorem isIdentifier_primitiveEnumerator {p : Primitive} (h : p.IsValid) :
    isIdentifier (Config.standard.primitiveEnumerator p) :=
  isIdentifier_append (by decide) fun _ hc => isIdentifierTail_of_mem h.name.isIdentifier hc

theorem isIdentifier_pinEnumerator {p : Primitive} (h : p.IsValid) {s : String}
    (hs : isIdentifier s) : isIdentifier (Config.standard.pinEnumerator p s) := by
  have hunderscore : "_".toList.all isIdentifierTail := rfl
  refine isIdentifier_append ?_ fun _ hc => isIdentifierTail_of_mem hs hc
  exact isIdentifier_append (isIdentifier_primitiveEnumerator h) (List.all_eq_true.1 hunderscore)

theorem reads_block {p : Primitive} (h : p.IsValid) :
    Reads (fragments (block .standard p)) (blockItems p) := by
  have hcomment (s : String) (hstar : '*' ∉ s.toList) (hline : '\n' ∉ s.toList) :
      Reads [.comment (p.name ++ s)] [.comment (" " ++ (p.name ++ s) ++ " ")] := by
    have hstar' : '*' ∉ p.name.toList := notMem_of_isIdentifier h.name.isIdentifier rfl
    have hline' := lineFeed_notMem_of_isIdentifier h.name.isIdentifier
    refine .comment ?_ ?_
    · simp [hstar, hstar']
    · simp [hline, hline']
  have hpins {pins : List Pin} (hvalid : ∀ pin ∈ pins, pin.IsValid) :
      Reads (pinEnumeration .standard p (Pin.expandAll pins))
        [.enumeration (pinMembers p (Pin.expandAll pins))] := by
    refine reads_enumeration fun s hs => ?_
    obtain ⟨pin, hpin, rfl⟩ := List.mem_map.1 hs
    exact isIdentifier_pinEnumerator h (Pin.isIdentifier_of_mem_expandAll hvalid hpin)
  have hblock : fragments (block .standard p) = pinEnumerations .standard p := fragments_map_put _
  rw [hblock]
  refine .append ?_ ?_
  · split
    · exact .nil
    · exact .cons .blank (.cons (hcomment _ (by decide) (by decide)) (hpins h.inputs))
  · split
    · exact .nil
    · exact .cons (hcomment _ (by decide) (by decide)) (hpins h.outputs)

/-- The enumerators of the primitives, with their values. -/
def primitiveMembers (t : List Primitive) : List (String × Nat) :=
  (t.map Config.standard.primitiveEnumerator).zipIdx

/-- The items of the header before the enumerations of sub-pins. -/
def openingItems (t : List Primitive) : List Item :=
  [.comment " Generated automatically by mk_xilprims. Do not edit manually! ",
    .directive "ifndef __NETLIST_XILPRIMS_H", .directive "define __NETLIST_XILPRIMS_H",
    .enumeration (primitiveMembers t)]

/-- The items of the header behind the enumerations of sub-pins. -/
def closingItems : List Item :=
  [.external "netlist_primitive" "netlist_xilprims", .directive "endif /* __NETLIST_XILPRIMS_H */"]

/-- The items of the header file of a table. -/
def items (t : List Primitive) : List Item :=
  openingItems t ++ t.flatMap blockItems ++ closingItems

theorem reads_opening {t : List Primitive} (h : Valid t) :
    Reads (opening .standard ++ enumeration (t.map Config.standard.primitiveEnumerator))
      (openingItems t) := by
  have hmembers : ∀ s ∈ t.map Config.standard.primitiveEnumerator, isIdentifier s := by
    intro s hs
    obtain ⟨p, hp, rfl⟩ := List.mem_map.1 hs
    exact isIdentifier_primitiveEnumerator (h.primitives p hp)
  exact .cons (.comment (by decide) (by decide)) (.cons (.directive rfl (by decide))
    (.cons (.directive rfl (by decide)) (.cons .blank (reads_enumeration hmembers))))

theorem spells_external : Spells [.external "struct netlist_primitive netlist_xilprims[]"]
    [.word "extern", .word "struct", .word "netlist_primitive", .word "netlist_xilprims",
      .mark '[', .mark ']', .mark ';'] := .line (by decide) rfl

theorem reads_closing : Reads (closing .standard) closingItems := by
  have hplain : Builds [.word "extern", .word "struct", .word "netlist_primitive",
      .word "netlist_xilprims", .mark '[', .mark ']'] _ := .plain rfl
  have hexternal : Reads [.external "struct netlist_primitive netlist_xilprims[]"]
      [.external "netlist_primitive" "netlist_xilprims"] :=
    ⟨_, spells_external, .declaration hplain rfl⟩
  exact .cons .blank (.cons hexternal (.cons .blank (.directive rfl (by decide))))

theorem reads_script {t : List Primitive} (h : Valid t) :
    Reads (fragments (script .standard t)) (items t) := by
  rw [script, fragments_append, fragments_append, fragments_map_put, fragments_flatMap,
    fragments_map_put]
  exact ((reads_opening h).append (.flatMap fun p hp => reads_block (h.primitives p hp))).append
    reads_closing

end Header

/-- **The header file of a valid table is read as its items.** -/
theorem readFile_header {t : List Primitive} (h : Valid t) :
    readFile (file .header t) = some (Header.items t) :=
  readFile_of_reads (Header.reads_script h)

end NetlistTables.Table
