import NetlistTables.Proofs.Code.Nesting
import NetlistTables.Proofs.Table.Header
import NetlistTables.Proofs.Table.Source

/-!
# The nesting of a file

The arrays, the records and the enumerations of a file are groups of fragments that open a list and
close it again. The names in a valid table leave the fragments legible, and the default values of
attributes do so whatever they hold, since they stand inside of literals. So the lines of a file are
indented as the braces in them are nested (`indented_by_nesting`).
-/

namespace NetlistTables.Table

open Code Code.Fragment Reading Writer

/-! ## The source file -/

namespace Source

theorem orderly_stringArray {symbol : String} (h : isIdentifier symbol) (values : List String) :
    Orderly (stringArray symbol values) := by
  have hline : '\n' ∉ ("static char *" ++ symbol).toList := by
    simp [lineFeed_notMem_of_isIdentifier h]
  have hopen : (arrayOpen ("static char *" ++ symbol)).IsLegible :=
    isLegible_arrayOpen (c := 's') hline (by simp) (by decide)
  exact .group hopen rfl (.map (fun v _ => isLegible_stringElement v) fun _ => rfl) (by decide) rfl

theorem orderly_arrays {p : Primitive} (h : p.IsValid) : Orderly (arrays p) := by
  refine .append (.append ?_ ?_) ?_
  · split
    · exact .nil
    · exact (orderly_stringArray (isIdentifier_symbol h) _).append
        (orderly_stringArray (isIdentifier_symbol h) _)
  · split
    · exact .nil
    · exact orderly_stringArray (isIdentifier_symbol h) _
  · split
    · exact .nil
    · exact orderly_stringArray (isIdentifier_symbol h) _

theorem orderly_block {p : Primitive} (h : p.IsValid) : Orderly (fragments (block p)) := by
  have hcomment : (comment p.name).IsLegible :=
    isLegible_comment (lineFeed_notMem_of_isIdentifier h.name.isIdentifier)
  have hblock : fragments (block p) = .blank :: .comment p.name :: arrays p := fragments_map_put _
  rw [hblock]
  exact .cons (by decide) rfl (.cons hcomment rfl (orderly_arrays h))

theorem orderly_record {p : Primitive} (h : p.IsValid) : Orderly (record .standard p) := by
  have hfield {f : String × Value} (hf : f ∈ recordOf p) (last : Bool)
      (hlast : last → isIdentifier (valueText f.2)) :
      (field f.1 (valueText f.2) last).IsLegible :=
    isLegible_field (lineFeed_notMem_of_isIdentifier (isIdentifier_of_mem_recordOf hf))
      (isSpelling_of_mem_recordOf h hf).oneLine hlast
  have hrecord : record .standard p = .elementOpen ::
      (((leadingFields p).map fun f => .field f.1 (valueText f.2) false) ++
        [.field (lastField p).1 (valueText (lastField p).2) true]) ++ [.elementClose] := rfl
  have hleading : Orderly ((leadingFields p).map fun f => .field f.1 (valueText f.2) false) :=
    .map (fun f hf => hfield (List.mem_append_left _ hf) false nofun) fun _ => rfl
  have hreference : isIdentifier (valueText (lastField p).2) :=
    isIdentifier_reference _ (isIdentifier_symbol h)
  have hlast := hfield (List.mem_append_right _ (List.mem_singleton_self _)) true
    fun _ => hreference
  rw [hrecord]
  exact .group (by decide) rfl (hleading.append (.flat hlast rfl)) (by decide) rfl

theorem orderly_tableDefinition {t : List Primitive} (h : Valid t) :
    Orderly (tableDefinition .standard t) := by
  have htable : tableDefinition .standard t = .blank :: .blank ::
      (.arrayOpen "struct netlist_primitive netlist_xilprims" :: t.flatMap (record .standard) ++
        [.blockClose]) := rfl
  rw [htable]
  exact .cons (by decide) rfl (.cons (by decide) rfl (.group (by decide) rfl
    (.flatMap fun p hp => orderly_record (h.primitives p hp)) (by decide) rfl))

theorem orderly_opening : Orderly (opening .standard) := by
  refine .cons (by decide) rfl (.map ?_ fun _ => rfl)
  decide

theorem orderly_script {t : List Primitive} (h : Valid t) :
    Orderly (fragments (script .standard t)) := by
  rw [script, fragments_append, fragments_append, fragments_map_put, fragments_flatMap,
    fragments_map_put]
  exact (orderly_opening.append (.flatMap fun p hp => orderly_block (h.primitives p hp))).append
    (orderly_tableDefinition h)

end Source

/-! ## The header file -/

namespace Header

theorem orderly_enumeration {names : List String} (h : ∀ s ∈ names, isIdentifier s) :
    Orderly (enumeration names) := by
  rw [enumeration, List.mapIdx_eq_zipIdx_map]
  refine .group (by decide) rfl (.map (fun m hm => ?_) fun _ => rfl) (by decide) rfl
  exact isLegible_enumerator (h m.1 (List.fst_mem_of_mem_zipIdx hm)) m.2

theorem orderly_block {p : Primitive} (h : p.IsValid) :
    Orderly (fragments (block .standard p)) := by
  have hcomment {s : String} (hs : '\n' ∉ s.toList) : (comment (p.name ++ s)).IsLegible := by
    refine isLegible_comment ?_
    simp [lineFeed_notMem_of_isIdentifier h.name.isIdentifier, hs]
  have hpins {pins : List Pin} (hvalid : ∀ pin ∈ pins, pin.IsValid) :
      Orderly (pinEnumeration .standard p (Pin.expandAll pins)) := by
    refine orderly_enumeration fun s hs => ?_
    obtain ⟨pin, hpin, rfl⟩ := List.mem_map.1 hs
    exact isIdentifier_pinEnumerator h (Pin.isIdentifier_of_mem_expandAll hvalid hpin)
  have hblock : fragments (block .standard p) = pinEnumerations .standard p := fragments_map_put _
  rw [hblock]
  refine .append ?_ ?_
  · split
    · exact .nil
    · exact .cons (by decide) rfl (.cons (hcomment (by decide)) rfl (hpins h.inputs))
  · split
    · exact .nil
    · exact .cons (hcomment (by decide)) rfl (hpins h.outputs)

theorem orderly_script {t : List Primitive} (h : Valid t) :
    Orderly (fragments (script .standard t)) := by
  have hmembers : ∀ s ∈ t.map Config.standard.primitiveEnumerator, isIdentifier s := by
    intro s hs
    obtain ⟨p, hp, rfl⟩ := List.mem_map.1 hs
    exact isIdentifier_primitiveEnumerator (h.primitives p hp)
  have hopening : Orderly (opening .standard) :=
    .cons (by decide) rfl (.cons (by decide) rfl (.cons (by decide) rfl (.flat (by decide) rfl)))
  have hclosing : Orderly (closing .standard) :=
    .cons (by decide) rfl (.cons (by decide) rfl (.cons (by decide) rfl (.flat (by decide) rfl)))
  rw [script, fragments_append, fragments_append, fragments_map_put, fragments_flatMap,
    fragments_map_put]
  exact ((hopening.append (orderly_enumeration hmembers)).append
    (.flatMap fun p hp => orderly_block (h.primitives p hp))).append hclosing

end Header

/-! ## Both files -/

/-- **The lines of a file are indented by their nesting.** What is emitted for a valid table is
nested from the left margin on: every line that is not empty begins with as many tabs as lists have
been opened by lines before it, less those closed by lines up to it and by itself; no line closes
more lists than are open; and at the end of the text all are closed. -/
theorem indented_by_nesting {t : List Primitive} (h : validate t = .ok ()) (kind : FileKind) :
    ∃ written : String, (emit kind .standard t Output.Device.unlimited).result = .ok () ∧
      (emit kind .standard t Output.Device.unlimited).sink.stored = written.toUTF8 ∧
      Nesting.Nested 0 (written.toList.splitOn '\n') := by
  have hvalid := validate_eq_ok_iff_valid.1 h
  have horderly : Orderly (fragments (kind.script .standard t)) := by
    cases kind with
    | source => exact Source.orderly_script hvalid
    | header => exact Header.orderly_script hvalid
  obtain ⟨hresult, hstored⟩ := emit_unlimited kind .standard t
  exact ⟨text kind .standard t, hresult, hstored, horderly.nested⟩

theorem indented_by_nesting_sample :
    validate sample = .ok () ∧ ∃ written : String,
      (emit .source .standard sample Output.Device.unlimited).sink.stored = written.toUTF8 ∧
      Nesting.Nested 0 (written.toList.splitOn '\n') := by
  obtain ⟨written, -, hstored, hnested⟩ := indented_by_nesting (t := sample) rfl .source
  exact ⟨rfl, written, hstored, hnested⟩

end NetlistTables.Table
