import Mathlib.Data.List.Forall2
import NetlistTables.Proofs.Table.Symbols

/-!
# The source can be read back

Reading the source file of a valid table gives back what the table says of each primitive: its
name, its attributes with their default values, and its sub-pins. Nothing else of a table enters the
source, so two tables have the same source just if they agree on these.
-/

namespace NetlistTables

namespace Primitive

/-- What the source says of a primitive. -/
def entry (p : Primitive) : Reading.Entry where
  name := p.name
  attributes := p.attributes.map fun a => (a.name, a.default)
  inputs := p.inputNames
  outputs := p.outputNames
  attributeCount := p.attributes.length
  inputCount := p.inputNames.length
  outputCount := p.outputNames.length

/-- Two primitives that differ at most in how their pins are gathered into buses. -/
structure Agrees (p q : Primitive) : Prop where
  name : p.name = q.name
  attributes : p.attributes = q.attributes
  inputNames : p.inputNames = q.inputNames
  outputNames : p.outputNames = q.outputNames

theorem Agrees.of_entry_eq {p q : Primitive} (h : p.entry = q.entry) : p.Agrees q := by
  simp only [entry, Reading.Entry.mk.injEq] at h
  obtain ⟨hname, hattributes, hinputs, houtputs, -⟩ := h
  refine ⟨hname, ?_, hinputs, houtputs⟩
  refine (List.map_inj_right fun a b hab => ?_).1 hattributes
  obtain ⟨hn, hd⟩ := Prod.mk.inj hab
  rw [Attribute.mk.injEq]
  exact ⟨hn, hd⟩

end Primitive

namespace Table

open Reading

/-! ## From the table to the source and back -/

/-- The record of a primitive stands for its entry. -/
theorem ofRecord?_recordOf {t : List Primitive} (h : Valid t) {p : Primitive} (hp : p ∈ t)
    (hw : p.WidthsFit) :
    Entry.ofRecord? (stringArrays.all t) (Source.recordOf p) = some p.entry := by
  have hlist := list?_recordOf h hp
  have hnumber := number?_recordOf (h.primitives p hp) hw
  have hlength : (p.attributes.map (·.name)).length = (p.attributes.map (·.default)).length := by
    rw [List.length_map, List.length_map]
  have hzip : (p.attributes.map (·.name)).zip (p.attributes.map (·.default)) =
      p.attributes.map fun a => (a.name, a.default) := by
    rw [List.zip_map']
  simp only [Entry.ofRecord?, text?_recordOf, hlist, hnumber, Option.bind_eq_bind,
    Option.bind_some, Primitive.strings, Primitive.pinNames]
  rw [if_pos hlength, hzip, List.length_map]
  rfl

/-- Reading the source gives the entries of the primitives, in order. -/
theorem readTable_file {t : List Primitive} (h : Valid t) (hw : ∀ p ∈ t, p.WidthsFit) :
    readTable (file .source t) = some (t.map Primitive.entry) := by
  rw [readTable, readFile_source h, Option.bind_eq_bind, Option.bind_some, recordsOf_items,
    Option.bind_eq_bind, Option.bind_some, arrays_items]
  exact mapM_map_eq_some fun p hp => ofRecord?_recordOf h hp (hw p hp)

/-! ## Tables with the same source -/

section Agreement

variable {p q : Primitive}

theorem Source.block_eq_of_agrees (h : p.Agrees q) : Source.block p = Source.block q := by
  have hinputs : p.inputs = [] ↔ q.inputs = [] := by
    rw [← p.inputNames_eq_nil_iff, h.inputNames, q.inputNames_eq_nil_iff]
  have houtputs : p.outputs = [] ↔ q.outputs = [] := by
    rw [← p.outputNames_eq_nil_iff, h.outputNames, q.outputNames_eq_nil_iff]
  simp only [Source.block, Source.arrays, Primitive.attributeNamesSymbol,
    Primitive.attributeDefaultsSymbol, Primitive.inputsSymbol, Primitive.outputsSymbol, h.name,
    h.attributes, h.inputNames, h.outputNames, hinputs, houtputs]

theorem Source.record_eq_of_agrees (hp : p.IsValid) (hpw : p.WidthsFit) (hq : q.IsValid)
    (hqw : q.WidthsFit) (h : p.Agrees q) :
    Source.record .standard p = Source.record .standard q := by
  have hinputs : p.inputs = [] ↔ q.inputs = [] := by
    rw [← p.inputNames_eq_nil_iff, h.inputNames, q.inputNames_eq_nil_iff]
  have houtputs : p.outputs = [] ↔ q.outputs = [] := by
    rw [← p.outputNames_eq_nil_iff, h.outputNames, q.outputNames_eq_nil_iff]
  have hinputCount : p.inputCount = q.inputCount := by
    rw [← UInt64.toNat_inj, Primitive.toNat_inputCount hp hpw, Primitive.toNat_inputCount hq hqw,
      h.inputNames]
  have houtputCount : p.outputCount = q.outputCount := by
    rw [← UInt64.toNat_inj, Primitive.toNat_outputCount hp hpw,
      Primitive.toNat_outputCount hq hqw, h.outputNames]
  simp only [Source.record, Source.reference, List.isEmpty_iff, Primitive.attributeNamesSymbol,
    Primitive.attributeDefaultsSymbol, Primitive.inputsSymbol, Primitive.outputsSymbol, h.name,
    h.attributes, hinputs, houtputs, hinputCount, houtputCount]

end Agreement

theorem flatMap_eq_of_forall₂ {α β : Type} {R : α → α → Prop} {f : α → List β} {xs ys : List α}
    (h : List.Forall₂ R xs ys) (hf : ∀ x ∈ xs, ∀ y ∈ ys, R x y → f x = f y) :
    xs.flatMap f = ys.flatMap f := by
  induction h with
  | nil => rfl
  | cons hxy _ ih =>
    rw [List.flatMap_cons, List.flatMap_cons, hf _ (by simp) _ (by simp) hxy]
    rw [ih fun x hx y hy => hf x (by simp [hx]) y (by simp [hy])]

/-- Tables that agree have the same source. -/
theorem file_eq_of_agrees {t u : List Primitive} (ht : Valid t) (htw : ∀ p ∈ t, p.WidthsFit)
    (hu : Valid u) (huw : ∀ q ∈ u, q.WidthsFit) (h : List.Forall₂ Primitive.Agrees t u) :
    file .source t = file .source u := by
  have hblocks : t.flatMap Source.block = u.flatMap Source.block :=
    flatMap_eq_of_forall₂ h fun _ _ _ _ => Source.block_eq_of_agrees
  have hrecords : t.flatMap (Source.record .standard) = u.flatMap (Source.record .standard) :=
    flatMap_eq_of_forall₂ h fun p hp q hq => Source.record_eq_of_agrees (ht.primitives p hp)
      (htw p hp) (hu.primitives q hq) (huw q hq)
  have hscript : FileKind.source.script .standard t = FileKind.source.script .standard u := by
    rw [FileKind.script, Source.script, Source.script, Source.tableDefinition,
      Source.tableDefinition, hblocks, hrecords]
  rw [file, file, emit, emit, hscript]

/-- Tables with the same source agree, since they are read back from it. -/
theorem agrees_of_file_eq {t u : List Primitive} (ht : Valid t) (htw : ∀ p ∈ t, p.WidthsFit)
    (hu : Valid u) (huw : ∀ q ∈ u, q.WidthsFit) (h : file .source t = file .source u) :
    List.Forall₂ Primitive.Agrees t u := by
  have hentries : some (t.map Primitive.entry) = some (u.map Primitive.entry) := by
    calc some (t.map Primitive.entry)
      _ = readTable (file .source t) := (readTable_file ht htw).symm
      _ = readTable (file .source u) := by rw [h]
      _ = some (u.map Primitive.entry) := readTable_file hu huw
  have hforall : List.Forall₂ (· = ·) (t.map Primitive.entry) (u.map Primitive.entry) := by
    rw [List.forall₂_eq_eq_eq]
    exact Option.some.inj hentries
  rw [List.forall₂_map_left_iff, List.forall₂_map_right_iff] at hforall
  exact hforall.imp fun _ _ => Primitive.Agrees.of_entry_eq

/-- **The source says what a table says of its primitives, and nothing else.** The emission of a
valid table succeeds, reading the source gives back the entries of the primitives, and another valid
table has the same source just if the two agree, primitive by primitive. -/
theorem source_roundTrip {t : List Primitive} (h : validate t = .ok ())
    (hw : ∀ p ∈ t, p.WidthsFit) :
    (emit .source .standard t Output.Device.unlimited).result = .ok () ∧
      readTable (file .source t) = some (t.map Primitive.entry) ∧
      ∀ u, validate u = .ok () → (∀ q ∈ u, q.WidthsFit) →
        (file .source t = file .source u ↔ List.Forall₂ Primitive.Agrees t u) := by
  have ht := validate_eq_ok_iff_valid.1 h
  refine ⟨(emit_unlimited .source .standard t).1, readTable_file ht hw, fun u hu huw => ?_⟩
  have hu := validate_eq_ok_iff_valid.1 hu
  constructor
  · exact agrees_of_file_eq ht hw hu huw
  · exact file_eq_of_agrees ht hw hu huw

theorem source_roundTrip_sample :
    (validate sample = .ok () ∧ ∀ p ∈ sample, p.WidthsFit) ∧
      readTable (file .source sample) = some
        [⟨"RAM", [("INIT", "\"\\\n\t\r\x00\x7b\x7d,;")], ["A_0", "A_1", "D"], ["O"], 1, 3, 1⟩,
          ⟨"VCC", [], [], ["P"], 0, 0, 1⟩] := by
  have hw : ∀ p ∈ sample, p.WidthsFit := by decide
  exact ⟨⟨rfl, hw⟩, (source_roundTrip rfl hw).2.1⟩

end Table

end NetlistTables
