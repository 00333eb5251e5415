import NetlistTables.Proofs.Table.Valid

/-!
# The expansion of pins

The sub-pins of the pins of a valid primitive are named by identifiers, and there are as many as
the widths of the pins add up to; so the counts in the records are the lengths of the lists of
sub-pins, as long as they fit in a word.
-/

namespace NetlistTables

open Code

namespace Pin

/-- The sum of the widths of some pins, without bounds. -/
def widthSum : List Pin → Nat
  | [] => 0
  | p :: pins => p.width.toNat + widthSum pins

/-- Every sub-pin of a bus is named by the bus and a number. -/
theorem mem_expand {p : Pin} {s : String} (h : s ∈ p.expand) :
    s = p.name ∨ ∃ k, s = p.name ++ "_" ++ toString (k : Nat) := by
  by_cases hp : 1 < p.width
  · rw [expand_of_lt hp, List.mem_map] at h
    obtain ⟨k, -, rfl⟩ := h
    exact .inr ⟨k, rfl⟩
  · rw [expand_of_le (UInt32.not_lt.1 hp), List.mem_singleton] at h
    exact .inl h

theorem isIdentifier_of_mem_expandAll {pins : List Pin} (h : ∀ p ∈ pins, p.IsValid) {s : String}
    (hs : s ∈ expandAll pins) : isIdentifier s := by
  obtain ⟨p, hp, hs⟩ := List.mem_flatMap.1 hs
  have hname := (h p hp).name.isIdentifier
  rcases mem_expand hs with rfl | ⟨k, rfl⟩
  · exact hname
  · rw [String.append_assoc]
    refine isIdentifier_append hname fun c hc => ?_
    have hc : c = '_' ∨ c ∈ Nat.toDigits 10 k := by simpa using hc
    rcases hc with rfl | hc
    · decide
    · exact isIdentifierTail_of_isDigit (isDigit_of_mem_toDigits hc)

/-- A pin always has a sub-pin. -/
theorem expandAll_eq_nil_iff {pins : List Pin} : expandAll pins = [] ↔ pins = [] := by
  constructor
  · intro h
    cases pins with
    | nil => rfl
    | cons p pins =>
      have := congrArg List.length h
      rw [expandAll, List.flatMap_cons, List.length_append, length_expand, List.length_nil] at this
      omega
  · rintro rfl
    rfl

/-- A pin without bits has a sub-pin that its width does not count. -/
theorem length_expandAll_eq_add (pins : List Pin) :
    (expandAll pins).length = widthSum pins + pins.countP (·.width = 0) := by
  induction pins with
  | nil => rfl
  | cons p pins ih =>
    have hzero : p.width = 0 ↔ p.width.toNat = 0 := UInt32.toNat_inj.symm
    rw [expandAll] at ih ⊢
    rw [List.flatMap_cons, List.length_append, length_expand, widthSum, List.countP_cons, ih]
    simp only [hzero, decide_eq_true_eq]
    split
    next h => omega
    next h => omega

theorem length_expandAll {pins : List Pin} (h : ∀ p ∈ pins, p.width ≠ 0) :
    (expandAll pins).length = widthSum pins := by
  have hnone : pins.countP (·.width = 0) = 0 :=
    List.countP_eq_zero.2 fun p hp => by simpa using h p hp
  rw [length_expandAll_eq_add, hnone, Nat.add_zero]

/-- The sum of the widths as a word is the sum modulo the range of a word. -/
theorem toNat_totalWidth (pins : List Pin) :
    (totalWidth pins).toNat = widthSum pins % UInt64.size := by
  have hfold (total : UInt64) : (pins.foldl (fun total p => total + p.width.toUInt64) total).toNat =
      (total.toNat + widthSum pins) % UInt64.size := by
    induction pins generalizing total with
    | nil => simp [widthSum, Nat.mod_eq_of_lt total.toNat_lt]
    | cons p pins ih =>
      rw [List.foldl_cons, ih, UInt64.toNat_add, UInt32.toNat_toUInt64]
      show ((total.toNat + p.width.toNat) % UInt64.size + widthSum pins) % UInt64.size =
        (total.toNat + (p.width.toNat + widthSum pins)) % UInt64.size
      rw [Nat.mod_add_mod, Nat.add_assoc]
  rw [totalWidth, hfold, UInt64.toNat_zero, Nat.zero_add]

end Pin

namespace Primitive

/-- The widths of the inputs and of the outputs of a primitive each add up to a word. -/
def WidthsFit (p : Primitive) : Prop :=
  Pin.widthSum p.inputs < UInt64.size ∧ Pin.widthSum p.outputs < UInt64.size

instance (p : Primitive) : Decidable p.WidthsFit := inferInstanceAs (Decidable (_ ∧ _))

variable {p : Primitive}

theorem toNat_inputCount (h : p.IsValid) (hw : p.WidthsFit) :
    p.inputCount.toNat = p.inputNames.length := by
  rw [inputCount, inputNames, Pin.toNat_totalWidth, Nat.mod_eq_of_lt hw.1,
    Pin.length_expandAll fun q hq => (h.inputs q hq).width_ne]

theorem toNat_outputCount (h : p.IsValid) (hw : p.WidthsFit) :
    p.outputCount.toNat = p.outputNames.length := by
  rw [outputCount, outputNames, Pin.toNat_totalWidth, Nat.mod_eq_of_lt hw.2,
    Pin.length_expandAll fun q hq => (h.outputs q hq).width_ne]

end Primitive

/-- A memory whose address is a bus, and a constant, which has no inputs. The default value of the
attribute holds what C does not take as it stands in a literal. -/
def Table.sample : List Primitive :=
  [⟨"RAM", [⟨"INIT", "\"\\\n\t\r\x00\x7b\x7d,;"⟩], [⟨2, "A"⟩, .bit "D"], [.bit "O"]⟩,
    ⟨"VCC", [], [], [.bit "P"]⟩]

end NetlistTables
