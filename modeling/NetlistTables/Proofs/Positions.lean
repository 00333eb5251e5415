import Mathlib
import NetlistTables.Proofs.Expansion

/-!
# Positions of sub-pins

The sub-pins of some pins are listed pin after pin, and those of a bus by their numbers. So the
position of a sub-pin is its number among those of its pin, behind as many as the pins before have,
each of which has one for every bit, but at least one. The count in a record is the sum of the
widths, and so it falls short of the length of the list by the number of the pins without bits,
which is what validation refuses (`expandAll_positions`).
-/

namespace NetlistTables

open Table

namespace Pin

/-- The number of sub-pins of some pins. -/
def subPinCount (pins : List Pin) : Nat := (pins.map fun p => max p.width.toNat 1).sum

theorem subPinCount_cons (p : Pin) (pins : List Pin) :
    subPinCount (p :: pins) = max p.width.toNat 1 + subPinCount pins := by
  rw [subPinCount, List.map_cons, List.sum_cons, subPinCount]

theorem length_expandAll_eq_subPinCount (pins : List Pin) :
    (expandAll pins).length = subPinCount pins := by
  induction pins with
  | nil => rfl
  | cons p pins ih =>
    rw [expandAll, List.flatMap_cons, List.length_append, length_expand, subPinCount_cons, ← ih]
    rfl

/-- The sub-pin of a number: a pin that is no bus has one sub-pin, of its own name. -/
theorem getElem?_expand {p : Pin} {k : Nat} (h : k < max p.width.toNat 1) :
    p.expand[k]? = some (if p.width ≤ 1 then p.name else p.name ++ "_" ++ toString k) := by
  by_cases hbus : p.width ≤ 1
  · have hwidth : p.width.toNat ≤ 1 := UInt32.le_iff_toNat_le.1 hbus
    have hk : k = 0 := by omega
    rw [expand_of_le hbus, if_pos hbus, hk]
    rfl
  · have hbus' : 1 < p.width := UInt32.not_le.1 hbus
    have hwidth : 1 < p.width.toNat := UInt32.lt_iff_toNat_lt.1 hbus'
    rw [expand_of_lt hbus', if_neg hbus, List.getElem?_map, List.getElem?_range (by omega)]
    rfl

theorem getElem?_expandAll {pins : List Pin} {i k : Nat} (hi : i < pins.length)
    (hk : k < max pins[i].width.toNat 1) :
    (expandAll pins)[subPinCount (pins.take i) + k]? = pins[i].expand[k]? := by
  induction pins generalizing i with
  | nil => simp at hi
  | cons p pins ih =>
    have hcons : expandAll (p :: pins) = p.expand ++ expandAll pins := List.flatMap_cons
    cases i with
    | zero =>
      have hlt : k < p.expand.length := by
        rw [length_expand]
        exact hk
      have hnone : subPinCount ((p :: pins).take 0) = 0 := rfl
      rw [hcons, hnone, Nat.zero_add, List.getElem?_append_left hlt]
      rfl
    | succ i =>
      have hlength := p.length_expand
      rw [hcons, List.take_succ_cons, subPinCount_cons, Nat.add_assoc,
        List.getElem?_append_right (by omega), hlength, Nat.add_sub_cancel_left]
      exact ih (Nat.lt_of_succ_lt_succ hi) hk

/-- The bits of a bus have different numbers. -/
theorem nodup_expand (p : Pin) : p.expand.Nodup := by
  by_cases hbus : p.width ≤ 1
  · rw [expand_of_le hbus]
    exact List.nodup_singleton _
  · rw [expand_of_lt (UInt32.not_le.1 hbus)]
    refine List.nodup_range.map fun j k (hjk : p.name ++ "_" ++ toString j = _) => ?_
    exact Nat.repr_injective ((String.append_right_inj _).1 hjk)

/-- Validation finds a pin without bits just if there is one. -/
theorem exists_zeroWidthPin_iff {pins : List Pin} {primitive kind : String} :
    (∃ pin, Failure.zeroWidthPin primitive pin ∈ pins.flatMap (pinFailures primitive kind)) ↔
      ∃ p ∈ pins, p.width = 0 := by
  have hname (context pin name : String) :
      Failure.zeroWidthPin primitive pin ∉ nameFailures context name := by
    unfold nameFailures
    split_ifs <;> simp
  constructor
  · rintro ⟨pin, hmem⟩
    obtain ⟨p, hp, hmem⟩ := List.mem_flatMap.1 hmem
    refine ⟨p, hp, ?_⟩
    by_contra hwidth
    rw [pinFailures, if_neg hwidth] at hmem
    exact hname _ pin p.name hmem
  · rintro ⟨p, hp, hwidth⟩
    refine ⟨p.name, List.mem_flatMap.2 ⟨p, hp, ?_⟩⟩
    rw [pinFailures, if_pos hwidth]
    exact .head _

/-- **Where the sub-pins of some pins stand, and how many there are.** The sub-pin `k` of the pin
`i` stands `k` places behind the sub-pins of the pins before; it has the name of the pin, with its
number behind it if the pin is a bus, and no two sub-pins of one pin have the same name. There are
as many sub-pins as the widths add up to, and one more for every pin without bits. So the sum of the
widths is the number of sub-pins just where validation finds no pin without bits. -/
theorem expandAll_positions (pins : List Pin) :
    (∀ i, (hi : i < pins.length) → ∀ k < max pins[i].width.toNat 1,
        (expandAll pins)[((pins.take i).map fun p => max p.width.toNat 1).sum + k]? =
          some (if pins[i].width ≤ 1 then pins[i].name
            else pins[i].name ++ "_" ++ toString k)) ∧
      (expandAll pins).length = (pins.map fun p => max p.width.toNat 1).sum ∧
      (∀ p ∈ pins, p.expand.Nodup) ∧
      (widthSum pins < UInt64.size →
        (expandAll pins).length = (totalWidth pins).toNat + pins.countP (·.width = 0) ∧
        ∀ primitive kind, (expandAll pins).length = (totalWidth pins).toNat ↔
          ¬ ∃ pin, Failure.zeroWidthPin primitive pin ∈
            pins.flatMap (pinFailures primitive kind)) := by
  refine ⟨fun i hi k hk => ?_, length_expandAll_eq_subPinCount pins, fun p _ => p.nodup_expand,
    fun hsum => ?_⟩
  · exact (getElem?_expandAll hi hk).trans (getElem?_expand hk)
  · have hcount : (totalWidth pins).toNat = widthSum pins := by
      rw [toNat_totalWidth, Nat.mod_eq_of_lt hsum]
    have hlength := length_expandAll_eq_add pins
    refine ⟨by rw [hcount, hlength], fun primitive kind => ?_⟩
    have hnone : pins.countP (·.width = 0) = 0 ↔ ¬ ∃ p ∈ pins, p.width = 0 := by
      simp [List.countP_eq_zero]
    rw [exists_zeroWidthPin_iff, ← hnone, hcount, hlength]
    omega

/-- The last bit of the second bus, behind a pin without bits. -/
theorem expandAll_positions_of_zero_width :
    let pins : List Pin := [⟨3, "A"⟩, ⟨0, "Z"⟩, ⟨12, "D"⟩]
    (2 < pins.length ∧ 11 < 12 ∧ widthSum pins < UInt64.size) ∧
      (expandAll pins)[3 + 1 + 11]? = some "D_11" ∧
      (expandAll pins).length = (totalWidth pins).toNat + 1 := by
  intro pins
  have hsum : widthSum pins < UInt64.size := by decide
  obtain ⟨hpositions, -, -, hcount⟩ := expandAll_positions pins
  exact ⟨⟨by decide, by decide, hsum⟩, hpositions 2 (by decide) 11 (by decide), (hcount hsum).1⟩

end Pin

end NetlistTables
