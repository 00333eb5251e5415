/-!
# Primitives

A netlist is built from digital-logic primitives: buffers, registers, look-up tables. This module
holds their description: the attributes that configure a primitive, and its input and output pins.

A pin has a width. One that is wider than a bit is a bus, and stands for the *sub-pins* that
`Pin.expand` names; the tables that describe a netlist list the sub-pins, in the order of the pins.
-/

namespace NetlistTables

/-- A named parameter of a primitive, with the text of its default value. -/
structure Attribute where
  name : String
  default : String
  deriving DecidableEq, Repr

/-- A point where a primitive is connected, `width` bits wide. -/
structure Pin where
  width : UInt32
  name : String
  deriving DecidableEq, Repr

namespace Pin

/-- A pin of a single bit. -/
def bit (name : String) : Pin := ⟨1, name⟩

/-- The names of the sub-pins of `p`. The bits of a bus are numbered from zero after its name; a
pin that is no bus keeps its name. -/
def expand (p : Pin) : List String :=
  if 1 < p.width then
    (List.range p.width.toNat).map fun k => p.name ++ "_" ++ toString k
  else
    [p.name]

theorem expand_of_le {p : Pin} (h : p.width ≤ 1) : p.expand = [p.name] := by
  simp [expand, UInt32.not_lt.2 h]

theorem expand_of_lt {p : Pin} (h : 1 < p.width) :
    p.expand = (List.range p.width.toNat).map fun k => p.name ++ "_" ++ toString k := by
  simp [expand, h]

/-- A pin has as many sub-pins as bits, but at least one. -/
theorem length_expand (p : Pin) : p.expand.length = max p.width.toNat 1 := by
  by_cases h : 1 < p.width
  · have := UInt32.lt_iff_toNat_lt.1 h
    simp [expand_of_lt h] at *
    omega
  · have := UInt32.le_iff_toNat_le.1 (UInt32.not_lt.1 h)
    simp [expand_of_le (UInt32.not_lt.1 h)] at *
    omega

/-- The names of all sub-pins of a list of pins, in order. -/
def expandAll (pins : List Pin) : List String := pins.flatMap expand

theorem expandAll_append (xs ys : List Pin) :
    expandAll (xs ++ ys) = expandAll xs ++ expandAll ys := by
  simp [expandAll]

/-- The sum of the declared widths, as a 64-bit word. -/
def totalWidth (pins : List Pin) : UInt64 :=
  pins.foldl (fun total p => total + p.width.toUInt64) 0

end Pin

/-- The description of a primitive. -/
structure Primitive where
  name : String
  attributes : List Attribute
  inputs : List Pin
  outputs : List Pin
  deriving DecidableEq, Repr

namespace Primitive

/-- The names of the input sub-pins. -/
def inputNames (p : Primitive) : List String := Pin.expandAll p.inputs

/-- The names of the output sub-pins. -/
def outputNames (p : Primitive) : List String := Pin.expandAll p.outputs

/-- The number of input bits that the pins declare. -/
def inputCount (p : Primitive) : UInt64 := Pin.totalWidth p.inputs

/-- The number of output bits that the pins declare. -/
def outputCount (p : Primitive) : UInt64 := Pin.totalWidth p.outputs

end Primitive

end NetlistTables
