import NetlistTables.Primitive

/-!
# The built-in table

The primitives that every netlist library knows: input and output buffers, a register with clock
enable, the two constant drivers, and the look-up tables of one to six inputs. The position of a
primitive in `Primitive.builtin` is its index in the generated files.
-/

namespace NetlistTables.Primitive

/-- A primitive without attributes, of which every pin is a single bit. -/
def gate (name : String) (inputs : List String) (output : String) : Primitive :=
  ⟨name, [], inputs.map .bit, [.bit output]⟩

/-- A look-up table. Its attribute `INIT` is the truth table in hexadecimal, by default `init`. -/
def lookUpTable (name init : String) (inputs : List String) : Primitive :=
  ⟨name, [⟨"INIT", init⟩], inputs.map .bit, [.bit "O"]⟩

/-- The built-in primitives, in the order of their indices. -/
def builtin : List Primitive :=
  [gate "IBUF" ["I"] "O",
    gate "OBUF" ["I"] "O",
    gate "FDE" ["C", "CE", "D"] "Q",
    gate "VCC" [] "O",
    gate "GND" [] "O",
    lookUpTable "LUT1" "0" ["I0"],
    lookUpTable "LUT2" "0" ["I0", "I1"],
    lookUpTable "LUT3" "00" ["I0", "I1", "I2"],
    lookUpTable "LUT4" "0000" ["I0", "I1", "I2", "I3"],
    lookUpTable "LUT5" "00000000" ["I0", "I1", "I2", "I3", "I4"],
    lookUpTable "LUT6" "0000000000000000" ["I0", "I1", "I2", "I3", "I4", "I5"]]

/-- The built-in primitive of a name. -/
def builtin? (name : String) : Option Primitive := builtin.find? (·.name == name)

end NetlistTables.Primitive
