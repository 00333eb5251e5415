import NetlistTables.Primitive

/-!
# Names in the generated files

The names that the generated files declare for a primitive are up to four string arrays in the
source, and the enumerators in the header. Besides these, the files hold names that are chosen for
the table as a whole: of the table itself, of the type of its records, of the guard of the header.
-/

namespace NetlistTables

namespace Primitive

/-- The array of the names of the attributes. -/
def attributeNamesSymbol (p : Primitive) : String := p.name ++ "_attribute_names"

/-- The array of the default values of the attributes. -/
def attributeDefaultsSymbol (p : Primitive) : String := p.name ++ "_attribute_defaults"

/-- The array of the names of the input sub-pins. -/
def inputsSymbol (p : Primitive) : String := p.name ++ "_inputs"

/-- The array of the names of the output sub-pins. -/
def outputsSymbol (p : Primitive) : String := p.name ++ "_outputs"

end Primitive

namespace Table

/-- The names in the generated files that come from no primitive, and the indentation. -/
structure Config where
  /-- The program that the first line of every file names. -/
  program : String := "mk_xilprims"
  /-- The stem that every enumerator begins with. -/
  stem : String := "NETLIST_XIL"
  /-- The name of the table of records. -/
  tableSymbol : String := "netlist_xilprims"
  /-- The structure tag of a record. -/
  recordType : String := "netlist_primitive"
  /-- The value of the field `type` of every record. -/
  typeTag : String := "NETLIST_PRIMITIVE_INTERNAL"
  /-- The symbol that guards the header against a second inclusion. -/
  includeGuard : String := "__NETLIST_XILPRIMS_H"
  /-- The headers that the source includes, in order. -/
  sourceHeaders : List String := ["stdlib.h", "netlist/net.h", "netlist/xilprims.h"]
  /-- The unit of indentation. -/
  indent : String := "\t"
  deriving DecidableEq, Repr

namespace Config

/-- The usual names. -/
def standard : Config := {}

/-- The usual names, in files that name `program`. -/
def forProgram (program : String) : Config := { standard with program }

/-- The enumerator of the index of a primitive in the table. -/
def primitiveEnumerator (c : Config) (p : Primitive) : String := c.stem ++ "_" ++ p.name

/-- The enumerator of the index of a sub-pin among the inputs or the outputs of a primitive. -/
def pinEnumerator (c : Config) (p : Primitive) (pin : String) : String :=
  c.stem ++ "_" ++ p.name ++ "_" ++ pin

end Config

end Table

end NetlistTables
