import NetlistTables.Code.Fragment
import NetlistTables.Table.Symbols

/-!
# Scripts

What is to be written to a file is laid down as a script: the fragments in order, and among them
notes of the primitive whose turn it is, from which progress can be followed. There are two files,
each with a script of its own.

The source defines, for every primitive, the string arrays of its attributes and of its sub-pins;
an array that would be empty is left out. Then it defines the table: one record per primitive,
which gives the sizes of the arrays and points to them, or to nothing.

The header declares the table that the source defines, and the enumerators of the indices: of the
primitives in the table, and of the sub-pins among the inputs and among the outputs of each
primitive. A primitive without inputs, or without outputs, has no enumeration of them.
-/

namespace NetlistTables.Table

open Code

/-- A step towards a generated file. -/
inductive Step
  /-- It is the turn of a primitive. -/
  | note (primitive : String)
  | put (fragment : Fragment)
  deriving DecidableEq, Repr

/-- The first line of every generated file. -/
def banner (c : Config) : Fragment :=
  .comment ("Generated automatically by " ++ c.program ++ ". Do not edit manually!")

/-! ## The source file -/

namespace Source

/-- The definition of an array of strings. -/
def stringArray (symbol : String) (values : List String) : List Fragment :=
  .arrayOpen ("static char *" ++ symbol) :: values.map .stringElement ++ [.blockClose]

/-- The string arrays of a primitive. -/
def arrays (p : Primitive) : List Fragment :=
  (if p.attributes = [] then [] else
    stringArray p.attributeNamesSymbol (p.attributes.map (·.name)) ++
      stringArray p.attributeDefaultsSymbol (p.attributes.map (·.default))) ++
  (if p.inputs = [] then [] else stringArray p.inputsSymbol p.inputNames) ++
  (if p.outputs = [] then [] else stringArray p.outputsSymbol p.outputNames)

/-- The steps for the string arrays of a primitive. -/
def block (p : Primitive) : List Step :=
  .note p.name :: (.blank :: .comment p.name :: arrays p).map .put

/-- A reference to the array of `xs`, which is defined unless `xs` is empty. -/
def reference {α : Type} (xs : List α) (symbol : String) : String :=
  if xs.isEmpty then "NULL" else symbol

/-- The record of a primitive. -/
def record (c : Config) (p : Primitive) : List Fragment :=
  [.elementOpen,
    .field "type" c.typeTag false,
    .field "name" ("\"" ++ p.name ++ "\"") false,
    .field "attribute_count" (toString p.attributes.length) false,
    .field "attribute_names" (reference p.attributes p.attributeNamesSymbol) false,
    .field "default_attributes" (reference p.attributes p.attributeDefaultsSymbol) false,
    .field "inputs" (toString p.inputCount) false,
    .field "input_names" (reference p.inputs p.inputsSymbol) false,
    .field "outputs" (toString p.outputCount) false,
    .field "output_names" (reference p.outputs p.outputsSymbol) true,
    .elementClose]

/-- What precedes the string arrays. -/
def opening (c : Config) : List Fragment := banner c :: c.sourceHeaders.map .systemHeader

/-- What stands between the string arrays and the records. -/
def tableOpening (c : Config) : List Fragment :=
  [.blank, .blank, .arrayOpen ("struct " ++ c.recordType ++ " " ++ c.tableSymbol)]

/-- The definition of the table. -/
def tableDefinition (c : Config) (table : List Primitive) : List Fragment :=
  tableOpening c ++ table.flatMap (record c) ++ [.blockClose]

/-- The script of the source file. -/
def script (c : Config) (table : List Primitive) : List Step :=
  (opening c).map .put ++ table.flatMap block ++ (tableDefinition c table).map .put

end Source

/-! ## The header file -/

namespace Header

/-- An enumeration that gives every name its position. -/
def enumeration (names : List String) : List Fragment :=
  .enumOpen none :: names.mapIdx (fun k name => .enumerator name (some k)) ++ [.blockClose]

/-- The enumeration of the sub-pins of one direction of a primitive. -/
def pinEnumeration (c : Config) (p : Primitive) (names : List String) : List Fragment :=
  enumeration (names.map (c.pinEnumerator p))

/-- The enumerations of the sub-pins of a primitive. -/
def pinEnumerations (c : Config) (p : Primitive) : List Fragment :=
  (if p.inputs = [] then [] else
    .blank :: .comment (p.name ++ ": inputs") :: pinEnumeration c p p.inputNames) ++
  (if p.outputs = [] then [] else
    .comment (p.name ++ ": outputs") :: pinEnumeration c p p.outputNames)

/-- The steps for the sub-pins of a primitive. -/
def block (c : Config) (p : Primitive) : List Step :=
  .note p.name :: (pinEnumerations c p).map .put

/-- What precedes the enumerations. -/
def opening (c : Config) : List Fragment :=
  [banner c, .ifUndefined c.includeGuard, .define c.includeGuard none, .blank]

/-- What follows the enumerations. -/
def closing (c : Config) : List Fragment :=
  [.blank, .external ("struct " ++ c.recordType ++ " " ++ c.tableSymbol ++ "[]"), .blank,
    .endIf (some c.includeGuard)]

/-- The script of the header file. -/
def script (c : Config) (table : List Primitive) : List Step :=
  (opening c ++ enumeration (table.map c.primitiveEnumerator)).map .put ++
    table.flatMap (block c) ++ (closing c).map .put

end Header

end NetlistTables.Table
