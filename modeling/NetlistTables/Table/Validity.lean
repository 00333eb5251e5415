import NetlistTables.Code.Identifier
import NetlistTables.Primitive
import NetlistTables.Table.Failure

/-!
# Valid tables

Every name in a table becomes a symbol, or a part of one, in the generated files. So each has to be
an identifier that is not reserved, no two primitives may have one name, and every pin needs a bit
at least.

`failures` lists all that is wrong with a table: primitive by primitive, in each first its name,
then its attributes, its inputs and its outputs. `validate` reports the first of them.
-/

namespace NetlistTables.Table

open Code

/-- What is wrong with a name. The context says what it names. -/
def nameFailures (context name : String) : List Failure :=
  if !isIdentifier name then [.invalidIdentifier context name]
  else if isReserved name then [.reservedWord context name]
  else []

/-- What is wrong with a pin of a kind. -/
def pinFailures (primitive kind : String) (pin : Pin) : List Failure :=
  (if pin.width = 0 then [.zeroWidthPin primitive pin.name] else []) ++
    nameFailures (primitive ++ " " ++ kind) pin.name

/-- What is wrong with a primitive that follows others of the names `earlier`. -/
def primitiveFailures (earlier : List String) (p : Primitive) : List Failure :=
  nameFailures "primitive name" p.name ++
    (if p.name ∈ earlier then [.duplicatePrimitive p.name] else []) ++
    p.attributes.flatMap (fun a => nameFailures (p.name ++ " attribute") a.name) ++
    p.inputs.flatMap (pinFailures p.name "input") ++
    p.outputs.flatMap (pinFailures p.name "output")

/-- What is wrong with a table that follows primitives of the names `earlier`. -/
def failuresAfter (earlier : List String) : List Primitive → List Failure
  | [] => []
  | p :: table => primitiveFailures earlier p ++ failuresAfter (p.name :: earlier) table

/-- What is wrong with a table comes before what is wrong with its continuation. -/
theorem failuresAfter_append (earlier : List String) (t u : List Primitive) :
    failuresAfter earlier (t ++ u) =
      failuresAfter earlier t ++ failuresAfter ((t.map (·.name)).reverse ++ earlier) u := by
  induction t generalizing earlier with
  | nil => rfl
  | cons p t ih => simp [failuresAfter, ih]

/-- All that is wrong with a table, in order. -/
def failures (table : List Primitive) : List Failure := failuresAfter [] table

/-- Accept a table in which nothing is wrong; of any other, report the first failure. -/
def validate (table : List Primitive) : Except Failure Unit :=
  match failures table with
  | [] => .ok ()
  | failure :: _ => .error failure

theorem validate_eq_ok_iff {t : List Primitive} : validate t = .ok () ↔ failures t = [] := by
  unfold validate
  split <;> simp_all

theorem validate_eq_error_iff {t : List Primitive} {f : Failure} :
    validate t = .error f ↔ (failures t).head? = some f := by
  unfold validate
  split <;> simp_all

end NetlistTables.Table
