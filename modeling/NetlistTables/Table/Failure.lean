import NetlistTables.Output.Sink

/-!
# Failures

Why a table of primitives cannot be written as C: a name in it cannot be declared, two primitives
have one name, a pin has no bits, or the output fails.
-/

namespace NetlistTables.Table

/-- Why a table cannot be written. Where a name is at fault, the context says what it names. -/
inductive Failure
  | output (fault : Output.Fault)
  | invalidIdentifier (context name : String)
  | reservedWord (context name : String)
  | duplicatePrimitive (name : String)
  | zeroWidthPin (primitive pin : String)
  deriving DecidableEq, Repr

namespace Failure

/-- The text of a failure. -/
def message : Failure → String
  | output fault => "IO error: " ++ fault.text
  | invalidIdentifier context name =>
    "Invalid C identifier in " ++ context ++ ": '" ++ name ++ "'"
  | reservedWord context name =>
    "Reserved C keyword used in " ++ context ++ ": '" ++ name ++ "'"
  | duplicatePrimitive name => "Duplicate primitive: '" ++ name ++ "'"
  | zeroWidthPin primitive pin =>
    "Zero-width pin '" ++ pin ++ "' on primitive '" ++ primitive ++ "'"

/-- The text of what caused a failure, if it has a cause of its own. -/
def cause? : Failure → Option String
  | output fault => some fault.text
  | _ => none

/-- The text of a failure followed by that of its cause. -/
def report (f : Failure) : String :=
  match f.cause? with
  | none => f.message
  | some cause => f.message ++ ": " ++ cause

end Failure

end NetlistTables.Table
