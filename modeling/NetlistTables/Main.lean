import NetlistTables.Invocation

/-!
# The command line

Collects how the program is called, runs it as a value, and passes the outcome on. Where standard
output fails, the outcome is the one on a device without room.
-/

namespace NetlistTables.CommandLine

open Output

/-- The environment variable that sets the log filter. -/
def logVariable : String := "RUST_LOG"

/-- Write to standard output, and tell whether it has taken the bytes. -/
def deliver (bytes : ByteArray) : IO Bool := do
  try
    let stdout ← IO.getStdout
    stdout.write bytes
    stdout.flush
    return true
  catch _ =>
    return false

/-- Pass on an outcome to standard error and to the exit code. -/
def conclude (o : Outcome) : IO UInt32 := do
  o.stderr.forM IO.eprintln
  return o.exitCode.toUInt32

end NetlistTables.CommandLine

open NetlistTables NetlistTables.CommandLine

/-- Run the program. -/
def main (arguments : List String) : IO UInt32 := do
  let vector := usualName.toUTF8 :: arguments.map String.toUTF8
  let invocation := Invocation.ofVector vector (← IO.getEnv logVariable)
  let outcome := invocation.run .unlimited
  if ← deliver outcome.stdout then
    conclude outcome
  else
    conclude (invocation.run .exhausted)
