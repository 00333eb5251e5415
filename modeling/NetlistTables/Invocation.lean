import NetlistTables.Log
import NetlistTables.Output.Buffered
import NetlistTables.Output.Device
import NetlistTables.Primitive.Builtin
import NetlistTables.Table.Emission
import NetlistTables.Table.Validity
import NetlistTables.Text.FileName
import NetlistTables.Text.Quoted
import NetlistTables.Text.Utf8

/-!
# Invocations of the program

The program takes one argument, the selector of a file, and writes that file for the built-in table
to its standard output; with any other number of arguments it shows its usage. It logs to standard
error, where a failure to write is reported too, whatever the log filter is. If it is the usage that
cannot be written, the program is aborted.

`Invocation.run` gives the outcome as a value: the exit code, the bytes that standard output has
taken, and the lines on standard error.
-/

namespace NetlistTables

open Log Output Table Text

/-- How the program is called. -/
structure Invocation where
  /-- The path that it is called by. -/
  path : ByteArray
  arguments : List ByteArray
  /-- The setting of the log filter, if there is one. -/
  logSetting : Option String := none

/-- The usual name of the program. -/
def usualName : String := "mk_xilprims"

/-- The call that the system passes on as a vector, of which the first element is the path. Without
a path the program goes by its usual name. -/
def Invocation.ofVector (vector : List ByteArray) (logSetting : Option String) : Invocation :=
  match vector with
  | [] => ⟨usualName.toUTF8, [], logSetting⟩
  | path :: arguments => ⟨path, arguments, logSetting⟩

/-- What a run of the program leaves. -/
structure Outcome where
  exitCode : UInt8
  stdout : ByteArray
  stderr : List String

namespace Invocation

/-! ## Log records -/

/-- The log target of the command line. -/
def commandTarget : String := "mk_xilprims"

/-- The log target of the emission of files. -/
def emissionTarget : String := "xilprims::emitter"

/-- The program was called with another number of arguments than one. -/
def miscountRecord (count : Nat) : Record :=
  ⟨.debug, commandTarget, "invalid invocation", [("count", toString count)]⟩

/-- The selector names no kind of file. -/
def selectorRecord (selector : String) : Record :=
  ⟨.warn, emissionTarget, "unrecognized mode selector, emitting header",
    [("selector", Quoted.quote selector)]⟩

/-- The name of a kind of file in the log. -/
def kindLabel : FileKind → String
  | .source => "Source"
  | .header => "Header"

/-- A file is about to be generated. -/
def generatingRecord (kind : FileKind) (table : List Primitive) : Record :=
  ⟨.info, commandTarget, "generating",
    [("mode", kindLabel kind), ("primitives", toString table.length)]⟩

/-- The turn of a primitive has come. -/
def primitiveRecord (kind : FileKind) (primitive : String) : Record :=
  let message := match kind with
    | .source => "emitting string arrays"
    | .header => "emitting pin enums"
  ⟨.debug, emissionTarget, message, [("primitive", Quoted.quote primitive)]⟩

/-! ## Runs -/

/-- The name that the program goes by. -/
def program (i : Invocation) : String := programName (Utf8.decode i.path)

/-- The log filter in force. -/
def filter (i : Invocation) : Filter := .ofSetting i.logSetting

/-- The lines of the records that the filter lets pass. -/
def log (i : Invocation) (records : List Record) : List String :=
  (records.filter i.filter.admits).map (·.line)

/-- The usage of the program. -/
def usage (i : Invocation) : String := "Usage: " ++ i.program ++ " c|h\n"

/-- The line that reports a failure while something was done. -/
def failureLine (doing : String) (failure : Failure) : String :=
  "error: " ++ doing ++ ": " ++ failure.report

/-- The records of generating the file of a selector, in which the primitives `noted` have had their
turn. -/
def generationRecords (selector : String) (table : List Primitive) (noted : List String) :
    List Record :=
  let kind := FileKind.ofSelector selector
  (if (FileKind.ofSelector? selector).isNone then [selectorRecord selector] else []) ++
    generatingRecord kind table :: noted.map (primitiveRecord kind)

/-- Generate the file of a selector from a table. -/
def generate (i : Invocation) (table : List Primitive) (selector : String) (stdout : Device) :
    Outcome :=
  match validate table with
  | .error failure =>
    ⟨1, stdout.stored, [failureLine "built-in primitive table is inconsistent" failure]⟩
  | .ok () =>
    let emitted :=
      emit (.ofSelector selector) (.forProgram i.program) table (Buffered.ofSink stdout)
    let lines := i.log (generationRecords selector table emitted.noted)
    match emitted.result with
    | .ok () => ⟨0, emitted.sink.sink.stored, lines⟩
    | .error failure =>
      ⟨1, emitted.sink.sink.stored, lines ++ [failureLine "failed to write generated text" failure]⟩

/-- The line that gives the reason why the program has been aborted. The report of an abort has
other lines too, which point into the run-time system; these are left out. -/
def abortLine (fault : Fault) : String := "failed printing to stdout: " ++ fault.text

/-- Show the usage of the program. It is aborted if that fails. -/
def showUsage (i : Invocation) (stdout : Device) : Outcome :=
  let stderr := i.log [miscountRecord i.arguments.length]
  match Sink.write i.usage.toUTF8 stdout with
  | .ok _ d => ⟨1, d.stored, stderr⟩
  | .error fault d => ⟨101, d.stored, stderr ++ [abortLine fault]⟩

/-- Run the program, with its standard output on a device. -/
def run (i : Invocation) (stdout : Device) : Outcome :=
  match i.arguments with
  | [argument] => i.generate Primitive.builtin (Utf8.decode argument) stdout
  | _ => i.showUsage stdout

end Invocation

end NetlistTables
