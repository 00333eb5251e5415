/-!
# Log records and filters

A record tells of an event: how severe it is, which part of the program it comes from, a message,
and fields that give the particulars. A filter says which records are told of: those down to some
severity, of the whole program or of one part of it.
-/

namespace NetlistTables.Log

/-! ## Records -/

/-- How severe an event is, the most severe first. -/
inductive Severity
  | error
  | warn
  | info
  | debug
  | trace
  deriving DecidableEq, Repr

namespace Severity

/-- The position in the order of severity, from the most severe. -/
def rank : Severity → Nat
  | error => 0
  | warn => 1
  | info => 2
  | debug => 3
  | trace => 4

/-- The name of a severity in a record. -/
def label : Severity → String
  | error => "ERROR"
  | warn => "WARN"
  | info => "INFO"
  | debug => "DEBUG"
  | trace => "TRACE"

end Severity

/-- An event to be told of. -/
structure Record where
  severity : Severity
  /-- The part of the program that it comes from. -/
  target : String
  message : String
  /-- The particulars, each with the text of its value. -/
  fields : List (String × String) := []
  deriving DecidableEq, Repr

/-- The line that tells of an event. -/
def Record.line (r : Record) : String :=
  r.severity.label ++ " " ++ r.target ++ ": " ++ r.message ++
    String.join (r.fields.map fun f => " " ++ f.1 ++ "=" ++ f.2)

/-! ## Filters -/

/-- The records down to a severity, or none at all. -/
abbrev Threshold := Option Severity

/-- Is a severity within a threshold? -/
def Threshold.admits : Threshold → Severity → Bool
  | none, _ => false
  | some least, s => s.rank ≤ least.rank

/-- The threshold of a name. -/
def Threshold.ofName? : String → Option Threshold
  | "off" => some none
  | "error" => some (some .error)
  | "warn" => some (some .warn)
  | "info" => some (some .info)
  | "debug" => some (some .debug)
  | "trace" => some (some .trace)
  | _ => none

/-- Which records are told of. -/
inductive Filter
  /-- The records of the whole program within a threshold. -/
  | all (threshold : Threshold)
  /-- Of the records whose target begins with a name, those within a threshold. -/
  | target (name : String) (threshold : Threshold)
  deriving DecidableEq, Repr

namespace Filter

/-- Warnings and errors. -/
def standard : Filter := .all (some .warn)

/-- The filter that a text describes, if it is of one of the two forms that are covered: the name of
a threshold in small letters, or `<target>=<threshold>`. A text may be more than that: several of
these set apart by commas, a target alone, a threshold in capitals or as a number, or nothing at
all. What such a text means is left out here, and it counts as describing no filter. -/
def parse? (s : String) : Option Filter :=
  match Threshold.ofName? s with
  | some t => some (.all t)
  | none =>
    match s.toList.splitOn '=' with
    | [name, t] => (Threshold.ofName? (String.ofList t)).map (.target (String.ofList name))
    | _ => none

/-- The filter of a setting that may be absent, or describe no filter. Then warnings and errors are
told of. -/
def ofSetting (setting : Option String) : Filter := (setting.bind parse?).getD standard

/-- Is a record told of? -/
def admits : Filter → Record → Bool
  | all t, r => t.admits r.severity
  | target name t, r => name.toList.isPrefixOf r.target.toList && t.admits r.severity

end Filter

end NetlistTables.Log
