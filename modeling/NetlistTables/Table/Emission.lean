import NetlistTables.Code.Writer
import NetlistTables.Table.Failure
import NetlistTables.Table.Script

/-!
# Emission

A table is emitted by carrying out the script of a file on a sink, and then flushing the sink. The
first fault ends the emission; what has been written until then stays written.
-/

namespace NetlistTables.Table

open Code Output

/-- The files that are generated from a table. -/
inductive FileKind
  /-- The file that defines the table. -/
  | source
  /-- The file that declares the table. -/
  | header
  deriving DecidableEq, Repr

namespace FileKind

/-- The selectors that name a kind of file. -/
def ofSelector? : String → Option FileKind
  | "c" => some source
  | "h" => some header
  | _ => none

/-- The kind that a selector stands for: any but those of `ofSelector?` stands for the header. -/
def ofSelector (selector : String) : FileKind := (ofSelector? selector).getD header

/-- The script of a file. -/
def script : FileKind → Config → List Primitive → List Step
  | source => Source.script
  | header => Header.script

end FileKind

/-- An emission in progress: the writer, and the primitives whose turn has come. -/
structure Emission (σ : Type) where
  writer : Writer σ
  noted : List String := []

namespace Emission

variable {σ : Type} [Sink σ]

/-- Act on the writer of an emission. -/
def onWriter (a : Action (Writer σ) Unit) : Action (Emission σ) Unit :=
  Action.on (·.writer) (fun e w => { e with writer := w }) a

/-- Carry out a step. -/
def perform : Step → Action (Emission σ) Unit
  | .note primitive => modify fun e => { e with noted := e.noted ++ [primitive] }
  | .put fragment => onWriter (Writer.put fragment)

/-- Carry out a script, and flush. -/
def run (script : List Step) : Action (Emission σ) Unit := do
  script.forM perform
  onWriter Writer.flush

end Emission

/-- What an emission leaves. -/
structure Emitted (σ : Type) where
  /-- The sink after it. -/
  sink : σ
  /-- The primitives whose turn has come. -/
  noted : List String
  result : Except Failure Unit

/-- Emit the file of a table to a sink. -/
def emit {σ : Type} [Sink σ] (kind : FileKind) (c : Config) (table : List Primitive) (sink : σ) :
    Emitted σ :=
  match Emission.run (kind.script c table) ⟨⟨sink, c.indent, 0⟩, []⟩ with
  | .ok _ e => ⟨e.writer.sink, e.noted, .ok ()⟩
  | .error fault e => ⟨e.writer.sink, e.noted, .error (.output fault)⟩

end NetlistTables.Table
