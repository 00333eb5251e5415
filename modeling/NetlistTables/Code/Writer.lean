import NetlistTables.Code.Fragment
import NetlistTables.Output.Sink
import NetlistTables.Text.Lines

/-!
# Writing indented text

A writer puts fragments of C on a sink, line by line, and keeps the level of indentation. Every
line is preceded by one copy of the unit of indentation per level; empty lines are not indented.
The copies, the line and the line feed are separate writes to the sink.

A fault leaves the level as the last action that took place has left it: a fragment that opens a
list raises the level after its text is written, and one that closes a list lowers it before. The
writer can be used on after a fault.
-/

namespace NetlistTables.Code

open Output

/-- A writer on a sink. -/
structure Writer (σ : Type) where
  sink : σ
  /-- The unit of indentation. -/
  unit : String := "\t"
  level : Nat := 0

namespace Writer

variable {σ : Type} [Sink σ]

/-- The indentation of a line at a level. -/
def indentation (unit : String) (level : Nat) : String := String.join (List.replicate level unit)

/-- Act on the sink of a writer. -/
def onSink (a : Action σ Unit) : Action (Writer σ) Unit :=
  Action.on (·.sink) (fun w s => { w with sink := s }) a

/-- Write a text as it is. -/
def putText (s : String) : Action (Writer σ) Unit := onSink (Sink.write s.toUTF8)

/-- Write one line, indented unless it is empty. -/
def putLine (line : String) : Action (Writer σ) Unit := do
  if line ≠ "" then
    let w ← get
    putText (indentation w.unit w.level)
    putText line
  putText "\n"

/-- The lines that a text is written as: an empty text is an empty line. -/
def linesOf (content : String) : List String :=
  if content = "" then [""] else Text.lines content

/-- Write the lines of a text. -/
def putLines (content : String) : Action (Writer σ) Unit := (linesOf content).forM putLine

/-- Indent the lines that follow by one level more. -/
def indent : Action (Writer σ) Unit := modify fun w => { w with level := w.level + 1 }

/-- Indent the lines that follow by one level less, if there is one. -/
def dedent : Action (Writer σ) Unit := modify fun w => { w with level := w.level - 1 }

/-- Write a fragment. -/
def put (f : Fragment) : Action (Writer σ) Unit := do
  if f.closes then
    dedent
  putLines f.content
  if f.opens then
    indent

/-- Flush the sink. -/
def flush : Action (Writer σ) Unit := onSink Sink.flush

/-- What a writer can be told to do. -/
inductive Call
  | indent
  | dedent
  | put (fragment : Fragment)
  | flush
  deriving DecidableEq, Repr

/-- Do as told. -/
def perform : Call → Action (Writer σ) Unit
  | .indent => indent
  | .dedent => dedent
  | .put f => put f
  | .flush => flush

end Writer

end NetlistTables.Code
