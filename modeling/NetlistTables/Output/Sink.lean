/-!
# Sinks

A sink takes bytes. Both writing and flushing may fail, and a failed action still leaves a state
behind: actions are state transformers that end in a value or in a `Fault`, and keep the state in
either case. In a sequence of actions, the first fault ends the sequence.
-/

namespace NetlistTables.Output

/-- Why a sink refused. -/
inductive Fault
  /-- The sink has taken as many bytes as it can hold. -/
  | full
  /-- What the sink has taken cannot be passed on. -/
  | flushFailed
  /-- The device behind the sink has no room. -/
  | noSpace
  deriving DecidableEq, Repr

/-- The text of a fault. -/
def Fault.text : Fault → String
  | .full => "sink full"
  | .flushFailed => "flush failed"
  | .noSpace => "No space left on device (os error 28)"

/-- An action on a state that may end in a fault, and keeps the state in either case. -/
abbrev Action (σ α : Type) := EStateM Fault σ α

/-- A state that takes bytes. -/
class Sink (σ : Type) where
  /-- Take all of some bytes. -/
  write : ByteArray → Action σ Unit
  /-- Pass on what has been taken. -/
  flush : Action σ Unit

/-- Act on a part of a state: `get` reads the part, `set` replaces it. -/
def Action.on {σ τ α : Type} (get : τ → σ) (set : τ → σ → τ) (a : Action σ α) : Action τ α :=
  fun t =>
    match a (get t) with
    | .ok x s => .ok x (set t s)
    | .error fault s => .error fault (set t s)

end NetlistTables.Output
