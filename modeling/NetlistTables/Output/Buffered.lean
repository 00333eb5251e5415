import NetlistTables.Output.Sink

/-!
# Buffered sinks

A buffer before a sink gathers small writes into large ones. Bytes that do not fit beside the
pending ones push these out first; bytes that would fill the buffer alone go straight to the sink.
What is pending reaches the sink no later than the next flush.
-/

namespace NetlistTables.Output

/-- A sink behind a buffer of pending bytes. -/
structure Buffered (σ : Type) where
  sink : σ
  pending : ByteArray

namespace Buffered

/-- A sink behind an empty buffer. -/
def ofSink {σ : Type} (sink : σ) : Buffered σ := ⟨sink, .empty⟩

variable {σ : Type} [Sink σ]

/-- The number of bytes that a buffer holds. -/
def capacity : Nat := 8192

/-- Act on the sink behind the buffer. -/
def onSink (a : Action σ Unit) : Action (Buffered σ) Unit :=
  Action.on (·.sink) (fun b s => { b with sink := s }) a

/-- Write the pending bytes to the sink. -/
def drain : Action (Buffered σ) Unit := do
  onSink (Sink.write (← get).pending)
  modify fun b => { b with pending := .empty }

/-- Take some bytes. -/
def write (bytes : ByteArray) : Action (Buffered σ) Unit := do
  if (← get).pending.size + bytes.size > capacity then
    drain
  if capacity ≤ bytes.size then
    onSink (Sink.write bytes)
  else
    modify fun b => { b with pending := b.pending ++ bytes }

/-- Pass on all that has been taken. -/
def flush : Action (Buffered σ) Unit := do
  drain
  onSink Sink.flush

instance : Sink (Buffered σ) := ⟨write, flush⟩

end Buffered

end NetlistTables.Output
