import NetlistTables.Output.Sink

/-!
# Devices

A device stores the bytes that it takes, up to its capacity. Of a write that does not fit, the part
that fits is stored before the write fails; so the stored bytes are always the longest beginning,
within the capacity, of all that was to be written.
-/

namespace NetlistTables.Output

/-- A store of bytes. Without a capacity it is unlimited. -/
structure Device where
  stored : ByteArray := .empty
  capacity : Option Nat := none
  /-- The fault of a write that does not fit. -/
  overflow : Fault := .full
  /-- The fault of every flush, if flushing fails. -/
  flushFault : Option Fault := none

namespace Device

/-- A device without bounds. -/
def unlimited : Device := {}

/-- A device that has no room for a single byte. -/
def exhausted : Device := { capacity := some 0, overflow := .noSpace }

/-- Store some bytes, or the part of them that fits. -/
def write (bytes : ByteArray) : Action Device Unit := fun d =>
  let all := d.stored ++ bytes
  match d.capacity with
  | none => .ok () { d with stored := all }
  | some n =>
    if all.size ≤ n then .ok () { d with stored := all }
    else .error d.overflow { d with stored := all.extract 0 n }

theorem write_of_unlimited {d : Device} (h : d.capacity = none) (bytes : ByteArray) :
    write bytes d = .ok () { d with stored := d.stored ++ bytes } := by
  simp [write, h]

theorem write_of_fits {d : Device} {n : Nat} {bytes : ByteArray} (h : d.capacity = some n)
    (hn : (d.stored ++ bytes).size ≤ n) :
    write bytes d = .ok () { d with stored := d.stored ++ bytes } := by
  simp only [write, h, if_pos hn]

theorem write_of_overflows {d : Device} {n : Nat} {bytes : ByteArray} (h : d.capacity = some n)
    (hn : ¬ (d.stored ++ bytes).size ≤ n) :
    write bytes d = .error d.overflow { d with stored := (d.stored ++ bytes).extract 0 n } := by
  simp only [write, h, if_neg hn]

/-- Pass on the stored bytes. -/
def flush : Action Device Unit := fun d =>
  match d.flushFault with
  | none => .ok () d
  | some fault => .error fault d

instance : Sink Device := ⟨write, flush⟩

end Device

end NetlistTables.Output
