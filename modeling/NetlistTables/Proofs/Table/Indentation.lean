import NetlistTables.Proofs.Code.Indentation
import NetlistTables.Proofs.Table.Emitted

/-!
# The indentation of a file

The unit of indentation is one of the names that a file is emitted under, and it is the one that no
fragment of the file holds. So the lines of the file and their depths are fixed by the table and the
other names, and the unit only fills the margins (`indent_cosmetic`).
-/

namespace NetlistTables.Table

open Code Output

/-- The lines of a file do not depend on the unit of indentation, nor do their depths. -/
theorem lines_indent (kind : FileKind) (c : Config) (t : List Primitive) (unit : String) :
    lines kind { c with indent := unit } t = lines kind c t := by
  cases kind with
  | source => rfl
  | header => rfl

/-- **Indentation is only cosmetic.** For a file of a table, and for any calls to a new writer on a
device without bounds, there is one list of lines with their depths, none of which holds a line
feed, such that what is written with any unit of indentation is these lines: before each that is not
empty as many units as its depth, and behind each a line feed. Two units make texts that are the
same when as many units as the depths say are taken off their lines. -/
theorem indent_cosmetic (kind : FileKind) (c : Config) (t : List Primitive)
    (calls : List Writer.Call) :
    (∃ ls, Layout.IndentsOnly ls fun unit =>
        (emit kind { c with indent := unit } t Device.unlimited).sink.stored) ∧
      (∀ unit, (emit kind { c with indent := unit } t Device.unlimited).result = .ok ()) ∧
      ∃ ls, Layout.IndentsOnly ls fun unit =>
        (Writer.drive ⟨Device.unlimited, unit, 0⟩ calls).sink.stored := by
  refine ⟨⟨lines kind c t, .of_written_eq ?_ fun unit => ?_⟩, fun unit => (emit_unlimited ..).1,
    ⟨Writer.callLines 0 calls, .of_written_eq ?_ fun unit => ?_⟩⟩
  · exact fun l => Layout.lineFeed_notMem_of_mem_layout
  · rw [(emit_unlimited kind { c with indent := unit } t).2, text, lines_indent]
  · exact fun l => Writer.lineFeed_notMem_of_mem_callLines
  · have hstored := Writer.stored_drive (u := ⟨Device.unlimited, unit, 0⟩) rfl calls
    rw [hstored]
    exact ByteArray.empty_append

end NetlistTables.Table
