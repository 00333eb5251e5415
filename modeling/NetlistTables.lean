import NetlistTables.Main
import NetlistTables.Proofs.Table.Agreement
import NetlistTables.Proofs.Table.Enumerators
import NetlistTables.Proofs.Table.Linkage
import NetlistTables.Proofs.Table.RoundTrip
import NetlistTables.Proofs.Output.Writes
import NetlistTables.Proofs.Table.Bounded
import NetlistTables.Proofs.Code.Calls
import NetlistTables.Proofs.Invocation.Outcome
import NetlistTables.Proofs.Code.Comment
import NetlistTables.Proofs.Table.Banner
import NetlistTables.Proofs.Table.Messages
import NetlistTables.Proofs.Code.Level
import NetlistTables.Proofs.Invocation.Failure
import NetlistTables.Proofs.Code.Indentation
import NetlistTables.Proofs.Table.Indentation
import NetlistTables.Proofs.Code.Nesting
import NetlistTables.Proofs.Table.Nesting
import NetlistTables.Proofs.Code.WrittenComment
import NetlistTables.Proofs.Table.Declarations
import NetlistTables.Proofs.Table.Locality
import NetlistTables.Proofs.Positions
import NetlistTables.Proofs.Text.FileName
import NetlistTables.Proofs.Code.Multiline
import NetlistTables.Proofs.Text.Quoted
import NetlistTables.Proofs.Invocation.Warning
import NetlistTables.Proofs.Table.Filled
