import RowFilter.CompilationLog
import RowFilter.Main
import RowFilter.Script.Builder
import RowFilter.Proofs.Filling
import RowFilter.Proofs.Forms
import RowFilter.Proofs.Locating
import RowFilter.Proofs.Roles
import RowFilter.Proofs.Session
import RowFilter.Proofs.Shorthand
import RowFilter.Proofs.Veiling
import RowFilter.Proofs.Wrapping
import RowFilter.Proofs.Json.Binding
import RowFilter.Proofs.Script.Chain
import RowFilter.Proofs.Script.Nodes
import RowFilter.Proofs.Script.Parsed
import RowFilter.Proofs.Script.Trailing
import RowFilter.Proofs.Sql.Legible
import RowFilter.Proofs.Script.Descent
