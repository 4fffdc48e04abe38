import KrlWorkbench.Json.Reader
import KrlWorkbench.Main
import KrlWorkbench.Wire.Session
import KrlWorkbench.Proofs.CaseIndependence.Findings
import KrlWorkbench.Proofs.Code.MaskedBytes
import KrlWorkbench.Proofs.Editing.FormatIndentation
import KrlWorkbench.Proofs.Renaming.TypeDefinitions
import KrlWorkbench.Proofs.Renaming.Undoing
import KrlWorkbench.Proofs.Session.Convergence
import KrlWorkbench.Proofs.Session.DistinctSources
import KrlWorkbench.Proofs.Finding.LanguageIndependence
import KrlWorkbench.Proofs.Session.RootChanges
import KrlWorkbench.Proofs.Finding.UnmatchedCloser
import KrlWorkbench.Proofs.Finding.EmptyBlocks
import KrlWorkbench.Proofs.Service.BlockHighlights
import KrlWorkbench.Proofs.Service.FoldPairs
import KrlWorkbench.Proofs.Editing.DeclareFix
import KrlWorkbench.Proofs.Editing.RetypeFix
import KrlWorkbench.Proofs.Editing.VisibilityFix
import KrlWorkbench.Proofs.Symbol.VariableTypes
import KrlWorkbench.Proofs.Editing.RemovalFix
import KrlWorkbench.Proofs.Service.OutlineNesting
import KrlWorkbench.Proofs.Service.IndexedOwners
import KrlWorkbench.Proofs.Service.OpenCalls
import KrlWorkbench.Proofs.Finding.LinesAbove
import KrlWorkbench.Proofs.File.Discovery
