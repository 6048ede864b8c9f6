import ChartParsing.Chart
import ChartParsing.Diagnostic
import ChartParsing.Fault
import ChartParsing.Filling
import ChartParsing.Forest.Basic
import ChartParsing.Forest.Extraction
import ChartParsing.Grammar.Basic
import ChartParsing.Grammar.Compilation
import ChartParsing.Grammar.Listing
import ChartParsing.Grouping
import ChartParsing.Journal
import ChartParsing.Json.Basic
import ChartParsing.Json.Codec
import ChartParsing.Observer
import ChartParsing.Parser
import ChartParsing.Production
import ChartParsing.Span
import ChartParsing.Stats
import ChartParsing.Symbol
import ChartParsing.SymbolSet
import ChartParsing.SymbolTable
import ChartParsing.Text.ExtendingMark
import ChartParsing.Text.Printable
import ChartParsing.Text.Quoted
import ChartParsing.Text.Ranges
import ChartParsing.Tree
import ChartParsing.Witness
import ChartParsing.Proofs.Forest.Limits
import ChartParsing.Proofs.Forest.Reading
import ChartParsing.Proofs.Grouping
import ChartParsing.Proofs.Interning
import ChartParsing.Proofs.Compilation
import ChartParsing.Proofs.Chart
import ChartParsing.Proofs.Derivation
import ChartParsing.Proofs.Filling.Log
import ChartParsing.Proofs.Filling.Run
import ChartParsing.Proofs.Filling.Sizes
import ChartParsing.Proofs.Recognition
import ChartParsing.Proofs.Forest.Derivation
import ChartParsing.Proofs.Tables
import ChartParsing.Proofs.Filling.Events
import ChartParsing.Proofs.Forest.Consistency
import ChartParsing.Proofs.Totality
import ChartParsing.Proofs.Acceptance
import ChartParsing.Proofs.Locality
import ChartParsing.Proofs.Filling.Witnesses
import ChartParsing.Proofs.Forest.Displacement
import ChartParsing.Proofs.Labelling
import ChartParsing.Proofs.Filling.Account
import ChartParsing.Proofs.Extension
import ChartParsing.Proofs.Filling.Totals
import ChartParsing.Proofs.Forest.Reachability
import ChartParsing.Proofs.Forest.Shape
import ChartParsing.Proofs.Filling.Order
import ChartParsing.Proofs.ChartSet
import ChartParsing.Proofs.UnknownTokens
import ChartParsing.Proofs.Bracketing
import ChartParsing.Proofs.Forest.Catalan
import ChartParsing.Proofs.Frontier
import ChartParsing.Proofs.Numbering
import ChartParsing.Proofs.WrittenForm
import ChartParsing.Proofs.Listing
