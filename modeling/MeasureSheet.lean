import MeasureSheet.Compilation
import MeasureSheet.Derivation
import MeasureSheet.Estimate
import MeasureSheet.Format.Records
import MeasureSheet.Format.Settings
import MeasureSheet.Format.Tables
import MeasureSheet.Proofs.Compilation.Accounting
import MeasureSheet.Proofs.Compilation.WellFormedness
import MeasureSheet.Proofs.CycleRemoval.Justification
import MeasureSheet.Proofs.Inference.Explanation
import MeasureSheet.Proofs.RuleTable.Candidates
import MeasureSheet.Proofs.RuleBook.Histories
import MeasureSheet.Proofs.Inference.Locality
import MeasureSheet.Proofs.Inference.Exhaustion
import MeasureSheet.Proofs.Inference.Closure
import MeasureSheet.Proofs.Relation.Evaluation
import MeasureSheet.Proofs.Inference.Reporting
import MeasureSheet.Proofs.CycleRemoval.Consultations
import MeasureSheet.Proofs.Json.Numerals
import MeasureSheet.Proofs.Decimal.Shortest
import MeasureSheet.Proofs.Json.FloatTexts
import MeasureSheet.Proofs.Json.Rereading
import MeasureSheet.Proofs.Field.Canonical
import MeasureSheet.Proofs.Field.Blanks
import MeasureSheet.Proofs.Format.Rules
import MeasureSheet.Proofs.Format.Records
import MeasureSheet.Proofs.Format.Settings
import MeasureSheet.Proofs.Format.Tables
import MeasureSheet.Proofs.Compilation.Reloading
import MeasureSheet.Proofs.Format.Recovery
import MeasureSheet.Proofs.RuleTable.Loading
import MeasureSheet.Proofs.Record.Histories
import MeasureSheet.Proofs.Record.Sources
import MeasureSheet.Proofs.Record.Blending
import MeasureSheet.Proofs.Binary64.Packing
import MeasureSheet.Proofs.Estimate.Composition
import MeasureSheet.Proofs.DependencyGraph.Likeness
import MeasureSheet.Proofs.DependencyGraph.Blocking
import MeasureSheet.Proofs.DependencyGraph.LeastOrder
import MeasureSheet.Proofs.DependencyGraph.MarkedSearch
import MeasureSheet.Proofs.DependencyGraph.CycleTests
import MeasureSheet.Proofs.RuleTable.Renumbering
import MeasureSheet.Proofs.CycleRemoval.Rearrangement
import MeasureSheet.Proofs.Compilation.Permutation
import MeasureSheet.Proofs.Compilation.Survival
import MeasureSheet.Proofs.Binary64.Rounding
import MeasureSheet.Proofs.Binary64.Arithmetic
import MeasureSheet.Proofs.Record.Rounding
import MeasureSheet.Proofs.Binary64.Bounds
import MeasureSheet.Proofs.Estimate.Finiteness
import MeasureSheet.Proofs.Derivation.Grounding
import MeasureSheet.Proofs.Decimal.Characters
import MeasureSheet.Proofs.Derivation.Wording
import MeasureSheet.Proofs.Derivation.Layout
import MeasureSheet.Proofs.Estimate.Tracing
import MeasureSheet.Proofs.Estimate.Reporting
import MeasureSheet.Proofs.Estimate.Features
import MeasureSheet.Proofs.RuleTable.Extension
import MeasureSheet.Proofs.Formula.Grammar
import MeasureSheet.Proofs.Decimal.Reading
import MeasureSheet.Proofs.Formula.Naming
import MeasureSheet.Proofs.Formula.Operators
import MeasureSheet.Proofs.Formula.Coefficients
import MeasureSheet.Proofs.Binary64.Signs
import MeasureSheet.Proofs.Binary64.Nearest
import MeasureSheet.Proofs.DependencyGraph.Numbering
import MeasureSheet.Proofs.Field.Normalization
import MeasureSheet.Proofs.Decimal.Rereading
import MeasureSheet.Proofs.Formula.Writing
