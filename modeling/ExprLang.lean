import ExprLang.CommandLine
import ExprLang.Main
import ExprLang.Proofs.Evaluation.Session
import ExprLang.Proofs.Evaluation.Reclamation
import ExprLang.Proofs.Lowering.Dominance
import ExprLang.Proofs.Imperative.Agreement
import ExprLang.Proofs.Code.Blocks
import ExprLang.Proofs.Lowering.Composition
import ExprLang.Proofs.Lowering.FlowGraph
import ExprLang.Proofs.Lowering.Registers
import ExprLang.Proofs.Json.Grammar
import ExprLang.Proofs.Json.Strings
import ExprLang.Proofs.Json.Numbers
import ExprLang.Proofs.Json.Skipping
import ExprLang.Proofs.Json.Reading
import ExprLang.Proofs.Json.Records
import ExprLang.Proofs.Expression.Reading
import ExprLang.Proofs.Json.Rereading
import ExprLang.Proofs.Json.Nesting
import ExprLang.Proofs.Expression.Storing
import ExprLang.Proofs.Evaluation.Accounting
import ExprLang.Proofs.Evaluation.Observation
import ExprLang.Proofs.Slots.Operands
import ExprLang.Proofs.Slots.Scoping
import ExprLang.Proofs.Evaluation.Journal
import ExprLang.Proofs.Evaluation.Unwinding
import ExprLang.Proofs.Evaluation.Names
import ExprLang.Proofs.Evaluation.Assignment
import ExprLang.Proofs.Lowering.Addressing
import ExprLang.Proofs.Lowering.Linking
import ExprLang.Proofs.Lowering.Names
import ExprLang.Proofs.Lowering.Modes
import ExprLang.Proofs.Lowering.Declarations
import ExprLang.Proofs.Lowering.Operators
import ExprLang.Proofs.Number.Nearest
import ExprLang.Proofs.Expression.Truncation
import ExprLang.Proofs.Evaluation.Congruence
import ExprLang.Proofs.Evaluation.Steps
import ExprLang.Proofs.Evaluation.FailingOutput
import ExprLang.Proofs.Flattening
import ExprLang.Proofs.Code.Frames
import ExprLang.Proofs.CommandLine
import ExprLang.Proofs.Text.ByteOrder
import ExprLang.Proofs.Evaluation.Effectless
import ExprLang.Proofs.Evaluation.Strings
import ExprLang.Proofs.Evaluation.Records
