import Rulebook.Main
import Rulebook.Step.Outline
import Rulebook.Proofs.Grammar.Arguments
import Rulebook.Proofs.Grammar.Flags
import Rulebook.Proofs.Grammar.Derivation
import Rulebook.Proofs.Grammar.Compile
import Rulebook.Proofs.Text.Slice
import Rulebook.Proofs.Grammar.Lexing
import Rulebook.Proofs.Action.Cutting
import Rulebook.Proofs.Action.RuleParameter
import Rulebook.Proofs.Action.ActionParameter
import Rulebook.Proofs.Nesting.Height
import Rulebook.Proofs.Evaluation.Error
import Rulebook.Proofs.Run.Builtin
import Rulebook.Proofs.Nesting.Action
import Rulebook.Proofs.Step.Trace
import Rulebook.Proofs.Step.Branching
import Rulebook.Proofs.Nesting.Step
import Rulebook.Proofs.Step.Cascade
import Rulebook.Proofs.Step.Halt
import Rulebook.Proofs.Evaluation.Unforced
import Rulebook.Proofs.Evaluation.Reason
import Rulebook.Proofs.Grammar.Locality
import Rulebook.Proofs.Grammar.Placement
import Rulebook.Proofs.Grammar.Source
import Rulebook.Proofs.Action.Source
import Rulebook.Proofs.Grammar.Fault
import Rulebook.Proofs.Action.Placement
import Rulebook.Proofs.Action.Fault
import Rulebook.Proofs.Value.Literal
import Rulebook.Proofs.Action.Joined
import Rulebook.Proofs.Action.Built
import Rulebook.Proofs.Step.Rearranged
import Rulebook.Proofs.Run.Rights
import Rulebook.Proofs.Run.Parameters
import Rulebook.Proofs.Step.Frame
import Rulebook.Proofs.Step.Negation
import Rulebook.Proofs.Decimal.Finite
import Rulebook.Proofs.Json.Leaves
import Rulebook.Proofs.Value.Json
import Rulebook.Proofs.Json.Members
import Rulebook.Proofs.Run.Property
import Rulebook.Proofs.Date.Text
import Rulebook.Proofs.Value.Path
import Rulebook.Proofs.Run.Each
import Rulebook.Proofs.Value.Numbers
import Rulebook.Proofs.Run.Range
import Rulebook.Proofs.Decimal.Arithmetic
import Rulebook.Proofs.Decimal.Order
import Rulebook.Proofs.Decimal.Whole
import Rulebook.Proofs.Decimal.Scaled
import Rulebook.Proofs.Text.Case
import Rulebook.Proofs.Evaluation.Proper
import Rulebook.Proofs.Evaluation.Mended
import Rulebook.Proofs.Evaluation.Bound
import Rulebook.Proofs.Evaluation.Rounding
import Rulebook.Proofs.Evaluation.Kept
import Rulebook.Proofs.Evaluation.Forced
import Rulebook.Proofs.Value.Order
import Rulebook.Proofs.Run.Comparison
import Rulebook.Proofs.Grammar.WellFormed
import Rulebook.Proofs.Evaluation.Between
import Rulebook.Proofs.Run.Conversion
import Rulebook.Proofs.Run.Switch
import Rulebook.Proofs.Date.WorkingDay
import Rulebook.Proofs.Date.Period
import Rulebook.Proofs.Date.FirstAndLast
import Rulebook.Proofs.Date.FiscalYear
import Rulebook.Proofs.Step.Policy
import Rulebook.Proofs.Evaluation.Strings
import Rulebook.Proofs.Grammar.Coverage
import Rulebook.Proofs.Grammar.Spacing
import Rulebook.Proofs.Text.Marks
import Rulebook.Proofs.Evaluation.Markup
import Rulebook.Proofs.Evaluation.Tables
import Rulebook.Proofs.Evaluation.Address
import Rulebook.Proofs.Step.Building
import Rulebook.Proofs.Action.Cuts
