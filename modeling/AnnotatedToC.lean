import AnnotatedToC.CommandLine.Log
import AnnotatedToC.CommandLine.Notice
import AnnotatedToC.CommandLine.Options
import AnnotatedToC.CommandLine.Path
import AnnotatedToC.CommandLine.Run
import AnnotatedToC.Compilation
import AnnotatedToC.Decimal
import AnnotatedToC.Decimal.Shortest
import AnnotatedToC.Decimal.Style
import AnnotatedToC.Double
import AnnotatedToC.Json
import AnnotatedToC.Json.Fields
import AnnotatedToC.Json.Numeral
import AnnotatedToC.Json.Printer
import AnnotatedToC.Json.Reader
import AnnotatedToC.Json.StringText
import AnnotatedToC.Layout
import AnnotatedToC.Layout.Codec
import AnnotatedToC.Lowering.Error
import AnnotatedToC.Lowering.Expr
import AnnotatedToC.Lowering.Hint
import AnnotatedToC.Lowering.Range
import AnnotatedToC.Lowering.Stmt
import AnnotatedToC.Main
import AnnotatedToC.Proofs.CountingLoops
import AnnotatedToC.Proofs.Decimals
import AnnotatedToC.Proofs.Execution
import AnnotatedToC.Proofs.Grammar
import AnnotatedToC.Proofs.Integers
import AnnotatedToC.Proofs.JsonText
import AnnotatedToC.Proofs.LoadedModules
import AnnotatedToC.Proofs.LoopFree
import AnnotatedToC.Proofs.Lowered
import AnnotatedToC.Proofs.Meaning
import AnnotatedToC.Proofs.Nesting
import AnnotatedToC.Proofs.Normal
import AnnotatedToC.Proofs.Numerals
import AnnotatedToC.Proofs.Parsed
import AnnotatedToC.Proofs.Positions
import AnnotatedToC.Proofs.Precedence
import AnnotatedToC.Proofs.Progression
import AnnotatedToC.Proofs.Readers
import AnnotatedToC.Proofs.Results
import AnnotatedToC.Proofs.Rounding
import AnnotatedToC.Proofs.SavedModules
import AnnotatedToC.Proofs.Scopes
import AnnotatedToC.Proofs.Shapes
import AnnotatedToC.Proofs.SourceCodec
import AnnotatedToC.Proofs.Statements
import AnnotatedToC.Proofs.Subset
import AnnotatedToC.Proofs.Tokens
import AnnotatedToC.Proofs.Trees
import AnnotatedToC.Proofs.Unambiguous
import AnnotatedToC.Proofs.Unread
import AnnotatedToC.Proofs.Variables
import AnnotatedToC.Proofs.WellFormed
import AnnotatedToC.Proofs.Written
import AnnotatedToC.Ratio
import AnnotatedToC.Source
import AnnotatedToC.Source.Decode
import AnnotatedToC.Source.Display
import AnnotatedToC.Source.Encode
import AnnotatedToC.Source.File
import AnnotatedToC.Target
import AnnotatedToC.Target.Decode
import AnnotatedToC.Target.Emit
import AnnotatedToC.Target.Encode
import AnnotatedToC.Target.Lines
import AnnotatedToC.Target.Text
import AnnotatedToC.Text.Bytes
import AnnotatedToC.Text.Quoted
import AnnotatedToC.Text.Unprintable
import AnnotatedToC.Text.Words
import AnnotatedToC.Proofs.Layouts
import AnnotatedToC.Proofs.Functionwise
import AnnotatedToC.Proofs.Runs
import AnnotatedToC.Proofs.TargetCodec
import AnnotatedToC.Proofs.Recovered
import AnnotatedToC.Proofs.Ranges
import AnnotatedToC.Proofs.Arithmetic
import AnnotatedToC.Proofs.LineNumbers
import AnnotatedToC.Proofs.ExpectedTypes
import AnnotatedToC.Proofs.Blame
import AnnotatedToC.Proofs.Presentation
import AnnotatedToC.Proofs.Passing
import AnnotatedToC.Proofs.ModuleTexts
import AnnotatedToC.Proofs.StringLiterals
import AnnotatedToC.Proofs.HintTypes
