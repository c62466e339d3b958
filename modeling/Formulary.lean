import Formulary.Proofs.Codec
import Formulary.Proofs.Token.Places
import Formulary.Proofs.Token.Located
import Formulary.Proofs.LineEnd
import Formulary.Proofs.Substitution
import Formulary.Proofs.Closure.Encounter
import Formulary.Proofs.Closure.Names
import Formulary.Proofs.Closure.Resolve
import Formulary.Proofs.Closure.Shared
import Formulary.Proofs.Closure.Stops
import Formulary.Proofs.Lowering.ControlFlow
import Formulary.Proofs.Lowering.Losses
import Formulary.Proofs.Relayout
import Formulary.Proofs.Service
import Formulary.Proofs.Service.ByName
import Formulary.Proofs.Service.Reach
import Formulary.Proofs.Lowering.Support
import Formulary.Proofs.Directive.ClassBody
import Formulary.Proofs.Directive.DependsOn
import Formulary.Proofs.Grammar.Run
import Formulary.Proofs.Grammar.BlockCode
import Formulary.Proofs.Grammar.BlockReading
import Formulary.Proofs.Grammar.BlockBinding
import Formulary.Proofs.Grammar.Parentheses
import Formulary.Proofs.Grammar.Precedence
import Formulary.Proofs.Scope.Walk
import Formulary.Proofs.DataSection
import Formulary.Proofs.Token.Names
import Formulary.Proofs.Scope.Follow
import Formulary.Proofs.Scope.Reading
import Formulary.Proofs.Scope.Expressions
import Formulary.Proofs.Scope.Arguments
import Formulary.Proofs.Scope.Calls
import Formulary.Proofs.Scope.Literals
import Formulary.Proofs.Scope.Constructs
import Formulary.Proofs.Scope.Lexical
import Formulary.Proofs.Grammar.Refinement
import Formulary.Proofs.Scope.DefaultFree
import Formulary.Proofs.Layout.Grouping
import Formulary.Proofs.Layout.Outline
import Formulary.Proofs.Directive.Bottle
import Formulary.Proofs.Layout.Lines
import Formulary.Proofs.Token.Quotation
import Formulary.Proofs.Token.VerbatimHeredoc
import Formulary.Proofs.Token.HeredocLine
import Formulary.Proofs.Grammar.Continuation
import Formulary.Proofs.Interpolation
import Formulary.Proofs.Directive.Static
import Formulary.Proofs.Text.Utf8
import Formulary.Proofs.Load
import Formulary.Proofs.Archive.Version
import Formulary.Proofs.Archive.Found
import Formulary.Proofs.Archive.Url
import Formulary.Proofs.Archive.Release
import Formulary.Proofs.Lowering.CallNames
import Formulary.Proofs.Lowering.FirstFault
import Formulary.Proofs.IntegerLiteral
import Formulary.Proofs.Grammar.Outcome
import Formulary.Proofs.StringForm
