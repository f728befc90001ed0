import ScriptFront.Diagnostic
import ScriptFront.Literal
import ScriptFront.Session
import ScriptFront.Proofs.Grammar.Extent
import ScriptFront.Proofs.Grammar.Frontier
import ScriptFront.Proofs.Parser.Buffering
import ScriptFront.Proofs.Grammar.Complaint
import ScriptFront.Proofs.Parser.Outcome
import ScriptFront.Proofs.Parser.Completeness
import ScriptFront.Proofs.Parser.Acceptance
import ScriptFront.Proofs.Lexer.Munch
import ScriptFront.Proofs.Text.Utf8
import ScriptFront.Proofs.Lexer.Spelling
import ScriptFront.Proofs.Lexer.Scan
import ScriptFront.Proofs.Lexer.Fault
import ScriptFront.Proofs.Lexer.Layout
import ScriptFront.Proofs.Lexer.Writing
import ScriptFront.Proofs.Lexer.Yield
import ScriptFront.Proofs.Lexer.Interruption
import ScriptFront.Proofs.Parser.Laziness
import ScriptFront.Proofs.Parser.Source
import ScriptFront.Proofs.Parser.Spans
import ScriptFront.Proofs.Diagnostic.Lines
import ScriptFront.Proofs.Diagnostic.Message
import ScriptFront.Proofs.Diagnostic.Rendering
import ScriptFront.Proofs.Lexer.Concatenation
import ScriptFront.Proofs.Parser.Operations
import ScriptFront.Proofs.Parser.Concatenation
import ScriptFront.Proofs.Parser.Sharing
import ScriptFront.Proofs.Lexer.Operations
import ScriptFront.Proofs.Parser.Printing
import ScriptFront.Proofs.Session
import ScriptFront.Proofs.Number.Decimal
import ScriptFront.Proofs.Number.Plain
import ScriptFront.Proofs.Parser.Parentheses
import ScriptFront.Proofs.Parser.Kinds
import ScriptFront.Proofs.Parser.Limit
import ScriptFront.Proofs.Parser.Restraint
import ScriptFront.Proofs.Parser.Depth
import ScriptFront.Proofs.Diagnostic.Location
import ScriptFront.Proofs.Lexer.Choice
import ScriptFront.Proofs.Parser.Compact
import ScriptFront.Proofs.Expr.Preorder
import ScriptFront.Proofs.Number.Value
import ScriptFront.Proofs.Literal.Number
import ScriptFront.Proofs.Number.Numeral
import ScriptFront.Proofs.Number.Lenient
import ScriptFront.Proofs.Number.Nearest
import ScriptFront.Proofs.Number.Division
import ScriptFront.Proofs.Distinct
import ScriptFront.Proofs.Literal.Equality
import ScriptFront.Proofs.Lexer.Range
