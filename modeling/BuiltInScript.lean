import BuiltInScript.Compilation.ConditionStack
import BuiltInScript.Compilation.Fault
import BuiltInScript.Compilation.Piece
import BuiltInScript.Compilation.Preprocessor
import BuiltInScript.Compilation.Scan
import BuiltInScript.Compilation.SymbolTable
import BuiltInScript.Diagnostic
import BuiltInScript.Diagnostic.Layout
import BuiltInScript.Diagnostic.Sink
import BuiltInScript.Languages
import BuiltInScript.Lexing.CharStream
import BuiltInScript.Lexing.Lexer
import BuiltInScript.Lexing.ModeStack
import BuiltInScript.Lexing.Scanner
import BuiltInScript.Lexing.WordTable
import BuiltInScript.Memo
import BuiltInScript.Module.Condition
import BuiltInScript.Module.Directive
import BuiltInScript.Module.Expression
import BuiltInScript.Module.Grammar
import BuiltInScript.Module.Kind
import BuiltInScript.Module.Lexis
import BuiltInScript.Module.PlatformSymbol
import BuiltInScript.Module.Words
import BuiltInScript.Name
import BuiltInScript.Name.Borrowed
import BuiltInScript.Name.Set
import BuiltInScript.Parsing.Fault
import BuiltInScript.Parsing.Parser
import BuiltInScript.Parsing.Parts
import BuiltInScript.Parsing.Recovery
import BuiltInScript.Parsing.TwoPhase
import BuiltInScript.Proofs.Compilation.Blocks
import BuiltInScript.Proofs.Compilation.Deletion
import BuiltInScript.Proofs.Compilation.Extents
import BuiltInScript.Proofs.Compilation.Folding
import BuiltInScript.Proofs.Compilation.Inside
import BuiltInScript.Proofs.Compilation.Lines
import BuiltInScript.Proofs.Compilation.Matching
import BuiltInScript.Proofs.Compilation.OpenDeletion
import BuiltInScript.Proofs.Compilation.Preprocessor
import BuiltInScript.Proofs.Compilation.Regions
import BuiltInScript.Proofs.Compilation.Selection
import BuiltInScript.Proofs.Compilation.Structure
import BuiltInScript.Proofs.Compilation.Symbols
import BuiltInScript.Proofs.Compilation.Zones
import BuiltInScript.Proofs.EndMarker
import BuiltInScript.Proofs.Fallback
import BuiltInScript.Proofs.Histories
import BuiltInScript.Proofs.Languages
import BuiltInScript.Proofs.Lexing.Counting
import BuiltInScript.Proofs.Lexing.Folding
import BuiltInScript.Proofs.Lexing.Pieces
import BuiltInScript.Proofs.Lexing.Positions
import BuiltInScript.Proofs.Lexing.Tiling
import BuiltInScript.Proofs.Lexing.Words
import BuiltInScript.Proofs.Members
import BuiltInScript.Proofs.Module.Accounts
import BuiltInScript.Proofs.Module.Areas
import BuiltInScript.Proofs.Module.Asynchrony
import BuiltInScript.Proofs.Module.Breaks
import BuiltInScript.Proofs.Module.ConditionGrammar
import BuiltInScript.Proofs.Module.Counting
import BuiltInScript.Proofs.Module.Derivation
import BuiltInScript.Proofs.Module.Directive
import BuiltInScript.Proofs.Module.DirectiveGrammar
import BuiltInScript.Proofs.Module.DirectiveLines
import BuiltInScript.Proofs.Module.Folding
import BuiltInScript.Proofs.Module.Inheritance
import BuiltInScript.Proofs.Module.Lexis
import BuiltInScript.Proofs.Module.LibraryPaths
import BuiltInScript.Proofs.Module.Likeness
import BuiltInScript.Proofs.Module.Literals
import BuiltInScript.Proofs.Module.LongestRun
import BuiltInScript.Proofs.Module.Making
import BuiltInScript.Proofs.Module.Moves
import BuiltInScript.Proofs.Module.Nesting
import BuiltInScript.Proofs.Module.PlatformSymbols
import BuiltInScript.Proofs.Module.Printing
import BuiltInScript.Proofs.Module.Regular
import BuiltInScript.Proofs.Module.Runs
import BuiltInScript.Proofs.Names
import BuiltInScript.Proofs.Parsing.Accounts
import BuiltInScript.Proofs.Parsing.Action
import BuiltInScript.Proofs.Parsing.Agreement
import BuiltInScript.Proofs.Parsing.Foretelling
import BuiltInScript.Proofs.Parsing.Inside
import BuiltInScript.Proofs.Parsing.Layout
import BuiltInScript.Proofs.Parsing.Likeness
import BuiltInScript.Proofs.Parsing.Longer
import BuiltInScript.Proofs.Parsing.Loops
import BuiltInScript.Proofs.Parsing.Reading
import BuiltInScript.Proofs.Parsing.Regular
import BuiltInScript.Proofs.Parsing.Reports
import BuiltInScript.Proofs.Parsing.Skipping
import BuiltInScript.Proofs.Parsing.Whole
import BuiltInScript.Proofs.Positions
import BuiltInScript.Proofs.Query.Accounts
import BuiltInScript.Proofs.Query.Body
import BuiltInScript.Proofs.Query.Breaks
import BuiltInScript.Proofs.Query.Lexis
import BuiltInScript.Proofs.Query.Moves
import BuiltInScript.Proofs.Query.Package
import BuiltInScript.Proofs.Query.Regular
import BuiltInScript.Proofs.Reporting
import BuiltInScript.Proofs.Source.Breaks
import BuiltInScript.Proofs.Source.Inside
import BuiltInScript.Proofs.Source.Lines
import BuiltInScript.Proofs.Source.Ranges
import BuiltInScript.Proofs.SourceUnit
import BuiltInScript.Proofs.Token.Cursor
import BuiltInScript.Proofs.Token.Track
import BuiltInScript.Proofs.Tree.Views
import BuiltInScript.Query.Grammar
import BuiltInScript.Query.Kind
import BuiltInScript.Query.Lexis
import BuiltInScript.Query.Words
import BuiltInScript.Source.File
import BuiltInScript.Source.Position
import BuiltInScript.Source.Span
import BuiltInScript.SourceUnit
import BuiltInScript.Text.Alphabetic
import BuiltInScript.Text.Blank
import BuiltInScript.Text.Bytes
import BuiltInScript.Text.CodePoints
import BuiltInScript.Text.Numeric
import BuiltInScript.Text.Upper
import BuiltInScript.Text.Width
import BuiltInScript.Text.Word
import BuiltInScript.Token
import BuiltInScript.Token.Cursor
import BuiltInScript.Tree
