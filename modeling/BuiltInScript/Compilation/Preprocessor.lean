import BuiltInScript.Compilation.Scan
import BuiltInScript.SourceUnit

/-!
# Conditional compilation

A preprocessor stands between the lexer and the parser: it drops the code of branches that are not
chosen and of deletion zones, and has the rest parsed as a module.
-/
namespace BuiltInScript.Compilation

open BuiltInScript.Module

/-- What preprocessing a module gives. Mirrors `Preprocessed`. -/
structure Preprocessed where
  /-- The code that is compiled, and a hidden end marker. -/
  tokens : List (Token Kind)
  tree : Node Rule Kind
  /-- How the parse of the compiled code predicted. -/
  mode : Prediction
  regions : List Region
  zones : List Zone
  diagnostics : List Diagnostic
  errorCount : Nat

/-- A symbol table, and the report that the parser left behind. Mirrors `Preprocessor`. -/
structure Preprocessor where
  symbols : SymbolTable
  report : Report := {}

namespace Preprocessor

/-- Scans the full token list of a module. Mirrors `Preprocessor.preprocess` up to the parse. -/
def scan (p : Preprocessor) (tokens : List (Token Kind)) : Scan × Report :=
  let (events, report) := readPieces p.report (piecesFrom 0 tokens)
  ((events.foldl (Scan.step p.symbols) {}).finish tokens, report)

/-- The code that a scan selected, followed by the hidden end marker of the token list. Mirrors what
`Preprocessor.preprocess` has parsed. -/
def compiled (s : Scan) (tokens : List (Token Kind)) : List (Token Kind) :=
  s.code ++ [{ Token.endOf tokens with channels := .hiddenOnly }]

/-- Preprocesses the full token list of a module, hidden tokens included. Mirrors
`Preprocessor.preprocess`. -/
def preprocess (p : Preprocessor) (tokens : List (Token Kind)) : Preprocessed × Preprocessor :=
  let (scan, report) := p.scan tokens
  let code := compiled scan tokens
  let (parsed, report) := moduleLanguage.parse report code
  let diagnostics := scan.diagnostics ++ parsed.diagnostics
  ({ tokens := code, tree := parsed.tree, mode := parsed.mode, regions := scan.regions
     zones := scan.zones, diagnostics
     errorCount := (diagnostics.filter Diagnostic.isError).length },
   { p with report })

/-- Preprocesses a source unit. Mirrors `Preprocessor.preprocess_tokenizer`. -/
def preprocessUnit (p : Preprocessor) (u : SourceUnit moduleLanguage) :
    Preprocessed × Preprocessor :=
  p.preprocess u.tokens.1

end Preprocessor
end BuiltInScript.Compilation
