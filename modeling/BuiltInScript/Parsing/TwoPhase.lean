import BuiltInScript.Lexing.Lexer
import BuiltInScript.Parsing.Parser

/-!
# Two phases of parsing

Most sources are sound, so a source is first parsed optimistically. Only if that meets with any
fault is it parsed again in general, from the beginning.
-/
namespace BuiltInScript

/-- A language: its tokens and its grammar. Mirrors `SyntaxAutomaton`, with the lexer that goes with
it. -/
structure Language (K R M F : Type) where
  lexicalRules : LexicalRules K M F
  /-- The rule of a whole source. -/
  root : Parse K (Node R K)
  rootRule : R

/-- What parsing a token list gives. Mirrors `Parsed`. -/
structure Parsed (R K : Type) where
  tree : Node R K
  /-- How the parse that made the tree predicted. -/
  mode : Prediction
  errorCount : Nat
  diagnostics : List Diagnostic

namespace Language

variable {K R M F : Type} [DecidableEq K] [TokenKind K]

/-- The result of a parse, and the report without its diagnostics. -/
def conclude (tree : Node R K) (report : Report) : Parsed R K × Report :=
  let (diagnostics, rest) := report.takeDiagnostics
  (⟨tree, report.mode, report.errorCount, diagnostics⟩, rest)

/-- Parses what a cursor shows from the beginning, in general. Should even that fail, the tree has
no children. Mirrors the second phase of `parse_two_phase`. -/
def parseGeneral (lang : Language K R M F) (report : Report) (cursor : Cursor K) :
    Parsed R K × Report :=
  let (result, _, report) :=
    lang.root.runOn (report.reset.setMode .general) cursor
  match result with
  | .ok tree => conclude tree report
  | .error _ => conclude (.ofRule lang.rootRule) report

/-- Parses the code of a token list. The report is what a former parse left behind; it makes no
difference to the result. Mirrors `parse_two_phase`. -/
def parse (lang : Language K R M F) (report : Report) (tokens : List (Token K)) :
    Parsed R K × Report :=
  let (result, cursor, report) :=
    lang.root.runOn (report.reset.setMode .optimistic) (.onCode tokens)
  match result with
  | .ok tree =>
    if report.errorCount = 0 then conclude tree report
    else lang.parseGeneral report cursor.rewind
  | .error _ => lang.parseGeneral report cursor.rewind

/-- What a former parse left behind makes no difference, not even to what this one leaves. -/
theorem parse_report (lang : Language K R M F) (report report' : Report)
    (tokens : List (Token K)) : lang.parse report tokens = lang.parse report' tokens := rfl

end Language
end BuiltInScript
