import BuiltInScript.Diagnostic
import BuiltInScript.Token

/-!
# Faults of syntax

What a parser may find wrong, each with the tokens it is about. A fault points at the token where
it was found, and its diagnostic says in words what was expected there.
-/
namespace BuiltInScript

/-- Mirrors the diagnostics of `Parser.expect`, `Parser.unexpected` and the grammar rules. -/
inductive Fault (K : Type) where
  /-- Another kind of token was required. -/
  | expected (kind : K) (found : Token K)
  /-- Something described in words was required. -/
  | unexpected (wanted : String) (found : Token K)
  | unclosedBracket (closer : K) (found opener : Token K)
  | mismatchedBracket (closer : K) (found opener : Token K)
  | unterminatedStatement (found : Token K)
  | unterminatedMethod (closer : K) (found : Token K)
  | missingRegionName (found : Token K)
  | missingLibraryName (found : Token K)
  | unknownDirective (found hash : Token K)
  | missingThen (found : Token K)
  | missingSymbol (found : Token K)
  | extraAfterDirective (found : Token K)
deriving DecidableEq, Repr

namespace Fault

variable {K : Type}

/-- The token that a fault is about. -/
def found : Fault K → Token K
  | .expected _ t | .unexpected _ t | .unclosedBracket _ t _ | .mismatchedBracket _ t _
  | .unterminatedStatement t | .unterminatedMethod _ t | .missingRegionName t
  | .missingLibraryName t | .unknownDirective t _ | .missingThen t | .missingSymbol t
  | .extraAfterDirective t => t

def span (f : Fault K) : Span := f.found.span

variable [TokenKind K]

def message : Fault K → String
  | .expected kind _ => s!"{TokenKind.title kind} expected"
  | .unexpected _ found => s!"unexpected {TokenKind.title found.kind}"
  | .unclosedBracket closer _ _ => s!"{TokenKind.title closer} expected"
  | .mismatchedBracket closer _ _ => s!"{TokenKind.title closer} expected"
  | .unterminatedStatement _ => "`;` expected"
  | .unterminatedMethod closer _ => s!"{TokenKind.title closer} expected"
  | .missingRegionName _ => "region name expected"
  | .missingLibraryName _ => "library name expected"
  | .unknownDirective found _ => s!"unknown preprocessor directive `{found.text}`"
  | .missingThen _ => "`Тогда` expected after the condition"
  | .missingSymbol found => s!"build symbol expected, found {TokenKind.title found.kind}"
  | .extraAfterDirective found => s!"unexpected {TokenKind.title found.kind} after directive"

/-- The places that a fault is about, the token where it was found first. -/
def labels : Fault K → List Label
  | .expected kind found => [.primary found.span s!"{TokenKind.title kind} expected here"]
  | .unexpected wanted found => [.primary found.span s!"{wanted} expected here"]
  | .unclosedBracket _ found opener =>
    [.primary found.span "the bracket should be closed here",
     .secondary opener.span "opened here"]
  | .mismatchedBracket _ found opener =>
    [.primary found.span "mismatched bracket", .secondary opener.span "opened here"]
  | .unterminatedStatement found =>
    [.primary found.span "the statement should end before this"]
  | .unterminatedMethod _ found => [.primary found.span "the method should end here"]
  | .missingRegionName found => [.primary found.span "name expected here"]
  | .missingLibraryName found => [.primary found.span "name expected here"]
  | .unknownDirective found hash =>
    [.primary found.span "not a directive", .secondary hash.span "directive starts here"]
  | .missingThen found => [.primary found.span "`Тогда` expected here"]
  | .missingSymbol found => [.primary found.span "symbol expected here"]
  | .extraAfterDirective found => [.primary found.span "the directive should end before this"]

def notes : Fault K → List Note
  | .expected _ found => [⟨.debug, s!"at token {found}"⟩]
  | _ => []

def diagnostic (f : Fault K) : Diagnostic :=
  { severity := .error, message := f.message, labels := f.labels, notes := f.notes }

@[simp] theorem isError_diagnostic (f : Fault K) : f.diagnostic.isError = true := rfl

end Fault
end BuiltInScript
