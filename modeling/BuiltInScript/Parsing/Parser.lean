import BuiltInScript.Parsing.Fault
import BuiltInScript.Token.Cursor
import BuiltInScript.Tree

/-!
# Parsers

A parser reads tokens from a cursor and reports what it finds wrong. It predicts in one of two
ways: optimistically, looking ahead a bounded distance and giving up at the first fault, or in
general, looking ahead as far as it needs and recovering from faults.

A failing parser keeps the place it has come to and what it has reported. The rules that are open
when something goes wrong are noted down, the innermost last.
-/
namespace BuiltInScript

/-- Mirrors `PredictionMode`. -/
inductive Prediction where
  | optimistic | general
deriving DecidableEq, Repr, Inhabited

/-- How far a parser may look ahead, if there is a bound. Mirrors `OPTIMISTIC_LOOKAHEAD`. -/
def Prediction.lookaheadBound : Prediction → Option Nat
  | .optimistic => some 64
  | .general => none

/-- What remains of a parse: how it predicted and what it reported. Mirrors `ParserState`. -/
structure Report where
  mode : Prediction := .general
  errorCount : Nat := 0
  diagnostics : List Diagnostic := []
deriving DecidableEq, Repr, Inhabited

namespace Report

/-- Forgets what was reported. Mirrors `ParserState.reset`. -/
def reset (r : Report) : Report := { r with errorCount := 0, diagnostics := [] }

/-- Mirrors `ParserState.set_mode`. -/
def setMode (r : Report) (mode : Prediction) : Report := { r with mode }

/-- Mirrors what `Parser.emit_diagnostic` does to the state. -/
def add (r : Report) (d : Diagnostic) : Report :=
  { r with
    errorCount := if d.isError then r.errorCount + 1 else r.errorCount
    diagnostics := r.diagnostics ++ [d] }

@[simp] theorem diagnostics_add (r : Report) (d : Diagnostic) :
    (r.add d).diagnostics = r.diagnostics ++ [d] := rfl

@[simp] theorem mode_add (r : Report) (d : Diagnostic) : (r.add d).mode = r.mode := rfl

theorem errorCount_add (r : Report) (d : Diagnostic) :
    (r.add d).errorCount = r.errorCount + d.isError.toNat := by
  cases h : d.isError <;> simp [add, h]

/-- A report that is reset and given a mode is as good as new. -/
@[simp] theorem setMode_reset (r : Report) (mode : Prediction) :
    r.reset.setMode mode = { mode } := rfl

/-- The diagnostics, and the report without them. Mirrors `ParserState.take_diagnostics`. -/
def takeDiagnostics (r : Report) : List Diagnostic × Report :=
  (r.diagnostics, { r with diagnostics := [] })

end Report

/-- Something could not be parsed: where, and within which rules, the innermost last. Mirrors
`ParseError`. -/
structure ParseError where
  span : Span
  traceback : List String
deriving DecidableEq, Repr, Inhabited

/-- A parser at work. Mirrors `Parser`. -/
structure Parser (K : Type) where
  cursor : Cursor K
  report : Report := {}
  /-- Names of the rules being parsed, the innermost last. -/
  scopes : List String := []

/-- A failure at a place, within the rules being parsed. Mirrors `Parser.make_error`. -/
def Parser.errorAt {K : Type} (p : Parser K) (span : Span) : ParseError := ⟨span, p.scopes⟩

/-- An action of a parser. -/
abbrev Parse (K α : Type) := EStateM ParseError (Parser K) α

namespace Parse

variable {K : Type} [DecidableEq K] [TokenKind K] {α : Type}

/-! ## Looking and moving -/

/-- Mirrors `Parser.peek`. -/
def peek : Parse K (Token K) := fun p => .ok p.cursor.peek p

/-- Mirrors `Parser.peek_kind`. -/
def peekKind : Parse K K := fun p => .ok p.cursor.peek.kind p

/-- Position of the next token in the token list. Mirrors `TokenCursor.position`. -/
def position : Parse K Nat := fun p => .ok p.cursor.position p

/-- Number of tokens before the end marker. -/
def remaining : Parse K Nat := fun p => .ok p.cursor.ahead.length p

/-- Whether the next token is of a kind. Mirrors `Parser.at`. -/
def at? (kind : K) : Parse K Bool := fun p => .ok (p.cursor.peek.kind = kind) p

/-- Mirrors `Parser.next`. -/
def next : Parse K (Token K) := fun p => .ok p.cursor.peek { p with cursor := p.cursor.advance }

/-- Passes `n` tokens. -/
def skip (n : Nat) : Parse K Unit := fun p => .ok () { p with cursor := p.cursor.skip n }

/-- Passes all tokens before the end marker. -/
def skipAll : Parse K Unit :=
  fun p => .ok () { p with cursor := p.cursor.skip p.cursor.ahead.length }

/-- Takes the next token if it is of a kind. Mirrors `Parser.eat`. -/
def eat (kind : K) : Parse K (Option (Token K)) := fun p =>
  if p.cursor.peek.kind = kind then
    .ok (some p.cursor.peek) { p with cursor := p.cursor.advance }
  else .ok none p

/-! ## Faults -/

/-- Mirrors the note that `Parser.emit_diagnostic` adds. -/
def traceback (scopes : List String) : Note :=
  ⟨.debug, scopes.foldl (fun text rule => text ++ "\n    " ++ rule)
    "parser traceback (innermost rule last):"⟩

/-- Reports a diagnostic, with the rules being parsed as its last note. Mirrors
`Parser.emit_diagnostic`. -/
def emit (d : Diagnostic) : Parse K Unit := fun p =>
  .ok () { p with report := p.report.add (d.withNote (traceback p.scopes)) }

/-- Reports a fault and fails where it was found. Mirrors `Parser.bail`. -/
def fail (fault : Fault K) : Parse K α := fun p =>
  .error (p.errorAt fault.span)
    { p with report := p.report.add (fault.diagnostic.withNote (traceback p.scopes)) }

/-- Fails with a fault about the next token. -/
def failHere (fault : Token K → Fault K) : Parse K α := fun p => fail (fault p.cursor.peek) p

/-- Mirrors `Parser.unexpected`. -/
def unexpected (wanted : String) : Parse K α := failHere (.unexpected wanted)

/-- Takes the next token, which must be of a kind. Mirrors `Parser.expect_with`. -/
def expectOr (kind : K) (fault : Token K → Fault K) : Parse K (Token K) := fun p =>
  if p.cursor.peek.kind = kind then .ok p.cursor.peek { p with cursor := p.cursor.advance }
  else failHere fault p

/-- Mirrors `Parser.expect`. -/
def expect (kind : K) : Parse K (Token K) := expectOr kind (.expected kind)

/-! ## Looking ahead -/

/-- Looks past `n` tokens, of which only `cost` count against the bound. Giving up because of the
bound is not reported. Mirrors `Parser.lookahead_charged`. -/
def lookaheadCharged (n cost : Nat) : Parse K (Token K) := fun p =>
  if p.report.mode.lookaheadBound.any (· ≤ cost) then
    .error (p.errorAt p.cursor.peek.span) p
  else .ok (p.cursor.peekNth n) p

/-- Looks past `n` tokens. Mirrors `Parser.lookahead`. -/
def lookahead (n : Nat) : Parse K (Token K) := lookaheadCharged n n

/-! ## Rules -/

/-- Parses with a rule being open. Mirrors `Parser.scope_mut`. -/
def within (rule : String) (action : Parse K α) : Parse K α := fun p =>
  match action { p with scopes := p.scopes ++ [rule] } with
  | .ok a q => .ok a { q with scopes := p.scopes }
  | .error e q => .error e { q with scopes := p.scopes }

/-- Makes a failure a value. -/
def attempt (action : Parse K α) : Parse K (Except ParseError α) := fun p =>
  match action p with
  | .ok a q => .ok (.ok a) q
  | .error e q => .ok (.error e) q

/-- Runs an action from a cursor: its result, the cursor after it, and the report. -/
def runOn (action : Parse K α) (report : Report) (cursor : Cursor K) :
    Except ParseError α × Cursor K × Report :=
  match action { cursor, report } with
  | .ok a p => (.ok a, p.cursor, p.report)
  | .error e p => (.error e, p.cursor, p.report)

end Parse

/-- A rule is closed again when it has been parsed, also if that fails. -/
theorem Parse.scopes_within {K α : Type} (rule : String) (action : Parse K α) (p : Parser K) :
    (match within rule action p with | .ok _ q | .error _ q => q.scopes) = p.scopes := by
  unfold within
  split <;> rename_i h <;> split at h <;> cases h <;> rfl

end BuiltInScript
