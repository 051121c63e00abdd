import BuiltInScript.Module.Directive

/-!
# Pieces of a module

Before anything is compiled the tokens of a module fall into pieces: patch markers, directive
lines, and single tokens of anything else. A directive line runs from its `#` to the end of the
line, or up to the next `#`, patch marker or end marker. Nothing after an end marker counts.

The directives are then read, each over its own line of tokens. Neither depends on what the module
is compiled for.
-/
namespace BuiltInScript.Compilation

open BuiltInScript.Module

/-- Positions in a token list, from the first up to but not including the next after the last. -/
structure TokenRange where
  first : Nat
  next : Nat
deriving DecidableEq, Repr, Inhabited

inductive Piece where
  | marker (directive : Directive) (token : Token Kind) (range : TokenRange)
  /-- A directive line without its hidden tokens. -/
  | line (hash : Token Kind) (tokens : List (Token Kind)) (range : TokenRange)
  | other (token : Token Kind)
deriving Repr

/-- The tokens of a directive line after its `#`, without the hidden ones, and how many tokens the
line takes. Mirrors `directive_line`. -/
def lineRest : List (Token Kind) → List (Token Kind) × Nat
  | [] => ([], 0)
  | t :: ts =>
    if t.kind = .dirNewline then ([], 1)
    else if t.kind = .hash || t.isEnd || t.kind.isPatchMarker then ([], 0)
    else
      let (line, n) := lineRest ts
      (if t.channels = .hiddenOnly then line else t :: line, n + 1)

theorem lineRest_le_length (tokens : List (Token Kind)) :
    (lineRest tokens).2 ≤ tokens.length := by
  induction tokens with
  | nil => simp [lineRest]
  | cons t ts ih =>
    unfold lineRest
    split
    · simp
    · split
      · simp
      · simpa using ih

/-- The pieces of tokens that begin at a position of the token list. Mirrors how
`Preprocessor.preprocess` takes a token list apart. -/
def piecesFrom (position : Nat) : List (Token Kind) → List Piece
  | [] => []
  | t :: ts =>
    match Directive.ofPatchMarker? t.kind with
    | some directive =>
      .marker directive t ⟨position, position + 1⟩ :: piecesFrom (position + 1) ts
    | none =>
      if t.isEnd then []
      else if t.kind = .hash then
        let (line, n) := lineRest ts
        .line t line ⟨position, position + 1 + n⟩ :: piecesFrom (position + 1 + n) (ts.drop n)
      else .other t :: piecesFrom (position + 1) ts
termination_by tokens => tokens.length
decreasing_by all_goals simp only [List.length_cons, List.length_drop]; omega

/-- A piece whose directive has been read. -/
inductive Event where
  /-- What was reported while reading a directive, the directive if there is one, the bytes of its
  first to its last token, and its tokens. -/
  | directive (reported : List Diagnostic) (found : Option Directive) (span : Span)
      (range : TokenRange)
  | other (token : Token Kind)
deriving Repr

/-- Reads a directive line. The report is what a former parse left behind. Mirrors
`Preprocessor.directive`. -/
def readLine (report : Report) (line : List (Token Kind)) :
    List Diagnostic × Option Directive × Report :=
  let (result, _, report) :=
    directive.runOn (report.reset.setMode .general) (.onCode line)
  let (diagnostics, report) := report.takeDiagnostics
  (diagnostics, result.toOption, report)

/-- Reads the directives of some pieces. -/
def readPieces (report : Report) : List Piece → List Event × Report
  | [] => ([], report)
  | .marker directive token range :: pieces =>
    let (events, report) := readPieces report pieces
    (.directive [] (some directive) token.span range :: events, report)
  | .line hash tokens range :: pieces =>
    let (diagnostics, found, report) := readLine report (hash :: tokens)
    let span := hash.span.join (tokens.getLastD hash).span
    let (events, report) := readPieces report pieces
    (.directive diagnostics found span range :: events, report)
  | .other token :: pieces =>
    let (events, report) := readPieces report pieces
    (.other token :: events, report)

end BuiltInScript.Compilation
