import BuiltInScript.Languages
import BuiltInScript.Memo
import BuiltInScript.Source.File

/-!
# Source units

A named source with its tokens and its tree, which are computed when first asked for and kept until
the text is replaced. The lexer and the parser's report are made once and used again for every
text.

Whatever computes something gives it together with the unit that remembers it. How a diagnostic is
shown is not the unit's concern: it is given a renderer.
-/
namespace BuiltInScript

/-- Shows a diagnostic against its source, or says why it cannot. Mirrors the type of
`Diagnostic.emit_to_string`. -/
abbrev Renderer (E : Type) := SourceFile → Diagnostic → Except E String

/-- Why there is no source unit. Mirrors `TokenizerError`. -/
inductive UnitError where
  | unreadable (cause : DecodeError)
  | noGrammar (message : String)
deriving DecidableEq, Repr

/-- Mirrors the texts of `TokenizerError`. -/
def UnitError.message : UnitError → String
  | .unreadable cause => "cannot read source: " ++ cause.message
  | .noGrammar message => "cannot construct syntax automaton: " ++ message

variable {K R M F : Type}

/-- Mirrors `Tokenizer`. -/
structure SourceUnit (lang : Language K R M F) where
  name : String
  /-- The text without its byte order mark. -/
  text : String
  lexer : Lexer lang.lexicalRules
  report : Report
  tokenMemo : Memo (List (Token K)) := {}
  parsedMemo : Memo (Parsed R K) := {}

/-- Puts the last token on the hidden channel. Mirrors the last step of `Tokenizer.tokens`. -/
def hideLast : List (Token K) → List (Token K)
  | [] => []
  | [t] => [{ t with channels := .hiddenOnly }]
  | t :: ts => t :: hideLast ts

@[simp] theorem length_hideLast (tokens : List (Token K)) :
    (hideLast tokens).length = tokens.length := by
  fun_induction hideLast tokens <;> simp_all

theorem hideLast_concat (body : List (Token K)) (marker : Token K) :
    hideLast (body ++ [marker]) = body ++ [{ marker with channels := .hiddenOnly }] := by
  induction body with
  | nil => rfl
  | cons t ts ih =>
    cases ts with
    | nil => rfl
    | cons u us => exact congrArg (t :: ·) ih

namespace SourceUnit

variable {lang : Language K R M F}

/-- A unit that uses the given lexer, and the given parser if that could be made. Mirrors
`Tokenizer.new`. -/
def ofText (name text : String) (lexer : Lexer lang.lexicalRules)
    (parser : Except String Report) : Except UnitError (SourceUnit lang) :=
  match parser with
  | .ok report => .ok { name, text := Text.stripByteOrderMark text, lexer, report }
  | .error message => .error (.noGrammar message)

/-- Reads the whole source before anything else happens. Mirrors `Tokenizer.from_reader`. -/
def ofBytes (name : String) (bytes : ByteArray) (lexer : Lexer lang.lexicalRules)
    (parser : Except String Report) : Except UnitError (SourceUnit lang) :=
  match CharStream.ofBytes name bytes with
  | .ok stream => ofText name (stream.text 0 stream.size) lexer parser
  | .error cause => .error (.unreadable cause)

/-- A unit with a lexer and a parser of its own. Mirrors `Tokenizer.module` and
`Tokenizer.query`. -/
def fresh (lang : Language K R M F) (name text : String) : SourceUnit lang :=
  { name, text := Text.stripByteOrderMark text, lexer := {}, report := {} }

/-- Replaces the text. Mirrors `Tokenizer.rebuild`. -/
def rebuild (u : SourceUnit lang) (text : String) : SourceUnit lang :=
  { u with text := Text.stripByteOrderMark text, tokenMemo := {}, parsedMemo := {} }

/-- Only the text that was given last counts. -/
@[simp] theorem rebuild_rebuild (u : SourceUnit lang) (first second : String) :
    (u.rebuild first).rebuild second = u.rebuild second := rfl

/-- Mirrors `Tokenizer.source_file`. -/
def sourceFile (u : SourceUnit lang) : SourceFile := .ofText u.name u.text

variable [DecidableEq K] [TokenKind K]

/-- All tokens, ending with the end marker, which is hidden. Mirrors `Tokenizer.tokens`. -/
def tokens (u : SourceUnit lang) : List (Token K) × SourceUnit lang :=
  match u.tokenMemo.value? with
  | some tokens => (tokens, u)
  | none =>
    let (tokens, lexer) := (u.lexer.setInput (.ofText u.name u.text)).tokenize
    let tokens := hideLast tokens
    (tokens, { u with lexer, tokenMemo := ⟨some tokens⟩ })

/-- Mirrors `Tokenizer.parsed`. -/
def parsed (u : SourceUnit lang) : Parsed R K × SourceUnit lang :=
  match u.parsedMemo.value? with
  | some parsed => (parsed, u)
  | none =>
    let (tokens, u) := u.tokens
    let (parsed, report) := lang.parse u.report tokens
    (parsed, { u with report, parsedMemo := ⟨some parsed⟩ })

/-- Mirrors `Tokenizer.ast`. -/
def tree (u : SourceUnit lang) : Node R K × SourceUnit lang :=
  let (parsed, u) := u.parsed
  (parsed.tree, u)

/-- Mirrors `Tokenizer.error_count`. -/
def errorCount (u : SourceUnit lang) : Nat × SourceUnit lang :=
  let (parsed, u) := u.parsed
  (parsed.errorCount, u)

/-- Mirrors `Tokenizer.diagnostics`. -/
def diagnostics (u : SourceUnit lang) : List Diagnostic × SourceUnit lang :=
  let (parsed, u) := u.parsed
  (parsed.diagnostics, u)

/-- The diagnostics, shown one after another. Mirrors `Tokenizer.render_diagnostics`. -/
def render {E : Type} (u : SourceUnit lang) (renderer : Renderer E) :
    Except E String × SourceUnit lang :=
  let (diagnostics, u) := u.diagnostics
  (diagnostics.foldlM (fun text d => return text ++ (← renderer u.sourceFile d)) "", u)

/-- Asking a second time gives the same tokens. -/
@[simp] theorem tokens_tokens (u : SourceUnit lang) : u.tokens.2.tokens.1 = u.tokens.1 := by
  unfold tokens
  cases h : u.tokenMemo.value? <;> simp [h]

end SourceUnit
end BuiltInScript
