import BuiltInScript.Lexing.ModeStack
import BuiltInScript.Lexing.Scanner

/-!
# Lexers

The lexical rules of a language are one function: from the state and the folded text ahead to the
kind and length of the next token and the state after it. A lexer applies them to a source.

A rule reads at least one character, because it states how many characters follow the first, and
what it cannot read does not count, because reading stops at the end of the input. So whatever the
rules say, the tokens of a source follow each other without gaps up to its end.
-/
namespace BuiltInScript

/-- What stands at the head of a text: a kind, and how many characters after the first. -/
structure Lexeme (K : Type) where
  kind : K
  more : Nat
deriving DecidableEq, Repr

/-- What a lexer remembers between tokens: modes, and whatever else a language needs. -/
structure LexState (M F : Type) where
  modes : ModeStack M
  memory : F
deriving DecidableEq, Repr

namespace LexState

variable {M F : Type}

def mode (s : LexState M F) : M := s.modes.current

def setMode (s : LexState M F) (mode : M) : LexState M F := { s with modes := s.modes.set mode }

def pushMode (s : LexState M F) (mode : M) : LexState M F := { s with modes := s.modes.push mode }

def popMode (s : LexState M F) : LexState M F := { s with modes := s.modes.pop }

end LexState

/-- The lexical rules of a language. -/
structure LexicalRules (K M F : Type) where
  initialMode : M
  initialMemory : F
  /-- Reads a token from a text, given by its first character and the others, all folded. -/
  read : LexState M F → Char → List Char → Lexeme K × LexState M F

namespace LexicalRules

variable {K M F : Type}

/-- The state at the beginning of a source. -/
def initial (rules : LexicalRules K M F) : LexState M F :=
  ⟨.ofInitial rules.initialMode, rules.initialMemory⟩

end LexicalRules

/-- A source being read by the rules of a language. Mirrors `Lexer` and `QueryLexer`. -/
structure Lexer {K M F : Type} (rules : LexicalRules K M F) where
  scanner : Scanner := .empty
  state : LexState M F := rules.initial

namespace Lexer

variable {K M F : Type} {rules : LexicalRules K M F}

/-- Goes back to the beginning of the input and forgets everything. Mirrors `TokenSource.reset`. -/
def reset (l : Lexer rules) : Lexer rules :=
  { scanner := l.scanner.rewind, state := rules.initial }

/-- Mirrors `TokenSource.set_input`. -/
def setInput (l : Lexer rules) (stream : CharStream) : Lexer rules :=
  { l with scanner := l.scanner.setInput stream }.reset

/-- Mirrors `Lexer.from_text` and `QueryLexer.from_text`. -/
def ofText (rules : LexicalRules K M F) (name text : String) : Lexer rules :=
  ({} : Lexer rules).setInput (.ofText name text)

/-- Mirrors `TokenSource.source_name`. -/
def sourceName (l : Lexer rules) : String := l.scanner.stream.name

/-- Mirrors `TokenSource.mode`. -/
def mode (l : Lexer rules) : M := l.state.mode

/-- Mirrors `TokenSource.set_mode`. -/
def setMode (l : Lexer rules) (mode : M) : Lexer rules := { l with state := l.state.setMode mode }

/-- Mirrors `TokenSource.push_mode`. -/
def pushMode (l : Lexer rules) (mode : M) : Lexer rules :=
  { l with state := l.state.pushMode mode }

/-- Goes back to the mode before; the mode that was left comes with it. Mirrors
`TokenSource.pop_mode`. -/
def popMode (l : Lexer rules) : M × Lexer rules := (l.mode, { l with state := l.state.popMode })

variable [TokenKind K]

/-- The next token. At the end of the input it is the end marker, again and again. Mirrors
`TokenSource.next_token`. -/
def next (l : Lexer rules) : Token K × Lexer rules :=
  let scanner := l.scanner.beginToken
  match scanner.ahead with
  | [] =>
    let (token, scanner) := scanner.emitKind TokenKind.endOfInput
    (token, { l with scanner })
  | c :: cs =>
    let (lexeme, state) := rules.read l.state c cs
    let (token, scanner) := (scanner.advanceBy (lexeme.more + 1)).emitKind lexeme.kind
    (token, { scanner, state })

/-- Whatever the rules say, the text that is read stays the same. -/
@[simp] theorem chars_next (l : Lexer rules) :
    l.next.2.scanner.stream.chars = l.scanner.stream.chars := by
  unfold next
  dsimp only
  split
  · rfl
  · simp [Scanner.emitKind]

/-- Up to `n` tokens, ending with the end marker if it is among them. -/
def tokensUpTo [DecidableEq K] (l : Lexer rules) : Nat → List (Token K) × Lexer rules
  | 0 => ([], l)
  | n + 1 =>
    let (token, l) := l.next
    if token.isEnd then ([token], l)
    else
      let (tokens, l) := l.tokensUpTo n
      (token :: tokens, l)

/-- The tokens of the rest of the input, the end marker last. There are at most as many tokens
before it as characters, since each has at least one. Mirrors `TokenSource.tokenize`. -/
def tokenize [DecidableEq K] (l : Lexer rules) : List (Token K) × Lexer rules :=
  l.tokensUpTo (l.scanner.ahead.length + 1)

end Lexer

/-- The tokens of a text, the end marker last. -/
def LexicalRules.tokenize {K M F : Type} [TokenKind K] [DecidableEq K]
    (rules : LexicalRules K M F) (name text : String) : List (Token K) :=
  (Lexer.ofText rules name text).tokenize.1

end BuiltInScript
