import BuiltInScript.Lexing.CharStream
import BuiltInScript.Text.Blank
import BuiltInScript.Text.Word
import BuiltInScript.Token

/-!
# Scanners

A scanner reads characters and cuts what it has read into tokens: it keeps the line and column of
the place it has come to, where the token being read begins, and how many tokens it has cut.
-/
namespace BuiltInScript

/-- Mirrors `Scanner`. -/
structure Scanner where
  stream : CharStream
  /-- Line and column of the place that reading has come to. -/
  position : Position := {}
  /-- Index of the character where the token being read begins. -/
  tokenStart : Nat := 0
  /-- Line and column where the token being read was begun. -/
  tokenPosition : Position := {}
  /-- Number of tokens cut. -/
  nextIndex : Nat := 0

namespace Scanner

/-- Mirrors `Scanner.new`. -/
def ofStream (stream : CharStream) : Scanner := { stream }

/-- A scanner without input. Mirrors `Scanner.empty`. -/
def empty : Scanner := ofStream (.ofText "" "")

/-- Goes back to the beginning of the input. Mirrors `Scanner.rewind`. -/
def rewind (s : Scanner) : Scanner := { stream := s.stream.seek 0 }

/-- Mirrors `Scanner.set_input`. -/
def setInput (s : Scanner) (stream : CharStream) : Scanner := { s with stream }.rewind

/-- The characters to read, folded. -/
def ahead (s : Scanner) : List Char := s.stream.folded

/-- Mirrors `Scanner.peek_nth`. -/
def peekNth (s : Scanner) (n : Nat) : Option Char := s.stream.lookaheadFolded n

/-- Mirrors `Scanner.current_char`. -/
def current (s : Scanner) : Option Char := s.peekNth 1

/-- Mirrors `Scanner.is_at_end`. -/
def atEnd (s : Scanner) : Bool := s.current.isNone

/-- Mirrors `Scanner.advance_char`. -/
def advance (s : Scanner) : Scanner :=
  let (stream, position) := s.stream.consumeAt s.position
  { s with stream, position }

/-- Mirrors `Scanner.advance_chars`. -/
def advanceBy (s : Scanner) : Nat → Scanner
  | 0 => s
  | n + 1 => s.advance.advanceBy n

/-- Reads the characters that pass a test in folded form, up to the first that does not. Mirrors
`Scanner.advance_while`. -/
def advanceWhile (s : Scanner) (test : Char → Bool) : Scanner :=
  s.advanceBy (s.ahead.takeWhile test).length

/-- Reads up to the end of the line, but not the line break. Mirrors
`Scanner.advance_to_line_end`. -/
def advanceToLineEnd (s : Scanner) : Scanner := s.advanceWhile fun c => !Text.isLineBreak c

/-- Length of the line break that a text begins with, if it does: `\r\n`, `\r` or `\n`. Mirrors what
`Scanner.advance_line_break` reads. -/
def lineBreakLength : List Char → Nat
  | '\r' :: '\n' :: _ => 2
  | '\r' :: _ => 1
  | '\n' :: _ => 1
  | _ => 0

/-- Reads one line break, if the input goes on with one, and tells whether it did. Mirrors
`Scanner.advance_line_break`. -/
def advanceLineBreak (s : Scanner) : Bool × Scanner :=
  let n := lineBreakLength s.ahead
  (0 < n, s.advanceBy n)

/-- Reading changes the place, not the text. -/
@[simp] theorem chars_advance (s : Scanner) : s.advance.stream.chars = s.stream.chars := by
  simp [advance]

@[simp] theorem chars_advanceBy (s : Scanner) (n : Nat) :
    (s.advanceBy n).stream.chars = s.stream.chars := by
  induction n generalizing s with
  | zero => rfl
  | succ n ih => exact (ih s.advance).trans s.chars_advance

/-- Reading stops at the end of the input. -/
@[simp] theorem ahead_advanceBy (s : Scanner) (n : Nat) :
    (s.advanceBy n).stream.ahead = s.stream.ahead.drop n := by
  induction n generalizing s with
  | zero => simp [advanceBy]
  | succ n ih => simp [advanceBy, ih, advance]

/-- Begins a token here. Mirrors `Scanner.begin_token`. -/
def beginToken (s : Scanner) : Scanner :=
  { s with tokenStart := s.stream.index, tokenPosition := s.position }

/-- Number of characters read since the token was begun. Mirrors `Scanner.token_len`. -/
def tokenLength (s : Scanner) : Nat := s.stream.index - s.tokenStart

/-- The characters read since the token was begun. -/
def tokenChars (s : Scanner) : List Char := (s.stream.behind.take s.tokenLength).reverse

/-- Mirrors `Scanner.folded_token_text`. -/
def foldedTokenText (s : Scanner) : String := String.ofList (s.tokenChars.map Text.foldCase)

/-- The word that begins at the `offset`th character ahead, folded. Mirrors `Scanner.peek_word`. -/
def peekWord (s : Scanner) : Nat → List Char
  | 0 => []
  | n + 1 => (s.ahead.drop n).takeWhile Text.isWordChar

/-- Cuts a token out of what was read since the token was begun. The next token begins where it
ends, but keeps its line and column until `beginToken`. Mirrors `Scanner.emit`. -/
def emit {K : Type} (s : Scanner) (kind : K) (channels : Channels) : Token K × Scanner :=
  let token : Token K := {
    kind, channels
    text := String.ofList s.tokenChars
    position := s.tokenPosition
    index := s.nextIndex
    span := ⟨Text.byteLength (s.stream.behind.drop s.tokenLength),
      Text.byteLength s.stream.behind⟩ }
  (token, { s with tokenStart := s.stream.index, nextIndex := s.nextIndex + 1 })

/-- Cuts a token and puts it on the channels of its kind. Mirrors `Scanner.emit_kind`. -/
def emitKind {K : Type} [TokenKind K] (s : Scanner) (kind : K) : Token K × Scanner :=
  s.emit kind (TokenKind.channels kind)

@[simp] theorem stream_beginToken (s : Scanner) : s.beginToken.stream = s.stream := rfl

@[simp] theorem stream_emit {K : Type} (s : Scanner) (kind : K) (channels : Channels) :
    (s.emit kind channels).2.stream = s.stream := rfl

@[simp] theorem text_emit {K : Type} (s : Scanner) (kind : K) (channels : Channels) :
    (s.emit kind channels).1.text = String.ofList s.tokenChars := rfl

end Scanner
end BuiltInScript
