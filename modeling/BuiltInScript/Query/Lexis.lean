import BuiltInScript.Lexing.Lexer
import BuiltInScript.Query.Words

/-!
# Lexical rules of the query language

Simpler than those of modules: string literals may run over several lines, and after `.` the next
word is a name, whatever blanks stand between.
-/
namespace BuiltInScript.Query

open Text

/-- Mirrors `QueryMode`. -/
inductive Mode where
  | default | dot
deriving DecidableEq, Repr, Inhabited

abbrev State := LexState Mode Unit

/-- Length of what follows an opening quote, and whether the literal is closed. Two quotes in a
row stand for one and do not close it. Mirrors `QueryLexer.string`. -/
def stringBody : List Char → Nat × Bool
  | [] => (0, false)
  | '"' :: '"' :: rest => let (n, closed) := stringBody rest; (n + 2, closed)
  | '"' :: _ => (1, true)
  | _ :: rest => let (n, closed) := stringBody rest; (n + 1, closed)

/-- The kind of a folded word. Mirrors the table lookup of `QueryLexer.word`. -/
def wordKind (word : List Char) : Kind :=
  ((keywords.find? word).or (metadataWords.find? word)).getD .identifier

/-- Kinds of characters that are tokens by themselves. Mirrors the calls of `QueryLexer.single`. -/
def signs : List (Char × Kind) :=
  [(',', .comma), (';', .semicolon), ('(', .leftParen), (')', .rightParen), ('+', .plus),
   ('-', .minus), ('*', .star), ('/', .slash), ('=', .assign)]

/-- Mirrors `QueryLexer.word`. -/
def readWord (s : State) (c : Char) (cs : List Char) : Lexeme Kind × State :=
  let word := cs.takeWhile isWordChar
  if s.mode = .dot then (⟨.identifier, word.length⟩, s.popMode)
  else (⟨wordKind (c :: word), word.length⟩, s)

/-- Reads a token in the mode that is left once a `.` is known not to have a name after it. Mirrors
the branches of `QueryLexer.next_token`. -/
def readToken (s : State) (c : Char) (cs : List Char) : Lexeme Kind × State :=
  if isBlank c then (⟨.whiteSpace, (cs.takeWhile isBlank).length⟩, s)
  else if c = '/' && cs.head? = some '/' then
    (⟨.lineComment, (cs.takeWhile fun c => !isLineBreak c).length⟩, s)
  else if isDigit c then (⟨.number, (cs.takeWhile fun c => isDigit c || c == '.').length⟩, s)
  else match c with
    | '"' =>
      match stringBody cs with
      | (n, true) => (⟨.string, n⟩, s)
      | (n, false) => (⟨.unknown, n⟩, s)
    | '&' => (⟨.parameter, (cs.takeWhile isWordChar).length⟩, s)
    | '.' => (⟨.dot, 0⟩, s.pushMode .dot)
    | '<' =>
      match cs.head? with
      | some '=' => (⟨.lessOrEqual, 1⟩, s)
      | some '>' => (⟨.notEqual, 1⟩, s)
      | _ => (⟨.less, 0⟩, s)
    | '>' =>
      match cs.head? with
      | some '=' => (⟨.greaterOrEqual, 1⟩, s)
      | _ => (⟨.greater, 0⟩, s)
    | c =>
      match signs.lookup c with
      | some kind => (⟨kind, 0⟩, s)
      | none => if isWordStart c then readWord s c cs else (⟨.unknown, 0⟩, s)

/-- Mirrors `QueryLexer.next_token`. -/
def read (s : State) (c : Char) (cs : List Char) : Lexeme Kind × State :=
  if s.mode = .dot && !isWordStart c && !isBlank c then readToken s.popMode c cs
  else readToken s c cs

/-- Mirrors `QueryLexer.new`. -/
def lexicalRules : LexicalRules Kind Mode Unit := ⟨.default, (), read⟩

end BuiltInScript.Query
