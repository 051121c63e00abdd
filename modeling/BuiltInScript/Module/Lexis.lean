import BuiltInScript.Lexing.Lexer
import BuiltInScript.Module.PlatformSymbol
import BuiltInScript.Module.Words

/-!
# Lexical rules of the module language

Which token stands at the head of a text depends on the mode:

* after `.` the next word is a name, whatever its spelling;
* after `&` it is the name of an annotation;
* after `#` the rest of the line is a directive, in which a region's name and a library's name
  are read by rules of their own;
* between the lines of a string literal only blanks, comments, directives and the next line of
  the literal may stand;
* in a deletion zone every line is one token.

Each rule is given the first character `c` and the others `cs` and tells how many of `cs` belong
to the token.
-/
namespace BuiltInScript.Module

open Text

/-- Mirrors `LexicalMode`. -/
inductive Mode where
  | default | dot | annotationName | directive | region | use | string | delete
deriving DecidableEq, Repr, Inhabited

/-- What tells whether `Ждать` is a keyword. Mirrors the flags that `Lexer` keeps beside its
modes. -/
structure AsyncMemory where
  /-- `Асинх` was read, and no method began since. -/
  pending : Bool := false
  /-- The method being read is asynchronous. -/
  inMethod : Bool := false
deriving DecidableEq, Repr, Inhabited

abbrev State := LexState Mode AsyncMemory

/-! ## Pieces of tokens -/

/-- Number of leading characters that pass a test. -/
def run (test : Char → Bool) (cs : List Char) : Nat := (cs.takeWhile test).length

/-- Length of what follows an opening quote, and whether the literal is closed on its line. Two
quotes in a row stand for one and do not close it. Mirrors `Lexer.string_body`. -/
def stringBody : List Char → Nat × Bool
  | [] => (0, false)
  | '"' :: '"' :: rest => let (n, closed) := stringBody rest; (n + 2, closed)
  | '"' :: _ => (1, true)
  | c :: rest =>
    if isLineBreak c then (0, false)
    else let (n, closed) := stringBody rest; (n + 1, closed)

theorem run_le_length (test : Char → Bool) (cs : List Char) : run test cs ≤ cs.length :=
  (List.takeWhile_sublist _).length_le

theorem stringBody_le_length (cs : List Char) : (stringBody cs).1 ≤ cs.length := by
  fun_induction stringBody cs <;> simp_all

/-- What remains of a text after leading blanks of a line, and how many they are. Mirrors
`Lexer.skip_inline_space_from`. -/
def skipInlineBlanks (cs : List Char) : Nat × List Char :=
  (run isInlineBlank cs, cs.dropWhile isInlineBlank)

/-- The patch marker that the text after a `#` makes with it, and the length of that text. Mirrors
the lookahead of `Lexer.hash`. -/
def patchMarker? (cs : List Char) : Option (Kind × Nat) :=
  let (blanks, rest) := skipInlineBlanks cs
  let word := rest.takeWhile isWordChar
  (patchWords.find? word).map fun kind => (kind, blanks + word.length)

/-- Whether `//` begins at `c`. Mirrors `Lexer.starts_line_comment`. -/
def startsComment (c : Char) (cs : List Char) : Bool := c = '/' && cs.head? = some '/'

/-- Length of a comment after its first character. Mirrors `Lexer.line_comment`. -/
def commentRest (cs : List Char) : Nat := run (fun c => !isLineBreak c) cs

/-- Length of a number after its first digit: digits, and a point if digits follow it. Mirrors
`Lexer.number`. -/
def numberRest (cs : List Char) : Nat :=
  let digits := run isDigit cs
  match cs.drop digits with
  | '.' :: rest => if run isDigit rest = 0 then digits else digits + 1 + run isDigit rest
  | _ => digits

/-! ## Modes -/

/-- A word of code, given in folded form. Mirrors the table lookup of `Lexer.word`. -/
def wordKind (memory : AsyncMemory) (word : List Char) : Kind :=
  match keywords.find? word with
  | some kind => kind
  | none =>
    if memory.inMethod && (awaitWords.find? word).isSome then .kwAwait else .identifier

/-- What a word of code leaves to remember. Mirrors the flags that `Lexer.word` sets. -/
def AsyncMemory.after (memory : AsyncMemory) : Kind → AsyncMemory
  | .kwAsync => { memory with pending := true }
  | .kwProcedure | .kwFunction => { pending := false, inMethod := memory.pending }
  | .kwEndProcedure | .kwEndFunction => { memory with inMethod := false }
  | _ => memory

/-- Mirrors `Lexer.word`. -/
def readWord (s : State) (c : Char) (cs : List Char) : Lexeme Kind × State :=
  let word := cs.takeWhile isWordChar
  let kind := wordKind s.memory (c :: word)
  (⟨kind, word.length⟩, { s with memory := s.memory.after kind })

/-- A string literal, or the first line of one. Mirrors `Lexer.string`. -/
def readString (s : State) (cs : List Char) : Lexeme Kind × State :=
  match stringBody cs with
  | (n, true) => (⟨.string, n⟩, s)
  | (n, false) => (⟨.stringStart, n⟩, s.pushMode .string)

/-- Mirrors `Lexer.date`. -/
def readDate (s : State) (cs : List Char) : Lexeme Kind × State :=
  let n := run (fun c => c != '\'' && !isLineBreak c) cs
  if (cs.drop n).head? = some '\'' then (⟨.date, n + 1⟩, s) else (⟨.unknown, n⟩, s)

/-- A patch marker, or the `#` that begins a directive line. Mirrors `Lexer.hash`. -/
def readHash (s : State) (cs : List Char) : Lexeme Kind × State :=
  match patchMarker? cs with
  | some (kind, n) => (⟨kind, n⟩, if kind = .deleteMarker then s.pushMode .delete else s)
  | none => (⟨.hash, 0⟩, s.pushMode .directive)

/-- Kinds of characters that are tokens by themselves. Mirrors the calls of `Lexer.single`. -/
def signs : List (Char × Kind) :=
  [('/', .slash), ('[', .leftBracket), (']', .rightBracket), ('(', .leftParen),
   (')', .rightParen), (':', .colon), (';', .semicolon), (',', .comma), ('=', .assign),
   ('+', .plus), ('-', .minus), ('*', .star), ('%', .percent), ('?', .question), ('~', .tilde)]

/-- Mirrors `Lexer.default_mode`. -/
def readCode (s : State) (c : Char) (cs : List Char) : Lexeme Kind × State :=
  if isBlank c then (⟨.whiteSpace, run isBlank cs⟩, s)
  else if startsComment c cs then (⟨.lineComment, commentRest cs⟩, s)
  else if isDigit c then (⟨.number, numberRest cs⟩, s)
  else match c with
    | '"' => readString s cs
    | '\'' => readDate s cs
    | '#' => readHash s cs
    | '.' => (⟨.dot, 0⟩, s.pushMode .dot)
    | '&' => (⟨.ampersand, 0⟩, s.pushMode .annotationName)
    | '<' =>
      match cs.head? with
      | some '=' => (⟨.lessOrEqual, 1⟩, s)
      | some '>' => (⟨.notEqual, 1⟩, s)
      | _ => (⟨.less, 0⟩, s)
    | '>' =>
      match cs.head? with
      | some '=' => (⟨.greaterOrEqual, 1⟩, s)
      | _ => (⟨.greater, 0⟩, s)
    | c =>
      match signs.lookup c with
      | some kind => (⟨kind, 0⟩, s)
      | none => if isWordStart c then readWord s c cs else (⟨.unknown, 0⟩, s)

/-- Mirrors `Lexer.dot_mode`. -/
def readAfterDot (s : State) (c : Char) (cs : List Char) : Lexeme Kind × State :=
  if isInlineBlank c then (⟨.whiteSpace, run isInlineBlank cs⟩, s)
  else if isWordStart c then (⟨.identifier, run isWordChar cs⟩, s.popMode)
  else readCode s.popMode c cs

/-- Mirrors `Lexer.annotation_mode`. -/
def readAfterAmpersand (s : State) (c : Char) (cs : List Char) : Lexeme Kind × State :=
  if isWordStart c then
    let word := cs.takeWhile isWordChar
    (⟨(annotationWords.find? (c :: word)).getD .annotationCustom, word.length⟩, s.popMode)
  else readCode s.popMode c cs

/-- The line break that ends a directive. Mirrors `Lexer.directive_end`. -/
def readDirectiveEnd (s : State) (c : Char) (cs : List Char) : Lexeme Kind × State :=
  (⟨.dirNewline, if c = '\r' && cs.head? = some '\n' then 1 else 0⟩, s.popMode)

/-- A word of a directive: a keyword, a platform symbol, or any other name. Mirrors the table lookup
of `Lexer.preprocessor_mode`. -/
def directiveWordKind (word : List Char) : Kind :=
  match directiveWords.find? word with
  | some kind => kind
  | none =>
    if (PlatformSymbol.ofName? ⟨String.ofList word⟩).isSome then .dirSymbol else .dirIdentifier

/-- The mode in which a directive goes on after one of its words. Mirrors the modes that
`Lexer.preprocessor_mode` sets. -/
def State.afterDirectiveWord (s : State) : Kind → State
  | .dirRegion => s.setMode .region
  | .dirUse => s.setMode .use
  | _ => s

/-- Mirrors `Lexer.preprocessor_mode`. -/
def readDirective (s : State) (c : Char) (cs : List Char) : Lexeme Kind × State :=
  if isLineBreak c then readDirectiveEnd s c cs
  else if isInlineBlank c then (⟨.whiteSpace, run isInlineBlank cs⟩, s)
  else if startsComment c cs then (⟨.lineComment, commentRest cs⟩, s)
  else match c with
    | '(' => (⟨.dirLeftParen, 0⟩, s)
    | ')' => (⟨.dirRightParen, 0⟩, s)
    | '!' => (⟨.dirExclamation, 0⟩, s)
    | '#' => (⟨.hash, 0⟩, s)
    | '"' => (⟨.dirString, (stringBody cs).1⟩, s)
    | c =>
      if isWordStart c then
        let word := cs.takeWhile isWordChar
        let kind := directiveWordKind (c :: word)
        (⟨kind, word.length⟩, s.afterDirectiveWord kind)
      else
        (⟨.dirText,
          run (fun c => !isBlank c && c != '(' && c != ')' && c != '"' && c != '#') cs⟩, s)

/-- After `#Область`: a name, which may begin with a digit and is never a keyword. Mirrors
`Lexer.region_mode`. -/
def readRegionName (s : State) (c : Char) (cs : List Char) : Lexeme Kind × State :=
  if isLineBreak c then readDirectiveEnd s c cs
  else if isInlineBlank c then (⟨.whiteSpace, run isInlineBlank cs⟩, s)
  else if isWordChar c then (⟨.dirIdentifier, run isWordChar cs⟩, s.setMode .directive)
  else readDirective s c cs

/-- After `#Использовать`: a quoted path, or anything up to a blank. Mirrors `Lexer.use_mode`. -/
def readUsePath (s : State) (c : Char) (cs : List Char) : Lexeme Kind × State :=
  if isLineBreak c then readDirectiveEnd s c cs
  else if isInlineBlank c then (⟨.whiteSpace, run isInlineBlank cs⟩, s)
  else if c = '"' then (⟨.dirString, (stringBody cs).1⟩, s)
  else (⟨.dirUsePath, run (fun c => !isBlank c) cs⟩, s)

/-- Between the lines of a string literal. A line of it begins with `|`. Mirrors
`Lexer.string_mode`. -/
def readBetweenLines (s : State) (c : Char) (cs : List Char) : Lexeme Kind × State :=
  if isBlank c then (⟨.whiteSpace, run isBlank cs⟩, s)
  else if startsComment c cs then (⟨.lineComment, commentRest cs⟩, s)
  else if c = '#' then readHash s cs
  else if c = '|' then
    match stringBody cs with
    | (n, true) => (⟨.stringTail, n⟩, s.popMode)
    | (n, false) => (⟨.stringPart, n⟩, s)
  else readCode s.popMode c cs

/-- Length of the marker that ends a deletion zone, if the text begins with it. Mirrors the
lookahead of `Lexer.delete_mode`. -/
def endDeleteLength? (cs : List Char) : Option Nat :=
  let (blanks, rest) := skipInlineBlanks cs
  match rest with
  | '#' :: rest =>
    match patchMarker? rest with
    | some (.endDeleteMarker, n) => some (blanks + 1 + n)
    | _ => none
  | _ => none

/-- Length of a line with its line break. Mirrors what `Lexer.delete_mode` reads of a deleted
line. -/
def lineLength (cs : List Char) : Nat :=
  let n := commentRest cs
  n + Scanner.lineBreakLength (cs.drop n)

/-- Mirrors `Lexer.delete_mode`. -/
def readDeleted (s : State) (c : Char) (cs : List Char) : Lexeme Kind × State :=
  match endDeleteLength? (c :: cs) with
  | some n => (⟨.endDeleteMarker, n - 1⟩, s.popMode)
  | none => (⟨.deletedText, lineLength (c :: cs) - 1⟩, s)

/-- Mirrors `Lexer.next_token`. -/
def read (s : State) (c : Char) (cs : List Char) : Lexeme Kind × State :=
  match s.mode with
  | .default => readCode s c cs
  | .dot => readAfterDot s c cs
  | .annotationName => readAfterAmpersand s c cs
  | .directive => readDirective s c cs
  | .region => readRegionName s c cs
  | .use => readUsePath s c cs
  | .string => readBetweenLines s c cs
  | .delete => readDeleted s c cs

/-- Mirrors `Lexer.new`. -/
def lexicalRules : LexicalRules Kind Mode AsyncMemory := ⟨.default, {}, read⟩

end BuiltInScript.Module
