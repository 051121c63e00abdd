/-!
# Lines and columns

Lines count from one and columns from zero, in characters. `\r\n`, a lone `\r` and a lone `\n`
each end one line. In `\r\n` it is the `\n` that ends it: the `\r` before it takes no column.
-/
namespace BuiltInScript

/-- Line and column of a point between two characters of a text. Mirrors `TextPosition`. -/
structure Position where
  line : Nat := 1
  column : Nat := 0
deriving DecidableEq, Repr, Inhabited

namespace Position

/-- Mirrors `TextPosition.new_line`. -/
def newLine (p : Position) : Position := ⟨p.line + 1, 0⟩

/-- Moves past a character, given the one after it. Mirrors what `CrAwareLineTracker.consume` does
to the position. -/
def step (p : Position) (c : Char) (next : Option Char) : Position :=
  if c = '\n' then p.newLine
  else if c = '\r' then (if next = some '\n' then p else p.newLine)
  else { p with column := p.column + 1 }

/-- Moves past a whole text, which nothing follows. Mirrors the loop of
`Token.end_of_file_after`. -/
def walk (p : Position) : List Char → Position
  | [] => p
  | c :: cs => walk (p.step c cs.head?) cs

end Position
end BuiltInScript
