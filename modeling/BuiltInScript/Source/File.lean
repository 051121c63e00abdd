import BuiltInScript.Source.Span

/-!
# Source files

A named text with the offsets at which its lines begin, for finding the line and column of a byte
offset. Only `\n` begins a line here: a lone `\r` does not, unlike in `Position`.
-/
namespace BuiltInScript

/-- Byte offsets at which lines begin, the text beginning at offset `start`: the beginning, and
the place after every `\n`. -/
def lineStartsFrom (start : Nat) : List Char → List Nat
  | [] => []
  | c :: cs =>
    let next := start + c.utf8Size
    if c = '\n' then next :: lineStartsFrom next cs else lineStartsFrom next cs

/-- Mirrors `SourceFile`. -/
structure SourceFile where
  name : String
  /-- The text without its byte order mark. -/
  text : String
  /-- Ascending, beginning with zero. -/
  lineStarts : Array Nat
deriving Repr, Inhabited

/-- A line beyond the last was asked for. -/
structure LineTooLarge where
  given : Nat
  max : Nat
deriving DecidableEq, Repr

namespace SourceFile

/-- Mirrors `SourceFile.new`. -/
def ofText (name text : String) : SourceFile :=
  let text := Text.stripByteOrderMark text
  { name, text, lineStarts := (0 :: lineStartsFrom 0 text.toList).toArray }

def lineCount (f : SourceFile) : Nat := f.lineStarts.size

def byteSize (f : SourceFile) : Nat := Text.byteLength f.text.toList

/-- A source has one line more than it has `\n`. -/
theorem length_lineStartsFrom (start : Nat) (cs : List Char) :
    (lineStartsFrom start cs).length = cs.count '\n' := by
  induction cs generalizing start with
  | nil => rfl
  | cons c cs ih => by_cases h : c = '\n' <;> simp [lineStartsFrom, h, ih]

theorem lineCount_ofText (name text : String) :
    (ofText name text).lineCount = (Text.dropByteOrderMark text.toList).count '\n' + 1 := by
  simp [ofText, lineCount, length_lineStartsFrom]

/-- In an ascending array, how many entries of the first `high` are at most `n`, given that the
first `low` are; each step halves what is undecided. -/
def countUpTo (starts : Array Nat) (n low high : Nat) : Nat :=
  if low < high then
    let middle := low + (high - low) / 2
    if starts.getD middle 0 ≤ n then countUpTo starts n (middle + 1) high
    else countUpTo starts n low middle
  else low
termination_by high - low

/-- Index of the line that an offset lies on; offsets past the end lie on the last line. Mirrors
`SourceFile.line_index`. -/
def lineIndex (f : SourceFile) (offset : Nat) : Nat :=
  countUpTo f.lineStarts offset 0 f.lineStarts.size - 1

/-- Where a line begins; one past the last line "begins" at the end of the text. Mirrors
`SourceFile.line_start`. -/
def lineStart (f : SourceFile) (index : Nat) : Except LineTooLarge Nat :=
  if h : index < f.lineStarts.size then .ok f.lineStarts[index]
  else if index = f.lineStarts.size then .ok f.byteSize
  else .error ⟨index, f.lineStarts.size - 1⟩

/-- The bytes of a line, its line break included. Mirrors `SourceFile.line_range`. -/
def lineRange (f : SourceFile) (index : Nat) : Except LineTooLarge Span := do
  let start ← f.lineStart index
  let stop ← f.lineStart (index + 1)
  return ⟨start, stop⟩

/-- Line and column of a byte offset, both counted from one. The column counts the characters
that end in the line at or before the offset. -/
def location (f : SourceFile) (offset : Nat) : Except LineTooLarge (Nat × Nat) := do
  let index := f.lineIndex offset
  let range ← f.lineRange index
  let stop := min offset (min range.stop f.byteSize)
  let ends := (Text.boundariesFrom 0 f.text.toList).filter fun b =>
    range.start < b && b ≤ stop
  return (index + 1, ends.length + 1)

end SourceFile
end BuiltInScript
