import BuiltInScript.Source.Position
import BuiltInScript.Text.Bytes
import BuiltInScript.Text.Upper

/-!
# Character streams

A source text, cut at the place where reading goes on. Indices count characters. Lexers look at
folded characters, which is how one spelling in a keyword table matches every mixture of cases;
the text that a token keeps is not folded.
-/
namespace BuiltInScript

/-- A source that is not UTF-8. -/
inductive DecodeError where
  | invalidUtf8
deriving DecidableEq, Repr

def DecodeError.message : DecodeError → String
  | .invalidUtf8 => "stream did not contain valid UTF-8"

/-- Mirrors a `CodePointBuffer` within a `CaseFoldingStream`. -/
structure CharStream where
  name : String
  /-- The characters read, the last one first. -/
  behind : List Char
  /-- The characters to read. -/
  ahead : List Char
  /-- The characters to read, folded once and for all. -/
  folded : List Char := ahead.map Text.foldCase
  folded_eq : folded = ahead.map Text.foldCase := by rfl
  openMarkers : Nat := 0

namespace CharStream

/-- A stream at the beginning of a text, less one leading byte order mark. Mirrors
`CodePointBuffer.new`. -/
def ofText (name text : String) : CharStream :=
  { name, behind := [], ahead := Text.dropByteOrderMark text.toList }

/-- Mirrors `CodePointBuffer.from_reader`. -/
def ofBytes (name : String) (bytes : ByteArray) : Except DecodeError CharStream :=
  match String.fromUTF8? bytes with
  | some text => .ok (ofText name text)
  | none => .error .invalidUtf8

/-- The whole text. -/
def chars (s : CharStream) : List Char := s.behind.reverse ++ s.ahead

/-- Mirrors `CodePointBuffer.index`. -/
def index (s : CharStream) : Nat := s.behind.length

/-- Mirrors `CodePointBuffer.size`. -/
def size (s : CharStream) : Nat := s.behind.length + s.ahead.length

/-- The `n`th character ahead as written, counted from one. Mirrors `CodePointBuffer.lookahead`. -/
def lookahead (s : CharStream) : Nat → Option Char
  | 0 => none
  | n + 1 => s.ahead[n]?

/-- The `n`th character ahead, folded. Mirrors `CaseFoldingStream.lookahead`. -/
def lookaheadFolded (s : CharStream) : Nat → Option Char
  | 0 => none
  | n + 1 => s.folded[n]?

/-- Reads a character, if one is left. Mirrors `CodePointBuffer.consume`. -/
def consume (s : CharStream) : CharStream :=
  match h : s.ahead with
  | [] => s
  | c :: rest =>
    { s with
      behind := c :: s.behind, ahead := rest, folded := s.folded.tail
      folded_eq := by simp [s.folded_eq, h] }

/-- Moves to an index, or to the end of the text if it lies beyond. Mirrors
`CodePointBuffer.seek`. -/
def seek (s : CharStream) (index : Nat) : CharStream :=
  { name := s.name, behind := (s.chars.take index).reverse, ahead := s.chars.drop index
    openMarkers := s.openMarkers }

/-- Opens a marker at the current place. Mirrors `CodePointBuffer.mark`. -/
def mark (s : CharStream) : CharStream := { s with openMarkers := s.openMarkers + 1 }

/-- Mirrors `CodePointBuffer.release`. -/
def release (s : CharStream) : CharStream := { s with openMarkers := s.openMarkers - 1 }

/-- The text between two indices, as written. Mirrors `CodePointBuffer.text`. -/
def text (s : CharStream) (start stop : Nat) : String :=
  String.ofList ((s.chars.take stop).drop start)

/-- Byte offset of an index; past the end it is the length of the text. Mirrors
`CodePointBuffer.byte_offset`. -/
def byteOffset (s : CharStream) (index : Nat) : Nat := Text.byteLength (s.chars.take index)

/-- Reads a character and moves a position past it. Mirrors `CrAwareLineTracker.consume`. -/
def consumeAt (s : CharStream) (p : Position) : CharStream × Position :=
  match s.ahead with
  | [] => (s, p)
  | c :: rest => (s.consume, p.step c rest.head?)

/-! ## What stays -/

theorem size_eq_length (s : CharStream) : s.size = s.chars.length := by
  simp [size, chars]

@[simp] theorem chars_ofText (name text : String) :
    (ofText name text).chars = Text.dropByteOrderMark text.toList := by
  simp [ofText, chars]

/-- Reading changes the place, not the text. -/
@[simp] theorem chars_consume (s : CharStream) : s.consume.chars = s.chars := by
  unfold consume
  split
  · rfl
  · simp [chars, *]

@[simp] theorem chars_seek (s : CharStream) (index : Nat) : (s.seek index).chars = s.chars := by
  simp [seek, chars]

@[simp] theorem index_seek (s : CharStream) (index : Nat) :
    (s.seek index).index = min index s.size := by
  simp [seek, size_eq_length, CharStream.index]

@[simp] theorem ahead_consume (s : CharStream) : s.consume.ahead = s.ahead.tail := by
  unfold consume
  split <;> simp [*]

/-- Positions are moved along with the stream. -/
@[simp] theorem fst_consumeAt (s : CharStream) (p : Position) : (s.consumeAt p).1 = s.consume := by
  unfold consumeAt consume
  split <;> split <;> simp_all

end CharStream
end BuiltInScript
