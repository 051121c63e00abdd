import BuiltInScript.Diagnostic
import BuiltInScript.Source.File
import BuiltInScript.Text.Width

/-!
# Diagnostics on a terminal

A renderer for source units. A diagnostic is laid out as a header, the labelled lines of the source
with carets below them, and its notes. Every line but the header begins with a gutter that is as
wide as the largest line number.

A label takes one line: it is drawn on the line that it begins on, and at least one column wide.
The message of the label that ends last on a line follows the carets, unless that label overlaps
another one. All other messages hang below their labels, the last one first.
-/
namespace BuiltInScript.Layout

/-! ## Characters in columns -/

/-- Tabs reach to the next multiple of this many columns. -/
def tabWidth : Nat := 4

/-- A character of a line, where it begins in bytes, and how many columns it takes. -/
structure Cell where
  offset : Nat
  char : Char
  width : Nat

def Cell.next (c : Cell) : Nat := c.offset + c.char.utf8Size

/-- The cells of a line, the first of them at the given offset and column. -/
def cellsFrom (offset column : Nat) : List Char → List Cell
  | [] => []
  | c :: cs =>
    let width := if c = '\t' then tabWidth - column % tabWidth else Text.displayWidth c
    ⟨offset, c, width⟩ :: cellsFrom (offset + c.utf8Size) (column + width) cs

def cells (line : List Char) : List Cell := cellsFrom 0 0 line

def spaces (n : Nat) : String := String.ofList (List.replicate n ' ')

/-- A line of source as it is printed, tabs as spaces. -/
def printed (line : List Char) : String :=
  (cells line).foldl (fun s c => if c.char = '\t' then s ++ spaces c.width else s.push c.char) ""

/-- A line of source without what ends it. -/
def trimLine (line : List Char) : List Char :=
  (line.reverse.dropWhile fun c => c = '\n' || c = '\r' || c = '\x00').reverse

/-! ## Labels on a line -/

/-- A label placed on its line, in bytes from the beginning of the line. -/
structure Mark where
  style : LabelStyle
  start : Nat
  stop : Nat
  message : String

namespace Mark

def ofLabel (lineStart : Nat) (label : Label) : Mark :=
  let start := label.span.start - lineStart
  ⟨label.style, start, max (label.span.stop - lineStart) (start + 1), label.message⟩

def before (a b : Mark) : Bool := a.start < b.start || (a.start == b.start && a.stop < b.stop)

def sameRange (a b : Mark) : Bool := a.start == b.start && a.stop == b.stop

def overlaps (a : Mark) (start stop : Nat) : Bool := max a.start start < min a.stop stop

end Mark

/-- Marks are ordered by where they begin and end. Of the marks on one range the first to come stays
last, and each later one is put right before it. -/
def insertMark (m : Mark) : List Mark → List Mark
  | [] => [m]
  | x :: xs =>
    if x.before m || (x.sameRange m && xs.head?.any (·.sameRange m)) then x :: insertMark m xs
    else m :: x :: xs

/-- Index of the mark whose message may follow the carets: the last of those that end at least as
late as all before them, if it has a message. -/
def trailingCandidate (marks : List Mark) : Option Nat :=
  (marks.zipIdx.foldl (fun (stop, found) (m, i) =>
    let stop := max stop m.stop
    if m.stop = stop then (stop, if m.message.isEmpty then none else some i) else (stop, found))
    (0, none)).2

/-- Index of the mark whose message follows the carets. -/
def trailing? (marks : List Mark) : Option Nat := do
  let i ← trailingCandidate marks
  let m ← marks[i]?
  if marks.zipIdx.any (fun (x, j) => j != i && x.overlaps m.start m.stop) then none else some i

/-- Marks with messages that do not follow the carets. -/
def hanging (marks : List Mark) : List Mark :=
  let trailing := trailing? marks
  (marks.zipIdx.filter fun (m, i) => !m.message.isEmpty && trailing != some i).map Prod.fst

/-- The caret that a column range of a line gets; primary labels win. -/
def caret? (marks : List Mark) (start stop : Nat) : Option Char :=
  let here := marks.filter fun m => m.overlaps start stop
  if here.any (fun m => m.style = .primary) then some '^'
  else if here.isEmpty then none
  else some '-'

/-- The carets under a line and one column past its end. Nothing is printed after the last label. -/
def carets (line : List Char) (marks : List Mark) : String :=
  let last := marks.foldl (fun n m => max n m.stop) 0
  let columns := (cells line).map (fun c => (c.offset, c.next, c.width)) ++
    [(Text.byteLength line, Text.byteLength line + 1, 1)]
  columns.foldl (fun s (start, stop, width) =>
    match caret? marks start stop with
    | some c => s ++ String.ofList (List.replicate width c)
    | none => if start < last then s ++ spaces width else s) ""

/-- Bars at the columns where hanging labels begin, in the cells of a line. Cells are padded up to
the last place where a label of the line begins. -/
def bars (marks : List Mark) (line : List Cell) : String :=
  let last := marks.foldl (fun n m => max n m.start) 0
  line.foldl (fun s c =>
    let bar := (hanging marks).any fun m => c.offset ≤ m.start && m.start < c.next
    let s := if bar then s.push '│' else s
    if c.offset ≤ last then s ++ spaces (if bar then c.width - 1 else c.width) else s) ""

/-- What stands below a labelled line: carets, bars, and the hanging messages. -/
def underline (line : List Char) (marks : List Mark) : List String :=
  let message := (trailing? marks).bind fun i => marks[i]?.map fun m => " " ++ m.message
  let hanging := hanging marks
  let below := if hanging.isEmpty then [] else
    bars marks (cells line) :: hanging.reverse.map fun m =>
      bars marks ((cells line).takeWhile fun c => c.offset < m.start) ++ m.message
  (carets line marks ++ message.getD "") :: below

/-! ## The whole diagnostic -/

/-- A line of the source with its labels. -/
structure MarkedLine where
  index : Nat
  marks : List Mark

/-- Adds a label to its line, keeping lines in order. -/
def addMark (index : Nat) (m : Mark) : List MarkedLine → List MarkedLine
  | [] => [⟨index, [m]⟩]
  | line :: lines =>
    if index < line.index then ⟨index, [m]⟩ :: line :: lines
    else if index = line.index then { line with marks := insertMark m line.marks } :: lines
    else line :: addMark index m lines

/-- The label that gives a diagnostic its place: the first primary label in the source, or the
first secondary one. -/
def leading : List Label → Option Label
  | [] => none
  | label :: labels => some <| labels.foldl (fun best l =>
      if (best.style = .secondary && l.style = .primary) ||
          (best.style = l.style && l.span.start < best.span.start) then l else best) label

/-- Lines of a text, without a last empty one; a `\r` before `\n` belongs to the line break. -/
def textLines (text : String) : List String :=
  let rec go (line : List Char) : List Char → List String
    | [] => if line.isEmpty then [] else [String.ofList line.reverse]
    | '\n' :: rest =>
      let line := match line with
        | '\r' :: more => more
        | line => line
      String.ofList line.reverse :: go [] rest
    | c :: rest => go (c :: line) rest
  go [] text.toList

def noteLines (pad : String) (note : Note) : List String :=
  match textLines s!"{note.kind}: {note.text}" with
  | [] => []
  | first :: rest => s!"{pad} = {first}" :: rest.map fun line => s!"{pad}   {line}"

/-- A numbered line of the source and what stands below it. -/
def snippetLine (file : SourceFile) (width : Nat) (index : Nat) (marks : List Mark) :
    Except LineTooLarge (List String) := do
  let range ← file.lineRange index
  let line := trimLine (((range.slice? file.text).getD "").toList)
  let number := toString (index + 1)
  let source := s!"{spaces (width - number.length)}{number} │ {printed line}"
  let below := if marks.isEmpty then [] else
    (underline line marks).map fun text => s!"{spaces width} │ {text}"
  return source :: below

/-- Labelled lines in order. A single line between two of them is printed, more are left out. -/
def snippetLines (file : SourceFile) (width : Nat) :
    List MarkedLine → Except LineTooLarge (List String)
  | [] => return []
  | line :: rest => do
    let here ← snippetLine file width line.index line.marks
    let between ← match rest with
      | next :: _ =>
        if next.index = line.index + 1 then pure []
        else if next.index = line.index + 2 then snippetLine file width (line.index + 1) []
        else pure [s!"{spaces width} ·"]
      | [] => pure []
    let after ← snippetLines file width rest
    return here ++ between ++ after

/-- The labelled part of a diagnostic. -/
def snippet (file : SourceFile) (width : Nat) (labels : List Label) :
    Except LineTooLarge (List String) := do
  match leading labels with
  | none => return []
  | some first =>
    let (line, column) ← file.location first.span.start
    let lines ← labels.foldlM (fun lines label => do
      let index := file.lineIndex label.span.start
      let start ← file.lineStart index
      return addMark index (Mark.ofLabel start label) lines) []
    let body ← snippetLines file width lines
    return s!"{spaces width} ┌─ {file.name}:{line}:{column}" :: s!"{spaces width} │" :: body

/-- Digits of the largest line number that a label touches. -/
def gutterWidth (file : SourceFile) (labels : List Label) : Nat :=
  labels.foldl (fun width label =>
    let digits (offset : Nat) := (toString (file.lineIndex offset + 1)).length
    max width (max (digits label.span.start) (digits label.span.stop))) 0

end Layout

/-- Lays a diagnostic out against its source, in lines that each end with `\n`; the last is
empty. Mirrors `Diagnostic.emit_to_string`. -/
def Diagnostic.render (file : SourceFile) (d : Diagnostic) : Except LineTooLarge String := do
  let width := Layout.gutterWidth file d.labels
  let pad := Layout.spaces width
  let snippet ← Layout.snippet file width d.labels
  let border := if d.labels.isEmpty || d.notes.isEmpty then [] else [s!"{pad} │"]
  let notes := d.notes.flatMap (Layout.noteLines pad)
  let lines := s!"{d.severity}: {d.message}" :: snippet ++ border ++ notes ++ [""]
  return lines.foldl (fun text line => text ++ line ++ "\n") ""

end BuiltInScript
