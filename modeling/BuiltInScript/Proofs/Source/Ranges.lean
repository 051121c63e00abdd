import BuiltInScript.Proofs.Source.Inside
import BuiltInScript.Proofs.Source.Lines

/-!
# Ranges of lines

The line starts of a source file ascend strictly, and the range of a line goes from its start to the
next one, or to the end of the text. So the ranges lie side by side and cover the text, and halving
finds the line of any byte offset, one inside a character included.

**Results.**
* `lineRange_of_lt`, `lineRange_of_le`: which lines have a range, and which error the others give.
* `Text.exists_line`, `lineRange_of_isLine`: the lines of a text, and their ranges.
* `Ascends.countUpTo_of_inside`: halving stops after the line whose range holds the offset.
* `lines_tile`: the lines tile the text, and lookup is inverse to their ranges.
-/
namespace BuiltInScript

open Text (byteLength)

/-! ## Lines of a text -/

/-- A text taken apart around its line number `i`, counted from zero, which ends right after its
only `\n` or is the last one. -/
structure Text.IsLine (cs : List Char) (i : Nat) (before line after : List Char) : Prop where
  eq : cs = before ++ line ++ after
  index : before.count '\n' = i
  begins : before = [] ∨ before.getLast? = some '\n'
  ends : (∃ body, line = body ++ ['\n'] ∧ '\n' ∉ body) ∨ ('\n' ∉ line ∧ after = [])

namespace Text.IsLine

variable {cs before line after : List Char} {i : Nat}

/-- A line begins a text. -/
theorem exists_first (before rest : List Char)
    (hbegins : before = [] ∨ before.getLast? = some '\n') :
    ∃ line after, IsLine (before ++ rest) (before.count '\n') before line after := by
  by_cases h : '\n' ∈ rest
  · obtain ⟨body, after, rfl, hbody⟩ := List.eq_append_cons_of_mem h
    exact ⟨body ++ ['\n'], after, by simp, rfl, hbegins, .inl ⟨body, rfl, hbody⟩⟩
  · exact ⟨rest, [], by simp, rfl, hbegins, .inr ⟨h, rfl⟩⟩

/-- A line with a `\n` is followed by another one. -/
theorem exists_next (h : IsLine cs i before line after) (hmore : i < cs.count '\n') :
    ∃ next rest, IsLine cs (i + 1) (before ++ line) next rest := by
  obtain ⟨rfl, rfl, -, ⟨body, rfl, hbody⟩ | ⟨hline, rfl⟩⟩ := h
  · obtain ⟨next, rest, hnext⟩ :=
      exists_first (before ++ (body ++ ['\n'])) after (.inr (by simp [List.getLast?_append]))
    refine ⟨next, rest, ?_⟩
    simpa [List.count_append, List.count_eq_zero.2 hbody] using hnext
  · simp [List.count_append, List.count_eq_zero.2 hline] at hmore

end Text.IsLine

/-- A text has one line more than it has `\n`. -/
theorem Text.exists_line {cs : List Char} {i : Nat} (h : i ≤ cs.count '\n') :
    ∃ before line after, IsLine cs i before line after := by
  induction i with
  | zero =>
    obtain ⟨line, after, hline⟩ := IsLine.exists_first [] cs (.inl rfl)
    exact ⟨[], line, after, hline⟩
  | succ i ih =>
    obtain ⟨before, line, after, hline⟩ := ih (by omega)
    obtain ⟨next, rest, hnext⟩ := hline.exists_next (by omega)
    exact ⟨before ++ line, next, rest, hnext⟩

/-! ## Ascending starts -/

theorem lineStartsFrom_pairwise (start : Nat) (cs : List Char) :
    (lineStartsFrom start cs).Pairwise (· < ·) := by
  induction cs generalizing start with
  | nil => exact .nil
  | cons c cs ih =>
    rw [lineStartsFrom]
    split
    · refine List.pairwise_cons.2 ⟨fun offset h => ?_, ih _⟩
      exact (bounds_of_mem_lineStartsFrom h).1
    · exact ih _

namespace SourceFile

/-- In an ascending array, halving stops after the entry that `n` is not below, if it is below the
next one. -/
theorem countUpTo_eq_succ {starts : Array Nat} (hsorted : starts.toList.Pairwise (· < ·))
    {n i : Nat} (hi : i < starts.size) (hle : starts[i] ≤ n)
    (hlt : ∀ h : i + 1 < starts.size, n < starts[i + 1]) :
    countUpTo starts n 0 starts.size = i + 1 := by
  have hmono {a b : Nat} (hab : a ≤ b) (hb : b < starts.size) : starts[a] ≤ starts[b] := by
    rcases Nat.eq_or_lt_of_le hab with rfl | hab
    · exact Nat.le_refl _
    · exact Nat.le_of_lt (List.pairwise_iff_getElem.1 hsorted a b (by simp; omega) (by simpa) hab)
  refine countUpTo_eq (fun j hj => ?_) (by omega) (by omega)
  rw [Array.getD_eq_getD_getElem?, Array.getElem?_eq_getElem hj, Option.getD_some]
  constructor
  · intro hjn
    by_contra hij
    have hnext := hlt (by omega)
    have := hmono (a := i + 1) (by omega) hj
    omega
  · intro hji
    have := hmono (a := j) (b := i) (by omega) hi
    omega

/-! ## Ranges -/

section
variable (f : SourceFile) {i : Nat}

/-- A line goes from its start to the next one, or to the end of the text. -/
theorem lineRange_of_lt (h : i < f.lineStarts.size) :
    f.lineRange i = .ok ⟨f.lineStarts[i], f.lineStarts.getD (i + 1) f.byteSize⟩ := by
  have hstart : f.lineStart i = .ok f.lineStarts[i] := by rw [lineStart, dif_pos h]
  have hstop : f.lineStart (i + 1) = .ok (f.lineStarts.getD (i + 1) f.byteSize) := by
    rw [lineStart]
    by_cases hnext : i + 1 < f.lineStarts.size
    · simp [hnext]
    · rw [dif_neg hnext, if_pos (by omega)]
      simp [hnext]
  rw [lineRange, hstart, hstop]
  rfl

/-- Past the last line there is no range. One past it, only where the range would end is too
large. -/
theorem lineRange_of_le (h : f.lineStarts.size ≤ i) :
    f.lineRange i = .error ⟨max i (f.lineStarts.size + 1), f.lineStarts.size - 1⟩ := by
  have herror {j : Nat} (hj : f.lineStarts.size < j) :
      f.lineStart j = .error ⟨j, f.lineStarts.size - 1⟩ := by
    rw [lineStart, dif_neg (by omega), if_neg (by omega)]
  rcases Nat.eq_or_lt_of_le h with rfl | hlt
  · have hstart : f.lineStart f.lineStarts.size = .ok f.byteSize := by
      rw [lineStart, dif_neg (by omega), if_pos rfl]
    rw [lineRange, hstart, herror (Nat.lt_succ_self _), Nat.max_eq_right (by omega)]
    rfl
  · rw [lineRange, herror hlt, Nat.max_eq_left hlt]
    rfl

/-- The ranges of lines are those of the lines that there are. -/
theorem lineRange_eq_ok_iff {range : Span} :
    f.lineRange i = .ok range ↔ ∃ h : i < f.lineStarts.size,
      ⟨f.lineStarts[i], f.lineStarts.getD (i + 1) f.byteSize⟩ = range := by
  by_cases h : i < f.lineStarts.size
  · simp [f.lineRange_of_lt h, h]
  · simp [f.lineRange_of_le (Nat.le_of_not_lt h), h]

/-- What lies before the start of a line lies on a line before it. -/
theorem exists_line_of_lt {n k : Nat} (hzero : f.lineStarts.getD 0 f.byteSize = 0)
    (h : n < f.lineStarts.getD k f.byteSize) :
    ∃ i < k, f.lineStarts.getD i f.byteSize ≤ n ∧ n < f.lineStarts.getD (i + 1) f.byteSize := by
  induction k with
  | zero => omega
  | succ k ih =>
    by_cases hk : n < f.lineStarts.getD k f.byteSize
    · obtain ⟨i, hi, hrange⟩ := ih hk
      exact ⟨i, by omega, hrange⟩
    · exact ⟨k, by omega, by omega, h⟩

end

/-- What every source file made from a text has: its line starts ascend from zero and do not leave
the text. -/
structure Ascends (f : SourceFile) : Prop where
  pairwise : f.lineStarts.toList.Pairwise (· < ·)
  zero : f.lineStarts[0]? = some 0
  inside : ∀ start ∈ f.lineStarts.toList, start ≤ f.byteSize

namespace Ascends

variable {f : SourceFile} (hf : f.Ascends) {n i : Nat}
include hf

theorem size_pos : 0 < f.lineStarts.size := (Array.getElem?_eq_some_iff.1 hf.zero).1

/-- Halving stops after the line that holds an offset. -/
theorem countUpTo_of_inside (hi : i < f.lineStarts.size) (hle : f.lineStarts[i] ≤ n)
    (hlt : n < f.lineStarts.getD (i + 1) f.byteSize) :
    countUpTo f.lineStarts n 0 f.lineStarts.size = i + 1 := by
  refine countUpTo_eq_succ hf.pairwise hi hle fun hnext => ?_
  simpa [hnext] using hlt

/-- Past the end it stops after the last line. -/
theorem countUpTo_of_past (hn : f.byteSize ≤ n) :
    countUpTo f.lineStarts n 0 f.lineStarts.size = f.lineStarts.size - 1 + 1 := by
  have hpos := hf.size_pos
  have hlast : f.lineStarts.size - 1 < f.lineStarts.size := by omega
  have hle := hf.inside _ (Array.getElem_mem_toList hlast)
  exact countUpTo_eq_succ hf.pairwise hlast (Nat.le_trans hle hn) fun hnext => by omega

/-- Every offset in the text lies on a line. -/
theorem exists_line_of_inside (hn : n < f.byteSize) : ∃ (i : Nat) (hi : i < f.lineStarts.size),
    f.lineStarts[i] ≤ n ∧ n < f.lineStarts.getD (i + 1) f.byteSize := by
  have hzero : f.lineStarts.getD 0 f.byteSize = 0 := by
    rw [Array.getD_eq_getD_getElem?, hf.zero, Option.getD_some]
  have hend : f.lineStarts.getD f.lineStarts.size f.byteSize = f.byteSize := by simp
  obtain ⟨i, hi, hle, hlt⟩ := f.exists_line_of_lt hzero (hend.symm ▸ hn)
  exact ⟨i, hi, by simpa [hi] using hle, hlt⟩

/-- Halving never comes to zero, from which `lineIndex` could not step back. -/
theorem countUpTo_pos (n : Nat) : 0 < countUpTo f.lineStarts n 0 f.lineStarts.size := by
  by_cases hn : n < f.byteSize
  · obtain ⟨i, hi, hle, hlt⟩ := hf.exists_line_of_inside hn
    rw [hf.countUpTo_of_inside hi hle hlt]
    omega
  · rw [hf.countUpTo_of_past (by omega)]
    omega

end Ascends

/-! ## Files made from a text -/

section
variable (name text : String)

theorem ascends_ofText : (ofText name text).Ascends where
  pairwise := by
    rw [toList_lineStarts_ofText]
    refine List.pairwise_cons.2 ⟨fun offset h => ?_, lineStartsFrom_pairwise _ _⟩
    exact (bounds_of_mem_lineStartsFrom h).1
  zero := by simp [ofText]
  inside := by
    intro start hstart
    rw [toList_lineStarts_ofText] at hstart
    rw [byteSize_ofText]
    rcases List.mem_cons.1 hstart with rfl | hrest
    · exact Nat.zero_le _
    · have := bounds_of_mem_lineStartsFrom hrest
      omega

/-- **Ranges.** A line has the range between the bytes before it and those up to its end. -/
theorem lineRange_of_isLine {before line after : List Char} {i : Nat}
    (h : Text.IsLine (Text.dropByteOrderMark text.toList) i before line after) :
    (ofText name text).lineRange i = .ok ⟨byteLength before, byteLength (before ++ line)⟩ := by
  obtain ⟨heq, rfl, hbegins, hends⟩ := h
  have hstart : (ofText name text).lineStart (before.count '\n') = .ok (byteLength before) :=
    lineStart_eq name (heq.trans (List.append_assoc ..)) hbegins
  have hstop : (ofText name text).lineStart (before.count '\n' + 1) =
      .ok (byteLength (before ++ line)) := by
    rcases hends with ⟨body, rfl, hbody⟩ | ⟨hline, rfl⟩
    · have hcount : (before ++ (body ++ ['\n'])).count '\n' = before.count '\n' + 1 := by
        simp [List.count_append, List.count_eq_zero.2 hbody]
      rw [← hcount]
      exact lineStart_eq name heq (.inr (by simp [List.getLast?_append]))
    · have hsize := length_lineStarts name heq
      rw [List.count_append, List.count_eq_zero.2 hline, List.count_nil] at hsize
      rw [lineStart, dif_neg (by omega), if_pos (by omega), byteSize_ofText, heq, List.append_nil]
  rw [lineRange, hstart, hstop]
  rfl

/-- The range of a line selects the line, and only its last character is a `\n`, if any is. -/
theorem exists_slice_of_lineRange {i : Nat} {range : Span}
    (h : (ofText name text).lineRange i = .ok range) :
    ∃ line, range.slice? (ofText name text).text = some line ∧
      if i + 1 < (ofText name text).lineCount
        then ∃ body, line.toList = body ++ ['\n'] ∧ '\n' ∉ body
        else '\n' ∉ line.toList := by
  obtain ⟨hi, -⟩ := (lineRange_eq_ok_iff _).1 h
  have hcount := lineCount_ofText name text
  rw [lineCount] at hcount
  obtain ⟨before, line, after, hline⟩ : ∃ before line after,
      Text.IsLine (Text.dropByteOrderMark text.toList) i before line after :=
    Text.exists_line (by omega)
  rw [lineRange_of_isLine name text hline] at h
  cases h
  refine ⟨String.ofList line, ?_, ?_⟩
  · rw [Span.slice?, toList_text_ofText,
      Text.sliceBytes?_eq_some_iff.2 ⟨before, after, hline.eq, rfl, by simp⟩]
    rfl
  · obtain ⟨heq, rfl, -, hends⟩ := hline
    rw [String.toList_ofList, lineCount, hcount, heq]
    rcases hends with ⟨body, rfl, hbody⟩ | ⟨hnone, rfl⟩
    · rw [if_pos (by simp; omega)]
      exact ⟨body, rfl, hbody⟩
    · rw [if_neg (by simp [List.count_append, List.count_eq_zero.2 hnone])]
      exact hnone

end

/-! ## Tiling -/

/-- The lines of a source file lie side by side and cover its text, each with the `\n` that ends it,
and looking up an offset gives the line that it lies on. -/
structure LinesTile (f : SourceFile) : Prop where
  range_iff : ∀ i, (∃ range, f.lineRange i = .ok range) ↔ i < f.lineCount
  /-- One past the last line it is only the end of the range that is too large. -/
  too_large : ∀ i, f.lineCount ≤ i →
    f.lineRange i = .error ⟨max i (f.lineCount + 1), f.lineCount - 1⟩
  first : ∃ stop, f.lineRange 0 = .ok ⟨0, stop⟩
  adjacent : ∀ i range next, f.lineRange i = .ok range → f.lineRange (i + 1) = .ok next →
    next.start = range.stop
  last : ∀ range, f.lineRange (f.lineCount - 1) = .ok range → range.stop = f.byteSize
  /-- Every line but the last ends right after its only `\n`, and the last one has none. -/
  breaks : ∀ i range, f.lineRange i = .ok range → ∃ line, range.slice? f.text = some line ∧
    if i + 1 < f.lineCount then ∃ body, line.toList = body ++ ['\n'] ∧ '\n' ∉ body
      else '\n' ∉ line.toList
  /-- The line that an offset is found on holds it. -/
  found : ∀ n < f.byteSize,
    ∃ range, f.lineRange (f.lineIndex n) = .ok range ∧ range.start ≤ n ∧ n < range.stop
  /-- No other line does. -/
  unique : ∀ i range n, f.lineRange i = .ok range → range.start ≤ n → n < range.stop →
    f.lineIndex n = i
  past : ∀ n, f.byteSize ≤ n → f.lineIndex n = f.lineCount - 1
  /-- Halving never comes to zero, from which `lineIndex` could not step back. -/
  counted : ∀ n, 0 < countUpTo f.lineStarts n 0 f.lineStarts.size

/-- Lines tile where their starts ascend, if their ranges select lines. -/
theorem Ascends.linesTile {f : SourceFile} (hf : f.Ascends)
    (hbreaks : ∀ i range, f.lineRange i = .ok range → ∃ line, range.slice? f.text = some line ∧
      if i + 1 < f.lineCount then ∃ body, line.toList = body ++ ['\n'] ∧ '\n' ∉ body
        else '\n' ∉ line.toList) : f.LinesTile where
  range_iff i := by simp [lineRange_eq_ok_iff, lineCount]
  too_large i hi := f.lineRange_of_le hi
  first := by
    have hfirst := (Array.getElem?_eq_some_iff.1 hf.zero).2
    exact ⟨_, by rw [f.lineRange_of_lt hf.size_pos, hfirst]⟩
  adjacent i range next hrange hnext := by
    obtain ⟨hi, rfl⟩ := f.lineRange_eq_ok_iff.1 hrange
    obtain ⟨hi', rfl⟩ := f.lineRange_eq_ok_iff.1 hnext
    simp [hi']
  last range hrange := by
    obtain ⟨hi, rfl⟩ := f.lineRange_eq_ok_iff.1 hrange
    have hpos := hf.size_pos
    simp [lineCount, Nat.sub_add_cancel hpos]
  breaks := hbreaks
  found n hn := by
    obtain ⟨i, hi, hle, hlt⟩ := hf.exists_line_of_inside hn
    rw [lineIndex, hf.countUpTo_of_inside hi hle hlt, Nat.add_sub_cancel]
    exact ⟨_, f.lineRange_of_lt hi, hle, hlt⟩
  unique i range n hrange hle hlt := by
    obtain ⟨hi, rfl⟩ := f.lineRange_eq_ok_iff.1 hrange
    rw [lineIndex, hf.countUpTo_of_inside hi hle hlt, Nat.add_sub_cancel]
  past n hn := by rw [lineIndex, hf.countUpTo_of_past hn, Nat.add_sub_cancel, lineCount]
  counted := hf.countUpTo_pos

/-- **Lines.** A source file has a line more than its text, without the byte order mark, has `\n`.
The lines tile the text, and the lookup of an offset is the inverse of their ranges. -/
theorem lines_tile (name text : String) :
    let f := ofText name text
    f.text = Text.stripByteOrderMark text ∧ f.lineCount = 1 + f.text.toList.count '\n' ∧
      f.LinesTile := by
  refine ⟨rfl, ?_, (ascends_ofText name text).linesTile fun i range h =>
    exists_slice_of_lineRange name text h⟩
  rw [lineCount_ofText, toList_text_ofText, Nat.add_comm]

end SourceFile
end BuiltInScript
