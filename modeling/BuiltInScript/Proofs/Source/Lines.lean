import BuiltInScript.Source.File
import Mathlib.Data.List.DropRight

/-!
# Lines of a source file

A source file finds the line of a byte offset by halving its ascending line starts, and the column
by counting the characters that end between the beginning of the line and the offset. At a place
between two characters both are told by the text before it: by its `\n`, and by what follows the
last of them.

**Results.**
* `countUpTo_eq`: halving finds the place where the entries begin to exceed a number.
* `lineIndex_eq`: as many lines lie before a place as there are `\n` before it.
* `location_eq`: line and column of a place.
-/
namespace BuiltInScript

open Text (byteLength boundariesFrom)

/-! ## Line starts and boundaries -/

theorem lineStartsFrom_append (start : Nat) (a b : List Char) :
    lineStartsFrom start (a ++ b) =
      lineStartsFrom start a ++ lineStartsFrom (start + byteLength a) b := by
  induction a generalizing start with
  | nil => rfl
  | cons c a ih =>
    by_cases hc : c = '\n' <;> simp [lineStartsFrom, byteLength, hc, ih, Nat.add_assoc]

/-- A line begins after a character of the text. -/
theorem bounds_of_mem_lineStartsFrom {start offset : Nat} {cs : List Char}
    (h : offset ∈ lineStartsFrom start cs) : start < offset ∧ offset ≤ start + byteLength cs := by
  induction cs generalizing start with
  | nil => cases h
  | cons c cs ih =>
    have hpos := c.utf8Size_pos
    have hmem : offset = start + c.utf8Size ∨ offset ∈ lineStartsFrom (start + c.utf8Size) cs := by
      rw [lineStartsFrom] at h
      split at h
      · exact List.mem_cons.1 h
      · exact .inr h
    rw [byteLength]
    rcases hmem with rfl | hrest
    · omega
    · have := ih hrest
      omega

theorem Text.boundariesFrom_append (start : Nat) (a b : List Char) :
    boundariesFrom start (a ++ b) =
      boundariesFrom start a ++ boundariesFrom (start + byteLength a) b := by
  induction a generalizing start with
  | nil => rfl
  | cons c a ih => simp [boundariesFrom, byteLength, ih, Nat.add_assoc]

@[simp] theorem Text.length_boundariesFrom (start : Nat) (cs : List Char) :
    (boundariesFrom start cs).length = cs.length := by
  induction cs generalizing start with
  | nil => rfl
  | cons c cs ih => rw [boundariesFrom, List.length_cons, ih, List.length_cons]

theorem Text.bounds_of_mem_boundariesFrom {start offset : Nat} {cs : List Char}
    (h : offset ∈ boundariesFrom start cs) : start < offset ∧ offset ≤ start + byteLength cs := by
  induction cs generalizing start with
  | nil => cases h
  | cons c cs ih =>
    have hpos := c.utf8Size_pos
    rw [byteLength]
    rcases List.mem_cons.1 h with rfl | hrest
    · omega
    · have := ih hrest
      omega

/-- The characters that end after one place and up to another are those between them. -/
theorem Text.length_filter_boundariesFrom (a b c : List Char) :
    ((boundariesFrom 0 (a ++ b ++ c)).filter fun offset =>
      byteLength a < offset && offset ≤ byteLength a + byteLength b).length = b.length := by
  have hbefore : (boundariesFrom 0 a).filter (fun offset =>
      byteLength a < offset && offset ≤ byteLength a + byteLength b) = [] := by
    refine List.filter_eq_nil_iff.2 fun offset h => ?_
    have := bounds_of_mem_boundariesFrom h
    simp
    omega
  have hbetween : (boundariesFrom (byteLength a) b).filter (fun offset =>
      byteLength a < offset && offset ≤ byteLength a + byteLength b) =
        boundariesFrom (byteLength a) b := by
    refine List.filter_eq_self.2 fun offset h => ?_
    simpa using bounds_of_mem_boundariesFrom h
  have hafter : (boundariesFrom (byteLength a + byteLength b) c).filter (fun offset =>
      byteLength a < offset && offset ≤ byteLength a + byteLength b) = [] := by
    refine List.filter_eq_nil_iff.2 fun offset h => ?_
    have := bounds_of_mem_boundariesFrom h
    simp
    omega
  rw [boundariesFrom_append, boundariesFrom_append, byteLength_append, Nat.zero_add, Nat.zero_add,
    List.filter_append, List.filter_append, hbefore, hbetween, hafter, List.nil_append,
    List.append_nil, length_boundariesFrom]

namespace SourceFile

/-! ## Halving -/

/-- Halving finds the number of entries up to `n`, if it is kept between the two bounds. -/
theorem countUpTo_eq {starts : Array Nat} {n low high count : Nat}
    (h : ∀ i < high, starts.getD i 0 ≤ n ↔ i < count) (hlow : low ≤ count) (hhigh : count ≤ high) :
    countUpTo starts n low high = count := by
  fun_induction countUpTo starts n low high with
  | case1 low high hlt middle hle ih =>
    exact ih h ((h middle (by omega)).1 hle) hhigh
  | case2 low high hlt middle hgt ih =>
    have hcount : ¬middle < count := mt (h middle (by omega)).2 hgt
    exact ih (fun i hi => h i (by omega)) hlow (by omega)
  | case3 low high hge => omega

variable (name : String) {text : String} {before after : List Char}

variable (text) in
theorem toList_text_ofText : (ofText name text).text.toList = Text.dropByteOrderMark text.toList :=
  Text.toList_stripByteOrderMark text

variable (text) in
theorem byteSize_ofText :
    (ofText name text).byteSize = byteLength (Text.dropByteOrderMark text.toList) := by
  rw [byteSize, toList_text_ofText]

variable (text) in
theorem toList_lineStarts_ofText : (ofText name text).lineStarts.toList =
    0 :: lineStartsFrom 0 (Text.dropByteOrderMark text.toList) := by
  simp [ofText]

/-- The lines that begin up to a place, and those that begin after it. -/
theorem lineStarts_eq (h : Text.dropByteOrderMark text.toList = before ++ after) :
    (ofText name text).lineStarts.toList =
      (0 :: lineStartsFrom 0 before) ++ lineStartsFrom (byteLength before) after := by
  simp [toList_lineStarts_ofText, h, lineStartsFrom_append]

theorem length_lineStarts (h : Text.dropByteOrderMark text.toList = before ++ after) :
    (ofText name text).lineStarts.size = before.count '\n' + after.count '\n' + 1 := by
  rw [← Array.length_toList, lineStarts_eq name h, List.length_append, List.length_cons,
    length_lineStartsFrom, length_lineStartsFrom]
  omega

/-- A line begins up to a place if no more lines begin before it than there are `\n`. -/
theorem lineStarts_le_iff (h : Text.dropByteOrderMark text.toList = before ++ after) {i : Nat}
    (hi : i < (ofText name text).lineStarts.size) :
    (ofText name text).lineStarts[i] ≤ byteLength before ↔ i < before.count '\n' + 1 := by
  have hsome : (ofText name text).lineStarts.toList[i]? =
      some (ofText name text).lineStarts[i] := by
    simp [hi]
  have hlength : (0 :: lineStartsFrom 0 before).length = before.count '\n' + 1 := by
    rw [List.length_cons, length_lineStartsFrom]
  rw [lineStarts_eq name h] at hsome
  by_cases hlt : i < before.count '\n' + 1
  · rw [List.getElem?_append_left (by omega)] at hsome
    refine iff_of_true ?_ hlt
    rcases List.mem_cons.1 (List.mem_of_getElem? hsome) with hzero | hmem
    · omega
    · have := bounds_of_mem_lineStartsFrom hmem
      omega
  · rw [List.getElem?_append_right (by omega)] at hsome
    refine iff_of_false ?_ hlt
    have := bounds_of_mem_lineStartsFrom (List.mem_of_getElem? hsome)
    omega

/-! ## Places -/

/-- **Lines.** As many lines lie before a place as there are `\n`. -/
theorem lineIndex_eq (h : Text.dropByteOrderMark text.toList = before ++ after) :
    (ofText name text).lineIndex (byteLength before) = before.count '\n' := by
  have hsize := length_lineStarts name h
  have hfirst : ∀ i < (ofText name text).lineStarts.size,
      (ofText name text).lineStarts.getD i 0 ≤ byteLength before ↔ i < before.count '\n' + 1 := by
    intro i hi
    rw [Array.getD_eq_getD_getElem?, Array.getElem?_eq_getElem hi, Option.getD_some]
    exact lineStarts_le_iff name h hi
  rw [lineIndex, countUpTo_eq hfirst (Nat.zero_le _) (by omega), Nat.add_sub_cancel]

/-- The beginning of the text and the place after a `\n` begin a line. -/
theorem lineStart_eq (h : Text.dropByteOrderMark text.toList = before ++ after)
    (hbreak : before = [] ∨ before.getLast? = some '\n') :
    (ofText name text).lineStart (before.count '\n') = .ok (byteLength before) := by
  have hsize := length_lineStarts name h
  have hlast : (0 :: lineStartsFrom 0 before)[before.count '\n']? = some (byteLength before) := by
    rcases hbreak with rfl | hfeed
    · rfl
    · obtain ⟨line, rfl⟩ := List.getLast?_eq_some_iff.1 hfeed
      have hlength := length_lineStartsFrom 0 line
      simp [lineStartsFrom_append, lineStartsFrom, Text.byteLength, hlength]
  have hsome : (ofText name text).lineStarts.toList[before.count '\n']? =
      some (byteLength before) := by
    rw [lineStarts_eq name h,
      List.getElem?_append_left (List.getElem?_eq_some_iff.1 hlast).1, hlast]
  have hlt : before.count '\n' < (ofText name text).lineStarts.size := by omega
  rw [lineStart, dif_pos hlt, ← Array.getElem_toList hlt]
  exact congrArg Except.ok (List.getElem?_eq_some_iff.1 hsome).2

/-- The line after a place begins after it, or ends with the text. -/
theorem le_lineStart_succ (h : Text.dropByteOrderMark text.toList = before ++ after) :
    ∃ start, (ofText name text).lineStart (before.count '\n' + 1) = .ok start ∧
      byteLength before ≤ start := by
  have hsize := length_lineStarts name h
  unfold lineStart
  split
  · rename_i hlt
    have := lineStarts_le_iff name h hlt
    exact ⟨_, rfl, by omega⟩
  · rw [if_pos (by omega)]
    refine ⟨_, rfl, ?_⟩
    rw [byteSize_ofText, h, Text.byteLength_append]
    omega

/-- What stands before the last line of a text is nothing, or it ends with a `\n`. -/
theorem rdropWhile_ends (cs : List Char) :
    cs.rdropWhile (· != '\n') = [] ∨ (cs.rdropWhile (· != '\n')).getLast? = some '\n' := by
  refine or_iff_not_imp_left.2 fun hne => ?_
  have hlast := List.rdropWhile_last_not (· != '\n') cs hne
  rw [List.getLast?_eq_some_getLast hne]
  simpa using hlast

/-- **Places.** The line of a place counts the `\n` before it, and its column the characters after
the last of them. -/
theorem location_eq (h : Text.dropByteOrderMark text.toList = before ++ after) :
    (ofText name text).location (byteLength before) =
      .ok (before.count '\n' + 1, (before.rtakeWhile (· != '\n')).length + 1) := by
  generalize hstart : before.rdropWhile (· != '\n') = start
  generalize hline : before.rtakeWhile (· != '\n') = line
  have hsplit : before = start ++ line := by
    rw [← hstart, ← hline, List.rdropWhile_append_rtakeWhile]
  have hcount : before.count '\n' = start.count '\n' := by
    have hclear : '\n' ∉ line := by
      rw [← hline]
      exact fun hmem => absurd (List.mem_rtakeWhile_imp hmem) (by decide)
    rw [hsplit, List.count_append, List.count_eq_zero.2 hclear, Nat.add_zero]
  have hbytes : byteLength before ≤ (ofText name text).byteSize := by
    rw [byteSize_ofText, h, Text.byteLength_append]
    omega
  obtain ⟨next, hnext, hle⟩ := le_lineStart_succ name h
  have hbegin : (ofText name text).lineStart (before.count '\n') = .ok (byteLength start) := by
    rw [hcount]
    rw [hsplit, List.append_assoc] at h
    exact lineStart_eq name h (hstart ▸ rdropWhile_ends before)
  have hrange :
      (ofText name text).lineRange (before.count '\n') = .ok ⟨byteLength start, next⟩ := by
    rw [lineRange, hbegin, hnext]
    rfl
  have hstop : min (byteLength before) (min next (ofText name text).byteSize) =
      byteLength start + byteLength line := by
    rw [Nat.min_eq_left (by omega), hsplit, Text.byteLength_append]
  have hends := Text.length_filter_boundariesFrom start line after
  rw [← hsplit, ← h] at hends
  rw [location, lineIndex_eq name h, hrange, toList_text_ofText, ← hends]
  simp only [bind, Except.bind, pure, Except.pure, hstop]

end SourceFile
end BuiltInScript
