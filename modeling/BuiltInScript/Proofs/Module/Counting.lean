import BuiltInScript.Proofs.Lexing.Counting
import BuiltInScript.Proofs.Lexing.Words
import BuiltInScript.Proofs.Module.Lexis

/-!
# What the rules of modules count, a scanner reads

Each rule is given the text ahead at once and counts. Here a scanner stands before the same text
and reads on step by step: while a test holds, to the end of the line, over a line break, or by as
many characters as a word some way ahead has. It comes to where the count says.

**Results.**
* `readWord_reads`, `readNumber_reads`, `readDate_reads`: words, which are looked up by the folded
  text of the token that was read, numbers and dates.
* `comment_reads`, `readDirectiveEnd_reads`, `readDirective_text_reads`: comments, and what a
  directive ends with or holds beside its words.
* `patchMarker?_peeks`: the word of a patch marker is looked at before anything is read.
* `readDeleted_reads`: a line of deleted text, unless the zone ends.
-/
namespace BuiltInScript.Module

open Text

variable (s : State) {scanner : Scanner} {c : Char} {cs : List Char}

/-! ## Runs -/

theorem readWord_reads (h : scanner.ahead = c :: cs) (hc : isWordChar c = true) :
    let read := scanner.beginToken.advanceWhile isWordChar
    scanner.beginToken.advanceBy ((readWord s c cs).1.more + 1) = read ∧
      (readWord s c cs).1.kind = wordKind s.memory read.foldedTokenText.toList := by
  intro read
  have hread : read = scanner.beginToken.advanceBy ((cs.takeWhile isWordChar).length + 1) :=
    scanner.beginToken.advanceWhile_cons h hc
  refine ⟨hread.symm, ?_⟩
  rw [hread, Scanner.foldedTokenText_advanceBy, h, String.toList_ofList, List.take_succ_cons,
    take_length_takeWhile]
  rfl

/-- Digits, and if a point and a digit follow, these and the digits after them. -/
theorem readNumber_reads (h : scanner.ahead = c :: cs) (hc : isDigit c = true) :
    let read := scanner.advanceWhile isDigit
    scanner.advanceBy (numberRest cs + 1) =
      if read.current = some '.' ∧ (read.peekNth 2).any isDigit then
        read.advance.advanceWhile isDigit
      else read := by
  intro read
  have hread : read = scanner.advanceBy (run isDigit cs + 1) := scanner.advanceWhile_cons h hc
  have hahead : read.ahead = cs.drop (run isDigit cs) := by
    rw [hread, Scanner.ahead_drop, h, List.drop_succ_cons]
  rw [read.current_eq, read.peekNth_succ 1, hahead]
  unfold numberRest
  dsimp only
  split
  · rename_i rest hpoint
    have hafter : read.advance.ahead = rest := by
      rw [Scanner.advance_eq, Scanner.ahead_drop, hahead, hpoint]
      rfl
    have hdigits : run isDigit rest = 0 ↔ rest.head?.any isDigit = false := by
      cases rest with
      | nil => simp [run]
      | cons d ds => cases hd : isDigit d <;> simp [run, hd]
    rw [hpoint, List.drop_succ_cons, List.drop_zero]
    split
    · rename_i hzero
      rw [if_neg (by simp [hdigits.1 hzero]), hread]
    · rename_i hsome
      rw [if_pos (by simpa using mt hdigits.2 hsome), Scanner.advanceWhile, hafter,
        Scanner.advance_eq, hread, ← Scanner.advanceBy_add, ← Scanner.advanceBy_add]
      exact congrArg scanner.advanceBy (by unfold run; omega)
  · rename_i hpoint
    rw [if_neg, hread]
    rintro ⟨hdot, -⟩
    obtain ⟨rest, hrest⟩ := List.head?_eq_some_iff.1 hdot
    exact hpoint rest hrest

/-- Anything up to the closing quote on the same line, and the quote if it is there. -/
theorem readDate_reads (h : scanner.ahead = c :: cs) :
    let read := scanner.advance.advanceWhile fun c => c != '\'' && !isLineBreak c
    scanner.advanceBy ((readDate s cs).1.more + 1) =
      if read.current = some '\'' then read.advance else read := by
  intro read
  have hafter : scanner.advance.ahead = cs := by
    rw [Scanner.advance_eq, Scanner.ahead_drop, h]
    rfl
  have hread : read = scanner.advanceBy
      (1 + run (fun c => c != '\'' && !isLineBreak c) cs) := by
    rw [Scanner.advanceBy_add, ← hafter]
    rfl
  have hahead : read.ahead = cs.drop (run (fun c => c != '\'' && !isLineBreak c) cs) := by
    rw [hread, Scanner.ahead_drop, h, Nat.add_comm, List.drop_succ_cons]
  unfold readDate
  dsimp only
  rw [read.current_eq, hahead]
  split
  · rw [Scanner.advance_eq, hread, ← Scanner.advanceBy_add]
    exact congrArg scanner.advanceBy (by dsimp only; omega)
  · rw [hread, Nat.add_comm]

/-! ## Lines -/

theorem comment_reads (h : scanner.ahead = c :: cs) (hc : startsComment c cs = true) :
    scanner.advanceBy (commentRest cs + 1) = scanner.advanceToLineEnd := by
  refine (scanner.advanceWhile_cons h ?_).symm
  obtain rfl : c = '/' := of_decide_eq_true (Bool.and_eq_true_iff.1 hc).1
  rfl

theorem readDirectiveEnd_reads (h : scanner.ahead = c :: cs) (hc : isLineBreak c = true) :
    scanner.advanceLineBreak =
      (true, scanner.advanceBy ((readDirectiveEnd s c cs).1.more + 1)) := by
  simp only [isLineBreak, Bool.or_eq_true, beq_iff_eq] at hc
  simp only [Scanner.advanceLineBreak, h, readDirectiveEnd]
  rcases hc with rfl | rfl
  · cases cs with
    | nil => rfl
    | cons d ds => by_cases hd : d = '\n' <;> simp [hd, Scanner.lineBreakLength]
  · rfl

/-- The rest of a line, then its line break if the text does not end first. -/
theorem line_reads (scanner : Scanner) :
    scanner.advanceToLineEnd.advanceLineBreak.2 = scanner.advanceBy (lineLength scanner.ahead) := by
  have hahead : scanner.advanceToLineEnd.ahead = scanner.ahead.drop (commentRest scanner.ahead) :=
    scanner.ahead_drop _
  rw [lineLength, Scanner.advanceBy_add, ← hahead]
  rfl

theorem readDirective_text_reads (h : scanner.ahead = c :: cs)
    (htext : (readDirective s c cs).1.kind = .dirText) :
    scanner.advanceBy ((readDirective s c cs).1.more + 1) = scanner.advanceWhile fun c =>
      !isBlank c && c != '(' && c != ')' && c != '"' && c != '#' := by
  rw [readDirective_text_length s c cs htext, Scanner.advanceWhile, h]
  rfl

/-! ## Patch markers -/

/-- Before a patch marker is read, its word is looked at behind the `#` and the blanks. -/
theorem patchMarker?_peeks (h : scanner.ahead = '#' :: cs) :
    let word := scanner.peekWord (run isInlineBlank cs + 2)
    patchMarker? cs =
      (patchWords.find? word).map fun kind => (kind, run isInlineBlank cs + word.length) := by
  intro word
  have hword : word = (cs.dropWhile isInlineBlank).takeWhile isWordChar := by
    show ((scanner.ahead.drop (run isInlineBlank cs + 1)).takeWhile isWordChar) = _
    rw [h, List.drop_succ_cons, run, drop_length_takeWhile]
  rw [hword]
  rfl

theorem readDeleted_reads (h : scanner.ahead = c :: cs) :
    scanner.advanceBy ((readDeleted s c cs).1.more + 1) =
      match endDeleteLength? scanner.ahead with
      | some n => scanner.advanceBy n
      | none => scanner.advanceToLineEnd.advanceLineBreak.2 := by
  rw [readDeleted_length, ← h]
  cases endDeleteLength? scanner.ahead with
  | some n => rfl
  | none => exact (line_reads scanner).symm

end BuiltInScript.Module
