import BuiltInScript.Proofs.Lexing.Tiling

/-!
# Rules count what a scanner reads

A rule tells the length of a token by counting characters of the folded text ahead. A scanner that
is told to read on while a test holds comes to the same place, and the token that it cuts is what
its stream has between the place where the token was begun and that place.

Reading stops at the end of the input, so a rule that counted too far would not be noticed by the
tokens being side by side. What a rule counts is there, and the token has all of it.

**Results.**
* `CharStream.seek_index`: a stream goes back to a place, whatever was read since.
* `Scanner.emit_slices`: the text and the span of a token are those of the stream.
* `Scanner.advanceWhile_cons`: reading on while a test holds, and counting.
* `LexicalRules.Plain.length_next`: a token has as many characters as its rule counts.
-/
namespace BuiltInScript

open Text (byteLength)

/-! ## Places of a stream -/

namespace CharStream

variable {s t : CharStream}

/-- What a marker is for: from any place of the same text a stream goes back to this one. -/
theorem seek_index (hname : t.name = s.name) (hchars : t.chars = s.chars)
    (hmarkers : t.openMarkers = s.openMarkers) : t.seek s.index = s := by
  obtain ⟨name, behind, ahead, folded, hfolded, openMarkers⟩ := s
  subst hfolded
  simp only [chars] at hchars
  simp only [seek, chars, index, hname, hchars, hmarkers]
  congr 1 <;> simp

/-- Folding does not change where the characters ahead are. -/
theorem lookaheadFolded_eq (s : CharStream) (n : Nat) :
    s.lookaheadFolded n = (s.lookahead n).map Text.foldCase := by
  cases n with
  | zero => rfl
  | succ n => rw [lookaheadFolded, lookahead, s.folded_eq, List.getElem?_map]

/-- Opening a marker moves nothing, and releasing it leaves no trace. -/
theorem release_mark (s : CharStream) :
    s.mark.chars = s.chars ∧ s.mark.index = s.index ∧ s.mark.release = s :=
  ⟨rfl, rfl, rfl⟩

end CharStream

/-! ## Reading on -/

namespace Scanner

variable {K : Type} (s : Scanner)

theorem advanceBy_add (m n : Nat) : s.advanceBy (m + n) = (s.advanceBy m).advanceBy n := by
  induction m generalizing s with
  | zero => rw [Nat.zero_add, advanceBy]
  | succ m ih => rw [Nat.succ_add, advanceBy, ih, advanceBy]

/-- What is left to read, folded. -/
theorem ahead_drop (n : Nat) : (s.advanceBy n).ahead = s.ahead.drop n := by
  unfold ahead
  rw [CharStream.folded_eq, CharStream.folded_eq, ahead_advanceBy, List.map_drop]

theorem advance_eq : s.advance = s.advanceBy 1 := rfl

/-- Looking at a character ahead, counted from one. -/
theorem peekNth_succ (n : Nat) : s.peekNth (n + 1) = (s.ahead.drop n).head? := by
  rw [List.head?_drop]
  rfl

theorem current_eq : s.current = s.ahead.head? := s.peekNth_succ 0

/-- A scanner is at the end when its stream has nothing left. -/
theorem atEnd_iff : s.atEnd = true ↔ s.stream.ahead = [] := by
  rw [atEnd, current_eq, ahead, CharStream.folded_eq]
  cases s.stream.ahead <;> simp

/-- The characters of a token are those that were read since it was begun. -/
theorem tokenChars_advanceBy (n : Nat) :
    (s.beginToken.advanceBy n).tokenChars = s.stream.ahead.take n := by
  have htext := (s.cuts_emit n () .codeOnly).text
  rw [text_emit] at htext
  exact String.ofList_injective htext

theorem foldedTokenText_advanceBy (n : Nat) :
    (s.beginToken.advanceBy n).foldedTokenText = String.ofList (s.ahead.take n) := by
  rw [foldedTokenText, tokenChars_advanceBy, List.map_take, ahead, CharStream.folded_eq]

/-- A token is what the stream has between the place where it was begun and the place that reading
has come to. -/
theorem emit_slices (kind : K) (channels : Channels) (h : s.tokenStart ≤ s.stream.index) :
    (s.emit kind channels).1.text = s.stream.text s.tokenStart s.stream.index ∧
      (s.emit kind channels).1.span =
        ⟨s.stream.byteOffset s.tokenStart, s.stream.byteOffset s.stream.index⟩ := by
  have hread : s.stream.chars.take s.stream.index = s.stream.behind.reverse := by
    rw [CharStream.chars, CharStream.index, ← List.length_reverse, List.take_left]
  have hbegun : s.stream.chars.take s.tokenStart =
      (s.stream.behind.drop s.tokenLength).reverse := by
    rw [← Nat.min_eq_left h, ← List.take_take, hread, List.take_reverse]
    rfl
  refine ⟨?_, ?_⟩
  · rw [text_emit, CharStream.text, hread, List.drop_reverse]
    rfl
  · rw [CharStream.byteOffset, CharStream.byteOffset, hread, hbegun, Text.byteLength_reverse,
      Text.byteLength_reverse]
    rfl

/-- Reading on while a test holds, from a character that passes it. -/
theorem advanceWhile_cons {test : Char → Bool} {c : Char} {cs : List Char} (h : s.ahead = c :: cs)
    (hc : test c = true) : s.advanceWhile test = s.advanceBy ((cs.takeWhile test).length + 1) := by
  rw [advanceWhile, h, List.takeWhile_cons_of_pos hc, List.length_cons]

/-- A line break is read exactly where one stands. -/
theorem advanceLineBreak_iff :
    s.advanceLineBreak.1 = true ↔ ∃ c, s.ahead.head? = some c ∧ Text.isLineBreak c = true := by
  simp only [advanceLineBreak, decide_eq_true_iff]
  cases s.ahead with
  | nil => simp [lineBreakLength]
  | cons c cs =>
    simp only [List.head?_cons, Option.some.injEq, exists_eq_left', Text.isLineBreak,
      Bool.or_eq_true, beq_iff_eq]
    unfold lineBreakLength
    split <;> simp_all

end Scanner

/-! ## Counts of rules -/

/-- A token has as many characters as its rule counts: none of them lies beyond the end. -/
theorem LexicalRules.Plain.length_next {K M F : Type} [TokenKind K] {rules : LexicalRules K M F}
    (h : rules.Plain) (l : Lexer rules) {c : Char} {cs : List Char}
    (ha : l.scanner.ahead = c :: cs) :
    l.next.1.text.toList.length = (rules.read l.state c cs).1.more + 1 := by
  have htext : l.next.1.text =
      String.ofList (l.scanner.stream.ahead.take ((rules.read l.state c cs).1.more + 1)) := by
    have hbegun : l.scanner.beginToken.ahead = c :: cs := ha
    unfold Lexer.next
    dsimp only
    rw [hbegun]
    exact (l.scanner.cuts_emit _ _ _).text
  have hlength : l.scanner.stream.ahead.length = cs.length + 1 := by
    rw [← List.length_map (f := Text.foldCase), ← CharStream.folded_eq]
    exact congrArg List.length ha
  have hmore := (h l.state c cs).more_le
  rw [htext, String.toList_ofList, List.length_take, hlength]
  omega

end BuiltInScript
