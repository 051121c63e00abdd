import BuiltInScript.Proofs.Lexing.Folding
import BuiltInScript.Proofs.Lexing.Words
import BuiltInScript.Proofs.Source.Breaks

/-!
# Tokens stand where the line breaks before them say

A scanner moves its position past one character at a time and looks at the next one meanwhile, so
where it comes to is told by what it has read and by the character that follows. That character
does not matter unless a `\r\n` was cut, and rules that never cut one between two tokens therefore
give every token the line and the column that the text before it tells.

**Results.**
* `Scanner.position_advanceBy`: a scanner moves its position past what it reads.
* `Scanner.Tracks.emit`: a scanner that has cut no line break puts a token in its place.
* `LexicalRules.Whole.placed_run`: whatever a lexer is told, all tokens that it gives are in place.
* `LexicalRules.Whole.placed_tokenize`: so are the tokens of a text.
-/
namespace BuiltInScript

open Text (byteLength lineBreaks lastLineLength CutsBreak foldCase)

variable {K M F : Type}

/-- Folding makes no line break, and leaves those that there are. -/
theorem Text.cutsBreak_map_foldCase (before after : List Char) :
    CutsBreak (before.map foldCase) (after.map foldCase) ↔ CutsBreak before after := by
  have hreturn := foldCase_eq_iff (show '\r' ∈ marks by decide)
  have hfeed := foldCase_eq_iff (show '\n' ∈ marks by decide)
  simp only [CutsBreak, List.getLast?_map, List.head?_map, Option.map_eq_some_iff, hreturn, hfeed,
    exists_eq_right]

/-- A run holds nothing that fails its test. -/
theorem Text.notMem_take_length_takeWhile {test : Char → Bool} {d : Char} (h : test d = false)
    (cs : List Char) : d ∉ cs.take (cs.takeWhile test).length := by
  rw [take_length_takeWhile]
  exact fun hmem => absurd (List.mem_takeWhile_imp hmem) (by simp [h])

/-! ## Lexemes -/

/-- A lexeme that does not end within a `\r\n`. -/
def Lexeme.Whole (c : Char) (cs : List Char) (lexeme : Lexeme K) : Prop :=
  ¬CutsBreak (c :: cs.take lexeme.more) (cs.drop lexeme.more)

/-- Rules that never cut a line break. -/
def LexicalRules.Whole (rules : LexicalRules K M F) : Prop :=
  ∀ state c cs, (rules.read state c cs).1.Whole c cs

namespace Lexeme.Whole

variable {c : Char} {cs : List Char} {lexeme : Lexeme K}

/-- A lexeme without a `\r`. -/
theorem of_notMem (hc : c ≠ '\r') (h : '\r' ∉ cs.take lexeme.more) : lexeme.Whole c cs :=
  fun hcut => List.not_mem_cons_of_ne_of_not_mem hc.symm h (List.mem_of_getLast? hcut.1)

/-- A lexeme that no `\n` follows. -/
theorem of_head? (h : (cs.drop lexeme.more).head? ≠ some '\n') : lexeme.Whole c cs :=
  fun hcut => h hcut.2

/-- A lexeme that is given by the number of all its characters. -/
theorem of_length {n : Nat} (hn : 0 < n)
    (h : ¬CutsBreak ((c :: cs).take n) ((c :: cs).drop n)) (kind : K) :
    (⟨kind, n - 1⟩ : Lexeme K).Whole c cs := by
  obtain ⟨m, rfl⟩ := Nat.exists_eq_succ_of_ne_zero (Nat.ne_of_gt hn)
  exact h

/-- A sign of one character. -/
theorem sign (hc : c ≠ '\r') (kind : K) : (⟨kind, 0⟩ : Lexeme K).Whole c cs :=
  of_notMem hc List.not_mem_nil

/-- A sign of two characters. -/
theorem second {d : Char} (hc : c ≠ '\r') (h : cs.head? = some d) (hd : d ≠ '\r') (kind : K) :
    (⟨kind, 1⟩ : Lexeme K).Whole c cs := by
  obtain ⟨rest, rfl⟩ := List.head?_eq_some_iff.1 h
  exact of_notMem hc (by simpa using hd.symm)

/-- A character and a run of others, none of which is a `\r`. -/
theorem run {test : Char → Bool} (hc : c ≠ '\r') (h : test '\r' = false) (kind : K) :
    (⟨kind, (cs.takeWhile test).length⟩ : Lexeme K).Whole c cs :=
  of_notMem hc (Text.notMem_take_length_takeWhile h cs)

/-- A run that does not stop before a `\n`. -/
theorem run_of_feed {test : Char → Bool} (h : test '\n' = true) (kind : K) :
    (⟨kind, (cs.takeWhile test).length⟩ : Lexeme K).Whole c cs := by
  refine of_head? fun hnext => ?_
  have hfails := List.head?_dropWhile_not test cs
  dsimp only at hnext
  rw [Text.drop_length_takeWhile] at hnext
  rw [hnext] at hfails
  simp [h] at hfails

end Lexeme.Whole

/-! ## Tokens in place -/

/-- A token in its place between what stands before it and what stands after it. Its line and its
column are told by the line breaks before it, and neither end of it is within a `\r\n`. -/
structure Token.Placed (chars before after : List Char) (t : Token K) : Prop where
  chars_eq : chars = before ++ t.text.toList ++ after
  span : t.span = ⟨byteLength before, byteLength before + byteLength t.text.toList⟩
  position : t.position = ⟨1 + lineBreaks before, lastLineLength before⟩
  start_whole : ¬CutsBreak before (t.text.toList ++ after)
  stop_whole : ¬CutsBreak (before ++ t.text.toList) after

namespace Scanner

/-- A scanner moves its position past what it reads, and sees what follows. -/
theorem position_advanceBy (s : Scanner) (n : Nat) :
    (s.advanceBy n).position =
      s.position.walkTo (s.stream.ahead.drop n).head? (s.stream.ahead.take n) := by
  induction n generalizing s with
  | zero => rfl
  | succ n ih =>
    have hahead : s.advance.stream.ahead = s.stream.ahead.drop 1 := s.ahead_advanceBy 1
    have hone : s.advance.position =
        s.position.walkTo (s.stream.ahead.drop 1).head? (s.stream.ahead.take 1) := by
      show (s.stream.consumeAt s.position).2 = _
      unfold CharStream.consumeAt
      split <;> rename_i h <;> rw [h] <;> rfl
    have hnext : ((s.stream.ahead.drop 1).take n).head?.or (s.stream.ahead.drop (1 + n)).head? =
        (s.stream.ahead.drop 1).head? := by
      rw [← List.drop_drop, ← List.head?_append, List.take_append_drop]
    rw [advanceBy, ih, hone, hahead, List.drop_drop, Nat.add_comm n 1, List.take_add,
      Position.walkTo_append, hnext]

theorem tokenPosition_advanceBy (s : Scanner) (n : Nat) :
    (s.advanceBy n).tokenPosition = s.tokenPosition := by
  induction n generalizing s with
  | zero => rfl
  | succ n ih => exact ih s.advance

/-- A scanner whose position is where its text comes to, and that has cut no line break. -/
structure Tracks (s : Scanner) : Prop where
  position : s.position = Position.walkTo {} s.stream.ahead.head? s.stream.behind.reverse
  whole : ¬CutsBreak s.stream.behind.reverse s.stream.ahead

/-- The line and the column of a scanner that tracks its text. -/
theorem Tracks.position_eq {s : Scanner} (h : s.Tracks) :
    s.position =
      ⟨1 + lineBreaks s.stream.behind.reverse, lastLineLength s.stream.behind.reverse⟩ := by
  rw [h.position, Position.walkTo_eq_walk _ h.whole, Position.walk_eq, Nat.zero_add, ite_self]

/-- **One token.** Such a scanner puts a token in place, and goes on in the same way. -/
theorem Tracks.emit {s : Scanner} (h : s.Tracks) {n : Nat} (kind : K) (channels : Channels)
    (hwhole : ¬CutsBreak (s.stream.behind.reverse ++ s.stream.ahead.take n)
      (s.stream.ahead.drop n)) :
    Token.Placed s.stream.chars s.stream.behind.reverse
        ((s.beginToken.advanceBy n).emit kind channels).2.stream.ahead
        ((s.beginToken.advanceBy n).emit kind channels).1 ∧
      ((s.beginToken.advanceBy n).emit kind channels).2.Tracks := by
  have hcut := s.cuts_emit n kind channels
  have htext : ((s.beginToken.advanceBy n).emit kind channels).1.text.toList =
      s.stream.ahead.take n := by rw [hcut.text, String.toList_ofList]
  have hbehind : ((s.beginToken.advanceBy n).emit kind channels).2.stream.behind.reverse =
      s.stream.behind.reverse ++ s.stream.ahead.take n := by
    rw [hcut.behind, List.reverse_append, List.reverse_reverse]
  constructor
  · constructor
    · rw [htext, hcut.ahead, CharStream.chars, List.append_assoc, List.take_append_drop]
    · rw [htext, hcut.span, Text.byteLength_reverse]
    · exact (s.beginToken.tokenPosition_advanceBy n).trans h.position_eq
    · rw [htext, hcut.ahead, List.take_append_drop]
      exact h.whole
    · rw [htext, hcut.ahead]
      exact hwhole
  · constructor
    · have hnext : (s.stream.ahead.take n).head?.or (s.stream.ahead.drop n).head? =
          s.stream.ahead.head? := by rw [← List.head?_append, List.take_append_drop]
      rw [hbehind, hcut.ahead, Position.walkTo_append, hnext, ← h.position]
      exact s.beginToken.position_advanceBy n
    · rw [hbehind, hcut.ahead]
      exact hwhole

end Scanner

/-- The tokens up to the end marker are among all tokens. -/
theorem mem_of_mem_upToEnd [DecidableEq K] [TokenKind K] {t : Token K} {tokens : List (Token K)}
    (h : t ∈ upToEnd tokens) : t ∈ tokens := by
  induction tokens with
  | nil => exact h
  | cons u tokens ih =>
    rw [upToEnd] at h
    split at h
    · exact List.mem_cons.2 (.inl (List.mem_singleton.1 h))
    · exact List.mem_cons.2 ((List.mem_cons.1 h).imp_right ih)

namespace LexicalRules

variable [TokenKind K] {rules : LexicalRules K M F} {l : Lexer rules}

/-- A lexer whose rules cut no line break puts the next token in place, and goes on in the same
way. -/
theorem Whole.placed_next (h : rules.Whole) (htracks : l.scanner.Tracks) :
    Token.Placed l.scanner.stream.chars l.scanner.stream.behind.reverse
        l.next.2.scanner.stream.ahead l.next.1 ∧ l.next.2.scanner.Tracks := by
  have hfolded : l.scanner.beginToken.ahead = l.scanner.stream.ahead.map foldCase :=
    l.scanner.stream.folded_eq
  unfold Lexer.next
  dsimp only
  cases ha : l.scanner.stream.ahead with
  | nil =>
    rw [ha] at hfolded
    rw [hfolded]
    refine htracks.emit (n := 0) _ _ fun hcut => ?_
    rw [ha] at hcut
    exact nomatch hcut.2
  | cons c cs =>
    rw [ha] at hfolded
    rw [hfolded]
    refine htracks.emit _ _ ?_
    rw [ha, List.take_succ_cons, List.drop_succ_cons,
      Text.cutsBreak_append_iff (List.cons_ne_nil _ _), ← Text.cutsBreak_map_foldCase,
      List.map_cons, List.map_take, List.map_drop]
    exact h l.state (foldCase c) (cs.map foldCase)

/-- **A run.** Whatever a lexer is told, all tokens that it gives are in place. -/
theorem Whole.placed_run (h : rules.Whole) (htracks : l.scanner.Tracks)
    (calls : List (LexerCall M)) :
    ∀ t ∈ l.run calls, ∃ before after, t.Placed l.scanner.stream.chars before after := by
  induction calls generalizing l with
  | nil => exact fun t ht => nomatch ht
  | cons call calls ih =>
    cases call with
    | next =>
      obtain ⟨hplaced, hnext⟩ := h.placed_next htracks
      refine List.forall_mem_cons.2 ⟨⟨_, _, hplaced⟩, ?_⟩
      rw [← l.chars_next]
      exact ih hnext
    | pushMode mode => exact ih (l := l.pushMode mode) htracks
    | setMode mode => exact ih (l := l.setMode mode) htracks
    | popMode => exact ih (l := l.popMode.2) htracks

/-- All tokens of a text are in place in it. -/
theorem Whole.placed_tokenize [DecidableEq K] (h : rules.Whole) (name text : String) :
    ∀ t ∈ rules.tokenize name text,
      ∃ before after, t.Placed (Text.dropByteOrderMark text.toList) before after := by
  obtain ⟨hbehind, hahead⟩ := Lexer.stream_ofText rules name text
  have htracks : (Lexer.ofText rules name text).scanner.Tracks := by
    constructor
    · rw [hbehind]
      rfl
    · rw [hbehind]
      exact Text.not_cutsBreak_nil _
  have hchars : (Lexer.ofText rules name text).scanner.stream.chars =
      Text.dropByteOrderMark text.toList := by
    rw [CharStream.chars, hbehind, hahead, List.reverse_nil, List.nil_append]
  intro t ht
  rw [LexicalRules.tokenize, Lexer.tokenize, Lexer.tokensUpTo_eq_run] at ht
  rw [← hchars]
  exact h.placed_run htracks _ t (mem_of_mem_upToEnd ht)

end LexicalRules

end BuiltInScript
