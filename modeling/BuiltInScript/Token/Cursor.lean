import BuiltInScript.Token

/-!
# Cursors

A cursor walks over a token list and shows only the tokens of some channels, and after them
endlessly the end marker of the list. An end marker in the list is shown whatever its channel is,
and is never passed by moving forward.

Positions are indices into the whole list, passed-over tokens included. A cursor rests on a token
that it shows, or past the end.
-/
namespace BuiltInScript

/-- Mirrors `TokenCursor`. -/
structure Cursor (K : Type) where
  tokens : List (Token K)
  channels : Channels
  /-- Index into `tokens` of the next token shown. -/
  position : Nat
  /-- Shown when no token is left. -/
  marker : Token K
deriving DecidableEq, Repr

namespace Cursor

variable {K : Type} [DecidableEq K] [TokenKind K]

/-- Whether a cursor on these channels shows a token. Mirrors `TokenCursor.is_visible`. -/
def shows (channels : Channels) (t : Token K) : Bool := t.isEnd || channels.meets t.channels

/-- The first position at or after the given one where a token is shown, or the end of the list.
Mirrors `TokenCursor.skip_filtered`. -/
def settle (channels : Channels) (tokens : List (Token K)) (position : Nat) : Nat :=
  position + ((tokens.drop position).takeWhile fun t => !shows channels t).length

/-- Mirrors `TokenCursor.new`. -/
def ofTokens (channels : Channels) (tokens : List (Token K)) : Cursor K :=
  { tokens, channels, position := settle channels tokens 0, marker := Token.endOf tokens }

/-- A cursor over what the parser reads. Mirrors `TokenCursor.on_default_channel`. -/
def onCode (tokens : List (Token K)) : Cursor K := ofTokens .codeOnly tokens

/-- Moves to a position, or to the first token shown after it. Mirrors `TokenCursor.seek`. -/
def seek (c : Cursor K) (position : Nat) : Cursor K :=
  { c with position := settle c.channels c.tokens (min position c.tokens.length) }

/-- Mirrors `TokenCursor.rewind`. -/
def rewind (c : Cursor K) : Cursor K := c.seek 0

/-- The tokens that are still to be shown before the end marker. -/
def ahead (c : Cursor K) : List (Token K) :=
  ((c.tokens.drop c.position).takeWhile fun t => !t.isEnd).filter (shows c.channels)

/-- The next token shown. Mirrors `TokenCursor.peek` and `TokenCursor.token_at`. -/
def peek (c : Cursor K) : Token K :=
  match c.tokens[c.position]? with
  | some t => if t.isEnd then c.marker else t
  | none => c.marker

/-- The token shown after `n` others. Mirrors `TokenCursor.peek_nth`. -/
def peekNth (c : Cursor K) (n : Nat) : Token K := c.ahead.getD n c.marker

/-- Mirrors `TokenCursor.is_at_end`. -/
def atEnd (c : Cursor K) : Bool := c.peek.isEnd

/-- Passes the next token. The end marker is never passed. Mirrors what `TokenCursor.next` does to
the position. -/
def advance (c : Cursor K) : Cursor K :=
  if c.atEnd then c else { c with position := settle c.channels c.tokens (c.position + 1) }

/-- Passes `n` tokens. -/
def skip (c : Cursor K) : Nat → Cursor K
  | 0 => c
  | n + 1 => c.advance.skip n

/-- Mirrors `TokenCursor.next`. -/
def next (c : Cursor K) : Token K × Cursor K := (c.peek, c.advance)

/-! ## What moving keeps -/

@[simp] theorem tokens_advance (c : Cursor K) : c.advance.tokens = c.tokens := by
  unfold advance
  split <;> rfl

@[simp] theorem channels_advance (c : Cursor K) : c.advance.channels = c.channels := by
  unfold advance
  split <;> rfl

@[simp] theorem marker_advance (c : Cursor K) : c.advance.marker = c.marker := by
  unfold advance
  split <;> rfl

@[simp] theorem tokens_skip (c : Cursor K) (n : Nat) : (c.skip n).tokens = c.tokens := by
  induction n generalizing c with
  | zero => rfl
  | succ n ih => simp [skip, ih]

@[simp] theorem channels_skip (c : Cursor K) (n : Nat) : (c.skip n).channels = c.channels := by
  induction n generalizing c with
  | zero => rfl
  | succ n ih => simp [skip, ih]

@[simp] theorem marker_skip (c : Cursor K) (n : Nat) : (c.skip n).marker = c.marker := by
  induction n generalizing c with
  | zero => rfl
  | succ n ih => simp [skip, ih]

theorem skip_add (c : Cursor K) (m n : Nat) : c.skip (m + n) = (c.skip m).skip n := by
  induction m generalizing c with
  | zero => simp [skip]
  | succ m ih => simp [Nat.succ_add, skip, ih]

/-- The end marker is never passed. -/
theorem advance_of_atEnd {c : Cursor K} (h : c.atEnd) : c.advance = c := by
  simp [advance, h]

theorem le_settle (channels : Channels) (tokens : List (Token K)) (position : Nat) :
    position ≤ settle channels tokens position := Nat.le_add_right ..

end Cursor
end BuiltInScript
