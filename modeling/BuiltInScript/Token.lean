import BuiltInScript.Source.Position
import BuiltInScript.Source.Span

/-!
# Tokens

Both languages share one shape of token. A token is on a set of channels: the parser reads the
code channel, and what is on other channels only is passed over.
-/
namespace BuiltInScript

/-- A set of channels. Mirrors `Channel`. -/
structure Channels where
  /-- Code seen by the parser. -/
  code : Bool := false
  /-- White space, comments, insertion markers, and the end marker. -/
  hidden : Bool := false
  /-- Text inside deletion zones. -/
  deleted : Bool := false
deriving DecidableEq, Repr, Inhabited

namespace Channels

/-- Mirrors `Channel.DEFAULT`. -/
def codeOnly : Channels := { code := true }

/-- Mirrors `Channel.HIDDEN`. -/
def hiddenOnly : Channels := { hidden := true }

/-- Mirrors `Channel.DELETED`. -/
def deletedOnly : Channels := { deleted := true }

/-- Some channel is in both sets. -/
def meets (a b : Channels) : Bool :=
  (a.code && b.code) || (a.hidden && b.hidden) || (a.deleted && b.deleted)

end Channels

/-- What a language says about its kinds of tokens. Mirrors `Kind`. -/
class TokenKind (K : Type) where
  /-- The kind of the marker after the last token. -/
  endOfInput : K
  /-- How diagnostics name the kind. -/
  title : K → String
  /-- Where the lexer puts tokens of the kind. -/
  channels : K → Channels

/-- Mirrors `Token`. -/
structure Token (K : Type) where
  kind : K
  channels : Channels
  /-- Source text as written, not folded. -/
  text : String
  /-- Where the token begins. -/
  position : Position
  /-- Place among the tokens that the lexer made. -/
  index : Nat
  span : Span
deriving DecidableEq, Repr

namespace Token

variable {K : Type} [DecidableEq K] [TokenKind K]

/-- Mirrors `Token.is_end_of_file`. -/
def isEnd (t : Token K) : Bool := t.kind = TokenKind.endOfInput

/-- An end marker right after a token. Mirrors `Token.end_of_file_after`. -/
def endAfter (t : Token K) : Token K where
  kind := TokenKind.endOfInput
  channels := .hiddenOnly
  text := ""
  position := t.position.walk t.text.toList
  index := t.index + 1
  span := ⟨t.span.stop, t.span.stop⟩

/-- The end marker of an empty source. Mirrors `Token.end_of_file_at_start`. -/
def endAtStart : Token K where
  kind := TokenKind.endOfInput
  channels := .hiddenOnly
  text := ""
  position := {}
  index := 0
  span := {}

/-- The end marker of a token list: its last token if that is one, else one after it. Mirrors
the marker that `TokenCursor.new` keeps. -/
def endOf (tokens : List (Token K)) : Token K :=
  match tokens.getLast? with
  | none => endAtStart
  | some last => if last.isEnd then last else last.endAfter

/-- Mirrors `Token.fmt`. -/
instance : ToString (Token K) :=
  ⟨fun t => s!"{TokenKind.title t.kind} `{t.text}` at {t.position.line}:{t.position.column}"⟩

@[simp] theorem isEnd_endAfter (t : Token K) : (endAfter t).isEnd = true := by
  simp [isEnd, endAfter]

@[simp] theorem isEnd_endAtStart : (endAtStart : Token K).isEnd = true := by
  simp [isEnd, endAtStart]

@[simp] theorem isEnd_endOf (tokens : List (Token K)) : (endOf tokens).isEnd = true := by
  unfold endOf
  split
  · simp
  · split <;> simp_all

end Token
end BuiltInScript
