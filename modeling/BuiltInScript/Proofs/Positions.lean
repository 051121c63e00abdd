import BuiltInScript.Proofs.Module.Breaks
import BuiltInScript.Proofs.Query.Breaks
import BuiltInScript.Proofs.Source.Lines

/-!
# Where tokens are said to be

A token is said to be at a line and a column by the lexer that made it, and at another line and
column by a source file that is asked about the offset of its first byte. The lexer ends a line at
every line break, and the source file at every `\n`.

**Results.**
* `positions_follow_breaks`: the lexer counts the line breaks before a token, and cuts none.
* `locations_agree_iff`: the source file agrees with it up to the first lone `\r`.
-/
namespace BuiltInScript

open Text (byteLength dropByteOrderMark NoLoneReturnBefore)

variable {K M F : Type} [DecidableEq K] [TokenKind K]

/-! ## Lines and columns -/

/-- All tokens of a text are in place in it: the line of a token is one more than the number of line
breaks before it, its column is the number of characters after the last of them, and it neither
begins nor ends within a `\r\n`. -/
def LexicalRules.InPlace (rules : LexicalRules K M F) (name text : String) : Prop :=
  ∀ t ∈ rules.tokenize name text,
    ∃ before after, t.Placed (dropByteOrderMark text.toList) before after

/-- **Positions.** For every text of either language, the tokens are where the line breaks before
them say, the end marker included. -/
theorem positions_follow_breaks (name text : String) :
    Module.lexicalRules.InPlace name text ∧ Query.lexicalRules.InPlace name text :=
  ⟨Module.lexicalRules_whole.placed_tokenize name text,
    Query.lexicalRules_whole.placed_tokenize name text⟩

/-! ## Locations -/

omit [DecidableEq K] [TokenKind K] in
/-- A source file finds a token where the lexer says that it is unless a lone `\r` stands before
it. Its line alone tells the difference. -/
theorem Token.Placed.location_iff {t : Token K} {text : String} {before after : List Char}
    (h : t.Placed (dropByteOrderMark text.toList) before after) (file : String) :
    (SourceFile.ofText file text).location t.span.start =
        .ok (t.position.line, t.position.column + 1) ↔
      NoLoneReturnBefore t.span.start (dropByteOrderMark text.toList) := by
  have hchars := h.chars_eq.trans (List.append_assoc ..)
  have hlines := Text.noLoneReturnBefore_iff h.start_whole
  rw [h.span, h.position, hchars, SourceFile.location_eq file hchars, hlines, Nat.add_comm 1]
  constructor
  · intro heq
    have hline := congrArg Prod.fst (Except.ok.inj heq)
    dsimp only at hline
    omega
  · intro heq
    have hcolumn := (hlines.2 heq).lastLineLength_eq h.start_whole
    rw [heq, hcolumn]

/-- Every token of a text stands where a source file of the text finds its first byte, up to the
first `\r` that no `\n` follows, and none stands there after it. -/
def LexicalRules.Located (rules : LexicalRules K M F) (name file text : String) : Prop :=
  ∀ t ∈ rules.tokenize name text,
    (SourceFile.ofText file text).location t.span.start =
        .ok (t.position.line, t.position.column + 1) ↔
      NoLoneReturnBefore t.span.start (dropByteOrderMark text.toList)

/-- **Locations.** For every text of either language, the lexer and a source file agree on where a
token is, the end marker included, exactly if every `\r` before it has a `\n` after it. -/
theorem locations_agree_iff (name file text : String) :
    Module.lexicalRules.Located name file text ∧ Query.lexicalRules.Located name file text := by
  constructor
  · intro t ht
    obtain ⟨before, after, h⟩ := Module.lexicalRules_whole.placed_tokenize name text t ht
    exact h.location_iff file
  · intro t ht
    obtain ⟨before, after, h⟩ := Query.lexicalRules_whole.placed_tokenize name text t ht
    exact h.location_iff file

/-- A lone `\r` ends a line for the lexer, and is a character like others for a source file. -/
example : ({} : Position).walk ['А', '\r'] = ⟨2, 0⟩ ∧
    (SourceFile.ofText "" "А\rБ").location 3 = .ok (1, 3) := by
  have hsplit : dropByteOrderMark "А\rБ".toList = ['А', '\r'] ++ ['Б'] := rfl
  exact ⟨rfl, SourceFile.location_eq "" hsplit⟩

end BuiltInScript
