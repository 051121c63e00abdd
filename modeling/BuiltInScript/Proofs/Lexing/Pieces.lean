import BuiltInScript.Proofs.Lexing.Tiling
import BuiltInScript.Proofs.Token.Cursor

/-!
# Texts put together from pieces

A text may be written down as pieces, each with the kind of token that it is meant to be. `Cut` says
that the rules of a language cut the text between these pieces and give them these kinds: each
piece is read off the text that begins with it, in the state that the pieces before it left.

**Results.**
* `CutTo.tokensUpTo_add`: a lexer in that state gives a token for each of the pieces that a text
  begins with, and then the tokens of the rest.
* `Cut.tokensUpTo`: after the pieces of a whole text it gives the end marker.
* `Cut.shown`: a parser is shown the pieces whose kinds are on the code channel.
-/
namespace BuiltInScript

variable {K M F : Type}

/-- The kind of a token, and its text. -/
def Token.piece (t : Token K) : K × List Char := (t.kind, t.text.toList)

/-- The text that pieces make up. -/
def textOf (pieces : List (K × List Char)) : List Char := (pieces.map Prod.snd).flatten

@[simp] theorem textOf_nil : textOf ([] : List (K × List Char)) = [] := rfl

@[simp] theorem textOf_cons (piece : K × List Char) (pieces : List (K × List Char)) :
    textOf (piece :: pieces) = piece.2 ++ textOf pieces := rfl

@[simp] theorem textOf_append (a b : List (K × List Char)) :
    textOf (a ++ b) = textOf a ++ textOf b := by
  simp [textOf]

/-- From a state on, the rules cut a text into these pieces, up to its end. -/
inductive Cut (rules : LexicalRules K M F) : LexState M F → List (K × List Char) → Prop
  | nil {s : LexState M F} : Cut rules s []
  | cons {s s' : LexState M F} {kind : K} {c : Char} {cs : List Char}
      {pieces : List (K × List Char)} :
      rules.read s (Text.foldCase c) ((cs ++ textOf pieces).map Text.foldCase) =
        (⟨kind, cs.length⟩, s') →
      Cut rules s' pieces → Cut rules s ((kind, c :: cs) :: pieces)

/-- From a state on, the rules cut these pieces off a text that goes on with `rest`, and come to a
state. -/
inductive CutTo (rules : LexicalRules K M F) (rest : List Char) :
    LexState M F → List (K × List Char) → LexState M F → Prop
  | nil {s : LexState M F} : CutTo rules rest s [] s
  | cons {s s' s'' : LexState M F} {kind : K} {c : Char} {cs : List Char}
      {pieces : List (K × List Char)} :
      rules.read s (Text.foldCase c) ((cs ++ (textOf pieces ++ rest)).map Text.foldCase) =
        (⟨kind, cs.length⟩, s') →
      CutTo rules rest s' pieces s'' → CutTo rules rest s ((kind, c :: cs) :: pieces) s''

namespace CutTo

variable {rules : LexicalRules K M F} {rest : List Char} {s s' s'' : LexState M F}

theorem single {kind : K} {c : Char} {cs : List Char}
    (h : rules.read s (Text.foldCase c) ((cs ++ rest).map Text.foldCase) =
      (⟨kind, cs.length⟩, s')) : CutTo rules rest s [(kind, c :: cs)] s' :=
  .cons h .nil

/-- Pieces before other pieces. -/
theorem append {a b : List (K × List Char)} (ha : CutTo rules (textOf b ++ rest) s a s')
    (hb : CutTo rules rest s' b s'') : CutTo rules rest s (a ++ b) s'' := by
  induction ha with
  | nil => exact hb
  | cons hread _ ih =>
    rw [List.cons_append]
    refine .cons ?_ (ih hb)
    rw [textOf_append, List.append_assoc]
    exact hread

end CutTo

variable [TokenKind K]

/-- What a lexer reads next of a text, and what it leaves of it. -/
theorem Lexer.next_of_ahead {rules : LexicalRules K M F} (l : Lexer rules) {c : Char}
    {cs : List Char} {lexeme : Lexeme K} {s' : LexState M F}
    (ha : l.scanner.stream.ahead = c :: cs)
    (hr : rules.read l.state (Text.foldCase c) (cs.map Text.foldCase) = (lexeme, s')) :
    l.next.1.piece = (lexeme.kind, c :: cs.take lexeme.more) ∧
      l.next.2.scanner.stream.ahead = cs.drop lexeme.more ∧ l.next.2.state = s' := by
  have hfolded : l.scanner.beginToken.ahead = Text.foldCase c :: cs.map Text.foldCase := by
    rw [Scanner.ahead, CharStream.folded_eq, Scanner.stream_beginToken, ha]
    rfl
  have hcut :=
    l.scanner.cuts_emit (lexeme.more + 1) lexeme.kind (TokenKind.channels lexeme.kind)
  have htext := congrArg String.toList hcut.text
  rw [ha, String.toList_ofList, List.take_succ_cons] at htext
  have hahead := hcut.ahead
  rw [ha, List.drop_succ_cons] at hahead
  unfold next
  simp only [hfolded, hr, and_true]
  exact ⟨Prod.ext rfl htext, hahead⟩

/-- What a lexer reads next, and the state that it is left in. -/
theorem Lexer.next_of_read {rules : LexicalRules K M F} (l : Lexer rules) {c : Char}
    {cs rest : List Char} {kind : K} {s' : LexState M F}
    (ha : l.scanner.stream.ahead = c :: cs ++ rest)
    (hr : rules.read l.state (Text.foldCase c) ((cs ++ rest).map Text.foldCase) =
      (⟨kind, cs.length⟩, s')) :
    l.next.1.piece = (kind, c :: cs) ∧ l.next.2.scanner.stream.ahead = rest ∧
      l.next.2.state = s' := by
  obtain ⟨hpiece, hahead, hstate⟩ := l.next_of_ahead (show _ = c :: (cs ++ rest) from ha) hr
  dsimp only at hpiece hahead
  rw [List.take_left] at hpiece
  rw [List.drop_left] at hahead
  exact ⟨hpiece, hahead, hstate⟩

variable [DecidableEq K]

/-- Each piece becomes a token, and the tokens after them are those of the rest of the text. -/
theorem CutTo.tokensUpTo_add {rules : LexicalRules K M F} (hplain : rules.Plain) {rest : List Char}
    {pieces : List (K × List Char)} {s' : LexState M F} {l : Lexer rules}
    (h : CutTo rules rest l.state pieces s')
    (ha : l.scanner.stream.ahead = textOf pieces ++ rest) :
    ∃ (body : List (Token K)) (l' : Lexer rules),
      body.map Token.piece = pieces ∧ (∀ t ∈ body, t.isEnd = false) ∧
      l'.scanner.stream.ahead = rest ∧ l'.state = s' ∧
      ∀ n, l.tokensUpTo (pieces.length + n) =
        (body ++ (l'.tokensUpTo n).1, (l'.tokensUpTo n).2) := by
  induction pieces generalizing l with
  | nil =>
    cases h
    exact ⟨[], l, rfl, List.forall_mem_nil _, ha, rfl, fun n => by simp⟩
  | cons piece pieces ih =>
    cases h with
    | @cons _ s₁ _ kind c cs _ hread hcut =>
      rw [textOf_cons, List.append_assoc] at ha
      obtain ⟨hpiece, hahead, hstate⟩ := l.next_of_read ha hread
      have hend : l.next.1.isEnd = false := by
        rw [← Bool.not_eq_true, l.isEnd_next_iff hplain, ha]
        exact List.cons_ne_nil _ _
      obtain ⟨body, l', hbody, hnone, hrest, hlast, htokens⟩ := ih (hstate ▸ hcut) hahead
      refine ⟨l.next.1 :: body, l', by rw [List.map_cons, hpiece, hbody],
        List.forall_mem_cons.2 ⟨hend, hnone⟩, hrest, hlast, fun n => ?_⟩
      rw [List.length_cons, Nat.add_right_comm, Lexer.tokensUpTo]
      simp only [hend, Bool.false_eq_true, if_false, htokens, List.cons_append]

theorem CutTo.tokensUpTo {rules : LexicalRules K M F} (hplain : rules.Plain) {rest : List Char}
    {pieces : List (K × List Char)} {s' : LexState M F} {l : Lexer rules}
    (h : CutTo rules rest l.state pieces s')
    (ha : l.scanner.stream.ahead = textOf pieces ++ rest) :
    (l.tokensUpTo pieces.length).1.map Token.piece = pieces ∧
      (l.tokensUpTo pieces.length).2.scanner.stream.ahead = rest ∧
      (l.tokensUpTo pieces.length).2.state = s' := by
  obtain ⟨body, l', hbody, -, hrest, hlast, htokens⟩ := h.tokensUpTo_add hplain ha
  have hlexed : l.tokensUpTo pieces.length = (body ++ [], l') := htokens 0
  rw [hlexed, List.append_nil]
  exact ⟨hbody, hrest, hlast⟩

omit [TokenKind K] [DecidableEq K] in
/-- Pieces up to the end of a text have nothing after them. -/
theorem Cut.cutTo {rules : LexicalRules K M F} {s : LexState M F} {pieces : List (K × List Char)}
    (h : Cut rules s pieces) : ∃ s', CutTo rules [] s pieces s' := by
  induction h with
  | nil => exact ⟨_, .nil⟩
  | cons hread _ ih =>
    obtain ⟨s', hcut⟩ := ih
    exact ⟨s', .cons (by rwa [List.append_nil]) hcut⟩

/-- Each piece becomes a token, and after the last one comes the end marker. -/
theorem Cut.tokensUpTo {rules : LexicalRules K M F} (hplain : rules.Plain)
    {pieces : List (K × List Char)} {l : Lexer rules} (h : Cut rules l.state pieces)
    (ha : l.scanner.stream.ahead = textOf pieces) {n : Nat} (hn : pieces.length < n) :
    ∃ body marker, (l.tokensUpTo n).1 = body ++ [marker] ∧ body.map Token.piece = pieces ∧
      marker.isEnd = true ∧ ∀ t ∈ body, t.isEnd = false := by
  obtain ⟨s', hcut⟩ := h.cutTo
  obtain ⟨body, l', hbody, hnone, hrest, -, htokens⟩ :=
    hcut.tokensUpTo_add hplain (ha.trans (List.append_nil _).symm)
  obtain ⟨m, rfl⟩ := Nat.exists_eq_add_of_lt hn
  have hend : l'.next.1.isEnd = true := (l'.isEnd_next_iff hplain).2 hrest
  have hlast : (l'.tokensUpTo (m + 1)).1 = [l'.next.1] := by
    rw [Lexer.tokensUpTo]
    simp only [hend, if_true]
  exact ⟨body, l'.next.1, by rw [Nat.add_assoc, htokens, hlast], hbody, hend, hnone⟩

omit [TokenKind K] [DecidableEq K] in
/-- Each piece has at least one character. -/
theorem Cut.length_le {rules : LexicalRules K M F} {s : LexState M F}
    {pieces : List (K × List Char)} (h : Cut rules s pieces) :
    pieces.length ≤ (textOf pieces).length := by
  induction h with
  | nil => exact Nat.le_refl _
  | cons _ _ ih =>
    rw [textOf_cons, List.length_append, List.length_cons, List.length_cons]
    omega

/-- A parser is shown the pieces whose kinds are on the code channel. -/
theorem Cut.shown {rules : LexicalRules K M F} (hplain : rules.Plain)
    {pieces : List (K × List Char)} (h : Cut rules rules.initial pieces) {name text : String}
    (ht : Text.dropByteOrderMark text.toList = textOf pieces) :
    (Cursor.shown .codeOnly (rules.tokenize name text)).map Token.piece =
      pieces.filter fun p => (TokenKind.channels p.1).code := by
  have hahead := (Lexer.stream_ofText rules name text).2.trans ht
  have hlength : pieces.length < (Lexer.ofText rules name text).scanner.ahead.length + 1 := by
    rw [Scanner.ahead, CharStream.folded_eq, List.length_map, hahead]
    exact Nat.lt_succ_of_le h.length_le
  obtain ⟨body, marker, htokens, hbody, hmarker, hend⟩ := Cut.tokensUpTo hplain h hahead hlength
  have hchannels := (Lexer.ofText rules name text).tokensUpTo_channels
    ((Lexer.ofText rules name text).scanner.ahead.length + 1)
  rw [htokens] at hchannels
  rw [LexicalRules.tokenize, Lexer.tokenize, htokens, Cursor.shown_codeOnly,
    List.takeWhile_append_of_pos (fun t ht => by simp [hend t ht])]
  simp only [List.takeWhile_cons, hmarker, Bool.not_true, Bool.false_eq_true, if_false,
    List.append_nil]
  rw [← hbody, List.filter_map]
  congr 1
  refine List.filter_congr fun t hmem => ?_
  rw [hchannels t (List.mem_append_left _ hmem)]
  rfl

end BuiltInScript
