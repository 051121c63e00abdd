import BuiltInScript.Proofs.Lexing.Tiling

/-!
# Lexing without regard to case

Lexical rules are given folded characters, and lines and columns are counted by characters that
folding leaves alone. So of two texts that are the same when folded a lexer makes the same tokens,
but for what they keep of the text itself: its spelling, and the bytes that it takes.

**Results.**
* `Text.foldCase_eq_iff`: nothing else is folded to a line break or a byte order mark.
* `Scanner.SameFolded.emit`, `Lexer.next_folded`: scanners that go along with each other cut tokens
  with one folded form.
* `LexicalRules.tokenize_folded`: texts with one folded form have tokens with one folded form.
-/
namespace BuiltInScript

variable {K M F : Type}

/-! ## Folded texts -/

namespace Text

/-- A text in the form in which it is compared. -/
def fold (text : String) : String := String.ofList (text.toList.map foldCase)

@[simp] theorem toList_fold (text : String) : (fold text).toList = text.toList.map foldCase := by
  simp [fold]

theorem fold_eq_fold_iff {s t : String} :
    fold s = fold t ↔ s.toList.map foldCase = t.toList.map foldCase := by
  rw [fold, fold, String.ofList_inj]

@[simp] theorem fold_fold (text : String) : fold (fold text) = fold text := by
  rw [fold_eq_fold_iff]
  simp [Function.comp_def]

/-- The characters that lines and the beginning of a text are told by. -/
def marks : List Char := ['\n', '\r', byteOrderMark]

/-- No run of characters is folded to a mark. -/
theorem marks_clear : (marks.all fun c => caseRuns.all fun r =>
    Nat.blt (r.upper + (r.last - r.first)) c.toNat || Nat.blt c.toNat r.upper) = true := by
  decide +kernel

theorem foldCase_marks {c : Char} (hc : c ∈ marks) : foldCase c = c := by
  have hmarks : marks.map foldCase = marks.map id := by decide +kernel
  exact List.map_inj_left.1 hmarks c hc

/-- Nothing else is folded to a mark. -/
theorem foldCase_eq_iff {x : Char} (hx : x ∈ marks) (c : Char) : foldCase c = x ↔ c = x := by
  constructor
  · intro h
    rcases upperIn_eq_or caseRuns c.toNat with hstays | ⟨r, hr, i, hi, -, hupper⟩
    · rw [← h, foldCase, hstays, Char.ofNat_toNat]
    · have hclear := List.all_eq_true.1 (List.all_eq_true.1 marks_clear x hx) r hr
      rw [← toNat_foldCase, h] at hupper
      simp only [Bool.or_eq_true, Nat.blt_eq] at hclear
      omega
  · rintro rfl
    exact foldCase_marks hx

theorem isLineBreak_foldCase (c : Char) : isLineBreak (foldCase c) = isLineBreak c := by
  have hreturn := foldCase_eq_iff (show '\r' ∈ marks by decide) c
  have hfeed := foldCase_eq_iff (show '\n' ∈ marks by decide) c
  rw [Bool.eq_iff_iff]
  simp only [isLineBreak, Bool.or_eq_true, beq_iff_eq, hreturn, hfeed]

theorem map_dropByteOrderMark (cs : List Char) :
    (dropByteOrderMark cs).map foldCase = dropByteOrderMark (cs.map foldCase) := by
  cases cs with
  | nil => rfl
  | cons c cs =>
    have hmark := foldCase_eq_iff (show byteOrderMark ∈ marks by decide) c
    by_cases hc : c = byteOrderMark
    · rw [dropByteOrderMark, if_pos hc, List.map_cons, dropByteOrderMark, if_pos (hmark.2 hc)]
    · rw [dropByteOrderMark, if_neg hc, List.map_cons, dropByteOrderMark, if_neg (mt hmark.1 hc)]

end Text

namespace Position

theorem step_foldCase (p : Position) (c : Char) (next : Option Char) :
    p.step (Text.foldCase c) (next.map Text.foldCase) = p.step c next := by
  have hfeed := Text.foldCase_eq_iff (show '\n' ∈ Text.marks by decide)
  have hreturn := Text.foldCase_eq_iff (show '\r' ∈ Text.marks by decide)
  have hnext : next.map Text.foldCase = some '\n' ↔ next = some '\n' := by
    cases next <;> simp [hfeed]
  simp only [step, hfeed, hreturn, hnext]

/-- Lines and columns are the same in every spelling. -/
theorem walk_map_foldCase (p : Position) (cs : List Char) :
    p.walk (cs.map Text.foldCase) = p.walk cs := by
  induction cs generalizing p with
  | nil => rfl
  | cons c cs ih => rw [List.map_cons, walk, List.head?_map, step_foldCase, ih, walk]

end Position

/-! ## Folded tokens -/

namespace Token

/-- What is left of a token in every spelling of its text. -/
def folded (t : Token K) : Token K := { t with text := Text.fold t.text, span := {} }

@[simp] theorem kind_folded (t : Token K) : t.folded.kind = t.kind := rfl

@[simp] theorem channels_folded (t : Token K) : t.folded.channels = t.channels := rfl

@[simp] theorem folded_folded (t : Token K) : t.folded.folded = t.folded := by simp [folded]

variable [TokenKind K]

theorem endAfter_folded (t : Token K) : t.folded.endAfter = t.endAfter.folded := by
  simp only [endAfter, folded, Text.toList_fold, Position.walk_map_foldCase]
  rfl

variable [DecidableEq K]

@[simp] theorem isEnd_folded (t : Token K) : t.folded.isEnd = t.isEnd := rfl

theorem endOf_map_folded (tokens : List (Token K)) :
    endOf (tokens.map folded) = (endOf tokens).folded := by
  rw [endOf, endOf, List.getLast?_map]
  cases tokens.getLast? with
  | none => rfl
  | some last =>
    rw [Option.map_some]
    dsimp only
    rw [isEnd_folded, endAfter_folded]
    split <;> rfl

theorem endOf_folded_eq {tokens tokens' : List (Token K)}
    (h : tokens.map folded = tokens'.map folded) :
    (endOf tokens).folded = (endOf tokens').folded := by
  rw [← endOf_map_folded, h, endOf_map_folded]

end Token

/-! ## Scanners -/

/-- Two scanners at the same place of texts with one folded form. -/
structure Scanner.SameFolded (s t : Scanner) : Prop where
  behind : s.stream.behind.map Text.foldCase = t.stream.behind.map Text.foldCase
  ahead : s.stream.ahead.map Text.foldCase = t.stream.ahead.map Text.foldCase
  position : s.position = t.position
  tokenStart : s.tokenStart = t.tokenStart
  tokenPosition : s.tokenPosition = t.tokenPosition
  nextIndex : s.nextIndex = t.nextIndex

namespace Scanner.SameFolded

variable {s t : Scanner}

/-- Lexical rules are given the same characters. -/
theorem folded (h : s.SameFolded t) : s.ahead = t.ahead := by
  rw [Scanner.ahead, Scanner.ahead, s.stream.folded_eq, t.stream.folded_eq, h.ahead]

theorem index (h : s.SameFolded t) : s.stream.index = t.stream.index := by
  have hlength := congrArg List.length h.behind
  rwa [List.length_map, List.length_map] at hlength

theorem beginToken (h : s.SameFolded t) : s.beginToken.SameFolded t.beginToken where
  behind := h.behind
  ahead := h.ahead
  position := h.position
  tokenStart := h.index
  tokenPosition := h.position
  nextIndex := h.nextIndex

theorem advance (h : s.SameFolded t) : s.advance.SameFolded t.advance where
  behind := by
    have hbehind (s : Scanner) : s.advance.stream.behind = _ := s.behind_advanceBy 1
    rw [hbehind, hbehind, List.map_append, List.map_append, List.map_reverse, List.map_reverse,
      List.map_take, List.map_take, h.ahead, h.behind]
  ahead := by
    have hahead (s : Scanner) : s.advance.stream.ahead = _ := s.ahead_advanceBy 1
    rw [hahead, hahead, List.map_drop, List.map_drop, h.ahead]
  position := by
    have hahead := h.ahead
    unfold Scanner.advance CharStream.consumeAt
    cases hs : s.stream.ahead with
    | nil =>
      rw [hs] at hahead
      rw [List.map_eq_nil_iff.1 hahead.symm]
      exact h.position
    | cons c cs =>
      rw [hs] at hahead
      obtain ⟨d, ds, ht, hhead, htail⟩ := List.map_eq_cons_iff.1 hahead.symm
      rw [ht]
      dsimp only
      rw [← Position.step_foldCase, ← List.head?_map, ← hhead, ← htail, List.head?_map,
        Position.step_foldCase, h.position]
  tokenStart := (s.tokenStart_advanceBy 1).trans <|
    h.tokenStart.trans (t.tokenStart_advanceBy 1).symm
  tokenPosition := h.tokenPosition
  nextIndex := (s.nextIndex_advanceBy 1).trans <|
    h.nextIndex.trans (t.nextIndex_advanceBy 1).symm

theorem advanceBy (h : s.SameFolded t) (n : Nat) : (s.advanceBy n).SameFolded (t.advanceBy n) := by
  induction n generalizing s t with
  | zero => exact h
  | succ n ih => exact ih h.advance

theorem tokenChars (h : s.SameFolded t) :
    s.tokenChars.map Text.foldCase = t.tokenChars.map Text.foldCase := by
  have hlength : s.tokenLength = t.tokenLength := by
    rw [tokenLength, tokenLength, h.index, h.tokenStart]
  rw [Scanner.tokenChars, Scanner.tokenChars, List.map_reverse, List.map_reverse, List.map_take,
    List.map_take, hlength, h.behind]

/-- The tokens that are cut differ in their spelling only. -/
theorem emit (h : s.SameFolded t) (kind : K) (channels : Channels) :
    (s.emit kind channels).1.folded = (t.emit kind channels).1.folded ∧
      (s.emit kind channels).2.SameFolded (t.emit kind channels).2 := by
  refine ⟨?_, h.behind, h.ahead, h.position, h.index, h.tokenPosition, ?_⟩
  · have htext : Text.fold (String.ofList s.tokenChars) =
        Text.fold (String.ofList t.tokenChars) := by
      rw [Text.fold_eq_fold_iff, String.toList_ofList, String.toList_ofList, h.tokenChars]
    simp only [Scanner.emit, Token.folded, htext, h.tokenPosition, h.nextIndex]
  · exact congrArg (· + 1) h.nextIndex

theorem emitKind [TokenKind K] (h : s.SameFolded t) (kind : K) :
    (s.emitKind kind).1.folded = (t.emitKind kind).1.folded ∧
      (s.emitKind kind).2.SameFolded (t.emitKind kind).2 := h.emit kind _

end Scanner.SameFolded

/-! ## Lexers -/

/-- Two lexers in the same state at the same place of texts with one folded form. -/
structure Lexer.SameFolded {rules : LexicalRules K M F} (l m : Lexer rules) : Prop where
  scanner : l.scanner.SameFolded m.scanner
  state : l.state = m.state

namespace Lexer

variable [TokenKind K] {rules : LexicalRules K M F} {l m : Lexer rules}

/-- The rules are given the same characters, so the lexers take the same step. -/
theorem next_folded (h : l.SameFolded m) :
    l.next.1.folded = m.next.1.folded ∧ l.next.2.SameFolded m.next.2 := by
  have hbegin := h.scanner.beginToken
  unfold next
  dsimp only
  rw [← hbegin.folded]
  cases l.scanner.beginToken.ahead with
  | nil =>
    obtain ⟨htoken, hscanner⟩ := hbegin.emitKind (TokenKind.endOfInput : K)
    exact ⟨htoken, hscanner, h.state⟩
  | cons c cs =>
    dsimp only
    rw [← h.state]
    let lexeme := (rules.read l.state c cs).1
    obtain ⟨htoken, hscanner⟩ := (hbegin.advanceBy (lexeme.more + 1)).emitKind lexeme.kind
    exact ⟨htoken, hscanner, rfl⟩

variable [DecidableEq K]

theorem tokensUpTo_folded (h : l.SameFolded m) (n : Nat) :
    (l.tokensUpTo n).1.map Token.folded = (m.tokensUpTo n).1.map Token.folded := by
  induction n generalizing l m with
  | zero => rfl
  | succ n ih =>
    obtain ⟨htoken, hnext⟩ := next_folded h
    have hend : l.next.1.isEnd = m.next.1.isEnd := by
      rw [← Token.isEnd_folded, htoken, Token.isEnd_folded]
    rw [tokensUpTo, tokensUpTo]
    dsimp only
    rw [hend]
    split
    · exact congrArg (· :: []) htoken
    · rw [List.map_cons, List.map_cons, htoken, ih hnext]

end Lexer

/-- **Lexing ignores case.** Two texts that are the same when folded have tokens that are the same
when folded: as many, each of the same kind, on the same channels, at the same line and column. -/
theorem LexicalRules.tokenize_folded [TokenKind K] [DecidableEq K] (rules : LexicalRules K M F)
    (name name' : String) {text text' : String} (h : Text.fold text = Text.fold text') :
    (rules.tokenize name text).map Token.folded =
      (rules.tokenize name' text').map Token.folded := by
  obtain ⟨hbehind, hahead⟩ := Lexer.stream_ofText rules name text
  obtain ⟨hbehind', hahead'⟩ := Lexer.stream_ofText rules name' text'
  have hbegin : (Lexer.ofText rules name text).SameFolded (Lexer.ofText rules name' text') := by
    refine ⟨⟨by rw [hbehind, hbehind'], ?_, rfl, rfl, rfl, rfl⟩, rfl⟩
    rw [hahead, hahead', Text.map_dropByteOrderMark, Text.map_dropByteOrderMark,
      Text.fold_eq_fold_iff.1 h]
  rw [tokenize, tokenize, Lexer.tokenize, Lexer.tokenize, hbegin.scanner.folded]
  exact Lexer.tokensUpTo_folded hbegin _

end BuiltInScript
