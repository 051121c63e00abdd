import BuiltInScript.Proofs.Lexing.Pieces
import BuiltInScript.Proofs.Lexing.Words
import BuiltInScript.Proofs.Module.DirectiveGrammar
import BuiltInScript.Proofs.Module.Lexis
import BuiltInScript.Proofs.Module.PlatformSymbols

/-!
# Conditions read back

A condition that is shown in a `#Если` line is read back as itself: the lexer takes its words and
brackets apart again, and the brackets around every `И` and `ИЛИ` tell the parser the shape of the
condition. The names in it must be words that are nothing else in a directive.

**Results.**
* `cut_condition`: the lexer cuts a shown condition into its words, brackets and blanks.
* `exists_phrase`: tokens of these kinds and texts have a derivation with the condition as value.
* `display_reads_back`: lexing and parsing a shown condition gives that condition in silence.
-/
namespace BuiltInScript

namespace Module

open Text

/-! ## Words of a directive line -/

/-- The text does not go on with a character of a word. -/
def Boundary (rest : List Char) : Prop := ∀ c ∈ rest.head?, isWordChar (foldCase c) = false

/-- The text does not go on with a blank. -/
def Solid (rest : List Char) : Prop := ∀ c ∈ rest.head?, isInlineBlank (foldCase c) = false

theorem run_solid {rest : List Char} (h : Solid rest) :
    run isInlineBlank (rest.map foldCase) = 0 := by
  cases rest with
  | nil => rfl
  | cons c rest => simp [run, h c rfl]

theorem takeWhile_word {word rest : List Char} (hw : (word.map foldCase).all isWordChar)
    (hr : Boundary rest) :
    ((word ++ rest).map foldCase).takeWhile isWordChar = word.map foldCase := by
  rw [List.map_append, List.takeWhile_append_of_pos (by simpa using hw)]
  cases rest with
  | nil => simp
  | cons c rest => simp [hr c rfl]

/-- A word is read whole, in the way of words. -/
theorem readDirective_word (s : State) {c : Char} (cs : List Char) (h : isWordStart c) :
    readDirective s c cs =
      (⟨directiveWordKind (c :: cs.takeWhile isWordChar), (cs.takeWhile isWordChar).length⟩,
        s.afterDirectiveWord (directiveWordKind (c :: cs.takeWhile isWordChar))) := by
  have hslash : c ≠ '/' := ne_of_isWordStart h (by decide)
  unfold readDirective
  rw [if_neg (by simp [isLineBreak_of_isWordStart h]),
    if_neg (by simp [isInlineBlank_of_isWordStart h]), if_neg (by simp [startsComment, hslash])]
  split
  · exact absurd rfl (ne_of_isWordStart h (by decide))
  · exact absurd rfl (ne_of_isWordStart h (by decide))
  · exact absurd rfl (ne_of_isWordStart h (by decide))
  · exact absurd rfl (ne_of_isWordStart h (by decide))
  · exact absurd rfl (ne_of_isWordStart h (by decide))
  · rw [if_pos h]

theorem readDirective_space (s : State) (cs : List Char) :
    readDirective s ' ' cs = (⟨.whiteSpace, run isInlineBlank cs⟩, s) := by
  have hbreak : isLineBreak ' ' = false := by decide
  have hblank : isInlineBlank ' ' = true := by decide
  unfold readDirective
  rw [hbreak, hblank]
  rfl

section
variable {s : State} {pieces : List (Kind × List Char)}

/-- A word is read whole, and it tells how the directive goes on. -/
theorem cut_commandWord (hs : s.mode = .directive) {word : List Char} {kind : Kind}
    (hword : isWord (word.map foldCase)) (hkind : directiveWordKind (word.map foldCase) = kind)
    (hrest : Boundary (textOf pieces)) (h : Cut lexicalRules (s.afterDirectiveWord kind) pieces) :
    Cut lexicalRules s ((kind, word) :: pieces) := by
  cases word with
  | nil => simp [isWord] at hword
  | cons c cs =>
    simp only [List.map_cons, isWord, Bool.and_eq_true] at hword
    have htake := takeWhile_word hword.2 hrest
    refine .cons ?_ h
    show read s _ _ = _
    rw [read, hs]
    dsimp only
    rw [readDirective_word s _ hword.1, htake, ← List.map_cons, hkind, List.length_map]

/-- A word that leaves the lexer in its mode. -/
theorem cut_word (hs : s.mode = .directive) {word : List Char} {kind : Kind}
    (hword : isWord (word.map foldCase)) (hkind : directiveWordKind (word.map foldCase) = kind)
    (hregion : kind ≠ .dirRegion) (huse : kind ≠ .dirUse) (hrest : Boundary (textOf pieces))
    (h : Cut lexicalRules s pieces) : Cut lexicalRules s ((kind, word) :: pieces) := by
  have hstay : s.afterDirectiveWord kind = s := by
    unfold State.afterDirectiveWord
    split
    · exact absurd rfl hregion
    · exact absurd rfl huse
    · rfl
  exact cut_commandWord hs hword hkind hrest (by rwa [hstay])

theorem cut_space (hs : s.mode = .directive) (hrest : Solid (textOf pieces))
    (h : Cut lexicalRules s pieces) : Cut lexicalRules s ((.whiteSpace, [' ']) :: pieces) := by
  refine .cons ?_ h
  have hfold : foldCase ' ' = ' ' := by decide +kernel
  show read s _ _ = _
  rw [read, hs, hfold]
  dsimp only
  rw [readDirective_space, List.nil_append, run_solid hrest, List.length_nil]

theorem cut_leftParen (hs : s.mode = .directive) (h : Cut lexicalRules s pieces) :
    Cut lexicalRules s ((.dirLeftParen, ['(']) :: pieces) := by
  refine .cons ?_ h
  show read s _ _ = _
  rw [read, hs]
  rfl

theorem cut_rightParen (hs : s.mode = .directive) (h : Cut lexicalRules s pieces) :
    Cut lexicalRules s ((.dirRightParen, [')']) :: pieces) := by
  refine .cons ?_ h
  show read s _ _ = _
  rw [read, hs]
  rfl

end

/-! ## Words -/

/-- A name that is a word of a directive line and nothing else there. -/
structure IsName (name : String) : Prop where
  word : isWord (foldWord name) = true
  not_keyword : directiveWords.find? (foldWord name) = none
  not_symbol : PlatformSymbol.ofName? ⟨name⟩ = none

theorem IsName.kind {name : String} (h : IsName name) :
    directiveWordKind (foldWord name) = .dirIdentifier := by
  simp [directiveWordKind, h.not_keyword, ofName?_foldWord, h.not_symbol]

theorem russianName_kind (s : PlatformSymbol) :
    directiveWordKind (foldWord s.russianName) = .dirSymbol := by
  obtain ⟨-, hkeyword, hfound⟩ := russianName_checked s
  simp [directiveWordKind, hkeyword, ofName?_foldWord, hfound]

/-- The keywords of a line with a condition. -/
def conditionWords : List (String × Kind) :=
  [("Если", .dirIf), ("НЕ", .dirNot), ("И", .dirAnd), ("ИЛИ", .dirOr), ("Тогда", .dirThen)]

theorem conditionWords_checked : (conditionWords.all fun (word, kind) =>
    isWord (foldWord word) && directiveWordKind (foldWord word) == kind &&
      kind != .dirRegion && kind != .dirUse) = true := by
  decide +kernel

theorem cut_keyword {s : State} (hs : s.mode = .directive) {word : String} {kind : Kind}
    (h : (word, kind) ∈ conditionWords) {pieces : List (Kind × List Char)}
    (hrest : Boundary (textOf pieces)) (hcut : Cut lexicalRules s pieces) :
    Cut lexicalRules s ((kind, word.toList) :: pieces) := by
  have hchecked := List.all_eq_true.1 conditionWords_checked _ h
  simp only [Bool.and_eq_true, beq_iff_eq, bne_iff_ne] at hchecked
  obtain ⟨⟨⟨hword, hkind⟩, hregion⟩, huse⟩ := hchecked
  exact cut_word hs hword hkind hregion huse hrest hcut

theorem boundary_space (pieces : List (Kind × List Char)) :
    Boundary (textOf ((.whiteSpace, [' ']) :: pieces)) := by
  intro c hc
  cases hc
  decide +kernel

theorem boundary_rightParen (pieces : List (Kind × List Char)) :
    Boundary (textOf ((.dirRightParen, [')']) :: pieces)) := by
  intro c hc
  cases hc
  decide +kernel

theorem solid_word {word : List Char} (h : isWord (word.map foldCase)) (rest : List Char) :
    Solid (word ++ rest) := by
  cases word with
  | nil => simp [isWord] at h
  | cons c cs =>
    simp only [List.map_cons, isWord, Bool.and_eq_true] at h
    intro d hd
    cases hd
    exact isInlineBlank_of_isWordStart h.1

theorem solid_keyword {word : String} {kind : Kind} (h : (word, kind) ∈ conditionWords)
    (rest : List Char) : Solid (word.toList ++ rest) := by
  have hchecked := List.all_eq_true.1 conditionWords_checked _ h
  simp only [Bool.and_eq_true] at hchecked
  exact solid_word hchecked.1.1.1 rest

/-! ## Conditions cut into pieces -/

/-- Two operands in brackets, taken apart. -/
def bracketed (operator : Kind × List Char) (a b : List (Kind × List Char)) :
    List (Kind × List Char) :=
  (.dirLeftParen, ['(']) :: (a ++ (.whiteSpace, [' ']) :: operator :: (.whiteSpace, [' ']) ::
    (b ++ [(.dirRightParen, [')'])]))

/-- A shown condition, taken apart. -/
def Condition.pieces : Condition → List (Kind × List Char)
  | .symbol s => [(.dirSymbol, s.russianName.toList)]
  | .unknown n => [(.dirIdentifier, n.toList)]
  | .not c => (.dirNot, "НЕ".toList) :: (.whiteSpace, [' ']) :: c.pieces
  | .and a b => bracketed (.dirAnd, "И".toList) a.pieces b.pieces
  | .or a b => bracketed (.dirOr, "ИЛИ".toList) a.pieces b.pieces

theorem Condition.textOf_pieces (c : Condition) : textOf c.pieces = c.display.toList := by
  induction c with
  | symbol | unknown => simp [pieces, display]
  | not c ih => simp [pieces, display, ih]
  | and a b iha ihb => simp [pieces, bracketed, display, iha, ihb]
  | or a b iha ihb => simp [pieces, bracketed, display, iha, ihb]

/-- Pieces that a directive line may go on with: they do not begin with a blank, and they are cut as
they are, whatever follows that does not continue the last of them. -/
structure Cuttable (pieces : List (Kind × List Char)) : Prop where
  solid : ∀ rest, Solid (textOf pieces ++ rest)
  cut : ∀ {s : State} {rest : List (Kind × List Char)}, s.mode = .directive →
    Boundary (textOf rest) → Cut lexicalRules s rest → Cut lexicalRules s (pieces ++ rest)

theorem Cuttable.not {pieces : List (Kind × List Char)} (h : Cuttable pieces) :
    Cuttable ((.dirNot, "НЕ".toList) :: (.whiteSpace, [' ']) :: pieces) where
  solid rest := by
    rw [textOf_cons, List.append_assoc]
    exact solid_keyword (show ("НЕ", Kind.dirNot) ∈ conditionWords by decide) _
  cut {s rest} hs hrest hcut := by
    refine cut_keyword hs (by decide) (boundary_space _) (cut_space hs ?_ (h.cut hs hrest hcut))
    exact textOf_append pieces rest ▸ h.solid _

theorem Cuttable.bracketed {a b : List (Kind × List Char)} (ha : Cuttable a) (hb : Cuttable b)
    {word : String} {kind : Kind} (hword : (word, kind) ∈ conditionWords) :
    Cuttable (bracketed (kind, word.toList) a b) where
  solid rest := by
    intro c hc
    cases hc
    decide +kernel
  cut {s rest} hs hrest hcut := by
    have hright : Cut lexicalRules s (b ++ (.dirRightParen, [')']) :: rest) :=
      hb.cut hs (boundary_rightParen _) (cut_rightParen hs hcut)
    have hoperator : Cut lexicalRules s ((kind, word.toList) :: (.whiteSpace, [' ']) ::
        (b ++ (.dirRightParen, [')']) :: rest)) :=
      cut_keyword hs hword (boundary_space _)
        (cut_space hs (textOf_append b _ ▸ hb.solid _) hright)
    have hleft := ha.cut hs (boundary_space _) (cut_space hs (solid_keyword hword _) hoperator)
    simpa [Module.bracketed] using cut_leftParen hs hleft

/-- The names in a condition, which are not platform symbols. -/
def Condition.names : Condition → List String
  | .symbol _ => []
  | .unknown n => [n]
  | .not c => c.names
  | .and a b | .or a b => a.names ++ b.names

theorem Cuttable.word {kind : Kind} {word : String} (hword : isWord (foldWord word))
    (hkind : directiveWordKind (foldWord word) = kind) (hregion : kind ≠ .dirRegion)
    (huse : kind ≠ .dirUse) : Cuttable [(kind, word.toList)] := by
  refine ⟨fun rest => ?_, fun hs hrest hcut => cut_word hs hword hkind hregion huse hrest hcut⟩
  rw [textOf_cons, List.append_assoc]
  exact solid_word hword _

theorem Condition.cuttable {c : Condition} (hc : ∀ name ∈ c.names, IsName name) :
    Cuttable c.pieces := by
  induction c with
  | symbol s =>
    exact .word (russianName_checked s).1 (russianName_kind s) (by decide) (by decide)
  | unknown n =>
    have hn := hc n (List.mem_singleton_self n)
    exact .word hn.word hn.kind (by decide) (by decide)
  | not c ih => exact (ih hc).not
  | and a b iha ihb =>
    exact (iha fun n hn => hc n (List.mem_append_left _ hn)).bracketed
      (ihb fun n hn => hc n (List.mem_append_right _ hn)) (by decide)
  | or a b iha ihb =>
    exact (iha fun n hn => hc n (List.mem_append_left _ hn)).bracketed
      (ihb fun n hn => hc n (List.mem_append_right _ hn)) (by decide)

/-! ## The line of a condition -/

/-- A `#` before a word that makes no patch marker with it begins a directive line. -/
theorem cut_hash {s : State} (hs : s.mode = .default) {word : List Char} {kind : Kind}
    (hword : isWord (word.map foldCase)) (hpatch : patchWords.find? (word.map foldCase) = none)
    {pieces : List (Kind × List Char)} (hrest : Boundary (textOf pieces))
    (h : Cut lexicalRules (s.pushMode .directive) ((kind, word) :: pieces)) :
    Cut lexicalRules s ((.hash, ['#']) :: (kind, word) :: pieces) := by
  refine .cons ?_ h
  have hsolid := solid_word hword (textOf pieces)
  have hall : ((word.map foldCase).all isWordChar) = true := by
    cases word with
    | nil => rfl
    | cons c cs =>
      simp only [List.map_cons, isWord, Bool.and_eq_true] at hword
      simpa [isWordChar_of_isWordStart hword.1] using hword.2
  have htake := takeWhile_word hall hrest
  have hmarker : patchMarker? ((word ++ textOf pieces).map foldCase) = none := by
    have hblanks : skipInlineBlanks ((word ++ textOf pieces).map foldCase) =
        (0, (word ++ textOf pieces).map foldCase) := by
      cases hw : word ++ textOf pieces with
      | nil => rfl
      | cons c cs => simp [skipInlineBlanks, run, hsolid c (by simp [hw])]
    simp only [patchMarker?, hblanks, htake, hpatch, Option.map_none]
  show read s _ _ = _
  have hhash : foldCase '#' = '#' := by decide +kernel
  rw [read, hs, hhash]
  show readHash s _ = _
  rw [List.nil_append, textOf_cons, readHash, hmarker]
  rfl

/-- A directive line with a condition, taken apart. -/
def conditionLine (condition : List (Kind × List Char)) : List (Kind × List Char) :=
  (.hash, ['#']) :: (.dirIf, "Если".toList) :: (.whiteSpace, [' ']) ::
    (condition ++ [(.whiteSpace, [' ']), (.dirThen, "Тогда".toList)])

theorem cut_conditionLine {condition : List (Kind × List Char)} (h : Cuttable condition) :
    Cut lexicalRules lexicalRules.initial (conditionLine condition) := by
  let s := lexicalRules.initial.pushMode .directive
  have hs : s.mode = .directive := rfl
  have hthen : ("Тогда", Kind.dirThen) ∈ conditionWords := by decide
  have hspace : Cut lexicalRules s [(.whiteSpace, [' ']), (.dirThen, "Тогда".toList)] :=
    cut_space hs (solid_keyword hthen []) (cut_keyword hs hthen nofun .nil)
  have hcondition := cut_space hs (textOf_append condition _ ▸ h.solid _)
    (h.cut hs (boundary_space _) hspace)
  have hif : ("Если", Kind.dirIf) ∈ conditionWords := by decide
  have hword : isWord (foldWord "Если") = true := by decide +kernel
  have hpatch : patchWords.find? (foldWord "Если") = none := by decide +kernel
  exact cut_hash rfl hword hpatch (boundary_space _)
    (cut_keyword hs hif (boundary_space _) hcondition)

/-- A directive line with a shown condition, taken apart. -/
def Condition.linePieces (c : Condition) : List (Kind × List Char) := conditionLine c.pieces

theorem Condition.cut_line {c : Condition} (hc : ∀ name ∈ c.names, IsName name) :
    Cut lexicalRules lexicalRules.initial c.linePieces :=
  cut_conditionLine (cuttable hc)

/-! ## Derivations of shown conditions -/

/-- Seen by the parser. -/
def isCode (piece : Kind × List Char) : Bool := (TokenKind.channels piece.1).code

theorem Token.kind_of_piece {t : Token Kind} {kind : Kind} {text : List Char}
    (h : t.piece = (kind, text)) : t.kind = kind := congrArg Prod.fst h

theorem Token.text_of_piece {t : Token Kind} {kind : Kind} {text : String}
    (h : t.piece = (kind, text.toList)) : t.text = text :=
  String.toList_inj.1 (congrArg Prod.snd h)

theorem filter_bracketed (operator : Kind × List Char) (a b : List (Kind × List Char))
    (h : isCode operator = true) : (bracketed operator a b).filter isCode =
      (.dirLeftParen, ['(']) ::
        (a.filter isCode ++ operator :: (b.filter isCode ++ [(.dirRightParen, [')'])])) := by
  simp [bracketed, h, show ∀ w, isCode (.whiteSpace, w) = false from fun _ => rfl,
    show ∀ w, isCode (.dirLeftParen, w) = true from fun _ => rfl,
    show ∀ w, isCode (.dirRightParen, w) = true from fun _ => rfl]

/-- Tokens that have these kinds and texts stand in brackets. -/
theorem exists_bracketed {operator : Kind × List Char} {a b : List (Kind × List Char)}
    (ho : isCode operator = true) {tokens : List (Token Kind)}
    (h : tokens.map Token.piece = (bracketed operator a b).filter isCode) :
    ∃ left as sign bs right, tokens = left :: (as ++ sign :: (bs ++ [right])) ∧
      left.kind = .dirLeftParen ∧ as.map Token.piece = a.filter isCode ∧ sign.kind = operator.1 ∧
        bs.map Token.piece = b.filter isCode ∧ right.kind = .dirRightParen := by
  rw [filter_bracketed operator a b ho] at h
  obtain ⟨left, inner, rfl, hleft, hinner⟩ := List.map_eq_cons_iff.1 h
  obtain ⟨as, rest, rfl, has, hrest⟩ := List.map_eq_append_iff.1 hinner
  obtain ⟨sign, bs', rfl, hsign, hbs'⟩ := List.map_eq_cons_iff.1 hrest
  obtain ⟨bs, last, rfl, hbs, hlast⟩ := List.map_eq_append_iff.1 hbs'
  obtain ⟨right, rfl, hright⟩ := List.map_eq_singleton_iff.1 hlast
  exact ⟨left, as, sign, bs, right, rfl, Token.kind_of_piece hleft, has,
    congrArg Prod.fst hsign, hbs, Token.kind_of_piece hright⟩

open Condition (Phrase) in
/-- Tokens with the kinds and texts of a shown condition have a derivation, and the condition is its
value. -/
theorem Condition.exists_phrase (c : Condition) {tokens : List (Token Kind)}
    (h : tokens.map Token.piece = c.pieces.filter isCode) :
    ∃ s : Phrase .unary, s.yield = tokens ∧ s.value = c := by
  induction c generalizing tokens with
  | symbol symbol =>
    obtain ⟨t, rfl, ht⟩ := List.map_eq_singleton_iff.1 h
    refine ⟨.plain (.symbol t (Token.kind_of_piece ht)), rfl, ?_⟩
    have hfound := (russianName_checked symbol).2.2
    simp [Phrase.value, Token.text_of_piece ht, hfound]
  | unknown n =>
    obtain ⟨t, rfl, ht⟩ := List.map_eq_singleton_iff.1 h
    refine ⟨.plain (.identifier t (Token.kind_of_piece ht)), rfl, ?_⟩
    simp [Phrase.value, Token.text_of_piece ht]
  | not c ih =>
    obtain ⟨sign, inner, rfl, hsign, hinner⟩ := List.map_eq_cons_iff.1 h
    obtain ⟨s, rfl, rfl⟩ := ih hinner
    exact ⟨.not sign (Token.kind_of_piece hsign) s, rfl, rfl⟩
  | and a b iha ihb =>
    have hcode : isCode (.dirAnd, "И".toList) = true := rfl
    obtain ⟨left, _, sign, _, right, rfl, hl, ha, ho, hb, hr⟩ := exists_bracketed hcode h
    obtain ⟨s, rfl, rfl⟩ := iha ha
    obtain ⟨t, rfl, rfl⟩ := ihb hb
    let joined : Phrase (.chain .or) := .chain (.chain s (.more sign ho t .none)) .none
    refine ⟨.plain (.brackets left hl joined right hr), ?_, rfl⟩
    simp only [joined, Phrase.yield, Condition.Rest.yield, List.append_nil, List.append_assoc,
      List.cons_append]
    rfl
  | or a b iha ihb =>
    have hcode : isCode (.dirOr, "ИЛИ".toList) = true := rfl
    obtain ⟨left, _, sign, _, right, rfl, hl, ha, ho, hb, hr⟩ := exists_bracketed hcode h
    obtain ⟨s, rfl, rfl⟩ := iha ha
    obtain ⟨t, rfl, rfl⟩ := ihb hb
    let joined : Phrase (.chain .or) :=
      .chain (.chain s .none) (.more sign ho (.chain t .none) .none)
    refine ⟨.plain (.brackets left hl joined right hr), ?_, rfl⟩
    simp only [joined, Phrase.yield, Condition.Rest.yield, List.append_nil, List.append_assoc,
      List.cons_append]
    rfl

open Condition (Phrase) in
/-- Pieces that a parser reads as a condition. -/
def Spells (pieces : List (Kind × List Char)) (c : Condition) : Prop :=
  ∀ tokens : List (Token Kind), tokens.map Token.piece = pieces.filter isCode →
    ∃ s : Phrase .unary, s.yield = tokens ∧ s.value = c

/-- Tokens of a line with such a condition are a directive line. -/
theorem Spells.exists_line {condition : List (Kind × List Char)} {c : Condition}
    (hspells : Spells condition c) {tokens : List (Token Kind)}
    (h : tokens.map Token.piece = (conditionLine condition).filter isCode) :
    ∃ l : DirectiveLine, l.yield = tokens ∧ l.command.directive = .ifBlock (some c) := by
  have hpieces : (conditionLine condition).filter isCode =
      (.hash, ['#']) :: (.dirIf, "Если".toList) ::
        (condition.filter isCode ++ [(.dirThen, "Тогда".toList)]) := by
    simp [conditionLine, show ∀ w, isCode (.whiteSpace, w) = false from fun _ => rfl,
      show ∀ w, isCode (.hash, w) = true from fun _ => rfl,
      show ∀ w, isCode (.dirIf, w) = true from fun _ => rfl,
      show ∀ w, isCode (.dirThen, w) = true from fun _ => rfl]
  rw [hpieces] at h
  obtain ⟨hash, _, rfl, hhash, hrest⟩ := List.map_eq_cons_iff.1 h
  obtain ⟨keyword, _, rfl, hkeyword, hguard⟩ := List.map_eq_cons_iff.1 hrest
  obtain ⟨tokens, _, rfl, hcondition, hlast⟩ := List.map_eq_append_iff.1 hguard
  obtain ⟨closer, rfl, hcloser⟩ := List.map_eq_singleton_iff.1 hlast
  obtain ⟨s, rfl, rfl⟩ := hspells tokens hcondition
  let guard : Guard := ⟨.chain (.chain s .none) .none, closer, Token.kind_of_piece hcloser⟩
  refine ⟨⟨hash, Token.kind_of_piece hhash,
    .ifBlock keyword (Token.kind_of_piece hkeyword) guard⟩, ?_, rfl⟩
  simp only [guard, DirectiveLine.yield, Command.keyword, Command.operands, Guard.yield,
    Condition.Phrase.yield, Condition.Rest.yield, List.append_nil]
  rfl

/-- Such tokens are read as the directive with that condition. -/
theorem Spells.runOn_line {condition : List (Kind × List Char)} {c : Condition}
    (hspells : Spells condition c) {line : List (Token Kind)}
    (h : (Cursor.shown .codeOnly line).map Token.piece = (conditionLine condition).filter isCode)
    (report : Report) : ∃ cursor,
      directive.runOn report (.onCode line) = (.ok (.ifBlock (some c)), cursor, report) := by
  obtain ⟨l, hyield, hdirective⟩ := hspells.exists_line h
  have hp : Parser.Faces { cursor := .onCode line, report } l.yield :=
    ⟨Cursor.valid_ofTokens _ _, (Cursor.ahead_ofTokens _ _).trans hyield.symm⟩
  rw [Parse.runOn, l.takes.whole hp, hdirective]
  exact ⟨_, rfl⟩

theorem Condition.runOn_line (c : Condition) {line : List (Token Kind)}
    (h : (Cursor.shown .codeOnly line).map Token.piece = c.linePieces.filter isCode)
    (report : Report) : ∃ cursor,
      directive.runOn report (.onCode line) = (.ok (.ifBlock (some c)), cursor, report) :=
  Spells.runOn_line (fun _ htokens => c.exists_phrase htokens) h report

/-- **Reading back.** A condition that is shown in a `#Если` line is read from that line, and
nothing is reported. -/
theorem display_reads_back {c : Condition} (hc : ∀ name ∈ c.names, IsName name) (source : String)
    (former : Report) (mode : Prediction) :
    let line := lexicalRules.tokenize source ("#Если " ++ c.display ++ " Тогда")
    let run := directive.runOn (former.reset.setMode mode) (.onCode line)
    run.1 = .ok (.ifBlock (some c)) ∧ run.2.2.diagnostics = [] := by
  intro line
  have htext : ("#Если " ++ c.display ++ " Тогда").toList = textOf c.linePieces := by
    simp [Condition.linePieces, conditionLine, Condition.textOf_pieces]
  have hmark : dropByteOrderMark (textOf c.linePieces) = textOf c.linePieces :=
    dropByteOrderMark_eq_self fun h => absurd (Option.some.inj h) (by decide)
  have hshown : (Cursor.shown .codeOnly line).map Token.piece = c.linePieces.filter isCode :=
    Cut.shown lexicalRules_plain (Condition.cut_line hc) (htext ▸ hmark)
  have hread := c.runOn_line hshown (former.reset.setMode mode)
  revert hread
  generalize directive.runOn (former.reset.setMode mode) (.onCode line) = run
  rintro ⟨cursor, rfl⟩
  exact ⟨rfl, rfl⟩

/-- All the operators, over a platform symbol and a name. -/
def Condition.nested : Condition :=
  .not (.or (.and (.unknown "Отладка") (.not (.symbol .webClient))) (.not (.unknown "Отладка")))

theorem display_reads_back_nested : (∀ name ∈ Condition.nested.names, IsName name) ∧
    let line := lexicalRules.tokenize "" ("#Если " ++ Condition.nested.display ++ " Тогда")
    let run := directive.runOn (({} : Report).reset.setMode .general) (.onCode line)
    run.1 = .ok (.ifBlock (some Condition.nested)) ∧ run.2.2.diagnostics = [] := by
  have hname : IsName "Отладка" := ⟨by decide +kernel, by decide +kernel, by decide +kernel⟩
  have hnames : ∀ name ∈ Condition.nested.names, IsName name := by
    simp [Condition.nested, Condition.names, hname]
  exact ⟨hnames, display_reads_back hnames "" {} .general⟩

end Module
end BuiltInScript
