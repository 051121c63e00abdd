import BuiltInScript.Compilation.SymbolTable
import BuiltInScript.Proofs.Module.Printing

/-!
# Symbols in every spelling

A name that is given to a symbol table is classified there as it is written. A word of a `#Если`
line is classified by the lexer, as it is folded, and once more by the parser, as it is written.
They always agree: what is given in one spelling or language holds in every other.

**Results.**
* `hasPlatform_given`, `hasName_given`: what a table holds after any history.
* `cuttable_word`, `spells_word`: a single word is a condition.
* `eval_ofWord_iff`: when it holds.
* `word_holds_iff`: the directive line with that word.
-/
namespace BuiltInScript.Compilation

open BuiltInScript.Module

/-! ## Histories -/

/-- A name or a platform symbol that is given to a table. -/
inductive Giving where
  | name (text : String)
  | platform (symbol : PlatformSymbol)
deriving DecidableEq, Repr

/-- The name that is given. A platform symbol has more than one, and counts as any of them. -/
def Giving.text : Giving → String
  | .name text => text
  | .platform symbol => symbol.russianName

namespace SymbolTable

def give (t : SymbolTable) : Giving → SymbolTable
  | .name text => t.define text
  | .platform symbol => t.withPlatform symbol

/-- A table that is made from names, and then given more. -/
def given (first : List String) (more : List Giving) : SymbolTable :=
  more.foldl give (ofNames first)

end SymbolTable

/-- All names that such a table was given. -/
def givenNames (first : List String) (more : List Giving) : List String :=
  first ++ more.map Giving.text

/-- Names that mean the same in conditions: names of one platform symbol, in either language, or one
name that belongs to none. -/
def SameSymbol (a b : String) : Prop :=
  (∃ s : PlatformSymbol, s.isNamed ⟨a⟩ ∧ s.isNamed ⟨b⟩) ∨
    (∀ s : PlatformSymbol, ¬s.isNamed ⟨a⟩) ∧ (∀ s : PlatformSymbol, ¬s.isNamed ⟨b⟩) ∧
      foldWord a = foldWord b

/-! ## Tables -/

namespace SymbolTable

variable {t : SymbolTable}

theorem hasPlatform_define (name : String) (s : PlatformSymbol) :
    (t.define name).hasPlatform s ↔ t.hasPlatform s ∨ s.isNamed ⟨name⟩ := by
  rw [← PlatformSymbol.ofName?_eq_some_iff]
  unfold define
  cases hfound : PlatformSymbol.ofName? ⟨name⟩ with
  | some symbol => simp
  | none => simp [hasPlatform]

/-- A name of a platform symbol is not kept as a name. -/
theorem hasName_define (name word : String) :
    (t.define name).hasName word ↔
      t.hasName word ∨ PlatformSymbol.ofName? ⟨name⟩ = none ∧ foldWord name = foldWord word := by
  unfold define
  cases hfound : PlatformSymbol.ofName? ⟨name⟩ with
  | some symbol => simp
  | none =>
    have hkey : ((⟨name⟩ : Name) == ⟨word⟩) ↔ foldWord name = foldWord word := Name.beq_iff
    simp [hasName, hkey]

theorem hasPlatform_give (giving : Giving) (s : PlatformSymbol) :
    (t.give giving).hasPlatform s ↔ t.hasPlatform s ∨ s.isNamed ⟨giving.text⟩ := by
  cases giving with
  | name text => exact hasPlatform_define text s
  | platform symbol =>
    have hfound := (russianName_checked symbol).2.2
    rw [← PlatformSymbol.ofName?_eq_some_iff]
    simp [give, Giving.text, hfound]

theorem hasName_give (giving : Giving) (word : String) :
    (t.give giving).hasName word ↔ t.hasName word ∨
      PlatformSymbol.ofName? ⟨giving.text⟩ = none ∧ foldWord giving.text = foldWord word := by
  cases giving with
  | name text => exact hasName_define text word
  | platform symbol =>
    have hfound := (russianName_checked symbol).2.2
    simp [give, Giving.text, hfound]

/-- What each giving adds has been added after all of them. -/
theorem foldl_give_iff (holds : SymbolTable → Prop) (adds : String → Prop)
    (hgive : ∀ t giving, holds (give t giving) ↔ holds t ∨ adds giving.text)
    (givings : List Giving) (t : SymbolTable) :
    holds (givings.foldl give t) ↔ holds t ∨ ∃ name ∈ givings.map Giving.text, adds name := by
  induction givings generalizing t with
  | nil => simp
  | cons giving givings ih =>
    rw [List.foldl_cons, ih, hgive]
    simp [or_assoc]

/-- Names alone are givings too. -/
theorem given_eq (first : List String) (more : List Giving) :
    given first more = (first.map Giving.name ++ more).foldl give {} := by
  rw [given, ofNames, List.foldl_append, List.foldl_map]
  rfl

theorem map_text (first : List String) (more : List Giving) :
    (first.map Giving.name ++ more).map Giving.text = givenNames first more := by
  simp [givenNames, Giving.text, Function.comp_def]

/-- A platform symbol holds if it was given by any of its names. -/
theorem hasPlatform_given (first : List String) (more : List Giving) (s : PlatformSymbol) :
    (given first more).hasPlatform s ↔ ∃ name ∈ givenNames first more, s.isNamed ⟨name⟩ := by
  have hall := foldl_give_iff (fun t => t.hasPlatform s) (fun name => s.isNamed ⟨name⟩)
    (fun _ giving => hasPlatform_give giving s) (first.map Giving.name ++ more) {}
  rw [map_text, ← given_eq] at hall
  simpa [hasPlatform] using hall

/-- A name holds if it was given in any spelling, and belongs to no platform symbol. -/
theorem hasName_given (first : List String) (more : List Giving) (word : String) :
    (given first more).hasName word ↔ ∃ name ∈ givenNames first more,
      PlatformSymbol.ofName? ⟨name⟩ = none ∧ foldWord name = foldWord word := by
  have hall := foldl_give_iff (fun t => t.hasName word)
    (fun name => PlatformSymbol.ofName? ⟨name⟩ = none ∧ foldWord name = foldWord word)
    (fun _ giving => hasName_give giving word) (first.map Giving.name ++ more) {}
  rw [map_text, ← given_eq] at hall
  simpa [hasName, NameSet.contains] using hall

end SymbolTable

/-! ## Words -/

/-- The condition that a word is by itself. -/
def ofWord (word : String) : Condition :=
  match PlatformSymbol.ofName? ⟨word⟩ with
  | some symbol => .symbol symbol
  | none => .unknown word

/-- It holds if it was given by a name that means the same. -/
theorem eval_ofWord_iff (first : List String) (more : List Giving) (word : String) :
    (SymbolTable.given first more).eval (ofWord word) ↔
      ∃ name ∈ givenNames first more, SameSymbol name word := by
  unfold ofWord
  cases hfound : PlatformSymbol.ofName? ⟨word⟩ with
  | some symbol =>
    have hnamed := PlatformSymbol.isNamed_of_ofName? hfound
    show (SymbolTable.given first more).hasPlatform symbol ↔ _
    rw [SymbolTable.hasPlatform_given]
    refine exists_congr fun name => and_congr_right fun _ => ?_
    constructor
    · intro h
      exact .inl ⟨symbol, h, hnamed⟩
    · rintro (⟨s, hname, hword⟩ | ⟨-, hnone, -⟩)
      · rwa [PlatformSymbol.isNamed_unique hnamed hword]
      · exact absurd hnamed (hnone symbol)
  | none =>
    have hnone := PlatformSymbol.ofName?_eq_none_iff.1 hfound
    show (SymbolTable.given first more).hasName word ↔ _
    rw [SymbolTable.hasName_given]
    refine exists_congr fun name => and_congr_right fun _ => ?_
    rw [PlatformSymbol.ofName?_eq_none_iff]
    constructor
    · rintro ⟨hname, hsame⟩
      exact .inr ⟨hname, hnone, hsame⟩
    · rintro (⟨s, -, hword⟩ | ⟨hname, -, hsame⟩)
      · exact absurd hword (hnone s)
      · exact ⟨hname, hsame⟩

/-! ## Lines -/

/-- What the lexer makes of a word. -/
def wordPiece (word : String) : Kind × List Char :=
  (directiveWordKind (foldWord word), word.toList)

section
variable {word : String} (hkeyword : directiveWords.find? (foldWord word) = none)
include hkeyword

/-- The lexer finds a symbol where the parser does. -/
theorem directiveWordKind_word : directiveWordKind (foldWord word) =
    if (PlatformSymbol.ofName? ⟨word⟩).isSome then .dirSymbol else .dirIdentifier := by
  simp [directiveWordKind, hkeyword, ofName?_foldWord]

theorem cuttable_word (hword : Text.isWord word.toList) : Cuttable [wordPiece word] := by
  have hkind := directiveWordKind_word hkeyword
  refine .word (Text.isWord_map_foldCase hword) rfl ?_ ?_
  · rw [hkind]
    split <;> nofun
  · rw [hkind]
    split <;> nofun

theorem spells_word : Spells [wordPiece word] (ofWord word) := by
  have hkind := directiveWordKind_word hkeyword
  intro tokens htokens
  unfold ofWord
  cases hfound : PlatformSymbol.ofName? ⟨word⟩ with
  | some symbol =>
    rw [hfound] at hkind
    have hcode : [wordPiece word].filter isCode = [(.dirSymbol, word.toList)] := by
      rw [wordPiece, hkind]
      rfl
    rw [hcode] at htokens
    obtain ⟨t, rfl, ht⟩ := List.map_eq_singleton_iff.1 htokens
    refine ⟨.plain (.symbol t (Token.kind_of_piece ht)), rfl, ?_⟩
    simp [Condition.Phrase.value, Token.text_of_piece ht, hfound]
  | none =>
    rw [hfound] at hkind
    have hcode : [wordPiece word].filter isCode = [(.dirIdentifier, word.toList)] := by
      rw [wordPiece, hkind]
      rfl
    rw [hcode] at htokens
    obtain ⟨t, rfl, ht⟩ := List.map_eq_singleton_iff.1 htokens
    refine ⟨.plain (.identifier t (Token.kind_of_piece ht)), rfl, ?_⟩
    simp [Condition.Phrase.value, Token.text_of_piece ht]

end

/-- **Giving and testing agree.** Whatever a table was given, and in whatever order, the line
`#Если w Тогда` with a single word that is no keyword is read in silence as a directive whose
condition holds in that table just if a name was given that means the same as the word. -/
theorem word_holds_iff (first : List String) (more : List Giving) {word : String}
    (hword : Text.isWord word.toList) (hkeyword : directiveWords.find? (foldWord word) = none)
    (source : String) (former : Report) (mode : Prediction) :
    let line := lexicalRules.tokenize source ("#Если " ++ word ++ " Тогда")
    let run := directive.runOn (former.reset.setMode mode) (.onCode line)
    run.2.2.diagnostics = [] ∧ ∃ c, run.1 = .ok (.ifBlock (some c)) ∧
      ((SymbolTable.given first more).eval c ↔
        ∃ name ∈ givenNames first more, SameSymbol name word) := by
  intro line
  have htext : ("#Если " ++ word ++ " Тогда").toList = textOf (conditionLine [wordPiece word]) := by
    simp [conditionLine, wordPiece]
  have hmark : Text.dropByteOrderMark (textOf (conditionLine [wordPiece word])) =
      textOf (conditionLine [wordPiece word]) :=
    Text.dropByteOrderMark_eq_self fun h => absurd (Option.some.inj h) (by decide)
  have hshown : (Cursor.shown .codeOnly line).map Token.piece =
      (conditionLine [wordPiece word]).filter isCode :=
    Cut.shown lexicalRules_plain (cut_conditionLine (cuttable_word hkeyword hword))
      (htext ▸ hmark)
  obtain ⟨cursor, hread⟩ :=
    (spells_word hkeyword).runOn_line hshown (former.reset.setMode mode)
  rw [hread]
  exact ⟨rfl, ofWord word, rfl, eval_ofWord_iff first more word⟩

/-- A symbol that is given in Russian and asked for in English. -/
theorem word_holds_iff_client :
    Text.isWord "Client".toList = true ∧ directiveWords.find? (foldWord "Client") = none ∧
    let line := lexicalRules.tokenize "" ("#Если " ++ "Client" ++ " Тогда")
    let run := directive.runOn (({} : Report).reset.setMode .general) (.onCode line)
    ∃ c, run.1 = .ok (.ifBlock (some c)) ∧
      (SymbolTable.given ["Отладка"] [.platform .server, .name "кЛИЕНТ"]).eval c = true := by
  have hword : Text.isWord "Client".toList = true := by decide +kernel
  have hkeyword : directiveWords.find? (foldWord "Client") = none := by decide +kernel
  have hsame : SameSymbol "кЛИЕНТ" "Client" :=
    .inl ⟨.client, by decide +kernel, by decide +kernel⟩
  obtain ⟨-, c, hread, hholds⟩ := word_holds_iff ["Отладка"] [.platform .server, .name "кЛИЕНТ"]
    hword hkeyword "" {} .general
  exact ⟨hword, hkeyword, c, hread, hholds.2 ⟨"кЛИЕНТ", by decide, hsame⟩⟩

end BuiltInScript.Compilation
