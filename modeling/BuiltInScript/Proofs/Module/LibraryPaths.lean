import BuiltInScript.Proofs.Module.Literals
import BuiltInScript.Proofs.Module.Printing

/-!
# Quoted library paths read back

The lexer looks for the end of a quoted path from the left and splits a run of quotes into pairs.
What the path stands for is found from both ends: one quote is dropped at the beginning, one at the
end if there is one there, and then pairs of quotes are replaced. Where the closing quote is
missing, the quote dropped at the end is one half of a pair; its other half is then left over, and
counts for the quote that the pair stood for.

**Results.**
* `unpairQuotes_doubled_append`: replacing pairs of quotes undoes doubling, whatever follows.
* `unquote_doubled`: the contents of a quoted text, closed or not.
* `cut_useLine`: how the lexer takes a `#Использовать` line apart.
* `library_path_reads_back`: a quoted path is read as what was written, closed or not.
-/
namespace BuiltInScript.Module

open Text

/-! ## Quotes -/

theorem unpairQuotes_char {c : Char} (h : c ≠ '"') (cs : List Char) :
    unpairQuotes (c :: cs) = c :: unpairQuotes cs := by
  rw [unpairQuotes]
  exact fun _ hc => absurd hc h

/-- Doubled contents are undoubled, whatever follows them. -/
theorem unpairQuotes_doubled_append (content rest : List Char) :
    unpairQuotes (doubled content ++ rest) = content ++ unpairQuotes rest := by
  induction content with
  | nil => rfl
  | cons c content ih =>
    rw [doubled_cons, List.append_assoc]
    by_cases hc : c = '"'
    · rw [if_pos hc, hc]
      show '"' :: unpairQuotes (doubled content ++ rest) = _
      rw [ih, List.cons_append]
    · rw [if_neg hc, List.singleton_append, unpairQuotes_char hc, ih, List.cons_append]

theorem unpairQuotes_doubled (content : List Char) : unpairQuotes (doubled content) = content := by
  have h := unpairQuotes_doubled_append content []
  rwa [List.append_nil, unpairQuotes, List.append_nil] at h

theorem doubled_concat (content : List Char) (c : Char) :
    doubled (content ++ [c]) = doubled content ++ if c = '"' then ['"', '"'] else [c] := by
  simp [doubled]

theorem dropQuote_of_ne {c : Char} (h : c ≠ '"') (cs : List Char) :
    dropQuote (c :: cs) = c :: cs := by
  rw [dropQuote]
  exact fun _ hc => absurd (List.cons.inj hc).1 h

/-- A quote at the end of doubled contents is one of two. Without it the other one is left, and no
pair is made of it. -/
theorem unpairQuotes_open (content : List Char) :
    unpairQuotes (dropQuote (doubled content).reverse).reverse = content := by
  rcases List.eq_nil_or_concat content with rfl | ⟨initial, last, rfl⟩
  · rfl
  · rw [List.concat_eq_append, doubled_concat, List.reverse_append]
    by_cases hlast : last = '"'
    · rw [if_pos hlast, hlast]
      show unpairQuotes ('"' :: (doubled initial).reverse).reverse = _
      rw [List.reverse_cons, List.reverse_reverse, unpairQuotes_doubled_append]
      rfl
    · rw [if_neg hlast, List.reverse_singleton, List.singleton_append, dropQuote_of_ne hlast,
        List.reverse_cons, List.reverse_reverse, unpairQuotes_doubled_append,
        unpairQuotes_char hlast]
      rfl

/-- What stands after the contents of a quoted path: the closing quote, or nothing if it was left
out. -/
def closings : List (List Char) := [['"'], []]

/-- **Unquoting.** The contents of a quoted text are what was doubled, whether it is closed or
not. -/
theorem unquote_doubled (content : List Char) {closing : List Char} (h : closing ∈ closings) :
    unquote (String.ofList ('"' :: (doubled content ++ closing))) = String.ofList content := by
  have hinner : unpairQuotes (dropQuote (doubled content ++ closing).reverse).reverse = content := by
    simp only [closings, List.mem_cons, List.not_mem_nil, or_false] at h
    rcases h with rfl | rfl
    · rw [List.reverse_append]
      show unpairQuotes (doubled content).reverse.reverse = _
      rw [List.reverse_reverse, unpairQuotes_doubled]
    · rw [List.append_nil, unpairQuotes_open]
  rw [unquote, String.toList_ofList]
  exact congrArg String.ofList hinner

/-! ## The line -/

/-- A line that names a library by a quoted path, taken apart. -/
def usePieces (path closing : List Char) : List (Kind × List Char) :=
  [(.hash, ['#']), (.dirUse, "Использовать".toList), (.whiteSpace, [' ']),
    (.dirString, '"' :: (doubled path ++ closing))]

section
variable {s : State} {path closing : List Char}

/-- The text after the opening quote belongs to the path up to its end. -/
theorem stringBody_path (h : ∀ c ∈ path, isLineBreak c = false) (hclosing : closing ∈ closings) :
    (stringBody ((doubled path ++ closing).map foldCase)).1 = (doubled path ++ closing).length := by
  simp only [closings, List.mem_cons, List.not_mem_nil, or_false] at hclosing
  rcases hclosing with rfl | rfl
  · rw [stringBody_last h (by decide), List.length_append, List.length_singleton]
  · have hopen := stringBody_doubled (unbroken_map h) []
    rw [List.append_nil, ← map_doubled, List.length_map] at hopen
    rw [List.append_nil, hopen]
    exact Nat.zero_add _

theorem cut_quotedPath (hs : s.mode = .use) (h : ∀ c ∈ path, isLineBreak c = false)
    (hclosing : closing ∈ closings) :
    Cut lexicalRules s [(.dirString, '"' :: (doubled path ++ closing))] := by
  have hnil : Cut lexicalRules s [] := .nil
  refine .cons ?_ hnil
  show read s _ _ = _
  rw [textOf_nil, List.append_nil, (foldCase_eq_quote_iff '"').2 rfl, read, hs,
    ← stringBody_path h hclosing]
  rfl

/-- A blank before the path is skipped. -/
theorem cut_useSpace (hs : s.mode = .use) {pieces : List (Kind × List Char)}
    (hrest : Solid (textOf pieces)) (h : Cut lexicalRules s pieces) :
    Cut lexicalRules s ((.whiteSpace, [' ']) :: pieces) := by
  have hfold : foldCase ' ' = ' ' := by decide +kernel
  refine .cons ?_ h
  show read s _ _ = _
  rw [List.nil_append, List.length_nil, ← run_solid hrest, read, hs, hfold]
  rfl

/-- **The line.** A quoted path is one token up to the end of the line, closed or not. -/
theorem cut_useLine (h : ∀ c ∈ path, isLineBreak c = false) (hclosing : closing ∈ closings) :
    Cut lexicalRules lexicalRules.initial (usePieces path closing) := by
  have hquote : isInlineBlank (foldCase '"') = false := by decide +kernel
  have hsolid : Solid (textOf [(Kind.dirString, '"' :: (doubled path ++ closing))]) := by
    rintro c hc
    cases hc
    exact hquote
  have hpath : Cut lexicalRules ((lexicalRules.initial.pushMode .directive).setMode .use)
      [(.whiteSpace, [' ']), (.dirString, '"' :: (doubled path ++ closing))] :=
    cut_useSpace rfl hsolid (cut_quotedPath rfl h hclosing)
  have hword : isWord (foldWord "Использовать") = true := by decide +kernel
  have hkind : directiveWordKind (foldWord "Использовать") = .dirUse := by decide +kernel
  have hpatch : patchWords.find? (foldWord "Использовать") = none := by decide +kernel
  exact cut_hash rfl hword hpatch (boundary_space _)
    (cut_commandWord rfl hword hkind (boundary_space _) hpath)

end

/-! ## Reading back -/

/-- Tokens of such a line are the directive that names the library. -/
theorem exists_useLine {path closing : List Char} (hclosing : closing ∈ closings)
    {tokens : List (Token Kind)}
    (h : tokens.map Token.piece = (usePieces path closing).filter isCode) :
    ∃ l : DirectiveLine, l.yield = tokens ∧
      l.command.directive = .use (String.ofList path) := by
  have hpieces : (usePieces path closing).filter isCode =
      [(.hash, ['#']), (.dirUse, "Использовать".toList),
        (.dirString, '"' :: (doubled path ++ closing))] := rfl
  rw [hpieces] at h
  obtain ⟨hash, _, rfl, hhash, hrest⟩ := List.map_eq_cons_iff.1 h
  obtain ⟨keyword, _, rfl, hkeyword, hlast⟩ := List.map_eq_cons_iff.1 hrest
  obtain ⟨library, rfl, hlibrary⟩ := List.map_eq_singleton_iff.1 hlast
  have hkind : library.kind = .dirString := Token.kind_of_piece hlibrary
  have htext : library.text = String.ofList ('"' :: (doubled path ++ closing)) :=
    Token.text_of_piece (by rw [hlibrary, String.toList_ofList])
  refine ⟨⟨hash, Token.kind_of_piece hhash,
    .use keyword (Token.kind_of_piece hkeyword) library (.inr hkind)⟩, rfl, ?_⟩
  show Directive.use (libraryName library) = _
  rw [libraryName, if_pos hkind, htext, unquote_doubled path hclosing]

/-- Such tokens are read as the directive that names the library. -/
theorem runOn_useLine {path closing : List Char} (hclosing : closing ∈ closings)
    {line : List (Token Kind)}
    (h : (Cursor.shown .codeOnly line).map Token.piece = (usePieces path closing).filter isCode)
    (report : Report) : ∃ cursor, directive.runOn report (.onCode line) =
      (.ok (.use (String.ofList path)), cursor, report) := by
  obtain ⟨l, hyield, hdirective⟩ := exists_useLine hclosing h
  have hp : Parser.Faces { cursor := .onCode line, report } l.yield :=
    ⟨Cursor.valid_ofTokens _ _, (Cursor.ahead_ofTokens _ _).trans hyield.symm⟩
  rw [Parse.runOn, l.takes.whole hp, hdirective]
  exact ⟨_, rfl⟩

/-- **Library paths.** A path without line breaks, in quotes and with each quote in it doubled, is
read as what was written and nothing is reported, also where the closing quote was left out. -/
theorem library_path_reads_back {path : String} (hreturn : '\r' ∉ path.toList)
    (hfeed : '\n' ∉ path.toList) {closing : String} (hclosing : closing = "\"" ∨ closing = "")
    (source : String) (former : Report) (mode : Prediction) :
    let text := "#Использовать \"" ++ String.ofList (doubled path.toList) ++ closing
    let line := lexicalRules.tokenize source text
    let run := directive.runOn (former.reset.setMode mode) (.onCode line)
    run.1 = .ok (.use path) ∧ run.2.2.diagnostics = [] := by
  intro text line
  have hends : closing.toList ∈ closings := by
    rcases hclosing with rfl | rfl <;> decide
  have hunbroken : ∀ c ∈ path.toList, isLineBreak c = false := by
    intro c hc
    have hother : c ≠ '\r' ∧ c ≠ '\n' :=
      ⟨fun heq => hreturn (heq ▸ hc), fun heq => hfeed (heq ▸ hc)⟩
    simp [isLineBreak, hother]
  have htext : text.toList = textOf (usePieces path.toList closing.toList) := by
    simp [text, usePieces]
  have hmark : dropByteOrderMark text.toList = textOf (usePieces path.toList closing.toList) := by
    rw [htext]
    exact dropByteOrderMark_eq_self fun h => absurd (Option.some.inj h) (by decide)
  have hshown : (Cursor.shown .codeOnly line).map Token.piece =
      (usePieces path.toList closing.toList).filter isCode :=
    Cut.shown lexicalRules_plain (cut_useLine hunbroken hends) hmark
  have hread := runOn_useLine hends hshown (former.reset.setMode mode)
  rw [String.ofList_toList] at hread
  revert hread
  generalize directive.runOn (former.reset.setMode mode) (.onCode line) = run
  rintro ⟨cursor, rfl⟩
  exact ⟨rfl, rfl⟩

/-- A path that ends with two quotes, and is not closed. -/
theorem library_path_reads_back_open :
    let path := "a b\"\""
    '\r' ∉ path.toList ∧ '\n' ∉ path.toList ∧
    let text := "#Использовать \"" ++ String.ofList (doubled path.toList) ++ ""
    let run := directive.runOn (({} : Report).reset.setMode .general)
      (.onCode (lexicalRules.tokenize "" text))
    run.1 = .ok (.use path) ∧ run.2.2.diagnostics = [] := by
  have hreturn : '\r' ∉ "a b\"\"".toList := by decide
  have hfeed : '\n' ∉ "a b\"\"".toList := by decide
  exact ⟨hreturn, hfeed, library_path_reads_back hreturn hfeed (.inr rfl) "" {} .general⟩

end BuiltInScript.Module
