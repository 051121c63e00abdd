import BuiltInScript.Proofs.Lexing.Positions
import BuiltInScript.Proofs.Module.Lexis

/-!
# The lexical rules of modules cut no line break

A token of a module ends within a `\r\n` in no mode. Most tokens hold no `\r` at all. Of the others,
white space runs on over line breaks, and the end of a directive and a line of deleted text take a
line break as a whole.

**Results.**
* `stringBody_clear`, `numberRest_clear`, `patchMarker?_clear`: pieces without a `\r`.
* `lineLength_whole`: a line ends with its line break.
* `lexicalRules_whole`: the rules of all modes.
-/
namespace BuiltInScript.Module

open Text
open BuiltInScript.Lexeme (Whole)

/-! ## Pieces of tokens -/

theorem stringBody_clear (cs : List Char) : '\r' ∉ cs.take (stringBody cs).1 :=
  fun h => absurd (stringBody_unbroken cs _ h) (by decide)

theorem numberRest_clear (cs : List Char) : '\r' ∉ cs.take (numberRest cs) := by
  have hdigits := @notMem_take_length_takeWhile isDigit '\r' rfl
  unfold numberRest
  dsimp only
  split
  · rename_i rest hdrop
    split
    · exact hdigits cs
    · rw [Nat.add_assoc, List.take_add, hdrop, Nat.add_comm 1, List.take_succ_cons]
      simp only [List.mem_append, List.mem_cons, not_or]
      exact ⟨hdigits cs, by decide, hdigits rest⟩
  · exact hdigits cs

theorem patchMarker?_clear {cs : List Char} {kind : Kind} {n : Nat}
    (h : patchMarker? cs = some (kind, n)) : '\r' ∉ cs.take n := by
  unfold patchMarker? skipInlineBlanks at h
  dsimp only at h
  obtain ⟨found, -, heq⟩ := Option.map_eq_some_iff.1 h
  cases heq
  rw [run, List.take_add, drop_length_takeWhile, List.mem_append, not_or]
  exact ⟨notMem_take_length_takeWhile rfl cs,
    notMem_take_length_takeWhile (by decide) (cs.dropWhile isInlineBlank)⟩

/-- The marker that ends a deletion zone is blanks, a `#`, blanks and a word. -/
theorem endDeleteLength?_clear {cs : List Char} {n : Nat} (h : endDeleteLength? cs = some n) :
    '\r' ∉ cs.take n := by
  unfold endDeleteLength? skipInlineBlanks at h
  dsimp only at h
  split at h
  · rename_i rest hrest
    split at h
    · rename_i m hmarker
      cases h
      rw [run, Nat.add_assoc, List.take_add, drop_length_takeWhile, hrest, Nat.add_comm 1,
        List.take_succ_cons, List.mem_append, List.mem_cons, not_or, not_or]
      exact ⟨notMem_take_length_takeWhile rfl cs, by decide, patchMarker?_clear hmarker⟩
    · cases h
  · cases h

/-- A line break is taken as a whole. -/
theorem lineBreakLength_whole (line cs : List Char) :
    ¬CutsBreak (line ++ cs.take (Scanner.lineBreakLength cs))
      (cs.drop (Scanner.lineBreakLength cs)) := by
  fun_cases Scanner.lineBreakLength cs with
  | case1 rest => simp [CutsBreak]
  | case2 rest h =>
    rintro ⟨-, hfeed⟩
    obtain ⟨after, hafter⟩ := List.head?_eq_some_iff.1 hfeed
    exact h after hafter
  | case3 rest => simp [CutsBreak]
  | case4 _ _ _ h =>
    rintro ⟨-, hfeed⟩
    obtain ⟨after, hafter⟩ := List.head?_eq_some_iff.1 hfeed
    exact h after hafter

/-- So a line ends with its line break. -/
theorem lineLength_whole (cs : List Char) :
    ¬CutsBreak (cs.take (lineLength cs)) (cs.drop (lineLength cs)) := by
  rw [lineLength, List.take_add, ← List.drop_drop]
  exact lineBreakLength_whole _ _

/-! ## Modes -/

variable (s : State) {c : Char} (cs : List Char)

theorem ne_return_of_isBlank_false (h : ¬isBlank c = true) : c ≠ '\r' := by
  rintro rfl
  exact h rfl

theorem readWord_whole (hc : c ≠ '\r') : (readWord s c cs).1.Whole c cs :=
  .run hc (by decide) _

theorem readString_whole (hc : c ≠ '\r') : (readString s cs).1.Whole c cs := by
  have hbody := stringBody_clear cs
  unfold readString
  split <;> rename_i n heq <;> rw [heq] at hbody <;> exact .of_notMem hc hbody

theorem readDate_whole (hc : c ≠ '\r') : (readDate s cs).1.Whole c cs := by
  unfold readDate
  dsimp only
  split
  · rename_i hquote
    refine .of_notMem hc ?_
    obtain ⟨rest, hrest⟩ := List.head?_eq_some_iff.1 hquote
    rw [List.take_add, hrest, List.take_succ_cons, List.mem_append, not_or]
    exact ⟨notMem_take_length_takeWhile rfl cs, by simp⟩
  · exact .run hc rfl _

theorem readHash_whole (hc : c ≠ '\r') : (readHash s cs).1.Whole c cs := by
  unfold readHash
  split
  · rename_i kind n hmarker
    exact .of_notMem hc (patchMarker?_clear hmarker)
  · exact .sign hc _

theorem readCode_whole : (readCode s c cs).1.Whole c cs := by
  unfold readCode
  split
  · exact .run_of_feed rfl _
  · rename_i hblank
    have hc := ne_return_of_isBlank_false hblank
    split
    · exact .run hc rfl _
    · split
      · exact .of_notMem hc (numberRest_clear cs)
      · split
        · exact readString_whole s cs hc
        · exact readDate_whole s cs hc
        · exact readHash_whole s cs hc
        · exact .sign hc _
        · exact .sign hc _
        · split
          · exact .second hc ‹_› (by decide) _
          · exact .second hc ‹_› (by decide) _
          · exact .sign hc _
        · split
          · exact .second hc ‹_› (by decide) _
          · exact .sign hc _
        · split
          · exact .sign hc _
          · split
            · exact readWord_whole s cs hc
            · exact .sign hc _

theorem ne_return_of_isInlineBlank (h : isInlineBlank c = true) : c ≠ '\r' := by
  rintro rfl
  exact absurd h (by decide)

theorem ne_return_of_isWordChar (h : isWordChar c = true) : c ≠ '\r' := by
  rintro rfl
  exact absurd h (by decide)

theorem readAfterDot_whole : (readAfterDot s c cs).1.Whole c cs := by
  unfold readAfterDot
  split
  · exact .run (ne_return_of_isInlineBlank ‹_›) rfl _
  · split
    · rename_i hword
      exact .run (ne_return_of_isWordChar (isWordChar_of_isWordStart hword)) (by decide) _
    · exact readCode_whole _ cs

theorem readAfterAmpersand_whole : (readAfterAmpersand s c cs).1.Whole c cs := by
  unfold readAfterAmpersand
  split
  · rename_i hword
    exact .run (ne_return_of_isWordChar (isWordChar_of_isWordStart hword)) (by decide) _
  · exact readCode_whole _ cs

/-- The end of a directive is a whole line break. -/
theorem readDirectiveEnd_whole : (readDirectiveEnd s c cs).1.Whole c cs := by
  unfold readDirectiveEnd
  split
  · rename_i hbreak
    have hfeed : cs.head? = some '\n' := of_decide_eq_true (Bool.and_eq_true_iff.1 hbreak).2
    obtain ⟨rest, rfl⟩ := List.head?_eq_some_iff.1 hfeed
    exact fun hcut => nomatch hcut.1
  · rename_i hbreak
    rintro ⟨hreturn, hfeed⟩
    exact hbreak (by simp_all)

theorem readDirective_whole : (readDirective s c cs).1.Whole c cs := by
  unfold readDirective
  split
  · exact readDirectiveEnd_whole s cs
  · rename_i hbreak
    have hc : c ≠ '\r' := by
      rintro rfl
      exact hbreak rfl
    split
    · exact .run hc rfl _
    · split
      · exact .run hc rfl _
      · split
        · exact .sign hc _
        · exact .sign hc _
        · exact .sign hc _
        · exact .sign hc _
        · exact .of_notMem hc (stringBody_clear cs)
        · split
          · exact .run hc (by decide) _
          · exact .run hc rfl _

theorem readRegionName_whole : (readRegionName s c cs).1.Whole c cs := by
  unfold readRegionName
  split
  · exact readDirectiveEnd_whole s cs
  · split
    · exact .run (ne_return_of_isInlineBlank ‹_›) rfl _
    · split
      · exact .run (ne_return_of_isWordChar ‹_›) (by decide) _
      · exact readDirective_whole s cs

theorem readUsePath_whole : (readUsePath s c cs).1.Whole c cs := by
  unfold readUsePath
  split
  · exact readDirectiveEnd_whole s cs
  · rename_i hbreak
    have hc : c ≠ '\r' := by
      rintro rfl
      exact hbreak rfl
    split
    · exact .run hc rfl _
    · split
      · exact .of_notMem hc (stringBody_clear cs)
      · exact .run hc rfl _

theorem readBetweenLines_whole : (readBetweenLines s c cs).1.Whole c cs := by
  have hbody := stringBody_clear cs
  unfold readBetweenLines
  split
  · exact .run_of_feed rfl _
  · rename_i hblank
    have hc := ne_return_of_isBlank_false hblank
    split
    · exact .run hc rfl _
    · split
      · exact readHash_whole s cs hc
      · split
        · split <;> rename_i n heq <;> rw [heq] at hbody <;> exact .of_notMem hc hbody
        · exact readCode_whole _ cs

theorem readDeleted_whole : (readDeleted s c cs).1.Whole c cs := by
  unfold readDeleted
  split
  · rename_i n hmarker
    have hclear := endDeleteLength?_clear hmarker
    exact .of_length (endDeleteLength?_pos hmarker)
      (fun hcut => hclear (List.mem_of_getLast? hcut.1)) _
  · exact .of_length (lineLength_pos c cs) (lineLength_whole (c :: cs)) _

/-- The rules of no mode cut a line break. -/
theorem lexicalRules_whole : lexicalRules.Whole := by
  intro s c cs
  show (read s c cs).1.Whole c cs
  unfold read
  split
  · exact readCode_whole s cs
  · exact readAfterDot_whole s cs
  · exact readAfterAmpersand_whole s cs
  · exact readDirective_whole s cs
  · exact readRegionName_whole s cs
  · exact readUsePath_whole s cs
  · exact readBetweenLines_whole s cs
  · exact readDeleted_whole s cs

end BuiltInScript.Module
