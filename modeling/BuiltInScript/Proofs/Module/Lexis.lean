import BuiltInScript.Module.Lexis
import BuiltInScript.Proofs.Lexing.Tiling

/-!
# The lexical rules of modules tell of what is there

In every mode a rule makes a token of a kind of its own, never an end marker, and counts only
characters that are there.

**Results.**
* `wordKind_of_forall`, `directiveWordKind_of_forall`, `annotationKind_of_forall`,
  `signKind_of_forall`, `patchMarker?_of_forall`: what is true of all entries of the tables is true
  of the kinds that rules make with them.
* `patchMarker?_fits`, `endDeleteLength?_le`: looking ahead never looks past the end.
* `readDeleted_length`, `readDirective_text_length`: the rules that count from the first character
  on, or that stop at many characters, never come to nothing.
* `readCode_fits`, …, `readDeleted_fits`: the rules of a mode.
* `lexicalRules_plain`: the rules of all modes.
-/
namespace BuiltInScript

namespace Module

open Text

/-! ## Kinds -/

section
variable {P : Kind → Prop}

theorem wordKind_of_forall (hkeywords : ∀ kind ∈ keywords.map Prod.snd, P kind)
    (hawait : P .kwAwait) (hname : P .identifier) (memory : AsyncMemory) (word : List Char) :
    P (wordKind memory word) := by
  unfold wordKind
  split
  · rename_i kind hkind
    exact hkeywords kind (WordTable.mem_of_find? hkind)
  · split
    · exact hawait
    · exact hname

theorem directiveWordKind_of_forall (hwords : ∀ kind ∈ directiveWords.map Prod.snd, P kind)
    (hsymbol : P .dirSymbol) (hname : P .dirIdentifier) (word : List Char) :
    P (directiveWordKind word) := by
  unfold directiveWordKind
  split
  · rename_i kind hkind
    exact hwords kind (WordTable.mem_of_find? hkind)
  · split
    · exact hsymbol
    · exact hname

theorem annotationKind_of_forall (hwords : ∀ kind ∈ annotationWords.map Prod.snd, P kind)
    (hcustom : P .annotationCustom) (word : List Char) :
    P ((annotationWords.find? word).getD .annotationCustom) := by
  cases hkind : annotationWords.find? word with
  | none => exact hcustom
  | some kind => exact hwords kind (WordTable.mem_of_find? hkind)

theorem signKind_of_forall (hsigns : ∀ kind ∈ signs.map Prod.snd, P kind) {c : Char} {kind : Kind}
    (h : signs.lookup c = some kind) : P kind := hsigns kind (mem_map_snd_of_lookup h)

theorem patchMarker?_of_forall (hwords : ∀ kind ∈ patchWords.map Prod.snd, P kind)
    {cs : List Char} {kind : Kind} {n : Nat} (h : patchMarker? cs = some (kind, n)) : P kind := by
  unfold patchMarker? at h
  obtain ⟨found, hfound, heq⟩ := Option.map_eq_some_iff.1 h
  cases heq
  exact hwords kind (WordTable.mem_of_find? hfound)

end

/-! ## Pieces of tokens -/

/-- A string ends with its line at the latest. -/
theorem stringBody_unbroken (cs : List Char) :
    ∀ d ∈ cs.take (stringBody cs).1, isLineBreak d = false := by
  fun_induction stringBody cs with
  | case1 => simp
  | case2 rest n closed heq ih =>
    rw [heq] at ih
    simpa [isLineBreak] using ih
  | case3 => simp [isLineBreak]
  | case4 => simp
  | case5 c rest h₁ h₂ hbreak n closed heq ih =>
    rw [heq] at ih
    simpa [hbreak] using ih

theorem numberRest_le_length (cs : List Char) : numberRest cs ≤ cs.length := by
  have hdigits := run_le_length isDigit cs
  unfold numberRest
  dsimp only
  split
  · rename_i rest hdrop
    have hlength := congrArg List.length hdrop
    have hrest := run_le_length isDigit rest
    rw [List.length_drop, List.length_cons] at hlength
    split <;> omega
  · exact hdigits

/-- A patch marker is what its table says, and its word is there. -/
theorem patchMarker?_fits {cs : List Char} {kind : Kind} {n : Nat}
    (h : patchMarker? cs = some (kind, n)) : (⟨kind, n⟩ : Lexeme Kind).Fits cs := by
  refine ⟨patchMarker?_of_forall (P := (· ≠ .endOfInput)) (by decide) h, ?_⟩
  unfold patchMarker? skipInlineBlanks run at h
  dsimp only at h
  obtain ⟨found, -, heq⟩ := Option.map_eq_some_iff.1 h
  cases heq
  have hsplit := congrArg List.length
    (List.takeWhile_append_dropWhile (p := isInlineBlank) (l := cs))
  have hword : ((cs.dropWhile isInlineBlank).takeWhile isWordChar).length ≤
      (cs.dropWhile isInlineBlank).length := (List.takeWhile_sublist _).length_le
  rw [List.length_append] at hsplit
  dsimp only
  omega

theorem endDeleteLength?_le {cs : List Char} {n : Nat} (h : endDeleteLength? cs = some n) :
    n ≤ cs.length := by
  unfold endDeleteLength? skipInlineBlanks run at h
  dsimp only at h
  have hsplit := congrArg List.length
    (List.takeWhile_append_dropWhile (p := isInlineBlank) (l := cs))
  rw [List.length_append] at hsplit
  split at h
  · rename_i rest hrest
    rw [hrest, List.length_cons] at hsplit
    split at h
    · rename_i m hmarker
      have := (patchMarker?_fits hmarker).more_le
      cases h
      dsimp only at this
      omega
    · cases h
  · cases h

theorem lineBreakLength_le_length (cs : List Char) : Scanner.lineBreakLength cs ≤ cs.length := by
  unfold Scanner.lineBreakLength
  split <;> simp

theorem lineLength_le_length (cs : List Char) : lineLength cs ≤ cs.length := by
  have hline : commentRest cs ≤ cs.length := run_le_length _ cs
  have hbreak := lineBreakLength_le_length (cs.drop (commentRest cs))
  rw [List.length_drop] at hbreak
  unfold lineLength
  dsimp only
  omega

/-- A line has at least one character, be it of its line break. -/
theorem lineLength_pos (c : Char) (cs : List Char) : 0 < lineLength (c :: cs) := by
  have hbreak : isLineBreak c = true → 0 < Scanner.lineBreakLength (c :: cs) := by
    intro h
    simp only [isLineBreak, Bool.or_eq_true, beq_iff_eq] at h
    unfold Scanner.lineBreakLength
    rcases h with rfl | rfl <;> split <;> simp_all
  unfold lineLength commentRest run
  cases h : isLineBreak c with
  | false =>
    rw [List.takeWhile_cons_of_pos (by simp [h]), List.length_cons]
    exact Nat.add_pos_left (Nat.succ_pos _) _
  | true => simpa [h] using hbreak h

/-- The marker that ends a deletion zone has its `#` at least. -/
theorem endDeleteLength?_pos {cs : List Char} {n : Nat} (h : endDeleteLength? cs = some n) :
    0 < n := by
  unfold endDeleteLength? skipInlineBlanks at h
  dsimp only at h
  split at h
  · split at h
    · cases h
      omega
    · cases h
  · cases h

/-! ## Modes -/

variable (s : State) (c : Char) (cs : List Char)

/-- In a deletion zone the marker that ends it is read, or else a line with its line break. Neither
is empty, so a character less is meant as it is said. -/
theorem readDeleted_length :
    (readDeleted s c cs).1.more + 1 = (endDeleteLength? (c :: cs)).getD (lineLength (c :: cs)) := by
  unfold readDeleted
  split
  · rename_i n hmarker
    rw [hmarker, Option.getD_some]
    exact Nat.sub_add_cancel (endDeleteLength?_pos hmarker)
  · rename_i hmarker
    rw [hmarker, Option.getD_none]
    exact Nat.sub_add_cancel (lineLength_pos c cs)

/-- Other text of a directive stops at many characters, but never at its first: what it may not
begin with was read by other rules. -/
theorem readDirective_text_length (h : (readDirective s c cs).1.kind = .dirText) :
    (readDirective s c cs).1.more + 1 =
      run (fun c => !isBlank c && c != '(' && c != ')' && c != '"' && c != '#') (c :: cs) := by
  revert h
  unfold readDirective
  split
  · exact fun h => nomatch h
  · rename_i hbreak
    split
    · exact fun h => nomatch h
    · rename_i hinline
      split
      · exact fun h => nomatch h
      · split
        · exact fun h => nomatch h
        · exact fun h => nomatch h
        · exact fun h => nomatch h
        · exact fun h => nomatch h
        · exact fun h => nomatch h
        · rename_i hopen hclose _ hhash hquote
          split
          · exact fun h => absurd h (directiveWordKind_of_forall (P := (· ≠ .dirText)) (by decide)
              nofun nofun _)
          · intro _
            have hblank : isBlank c = false := by
              simpa [isInlineBlank, hbreak] using hinline
            rw [run, run, List.takeWhile_cons_of_pos (by simp_all), List.length_cons]

theorem readWord_fits : (readWord s c cs).1.Fits cs :=
  ⟨wordKind_of_forall (P := (· ≠ .endOfInput)) (by decide) nofun nofun _ _,
    run_le_length isWordChar cs⟩

theorem readString_fits : (readString s cs).1.Fits cs := by
  have hbody := stringBody_le_length cs
  unfold readString
  split <;> rename_i n heq <;> rw [heq] at hbody <;> exact ⟨nofun, hbody⟩

theorem readDate_fits : (readDate s cs).1.Fits cs := by
  have hrun := run_le_length (fun c => c != '\'' && !isLineBreak c) cs
  unfold readDate
  dsimp only
  split
  · rename_i hquote
    refine ⟨nofun, ?_⟩
    dsimp only
    have hlt : run (fun c => c != '\'' && !isLineBreak c) cs < cs.length := by
      refine Nat.lt_of_not_le fun hge => ?_
      rw [List.drop_eq_nil_of_le hge] at hquote
      cases hquote
    omega
  · exact ⟨nofun, hrun⟩

theorem readHash_fits : (readHash s cs).1.Fits cs := by
  unfold readHash
  split
  · rename_i kind n hmarker
    exact patchMarker?_fits hmarker
  · exact ⟨nofun, Nat.zero_le _⟩

theorem readCode_fits : (readCode s c cs).1.Fits cs := by
  unfold readCode
  split
  · exact ⟨nofun, run_le_length _ _⟩
  · split
    · exact ⟨nofun, run_le_length _ _⟩
    · split
      · exact ⟨nofun, numberRest_le_length cs⟩
      · split
        · exact readString_fits s cs
        · exact readDate_fits s cs
        · exact readHash_fits s cs
        · exact ⟨nofun, Nat.zero_le _⟩
        · exact ⟨nofun, Nat.zero_le _⟩
        · split
          · exact .second nofun ‹_›
          · exact .second nofun ‹_›
          · exact ⟨nofun, Nat.zero_le _⟩
        · split
          · exact .second nofun ‹_›
          · exact ⟨nofun, Nat.zero_le _⟩
        · split
          · rename_i kind hsign
            exact ⟨signKind_of_forall (P := (· ≠ .endOfInput)) (by decide) hsign, Nat.zero_le _⟩
          · split
            · exact readWord_fits s _ cs
            · exact ⟨nofun, Nat.zero_le _⟩

theorem readAfterDot_fits : (readAfterDot s c cs).1.Fits cs := by
  unfold readAfterDot
  split
  · exact ⟨nofun, run_le_length _ _⟩
  · split
    · exact ⟨nofun, run_le_length _ _⟩
    · exact readCode_fits _ c cs

theorem readAfterAmpersand_fits : (readAfterAmpersand s c cs).1.Fits cs := by
  unfold readAfterAmpersand
  split
  · exact ⟨annotationKind_of_forall (P := (· ≠ .endOfInput)) (by decide) nofun _,
      run_le_length isWordChar cs⟩
  · exact readCode_fits _ c cs

theorem readDirectiveEnd_fits : (readDirectiveEnd s c cs).1.Fits cs := by
  unfold readDirectiveEnd
  split
  · rename_i hbreak
    exact .second nofun (of_decide_eq_true (Bool.and_eq_true_iff.1 hbreak).2)
  · exact ⟨nofun, Nat.zero_le _⟩

theorem readDirective_fits : (readDirective s c cs).1.Fits cs := by
  unfold readDirective
  split
  · exact readDirectiveEnd_fits s c cs
  · split
    · exact ⟨nofun, run_le_length _ _⟩
    · split
      · exact ⟨nofun, run_le_length _ _⟩
      · split
        · exact ⟨nofun, Nat.zero_le _⟩
        · exact ⟨nofun, Nat.zero_le _⟩
        · exact ⟨nofun, Nat.zero_le _⟩
        · exact ⟨nofun, Nat.zero_le _⟩
        · exact ⟨nofun, stringBody_le_length cs⟩
        · split
          · exact ⟨directiveWordKind_of_forall (P := (· ≠ .endOfInput)) (by decide) nofun nofun _,
              run_le_length isWordChar cs⟩
          · exact ⟨nofun, run_le_length _ _⟩

theorem readRegionName_fits : (readRegionName s c cs).1.Fits cs := by
  unfold readRegionName
  split
  · exact readDirectiveEnd_fits s c cs
  · split
    · exact ⟨nofun, run_le_length _ _⟩
    · split
      · exact ⟨nofun, run_le_length _ _⟩
      · exact readDirective_fits s c cs

theorem readUsePath_fits : (readUsePath s c cs).1.Fits cs := by
  unfold readUsePath
  split
  · exact readDirectiveEnd_fits s c cs
  · split
    · exact ⟨nofun, run_le_length _ _⟩
    · split
      · exact ⟨nofun, stringBody_le_length cs⟩
      · exact ⟨nofun, run_le_length _ _⟩

theorem readBetweenLines_fits : (readBetweenLines s c cs).1.Fits cs := by
  have hbody := stringBody_le_length cs
  unfold readBetweenLines
  split
  · exact ⟨nofun, run_le_length _ _⟩
  · split
    · exact ⟨nofun, run_le_length _ _⟩
    · split
      · exact readHash_fits s cs
      · split
        · split <;> rename_i n heq <;> rw [heq] at hbody <;> exact ⟨nofun, hbody⟩
        · exact readCode_fits _ c cs

/-- A marker or a line of deleted text begins with the first character. -/
theorem readDeleted_fits : (readDeleted s c cs).1.Fits cs := by
  have hkind : (readDeleted s c cs).1.kind ≠ .endOfInput := by
    unfold readDeleted
    split <;> nofun
  have hle : (endDeleteLength? (c :: cs)).getD (lineLength (c :: cs)) ≤ (c :: cs).length := by
    cases hmarker : endDeleteLength? (c :: cs) with
    | some n => exact endDeleteLength?_le hmarker
    | none => exact lineLength_le_length (c :: cs)
  rw [← readDeleted_length s c cs, List.length_cons] at hle
  exact ⟨hkind, Nat.le_of_succ_le_succ hle⟩

/-- The rules of all modes tell of what is there. -/
theorem lexicalRules_plain : lexicalRules.Plain := by
  intro s c cs
  show (read s c cs).1.Fits cs
  unfold read
  split
  · exact readCode_fits s c cs
  · exact readAfterDot_fits s c cs
  · exact readAfterAmpersand_fits s c cs
  · exact readDirective_fits s c cs
  · exact readRegionName_fits s c cs
  · exact readUsePath_fits s c cs
  · exact readBetweenLines_fits s c cs
  · exact readDeleted_fits s c cs

end Module
end BuiltInScript
