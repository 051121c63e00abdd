import BuiltInScript.Proofs.Compilation.Selection
import BuiltInScript.Proofs.Module.Directive
import BuiltInScript.Proofs.Module.Lexis

/-!
# What is compiled of a module

The lexer keeps patch markers out of the code and puts its end marker last, so the code that a
preprocessor passes on is what the blocks around each token choose. The directives that open and
close the blocks hold whatever stands after them on their lines.

**Results.**
* `lexed_scannable`: the tokens of every text are as a scan needs them.
* `directiveOf_append`, `directiveOf_block`: what stands after a directive does not undo it.
* `preprocess_chosen`: the preprocessor compiles the code whose branches are chosen, and nothing
  else.
-/
namespace BuiltInScript.Compilation

open BuiltInScript.Module

/-! ## Tokens of a text -/

theorem channels_of_isPatchMarker {kind : Kind} (h : kind.isPatchMarker = true) :
    kind.channels ≠ .codeOnly := by
  revert h
  cases kind <;> decide

/-- The tokens of a text, with the end marker hidden or not: they end with a marker, and patch
markers are not code. -/
theorem lexed_scannable (name text : String) {tokens : List (Token Kind)}
    (h : tokens = lexicalRules.tokenize name text ∨
      tokens = hideLast (lexicalRules.tokenize name text)) :
    EndsLast tokens ∧ MarkersHidden tokens := by
  obtain ⟨body, marker, heq, -, hbody⟩ := (lexicalRules_plain.lossless name text).tokenize_ends
  have hends (last : Token Kind) : EndsLast (body ++ [last]) := by
    intro t ht
    rw [List.dropLast_concat] at ht
    exact hbody t ht
  have hmarkers : MarkersHidden (body ++ [marker]) := by
    intro t ht hkind
    rw [← heq] at ht
    rw [Lexer.tokensUpTo_channels _ _ t ht]
    exact channels_of_isPatchMarker hkind
  rcases h with rfl | rfl <;> rw [heq]
  · exact ⟨hends marker, hmarkers⟩
  · rw [hideLast_concat]
    refine ⟨hends _, fun t ht hkind => ?_⟩
    rcases List.mem_append.1 ht with ht | ht
    · exact hmarkers t (List.mem_append_left _ ht) hkind
    · rw [List.mem_singleton.1 ht]
      exact show Channels.hiddenOnly ≠ .codeOnly by decide

/-! ## Directives and what follows them -/

/-- A report that is left from before makes no difference. -/
theorem readLine_found (report : Report) (line : List (Token Kind)) :
    (readLine report line).2.1 = directiveOf line := rfl

/-- A directive with more tokens after it has the effect that it has alone. -/
theorem directiveOf_append {report : Report} {line : List (Token Kind)} {d : Directive}
    (extra : List (Token Kind)) (hsilent : (readLine report line).1 = [])
    (hfound : (readLine report line).2.1 = some d) : directiveOf (line ++ extra) = some d := by
  rw [readLine_found, directiveOf] at hfound
  cases hread : (directive.runOn { mode := .general } (.onCode line)).1 with
  | error e =>
    rw [hread] at hfound
    cases hfound
  | ok found =>
    rw [hread] at hfound
    cases hfound
    rw [directiveOf, runOn_directive_append extra hread hsilent]
    rfl

theorem directiveOf_block {hash keyword : Token Kind} {rest : List (Token Kind)} {d : Directive}
    (hhash : hash.kind = .hash) (hcode : hash.channels = .codeOnly)
    (hcode' : keyword.channels = .codeOnly) (h : blockDirective? keyword.kind rest = some d) :
    directiveOf (hash :: keyword :: rest) = some d := by
  rw [directiveOf, runOn_directive_block _ hhash hcode hcode' h]
  rfl

/-! ## What is compiled -/

/-- **Conditional compilation.** Of a text the preprocessor passes on the code outside directive
lines for which all open blocks choose the current branch, and a hidden end marker. Only lines that
can be read open or close blocks. A directive that is complete holds whatever follows it, and
`#Если`, `#ИначеЕсли`, `#Иначе` and `#КонецЕсли` hold even without a condition. -/
theorem preprocess_chosen (p : Preprocessor) (name text : String) :
    (∀ tokens, (tokens = lexicalRules.tokenize name text ∨
        tokens = hideLast (lexicalRules.tokenize name text)) →
      (p.preprocess tokens).1.tokens = chosenCode p.symbols tokens ++
        [{ Token.endOf tokens with channels := .hiddenOnly }]) ∧
      (∀ (report : Report) (line extra : List (Token Kind)) (d : Directive),
        (readLine report line).1 = [] → (readLine report line).2.1 = some d →
          directiveOf (line ++ extra) = some d) ∧
      ∀ (hash keyword : Token Kind) (rest : List (Token Kind)) (d : Directive),
        hash.kind = .hash → hash.channels = .codeOnly → keyword.channels = .codeOnly →
          blockDirective? keyword.kind rest = some d →
            directiveOf (hash :: keyword :: rest) = some d := by
  refine ⟨fun tokens h => ?_, fun report line extra d => directiveOf_append extra,
    fun hash keyword rest d => directiveOf_block⟩
  obtain ⟨hends, hmarkers⟩ := lexed_scannable name text h
  exact congrArg (· ++ _) (scan_code p hends hmarkers)

/-- A branch without a condition is not compiled, the one after it is. `#Иначе` holds with more
after it, and `#Если` holds without a condition. -/
theorem preprocess_chosen_otherwise :
    let tokens := lexicalRules.tokenize "" "#Если\n1#Иначе\n2"
    let p : Preprocessor := { symbols := {} }
    let token (kind : Kind) : Token Kind := ⟨kind, .codeOnly, "", {}, 0, {}⟩
    (p.preprocess tokens).1.tokens.map Token.text = ["2", ""] ∧
      directiveOf ([token .hash, token .dirElse] ++ [token .dirNot]) = some .otherwise ∧
      directiveOf [token .hash, token .dirIf] = some (.ifBlock none) := by
  intro tokens p token
  obtain ⟨htokens, happend, hblock⟩ := preprocess_chosen p "" "#Если\n1#Иначе\n2"
  refine ⟨?_, ?_, ?_⟩
  · rw [htokens tokens (.inl rfl)]
    decide +kernel
  · exact happend {} _ _ _ (by decide) (by decide)
  · exact hblock _ _ [] _ rfl rfl rfl (by decide)

end BuiltInScript.Compilation
