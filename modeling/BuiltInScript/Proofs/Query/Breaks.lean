import BuiltInScript.Proofs.Lexing.Positions
import BuiltInScript.Proofs.Query.Lexis

/-!
# The lexical rules of queries cut no line break

A string literal of a query may hold line breaks, but it ends with a quote or with the text.

**Results.**
* `stringBody_whole`: a string literal cuts no line break.
* `lexicalRules_whole`: nor do the rules of either mode.
-/
namespace BuiltInScript.Query

open Text
open BuiltInScript.Lexeme (Whole)

/-- A literal that is closed ends with a quote, and one that is not takes all that is left. -/
theorem stringBody_ends (cs : List Char) :
    (cs.take (stringBody cs).1).getLast? = some '"' ∨ cs.drop (stringBody cs).1 = [] := by
  fun_induction stringBody cs with
  | case1 => exact .inr rfl
  | case2 rest n closed heq ih =>
    rw [heq] at ih
    rcases ih with h | h
    · exact .inl (by simp [List.getLast?_cons, h])
    · exact .inr h
  | case3 rest h => exact .inl rfl
  | case4 c rest h₁ h₂ n closed heq ih =>
    rw [heq] at ih
    rcases ih with h | h
    · exact .inl (by simp [List.getLast?_cons, h])
    · exact .inr h

theorem stringBody_whole (c : Char) (cs : List Char) (kind : Kind) :
    (⟨kind, (stringBody cs).1⟩ : Lexeme Kind).Whole c cs := by
  rcases stringBody_ends cs with h | h
  · rintro ⟨hreturn, -⟩
    simp [List.getLast?_cons, h] at hreturn
  · exact .of_head? (by rw [h]; exact nofun)

variable (s : State) {c : Char} (cs : List Char)

theorem readWord_whole (hc : c ≠ '\r') : (readWord s c cs).1.Whole c cs := by
  unfold readWord
  dsimp only
  split <;> exact .run hc (by decide) _

theorem readToken_whole : (readToken s c cs).1.Whole c cs := by
  have hbody := stringBody_whole c cs
  unfold readToken
  split
  · exact .run_of_feed rfl _
  · rename_i hblank
    have hc : c ≠ '\r' := by
      rintro rfl
      exact hblank rfl
    split
    · exact .run hc rfl _
    · split
      · exact .run hc rfl _
      · split
        · split <;> rename_i n heq <;> rw [heq] at hbody <;> exact hbody _
        · exact .run hc (by decide) _
        · exact .sign hc _
        · split
          · exact .second hc ‹_› (by decide) _
          · exact .second hc ‹_› (by decide) _
          · exact .sign hc _
        · split
          · exact .second hc ‹_› (by decide) _
          · exact .sign hc _
        · split
          · exact .sign hc _
          · split
            · exact readWord_whole s cs hc
            · exact .sign hc _

/-- The rules of neither mode cut a line break. -/
theorem lexicalRules_whole : lexicalRules.Whole := by
  intro s c cs
  show (read s c cs).1.Whole c cs
  unfold read
  split
  · exact readToken_whole _ cs
  · exact readToken_whole s cs

end BuiltInScript.Query
